import MiniDb.CheckpointControl
import MiniDb.Transactions

/-!
Sharp and fuzzy checkpoints, one I/O step at a time. A stage holds the local
variables of the call at that point; a call that stops at a stage leaves the
manager as it is there, whether it failed or the process died. The generation
is advanced by the last step only.
-/
namespace MiniDb
open ByteBlock Outcome

inductive CheckpointMode
  | sharp | fuzzy
  deriving DecidableEq

namespace Engine

def checkpointTransactions (e : Engine) : Result (List CheckpointTransactionEntry) := do
  require e.checkpointSafe (.logicError "Checkpoint requires a safe statement boundary")
  match e.context with
  | none => return []
  | some context =>
    match context.beginLsn, context.lastLsn with
    | some beginLsn, some lastLsn =>
      return [⟨context.transactionId, beginLsn, lastLsn, context.startPageCount⟩]
    | _, _ => return []

/-- `BufferPoolManager::validate` as far as the frames carry its data. -/
def validatePool (e : Engine) : Result Unit := do
  require (e.frames.entries.length ≤ e.frameCount)
    (.logicError "Buffer pool exceeds configured capacity")
  e.frames.entries.forM fun entry => do
    require (entry.1 ≠ 0 ∧ entry.1 ≠ invalidPageId ∧ entry.1 < e.disk.pageCount)
      (.logicError "Valid buffer frame has illegal or duplicate PageId")
    validateWalDependency e.log entry.2 false

def retiredFrame (frame : Frame) : Frame :=
  if frame.dirty = false ∧ frame.pageLsn.isSome then { frame with walDependencyRetired := true }
  else frame

def retireCheckpointCoveredDependencies (e : Engine) : Result Engine := do
  require (e.disk.writebackPending = false)
    (.logicError "Frame retirement requires synchronized physical writebacks")
  e.validatePool
  e.frames.entries.forM fun entry => do
    require (entry.2.pendingWalPreparation = false)
      (.logicError "Frame retirement requires a prepared checkpoint boundary")
    require (entry.2.dirty ∨ entry.2.walDependencyRetired ∨
      ∀ lsn ∈ entry.2.pageLsn, e.log.IsDurable lsn)
      (.logicError "Frame retirement requires durable WAL")
  return e.frames.entries.foldl (fun e entry => e.setFrame entry.1 (retiredFrame entry.2)) e

end Engine

structure CheckpointManager where
  engine : Engine
  control : ControlFile
  nextCheckpointId : Nat
  lastGeneration : Nat
  previousCheckpointEndLsn : Option Nat

/-- What the best-effort reclamation behind a checkpoint came to; its errors are
not passed on. -/
inductive Reclamation
  | failed | rotated | completed
  deriving DecidableEq

/-- A call of `checkpoint`: its mode, the order of the frame array, and how the
reclamation went. -/
structure CheckpointCall where
  mode : CheckpointMode
  order : List Nat
  reclamation : Reclamation

/-- The slot to publish, and the log position recovery may still ask for. -/
structure CheckpointPlan where
  slot : CheckpointSlot
  floor : Nat

inductive CheckpointStage
  | start
  | numbered (checkpointId : Nat)
  | fenced (checkpointId : Nat)
  | fuzzyBegun (checkpointId beginLsn : Nat)
  | sharpBegun (checkpointId beginLsn : Nat)
  | flushed (checkpointId beginLsn : Nat)
  | databaseSynced (checkpointId beginLsn : Nat)
  | ended (plan : CheckpointPlan)
  | publishing (plan : CheckpointPlan) (stage : PublishStage)
  | published (plan : CheckpointPlan)
  | retired (plan : CheckpointPlan)
  | reclaimed (plan : CheckpointPlan)
  | returned (slot : CheckpointSlot)

namespace CheckpointManager

def log (m : CheckpointManager) : LogManager := m.engine.log

def withLog (m : CheckpointManager) (log : LogManager) : CheckpointManager :=
  { m with engine := { m.engine with log := log } }

def appendCheckpoint (m : CheckpointManager) (payload : LogPayload) :
    Result (CheckpointManager × Nat) := do
  let (log, lsn) ← m.log.append 0 none payload
  return (m.withLog log, lsn)

def slotOf (m : CheckpointManager) (checkpointId endLsn recoveryStart walFileSize : Nat) :
    CheckpointSlot :=
  ⟨m.lastGeneration + 1, checkpointId, endLsn, recoveryStart, m.engine.disk.pageCount,
    m.engine.nextTransactionId, walFileSize⟩

/-- The oldest record that a recovery from this fuzzy checkpoint may read. -/
def retentionFloor (beginLsn : Nat) (dirtyPages : List DirtyPageEntry)
    (activeTransactions : List CheckpointTransactionEntry) : Nat :=
  activeTransactions.foldl (fun floor entry => min floor entry.beginLsn)
    (dirtyPages.foldl (fun floor entry => min floor entry.recLsn) beginLsn)

def requireCheckpointable (m : CheckpointManager) (mode : CheckpointMode) : Result Unit := do
  require (m.engine.checkpointSafe ∧ (mode = .sharp → m.engine.context.isNone))
    (.logicError "Checkpoint requires a safe boundary; sharp checkpoints require no writer")
  require (mode = .sharp → m.engine.totalPinCount = 0)
    (.logicError "Checkpoint requires zero pinned buffer frames")
  require (m.nextCheckpointId ≠ 0 ∧ m.lastGeneration ≠ 2 ^ 64 - 1)
    (.overflowError "Checkpoint identity space is exhausted")
  require (m.nextCheckpointId ≠ 2 ^ 64 - 1)
    (.overflowError "Checkpoint ID space is exhausted")

def endFuzzy (m : CheckpointManager) (checkpointId beginLsn : Nat) :
    Result (CheckpointManager × CheckpointPlan) := do
  let dirtyPages ← m.engine.dirtyPageTableSnapshot
  let activeTransactions ← m.engine.checkpointTransactions
  let (ended, endLsn) ← m.appendCheckpoint (.fuzzyCheckpointEnd ⟨checkpointId, beginLsn,
    m.engine.disk.pageCount, m.engine.nextTransactionId, dirtyPages, activeTransactions⟩)
  return (ended, ⟨m.slotOf checkpointId endLsn beginLsn ended.log.nextLsn,
    retentionFloor beginLsn dirtyPages activeTransactions⟩)

def endRecordSize : Nat := recordHeaderSize + 48

def endSharp (m : CheckpointManager) (checkpointId beginLsn : Nat) :
    Result (CheckpointManager × CheckpointPlan) := do
  let endLsn := m.log.nextLsn
  require (endLsn ≤ 2 ^ 64 - 1 - endRecordSize) (.overflowError "WAL offset space is exhausted")
  let recoveryStart := endLsn + endRecordSize
  let (ended, appendedEnd) ← m.appendCheckpoint (.checkpointEnd ⟨checkpointId, beginLsn,
    m.engine.disk.pageCount, m.engine.nextTransactionId, recoveryStart⟩)
  require (appendedEnd = endLsn ∧ ended.log.nextLsn = recoveryStart)
    (.logicError "CHECKPOINT_END size prediction disagrees with WAL encoding")
  return (ended, ⟨m.slotOf checkpointId endLsn recoveryStart recoveryStart, beginLsn⟩)

def reclaim (m : CheckpointManager) (floor : Nat) : Reclamation → CheckpointManager
  | .failed => m
  | .rotated => m.withLog m.log.rotateSegment
  | .completed => m.withLog (m.log.rotateSegment.reclaimSegmentsBefore floor 1)

def requireEmptyTable (m : CheckpointManager) (mode : CheckpointMode) : Result Unit :=
  match mode with
  | .fuzzy => .ok ()
  | .sharp => do
      let entries ← m.engine.dirtyPageTableSnapshot
      require (entries = []) (.logicError "Successful sharp checkpoint left a nonempty DPT")

/-- The next step of `checkpointExclusive`. -/
def advance (m : CheckpointManager) (call : CheckpointCall) :
    CheckpointStage → Result (CheckpointManager × CheckpointStage)
  | .start => do
      m.requireCheckpointable call.mode
      return ({ m with nextCheckpointId := m.nextCheckpointId + 1 }, .numbered m.nextCheckpointId)
  | .numbered checkpointId =>
    match call.mode with
    | .fuzzy => return ({ m with engine := { m.engine with
          disk := m.engine.disk.syncPendingWritebacks } }, .fenced checkpointId)
    | .sharp => do
        let (m', beginLsn) ← m.appendCheckpoint (.checkpointBegin
          ⟨checkpointId, m.previousCheckpointEndLsn, m.log.nextLsn⟩)
        return (m', .sharpBegun checkpointId beginLsn)
  | .fenced checkpointId => do
      let (m', beginLsn) ← m.appendCheckpoint (.fuzzyCheckpointBegin
        ⟨checkpointId, m.previousCheckpointEndLsn⟩)
      return (m', .fuzzyBegun checkpointId beginLsn)
  | .fuzzyBegun checkpointId beginLsn => do
      let (m', plan) ← m.endFuzzy checkpointId beginLsn
      return (m', .ended plan)
  | .sharpBegun checkpointId beginLsn => do
      let engine ← m.engine.flushAll call.order
      return ({ m with engine := engine }, .flushed checkpointId beginLsn)
  | .flushed checkpointId beginLsn =>
    return ({ m with engine := { m.engine with disk := m.engine.disk.sync } },
      .databaseSynced checkpointId beginLsn)
  | .databaseSynced checkpointId beginLsn => do
      let (m', plan) ← m.endSharp checkpointId beginLsn
      return (m', .ended plan)
  | .ended plan => do
      let log ← m.log.flushUpTo plan.slot.checkpointEndLsn
      return (m.withLog log, .publishing plan .opening)
  | .publishing plan stage =>
    match stage with
    | .synced => return (m, .published plan)
    | stage => do
        let (control, next) ← m.control.publish plan.slot stage
        return ({ m with control := control }, .publishing plan next)
  | .published plan => do
      let engine ← m.engine.retireCheckpointCoveredDependencies
      return ({ m with engine := engine }, .retired plan)
  | .retired plan => return (m.reclaim plan.floor call.reclamation, .reclaimed plan)
  | .reclaimed plan => do
      m.requireEmptyTable call.mode
      return ({ m with
        lastGeneration := m.lastGeneration + 1
        previousCheckpointEndLsn := some plan.slot.checkpointEndLsn }, .returned plan.slot)
  | .returned slot => return (m, .returned slot)

/-- The manager of a new process, over the checkpoint its recovery started from. -/
def construct (engine : Engine) (control : ControlFile) (slot : Option CheckpointSlot)
    (highestCheckpointId : Nat) : Result CheckpointManager := do
  require (highestCheckpointId ≠ 2 ^ 64 - 1)
    (.overflowError "Checkpoint ID space is exhausted")
  return ⟨engine, control, highestCheckpointId + 1, (slot.map (·.generation)).getD 0,
    slot.map (·.checkpointEndLsn)⟩

end CheckpointManager

end MiniDb
