import MiniDb.RecoveryCoordinator

/-!
Undo, shared by live rollback and startup recovery: the losers' chains are
walked backwards in one descending order of LSNs, and every compensation is
forced to the log before the page it restores is written. `Storage.trail` keeps
every state of disk and log passed on the way; no function reads it. It is kept
when an error ends the work, since the process may also stop before that error.
-/
namespace MiniDb
open ByteBlock Outcome

structure Storage where
  disk : DiskManager
  log : LogManager
  trail : List (DiskManager × LogManager)

structure Failure where
  error : DbError
  trail : List (DiskManager × LogManager)

abbrev Attempt := Except Failure

namespace Storage

def open_ (disk : DiskManager) (log : LogManager) : Storage := ⟨disk, log, [(disk, log)]⟩

/-- A step that does not touch the storage. -/
def attempt {α : Type} (s : Storage) : Result α → Attempt α
  | .ok a => .ok a
  | .error e => .error ⟨e, s.trail⟩

@[simp] theorem attempt_ok {α : Type} {s : Storage} {r : Result α} {a : α} :
    s.attempt r = .ok a ↔ r = .ok a := by
  cases r with
  | error e => simp [attempt]
  | ok b => simp [attempt]

def withDisk (s : Storage) (disk : DiskManager) : Storage :=
  ⟨disk, s.log, (disk, s.log) :: s.trail⟩

def withLog (s : Storage) (log : LogManager) : Storage :=
  ⟨s.disk, log, (s.disk, log) :: s.trail⟩

def append (s : Storage) (transactionId : Nat) (prevLsn : Option Nat) (payload : LogPayload) :
    Attempt (Storage × Nat) := do
  let (log, lsn) ← s.attempt (s.log.append transactionId prevLsn payload)
  return (s.withLog log, lsn)

def flushUpTo (s : Storage) (lsn : Nat) : Attempt Storage :=
  s.withLog <$> s.attempt (s.log.flushUpTo lsn)

def appendForced (s : Storage) (transactionId : Nat) (prevLsn : Option Nat)
    (payload : LogPayload) : Attempt (Storage × Nat) := do
  let (s, lsn) ← s.append transactionId prevLsn payload
  let s ← s.flushUpTo lsn
  return (s, lsn)

def writePhysicalPage (s : Storage) (pageId : Nat) (page : Page) : Attempt Storage :=
  s.withDisk <$> s.attempt (s.disk.writePhysicalPage pageId page)

def sync (s : Storage) : Storage := s.withDisk s.disk.sync

def truncateToPageCount (s : Storage) (count : Nat) : Attempt Storage :=
  s.withDisk <$> s.attempt (s.disk.truncateToPageCount count)

def reloadDatabaseHeader (s : Storage) : Attempt Storage :=
  s.withDisk <$> s.attempt s.disk.reloadDatabaseHeader

end Storage

/-- A transaction being undone. `undoNextLsn` is its entry in the work queue,
and `none` once nothing of it is queued. -/
structure Loser where
  transactionId : Nat
  rollbackProtocol : RollbackProtocol
  startPageCount : Nat
  beginLsn : Nat
  lastLsn : Nat
  cleanupBeginLsn : Option Nat
  reservationCount : Nat
  undoNextLsn : Option Nat
  aborted : Bool
  deriving DecidableEq

/-- The image an update record started from; `readUndoBase` gives what a delta needs. -/
def beforeImageOf (record : LogRecord) (readUndoBase : Nat → Result Page) : Result Page :=
  match record.payload with
  | .pageUpdate update => .ok update.beforeImage
  | .pageUpdateV2 update => .ok update.beforeImage
  | .pageDeltaUpdate update => do
      let base ← readUndoBase update.pageId
      applyPageDeltaBefore base update
  | .pageDeltaUpdateV2 update => do
      let base ← readUndoBase update.pageId
      let base ← clearPersistentPageLsn base
      applyPageDeltaBefore base update.logical
  | _ => .error (corruptRecord "UNDO target is not a page-update record")

def compensatedPageFor (record : LogRecord) (readUndoBase : Nat → Result Page) :
    Result Page := do
  let compensated ← beforeImageOf record readUndoBase
  Prod.snd <$> clearIfSupported compensated

/-- A queue entry without a target is the topmost one and cannot be read. -/
def requireTarget : Option Nat → Result Nat
  | some lsn => .ok lsn
  | none => .error (corruptRecord "Referenced logical WAL record is not retained")

def Loser.continueAt (loser : Loser) (s : Storage) (target : Option Nat) :
    Attempt (Storage × Loser) := do
  let next ← s.attempt (requireTarget target)
  return (s, { loser with undoNextLsn := some next })

/-- Logs, forces, writes and syncs one compensation. -/
def compensate (s : Storage) (loser : Loser) (record : LogRecord) (pageId : Nat)
    (compensated : Page) : Attempt (Storage × Loser) := do
  let pageSupportsLsn ← s.attempt (supportsPersistentPageLsn compensated)
  let (s, clrLsn) ← s.append loser.transactionId (some loser.lastLsn) (.compensation
    ⟨pageId, pageSupportsLsn, record.prevLsn, record.lsn, compensated⟩)
  let s ← s.flushUpTo clrLsn
  let page ← s.attempt (writeLsnIfSupported pageSupportsLsn compensated clrLsn)
  let s ← s.writePhysicalPage pageId page
  return (s.sync, { loser with lastLsn := clrLsn })

def undoPageUpdate (s : Storage) (loser : Loser) (record : LogRecord)
    (identity : PageUpdateIdentity) (readUndoBase : DiskManager → Nat → Result Page) :
    Attempt (Storage × Loser) :=
  -- legacy appends are truncated, owned appends reclaimed after user undo
  if identity.beforePageExisted = false then loser.continueAt s record.prevLsn
  else do
    let compensated ← s.attempt (compensatedPageFor record (readUndoBase s.disk))
    let (s, loser) ← compensate s loser record identity.pageId compensated
    loser.continueAt s record.prevLsn

def truncateAppended (s : Storage) (startPageCount : Nat) : Attempt Storage :=
  if startPageCount < s.disk.pageCount then
    Storage.sync <$> s.truncateToPageCount startPageCount
  else .ok s

/-- BEGIN reached: cut appended pages off, then terminate with a forced ABORT. -/
def undoBegin (s : Storage) (loser : Loser) : Attempt (Storage × Loser) := do
  let s ← truncateAppended s loser.startPageCount
  let (s, abortLsn) ← s.sync.appendForced loser.transactionId (some loser.lastLsn) .abort
  return (s, { loser with lastLsn := abortLsn, undoNextLsn := none, aborted := true })

/-- BEGIN_OWNED reached, or cleanup resumed: allocator cleanup comes after all undo. -/
def undoOwnedBoundary (s : Storage) (loser : Loser) (record : LogRecord) :
    Attempt (Storage × Loser) := do
  s.attempt (require (loser.rollbackProtocol = .ownedAppend)
    (corruptRecord "Owned UNDO lacks private lifecycle authority"))
  if loser.cleanupBeginLsn.isSome then
    return (s, { loser with undoNextLsn := none })
  else do
    s.attempt (require (record.payload.isBeginOwned ∧ record.lsn = loser.beginLsn)
      (corruptRecord "Owned cleanup has no verified UNDO endpoint"))
    let (s, lsn) ← s.sync.appendForced loser.transactionId (some loser.lastLsn)
      (.rollbackCleanupBegin ⟨loser.beginLsn, loser.reservationCount⟩)
    return (s, { loser with lastLsn := lsn, cleanupBeginLsn := some lsn, undoNextLsn := none })

def undoRecord (s : Storage) (loser : Loser) (record : LogRecord)
    (readUndoBase : DiskManager → Nat → Result Page) : Attempt (Storage × Loser) := do
  s.attempt (require (record.transactionId = loser.transactionId)
    (corruptRecord "UNDO chain crosses transaction ownership"))
  match record.payload with
  | .beginOwned _ | .rollbackCleanupBegin _ | .rollbackCleanupIntent _
  | .rollbackCleanupProgress _ => undoOwnedBoundary s loser record
  | .begin _ => undoBegin s loser
  | .compensation clr => loser.continueAt s clr.undoNextLsn
  | .pageReserve _ => loser.continueAt s record.prevLsn
  | payload =>
    match payload.pageUpdateIdentity with
    | some identity => undoPageUpdate s loser record identity readUndoBase
    | none => s.attempt (.error (corruptRecord "UNDO chain contains a non-undoable record"))

/-- The top of the work queue: the largest target, the larger id on a tie. -/
def topLoser : List Loser → Option (Loser × Nat)
  | [] => none
  | loser :: rest =>
    match loser.undoNextLsn, topLoser rest with
    | none, top => top
    | some target, none => some (loser, target)
    | some target, some (other, otherTarget) =>
      if otherTarget < target ∨
          (otherTarget = target ∧ other.transactionId < loser.transactionId) then
        some (loser, target)
      else some (other, otherTarget)

def replaceLoser (losers : List Loser) (updated : Loser) : List Loser :=
  losers.map fun loser => if loser.transactionId = updated.transactionId then updated else loser

/-- The work loop. Every chain descends through retained records, so one round
per record and loser is enough. -/
def undoLoop (readUndoBase : DiskManager → Nat → Result Page) :
    (rounds : Nat) → Storage → List Loser → Attempt (Storage × List Loser)
  | 0, s, losers =>
    if (topLoser losers).isNone then .ok (s, losers)
    else s.attempt (.error (corruptRecord "UNDO chain does not descend"))
  | rounds + 1, s, losers =>
    match topLoser losers with
    | none => .ok (s, losers)
    | some (loser, target) => do
        let record ← s.attempt (s.log.readRecordAt target)
        let (s, loser) ← undoRecord s loser record readUndoBase
        undoLoop readUndoBase rounds s (replaceLoser losers loser)

def undoRounds (log : LogManager) (losers : List Loser) : Nat :=
  (log.records.length + 1) * losers.length

def Loser.queued (loser : Loser) : Loser := { loser with undoNextLsn := some loser.lastLsn }

def undoTransactions (s : Storage) (losers : List Loser)
    (readUndoBase : DiskManager → Nat → Result Page)
    (finishOwned : Storage → Loser → Attempt Storage) : Attempt Storage := do
  let losers := losers.map Loser.queued
  let (s, losers) ← undoLoop readUndoBase (undoRounds s.log losers) s losers
  (losers.filter (·.rollbackProtocol = .ownedAppend)).foldlM finishOwned s

end MiniDb
