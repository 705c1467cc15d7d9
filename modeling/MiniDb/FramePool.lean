import MiniDb.BufferPool
import MiniDb.LruKReplacer
import MiniDb.RecoveryHook

/-!
The buffer pool as an array of frames: page table, free list, replacer and the
guards its client holds. A pool has no log, a log it must respect, or a log with
the coordinator that writes it. Calls that throw leave the state they had reached.
-/
namespace MiniDb
open ByteBlock Outcome Stateful

structure BufferFrame where
  data : Page
  pageId : Nat
  pinCount : Nat
  dirty : Bool
  valid : Bool
  pageLsn : Option Nat
  recLsn : Option Nat
  walDependencyRetired : Bool
  pendingWalPreparation : Bool

def BufferFrame.free : BufferFrame :=
  ⟨zero, invalidPageId, 0, false, false, none, none, false, false⟩

structure PageGuard where
  frameId : Nat
  pageId : Nat
  writable : Bool
  deriving DecidableEq

/-- What the pool was given of `walProvider` and `recoveryHook`. -/
inductive Durability
  | none | provider | hook
  deriving DecidableEq

structure Pool where
  disk : DiskManager
  frames : List BufferFrame
  pageTable : SortedMap Nat
  freeFrames : List Nat
  replacer : LruKReplacer
  durability : Durability
  coordinator : Coordinator
  guards : List PageGuard

abbrev PoolM := EStateM DbError Pool

namespace Pool

def walProvider (p : Pool) : Option LogManager :=
  match p.durability with
  | .none => none
  | .provider | .hook => some p.coordinator.log

def recoveryHook (p : Pool) : Bool := p.durability = .hook

/-- `writeLocks` and `readLocks`: the latches the guards of this thread hold. -/
def writeLocked (p : Pool) (frameId : Nat) : Bool :=
  p.guards.any fun guard => guard.frameId = frameId && guard.writable

def readLocked (p : Pool) (frameId : Nat) : Bool :=
  p.guards.any fun guard => guard.frameId = frameId && !guard.writable

def create (disk : DiskManager) (frameCount k : Nat) (durability : Durability)
    (coordinator : Coordinator) : Result Pool := do
  let replacer ← LruKReplacer.create frameCount k
  require (frameCount ≠ 0) (.invalidArgument "Buffer pool capacity must be positive")
  require (frameCount ≤ 2 ^ 32 - 1)
    (.invalidArgument "Buffer pool capacity exceeds FrameId range")
  return ⟨disk, List.replicate frameCount .free, .empty, List.range frameCount, replacer,
    durability, coordinator, []⟩

def frameAt (frameId : Nat) : PoolM BufferFrame := do
  match (← get).frames[frameId]? with
  | some frame => return frame
  | none => throw (.outOfRange "vector::at")

def setFrame (frameId : Nat) (frame : BufferFrame) : PoolM Unit :=
  modify fun p => { p with frames := p.frames.set frameId frame }

def onReplacer {α : Type} (call : ReplacerM α) : PoolM α :=
  onPart (·.replacer) (fun p replacer => { p with replacer := replacer }) call

def onHook {α : Type} (call : HookM α) : PoolM α :=
  onPart (·.coordinator) (fun p coordinator => { p with coordinator := coordinator }) call

def availableFrame (p : Pool) : Option Nat :=
  match p.freeFrames with
  | frameId :: _ => some frameId
  | [] => p.replacer.victim

def KnownTo (wal : Option LogManager) (lsn : Nat) : Prop :=
  ∃ log ∈ wal, log.containsLsn lsn = true

instance (wal : Option LogManager) (lsn : Nat) : Decidable (KnownTo wal lsn) := by
  unfold KnownTo; infer_instance

def assignPreparedLsn (wal : Option LogManager) (frame : BufferFrame) (lsn : Nat) :
    Result BufferFrame := do
  require (KnownTo wal lsn)
    (.invalidArgument "pageLSN must identify a record appended by the WAL provider")
  require (∀ current ∈ frame.pageLsn, current ≤ lsn)
    (.invalidArgument "pageLSN cannot move backward")
  return { frame with
    pageLsn := some lsn
    walDependencyRetired := false
    pendingWalPreparation := false
    recLsn := if frame.dirty ∧ frame.recLsn = none then some lsn else frame.recLsn }

def needsPreparation (p : Pool) : Bool := p.recoveryHook && p.coordinator.context.isSome

def prepareFrameForWrite (frameId : Nat) : PoolM Unit := do
  let frame ← frameAt frameId
  let p ← get
  if frame.dirty = false ∨ p.needsPreparation = false then return ()
  else do
    let (data, lsn) ← onHook (Coordinator.preparePageForWrite
      p.disk.databaseHeader.formatVersion frame.pageId frame.data)
    let frame := { frame with data := data }
    setFrame frameId frame
    match lsn with
    | some lsn => setFrame frameId (← fromExcept (assignPreparedLsn (← get).walProvider frame lsn))
    | none => setFrame frameId { frame with
        dirty := frame.recLsn.isSome
        pendingWalPreparation := false }

def validateWalDependency (wal : Option LogManager) (frame : BufferFrame) (forWrite : Bool) :
    Result Unit := do
  require (frame.pendingWalPreparation = false ∨ (frame.dirty = true ∧ forWrite = false))
    (.logicError "Pending WAL write intent is not prepared for persistence")
  require (¬ (frame.walDependencyRetired ∧ frame.dirty ∧ frame.pendingWalPreparation = false))
    (.logicError "Dirty frame cannot use a retired WAL dependency")
  require (frame.walDependencyRetired ∨ ∀ lsn ∈ frame.pageLsn, KnownTo wal lsn)
    (.logicError "Buffer frame pageLSN is unknown to its WAL provider")
  require ((frame.dirty ∨ frame.recLsn = none) ∧
    (∀ rec ∈ frame.recLsn, ∃ lsn ∈ frame.pageLsn, rec ≤ lsn) ∧
    (frame.dirty ∧ wal.isSome ∧ frame.pendingWalPreparation = false →
      frame.pageLsn ≠ none ∧ frame.recLsn ≠ none))
    (.logicError "Buffer frame recLSN is inconsistent with dirty state")
  require (∀ rec ∈ frame.recLsn, KnownTo wal rec)
    (.logicError "Buffer frame recLSN is unknown to its WAL provider")

def ensureWalDurable : Option Nat → PoolM Unit
  | none => return ()
  | some pageLsn => do
      match (← get).walProvider with
      | none => throw (.logicError "A page has a valid pageLSN without a WAL provider")
      | some log => do
          fromExcept (require (log.containsLsn pageLsn)
            (.logicError "A pageLSN no longer identifies a known WAL record"))
          let log ← fromExcept (log.ensureDurable pageLsn)
          onHook (modify fun c => { c with log := log })

def ensureWalDurableBeforePageWrite (frameId : Nat) : PoolM Unit := do
  let frame ← frameAt frameId
  fromExcept (validateWalDependency (← get).walProvider frame true)
  if frame.walDependencyRetired then return () else ensureWalDurable frame.pageLsn

/-- `DiskManager::writePage` and the marks of a frame that was written. -/
def writeFrame (frameId : Nat) : PoolM Unit := do
  let frame ← frameAt frameId
  let disk ← fromExcept ((← get).disk.writePage frame.pageId frame.data)
  modify fun p => { p with disk := disk }
  setFrame frameId { frame with dirty := false, recLsn := none }

def flushUnpinnedDirtyFrame (frameId : Nat) : PoolM Unit := do
  prepareFrameForWrite frameId
  ensureWalDurableBeforePageWrite frameId
  writeFrame frameId

def flushVictimIfDirty (frameId : Nat) : PoolM Unit := do
  let frame ← frameAt frameId
  if frame.valid = false then return ()
  else if frame.pinCount ≠ 0 then throw (.logicError "Selected buffer victim is not evictable")
  else if frame.dirty = false then return ()
  else flushUnpinnedDirtyFrame frameId

/-- Takes the frame from the page it held, or from the free list. -/
def vacateFrame (frameId : Nat) (frame : BufferFrame) : PoolM Unit := do
  if frame.valid then do
    let removed ← onReplacer (LruKReplacer.remove frameId)
    if removed = false then throw (.logicError "Victim frame was absent from LRU-K replacer")
    else do
      let p ← get
      if p.pageTable.contains frame.pageId then
        set { p with pageTable := p.pageTable.erase frame.pageId }
      else throw (.logicError "Victim frame was absent from page table")
  else do
    let p ← get
    if p.freeFrames.head? = some frameId then set { p with freeFrames := p.freeFrames.tail }
    else throw (.logicError "Free-frame queue is inconsistent")

def installPage (frameId pageId : Nat) (page : Page) (dirty : Bool) : PoolM Unit := do
  let frame ← frameAt frameId
  if frame.valid ∧ frame.dirty then
    throw (.logicError "Dirty victim was not flushed before reuse")
  else do
    vacateFrame frameId frame
    setFrame frameId ⟨page, pageId, 1, dirty, true, none, none, false, false⟩
    let p ← get
    if p.pageTable.contains pageId then
      throw (.logicError "Page already exists in buffer page table")
    else do
      set { p with pageTable := p.pageTable.insert pageId frameId }
      onReplacer (LruKReplacer.recordAccess frameId)
      onReplacer (LruKReplacer.setEvictable frameId false)

def requireGuardFrame (guard : PageGuard) : PoolM BufferFrame := do
  let frame ← frameAt guard.frameId
  if frame.valid = false ∨ frame.pageId ≠ guard.pageId ∨ frame.pinCount = 0 then
    throw (.logicError "Page guard no longer identifies a pinned frame")
  else return frame

/-- A frame its holder may change: dirty, and owing the log a preparation. -/
def markWritten (p : Pool) (frame : BufferFrame) (data : Page) : BufferFrame :=
  { frame with
    data := data
    dirty := true
    pendingWalPreparation := p.walProvider.isSome || frame.pendingWalPreparation }

def noteGuardWriteIntent (guard : PageGuard) : PoolM Unit := do
  let frame ← requireGuardFrame guard
  if (← get).recoveryHook then
    onHook (Coordinator.notePageWriteIntent guard.pageId frame.data)
  setFrame guard.frameId ((← get).markWritten frame frame.data)

def releasePin (frameId : Nat) : PoolM Unit := do
  let frame ← frameAt frameId
  if frame.valid = false ∨ frame.pinCount = 0 then
    throw (.logicError "Buffer frame pin count underflow")
  else do
    setFrame frameId { frame with pinCount := frame.pinCount - 1 }
    if frame.pinCount - 1 = 0 then onReplacer (LruKReplacer.setEvictable frameId true)
    else return ()

/-- The checks and locks of the guard's constructor, its pin already taken. -/
def lockFrame (guard : PageGuard) : PoolM Unit := do
  let p ← get
  if p.writeLocked guard.frameId then
    throw (.logicError "Frame content leases are not recursively writable")
  else if guard.writable then
    if p.readLocked guard.frameId then
      throw (.logicError
        "Release read guards before acquiring write access to the same frame")
    else noteGuardWriteIntent guard
  else return ()

/-- `BasicPageGuard`'s constructor: a throw gives the pin back. -/
def makeGuard (frameId pageId : Nat) (writable : Bool) : PoolM PageGuard := do
  let guard : PageGuard := ⟨frameId, pageId, writable⟩
  tryCatch (lockFrame guard) fun error => do
    releasePin frameId
    throw error
  modify fun p => { p with guards := guard :: p.guards }
  return guard

/-- The pin of a resident page. -/
def pinResident (frameId : Nat) : PoolM Unit := do
  let frame ← frameAt frameId
  if frame.pinCount = 2 ^ 32 - 1 then throw (.overflowError "Buffer frame pin count exhausted")
  else do
    if frame.pinCount = 0 then onReplacer (LruKReplacer.setEvictable frameId false)
    setFrame frameId { frame with pinCount := frame.pinCount + 1 }
    onReplacer (LruKReplacer.recordAccess frameId)

/-- The frame of a page that was not resident, if one is to be had. -/
def loadPage (pageId : Nat) : PoolM (Option Nat) := do
  match (← get).availableFrame with
  | none => return none
  | some frameId => do
      flushVictimIfDirty frameId
      let page ← fromExcept ((← get).disk.readPage pageId)
      installPage frameId pageId page false
      return some frameId

def requirePage (p : Pool) (pageId : Nat) : Result Unit := do
  require (pageId ≠ 0) (.invalidArgument "Page 0 is reserved for database metadata")
  require (pageId ≠ invalidPageId ∧ pageId < p.disk.pageCount)
    (.outOfRange "Page ID does not exist")

def pinPage (pageId : Nat) : PoolM (Option Nat) := do
  fromExcept ((← get).requirePage pageId)
  match (← get).pageTable.find? pageId with
  | some frameId => do
      pinResident frameId
      return some frameId
  | none => loadPage pageId

def fetchPage (pageId : Nat) (writable : Bool) : PoolM (Option PageGuard) := do
  match ← pinPage pageId with
  | none => return none
  | some frameId => return some (← makeGuard frameId pageId writable)

/-- A new page in its frame, the page reserved before and confirmed after. -/
def appendToFrame (frameId expectedPageId : Nat) : PoolM PageGuard := do
  flushVictimIfDirty frameId
  let disk ← fromExcept ((← get).disk.appendPage expectedPageId)
  modify fun p => { p with disk := disk }
  installPage frameId expectedPageId zero true
  if (← get).recoveryHook then onHook (Coordinator.notePhysicalPageAppend expectedPageId)
  makeGuard frameId expectedPageId true

def newPageWrite : PoolM (Option PageGuard) := do
  match (← get).availableFrame with
  | none => return none
  | some _ => do
      let expectedPageId := (← get).disk.pageCount
      if (← get).recoveryHook then
        onHook (Coordinator.prepareForPhysicalPageAppend expectedPageId)
      match (← get).availableFrame with
      | none => return none
      | some frameId => return some (← appendToFrame frameId expectedPageId)

def flushPage (pageId : Nat) : PoolM Bool := do
  fromExcept ((← get).requirePage pageId)
  match (← get).pageTable.find? pageId with
  | none => return false
  | some frameId => do
      let frame ← frameAt frameId
      if frame.dirty = false then return true
      else if frame.pinCount ≠ 0 then
        throw (.logicError "Cannot flush a dirty pinned page; release guards first")
      else do
        flushUnpinnedDirtyFrame frameId
        return true

/-- The dirty frames' largest pageLSN, each dependency validated on the way. -/
def maximumPageLsn (wal : Option LogManager) :
    List BufferFrame → Option Nat → Result (Option Nat)
  | [], maximum => .ok maximum
  | frame :: rest, maximum =>
    if frame.valid ∧ frame.dirty then do
      validateWalDependency wal frame true
      maximumPageLsn wal rest (match frame.pageLsn, maximum with
        | some lsn, some current => some (max lsn current)
        | some lsn, none => some lsn
        | none, current => current)
    else maximumPageLsn wal rest maximum

/-- Runs `call` on the frame if it holds a page with unwritten changes. -/
def ifDirty (call : Nat → PoolM Unit) (frameId : Nat) : PoolM Unit := do
  let frame ← frameAt frameId
  if frame.valid ∧ frame.dirty then call frameId else return ()

def flushAll : PoolM Unit := do
  let p ← get
  if p.frames.any (fun frame => frame.valid && frame.dirty && frame.pinCount != 0) then
    throw (.logicError "Cannot flush dirty pinned pages; release guards first")
  else do
    (List.range p.frames.length).forM (ifDirty prepareFrameForWrite)
    let maximum ← fromExcept (maximumPageLsn (← get).walProvider (← get).frames none)
    ensureWalDurable maximum
    (List.range p.frames.length).forM (ifDirty writeFrame)

/-! The client's use of its guards. -/

def ownsPin (guard : PageGuard) : PoolM Unit := do
  if guard ∈ (← get).guards then return ()
  else throw (.logicError "Page guard no longer owns a pin")

def readData (guard : PageGuard) : PoolM Page := do
  ownsPin guard
  return (← requireGuardFrame guard).data

/-- `mutableData`, with the bytes its caller leaves in the frame. -/
def mutableData (guard : PageGuard) (data : Page) : PoolM Unit := do
  ownsPin guard
  let frame ← requireGuardFrame guard
  setFrame guard.frameId ((← get).markWritten frame data)

def drop (guard : PageGuard) : PoolM Unit := do
  ownsPin guard
  modify fun p => { p with guards := p.guards.erase guard }
  releasePin guard.frameId

/-! The coordinator's calls that reach into the pool. -/

def totalPinCount (p : Pool) : Nat :=
  (p.frames.map fun frame => if frame.valid then frame.pinCount else 0).sum

def prepareResidentPageForCommit (pageId : Nat) : PoolM Unit := do
  match (← get).pageTable.find? pageId with
  | none => return ()
  | some frameId => do
      let frame ← frameAt frameId
      if frame.pinCount ≠ 0 then throw (.logicError "Cannot finalize WAL state for a pinned page")
      else prepareFrameForWrite frameId

def beginTransaction (protocol : RollbackProtocol) : PoolM Unit := do
  let p ← get
  let c := p.coordinator
  fromExcept (require c.context.isNone
    (.logicError "Owned writer requires an idle exclusive recovery context"))
  fromExcept (require (c.rollbackActive = false)
    (.logicError "Rollback requires restart/completion"))
  fromExcept (require (c.allocatorSystemOperation = false)
    (.logicError "Allocator system operation requires restart/completion"))
  fromExcept (require (c.nextTransactionId ≠ 0 ∧ c.nextTransactionId ≠ 2 ^ 64 - 1)
    (.overflowError "Transaction ID space is exhausted"))
  onHook (set { c with
    context := some (.start c.nextTransactionId p.disk.pageCount protocol)
    nextTransactionId := c.nextTransactionId + 1 })

def markSafeBoundary (context : TransactionContext) : TransactionContext :=
  { context with safeBoundary := true }

def prepareStatement : PoolM Unit := do
  let p ← get
  match p.coordinator.context with
  | none => throw (.logicError "No statement transaction is active")
  | some context =>
    if p.coordinator.rollbackActive then
      throw (.logicError "Transaction rollback is in progress")
    else if p.totalPinCount ≠ 0 then
      throw (.logicError "Statement completion requires all page guards to be released")
    else do
      context.pages.keys.forM prepareResidentPageForCommit
      onHook (modify fun c => { c with context := c.context.map markSafeBoundary })

def commitStatement : PoolM Unit := do
  prepareStatement
  match (← get).coordinator.context with
  | none => throw (.logicError "No statement transaction is active")
  | some context =>
    if context.beginLsn.isNone then onHook (modify fun c => { c with context := none })
    else onHook do
      let (_, lsn) ← Coordinator.appendTransactionRecord context .commit
      let log ← fromExcept ((← get).log.flushUpTo lsn)
      modify fun c => { c with log := log, context := none }

/-! The pool's own check of its state. -/

def validateFree (frameCount : Nat) (freeSet : List Nat) (frameId : Nat) : Result (List Nat) := do
  require (frameId < frameCount ∧ frameId ∉ freeSet)
    (.logicError "Free-frame queue contains invalid or duplicate frame")
  return frameId :: freeSet

def validateFreeFrame (p : Pool) (freeSet : List Nat) (frameId : Nat) (frame : BufferFrame) :
    Result Unit := do
  let tracked ← p.replacer.isTracked frameId
  require (frame.pageId = invalidPageId ∧ frame.pinCount = 0 ∧ frame.dirty = false ∧
    frame.pageLsn = none ∧ frame.recLsn = none ∧ frame.walDependencyRetired = false ∧
    frame.pendingWalPreparation = false ∧ frameId ∈ freeSet ∧ tracked = false)
    (.logicError "Invalid/free buffer frame has live state")

def validateUsedFrame (p : Pool) (freeSet pages : List Nat) (frameId : Nat)
    (frame : BufferFrame) : Result (List Nat) := do
  require (frame.pageId ≠ 0 ∧ frame.pageId ≠ invalidPageId ∧ frame.pageId < p.disk.pageCount ∧
    frame.pageId ∉ pages) (.logicError "Valid buffer frame has illegal or duplicate PageId")
  let tracked ← p.replacer.isTracked frameId
  require (p.pageTable.find? frame.pageId = some frameId ∧ frameId ∉ freeSet ∧ tracked = true)
    (.logicError "Buffer frame/page-table/replacer mapping is inconsistent")
  let evictable ← p.replacer.isEvictable frameId
  require (evictable = decide (frame.pinCount = 0))
    (.logicError "Buffer pin count disagrees with replacer evictability")
  validateWalDependency p.walProvider frame false
  return frame.pageId :: pages

/-- One frame of the walk; `pages` are the pages of the valid frames before it. -/
def validateFrame (p : Pool) (freeSet pages : List Nat) (frameId : Nat) : Result (List Nat) :=
  match p.frames[frameId]? with
  | none => .error (.outOfRange "vector::at")
  | some frame =>
    if frame.valid then p.validateUsedFrame freeSet pages frameId frame
    else do
      p.validateFreeFrame freeSet frameId frame
      return pages

def validateMapping (p : Pool) (entry : Nat × Nat) : Result Unit :=
  require (∃ frame ∈ p.frames[entry.2]?, frame.valid = true ∧ frame.pageId = entry.1)
    (.logicError "Page table points to an invalid buffer frame")

def validate (p : Pool) : Result Unit := do
  p.replacer.validate
  require (p.pageTable.entries.length ≤ p.frames.length)
    (.logicError "Buffer pool exceeds configured capacity")
  let freeSet ← p.freeFrames.foldlM (validateFree p.frames.length) []
  let pages ← (List.range p.frames.length).foldlM (p.validateFrame freeSet) []
  p.pageTable.entries.forM p.validateMapping
  require (pages.length = p.pageTable.entries.length ∧
    pages.length + freeSet.length = p.frames.length)
    (.logicError "Buffer resident/free frame accounting is inconsistent")

end Pool

/-- One call of the pool's client, or of the coordinator between them. -/
inductive PoolRequest
  | fetchPageRead (pageId : Nat)
  | fetchPageWrite (pageId : Nat)
  | newPageWrite
  | read (guard : PageGuard)
  | write (guard : PageGuard) (data : Page)
  | drop (guard : PageGuard)
  | flushPage (pageId : Nat)
  | flushAll
  | begin (protocol : RollbackProtocol)
  | prepare
  | commit

inductive PoolReply
  | guard (guard : Option PageGuard)
  | bytes (page : Page)
  | done

namespace Pool

/-- Only a pool with a hook has transactions, and only a write guard can write. -/
def answer : PoolRequest → PoolM PoolReply
  | .fetchPageRead pageId => return .guard (← fetchPage pageId false)
  | .fetchPageWrite pageId => return .guard (← fetchPage pageId true)
  | .newPageWrite => return .guard (← newPageWrite)
  | .read guard => return .bytes (← readData guard)
  | .write guard data => do
      if guard.writable then mutableData guard data
      else throw (.logicError "Page guard no longer owns a pin")
      return .done
  | .drop guard => do
      drop guard
      return .done
  | .flushPage pageId => do
      let _ ← flushPage pageId
      return .done
  | .flushAll => do
      flushAll
      return .done
  | .begin protocol => do
      if (← get).recoveryHook then beginTransaction protocol
      return .done
  | .prepare => do
      if (← get).recoveryHook then prepareStatement
      return .done
  | .commit => do
      if (← get).recoveryHook then commitStatement
      return .done

end Pool

end MiniDb
