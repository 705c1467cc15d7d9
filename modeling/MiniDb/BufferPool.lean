import MiniDb.RecoveryCoordinator

/-!
The buffer pool and the engine it belongs to. Frames are kept by the page they
hold; which unpinned frame gives way when the pool is full is the replacer's
choice and a parameter here. Page guards are pins, and a write guard is the one
pin of its frame. Every operation that returned normally is an `.ok` step.
-/
namespace MiniDb
open ByteBlock Outcome

structure Frame where
  data : Page
  pinCount : Nat
  writeGuarded : Bool
  dirty : Bool
  pageLsn : Option Nat
  recLsn : Option Nat
  walDependencyRetired : Bool
  pendingWalPreparation : Bool

structure Engine where
  disk : DiskManager
  log : LogManager
  frames : SortedMap Frame
  frameCount : Nat
  context : Option TransactionContext
  nextTransactionId : Nat
  updateMode : WalUpdateMode
  rollbackActive : Bool
  allocatorSystemOperation : Bool

namespace Engine

def setFrame (e : Engine) (pageId : Nat) (frame : Frame) : Engine :=
  { e with frames := e.frames.insert pageId frame }

def totalPinCount (e : Engine) : Nat := (e.frames.entries.map (·.2.pinCount)).sum

/-- `preparePageForWrite` with the coordinator's own state. -/
def preparePageForWrite (e : Engine) (pageId : Nat) (after : Page) :
    Result (Engine × Page × Option Nat) :=
  match e.context with
  | none => .ok (e, after, none)
  | some context => do
      let prepared ← context.preparePageForWrite e.log e.updateMode
        e.disk.databaseHeader.formatVersion pageId after
      return ({ e with context := some prepared.context, log := prepared.log }, prepared.page,
        prepared.lsn)

def assignPreparedLsn (log : LogManager) (frame : Frame) (lsn : Nat) : Result Frame := do
  require (log.containsLsn lsn)
    (.invalidArgument "pageLSN must identify a record appended by the WAL provider")
  require (∀ current ∈ frame.pageLsn, current ≤ lsn)
    (.invalidArgument "pageLSN cannot move backward")
  return { frame with
    pageLsn := some lsn
    walDependencyRetired := false
    pendingWalPreparation := false
    recLsn := if frame.dirty ∧ frame.recLsn = none then some lsn else frame.recLsn }

/-- The frame after its page was prepared: a page without a record stays dirty
only if an earlier record still covers it. -/
def preparedFrame (log : LogManager) (frame : Frame) (data : Page) : Option Nat → Result Frame
  | some lsn => assignPreparedLsn log { frame with data := data } lsn
  | none => .ok { frame with
      data := data
      dirty := frame.recLsn.isSome
      pendingWalPreparation := false }

/-- Prepares the frame of `pageId`; `needsPreparation` holds while a transaction runs. -/
def prepareFrameForWrite (e : Engine) (pageId : Nat) : Result Engine :=
  match e.frames.find? pageId with
  | none => .ok e
  | some frame =>
    if frame.dirty = false ∨ e.context.isNone then .ok e
    else do
      let (e, data, lsn) ← e.preparePageForWrite pageId frame.data
      return e.setFrame pageId (← preparedFrame e.log frame data lsn)

def validateWalDependency (log : LogManager) (frame : Frame) (forWrite : Bool) :
    Result Unit := do
  require (frame.pendingWalPreparation = false ∨ (frame.dirty = true ∧ forWrite = false))
    (.logicError "Pending WAL write intent is not prepared for persistence")
  require (¬ (frame.walDependencyRetired ∧ frame.dirty ∧ frame.pendingWalPreparation = false))
    (.logicError "Dirty frame cannot use a retired WAL dependency")
  require (frame.walDependencyRetired ∨ ∀ lsn ∈ frame.pageLsn, log.containsLsn lsn)
    (.logicError "Buffer frame pageLSN is unknown to its WAL provider")
  require ((frame.dirty ∨ frame.recLsn = none) ∧
    (∀ rec ∈ frame.recLsn, ∃ lsn ∈ frame.pageLsn, rec ≤ lsn) ∧
    (frame.dirty ∧ frame.pendingWalPreparation = false →
      frame.pageLsn ≠ none ∧ frame.recLsn ≠ none))
    (.logicError "Buffer frame recLSN is inconsistent with dirty state")
  require (∀ rec ∈ frame.recLsn, log.containsLsn rec)
    (.logicError "Buffer frame recLSN is unknown to its WAL provider")

def ensureWalDurable (log : LogManager) : Option Nat → Result LogManager
  | none => .ok log
  | some pageLsn => do
      require (log.containsLsn pageLsn)
        (.logicError "A pageLSN no longer identifies a known WAL record")
      log.ensureDurable pageLsn

def ensureWalDurableBeforePageWrite (log : LogManager) (frame : Frame) : Result LogManager := do
  validateWalDependency log frame true
  if frame.walDependencyRetired then return log else ensureWalDurable log frame.pageLsn

/-- Writes one frame back. The frame is written even when its preparation found
nothing to log and cleared the dirty mark. -/
def flushUnpinnedDirtyFrame (e : Engine) (pageId : Nat) : Result Engine := do
  let e ← e.prepareFrameForWrite pageId
  match e.frames.find? pageId with
  | none => return e
  | some frame => do
      let log ← ensureWalDurableBeforePageWrite e.log frame
      let disk ← e.disk.writePage pageId frame.data
      return { e with disk := disk, log := log }.setFrame pageId
        { frame with dirty := false, recLsn := none }

def flushVictimIfDirty (e : Engine) (pageId : Nat) (frame : Frame) : Result Engine := do
  require (frame.pinCount = 0) (.logicError "Selected buffer victim is not evictable")
  if frame.dirty then e.flushUnpinnedDirtyFrame pageId else return e

/-- Makes room for one more page: a free frame, or the replacer's victim. -/
def availableFrame (e : Engine) (victim : Option Nat) : Result Engine :=
  if e.frames.entries.length < e.frameCount then .ok e
  else match victim.bind fun v => (e.frames.find? v).map fun frame => (v, frame) with
    | none => .error (.storageError .noFrameAvailable "no buffer frame is available")
    | some (v, frame) => do
        let e ← e.flushVictimIfDirty v frame
        return { e with frames := e.frames.erase v }

def installPage (e : Engine) (pageId : Nat) (page : Page) (dirty : Bool) : Engine :=
  e.setFrame pageId ⟨page, 1, false, dirty, none, none, false, false⟩

/-- `fetchPage`: pins the frame of the page, reading it if it is not resident. -/
def fetchPage (e : Engine) (pageId : Nat) (victim : Option Nat) : Result Engine := do
  require (pageId ≠ 0) (.invalidArgument "Page 0 is reserved for database metadata")
  require (pageId ≠ invalidPageId ∧ pageId < e.disk.pageCount)
    (.outOfRange "Page ID does not exist")
  match e.frames.find? pageId with
  | some frame => do
      require (frame.pinCount < 2 ^ 32 - 1)
        (.overflowError "Buffer frame pin count exhausted")
      return e.setFrame pageId { frame with pinCount := frame.pinCount + 1 }
  | none => do
      let e ← e.availableFrame victim
      let page ← e.disk.readPage pageId
      return e.installPage pageId page false

def noteGuardWriteIntent (e : Engine) (pageId : Nat) : Result Engine :=
  match e.context, e.frames.find? pageId with
  | none, _ =>
    .error (.logicError "Page mutation requires an active statement transaction")
  | _, none => .error (.logicError "Page guard no longer identifies a pinned frame")
  | some context, some frame => do
      let context ← context.notePageWriteIntent pageId frame.data
      return { e with context := some context }.setFrame pageId
        { frame with dirty := true, pendingWalPreparation := true, writeGuarded := true }

def fetchPageRead (e : Engine) (pageId : Nat) (victim : Option Nat) : Result Engine := do
  require (∀ frame ∈ e.frames.find? pageId, frame.writeGuarded = false)
    (.logicError "Frame content leases are not recursively writable")
  e.fetchPage pageId victim

def fetchPageWrite (e : Engine) (pageId : Nat) (victim : Option Nat) : Result Engine := do
  require (∀ frame ∈ e.frames.find? pageId, frame.pinCount = 0)
    (.logicError "Release read guards before acquiring write access to the same frame")
  let e ← e.fetchPage pageId victim
  e.noteGuardWriteIntent pageId

/-- The bytes a write guard's holder leaves in its frame. -/
def mutate (e : Engine) (pageId : Nat) (data : Page) : Result Engine :=
  match e.frames.find? pageId with
  | some frame => do
      require (frame.writeGuarded ∧ frame.pinCount ≠ 0)
        (.logicError "Page guard no longer identifies a pinned frame")
      return e.setFrame pageId
        { frame with data := data, dirty := true, pendingWalPreparation := true }
  | none => .error (.logicError "Page guard no longer identifies a pinned frame")

def releasePin (e : Engine) (pageId : Nat) : Result Engine :=
  match e.frames.find? pageId with
  | some frame => do
      require (frame.pinCount ≠ 0) (.logicError "Buffer frame pin count underflow")
      return e.setFrame pageId
        { frame with pinCount := frame.pinCount - 1, writeGuarded := false }
  | none => .error (.logicError "Buffer frame pin count underflow")

def confirmAppend (e : Engine) (pageId : Nat) : Result Engine :=
  match e.context with
  | some context => do
      return { e with context := some (← context.notePhysicalPageAppend e.log pageId) }
  | none => .error (.logicError "Append confirmation lacks active owner")

/-- Reserves the next page in the log and forces the reservation. -/
def reserveNextPage (e : Engine) : Result Engine :=
  match e.context with
  | none =>
    .error (.logicError "Physical append requires the active bound recovery transaction")
  | some context => do
      require (e.rollbackActive = false)
        (.logicError "Physical append requires the active bound recovery transaction")
      let (context, log, lsn) ← context.prepareForPhysicalPageAppend e.log e.disk.pageCount
      return { e with context := some context, log := ← log.ensureDurable lsn }

/-- `newPageWrite` up to the growth of the file. -/
def appendNextPage (e : Engine) (victim : Option Nat) : Result Engine := do
  let expectedPageId := e.disk.pageCount
  let e ← e.reserveNextPage
  let e ← e.availableFrame victim
  return { e with disk := ← e.disk.appendPage expectedPageId }

def newPageWrite (e : Engine) (victim : Option Nat) : Result Engine := do
  let expectedPageId := e.disk.pageCount
  let e ← e.appendNextPage victim
  let e ← (e.installPage expectedPageId zero true).confirmAppend expectedPageId
  e.noteGuardWriteIntent expectedPageId

def flushPage (e : Engine) (pageId : Nat) : Result Engine := do
  require (pageId ≠ 0) (.invalidArgument "Page 0 is reserved for database metadata")
  require (pageId ≠ invalidPageId ∧ pageId < e.disk.pageCount)
    (.outOfRange "Page ID does not exist")
  match e.frames.find? pageId with
  | none => return e
  | some frame =>
    if frame.dirty then do
      require (frame.pinCount = 0)
        (.logicError "Cannot flush a dirty pinned page; release guards first")
      e.flushUnpinnedDirtyFrame pageId
    else return e

/-- The dirty frames' largest pageLSN, each dependency validated on the way. -/
def maximumPageLsn (e : Engine) : List Nat → Option Nat → Result (Option Nat)
  | [], maximum => .ok maximum
  | pageId :: rest, maximum =>
    match e.frames.find? pageId with
    | some frame =>
      if frame.dirty then do
        validateWalDependency e.log frame true
        e.maximumPageLsn rest (match frame.pageLsn, maximum with
          | some lsn, some current => some (max lsn current)
          | some lsn, none => some lsn
          | none, current => current)
      else e.maximumPageLsn rest maximum
    | none => e.maximumPageLsn rest maximum

def writeBackIfDirty (e : Engine) (pageId : Nat) : Result Engine :=
  match e.frames.find? pageId with
  | some frame =>
    if frame.dirty then do
      let disk ← e.disk.writePage pageId frame.data
      return { e with disk := disk }.setFrame pageId { frame with dirty := false, recLsn := none }
    else .ok e
  | none => .ok e

/-- `order` is the resident pages in the order of the frame array. -/
def flushAll (e : Engine) (order : List Nat) : Result Engine := do
  require (order.Perm e.frames.keys) (.logicError "Not the order of the frame array")
  require (∀ entry ∈ e.frames.entries, entry.2.dirty = false ∨ entry.2.pinCount = 0)
    (.logicError "Cannot flush dirty pinned pages; release guards first")
  let e ← order.foldlM prepareFrameForWrite e
  let maximum ← e.maximumPageLsn order none
  let log ← ensureWalDurable e.log maximum
  order.foldlM writeBackIfDirty { e with log := log }

def prepareResidentPageForCommit (e : Engine) (pageId : Nat) : Result Engine :=
  match e.frames.find? pageId with
  | none => .ok e
  | some frame => do
      require (frame.pinCount = 0)
        (.logicError "Cannot finalize WAL state for a pinned page")
      e.prepareFrameForWrite pageId

def discardPageForRecovery (e : Engine) (pageId : Nat) : Result Engine := do
  require (∀ frame ∈ e.frames.find? pageId, frame.pinCount = 0)
    (.logicError "Cannot discard a pinned buffer page during recovery")
  return { e with frames := e.frames.erase pageId }

def discardPagesAtOrAboveForRecovery (e : Engine) (firstPageId : Nat) : Result Engine :=
  (e.frames.keys.filter (firstPageId ≤ ·)).foldlM discardPageForRecovery e

def dirtyPageEntries (e : Engine) : List (Nat × Frame) → Result (List DirtyPageEntry)
  | [] => .ok []
  | (pageId, frame) :: rest =>
    if frame.dirty then do
      validateWalDependency e.log frame true
      match frame.recLsn, frame.pageLsn with
      | some recLsn, some _ => return ⟨pageId, recLsn⟩ :: (← e.dirtyPageEntries rest)
      | _, _ => .error (.logicError "Dirty page recovery metadata is not fully prepared")
    else e.dirtyPageEntries rest

def dirtyPageTableSnapshot (e : Engine) : Result (List DirtyPageEntry) :=
  e.dirtyPageEntries e.frames.entries

end Engine

end MiniDb
