import MiniDb.BufferPool
import MiniDb.OwnedCleanup

/-!
Transactions of the engine: begin, statement boundaries, commit and live
rollback, and the header updates that go past the buffer pool. A run of the
engine is a sequence of operations that each returned normally.
-/
namespace MiniDb
open ByteBlock Outcome

namespace Engine

def beginTransaction (e : Engine) (protocol : RollbackProtocol) : Result Engine := do
  require (e.context.isNone)
    (.logicError "Owned writer requires an idle exclusive recovery context")
  require (e.rollbackActive = false) (.logicError "Rollback requires restart/completion")
  require (e.allocatorSystemOperation = false)
    (.logicError "Allocator system operation requires restart/completion")
  require (e.nextTransactionId ≠ 0 ∧ e.nextTransactionId ≠ 2 ^ 64 - 1)
    (.overflowError "Transaction ID space is exhausted")
  return { e with
    context := some (.start e.nextTransactionId e.disk.pageCount protocol)
    nextTransactionId := e.nextTransactionId + 1 }

def validateRoot (e : Engine) (pageId : Nat) (field : String) : Result Unit :=
  require (pageId = invalidPageId ∨ (pageId ≠ 0 ∧ pageId < e.disk.pageCount))
    (.invalidArgument (field ++ " must identify an existing data page"))

def flushUpToIfValid (log : LogManager) : Option Nat → Result LogManager
  | some lsn => log.flushUpTo lsn
  | none => .ok log

/-- Takes the write intent on page 0, with its image on disk as before-image. -/
def noteHeaderWriteIntent (e : Engine) : Result Engine :=
  match e.context with
  | none =>
    .error (.logicError "Page mutation requires an active statement transaction")
  | some context => do
      let before ← e.disk.readPhysicalPage 0
      return { e with context := some (← context.notePageWriteIntent 0 before) }

/-- `DatabaseMetadataManager::persist`: page 0 is written at once, and with an
empty PageLSN slot when the header did not change. -/
def persist (e : Engine) (header : DatabaseHeader) : Result Engine := do
  let e ← e.noteHeaderWriteIntent
  let (e, after, lsn) ← e.preparePageForWrite 0 (serializeDatabaseHeader header)
  let log ← flushUpToIfValid e.log lsn
  let disk ← e.disk.writePhysicalPage 0 after
  return { e with log := log, disk := disk }

def upgradeToCurrentFormat (e : Engine) : Result Engine := do
  if e.disk.databaseHeader.formatVersion = 2 then return e
  else do
    require (e.disk.databaseHeader.formatVersion = 1)
      (.logicError "Database format cannot be upgraded from this version")
    e.persist { e.disk.databaseHeader with formatVersion := 2 }

def updateCatalogRootPageId (e : Engine) (pageId : Nat) : Result Engine := do
  e.validateRoot pageId "Catalog root"
  e.persist { e.disk.databaseHeader with catalogRootPageId := pageId }

def updateFreeListRootPageId (e : Engine) (pageId : Nat) : Result Engine := do
  e.validateRoot pageId "Free-list root"
  e.persist { e.disk.databaseHeader with freeListRootPageId := pageId }

def markSafeBoundary (e : Engine) : Engine :=
  { e with context := e.context.map fun context => { context with safeBoundary := true } }

def prepareStatement (e : Engine) : Result Engine :=
  match e.context with
  | none => .error (.logicError "No statement transaction is active")
  | some context => do
      require (e.rollbackActive = false) (.logicError "Transaction rollback is in progress")
      require (e.totalPinCount = 0)
        (.logicError "Statement completion requires all page guards to be released")
      let e ← context.pages.keys.foldlM prepareResidentPageForCommit e
      return e.markSafeBoundary

def commitStatement (e : Engine) : Result Engine := do
  let e ← e.prepareStatement
  match e.context with
  | none => .error (.logicError "No statement transaction is active")
  | some context =>
    if context.beginLsn.isNone then return { e with context := none }
    else do
      let (_, log, lsn) ← context.appendTransactionRecord e.log .commit
      return { e with log := ← log.flushUpTo lsn, context := none }

/-- The original image of a touched page, from which live rollback undoes deltas. -/
def undoBase (context : TransactionContext) (pageId : Nat) : Result Page :=
  match context.pages.find? pageId with
  | some state => do
      require state.beforeExisted (.logicError "Rollback page has no original before-image")
      return state.before
  | none => .error (.logicError "Rollback page has no original before-image")

def loserOf (context : TransactionContext) (beginLsn lastLsn : Nat) : Loser :=
  ⟨context.transactionId, context.rollbackProtocol, context.startPageCount, beginLsn, lastLsn,
    none, context.reservations.entries.length, none, false⟩

/-- Frames dropped before the undo: every touched page, written back or not, and
the pages the transaction appended. -/
def discardForRollback (e : Engine) (context : TransactionContext) : Result Engine := do
  let e ← context.pages.keys.foldlM discardPageForRecovery e
  match context.rollbackProtocol with
  | .legacyTruncate => e.discardPagesAtOrAboveForRecovery context.startPageCount
  | .ownedAppend => do
      let e ← context.reservations.keys.foldlM discardPageForRecovery e
      e.discardPageForRecovery 0

def undoActive (e : Engine) (context : TransactionContext) : Result Engine :=
  match context.beginLsn, context.lastLsn with
  | some beginLsn, some lastLsn => do
      let log ← e.log.flushUpTo lastLsn
      let e ← { e with log := log }.discardForRollback context
      let s ← (undoTransactions (.open_ e.disk e.log) [loserOf context beginLsn lastLsn]
        (fun _ => undoBase context) finishOwned).mapError Failure.error
      let disk ← s.disk.reloadDatabaseHeader
      return { e with disk := disk, log := s.log, context := none, rollbackActive := false }
  -- a transaction that logged nothing leaves its frames alone
  | _, _ => return { e with context := none, rollbackActive := false }

def requireOwnedRollback (e : Engine) (context : TransactionContext) : Result Unit :=
  if context.rollbackProtocol = .ownedAppend then do
    require (e.totalPinCount = 0)
      (.logicError "Statement completion requires all page guards to be released")
    require (context.pages.contains 0 ∨ ∀ frame ∈ e.frames.find? 0, frame.dirty = false)
      (.logicError "Owned cleanup cannot discard unrelated dirty metadata")
  else .ok ()

/-- An appended page must be removed on restart even if nothing else was logged. -/
def ensureBoundaryLogged (e : Engine) (context : TransactionContext) :
    Result (TransactionContext × LogManager) :=
  if context.beginLsn.isNone ∧ context.startPageCount < e.disk.pageCount then
    context.ensureBeginLogged e.log
  else .ok (context, e.log)

def rollbackPrepared (e : Engine) : Result Engine :=
  match e.context with
  | none => .error (.logicError "No statement transaction is active")
  | some context => do
      let (context, log) ← e.ensureBoundaryLogged context
      { e with rollbackActive := true, log := log, context := some context }.undoActive context

def rollbackStatement (e : Engine) : Result Engine :=
  match e.context with
  | none => .error (.logicError "No statement transaction is active")
  | some context => do
      e.requireOwnedRollback context
      let e ← e.prepareStatement
      e.rollbackPrepared

def checkpointSafe (e : Engine) : Bool :=
  !e.allocatorSystemOperation && !e.rollbackActive && e.context.all (·.safeBoundary)

end Engine

/-- One call on the engine; a run is a list of them. -/
inductive EngineOp
  | begin (protocol : RollbackProtocol)
  | fetchRead (pageId : Nat) (victim : Option Nat)
  | fetchWrite (pageId : Nat) (victim : Option Nat)
  | mutate (pageId : Nat) (data : Page)
  | release (pageId : Nat)
  | newPage (victim : Option Nat)
  | flushPage (pageId : Nat)
  | flushAll (order : List Nat)
  | upgradeFormat
  | updateCatalogRoot (pageId : Nat)
  | updateFreeListRoot (pageId : Nat)
  | prepare
  | commit
  | rollback

namespace Engine

def step (e : Engine) : EngineOp → Result Engine
  | .begin protocol => e.beginTransaction protocol
  | .fetchRead pageId victim => e.fetchPageRead pageId victim
  | .fetchWrite pageId victim => e.fetchPageWrite pageId victim
  | .mutate pageId data => e.mutate pageId data
  | .release pageId => e.releasePin pageId
  | .newPage victim => e.newPageWrite victim
  | .flushPage pageId => e.flushPage pageId
  | .flushAll order => e.flushAll order
  | .upgradeFormat => e.upgradeToCurrentFormat
  | .updateCatalogRoot pageId => e.updateCatalogRootPageId pageId
  | .updateFreeListRoot pageId => e.updateFreeListRootPageId pageId
  | .prepare => e.prepareStatement
  | .commit => e.commitStatement
  | .rollback => e.rollbackStatement

def run (e : Engine) (ops : List EngineOp) : Result Engine := ops.foldlM step e

/-- A database as it stands once it was opened and recovered: a readable header,
an empty pool, and a log whose transactions are behind the next one. -/
structure Opened (e : Engine) : Prop where
  frames : e.frames = .empty
  context : e.context = none
  idle : e.rollbackActive = false ∧ e.allocatorSystemOperation = false
  header : deserializeDatabaseHeader (e.disk.page 0) = .ok e.disk.databaseHeader
  extent : e.disk.pageCount ≤ invalidPageId
  log : LogSound e.log
  ids : ∀ record ∈ e.log.records, record.transactionId < e.nextTransactionId

/-- A database just created: its header page and an empty log. -/
def create (frameCount : Nat) (mode : WalUpdateMode) : Engine where
  disk := ⟨⟨[serializeDatabaseHeader makeCurrentDatabaseHeader], []⟩,
    makeCurrentDatabaseHeader, false⟩
  log := ⟨[], walHeaderSize, none, none, [walHeaderSize], 16777216⟩
  frames := .empty
  frameCount := frameCount
  context := none
  nextTransactionId := 1
  updateMode := mode
  rollbackActive := false
  allocatorSystemOperation := false

theorem create_opened (frameCount : Nat) (mode : WalUpdateMode) :
    (create frameCount mode).Opened where
  frames := rfl
  context := rfl
  idle := ⟨rfl, rfl⟩
  header := by
      show deserializeDatabaseHeader (serializeDatabaseHeader makeCurrentDatabaseHeader) =
        .ok makeCurrentDatabaseHeader
      decide +kernel
  extent := by
      show 1 ≤ invalidPageId
      decide
  log := by
      refine ⟨⟨walHeaderSize, le_rfl, rfl⟩, ?_, ?_, ?_⟩
      · intro record hr
        cases hr
      · intro lsn hl
        cases hl
      · intro last hs
        cases hs
  ids := by
      intro record hr
      cases hr

/-- Page as a reader of the engine sees it: the resident frame, else the disk. -/
def view (e : Engine) (pageId : Nat) : Page :=
  match e.frames.find? pageId with
  | some frame => frame.data
  | none => e.disk.page pageId

end Engine

end MiniDb
