import MiniDb.RecoveryCoordinator
import MiniDb.Foundation.Stateful

/-!
The coordinator's calls from the buffer pool, with the state a throw leaves
behind: a BEGIN may be in the log although the record it was for is not, and the
touched offsets of a page may be ahead of its records.
-/
namespace MiniDb
open ByteBlock Outcome Stateful

structure Coordinator where
  log : LogManager
  context : Option TransactionContext
  nextTransactionId : Nat
  updateMode : WalUpdateMode
  rollbackActive : Bool
  allocatorSystemOperation : Bool

abbrev HookM := EStateM DbError Coordinator

namespace Coordinator

def setContext (context : TransactionContext) : HookM Unit :=
  modify fun c => { c with context := some context }

def setRecord (context : TransactionContext) (log : LogManager) : HookM Unit :=
  modify fun c => { c with context := some context, log := log }

def ensureBeginLogged (context : TransactionContext) : HookM TransactionContext := do
  let (context, log) ← fromExcept (context.ensureBeginLogged (← get).log)
  setRecord context log
  return context

def appendTransactionRecord (context : TransactionContext) (payload : LogPayload) :
    HookM (TransactionContext × Nat) := do
  let context ← ensureBeginLogged context
  let (log, lsn) ← fromExcept
    ((← get).log.append context.transactionId context.lastLsn payload)
  let context := { context with lastLsn := some lsn }
  setRecord context log
  return (context, lsn)

def notePageWriteIntent (pageId : Nat) (before : Page) : HookM Unit := do
  match (← get).context with
  | none => throw (.logicError "Page mutation requires an active statement transaction")
  | some context =>
    if pageId = invalidPageId then
      throw (.invalidArgument "Write intent has invalid PageId")
    else do
      let context := { context with safeBoundary := false }
      setContext context
      if context.pages.contains pageId then return ()
      else do
        let state ← fromExcept (intentState context.startPageCount pageId before)
        setContext (context.setPage pageId state)

/-- The reservation of a page: the one there is, or a new one in the log. -/
def reservePage (context : TransactionContext) (expectedPageId : Nat) : HookM Nat :=
  match context.reservations.find? expectedPageId with
  | none => do
      fromExcept (require (∀ key ∈ context.reservations.keys, key < expectedPageId)
        (.logicError "Out-of-order physical page reservation"))
      let (context, lsn) ← appendTransactionRecord context
        (.pageReserve ⟨expectedPageId, expectedPageId⟩)
      setContext (context.setReservation expectedPageId ⟨lsn, false⟩)
      return lsn
  | some reservation => do
      fromExcept (require (reservation.materializedInRuntime = false)
        (.logicError "Physical page reservation already materialized"))
      return reservation.reserveLsn

def prepareForPhysicalPageAppend (expectedPageId : Nat) : HookM Unit := do
  let c ← get
  match c.context, c.rollbackActive with
  | some context, false => do
      fromExcept (require (expectedPageId ≠ invalidPageId ∧ expectedPageId ≠ 0 ∧
        context.startPageCount ≤ expectedPageId)
        (.logicError "Invalid next physical page reservation"))
      let context := { context with safeBoundary := false }
      setContext context
      let context ← ensureBeginLogged context
      let lsn ← reservePage context expectedPageId
      let log ← fromExcept ((← get).log.ensureDurable lsn)
      modify fun c => { c with log := log }
  | _, _ =>
    throw (.logicError "Physical append requires the active bound recovery transaction")

def notePhysicalPageAppend (pageId : Nat) : HookM Unit := do
  let c ← get
  match c.context with
  | none => throw (.logicError "Append confirmation lacks active owner")
  | some context => setContext (← fromExcept (context.notePhysicalPageAppend c.log pageId))

/-- The logging half of `preparePageForWrite`: the touched offsets are noted
before the record is appended. -/
def logPageUpdate (context : TransactionContext) (aware : Bool) (pageId : Nat) (state : PageState)
    (normalizedBefore normalizedAfter after : Page) : HookM (Page × Option Nat) := do
  let context := context.setPage pageId state
  setContext context
  let payload := updatePayload (← get).updateMode aware pageId state normalizedBefore
    normalizedAfter after
  let (context, lsn) ← appendTransactionRecord context payload
  setContext (context.setPage pageId (state.recorded normalizedAfter lsn))
  let page ← fromExcept (writeLsnIfSupported aware after lsn)
  return (page, some lsn)

def preparePageForWrite (formatVersion pageId : Nat) (after : Page) :
    HookM (Page × Option Nat) := do
  match (← get).context with
  | none => return (after, none)
  | some context =>
    match context.pages.find? pageId with
    | none => return (after, none)
    | some state => do
        let (afterSupportsPageLsn, normalizedAfter) ← fromExcept (clearIfSupported after)
        let (_, normalizedBefore) ← fromExcept (clearIfSupported state.before)
        let comparison := state.latestAfter.getD normalizedBefore
        if comparison = normalizedAfter then do
          let page ← fromExcept (restampPage afterSupportsPageLsn after state.latestLsn)
          return (page, state.latestLsn)
        else
          logPageUpdate context
            (isPageLsnAware formatVersion pageId afterSupportsPageLsn normalizedAfter) pageId
            (state.touch comparison normalizedAfter) normalizedBefore normalizedAfter after

end Coordinator

end MiniDb
