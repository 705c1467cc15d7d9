import MiniDb.PageReclaim
import MiniDb.Undo

/-!
Rollback of transactions that own the pages they appended. The history from
BEGIN_OWNED on is analysed from the log alone, and cleanup then reclaims every
reserved page that reached the file, with an intent and a progress record around
each reclaim, before the forced ABORT.
-/
namespace MiniDb
open ByteBlock Outcome

inductive OwnedCleanupPhase
  | ownedActive | undoing | logicalUndoComplete | cleanupStarted
  | reservationCleanupInProgress | cleanupComplete | abortRecorded | commitRecorded
  deriving DecidableEq, Repr

inductive ReservationCleanupOutcome
  | pending | reclaimRecorded | absenceRecorded
  deriving DecidableEq, Repr

structure OwnedReservationEvidence where
  reserveLsn : Nat
  intentLsn : Option Nat
  reclaimLsn : Option Nat
  progressLsn : Option Nat
  outcome : ReservationCleanupOutcome

structure OwnedRollbackAnalysis where
  transactionId : Nat
  protocol : RollbackProtocol
  phase : OwnedCleanupPhase
  beginLsn : Nat
  lastLsn : Nat
  cleanupBeginLsn : Option Nat
  startPageCount : Nat
  logicalUndoChainComplete : Bool
  reservations : SortedMap OwnedReservationEvidence

def OwnedCleanupPhase.terminal (phase : OwnedCleanupPhase) : Bool :=
  decide (phase = .abortRecorded ∨ phase = .commitRecorded)

def OwnedRollbackAnalysis.cleanupComplete (t : OwnedRollbackAnalysis) : Bool :=
  t.reservations.entries.all (·.2.progressLsn.isSome)

def OwnedRollbackAnalysis.noteReclaim (t : OwnedRollbackAnalysis) (pageId lsn : Nat) :
    OwnedRollbackAnalysis :=
  { t with reservations := match t.reservations.find? pageId with
    | some entry => t.reservations.insert pageId { entry with reclaimLsn := some lsn }
    | none => t.reservations }

/-- What the walk over a history has collected so far. -/
structure HistoryState where
  transactions : SortedMap OwnedRollbackAnalysis
  seen : List LogRecord
  undoNext : SortedMap (Option Nat)
  pageOwners : SortedMap Nat
  pendingReclaim : Option (Nat × CleanupIntentPayload)
  endLsn : Nat

namespace HistoryState

def find (h : HistoryState) (lsn : Nat) : Option LogRecord := h.seen.find? (·.lsn = lsn)

def setTransaction (h : HistoryState) (t : OwnedRollbackAnalysis) : HistoryState :=
  { h with transactions := h.transactions.insert t.transactionId t }

def claim (h : HistoryState) (pageId owner : Nat) : Result HistoryState :=
  match h.pageOwners.find? pageId with
  | some current => do
      require (current = owner) (corruptRecord "Conflicting physical page ownership")
      return h
  | none => return { h with pageOwners := h.pageOwners.insert pageId owner }

/-- Skips what never needs a page CLR: reservations and updates of new pages. -/
def nextRequiredUndo (h : HistoryState) (owner begin : Nat) :
    (rounds : Nat) → (target : Option Nat) → Result (Option Nat)
  | 0, target => .ok target
  | rounds + 1, target =>
    if target = some begin then .ok target
    else match target.bind h.find with
      | none => .error (corruptRecord "UNDO reference is not an owned record boundary")
      | some record => do
          require (record.transactionId = owner)
            (corruptRecord "UNDO reference is not an owned record boundary")
          match record.payload with
          | .pageReserve _ => h.nextRequiredUndo owner begin rounds record.prevLsn
          | payload =>
            if ∃ identity ∈ payload.pageUpdateIdentity, identity.beforePageExisted = false then
              h.nextRequiredUndo owner begin rounds record.prevLsn
            else .ok target

def requiredUndo (h : HistoryState) (t : OwnedRollbackAnalysis) (prevLsn : Option Nat) :
    Result (Option Nat) :=
  let target := if t.phase = .undoing then (h.undoNext.find? t.transactionId).getD none
    else prevLsn
  h.nextRequiredUndo t.transactionId t.beginLsn (h.seen.length + 1) target

def onBegin (h : HistoryState) (record : LogRecord) (protocol : RollbackProtocol)
    (startPageCount : Nat) : Result HistoryState := do
  require (h.transactions.contains record.transactionId = false)
    (corruptRecord "Duplicate/mixed transaction BEGIN")
  return h.setTransaction ⟨record.transactionId, protocol, .ownedActive, record.lsn, record.lsn,
    none, startPageCount, false, .empty⟩

def onReserve (h : HistoryState) (t : OwnedRollbackAnalysis) (record : LogRecord)
    (payload : PageReserveLogPayload) : Result (HistoryState × OwnedRollbackAnalysis) := do
  require (t.phase = .ownedActive ∧ t.startPageCount ≤ payload.expectedOldPageCount ∧
    ∀ key ∈ t.reservations.keys, key < payload.pageId)
    (corruptRecord "Invalid/duplicate reservation identity")
  let h ← h.claim payload.pageId record.transactionId
  return (h, { t with reservations :=
    t.reservations.insert payload.pageId ⟨record.lsn, none, none, none, .pending⟩ })

def onUpdate (h : HistoryState) (t : OwnedRollbackAnalysis) (record : LogRecord)
    (identity : PageUpdateIdentity) : Result (HistoryState × OwnedRollbackAnalysis) := do
  require (t.phase = .ownedActive ∧
    identity.beforePageExisted = decide (identity.pageId < t.startPageCount))
    (corruptRecord "Page update state/extent inconsistent with BEGIN")
  require (t.protocol = .legacyTruncate ∨ identity.beforePageExisted ∨
    t.reservations.contains identity.pageId)
    (corruptRecord "Owned append update lacks reservation")
  return (← h.claim identity.pageId record.transactionId, t)

def compensates (h : HistoryState) (record : LogRecord) (clr : CompensationLogPayload) : Bool :=
  match h.find clr.compensatedUpdateLsn with
  | some original =>
    decide (original.transactionId = record.transactionId ∧
      original.payload.pageUpdateIdentity = some ⟨clr.pageId, true⟩ ∧
      original.prevLsn = clr.undoNextLsn)
  | none => false

def onCompensation (h : HistoryState) (t : OwnedRollbackAnalysis) (record : LogRecord)
    (clr : CompensationLogPayload) : Result (HistoryState × OwnedRollbackAnalysis) := do
  require (h.compensates record clr)
    (corruptRecord "CLR does not compensate its owner's existing-page update")
  let target ← h.requiredUndo t record.prevLsn
  require (target = some clr.compensatedUpdateLsn)
    (corruptRecord "CLR skips/repeats required logical UNDO")
  return ({ h with undoNext := h.undoNext.insert record.transactionId clr.undoNextLsn },
    { t with phase := .undoing })

def onCleanupBegin (h : HistoryState) (t : OwnedRollbackAnalysis) (record : LogRecord)
    (payload : CleanupBeginPayload) : Result OwnedRollbackAnalysis := do
  require (payload.undoEnd = t.beginLsn ∧ payload.reservationCount = t.reservations.entries.length)
    (corruptRecord "Cleanup BEGIN lineage/count mismatch")
  let target ← h.requiredUndo t record.prevLsn
  require (target = some t.beginLsn)
    (corruptRecord "Cleanup before required logical UNDO completion")
  return { t with
    logicalUndoChainComplete := true
    cleanupBeginLsn := some record.lsn
    phase := if t.cleanupComplete then .cleanupComplete else .cleanupStarted }

def othersTerminal (h : HistoryState) (transactionId : Nat) : Bool :=
  h.transactions.entries.all fun entry => entry.1 = transactionId || entry.2.phase.terminal

def onCleanupIntent (h : HistoryState) (t : OwnedRollbackAnalysis) (record : LogRecord)
    (payload : CleanupIntentPayload) : Result (HistoryState × OwnedRollbackAnalysis) :=
  match t.reservations.find? payload.reclaim.page with
  | none => .error (corruptRecord "Intent lacks a unique owned reservation/cleanup boundary")
  | some entry => do
      require (t.cleanupBeginLsn.isSome ∧ entry.reserveLsn = payload.reserveLsn ∧
        entry.intentLsn = none ∧ entry.progressLsn = none)
        (corruptRecord "Intent lacks a unique owned reservation/cleanup boundary")
      require (h.othersTerminal record.transactionId)
        (corruptRecord "Cleanup cannot overlap another live transaction")
      return ({ h with pendingReclaim := some (record.transactionId, payload) },
        { t with
          phase := .reservationCleanupInProgress
          reservations := t.reservations.insert payload.reclaim.page
            { entry with intentLsn := some record.lsn } })

def intentExtent (h : HistoryState) (entry : OwnedReservationEvidence) : Option Nat :=
  match entry.intentLsn.bind h.find with
  | some ⟨_, _, .rollbackCleanupIntent intent, _⟩ => some intent.reclaim.pageCount
  | _ => none

def progressOutcome (h : HistoryState) (t : OwnedRollbackAnalysis)
    (entry : OwnedReservationEvidence) (payload : CleanupProgressPayload) :
    Result ReservationCleanupOutcome :=
  match payload.reclaimLsn with
  | some reclaim => do
      require (entry.intentLsn.isSome ∧ entry.reclaimLsn = some reclaim ∧
        h.intentExtent entry = some payload.observedExtent)
        (corruptRecord "Progress without matching intent/reclaim/extent")
      return .reclaimRecorded
  | none => do
      require (entry.intentLsn = none ∧ t.startPageCount ≤ payload.observedExtent)
        (corruptRecord "Absent progress conflicts with reclaim intent/BEGIN extent")
      return .absenceRecorded

def onCleanupProgress (h : HistoryState) (t : OwnedRollbackAnalysis) (record : LogRecord)
    (payload : CleanupProgressPayload) : Result OwnedRollbackAnalysis :=
  match t.reservations.find? payload.page with
  | none => .error (corruptRecord "Progress lacks owned reservation or is repeated")
  | some entry => do
      require (t.cleanupBeginLsn.isSome ∧ entry.reserveLsn = payload.reserveLsn ∧
        entry.progressLsn = none)
        (corruptRecord "Progress lacks owned reservation or is repeated")
      let outcome ← h.progressOutcome t entry payload
      let entry := { entry with outcome := outcome, progressLsn := some record.lsn }
      let t := { t with reservations := t.reservations.insert payload.page entry }
      return { t with phase :=
        if t.cleanupComplete then .cleanupComplete else .reservationCleanupInProgress }

/-- A record of a transaction whose BEGIN was seen, after the chain checks. -/
def onTransactionRecord (h : HistoryState) (t : OwnedRollbackAnalysis) (record : LogRecord) :
    Result (HistoryState × OwnedRollbackAnalysis) :=
  match record.payload with
  | .pageReserve payload => h.onReserve t record payload
  | .compensation clr => h.onCompensation t record clr
  | .rollbackCleanupBegin payload => do return (h, ← h.onCleanupBegin t record payload)
  | .rollbackCleanupIntent payload => h.onCleanupIntent t record payload
  | .rollbackCleanupProgress payload => do return (h, ← h.onCleanupProgress t record payload)
  | .commit => do
      require (t.phase = .ownedActive) (corruptRecord "COMMIT after rollback started")
      return (h, { t with phase := .commitRecorded })
  | .abort => do
      require (t.protocol = .legacyTruncate ∨ t.phase = .cleanupComplete)
        (corruptRecord "Owned ABORT before cleanup complete")
      return (h, { t with phase := .abortRecorded })
  | payload =>
    match payload.pageUpdateIdentity with
    | some identity => h.onUpdate t record identity
    | none => .error (corruptRecord "Unsupported transaction record")

def allowedDuringCleanup : LogPayload → Bool
  | .rollbackCleanupIntent _ | .rollbackCleanupProgress _ | .abort => true
  | _ => false

/-- Stores the transaction; its termination releases the pages it owned. -/
def advance (h : HistoryState) (t : OwnedRollbackAnalysis) : HistoryState :=
  let h := h.setTransaction t
  if t.phase.terminal then
    { h with pageOwners := ⟨h.pageOwners.entries.filter (·.2 ≠ t.transactionId),
      h.pageOwners.sorted.filter _⟩ }
  else h

def chainRecord (h : HistoryState) (record : LogRecord) : Result HistoryState :=
  match h.transactions.find? record.transactionId with
  | none => .error (corruptRecord "Transaction record without BEGIN")
  | some t => do
      require (t.phase.terminal = false ∧ record.prevLsn = some t.lastLsn ∧
        t.lastLsn < record.lsn)
        (corruptRecord "Wrong owner, non-boundary prevLSN or record after termination")
      require (record.payload.isOwnedRollback = false ∨ t.protocol = .ownedAppend)
        (corruptRecord "Owned cleanup in legacy transaction")
      require (t.cleanupBeginLsn = none ∨ allowedDuringCleanup record.payload)
        (corruptRecord "Mutation/CLR/commit after logical UNDO completion")
      let (h, t) ← h.onTransactionRecord t record
      return h.advance { t with lastLsn := record.lsn }

/-- The reclaim an intent announced, which must be the record right after it. -/
def answerIntent (h : HistoryState) (record : LogRecord) (owner : Nat)
    (expected : CleanupIntentPayload) : Result HistoryState := do
  require (record.lsn = expected.reclaimLsn ∧ record.payload.isPageReclaim)
    (corruptRecord "Cleanup intent's next record is not its associated reclaim")
  let payload ← decodePageReclaim record
  require (payload = expected.reclaim)
    (corruptRecord "Cleanup reclaim payload does not match intent")
  match h.transactions.find? owner with
  | none => .error (corruptRecord "Transaction record without BEGIN")
  | some t => return { h.setTransaction (t.noteReclaim expected.reclaim.page record.lsn) with
      pendingReclaim := none }

/-- A record that answers no intent. -/
def acceptRecord (h : HistoryState) (record : LogRecord) : Result HistoryState :=
  match record.payload with
  | .pageReclaim _ => do
      let _ ← decodePageReclaim record
      require (h.transactions.entries.all (·.2.phase.terminal))
        (corruptRecord "Unassociated system reclaim overlaps a transaction")
      return h
  | .checkpointBegin _ | .checkpointEnd _ | .fuzzyCheckpointBegin _
  | .fuzzyCheckpointEnd _ => do
      validateCheckpointRecord record
      require (h.transactions.entries.all fun entry =>
        entry.2.cleanupBeginLsn.isNone || entry.2.phase.terminal)
        (corruptRecord "Checkpoint during incomplete owned cleanup")
      return h
  | .begin startPageCount => do
      validateTransactionRecordPayload record
      h.onBegin record .legacyTruncate startPageCount
  | .beginOwned startPageCount => do
      validateTransactionRecordPayload record
      h.onBegin record .ownedAppend startPageCount
  | _ => do
      validateTransactionRecordPayload record
      h.chainRecord record

def step (h : HistoryState) (record : LogRecord) : Result HistoryState := do
  require (IsReference record.lsn ∧ record.lsn = h.endLsn ∧
    record.payload.size ≤ maxPayloadSize ∧
    record.lsn < invalidLsn - recordHeaderSize - record.payload.size)
    (corruptRecord "Noncontiguous/overflowed WAL record boundaries")
  let h := { h with endLsn := record.endLsn, seen := h.seen ++ [record] }
  match h.pendingReclaim with
  | some (owner, expected) => h.answerIntent record owner expected
  | none => h.acceptRecord record

end HistoryState

def analyzeOwnedRollbackHistory (records : List LogRecord) :
    Result (SortedMap OwnedRollbackAnalysis) := do
  let start := (records.head?.map (·.lsn)).getD walHeaderSize
  let h ← records.foldlM HistoryState.step ⟨.empty, [], .empty, .empty, none, start⟩
  return h.transactions

end MiniDb
