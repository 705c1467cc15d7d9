import MiniDb.LogRecord

/-!
What the payload codecs check: once when a payload is encoded for the log, and
once more when recovery decodes it. The two sets of checks differ in a few
places (a BEGIN extent is only checked on the way out), so both are kept.
-/
namespace MiniDb
open ByteBlock Outcome

abbrev invalidArgument (message : String) : DbError := .walError .invalidArgument message

/-- `isValidLsn(lsn) && lsn >= wal_file_layout::HEADER_SIZE`. -/
def IsReference (lsn : Nat) : Prop := lsn ≠ invalidLsn ∧ walHeaderSize ≤ lsn

instance (lsn : Nat) : Decidable (IsReference lsn) := by unfold IsReference; infer_instance

/-- `extent`: a page count that a BEGIN record may carry. -/
def IsExtent (count : Nat) : Prop := count ≠ 0 ∧ count ≤ invalidPageId

instance (count : Nat) : Decidable (IsExtent count) := by unfold IsExtent; infer_instance

def intentRecordSize : Nat := recordHeaderSize + 72

def reclaimRecordSize : Nat := recordHeaderSize + 48

def validateReservation (payload : PageReserveLogPayload) (kind : WalErrorKind) : Result Unit :=
  require (payload.pageId ≠ 0 ∧ payload.pageId ≠ invalidPageId ∧
    payload.expectedOldPageCount = payload.pageId)
    (.walError kind "Invalid APPENDED page reservation")

def requireReclaimPayload (payload : PageReclaimPayload) (kind : WalErrorKind) : Result Unit :=
  require (payload.page ≠ 0 ∧ payload.page ≠ invalidPageId ∧ payload.page < payload.pageCount ∧
    payload.pageCount ≤ invalidPageId ∧ payload.head ≠ payload.page ∧
    (payload.head = invalidPageId ∨ (payload.head ≠ 0 ∧ payload.head < payload.pageCount)))
    (.walError kind "Invalid PAGE_RECLAIM target/head/extent")

def ValidCompensationReferences (clr : CompensationLogPayload) : Prop :=
  clr.pageId ≠ invalidPageId ∧ IsReference clr.compensatedUpdateLsn ∧
    ∀ next ∈ clr.undoNextLsn, walHeaderSize ≤ next ∧ next < clr.compensatedUpdateLsn

instance (clr : CompensationLogPayload) : Decidable (ValidCompensationReferences clr) := by
  unfold ValidCompensationReferences; infer_instance

def cleanupReclaimLsn (intentLsn : Nat) : Result Nat := do
  require (IsReference intentLsn ∧
    intentLsn < invalidLsn - intentRecordSize - reclaimRecordSize)
    (corruptRecord "Cleanup reclaim LSN overflow")
  return intentLsn + intentRecordSize

/-- `decodePageReclaim` on the fields of the record that carries the payload. -/
def decodePageReclaim (record : LogRecord) : Result PageReclaimPayload :=
  match record.payload with
  | .pageReclaim payload => do
      require (record.transactionId = 0 ∧ record.prevLsn = none ∧ IsReference record.lsn)
        (corruptRecord "Malformed PAGE_RECLAIM ownership/length")
      requireReclaimPayload payload .corruptRecord
      require ((∀ lsn ∈ payload.beforePageLsn, walHeaderSize ≤ lsn ∧ lsn < record.lsn) ∧
        ∀ lsn ∈ payload.beforeMetadataLsn, walHeaderSize ≤ lsn ∧ lsn < record.lsn)
        (corruptRecord "PAGE_RECLAIM invalid before-LSN")
      return payload
  | _ => .error (corruptRecord "Malformed PAGE_RECLAIM ownership/length")

theorem decodePageReclaim_ok {r : LogRecord} {pl : PageReclaimPayload}
    (h : decodePageReclaim r = .ok pl) :
    r.transactionId = 0 ∧ r.payload = .pageReclaim pl ∧ pl.page ≠ 0 := by
  unfold decodePageReclaim at h
  split at h
  · rename_i fd hf
    simp only [ok_iff, requireReclaimPayload] at h
    obtain ⟨_, ⟨hs, _⟩, _, hv, _, _, rfl⟩ := h
    exact ⟨hs, hf, hv.1⟩
  · simp at h

def validateCleanupIntent (payload : CleanupIntentPayload) (kind : WalErrorKind) :
    Result Unit := do
  require (IsReference payload.reserveLsn ∧ IsReference payload.reclaimLsn ∧
    walHeaderSize + intentRecordSize ≤ payload.reclaimLsn ∧
    payload.reserveLsn < payload.reclaimLsn - intentRecordSize)
    (.walError kind "Invalid cleanup intent references")
  let intent := payload.reclaimLsn - intentRecordSize
  let _ ← cleanupReclaimLsn intent
  require ((∀ lsn ∈ payload.reclaim.beforePageLsn, lsn < intent) ∧
    ∀ lsn ∈ payload.reclaim.beforeMetadataLsn, lsn < intent)
    (.walError kind "Cleanup intent before-state must precede the intent")
  requireReclaimPayload payload.reclaim .invalidArgument
  let _ ← decodePageReclaim ⟨0, none, .pageReclaim payload.reclaim, payload.reclaimLsn⟩

def validateCleanupProgress (payload : CleanupProgressPayload) (kind : WalErrorKind) :
    Result Unit :=
  require (IsReference payload.reserveLsn ∧ payload.page ≠ 0 ∧ payload.page ≠ invalidPageId ∧
    IsExtent payload.observedExtent ∧
    (∀ reclaim ∈ payload.reclaimLsn, IsReference reclaim ∧ payload.reserveLsn < reclaim ∧
      payload.page < payload.observedExtent) ∧
    (payload.reclaimLsn = none → payload.observedExtent ≤ payload.page))
    (.walError kind "Invalid cleanup progress references/page/extent")

def validateCleanupBegin (payload : CleanupBeginPayload) (kind : WalErrorKind) : Result Unit :=
  require (IsReference payload.undoEnd ∧ payload.reservationCount < invalidPageId)
    (.walError kind "Invalid cleanup BEGIN reference/count")

/-- `validateDirtyPages`: data pages in ascending order with usable recLSNs. -/
def validateDirtyPages (kind : WalErrorKind) :
    (previous : Option Nat) → List DirtyPageEntry → Result Unit
  | _, [] => .ok ()
  | previous, entry :: entries => do
      require (entry.pageId ≠ 0 ∧ entry.pageId ≠ invalidPageId ∧ IsReference entry.recLsn ∧
        ∀ last ∈ previous, last < entry.pageId)
        (.walError kind "Invalid or noncanonical fuzzy-checkpoint DPT")
      validateDirtyPages kind (some entry.pageId) entries

def validateActiveTransactions (kind : WalErrorKind) :
    (previous : Nat) → List CheckpointTransactionEntry → Result Unit
  | _, [] => .ok ()
  | previous, entry :: entries => do
      require (entry.transactionId ≠ 0 ∧ IsReference entry.beginLsn ∧
        entry.lastLsn ≠ invalidLsn ∧ entry.beginLsn ≤ entry.lastLsn ∧
        IsExtent entry.startPageCount ∧ (previous = 0 ∨ previous < entry.transactionId))
        (.walError kind "Invalid or noncanonical fuzzy-checkpoint ATT")
      validateActiveTransactions kind entry.transactionId entries

def ValidFuzzyEndFields (payload : FuzzyCheckpointEndLogPayload) : Prop :=
  payload.checkpointId ≠ 0 ∧ IsReference payload.checkpointBeginLsn ∧
    IsExtent payload.databasePageCount ∧ payload.nextTransactionId ≠ 0

instance (payload : FuzzyCheckpointEndLogPayload) : Decidable (ValidFuzzyEndFields payload) := by
  unfold ValidFuzzyEndFields; infer_instance

/-- The checks of the encoders, on the payload about to be appended. -/
def encodeLogPayload : LogPayload → Result Unit
  | .begin _ | .commit | .abort => .ok ()
  | .beginOwned startPageCount =>
    require (IsExtent startPageCount) (invalidArgument "Invalid owned BEGIN extent")
  | .pageUpdate update => do
      require (update.pageId ≠ invalidPageId) (invalidArgument "PAGE_UPDATE PageId is invalid")
      require (update.beforePageExisted ∨ update.beforeImage = zero)
        (invalidArgument "PAGE_UPDATE for a new page must use a zero before-image")
  | .pageUpdateV2 update => do
      require (update.pageId ≠ invalidPageId) (invalidArgument "PAGE_UPDATE_V2 PageId is invalid")
      require (update.beforePageExisted ∨
        (update.beforePageLsn = none ∧ update.beforeImage = zero))
        (invalidArgument "PAGE_UPDATE_V2 for a new page has noncanonical before state")
  | .pageDeltaUpdate update => do
      validateDeltaRanges update .invalidArgument
      require ((LogPayload.pageDeltaUpdate update).size ≤ maxPayloadSize)
        (invalidArgument "PAGE_DELTA_UPDATE payload is too large")
  | .pageDeltaUpdateV2 update => do
      validateDeltaRanges update.logical .invalidArgument
      require (update.beforePageExisted ∨ update.beforePageLsn = none)
        (invalidArgument "PAGE_DELTA_UPDATE_V2 for a new page has a before PageLSN")
      require ((LogPayload.pageDeltaUpdateV2 update).size ≤ maxPayloadSize)
        (invalidArgument "PAGE_DELTA_UPDATE_V2 payload is too large")
  | .compensation clr =>
    require (ValidCompensationReferences clr)
      (invalidArgument "CLR payload references are invalid")
  | .pageReserve payload => validateReservation payload .invalidArgument
  | .pageReclaim payload => requireReclaimPayload payload .invalidArgument
  | .rollbackCleanupBegin payload => validateCleanupBegin payload .invalidArgument
  | .rollbackCleanupIntent payload => validateCleanupIntent payload .invalidArgument
  | .rollbackCleanupProgress payload => validateCleanupProgress payload .invalidArgument
  | .checkpointBegin payload =>
    require (payload.checkpointId ≠ 0 ∧ IsReference payload.walStartOffset)
      (invalidArgument "Invalid CHECKPOINT_BEGIN payload")
  | .checkpointEnd payload =>
    require (payload.checkpointId ≠ 0 ∧ payload.checkpointBeginLsn ≠ invalidLsn ∧
      payload.databasePageCount ≠ 0 ∧ payload.nextTransactionId ≠ 0 ∧
      payload.recoveryStartOffset ≠ invalidLsn)
      (invalidArgument "Invalid CHECKPOINT_END payload")
  | .fuzzyCheckpointBegin payload =>
    require (payload.checkpointId ≠ 0 ∧
      ∀ lsn ∈ payload.previousCheckpointEndLsn, walHeaderSize ≤ lsn)
      (invalidArgument "Invalid FUZZY_CHECKPOINT_BEGIN payload")
  | .fuzzyCheckpointEnd payload => do
      require (ValidFuzzyEndFields payload)
        (invalidArgument "Invalid FUZZY_CHECKPOINT_END payload")
      validateDirtyPages .invalidArgument none payload.dirtyPages
      validateActiveTransactions .invalidArgument 0 payload.activeTransactions
      require ((LogPayload.fuzzyCheckpointEnd payload).size ≤ maxPayloadSize)
        (invalidArgument "FUZZY_CHECKPOINT_END payload is too large")

/-- `check` of the owned rollback codec: identity, length and chain of a record. -/
def checkOwnedRecord (record : LogRecord) (begin : Bool) : Result Unit :=
  require (record.transactionId ≠ 0 ∧ IsReference record.lsn ∧
    record.lsn < invalidLsn - recordHeaderSize - record.payload.size ∧
    (begin = true → record.prevLsn = none) ∧
    (begin = false → ∃ prev ∈ record.prevLsn, IsReference prev ∧ prev < record.lsn))
    (corruptRecord "Malformed owned rollback record identity/length/chain")

def requirePrevLsn (record : LogRecord) (message : String) : Result Unit :=
  require (record.prevLsn ≠ none) (corruptRecord message)

def validateTransactionRecordPayload (record : LogRecord) : Result Unit := do
  require (record.transactionId ≠ 0)
    (corruptRecord "Transaction record uses transaction ID zero")
  match record.payload with
  | .beginOwned startPageCount =>
    checkOwnedRecord record true
    require (IsExtent startPageCount) (corruptRecord "Invalid owned BEGIN extent")
  | .rollbackCleanupBegin payload =>
    checkOwnedRecord record false
    validateCleanupBegin payload .corruptRecord
    require (payload.undoEnd < record.lsn) (corruptRecord "Cleanup BEGIN forward reference")
  | .rollbackCleanupIntent payload =>
    checkOwnedRecord record false
    let reclaimLsn ← cleanupReclaimLsn record.lsn
    require (IsReference payload.reserveLsn ∧ payload.reserveLsn < record.lsn ∧
      payload.reclaimLsn = reclaimLsn)
      (corruptRecord "Cleanup intent reference/record boundary")
    validateCleanupIntent payload .corruptRecord
  | .rollbackCleanupProgress payload =>
    checkOwnedRecord record false
    validateCleanupProgress payload .corruptRecord
    require (payload.reserveLsn < record.lsn ∧ ∀ lsn ∈ payload.reclaimLsn, lsn < record.lsn)
      (corruptRecord "Cleanup progress forward reference")
  | .pageReserve payload =>
    require (∃ prev ∈ record.prevLsn, walHeaderSize ≤ prev ∧ prev < record.lsn)
      (corruptRecord "PAGE_RESERVE invalid prevLSN")
    validateReservation payload .corruptRecord
  | .begin startPageCount =>
    require (record.prevLsn = none) (corruptRecord "BEGIN record has a prevLSN")
    require (IsExtent startPageCount) (corruptRecord "BEGIN start page count is invalid")
  | .pageUpdate update =>
    requirePrevLsn record "PAGE_UPDATE record lacks prevLSN"
    require (update.pageId ≠ invalidPageId) (corruptRecord "PAGE_UPDATE PageId is invalid")
    require (update.beforePageExisted ∨ update.beforeImage = zero)
      (corruptRecord "New-page before-image is not zero")
  | .pageDeltaUpdate update =>
    requirePrevLsn record "PAGE_DELTA_UPDATE record lacks prevLSN"
    validateDeltaRanges update .corruptRecord
  | .pageUpdateV2 update =>
    requirePrevLsn record "PAGE_UPDATE_V2 record lacks prevLSN"
    require (update.pageId ≠ invalidPageId) (corruptRecord "PAGE_UPDATE_V2 PageId is invalid")
    require (update.beforePageExisted ∨
      (update.beforePageLsn = none ∧ update.beforeImage = zero))
      (corruptRecord "New-page PAGE_UPDATE_V2 before state is not canonical")
  | .pageDeltaUpdateV2 update =>
    requirePrevLsn record "PAGE_DELTA_UPDATE_V2 record lacks prevLSN"
    validateDeltaRanges update.logical .corruptRecord
    require (update.beforePageExisted ∨ update.beforePageLsn = none)
      (corruptRecord "New-page PAGE_DELTA_UPDATE_V2 has a before PageLSN")
  | .compensation clr =>
    requirePrevLsn record "CLR record lacks prevLSN"
    require (ValidCompensationReferences clr)
      (corruptRecord "CLR payload references are invalid")
    require (clr.compensatedUpdateLsn < record.lsn ∧
      ∀ next ∈ clr.undoNextLsn, next < record.lsn)
      (corruptRecord "CLR has a self/future WAL reference")
  | .commit | .abort => requirePrevLsn record "Transaction terminator is malformed"
  | .checkpointBegin _ | .checkpointEnd _ | .fuzzyCheckpointBegin _ | .fuzzyCheckpointEnd _
  | .pageReclaim _ => .error (corruptRecord "Unsupported WAL record type in recovery")

def validateCheckpointRecord (record : LogRecord) : Result Unit := do
  require (record.transactionId = 0 ∧ record.prevLsn = none)
    (corruptRecord "Checkpoint WAL record is not a system record")
  match record.payload with
  | .checkpointBegin payload =>
    require (payload.checkpointId ≠ 0 ∧ IsReference payload.walStartOffset)
      (corruptRecord "Invalid CHECKPOINT_BEGIN fields")
    require (payload.walStartOffset = record.lsn)
      (corruptRecord "CHECKPOINT_BEGIN start offset disagrees with its LSN")
  | .checkpointEnd payload =>
    require (payload.checkpointId ≠ 0 ∧ payload.checkpointBeginLsn ≠ invalidLsn ∧
      IsExtent payload.databasePageCount ∧ payload.nextTransactionId ≠ 0 ∧
      payload.recoveryStartOffset ≠ invalidLsn)
      (corruptRecord "Invalid CHECKPOINT_END fields")
  | .fuzzyCheckpointBegin payload =>
    require (payload.checkpointId ≠ 0 ∧
      ∀ lsn ∈ payload.previousCheckpointEndLsn, walHeaderSize ≤ lsn)
      (corruptRecord "Invalid FUZZY_CHECKPOINT_BEGIN fields")
  | .fuzzyCheckpointEnd payload =>
    require (ValidFuzzyEndFields payload)
      (corruptRecord "Invalid FUZZY_CHECKPOINT_END fields")
    validateDirtyPages .corruptRecord none payload.dirtyPages
    validateActiveTransactions .corruptRecord 0 payload.activeTransactions
  | _ => .error (corruptRecord "Record is not a checkpoint record")

end MiniDb
