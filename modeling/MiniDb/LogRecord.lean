import Mathlib.Data.FinEnum
import MiniDb.PageLsn

/-!
Write-ahead log records, decoded. A record keeps the fields of its payload
instead of the encoded bytes; what the codec checks on the way in and out
(references, extents, range shapes) is stated on those fields, and the encoded
size is kept because an LSN is a byte position in the log.
-/
namespace MiniDb
open ByteBlock Outcome

/-- `wal_file_layout::HEADER_SIZE`: the first LSN of every log. -/
def walHeaderSize : Nat := 64

/-- `wal_record_layout::HEADER_SIZE`. -/
def recordHeaderSize : Nat := 48

def maxPayloadSize : Nat := 1024 * 1024 - recordHeaderSize

structure PageUpdateLogPayload where
  pageId : Nat
  beforePageExisted : Bool
  beforeImage : Page
  afterImage : Page
  deriving DecidableEq

structure PageUpdateV2LogPayload where
  pageId : Nat
  beforePageExisted : Bool
  beforePageLsn : Option Nat
  beforeImage : Page
  afterImage : Page
  deriving DecidableEq

structure PageByteRange where
  offset : Nat
  length : Nat
  beforeBytes : List UInt8
  afterBytes : List UInt8
  deriving DecidableEq

structure PageDeltaUpdateLogPayload where
  pageId : Nat
  beforePageExisted : Bool
  ranges : List PageByteRange
  deriving DecidableEq

structure PageDeltaUpdateV2LogPayload where
  pageId : Nat
  beforePageExisted : Bool
  beforePageLsn : Option Nat
  ranges : List PageByteRange
  deriving DecidableEq

structure CompensationLogPayload where
  pageId : Nat
  pageSupportsLsn : Bool
  undoNextLsn : Option Nat
  compensatedUpdateLsn : Nat
  compensatedImage : Page
  deriving DecidableEq

structure PageReserveLogPayload where
  pageId : Nat
  expectedOldPageCount : Nat
  deriving DecidableEq

structure PageReclaimPayload where
  page : Nat
  head : Nat
  pageCount : Nat
  beforePageLsn : Option Nat
  beforeMetadataLsn : Option Nat
  beforeCrc : Nat
  deriving DecidableEq

structure CleanupBeginPayload where
  undoEnd : Nat
  reservationCount : Nat
  deriving DecidableEq

structure CleanupIntentPayload where
  reserveLsn : Nat
  reclaimLsn : Nat
  reclaim : PageReclaimPayload
  deriving DecidableEq

structure CleanupProgressPayload where
  reserveLsn : Nat
  reclaimLsn : Option Nat
  page : Nat
  observedExtent : Nat
  deriving DecidableEq

structure DirtyPageEntry where
  pageId : Nat
  recLsn : Nat
  deriving DecidableEq

structure CheckpointTransactionEntry where
  transactionId : Nat
  beginLsn : Nat
  lastLsn : Nat
  startPageCount : Nat
  deriving DecidableEq

structure CheckpointBeginLogPayload where
  checkpointId : Nat
  previousCheckpointEndLsn : Option Nat
  walStartOffset : Nat
  deriving DecidableEq

structure CheckpointEndLogPayload where
  checkpointId : Nat
  checkpointBeginLsn : Nat
  databasePageCount : Nat
  nextTransactionId : Nat
  recoveryStartOffset : Nat
  deriving DecidableEq

structure FuzzyCheckpointBeginLogPayload where
  checkpointId : Nat
  previousCheckpointEndLsn : Option Nat
  deriving DecidableEq

structure FuzzyCheckpointEndLogPayload where
  checkpointId : Nat
  checkpointBeginLsn : Nat
  databasePageCount : Nat
  nextTransactionId : Nat
  dirtyPages : List DirtyPageEntry
  activeTransactions : List CheckpointTransactionEntry
  deriving DecidableEq

inductive LogPayload
  | begin (startPageCount : Nat)
  | pageUpdate (update : PageUpdateLogPayload)
  | commit
  | abort
  | compensation (clr : CompensationLogPayload)
  | checkpointBegin (payload : CheckpointBeginLogPayload)
  | checkpointEnd (payload : CheckpointEndLogPayload)
  | pageDeltaUpdate (update : PageDeltaUpdateLogPayload)
  | pageUpdateV2 (update : PageUpdateV2LogPayload)
  | pageDeltaUpdateV2 (update : PageDeltaUpdateV2LogPayload)
  | fuzzyCheckpointBegin (payload : FuzzyCheckpointBeginLogPayload)
  | fuzzyCheckpointEnd (payload : FuzzyCheckpointEndLogPayload)
  | pageReserve (payload : PageReserveLogPayload)
  | pageReclaim (payload : PageReclaimPayload)
  | beginOwned (startPageCount : Nat)
  | rollbackCleanupBegin (payload : CleanupBeginPayload)
  | rollbackCleanupIntent (payload : CleanupIntentPayload)
  | rollbackCleanupProgress (payload : CleanupProgressPayload)
  deriving DecidableEq

/-- System records (checkpoints, page reclaims) carry transaction id 0. -/
structure LogRecord where
  transactionId : Nat
  prevLsn : Option Nat
  payload : LogPayload
  lsn : Nat
  deriving DecidableEq

def rangesEncodedSize (beforePageExisted : Bool) (ranges : List PageByteRange) : Nat :=
  (ranges.map fun range => 4 + range.length * (if beforePageExisted then 2 else 1)).sum

def LogPayload.size : LogPayload → Nat
  | .begin _ => 16
  | .pageUpdate _ => 8208
  | .commit | .abort => 0
  | .compensation _ => 4136
  | .checkpointBegin _ => 32
  | .checkpointEnd _ => 48
  | .pageDeltaUpdate update => 24 + rangesEncodedSize update.beforePageExisted update.ranges
  | .pageUpdateV2 _ => 8216
  | .pageDeltaUpdateV2 update => 32 + rangesEncodedSize update.beforePageExisted update.ranges
  | .fuzzyCheckpointBegin _ => 32
  | .fuzzyCheckpointEnd payload =>
    64 + 16 * payload.dirtyPages.length + 48 * payload.activeTransactions.length
  | .pageReserve _ => 24
  | .pageReclaim _ => 48
  | .beginOwned _ => 24
  | .rollbackCleanupBegin _ => 24
  | .rollbackCleanupIntent _ => 72
  | .rollbackCleanupProgress _ => 40

def LogRecord.endLsn (record : LogRecord) : Nat :=
  record.lsn + recordHeaderSize + record.payload.size

structure PageUpdateIdentity where
  pageId : Nat
  beforePageExisted : Bool
  deriving DecidableEq

/-- `decodePageUpdateIdentity`, and `none` for a record that is no page update. -/
def LogPayload.pageUpdateIdentity : LogPayload → Option PageUpdateIdentity
  | .pageUpdate update => some ⟨update.pageId, update.beforePageExisted⟩
  | .pageDeltaUpdate update => some ⟨update.pageId, update.beforePageExisted⟩
  | .pageUpdateV2 update => some ⟨update.pageId, update.beforePageExisted⟩
  | .pageDeltaUpdateV2 update => some ⟨update.pageId, update.beforePageExisted⟩
  | _ => none

def LogPayload.isPageUpdate (payload : LogPayload) : Bool := payload.pageUpdateIdentity.isSome

def LogPayload.isBeginOwned : LogPayload → Bool
  | .beginOwned _ => true
  | _ => false

def LogPayload.isPageReclaim : LogPayload → Bool
  | .pageReclaim _ => true
  | _ => false

def LogPayload.isOwnedRollback : LogPayload → Bool
  | .beginOwned _ | .rollbackCleanupBegin _ | .rollbackCleanupIntent _
  | .rollbackCleanupProgress _ => true
  | _ => false

def LogPayload.isCheckpoint : LogPayload → Bool
  | .checkpointBegin _ | .checkpointEnd _ | .fuzzyCheckpointBegin _ | .fuzzyCheckpointEnd _ => true
  | _ => false

abbrev corruptRecord (message : String) : DbError := .walError .corruptRecord message

/-- `validateDeltaRanges` after its page id check: every range lies in the page,
after a gap behind the range before it. -/
def validateRanges (kind : WalErrorKind) (beforePageExisted : Bool) :
    (previousEnd : Option Nat) → List PageByteRange → Result Unit
  | _, [] => .ok ()
  | previousEnd, range :: ranges => do
      require (range.length ≠ 0 ∧ range.offset < pageSize ∧ range.length ≤ pageSize - range.offset)
        (.walError kind "PAGE_DELTA_UPDATE range is outside the page")
      require (∀ last ∈ previousEnd, last < range.offset)
        (.walError kind "PAGE_DELTA_UPDATE ranges are overlapping, adjacent, or out of order")
      require (range.beforeBytes.length = range.length ∧ range.afterBytes.length = range.length)
        (.walError kind "PAGE_DELTA_UPDATE range byte counts are inconsistent")
      require (beforePageExisted ∨ ∀ byte ∈ range.beforeBytes, byte = 0)
        (.walError kind "New-page PAGE_DELTA_UPDATE before bytes are not zero")
      validateRanges kind beforePageExisted (some (range.offset + range.length)) ranges

def validateDeltaRanges (payload : PageDeltaUpdateLogPayload) (kind : WalErrorKind) :
    Result Unit := do
  require (payload.pageId ≠ invalidPageId) (.walError kind "PAGE_DELTA_UPDATE PageId is invalid")
  require (payload.ranges ≠ [] ∧ payload.ranges.length ≤ (pageSize + 1) / 2)
    (.walError kind "PAGE_DELTA_UPDATE range count is invalid")
  validateRanges kind payload.beforePageExisted none payload.ranges

def PageDeltaUpdateV2LogPayload.logical (payload : PageDeltaUpdateV2LogPayload) :
    PageDeltaUpdateLogPayload :=
  ⟨payload.pageId, payload.beforePageExisted, payload.ranges⟩

end MiniDb
