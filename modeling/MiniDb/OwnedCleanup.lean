import MiniDb.OwnedRollback

/-!
Allocator cleanup of an owned rollback. A reserved page that reached the file
is reclaimed only if its bytes are those of an append or of an image its owner
logged; a reservation whose page never reached the file is recorded as absent.
-/
namespace MiniDb
open ByteBlock Outcome

def fromBegin (records : List LogRecord) (begin : Nat) : Result (List LogRecord) :=
  match records.dropWhile (·.lsn ≠ begin) with
  | record :: rest => do
      require record.payload.isBeginOwned (corruptRecord "Owned cleanup lost its retained BEGIN")
      return record :: rest
  | [] => .error (corruptRecord "Owned cleanup lost its retained BEGIN")

/-- The image an update record of a page that did not exist before leaves behind. -/
def appendedImage (pageId : Nat) (record : LogRecord) : Result (Option Page) :=
  match record.payload with
  | .pageUpdate update =>
    if update.pageId ≠ pageId ∨ update.beforePageExisted then .ok none
    else .ok (some update.afterImage)
  | .pageDeltaUpdate update => do
      let after ← applyPageDeltaAfter zero update
      if update.pageId ≠ pageId ∨ update.beforePageExisted then return none
      return some after
  | .pageUpdateV2 update =>
    if update.pageId ≠ pageId ∨ update.beforePageExisted then .ok none
    else stampOwned update.afterImage
  | .pageDeltaUpdateV2 update => do
      let after ← applyPageDeltaAfter zero update.logical
      if update.pageId ≠ pageId ∨ update.beforePageExisted then return none
      stampOwned after
  | _ => .ok none
where
  stampOwned (after : Page) : Result (Option Page) := do
    let supports ← supportsPersistentPageLsn after
    require supports (corruptRecord "Owned V2 after-image lacks its declared PageLSN slot")
    return some (← writePersistentPageLsn after (some record.lsn))

def matchesOwnedImage (isMatch : Page → Result Bool) (pageId owner reserve : Nat)
    (history : List LogRecord) : Result Bool := do
  if ← isMatch zero then return true
  (history.filter fun record => record.transactionId = owner ∧ reserve < record.lsn).foldlM
    (fun found record => do
      if found then return true
      match ← appendedImage pageId record with
      | some after => isMatch after
      | none => return false) false

/-- Every page of the file past BEGIN is accounted for by one reservation. -/
def validateExtentProvenance (owner : OwnedRollbackAnalysis)
    (transactions : SortedMap OwnedRollbackAnalysis) (extent : Nat) : Result Unit := do
  let accounted := transactions.entries.flatMap fun (id, t) =>
    (t.reservations.entries.filter fun (_, entry) => owner.beginLsn ≤ entry.reserveLsn ∧
      (id = owner.transactionId ∨ t.phase = .commitRecorded)).map Prod.fst
  require accounted.Nodup (corruptRecord "Conflicting append provenance in physical extent")
  require (∀ offset ∈ List.range (extent - owner.startPageCount),
    owner.startPageCount + offset ∈ accounted)
    (corruptRecord "Unaccounted physical extension during owned transaction")

def proveMaterialized (disk : DiskManager) (owner : OwnedRollbackAnalysis) (pageId : Nat)
    (entry : OwnedReservationEvidence) (history : List LogRecord) : Result Page := do
  require (owner.protocol = .ownedAppend ∧ owner.logicalUndoChainComplete ∧
    owner.startPageCount ≤ pageId ∧ pageId < disk.pageCount)
    (corruptRecord "Missing owned materialization provenance")
  require (disk.databaseHeader.catalogRootPageId ≠ pageId)
    (corruptRecord "Owned cleanup targets live catalog root")
  let members ← freePages disk
  require (pageId ∉ members) (corruptRecord "Owned cleanup target is already globally free")
  let physical ← disk.readPhysicalPage pageId
  let known ← matchesOwnedImage (fun image => .ok (decide (physical = image))) pageId
    owner.transactionId entry.reserveLsn history
  require known (corruptRecord "Unlogged reuse or ambiguous physical reservation image")
  return physical

def validateAbsence (s : Storage) (pageId progressLsn : Nat) : Result Unit := do
  let record ← s.log.readRecordAt progressLsn
  validateTransactionRecordPayload record
  match record.payload with
  | .rollbackCleanupProgress progress =>
    require (s.disk.pageCount = progress.observedExtent ∧ s.disk.pageCount ≤ pageId)
      (corruptRecord "Recorded absence contradicts physical extent")
  | _ => .error (corruptRecord "Malformed owned rollback record identity/length/chain")

def validateReclaimed (s : Storage) (reclaimLsn : Nat) : Result Unit := do
  let record ← s.log.readRecordAt reclaimLsn
  let payload ← decodePageReclaim record
  let physical ← s.disk.readPhysicalPage payload.page
  let members ← freePages s.disk
  let reclaimed ← reclaimedPage payload reclaimLsn
  require (physical = reclaimed ∧ members.count payload.page = 1)
    (corruptRecord "Owned reclaim lacks exactly-once canonical free membership")

def validateCompleted (s : Storage) (pageId : Nat) (entry : OwnedReservationEvidence) :
    Result Unit := do
  if entry.outcome = .absenceRecorded then
    validateAbsence s pageId (← requireTarget entry.progressLsn)
  else validateReclaimed s (← requireTarget entry.reclaimLsn)

def reclaimPayloadOf (disk : DiskManager) (pageId : Nat) (physical : Page) :
    Result PageReclaimPayload := do
  let metadata ← disk.readPhysicalPage 0
  return ⟨pageId, disk.databaseHeader.freeListRootPageId, disk.pageCount,
    ← readPersistentPageLsn physical, ← readPersistentPageLsn metadata, crc32c physical⟩

/-- The record of a reclaim that follows its intent, and its effect on the file. -/
def applyIntended (s : Storage) (intent : Nat) (payload : PageReclaimPayload) :
    Attempt (Storage × Nat) := do
  let (s, reclaimLsn) ← s.append 0 none (.pageReclaim payload)
  let associated ← s.attempt (cleanupReclaimLsn intent)
  s.attempt (require (reclaimLsn = associated) (corruptRecord "Owned reclaim association changed"))
  let s ← s.flushUpTo reclaimLsn
  let record ← s.attempt (s.log.readRecordAt reclaimLsn)
  let disk ← s.attempt (redoPageReclaim s.disk record fun _ _ => false)
  return (s.withDisk disk, reclaimLsn)

/-- One reserved page that is in the file and has no intent yet. -/
def reclaimReserved (s : Storage) (loser : Loser) (owner : OwnedRollbackAnalysis)
    (history : List LogRecord) (pageId : Nat) (entry : OwnedReservationEvidence) :
    Attempt (Storage × Loser × Nat) := do
  let physical ← s.attempt (proveMaterialized s.disk owner pageId entry history)
  let payload ← s.attempt (reclaimPayloadOf s.disk pageId physical)
  let expected ← s.attempt (cleanupReclaimLsn s.log.nextLsn)
  let (s, intent) ← s.appendForced loser.transactionId (some loser.lastLsn)
    (.rollbackCleanupIntent ⟨entry.reserveLsn, expected, payload⟩)
  let (s, reclaimLsn) ← applyIntended s intent payload
  return (s, { loser with lastLsn := intent }, reclaimLsn)

/-- The reclaim of a page that is in the file: made now, or found done by redo. -/
def ensureReclaimed (s : Storage) (loser : Loser) (owner : OwnedRollbackAnalysis)
    (history : List LogRecord) (pageId : Nat) (entry : OwnedReservationEvidence) :
    Attempt (Storage × Loser × Nat) :=
  if entry.intentLsn = none then reclaimReserved s loser owner history pageId entry
  else do
    s.attempt (require entry.reclaimLsn.isSome
      (corruptRecord "Owned intent was not completed before REDO"))
    return (s, loser, entry.reclaimLsn.getD 0)

/-- The outcome of one reservation, before its progress record. -/
def settleReservation (s : Storage) (loser : Loser) (owner : OwnedRollbackAnalysis)
    (history : List LogRecord) (pageId : Nat) (entry : OwnedReservationEvidence) :
    Attempt (Storage × Loser × Option Nat) :=
  if pageId < s.disk.pageCount then do
    let (s, loser, reclaimLsn) ← ensureReclaimed s loser owner history pageId entry
    s.sync.attempt (validateReclaimed s.sync reclaimLsn)
    return (s.sync, loser, some reclaimLsn)
  else do
    s.attempt (require (entry.intentLsn = none)
      (corruptRecord "Reclaim intent lost its physical extent"))
    return (s, loser, entry.reclaimLsn)

/-- Completes one reservation of the owner, up to its forced progress record. -/
def finishReservation (owner : OwnedRollbackAnalysis) (history : List LogRecord)
    (state : Storage × Loser) (reservation : Nat × OwnedReservationEvidence) :
    Attempt (Storage × Loser) :=
  let (s, loser) := state
  let (pageId, entry) := reservation
  if entry.progressLsn.isSome then do
    s.attempt (validateCompleted s pageId entry)
    return (s, loser)
  else do
    let (s, loser, reclaimLsn) ← settleReservation s loser owner history pageId entry
    let (s, progress) ← s.appendForced loser.transactionId (some loser.lastLsn)
      (.rollbackCleanupProgress ⟨entry.reserveLsn, reclaimLsn, pageId, s.disk.pageCount⟩)
    return (s, { loser with lastLsn := progress })

/-- The owner's history as its cleanup finds it in the log. -/
def analyzeOwner (log : LogManager) (loser : Loser) :
    Result (List LogRecord × SortedMap OwnedRollbackAnalysis × OwnedRollbackAnalysis) := do
  let history ← fromBegin log.records loser.beginLsn
  let transactions ← analyzeOwnedRollbackHistory history
  match transactions.find? loser.transactionId with
  | none => .error (.outOfRange "map::at")
  | some owner => do
      require (owner.logicalUndoChainComplete ∧ owner.cleanupBeginLsn.isSome)
        (corruptRecord "Owned cleanup lacks completed user UNDO")
      return (history, transactions, owner)

/-- `OwnedRollbackCleanup::finish`. -/
def finishOwned (s : Storage) (loser : Loser) : Attempt Storage := do
  s.attempt (require (loser.rollbackProtocol = .ownedAppend ∧ loser.aborted = false)
    (corruptRecord "Owned cleanup has no aborting owner"))
  let (history, transactions, owner) ← s.attempt (analyzeOwner s.log loser)
  let s ← s.reloadDatabaseHeader
  s.attempt (require (owner.startPageCount ≤ s.disk.pageCount)
    (corruptRecord "Owned cleanup cannot restore a missing extent"))
  s.attempt (validateExtentProvenance owner transactions s.disk.pageCount)
  let (s, loser) ← owner.reservations.entries.foldlM (finishReservation owner history) (s, loser)
  let (s, _) ← s.sync.appendForced loser.transactionId (some loser.lastLsn) .abort
  return s

end MiniDb
