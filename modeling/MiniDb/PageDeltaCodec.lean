import MiniDb.PageDelta
import MiniDb.WalCodec

/-!
Page updates as bytes. An update is logged either with both images of the page or with
the ranges in which they differ, whichever record is shorter. The length of the record
is computed from the ranges before anything is encoded; a delta that was computed from
two images is always encodable, and its record then has the computed length.
-/
namespace MiniDb.Wal
open ByteBlock Outcome ByteString PageByteRange
open List hiding length
variable {req : Nat → Bool}

/-! Sizes. `std::size_t` has 64 bits. -/

def checkedAdd (left right : Nat) (message : String) : Result Nat := do
  require (right ≤ 2 ^ 64 - 1 - left) (invalidArgument message)
  return left + right

def checkedMultiply (left right : Nat) (message : String) : Result Nat := do
  require (left = 0 ∨ right ≤ (2 ^ 64 - 1) / left) (invalidArgument message)
  return left * right

/-- The copies of a range that are stored: a page that did not exist has none before. -/
def storedCopies (beforePageExisted : Bool) : Nat := if beforePageExisted then 2 else 1

def addRangeSize (record : String) (copies payloadSize : Nat) (range : PageByteRange) :
    Result Nat := do
  let dataBytes ← checkedMultiply range.length copies (record ++ " size calculation overflowed")
  let payloadSize ← checkedAdd payloadSize 4 (record ++ " size calculation overflowed")
  let payloadSize ← checkedAdd payloadSize dataBytes (record ++ " size calculation overflowed")
  require (payloadSize ≤ maxPayloadSize) (invalidArgument (record ++ " payload is too large"))
  return payloadSize

def pageDeltaUpdatePayloadEncodedSize (payload : PageDeltaUpdateLogPayload) : Result Nat := do
  validateDeltaRanges payload .invalidArgument
  let payloadSize ← payload.ranges.foldlM
    (addRangeSize "PAGE_DELTA_UPDATE" (storedCopies payload.beforePageExisted)) 24
  require (payloadSize ≤ 2 ^ 32 - 1)
    (invalidArgument "PAGE_DELTA_UPDATE payload length is not encodable")
  return payloadSize

def pageDeltaUpdateRecordEncodedSize (payload : PageDeltaUpdateLogPayload) : Result Nat := do
  let payloadSize ← pageDeltaUpdatePayloadEncodedSize payload
  let recordSize ← checkedAdd recordHeaderSize payloadSize
    "PAGE_DELTA_UPDATE record size calculation overflowed"
  require (recordSize ≤ maxRecordSize ∧ recordSize ≤ 2 ^ 32 - 1)
    (invalidArgument "PAGE_DELTA_UPDATE record length is not encodable")
  return recordSize

def pageDeltaUpdateV2PayloadEncodedSize (payload : PageDeltaUpdateV2LogPayload) : Result Nat := do
  validateDeltaRanges payload.logical .invalidArgument
  require (payload.beforePageExisted ∨ payload.beforePageLsn = none)
    (invalidArgument "PAGE_DELTA_UPDATE_V2 for a new page has a before PageLSN")
  payload.ranges.foldlM
    (addRangeSize "PAGE_DELTA_UPDATE_V2" (storedCopies payload.beforePageExisted)) 32

def pageDeltaUpdateV2RecordEncodedSize (payload : PageDeltaUpdateV2LogPayload) : Result Nat := do
  checkedAdd recordHeaderSize (← pageDeltaUpdateV2PayloadEncodedSize payload)
    "PAGE_DELTA_UPDATE_V2 record size calculation overflowed"

/-! The choice between the two encodings. -/

structure AdaptivePageUpdateDecision where
  recordType : LogRecordType
  fullPageRecordBytes : Nat
  deltaRecordBytes : Nat
  rangeCount : Nat
  changedByteCount : Nat
  deriving DecidableEq, Repr

def fullPageUpdateRecordSize : Nat := recordHeaderSize + 8208

def fullPageUpdateV2RecordSize : Nat := recordHeaderSize + 8216

def changedByteCount (record : String) (ranges : List PageByteRange) : Result Nat :=
  ranges.foldlM
    (fun changedBytes range =>
      checkedAdd changedBytes range.length (record ++ " changed-byte count overflowed")) 0

def selectAdaptivePageUpdateEncoding (deltaPayload : PageDeltaUpdateLogPayload) :
    Result AdaptivePageUpdateDecision := do
  let deltaBytes ← pageDeltaUpdateRecordEncodedSize deltaPayload
  let changedBytes ← changedByteCount "PAGE_DELTA_UPDATE" deltaPayload.ranges
  return {
    recordType := if deltaBytes < fullPageUpdateRecordSize then .pageDeltaUpdate else .pageUpdate
    fullPageRecordBytes := fullPageUpdateRecordSize
    deltaRecordBytes := deltaBytes
    rangeCount := deltaPayload.ranges.length
    changedByteCount := changedBytes }

def selectAdaptivePageUpdateV2Encoding (deltaPayload : PageDeltaUpdateV2LogPayload) :
    Result AdaptivePageUpdateDecision := do
  let deltaBytes ← pageDeltaUpdateV2RecordEncodedSize deltaPayload
  let changedBytes ← changedByteCount "PAGE_DELTA_UPDATE_V2" deltaPayload.ranges
  return {
    recordType :=
      if deltaBytes < fullPageUpdateV2RecordSize then .pageDeltaUpdateV2 else .pageUpdateV2
    fullPageRecordBytes := fullPageUpdateV2RecordSize
    deltaRecordBytes := deltaBytes
    rangeCount := deltaPayload.ranges.length
    changedByteCount := changedBytes }

/-! The encoders. -/

def existedFlag (beforePageExisted : Bool) : Nat := if beforePageExisted then 1 else 0

def imageBytes (page : Page) : List UInt8 := pageBytes page 0 pageSize

/-! The fields of each header in the order of their offsets. -/

def pageUpdateHeader (payload : PageUpdateLogPayload) : List (Nat × Nat) :=
  [(4, payload.pageId), (4, existedFlag payload.beforePageExisted), (4, pageSize), (4, 0)]

def pageUpdateV2Header (payload : PageUpdateV2LogPayload) (beforePageLsn : Nat) :
    List (Nat × Nat) :=
  [(4, payload.pageId), (4, existedFlag payload.beforePageExisted), (4, pageSize), (2, 1), (2, 24),
    (8, beforePageLsn)]

def pageDeltaUpdateHeader (payload : PageDeltaUpdateLogPayload) : List (Nat × Nat) :=
  [(4, payload.pageId), (4, existedFlag payload.beforePageExisted), (4, pageSize),
    (4, payload.ranges.length), (2, 1), (2, 24), (4, 0)]

def pageDeltaUpdateV2Header (payload : PageDeltaUpdateV2LogPayload) (beforePageLsn : Nat) :
    List (Nat × Nat) :=
  [(4, payload.pageId), (4, existedFlag payload.beforePageExisted), (4, pageSize),
    (4, payload.ranges.length), (2, 1), (2, 32), (4, 0), (8, beforePageLsn)]

def encodePageUpdateLogPayload (payload : PageUpdateLogPayload) : Result (List UInt8) := do
  require (payload.pageId ≠ invalidPageId) (invalidArgument "PAGE_UPDATE PageId is invalid")
  require (payload.beforePageExisted ∨ payload.beforeImage = zero)
    (invalidArgument "PAGE_UPDATE for a new page must use a zero before-image")
  return fields (pageUpdateHeader payload) ++ imageBytes payload.beforeImage ++
    imageBytes payload.afterImage

def encodePageUpdateV2LogPayload (payload : PageUpdateV2LogPayload) : Result (List UInt8) := do
  require (payload.pageId ≠ invalidPageId) (invalidArgument "PAGE_UPDATE_V2 PageId is invalid")
  require (payload.beforePageExisted ∨ (payload.beforePageLsn = none ∧ payload.beforeImage = zero))
    (invalidArgument "PAGE_UPDATE_V2 for a new page has noncanonical before state")
  let beforePageLsn ← encodePersistentPageLsn payload.beforePageLsn
  return fields (pageUpdateV2Header payload beforePageLsn) ++ imageBytes payload.beforeImage ++
    imageBytes payload.afterImage

def rangeBytes (beforePageExisted : Bool) (range : PageByteRange) : List UInt8 :=
  fields [(2, range.offset), (2, range.length)] ++
    ((if beforePageExisted then range.beforeBytes else []) ++ range.afterBytes)

/-- What is written from the start of a zeroed vector of the given size. A write past its
end shows in the length. -/
def filled (size : Nat) (written : List UInt8) : List UInt8 :=
  written ++ List.replicate (size - written.length) 0

def encodePageDeltaUpdateLogPayload (payload : PageDeltaUpdateLogPayload) :
    Result (List UInt8) := do
  let payloadSize ← pageDeltaUpdatePayloadEncodedSize payload
  return filled payloadSize (fields (pageDeltaUpdateHeader payload) ++
    payload.ranges.flatMap (rangeBytes payload.beforePageExisted))

def encodePageDeltaUpdateV2LogPayload (payload : PageDeltaUpdateV2LogPayload) :
    Result (List UInt8) := do
  let payloadSize ← pageDeltaUpdateV2PayloadEncodedSize payload
  let beforePageLsn ← encodePersistentPageLsn payload.beforePageLsn
  return filled payloadSize (fields (pageDeltaUpdateV2Header payload beforePageLsn) ++
    payload.ranges.flatMap (rangeBytes payload.beforePageExisted))

/-! Lengths. -/

theorem checkedAdd_of {left right : Nat} (msg : String) (h : left + right < 2 ^ 64) :
    checkedAdd left right msg = .ok (left + right) := by
  rw [checkedAdd, require_of _ (by omega)]
  rfl

theorem checkedMultiply_of {left right : Nat} (msg : String) (h : left * right < 2 ^ 64) :
    checkedMultiply left right msg = .ok (left * right) := by
  have hf : left = 0 ∨ right ≤ (2 ^ 64 - 1) / left := by
    rcases Nat.eq_zero_or_pos left with hz | hp
    · exact .inl hz
    · right
      rw [Nat.le_div_iff_mul_le hp, Nat.mul_comm]
      omega
  rw [checkedMultiply, require_of _ hf]
  rfl

theorem maxPayloadSize_lt : maxPayloadSize < 2 ^ 32 := by decide

theorem rangesEncodedSize_cons (ex : Bool) (rg : PageByteRange) (rgs : List PageByteRange) :
    rangesEncodedSize ex (rg :: rgs) =
      4 + rg.length * storedCopies ex + rangesEncodedSize ex rgs := rfl

variable {ex : Bool}

theorem addRangeSize_of (r : String) {size : Nat} {rg : PageByteRange}
    (h : size + (4 + rg.length * storedCopies ex) ≤ maxPayloadSize) :
    addRangeSize r (storedCopies ex) size rg = .ok (size + (4 + rg.length * storedCopies ex)) := by
  have hm := maxPayloadSize_lt
  rw [addRangeSize, checkedMultiply_of _ (by omega), ok_bind, checkedAdd_of _ (by omega), ok_bind,
    checkedAdd_of _ (by omega), ok_bind, require_of _ (by omega), ok_bind, add_assoc]
  rfl

variable {rgs : List PageByteRange}

theorem foldlM_addRangeSize (r : String) {size : Nat}
    (h : size + rangesEncodedSize ex rgs ≤ maxPayloadSize) :
    rgs.foldlM (addRangeSize r (storedCopies ex)) size = .ok (size + rangesEncodedSize ex rgs) := by
  induction rgs generalizing size with
  | nil => rfl
  | cons rg rgs ih =>
    rw [rangesEncodedSize_cons] at h ⊢
    rw [foldlM_cons, addRangeSize_of r (by omega), ok_bind, ih (by omega), add_assoc,
      add_assoc]

theorem changedByteCount_of (r : String) (h : (rgs.map length).sum < 2 ^ 64) :
    changedByteCount r rgs = .ok (rgs.map length).sum := by
  have hf : ∀ cnt, cnt + (rgs.map length).sum < 2 ^ 64 → rgs.foldlM (fun changedBytes rg =>
        checkedAdd changedBytes rg.length (r ++ " changed-byte count overflowed")) cnt =
        .ok (cnt + (rgs.map length).sum) := by
    clear h
    induction rgs with
    | nil =>
      intro cnt _
      rfl
    | cons rg rgs ih =>
      intro cnt hc
      rw [map_cons, sum_cons] at hc ⊢
      rw [foldlM_cons, checkedAdd_of _ (by omega), ok_bind, ih _ (by omega), add_assoc]
  have hz := hf 0 (by omega)
  rwa [zero_add] at hz

/-- What an encoder relies on: the ranges carry as many bytes as they say, and do not take
more than a page. -/
structure Encodable (ranges : List PageByteRange) : Prop where
  counts : ∀ range ∈ ranges, range.beforeBytes.length = range.length ∧
    range.afterBytes.length = range.length
  total : (ranges.map PageByteRange.length).sum ≤ pageSize
  count : ranges.length ≤ (pageSize + 1) / 2

theorem length_rangeBytes {rg : PageByteRange}
    (h : rg.beforeBytes.length = rg.length ∧ rg.afterBytes.length = rg.length) :
    (rangeBytes ex rg).length = 4 + rg.length * storedCopies ex := by
  rw [rangeBytes, length_append, length_append, length_fields, h.2]
  cases ex with
  | false =>
    show 4 + (0 + rg.length) = 4 + rg.length * 1
    omega
  | true =>
    show 4 + (rg.beforeBytes.length + rg.length) = 4 + rg.length * 2
    omega

theorem length_rangesBytes
    (h : ∀ rg ∈ rgs, rg.beforeBytes.length = rg.length ∧ rg.afterBytes.length = rg.length) :
    (rgs.flatMap (rangeBytes ex)).length = rangesEncodedSize ex rgs := by
  induction rgs with
  | nil => rfl
  | cons rg rgs ih =>
    obtain ⟨hr, hn⟩ := forall_mem_cons.mp h
    rw [flatMap_cons, length_append, length_rangeBytes hr, ih hn, rangesEncodedSize_cons]

theorem rangesEncodedSize_le (ex : Bool) (rgs : List PageByteRange) :
    rangesEncodedSize ex rgs ≤ 4 * rgs.length + 2 * (rgs.map length).sum := by
  induction rgs with
  | nil => exact le_rfl
  | cons rg rgs ih =>
    rw [rangesEncodedSize_cons, length_cons, map_cons, sum_cons]
    have hc : storedCopies ex ≤ 2 := by cases ex <;> decide
    have hd := Nat.mul_le_mul_left rg.length hc
    omega

theorem Encodable.small (h : Encodable rgs) (ex : Bool) :
    rangesEncodedSize ex rgs ≤ 4 * pageSize := by
  have hle := rangesEncodedSize_le ex rgs
  have ht := h.total
  have hc := h.count
  have hp : pageSize = 4096 := rfl
  omega

theorem filled_exact {size : Nat} {wr : List UInt8} (h : wr.length = size) :
    filled size wr = wr := by
  rw [filled, h, Nat.sub_self, replicate_zero, append_nil]

/-! Records of an update. -/

/-- Both encoders accept an update. Wherever its record may be put, the record of the delta
has the predicted length, the decision knows both lengths, and it names the type of a
shortest record. -/
def ChosenShortest (fullType deltaType : LogRecordType) (full delta : Result (List UInt8))
    (predicted : Result Nat) (decision : Result AdaptivePageUpdateDecision) : Prop :=
  ∃ fullBytes deltaBytes chosen, full = .ok fullBytes ∧ delta = .ok deltaBytes ∧
    decision = .ok chosen ∧
    ∀ (transactionId prevLsn : UInt64) (lsn : Nat), isValidLsn lsn → walHeaderSize ≤ lsn →
      ¬ (isValidLsn prevLsn.toNat ∧ lsn ≤ prevLsn.toNat) →
      ∃ fullRecord deltaRecord,
        encodeWalRecord ⟨fullType, transactionId, prevLsn, fullBytes, lsn⟩ lsn = .ok fullRecord ∧
        encodeWalRecord ⟨deltaType, transactionId, prevLsn, deltaBytes, lsn⟩ lsn = .ok deltaRecord ∧
        predicted = .ok deltaRecord.length ∧ chosen.fullPageRecordBytes = fullRecord.length ∧
        chosen.deltaRecordBytes = deltaRecord.length ∧
        (chosen.recordType = fullType ∧ fullRecord.length ≤ deltaRecord.length ∨
          chosen.recordType = deltaType ∧ deltaRecord.length ≤ fullRecord.length)

theorem length_imageBytes (pg : Page) : (imageBytes pg).length = pageSize :=
  pageBytes_length pg 0 pageSize

/-- A delta's payload as it is written, behind a header of the given fields. -/
theorem length_deltaUpdate {lay : List (Nat × Nat)} (h : Encodable rgs) (ex : Bool) :
    (fields lay ++ rgs.flatMap (rangeBytes ex)).length = widths lay + rangesEncodedSize ex rgs := by
  rw [length_append, length_fields, length_rangesBytes h.counts]

theorem chosenShortest_of {fullType deltaType : LogRecordType} {full delta : Result (List UInt8)}
    {predicted : Result Nat} {decision : Result AdaptivePageUpdateDecision} {bef aft : Page}
    {fullLay deltaLay : List (Nat × Nat)} {fullSize deltaSize : Nat} (w w' changed : Nat)
    (h : Encodable rgs) (hw : widths fullLay = w) (hw' : widths deltaLay = w') (hle : w + w' ≤ 64)
    (hf : full = .ok (fields fullLay ++ imageBytes bef ++ imageBytes aft))
    (hu : recordHeaderSize + (w + 8192) = fullSize)
    (hdt : delta = .ok (fields deltaLay ++ rgs.flatMap (rangeBytes ex)))
    (he : recordHeaderSize + (w' + rangesEncodedSize ex rgs) = deltaSize)
    (hpd : predicted = .ok deltaSize) (hc : decision = .ok ⟨if deltaSize < fullSize then deltaType
      else fullType, fullSize, deltaSize, rgs.length, changed⟩) :
    ChosenShortest fullType deltaType full delta predicted decision := by
  have hg : pageSize = 4096 := rfl
  have hm : maxPayloadSize = 1048528 := rfl
  have hs := h.small ex
  have hfs : (fields fullLay ++ imageBytes bef ++ imageBytes aft).length = w + 8192 := by
    rw [length_append, length_append, length_fields, length_imageBytes, length_imageBytes, hw]
    omega
  have hds : (fields deltaLay ++ rgs.flatMap (rangeBytes ex)).length = w' +
    rangesEncodedSize ex rgs :=
    hw' ▸ length_deltaUpdate h ex
  generalize fields fullLay ++ imageBytes bef ++ imageBytes aft = fullBytes at hf hfs
  generalize fields deltaLay ++ rgs.flatMap (rangeBytes ex) = deltaBytes at hdt hds
  refine ⟨fullBytes, deltaBytes, _, hf, hdt, hc, ?_⟩
  intro tid pv lsn hv ht hp
  obtain ⟨fullRecord, hfl⟩ : ∃ bs,
      encodeWalRecord ⟨fullType, tid, pv, fullBytes, lsn⟩ lsn = .ok bs :=
    ⟨_, encodeWalRecord_ok.mpr ⟨⟨⟨hv, ht⟩, show fullBytes.length ≤ _ by omega, hp⟩, rfl⟩⟩
  obtain ⟨deltaRecord, hdl⟩ : ∃ bs,
      encodeWalRecord ⟨deltaType, tid, pv, deltaBytes, lsn⟩ lsn = .ok bs :=
    ⟨_, encodeWalRecord_ok.mpr ⟨⟨⟨hv, ht⟩, show deltaBytes.length ≤ _ by omega, hp⟩, rfl⟩⟩
  have hn := (length_of_encode hfl).trans ((congrArg (recordHeaderSize + ·) hfs).trans hu)
  have hd := (length_of_encode hdl).trans ((congrArg (recordHeaderSize + ·) hds).trans he)
  refine ⟨fullRecord, deltaRecord, hfl, hdl, ?_, hn.symm, hd.symm, ?_⟩
  · rw [hpd, hd]
  · rw [hn, hd]
    by_cases hl : deltaSize < fullSize
    · exact .inr ⟨if_pos hl, hl.le⟩
    · exact .inl ⟨if_neg hl, not_lt.mp hl⟩

section Update
variable {pid : Nat} {ex : Bool} {bef aft : Page} {rgs : List PageByteRange}
  (hv : validateDeltaRanges ⟨pid, ex, rgs⟩ .invalidArgument = .ok ()) (h : Encodable rgs)
include hv h

theorem pageDeltaUpdatePayloadEncodedSize_of :
    pageDeltaUpdatePayloadEncodedSize ⟨pid, ex, rgs⟩ = .ok (24 + rangesEncodedSize ex rgs) := by
  have hs := h.small ex
  have hp : pageSize = 4096 := rfl
  have hm : maxPayloadSize = 1048528 := rfl
  have hf : rgs.foldlM (addRangeSize "PAGE_DELTA_UPDATE" (storedCopies ex)) 24 =
      .ok (24 + rangesEncodedSize ex rgs) := foldlM_addRangeSize _ (by omega)
  have hl : 24 + rangesEncodedSize ex rgs ≤ 2 ^ 32 - 1 := by omega
  simp only [pageDeltaUpdatePayloadEncodedSize, hv, ok_bind, hf, require_of _ hl]
  rfl

theorem encodePageDeltaUpdateLogPayload_of :
    encodePageDeltaUpdateLogPayload ⟨pid, ex, rgs⟩ =
      .ok (fields (pageDeltaUpdateHeader ⟨pid, ex, rgs⟩) ++ rgs.flatMap (rangeBytes ex)) := by
  rw [encodePageDeltaUpdateLogPayload, pageDeltaUpdatePayloadEncodedSize_of hv h, ok_bind]
  exact congrArg Except.ok (filled_exact (length_deltaUpdate h ex))

theorem pageDeltaUpdateV2PayloadEncodedSize_of {beforePageLsn : Option Nat}
    (hu : ex = true ∨ beforePageLsn = none) :
    pageDeltaUpdateV2PayloadEncodedSize ⟨pid, ex, beforePageLsn, rgs⟩ =
      .ok (32 + rangesEncodedSize ex rgs) := by
  have hs := h.small ex
  have hp : pageSize = 4096 := rfl
  have hm : maxPayloadSize = 1048528 := rfl
  have hf : rgs.foldlM (addRangeSize "PAGE_DELTA_UPDATE_V2" (storedCopies ex)) 32 =
      .ok (32 + rangesEncodedSize ex rgs) := foldlM_addRangeSize _ (by omega)
  simp only [pageDeltaUpdateV2PayloadEncodedSize, PageDeltaUpdateV2LogPayload.logical, hv, ok_bind,
    require_of _ hu, hf]

theorem encodePageDeltaUpdateV2LogPayload_of {beforePageLsn : Option Nat} {enc : Nat}
    (hu : ex = true ∨ beforePageLsn = none) (he : encodePersistentPageLsn beforePageLsn = .ok enc) :
    encodePageDeltaUpdateV2LogPayload ⟨pid, ex, beforePageLsn, rgs⟩ =
      .ok (fields (pageDeltaUpdateV2Header ⟨pid, ex, beforePageLsn, rgs⟩ enc) ++
        rgs.flatMap (rangeBytes ex)) := by
  rw [encodePageDeltaUpdateV2LogPayload, pageDeltaUpdateV2PayloadEncodedSize_of hv h hu, ok_bind,
    he, ok_bind]
  exact congrArg Except.ok (filled_exact (length_deltaUpdate h ex))

theorem update_chosenShortest (hi : pid ≠ invalidPageId) (hn : ex = true ∨ bef = zero) :
    ChosenShortest .pageUpdate .pageDeltaUpdate (encodePageUpdateLogPayload ⟨pid, ex, bef, aft⟩)
      (encodePageDeltaUpdateLogPayload ⟨pid, ex, rgs⟩)
      (pageDeltaUpdateRecordEncodedSize ⟨pid, ex, rgs⟩)
      (selectAdaptivePageUpdateEncoding ⟨pid, ex, rgs⟩) := by
  have hs := h.small ex
  have hg : pageSize = 4096 := rfl
  have hr : maxRecordSize = 1048576 := rfl
  have hh : recordHeaderSize = 48 := rfl
  have hpr : pageDeltaUpdateRecordEncodedSize ⟨pid, ex, rgs⟩ =
      .ok (recordHeaderSize + (24 + rangesEncodedSize ex rgs)) := by
    rw [pageDeltaUpdateRecordEncodedSize, pageDeltaUpdatePayloadEncodedSize_of hv h, ok_bind,
      checkedAdd_of _ (by omega), ok_bind, require_of _ (by omega)]
    rfl
  have hu : encodePageUpdateLogPayload ⟨pid, ex, bef, aft⟩ =
      .ok (fields (pageUpdateHeader ⟨pid, ex, bef, aft⟩) ++ imageBytes bef ++ imageBytes aft) := by
    rw [encodePageUpdateLogPayload, require_of _ hi, ok_bind, require_of _ hn, ok_bind]
    rfl
  refine chosenShortest_of 16 24 (rgs.map length).sum h rfl rfl (by decide) hu rfl
    (encodePageDeltaUpdateLogPayload_of hv h) rfl hpr ?_
  simp only [selectAdaptivePageUpdateEncoding, hpr, ok_bind,
    changedByteCount_of _ (h.total.trans_lt (by decide))]
  rfl

theorem updateV2_chosenShortest {beforePageLsn : Option Nat} (hi : pid ≠ invalidPageId)
    (hn : ex = true ∨ beforePageLsn = none ∧ bef = zero) (hl : beforePageLsn ≠ some 0) :
    ChosenShortest .pageUpdateV2 .pageDeltaUpdateV2
      (encodePageUpdateV2LogPayload ⟨pid, ex, beforePageLsn, bef, aft⟩)
      (encodePageDeltaUpdateV2LogPayload ⟨pid, ex, beforePageLsn, rgs⟩)
      (pageDeltaUpdateV2RecordEncodedSize ⟨pid, ex, beforePageLsn, rgs⟩)
      (selectAdaptivePageUpdateV2Encoding ⟨pid, ex, beforePageLsn, rgs⟩) := by
  have hsm := h.small ex
  have hg : pageSize = 4096 := rfl
  have hh : recordHeaderSize = 48 := rfl
  have hu := hn.imp_right And.left
  obtain ⟨encodedLsn, he⟩ : ∃ enc, encodePersistentPageLsn beforePageLsn = .ok enc := by
    cases beforePageLsn with
    | none => exact ⟨0, rfl⟩
    | some lsn =>
      have hs : lsn ≠ 0 := fun hz => hl (congrArg some hz)
      refine ⟨lsn, ?_⟩
      rw [encodePersistentPageLsn, require_of _ hs]
      rfl
  have hr : pageDeltaUpdateV2RecordEncodedSize ⟨pid, ex, beforePageLsn, rgs⟩ =
      .ok (recordHeaderSize + (32 + rangesEncodedSize ex rgs)) := by
    rw [pageDeltaUpdateV2RecordEncodedSize, pageDeltaUpdateV2PayloadEncodedSize_of hv h hu, ok_bind,
      checkedAdd_of _ (by omega)]
  have hfu : encodePageUpdateV2LogPayload ⟨pid, ex, beforePageLsn, bef, aft⟩ =
      .ok (fields (pageUpdateV2Header ⟨pid, ex, beforePageLsn, bef, aft⟩ encodedLsn) ++
        imageBytes bef ++ imageBytes aft) := by
    rw [encodePageUpdateV2LogPayload, require_of _ hi, ok_bind, require_of _ hn, ok_bind, he,
      ok_bind]
    rfl
  refine chosenShortest_of 24 32 (rgs.map length).sum h rfl rfl (by decide) hfu rfl
    (encodePageDeltaUpdateV2LogPayload_of hv h hu he) rfl hr ?_
  simp only [selectAdaptivePageUpdateV2Encoding, hr, ok_bind,
    changedByteCount_of _ (h.total.trans_lt (by decide))]
  rfl

end Update

/-! The delta of two images. -/

theorem computePageDelta_encodable (bef aft : Page) (req : Nat → Bool) :
    Encodable (computePageDelta bef aft req) where
  counts := by
    intro rg hr
    obtain ⟨run, _, rfl⟩ := mem_map.mp hr
    exact ⟨pageBytes_length bef run.1 run.2, pageBytes_length aft run.1 run.2⟩
  total := by
    rw [computePageDelta, map_map]
    exact (runs_computePageDelta bef aft req).bounded.1
  count := length_computePageDelta bef aft req

def Covers (ranges : List PageByteRange) (i : Nat) : Prop :=
  ∃ range ∈ ranges, range.offset ≤ i ∧ i < range.offset + range.length

theorem covers_computePageDelta {bef aft : Page} {i : Nat} :
    Covers (computePageDelta bef aft req) i ↔
      i < pageSize ∧ deltaIncludes bef aft req i = true := by
  have hc := scanRanges_covers (deltaIncludes bef aft req) pageSize 0 none (by simp) i
  simp only [Option.mem_def, reduceCtorEq, false_and, exists_false, Nat.zero_le, true_and, zero_add,
    false_or] at hc
  rw [← hc, Covers, computePageDelta]
  constructor
  · rintro ⟨rg, hg, hi⟩
    obtain ⟨run, hr, rfl⟩ := mem_map.mp hg
    exact ⟨run, hr, hi⟩
  · rintro ⟨run, hr, hi⟩
    exact ⟨_, mem_map.mpr ⟨run, hr, rfl⟩, hi⟩

theorem deltaIncludes_iff {bef aft : Page} {i : Nat} :
    deltaIncludes bef aft req i = true ↔ byteAt bef i ≠ byteAt aft i ∨ req i = true := by
  rw [deltaIncludes, Bool.or_eq_true, bne_iff_ne]

/-- Outside the covered offsets both images are the same page. -/
theorem byteAt_eq_of_not_covered {bef aft : Page} {i : Nat} (hi : i < pageSize)
    (h : ¬ Covers (computePageDelta bef aft req) i) : byteAt bef i = byteAt aft i := by
  by_contra hne
  exact h (covers_computePageDelta.mpr ⟨hi, deltaIncludes_iff.mpr (.inl hne)⟩)

section
variable {bef aft pg : Page} {pid : Nat}

/-- A page that is `source` wherever the delta does not reach becomes `source`. -/
theorem overlay_eq_of_uncovered {source : Page}
    (h : ∀ i, i < pageSize → ¬ Covers (computePageDelta bef aft req) i →
      byteAt pg i = byteAt source i) :
    overlay pg source (deltaIncludes bef aft req) = source := by
  apply eq_of_byteAt
  intro i hi
  rw [byteAt_overlay]
  cases hn : deltaIncludes bef aft req i with
  | true => rfl
  | false => exact h i hi (by rw [covers_computePageDelta, hn]; simp)

variable (hv : validateDeltaRanges ⟨pid, ex, computePageDelta bef aft req⟩ .corruptRecord = .ok ())
include hv

theorem applyAfter_of_agree
    (h : ∀ i, i < pageSize → ¬ Covers (computePageDelta bef aft req) i →
      byteAt pg i = byteAt bef i) :
    applyPageDeltaAfter pg ⟨pid, ex, computePageDelta bef aft req⟩ = .ok aft := by
  obtain ⟨res, ha⟩ : ∃ res,
      applyPageDeltaAfter pg ⟨pid, ex, computePageDelta bef aft req⟩ = .ok res := by
    rw [applyPageDeltaAfter, hv]
    exact ⟨_, rfl⟩
  rw [ha, applyPageDeltaAfter_computePageDelta ha, overlay_eq_of_uncovered]
  exact fun i hi hc => (h i hi hc).trans (byteAt_eq_of_not_covered hi hc)

theorem applyBefore_of_agree
    (h : ∀ i, i < pageSize → ¬ Covers (computePageDelta bef aft req) i →
      byteAt pg i = byteAt aft i) :
    applyPageDeltaBefore pg ⟨pid, ex, computePageDelta bef aft req⟩ = .ok bef := by
  obtain ⟨res, ha⟩ : ∃ res,
      applyPageDeltaBefore pg ⟨pid, ex, computePageDelta bef aft req⟩ = .ok res := by
    rw [applyPageDeltaBefore, hv]
    exact ⟨_, rfl⟩
  rw [ha, applyPageDeltaBefore_computePageDelta ha, overlay_eq_of_uncovered]
  exact fun i hi hc => (h i hi hc).trans (byteAt_eq_of_not_covered hi hc).symm

end

/-- The algebra of a delta between two images: its ranges, what they do to a page, and the
records they are logged in. -/
theorem page_delta_algebra (bef aft : Page) (req : Nat → Bool)
    (hsome : computePageDelta bef aft req ≠ []) :
    (computePageDelta bef aft req).Pairwise
      (fun range later => range.offset + range.length < later.offset) ∧
    (∀ i, Covers (computePageDelta bef aft req) i ↔
      i < pageSize ∧ (byteAt bef i ≠ byteAt aft i ∨ req i = true)) ∧
    ∀ pid ex, pid ≠ invalidPageId → (ex = true ∨ bef = zero) →
      applyPageDeltaAfter bef ⟨pid, ex, computePageDelta bef aft req⟩ = .ok aft ∧
      applyPageDeltaBefore aft ⟨pid, ex, computePageDelta bef aft req⟩ = .ok bef ∧
      (∀ page, (∀ i, i < pageSize → ¬ Covers (computePageDelta bef aft req) i →
          byteAt page i = byteAt bef i) →
        applyPageDeltaAfter page ⟨pid, ex, computePageDelta bef aft req⟩ = .ok aft) ∧
      (∀ page, (∀ i, i < pageSize → ¬ Covers (computePageDelta bef aft req) i →
          byteAt page i = byteAt aft i) →
        applyPageDeltaBefore page ⟨pid, ex, computePageDelta bef aft req⟩ = .ok bef) ∧
      ChosenShortest .pageUpdate .pageDeltaUpdate (encodePageUpdateLogPayload ⟨pid, ex, bef, aft⟩)
        (encodePageDeltaUpdateLogPayload ⟨pid, ex, computePageDelta bef aft req⟩)
        (pageDeltaUpdateRecordEncodedSize ⟨pid, ex, computePageDelta bef aft req⟩)
        (selectAdaptivePageUpdateEncoding ⟨pid, ex, computePageDelta bef aft req⟩) ∧
      ∀ beforePageLsn : Option Nat, (ex = true ∨ beforePageLsn = none) → beforePageLsn ≠ some 0 →
        ChosenShortest .pageUpdateV2 .pageDeltaUpdateV2
          (encodePageUpdateV2LogPayload ⟨pid, ex, beforePageLsn, bef, aft⟩)
          (encodePageDeltaUpdateV2LogPayload ⟨pid, ex, beforePageLsn, computePageDelta bef aft req⟩)
          (pageDeltaUpdateV2RecordEncodedSize
            ⟨pid, ex, beforePageLsn, computePageDelta bef aft req⟩)
          (selectAdaptivePageUpdateV2Encoding
            ⟨pid, ex, beforePageLsn, computePageDelta bef aft req⟩) := by
  refine ⟨?_, ?_, ?_⟩
  · rw [computePageDelta, pairwise_map]
    exact (runs_computePageDelta bef aft req).sorted.1
  · intro i
    rw [covers_computePageDelta, deltaIncludes_iff]
  · intro pid ex hid hnew
    have hvalid := validateDeltaRanges_of_ne_nil .corruptRecord hid hnew hsome
    have hargument := validateDeltaRanges_of_ne_nil .invalidArgument hid hnew hsome
    have hencodable := computePageDelta_encodable bef aft req
    refine ⟨applyAfter_of_agree hvalid fun _ _ _ => rfl, applyBefore_of_agree hvalid fun _ _ _ =>
      rfl,
      fun page h => applyAfter_of_agree hvalid h, fun page h => applyBefore_of_agree hvalid h,
      update_chosenShortest hargument hencodable hid hnew, ?_⟩
    intro beforePageLsn hstamp hlsn
    refine updateV2_chosenShortest hargument hencodable hid ?_ hlsn
    rcases hnew with hold | hzero
    · exact .inl hold
    · exact hstamp.imp_right fun hnone => ⟨hnone, hzero⟩

def markedPage : Page := writeUint32 zero 40 7

/-- A field is written to a new page, and one more byte is to be recorded. -/
theorem page_delta_algebra_zero :
    computePageDelta zero markedPage (fun i => i == 5) ≠ [] ∧
      applyPageDeltaAfter zero ⟨7, false, computePageDelta zero markedPage (fun i => i == 5)⟩ =
        .ok markedPage := by
  have hsome : computePageDelta zero markedPage (fun i => i == 5) ≠ [] :=
    computePageDelta_ne_nil ⟨5, by decide, by simp [deltaIncludes]⟩
  exact ⟨hsome, ((page_delta_algebra zero markedPage (fun i => i == 5) hsome).2.2 7 false
    (by decide) (.inr rfl)).1⟩

end MiniDb.Wal
