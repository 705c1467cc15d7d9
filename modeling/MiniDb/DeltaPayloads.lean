import MiniDb.Foundation.Codec
import MiniDb.PageDeltaCodec

/-!
Reading delta payloads. Both versions keep the same ranges behind headers of their
own. A payload is accepted just when it is what the encoder writes for it.
-/
namespace MiniDb.Wal
open Outcome ByteString List

/-- One round of the loop over the ranges. -/
def decodeRange (record : String) (beforePageExisted : Bool) : Decoder DbError PageByteRange :=
  fun bytes cursor => do
    require (4 ≤ bytes.length - cursor) (corruptRecord (record ++ " range header is truncated"))
    let length := readUint16 bytes (cursor + 2)
    require (length ≠ 0 ∧ length ≤ pageSize ∧ cursor + 4 ≤ bytes.length ∧
        length ≤ (bytes.length - (cursor + 4)) / storedCopies beforePageExisted)
      (corruptRecord (record ++ " range data is truncated or invalid"))
    if beforePageExisted then
      return (cursor + 4 + length + length, ⟨readUint16 bytes cursor, length,
        slice bytes (cursor + 4) length, slice bytes (cursor + 4 + length) length⟩)
    else
      return (cursor + 4 + length, ⟨readUint16 bytes cursor, length, List.replicate length 0,
        slice bytes (cursor + 4) length⟩)

/-- The checks of the header; what they leave are the flag and the range count. -/
def decodeDeltaHeader (record : String) (headerSize : Nat) (bytes : List UInt8) :
    Result (Bool × Nat) := do
  require (headerSize ≤ bytes.length) (corruptRecord (record ++ " payload header is truncated"))
  let flags := readUint32 bytes 4
  let rangeCount := readUint32 bytes 12
  require (flags ≤ 1 ∧ readUint32 bytes 8 = pageSize ∧ readUint16 bytes 16 = 1 ∧
      readUint16 bytes 18 = headerSize ∧ readUint32 bytes 20 = 0 ∧ rangeCount ≠ 0 ∧
      rangeCount ≤ (pageSize + 1) / 2)
    (corruptRecord (record ++ " header fields are malformed"))
  return (decide (flags = 1), rangeCount)

def decodeDeltaRanges (record : String) (headerSize : Nat) (bytes : List UInt8)
    (beforePageExisted : Bool) (rangeCount : Nat) : Result PageDeltaUpdateLogPayload := do
  let (cursor, ranges) ←
    decodeMany (decodeRange record beforePageExisted) rangeCount bytes headerSize
  require (cursor = bytes.length) (corruptRecord (record ++ " payload has trailing bytes"))
  let payload := ⟨readUint32 bytes 0, beforePageExisted, ranges⟩
  validateDeltaRanges payload .corruptRecord
  return payload

def decodePageDeltaUpdateLogPayload (bytes : List UInt8) : Result PageDeltaUpdateLogPayload := do
  let (beforePageExisted, rangeCount) ← decodeDeltaHeader "PAGE_DELTA_UPDATE" 24 bytes
  decodeDeltaRanges "PAGE_DELTA_UPDATE" 24 bytes beforePageExisted rangeCount

def decodeBeforePageLsn (bytes : List UInt8) (offset : Nat) : Result (Option Nat) := do
  let encoded := readUint64 bytes offset
  require (encoded ≠ 2 ^ 64 - 1)
    (corruptRecord "PageLSN-aware WAL record has an invalid beforePageLsn")
  decodePersistentPageLsn encoded

def decodePageDeltaUpdateV2LogPayload (bytes : List UInt8) :
    Result PageDeltaUpdateV2LogPayload := do
  let (beforePageExisted, rangeCount) ← decodeDeltaHeader "PAGE_DELTA_UPDATE_V2" 32 bytes
  let beforePageLsn ← decodeBeforePageLsn bytes 24
  let logical ← decodeDeltaRanges "PAGE_DELTA_UPDATE_V2" 32 bytes beforePageExisted rangeCount
  require (beforePageExisted ∨ beforePageLsn = none)
    (corruptRecord "New-page PAGE_DELTA_UPDATE_V2 has a before PageLSN")
  return ⟨logical.pageId, beforePageExisted, beforePageLsn, logical.ranges⟩

variable {ex : Bool} {rgs : List PageByteRange} {kind kind' : WalErrorKind} {pid : Nat}
  {bs : List UInt8}

/-! What a validated payload is. -/

/-- A range that can be stored: of a page that did not exist it has only zeros before. -/
structure StoredRange (beforePageExisted : Bool) (range : PageByteRange) : Prop where
  size : range.length ≠ 0 ∧ range.length ≤ pageSize
  offset : range.offset < 256 ^ 2
  before : range.beforeBytes.length = range.length
  after : range.afterBytes.length = range.length
  zeroed : beforePageExisted = true ∨ range.beforeBytes = List.replicate range.length 0

theorem storedRange_of_valid {pe : Option Nat} (h : validateRanges kind ex pe rgs = .ok ()) :
    ∀ rg ∈ rgs, StoredRange ex rg := by
  induction rgs generalizing pe with
  | nil => simp
  | cons rg rest ih =>
    obtain ⟨⟨hne, ho, hl⟩, _, ⟨hb, ha⟩, hz, hr⟩ := validateRanges_cons.mp h
    have hp : pageSize = 4096 := rfl
    refine forall_mem_cons.mpr ⟨⟨⟨hne, by omega⟩, by omega, hb, ha, ?_⟩, ih hr⟩
    exact hz.imp_right fun hz => eq_replicate_iff.mpr ⟨hb, hz⟩

theorem validateRanges_kind {pe : Option Nat} (h : validateRanges kind ex pe rgs = .ok ()) :
    validateRanges kind' ex pe rgs = .ok () := by
  induction rgs generalizing pe with
  | nil => rfl
  | cons rg rest ih =>
    obtain ⟨hp, hg, hb, hz, hr⟩ := validateRanges_cons.mp h
    exact validateRanges_cons.mpr ⟨hp, hg, hb, hz, ih hr⟩

theorem validateRanges_total {pe : Option Nat} (h : validateRanges kind ex pe rgs = .ok ()) :
    (rgs.map PageByteRange.length).sum ≤ pageSize - pe.getD 0 := by
  induction rgs generalizing pe with
  | nil => exact Nat.zero_le _
  | cons rg rest ih =>
    obtain ⟨⟨_, ho, hl⟩, hg, _, _, hr⟩ := validateRanges_cons.mp h
    have ht := ih hr
    have hp : pe.getD 0 ≤ rg.offset := by
      cases pe with
      | none => exact Nat.zero_le _
      | some last => exact (hg last rfl).le
    rw [map_cons, sum_cons]
    rw [Option.getD_some] at ht
    omega

theorem validateDeltaRanges_ok : validateDeltaRanges ⟨pid, ex, rgs⟩ kind = .ok () ↔
    pid ≠ invalidPageId ∧ (rgs ≠ [] ∧ rgs.length ≤ (pageSize + 1) / 2) ∧
      validateRanges kind ex none rgs = .ok () := by
  simp only [validateDeltaRanges, ok_iff, exists_const]

theorem encodable_of_valid (h : validateDeltaRanges ⟨pid, ex, rgs⟩ kind = .ok ()) :
    Encodable rgs := by
  obtain ⟨_, hc, hr⟩ := validateDeltaRanges_ok.mp h
  refine ⟨fun rg hm => ?_, validateRanges_total hr, hc.2⟩
  have hs := storedRange_of_valid hr rg hm
  exact ⟨hs.before, hs.after⟩

theorem validateDeltaRanges_kind (h : validateDeltaRanges ⟨pid, ex, rgs⟩ kind = .ok ()) :
    validateDeltaRanges ⟨pid, ex, rgs⟩ kind' = .ok () := by
  obtain ⟨hi, hc, hr⟩ := validateDeltaRanges_ok.mp h
  exact validateDeltaRanges_ok.mpr ⟨hi, hc, validateRanges_kind hr⟩

/-! The ranges. -/

theorem holds_rangeBytes {off : Nat} {rg : PageByteRange} (ho : rg.offset < 256 ^ 2)
    (hl : rg.length < 256 ^ 2) :
    Holds bs off (rangeBytes ex rg) ↔ (off + 4 ≤ bs.length ∧ readUint16 bs off = rg.offset ∧
      readUint16 bs (off + 2) = rg.length) ∧
      Holds bs (off + 4) ((if ex then rg.beforeBytes else []) ++ rg.afterBytes) := by
  rw [rangeBytes, holds_append, holds_fields (by simpa using ⟨ho, hl⟩), length_fields]
  simp [Reads, widths, readUint16]

theorem decodeRange_exact (r : String) (ex : Bool) :
    Exact (StoredRange ex) (rangeBytes ex) (decodeRange r ex) := by
  intro bs off next rg _
  have hp : pageSize < 256 ^ 2 := by decide
  cases ex with
  | true =>
    simp only [decodeRange, ok_iff, if_true, exists_const, storedCopies,
      Nat.le_div_iff_mul_le Nat.two_pos]
    constructor
    · rintro ⟨hh, ⟨hne, hle, ho, hf⟩, rfl, rfl⟩
      obtain ⟨hb, hbh⟩ := holds_iff_slice.mpr
        ⟨show off + 4 + readUint16 bs (off + 2) ≤ bs.length by omega, rfl⟩
      obtain ⟨ha, hah⟩ := holds_iff_slice.mpr
        ⟨show off + 4 + readUint16 bs (off + 2) + readUint16 bs (off + 2) ≤ bs.length by omega, rfl⟩
      refine ⟨⟨⟨hne, hle⟩, readLe_lt, hb, ha, .inl rfl⟩, (holds_rangeBytes readLe_lt
        (hle.trans_lt hp)).mpr ⟨⟨ho, rfl, rfl⟩, holds_append.mpr ⟨hbh, ?_⟩⟩, ?_⟩
      · rw [if_pos rfl, hb]
        exact hah
      · rw [length_rangeBytes ⟨hb, ha⟩]
        simp only [storedCopies, if_true]
        omega
    · rintro ⟨⟨hs, ho, hb, ha, _⟩, hh, rfl⟩
      obtain ⟨⟨hf, hof, hl⟩, hd⟩ :=
        (holds_rangeBytes ho (hs.2.trans_lt hp)).mp hh
      obtain ⟨hbh, hah⟩ := holds_append.mp hd
      rw [if_pos rfl, hb] at hah
      have hbs := holds_iff_slice.mp ⟨hb, hbh⟩
      have has := holds_iff_slice.mp ⟨ha, hah⟩
      rw [hof, hl, length_rangeBytes ⟨hb, ha⟩, hbs.2, has.2]
      simp only [storedCopies, if_true]
      exact ⟨by omega, ⟨hs.1, hs.2, hf, by omega⟩, by omega, trivial⟩
  | false =>
    simp only [decodeRange, ok_iff, Bool.false_eq_true, if_false, exists_const, storedCopies,
      Nat.div_one]
    constructor
    · rintro ⟨hh, ⟨hne, hle, ho, hf⟩, rfl, rfl⟩
      obtain ⟨ha, hah⟩ := holds_iff_slice.mpr
        ⟨show off + 4 + readUint16 bs (off + 2) ≤ bs.length by omega, rfl⟩
      have hb := length_replicate (n := readUint16 bs (off + 2)) (a := (0 : UInt8))
      refine ⟨⟨⟨hne, hle⟩, readLe_lt, hb, ha, .inr rfl⟩, (holds_rangeBytes readLe_lt
        (hle.trans_lt hp)).mpr ⟨⟨ho, rfl, rfl⟩, hah⟩, ?_⟩
      rw [length_rangeBytes ⟨hb, ha⟩]
      simp only [storedCopies, Bool.false_eq_true, if_false]
      omega
    · rintro ⟨⟨hs, ho, hb, ha, hz⟩, hh, rfl⟩
      obtain ⟨⟨hf, hof, hl⟩, hah⟩ :=
        (holds_rangeBytes ho (hs.2.trans_lt hp)).mp hh
      have has := holds_iff_slice.mp ⟨ha, hah⟩
      rw [hof, hl, length_rangeBytes ⟨hb, ha⟩, has.2, ← hz.resolve_left (by decide)]
      simp only [storedCopies, Bool.false_eq_true, if_false]
      exact ⟨by omega, ⟨hs.1, hs.2, hf, by omega⟩, by omega, trivial⟩

theorem decodeDeltaRanges_ok {r : String} {hs cnt : Nat}
    {pl : PageDeltaUpdateLogPayload} (hle : hs ≤ bs.length) :
    decodeDeltaRanges r hs bs ex cnt = .ok pl ↔
      (pl.pageId = readUint32 bs 0 ∧ pl.beforePageExisted = ex ∧
        pl.ranges.length = cnt) ∧ validateDeltaRanges pl .corruptRecord = .ok () ∧
      Holds bs hs (pl.ranges.flatMap (rangeBytes ex)) ∧
      hs + (pl.ranges.flatMap (rangeBytes ex)).length = bs.length := by
  have hx := (decodeRange_exact r ex).many cnt
  simp only [decodeDeltaRanges, ok_iff, Prod.exists]
  constructor
  · rintro ⟨cursor, ranges, hd, _, hc, _, hv, rfl⟩
    obtain ⟨⟨hl, _⟩, hh, rfl⟩ := (hx bs _ _ _ hle).mp hd
    exact ⟨⟨rfl, rfl, hl⟩, hv, hh, hc⟩
  · obtain ⟨pid, existed, rgs⟩ := pl
    rintro ⟨⟨rfl, rfl, hl⟩, hv, hh, hc⟩
    have ht := storedRange_of_valid (validateDeltaRanges_ok.mp hv).2.2
    exact ⟨_, rgs, (hx bs _ _ _ hle).mpr ⟨⟨hl, ht⟩, hh, rfl⟩, (), hc, (), hv, rfl⟩

theorem decodeDeltaHeader_ok {r : String} {hs cnt : Nat} :
    decodeDeltaHeader r hs bs = .ok (ex, cnt) ↔
      hs ≤ bs.length ∧ (readUint32 bs 4 = existedFlag ex ∧ readUint32 bs 8 = pageSize ∧
        readUint32 bs 12 = cnt ∧ readUint16 bs 16 = 1 ∧ readUint16 bs 18 = hs ∧
        readUint32 bs 20 = 0) ∧ cnt ≠ 0 ∧ cnt ≤ (pageSize + 1) / 2 := by
  simp only [decodeDeltaHeader, ok_iff, exists_const]
  have hl : readUint32 bs 4 ≤ 1 ∧ decide (readUint32 bs 4 = 1) = ex ↔
      readUint32 bs 4 = existedFlag ex := by
    cases ex with
    | true => simp [existedFlag]; omega
    | false => simp [existedFlag]; omega
  rw [← hl]
  constructor
  · rintro ⟨hle, ⟨hf, hp, hv, hh, hr, hc⟩, hx, rfl⟩
    exact ⟨hle, ⟨⟨hf, hx⟩, hp, rfl, hv, hh, hr⟩, hc⟩
  · rintro ⟨hle, ⟨⟨hf, hx⟩, hp, rfl, hv, hh, hr⟩, hc⟩
    exact ⟨hle, ⟨hf, hp, hv, hh, hr, hc⟩, hx, rfl⟩

theorem encodePageDeltaUpdateLogPayload_ok {pl : PageDeltaUpdateLogPayload} :
    encodePageDeltaUpdateLogPayload pl = .ok bs ↔ validateDeltaRanges pl .invalidArgument = .ok () ∧
        bs = fields (pageDeltaUpdateHeader pl) ++
          pl.ranges.flatMap (rangeBytes pl.beforePageExisted) := by
  have ho : validateDeltaRanges pl .invalidArgument = .ok () → _ := fun hv =>
    encodePageDeltaUpdateLogPayload_of hv (encodable_of_valid hv)
  constructor
  · intro h
    have hv : validateDeltaRanges pl .invalidArgument = .ok () := by
      simp only [encodePageDeltaUpdateLogPayload, pageDeltaUpdatePayloadEncodedSize, bind_ok] at h
      obtain ⟨_, ⟨_, hv, _⟩, _⟩ := h
      exact hv
    exact ⟨hv, Except.ok.inj (h.symm.trans (ho hv))⟩
  · rintro ⟨hv, rfl⟩
    exact ho hv

/-- A payload field by field; `extra` are the fields only one version has. -/
theorem payload_layout (ext : List (Nat × Nat)) (hs : Nat) {body : List UInt8}
    {cnt : Nat} (hi : pid < 2 ^ 32) (hc : cnt ≤ (pageSize + 1) / 2)
    (hw : 24 + widths ext = hs) (hz : hs < 256 ^ 2) (hx : ∀ field ∈ ext, field.2 < 256 ^ field.1) :
    bs = fields ([(4, pid), (4, existedFlag ex), (4, pageSize), (4, cnt), (2, 1), (2, hs),
        (4, 0)] ++ ext) ++ body ↔
      hs ≤ bs.length ∧ (readUint32 bs 0 = pid ∧ readUint32 bs 4 = existedFlag ex ∧
        readUint32 bs 8 = pageSize ∧ readUint32 bs 12 = cnt ∧ readUint16 bs 16 = 1 ∧
        readUint16 bs 18 = hs ∧ readUint32 bs 20 = 0) ∧ Reads bs 24 ext ∧
        Holds bs hs body ∧ hs + body.length = bs.length := by
  have hp : pageSize = 4096 := rfl
  have hf : existedFlag ex < 256 ^ 4 := by cases ex <;> decide
  have hlt : ∀ field ∈ [(4, pid), (4, existedFlag ex), (4, pageSize), (4, cnt), (2, 1),
      (2, hs), (4, 0)], field.2 < 256 ^ field.1 := by
    simp only [forall_mem_cons, not_mem_nil, false_implies, implies_true, and_true]
    exact ⟨hi, hf, by decide, by omega, by decide, hz, by decide⟩
  rw [← holds_all, fields_append, append_assoc, holds_append, holds_append, holds_fields hlt,
    holds_fields hx, length_append, length_append, length_fields, length_fields]
  simp only [Reads, widths, map_cons, map_nil, sum_cons, sum_nil, Nat.reduceAdd,
    zero_add, and_true] at hw ⊢
  rw [hw]
  constructor
  · rintro ⟨⟨⟨_, hr⟩, ⟨hle, he⟩, hb⟩, hl⟩
    exact ⟨by omega, hr, he, hb, by omega⟩
  · rintro ⟨hle, hr, he, hb, hl⟩
    exact ⟨⟨⟨by omega, hr⟩, ⟨by omega, he⟩, hb⟩, by omega⟩

/-- What the decoder accepts is what the encoder writes, for a page id of 32 bits. -/
theorem decodePageDeltaUpdate_iff {pl : PageDeltaUpdateLogPayload} :
    decodePageDeltaUpdateLogPayload bs = .ok pl ↔
      pl.pageId < 2 ^ 32 ∧ encodePageDeltaUpdateLogPayload pl = .ok bs := by
  obtain ⟨pid, existed, rgs⟩ := pl
  rw [encodePageDeltaUpdateLogPayload_ok]
  simp only [decodePageDeltaUpdateLogPayload, bind_ok, Prod.exists]
  constructor
  · rintro ⟨ex, cnt, hh, hd⟩
    obtain ⟨hle, hf, hc⟩ := decodeDeltaHeader_ok.mp hh
    obtain ⟨⟨rfl, rfl, rfl⟩, hv, hr, hl⟩ := (decodeDeltaRanges_ok hle).mp hd
    have hi : readUint32 bs 0 < 2 ^ 32 := readLe_lt
    refine ⟨hi, validateDeltaRanges_kind hv, ?_⟩
    exact (payload_layout [] 24 hi hc.2 rfl (by decide) (by simp)).mpr
      ⟨hle, ⟨rfl, hf⟩, trivial, hr, hl⟩
  · rintro ⟨hi, hv, hb⟩
    obtain ⟨_, ⟨hne, hc⟩, _⟩ := validateDeltaRanges_ok.mp hv
    obtain ⟨hle, ⟨hp, hf⟩, _, hr, hl⟩ :=
      (payload_layout [] 24 hi hc rfl (by decide) (by simp)).mp hb
    exact ⟨existed, rgs.length,
      decodeDeltaHeader_ok.mpr ⟨hle, hf, fun hz => hne (length_eq_zero_iff.mp hz), hc⟩,
      (decodeDeltaRanges_ok hle).mpr ⟨⟨hp.symm, rfl, rfl⟩, validateDeltaRanges_kind hv, hr, hl⟩⟩

theorem encodePersistentPageLsn_ok {lsn : Option Nat} {enc : Nat} :
    encodePersistentPageLsn lsn = .ok enc ↔ lsn = if enc = 0 then none else some enc := by
  cases lsn with
  | none =>
    simp only [encodePersistentPageLsn, Except.ok.injEq]
    split <;> simp_all [eq_comm]
  | some l =>
    simp only [encodePersistentPageLsn, ok_iff, exists_const]
    split <;> simp_all

theorem decodeBeforePageLsn_ok {lsn : Option Nat} {off : Nat} :
    decodeBeforePageLsn bs off = .ok lsn ↔
      (∀ l ∈ lsn, l < 2 ^ 64 - 1) ∧ encodePersistentPageLsn lsn = .ok (readUint64 bs off) := by
  have hlt : readUint64 bs off < 256 ^ 8 := readLe_lt
  rw [encodePersistentPageLsn_ok]
  simp only [decodeBeforePageLsn, decodePersistentPageLsn, ok_iff, exists_const]
  split
  · rename_i hz
    rw [pure_ok]
    constructor
    · rintro ⟨_, rfl⟩
      exact ⟨by simp, rfl⟩
    · rintro ⟨_, rfl⟩
      exact ⟨by simp [hz], rfl⟩
  · rename_i hz
    simp only [bind_ok, pure_ok]
    constructor
    · rintro ⟨hm, _, _, rfl⟩
      exact ⟨fun l hl => by cases hl; omega, rfl⟩
    · rintro ⟨hl, rfl⟩
      have hm := (hl _ rfl).ne
      exact ⟨hm, (), require_ok.mpr hm, rfl⟩

theorem encodePageDeltaUpdateV2LogPayload_ok {pl : PageDeltaUpdateV2LogPayload} :
    encodePageDeltaUpdateV2LogPayload pl = .ok bs ↔
      validateDeltaRanges pl.logical .invalidArgument = .ok () ∧
        (pl.beforePageExisted = true ∨ pl.beforePageLsn = none) ∧
        ∃ enc, encodePersistentPageLsn pl.beforePageLsn = .ok enc ∧
          bs = fields (pageDeltaUpdateV2Header pl enc) ++
            pl.ranges.flatMap (rangeBytes pl.beforePageExisted) := by
  constructor
  · intro h
    have h' := h
    simp only [encodePageDeltaUpdateV2LogPayload, pageDeltaUpdateV2PayloadEncodedSize, ok_iff] at h'
    obtain ⟨_, ⟨_, hv, _, hn, _⟩, enc, he, _⟩ := h'
    refine ⟨hv, hn, enc, he, Except.ok.inj (h.symm.trans ?_)⟩
    exact encodePageDeltaUpdateV2LogPayload_of hv (encodable_of_valid hv) hn he
  · rintro ⟨hv, hn, enc, he, rfl⟩
    exact encodePageDeltaUpdateV2LogPayload_of hv (encodable_of_valid hv) hn he

theorem decodePageDeltaUpdateV2_iff {pl : PageDeltaUpdateV2LogPayload} :
    decodePageDeltaUpdateV2LogPayload bs = .ok pl ↔
      (pl.pageId < 2 ^ 32 ∧ ∀ lsn ∈ pl.beforePageLsn, lsn < 2 ^ 64 - 1) ∧
        encodePageDeltaUpdateV2LogPayload pl = .ok bs := by
  obtain ⟨pid, existed, beforePageLsn, rgs⟩ := pl
  rw [encodePageDeltaUpdateV2LogPayload_ok]
  simp only [decodePageDeltaUpdateV2LogPayload, ok_iff, Prod.exists,
    PageDeltaUpdateV2LogPayload.mk.injEq]
  constructor
  · rintro ⟨ex, cnt, hh, lsn, he, ⟨pid, _, rgs⟩, hd, _, hn, rfl, rfl, rfl, rfl⟩
    obtain ⟨hle, hf, hc⟩ := decodeDeltaHeader_ok.mp hh
    obtain ⟨⟨rfl, rfl, rfl⟩, hv, hr, hl⟩ := (decodeDeltaRanges_ok hle).mp hd
    obtain ⟨hlt, he⟩ := decodeBeforePageLsn_ok.mp he
    have hi : readUint32 bs 0 < 2 ^ 32 := readLe_lt
    refine ⟨⟨hi, hlt⟩, validateDeltaRanges_kind hv, hn, _, he, ?_⟩
    refine (payload_layout [(8, readUint64 bs 24)] 32 hi hc.2 rfl (by decide) ?_).mpr
      ⟨hle, ⟨rfl, hf⟩, ⟨rfl, trivial⟩, hr, hl⟩
    exact forall_mem_singleton.mpr readLe_lt
  · rintro ⟨⟨hi, hlt⟩, hv, hn, enc, he, hb⟩
    obtain ⟨_, ⟨hne, hc⟩, _⟩ := validateDeltaRanges_ok.mp hv
    have henc : enc < 256 ^ 8 := by
      rcases Nat.eq_zero_or_pos enc with rfl | hp
      · decide
      · rw [encodePersistentPageLsn_ok, if_neg hp.ne'] at he
        have := hlt enc he
        omega
    obtain ⟨hle, ⟨hp, hf⟩, ⟨hx, _⟩, hr, hl⟩ := (payload_layout [(8, enc)] 32 hi hc rfl
      (by decide) (forall_mem_singleton.mpr henc)).mp hb
    refine ⟨existed, rgs.length, decodeDeltaHeader_ok.mpr
      ⟨hle, hf, fun hz => hne (length_eq_zero_iff.mp hz), hc⟩, beforePageLsn,
      decodeBeforePageLsn_ok.mpr ⟨hlt, ?_⟩, ⟨pid, existed, rgs⟩,
      (decodeDeltaRanges_ok hle).mpr ⟨⟨hp.symm, rfl, rfl⟩, validateDeltaRanges_kind hv, hr, hl⟩, (),
        hn, rfl, rfl, rfl, rfl⟩
    rw [he]
    exact congrArg Except.ok hx.symm

/-- Both delta payloads have one encoding each: a string decodes to a payload just when it
is what the encoder writes for that payload. Page ids have 32 bits and LSNs 64. -/
theorem delta_payload_codecs_exact (bytes : List UInt8) :
    (∀ payload, decodePageDeltaUpdateLogPayload bytes = .ok payload ↔
      payload.pageId < 2 ^ 32 ∧ encodePageDeltaUpdateLogPayload payload = .ok bytes) ∧
    ∀ payload, decodePageDeltaUpdateV2LogPayload bytes = .ok payload ↔
      (payload.pageId < 2 ^ 32 ∧ ∀ lsn ∈ payload.beforePageLsn, lsn < 2 ^ 64 - 1) ∧
        encodePageDeltaUpdateV2LogPayload payload = .ok bytes :=
  ⟨fun _ => decodePageDeltaUpdate_iff, fun _ => decodePageDeltaUpdateV2_iff⟩

end MiniDb.Wal
