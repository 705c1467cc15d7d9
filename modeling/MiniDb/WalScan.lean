import MiniDb.SegmentCodec

/-!
Scanning a log. The bytes of a log body are records one after the other, each at
the position it carries; a scan takes whole records as long as there are any and
then decides whether what is left is a record cut short. The scanner of a single
file and the scanner of a segment decide this in a different order.
-/
namespace MiniDb.Wal
open ByteString Outcome List

variable {r : LogRecord}
variable {enc : List UInt8}

def ioError (message : String) : DbError := .walError .io message

structure WalScanResult where
  records : List LogRecord
  truncatedTail : Bool
  validBytes : Nat
  fileBytes : Nat
  startOffset : Nat
  deriving DecidableEq

/-- What a loop over records found, and where it stopped. -/
structure Scanned where
  records : List LogRecord
  truncatedTail : Bool
  validEnd : Nat
  deriving DecidableEq

def Scanned.cons (record : LogRecord) (later : Scanned) : Scanned :=
  { later with records := record :: later.records }

/-! Single files. -/

/-- The loop of `scanDescriptor` over the bytes from `offset` on. A round takes a
whole record, so that `fuel` rounds are enough for that many bytes. -/
def scanFileLoop : (fuel : Nat) → (rest : List UInt8) → (offset : Nat) → Result Scanned
  | 0, _, offset => return ⟨[], false, offset⟩
  | fuel + 1, rest, offset =>
    if rest.length = 0 then return ⟨[], false, offset⟩
    else if rest.length < recordHeaderSize then return ⟨[], true, offset⟩
    else do
      let recordHeader := rest.take recordHeaderSize
      validateRecordPrefix recordHeader offset
      let totalLength := readUint32 recordHeader 8
      if rest.length < totalLength then return ⟨[], true, offset⟩
      else do
        let record ← decodeWalRecord (rest.take totalLength) offset
        let later ← scanFileLoop fuel (rest.drop totalLength) (offset + totalLength)
        return later.cons record

def scanDescriptor (file : List UInt8) (startOffset : Nat) : Result WalScanResult := do
  require (walHeaderSize ≤ file.length) (corruptHeader "WAL file header is truncated")
  validateWalFileHeader (file.take walHeaderSize)
  require (walHeaderSize ≤ startOffset ∧ startOffset ≤ file.length)
    (invalidArgument "WAL scan offset is outside the file")
  let scanned ← scanFileLoop file.length (file.drop startOffset) startOffset
  return ⟨scanned.records, scanned.truncatedTail, scanned.validEnd, file.length, startOffset⟩

def scanWalFile (file : List UInt8) : Result WalScanResult := scanDescriptor file walHeaderSize

def scanWalFileFrom (file : List UInt8) (startOffset : Nat) : Result WalScanResult :=
  scanDescriptor file startOffset

def readWalRecordAt (file : List UInt8) (lsn : Nat) : Result LogRecord := do
  require (walHeaderSize ≤ lsn ∧ lsn ≤ file.length ∧ recordHeaderSize ≤ file.length - lsn)
    (corruptRecord "Referenced WAL record header is outside the file")
  validateWalFileHeader (file.take walHeaderSize)
  let recordHeader := slice file lsn recordHeaderSize
  validateRecordPrefix recordHeader lsn
  let totalLength := readUint32 recordHeader 8
  require (totalLength ≤ file.length - lsn) (corruptRecord "Referenced WAL record is truncated")
  decodeWalRecord (slice file lsn totalLength) lsn

/-! Segments. -/

/-- A length no record has: the header alone is decoded, which reports it. -/
def rejectCorruptLength (recordHeader : List UInt8) (logical : Nat) : Result Unit :=
  if readUint32 recordHeader 8 < recordHeaderSize ∨ maxRecordSize < readUint32 recordHeader 8 then
    (fun _ => ()) <$> decodeWalRecord recordHeader logical
  else return ()

/-- The loop of `scanOneSegment` over the bytes from the position `logical` on. -/
def scanSegmentLoop : (fuel : Nat) → (rest : List UInt8) → (logical : Nat) → Result Scanned
  | 0, _, logical => return ⟨[], false, logical⟩
  | fuel + 1, rest, logical =>
    if rest.length = 0 then return ⟨[], false, logical⟩
    else if rest.length < recordHeaderSize then return ⟨[], true, logical⟩
    else do
      let recordHeader := rest.take recordHeaderSize
      let total := readUint32 recordHeader 8
      rejectCorruptLength recordHeader logical
      if rest.length < total then return ⟨[], true, logical⟩
      else do
        let record ← decodeWalRecord (rest.take total) logical
        let later ← scanSegmentLoop fuel (rest.drop total) ((logical + total) % 2 ^ 64)
        return later.cons record

structure SegmentScan where
  records : List LogRecord
  validEnd : Nat
  physicalLogicalEnd : Nat
  truncatedTail : Bool
  physicalBytes : Nat
  deriving DecidableEq

def scanOneSegment (header : WalSegmentHeader) (file : List UInt8) (allowTruncatedTail : Bool) :
    Result SegmentScan := do
  require (segmentHeaderSize ≤ file.length ∧
      file.length ≤ segmentHeaderSize + header.payloadCapacity)
    (corruptHeader "WAL segment file size is invalid")
  let decoded ← decodeWalSegmentHeader (file.take segmentHeaderSize)
  require (decoded = header) (corruptHeader "WAL segment header changed during scan")
  let scanned ← scanSegmentLoop file.length (file.drop segmentHeaderSize) header.startLsn
  require (¬ (scanned.truncatedTail = true ∧ allowTruncatedTail = false))
    (corruptRecord "Closed WAL segment contains a truncated record")
  return {
    records := scanned.records
    validEnd := scanned.validEnd
    physicalLogicalEnd := (header.startLsn + (file.length - segmentHeaderSize)) % 2 ^ 64
    truncatedTail := scanned.truncatedTail
    physicalBytes := file.length }

/-! Bodies that are records. -/

/-- `bytes` are `records` one after the other, the first of them at `lsn`. -/
inductive Encodes : Nat → List LogRecord → List UInt8 → Prop
  | nil {lsn : Nat} : Encodes lsn [] []
  | cons {lsn : Nat} {record : LogRecord} {encoded : List UInt8} {records : List LogRecord}
      {bytes : List UInt8} (hencode : encodeWalRecord record lsn = .ok encoded)
      (hlsn : record.lsn = lsn) (hrest : Encodes (lsn + encoded.length) records bytes) :
      Encodes lsn (record :: records) (encoded ++ bytes)

/-- The first record of a string, as the header of the string describes it. -/
theorem header_of_encode {lsn : Nat} (h : encodeWalRecord r lsn = .ok enc) (rest : List UInt8) :
    RecordHeader (enc ++ rest) lsn ∧ readUint32 (enc ++ rest) 8 = enc.length := by
  obtain ⟨hh, hl, _⟩ := decodeWalRecord_ok.mp (decode_encode h)
  refine ⟨?_, ?_⟩
  · rw [← recordHeader_take hh.size, take_left]
    exact hh
  · rw [hl]
    exact readLe_append_left (Nat.le_trans (by decide) hh.size)

theorem encode_pos {lsn : Nat} (h : encodeWalRecord r lsn = .ok enc) :
    recordHeaderSize ≤ enc.length := by
  rw [length_of_encode h]
  exact Nat.le_add_right _ _

theorem encode_injective {r' : LogRecord} {lsn : Nat} (h : encodeWalRecord r lsn = .ok enc)
    (h' : encodeWalRecord r' lsn = .ok enc) (hl : r.lsn = r'.lsn) : r = r' := by
  have hs := (decode_encode h).symm.trans (decode_encode h')
  obtain ⟨type, tid, pv, pl, plc⟩ := r
  obtain ⟨type', tid', pv', pl', plc'⟩ := r'
  simp only [Except.ok.injEq, LogRecord.mk.injEq, and_true] at hs hl ⊢
  exact ⟨hs.1, hs.2.1, hs.2.2.1, hs.2.2.2, hl⟩

variable {rest : List UInt8}

/-- A whole record at the start of a string, decoded from as many bytes as its
header says. -/
theorem decode_take_iff {lsn : Nat} (hf : readUint32 rest 8 ≤ rest.length) :
    decodeWalRecord (rest.take (readUint32 rest 8)) lsn = .ok r ↔
      ∃ enc tail, rest = enc ++ tail ∧ encodeWalRecord r lsn = .ok enc ∧ r.lsn = lsn := by
  constructor
  · intro h
    obtain ⟨_, _, _, _, _, _, _, hl⟩ := decodeWalRecord_ok.mp h
    exact ⟨_, _, (take_append_drop _ _).symm, encode_decode h, hl⟩
  · rintro ⟨enc, tail, rfl, he, rfl⟩
    rw [(header_of_encode he tail).2, take_left, decode_encode he]

namespace Encodes

theorem append {lsn : Nat} {rs rs' : List LogRecord} {bs bs' : List UInt8} (h : Encodes lsn rs bs)
    (h' : Encodes (lsn + bs.length) rs' bs') : Encodes lsn (rs ++ rs') (bs ++ bs') := by
  induction h with
  | nil => simpa using h'
  | cons henc hlsn _ ih =>
    rw [append_assoc, cons_append]
    refine .cons henc hlsn (ih ?_)
    rwa [length_append, ← add_assoc] at h'

theorem single {lsn : Nat} (h : encodeWalRecord r lsn = .ok enc) :
    Encodes lsn [{ r with lsn }] enc := by
  have ho : Encodes lsn [{ r with lsn }] (enc ++ []) := .cons h rfl .nil
  rwa [append_nil] at ho

end Encodes

/-- No whole record starts here. -/
def Stops (rest : List UInt8) (lsn : Nat) : Prop :=
  ∀ record encoded tail, encodeWalRecord record lsn = .ok encoded → rest ≠ encoded ++ tail

theorem stops_of_short {lsn : Nat} (h : rest.length < recordHeaderSize) : Stops rest lsn := by
  rintro r enc tail he rfl
  have := encode_pos he
  rw [length_append] at h
  omega

theorem stops_of_overlong {lsn : Nat} (h : rest.length < readUint32 rest 8) : Stops rest lsn := by
  rintro r enc tail he rfl
  rw [(header_of_encode he tail).2, length_append] at h
  omega

theorem stops_of_malformed {lsn : Nat} (h : ¬ RecordHeader rest lsn) : Stops rest lsn := by
  rintro r enc tail he rfl
  exact h (header_of_encode he tail).1

/-- A string is whole records and a rest that starts with none in one way only. -/
theorem Encodes.unique {lsn : Nat} {rs rs' : List LogRecord} {pre pre' rest' : List UInt8}
    (h : Encodes lsn rs pre) (h' : Encodes lsn rs' pre') (hs : Stops rest (lsn + pre.length))
    (hs' : Stops rest' (lsn + pre'.length)) (hb : pre ++ rest = pre' ++ rest') :
    rs = rs' ∧ pre = pre' ∧ rest = rest' := by
  induction h generalizing rs' pre' with
  | nil =>
    cases h' with
    | nil => exact ⟨rfl, rfl, by simpa using hb⟩
    | cons henc _ _ =>
      simp only [nil_append, append_assoc] at hb
      exact absurd hb (hs _ _ _ henc)
  | cons henc hl _ ih =>
    cases h' with
    | nil =>
      simp only [nil_append, append_assoc] at hb
      exact absurd hb.symm (hs' _ _ _ henc)
    | cons henc' hl' hrest' =>
      rename_i lsn r enc rs bs _ r' enc' rs' bs'
      simp only [append_assoc] at hb
      have hm : enc.length = enc'.length := by
        rw [← (header_of_encode henc (bs ++ rest)).2, hb, (header_of_encode henc' (bs' ++ rest')).2]
      obtain ⟨rfl, ht⟩ := append_inj hb hm
      have hr := encode_injective henc henc' (hl.trans hl'.symm)
      rw [length_append, ← add_assoc] at hs hs'
      obtain ⟨rfl, rfl, rfl⟩ := ih hrest' hs hs' ht
      exact ⟨by rw [hr], rfl, rfl⟩

/-! What the loops return. -/

/-- Whole records, then a rest that is empty or torn. -/
def ScansTo (torn : List UInt8 → Nat → Prop) (rest : List UInt8) (lsn : Nat) (scanned : Scanned) :
    Prop :=
  ∃ front tail, rest = front ++ tail ∧ Encodes lsn scanned.records front ∧
    scanned.validEnd = lsn + front.length ∧
    (if scanned.truncatedTail then torn tail (lsn + front.length) else tail = [])

/-- A record cut short in a single file: less than a header, or a header that checks
and more bytes promised than there are. -/
def TornTail (tail : List UInt8) (lsn : Nat) : Prop :=
  0 < tail.length ∧ tail.length < recordHeaderSize ∨
    RecordHeader tail lsn ∧ tail.length < readUint32 tail 8

/-- A record cut short in a segment: of a whole header only the length is looked at. -/
def SegmentTornTail (tail : List UInt8) (_ : Nat) : Prop :=
  0 < tail.length ∧ tail.length < recordHeaderSize ∨
    recordHeaderSize ≤ readUint32 tail 8 ∧ readUint32 tail 8 ≤ maxRecordSize ∧
      recordHeaderSize ≤ tail.length ∧ tail.length < readUint32 tail 8

theorem segmentTornTail_of_tornTail {tail : List UInt8} {lsn : Nat} (h : TornTail tail lsn) :
    SegmentTornTail tail lsn := by
  rcases h with hs | ⟨hh, hl⟩
  · exact .inl hs
  · exact .inr ⟨hh.total.1, hh.total.2, hh.size, hl⟩

theorem segmentTornTail_stops {tail : List UInt8} {lsn : Nat} (h : SegmentTornTail tail lsn) :
    tail ≠ [] ∧ Stops tail lsn := by
  rcases h with ⟨hp, hs⟩ | ⟨_, _, hz, hl⟩
  · exact ⟨ne_nil_of_length_pos hp, stops_of_short hs⟩
  · exact ⟨ne_nil_of_length_pos (Nat.lt_of_lt_of_le (by decide) hz), stops_of_overlong hl⟩

theorem tornTail_stops {tail : List UInt8} {lsn : Nat} (h : TornTail tail lsn) :
    tail ≠ [] ∧ Stops tail lsn :=
  segmentTornTail_stops (segmentTornTail_of_tornTail h)

section
variable {torn : List UInt8 → Nat → Prop} {rest : List UInt8} {lsn : Nat} {scn : Scanned}

section
variable (htorn : ∀ tail lsn, torn tail lsn → tail ≠ [] ∧ Stops tail lsn)
include htorn

/-- A scan that stops at once. -/
theorem scansTo_stop (hst : Stops rest lsn) :
    ScansTo torn rest lsn scn ↔ scn.records = [] ∧ scn.validEnd = lsn ∧
      (if scn.truncatedTail then torn rest lsn else rest = []) := by
  constructor
  · rintro ⟨pre, tail, rfl, hen, he, ht⟩
    have hn : ∀ {pl}, Stops ([] : List UInt8) pl := stops_of_short (by decide)
    have hs : Stops tail (lsn + pre.length) := by
      split at ht
      · exact (htorn _ _ ht).2
      · exact ht ▸ hn
    have hf : Encodes lsn [] [] := .nil
    obtain ⟨hr, rfl, _⟩ := hen.unique hf hs hst rfl
    exact ⟨hr, by simpa using he, by simpa using ht⟩
  · rintro ⟨hr, he, ht⟩
    exact ⟨[], rest, rfl, hr ▸ .nil, by simpa using he, by simpa using ht⟩

theorem scansTo_nil : ScansTo torn [] lsn scn ↔ ⟨[], false, lsn⟩ = scn := by
  rw [scansTo_stop htorn (stops_of_short (by decide))]
  obtain ⟨rs, tt, validEnd⟩ := scn
  cases tt with
  | false => simp [eq_comm]
  | true => simpa using fun _ _ h => (htorn _ _ h).1 rfl

theorem scansTo_torn (h : torn rest lsn) : ScansTo torn rest lsn scn ↔ ⟨[], true, lsn⟩ = scn := by
  obtain ⟨hne, hs⟩ := htorn _ _ h
  rw [scansTo_stop htorn hs]
  obtain ⟨rs, tt, validEnd⟩ := scn
  cases tt with
  | false => simp [hne]
  | true => simp [h, eq_comm]

theorem not_scansTo (hs : Stops rest lsn) (hne : rest ≠ []) (h : ¬ torn rest lsn) :
    ¬ ScansTo torn rest lsn scn := by
  rw [scansTo_stop htorn hs]
  rintro ⟨_, _, ht⟩
  split at ht
  · exact h ht
  · exact hne ht

/-- A scan that starts with a whole record. -/
theorem scansTo_cons (he : encodeWalRecord r lsn = .ok enc) (hl : r.lsn = lsn) :
    ScansTo torn (enc ++ rest) lsn scn ↔
      ∃ later, ScansTo torn rest (lsn + enc.length) later ∧ later.cons r = scn := by
  constructor
  · rintro ⟨pre, tail, hb, hn, hd, ht⟩
    have hst : ∀ bs pl, (if scn.truncatedTail then torn bs pl else bs = []) → Stops bs pl := by
      intro bs pl h
      split at h
      · exact (htorn _ _ h).2
      · exact h ▸ stops_of_short (by decide)
    obtain ⟨rs, tt, validEnd⟩ := scn
    cases hn with
    | nil => exact absurd hb.symm (by simpa using hst _ _ ht r enc rest he)
    | cons he' hl' hs' =>
      rename_i r' enc' rs bs
      rw [append_assoc] at hb
      have hm : enc.length = enc'.length := by
        rw [← (header_of_encode he rest).2, hb, (header_of_encode he' (bs ++ tail)).2]
      obtain ⟨rfl, rfl⟩ := append_inj hb hm
      have hr := encode_injective he he' (hl.trans hl'.symm)
      subst hr
      refine ⟨⟨rs, tt, validEnd⟩, ⟨bs, tail, rfl, hs', ?_, ?_⟩, rfl⟩
      · simpa [add_assoc] using hd
      · simpa [add_assoc] using ht
  · rintro ⟨later, ⟨pre, tail, rfl, hn, hd, ht⟩, rfl⟩
    refine ⟨enc ++ pre, tail, by rw [append_assoc], .cons he hl hn, ?_, ?_⟩
    · simpa [Scanned.cons, add_assoc] using hd
    · simpa [Scanned.cons, add_assoc] using ht

/-- A round of a loop: it stops at the end of the bytes, takes a record and goes on
behind it, or finds one cut short, where `good` is what it checks of a header first. -/
theorem round_ok {good : Prop} {check : Result Unit} {next : Result Scanned}
    (hg : check = .ok () ↔ good) (hb : ¬ good → Stops rest lsn)
    (ht : torn rest lsn ↔ 0 < rest.length ∧ rest.length < recordHeaderSize ∨
      good ∧ recordHeaderSize ≤ rest.length ∧ rest.length < readUint32 rest 8)
    (hx : readUint32 rest 8 ≤ rest.length → recordHeaderSize ≤ readUint32 rest 8 →
      ∀ later, next = .ok later ↔
        ScansTo torn (rest.drop (readUint32 rest 8)) (lsn + readUint32 rest 8) later) :
    (if rest.length = 0 then return ⟨[], false, lsn⟩
      else if rest.length < recordHeaderSize then return ⟨[], true, lsn⟩
      else do
        check
        if rest.length < readUint32 rest 8 then return ⟨[], true, lsn⟩
        else do
          let r ← decodeWalRecord (rest.take (readUint32 rest 8)) lsn
          let later ← next
          return later.cons r : Result Scanned) = .ok scn ↔ ScansTo torn rest lsn scn := by
  split
  · rename_i he
    rw [eq_nil_of_length_eq_zero he, scansTo_nil htorn, pure_ok]
  · rename_i hl
    have hp := Nat.pos_of_ne_zero hl
    have hne := ne_nil_of_length_pos hp
    split
    · rename_i hs
      rw [scansTo_torn htorn (ht.mpr (.inl ⟨hp, hs⟩)), pure_ok]
    · rename_i hw
      rw [bind_ok, Unique.exists_iff]
      show check = .ok () ∧ _ ↔ _
      by_cases hgd : good
      · rw [hg, and_iff_right hgd]
        split
        · rename_i hln
          rw [scansTo_torn htorn (ht.mpr (.inr ⟨hgd, not_lt.mp hw, hln⟩)), pure_ok]
        · rename_i hf
          have hn : ¬ torn rest lsn := fun h => (ht.mp h).elim (hw ·.2) (hf ·.2.2)
          have hf := not_lt.mp hf
          replace hx := hx hf
          simp only [ok_iff, decode_take_iff hf]
          constructor
          · rintro ⟨r, ⟨enc, tail, rfl, he, hl⟩, later, hlt, hc⟩
            rw [(header_of_encode he tail).2] at hx
            rw [hx (encode_pos he), drop_left] at hlt
            exact (scansTo_cons htorn he hl).mpr ⟨later, hlt, hc⟩
          · intro h
            by_cases hs : Stops rest lsn
            · exact absurd h (not_scansTo htorn hs hne hn)
            · simp only [Stops, not_forall, not_not] at hs
              obtain ⟨r, enc, tail, he, rfl⟩ := hs
              have he' : encodeWalRecord { r with lsn } lsn = .ok enc := he
              obtain ⟨later, hlt, hc⟩ := (scansTo_cons htorn he' rfl).mp h
              refine ⟨_, ⟨enc, tail, rfl, he', rfl⟩, later, ?_, hc⟩
              rw [(header_of_encode he tail).2] at hx
              rw [hx (encode_pos he), drop_left]
              exact hlt
      · rw [hg, iff_false_left fun h => hgd h.1]
        exact not_scansTo htorn (hb hgd) hne fun h => (ht.mp h).elim (hw ·.2) (hgd ·.1)

end

end

theorem readUint32_header : readUint32 (rest.take recordHeaderSize) 8 = readUint32 rest 8 :=
  readLe_take (by decide)

/-- The loop over a single file returns exactly what there is to return. -/
theorem scanFileLoop_ok {fuel : Nat} {lsn : Nat} {scn : Scanned} (hfl : rest.length ≤ fuel) :
    scanFileLoop fuel rest lsn = .ok scn ↔ ScansTo TornTail rest lsn scn := by
  have htorn := fun tail lsn => @tornTail_stops tail lsn
  induction fuel generalizing rest lsn scn with
  | zero =>
    have hn := eq_nil_of_length_eq_zero (Nat.le_zero.mp hfl)
    rw [hn, scansTo_nil htorn, scanFileLoop, pure_ok]
  | succ fuel ih =>
    simp only [scanFileLoop, readUint32_header]
    refine round_ok htorn validateRecordPrefix_ok ?_ ?_ fun _ ht later => ih ?_
    · exact fun hh => stops_of_malformed (mt (recordHeader_take le_rfl).mpr hh)
    · rw [recordHeader_take le_rfl]
      exact or_congr_right ⟨fun h => ⟨h.1, h.1.size, h.2⟩, fun h => ⟨h.1, h.2.2⟩⟩
    · rw [length_drop]
      simp only [recordHeaderSize] at ht
      omega

theorem rejectCorruptLength_ok {recordHeader : List UInt8} {lsn : Nat} {u : Unit} :
    rejectCorruptLength recordHeader lsn = .ok u ↔
      recordHeaderSize ≤ readUint32 recordHeader 8 ∧ readUint32 recordHeader 8 ≤ maxRecordSize := by
  rw [rejectCorruptLength]
  split
  · rename_i hr
    simp only [map_ok, decodeWalRecord_ok]
    constructor
    · rintro ⟨r, ⟨hh, _⟩, _⟩
      exact hh.total
    · intro ht
      omega
  · rename_i hr
    simp only [pure_ok, true_iff]
    omega

theorem scanSegmentLoop_ok {fuel : Nat} {lsn : Nat} {scn : Scanned}
    (hfl : rest.length ≤ fuel) (hsp : lsn + rest.length < 2 ^ 64) :
    scanSegmentLoop fuel rest lsn = .ok scn ↔ ScansTo SegmentTornTail rest lsn scn := by
  have htorn := fun tail lsn => @segmentTornTail_stops tail lsn
  induction fuel generalizing rest lsn scn with
  | zero =>
    have hn := eq_nil_of_length_eq_zero (Nat.le_zero.mp hfl)
    rw [hn, scansTo_nil htorn, scanSegmentLoop, pure_ok]
  | succ fuel ih =>
    simp only [scanSegmentLoop, readUint32_header]
    refine round_ok htorn rejectCorruptLength_ok ?_ ?_ fun hf ht later => ?_
    · rw [readUint32_header]
      exact fun hh => stops_of_malformed fun h => hh h.total
    · rw [readUint32_header, and_assoc]
      rfl
    · simp only [recordHeaderSize] at ht
      rw [Nat.mod_eq_of_lt (by omega)]
      refine ih ?_ ?_ <;> rw [length_drop] <;> omega

end MiniDb.Wal
