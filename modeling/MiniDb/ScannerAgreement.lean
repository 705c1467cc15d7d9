import MiniDb.WalScan

/-!
The two scanners on the same body. They differ on one kind of rest only: a whole
header that is no record header but carries a length in range and past the end.
The single-file scanner checks the header first and reports the corruption; the
segment scanner compares the length first and takes the rest for a torn record.
-/
namespace MiniDb.Wal
open ByteString Outcome List

def Agree : Result WalScanResult → Result SegmentScan → Prop
  | .ok file, .ok segment =>
    file.records = segment.records ∧ file.validBytes = segment.validEnd ∧
      file.truncatedTail = segment.truncatedTail
  | .error _, .error _ => True
  | _, _ => False

/-- At the position `stop` stand 48 bytes or more that are no record header. -/
def CorruptAt (body : List UInt8) (stop : Nat) : Prop :=
  recordHeaderSize ≤ (body.drop (stop - walHeaderSize)).length ∧
    ¬ RecordHeader (body.drop (stop - walHeaderSize)) stop

/-- The scanners agree, and no torn tail is reported where the bytes are corrupt. -/
structure ScannersAgree (body : List UInt8) (file : Result WalScanResult)
    (segment : Result SegmentScan) : Prop where
  agree : Agree file segment
  fileTail : ∀ result, file = .ok result → result.truncatedTail = true →
    ¬ CorruptAt body result.validBytes
  segmentTail : ∀ result, segment = .ok result → result.truncatedTail = true →
    ¬ CorruptAt body result.validEnd

/-- Behind whole records, a header that does not check and whose length, in range,
points past the end. -/
def HidesCorruption (body : List UInt8) : Prop :=
  ∃ records front rest, body = front ++ rest ∧ Encodes walHeaderSize records front ∧
    recordHeaderSize ≤ rest.length ∧ ¬ RecordHeader rest (walHeaderSize + front.length) ∧
    recordHeaderSize ≤ readUint32 rest 8 ∧ readUint32 rest 8 ≤ maxRecordSize ∧
    rest.length < readUint32 rest 8

variable {body : List UInt8}

/-- A scan of a single file from any position in it. -/
theorem scanDescriptor_ok {startOffset : Nat} {res : WalScanResult} :
    scanDescriptor (encodeWalFileHeader ++ body) startOffset = .ok res ↔
      (walHeaderSize ≤ startOffset ∧ startOffset ≤ walHeaderSize + body.length) ∧
      ∃ scn, ScansTo TornTail (body.drop (startOffset - walHeaderSize)) startOffset scn ∧
        (⟨scn.records, scn.truncatedTail, scn.validEnd, walHeaderSize + body.length,
          startOffset⟩ : WalScanResult) = res := by
  have hd : walHeaderSize ≤ startOffset →
      (encodeWalFileHeader ++ body).drop startOffset = body.drop (startOffset - walHeaderSize) := by
    intro hle
    rw [drop_append, drop_eq_nil_of_le hle, nil_append]
    rfl
  simp only [scanDescriptor, ok_iff, take_withFileHeader, length_withFileHeader,
    validateWalFileHeader_encode]
  constructor
  · rintro ⟨_, _, _, _, _, hr, scn, hp, hs⟩
    rw [hd hr.1] at hp
    refine ⟨hr, scn, (scanFileLoop_ok ?_).mp hp, hs⟩
    rw [length_drop]
    omega
  · rintro ⟨hr, scn, hc, hs⟩
    refine ⟨(), by omega, (), trivial, (), hr, scn, ?_, hs⟩
    rw [hd hr.1]
    refine (scanFileLoop_ok ?_).mpr hc
    rw [length_drop]
    omega

theorem scanWalFile_ok {res : WalScanResult} :
    scanWalFile (encodeWalFileHeader ++ body) = .ok res ↔
      ∃ scn, ScansTo TornTail body walHeaderSize scn ∧
        (⟨scn.records, scn.truncatedTail, scn.validEnd, walHeaderSize + body.length,
          walHeaderSize⟩ : WalScanResult) = res := by
  rw [scanWalFile, scanDescriptor_ok, Nat.sub_self, drop_zero]
  exact and_iff_right ⟨le_rfl, Nat.le_add_right _ _⟩

section
variable {header : WalSegmentHeader} {block body : List UInt8}

theorem scanOneSegment_ok {allowTruncatedTail : Bool} {res : SegmentScan}
    (hc : encodeWalSegmentHeader header = .ok block) (hg : header.InRange)
    (hft : body.length ≤ header.payloadCapacity) (hp : header.startLsn + body.length < 2 ^ 64) :
    scanOneSegment header (block ++ body) allowTruncatedTail = .ok res ↔
      ∃ scn, ScansTo SegmentTornTail body header.startLsn scn ∧
        (scn.truncatedTail = true → allowTruncatedTail = true) ∧
        (⟨scn.records, scn.validEnd, header.startLsn + body.length, scn.truncatedTail,
          segmentHeaderSize + body.length⟩ : SegmentScan) = res := by
  have hb := length_of_encode_header hc
  have hl : (block ++ body).length = segmentHeaderSize + body.length := by
    rw [length_append, hb]
  have hlp := @scanSegmentLoop_ok body (segmentHeaderSize + body.length) header.startLsn
  simp only [scanOneSegment, ok_iff, take_left' hb, drop_left' hb, decode_encode_header hc hg, hl,
    Nat.add_sub_cancel_left, Nat.mod_eq_of_lt hp, hlp (Nat.le_add_left _ _) hp]
  constructor
  · rintro ⟨_, _, _, rfl, _, _, scn, hs, _, ha, hr⟩
    refine ⟨scn, hs, ?_, hr⟩
    intro ht
    by_contra hf
    exact ha ⟨ht, Bool.not_eq_true _ ▸ hf⟩
  · rintro ⟨scn, hs, ha, hr⟩
    refine ⟨(), ⟨Nat.le_add_right _ _, by omega⟩, header, rfl, (), rfl, scn, hs, (), ?_, hr⟩
    rintro ⟨ht, hf⟩
    rw [ha ht] at hf
    exact absurd hf (by decide)

end

/-- Without hidden corruption both scanners see the same torn tails. -/
theorem scansTo_iff_segment {scn : Scanned} (h : ¬ HidesCorruption body) :
    ScansTo TornTail body walHeaderSize scn ↔ ScansTo SegmentTornTail body walHeaderSize scn := by
  constructor
  · rintro ⟨pre, tail, hb, hn, he, ht⟩
    refine ⟨pre, tail, hb, hn, he, ?_⟩
    split at ht
    · rename_i hr
      rw [if_pos hr]
      exact segmentTornTail_of_tornTail ht
    · rename_i hw
      rw [if_neg hw]
      exact ht
  · rintro ⟨pre, tail, hb, hn, he, ht⟩
    refine ⟨pre, tail, hb, hn, he, ?_⟩
    split at ht
    · rename_i hr
      rw [if_pos hr]
      rcases ht with hs | ⟨hl, hg, hz, hln⟩
      · exact .inl hs
      · by_cases hh : RecordHeader tail (walHeaderSize + pre.length)
        · exact .inr ⟨hh, hln⟩
        · exact absurd ⟨_, pre, tail, hb, hn, hz, hh, hl, hg, hln⟩ h
    · rename_i hw
      rw [if_neg hw]
      exact ht

theorem drop_front {pre rest : List UInt8} :
    (pre ++ rest).drop (walHeaderSize + pre.length - walHeaderSize) = rest := by
  rw [Nat.add_sub_cancel_left, drop_left]

/-- A tail that a single-file scan reports is no corruption. -/
theorem not_corruptAt_of_scansTo {scn : Scanned} (h : ScansTo TornTail body walHeaderSize scn)
    (hl : scn.truncatedTail = true) : ¬ CorruptAt body scn.validEnd := by
  obtain ⟨pre, tail, rfl, _, he, ht⟩ := h
  rw [if_pos hl] at ht
  rw [he]
  rintro ⟨hs, hc⟩
  rw [drop_front] at hs hc
  rcases ht with ⟨_, hsh⟩ | ⟨hh, _⟩
  · omega
  · exact hc hh

/-- The scanners agree on a body, and neither reads corruption as a torn tail,
exactly when the body hides no corruption behind a length past its end. -/
theorem scanners_agree_iff {header : WalSegmentHeader} {block body : List UInt8}
    (hblock : encodeWalSegmentHeader header = .ok block) (hrange : header.InRange)
    (hstart : header.startLsn = walHeaderSize) (hfits : body.length ≤ header.payloadCapacity) :
    ScannersAgree body (scanWalFile (encodeWalFileHeader ++ body))
      (scanOneSegment header (block ++ body) true) ↔ ¬ HidesCorruption body := by
  have hspace : header.startLsn + body.length < 2 ^ 64 := by
    have := hrange.payloadCapacity
    rw [hstart]
    simp only [walHeaderSize]
    omega
  have hsegment := fun result =>
    @scanOneSegment_ok header block body true result hblock hrange hfits hspace
  rw [hstart] at hsegment
  constructor
  · rintro hagree ⟨records, front, rest, rfl, hencodes, hsize, hcorrupt, hlow, hhigh, hlong⟩
    have hscans : ScansTo SegmentTornTail (front ++ rest) walHeaderSize
        ⟨records, true, walHeaderSize + front.length⟩ :=
      ⟨front, rest, rfl, hencodes, rfl, .inr ⟨hlow, hhigh, hsize, hlong⟩⟩
    refine hagree.segmentTail _ ((hsegment _).mpr ⟨_, hscans, fun _ => rfl, rfl⟩) rfl ?_
    unfold CorruptAt
    rw [drop_front]
    exact ⟨hsize, hcorrupt⟩
  · intro hhonest
    refine ⟨?_, ?_, ?_⟩
    · unfold Agree
      split
      · rename_i file segment hfile hsegment'
        obtain ⟨scanned, hscans, rfl⟩ := scanWalFile_ok.mp hfile
        have hsame := (hsegment _).mpr
          ⟨scanned, (scansTo_iff_segment hhonest).mp hscans, fun _ => rfl, rfl⟩
        rw [hsegment', Except.ok.injEq] at hsame
        rw [hsame]
        exact ⟨rfl, rfl, rfl⟩
      · trivial
      · rename_i hbothOk hbothError
        cases hfile : scanWalFile (encodeWalFileHeader ++ body) with
        | ok result =>
          obtain ⟨scanned, hscans, rfl⟩ := scanWalFile_ok.mp hfile
          exact hbothOk _ _ hfile ((hsegment _).mpr
            ⟨scanned, (scansTo_iff_segment hhonest).mp hscans, fun _ => rfl, rfl⟩)
        | error e =>
          cases hresult : scanOneSegment header (block ++ body) true with
          | ok result =>
            obtain ⟨scanned, hscans, _, _⟩ := (hsegment _).mp hresult
            have hfile' := scanWalFile_ok.mpr
              ⟨scanned, (scansTo_iff_segment hhonest).mpr hscans, rfl⟩
            rw [hfile] at hfile'
            exact absurd hfile' (by simp)
          | error e' => exact hbothError e e' hfile hresult
    · intro result hfile htail
      obtain ⟨scanned, hscans, rfl⟩ := scanWalFile_ok.mp hfile
      exact not_corruptAt_of_scansTo hscans htail
    · intro result hresult htail
      obtain ⟨scanned, hscans, _, rfl⟩ := (hsegment _).mp hresult
      exact not_corruptAt_of_scansTo ((scansTo_iff_segment hhonest).mpr hscans) htail

/-- The header of the first segment of a log, with the least capacity. -/
def firstSegmentHeader : WalSegmentHeader := ⟨1, walHeaderSize, 0, walHeaderSize, 128, 0⟩

/-- 47 bytes are no record in either format. -/
theorem scanners_agree_short :
    ScannersAgree (replicate 47 0) (scanWalFile (encodeWalFileHeader ++ replicate 47 0))
      (scanOneSegment firstSegmentHeader
        (checkedBlock firstSegmentHeader.layout ++ replicate 47 0) true) := by
  refine (scanners_agree_iff (by decide +kernel) ⟨by decide, by decide, by decide, by decide⟩ rfl
    (by decide)).mpr ?_
  rintro ⟨_, front, rest, hbody, _, hsize, _⟩
  have hlength := congrArg length hbody
  rw [length_replicate, length_append] at hlength
  simp only [recordHeaderSize] at hsize
  omega

/-- 48 zero bytes but for the length 49. -/
def overlongHeader : List UInt8 := List.replicate 8 0 ++ leBytes 4 49 ++ List.replicate 36 0

theorem overlong_header_is_misread :
    scanWalFile (encodeWalFileHeader ++ overlongHeader) =
      .error (corruptRecord "Invalid WAL record magic") ∧
    scanOneSegment firstSegmentHeader (checkedBlock firstSegmentHeader.layout ++ overlongHeader)
      true = .ok ⟨[], 64, 112, true, 112⟩ ∧ CorruptAt overlongHeader 64 := by
  refine ⟨by decide +kernel, by decide +kernel, by decide, ?_⟩
  intro hheader
  exact absurd hheader.magic (by decide)

end MiniDb.Wal
