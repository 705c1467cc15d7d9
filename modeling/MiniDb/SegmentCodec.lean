import MiniDb.WalCodec

/-!
The metadata of a segmented log as bytes: the header of a segment file and the
manifest of the directory. Both are blocks of 64 bytes that end in a checksum over
the block and a reserved word; a block that was encoded is decoded to what it was
encoded from.
-/
namespace MiniDb.Wal
open ByteString Outcome List

variable {bs : List UInt8}

def segmentHeaderSize : Nat := 64

def checksumWithZeroField (bytes : List UInt8) (checksumOffset : Nat) : Nat :=
  crc32c (zeroed bytes checksumOffset 4)

/-- A block of the given fields, its checksum at offset 56 and a reserved word. -/
def checkedBlock (layout : List (Nat × Nat)) : List UInt8 :=
  fields (layout ++
    [(4, checksumWithZeroField (fields (layout ++ [(4, 0), (4, 0)])) 56), (4, 0)])

/-! Segment headers: `wal_segment_layout`. -/

def segmentMagic : List UInt8 := [0x4D, 0x44, 0x42, 0x57, 0x53, 0x45, 0x47, 0x31]

structure WalSegmentHeader where
  segmentId : Nat
  startLsn : Nat
  previousSegmentId : Nat
  previousLogicalEndLsn : Nat
  payloadCapacity : Nat
  flags : Nat
  deriving DecidableEq, Repr

variable {hdr : WalSegmentHeader}

/-- What both directions ask of the fields of a header. -/
def WalSegmentHeader.WellFormed (header : WalSegmentHeader) : Prop :=
  header.segmentId ≠ 0 ∧ isValidLsn header.startLsn ∧ walHeaderSize ≤ header.startLsn ∧
    header.previousLogicalEndLsn = header.startLsn ∧ 128 ≤ header.payloadCapacity ∧
    header.flags = 0 ∧ (header.segmentId = 1 ↔ header.previousSegmentId = 0)

instance (header : WalSegmentHeader) : Decidable header.WellFormed :=
  inferInstanceAs (Decidable (_ ∧ _))

def WalSegmentHeader.layout (header : WalSegmentHeader) : List (Nat × Nat) :=
  [(8, leValue segmentMagic), (4, 1), (4, segmentHeaderSize), (8, header.segmentId),
    (8, header.startLsn), (8, header.previousSegmentId), (8, header.previousLogicalEndLsn),
    (4, header.payloadCapacity), (4, header.flags)]

def encodeWalSegmentHeader (header : WalSegmentHeader) : Result (List UInt8) := do
  require header.WellFormed (invalidArgument "Invalid WAL segment header fields")
  return checkedBlock header.layout

def decodeWalSegmentHeader (bytes : List UInt8) : Result WalSegmentHeader := do
  require (bytes.length = segmentHeaderSize ∧ slice bytes 0 8 = segmentMagic ∧
      readUint32 bytes 8 = 1 ∧ readUint32 bytes 12 = segmentHeaderSize ∧
      readUint32 bytes 56 = checksumWithZeroField bytes 56 ∧ readUint32 bytes 60 = 0)
    (corruptHeader "Invalid WAL segment header")
  let header : WalSegmentHeader := {
    segmentId := readUint64 bytes 16
    startLsn := readUint64 bytes 24
    previousSegmentId := readUint64 bytes 32
    previousLogicalEndLsn := readUint64 bytes 40
    payloadCapacity := readUint32 bytes 48
    flags := readUint32 bytes 52 }
  require header.WellFormed (corruptHeader "Malformed WAL segment header fields")
  return header

/-! The manifest: `wal_manifest_layout`. -/

def manifestMagic : List UInt8 := [0x4D, 0x44, 0x42, 0x57, 0x53, 0x4D, 0x30, 0x31]

structure WalSegmentManifest where
  payloadCapacity : Nat
  firstRetainedSegmentId : Nat
  initialLsn : Nat
  migrationBaseLsn : Nat
  deriving DecidableEq, Repr

variable {man : WalSegmentManifest}

def WalSegmentManifest.WellFormed (manifest : WalSegmentManifest) : Prop :=
  128 ≤ manifest.payloadCapacity ∧ manifest.firstRetainedSegmentId ≠ 0 ∧
    isValidLsn manifest.initialLsn ∧ walHeaderSize ≤ manifest.initialLsn ∧
    (manifest.migrationBaseLsn = invalidLsn ∨ manifest.migrationBaseLsn = manifest.initialLsn)

instance (manifest : WalSegmentManifest) : Decidable manifest.WellFormed :=
  inferInstanceAs (Decidable (_ ∧ _))

def WalSegmentManifest.layout (manifest : WalSegmentManifest) : List (Nat × Nat) :=
  [(8, leValue manifestMagic), (4, 1), (4, segmentHeaderSize), (4, manifest.payloadCapacity),
    (4, 0), (8, manifest.firstRetainedSegmentId), (8, manifest.initialLsn),
    (8, manifest.migrationBaseLsn), (8, 0)]

def encodeWalSegmentManifest (manifest : WalSegmentManifest) : Result (List UInt8) := do
  require manifest.WellFormed (invalidArgument "Invalid segmented-WAL manifest fields")
  return checkedBlock manifest.layout

def decodeWalSegmentManifest (bytes : List UInt8) : Result WalSegmentManifest := do
  require (bytes.length = segmentHeaderSize ∧ slice bytes 0 8 = manifestMagic ∧
      readUint32 bytes 8 = 1 ∧ readUint32 bytes 12 = segmentHeaderSize ∧
      readUint32 bytes 20 = 0 ∧ readUint64 bytes 48 = 0 ∧ readUint32 bytes 60 = 0 ∧
      readUint32 bytes 56 = checksumWithZeroField bytes 56)
    (corruptHeader "Invalid segmented-WAL manifest")
  let manifest : WalSegmentManifest := {
    payloadCapacity := readUint32 bytes 16
    firstRetainedSegmentId := readUint64 bytes 24
    initialLsn := readUint64 bytes 32
    migrationBaseLsn := readUint64 bytes 40 }
  require manifest.WellFormed (corruptHeader "Malformed segmented-WAL manifest fields")
  return manifest

/-! Blocks are read back field by field. -/

variable {lay : List (Nat × Nat)}

theorem length_checkedBlock (h : widths lay = 56) :
    (checkedBlock lay).length = segmentHeaderSize := by
  rw [checkedBlock, length_fields, widths, map_append, sum_append]
  rw [widths] at h
  simp [h, segmentHeaderSize]

/-- The fields before the checksum. -/
theorem readLe_checkedBlock (n : Nat) {w v : Nat} {aft : List (Nat × Nat)}
    (h : lay.drop n = (w, v) :: aft) (hv : v < 256 ^ w) :
    readLe (checkedBlock lay) (widths (lay.take n)) w = v := by
  have hr := readLe_fields (lay.take n) w v
    (aft ++ [(4, checksumWithZeroField (fields (lay ++ [(4, 0), (4, 0)])) 56), (4, 0)]) []
  rw [Nat.mod_eq_of_lt hv] at hr
  rw [← hr, append_nil, ← cons_append, ← h, ← append_assoc, take_append_drop, checkedBlock]

theorem checksum_checkedBlock (h : widths lay = 56) :
    readUint32 (checkedBlock lay) 56 = checksumWithZeroField (checkedBlock lay) 56 := by
  have hr := fun v => readLe_fields lay 4 v [(4, 0)] []
  have hz := fun v => zeroed_fields lay 4 v [(4, 0)] []
  simp only [h, append_nil] at hr hz
  rw [readUint32, checkedBlock, hr, checksumWithZeroField, checksumWithZeroField, hz, hz]
  exact Nat.mod_eq_of_lt (crc32c_lt _)

theorem reserved_checkedBlock (h : widths lay = 56) : readUint32 (checkedBlock lay) 60 = 0 := by
  have hr := readLe_fields
    (lay ++ [(4, checksumWithZeroField (fields (lay ++ [(4, 0), (4, 0)])) 56)]) 4 0 [] []
  have hs : widths (lay ++
      [(4, checksumWithZeroField (fields (lay ++ [(4, 0), (4, 0)])) 56)]) = 60 := by
    rw [widths, map_append, sum_append, ← widths, h]
    rfl
  rw [hs, append_nil, append_assoc] at hr
  exact hr

/-- A header whose fields fit the widths they are stored in. -/
structure WalSegmentHeader.InRange (header : WalSegmentHeader) : Prop where
  segmentId : header.segmentId < 2 ^ 64
  startLsn : header.startLsn < 2 ^ 64
  previousSegmentId : header.previousSegmentId < 2 ^ 64
  payloadCapacity : header.payloadCapacity < 2 ^ 32

theorem encodeWalSegmentHeader_ok :
    encodeWalSegmentHeader hdr = .ok bs ↔ hdr.WellFormed ∧ checkedBlock hdr.layout = bs := by
  simp only [encodeWalSegmentHeader, ok_iff]
  exact exists_const Unit

theorem length_of_encode_header (h : encodeWalSegmentHeader hdr = .ok bs) :
    bs.length = segmentHeaderSize := by
  rw [← (encodeWalSegmentHeader_ok.mp h).2]
  exact length_checkedBlock rfl

theorem decode_encode_header (h : encodeWalSegmentHeader hdr = .ok bs) (hr : hdr.InRange) :
    decodeWalSegmentHeader bs = .ok hdr := by
  obtain ⟨hf, rfl⟩ := encodeWalSegmentHeader_ok.mp h
  have he : hdr.previousLogicalEndLsn < 2 ^ 64 := hf.2.2.2.1 ▸ hr.startLsn
  have hl : hdr.flags < 256 ^ 4 := by
    rw [hf.2.2.2.2.2.1]
    decide
  have hd : (⟨readUint64 (checkedBlock hdr.layout) 16,
      readUint64 (checkedBlock hdr.layout) 24, readUint64 (checkedBlock hdr.layout) 32,
      readUint64 (checkedBlock hdr.layout) 40, readUint32 (checkedBlock hdr.layout) 48,
      readUint32 (checkedBlock hdr.layout) 52⟩ : WalSegmentHeader) = hdr := by
    rw [show readUint64 (checkedBlock hdr.layout) 16 = hdr.segmentId from
        readLe_checkedBlock 3 rfl hr.segmentId,
      show readUint64 (checkedBlock hdr.layout) 24 = hdr.startLsn from
        readLe_checkedBlock 4 rfl hr.startLsn,
      show readUint64 (checkedBlock hdr.layout) 32 = hdr.previousSegmentId from
        readLe_checkedBlock 5 rfl hr.previousSegmentId,
      show readUint64 (checkedBlock hdr.layout) 40 = hdr.previousLogicalEndLsn from
        readLe_checkedBlock 6 rfl he,
      show readUint32 (checkedBlock hdr.layout) 48 = hdr.payloadCapacity from
        readLe_checkedBlock 7 rfl hr.payloadCapacity,
      show readUint32 (checkedBlock hdr.layout) 52 = hdr.flags from
        readLe_checkedBlock 8 rfl hl]
  simp only [decodeWalSegmentHeader, ok_iff, hd]
  exact ⟨(), ⟨length_checkedBlock rfl, rfl, readLe_checkedBlock 1 rfl (by decide),
    readLe_checkedBlock 2 rfl (by decide), checksum_checkedBlock rfl, reserved_checkedBlock rfl⟩,
    (), hf, trivial⟩

structure WalSegmentManifest.InRange (manifest : WalSegmentManifest) : Prop where
  payloadCapacity : manifest.payloadCapacity < 2 ^ 32
  firstRetainedSegmentId : manifest.firstRetainedSegmentId < 2 ^ 64
  initialLsn : manifest.initialLsn < 2 ^ 64
  migrationBaseLsn : manifest.migrationBaseLsn < 2 ^ 64

theorem encodeWalSegmentManifest_ok :
    encodeWalSegmentManifest man = .ok bs ↔ man.WellFormed ∧ checkedBlock man.layout = bs := by
  simp only [encodeWalSegmentManifest, ok_iff]
  exact exists_const Unit

theorem length_of_encode_manifest (h : encodeWalSegmentManifest man = .ok bs) :
    bs.length = segmentHeaderSize := by
  rw [← (encodeWalSegmentManifest_ok.mp h).2]
  exact length_checkedBlock rfl

theorem decode_encode_manifest (h : encodeWalSegmentManifest man = .ok bs)
    (hr : man.InRange) : decodeWalSegmentManifest bs = .ok man := by
  obtain ⟨hf, rfl⟩ := encodeWalSegmentManifest_ok.mp h
  have hd : (⟨readUint32 (checkedBlock man.layout) 16,
      readUint64 (checkedBlock man.layout) 24, readUint64 (checkedBlock man.layout) 32,
      readUint64 (checkedBlock man.layout) 40⟩ : WalSegmentManifest) = man := by
    rw [show readUint32 (checkedBlock man.layout) 16 = man.payloadCapacity from
        readLe_checkedBlock 3 rfl hr.payloadCapacity,
      show readUint64 (checkedBlock man.layout) 24 = man.firstRetainedSegmentId from
        readLe_checkedBlock 5 rfl hr.firstRetainedSegmentId,
      show readUint64 (checkedBlock man.layout) 32 = man.initialLsn from
        readLe_checkedBlock 6 rfl hr.initialLsn,
      show readUint64 (checkedBlock man.layout) 40 = man.migrationBaseLsn from
        readLe_checkedBlock 7 rfl hr.migrationBaseLsn]
  simp only [decodeWalSegmentManifest, ok_iff, hd]
  exact ⟨(), ⟨length_checkedBlock rfl, rfl, readLe_checkedBlock 1 rfl (by decide),
    readLe_checkedBlock 2 rfl (by decide), readLe_checkedBlock 4 rfl (by decide),
    readLe_checkedBlock 8 rfl (by decide), reserved_checkedBlock rfl, checksum_checkedBlock rfl⟩,
    (), hf, trivial⟩

end MiniDb.Wal
