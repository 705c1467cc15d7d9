import MiniDb.Foundation.ByteString
import MiniDb.LogRecord

/-!
Log records as bytes. A record is a header of 48 bytes and its payload; it carries
its own position in the log and a CRC-32C over everything but the checksum field.
The codec is a bijection: a record that was encoded at a position is decoded there,
and a byte string that is accepted at a position is the encoding of the record it
is decoded to. Transaction ids and links to earlier records pass through the log
unchanged and are machine words; positions are numbers, which the checks bound.
-/
namespace MiniDb.Wal
open ByteString Outcome

variable {bs : List UInt8} {lsn : Nat}

def readUint16 (bytes : List UInt8) (offset : Nat) : Nat := readLe bytes offset 2

def readUint32 (bytes : List UInt8) (offset : Nat) : Nat := readLe bytes offset 4

def readUint64 (bytes : List UInt8) (offset : Nat) : Nat := readLe bytes offset 8

inductive LogRecordType
  | begin | pageUpdate | commit | abort | compensation | checkpointBegin | checkpointEnd
  | pageDeltaUpdate | pageUpdateV2 | pageDeltaUpdateV2 | fuzzyCheckpointBegin
  | fuzzyCheckpointEnd | pageReserve | pageReclaim | beginOwned | rollbackCleanupBegin
  | rollbackCleanupIntent | rollbackCleanupProgress
  deriving DecidableEq, Repr

namespace LogRecordType

def code : LogRecordType → Nat
  | .begin => 1
  | .pageUpdate => 2
  | .commit => 3
  | .abort => 4
  | .compensation => 5
  | .checkpointBegin => 6
  | .checkpointEnd => 7
  | .pageDeltaUpdate => 8
  | .pageUpdateV2 => 9
  | .pageDeltaUpdateV2 => 10
  | .fuzzyCheckpointBegin => 11
  | .fuzzyCheckpointEnd => 12
  | .pageReserve => 13
  | .pageReclaim => 14
  | .beginOwned => 15
  | .rollbackCleanupBegin => 16
  | .rollbackCleanupIntent => 17
  | .rollbackCleanupProgress => 18

def all : List LogRecordType :=
  [.begin, .pageUpdate, .commit, .abort, .compensation, .checkpointBegin, .checkpointEnd,
    .pageDeltaUpdate, .pageUpdateV2, .pageDeltaUpdateV2, .fuzzyCheckpointBegin,
    .fuzzyCheckpointEnd, .pageReserve, .pageReclaim, .beginOwned, .rollbackCleanupBegin,
    .rollbackCleanupIntent, .rollbackCleanupProgress]

/-- `isValidLogRecordType`, with the type the code names. -/
def ofCode? (code : Nat) : Option LogRecordType := all.find? fun type => type.code = code

theorem ofCode?_code (type : LogRecordType) : ofCode? type.code = some type := by
  cases type <;> rfl

theorem code_of_ofCode? {code : Nat} {type : LogRecordType} (h : ofCode? code = some type) :
    type.code = code := by
  simpa using List.find?_some h

theorem code_lt (type : LogRecordType) : type.code < 256 ^ 2 := by
  cases type <;> decide

end LogRecordType

structure LogRecord where
  type : LogRecordType
  transactionId : UInt64
  prevLsn : UInt64
  payload : List UInt8
  lsn : Nat
  deriving DecidableEq, Repr

variable {r : LogRecord}

/-- A 64-bit word other than `INVALID_LSN`, its greatest value. -/
def isValidLsn (lsn : Nat) : Prop := lsn < invalidLsn

instance (lsn : Nat) : Decidable (isValidLsn lsn) := inferInstanceAs (Decidable (_ < _))

def invalidArgument (message : String) : DbError := .walError .invalidArgument message

def corruptRecord (message : String) : DbError := .walError .corruptRecord message

def corruptHeader (message : String) : DbError := .walError .corruptHeader message

/-! Records: `wal_record_layout`. -/

def recordMagic : List UInt8 := [0x4D, 0x44, 0x42, 0x52]

def maxRecordSize : Nat := 1024 * 1024

def recordChecksum (bytes : List UInt8) : Nat := crc32c (zeroed bytes 40 4)

/-- The fields of a header in the order of their offsets. -/
def recordHeader (record : LogRecord) (lsn checksum : Nat) : List (Nat × Nat) :=
  [(4, leValue recordMagic), (2, 1), (2, record.type.code),
    (4, recordHeaderSize + record.payload.length), (4, record.payload.length), (8, lsn),
    (8, record.transactionId.toNat), (8, record.prevLsn.toNat), (4, checksum), (4, 0)]

def recordBytes (record : LogRecord) (lsn checksum : Nat) : List UInt8 :=
  fields (recordHeader record lsn checksum) ++ record.payload

def encodeWalRecord (record : LogRecord) (lsn : Nat) : Result (List UInt8) := do
  require (isValidLsn lsn ∧ walHeaderSize ≤ lsn)
    (invalidArgument "Cannot encode invalid WAL record LSN")
  require (record.payload.length ≤ maxPayloadSize)
    (invalidArgument "WAL record exceeds maximum size")
  require (¬ (isValidLsn record.prevLsn.toNat ∧ lsn ≤ record.prevLsn.toNat))
    (invalidArgument "WAL prevLSN must precede its record")
  return recordBytes record lsn (recordChecksum (recordBytes record lsn 0))

def validateRecordPrefix (header : List UInt8) (physicalLsn : Nat) : Result Unit := do
  require (recordHeaderSize ≤ header.length) (corruptRecord "WAL record header is truncated")
  require (slice header 0 4 = recordMagic) (corruptRecord "Invalid WAL record magic")
  require (readUint16 header 4 = 1) (corruptRecord "Unsupported WAL record version")
  require ((LogRecordType.ofCode? (readUint16 header 6)).isSome)
    (corruptRecord "Invalid WAL record type ID")
  let totalLength := readUint32 header 8
  let payloadLength := readUint32 header 12
  require (recordHeaderSize ≤ totalLength ∧ totalLength ≤ maxRecordSize)
    (corruptRecord "Invalid WAL record total length")
  require (payloadLength ≤ maxPayloadSize ∧ payloadLength = totalLength - recordHeaderSize)
    (corruptRecord "WAL payload/total length mismatch")
  require (readUint64 header 16 = physicalLsn ∧ walHeaderSize ≤ physicalLsn ∧
      isValidLsn physicalLsn) (corruptRecord "WAL record LSN disagrees with its offset")
  require (readUint32 header 44 = 0) (corruptRecord "WAL record reserved flags are nonzero")
  let previous := readUint64 header 32
  require (¬ (isValidLsn previous ∧ physicalLsn ≤ previous))
    (corruptRecord "WAL prevLSN is not earlier than its record")

def decodeWalRecord (bytes : List UInt8) (physicalLsn : Nat) : Result LogRecord := do
  validateRecordPrefix bytes physicalLsn
  let totalLength := readUint32 bytes 8
  require (bytes.length = totalLength)
    (corruptRecord "Encoded WAL record length is inconsistent")
  let expected := readUint32 bytes 40
  require (recordChecksum bytes = expected) (corruptRecord "WAL record checksum mismatch")
  match LogRecordType.ofCode? (readUint16 bytes 6) with
  | some type =>
    return {
      type
      transactionId := .ofNat (readUint64 bytes 24)
      prevLsn := .ofNat (readUint64 bytes 32)
      payload := bytes.drop recordHeaderSize
      lsn := physicalLsn }
  | none => throw (corruptRecord "Invalid WAL record type ID")

/-- What the check of a header leaves to the checksum. -/
structure RecordHeader (header : List UInt8) (lsn : Nat) : Prop where
  size : recordHeaderSize ≤ header.length
  magic : slice header 0 4 = recordMagic
  version : readUint16 header 4 = 1
  type : ∃ type, LogRecordType.ofCode? (readUint16 header 6) = some type
  total : recordHeaderSize ≤ readUint32 header 8 ∧ readUint32 header 8 ≤ maxRecordSize
  payload : readUint32 header 12 = readUint32 header 8 - recordHeaderSize
  position : readUint64 header 16 = lsn
  start : walHeaderSize ≤ lsn
  valid : isValidLsn lsn
  flags : readUint32 header 44 = 0
  previous : ¬ (isValidLsn (readUint64 header 32) ∧ lsn ≤ readUint64 header 32)

theorem validateRecordPrefix_ok {hdr : List UInt8} {u : Unit} :
    validateRecordPrefix hdr lsn = .ok u ↔ RecordHeader hdr lsn := by
  simp only [validateRecordPrefix, ok_iff, Option.isSome_iff_exists]
  constructor
  · rintro ⟨_, hz, _, hm, _, hvr, _, hy, _, ht, _, ⟨_, hp⟩, _, ⟨hs, hst, hv⟩, _, hf, hr⟩
    exact ⟨hz, hm, hvr, hy, ht, hp, hs, hst, hv, hf, hr⟩
  · intro h
    have hft : readUint32 hdr 12 ≤ maxPayloadSize := by
      have := h.total
      rw [h.payload]
      simp only [maxRecordSize, maxPayloadSize] at this ⊢
      omega
    exact ⟨(), h.size, (), h.magic, (), h.version, (), h.type, (), h.total, (),
      ⟨hft, h.payload⟩, (), ⟨h.position, h.start, h.valid⟩, (), h.flags, h.previous⟩

/-- A header is a header by its first 48 bytes alone. -/
theorem recordHeader_take {cnt : Nat} (hc : recordHeaderSize ≤ cnt) :
    RecordHeader (bs.take cnt) lsn ↔ RecordHeader bs lsn := by
  have hw : ∀ {off w : Nat}, off + w ≤ 48 → off + w ≤ cnt := by
    intro off w hle
    exact hle.trans hc
  have h16 : ∀ {off}, off + 2 ≤ 48 → readUint16 (bs.take cnt) off = readUint16 bs off :=
    fun hle => readLe_take (hw hle)
  have h32 : ∀ {off}, off + 4 ≤ 48 → readUint32 (bs.take cnt) off = readUint32 bs off :=
    fun hle => readLe_take (hw hle)
  have h64 : ∀ {off}, off + 8 ≤ 48 → readUint64 (bs.take cnt) off = readUint64 bs off :=
    fun hle => readLe_take (hw hle)
  have hg : slice (bs.take cnt) 0 4 = slice bs 0 4 := slice_take (hw (by decide))
  have hn : recordHeaderSize ≤ (bs.take cnt).length ↔ recordHeaderSize ≤ bs.length := by
    rw [List.length_take]
    omega
  constructor
  · rintro ⟨hz, hm, hv, ht, ho, hp, hps, hs, hl, hf, hr⟩
    rw [h32 (by decide)] at ho hf hp
    rw [h16 (by decide)] at hv ht
    rw [h64 (by decide)] at hps hr
    rw [h32 (by decide)] at hp
    exact ⟨hn.mp hz, hg ▸ hm, hv, ht, ho, hp, hps, hs, hl, hf, hr⟩
  · rintro ⟨hz, hm, hv, ht, ho, hp, hps, hs, hl, hf, hr⟩
    refine ⟨hn.mpr hz, hg.trans hm, ?_, ?_, ?_, ?_, ?_, hs, hl, ?_, ?_⟩
    · rw [h16 (by decide)]
      exact hv
    · rw [h16 (by decide)]
      exact ht
    · rw [h32 (by decide)]
      exact ho
    · rw [h32 (by decide), h32 (by decide)]
      exact hp
    · rw [h64 (by decide)]
      exact hps
    · rw [h32 (by decide)]
      exact hf
    · rw [h64 (by decide)]
      exact hr

/-! The codec is a bijection. -/

@[simp] theorem length_recordBytes (r : LogRecord) (lsn checksum : Nat) :
    (recordBytes r lsn checksum).length = recordHeaderSize + r.payload.length := by
  rw [recordBytes, List.length_append, length_fields]
  rfl

theorem encodeWalRecord_ok :
    encodeWalRecord r lsn = .ok bs ↔
      ((isValidLsn lsn ∧ walHeaderSize ≤ lsn) ∧ r.payload.length ≤ maxPayloadSize ∧
        ¬ (isValidLsn r.prevLsn.toNat ∧ lsn ≤ r.prevLsn.toNat)) ∧
      recordBytes r lsn (recordChecksum (recordBytes r lsn 0)) = bs := by
  simp only [encodeWalRecord, ok_iff]
  constructor
  · rintro ⟨_, hl, _, hp, _, hr, hb⟩
    exact ⟨⟨hl, hp, hr⟩, hb⟩
  · rintro ⟨⟨hl, hp, hr⟩, hb⟩
    exact ⟨(), hl, (), hp, (), hr, hb⟩

/-- How many bytes a record takes. -/
def encodedSize (record : LogRecord) : Nat := recordHeaderSize + record.payload.length

theorem length_of_encode (h : encodeWalRecord r lsn = .ok bs) : bs.length = encodedSize r := by
  unfold encodedSize
  rw [← (encodeWalRecord_ok.mp h).2, length_recordBytes]

theorem recordChecksum_recordBytes (r : LogRecord) (lsn checksum : Nat) :
    recordChecksum (recordBytes r lsn checksum) = recordChecksum (recordBytes r lsn 0) := by
  have hz : ∀ v, zeroed (recordBytes r lsn v) 40 4 = recordBytes r lsn 0 :=
    fun v => zeroed_fields ((recordHeader r lsn v).take 8) 4 v [(4, 0)] r.payload
  rw [recordChecksum, recordChecksum, hz, hz]

theorem decodeWalRecord_ok :
    decodeWalRecord bs lsn = .ok r ↔ RecordHeader bs lsn ∧ bs.length = readUint32 bs 8 ∧
      recordChecksum bs = readUint32 bs 40 ∧ LogRecordType.ofCode? (readUint16 bs 6) = some r.type ∧
      r.transactionId = .ofNat (readUint64 bs 24) ∧ r.prevLsn = .ofNat (readUint64 bs 32) ∧
      r.payload = bs.drop recordHeaderSize ∧ r.lsn = lsn := by
  simp only [decodeWalRecord, ok_iff, validateRecordPrefix_ok]
  cases ht : LogRecordType.ofCode? (readUint16 bs 6) with
  | none => simp
  | some type =>
    obtain ⟨rtype, rid, rprev, rpayload, rlsn⟩ := r
    simp only [pure_ok, LogRecord.mk.injEq, Option.some.injEq]
    constructor
    · rintro ⟨_, hh, _, hl, _, hs, rfl, rfl, rfl, rfl, rfl⟩
      exact ⟨hh, hl, hs, rfl, rfl, rfl, rfl, rfl⟩
    · rintro ⟨hh, hl, hs, rfl, rfl, rfl, rfl, rfl⟩
      exact ⟨(), hh, (), hl, (), hs, rfl, rfl, rfl, rfl, rfl⟩

/-- What was encoded at a position is decoded there. -/
theorem decode_encode (h : encodeWalRecord r lsn = .ok bs) :
    decodeWalRecord bs lsn = .ok { r with lsn } := by
  obtain ⟨⟨⟨hv, hst⟩, hp, hpr⟩, rfl⟩ := encodeWalRecord_ok.mp h
  have hls : lsn < 256 ^ 8 := hv.trans (by decide)
  generalize hs : recordChecksum (recordBytes r lsn 0) = checksum
  have hr := fun (n w v : Nat) (aft : List (Nat × Nat))
      (hl : (recordHeader r lsn checksum).drop n = (w, v) :: aft) => by
    have hf := readLe_fields ((recordHeader r lsn checksum).take n) w v aft r.payload
    rwa [← hl, List.take_append_drop] at hf
  have ht : readUint32 (recordBytes r lsn checksum) 8 = recordHeaderSize + r.payload.length := by
    refine (hr 3 4 _ _ rfl).trans (Nat.mod_eq_of_lt ?_)
    simp only [maxPayloadSize, recordHeaderSize] at hp ⊢
    omega
  have hy : readUint16 (recordBytes r lsn checksum) 6 = r.type.code :=
    (hr 2 2 _ _ rfl).trans (Nat.mod_eq_of_lt r.type.code_lt)
  have hn : readUint64 (recordBytes r lsn checksum) 32 = r.prevLsn.toNat :=
    (hr 7 8 _ _ rfl).trans (Nat.mod_eq_of_lt r.prevLsn.toNat_lt)
  have hle : recordHeaderSize ≤ (recordBytes r lsn checksum).length := by
    rw [length_recordBytes]
    exact Nat.le_add_right _ _
  refine decodeWalRecord_ok.mpr ⟨⟨hle, ?_, ?_, ?_, ?_, ?_, ?_, hst, hv, ?_, ?_⟩,
    ?_, ?_, ?_, ?_, ?_, ?_, rfl⟩
  · rfl
  · exact hr 1 2 _ _ rfl
  · exact ⟨r.type, by rw [hy, LogRecordType.ofCode?_code]⟩
  · rw [ht]
    simp only [maxPayloadSize, maxRecordSize, recordHeaderSize] at hp ⊢
    omega
  · rw [ht, Nat.add_sub_cancel_left]
    refine (hr 4 4 _ _ rfl).trans (Nat.mod_eq_of_lt ?_)
    simp only [maxPayloadSize, recordHeaderSize] at hp
    omega
  · exact (hr 5 8 _ _ rfl).trans (Nat.mod_eq_of_lt hls)
  · exact hr 9 4 _ _ rfl
  · rw [hn]
    exact hpr
  · rw [ht, length_recordBytes]
  · rw [recordChecksum_recordBytes, hs]
    refine ((hr 8 4 _ _ rfl).trans (Nat.mod_eq_of_lt ?_)).symm
    rw [← hs]
    exact crc32c_lt _
  · rw [hy, LogRecordType.ofCode?_code]
  · have hi : readUint64 (recordBytes r lsn checksum) 24 = r.transactionId.toNat :=
      (hr 6 8 _ _ rfl).trans (Nat.mod_eq_of_lt r.transactionId.toNat_lt)
    rw [hi, UInt64.ofNat_toNat]
  · rw [hn, UInt64.ofNat_toNat]
  · rfl

/-- What was accepted at a position is the encoding of what it was decoded to. -/
theorem encode_decode (h : decodeWalRecord bs lsn = .ok r) : encodeWalRecord r lsn = .ok bs := by
  obtain ⟨hh, hl, hs, hy, hi, hln, hp, rfl⟩ := decodeWalRecord_ok.mp h
  have hz : r.payload.length = bs.length - recordHeaderSize := by
    rw [hp, List.length_drop]
  have hr : r.prevLsn.toNat = readUint64 bs 32 := by
    rw [hln, UInt64.toNat_ofNat']
    exact Nat.mod_eq_of_lt readLe_lt
  have hf : recordHeader r r.lsn (readUint32 bs 40) =
      readFields bs 0 [4, 2, 2, 4, 4, 8, 8, 8, 4, 4] := by
    have ht : recordHeaderSize + r.payload.length = readUint32 bs 8 := by
      have := hh.size
      omega
    have hm : leValue recordMagic = readLe bs 0 4 := by rw [readLe, hh.magic]
    have hn : r.transactionId.toNat = readUint64 bs 24 := by
      rw [hi, UInt64.toNat_ofNat']
      exact Nat.mod_eq_of_lt readLe_lt
    show _ = [(4, readLe bs 0 4), (2, readUint16 bs 4), (2, readUint16 bs 6),
      (4, readUint32 bs 8), (4, readUint32 bs 12), (8, readUint64 bs 16),
      (8, readUint64 bs 24), (8, readUint64 bs 32), (4, readUint32 bs 40), (4, readUint32 bs 44)]
    rw [recordHeader, ht, hm, hn, hr, LogRecordType.code_of_ofCode? hy,
      hz, hl, hh.payload, hh.flags, hh.version, hh.position]
  have hb : recordBytes r r.lsn (readUint32 bs 40) = bs := by
    rw [recordBytes, hf, fields_readFields (by simpa [recordHeaderSize] using hh.size), hp]
    exact List.take_append_drop 48 bs
  refine encodeWalRecord_ok.mpr ⟨⟨⟨hh.valid, hh.start⟩, ?_, ?_⟩, ?_⟩
  · have := hh.total
    rw [hz, hl]
    simp only [maxPayloadSize, maxRecordSize] at this ⊢
    omega
  · rw [hr]
    exact hh.previous
  · rw [← recordChecksum_recordBytes r r.lsn (readUint32 bs 40), hb, hs, hb]

/-! The header of a single-file log: `wal_file_layout`. -/

def walFileMagic : List UInt8 := [0x4D, 0x44, 0x42, 0x57, 0x41, 0x4C, 0x30, 0x31]

def encodeWalFileHeader : List UInt8 :=
  walFileMagic ++ leBytes 4 1 ++ leBytes 4 walHeaderSize ++ leBytes 4 pageSize ++
    List.replicate 44 0

def validateWalFileHeader (bytes : List UInt8) : Result Unit := do
  require (bytes.length = walHeaderSize) (corruptHeader "WAL file header has the wrong size")
  require (slice bytes 0 8 = walFileMagic) (corruptHeader "Invalid WAL file magic")
  require (readUint32 bytes 8 = 1) (corruptHeader "Unsupported WAL file version")
  require (readUint32 bytes 12 = walHeaderSize) (corruptHeader "Invalid WAL file header size")
  require (readUint32 bytes 16 = pageSize)
    (corruptHeader "WAL page size does not match MiniDB++")
  require (readUint32 bytes 20 = 0 ∧ ∀ byte ∈ bytes.drop 24, byte = 0)
    (corruptHeader "WAL header reserved bytes are nonzero")

theorem validateWalFileHeader_encode : validateWalFileHeader encodeWalFileHeader = .ok () := by
  decide +kernel

theorem length_withFileHeader (body : List UInt8) :
    (encodeWalFileHeader ++ body).length = walHeaderSize + body.length := by
  rw [List.length_append]
  rfl

theorem take_withFileHeader (body : List UInt8) :
    (encodeWalFileHeader ++ body).take walHeaderSize = encodeWalFileHeader :=
  List.take_left' rfl

/-- There is one file header that is valid. -/
theorem eq_of_validateWalFileHeader (h : validateWalFileHeader bs = .ok ()) :
    bs = encodeWalFileHeader := by
  simp only [validateWalFileHeader, ok_iff] at h
  obtain ⟨_, hl, _, hm, _, hv, _, hs, _, hp, hz, hr⟩ := h
  have hf : leBytes 4 1 ++
    (leBytes 4 walHeaderSize ++ (leBytes 4 pageSize ++ (leBytes 4 0 ++ []))) =
      slice bs 8 16 := by
    rw [← hv, ← hs, ← hp, ← hz]
    exact @fields_readFields bs 8 [4, 4, 4, 4] (by rw [hl]; decide)
  have hd : bs.drop 24 = List.replicate 40 0 :=
    List.eq_replicate_iff.mpr ⟨by rw [List.length_drop, hl]; rfl, hr⟩
  have ha : bs = slice bs 0 8 ++ (slice bs 8 16 ++ bs.drop 24) := by
    rw [← drop_eq_slice_append, ← drop_eq_slice_append]
    rfl
  rw [ha, hm, ← hf, hd]
  rfl

end MiniDb.Wal
