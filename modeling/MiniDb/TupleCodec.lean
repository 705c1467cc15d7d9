import MiniDb.Foundation.Bitmap
import MiniDb.Foundation.Codec
import MiniDb.Tables

/-!
The encoder of logical tuples, and that it is the inverse of the decoder: under one
schema a byte string decodes to a row just when it is the encoding of that row.
-/
namespace MiniDb.Sql
open Outcome ByteString Schema List

/-- What the switch of the encoder appends; the value has the type of its column. -/
def encodeValue : Value → List UInt8
  | .null => []
  | .uint32 value => leBytes 4 value.toNat
  | .int64 value => leBytes 8 value.toUInt64.toNat
  | .boolean value => [if value then 1 else 0]
  | .varchar value => leBytes 4 value.length ++ value

def setNull (bytes : List UInt8) (index : Nat) : List UInt8 :=
  bytes.set (tupleHeaderSize + index / 8)
    (UInt8.ofNat ((bytes.getD (tupleHeaderSize + index / 8) 0).toNat ||| 2 ^ (index % 8)))

def encodeColumn (bytes : List UInt8) (entry : Value × Nat) : Result (List UInt8) :=
  if entry.1 = .null then return setNull bytes entry.2
  else do
    let bytes := bytes ++ encodeValue entry.1
    require (bytes.length ≤ maxTupleSize)
      (.invalidArgument "Encoded logical tuple exceeds TupleStore inline capacity.")
    return bytes

def tupleHeader (columnCount encodedSize : Nat) : List UInt8 :=
  tupleMagic ++ fields [(4, 1), (4, tupleHeaderSize), (2, columnCount),
    (2, nullBitmapSize columnCount)] ++ leBytes 4 encodedSize

/-- `TupleCodec::encode`; the size goes into its field of the header last. -/
def encodeTuple (schema : Schema) (values : RowValues) : Result (List UInt8) := do
  schema.validateValues values
  let columnCount := schema.columns.length
  let bytes ← values.zipIdx.foldlM encodeColumn
    (tupleHeader columnCount 0 ++ List.replicate (nullBitmapSize columnCount) 0)
  require (bytes.length ≤ 2 ^ 32 - 1)
    (.overflowError "Encoded logical tuple exceeds its format size limit.")
  return bytes.take 20 ++ leBytes 4 bytes.length ++ bytes.drop 24

variable {bs : List UInt8} {col : ColumnDefinition} {v : Value} {row : RowValues}
  {sch : Schema} {off next n : Nat}

/-! The bitmap. -/

def markNulls : (bitmap : List UInt8) → (index : Nat) → RowValues → List UInt8
  | bitmap, _, [] => bitmap
  | bitmap, index, value :: rest =>
    markNulls (if value = .null then setBit bitmap index else bitmap) (index + 1) rest

theorem bitAt_markNulls {bitmap : List UInt8} {ix j : Nat}
    (h : ix + row.length ≤ 8 * bitmap.length) :
    (markNulls bitmap ix row).length = bitmap.length ∧ bitAt (markNulls bitmap ix row) j =
        (bitAt bitmap j || decide (ix ≤ j ∧ row[j - ix]? = some .null)) := by
  induction row generalizing bitmap ix with
  | nil => simp [markNulls]
  | cons v row ih =>
    rw [length_cons] at h
    have hj : decide (ix ≤ j ∧ (v :: row)[j - ix]? = some .null) =
        ((decide (j = ix) && decide (v = .null)) ||
          decide (ix + 1 ≤ j ∧ row[j - (ix + 1)]? = some .null)) := by
      rcases Nat.lt_trichotomy j ix with hlt | rfl | hlt
      · simp [hlt.not_ge, hlt.ne, (Nat.lt_succ_of_lt hlt).not_ge]
      · simp
      · obtain ⟨d, rfl⟩ := Nat.exists_eq_add_of_lt hlt
        have hd : ix + d + 1 - ix = d + 1 := by omega
        have hd' : ix + d + 1 - (ix + 1) = d := by omega
        simp [hd, hd', hlt.ne', show ix ≤ ix + d + 1 by omega]
    by_cases hv : v = .null
    · obtain ⟨hl, hb⟩ := @ih (setBit bitmap ix) (ix + 1) (by rw [length_setBit]; omega)
      rw [markNulls, if_pos hv, hl, hb, length_setBit, hj, bitAt_setBit (by omega)]
      simp [hv, Bool.or_comm, Bool.or_assoc]
    · obtain ⟨hl, hb⟩ := @ih bitmap (ix + 1) (by omega)
      rw [markNulls, if_neg hv, hl, hb, hj]
      simp [hv]

theorem isNull_slice {m j : Nat} (hj : j < 8 * m) :
    isNull bs j = bitAt (slice bs tupleHeaderSize m) j := by
  rw [isNull, bitAt, slice, getD_eq_getElem?_getD, getD_eq_getElem?_getD,
    getElem?_take_of_lt (by omega), getElem?_drop]

theorem length_markNulls {m : Nat} (h : row.length ≤ 8 * m) :
    (markNulls (replicate m 0) 0 row).length = m := by
  rw [(@bitAt_markNulls row (replicate m 0) 0 0 (by simpa using h)).1, length_replicate]

theorem holds_markNulls {m : Nat} (h : row.length ≤ 8 * m) :
    Holds bs tupleHeaderSize (markNulls (replicate m 0) 0 row) ↔ tupleHeaderSize + m ≤ bs.length ∧
        ∀ j < 8 * m, isNull bs j = decide (row[j]? = some .null) := by
  have hl := length_markNulls h
  have hb : ∀ j, bitAt (markNulls (replicate m 0) 0 row) j = decide (row[j]? = some .null) := by
    intro j
    have hz : bitAt (replicate m 0) j = false := by
      rw [bitAt, getD_eq_getElem?_getD, getElem?_replicate]
      split <;> simp
    rw [(@bitAt_markNulls row (replicate m 0) 0 j (by simpa using h)).2, hz]
    simp
  rw [Holds, hl]
  refine and_congr_right fun hle => ⟨?_, ?_⟩
  · intro hs j hj
    rw [isNull_slice hj, hs, hb]
  · intro hs
    refine bits_ext (by rw [length_slice hle, hl]) ?_
    intro j hj
    rw [length_slice hle] at hj
    rw [← isNull_slice hj, hb, hs j hj]

/-- The check of the last byte covers the bits behind the last column. -/
theorem unusedBits_zero {m : Nat} (hn : n ≤ 8 * m) (hm : 8 * m < n + 8) :
    (m * 8 - n = 0 ∨ (bs.getD (tupleHeaderSize + m - 1) 0).toNat < 2 ^ (8 - (m * 8 - n))) ↔
      ∀ j, n ≤ j → j < 8 * m → isNull bs j = false := by
  constructor
  · rintro (hz | hlt) j hj hj'
    · omega
    · rw [isNull, show tupleHeaderSize + j / 8 = tupleHeaderSize + m - 1 by omega]
      exact Nat.testBit_lt_two_pow (hlt.trans_le
        (Nat.pow_le_pow_right (by decide) (by omega)))
  · intro h
    rcases Nat.eq_zero_or_pos (m * 8 - n) with hz | hp
    · exact .inl hz
    · refine .inr (Nat.lt_pow_two_of_testBit _ fun i hi => ?_)
      by_cases h8 : i < 8
      · have hb := h (8 * (m - 1) + i) (by omega) (by omega)
        rw [isNull, show tupleHeaderSize + (8 * (m - 1) + i) / 8 = tupleHeaderSize + m - 1 by omega,
          show (8 * (m - 1) + i) % 8 = i by omega] at hb
        exact hb
      · exact Nat.testBit_lt_two_pow ((UInt8.toNat_lt _).trans_le
          (Nat.pow_le_pow_right (by decide) (not_lt.mp h8)))

/-! The loop of the encoder. -/

theorem setNull_append {hd bitmap body : List UInt8} {ix : Nat}
    (hh : hd.length = tupleHeaderSize) (hi : ix / 8 < bitmap.length) :
    setNull (hd ++ bitmap ++ body) ix = hd ++ setBit bitmap ix ++ body := by
  rw [append_assoc, append_assoc, ← setBit_append hi, setNull, ← hh,
    set_append_right _ _ (Nat.le_add_right _ _),
    getD_append_right _ _ _ _ (Nat.le_add_right _ _), Nat.add_sub_cancel_left, setBit]

theorem encodeColumns_ok {hd bitmap body out : List UInt8} {ix : Nat}
    (hh : hd.length = tupleHeaderSize) (hi : ix + row.length ≤ 8 * bitmap.length)
    (hle : (hd ++ bitmap ++ body).length ≤ maxTupleSize) :
    (row.zipIdx ix).foldlM encodeColumn (hd ++ bitmap ++ body) = .ok out ↔
      (hd ++ bitmap ++ (body ++ row.flatMap encodeValue)).length ≤ maxTupleSize ∧
        hd ++ markNulls bitmap ix row ++ (body ++ row.flatMap encodeValue) = out := by
  induction row generalizing bitmap body ix with
  | nil => simpa [markNulls] using fun _ => hle
  | cons v row ih =>
    rw [length_cons] at hi
    rw [zipIdx_cons, foldlM_cons, bind_ok, markNulls, flatMap_cons]
    by_cases hv : v = .null
    · simp only [encodeColumn, hv, if_true, pure_ok, exists_eq_left', encodeValue, nil_append]
      rw [setNull_append hh (by omega), ih (by rw [length_setBit]; omega) (by simpa using hle)]
      simp only [length_append, length_setBit]
    · simp only [encodeColumn, hv, if_false, ok_iff, exists_const]
      constructor
      · rintro ⟨_, ⟨hs, rfl⟩, h⟩
        rw [append_assoc (hd ++ bitmap)] at h hs
        rw [← append_assoc body]
        exact (ih (by omega) hs).mp h
      · rintro ⟨hs, rfl⟩
        have hp : (hd ++ bitmap ++ (body ++ encodeValue v)).length ≤ maxTupleSize := by
          simp only [length_append] at hs ⊢
          omega
        rw [append_assoc (hd ++ bitmap)]
        refine ⟨_, ⟨hp, rfl⟩, (ih (by omega) hp).mpr ?_⟩
        rw [append_assoc body]
        exact ⟨hs, rfl⟩

/-! Values. -/

theorem requireRange_ok {w : Nat} {u : Unit} :
    requireRange bs off w = .ok u ↔ off + w ≤ bs.length := by
  rw [requireRange, require_ok]
  omega

theorem encodedBoolean {byte : UInt8} {x : Bool} :
    byte ≤ 1 ∧ decide (byte = 1) = x ↔ byte = if x then 1 else 0 := by
  rw [UInt8.le_iff_toNat_le]
  cases x <;> simp only [decide_eq_true_eq, decide_eq_false_iff_not, ← UInt8.toNat_inj] <;>
    simp only [Bool.false_eq_true, if_true, if_false] <;> simp <;> omega

theorem decodeValue_ok (hb : bs.length ≤ maxTupleSize) :
    decodeValue bs col off = .ok (next, v) ↔ v ≠ .null ∧
      validateValue col v = .ok () ∧ Holds bs off (encodeValue v) ∧
        next = off + (encodeValue v).length := by
  have hm : maxTupleSize = 4040 := rfl
  cases hc : col.type with
  | uint32 =>
    simp only [decodeValue, hc, ok_iff, requireRange_ok, exists_const]
    cases v with
    | uint32 x =>
      have hlt : Wal.readUint32 bs off < 2 ^ 32 := readLe_lt
      have hx : UInt32.ofNat (Wal.readUint32 bs off) = x ↔ Wal.readUint32 bs off = x.toNat := by
        rw [← UInt32.toNat_inj, UInt32.toNat_ofNat', Nat.mod_eq_of_lt hlt]
      rw [encodeValue, holds_leBytes (UInt32.toNat_lt x), length_leBytes, Value.uint32.injEq, hx]
      simp [validateValue, hc, Wal.readUint32, and_comm, and_left_comm, eq_comm (a := next)]
    | _ => simp [validateValue, hc]
  | int64 =>
    simp only [decodeValue, hc, ok_iff, requireRange_ok, exists_const]
    cases v with
    | int64 x =>
      have hlt : Wal.readUint64 bs off < 2 ^ 64 := readLe_lt
      have hx : (UInt64.ofNat (Wal.readUint64 bs off)).toInt64 = x ↔
          Wal.readUint64 bs off = x.toUInt64.toNat := by
        rw [← Nat.mod_eq_of_lt hlt, ← UInt64.toNat_ofNat', UInt64.toNat_inj, UInt64.ofNat_toNat]
        exact ⟨fun h => by rw [← h, UInt64.toUInt64_toInt64],
          fun h => by rw [h, Int64.toInt64_toUInt64]⟩
      rw [encodeValue, holds_leBytes (UInt64.toNat_lt _), length_leBytes, Value.int64.injEq, hx]
      simp [validateValue, hc, Wal.readUint64, and_comm, and_left_comm, eq_comm (a := next)]
    | _ => simp [validateValue, hc]
  | boolean =>
    simp only [decodeValue, hc, ok_iff, requireRange_ok, exists_const]
    cases v with
    | boolean x =>
      have hs : Holds bs off [if x then 1 else 0] ↔
          off + 1 ≤ bs.length ∧ bs.getD off 0 = if x then 1 else 0 := by
        refine and_congr_right fun hle => ?_
        have ho : off < bs.length := hle
        simp [slice, take_one, head?_drop, ho]
      rw [encodeValue, hs, ← encodedBoolean, Value.boolean.injEq]
      simp [validateValue, hc, and_comm, and_left_comm, and_assoc, eq_comm (a := next)]
    | _ => simp [validateValue, hc]
  | varchar =>
    simp only [decodeValue, hc, ok_iff, requireRange_ok, exists_const]
    cases v with
    | varchar x =>
      constructor
      · rintro ⟨h4, hmx, hle, rfl, hx⟩
        obtain ⟨hl, hh⟩ := holds_iff_slice.mpr ⟨hle, Value.varchar.inj hx⟩
        have hlt : x.length < 256 ^ 4 := hl ▸ readLe_lt
        rw [encodeValue, holds_append, holds_leBytes hlt, length_append, length_leBytes]
        refine ⟨by simp, ?_, ⟨⟨h4, hl.symm⟩, hh⟩, by omega⟩
        simp [validateValue, hc, hl, hmx]
      · rintro ⟨_, hv, hh, rfl⟩
        rw [encodeValue, holds_append, length_leBytes] at hh
        have hlt : x.length < 256 ^ 4 := by
          have hle := hh.2.1
          omega
        rw [holds_leBytes hlt] at hh
        obtain ⟨⟨h4, hr⟩, hx⟩ := hh
        obtain ⟨hle, hs⟩ := holds_iff_slice.mp ⟨rfl, hx⟩
        have hv : x.length ≤ col.varcharMaxBytes := by
          simpa [validateValue, hc] using hv
        rw [show Wal.readUint32 bs off = x.length from hr]
        refine ⟨h4, hv, hle, ?_, congrArg Value.varchar hs⟩
        rw [encodeValue, length_append, length_leBytes, add_assoc]
    | _ => simp [validateValue, hc]

/-! The loop of the decoder. -/

theorem decodeColumn_ok {acc out : RowValues} {ix : Nat} (hb : bs.length ≤ maxTupleSize)
    (ho : off ≤ bs.length) :
    decodeColumn bs (off, acc) (col, ix) = .ok (next, out) ↔ ∃ v, acc ++ [v] = out ∧
      validateValue col v = .ok () ∧ isNull bs ix = decide (v = .null) ∧
        Holds bs off (encodeValue v) ∧ next = off + (encodeValue v).length := by
  unfold decodeColumn
  split
  · rename_i hz
    simp only at hz
    simp only [ok_iff, exists_const]
    constructor
    · rintro ⟨hn, rfl, rfl⟩
      exact ⟨.null, rfl, by simp [validateValue, hn], by simp [hz], by simp [encodeValue, ho], rfl⟩
    · rintro ⟨v, rfl, hv, hd, _, rfl⟩
      rw [hz, eq_comm, decide_eq_true_eq] at hd
      subst hd
      exact ⟨by simpa [validateValue] using hv, rfl, rfl⟩
  · rename_i hz
    simp only [Bool.not_eq_true] at hz
    simp only [ok_iff, Prod.exists, decodeValue_ok hb]
    constructor
    · rintro ⟨_, v, ⟨hnn, hv, hh, rfl⟩, rfl, rfl⟩
      exact ⟨v, rfl, hv, by simp [hz, hnn], hh, rfl⟩
    · rintro ⟨v, rfl, hv, hd, hh, rfl⟩
      rw [hz, eq_comm, decide_eq_false_iff_not] at hd
      exact ⟨_, v, ⟨hd, hv, hh, rfl⟩, rfl, rfl⟩

theorem decodeColumns_ok {columns : List ColumnDefinition} {ix : Nat} {acc out : RowValues}
    (hb : bs.length ≤ maxTupleSize) (ho : off ≤ bs.length) :
    (columns.zipIdx ix).foldlM (decodeColumn bs) (off, acc) = .ok (next, out) ↔
      ∃ row, acc ++ row = out ∧ (row.length = columns.length ∧
        ∀ ent ∈ columns.zip row, validateValue ent.1 ent.2 = .ok ()) ∧
        (∀ j < columns.length, isNull bs (ix + j) = decide (row[j]? = some .null)) ∧
        Holds bs off (row.flatMap encodeValue) ∧ next = off + (row.flatMap encodeValue).length := by
  induction columns generalizing ix off acc with
  | nil =>
    constructor
    · rintro ⟨⟩
      exact ⟨[], by simp [ho]⟩
    · rintro ⟨row, rfl, ⟨hl, _⟩, _, _, rfl⟩
      obtain rfl := length_eq_zero_iff.mp hl
      simp [pure, Except.pure]
  | cons col columns ih =>
    rw [zipIdx_cons, foldlM_cons, bind_ok]
    simp only [Prod.exists, decodeColumn_ok hb ho]
    constructor
    · rintro ⟨_, _, ⟨v, rfl, hv, hz, hh, rfl⟩, h⟩
      obtain ⟨row, rfl, ⟨hl, hvs⟩, hzs, hs, rfl⟩ := (ih hh.1).mp h
      refine ⟨v :: row, by simp, ⟨by simp [hl], ?_⟩, ?_, ?_, ?_⟩
      · rw [zip_cons_cons, forall_mem_cons]
        exact ⟨hv, hvs⟩
      · rw [length_cons, Nat.forall_lt_succ_left]
        refine ⟨by simpa using hz, fun j hj => ?_⟩
        rw [← add_assoc, Nat.add_right_comm]
        exact hzs j hj
      · rw [flatMap_cons]
        exact holds_append.mpr ⟨hh, hs⟩
      · rw [flatMap_cons, length_append, add_assoc]
    · rintro ⟨row, rfl, ⟨hl, hvs⟩, hzs, hs, rfl⟩
      obtain ⟨v, row, rfl⟩ := exists_cons_of_length_eq_add_one hl
      rw [zip_cons_cons, forall_mem_cons] at hvs
      rw [length_cons, Nat.forall_lt_succ_left] at hzs
      rw [flatMap_cons, holds_append] at hs
      refine ⟨_, _, ⟨v, rfl, hvs.1, by simpa using hzs.1, hs.1, rfl⟩, (ih hs.1.1).mpr
        ⟨row, by simp, ⟨Nat.succ.inj hl, hvs.2⟩, fun j hj => ?_, hs.2, ?_⟩⟩
      · rw [Nat.add_right_comm, add_assoc]
        exact hzs.2 j hj
      · rw [flatMap_cons, length_append, add_assoc]

/-! Whole tuples. -/

def tupleBytes (columnCount : Nat) (row : RowValues) : List UInt8 :=
  let size := tupleHeaderSize + nullBitmapSize columnCount + (row.flatMap encodeValue).length
  tupleHeader columnCount size ++
    markNulls (List.replicate (nullBitmapSize columnCount) 0) 0 row ++ row.flatMap encodeValue

theorem length_tupleHeader (n size : Nat) : (tupleHeader n size).length = tupleHeaderSize := by
  simp [tupleHeader, length_fields, widths, tupleMagic, tupleHeaderSize]

theorem tupleHeader_resized (n size : Nat) (bitmap body : List UInt8) :
    (tupleHeader n 0 ++ bitmap ++ body).take 20 ++ leBytes 4 size ++
      (tupleHeader n 0 ++ bitmap ++ body).drop 24 = tupleHeader n size ++ bitmap ++ body := by
  have hd : (tupleHeader n 0 ++ (bitmap ++ body)).drop 24 = bitmap ++ body :=
    drop_left' (length_tupleHeader n 0)
  have ht : (tupleHeader n 0 ++ (bitmap ++ body)).take 20 = tupleMagic ++ fields [(4, 1),
      (4, tupleHeaderSize), (2, n), (2, nullBitmapSize n)] := by
    rw [tupleHeader, append_assoc _ (leBytes 4 0)]
    exact take_left' rfl
  rw [append_assoc _ bitmap, hd, ht, ← append_assoc _ bitmap, tupleHeader]

theorem holds_tupleHeader {size : Nat} (hn : n ≤ maxSchemaColumns) (hs : size < 256 ^ 4) :
    Holds bs 0 (tupleHeader n size) ↔ tupleHeaderSize ≤ bs.length ∧ bs.take 8 = tupleMagic ∧
      Wal.readUint32 bs 8 = 1 ∧ Wal.readUint32 bs 12 = tupleHeaderSize ∧
      Wal.readUint16 bs 16 = n ∧ Wal.readUint16 bs 18 = nullBitmapSize n ∧
      Wal.readUint32 bs 20 = size := by
  have ha : maxSchemaColumns = 1024 := rfl
  have hm : nullBitmapSize n = (n + 7) / 8 := rfl
  have hlt : ∀ field ∈ [(4, 1), (4, tupleHeaderSize), (2, n), (2, nullBitmapSize n)],
      field.2 < 256 ^ field.1 := by
    simp only [forall_mem_cons, not_mem_nil, false_implies, implies_true, and_true]
    exact ⟨by decide, by decide, by omega, by omega⟩
  rw [tupleHeader, holds_append, holds_append, holds_fields hlt, holds_leBytes hs,
    length_append, length_fields]
  constructor
  · rintro ⟨⟨⟨_, hg⟩, _, h8, h12, h16, h18, _⟩, hle, h20⟩
    exact ⟨hle, hg, h8, h12, h16, h18, h20⟩
  · rintro ⟨hle, hg, h8, h12, h16, h18, h20⟩
    have h20' : 20 ≤ bs.length := Nat.le_trans (by decide) hle
    exact ⟨⟨⟨Nat.le_trans (by decide) hle, hg⟩, h20', h8, h12, h16, h18, trivial⟩, hle, h20⟩

theorem nullBitmapSize_bounds (n : Nat) :
    n ≤ 8 * nullBitmapSize n ∧ 8 * nullBitmapSize n < n + 8 := by
  unfold nullBitmapSize
  omega

theorem eq_tupleBytes (hl : row.length = n) :
    bs = tupleBytes n row ↔ Holds bs 0 (tupleHeader n bs.length) ∧
      (tupleHeaderSize + nullBitmapSize n ≤ bs.length ∧
        ∀ j < 8 * nullBitmapSize n, isNull bs j = decide (row[j]? = some .null)) ∧
      Holds bs (tupleHeaderSize + nullBitmapSize n) (row.flatMap encodeValue) ∧
      tupleHeaderSize + nullBitmapSize n + (row.flatMap encodeValue).length = bs.length := by
  have hm : row.length ≤ 8 * nullBitmapSize n := hl ▸ (nullBitmapSize_bounds n).1
  rw [← holds_all, tupleBytes, holds_append, holds_append]
  simp only [length_append, length_tupleHeader, length_markNulls hm, zero_add,
    holds_markNulls hm, and_assoc]
  constructor
  · rintro ⟨hh, hr, hbm, hb, hlen⟩
    exact ⟨hlen ▸ hh, hr, hbm, hb, hlen⟩
  · rintro ⟨hh, hr, hbm, hb, hlen⟩
    exact ⟨hlen ▸ hh, hr, hbm, hb, hlen⟩

theorem length_tupleBytes (hl : row.length = n) : (tupleBytes n row).length =
    tupleHeaderSize + nullBitmapSize n + (row.flatMap encodeValue).length := by
  have hm : row.length ≤ 8 * nullBitmapSize n := hl ▸ (nullBitmapSize_bounds n).1
  simp only [tupleBytes, length_append, length_tupleHeader, length_markNulls hm]

theorem encodeTuple_ok (hn : sch.columns.length ≤ maxSchemaColumns) :
    encodeTuple sch row = .ok bs ↔ sch.validateValues row = .ok () ∧
      bs.length ≤ maxTupleSize ∧ bs = tupleBytes sch.columns.length row := by
  have ha : maxTupleSize = 4040 := rfl
  have hsc : maxSchemaColumns = 1024 := rfl
  obtain ⟨hm, hm'⟩ := nullBitmapSize_bounds sch.columns.length
  simp only [encodeTuple, ok_iff]
  rw [Unique.exists_iff]
  refine and_congr_right fun hv => ?_
  obtain ⟨hl, _⟩ := validateValues_ok.mp hv
  have hb : row.length ≤ 8 * nullBitmapSize sch.columns.length := hl ▸ hm
  have hc := fun out => @encodeColumns_ok row (tupleHeader sch.columns.length 0)
    (replicate (nullBitmapSize sch.columns.length) 0) [] out 0 (length_tupleHeader _ _)
    (by simpa using hb) (by simp [length_tupleHeader, tupleHeaderSize]; omega)
  simp only [append_nil, nil_append, length_append, length_tupleHeader, length_replicate] at hc
  simp only [hc]
  have hlen := length_tupleBytes hl
  have ho : (tupleHeader sch.columns.length 0 ++ markNulls (replicate
      (nullBitmapSize sch.columns.length) 0) 0 row ++ row.flatMap encodeValue).length =
        (tupleBytes sch.columns.length row).length := by
    simp only [hlen, length_append, length_tupleHeader, length_markNulls hb]
  constructor
  · rintro ⟨_, ⟨hs, rfl⟩, _, _, rfl⟩
    rw [ho, hlen, tupleHeader_resized]
    exact ⟨hlen.le.trans hs, rfl⟩
  · rintro ⟨hs, rfl⟩
    refine ⟨_, ⟨by omega, rfl⟩, (), by omega, ?_⟩
    rw [ho, hlen, tupleHeader_resized]
    rfl

theorem decodeTuple_ok (hn : sch.columns.length ≤ maxSchemaColumns) :
    decodeTuple sch bs = .ok row ↔ sch.validateValues row = .ok () ∧
      bs.length ≤ maxTupleSize ∧ bs = tupleBytes sch.columns.length row := by
  have hx : maxTupleSize = 4040 := rfl
  obtain ⟨hm, hm'⟩ := nullBitmapSize_bounds sch.columns.length
  constructor
  · intro h
    have hv := decodeTuple_valid h
    obtain ⟨hl, _⟩ := validateValues_ok.mp hv
    simp only [decodeTuple, ok_iff, requireRange_ok] at h
    obtain ⟨_, ⟨h24, hb, hg⟩, _, he, _, ⟨hs, hc, hbm, hz⟩, _, hr, _, hu, ⟨last, values⟩,
      hf, _, ha, h⟩ := h
    have ho : values = row := by
      split at h
      · exact pure_ok.mp h
      · cases h
      · cases h
    subst ho
    rw [hbm] at hr hu hf
    obtain ⟨_, rfl, _, hzs, hh, rfl⟩ := (decodeColumns_ok hb hr).mp hf
    refine ⟨hv, hb, (eq_tupleBytes hl).mpr ⟨(holds_tupleHeader hn (by omega)).mpr
      ⟨h24, hg, he, hs, hc, hbm, hz⟩, ⟨hr, ?_⟩, hh, ha⟩⟩
    intro j hj
    rcases Nat.lt_or_ge j sch.columns.length with hjn | hjn
    · simpa using hzs j hjn
    · rw [(unusedBits_zero hm hm').mp hu j hjn hj, getElem?_eq_none (hl ▸ hjn)]
      rfl
  · rintro ⟨hv, hb, hbs⟩
    have hvs := validateValues_ok.mp hv
    obtain ⟨hd, ⟨hr, hi⟩, hh, hlen⟩ := (eq_tupleBytes hvs.1).mp hbs
    obtain ⟨h24, hg, he, hs, hc, hbm, hz⟩ := (holds_tupleHeader hn (by omega)).mp hd
    simp only [decodeTuple, ok_iff, requireRange_ok, hbm]
    refine ⟨(), ⟨h24, hb, hg⟩, (), he, (), ⟨hs, hc, trivial, hz⟩, (), hr, (),
      (unusedBits_zero hm hm').mpr ?_, (_, row),
      (decodeColumns_ok hb hr).mpr ⟨row, rfl, hvs, ?_, hh, rfl⟩, (), hlen, ?_⟩
    · intro j hj hj'
      rw [hi j hj', getElem?_eq_none (hvs.1 ▸ hj)]
      rfl
    · intro j hj
      rw [zero_add]
      exact hi j (hj.trans_le hm)
    · rw [hv]
      rfl

/-- Under a schema, a string decodes to a row just when it is the encoding of the row. -/
theorem tuple_codec_bijective {columns : List ColumnDefinition} {sch : Schema}
    (hschema : create columns = .ok sch) (bytes : List UInt8) (row : RowValues) :
    decodeTuple sch bytes = .ok row ↔ encodeTuple sch row = .ok bytes := by
  have hcount := create_columnCount hschema
  rw [decodeTuple_ok hcount, encodeTuple_ok hcount]

def noteColumns : List ColumnDefinition :=
  [⟨[105, 100], .uint32, false, true, 0⟩, ⟨[97], .varchar, true, false, 8⟩,
    ⟨[98], .int64, true, false, 0⟩, ⟨[99], .boolean, false, false, 0⟩]

/-- A row with a string and, in its third column, no value. -/
theorem tuple_codec_bijective_id :
    encodeTuple ⟨noteColumns⟩ [.uint32 7, .varchar [104, 105], .null, .boolean true] = .ok
      (tupleHeader 4 36 ++ [4, 7, 0, 0, 0, 2, 0, 0, 0, 104, 105, 1]) :=
  (tuple_codec_bijective (show create noteColumns = .ok ⟨noteColumns⟩ by rfl) _ _).mp (by rfl)

end MiniDb.Sql
