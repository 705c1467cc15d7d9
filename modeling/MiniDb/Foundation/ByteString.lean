import MiniDb.Foundation.Bytes

/-!
Byte strings of any length, as lists, with little-endian integer fields. A field
is read at an offset and written as its bytes; a string that is a concatenation
of fields is read field by field, and every string is the concatenation of the
fields it is read as.
-/
namespace ByteString
open List

variable {a b bs : List UInt8} {off w : Nat}

/-- The low `width` bytes of `value`, least significant first. -/
def leBytes : (width value : Nat) → List UInt8
  | 0, _ => []
  | width + 1, value => UInt8.ofNat value :: leBytes width (value / 256)

def leValue : List UInt8 → Nat
  | [] => 0
  | byte :: bytes => byte.toNat + 256 * leValue bytes

def slice (bytes : List UInt8) (offset width : Nat) : List UInt8 :=
  (bytes.drop offset).take width

def readLe (bytes : List UInt8) (offset width : Nat) : Nat := leValue (slice bytes offset width)

/-- A layout: fields of given widths and values, one after the other. -/
def fields (layout : List (Nat × Nat)) : List UInt8 :=
  layout.flatMap fun field => leBytes field.1 field.2

def widths (layout : List (Nat × Nat)) : Nat := (layout.map Prod.fst).sum

/-- A string read as fields of the given widths from `offset` on. -/
def readFields (bytes : List UInt8) : (offset : Nat) → List Nat → List (Nat × Nat)
  | _, [] => []
  | offset, width :: rest =>
    (width, readLe bytes offset width) :: readFields bytes (offset + width) rest

/-- The string with the `width` bytes at `offset` set to zero. -/
def zeroed (bytes : List UInt8) (offset width : Nat) : List UInt8 :=
  bytes.mapIdx fun i byte => if offset ≤ i ∧ i < offset + width then 0 else byte

def crc32c (bytes : List UInt8) : Nat :=
  0xFFFFFFFF - bytes.foldl (fun crc byte => ByteBlock.crcByte crc byte.toNat) 0xFFFFFFFF

@[simp] theorem length_leBytes (w v : Nat) : (leBytes w v).length = w := by
  induction w generalizing v with
  | zero => rfl
  | succ w ih => simp [leBytes, ih]

theorem leValue_leBytes (w v : Nat) : leValue (leBytes w v) = v % 256 ^ w := by
  induction w generalizing v with
  | zero => simp [leBytes, leValue, Nat.mod_one]
  | succ w ih =>
    rw [leBytes, leValue, ih, UInt8.toNat_ofNat', show 256 ^ (w + 1) = 256 * 256 ^ w
      from Nat.pow_succ', Nat.mod_mul (x := v)]

theorem leBytes_leValue (bs : List UInt8) : leBytes bs.length (leValue bs) = bs := by
  induction bs with
  | nil => rfl
  | cons byte bs ih =>
    have hl := byte.toNat_lt
    have hq : (byte.toNat + 256 * leValue bs) / 256 = leValue bs := by omega
    have hb : UInt8.ofNat (byte.toNat + 256 * leValue bs) = byte := by
      apply UInt8.toNat_inj.mp
      rw [UInt8.toNat_ofNat']
      omega
    rw [leValue, length_cons, leBytes, hq, hb, ih]

theorem leValue_lt (bs : List UInt8) : leValue bs < 256 ^ bs.length := by
  rw [← leBytes_leValue bs, leValue_leBytes, length_leBytes]
  exact Nat.mod_lt _ (Nat.pow_pos (by decide))

theorem length_slice (h : off + w ≤ bs.length) : (slice bs off w).length = w := by
  rw [slice, length_take, length_drop]
  omega

theorem slice_append_left (h : off + w ≤ a.length) : slice (a ++ b) off w = slice a off w := by
  rw [slice, slice, drop_append_of_le_length (by omega), take_append_of_le_length]
  rw [length_drop]
  omega

theorem slice_append_right (h : a.length ≤ off) :
    slice (a ++ b) off w = slice b (off - a.length) w := by
  rw [slice, slice, drop_append, drop_eq_nil_of_le h, nil_append]

theorem slice_zero_append (a b : List UInt8) : slice (a ++ b) 0 a.length = a := by
  simp [slice]

theorem drop_eq_slice_append (bs : List UInt8) (off w : Nat) :
    bs.drop off = slice bs off w ++ bs.drop (off + w) := by
  rw [slice, ← drop_drop, take_append_drop]

theorem readLe_append_left (h : off + w ≤ a.length) : readLe (a ++ b) off w = readLe a off w := by
  rw [readLe, readLe, slice_append_left h]

theorem readLe_append_right (h : a.length ≤ off) :
    readLe (a ++ b) off w = readLe b (off - a.length) w := by
  rw [readLe, readLe, slice_append_right h]

theorem readLe_leBytes (w v : Nat) (rest : List UInt8) :
    readLe (leBytes w v ++ rest) 0 w = v % 256 ^ w := by
  have h := slice_zero_append (leBytes w v) rest
  rw [length_leBytes] at h
  rw [readLe, h, leValue_leBytes]

theorem leBytes_readLe (h : off + w ≤ bs.length) :
    leBytes w (readLe bs off w) = slice bs off w := by
  have hb := leBytes_leValue (slice bs off w)
  rwa [length_slice h] at hb

theorem readLe_lt : readLe bs off w < 256 ^ w := by
  refine (leValue_lt _).trans_le (Nat.pow_le_pow_right (by decide) ?_)
  rw [slice, length_take]
  exact min_le_left _ _

/-- A string read up to `count` is a field of it, or a field after that. -/
theorem readLe_take {cnt : Nat} (h : off + w ≤ cnt) :
    readLe (bs.take cnt) off w = readLe bs off w := by
  rw [readLe, readLe, slice, slice, drop_take, take_take]
  congr 2
  omega

theorem slice_take {cnt : Nat} (h : off + w ≤ cnt) :
    slice (bs.take cnt) off w = slice bs off w := by
  rw [slice, slice, drop_take, take_take]
  congr 1
  omega

theorem crc32c_lt (bs : List UInt8) : crc32c bs < 2 ^ 32 := by
  unfold crc32c
  omega

/-- What stands in the zeroed field does not matter. -/
theorem zeroed_field {field : List UInt8} (ha : a.length = off) (hf : field.length = w) :
    zeroed (a ++ (field ++ b)) off w = a ++ (replicate w 0 ++ b) := by
  subst ha hf
  apply ext_getElem?
  intro i
  rw [zeroed, getElem?_mapIdx]
  by_cases hl : i < a.length
  · rw [getElem?_append_left hl, getElem?_append_left hl, getElem?_eq_getElem hl]
    simp [hl.not_ge]
  · have hr := not_lt.mp hl
    rw [getElem?_append_right hr, getElem?_append_right hr]
    by_cases hm : i - a.length < field.length
    · rw [getElem?_append_left hm, getElem?_append_left (by simpa using hm),
        getElem?_eq_getElem hm, getElem?_replicate, if_pos hm, Option.map_some, if_pos (by omega)]
    · have hp := not_lt.mp hm
      rw [getElem?_append_right hp, getElem?_append_right (by simpa using hp), length_replicate]
      cases b[i - a.length - field.length]? with
      | none => rfl
      | some byte => rw [Option.map_some, if_neg (by omega)]

/-! Layouts. -/

@[simp] theorem fields_append (a b : List (Nat × Nat)) : fields (a ++ b) = fields a ++ fields b :=
  flatMap_append

@[simp] theorem fields_cons (w v : Nat) (rest : List (Nat × Nat)) :
    fields ((w, v) :: rest) = leBytes w v ++ fields rest := rfl

theorem length_fields (lay : List (Nat × Nat)) : (fields lay).length = widths lay := by
  induction lay with
  | nil => rfl
  | cons field lay ih =>
    rw [fields_cons, length_append, length_leBytes, ih, widths, widths, map_cons, sum_cons]

/-- Every field of a layout is read back where the fields before it end. -/
theorem readLe_fields (bef : List (Nat × Nat)) (w v : Nat) (aft : List (Nat × Nat))
    (rest : List UInt8) :
    readLe (fields (bef ++ (w, v) :: aft) ++ rest) (widths bef) w = v % 256 ^ w := by
  rw [fields_append, fields_cons, append_assoc, append_assoc, ← length_fields,
    readLe_append_right le_rfl, Nat.sub_self, readLe_leBytes]

theorem fields_readFields {lay : List Nat} (h : off + lay.sum ≤ bs.length) :
    fields (readFields bs off lay) = slice bs off lay.sum := by
  induction lay generalizing off with
  | nil => simp [readFields, fields, slice]
  | cons w lay ih =>
    rw [sum_cons] at h ⊢
    rw [readFields, fields_cons, ih (by omega), leBytes_readLe (by omega)]
    simp only [slice]
    rw [take_add, drop_drop]

theorem leBytes_zero (w : Nat) : leBytes w 0 = replicate w 0 := by
  induction w with
  | zero => rfl
  | succ w ih => rw [leBytes, Nat.zero_div, ih, replicate_succ]; rfl

theorem zeroed_fields (bef : List (Nat × Nat)) (w v : Nat) (aft : List (Nat × Nat))
    (rest : List UInt8) :
    zeroed (fields (bef ++ (w, v) :: aft) ++ rest) (widths bef) w =
      fields (bef ++ (w, 0) :: aft) ++ rest := by
  simp only [fields_append, fields_cons, append_assoc]
  rw [zeroed_field (length_fields bef) (length_leBytes w v), leBytes_zero]

end ByteString
