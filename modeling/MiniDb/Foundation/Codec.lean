import MiniDb.Foundation.ByteString
import MiniDb.Foundation.Outcome

/-!
Decoders that walk over a byte string with a cursor. Such a decoder is exact if it
returns a value just when the bytes at the cursor are the encoding of that value; a
counted list of items is then exact if each item is.
-/
namespace ByteString
open Outcome List

/-- The string has these bytes at the cursor. -/
def Holds (bytes : List UInt8) (cursor : Nat) (item : List UInt8) : Prop :=
  cursor + item.length ≤ bytes.length ∧ slice bytes cursor item.length = item

/-- The string is read as the fields of the layout from `offset` on. -/
def Reads (bytes : List UInt8) : (offset : Nat) → (layout : List (Nat × Nat)) → Prop
  | _, [] => True
  | offset, (width, value) :: rest =>
    readLe bytes offset width = value ∧ Reads bytes (offset + width) rest

abbrev Decoder (ε α : Type) := List UInt8 → Nat → Except ε (Nat × α)

def Exact {ε α : Type} (accepts : α → Prop) (encode : α → List UInt8) (decode : Decoder ε α) :
    Prop :=
  ∀ bytes cursor next value, cursor ≤ bytes.length →
    (decode bytes cursor = .ok (next, value) ↔
      accepts value ∧ Holds bytes cursor (encode value) ∧ next = cursor + (encode value).length)

def decodeMany {ε α : Type} (decode : Decoder ε α) : Nat → Decoder ε (List α)
  | 0, _, cursor => .ok (cursor, [])
  | count + 1, bytes, cursor => do
    let (cursor, value) ← decode bytes cursor
    let (cursor, values) ← decodeMany decode count bytes cursor
    return (cursor, value :: values)

variable {bs a b : List UInt8} {off w v : Nat}

theorem holds_append : Holds bs off (a ++ b) ↔ Holds bs off a ∧ Holds bs (off + a.length) b := by
  simp only [Holds, slice, length_append, take_add, drop_drop]
  constructor
  · rintro ⟨hle, h⟩
    obtain ⟨ha, hb⟩ := append_inj h (by rw [length_take, length_drop]; omega)
    exact ⟨⟨by omega, ha⟩, by omega, hb⟩
  · rintro ⟨⟨_, ha⟩, hle, hb⟩
    exact ⟨by omega, by rw [ha, hb]⟩

@[simp] theorem holds_nil : Holds bs off [] ↔ off ≤ bs.length := by
  simp [Holds, slice]

theorem holds_leBytes (hv : v < 256 ^ w) :
    Holds bs off (leBytes w v) ↔ off + w ≤ bs.length ∧ readLe bs off w = v := by
  rw [Holds, length_leBytes]
  refine and_congr_right fun hle => ⟨fun h => ?_, fun h => ?_⟩
  · rw [readLe, h, leValue_leBytes, Nat.mod_eq_of_lt hv]
  · rw [← leBytes_readLe hle, h]

theorem holds_fields {lay : List (Nat × Nat)} (hlt : ∀ field ∈ lay, field.2 < 256 ^ field.1) :
    Holds bs off (fields lay) ↔ off + widths lay ≤ bs.length ∧ Reads bs off lay := by
  induction lay generalizing off with
  | nil => simp [fields, widths, Reads]
  | cons field rest ih =>
    obtain ⟨w, v⟩ := field
    obtain ⟨hv, hs⟩ := forall_mem_cons.mp hlt
    have hw : widths ((w, v) :: rest) = w + widths rest := rfl
    rw [fields_cons, holds_append, holds_leBytes hv, length_leBytes, ih hs, hw, Reads]
    constructor
    · rintro ⟨⟨_, h⟩, hle, hr⟩
      exact ⟨by omega, h, hr⟩
    · rintro ⟨hle, h, hr⟩
      exact ⟨⟨by omega, h⟩, by omega, hr⟩

theorem holds_iff_slice :
    a.length = w ∧ Holds bs off a ↔ off + w ≤ bs.length ∧ slice bs off w = a := by
  constructor
  · rintro ⟨rfl, h⟩
    exact h
  · rintro ⟨hle, rfl⟩
    refine ⟨length_slice hle, ?_⟩
    rw [Holds, length_slice hle]
    exact ⟨hle, rfl⟩

/-- Nothing is left behind the item. -/
theorem holds_all : Holds bs 0 a ∧ a.length = bs.length ↔ bs = a := by
  constructor
  · rintro ⟨⟨_, h⟩, hl⟩
    rw [hl, slice, drop_zero, take_length] at h
    exact h
  · rintro rfl
    exact ⟨⟨by omega, by simp [slice]⟩, rfl⟩

theorem Exact.many {ε α : Type} {accepts : α → Prop} {encode : α → List UInt8}
    {decode : Decoder ε α} (h : Exact accepts encode decode) (cnt : Nat) :
    Exact (fun values => values.length = cnt ∧ ∀ val ∈ values, accepts val)
      (·.flatMap encode) (decodeMany decode cnt) := by
  induction cnt with
  | zero =>
    intro bs off next values ho
    simp only [decodeMany, ok_iff]
    constructor
    · rintro ⟨rfl, rfl⟩
      simp [ho]
    · rintro ⟨⟨hl, _⟩, _, hn⟩
      obtain rfl := length_eq_zero_iff.mp hl
      exact ⟨hn.symm, rfl⟩
  | succ cnt ih =>
    intro bs off next values ho
    simp only [decodeMany, ok_iff, Prod.exists]
    constructor
    · rintro ⟨mid, val, hd, last, rest, hm, rfl, rfl⟩
      obtain ⟨ha, hh, rfl⟩ := (h bs off mid val ho).mp hd
      obtain ⟨⟨hl, hal⟩, hr, rfl⟩ := (ih bs _ last rest hh.1).mp hm
      refine ⟨⟨by rw [length_cons, hl], forall_mem_cons.mpr ⟨ha, hal⟩⟩, ?_, ?_⟩
      · rw [flatMap_cons]
        exact holds_append.mpr ⟨hh, hr⟩
      · rw [flatMap_cons, length_append, add_assoc]
    · rintro ⟨⟨hl, ha⟩, hh, rfl⟩
      obtain ⟨val, rest, rfl⟩ := exists_cons_of_length_eq_add_one hl
      obtain ⟨hv, hr⟩ := forall_mem_cons.mp ha
      rw [flatMap_cons] at hh ⊢
      obtain ⟨hh, ht⟩ := holds_append.mp hh
      refine ⟨_, val, (h bs off _ val ho).mpr ⟨hv, hh, rfl⟩, _, rest,
        (ih bs _ _ rest hh.1).mpr ⟨⟨Nat.succ.inj hl, hr⟩, ht, rfl⟩, ?_, rfl⟩
      rw [length_append, add_assoc]

end ByteString
