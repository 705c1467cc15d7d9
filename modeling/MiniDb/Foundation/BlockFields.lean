import MiniDb.Foundation.ByteString

/-!
Integer fields written into a block one behind the other. The block is then read as
those fields, and bytes outside of them keep what they were.
-/
namespace ByteBlock
open ByteString

/-- The layout lists the width and the value of each field, from `offset` on. -/
def writeLayout {n : Nat} (b : Block n) : (offset : Nat) → List (Nat × Nat) → Block n
  | _, [] => b
  | offset, (width, value) :: rest => writeLayout (writeLe b offset width value)
    (offset + width) rest

def Reads {n : Nat} (b : Block n) : (offset : Nat) → List (Nat × Nat) → Prop
  | _, [] => True
  | offset, (width, value) :: rest =>
    ByteBlock.readLe b offset width = value ∧ Reads b (offset + width) rest

variable {n off i : Nat} {a b : Block n} {lay rest : List (Nat × Nat)}

@[simp] theorem widths_cons {w v : Nat} : widths ((w, v) :: lay) = w + widths lay := rfl

@[simp] theorem widths_append : widths (lay ++ rest) = widths lay + widths rest := by
  simp [widths]

theorem byteAt_writeLayout (h : i < off ∨ off + widths lay ≤ i) :
    byteAt (writeLayout b off lay) i = byteAt b i := by
  induction lay generalizing b off with
  | nil => rfl
  | cons field rest ih =>
    obtain ⟨w, v⟩ := field
    rw [widths_cons] at h
    rw [writeLayout, ih (by omega), byteAt_writeLe_outside b (by omega)]

theorem Reads.congr (hr : Reads a off lay)
    (h : ∀ i, off ≤ i → i < off + widths lay → byteAt a i = byteAt b i) : Reads b off lay := by
  induction lay generalizing off with
  | nil => trivial
  | cons field rest ih =>
    obtain ⟨w, v⟩ := field
    rw [widths_cons] at h
    refine ⟨?_, ih hr.2 fun i hl hh => h i (by omega) (by omega)⟩
    rw [← hr.1]
    exact readLe_congr fun i hl hh => (h i hl (by omega)).symm

theorem reads_append :
    Reads b off (lay ++ rest) ↔ Reads b off lay ∧ Reads b (off + widths lay) rest := by
  induction lay generalizing off with
  | nil => exact (and_iff_right trivial).symm
  | cons field lay ih =>
    obtain ⟨w, v⟩ := field
    rw [List.cons_append, Reads, Reads, ih, and_assoc, widths_cons, add_assoc]

theorem reads_writeLayout (hv : ∀ field ∈ lay, field.2 < 256 ^ field.1)
    (hn : off + widths lay ≤ n) : Reads (writeLayout b off lay) off lay := by
  induction lay generalizing b off with
  | nil => trivial
  | cons field rest ih =>
    obtain ⟨w, v⟩ := field
    rw [widths_cons] at hn
    obtain ⟨hf, hr⟩ := List.forall_mem_cons.mp hv
    refine ⟨?_, ih hr (by omega)⟩
    have hk : ByteBlock.readLe (writeLayout (writeLe b off w v) (off + w) rest) off w =
        ByteBlock.readLe (writeLe b off w v) off w :=
      readLe_congr fun i _ hh => byteAt_writeLayout (.inl hh)
    rw [writeLayout, hk, readLe_writeLe_same b (by omega), Nat.mod_eq_of_lt hf]

/-- What a block is read as determines its bytes. -/
theorem Reads.byteAt_eq (ha : Reads a off lay) (hb : Reads b off lay) (hl : off ≤ i)
    (hi : i < off + widths lay) : byteAt a i = byteAt b i := by
  induction lay generalizing off with
  | nil => exact absurd hi (not_lt.mpr hl)
  | cons field rest ih =>
    obtain ⟨w, v⟩ := field
    rw [widths_cons] at hi
    by_cases hw : i < off + w
    · have he := byteAt_writeLe_readLe b a off w i
      rw [ha.1, ← hb.1, writeLe_readLe_same, if_pos ⟨hl, hw⟩] at he
      exact he.symm
    · exact ih ha.2 hb.2 (by omega) (by omega)

/-- Writing one of the fields changes that one alone. -/
theorem Reads.write {bef aft : List (Nat × Nat)} {w v v' : Nat}
    (h : Reads b off (bef ++ (w, v) :: aft)) (hv : v' < 256 ^ w) (hn : off + widths bef + w ≤ n) :
    Reads (writeLe b (off + widths bef) w v') off (bef ++ (w, v') :: aft) := by
  obtain ⟨hb, _, ha⟩ := reads_append.mp h
  refine reads_append.mpr ⟨hb.congr fun i _ hi => ?_, ?_, ha.congr fun i hi _ => ?_⟩
  · exact (byteAt_writeLe_outside b (.inl hi)).symm
  · rw [readLe_writeLe_same b hn, Nat.mod_eq_of_lt hv]
  · exact (byteAt_writeLe_outside b (.inr hi)).symm

end ByteBlock
