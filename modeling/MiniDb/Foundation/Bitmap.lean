import Mathlib.Data.List.GetD
import MiniDb.Foundation.ByteString

/-!
Bitmaps in byte strings, the least significant bit of each byte first.
-/
namespace ByteString

variable {a b : List UInt8} {i j : Nat}

def bitAt (bytes : List UInt8) (index : Nat) : Bool :=
  (bytes.getD (index / 8) 0).toNat.testBit (index % 8)

def setBit (bytes : List UInt8) (index : Nat) : List UInt8 :=
  bytes.set (index / 8) (UInt8.ofNat ((bytes.getD (index / 8) 0).toNat ||| 2 ^ (index % 8)))

@[simp] theorem length_setBit : (setBit a i).length = a.length := by
  simp [setBit]

theorem setBit_append (h : i / 8 < a.length) : setBit (a ++ b) i = setBit a i ++ b := by
  rw [setBit, setBit, List.set_append, if_pos h, List.getD_append _ _ _ _ h]

theorem bitAt_setBit (h : i / 8 < a.length) :
    bitAt (setBit a i) j = (decide (j = i) || bitAt a j) := by
  by_cases hb : j / 8 = i / 8
  · have hj : decide (j = i) = decide (i % 8 = j % 8) := by
      rw [decide_eq_decide]
      omega
    have hm : j % 8 < 8 := Nat.mod_lt _ (by decide)
    rw [bitAt, setBit, hb, List.getD_eq_getElem _ _ (by simpa using h), List.getElem_set_self,
      UInt8.toNat_ofNat', Nat.testBit_mod_two_pow, Nat.testBit_or, Nat.testBit_two_pow, hj, bitAt,
      hb, Bool.or_comm]
    simp [hm]
  · have hj : decide (j = i) = false := by
      rw [decide_eq_false_iff_not]
      rintro rfl
      exact hb rfl
    rw [bitAt, setBit, List.getD_eq_getElem?_getD, List.getElem?_set_ne (Ne.symm hb), hj, bitAt,
      List.getD_eq_getElem?_getD, Bool.false_or]

theorem bits_ext (hl : a.length = b.length) (h : ∀ i < 8 * a.length, bitAt a i = bitAt b i) :
    a = b := by
  refine List.ext_getElem hl ?_
  intro k hk hk'
  refine UInt8.toNat.inj (Nat.eq_of_testBit_eq fun m => ?_)
  by_cases hm : m < 8
  · have hb := h (8 * k + m) (by omega)
    simpa [bitAt, Nat.mul_add_div, Nat.div_eq_of_lt hm, Nat.mod_eq_of_lt hm, hk, hk'] using hb
  · have hlt : ∀ byte : UInt8, byte.toNat.testBit m = false := fun byte =>
      Nat.testBit_lt_two_pow (byte.toNat_lt.trans_le
        (Nat.pow_le_pow_right (by decide) (not_lt.mp hm)))
    rw [hlt, hlt]

end ByteString
