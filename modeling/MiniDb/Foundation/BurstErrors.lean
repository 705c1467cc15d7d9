import Mathlib.Data.Nat.Bitwise
import MiniDb.Foundation.ByteString

/-!
Burst errors under CRC-32C. One bit of the remainder is shifted out at a time and the
shift is linear in exclusive or, so two inputs can be followed by the difference of
their remainders. A small remainder comes from one that was shifted without a carry;
four bytes can therefore not hide a difference they brought in, and no byte after them
can remove it.
-/
namespace ByteString
open ByteBlock

variable {a b crc : Nat}

/-! One bit. -/

theorem crcBit_lt (h : crc < 2 ^ 32) : crcBit crc < 2 ^ 32 := by
  have hh : crc / 2 < 2 ^ 32 := by omega
  unfold crcBit
  split
  · exact Nat.xor_lt_two_pow hh (by decide)
  · exact hh

theorem crcBit_xor (a b : Nat) : crcBit (a ^^^ b) = crcBit a ^^^ crcBit b := by
  have hh : (a ^^^ b) / 2 = (a / 2) ^^^ (b / 2) := Nat.xor_div_two
  have ho : (a ^^^ b) % 2 = (a % 2 + b % 2) % 2 := by
    rw [Nat.xor_mod_two_eq, Nat.add_mod]
  unfold crcBit
  rw [hh, ho]
  rcases Nat.mod_two_eq_zero_or_one a with ha | ha <;> rcases Nat.mod_two_eq_zero_or_one b
    with hb | hb
  · simp [ha, hb]
  · simp [ha, hb, Nat.xor_assoc]
  · simp [ha, hb, Nat.xor_assoc, Nat.xor_left_comm, Nat.xor_comm]
  · simp only [ha, hb, Nat.reduceAdd, Nat.reduceMod, zero_ne_one, if_false, if_true]
    rw [Nat.xor_assoc, Nat.xor_left_comm _ (b / 2), Nat.xor_self, Nat.xor_zero]

/-- A carry sets the highest bit. -/
theorem crcBit_small (h : crc < 2 ^ 32) (hs : crcBit crc < 2 ^ 31) : crc = 2 * crcBit crc := by
  unfold crcBit at hs ⊢
  split at hs
  · have hb : ((crc / 2) ^^^ 0x82F63B78).testBit 31 = true := by
      rw [Nat.testBit_xor, Nat.testBit_lt_two_pow (show crc / 2 < 2 ^ 31 by omega)]
      decide
    rw [Nat.testBit_lt_two_pow hs] at hb
    exact absurd hb (by decide)
  · rename_i he
    rw [if_neg he]
    omega

/-! One byte. -/

theorem repeat_crcBit_lt (h : crc < 2 ^ 32) (bits : Nat) : Nat.repeat crcBit bits crc < 2 ^ 32 := by
  induction bits with
  | zero => exact h
  | succ bits ih => exact crcBit_lt ih

theorem repeat_crcBit_xor (bits a b : Nat) :
    Nat.repeat crcBit bits (a ^^^ b) = Nat.repeat crcBit bits a ^^^ Nat.repeat crcBit bits b := by
  induction bits with
  | zero => rfl
  | succ bits ih =>
    show crcBit (Nat.repeat crcBit bits (a ^^^ b)) = _
    rw [ih, crcBit_xor]
    rfl

theorem repeat_crcBit_small (h : crc < 2 ^ 32) {bits : Nat} (hb : bits ≤ 31)
    (hs : Nat.repeat crcBit bits crc < 2 ^ (32 - bits)) :
    crc = 2 ^ bits * Nat.repeat crcBit bits crc := by
  induction bits with
  | zero => exact (Nat.one_mul _).symm
  | succ bits ih =>
    have ht : Nat.repeat crcBit bits crc = 2 * Nat.repeat crcBit (bits + 1) crc :=
      crcBit_small (repeat_crcBit_lt h bits)
        (hs.trans_le (Nat.pow_le_pow_right (by decide) (by omega)))
    have hp : 2 ^ (32 - bits) = 2 * 2 ^ (32 - (bits + 1)) := by
      rw [← Nat.pow_succ']
      congr 1
      omega
    rw [Nat.pow_succ, Nat.mul_assoc, ← ht]
    exact ih (by omega) (by omega)

theorem crcByte_lt {byte : Nat} (h : crc < 2 ^ 32) (hb : byte < 256) : crcByte crc byte < 2 ^ 32 :=
  repeat_crcBit_lt (Nat.xor_lt_two_pow h (hb.trans (by decide))) 8

theorem xor_eq_zero (h : a ^^^ b = 0) : a = b := Nat.xor_eq_zero_iff.mp h

/-- The difference of two remainders after one byte each. -/
theorem crcByte_difference {x y : Nat} (ha : a < 2 ^ 32) (hb : b < 2 ^ 32) (hx : x < 256)
    (hy : y < 256) (hm : crcByte a x ^^^ crcByte b y < 2 ^ 24) :
    (a ^^^ b) ^^^ (x ^^^ y) = 256 * (crcByte a x ^^^ crcByte b y) := by
  have hs : crcByte a x ^^^ crcByte b y = Nat.repeat crcBit 8 ((a ^^^ x) ^^^ (b ^^^ y)) :=
    (repeat_crcBit_xor 8 _ _).symm
  have hlt : (a ^^^ x) ^^^ (b ^^^ y) < 2 ^ 32 :=
    Nat.xor_lt_two_pow (Nat.xor_lt_two_pow ha (hx.trans (by decide)))
      (Nat.xor_lt_two_pow hb (hy.trans (by decide)))
  rw [hs] at hm ⊢
  rw [show 256 * _ = _ from (repeat_crcBit_small hlt (by decide) hm).symm]
  simp only [Nat.xor_assoc, Nat.xor_left_comm]

/-! Strings. -/

/-- The remainder after a string. -/
def crcFold (crc : Nat) (bytes : List UInt8) : Nat :=
  bytes.foldl (fun crc byte => crcByte crc byte.toNat) crc

theorem crcFold_lt (h : crc < 2 ^ 32) (bs : List UInt8) : crcFold crc bs < 2 ^ 32 := by
  induction bs generalizing crc with
  | nil => exact h
  | cons byte bs ih => exact ih (crcByte_lt h byte.toNat_lt)

/-- The same bytes keep different remainders different. -/
theorem crcFold_injective (ha : a < 2 ^ 32) (hb : b < 2 ^ 32) {bs : List UInt8}
    (h : crcFold a bs = crcFold b bs) : a = b := by
  induction bs generalizing a b with
  | nil => exact h
  | cons byte bs ih =>
    have hy := byte.toNat_lt
    have hn := ih (crcByte_lt ha hy) (crcByte_lt hb hy) h
    have hd := crcByte_difference ha hb hy hy (by rw [hn, Nat.xor_self]; decide)
    rw [hn, Nat.xor_self, Nat.xor_self, Nat.xor_zero, Nat.mul_zero] at hd
    exact xor_eq_zero hd

/-- Up to four bytes: remainders that become equal differed by no more than the bytes
did, and from the same remainder only the same bytes lead to the same one. -/
theorem crcFold_burst (ha : a < 2 ^ 32) (hb : b < 2 ^ 32) {bs dmg : List UInt8}
    (hl : dmg.length = bs.length) (hh : bs.length ≤ 4) (h : crcFold a bs = crcFold b dmg) :
    a ^^^ b < 256 ^ bs.length ∧ (a = b → bs = dmg) := by
  induction bs generalizing a b dmg with
  | nil =>
    obtain rfl := List.eq_nil_of_length_eq_zero hl
    have hs : a = b := h
    rw [hs, Nat.xor_self]
    exact ⟨by decide, fun _ => rfl⟩
  | cons x bs ih =>
    cases dmg with
    | nil => exact absurd hl (by simp)
    | cons y dmg =>
      have hx := x.toNat_lt
      have hy := y.toNat_lt
      rw [List.length_cons] at hh
      obtain ⟨hd, hs⟩ := ih (crcByte_lt ha hx) (crcByte_lt hb hy)
        (Nat.succ.inj hl) (Nat.le_of_succ_le hh) h
      have hsl : crcByte a x.toNat ^^^ crcByte b y.toNat < 2 ^ 24 :=
        hd.trans_le (Nat.pow_le_pow_right (by decide : 0 < 256)
          (by omega : bs.length ≤ 3))
      have hc := crcByte_difference ha hb hx hy hsl
      have hbs := Nat.xor_lt_two_pow hx hy
      refine ⟨?_, ?_⟩
      · have hp : (256 : Nat) ^ (bs.length + 1) = 2 ^ (8 * (bs.length + 1)) := by
          rw [Nat.pow_mul]
        have hsp : a ^^^ b =
          256 * (crcByte a x.toNat ^^^ crcByte b y.toNat) ^^^ (x.toNat ^^^ y.toNat) := by
          rw [← hc, Nat.xor_assoc (a ^^^ b), Nat.xor_self, Nat.xor_zero]
        rw [List.length_cons, hp, hsp]
        refine Nat.xor_lt_two_pow ?_ (hbs.trans_le (Nat.pow_le_pow_right (by decide) (by omega)))
        rw [← hp, Nat.pow_succ']
        exact Nat.mul_lt_mul_of_pos_left hd (by decide)
      · rintro rfl
        rw [Nat.xor_self, Nat.zero_xor] at hc
        have hz : crcByte a x.toNat ^^^ crcByte a y.toNat = 0 := by omega
        rw [hz, Nat.mul_zero] at hc
        rw [UInt8.toNat_inj.mp (xor_eq_zero hc), hs (xor_eq_zero hz)]

/-- Strings of one checksum that differ in at most four consecutive bytes are the same. -/
theorem crc32c_burst {pre burst dmg rest : List UInt8} (hl : dmg.length = burst.length)
    (hh : burst.length ≤ 4)
    (h : crc32c (pre ++ (burst ++ rest)) = crc32c (pre ++ (dmg ++ rest))) : burst = dmg := by
  have hf : crcFold 0xFFFFFFFF pre < 2 ^ 32 := crcFold_lt (by decide) pre
  have hs : ∀ bs, crcFold 0xFFFFFFFF (pre ++ (bs ++ rest)) =
      crcFold (crcFold (crcFold 0xFFFFFFFF pre) bs) rest := fun bs => by
    simp only [crcFold, List.foldl_append]
  have hw : crcFold 0xFFFFFFFF (pre ++ (burst ++ rest)) =
      crcFold 0xFFFFFFFF (pre ++ (dmg ++ rest)) := by
    have hlf := crcFold_lt (by decide : 0xFFFFFFFF < 2 ^ 32) (pre ++ (burst ++ rest))
    have hr := crcFold_lt (by decide : 0xFFFFFFFF < 2 ^ 32) (pre ++ (dmg ++ rest))
    have hm : 0xFFFFFFFF - crcFold 0xFFFFFFFF (pre ++ (burst ++ rest)) =
      0xFFFFFFFF - crcFold 0xFFFFFFFF (pre ++ (dmg ++ rest)) := h
    omega
  rw [hs, hs] at hw
  have hb := crcFold_injective (crcFold_lt hf burst) (crcFold_lt hf dmg) hw
  exact (crcFold_burst hf hf hl hh hb).2 rfl

end ByteString
