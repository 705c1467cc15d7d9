import Mathlib.Data.Nat.Init
import Mathlib.Logic.Basic
import Mathlib.Tactic.Ring
import Mathlib.Tactic.Linarith

/-!
Fixed-size byte blocks with little-endian integer fields.
A block is a bit vector of eight bits per byte, so that equality and field
access stay cheap to evaluate; the facts below speak about bytes only. Reads
past the end see zero bytes and writes past the end are dropped; callers keep
their fields inside the block where this would matter.
-/
namespace ByteBlock
variable {off w : Nat}

def Block (n : Nat) : Type := BitVec (8 * n)

variable {n : Nat}

instance instDecidableEqBlock : DecidableEq (Block n) :=
  inferInstanceAs (DecidableEq (BitVec (8 * n)))

def Block.bits (b : Block n) : BitVec (8 * n) := b

def zero : Block n := BitVec.zero (8 * n)

def byteAt (b : Block n) (i : Nat) : UInt8 :=
  UInt8.ofBitVec (b.bits.extractLsb' (8 * i) 8)

def readLe (b : Block n) (offset width : Nat) : Nat :=
  (b.bits.extractLsb' (8 * offset) (8 * width)).toNat

def fieldMask (n offset width : Nat) : BitVec (8 * n) :=
  (BitVec.allOnes (8 * width)).setWidth (8 * n) <<< (8 * offset)

def writeLe (b : Block n) (offset width value : Nat) : Block n :=
  (b.bits &&& ~~~ fieldMask n offset width) |||
    ((BitVec.ofNat (8 * width) value).setWidth (8 * n) <<< (8 * offset))

def writeBytes (b : Block n) : (offset : Nat) → List UInt8 → Block n
  | _, [] => b
  | offset, byte :: bytes =>
    writeLe (writeBytes b (offset + 1) bytes) offset 1 byte.toNat

private theorem bits_ext {a b : Block n}
    (h : ∀ j, j < 8 * n → a.bits.getLsbD j = b.bits.getLsbD j) : a = b :=
  BitVec.eq_of_getLsbD_eq h

private theorem byteAt_bit (b : Block n) (i k : Nat) :
    (byteAt b i).toBitVec.getLsbD k = (decide (k < 8) && b.bits.getLsbD (8 * i + k)) := by
  simp [byteAt]

private theorem byte_ext {x y : UInt8}
    (h : ∀ k, k < 8 → x.toBitVec.getLsbD k = y.toBitVec.getLsbD k) : x = y :=
  UInt8.toBitVec_inj.mp (BitVec.eq_of_getLsbD_eq h)

private theorem fieldMask_bit (off w j : Nat) :
    (fieldMask n off w).getLsbD j = decide (8 * off ≤ j ∧ j < 8 * (off + w) ∧ j < 8 * n) := by
  unfold fieldMask
  rw [BitVec.getLsbD_shiftLeft, BitVec.getLsbD_setWidth, BitVec.getLsbD_allOnes]
  by_cases hl : 8 * off ≤ j
  · by_cases hn : j < 8 * n
    · have hn' : j - 8 * off < 8 * n := by omega
      have hw : j - 8 * off < 8 * w ↔ j < 8 * (off + w) := by omega
      simp [hl, hn, hn', hw]
    · simp [hn]
  · simp [hl, not_le.mp hl]

private theorem writeLe_bit (b : Block n) (off w v j : Nat) :
    (writeLe b off w v).bits.getLsbD j = if 8 * off ≤ j ∧ j < 8 * (off + w) ∧ j < 8 * n then
        v.testBit (j - 8 * off)
      else b.bits.getLsbD j := by
  have hb : (writeLe b off w v).bits = (b.bits &&& ~~~ fieldMask n off w) |||
        ((BitVec.ofNat (8 * w) v).setWidth (8 * n) <<< (8 * off)) := rfl
  rw [hb, BitVec.getLsbD_or, BitVec.getLsbD_and, BitVec.getLsbD_not, fieldMask_bit,
    BitVec.getLsbD_shiftLeft, BitVec.getLsbD_setWidth, BitVec.getLsbD_ofNat]
  split
  · rename_i h
    have hn' : j - 8 * off < 8 * n := by omega
    have hw : j - 8 * off < 8 * w := by omega
    simp [h, hn', hw]
  · rename_i h
    by_cases hn : j < 8 * n
    · by_cases hl : 8 * off ≤ j
      · have hw : ¬ j - 8 * off < 8 * w := by omega
        have hh : 8 * (off + w) ≤ j := by omega
        simp [hn, hw, hh]
      · simp [hn, not_le.mp hl]
    · simp [hn, BitVec.getLsbD_of_ge _ _ (not_lt.mp hn)]

theorem byteAt_of_ge (b : Block n) {i : Nat} (h : n ≤ i) : byteAt b i = 0 := by
  apply byte_ext
  intro k hk
  rw [byteAt_bit]
  have : b.bits.getLsbD (8 * i + k) = false :=
    BitVec.getLsbD_of_ge _ _ (by omega)
  simp [this]

@[simp] theorem byteAt_zero (i : Nat) : byteAt (zero : Block n) i = 0 := by
  apply byte_ext
  intro k _
  rw [byteAt_bit]
  simp [zero, Block.bits]

theorem eq_of_byteAt {a b : Block n} (h : ∀ i, i < n → byteAt a i = byteAt b i) : a = b := by
  apply bits_ext
  intro j hj
  have hb := congrArg (fun x : UInt8 => x.toBitVec.getLsbD (j % 8)) (h (j / 8) (by omega))
  simp only [byteAt_bit] at hb
  have hk : j % 8 < 8 := Nat.mod_lt _ (by omega)
  simpa [hk, Nat.div_add_mod] using hb

theorem byteAt_writeLe (b : Block n) (off w v i : Nat) :
    byteAt (writeLe b off w v) i = if off ≤ i ∧ i < off + w ∧ i < n then
        UInt8.ofNat (v / 256 ^ (i - off))
      else byteAt b i := by
  apply byte_ext
  intro k hk
  rw [byteAt_bit, writeLe_bit]
  by_cases h : off ≤ i ∧ i < off + w ∧ i < n
  · rw [if_pos (by omega), if_pos h]
    have he : 8 * i + k - 8 * off = 8 * (i - off) + k := by omega
    have hp : 256 ^ (i - off) = 2 ^ (8 * (i - off)) := by
      rw [show 256 = 2 ^ 8 by rfl, ← Nat.pow_mul]
    simp only [he, hp, UInt8.toBitVec_ofNat', BitVec.getLsbD_ofNat]
    rw [← Nat.shiftRight_eq_div_pow, Nat.testBit_shiftRight]
  · rw [if_neg (by omega), if_neg h, byteAt_bit]

theorem byteAt_writeLe_outside (b : Block n) {v i : Nat} (h : i < off ∨ off + w ≤ i) :
    byteAt (writeLe b off w v) i = byteAt b i := by
  rw [byteAt_writeLe, if_neg]
  omega

theorem byteAt_writeBytes (b : Block n) (off : Nat) (bs : List UInt8) (i : Nat) :
    byteAt (writeBytes b off bs) i =
      if off ≤ i ∧ i < n then (bs[i - off]?).getD (byteAt b i) else byteAt b i := by
  induction bs generalizing off with
  | nil => simp [writeBytes]
  | cons byte bs ih =>
    rw [writeBytes, byteAt_writeLe, ih]
    by_cases hn : i < n
    · by_cases heq : i = off
      · subst heq
        simp [hn]
      · by_cases hlt : off < i
        · have hs : i - off = (i - (off + 1)) + 1 := by omega
          have hne : ¬ (off ≤ i ∧ i < off + 1 ∧ i < n) := by omega
          rw [if_neg hne, if_pos ⟨by omega, hn⟩, if_pos ⟨by omega, hn⟩, hs, List.getElem?_cons_succ]
        · have hle : ¬ off ≤ i := by omega
          have hle' : ¬ off + 1 ≤ i := by omega
          simp [hle, hle']
    · simp [hn]

theorem byteAt_writeBytes_outside (b : Block n) {i : Nat} {bs : List UInt8}
    (h : i < off ∨ off + bs.length ≤ i) : byteAt (writeBytes b off bs) i = byteAt b i := by
  rw [byteAt_writeBytes]
  split
  · rw [List.getElem?_eq_none (by omega), Option.getD_none]
  · rfl

private theorem testBit_readLe (b : Block n) (off w j : Nat) :
    (readLe b off w).testBit j = (decide (j < 8 * w) && b.bits.getLsbD (8 * off + j)) := by
  unfold readLe
  rw [BitVec.testBit_toNat, BitVec.getLsbD_extractLsb']

theorem readLe_congr {a b : Block n} (h : ∀ i, off ≤ i → i < off + w → byteAt a i = byteAt b i) :
    readLe a off w = readLe b off w := by
  apply Nat.eq_of_testBit_eq
  intro j
  rw [testBit_readLe, testBit_readLe]
  by_cases hj : j < 8 * w
  · have hb := congrArg (fun x : UInt8 => x.toBitVec.getLsbD (j % 8))
      (h (off + j / 8) (by omega) (by omega))
    simp only [byteAt_bit] at hb
    have hk : j % 8 < 8 := Nat.mod_lt _ (by omega)
    have hi : 8 * (off + j / 8) + j % 8 = 8 * off + j := by omega
    simpa [hk, hj, hi] using hb
  · simp [hj]

theorem readLe_writeLe_outside (b : Block n) {v off' w' : Nat}
    (h : off' + w' ≤ off ∨ off + w ≤ off') :
    readLe (writeLe b off w v) off' w' = readLe b off' w' := by
  apply readLe_congr
  intro i hl hh
  exact byteAt_writeLe_outside b (by omega)

theorem readLe_lt (b : Block n) (off w : Nat) : readLe b off w < 256 ^ w := by
  have h := (b.bits.extractLsb' (8 * off) (8 * w)).isLt
  rwa [Nat.pow_mul] at h

theorem readLe_writeLe_same (b : Block n) {v : Nat} (h : off + w ≤ n) :
    readLe (writeLe b off w v) off w = v % 256 ^ w := by
  rw [show 256 = 2 ^ 8 by rfl, ← Nat.pow_mul]
  apply Nat.eq_of_testBit_eq
  intro j
  rw [testBit_readLe, writeLe_bit, Nat.testBit_mod_two_pow]
  by_cases hj : j < 8 * w
  · rw [if_pos (by omega), Nat.add_sub_cancel_left]
  · simp [hj]

theorem writeLe_eq_of_agree {a b : Block n} {v : Nat}
    (h : ∀ i, i < n → i < off ∨ off + w ≤ i → byteAt a i = byteAt b i) :
    writeLe a off w v = writeLe b off w v := by
  apply eq_of_byteAt
  intro i hi
  rw [byteAt_writeLe, byteAt_writeLe]
  split
  · rfl
  · exact h i hi (by omega)

theorem writeLe_writeLe_same (b : Block n) (off w v v' : Nat) :
    writeLe (writeLe b off w v) off w v' = writeLe b off w v' :=
  writeLe_eq_of_agree fun _ _ h => byteAt_writeLe_outside b h

/-- A field is the only thing its own write can change: rewriting it with what
it already holds is the identity. -/
theorem writeLe_readLe_same (b : Block n) : writeLe b off w (readLe b off w) = b := by
  apply bits_ext
  intro j hj
  rw [writeLe_bit]
  split
  · rw [testBit_readLe, show 8 * off + (j - 8 * off) = j by omega]
    simp [show j - 8 * off < 8 * w by omega]
  · rfl

theorem byteAt_writeLe_readLe (a b : Block n) (off w i : Nat) :
    byteAt (writeLe a off w (readLe b off w)) i =
      if off ≤ i ∧ i < off + w then byteAt b i else byteAt a i := by
  by_cases hn : i < n
  · have hs := byteAt_writeLe b off w (readLe b off w) i
    rw [writeLe_readLe_same] at hs
    rw [byteAt_writeLe]
    by_cases hi : off ≤ i ∧ i < off + w
    · rw [if_pos ⟨hi.1, hi.2, hn⟩] at hs ⊢
      rw [if_pos hi, hs]
    · rw [if_neg (fun h => hi ⟨h.1, h.2.1⟩), if_neg hi]
  · have hge := not_lt.mp hn
    rw [byteAt_of_ge _ hge, byteAt_of_ge b hge, byteAt_of_ge a hge, ite_self]

theorem byteAt_of_readLe_zero {b : Block n} {i : Nat} (h : readLe b off w = 0) (hl : off ≤ i)
    (hh : i < off + w) : byteAt b i = 0 := by
  have hr := byteAt_writeLe_readLe (zero : Block n) b off w i
  rw [h, if_pos ⟨hl, hh⟩, byteAt_writeLe] at hr
  rw [← hr]
  split
  · simp
  · simp
/-- The block `b` with the bytes of `source` at the offsets of `mask`. -/
def overlay (b source : Block n) (mask : Nat → Bool) : Block n :=
  (List.range n).foldl
    (fun block i => if mask i then writeLe block i 1 (byteAt source i).toNat else block) b

private theorem byteAt_overlay_fold (b source : Block n) (mask : Nat → Bool)
    (offsets : List Nat) (i : Nat) :
    byteAt (offsets.foldl
      (fun block j => if mask j then writeLe block j 1 (byteAt source j).toNat else block) b) i =
      if i ∈ offsets ∧ mask i ∧ i < n then byteAt source i else byteAt b i := by
  induction offsets generalizing b with
  | nil => simp
  | cons j offsets ih =>
    rw [List.foldl_cons, ih]
    by_cases he : i ∈ offsets ∧ mask i ∧ i < n
    · rw [if_pos he, if_pos ⟨by simp [he.1], he.2⟩]
    · rw [if_neg he]
      by_cases hj : i = j
      · subst hj
        by_cases hm : mask i = true
        · by_cases hn : i < n
          · simp [hm, hn, byteAt_writeLe]
          · simp [hm, hn, byteAt_writeLe]
        · simp [hm]
      · have hf : byteAt (if mask j then writeLe b j 1 (byteAt source j).toNat else b) i =
            byteAt b i := by
          split
          · exact byteAt_writeLe_outside b (by omega)
          · rfl
        rw [hf, if_neg]
        rintro ⟨hi, hr⟩
        exact he ⟨(List.mem_cons.mp hi).resolve_left hj, hr⟩

theorem byteAt_overlay (b source : Block n) (mask : Nat → Bool) (i : Nat) :
    byteAt (overlay b source mask) i = if mask i then byteAt source i else byteAt b i := by
  unfold overlay
  rw [byteAt_overlay_fold]
  by_cases hn : i < n
  · simp [hn]
  · simp [hn, byteAt_of_ge _ (not_lt.mp hn)]

@[simp] theorem overlay_self (b : Block n) (mask : Nat → Bool) : overlay b b mask = b := by
  apply eq_of_byteAt
  intro i _
  rw [byteAt_overlay]
  split <;> rfl

/-- A block of which the first `count` bytes were overwritten by those of `new`. -/
def splice (old new : Block n) (count : Nat) : Block n := overlay old new (· < count)

def crcBit (crc : Nat) : Nat :=
  if crc % 2 = 1 then (crc / 2) ^^^ 0x82F63B78 else crc / 2

def crcByte (crc byte : Nat) : Nat := Nat.repeat crcBit 8 (crc ^^^ byte)

/-- The checksum over `remaining` bytes from `offset` on. -/
def crcFrom (b : Block n) : (remaining offset crc : Nat) → Nat
  | 0, _, crc => crc
  | remaining + 1, offset, crc =>
    crcFrom b remaining (offset + 1) (crcByte crc (byteAt b offset).toNat)

def crc32c (b : Block n) : Nat := 0xFFFFFFFF - crcFrom b n 0 0xFFFFFFFF

end ByteBlock
