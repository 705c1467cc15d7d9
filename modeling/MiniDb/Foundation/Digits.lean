import Mathlib.Data.Fin.Basic
import Mathlib.Data.List.Basic
import Mathlib.Tactic.Ring
import Mathlib.Order.Lex

/-!
Decimal numerals as lists of digits, most significant first. Without leading
zeros a longer numeral is larger, and numerals of one length are ordered as lists.
-/
namespace Digits

def push (value : Nat) (digit : Fin 10) : Nat := value * 10 + digit

def value (digits : List (Fin 10)) : Nat := digits.foldl push 0

instance tenNeZero : NeZero 10 := ⟨by decide⟩

def stripped (digits : List (Fin 10)) : List (Fin 10) := digits.dropWhile (· = 0)

/-- Without leading zeros, but with a digit. -/
def normalized (digits : List (Fin 10)) : List (Fin 10) :=
  if stripped digits = [] then [0] else stripped digits

variable {a b : List (Fin 10)}

theorem foldl_value (digits : List (Fin 10)) (start : Nat) :
    digits.foldl push start = start * 10 ^ digits.length + value digits := by
  induction digits generalizing start with
  | nil => simp [value]
  | cons digit digits ih =>
    have hc : value (digit :: digits) = push 0 digit * 10 ^ digits.length + value digits := ih _
    rw [List.foldl_cons, ih, hc, List.length_cons, push, push]
    ring

theorem le_foldl (digits : List (Fin 10)) (start : Nat) : start ≤ digits.foldl push start := by
  rw [foldl_value]
  exact Nat.le_add_right_of_le (Nat.le_mul_of_pos_right _ (Nat.pow_pos (by decide)))

theorem value_cons (digit : Fin 10) (digits : List (Fin 10)) :
    value (digit :: digits) = digit * 10 ^ digits.length + value digits := by
  rw [value, List.foldl_cons, foldl_value, push, Nat.zero_mul, zero_add]

theorem value_lt (digits : List (Fin 10)) : value digits < 10 ^ digits.length := by
  induction digits with
  | nil => decide
  | cons digit digits ih =>
    have hd : (digit : Nat) * 10 ^ digits.length ≤ 9 * 10 ^ digits.length :=
      Nat.mul_le_mul_right _ (by omega)
    rw [value_cons, List.length_cons, Nat.pow_succ]
    omega

theorem value_stripped (digits : List (Fin 10)) : value (stripped digits) = value digits := by
  induction digits with
  | nil => rfl
  | cons digit digits ih =>
    rw [stripped, List.dropWhile_cons]
    split
    · rename_i hz
      rw [decide_eq_true_eq] at hz
      rw [← stripped, ih, value_cons, hz, Fin.val_zero, Nat.zero_mul, zero_add]
    · rfl

theorem value_normalized (digits : List (Fin 10)) : value (normalized digits) = value digits := by
  rw [normalized]
  split
  · rename_i hn
    rw [← value_stripped digits, hn]
    rfl
  · exact value_stripped digits

theorem normalized_ne_nil (digits : List (Fin 10)) : normalized digits ≠ [] := by
  rw [normalized]
  split
  · exact List.cons_ne_nil _ _
  · assumption

/-- A numeral without leading zeros has as many digits as it needs. -/
theorem pow_le_value {digits : List (Fin 10)} (hne : normalized digits ≠ [0]) :
    10 ^ ((normalized digits).length - 1) ≤ value digits := by
  have hs : normalized digits = stripped digits := by
    rw [normalized] at hne ⊢
    split
    · rename_i hn
      exact absurd (if_pos hn) hne
    · rfl
  have hn := normalized_ne_nil digits
  have ht := List.head?_dropWhile_not (· = (0 : Fin 10)) digits
  rw [← stripped, ← hs] at ht
  rw [← value_normalized]
  cases hg : normalized digits with
  | nil => exact absurd hg hn
  | cons digit rest =>
    rw [hg] at ht
    have hd : digit ≠ 0 := by simpa using ht
    have hp : 1 * 10 ^ rest.length ≤ (digit : Nat) * 10 ^ rest.length :=
      Nat.mul_le_mul_right _ (Nat.one_le_iff_ne_zero.mpr (Fin.val_ne_zero_iff.mpr hd))
    rw [value_cons, List.length_cons, Nat.add_sub_cancel]
    omega

theorem normalized_eq_zero_iff {digits : List (Fin 10)} :
    normalized digits = [0] ↔ value digits = 0 := by
  constructor
  · intro h
    rw [← value_normalized, h]
    rfl
  · intro h
    by_contra hne
    have hle := pow_le_value hne
    exact not_lt.mpr hle (h ▸ Nat.pow_pos (by decide))

theorem value_lt_of_length_lt (h : (normalized a).length < (normalized b).length) :
    value a < value b := by
  have hp := List.length_pos_of_ne_nil (normalized_ne_nil a)
  have hne : normalized b ≠ [0] := by
    intro hz
    rw [hz, List.length_singleton] at h
    omega
  calc value a = value (normalized a) := (value_normalized a).symm
    _ < 10 ^ (normalized a).length := value_lt _
    _ ≤ 10 ^ ((normalized b).length - 1) := Nat.pow_le_pow_right (by decide) (by omega)
    _ ≤ value b := pow_le_value hne

theorem value_lt_of_lex (hl : a.length = b.length) (h : a < b) : value a < value b := by
  induction a generalizing b with
  | nil =>
    rw [List.eq_nil_of_length_eq_zero hl.symm] at h
    exact absurd h (List.lt_irrefl [])
  | cons digit rest ih =>
    cases b with
    | nil => cases hl
    | cons digit' rest' =>
      have hr := Nat.succ.inj hl
      rw [value_cons, value_cons, hr]
      rcases List.cons_lt_cons_iff.mp h with hd | ⟨rfl, ht⟩
      · have hle : (digit + 1 : Nat) * 10 ^ rest'.length ≤ digit' * 10 ^ rest'.length :=
          Nat.mul_le_mul_right _ hd
        have hlt := value_lt rest
        rw [hr] at hlt
        rw [Nat.succ_mul] at hle
        omega
      · exact Nat.add_lt_add_left (ih hr ht) _

end Digits
