import MiniDb.WhereSoundness

/-!
Integer literals are exact. A literal converts to the integer it denotes when the type
of the column holds that integer and is a constraint error otherwise, the 64-bit loop
over its digits never wraps, and comparing two literals gives the sign of the difference.
-/
namespace MiniDb.Sql
open Outcome Digits

/-- `accumulateDigit` in the arithmetic of `uint64_t`, which wraps. -/
def accumulateDigit64 (maximum : UInt64) (literal : SqlLiteral) (typeName : String)
    (value : UInt64) (digit : Fin 10) : SqlResult UInt64 := do
  let component := UInt64.ofNat digit
  require (value ≤ (maximum - component) / 10)
    (.sql .constraint ("integer literal is out of range for " ++ typeName) literal.span)
  return value * 10 + component

def accumulateMagnitude64 (digits : List (Fin 10)) (maximum : UInt64) (literal : SqlLiteral)
    (typeName : String) : SqlResult UInt64 :=
  digits.foldlM (accumulateDigit64 maximum literal typeName) 0

variable {lit : SqlLiteral} {name : String} {integer : IntegerLiteral}
  {col : ColumnDefinition}

theorem accumulateDigit64_eq {mx v : UInt64} (digit : Fin 10) (hm : 9 ≤ mx.toNat) :
    (accumulateDigit64 mx lit name v digit).map UInt64.toNat =
      accumulateDigit mx.toNat lit name v.toNat digit := by
  have hd := digit.isLt
  have hx := mx.toNat_lt
  have hc : (UInt64.ofNat digit).toNat = digit := 
    UInt64.toNat_ofNat_of_lt' (hd.trans (by decide))
  have hs : ((mx - UInt64.ofNat digit) / 10).toNat = (mx.toNat - digit) / 10 := by
    rw [UInt64.toNat_div, UInt64.toNat_sub_of_le _ _ (by rw [UInt64.le_iff_toNat_le]; omega), hc]
    rfl
  simp only [accumulateDigit64, accumulateDigit, UInt64.le_iff_toNat_le, hs]
  by_cases hle : v.toNat ≤ (mx.toNat - digit) / 10
  · simp only [require, if_pos hle]
    -- the bound on the value keeps the new one below the maximum
    have hv : (v * 10 + UInt64.ofNat digit).toNat = v.toNat * 10 + digit := by
      rw [UInt64.toNat_add, UInt64.toNat_mul, hc, show (10 : UInt64).toNat = 10 from rfl]
      omega
    exact congrArg Except.ok hv
  · simp only [require, if_neg hle]
    rfl

theorem accumulateMagnitude64_eq {mx : UInt64} (ds : List (Fin 10)) (hm : 9 ≤ mx.toNat) :
    (accumulateMagnitude64 ds mx lit name).map UInt64.toNat =
      accumulateMagnitude ds mx.toNat lit name := by
  suffices hf : ∀ start : UInt64,
      (ds.foldlM (accumulateDigit64 mx lit name) start).map UInt64.toNat =
        ds.foldlM (accumulateDigit mx.toNat lit name) start.toNat from hf 0
  induction ds with
  | nil => exact fun _ => rfl
  | cons digit ds ih =>
    intro start
    rw [List.foldlM_cons, List.foldlM_cons, ← accumulateDigit64_eq digit hm]
    cases accumulateDigit64 mx lit name start digit with
    | error e => rfl
    | ok v => exact ih v

/-- What a column of integers holds of a literal; an unsigned one takes no sign. -/
def DataType.HoldsInteger (type : DataType) (integer : IntegerLiteral) : Prop :=
  match type with
  | .uint32 => integer.negative = false ∧ integer.value < 2 ^ 32
  | .int64 => -2 ^ 63 ≤ integer.value ∧ integer.value < 2 ^ 63
  | _ => False

theorem convertInteger_total (ht : col.type = .uint32 ∨ col.type = .int64) :
    (col.type.HoldsInteger integer ∧ ∃ v, convertInteger integer lit col = .ok v) ∨
      ¬ col.type.HoldsInteger integer ∧
        ∃ msg, convertInteger integer lit col = .error (.sql .constraint msg lit.span) := by
  unfold convertInteger DataType.HoldsInteger
  rcases ht with ht | ht
  · rw [ht]
    cases hs : integer.negative with
    | true => exact .inr ⟨fun h => (nomatch h.1), _, rfl⟩
    | false =>
      simp only [require_of _ trivial, ok_bind, IntegerLiteral.value, hs, if_neg Bool.false_ne_true,
        accumulateMagnitude_exact (show 9 ≤ 2 ^ 32 - 1 by decide)]
      by_cases hle : Digits.value integer.magnitude ≤ 2 ^ 32 - 1
      · rw [if_pos hle]
        exact .inl ⟨⟨trivial, by omega⟩, _, rfl⟩
      · rw [if_neg hle]
        exact .inr ⟨fun h => hle (by omega), _, rfl⟩
  · have hi : (-2 ^ 63 ≤ integer.value ∧ integer.value < 2 ^ 63) ↔
        Digits.value integer.magnitude ≤ if integer.negative then 2 ^ 63 else 2 ^ 63 - 1 := by
      unfold IntegerLiteral.value
      split <;> omega
    simp only [ht, hi]
    rw [accumulateMagnitude_exact (by split <;> decide)]
    by_cases hle : Digits.value integer.magnitude ≤ if integer.negative then 2 ^ 63 else 2 ^ 63 - 1
    · rw [if_pos hle, ok_bind]
      refine .inl ⟨hle, ?_⟩
      split
      · exact ⟨_, rfl⟩
      · split <;> exact ⟨_, rfl⟩
    · rw [if_neg hle]
      exact .inr ⟨hle, _, rfl⟩

theorem compareIntegerLiterals_range (left right : IntegerLiteral) :
    -1 ≤ compareIntegerLiterals left right ∧ compareIntegerLiterals left right ≤ 1 := by
  unfold compareIntegerLiterals compareMagnitudes
  repeat' split
  all_goals decide

theorem compareIntegerLiterals_sign (left right : IntegerLiteral) :
    compareIntegerLiterals left right = (left.value - right.value).sign := by
  have hr := compareIntegerLiterals_range left right
  rcases compareIntegerLiterals_agrees left right with ⟨hc, hlt⟩ | ⟨hc, heq⟩ | ⟨hc, hgt⟩
  · rw [Int.sign_eq_neg_one_of_neg (by omega)]
    omega
  · rw [hc, heq, Int.sub_self, Int.sign_zero]
  · rw [Int.sign_eq_one_of_pos (by omega)]
    omega

/-- Conversion is exact on the integers the type holds, and a constraint error on the others;
the loop in 64 bits computes what it computes without a bound. -/
theorem integer_literals_exact :
    (∀ (span : SourceSpan) (integer : IntegerLiteral) (col : ColumnDefinition),
      col.type = .uint32 ∨ col.type = .int64 → (col.type.HoldsInteger integer → ∃ value,
        convertLiteral ⟨span, .integer integer⟩ col = .ok value ∧
          (valueScalar value).hasType (boundType col.type) = true ∧
          value.datum = some (.number integer.value)) ∧
      (¬ col.type.HoldsInteger integer → ∃ message,
        convertLiteral ⟨span, .integer integer⟩ col = .error (.sql .constraint message span))) ∧
    (∀ (digits : List (Fin 10)) (maximum : UInt64) (lit : SqlLiteral) (typeName : String),
      9 ≤ maximum.toNat → (accumulateMagnitude64 digits maximum lit typeName).map UInt64.toNat =
          accumulateMagnitude digits maximum.toNat lit typeName) ∧
    ∀ left right : IntegerLiteral,
      compareIntegerLiterals left right = (left.value - right.value).sign := by
  refine ⟨fun span integer col ht => ?_, fun digits _ _ _ => accumulateMagnitude64_eq digits,
    compareIntegerLiterals_sign⟩
  rcases @convertInteger_total ⟨span, .integer integer⟩ integer col ht with
    ⟨hi, value, hv⟩ | ⟨ho, he⟩
  · exact ⟨fun _ => ⟨value, hv, convertInteger_sound hv⟩, fun ho => absurd hi ho⟩
  · exact ⟨fun hi => absurd hi ho, fun _ => he⟩

theorem integer_literals_exact_minimum : ∃ value, convertLiteral
    ⟨{}, .integer ⟨true, [9, 2, 2, 3, 3, 7, 2, 0, 3, 6, 8, 5, 4, 7, 7, 5, 8, 0, 8]⟩⟩
    ⟨[], .int64, false, false, 0⟩ = .ok value ∧
      (valueScalar value).hasType .int64 = true ∧ value.datum = some (.number (-2 ^ 63)) :=
  (integer_literals_exact.1 {} _ ⟨[], .int64, false, false, 0⟩ (.inr rfl)).1
    ⟨by decide, by decide⟩

end MiniDb.Sql
