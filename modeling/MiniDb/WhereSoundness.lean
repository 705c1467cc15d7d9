import MiniDb.SqlExpressions
import Mathlib.Order.Basic

/-!
What a WHERE expression means, and that its evaluation cannot fail. The meaning is
that of the text: numbers are integers whatever their type, NULL is the absence of a
value, and truth is strong Kleene logic. Binding gives every expression a type that
its value has on each row of the schema.
-/
namespace MiniDb.Sql
open Outcome Digits BinaryOperator

inductive Datum
  | number (value : Int)
  | truth (value : Bool)
  | text (value : List UInt8)
  deriving DecidableEq

def IntegerLiteral.value (literal : IntegerLiteral) : Int :=
  if literal.negative then -Digits.value literal.magnitude else Digits.value literal.magnitude

def BoundScalar.datum : BoundScalar → Option Datum
  | .null => none
  | .uint32 value => some (.number value.toNat)
  | .int64 value => some (.number value.toInt)
  | .boolean value => some (.truth value)
  | .varchar value => some (.text value)
  | .integer value => some (.number value.value)

def Value.datum (value : Value) : Option Datum := (valueScalar value).datum

def LiteralValue.datum (literal : LiteralValue) : Option Datum := (literalScalar literal).datum

def BinaryOperator.relates {α : Type} [LT α] [DecidableLT α] [DecidableEq α] (op : BinaryOperator)
    (left right : α) : Bool :=
  match op with
  | .equal => left = right
  | .notEqual => left ≠ right
  | .less => left < right
  | .lessEqual => ¬ right < left
  | .greater => right < left
  | .greaterEqual => ¬ left < right
  | .and | .or => Bool.false

/-- Values compare in the order of their kind: integers, truth values, byte strings. -/
def BinaryOperator.compares (op : BinaryOperator) : Datum → Datum → Option Bool
  | .number left, .number right => some (op.relates left right)
  | .truth left, .truth right => some (op.relates left right)
  | .text left, .text right => some (op.relates left right)
  | _, _ => none

def kleeneNot (value : Option Bool) : Option Bool := value.map (!·)

def kleeneAnd : Option Bool → Option Bool → Option Bool
  | some Bool.false, _ | _, some Bool.false => some Bool.false
  | some Bool.true, some Bool.true => some Bool.true
  | _, _ => none

def kleeneOr : Option Bool → Option Bool → Option Bool
  | some Bool.true, _ | _, some Bool.true => some Bool.true
  | some Bool.false, some Bool.false => some Bool.false
  | _, _ => none

def asTruth : Option Datum → Option Bool
  | some (.truth value) => some value
  | _ => none

/-- The value of an expression on a row; `none` is NULL, and Unknown. -/
def Expression.value (schema : Schema) (row : RowValues) : Expression → Option Datum
  | .identifier _ name =>
    match schema.findColumn name with
    | .ok (some index) => row[index]?.bind Value.datum
    | _ => none
  | .literal _ constant => constant.value.datum
  | .unary _ operand => (kleeneNot (asTruth (operand.value schema row))).map .truth
  | .binary _ .and left right =>
    (kleeneAnd (asTruth (left.value schema row)) (asTruth (right.value schema row))).map .truth
  | .binary _ .or left right =>
    (kleeneOr (asTruth (left.value schema row)) (asTruth (right.value schema row))).map .truth
  | .binary _ op left right =>
    ((left.value schema row).bind fun x => (right.value schema row).bind fun y =>
      op.compares x y).map .truth

def ofKleene : Option Bool → TruthValue
  | none => .unknown
  | some value => truthOfBool value

/-! Comparisons. -/

/-- A three-way comparison and the order it stands for. -/
def Agrees {α : Type} [LT α] (comparison : Int) (left right : α) : Prop :=
  (comparison < 0 ∧ left < right) ∨ (comparison = 0 ∧ left = right) ∨
    (0 < comparison ∧ right < left)

variable {op : BinaryOperator} {comparison : Int} {l r : BoundScalar} {type : BoundType}
  {schema : Schema} {row : RowValues}

theorem decides_of_agrees {α : Type} [LT α] [DecidableLT α] [DecidableEq α]
    [Std.Asymm (fun a b : α => a < b)] {left right : α} (h : Agrees comparison left right)
    (ho : op ≠ .and ∧ op ≠ .or) : op.decides comparison = .ok (op.relates left right) := by
  rcases h with ⟨hc, hlt⟩ | ⟨rfl, rfl⟩ | ⟨hc, hgt⟩
  · have hn := Std.Asymm.asymm _ _ hlt
    have hne : left ≠ right := fun heq => hn (heq ▸ hlt)
    have hle : comparison ≤ 0 := by omega
    have h0 : comparison ≠ 0 := by omega
    cases op <;> simp_all [decides, relates]
  · have hn : ¬ left < left := fun h => Std.Asymm.asymm _ _ h h
    cases op <;> simp_all [decides, relates]
  · have hn := Std.Asymm.asymm _ _ hgt
    have hne : left ≠ right := fun heq => hn (heq ▸ hgt)
    have hle : ¬ comparison ≤ 0 := by omega
    have hge : 0 ≤ comparison := by omega
    have h0 : comparison ≠ 0 := by omega
    cases op <;> simp_all [decides, relates]

theorem agrees_threeWay {α β : Type} [LT α] [DecidableLT α] [LT β] {left right : α} {x y : β}
    (hlt : left < right → x < y) (hgt : right < left → y < x)
    (heq : ¬ left < right → ¬ right < left → x = y) : Agrees (threeWay left right) x y := by
  unfold threeWay
  split
  · exact .inl ⟨by decide, hlt ‹_›⟩
  · split
    · exact .inr (.inr ⟨by decide, hgt ‹_›⟩)
    · exact .inr (.inl ⟨rfl, heq ‹_› ‹_›⟩)

theorem compareMagnitudes_agrees (left right : List (Fin 10)) :
    Agrees (compareMagnitudes (Digits.normalized left) (Digits.normalized right)) (value left)
      (value right) := by
  unfold compareMagnitudes
  split
  · split
    · exact .inl ⟨by decide, value_lt_of_length_lt ‹_›⟩
    · exact .inr (.inr ⟨by decide, value_lt_of_length_lt (by omega)⟩)
  · rename_i hl
    rw [not_not] at hl
    rw [← value_normalized left, ← value_normalized right]
    split
    · rename_i hne
      split
      · exact .inl ⟨by decide, value_lt_of_lex hl ‹_›⟩
      · rename_i hn
        refine .inr (.inr ⟨by decide, value_lt_of_lex hl.symm ?_⟩)
        exact ((Std.lt_trichotomy _ _).resolve_left hn).resolve_left hne
    · rename_i heq
      exact .inr (.inl ⟨rfl, congrArg value (not_not.mp heq)⟩)

/-- The sign that `compareIntegerLiterals` compares first; zero has none. -/
theorem IntegerLiteral.value_eq (literal : IntegerLiteral) :
    literal.value = (if literal.normalized.1 then -(Digits.value literal.magnitude : Int)
      else Digits.value literal.magnitude) ∧
    (literal.normalized.1 = true → 0 < Digits.value literal.magnitude) := by
  simp only [value, normalized, Bool.and_eq_true, decide_eq_true_eq, ne_eq,
    Digits.normalized_eq_zero_iff]
  by_cases hz : Digits.value literal.magnitude = 0
  · simp [hz]
  · exact ⟨by simp [hz], fun _ => Nat.pos_of_ne_zero hz⟩

theorem compareIntegerLiterals_agrees (left right : IntegerLiteral) :
    Agrees (compareIntegerLiterals left right) left.value right.value := by
  have hm := compareMagnitudes_agrees left.magnitude right.magnitude
  obtain ⟨hl, hp⟩ := left.value_eq
  obtain ⟨hr, hrp⟩ := right.value_eq
  have hs : ∀ literal : IntegerLiteral,
    literal.normalized.2 = Digits.normalized literal.magnitude :=
    fun _ => rfl
  rw [hl, hr, compareIntegerLiterals, hs, hs]
  unfold Agrees at hm ⊢
  cases hf : left.normalized.1 <;> cases hg : right.normalized.1 <;>
    simp_all <;> omega

/-! Types. -/

def BoundScalar.hasType : BoundScalar → BoundType → Bool
  | .null, _ | .uint32 _, .uint32 | .int64 _, .int64 | .boolean _, .boolean | .varchar _, .varchar
  | .integer _, .integer => Bool.true
  | _, _ => Bool.false

/-- Two scalars of one type compare as their values do, and NULL with nothing. -/
theorem compareTruth_eq (hl : l.hasType type = true) (hr : r.hasType type = true)
    (ho : op ≠ .and ∧ op ≠ .or) :
    compareTruth op l r =
      .ok (ofKleene (l.datum.bind fun x => r.datum.bind fun y => op.compares x y)) := by
  have hd : ∀ {α : Type} [LT α] [DecidableLT α] [DecidableEq α] [Std.Asymm (fun a b : α => a < b)]
      {left right : α} {comparison : Int}, Agrees comparison left right →
      (do let res ← op.decides comparison; return truthOfBool res : SqlResult TruthValue) =
        .ok (ofKleene (some (op.relates left right))) := by
    intro _ _ _ _ _ _ _ _ h
    rw [decides_of_agrees h ho]
    rfl
  cases l with
  | null => rfl
  | uint32 left =>
    cases r with
    | null => rfl
    | uint32 right =>
      exact hd (agrees_threeWay (fun h => Int.ofNat_lt.mpr (UInt32.lt_iff_toNat_lt.mp h))
        (fun h => Int.ofNat_lt.mpr (UInt32.lt_iff_toNat_lt.mp h)) fun hlt hgt => by
          rw [UInt32.lt_iff_toNat_lt] at hlt hgt
          omega)
    | _ =>
      cases type <;> cases hl
      cases hr
  | int64 left =>
    cases r with
    | null => rfl
    | int64 right =>
      exact hd (agrees_threeWay Int64.lt_iff_toInt_lt.mp Int64.lt_iff_toInt_lt.mp fun hlt hgt => by
          rw [Int64.lt_iff_toInt_lt] at hlt hgt
          omega)
    | _ =>
      cases type <;> cases hl
      cases hr
  | boolean left =>
    cases r with
    | null => rfl
    | boolean right => exact hd (by cases left <;> cases right <;> simp [Agrees])
    | _ =>
      cases type <;> cases hl
      cases hr
  | varchar left =>
    cases r with
    | null => rfl
    | varchar right =>
      exact hd (agrees_threeWay id id fun hlt hgt =>
        ((Std.lt_trichotomy _ _).resolve_left hlt).resolve_right hgt)
    | _ =>
      cases type <;> cases hl
      cases hr
  | integer left =>
    cases r with
    | null => rfl
    | integer right => exact hd (compareIntegerLiterals_agrees left right)
    | _ =>
      cases type <;> cases hl
      cases hr

/-- The expression evaluates to a scalar of its type, which has this value. -/
def Denotes (row : RowValues) (bound : BoundExpression) (meaning : Option Datum) : Prop :=
  ∃ scalar, evaluateScalar row bound = .ok scalar ∧ scalar.hasType bound.type = true ∧
    scalar.datum = meaning

section
variable {bound left right left' right' : BoundExpression} {meaning x y : Option Datum}
  {kleene : Option Bool} {span : SourceSpan} {literal : SqlLiteral} {column : ColumnDefinition}
  {value : Value} {magnitude : Nat}

theorem truthOfScalar_eq (h : l.hasType type = true) (ht : type = .boolean ∨ type = .null) :
    truthOfScalar l = .ok (ofKleene (asTruth l.datum)) := by
  cases l with
  | null | boolean => rfl
  | _ => rcases ht with rfl | rfl <;> cases h

/-- An operator is as true as its scalar says. -/
theorem scalarFrom_truth {res : SqlResult TruthValue} (h : (do match ← res with
      | .unknown => return .null
      | .true => return .boolean Bool.true
      | .false => return .boolean Bool.false : SqlResult BoundScalar) = .ok l) :
    res = .ok (ofKleene (asTruth l.datum)) := by
  cases res with
  | error e => cases h
  | ok t => cases t <;> cases h <;> rfl

theorem Denotes.truth (h : Denotes row bound meaning) (hb : requireBoolean bound = .ok ()) :
    evaluateTruth row bound = .ok (ofKleene (asTruth meaning)) := by
  obtain ⟨scalar, he, ht, rfl⟩ := h
  have hl := require_ok.mp hb
  cases bound with
  | column span type ix =>
    have hc : scalarFrom (.ok .unknown) row (.column span type ix) = .ok scalar := he
    rw [evaluateTruth, hc, ok_bind]
    exact truthOfScalar_eq ht hl
  | literal span type value =>
    cases he
    exact truthOfScalar_eq ht hl
  | unary | binary => exact scalarFrom_truth he

theorem denotes_unary {operand : BoundExpression}
    (h : evaluateTruth row (.unary span .boolean operand) = .ok (ofKleene kleene)) :
    Denotes row (.unary span .boolean operand) (kleene.map .truth) := by
  rw [Denotes, evaluateScalar, h]
  rcases kleene with _ | _ | _ <;> exact ⟨_, rfl, rfl, rfl⟩

theorem denotes_binary
    (h : evaluateTruth row (.binary span .boolean op left right) = .ok (ofKleene kleene)) :
    Denotes row (.binary span .boolean op left right) (kleene.map .truth) := by
  rw [Denotes, evaluateScalar, h]
  rcases kleene with _ | _ | _ <;> exact ⟨_, rfl, rfl, rfl⟩

/-! Conversion of literals. -/

/-- The bound that is checked before the multiplication is the bound on the result. -/
theorem accumulateMagnitude_exact {ds : List (Fin 10)} {mx : Nat} {name : String} (hm : 9 ≤ mx) :
    accumulateMagnitude ds mx literal name = if Digits.value ds ≤ mx then .ok (Digits.value ds)
      else .error
        (.sql .constraint ("integer literal is out of range for " ++ name) literal.span) := by
  suffices hf : ∀ start ≤ mx, ds.foldlM (accumulateDigit mx literal name) start =
      if ds.foldl Digits.push start ≤ mx then .ok (ds.foldl Digits.push start)
      else .error
        (.sql .constraint ("integer literal is out of range for " ++ name) literal.span) from
    hf 0 (Nat.zero_le _)
  induction ds with
  | nil =>
    intro start hle
    exact (if_pos hle).symm
  | cons digit ds ih =>
    intro start _
    have hd := digit.isLt
    rw [List.foldlM_cons, List.foldl_cons, accumulateDigit]
    by_cases hle : start ≤ (mx - digit) / 10
    · rw [require_of _ hle]
      exact ih (start * 10 + digit) (by omega)
    · have hgt : mx < ds.foldl Digits.push (Digits.push start digit) :=
        Nat.lt_of_lt_of_le (by unfold Digits.push; omega) (Digits.le_foldl _ _)
      rw [if_neg hgt.not_ge, require, if_neg hle]
      rfl

theorem accumulateMagnitude_eq {ds : List (Fin 10)} {mx : Nat} {name : String}
    (hm : 9 ≤ mx) (h : accumulateMagnitude ds mx literal name = .ok magnitude) :
    magnitude = Digits.value ds ∧ magnitude ≤ mx := by
  rw [accumulateMagnitude_exact hm] at h
  split at h
  · cases h
    exact ⟨rfl, ‹_›⟩
  · cases h

theorem convertInteger_sound {integer : IntegerLiteral}
    (h : convertInteger integer literal column = .ok value) :
    (valueScalar value).hasType (boundType column.type) = true ∧
      value.datum = some (.number integer.value) := by
  unfold convertInteger at h
  split at h
  · rename_i ht
    simp only [ok_iff] at h
    obtain ⟨_, hs, magnitude, hm, rfl⟩ := h
    obtain ⟨rfl, hle⟩ := accumulateMagnitude_eq (by decide) hm
    rw [ht, Value.datum, valueScalar, BoundScalar.datum, IntegerLiteral.value, hs,
      UInt32.toNat_ofNat_of_lt' (Nat.lt_succ_of_le hle)]
    exact ⟨rfl, rfl⟩
  · rename_i ht
    simp only [bind_ok] at h
    obtain ⟨magnitude, hm, h⟩ := h
    obtain ⟨rfl, hle⟩ := accumulateMagnitude_eq (by split <;> decide) hm
    rw [ht, IntegerLiteral.value]
    split at h
    · rename_i hs
      cases h
      rw [hs, if_neg Bool.false_ne_true] at hle ⊢
      rw [Value.datum, valueScalar, BoundScalar.datum, Int64.toInt_ofNat_of_lt (by omega)]
      exact ⟨rfl, rfl⟩
    · rename_i hs
      rw [Bool.not_eq_false] at hs
      rw [hs, if_pos rfl] at hle ⊢
      split at h
      · rename_i hn
        cases h
        rw [hn]
        exact ⟨rfl, rfl⟩
      · cases h
        rw [Value.datum, valueScalar, BoundScalar.datum, ← Int64.ofInt_eq_ofNat, ← Int64.ofInt_neg,
          Int64.toInt_ofInt_of_le (by omega) (by omega)]
        exact ⟨rfl, rfl⟩
  · cases h

theorem convertLiteral_sound (h : convertLiteral literal column = .ok value) :
    (valueScalar value).hasType (boundType column.type) = true ∧
      value.datum = literal.value.datum := by
  unfold convertLiteral at h
  split at h
  · rename_i hl
    simp only [ok_iff] at h
    obtain ⟨_, _, rfl⟩ := h
    rw [hl]
    exact ⟨rfl, rfl⟩
  · rename_i hl
    simp only [ok_iff] at h
    obtain ⟨_, ht, rfl⟩ := h
    rw [hl, ht]
    exact ⟨rfl, rfl⟩
  · rename_i hl
    simp only [ok_iff] at h
    obtain ⟨_, ht, _, _, rfl⟩ := h
    rw [hl, ht]
    exact ⟨rfl, rfl⟩
  · rename_i hl
    rw [hl]
    exact convertInteger_sound h

theorem denotes_literal (h : bindExpression schema (.literal span literal) = .ok bound) :
    Denotes row bound literal.value.datum := by
  cases h
  refine ⟨_, rfl, ?_, rfl⟩
  cases literal.value <;> rfl

theorem convertContextualLiteral_denotes
    (hb : bindExpression schema (.literal span literal) = .ok left)
    (h : convertContextualLiteral left literal column = .ok left') :
    Denotes row left' literal.value.datum := by
  unfold convertContextualLiteral at h
  split at h
  · cases h
    exact denotes_literal hb
  · cases hb
    simp only [ok_iff] at h
    obtain ⟨value, hv, rfl⟩ := h
    obtain ⟨ht, hd⟩ := convertLiteral_sound hv
    exact ⟨_, rfl, ht, hd⟩

theorem convertOperands_denotes {e₁ e₂ : Expression} (hl : bindExpression schema e₁ = .ok left)
    (hr : bindExpression schema e₂ = .ok right) (hx : Denotes row left (e₁.value schema row))
    (hy : Denotes row right (e₂.value schema row))
    (h : convertOperands left right e₁ e₂ schema = .ok (left', right')) :
    Denotes row left' (e₁.value schema row) ∧ Denotes row right' (e₂.value schema row) := by
  unfold convertOperands at h
  split at h
  · simp only [ok_iff] at h
    obtain ⟨_, _, _, hc, rfl, rfl⟩ := h
    exact ⟨hx, convertContextualLiteral_denotes hr hc⟩
  · simp only [ok_iff] at h
    obtain ⟨_, _, _, hc, rfl, rfl⟩ := h
    exact ⟨convertContextualLiteral_denotes hl hc, hy⟩
  · cases h
    exact ⟨hx, hy⟩

theorem validateComparisonTypes_denotes {e₁ e₂ : Expression}
    (hl : bindExpression schema e₁ = .ok left) (hr : bindExpression schema e₂ = .ok right)
    (hx : Denotes row left (e₁.value schema row)) (hy : Denotes row right (e₂.value schema row))
    (h : validateComparisonTypes op left right e₁ e₂ schema span = .ok (left', right')) :
    Denotes row left' (e₁.value schema row) ∧ Denotes row right' (e₂.value schema row) ∧
      (left'.type = right'.type ∨ left'.type = .null ∨ right'.type = .null) := by
  simp only [validateComparisonTypes, bind_ok] at h
  obtain ⟨_, _, h⟩ := h
  split at h
  · rename_i hn
    cases h
    exact ⟨hx, hy, .inr hn⟩
  · simp only [ok_iff] at h
    obtain ⟨_, hc, _, ht, rfl⟩ := h
    obtain ⟨hx', hy'⟩ := convertOperands_denotes hl hr hx hy hc
    exact ⟨hx', hy', .inl ht⟩

/-! Evaluation. -/

theorem evaluateTruth_comparison (hx : Denotes row left x) (hy : Denotes row right y)
    (hty : left.type = right.type ∨ left.type = .null ∨ right.type = .null)
    (ho : op ≠ .and ∧ op ≠ .or) :
    evaluateTruth row (.binary span .boolean op left right) =
      .ok (ofKleene (x.bind fun x => y.bind fun y => op.compares x y)) := by
  obtain ⟨l, hl, hlt, rfl⟩ := hx
  obtain ⟨r, hr, ht, rfl⟩ := hy
  have hrn : evaluateTruth row (.binary span .boolean op left right) = compareTruth op l r := by
    have hc : evaluateTruth row (.binary span .boolean op left right) = (do
        let l ← evaluateScalar row left
        let r ← evaluateScalar row right
        compareTruth op l r) := by
      cases op with
      | and => exact absurd rfl ho.1
      | or => exact absurd rfl ho.2
      | _ => rfl
    rw [hc, hl, ok_bind, hr, ok_bind]
  rw [hrn]
  rcases hty with hty | hn | hn
  · exact compareTruth_eq hlt (hty ▸ ht) ho
  · rw [hn] at hlt
    cases l with
    | null => rfl
    | _ => cases hlt
  · rw [hn] at ht
    cases r with
    | null => cases l <;> rfl
    | _ => cases ht

section
variable {a b : Option Bool} (hl : evaluateTruth row left = .ok (ofKleene a))
  (hr : evaluateTruth row right = .ok (ofKleene b))
include hl hr

theorem evaluateTruth_and :
    evaluateTruth row (.binary span .boolean .and left right) = .ok (ofKleene (kleeneAnd a b)) := by
  rw [evaluateTruth, hl, ok_bind, hr]
  rcases a with _ | _ | _ <;> rcases b with _ | _ | _ <;> rfl

theorem evaluateTruth_or :
    evaluateTruth row (.binary span .boolean .or left right) = .ok (ofKleene (kleeneOr a b)) := by
  rw [evaluateTruth, hl, ok_bind, hr]
  rcases a with _ | _ | _ <;> rcases b with _ | _ | _ <;> rfl

end

theorem denotes_identifier {name : List UInt8} (hr : schema.validateValues row = .ok ())
    (h : bindExpression schema (.identifier span name) = .ok bound) :
    Denotes row bound ((Expression.identifier span name).value schema row) := by
  simp only [bindExpression, ok_iff] at h
  obtain ⟨ix, hi, column, hc, rfl⟩ := h
  have hf : schema.findColumn name = .ok (some ix) := by
    unfold resolveColumn at hi
    split at hi <;> cases hi
    assumption
  have hc : schema.column ix = .ok column := by
    unfold fromDatabase at hc
    cases hs : schema.column ix with
    | error e => rw [hs] at hc; cases hc
    | ok other => rw [hs] at hc; cases hc; rfl
  obtain ⟨value, hv, hl⟩ := Schema.validateValues_get hr hc
  refine ⟨valueScalar value, ?_, ?_, ?_⟩
  · simp [evaluateScalar, scalarFrom, hv]
  · show (valueScalar value).hasType (boundType column.type) = true
    unfold Schema.validateValue at hl
    split at hl <;> simp_all [valueScalar, BoundScalar.hasType, boundType]
  · rw [Expression.value, hf]
    simp [hv, Value.datum]

/-- A bound expression evaluates on every row of the schema, to the value of its text. -/
theorem bindExpression_denotes (hw : schema.validateValues row = .ok ()) {e : Expression}
    (h : bindExpression schema e = .ok bound) : Denotes row bound (e.value schema row) := by
  induction e generalizing bound with
  | identifier span name => exact denotes_identifier hw h
  | literal span literal => exact denotes_literal h
  | unary span operand ih =>
    simp only [bindExpression, ok_iff] at h
    obtain ⟨inner, hi, _, hbo, rfl⟩ := h
    refine denotes_unary ?_
    rw [evaluateTruth, (ih hi).truth hbo]
    rcases asTruth (operand.value schema row) with _ | _ | _ <;> rfl
  | binary span op e₁ e₂ ih₁ ih₂ =>
    simp only [bindExpression, bind_ok] at h
    obtain ⟨left, hl, right, hr, h⟩ := h
    have hx := ih₁ hl
    have hy := ih₂ hr
    split at h
    · rename_i ho
      simp only [ok_iff] at h
      obtain ⟨_, hb, _, hbr, rfl⟩ := h
      rcases ho with rfl | rfl
      · exact denotes_binary (evaluateTruth_and (hx.truth hb) (hy.truth hbr))
      · exact denotes_binary (evaluateTruth_or (hx.truth hb) (hy.truth hbr))
    · rename_i ho
      simp only [ok_iff] at h
      obtain ⟨⟨left', right'⟩, hor, rfl⟩ := h
      obtain ⟨hx', hy', ht⟩ := validateComparisonTypes_denotes hl hr hx hy hor
      rw [not_or] at ho
      have hv : (Expression.binary span op e₁ e₂).value schema row =
          ((e₁.value schema row).bind fun x => (e₂.value schema row).bind fun y =>
            op.compares x y).map .truth := by
        cases op with
        | and => exact absurd rfl ho.1
        | or => exact absurd rfl ho.2
        | _ => rfl
      rw [hv]
      exact denotes_binary (evaluateTruth_comparison hx' hy' ht ho)

end

/-- WHERE on a row of the schema: if the expression binds to a boolean, its evaluation
throws nothing and returns the strong Kleene value of its text. -/
theorem where_evaluation_sound {expression : Expression} {bound : BoundExpression}
    (hbind : bindExpression schema expression = .ok bound) (hbool : requireBoolean bound = .ok ())
    (hrow : schema.validateValues row = .ok ()) :
    evaluateTruth row bound = .ok (ofKleene (asTruth (expression.value schema row))) :=
  (bindExpression_denotes hrow hbind).truth hbool

def idSchema : Schema := ⟨[⟨[105, 100], .uint32, Bool.false, Bool.true, 0⟩]⟩

/-- `NOT id < 5`. -/
def notBelowFive : Expression :=
  .unary {} (.binary {} .less (.identifier {} [105, 100])
    (.literal {} ⟨{}, .integer ⟨Bool.false, [5]⟩⟩))

theorem where_evaluation_sound_not_less :
    ∃ bound, bindExpression idSchema notBelowFive = .ok bound ∧
      evaluateTruth [.uint32 3] bound = .ok .false :=
  ⟨_, rfl, @where_evaluation_sound idSchema [.uint32 3] notBelowFive _ rfl rfl rfl⟩

end MiniDb.Sql
