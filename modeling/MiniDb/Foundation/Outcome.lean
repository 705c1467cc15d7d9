import Mathlib.Logic.Basic

/-!
Fallible steps as `Except` values: guards, sequencing and folds.
Every rule reads a successful run backwards, so that a proof about code that
returned normally peels off one check at a time and never unfolds a failure.
-/
namespace Outcome

variable {ε α β σ : Type}
variable {x : Except ε α} {step : σ → α → Except ε σ}

def require (condition : Prop) [Decidable condition] (error : ε) : Except ε Unit :=
  if condition then .ok () else .error error

@[simp] theorem require_ok {cnd : Prop} [Decidable cnd] {error : ε} {u : Unit} :
    require cnd error = .ok u ↔ cnd := by
  unfold require
  split <;> simp_all

theorem require_of {cnd : Prop} [Decidable cnd] (error : ε) (h : cnd) :
    require cnd error = .ok () := by
  simp [h]

@[simp] theorem bind_ok {f : α → Except ε β} {b : β} :
    (x >>= f) = .ok b ↔ ∃ a, x = .ok a ∧ f a = .ok b := by
  cases x with
  | error e => simp [bind, Except.bind]
  | ok a => simp [bind, Except.bind]

@[simp] theorem map_ok {f : α → β} {b : β} : (f <$> x) = .ok b ↔ ∃ a, x = .ok a ∧ f a = b := by
  cases x with
  | error e => simp [Functor.map, Except.map]
  | ok a => simp [Functor.map, Except.map]

@[simp] theorem pure_ok {a b : α} : (pure a : Except ε α) = .ok b ↔ a = b := by
  simp [pure, Except.pure]

/-- The rules that take apart a computation that returned, in one for `simp only`. -/
theorem ok_iff :
    (∀ {ε α β : Type} (x : Except ε α) (f : α → Except ε β) (b : β),
      (x >>= f) = .ok b ↔ ∃ a, x = .ok a ∧ f a = .ok b) ∧
    (∀ {ε : Type} (c : Prop) [Decidable c] (e : ε) (u : Unit), require c e = .ok u ↔ c) ∧
    (∀ {ε α : Type} (a b : α), (pure a : Except ε α) = .ok b ↔ a = b) ∧
    (∀ {ε α : Type} (a b : α), (.ok a : Except ε α) = .ok b ↔ a = b) ∧
    ∀ {α β : Type} (a c : α) (b d : β), (a, b) = (c, d) ↔ a = c ∧ b = d :=
  ⟨fun _ _ _ => bind_ok, fun _ _ _ _ => require_ok, fun _ _ => pure_ok, fun _ _ => pure_ok,
    fun _ _ _ _ => Prod.mk.injEq .. ▸ Iff.rfl⟩

@[simp] theorem throw_ne_ok {e : ε} {a : α} : ¬ ((throw e : Except ε α) = .ok a) := by
  simp [throw, throwThe, MonadExceptOf.throw]

theorem ok_bind (a : α) (f : α → Except ε β) : ((Except.ok a : Except ε α) >>= f) = f a := rfl

theorem bind_of_ok {a : α} (h : x = .ok a) (f : α → Except ε β) : (x >>= f) = f a := by
  rw [h, ok_bind]

/-- Runs a check on the result of a step; a failed step fails every check. -/
def satisfies (x : Except ε α) (check : α → Bool) : Bool :=
  match x with
  | .ok a => check a
  | .error _ => false

/-- Two results are the same but for the error they may be. -/
theorem toOption_eq_iff {y : Except ε α} :
    x.toOption = y.toOption ↔ ∀ a, x = .ok a ↔ y = .ok a := by
  cases x with
  | error e =>
    cases y with
    | error e' => simp [Except.toOption]
    | ok b => simp [Except.toOption]
  | ok a =>
    cases y with
    | error e' => simp [Except.toOption]
    | ok b =>
      simp only [Except.toOption, Option.some.injEq, Except.ok.injEq]
      exact ⟨fun h c => by rw [h], fun h => ((h a).mp rfl).symm⟩

theorem satisfies_iff {check : α → Bool} :
    satisfies x check = true ↔ ∃ a, x = .ok a ∧ check a = true := by
  cases x with
  | error e => simp [satisfies]
  | ok a => simp [satisfies]

/-- A fold that returned normally carries every property its steps keep. -/
theorem foldlM_preserves {P : σ → Prop} {l : List α} {s t : σ}
    (ht : ∀ a ∈ l, ∀ s t, P s → step s a = .ok t → P t) (hs : P s) (h : l.foldlM step s = .ok t) :
    P t := by
  induction l generalizing s with
  | nil =>
    simp only [List.foldlM_nil, pure_ok] at h
    exact h ▸ hs
  | cons a l ih =>
    simp only [List.foldlM_cons, bind_ok] at h
    obtain ⟨s', hf, hr⟩ := h
    refine ih ?_ (ht a (by simp) s s' hs hf) hr
    intro b hb
    exact ht b (by simp [hb])

/-- A fold whose steps cannot fail from states that satisfy `P` returns, and
its result satisfies `P`. -/
theorem foldlM_total {P : σ → Prop} {l : List α} {s : σ}
    (hst : ∀ a ∈ l, ∀ s, P s → ∃ t, step s a = .ok t ∧ P t) (hs : P s) :
    ∃ t, l.foldlM step s = .ok t ∧ P t := by
  induction l generalizing s with
  | nil => exact ⟨s, rfl, hs⟩
  | cons a l ih =>
    obtain ⟨s', hf, hs'⟩ := hst a (by simp) s hs
    obtain ⟨t, hr, ht⟩ := ih (fun b hb => hst b (by simp [hb])) hs'
    exact ⟨t, by simp [List.foldlM_cons, hf, ok_bind, hr], ht⟩

theorem forM_ok {check : α → Except ε Unit} {l : List α} :
    l.forM check = .ok () ↔ ∀ a ∈ l, check a = .ok () := by
  induction l with
  | nil => simp [List.forM]
  | cons a l ih =>
    show (check a >>= fun _ => l.forM check) = .ok () ↔ _
    simp only [bind_ok, ih, List.forall_mem_cons]
    exact ⟨fun ⟨_, h⟩ => h, fun h => ⟨(), h⟩⟩

section
variable {f : α → Except ε β} {l : List α} {bs : List β}

theorem mapM_cons_ok {a : α} :
    (a :: l).mapM f = .ok bs ↔ ∃ b rest, f a = .ok b ∧ l.mapM f = .ok rest ∧ b :: rest = bs := by
  simp only [List.mapM_cons, ok_iff]
  exact ⟨fun ⟨b, hb, rest, hr, h⟩ => ⟨b, rest, hb, hr, h⟩,
    fun ⟨b, rest, hb, hr, h⟩ => ⟨b, hb, rest, hr, h⟩⟩

theorem mapM_total (h : ∀ a ∈ l, ∃ b, f a = .ok b) : ∃ bs, l.mapM f = .ok bs := by
  induction l with
  | nil => exact ⟨[], by simp⟩
  | cons a l ih =>
    obtain ⟨b, hb⟩ := h a (by simp)
    obtain ⟨rest, hr⟩ := ih fun c hc => h c (by simp [hc])
    exact ⟨b :: rest, mapM_cons_ok.mpr ⟨b, rest, hb, hr, rfl⟩⟩

theorem mem_of_mapM (h : l.mapM f = .ok bs) {b : β} : b ∈ bs ↔ ∃ a ∈ l, f a = .ok b := by
  induction l generalizing bs with
  | nil =>
    simp only [List.mapM_nil, pure_ok] at h
    simp [← h]
  | cons a l ih =>
    obtain ⟨c, rest, hc, hr, rfl⟩ := mapM_cons_ok.mp h
    simp [ih hr, hc, eq_comm]

/-- What a step hands on, the whole list of results hands on. -/
theorem map_of_mapM {γ : Type} {g : β → γ} {k : α → γ} (h : l.mapM f = .ok bs)
    (hf : ∀ a b, f a = .ok b → g b = k a) : bs.map g = l.map k := by
  induction l generalizing bs with
  | nil =>
    simp only [List.mapM_nil, pure_ok] at h
    simp [← h]
  | cons a l ih =>
    obtain ⟨c, rest, hc, hr, rfl⟩ := mapM_cons_ok.mp h
    simp [ih hr, hf a c hc]

end

theorem foldlM_append_ok {l r : List α} {s t : σ} :
    (l ++ r).foldlM step s = .ok t ↔ ∃ m, l.foldlM step s = .ok m ∧ r.foldlM step m = .ok t := by
  rw [List.foldlM_append, bind_ok]

/-- A loop over the numbers below `n` runs through the states that each round reaches. -/
theorem foldlM_range (step : σ → Nat → Except ε σ) (state : Nat → σ) {n : Nat}
    (h : ∀ k < n, step (state k) k = .ok (state (k + 1))) :
    (List.range n).foldlM step (state 0) = .ok (state n) := by
  induction n with
  | zero => rfl
  | succ n ih =>
    rw [List.range_succ, foldlM_append_ok]
    refine ⟨_, ih fun k hk => h k (Nat.lt_succ_of_lt hk), ?_⟩
    rw [List.foldlM_cons, h n (Nat.lt_succ_self n)]
    rfl

end Outcome
