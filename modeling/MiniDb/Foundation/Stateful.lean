import Mathlib.Logic.Basic

/-!
Calls that change a state and may throw, as `EStateM` programs: a throw keeps
the state it was thrown in. `Ensures` says of one call from one state what the
state it leaves satisfies, for a normal return and for a throw; its rules take a
program apart in the order it runs.
-/
namespace Stateful

variable {ε σ τ α β : Type}
variable {call : EStateM ε σ α} {next : α → EStateM ε σ β}

/-- However the call from `s` ends, the state it leaves is allowed for that end. -/
def Ensures (call : EStateM ε σ α) (s : σ) (returned : α → σ → Prop) (raised : ε → σ → Prop) :
    Prop :=
  match call s with
  | .ok a t => returned a t
  | .error e t => raised e t

/-- A fallible value used inside a call; it leaves the state alone. -/
def fromExcept : Except ε α → EStateM ε σ α
  | .ok a => pure a
  | .error e => throw e

/-- A call on one part of the state. -/
def onPart (part : σ → τ) (put : σ → τ → σ) (call : EStateM ε τ α) : EStateM ε σ α := fun s =>
  match call (part s) with
  | .ok a t => .ok a (put s t)
  | .error e t => .error e (put s t)

/-- A call made only under a condition. -/
def callIf (condition : Prop) [Decidable condition] (call : EStateM ε σ PUnit) :
    EStateM ε σ PUnit :=
  if condition then call else pure ⟨⟩

/-- The state a call leaves, whether it returned or threw. -/
def finalState (call : EStateM ε σ α) (s : σ) : σ :=
  match call s with
  | .ok _ t => t
  | .error _ t => t

/-- Whether it returns or throws, the call ends in `P`. -/
abbrev Always (call : EStateM ε σ α) (s : σ) (P : σ → Prop) : Prop :=
  Ensures call s (fun _ => P) (fun _ => P)

/-- Runs a check on what a call returned and left; a throw fails every check. -/
def returnsWith (x : EStateM.Result ε σ α) (check : α → σ → Bool) : Bool :=
  match x with
  | .ok a s => check a s
  | .error _ _ => false

theorem returnsWith_iff {x : EStateM.Result ε σ α} {check : α → σ → Bool} :
    returnsWith x check = true ↔ ∃ a s, x = .ok a s ∧ check a s = true := by
  cases x with
  | ok a s => exact ⟨fun h => ⟨a, s, rfl, h⟩, fun ⟨_, _, h, hc⟩ => by cases h; exact hc⟩
  | error e s => exact ⟨nofun, nofun⟩

variable {ret : α → σ → Prop} {raised : ε → σ → Prop} {s : σ}

theorem ensures_of_ok {a : α} {t : σ} (h : call s = .ok a t) :
    Ensures call s ret raised ↔ ret a t := by
  simp only [Ensures, h]

theorem Ensures.imp {ret' : α → σ → Prop} {raised' : ε → σ → Prop} (h : Ensures call s ret raised)
    (hr : ∀ a t, ret a t → ret' a t) (hs : ∀ e t, raised e t → raised' e t) :
    Ensures call s ret' raised' := by
  unfold Ensures at h ⊢
  split at h
  · exact hr _ _ h
  · exact hs _ _ h

theorem ensures_true (call : EStateM ε σ α) (s : σ) :
    Ensures call s (fun _ _ => True) (fun _ _ => True) := by
  unfold Ensures
  split <;> trivial

theorem Ensures.final {P : σ → Prop} (h : Always call s P) : P (finalState call s) := by
  unfold Always Ensures at h
  unfold finalState
  split at h
  · exact h
  · exact h

/-- A call that does not throw returns. -/
theorem Ensures.returns (h : Ensures call s ret fun _ _ => False) :
    ∃ a t, call s = .ok a t ∧ ret a t := by
  unfold Ensures at h
  cases hc : call s with
  | ok a t =>
    rw [hc] at h
    exact ⟨a, t, rfl, h⟩
  | error e t =>
    rw [hc] at h
    exact h.elim

@[simp] theorem ensures_pure {a : α} : Ensures (pure a) s ret raised ↔ ret a s := Iff.rfl

@[simp] theorem ensures_throw {e : ε} : Ensures (throw e) s ret raised ↔ raised e s := Iff.rfl

@[simp] theorem ensures_get {ret : σ → σ → Prop} :
    Ensures get s ret raised ↔ ret s s := Iff.rfl

@[simp] theorem ensures_set {t : σ} {ret : PUnit → σ → Prop} :
    Ensures (set t) s ret raised ↔ ret ⟨⟩ t := Iff.rfl

@[simp] theorem ensures_modify {f : σ → σ} {ret : PUnit → σ → Prop} :
    Ensures (modify f) s ret raised ↔ ret ⟨⟩ (f s) := Iff.rfl

@[simp] theorem ensures_bind {ret : β → σ → Prop} :
    Ensures (call >>= next) s ret raised ↔
      Ensures call s (fun a t => Ensures (next a) t ret raised) raised := by
  simp only [Ensures, bind, EStateM.bind]
  cases call s with
  | ok a t => rfl
  | error e t => rfl

theorem run_tryCatch {handler : ε → EStateM ε σ α} :
    tryCatch call handler s = match call s with
      | .ok a t => .ok a t
      | .error e t => handler e t := by
  change EStateM.tryCatch call handler s = _
  delta EStateM.tryCatch
  cases call s <;> rfl

theorem ensures_tryCatch {handler : ε → EStateM ε σ α} :
    Ensures (tryCatch call handler) s ret raised ↔
      Ensures call s ret (fun e t => Ensures (handler e) t ret raised) := by
  simp only [Ensures, run_tryCatch]
  cases call s with
  | ok a t => rfl
  | error e t => rfl

theorem ensures_fromExcept {x : Except ε α} :
    Ensures (fromExcept x) s ret raised ↔
      (∀ a, x = .ok a → ret a s) ∧ ∀ e, x = .error e → raised e s := by
  cases x with
  | ok a => simp [fromExcept]
  | error e => simp [fromExcept]

theorem ensures_onPart {part : σ → τ} {put : σ → τ → σ} {call : EStateM ε τ α} :
    Ensures (onPart part put call) s ret raised ↔
      Ensures call (part s) (fun a t => ret a (put s t)) (fun e t => raised e (put s t)) := by
  simp only [Ensures, onPart]
  cases call (part s) with
  | ok a t => rfl
  | error e t => rfl

theorem ensures_callIf {cnd : Prop} [Decidable cnd] {call : EStateM ε σ PUnit}
    {ret : PUnit → σ → Prop} :
    Ensures (callIf cnd call) s ret raised ↔
      if cnd then Ensures call s ret raised else ret ⟨⟩ s := by
  unfold callIf
  split <;> rfl

/-- The rules that take a call apart, in one for `simp only`. -/
theorem ensures_iff :
    (∀ {ε σ α β : Type} (call : EStateM ε σ α) (next : α → EStateM ε σ β) (s : σ) ret raised,
      Ensures (call >>= next) s ret raised ↔
        Ensures call s (fun a t => Ensures (next a) t ret raised) raised) ∧
    (∀ {ε σ : Type} (s : σ) ret (raised : ε → σ → Prop), Ensures get s ret raised ↔ ret s s) ∧
    (∀ {ε σ : Type} (f : σ → σ) (s : σ) ret (raised : ε → σ → Prop),
      Ensures (modify f) s ret raised ↔ ret ⟨⟩ (f s)) ∧
    (∀ {ε σ α : Type} (a : α) (s : σ) ret (raised : ε → σ → Prop),
      Ensures (pure a) s ret raised ↔ ret a s) ∧
    ∀ {ε σ α : Type} (x : Except ε α) (s : σ) ret raised, Ensures (fromExcept x) s ret raised ↔
        (∀ a, x = .ok a → ret a s) ∧ ∀ e, x = .error e → raised e s :=
  ⟨fun _ _ _ _ _ => ensures_bind, fun _ _ _ => ensures_get, fun _ _ _ _ => ensures_modify,
    fun _ _ _ _ => ensures_pure, fun _ _ _ _ => ensures_fromExcept⟩

/-- A loop whose body keeps an invariant and settles its own element keeps the
invariant and settles them all. -/
theorem ensures_forM_each {l : List α} {body : α → EStateM ε σ PUnit} {P : σ → Prop}
    {Q : α → σ → Prop} (hd : ∀ a ∈ l, ∀ t, P t → Ensures (body a) t
      (fun _ t' => P t' ∧ Q a t' ∧ ∀ b, Q b t → Q b t') raised) (hs : P s) :
    Ensures (l.forM body) s (fun _ t => P t ∧ (∀ a ∈ l, Q a t) ∧ ∀ b, Q b s → Q b t) raised := by
  induction l generalizing s with
  | nil => exact ⟨hs, by simp, fun _ h => h⟩
  | cons a l ih =>
    show Ensures (body a >>= fun _ => l.forM body) s _ _
    rw [ensures_bind]
    refine (hd a List.mem_cons_self s hs).imp ?_ (fun _ _ h => h)
    rintro _ t ⟨ht, hst, hk⟩
    refine (ih (fun b hb => hd b (List.mem_cons_of_mem a hb)) ht).imp ?_ (fun _ _ h => h)
    rintro _ last ⟨hl, ha, hk'⟩
    refine ⟨hl, ?_, fun b hb => hk' b (hk b hb)⟩
    intro b hb
    rcases List.mem_cons.mp hb with rfl | hb
    · exact hk' b hst
    · exact ha b hb

/-- A loop whose body keeps an invariant, also when it throws, keeps it. -/
theorem ensures_forM {l : List α} {body : α → EStateM ε σ PUnit} {P : σ → Prop}
    (hb : ∀ a ∈ l, ∀ t, P t → Always (body a) t P) (hs : P s) : Always (l.forM body) s P := by
  have he : ∀ a ∈ l, ∀ t, P t → Ensures (body a) t
      (fun _ t' => P t' ∧ True ∧ ∀ _ : α, True → True) (fun _ => P) := by
    intro a ha t ht
    exact (hb a ha t ht).imp (fun _ _ h => ⟨h, trivial, fun _ h => h⟩) (fun _ _ h => h)
  exact (ensures_forM_each he hs).imp (fun _ _ h => h.1) (fun _ _ h => h)

/-- How the steps of a call run, in one rule for `simp only`. -/
theorem run_eq :
    (∀ {ε σ α β : Type} (call : EStateM ε σ α) (next : α → EStateM ε σ β) (s : σ),
      (call >>= next) s = match call s with
        | .ok a t => next a t
        | .error e t => .error e t) ∧
    (∀ {ε σ : Type} (s : σ), (get : EStateM ε σ σ) s = .ok s s) ∧
    (∀ {ε σ : Type} (f : σ → σ) (s : σ), (modify f : EStateM ε σ PUnit) s = .ok ⟨⟩ (f s)) ∧
    (∀ {ε σ : Type} (s t : σ), (set t : EStateM ε σ PUnit) s = .ok ⟨⟩ t) ∧
    ∀ {ε σ α : Type} (a : α) (s : σ), (pure a : EStateM ε σ α) s = .ok a s :=
  ⟨fun _ _ _ => rfl, fun _ => rfl, fun _ _ => rfl, fun _ _ => rfl, fun _ _ => rfl⟩

/-- What a call does in full, once it is known to return. -/
theorem run_bind {a : α} {t : σ} (h : call s = .ok a t) : (call >>= next) s = next a t := by
  simp only [run_eq, h]

theorem run_bind_raised {e : ε} {t : σ} (h : call s = .error e t) :
    (call >>= next) s = .error e t := by
  simp only [run_eq, h]

theorem get_eq : (get : EStateM ε σ σ) = fun s => .ok s s := rfl

theorem run_get_bind {next : σ → EStateM ε σ β} : (get >>= next) s = next s s := rfl

/-- A sequence returns just when both its calls do. -/
theorem run_bind_ok {b : β} {t : σ} :
    (call >>= next) s = .ok b t ↔ ∃ a u, call s = .ok a u ∧ next a u = .ok b t := by
  simp only [run_eq]
  cases call s with
  | ok a u =>
    constructor
    · intro h
      exact ⟨a, u, rfl, h⟩
    · rintro ⟨_, _, h, hn⟩
      cases h
      exact hn
  | error e u => simp

theorem run_fromExcept_ok {x : Except ε α} {a : α} {t : σ} :
    fromExcept x s = .ok a t ↔ x = .ok a ∧ s = t := by
  cases x with
  | ok b => simp [fromExcept, run_eq]
  | error e =>
    constructor
    · intro h
      cases h
    · rintro ⟨h, _⟩
      cases h

theorem run_onPart_ok {part : σ → τ} {put : σ → τ → σ} {call : EStateM ε τ α} {a : α} {t : σ} :
    onPart part put call s = .ok a t ↔ ∃ u, call (part s) = .ok a u ∧ put s u = t := by
  unfold onPart
  cases call (part s) with
  | ok b u =>
    constructor
    · intro h
      cases h
      exact ⟨u, rfl, rfl⟩
    · rintro ⟨_, h, rfl⟩
      cases h
      rfl
  | error e u => simp

theorem run_get_ok {a t : σ} : (get : EStateM ε σ σ) s = .ok a t ↔ s = a ∧ s = t := by
  simp [run_eq]

theorem run_pure_ok {a b : α} {t : σ} : (pure a : EStateM ε σ α) s = .ok b t ↔ a = b ∧ s = t := by
  simp [run_eq]

end Stateful
