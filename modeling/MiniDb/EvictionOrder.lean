import MiniDb.LruKReplacer
import Mathlib.Logic.Function.Basic

/-!
The order of eviction against the whole history of accesses. The replacer keeps
the last `k` times of a frame only; `Usage` keeps them all, from the calls that
returned. Times are never given out twice, so the candidate order never comes to
the frame number.
-/
namespace MiniDb
open Outcome Stateful LruKReplacer Candidate List

inductive ReplacerOperation
  | recordAccess (frameId : Nat)
  | setEvictable (frameId : Nat) (evictable : Bool)
  | remove (frameId : Nat)
  | evict
  deriving DecidableEq

/-- What a call that returned has done to the frames. -/
inductive FrameEvent
  | accessed (frameId : Nat)
  | marked (frameId : Nat) (evictable : Bool)
  | dropped (frameId : Nat)
  | nothing

def perform : ReplacerOperation → ReplacerM FrameEvent
  | .recordAccess frameId => do
    recordAccess frameId
    return .accessed frameId
  | .setEvictable frameId evictable => do
    setEvictable frameId evictable
    return .marked frameId evictable
  | .remove frameId => do
    return if ← remove frameId then .dropped frameId else .nothing
  | .evict => do
    return (← evict).elim .nothing .dropped

/-- Every access of a frame since it was last removed or evicted, the oldest first. -/
structure Usage where
  clock : Nat
  accesses : Nat → List Nat
  evictable : Nat → Bool

namespace Usage

def fresh : Usage := ⟨0, fun _ => [], fun _ => false⟩

def record (u : Usage) : FrameEvent → Usage
  | .accessed f => { u with
    clock := u.clock + 1
    accesses := Function.update u.accesses f (u.accesses f ++ [u.clock + 1]) }
  | .marked f evictable => { u with evictable := Function.update u.evictable f evictable }
  | .dropped f => { u with
    accesses := Function.update u.accesses f []
    evictable := Function.update u.evictable f false }
  | .nothing => u

def Few (u : Usage) (k f : Nat) : Prop := (u.accesses f).length < k

instance (u : Usage) (k f : Nat) : Decidable (u.Few k f) := inferInstanceAs (Decidable (_ < _))

def firstAccess (u : Usage) (f : Nat) : Nat := (u.accesses f).headD 0

/-- The `k`-th most recent access. -/
def kthAccess (u : Usage) (k f : Nat) : Nat := (u.accesses f).reverse.getD (k - 1) 0

/-- A frame with few accesses and the oldest first one; if there is none, the frame
with the oldest `k`-th most recent access. -/
def IsVictim (u : Usage) (k f : Nat) : Prop :=
  u.evictable f = true ∧
    ((u.Few k f ∧ ∀ g, u.evictable g = true → u.Few k g → g ≠ f →
      u.firstAccess f < u.firstAccess g) ∨
      (∀ g, u.evictable g = true → ¬u.Few k g) ∧
        ∀ g, u.evictable g = true → g ≠ f → u.kthAccess k f < u.kthAccess k g)

def candidate (u : Usage) (k f : Nat) : Candidate :=
  ⟨decide (u.Few k f), if u.Few k f then u.firstAccess f else u.kthAccess k f, f⟩

/-- What the replacer keeps of a frame. -/
def entry (u : Usage) (k f : Nat) : ReplacerEntry :=
  ⟨(u.accesses f).drop ((u.accesses f).length - k), !(u.accesses f).isEmpty, u.evictable f⟩

/-- Times grow, and no time belongs to two frames. -/
structure Timed (u : Usage) : Prop where
  past : ∀ f, ∀ t ∈ u.accesses f, t ≤ u.clock
  apart : ∀ f g, ∀ t ∈ u.accesses f, t ∈ u.accesses g → f = g

end Usage

/-- The state after one call, returned or not, with the usage it leaves. -/
def afterOperation (state : LruKReplacer × Usage) (operation : ReplacerOperation) :
    LruKReplacer × Usage :=
  match perform operation state.1 with
  | .ok event r => (r, state.2.record event)
  | .error _ r => (r, state.2)

def Ordered (r : LruKReplacer) : Prop := r.candidates.Pairwise fun c d => c.less d = true

structure Reflects (k : Nat) (state : LruKReplacer × Usage) : Prop where
  configured : state.1.k = k
  sound : state.1.Sound
  ordered : Ordered state.1
  clock : state.1.currentTimestamp = state.2.clock
  timed : state.2.Timed
  entries : ∀ f, state.1.entries[f]?.getD .blank = state.2.entry state.1.k f

variable {f g k : Nat} {r : LruKReplacer} {u : Usage} {entry : ReplacerEntry} {c d : Candidate}

/-! Candidates. -/

theorem Candidate.less_trans {e : Candidate} (h : c.less d = true) (h' : d.less e = true) :
    c.less e = true := by
  unfold less at *
  grind

theorem Candidate.less_total (h : c ≠ d) : c.less d = true ∨ d.less c = true := by
  obtain ⟨_, _, _⟩ := c
  obtain ⟨_, _, _⟩ := d
  unfold less
  grind

theorem insertInOrder_ordered {l : List Candidate} (hl : l.Pairwise fun c d => c.less d = true)
    (hn : c ∉ l) : (insertInOrder c l).Pairwise fun c d => c.less d = true := by
  induction l with
  | nil => exact pairwise_singleton _ _
  | cons head rest ih =>
    obtain ⟨hh, hs⟩ := pairwise_cons.mp hl
    obtain ⟨hne, hr⟩ := not_or.mp (mem_cons.not.mp hn)
    unfold insertInOrder
    split
    · rename_i hlt
      refine pairwise_cons.mpr ⟨fun d hd => ?_, ih hs hr⟩
      rcases mem_cons.mp ((perm_insertInOrder c rest).mem_iff.mp hd) with rfl | hd
      · exact hlt
      · exact hh d hd
    · rename_i hge
      have hlt := (less_total hne).resolve_right hge
      refine pairwise_cons.mpr ⟨fun d hd => ?_, hl⟩
      rcases mem_cons.mp hd with rfl | hd
      · exact hlt
      · exact less_trans hlt (hh d hd)

theorem eraseCandidate_ordered (h : Ordered r) : Always (eraseCandidate f) r Ordered := by
  simp only [eraseCandidate, ensures_iff]
  refine ⟨fun c _ => ?_, fun _ _ => h⟩
  split
  · exact List.Pairwise.sublist erase_sublist h
  · exact h

theorem insertCandidate_ordered (h : Ordered r) : Always (insertCandidate f) r Ordered := by
  simp only [insertCandidate, ensures_iff]
  refine ⟨fun c _ => ?_, fun _ _ => h⟩
  split
  · exact h
  · rename_i hn
    exact insertInOrder_ordered h hn

/-- The candidate of an evictable frame is taken out before the rest of a call. -/
theorem erasing_ordered {next : ReplacerM Unit} {evictable : Bool} (h : Ordered r)
    (hn : ∀ t, Ordered t → Always next t Ordered) :
    Always (if evictable then do eraseCandidate f; next else next) r Ordered := by
  split
  · simp only [ensures_bind]
    exact (eraseCandidate_ordered h).imp (fun _ t ht => hn t ht) (fun _ _ ht => ht)
  · exact hn r h

theorem inserting_ordered {evictable : Bool} (h : Ordered r) :
    Always (if evictable then insertCandidate f else pure ()) r Ordered := by
  split
  · exact insertCandidate_ordered h
  · exact h

theorem remove_ordered (h : Ordered r) : Always (remove f) r Ordered := by
  simp only [remove, ensures_iff]
  refine ⟨fun entry _ => ?_, fun _ _ => h⟩
  split
  · exact h
  · split
    · exact h
    · simp only [ensures_iff, setEntry]
      exact eraseCandidate_ordered h

/-- Whatever the call does, the candidates stay in their order. -/
theorem perform_ordered (h : Ordered r) (operation : ReplacerOperation) :
    Always (perform operation) r Ordered := by
  cases operation with
  | recordAccess f =>
    simp only [perform, recordAccess, ensures_iff]
    refine ⟨fun entry _ => erasing_ordered h fun t ht => ?_, fun _ _ => h⟩
    simp only [ensures_iff]
    split
    · exact ht
    · exact inserting_ordered ht
  | setEvictable f evictable =>
    simp only [perform, setEvictable, ensures_iff]
    refine ⟨fun entry _ => ?_, fun _ _ => h⟩
    split
    · exact h
    · split
      · exact h
      · exact erasing_ordered h fun t ht => inserting_ordered ht
  | remove f =>
    simp only [perform, ensures_iff]
    exact remove_ordered h
  | evict =>
    simp only [perform, evict, ensures_iff]
    split
    · exact h
    · simp only [ensures_bind]
      refine (remove_ordered h).imp (fun removed t ht => ?_) (fun _ _ ht => ht)
      split
      · exact ht
      · exact ht

/-! Usage. -/

theorem Usage.Timed.record (h : u.Timed) (event : FrameEvent) : (u.record event).Timed := by
  cases event with
  | nothing => exact h
  | marked f evictable => exact ⟨h.past, h.apart⟩
  | dropped f =>
    have hs : ∀ g, ∀ t ∈ Function.update u.accesses f [] g, t ∈ u.accesses g := by
      intro g t ht
      rw [Function.update_apply] at ht
      split at ht
      · cases ht
      · exact ht
    exact ⟨fun g t ht => h.past g t (hs g t ht),
      fun g g' t ht ht' => h.apart g g' t (hs g t ht) (hs g' t ht')⟩
  | accessed f =>
    -- the new time is later than all others, so it is the time of one frame only
    have hs : ∀ g, ∀ t ∈ Function.update u.accesses f (u.accesses f ++ [u.clock + 1]) g,
        t ∈ u.accesses g ∨ t = u.clock + 1 ∧ g = f := by
      intro g t ht
      rw [Function.update_apply] at ht
      split at ht
      · rename_i hg
        subst hg
        simpa using ht
      · exact .inl ht
    refine ⟨fun g t ht => ?_, fun g g' t ht ht' => ?_⟩
    · rcases hs g t ht with ht | ⟨rfl, _⟩
      · exact Nat.le_succ_of_le (h.past g t ht)
      · exact le_rfl
    · rcases hs g t ht with ht | ⟨rfl, rfl⟩
      · rcases hs g' t ht' with ho | ⟨rfl, _⟩
        · exact h.apart g g' t ht ho
        · exact absurd (h.past g _ ht) (Nat.not_succ_le_self _)
      · rcases hs g' _ ht' with ho | ⟨_, rfl⟩
        · exact absurd (h.past g' _ ho) (Nat.not_succ_le_self _)
        · rfl

/-- At most one frame is the oldest. -/
theorem Usage.IsVictim.unique (hf : u.IsVictim k f) (hg : u.IsVictim k g) : f = g := by
  by_contra hne
  obtain ⟨hef, ⟨hff, ho⟩ | ⟨hn, ho⟩⟩ := hf
  · obtain ⟨he, ⟨hfg, hog⟩ | ⟨hng, _⟩⟩ := hg
    · exact absurd (ho g he hfg (Ne.symm hne)) (Nat.lt_asymm (hog f hef hff hne))
    · exact hng f hef hff
  · obtain ⟨he, ⟨hfg, _⟩ | ⟨_, hog⟩⟩ := hg
    · exact hn g he hfg
    · exact absurd (ho g he (Ne.symm hne)) (Nat.lt_asymm (hog f hef hne))

theorem accessed_entry :
    accessed k (u.clock + 1) (u.entry k f) = (u.record (.accessed f)).entry k f := by
  simp only [accessed, Usage.entry, Usage.record, Function.update_self, ReplacerEntry.mk.injEq,
    length_append, length_singleton, length_drop]
  refine ⟨?_, by simp, trivial⟩
  generalize u.accesses f = l
  by_cases hl : l.length < k
  · rw [if_neg (by omega), Nat.sub_eq_zero_of_le (by omega), Nat.sub_eq_zero_of_le (by omega)]
    rfl
  · rw [if_pos (by omega), ← drop_one, ← drop_append_of_le_length (by omega), drop_drop]
    congr 1
    omega

namespace Reflects

variable {r' : LruKReplacer} {operation : ReplacerOperation} {event : FrameEvent}

theorem entry_eq (h : Reflects k (r, u)) (he : r.entries[f]? = some entry) :
    entry = u.entry r.k f := by
  have := h.entries f
  simpa [he] using this

theorem raised (h : Reflects k (r, u)) (hp : ∃ e, perform operation r = .error e r) :
    Reflects k (afterOperation (r, u) operation) := by
  obtain ⟨e, hp⟩ := hp
  simp only [afterOperation, hp]
  exact h

/-- A call that returned and changed the entry of one frame. -/
theorem returned (h : Reflects k (r, u)) (hp : perform operation r = .ok event r') (hs : r'.Sound)
    (hk : r'.k = r.k) (hc : r'.currentTimestamp = (u.record event).clock)
    (he : r.entries[f]? = some entry)
    (hn : r'.entries = r.entries.set f ((u.record event).entry r.k f))
    (ho : ∀ g, g ≠ f → (u.record event).entry r.k g = u.entry r.k g) :
    Reflects k (afterOperation (r, u) operation) := by
  simp only [afterOperation, hp]
  refine
    ⟨hk.trans h.configured, hs, (ensures_of_ok hp).mp (perform_ordered h.ordered operation), hc,
    h.timed.record event, ?_⟩
  intro g
  simp only [hn, hk, List.getElem?_set]
  split
  · rename_i hg
    subst hg
    rw [if_pos (lt_of_getElem? he)]
    rfl
  · rename_i hg
    rw [ho g (Ne.symm hg)]
    exact h.entries g

/-- A removal of an evictable frame, by name or as the victim. -/
theorem dropped (h : Reflects k (r, u)) (he : r.entries[f]? = some entry)
    (hv : entry.evictable = true)
    (hp : ∀ r', remove f r = .ok true r' → perform operation r = .ok (.dropped f) r') :
    Reflects k (afterOperation (r, u) operation) := by
  obtain ⟨r', hr, hs, hk, hc, hn⟩ := remove_run h.sound he hv
  refine h.returned (hp r' hr) hs hk (hc.trans h.clock) he ?_ fun g hg => ?_
  · simpa [Usage.entry, Usage.record, ReplacerEntry.blank] using hn
  · simp [Usage.entry, Usage.record, hg]

theorem entry_run {α : Type} {next : ReplacerEntry → ReplacerM α}
    (he : r.entries[f]? = some entry) :
    (get >>= fun r => fromExcept (r.requireEntry f) >>= next) r = next entry r := by
  simp only [run_get_bind, requireEntry, he]
  rfl

theorem entry_raised {α : Type} {next : ReplacerEntry → ReplacerM α} (he : r.entries[f]? = none) :
    (get >>= fun r => fromExcept (r.requireEntry f) >>= next) r =
      .error (.outOfRange "FrameId exceeds LRU-K capacity") r := by
  simp only [run_get_bind, requireEntry, he]
  rfl

theorem step (h : Reflects k (r, u)) (hl : u.clock < 2 ^ 64 - 1) (operation : ReplacerOperation) :
    Reflects k (afterOperation (r, u) operation) := by
  cases operation with
  | recordAccess f =>
    cases he : r.entries[f]? with
    | none => exact h.raised ⟨_, run_bind_raised (entry_raised he)⟩
    | some entry =>
      obtain ⟨r', hr, hs, hk, hc, hn⟩ := recordAccess_run h.sound he (h.clock ▸ hl)
      have hp : perform (.recordAccess f) r = .ok (.accessed f) r' := run_bind hr
      refine h.returned hp hs hk (hc.trans (by rw [h.clock]; rfl)) he ?_ fun g hg => ?_
      · rw [← accessed_entry, ← h.entry_eq he, ← h.clock]
        exact hn
      · simp [Usage.entry, Usage.record, hg]
  | setEvictable f evictable =>
    cases he : r.entries[f]? with
    | none => exact h.raised ⟨_, run_bind_raised (entry_raised he)⟩
    | some entry =>
      cases ht : entry.tracked with
      | false =>
        exact h.raised ⟨_, run_bind_raised ((entry_run he).trans (congrFun (if_pos ht) r))⟩
      | true =>
        obtain ⟨r', hr, hs, hk, hc, hn⟩ := setEvictable_run h.sound he ht evictable
        have hp : perform (.setEvictable f evictable) r = .ok (.marked f evictable) r' :=
          run_bind hr
        refine h.returned hp hs hk (hc.trans h.clock) he ?_ fun g hg => ?_
        · rw [hn, h.entry_eq he]
          simp [Usage.entry, Usage.record]
        · simp [Usage.entry, Usage.record, hg]
  | remove f =>
    cases he : r.entries[f]? with
    | none => exact h.raised ⟨_, run_bind_raised (entry_raised he)⟩
    | some entry =>
      cases ht : entry.tracked with
      | false =>
        have hr : remove f r = .ok false r := (entry_run he).trans (congrFun (if_pos ht) r)
        have hp : perform (.remove f) r = .ok .nothing r := run_bind hr
        simp only [afterOperation, hp]
        exact h
      | true =>
        cases hev : entry.evictable with
        | false =>
          have hr : remove f r = (throw (.logicError "Cannot remove a non-evictable frame") :
              ReplacerM Bool) r := by
            refine (entry_run he).trans ?_
            rw [if_neg (by simp [ht]), if_pos hev]
          exact h.raised ⟨_, run_bind_raised hr⟩
        | true => exact h.dropped he hev fun r' hr => run_bind hr
  | evict =>
    cases hv : r.victim with
    | none =>
      have hp : perform .evict r = .ok .nothing r := by
        simp only [perform, evict, bind_assoc, run_get_bind, hv]
        rfl
      simp only [afterOperation, hp]
      exact h
    | some f =>
      obtain ⟨entry, he, hev⟩ := h.sound.victim_evictable hv
      refine h.dropped he hev fun r' hr => ?_
      simp only [perform, evict, bind_assoc, run_get_bind, hv, run_bind hr]
      rfl

theorem candidate_eq (h : Reflects k (r, u)) (f : Nat) :
    keyOf r.k f (u.entry r.k f) = u.candidate r.k f := by
  have hk : r.k ≠ 0 := h.sound.configured.1
  simp only [keyOf, Usage.entry, Usage.candidate, Candidate.mk.injEq, and_true]
  constructor
  · refine decide_eq_decide.mpr ?_
    rw [length_drop, Usage.Few]
    omega
  · by_cases hf : u.Few r.k f
    · rw [if_pos hf, Nat.sub_eq_zero_of_le hf.le]
      rfl
    · have hge : r.k ≤ (u.accesses f).length := not_lt.mp hf
      rw [if_neg hf, headD_eq_head?_getD, head?_drop, Usage.kthAccess,
        getD_eq_getElem?_getD, getElem?_reverse (by omega)]
      congr 2
      omega

theorem mem_candidates (h : Reflects k (r, u)) :
    c ∈ r.candidates ↔ u.evictable c.frameId = true ∧ c = u.candidate r.k c.frameId := by
  rw [h.sound.listed c]
  constructor
  · rintro ⟨entry, he, hv, hc⟩
    obtain rfl := h.entry_eq he
    exact ⟨hv, hc.trans (h.candidate_eq _)⟩
  · rintro ⟨hv, hc⟩
    have he := h.entries c.frameId
    cases hf : r.entries[c.frameId]? with
    | none =>
      rw [hf] at he
      have := congrArg ReplacerEntry.evictable he
      exact absurd (hv.symm.trans this.symm) (by decide)
    | some entry =>
      obtain rfl := h.entry_eq hf
      exact ⟨_, rfl, hv, hc.trans (h.candidate_eq _).symm⟩

theorem filter_candidates (h : Reflects k (r, u)) (f : Nat) :
    r.candidates.filter (fun c => c.frameId = f) =
      if u.evictable f then [u.candidate r.k f] else [] := by
  split
  · rename_i he
    refine perm_singleton.mp ((perm_ext_iff_of_nodup (h.sound.distinct.filter _)
      (nodup_singleton _)).mpr fun c => ?_)
    simp only [mem_filter, decide_eq_true_eq, h.mem_candidates, mem_singleton]
    constructor
    · rintro ⟨⟨_, hc⟩, rfl⟩
      exact hc
    · rintro rfl
      exact ⟨⟨he, rfl⟩, rfl⟩
  · rename_i he
    refine filter_eq_nil_iff.mpr fun c hc hf => he ?_
    exact of_decide_eq_true hf ▸ (h.mem_candidates.mp hc).1

theorem accesses_ne_nil (h : Reflects k (r, u)) (hv : u.evictable f = true) :
    u.accesses f ≠ [] := by
  obtain ⟨entry, he, hv, _⟩ := (h.sound.listed _).mp
    (h.mem_candidates.mpr ⟨hv, rfl⟩ : u.candidate r.k f ∈ r.candidates)
  have ht := (h.sound.entries _ _ he).tracked_of_evictable hv
  rw [h.entry_eq he] at ht
  intro hn
  simp [Usage.entry, Usage.candidate, hn] at ht

/-- The time a frame is ordered by is one of its own. -/
theorem priority_mem (h : Reflects k (r, u)) (he : u.evictable f = true) :
    (u.candidate r.k f).priorityTimestamp ∈ u.accesses f := by
  have hne := h.accesses_ne_nil he
  have hk : r.k ≠ 0 := h.sound.configured.1
  have hl : 0 < (u.accesses f).length := length_pos_iff.mpr hne
  rw [← h.candidate_eq]
  simp only [keyOf, Usage.entry]
  rw [headD_eq_head?_getD, head?_drop, getElem?_eq_getElem (by omega)]
  exact getElem_mem _

theorem less_of_victim (h : Reflects k (r, u)) (hv : r.victim = some f) (he : u.evictable g = true)
    (hne : g ≠ f) : (u.candidate r.k f).less (u.candidate r.k g) = true := by
  obtain ⟨c, hc, rfl⟩ := Option.map_eq_some_iff.mp hv
  obtain ⟨rest, hs⟩ := head?_eq_some_iff.mp hc
  have hm := mem_of_mem_head? hc
  have hg : u.candidate r.k g ∈ r.candidates := h.mem_candidates.mpr ⟨he, rfl⟩
  rw [← (h.mem_candidates.mp hm).2]
  have ho := h.ordered
  simp only [Ordered, hs, pairwise_cons] at ho
  rw [hs, mem_cons] at hg
  refine ho.1 _ (hg.resolve_left fun heq => hne ?_)
  exact congrArg frameId heq

theorem isVictim (h : Reflects k (r, u)) (hv : r.victim = some f) : u.IsVictim r.k f := by
  have he : u.evictable f = true := by
    obtain ⟨c, hc, rfl⟩ := Option.map_eq_some_iff.mp hv
    exact (h.mem_candidates.mp (mem_of_mem_head? hc)).1
  have hp : ∀ g, u.evictable g = true → g ≠ f →
      (u.candidate r.k f).priorityTimestamp ≠ (u.candidate r.k g).priorityTimestamp := by
    intro g hg hne heq
    exact hne (h.timed.apart g f _ (heq ▸ h.priority_mem hg) (h.priority_mem he))
  refine ⟨he, ?_⟩
  by_cases hf : u.Few r.k f
  · refine .inl ⟨hf, fun g hg hw hne => ?_⟩
    have hl := h.less_of_victim hv hg hne
    have ha := hp g hg hne
    simp_all [less, Usage.candidate]
  · have hw : ∀ g, u.evictable g = true → ¬u.Few r.k g := by
      intro g hg hw
      have hl := h.less_of_victim hv hg (fun heq => hf (heq ▸ hw))
      simp [less, Usage.candidate, hf, hw] at hl
    refine .inr ⟨hw, fun g hg hne => ?_⟩
    have hl := h.less_of_victim hv hg hne
    have ha := hp g hg hne
    simp_all [less, Usage.candidate]

theorem victim_eq_none (h : Reflects k (r, u)) : r.victim = none ↔ ∀ f, u.evictable f = false := by
  rw [LruKReplacer.victim, Option.map_eq_none_iff, head?_eq_none_iff, eq_nil_iff_forall_not_mem]
  constructor
  · intro hn f
    by_contra hev
    exact hn (u.candidate r.k f) (h.mem_candidates.mpr ⟨Bool.eq_true_of_not_eq_false hev, rfl⟩)
  · intro hn c hc
    exact absurd ((h.mem_candidates.mp hc).1.symm.trans (hn c.frameId)) (by decide)

theorem victim_iff (h : Reflects k (r, u)) : r.victim = some f ↔ u.IsVictim r.k f := by
  refine ⟨h.isVictim, fun hf => ?_⟩
  cases hv : r.victim with
  | none => exact absurd (hf.1.symm.trans (h.victim_eq_none.mp hv f)) (by decide)
  | some g => rw [hf.unique (h.isVictim hv)]

end Reflects

def ReplacerOperation.isAccess : ReplacerOperation → Bool
  | .recordAccess _ => true
  | _ => false

/-- Only a call of `recordAccess` makes the clock tick. -/
theorem afterOperation_clock (state : LruKReplacer × Usage) (operation : ReplacerOperation) :
    (afterOperation state operation).2.clock ≤ state.2.clock + operation.isAccess.toNat := by
  have he : Ensures (perform operation) state.1
      (fun event _ => (state.2.record event).clock ≤ state.2.clock + operation.isAccess.toNat)
      (fun _ _ => True) := by
    cases operation with
    | recordAccess f | setEvictable f evictable =>
      simp only [perform, ensures_iff]
      exact (ensures_true _ _).imp (fun _ _ _ => le_rfl) (fun _ _ h => h)
    | remove f =>
      simp only [perform, ensures_iff]
      refine (ensures_true _ _).imp (fun removed _ _ => ?_) (fun _ _ h => h)
      cases removed <;> exact le_rfl
    | evict =>
      simp only [perform, ensures_iff]
      refine (ensures_true _ _).imp (fun found _ _ => ?_) (fun _ _ h => h)
      cases found <;> exact le_rfl
  unfold Ensures at he
  unfold afterOperation
  split at he
  · rename_i hp
    rw [hp]
    exact he
  · rename_i hp
    rw [hp]
    exact Nat.le_add_right _ _

theorem Reflects.run {state : LruKReplacer × Usage} {operations : List ReplacerOperation}
    (h : Reflects k state) (hl : state.2.clock + operations.countP (·.isAccess) < 2 ^ 64 - 1) :
    Reflects k (operations.foldl afterOperation state) := by
  induction operations generalizing state with
  | nil => exact h
  | cons operation rest ih =>
    have hc := afterOperation_clock state operation
    rw [countP_cons] at hl
    refine ih (h.step (by omega) operation) ?_
    cases ha : operation.isAccess with
    | false =>
      simp only [ha, Bool.toNat_false] at hc hl
      omega
    | true =>
      simp only [ha, Bool.toNat_true, if_true] at hc hl
      omega

theorem create_reflects {capacity : Nat} (h : create capacity k = .ok r) :
    Reflects k (r, .fresh) := by
  obtain ⟨hs, hc, he⟩ := create_sound h
  simp only [create, ok_iff] at h
  obtain ⟨_, _, _, _, _, _, rfl⟩ := h
  refine ⟨rfl, hs, List.Pairwise.nil, hc, ⟨by simp [Usage.fresh], by simp [Usage.fresh]⟩, ?_⟩
  intro f
  have hb : Usage.fresh.entry k f = .blank := by
    simp [Usage.entry, Usage.fresh, ReplacerEntry.blank]
  simp only [getElem?_replicate, hb]
  split <;> rfl

/-- The victim is the one the whole history names, and the candidates are one entry
for every evictable frame, in the order of eviction. -/
theorem eviction_order {capacity : Nat} (hcr : create capacity k = .ok r)
    (operations : List ReplacerOperation) (hcl : operations.countP (·.isAccess) < 2 ^ 64 - 1) :
    let state := operations.foldl afterOperation (r, .fresh)
    (∀ f, state.1.victim = some f ↔ state.2.IsVictim k f) ∧
      (state.1.victim = none ↔ ∀ f, state.2.evictable f = false) ∧
      Ordered state.1 ∧ ∀ f, state.1.candidates.filter (fun c => c.frameId = f) =
        if state.2.evictable f then [state.2.candidate k f] else [] := by
  intro state
  have h : Reflects k state := (create_reflects hcr).run (by simpa [Usage.fresh] using hcl)
  rw [← h.configured]
  exact ⟨fun f => h.victim_iff, h.victim_eq_none, h.ordered, h.filter_candidates⟩

/-- Two accesses each of frames 0 and 1, then one of frame 2. -/
def threeFrames : List ReplacerOperation :=
  [.recordAccess 0, .recordAccess 1, .recordAccess 1, .recordAccess 0, .recordAccess 2,
    .setEvictable 0 true, .setEvictable 1 true, .setEvictable 2 true]

theorem eviction_order_three : ∃ r, create 3 2 = .ok r ∧
    (threeFrames.foldl afterOperation (r, .fresh)).2.IsVictim 2 2 :=
  ⟨_, rfl, ((@eviction_order 2 _ 3 rfl threeFrames (by decide)).1 2).mp (by decide)⟩

end MiniDb
