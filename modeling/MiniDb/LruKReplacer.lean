import MiniDb.PageLsn
import MiniDb.Foundation.Stateful
import Mathlib.Data.List.Nodup
import Mathlib.Data.List.Perm.Lattice

/-!
LRU-K replacement over the frames of a pool. Every frame has the times of its
last `k` accesses; the frames that may be evicted are also kept as candidates in
the order in which they would be. The candidate index always lists exactly the
evictable frames, each under its current key.
-/
namespace MiniDb
open Outcome Stateful
open List hiding get modify

theorem lt_of_getElem? {α : Type} {l : List α} {i : Nat} {a : α} (h : l[i]? = some a) :
    i < l.length :=
  (List.getElem?_eq_some_iff.mp h).1

variable {f k now : Nat}

structure ReplacerEntry where
  history : List Nat
  tracked : Bool
  evictable : Bool
  deriving DecidableEq

variable {ent : ReplacerEntry}

structure Candidate where
  infiniteDistance : Bool
  priorityTimestamp : Nat
  frameId : Nat
  deriving DecidableEq

/-- `CandidateLess`: frames with fewer than `k` accesses go first. -/
def Candidate.less (left right : Candidate) : Bool :=
  if left.infiniteDistance ≠ right.infiniteDistance then left.infiniteDistance
  else if left.priorityTimestamp ≠ right.priorityTimestamp then
    decide (left.priorityTimestamp < right.priorityTimestamp)
  else decide (left.frameId < right.frameId)

/-- Insertion into the ordered candidate set. -/
def insertInOrder (candidate : Candidate) : List Candidate → List Candidate
  | [] => [candidate]
  | head :: rest =>
    if head.less candidate then head :: insertInOrder candidate rest
    else candidate :: head :: rest

structure LruKReplacer where
  k : Nat
  currentTimestamp : Nat
  trackedCount : Nat
  entries : List ReplacerEntry
  candidates : List Candidate

abbrev ReplacerM := EStateM DbError LruKReplacer

variable {r : LruKReplacer}

def ReplacerEntry.blank : ReplacerEntry := ⟨[], false, false⟩

namespace LruKReplacer

def create (frameCapacity k : Nat) : Result LruKReplacer := do
  require (frameCapacity ≠ 0) (.invalidArgument "LRU-K capacity must be positive")
  require (frameCapacity ≤ 2 ^ 32 - 1) (.invalidArgument "LRU-K capacity exceeds FrameId range")
  require (k ≠ 0) (.invalidArgument "LRU-K K must be positive")
  return ⟨k, 0, 0, List.replicate frameCapacity .blank, []⟩

def requireEntry (r : LruKReplacer) (frameId : Nat) : Result ReplacerEntry :=
  match r.entries[frameId]? with
  | some entry => .ok entry
  | none => .error (.outOfRange "FrameId exceeds LRU-K capacity")

def candidateFor (r : LruKReplacer) (frameId : Nat) : Result Candidate := do
  let entry ← r.requireEntry frameId
  match entry.tracked, entry.history with
  | true, oldest :: _ => return ⟨decide (entry.history.length < r.k), oldest, frameId⟩
  | _, _ => .error (.logicError "Untracked frame has no LRU-K candidate")

def eraseCandidate (frameId : Nat) : ReplacerM Unit := do
  let r ← get
  let candidate ← fromExcept (r.candidateFor frameId)
  if candidate ∈ r.candidates then
    set { r with candidates := r.candidates.erase candidate }
  else throw (.logicError "LRU-K candidate index is inconsistent")

def insertCandidate (frameId : Nat) : ReplacerM Unit := do
  let r ← get
  let candidate ← fromExcept (r.candidateFor frameId)
  if candidate ∈ r.candidates then throw (.logicError "Duplicate LRU-K candidate")
  else set { r with candidates := insertInOrder candidate r.candidates }

def setEntry (frameId : Nat) (entry : ReplacerEntry) : ReplacerM Unit :=
  modify fun r => { r with entries := r.entries.set frameId entry }

/-- The entry after an access at time `now`; only the last `k` times are kept. -/
def accessed (k now : Nat) (entry : ReplacerEntry) : ReplacerEntry :=
  let history := entry.history ++ [now]
  { entry with tracked := true, history := if k < history.length then history.tail else history }

def recordAccess (frameId : Nat) : ReplacerM Unit := do
  let entry ← fromExcept ((← get).requireEntry frameId)
  if entry.evictable then eraseCandidate frameId
  let r ← get
  if r.currentTimestamp = 2 ^ 64 - 1 then
    throw (.overflowError "LRU-K logical timestamp exhausted")
  else
    set { r with
      currentTimestamp := r.currentTimestamp + 1
      trackedCount := if entry.tracked then r.trackedCount else r.trackedCount + 1 }
    setEntry frameId (accessed r.k (r.currentTimestamp + 1) entry)
    if entry.evictable then insertCandidate frameId

def setEvictable (frameId : Nat) (evictable : Bool) : ReplacerM Unit := do
  let entry ← fromExcept ((← get).requireEntry frameId)
  if entry.tracked = false then
    throw (.logicError "Cannot change untracked frame evictability")
  else if entry.evictable = evictable then return ()
  else do
    if entry.evictable then eraseCandidate frameId
    setEntry frameId { entry with evictable := evictable }
    if evictable then insertCandidate frameId

def victim (r : LruKReplacer) : Option Nat := r.candidates.head?.map (·.frameId)

def remove (frameId : Nat) : ReplacerM Bool := do
  let entry ← fromExcept ((← get).requireEntry frameId)
  if entry.tracked = false then return false
  else if entry.evictable = false then throw (.logicError "Cannot remove a non-evictable frame")
  else do
    eraseCandidate frameId
    setEntry frameId .blank
    modify fun r => { r with trackedCount := r.trackedCount - 1 }
    return true

def evict : ReplacerM (Option Nat) := do
  match (← get).victim with
  | none => return none
  | some frameId => do
    if (← remove frameId) = false then throw (.logicError "LRU-K victim disappeared")
    return some frameId

def size (r : LruKReplacer) : Nat := r.candidates.length

def isTracked (r : LruKReplacer) (frameId : Nat) : Result Bool :=
  (·.tracked) <$> r.requireEntry frameId

def isEvictable (r : LruKReplacer) (frameId : Nat) : Result Bool :=
  (·.evictable) <$> r.requireEntry frameId

def validateEntry (r : LruKReplacer) (frameId : Nat) : Result Unit := do
  let entry ← r.requireEntry frameId
  if entry.tracked = false then
    require (entry.evictable = false ∧ entry.history = [])
      (.logicError "Untracked LRU-K entry has state")
  else do
    require (entry.history ≠ [] ∧ entry.history.length ≤ r.k)
      (.logicError "LRU-K history length is invalid")
    require (entry.history.Pairwise (· ≤ ·) ∧ entry.history.getLastD 0 ≤ r.currentTimestamp ∧
      entry.history.headD 0 ≠ 0) (.logicError "LRU-K history timestamps are invalid")
    if entry.evictable then do
      let candidate ← r.candidateFor frameId
      require (candidate ∈ r.candidates)
        (.logicError "Evictable LRU-K frame is absent from candidate index")
    else return ()

/-- One entry of the candidate index; `indexed` are the frames seen before it. -/
def validateCandidate (r : LruKReplacer) (indexed : List Nat) (candidate : Candidate) :
    Result (List Nat) :=
  let inconsistent := DbError.logicError "LRU-K candidate index entry is inconsistent"
  match r.entries[candidate.frameId]? with
  | none => .error inconsistent
  | some entry => do
      require (candidate.frameId ∉ indexed ∧ entry.tracked ∧ entry.evictable) inconsistent
      let current ← r.candidateFor candidate.frameId
      require (candidate.less current = false ∧ current.less candidate = false) inconsistent
      return candidate.frameId :: indexed

def validate (r : LruKReplacer) : Result Unit := do
  require (r.k ≠ 0 ∧ r.entries ≠ []) (.logicError "Invalid LRU-K configuration")
  (List.range r.entries.length).forM r.validateEntry
  let _ ← r.candidates.foldlM r.validateCandidate []
  require (r.entries.countP (·.tracked) = r.trackedCount ∧
    r.entries.countP (fun entry => entry.tracked && entry.evictable) = r.candidates.length)
    (.logicError "LRU-K accounting is inconsistent")

end LruKReplacer

open LruKReplacer

/-- Counting the elements of a list by their positions. -/
theorem countP_eq_range {α : Type} (p : α → Bool) (l : List α) :
    l.countP p = (range l.length).countP (fun i => l[i]?.any p) := by
  induction l with
  | nil => rfl
  | cons a l ih =>
    rw [length_cons, range_succ_eq_map, countP_cons, countP_cons, countP_map, ih]
    simp [Function.comp_def]

theorem perm_insertInOrder (cand : Candidate) (l : List Candidate) :
    (insertInOrder cand l).Perm (cand :: l) := by
  induction l with
  | nil => exact .refl _
  | cons head rest ih =>
    unfold insertInOrder
    split
    · exact (ih.cons head).trans (.swap cand head rest)
    · exact .refl _

theorem Candidate.less_self (cand : Candidate) : cand.less cand = false := by
  simp [Candidate.less]

namespace LruKReplacer

/-- The key under which an evictable frame is listed. -/
def keyOf (k frameId : Nat) (entry : ReplacerEntry) : Candidate :=
  ⟨decide (entry.history.length < k), entry.history.headD 0, frameId⟩

structure EntrySound (k now : Nat) (entry : ReplacerEntry) : Prop where
  untracked : entry.tracked = false → entry = .blank
  recorded : entry.tracked = true → entry.history ≠ [] ∧ entry.history.length ≤ k ∧
    entry.history.Pairwise (· ≤ ·) ∧ ∀ time ∈ entry.history, 0 < time ∧ time ≤ now

/-- The candidates are the evictable frames, each once and under its key. -/
structure Sound (r : LruKReplacer) : Prop where
  configured : r.k ≠ 0 ∧ r.entries ≠ []
  entries : ∀ (f : Nat) entry, r.entries[f]? = some entry → EntrySound r.k r.currentTimestamp entry
  distinct : r.candidates.Nodup
  listed : ∀ c, c ∈ r.candidates ↔ ∃ entry, r.entries[c.frameId]? = some entry ∧
    entry.evictable = true ∧ c = keyOf r.k c.frameId entry
  counted : r.trackedCount = r.entries.countP (·.tracked)

theorem EntrySound.tracked_of_evictable (h : EntrySound k now ent) (he : ent.evictable = true) :
    ent.tracked = true := by
  by_contra huntracked
  rw [h.untracked (by simpa using huntracked)] at he
  simp [ReplacerEntry.blank] at he

theorem EntrySound.later {later : Nat} (h : EntrySound k now ent) (hle : now ≤ later) :
    EntrySound k later ent := by
  refine ⟨h.untracked, ?_⟩
  intro ht
  obtain ⟨hne, hl, hs, hm⟩ := h.recorded ht
  refine ⟨hne, hl, hs, ?_⟩
  intro time hi
  exact ⟨(hm time hi).1, Nat.le_trans (hm time hi).2 hle⟩

theorem candidateFor_of_tracked (he : r.entries[f]? = some ent) (hs : EntrySound r.k now ent)
    (ht : ent.tracked = true) : r.candidateFor f = .ok (keyOf r.k f ent) := by
  obtain ⟨hne, _⟩ := hs.recorded ht
  cases hh : ent.history with
  | nil => exact absurd hh hne
  | cons oldest rest =>
    simp only [candidateFor, requireEntry, he, ok_bind, ht, hh, keyOf, headD_cons]
    rfl

/-- One entry, and with it at most the key of its own frame, is replaced. -/
theorem Sound.update {r : LruKReplacer} (h : r.Sound) {f now cnt : Nat}
    {ent ent' : ReplacerEntry} {cands : List Candidate}
    (he : r.entries[f]? = some ent) (hw : r.currentTimestamp ≤ now)
    (hsn : EntrySound r.k now ent') (hd : cands.Nodup)
    (hl : ∀ c, c ∈ cands ↔ (c.frameId ≠ f ∧ c ∈ r.candidates) ∨
      (ent'.evictable = true ∧ c = keyOf r.k f ent')) (hcn : cnt + (if ent.tracked then 1 else 0) =
      r.trackedCount + (if ent'.tracked then 1 else 0)) :
    Sound { r with
      entries := r.entries.set f ent'
      currentTimestamp := now
      trackedCount := cnt
      candidates := cands } := by
  have hlt := lt_of_getElem? he
  have hg := (List.getElem?_eq_some_iff.mp he).2
  refine ⟨⟨h.configured.1, ?_⟩, ?_, hd, ?_, ?_⟩
  · simpa using h.configured.2
  · intro g other ho
    simp only [getElem?_set] at ho
    split at ho
    · simp only [Option.some.injEq] at ho
      exact ho ▸ hsn
    · exact (h.entries g other ho).later hw
  · intro c
    rw [hl c, h.listed c]
    simp only [getElem?_set]
    constructor
    · rintro (⟨hne, hold⟩ | ⟨hv, rfl⟩)
      · simpa [Ne.symm hne] using hold
      · exact ⟨ent', by simp [keyOf, hlt], hv, rfl⟩
    · intro hn
      by_cases hc : f = c.frameId
      · obtain ⟨other, ho, hv, hk⟩ := hn
        simp only [if_pos hc, hlt, Option.some.injEq, if_true] at ho
        subst ho
        exact .inr ⟨hv, by rw [hk, hc]⟩
      · simp only [if_neg hc] at hn
        exact .inl ⟨Ne.symm hc, hn⟩
  · have hs := countP_set (p := (·.tracked)) (l := r.entries) (a := ent') hlt
    rw [hg] at hs
    have hp : ent.tracked = true → 0 < r.entries.countP (·.tracked) := fun ht =>
      countP_pos_iff.mpr ⟨ent, mem_of_getElem? he, ht⟩
    have hco := h.counted
    rw [hs]
    cases ht : ent.tracked with
    | true =>
      have := hp ht
      simp only [ht, if_true] at hcn
      simp only [if_true]
      omega
    | false =>
      simp only [ht, Bool.false_eq_true, if_false] at hcn
      simp only [Bool.false_eq_true, if_false]
      omega

theorem Sound.key_unique (h : r.Sound) (he : r.entries[f]? = some ent) {c : Candidate}
    (hc : c ∈ r.candidates) (hf : c.frameId = f) : ent.evictable = true ∧ c = keyOf r.k f ent := by
  obtain ⟨other, ho, hv, hk⟩ := (h.listed c).mp hc
  rw [hf, he, Option.some.injEq] at ho
  subst ho
  exact ⟨hv, hf ▸ hk⟩

theorem Sound.mem_key (h : r.Sound) (he : r.entries[f]? = some ent)
    (hv : ent.evictable = true) : keyOf r.k f ent ∈ r.candidates :=
  (h.listed _).mpr ⟨ent, he, hv, rfl⟩

theorem Sound.mem_erase_key (h : r.Sound) (he : r.entries[f]? = some ent) (c : Candidate) :
    c ∈ r.candidates.erase (keyOf r.k f ent) ↔ c.frameId ≠ f ∧ c ∈ r.candidates := by
  rw [h.distinct.mem_erase_iff]
  constructor
  · rintro ⟨hne, hc⟩
    exact ⟨fun hf => hne (h.key_unique he hc hf).2, hc⟩
  · rintro ⟨hne, hc⟩
    exact ⟨fun hk => hne (hk ▸ rfl), hc⟩

theorem eraseCandidate_run (h : r.Sound) (he : r.entries[f]? = some ent)
    (hv : ent.evictable = true) :
    eraseCandidate f r = .ok () { r with candidates := r.candidates.erase (keyOf r.k f ent) } := by
  have hs := h.entries f ent he
  have hk := candidateFor_of_tracked he hs (hs.tracked_of_evictable hv)
  simp only [eraseCandidate, bind, EStateM.bind, get_eq, hk,
    fromExcept, pure, EStateM.pure, h.mem_key he hv, if_true]
  rfl

theorem insertCandidate_run {r : LruKReplacer} {f now : Nat} {ent : ReplacerEntry}
    (he : r.entries[f]? = some ent) (hs : EntrySound r.k now ent)
    (ht : ent.tracked = true) (hn : keyOf r.k f ent ∉ r.candidates) :
    insertCandidate f r =
      .ok () { r with candidates := insertInOrder (keyOf r.k f ent) r.candidates } := by
  have hk := candidateFor_of_tracked he hs ht
  simp only [insertCandidate, bind, EStateM.bind, get_eq, hk,
    fromExcept, pure, EStateM.pure, hn, if_false]
  rfl

theorem accessed_sound (h : EntrySound k now ent) (hk : k ≠ 0) :
    EntrySound k (now + 1) (accessed k (now + 1) ent) := by
  refine ⟨by simp [accessed], ?_⟩
  intro _
  have ho : ent.history.length ≤ k ∧ ent.history.Pairwise (· ≤ ·) ∧
      ∀ time ∈ ent.history, 0 < time ∧ time ≤ now := by
    cases ht : ent.tracked with
    | true => exact (h.recorded ht).2
    | false =>
      rw [h.untracked ht]
      simp [ReplacerEntry.blank]
  obtain ⟨hl, hs, hi⟩ := ho
  have hs' : (ent.history ++ [now + 1]).Pairwise (· ≤ ·) := by
    refine pairwise_append.mpr ⟨hs, pairwise_singleton _ _, ?_⟩
    intro time hm last hls
    rw [mem_singleton.mp hls]
    exact Nat.le_succ_of_le (hi time hm).2
  have hi' : ∀ time ∈ ent.history ++ [now + 1], 0 < time ∧ time ≤ now + 1 := by
    intro time hm
    rcases mem_append.mp hm with hm | hm
    · exact ⟨(hi time hm).1, Nat.le_succ_of_le (hi time hm).2⟩
    · rw [mem_singleton.mp hm]
      omega
  simp only [accessed]
  split
  · rename_i hf
    have htl : (ent.history ++ [now + 1]).tail.length = ent.history.length := by simp
    refine ⟨?_, htl ▸ hl, hs'.tail, fun time hm =>
      hi' time (mem_of_mem_tail hm)⟩
    intro hn
    rw [hn] at htl
    simp only [length_append, length_singleton, length_nil] at hf htl
    omega
  · rename_i hr
    exact ⟨by simp, not_lt.mp hr, hs', hi'⟩

/-- A frame that is not evictable has no candidate. -/
theorem Sound.mem_of_pinned (h : r.Sound) (he : r.entries[f]? = some ent)
    (hp : ent.evictable = false) (c : Candidate) :
    c ∈ r.candidates ↔ c.frameId ≠ f ∧ c ∈ r.candidates := by
  refine ⟨fun hc => ⟨fun hf => ?_, hc⟩, And.right⟩
  have := (h.key_unique he hc hf).1
  simp [hp] at this

/-- The candidates of the other frames, with one for this frame. -/
theorem listed_insert {l cands : List Candidate} {key : Candidate} (hk : key.frameId = f)
    (hl : ∀ c, c ∈ l ↔ c.frameId ≠ f ∧ c ∈ cands) (hd : l.Nodup) :
    key ∉ l ∧ (insertInOrder key l).Nodup ∧
      ∀ c, c ∈ insertInOrder key l ↔ (c.frameId ≠ f ∧ c ∈ cands) ∨ c = key := by
  have hn : key ∉ l := fun hm => ((hl key).mp hm).1 hk
  refine ⟨hn, (perm_insertInOrder _ _).nodup_iff.mpr (nodup_cons.mpr ⟨hn, hd⟩), ?_⟩
  intro c
  rw [(perm_insertInOrder _ _).mem_iff, mem_cons, hl c, or_comm]

/-- An access while the clock can still tick. -/
theorem recordAccess_run (h : r.Sound) (he : r.entries[f]? = some ent)
    (hc : r.currentTimestamp < 2 ^ 64 - 1) :
    ∃ r', recordAccess f r = .ok () r' ∧ r'.Sound ∧ r'.k = r.k ∧
      r'.currentTimestamp = r.currentTimestamp + 1 ∧
      r'.entries = r.entries.set f (accessed r.k (r.currentTimestamp + 1) ent) := by
  have hlt := lt_of_getElem? he
  have hs := accessed_sound (h.entries f ent he) h.configured.1
  have hcn : (if ent.tracked then r.trackedCount else r.trackedCount + 1) +
      (if ent.tracked then 1 else 0) = r.trackedCount + 1 := by
    split <;> rfl
  have ht : recordAccess f r = (do
      if ent.evictable then eraseCandidate f
      let r ← get
      if r.currentTimestamp = 2 ^ 64 - 1 then
        throw (.overflowError "LRU-K logical timestamp exhausted")
      else
        set { r with
          currentTimestamp := r.currentTimestamp + 1
          trackedCount := if ent.tracked then r.trackedCount else r.trackedCount + 1 }
        setEntry f (accessed r.k (r.currentTimestamp + 1) ent)
        if ent.evictable then insertCandidate f : ReplacerM Unit) r := by
    unfold recordAccess
    simp only [run_get_bind, requireEntry, he]
    rfl
  rw [ht]
  cases hv : ent.evictable with
  | false =>
    refine ⟨{ r with
      entries := r.entries.set f (accessed r.k (r.currentTimestamp + 1) ent)
      currentTimestamp := r.currentTimestamp + 1
      trackedCount := if ent.tracked then r.trackedCount else r.trackedCount + 1 },
      ?_, ?_, rfl, rfl, rfl⟩
    · simp only [Bool.false_eq_true, if_false, run_get_bind, hc.ne]
      rfl
    · refine h.update he (Nat.le_succ _) hs h.distinct ?_ hcn
      intro c
      rw [← h.mem_of_pinned he hv]
      simp [accessed, hv]
  | true =>
    have hk : (keyOf r.k f (accessed r.k (r.currentTimestamp + 1) ent)).frameId = f := rfl
    obtain ⟨hn, hd, hl⟩ := listed_insert hk (h.mem_erase_key he) (h.distinct.erase _)
    refine ⟨{ r with
      entries := r.entries.set f (accessed r.k (r.currentTimestamp + 1) ent)
      candidates := insertInOrder (keyOf r.k f (accessed r.k (r.currentTimestamp + 1) ent))
        (r.candidates.erase (keyOf r.k f ent))
      currentTimestamp := r.currentTimestamp + 1
      trackedCount := if ent.tracked then r.trackedCount else r.trackedCount + 1 },
      ?_, ?_, rfl, rfl, rfl⟩
    · simp only [if_true, run_bind (eraseCandidate_run h he hv), run_get_bind,
        hc.ne, if_false]
      exact @insertCandidate_run { r with
        entries := r.entries.set f (accessed r.k (r.currentTimestamp + 1) ent)
        candidates := r.candidates.erase (keyOf r.k f ent)
        currentTimestamp := r.currentTimestamp + 1
        trackedCount := if ent.tracked then r.trackedCount else r.trackedCount + 1 } f _ _
        (by simp [hlt]) hs rfl hn
    · refine h.update he (Nat.le_succ _) hs hd ?_ hcn
      intro c
      rw [hl c]
      simp [accessed, hv]

theorem setEvictable_run (h : r.Sound) (he : r.entries[f]? = some ent)
    (ht : ent.tracked = true) (evi : Bool) :
    ∃ r', setEvictable f evi r = .ok () r' ∧ r'.Sound ∧ r'.k = r.k ∧
      r'.currentTimestamp = r.currentTimestamp ∧
      r'.entries = r.entries.set f { ent with evictable := evi } := by
  have hlt := lt_of_getElem? he
  have hs := h.entries f ent he
  have hs' : EntrySound r.k r.currentTimestamp { ent with evictable := evi } :=
    ⟨fun hu => absurd (ht.symm.trans hu) (by simp), hs.recorded⟩
  have hr : setEvictable f evi r = (if ent.evictable = evi then pure ()
      else do
        if ent.evictable then eraseCandidate f
        setEntry f { ent with evictable := evi }
        if evi then insertCandidate f : ReplacerM Unit) r := by
    simp only [setEvictable, run_eq, requireEntry, he, fromExcept, ht, Bool.true_eq_false, if_false]
  rw [hr]
  by_cases hm : ent.evictable = evi
  · subst hm
    refine ⟨r, by simp only [if_true]; rfl, h, rfl, rfl, ?_⟩
    rw [← (List.getElem?_eq_some_iff.mp he).2, set_getElem_self]
  · rw [if_neg hm]
    cases evi with
    | false =>
      have hv : ent.evictable = true := by simpa using hm
      refine ⟨{ r with
        entries := r.entries.set f { ent with evictable := false }
        candidates := r.candidates.erase (keyOf r.k f ent) }, ?_, ?_, rfl, rfl, rfl⟩
      · simp only [hv, if_true, run_eq, eraseCandidate_run h he hv]
        rfl
      · refine h.update he le_rfl hs' (h.distinct.erase _) ?_ rfl
        intro c
        rw [h.mem_erase_key he]
        simp
    | true =>
      have hp : ent.evictable = false := by simpa using hm
      have hk : (keyOf r.k f ent).frameId = f := rfl
      obtain ⟨hn, hd, hl⟩ := listed_insert hk (h.mem_of_pinned he hp) h.distinct
      refine ⟨{ r with
        entries := r.entries.set f { ent with evictable := true }
        candidates := insertInOrder (keyOf r.k f ent) r.candidates }, ?_, ?_, rfl, rfl, rfl⟩
      · have hi := @insertCandidate_run
          { r with entries := r.entries.set f { ent with evictable := true } } f _
          { ent with evictable := true } (by simp [hlt]) hs' ht hn
        simp only [hp, Bool.false_eq_true, if_false, if_true, run_eq, setEntry]
        exact hi
      · refine h.update he le_rfl hs' hd ?_ rfl
        intro c
        rw [hl c]
        exact or_congr_right (by simp [keyOf])

theorem remove_run (h : r.Sound) (he : r.entries[f]? = some ent) (hv : ent.evictable = true) :
    ∃ r', remove f r = .ok true r' ∧ r'.Sound ∧ r'.k = r.k ∧
      r'.currentTimestamp = r.currentTimestamp ∧ r'.entries = r.entries.set f .blank := by
  have ht := (h.entries f ent he).tracked_of_evictable hv
  refine ⟨{ r with
    entries := r.entries.set f .blank
    candidates := r.candidates.erase (keyOf r.k f ent)
    trackedCount := r.trackedCount - 1 }, ?_, ?_, rfl, rfl, rfl⟩
  · simp only [remove, run_eq, requireEntry, he, fromExcept, ht, hv, Bool.true_eq_false, if_false,
      eraseCandidate_run h he hv]
    rfl
  · refine h.update he le_rfl ⟨fun _ => rfl, by simp [ReplacerEntry.blank]⟩
      (h.distinct.erase _) ?_ ?_
    · intro c
      rw [h.mem_erase_key he]
      simp [ReplacerEntry.blank]
    · have hp : 0 < r.entries.countP (·.tracked) :=
        countP_pos_iff.mpr ⟨ent, mem_of_getElem? he, ht⟩
      have hc := h.counted
      simp only [ht, if_true, ReplacerEntry.blank, Bool.false_eq_true, if_false]
      omega

theorem Sound.victim_evictable (h : r.Sound) (hc : r.victim = some f) :
    ∃ ent, r.entries[f]? = some ent ∧ ent.evictable = true := by
  obtain ⟨c, hh, rfl⟩ := Option.map_eq_some_iff.mp hc
  obtain ⟨ent, he, hv, _⟩ := (h.listed c).mp (mem_of_mem_head? hh)
  exact ⟨ent, he, hv⟩

theorem validateEntry_of_sound (h : r.Sound) (hf : f < r.entries.length) :
    r.validateEntry f = .ok () := by
  have he := getElem?_eq_getElem hf
  have hs := h.entries f _ he
  simp only [validateEntry, requireEntry, he, ok_bind]
  cases ht : r.entries[f].tracked with
  | false =>
    rw [if_pos rfl, hs.untracked ht]
    exact require_of _ ⟨rfl, rfl⟩
  | true =>
    obtain ⟨hne, hl, hr, hm⟩ := hs.recorded ht
    rw [if_neg (by simp)]
    refine bind_ok.mpr ⟨(), require_of _ ⟨hne, hl⟩, bind_ok.mpr ⟨(), ?_, ?_⟩⟩
    · refine require_of _ ⟨hr, ?_, ?_⟩
      · rw [getLastD_eq_getLast?, getLast?_eq_some_getLast hne]
        exact (hm _ (getLast_mem hne)).2
      · rw [headD_eq_head?_getD, head?_eq_some_head hne]
        exact Nat.ne_of_gt (hm _ (head_mem hne)).1
    · split
      · rename_i hv
        rw [candidateFor_of_tracked he hs ht, ok_bind]
        exact require_of _ (h.mem_key he hv)
      · rfl

theorem validateCandidates_of_sound (h : r.Sound) {l : List Candidate} {indexed : List Nat}
    (hl : ∀ c ∈ l, c ∈ r.candidates) (hds : l.Nodup) (hi : ∀ c ∈ l, c.frameId ∉ indexed) :
    ∃ indexed', l.foldlM r.validateCandidate indexed = .ok indexed' := by
  induction l generalizing indexed with
  | nil => exact ⟨indexed, rfl⟩
  | cons c l ih =>
    obtain ⟨hfs, hr⟩ := nodup_cons.mp hds
    obtain ⟨ent, he, hv, hk⟩ := (h.listed c).mp (hl c mem_cons_self)
    have hs := h.entries c.frameId ent he
    have ht := hs.tracked_of_evictable hv
    have hst : r.validateCandidate indexed c = .ok (c.frameId :: indexed) := by
      simp only [validateCandidate, he]
      refine bind_ok.mpr ⟨(), require_of _ ⟨hi c mem_cons_self, ht,
        hv⟩, bind_ok.mpr ⟨_, candidateFor_of_tracked he hs ht, ?_⟩⟩
      rw [← hk]
      exact bind_ok.mpr ⟨(), require_of _ ⟨c.less_self, c.less_self⟩, rfl⟩
    rw [foldlM_cons, bind_of_ok hst]
    refine ih (fun d hd => hl d (mem_cons_of_mem c hd)) hr ?_
    intro d hd hm
    rcases mem_cons.mp hm with hf | hm
    · -- two candidates of one frame would be one key listed twice
      have := (h.key_unique he (hl d (mem_cons_of_mem c hd)) hf).2
      exact hfs (hk ▸ this ▸ hd)
    · exact hi d (mem_cons_of_mem c hd) hm

/-- Every evictable frame has one candidate, so both lists are equally long. -/
theorem Sound.evictable_count (h : r.Sound) :
    r.entries.countP (fun ent => ent.tracked && ent.evictable) = r.candidates.length := by
  have hs : ∀ ent ∈ r.entries, (ent.tracked && ent.evictable) = ent.evictable := by
    intro ent he
    obtain ⟨f, hf⟩ := mem_iff_getElem?.mp he
    cases hv : ent.evictable with
    | false => simp
    | true => simp [(h.entries f ent hf).tracked_of_evictable hv]
  have hp : ((range r.entries.length).filter
      (fun f => r.entries[f]?.any (·.evictable))).Perm (r.candidates.map (·.frameId)) := by
    refine (perm_ext_iff_of_nodup (nodup_range.filter _) ?_).mpr ?_
    · refine List.Nodup.map_on ?_ h.distinct
      intro c hc d hd hr
      obtain ⟨ent, he, _, hk⟩ := (h.listed d).mp hd
      rw [hk]
      exact (h.key_unique he hc hr).2
    · intro f
      simp only [mem_filter, mem_range, mem_map]
      constructor
      · rintro ⟨hf, ha⟩
        rw [getElem?_eq_getElem hf] at ha
        exact ⟨_, h.mem_key (getElem?_eq_getElem hf) (by simpa using ha), rfl⟩
      · rintro ⟨c, hc, rfl⟩
        obtain ⟨ent, he, hv, _⟩ := (h.listed c).mp hc
        exact ⟨lt_of_getElem? he, by simp [he, hv]⟩
  have hl := hp.length_eq
  rw [length_map] at hl
  rw [← hl, countP_congr (fun ent he => by rw [hs ent he]), ← countP_eq_length_filter]
  exact countP_eq_range (·.evictable) r.entries

theorem validate_of_sound (h : r.Sound) : r.validate = .ok () := by
  obtain ⟨indexed, hi⟩ := validateCandidates_of_sound h (fun _ hc => hc) h.distinct
    (fun _ _ => not_mem_nil)
  refine bind_ok.mpr ⟨(), require_of _ h.configured, bind_ok.mpr ⟨(), ?_,
    bind_ok.mpr ⟨indexed, hi, require_of _ ⟨h.counted.symm, h.evictable_count⟩⟩⟩⟩
  refine forM_ok.mpr ?_
  intro f hf
  exact validateEntry_of_sound h (mem_range.mp hf)

theorem create_sound {frameCapacity : Nat} (h : create frameCapacity k = .ok r) :
    r.Sound ∧ r.currentTimestamp = 0 ∧ r.entries = replicate frameCapacity .blank := by
  simp only [create, ok_iff] at h
  obtain ⟨_, hp, _, _, _, hk, rfl⟩ := h
  have hb : ∀ (f : Nat) ent, (replicate frameCapacity ReplacerEntry.blank)[f]? =
      some ent → ent = .blank := by
    intro f ent he
    exact eq_of_mem_replicate (mem_of_getElem? he)
  refine ⟨⟨⟨hk, by simpa using hp⟩, ?_, nodup_nil, ?_, ?_⟩, rfl, rfl⟩
  · intro f ent he
    rw [hb f ent he]
    exact ⟨fun _ => rfl, by simp [ReplacerEntry.blank]⟩
  · intro c
    refine ⟨fun hc => absurd hc not_mem_nil, ?_⟩
    rintro ⟨ent, he, hv, _⟩
    rw [hb _ ent he] at hv
    simp [ReplacerEntry.blank] at hv
  · simp [countP_replicate, ReplacerEntry.blank]

end LruKReplacer

end MiniDb
