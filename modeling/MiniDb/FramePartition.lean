import MiniDb.FramePool

/-!
How page table, frames, free list, replacer and guards describe one partition of
the frames. Calls that only pin, unpin or replace a page keep it, and a pool that
keeps it passes its own check as far as the frames' log dependencies do.
-/
namespace MiniDb
open ByteBlock Outcome Stateful Pool SortedMap LruKReplacer
open Option hiding get mem_map
open List hiding contains get modify set

variable {frame : BufferFrame} {f n q : Nat} {ext : Option Nat} {p : Pool}

/-- The pins owed to a frame: one for each guard, and one more while a guard is
being made or dropped. -/
def pinsOn (guards : List PageGuard) (extra : Option Nat) (f : Nat) : Nat :=
  guards.countP (fun guard => guard.frameId = f) + if extra = some f then 1 else 0

structure FramePlaced (p : Pool) (extra : Option Nat) (f : Nat) (frame : BufferFrame) : Prop where
  blank : frame.valid = false → frame = .free
  tracked : ∃ entry, p.replacer.entries[f]? = some entry ∧ entry.tracked = frame.valid ∧
    (frame.valid = true → entry.evictable = decide (frame.pinCount = 0))
  legal : frame.valid = true →
    frame.pageId ≠ 0 ∧ frame.pageId ≠ invalidPageId ∧ frame.pageId < p.disk.pageCount
  pinned : frame.pinCount = pinsOn p.guards extra f

structure Partition (p : Pool) (extra : Option Nat) : Prop where
  replacer : p.replacer.Sound
  capacity : p.replacer.entries.length = p.frames.length
  placed : ∀ (f : Nat) frame, p.frames[f]? = some frame → FramePlaced p extra f frame
  queued : p.freeFrames.Nodup
  free : ∀ f, f ∈ p.freeFrames ↔ ∃ frame, p.frames[f]? = some frame ∧ frame.valid = false
  mapped : ∀ q f, p.pageTable.find? q = some f ↔
    ∃ frame, p.frames[f]? = some frame ∧ frame.valid = true ∧ frame.pageId = q
  guarded : ∀ guard ∈ p.guards, ∃ frame, p.frames[guard.frameId]? = some frame ∧
    frame.valid = true ∧ frame.pageId = guard.pageId
  exclusive : ∀ guard ∈ p.guards, guard.writable = true →
    p.guards.countP (fun other => other.frameId = guard.frameId) = 1

theorem Partition.find_page (h : Partition p ext) (hr : p.frames[f]? = some frame)
    (hv : frame.valid = true) : p.pageTable.find? frame.pageId = some f :=
  (h.mapped _ f).mpr ⟨frame, hr, hv, rfl⟩

theorem Partition.page_of_find (h : Partition p ext) (hr : p.frames[f]? = some frame)
    (hn : p.pageTable.find? q = some f) : frame.valid = true ∧ frame.pageId = q := by
  obtain ⟨_, ho, hm⟩ := (h.mapped q f).mp hn
  cases hr.symm.trans ho
  exact hm

theorem Partition.not_free (h : Partition p ext) (hr : p.frames[f]? = some frame)
    (hv : frame.valid = true) : f ∉ p.freeFrames := by
  intro hm
  obtain ⟨_, ho, hu⟩ := (h.free f).mp hm
  cases hr.symm.trans ho
  cases hv.symm.trans hu

/-- A change at one frame leaves the places of all others. -/
theorem Partition.update {p p' : Pool} {ext ext' : Option Nat} (f : Nat)
    (h : Partition p ext) (hrp : p'.replacer.Sound)
    (hc : p'.replacer.entries.length = p'.frames.length)
    (he : ∀ g, g ≠ f → p'.replacer.entries[g]? = p.replacer.entries[g]?)
    (hf : ∀ g, g ≠ f → p'.frames[g]? = p.frames[g]?)
    (hpn : ∀ g, g ≠ f → pinsOn p'.guards ext' g = pinsOn p.guards ext g)
    (hn : p.disk.pageCount ≤ p'.disk.pageCount)
    (hp : ∀ frame, p'.frames[f]? = some frame → FramePlaced p' ext' f frame)
    (hq : p'.freeFrames.Nodup)
    (hfe : ∀ g, g ∈ p'.freeFrames ↔ ∃ frame, p'.frames[g]? = some frame ∧ frame.valid = false)
    (hm : ∀ q g, p'.pageTable.find? q = some g ↔
      ∃ frame, p'.frames[g]? = some frame ∧ frame.valid = true ∧ frame.pageId = q)
    (hgr : ∀ gd ∈ p'.guards, ∃ frame, p'.frames[gd.frameId]? = some frame ∧
      frame.valid = true ∧ frame.pageId = gd.pageId) (hex : ∀ gd ∈ p'.guards, gd.writable = true →
      p'.guards.countP (fun other => other.frameId = gd.frameId) = 1) : Partition p' ext' := by
  refine ⟨hrp, hc, ?_, hq, hfe, hm, hgr, hex⟩
  intro g frame hr
  by_cases hg : g = f
  · subst hg
    exact hp frame hr
  · rw [hf g hg] at hr
    have ho := h.placed g frame hr
    refine ⟨ho.blank, ?_, ?_, ho.pinned.trans (hpn g hg).symm⟩
    · rw [he g hg]
      exact ho.tracked
    · intro hv
      obtain ⟨hz, hi, hlt⟩ := ho.legal hv
      exact ⟨hz, hi, hlt.trans_le hn⟩

/-- The fields of a frame that decide its place. -/
def SamePlace (frame frame' : BufferFrame) : Prop :=
  frame'.valid = frame.valid ∧ frame'.pageId = frame.pageId ∧ frame'.pinCount = frame.pinCount

/-! What the calls on frames and replacer do where the partition holds. -/

theorem frameAt_run (h : p.frames[f]? = some frame) : frameAt f p = .ok frame p := by
  simp only [frameAt, bind, EStateM.bind, get_eq, h]
  rfl

theorem onReplacer_run {p : Pool} {α : Type} {call : ReplacerM α} {a : α} {r : LruKReplacer}
    (h : call p.replacer = .ok a r) : onReplacer call p = .ok a { p with replacer := r } := by
  simp only [onReplacer, onPart, h]

theorem Partition.entry (h : Partition p ext) (hf : p.frames[f]? = some frame)
    (hv : frame.valid = true) :
    ∃ ent, p.replacer.entries[f]? = some ent ∧ ent.tracked = true ∧
      ent.evictable = decide (frame.pinCount = 0) := by
  obtain ⟨ent, he, ht, hev⟩ := (h.placed f frame hf).tracked
  exact ⟨ent, he, ht.trans hv, hev hv⟩

theorem Partition.valid_of_pinned (h : Partition p ext) (hf : p.frames[f]? = some frame)
    (hp : frame.pinCount ≠ 0) : frame.valid = true := by
  by_contra hinv
  have hb := (h.placed f frame hf).blank (by simpa using hinv)
  rw [hb] at hp
  exact hp rfl

theorem pinsOn_none (guards : List PageGuard) (f : Nat) :
    pinsOn guards none f = guards.countP (fun gd => gd.frameId = f) := by
  simp [pinsOn]

theorem pinsOn_self (guards : List PageGuard) (f : Nat) :
    pinsOn guards (some f) f = guards.countP (fun gd => gd.frameId = f) + 1 := by
  simp [pinsOn]

theorem pinsOn_other (guards : List PageGuard) {g : Nat} (h : g ≠ f) :
    pinsOn guards (some f) g = pinsOn guards none g := by
  simp [pinsOn, Ne.symm h]

/-- One frame's pin count and its replacer entry move together. -/
theorem Partition.repin {ext' : Option Nat} (h : Partition p ext) {pins : Nat} {ent : ReplacerEntry}
    {r : LruKReplacer} (hf : p.frames[f]? = some frame) (hv : frame.valid = true) (hs : r.Sound)
    (hn : r.entries = p.replacer.entries.set f ent) (ht : ent.tracked = true)
    (he : ent.evictable = decide (pins = 0)) (hp : pins = pinsOn p.guards ext' f)
    (hot : ∀ g, g ≠ f → pinsOn p.guards ext' g = pinsOn p.guards ext g) :
    Partition { p with
      frames := p.frames.set f { frame with pinCount := pins }
      replacer := r } ext' := by
  have hlt := lt_of_getElem? hf
  have hh : ∀ (g : Nat) (P : Bool → Nat → Prop),
      (∃ other, (p.frames.set f { frame with pinCount := pins })[g]? = some other ∧
        P other.valid other.pageId) ↔
        ∃ other, p.frames[g]? = some other ∧ P other.valid other.pageId := by
    intro g P
    by_cases hg : g = f
    · subst hg
      simp [getElem?_set_self hlt, hf]
    · rw [getElem?_set_ne (Ne.symm hg)]
  refine h.update f hs ?_ ?_ (fun g hg => getElem?_set_ne (Ne.symm hg)) hot
    le_rfl ?_ h.queued ?_ ?_ ?_ h.exclusive
  · simp [hn, h.capacity]
  · intro g hg
    rw [hn, getElem?_set_ne (Ne.symm hg)]
  · intro other ho
    simp only [getElem?_set_self hlt, some.injEq] at ho
    subst ho
    refine ⟨?_, ⟨ent, ?_, ht.trans hv.symm, fun _ => he⟩, (h.placed f frame hf).legal, hp⟩
    · intro hi
      rw [show frame.valid = false from hi] at hv
      simp at hv
    · rw [hn, getElem?_set_self (h.capacity ▸ hlt)]
  · intro g
    rw [h.free g]
    exact (hh g fun valid _ => valid = false).symm
  · intro q g
    rw [h.mapped q g]
    exact (hh g fun valid pid => valid = true ∧ pid = q).symm
  · intro gd hr
    exact (hh gd.frameId fun valid pid =>
      valid = true ∧ pid = gd.pageId).mpr (h.guarded gd hr)

theorem releasePin_run (h : Partition p (some f)) (hf : p.frames[f]? = some frame) :
    ∃ p', releasePin f p = .ok () p' ∧ Partition p' none ∧ p' = { p with
        frames := p.frames.set f { frame with pinCount := frame.pinCount - 1 }
        replacer := p'.replacer } ∧
      p'.replacer.currentTimestamp = p.replacer.currentTimestamp := by
  have hpn := (h.placed f frame hf).pinned
  rw [pinsOn_self] at hpn
  have hp : frame.pinCount ≠ 0 := by omega
  have hv := h.valid_of_pinned hf hp
  obtain ⟨ent, he, ht, hev⟩ := h.entry hf hv
  have hle : frame.pinCount - 1 = pinsOn p.guards none f := by
    rw [pinsOn_none]
    omega
  have ho : ∀ g, g ≠ f → pinsOn p.guards none g = pinsOn p.guards (some f) g :=
    fun g hg => (pinsOn_other p.guards hg).symm
  have hr : releasePin f p = (do
        setFrame f { frame with pinCount := frame.pinCount - 1 }
        if frame.pinCount - 1 = 0 then onReplacer (setEvictable f true)
        else return () : PoolM Unit) p := by
    unfold releasePin
    rw [run_bind (frameAt_run hf), if_neg (by simp [hv, hp])]
  by_cases hl : frame.pinCount - 1 = 0
  · obtain ⟨r, hs, hsn, _, hc, hn⟩ :=
      setEvictable_run h.replacer he ht true
    refine ⟨_, ?_, h.repin hf hv hsn hn ht (by simp [hl]) hle ho, rfl, hc⟩
    rw [hr, if_pos hl]
    exact onReplacer_run hs
  · have hm : p.replacer.entries = p.replacer.entries.set f ent := by
      rw [← (List.getElem?_eq_some_iff.mp he).2, set_getElem_self]
    refine ⟨_, ?_, h.repin hf hv h.replacer hm ht ?_ hle ho, rfl, rfl⟩
    · rw [hr, if_neg hl]
      rfl
    · rw [hev]
      simp [hp, hl]

theorem pinResident_run (h : Partition p none) (hr : p.frames[f]? = some frame)
    (hv : frame.valid = true) (hm : frame.pinCount ≠ 2 ^ 32 - 1)
    (hc : p.replacer.currentTimestamp < 2 ^ 64 - 1) :
    ∃ p', pinResident f p = .ok () p' ∧ Partition p' (some f) ∧ p' = { p with
        frames := p.frames.set f { frame with pinCount := frame.pinCount + 1 }
        replacer := p'.replacer } ∧
      p'.replacer.currentTimestamp = p.replacer.currentTimestamp + 1 := by
  obtain ⟨ent, he, ht, hev⟩ := h.entry hr hv
  have hlt := lt_of_getElem? he
  have hp := (h.placed f frame hr).pinned
  rw [pinsOn_none] at hp
  -- an unpinned frame leaves the candidates before its access is recorded
  have hl : ∃ r left, r.Sound ∧ r.entries = p.replacer.entries.set f left ∧
      left.tracked = true ∧ left.evictable = false ∧
      r.currentTimestamp = p.replacer.currentTimestamp ∧ ∀ next : Unit → PoolM Unit,
        (if frame.pinCount = 0 then onReplacer (setEvictable f false) >>= next
          else next ()) p = next () { p with replacer := r } := by
    by_cases hf : frame.pinCount = 0
    · obtain ⟨r, hst, hs, _, hn, hen⟩ :=
        setEvictable_run h.replacer he ht false
      refine ⟨r, _, hs, hen, ht, rfl, hn, ?_⟩
      intro next
      rw [if_pos hf]
      exact run_bind (onReplacer_run hst)
    · refine ⟨p.replacer, ent, h.replacer, ?_, ht, by simp [hev, hf], rfl, ?_⟩
      · rw [← (List.getElem?_eq_some_iff.mp he).2, set_getElem_self]
      · intro next
        rw [if_neg hf]
  obtain ⟨r, left, hs, hen, ht, hpn, hn, hl⟩ := hl
  have hsl : r.entries[f]? = some left := by
    rw [hen, getElem?_set_self hlt]
  obtain ⟨r', ha, hs', _, hn', hen'⟩ :=
    recordAccess_run hs hsl (hn ▸ hc)
  refine ⟨{ p with
    frames := p.frames.set f { frame with pinCount := frame.pinCount + 1 }
    replacer := r' }, ?_, ?_, rfl, hn'.trans (by rw [hn])⟩
  · unfold pinResident
    rw [run_bind (frameAt_run hr), if_neg hm]
    refine (hl _).trans ?_
    exact @onReplacer_run { p with
      frames := p.frames.set f { frame with pinCount := frame.pinCount + 1 }
      replacer := r } _ _ _ _ ha
  · refine h.repin hr hv hs' (hen'.trans (by rw [hen, set_set])) rfl
      ?_ ?_ (fun g hg => pinsOn_other p.guards hg)
    · simp [accessed, hpn]
    · rw [pinsOn_self, hp]

/-- The frame the pool would use next holds no guard: it is the first free one, or
a candidate of the replacer. -/
theorem Partition.available (h : Partition p none) (ha : p.availableFrame = some f) :
    ∃ frame, p.frames[f]? = some frame ∧ frame.pinCount = 0 ∧
      (frame.valid = false → p.freeFrames.head? = some f) := by
  unfold availableFrame at ha
  split at ha
  · rename_i fst rest hq
    cases ha
    obtain ⟨frame, hf, hi⟩ := (h.free f).mp (by simp [hq])
    refine ⟨frame, hf, ?_, fun _ => by simp [hq]⟩
    rw [(h.placed f frame hf).blank hi]
    rfl
  · obtain ⟨ent, he, hev⟩ := h.replacer.victim_evictable ha
    have hlt : f < p.frames.length := h.capacity ▸ (lt_of_getElem? he)
    have hf := getElem?_eq_getElem hlt
    obtain ⟨other, ho, ht, hp⟩ := (h.placed f _ hf).tracked
    rw [he, some.injEq] at ho
    subst ho
    have hv := ht.symm.trans ((h.replacer.entries f ent he).tracked_of_evictable hev)
    rw [hp hv, decide_eq_true_eq] at hev
    exact ⟨_, hf, hev, fun hi => by simp [hv] at hi⟩

/-- A frame that was taken from its page, or from the free list. -/
structure Vacated (p : Pool) (f : Nat) (p' : Pool) : Prop where
  only : p' = { p with
    pageTable := p'.pageTable
    freeFrames := p'.freeFrames
    replacer := p'.replacer }
  sound : p'.replacer.Sound
  clock : p'.replacer.currentTimestamp = p.replacer.currentTimestamp
  entries : p'.replacer.entries = p.replacer.entries.set f .blank
  table : ∀ q g, p'.pageTable.find? q = some g ↔ g ≠ f ∧ p.pageTable.find? q = some g
  queued : p'.freeFrames.Nodup
  free : ∀ g, g ∈ p'.freeFrames ↔ g ≠ f ∧ g ∈ p.freeFrames

theorem vacateFrame_run (h : Partition p none) (hr : p.frames[f]? = some frame)
    (hp : frame.pinCount = 0) (hh : frame.valid = false → p.freeFrames.head? = some f) :
    ∃ p', vacateFrame f frame p = .ok () p' ∧ Vacated p f p' := by
  cases hv : frame.valid with
  | true =>
    obtain ⟨ent, he, _, hev⟩ := h.entry hr hv
    obtain ⟨r, hm, hs, _, hl, hen⟩ :=
      remove_run h.replacer he (by simp [hev, hp])
    have ha := h.find_page hr hv
    refine ⟨{ p with replacer := r, pageTable := p.pageTable.erase frame.pageId }, ?_,
      rfl, hs, hl, hen, ?_, h.queued, ?_⟩
    · have hc : p.pageTable.contains frame.pageId = true :=
        contains_iff.mpr ⟨f, ha⟩
      simp only [vacateFrame, hv, if_true]
      rw [run_bind (onReplacer_run hm), if_neg (by simp)]
      simp only [bind, EStateM.bind, get_eq, hc, if_true]
      rfl
    · intro q g
      rw [find?_erase]
      split
      · rename_i hq
        subst hq
        rw [ha]
        simp only [reduceCtorEq, some.injEq, false_iff, not_and]
        exact fun hg heq => hg heq.symm
      · rename_i hq
        refine ⟨fun hn => ⟨?_, hn⟩, And.right⟩
        rintro rfl
        exact hq (h.page_of_find hr hn).2.symm
    · intro g
      refine ⟨fun hg => ⟨?_, hg⟩, And.right⟩
      rintro rfl
      exact h.not_free hr hv hg
  | false =>
    have hu : p.freeFrames = f :: p.freeFrames.tail := by
      have hf := hh hv
      cases hfe : p.freeFrames with
      | nil => simp [hfe] at hf
      | cons fst rest =>
        simp only [hfe, head?_cons, some.injEq] at hf
        simp [hf]
    obtain ⟨ent, he, ht, _⟩ := (h.placed f frame hr).tracked
    have hb := (h.replacer.entries f ent he).untracked (ht.trans hv)
    refine ⟨{ p with freeFrames := p.freeFrames.tail }, ?_, rfl, h.replacer, rfl, ?_, ?_,
      h.queued.tail, ?_⟩
    · simp only [vacateFrame, hv, Bool.false_eq_true, if_false, bind, EStateM.bind, get_eq, hh hv,
        if_true]
      rfl
    · rw [← hb, ← (List.getElem?_eq_some_iff.mp he).2, set_getElem_self]
    · intro q g
      refine ⟨fun hn => ⟨?_, hn⟩, And.right⟩
      rintro rfl
      cases hv.symm.trans (h.page_of_find hr hn).1
    · intro g
      have hd := h.queued
      rw [hu] at hd
      rw [hu, mem_cons, tail_cons]
      constructor
      · intro hg
        refine ⟨?_, .inr hg⟩
        rintro rfl
        exact (nodup_cons.mp hd).1 hg
      · rintro ⟨hne, hg | hg⟩
        · exact absurd hg hne
        · exact hg

/-- A page just put into a frame. -/
def installedFrame (q : Nat) (page : Page) (dirty : Bool) : BufferFrame :=
  ⟨page, q, 1, dirty, true, none, none, false, false⟩

theorem Partition.installed {v : Pool} (h : Partition p none) {pg : Page} {dirty : Bool}
    {ent : ReplacerEntry} {r : LruKReplacer} (hf : p.frames[f]? = some frame)
    (hp : frame.pinCount = 0) (ha : p.pageTable.find? q = none)
    (hlg : q ≠ 0 ∧ q ≠ invalidPageId ∧ q < p.disk.pageCount) (hv : Vacated p f v) (hs : r.Sound)
    (he : r.entries = p.replacer.entries.set f ent) (ht : ent.tracked = true)
    (hn : ent.evictable = false) :
    Partition { p with
      frames := p.frames.set f (installedFrame q pg dirty)
      pageTable := v.pageTable.insert q f
      freeFrames := v.freeFrames
      replacer := r } (some f) := by
  have hlt : f < p.frames.length := lt_of_getElem? hf
  have hl : (p.frames.set f (installedFrame q pg dirty))[f]? =
      some (installedFrame q pg dirty) := getElem?_set_self hlt
  have hot : ∀ g, g ≠ f → (p.frames.set f (installedFrame q pg dirty))[g]? = p.frames[g]? :=
    fun g hg => getElem?_set_ne (Ne.symm hg)
  have hu : p.guards.countP (fun gd => gd.frameId = f) = 0 := by
    rw [← pinsOn_none, ← (h.placed f frame hf).pinned, hp]
  refine h.update f hs ?_ ?_ hot (fun g hg => pinsOn_other p.guards hg) le_rfl
    ?_ hv.queued ?_ ?_ ?_ h.exclusive
  · simp [he, h.capacity]
  · intro g hg
    rw [he, getElem?_set_ne (Ne.symm hg)]
  · intro other ho
    rw [show _ = some (installedFrame q pg dirty) from hl, some.injEq] at ho
    subst ho
    refine ⟨by simp [installedFrame], ⟨ent, ?_, ht, fun _ => hn⟩, fun _ => hlg, ?_⟩
    · rw [he, getElem?_set_self (h.capacity ▸ hlt)]
    · show 1 = pinsOn p.guards (some f) f
      rw [pinsOn_self, hu]
  · intro g
    rw [hv.free g, h.free g]
    by_cases hg : g = f
    · subst hg
      simp only [hl, some.injEq, exists_eq_left']
      simp [installedFrame]
    · simp only [hot g hg, ne_eq, hg, not_false_eq_true, true_and]
  · intro q' g
    rw [find?_insert]
    by_cases hg : g = f
    · subst hg
      simp only [hl, some.injEq, exists_eq_left']
      split
      · rename_i hq
        simp [hq, installedFrame]
      · rename_i hq
        simp [hv.table, installedFrame, Ne.symm hq]
    · simp only [hot g hg]
      rw [← h.mapped q' g]
      split
      · rename_i hq
        subst hq
        simp [ha, Ne.symm hg]
      · simp [hv.table, hg]
  · intro gd hr
    have hne : gd.frameId ≠ f := by
      intro heq
      exact absurd hu (countP_pos_iff.mpr ⟨gd, hr, by simp [heq]⟩).ne'
    rw [show _ = p.frames[gd.frameId]? from hot gd.frameId hne]
    exact h.guarded gd hr

theorem installPage_run (h : Partition p none) {pg : Page} {dirty : Bool}
    (hav : p.availableFrame = some f) (hf : p.frames[f]? = some frame)
    (hc : frame.valid = true → frame.dirty = false) (ha : p.pageTable.find? q = none)
    (hlg : q ≠ 0 ∧ q ≠ invalidPageId ∧ q < p.disk.pageCount)
    (hl : p.replacer.currentTimestamp < 2 ^ 64 - 1) :
    ∃ p', installPage f q pg dirty p = .ok () p' ∧ Partition p' (some f) ∧ p' = { p with
        frames := p.frames.set f (installedFrame q pg dirty)
        pageTable := p'.pageTable
        freeFrames := p'.freeFrames
        replacer := p'.replacer } ∧
      p'.replacer.currentTimestamp = p.replacer.currentTimestamp + 1 := by
  obtain ⟨_, hm, hp, hh⟩ := h.available hav
  rw [hf, some.injEq] at hm
  subst hm
  have hlt := lt_of_getElem? hf
  have hlt' : f < p.replacer.entries.length := h.capacity ▸ hlt
  obtain ⟨v, hvc, hv⟩ := vacateFrame_run h hf hp hh
  obtain ⟨r, hac, hs, _, hn, he⟩ := recordAccess_run hv.sound
    (by rw [hv.entries, getElem?_set_self hlt']) (by rw [hv.clock]; exact hl)
  rw [hv.entries, set_set] at he
  obtain ⟨r', ht, hs', _, hn', he'⟩ := setEvictable_run hs
    (by rw [he, getElem?_set_self hlt']) rfl false
  rw [he, set_set] at he'
  have hb : v.pageTable.find? q = none := by
    by_contra hsome
    obtain ⟨g, hg⟩ := ne_none_iff_exists'.mp hsome
    simp [((hv.table q g).mp hg).2] at ha
  refine ⟨{ p with
    frames := p.frames.set f (installedFrame q pg dirty)
    pageTable := v.pageTable.insert q f
    freeFrames := v.freeFrames
    replacer := r' }, ?_, ?_, rfl, by rw [hn', hn, hv.clock]⟩
  · have hcn : v.pageTable.contains q = false := by simp [contains, hb]
    unfold installPage
    rw [run_bind (frameAt_run hf), if_neg (by
      rintro ⟨hvl, hd⟩
      simp [hc hvl] at hd), run_bind hvc]
    rw [hv.only]
    simp only [setFrame, run_eq, hcn, Bool.false_eq_true, if_false, onReplacer, onPart, hac, ht,
      installedFrame]
  · exact h.installed hf hp ha hlg hv hs' he' rfl rfl

/-! Guards come and go with their pins. -/

theorem countP_of_unlocked (hwr : p.writeLocked f = false) (hr : p.readLocked f = false) :
    p.guards.countP (fun gd => gd.frameId = f) = 0 := by
  refine countP_eq_zero.mpr ?_
  intro gd hg hf
  simp only [decide_eq_true_eq] at hf
  cases hw : gd.writable with
  | true =>
    have := any_eq_false.mp hwr gd hg
    simp [hf, hw] at this
  | false =>
    have := any_eq_false.mp hr gd hg
    simp [hf, hw] at this

theorem Partition.guardMade {writable : Bool} (h : Partition p (some f))
    (hf : p.frames[f]? = some frame) (hv : frame.valid = true) (hp : frame.pageId = q)
    (hr : p.writeLocked f = false) (hd : writable = true → p.readLocked f = false) :
    Partition { p with guards := ⟨f, q, writable⟩ :: p.guards } none := by
  have hc : ∀ g, (⟨f, q, writable⟩ :: p.guards).countP (fun gd => gd.frameId = g) =
      pinsOn p.guards (some f) g := by
    intro g
    simp [pinsOn, countP_cons]
  refine ⟨h.replacer, h.capacity, ?_, h.queued, h.free, h.mapped, ?_, ?_⟩
  · intro g other ho
    have hl := h.placed g other ho
    exact ⟨hl.blank, hl.tracked, hl.legal,
      hl.pinned.trans ((hc g).symm.trans (pinsOn_none _ g).symm)⟩
  · intro gd hg
    rcases mem_cons.mp hg with rfl | hg
    · exact ⟨frame, hf, hv, hp⟩
    · exact h.guarded gd hg
  · intro gd hg hw
    rw [hc]
    rcases mem_cons.mp hg with rfl | hg
    · rw [pinsOn_self, countP_of_unlocked hr (hd hw)]
    · have hne : gd.frameId ≠ f := by
        intro heq
        have := any_eq_false.mp hr gd hg
        simp [heq, hw] at this
      rw [pinsOn_other _ hne, pinsOn_none]
      exact h.exclusive gd hg hw

theorem Partition.guardDropped {gd : PageGuard} (h : Partition p none) (hg : gd ∈ p.guards) :
    Partition { p with guards := p.guards.erase gd } (some gd.frameId) := by
  have hc : ∀ g, pinsOn (p.guards.erase gd) (some gd.frameId) g = pinsOn p.guards none g := by
    intro g
    have hp := (perm_cons_erase hg).countP_eq (fun other => other.frameId = g)
    rw [countP_cons] at hp
    simp only [pinsOn, reduceCtorEq, if_false, add_zero, some.injEq]
    rw [hp]
    simp only [decide_eq_true_eq]
  refine ⟨h.replacer, h.capacity, ?_, h.queued, h.free, h.mapped, ?_, ?_⟩
  · intro g other ho
    have hd := h.placed g other ho
    exact ⟨hd.blank, hd.tracked, hd.legal, hd.pinned.trans (hc g).symm⟩
  · intro other ho
    exact h.guarded other (mem_of_mem_erase ho)
  · intro other ho hw
    have hn := h.exclusive other (mem_of_mem_erase ho) hw
    have hl := hc other.frameId
    rw [pinsOn_none, hn] at hl
    by_cases hs : other.frameId = gd.frameId
    · -- two guards of one frame, and one of them writable, cannot both be held
      rw [hs, pinsOn_self] at hl
      have hps : 0 < (p.guards.erase gd).countP (fun g => g.frameId = gd.frameId) :=
        countP_pos_iff.mpr ⟨other, ho, by simp [hs]⟩
      omega
    · rw [pinsOn_other _ hs, pinsOn_none] at hl
      exact hl

/-! The pool's own check. -/

theorem validateFree_fold {l seen : List Nat} (hl : l.Nodup) (hlt : ∀ f ∈ l, f < n)
    (hs : ∀ f ∈ l, f ∉ seen) : l.foldlM (validateFree n) seen = .ok (l.reverse ++ seen) := by
  induction l generalizing seen with
  | nil => rfl
  | cons f l ih =>
    obtain ⟨hf, hr⟩ := nodup_cons.mp hl
    have ht : validateFree n seen f = .ok (f :: seen) :=
      bind_ok.mpr ⟨(), require_of _ ⟨hlt f mem_cons_self, hs f mem_cons_self⟩, rfl⟩
    rw [foldlM_cons, bind_of_ok ht, ih hr (fun g hg => hlt g (mem_cons_of_mem f hg))]
    · simp
    · intro g hg hm
      rcases mem_cons.mp hm with rfl | hm
      · exact hf hg
      · exact hs g (mem_cons_of_mem f hg) hm

/-- The pages of the valid frames among the first `n`, as the walk collects them. -/
def pagesBelow (p : Pool) : Nat → List Nat
  | 0 => []
  | n + 1 =>
    match p.frames[n]? with
    | some frame => if frame.valid then frame.pageId :: pagesBelow p n else pagesBelow p n
    | none => pagesBelow p n

theorem mem_pagesBelow (h : q ∈ pagesBelow p n) :
    ∃ f frame, f < n ∧ p.frames[f]? = some frame ∧ frame.valid = true ∧ frame.pageId = q := by
  induction n with
  | zero => exact absurd h not_mem_nil
  | succ n ih =>
    have hb : q ∈ pagesBelow p n → ∃ f frame, f < n + 1 ∧ p.frames[f]? = some frame ∧
        frame.valid = true ∧ frame.pageId = q := by
      intro hm
      obtain ⟨f, frame, hlt, hf⟩ := ih hm
      exact ⟨f, frame, Nat.lt_succ_of_lt hlt, hf⟩
    unfold pagesBelow at h
    split at h
    · rename_i frame hf
      split at h
      · rename_i hv
        rcases mem_cons.mp h with rfl | h
        · exact ⟨n, frame, Nat.lt_succ_self n, hf, hv, rfl⟩
        · exact hb h
      · exact hb h
    · exact hb h

theorem length_pagesBelow (hn : n ≤ p.frames.length) :
    (pagesBelow p n).length = (range n).countP (fun f => p.frames[f]?.any (·.valid)) := by
  induction n with
  | zero => rfl
  | succ n ih =>
    have hf := getElem?_eq_getElem hn
    rw [range_succ, countP_append, ← ih (Nat.le_of_succ_le hn)]
    simp only [pagesBelow, hf, countP_singleton, any_some]
    split
    · simp
    · simp

theorem Partition.validateFrame_run (h : Partition p ext) (hf : f < p.frames.length)
    (hw : ∀ (g : Nat) frame, p.frames[g]? = some frame → frame.valid = true →
      validateWalDependency p.walProvider frame false = .ok ()) :
    p.validateFrame (p.freeFrames.reverse ++ []) (pagesBelow p f) f =
      .ok (pagesBelow p (f + 1)) := by
  have hr := getElem?_eq_getElem hf
  have hp := h.placed f _ hr
  obtain ⟨ent, he, ht, hev⟩ := hp.tracked
  have hs : p.replacer.isTracked f = .ok ent.tracked := by
    simp only [isTracked, requireEntry, he]
    rfl
  have hiv : p.replacer.isEvictable f = .ok ent.evictable := by
    simp only [isEvictable, requireEntry, he]
    rfl
  simp only [validateFrame, pagesBelow, hr]
  split
  · rename_i hv
    obtain ⟨hz, hi, hlt⟩ := hp.legal hv
    have hmp := h.find_page hr hv
    refine bind_ok.mpr ⟨(), require_of _ ⟨hz, hi, hlt, ?_⟩, bind_ok.mpr
      ⟨_, hs, bind_ok.mpr ⟨(), require_of _ ⟨hmp, ?_, ht.trans hv⟩,
        bind_ok.mpr ⟨_, hiv, bind_ok.mpr ⟨(), require_of _ (hev hv),
          bind_ok.mpr ⟨(), hw f _ hr hv, rfl⟩⟩⟩⟩⟩⟩
    · -- the page of an earlier frame would be mapped to two frames
      intro hm
      obtain ⟨g, other, hg, ho, hus, hpg⟩ := mem_pagesBelow hm
      have hc := (h.mapped _ g).mpr ⟨other, ho, hus, hpg⟩
      rw [hmp, some.injEq] at hc
      omega
    · simp only [append_nil, mem_reverse]
      exact h.not_free hr hv
  · rename_i hv
    have hu : p.frames[f].valid = false := by simpa using hv
    refine bind_ok.mpr ⟨(), bind_ok.mpr ⟨_, hs, require_of _ ?_⟩, rfl⟩
    have hm : f ∈ p.freeFrames.reverse ++ [] := by
      simpa using (h.free f).mpr ⟨_, hr, hu⟩
    rw [hp.blank hu]
    exact ⟨rfl, rfl, rfl, rfl, rfl, rfl, rfl, hm, ht.trans hu⟩

theorem Partition.validateFrames_run (h : Partition p ext)
    (hw : ∀ (g : Nat) frame, p.frames[g]? = some frame → frame.valid = true →
      validateWalDependency p.walProvider frame false = .ok ()) (hn : n ≤ p.frames.length) :
    (range n).foldlM (p.validateFrame (p.freeFrames.reverse ++ [])) [] = .ok (pagesBelow p n) := by
  induction n with
  | zero => rfl
  | succ n ih =>
    rw [range_succ, foldlM_append, bind_of_ok (ih (Nat.le_of_succ_le hn))]
    simp only [foldlM_cons, foldlM_nil]
    exact bind_ok.mpr ⟨_, h.validateFrame_run hn hw, rfl⟩

/-- Page table and valid frames are equally many: a frame holds one page. -/
theorem Partition.table_length (h : Partition p ext) :
    p.frames.countP (·.valid) = p.pageTable.entries.length := by
  have hp : ((range p.frames.length).filter
      (fun f => p.frames[f]?.any (·.valid))).Perm (p.pageTable.entries.map Prod.snd) := by
    refine (perm_ext_iff_of_nodup (nodup_range.filter _) ?_).mpr ?_
    · have hn : p.pageTable.entries.Nodup :=
        p.pageTable.sorted.imp fun hlt heq => absurd (heq ▸ hlt) (lt_irrefl _)
      refine List.Nodup.map_on ?_ hn
      rintro ⟨q, f⟩ hq ⟨q', f'⟩ hq' hs
      cases hs
      obtain ⟨frame, hr, _, rfl⟩ := (h.mapped q f).mp (find?_eq_some.mpr hq)
      obtain ⟨frame', hr', _, rfl⟩ := (h.mapped q' f).mp (find?_eq_some.mpr hq')
      rw [hr, some.injEq] at hr'
      rw [hr']
    · intro f
      simp only [mem_filter, mem_range, mem_map, Prod.exists, exists_eq_right]
      constructor
      · rintro ⟨hf, hv⟩
        rw [getElem?_eq_getElem hf] at hv
        exact ⟨_, find?_eq_some.mp ((h.mapped _ f).mpr
          ⟨_, getElem?_eq_getElem hf, by simpa using hv, rfl⟩)⟩
      · rintro ⟨q, hq⟩
        obtain ⟨frame, hr, hv, _⟩ := (h.mapped q f).mp (find?_eq_some.mpr hq)
        exact ⟨lt_of_getElem? hr, by simp [hr, hv]⟩
  have hl := hp.length_eq
  rw [length_map] at hl
  rw [← hl, ← countP_eq_length_filter]
  exact countP_eq_range _ p.frames

theorem Partition.free_length (h : Partition p ext) :
    p.frames.countP (fun frame => !frame.valid) = p.freeFrames.length := by
  have hp : ((range p.frames.length).filter
      (fun f => p.frames[f]?.any (fun frame => !frame.valid))).Perm p.freeFrames := by
    refine (perm_ext_iff_of_nodup (nodup_range.filter _) h.queued).mpr ?_
    intro f
    rw [h.free f, mem_filter, mem_range]
    constructor
    · rintro ⟨hf, hu⟩
      rw [getElem?_eq_getElem hf] at hu
      exact ⟨_, getElem?_eq_getElem hf, by simpa using hu⟩
    · rintro ⟨frame, hr, hu⟩
      exact ⟨lt_of_getElem? hr, by simp [hr, hu]⟩
  rw [← hp.length_eq, ← countP_eq_length_filter]
  exact countP_eq_range _ p.frames

theorem Partition.validate_run (h : Partition p ext)
    (hw : ∀ (g : Nat) frame, p.frames[g]? = some frame → frame.valid = true →
      Pool.validateWalDependency p.walProvider frame false = .ok ()) : p.validate = .ok () := by
  have hb := h.table_length
  have hfe := h.free_length
  have ht := length_eq_countP_add_countP (·.valid) (l := p.frames)
  have hp := (length_pagesBelow le_rfl).trans (countP_eq_range _ p.frames).symm
  have hq : p.freeFrames.foldlM (validateFree p.frames.length) [] =
      .ok (p.freeFrames.reverse ++ []) := by
    refine validateFree_fold h.queued ?_ (fun _ _ => not_mem_nil)
    intro f hf
    obtain ⟨frame, hr, _⟩ := (h.free f).mp hf
    exact lt_of_getElem? hr
  simp only [Bool.not_eq_true, Bool.decide_eq_false] at ht
  refine bind_ok.mpr ⟨(), validate_of_sound h.replacer, bind_ok.mpr
    ⟨(), require_of _ (by omega), bind_ok.mpr ⟨_, hq, bind_ok.mpr
      ⟨_, h.validateFrames_run hw le_rfl, bind_ok.mpr ⟨(), ?_, require_of _ ?_⟩⟩⟩⟩⟩
  · refine forM_ok.mpr ?_
    rintro ⟨q, f⟩ he
    obtain ⟨frame, hr, hv, hg⟩ := (h.mapped q f).mp (find?_eq_some.mpr he)
    exact require_of _ ⟨frame, hr, hv, hg⟩
  · simp only [append_nil, length_reverse]
    omega

end MiniDb
