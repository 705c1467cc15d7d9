import MiniDb.PoolContents

/-!
The calls of the pool's client, one after the other: each keeps the partition of
the frames, the contents of every page but the one it writes, and the page of
every pinned frame, whether it returns or throws.
-/
namespace MiniDb
open ByteBlock Outcome Stateful Pool
open List hiding get

variable {fr new : BufferFrame} {f q : Nat} {s : Nat → Prop} {ext ext' : Option Nat}
  {gd : PageGuard} {p p' : Pool}

/-- The frames of `s` still hold the pages they held. -/
def KeepsPages (s : Nat → Prop) (p p' : Pool) : Prop :=
  ∀ (f : Nat) frame, s f → p.frames[f]? = some frame → frame.valid = true →
    ∃ frame', p'.frames[f]? = some frame' ∧ frame'.valid = true ∧ frame'.pageId = frame.pageId

structure Kept (s : Nat → Prop) (extra : Option Nat) (p p' : Pool) : Prop where
  partition : Partition p' extra
  contents : Contents p'
  view : ∀ q, SameContents (p'.view q) (p.view q)
  pages : KeepsPages s p p'

theorem KeepsPages.of_set {fr' : BufferFrame} (hr : p.frames[f]? = some fr)
    (hf : p'.frames = p.frames.set f fr')
    (hp : s f → fr.valid = true → fr'.valid = true ∧ fr'.pageId = fr.pageId) :
    KeepsPages s p p' := by
  have hlt := lt_of_getElem? hr
  intro g other hs ho hv
  by_cases hg : g = f
  · subst hg
    rw [hr, Option.some.injEq] at ho
    subst ho
    exact ⟨fr', by rw [hf, getElem?_set_self hlt], hp hs hv⟩
  · exact ⟨other, by rw [hf, getElem?_set_ne (Ne.symm hg)]; exact ho, hv, rfl⟩

theorem Kept.trans {a b c : Pool} (ha : Kept s ext a b) (hb : Kept s ext' b c) :
    Kept s ext' a c := by
  refine ⟨hb.partition, hb.contents, fun q => (hb.view q).trans (ha.view q), ?_⟩
  intro f fst hs hf hv
  obtain ⟨mid, hm, hv, hp⟩ := ha.pages f fst hs hf hv
  obtain ⟨last, hl, hv, hp'⟩ := hb.pages f mid hs hm hv
  exact ⟨last, hl, hv, hp'.trans hp⟩

theorem Quiet.kept (h : Quiet p p') (hp : Partition p ext) : Kept s ext p p' := by
  refine ⟨h.partition hp, h.contents, h.view, ?_⟩
  intro f fr _ hf hv
  obtain ⟨fr', hf', hl⟩ := h.place f fr hf
  exact ⟨fr', hf', hl.1.trans hv, hl.2.1⟩

theorem Kept.refl (hp : Partition p ext) (hc : Contents p) : Kept s ext p p :=
  (Quiet.refl hc).kept hp

/-! Pins. -/

/-- The pins and latches of one frame move; its page and contents stay. -/
theorem Kept.repinned (pins : Nat) (h : Partition p ext) (hc : Contents p) (h' : Partition p' ext')
    (hr : p.frames[f]? = some fr) (hv : fr.valid = true) (hn : p' = { p with
      frames := p.frames.set f { fr with pinCount := pins }
      replacer := p'.replacer
      guards := p'.guards }) (hot : ∀ g, g ≠ f → p'.writeLocked g = p.writeLocked g)
    (hlc : p'.writeLocked f = true → p.writeLocked f = true ∧ pins ≠ 0) :
    Kept s ext' p p' := by
  have hf : p'.frames = p.frames.set f { fr with pinCount := pins } := by rw [hn]
  have ht : p'.pageTable = p.pageTable := by rw [hn]
  have hd : p'.disk = p.disk := by rw [hn]
  have hcr : p'.coordinator = p.coordinator := by rw [hn]
  have hm : p'.durability = p.durability := by rw [hn]
  have hlt := lt_of_getElem? hr
  refine ⟨h', ⟨?_, ?_, hd ▸ hc.header⟩, ?_, .of_set hr hf fun _ _ => ⟨hv, rfl⟩⟩
  · intro hh
    have he := h.engine_setFrame hr hv hf ht hot
    rw [hcr, hd] at he
    rw [he]
    exact (hc.logged (hm ▸ hh)).pooled
      (PoolEffect.repinned (e := p.engine) pins _ (h.find_engine hr hv) hlc)
  · intro hpn g other ho hu
    have hpr : p'.walProvider = p.walProvider := by
      simp only [walProvider, hm, hcr]
    have hk : ∃ old, p.frames[g]? = some old ∧ old.valid = other.valid ∧
        other = { old with pinCount := other.pinCount } := by
      by_cases hg : g = f
      · subst hg
        rw [hf, getElem?_set_self hlt, Option.some.injEq] at ho
        exact ⟨fr, hr, by rw [← ho], by rw [← ho]⟩
      · rw [hf, getElem?_set_ne (Ne.symm hg)] at ho
        exact ⟨other, ho, rfl, rfl⟩
    obtain ⟨old, hold, hs, hmr⟩ := hk
    have hp := hc.plain (hm ▸ hpn) g old hold (hs.trans hu)
    rw [hmr]
    exact ⟨fun hl => by rw [hd]; exact hp.clean hl, hp.unlogged, by rw [hpr]; exact hp.pending⟩
  · intro q
    rw [h.view_set hr hv hf ht (fun r _ => by rw [hd]) q]
    split
    · rename_i hq
      rw [hq, h.view_resident hr hv]
      exact .refl _
    · exact .refl _

theorem countP_of_writeLocked (h : p.writeLocked f = true) :
    p.guards.countP (fun gd => gd.frameId = f) ≠ 0 := by
  obtain ⟨gd, hg, hl⟩ := any_eq_true.mp h
  simp only [Bool.and_eq_true, decide_eq_true_eq] at hl
  intro hz
  exact countP_eq_zero.mp hz gd hg (by simpa using hl.1)

theorem releasePin_kept (s : Nat → Prop) (h : Partition p (some f)) (hf : f < p.frames.length)
    (hc : Contents p) : ∃ p', releasePin f p = .ok () p' ∧ Kept s none p p' := by
  have hfr := getElem?_eq_getElem hf
  have hp := (h.placed f _ hfr).pinned
  rw [pinsOn_self] at hp
  have hv := h.valid_of_pinned hfr (by omega)
  obtain ⟨p', hr, hpr, ho, _⟩ := releasePin_run h hfr
  have hg : p'.guards = p.guards := by rw [ho]
  refine ⟨p', hr, .repinned (p.frames[f].pinCount - 1) h hc hpr hfr hv ?_ ?_ ?_⟩
  · rw [hg]
    exact ho
  · intro g _
    simp only [writeLocked, hg]
  · intro hl
    simp only [writeLocked, hg] at hl
    have := countP_of_writeLocked hl
    exact ⟨hl, by omega⟩

theorem pinResident_kept (s : Nat → Prop) (h : Partition p none) (hc : Contents p)
    (hf : p.frames[f]? = some fr) (hv : fr.valid = true) (hm : fr.pinCount ≠ 2 ^ 32 - 1)
    (hcl : p.replacer.currentTimestamp < 2 ^ 64 - 1) :
    ∃ p', pinResident f p = .ok () p' ∧ Kept s (some f) p p' ∧
      ∃ fr', p'.frames[f]? = some fr' ∧ fr'.pageId = fr.pageId := by
  have hlt := lt_of_getElem? hf
  obtain ⟨p', hr, hp, ho, _⟩ := pinResident_run h hf hv hm hcl
  have hg : p'.guards = p.guards := by rw [ho]
  refine ⟨p', hr, .repinned (fr.pinCount + 1) h hc hp hf hv ?_ ?_ ?_,
    { fr with pinCount := fr.pinCount + 1 }, ?_, rfl⟩
  · rw [hg]
    exact ho
  · intro g _
    simp only [writeLocked, hg]
  · intro hl
    simp only [writeLocked, hg] at hl
    exact ⟨hl, Nat.succ_ne_zero _⟩
  · rw [ho]
    exact getElem?_set_self hlt

/-! Guards. -/

theorem set_of_getElem? {α : Type} {l : List α} {i : Nat} {a : α} (h : l[i]? = some a) :
    l.set i a = l := by
  obtain ⟨hlt, rfl⟩ := List.getElem?_eq_some_iff.mp h
  exact set_getElem_self hlt

theorem Partition.held (h : Partition p none) (hg : gd ∈ p.guards) :
    ∃ fr, p.frames[gd.frameId]? = some fr ∧ fr.valid = true ∧
      fr.pageId = gd.pageId ∧ fr.pinCount ≠ 0 := by
  obtain ⟨fr, hf, hv, hp⟩ := h.guarded gd hg
  refine ⟨fr, hf, hv, hp, ?_⟩
  rw [(h.placed _ fr hf).pinned, pinsOn_none]
  exact (countP_pos_iff.mpr ⟨gd, hg, by simp⟩).ne'

theorem ownsPin_ensures :
    Ensures (ownsPin gd) p (fun _ p' => p = p' ∧ gd ∈ p.guards) (fun _ p' => p = p') := by
  simp only [ownsPin, ensures_iff]
  split
  · rename_i hg
    exact ⟨rfl, hg⟩
  · exact rfl

theorem drop_ensures (s : Nat → Prop) (h : Partition p none) (hc : Contents p) (gd : PageGuard) :
    Always (Pool.drop gd) p (Kept s none p) := by
  simp only [Pool.drop, ensures_bind]
  refine ownsPin_ensures.imp ?_ (fun _ _ hs => hs ▸ .refl h hc)
  rintro _ _ ⟨rfl, hgr⟩
  obtain ⟨fr, hf, hv, _, hp⟩ := h.held hgr
  have hlt := lt_of_getElem? hf
  have hm : ∀ other, other ∈ p.guards.erase gd → other ∈ p.guards :=
    fun _ => mem_of_mem_erase
  have hd : Kept s (some gd.frameId) p { p with guards := p.guards.erase gd } := by
    refine .repinned fr.pinCount h hc (h.guardDropped hgr) hf hv ?_ ?_ ?_
    · rw [show p.frames.set gd.frameId { fr with pinCount := fr.pinCount } = p.frames from
        set_of_getElem? hf]
    · intro g hg
      simp only [writeLocked]
      have hpr := perm_cons_erase hgr
      rw [hpr.any_eq, any_cons]
      simp [Ne.symm hg]
    · intro hl
      obtain ⟨other, ho, hlo⟩ := any_eq_true.mp hl
      exact ⟨any_eq_true.mpr ⟨other, hm other ho, hlo⟩, hp⟩
  simp only [ensures_modify]
  obtain ⟨p', hr, hk⟩ := releasePin_kept s hd.partition hlt hd.contents
  rw [ensures_of_ok hr]
  exact hd.trans hk

theorem requireGuardFrame_run (h : Partition p ext) (hf : p.frames[gd.frameId]? = some fr)
    (hg : fr.pageId = gd.pageId) (hp : fr.pinCount ≠ 0) : requireGuardFrame gd p = .ok fr p := by
  have hv := h.valid_of_pinned hf hp
  unfold requireGuardFrame
  rw [run_bind (frameAt_run hf), if_neg (by simp [hv, hg, hp])]
  rfl

theorem PlainFrames.marked (h : PlainFrames p) {data : Page} (hr : p.frames[f]? = some fr)
    (hv : fr.valid = true) (hf : p'.frames = p.frames.set f (p.markWritten fr data))
    (hd : p'.disk = p.disk) (hp : p'.walProvider.isSome = p.walProvider.isSome) :
    PlainFrames p' := by
  have hlt := lt_of_getElem? hr
  intro g other ho hu
  by_cases hg : g = f
  · subst hg
    rw [hf, getElem?_set_self hlt, Option.some.injEq] at ho
    subst ho
    have hl := h g fr hr hv
    refine ⟨fun hc => by simp [markWritten] at hc, hl.unlogged, ?_⟩
    simp only [markWritten, hl.pending, hp, Bool.true_and]
    cases p.walProvider.isSome <;> simp
  · rw [hf, getElem?_set_ne (Ne.symm hg)] at ho
    have hl := h g other ho hu
    exact ⟨fun hc => by rw [hd]; exact hl.clean hc, hl.unlogged, by
      rw [hp]; exact hl.pending⟩

theorem markWritten_hook (h : p.durability = .hook) (fr : BufferFrame) (data : Page) :
    p.markWritten fr data =
      { fr with data := data, dirty := true, pendingWalPreparation := true } := by
  simp [markWritten, walProvider_hook h]

def rewritten (p : Pool) (f : Nat) (frame : BufferFrame) (data : Page) : Pool :=
  { p with frames := p.frames.set f (p.markWritten frame data) }

/-- What a returned write leaves: one page with new bytes. -/
structure Wrote (s : Nat → Prop) (q : Nat) (data : Page) (p p' : Pool) : Prop where
  partition : Partition p' none
  contents : Contents p'
  view : ∀ r, p'.view r = if r = q then data else p.view r
  pages : KeepsPages s p p'

theorem mutableData_ensures (s : Nat → Prop) (h : Partition p none) (hc : Contents p)
    (hw : gd.writable = true) (data : Page) :
    Ensures (mutableData gd data) p (fun _ p' => Wrote s gd.pageId data p p')
      (fun _ p' => p = p') := by
  simp only [mutableData, ensures_bind]
  refine ownsPin_ensures.imp ?_ (fun _ _ hm => hm)
  rintro _ _ ⟨rfl, hg⟩
  obtain ⟨fr, hr, hv, hpg, hn⟩ := h.held hg
  rw [ensures_of_ok (requireGuardFrame_run h hr hpg hn)]
  simp only [ensures_iff, setFrame]
  have hp : SamePlace fr (p.markWritten fr data) := ⟨rfl, rfl, rfl⟩
  have hs : Reshaped p (rewritten p gd.frameId fr data) :=
    .single hr hv hp rfl rfl
  have hf : (rewritten p gd.frameId fr data).frames =
    p.frames.set gd.frameId (p.markWritten fr data) := rfl
  refine ⟨hs.partition h, ⟨?_, ?_, hc.header⟩, ?_, .of_set hr rfl fun _ _ => ⟨hv, rfl⟩⟩
  · intro hh
    have hh : p.durability = .hook := hh
    have he := h.engine_setFrame hr hv hf rfl (fun _ _ => rfl)
    rw [markWritten_hook hh] at he
    have hl : p.writeLocked gd.frameId = true :=
      any_eq_true.mpr ⟨gd, hg, by simp [hw]⟩
    exact he ▸ (hc.logged hh).mutated data (h.find_engine hr hv) hl
  · intro hpl
    exact (hc.plain hpl).marked hr hv hf rfl rfl
  · intro r
    rw [← hpg]
    exact h.view_set hr hv hf rfl (fun _ _ => rfl) r

theorem readData_run (h : Partition p none) (hg : gd ∈ p.guards) :
    readData gd p = .ok (p.view gd.pageId) p := by
  obtain ⟨fr, hf, hv, hp, hn⟩ := h.held hg
  have how : ownsPin gd p = .ok () p := by
    simp only [ownsPin, bind, EStateM.bind, get_eq, if_pos hg]
    rfl
  unfold readData
  rw [run_bind how, run_bind (requireGuardFrame_run h hf hp hn), ← hp, h.view_resident hf hv]
  rfl

theorem readData_ensures (h : Partition p none) (gd : PageGuard) :
    Always (readData gd) p (fun p' => p = p') := by
  by_cases hg : gd ∈ p.guards
  · exact (ensures_of_ok (readData_run h hg)).mpr rfl
  · simp only [readData, ensures_bind]
    refine ownsPin_ensures.imp ?_ (fun _ _ hs => hs)
    rintro _ _ ⟨_, how⟩
    exact absurd how hg

/-- The pool with one more guard. -/
def withGuard (p : Pool) (guard : PageGuard) : Pool := { p with guards := guard :: p.guards }

theorem writeLocked_withGuard (h : gd.frameId ≠ f ∨ gd.writable = false) :
    (withGuard p gd).writeLocked f = p.writeLocked f := by
  have ho : (gd.frameId = f && gd.writable) = false := by
    rcases h with h | h <;> simp [h]
  simp only [withGuard, writeLocked, any_cons, ho, Bool.false_or]

theorem Kept.readGuard (h : Partition p (some f)) (hc : Contents p) (hf : p.frames[f]? = some fr)
    (hv : fr.valid = true) (hw : p.writeLocked f = false) :
    Kept s none p (withGuard p ⟨f, fr.pageId, false⟩) := by
  refine .repinned fr.pinCount h hc (h.guardMade hf hv rfl hw (by simp)) hf hv ?_ ?_ ?_
  · rw [show p.frames.set f { fr with pinCount := fr.pinCount } = p.frames from
      set_of_getElem? hf]
    rfl
  · exact fun g hg => writeLocked_withGuard (.inl (Ne.symm hg))
  · rw [writeLocked_withGuard (.inr rfl), hw]
    simp

/-- A frame locked for writing: its write intent is noted with the coordinator. -/
theorem Kept.writeGuard {p₁ : Pool} (h : Partition p (some f)) (hc : Contents p)
    (hr : p.frames[f]? = some fr) (hv : fr.valid = true) (hpn : fr.pinCount ≠ 0)
    (hwr : p.writeLocked f = false) (hrd : p.readLocked f = false) (hn : p₁ = { p with
      frames := p.frames.set f (p.markWritten fr fr.data)
      coordinator := p₁.coordinator })
    (hi : p.durability = .hook → ∃ ctx ctx', p.coordinator.context = some ctx ∧
      ctx.notePageWriteIntent fr.pageId fr.data = .ok ctx' ∧
      p₁.coordinator = { p.coordinator with context := some ctx' })
    (hpl : p.durability ≠ .hook → p₁.coordinator = p.coordinator) :
    Kept s none p (withGuard p₁ ⟨f, fr.pageId, true⟩) := by
  have hf : p₁.frames = p.frames.set f (p.markWritten fr fr.data) := by rw [hn]
  have ht : p₁.pageTable = p.pageTable := by rw [hn]
  have hd : p₁.disk = p.disk := by rw [hn]
  have hm : p₁.durability = p.durability := by rw [hn]
  have hgr : p₁.guards = p.guards := by rw [hn]
  have hlt := lt_of_getElem? hr
  have hp : SamePlace fr (p.markWritten fr fr.data) := ⟨rfl, rfl, rfl⟩
  have hs : Reshaped p p₁ :=
    .single hr hv hp (by rw [hd]; exact hn) (by rw [hd])
  have hsl : p₁.frames[f]? = some (p.markWritten fr fr.data) := by
    rw [hf, getElem?_set_self hlt]
  refine ⟨?_, ⟨?_, ?_, hs.count ▸ hc.header⟩, ?_, .of_set hr hf fun _ _ => ⟨hv, rfl⟩⟩
  · refine (hs.partition h).guardMade hsl hv rfl ?_ ?_
    · simpa only [writeLocked, hgr] using hwr
    · intro _
      simpa only [readLocked, hgr] using hrd
  · intro hh
    have hh : p.durability = .hook := hm ▸ hh
    obtain ⟨ctx, ctx', hct, hnt, hmv⟩ := hi hh
    have hlc : (withGuard p₁ ⟨f, fr.pageId, true⟩).writeLocked f = true := by
      simp [withGuard, writeLocked]
    have hot : ∀ g, g ≠ f →
        (withGuard p₁ ⟨f, fr.pageId, true⟩).writeLocked g = p.writeLocked g := by
      intro g hg
      rw [writeLocked_withGuard (.inl (Ne.symm hg))]
      simp only [writeLocked, hgr]
    have he := h.engine_setFrame hr hv
      (show (withGuard p₁ ⟨f, fr.pageId, true⟩).frames = _ from hf) ht hot
    have hcr : (withGuard p₁ ⟨f, fr.pageId, true⟩).coordinator =
        { p.coordinator with context := some ctx' } := hmv
    have hl : (withGuard p₁ ⟨f, fr.pageId, true⟩).disk = p.disk := hd
    rw [he, hlc, hcr, hl, markWritten_hook hh]
    exact (hc.logged hh).intended hct (h.find_engine hr hv) hpn hnt
  · intro ho
    have ho : p.durability ≠ .hook := fun hh => ho (hm.trans hh)
    refine (hc.plain ho).marked hr hv hf hd ?_
    show p₁.walProvider.isSome = p.walProvider.isSome
    simp only [walProvider, hm, hpl ho]
  · intro q
    have hw : (withGuard p₁ ⟨f, fr.pageId, true⟩).view q = _ :=
      h.view_set hr hv (show (withGuard p₁ ⟨f, fr.pageId, true⟩).frames = _ from hf)
        ht (fun r _ => by rw [← hd]; rfl) q
    rw [hw]
    split
    · rename_i hq
      rw [hq, h.view_resident hr hv]
      exact .refl _
    · exact .refl _

theorem lockFrame_ensures (s : Nat → Prop) {writable : Bool} (h : Partition p (some f))
    (hc : Contents p) (hf : p.frames[f]? = some fr) :
    Ensures (lockFrame ⟨f, fr.pageId, writable⟩) p
      (fun _ p₁ => Kept s none p (withGuard p₁ ⟨f, fr.pageId, writable⟩))
      (fun _ p₁ => Quiet p p₁) := by
  have hn : fr.pinCount ≠ 0 := by
    rw [(h.placed f fr hf).pinned, pinsOn_self]
    exact Nat.succ_ne_zero _
  have hv := h.valid_of_pinned hf hn
  simp only [lockFrame, ensures_iff]
  split
  · exact .refl hc
  rename_i hw
  simp only [Bool.not_eq_true] at hw
  cases writable with
  | false => exact .readGuard h hc hf hv hw
  | true =>
    simp only [if_true]
    split
    · exact .refl hc
    rename_i hr
    simp only [Bool.not_eq_true] at hr
    simp only [noteGuardWriteIntent, ensures_bind]
    rw [ensures_of_ok (requireGuardFrame_run h hf rfl hn)]
    simp only [ensures_get]
    split
    · rename_i hh
      have hh : p.durability = .hook := by simpa [recoveryHook] using hh
      simp only [onHook, ensures_iff, ensures_onPart, setFrame]
      refine notePageWriteIntent_ensures.imp ?_ (fun _ _ h => .stalled hc h)
      rintro _ _ ⟨ctx, ctx', ht, hnt, rfl⟩
      refine .writeGuard h hc hf hv hn hw hr ?_
        (fun _ => ⟨ctx, ctx', ht, hnt, rfl⟩) (fun hp => absurd hh hp)
      simp only [markWritten, walProvider, hh]
    · rename_i hp
      have hp : p.durability ≠ .hook := by simpa [recoveryHook] using hp
      exact .writeGuard h hc hf hv hn hw hr rfl (fun h => absurd h hp) (fun _ => rfl)

theorem makeGuard_ensures (s : Nat → Prop) {writable : Bool} (h : Partition p (some f))
    (hc : Contents p) (hf : p.frames[f]? = some fr) :
    Always (makeGuard f fr.pageId writable) p (Kept s none p) := by
  have hlt := lt_of_getElem? hf
  simp only [makeGuard, ensures_bind, ensures_tryCatch]
  refine (lockFrame_ensures s h hc hf).imp ?_ ?_
  · intro _ p₁ hk
    exact hk
  · intro error p₁ hq
    have hk : Kept s (some f) p p₁ := hq.kept h
    obtain ⟨p', hr, hl⟩ := releasePin_kept s hk.partition (hq.length ▸ hlt) hk.contents
    rw [ensures_of_ok hr]
    exact hk.trans hl

/-! A page takes a frame over. -/

/-- The engine once the frame's old page, if it had one, is gone from the pool. -/
def vacatedEngine (p : Pool) (frame : BufferFrame) : Engine :=
  { p.engine with
    frames := if frame.valid then p.engine.frames.erase frame.pageId else p.engine.frames }

structure Installed (p p' : Pool) (f : Nat) (frame new : BufferFrame) : Prop where
  old : p.frames[f]? = some frame
  frames : p'.frames = p.frames.set f new
  used : new.valid = true
  absent : p.pageTable.find? new.pageId = none
  locks : ∀ g, g ≠ f → p'.writeLocked g = p.writeLocked g

theorem Installed.find_engine (hi : Installed p p' f fr new) (h : Partition p ext)
    (h' : Partition p' ext') (q : Nat) :
    p'.engine.frames.find? q = if q = new.pageId then some (new.toFrame (p'.writeLocked f))
      else (vacatedEngine p fr).frames.find? q := by
  have hlt := lt_of_getElem? hi.old
  have hl : p'.frames[f]? = some new := by rw [hi.frames, getElem?_set_self hlt]
  have ho : ∀ g, g ≠ f → p'.frames[g]? = p.frames[g]? := by
    intro g hg
    rw [hi.frames, getElem?_set_ne (Ne.symm hg)]
  split
  · rename_i hq
    subst hq
    exact h'.find_engine hl hi.used
  rename_i hq
  have hc : (vacatedEngine p fr).frames.find? q =
      if fr.valid = true ∧ q = fr.pageId then none else p.engine.frames.find? q := by
    unfold vacatedEngine
    cases fr.valid <;> simp
  rw [hc]
  have hm : ∀ g, g ≠ f → (p'.pageTable.find? q = some g ↔ p.pageTable.find? q = some g) := by
    intro g hg
    rw [h'.mapped q g, h.mapped q g, ho g hg]
  have hgn : p'.pageTable.find? q ≠ some f := by
    intro hf
    obtain ⟨other, hs, _, hp⟩ := (h'.mapped q f).mp hf
    rw [hl, Option.some.injEq] at hs
    exact hq (hs ▸ hp.symm)
  have hr : ∀ g, g ≠ f → p'.engineFrame g = p.engineFrame g := by
    intro g hg
    simp only [engineFrame, ho g hg, hi.locks g hg]
  simp only [Pool.engine, SortedMap.find?_mapValues]
  by_cases hd : p.pageTable.find? q = some f
  · obtain ⟨other, hs, hv, hp⟩ := (h.mapped q f).mp hd
    rw [hi.old, Option.some.injEq] at hs
    subst hs
    rw [if_pos ⟨hv, hp.symm⟩]
    cases hn : p'.pageTable.find? q with
    | none => rfl
    | some g =>
      have hg : g ≠ f := fun heq => hgn (heq ▸ hn)
      rw [(hm g hg).mp hn, Option.some.injEq] at hd
      exact absurd hd hg
  · rw [if_neg (by
      rintro ⟨hv, rfl⟩
      exact hd (h.find_page hi.old hv))]
    cases hn : p'.pageTable.find? q with
    | none =>
      cases hn' : p.pageTable.find? q with
      | none => rfl
      | some g =>
        have hg : g ≠ f := fun heq => hd (heq ▸ hn')
        rw [(hm g hg).mpr hn'] at hn
        simp at hn
    | some g =>
      have hg : g ≠ f := fun heq => hgn (heq ▸ hn)
      rw [(hm g hg).mp hn]
      simp only [Option.map_some, hr g hg]

theorem Installed.engine (hi : Installed p p' f fr new) (h : Partition p ext)
    (h' : Partition p' ext') :
    p'.engine = ((vacatedEngine p fr).over p'.disk p'.coordinator).setFrame new.pageId
      (new.toFrame (p'.writeLocked f)) := by
  refine engine_ext rfl rfl ?_ ?_ rfl rfl rfl rfl rfl
  · intro q
    rw [find?_setFrame]
    exact hi.find_engine h h' q
  · show p'.frames.length = p.frames.length
    rw [hi.frames, length_set]

theorem Contents.clean (hc : Contents p) (h : Partition p ext) (hf : p.frames[f]? = some fr)
    (hv : fr.valid = true) (hl : fr.dirty = false) :
    SameContents fr.data (p.disk.page fr.pageId) := by
  by_cases hh : p.durability = .hook
  · exact ((hc.logged hh).coherent.frames _ _ (h.find_engine hf hv)).clean hl
  · rw [(hc.plain hh f fr hf hv).clean hl]
    exact .refl _

theorem Installed.view (hi : Installed p p' f fr new) (h : Partition p ext) (h' : Partition p' ext')
    (hc : Contents p) (hl : CleanAt p f) (hp : ∀ q, p'.disk.page q = p.disk.page q)
    (hd : new.data = p.disk.page new.pageId) (q : Nat) : SameContents (p'.view q) (p.view q) := by
  have hf := hi.find_engine h h' q
  rw [← h'.view_engine, ← h.view_engine]
  split at hf
  · rename_i hq
    subst hq
    have ha : p.engine.frames.find? new.pageId = none := by
      simp [Pool.engine, hi.absent]
    rw [view_of_resident hf, view_of_absent ha]
    exact hd ▸ .refl _
  · rename_i hq
    by_cases ho : fr.valid = true ∧ q = fr.pageId
    · obtain ⟨hv, rfl⟩ := ho
      have hn : p'.engine.frames.find? fr.pageId = none := by
        rw [hf]
        simp [vacatedEngine, hv]
      rw [view_of_absent hn, view_of_resident (h.find_engine hi.old hv)]
      show SameContents (p'.disk.page fr.pageId) fr.data
      rw [hp]
      exact (hc.clean h hi.old hv (hl fr hi.old hv)).symm
    · have hs : p'.engine.frames.find? q = p.engine.frames.find? q := by
        rw [hf]
        unfold vacatedEngine
        cases hv : fr.valid with
        | false => rfl
        | true => simp [show q ≠ fr.pageId from fun heq => ho ⟨hv, heq⟩]
      exact congrArg normalized (view_congr hs (hp q))

theorem Logged.vacated (hl : Logged p.engine) (h : Partition p ext)
    (hf : p.frames[f]? = some fr) (hc : CleanAt p f) : Logged (vacatedEngine p fr) := by
  unfold vacatedEngine
  cases hv : fr.valid with
  | false => exact hl
  | true =>
    exact hl.pooled (PoolEffect.evicted (e := p.engine) (h.find_engine hf hv) (hc fr hf hv))

theorem Installed.plain (hi : Installed p p' f fr new) (hl : PlainFrames p)
    (hp : ∀ q, p'.disk.page q = p.disk.page q) (hr : p'.walProvider.isSome = p.walProvider.isSome)
    (hn : PlainFrame p' new) : PlainFrames p' := by
  have hlt := lt_of_getElem? hi.old
  intro g other ho hu
  by_cases hg : g = f
  · subst hg
    rw [hi.frames, getElem?_set_self hlt, Option.some.injEq] at ho
    exact ho ▸ hn
  · rw [hi.frames, getElem?_set_ne (Ne.symm hg)] at ho
    have hd := hl g other ho hu
    exact ⟨fun hc => by rw [hp]; exact hd.clean hc, hd.unlogged, by
      rw [hr]; exact hd.pending⟩

theorem Partition.unlocked (h : Partition p none) (hf : p.frames[f]? = some fr)
    (hp : fr.pinCount = 0) : p.guards.countP (fun gd => gd.frameId = f) = 0 := by
  rw [← pinsOn_none, ← (h.placed f fr hf).pinned]
  exact hp

theorem writeLocked_of_count (h : p.guards.countP (fun gd => gd.frameId = f) = 0) :
    p.writeLocked f = false := by
  by_contra hlocked
  exact countP_of_writeLocked (by simpa using hlocked) h

/-- The frames a guard of the pool keeps. -/
def PinnedAt (p : Pool) (f : Nat) : Prop := ∃ frame, p.frames[f]? = some frame ∧ frame.pinCount ≠ 0

theorem not_pinnedAt (hf : p.frames[f]? = some fr) (hp : fr.pinCount = 0) : ¬ PinnedAt p f := by
  rintro ⟨_, ho, hn⟩
  cases hf.symm.trans ho
  exact hn hp

theorem installPage_kept (h : Partition p none) (hc : Contents p) (hv : p.availableFrame = some f)
    (hs : ¬ s f) (hl : CleanAt p f) (ha : p.pageTable.find? q = none)
    (hg : q ≠ 0 ∧ q ≠ invalidPageId ∧ q < p.disk.pageCount)
    (hk : p.replacer.currentTimestamp < 2 ^ 64 - 1) :
    ∃ p', Pool.installPage f q (p.disk.page q) false p = .ok () p' ∧ Kept s (some f) p p' ∧
      ∃ fr', p'.frames[f]? = some fr' ∧ fr'.pageId = q := by
  obtain ⟨fr, hfr, hp, _⟩ := h.available hv
  have hlt := lt_of_getElem? hfr
  obtain ⟨p', hr, hpr, ho, _⟩ := installPage_run h hv hfr (hl fr hfr) ha hg hk
  have hd : p'.disk = p.disk := by rw [ho]
  have hm : p'.durability = p.durability := by rw [ho]
  have hcr : p'.coordinator = p.coordinator := by rw [ho]
  have hfs : p'.frames = p.frames.set f (installedFrame q (p.disk.page q) false) := by
    rw [ho]
  have hgr : p'.guards = p.guards := by rw [ho]
  have hi : Installed p p' f fr (installedFrame q (p.disk.page q) false) :=
    ⟨hfr, hfs, rfl, ha, fun g _ => by simp only [writeLocked, hgr]⟩
  have hlc : p'.writeLocked f = false := by
    refine writeLocked_of_count ?_
    rw [hgr]
    exact h.unlocked hfr hp
  refine ⟨p', hr, ⟨hpr, ⟨?_, ?_, hd ▸ hc.header⟩, ?_, ?_⟩,
    installedFrame q (p.disk.page q) false, ?_, rfl⟩
  · intro hh
    have hvc := (hc.logged (hm ▸ hh)).vacated h hfr hl
    have hn : (vacatedEngine p fr).frames.find? q = none := by
      have ha' : p.engine.frames.find? q = none := by simp [Pool.engine, ha]
      unfold vacatedEngine
      cases fr.valid <;> simp [ha']
    have hld := hvc.pooled (.loaded hn ⟨hg.1, hg.2.2⟩)
    have he := hi.engine h hpr
    rw [hlc, hd, hcr] at he
    rw [he]
    exact hld
  · intro hpl
    refine hi.plain (hc.plain (hm ▸ hpl)) (fun _ => by rw [hd]) ?_ ⟨?_, ⟨rfl, rfl, rfl⟩, rfl⟩
    · simp only [walProvider, hm, hcr]
    · intro _
      rw [hd]
      rfl
  · exact hi.view h hpr hc hl (fun _ => by rw [hd]) rfl
  · exact .of_set hfr hfs fun hf => absurd hf hs
  · rw [hfs, getElem?_set_self hlt]

/-- The victim was written back, and is still the frame to be used. -/
theorem Quiet.availableFrame (h : Quiet p p') : p'.availableFrame = p.availableFrame := by
  have hq : p'.freeFrames = p.freeFrames := by rw [h.only]
  have hr : p'.replacer = p.replacer := by rw [h.only]
  simp only [Pool.availableFrame, hq, hr]

/-- The page was pinned in a frame of its own, or there was no frame to be had. -/
def PinnedFor (q : Nat) (p : Pool) (found : Option Nat) (p' : Pool) : Prop :=
  (found = none ∧ Kept (PinnedAt p) none p p') ∨
    ∃ f frame, found = some f ∧ Kept (PinnedAt p) (some f) p p' ∧
      p'.frames[f]? = some frame ∧ frame.pageId = q

theorem loadPage_ensures (h : Partition p none) (hc : Contents p) (ha : p.pageTable.find? q = none)
    (hl : q ≠ 0 ∧ q ≠ invalidPageId ∧ q < p.disk.pageCount)
    (hcl : p.replacer.currentTimestamp < 2 ^ 64 - 1) :
    Ensures (loadPage q) p (PinnedFor q p) fun _ p' => Kept (PinnedAt p) none p p' := by
  simp only [loadPage, ensures_iff]
  cases hv : p.availableFrame with
  | none => exact .inl ⟨rfl, .refl h hc⟩
  | some f =>
    obtain ⟨fr, hf, hp, _⟩ := h.available hv
    have hs := not_pinnedAt hf hp
    simp only [ensures_bind]
    refine (flushVictimIfDirty_ensures h hc hf).imp ?_ (fun _ _ hq => hq.kept h)
    rintro _ p₁ ⟨hq, _, hn⟩
    have hl₁ : q ≠ 0 ∧ q ≠ invalidPageId ∧ q < p₁.disk.pageCount := hq.count ▸ hl
    have hd : p₁.disk.readPage q = .ok (p₁.disk.page q) :=
      bind_ok.mpr ⟨(), bind_ok.mpr ⟨(), require_of _ hl₁.1, require_of _ hl₁.2⟩, rfl⟩
    have ha₁ : p₁.pageTable.find? q = none := by
      rw [hq.only]
      exact ha
    have hcl₁ : p₁.replacer.currentTimestamp < 2 ^ 64 - 1 := by
      rw [hq.only]
      exact hcl
    obtain ⟨p', hr, hk, fr', hf', hg⟩ := installPage_kept (hq.partition h)
      hq.contents (hq.availableFrame.trans hv) hs hn ha₁ hl₁ hcl₁
    simp only [ensures_iff, hd, fromExcept]
    rw [ensures_of_ok hr]
    exact .inr ⟨f, fr', rfl, (hq.kept h).trans hk, hf', hg⟩

theorem requirePage_ok (h : p.requirePage q = .ok ()) :
    q ≠ 0 ∧ q ≠ invalidPageId ∧ q < p.disk.pageCount := by
  simp only [requirePage, ok_iff] at h
  obtain ⟨_, hz, hl⟩ := h
  exact ⟨hz, hl⟩

theorem pinPage_ensures (h : Partition p none) (hc : Contents p) (q : Nat)
    (hl : p.replacer.currentTimestamp < 2 ^ 64 - 1) :
    Ensures (pinPage q) p (PinnedFor q p) fun _ p' => Kept (PinnedAt p) none p p' := by
  simp only [pinPage, ensures_iff]
  refine ⟨?_, fun _ _ => .refl h hc⟩
  intro _ hr
  have hg := requirePage_ok hr
  cases hn : p.pageTable.find? q with
  | none => exact loadPage_ensures h hc hn hg hl
  | some f =>
    obtain ⟨fr, hf, hv, hp⟩ := (h.mapped q f).mp hn
    simp only [ensures_bind]
    by_cases hm : fr.pinCount = 2 ^ 32 - 1
    · simp only [pinResident, ensures_bind]
      rw [ensures_of_ok (frameAt_run hf), if_pos hm]
      exact .refl h hc
    · obtain ⟨p', hrn, hk, fr', hf', hp'⟩ :=
        pinResident_kept (PinnedAt p) h hc hf hv hm hl
      rw [ensures_of_ok hrn]
      exact .inr ⟨f, fr', rfl, hk, hf', hp'.trans hp⟩

theorem fetchPage_ensures (h : Partition p none) (hc : Contents p) (q : Nat) (writable : Bool)
    (hl : p.replacer.currentTimestamp < 2 ^ 64 - 1) :
    Always (Pool.fetchPage q writable) p (Kept (PinnedAt p) none p) := by
  simp only [Pool.fetchPage, ensures_bind]
  refine (pinPage_ensures h hc q hl).imp ?_ (fun _ _ hk => hk)
  rintro fd p' (⟨rfl, hk⟩ | ⟨f, fr, rfl, hk, hf, rfl⟩)
  · exact hk
  · simp only [ensures_bind]
    exact (makeGuard_ensures (PinnedAt p) hk.partition hk.contents hf).imp
      (fun _ _ hm => hk.trans hm) (fun _ _ hr => hk.trans hr)

end MiniDb
