import MiniDb.PoolCalls

/-!
New pages, flushes and the boundaries of transactions. A new page is reserved in
the log, its frame vacated, and from then on nothing can throw until its guard is
made; the states in between are seen by no client.
-/
namespace MiniDb
open ByteBlock Outcome Stateful Pool Coordinator
open List hiding get modify

variable {fr : BufferFrame} {c : Coordinator} {f : Nat} {ext : Option Nat} {p : Pool}

/-! New pages. -/

theorem Partition.grown (h : Partition p ext) {disk : DiskManager}
    (hc : p.disk.pageCount ≤ disk.pageCount) : Partition { p with disk := disk } ext := by
  refine ⟨h.replacer, h.capacity, ?_, h.queued, h.free, h.mapped, h.guarded, h.exclusive⟩
  intro f fr hf
  have ho := h.placed f fr hf
  refine ⟨ho.blank, ho.tracked, ?_, ho.pinned⟩
  intro hv
  obtain ⟨hz, hi, hlt⟩ := ho.legal hv
  exact ⟨hz, hi, hlt.trans_le hc⟩

theorem readLocked_of_count (h : p.guards.countP (fun gd => gd.frameId = f) = 0) :
    p.readLocked f = false := by
  refine any_eq_false.mpr ?_
  intro gd hg
  have := countP_eq_zero.mp h gd hg
  simpa using fun hf => absurd hf (by simpa using this)

/-- A write guard on a frame nobody holds, its write intent one the coordinator takes. -/
theorem makeGuard_run (h : Partition p (some f)) (hf : p.frames[f]? = some fr)
    (hc : p.guards.countP (fun gd => gd.frameId = f) = 0) (hh : p.durability = .hook →
      notePageWriteIntent fr.pageId fr.data p.coordinator = .ok () c)
    (hp : p.durability ≠ .hook → c = p.coordinator) :
    makeGuard f fr.pageId true p = .ok ⟨f, fr.pageId, true⟩ (withGuard { p with
      frames := p.frames.set f (p.markWritten fr fr.data)
      coordinator := c } ⟨f, fr.pageId, true⟩) := by
  have hn : fr.pinCount ≠ 0 := by
    rw [(h.placed f fr hf).pinned, pinsOn_self]
    exact Nat.succ_ne_zero _
  have hl : lockFrame ⟨f, fr.pageId, true⟩ p = .ok () { p with
      frames := p.frames.set f (p.markWritten fr fr.data)
      coordinator := c } := by
    simp only [lockFrame, run_eq, writeLocked_of_count hc, readLocked_of_count hc,
      Bool.false_eq_true, if_false, if_true]
    unfold noteGuardWriteIntent
    rw [run_bind (requireGuardFrame_run h hf rfl hn)]
    by_cases hm : p.durability = .hook
    · simp only [bind, EStateM.bind, get_eq, recoveryHook, run_eq,
        hm, decide_true, if_true, onHook, onPart, hh hm, setFrame, markWritten, walProvider,
        Option.isSome_some]
    · simp only [bind, EStateM.bind, get_eq, recoveryHook,
        hm, decide_false, Bool.false_eq_true, if_false, hp hm]
      rfl
  simp only [makeGuard, run_eq, run_tryCatch, hl]
  rfl

theorem notePageWriteIntent_fresh {ctx : TransactionContext} {q : Nat} (ht : c.context = some ctx)
    (hi : q ≠ invalidPageId) (hr : ctx.startPageCount ≤ q) (bef : Page) :
    ∃ ctx', ctx.notePageWriteIntent q bef = .ok ctx' ∧
      notePageWriteIntent q bef c = .ok () { c with context := some ctx' } := by
  have hs : intentState ctx.startPageCount q bef =
      .ok ⟨false, zero, none, none, fun _ => false, none⟩ := by
    unfold intentState
    rw [if_neg hr.not_gt]
  cases hc : ctx.pages.contains q with
  | true =>
    refine ⟨{ ctx with safeBoundary := false }, bind_ok.mpr ⟨(), require_of _ hi, ?_⟩, ?_⟩
    · exact if_pos hc
    · simp only [notePageWriteIntent, run_eq, ht, hi, if_false, setContext, hc, if_true]
  | false =>
    refine ⟨({ ctx with safeBoundary := false } : TransactionContext).setPage q
      ⟨false, zero, none, none, fun _ => false, none⟩, bind_ok.mpr ⟨(), require_of _ hi, ?_⟩, ?_⟩
    · refine (if_neg (by simp [hc])).trans ?_
      exact map_ok.mpr ⟨_, hs, rfl⟩
    · simp only [notePageWriteIntent, run_eq, ht, hi, if_false, setContext, hc, Bool.false_eq_true,
        hs, fromExcept]

/-- The frame of a new page when its guard is made. -/
def appendedFrame (p : Pool) (q : Nat) : BufferFrame :=
  p.markWritten (installedFrame q zero true) zero

structure Appended (p p' : Pool) (f : Nat) (frame : BufferFrame) : Prop extends
    Installed p p' f frame (appendedFrame p p.disk.pageCount) where
  mode : p'.durability = p.durability
  disk : p'.disk = p.disk.perform (.write p.disk.pageCount zero)
  locked : p'.writeLocked f = true
  partition : Partition p' none
  intended : p.durability = .hook → ∃ context confirmed context',
    p.coordinator.context = some context ∧
    context.notePhysicalPageAppend p.coordinator.log p.disk.pageCount = .ok confirmed ∧
    confirmed.notePageWriteIntent p.disk.pageCount zero = .ok context' ∧
    p'.coordinator = { p.coordinator with context := some context' }
  plainly : p.durability ≠ .hook → p'.coordinator = p.coordinator

theorem Appended.kept {s : Nat → Prop} {p' : Pool} (ha : Appended p p' f fr) (h : Partition p none)
    (hc : Contents p) (hcl : CleanAt p f) (hrm : p.disk.pageCount ≠ invalidPageId) (hs : ¬ s f) :
    Kept s none p p' := by
  have hi := ha.toInstalled
  have hp : ∀ q, p'.disk.page q = p.disk.page q := by
    intro q
    rw [ha.disk, page_perform_write]
    split
    · rename_i hq
      rw [hq, page_of_ge p.disk le_rfl]
    · rfl
  have ht : p.disk.pageCount ≤ p'.disk.pageCount := by
    rw [ha.disk, pageCount_perform_write]
    exact le_max_left _ _
  refine ⟨ha.partition, ⟨?_, ?_, hc.header.trans_le ht⟩, ?_, ?_⟩
  · intro hh
    have hh : p.durability = .hook := ha.mode ▸ hh
    obtain ⟨ctx, confirmed, ctx', hx, hn, hin, hm⟩ := ha.intended hh
    have hv := (hc.logged hh).vacated h hi.old hcl
    have he := hi.engine h ha.partition
    have hfr : (appendedFrame p p.disk.pageCount).toFrame (p'.writeLocked f) =
        ⟨zero, 1, true, true, none, none, false, true⟩ := by
      rw [ha.locked, appendedFrame, markWritten_hook hh]
      rfl
    rw [hfr, hm, ha.disk] at he
    rw [he]
    exact hv.appended hx hrm hn hin
  · intro hl
    have hl : p.durability ≠ .hook := fun hh => hl (ha.mode.trans hh)
    have hr : p'.walProvider.isSome = p.walProvider.isSome := by
      simp only [walProvider, ha.mode, ha.plainly hl]
    refine hi.plain (hc.plain hl) hp hr ⟨?_, ⟨rfl, rfl, rfl⟩, ?_⟩
    · intro hd
      simp [appendedFrame, markWritten] at hd
    · rw [hr]
      simp [appendedFrame, markWritten, installedFrame]
  · exact hi.view h ha.partition hc hcl hp (page_of_ge p.disk le_rfl).symm
  · exact .of_set hi.old hi.frames fun hf => absurd hf hs

theorem Partition.absent_of_ge (h : Partition p ext) {q : Nat} (hq : p.disk.pageCount ≤ q) :
    p.pageTable.find? q = none := by
  by_contra hsome
  obtain ⟨f, hf⟩ := Option.ne_none_iff_exists'.mp hsome
  obtain ⟨fr, hr, hv, rfl⟩ := (h.mapped q f).mp hf
  exact absurd ((h.placed f fr hr).legal hv).2.2 hq.not_gt

/-- The frame has its new page, but no guard yet. -/
structure PageInstalled (p p₁ : Pool) (f : Nat) : Prop where
  partition : Partition p₁ (some f)
  only : p₁ = { p with
    disk := p.disk.perform (.write p.disk.pageCount zero)
    frames := p.frames.set f (installedFrame p.disk.pageCount zero true)
    pageTable := p₁.pageTable
    freeFrames := p₁.freeFrames
    replacer := p₁.replacer }

theorem installAppended_run (h : Partition p none) (ha : p.availableFrame = some f)
    (hc : CleanAt p f) (hz : p.disk.pageCount ≠ 0) (hm : p.disk.pageCount ≠ invalidPageId)
    (hl : p.replacer.currentTimestamp < 2 ^ 64 - 1) :
    ∃ p₁, installPage f p.disk.pageCount zero true
      { p with disk := p.disk.perform (.write p.disk.pageCount zero) } = .ok () p₁ ∧
        PageInstalled p p₁ f := by
  obtain ⟨fr, hf, _⟩ := h.available ha
  have hn := pageCount_extend p.disk zero
  have hg : Partition { p with disk := p.disk.perform (.write p.disk.pageCount zero) } none :=
    h.grown (by omega)
  obtain ⟨p₁, hr, hp, ho, _⟩ := installPage_run hg ha hf (hc fr hf) (h.absent_of_ge le_rfl)
    ⟨hz, hm, by show _ < _; rw [hn]; exact Nat.lt_succ_self _⟩ hl
  exact ⟨p₁, hr, hp, ho⟩

theorem PageInstalled.appended {p₁ : Pool} (hp : PageInstalled p p₁ f) (h : Partition p none)
    (hr : p.frames[f]? = some fr) (hn : fr.pinCount = 0)
    (hi : p.durability = .hook → ∃ ctx confirmed ctx', p.coordinator.context = some ctx ∧
      ctx.notePhysicalPageAppend p.coordinator.log p.disk.pageCount = .ok confirmed ∧
      confirmed.notePageWriteIntent p.disk.pageCount zero = .ok ctx' ∧
      c = { p.coordinator with context := some ctx' })
    (hl : p.durability ≠ .hook → c = p.coordinator) :
    Appended p (withGuard { p₁ with
      frames := p₁.frames.set f (appendedFrame p p.disk.pageCount)
      coordinator := c } ⟨f, p.disk.pageCount, true⟩) f fr := by
  have hlt := lt_of_getElem? hr
  have hgr : p₁.guards = p.guards := by rw [hp.only]
  have hf : p₁.frames = p.frames.set f (installedFrame p.disk.pageCount zero true) := by
    rw [hp.only]
  have hs : p₁.frames[f]? = some (installedFrame p.disk.pageCount zero true) := by
    rw [hf, getElem?_set_self hlt]
  have hc := h.unlocked hr hn
  have hpc : SamePlace (installedFrame p.disk.pageCount zero true)
      (appendedFrame p p.disk.pageCount) := ⟨rfl, rfl, rfl⟩
  have hm : Reshaped p₁ { p₁ with
      frames := p₁.frames.set f (appendedFrame p p.disk.pageCount)
      coordinator := c } := .single hs rfl hpc rfl rfl
  refine ⟨⟨hr, ?_, rfl, h.absent_of_ge le_rfl, ?_⟩, ?_, ?_, ?_, ?_, hi, hl⟩
  · show p₁.frames.set f _ = _
    rw [hf, set_set]
  · intro g hg
    rw [writeLocked_withGuard (.inl (Ne.symm hg))]
    simp only [writeLocked, hgr]
  · show p₁.durability = p.durability
    rw [hp.only]
  · show p₁.disk = _
    rw [hp.only]
  · simp [withGuard, writeLocked]
  · refine (hm.partition hp.partition).guardMade (getElem?_set_self ?_) rfl rfl ?_ ?_
    · rw [hf, length_set]
      exact hlt
    · refine writeLocked_of_count ?_
      rw [hgr]
      exact hc
    · intro _
      refine readLocked_of_count ?_
      rw [hgr]
      exact hc

theorem Partition.coordinated (h : Partition p ext) (c : Coordinator) :
    Partition { p with coordinator := c } ext :=
  Reshaped.partition ⟨rfl, rfl, rfl, fun _ fr hf => ⟨fr, hf, rfl, rfl, rfl⟩, fun _ _ hf _ => hf⟩ h

/-- The reservation is confirmed and the guard made. -/
theorem guardAppended_run {p₁ : Pool} (h : Partition p none) (hf : p.frames[f]? = some fr)
    (hn : fr.pinCount = 0) (hrm : p.disk.pageCount ≠ invalidPageId) (hp : PageInstalled p p₁ f)
    (hrs : p.durability = .hook → Reserved p.coordinator p.disk.pageCount) :
    ∃ c p' gd, (p.durability = .hook →
        notePhysicalPageAppend p.disk.pageCount p₁.coordinator = .ok () c) ∧
      (p.durability ≠ .hook → c = p₁.coordinator) ∧
      makeGuard f p.disk.pageCount true { p₁ with coordinator := c } = .ok gd p' ∧
      Appended p p' f fr := by
  have hlt := lt_of_getElem? hf
  have hcr : p₁.coordinator = p.coordinator := by rw [hp.only]
  have ho : p₁.durability = p.durability := by rw [hp.only]
  have hsl : p₁.frames[f]? = some (installedFrame p.disk.pageCount zero true) := by
    rw [hp.only]
    exact getElem?_set_self hlt
  have hc : p₁.guards.countP (fun gd => gd.frameId = f) = 0 := by
    rw [show p₁.guards = p.guards by rw [hp.only]]
    exact h.unlocked hf hn
  have hmr : ∀ c, ({ p₁ with coordinator := c } : Pool).markWritten
      (installedFrame p.disk.pageCount zero true) zero = appendedFrame p p.disk.pageCount := by
    intro c
    simp only [appendedFrame, markWritten, walProvider, ho]
    cases p.durability <;> rfl
  by_cases hh : p.durability = .hook
  · obtain ⟨ctx, confirmed, ht, hs, hcn, hr⟩ :=
      notePhysicalPageAppend_run (hrs hh)
    have hs' := (TransactionContext.notePhysicalPageAppend_keeps hcn).1.startPageCount
    obtain ⟨ctx', hi, hnt⟩ :=
      notePageWriteIntent_fresh (c := { p.coordinator with context := some confirmed }) rfl hrm
        (hs'.trans_le hs) zero
    have hm := makeGuard_run (hp.partition.coordinated { p.coordinator with
      context := some confirmed }) hsl hc (fun _ => hnt)
      (fun hl => absurd (ho.trans hh) hl)
    refine ⟨_, _, _, fun _ => hcr ▸ hr, fun hl => absurd hh hl, hm, ?_⟩
    rw [show (installedFrame p.disk.pageCount zero true).data = zero from rfl, hmr]
    exact hp.appended h hf hn (fun _ => ⟨ctx, confirmed, ctx', ht, hcn, hi, rfl⟩)
      (fun hl => absurd hh hl)
  · have hm := makeGuard_run (hp.partition.coordinated p₁.coordinator) hsl hc
      (c := p₁.coordinator) (fun h => absurd (ho ▸ h) hh) (fun _ => rfl)
    refine ⟨_, _, _, fun h => absurd h hh, fun _ => rfl, hm, ?_⟩
    rw [show (installedFrame p.disk.pageCount zero true).data = zero from rfl, hmr]
    exact hp.appended h hf hn (fun h => absurd h hh) (fun _ => hcr)

section
variable (h : Partition p none) (hc : Contents p)
include h hc

theorem appendToFrame_ensures
    (ha : p.availableFrame = some f) (hcl : p.replacer.currentTimestamp < 2 ^ 64 - 1)
    (hrs : p.durability = .hook → Reserved p.coordinator p.disk.pageCount) :
    Always (appendToFrame f p.disk.pageCount) p (Kept (PinnedAt p) none p) := by
  obtain ⟨old, hd, hp, _⟩ := h.available ha
  have hs := not_pinnedAt hd hp
  simp only [appendToFrame, ensures_bind]
  refine (flushVictimIfDirty_ensures h hc hd).imp ?_ (fun _ _ hq => hq.kept h)
  rintro _ p₁ ⟨hq, he, hl⟩
  have hk : Kept (PinnedAt p) none p p₁ := hq.kept h
  have h₁ := hk.partition
  have hm : p₁.durability = p.durability := by rw [hq.only]
  obtain ⟨fr, hfr, hp₁, _⟩ := h₁.available (hq.availableFrame.trans ha)
  rw [← hq.count]
  simp only [ensures_get, ensures_fromExcept]
  refine ⟨?_, fun _ _ => hk⟩
  intro disk happ
  obtain ⟨_, hr, rfl⟩ := appendPage_ok.mp happ
  simp only [ensures_modify]
  obtain ⟨p₂, his, hi⟩ := installAppended_run h₁
    (hq.availableFrame.trans ha) hl hq.contents.header.ne' hr (by
      rw [hq.only]
      exact hcl)
  obtain ⟨c, p', gd, hn, hpn, hma, hap⟩ := guardAppended_run h₁ hfr hp₁
    hr hi (fun hh => hq.count ▸ he (hm ▸ hh) _ (hrs (hm ▸ hh)))
  have hf := hk.trans (hap.kept h₁ hq.contents hl hr hs)
  rw [ensures_of_ok his]
  have hm₂ : p₂.durability = p₁.durability := by rw [hi.only]
  split
  · rename_i hh
    have hh : p₁.durability = .hook := by simpa [recoveryHook, hm₂] using hh
    simp only [ensures_bind, onHook, ensures_onPart]
    rw [ensures_of_ok (hn hh), ensures_of_ok hma]
    exact hf
  · rename_i hpl
    have hpl : p₁.durability ≠ .hook := by simpa [recoveryHook, hm₂] using hpl
    rw [hpn hpl] at hma
    rw [ensures_of_ok hma]
    exact hf

theorem newPageWrite_ensures (hl : p.replacer.currentTimestamp < 2 ^ 64 - 1) :
    Always newPageWrite p (Kept (PinnedAt p) none p) := by
  simp only [newPageWrite, ensures_iff]
  cases ha : p.availableFrame with
  | none => exact .refl h hc
  | some f =>
    simp only [ensures_iff]
    split
    · rename_i hh
      have hh : p.durability = .hook := by simpa [recoveryHook] using hh
      simp only [onHook, ensures_iff, ensures_onPart]
      refine (prepareForPhysicalPageAppend_ensures (hc.logged hh).log).imp ?_
        (fun _ _ hs => (Quiet.stalled hc hs).kept h)
      rintro _ c ⟨hs, hr, _, _⟩
      have hq := Quiet.stalled hc hs
      have hk : Kept (PinnedAt p) none p { p with coordinator := c } := hq.kept h
      have ha₁ : ({ p with coordinator := c } : Pool).availableFrame = some f :=
        ha
      rw [ha₁]
      simp only [ensures_bind]
      exact (appendToFrame_ensures hk.partition hk.contents ha₁ hl
        (fun _ => hr)).imp (fun _ _ hd => hk.trans hd) (fun _ _ hd => hk.trans hd)
    · rename_i hp
      have hp : p.durability ≠ .hook := by simpa [recoveryHook] using hp
      simp only [ensures_iff, ha]
      exact appendToFrame_ensures h hc ha hl (fun hh => absurd hh hp)

/-! Flushes. -/

theorem flushPage_ensures (s : Nat → Prop) (q : Nat) : Always (flushPage q) p (Kept s none p) := by
  simp only [flushPage, ensures_iff]
  refine ⟨?_, fun _ _ => .refl h hc⟩
  intro _ _
  cases hn : p.pageTable.find? q with
  | none => exact .refl h hc
  | some f =>
    obtain ⟨fr, hf, hv, _⟩ := (h.mapped q f).mp hn
    simp only [ensures_bind]
    rw [ensures_of_ok (frameAt_run hf)]
    split
    · exact .refl h hc
    split
    · exact .refl h hc
    simp only [ensures_bind]
    exact (flushUnpinnedDirtyFrame_ensures h hc hf hv).imp
      (fun _ _ hd => hd.1.kept h) (fun _ _ hq => hq.kept h)

omit h hc in
/-- The largest LSN covers every dirty frame, each of them fit to be written. -/
theorem poolMaximum_covers {wal : Option LogManager} {frs : List BufferFrame}
    {start mx : Option Nat} (h : maximumPageLsn wal frs start = .ok mx) :
    (∀ lsn ∈ start, ∃ last ∈ mx, lsn ≤ last) ∧ ∀ fr ∈ frs, fr.valid = true → fr.dirty = true →
        validateWalDependency wal fr true = .ok () ∧
          ∀ lsn ∈ fr.pageLsn, ∃ last ∈ mx, lsn ≤ last := by
  induction frs generalizing start with
  | nil =>
    cases h
    exact ⟨fun lsn hl => ⟨lsn, hl, le_rfl⟩, by simp⟩
  | cons fr frs ih =>
    unfold maximumPageLsn at h
    split at h
    · simp only [bind_ok] at h
      obtain ⟨_, hv, hr⟩ := h
      obtain ⟨hs, hf⟩ := ih hr
      have hold : ∀ lsn ∈ start, ∃ last ∈ mx, lsn ≤ last := by
        intro lsn hl
        rw [Option.mem_def] at hl
        subst hl
        cases hp : fr.pageLsn with
        | none => exact hs lsn (by simp [hp])
        | some cur =>
          obtain ⟨last, hls, hle⟩ := hs (max cur lsn) (by simp [hp])
          exact ⟨last, hls, (le_max_right _ _).trans hle⟩
      refine ⟨hold, ?_⟩
      intro other ho
      rcases mem_cons.mp ho with rfl | ho
      · intro _ _
        refine ⟨hv, ?_⟩
        intro lsn hl
        rw [Option.mem_def] at hl
        cases start with
        | none => exact hs lsn (by simp [hl])
        | some cur =>
          obtain ⟨last, hls, hle⟩ := hs (max lsn cur) (by simp [hl])
          exact ⟨last, hls, (le_max_left _ _).trans hle⟩
      · exact hf other ho
    · rename_i hk
      obtain ⟨hs, hf⟩ := ih h
      refine ⟨hs, ?_⟩
      intro other ho
      rcases mem_cons.mp ho with rfl | ho
      · intro hv hd
        exact absurd ⟨hv, hd⟩ hk
      · exact hf other ho

omit h hc in
theorem poolMaximum_none {wal : Option LogManager} {frs : List BufferFrame}
    {start mx : Option Nat} (h : maximumPageLsn wal frs start = .ok mx)
    (hn : ∀ fr ∈ frs, fr.valid = true → fr.pageLsn = none) : mx = start := by
  induction frs generalizing start with
  | nil =>
    cases h
    rfl
  | cons fr frs ih =>
    unfold maximumPageLsn at h
    split at h
    · rename_i hu
      simp only [bind_ok] at h
      obtain ⟨_, _, hr⟩ := h
      rw [hn fr mem_cons_self hu.1] at hr
      exact ih hr fun other ho => hn other (mem_cons_of_mem _ ho)
    · exact ih h fun other ho => hn other (mem_cons_of_mem _ ho)

/-- Every frame with unwritten changes may go to the file. -/
def DirtyWritable (p : Pool) : Prop :=
  ∀ (f : Nat) frame, p.frames[f]? = some frame → frame.valid = true → frame.dirty = true →
    Writable p frame

omit h hc in
theorem DirtyWritable.written (h : DirtyWritable p) (hf : p.frames[f]? = some fr) :
    DirtyWritable (written p f fr) := by
  have hlt := lt_of_getElem? hf
  intro g other ho hv hd
  by_cases hg : g = f
  · subst hg
    simp only [MiniDb.written, getElem?_set_self hlt, Option.some.injEq] at ho
    rw [← ho] at hd
    simp at hd
  · simp only [MiniDb.written, getElem?_set_ne (Ne.symm hg)] at ho
    have hl := h g other ho hv hd
    exact ⟨hl.valid, hl.durable⟩

omit h hc in
theorem ifDirty_ensures {call : Nat → PoolM Unit} {P : Pool → Prop} (hf : f < p.frames.length)
    (hp : P p)
    (hc : ∀ fr, p.frames[f]? = some fr → fr.valid = true → fr.dirty = true →
      Always (call f) p P) :
    Always (ifDirty call f) p P := by
  have hr := getElem?_eq_getElem hf
  simp only [ifDirty, ensures_bind]
  rw [ensures_of_ok (frameAt_run hr)]
  split
  · rename_i hu
    exact hc _ hr hu.1 hu.2
  · exact hp

theorem prepareAll_ensures :
    Always ((range p.frames.length).forM (ifDirty prepareFrameForWrite)) p (Quiet p) := by
  refine ensures_forM ?_ (.refl hc)
  intro f hf p₁ hq
  rw [mem_range] at hf
  refine ifDirty_ensures (hq.length ▸ hf) hq ?_
  intro fr hr hv _
  exact (prepareFrameForWrite_ensures (hq.partition h) hq.contents hr hv).imp
    (fun _ _ hd => hq.trans hd.toQuiet) (fun _ _ hd => hq.trans hd)

theorem writeAll_ensures (hw : DirtyWritable p) {n : Nat} (hn : n ≤ p.frames.length) :
    Always ((range n).forM (ifDirty writeFrame)) p (fun p' => Quiet p p' ∧ DirtyWritable p') := by
  have hi : (Quiet p p ∧ DirtyWritable p) := ⟨.refl hc, hw⟩
  refine ensures_forM ?_ hi
  rintro f hf p₁ ⟨hq, hw₁⟩
  rw [mem_range] at hf
  refine ifDirty_ensures (hq.length ▸ hf.trans_le hn) ⟨hq, hw₁⟩ ?_
  intro fr hr hv hd
  have hp := hq.partition h
  refine (ensures_of_ok (writeFrame_run hp hr hv)).mpr ?_
  exact ⟨hq.trans (.written hp hq.contents hr hv (hw₁ f fr hr hv hd)), hw₁.written hr⟩

theorem flushAll_ensures (s : Nat → Prop) : Always flushAll p (Kept s none p) := by
  simp only [flushAll, ensures_iff]
  split
  · exact .refl h hc
  simp only [ensures_bind]
  refine (prepareAll_ensures h hc).imp ?_ (fun _ _ hq => hq.kept h)
  intro _ p₁ hq
  simp only [ensures_iff]
  refine ⟨?_, fun _ _ => hq.kept h⟩
  intro maximum hm
  have hcv := (poolMaximum_covers hm).2
  have ho : p₁.durability ≠ .hook → maximum = none := by
    intro hp
    refine poolMaximum_none hm ?_
    intro fr hr hv
    obtain ⟨f, hf⟩ := getElem?_of_mem hr
    exact (hq.contents.plain hp).pageLsn hf hv
  refine (ensureWalDurable_ensures hq.contents ho).imp ?_ (fun _ _ hsm => hsm ▸ hq.kept h)
  rintro _ p₂ ⟨hfc, hd⟩
  have hq₂ := hq.trans (hfc.quiet hq.contents)
  have hw : DirtyWritable p₂ := by
    intro f fr hr hv ht
    have hr₁ : p₁.frames[f]? = some fr := by
      rw [hfc.only] at hr
      exact hr
    obtain ⟨hl, hle⟩ := hcv fr (mem_of_getElem? hr₁) hv ht
    refine ⟨hfc.validate hl, fun _ => .inr ?_⟩
    intro lsn hln
    obtain ⟨last, hs, hle⟩ := hle lsn hln
    obtain ⟨durable, hd, hle'⟩ := hd last hs
    exact ⟨durable, hd, hle.trans hle'⟩
  exact (writeAll_ensures (hq₂.partition h) hq₂.contents hw
    hq₂.length.symm.le).imp (fun _ _ hn => (hq₂.trans hn.1).kept h)
    (fun _ _ hn => (hq₂.trans hn.1).kept h)

/-! Transactions. -/

/-- The coordinator moved under a pool with a hook; no frame did. -/
theorem Kept.coordinated {s : Nat → Prop}
    (hh : p.durability = .hook) (hl : Logged (engine { p with coordinator := c })) :
    Kept s none p { p with coordinator := c } :=
  ⟨h.coordinated c, ⟨fun _ => hl, fun hp => absurd hh hp, hc.header⟩,
    fun _ => .refl _, fun _ fr _ hf hv => ⟨fr, hf, hv, rfl⟩⟩

theorem beginTransaction_ensures (s : Nat → Prop) (hh : p.durability = .hook)
    (prot : RollbackProtocol) : Always (beginTransaction prot) p (Kept s none p) := by
  simp only [beginTransaction, ensures_iff]
  refine ⟨?_, fun _ _ => .refl h hc⟩
  intro _ hi
  refine ⟨?_, fun _ _ => .refl h hc⟩
  intro _ _
  refine ⟨?_, fun _ _ => .refl h hc⟩
  intro _ _
  refine ⟨?_, fun _ _ => .refl h hc⟩
  intro _ _
  simp only [onHook, ensures_onPart, ensures_set]
  have hn : p.coordinator.context = none := by simpa using require_ok.mp hi
  exact .coordinated h hc hh ((hc.logged hh).begun hn rfl rfl rfl rfl)

theorem prepareResidentPageForCommit_ensures (hn : p.needsPreparation = true) (q : Nat) :
    Ensures (prepareResidentPageForCommit q) p
      (fun _ p' => Quiet p p' ∧ p'.needsPreparation = true ∧ (∀ g, PendingAt p' g → PendingAt p g) ∧
        ∀ f, p.pageTable.find? q = some f → ¬ PendingAt p' f) (fun _ p' => Quiet p p') := by
  simp only [prepareResidentPageForCommit, ensures_iff]
  cases hfn : p.pageTable.find? q with
  | none => exact ⟨.refl hc, hn, fun _ h => h, by simp⟩
  | some f =>
    obtain ⟨fr, hf, hv, _⟩ := (h.mapped q f).mp hfn
    simp only [ensures_bind]
    rw [ensures_of_ok (frameAt_run hf)]
    split
    · exact .refl hc
    refine (prepareFrameForWrite_ensures h hc hf hv).imp ?_ (fun _ _ h => h)
    intro _ p' hp
    obtain ⟨hn', hl⟩ := hp.running hn
    refine ⟨hp.toQuiet, hn', hp.pending, ?_⟩
    intro g hg
    cases hg
    exact hl

/-- Nothing is pinned, and no frame owes the log a preparation. -/
def FramesAsLogged (p : Pool) : Prop :=
  ∀ (f : Nat) frame, p.frames[f]? = some frame → frame.valid = true →
    frame.pinCount = 0 ∧ frame.pendingWalPreparation = false

omit h hc in
theorem unpinned_of_totalPinCount (h : p.totalPinCount = 0) (hf : p.frames[f]? = some fr)
    (hv : fr.valid = true) : fr.pinCount = 0 := by
  have hm := List.mem_of_getElem? hf
  have := List.sum_eq_zero_iff_forall_eq_nat.mp h _ (List.mem_map.mpr ⟨fr, hm, rfl⟩)
  simpa [hv] using this

theorem prepareStatement_ensures (hh : p.durability = .hook) :
    Ensures prepareStatement p (fun _ p' => Quiet p p' ∧ FramesAsLogged p')
      (fun _ p' => Quiet p p') := by
  simp only [prepareStatement, ensures_iff]
  cases hct : p.coordinator.context with
  | none => exact .refl hc
  | some ctx =>
    simp only
    split
    · exact .refl hc
    split
    · exact .refl hc
    rename_i hi
    have hi : p.totalPinCount = 0 := by simpa using hi
    simp only [ensures_bind]
    have hlp : Ensures (ctx.pages.keys.forM prepareResidentPageForCommit) p
        (fun _ p' =>
          (Quiet p p' ∧ p'.needsPreparation = true ∧ ∀ g, PendingAt p' g → PendingAt p g) ∧
          (∀ q ∈ ctx.pages.keys, ∀ f, p.pageTable.find? q = some f → ¬ PendingAt p' f) ∧
          ∀ q, (∀ f, p.pageTable.find? q = some f → ¬ PendingAt p f) →
            ∀ f, p.pageTable.find? q = some f → ¬ PendingAt p' f) (fun _ p' => Quiet p p') := by
      refine ensures_forM_each ?_ ⟨.refl hc, ?_, fun _ h => h⟩
      · rintro q _ p₁ ⟨hq, hd, hn⟩
        have hb : p₁.pageTable = p.pageTable := by rw [hq.only]
        refine (prepareResidentPageForCommit_ensures (hq.partition h) hq.contents hd
          q).imp ?_ (fun _ _ ht => hq.trans ht)
        rintro _ p₂ ⟨hq₂, hd₂, hn₂, hl⟩
        refine ⟨⟨hq.trans hq₂, hd₂, fun g hg => hn g (hn₂ g hg)⟩, fun f hf => hl f (hb ▸ hf), ?_⟩
        intro r hr f hf hf'
        exact hr f hf (hn₂ f hf')
      · simp [needsPreparation, recoveryHook, hh, hct]
    refine hlp.imp ?_ (fun _ _ ht => ht)
    rintro _ p₁ ⟨⟨hq, _, hn⟩, hl, _⟩
    simp only [onHook, ensures_onPart, ensures_modify]
    have hm : Stalled p₁.coordinator { p₁.coordinator with
        context := p₁.coordinator.context.map markSafeBoundary } := by
      refine ⟨rfl, .refl, ?_⟩
      cases hrn : p₁.coordinator.context with
      | none => exact .inl ⟨rfl, rfl⟩
      | some run => exact .inr ⟨run, _, rfl, rfl, rfl, .refl _⟩
    refine ⟨hq.trans (.stalled hq.contents hm), ?_⟩
    intro f fr hfr hv
    obtain ⟨old, ho, hp⟩ := hq.back hfr
    have hv₀ := hp.1.symm.trans hv
    refine ⟨hp.2.2.trans (unpinned_of_totalPinCount hi ho hv₀), ?_⟩
    by_contra hn₁
    have hlt : PendingAt p₁ f := ⟨fr, hfr, by simpa using hn₁⟩
    obtain ⟨early, he, hn₀⟩ := hn f hlt
    rw [ho, Option.some.injEq] at he
    subst he
    obtain ⟨_, run, s, hrn, hs⟩ := ((hc.logged hh).coherent.frames _ _
      (h.find_engine ho hv₀)).pending hn₀
    have hrn : p.coordinator.context = some run := hrn
    rw [hct] at hrn
    cases hrn
    exact hl _ (SortedMap.mem_keys.mpr ⟨s, hs⟩) f (h.find_page ho hv₀) hlt

theorem FramesAsLogged.released (hl : FramesAsLogged p)
    (hh : p.durability = .hook) (hn : c.context = none) (hg : LogGrows p.coordinator.log c.log) :
    Logged (engine { p with coordinator := c }) := by
  refine (hc.logged hh).released rfl rfl hn hg ?_ ?_
  · intro q e hf
    obtain ⟨f, fr, hr, hv, _, rfl⟩ := h.of_find_engine hf
    exact (hl f fr hr hv).1
  · intro q e hf
    obtain ⟨f, fr, hr, hv, _, rfl⟩ := h.of_find_engine hf
    exact (hl f fr hr hv).2

theorem commitStatement_ensures (s : Nat → Prop) (hh : p.durability = .hook) :
    Always commitStatement p (Kept s none p) := by
  simp only [commitStatement, ensures_bind]
  refine (prepareStatement_ensures h hc hh).imp ?_ (fun _ _ hq => hq.kept h)
  rintro _ p₁ ⟨hq, hl⟩
  have hk : Kept s none p p₁ := hq.kept h
  have hh₁ : p₁.durability = .hook := by
    rw [hq.only]
    exact hh
  have hr : ∀ c : Coordinator, c.context = none → LogGrows p₁.coordinator.log c.log →
      Kept s none p { p₁ with coordinator := c } := fun c hn hlg =>
    hk.trans (.coordinated hk.partition hk.contents hh₁
      (hl.released hk.partition hk.contents hh₁ hn hlg))
  have hs : ∀ c : Coordinator, Stalled p₁.coordinator c →
      Kept s none p { p₁ with coordinator := c } := fun c hs =>
    hk.trans ((Quiet.stalled hk.contents hs).kept hk.partition)
  simp only [ensures_get]
  cases ht : p₁.coordinator.context with
  | none => exact hk
  | some ctx =>
    simp only [onHook]
    split
    · simp only [ensures_onPart, ensures_modify]
      exact hr _ rfl .refl
    · simp only [ensures_onPart, ensures_bind]
      refine (appendTransactionRecord_ensures ht).imp ?_ (fun _ c h => hs c h)
      rintro ⟨app, lsn⟩ _ ⟨log, ha, rfl⟩
      have hg := TransactionContext.appendTransactionRecord_grows ha
      obtain ⟨⟨⟨_, _, hsr⟩, hp⟩, _⟩ := TransactionContext.appendTransactionRecord_keeps ha
      simp only [ensures_iff]
      refine ⟨?_, ?_⟩
      · intro frc hf
        exact hr _ rfl (hg.tail (.flush hf))
      · intro error _
        exact hs _ (.context ht rfl hg hsr (hp ▸ .refl _))

end

end MiniDb
