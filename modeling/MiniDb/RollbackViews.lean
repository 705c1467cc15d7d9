import MiniDb.LiveRollback

/-!
What a reader sees after a live rollback. Pages the rolled back transaction
logged are restored from the log, pages it never took stay as they were, and a
page it took without logging anything falls back to its image on disk.
-/
namespace MiniDb
open ByteBlock Outcome Engine TransactionContext

variable {e e' e₀ e₂ e₃ prep : Engine} {log : LogManager} {p : Nat}
  {ctx held : TransactionContext}

/-- The transaction leaves no record, not even when the rollback prepares it. -/
structure LogsNothing (e : Engine) (context : TransactionContext) : Prop where
  unbegun : context.beginLsn = none
  extent : e.disk.pageCount = context.startPageCount
  unchanged : ∀ p state f, context.pages.find? p = some state → e.frames.find? p = some f →
    SameContents f.data state.before

/-- Every page that was taken and has nothing to log is on disk as it was taken. -/
def UnloggedOnDisk (e : Engine) (context : TransactionContext) : Prop :=
  ∀ p state, context.pages.find? p = some state → p < context.startPageCount →
    state.latestAfter = none →
    (∀ f, e.frames.find? p = some f → SameContents f.data state.before) →
    SameContents (e.disk.page p) state.before

def RollbackSafe (e : Engine) : Prop :=
  ∀ context, e.context = some context → LogsNothing e context ∨ UnloggedOnDisk e context

/-- The running transaction stays the same one. -/
theorem Effect.sameWriter (he : Effect e e') (hc : e.context = some ctx) :
    ∃ ctx', e'.context = some ctx' ∧ SameWriter ctx ctx' := by
  have hs : ∀ {run : TransactionContext}, e.context = some run →
      run = ctx := fun hr => Option.some.inj (hr.symm.trans hc)
  cases he with
  | mutated => exact ⟨ctx, hc, rfl, rfl, rfl⟩
  | pool he =>
    cases he with
    | repinned | loaded | evicted | wroteBack | forced => exact ⟨ctx, hc, rfl, rfl, rfl⟩
    | prepared hr _ _ hprep _ =>
      obtain rfl := hs hr
      exact ⟨_, rfl, (preparePageForWrite_outcome hprep).same.toSameWriter⟩
  | intended hr _ _ hint | headerIntended hr _ hint =>
    obtain rfl := hs hr
    exact ⟨_, rfl, (notePageWriteIntent_same hint).toSameWriter⟩
  | persisted _ hr _ _ hprep _ _ =>
    obtain rfl := hs hr
    exact ⟨_, rfl, (preparePageForWrite_outcome hprep).same.toSameWriter⟩
  | reserved hr hrsvd =>
    obtain rfl := hs hr
    exact ⟨_, rfl, (prepareForPhysicalPageAppend_keeps hrsvd).toSameWriter⟩
  | appended hr _ hconf hint =>
    obtain rfl := hs hr
    exact ⟨_, rfl, (notePhysicalPageAppend_keeps hconf).1.toSameWriter.trans
      (notePageWriteIntent_same hint).toSameWriter⟩
  | bounded =>
    exact ⟨{ ctx with safeBoundary := true }, by simp [markSafeBoundary, hc], rfl, rfl, rfl⟩

theorem Effects.sameWriter (he : Effects e e') (hc : e.context = some ctx) :
    ∃ ctx', e'.context = some ctx' ∧ SameWriter ctx ctx' := by
  induction he with
  | refl => exact ⟨ctx, hc, rfl, rfl, rfl⟩
  | tail _ heff ih =>
    obtain ⟨mid, hm, hf⟩ := ih
    obtain ⟨last, hl, hs⟩ := heff.sameWriter hm
    exact ⟨last, hl, hf.trans hs⟩

/-- A page without records of its transaction shows its before-image once prepared. -/
theorem Coherent.view_unlogged {state : PageState} (h : Coherent e) (ht : e.context = some ctx)
    (hs : ∀ p f, e.frames.find? p = some f → f.pendingWalPreparation = false)
    (hst : ctx.pages.find? p = some state) (hu : state.latestAfter = none) :
    SameContents (e.view p) state.before := by
  have hi := ((h.intents ctx ht).2 p state hst).2
  have hc : state.current = normalized state.before := by
    simp [PageState.current, hu]
  cases hf : e.frames.find? p with
  | none =>
    rw [view_of_absent hf]
    refine (hi.stored ?_).trans hc
    rintro ⟨f, hm, _⟩
    rw [hf] at hm
    simp at hm
  | some f =>
    rw [view_of_resident hf]
    exact (hi.settled f hf (hs p f hf)).trans hc

theorem unlogged_of_unbegun {rs : List LogRecord} {s : PageState} (h : OwnLog ctx rs)
    (hb : ctx.beginLsn = none) (hs : ctx.pages.find? p = some s) : s.latestAfter = none := by
  by_contra hsome
  have hu := (h.logged p s hs).mp (Option.isSome_iff_ne_none.mpr hsome)
  obtain ⟨r, hm, hi, _⟩ := hu
  have ho := mem_ownRecords.mpr ⟨hm, hi⟩
  rw [(h.chained.unbegun hb).2] at ho
  simp at ho

/-- In a prepared state the frame of an unlogged page shows its before-image. -/
theorem Prepares.frame_unlogged {s' : PageState} {f : Frame} (h : Prepares e prep)
    (hc : Coherent prep) (hh : prep.context = some held)
    (hs : ∀ p f, prep.frames.find? p = some f → f.pendingWalPreparation = false)
    (ht' : held.pages.find? p = some s') (hu : s'.latestAfter = none)
    (hf : e.frames.find? p = some f) : SameContents f.data s'.before := by
  have hn := h.contents p
  rw [hf, Option.map_some] at hn
  obtain ⟨f', hf', heq⟩ := Option.map_eq_some_iff.mp hn
  have hv := hc.view_unlogged hh hs ht' hu
  rw [view_of_resident hf'] at hv
  exact heq.symm.trans hv

/-- A rollback of one transaction, from the state it began in. -/
structure RollbackOf (e₀ e₂ e₃ : Engine) (context : TransactionContext) : Prop where
  sound : Sound e₂
  views : ViewKept e₀.view e₂
  extent : context.startPageCount = e₀.disk.pageCount
  rollback : RollbackRun e₂ e₃ context

/-- A transaction that logged nothing leaves all frames, which show what it found. -/
theorem RollbackOf.unlogged (h : RollbackOf e₀ e₂ { prep with
      rollbackActive := false, log := log, context := none } ctx) (hr : Prepared e₂ prep)
    (hps : Prepares e₂ prep) (hh : prep.context = some held)
    (hb : held.beginLsn = none) (hex : prep.disk.pageCount ≤ held.startPageCount) :
    LogsNothing e₂ ctx ∧ ∀ p, p < e₀.disk.pageCount → SameContents (prep.view p) (e₀.view p) := by
  have hs := h.sound.effects hr.effects
  have hc := hs.ready.coherent
  have hv := h.views.effects h.sound.ready.coherent hr.effects
  have ho := (hs.owned.own held hh).2
  obtain ⟨ctx', hct', hsr, _, hss, hg, _⟩ :=
    hps.running ctx h.rollback.start
  rw [hh] at hct'
  cases hct'
  refine ⟨⟨?_, ?_, ?_⟩, ?_⟩
  · by_contra hsome
    have hg' := hg (Option.isSome_iff_ne_none.mpr hsome)
    rw [hb] at hg'
    simp at hg'
  · have hle := (h.sound.ready.coherent.intents ctx h.rollback.start).1
    rw [hr.disk] at hex
    omega
  · intro p s f ht hf
    obtain ⟨s', ht', hor, _, _⟩ := hss p s ht
    rw [← hor.before]
    exact hps.frame_unlogged hc hh hr.settled ht' (unlogged_of_unbegun ho hb ht') hf
  · intro p hp
    have hp' : p < held.startPageCount := by rw [hsr, h.extent]; exact hp
    cases ht : held.pages.find? p with
    | none => exact hv.untouched held p hh hp' ht
    | some s =>
      exact (hc.view_unlogged hh hr.settled ht (unlogged_of_unbegun ho hb ht)).trans
        (hv.touched held p s hh hp' ht)

/-- A rollback with a record to undo is none of a transaction that logs nothing. -/
theorem RollbackOf.not_logsNothing {bnd : TransactionContext} (h : RollbackOf e₀ e₂ e₃ ctx)
    (hp : Prepared e₂ prep) (hpr : Prepares e₂ prep) (hh : prep.context = some held)
    (hbn : prep.ensureBoundaryLogged held = .ok (bnd, log))
    (hg : bnd.beginLsn.isSome) : ¬ LogsNothing e₂ ctx := by
  intro hn
  obtain ⟨ctx', hc', hsr, hno, hs, _, hb⟩ :=
    hpr.running ctx h.rollback.start
  rw [hh] at hc'
  cases hc'
  have ho := (h.sound.owned.own ctx h.rollback.start).2
  have hu : held.beginLsn = none := by
    by_contra hm
    rcases hb (Option.isSome_iff_ne_none.mpr hm) with hm | ⟨p, s', ht', hl⟩
    · rw [hn.unbegun] at hm
      simp at hm
    · cases ht : ctx.pages.find? p with
      | none =>
        rw [hno p ht] at ht'
        simp at ht'
      | some s =>
        obtain ⟨s'', ht'', _, _, hr⟩ := hs p s ht
        rw [ht'] at ht''
        cases ht''
        rw [hr (unlogged_of_unbegun ho hn.unbegun ht) (fun f hf => hn.unchanged p s f ht hf)] at hl
        simp at hl
  rcases ensureBoundaryLogged_ok hbn with ⟨rfl, _⟩ | ⟨hlt, _⟩
  · rw [hu] at hg
    simp at hg
  · rw [hp.disk, hn.extent, hsr] at hlt
    exact lt_irrefl _ hlt

/-- With records to undo, a page looks as it did exactly if it was logged, never
taken, or on disk as it was taken. -/
theorem RollbackOf.logged {bnd : TransactionContext} (h : RollbackOf e₀ e₂ e₃ ctx)
    (hpr : Prepared e₂ prep) (hps : Prepares e₂ prep) (hh : prep.context = some held)
    (hbn : prep.ensureBoundaryLogged held = .ok (bnd, log)) (hr : RolledBack { prep with
      rollbackActive := true, log := log, context := some bnd } e₃ bnd) :
    (∀ p, p < e₀.disk.pageCount → SamePage p (e₃.view p) (e₀.view p)) ↔ UnloggedOnDisk e₂ ctx := by
  have hsn := h.sound.effects hpr.effects
  have hc := hsn.ready.coherent
  have hi := h.views.effects h.sound.ready.coherent hpr.effects
  obtain ⟨ctx', hct', hsr, hno, hs, _, _⟩ :=
    hps.running ctx h.rollback.start
  rw [hh] at hct'
  cases hct'
  obtain ⟨⟨_, _, hsr'⟩, hg⟩ := ensureBoundaryLogged_keeps hbn
  have hex := hsr'.trans (hsr.trans h.extent)
  -- no touched page is resident any more, so it shows what the disk has
  have hd : ∀ p s, held.pages.find? p = some s → e₃.view p = e₃.disk.page p := by
    intro p s ht
    refine view_of_absent ?_
    cases hf : e₃.frames.find? p with
    | none => rfl
    | some f =>
      have hn := (hr.remaining p f hf).2
      rw [hg, ht] at hn
      simp at hn
  constructor
  · intro hrs p s ht hp hu hfs
    obtain ⟨s', ht', hor, _, hfr⟩ := hs p s ht
    have hu' := hfr hu hfs
    by_cases hz : p = 0
    · subst hz
      have hv := h.sound.ready.coherent
      have hsto := ((hv.intents ctx h.rollback.start).2 0 s ht).2.stored hv.not_unwritten_zero
      exact hsto.trans (by simp [PageState.current, hu])
    · have hp' : p < e₀.disk.pageCount := h.extent ▸ hp
      have hm := hrs p hp'
      simp only [SamePage, if_neg hz] at hm
      rw [hd p s' ht', hr.alone p (hex ▸ hp') hz ?_] at hm
      · have ha : prep.disk.page p = e₂.disk.page p := by rw [hpr.disk]
        exact (ha ▸ hm).trans (h.views.touched ctx p s h.rollback.start hp ht).symm
      · intro other ho
        rw [hg, ht'] at ho
        cases ho
        exact hu'
  · intro hon p hp
    have hp' : p < held.startPageCount := by rw [hsr, h.extent]; exact hp
    have hpb : p < bnd.startPageCount := hex ▸ hp
    cases ht' : held.pages.find? p with
    | none =>
      have hn : bnd.pages.find? p = none := by rw [hg]; exact ht'
      have hu : ∀ s, bnd.pages.find? p = some s → s.latestAfter = none := by
        intro s ht
        rw [hn] at ht
        simp at ht
      have hbs := hi.untouched held p hh hp' ht'
      by_cases hz : p = 0
      · subst hz
        have hfn : e₃.frames.find? 0 = none := by
          cases hf : e₃.frames.find? 0 with
          | none => rfl
          | some f =>
            have hso := (hr.remaining 0 f hf).1
            rw [show prep.frames.find? 0 = none from hc.header_absent] at hso
            simp at hso
        rw [view_of_absent hc.header_absent] at hbs
        rw [view_of_absent hfn]
        have hmt : SamePage 0 (e₃.disk.page 0) (prep.disk.page 0) := by
          simpa [SamePage] using hr.metadata hpb hu
        exact hmt.trans (hbs.samePage 0)
      · have hv := view_congr (hr.kept p hz hpb hn) (hr.alone p hpb hz hu)
        rw [hv]
        exact hbs.samePage p
    | some s' =>
      rw [hd p s' ht']
      have hb := hi.touched held p s' hh hp' ht'
      have hsb : bnd.pages.find? p = some s' := by rw [hg]; exact ht'
      cases hl : s'.latestAfter with
      | some aft =>
        exact (hr.restored p s' hsb hpb (by simp [hl])).trans (hb.samePage p)
      | none =>
        have hu : ∀ s, bnd.pages.find? p = some s → s.latestAfter = none := by
          intro s ht
          rw [hsb] at ht
          cases ht
          exact hl
        obtain ⟨s, ht⟩ : ∃ s, ctx.pages.find? p = some s := by
          cases ht : ctx.pages.find? p with
          | none =>
            rw [hno p ht] at ht'
            simp at ht'
          | some s => exact ⟨s, rfl⟩
        obtain ⟨s'', ht'', hor, hbc, _⟩ := hs p s ht
        rw [ht'] at ht''
        cases ht''
        have hk : SamePage p (e₃.disk.page p) (prep.disk.page p) := by
          by_cases hz : p = 0
          · subst hz
            simpa [SamePage] using hr.metadata hpb hu
          · rw [hr.alone p hpb hz hu]
            exact (SameContents.refl _).samePage p
        have hfd : SameContents (prep.disk.page p) s'.before := by
          rw [hpr.disk, hor.before]
          refine hon p s ht (hsr ▸ hp') (hbc hl) ?_
          intro f hf
          rw [← hor.before]
          exact hps.frame_unlogged hc hh hpr.settled ht' hl hf
        exact hk.trans ((hfd.trans hb).samePage p)

/-- The views are back exactly if nothing was logged, or whatever was taken and
not logged is on disk. -/
theorem RollbackOf.restores_iff (h : RollbackOf e₀ e₂ e₃ ctx) :
    (∀ p, p < e₀.disk.pageCount → SamePage p (e₃.view p) (e₀.view p)) ↔ RollbackSafe e₂ := by
  obtain ⟨hc, prep, held, bnd, log, hpp, hpr, hh, hb, hcs⟩ := h.rollback
  have hf : RollbackSafe e₂ ↔ LogsNothing e₂ ctx ∨ UnloggedOnDisk e₂ ctx := by
    constructor
    · exact fun h => h ctx hc
    · intro h run hr
      rw [hc] at hr
      cases hr
      exact h
  rw [hf]
  rcases hcs with ⟨hu, rfl⟩ | ⟨hg, hl⟩
  · rcases ensureBoundaryLogged_ok hb with ⟨rfl, rfl, hn⟩ | ⟨_, he'⟩
    · obtain ⟨ht, hv⟩ := h.unlogged hpp hpr hh hu (not_lt.mp fun hlt => hn ⟨hu, hlt⟩)
      exact ⟨fun _ => .inl ht, fun _ p hp => (hv p hp).samePage p⟩
    · rcases ensureBeginLogged_ok he' with ⟨hs, rfl, _⟩ | ⟨_, rfl, _⟩
      · rw [hu] at hs
        simp at hs
      · simp [begun] at hu
  · rw [h.logged hpp hpr hh hb hl]
    exact (or_iff_right (h.not_logsNothing hpp hpr hh hb hg)).symm

theorem beginTransaction_extent {prot : RollbackProtocol} (h : e.beginTransaction prot = .ok e') :
    ∃ ctx, e'.context = some ctx ∧ ctx.transactionId = e.nextTransactionId ∧
      ctx.rollbackProtocol = prot ∧ ctx.startPageCount = e.disk.pageCount := by
  simp only [beginTransaction, ok_iff] at h
  obtain ⟨_, _, _, _, _, _, _, _, rfl⟩ := h
  exact ⟨_, rfl, rfl, rfl, rfl⟩

/-- A live rollback gives back the views its transaction began with exactly if
the transaction logged nothing, or every page it took without logging it was on
disk with the contents it was taken with. -/
theorem rollback_restores_views {initial e₀ e₁ e₂ e₃ : Engine} {earlier ops : List EngineOp}
    {protocol : RollbackProtocol} (hopened : initial.Opened)
    (hearlier : initial.run earlier = .ok e₀) (hbegin : e₀.beginTransaction protocol = .ok e₁)
    (hops : ∀ op ∈ ops, op.Inside) (hrun : e₁.run ops = .ok e₂)
    (hrollback : e₂.rollbackStatement = .ok e₃) :
    (∀ p, p < e₀.disk.pageCount → SamePage p (e₃.view p) (e₀.view p)) ↔ RollbackSafe e₂ := by
  have hsound₁ := (run_sound hopened hearlier).begin hbegin
  have heffects := run_effects hsound₁.ready hops hrun
  have hsound₂ := hsound₁.effects heffects
  obtain ⟨ctx, hrollback⟩ := rollbackStatement_run hsound₂ hrollback
  obtain ⟨first, hfirst, _, _, hstart⟩ := beginTransaction_extent hbegin
  obtain ⟨last, hlast, hsame⟩ := heffects.sameWriter hfirst
  have hextent : ctx.startPageCount = e₀.disk.pageCount := by
    rw [hrollback.start] at hlast
    cases hlast
    exact hsame.startPageCount.trans hstart
  have hof : RollbackOf e₀ e₂ e₃ ctx :=
    ⟨hsound₂, (beginTransaction_viewKept hbegin).effects hsound₁.ready.coherent heffects, hextent,
      hrollback⟩
  exact hof.restores_iff

/-- Appends two pages, changes the first and commits; both stay in the pool. -/
def committedWriter : List EngineOp :=
  [.begin .legacyTruncate, .newPage none, .mutate 1 (writeUint32 zero 100 7), .release 1,
    .newPage none, .release 2, .commit]

/-- Takes a guard on page 1 and leaves it alone, then changes page 2. -/
def touchingWriter : List EngineOp :=
  [.fetchWrite 1 none, .release 1, .fetchWrite 2 none, .mutate 2 (writeUint32 zero 100 9),
    .release 2]

theorem touchingWriter_rollback : ∃ e₀ e₁ e₂ e₃, (create 4 .fullPage).run committedWriter = .ok e₀ ∧
    e₀.beginTransaction .legacyTruncate = .ok e₁ ∧ e₁.run touchingWriter = .ok e₂ ∧
    e₂.rollbackStatement = .ok e₃ ∧
    1 < e₀.disk.pageCount ∧ normalized (e₀.view 1) = writeUint32 zero 100 7 ∧
    normalized (e₃.view 1) = zero := by
  have hr : satisfies ((create 4 .fullPage).run committedWriter) (fun e₀ =>
      satisfies (e₀.beginTransaction .legacyTruncate) (fun e₁ =>
        satisfies (e₁.run touchingWriter) (fun e₂ =>
          satisfies e₂.rollbackStatement (fun e₃ =>
            decide (1 < e₀.disk.pageCount ∧ normalized (e₀.view 1) = writeUint32 zero 100 7 ∧
              normalized (e₃.view 1) = zero))))) = true := by
    decide +kernel
  simp only [satisfies_iff, decide_eq_true_eq] at hr
  obtain ⟨e₀, h₀, e₁, h₁, e₂, h₂, e₃, h₃, hv⟩ := hr
  exact ⟨e₀, e₁, e₂, e₃, h₀, h₁, h₂, h₃, hv⟩

/-- The rollback of a writer that only looked at page 1 takes away what an earlier
transaction had committed there. -/
theorem rollback_loses_committed_page : ∃ e₀ e₁ e₂ e₃,
    (create 4 .fullPage).Opened ∧ (create 4 .fullPage).run committedWriter = .ok e₀ ∧
    e₀.beginTransaction .legacyTruncate = .ok e₁ ∧ e₁.run touchingWriter = .ok e₂ ∧
    e₂.rollbackStatement = .ok e₃ ∧
    1 < e₀.disk.pageCount ∧ ¬ SamePage 1 (e₃.view 1) (e₀.view 1) := by
  obtain ⟨e₀, e₁, e₂, e₃, h₀, h₁, h₂, h₃, hpage, hbefore, hafter⟩ := touchingWriter_rollback
  refine ⟨e₀, e₁, e₂, e₃, create_opened 4 .fullPage, h₀, h₁, h₂, h₃, hpage, ?_⟩
  intro hsame
  have hsame : SameContents (e₃.view 1) (e₀.view 1) := hsame
  rw [SameContents, hbefore, hafter] at hsame
  exact absurd hsame (by decide +kernel)

theorem rollback_restores_views_touchingWriter : ∃ e₀ e₂ e₃,
    (create 4 .fullPage).run committedWriter = .ok e₀ ∧ e₂.rollbackStatement = .ok e₃ ∧
    ((∀ p, p < e₀.disk.pageCount → SamePage p (e₃.view p) (e₀.view p)) ↔ RollbackSafe e₂) := by
  obtain ⟨e₀, e₁, e₂, e₃, h₀, h₁, h₂, h₃, _⟩ := touchingWriter_rollback
  refine ⟨e₀, e₂, e₃, h₀, h₃, ?_⟩
  refine rollback_restores_views (create_opened 4 .fullPage) h₀ h₁ ?_ h₂ h₃
  intro op hop
  simp only [touchingWriter, List.mem_cons, List.not_mem_nil, or_false] at hop
  rcases hop with rfl | rfl | rfl | rfl | rfl <;> trivial

end MiniDb
