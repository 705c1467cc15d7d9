import MiniDb.Views

/-!
Live rollback of the running transaction. It prepares the statement, drops the
frames of every page the transaction had taken, and undoes its records. A page
that was taken but never logged is not undone, so that it goes back to whatever
the disk holds.
-/
namespace MiniDb
open ByteBlock Outcome Engine TransactionContext SortedMap List

variable {e e' : Engine} {rest : List LogRecord} {log : LogManager} {p : Nat}
  {ctx ctx' : TransactionContext}

/-- What preparing does to the page states and the contents of frames. A page
whose frame still shows its before-image gets no record. -/
structure Prepares (e e' : Engine) : Prop where
  contents : ∀ p, (e'.frames.find? p).map (fun f => normalized f.data) =
    (e.frames.find? p).map (fun f => normalized f.data)
  running : ∀ context, e.context = some context → ∃ context', e'.context = some context' ∧
    context'.startPageCount = context.startPageCount ∧
    (∀ p, context.pages.find? p = none → context'.pages.find? p = none) ∧
    (∀ p state, context.pages.find? p = some state → ∃ state',
      context'.pages.find? p = some state' ∧ SameOrigin state state' ∧
      (state'.latestAfter = none → state.latestAfter = none) ∧
      (state.latestAfter = none →
        (∀ f, e.frames.find? p = some f → SameContents f.data state.before) →
        state'.latestAfter = none)) ∧
    (context.beginLsn.isSome → context'.beginLsn.isSome) ∧
    (context'.beginLsn.isSome → context.beginLsn.isSome ∨
      ∃ p state', context'.pages.find? p = some state' ∧ state'.latestAfter.isSome)

theorem Prepares.refl (e : Engine) : Prepares e e :=
  ⟨fun _ => rfl, fun ctx hc => ⟨ctx, hc, rfl, fun _ hn => hn,
    fun _ s hs => ⟨s, hs, .refl s, id, fun hn _ => hn⟩, id, .inl⟩⟩

theorem Prepares.sameContents (h : Prepares e e') {f' : Frame} (hf' : e'.frames.find? p = some f') :
    ∃ f, e.frames.find? p = some f ∧ SameContents f'.data f.data := by
  have hc := h.contents p
  rw [hf', Option.map_some] at hc
  obtain ⟨f, hf, heq⟩ := Option.map_eq_some_iff.mp hc.symm
  exact ⟨f, hf, heq.symm⟩

theorem Prepares.trans {a b c : Engine} (hab : Prepares a b) (hbc : Prepares b c) :
    Prepares a c := by
  refine ⟨fun p => (hbc.contents p).trans (hab.contents p), ?_⟩
  intro ctx hc
  obtain ⟨mid, hm, hsr, hn, hs, hg, hb⟩ := hab.running ctx hc
  obtain ⟨last, hls, hsr', hn', hs', hg', hb'⟩ := hbc.running mid hm
  refine ⟨last, hls, hsr'.trans hsr, fun p hp => hn' p (hn p hp), ?_, fun h => hg' (hg h), ?_⟩
  · intro p s ht
    obtain ⟨state₁, ht₁, ho₁, ha₁, hr₁⟩ := hs p s ht
    obtain ⟨state₂, ht₂, ho₂, ha₂, hr₂⟩ := hs' p state₁ ht₁
    refine ⟨state₂, ht₂, ho₁.trans ho₂, fun h => ha₁ (ha₂ h), ?_⟩
    intro hu hfs
    refine hr₂ (hr₁ hu hfs) ?_
    intro f' hf'
    obtain ⟨f, hf, hsa⟩ := hab.sameContents hf'
    rw [ho₁.before]
    exact hsa.trans (hfs f hf)
  · intro hsm
    rcases hb' hsm with hsm | hl
    · rcases hb hsm with hsm | ⟨p, state₁, ht₁, hl⟩
      · exact .inl hsm
      · obtain ⟨state₂, ht₂, _, ha₂, _⟩ := hs' p state₁ ht₁
        refine .inr ⟨p, state₂, ht₂, ?_⟩
        by_contra hnot
        rw [ha₂ (by simpa using hnot)] at hl
        simp at hl
    · exact .inr hl

theorem prepareFrameForWrite_prepares (h : e.prepareFrameForWrite p = .ok e') : Prepares e e' := by
  unfold prepareFrameForWrite at h
  split at h
  · simp only [Except.ok.injEq] at h
    exact h ▸ .refl e
  · rename_i f hf
    split at h
    · simp only [Except.ok.injEq] at h
      exact h ▸ .refl e
    · rename_i hd
      obtain ⟨_, hr⟩ := not_or.mp hd
      obtain ⟨ctx, hc⟩ : ∃ ctx, e.context = some ctx := by
        cases hc : e.context with
        | none => simp [hc] at hr
        | some ctx => exact ⟨ctx, rfl⟩
      simp only [ok_iff, Prod.exists, Engine.preparePageForWrite, hc] at h
      obtain ⟨_, _, _, ⟨prep, hpr, rfl, rfl, rfl⟩, f', hfr, rfl⟩ := h
      have ho := preparePageForWrite_outcome hpr
      refine ⟨?_, ?_⟩
      · intro q
        simp only [find?_setFrame]
        split
        · rename_i hq
          subst hq
          rw [hf, Option.map_some, Option.map_some, preparedFrame_data hfr]
          exact congrArg some ho.sameContents
        · rfl
      · intro run hr'
        rw [hc] at hr'
        cases hr'
        refine ⟨prep.context, rfl, ho.same.startPageCount, ?_⟩
        cases ho with
        | absent hg =>
          exact ⟨fun _ hno => hno, fun q s hs =>
            ⟨s, hs, .refl s, id, fun hno _ => hno⟩, id, .inl⟩
        | unchanged =>
          exact ⟨fun _ hno => hno, fun q s hs =>
            ⟨s, hs, .refl s, id, fun hno _ => hno⟩, id, .inl⟩
        | @logged s _ hs haft hbef hdiffers hlgd =>
          obtain ⟨pl, app, log', lsn, _, ha, hn, _, _⟩ :=
            logged_describes haft hbef hlgd
          have hp := (appendTransactionRecord_keeps ha).1.pages
          rw [hn]
          simp only [setPage, find?_insert, hp]
          refine ⟨?_, ?_, ?_, ?_⟩
          · intro q hno
            have hq : q ≠ p := by
              rintro rfl
              rw [hs] at hno
              simp at hno
            rw [if_neg hq, hno]
          · intro q old hl
            by_cases hq : q = p
            · subst hq
              rw [hs] at hl
              cases hl
              refine ⟨_, if_pos rfl, ⟨rfl, rfl, rfl⟩, by simp [PageState.recorded], ?_⟩
              intro hu hfs
              refine absurd ?_ hdiffers
              rw [hu]
              exact (hfs f hf).symm
            · exact ⟨old, by rw [if_neg hq, hl], .refl old, id, fun hno _ => hno⟩
          · obtain ⟨begun, mid, hb, _, rfl⟩ :=
              appendTransactionRecord_ok ha
            intro _
            rcases ensureBeginLogged_ok hb with
              ⟨hm, rfl, _⟩ | ⟨_, rfl, _⟩
            · exact hm
            · rfl
          · intro _
            exact .inr ⟨p, _, if_pos rfl, rfl⟩

theorem prepareStatement_prepares (h : e.prepareStatement = .ok e') : Prepares e e' := by
  unfold prepareStatement at h
  split at h
  · simp at h
  · rename_i ctx hc
    simp only [ok_iff] at h
    obtain ⟨_, _, _, _, settled, hf, rfl⟩ := h
    have hp : Prepares e settled := by
      refine foldlM_preserves (P := fun s => Prepares e s) ?_ (.refl e) hf
      intro p _ s t hs ht
      unfold prepareResidentPageForCommit at ht
      split at ht
      · simp only [Except.ok.injEq] at ht
        exact ht ▸ hs
      · simp only [bind_ok] at ht
        obtain ⟨_, _, ht⟩ := ht
        exact hs.trans (prepareFrameForWrite_prepares ht)
    refine ⟨hp.contents, ?_⟩
    intro run hr
    obtain ⟨ctx', hc', hrs⟩ := hp.running run hr
    exact ⟨{ ctx' with safeBoundary := true }, by simp [markSafeBoundary, hc'], hrs⟩

/-- Reservations are for pages past the extent the transaction started from. -/
def ReservesNew (e : Engine) : Prop :=
  ∀ context, e.context = some context → ∀ p reservation,
    context.reservations.find? p = some reservation → context.startPageCount ≤ p

theorem ReservesNew.of_same (h : ReservesNew e) (hc : e.context = some ctx)
    (hc' : e'.context = some ctx') (ht : ctx'.startPageCount = ctx.startPageCount)
    (hk : ∀ p rsv', ctx'.reservations.find? p = some rsv' →
      ctx.startPageCount ≤ p ∨ ∃ rsv, ctx.reservations.find? p = some rsv) : ReservesNew e' := by
  intro run hr p rsv' hs'
  rw [hc'] at hr
  cases hr
  rw [ht]
  rcases hk p rsv' hs' with hle | ⟨rsv, hs⟩
  · exact hle
  · exact h ctx hc p rsv hs

theorem notePageWriteIntent_reservations {bef : Page}
    (h : ctx.notePageWriteIntent p bef = .ok ctx') : ctx'.reservations = ctx.reservations := by
  rcases notePageWriteIntent_ok h with ⟨_, _, rfl⟩ | ⟨_, _, _, rfl⟩
  · rfl
  · rfl

theorem prepareOutcome_reservations {mode : WalUpdateMode} {formatVersion : Nat} {aft : Page}
    {prep : PreparedPage} (h : ctx.PrepareOutcome log mode formatVersion p aft prep) :
    prep.context.reservations = ctx.reservations := by
  cases h with
  | absent => rfl
  | unchanged => rfl
  | logged _ _ _ _ hlgd =>
    obtain ⟨_, _, _, _, ha, _, rfl⟩ := logPageUpdate_ok hlgd
    exact (appendTransactionRecord_keeps ha).2

theorem ReservesNew.effect (h : ReservesNew e) (he : Effect e e') : ReservesNew e' := by
  have hs : ∀ {ctx ctx' : TransactionContext}, ctx'.reservations = ctx.reservations → ∀ p rsv',
      ctx'.reservations.find? p = some rsv' → ctx.startPageCount ≤ p ∨
        ∃ rsv, ctx.reservations.find? p = some rsv :=
    fun heq p rsv' hf => .inr ⟨rsv', heq ▸ hf⟩
  cases he with
  | mutated => exact h
  | pool he =>
    cases he with
    | repinned | loaded | evicted | wroteBack | forced => exact h
    | prepared hc _ _ hprep _ =>
      have ho := preparePageForWrite_outcome hprep
      exact h.of_same hc rfl ho.same.startPageCount (hs (prepareOutcome_reservations ho))
  | intended hc _ _ hint | headerIntended hc _ hint =>
    exact h.of_same hc rfl (notePageWriteIntent_same hint).startPageCount
      (hs (notePageWriteIntent_reservations hint))
  | persisted _ hc _ _ hprep _ _ =>
    have ho := preparePageForWrite_outcome hprep
    exact h.of_same hc rfl ho.same.startPageCount (hs (prepareOutcome_reservations ho))
  | @reserved ctx ctx' log lsn hc hrsvd =>
    have ht := (prepareForPhysicalPageAppend_keeps hrsvd).startPageCount
    refine h.of_same hc rfl ht ?_
    simp only [prepareForPhysicalPageAppend, ok_iff, Prod.exists] at hrsvd
    obtain ⟨_, ⟨_, _, hle⟩, begun, mid, hb, hr⟩ := hrsvd
    have hg := (ensureBeginLogged_keeps hb).2
    intro p rsv' hf
    rcases reservePage_ok hr with
      ⟨rfl, _⟩ | ⟨app, ha, rfl, _⟩
    · exact .inr ⟨rsv', hg ▸ hf⟩
    · have hap := (appendTransactionRecord_keeps ha).2
      simp only [setReservation, find?_insert, hap, hg] at hf
      split at hf
      · rename_i hp
        exact .inl (hp ▸ hle)
      · exact .inr ⟨rsv', hf⟩
  | @appended ctx confirmed ctx' hc _ hconf hint =>
    have hs := (notePhysicalPageAppend_keeps hconf).1.sameAfter (notePageWriteIntent_same hint)
    refine h.of_same hc rfl hs.startPageCount ?_
    intro p rsv' hf
    rw [notePageWriteIntent_reservations hint] at hf
    unfold notePhysicalPageAppend at hconf
    split at hconf
    · rename_i rsv hrs
      simp only [ok_iff] at hconf
      obtain ⟨_, _, rfl⟩ := hconf
      simp only [setReservation, find?_insert] at hf
      split at hf
      · rename_i hp
        exact .inr ⟨rsv, hp ▸ hrs⟩
      · exact .inr ⟨rsv', hf⟩
    · simp at hconf
  | @bounded ctx hc _ _ =>
    have hc' : e.markSafeBoundary.context = some { ctx with safeBoundary := true } := by
      simp [markSafeBoundary, hc]
    exact h.of_same hc hc' rfl (hs rfl)

theorem ReservesNew.effects (h : ReservesNew e) (he : Effects e e') : ReservesNew e' := by
  induction he with
  | refl => exact h
  | tail _ heff ih => exact ih.effect heff

theorem discardPages_ok {pages : List Nat} (h : pages.foldlM discardPageForRecovery e = .ok e') :
    ∃ frs, e' = { e with frames := frs } ∧
      ∀ q, frs.find? q = if q ∈ pages then none else e.frames.find? q := by
  induction pages generalizing e with
  | nil =>
    simp only [foldlM_nil, pure_ok] at h
    exact ⟨e.frames, h.symm, by simp⟩
  | cons p pages ih =>
    simp only [foldlM_cons, discardPageForRecovery, ok_iff] at h
    obtain ⟨_, ⟨_, _, rfl⟩, hr⟩ := h
    obtain ⟨frs, rfl, hf⟩ := ih hr
    refine ⟨frs, rfl, ?_⟩
    intro q
    rw [hf]
    simp only [find?_erase, mem_cons]
    by_cases hq : q = p
    · simp [hq]
    · simp [hq]

/-- Dropped frames are those of touched pages and of pages past the start. -/
structure Dropped (e e' : Engine) (context : TransactionContext) : Prop where
  remaining : ∀ p f, e'.frames.find? p = some f →
    e.frames.find? p = some f ∧ context.pages.find? p = none
  kept : ∀ p, p ≠ 0 → p < context.startPageCount → context.pages.find? p = none →
    e'.frames.find? p = e.frames.find? p

structure Discarded (e e' : Engine) (context : TransactionContext) : Prop
    extends Dropped e e' context where
  same : ∃ frames, e' = { e with frames := frames }

theorem discardForRollback_discarded (hs : ReservesNew e) (hc : e.context = some ctx)
    (h : e.discardForRollback ctx = .ok e') : Discarded e e' ctx := by
  simp only [discardForRollback, bind_ok] at h
  obtain ⟨_, ht, h⟩ := h
  obtain ⟨frs, rfl, hr⟩ := discardPages_ok ht
  have hrm : ∀ p f, frs.find? p = some f →
      e.frames.find? p = some f ∧ ctx.pages.find? p = none := by
    intro p f hf
    rw [hr] at hf
    split at hf
    · simp at hf
    · rename_i hm
      refine ⟨hf, ?_⟩
      cases hst : ctx.pages.find? p with
      | none => rfl
      | some s => exact absurd (mem_keys.mpr ⟨s, hst⟩) hm
  have hk : ∀ p, ctx.pages.find? p = none → frs.find? p = e.frames.find? p := by
    intro p hn
    rw [hr, if_neg]
    intro hm
    obtain ⟨s, hst⟩ := mem_keys.mp hm
    rw [hn] at hst
    simp at hst
  split at h
  · simp only [discardPagesAtOrAboveForRecovery] at h
    obtain ⟨frs', rfl, hr'⟩ := discardPages_ok h
    refine ⟨⟨?_, ?_⟩, frs', rfl⟩
    · intro p f hf
      simp only [hr'] at hf
      split at hf
      · simp at hf
      · exact hrm p f hf
    · intro p _ hp hn
      simp only [hr']
      rw [if_neg, hk p hn]
      simp only [mem_filter, decide_eq_true_eq]
      omega
  · simp only [ok_iff, discardPageForRecovery] at h
    obtain ⟨_, hv, _, _, rfl⟩ := h
    obtain ⟨frs', rfl, hr'⟩ := discardPages_ok hv
    refine ⟨⟨?_, ?_⟩, _, rfl⟩
    · intro p f hf
      simp only [find?_erase, hr'] at hf
      split at hf
      · simp at hf
      · split at hf
        · simp at hf
        · exact hrm p f hf
    · intro p hz hp hn
      simp only [find?_erase, hr']
      rw [if_neg hz, if_neg, hk p hn]
      intro hm
      obtain ⟨rsv, hrs⟩ := mem_keys.mp hm
      exact absurd (hs ctx hc p rsv hrs) hp.not_ge

/-- Equal outside the PageLSN slot; in page 0 also outside the free-list head,
which owned cleanup extends. -/
def SamePage (p : Nat) (a b : Page) : Prop := if p = 0 then SameHeader a b else SameContents a b

theorem SameContents.samePage {a b : Page} (h : SameContents a b) (p : Nat) : SamePage p a b := by
  unfold SamePage
  split
  · exact h.sameHeader
  · exact h

theorem SamePage.trans {a b c : Page} (ha : SamePage p a b) (hb : SamePage p b c) :
    SamePage p a c := by
  unfold SamePage at ha hb ⊢
  split
  · rename_i hp
    rw [if_pos hp] at ha hb
    exact ha.trans hb
  · rename_i hp
    rw [if_neg hp] at ha hb
    exact ha.trans hb

theorem HeaderKept.samePage {disk disk' : DiskManager} {touched : Nat → Prop}
    (h : HeaderKept disk disk' touched) (hp : ¬ touched p) :
    SamePage p (disk'.page p) (disk.page p) := by
  unfold SamePage
  split
  · rename_i hz
    subst hz
    exact h.metadata
  · rename_i hz
    rw [h.pages p hp hz]
    exact .refl _

structure Sound (e : Engine) : Prop where
  ready : Ready e
  owned : LogOwned e
  reserves : ReservesNew e

theorem Sound.effects (h : Sound e) (he : Effects e e') : Sound e' :=
  ⟨h.ready.effects he, h.owned.effects he, h.reserves.effects he⟩

/-- Undone from `e`: logged pages are back, all others of the start extent are
as the disk had them, and no touched page is resident. -/
structure RolledBack (e e' : Engine) (context : TransactionContext) : Prop
    extends Dropped e e' context where
  idle : e'.context = none ∧ e'.rollbackActive = false
  restored : ∀ p state, context.pages.find? p = some state → p < context.startPageCount →
    state.latestAfter.isSome → SamePage p (e'.disk.page p) state.before
  metadata : 0 < context.startPageCount →
    (∀ state, context.pages.find? 0 = some state → state.latestAfter = none) →
    SameHeader (e'.disk.page 0) (e.disk.page 0)
  alone : ∀ p, p < context.startPageCount → p ≠ 0 →
    (∀ state, context.pages.find? p = some state → state.latestAfter = none) →
    e'.disk.page p = e.disk.page p
  extent : context.startPageCount ≤ e'.disk.pageCount
  header : deserializeDatabaseHeader (e'.disk.page 0) = .ok e'.disk.databaseHeader
  grows : LogGrows e.log e'.log
  adds : ∀ record ∈ e'.log.records, record ∈ e.log.records ∨
    UndoRecord context.transactionId record
  next : e'.nextTransactionId = e.nextTransactionId

theorem updates_iff_hasUpdate {rs : List LogRecord} {begin : Nat}
    (ho : ownRecords rs ctx.transactionId = ctx.beginRecord begin :: rest) :
    Updates rest p ↔ HasUpdate rs ctx.transactionId p := by
  constructor
  · rintro ⟨r, hm, hi⟩
    have hr : r ∈ ownRecords rs ctx.transactionId := by
      rw [ho]
      exact mem_cons_of_mem _ hm
    obtain ⟨hm, hd⟩ := mem_ownRecords.mp hr
    exact ⟨r, hm, hd, hi⟩
  · rintro ⟨r, hm, hd, ex, hi⟩
    have hr := mem_ownRecords.mpr ⟨hm, hd⟩
    rw [ho] at hr
    rcases mem_cons.mp hr with rfl | hr
    · rw [beginRecord_not_update] at hi
      simp at hi
    · exact ⟨r, hr, ex, hi⟩

/-- The loser a live rollback hands to undo is ready for the walk. -/
theorem Sound.undoReady {e₁ : Engine} {begin last : Nat} (h : Sound e) (ht : e.context = some ctx)
    (ho : ownRecords e.log.records ctx.transactionId = ctx.beginRecord begin :: rest)
    (hn : Linked (some begin) rest) (hls : last = lastLsnOf begin rest)
    (hrs : ∀ r ∈ rest, OwnRecord ctx r) (hg : LogGrows e.log log)
    (hrc : log.records = e.log.records) (hd : e₁.disk = e.disk) (hl : e₁.log = log) :
    UndoReady ctx begin rest (.open_ e₁.disk e₁.log) (loserOf ctx begin last).queued := by
  have hm : ∀ r ∈ ctx.beginRecord begin :: rest, r ∈ e.log.records := by
    intro r hr
    rw [← ho] at hr
    exact (mem_ownRecords.mp hr).1
  have hc := h.ready.coherent
  obtain ⟨hsr, hs⟩ := hc.intents ctx ht
  refine ⟨?_, ?_, ?_, hn, hrs, ?_, ?_, ?_, ?_, ⟨rfl, rfl⟩, rfl, rfl, rfl, rfl⟩
  · rw [hl]
    exact hg.sound h.ready.log
  · show _ ∈ e₁.log.records
    rw [hl, hrc]
    exact hm _ mem_cons_self
  · intro r hr
    show _ ∈ e₁.log.records
    rw [hl, hrc]
    exact hm _ (mem_cons_of_mem _ hr)
  · intro p s hst
    exact (hs p s hst).2.existed
  · rw [hd]
    exact hsr
  · rw [hd]
    exact hc.header
  · show some last = _
    rw [hls]

/-- Undo of one live transaction, with the cleanup of an owned one behind it. -/
structure LiveUndone (context : TransactionContext) (rest : List LogRecord)
    (s s' : Storage) : Prop where
  grows : LogGrows s.log s'.log
  adds : ∀ record ∈ s'.log.records, record ∈ s.log.records ∨
    UndoRecord context.transactionId record
  pages : ∀ p, p < context.startPageCount → ∃ page, PageUndone context rest s.disk.page p page ∧
    SamePage p (s'.disk.page p) page ∧ (p ≠ 0 → s'.disk.page p = page)
  extent : context.startPageCount ≤ s'.disk.pageCount
  header : deserializeDatabaseHeader (s'.disk.page 0) = .ok s'.disk.databaseHeader

theorem undoTransactions_live {begin : Nat} {s s' : Storage} {loser : Loser}
    (h : UndoReady ctx begin rest s loser.queued)
    (hu : undoTransactions s [loser] (fun _ => undoBase ctx) finishOwned = .ok s') :
    LiveUndone ctx rest s s' := by
  simp only [undoTransactions, map_cons, map_nil, bind_ok, Prod.exists] at hu
  obtain ⟨mid, losers, hlp, hf⟩ := hu
  obtain ⟨loser', rfl, hh⟩ := h.walk hlp
  have hd := hh.undone
  cases hr : ctx.rollbackProtocol with
  | legacyTruncate =>
    have hl : [loser'].filter (·.rollbackProtocol = .ownedAppend) = [] := by
      simp [hh.protocol, hr]
    rw [hl, foldlM_nil, pure_ok] at hf
    subst hf
    exact ⟨hd.grows, hd.adds, fun p hp => ⟨_, hd.pages p hp,
      (SameContents.refl _).samePage p, fun _ => rfl⟩, hd.extent, hd.header⟩
  | ownedAppend =>
    have hl : [loser'].filter (·.rollbackProtocol = .ownedAppend) = [loser'] := by
      simp [hh.protocol, hr]
    simp only [hl, foldlM_cons, foldlM_nil, ok_iff] at hf
    obtain ⟨_, hf, rfl⟩ := hf
    have hs := hd.grows.sound h.log
    obtain ⟨ht, txs, own, ha, hc⟩ :=
      finishOwned_cleanedUp hs hd.header hf
    obtain ⟨added, hex⟩ := hd.grows.extends
    have hy : (ctx.beginRecord begin).payload = .beginOwned ctx.startPageCount := by
      simp [beginRecord, beginPayload, hr]
    have hst := analyzeOwner_start hs.placed (hex.subset h.begun)
      hh.beginLsn.symm hh.transactionId.symm hy ha
    rw [hst, hh.transactionId] at hc
    refine ⟨hd.grows.trans hc.grows, ?_, ?_, ?_, hc.disk.header⟩
    · intro r hm
      rcases hc.adds r hm with hm | hi
      · exact hd.adds r hm
      · exact .inr hi
    · intro p hp
      refine ⟨_, hd.pages p hp, hc.disk.samePage hp.not_ge, ?_⟩
      exact hc.disk.pages p hp.not_ge
    · rw [hc.disk.count]
      exact hd.extent

theorem mapError_ok {α : Type} {r : Attempt α} {f : Failure → DbError} {a : α} :
    r.mapError f = .ok a ↔ r = .ok a := by
  cases r with
  | error e => simp [Except.mapError]
  | ok b => simp [Except.mapError]

theorem undoActive_rolledBack {begin : Nat} (h : Sound e) (hc : e.context = some ctx)
    (hb : ctx.beginLsn = some begin) (hud : e.undoActive ctx = .ok e') : RolledBack e e' ctx := by
  have hon := (h.owned.own ctx hc).2
  obtain ⟨rest, ho, hln, hls, hrs⟩ := hon.chained.begun begin hb
  unfold undoActive at hud
  simp only [hb, hls, ok_iff, mapError_ok] at hud
  obtain ⟨log, hfl, discarded, hi, s, hs, disk, hrl, rfl⟩ := hud
  have hrc := (flushUpTo_fields hfl).1
  have hgr : LogGrows e.log log := .single (.flush hfl)
  have hds : Discarded { e with log := log } discarded ctx :=
    discardForRollback_discarded h.reserves hc hi
  obtain ⟨frs, hf⟩ := hds.same
  have hr : UndoReady ctx begin rest (.open_ discarded.disk discarded.log)
      (loserOf ctx begin (lastLsnOf begin rest)).queued := by
    refine h.undoReady hc ho hln rfl hrs hgr hrc ?_ ?_
    · rw [hf]
    · rw [hf]
  have hd := undoTransactions_live hr hs
  have hk : disk = s.disk := by
    simp only [DiskManager.reloadDatabaseHeader, ok_iff] at hrl
    obtain ⟨hdr, hrd, rfl⟩ := hrl
    rw [hd.header, Except.ok.injEq] at hrd
    subst hrd
    rfl
  subst hk
  have ha : discarded.disk = e.disk ∧ discarded.log = log ∧
      discarded.nextTransactionId = e.nextTransactionId := by
    rw [hf]
    exact ⟨rfl, rfl, rfl⟩
  have hl : ∀ p, Updates rest p ↔ HasUpdate e.log.records ctx.transactionId p :=
    fun p => updates_iff_hasUpdate ho
  have hg := hd.pages
  simp only [Storage.open_, ha.1] at hg
  -- a page that no record of the transaction updates keeps what the disk had
  have hal : ∀ p, p < ctx.startPageCount →
      (∀ st, ctx.pages.find? p = some st → st.latestAfter = none) →
      SamePage p (s.disk.page p) (e.disk.page p) ∧ (p ≠ 0 → s.disk.page p = e.disk.page p) := by
    intro p hp hu
    obtain ⟨pg, hun, hsm, heq⟩ := hg p hp
    rcases hun with ⟨_, rfl⟩ | ⟨hup, st, ht, _⟩
    · exact ⟨hsm, heq⟩
    · have hso := (hon.logged p st ht).mpr ((hl p).mp hup)
      rw [hu st ht] at hso
      simp at hso
  have hsg : (Storage.open_ discarded.disk discarded.log).log = log := ha.2.1
  refine ⟨⟨hds.remaining, hds.kept⟩, ⟨rfl, rfl⟩, ?_, ?_, ?_, hd.extent, hd.header, ?_, ?_, ha.2.2⟩
  · intro p st ht hp hso
    obtain ⟨pg, hun, hsm, _⟩ := hg p hp
    rcases hun with ⟨hn, _⟩ | ⟨_, st', ht', hcn⟩
    · exact absurd ((hl p).mpr ((hon.logged p st ht).mp hso)) hn
    · rw [ht] at ht'
      cases ht'
      exact hsm.trans (hcn.samePage p)
  · intro hsr hu
    simpa [SamePage] using (hal 0 hsr hu).1
  · intro p hp hz hu
    exact (hal p hp hu).2 hz
  · exact hgr.trans (hsg ▸ hd.grows)
  · intro r hm
    rcases hd.adds r hm with hm | hid
    · rw [hsg, hrc] at hm
      exact .inl hm
    · exact .inr hid

theorem header_nonempty {disk : DiskManager} {hdr : DatabaseHeader}
    (h : deserializeDatabaseHeader (disk.page 0) = .ok hdr) : 0 < disk.pageCount := by
  by_contra hnot
  rw [page_of_ge disk (by omega)] at h
  simp only [deserializeDatabaseHeader, ok_iff] at h
  obtain ⟨_, hm, _⟩ := h
  have hb := byteAt_of_hasMagic hm (i := 0) rfl
  simp at hb

/-- With every frame prepared and unpinned the transaction can let go. -/
theorem Coherent.released (h : Coherent e) (hr : e'.frames = e.frames) (hd : e'.disk = e.disk)
    (hc : e'.context = none) (hu : ∀ p f, e.frames.find? p = some f → f.pinCount = 0)
    (hs : ∀ p f, e.frames.find? p = some f → f.pendingWalPreparation = false) : Coherent e' := by
  have hn : ∀ ctx, e'.context ≠ some ctx := by
    intro ctx
    rw [hc]
    simp
  refine ⟨?_, fun ctx hm => absurd hm (hn ctx),
    fun ctx hm => absurd hm (hn ctx), hd ▸ h.nonempty, hd ▸ h.header⟩
  intro p f hf
  rw [hr] at hf
  have ho := h.frames p f hf
  refine ⟨hd ▸ ho.located, ?_, ?_, hd ▸ ho.clean, ho.covered, ho.recorded⟩
  · intro hp
    rw [hs p f hf] at hp
    simp at hp
  · intro hg
    exact absurd (hu p f hf) (ho.guarded hg).1

theorem RolledBack.coherent (h : RolledBack e e' ctx) (hh : Coherent e)
    (hc : e.context = some ctx) : Coherent e' := by
  have ho : ∀ run, e'.context ≠ some run := by
    intro run
    rw [h.idle.1]
    simp
  refine ⟨?_, fun run hm => absurd hm (ho run),
    fun run hm => absurd hm (ho run), header_nonempty h.header, h.header⟩
  intro p f hf
  obtain ⟨hd, hu⟩ := h.remaining p f hf
  have hfr := hh.frames p f hd
  have hn : ¬ Intended e p := by
    rintro ⟨run, s, hr, hs⟩
    rw [hc] at hr
    cases hr
    rw [hu] at hs
    simp at hs
  have hp : p < ctx.startPageCount := by
    by_contra hge
    obtain ⟨s, hs⟩ := hh.grown ctx hc p (by omega) hfr.located.2
    exact hn ⟨ctx, s, hc, hs⟩
  have hpg : e'.disk.page p = e.disk.page p := by
    refine h.alone p hp hfr.located.1 ?_
    intro s hs
    exact absurd ⟨ctx, s, hc, hs⟩ hn
  refine ⟨⟨hfr.located.1, hp.trans_le h.extent⟩, ?_, ?_, ?_, hfr.covered, hfr.recorded⟩
  · intro hpn
    exact absurd (hfr.pending hpn).2 hn
  · intro hg
    exact absurd (hfr.guarded hg).2 hn
  · intro hl
    rw [hpg]
    exact hfr.clean hl

theorem RolledBack.sound (h : RolledBack e e' ctx) (hs : Sound e)
    (hc : e.context = some ctx) : Sound e' := by
  have hn : ∀ run, e'.context ≠ some run := by
    intro run
    rw [h.idle.1]
    simp
  refine ⟨⟨h.coherent hs.ready.coherent hc, h.grows.sound hs.ready.log⟩, ⟨?_, ?_⟩,
    fun run hsm => absurd hsm (hn run)⟩
  · intro r hm
    rw [h.next]
    have hlt := (hs.owned.own ctx hc).1
    rcases h.adds r hm with hm | ⟨hi | hi, _⟩
    · exact hs.owned.ids r hm
    · rw [hi]
      exact hlt
    · rw [hi]
      exact (Nat.zero_le _).trans_lt hlt
  · exact fun run hsm => absurd hsm (hn run)

/-- A state whose transaction let go of its frames. -/
theorem Sound.released (h : Sound e) (ht : e.context = some ctx) (hc : Coherent e')
    (hn : e'.context = none) (hg : LogGrows e.log e'.log)
    (hd : AddsOwn ctx.transactionId e.log e'.log)
    (hx : e'.nextTransactionId = e.nextTransactionId) : Sound e' := by
  have ha : ∀ run, e'.context ≠ some run := by
    intro run
    rw [hn]
    simp
  refine ⟨⟨hc, hg.sound h.ready.log⟩, ⟨?_, fun run hs => absurd hs (ha run)⟩,
    fun run hs => absurd hs (ha run)⟩
  intro r hm
  rw [hx]
  rcases hd r hm with hm | hi
  · exact h.owned.ids r hm
  · rw [hi]
    exact (h.owned.own ctx ht).1

/-- A transaction starts with no write intent, so no frame may have had one. -/
theorem Coherent.begun (h : Coherent e) (hn : e.context = none) {id : Nat} {prot : RollbackProtocol}
    (hr : e'.frames = e.frames) (hd : e'.disk = e.disk)
    (hc : e'.context = some (.start id e.disk.pageCount prot)) : Coherent e' := by
  have ha : ∀ {P : Prop}, (∃ ctx, ∃ s : PageState, e.context = some ctx ∧
      ∃ p, ctx.pages.find? p = some s) → P := by
    rintro _ ⟨ctx, _, hs, _⟩
    rw [hn] at hs
    simp at hs
  refine ⟨?_, ?_, ?_, hd ▸ h.nonempty, hd ▸ h.header⟩
  · intro p f hf
    rw [hr] at hf
    have ho := h.frames p f hf
    refine ⟨hd ▸ ho.located, ?_, ?_, hd ▸ ho.clean, ho.covered, ho.recorded⟩
    · intro hp
      obtain ⟨_, ctx, s, hs, ht⟩ := ho.pending hp
      exact ha ⟨ctx, s, hs, p, ht⟩
    · intro hg
      obtain ⟨_, ctx, s, hs, ht⟩ := ho.guarded hg
      exact ha ⟨ctx, s, hs, p, ht⟩
  · intro ctx hs
    rw [hc] at hs
    cases hs
    refine ⟨Nat.le_of_eq (by rw [hd]; rfl), ?_⟩
    intro p s ht
    simp [start] at ht
  · intro ctx hs p hle hlt
    rw [hc] at hs
    cases hs
    rw [hd] at hlt
    exact absurd hlt hle.not_gt

theorem Sound.begin {prot : RollbackProtocol} (h : Sound e)
    (hb : e.beginTransaction prot = .ok e') : Sound e' := by
  simp only [beginTransaction, ok_iff] at hb
  obtain ⟨_, hi, _, _, _, _, _, _, rfl⟩ := hb
  have hn : e.context = none := by simpa using hi
  refine ⟨⟨h.ready.coherent.begun hn rfl rfl rfl, h.ready.log⟩, ⟨?_, ?_⟩, ?_⟩
  · intro r hm
    exact Nat.lt_succ_of_lt (h.owned.ids r hm)
  · intro ctx hc
    cases hc
    refine ⟨Nat.lt_succ_self _, ⟨?_, ?_⟩, ?_⟩
    · intro _
      refine ⟨rfl, ?_⟩
      refine filter_eq_nil_iff.mpr ?_
      intro r hm hs
      exact (h.owned.ids r hm).ne (of_decide_eq_true hs)
    · intro begin hb
      simp [start] at hb
    · intro p s ht
      simp [start] at ht
  · intro ctx hc p rsv hr
    cases hc
    simp [start] at hr

theorem Sound.commit (h : Sound e) (hc : e.commitStatement = .ok e') : Sound e' := by
  simp only [commitStatement, bind_ok] at hc
  obtain ⟨prep, hp, hc⟩ := hc
  have hr := prepareStatement_prepared h.ready hp
  have hs := h.effects hr.effects
  split at hc
  · simp at hc
  · rename_i ctx ht
    split at hc
    · simp only [pure_ok] at hc
      subst hc
      exact hs.released ht (hs.ready.coherent.released rfl rfl rfl hr.unpinned
        hr.settled) rfl .refl (fun _ hm => .inl hm) rfl
    · simp only [ok_iff, Prod.exists] at hc
      obtain ⟨_, log, lsn, ha, frc, hf, rfl⟩ := hc
      have hg := (appendTransactionRecord_grows ha).tail (.flush hf)
      refine hs.released ht (hs.ready.coherent.released rfl rfl rfl
        hr.unpinned hr.settled) rfl hg ?_ rfl
      intro r hm
      exact appendTransactionRecord_addsOwn ha r ((flushUpTo_fields hf).1 ▸ hm)

theorem ensureBoundaryLogged_ok (h : e.ensureBoundaryLogged ctx = .ok (ctx', log)) :
    (ctx' = ctx ∧ log = e.log ∧ ¬ (ctx.beginLsn = none ∧ ctx.startPageCount < e.disk.pageCount)) ∨
    (ctx.startPageCount < e.disk.pageCount ∧ ctx.ensureBeginLogged e.log = .ok (ctx', log)) := by
  unfold ensureBoundaryLogged at h
  split at h
  · rename_i hn
    exact .inr ⟨hn.2, h⟩
  · rename_i hn
    simp only [ok_iff] at h
    exact .inl ⟨h.1.symm, h.2.symm, by simpa using hn⟩

theorem ensureBoundaryLogged_keeps (h : e.ensureBoundaryLogged ctx = .ok (ctx', log)) :
    Continues ctx ctx' := by
  rcases ensureBoundaryLogged_ok h with ⟨rfl, _⟩ | ⟨_, hb⟩
  · exact ⟨.refl _, rfl⟩
  · exact (ensureBeginLogged_keeps hb).1

/-- The state undo starts from: the boundary of appended pages is in the log. -/
theorem Sound.boundary (h : Sound e) (hc : e.context = some ctx)
    (hn : e.ensureBoundaryLogged ctx = .ok (ctx', log)) :
    Sound { e with rollbackActive := true, log := log, context := some ctx' } := by
  rcases ensureBoundaryLogged_ok hn with ⟨rfl, rfl, _⟩ | ⟨_, hb⟩
  · refine ⟨⟨h.ready.coherent.relog rfl rfl (.inl hc.symm), h.ready.log⟩,
      h.owned.quiet rfl hc.symm rfl, ?_⟩
    exact h.reserves.of_same hc rfl rfl fun p rsv hf =>
      .inr ⟨rsv, hf⟩
  · obtain ⟨⟨⟨hi, _, hsr⟩, hp⟩, hrs⟩ := ensureBeginLogged_keeps hb
    refine ⟨⟨h.ready.coherent.relog rfl rfl (.inr ⟨ctx, ctx', hc, rfl, hsr, hp⟩),
      (ensureBeginLogged_grows hb).sound h.ready.log⟩, ?_, ?_⟩
    · exact h.owned.context hc rfl hi rfl ((h.owned.own ctx hc).2.begun hb)
        (ensureBeginLogged_addsOwn hb)
    · refine h.reserves.of_same hc rfl hsr ?_
      intro p rsv hf
      exact .inr ⟨rsv, hrs ▸ hf⟩

/-- What a rollback that returned normally went through. -/
structure RollbackRun (e e' : Engine) (context : TransactionContext) : Prop where
  start : e.context = some context
  run : ∃ (prepared : Engine) (held boundary : TransactionContext) (log : LogManager),
    Prepared e prepared ∧ Prepares e prepared ∧ prepared.context = some held ∧
    prepared.ensureBoundaryLogged held = .ok (boundary, log) ∧
    ((boundary.beginLsn = none ∧
        e' = { prepared with rollbackActive := false, log := log, context := none }) ∨
      (boundary.beginLsn.isSome ∧ RolledBack
        { prepared with rollbackActive := true, log := log, context := some boundary } e' boundary))

theorem rollbackStatement_run (h : Sound e) (hr : e.rollbackStatement = .ok e') :
    ∃ ctx, RollbackRun e e' ctx := by
  unfold rollbackStatement at hr
  split at hr
  · simp at hr
  · rename_i ctx hc
    simp only [bind_ok] at hr
    obtain ⟨_, _, prep, hp, hr⟩ := hr
    have hpr := prepareStatement_prepared h.ready hp
    have hs := h.effects hpr.effects
    refine ⟨ctx, hc, prep, ?_⟩
    unfold rollbackPrepared at hr
    split at hr
    · simp at hr
    · rename_i held hh
      simp only [bind_ok, Prod.exists] at hr
      obtain ⟨bnd, log, hn, hu⟩ := hr
      refine ⟨held, bnd, log, hpr, prepareStatement_prepares hp, hh, hn, ?_⟩
      cases hb : bnd.beginLsn with
      | none =>
        simp only [undoActive, hb, pure_ok] at hu
        exact .inl ⟨rfl, hu.symm⟩
      | some begin =>
        exact .inr ⟨rfl, undoActive_rolledBack (hs.boundary hh hn) rfl hb hu⟩

theorem Sound.rollback (h : Sound e) (hrb : e.rollbackStatement = .ok e') : Sound e' := by
  obtain ⟨ctx, _, prep, held, bnd, log, hp, _, hh, hb, hc⟩ :=
    rollbackStatement_run h hrb
  have hs := h.effects hp.effects
  have hr := hs.boundary hh hb
  rcases hc with ⟨hg, rfl⟩ | ⟨_, hl⟩
  · refine hr.released rfl (hs.ready.coherent.released rfl rfl rfl hp.unpinned
      hp.settled) rfl .refl (fun _ hm => .inl hm) rfl
  · exact hl.sound hr rfl

theorem Sound.step {op : EngineOp} (h : Sound e) (hs : e.step op = .ok e') : Sound e' := by
  by_cases ho : op.Inside
  · exact h.effects (step_effects h.ready ho hs)
  · cases op with
    | begin prot => exact h.begin hs
    | commit => exact h.commit hs
    | rollback => exact h.rollback hs
    | _ => exact absurd trivial ho

theorem Opened.sound (h : e.Opened) : Sound e := by
  have hn : ∀ {P : Prop} {p : Nat} {f : Frame}, e.frames.find? p = some f → P := by
    intro P p f hf
    rw [h.frames, find?_empty] at hf
    simp at hf
  have hi : ∀ {P : Prop} {ctx : TransactionContext}, e.context = some ctx → P := by
    intro P ctx hc
    rw [h.context] at hc
    simp at hc
  exact ⟨⟨⟨fun _ _ hf => hn hf, fun _ hc => hi hc,
    fun _ hc => hi hc, header_nonempty h.header, h.header⟩, h.log⟩,
    ⟨h.ids, fun _ hc => hi hc⟩, fun _ hc => hi hc⟩

/-- Every state a run reaches is sound. -/
theorem run_sound {initial : Engine} {ops : List EngineOp} (h : initial.Opened)
    (hr : initial.run ops = .ok e) : Sound e :=
  foldlM_preserves (P := Sound) (fun _ _ _ _ hs ht => hs.step ht) (Opened.sound h) hr

end MiniDb
