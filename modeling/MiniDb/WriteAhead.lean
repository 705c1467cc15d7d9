import MiniDb.PageReplay
import MiniDb.StatementBoundary

/-!
The write-ahead rule. A page image that reaches the file differs from what the
file had by update records that are durable already. A frame with a recLSN keeps
the reason with it: the update records since the page was last written bring the
file's contents to the recorded ones, and none of them is beyond the PageLSN the
pool forces before it writes.
-/
namespace MiniDb
open ByteBlock Outcome Engine DurableFile TransactionContext

variable {e e' : Engine} {f f' : Frame} {log : LogManager} {p : Nat} {st : PageState}
  {ctx ctx' : TransactionContext}

/-- The changes from `before` to `image` are in durable update records: the last
ones of the page that the log has, replayed on `before`, give `image`. -/
def ChangesDurable (log : LogManager) (p : Nat) (before image : Page) : Prop :=
  ∃ older recent, log.records = older ++ recent ∧
    (∀ record ∈ recent, record.payload.updatedPage = some p → log.IsDurable record.lsn) ∧
    replay p recent (normalized before) = normalized image

def Engine.writeIntent (e : Engine) (p : Nat) : Option PageState :=
  e.context.bind (·.pages.find? p)

/-- What the log says a resident page holds. -/
def recordedContents (e : Engine) (p : Nat) (f : Frame) : Page :=
  (e.writeIntent p).elim (normalized f.data) PageState.current

/-- The update records from some point on bring the file to the recorded contents,
and the PageLSN of the frame is not before any of them. -/
def FrameLogged (e : Engine) (p : Nat) (f : Frame) : Prop :=
  f.recLsn.isSome → ∃ older recent lsn, e.log.records = older ++ recent ∧ f.pageLsn = some lsn ∧
    (∀ record ∈ recent, record.payload.updatedPage = some p → record.lsn ≤ lsn) ∧
    replay p recent (normalized (e.disk.page p)) = recordedContents e p f

def FramesLogged (e : Engine) : Prop :=
  ∀ p f, e.frames.find? p = some f → FrameLogged e p f

theorem FrameLogged.of_clean (h : f.recLsn = none) : FrameLogged e p f := by
  intro hs
  simp [h] at hs

/-- A frame whose page got no record and was not written. -/
theorem FrameLogged.quiet (h : FrameLogged e p f) (hg : QuietOn p e.log e'.log)
    (hp : e'.disk.page p = e.disk.page p) (hr : f'.recLsn.isSome → f.recLsn.isSome)
    (hl : ∀ lsn, f.pageLsn = some lsn → ∃ lsn', f'.pageLsn = some lsn' ∧ lsn ≤ lsn')
    (hc : recordedContents e' p f' = recordedContents e p f) : FrameLogged e' p f' := by
  intro hs
  obtain ⟨older, recent, lsn, hrc, hpg, hb, hrp⟩ := h (hr hs)
  obtain ⟨added, ha, hq⟩ := hg
  obtain ⟨lsn', hl', hle⟩ := hl lsn hpg
  refine ⟨older, recent ++ added, lsn', by rw [ha, hrc, List.append_assoc], hl', ?_, ?_⟩
  · intro r hm hu
    rcases List.mem_append.mp hm with hm | hm
    · exact (hb r hm hu).trans hle
    · exact absurd hu (hq r hm)
  · rw [replay_append, replay_quiet hq, hp, hc, hrp]

theorem IntentsAgree.writeIntent {q : Nat} (h : IntentsAgree e e' p) (hq : q ≠ p) :
    e'.writeIntent q = e.writeIntent q := by
  cases h with
  | idle hi hi' => simp only [Engine.writeIntent, hi, hi']
  | running hr hr' hs =>
    simp only [Engine.writeIntent, hr, hr', Option.bind_some, hs.pages q hq]

theorem recordedContents_congr (hi : e'.writeIntent p = e.writeIntent p) (hd : f'.data = f.data) :
    recordedContents e' p f' = recordedContents e p f := by
  rw [recordedContents, recordedContents, hi, hd]

theorem recordedContents_touched (h : e.writeIntent p = some st) :
    recordedContents e p f = st.current := by
  rw [recordedContents, h]
  rfl

theorem recordedContents_untouched (h : e.writeIntent p = none) :
    recordedContents e p f = normalized f.data := by
  rw [recordedContents, h]
  rfl

/-- An effect at one page leaves the records of all other frames alone. -/
theorem FramesLogged.update (p : Nat) (h : FramesLogged e)
    (hs : ∀ q, q ≠ p → e'.frames.find? q = e.frames.find? q)
    (hp : ∀ q, q ≠ p → e'.disk.page q = e.disk.page q) (hi : IntentsAgree e e' p)
    (hl : ∀ q, q ≠ p → QuietOn q e.log e'.log)
    (hr : ∀ f, e'.frames.find? p = some f → FrameLogged e' p f) : FramesLogged e' := by
  intro q f hf
  by_cases hq : q = p
  · subst hq
    exact hr f hf
  · rw [hs q hq] at hf
    exact (h q f hf).quiet (hl q hq) (hp q hq) id (fun lsn hls => ⟨lsn, hls, le_rfl⟩)
      (recordedContents_congr (hi.writeIntent hq) rfl)

/-- A frame that changed its marks or its unrecorded bytes. -/
theorem FramesLogged.reframe (h : FramesLogged e) (hf : e.frames.find? p = some f)
    (hr : f'.recLsn = f.recLsn) (hl : f'.pageLsn = f.pageLsn)
    (hd : f'.data = f.data ∨ (e.writeIntent p).isSome) : FramesLogged (e.setFrame p f') := by
  refine h.update p (fun q hq => by simp [hq]) (fun _ _ => rfl) (.of_context p rfl)
    (fun q _ => .of_records q rfl) ?_
  intro g hg
  obtain rfl := SortedMap.eq_of_find?_insert hg
  refine (h p f hf).quiet (.of_records p rfl) rfl (fun hm => hr ▸ hm)
    (fun lsn ho => ⟨lsn, hl.trans ho, le_rfl⟩) ?_
  rcases hd with hd | ht
  · exact recordedContents_congr rfl hd
  · obtain ⟨st, hs⟩ := Option.isSome_iff_exists.mp ht
    rw [recordedContents_touched hs]
    exact recordedContents_touched hs

theorem Coherent.touched (h : Intended e p) : (e.writeIntent p).isSome := by
  obtain ⟨ctx, st, hc, hs⟩ := h
  simp [writeIntent, hc, hs]

theorem FramesLogged.intended (h : FramesLogged e) (hh : Coherent e) (hc : e.context = some ctx)
    (hf : e.frames.find? p = some f) (hi : ctx.notePageWriteIntent p f.data = .ok ctx') :
    FramesLogged ({ e with context := some ctx' }.setFrame p
      { f with dirty := true, pendingWalPreparation := true, writeGuarded := true }) := by
  refine h.update p (fun q hq => by simp [hq]) (fun _ _ => rfl)
    (.running hc rfl (notePageWriteIntent_same hi)) (fun q _ => .of_records q rfl) ?_
  intro g hg
  obtain rfl := SortedMap.eq_of_find?_insert hg
  refine (h p f hf).quiet (.of_records p rfl) rfl id (fun lsn hl => ⟨lsn, hl, le_rfl⟩) ?_
  rcases notePageWriteIntent_ok hi with
    ⟨st, hs, rfl⟩ | ⟨hn, st, hr, rfl⟩
  · have ho : e.writeIntent p = some st := by
      simp [writeIntent, hc, hs]
    rw [recordedContents_touched ho]
    refine recordedContents_touched ?_
    simp [writeIntent, setFrame, hs]
  · -- the page was there when the transaction began, so its frame is its before-image
    have ho : e.writeIntent p = none := by simp [writeIntent, hc, hn]
    have hsr : p < ctx.startPageCount := by
      by_contra hge
      obtain ⟨st, hs⟩ := hh.grown ctx hc p (not_lt.mp hge) (hh.frames p f hf).located.2
      rw [hn] at hs
      simp at hs
    obtain ⟨_, hb, ha, _⟩ := intentState_ok hr
    rw [recordedContents_untouched ho]
    refine Eq.trans (b := st.current) (recordedContents_touched ?_) ?_
    · simp [writeIntent, setFrame, setPage]
    · rw [PageState.current, ha, hb, if_pos hsr]
      rfl

/-- The update records since a page was last written lead to what its write intent
has recorded, whether or not its frame has a recLSN yet. -/
theorem FramesLogged.since (h : FramesLogged e) (hh : Coherent e) (hc : e.context = some ctx)
    (hf : e.frames.find? p = some f) (hs : ctx.pages.find? p = some st) :
    ∃ older recent, e.log.records = older ++ recent ∧
      (∀ record ∈ recent, record.payload.updatedPage = some p →
        ∃ lsn, f.pageLsn = some lsn ∧ record.lsn ≤ lsn) ∧
      replay p recent (normalized (e.disk.page p)) = st.current := by
  cases hr : f.recLsn with
  | some rec =>
    obtain ⟨older, recent, lsn, hrc, hp, hb, hbs⟩ := h p f hf (by simp [hr])
    refine ⟨older, recent, hrc, ?_, ?_⟩
    · exact fun record hm hu => ⟨lsn, hp, hb record hm hu⟩
    · rw [hbs]
      exact recordedContents_touched (by simp [writeIntent, hc, hs])
  | none =>
    refine ⟨e.log.records, [], by simp, by simp, ?_⟩
    refine ((hh.intents ctx hc).2 p st hs).2.stored ?_
    rintro ⟨g, hg, hgr⟩
    rw [hf] at hg
    cases hg
    simp [hr] at hgr

/-- The PageLSN of a prepared frame: at least the one before, and the record of
the preparation if there is one. -/
theorem preparedFrame_pageLsn {data : Page} {lsn : Option Nat}
    (h : preparedFrame log f data lsn = .ok f') :
    (∀ old, f.pageLsn = some old → ∃ new, f'.pageLsn = some new ∧ old ≤ new) ∧
      ∀ new, lsn = some new → f'.pageLsn = some new := by
  cases lsn with
  | none =>
    simp only [preparedFrame, Except.ok.injEq] at h
    subst h
    exact ⟨fun old ho => ⟨old, ho, le_rfl⟩, by simp⟩
  | some lsn =>
    obtain ⟨_, hf, _, _, _, _, _, hp, _⟩ := assignPreparedLsn_ok h
    exact ⟨fun old ho => ⟨lsn, hp, hf old ho⟩, by simp [hp]⟩

/-- A preparation records what the frame holds, in the log it leaves. -/
theorem FramesLogged.prepared (h : FramesLogged e) (hh : Coherent e) {prepared : PreparedPage}
    (hc : e.context = some ctx) (hf : e.frames.find? p = some f) (hd : f.dirty = true)
    (hp : ctx.preparePageForWrite e.log e.updateMode
      e.disk.databaseHeader.formatVersion p f.data = .ok prepared)
    (hr : preparedFrame prepared.log f prepared.page prepared.lsn = .ok f') :
    FramesLogged
      ({ e with context := some prepared.context, log := prepared.log }.setFrame p f') := by
  have ho := preparePageForWrite_outcome hp
  refine h.update p (fun q hq => by simp [hq]) (fun _ _ => rfl)
    (.running hc rfl ho.same) (fun q hq => prepareOutcome_quiet ho hq) ?_
  intro g hg
  obtain rfl := SortedMap.eq_of_find?_insert hg
  cases hs : ctx.pages.find? p with
  | none =>
    -- a dirty page of an earlier transaction that this one has not taken
    obtain rfl : prepared = ⟨ctx, e.log, f.data, none⟩ := by
      cases ho with
      | absent => rfl
      | unchanged hsm | logged hsm => simp [hs] at hsm
    simp only [preparedFrame, Except.ok.injEq] at hr
    subst hr
    refine (h p f hf).quiet (.of_records p rfl) rfl id
      (fun lsn hl => ⟨lsn, hl, le_rfl⟩) (recordedContents_congr ?_ rfl)
    simp [writeIntent, setFrame, hc]
  | some st =>
    intro hsm
    obtain ⟨added, ha, hrp, hls⟩ := prepareOutcome_replays ho hs
    obtain ⟨st', hs'⟩ := prepareOutcome_touched ho ⟨st, hs⟩
    obtain ⟨hcr, _⟩ := prepareOutcome_current ho hs'
      (fun old hold => ((hh.intents ctx hc).2 p old hold).2.paired)
    obtain ⟨older, recent, hrc, hb, hbs⟩ := h.since hh hc hf hs
    obtain ⟨hfo, hn⟩ := preparedFrame_pageLsn hr
    obtain ⟨lsn, hl⟩ : ∃ lsn, f'.pageLsn = some lsn := by
      cases hp' : prepared.lsn with
      | some lsn => exact ⟨lsn, hn lsn hp'⟩
      | none =>
        have hsa := (preparedFrame_eq_ok hd hr).2.2.2.2.2.2 hp'
        obtain ⟨_, _, old, _, hold, _⟩ := h p f hf (hsa ▸ hsm)
        obtain ⟨lsn, hl, _⟩ := hfo old hold
        exact ⟨lsn, hl⟩
    refine ⟨older, recent ++ added, lsn, ?_, hl, ?_, ?_⟩
    · simp [setFrame, ha, hrc]
    · intro record hm hu
      rcases List.mem_append.mp hm with hm | hm
      · obtain ⟨old, hold, hle⟩ := hb record hm hu
        obtain ⟨_, hl', hle'⟩ := hfo old hold
        rw [hl] at hl'
        cases hl'
        exact hle.trans hle'
      · have heq := (hn _ (hls record hm hu)).symm.trans hl
        exact (Option.some.inj heq).le
    · rw [replay_append]
      show replay p added (replay p recent (normalized (e.disk.page p))) = _
      have ht : recordedContents
          ({ e with context := some prepared.context, log := prepared.log }.setFrame p f') p f' =
            st'.current :=
        recordedContents_touched (by simp [writeIntent, setFrame, hs'])
      rw [hbs, ht, hcr]
      exact hrp

theorem FramesLogged.wroteBack (h : FramesLogged e) :
    FramesLogged ({ e with disk := e.disk.perform (.write p f.data) }.setFrame p
      { f with dirty := false, recLsn := none }) := by
  refine h.update p (fun q hq => by simp [hq]) ?_ (.of_context p rfl)
    (fun q _ => .of_records q rfl) ?_
  · exact fun q hq => (page_perform_write e.disk p q f.data).trans (if_neg hq)
  · intro g hg
    obtain rfl := SortedMap.eq_of_find?_insert hg
    exact .of_clean rfl

theorem FramesLogged.appended (h : FramesLogged e) {confirmed : TransactionContext}
    (hc : e.context = some ctx)
    (hn : ctx.notePhysicalPageAppend e.log e.disk.pageCount = .ok confirmed)
    (hin : confirmed.notePageWriteIntent e.disk.pageCount zero = .ok ctx') :
    FramesLogged (e.extended ctx') := by
  have hs := (notePhysicalPageAppend_keeps hn).1.sameAfter (notePageWriteIntent_same hin)
  refine h.update e.disk.pageCount (fun q hq => by simp [hq]) ?_ (.running hc rfl hs)
    (fun q _ => .of_records q rfl) ?_
  · exact fun q hq => (page_perform_write e.disk _ q zero).trans (if_neg hq)
  · intro g hg
    obtain rfl := SortedMap.eq_of_find?_insert hg
    exact .of_clean rfl

/-- An effect on page 0, which is never resident, or on no page at all. -/
theorem FramesLogged.header (h : FramesLogged e) (hc : Coherent e) (hr : e'.frames = e.frames)
    (hp : ∀ q, q ≠ 0 → e'.disk.page q = e.disk.page q) (hi : IntentsAgree e e' 0)
    (hl : ∀ q, q ≠ 0 → QuietOn q e.log e'.log) : FramesLogged e' := by
  refine h.update 0 (fun q _ => by rw [hr]) hp hi hl ?_
  intro f hf
  rw [hr] at hf
  exact absurd rfl (hc.frames 0 f hf).located.1

theorem FramesLogged.effect (h : FramesLogged e) (hh : Coherent e) (he : Effect e e') :
    FramesLogged e' := by
  cases he with
  | pool he =>
    cases he with
    | repinned pins guarded hf hr => exact h.reframe hf rfl rfl (.inl rfl)
    | @loaded p hf hp =>
      refine h.update p (fun q hq => by simp [installPage, hq]) (fun _ _ => rfl)
        (.of_context p rfl) (fun q _ => .of_records q rfl) ?_
      intro g hg
      simp only [installPage, find?_setFrame_self, Option.some.injEq] at hg
      subst hg
      exact .of_clean rfl
    | @evicted p f hf hcln =>
      refine h.update p (fun q hq => by simp [hq]) (fun _ _ => rfl) (.of_context p rfl)
        (fun q _ => .of_records q rfl) ?_
      intro g hg
      simp at hg
    | prepared hc hf hdty hprep hfr =>
      exact h.prepared hh hc hf hdty hprep hfr
    | forced lsn hlog =>
      exact h.header hh rfl (fun _ _ => rfl) (.of_context 0 rfl)
        (fun q _ => .of_records q (flushUpTo_fields hlog).1)
    | wroteBack hf hp hval hdur => exact h.wroteBack
  | intended hc hf hpin hint => exact h.intended hh hc hf hint
  | mutated data hf hr =>
    exact h.reframe hf rfl rfl (.inr (Coherent.touched ((hh.frames _ _ hf).guarded hr).2))
  | @reserved ctx ctx' log lsn hc hrsvd =>
    have hk := prepareForPhysicalPageAppend_keeps hrsvd
    exact h.header hh rfl (fun _ _ => rfl) (.running hc rfl (hk.same 0))
      (fun q _ => .reserved q hrsvd)
  | appended hc hroom hconf hint => exact h.appended hc hconf hint
  | headerIntended hc hexists hint =>
    exact h.header hh rfl (fun _ _ => rfl) (.running hc rfl (notePageWriteIntent_same hint))
      (fun q _ => .of_records q rfl)
  | persisted hdr hc hst hexists hprep hlog hdisk =>
    have ho := preparePageForWrite_outcome hprep
    refine h.header hh rfl ?_ (.running hc rfl ho.same) ?_
    · exact fun q hq => ((writePhysicalPage_wrote hdisk).pages q).trans (if_neg hq)
    · exact fun q hq => (prepareOutcome_quiet ho hq).trans
        (.of_records q (flushUpToIfValid_records hlog))
  | @bounded ctx hc hpins hset =>
    have hb : e.markSafeBoundary.context = some { ctx with safeBoundary := true } := by
      simp only [markSafeBoundary, hc, Option.map_some]
    exact h.header hh rfl (fun _ _ => rfl) (.running hc hb ⟨⟨rfl, rfl, rfl⟩, fun _ _ => rfl⟩)
      (fun q _ => .of_records q rfl)

theorem FramesLogged.effects (h : FramesLogged e) (hc : Coherent e) (he : Effects e e') :
    FramesLogged e' := by
  induction he with
  | refl => exact h
  | tail hbef heff ih => exact ih.effect (hc.effects hbef) heff

theorem WrotePage.file {disk disk' : DiskManager} {pg : Page} (h : WrotePage disk disk' p pg)
    (hp : p < disk.pageCount) : disk'.file = disk.file.perform (.write p pg) := by
  obtain ⟨added, hn, ho⟩ := h.pending
  have hno : added = [] := by
    refine List.eq_nil_iff_forall_not_mem.mpr ?_
    intro op hop
    obtain ⟨q, hl, hh, _⟩ := ho op hop
    omega
  rw [hno, List.append_nil] at hn
  show BufferedFile.mk _ _ = _
  rw [BufferedFile.perform, hn, h.durable]

theorem ChangesDurable.refl {bef img : Page} (h : SameContents bef img) :
    ChangesDurable log p bef img :=
  ⟨log.records, [], by simp, by simp, h⟩

/-- Once every frame is prepared the context can go: the frames hold what is recorded. -/
theorem FramesLogged.released (h : FramesLogged e) (hc : Coherent e) (hs : Settled e)
    (hfr : e'.frames = e.frames) (hd : e'.disk = e.disk) (ht : e'.context = none)
    (hl : ∀ q, QuietOn q e.log e'.log) : FramesLogged e' := by
  intro p f hf
  rw [hfr] at hf
  refine (h p f hf).quiet (hl p) (by rw [hd]) id (fun lsn hls => ⟨lsn, hls, le_rfl⟩) ?_
  rw [recordedContents_untouched (by simp [writeIntent, ht])]
  cases hi : e.writeIntent p with
  | none => rw [recordedContents_untouched hi]
  | some st =>
    rw [recordedContents_touched hi]
    obtain ⟨ctx, hr, hst⟩ := Option.bind_eq_some_iff.mp hi
    exact ((hc.intents ctx hr).2 p st hst).2.settled f hf (hs p f hf)

theorem FramesLogged.begin {prot : RollbackProtocol} (h : FramesLogged e)
    (hb : e.beginTransaction prot = .ok e') : FramesLogged e' ∧ e'.disk = e.disk := by
  simp only [beginTransaction, ok_iff] at hb
  obtain ⟨_, hi, _, _, _, _, _, _, rfl⟩ := hb
  refine ⟨?_, rfl⟩
  intro p f hf
  refine (h p f hf).quiet (.of_records p rfl) rfl id
    (fun lsn hl => ⟨lsn, hl, le_rfl⟩) (recordedContents_congr ?_ rfl)
  have hn : e.context = none := by simpa using hi
  simp [writeIntent, hn, start]

/-- A commit prepares its pages, then appends and forces one record. -/
theorem FramesLogged.commit (h : FramesLogged e) (hs : Sound e) (hc : e.commitStatement = .ok e') :
    FramesLogged e' ∧ ∃ prep, Effects e prep ∧ e'.disk = prep.disk := by
  simp only [commitStatement, bind_ok] at hc
  obtain ⟨prep, hp, hc⟩ := hc
  have hr := prepareStatement_prepared hs.ready hp
  have hl := h.effects hs.ready.coherent hr.effects
  have hh := (hs.effects hr.effects).ready.coherent
  split at hc
  · simp at hc
  · split at hc
    · simp only [pure_ok] at hc
      subst hc
      exact ⟨hl.released hh hr.settled rfl rfl rfl
        (fun q => .of_records q rfl), prep, hr.effects, rfl⟩
    · simp only [ok_iff, Prod.exists] at hc
      obtain ⟨_, app, lsn, ha, log, hf, rfl⟩ := hc
      refine ⟨hl.released hh hr.settled rfl rfl rfl ?_, prep, hr.effects, rfl⟩
      intro q
      refine (QuietOn.appendTransactionRecord ?_ ha).trans (.of_records q (flushUpTo_fields hf).1)
      simp [LogPayload.updatedPage, LogPayload.pageUpdateIdentity]

/-- A log that gained records of undo only. -/
theorem QuietOn.undone {log' : LogManager} {tid : Nat} (hs : LogSound log)
    (hg : LogGrows log log') (ha : ∀ r ∈ log'.records,
      r ∈ log.records ∨ UndoRecord tid r) (p : Nat) : QuietOn p log log' := by
  obtain ⟨added, hex⟩ := hg.extends
  refine ⟨added, hex.records, ?_⟩
  intro r hm
  have hlt := (contiguous_bounds hex.placed hm).1
  rcases ha r (by rw [hex.records]; exact List.mem_append_right _ hm) with ho | hn
  · exact absurd (hs.placed.lsn_lt ho).2 hlt.not_gt
  · simp [LogPayload.updatedPage, hn.noUpdate]

/-- After an undo the frames that are left belong to pages it did not touch. -/
theorem FramesLogged.rolledBack (h : FramesLogged e) (hs : Sound e)
    (hct : e.context = some ctx) (hr : RolledBack e e' ctx) : FramesLogged e' := by
  intro p f hf
  obtain ⟨ho, hu⟩ := hr.remaining p f hf
  have hc := hs.ready.coherent
  have hlc := (hc.frames p f ho).located
  have hsr : p < ctx.startPageCount := by
    by_contra hge
    obtain ⟨st, ht⟩ := hc.grown ctx hct p (not_lt.mp hge) hlc.2
    rw [hu] at ht
    simp at ht
  refine (h p f ho).quiet (.undone hs.ready.log hr.grows hr.adds p) ?_ id
    (fun lsn hl => ⟨lsn, hl, le_rfl⟩) (recordedContents_congr ?_ rfl)
  · refine hr.alone p hsr hlc.1 ?_
    intro st ht
    rw [hu] at ht
    simp at ht
  · simp [writeIntent, hr.idle.1, hct, hu]

theorem FramesLogged.boundary (h : FramesLogged e) (hc : e.context = some ctx)
    (hb : e.ensureBoundaryLogged ctx = .ok (ctx', log)) :
    FramesLogged { e with rollbackActive := true, log := log, context := some ctx' } := by
  have hp := (ensureBoundaryLogged_keeps hb).pages
  intro p f hf
  refine (h p f hf).quiet ?_ rfl id (fun lsn hl => ⟨lsn, hl, le_rfl⟩)
    (recordedContents_congr ?_ rfl)
  · rcases ensureBoundaryLogged_ok hb with ⟨_, rfl, _⟩ | ⟨_, hg⟩
    · exact .of_records p rfl
    · exact .ensureBeginLogged p hg
  · simp [writeIntent, hc, hp]

theorem FramesLogged.rollback (h : FramesLogged e) (hs : Sound e)
    (hr : e.rollbackStatement = .ok e') : FramesLogged e' := by
  obtain ⟨ctx, _, prep, held, bnd, log, hp, _, hh, hb, hc⟩ :=
    rollbackStatement_run hs hr
  have hl := h.effects hs.ready.coherent hp.effects
  have hs' := hs.effects hp.effects
  have hn := hl.boundary hh hb
  rcases hc with ⟨_, rfl⟩ | ⟨_, hrl⟩
  · exact hn.released (hs'.boundary hh hb).ready.coherent hp.settled
      rfl rfl rfl (fun q => .of_records q rfl)
  · exact hn.rolledBack (hs'.boundary hh hb) rfl hrl

theorem FramesLogged.retire (h : FramesLogged e)
    (ht : e.retireCheckpointCoveredDependencies = .ok e') : FramesLogged e' := by
  refine retire_induction ht h ?_
  intro s p f hs hf
  obtain ⟨hd, _, _, _, hr, _⟩ := retiredFrame_keeps f
  refine hs.reframe hf hr ?_ (.inl hd)
  unfold retiredFrame
  split <;> rfl

/-- A call that reaches the pool: an operation of the engine, or what a checkpoint
does to it besides flushing. -/
inductive PoolCall
  | run (op : EngineOp)
  | sync
  | retire

def PoolCall.perform (e : Engine) : PoolCall → Result Engine
  | .run op => e.step op
  | .sync => .ok { e with disk := e.disk.sync }
  | .retire => e.retireCheckpointCoveredDependencies

/-- The states between calls. A call that failed leaves the effects it had. -/
inductive Reached (initial : Engine) : Engine → Prop
  | opened : Reached initial initial
  | returned {e e' : Engine} (call : PoolCall) (h : Reached initial e)
      (hcall : call.perform e = .ok e') : Reached initial e'
  | failed {e e' : Engine} (h : Reached initial e) (heffects : Effects e e') : Reached initial e'

theorem FramesLogged.step {op : EngineOp} (h : FramesLogged e) (hs : Sound e)
    (ht : e.step op = .ok e') : FramesLogged e' := by
  by_cases ho : op.Inside
  · exact h.effects hs.ready.coherent (step_effects hs.ready ho ht)
  · cases op with
    | begin prot => exact (h.begin ht).1
    | commit => exact (h.commit hs ht).1
    | rollback => exact h.rollback hs ht
    | _ => exact absurd trivial ho

theorem FramesLogged.resync (h : FramesLogged e) : FramesLogged { e with disk := e.disk.sync } := by
  intro p f hf
  exact (h p f hf).quiet (.of_records p rfl) rfl id
    (fun lsn hl => ⟨lsn, hl, le_rfl⟩) (recordedContents_congr rfl rfl)

/-- Between calls the engine is sound and its frames are covered by the log. -/
theorem Reached.logged {initial : Engine} (ho : initial.Opened) (h : Reached initial e) :
    Sound e ∧ FramesLogged e := by
  induction h with
  | opened =>
    refine ⟨Opened.sound ho, ?_⟩
    intro p f hf
    rw [ho.frames, SortedMap.find?_empty] at hf
    simp at hf
  | returned call _ hcall ih =>
    obtain ⟨hs, hl⟩ := ih
    cases call with
    | run op => exact ⟨hs.step hcall, hl.step hs hcall⟩
    | sync =>
      simp only [PoolCall.perform, Except.ok.injEq] at hcall
      subst hcall
      exact ⟨hs.resync (fun _ => rfl) rfl rfl, hl.resync⟩
    | retire =>
      exact ⟨(Unmoved.retire hs (retire_settled hcall) hcall).sound, hl.retire hcall⟩
  | failed _ heffs ih =>
    obtain ⟨hs, hl⟩ := ih
    exact ⟨hs.effects heffs, hl.effects hs.ready.coherent heffs⟩

end MiniDb
