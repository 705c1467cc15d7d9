import MiniDb.LiveRollback

/-!
The LSNs of frames and write intents name records of the log, and the LSN of a
frame is never ahead of the last record of its page. So a page that was prepared
always gets its LSN, and a frame passes the pool's check of its log dependency.
What a throw of the coordinator leaves behind keeps all this as well.
-/
namespace MiniDb
open ByteBlock Outcome Engine TransactionContext SortedMap Option

variable {e e' : Engine} {f f' : Frame} {log log' : LogManager} {lsn p : Nat}
  {ctx ctx' : TransactionContext}

structure LsnsKnown (log : LogManager) (f : Frame) : Prop where
  live : f.walDependencyRetired = false
  known : ∀ lsn ∈ f.pageLsn, log.containsLsn lsn = true
  first : ∀ rec ∈ f.recLsn, log.containsLsn rec = true ∧ ∃ lsn ∈ f.pageLsn, rec ≤ lsn

/-- The last record of a page, and what its frame may know of it. -/
def LatestKnown (e : Engine) (p : Nat) (state : PageState) : Prop :=
  ∀ lsn ∈ state.latestLsn, e.log.containsLsn lsn = true ∧
    ∀ f, e.frames.find? p = some f → ∀ current ∈ f.pageLsn, current ≤ lsn

structure Logged (e : Engine) : Prop extends Ready e where
  known : ∀ p f, e.frames.find? p = some f → LsnsKnown e.log f
  latest : ∀ context p state, e.context = some context → context.pages.find? p = some state →
    LatestKnown e p state

theorem LogGrows.containsLsn (h : LogGrows log log') (hl : log.containsLsn lsn = true) :
    log'.containsLsn lsn = true := by
  obtain ⟨added, he⟩ := h.extends
  obtain ⟨r, hm, rfl⟩ := containsLsn_iff.mp hl
  exact containsLsn_iff.mpr ⟨r, he.subset hm, rfl⟩

theorem LsnsKnown.grows (h : LsnsKnown log f) (hg : LogGrows log log')
    (hv : f'.walDependencyRetired = false) (hp : f'.pageLsn = f.pageLsn)
    (hr : ∀ rec ∈ f'.recLsn, rec ∈ f.recLsn) : LsnsKnown log' f' := by
  refine ⟨hv, ?_, ?_⟩
  · intro lsn hl
    exact hg.containsLsn (h.known lsn (hp ▸ hl))
  · intro rec hm
    obtain ⟨hc, lsn, hl, hle⟩ := h.first rec (hr rec hm)
    exact ⟨hg.containsLsn hc, lsn, hp ▸ hl, hle⟩

theorem LsnsKnown.fresh (hl : f.walDependencyRetired = false) (hp : f.pageLsn = none)
    (hr : f.recLsn = none) : LsnsKnown log f :=
  ⟨hl, by simp [hp], by simp [hr]⟩

/-- A step at one page leaves the LSNs of all others as they are. -/
theorem Logged.update (p : Nat) (h : Logged e) (hr : Ready e') (hl : LogGrows e.log e'.log)
    (hfr : ∀ q, q ≠ p → e'.frames.find? q = e.frames.find? q) (hin : IntentsAgree e e' p)
    (hk : ∀ f, e'.frames.find? p = some f → LsnsKnown e'.log f)
    (hlt : ∀ ctx s, e'.context = some ctx → ctx.pages.find? p = some s →
      LatestKnown e' p s) : Logged e' := by
  refine ⟨hr, ?_, ?_⟩
  · intro q f hf
    by_cases hq : q = p
    · subst hq
      exact hk f hf
    · rw [hfr q hq] at hf
      have ho := h.known q f hf
      exact ho.grows hl ho.live rfl (fun _ hrc => hrc)
  · intro ctx' q s hc' hs
    by_cases hq : q = p
    · subst hq
      exact hlt ctx' s hc' hs
    · cases hin with
      | idle _ hi =>
        rw [hi] at hc'
        simp at hc'
      | @running ctx run' hrun hrun' hsame =>
        rw [hrun'] at hc'
        cases hc'
        rw [hsame.pages q hq] at hs
        intro lsn hls
        obtain ⟨hn, hb⟩ := h.latest ctx q s hrun hs lsn hls
        refine ⟨hl.containsLsn hn, ?_⟩
        rw [hfr q hq]
        exact hb

/-- The frame of one page changes, but not its page LSN, and the context stays. -/
theorem Logged.reframe (h : Logged e) (hf : e.frames.find? p = some f)
    (hr : Ready (e.setFrame p f'))
    (hv : f'.walDependencyRetired = f.walDependencyRetired) (hp : f'.pageLsn = f.pageLsn)
    (hrc : f'.recLsn = f.recLsn) : Logged (e.setFrame p f') := by
  refine h.update p hr .refl (fun q hq => by simp [hq]) (.of_context p rfl) ?_ ?_
  · intro g hg
    obtain rfl := eq_of_find?_insert hg
    have ho := h.known p f hf
    exact ho.grows .refl (hv.trans ho.live) hp (fun rec hm => hrc ▸ hm)
  · intro ctx s ht hs lsn hl
    obtain ⟨hc, hb⟩ := h.latest ctx p s ht hs lsn hl
    refine ⟨hc, ?_⟩
    intro g hg cur hcr
    obtain rfl := eq_of_find?_insert hg
    exact hb f hf cur (hp ▸ hcr)

theorem append_containsLsn {tid : Nat} {pv : Option Nat} {pl : LogPayload}
    (h : log.append tid pv pl = .ok (log', lsn)) :
    log'.containsLsn lsn = true ∧ lsn = log.nextLsn := by
  obtain ⟨hl, _, _, _, hr, _⟩ := append_ok h
  refine ⟨containsLsn_iff.mpr ⟨⟨tid, pv, pl, log.nextLsn⟩, ?_, hl.symm⟩, hl⟩
  rw [hr]
  exact List.mem_append_right _ (List.mem_singleton.mpr rfl)

/-- A record appended for a page is behind every record there was. -/
theorem appendTransactionRecord_latest {pl : LogPayload} (hs : LogSound log)
    (h : ctx.appendTransactionRecord log pl = .ok (ctx', log', lsn)) :
    log'.containsLsn lsn = true ∧ ∀ cur, log.containsLsn cur = true → cur ≤ lsn := by
  obtain ⟨begun, mid, hb, ha, _⟩ :=
    appendTransactionRecord_ok h
  obtain ⟨hc, rfl⟩ := append_containsLsn ha
  refine ⟨hc, ?_⟩
  intro cur hr
  have hg := ensureBeginLogged_grows hb
  obtain ⟨r, hm, rfl⟩ := containsLsn_iff.mp (hg.containsLsn hr)
  exact Nat.le_of_lt ((hg.sound hs).placed.lsn_lt hm).2

/-- The LSN a prepared page gets is in the log, and not before its frame's. -/
theorem Logged.prepared_lsn (h : Logged e) {prep : PreparedPage} (ht : e.context = some ctx)
    (hf : e.frames.find? p = some f) (ho : ctx.PrepareOutcome e.log e.updateMode
      e.disk.databaseHeader.formatVersion p f.data prep) (hl : prep.lsn = some lsn) :
    prep.log.containsLsn lsn = true ∧ ∀ cur ∈ f.pageLsn, cur ≤ lsn := by
  cases ho with
  | absent => simp at hl
  | @unchanged s hst =>
    obtain ⟨hc, hb⟩ := h.latest ctx p s ht hst lsn hl
    exact ⟨hc, hb f hf⟩
  | logged _ _ _ _ hlgd =>
    obtain ⟨_, _, _, _, ha, _, rfl⟩ := logPageUpdate_ok hlgd
    cases hl
    obtain ⟨hc, hh⟩ := appendTransactionRecord_latest h.log ha
    exact ⟨hc, fun cur hr => hh cur ((h.known p f hf).known _ hr)⟩

/-- A page the coordinator prepared always gets its frame's marks. -/
theorem Logged.preparedFrame_ok (h : Logged e) {prep : PreparedPage}
    (ht : e.context = some ctx) (hf : e.frames.find? p = some f)
    (ho : ctx.PrepareOutcome e.log e.updateMode e.disk.databaseHeader.formatVersion p f.data prep) :
    ∃ f', preparedFrame prep.log f prep.page prep.lsn = .ok f' := by
  cases hl : prep.lsn with
  | none => exact ⟨_, rfl⟩
  | some lsn =>
    obtain ⟨hc, hb⟩ := h.prepared_lsn ht hf ho hl
    exact ⟨_, bind_ok.mpr ⟨(), require_of _ hc, bind_ok.mpr ⟨(), require_of _ hb, rfl⟩⟩⟩

theorem Logged.prepared (h : Logged e) {prep : PreparedPage} (ht : e.context = some ctx)
    (hf : e.frames.find? p = some f) (hd : f.dirty = true)
    (hpr : ctx.preparePageForWrite e.log e.updateMode
      e.disk.databaseHeader.formatVersion p f.data = .ok prep)
    (hfr : preparedFrame prep.log f prep.page prep.lsn = .ok f') :
    Logged ({ e with context := some prep.context, log := prep.log }.setFrame p f') := by
  have ho := preparePageForWrite_outcome hpr
  have hold := h.known p f hf
  refine h.update p (h.effects (.single (.pool (.prepared ht hf hd hpr hfr))))
    ho.grows (fun q hq => by simp [hq]) (.running ht rfl ho.same) ?_ ?_
  · intro g hg
    obtain rfl := eq_of_find?_insert hg
    cases hl : prep.lsn with
    | none =>
      simp only [hl, preparedFrame, Except.ok.injEq] at hfr
      subst hfr
      exact hold.grows ho.grows hold.live rfl (fun _ hr => hr)
    | some lsn =>
      obtain ⟨hn, hb⟩ := h.prepared_lsn ht hf ho hl
      rw [hl] at hfr
      obtain ⟨_, _, _, _, _, _, _, hp, hv, hr⟩ := assignPreparedLsn_ok hfr
      refine ⟨hv, ?_, ?_⟩
      · intro cur hc
        rw [hp, mem_some_iff] at hc
        exact hc ▸ hn
      · intro rec hm
        rw [hr] at hm
        refine ⟨?_, lsn, hp, ?_⟩
        · split at hm
          · rw [mem_some_iff] at hm
            exact hm ▸ hn
          · exact ho.grows.containsLsn (hold.first rec hm).1
        · split at hm
          · rw [mem_some_iff] at hm
            exact hm.symm.le
          · obtain ⟨_, cur, hc, hle⟩ := hold.first rec hm
            exact hle.trans (hb cur hc)
  · intro run s hrn hs lsn hl
    cases hrn
    obtain ⟨_, hlt, _⟩ := prepareOutcome_current ho hs
      (fun old hold' => ((h.coherent.intents ctx ht).2 p old hold').2.paired)
    rw [hlt] at hl
    obtain ⟨hn, _⟩ := h.prepared_lsn ht hf ho hl
    refine ⟨hn, ?_⟩
    intro g hg cur hc
    obtain rfl := eq_of_find?_insert hg
    rw [hl] at hfr
    obtain ⟨_, _, _, _, _, _, _, hp, _⟩ := assignPreparedLsn_ok hfr
    rw [hp, mem_some_iff] at hc
    exact hc.symm.le

theorem Logged.pooled (h : Logged e) (he : PoolEffect e e') : Logged e' := by
  have hr := h.effects (.single (.pool he))
  cases he with
  | repinned pins guarded hf hgr => exact h.reframe hf hr rfl rfl rfl
  | @loaded p hf hp =>
    refine h.update p hr .refl (fun q hq => by simp [installPage, hq]) (.of_context p rfl) ?_ ?_
    · intro f hg
      simp only [installPage, find?_setFrame_self, some.injEq] at hg
      subst hg
      exact .fresh rfl rfl rfl
    · intro ctx s hc hs lsn hl
      refine ⟨(h.latest ctx p s hc hs lsn hl).1, ?_⟩
      intro f hg cur hcr
      simp only [installPage, find?_setFrame_self, some.injEq] at hg
      subst hg
      simp at hcr
  | @evicted p f hf hcln =>
    refine h.update p hr .refl (fun q hq => by simp [hq]) (.of_context p rfl) ?_ ?_
    · intro g hg
      simp at hg
    · intro ctx s hc hs lsn hl
      refine ⟨(h.latest ctx p s hc hs lsn hl).1, ?_⟩
      intro g hg
      simp at hg
  | prepared hc hf hdty hprep hfr =>
    exact h.prepared hc hf hdty hprep hfr
  | forced lsn hlog =>
    -- no page is touched; any page will do as the one that may change
    refine h.update 0 hr (.single (.flush hlog)) (fun _ _ => rfl) (.of_context 0 rfl) ?_ ?_
    · intro f hf
      have ho := h.known 0 f hf
      exact ho.grows (.single (.flush hlog)) ho.live rfl (fun _ hrc => hrc)
    · intro ctx s hc hs lsn' hl
      obtain ⟨hn, hb⟩ := h.latest ctx 0 s hc hs lsn' hl
      exact ⟨LogGrows.containsLsn (.single (.flush hlog)) hn, hb⟩
  | @wroteBack p f hf hp hval hdur =>
    refine h.update p hr .refl (fun q hq => by simp [hq]) (.of_context p rfl) ?_ ?_
    · intro g hg
      obtain rfl := eq_of_find?_insert hg
      have ho := h.known p f hf
      exact ho.grows .refl ho.live rfl (by simp)
    · intro ctx s hc hs lsn hl
      obtain ⟨hn, hb⟩ := h.latest ctx p s hc hs lsn hl
      refine ⟨hn, ?_⟩
      intro g hg
      obtain rfl := eq_of_find?_insert hg
      exact hb f hf

theorem Logged.mutated (h : Logged e) (data : Page) (hf : e.frames.find? p = some f)
    (hg : f.writeGuarded = true) :
    Logged (e.setFrame p { f with data := data, dirty := true, pendingWalPreparation := true }) :=
  h.reframe hf (h.effects (.single (.mutated data hf hg))) rfl rfl rfl

theorem intent_latest {bef : Page} (h : ctx.notePageWriteIntent p bef = .ok ctx') {s : PageState}
    (hs : ctx'.pages.find? p = some s) : ctx.pages.find? p = some s ∨ s.latestLsn = none := by
  rcases notePageWriteIntent_ok h with ⟨_, _, rfl⟩ | ⟨_, fresh, hf, rfl⟩
  · exact .inl hs
  · simp only [setPage, find?_insert, if_true, some.injEq] at hs
    subst hs
    exact .inr (intentState_ok hf).2.2.2

theorem Logged.intended (h : Logged e) (hc : e.context = some ctx) (hf : e.frames.find? p = some f)
    (hp : f.pinCount ≠ 0) (hi : ctx.notePageWriteIntent p f.data = .ok ctx') :
    Logged ({ e with context := some ctx' }.setFrame p
      { f with dirty := true, pendingWalPreparation := true, writeGuarded := true }) := by
  refine h.update p (h.effects (.single (.intended hc hf hp hi))) .refl (fun q hq => by simp [hq])
    (.running hc rfl (notePageWriteIntent_same hi)) ?_ ?_
  · intro g hg
    obtain rfl := eq_of_find?_insert hg
    have hd := h.known p f hf
    exact hd.grows .refl hd.live rfl (fun _ hr => hr)
  · intro run s hrn hs lsn hl
    cases hrn
    rcases intent_latest hi hs with hs | ho
    · obtain ⟨hn, hb⟩ := h.latest ctx p s hc hs lsn hl
      refine ⟨hn, ?_⟩
      intro g hg
      obtain rfl := eq_of_find?_insert hg
      exact hb f hf
    · simp [ho] at hl

theorem Logged.appended (h : Logged e) {confirmed : TransactionContext}
    (hc : e.context = some ctx) (hm : e.disk.pageCount ≠ invalidPageId)
    (hn : ctx.notePhysicalPageAppend e.log e.disk.pageCount = .ok confirmed)
    (hi : confirmed.notePageWriteIntent e.disk.pageCount zero = .ok ctx') :
    Logged (e.extended ctx') := by
  have hk := (notePhysicalPageAppend_keeps hn).1
  refine h.update e.disk.pageCount (h.effects (.single (.appended hc hm hn hi))) .refl
    (fun q hq => by simp [hq])
    (.running hc rfl (hk.sameAfter (notePageWriteIntent_same hi))) ?_ ?_
  · intro g hg
    obtain rfl := eq_of_find?_insert hg
    exact .fresh rfl rfl rfl
  · intro run s hr ht lsn hl
    cases hr
    rcases intent_latest hi ht with ht | ho
    · rw [hk.pages] at ht
      exact absurd ((h.coherent.intents ctx hc).2 _ s ht).1 (lt_irrefl _)
    · simp [ho] at hl

/-! What is left when the coordinator throws, or only logs. -/

theorem SameIntents.trans {a b c : SortedMap PageState} (ha : SameIntents a b)
    (hb : SameIntents b c) : SameIntents a c := by
  refine ⟨?_, ?_⟩
  · intro p last hl
    obtain ⟨mid, hm, hl⟩ := hb.back p last hl
    obtain ⟨fst, hf, hm⟩ := ha.back p mid hm
    exact ⟨fst, hf, hl.existed.trans hm.existed, hl.before.trans hm.before,
      hl.latestAfter.trans hm.latestAfter, hl.latestLsn.trans hm.latestLsn⟩
  · intro p fst hf
    obtain ⟨mid, hm⟩ := ha.forth p fst hf
    exact hb.forth p mid hm

/-- Touching offsets of one page. -/
theorem SameIntents.insert {pages : SortedMap PageState} {s s' : PageState}
    (ht : pages.find? p = some s) (hs : SameIntent s s') :
    SameIntents pages (pages.insert p s') := by
  refine ⟨?_, ?_⟩
  · intro q other ho
    rw [find?_insert] at ho
    split at ho
    · rename_i hq
      cases ho
      exact ⟨s, hq ▸ ht, hs⟩
    · exact ⟨other, ho, rfl, rfl, rfl, rfl⟩
  · intro q other ho
    rw [find?_insert]
    split
    · exact ⟨s', rfl⟩
    · exact ⟨other, ho⟩

theorem WriterKept.trans {a b c : Option TransactionContext} (ha : WriterKept a b)
    (hb : WriterKept b c) : WriterKept a c := by
  rcases ha with ⟨rfl, rfl⟩ | ⟨fst, mid, rfl, rfl, hs, hp⟩
  · rcases hb with ⟨_, rfl⟩ | ⟨_, _, hn, _⟩
    · exact .inl ⟨rfl, rfl⟩
    · simp at hn
  · rcases hb with ⟨hn, _⟩ | ⟨_, last, hm, rfl, hs', hp'⟩
    · simp at hn
    · cases hm
      exact .inr ⟨fst, last, rfl, rfl, hs'.trans hs, hp.trans hp'⟩

/-- The state moved in the log and the bookkeeping of the writer only. -/
structure Relogged (e e' : Engine) : Prop where
  frames : e'.frames = e.frames
  disk : e'.disk = e.disk
  log : LogGrows e.log e'.log
  writer : WriterKept e.context e'.context

theorem Logged.relogged (h : Logged e) (hm : Relogged e e') : Logged e' := by
  refine ⟨⟨h.coherent.relogged hm.frames hm.disk hm.writer, hm.log.sound h.log⟩, ?_, ?_⟩
  · intro p f hf
    rw [hm.frames] at hf
    have hd := h.known p f hf
    exact hd.grows hm.log hd.live rfl (fun _ hr => hr)
  · intro ctx' p s' hc' hs' lsn hl
    rcases hm.writer with ⟨_, ho⟩ | ⟨ctx, run, hc, hrn, _, hp⟩
    · rw [ho] at hc'
      simp at hc'
    · rw [hrn] at hc'
      cases hc'
      obtain ⟨s, hs, hsm⟩ := hp.back p s' hs'
      rw [hsm.latestLsn] at hl
      obtain ⟨hn, hb⟩ := h.latest ctx p s hc hs lsn hl
      refine ⟨hm.log.containsLsn hn, ?_⟩
      rw [hm.frames]
      exact hb

/-- A transaction starts. -/
theorem Logged.begun (h : Logged e) (hn : e.context = none) {id : Nat} {prot : RollbackProtocol}
    (hr : e'.frames = e.frames) (hd : e'.disk = e.disk) (hl : e'.log = e.log)
    (hc : e'.context = some (.start id e.disk.pageCount prot)) : Logged e' := by
  refine ⟨⟨h.coherent.begun hn hr hd hc, hl ▸ h.log⟩, ?_, ?_⟩
  · intro p f hf
    rw [hl]
    exact h.known p f (hr ▸ hf)
  · intro ctx p s hs ht
    rw [hc] at hs
    cases hs
    simp [start] at ht

/-- A transaction ends, nothing pinned and nothing pending. -/
theorem Logged.released (h : Logged e) (hfr : e'.frames = e.frames) (hd : e'.disk = e.disk)
    (hc : e'.context = none) (hl : LogGrows e.log e'.log)
    (hu : ∀ p f, e.frames.find? p = some f → f.pinCount = 0)
    (hs : ∀ p f, e.frames.find? p = some f → f.pendingWalPreparation = false) : Logged e' := by
  refine ⟨⟨h.coherent.released hfr hd hc hu hs, hl.sound h.log⟩, ?_, ?_⟩
  · intro p f hf
    have ho := h.known p f (hfr ▸ hf)
    exact ho.grows hl ho.live rfl (fun _ hr => hr)
  · intro ctx p s hm
    rw [hc] at hm
    simp at hm

/-- Every frame passes the pool's check of its dependency on the log. -/
theorem Logged.validateWalDependency_ok (h : Logged e) (hf : e.frames.find? p = some f) :
    validateWalDependency e.log f false = .ok () := by
  have hc := h.coherent.frames p f hf
  have hk := h.known p f hf
  have hcl : f.dirty = true ∨ f.recLsn = none := by
    cases hr : f.recLsn with
    | none => exact .inr rfl
    | some rec => exact .inl (hc.recorded (by simp [hr]))
  refine bind_ok.mpr ⟨(), require_of _ ?_, bind_ok.mpr ⟨(), require_of _ ?_, bind_ok.mpr
    ⟨(), require_of _ (.inr hk.known), bind_ok.mpr ⟨(), require_of _
      ⟨hcl, fun rec hr => (hk.first rec hr).2, ?_⟩,
      require_of _ fun rec hr => (hk.first rec hr).1⟩⟩⟩⟩
  · cases hp : f.pendingWalPreparation with
    | false => exact .inl rfl
    | true => exact .inr ⟨(hc.pending hp).1, rfl⟩
  · simp [hk.live]
  · rintro ⟨hd, hpr⟩
    obtain ⟨rec, hr⟩ := isSome_iff_exists.mp (hc.covered hd hpr)
    obtain ⟨_, lsn, hl, _⟩ := hk.first rec hr
    refine ⟨?_, by simp [hr]⟩
    intro hn
    simp [hn] at hl

/-- What the pool does on its own changes no page's contents. -/
theorem PoolEffect.view (h : Coherent e) (he : PoolEffect e e') (q : Nat) :
    SameContents (e'.view q) (e.view q) := by
  have ho : ∀ {p : Nat}, q ≠ p → (∀ q, q ≠ p → e'.frames.find? q = e.frames.find? q) →
      (∀ q, q ≠ p → e'.disk.page q = e.disk.page q) → SameContents (e'.view q) (e.view q) := by
    intro p hq hs hg
    exact congrArg normalized (view_congr (hs q hq) (hg q hq))
  cases he with
  | @repinned p f pins guarded hf hgrd =>
    by_cases hq : q = p
    · subst hq
      rw [view_of_resident hf, view_of_resident (find?_setFrame_self e q _)]
      exact .refl _
    · exact ho hq (fun r hr => by simp [hr]) (fun _ _ => rfl)
  | @loaded p hf hp =>
    by_cases hq : q = p
    · subst hq
      unfold installPage
      rw [view_of_absent hf, view_of_resident (find?_setFrame_self e q _)]
      exact .refl _
    · exact ho hq (fun r hr => by simp [installPage, hr]) (fun _ _ => rfl)
  | @evicted p f hf hcln =>
    by_cases hq : q = p
    · subst hq
      rw [view_of_resident hf, view_of_absent (by simp)]
      exact ((h.frames q f hf).clean hcln).symm
    · exact ho hq (fun r hr => by simp [hr]) (fun _ _ => rfl)
  | @prepared p f f' ctx page hctx hf hdty hprep hfr =>
    by_cases hq : q = p
    · subst hq
      rw [view_of_resident hf, view_of_resident (find?_setFrame_self _ q _)]
      rw [(preparedFrame_eq_ok hdty hfr).1]
      exact (preparePageForWrite_outcome hprep).sameContents
    · exact ho hq (fun r hr => by simp [hr]) (fun _ _ => rfl)
  | forced => exact .refl _
  | @wroteBack p f hf hp hval hdur =>
    by_cases hq : q = p
    · subst hq
      rw [view_of_resident hf, view_of_resident (find?_setFrame_self _ q _)]
      exact .refl _
    · exact ho hq (fun r hr => by simp [hr])
        (fun r hr => (page_perform_write e.disk p r f.data).trans (if_neg hr))

end MiniDb
