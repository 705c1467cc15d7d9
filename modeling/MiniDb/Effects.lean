import MiniDb.Transactions

/-!
The engine in small steps. An operation that returned normally is a sequence of
effects, each of which touches one frame, the log, or one page of the file.
What relates frames, write intents and the file is kept by every effect.
-/
namespace MiniDb
open ByteBlock Outcome Engine TransactionContext SortedMap Option

variable {e e' : Engine} {f f' : Frame} {log : LogManager} {p start : Nat} {s : PageState}
  {ctx ctx' : TransactionContext}

/-- Effects of the pool itself: whatever a page holds, it holds afterwards. -/
inductive PoolEffect (e : Engine) : Engine → Prop
  | repinned {p : Nat} {f : Frame} (pins : Nat) (guarded : Bool)
      (hf : e.frames.find? p = some f)
      (hguard : guarded = true → f.writeGuarded = true ∧ pins ≠ 0) :
      PoolEffect e (e.setFrame p { f with pinCount := pins, writeGuarded := guarded })
  | loaded {p : Nat} (hf : e.frames.find? p = none)
      (hp : p ≠ 0 ∧ p < e.disk.pageCount) :
      PoolEffect e (e.installPage p (e.disk.page p) false)
  | evicted {p : Nat} {f : Frame} (hf : e.frames.find? p = some f)
      (hclean : f.dirty = false) :
      PoolEffect e { e with frames := e.frames.erase p }
  | prepared {p : Nat} {f f' : Frame} {context : TransactionContext}
      {prepared : PreparedPage}
      (hcontext : e.context = some context) (hf : e.frames.find? p = some f)
      (hdirty : f.dirty = true)
      (hprepared : context.preparePageForWrite e.log e.updateMode
        e.disk.databaseHeader.formatVersion p f.data = .ok prepared)
      (hframe : preparedFrame prepared.log f prepared.page prepared.lsn = .ok f') :
      PoolEffect e ({ e with context := some prepared.context, log := prepared.log }.setFrame p f')
  | forced {log : LogManager} (lsn : Nat) (hlog : e.log.flushUpTo lsn = .ok log) :
      PoolEffect e { e with log := log }
  | wroteBack {p : Nat} {f : Frame} (hf : e.frames.find? p = some f)
      (hp : p ≠ 0 ∧ p < e.disk.pageCount)
      (hvalid : validateWalDependency e.log f true = .ok ())
      (hdurable : f.walDependencyRetired = true ∨ ∀ lsn ∈ f.pageLsn, e.log.IsDurable lsn) :
      PoolEffect e ({ e with disk := e.disk.perform (.write p f.data) }.setFrame p
        { f with dirty := false, recLsn := none })

abbrev PoolEffects : Engine → Engine → Prop := Relation.ReflTransGen PoolEffect

/-- The engine with a new page, zeroed on disk and in a frame that awaits its log record. -/
abbrev Engine.extended (e : Engine) (context : TransactionContext) : Engine :=
  { e with
    context := some context
    disk := e.disk.perform (.write e.disk.pageCount zero) }.setFrame e.disk.pageCount
      ⟨zero, 1, true, true, none, none, false, true⟩

/-- One effect of an operation inside a transaction. -/
inductive Effect (e : Engine) : Engine → Prop
  | pool {e' : Engine} (h : PoolEffect e e') : Effect e e'
  | intended {p : Nat} {f : Frame} {context context' : TransactionContext}
      (hcontext : e.context = some context) (hf : e.frames.find? p = some f)
      (hpin : f.pinCount ≠ 0)
      (hintent : context.notePageWriteIntent p f.data = .ok context') :
      Effect e ({ e with context := some context' }.setFrame p
        { f with dirty := true, pendingWalPreparation := true, writeGuarded := true })
  | mutated {p : Nat} {f : Frame} (data : Page) (hf : e.frames.find? p = some f)
      (hguard : f.writeGuarded = true) :
      Effect e (e.setFrame p { f with data := data, dirty := true, pendingWalPreparation := true })
  | reserved {context context' : TransactionContext} {log : LogManager} {lsn : Nat}
      (hcontext : e.context = some context)
      (hreserved : context.prepareForPhysicalPageAppend e.log e.disk.pageCount =
        .ok (context', log, lsn)) :
      Effect e { e with context := some context', log := log }
  | appended {context confirmed context' : TransactionContext}
      (hcontext : e.context = some context) (hroom : e.disk.pageCount ≠ invalidPageId)
      (hconfirmed : context.notePhysicalPageAppend e.log e.disk.pageCount = .ok confirmed)
      (hintent : confirmed.notePageWriteIntent e.disk.pageCount zero = .ok context') :
      Effect e (e.extended context')
  | headerIntended {context context' : TransactionContext}
      (hcontext : e.context = some context) (hexists : 0 < e.disk.pageCount)
      (hintent : context.notePageWriteIntent 0 (e.disk.page 0) = .ok context') :
      Effect e { e with context := some context' }
  | persisted {context : TransactionContext} {prepared : PreparedPage}
      {log : LogManager} {disk : DiskManager} {state : PageState} (header : DatabaseHeader)
      (hcontext : e.context = some context) (hstate : context.pages.find? 0 = some state)
      (hexists : 0 < e.disk.pageCount)
      (hprepared : context.preparePageForWrite e.log e.updateMode
        e.disk.databaseHeader.formatVersion 0 (serializeDatabaseHeader header) = .ok prepared)
      (hlog : flushUpToIfValid prepared.log prepared.lsn = .ok log)
      (hdisk : e.disk.writePhysicalPage 0 prepared.page = .ok disk) :
      Effect e { e with context := some prepared.context, log := log, disk := disk }
  | bounded {context : TransactionContext}
      (hcontext : e.context = some context)
      (hpins : ∀ p f, e.frames.find? p = some f → f.pinCount = 0)
      (hsettled : ∀ p f, e.frames.find? p = some f → f.pendingWalPreparation = false) :
      Effect e e.markSafeBoundary

abbrev Effects : Engine → Engine → Prop := Relation.ReflTransGen Effect

/-- The contents of a page as its transaction last recorded them. -/
def PageState.current (state : PageState) : Page :=
  state.latestAfter.getD (normalized state.before)

/-- A page has a resident frame whose changes only the log and the frame hold. -/
def Unwritten (e : Engine) (p : Nat) : Prop := ∃ f, e.frames.find? p = some f ∧ f.recLsn.isSome

/-- What a write intent says about its page: a prepared frame holds the recorded
contents, and so does the file unless the frame has something it has not. -/
structure IntentCoherent (e : Engine) (start p : Nat) (state : PageState) : Prop where
  existed : state.beforeExisted = decide (p < start)
  paired : state.latestLsn.isSome = state.latestAfter.isSome
  settled : ∀ f, e.frames.find? p = some f → f.pendingWalPreparation = false →
    normalized f.data = state.current
  stored : ¬ Unwritten e p → normalized (e.disk.page p) = state.current

/-- The running transaction has a write intent on the page. -/
abbrev Intended (e : Engine) (p : Nat) : Prop :=
  ∃ context state, e.context = some context ∧ context.pages.find? p = some state

structure FrameCoherent (e : Engine) (p : Nat) (f : Frame) : Prop where
  located : p ≠ 0 ∧ p < e.disk.pageCount
  pending : f.pendingWalPreparation = true → f.dirty = true ∧ Intended e p
  guarded : f.writeGuarded = true → f.pinCount ≠ 0 ∧ Intended e p
  clean : f.dirty = false → SameContents f.data (e.disk.page p)
  covered : f.dirty = true → f.pendingWalPreparation = false → f.recLsn.isSome
  recorded : f.recLsn.isSome → f.dirty = true

structure Coherent (e : Engine) : Prop where
  frames : ∀ p f, e.frames.find? p = some f → FrameCoherent e p f
  intents : ∀ context, e.context = some context → context.startPageCount ≤ e.disk.pageCount ∧
    ∀ p state, context.pages.find? p = some state →
      p < e.disk.pageCount ∧ IntentCoherent e context.startPageCount p state
  grown : ∀ context, e.context = some context → ∀ p, context.startPageCount ≤ p →
    p < e.disk.pageCount → ∃ state, context.pages.find? p = some state
  nonempty : 0 < e.disk.pageCount
  header : deserializeDatabaseHeader (e.disk.page 0) = .ok e.disk.databaseHeader

/-- The write intents of two states agree outside page `p`. -/
inductive IntentsAgree (e e' : Engine) (p : Nat) : Prop
  | idle (h : e.context = none) (h' : e'.context = none)
  | running {context context' : TransactionContext} (h : e.context = some context)
      (h' : e'.context = some context') (hsame : context.SameTransaction context' p)

/-- An effect at one page leaves the coherence of all others alone. -/
theorem Coherent.update (p : Nat) (h : Coherent e)
    (hfs : ∀ q, q ≠ p → e'.frames.find? q = e.frames.find? q)
    (hp : ∀ q, q ≠ p → e'.disk.page q = e.disk.page q) (hn : e.disk.pageCount ≤ e'.disk.pageCount)
    (hin : IntentsAgree e e' p) (hfr : ∀ f, e'.frames.find? p = some f → FrameCoherent e' p f)
    (hit : ∀ ctx s, e'.context = some ctx → ctx.pages.find? p = some s →
      p < e'.disk.pageCount ∧ IntentCoherent e' ctx.startPageCount p s)
    (hgw : ∀ q, q ≠ p → q < e'.disk.pageCount → q < e.disk.pageCount)
    (hgn : ∀ ctx, e'.context = some ctx → ctx.startPageCount ≤ p →
      p < e'.disk.pageCount → ∃ s, ctx.pages.find? p = some s)
    (hh : deserializeDatabaseHeader (e'.disk.page 0) = .ok e'.disk.databaseHeader) :
    Coherent e' := by
  have ht : ∀ q, q ≠ p → Intended e q → Intended e' q := by
    rintro q hq ⟨ctx, s, hc, hst⟩
    cases hin with
    | idle hi =>
      rw [hi] at hc
      simp at hc
    | @running run ctx' hr hr' hm =>
      rw [hr] at hc
      cases hc
      exact ⟨ctx', s, hr', by rw [hm.pages q hq, hst]⟩
  refine ⟨?_, ?_, ?_, h.nonempty.trans_le hn, hh⟩
  · intro q f hf
    by_cases hq : q = p
    · subst hq
      exact hfr f hf
    · rw [hfs q hq] at hf
      have ho := h.frames q f hf
      refine ⟨⟨ho.located.1, ho.located.2.trans_le hn⟩, ?_, ?_, ?_,
        ho.covered, ho.recorded⟩
      · intro hpn
        exact ⟨(ho.pending hpn).1, ht q hq (ho.pending hpn).2⟩
      · intro hg
        exact ⟨(ho.guarded hg).1, ht q hq (ho.guarded hg).2⟩
      · intro hl
        rw [hp q hq]
        exact ho.clean hl
  · intro ctx' hc'
    cases hin with
    | idle _ hi' =>
      rw [hi'] at hc'
      simp at hc'
    | @running ctx run' hr hr' hm =>
      rw [hr'] at hc'
      cases hc'
      obtain ⟨hsr, hs⟩ := h.intents ctx hr
      refine ⟨hm.startPageCount ▸ hsr.trans hn, ?_⟩
      intro q s hst
      by_cases hq : q = p
      · subst hq
        exact hit ctx' s hr' hst
      · rw [hm.pages q hq] at hst
        obtain ⟨hlc, ho⟩ := hs q s hst
        refine ⟨hlc.trans_le hn, ?_, ho.paired, ?_, ?_⟩
        · rw [hm.startPageCount]
          exact ho.existed
        · intro f hf
          rw [hfs q hq] at hf
          exact ho.settled f hf
        · intro hw
          rw [hp q hq]
          refine ho.stored ?_
          rintro ⟨f, hf, hrc⟩
          exact hw ⟨f, by rw [hfs q hq]; exact hf, hrc⟩
  · intro ctx' hc' q hsr hq
    cases hin with
    | idle _ hi' =>
      rw [hi'] at hc'
      simp at hc'
    | @running ctx run' hr hr' hm =>
      rw [hr'] at hc'
      cases hc'
      by_cases hqp : q = p
      · subst hqp
        exact hgn ctx' hr' hsr hq
      · rw [hm.startPageCount] at hsr
        rw [hm.pages q hqp]
        exact h.grown ctx hr q hsr (hgw q hqp hq)

@[simp] theorem find?_setFrame (e : Engine) (p q : Nat) (f : Frame) :
    (e.setFrame p f).frames.find? q = if q = p then some f else e.frames.find? q := by
  simp [setFrame]

theorem IntentsAgree.of_context (p : Nat) (h : e'.context = e.context) : IntentsAgree e e' p := by
  cases hc : e.context with
  | none => exact .idle hc (h.trans hc)
  | some ctx => exact .running hc (h.trans hc) (.refl ctx p)

/-- A frame that changes without a record: what it held stays recorded, and what
is pending is owed no promise. -/
theorem IntentCoherent.reframe (h : IntentCoherent e start p s) (hf : e.frames.find? p = some f)
    (hf' : e'.frames.find? p = some f') (hpg : e'.disk.page p = e.disk.page p)
    (hr : f'.recLsn = f.recLsn) (hs : f'.pendingWalPreparation = false →
      f.pendingWalPreparation = false ∧ f'.data = f.data) : IntentCoherent e' start p s := by
  refine ⟨h.existed, h.paired, ?_, ?_⟩
  · intro g hg hp
    rw [hf'] at hg
    cases hg
    obtain ⟨hp, hd⟩ := hs hp
    rw [hd]
    exact h.settled f hf hp
  · intro hw
    rw [hpg]
    refine h.stored ?_
    rintro ⟨g, hg, hgr⟩
    rw [hf] at hg
    cases hg
    exact hw ⟨f', hf', by rw [hr]; exact hgr⟩

@[simp] theorem find?_setFrame_self (e : Engine) (p : Nat) (f : Frame) :
    (e.setFrame p f).frames.find? p = some f := by
  simp

/-- An effect on the frame of one page, with context and file as they were. -/
theorem Coherent.reframe (h : Coherent e) (p : Nat) {frs : SortedMap Frame}
    (hf : ∀ q, q ≠ p → frs.find? q = e.frames.find? q)
    (hr : ∀ f, frs.find? p = some f → FrameCoherent { e with frames := frs } p f)
    (hi : ∀ ctx s, e.context = some ctx → ctx.pages.find? p = some s →
      IntentCoherent e ctx.startPageCount p s →
      IntentCoherent { e with frames := frs } ctx.startPageCount p s) :
    Coherent { e with frames := frs } := by
  refine h.update p hf (fun _ _ => rfl) le_rfl (.of_context p rfl) hr ?_
    (fun _ _ hq => hq) (fun ctx hc => h.grown ctx hc p) h.header
  intro ctx s hc hs
  obtain ⟨hl, ho⟩ := (h.intents ctx hc).2 p s hs
  exact ⟨hl, hi ctx s hc hs ho⟩

theorem Coherent.repinned (h : Coherent e) {pins : Nat} {guarded : Bool}
    (hf : e.frames.find? p = some f) (hg : guarded = true → f.writeGuarded = true ∧ pins ≠ 0) :
    Coherent (e.setFrame p { f with pinCount := pins, writeGuarded := guarded }) := by
  have ho := h.frames p f hf
  refine h.reframe p (fun q hq => by simp [hq]) ?_ ?_
  · intro f' hf'
    obtain rfl := eq_of_find?_insert hf'
    refine ⟨ho.located, ho.pending, ?_, ho.clean, ho.covered, ho.recorded⟩
    intro hr
    exact ⟨(hg hr).2, (ho.guarded (hg hr).1).2⟩
  · intro ctx s _ _ hi
    exact hi.reframe hf (find?_setFrame_self e p _) rfl rfl fun hp => ⟨hp, rfl⟩

theorem Coherent.loaded (h : Coherent e) (hf : e.frames.find? p = none)
    (hp : p ≠ 0 ∧ p < e.disk.pageCount) : Coherent (e.installPage p (e.disk.page p) false) := by
  have hw : ¬ Unwritten e p := by
    rintro ⟨f, hs, _⟩
    rw [hf] at hs
    simp at hs
  refine h.reframe p (fun q hq => by simp [hq]) ?_ ?_
  · intro f' hf'
    obtain rfl := eq_of_find?_insert hf'
    exact ⟨hp, by simp, by simp, fun _ => .refl _, by simp, by simp⟩
  · intro ctx s _ _ hi
    refine ⟨hi.existed, hi.paired, ?_, fun _ => hi.stored hw⟩
    intro f' hf' _
    obtain rfl := eq_of_find?_insert hf'
    exact hi.stored hw

theorem Coherent.evicted (h : Coherent e) (hf : e.frames.find? p = some f) (hc : f.dirty = false) :
    Coherent { e with frames := e.frames.erase p } := by
  refine h.reframe p (fun q hq => by simp [hq]) ?_ ?_
  · intro f' hf'
    simp at hf'
  · intro ctx s _ _ hi
    refine ⟨hi.existed, hi.paired, ?_, fun _ => hi.stored ?_⟩
    · intro f' hf'
      simp at hf'
    · rintro ⟨g, hg, hr⟩
      rw [hf] at hg
      cases hg
      rw [(h.frames p f hf).recorded hr] at hc
      simp at hc

theorem Coherent.mutated (h : Coherent e) (data : Page) (hf : e.frames.find? p = some f)
    (hg : f.writeGuarded = true) :
    Coherent (e.setFrame p { f with
      data := data, dirty := true, pendingWalPreparation := true }) := by
  have ho := h.frames p f hf
  refine h.reframe p (fun q hq => by simp [hq]) ?_ ?_
  · intro f' hf'
    obtain rfl := eq_of_find?_insert hf'
    exact ⟨ho.located, fun _ => ⟨rfl, (ho.guarded hg).2⟩, ho.guarded, by simp, by simp,
      fun _ => rfl⟩
  · intro ctx s _ _ hi
    exact hi.reframe hf (find?_setFrame_self e p _) rfl rfl (by simp)

theorem intentState_ok {bef : Page} (h : intentState start p bef = .ok s) :
    s.beforeExisted = decide (p < start) ∧ s.before = (if p < start then bef else zero) ∧
      s.latestAfter = none ∧ s.latestLsn = none := by
  unfold intentState at h
  split at h
  · rename_i hlt
    simp only [map_ok] at h
    obtain ⟨lsn, _, rfl⟩ := h
    simp [hlt]
  · rename_i hge
    simp only [Except.ok.injEq] at h
    subst h
    simp [hge]

/-- A first write intent on a page of before the transaction records what is there. -/
theorem IntentCoherent.fresh {bef : Page} (ht : intentState start p bef = .ok s)
    (hs : ∀ f, e.frames.find? p = some f → f.pendingWalPreparation = true) (ho : ¬ Unwritten e p →
      SameContents (e.disk.page p) (if p < start then bef else zero)) :
    IntentCoherent e start p s := by
  obtain ⟨hex, hb, ha, hl⟩ := intentState_ok ht
  refine ⟨hex, by simp [ha, hl], ?_, ?_⟩
  · intro f hf hp
    rw [hs f hf] at hp
    simp at hp
  · intro hw
    simp only [PageState.current, ha, getD_none, hb]
    exact ho hw

theorem Coherent.intended (h : Coherent e) (hc : e.context = some ctx)
    (hf : e.frames.find? p = some f) (hp : f.pinCount ≠ 0)
    (hi : ctx.notePageWriteIntent p f.data = .ok ctx') :
    Coherent ({ e with context := some ctx' }.setFrame p
      { f with dirty := true, pendingWalPreparation := true, writeGuarded := true }) := by
  have ho := h.frames p f hf
  have ht := notePageWriteIntent_touched hi
  refine h.update p (fun q hq => by simp [hq]) (fun _ _ => rfl) le_rfl
    (.running hc rfl (notePageWriteIntent_same hi)) ?_ ?_ (fun _ _ hq => hq) ?_ h.header
  · intro f' hf'
    obtain rfl := eq_of_find?_insert hf'
    obtain ⟨s, hs⟩ := ht
    exact ⟨ho.located, fun _ => ⟨rfl, ctx', s, rfl, hs⟩,
      fun _ => ⟨hp, ctx', s, rfl, hs⟩, by simp, by simp, fun _ => rfl⟩
  · intro run s hr hs
    cases hr
    refine ⟨ho.located.2, ?_⟩
    rcases notePageWriteIntent_ok hi with
      ⟨old, ho', rfl⟩ | ⟨hn, fresh, hfr, rfl⟩
    · rw [ho'] at hs
      cases hs
      exact ((h.intents ctx hc).2 p _ ho').2.reframe hf (find?_setFrame_self _ p _)
        rfl rfl (by simp)
    · simp only [setPage, find?_insert, if_true, some.injEq] at hs
      subst hs
      refine .fresh hfr (by simp) ?_
      intro hw
      -- an untouched page was there when the transaction began, and a frame
      -- without recLSN has nothing the file does not have
      have hsr : p < ctx.startPageCount := by
        by_contra hge
        obtain ⟨s, hs⟩ := h.grown ctx hc p (not_lt.mp hge) ho.located.2
        rw [hn] at hs
        simp at hs
      have hpr : f.pendingWalPreparation = false := by
        by_contra hpend
        obtain ⟨_, run, s, hr, hs⟩ := ho.pending (by simpa using hpend)
        rw [hc] at hr
        cases hr
        rw [hn] at hs
        simp at hs
      have hl : f.dirty = false := by
        by_contra hdty
        have hrc := ho.covered (by simpa using hdty) hpr
        exact hw ⟨_, find?_setFrame_self _ p _, hrc⟩
      refine (ho.clean hl).symm.trans ?_
      show SameContents f.data (if p < ctx.startPageCount then f.data else zero)
      rw [if_pos hsr]
      exact .refl f.data
  · intro run hr _ _
    cases hr
    exact ht

theorem assignPreparedLsn_ok {lsn : Nat} (h : assignPreparedLsn log f lsn = .ok f') :
    log.containsLsn lsn = true ∧ (∀ cur ∈ f.pageLsn, cur ≤ lsn) ∧
      f'.data = f.data ∧ f'.dirty = f.dirty ∧ f'.pendingWalPreparation = false ∧
      f'.pinCount = f.pinCount ∧ f'.writeGuarded = f.writeGuarded ∧ f'.pageLsn = some lsn ∧
      f'.walDependencyRetired = false ∧
      f'.recLsn = if f.dirty = true ∧ f.recLsn = none then some lsn else f.recLsn := by
  simp only [assignPreparedLsn, ok_iff] at h
  obtain ⟨_, hc, _, hf, rfl⟩ := h
  exact ⟨hc, hf, rfl, rfl, rfl, rfl, rfl, rfl, rfl, rfl⟩

/-- A dirty frame after its preparation: nothing pending, and with a recLSN if a
record covers the page. -/
theorem preparedFrame_eq_ok {data : Page} {lsn : Option Nat} (hd : f.dirty = true)
    (h : preparedFrame log f data lsn = .ok f') :
    f'.data = data ∧ f'.pendingWalPreparation = false ∧ f'.pinCount = f.pinCount ∧
      f'.writeGuarded = f.writeGuarded ∧ f'.dirty = f'.recLsn.isSome ∧
      (lsn.isSome → f'.recLsn.isSome) ∧ (lsn = none → f'.recLsn = f.recLsn) := by
  cases lsn with
  | none =>
    simp only [preparedFrame, Except.ok.injEq] at h
    subst h
    exact ⟨rfl, rfl, rfl, rfl, rfl, by simp, fun _ => rfl⟩
  | some lsn =>
    obtain ⟨_, _, ht, hd', hpn, hp, hg, _, _, hr⟩ :=
      assignPreparedLsn_ok h
    have hs : f'.recLsn.isSome := by
      rw [hr]
      split
      · rfl
      · rename_i hn
        cases ho : f.recLsn with
        | none => exact absurd ⟨hd, ho⟩ hn
        | some rec => rfl
    refine ⟨ht, hpn, hp, hg, ?_, fun _ => hs, by simp⟩
    rw [hd', hd, hs]

/-- How the intent on a page stands after the page was prepared. -/
theorem prepareOutcome_current {mode : WalUpdateMode} {formatVersion : Nat} {after : Page}
    {prepared : PreparedPage} (h : ctx.PrepareOutcome log mode formatVersion p after prepared)
    (hs : prepared.context.pages.find? p = some s) (hr : ∀ old, ctx.pages.find? p = some old →
      old.latestLsn.isSome = old.latestAfter.isSome) :
    s.current = normalized after ∧ s.latestLsn = prepared.lsn ∧
      s.latestLsn.isSome = s.latestAfter.isSome ∧
      ∃ old, ctx.pages.find? p = some old ∧ s.beforeExisted = old.beforeExisted ∧
        s.before = old.before ∧ (prepared.lsn = none → s = old) := by
  cases h with
  | absent hp =>
    rw [hp] at hs
    simp at hs
  | @unchanged old ho haft hbef hm =>
    rw [ho] at hs
    cases hs
    exact ⟨hm, rfl, hr _ ho, _, ho, rfl, rfl, fun _ => rfl⟩
  | @logged old _ ho haft hbef hdiffers hlgd =>
    obtain ⟨appended, log', lsn, page, _, _, rfl⟩ :=
      logPageUpdate_ok hlgd
    simp only [setPage, find?_insert, if_true, some.injEq] at hs
    subst hs
    exact ⟨rfl, rfl, rfl, _, ho, rfl, rfl, by simp⟩

theorem prepareOutcome_touched {mode : WalUpdateMode} {formatVersion : Nat} {aft : Page}
    {prep : PreparedPage} (h : ctx.PrepareOutcome log mode formatVersion p aft prep)
    (ht : ∃ s, ctx.pages.find? p = some s) : ∃ s, prep.context.pages.find? p = some s := by
  cases h with
  | absent => exact ht
  | unchanged => exact ht
  | logged _ _ _ _ hlgd =>
    obtain ⟨_, _, _, _, _, _, rfl⟩ := logPageUpdate_ok hlgd
    simp [setPage]

/-- A frame that preparation leaves clean holds what the file holds: its page has
no record of this transaction, and no recLSN of an earlier one. -/
theorem Coherent.prepared_clean (h : Coherent e) {prep : PreparedPage}
    (hc : e.context = some ctx) (hf : e.frames.find? p = some f) (hd : f.dirty = true)
    (ho : ctx.PrepareOutcome e.log e.updateMode e.disk.databaseHeader.formatVersion p f.data prep)
    (hfr : preparedFrame prep.log f prep.page prep.lsn = .ok f') (hr : f'.recLsn = none) :
    SameContents f'.data (e.disk.page p) := by
  have hold := h.frames p f hf
  obtain ⟨hdt, _, _, _, _, hm, hno⟩ := preparedFrame_eq_ok hd hfr
  have hl : prep.lsn = none := by
    cases hl : prep.lsn with
    | none => rfl
    | some lsn =>
      rw [hl] at hm
      simp [hr] at hm
  have hfc := (hno hl).symm.trans hr
  have hp : f.pendingWalPreparation = true := by
    by_contra hp
    have hv := hold.covered hd (by simpa using hp)
    simp [hfc] at hv
  obtain ⟨_, run, old, hn, hold'⟩ := hold.pending hp
  rw [hc] at hn
  cases hn
  have hw : ¬ Unwritten e p := by
    rintro ⟨g, hg, hgr⟩
    rw [hf] at hg
    cases hg
    simp [hfc] at hgr
  have hs := ((h.intents ctx hc).2 p old hold').2.stored hw
  rw [hdt]
  refine ho.sameContents.trans ?_
  cases ho with
  | absent hpg =>
    rw [hpg] at hold'
    simp at hold'
  | @unchanged s ht _ _ hsame =>
    rw [hold'] at ht
    cases ht
    exact hsame.symm.trans hs.symm
  | logged _ _ _ _ hlgd =>
    obtain ⟨_, _, lsn, _, _, _, rfl⟩ := logPageUpdate_ok hlgd
    simp at hl

theorem Coherent.prepared (h : Coherent e) {prepared : PreparedPage} (hc : e.context = some ctx)
    (hf : e.frames.find? p = some f) (hd : f.dirty = true)
    (hpp : ctx.preparePageForWrite e.log e.updateMode
      e.disk.databaseHeader.formatVersion p f.data = .ok prepared)
    (hfr : preparedFrame prepared.log f prepared.page prepared.lsn = .ok f') :
    Coherent ({ e with context := some prepared.context, log := prepared.log }.setFrame p f') := by
  have hold := h.frames p f hf
  have ho := preparePageForWrite_outcome hpp
  obtain ⟨hdt, hs, hi, hgd, hd', _, _⟩ := preparedFrame_eq_ok hd hfr
  have hcn : SameContents f'.data f.data := hdt ▸ ho.sameContents
  have hl := h.prepared_clean hc hf hd ho hfr
  refine h.update p (fun q hq => by simp [hq]) (fun _ _ => rfl) le_rfl
    (.running hc rfl ho.same) ?_ ?_ (fun _ _ hq => hq) ?_ h.header
  · intro g hg
    obtain rfl := eq_of_find?_insert hg
    refine ⟨hold.located, by simp [hs], ?_, ?_, ?_, ?_⟩
    · intro hgr
      obtain ⟨hpn, running, old, hr, hold'⟩ := hold.guarded (hgd ▸ hgr)
      rw [hc] at hr
      cases hr
      obtain ⟨s, ht⟩ := prepareOutcome_touched ho ⟨old, hold'⟩
      exact ⟨hi ▸ hpn, prepared.context, s, rfl, ht⟩
    · intro hn
      rw [hd'] at hn
      exact hl (by simpa using hn)
    · exact fun hy _ => hd' ▸ hy
    · exact fun hrc => hd'.trans hrc
  · intro running s hr ht
    cases hr
    obtain ⟨hcr, _, hpr, old, hold', hex, _, _⟩ :=
      prepareOutcome_current ho ht (fun old hold' => ((h.intents ctx hc).2 p old hold').2.paired)
    refine ⟨hold.located.2, ?_, hpr, ?_, ?_⟩
    · rw [ho.same.startPageCount, hex]
      exact ((h.intents ctx hc).2 p old hold').2.existed
    · intro g hg _
      obtain rfl := eq_of_find?_insert hg
      exact Eq.trans hcn hcr.symm
    · intro hw
      have hrc : f'.recLsn = none := by
        by_contra hrc
        exact hw ⟨f', find?_setFrame_self _ p _, isSome_iff_ne_none.mpr hrc⟩
      exact Eq.trans ((hl hrc).symm.trans hcn) hcr.symm
  · intro running hr hsr hp
    cases hr
    rw [ho.same.startPageCount] at hsr
    exact prepareOutcome_touched ho (h.grown ctx hc p hsr hp)

/-- The same write intents, up to the offsets noted as touched. -/
structure SameIntent (state state' : PageState) : Prop where
  existed : state'.beforeExisted = state.beforeExisted
  before : state'.before = state.before
  latestAfter : state'.latestAfter = state.latestAfter
  latestLsn : state'.latestLsn = state.latestLsn

structure SameIntents (pages pages' : SortedMap PageState) : Prop where
  back : ∀ p state', pages'.find? p = some state' →
    ∃ state, pages.find? p = some state ∧ SameIntent state state'
  forth : ∀ p state, pages.find? p = some state → ∃ state', pages'.find? p = some state'

theorem SameIntents.refl (pages : SortedMap PageState) : SameIntents pages pages :=
  ⟨fun _ s hs => ⟨s, hs, rfl, rfl, rfl, rfl⟩, fun _ s hs => ⟨s, hs⟩⟩

/-- The running transaction is the same, with the same write intents. -/
def WriterKept (context context' : Option TransactionContext) : Prop :=
  (context = none ∧ context' = none) ∨ ∃ running running', context = some running ∧
    context' = some running' ∧ running'.startPageCount = running.startPageCount ∧
    SameIntents running.pages running'.pages

theorem WriterKept.refl (ctx : Option TransactionContext) : WriterKept ctx ctx := by
  cases ctx with
  | none => exact .inl ⟨rfl, rfl⟩
  | some run => exact .inr ⟨run, run, rfl, rfl, rfl, .refl _⟩

/-- Effects on the log, or on the LSNs of the context, touch no page. -/
theorem Coherent.relogged (h : Coherent e) (hfr : e'.frames = e.frames) (hd : e'.disk = e.disk)
    (hw : WriterKept e.context e'.context) : Coherent e' := by
  have hb : ∀ ctx', e'.context = some ctx' → ∃ ctx, e.context = some ctx ∧
      ctx'.startPageCount = ctx.startPageCount ∧ SameIntents ctx.pages ctx'.pages := by
    intro ctx' hc'
    rcases hw with ⟨_, hn⟩ | ⟨ctx, run, hc, hr, hsm⟩
    · rw [hn] at hc'
      simp at hc'
    · rw [hr] at hc'
      cases hc'
      exact ⟨ctx, hc, hsm⟩
  have ht : ∀ p, Intended e p → Intended e' p := by
    rintro p ⟨run, s, hr, hst⟩
    rcases hw with ⟨hn, _⟩ | ⟨ctx, ctx', hc, hc', _, hp⟩
    · rw [hn] at hr
      simp at hr
    · rw [hc] at hr
      cases hr
      obtain ⟨s', hst'⟩ := hp.forth p s hst
      exact ⟨ctx', s', hc', hst'⟩
  refine ⟨?_, ?_, ?_, hd ▸ h.nonempty, hd ▸ h.header⟩
  · intro p f hf
    rw [hfr] at hf
    have ho := h.frames p f hf
    refine ⟨hd ▸ ho.located, ?_, ?_, hd ▸ ho.clean, ho.covered, ho.recorded⟩
    · exact fun hpn => ⟨(ho.pending hpn).1, ht p (ho.pending hpn).2⟩
    · exact fun hg => ⟨(ho.guarded hg).1, ht p (ho.guarded hg).2⟩
  · intro ctx' hc'
    obtain ⟨ctx, hc, hsr, hp⟩ := hb ctx' hc'
    obtain ⟨he, hs⟩ := h.intents ctx hc
    rw [hsr, hd]
    refine ⟨he, ?_⟩
    intro p s' hst'
    obtain ⟨s, hst, hsm⟩ := hp.back p s' hst'
    obtain ⟨hl, hi⟩ := hs p s hst
    have hcr : s'.current = s.current := by
      simp only [PageState.current, hsm.latestAfter, hsm.before]
    refine ⟨hl, hsm.existed.trans hi.existed, ?_, ?_, ?_⟩
    · rw [hsm.latestLsn, hsm.latestAfter]
      exact hi.paired
    · rw [hfr, hcr]
      exact hi.settled
    · simp only [Unwritten, hfr, hd, hcr]
      exact hi.stored
  · intro ctx' hc' p hle hlt
    obtain ⟨ctx, hc, hsr, hp⟩ := hb ctx' hc'
    rw [hsr] at hle
    rw [hd] at hlt
    obtain ⟨s, hst⟩ := h.grown ctx hc p hle hlt
    exact hp.forth p s hst

theorem Coherent.relog (h : Coherent e) (hfr : e'.frames = e.frames) (hd : e'.disk = e.disk)
    (hc : e'.context = e.context ∨ ∃ ctx ctx', e.context = some ctx ∧
      e'.context = some ctx' ∧ ctx'.startPageCount = ctx.startPageCount ∧
      ctx'.pages = ctx.pages) : Coherent e' := by
  refine h.relogged hfr hd ?_
  rcases hc with hm | ⟨ctx, ctx', ho, hn, hs, hp⟩
  · exact hm ▸ .refl _
  · exact .inr ⟨ctx, ctx', ho, hn, hs, hp ▸ .refl _⟩

theorem validateWalDependency_forWrite (h : validateWalDependency log f true = .ok ()) :
    f.pendingWalPreparation = false ∧ (∀ lsn ∈ f.recLsn, log.containsLsn lsn = true) ∧
      (f.recLsn.isSome → f.dirty = true) ∧
      (f.dirty = true → f.walDependencyRetired = false ∧ f.pageLsn.isSome ∧ f.recLsn.isSome) ∧
      (∀ rec ∈ f.recLsn, ∃ lsn ∈ f.pageLsn, rec ≤ lsn) := by
  simp only [validateWalDependency, ok_iff] at h
  obtain ⟨_, hp, _, ht, _, _, _, ⟨hc, hb, hv⟩, hr⟩ := h
  have hp : f.pendingWalPreparation = false := by simpa using hp
  refine ⟨hp, hr, ?_, ?_, hb⟩
  · intro hs
    rcases hc with hd | hn
    · exact hd
    · simp [hn] at hs
  · intro hd
    obtain ⟨hl, hrc⟩ := hv ⟨hd, hp⟩
    refine ⟨?_, isSome_iff_ne_none.mpr hl, isSome_iff_ne_none.mpr hrc⟩
    by_contra hnot
    exact ht ⟨by simpa using hnot, hd, hp⟩

theorem Coherent.wroteBack (h : Coherent e) (hf : e.frames.find? p = some f)
    (hp : p ≠ 0 ∧ p < e.disk.pageCount) (hv : validateWalDependency e.log f true = .ok ()) :
    Coherent ({ e with disk := e.disk.perform (.write p f.data) }.setFrame p
      { f with dirty := false, recLsn := none }) := by
  have ho := h.frames p f hf
  have hs := (validateWalDependency_forWrite hv).1
  have hc := pageCount_overwrite hp.2 f.data
  refine h.update p (fun q hq => by simp [hq]) ?_ hc.symm.le
    (.of_context p rfl) ?_ ?_ ?_ ?_ ?_
  · intro q hq
    exact (page_perform_write e.disk p q f.data).trans (if_neg hq)
  · intro f' hf'
    obtain rfl := eq_of_find?_insert hf'
    refine ⟨⟨hp.1, hp.2.trans_eq hc.symm⟩, by simp [hs], ho.guarded, ?_,
      by simp, by simp⟩
    intro _
    show SameContents f.data ((e.disk.perform (.write p f.data)).page p)
    rw [page_perform_write, if_pos rfl]
    exact .refl f.data
  · intro ctx s ht hst
    obtain ⟨hl, hi⟩ := (h.intents ctx ht).2 p s hst
    refine ⟨hl.trans_eq hc.symm, hi.existed, hi.paired, ?_, ?_⟩
    · intro f' hf' _
      obtain rfl := eq_of_find?_insert hf'
      exact hi.settled f hf hs
    · intro _
      show normalized ((e.disk.perform (.write p f.data)).page p) = s.current
      rw [page_perform_write, if_pos rfl]
      exact hi.settled f hf hs
  · exact fun q _ hq => hq.trans_eq hc
  · intro ctx ht hr hq
    exact h.grown ctx ht p hr hp.2
  · show deserializeDatabaseHeader ((e.disk.perform (.write p f.data)).page 0) = _
    rw [page_perform_write, if_neg (Ne.symm hp.1)]
    exact h.header

theorem Coherent.appended (h : Coherent e) {confirmed : TransactionContext}
    (ht : e.context = some ctx)
    (hcn : ctx.notePhysicalPageAppend e.log e.disk.pageCount = .ok confirmed)
    (hi : confirmed.notePageWriteIntent e.disk.pageCount zero = .ok ctx') :
    Coherent (e.extended ctx') := by
  have hk := (notePhysicalPageAppend_keeps hcn).1
  have hm := notePageWriteIntent_same hi
  have hc := pageCount_extend e.disk zero
  have hex := hk.startPageCount.trans_le (h.intents ctx ht).1
  -- the page is new to the file, so no write intent can be on it yet
  have hu : confirmed.pages.find? e.disk.pageCount = none := by
    rw [hk.pages]
    by_contra hsome
    obtain ⟨s, hs⟩ := ne_none_iff_exists'.mp hsome
    exact lt_irrefl _ ((h.intents ctx ht).2 _ s hs).1
  have hfr : ∃ s, intentState confirmed.startPageCount e.disk.pageCount zero = .ok s ∧
      ctx'.pages.find? e.disk.pageCount = some s := by
    rcases notePageWriteIntent_ok hi with
      ⟨s, hs, _⟩ | ⟨_, s, hs, rfl⟩
    · rw [hu] at hs
      simp at hs
    · exact ⟨s, hs, by simp [setPage]⟩
  obtain ⟨fresh, hs, hn⟩ := hfr
  refine h.update e.disk.pageCount (fun q hq => by simp [hq]) ?_
    ((Nat.lt_succ_self _).trans_eq hc.symm).le (.running ht rfl (hk.sameAfter hm))
    ?_ ?_ ?_ ?_ ?_
  · intro q hq
    exact (page_perform_write e.disk _ q zero).trans (if_neg hq)
  · intro f' hf'
    obtain rfl := eq_of_find?_insert hf'
    exact ⟨⟨h.nonempty.ne', hc ▸ Nat.lt_succ_self _⟩, fun _ => ⟨rfl, ctx', fresh, rfl, hn⟩,
      fun _ => ⟨by simp, ctx', fresh, rfl, hn⟩, by simp, by simp, by simp⟩
  · intro run s hr hd
    cases hr
    rw [hn] at hd
    cases hd
    refine ⟨hc ▸ Nat.lt_succ_self _, ?_⟩
    rw [hm.startPageCount]
    refine .fresh hs ?_ ?_
    · intro f hf
      obtain rfl := eq_of_find?_insert hf
      rfl
    · intro _
      show SameContents ((e.disk.perform (.write e.disk.pageCount zero)).page e.disk.pageCount) _
      rw [page_perform_write, if_pos rfl, if_neg (by omega)]
      exact .refl zero
  · intro q hq hlt
    have : q < e.disk.pageCount + 1 := hc ▸ hlt
    omega
  · intro run hr _ _
    cases hr
    exact ⟨fresh, hn⟩
  · show deserializeDatabaseHeader ((e.disk.perform (.write e.disk.pageCount zero)).page 0) = _
    rw [page_perform_write, if_neg h.nonempty.ne]
    exact h.header

theorem Coherent.not_unwritten_zero (h : Coherent e) : ¬ Unwritten e 0 := by
  rintro ⟨f, hf, _⟩
  exact (h.frames 0 f hf).located.1 rfl

theorem Coherent.headerIntended (h : Coherent e) (hct : e.context = some ctx)
    (hi : ctx.notePageWriteIntent 0 (e.disk.page 0) = .ok ctx') :
    Coherent { e with context := some ctx' } := by
  have ht := notePageWriteIntent_touched hi
  refine h.update 0 (fun _ _ => rfl) (fun _ _ => rfl) le_rfl
    (.running hct rfl (notePageWriteIntent_same hi)) ?_ ?_ (fun _ _ hq => hq) ?_ h.header
  · intro f hf
    exact absurd rfl (h.frames 0 f hf).located.1
  · intro run s hr hs
    cases hr
    refine ⟨h.nonempty, ?_⟩
    rcases notePageWriteIntent_ok hi with
      ⟨old, ho, rfl⟩ | ⟨hn, fresh, hfr, rfl⟩
    · rw [ho] at hs
      cases hs
      obtain ⟨_, hc⟩ := (h.intents ctx hct).2 0 _ ho
      exact ⟨hc.existed, hc.paired, hc.settled, hc.stored⟩
    · simp only [setPage, find?_insert, if_true, some.injEq] at hs
      subst hs
      refine .fresh hfr ?_ ?_
      · intro f hf
        exact absurd rfl (h.frames 0 f hf).located.1
      · intro _
        have hsr : 0 < ctx.startPageCount := by
          by_contra hge
          obtain ⟨s, hs⟩ := h.grown ctx hct 0 (by omega) h.nonempty
          rw [hn] at hs
          simp at hs
        show SameContents (e.disk.page 0) (if 0 < ctx.startPageCount then e.disk.page 0 else zero)
        rw [if_pos hsr]
        exact .refl _
  · intro run hr _ _
    cases hr
    exact ht

theorem Coherent.persisted (h : Coherent e) {prepared : PreparedPage} {disk : DiskManager}
    {header : DatabaseHeader} (ht : e.context = some ctx) (hs : ctx.pages.find? 0 = some s)
    (hpp : ctx.preparePageForWrite e.log e.updateMode
      e.disk.databaseHeader.formatVersion 0 (serializeDatabaseHeader header) = .ok prepared)
    (hd : e.disk.writePhysicalPage 0 prepared.page = .ok disk) :
    Coherent { e with context := some prepared.context, log := log, disk := disk } := by
  have ho := preparePageForWrite_outcome hpp
  have hw := writePhysicalPage_wrote hd
  have hc : disk.pageCount = e.disk.pageCount := by
    rw [hw.count]
    have := h.nonempty
    omega
  have hp : disk.page 0 = prepared.page := by rw [hw.pages, if_pos rfl]
  refine h.update 0 (fun _ _ => rfl) ?_ hc.symm.le
    (.running ht rfl ho.same) ?_ ?_ ?_ ?_ ?_
  · intro q hq
    exact (hw.pages q).trans (if_neg hq)
  · intro f hf
    exact absurd rfl (h.frames 0 f hf).located.1
  · intro running after hr ha
    cases hr
    obtain ⟨hcr, _, hpr, old, hl, hex, _, _⟩ :=
      prepareOutcome_current ho ha (fun old hl => ((h.intents ctx ht).2 0 old hl).2.paired)
    refine ⟨h.nonempty.trans_eq hc.symm, ?_, hpr, ?_, ?_⟩
    · rw [ho.same.startPageCount, hex]
      exact ((h.intents ctx ht).2 0 old hl).2.existed
    · intro f hf
      exact absurd rfl (h.frames 0 f hf).located.1
    · intro _
      rw [hp, hcr]
      exact ho.sameContents
  · exact fun q _ hq => hq.trans_eq hc
  · intro running hr _ _
    cases hr
    exact prepareOutcome_touched ho ⟨s, hs⟩
  · rw [hp]
    exact hw.metadata rfl

/-- Every effect keeps frames, write intents and file coherent. -/
theorem Coherent.effect (h : Coherent e) (he : Effect e e') : Coherent e' := by
  cases he with
  | pool he =>
    cases he with
    | repinned pins guarded hf hg => exact h.repinned hf hg
    | loaded hf hp => exact h.loaded hf hp
    | evicted hf hcln => exact h.evicted hf hcln
    | prepared hc hf hdty hprep hfr => exact h.prepared hc hf hdty hprep hfr
    | forced lsn hlog => exact h.relog rfl rfl (.inl rfl)
    | wroteBack hf hp hval hdur => exact h.wroteBack hf hp hval
  | intended hc hf hpin hint => exact h.intended hc hf hpin hint
  | mutated data hf hg => exact h.mutated data hf hg
  | reserved hc hrsvd =>
    have hk := prepareForPhysicalPageAppend_keeps hrsvd
    exact h.relog rfl rfl (.inr ⟨_, _, hc, rfl, hk.startPageCount, hk.pages⟩)
  | appended hc hroom hconf hint => exact h.appended hc hconf hint
  | headerIntended hc hexists hint => exact h.headerIntended hc hint
  | persisted hdr hc hst hexists hprep hlog hdisk =>
    exact h.persisted hc hst hprep hdisk
  | @bounded ctx hc hpins hset =>
    refine h.relog rfl rfl (.inr ⟨ctx, { ctx with safeBoundary := true }, hc, ?_, rfl, rfl⟩)
    simp only [markSafeBoundary, hc, map_some]

theorem Coherent.effects (h : Coherent e) (he : Effects e e') : Coherent e' := by
  induction he with
  | refl => exact h
  | tail _ heff ih => exact ih.effect heff

end MiniDb
