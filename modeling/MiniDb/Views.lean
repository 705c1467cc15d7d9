import MiniDb.CleanupSteps
import MiniDb.OwnedHistory

/-!
The database as a reader sees it while a transaction runs. Pages the transaction
has not taken for writing look as they did when it began, and the image kept of
a page it has taken is what the page looked like then.
-/
namespace MiniDb
open ByteBlock Outcome Engine TransactionContext

variable {e e' : Engine} {log : LogManager} {p : Nat} {base : Nat → Page}
  {ctx : TransactionContext}

/-- Relative to the views `base` the running transaction started from. -/
structure ViewKept (base : Nat → Page) (e : Engine) : Prop where
  untouched : ∀ context p, e.context = some context → p < context.startPageCount →
    context.pages.find? p = none → SameContents (e.view p) (base p)
  touched : ∀ context p state, e.context = some context → p < context.startPageCount →
    context.pages.find? p = some state → SameContents state.before (base p)

theorem view_of_resident {f : Frame} (h : e.frames.find? p = some f) : e.view p = f.data := by
  simp [view, h]

theorem view_of_absent (h : e.frames.find? p = none) : e.view p = e.disk.page p := by
  simp [view, h]

theorem view_congr (hf : e'.frames.find? p = e.frames.find? p)
    (hp : e'.disk.page p = e.disk.page p) : e'.view p = e.view p := by
  simp only [view, hf, hp]

/-- An effect at one page leaves the views of all others. -/
theorem ViewKept.update (p : Nat) (h : ViewKept base e) (hw : ∀ q, q ≠ p → e'.view q = e.view q)
    (hin : IntentsAgree e e' p) (hp : ∀ ctx ctx', e.context = some ctx → e'.context = some ctx' →
      p < ctx.startPageCount → (ctx'.pages.find? p = none →
        ctx.pages.find? p = none ∧ SameContents (e'.view p) (e.view p)) ∧
      ∀ s', ctx'.pages.find? p = some s' →
        (∃ s, ctx.pages.find? p = some s ∧ s'.before = s.before) ∨
        (ctx.pages.find? p = none ∧ SameContents s'.before (e.view p))) : ViewKept base e' := by
  cases hin with
  | idle _ hi =>
    refine ⟨?_, ?_⟩
    · intro ctx q hc
      rw [hi] at hc
      simp at hc
    · intro ctx q s hc
      rw [hi] at hc
      simp at hc
  | @running ctx ctx' hc hc' hsame =>
    refine ⟨?_, ?_⟩
    · intro run q hr hq hn
      rw [hc'] at hr
      cases hr
      rw [hsame.startPageCount] at hq
      by_cases hqp : q = p
      · subst hqp
        obtain ⟨ho, hv⟩ := (hp ctx ctx' hc hc' hq).1 hn
        exact hv.trans (h.untouched ctx q hc hq ho)
      · rw [hw q hqp]
        rw [hsame.pages q hqp] at hn
        exact h.untouched ctx q hc hq hn
    · intro run q s' hr hq hs'
      rw [hc'] at hr
      cases hr
      rw [hsame.startPageCount] at hq
      by_cases hqp : q = p
      · subst hqp
        rcases (hp ctx ctx' hc hc' hq).2 s' hs' with
          ⟨s, hs, hb⟩ | ⟨hn, hb⟩
        · rw [hb]
          exact h.touched ctx q s hc hq hs
        · exact hb.trans (h.untouched ctx q hc hq hn)
      · rw [hsame.pages q hqp] at hs'
        exact h.touched ctx q s' hc hq hs'

/-- The same write intents, and a page that looks as it did. -/
theorem ViewKept.steady (p : Nat) (h : ViewKept base e) (hw : ∀ q, q ≠ p → e'.view q = e.view q)
    (hv : SameContents (e'.view p) (e.view p)) (hc : e'.context = e.context) :
    ViewKept base e' := by
  refine h.update p hw (.of_context p hc) ?_
  intro ctx ctx' hl hn _
  rw [hc, hl] at hn
  cases hn
  exact ⟨fun ho => ⟨ho, hv⟩, fun s hs => .inl ⟨s, hs, rfl⟩⟩

/-- A write intent keeps the image the page shows. -/
theorem ViewKept.noteIntent {bef : Page} {ctx' : TransactionContext} (h : ViewKept base e)
    (hc : e.context = some ctx) (hc' : e'.context = some ctx')
    (hv : ∀ q, q ≠ p → e'.view q = e.view q) (hb : bef = e.view p)
    (hi : ctx.notePageWriteIntent p bef = .ok ctx') : ViewKept base e' := by
  refine h.update p hv (.running hc hc' (notePageWriteIntent_same hi)) ?_
  intro run run' hr hr' hp
  rw [hc] at hr
  rw [hc'] at hr'
  cases hr
  cases hr'
  rcases notePageWriteIntent_ok hi with
    ⟨s, hs, rfl⟩ | ⟨hn, s, hs, rfl⟩
  · refine ⟨fun hn => ?_, fun s' hs' => .inl ⟨s', hs', rfl⟩⟩
    rw [hs] at hn
    simp at hn
  · refine ⟨fun hf => ?_, fun s' hs' => .inr ⟨hn, ?_⟩⟩
    · simp [setPage] at hf
    · simp only [setPage, SortedMap.find?_insert, if_true, Option.some.injEq] at hs'
      subst hs'
      rw [(intentState_ok hs).2.1, if_pos hp, hb]
      exact .refl _

theorem prepareOutcome_before {mode : WalUpdateMode} {formatVersion : Nat} {aft : Page}
    {prep : PreparedPage} (h : ctx.PrepareOutcome log mode formatVersion p aft prep) :
    (prep.context.pages.find? p = none → ctx.pages.find? p = none) ∧
      ∀ s', prep.context.pages.find? p = some s' →
        ∃ s, ctx.pages.find? p = some s ∧ SameOrigin s s' := by
  cases h with
  | absent hp =>
    refine ⟨id, ?_⟩
    intro s' hs'
    exact ⟨s', hs', .refl s'⟩
  | unchanged hs =>
    refine ⟨id, ?_⟩
    intro s' hs'
    exact ⟨s', hs', .refl s'⟩
  | @logged s _ hs haft hbef _ hlgd =>
    obtain ⟨_, app, _, lsn, _, _, hc, _, _⟩ :=
      logged_describes haft hbef hlgd
    rw [hc]
    simp only [setPage, SortedMap.find?_insert, if_true, Option.some.injEq]
    refine ⟨by simp, ?_⟩
    rintro s' rfl
    exact ⟨s, hs, rfl, rfl, rfl⟩

theorem ViewKept.prepared {aft : Page} {mode : WalUpdateMode} {formatVersion : Nat}
    {prep : PreparedPage} (h : ViewKept base e) (hc : e.context = some ctx)
    (hc' : e'.context = some prep.context) (hw : ∀ q, q ≠ p → e'.view q = e.view q)
    (ho : ctx.PrepareOutcome log mode formatVersion p aft prep)
    (hv : ctx.pages.find? p = none → SameContents (e'.view p) (e.view p)) : ViewKept base e' := by
  refine h.update p hw (.running hc hc' ho.same) ?_
  intro run run' hr hr' hp
  rw [hc] at hr
  rw [hc'] at hr'
  cases hr
  cases hr'
  obtain ⟨hn, hm⟩ := prepareOutcome_before ho
  refine ⟨fun ha => ⟨hn ha, hv (hn ha)⟩, ?_⟩
  intro s' hs'
  obtain ⟨s, hs, hor⟩ := hm s' hs'
  exact .inl ⟨s, hs, hor.before⟩

@[simp] theorem view_setFrame (e : Engine) (p q : Nat) (f : Frame) :
    (e.setFrame p f).view q = if q = p then f.data else e.view q := by
  simp only [view, find?_setFrame]
  by_cases hq : q = p
  · simp [hq]
  · simp [hq, setFrame]

/-- A frame that holds what one sees at its page, over a file that is as it was elsewhere. -/
theorem view_reframed {f : Frame} (hf : f.data = e.view p) (hr : e'.frames = e.frames)
    (hp : ∀ q, q ≠ p → e'.disk.page q = e.disk.page q) (q : Nat) :
    (e'.setFrame p f).view q = e.view q := by
  rw [view_setFrame]
  split
  · rename_i hq
    rw [hq, hf]
  · rename_i hq
    exact view_congr (by rw [hr]) (hp q hq)

theorem preparedFrame_data {f f' : Frame} {data : Page} {lsn : Option Nat}
    (h : preparedFrame log f data lsn = .ok f') : f'.data = data := by
  cases lsn with
  | none =>
    simp only [preparedFrame, Except.ok.injEq] at h
    rw [← h]
  | some lsn =>
    simp only [preparedFrame, assignPreparedLsn, ok_iff] at h
    obtain ⟨_, _, _, _, rfl⟩ := h
    rfl

theorem Coherent.header_absent (h : Coherent e) : e.frames.find? 0 = none := by
  cases hf : e.frames.find? 0 with
  | none => rfl
  | some f => exact absurd rfl (h.frames 0 f hf).located.1

theorem ViewKept.effect (hh : Coherent e) (h : ViewKept base e) (he : Effect e e') :
    ViewKept base e' := by
  cases he with
  | pool he =>
    cases he with
    | @repinned p f pins guarded hf _ =>
      refine h.steady p (fun q hq => by simp [hq]) ?_ rfl
      rw [view_setFrame, if_pos rfl, view_of_resident hf]
      exact .refl _
    | @loaded p hf hp =>
      refine h.steady p (fun q hq => ?_) ?_ rfl
      · simp [installPage, hq]
      · rw [installPage, view_setFrame, if_pos rfl, view_of_absent hf]
        exact .refl _
    | @evicted p f hf hcln =>
      refine h.steady p (fun q hq => view_congr (by simp [hq]) rfl) ?_ rfl
      rw [view_of_resident hf, view_of_absent (by simp)]
      exact ((hh.frames p f hf).clean hcln).symm
    | @prepared p f f' ctx prep hc hf hdty hprep hfr =>
      have ho := preparePageForWrite_outcome hprep
      refine h.prepared hc rfl (fun q hq => ?_) ho (fun _ => ?_)
      · rw [view_setFrame, if_neg hq]
        exact view_congr rfl rfl
      · rw [view_setFrame, if_pos rfl, view_of_resident hf, preparedFrame_data hfr]
        exact ho.sameContents
    | forced lsn hlog => exact h.steady 0 (fun q _ => view_congr rfl rfl) (.refl _) rfl
    | @wroteBack p f hf hp hval hdur =>
      refine h.steady p (fun q hq => ?_) ?_ rfl
      · rw [view_setFrame, if_neg hq]
        exact view_congr rfl (by simp [hq])
      · rw [view_setFrame, if_pos rfl, view_of_resident hf]
        exact .refl _
  | @intended p f ctx ctx' hc hf hpin hint =>
    refine h.noteIntent hc rfl (fun q hq => ?_) (view_of_resident hf).symm hint
    rw [view_setFrame, if_neg hq]
    exact view_congr rfl rfl
  | @mutated p f data hf hgrd =>
    obtain ⟨_, ctx, s, hc, hs⟩ := (hh.frames p f hf).guarded hgrd
    refine h.update p (fun q hq => by simp [hq]) (.of_context p rfl) ?_
    intro run run' hr hr' _
    have hm := Option.some.inj (hr'.symm.trans hr)
    have hcr := Option.some.inj (hc.symm.trans hr)
    subst hm hcr
    refine ⟨fun hn => ?_, fun s' hs' => .inl ⟨s', hs', rfl⟩⟩
    rw [hs] at hn
    simp at hn
  | @reserved ctx ctx' log lsn hc hrsvd =>
    have hk := prepareForPhysicalPageAppend_keeps hrsvd
    refine h.update 0 (fun q _ => view_congr rfl rfl) (.running hc rfl (hk.same 0)) ?_
    intro run run' hr hr' _
    rw [hc] at hr
    cases hr
    cases hr'
    rw [hk.pages]
    exact ⟨fun hn => ⟨hn, .refl _⟩, fun s hs => .inl ⟨s, hs, rfl⟩⟩
  | @appended ctx confirmed ctx' hc hroom hconf hint =>
    have hs := (notePhysicalPageAppend_keeps hconf).1.sameAfter (notePageWriteIntent_same hint)
    refine h.update e.disk.pageCount (fun q hq => ?_) (.running hc rfl hs) ?_
    · rw [view_setFrame, if_neg hq]
      exact view_congr rfl (by simp [hq])
    · intro run run' hr _ hlt
      rw [hc] at hr
      cases hr
      exact absurd ((hh.intents ctx hc).1) hlt.not_ge
  | headerIntended hc hexists hint =>
    exact h.noteIntent hc rfl (fun q _ => view_congr rfl rfl)
      (view_of_absent hh.header_absent).symm hint
  | @persisted ctx prep log disk s hdr hc hs hexists hprep hlog hdisk =>
      have ho := preparePageForWrite_outcome hprep
      have hw := writePhysicalPage_wrote hdisk
      refine h.prepared hc rfl (fun q hq => ?_) ho (fun hn => ?_)
      · exact view_congr rfl ((hw.pages q).trans (if_neg hq))
      · rw [hs] at hn
        simp at hn
  | @bounded ctx hc hpins hset =>
    have hc' : e.markSafeBoundary.context = some { ctx with safeBoundary := true } := by
      simp [markSafeBoundary, hc]
    refine h.update 0 (fun q _ => view_congr rfl rfl)
      (.running hc hc' ⟨⟨rfl, rfl, rfl⟩, fun _ _ => rfl⟩) ?_
    intro run run' hr hr' _
    rw [hc] at hr
    rw [hc'] at hr'
    cases hr
    cases hr'
    exact ⟨fun hn => ⟨hn, .refl _⟩, fun s hs => .inl ⟨s, hs, rfl⟩⟩

theorem ViewKept.effects (hc : Coherent e) (h : ViewKept base e) (he : Effects e e') :
    ViewKept base e' := by
  induction he with
  | refl => exact h
  | tail hbef heff ih => exact ih.effect (hc.effects hbef) heff

/-- A transaction that just began has touched nothing. -/
theorem beginTransaction_viewKept {prot : RollbackProtocol} (h : e.beginTransaction prot = .ok e') :
    ViewKept e.view e' := by
  simp only [beginTransaction, ok_iff] at h
  obtain ⟨_, _, _, _, _, _, _, _, rfl⟩ := h
  refine ⟨?_, ?_⟩
  · intro ctx p _ _ _
    rw [view_congr rfl rfl]
    exact .refl _
  · intro ctx p s hc _ hs
    cases hc
    simp [start] at hs

end MiniDb
