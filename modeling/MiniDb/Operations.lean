import MiniDb.Effects

/-!
Every call on the engine that returned normally is a sequence of effects, with
the switch of the running transaction at its ends for begin, commit and
rollback. States reached by runs are therefore coherent.
-/
namespace MiniDb
open ByteBlock Outcome Engine TransactionContext SortedMap List

variable {e e' : Engine} {f : Frame} {order : List Nat} {log log' : LogManager} {p : Nat}
  {victim : Option Nat}

theorem flushUpToIfValid_grows {lsn : Option Nat} (h : flushUpToIfValid log lsn = .ok log') :
    LogGrows log log' := by
  cases lsn with
  | none =>
    simp only [flushUpToIfValid, Except.ok.injEq] at h
    exact h ▸ .refl
  | some lsn => exact .single (.flush h)

/-- Effects move the log only by appends and flushes. -/
theorem Effect.logGrows (h : Effect e e') : LogGrows e.log e'.log := by
  cases h with
  | intended | mutated | appended | headerIntended | bounded => exact .refl
  | pool h =>
    cases h with
    | repinned | loaded | evicted | wroteBack => exact .refl
    | prepared _ _ _ hprep _ => exact (preparePageForWrite_outcome hprep).grows
    | forced lsn hlog => exact .single (.flush hlog)
  | reserved _ hrsvd =>
    exact prepareForPhysicalPageAppend_grows hrsvd
  | persisted _ _ _ _ hprep hlog _ =>
    exact (preparePageForWrite_outcome hprep).grows.trans (flushUpToIfValid_grows hlog)

theorem Effects.logGrows (h : Effects e e') : LogGrows e.log e'.log := by
  induction h with
  | refl => exact .refl
  | tail _ heff ih => exact ih.trans heff.logGrows

/-- What the effects of an operation rely on. -/
structure Ready (e : Engine) : Prop where
  coherent : Coherent e
  log : LogSound e.log

theorem Ready.effects (h : Ready e) (he : Effects e e') : Ready e' :=
  ⟨h.coherent.effects he, he.logGrows.sound h.log⟩

theorem PoolEffects.effects (h : PoolEffects e e') : Effects e e' :=
  h.lift id fun _ _ => .pool

theorem prepareFrameForWrite_pooled (h : e.prepareFrameForWrite p = .ok e') : PoolEffects e e' := by
  unfold prepareFrameForWrite at h
  split at h
  · simp only [Except.ok.injEq] at h
    exact h ▸ .refl
  · rename_i f hf
    split at h
    · simp only [Except.ok.injEq] at h
      exact h ▸ .refl
    · rename_i hn
      obtain ⟨hd, hr⟩ := not_or.mp hn
      simp only [ok_iff, Prod.exists] at h
      obtain ⟨prep, data, lsn, hp, f', hfr, rfl⟩ := h
      unfold Engine.preparePageForWrite at hp
      split at hp
      · rename_i ho
        simp [ho] at hr
      · rename_i ctx hc
        simp only [ok_iff] at hp
        obtain ⟨pg, hg, rfl, rfl, rfl⟩ := hp
        exact .single (.prepared hc hf (by simpa using hd) hg hfr)

/-- Which frames are resident, and what stays of them, when pages are prepared. -/
theorem validateWalDependency_of_records {forWrite : Bool} (hr : log'.records = log.records)
    (h : validateWalDependency log f forWrite = .ok ()) :
    validateWalDependency log' f forWrite = .ok () := by
  have hc : ∀ lsn, log'.containsLsn lsn = log.containsLsn lsn := by
    intro lsn
    simp only [LogManager.containsLsn, hr]
  simp only [validateWalDependency, hc] at h ⊢
  exact h

theorem ensureWalDurableBeforePageWrite_ok (hs : LogSound log)
    (h : ensureWalDurableBeforePageWrite log f = .ok log') :
    validateWalDependency log' f true = .ok () ∧
      (f.walDependencyRetired = true ∨ ∀ lsn ∈ f.pageLsn, log'.IsDurable lsn) ∧
      (log' = log ∨ ∃ lsn, log.flushUpTo lsn = .ok log') := by
  simp only [ensureWalDurableBeforePageWrite, bind_ok] at h
  obtain ⟨_, hv, h⟩ := h
  split at h
  · rename_i hr
    simp only [pure_ok] at h
    subst h
    exact ⟨hv, .inl hr, .inl rfl⟩
  · cases hl : f.pageLsn with
    | none =>
      simp only [hl, ensureWalDurable, Except.ok.injEq] at h
      subst h
      exact ⟨hv, .inr (by simp), .inl rfl⟩
    | some lsn =>
      simp only [hl, ensureWalDurable, bind_ok] at h
      obtain ⟨_, _, he⟩ := h
      obtain ⟨hd, hc⟩ := ensureDurable_ok hs he
      refine ⟨?_, .inr (by simpa using hd), ?_⟩
      · rcases hc with rfl | hf
        · exact hv
        · exact validateWalDependency_of_records (flushUpTo_fields hf).1 hv
      · exact hc.imp id fun hf => ⟨lsn, hf⟩

/-- Preparing a page touches its own frame only, and leaves it pinned as it was. -/
structure FrameKept (e e' : Engine) (p : Nat) : Prop where
  others : ∀ q, q ≠ p → e'.frames.find? q = e.frames.find? q
  resident : ∀ f, e.frames.find? p = some f →
    ∃ f', e'.frames.find? p = some f' ∧ f'.pinCount = f.pinCount

theorem preparedFrame_keeps {f' : Frame} {data : Page} {lsn : Option Nat}
    (h : preparedFrame log f data lsn = .ok f') :
    f'.pinCount = f.pinCount ∧ f'.writeGuarded = f.writeGuarded ∧
      f'.pendingWalPreparation = false := by
  cases lsn with
  | none =>
    simp only [preparedFrame, Except.ok.injEq] at h
    subst h
    exact ⟨rfl, rfl, rfl⟩
  | some lsn =>
    simp only [preparedFrame, assignPreparedLsn, ok_iff] at h
    obtain ⟨_, _, _, _, rfl⟩ := h
    exact ⟨rfl, rfl, rfl⟩

theorem prepareFrameForWrite_kept (h : e.prepareFrameForWrite p = .ok e') : FrameKept e e' p := by
  have hs : FrameKept e e p := ⟨fun _ _ => rfl, fun f hf => ⟨f, hf, rfl⟩⟩
  unfold prepareFrameForWrite at h
  split at h
  · simp only [Except.ok.injEq] at h
    exact h ▸ hs
  · rename_i f hf
    split at h
    · simp only [Except.ok.injEq] at h
      exact h ▸ hs
    · simp only [ok_iff, Prod.exists] at h
      obtain ⟨prep, data, lsn, hp, f', hr, rfl⟩ := h
      have hfs : prep.frames = e.frames := by
        unfold Engine.preparePageForWrite at hp
        split at hp
        · simp only [ok_iff] at hp
          rw [hp.1]
        · simp only [ok_iff] at hp
          obtain ⟨_, _, rfl, _⟩ := hp
          rfl
      refine ⟨fun q hq => by simp [hq, hfs], ?_⟩
      intro g hg
      rw [hf] at hg
      cases hg
      exact ⟨f', find?_setFrame_self _ p f', (preparedFrame_keeps hr).1⟩

theorem flushUnpinnedDirtyFrame_pooled (h : Ready e) (hfl : e.flushUnpinnedDirtyFrame p = .ok e') :
    PoolEffects e e' := by
  simp only [flushUnpinnedDirtyFrame, bind_ok] at hfl
  obtain ⟨prep, hp, hfl⟩ := hfl
  have he := prepareFrameForWrite_pooled hp
  split at hfl
  · simp only [pure_ok] at hfl
    exact hfl ▸ he
  · rename_i f hf
    simp only [ok_iff, writePage_ok] at hfl
    obtain ⟨log, hl, disk, ⟨hz, _, hlt, rfl⟩, rfl⟩ := hfl
    obtain ⟨hv, hd, hc⟩ :=
      ensureWalDurableBeforePageWrite_ok (h.effects he.effects).log hl
    have hr : PoolEffects prep { prep with log := log } := by
      rcases hc with rfl | ⟨lsn, hfl⟩
      · exact .refl
      · exact .single (.forced lsn hfl)
    exact (he.trans hr).tail (.wroteBack hf ⟨hz, hlt⟩ hv hd)

/-- A flushed page stays resident, clean, and pinned as it was. -/
theorem flushUnpinnedDirtyFrame_kept (hf : e.frames.find? p = some f)
    (h : e.flushUnpinnedDirtyFrame p = .ok e') :
    (∀ q, q ≠ p → e'.frames.find? q = e.frames.find? q) ∧
      ∃ f', e'.frames.find? p = some f' ∧ f'.dirty = false := by
  simp only [flushUnpinnedDirtyFrame, bind_ok] at h
  obtain ⟨prep, hp, h⟩ := h
  have hk := prepareFrameForWrite_kept hp
  obtain ⟨f', hf', _⟩ := hk.resident f hf
  simp only [hf', ok_iff] at h
  obtain ⟨_, _, _, _, rfl⟩ := h
  exact ⟨fun q hq => by simp [hq, hk.others q hq], _, find?_setFrame_self _ p _, rfl⟩

theorem availableFrame_pooled (h : Ready e) (ha : e.availableFrame victim = .ok e') :
    PoolEffects e e' := by
  unfold availableFrame at ha
  split at ha
  · simp only [Except.ok.injEq] at ha
    exact ha ▸ .refl
  · split at ha
    · simp at ha
    · rename_i v f hv
      obtain ⟨_, _, hn⟩ := Option.bind_eq_some_iff.mp hv
      obtain ⟨_, hf, heq⟩ := Option.map_eq_some_iff.mp hn
      cases heq
      simp only [flushVictimIfDirty, ok_iff] at ha
      obtain ⟨flushed, ⟨_, _, hl⟩, rfl⟩ := ha
      split at hl
      · obtain ⟨_, f', hf', hc⟩ := flushUnpinnedDirtyFrame_kept hf hl
        exact (flushUnpinnedDirtyFrame_pooled h hl).tail (.evicted hf' hc)
      · rename_i hc
        simp only [pure_ok] at hl
        subst hl
        exact .single (.evicted hf (by simpa using hc))

theorem availableFrame_absent (hp : e.frames.find? p = none)
    (h : e.availableFrame victim = .ok e') : e'.frames.find? p = none := by
  unfold availableFrame at h
  split at h
  · simp only [Except.ok.injEq] at h
    exact h ▸ hp
  · split at h
    · simp at h
    · rename_i v f hc
      obtain ⟨_, _, hn⟩ := Option.bind_eq_some_iff.mp hc
      obtain ⟨_, hf, heq⟩ := Option.map_eq_some_iff.mp hn
      cases heq
      have hv : p ≠ v := by
        rintro rfl
        rw [hf] at hp
        simp at hp
      simp only [flushVictimIfDirty, ok_iff] at h
      obtain ⟨flushed, ⟨_, _, hl⟩, rfl⟩ := h
      simp only [find?_erase, if_neg hv]
      split at hl
      · rw [(flushUnpinnedDirtyFrame_kept hf hl).1 p hv, hp]
      · simp only [pure_ok] at hl
        exact hl ▸ hp

theorem fetchPage_pooled (h : Ready e) (ht : e.fetchPage p victim = .ok e') :
    PoolEffects e e' ∧ ∃ f, e'.frames.find? p = some f ∧ f.pinCount ≠ 0 := by
  simp only [fetchPage, ok_iff] at ht
  obtain ⟨_, hz, _, _, ht⟩ := ht
  split at ht
  · rename_i f hf
    simp only [ok_iff] at ht
    obtain ⟨_, _, rfl⟩ := ht
    refine ⟨.single (.repinned (f.pinCount + 1) f.writeGuarded hf ?_), _,
      find?_setFrame_self e p _, Nat.succ_ne_zero _⟩
    exact fun hg => ⟨hg, Nat.succ_ne_zero _⟩
  · rename_i hf
    simp only [ok_iff, DiskManager.readPage, DiskManager.requireExistingDataPage] at ht
    obtain ⟨ready, ha, _, ⟨_, ⟨_, _, _, hlt⟩, rfl⟩, rfl⟩ := ht
    exact ⟨(availableFrame_pooled h ha).tail (.loaded (availableFrame_absent hf ha) ⟨hz, hlt⟩), _,
      find?_setFrame_self ready p _, Nat.one_ne_zero⟩

theorem fetchPageWrite_effects (h : Ready e) (ht : e.fetchPageWrite p victim = .ok e') :
    Effects e e' := by
  simp only [fetchPageWrite, bind_ok] at ht
  obtain ⟨_, _, fetched, hfe, hn⟩ := ht
  obtain ⟨he, f, hf, hp⟩ := fetchPage_pooled h hfe
  unfold noteGuardWriteIntent at hn
  split at hn
  · simp at hn
  · simp at hn
  · rename_i ctx fr hc hr
    rw [hf] at hr
    cases hr
    simp only [ok_iff] at hn
    obtain ⟨ctx', hi, rfl⟩ := hn
    exact he.effects.tail (.intended hc hf hp hi)

theorem mutate_effects {data : Page} (hm : e.mutate p data = .ok e') : Effects e e' := by
  unfold mutate at hm
  split at hm
  · rename_i f hf
    simp only [ok_iff] at hm
    obtain ⟨_, ⟨hg, _⟩, rfl⟩ := hm
    exact .single (.mutated data hf hg)
  · simp at hm

theorem releasePin_pooled (hr : e.releasePin p = .ok e') : PoolEffects e e' := by
  unfold releasePin at hr
  split at hr
  · rename_i f hf
    simp only [ok_iff] at hr
    obtain ⟨_, _, rfl⟩ := hr
    exact .single (.repinned (f.pinCount - 1) false hf (by simp))
  · simp at hr

theorem reserveNextPage_effects (h : Ready e) (hr : e.reserveNextPage = .ok e') : Effects e e' := by
  unfold reserveNextPage at hr
  split at hr
  · simp at hr
  · rename_i ctx hc
    simp only [ok_iff, Prod.exists] at hr
    obtain ⟨_, _, ctx', log, lsn, hs, frc, he, rfl⟩ := hr
    have hf : Effects e { e with context := some ctx', log := log } :=
      .single (.reserved hc hs)
    rcases (ensureDurable_ok (h.effects hf).log he).2 with rfl | hl
    · exact hf
    · exact hf.tail (.pool (.forced lsn hl))

theorem newPageWrite_effects (h : Ready e) (hn : e.newPageWrite victim = .ok e') :
    Effects e e' := by
  simp only [newPageWrite, appendNextPage, ok_iff, appendPage_ok] at hn
  obtain ⟨_, ⟨reserved, hrv, ready, hv, _, ⟨hc, hm, rfl⟩, rfl⟩, confirmed, hcn, ht⟩ := hn
  have hs := reserveNextPage_effects h hrv
  have hr := hs.trans (availableFrame_pooled (h.effects hs) hv).effects
  unfold confirmAppend at hcn
  split at hcn
  · rename_i ctx hct
    simp only [ok_iff] at hcn
    obtain ⟨ctx', ha, rfl⟩ := hcn
    rw [hc] at ha ht
    simp only [noteGuardWriteIntent, installPage, setFrame, find?_insert, if_true, insert_insert,
      ok_iff] at ht
    obtain ⟨ctx'', hi, rfl⟩ := ht
    exact hr.tail (.appended hct hm ha hi)
  · simp at hcn

theorem flushPage_pooled (h : Ready e) (hf : e.flushPage p = .ok e') : PoolEffects e e' := by
  simp only [flushPage, bind_ok] at hf
  obtain ⟨_, _, _, _, hf⟩ := hf
  split at hf
  · simp only [pure_ok] at hf
    exact hf ▸ .refl
  · split at hf
    · simp only [bind_ok] at hf
      obtain ⟨_, _, hf⟩ := hf
      exact flushUnpinnedDirtyFrame_pooled h hf
    · simp only [pure_ok] at hf
      exact hf ▸ .refl

theorem prepareFrames_pooled (h : order.foldlM prepareFrameForWrite e = .ok e') :
    PoolEffects e e' :=
  foldlM_preserves (P := fun s => PoolEffects e s)
    (fun _ _ _ _ hs ht => hs.trans (prepareFrameForWrite_pooled ht)) .refl h

/-- The frame may be written under a log forced up to `maximum`. -/
def CoveredBy (log : LogManager) (maximum : Option Nat) (f : Frame) : Prop :=
  f.dirty = true → validateWalDependency log f true = .ok () ∧
    ∀ lsn ∈ f.pageLsn, ∃ bound ∈ maximum, lsn ≤ bound

theorem maximumPageLsn_covers {start mx : Option Nat} (h : e.maximumPageLsn order start = .ok mx) :
    (∀ lsn ∈ start, ∃ bound ∈ mx, lsn ≤ bound) ∧
      ∀ p ∈ order, ∀ f, e.frames.find? p = some f → CoveredBy e.log mx f := by
  induction order generalizing start with
  | nil =>
    simp only [maximumPageLsn, Except.ok.injEq] at h
    subst h
    exact ⟨fun lsn hl => ⟨lsn, hl, le_rfl⟩, by simp⟩
  | cons q rest ih =>
    unfold maximumPageLsn at h
    split at h
    · rename_i g hg
      split at h
      · simp only [bind_ok] at h
        obtain ⟨_, hv, h⟩ := h
        obtain ⟨hs, hr⟩ := ih h
        have hb : (∀ lsn ∈ start, ∃ bound ∈ mx, lsn ≤ bound) ∧
            ∀ lsn ∈ g.pageLsn, ∃ bound ∈ mx, lsn ≤ bound := by
          cases hl : g.pageLsn with
          | none => simpa [hl] using hs
          | some lsn =>
            cases start with
            | none => simpa [hl] using hs
            | some cur =>
              obtain ⟨bound, hbo, hle⟩ := hs (max lsn cur) (by simp [hl])
              refine ⟨?_, ?_⟩
              · intro other ho
                cases ho
                exact ⟨bound, hbo, by omega⟩
              · intro other ho
                cases ho
                exact ⟨bound, hbo, by omega⟩
        refine ⟨hb.1, ?_⟩
        intro p hp f hf
        rcases mem_cons.mp hp with rfl | hp
        · rw [hg] at hf
          cases hf
          exact fun _ => ⟨hv, hb.2⟩
        · exact hr p hp f hf
      · rename_i hc
        obtain ⟨hs, hr⟩ := ih h
        refine ⟨hs, ?_⟩
        intro p hp f hf
        rcases mem_cons.mp hp with rfl | hp
        · rw [hg] at hf
          cases hf
          exact fun hd => absurd hd hc
        · exact hr p hp f hf
    · rename_i hn
      obtain ⟨hs, hr⟩ := ih h
      refine ⟨hs, ?_⟩
      intro p hp f hf
      rcases mem_cons.mp hp with rfl | hp
      · rw [hn] at hf
        simp at hf
      · exact hr p hp f hf

theorem writeBack_pooled (hc : ∀ p ∈ order, ∀ f, e.frames.find? p = some f → f.dirty = true →
      validateWalDependency e.log f true = .ok () ∧ ∀ lsn ∈ f.pageLsn, e.log.IsDurable lsn)
    (h : order.foldlM writeBackIfDirty e = .ok e') : PoolEffects e e' := by
  induction order generalizing e with
  | nil =>
    simp only [foldlM_nil, pure_ok] at h
    exact h ▸ .refl
  | cons p rest ih =>
    simp only [foldlM_cons, bind_ok] at h
    obtain ⟨wr, hw, hr⟩ := h
    have hc' := fun q hq => hc q (mem_cons_of_mem p hq)
    unfold writeBackIfDirty at hw
    split at hw
    · rename_i f hf
      split at hw
      · rename_i hd
        simp only [ok_iff, writePage_ok] at hw
        obtain ⟨_, ⟨hz, _, hlt, rfl⟩, rfl⟩ := hw
        obtain ⟨hv, hdr⟩ := hc p mem_cons_self f hf hd
        refine .trans (.single (.wroteBack hf ⟨hz, hlt⟩ hv (.inr hdr))) (ih ?_ hr)
        intro q hq g hg hgd
        simp only [find?_setFrame] at hg
        split at hg
        · simp only [Option.some.injEq] at hg
          subst hg
          simp at hgd
        · exact hc' q hq g hg hgd
      · simp only [Except.ok.injEq] at hw
        subst hw
        exact ih hc' hr
    · simp only [Except.ok.injEq] at hw
      subst hw
      exact ih hc' hr

theorem ensureWalDurable_ok {mx : Option Nat} (hs : LogSound log)
    (h : ensureWalDurable log mx = .ok log') :
    (∀ bound ∈ mx, log'.IsDurable bound) ∧ (log' = log ∨ ∃ lsn, log.flushUpTo lsn = .ok log') := by
  cases mx with
  | none =>
    simp only [ensureWalDurable, Except.ok.injEq] at h
    exact ⟨by simp, .inl h.symm⟩
  | some bound =>
    simp only [ensureWalDurable, bind_ok] at h
    obtain ⟨_, _, he⟩ := h
    obtain ⟨hd, hc⟩ := ensureDurable_ok hs he
    exact ⟨by simpa using hd, hc.imp id fun hf => ⟨bound, hf⟩⟩

theorem flushAll_pooled (h : Ready e) (hfl : e.flushAll order = .ok e') : PoolEffects e e' := by
  simp only [flushAll, bind_ok] at hfl
  obtain ⟨_, _, _, _, prep, hpr, mx, hx, log, hl, hw⟩ := hfl
  have he := prepareFrames_pooled hpr
  obtain ⟨hr, hc⟩ := ensureWalDurable_ok (h.effects he.effects).log hl
  have hfr : PoolEffects prep { prep with log := log } := by
    rcases hc with rfl | ⟨lsn, hfl⟩
    · exact .refl
    · exact .single (.forced lsn hfl)
  have hrc : log.records = prep.log.records := by
    rcases hc with rfl | ⟨lsn, hfl⟩
    · rfl
    · exact (flushUpTo_fields hfl).1
  refine (he.trans hfr).trans (writeBack_pooled ?_ hw)
  intro p hp f hf hd
  obtain ⟨hv, ho⟩ := (maximumPageLsn_covers hx).2 p hp f hf hd
  refine ⟨validateWalDependency_of_records hrc hv, ?_⟩
  intro lsn hs
  obtain ⟨bound, hb, hle⟩ := ho lsn hs
  obtain ⟨durable, hm, hn⟩ := hr bound hb
  exact ⟨durable, hm, hle.trans hn⟩

theorem persist_effects {hdr : DatabaseHeader} (hr : e.persist hdr = .ok e') : Effects e e' := by
  simp only [persist, ok_iff, Prod.exists] at hr
  obtain ⟨noted, hn, prep, aft, lsn, hp, log, hl, disk, hd, rfl⟩ := hr
  unfold noteHeaderWriteIntent at hn
  split at hn
  · simp at hn
  · rename_i ctx hc
    simp only [ok_iff, readPhysicalPage_ok] at hn
    obtain ⟨_, ⟨_, hex, rfl⟩, ctx', hi, rfl⟩ := hn
    simp only [Engine.preparePageForWrite, ok_iff] at hp
    obtain ⟨pg, hg, rfl, rfl, rfl⟩ := hp
    have ht := notePageWriteIntent_touched hi
    obtain ⟨s, hs⟩ := ht
    exact .trans (.single (.headerIntended hc hex hi))
      (.single (.persisted hdr rfl hs hex hg hl hd))

theorem upgradeToCurrentFormat_effects (hu : e.upgradeToCurrentFormat = .ok e') : Effects e e' := by
  unfold upgradeToCurrentFormat at hu
  split at hu
  · simp only [pure_ok] at hu
    exact hu ▸ .refl
  · simp only [bind_ok] at hu
    obtain ⟨_, _, hp⟩ := hu
    exact persist_effects hp

/-- A prepared page is touched by the transaction that had touched it. -/
theorem prepareFrameForWrite_context {ctx : TransactionContext} (hc : e.context = some ctx)
    (h : e.prepareFrameForWrite p = .ok e') :
    ∃ ctx', e'.context = some ctx' ∧ e'.disk = e.disk ∧
      e'.rollbackActive = e.rollbackActive ∧ ctx.SameTransaction ctx' p ∧
      (∀ q, (ctx'.pages.find? q).isSome = (ctx.pages.find? q).isSome) ∧
      ∀ f, e'.frames.find? p = some f → f.dirty = true → f.pendingWalPreparation = false := by
  unfold prepareFrameForWrite at h
  split at h
  · rename_i hf
    simp only [Except.ok.injEq] at h
    subst h
    refine ⟨ctx, hc, rfl, rfl, .refl ctx p, fun _ => rfl, ?_⟩
    intro f hs
    rw [hf] at hs
    simp at hs
  · rename_i f hf
    split at h
    · rename_i hk
      simp only [Except.ok.injEq] at h
      subst h
      refine ⟨ctx, hc, rfl, rfl, .refl ctx p, fun _ => rfl, ?_⟩
      intro g hg hd
      rw [hf] at hg
      cases hg
      simp [hc, hd] at hk
    · simp only [ok_iff, Prod.exists, Engine.preparePageForWrite, hc] at h
      obtain ⟨_, _, _, ⟨prep, hp, rfl, rfl, rfl⟩, f', hr, rfl⟩ := h
      have ho := preparePageForWrite_outcome hp
      refine ⟨prep.context, rfl, rfl, rfl, ho.same, ?_, ?_⟩
      · intro q
        by_cases hq : q = p
        · subst hq
          cases ho with
          | absent => rfl
          | unchanged => rfl
          | logged ht _ _ _ hlgd =>
            obtain ⟨app, _, _, _, _, _, rfl⟩ :=
              logPageUpdate_ok hlgd
            simp [setPage, ht]
        · rw [ho.same.pages q hq]
      · intro g hg _
        obtain rfl := eq_of_find?_insert hg
        exact (preparedFrame_keeps hr).2.2

/-- The frames of `settled` are prepared, and nothing is pinned. -/
structure Settling (e₀ e : Engine) (touched settled : List Nat) : Prop where
  effects : Effects e₀ e
  disk : e.disk = e₀.disk
  idle : e.rollbackActive = e₀.rollbackActive
  running : ∃ context, e.context = some context ∧
    ∀ p, (context.pages.find? p).isSome → p ∈ touched
  unpinned : ∀ p f, e.frames.find? p = some f → f.pinCount = 0
  resident : ∀ p, (e.frames.find? p).isSome = (e₀.frames.find? p).isSome
  prepared : ∀ p ∈ settled, ∀ f, e.frames.find? p = some f → f.dirty = true →
    f.pendingWalPreparation = false

theorem Settling.step {e₀ : Engine} {touched settled : List Nat} (h : Settling e₀ e touched settled)
    (hs : e.prepareResidentPageForCommit p = .ok e') : Settling e₀ e' touched (p :: settled) := by
  obtain ⟨ctx, hc, ht⟩ := h.running
  unfold prepareResidentPageForCommit at hs
  split at hs
  · rename_i hf
    simp only [Except.ok.injEq] at hs
    subst hs
    refine ⟨h.effects, h.disk, h.idle, h.running, h.unpinned, h.resident, ?_⟩
    intro q hq f hm
    rcases mem_cons.mp hq with rfl | hq
    · rw [hf] at hm
      simp at hm
    · exact h.prepared q hq f hm
  · rename_i g hg
    simp only [bind_ok] at hs
    obtain ⟨_, _, hs⟩ := hs
    obtain ⟨ctx', hc', hds, hi, ha, hy, hr⟩ :=
      prepareFrameForWrite_context hc hs
    have hk := prepareFrameForWrite_kept hs
    obtain ⟨g', hg', hp⟩ := hk.resident g hg
    refine ⟨h.effects.trans (prepareFrameForWrite_pooled hs).effects, hds.trans h.disk,
      hi.trans h.idle, ⟨ctx', hc', fun q hq => ht q (by rw [← hy]; exact hq)⟩, ?_, ?_, ?_⟩
    · intro q f hf
      by_cases hq : q = p
      · subst hq
        rw [hg'] at hf
        cases hf
        rw [hp]
        exact h.unpinned q g hg
      · rw [hk.others q hq] at hf
        exact h.unpinned q f hf
    · intro q
      by_cases hq : q = p
      · subst hq
        rw [← h.resident, hg, hg']
        rfl
      · rw [hk.others q hq, h.resident]
    · intro q hq f hf hd
      by_cases hqp : q = p
      · subst hqp
        exact hr f hf hd
      · rw [hk.others q hqp] at hf
        exact h.prepared q ((mem_cons.mp hq).resolve_left hqp) f hf hd

theorem Settling.fold {e₀ : Engine} {touched settled rest : List Nat}
    (h : Settling e₀ e touched settled) (hf : rest.foldlM prepareResidentPageForCommit e = .ok e') :
    Settling e₀ e' touched (rest.reverse ++ settled) := by
  induction rest generalizing e settled with
  | nil =>
    simp only [foldlM_nil, pure_ok] at hf
    exact hf ▸ h
  | cons p rest ih =>
    simp only [foldlM_cons, bind_ok] at hf
    obtain ⟨mid, hs, hr⟩ := hf
    simpa using ih (h.step hs) hr

theorem unpinned_of_total (h : e.totalPinCount = 0) (p : Nat) (f : Frame)
    (hf : e.frames.find? p = some f) : f.pinCount = 0 := by
  have hm : f.pinCount ∈ e.frames.entries.map (·.2.pinCount) :=
    List.mem_map.mpr ⟨(p, f), find?_eq_some.mp hf, rfl⟩
  exact List.sum_eq_zero_iff_forall_eq_nat.mp h _ hm

/-- A statement boundary prepares every touched frame and moves nothing else. -/
structure Prepared (e e' : Engine) : Prop where
  effects : Effects e e'
  disk : e'.disk = e.disk
  idle : e.rollbackActive = false ∧ e'.rollbackActive = false
  running : ∃ context, e'.context = some context ∧ context.safeBoundary = true
  unpinned : ∀ p f, e'.frames.find? p = some f → f.pinCount = 0
  resident : ∀ p, (e'.frames.find? p).isSome = (e.frames.find? p).isSome
  settled : ∀ p f, e'.frames.find? p = some f → f.pendingWalPreparation = false

theorem prepareStatement_prepared (h : Ready e) (hpr : e.prepareStatement = .ok e') :
    Prepared e e' := by
  unfold prepareStatement at hpr
  split at hpr
  · simp at hpr
  · rename_i ctx hc
    simp only [ok_iff] at hpr
    obtain ⟨_, hi, _, hpn, settled, hl, rfl⟩ := hpr
    have hsr : Settling e e ctx.pages.keys [] := by
      refine ⟨.refl, rfl, rfl, ⟨ctx, hc, ?_⟩, unpinned_of_total hpn, fun _ => rfl, by simp⟩
      intro p hp
      exact mem_keys.mpr (Option.isSome_iff_exists.mp hp)
    have hn := hsr.fold hl
    obtain ⟨ctx', hc', ht⟩ := hn.running
    have hh := (h.effects hn.effects).coherent
    have hs : ∀ p f, settled.frames.find? p = some f → f.pendingWalPreparation = false := by
      intro p f hf
      by_contra hpend
      simp only [Bool.not_eq_false] at hpend
      obtain ⟨hd, run, s, hr, hst⟩ :=
        (hh.frames p f hf).pending hpend
      rw [hc'] at hr
      cases hr
      have hm := ht p (by simp [hst])
      rw [hn.prepared p (by simpa using hm) f hf hd] at hpend
      simp at hpend
    refine ⟨hn.effects.tail (.bounded hc' hn.unpinned hs), hn.disk,
      ⟨hi, hn.idle.trans hi⟩, ?_, hn.unpinned, hn.resident, hs⟩
    exact ⟨{ ctx' with safeBoundary := true }, by simp [markSafeBoundary, hc'], rfl⟩

/-- The operations a writer runs between begin and its end. -/
def EngineOp.Inside : EngineOp → Prop
  | .begin _ | .commit | .rollback => False
  | _ => True

theorem step_effects {op : EngineOp} (h : Ready e) (ho : op.Inside) (hs : e.step op = .ok e') :
    Effects e e' := by
  cases op with
  | begin | commit | rollback => exact ho.elim
  | fetchRead p victim =>
    simp only [step, fetchPageRead, bind_ok] at hs
    obtain ⟨_, _, hf⟩ := hs
    exact (fetchPage_pooled h hf).1.effects
  | fetchWrite p victim => exact fetchPageWrite_effects h hs
  | mutate p data => exact mutate_effects hs
  | release p => exact (releasePin_pooled hs).effects
  | newPage victim => exact newPageWrite_effects h hs
  | flushPage p => exact (flushPage_pooled h hs).effects
  | flushAll order => exact (flushAll_pooled h hs).effects
  | upgradeFormat => exact upgradeToCurrentFormat_effects hs
  | updateCatalogRoot p =>
    simp only [step, updateCatalogRootPageId, bind_ok] at hs
    obtain ⟨_, _, hp⟩ := hs
    exact persist_effects hp
  | updateFreeListRoot p =>
    simp only [step, updateFreeListRootPageId, bind_ok] at hs
    obtain ⟨_, _, hp⟩ := hs
    exact persist_effects hp
  | prepare => exact (prepareStatement_prepared h hs).effects

/-- A run of inside operations is one sequence of effects. -/
theorem run_effects {ops : List EngineOp} (h : Ready e) (ho : ∀ op ∈ ops, op.Inside)
    (hr : e.run ops = .ok e') : Effects e e' :=
  foldlM_preserves (P := fun s => Effects e s)
    (fun op hp _ _ hs ht => hs.trans (step_effects (h.effects hs) (ho op hp) ht)) .refl hr

end MiniDb
