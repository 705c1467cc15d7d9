import MiniDb.CheckpointRecords
import MiniDb.PoolEngine

/-!
What the pages of a pool hold. Without a hook a clean frame holds the bytes of
the file; with one, the engine behind the pool is coherent and logged. Writing
frames back, whether it returns or throws, changes no page's contents.
-/
namespace MiniDb
open ByteBlock Outcome Stateful Pool
open Option hiding get
open List hiding get

variable {fr fr' : BufferFrame} {log : LogManager} {f : Nat} {ext : Option Nat}
  {a b c p p' : Pool}

/-- A valid frame of a pool without hook: no LSN was ever given to it. -/
structure PlainFrame (p : Pool) (frame : BufferFrame) : Prop where
  clean : frame.dirty = false → frame.data = p.disk.page frame.pageId
  unlogged : frame.pageLsn = none ∧ frame.recLsn = none ∧ frame.walDependencyRetired = false
  pending : frame.pendingWalPreparation = (frame.dirty && p.walProvider.isSome)

def PlainFrames (p : Pool) : Prop :=
  ∀ (f : Nat) frame, p.frames[f]? = some frame → frame.valid = true → PlainFrame p frame

structure Contents (p : Pool) : Prop where
  logged : p.durability = .hook → Logged p.engine
  plain : p.durability ≠ .hook → PlainFrames p
  header : 0 < p.disk.pageCount

/-- Frames keep their places, and the pool all its other tables. -/
structure Reshaped (p p' : Pool) : Prop where
  only : p' = { p with
    disk := p'.disk
    frames := p'.frames
    coordinator := p'.coordinator }
  count : p'.disk.pageCount = p.disk.pageCount
  length : p'.frames.length = p.frames.length
  place : ∀ (f : Nat) frame, p.frames[f]? = some frame →
    ∃ frame', p'.frames[f]? = some frame' ∧ SamePlace frame frame'
  free : ∀ (f : Nat) frame, p.frames[f]? = some frame → frame.valid = false →
    p'.frames[f]? = some frame

theorem Reshaped.refl (p : Pool) : Reshaped p p :=
  ⟨rfl, rfl, rfl, fun _ fr hf => ⟨fr, hf, rfl, rfl, rfl⟩, fun _ _ hf _ => hf⟩

theorem Reshaped.trans (ha : Reshaped a b) (hb : Reshaped b c) : Reshaped a c := by
  refine ⟨?_, hb.count.trans ha.count, hb.length.trans ha.length, ?_, ?_⟩
  · rw [hb.only, ha.only]
  · intro f fr hr
    obtain ⟨mid, hm, hf⟩ := ha.place f fr hr
    obtain ⟨last, hl, hs⟩ := hb.place f mid hm
    exact ⟨last, hl, hs.1.trans hf.1, hs.2.1.trans hf.2.1, hs.2.2.trans hf.2.2⟩
  · intro f fr hr hi
    exact hb.free f fr (ha.free f fr hr hi) hi

theorem Reshaped.back (h : Reshaped p p') (hf' : p'.frames[f]? = some fr') :
    ∃ fr, p.frames[f]? = some fr ∧ SamePlace fr fr' := by
  have hlt : f < p.frames.length := h.length ▸ (lt_of_getElem? hf')
  have hf := getElem?_eq_getElem hlt
  obtain ⟨other, ho, hp⟩ := h.place f _ hf
  rw [hf', some.injEq] at ho
  exact ⟨_, hf, ho ▸ hp⟩

theorem Reshaped.partition (h : Reshaped p p') (hr : Partition p ext) : Partition p' ext := by
  have hrp : p'.replacer = p.replacer := by rw [h.only]
  have ht : p'.pageTable = p.pageTable := by rw [h.only]
  have hq : p'.freeFrames = p.freeFrames := by rw [h.only]
  have hgr : p'.guards = p.guards := by rw [h.only]
  have hs : ∀ (f : Nat) (P : Bool → Nat → Prop),
      (∃ fr, p'.frames[f]? = some fr ∧ P fr.valid fr.pageId) ↔
        ∃ fr, p.frames[f]? = some fr ∧ P fr.valid fr.pageId := by
    intro f P
    constructor
    · rintro ⟨fr', hf', hP⟩
      obtain ⟨fr, hf, hp⟩ := h.back hf'
      exact ⟨fr, hf, hp.1 ▸ hp.2.1 ▸ hP⟩
    · rintro ⟨fr, hf, hP⟩
      obtain ⟨fr', hf', hp⟩ := h.place f fr hf
      exact ⟨fr', hf', by rw [hp.1, hp.2.1]; exact hP⟩
  refine ⟨hrp ▸ hr.replacer, ?_, ?_, hq ▸ hr.queued, ?_, ?_, ?_, hgr ▸ hr.exclusive⟩
  · rw [hrp, h.length]
    exact hr.capacity
  · intro f fr' hf'
    obtain ⟨fr, hf, hp⟩ := h.back hf'
    have ho := hr.placed f fr hf
    refine ⟨?_, ?_, ?_, ?_⟩
    · intro hi
      have hm := h.free f fr hf (hp.1.symm.trans hi)
      rw [hf', some.injEq] at hm
      rw [hm]
      exact ho.blank (hp.1.symm.trans hi)
    · rw [hrp, hp.1, hp.2.2]
      exact ho.tracked
    · rw [hp.1, hp.2.1, h.count]
      exact ho.legal
    · rw [hp.2.2, hgr]
      exact ho.pinned
  · intro f
    rw [hq, hr.free f]
    exact (hs f fun valid _ => valid = false).symm
  · intro q f
    rw [ht, hr.mapped q f]
    exact (hs f fun valid pid => valid = true ∧ pid = q).symm
  · intro gd hg
    rw [hgr] at hg
    exact (hs gd.frameId fun valid pid =>
      valid = true ∧ pid = gd.pageId).mpr (hr.guarded gd hg)

/-- Frames and log may move on, but no page changes its contents. -/
structure Quiet (p p' : Pool) : Prop extends Reshaped p p' where
  contents : Contents p'
  view : ∀ q, SameContents (p'.view q) (p.view q)

theorem Quiet.refl (h : Contents p) : Quiet p p := ⟨.refl p, h, fun _ => .refl _⟩

theorem Quiet.trans (ha : Quiet a b) (hb : Quiet b c) : Quiet a c :=
  ⟨ha.toReshaped.trans hb.toReshaped, hb.contents, fun q => (hb.view q).trans (ha.view q)⟩

/-- One frame in use changed; it is still the frame of its page. -/
theorem Reshaped.single (hr : p.frames[f]? = some fr) (hv : fr.valid = true)
    (hp : SamePlace fr fr') (hn : p' = { p with
      disk := p'.disk
      frames := p.frames.set f fr'
      coordinator := p'.coordinator })
        (hc : p'.disk.pageCount = p.disk.pageCount) : Reshaped p p' := by
  have hf : p'.frames = p.frames.set f fr' := by rw [hn]
  have hlt := lt_of_getElem? hr
  refine ⟨by rw [hf]; exact hn, hc, by rw [hf, length_set], ?_, ?_⟩
  · intro g other ho
    by_cases hg : g = f
    · subst hg
      rw [hr, some.injEq] at ho
      exact ⟨fr', by rw [hf, getElem?_set_self hlt], ho ▸ hp⟩
    · exact ⟨other, by rw [hf, getElem?_set_ne (Ne.symm hg)]; exact ho, rfl, rfl, rfl⟩
  · intro g other ho hi
    have hg : g ≠ f := by
      rintro rfl
      rw [hr, some.injEq] at ho
      rw [← ho, hv] at hi
      simp at hi
    rw [hf, getElem?_set_ne (Ne.symm hg)]
    exact ho

/-- How the view moves with one frame. -/
theorem Partition.view_set (h : Partition p ext) (hr : p.frames[f]? = some fr)
    (hv : fr.valid = true) (hf : p'.frames = p.frames.set f fr')
    (ht : p'.pageTable = p.pageTable) (hp : ∀ q, q ≠ fr.pageId → p'.disk.page q = p.disk.page q)
    (q : Nat) : p'.view q = if q = fr.pageId then fr'.data else p.view q := by
  have hlt := lt_of_getElem? hr
  have hm := h.find_page hr hv
  split
  · rename_i hq
    subst hq
    simp [Pool.view, ht, hm, hf, getElem?_set_self hlt]
  · rename_i hq
    simp only [Pool.view, ht, hf]
    cases hn : p.pageTable.find? q with
    | none => simp [hp q hq]
    | some g =>
      have hg : g ≠ f := by
        rintro rfl
        exact hq (h.page_of_find hr hn).2.symm
      obtain ⟨other, ho, _⟩ := (h.mapped q g).mp hn
      simp only [bind_some, getElem?_set_ne (Ne.symm hg), ho]

/-! The frame-level definitions are the engine's. -/

theorem knownTo_some {lsn : Nat} : KnownTo (some log) lsn ↔ log.containsLsn lsn = true := by
  simp [KnownTo]

theorem validateWalDependency_toFrame {forWrite : Bool} (guarded : Bool) :
    Pool.validateWalDependency (some log) fr forWrite = .ok () ↔
      Engine.validateWalDependency log (fr.toFrame guarded) forWrite = .ok () := by
  simp only [Pool.validateWalDependency, Engine.validateWalDependency, ok_iff]
  simp only [knownTo_some, BufferFrame.toFrame, isSome_some, true_and]

theorem assignPreparedLsn_toFrame {guarded : Bool} {lsn : Nat} {f' : Frame}
    (h : Engine.assignPreparedLsn log (fr.toFrame guarded) lsn = .ok f') :
    ∃ fr', Pool.assignPreparedLsn (some log) fr lsn = .ok fr' ∧
      fr'.toFrame guarded = f' ∧ SamePlace fr fr' := by
  simp only [Engine.assignPreparedLsn, ok_iff] at h
  obtain ⟨_, hk, _, hf, rfl⟩ := h
  exact ⟨_, bind_ok.mpr ⟨(), require_of _ (knownTo_some.mpr hk), bind_ok.mpr
    ⟨(), require_of _ hf, rfl⟩⟩, rfl, rfl, rfl, rfl⟩

theorem walProvider_hook (h : p.durability = .hook) : p.walProvider = some p.coordinator.log := by
  simp [walProvider, h]

/-! Preparing a frame. -/

/-- A reservation survives what the pool does before the page is there. -/
def KeepsReserved (p p' : Pool) : Prop :=
  p.durability = .hook → ∀ q, Reserved p.coordinator q → Reserved p'.coordinator q

theorem KeepsReserved.refl (p : Pool) : KeepsReserved p p := fun _ _ h => h

theorem KeepsReserved.trans (ha : KeepsReserved a b) (hb : KeepsReserved b c)
    (hs : b.durability = a.durability) : KeepsReserved a c :=
  fun hh q hq => hb (hs.trans hh) q (ha hh q hq)

/-- What the coordinator leaves when it threw is quiet for the pool. -/
theorem Quiet.stalled (hc : Contents p) {c : Coordinator} (hs : Stalled p.coordinator c) :
    Quiet p { p with coordinator := c } := by
  refine ⟨⟨rfl, rfl, rfl, fun _ fr hf => ⟨fr, hf, rfl, rfl, rfl⟩,
    fun _ _ hf _ => hf⟩, ⟨?_, ?_, hc.header⟩, fun _ => .refl _⟩
  · intro hh
    exact (hc.logged hh).relogged ⟨rfl, rfl, hs.log, hs.writer⟩
  · intro hp f fr hf hv
    have ho := hc.plain hp f fr hf hv
    refine ⟨ho.clean, ho.unlogged, ?_⟩
    rw [ho.pending]
    simp only [walProvider]
    cases p.durability with
    | none => rfl
    | provider => rfl
    | hook => rfl

/-- A step of the engine's own pool, the frames keeping their places. -/
theorem Quiet.pooled (h : Partition p ext) (hc : Contents p) (hh : p.durability = .hook)
    (hr : Reshaped p p') (he : PoolEffect p.engine p'.engine) : Quiet p p' := by
  have hl := hc.logged hh
  have hs : p'.durability = p.durability := by rw [hr.only]
  refine ⟨hr, ⟨fun _ => hl.pooled he, fun hp => ?_, hr.count ▸ hc.header⟩, ?_⟩
  · exact absurd (hs.trans hh) hp
  · intro q
    rw [← h.view_engine q, ← (hr.partition h).view_engine q]
    exact he.view hl.coherent q

/-- The pool once the page of frame `f` was prepared. -/
def withPrepared (p : Pool) (f : Nat) (frame' : BufferFrame) (prepared : PreparedPage) : Pool :=
  { p with
    frames := p.frames.set f frame'
    coordinator := { p.coordinator with
      context := some prepared.context
      log := prepared.log } }

theorem Quiet.prepared (h : Partition p ext) (hc : Contents p) (hh : p.durability = .hook)
    {ctx : TransactionContext} {prep : PreparedPage} (hf : p.frames[f]? = some fr)
    (hv : fr.valid = true) (hd : fr.dirty = true) (ht : p.coordinator.context = some ctx)
    (hr : ctx.preparePageForWrite p.coordinator.log p.coordinator.updateMode
      p.disk.databaseHeader.formatVersion fr.pageId fr.data = .ok prep)
    (hm : Engine.preparedFrame prep.log (fr.toFrame (p.writeLocked f)) prep.page
      prep.lsn = .ok (fr'.toFrame (p.writeLocked f))) (hp : SamePlace fr fr') :
    Quiet p (withPrepared p f fr' prep) := by
  refine .pooled h hc hh (.single hf hv hp rfl rfl) ?_
  have he : (withPrepared p f fr' prep).engine = _ :=
    h.engine_setFrame hf hv rfl rfl (fun _ _ => rfl)
  rw [he]
  exact PoolEffect.prepared (e := p.engine) ht (h.find_engine hf hv) hd hr hm

theorem KeepsReserved.prepared {ctx : TransactionContext} {prep : PreparedPage} {q : Nat}
    {aft : Page} (hl : LogSound p.coordinator.log) (hc : p.coordinator.context = some ctx)
    (hp : ctx.preparePageForWrite p.coordinator.log p.coordinator.updateMode
      p.disk.databaseHeader.formatVersion q aft = .ok prep)
    (hm : p'.coordinator.context = some prep.context ∧
      p'.coordinator.log = prep.log) : KeepsReserved p p' := by
  rintro _ r ⟨run, lsn, hr, ht, hs, hd⟩
  rw [hc] at hr
  cases hr
  have ho := TransactionContext.preparePageForWrite_outcome hp
  refine ⟨prep.context, lsn, hm.1, ?_, ?_, ?_⟩
  · rw [ho.same.startPageCount]
    exact ht
  · rw [prepareOutcome_reservations ho]
    exact hs
  · rw [hm.2]
    exact LogGrows.isDurable hl ho.grows hd

/-- The frame at `f` owes the log a preparation. -/
def PendingAt (p : Pool) (f : Nat) : Prop :=
  ∃ frame, p.frames[f]? = some frame ∧ frame.pendingWalPreparation = true

/-- What a returned preparation of frame `f` leaves. -/
structure PreparedAt (p p' : Pool) (f : Nat) : Prop extends Quiet p p' where
  reserved : KeepsReserved p p'
  pending : ∀ g, PendingAt p' g → PendingAt p g
  running : p.needsPreparation = true → p'.needsPreparation = true ∧ ¬ PendingAt p' f

theorem preparedFrame_pending {f f' : Frame} {data : Page} {lsn : Option Nat}
    (h : Engine.preparedFrame log f data lsn = .ok f') : f'.pendingWalPreparation = false := by
  cases lsn with
  | none =>
    cases h
    rfl
  | some lsn =>
    simp only [Engine.preparedFrame, Engine.assignPreparedLsn, ok_iff] at h
    obtain ⟨_, _, _, _, rfl⟩ := h
    rfl

theorem PreparedAt.prepared {prep : PreparedPage} (hf : p.frames[f]? = some fr)
    (hq : Quiet p (withPrepared p f fr' prep))
    (hr : KeepsReserved p (withPrepared p f fr' prep)) (hh : p.durability = .hook)
    (hp : fr'.pendingWalPreparation = false) : PreparedAt p (withPrepared p f fr' prep) f := by
  have hlt := lt_of_getElem? hf
  have hs : ¬ PendingAt (withPrepared p f fr' prep) f := by
    rintro ⟨other, ho, hp'⟩
    simp only [withPrepared, getElem?_set_self hlt, some.injEq] at ho
    rw [← ho, hp] at hp'
    simp at hp'
  refine ⟨hq, hr, ?_, fun _ => ⟨?_, hs⟩⟩
  · rintro g ⟨other, ho, hp'⟩
    by_cases hg : g = f
    · subst hg
      exact absurd ⟨other, ho, hp'⟩ hs
    · simp only [withPrepared, getElem?_set_ne (Ne.symm hg)] at ho
      exact ⟨other, ho, hp'⟩
  · simp [needsPreparation, recoveryHook, withPrepared, hh]

theorem prepareFrameForWrite_ensures (h : Partition p ext) (hc : Contents p)
    (hf : p.frames[f]? = some fr) (hv : fr.valid = true) :
    Ensures (prepareFrameForWrite f) p (fun _ p' => PreparedAt p p' f)
      (fun _ p' => Quiet p p') := by
  simp only [prepareFrameForWrite, ensures_bind]
  rw [ensures_of_ok (frameAt_run hf)]
  simp only [ensures_get]
  split
  · rename_i hi
    refine ⟨.refl hc, .refl p, fun _ h => h, fun hn => ⟨hn, ?_⟩⟩
    rintro ⟨other, ho, hpn⟩
    rw [hf, some.injEq] at ho
    subst ho
    have hh : p.durability = .hook := by
      simp only [needsPreparation, recoveryHook, Bool.and_eq_true, decide_eq_true_eq] at hn
      exact hn.1
    have hd := (((hc.logged hh).coherent.frames _ _ (h.find_engine hf hv)).pending hpn).1
    have hd : fr.dirty = true := hd
    simp [hd, hn] at hi
  rename_i hn
  simp only [not_or, Bool.not_eq_false, needsPreparation, recoveryHook, Bool.and_eq_true,
    decide_eq_true_eq] at hn
  obtain ⟨hd, hh, hr⟩ := hn
  obtain ⟨ctx, ht⟩ := isSome_iff_exists.mp hr
  have hl := hc.logged hh
  simp only [onHook, ensures_bind, ensures_onPart]
  refine (preparePageForWrite_ensures ht _ _ _).imp ?_ (fun _ _ h => .stalled hc h)
  rintro _ _ ⟨prep, hpr, rfl, rfl⟩
  obtain ⟨e, he⟩ := hl.preparedFrame_ok ht (h.find_engine hf hv)
    (TransactionContext.preparePageForWrite_outcome hpr)
  have hdn : ∀ fr' : BufferFrame, fr'.toFrame (p.writeLocked f) = e →
      SamePlace fr fr' → PreparedAt p (withPrepared p f fr' prep) f := by
    intro fr' hm hp
    exact .prepared hf (.prepared h hc hh hf hv hd ht hpr (hm ▸ he) hp)
      (.prepared hl.log ht hpr ⟨rfl, rfl⟩) hh (preparedFrame_pending (hm ▸ he))
  simp only [setFrame, ensures_modify]
  cases hs : prep.lsn with
  | none =>
    rw [hs] at he
    simp only [ensures_modify, set_set]
    exact hdn _ (Except.ok.inj he) ⟨rfl, rfl, rfl⟩
  | some lsn =>
    rw [hs] at he
    have hcp : Engine.assignPreparedLsn prep.log
        (({ fr with data := prep.page } : BufferFrame).toFrame (p.writeLocked f)) lsn = .ok e := he
    obtain ⟨fr', has, hm, hp⟩ := assignPreparedLsn_toFrame hcp
    simp only [ensures_bind, ensures_get, walProvider, hh]
    rw [has]
    simp only [fromExcept, ensures_pure, ensures_modify, set_set]
    rw [← hh]
    exact hdn fr' hm hp

/-! Forcing the log. -/

structure Forced (p p' : Pool) : Prop where
  only : p' = { p with coordinator := { p.coordinator with log := p'.coordinator.log } }
  log : p'.coordinator.log = p.coordinator.log ∨
    ∃ lsn, p.coordinator.log.flushUpTo lsn = .ok p'.coordinator.log

theorem Forced.refl (p : Pool) : Forced p p := ⟨rfl, .inl rfl⟩

theorem Forced.grows (h : Forced p p') : LogGrows p.coordinator.log p'.coordinator.log := by
  rcases h.log with hs | ⟨lsn, hf⟩
  · rw [hs]
  · exact .single (.flush hf)

theorem Forced.quiet (h : Forced p p') (hc : Contents p) : Quiet p p' := by
  rw [h.only]
  exact .stalled hc ⟨rfl, h.grows, .refl _⟩

theorem Forced.keepsReserved (h : Forced p p') (hc : Contents p) : KeepsReserved p p' := by
  rintro hh q ⟨ctx, lsn, ht, hs, hr, hd⟩
  refine ⟨ctx, lsn, ?_, hs, hr, h.grows.isDurable (hc.logged hh).log hd⟩
  rw [h.only]
  exact ht

theorem Forced.validate (h : Forced p p') {forWrite : Bool}
    (hv : Pool.validateWalDependency p.walProvider fr forWrite = .ok ()) :
    Pool.validateWalDependency p'.walProvider fr forWrite = .ok () := by
  have hr : p'.coordinator.log.records = p.coordinator.log.records := by
    rcases h.log with hs | ⟨lsn, hf⟩
    · rw [hs]
    · exact (flushUpTo_fields hf).1
  have hs : p'.durability = p.durability := by rw [h.only]
  simp only [walProvider, hs] at hv ⊢
  cases hm : p.durability with
  | none => simpa only [hm] using hv
  | provider =>
    simp only [hm] at hv ⊢
    exact (validateWalDependency_toFrame false).mpr
      (validateWalDependency_of_records hr ((validateWalDependency_toFrame false).mp hv))
  | hook =>
    simp only [hm] at hv ⊢
    exact (validateWalDependency_toFrame false).mpr
      (validateWalDependency_of_records hr ((validateWalDependency_toFrame false).mp hv))

theorem ensureWalDurable_ensures (hc : Contents p) {tgt : Option Nat}
    (hp : p.durability ≠ .hook → tgt = none) :
    Ensures (ensureWalDurable tgt) p
      (fun _ p' => Forced p p' ∧ ∀ lsn ∈ tgt, p'.coordinator.log.IsDurable lsn)
      (fun _ p' => p' = p) := by
  cases tgt with
  | none => exact ⟨.refl p, by simp⟩
  | some lsn =>
    have hh : p.durability = .hook := by
      by_contra ho
      simpa using hp ho
    simp only [ensureWalDurable, ensures_iff, walProvider_hook hh, onHook, ensures_onPart]
    refine ⟨?_, fun _ _ => trivial⟩
    intro _ _
    refine ⟨?_, fun _ _ => trivial⟩
    intro log he
    obtain ⟨hd, hl⟩ := ensureDurable_ok (hc.logged hh).log he
    refine ⟨⟨rfl, hl.imp id fun hf => ⟨lsn, hf⟩⟩, ?_⟩
    intro other ho
    rw [mem_some_iff] at ho
    exact ho ▸ hd

/-- A frame that may go to the file: settled, and its last record durable. -/
structure Writable (p : Pool) (frame : BufferFrame) : Prop where
  valid : Pool.validateWalDependency p.walProvider frame true = .ok ()
  durable : p.durability = .hook →
    frame.walDependencyRetired = true ∨ ∀ lsn ∈ frame.pageLsn, p.coordinator.log.IsDurable lsn

theorem PlainFrames.pageLsn (h : PlainFrames p) (hf : p.frames[f]? = some fr)
    (hv : fr.valid = true) : fr.pageLsn = none :=
  (h f fr hf hv).unlogged.1

theorem ensureWalDurableBeforePageWrite_ensures (hc : Contents p) (hr : p.frames[f]? = some fr)
    (hv : fr.valid = true) :
    Ensures (ensureWalDurableBeforePageWrite f) p
      (fun _ p' => Forced p p' ∧ Writable p' fr) (fun _ p' => p' = p) := by
  simp only [ensureWalDurableBeforePageWrite, ensures_bind]
  rw [ensures_of_ok (frameAt_run hr)]
  simp only [ensures_iff]
  refine ⟨?_, fun _ _ => trivial⟩
  intro _ hs
  split
  · rename_i ht
    exact ⟨.refl p, hs, fun _ => .inl ht⟩
  · refine (ensureWalDurable_ensures hc fun hp =>
      (hc.plain hp).pageLsn hr hv).imp ?_ (fun _ _ h => h)
    rintro _ p' ⟨hf, hd⟩
    exact ⟨hf, hf.validate hs, fun _ => .inr hd⟩

/-! Writing frames back. -/

def written (p : Pool) (f : Nat) (frame : BufferFrame) : Pool :=
  { p with
    disk := p.disk.perform (.write frame.pageId frame.data)
    frames := p.frames.set f { frame with dirty := false, recLsn := none } }

theorem PlainFrames.written (h : Partition p ext) (hp : PlainFrames p) (hr : p.frames[f]? = some fr)
    (hv : fr.valid = true) (hs : Pool.validateWalDependency p.walProvider fr true = .ok ()) :
    PlainFrames (written p f fr) := by
  have hlt := lt_of_getElem? hr
  have hn : fr.pendingWalPreparation = false := by
    simpa [Pool.validateWalDependency, ok_iff] using (require_ok.mp (bind_ok.mp hs).choose_spec.1)
  intro g other ho hu
  have hpr : (MiniDb.written p f fr).walProvider = p.walProvider := rfl
  by_cases hg : g = f
  · subst hg
    have hl : other = { fr with dirty := false, recLsn := none } := by
      simpa [MiniDb.written, getElem?_set_self hlt] using ho.symm
    subst hl
    have hd := hp g fr hr hv
    exact ⟨fun _ => by simp [MiniDb.written], ⟨hd.unlogged.1, rfl, hd.unlogged.2.2⟩, by
      simpa using hn⟩
  · have ho' : p.frames[g]? = some other := by
      simpa [MiniDb.written, getElem?_set_ne (Ne.symm hg)] using ho
    have hd := hp g other ho' hu
    have hne : other.pageId ≠ fr.pageId := by
      intro heq
      have hf := h.find_page ho' hu
      rw [heq, h.find_page hr hv] at hf
      exact hg (some.inj hf).symm
    refine ⟨fun hc => ?_, hd.unlogged, hpr ▸ hd.pending⟩
    simp only [MiniDb.written, page_perform_write, if_neg hne]
    exact hd.clean hc

theorem Quiet.written (h : Partition p ext) (hc : Contents p) (hr : p.frames[f]? = some fr)
    (hv : fr.valid = true) (hw : Writable p fr) : Quiet p (written p f fr) := by
  obtain ⟨hz, _, hlt⟩ := (h.placed f fr hr).legal hv
  have hs : Reshaped p (MiniDb.written p f fr) := by
    have hpc : SamePlace fr { fr with dirty := false, recLsn := none } :=
      ⟨rfl, rfl, rfl⟩
    exact .single hr hv hpc rfl (pageCount_overwrite hlt fr.data)
  by_cases hh : p.durability = .hook
  · refine .pooled h hc hh hs ?_
    have he : (MiniDb.written p f fr).engine = _ :=
      h.engine_setFrame hr hv rfl rfl (fun _ _ => rfl)
    rw [he]
    exact PoolEffect.wroteBack (e := p.engine) (h.find_engine hr hv) ⟨hz, hlt⟩
      ((validateWalDependency_toFrame _).mp (walProvider_hook hh ▸ hw.valid)) (hw.durable hh)
  · refine ⟨hs, ⟨fun h => absurd h hh, fun hl => ?_, hs.count ▸ hc.header⟩, ?_⟩
    · exact .written h (hc.plain hl) hr hv hw.valid
    · intro q
      have hp : ∀ q, q ≠ fr.pageId → (MiniDb.written p f fr).disk.page q = p.disk.page q := by
        intro q hq
        simp [MiniDb.written, hq]
      have hf : (MiniDb.written p f fr).frames = p.frames.set f _ := rfl
      rw [h.view_set hr hv hf rfl hp q]
      split
      · rename_i hq
        rw [hq, h.view_resident hr hv]
        exact .refl _
      · exact .refl _

theorem writeFrame_run (h : Partition p ext) (hf : p.frames[f]? = some fr)
    (hv : fr.valid = true) : writeFrame f p = .ok () (written p f fr) := by
  have hl := (h.placed f fr hf).legal hv
  have hw : p.disk.writePage fr.pageId fr.data = .ok (p.disk.perform (.write fr.pageId fr.data)) :=
    writePage_ok.mpr ⟨hl.1, hl.2.1, hl.2.2, rfl⟩
  unfold writeFrame
  rw [run_bind (frameAt_run hf)]
  simp only [run_eq, hw]
  rfl

/-- The frame at `f` holds nothing the file does not have. -/
def CleanAt (p : Pool) (f : Nat) : Prop :=
  ∀ frame, p.frames[f]? = some frame → frame.valid = true → frame.dirty = false

theorem flushUnpinnedDirtyFrame_ensures (h : Partition p ext) (hc : Contents p)
    (hr : p.frames[f]? = some fr) (hv : fr.valid = true) :
    Ensures (flushUnpinnedDirtyFrame f) p
      (fun _ p' => Quiet p p' ∧ KeepsReserved p p' ∧ CleanAt p' f) (fun _ p' => Quiet p p') := by
  simp only [flushUnpinnedDirtyFrame, ensures_bind]
  refine (prepareFrameForWrite_ensures h hc hr hv).imp ?_ (fun _ _ h => h)
  rintro _ p₁ ⟨hq, hk, _⟩
  obtain ⟨frame₁, hr₁, hp⟩ := hq.place f fr hr
  have hv₁ := hp.1.trans hv
  refine (ensureWalDurableBeforePageWrite_ensures hq.contents hr₁ hv₁).imp ?_ ?_
  · rintro _ p₂ ⟨hf, hw⟩
    have hq₂ := hf.quiet hq.contents
    have hpr₂ := hq₂.partition (hq.partition h)
    have hr₂ : p₂.frames[f]? = some frame₁ := by
      rw [hf.only]
      exact hr₁
    rw [ensures_of_ok (writeFrame_run hpr₂ hr₂ hv₁)]
    refine ⟨(hq.trans hq₂).trans (.written hpr₂ hq₂.contents hr₂ hv₁ hw), ?_, ?_⟩
    · have hs₁ : p₁.durability = p.durability := by rw [hq.only]
      exact hk.trans (hf.keepsReserved hq.contents) hs₁
    · intro other ho _
      have hlt := lt_of_getElem? hr₂
      simp only [written, getElem?_set_self hlt, some.injEq] at ho
      rw [← ho]
  · rintro _ _ rfl
    exact hq

theorem flushVictimIfDirty_ensures (h : Partition p ext) (hc : Contents p)
    (hf : p.frames[f]? = some fr) :
    Ensures (flushVictimIfDirty f) p
      (fun _ p' => Quiet p p' ∧ KeepsReserved p p' ∧ CleanAt p' f) (fun _ p' => Quiet p p') := by
  have hl : (fr.valid = true → fr.dirty = false) → CleanAt p f := by
    intro hl other ho hu
    rw [hf, some.injEq] at ho
    exact ho ▸ hl (ho ▸ hu)
  simp only [flushVictimIfDirty, ensures_bind]
  rw [ensures_of_ok (frameAt_run hf)]
  split
  · rename_i hi
    exact ⟨.refl hc, .refl p, hl (by simp [hi])⟩
  rename_i hv
  split
  · exact .refl hc
  split
  · rename_i hw
    exact ⟨.refl hc, .refl p, hl fun _ => hw⟩
  · exact flushUnpinnedDirtyFrame_ensures h hc hf (by simpa using hv)

/-- Every frame in use passes the pool's check of its dependency on the log. -/
theorem PlainFrame.validateWalDependency_ok (h : PlainFrame p fr) :
    Pool.validateWalDependency p.walProvider fr false = .ok () := by
  obtain ⟨hg, hr, hl⟩ := h.unlogged
  have hp := h.pending
  simp only [Pool.validateWalDependency, ok_iff, hg, hr, hl]
  refine ⟨(), ?_, (), by simp, (), by simp, (), ⟨by simp, by simp, ?_⟩, by simp⟩
  · cases hd : fr.dirty <;> simp [hp, hd]
  · rintro ⟨hd, hm, hs⟩
    rw [hp, hd, hm] at hs
    simp at hs

theorem Contents.validateWalDependency_ok (hc : Contents p) (h : Partition p ext)
    (hf : p.frames[f]? = some fr) (hv : fr.valid = true) :
    Pool.validateWalDependency p.walProvider fr false = .ok () := by
  by_cases hh : p.durability = .hook
  · rw [walProvider_hook hh]
    exact (validateWalDependency_toFrame _).mpr
      ((hc.logged hh).validateWalDependency_ok (h.find_engine hf hv))
  · exact (hc.plain hh f fr hf hv).validateWalDependency_ok

end MiniDb
