import MiniDb.CheckpointSafety
import MiniDb.RollbackViews

/-!
What happens to the engine between two statements. Reads move pages through the
pool, and a checkpoint may be taken. Both leave every page as a reader sees it
and the running transaction as it is; reads leave the records of the log too.
-/
namespace MiniDb
open ByteBlock Outcome Engine DurableFile TransactionContext SortedMap CheckpointManager List

variable {m m' : CheckpointManager} {a b c e e' : Engine} {f : Frame} {log log' : LogManager}
  {lsn p : Nat} {ctx ctx' : TransactionContext}

/-- Every frame is prepared, as a finished statement leaves them. -/
def Settled (e : Engine) : Prop :=
  ∀ p f, e.frames.find? p = some f → f.pendingWalPreparation = false

/-- What log and file hold for the running transaction is still there, and nothing
was added to either in its name. -/
structure HistoryKept (e e' : Engine) : Prop where
  adds : ∀ record ∈ e'.log.records, record ∈ e.log.records ∨ record.transactionId = 0
  own : ∀ context, e.context = some context →
    ownRecords e'.log.records context.transactionId =
      ownRecords e.log.records context.transactionId
  durable : ∀ lsn, e.log.IsDurable lsn → e'.log.IsDurable lsn
  file : ∀ count, e.disk.pageCount ≤ count → e.disk.file.Within count →
    e'.disk.file.Within count

theorem HistoryKept.of_records (hr : e'.log.records = e.log.records)
    (hd : ∀ lsn, e.log.IsDurable lsn → e'.log.IsDurable lsn)
    (hf : ∀ cnt, e.disk.pageCount ≤ cnt → e.disk.file.Within cnt →
      e'.disk.file.Within cnt) : HistoryKept e e' :=
  ⟨fun _ hm => .inl (hr ▸ hm), fun _ _ => by rw [hr], hd, hf⟩

theorem HistoryKept.of_same (hl : e'.log = e.log) (hf : e'.disk.file = e.disk.file) :
    HistoryKept e e' :=
  .of_records (by rw [hl]) (fun _ h => hl ▸ h) (fun _ _ h => hf ▸ h)

theorem HistoryKept.trans (ha : HistoryKept a b) (hb : HistoryKept b c) (ht : b.context = a.context)
    (hc : b.disk.pageCount = a.disk.pageCount) : HistoryKept a c := by
  refine ⟨?_, ?_, fun lsn h => hb.durable lsn (ha.durable lsn h), ?_⟩
  · intro r hm
    rcases hb.adds r hm with hm | hz
    · exact ha.adds r hm
    · exact .inr hz
  · intro ctx hr
    rw [hb.own ctx (ht.trans hr), ha.own ctx hr]
  · intro cnt hle h
    exact hb.file cnt (hc ▸ hle) (ha.file cnt hle h)

/-- No frame is guarded for writing that was not. -/
def GuardsFrom (e e' : Engine) : Prop :=
  ∀ p f', e'.frames.find? p = some f' → f'.writeGuarded = true →
    ∃ f, e.frames.find? p = some f ∧ f.writeGuarded = true

theorem GuardsFrom.of_frames (h : e'.frames = e.frames) : GuardsFrom e e' :=
  fun _ f hf hg => ⟨f, h ▸ hf, hg⟩

theorem GuardsFrom.trans (ha : GuardsFrom a b) (hb : GuardsFrom b c) : GuardsFrom a c := by
  intro p f hf hr
  obtain ⟨g, hg, hr⟩ := hb p f hf hr
  exact ha p g hg hr

theorem GuardsFrom.setFrame (hr : e'.frames = e.frames)
    (hf : f.writeGuarded = true → ∃ g, e.frames.find? p = some g ∧ g.writeGuarded = true) :
    GuardsFrom e (e'.setFrame p f) :=
  forall_insert hf fun _ g _ hg hgr => ⟨g, hr ▸ hg, hgr⟩

theorem SameContents.reframed (hf : f.data = e.view p) (hr : e'.frames = e.frames)
    (hp : ∀ q, q ≠ p → e'.disk.page q = e.disk.page q) (q : Nat) :
    SameContents ((e'.setFrame p f).view q) (e.view q) :=
  congrArg normalized (view_reframed hf hr hp q)

/-- Nothing that a transaction can see has moved. -/
structure Unmoved (e e' : Engine) : Prop where
  sound : Sound e'
  settled : Settled e'
  views : ∀ p, SameContents (e'.view p) (e.view p)
  context : e'.context = e.context
  extent : e'.disk.pageCount = e.disk.pageCount
  idle : e'.rollbackActive = e.rollbackActive
  next : e'.nextTransactionId = e.nextTransactionId
  history : HistoryKept e e'
  guards : GuardsFrom e e'

theorem Unmoved.refl (h : Sound e) (hs : Settled e) : Unmoved e e :=
  ⟨h, hs, fun _ => .refl _, rfl, rfl, rfl, rfl, .of_same rfl rfl, .of_frames rfl⟩

theorem Unmoved.trans (ha : Unmoved a b) (hb : Unmoved b c) : Unmoved a c :=
  ⟨hb.sound, hb.settled, fun p => (hb.views p).trans (ha.views p),
    hb.context.trans ha.context, hb.extent.trans ha.extent, hb.idle.trans ha.idle,
    hb.next.trans ha.next, ha.history.trans hb.history ha.context ha.extent,
    ha.guards.trans hb.guards⟩

theorem ViewKept.unmoved {base : Nat → Page} (h : ViewKept base e) (hu : Unmoved e e') :
    ViewKept base e' := by
  refine ⟨?_, ?_⟩
  · intro ctx p hc hp hn
    rw [hu.context] at hc
    exact (hu.views p).trans (h.untouched ctx p hc hp hn)
  · intro ctx p s hc hp hs
    rw [hu.context] at hc
    exact h.touched ctx p s hc hp hs

theorem Settled.setFrame (h : Settled e) (hr : e'.frames = e.frames)
    (hf : f.pendingWalPreparation = false) : Settled (e'.setFrame p f) :=
  forall_insert hf fun q g _ hg => h q g (hr ▸ hg)

/-- Preparing a settled frame once more finds nothing to log. -/
theorem Coherent.prepared_settled {prep : PreparedPage} (h : Coherent e)
    (hc : e.context = some ctx) (hf : e.frames.find? p = some f)
    (hs : f.pendingWalPreparation = false) (hp : ctx.preparePageForWrite e.log e.updateMode
      e.disk.databaseHeader.formatVersion p f.data = .ok prep) :
    prep.context = ctx ∧ prep.log = e.log := by
  cases preparePageForWrite_outcome hp with
  | absent => exact ⟨rfl, rfl⟩
  | unchanged => exact ⟨rfl, rfl⟩
  | logged hst _ _ hdiffers _ =>
    have hi := ((h.intents ctx hc).2 p _ hst).2
    exact absurd (hi.settled f hf hs).symm hdiffers

theorem PoolEffect.unmoved (h : Sound e) (hs : Settled e) (he : PoolEffect e e') :
    Unmoved e e' ∧ e'.log.records = e.log.records := by
  have hn := h.effects (.single (.pool he))
  have hc := h.ready.coherent
  cases he with
  | @repinned p f pins guarded hf hr =>
    refine ⟨⟨hn, hs.setFrame rfl (hs p f hf), ?_, rfl, rfl, rfl, rfl,
      .of_same rfl rfl, .setFrame rfl fun hu => ⟨f, hf, (hr hu).1⟩⟩, rfl⟩
    exact .reframed (view_of_resident hf).symm rfl fun _ _ => rfl
  | @loaded p hf hp =>
    refine ⟨⟨hn, hs.setFrame rfl rfl, ?_, rfl, rfl, rfl, rfl, .of_same rfl rfl,
      .setFrame rfl (by simp)⟩, rfl⟩
    exact .reframed (view_of_absent hf).symm rfl fun _ _ => rfl
  | @evicted p f hf hcln =>
    refine ⟨⟨hn, fun q g hg => hs q g (find?_of_erase hg), ?_, rfl, rfl, rfl, rfl,
      .of_same rfl rfl, fun q g hg hr => ⟨g, find?_of_erase hg, hr⟩⟩, rfl⟩
    intro q
    by_cases hq : q = p
    · rw [hq, view_of_resident hf, view_of_absent (by simp)]
      exact ((hc.frames p f hf).clean hcln).symm
    · exact congrArg normalized (view_congr (by simp [hq]) rfl)
  | @prepared p f f' ctx prepared ht hf hdty hprep hfr =>
    obtain ⟨hm, hl⟩ :=
      hc.prepared_settled ht hf (hs p f hf) hprep
    refine ⟨⟨hn, hs.setFrame rfl (preparedFrame_keeps hfr).2.2, ?_, ?_, rfl, rfl,
      rfl, .of_same hl rfl, .setFrame rfl fun hr =>
        ⟨f, hf, (preparedFrame_keeps hfr).2.1 ▸ hr⟩⟩, ?_⟩
    · intro q
      rw [view_setFrame]
      split
      · rename_i hq
        rw [hq, view_of_resident hf, preparedFrame_data hfr]
        exact (preparePageForWrite_outcome hprep).sameContents
      · exact .refl _
    · simp only [Engine.setFrame, hm, ht]
    · simp only [Engine.setFrame, hl]
  | forced lsn hl =>
    have hrc := (flushUpTo_fields hl).1
    have hw : LogGrows e.log _ := .single (.flush hl)
    exact ⟨⟨hn, hs, fun _ => .refl _, rfl, rfl, rfl, rfl, .of_records hrc
      (fun _ hd => hw.isDurable h.ready.log hd) (fun _ _ hfl => hfl), .of_frames rfl⟩, hrc⟩
  | @wroteBack p f hf hp _ _ =>
    refine ⟨⟨hn, hs.setFrame rfl (hs p f hf), ?_, rfl, ?_, rfl, rfl,
      .of_records rfl (fun _ hd => hd) ?_, .setFrame rfl fun hr => ⟨f, hf, hr⟩⟩, rfl⟩
    · exact .reframed (view_of_resident hf).symm rfl fun q hq => by simp [hq]
    · exact pageCount_overwrite hp.2 f.data
    · exact fun count hle hfl => hfl.write (hp.2.trans_le hle)

theorem PoolEffects.unmoved (h : Sound e) (hs : Settled e) (he : PoolEffects e e') :
    Unmoved e e' ∧ e'.log.records = e.log.records := by
  induction he with
  | refl => exact ⟨.refl h hs, rfl⟩
  | tail _ heff ih =>
    obtain ⟨hu, hr⟩ := ih
    obtain ⟨hl, hm⟩ := heff.unmoved hu.sound hu.settled
    exact ⟨hu.trans hl, hm.trans hr⟩

/-- The own records of the running transaction are all that ties it to the log. -/
theorem OwnLog.of_own {rs rs' : List LogRecord} (h : OwnLog ctx rs)
    (ho : ownRecords rs' ctx.transactionId = ownRecords rs ctx.transactionId) : OwnLog ctx rs' := by
  have hu : ∀ p, HasUpdate rs' ctx.transactionId p ↔ HasUpdate rs ctx.transactionId p := by
    intro p
    have hm : ∀ r, (r ∈ rs' ∧ r.transactionId = ctx.transactionId) ↔
        (r ∈ rs ∧ r.transactionId = ctx.transactionId) := by
      intro r
      rw [← mem_ownRecords, ← mem_ownRecords, ho]
    constructor
    · rintro ⟨r, hr, hi, hn⟩
      exact ⟨r, ((hm r).mp ⟨hr, hi⟩).1, hi, hn⟩
    · rintro ⟨r, hr, hi, hn⟩
      exact ⟨r, ((hm r).mpr ⟨hr, hi⟩).1, hi, hn⟩
  refine ⟨⟨?_, ?_⟩, ?_⟩
  · intro hb
    rw [ho]
    exact h.chained.unbegun hb
  · intro begin hb
    rw [ho]
    exact h.chained.begun begin hb
  · intro p s hs
    rw [hu p]
    exact h.logged p s hs

/-- Transaction ids start at one; zero is on the records of the system. -/
structure IdsInUse (e : Engine) : Prop where
  next : 0 < e.nextTransactionId
  running : ∀ context, e.context = some context → context.transactionId ≠ 0

theorem IdsInUse.unmoved (h : IdsInUse e) (hu : Unmoved e e') : IdsInUse e' := by
  refine ⟨?_, ?_⟩
  · rw [hu.next]
    exact h.next
  · rw [hu.context]
    exact h.running

/-- A log that gained system records, or lost records of others. -/
theorem Unmoved.relog (h : Sound e) (hs : Settled e) (hi : IdsInUse e) (hl : LogSound log)
    (hrc : ∀ r ∈ log.records, r ∈ e.log.records ∨ r.transactionId = 0)
    (ho : ∀ ctx, e.context = some ctx → ownRecords log.records ctx.transactionId =
        ownRecords e.log.records ctx.transactionId)
    (hd : ∀ lsn, e.log.IsDurable lsn → log.IsDurable lsn) : Unmoved e { e with log := log } := by
  refine ⟨⟨⟨h.ready.coherent.relog rfl rfl (.inl rfl), hl⟩, ⟨?_, ?_⟩, h.reserves⟩, hs,
    fun _ => .refl _, rfl, rfl, rfl, rfl, ⟨hrc, ho, hd, fun _ _ hf => hf⟩, .of_frames rfl⟩
  · intro r hr
    rcases hrc r hr with hm | hz
    · exact h.owned.ids r hm
    · rw [hz]
      exact hi.next
  · intro ctx hc
    obtain ⟨hlt, hn⟩ := h.owned.own ctx hc
    exact ⟨hlt, hn.of_own (ho ctx hc)⟩

/-- A file with the same pages, however much of it is durable. -/
theorem Sound.resync {disk : DiskManager} (h : Sound e) (hp : ∀ p, disk.page p = e.disk.page p)
    (hc : disk.pageCount = e.disk.pageCount) (hh : disk.databaseHeader = e.disk.databaseHeader) :
    Sound { e with disk := disk } := by
  have hch := h.ready.coherent
  refine ⟨⟨⟨?_, ?_, ?_, ?_, ?_⟩, h.ready.log⟩, h.owned.quiet rfl rfl rfl, h.reserves⟩
  · intro p f hf
    have hr := hch.frames p f hf
    refine ⟨⟨hr.located.1, hc ▸ hr.located.2⟩, hr.pending, hr.guarded, ?_, hr.covered, hr.recorded⟩
    intro hl
    rw [hp p]
    exact hr.clean hl
  · intro ctx ht
    obtain ⟨hsr, hs⟩ := hch.intents ctx ht
    refine ⟨hc ▸ hsr, ?_⟩
    intro p s hst
    obtain ⟨hlt, hi⟩ := hs p s hst
    refine ⟨hc ▸ hlt, hi.existed, hi.paired, hi.settled, ?_⟩
    intro hw
    rw [hp p]
    exact hi.stored hw
  · intro ctx ht p hsr hlt
    exact hch.grown ctx ht p hsr (hc ▸ hlt)
  · rw [hc]
    exact hch.nonempty
  · rw [hp 0, hh]
    exact hch.header

theorem Unmoved.resync {disk : DiskManager} (h : Sound e) (hs : Settled e)
    (hp : ∀ p, disk.page p = e.disk.page p) (hc : disk.pageCount = e.disk.pageCount)
    (hh : disk.databaseHeader = e.disk.databaseHeader)
    (hf : ∀ count, e.disk.file.Within count → disk.file.Within count) :
    Unmoved e { e with disk := disk } :=
  ⟨h.resync hp hc hh, hs, fun p => congrArg normalized (view_congr rfl (hp p)), rfl, hc, rfl, rfl,
    .of_records rfl (fun _ hd => hd) (fun count _ => hf count), .of_frames rfl⟩

theorem Unmoved.append {pl : LogPayload} (h : Sound e) (hs : Settled e) (hi : IdsInUse e)
    (ha : e.log.append 0 none pl = .ok (log, lsn)) : Unmoved e { e with log := log } := by
  have hg : LogGrows e.log log := .single (.append ha)
  obtain ⟨_, _, _, _, hrc, _⟩ := append_ok ha
  refine .relog h hs hi (hg.sound h.ready.log) ?_ ?_ (fun _ hd => hg.isDurable h.ready.log hd)
  · intro r hr
    rw [hrc] at hr
    rcases mem_append.mp hr with hm | hm
    · exact .inl hm
    · rw [mem_singleton.mp hm]
      exact .inr rfl
  · intro ctx hc
    have hz : ¬ (0 = ctx.transactionId) := fun hz => hi.running ctx hc hz.symm
    simp [hrc, ownRecords, hz]

theorem Unmoved.force (h : Sound e) (hs : Settled e) (hf : e.log.flushUpTo lsn = .ok log) :
    Unmoved e { e with log := log } :=
  (PoolEffect.unmoved h hs (.forced lsn hf)).1

theorem Unmoved.sync (h : Sound e) (hs : Settled e) : Unmoved e { e with disk := e.disk.sync } :=
  .resync h hs (fun _ => rfl) rfl rfl (fun _ hf => hf.sync)

theorem retiredFrame_keeps (f : Frame) :
    (retiredFrame f).data = f.data ∧ (retiredFrame f).pinCount = f.pinCount ∧
      (retiredFrame f).writeGuarded = f.writeGuarded ∧ (retiredFrame f).dirty = f.dirty ∧
      (retiredFrame f).recLsn = f.recLsn ∧
      (retiredFrame f).pendingWalPreparation = f.pendingWalPreparation := by
  unfold retiredFrame
  split <;> exact ⟨rfl, rfl, rfl, rfl, rfl, rfl⟩

/-- Marking one frame as covered by a checkpoint. -/
theorem Unmoved.retireFrame (h : Sound e) (hs : Settled e) (hf : e.frames.find? p = some f) :
    Unmoved e (e.setFrame p (retiredFrame f)) := by
  obtain ⟨ht, hpi, hgd, hd, hr, hp⟩ := retiredFrame_keeps f
  have hfr := h.ready.coherent.frames p f hf
  have hc : Coherent (e.setFrame p (retiredFrame f)) := by
    refine h.ready.coherent.reframe p (fun q hq => by simp [hq]) ?_ ?_
    · intro g hg
      obtain rfl := eq_of_find?_insert hg
      refine ⟨hfr.located, ?_, ?_, ?_, ?_, ?_⟩
      · rw [hp, hd]
        exact hfr.pending
      · rw [hgd, hpi]
        exact hfr.guarded
      · rw [hd, ht]
        exact hfr.clean
      · rw [hd, hp, hr]
        exact hfr.covered
      · rw [hr, hd]
        exact hfr.recorded
    · intro ctx s _ _ hi
      refine hi.reframe hf (find?_setFrame_self e p _) rfl hr ?_
      rw [hp, ht]
      exact fun hpr => ⟨hpr, rfl⟩
  refine ⟨⟨⟨hc, h.ready.log⟩, h.owned.quiet rfl rfl rfl, h.reserves⟩,
    hs.setFrame rfl (hp.trans (hs p f hf)), ?_, rfl, rfl, rfl, rfl,
    .of_same rfl rfl, .setFrame rfl fun hgr => ⟨f, hf, hgd ▸ hgr⟩⟩
  exact .reframed (ht.trans (view_of_resident hf).symm) rfl fun _ _ => rfl

/-- Retirement marks the frames one after the other. -/
theorem retire_induction {P : Engine → Prop} (hr : e.retireCheckpointCoveredDependencies = .ok e')
    (h : P e) (ht : ∀ s p f, P s → s.frames.find? p = some f → P (s.setFrame p (retiredFrame f))) :
    P e' := by
  simp only [retireCheckpointCoveredDependencies, ok_iff] at hr
  obtain ⟨_, _, _, _, _, _, rfl⟩ := hr
  -- the entries still to be marked are frames of the state reached
  have hl : ∀ (ents : List (Nat × Frame)) (s : Engine), P s →
      (ents.map Prod.fst).Nodup → (∀ ent ∈ ents, s.frames.find? ent.1 = some ent.2) →
      P (ents.foldl (fun s ent => s.setFrame ent.1 (retiredFrame ent.2)) s) := by
    intro ents
    induction ents with
    | nil => exact fun s hs _ _ => hs
    | cons ent ents ih =>
      intro s hs hd hf
      obtain ⟨hn, hd⟩ := nodup_cons.mp hd
      refine ih _ (ht s ent.1 ent.2 hs (hf ent mem_cons_self)) hd ?_
      intro other ho
      have hne : other.1 ≠ ent.1 := by
        intro heq
        exact hn (heq ▸ mem_map_of_mem ho)
      rw [find?_setFrame, if_neg hne]
      exact hf other (mem_cons_of_mem _ ho)
  refine hl e.frames.entries e h ?_ ?_
  · exact (sorted_keys e.frames).imp (fun hlt => hlt.ne)
  · intro ent he
    exact find?_eq_some.mpr he

theorem Unmoved.retire (h : Sound e) (ht : Settled e)
    (hr : e.retireCheckpointCoveredDependencies = .ok e') : Unmoved e e' :=
  retire_induction hr (.refl h ht) fun _ _ _ hs hf =>
    hs.trans (.retireFrame hs.sound hs.settled hf)

/-- Retirement itself asks for a finished statement. -/
theorem retire_settled (hr : e.retireCheckpointCoveredDependencies = .ok e') : Settled e := by
  simp only [retireCheckpointCoveredDependencies, bind_ok] at hr
  obtain ⟨_, _, _, _, _, hfr, _⟩ := hr
  intro p f hf
  have he := forM_ok.mp hfr (p, f) (find?_eq_some.mp hf)
  simp only [ok_iff] at he
  exact he.choose_spec.1

/-- The begin record comes first among the records of a transaction. -/
theorem OwnLog.begin_le {begin : Nat} {r : LogRecord} (h : OwnLog ctx log.records)
    (hp : LogPlaced log) (hb : ctx.beginLsn = some begin)
    (hr : r ∈ ownRecords log.records ctx.transactionId) : begin ≤ r.lsn := by
  obtain ⟨rest, ho, _⟩ := h.chained.begun begin hb
  have hs : (ownRecords log.records ctx.transactionId).Pairwise
      (fun a b => a.lsn < b.lsn) := hp.sorted.filter _
  rw [ho] at hs hr
  rcases mem_cons.mp hr with rfl | hrs
  · exact le_rfl
  · exact ((pairwise_cons.mp hs).1 r hrs).le

/-- Recovery of the running transaction needs no record in front of the floor. -/
def FloorKept (e : Engine) (floor : Nat) : Prop :=
  ∀ context begin, e.context = some context → context.beginLsn = some begin → floor ≤ begin

theorem ownRecords_filter {start : Nat} (h : Sound e) (hc : e.context = some ctx)
    (hf : FloorKept e start) :
    ownRecords (e.log.records.filter (start ≤ ·.lsn)) ctx.transactionId =
      ownRecords e.log.records ctx.transactionId := by
  have ho := (h.owned.own ctx hc).2
  have hm : ownRecords (e.log.records.filter (start ≤ ·.lsn)) ctx.transactionId =
      (ownRecords e.log.records ctx.transactionId).filter (start ≤ ·.lsn) := by
    simp only [ownRecords, filter_filter, Bool.and_comm]
  rw [hm]
  refine filter_eq_self.mpr ?_
  intro r hr
  cases hb : ctx.beginLsn with
  | none =>
    rw [(ho.chained.unbegun hb).2] at hr
    cases hr
  | some begin =>
    have hle := ho.begin_le h.ready.log.placed hb hr
    exact decide_eq_true ((hf ctx begin hc hb).trans hle)

theorem reclaim_records (m : CheckpointManager) (flo : Nat) (rcl : Reclamation) :
    ∃ start, start ≤ flo ∧ (m.reclaim flo rcl).log.records =
      m.log.records.filter (start ≤ ·.lsn) := by
  have ha : m.log.records = m.log.records.filter (0 ≤ ·.lsn) :=
    (filter_eq_self.mpr (by simp)).symm
  cases rcl with
  | failed => exact ⟨0, Nat.zero_le _, ha⟩
  | rotated => exact ⟨0, Nat.zero_le _, ha⟩
  | completed => exact reclaimSegmentsBefore_records m.log.rotateSegment flo 1

theorem Unmoved.reclaim {flo : Nat} (rcl : Reclamation) (h : Sound m.engine)
    (hs : Settled m.engine) (hi : IdsInUse m.engine) (hf : FloorKept m.engine flo) :
    Unmoved m.engine (m.reclaim flo rcl).engine := by
  obtain ⟨hrc, hm⟩ := reclaim_reclaimed m flo rcl
  obtain ⟨start, ht, he⟩ := reclaim_records m flo rcl
  rw [hm]
  refine .relog h hs hi (hrc.sound h.ready.log) ?_ ?_
    (fun _ ⟨last, hl, hle⟩ => ⟨last, hrc.durable ▸ hl, hle⟩)
  · intro r hr
    exact .inl (hrc.subset r hr)
  · intro ctx hc
    rw [he]
    refine ownRecords_filter h hc ?_
    intro run begin hn hb
    exact ht.trans (hf run begin hn hb)

/-- What the locals of a checkpoint call say about the running transaction. -/
def StageKept (m : CheckpointManager) (call : CheckpointCall) : CheckpointStage → Prop
  | .numbered _ => call.mode = .sharp → m.engine.context = none
  | .sharpBegun _ _ | .flushed _ _ | .databaseSynced _ _ => m.engine.context = none
  | .ended plan | .publishing plan _ | .published plan | .retired plan =>
    FloorKept m.engine plan.floor
  | _ => True

theorem endFuzzy_kept {cid bl : Nat} {plan : CheckpointPlan} (h : Sound m.engine)
    (hs : Settled m.engine) (hi : IdsInUse m.engine) (he : m.endFuzzy cid bl = .ok (m', plan)) :
    Unmoved m.engine m'.engine ∧ FloorKept m.engine plan.floor := by
  simp only [endFuzzy, appendCheckpoint, bind_ok, pure_ok] at he
  obtain ⟨dirtyPages, _, active, ha, ⟨ended, endLsn⟩, ⟨⟨log, lsn⟩, hp, heq⟩, hpl⟩ := he
  cases heq
  cases hpl
  refine ⟨.append h hs hi hp, ?_⟩
  intro ctx begin hc hb
  obtain ⟨rest, _, _, hl, _⟩ := (h.owned.own ctx hc).2.chained.begun begin hb
  simp only [checkpointTransactions, hc, hb, hl, bind_ok, pure_ok] at ha
  obtain ⟨_, _, rfl⟩ := ha
  exact min_le_right _ _

theorem endSharp_kept {cid bl : Nat} {plan : CheckpointPlan} (h : Sound m.engine)
    (hs : Settled m.engine) (hi : IdsInUse m.engine)
    (he : m.endSharp cid bl = .ok (m', plan)) : Unmoved m.engine m'.engine := by
  simp only [endSharp, appendCheckpoint, bind_ok, pure_ok] at he
  obtain ⟨_, _, ⟨ended, endLsn⟩, ⟨⟨log, lsn⟩, ha, heq⟩, _, _, hp⟩ := he
  cases heq
  cases hp
  exact .append h hs hi ha

theorem FloorKept.of_context {flo : Nat} (h : FloorKept e flo) (hc : e'.context = e.context) :
    FloorKept e' flo := by
  intro ctx begin hr
  exact h ctx begin (hc ▸ hr)

/-- One step of a checkpoint. -/
theorem advance_unmoved {call : CheckpointCall} {stage next : CheckpointStage} (h : Sound m.engine)
    (hs : Settled m.engine) (hi : IdsInUse m.engine) (ht : StageKept m call stage)
    (ha : m.advance call stage = .ok (m', next)) :
    Unmoved m.engine m'.engine ∧ StageKept m' call next := by
  have hl := Unmoved.refl h hs
  cases stage with
  | start =>
    simp only [advance, requireCheckpointable, ok_iff] at ha
    obtain ⟨_, ⟨_, hsf, _⟩, rfl, rfl⟩ := ha
    exact ⟨hl, fun hh => by simpa using hsf.2 hh⟩
  | numbered cid =>
    cases hm : call.mode with
    | fuzzy =>
      simp only [advance, hm, pure_ok] at ha
      cases ha
      refine ⟨?_, trivial⟩
      unfold DiskManager.syncPendingWritebacks
      split
      · exact .sync h hs
      · exact hl
    | sharp =>
      simp only [advance, appendCheckpoint, hm, ok_iff] at ha
      obtain ⟨_, ⟨⟨log, lsn⟩, hp, rfl⟩, rfl, rfl⟩ := ha
      exact ⟨.append h hs hi hp, ht hm⟩
  | fenced cid =>
    simp only [advance, appendCheckpoint, ok_iff] at ha
    obtain ⟨_, ⟨⟨log, lsn⟩, hp, rfl⟩, rfl, rfl⟩ := ha
    exact ⟨.append h hs hi hp, trivial⟩
  | fuzzyBegun cid bl =>
    simp only [advance, ok_iff] at ha
    obtain ⟨⟨ended, plan⟩, he, rfl, rfl⟩ := ha
    obtain ⟨hu, hr⟩ := endFuzzy_kept h hs hi he
    exact ⟨hu, hr.of_context hu.context⟩
  | sharpBegun cid bl =>
    simp only [advance, ok_iff] at ha
    obtain ⟨engine, hf, rfl, rfl⟩ := ha
    have hu := (PoolEffects.unmoved h hs (flushAll_pooled h.ready hf)).1
    exact ⟨hu, hu.context.trans ht⟩
  | flushed cid bl =>
    simp only [advance, pure_ok] at ha
    cases ha
    exact ⟨.sync h hs, ht⟩
  | databaseSynced cid bl =>
    simp only [advance, ok_iff] at ha
    obtain ⟨⟨ended, plan⟩, he, rfl, rfl⟩ := ha
    have hu := endSharp_kept h hs hi he
    refine ⟨hu, ?_⟩
    intro ctx begin hc
    rw [hu.context.trans ht] at hc
    cases hc
  | ended plan =>
    simp only [advance, ok_iff] at ha
    obtain ⟨log, hf, rfl, rfl⟩ := ha
    exact ⟨.force h hs hf, ht⟩
  | publishing plan stage =>
    cases stage with
    | synced =>
      simp only [advance, pure_ok] at ha
      cases ha
      exact ⟨hl, ht⟩
    | _ =>
      simp only [advance, ok_iff] at ha
      obtain ⟨⟨ctl, next⟩, _, rfl, rfl⟩ := ha
      exact ⟨hl, ht⟩
  | published plan =>
    simp only [advance, ok_iff] at ha
    obtain ⟨engine, hrt, rfl, rfl⟩ := ha
    have hu := Unmoved.retire h hs hrt
    exact ⟨hu, ht.of_context hu.context⟩
  | retired plan =>
    simp only [advance, pure_ok] at ha
    cases ha
    exact ⟨.reclaim call.reclamation h hs hi ht, trivial⟩
  | reclaimed plan =>
    simp only [advance, ok_iff] at ha
    obtain ⟨_, _, rfl, rfl⟩ := ha
    exact ⟨hl, trivial⟩
  | returned slot =>
    simp only [advance, pure_ok] at ha
    cases ha
    exact ⟨hl, trivial⟩

namespace CheckpointManager

/-- A checkpoint of which no error is passed on: it ends with the step that
failed, or after `steps` of them. -/
def attempt (m : CheckpointManager) (call : CheckpointCall) :
    Nat → CheckpointStage → CheckpointManager
  | 0, _ => m
  | steps + 1, stage =>
    match m.advance call stage with
    | .ok (m', next) => m'.attempt call steps next
    | .error _ => m

end CheckpointManager

theorem attempt_unmoved {call : CheckpointCall} {stage : CheckpointStage} (steps : Nat)
    (h : Sound m.engine) (hs : Settled m.engine) (hi : IdsInUse m.engine)
    (ht : StageKept m call stage) : Unmoved m.engine (m.attempt call steps stage).engine := by
  induction steps generalizing m stage with
  | zero => exact .refl h hs
  | succ steps ih =>
    unfold attempt
    split
    · rename_i m' next ha
      obtain ⟨hu, hn⟩ := advance_unmoved h hs hi ht ha
      exact hu.trans (ih hu.sound hu.settled (hi.unmoved hu) hn)
    · exact .refl h hs

/-! The engine between calls. -/

theorem Effect.fixed (h : Effect e e') :
    e'.nextTransactionId = e.nextTransactionId ∧ e'.rollbackActive = e.rollbackActive := by
  cases h with
  | pool h => cases h <;> exact ⟨rfl, rfl⟩
  | _ => exact ⟨rfl, rfl⟩

theorem Effect.stays_idle (h : Effect e e') (hi : e.context = none) : e'.context = none := by
  cases h with
  | mutated => exact hi
  | pool h =>
    cases h with
    | repinned | loaded | evicted | wroteBack | forced => exact hi
    | prepared hc => cases hi.symm.trans hc
  | intended hc | reserved hc | appended hc | headerIntended hc | persisted _ hc | bounded hc =>
    cases hi.symm.trans hc

theorem Effects.fixed (h : Effects e e') :
    e'.nextTransactionId = e.nextTransactionId ∧ e'.rollbackActive = e.rollbackActive := by
  induction h with
  | refl => exact ⟨rfl, rfl⟩
  | tail _ he ih => exact ⟨he.fixed.1.trans ih.1, he.fixed.2.trans ih.2⟩

theorem Effects.stays_idle (h : Effects e e') (hi : e.context = none) : e'.context = none := by
  induction h with
  | refl => exact hi
  | tail _ heff ih => exact heff.stays_idle ih

/-- The engine in a statement, and between statements. -/
structure Running (e : Engine) : Prop where
  sound : Sound e
  ids : IdsInUse e
  idle : e.rollbackActive = false

structure Steady (e : Engine) : Prop extends Running e where
  settled : Settled e

theorem Running.effects (h : Running e) (he : Effects e e') : Running e' := by
  obtain ⟨hn, hi⟩ := he.fixed
  refine ⟨h.sound.effects he, ⟨?_, ?_⟩, hi.trans h.idle⟩
  · rw [hn]
    exact h.ids.next
  · intro ctx' hc'
    cases hc : e.context with
    | none =>
      rw [he.stays_idle hc] at hc'
      cases hc'
    | some ctx =>
      obtain ⟨last, hl, hs⟩ := he.sameWriter hc
      rw [hc'] at hl
      cases hl
      rw [hs.transactionId]
      exact h.ids.running ctx hc

theorem Steady.unmoved (h : Steady e) (hu : Unmoved e e') : Steady e' :=
  ⟨⟨hu.sound, h.ids.unmoved hu, hu.idle.trans h.idle⟩, hu.settled⟩

theorem Steady.pooled (h : Steady e) (hp : PoolEffects e e') :
    Unmoved e e' := (hp.unmoved h.sound h.settled).1

theorem Sound.settled_of_idle (h : Sound e) (hi : e.context = none) : Settled e := by
  intro p f hf
  by_contra hpend
  obtain ⟨_, ctx, _, hc, _⟩ :=
    (h.ready.coherent.frames p f hf).pending (by simpa using hpend)
  rw [hi] at hc
  cases hc

/-- An engine without a transaction. -/
structure Ended (e : Engine) : Prop extends Steady e where
  ended : e.context = none

theorem Ended.of_sound (h : Sound e) (hi : e.context = none) (hr : e.rollbackActive = false)
    (hn : 0 < e.nextTransactionId) : Ended e := by
  refine ⟨⟨⟨h, ⟨hn, ?_⟩, hr⟩, h.settled_of_idle hi⟩, hi⟩
  intro ctx hc
  rw [hi] at hc
  cases hc

theorem Ended.unmoved (h : Ended e) (hu : Unmoved e e') : Ended e' :=
  ⟨h.toSteady.unmoved hu, hu.context.trans h.ended⟩

theorem Running.begin {prot : RollbackProtocol} (h : Steady e)
    (hb : e.beginTransaction prot = .ok e') : Steady e' := by
  have hs := h.sound.begin hb
  obtain ⟨ctx, hc, hi, _⟩ := beginTransaction_extent hb
  simp only [beginTransaction, ok_iff] at hb
  obtain ⟨_, _, _, _, _, _, _, _, rfl⟩ := hb
  refine ⟨⟨hs, ⟨Nat.succ_pos _, ?_⟩, h.idle⟩, h.settled⟩
  intro run hr
  rw [hc] at hr
  cases hr
  rw [hi]
  exact Nat.pos_iff_ne_zero.mp h.ids.next

theorem Running.prepare (h : Running e) (hp : e.prepareStatement = .ok e') :
    Steady e' ∧ Effects e e' := by
  have hr := prepareStatement_prepared h.sound.ready hp
  exact ⟨⟨h.effects hr.effects, hr.settled⟩, hr.effects⟩

theorem Running.commit (h : Running e) (hc : e.commitStatement = .ok e') : Ended e' := by
  have hs := h.sound.commit hc
  simp only [commitStatement, bind_ok] at hc
  obtain ⟨prep, hp, hc⟩ := hc
  have hr := (h.prepare hp).1
  split at hc
  · simp at hc
  · split at hc
    · simp only [pure_ok] at hc
      subst hc
      exact .of_sound hs rfl hr.idle hr.ids.next
    · simp only [ok_iff, Prod.exists] at hc
      obtain ⟨_, log, lsn, _, frc, _, rfl⟩ := hc
      exact .of_sound hs rfl hr.idle hr.ids.next

theorem Running.rollback (h : Running e) (hb : e.rollbackStatement = .ok e') : Ended e' := by
  have hs := h.sound.rollback hb
  obtain ⟨ctx, _, prep, held, bnd, log, hp, _, _, _, hc⟩ :=
    rollbackStatement_run h.sound hb
  have hn := (h.effects hp.effects).ids.next
  rcases hc with ⟨_, rfl⟩ | ⟨_, hr⟩
  · exact .of_sound hs rfl rfl hn
  · exact .of_sound hs hr.idle.1 hr.idle.2 (hr.next ▸ hn)

/-- While the boundary mark is set, no frame waits for its record or is guarded. -/
def MarkKept (e : Engine) : Prop :=
  ∀ context, e.context = some context → context.safeBoundary = true → ∀ p f,
    e.frames.find? p = some f → f.pendingWalPreparation = false ∧ f.writeGuarded = false

theorem MarkKept.of_unmarked (hc : e.context = some ctx) (hm : ctx.safeBoundary = false) :
    MarkKept e := by
  intro run hr hs
  rw [hc] at hr
  cases hr
  rw [hm] at hs
  cases hs

theorem notePageWriteIntent_unmarked {bef : Page}
    (h : ctx.notePageWriteIntent p bef = .ok ctx') : ctx'.safeBoundary = false := by
  rcases notePageWriteIntent_ok h with ⟨_, _, rfl⟩ | ⟨_, _, _, rfl⟩ <;> rfl

/-- A frame that is pending or guarded was so before, or is changed under its guard. -/
theorem MarkKept.reframe (h : MarkKept e)
    (hc : ∀ ctx', e'.context = some ctx' → ∃ ctx, e.context = some ctx ∧
      ctx.safeBoundary = ctx'.safeBoundary) (hfs : ∀ p f', e'.frames.find? p = some f' →
      f'.pendingWalPreparation = true ∨ f'.writeGuarded = true → ∃ f, e.frames.find? p = some f ∧
        (f.pendingWalPreparation = true ∨ f.writeGuarded = true)) : MarkKept e' := by
  intro ctx' hr hs p f' hf'
  obtain ⟨ctx, hc, hm⟩ := hc ctx' hr
  by_contra hb
  have hb' : f'.pendingWalPreparation = true ∨ f'.writeGuarded = true := by
    cases hp : f'.pendingWalPreparation <;> simp_all
  obtain ⟨f, hf, hb⟩ := hfs p f' hf' hb'
  obtain ⟨ht, hfr⟩ := h ctx hc (hm.trans hs) p f hf
  simp [ht, hfr] at hb

theorem ensureBeginLogged_mark (h : ctx.ensureBeginLogged log = .ok (ctx', log')) :
    ctx'.safeBoundary = ctx.safeBoundary := by
  rcases ensureBeginLogged_ok h with ⟨_, rfl, _⟩ | ⟨_, rfl, _⟩ <;> rfl

theorem appendTransactionRecord_mark {pl : LogPayload}
    (h : ctx.appendTransactionRecord log pl = .ok (ctx', log', lsn)) :
    ctx'.safeBoundary = ctx.safeBoundary := by
  obtain ⟨begun, mid, hb, _, rfl⟩ := appendTransactionRecord_ok h
  show begun.safeBoundary = ctx.safeBoundary
  exact ensureBeginLogged_mark hb

theorem prepareOutcome_mark {mode : WalUpdateMode} {formatVersion : Nat} {aft : Page}
    {prep : PreparedPage} (h : ctx.PrepareOutcome log mode formatVersion p aft prep) :
    prep.context.safeBoundary = ctx.safeBoundary := by
  cases h with
  | absent => rfl
  | unchanged => rfl
  | logged _ haft hbef _ hlgd =>
    obtain ⟨_, app, _, _, _, ha, hc, _⟩ :=
      logged_describes haft hbef hlgd
    rw [hc]
    show app.safeBoundary = ctx.safeBoundary
    exact appendTransactionRecord_mark ha

theorem prepareForPhysicalPageAppend_unmarked
    (h : ctx.prepareForPhysicalPageAppend log p = .ok (ctx', log', lsn)) :
    ctx'.safeBoundary = false := by
  obtain ⟨begun, mid, hb, hr⟩ := prepareForPhysicalPageAppend_ok h
  have hg := ensureBeginLogged_mark hb
  rcases reservePage_ok hr with ⟨rfl, _⟩ | ⟨app, ha, rfl, _⟩
  · exact hg
  · exact (appendTransactionRecord_mark ha).trans hg

theorem MarkKept.effect (h : MarkKept e) (hh : Coherent e) (he : Effect e e') : MarkKept e' := by
  have hm : ∀ ctx', e.context = some ctx' → ∃ ctx, e.context = some ctx ∧
      ctx.safeBoundary = ctx'.safeBoundary := fun ctx hc => ⟨ctx, hc, rfl⟩
  cases he with
  | pool he =>
    cases he with
    | @repinned p f pins guarded hf hr =>
      exact h.reframe hm (forall_insert
        (fun hb => ⟨f, hf, hb.imp_right fun hu => (hr hu).1⟩) fun _ g _ hg hb => ⟨g, hg, hb⟩)
    | loaded =>
      exact h.reframe hm (forall_insert (fun hb => by simp at hb) fun _ g _ hg hb => ⟨g, hg, hb⟩)
    | evicted =>
      exact h.reframe hm fun _ g hg hb => ⟨g, find?_of_erase hg, hb⟩
    | @prepared p f f' ctx prep hc hf hdty hprep hfr =>
      have hmr := prepareOutcome_mark (preparePageForWrite_outcome hprep)
      refine h.reframe ?_ ?_
      · intro ctx' hc'
        cases hc'
        exact ⟨ctx, hc, hmr.symm⟩
      · refine forall_insert ?_ fun _ g _ hg hb => ⟨g, hg, hb⟩
        intro hb
        obtain ⟨_, hr, hs⟩ := preparedFrame_keeps hfr
        rw [hs, hr] at hb
        exact ⟨f, hf, .inr (by simpa using hb)⟩
    | forced => exact h.reframe hm fun _ g hg hb => ⟨g, hg, hb⟩
    | @wroteBack p f hf =>
      exact h.reframe hm (forall_insert (fun hb => ⟨f, hf, hb⟩) fun _ g _ hg hb => ⟨g, hg, hb⟩)
  | @mutated p f data hf hr =>
    exact h.reframe hm (forall_insert (fun _ => ⟨f, hf, .inr hr⟩) fun _ g _ hg hb => ⟨g, hg, hb⟩)
  | reserved _ hrsvd => exact .of_unmarked rfl (prepareForPhysicalPageAppend_unmarked hrsvd)
  | intended _ _ _ hint | appended _ _ _ hint | headerIntended _ _ hint =>
    exact .of_unmarked rfl (notePageWriteIntent_unmarked hint)
  | @persisted ctx prep log disk s hdr hc _ _ hprep _ _ =>
    have hmr := prepareOutcome_mark (preparePageForWrite_outcome hprep)
    refine h.reframe ?_ fun _ g hg hb => ⟨g, hg, hb⟩
    intro ctx' hc'
    cases hc'
    exact ⟨ctx, hc, hmr.symm⟩
  | bounded _ hp hs =>
    intro _ _ _ p f hf
    refine ⟨hs p f hf, ?_⟩
    by_contra hr
    exact ((hh.frames p f hf).guarded (by simpa using hr)).1 (hp p f hf)

theorem MarkKept.effects (h : MarkKept e) (hs : Sound e) (he : Effects e e') : MarkKept e' := by
  induction he with
  | refl => exact h
  | tail hbef heff ih =>
    exact ih.effect (hs.effects hbef).ready.coherent heff

theorem MarkKept.of_idle (hi : e.context = none) : MarkKept e := by
  intro ctx hc
  rw [hi] at hc
  cases hc

theorem MarkKept.begin {prot : RollbackProtocol} (hs : Sound e)
    (hb : e.beginTransaction prot = .ok e') : MarkKept e' := by
  simp only [beginTransaction, ok_iff] at hb
  obtain ⟨_, hi, _, _, _, _, _, _, rfl⟩ := hb
  have hn : e.context = none := by simpa using hi
  intro _ _ _ p f hf
  refine ⟨hs.settled_of_idle hn p f hf, ?_⟩
  by_contra hgrd
  obtain ⟨_, ctx, _, hc, _⟩ :=
    (hs.ready.coherent.frames p f hf).guarded (by simpa using hgrd)
  rw [hn] at hc
  cases hc

theorem MarkKept.unmoved (h : MarkKept e) (hu : Unmoved e e') : MarkKept e' := by
  intro ctx hc hs p f' hf'
  rw [hu.context] at hc
  refine ⟨hu.settled p f' hf', ?_⟩
  by_contra hgrd
  obtain ⟨f, hf, hg⟩ := hu.guards p f' hf' (by simpa using hgrd)
  rw [(h ctx hc hs p f hf).2] at hg
  cases hg

/-- Where a checkpoint may start, the last statement is finished. -/
theorem MarkKept.settled (h : MarkKept e) (hs : Sound e) (hsf : e.checkpointSafe = true) :
    Settled e := by
  cases hc : e.context with
  | none => exact hs.settled_of_idle hc
  | some ctx =>
    simp only [checkpointSafe, hc, Option.all_some, Bool.and_eq_true] at hsf
    exact fun p f hf => (h ctx hc hsf.2 p f hf).1

/-- A checkpoint call that ends anywhere. -/
theorem MarkKept.attempt (h : MarkKept m.engine) (call : CheckpointCall) (steps : Nat)
    (hs : Sound m.engine) (hi : IdsInUse m.engine) :
    (m.attempt call steps .start).engine = m.engine ∨
      Unmoved m.engine (m.attempt call steps .start).engine := by
  cases steps with
  | zero => exact .inl rfl
  | succ steps =>
    unfold CheckpointManager.attempt
    split
    · rename_i m' next ha
      have hf : m.engine.checkpointSafe = true := by
        simp only [CheckpointManager.advance, CheckpointManager.requireCheckpointable, ok_iff] at ha
        obtain ⟨_, ⟨_, ⟨hf, _⟩, _⟩, _⟩ := ha
        exact hf
      have he := h.settled hs hf
      have ht : StageKept m call .start := trivial
      obtain ⟨hu, hn⟩ := advance_unmoved hs he hi ht ha
      exact .inr (hu.trans (attempt_unmoved steps hu.sound hu.settled (hi.unmoved hu) hn))
    · exact .inl rfl

end MiniDb
