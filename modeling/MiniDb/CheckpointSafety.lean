import MiniDb.CheckpointRecords
import MiniDb.SegmentCodec

/-!
Runs of checkpoint calls that may stop anywhere. A call can fail or the process
can die between any two I/O steps, inside a slot write or the header of a new
log segment after any byte; a new process starts from the slot it selects, or
rebuilds a lost control file from the log. As long as no call publishes with a
readable slot ahead of the manager's generation, and no segment is left behind
without its header, selection never falls behind a call that returned.
-/
namespace MiniDb
open ByteBlock Outcome Engine CheckpointManager ControlFile ControlBlocks List

variable {call : CheckpointCall} {m m' : CheckpointManager} {plan : CheckpointPlan}
  {slot : CheckpointSlot} {next : CheckpointStage} {block old : ControlBlock}
  {bks : ControlBlocks} {ctl : ControlFile} {log : LogManager}
  {bl cid cnt flo : Nat} {ix tgt : SlotIndex}

inductive Activity
  | idle
  | calling (call : CheckpointCall) (stage : CheckpointStage)
  | down
  | rebuilding (slot : CheckpointSlot) (stage : PublishStage)

/-- The slots that calls began to write, in order, and whether the call returned. -/
abbrev Publications : Type := List (CheckpointSlot × Bool)

variable {pub : Publications}

/-- The file of a log segment that is being created, with the bytes of its header that
are written, and one that was left behind. -/
inductive NewSegment
  | none
  | creating (written : Nat)
  | abandoned (written : Nat)

structure CheckpointSystem where
  manager : CheckpointManager
  activity : Activity
  published : Publications
  segment : NewSegment

/-- `discoverSegments` refuses a file that is shorter than a header. -/
def LogOpens (s : CheckpointSystem) : Prop :=
  ∀ written, s.segment = .abandoned written → Wal.segmentHeaderSize ≤ written

def Publications.noted (published : Publications) : CheckpointStage → Publications
  | .returned slot => published.dropLast ++ [(slot, true)]
  | .publishing plan (.writing _ _ _ 0) => published ++ [(plan.slot, false)]
  | _ => published

def CheckpointStage.activity (call : CheckpointCall) : CheckpointStage → Activity
  | .returned _ => .idle
  | stage => .calling call stage

def NoneAheadIn (blocks : ControlBlocks) (generation : Nat) : Prop :=
  ∀ index slot, blocks.decoded index = some slot → slot.generation ≤ generation

/-- A file that the step leaves behind has its whole header. -/
def CreatesWhole (s s' : CheckpointSystem) : Prop :=
  ∀ written, s'.segment = .abandoned written →
    s.segment = s'.segment ∨ Wal.segmentHeaderSize ≤ written

/-- A slot no older than any that a call returned with. -/
def Chosen (published : Publications) (slot : CheckpointSlot) : Prop :=
  ∀ earlier returned later, published = earlier ++ (returned, true) :: later →
    slot ∈ returned :: later.map Prod.fst

def SomeReturned (published : Publications) : Prop := ∃ slot, (slot, true) ∈ published

theorem chosen_last (pub : Publications) (slot : CheckpointSlot) (flag : Bool) :
    Chosen (pub ++ [(slot, flag)]) slot := by
  intro ear ret later hs
  rcases eq_nil_or_concat later with rfl | ⟨later, last, rfl⟩
  · have hl := append_inj_right' hs rfl
    cases hl
    exact mem_cons_self
  · rw [concat_eq_append, ← cons_append, ← append_assoc] at hs
    have hl := append_inj_right' hs rfl
    cases hl
    simp

theorem Chosen.concat (h : Chosen pub slot) (other : CheckpointSlot) :
    Chosen (pub ++ [(other, false)]) slot := by
  intro ear ret later hs
  rcases eq_nil_or_concat later with rfl | ⟨later, last, rfl⟩
  · have hl := append_inj_right' hs rfl
    cases hl
  · rw [concat_eq_append, ← cons_append, ← append_assoc] at hs
    have hm := h ear ret later (append_inj_left' hs rfl)
    rcases mem_cons.mp hm with rfl | hm
    · exact mem_cons_self
    · simp only [concat_eq_append, map_append, mem_cons, mem_append]
      exact .inr (.inl hm)

/-- The slot at `index` is readable and has the latest generation of the file. -/
structure BestAt (blocks : ControlBlocks) (index : SlotIndex) (slot : CheckpointSlot) : Prop where
  readable : blocks.decoded index = some slot
  older : ∀ other, blocks.decoded index.other = some other → other.generation < slot.generation

theorem BestAt.select (h : BestAt bks ix slot) (hh : IsControlHeader bks.header)
    (ha : agreesWithLog log slot = true) : (ControlFile.sized bks).select log = some slot := by
  simp only [ControlFile.select, if_pos hh, candidates]
  cases ix with
  | first =>
    have hr := h.readable
    cases ho : bks.decoded .second with
    | none => simp [hr, ha]
    | some other =>
      have hlt := h.older other ho
      simp [hr, ha, not_lt.mpr hlt.le]
  | second =>
    have hr := h.readable
    cases ho : bks.decoded .first with
    | none => simp [hr, ha]
    | some other =>
      have hlt := h.older other ho
      simp [hr, ha, hlt]

theorem BestAt.publishTarget (h : BestAt bks ix slot) : bks.publishTarget = ix.other := by
  unfold ControlBlocks.publishTarget
  cases ix with
  | first =>
    have hr := h.readable
    cases ho : bks.decoded .second with
    | none => simp [hr, SlotIndex.other]
    | some other =>
      have hlt := h.older other ho
      simp [hr, SlotIndex.other, Nat.not_le.mpr hlt]
  | second =>
    have hr := h.readable
    cases ho : bks.decoded .first with
    | none => simp [SlotIndex.other]
    | some other =>
      have hlt := h.older other ho
      simp [hr, SlotIndex.other, hlt.le]

theorem decoded_setSlot_other (bks : ControlBlocks) (ix : SlotIndex) (block : ControlBlock) :
    (bks.setSlot ix block).decoded ix.other = bks.decoded ix.other := by
  cases ix <;> rfl

theorem setSlot_slot (bks : ControlBlocks) (ix : SlotIndex) :
    bks.setSlot ix (bks.slot ix) = bks := by
  cases ix <;> rfl

theorem other_other (ix : SlotIndex) : ix.other.other = ix := by
  cases ix <;> rfl

/-- The slot is the best of the file and its checkpoint durable in the log. -/
structure Anchored (m : CheckpointManager) (slot : CheckpointSlot) (floor : Nat) : Prop where
  best : ∃ blocks index, m.control = .sized blocks ∧ IsControlHeader blocks.header ∧
    BestAt blocks index slot
  recorded : ∃ endRecord beginRecord, Recorded slot m.log floor endRecord beginRecord
  durable : m.log.IsDurable slot.checkpointEndLsn

theorem Anchored.select (h : Anchored m slot flo) (hp : LogPlaced m.log) :
    m.control.select m.log = some slot := by
  obtain ⟨bks, ix, hc, hh, hb⟩ := h.best
  obtain ⟨er, beginRecord, hr⟩ := h.recorded
  rw [hc]
  exact hb.select hh (hr.agreesWithLog hp)

theorem Recorded.grow {log' : LogManager} {er beginRecord : LogRecord}
    (h : Recorded slot log flo er beginRecord) (hg : LogGrows log log') :
    Recorded slot log' flo er beginRecord := by
  obtain ⟨added, hex⟩ := hg.extends
  exact h.of_subset fun r hm _ => hex.subset hm

theorem Recorded.lower {er beginRecord : LogRecord} (h : Recorded slot log flo er beginRecord) :
    Recorded slot log 0 er beginRecord :=
  ⟨h.ended, h.begun, ⟨Nat.zero_le _, h.order.2⟩, h.lsn, h.valid, h.records⟩

theorem Anchored.lower (h : Anchored m slot flo) : Anchored m slot 0 := by
  obtain ⟨er, beginRecord, hr⟩ := h.recorded
  exact ⟨h.best, ⟨er, beginRecord, hr.lower⟩, h.durable⟩

theorem Anchored.grow (h : Anchored m slot flo) (hs : LogSound m.log)
    (hc : m'.control = m.control) (hg : LogGrows m.log m'.log) : Anchored m' slot flo := by
  obtain ⟨er, beginRecord, hr⟩ := h.recorded
  refine ⟨?_, ⟨er, beginRecord, hr.grow hg⟩, hg.isDurable hs h.durable⟩
  rw [hc]
  exact h.best

theorem Anchored.reclaimed (h : Anchored m slot flo) (hc : m'.control = m.control)
    (hr : LogReclaimed m.log m'.log flo) : Anchored m' slot flo := by
  obtain ⟨er, beginRecord, he⟩ := h.recorded
  refine ⟨?_, ⟨er, beginRecord, he.of_subset hr.kept⟩, ?_⟩
  · rw [hc]
    exact h.best
  · obtain ⟨durable, hm, hle⟩ := h.durable
    exact ⟨durable, hr.durable ▸ hm, hle⟩

theorem Anchored.reopened {kept : Nat} (h : Anchored m slot flo) (hs : LogSound m.log)
    (ho : m.log.Loses kept) : Anchored (m.withLog (m.log.reopen kept)) slot flo := by
  obtain ⟨er, beginRecord, hr⟩ := h.recorded
  have hd : ∀ r ∈ m.log.records, r.lsn ≤ er.lsn → r ∈ (m.log.reopen kept).records := by
    intro r hm hle
    obtain ⟨durable, hl, hb⟩ := h.durable
    refine reopen_durable ho hm ⟨durable, hl, ?_⟩
    rw [← hr.lsn] at hb
    exact hle.trans hb
  have he := hd er hr.ended le_rfl
  refine ⟨h.best, ⟨er, beginRecord, he,
    hd beginRecord hr.begun hr.order.2, hr.order, hr.lsn, hr.valid, hr.records⟩, ?_⟩
  obtain ⟨last, hl, hle⟩ := (reopen_sound hs kept).last er he
  exact ⟨last, hl, hr.lsn ▸ hle⟩

/-- What holds of the manager and its file at all times. -/
structure ManagerInv (m : CheckpointManager) (published : Publications) : Prop where
  log : LogSound m.log
  range : EngineInRange m.engine
  generation : m.lastGeneration < 2 ^ 64
  ids : m.nextCheckpointId < 2 ^ 64
  kept : SomeReturned published → ∃ slot, Chosen published slot ∧ Anchored m slot 0

theorem ManagerInv.grow (h : ManagerInv m pub) (hw : Works m.engine m'.engine)
    (hc : m'.control = m.control) (hg : m'.lastGeneration < 2 ^ 64)
    (hi : m'.nextCheckpointId < 2 ^ 64) : ManagerInv m' pub := by
  refine ⟨LogGrows.sound h.log hw.log, hw.range h.range, hg, hi, ?_⟩
  intro hr
  obtain ⟨slot, hh, ha⟩ := h.kept hr
  exact ⟨slot, hh, ha.grow h.log hc hw.log⟩

/-- The begin record of a running call is in the log. -/
def Begun (m : CheckpointManager) (checkpointId beginLsn : Nat) (mode : CheckpointMode) : Prop :=
  ∃ record ∈ m.log.records, record.lsn = beginLsn ∧ validateCheckpointRecord record = .ok () ∧
    match mode with
    | .sharp => ∃ beginning, record.payload = .checkpointBegin beginning ∧
        beginning.checkpointId = checkpointId
    | .fuzzy => ∃ beginning, record.payload = .fuzzyCheckpointBegin beginning ∧
        beginning.checkpointId = checkpointId

theorem Begun.grow {mode : CheckpointMode} (h : Begun m cid bl mode)
    (hg : LogGrows m.log m'.log) : Begun m' cid bl mode := by
  obtain ⟨r, hm, hr⟩ := h
  obtain ⟨added, hex⟩ := hg.extends
  exact ⟨r, hex.subset hm, hr⟩

/-- The numbers of a call fit their fields. -/
structure CallReady (m : CheckpointManager) (checkpointId : Nat) : Prop where
  generation : m.lastGeneration + 1 < 2 ^ 64
  id : checkpointId ≠ 0 ∧ checkpointId < 2 ^ 64

theorem CallReady.grow (h : CallReady m cid) (hg : m'.lastGeneration = m.lastGeneration) :
    CallReady m' cid :=
  ⟨hg ▸ h.generation, h.id⟩

structure Planned (m : CheckpointManager) (plan : CheckpointPlan) : Prop where
  fits : SlotInRange plan.slot
  generation : plan.slot.generation = m.lastGeneration + 1
  recorded : ∃ endRecord beginRecord, Recorded plan.slot m.log plan.floor endRecord beginRecord

theorem Planned.grow (h : Planned m plan) (hr : LogGrows m.log m'.log)
    (hg : m'.lastGeneration = m.lastGeneration) : Planned m' plan := by
  obtain ⟨er, beginRecord, hc⟩ := h.recorded
  exact ⟨h.fits, hg ▸ h.generation, er, beginRecord, hc.grow hr⟩

/-- The slot of `plan` is the last that a call began to write. -/
def WritesLast (published : Publications) (plan : CheckpointPlan) : Prop :=
  ∃ earlier, published = earlier ++ [(plan.slot, false)]

/-- While a slot is written, the file with its old bytes in place still holds
everything that selection needs. -/
structure WritingInv (m : CheckpointManager) (published : Publications) (plan : CheckpointPlan)
    (target : SlotIndex) (old block : ControlBlock) (count : Nat) (blocks : ControlBlocks) :
    Prop where
  control : m.control = .sized blocks
  header : IsControlHeader blocks.header
  encoded : encodeCheckpointSlot plan.slot = .ok block
  written : blocks.slot target = splice old block count
  aimed : (blocks.setSlot target old).publishTarget = target
  ahead : NoneAheadIn (blocks.setSlot target old) m.lastGeneration
  last : WritesLast published plan
  before : SomeReturned published → ∃ slot, Chosen published slot ∧
    Anchored { m with control := .sized (blocks.setSlot target old) } slot 0

theorem WritingInv.complete (h : WritingInv m pub plan tgt old block cnt bks)
    (hp : Planned m plan) (hd : m.log.IsDurable plan.slot.checkpointEndLsn)
    (hl : bks.slot tgt = block) : Anchored m plan.slot plan.floor := by
  refine ⟨⟨bks, tgt, h.control, h.header, ?_, ?_⟩, hp.recorded, hd⟩
  · unfold decoded
    rw [hl, decode_encode hp.fits h.encoded]
    rfl
  · intro other ho
    have hb := h.ahead tgt.other other ((decoded_setSlot_other bks tgt old).trans ho)
    rw [hp.generation]
    omega

theorem WritingInv.kept (h : WritingInv m pub plan tgt old block cnt bks)
    (hp : Planned m plan) (hd : m.log.IsDurable plan.slot.checkpointEndLsn)
    (ht : bks.slot tgt = old ∨ bks.slot tgt = block ∨ bks.decoded tgt = none) :
    SomeReturned pub → ∃ slot, Chosen pub slot ∧ Anchored m slot 0 := by
  intro hr
  obtain ⟨slot, hc, ha⟩ := h.before hr
  rcases ht with hold | hbc | hn
  · refine ⟨slot, hc, ?_, ha.recorded, ha.durable⟩
    rw [← hold, setSlot_slot] at ha
    rw [h.control]
    exact ha.best
  · obtain ⟨ear, hl⟩ := h.last
    exact ⟨plan.slot, hl ▸ chosen_last ear plan.slot false, (h.complete hp hd hbc).lower⟩
  · refine ⟨slot, hc, ?_, ha.recorded, ha.durable⟩
    obtain ⟨bks', ix, hb', _, hs⟩ := ha.best
    simp only [sized.injEq] at hb'
    subst hb'
    -- the best slot is the one that is not being written
    have hi := hs.publishTarget.symm.trans h.aimed
    have hi' : ix = tgt.other := by rw [← hi, other_other]
    refine ⟨bks, ix, h.control, h.header, ?_, ?_⟩
    · rw [hi', ← decoded_setSlot_other bks tgt old, ← hi']
      exact hs.readable
    · intro other ho
      rw [hi, hn] at ho
      simp at ho

theorem ManagerInv.withLog (h : ManagerInv m pub) (hg : LogGrows m.log log) :
    ManagerInv (m.withLog log) pub :=
  h.grow (.of_counts hg rfl rfl) rfl h.generation h.ids

section
variable (h : ManagerInv m pub)
include h

theorem relogged (hr : CallReady m cid) (hs : m' = m.withLog m'.log)
    (hg : LogGrows m.log m'.log) : ManagerInv m' pub ∧ CallReady m' cid := by
  have hi := h.withLog hg
  rw [← hs] at hi
  exact ⟨hi, hr.grow (by rw [hs]; rfl)⟩

end

theorem reclaim_reclaimed (m : CheckpointManager) (flo : Nat) (rcl : Reclamation) :
    LogReclaimed m.log (m.reclaim flo rcl).log flo ∧
      m.reclaim flo rcl = m.withLog (m.reclaim flo rcl).log := by
  cases rcl with
  | failed => exact ⟨.refl _ _, rfl⟩
  | rotated => exact ⟨rotateSegment_reclaimed _ _, rfl⟩
  | completed =>
    exact ⟨(rotateSegment_reclaimed _ _).trans (reclaimSegmentsBefore_reclaimed _ _ _), rfl⟩

theorem mem_candidates (h : slot ∈ bks.candidates) : ∃ ix, bks.decoded ix = some slot := by
  unfold candidates at h
  cases hf : bks.decoded .first with
  | none =>
    cases hs : bks.decoded .second with
    | none => simp [hf, hs] at h
    | some b =>
      simp only [hf, hs, mem_singleton] at h
      exact ⟨.second, h ▸ hs⟩
  | some a =>
    cases hs : bks.decoded .second with
    | none =>
      simp only [hf, hs, mem_singleton] at h
      exact ⟨.first, h ▸ hf⟩
    | some b =>
      simp only [hf, hs] at h
      have hm : slot = a ∨ slot = b := by
        split at h
        · simpa [or_comm] using h
        · simpa using h
      rcases hm with rfl | rfl
      · exact ⟨.first, hf⟩
      · exact ⟨.second, hs⟩

/-- The manager of a new process over the old file. -/
theorem ManagerInv.construct {engine : Engine} {slot : Option CheckpointSlot} {highest : Nat}
    (h : ManagerInv m pub) (hw : Works m.engine engine) (hh : highest < 2 ^ 64)
    (hg : ∀ fd ∈ slot, fd.generation < 2 ^ 64)
    (hc : CheckpointManager.construct engine m.control slot highest = .ok m') :
    ManagerInv m' pub := by
  simp only [CheckpointManager.construct, ok_iff] at hc
  obtain ⟨_, hne, rfl⟩ := hc
  have hn : highest + 1 < 2 ^ 64 := by omega
  refine h.grow hw rfl ?_ hn
  cases slot with
  | none => exact Nat.two_pow_pos 64
  | some fd => exact hg fd rfl

theorem LogOpens.step {s s' : CheckpointSystem} (h : LogOpens s) (hw : CreatesWhole s s') :
    LogOpens s' := by
  intro written hs
  rcases hw written hs with he | hle
  · exact h written (he.trans hs)
  · exact hle

/-- A new database with its checkpoint manager; there is no control file yet. -/
def CheckpointSystem.create : CheckpointSystem :=
  ⟨⟨Engine.create 4 .fullPage, .absent, 1, 0, none⟩, .idle, [], .none⟩

end MiniDb
