import MiniDb.CheckpointManager
import MiniDb.Operations

/-!
Checkpoints in the log. A slot is recorded if the log holds the two records its
checkpoint wrote, and then it agrees with that log. Appends, the reclamation of
segments below the floor and a crash behind a force keep it recorded.
-/
namespace MiniDb
open ByteBlock Outcome Engine

variable {e e' : Engine} {log : LogManager}

/-- The end and begin records of the checkpoint that a slot names. -/
inductive CheckpointRecords (slot : CheckpointSlot) (endRecord beginRecord : LogRecord) : Prop
  | sharp {ending : CheckpointEndLogPayload} {beginning : CheckpointBeginLogPayload}
      (hend : endRecord.payload = .checkpointEnd ending)
      (hbegin : beginRecord.payload = .checkpointBegin beginning)
      (hids : ending.checkpointId = slot.checkpointId ∧
        beginning.checkpointId = slot.checkpointId)
      (hlsn : ending.checkpointBeginLsn = beginRecord.lsn)
      (hcounts : ending.databasePageCount = slot.databasePageCount ∧
        ending.nextTransactionId = slot.nextTransactionId)
      (hstart : ending.recoveryStartOffset = slot.recoveryStartOffset ∧
        endRecord.endLsn = slot.recoveryStartOffset ∧
        slot.walFileSizeAtCheckpoint = slot.recoveryStartOffset)
  | fuzzy {ending : FuzzyCheckpointEndLogPayload} {beginning : FuzzyCheckpointBeginLogPayload}
      (hend : endRecord.payload = .fuzzyCheckpointEnd ending)
      (hbegin : beginRecord.payload = .fuzzyCheckpointBegin beginning)
      (hids : ending.checkpointId = slot.checkpointId ∧
        beginning.checkpointId = slot.checkpointId)
      (hlsn : ending.checkpointBeginLsn = beginRecord.lsn)
      (hcounts : ending.databasePageCount = slot.databasePageCount ∧
        ending.nextTransactionId = slot.nextTransactionId)
      (hstart : ending.checkpointBeginLsn = slot.recoveryStartOffset ∧
        endRecord.endLsn = slot.walFileSizeAtCheckpoint)

/-- The checkpoint of a slot is in the log, from `floor` on. -/
structure Recorded (slot : CheckpointSlot) (log : LogManager) (floor : Nat)
    (endRecord beginRecord : LogRecord) : Prop where
  ended : endRecord ∈ log.records
  begun : beginRecord ∈ log.records
  order : floor ≤ beginRecord.lsn ∧ beginRecord.lsn ≤ endRecord.lsn
  lsn : endRecord.lsn = slot.checkpointEndLsn
  valid : validateCheckpointRecord endRecord = .ok () ∧
    validateCheckpointRecord beginRecord = .ok ()
  records : CheckpointRecords slot endRecord beginRecord

theorem Recorded.of_subset {slot : CheckpointSlot} {log' : LogManager} {flo : Nat}
    {er beginRecord : LogRecord} (h : Recorded slot log flo er beginRecord)
    (hs : ∀ r ∈ log.records, flo ≤ r.lsn → r ∈ log'.records) :
    Recorded slot log' flo er beginRecord :=
  ⟨hs er h.ended (h.order.1.trans h.order.2),
    hs beginRecord h.begun h.order.1, h.order, h.lsn, h.valid, h.records⟩

theorem Recorded.agreesWithLog {slot : CheckpointSlot} {flo : Nat} {er beginRecord : LogRecord}
    (h : Recorded slot log flo er beginRecord) (hpl : LogPlaced log) :
    agreesWithLog log slot = true := by
  have he := hpl.readRecordAt h.ended
  have hb := hpl.readRecordAt h.begun
  obtain ⟨start, _, hc⟩ := hpl
  have hbn := (contiguous_bounds hc h.ended).2
  have hgp := lsn_lt_endLsn er
  have ho := h.order.2
  rw [h.lsn] at he
  unfold MiniDb.agreesWithLog
  rw [satisfies_iff]
  refine ⟨true, ?_, rfl⟩
  cases h.records with
  | sharp hp hp' hi hl hn hs =>
    have hg : ¬ (slot.walFileSizeAtCheckpoint < slot.recoveryStartOffset ∨
        log.nextLsn < slot.recoveryStartOffset) := by omega
    rw [← hl] at hb
    simp only [crossValidate, if_neg hg, he, ok_bind, hp, crossValidateSharp, h.valid.1]
    rw [if_neg (by
      simp only [not_or, ne_eq, not_not]
      exact ⟨hi.1, hs.1, hn.1, hn.2, hs.2.1⟩)]
    simp only [hb, ok_bind, hp', h.valid.2, hi.2, decide_true]
    rfl
  | fuzzy hp hp' hi hl hn hs =>
    have hg : ¬ (slot.walFileSizeAtCheckpoint < slot.recoveryStartOffset ∨
        log.nextLsn < slot.recoveryStartOffset) := by omega
    rw [← hl] at hb
    simp only [crossValidate, if_neg hg, he, ok_bind, hp, crossValidateFuzzy, h.valid.1]
    rw [if_neg (by
      simp only [not_or, ne_eq, not_not]
      exact ⟨hi.1, hs.1, hn.1, hn.2, hs.2⟩)]
    simp only [hb, ok_bind, hp', h.valid.2, hi.2, decide_true]
    rfl

/-- Page and transaction counts that a checkpoint record can carry. -/
structure EngineInRange (e : Engine) : Prop where
  pages : 0 < e.disk.pageCount ∧ e.disk.pageCount ≤ invalidPageId
  ids : 0 < e.nextTransactionId ∧ e.nextTransactionId < 2 ^ 64

/-- What other work may do to the engine, as far as checkpoints can tell. -/
structure Works (e e' : Engine) : Prop where
  log : LogGrows e.log e'.log
  range : EngineInRange e → EngineInRange e'

theorem Works.refl (e : Engine) : Works e e := ⟨.refl, fun h => h⟩

theorem Works.trans {a b c : Engine} (ha : Works a b) (hb : Works b c) : Works a c :=
  ⟨ha.log.trans hb.log, fun h => hb.range (ha.range h)⟩

theorem Works.of_counts (hl : LogGrows e.log e'.log) (hp : e'.disk.pageCount = e.disk.pageCount)
    (hi : e'.nextTransactionId = e.nextTransactionId) : Works e e' := by
  refine ⟨hl, ?_⟩
  intro h
  exact ⟨hp ▸ h.pages, hi ▸ h.ids⟩

theorem LogGrows.isDurable {log' : LogManager} {lsn : Nat} (hs : LogSound log)
    (h : LogGrows log log')
    (hd : log.IsDurable lsn) : log'.IsDurable lsn := by
  induction h with
  | refl => exact hd
  | tail hsteps ht ih =>
    have hmd := LogGrows.sound hs hsteps
    cases ht with
    | append ha =>
      obtain ⟨_, _, _, _, _, _, _, hsm, _⟩ := append_ok ha
      obtain ⟨durable, hm, hle⟩ := ih
      exact ⟨durable, by rw [hsm]; exact hm, hle⟩
    | flush hfl =>
      obtain ⟨_, hc⟩ := flushUpTo_ok hfl
      rcases hc with ⟨_, rfl⟩ | ⟨_, rfl⟩
      · exact ih
      · obtain ⟨durable, hm, hle⟩ := ih
        obtain ⟨last, hl, hb⟩ := hmd.durable durable hm
        exact ⟨last, hl, hle.trans hb⟩

end MiniDb
