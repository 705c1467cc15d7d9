import MiniDb.LogDurability
import MiniDb.LogManager

/-!
The log on bytes and the log of records. Any encoder that gives payloads their size
carries the records over. What a run does to the log on bytes, appends and flushes do
to the log of records, with the same positions and the same durable end.
-/
namespace MiniDb.Wal
open Outcome Stateful Wal.LogManager
open List hiding get

structure PayloadEncoder where
  encode : LogPayload → LogRecordType × List UInt8
  size : ∀ payload, (encode payload).2.length = payload.size

def PayloadEncoder.record (encoder : PayloadEncoder) (r : MiniDb.LogRecord) : LogRecord :=
  ⟨(encoder.encode r.payload).1, .ofNat r.transactionId, .ofNat (r.prevLsn.getD invalidLsn),
    (encoder.encode r.payload).2, r.lsn⟩

/-- The log of records that a log on bytes stands for. -/
structure Refines (encoder : PayloadEncoder) (existing : List LogRecord) (capacity : Nat)
    (h : LogHistory) (log : MiniDb.LogManager) : Prop where
  records : existing ++ h.accepted = log.records.map encoder.record
  next : h.state.manager.nextLsn = log.nextLsn
  last : h.state.manager.lastAppendedLsn = log.lastAppendedLsn
  durable : h.state.manager.durableLsn = log.durableLsn
  contains : ∀ last ∈ log.lastAppendedLsn, log.containsLsn last = true
  capacity : log.payloadCapacity = capacity

/-- The record passes the checks of its encoder and has a place in a segment. -/
structure Admitted (capacity : Nat) (record : MiniDb.LogRecord) : Prop where
  payload : encodeLogPayload record.payload = .ok ()
  prevLsn : ∀ prev ∈ record.prevLsn, isValidLsn prev
  size : recordHeaderSize + record.payload.size ≤ capacity

variable {enc : PayloadEncoder} {h : LogHistory} {log : MiniDb.LogManager} {exi : List LogRecord}
  {s' : LogState} {start cap lsn : Nat} {cfg : LogConfig} {r : MiniDb.LogRecord}

/-- The durable end can move to the last append. -/
theorem grows_durable (hd : ∀ lsn ∈ log.durableLsn, ∃ last ∈ log.lastAppendedLsn, lsn ≤ last)
    (hc : ∀ last ∈ log.lastAppendedLsn, log.containsLsn last = true) :
    LogGrows log { log with durableLsn := log.lastAppendedLsn } := by
  rcases log with ⟨rs, next, _ | last, d, starts, cap⟩
  · obtain rfl : d = none :=
      Option.eq_none_iff_forall_not_mem.mpr fun lsn hm => by simpa using hd lsn hm
    exact .refl
  · by_cases hi : ∃ lsn ∈ d, last ≤ lsn
    · obtain ⟨lsn, hm, hge⟩ := hi
      obtain ⟨_, hl, hle⟩ := hd lsn hm
      obtain rfl := Option.some.inj hl
      obtain rfl := Nat.le_antisymm hle hge
      cases hm
      exact .refl
    · refine .single (@LogStep.flush _ _ last ?_)
      simp only [MiniDb.LogManager.flushUpTo, ok_iff]
      exact ⟨(), hc last rfl, if_neg hi⟩

theorem append_encodes {rec : LogRecord} {s : LogState} (h : append rec s = .ok lsn s') :
    ∃ bs, encodeWalRecord rec s.manager.nextLsn = .ok bs ∧
      isValidLsn (s.manager.nextLsn + bs.length) := by
  simp only [append, run_get_bind, run_bind_ok, run_fromExcept_ok] at h
  obtain ⟨_, _, ⟨_, rfl⟩, _, _, ⟨_, rfl⟩, bs, _, ⟨he, rfl⟩, _, _, ⟨hv, _⟩, _⟩ := h
  exact ⟨bs, he, require_ok.mp hv⟩

/-- What the log on bytes accepts, the log of records appends. -/
theorem Admitted.append (ha : Admitted log.payloadCapacity r) {bs : List UInt8}
    (he : encodeWalRecord (enc.record r) log.nextLsn = .ok bs)
    (hv : isValidLsn (log.nextLsn + bs.length)) :
    log.append r.transactionId r.prevLsn r.payload = .ok ({ log with
      records := log.records ++ [{ r with lsn := log.nextLsn }]
      nextLsn := log.nextLsn + bs.length
      lastAppendedLsn := some log.nextLsn
      segmentStarts := log.segmentsAfter bs.length }, log.nextLsn) := by
  obtain ⟨⟨⟨hl, hw⟩, hm, hp⟩, -⟩ := encodeWalRecord_ok.mp he
  have hz : bs.length = recordHeaderSize + r.payload.size :=
    (length_of_encode he).trans (congrArg _ (enc.size r.payload))
  have hlt : ∀ prev ∈ r.prevLsn, prev < log.nextLsn := by
    intro prev hs
    have hu : (UInt64.ofNat prev).toNat = prev :=
      UInt64.toNat_ofNat_of_lt' ((ha.prevLsn prev hs).trans (by decide))
    simp only [PayloadEncoder.record, Option.mem_def.mp hs, Option.getD_some, hu] at hp
    exact Nat.lt_of_not_le fun hle => hp ⟨ha.prevLsn prev hs, hle⟩
  have hx : log.nextLsn ≤ invalidLsn - bs.length ∧ log.nextLsn + bs.length ≠ invalidLsn := by
    unfold isValidLsn at hv
    omega
  rw [hz] at hx ⊢
  simp only [MiniDb.LogManager.append, ok_iff]
  exact ⟨(), ha.payload, (), ⟨hl.ne, hw⟩, (), enc.size r.payload ▸ hm, (), hlt, (), hx, (),
    ha.size, by rw [MiniDb.LogRecord.endLsn, Nat.add_assoc], trivial⟩

theorem Refines.same (hr : Refines enc exi cap h log) (hs : SameButBuffer h.state s') :
    Refines enc exi cap { h with state := s' } log :=
  { hr with
    next := hs.nextLsn.trans hr.next
    last := by rw [hs]; exact hr.last
    durable := by rw [hs]; exact hr.durable }

section
variable (hkept : h.Kept exi start cfg) (hr : Refines enc exi cap h log)
include hkept hr

theorem Refines.append (ha : Admitted cap r) :
    ∃ log', LogGrows log log' ∧ Refines enc exi cap (h.respond (.append (enc.record r))) log' := by
  obtain ⟨wr, stop, buf, hh, -⟩ := hkept.carried
  have hs := append_ensures hh (enc.record r)
  simp only [LogHistory.respond]
  cases hc : LogManager.append (enc.record r) h.state with
  | error e s' =>
    simp only [Ensures, hc] at hs
    exact ⟨log, .refl, hr.same hs.1⟩
  | ok lsn s' =>
    obtain ⟨rfl, hs⟩ := (ensures_of_ok hc).mp hs
    obtain ⟨bs, he, hv⟩ := append_encodes hc
    have hn := hs.next
    rw [← length_of_encode he] at hn
    rw [hr.next] at he hv hn
    refine ⟨_, .single (.append ((hr.capacity ▸ ha).append he hv)), ?_, hn, ?_, ?_, ?_, ?_⟩
    · rw [← append_assoc, hr.records, hr.next, map_append]
      rfl
    · rw [hs.last, hr.next]
    · exact hs.durable.trans hr.durable
    · intro last hm
      obtain rfl := Option.some.inj hm
      exact containsLsn_iff.mpr ⟨_, mem_append_right _ mem_cons_self, rfl⟩
    · exact hr.capacity

theorem Refines.flushUpTo (tgt : Nat) :
    ∃ log', LogGrows log log' ∧ Refines enc exi cap (h.respond (.flushUpTo tgt)) log' := by
  obtain ⟨wr, stop, buf, hh, -⟩ := hkept.carried
  have hs := flushUpTo_ensures hh tgt
  simp only [LogHistory.respond, finalState]
  cases hc : LogManager.flushUpTo tgt h.state with
  | error e s' =>
    simp only [Ensures, hc] at hs
    exact ⟨log, .refl, hr.same hs.2.1⟩
  | ok _ s' =>
    rcases (ensures_of_ok hc).mp hs with ⟨rfl, -⟩ | hf
    · exact ⟨log, .refl, hr⟩
    · have hle := hkept.listed.durable
      rw [hr.last, hr.durable] at hle
      refine ⟨_, grows_durable hle hr.contains, hr.records, ?_, ?_, ?_, hr.contains, hr.capacity⟩
      all_goals rw [hf.same]
      · exact hr.next
      · exact hr.last
      · exact hr.last

/-- In a run whose appends hand over records that the encoders and the segments admit, the
log on bytes stands for a log of records throughout. -/
theorem Refines.run {requests : List LogRequest}
    (hq : ∀ rec, .append rec ∈ requests → ∃ r, Admitted cap r ∧ enc.record r = rec) :
    ∃ log', LogGrows log log' ∧ Refines enc exi cap (h.run requests) log' := by
  induction requests generalizing h log with
  | nil => exact ⟨log, .refl, hr⟩
  | cons rq rqs ih =>
    have hstep : ∃ log', LogGrows log log' ∧ Refines enc exi cap (h.respond rq) log' := by
      cases rq with
      | append rec =>
        obtain ⟨r, ha, rfl⟩ := hq rec mem_cons_self
        exact hr.append hkept ha
      | flushUpTo tgt => exact hr.flushUpTo hkept tgt
      | flushAll =>
        rcases h.respond_flushAll with he | ⟨last, he⟩ <;> rw [he]
        · exact ⟨log, .refl, hr⟩
        · exact hr.flushUpTo hkept last
    obtain ⟨log₁, hg₁, hr₁⟩ := hstep
    obtain ⟨log₂, hg₂, hr₂⟩ :=
      ih (hkept.respond rq) hr₁ fun rec hm => hq rec (mem_cons_of_mem _ hm)
    exact ⟨log₂, hg₁.trans hg₂, hr₂⟩

end

/-- A log that was opened stands for the records found in it. -/
theorem Opened.refines {mgr : LogManager} {w : World} {rs : List MiniDb.LogRecord}
    (h : Opened cfg mgr w start (rs.map enc.record)) (starts : List Nat) (cap : Nat) :
    Refines enc (rs.map enc.record) cap ⟨⟨mgr, w⟩, []⟩
      ⟨rs, mgr.nextLsn, mgr.lastAppendedLsn, mgr.durableLsn, starts, cap⟩ := by
  refine ⟨append_nil _, rfl, rfl, rfl, fun last hm => ?_, rfl⟩
  obtain ⟨_, _, hf, rfl⟩ := h.listed last hm
  obtain ⟨r, hr, rfl⟩ := mem_map.mp hf
  exact containsLsn_iff.mpr ⟨r, hr, rfl⟩

end MiniDb.Wal
