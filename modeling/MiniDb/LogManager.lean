import MiniDb.RecordValidation
import Mathlib.Logic.Relation

/-!
The log: the retained records in order, the next LSN, and how far the log is
known to be durable. An LSN is the byte position of its record, so that the
records of a log lie back to back. Every append is checked against the codec.
-/
namespace MiniDb
open ByteBlock Outcome List

variable {rs : List LogRecord} {r : LogRecord} {finish lsn start tgt : Nat}

structure LogManager where
  records : List LogRecord
  nextLsn : Nat
  lastAppendedLsn : Option Nat
  durableLsn : Option Nat
  segmentStarts : List Nat
  payloadCapacity : Nat

variable {log log' : LogManager}

namespace LogManager

def containsLsn (log : LogManager) (lsn : Nat) : Bool := log.records.any (·.lsn = lsn)

/-- The segment starts after a record of `size` bytes went to the log at `lsn`. -/
def segmentsAfter (log : LogManager) (size : Nat) : List Nat :=
  let used := log.nextLsn - log.segmentStarts.getLastD walHeaderSize
  if log.payloadCapacity - used < size then log.segmentStarts ++ [log.nextLsn]
  else log.segmentStarts

def append (log : LogManager) (transactionId : Nat) (prevLsn : Option Nat)
    (payload : LogPayload) : Result (LogManager × Nat) := do
  encodeLogPayload payload
  let lsn := log.nextLsn
  let size := recordHeaderSize + payload.size
  require (IsReference lsn) (invalidArgument "Cannot encode invalid WAL record LSN")
  require (payload.size ≤ maxPayloadSize) (invalidArgument "WAL record exceeds maximum size")
  require (∀ prev ∈ prevLsn, prev < lsn)
    (invalidArgument "WAL prevLSN must precede its record")
  require (lsn ≤ invalidLsn - size ∧ lsn + size ≠ invalidLsn)
    (invalidArgument "WAL LSN space is exhausted")
  require (size ≤ log.payloadCapacity)
    (invalidArgument "Invalid segmented WAL append boundary")
  let record : LogRecord := ⟨transactionId, prevLsn, payload, lsn⟩
  return ({ log with
    records := log.records ++ [record]
    nextLsn := record.endLsn
    lastAppendedLsn := some lsn
    segmentStarts := log.segmentsAfter size }, lsn)

def IsDurable (log : LogManager) (target : Nat) : Prop := ∃ lsn ∈ log.durableLsn, target ≤ lsn

instance (log : LogManager) (target : Nat) : Decidable (log.IsDurable target) := by
  unfold IsDurable; infer_instance

def flushUpTo (log : LogManager) (target : Nat) : Result LogManager := do
  require (log.containsLsn target) (invalidArgument "flushUpTo target is not an appended LSN")
  if log.IsDurable target then return log
  return { log with durableLsn := log.lastAppendedLsn }

/-- Forces the log up to a record unless it is known to be durable. -/
def ensureDurable (log : LogManager) (lsn : Nat) : Result LogManager :=
  if log.IsDurable lsn then .ok log else log.flushUpTo lsn

def readRecordAt (log : LogManager) (lsn : Nat) : Result LogRecord :=
  match log.records.find? (·.lsn = lsn) with
  | some record => .ok record
  | none => .error (corruptRecord "Referenced logical WAL record is not retained")

end LogManager

open LogManager

/-- Records that lie back to back from `start` to `finish`. -/
def Contiguous : Nat → List LogRecord → Nat → Prop
  | start, [], finish => start = finish
  | start, record :: records, finish => record.lsn = start ∧ Contiguous record.endLsn records finish

theorem contiguous_append {left right : List LogRecord} :
    Contiguous start (left ++ right) finish ↔
      ∃ mid, Contiguous start left mid ∧ Contiguous mid right finish := by
  induction left generalizing start with
  | nil => simp [Contiguous]
  | cons r left ih =>
    simp only [cons_append, Contiguous, ih]
    constructor
    · rintro ⟨hl, mid, hf, hr⟩
      exact ⟨mid, ⟨hl, hf⟩, hr⟩
    · rintro ⟨mid, ⟨hl, hf⟩, hr⟩
      exact ⟨hl, mid, hf, hr⟩

theorem lsn_lt_endLsn (r : LogRecord) : r.lsn < r.endLsn := by
  simp only [LogRecord.endLsn, recordHeaderSize]
  omega

theorem contiguous_le (h : Contiguous start rs finish) : start ≤ finish := by
  induction rs generalizing start with
  | nil => exact h.le
  | cons r rs ih =>
    obtain ⟨hl, hr⟩ := h
    have hh := lsn_lt_endLsn r
    have ht := ih hr
    omega

theorem contiguous_bounds (h : Contiguous start rs finish) (hm : r ∈ rs) :
    start ≤ r.lsn ∧ r.endLsn ≤ finish := by
  induction rs generalizing start with
  | nil => simp at hm
  | cons head rs ih =>
    obtain ⟨hl, hr⟩ := h
    have hh := lsn_lt_endLsn head
    rcases mem_cons.mp hm with rfl | hm
    · exact ⟨hl.symm.le, contiguous_le hr⟩
    · have ht := ih hr hm
      omega

theorem contiguous_sorted (h : Contiguous start rs finish) :
    rs.Pairwise (fun a b => a.lsn < b.lsn) := by
  induction rs generalizing start with
  | nil => exact List.Pairwise.nil
  | cons head rs ih =>
    obtain ⟨_, hr⟩ := h
    refine pairwise_cons.mpr ⟨?_, ih hr⟩
    intro r hm
    have hh := lsn_lt_endLsn head
    have hb := (contiguous_bounds hr hm).1
    omega

/-- In a log whose LSNs ascend, an LSN names one record. -/
theorem eq_of_lsn_eq (h : rs.Pairwise (fun a b => a.lsn < b.lsn)) {a b : LogRecord} (ha : a ∈ rs)
    (hb : b ∈ rs) (hl : a.lsn = b.lsn) : a = b := by
  have hn : (rs.map LogRecord.lsn).Nodup := pairwise_map.mpr (h.imp Nat.ne_of_lt)
  exact inj_on_of_nodup_map hn ha hb hl

theorem find?_lsn (h : rs.Pairwise (fun a b => a.lsn < b.lsn)) (hm : r ∈ rs) :
    rs.find? (·.lsn = r.lsn) = some r := by
  cases hf : rs.find? (·.lsn = r.lsn) with
  | none => simpa using find?_eq_none.mp hf r hm
  | some fd =>
    have hl : fd.lsn = r.lsn := by simpa using find?_some hf
    rw [eq_of_lsn_eq h (mem_of_find?_eq_some hf) hm hl]

theorem readRecordAt_mem (h : log.readRecordAt lsn = .ok r) : r ∈ log.records ∧ r.lsn = lsn := by
  unfold readRecordAt at h
  split at h
  · rename_i fd hf
    simp only [Except.ok.injEq] at h
    subst h
    exact ⟨mem_of_find?_eq_some hf, by simpa using find?_some hf⟩
  · simp at h

theorem containsLsn_iff : log.containsLsn lsn = true ↔ ∃ r ∈ log.records, r.lsn = lsn := by
  simp [containsLsn]

theorem append_ok {tid : Nat} {pv : Option Nat} {pl : LogPayload}
    (h : log.append tid pv pl = .ok (log', lsn)) :
    lsn = log.nextLsn ∧ encodeLogPayload pl = .ok () ∧ IsReference log.nextLsn ∧
      (∀ prev ∈ pv, prev < log.nextLsn) ∧
      log'.records = log.records ++ [⟨tid, pv, pl, log.nextLsn⟩] ∧
      log'.nextLsn = (⟨tid, pv, pl, log.nextLsn⟩ : LogRecord).endLsn ∧
      log'.lastAppendedLsn = some log.nextLsn ∧ log'.durableLsn = log.durableLsn ∧
      log'.nextLsn < invalidLsn := by
  simp only [append, ok_iff] at h
  obtain ⟨_, he, _, hr, _, _, _, hp, _, hs, _, _, rfl, rfl⟩ := h
  refine ⟨rfl, he, hr, hp, rfl, rfl, rfl, rfl, ?_⟩
  have hl := hr.2
  simp only [walHeaderSize] at hl
  simp only [LogRecord.endLsn]
  omega

/-- `log'` is `log` with `added` appended to it; how much is durable is left open. -/
structure LogExtends (log log' : LogManager) (added : List LogRecord) : Prop where
  records : log'.records = log.records ++ added
  placed : Contiguous log.nextLsn added log'.nextLsn

theorem LogExtends.refl (log : LogManager) : LogExtends log log [] :=
  ⟨by simp, rfl⟩

theorem LogExtends.trans {a b c : LogManager} {left right : List LogRecord}
    (ha : LogExtends a b left) (hb : LogExtends b c right) : LogExtends a c (left ++ right) :=
  ⟨by rw [hb.records, ha.records, append_assoc],
    contiguous_append.mpr ⟨b.nextLsn, ha.placed, hb.placed⟩⟩

theorem LogExtends.subset {added : List LogRecord} (h : LogExtends log log' added)
    (hm : r ∈ log.records) : r ∈ log'.records := by
  rw [h.records]
  exact mem_append_left _ hm

theorem append_extends {tid : Nat} {pv : Option Nat} {pl : LogPayload}
    (h : log.append tid pv pl = .ok (log', lsn)) :
    LogExtends log log' [⟨tid, pv, pl, log.nextLsn⟩] := by
  obtain ⟨_, _, _, _, hr, hn, _⟩ := append_ok h
  exact ⟨hr, rfl, hn.symm⟩

/-- The records of a log lie back to back behind the file header. -/
def LogPlaced (log : LogManager) : Prop :=
  ∃ start, walHeaderSize ≤ start ∧ Contiguous start log.records log.nextLsn

theorem LogPlaced.extend {added : List LogRecord} (h : LogPlaced log)
    (he : LogExtends log log' added) : LogPlaced log' := by
  obtain ⟨start, hs, hp⟩ := h
  refine ⟨start, hs, ?_⟩
  rw [he.records]
  exact contiguous_append.mpr ⟨log.nextLsn, hp, he.placed⟩

theorem LogPlaced.sorted (h : LogPlaced log) : log.records.Pairwise (fun a b => a.lsn < b.lsn) := by
  obtain ⟨start, _, hp⟩ := h
  exact contiguous_sorted hp

theorem LogPlaced.lsn_lt (h : LogPlaced log) (hm : r ∈ log.records) :
    walHeaderSize ≤ r.lsn ∧ r.lsn < log.nextLsn := by
  obtain ⟨start, hs, hp⟩ := h
  have hb := contiguous_bounds hp hm
  have he := lsn_lt_endLsn r
  omega

theorem LogPlaced.readRecordAt (h : LogPlaced log) (hm : r ∈ log.records) :
    log.readRecordAt r.lsn = .ok r := by
  rw [LogManager.readRecordAt, find?_lsn h.sorted hm]

theorem flushUpTo_ok (h : log.flushUpTo tgt = .ok log') :
    log.containsLsn tgt = true ∧ (log.IsDurable tgt ∧ log' = log ∨
        ¬ log.IsDurable tgt ∧ log' = { log with durableLsn := log.lastAppendedLsn }) := by
  simp only [flushUpTo, ok_iff] at h
  obtain ⟨_, hc, h⟩ := h
  refine ⟨hc, ?_⟩
  split at h
  · rename_i hd
    simp only [pure_ok] at h
    exact .inl ⟨hd, h.symm⟩
  · rename_i hd
    simp only [pure_ok] at h
    exact .inr ⟨hd, h.symm⟩

theorem flushUpTo_fields (h : log.flushUpTo tgt = .ok log') :
    log'.records = log.records ∧ log'.nextLsn = log.nextLsn ∧
      log'.lastAppendedLsn = log.lastAppendedLsn := by
  obtain ⟨_, hc⟩ := flushUpTo_ok h
  rcases hc with ⟨_, rfl⟩ | ⟨_, rfl⟩
  · exact ⟨rfl, rfl, rfl⟩
  · exact ⟨rfl, rfl, rfl⟩

theorem flushUpTo_extends (h : log.flushUpTo tgt = .ok log') : LogExtends log log' [] := by
  obtain ⟨hr, hn, _⟩ := flushUpTo_fields h
  exact ⟨by simp [hr], hn.symm⟩

/-- One call that moves the log on. -/
inductive LogStep (log : LogManager) : LogManager → Prop
  | append {log' : LogManager} {transactionId lsn : Nat} {prevLsn : Option Nat}
      {payload : LogPayload} (h : log.append transactionId prevLsn payload = .ok (log', lsn)) :
      LogStep log log'
  | flush {log' : LogManager} {target : Nat} (h : log.flushUpTo target = .ok log') :
      LogStep log log'

abbrev LogGrows : LogManager → LogManager → Prop := Relation.ReflTransGen LogStep

theorem LogStep.extends (h : LogStep log log') : ∃ added, LogExtends log log' added := by
  cases h with
  | append h => exact ⟨_, append_extends h⟩
  | flush h => exact ⟨_, flushUpTo_extends h⟩

theorem LogGrows.extends (h : LogGrows log log') : ∃ added, LogExtends log log' added := by
  induction h with
  | refl => exact ⟨[], .refl log⟩
  | tail _ hstep ih =>
    obtain ⟨left, hl⟩ := ih
    obtain ⟨right, hr⟩ := hstep.extends
    exact ⟨left ++ right, hl.trans hr⟩

/-- A log as its manager keeps it: back to back, the last append known, and
nothing durable beyond it. -/
structure LogSound (log : LogManager) : Prop where
  placed : LogPlaced log
  last : ∀ record ∈ log.records, ∃ last ∈ log.lastAppendedLsn, record.lsn ≤ last
  durable : ∀ lsn ∈ log.durableLsn, ∃ last ∈ log.lastAppendedLsn, lsn ≤ last
  appended : ∀ last ∈ log.lastAppendedLsn, last < log.nextLsn

theorem LogStep.sound (h : LogSound log) (hs : LogStep log log') : LogSound log' := by
  cases hs with
  | append hs =>
    obtain ⟨_, _, _, _, hr, hn, hls, hd, _⟩ := append_ok hs
    refine ⟨h.placed.extend (append_extends hs), ?_, ?_, ?_⟩
    · intro r hm
      rw [hr] at hm
      refine ⟨log.nextLsn, hls, ?_⟩
      rcases mem_append.mp hm with hm | hm
      · exact Nat.le_of_lt (h.placed.lsn_lt hm).2
      · rw [mem_singleton.mp hm]
    · intro lsn hl
      rw [hd] at hl
      obtain ⟨last, hm, hle⟩ := h.durable lsn hl
      exact ⟨log.nextLsn, hls, hle.trans (h.appended last hm).le⟩
    · intro last hm
      rw [hls, Option.mem_some_iff] at hm
      subst hm
      rw [hn]
      exact lsn_lt_endLsn ⟨_, _, _, log.nextLsn⟩
  | flush hs =>
    obtain ⟨_, hc⟩ := flushUpTo_ok hs
    rcases hc with ⟨_, rfl⟩ | ⟨_, rfl⟩
    · exact h
    · exact ⟨h.placed, h.last, fun lsn hl => ⟨lsn, hl, le_rfl⟩, h.appended⟩

theorem LogGrows.sound (h : LogSound log) (hg : LogGrows log log') : LogSound log' := by
  induction hg with
  | refl => exact h
  | tail _ hstep ih => exact hstep.sound ih

theorem flushUpTo_isDurable (h : LogSound log) (hf : log.flushUpTo tgt = .ok log') :
    log'.IsDurable tgt := by
  obtain ⟨hc, hs⟩ := flushUpTo_ok hf
  rcases hs with ⟨hd, rfl⟩ | ⟨_, rfl⟩
  · exact hd
  · obtain ⟨r, hm, rfl⟩ := containsLsn_iff.mp hc
    exact h.last r hm

theorem ensureDurable_ok (h : LogSound log) (he : log.ensureDurable lsn = .ok log') :
    log'.IsDurable lsn ∧ (log' = log ∨ log.flushUpTo lsn = .ok log') := by
  unfold ensureDurable at he
  split at he
  · rename_i hd
    simp only [Except.ok.injEq] at he
    subst he
    exact ⟨hd, .inl rfl⟩
  · exact ⟨flushUpTo_isDurable h he, .inr he⟩

end MiniDb
