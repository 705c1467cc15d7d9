import MiniDb.LogManager
import Mathlib.Data.List.TakeWhile

/-!
Segments of the log and what is left of it. Segments before a recovery floor are
given back, one extra segment apart, and a crash cuts the log anywhere behind
its durable records. Both leave a log that still lies back to back, and keep
every record the floor or the force asks for.
-/
namespace MiniDb
open Outcome List

variable {log : LogManager} {flo : Nat}

namespace LogManager

def oldestRetainedLsn (log : LogManager) : Nat := log.segmentStarts.headD walHeaderSize

def rotateSegment (log : LogManager) : LogManager :=
  { log with segmentStarts := log.segmentStarts ++ [log.nextLsn] }

/-- The segments in front of `floor` that are given back, `extraSegments` of them kept. -/
def removableSegments (log : LogManager) (floor extraSegments : Nat) : Nat :=
  (log.segmentStarts.tail.takeWhile (· ≤ floor)).length - extraSegments

def reclaimSegmentsBefore (log : LogManager) (floor extraSegments : Nat) : LogManager :=
  if log.segmentStarts.length ≤ 1 ∨ floor < log.oldestRetainedLsn ∨ log.nextLsn < floor then log
  else
    match log.segmentStarts.drop (log.removableSegments floor extraSegments) with
    | [] => log
    | start :: starts =>
      if log.removableSegments floor extraSegments = 0 then log
      else { log with
        records := log.records.filter (start ≤ ·.lsn)
        segmentStarts := start :: starts }

/-- The log a process finds after a crash that left `kept` records. -/
def reopen (log : LogManager) (kept : Nat) : LogManager :=
  let records := log.records.take kept
  let next := ((log.records.drop kept).head?.map (·.lsn)).getD log.nextLsn
  { log with
    records := records
    nextLsn := next
    lastAppendedLsn := records.getLast?.map (·.lsn)
    durableLsn := records.getLast?.map (·.lsn)
    segmentStarts := log.segmentStarts.filter (· ≤ next) }

/-- A crash may lose the records behind the first `kept` ones. -/
def Loses (log : LogManager) (kept : Nat) : Prop :=
  ∀ record ∈ log.records.drop kept, ¬ log.IsDurable record.lsn

end LogManager

open LogManager

theorem filter_contiguous {start finish flo : Nat} {rs : List LogRecord}
    (h : Contiguous start rs finish) :
    ∃ start', start ≤ start' ∧ Contiguous start' (rs.filter (flo ≤ ·.lsn)) finish := by
  induction rs generalizing start with
  | nil => exact ⟨start, le_rfl, h⟩
  | cons r rs ih =>
    obtain ⟨hl, hr⟩ := h
    by_cases hk : flo ≤ r.lsn
    · have ha : rs.filter (flo ≤ ·.lsn) = rs := by
        refine filter_eq_self.mpr ?_
        intro later hlt
        have hb := contiguous_bounds hr hlt
        have he := lsn_lt_endLsn r
        simp only [decide_eq_true_eq]
        omega
      refine ⟨start, le_rfl, ?_⟩
      rw [filter_cons_of_pos (by simpa using hk), ha]
      exact ⟨hl, hr⟩
    · obtain ⟨start', hle, hf⟩ := ih hr
      have he := lsn_lt_endLsn r
      refine ⟨start', by omega, ?_⟩
      rw [filter_cons_of_neg (by simpa using hk)]
      exact hf

/-- No segment that is given back starts behind the floor. -/
theorem segmentStart_le_floor {es start : Nat} {starts : List Nat}
    (hl : log.oldestRetainedLsn ≤ flo)
    (hd : log.segmentStarts.drop (log.removableSegments flo es) = start :: starts) :
    start ≤ flo := by
  cases hg : log.segmentStarts with
  | nil => simp [hg] at hd
  | cons oldest later =>
    have hw : ∀ i, i < (later.takeWhile (· ≤ flo)).length → ∀ s, later[i]? = some s → s ≤ flo := by
      intro i hi s hs
      have ht : (later.takeWhile (· ≤ flo))[i]? = some s := by
        rw [← hs, ← getElem?_append_left hi, takeWhile_append_dropWhile]
      simpa using mem_takeWhile_imp (mem_of_getElem? ht)
    have hf : (oldest :: later)[log.removableSegments flo es]? = some start := by
      rw [← hg, ← head?_drop, hd]
      rfl
    cases hc : log.removableSegments flo es with
    | zero =>
      rw [hc] at hf
      simp only [getElem?_cons_zero, Option.some.injEq] at hf
      rw [← hf]
      simpa [oldestRetainedLsn, hg] using hl
    | succ i =>
      rw [hc] at hf
      refine hw i ?_ start (by simpa using hf)
      simp only [removableSegments, hg, tail_cons] at hc
      omega

/-- Reclaiming drops the records in front of one point, which is none behind the floor. -/
theorem reclaimSegmentsBefore_records (log : LogManager) (flo es : Nat) :
    ∃ start, start ≤ flo ∧ (log.reclaimSegmentsBefore flo es).records =
        log.records.filter (start ≤ ·.lsn) := by
  have ha : log.records = log.records.filter (0 ≤ ·.lsn) :=
    (filter_eq_self.mpr (by simp)).symm
  unfold reclaimSegmentsBefore
  split
  · exact ⟨0, Nat.zero_le _, ha⟩
  · rename_i hg
    split
    · exact ⟨0, Nat.zero_le _, ha⟩
    · rename_i start starts hd
      split
      · exact ⟨0, Nat.zero_le _, ha⟩
      · exact ⟨start, segmentStart_le_floor (by omega) hd, rfl⟩

/-- What reclaiming segments may do to a log. -/
structure LogReclaimed (log log' : LogManager) (floor : Nat) : Prop where
  kept : ∀ record ∈ log.records, floor ≤ record.lsn → record ∈ log'.records
  subset : ∀ record ∈ log'.records, record ∈ log.records
  placed : LogPlaced log → LogPlaced log'
  next : log'.nextLsn = log.nextLsn
  last : log'.lastAppendedLsn = log.lastAppendedLsn
  durable : log'.durableLsn = log.durableLsn

theorem LogReclaimed.refl (log : LogManager) (flo : Nat) : LogReclaimed log log flo :=
  ⟨fun _ hm _ => hm, fun _ hm => hm, fun h => h, rfl, rfl, rfl⟩

theorem rotateSegment_reclaimed (log : LogManager) (flo : Nat) :
    LogReclaimed log log.rotateSegment flo :=
  ⟨fun _ hm _ => hm, fun _ hm => hm, fun h => h, rfl, rfl, rfl⟩

theorem reclaimSegmentsBefore_reclaimed (log : LogManager) (flo es : Nat) :
    LogReclaimed log (log.reclaimSegmentsBefore flo es) flo := by
  unfold reclaimSegmentsBefore
  split
  · exact .refl log flo
  · rename_i hg
    have hl : log.oldestRetainedLsn ≤ flo := by omega
    split
    · exact .refl log flo
    · rename_i start starts hd
      split
      · exact .refl log flo
      · have hs := segmentStart_le_floor hl hd
        refine ⟨?_, ?_, ?_, rfl, rfl, rfl⟩
        · intro r hm hr
          exact mem_filter.mpr ⟨hm, by simpa using hs.trans hr⟩
        · intro r hm
          exact (mem_filter.mp hm).1
        · intro hp
          obtain ⟨fst, hf, hc⟩ := hp
          obtain ⟨fst', hle, hfl⟩ := @filter_contiguous _ _ start _ hc
          exact ⟨fst', hf.trans hle, hfl⟩

theorem LogReclaimed.trans {a b c : LogManager} (ha : LogReclaimed a b flo)
    (hb : LogReclaimed b c flo) : LogReclaimed a c flo :=
  ⟨fun r hm hf => hb.kept r (ha.kept r hm hf) hf, fun r hm => ha.subset r (hb.subset r hm),
    fun h => hb.placed (ha.placed h), hb.next.trans ha.next, hb.last.trans ha.last,
    hb.durable.trans ha.durable⟩

theorem LogReclaimed.sound {log' : LogManager} (h : LogReclaimed log log' flo) (hs : LogSound log) :
    LogSound log' := by
  refine ⟨h.placed hs.placed, ?_, ?_, ?_⟩
  · intro r hm
    rw [h.last]
    exact hs.last r (h.subset r hm)
  · rw [h.durable, h.last]
    exact hs.durable
  · rw [h.last, h.next]
    exact hs.appended

theorem reopen_contiguous {start : Nat} (kept : Nat)
    (h : Contiguous start log.records log.nextLsn) :
    Contiguous start (log.reopen kept).records (log.reopen kept).nextLsn := by
  have hs : Contiguous start (log.records.take kept ++ log.records.drop kept) log.nextLsn := by
    rw [take_append_drop]
    exact h
  obtain ⟨mid, hf, hr⟩ := contiguous_append.mp hs
  have hn : (log.reopen kept).nextLsn = mid := by
    cases hl : log.records.drop kept with
    | nil =>
      rw [hl] at hr
      simp only [reopen, hl, head?_nil, Option.map_none, Option.getD_none]
      exact Eq.symm hr
    | cons lost rest =>
      rw [hl] at hr
      simp only [reopen, hl, head?_cons, Option.map_some, Option.getD_some]
      exact hr.1
  rw [hn]
  exact hf

theorem reopen_durable {kept : Nat} (hl : log.Loses kept) {r : LogRecord}
    (hm : r ∈ log.records) (hd : log.IsDurable r.lsn) : r ∈ (log.reopen kept).records := by
  rw [← take_append_drop kept log.records] at hm
  rcases mem_append.mp hm with hm | hm
  · exact hm
  · exact absurd hd (hl r hm)

theorem reopen_sound (h : LogSound log) (kept : Nat) : LogSound (log.reopen kept) := by
  obtain ⟨start, ht, hp⟩ := h.placed
  have hc := reopen_contiguous kept hp
  have hs := contiguous_sorted hc
  refine ⟨⟨start, ht, hc⟩, ?_, fun lsn hl => ⟨lsn, hl, le_rfl⟩, ?_⟩
  · intro r hm
    have hne := ne_nil_of_mem hm
    refine ⟨((log.reopen kept).records.getLast hne).lsn, ?_, ?_⟩
    · show (log.reopen kept).records.getLast?.map (·.lsn) = _
      rw [getLast?_eq_some_getLast hne]
      rfl
    · rw [← dropLast_concat_getLast hne] at hm hs
      rcases mem_append.mp hm with hm | hm
      · exact ((pairwise_append.mp hs).2.2 r hm _ (by simp)).le
      · rw [mem_singleton.mp hm]
  · intro last hls
    simp only [reopen, Option.mem_def, Option.map_eq_some_iff] at hls
    obtain ⟨r, hr, rfl⟩ := hls
    have hb := contiguous_bounds hc (mem_of_getLast? hr)
    have he := lsn_lt_endLsn r
    omega

end MiniDb
