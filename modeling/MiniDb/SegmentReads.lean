import MiniDb.SegmentLayout

/-!
Reading a segmented log back. The bodies of the segments, one after the other, are
the records of the log at their positions; a scan returns the records from its start
on, and a read at a position returns what stands there in the segment that covers it.
-/
namespace MiniDb.Wal
open ByteString Outcome CrashFiles Stateful SegmentedWalStorage List
variable {r : LogRecord}

/-! Records inside a string of records. -/

/-- The string starts with an encoding of the record. -/
def RecordAt (rest : List UInt8) (lsn : Nat) (record : LogRecord) : Prop :=
  ∃ encoded tail, rest = encoded ++ tail ∧ encodeWalRecord record lsn = .ok encoded ∧
    record.lsn = lsn

namespace Encodes
variable {lsn : Nat} {rs : List LogRecord} {bs : List UInt8}

/-- Every record stands at its position, whole. -/
theorem recordAt (h : Encodes lsn rs bs) (hm : r ∈ rs) :
    ∃ bef enc aft, bs = bef ++ (enc ++ aft) ∧
      r.lsn = lsn + bef.length ∧ encodeWalRecord r r.lsn = .ok enc := by
  induction h with
  | nil => simp at hm
  | cons henc hl hrest ih =>
    rename_i fst enc rs bs
    rcases mem_cons.mp hm with rfl | hm
    · exact ⟨[], enc, bs, rfl, by simpa using hl, hl ▸ henc⟩
    · obtain ⟨bef, inner, aft, rfl, hp, hi⟩ := ih hm
      refine ⟨enc ++ bef, inner, aft, by rw [append_assoc], ?_, hi⟩
      rw [hp, length_append, add_assoc]

theorem lsn_le (h : Encodes lsn rs bs) (hm : r ∈ rs) : lsn ≤ r.lsn ∧ r.lsn < lsn + bs.length := by
  obtain ⟨bef, enc, aft, rfl, hp, he⟩ := h.recordAt hm
  have := encode_pos he
  simp only [recordHeaderSize] at this
  rw [hp, length_append, length_append]
  omega

theorem head_lsn (h : Encodes lsn rs bs) : bs = [] ∨ ∃ r ∈ rs, r.lsn = lsn := by
  cases h with
  | nil => exact .inl rfl
  | cons _ hl _ => exact .inr ⟨_, mem_cons_self, hl⟩

end Encodes

/-- The bytes of a layout, oldest first. -/
def layoutBytes (layout : List Stretch) : List UInt8 := layout.flatMap Stretch.body

variable {lay : List Stretch} {fst : Stretch}

theorem encodes_layout (hc : (fst :: lay).IsChain fun a b => b.start = a.stop)
    (he : ∀ str ∈ fst :: lay, Encodes str.start str.records str.body ∧
      str.stop = str.start + str.body.length) :
    Encodes fst.start (layoutRecords (fst :: lay)) (layoutBytes (fst :: lay)) := by
  induction lay generalizing fst with
  | nil => simpa [layoutRecords, layoutBytes] using (he fst (by simp)).1
  | cons next lay ih =>
    obtain ⟨hf, hr⟩ := isChain_cons_cons.mp hc
    obtain ⟨hs, ht⟩ := he fst (by simp)
    refine hs.append ?_
    rw [← ht, ← hf]
    exact ih hr fun str hm => he str (mem_cons_of_mem _ hm)

variable {last : Stretch}

theorem stop_layout (hc : (fst :: lay).IsChain fun a b => b.start = a.stop)
    (hs : ∀ str ∈ fst :: lay, str.stop = str.start + str.body.length)
    (hl : (fst :: lay).getLast? = some last) :
    last.stop = fst.start + (layoutBytes (fst :: lay)).length := by
  induction lay generalizing fst with
  | nil =>
    simp only [getLast?_singleton, Option.some.injEq] at hl
    subst hl
    simpa [layoutBytes] using hs fst (by simp)
  | cons next lay ih =>
    obtain ⟨hf, hr⟩ := isChain_cons_cons.mp hc
    rw [getLast?_cons_cons] at hl
    rw [ih hr (fun str hm => hs str (mem_cons_of_mem _ hm)) hl, hf,
      hs fst (by simp), add_assoc, ← length_append]
    rfl

variable {man : WalSegmentManifest}

theorem Shelved.encodes {dir : Directory} {pre : List Stretch}
    (h : Shelved man dir pre last) (hl : pre ++ [last] = fst :: lay) :
    Encodes fst.start (layoutRecords (pre ++ [last])) (layoutBytes (pre ++ [last])) := by
  have hc := h.contiguous
  rw [hl] at hc ⊢
  refine encodes_layout hc fun str hm => ?_
  have hs := h.sound str (hl ▸ hm)
  exact ⟨hs.encodes, hs.stop⟩

/-- The log ends where its bytes do. -/
theorem Shelved.stop_eq {dir : Directory} {pre : List Stretch}
    (h : Shelved man dir pre last) (hl : pre ++ [last] = fst :: lay) :
    last.stop = fst.start + (layoutBytes (pre ++ [last])).length := by
  have hc := h.contiguous
  have hs : (pre ++ [last]).getLast? = some last := getLast?_concat
  rw [hl] at hc hs ⊢
  exact stop_layout hc (fun str hm => (h.sound str (hl ▸ hm)).stop) hs

variable {str : Stretch}

theorem Shelved.start_le_stop {dir : Directory} {pre : List Stretch}
    (h : Shelved man dir pre last) (hm : str ∈ pre ++ [last]) : str.start ≤ str.stop := by
  rw [(h.sound str hm).stop]
  exact Nat.le_add_right _ _

/-! Scanning. -/

/-- What the scan of a segment returns, with `tail` behind its last record. -/
def Stretch.scanTorn (stretch : Stretch) (tail : List UInt8) : SegmentScan :=
  ⟨stretch.records, stretch.stop, stretch.stop + tail.length, !tail.isEmpty,
    segmentHeaderSize + (stretch.body.length + tail.length)⟩

def Stretch.scan (stretch : Stretch) : SegmentScan := stretch.scanTorn []

/-- Bytes behind the last record of a segment that a scan passes over. -/
structure TornBehind (stretch : Stretch) (capacity : Nat) (tail : List UInt8) : Prop where
  torn : tail = [] ∨ SegmentTornTail tail stretch.stop
  fits : stretch.body.length + tail.length ≤ capacity
  space : stretch.stop + tail.length < 2 ^ 64

namespace Stretch.Sound
variable {str : Stretch} {dir : Directory} {cap : Nat}

theorem untorn (h : str.Sound dir cap) : TornBehind str cap [] := by
  have hv := h.space
  exact ⟨.inl rfl, h.fits, by simpa using hv.trans (by decide)⟩

theorem scanOneSegment_eq (h : str.Sound dir cap) {tail : List UInt8} (ht : TornBehind str cap tail)
    {allowTruncatedTail : Bool} (ha : tail = [] ∨ allowTruncatedTail = true) :
    scanOneSegment str.info.header (str.file.bytes ++ tail) allowTruncatedTail =
      .ok (str.scanTorn tail) := by
  have hs := h.stop
  have he : str.info.header.startLsn + (str.body ++ tail).length = str.stop + tail.length := by
    rw [length_append, hs, add_assoc]
    rfl
  rw [Stretch.file, append_assoc]
  refine (scanOneSegment_ok (encodeWalSegmentHeader_ok.mpr ⟨h.wellFormed, rfl⟩) h.inRange ?_ ?_).mpr
    ⟨⟨str.records, !tail.isEmpty, str.stop⟩, ⟨str.body, tail, rfl, h.encodes, hs, ?_⟩, ?_, ?_⟩
  · rw [h.payloadCapacity, length_append]
    exact ht.fits
  · rw [he]
    exact ht.space
  · rcases ht.torn with rfl | ho
    · rfl
    · have hne := (segmentTornTail_stops ho).1
      rw [show (!tail.isEmpty) = true by simpa using hne, if_pos rfl]
      exact hs ▸ ho
  · intro hr
    rcases ha with rfl | ha
    · exact absurd hr (by simp)
    · exact ha
  · rw [he, length_append]
    rfl

theorem openSegment_eq (h : str.Sound dir cap) {stg : SegmentedWalStorage}
    {vol : Volume} (hdir : vol.directory? stg.place = some dir) (msg : String) :
    stg.openSegment vol str.id msg = .ok str.file.bytes := by
  rw [SegmentedWalStorage.openSegment, Volume.segment?, hdir, Option.bind_some, h.entry]
  rfl

end Stretch.Sound

theorem foldl_addScan (pre : List Stretch) (last : Stretch) (tail : List UInt8) (sl : Nat)
    (rs : List LogRecord) :
    (pre.map Stretch.scan ++ [last.scanTorn tail]).foldl (addScan sl)
      ⟨rs, false, last.stop, last.stop, sl⟩ =
      ⟨rs ++ (layoutRecords (pre ++ [last])).filter fun r => sl ≤ r.lsn,
        !tail.isEmpty, last.stop, last.stop + tail.length, sl⟩ := by
  induction pre generalizing rs with
  | nil => cases tail <;> simp [addScan, Stretch.scanTorn, layoutRecords]
  | cons str pre ih =>
    have hs : addScan sl ⟨rs, false, last.stop, last.stop, sl⟩
        str.scan = ⟨rs ++ str.records.filter fun r => sl ≤ r.lsn,
          false, last.stop, last.stop, sl⟩ := by
      simp [addScan, Stretch.scan, Stretch.scanTorn]
    rw [map_cons, cons_append, foldl_cons, hs, ih]
    simp [layoutRecords]

theorem exists_first (pre : List Stretch) (last : Stretch) :
    ∃ fst lay, pre ++ [last] = fst :: lay := by
  cases pre with
  | nil => exact ⟨last, [], rfl⟩
  | cons fst pre => exact ⟨fst, pre ++ [last], rfl⟩

/-- The segments of a storage are scanned as those of a layout, with `tail` behind the
last record. -/
structure Scans (storage : SegmentedWalStorage) (volume : Volume) (front : List Stretch)
    (last : Stretch) (tail : List UInt8) : Prop where
  head : storage.segments.head?.map (·.header.startLsn) =
    (front ++ [last]).head?.map Stretch.start
  logicalEnd : storage.logicalEnd = last.stop
  scans : storage.scanSegments volume storage.segments =
    .ok (front.map Stretch.scan ++ [last.scanTorn tail])

namespace Scans
variable {stg : SegmentedWalStorage} {vol : Volume} {man : WalSegmentManifest}
  {dir : Directory} {pre : List Stretch} {last fst : Stretch} {lay : List Stretch}
  {tail : List UInt8}

theorem oldest (h : Scans stg vol pre last tail) (hl : pre ++ [last] = fst :: lay) :
    ∃ oldest, stg.segments.head? = some oldest ∧ oldest.header.startLsn = fst.start := by
  have hh := h.head
  rw [hl] at hh
  exact Option.map_eq_some_iff.mp hh

/-- A scan starts at a record or at the end of the log. -/
theorem scanImpl_ok (h : Scans stg vol pre last tail)
    (hsh : Shelved man dir pre last) {sl : Nat} {res : WalScanResult} :
    stg.scanImpl vol sl = .ok res ↔ (sl = last.stop ∨
        ∃ r ∈ layoutRecords (pre ++ [last]), r.lsn = sl) ∧
      (⟨(layoutRecords (pre ++ [last])).filter fun r => sl ≤ r.lsn, !tail.isEmpty,
        last.stop, last.stop + tail.length, sl⟩ : WalScanResult) = res := by
  obtain ⟨fst, lay, hl⟩ := exists_first pre last
  obtain ⟨oldest, hh, ht⟩ := h.oldest hl
  have hn := hsh.encodes hl
  have hp := hsh.stop_eq hl
  have hf := foldl_addScan pre last tail sl []
  rw [nil_append] at hf
  have hm : ∀ r, r ∈ layoutRecords (pre ++ [last]) ↔
      ∃ scn ∈ pre.map Stretch.scan ++ [last.scanTorn tail], r ∈ scn.records := by
    intro r
    simp [layoutRecords, Stretch.scan, Stretch.scanTorn]
  simp only [scanImpl, hh, ok_iff, h.scans, h.logicalEnd, ht]
  constructor
  · rintro ⟨_, _, scans, rfl, _, hb, hrs⟩
    refine ⟨?_, hf.symm.trans hrs⟩
    rcases hb with he | ⟨scn, hc, r, hr, hs⟩
    · exact .inl he
    · exact .inr ⟨r, (hm r).mpr ⟨scn, hc, hr⟩, hs⟩
  · rintro ⟨hb, hrs⟩
    refine ⟨(), ?_, _, rfl, (), ?_, hf.trans hrs⟩
    · rcases hb with rfl | ⟨r, hr, rfl⟩
      · omega
      · have := hn.lsn_le hr
        omega
    · rcases hb with he | ⟨r, hr, hs⟩
      · exact .inl he
      · obtain ⟨scn, hc, hi⟩ := (hm r).mp hr
        exact .inr ⟨scn, hc, r, hi, hs⟩

/-- A scan of everything returns everything. -/
theorem scan_eq (h : Scans stg vol pre last tail)
    (hs : Shelved man dir pre last) (hl : pre ++ [last] = fst :: lay) :
    stg.scan vol = .ok ⟨layoutRecords (pre ++ [last]), !tail.isEmpty, last.stop,
      last.stop + tail.length, fst.start⟩ := by
  obtain ⟨oldest, hh, ht⟩ := h.oldest hl
  have hn := hs.encodes hl
  simp only [scan, hh, ht]
  refine (h.scanImpl_ok hs).mpr ⟨?_, ?_⟩
  · rcases hn.head_lsn with he | hf
    · refine .inl ?_
      rw [hs.stop_eq hl, he]
      rfl
    · exact .inr hf
  · congr 1
    refine filter_eq_self.mpr fun r hm => ?_
    exact decide_eq_true (hn.lsn_le hm).1

end Scans

namespace Stored
variable {stg : SegmentedWalStorage} {vol : Volume} {dir : Directory}
  {pre : List Stretch} {last fst : Stretch} {lay : List Stretch}

section
variable (h : Stored stg dir pre last)
include h

section
variable (hdir : vol.directory? stg.place = some dir)
include hdir

theorem scanSegment_eq (hm : str ∈ pre ++ [last]) (allowTruncatedTail : Bool) :
    stg.scanSegment vol str.info allowTruncatedTail = .ok str.scan := by
  have hs := h.sound str hm
  have hc := hs.scanOneSegment_eq hs.untorn (Or.inl rfl : _ ∨ allowTruncatedTail = true)
  rw [append_nil] at hc
  rw [scanSegment, show stg.openSegment vol str.info.header.segmentId _ = _ from
      hs.openSegment_eq hdir _, ok_bind]
  exact hc

theorem scanSegments_eq {part : List Stretch} (hp : ∀ str ∈ part, str ∈ pre ++ [last]) :
    stg.scanSegments vol (part.map (·.info)) = .ok (part.map Stretch.scan) := by
  induction part with
  | nil => rfl
  | cons str part ih =>
    rw [map_cons, scanSegments, h.scanSegment_eq hdir (hp str (by simp)), ok_bind,
      ih fun other hm => hp other (mem_cons_of_mem _ hm)]
    rfl

theorem scans : Scans stg vol pre last [] := by
  refine ⟨?_, h.logicalEnd, ?_⟩
  · rw [h.segments]
    cases pre <;> rfl
  · have hs := h.scanSegments_eq hdir (fun _ => id)
    rw [← h.segments, map_append] at hs
    exact hs

/-- A scan starts at a record or at the end of the log. -/
theorem scanImpl_ok {sl : Nat} {res : WalScanResult} :
    stg.scanImpl vol sl = .ok res ↔ (sl = last.stop ∨
        ∃ r ∈ layoutRecords (pre ++ [last]), r.lsn = sl) ∧
      (⟨(layoutRecords (pre ++ [last])).filter fun r => sl ≤ r.lsn, false,
        last.stop, last.stop, sl⟩ : WalScanResult) = res :=
  (h.scans hdir).scanImpl_ok h.toShelved

/-- A scan of everything returns everything. -/
theorem scan_eq (hl : pre ++ [last] = fst :: lay) :
    stg.scan vol = .ok ⟨layoutRecords (pre ++ [last]), false, last.stop, last.stop, fst.start⟩ :=
  (h.scans hdir).scan_eq h.toShelved hl

end

end

end Stored

/-! Reading one record. -/

theorem recordAt_iff {rest : List UInt8} {lsn : Nat} :
    RecordAt rest lsn r ↔ readUint32 rest 8 ≤ rest.length ∧
      decodeWalRecord (rest.take (readUint32 rest 8)) lsn = .ok r := by
  constructor
  · rintro ⟨enc, tail, rfl, he, hl⟩
    have hf : readUint32 (enc ++ tail) 8 ≤ (enc ++ tail).length := by
      rw [(header_of_encode he tail).2, length_append]
      exact Nat.le_add_right _ _
    exact ⟨hf, (decode_take_iff hf).mpr ⟨enc, tail, rfl, he, hl⟩⟩
  · rintro ⟨hf, hd⟩
    exact (decode_take_iff hf).mp hd

theorem RecordAt.header {rest : List UInt8} {lsn : Nat} (h : RecordAt rest lsn r) :
    RecordHeader rest lsn := by
  obtain ⟨enc, tail, rfl, he, _⟩ := h
  exact (header_of_encode he tail).1

theorem stop_le_start (hc : (fst :: lay).IsChain fun a b => b.start = a.stop)
    (hle : ∀ x ∈ fst :: lay, x.start ≤ x.stop) (hm : str ∈ lay) : fst.stop ≤ str.start := by
  induction lay generalizing fst with
  | nil => simp at hm
  | cons next lay ih =>
    obtain ⟨hf, hr⟩ := isChain_cons_cons.mp hc
    rcases mem_cons.mp hm with rfl | hm
    · exact hf.symm.le
    · have hn := hle next (by simp)
      have hlt := ih hr (fun x hx => hle x (mem_cons_of_mem _ hx)) hm
      omega

/-- Segments that follow each other do not overlap: the one that covers a position is
found first. -/
theorem find?_covering {lsn : Nat} (hc : lay.IsChain fun a b => b.start = a.stop)
    (hle : ∀ x ∈ lay, x.start ≤ x.stop) (hm : str ∈ lay) (ht : str.start ≤ lsn)
    (hs : lsn < str.stop) :
    (lay.map (·.info)).find? (fun seg =>
      seg.header.startLsn ≤ lsn ∧ lsn < seg.logicalEndLsn) = some str.info := by
  induction lay with
  | nil => simp at hm
  | cons fst lay ih =>
    rcases mem_cons.mp hm with rfl | hm
    · rw [map_cons, find?_cons_of_pos]
      exact decide_eq_true ⟨ht, hs⟩
    · have hb := stop_le_start hc hle hm
      rw [map_cons, find?_cons_of_neg]
      · exact ih hc.tail (fun x hx => hle x (mem_cons_of_mem _ hx)) hm
      · intro hv
        have : lsn < fst.stop := (of_decide_eq_true hv).2
        omega

namespace Stored
variable {stg : SegmentedWalStorage} {vol : Volume} {dir : Directory}
  {pre : List Stretch} {last : Stretch}

theorem readRecordAt_covered (h : Stored stg dir pre last)
    (hdir : vol.directory? stg.place = some dir) {lsn : Nat}
    (hm : str ∈ pre ++ [last]) (ht : str.start ≤ lsn) (hp : lsn < str.stop) :
    stg.readRecordAt vol lsn = .ok r ↔ RecordAt (str.body.drop (lsn - str.start)) lsn r := by
  have hn := find?_covering h.contiguous (fun x hx => h.start_le_stop hx) hm ht hp
  rw [← h.segments] at hn
  have ho := (h.sound str hm).openSegment_eq hdir "Could not open WAL segment for record read"
  have hi := (h.sound str hm).stop
  have hb : (checkedBlock str.info.header.layout).length = segmentHeaderSize :=
    length_checkedBlock rfl
  simp only [readRecordAt, hn,
    show stg.openSegment vol str.info.header.segmentId _ = _ from ho, ok_bind, Stretch.file]
  rw [show str.info.header.startLsn = str.start from rfl]
  generalize hr : str.body.drop (lsn - str.start) = rest
  have hs : ∀ cnt, slice (checkedBlock str.info.header.layout ++ str.body)
      (segmentHeaderSize + (lsn - str.start)) cnt = rest.take cnt := by
    intro cnt
    rw [slice_append_right (by rw [hb]; exact Nat.le_add_right _ _), hb,
      Nat.add_sub_cancel_left, slice, hr]
  have hrm : (checkedBlock str.info.header.layout ++ str.body).length -
      (segmentHeaderSize + (lsn - str.start)) = rest.length := by
    rw [length_append, hb, ← hr, length_drop]
    omega
  have hbn : segmentHeaderSize + (lsn - str.start) ≤
      (checkedBlock str.info.header.layout ++ str.body).length := by
    rw [length_append, hb]
    omega
  simp only [ok_iff, hs, hrm, readUint32_header, recordAt_iff]
  constructor
  · rintro ⟨_, _, _, ⟨hf, _⟩, hd⟩
    exact ⟨hf, hd⟩
  · rintro ⟨hf, hd⟩
    have hh := (recordAt_iff.mpr ⟨hf, hd⟩).header
    exact ⟨(), ⟨hbn, hh.size⟩, (), ⟨hf, hh.total.2⟩, hd⟩

/-- A read at a position returns the record that stands there in the segment that
covers the position. -/
theorem readRecordAt_ok (h : Stored stg dir pre last)
    (hdir : vol.directory? stg.place = some dir) {lsn : Nat} :
    stg.readRecordAt vol lsn = .ok r ↔ ∃ str ∈ pre ++ [last], str.start ≤ lsn ∧
        RecordAt (str.body.drop (lsn - str.start)) lsn r := by
  constructor
  · intro hd
    by_cases hc : ∃ str ∈ pre ++ [last], str.start ≤ lsn ∧ lsn < str.stop
    · obtain ⟨str, hm, hs, hp⟩ := hc
      exact ⟨str, hm, hs, (h.readRecordAt_covered hdir hm hs hp).mp hd⟩
    · have hn : stg.segments.find? (fun seg =>
          seg.header.startLsn ≤ lsn ∧ lsn < seg.logicalEndLsn) = none := by
        rw [h.segments, find?_eq_none]
        intro info hi hv
        obtain ⟨str, hm, rfl⟩ := mem_map.mp hi
        exact hc ⟨str, hm, of_decide_eq_true hv⟩
      rw [readRecordAt, hn] at hd
      exact absurd hd (by simp)
  · rintro ⟨str, hm, hs, hr⟩
    have hz := hr.header.size
    rw [length_drop] at hz
    have hp := (h.sound str hm).stop
    simp only [recordHeaderSize] at hz
    exact (h.readRecordAt_covered hdir hm hs (by omega)).mpr hr

/-- Every record of the log is read at its position. -/
theorem readRecordAt_mem (h : Stored stg dir pre last) (hdir : vol.directory? stg.place = some dir)
    (hr : r ∈ layoutRecords (pre ++ [last])) : stg.readRecordAt vol r.lsn = .ok r := by
  obtain ⟨str, hm, hi⟩ := mem_flatMap.mp hr
  obtain ⟨bef, enc, aft, hb, hl, he⟩ :=
    (h.sound str hm).encodes.recordAt hi
  refine (h.readRecordAt_ok hdir).mpr ⟨str, hm, by omega, enc, aft, ?_, he, rfl⟩
  rw [hb, show r.lsn - str.start = bef.length by omega, drop_left]

end Stored

end MiniDb.Wal
