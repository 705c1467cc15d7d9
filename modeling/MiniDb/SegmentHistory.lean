import MiniDb.SegmentOpening

/-!
A segmented log over a whole history of requests. Beside the storage a history keeps
what was appended; the records at or past the start of the oldest segment are the
ones not reclaimed. Along every history whose positions stay valid, the segments
follow each other, each record lies in one of them, and scans and reads return the
records that are retained.
-/
namespace MiniDb.Wal
open ByteString Outcome CrashFiles Stateful SegmentedWalStorage Stretch
open List hiding rotate

variable {r : LogRecord} {s : StorageState}

/-! Requests. -/

/-- The storage is destroyed and its log opened again. -/
def SegmentedWalStorage.reopen : StorageM Unit := fun s =>
  match (do
      close s.storage
      create s.storage.place s.storage.manifest.payloadCapacity true invalidLsn :
        EStateM DbError World SegmentedWalStorage) s.world with
  | .ok storage world => .ok () ⟨storage, world⟩
  | .error e world => .error e ⟨s.storage, world⟩

inductive StorageRequest
  | append (record : LogRecord) (lsn : Nat)
  | flush
  | rotate
  | reclaim (floorLsn extraSegments : Nat)
  | reopen

namespace StorageRequest

def call : StorageRequest → StorageM Unit
  | .append record lsn => do
      let encoded ← fromExcept (encodeWalRecord record lsn)
      appendRecord lsn encoded
  | .flush => SegmentedWalStorage.flush
  | .rotate => SegmentedWalStorage.rotate
  | .reclaim floorLsn extraSegments => do
      let _ ← reclaimBefore floorLsn extraSegments
  | .reopen => SegmentedWalStorage.reopen

/-- What a request adds to the log if it returns. -/
def appends : StorageRequest → List LogRecord
  | .append record lsn => [{ record with lsn }]
  | _ => []

end StorageRequest

structure StorageHistory where
  state : StorageState
  appended : List LogRecord

namespace StorageHistory

def respond (history : StorageHistory) (request : StorageRequest) : StorageHistory :=
  match request.call history.state with
  | .ok _ s => ⟨s, history.appended ++ request.appends⟩
  | .error _ s => ⟨s, history.appended⟩

def run (history : StorageHistory) (requests : List StorageRequest) : StorageHistory :=
  requests.foldl respond history

/-- Where the oldest segment starts. -/
def oldestLsn (history : StorageHistory) : Nat :=
  (history.state.storage.segments.head?.map (·.header.startLsn)).getD 0

/-- The records that were appended and not reclaimed. -/
def retained (history : StorageHistory) : List LogRecord :=
  history.appended.filter fun record => history.oldestLsn ≤ record.lsn

end StorageHistory

def logSize (records : List LogRecord) : Nat := (records.map encodedSize).sum

/-- The record lies in the segment, whole. -/
def WalSegmentInfo.Holds (segment : WalSegmentInfo) (record : LogRecord) : Prop :=
  segment.header.startLsn ≤ record.lsn ∧ record.lsn + encodedSize record ≤ segment.logicalEndLsn

/-- What every state of a history shows to its readers. -/
structure LogStructure (history : StorageHistory) : Prop where
  contiguous : history.state.storage.segments.IsChain fun a b =>
    b.header.startLsn = a.logicalEndLsn ∧ b.header.segmentId = a.header.segmentId + 1
  whole : ∀ record ∈ history.retained, ∃ segment ∈ history.state.storage.segments,
    segment.Holds record
  scan : ∃ result, history.state.storage.scan history.state.world.volume = .ok result ∧
    result.records = history.retained
  read : ∀ record ∈ history.retained,
    history.state.storage.readRecordAt history.state.world.volume record.lsn = .ok record
  reclaimed : ∀ record ∈ history.appended, record ∉ history.retained →
    ∃ e, history.state.storage.readRecordAt history.state.world.volume record.lsn = .error e

/-- The segment of a position: the one that covers it, or the last. -/
def SegmentOf (segments : List WalSegmentInfo) (lsn index : Nat) : Prop :=
  ∃ segment, segments[index]? = some segment ∧ segment.header.startLsn ≤ lsn ∧
    (lsn < segment.logicalEndLsn ∨ index + 1 = segments.length)

/-- What one request may do to the records that are retained. -/
def StepKeeps (request : StorageRequest) (before after : StorageHistory) : Prop :=
  match request with
  | .reclaim floorLsn extraSegments =>
    ∀ record ∈ before.retained, record ∈ after.retained ∨
      record.lsn < floorLsn ∧
        ∀ (floorIndex index : Nat) segment,
          SegmentOf before.state.storage.segments floorLsn floorIndex →
          before.state.storage.segments[index]? = some segment → segment.Holds record →
            index + extraSegments < floorIndex
  | _ => ∀ record ∈ before.retained, record ∈ after.retained

/-- What a request needs to return. A new segment needs an id; where none was left, the
attempt has closed the active segment. -/
def StorageRequest.Admissible (request : StorageRequest) (storage : SegmentedWalStorage) : Prop :=
  match request with
  | .append record lsn => (∃ encoded, encodeWalRecord record lsn = .ok encoded) ∧
      lsn = storage.logicalEnd ∧ encodedSize record ≤ storage.manifest.payloadCapacity ∧
      nextSegmentId storage.segments ≠ 0 ∧ storage.activeDescriptor.isSome
  | .rotate => nextSegmentId storage.segments ≠ 0
  | _ => True

def StepReturns (request : StorageRequest) (before : StorageHistory) : Prop :=
  request.Admissible before.state.storage → ∃ s, request.call before.state = .ok () s

/-! Records and the segments they lie in. -/

/-- The records of a segment lie in it. -/
theorem Stretch.Sound.holds {str : Stretch} {dir : Directory} {cap : Nat}
    (h : str.Sound dir cap) (hm : r ∈ str.records) : str.info.Holds r := by
  obtain ⟨bef, enc, aft, hb, hl, he⟩ := h.encodes.recordAt hm
  have hs := h.stop
  rw [hb, length_append, length_append, length_of_encode he] at hs
  refine ⟨?_, ?_⟩
  · show str.start ≤ r.lsn
    omega
  · show r.lsn + encodedSize r ≤ str.stop
    omega

namespace Shelved
variable {man : WalSegmentManifest} {dir : Directory} {pre : List Stretch}
  {last fst : Stretch} {lay : List Stretch}

theorem first_start_le (h : Shelved man dir pre last) (hl : pre ++ [last] = fst :: lay)
    {str : Stretch} (hm : str ∈ pre ++ [last]) : fst.start ≤ str.start := by
  have hc := h.contiguous
  have hle : ∀ x ∈ pre ++ [last], x.start ≤ x.stop := fun x hx => h.start_le_stop hx
  rw [hl] at hc hm hle
  rcases mem_cons.mp hm with rfl | hm
  · exact le_rfl
  · exact (hle fst (by simp)).trans (stop_le_start hc hle hm)

/-- A record lies in one segment only. -/
theorem index_unique (h : Shelved man dir pre last) {i j : Nat} {a b : Stretch}
    (ha : (pre ++ [last])[i]? = some a) (hb : (pre ++ [last])[j]? = some b)
    (hr : a.info.Holds r) (hr' : b.info.Holds r) : i = j := by
  have hp : 0 < encodedSize r := Nat.lt_of_lt_of_le (by decide) (Nat.le_add_right _ _)
  obtain ⟨ht, hs⟩ := hr
  obtain ⟨ht', hs'⟩ := hr'
  have hle : ∀ x ∈ pre ++ [last], x.start ≤ x.stop := fun x hx => h.start_le_stop hx
  rcases Nat.lt_trichotomy i j with hlt | heq | hlt
  · have ho : a.info.logicalEndLsn ≤ b.info.header.startLsn :=
      stop_le_start_of_lt h.contiguous hle ha hb hlt
    omega
  · exact heq
  · have ho : b.info.logicalEndLsn ≤ a.info.header.startLsn :=
      stop_le_start_of_lt h.contiguous hle hb ha hlt
    omega

end Shelved

/-! What a history keeps. -/

/-- The files hold what is retained, and the log ends behind everything appended. -/
structure Kept (startLsn : Nat) (history : StorageHistory) (front : List Stretch) (last : Stretch) :
    Prop where
  holds : history.state.Holds front last
  records : layoutRecords (front ++ [last]) = history.retained
  stop : last.stop = startLsn + logSize history.appended

variable {hist : StorageHistory}

theorem StorageHistory.oldestLsn_eq {pre lay : List Stretch} {last fst : Stretch}
    (h : hist.state.Holds pre last) (hl : pre ++ [last] = fst :: lay) :
    hist.oldestLsn = fst.start := by
  obtain ⟨_, _, hs⟩ := h
  rw [StorageHistory.oldestLsn, hs.segments, hl]
  rfl

theorem Kept.logStructure {sl : Nat} {pre : List Stretch} {last : Stretch}
    (h : Kept sl hist pre last) : LogStructure hist := by
  obtain ⟨dir, hd, hs⟩ := h.holds
  obtain ⟨fst, lay, hl⟩ := exists_first pre last
  have ho := StorageHistory.oldestLsn_eq h.holds hl
  refine ⟨?_, ?_, ⟨_, hs.scan_eq hd hl, h.records⟩, ?_, ?_⟩
  · rw [hs.segments]
    refine (isChain_map _).mpr (hs.chain.imp ?_)
    intro a b ha
    exact ⟨ha.2, ha.1⟩
  · intro r hm
    rw [← h.records] at hm
    obtain ⟨str, ht, hi⟩ := mem_flatMap.mp hm
    refine ⟨str.info, ?_, (hs.sound str ht).holds hi⟩
    rw [hs.segments]
    exact mem_map_of_mem ht
  · intro r hm
    rw [← h.records] at hm
    exact hs.readRecordAt_mem hd hm
  · intro r hp hr
    have hb : r.lsn < fst.start := by
      by_contra hle
      refine hr (mem_filter.mpr ⟨hp, decide_eq_true ?_⟩)
      omega
    cases hrd : hist.state.storage.readRecordAt hist.state.world.volume r.lsn with
    | error e => exact ⟨e, rfl⟩
    | ok fd =>
      obtain ⟨str, hm, hsr, _⟩ := (hs.readRecordAt_ok hd).mp hrd
      have := hs.first_start_le hl hm
      omega

theorem oldestLsn_eq_head {pre : List Stretch} {last : Stretch} (h : hist.state.Holds pre last) :
    some hist.oldestLsn = (pre ++ [last]).head?.map start := by
  obtain ⟨fst, lay, hl⟩ := exists_first pre last
  rw [StorageHistory.oldestLsn_eq h hl, hl]
  rfl

section
variable {sl : Nat} {hist : StorageHistory} {pre : List Stretch} {last : Stretch}
  {last' : Stretch}

section
variable (h : Kept sl hist pre last)
include h

/-- The same records in another layout. -/
theorem Kept.relayout {pre' : List Stretch} (hh : s.Holds pre' last')
    (hc : layoutRecords (pre' ++ [last']) = layoutRecords (pre ++ [last]))
    (hd : (pre' ++ [last']).head?.map start = (pre ++ [last]).head?.map start)
    (hs : last'.stop = last.stop) :
    Kept sl ⟨s, hist.appended⟩ pre' last' ∧
      (⟨s, hist.appended⟩ : StorageHistory).retained = hist.retained := by
  have ho : (⟨s, hist.appended⟩ : StorageHistory).oldestLsn = hist.oldestLsn := by
    have ha := @oldestLsn_eq_head ⟨s, hist.appended⟩ _ _ hh
    rw [hd, ← oldestLsn_eq_head h.holds] at ha
    exact Option.some.inj ha
  have hr : (⟨s, hist.appended⟩ : StorageHistory).retained = hist.retained := by
    rw [StorageHistory.retained, ho]
    rfl
  exact ⟨⟨hh, by rw [hc, h.records, hr], by rw [hs, h.stop]⟩, hr⟩

theorem Kept.same (hh : s.Holds pre last') (hs : last.Same last') :
    Kept sl ⟨s, hist.appended⟩ pre last' ∧
      (⟨s, hist.appended⟩ : StorageHistory).retained = hist.retained :=
  h.relayout hh (layoutRecords_same hs) (head?_concat_start hs.start.symm []) hs.stop.symm

theorem Kept.append {pre' : List Stretch} {enc : List UInt8}
    (he : encodeWalRecord r last.stop = .ok enc) (hh : s.Holds pre' last')
    (hp : Appended r enc pre last pre' last') :
    Kept sl ⟨s, hist.appended ++ [{ r with lsn := last.stop }]⟩ pre' last' ∧
      (⟨s, hist.appended ++ [{ r with lsn := last.stop }]⟩ : StorageHistory).retained =
        hist.retained ++ [{ r with lsn := last.stop }] := by
  obtain ⟨fst, lay, hl⟩ := exists_first pre last
  obtain ⟨_, _, hs⟩ := id h.holds
  have ho : (⟨s, hist.appended ++ [{ r with lsn := last.stop }]⟩ :
      StorageHistory).oldestLsn = hist.oldestLsn := by
    have ha := @oldestLsn_eq_head ⟨s, hist.appended ++ [{ r with lsn := last.stop }]⟩ _ _ hh
    rw [hp.head, ← oldestLsn_eq_head h.holds] at ha
    exact Option.some.inj ha
  have hr : (⟨s, hist.appended ++ [{ r with lsn := last.stop }]⟩ :
      StorageHistory).retained = hist.retained ++ [{ r with lsn := last.stop }] := by
    have hls : hist.oldestLsn ≤ last.stop := by
      rw [StorageHistory.oldestLsn_eq h.holds hl, hs.stop_eq hl]
      exact Nat.le_add_right _ _
    rw [StorageHistory.retained, ho, filter_append]
    simp [hls, StorageHistory.retained]
  refine ⟨⟨hh, by rw [hp.records, h.records, hr], ?_⟩, hr⟩
  rw [hp.stop, h.stop, length_of_encode he]
  simp [logSize, encodedSize, add_assoc]

/-- The history without the segments that a reclaim gave up. -/
theorem Kept.reclaim {fl es rem : Nat} (hc : Reclaimable fl es pre last rem)
    (hh : s.Holds (pre.drop rem) last) :
    Kept sl ⟨s, hist.appended⟩ (pre.drop rem) last ∧
      StepKeeps (.reclaim fl es) hist ⟨s, hist.appended⟩ := by
  obtain ⟨_, _, hs⟩ := id h.holds
  obtain ⟨fst, lay, hl⟩ := exists_first pre last
  obtain ⟨fst', lay', hl'⟩ := exists_first (pre.drop rem) last
  have hol := StorageHistory.oldestLsn_eq h.holds hl
  have hol' := @StorageHistory.oldestLsn_eq ⟨s, hist.appended⟩ _ _ _ _ hh hl'
  have hp : pre ++ [last] = pre.take rem ++ (pre.drop rem ++ [last]) := by
    rw [← append_assoc, take_append_drop]
  have ha : (pre ++ [last])[rem]? = some fst' := by
    rw [hp, hl', getElem?_append_right (by simp), length_take,
      Nat.min_eq_left hc.closed, Nat.sub_self]
    rfl
  have hle : ∀ x ∈ pre ++ [last], x.start ≤ x.stop := fun x hx => hs.start_le_stop hx
  have hg : ∀ r ∈ layoutRecords (pre.take rem), ∃ (i : Nat) (str : Stretch),
      i < rem ∧ (pre ++ [last])[i]? = some str ∧ str ∈ pre.take rem ∧
        r ∈ str.records ∧ r.lsn < str.stop := by
    intro r hr
    obtain ⟨str, hsr, hn⟩ := mem_flatMap.mp hr
    obtain ⟨i, hi⟩ := getElem?_of_mem hsr
    have hlt := (List.getElem?_eq_some_iff.mp hi).1
    rw [length_take] at hlt
    have ha : (pre ++ [last])[i]? = some str := by
      rw [hp, getElem?_append_left (by rw [length_take]; omega), hi]
    have hsn := hs.sound str (mem_of_getElem? ha)
    have hstop := hsn.stop
    have := hsn.encodes.lsn_le hn
    exact ⟨i, str, by omega, ha, hsr, hn, by omega⟩
  have he : hist.retained =
      layoutRecords (pre.take rem) ++ layoutRecords (pre.drop rem ++ [last]) := by
    rw [← h.records, hp]
    exact flatMap_append
  have ht : layoutRecords (pre.drop rem ++ [last]) =
      (⟨s, hist.appended⟩ : StorageHistory).retained := by
    obtain ⟨_, _, hs'⟩ := id hh
    have ho := hs.first_start_le hl (mem_of_getElem? ha)
    have hw : (⟨s, hist.appended⟩ : StorageHistory).retained =
        hist.retained.filter fun r => fst'.start ≤ r.lsn := by
      rw [StorageHistory.retained, StorageHistory.retained, filter_filter, hol, hol']
      refine filter_congr fun r _ => ?_
      rw [← Bool.decide_and]
      refine decide_eq_decide.mpr ⟨fun hk => ⟨hk, by omega⟩, fun hk => hk.1⟩
    have hdr : (layoutRecords (pre.take rem)).filter (fun r => fst'.start ≤ r.lsn) = [] := by
      refine filter_eq_nil_iff.mpr fun r hr => ?_
      obtain ⟨i, str, hlt, hi, _, _, hb⟩ := hg r hr
      have := stop_le_start_of_lt hs.contiguous hle hi ha hlt
      simp only [decide_eq_true_eq]
      omega
    have hk : (layoutRecords (pre.drop rem ++ [last])).filter
        (fun r => fst'.start ≤ r.lsn) = layoutRecords (pre.drop rem ++ [last]) :=
      filter_eq_self.mpr fun r hr =>
        decide_eq_true ((hs'.encodes hl').lsn_le hr).1
    rw [hw, he, filter_append, hdr, hk, nil_append]
  refine ⟨⟨hh, ht, h.stop⟩, ?_⟩
  intro r hm
  rw [he, ht] at hm
  rcases mem_append.mp hm with hm | hm
  · obtain ⟨i, str, hlt, hi, hfr, hn, hb⟩ := hg r hm
    have hfloor := hc.below str hfr
    refine .inr ⟨by omega, ?_⟩
    rintro floorIndex ix seg ⟨floorSegment, hf, hst, hv⟩ hd hhl
    rw [hs.segments, getElem?_map, Option.map_eq_some_iff] at hf hd
    obtain ⟨floorStretch, hf, rfl⟩ := hf
    obtain ⟨other, hd, rfl⟩ := hd
    rw [hs.segments, length_map, length_append, length_singleton] at hv
    have hsm := hs.index_unique hd hi hhl ((hs.sound str (mem_of_getElem? hi)).holds hn)
    have hk := hc.kept floorIndex floorStretch hf hst (hv.imp_right fun h => by omega)
    omega
  · exact .inl hm

end

/-- Everything appended has a valid position behind it. -/
def InSpace (startLsn : Nat) (history : StorageHistory) : Prop :=
  isValidLsn (startLsn + logSize history.appended)

theorem appended_respond (hist : StorageHistory) (rq : StorageRequest) :
    ∃ more, (hist.respond rq).appended = hist.appended ++ more := by
  unfold StorageHistory.respond
  split
  · exact ⟨_, rfl⟩
  · exact ⟨[], (append_nil _).symm⟩

theorem respond_of_ensures {rq : StorageRequest} {P : StorageHistory → Prop}
    (h : Ensures rq.call hist.state (fun _ s => P ⟨s, hist.appended ++ rq.appends⟩)
      fun _ s => P ⟨s, hist.appended⟩) : P (hist.respond rq) := by
  unfold Ensures at h
  unfold StorageHistory.respond
  cases hc : rq.call hist.state with
  | ok _ s =>
    simp only [hc] at h
    exact h
  | error _ s =>
    simp only [hc] at h
    exact h

/-- What a request that only adds to the log leaves. -/
def Continues (startLsn : Nat) (before after : StorageHistory) : Prop :=
  (∃ front last, Kept startLsn after front last) ∧
    ∀ record ∈ before.retained, record ∈ after.retained

theorem Kept.continues_same (h : Kept sl hist pre last) (hh : s.Holds pre last')
    (hs : last.Same last') : Continues sl hist ⟨s, hist.appended⟩ := by
  obtain ⟨hk, hr⟩ := h.same hh hs
  exact ⟨⟨pre, last', hk⟩, fun r hm => hr ▸ hm⟩

theorem reopen_run (h : hist.state.Holds pre last) :
    ∃ s pre' last', SegmentedWalStorage.reopen hist.state = .ok () s ∧ s.Holds pre' last' ∧
      layoutRecords (pre' ++ [last']) = layoutRecords (pre ++ [last]) ∧
      (pre' ++ [last']).head?.map start = (pre ++ [last]).head?.map start ∧
      last'.stop = last.stop := by
  obtain ⟨w, last', dir, hl, hd, hh, hs, _⟩ := close_run h
  have hc := @create_existing _ _ true invalidLsn _ _ _ _ _ hh.found hd
  refine ⟨⟨reopened hist.state.storage.place hist.state.storage.manifest pre last' [], w⟩,
    pre.map (·.reopened false), last'.reopened true, ?_, ⟨dir, hd, hh.stored_reopened⟩,
    ?_, ?_, hs.stop.symm⟩
  · simp only [SegmentedWalStorage.reopen, run_bind hl, hc]
  · rw [layoutRecords_reopened, layoutRecords_same hs]
  · cases pre with
    | nil => exact congrArg some hs.start.symm
    | cons fst pre => rfl

theorem Kept.respond_append (h : Kept sl hist pre last) {lsn : Nat}
    (hs : InSpace sl (hist.respond (.append r lsn))) :
    Continues sl hist (hist.respond (.append r lsn)) := by
  refine respond_of_ensures (P := fun aft => InSpace sl aft → Continues sl hist aft) ?_ hs
  simp only [StorageRequest.call, ensures_iff]
  refine ⟨fun enc he => ?_, fun _ _ _ => ⟨⟨pre, last, h⟩, fun _ hm => hm⟩⟩
  refine (appendRecord_ensures h.holds he).imp ?_ ?_
  · rintro _ s ⟨rfl, _, hw⟩ hs
    have hv : isValidLsn (last.stop + enc.length) := by
      rw [h.stop, length_of_encode he]
      simpa [InSpace, StorageRequest.appends, logSize, encodedSize, add_assoc] using hs
    obtain ⟨⟨pre', last', hh, ha⟩, _⟩ := hw hv
    obtain ⟨hk, hr⟩ := h.append he hh ha
    refine ⟨⟨pre', last', hk⟩, fun r' hm => ?_⟩
    rw [StorageRequest.appends, hr]
    exact mem_append_left _ hm
  · rintro _ s (⟨_, rfl⟩ | ⟨_, last', hh, hsm⟩) _
    · exact ⟨⟨pre, last, h⟩, fun _ hm => hm⟩
    · exact h.continues_same hh hsm

theorem Kept.respond_rotate (h : Kept sl hist pre last) :
    Continues sl hist (hist.respond .rotate) := by
  obtain ⟨_, _, hs⟩ := id h.holds
  refine respond_of_ensures (P := Continues sl hist) ?_
  simp only [StorageRequest.call, rotate, ensures_iff, hs.logicalEnd, StorageRequest.appends,
    append_nil]
  refine (createSegment_ensures h.holds).imp ?_ ?_
  · rintro _ s ⟨last', hh, hsm, _⟩
    obtain ⟨hk, hr⟩ := h.relayout hh (by simp [layoutRecords, Stretch.next, hsm.records])
      (by rw [append_assoc]; exact head?_concat_start hsm.start.symm _) hsm.stop.symm
    exact ⟨⟨_, _, hk⟩, fun r hm => hr ▸ hm⟩
  · rintro _ s ⟨_, last', hh, hsm, _⟩
    exact h.continues_same hh hsm

theorem ids_left (h : s.Holds pre last) (hn : nextSegmentId s.storage.segments ≠ 0) :
    last.id + 1 ≠ 2 ^ 64 := by
  obtain ⟨_, _, hs⟩ := h
  intro he
  rw [nextSegmentId, hs.segments, map_append, map_singleton, getLast?_concat] at hn
  refine hn (show (last.id + 1) % 2 ^ 64 = 0 from ?_)
  rw [he, Nat.mod_self]

theorem Kept.append_returns (h : Kept sl hist pre last) {lsn : Nat} :
    StepReturns (.append r lsn) hist := by
  rintro ⟨⟨enc, he⟩, hl, hf, hi, hd⟩
  obtain ⟨_, _, hs⟩ := id h.holds
  obtain ⟨_, s, hr, _⟩ := ((appendRecord_ensures h.holds he).imp (fun _ _ hp => hp) (by
    rintro _ _ (⟨hn, _⟩ | ⟨hx | hx, _⟩)
    · exact hn ⟨hl.trans hs.logicalEnd, length_of_encode he ▸ hf⟩
    · exact ids_left h.holds hi hx
    · simp [hx] at hd)).returns
  refine ⟨s, ?_⟩
  rw [StorageRequest.call, he]
  exact hr

theorem Kept.rotate_returns (h : Kept sl hist pre last) : StepReturns .rotate hist := by
  intro hi
  obtain ⟨_, _, hs⟩ := id h.holds
  obtain ⟨_, s, hr, _⟩ := ((createSegment_ensures h.holds).imp (fun _ _ hp => hp)
    (fun _ _ hx => ids_left h.holds hi hx.1)).returns
  refine ⟨s, ?_⟩
  rw [StorageRequest.call, rotate, run_get_bind, hs.logicalEnd, hr]

/-- One request. -/
theorem Kept.respond (h : Kept sl hist pre last) (rq : StorageRequest)
    (hsp : InSpace sl (hist.respond rq)) :
    (∃ pre' last', Kept sl (hist.respond rq) pre' last') ∧
      StepKeeps rq hist (hist.respond rq) ∧ StepReturns rq hist := by
  cases rq with
  | append r lsn =>
    obtain ⟨hk, hp⟩ := h.respond_append hsp
    exact ⟨hk, hp, h.append_returns⟩
  | flush =>
    obtain ⟨s, last', hr, hh, hl, _⟩ := flush_run h.holds
    have hs : hist.respond .flush = ⟨s, hist.appended⟩ := by
      simp only [StorageHistory.respond, StorageRequest.call, hr, StorageRequest.appends,
        append_nil]
    rw [hs]
    obtain ⟨hk, hp⟩ := h.continues_same hh hl
    exact ⟨hk, hp, fun _ => ⟨s, hr⟩⟩
  | rotate =>
    obtain ⟨hk, hp⟩ := h.respond_rotate
    exact ⟨hk, hp, h.rotate_returns⟩
  | reclaim fl es =>
    obtain ⟨reclaimed, s, rem, hr, hrc, hh, _⟩ :=
      reclaimBefore_run fl es h.holds
    have hc : (StorageRequest.reclaim fl es).call hist.state = .ok () s := by
      rw [StorageRequest.call, run_bind hr]
      rfl
    have hs : hist.respond (.reclaim fl es) = ⟨s, hist.appended⟩ := by
      simp only [StorageHistory.respond, hc, StorageRequest.appends, append_nil]
    rw [hs]
    obtain ⟨hk, hp⟩ := h.reclaim hrc hh
    exact ⟨⟨_, _, hk⟩, hp, fun _ => ⟨s, hc⟩⟩
  | reopen =>
    obtain ⟨s, pre', last', hr, hh, he, hd, hst⟩ := reopen_run h.holds
    have hs : hist.respond .reopen = ⟨s, hist.appended⟩ := by
      simp only [StorageHistory.respond, StorageRequest.call, hr, StorageRequest.appends,
        append_nil]
    rw [hs]
    obtain ⟨hk, ht⟩ := h.relayout hh he hd hst
    exact ⟨⟨_, _, hk⟩, fun r hm => ht ▸ hm, fun _ => ⟨s, hr⟩⟩

theorem logSize_append (rs more : List LogRecord) :
    logSize (rs ++ more) = logSize rs + logSize more := by
  simp [logSize]

/-- A whole history. -/
theorem Kept.run (h : Kept sl hist pre last) (rqs : List StorageRequest)
    (hs : InSpace sl (hist.run rqs)) :
    (∃ pre' last', Kept sl (hist.run rqs) pre' last') ∧ ∀ bef rq, bef ++ [rq] <+: rqs →
        StepKeeps rq (hist.run bef) (hist.run (bef ++ [rq])) ∧ StepReturns rq (hist.run bef) := by
  induction rqs using reverseRecOn with
  | nil =>
    refine ⟨⟨pre, last, h⟩, fun bef rq hp => ?_⟩
    exact absurd (prefix_nil.mp hp) (by simp)
  | append_singleton rqs rq ih =>
    have hr : hist.run (rqs ++ [rq]) = (hist.run rqs).respond rq := by
      simp [StorageHistory.run]
    rw [hr] at hs ⊢
    obtain ⟨more, hm⟩ := appended_respond (hist.run rqs) rq
    have hb : InSpace sl (hist.run rqs) := by
      unfold InSpace at hs ⊢
      rw [hm, logSize_append] at hs
      exact Nat.lt_of_le_of_lt (by omega) hs
    obtain ⟨⟨pre', last', hk⟩, hst⟩ := ih hb
    obtain ⟨ha, hkp, ht⟩ := hk.respond rq hs
    refine ⟨ha, fun bef next hp => ?_⟩
    rcases prefix_concat_iff.mp hp with heq | hp
    · obtain ⟨rfl, hn⟩ := append_inj' heq rfl
      obtain rfl := singleton_inj.mp hn
      rw [hr]
      exact ⟨hkp, ht⟩
    · exact hst bef next hp

end

instance (startLsn : Nat) (history : StorageHistory) : Decidable (InSpace startLsn history) :=
  inferInstanceAs (Decidable (isValidLsn _))

/-- The structure of a segmented log. From a log just made, and as long as the end of
the log is a valid position, every sequence of requests leaves contiguous segments
with whole records in them; scans and reads return the records that were appended and
not reclaimed; a reclaim gives up nothing at or past its floor, nor in the segments it
was told to spare. -/
theorem segmented_log_structure (place : Place) (payloadCapacity : UInt32)
    (migrationBaseLsn : UInt64)
    {world world' : World} {storage : SegmentedWalStorage}
    (hmissing : world.volume.directory? place = none)
    (hcreate : create place payloadCapacity.toNat true migrationBaseLsn.toNat world =
      .ok storage world')
    (requests : List StorageRequest)
    (hspace : InSpace storage.logicalEnd (StorageHistory.run ⟨⟨storage, world'⟩, []⟩ requests)) :
    LogStructure (StorageHistory.run ⟨⟨storage, world'⟩, []⟩ requests) ∧
      ∀ before request, before ++ [request] <+: requests →
        StepKeeps request (StorageHistory.run ⟨⟨storage, world'⟩, []⟩ before)
            (StorageHistory.run ⟨⟨storage, world'⟩, []⟩ (before ++ [request])) ∧
          StepReturns request (StorageHistory.run ⟨⟨storage, world'⟩, []⟩ before) := by
  obtain ⟨hholds, _⟩ :=
    create_new payloadCapacity.toNat_lt migrationBaseLsn.toNat_lt hmissing hcreate
  obtain ⟨_, _, hstored⟩ := id hholds
  have hkept : Kept storage.logicalEnd ⟨⟨storage, world'⟩, []⟩ [] _ :=
    ⟨hholds, rfl, hstored.logicalEnd.symm⟩
  obtain ⟨⟨pre, last, hafter⟩, hsteps⟩ := hkept.run requests hspace
  exact ⟨hafter.logStructure, hsteps⟩

/-- A path with nothing on it yet. -/
def freshWorld : World := ⟨.empty, [], true⟩

def beginRecord : LogRecord := ⟨.begin, 1, 0xFFFFFFFFFFFFFFFF, [], 0⟩

/-- Three records in two segments, one of them given up, and the log opened again. -/
def shortHistory : List StorageRequest :=
  [.append beginRecord 64, .append beginRecord 112, .append beginRecord 160, .flush,
    .reclaim 160 0, .reopen, .rotate]

theorem segmented_log_structure_short :
    ∃ storage world, create .published 128 true invalidLsn freshWorld = .ok storage world ∧
      (StorageHistory.run ⟨⟨storage, world⟩, []⟩ shortHistory).appended =
        [64, 112, 160].map (fun lsn => { beginRecord with lsn }) ∧
      LogStructure (StorageHistory.run ⟨⟨storage, world⟩, []⟩ shortHistory) := by
  have hcheck : returnsWith (create .published 128 true invalidLsn freshWorld) (fun storage world =>
      let after := StorageHistory.run ⟨⟨storage, world⟩, []⟩ shortHistory
      decide (InSpace storage.logicalEnd after ∧ after.appended =
        [64, 112, 160].map fun lsn => { beginRecord with lsn })) = true := by
    decide +kernel
  simp only [returnsWith_iff, decide_eq_true_eq] at hcheck
  obtain ⟨storage, world, hcreate, hspace, happended⟩ := hcheck
  exact ⟨storage, world, hcreate, happended,
    (segmented_log_structure .published 128 0xFFFFFFFFFFFFFFFF rfl hcreate _ hspace).1⟩

/-- A position that wraps around makes the log unreadable. -/
theorem wrapped_log_is_not_scanned :
    ∃ storage world, create .published 128 true (2 ^ 64 - 2) freshWorld = .ok storage world ∧
      ¬ LogStructure (StorageHistory.run ⟨⟨storage, world⟩, []⟩
        [.append beginRecord (2 ^ 64 - 2)]) := by
  have hcheck : returnsWith (create .published 128 true (2 ^ 64 - 2) freshWorld)
    (fun storage world =>
      let state :=
        (StorageHistory.run ⟨⟨storage, world⟩, []⟩ [.append beginRecord (2 ^ 64 - 2)]).state
      !(state.storage.scan state.world.volume).toBool) = true := by
    decide +kernel
  obtain ⟨storage, world, hcreate, hfails⟩ := returnsWith_iff.mp hcheck
  refine ⟨storage, world, hcreate, fun hstructure => ?_⟩
  obtain ⟨result, hscan, _⟩ := hstructure.scan
  simp only [hscan] at hfails
  cases hfails

end MiniDb.Wal
