import MiniDb.LogCrash

/-!
A log that is cut. Records describe their own length, so a scan of the first bytes of
a log passes over whole records until what is left is less than one. It returns the
longest list of records that fits and the position behind them; what is cut off there
leaves a log without a torn record, which further records continue.
-/
namespace MiniDb.Wal
open ByteString Outcome CrashFiles Stateful SegmentedWalStorage Wal.LogManager
open List hiding modify

/-! The records that fit. -/

def totalSize (records : List LogRecord) : Nat := (records.map encodedSize).sum

/-- `kept` is the longest part of the records from their first on that takes no more
than `count` bytes. -/
structure LongestFit (records : List LogRecord) (count : Nat) (kept : List LogRecord) : Prop where
  start : kept <+: records
  fits : totalSize kept ≤ count
  longest : ∀ other, other <+: records → totalSize other ≤ count → other.length ≤ kept.length

theorem totalSize_cons (r : LogRecord) (rs : List LogRecord) :
    totalSize (r :: rs) = encodedSize r + totalSize rs := rfl

namespace Encodes
variable {lsn : Nat} {rs : List LogRecord} {bs : List UInt8}

theorem totalSize_eq (h : Encodes lsn rs bs) : totalSize rs = bs.length := by
  induction h with
  | nil => rfl
  | cons henc _ _ ih => rw [totalSize_cons, length_append, length_of_encode henc, ih]

theorem longestFit (h : Encodes lsn rs bs) (cnt : Nat) :
    LongestFit rs cnt (recordsBefore (lsn + cnt) rs) := by
  induction h generalizing cnt with
  | nil => exact ⟨⟨[], rfl⟩, Nat.zero_le _, fun other ho _ => ho.length_le⟩
  | cons henc hlsn hr ih =>
    rename_i lsn r enc rs bs
    have hz := length_of_encode henc
    rw [recordsBefore_cons henc hlsn hr]
    split
    · rename_i hw
      obtain ⟨hs, hf, hl⟩ := ih (cnt - enc.length)
      refine ⟨prefix_cons_inj _ |>.mpr hs, ?_, ?_⟩
      · rw [totalSize_cons]
        omega
      · intro other ho hle
        cases other with
        | nil => exact Nat.zero_le _
        | cons fst rest =>
          obtain ⟨rfl, hr⟩ := cons_prefix_cons.mp ho
          rw [totalSize_cons] at hle
          exact Nat.succ_le_succ (hl rest hr (by omega))
    · rename_i hc
      refine ⟨⟨_, rfl⟩, Nat.zero_le _, ?_⟩
      intro other ho hle
      cases other with
      | nil => exact Nat.zero_le _
      | cons fst rest =>
        obtain ⟨rfl, _⟩ := cons_prefix_cons.mp ho
        rw [totalSize_cons] at hle
        omega

end Encodes

variable {rs : List LogRecord}

/-- The end of the records that fit is the only end of a record that a cut can be at. -/
theorem LongestFit.at_end_iff {kept : List LogRecord} {cnt : Nat} (h : LongestFit rs cnt kept) :
    cnt = totalSize kept ↔ ∃ bef, bef <+: rs ∧ cnt = totalSize bef := by
  constructor
  · intro he
    exact ⟨kept, h.start, he⟩
  · rintro ⟨bef, hb, he⟩
    have hle := h.longest bef hb he.symm.le
    obtain ⟨more, rfl⟩ := prefix_of_prefix_length_le hb h.start hle
    have hf := h.fits
    rw [totalSize, map_append, sum_append] at hf ⊢
    rw [totalSize] at he
    omega

/-! Scans of a cut log. -/

/-- What a scanner makes of the records in the first bytes of a log, of those bytes cut
at the end it reports, and of records written behind that end. `Room` says how many
bytes there is a place for. -/
def TornTailRule (scan : List UInt8 → Result Scanned) (start : Nat) (Room : Nat → Prop) : Prop :=
  ∀ records body count, Encodes start records body → Room body.length → count ≤ body.length →
    ∃ kept, LongestFit records count kept ∧
      (∃ truncatedTail, scan (body.take count) = .ok ⟨kept, truncatedTail, start + totalSize kept⟩ ∧
        (truncatedTail = true ↔ ¬ ∃ before, before <+: records ∧ count = totalSize before)) ∧
      scan ((body.take count).take (totalSize kept)) = .ok ⟨kept, false, start + totalSize kept⟩ ∧
      ∀ more bytes, Encodes (start + totalSize kept) more bytes →
        Room (totalSize kept + bytes.length) →
        scan ((body.take count).take (totalSize kept) ++ bytes) =
          .ok ⟨kept ++ more, false, start + totalSize kept + bytes.length⟩

theorem tornTailRule_of_scansTo {scan : List UInt8 → Result Scanned} {start : Nat}
    {Room : Nat → Prop} {torn : List UInt8 → Nat → Prop} (hr : ∀ {m n}, m ≤ n → Room n → Room m)
    (htr : ∀ tail lsn, TornTail tail lsn → torn tail lsn)
    (hs : ∀ body scn, Room body.length → ScansTo torn body start scn → scan body = .ok scn) :
    TornTailRule scan start Room := by
  intro rs body cnt he hft hc
  obtain ⟨pre, tail, ht, hk, htl⟩ := he.take cnt
  have hf := he.longestFit cnt
  generalize recordsBefore (start + cnt) rs = kept at hk hf
  have hz := hk.totalSize_eq
  have hl := congrArg length ht
  rw [length_take, Nat.min_eq_left hc, length_append] at hl
  have hfr : (body.take cnt).take (totalSize kept) = pre := by
    rw [ht, hz]
    exact take_left
  refine ⟨kept, hf, ?_, ?_, ?_⟩
  · rw [← hf.at_end_iff, hz]
    have hr' : Room (body.take cnt).length := by
      refine hr ?_ hft
      rw [length_take]
      exact min_le_right _ _
    rcases htl with rfl | htl
    · refine ⟨false, hs _ _ hr' ⟨pre, [], ht, hk, rfl, rfl⟩, ?_⟩
      rw [length_nil] at hl
      simpa using hl
    · refine ⟨true, hs _ _ hr' ⟨pre, tail, ht, hk, rfl, htr _ _ htl⟩, ?_⟩
      have hp := length_pos_of_ne_nil (tornTail_stops htl).1
      simp only [true_iff]
      omega
  · rw [hfr]
    refine hs _ _ (hr (by omega) hft) ⟨pre, [], (append_nil _).symm, hk, ?_, rfl⟩
    rw [hz]
  · intro more bs hm hsp
    rw [hfr]
    rw [hz] at hm hsp ⊢
    refine hs _ _ ?_ ⟨pre ++ bs, [], (append_nil _).symm, hk.append hm, ?_, rfl⟩
    · rw [length_append]
      exact hsp
    · rw [length_append, add_assoc]

/-- The single file: the record data behind its header. -/
def scanFileBody (body : List UInt8) : Result Scanned := do
  let result ← scanWalFile (encodeWalFileHeader ++ body)
  return ⟨result.records, result.truncatedTail, result.validBytes⟩

/-- The last segment: the record data behind its header. -/
def scanSegmentBody (header : WalSegmentHeader) (body : List UInt8) : Result Scanned := do
  let result ← scanOneSegment header (checkedBlock header.layout ++ body) true
  return ⟨result.records, result.truncatedTail, result.validEnd⟩

theorem file_tornTailRule : TornTailRule scanFileBody walHeaderSize fun _ => True := by
  refine tornTailRule_of_scansTo (fun _ h => h) (fun _ _ h => h) fun body scn _ hs => ?_
  rw [scanFileBody, scanWalFile_ok.mpr ⟨scn, hs, rfl⟩]
  rfl

theorem segment_tornTailRule {hdr : WalSegmentHeader} (hf : hdr.WellFormed) (hr : hdr.InRange) :
    TornTailRule (scanSegmentBody hdr) hdr.startLsn fun size =>
      size ≤ hdr.payloadCapacity ∧ hdr.startLsn + size < 2 ^ 64 := by
  refine tornTailRule_of_scansTo (fun hle h => ⟨hle.trans h.1, by omega⟩)
    (fun _ _ h => segmentTornTail_of_tornTail h) fun body scn hm hs => ?_
  have hn := (scanOneSegment_ok (encodeWalSegmentHeader_ok.mpr ⟨hf, rfl⟩) hr hm.1
    hm.2).mpr ⟨scn, hs, fun _ => (rfl : true = true), rfl⟩
  rw [scanSegmentBody, hn]
  rfl

/-! Truncating. -/

/-- A manager without a buffer that knows the log on disk up to a record cut short:
`tail` stands behind the records. -/
inductive TornDisk (s : LogState) (records : List LogRecord) (stop : Nat) (tail : List UInt8) : Prop
  | file {file : SyncedFile} {body : List UInt8} (hlegacy : s.manager.segmented = none)
      (hfound : s.world.volume.legacy.current = some file)
      (hbytes : file.bytes = encodeWalFileHeader ++ (body ++ tail))
      (hencodes : Encodes walHeaderSize records body)
      (hstop : stop = walHeaderSize + body.length)
  | segments {manifest : WalSegmentManifest} {directory : Directory} {front : List Stretch}
    {last : Stretch}
      (hsegmented : s.manager.segmented = some (reopened .published manifest front last tail))
      (hdirectory : s.world.volume.directory? .published = some directory)
      (hfound : Found manifest directory front last tail)
      (hrecords : layoutRecords (front ++ [last]) = records)
      (hstop : stop = last.stop)

structure KnowsTail (s : LogState) (records : List LogRecord) (stop : Nat) (tail : List UInt8) :
    Prop where
  disk : TornDisk s records stop tail
  empty : s.manager.buffer = []
  nextLsn : s.manager.nextLsn = stop
  truncatedTail : s.manager.truncatedTail = !tail.isEmpty

variable {tail : List UInt8}

/-- A log that can be scanned is opened with the records and the torn tail of the scan. -/
theorem openLegacy_knowsTail {cfg : LogConfig} {w : World} {file : SyncedFile}
    {res : WalScanResult} (hm : cfg.openMode = .eagerValidated)
    (hf : w.volume.legacy.current = some file) (hs : scanWalFile file.bytes = .ok res) :
    ∃ mgr tail, openLegacy cfg w = .ok mgr w ∧
      KnowsTail ⟨mgr, w⟩ res.records res.validBytes tail := by
  obtain ⟨body, hb⟩ : ∃ body, file.bytes = encodeWalFileHeader ++ body := by
    have hh := hs
    simp only [scanWalFile, scanDescriptor, ok_iff] at hh
    obtain ⟨_, _, _, hh, _⟩ := hh
    exact ⟨_, by rw [← eq_of_validateWalFileHeader hh, take_append_drop]⟩
  have ho : openLegacy cfg w = .ok (loaded (blank cfg) res) w := by
    rw [openLegacy_existing hf (by rw [hb, length_withFileHeader, walHeaderSize]; omega), hm]
    exact run_fromExcept_ok.mpr ⟨by rw [loadExistingWal, hs]; rfl, rfl⟩
  rw [hb] at hs
  obtain ⟨scn, ⟨front, tail, rfl, he, hst, ht⟩, rfl⟩ := scanWalFile_ok.mp hs
  refine ⟨_, tail, ho, .file rfl hf hb he hst, rfl, rfl, ?_⟩
  show scn.truncatedTail = _
  cases hc : scn.truncatedTail with
  | true =>
    rw [hc, if_pos rfl] at ht
    simpa using (tornTail_stops ht).1
  | false => simpa [hc] using ht

def commitRecord : LogRecord := ⟨.commit, 1, 0xFFFFFFFFFFFFFFFF, [], 64⟩

/-- A log of one record with a stray byte behind it. -/
theorem openLegacy_knowsTail_stray : ∃ bs w mgr tail, encodeWalRecord commitRecord 64 = .ok bs ∧
    w.volume.legacy.current.map (·.bytes) = some (encodeWalFileHeader ++ (bs ++ [7])) ∧
    openLegacy ⟨4096, .eagerValidated, .legacySingleFile, 128⟩ w = .ok mgr w ∧
      KnowsTail ⟨mgr, w⟩ [commitRecord] (64 + bs.length) tail := by
  obtain ⟨bs, hencode⟩ : ∃ bs, encodeWalRecord commitRecord 64 = .ok bs :=
    ⟨_, encodeWalRecord_ok.mpr ⟨by decide, rfl⟩⟩
  have hscan : scanWalFile (encodeWalFileHeader ++ (bs ++ [7])) =
      .ok ⟨[commitRecord], true, 64 + bs.length, 64 + (bs ++ [7]).length, 64⟩ :=
    scanWalFile_ok.mpr ⟨⟨[commitRecord], true, 64 + bs.length⟩,
      ⟨bs, [7], rfl, .single hencode, rfl, .inl ⟨by decide, by decide⟩⟩, rfl⟩
  obtain ⟨mgr, tail, hopen, hknows⟩ := @openLegacy_knowsTail
    ⟨4096, .eagerValidated, .legacySingleFile, 128⟩
    ⟨{ Volume.empty with legacy := ⟨some ⟨_, 0⟩, []⟩ }, [], true⟩ _ _ rfl rfl hscan
  exact ⟨bs, _, mgr, tail, hencode, rfl, hopen, hknows⟩

theorem truncateActiveTail_run {w : World} {man : WalSegmentManifest} {dir : Directory}
    {pre : List Stretch} {last : Stretch} (h : Found man dir pre last tail)
    (hd : w.volume.directory? .published = some dir) (hne : tail ≠ []) :
    ∃ w' dir', SegmentedWalStorage.truncateActiveTail ⟨reopened .published man pre last tail, w⟩ =
        .ok () ⟨reopened .published man pre last [], w'⟩ ∧
      w'.volume.directory? .published = some dir' ∧ Found man dir' pre last [] := by
  obtain ⟨clean, hc, hm, ho⟩ := h.clean
  obtain ⟨file, hf, hb⟩ := h.file
  have hs := hc.last_sound
  have hst := hs.stop
  have hv : last.stop < 2 ^ 64 - 1 := hs.space
  have hft := hs.fits
  have hcp := hc.inRange.payloadCapacity
  have hz : addWord segmentHeaderSize (subWord last.stop last.start) = segmentHeaderSize +
    last.body.length := by
    rw [subWord_of_le (by omega) (by omega), hst, Nat.add_sub_cancel_left]
    refine addWord_of_lt ?_
    simp only [segmentHeaderSize]
    omega
  have hr : (reopened .published man pre last tail).truncatedTail = true := by
    simpa [reopened] using hne
  have hl : (reopened .published man pre last tail).segments.getLast? =
      some (last.remembered tail true) := getLast?_remembered pre last tail
  have ha : (reopened .published man pre last tail).activeDescriptor = some last.id := rfl
  have ht : updateLast (rememberedSegments pre last tail) (fun info => { info with
      physicalBytes := segmentHeaderSize + last.body.length
      logicalEndLsn := last.stop }) = rememberedSegments pre last [] := by
    rw [rememberedSegments, updateLast_concat]
    rfl
  refine ⟨(((⟨reopened .published man pre last tail, w⟩ : StorageState).after
      (.truncateSegment .published last.id (segmentHeaderSize + last.body.length))).after
      (.syncSegment .published last.id)).world,
    (dir.changeSegment last.id
      (·.truncate (segmentHeaderSize + last.body.length))).changeSegment last.id
      (·.sync), ?_, ?_, ?_⟩
  · refine (run_bind (rfl : (get : StorageM StorageState) _ = .ok _ _)).trans ?_
    simp only [hr, if_true, hl, ha]
    refine (run_bind (emit_run _ _)).trans ((run_bind (emit_run _ _)).trans ?_)
    have hp : addWord segmentHeaderSize (subWord (reopened .published man pre last tail).logicalEnd
        (last.remembered tail true).header.startLsn) = segmentHeaderSize + last.body.length := hz
    simp only [modifyStorage, run_eq, hp]
    show EStateM.Result.ok () (StorageState.mk { reopened .published man pre last tail with
      segments := updateLast (rememberedSegments pre last tail) (fun info => { info with
        physicalBytes := segmentHeaderSize + last.body.length
        logicalEndLsn := last.stop })
      truncatedTail := false } _) = _
    rw [ht]
    rfl
  · exact StorageState.directory?_after (StorageState.directory?_after
      (s := ⟨reopened .published man pre last tail, w⟩) hd
      (.truncateSegment .published last.id (segmentHeaderSize + last.body.length)) _ fun _ => rfl)
      (.syncSegment .published last.id) _ fun _ => rfl
  · refine ⟨⟨clean, hc, hm, fun id hi => ?_⟩,
      ⟨(file.truncate (segmentHeaderSize + last.body.length)).sync, ?_, ?_⟩,
      hs.untorn⟩
    · rw [Directory.segment_changeSegment, if_neg hi, Directory.segment_changeSegment, if_neg hi,
        ho id hi]
    · rw [Directory.segment_changeSegment, if_pos rfl, Directory.segment_changeSegment, if_pos rfl,
        Entry.current_update, Entry.current_update, hf]
      rfl
    · show file.bytes.take (segmentHeaderSize + last.body.length) = _
      rw [hb, append_nil, ← last.length_file]
      exact take_left

/-- Where nothing is torn a scan finds the records. -/
theorem KnowsTail.scan {s : LogState} {stop : Nat} (h : KnowsTail s rs stop []) :
    ∃ start, LogManager.scan s = .ok ⟨rs, false, stop, stop, start⟩ := by
  have hsc : ∀ res, LogManager.scanDisk s = .ok res → LogManager.scan s = .ok res := by
    intro res hr
    rw [LogManager.scan, LogManager.scanIncludingBuffer, hr, ok_bind, if_pos (.inr h.empty)]
    rfl
  cases h.disk with
  | file hg hf hb he hs =>
    rw [append_nil] at hb
    refine ⟨walHeaderSize, hsc _ ?_⟩
    simp only [LogManager.scanDisk, hg, LogManager.scanLegacy, LogManager.legacyBytes, hf, ok_bind,
      hb, scanWalFile_whole he, hs]
  | segments hsg hdir hf hrc hs =>
    rename_i man dir pre last
    obtain ⟨clean, hc, _, _⟩ := hf.clean
    obtain ⟨fst, lay, hl⟩ := exists_first pre last
    have hn : Scans (reopened .published man pre last []) s.world.volume pre last [] :=
      ⟨head?_remembered pre last [], rfl, scanSegments_remembered hf hdir⟩
    refine ⟨fst.start, hsc _ ?_⟩
    simp only [LogManager.scanDisk, hsg, hn.scan_eq hc hl, hrc, hs]
    rfl

/-- What is cut off is the torn record; everything before it is scanned as it was. -/
theorem KnowsTail.truncate {s : LogState} {stop : Nat} (h : KnowsTail s rs stop tail) :
    ∃ s', truncateToLastValidRecord s = .ok () s' ∧ KnowsTail s' rs stop [] := by
  by_cases hw : tail = []
  · subst hw
    refine ⟨s, ?_, h⟩
    refine run_get_bind.trans ?_
    rw [if_pos (show s.manager.truncatedTail = false from h.truncatedTail)]
    rfl
  · have ht : ¬ s.manager.truncatedTail = false := by
      rw [h.truncatedTail]
      simpa using hw
    have hr : ∀ s₁, cutTail s = .ok () s₁ →
        truncateToLastValidRecord s = .ok () { s₁ with manager := { s₁.manager with
          truncatedTail := false
          bufferStartOffset := s₁.manager.nextLsn } } := by
      intro s₁ hc
      refine run_get_bind.trans ?_
      rw [if_neg ht]
      exact run_bind hc
    cases h.disk with
    | file hl hf hb he hs =>
      rename_i file body
      have hc : cutTail s = .ok () ⟨s.manager, { s.world with
          volume := (s.world.volume.perform (.truncateLegacy stop)).perform .syncLegacy
          journal := s.world.journal ++ [.truncateLegacy stop] ++ [.syncLegacy] }⟩ := by
        refine run_get_bind.trans ?_
        rw [hl, h.nextLsn]
        rfl
      refine ⟨_, hr _ hc, ⟨?_, h.empty, h.nextLsn, rfl⟩⟩
      refine @TornDisk.file _ rs stop [] (file.truncate stop).sync body hl ?_ ?_ he hs
      · show ((s.world.volume.legacy.update _).update _).current = _
        rw [Entry.current_update, Entry.current_update, hf]
        rfl
      · show file.bytes.take stop = _
        rw [hb, ← append_assoc, append_nil, hs]
        exact take_left' (length_append.trans rfl)
    | segments hsegd hd hf hrecs hs =>
      rename_i man dir pre last
      obtain ⟨w', dir', hc, hd', hf'⟩ := truncateActiveTail_run hf hd hw
      have hc' : cutTail s = .ok () ⟨{ s.manager with
          segmented := some (reopened .published man pre last []) }, w'⟩ := by
        refine run_get_bind.trans ?_
        rw [hsegd]
        simp only [onSegments, onPart, hc]
      refine ⟨_, hr _ hc', ⟨?_, h.empty, h.nextLsn, rfl⟩⟩
      exact .segments rfl hd' hf' hrecs hs

/-- A log cut anywhere, in a single file and in the last segment, and what its manager
makes of the torn record. -/
theorem torn_tail_rule :
    TornTailRule scanFileBody walHeaderSize (fun _ => True) ∧
    (∀ header : WalSegmentHeader, header.WellFormed → header.InRange →
      TornTailRule (scanSegmentBody header) header.startLsn fun size =>
        size ≤ header.payloadCapacity ∧ header.startLsn + size < 2 ^ 64) ∧
    ∀ s rs stop tail, KnowsTail s rs stop tail →
      ∃ s' start, truncateToLastValidRecord s = .ok () s' ∧
        scan s' = .ok ⟨rs, false, stop, stop, start⟩ := by
  refine ⟨file_tornTailRule, fun _ hformed hrange => segment_tornTailRule hformed hrange, ?_⟩
  intro s rs stop tail h
  obtain ⟨s', htruncate, hknows⟩ := h.truncate
  obtain ⟨start, hscan⟩ := hknows.scan
  exact ⟨s', start, htruncate, hscan⟩

/-- One record cut in the middle, in the file and in a first segment, and a file that ends
in one stray byte. -/
theorem torn_tail_rule_small :
    ∃ bs, encodeWalRecord ⟨.commit, 1, 0xFFFFFFFFFFFFFFFF, [], 64⟩ 64 = .ok bs ∧
      (∃ truncatedTail, scanFileBody (bs.take 20) = .ok ⟨[], truncatedTail, 64⟩) ∧
      (∃ truncatedTail, scanSegmentBody (Stretch.initial 64 128).info.header (bs.take 20) =
        .ok ⟨[], truncatedTail, 64⟩) ∧ ∃ s' start, truncateToLastValidRecord
          ⟨{ blank smallSegments with truncatedTail := true },
            ⟨{ Volume.empty with legacy := ⟨some ⟨encodeWalFileHeader ++ [7], 65⟩, []⟩ }, [],
              true⟩⟩ = .ok () s' ∧
        scan s' = .ok ⟨[], false, 64, 64, start⟩ := by
  have hencode : encodeWalRecord ⟨.commit, 1, 0xFFFFFFFFFFFFFFFF, [], 64⟩ 64 = .ok _ :=
    encodeWalRecord_ok.mpr ⟨by decide, rfl⟩
  have hlength := length_of_encode hencode
  have hnone : ∀ kept, LongestFit [⟨.commit, 1, 0xFFFFFFFFFFFFFFFF, [], 64⟩] 20 kept →
    kept = [] := by
    intro kept hfit
    have hsize := hfit.fits
    rcases prefix_cons_iff.mp hfit.start with rfl | ⟨rest, rfl, hrest⟩
    · rfl
    · rw [prefix_nil] at hrest
      subst hrest
      exact absurd hsize (by decide)
  have hencodes : Encodes 64 [⟨.commit, 1, 0xFFFFFFFFFFFFFFFF, [], 64⟩] _ := Encodes.single hencode
  refine ⟨_, hencode, ?_, ?_, ?_⟩
  · obtain ⟨kept, hfit, ⟨truncatedTail, hscan, _⟩, _⟩ :=
      torn_tail_rule.1 _ _ 20 hencodes trivial (by rw [hlength]; decide)
    obtain rfl := hnone kept hfit
    exact ⟨truncatedTail, hscan⟩
  · obtain ⟨kept, hfit, ⟨truncatedTail, hscan, _⟩, _⟩ :=
      torn_tail_rule.2.1 (Stretch.initial 64 128).info.header (by decide)
        ⟨by decide, by decide, by decide, by decide⟩
        _ _ 20 hencodes (by rw [hlength]; decide) (by rw [hlength]; decide)
    obtain rfl := hnone kept hfit
    exact ⟨truncatedTail, hscan⟩
  · exact torn_tail_rule.2.2 _ [] 64 [7] ⟨.file rfl rfl rfl .nil rfl, rfl, rfl, rfl⟩

end MiniDb.Wal
