import MiniDb.SegmentOpening

/-!
Segments after a crash. A file that is cut anywhere behind its header holds the records
that are whole in it and, behind them, at most one record cut short, which is what a
scan of the last segment passes over.
-/
namespace MiniDb.Wal
open ByteString Outcome CrashFiles Stateful SegmentedWalStorage Directory Entry Volume Option
open List hiding rotate
variable {ent : Entry SyncedFile} {hdr : List UInt8}

/-- A crash after any number of the effects that lead from one world to another. -/
def Interrupted (before after : World) (volume : Volume) : Prop :=
  ∃ count, (((after.journal.drop before.journal.length).take count).foldl Volume.perform
    before.volume).Survives volume

variable {vol : Volume}

theorem World.Emits.interrupted {bef aft : World} {effs : List Effect} (h : bef.Emits aft effs) :
    Interrupted bef aft vol ↔
      ∃ cnt, ((effs.take cnt).foldl Volume.perform bef.volume).Survives vol := by
  rw [Interrupted, h.journal, drop_left]

/-! Cutting records. -/

theorem SegmentTornTail.take {tail : List UInt8} {lsn : Nat} (h : SegmentTornTail tail lsn)
    (cnt : Nat) : tail.take cnt = [] ∨ SegmentTornTail (tail.take cnt) lsn := by
  by_cases hs : (tail.take cnt).length < recordHeaderSize
  · by_cases he : tail.take cnt = []
    · exact .inl he
    · exact .inr (.inl ⟨length_pos_of_ne_nil he, hs⟩)
  · have hle := not_lt.mp hs
    have hc : recordHeaderSize ≤ cnt := by
      rw [length_take] at hle
      omega
    have hl : readUint32 (tail.take cnt) 8 = readUint32 tail 8 :=
      readLe_take (Nat.le_trans (by decide) hc)
    rcases h with ⟨_, ht⟩ | ⟨hz, hm, _, hn⟩
    · rw [length_take] at hle
      omega
    · refine .inr (.inr ?_)
      rw [hl]
      refine ⟨hz, hm, hle, Nat.lt_of_le_of_lt ?_ hn⟩
      rw [length_take]
      exact min_le_right _ _

/-- The records that are whole before a position. -/
def recordsBefore (stop : Nat) (records : List LogRecord) : List LogRecord :=
  records.filter fun record => record.lsn + encodedSize record ≤ stop

namespace Encodes
variable {lsn : Nat} {rs : List LogRecord} {bs : List UInt8}

theorem stop_le (h : Encodes lsn rs bs) {r : LogRecord} (hm : r ∈ rs) :
    r.lsn + encodedSize r ≤ lsn + bs.length := by
  obtain ⟨bef, enc, aft, rfl, hp, he⟩ := h.recordAt hm
  rw [length_append, length_append, length_of_encode he]
  omega

/-- The first record is whole before a cut, or no record is. -/
theorem recordsBefore_cons {rec : LogRecord} {enc : List UInt8}
    (he : encodeWalRecord rec lsn = .ok enc) (hl : rec.lsn = lsn)
    (hr : Encodes (lsn + enc.length) rs bs) (cnt : Nat) :
    recordsBefore (lsn + cnt) (rec :: rs) = if enc.length ≤ cnt
      then rec :: recordsBefore (lsn + enc.length + (cnt - enc.length)) rs else [] := by
  have hz := length_of_encode he
  split
  · rename_i hw
    rw [add_assoc, Nat.add_sub_cancel' hw]
    exact filter_cons_of_pos (decide_eq_true (by omega))
  · refine filter_eq_nil_iff.mpr fun r hm hs => ?_
    have hle := of_decide_eq_true hs
    rcases mem_cons.mp hm with rfl | hm
    · omega
    · have := (hr.lsn_le hm).1
      omega

/-- Bytes of records that are cut somewhere hold whole records and one cut short. -/
theorem take (h : Encodes lsn rs bs) (cnt : Nat) :
    ∃ kept torn, bs.take cnt = kept ++ torn ∧ Encodes lsn (recordsBefore (lsn + cnt) rs) kept ∧
      (torn = [] ∨ TornTail torn (lsn + kept.length)) := by
  induction h generalizing cnt with
  | nil => exact ⟨[], [], take_nil, .nil, .inl rfl⟩
  | cons henc hlsn hrest ih =>
    rename_i lsn r enc rs bs
    rw [recordsBefore_cons henc hlsn hrest]
    split
    · rename_i hw
      obtain ⟨kept, torn, htk, hk, hr⟩ := ih (cnt - enc.length)
      refine ⟨enc ++ kept, torn, ?_, .cons henc hlsn hk, ?_⟩
      · rw [take_append, take_of_length_le hw, htk, append_assoc]
      · rw [length_append, ← add_assoc]
        exact hr
    · rename_i hw
      have hi := Nat.le_of_not_le hw
      have hl : (enc.take cnt).length = cnt := by
        rw [length_take, Nat.min_eq_left hi]
      refine ⟨[], enc.take cnt, ?_, .nil, ?_⟩
      · rw [nil_append, take_append_of_le_length hi]
      · by_cases he : enc.take cnt = []
        · exact .inl he
        · have hp := length_pos_of_ne_nil he
          refine .inr ?_
          by_cases hs : cnt < recordHeaderSize
          · exact .inl ⟨hp, by omega⟩
          · have hh := header_of_encode henc []
            rw [append_nil] at hh
            have ht : readUint32 (enc.take cnt) 8 = enc.length := by
              rw [← hh.2]
              exact readLe_take (Nat.le_trans (by decide) (not_lt.mp hs))
            refine .inr ⟨(recordHeader_take (not_lt.mp hs)).mpr hh.1, ?_⟩
            rw [ht, hl]
            exact not_le.mp hw

end Encodes

/-! Cutting segments. -/

/-- The records that are whole in the first bytes of the file of a segment. -/
def Stretch.recordsWithin (stretch : Stretch) (size : Nat) : List LogRecord :=
  recordsBefore (stretch.start + (size - segmentHeaderSize)) stretch.records

variable {dir : Directory}

theorem Stretch.Sound.recordsWithin_all {str : Stretch} {cap size : Nat} (h : str.Sound dir cap)
    (hs : segmentHeaderSize + str.body.length ≤ size) : str.recordsWithin size = str.records :=
  filter_eq_self.mpr fun _ hm => decide_eq_true ((h.encodes.stop_le hm).trans (by omega))

/-- A segment whose file is cut behind its header. -/
theorem Stretch.Sound.cut {str : Stretch} {cap cnt : Nat} {tail : List UInt8}
    (h : str.Sound dir cap) (htl : TornBehind str cap tail) (hc : segmentHeaderSize ≤ cnt) :
    ∃ (cut : Stretch) (torn : List UInt8),
      (str.file.bytes ++ tail).take cnt = cut.file.bytes ++ torn ∧
      cut.records = str.recordsWithin cnt ∧ cut.info.header = str.info.header ∧
      TornBehind cut cap torn ∧
      ∀ dir', dir'.segment cut.id = ⟨some cut.file, []⟩ → cut.Sound dir' cap := by
  have hb : (checkedBlock str.info.header.layout).length = segmentHeaderSize :=
    length_checkedBlock rfl
  obtain ⟨kept, torn, ht, hk, hr, hs⟩ : ∃ kept torn,
      (str.body ++ tail).take (cnt - segmentHeaderSize) = kept ++ torn ∧
      Encodes str.start (str.recordsWithin cnt) kept ∧
      (torn = [] ∨ SegmentTornTail torn (str.start + kept.length)) ∧
      kept.length ≤ str.body.length := by
    by_cases hi : cnt - segmentHeaderSize ≤ str.body.length
    · rw [take_append_of_le_length hi]
      obtain ⟨kept, torn, ht, hk, hr⟩ := h.encodes.take (cnt - segmentHeaderSize)
      have hl := congrArg length ht
      rw [length_take, length_append] at hl
      exact ⟨kept, torn, ht, hk, hr.imp_right segmentTornTail_of_tornTail, by omega⟩
    · -- the cut is in the tail: every record is whole
      refine ⟨str.body, tail.take (cnt - segmentHeaderSize - str.body.length), ?_, ?_, ?_,
        le_rfl⟩
      · rw [take_append, take_of_length_le (by omega)]
      · rw [h.recordsWithin_all (by omega)]
        exact h.encodes
      · rcases htl.torn with rfl | hr
        · exact .inl take_nil
        · exact hr.take _
  have hl := congrArg length ht
  rw [length_take, length_append, length_append] at hl
  have hf := htl.fits
  have hp := htl.space
  have hst := h.stop
  have hv : str.stop < 2 ^ 64 - 1 := h.space
  refine ⟨⟨{ str.info with
      logicalEndLsn := str.start + kept.length
      physicalBytes := segmentHeaderSize + kept.length }, str.recordsWithin cnt, kept,
    segmentHeaderSize + kept.length⟩, torn, ?_, rfl, rfl, ⟨hr, ?_, ?_⟩, fun dir' he => ?_⟩
  · show (checkedBlock str.info.header.layout ++ str.body ++ tail).take cnt =
      checkedBlock str.info.header.layout ++ kept ++ torn
    rw [append_assoc, take_append, take_of_length_le (by omega), hb, ht, append_assoc]
  · show kept.length + torn.length ≤ cap
    omega
  · show str.start + kept.length + torn.length < 2 ^ 64
    omega
  · refine ⟨h.wellFormed, h.inRange, h.previous, h.payloadCapacity, he, hk, ?_, rfl, ?_, rfl,
      Nat.le_add_right _ _⟩
    · show kept.length ≤ cap
      omega
    · show str.start + kept.length < 2 ^ 64 - 1
      omega

variable {man : WalSegmentManifest} {dir' : Directory}

/-- The log is found again when its last segment was cut and everything else is as it was. -/
theorem Found.cut {pre : List Stretch} {last : Stretch} {tail : List UInt8} {file : SyncedFile}
    {cnt : Nat} (h : Found man dir pre last tail) (hl : (dir.segment last.id).current = some file)
    (hn : segmentHeaderSize ≤ cnt) (hm : dir'.manifest = dir.manifest)
    (hr : ∀ id, man.firstRetainedSegmentId ≤ id → id ≠ last.id → dir'.segment id = dir.segment id)
    (hls : dir'.segment last.id = ⟨some (file.truncate cnt).sync, []⟩) :
    ∃ last' torn, Found man dir' pre last' torn ∧
      last'.records = last.recordsWithin cnt ∧ last'.start = last.start := by
  obtain ⟨clean, hc, hsm, ho⟩ := h.clean
  obtain ⟨fd, hf, hb⟩ := h.file
  obtain rfl := some.inj (hl.symm.trans hf)
  obtain ⟨last', torn, hk, hrc, hh, htr, hs⟩ := hc.last_sound.cut h.torn hn
  have hi : last'.id = last.id := congrArg WalSegmentHeader.segmentId hh
  have ht : last'.start = last.start := congrArg WalSegmentHeader.startLsn hh
  refine ⟨last', torn, ⟨⟨dir'.setSegment last'.id ⟨some last'.file, []⟩, ?_, rfl, ?_⟩, ?_, htr⟩,
    hrc, ht⟩
  · refine hc.replaceLast hi ht (hs _ ?_) ?_ ?_
    · rw [segment_setSegment, if_pos rfl]
    · intro id hle hne
      rw [segment_setSegment, if_neg (by rw [hi]; exact hne), hr id hle hne, ho id hne]
    · rw [manifest_setSegment, hm, hsm]
  · intro id hne
    rw [segment_setSegment, if_neg hne]
  · rw [hi, hls]
    refine ⟨_, rfl, ?_⟩
    show file.bytes.take cnt = _
    rw [hb, hk]

/-! A new segment and a crash. -/

/-- The effects that make a new segment file. -/
def newSegmentEffects (place : Place) (id : Nat) (header : List UInt8) : List Effect :=
  [.createSegment place id, .writeSegment place id 0 header, .syncSegment place id,
    .syncDirectory place]

/-- What is left of a segment file that was being made: nothing, or part of its header. -/
def PartlyMade (entry : Entry SyncedFile) (header : List UInt8) : Prop :=
  entry = .absent ∨ ∃ count, entry = ⟨some (SyncedFile.mk (header.take count) 0).sync, []⟩

/-- What a crash leaves of a directory that was getting a new segment. -/
structure NewSegmentLeft (directory directory' : Directory) (id : Nat) (header : List UInt8) :
    Prop where
  manifest : Entry.Survives SyncedFile.Survives directory.manifest directory'.manifest
  others : ∀ id', id' ≠ id →
    Entry.Survives SyncedFile.Survives (directory.segment id') (directory'.segment id')
  made : PartlyMade (directory'.segment id) header

/-- Part of the header is in the file, which its directory does not know yet. -/
theorem newSegmentLeft_of_made {aft : Directory} {id : Nat} (count synced : Nat)
    (ho : ∀ id', id' ≠ id → aft.segment id' = dir.segment id')
    (hs : aft.segment id = ⟨some ⟨hdr.take count, synced⟩, [none]⟩)
    (hm : aft.manifest = dir.manifest) : ∀ dir', aft.Survives dir' →
      NewSegmentLeft dir dir' id hdr := by
  refine fun dir' h => ⟨hm ▸ h.manifest, fun id' hne => ho id' hne ▸ h.segments id', ?_⟩
  have hk := h.segments id
  rw [hs] at hk
  rcases survives_made hk with ha | ⟨file, ⟨cnt, _, rfl⟩, he⟩
  · exact .inl ha
  · refine .inr ⟨min cnt count, ?_⟩
    rw [he, ← take_take]
    rfl

theorem newSegment_left {earlier : List (Option Directory)} {id : Nat}
    (hv : vol.published = ⟨some dir, earlier⟩) (ha : dir.segment id = .absent) (count : Nat) :
    ∃ aft, (((newSegmentEffects .published id hdr).take count).foldl Volume.perform vol).published =
        ⟨some aft, earlier⟩ ∧ ∀ dir', aft.Survives dir' → NewSegmentLeft dir dir' id hdr := by
  obtain ⟨_, _, _⟩ := vol
  obtain rfl := hv
  have hp : (dir.putSegment id (some .empty)).segment id = ⟨some .empty, [none]⟩ := by
    rw [putSegment, segment_setSegment, if_pos rfl, ha]
    rfl
  have ho : ∀ id', id' ≠ id → (dir.putSegment id (some .empty)).segment id' = dir.segment id' := by
    intro id' hne
    rw [putSegment, segment_setSegment, if_neg hne]
  have hw : SyncedFile.empty.write 0 hdr = ⟨hdr.take hdr.length, 0⟩ := by
    simp [SyncedFile.write, SyncedFile.empty]
  rcases count with _ | _ | _ | _ | count
  · refine ⟨dir, rfl, fun dir' h => ⟨h.manifest, fun id' _ => h.segments id', ?_⟩⟩
    have hn := h.segments id
    rw [ha] at hn
    exact .inl (survives_absent hn)
  · exact ⟨_, rfl, newSegmentLeft_of_made 0 0 ho hp rfl⟩
  · refine ⟨_, rfl, newSegmentLeft_of_made hdr.length 0 (fun id' hne => ?_) ?_ rfl⟩
    · rw [segment_changeSegment, if_neg hne, ho id' hne]
    · rw [segment_changeSegment, if_pos rfl, hp, update, map_some, hw]
  · refine ⟨_, rfl, newSegmentLeft_of_made hdr.length (hdr.take hdr.length).length
      (fun id' hne => ?_) ?_ rfl⟩
    · rw [segment_changeSegment, if_neg hne, segment_changeSegment, if_neg hne, ho id' hne]
    · rw [segment_changeSegment, if_pos rfl, segment_changeSegment, if_pos rfl, hp]
      simp only [update, map_some, hw]
      rfl
  · have ht : (newSegmentEffects .published id hdr).take (count + 4) =
        newSegmentEffects .published id hdr := take_of_length_le (by simp [newSegmentEffects])
    rw [ht]
    refine ⟨dir.withSegment id hdr, rfl, fun dir' h => ⟨h.manifest.of_sync, ?_, ?_⟩⟩
    · intro id' hne
      have hs := h.segments id'
      rw [segment_withSegment, if_neg hne] at hs
      exact hs.of_sync
    · have hs := h.segments id
      rw [segment_withSegment, if_pos rfl] at hs
      obtain ⟨file, hf, he⟩ := survives_synced hs
      refine .inr ⟨hdr.length, ?_⟩
      rw [he, hf.of_synced le_rfl, take_length]
      rfl

/-! Rotating and a crash. -/

section
variable {man : WalSegmentManifest} {dir : Directory} {pre : List Stretch} {last : Stretch}
  {tail : List UInt8}

theorem Found.segment_absent (h : Found man dir pre last tail) {id : Nat} (hi : last.id < id) :
    dir.segment id = .absent := by
  obtain ⟨clean, hc, _, ho⟩ := h.clean
  rw [ho id hi.ne']
  exact hc.segment_absent hi

theorem Found.manifest_settled (h : Found man dir pre last tail)
    (hs : Entry.Survives SyncedFile.Survives dir.manifest ent) : ent = dir.manifest := by
  obtain ⟨clean, hc, hm, _⟩ := h.clean
  rw [hm, hc.manifestFile] at hs ⊢
  refine survives_settled ?_ hs
  rw [SyncedFile.sync, length_checkedBlock rfl]

/-- Nothing happens to a segment before the last. -/
theorem Found.segment_settled (h : Found man dir pre last tail) {id : Nat}
    (hle : man.firstRetainedSegmentId ≤ id) (hne : id ≠ last.id)
    (hs : Entry.Survives SyncedFile.Survives (dir.segment id) ent) : ent = dir.segment id := by
  obtain ⟨clean, hc, _, ho⟩ := h.clean
  rw [ho id hne] at hs ⊢
  by_cases ha : clean.segment id = .absent
  · rw [ha] at hs ⊢
    exact survives_absent hs
  · obtain ⟨str, hm, rfl⟩ := hc.only id hle ha
    rw [(hc.sound str hm).entry] at hs ⊢
    refine survives_settled ?_ hs
    rcases mem_append.mp hm with hm | hm
    · rw [SyncedFile.sync, str.length_file, ← hc.closed str hm]
      rfl
    · exact absurd (congrArg Stretch.id (mem_singleton.mp hm)) hne

end

/-- A storage on a log that its parent directory knows, with `tail` behind the last
record: the log as it was written, or as it was found after a crash. -/
structure Standing (s : StorageState) (directory : Directory) (front : List Stretch)
    (last : Stretch)
    (tail : List UInt8) (file : SyncedFile) : Prop where
  place : s.storage.place = .published
  anchored : s.world.volume.published = ⟨some directory, []⟩
  found : Found s.storage.manifest directory front last tail
  entry : directory.segment last.id = ⟨some file, []⟩
  synced : segmentHeaderSize ≤ file.synced
  back : s.storage.segments.getLast?.map (·.header) = some last.info.header
  logicalEnd : s.storage.logicalEnd = last.stop
  descriptor : ∀ id ∈ s.storage.activeDescriptor, id = last.id
  settled : s.storage.activeDescriptor = none → file.sync = file

theorem Stored.standing {s : StorageState} {pre : List Stretch} {last : Stretch}
    (h : Stored s.storage dir pre last) (hp : s.storage.place = .published)
    (ha : s.world.volume.published = ⟨some dir, []⟩) : Standing s dir pre last [] last.file := by
  refine ⟨hp, ha, h.toShelved.found, h.last_sound.entry, h.last_sound.synced, ?_, h.logicalEnd,
    h.descriptor, fun hc => ?_⟩
  · rw [h.segments, map_append, map_singleton, getLast?_concat]
    rfl
  · rw [SyncedFile.sync, last.length_file, ← h.settled hc]
    rfl

/-- The effects of a rotation. -/
def rotationEffects (storage : SegmentedWalStorage) (last : Stretch) : List Effect :=
  (if storage.activeDescriptor = none then [] else [.syncSegment .published last.id]) ++
    if last.id + 1 = 2 ^ 64 then []
    else newSegmentEffects .published (last.id + 1)
      (checkedBlock (last.next storage.manifest.payloadCapacity).info.header.layout)

/-- What a crash leaves of a directory that was being rotated: the last segment cut, or
the whole of it and behind it part of the new one. -/
structure RotationLeft (manifest : WalSegmentManifest) (directory directory' : Directory)
    (last : Stretch) (file : SyncedFile) : Prop where
  manifestFile : directory'.manifest = directory.manifest
  others : ∀ id, manifest.firstRetainedSegmentId ≤ id → id ≠ last.id → id ≠ last.id + 1 →
    directory'.segment id = directory.segment id
  ends : (directory'.segment (last.id + 1) = .absent ∧ ∃ file', file.Survives file' ∧
      directory'.segment last.id = ⟨some file', []⟩) ∨
    (last.id + 1 < 2 ^ 64 ∧ directory'.segment last.id = ⟨some file.sync, []⟩ ∧
      PartlyMade (directory'.segment (last.id + 1))
        (checkedBlock (last.next manifest.payloadCapacity).info.header.layout))

namespace Standing
variable {s : StorageState} {dir : Directory} {pre : List Stretch} {last : Stretch}
  {tail : List UInt8} {file : SyncedFile}

theorem withSegment_emits (s : StorageState) (sl : Nat) :
    s.world.Emits (s.withSegment sl).world
      (newSegmentEffects s.storage.place (newHeader s.storage sl).segmentId
        (checkedBlock (newHeader s.storage sl).layout)) := by
  refine ⟨rfl, ?_, rfl⟩
  show s.world.journal ++ [_] ++ [_] ++ [_] ++ [_] = _
  simp only [append_assoc, singleton_append]
  rfl

section
variable (h : Standing s dir pre last tail file)
include h

/-- The last segment is synchronised and closed. -/
theorem closeActive_run :
    ∃ closed directory₁, closeActive s = .ok () closed ∧ s.world.Emits closed.world
        (if s.storage.activeDescriptor = none then [] else [.syncSegment .published last.id]) ∧
      closed.storage.place = .published ∧ closed.storage.manifest = s.storage.manifest ∧
      closed.storage.segments.getLast?.map (·.header) = some last.info.header ∧
      closed.world.volume.published = ⟨some directory₁, []⟩ ∧
      directory₁.manifest = dir.manifest ∧ directory₁.segment last.id = ⟨some file.sync, []⟩ ∧
      ∀ id, id ≠ last.id → directory₁.segment id = dir.segment id := by
  have hs : s.storage.segments ≠ [] := by
    intro hn
    have hb := h.back
    rw [hn] at hb
    simp at hb
  have hb : (updateLast s.storage.segments fun last => { last with active := false }).getLast?.map
      (·.header) = some last.info.header := by
    obtain ⟨bef, info, hc⟩ := eq_nil_or_concat s.storage.segments |>.resolve_left hs
    have hb := h.back
    rw [hc, concat_eq_append, getLast?_concat] at hb
    rw [hc, concat_eq_append, updateLast_concat, getLast?_concat]
    exact hb
  refine ⟨s.closed, ?_⟩
  rw [s.closeActive_eq, StorageState.closed, if_neg hs, StorageState.flushed]
  cases hd : s.storage.activeDescriptor with
  | none =>
    refine ⟨dir, rfl, .refl _, h.place, rfl, hb, h.anchored, rfl, ?_, fun _ _ => rfl⟩
    rw [h.settled hd]
    exact h.entry
  | some id =>
    obtain rfl := h.descriptor id hd
    rw [h.place]
    refine ⟨dir.changeSegment last.id (·.sync), rfl, ⟨rfl, rfl, rfl⟩, rfl, rfl, hb, ?_, rfl,
      ?_, fun id hne => ?_⟩
    · show s.world.volume.published.update _ = _
      rw [h.anchored]
      rfl
    · rw [segment_changeSegment, if_pos rfl, h.entry]
      rfl
    · rw [segment_changeSegment, if_neg hne]

theorem rotate_emits :
    s.world.Emits (finalState rotate s).world (rotationEffects s.storage last) := by
  obtain ⟨closed, directory₁, hl, hem, hp, hm, hb, ha, _, _, ho⟩ :=
    h.closeActive_run
  obtain ⟨info, hin, hh⟩ := map_eq_some_iff.mp hb
  obtain ⟨clean, hc, _, _⟩ := h.found.clean
  have hlt : last.id < 2 ^ 64 := hc.last_sound.inRange.segmentId
  have hx : nextSegmentId closed.storage.segments = (last.id + 1) % 2 ^ 64 := by
    rw [nextSegmentId, hin]
    simp only [hh]
    rfl
  have ht : rotate s = createSegment last.stop s := by
    rw [rotate, run_get_bind, h.logicalEnd]
  by_cases he : last.id + 1 = 2 ^ 64
  · have hz : (newHeader closed.storage last.stop).segmentId = 0 := by
      rw [newHeader, hx, he, Nat.mod_self]
    have hr : createSegment last.stop s =
        .error (invalidArgument "WAL segment ID space is exhausted") closed := by
      rw [createSegment, run_bind hl, run_get_bind, if_pos hz]
      rfl
    simp only [finalState, ht, hr, rotationEffects, if_pos he, append_nil]
    exact hem
  · have hi : last.id + 1 < 2 ^ 64 := by omega
    have hn : newHeader closed.storage last.stop =
        (last.next s.storage.manifest.payloadCapacity).info.header := by
      simp only [newHeader, hx, Nat.mod_eq_of_lt hi, previousSegmentId, hin, hh, hm]
      rfl
    have hw : (newHeader closed.storage last.stop).segmentId = last.id + 1 := by rw [hn]; rfl
    have hd : closed.directory? = some directory₁ := by
      show (closed.world.volume.entry closed.storage.place).current = _
      rw [hp]
      exact congrArg current ha
    have hr := createSegment_run hl hd
      (by rw [hw, ho _ (by omega), h.found.segment_absent (Nat.lt_succ_self _)]; rfl)
      (by rw [hn]; exact (hc.next_wellFormed hi).1)
    have hmd := withSegment_emits closed last.stop
    rw [hp, hw, hn] at hmd
    simp only [finalState, ht, hr, rotationEffects, if_neg he]
    exact hem.trans hmd

/-- A crash before the new segment file is made. -/
theorem left_of_survives (hs : dir.Survives dir') :
    RotationLeft s.storage.manifest dir dir' last file := by
  refine ⟨h.found.manifest_settled hs.manifest, fun id hle hne _ =>
    h.found.segment_settled hle hne (hs.segments id), .inl ⟨?_, ?_⟩⟩
  · have hn := hs.segments (last.id + 1)
    rw [h.found.segment_absent (Nat.lt_succ_self _)] at hn
    exact survives_absent hn
  · have hl := hs.segments last.id
    rw [h.entry] at hl
    exact survives_synced hl

/-- A crash after the last segment was synchronised. -/
theorem left_of_newSegment {directory₁ : Directory}
    (hi : last.id + 1 < 2 ^ 64) (hm : directory₁.manifest = dir.manifest)
    (hls : directory₁.segment last.id = ⟨some file.sync, []⟩)
    (ho : ∀ id, id ≠ last.id → directory₁.segment id = dir.segment id)
    (hl : NewSegmentLeft directory₁ dir' (last.id + 1)
      (checkedBlock (last.next s.storage.manifest.payloadCapacity).info.header.layout)) :
    RotationLeft s.storage.manifest dir dir' last file := by
  refine ⟨h.found.manifest_settled (hm ▸ hl.manifest), fun id hle hne hn => ?_,
    .inr ⟨hi, ?_, hl.made⟩⟩
  · have hs := hl.others id hn
    rw [ho id hne] at hs
    exact h.found.segment_settled hle hne hs
  · have hs := hl.others last.id (by omega)
    rw [hls] at hs
    exact survives_settled rfl hs

theorem rotation_left (hr : Interrupted s.world (finalState rotate s).world vol) :
    ∃ dir', vol.published = ⟨some dir', []⟩ ∧
      RotationLeft s.storage.manifest dir dir' last file := by
  obtain ⟨cnt, hsr⟩ := h.rotate_emits.interrupted.mp hr
  obtain ⟨closed, directory₁, _, hem, _, _, _, ha, hm, hl, ho⟩ := h.closeActive_run
  have hp := hsr.published
  rw [rotationEffects, take_append, foldl_append] at hp
  -- before the synchronisation of the last segment nothing has happened yet
  by_cases hb : cnt = 0 ∧ s.storage.activeDescriptor ≠ none
  · obtain ⟨rfl, _⟩ := hb
    rw [Nat.zero_sub, take_zero, take_zero] at hp
    rw [show ([] : List Effect).foldl Volume.perform (([] : List Effect).foldl Volume.perform
      s.world.volume) = s.world.volume from rfl, h.anchored] at hp
    obtain ⟨dir', hd, he⟩ := survives_synced hp
    exact ⟨dir', he, h.left_of_survives hd⟩
  · have hal : (if s.storage.activeDescriptor = none then ([] : List Effect)
        else [.syncSegment .published last.id]).take cnt =
        if s.storage.activeDescriptor = none then [] else [.syncSegment .published last.id] := by
      refine take_of_length_le ?_
      split
      · exact Nat.zero_le _
      · rename_i hop
        exact Nat.one_le_iff_ne_zero.mpr fun hz => hb ⟨hz, hop⟩
    rw [hal, ← hem.volume] at hp
    by_cases hex : last.id + 1 = 2 ^ 64
    · rw [if_pos hex, take_nil] at hp
      have hp' : Entry.Survives Directory.Survives closed.world.volume.published vol.published :=
        hp
      rw [ha] at hp'
      obtain ⟨dir', hd, he⟩ := survives_synced hp'
      refine ⟨dir', he, ⟨h.found.manifest_settled (hm ▸ hd.manifest), ?_, .inl ⟨?_, ?_⟩⟩⟩
      · intro id hle hne _
        have hs := hd.segments id
        rw [ho id hne] at hs
        exact h.found.segment_settled hle hne hs
      · have hn := hd.segments (last.id + 1)
        rw [ho _ (by omega), h.found.segment_absent (Nat.lt_succ_self _)] at hn
        exact survives_absent hn
      · have hs := hd.segments last.id
        rw [hl] at hs
        exact ⟨file.sync, file.survives_sync, survives_settled rfl hs⟩
    · rw [if_neg hex] at hp
      obtain ⟨clean, hc, _, _⟩ := h.found.clean
      have hlt : last.id < 2 ^ 64 := hc.last_sound.inRange.segmentId
      have hno : directory₁.segment (last.id + 1) = .absent := by
        rw [ho _ (by omega), h.found.segment_absent (Nat.lt_succ_self _)]
      obtain ⟨aft, hf, hlf⟩ := newSegment_left ha hno _
      rw [hf] at hp
      obtain ⟨dir', hd, he⟩ := survives_synced hp
      exact ⟨dir', he, h.left_of_newSegment (by omega) hm hl ho (hlf dir' hd)⟩

end

end Standing

/-! What an opening refuses. -/

theorem discoverChain_segment {prev : Option WalSegmentInfo}
    {bef aft : List (Nat × SyncedFile)} {id : Nat} {file : SyncedFile} {infos : List WalSegmentInfo}
    (h : discoverChain man prev (bef ++ (id, file) :: aft) = .ok infos) :
    ∃ prev' info, discoverSegment man prev' id file.bytes aft.isEmpty = .ok info := by
  induction bef generalizing prev infos with
  | nil =>
    simp only [nil_append, discoverChain, bind_ok] at h
    obtain ⟨info, hi, _⟩ := h
    exact ⟨prev, info, hi⟩
  | cons ent bef ih =>
    obtain ⟨id', file'⟩ := ent
    simp only [cons_append, discoverChain, bind_ok] at h
    obtain ⟨_, _, _, hr, _⟩ := h
    exact ih hr

section
variable {pl : Place} {vol : Volume} {dir : Directory} {stg : SegmentedWalStorage}
  {man : WalSegmentManifest} {id : Nat} {file : SyncedFile}

section
variable (h : openExistingStore pl vol dir = .ok stg)
include h

theorem openExistingStore_discovers (hm : readManifest dir = .ok man) :
    ∃ infos, discoverSegments man dir = .ok infos := by
  simp only [openExistingStore, hm, ok_bind, bind_ok] at h
  obtain ⟨infos, hi, _⟩ := h
  exact ⟨infos, hi⟩

/-- Every retained file is checked; those behind it decide whether it may be torn. -/
theorem openExistingStore_segment (hmn : readManifest dir = .ok man)
    (hle : man.firstRetainedSegmentId ≤ id) (hf : (dir.segment id).current = some file) :
    ∃ prev info active, discoverSegment man prev id file.bytes active = .ok info ∧
      ((dir.segment (id + 1)).current ≠ none → active = false) := by
  obtain ⟨infos, hi⟩ := openExistingStore_discovers h hmn
  simp only [discoverSegments, bind_ok] at hi
  obtain ⟨_, _, hh⟩ := hi
  generalize hfnd : dir.listSegments.filter (fun ent =>
    decide (man.firstRetainedSegmentId ≤ ent.1)) = fd at hh
  have hm : ∀ {id' : Nat} {file' : SyncedFile}, (dir.segment id').current = some file' →
      man.firstRetainedSegmentId ≤ id' → (id', file') ∈ fd := by
    intro id' file' hc hle'
    rw [← hfnd]
    exact mem_filter.mpr ⟨mem_listSegments.mpr hc, decide_eq_true hle'⟩
  have hr : fd.Pairwise fun a b => a.1 < b.1 := by
    rw [← hfnd]
    exact dir.sorted_listSegments.filter _
  obtain ⟨bef, aft, rfl⟩ := append_of_mem (hm hf hle)
  obtain ⟨prev, info, hs⟩ := discoverChain_segment hh
  refine ⟨prev, info, _, hs, fun hn => ?_⟩
  obtain ⟨next, hn⟩ := ne_none_iff_exists'.mp hn
  rcases mem_append.mp (hm hn (by omega)) with hb | ha
  · have hlt := (pairwise_append.mp hr).2.2 _ hb _ mem_cons_self
    exact absurd hlt (not_lt.mpr (Nat.le_succ id))
  · rcases mem_cons.mp ha with heq | ha
    · exact absurd (congrArg Prod.fst heq) (Nat.succ_ne_self id)
    · simpa using ne_nil_of_mem ha

theorem openExistingStore_header (hm : readManifest dir = .ok man)
    (hle : man.firstRetainedSegmentId ≤ id) (hf : (dir.segment id).current = some file) :
    segmentHeaderSize ≤ file.bytes.length := by
  obtain ⟨prev, info, active, hs, _⟩ := openExistingStore_segment h hm hle hf
  simp only [discoverSegment, ok_iff] at hs
  obtain ⟨_, _, _, hl, _⟩ := hs
  exact hl

end

end

/-- A record cut short is passed over only where that is allowed. -/
theorem Stretch.Sound.scanOneSegment_torn {str : Stretch} {cap : Nat} {tail : List UInt8}
    {res : SegmentScan} (h : str.Sound dir cap) (ht : TornBehind str cap tail)
    (hs : scanOneSegment str.info.header (str.file.bytes ++ tail) false = .ok res) : tail = [] := by
  have ha := h.scanOneSegment_eq ht (Or.inr rfl : tail = [] ∨ true = true)
  have hf : (str.body ++ tail).length ≤ str.info.header.payloadCapacity := by
    rw [h.payloadCapacity, length_append]
    exact ht.fits
  have hp : str.info.header.startLsn + (str.body ++ tail).length < 2 ^ 64 := by
    have hst : str.stop = str.info.header.startLsn + str.body.length := h.stop
    rw [length_append, ← add_assoc, ← hst]
    exact ht.space
  have he := encodeWalSegmentHeader_ok.mpr ⟨h.wellFormed, rfl⟩
  rw [Stretch.file, append_assoc] at hs ha
  obtain ⟨scn, hc, hw, hr⟩ := (scanOneSegment_ok he h.inRange hf hp).mp hs
  have hm := (scanOneSegment_ok he h.inRange hf hp).mpr ⟨scn, hc, fun _ => (rfl : true = true), hr⟩
  have htr := congrArg SegmentScan.truncatedTail (Except.ok.inj (hm.symm.trans ha))
  rw [← hr] at htr
  by_contra hne
  have ho : scn.truncatedTail = true := htr.trans (by simpa [Stretch.scanTorn] using hne)
  exact absurd (hw ho) (by simp)

/-! What is found after a rotation and a crash. -/

/-- The new segment of a rotation is there with its whole header or not at all, and only
behind a segment that ends in a whole record. -/
def RotationWhole (directory : Directory) (last : Stretch) (tail : List UInt8) : Prop :=
  ∀ new ∈ (directory.segment (last.id + 1)).current, segmentHeaderSize ≤ new.bytes.length ∧
    tail = []

theorem PartlyMade.whole {file : SyncedFile} (h : PartlyMade ent hdr)
    (hh : hdr.length = segmentHeaderSize) (hf : ent.current = some file)
    (hl : segmentHeaderSize ≤ file.bytes.length) : ent = ⟨some ⟨hdr, segmentHeaderSize⟩, []⟩ := by
  rcases h with rfl | ⟨cnt, rfl⟩
  · exact absurd hf (by simp [absent])
  · obtain rfl := some.inj hf
    have hc : segmentHeaderSize ≤ (hdr.take cnt).length := hl
    rw [length_take, hh] at hc
    have ha : hdr.take cnt = hdr := take_of_length_le (by omega)
    simp only [SyncedFile.sync, ha, hh]

namespace Standing
variable {s : StorageState} {dir dir' : Directory} {pre : List Stretch} {last : Stretch}
  {tail : List UInt8} {file : SyncedFile}

theorem file_bytes (h : Standing s dir pre last tail file) :
    file.bytes = last.file.bytes ++ tail := by
  obtain ⟨fd, hf, hb⟩ := h.found.file
  rw [h.entry] at hf
  obtain rfl := some.inj hf
  exact hb

/-- The rotation went through: the new segment is the last. -/
theorem found_rotated (h : Standing s dir pre last [] file)
    (hf : RotationLeft s.storage.manifest dir dir' last file)
    (hd : last.id + 1 < 2 ^ 64) (ha : dir'.segment last.id = ⟨some file.sync, []⟩)
    (hn : dir'.segment (last.id + 1) =
      ⟨some (last.next s.storage.manifest.payloadCapacity).file, []⟩) :
    Shelved s.storage.manifest dir' (pre ++ [last.flushed])
      (last.flushed.next s.storage.manifest.payloadCapacity) := by
  obtain ⟨clean, hc, hs, ho⟩ := h.found.clean
  have hi : file.sync = last.flushed.file := by
    rw [last.file_flushed, SyncedFile.sync, SyncedFile.sync, h.file_bytes, append_nil]
  have hfl : Shelved s.storage.manifest
      (clean.setSegment last.id ⟨some last.flushed.file, []⟩) pre last.flushed := by
    refine hc.replaceLast rfl rfl
      (hc.last_sound.same last.same_flushed ?_ (Nat.le_add_right _ _)) ?_ rfl
    · rw [segment_setSegment]
      exact if_pos rfl
    · intro id _ hne
      rw [segment_setSegment, if_neg hne]
  refine hfl.extend rfl hd hn ?_ ?_
  · intro id hle hne
    rw [segment_setSegment]
    split
    · rename_i hl
      rw [hl, ha, hi]
    · rename_i hl
      rw [hf.others id hle hl hne, ho id hl]
  · rw [hf.manifestFile, hs]
    rfl

theorem rotation_found (h : Standing s dir pre last tail file)
    (hlf : RotationLeft s.storage.manifest dir dir' last file) (hw : RotationWhole dir' last tail) :
    ∃ pre' last' tail' file', Found s.storage.manifest dir' pre' last' tail' ∧
      (dir'.segment last.id).current = some file' ∧
      layoutRecords (pre' ++ [last']) = layoutRecords pre ++
        last.recordsWithin file'.bytes.length := by
  have hh : segmentHeaderSize ≤ file.bytes.length := by
    rw [h.file_bytes, length_append, last.length_file]
    omega
  have ht : ∀ file', file.Survives file' → dir'.segment last.id = ⟨some file', []⟩ →
      dir'.segment (last.id + 1) = .absent →
      ∃ last' torn, Found s.storage.manifest dir' pre last' torn ∧
        last'.records = last.recordsWithin file'.bytes.length := by
    rintro _ ⟨cnt, hcn, rfl⟩ he hn
    have hy := h.synced
    have hl : (file.bytes.take cnt).length = min cnt file.bytes.length := length_take
    obtain ⟨last', torn, hf, hr, _⟩ := @Found.cut _ _ dir' _ _ _ file
      (file.bytes.take cnt).length h.found (by rw [h.entry]) (by omega) hlf.manifestFile
      (fun id hle hne => by
        by_cases hx : id = last.id + 1
        · rw [hx, hn, h.found.segment_absent (Nat.lt_succ_self _)]
        · exact hlf.others id hle hne hx)
      (by
        rw [he]
        show (⟨some ⟨file.bytes.take cnt, _⟩, []⟩ : Entry SyncedFile) =
          ⟨some ⟨file.bytes.take _, _⟩, []⟩
        simp only [SyncedFile.truncate, hl, ← take_eq_take_min])
    exact ⟨last', torn, hf, hr⟩
  rcases hlf.ends with ⟨hn, file', hsr, he⟩ | ⟨hi, hs, hm⟩
  · obtain ⟨last', torn, hf, hr⟩ := ht file' hsr he hn
    exact ⟨pre, last', torn, file', hf, by rw [he], by
      rw [layoutRecords, flatMap_append, flatMap_singleton, hr]
      rfl⟩
  · cases hc : (dir'.segment (last.id + 1)).current with
    | none =>
      have hn : dir'.segment (last.id + 1) = .absent := by
        rcases hm with hn | ⟨cnt, hn⟩
        · exact hn
        · rw [hn] at hc
          exact absurd hc (by simp)
      obtain ⟨last', torn, hf, hr⟩ := ht _ file.survives_sync hs hn
      exact ⟨pre, last', torn, file.sync, hf, by rw [hs], by
        rw [layoutRecords, flatMap_append, flatMap_singleton, hr]
        rfl⟩
    | some new =>
      obtain ⟨hl, rfl⟩ := hw new hc
      have hn := hm.whole (length_checkedBlock rfl) hc hl
      have hsh := h.found_rotated hlf hi hs (by
        rw [hn]
        simp only [Stretch.file, Stretch.next, append_nil])
      refine ⟨_, _, [], file.sync, hsh.found, by rw [hs], ?_⟩
      obtain ⟨clean, hcl, _, _⟩ := h.found.clean
      have ha : last.recordsWithin file.sync.bytes.length = last.records := by
        refine hcl.last_sound.recordsWithin_all ?_
        show _ ≤ file.bytes.length
        rw [h.file_bytes, append_nil, last.length_file]
      rw [ha, layoutRecords, flatMap_append, flatMap_append]
      simp [layoutRecords, Stretch.next, Stretch.flushed]

theorem rotation_refused (h : Standing s dir pre last tail file)
    (hl : RotationLeft s.storage.manifest dir dir' last file)
    (ho : ∃ pl vol stg, openExistingStore pl vol dir' = .ok stg) :
    RotationWhole dir' last tail := by
  obtain ⟨pl, vol, stg, ho⟩ := ho
  obtain ⟨clean, hc, hsm, ht⟩ := h.found.clean
  have hm : readManifest dir' = .ok s.storage.manifest := by
    rw [readManifest, hl.manifestFile]
    exact openedManifest_eq h.found
  have hf := hc.first_le (mem_append_right pre (mem_singleton_self last))
  intro new hn
  refine ⟨openExistingStore_header ho hm (by omega) hn, ?_⟩
  rcases hl.ends with ⟨ha, _⟩ | ⟨_, hls, _⟩
  · rw [ha] at hn
    exact absurd hn (by simp [absent])
  · obtain ⟨previous, info, active, hs, hac⟩ := openExistingStore_segment ho hm hf
      (congrArg current hls)
    rw [hac (by rw [hn]; simp)] at hs
    have he := encodeWalSegmentHeader_ok.mpr ⟨hc.last_sound.wellFormed, rfl⟩
    have hb : (last.file.bytes ++ tail).take segmentHeaderSize =
      checkedBlock last.info.header.layout := by
      rw [Stretch.file, append_assoc]
      exact take_left' (length_of_encode_header he)
    have hbs : file.sync.bytes = last.file.bytes ++ tail := h.file_bytes
    simp only [discoverSegment, hbs, hb, decode_encode_header he hc.last_sound.inRange, ok_iff]
      at hs
    obtain ⟨_, _, _, _, _, rfl, _, _, scanned, hsc, _⟩ := hs
    exact hc.last_sound.scanOneSegment_torn h.found.torn hsc

end Standing

/-! A new directory and a crash. -/

/-- The effects that put a manifest in place. -/
def manifestEffects (place : Place) (bytes : List UInt8) : List Effect :=
  [.createManifest place, .writeManifest place bytes, .syncManifest place, .renameManifest place,
    .syncDirectory place]

theorem newManifest_left {earlier : List (Option Directory)} {bs : List UInt8}
    (hv : vol.published = ⟨some .empty, earlier⟩) (count : Nat) :
    ∃ aft, (((manifestEffects .published bs).take count).foldl Volume.perform vol).published =
        ⟨some aft, earlier⟩ ∧ (5 ≤ count → aft = empty.withManifest bs) ∧
      ∀ dir', aft.Survives dir' →
        (dir'.manifest = .absent ∨ dir'.manifest = ⟨some ⟨bs, bs.length⟩, []⟩) ∧
        ∀ id, dir'.segment id = .absent := by
  obtain ⟨_, _, _⟩ := vol
  obtain rfl := hv
  have hw : (SyncedFile.empty.write 0 bs).sync = ⟨bs, bs.length⟩ := by
    simp [SyncedFile.write, SyncedFile.empty, SyncedFile.sync]
  have hb : ∀ temporary dir', (mk .absent temporary .empty).Survives dir' →
      (dir'.manifest = .absent ∨ dir'.manifest = ⟨some ⟨bs, bs.length⟩, []⟩) ∧
        ∀ id, dir'.segment id = .absent :=
    fun _ _ h => ⟨.inl (survives_absent h.manifest), fun id => survives_absent (h.segments id)⟩
  rcases count with _ | _ | _ | _ | _ | count
  · exact ⟨.empty, rfl, by simp, hb .absent⟩
  · exact ⟨_, rfl, by simp, hb _⟩
  · exact ⟨_, rfl, by simp, hb _⟩
  · exact ⟨_, rfl, by simp, hb _⟩
  · refine ⟨⟨⟨some (SyncedFile.empty.write 0 bs).sync, [none]⟩, _, .empty⟩, rfl, by simp,
      fun dir' h => ⟨?_, fun id => survives_absent (h.segments id)⟩⟩
    rcases survives_made h.manifest with ha | ⟨file, hf, he⟩
    · exact .inl ha
    · rw [he, hf.of_synced le_rfl, hw]
      exact .inr rfl
  · have ht : (manifestEffects .published bs).take (count + 5) = manifestEffects .published bs :=
      take_of_length_le (by simp [manifestEffects])
    rw [ht]
    refine ⟨empty.withManifest bs, ?_, fun _ => rfl, fun dir' h => ⟨?_, fun id => ?_⟩⟩
    · rw [withManifest, ← hw]
      rfl
    · exact .inr (survives_settled rfl h.manifest)
    · exact survives_absent (h.segments id)

/-- What a crash leaves of a directory that was being made. -/
structure CreationLeft (directory : Directory) (manifest : WalSegmentManifest) : Prop where
  manifestFile : directory.manifest = .absent ∨
    directory.manifest = ⟨some ⟨checkedBlock manifest.layout, segmentHeaderSize⟩, []⟩
  others : ∀ id, id ≠ 1 → directory.segment id = .absent
  made : PartlyMade (directory.segment 1)
    (checkedBlock (Stretch.initial manifest.initialLsn manifest.payloadCapacity).info.header.layout)

/-- The effects that make a new directory of segments. -/
def creationEffects (place : Place) (manifest : WalSegmentManifest) : List Effect :=
  .makeDirectory place :: (manifestEffects place (checkedBlock manifest.layout) ++
    newSegmentEffects place 1 (checkedBlock
      (Stretch.initial manifest.initialLsn manifest.payloadCapacity).info.header.layout))

theorem newStore_emits (pl : Place) (w : World) (man : WalSegmentManifest) :
    w.Emits (StorageState.newStore pl w man).world (creationEffects pl man) := by
  refine ⟨rfl, ?_, rfl⟩
  show w.journal ++ [_] ++ [_] ++ [_] ++ [_] ++ [_] ++ [_] ++ [_] ++ [_] ++ [_] ++ [_] = _
  simp only [append_assoc, singleton_append]
  rfl

theorem creation_left (hv : vol.published = .absent) (count : Nat) :
    (((creationEffects .published man).take count).foldl Volume.perform vol).published = .absent ∨
    ∃ aft, (((creationEffects .published man).take count).foldl Volume.perform vol).published =
        ⟨some aft, [none]⟩ ∧ ∀ dir', aft.Survives dir' → CreationLeft dir' man := by
  have hl : (checkedBlock man.layout).length = segmentHeaderSize := length_checkedBlock rfl
  match count with
  | 0 => exact .inl hv
  | count + 1 =>
    have hd : (vol.perform (.makeDirectory .published)).published = ⟨some .empty, [none]⟩ := by
      show vol.published.put _ = _
      rw [hv]
      rfl
    rw [creationEffects, take_succ_cons, foldl_cons, take_append, foldl_append]
    obtain ⟨aft, ha, hw, hf⟩ := @newManifest_left _ _ (checkedBlock man.layout) hd count
    refine .inr ?_
    by_cases hb : count < 5
    · -- the first segment file is not there yet
      refine ⟨aft, ?_, fun dir' h => ?_⟩
      · rw [Nat.sub_eq_zero_of_le (Nat.le_of_lt hb :
          count ≤ (manifestEffects .published (checkedBlock man.layout)).length), take_zero]
        exact ha
      · obtain ⟨hm, hab⟩ := hf dir' h
        rw [hl] at hm
        exact ⟨hm, fun id _ => hab id, .inl (hab 1)⟩
    · obtain rfl := hw (not_lt.mp hb)
      obtain ⟨aft', ha', hf'⟩ := newSegment_left ha
        (show (empty.withManifest _).segment 1 = .absent from rfl) _
      refine ⟨aft', ha', fun dir' h => ?_⟩
      obtain ⟨hm, ho, hn⟩ := hf' dir' h
      refine ⟨.inr ?_, fun id hne => survives_absent (ho id hne), hn⟩
      rw [← hl]
      exact survives_settled rfl hm

/-- A directory that was being made has its manifest and a first segment with its whole
header. -/
def CreationWhole (directory : Directory) : Prop :=
  directory.manifest.current ≠ none ∧
    ∃ file, (directory.segment 1).current = some file ∧ segmentHeaderSize ≤ file.bytes.length

namespace CreationLeft
variable {dir : Directory} {man : WalSegmentManifest}

theorem manifest_eq (h : CreationLeft dir man) (hp : dir.manifest.current ≠ none) :
    dir.manifest = ⟨some ⟨checkedBlock man.layout, segmentHeaderSize⟩, []⟩ := by
  rcases h.manifestFile with ha | hw
  · rw [ha] at hp
    exact absurd rfl hp
  · exact hw

theorem shelved (h : CreationLeft dir man) (hf : man.WellFormed)
    (hr : man.InRange) (hs : man.firstRetainedSegmentId = 1) (hw : CreationWhole dir) :
    Shelved man dir [] (Stretch.initial man.initialLsn man.payloadCapacity) := by
  have hi := shelved_initial hf hr hs
  obtain ⟨hp, file, hfl, hl⟩ := hw
  have he : dir.segment 1 = (initial man).segment 1 := by
    rw [show (initial man).segment 1 = _ from hi.last_sound.entry,
      h.made.whole (length_checkedBlock rfl) hfl hl]
    simp only [Stretch.file, Stretch.initial, append_nil]
  refine hi.replaceLast rfl rfl (hi.last_sound.frame he) ?_ ?_
  · intro id _ hne
    rw [h.others id hne]
    by_contra habs
    obtain ⟨str, hm, hd⟩ := hi.only id (by omega) (Ne.symm habs)
    rw [mem_singleton.mp hm] at hd
    exact hne hd.symm
  · rw [h.manifest_eq hp, hi.manifestFile]

theorem refused (h : CreationLeft dir man) (hfm : man.WellFormed) (hr : man.InRange)
    (hf : man.firstRetainedSegmentId = 1) {pl : Place} {stg : SegmentedWalStorage}
    (ho : openExistingStore pl vol dir = .ok stg) : CreationWhole dir := by
  have hp : dir.manifest.current ≠ none := by
    intro hno
    simp only [openExistingStore, bind_ok, readManifest, hno] at ho
    obtain ⟨_, hd, _⟩ := ho
    exact absurd hd (by simp [throw, throwThe, MonadExceptOf.throw])
  have hd : readManifest dir = .ok man := by
    have he := encodeWalSegmentManifest_ok.mpr ⟨hfm, rfl⟩
    simp only [readManifest, h.manifest_eq hp, length_of_encode_manifest he,
      decode_encode_manifest he hr, require_of _ trivial, ok_bind]
  obtain ⟨infos, hi⟩ := openExistingStore_discovers ho hd
  simp only [discoverSegments, ok_iff] at hi
  obtain ⟨_, hh, _⟩ := hi
  obtain ⟨⟨id, file⟩, hn, hid⟩ := map_eq_some_iff.mp hh
  have hm := mem_of_mem_head? hn
  rw [mem_filter, mem_listSegments] at hm
  obtain rfl : id = 1 := hid.trans hf
  exact ⟨hp, file, hm.1, openExistingStore_header ho hd hf.le hm.1⟩

end CreationLeft

end MiniDb.Wal
