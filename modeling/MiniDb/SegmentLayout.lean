import Mathlib.Data.List.Chain
import MiniDb.SegmentedWal
import MiniDb.ScannerAgreement

/-!
What the directory of a segmented log holds. Each segment is a header and whole
records; the segments follow each other without a gap in ids or positions, and
memory describes exactly the files from the first retained one on. All but the last
segment are synchronised to their end.
-/
namespace MiniDb.Wal
open ByteString Outcome CrashFiles Stateful StorageState
open List hiding after modify rotate

variable {r : LogRecord} {cap : Nat} {s : StorageState}
variable {enc : List UInt8}

theorem subWord_of_le {a b : Nat} (hle : b ≤ a) (ha : a < 2 ^ 64) : subWord a b = a - b := by
  unfold subWord
  rw [show a + 2 ^ 64 - b = a - b + 2 ^ 64 by omega, Nat.add_mod_right]
  exact Nat.mod_eq_of_lt (by omega)

theorem addWord_of_lt {a b : Nat} (h : a + b < 2 ^ 64) : addWord a b = a + b := Nat.mod_eq_of_lt h

/-! Effects on one directory. -/

namespace Directory

@[simp] theorem segment_setSegment (dir : Directory) (id : Nat) (entry : Entry SyncedFile)
    (id' : Nat) :
    (dir.setSegment id entry).segment id' = if id' = id then entry else dir.segment id' := by
  simp only [segment, setSegment, SortedMap.find?_insert]
  split <;> rfl

@[simp] theorem segment_sync (dir : Directory) (id : Nat) :
    dir.sync.segment id = (dir.segment id).sync := by
  simp only [segment, sync, SortedMap.find?_mapValues]
  cases dir.segments.find? id <;> rfl

@[simp] theorem manifest_setSegment (dir : Directory) (id : Nat) (ent : Entry SyncedFile) :
    (dir.setSegment id ent).manifest = dir.manifest := rfl

end Directory

theorem Volume.directory?_updateDirectory (vol : Volume) (pl : Place) (f : Directory → Directory) :
    (vol.updateDirectory pl f).directory? pl = (vol.directory? pl).map f := by
  cases pl <;> rfl

/-- The state after one effect. -/
def StorageState.after (s : StorageState) (effect : Effect) : StorageState :=
  { s with world := { s.world with
      volume := s.world.volume.perform effect
      journal := s.world.journal ++ [effect] } }

theorem emit_run (s : StorageState) (eff : Effect) : onWorld (emit eff) s = .ok () (s.after eff) :=
  rfl

def StorageState.directory? (s : StorageState) : Option Directory :=
  s.world.volume.directory? s.storage.place

/-! The layout. -/

/-- A segment: what memory says of it, its records, their bytes, and how much of
its file is synchronised. -/
structure Stretch where
  info : WalSegmentInfo
  records : List LogRecord
  body : List UInt8
  synced : Nat

variable {str : Stretch}

namespace Stretch

def id (stretch : Stretch) : Nat := stretch.info.header.segmentId

def start (stretch : Stretch) : Nat := stretch.info.header.startLsn

def stop (stretch : Stretch) : Nat := stretch.info.logicalEndLsn

def file (stretch : Stretch) : SyncedFile :=
  ⟨checkedBlock stretch.info.header.layout ++ stretch.body, stretch.synced⟩

/-- The segment is what its file and the memory of it say. -/
structure Sound (stretch : Stretch) (directory : Directory) (capacity : Nat) : Prop where
  wellFormed : stretch.info.header.WellFormed
  inRange : stretch.info.header.InRange
  previous : stretch.info.header.previousSegmentId = stretch.id - 1
  payloadCapacity : stretch.info.header.payloadCapacity = capacity
  entry : directory.segment stretch.id = ⟨some stretch.file, []⟩
  encodes : Encodes stretch.start stretch.records stretch.body
  fits : stretch.body.length ≤ capacity
  stop : stretch.stop = stretch.start + stretch.body.length
  space : isValidLsn stretch.stop
  physicalBytes : stretch.info.physicalBytes = segmentHeaderSize + stretch.body.length
  synced : segmentHeaderSize ≤ stretch.synced

/-- The same segment, up to what is synchronised and which segment is open. -/
structure Same (a b : Stretch) : Prop where
  header : a.info.header = b.info.header
  stop : a.stop = b.stop
  physicalBytes : a.info.physicalBytes = b.info.physicalBytes
  records : a.records = b.records
  body : a.body = b.body

theorem Same.refl (a : Stretch) : a.Same a := ⟨rfl, rfl, rfl, rfl, rfl⟩

theorem Same.trans {a b c : Stretch} (ha : a.Same b) (hb : b.Same c) : a.Same c :=
  ⟨ha.header.trans hb.header, ha.stop.trans hb.stop,
    ha.physicalBytes.trans hb.physicalBytes, ha.records.trans hb.records, ha.body.trans hb.body⟩

theorem Same.id {a b : Stretch} (h : a.Same b) : a.id = b.id := congrArg (·.segmentId) h.header

theorem Same.start {a b : Stretch} (h : a.Same b) : a.start = b.start :=
  congrArg (·.startLsn) h.header

/-- Only the entry of its own file matters to a segment. -/
theorem Sound.frame {dir dir' : Directory} (h : str.Sound dir cap)
    (he : dir'.segment str.id = dir.segment str.id) : str.Sound dir' cap :=
  { h with entry := he.trans h.entry }

theorem Sound.same {a b : Stretch} {dir dir' : Directory} (h : a.Sound dir cap)
    (hs : a.Same b) (he : dir'.segment b.id = ⟨some b.file, []⟩)
    (hy : segmentHeaderSize ≤ b.synced) : b.Sound dir' cap := by
  have hi := hs.id
  have ht := hs.start
  refine ⟨hs.header ▸ h.wellFormed, hs.header ▸ h.inRange, ?_, hs.header ▸ h.payloadCapacity,
    he, ?_, hs.body ▸ h.fits, ?_, hs.stop ▸ h.space, ?_, hy⟩
  · rw [← hs.header, ← hi]
    exact h.previous
  · rw [← hs.body, ← hs.records, ← ht]
    exact h.encodes
  · rw [← hs.stop, ← ht, ← hs.body]
    exact h.stop
  · rw [← hs.physicalBytes, ← hs.body]
    exact h.physicalBytes

end Stretch

/-- What the files say: the segments in `front` are closed, `last` is the one
written to. -/
structure Shelved (manifest : WalSegmentManifest) (directory : Directory) (front : List Stretch)
    (last : Stretch) : Prop where
  manifestFile : directory.manifest =
    ⟨some ⟨checkedBlock manifest.layout, segmentHeaderSize⟩, []⟩
  wellFormed : manifest.WellFormed
  inRange : manifest.InRange
  ids : (front ++ [last]).map Stretch.id =
    List.range' manifest.firstRetainedSegmentId (front.length + 1)
  contiguous : (front ++ [last]).IsChain fun a b => b.start = a.stop
  sound : ∀ stretch ∈ front ++ [last], stretch.Sound directory manifest.payloadCapacity
  only : ∀ id, manifest.firstRetainedSegmentId ≤ id →
    directory.segment id ≠ .absent → ∃ stretch ∈ front ++ [last], stretch.id = id
  closed : ∀ stretch ∈ front, stretch.synced = segmentHeaderSize + stretch.body.length

/-- The memory of a storage says the same as its files. -/
structure Stored (storage : SegmentedWalStorage) (directory : Directory) (front : List Stretch)
    (last : Stretch) : Prop extends Shelved storage.manifest directory front last where
  segments : storage.segments = (front ++ [last]).map (·.info)
  logicalEnd : storage.logicalEnd = last.stop
  descriptor : ∀ id ∈ storage.activeDescriptor, id = last.id
  settled : storage.activeDescriptor = none →
    last.synced = segmentHeaderSize + last.body.length
  untorn : storage.truncatedTail = false

/-- A storage whose directory is laid out so. -/
def StorageState.Holds (s : StorageState) (front : List Stretch) (last : Stretch) : Prop :=
  ∃ directory, s.directory? = some directory ∧ Stored s.storage directory front last

namespace Shelved
variable {man : WalSegmentManifest} {dir dir' : Directory} {pre : List Stretch}
  {last last' : Stretch}

section
variable (h : Shelved man dir pre last)
include h

theorem last_id : last.id = man.firstRetainedSegmentId + pre.length := by
  have hl := congrArg getLast? h.ids
  rw [map_append, map_singleton, getLast?_concat, range'_concat, getLast?_concat] at hl
  simpa using hl

theorem id_at {i : Nat} (hi : (pre ++ [last])[i]? = some str) :
    str.id = man.firstRetainedSegmentId + i := by
  have hlt := (List.getElem?_eq_some_iff.mp hi).1
  rw [length_append, length_singleton] at hlt
  have ha := congrArg (fun l : List Nat => l[i]?) h.ids
  simp only [getElem?_map, hi, Option.map_some, getElem?_range' hlt, Option.some.injEq] at ha
  omega

theorem front_lt (hm : str ∈ pre) : str.id < last.id := by
  obtain ⟨i, hi⟩ := getElem?_of_mem hm
  have hlt := (List.getElem?_eq_some_iff.mp hi).1
  have ha := h.id_at ((getElem?_append_left hlt).trans hi)
  have hl := h.last_id
  omega

theorem id_le (hm : str ∈ pre ++ [last]) : str.id ≤ last.id := by
  rcases mem_append.mp hm with hm | hm
  · exact (h.front_lt hm).le
  · rw [mem_singleton.mp hm]

theorem last_sound :
    last.Sound dir man.payloadCapacity := h.sound last (by simp)

theorem first_le (hm : str ∈ pre ++ [last]) : man.firstRetainedSegmentId ≤ str.id := by
  obtain ⟨i, hi⟩ := getElem?_of_mem hm
  rw [h.id_at hi]
  exact Nat.le_add_right _ _

/-- The last segment is changed in place. -/
theorem replaceLast (hd : last'.id = last.id) (ht : last'.start = last.start)
    (hsn : last'.Sound dir' man.payloadCapacity)
    (hf : ∀ id, man.firstRetainedSegmentId ≤ id → id ≠ last.id →
      dir'.segment id = dir.segment id) (hn : dir'.manifest = dir.manifest) :
        Shelved man dir' pre last' := by
  refine ⟨by rw [hn, h.manifestFile], h.wellFormed, h.inRange, ?_, ?_, ?_, ?_, h.closed⟩
  · rw [← h.ids, map_append, map_append, map_singleton, map_singleton, hd]
  · have hc := isChain_append.mp h.contiguous
    refine isChain_append.mpr ⟨hc.1, by simp, ?_⟩
    intro a ha b hb
    simp only [head?_cons, Option.mem_some_iff] at hb
    rw [← hb, ht]
    exact hc.2.2 a ha last (by simp)
  · intro str hm
    rcases mem_append.mp hm with hm | hm
    · have hi := mem_append_left [last] hm
      exact (h.sound str hi).frame (hf _ (h.first_le hi) (h.front_lt hm).ne)
    · rw [mem_singleton.mp hm]
      exact hsn
  · intro id hle hp
    by_cases hl : id = last.id
    · exact ⟨last', by simp, hd.trans hl.symm⟩
    · rw [hf id hle hl] at hp
      obtain ⟨str, hm, hs⟩ := h.only id hle hp
      rcases mem_append.mp hm with hm | hm
      · exact ⟨str, mem_append_left _ hm, hs⟩
      · rw [mem_singleton.mp hm] at hs
        exact absurd hs.symm hl

/-- There is nothing behind the last segment. -/
theorem segment_absent {id : Nat} (hi : last.id < id) : dir.segment id = .absent := by
  by_contra hpres
  have hf := h.last_id
  obtain ⟨str, hm, rfl⟩ := h.only id (by omega) hpres
  have := h.id_le hm
  omega

end

end Shelved

namespace Stored
variable {stg stg' : SegmentedWalStorage} {dir dir' : Directory}
  {pre : List Stretch} {last last' : Stretch}

/-- The last segment is changed in place. -/
theorem replaceLast (h : Stored stg dir pre last) (hi : last'.id = last.id)
    (ht : last'.start = last.start) (hn : last'.Sound dir' stg.manifest.payloadCapacity)
    (hf : ∀ id, id ≠ last.id → dir'.segment id = dir.segment id)
    (hm : dir'.manifest = dir.manifest) (hg : stg'.segments = (pre ++ [last']).map (·.info))
    (hsm : stg'.manifest = stg.manifest) (he : stg'.logicalEnd = last'.stop)
    (hd : ∀ id ∈ stg'.activeDescriptor, id = last.id) (hs : stg'.activeDescriptor = none →
      last'.synced = segmentHeaderSize + last'.body.length)
    (hu : stg'.truncatedTail = false) : Stored stg' dir' pre last' := by
  refine ⟨?_, hg, he, fun id hme => (hd id hme).trans hi.symm, hs, hu⟩
  rw [hsm]
  exact h.toShelved.replaceLast hi ht hn (fun id _ => hf id) hm

end Stored

/-! Flushing and closing the last segment. -/

namespace Stretch

def flushed (stretch : Stretch) : Stretch :=
  { stretch with synced := segmentHeaderSize + stretch.body.length }

def closed (stretch : Stretch) : Stretch :=
  { stretch with info := { stretch.info with active := false } }

theorem length_file (str : Stretch) :
    str.file.bytes.length = segmentHeaderSize + str.body.length := by
  rw [file, length_append, length_checkedBlock rfl]

theorem file_flushed (str : Stretch) : str.flushed.file = str.file.sync := by
  rw [SyncedFile.sync, length_file]
  rfl

theorem same_flushed (str : Stretch) : str.Same str.flushed := ⟨rfl, rfl, rfl, rfl, rfl⟩

theorem same_closed (str : Stretch) : str.Same str.closed := ⟨rfl, rfl, rfl, rfl, rfl⟩

end Stretch

theorem Directory.segment_changeSegment (dir : Directory) (id : Nat)
    (f : SyncedFile → SyncedFile) (id' : Nat) :
    (dir.changeSegment id f).segment id' =
      if id' = id then (dir.segment id).update f else dir.segment id' :=
  dir.segment_setSegment id _ id'

theorem updateLast_concat (segs : List WalSegmentInfo) (last : WalSegmentInfo)
    (f : WalSegmentInfo → WalSegmentInfo) :
    SegmentedWalStorage.updateLast (segs ++ [last]) f = segs ++ [f last] := by
  simp [SegmentedWalStorage.updateLast]

variable {dir : Directory}

theorem StorageState.directory?_after (h : s.directory? = some dir) (eff : Effect)
    (f : Directory → Directory)
    (he : ∀ vol : Volume, vol.perform eff = vol.updateDirectory s.storage.place f) :
    (s.after eff).directory? = some (f dir) := by
  show (s.world.volume.perform eff).directory? s.storage.place = _
  rw [he, Volume.directory?_updateDirectory]
  exact congrArg (Option.map f) h

open SegmentedWalStorage

/-- Nothing but the place of a storage and its settings is the same after a call that
may have written. -/
structure SameSettings (s s' : StorageState) : Prop where
  place : s'.storage.place = s.storage.place
  manifest : s'.storage.manifest = s.storage.manifest
  hasParent : s'.world.hasParent = s.world.hasParent

theorem SameSettings.trans {a b c : StorageState} (ha : SameSettings a b) (hb : SameSettings b c) :
    SameSettings a c :=
  ⟨hb.place.trans ha.place, hb.manifest.trans ha.manifest, hb.hasParent.trans ha.hasParent⟩

namespace StorageState

def flushed (s : StorageState) : StorageState :=
  match s.storage.activeDescriptor with
  | none => s
  | some id => { s.after (.syncSegment s.storage.place id) with
      storage := { s.storage with durableLsn := s.storage.lastRecordLsn } }

/-- The state in which the active segment has been closed. -/
def closed (s : StorageState) : StorageState :=
  if s.storage.segments = [] then s
  else { s.flushed with storage := { s.flushed.storage with
    activeDescriptor := none
    segments := updateLast s.flushed.storage.segments fun last => { last with active := false } } }

theorem flush_eq (s : StorageState) : flush s = .ok () s.flushed := by
  rw [flush, run_get_bind, flushed]
  cases s.storage.activeDescriptor <;> rfl

theorem closeActive_eq (s : StorageState) : closeActive s = .ok () s.closed := by
  rw [closeActive, run_get_bind, closed]
  split
  · rfl
  · rw [run_bind s.flush_eq]
    rfl

end StorageState

variable {pre : List Stretch} {last : Stretch}

theorem flush_run (h : s.Holds pre last) :
    ∃ s' last', flush s = .ok () s' ∧ s'.Holds pre last' ∧ last.Same last' ∧
      last'.synced = segmentHeaderSize + last'.body.length ∧ SameSettings s s' ∧
      s'.storage.lastRecordLsn = s.storage.lastRecordLsn ∧
      s'.storage.activeDescriptor = s.storage.activeDescriptor := by
  refine ⟨s.flushed, ?_⟩
  rw [s.flush_eq, flushed]
  obtain ⟨dir, hd, hs⟩ := h
  cases hds : s.storage.activeDescriptor with
  | none =>
    exact ⟨last, rfl, ⟨dir, hd, hs⟩, .refl last, hs.settled hds, ⟨rfl, rfl, rfl⟩, rfl, hds⟩
  | some id =>
    have hi := hs.descriptor id hds
    subst hi
    have ha := directory?_after hd
      (.syncSegment s.storage.place last.id) (·.changeSegment last.id (·.sync)) fun _ => rfl
    refine ⟨last.flushed, rfl, ⟨_, ha, ?_⟩, last.same_flushed, rfl, ⟨rfl, rfl, rfl⟩, rfl, hds⟩
    have he : (dir.changeSegment last.id (·.sync)).segment last.id =
        ⟨some last.flushed.file, []⟩ := by
      rw [dir.segment_changeSegment, if_pos rfl, hs.last_sound.entry, last.file_flushed]
      rfl
    refine hs.replaceLast rfl rfl (hs.last_sound.same last.same_flushed he
      (Nat.le_add_right _ _)) ?_ rfl ?_ rfl hs.logicalEnd hs.descriptor (fun _ => rfl) hs.untorn
    · intro id hi
      rw [dir.segment_changeSegment, if_neg hi]
    · rw [map_append, map_singleton]
      exact hs.segments.trans (by rw [map_append, map_singleton]; rfl)

theorem closeActive_run (h : s.Holds pre last) :
    ∃ s' last', closeActive s = .ok () s' ∧ s'.Holds pre last' ∧ last.Same last' ∧
      last'.synced = segmentHeaderSize + last'.body.length ∧ SameSettings s s' ∧
      s'.storage.lastRecordLsn = s.storage.lastRecordLsn ∧ s'.storage.activeDescriptor = none := by
  obtain ⟨s', last', hf, ⟨dir, hd, hs⟩, hm, hy, ht, hr, _⟩ :=
    flush_run h
  obtain rfl : s' = s.flushed := by cases s.flush_eq.symm.trans hf; rfl
  obtain ⟨_, _, hb⟩ := h
  have hg : s.storage.segments ≠ [] := by
    rw [hb.segments]
    simp
  refine ⟨s.closed, last'.closed, s.closeActive_eq, ?_⟩
  rw [closed, if_neg hg]
  refine ⟨⟨dir, hd, ?_⟩, hm.trans last'.same_closed, hy,
    ⟨ht.place, ht.manifest, ht.hasParent⟩, hr, rfl⟩
  have he := hs.last_sound.entry
  refine hs.replaceLast rfl rfl (hs.last_sound.same last'.same_closed he
    hs.last_sound.synced) (fun _ _ => rfl) rfl ?_ rfl hs.logicalEnd (by simp)
    (fun _ => hy) hs.untorn
  simp only [hs.segments, map_append, map_singleton, updateLast_concat]
  rfl

/-- A new segment behind the last one, which is closed. -/
def Stretch.next (last : Stretch) (capacity : Nat) : Stretch :=
  ⟨⟨⟨last.id + 1, last.stop, last.id, last.stop, capacity, 0⟩, last.stop, segmentHeaderSize, true⟩,
    [], [], segmentHeaderSize⟩

namespace Shelved
variable {man : WalSegmentManifest} {dir dir' : Directory} {pre : List Stretch}
  {last : Stretch}

theorem next_wellFormed (h : Shelved man dir pre last) (hi : last.id + 1 < 2 ^ 64) :
    (last.next man.payloadCapacity).info.header.WellFormed ∧
      (last.next man.payloadCapacity).info.header.InRange := by
  have hl := h.last_sound
  have hp := hl.wellFormed.1
  have ht := hl.wellFormed.2.2.1
  have hs : last.start ≤ last.stop := by
    rw [hl.stop]
    exact Nat.le_add_right _ _
  have hc : last.stop < 2 ^ 64 - 1 := hl.space
  refine ⟨⟨?_, hl.space, ht.trans hs, rfl, h.wellFormed.1, rfl, ?_⟩,
    ⟨hi, ?_, ?_, h.inRange.payloadCapacity⟩⟩
  · show last.id + 1 ≠ 0
    omega
  · show last.id + 1 = 1 ↔ last.id = 0
    omega
  · show last.stop < 2 ^ 64
    omega
  · show last.id < 2 ^ 64
    omega

/-- Of the files that are retained every name is synchronised. -/
theorem segment_synced (h : Shelved man dir pre last) {id : Nat}
    (hle : man.firstRetainedSegmentId ≤ id) : (dir.segment id).sync = dir.segment id := by
  by_cases ha : dir.segment id = .absent
  · rw [ha]
    rfl
  · obtain ⟨str, hm, rfl⟩ := h.only id hle ha
    rw [(h.sound str hm).entry]
    rfl

/-- A new segment file behind the last one, which is synchronised. -/
theorem extend (h : Shelved man dir pre last)
    (hy : last.synced = segmentHeaderSize + last.body.length) (hi : last.id + 1 < 2 ^ 64)
    (hn : dir'.segment (last.id + 1) = ⟨some (last.next man.payloadCapacity).file, []⟩)
    (hfr : ∀ id, man.firstRetainedSegmentId ≤ id → id ≠ last.id + 1 →
      dir'.segment id = dir.segment id) (hmn : dir'.manifest = dir.manifest) :
    Shelved man dir' (pre ++ [last]) (last.next man.payloadCapacity) := by
  have hs := h.last_sound
  obtain ⟨hf, hr⟩ := h.next_wellFormed hi
  refine ⟨hmn.trans h.manifestFile, h.wellFormed, h.inRange, ?_, ?_, ?_, ?_, ?_⟩
  · rw [map_append, h.ids, length_append, length_singleton, map_singleton,
      range'_concat (n := pre.length + 1)]
    congr 2
    show last.id + 1 = man.firstRetainedSegmentId + 1 * (pre.length + 1)
    rw [h.last_id]
    omega
  · refine isChain_append.mpr ⟨h.contiguous, by simp, ?_⟩
    intro a ha b hb
    simp only [getLast?_concat, Option.mem_some_iff, head?_cons] at ha hb
    rw [← ha, ← hb]
    rfl
  · intro str hm
    rcases mem_append.mp hm with hm | hm
    · have := h.id_le hm
      exact (h.sound str hm).frame (hfr _ (h.first_le hm) (by omega))
    · rw [mem_singleton.mp hm]
      exact ⟨hf, hr, (Nat.add_sub_cancel _ 1).symm, rfl, hn, .nil, Nat.zero_le _, rfl,
        hs.space, rfl, le_rfl⟩
  · intro id hle hc
    by_cases hx : id = last.id + 1
    · exact ⟨last.next man.payloadCapacity, by simp, hx.symm⟩
    · rw [hfr id hle hx] at hc
      obtain ⟨str, hm, ht⟩ := h.only id hle hc
      exact ⟨str, mem_append_left _ hm, ht⟩
  · intro str hm
    rcases mem_append.mp hm with hm | hm
    · exact h.closed str hm
    · rw [mem_singleton.mp hm]
      exact hy

end Shelved

/-- The directory after a new segment file was made and synchronised. -/
theorem Stored.extend {stg stg' : SegmentedWalStorage} {dir' : Directory}
    (h : Stored stg dir pre last) (hy : last.synced = segmentHeaderSize + last.body.length)
    (hi : last.id + 1 < 2 ^ 64) (hn : dir'.segment (last.id + 1) =
      ⟨some (last.next stg.manifest.payloadCapacity).file, []⟩)
    (hf : ∀ id, stg.manifest.firstRetainedSegmentId ≤ id → id ≠ last.id + 1 →
      dir'.segment id = (dir.segment id).sync) (hm : dir'.manifest = dir.manifest.sync)
    (hs : stg' = { stg with
      segments := stg.segments ++ [(last.next stg.manifest.payloadCapacity).info]
      activeDescriptor := some (last.id + 1)
      logicalEnd := last.stop }) :
    Stored stg' dir' (pre ++ [last]) (last.next stg.manifest.payloadCapacity) := by
  subst hs
  refine ⟨h.toShelved.extend hy hi hn ?_ ?_, ?_, rfl, ?_, by simp, h.untorn⟩
  · intro id hle hne
    rw [hf id hle hne, h.segment_synced hle]
  · rw [hm, h.manifestFile]
    rfl
  · rw [h.segments, @map_append _ _ _ (pre ++ [last]), map_singleton]
  · intro id hi
    exact (Option.some.inj hi).symm

theorem StorageState.segment?_eq (h : s.directory? = some dir) (id : Nat) :
    s.world.volume.segment? s.storage.place id = (dir.segment id).current.map (·.bytes) := by
  unfold Volume.segment?
  rw [show s.world.volume.directory? s.storage.place = some dir from h]
  rfl

theorem createFile_run {id : Nat} (hd : s.directory? = some dir)
    (hn : (dir.segment id).current = none) :
    createFile id s = .ok () (s.after (.createSegment s.storage.place id)) := by
  have ha : ¬ (s.world.volume.segment? s.storage.place id).isSome := by
    rw [s.segment?_eq hd, hn]
    simp
  rw [createFile, run_get_bind, if_neg ha, emit_run]

/-- The effects that make a segment file of a created one. -/
def StorageState.withHeader (s : StorageState) (id : Nat) (bytes : List UInt8) : StorageState :=
  ((s.after (.writeSegment s.storage.place id 0 bytes)).after
    (.syncSegment s.storage.place id)).after (.syncDirectory s.storage.place)

theorem writeHeader_run {hdr : WalSegmentHeader} {bs : List UInt8}
    (he : encodeWalSegmentHeader hdr = .ok bs) :
    writeHeader hdr s = .ok () (s.withHeader hdr.segmentId bs) := by
  rw [writeHeader, he]
  rfl

/-- The directory after the effects of a new segment. -/
def Directory.withSegment (directory : Directory) (id : Nat) (bytes : List UInt8) : Directory :=
  (((directory.putSegment id (some .empty)).changeSegment id (·.write 0 bytes)).changeSegment id
    (·.sync)).sync

theorem Directory.segment_withSegment (dir : Directory) (id : Nat) (bs : List UInt8) (id' : Nat) :
    (dir.withSegment id bs).segment id' =
      if id' = id then ⟨some ⟨bs, bs.length⟩, []⟩ else (dir.segment id').sync := by
  rw [withSegment, segment_sync, segment_changeSegment, segment_changeSegment, if_pos rfl,
    segment_changeSegment, putSegment, segment_setSegment, segment_setSegment, if_pos rfl]
  split
  · simp [Entry.sync, Entry.update, Entry.put, SyncedFile.sync, SyncedFile.write, SyncedFile.empty]
  · rfl

theorem directory?_withHeader {id : Nat} {bs : List UInt8} (h : s.directory? = some dir) :
    ((s.after (.createSegment s.storage.place id)).withHeader id bs).directory? =
      some (dir.withSegment id bs) := by
  have hc := directory?_after h (.createSegment s.storage.place id)
    (·.putSegment id (some .empty)) fun _ => rfl
  have hw := directory?_after hc
    (.writeSegment s.storage.place id 0 bs) (·.changeSegment id (·.write 0 bs)) fun _ => rfl
  have hs := directory?_after hw (.syncSegment s.storage.place id)
    (·.changeSegment id (·.sync)) fun _ => rfl
  exact directory?_after hs (.syncDirectory s.storage.place) (·.sync) fun _ => rfl

/-- What a new segment changes, once the one before it is closed. -/
def StorageState.withSegment (s : StorageState) (startLsn : Nat) : StorageState :=
  ⟨{ s.storage with
      segments :=
        s.storage.segments ++ [⟨newHeader s.storage startLsn, startLsn, segmentHeaderSize, true⟩]
      activeDescriptor := some (newHeader s.storage startLsn).segmentId
      logicalEnd := startLsn
      truncatedTail := false },
    ((s.after (.createSegment s.storage.place (newHeader s.storage startLsn).segmentId)).withHeader
      (newHeader s.storage startLsn).segmentId
        (checkedBlock (newHeader s.storage startLsn).layout)).world⟩

theorem createSegment_run {closed : StorageState} {sl : Nat}
    (hl : closeActive s = .ok () closed) (hd : closed.directory? = some dir)
    (hn : (dir.segment (newHeader closed.storage sl).segmentId).current = none)
    (hf : (newHeader closed.storage sl).WellFormed) :
    createSegment sl s = .ok () (closed.withSegment sl) := by
  have hc := createFile_run hd hn
  have he := encodeWalSegmentHeader_ok.mpr ⟨hf, rfl⟩
  unfold createSegment
  rw [run_bind hl, run_get_bind, if_neg hf.1, run_bind hc]
  simp only [modifyStorage, run_eq, run_tryCatch, writeHeader_run he]
  rfl

/-- A new segment at the end of the log, unless the ids have run out. -/
theorem createSegment_ensures (h : s.Holds pre last) :
    Ensures (createSegment last.stop) s
      (fun _ s' =>
        ∃ last', s'.Holds (pre ++ [last']) (last'.next s.storage.manifest.payloadCapacity) ∧
        last.Same last' ∧ SameSettings s s' ∧ s'.storage.lastRecordLsn = s.storage.lastRecordLsn ∧
        s'.storage.activeDescriptor.isSome)
      (fun _ s' => last.id + 1 = 2 ^ 64 ∧ ∃ last', s'.Holds pre last' ∧ last.Same last' ∧
        SameSettings s s' ∧ s'.storage.lastRecordLsn = s.storage.lastRecordLsn) := by
  obtain ⟨s₁, last₁, hc, ⟨dir, hd, hs⟩, hm, hy, ht, hr, hds⟩ := closeActive_run h
  have hl : s₁.storage.segments.getLast? = some last₁.info := by
    rw [hs.segments, map_append, map_singleton, getLast?_concat]
  have hlt : last₁.id < 2 ^ 64 := hs.last_sound.inRange.segmentId
  have hx : nextSegmentId s₁.storage.segments = (last₁.id + 1) % 2 ^ 64 := by
    rw [nextSegmentId, hl]
    rfl
  by_cases he : last₁.id + 1 = 2 ^ 64
  · unfold createSegment
    rw [ensures_bind, ensures_of_ok hc, ensures_bind, ensures_get,
      if_pos (show (newHeader s₁.storage last.stop).segmentId = 0 from by
        rw [newHeader, hx, he, Nat.mod_self])]
    exact ⟨hm.id ▸ he, last₁, ⟨dir, hd, hs⟩, hm, ht, hr⟩
  · have hi : last₁.id + 1 < 2 ^ 64 := by omega
    have hh : newHeader s₁.storage last₁.stop =
        (last₁.next s₁.storage.manifest.payloadCapacity).info.header := by
      simp only [newHeader, hx, Nat.mod_eq_of_lt hi, previousSegmentId, hl]
      rfl
    have hn : (last₁.next s₁.storage.manifest.payloadCapacity).info.header.segmentId =
      last₁.id + 1 := rfl
    obtain ⟨hf, _⟩ := hs.next_wellFormed hi
    have hrn := createSegment_run hc hd
      (by rw [hh, hn, hs.segment_absent (Nat.lt_add_one _)]; rfl) (by rwa [hh])
    rw [hm.stop]
    refine (ensures_of_ok hrn).mpr ⟨last₁, ⟨_, directory?_withHeader hd, ?_⟩, hm,
      ⟨ht.place, ht.manifest, ht.hasParent⟩, hr, rfl⟩
    rw [← ht.manifest, hh, hn]
    refine hs.extend hy hi ?_ ?_ rfl ?_
    · rw [dir.segment_withSegment, if_pos rfl, length_checkedBlock rfl]
      simp only [Stretch.file, Stretch.next, append_nil]
    · intro id _ hne
      rw [dir.segment_withSegment, if_neg hne]
    · simp only [withSegment, hh, hs.untorn]
      rfl

/-! Appending. -/

/-- The segment with one more record at its end. -/
def Stretch.append (stretch : Stretch) (record : LogRecord) (encoded : List UInt8) : Stretch :=
  ⟨{ stretch.info with
      logicalEndLsn := stretch.stop + encoded.length
      physicalBytes := segmentHeaderSize + stretch.body.length + encoded.length },
    stretch.records ++ [{ record with lsn := stretch.stop }], stretch.body ++ encoded,
    min stretch.synced (segmentHeaderSize + stretch.body.length)⟩

theorem Stretch.file_append (str : Stretch) (r : LogRecord) (enc : List UInt8) :
    (str.append r enc).file = str.file.write (segmentHeaderSize + str.body.length) enc := by
  have hl := str.length_file
  have hb := str.file.write_end enc
  rw [hl] at hb
  have hs : ∀ a b : SyncedFile, a.bytes = b.bytes → a.synced = b.synced → a = b := by
    rintro ⟨_, _⟩ ⟨_, _⟩ rfl rfl
    rfl
  refine hs _ _ ?_ rfl
  rw [hb]
  exact (append_assoc _ _ _).symm

/-- The records of a layout, oldest first. -/
def layoutRecords (layout : List Stretch) : List LogRecord := layout.flatMap Stretch.records

theorem writeRecord_ensures (h : s.Holds pre last) (he : encodeWalRecord r last.stop = .ok enc)
    (hft : last.body.length + enc.length ≤ s.storage.manifest.payloadCapacity) :
    Ensures (writeRecord last.stop enc) s (fun _ s' => isValidLsn (last.stop + enc.length) →
        s'.Holds pre (last.append r enc) ∧ SameSettings s s' ∧
        s'.storage.lastRecordLsn = some last.stop ∧ s'.storage.activeDescriptor.isSome)
      (fun _ s' => s = s' ∧ s.storage.activeDescriptor = none) := by
  obtain ⟨dir, hd, ht⟩ := h
  have hs := ht.last_sound
  have hm : last.stop < 2 ^ 64 - 1 := hs.space
  have hl : s.storage.segments.getLast? = some last.info := by
    rw [ht.segments, map_append, map_singleton, getLast?_concat]
  have ho : addWord segmentHeaderSize (subWord last.stop last.info.header.startLsn) =
      segmentHeaderSize + last.body.length := by
    have hp := hs.stop
    have hc := ht.inRange.payloadCapacity
    have hf := hs.fits
    have hu : last.stop - last.info.header.startLsn = last.body.length := by
      rw [hp]
      exact Nat.add_sub_cancel_left _ _
    rw [subWord_of_le (by rw [hp]; exact Nat.le_add_right _ _) (by omega), hu, addWord_of_lt]
    simp only [segmentHeaderSize]
    omega
  simp only [writeRecord, ensures_iff, hl, ho]
  cases hds : s.storage.activeDescriptor with
  | none => exact ⟨rfl, rfl⟩
  | some id =>
    have hi := ht.descriptor id hds
    subst hi
    have ha := directory?_after hd
      (.writeSegment s.storage.place last.id (segmentHeaderSize + last.body.length) enc)
      (·.changeSegment last.id (·.write (segmentHeaderSize + last.body.length) enc)) fun _ => rfl
    simp only [modifyStorage, ensures_iff, ensures_of_ok (emit_run s _)]
    intro hsp
    have hv : last.stop + enc.length < 2 ^ 64 - 1 := hsp
    refine ⟨⟨_, ha, ?_⟩, ⟨rfl, rfl, rfl⟩, trivial,
      by rw [show (s.after _).storage = s.storage from rfl, hds]; rfl⟩
    refine ht.replaceLast rfl rfl ?_ ?_ rfl ?_ rfl ?_ ht.descriptor ?_ ht.untorn
    · refine ⟨hs.wellFormed, hs.inRange, hs.previous, hs.payloadCapacity, ?_, ?_,
        ?_, ?_, hsp, ?_, ?_⟩
      · rw [Directory.segment_changeSegment,
          if_pos (show (last.append r enc).id = last.id from rfl),
          hs.entry, last.file_append r]
        rfl
      · refine hs.encodes.append ?_
        rw [← hs.stop]
        exact .single he
      · show (last.body ++ enc).length ≤ _
        rw [length_append]
        exact hft
      · show last.stop + enc.length = last.start + (last.body ++ enc).length
        rw [length_append, hs.stop, add_assoc]
      · show _ = segmentHeaderSize + (last.body ++ enc).length
        rw [length_append, ← add_assoc]
        rfl
      · exact Nat.le_min.mpr ⟨hs.synced, Nat.le_add_right _ _⟩
    · intro id hi
      rw [Directory.segment_changeSegment, if_neg hi]
    · have hn : addWord s.storage.logicalEnd enc.length = last.stop + enc.length := by
        rw [ht.logicalEnd, addWord_of_lt (by omega)]
      simp only [after, ht.segments, map_append, map_singleton, updateLast_concat, hn]
      rfl
    · show addWord s.storage.logicalEnd enc.length = last.stop + enc.length
      rw [ht.logicalEnd, addWord_of_lt (by omega)]
    · intro hno
      exact absurd (hds.symm.trans hno) (by simp)

/-- What an append does to the layout: the record is put behind the last one, in the
same segment or in a new one. -/
structure Appended (record : LogRecord) (encoded : List UInt8) (front : List Stretch)
    (last : Stretch)
    (front' : List Stretch) (last' : Stretch) : Prop where
  records : layoutRecords (front' ++ [last']) =
    layoutRecords (front ++ [last]) ++ [{ record with lsn := last.stop }]
  head : (front' ++ [last']).head?.map Stretch.start = (front ++ [last]).head?.map Stretch.start
  stop : last'.stop = last.stop + encoded.length
  id : last'.id ≤ last.id + 1

theorem head?_concat_start {last' : Stretch} (h : last'.start = last.start) (more : List Stretch) :
    (pre ++ last' :: more).head?.map Stretch.start =
      (pre ++ [last]).head?.map Stretch.start := by
  cases pre with
  | nil => simp [h]
  | cons _ _ => rfl

theorem appended_in_place : Appended r enc pre last pre (last.append r enc) := by
  have hs : (last.append r enc).start = last.start := rfl
  refine ⟨?_, head?_concat_start hs [], rfl, Nat.le_succ last.id⟩
  simp [layoutRecords, Stretch.append]

theorem appended_in_next {last' : Stretch} (hs : last.Same last') :
    Appended r enc pre last (pre ++ [last']) ((last'.next cap).append r enc) := by
  refine ⟨?_, ?_, ?_, ?_⟩
  · have ht : last'.info.logicalEndLsn = last.info.logicalEndLsn := hs.stop.symm
    simp [layoutRecords, Stretch.append, Stretch.next, hs.records, Stretch.stop, ht]
  · rw [append_assoc]
    exact head?_concat_start hs.start.symm _
  · show last'.stop + enc.length = _
    rw [hs.stop]
  · rw [hs.id]
    exact le_rfl

theorem layoutRecords_same {last' : Stretch} (h : last.Same last') :
    layoutRecords (pre ++ [last']) = layoutRecords (pre ++ [last]) := by
  simp [layoutRecords, h.records]

theorem appendRecord_ensures {lsn : Nat} (h : s.Holds pre last)
    (hn : encodeWalRecord r lsn = .ok enc) :
    Ensures (appendRecord lsn enc) s
      (fun _ s' => lsn = last.stop ∧ enc.length ≤ s.storage.manifest.payloadCapacity ∧
        (isValidLsn (last.stop + enc.length) →
          (∃ pre' last', s'.Holds pre' last' ∧ Appended r enc pre last pre' last') ∧
          SameSettings s s' ∧ s'.storage.lastRecordLsn = some last.stop ∧
          s'.storage.activeDescriptor.isSome)) (fun _ s' =>
        ¬ (lsn = last.stop ∧ enc.length ≤ s.storage.manifest.payloadCapacity) ∧ s = s' ∨
        (last.id + 1 = 2 ^ 64 ∨ s.storage.activeDescriptor = none) ∧
          ∃ last', s'.Holds pre last' ∧ last.Same last') := by
  obtain ⟨dir, hd, hs⟩ := h
  have hsn := hs.last_sound
  have hl : s.storage.segments.getLast? = some last.info := by
    rw [hs.segments, map_append, map_singleton, getLast?_concat]
  have hnm : enc ≠ [] := by
    have := encode_pos hn
    exact ne_nil_of_length_pos (Nat.lt_of_lt_of_le (by decide) this)
  simp only [appendRecord, ensures_iff, require_ok, hs.untorn, hs.logicalEnd]
  refine ⟨fun _ _ => ⟨?_, ?_⟩, ?_⟩
  · rintro _ ⟨rfl, _, hf⟩
    have hu : subWord last.stop last.info.header.startLsn = last.body.length := by
      have ht := hsn.stop
      have hv : last.stop < 2 ^ 64 - 1 := hsn.space
      rw [subWord_of_le (by rw [ht]; exact Nat.le_add_right _ _) (by omega), ht]
      exact Nat.add_sub_cancel_left _ _
    have hro : subWord s.storage.manifest.payloadCapacity last.body.length =
        s.storage.manifest.payloadCapacity - last.body.length :=
      subWord_of_le hsn.fits (hs.inRange.payloadCapacity.trans (by decide))
    simp only [rotateUnlessFits, ensures_iff, hl, hs.logicalEnd, hu, hro]
    by_cases hrm : s.storage.manifest.payloadCapacity - last.body.length < enc.length
    · rw [if_pos hrm]
      simp only [rotate, ensures_iff, hs.logicalEnd]
      refine (createSegment_ensures ⟨dir, hd, hs⟩).imp ?_ ?_
      · rintro _ s₁ ⟨last', hh, hm, hst, _, hop⟩
        have ht := hm.stop
        rw [ht] at hn ⊢
        refine (writeRecord_ensures hh hn ?_).imp ?_ ?_
        · rw [hst.manifest]
          show 0 + enc.length ≤ _
          omega
        · rintro _ s₂ hw
          refine ⟨trivial, hf, fun hp => ?_⟩
          obtain ⟨hh', hst', hr, hds⟩ := hw hp
          exact ⟨⟨_, _, hh', appended_in_next hm⟩, hst.trans hst', hr, hds⟩
        · rintro _ s₂ ⟨rfl, ho⟩
          rw [ho] at hop
          exact absurd hop (by simp)
      · rintro _ s₁ ⟨hex, last', hh, hm, _⟩
        exact .inr ⟨.inl hex, last', hh, hm⟩
    · rw [if_neg hrm, ensures_pure]
      have hf' := hsn.fits
      refine (writeRecord_ensures ⟨dir, hd, hs⟩ hn (by omega)).imp ?_ ?_
      · rintro _ s₁ hw
        refine ⟨trivial, hf, fun hp => ?_⟩
        obtain ⟨hh, hst, hr, hds⟩ := hw hp
        exact ⟨⟨_, _, hh, appended_in_place⟩, hst, hr, hds⟩
      · rintro _ s₁ ⟨rfl, ho⟩
        exact .inr ⟨.inr ho, last, ⟨dir, hd, hs⟩, .refl last⟩
  · intro e he
    refine .inl ⟨?_, trivial⟩
    rintro ⟨rfl, hf⟩
    rw [require_of _ ⟨rfl, hnm, hf⟩] at he
    exact absurd he (by simp)
  · intro e he
    rw [require_of _ trivial] at he
    exact absurd he (by simp)

end MiniDb.Wal
