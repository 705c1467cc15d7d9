import MiniDb.SegmentReclaim

/-!
Opening a segmented log. The files of a layout are found in the order of their ids,
each is checked against the one before it, and the storage that results describes
them as the one that wrote them did. A record cut short behind the last whole one is
passed over and reported.
-/
namespace MiniDb.Wal
open ByteString Outcome CrashFiles Stateful SegmentedWalStorage StorageState Stretch
open List hiding get

variable {dir : Directory} {front : List Stretch} {tail : List UInt8}
  {migrationBaseLsn payloadCapacity : Nat} {place : Place} {storage : SegmentedWalStorage}
  {last : Stretch} {file : SyncedFile} {manifest : WalSegmentManifest} {world : World}

/-! The files that are found. -/

namespace Directory

theorem mem_listSegments {id : Nat} :
    (id, file) ∈ dir.listSegments ↔ (dir.segment id).current = some file := by
  simp only [listSegments, mem_filterMap, Option.map_eq_some_iff, Prod.mk.injEq, segment]
  constructor
  · rintro ⟨⟨id', entry⟩, hm, found, hc, rfl, rfl⟩
    rw [SortedMap.find?_eq_some.mpr hm]
    exact hc
  · intro hc
    cases hf : dir.segments.find? id with
    | none => simp [hf, Entry.absent] at hc
    | some entry =>
      rw [hf] at hc
      exact ⟨(id, entry), SortedMap.find?_eq_some.mp hf, file, hc, rfl, rfl⟩

theorem sorted_listSegments (dir : Directory) : dir.listSegments.Pairwise fun a b => a.1 < b.1 := by
  refine pairwise_filterMap.mpr (dir.segments.sorted.imp ?_)
  rintro ⟨id, ent⟩ ⟨id', ent'⟩ hlt b hb b' hb'
  obtain ⟨_, _, rfl⟩ := Option.map_eq_some_iff.mp hb
  obtain ⟨_, _, rfl⟩ := Option.map_eq_some_iff.mp hb'
  exact hlt

end Directory

/-- The files of a layout in order, the last of them as it is found. -/
def foundFiles (front : List Stretch) (last : Stretch) (file : SyncedFile) :
    List (Nat × SyncedFile) :=
  front.map (fun stretch => (stretch.id, stretch.file)) ++ [(last.id, file)]

/-- The files of a clean layout, with `tail` behind the last record. -/
structure Found (manifest : WalSegmentManifest) (directory : Directory) (front : List Stretch)
    (last : Stretch) (tail : List UInt8) : Prop where
  clean : ∃ clean, Shelved manifest clean front last ∧ directory.manifest = clean.manifest ∧
    ∀ id, id ≠ last.id → directory.segment id = clean.segment id
  file : ∃ file, (directory.segment last.id).current = some file ∧
    file.bytes = last.file.bytes ++ tail
  torn : TornBehind last manifest.payloadCapacity tail

theorem Shelved.found (h : Shelved manifest dir front last) : Found manifest dir front last [] :=
  ⟨⟨dir, h, rfl, fun _ _ => rfl⟩,
    ⟨last.file, by rw [h.last_sound.entry], by rw [append_nil]⟩, h.last_sound.untorn⟩

theorem listSegments_found {clean : Directory} (h : Shelved manifest clean front last)
    (hr : ∀ id, id ≠ last.id → dir.segment id = clean.segment id)
    (hf : (dir.segment last.id).current = some file) :
    dir.listSegments.filter (fun ent => manifest.firstRetainedSegmentId ≤ ent.1) =
      foundFiles front last file := by
  refine SortedMap.eq_of_sorted (dir.sorted_listSegments.filter _) ?_ ?_
  · have hi : (foundFiles front last file).map Prod.fst = (front ++ [last]).map Stretch.id := by
      simp [foundFiles, Function.comp_def]
    rw [← pairwise_map (R := fun a b : Nat => a < b), hi, h.ids]
    exact pairwise_lt_range'
  · rintro ⟨id, fd⟩
    rw [mem_filter, Directory.mem_listSegments]
    simp only [foundFiles, mem_append, mem_map, Prod.mk.injEq, mem_singleton, decide_eq_true_eq]
    constructor
    · rintro ⟨hc, hle⟩
      by_cases hd : id = last.id
      · subst hd
        rw [hf, Option.some.injEq] at hc
        exact .inr ⟨rfl, hc.symm⟩
      · rw [hr id hd] at hc
        obtain ⟨str, hm, rfl⟩ := h.only id hle fun ha => by
          rw [ha] at hc
          exact absurd hc (by simp [Entry.absent])
        rw [(h.sound str hm).entry, Option.some.injEq] at hc
        rcases mem_append.mp hm with hn | hl
        · exact .inl ⟨str, hn, rfl, hc⟩
        · exact absurd (congrArg Stretch.id (mem_singleton.mp hl)) hd
    · rintro (⟨str, hm, rfl, rfl⟩ | ⟨rfl, rfl⟩)
      · have hm' : str ∈ front ++ [last] := mem_append_left _ hm
        rw [hr _ (h.front_lt hm).ne, (h.sound str hm').entry]
        exact ⟨rfl, h.first_le hm'⟩
      · exact ⟨hf, h.first_le (by simp)⟩

/-! The chain they form. -/

/-- What a found segment is remembered as. -/
def Stretch.remembered (stretch : Stretch) (tail : List UInt8) (active : Bool) : WalSegmentInfo :=
  { stretch.info with
    physicalBytes := segmentHeaderSize + (stretch.body.length + tail.length)
    active }

/-- The segment before this one, if there is one that is retained. -/
def Precedes (previous : Option WalSegmentInfo) (stretch : Stretch) : Prop :=
  ∀ info ∈ previous, stretch.id = info.header.segmentId + 1 ∧ stretch.start = info.logicalEndLsn

theorem Stretch.Sound.discoverSegment_eq {str : Stretch} {active : Bool}
    {prev : Option WalSegmentInfo} (h : str.Sound dir manifest.payloadCapacity)
    (htl : TornBehind str manifest.payloadCapacity tail) (ha : tail = [] ∨ active = true)
    (hp : Precedes prev str) :
    discoverSegment manifest prev str.id (str.file.bytes ++ tail) active =
      .ok (str.remembered tail active) := by
  have he := encodeWalSegmentHeader_ok.mpr ⟨h.wellFormed, rfl⟩
  have hbl := length_of_encode_header he
  have hl : (str.file.bytes ++ tail).length =
      segmentHeaderSize + (str.body.length + tail.length) := by
    rw [length_append, str.length_file, add_assoc]
  have ht : (str.file.bytes ++ tail).take segmentHeaderSize =
      checkedBlock str.info.header.layout := by
    rw [file, append_assoc]
    exact take_left' hbl
  have hb : ∀ info ∈ prev, info.header.segmentId < str.id ∧
      str.info.header.previousSegmentId = info.header.segmentId ∧
      str.info.header.startLsn = info.logicalEndLsn ∧
      str.info.header.previousLogicalEndLsn = info.logicalEndLsn := by
    intro info hi
    obtain ⟨hd, hs⟩ := hp info hi
    refine ⟨by omega, by rw [h.previous]; omega, hs, ?_⟩
    rw [h.wellFormed.2.2.2.1]
    exact hs
  simp only [discoverSegment, ok_iff, ht, decode_encode_header he h.inRange, hl]
  exact ⟨(), fun info hi => (hb info hi).1, (), Nat.le_add_right _ _, _, rfl, (),
    ⟨rfl, h.payloadCapacity⟩, _, h.scanOneSegment_eq htl ha, (), hb, rfl⟩

/-- What the files of a layout are remembered as. -/
def rememberedSegments (front : List Stretch) (last : Stretch) (tail : List UInt8) :
    List WalSegmentInfo :=
  front.map (·.remembered [] false) ++ [last.remembered tail true]

theorem discoverChain_eq {prev : Option WalSegmentInfo}
    (hn : ∀ str ∈ front ++ [last], str.Sound dir manifest.payloadCapacity)
    (hc : (front ++ [last]).IsChain fun a b => b.id = a.id + 1 ∧ b.start = a.stop)
    (ht : TornBehind last manifest.payloadCapacity tail) (hl : file.bytes = last.file.bytes ++ tail)
    (hp : ∀ fst ∈ (front ++ [last]).head?, Precedes prev fst) :
    discoverChain manifest prev (foundFiles front last file) =
      .ok (rememberedSegments front last tail) := by
  induction front generalizing prev with
  | nil =>
    have hls := (hn last (by simp)).discoverSegment_eq ht (Or.inr rfl) (hp last (by simp))
    simp only [foundFiles, map_nil, nil_append, discoverChain, isEmpty_nil, hl, hls, ok_bind]
    rfl
  | cons fst front ih =>
    have hf := hn fst (by simp)
    have hs := hf.discoverSegment_eq hf.untorn
      (.inl rfl : _ ∨ (foundFiles front last file).isEmpty = true) (hp fst (by simp))
    rw [append_nil] at hs
    have hr := @ih (some (fst.remembered [] false))
      (fun str hm => hn str (mem_cons_of_mem _ hm)) hc.tail (by
        intro next hx info hi
        rw [Option.mem_some_iff] at hi
        subst hi
        exact (isChain_cons.mp hc).1 next hx)
    have he : (foundFiles front last file).isEmpty = false := by simp [foundFiles]
    show discoverChain manifest prev ((fst.id, fst.file) :: foundFiles front last file) = _
    rw [he] at hs
    simp only [discoverChain, he, hs, ok_bind, hr]
    rfl

theorem Shelved.chain (h : Shelved manifest dir front last) :
    (front ++ [last]).IsChain fun a b => b.id = a.id + 1 ∧ b.start = a.stop := by
  refine isChain_iff_getElem.mpr fun i hi => ⟨?_, isChain_iff_getElem.mp h.contiguous i hi⟩
  rw [h.id_at (getElem?_eq_getElem hi), h.id_at (getElem?_eq_getElem (Nat.lt_of_succ_lt hi))]
  rfl

theorem openedManifest_eq (h : Found manifest dir front last tail) :
    readManifest dir = .ok manifest := by
  obtain ⟨clean, hc, hs, _⟩ := h.clean
  have he := encodeWalSegmentManifest_ok.mpr ⟨hc.wellFormed, rfl⟩
  simp only [readManifest, hs, hc.manifestFile, length_of_encode_manifest he,
    decode_encode_manifest he hc.inRange, require_of _ trivial, ok_bind]

theorem discoverSegments_eq (h : Found manifest dir front last tail) :
    discoverSegments manifest dir = .ok (rememberedSegments front last tail) := by
  obtain ⟨clean, hc, _, hfr⟩ := h.clean
  obtain ⟨file, hr, hb⟩ := h.file
  have hf := listSegments_found hc hfr hr
  have hs : (foundFiles front last file).head?.map Prod.fst =
      some manifest.firstRetainedSegmentId := by
    cases front with
    | nil => simpa [foundFiles] using hc.id_at (i := 0) rfl
    | cons fst front => simpa [foundFiles] using hc.id_at (i := 0) rfl
  simp only [discoverSegments, hf, require_of _ hs, ok_bind]
  exact discoverChain_eq hc.sound hc.chain h.torn hb (by simp [Precedes])

/-! The storage that results. -/

def reopened (place : Place) (manifest : WalSegmentManifest) (front : List Stretch) (last : Stretch)
    (tail : List UInt8) : SegmentedWalStorage :=
  { blank place with
    manifest
    segments := rememberedSegments front last tail
    activeDescriptor := some last.id
    logicalEnd := last.stop
    lastRecordLsn := (layoutRecords (front ++ [last])).getLast?.map (·.lsn)
    durableLsn := (layoutRecords (front ++ [last])).getLast?.map (·.lsn)
    truncatedTail := !tail.isEmpty }

theorem scanSegments_remembered {vol : Volume} (h : Found manifest dir front last tail)
    (hd : vol.directory? storage.place = some dir) :
    storage.scanSegments vol (rememberedSegments front last tail) =
      .ok (front.map Stretch.scan ++ [last.scanTorn tail]) := by
  obtain ⟨clean, hc, _, hfr⟩ := h.clean
  obtain ⟨file, hr, hb⟩ := h.file
  have ho : storage.openSegment vol last.id "Could not open WAL segment for scanning" =
      .ok (last.file.bytes ++ tail) := by
    rw [SegmentedWalStorage.openSegment, Volume.segment?, hd, Option.bind_some, hr]
    exact congrArg Except.ok hb
  have hl : storage.scanSegments vol [last.remembered tail true] = .ok [last.scanTorn tail] := by
    rw [scanSegments, scanSegment,
      show storage.openSegment vol (last.remembered tail true).header.segmentId _ = _ from ho,
      ok_bind, isEmpty_nil, show scanOneSegment (last.remembered tail true).header _ _ = _ from
        hc.last_sound.scanOneSegment_eq h.torn (.inr rfl)]
    rfl
  have hf : ∀ str ∈ front, str.Sound dir manifest.payloadCapacity :=
    fun str hm => (hc.sound str (mem_append_left _ hm)).frame
      (hfr _ (hc.front_lt hm).ne)
  clear hc hfr hr hb ho h
  unfold rememberedSegments
  induction front with
  | nil => exact hl
  | cons str front ih =>
    have hs := hf str (by simp)
    have hsc := hs.scanOneSegment_eq hs.untorn (Or.inl rfl : _ ∨
      (front.map (·.remembered [] false) ++ [last.remembered tail true]).isEmpty = true)
    rw [append_nil] at hsc
    rw [map_cons, cons_append, scanSegments, scanSegment,
      show storage.openSegment vol (str.remembered [] false).header.segmentId _ = _ from
        hs.openSegment_eq hd _, ok_bind,
      show scanOneSegment (str.remembered [] false).header _ _ = _ from hsc, ok_bind,
      ih fun other hm => hf other (mem_cons_of_mem _ hm)]
    rfl

theorem head?_remembered (front : List Stretch) (last : Stretch) (tail : List UInt8) :
    (rememberedSegments front last tail).head?.map (·.header.startLsn) =
      (front ++ [last]).head?.map start := by
  cases front <;> rfl

theorem getLast?_remembered (front : List Stretch) (last : Stretch) (tail : List UInt8) :
    (rememberedSegments front last tail).getLast? = some (last.remembered tail true) :=
  getLast?_concat

/-- The log that is found is opened as it is. -/
theorem openExistingStore_eq {volume : Volume} (h : Found manifest dir front last tail)
    (hd : volume.directory? place = some dir) :
    openExistingStore place volume dir = .ok (reopened place manifest front last tail) := by
  obtain ⟨clean, hc, _, _⟩ := h.clean
  obtain ⟨first, layout, hl⟩ := exists_first front last
  simp only [openExistingStore, openedManifest_eq h, ok_bind, discoverSegments_eq h,
    getLast?_remembered]
  generalize hopn : ({ blank place with
    manifest
    segments := rememberedSegments front last tail
    logicalEnd := (last.remembered tail true).logicalEndLsn
    activeDescriptor := some (last.remembered tail true).header.segmentId } : SegmentedWalStorage) =
      opened
  have hs : Scans opened volume front last tail := by
    subst hopn
    exact ⟨head?_remembered front last tail, rfl, scanSegments_remembered h hd⟩
  rw [hs.scan_eq hc hl]
  rfl

/-- A segment as a storage that opened it knows it. -/
def Stretch.reopened (stretch : Stretch) (active : Bool) : Stretch :=
  { stretch with info := stretch.remembered [] active }

theorem Stretch.Sound.same_reopened {str : Stretch} {cap : Nat}
    (h : str.Sound dir cap) (active : Bool) : str.Same (str.reopened active) :=
  ⟨rfl, rfl, h.physicalBytes, rfl, rfl⟩

theorem Shelved.reopened (h : Shelved manifest dir front last) :
    Shelved manifest dir (front.map (·.reopened false)) (last.reopened true) := by
  have hi : (front.map (·.reopened false) ++ [last.reopened true]).map Stretch.id =
      (front ++ [last]).map Stretch.id := by
    rw [map_append, map_map, map_append]
    rfl
  refine ⟨h.manifestFile, h.wellFormed, h.inRange, ?_, ?_, ?_, ?_, ?_⟩
  · rw [hi, h.ids, length_map]
  · have hc := isChain_append.mp h.contiguous
    refine isChain_append.mpr ⟨(isChain_map _).mpr hc.1, by simp, ?_⟩
    intro a ha b hb
    rw [getLast?_map, Option.mem_map] at ha
    obtain ⟨str, ht, rfl⟩ := ha
    simp only [head?_cons, Option.mem_some_iff] at hb
    subst hb
    exact hc.2.2 str ht last (by simp)
  · intro str hm
    rcases mem_append.mp hm with hm | hm
    · obtain ⟨old, ho, rfl⟩ := mem_map.mp hm
      have hs := h.sound old (mem_append_left _ ho)
      exact hs.same (hs.same_reopened false) hs.entry hs.synced
    · rw [mem_singleton.mp hm]
      exact h.last_sound.same
        (h.last_sound.same_reopened true) h.last_sound.entry h.last_sound.synced
  · intro id hle hr
    obtain ⟨str, hm, rfl⟩ := h.only id hle hr
    have hp : str.id ∈ (front.map (·.reopened false) ++ [last.reopened true]).map Stretch.id := by
      rw [hi]
      exact mem_map_of_mem hm
    exact mem_map.mp hp
  · intro str hm
    obtain ⟨old, ho, rfl⟩ := mem_map.mp hm
    exact h.closed old ho

theorem Shelved.stored_reopened (h : Shelved manifest dir front last) :
    Stored (MiniDb.Wal.reopened place manifest front last []) dir
      (front.map (·.reopened false)) (last.reopened true) := by
  refine ⟨h.reopened, ?_, rfl, fun id hi => (Option.some.inj hi).symm,
    fun hn => absurd hn (by simp [MiniDb.Wal.reopened]), rfl⟩
  rw [map_append, map_map]
  rfl

theorem layoutRecords_reopened (front : List Stretch) (last : Stretch) :
    layoutRecords (front.map (·.reopened false) ++ [last.reopened true]) =
      layoutRecords (front ++ [last]) := by
  simp [layoutRecords, flatMap_map, Stretch.reopened]

/-! A new log. -/

/-- The first segment of a log. -/
def Stretch.initial (startLsn capacity : Nat) : Stretch :=
  ⟨⟨⟨1, startLsn, 0, startLsn, capacity, 0⟩, startLsn, segmentHeaderSize, true⟩, [], [],
    segmentHeaderSize⟩

/-- The state in which a new directory gets its manifest. -/
def StorageState.madeDirectory (place : Place) (world : World) (manifest : WalSegmentManifest) :
    StorageState :=
  { (⟨blank place, world⟩ : StorageState).after (.makeDirectory place) with
    storage := { blank place with manifest } }

/-- The state a new log is in before its parent directory is synchronised. -/
def StorageState.newStore (place : Place) (world : World) (manifest : WalSegmentManifest) :
    StorageState :=
  ((StorageState.madeDirectory place world manifest).withManifest
    (checkedBlock manifest.layout)).withSegment manifest.initialLsn

theorem initial_wellFormed (h : manifest.WellFormed) :
    (initial manifest.initialLsn manifest.payloadCapacity).info.header.WellFormed :=
  ⟨Nat.one_ne_zero, h.2.2.1, h.2.2.2.1, rfl, h.1, rfl, Iff.intro (fun _ => rfl) fun _ => rfl⟩

theorem madeDirectory_directory? {place : Place} {world : World} {manifest : WalSegmentManifest} :
    (madeDirectory place world manifest).directory? = some Directory.empty := by
  cases place <;> rfl

/-- The directory of a new log. -/
def Directory.initial (manifest : WalSegmentManifest) : Directory :=
  (Directory.empty.withManifest (checkedBlock manifest.layout)).withSegment 1
    (checkedBlock (Stretch.initial manifest.initialLsn manifest.payloadCapacity).info.header.layout)

theorem newStore_directory? :
    (newStore place world manifest).directory? = some (Directory.initial manifest) := by
  have hm := @madeDirectory_directory? place world manifest
  exact directory?_withHeader (directory?_withManifest hm)

theorem shelved_initial (hf : manifest.WellFormed) (hr : manifest.InRange)
    (hfs : manifest.firstRetainedSegmentId = 1) :
    Shelved manifest (Directory.initial manifest) []
      (initial manifest.initialLsn manifest.payloadCapacity) := by
  have hs : ∀ id, (Directory.initial manifest).segment id = if id = 1 then
      ⟨some (initial manifest.initialLsn manifest.payloadCapacity).file, []⟩ else .absent := by
    intro id
    rw [Directory.initial, Directory.segment_withSegment, length_checkedBlock rfl]
    simp only [file, initial, append_nil]
    rfl
  refine ⟨?_, hf, hr, ?_, by simp, ?_, ?_, by simp⟩
  · show (⟨some ⟨checkedBlock manifest.layout, (checkedBlock manifest.layout).length⟩, []⟩ :
      Entry SyncedFile) = _
    rw [length_checkedBlock rfl]
  · rw [hfs]
    rfl
  · intro str hm
    rw [mem_singleton.mp hm]
    exact ⟨initial_wellFormed hf, ⟨Nat.one_lt_two_pow (by decide), hr.initialLsn,
      Nat.two_pow_pos 64, hr.payloadCapacity⟩, rfl,
      rfl, (hs 1).trans (if_pos rfl), .nil, Nat.zero_le _, rfl, hf.2.2.1, rfl, le_rfl⟩
  · intro id _ hc
    refine ⟨_, mem_singleton.mpr rfl, ?_⟩
    show 1 = id
    by_contra hne
    rw [hs, if_neg (Ne.symm hne)] at hc
    exact hc rfl

/-- A new log is laid out but for the parent directory, which may not be there. -/
theorem createNewStore_eq (hf : (initialManifest payloadCapacity migrationBaseLsn).WellFormed) :
    createNewStore payloadCapacity migrationBaseLsn ⟨blank place, world⟩ = (do
        let s ← get
        if s.world.hasParent then onWorld (emit .syncParent)
        else throw (ioError
          "Could not open directory for durability sync: No such file or directory") :
            StorageM Unit)
        (newStore place world (initialManifest payloadCapacity migrationBaseLsn)) := by
  generalize hman : initialManifest payloadCapacity migrationBaseLsn = manifest at hf
  have hm : modifyStorage (fun storage => { storage with manifest })
      ((⟨blank place, world⟩ : StorageState).after (.makeDirectory place)) =
      .ok () (madeDirectory place world manifest) := rfl
  have hp := @publishManifest_run (madeDirectory place world manifest) _
    (encodeWalSegmentManifest_ok.mpr ⟨hf, rfl⟩)
  have hd := @directory?_withManifest _ _ (checkedBlock manifest.layout)
    (@madeDirectory_directory? place world manifest)
  have hs := @createSegment_run _ _ _ manifest.initialLsn
    (show closeActive (withManifest (madeDirectory place world manifest)
      (checkedBlock manifest.layout)) = .ok () _ from rfl) hd rfl (initial_wellFormed hf)
  unfold createNewStore
  rw [hman]
  refine run_get_bind.trans ((run_bind (emit_run _ _)).trans ?_)
  refine (run_bind hm).trans ((run_bind hp).trans ?_)
  exact run_bind hs

theorem stored_initial (hf : manifest.WellFormed) (hr : manifest.InRange)
    (hs : manifest.firstRetainedSegmentId = 1) :
    Stored (newStore place world manifest).storage (Directory.initial manifest) []
      (initial manifest.initialLsn manifest.payloadCapacity) :=
  ⟨shelved_initial hf hr hs, rfl, rfl, fun id hi => (Option.some.inj hi).symm,
    fun hn => absurd hn (by simp [newStore, withSegment]), rfl⟩

theorem StorageState.directory?_syncParent (s : StorageState) :
    (s.after .syncParent).directory? = s.directory? := by
  show (s.world.volume.perform .syncParent).directory? s.storage.place =
    s.world.volume.directory? s.storage.place
  cases s.storage.place <;> rfl

/-! Constructor and destructor. -/

theorem initialManifest_inRange (hc : payloadCapacity < 2 ^ 32) (hb : migrationBaseLsn < 2 ^ 64) :
    (initialManifest payloadCapacity migrationBaseLsn).InRange := by
  refine ⟨hc, Nat.one_lt_two_pow (by decide), ?_, hb⟩
  show (if _ then _ else _) < _
  split
  · decide
  · exact hb

/-- The constructor makes a log that holds nothing. -/
theorem create_new {world' : World} (hc : payloadCapacity < 2 ^ 32)
    (hb : migrationBaseLsn < 2 ^ 64) (ho : world.volume.directory? place = none)
    (h : create place payloadCapacity true migrationBaseLsn world = .ok storage world') :
    StorageState.Holds ⟨storage, world'⟩ [] (initial
      (initialManifest payloadCapacity migrationBaseLsn).initialLsn payloadCapacity) ∧
      storage.place = place ∧ storage.manifest = initialManifest payloadCapacity migrationBaseLsn ∧
      storage.lastRecordLsn = none ∧ storage.activeDescriptor = some 1 := by
  simp only [create, run_bind_ok, run_fromExcept_ok, require_ok, run_get_ok] at h
  obtain ⟨_, _, ⟨_, rfl⟩, _, _, ⟨rfl, rfl⟩, h⟩ := h
  simp only [ho, if_true, construct] at h
  cases hn : createNewStore payloadCapacity migrationBaseLsn ⟨blank place, world⟩ with
  | error e s => simp [hn] at h
  | ok _ s =>
    simp only [hn, EStateM.Result.ok.injEq] at h
    obtain ⟨rfl, rfl⟩ := h
    have hf : (initialManifest payloadCapacity migrationBaseLsn).WellFormed := by
      unfold createNewStore at hn
      obtain ⟨_, s₁, hs₁, hn⟩ := run_bind_ok.mp hn
      obtain ⟨_, s₂, hs₂, hn⟩ := run_bind_ok.mp hn
      obtain ⟨_, s₃, hs₃, hn⟩ := run_bind_ok.mp hn
      obtain ⟨_, s₄, hs₄, _⟩ := run_bind_ok.mp hn
      obtain ⟨_, s₅, hs₅, hs₄⟩ := run_bind_ok.mp hs₄
      obtain ⟨bs, _, he, _⟩ := run_bind_ok.mp hs₄
      obtain ⟨hf, _⟩ := encodeWalSegmentManifest_ok.mp (run_fromExcept_ok.mp he).1
      cases hs₃
      cases hs₅
      exact hf
    rw [createNewStore_eq hf] at hn
    obtain ⟨_, _, hg, hn⟩ := run_bind_ok.mp hn
    obtain ⟨rfl, rfl⟩ := run_get_ok.mp hg
    split at hn
    · cases hn
      refine ⟨⟨_, ?_, stored_initial hf (initialManifest_inRange hc hb) rfl⟩, rfl, rfl, rfl, rfl⟩
      exact (directory?_syncParent _).trans newStore_directory?
    · cases hn

/-- The constructor opens the log it finds. -/
theorem create_existing {place : Place} {world : World} {createIfMissing : Bool}
    {migrationBaseLsn : Nat} {manifest : WalSegmentManifest} {dir : Directory}
    {front : List Stretch} {last : Stretch} {tail : List UInt8}
    (h : Found manifest dir front last tail) (hd : world.volume.directory? place = some dir) :
    create place manifest.payloadCapacity createIfMissing migrationBaseLsn world =
      .ok (reopened place manifest front last tail) world := by
  obtain ⟨clean, hc, _, _⟩ := h.clean
  simp only [create, require_of _ hc.wellFormed.1, fromExcept, run_eq, hd,
    openExistingStore_eq h hd,
      require_of _ (show (reopened place manifest front last tail).manifest.payloadCapacity =
      manifest.payloadCapacity from rfl)]

theorem close_run (h : StorageState.Holds ⟨storage, world⟩ front last) :
    ∃ world' last' dir, close storage world = .ok () world' ∧
      world'.volume.directory? storage.place = some dir ∧
      Shelved storage.manifest dir front last' ∧ last.Same last' ∧
      world'.hasParent = world.hasParent := by
  obtain ⟨s', last', hf, ⟨dir, hd, hs⟩, hm, _, ht, _, _⟩ := flush_run h
  refine ⟨s'.world, last', dir, ?_, ?_, ?_, hm, ht.hasParent⟩
  · simp only [close, hf]
  · rw [← show s'.storage.place = storage.place from ht.place]
    exact hd
  · rw [← show s'.storage.manifest = storage.manifest from ht.manifest]
    exact hs.toShelved

end MiniDb.Wal
