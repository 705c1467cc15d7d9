import MiniDb.LogOpening
import MiniDb.SegmentCrash

/-!
The log after a crash. Making a log and starting a new segment each run through a few
effects on the files; a crash may come after any of them and cut what was not
synchronised. What is left is opened again and scanned. An opening accepts a directory
only with its manifest and with the whole header of every segment, and a single file
only when it is empty or has its whole header.
-/
namespace MiniDb.Wal
open ByteString Outcome CrashFiles Stateful Wal.LogManager StorageState SyncedFile Volume List
  Option

/-! Opening and scanning. -/

def openAndScan (config : LogConfig) : EStateM DbError World WalScanResult := do
  let manager ← LogManager.create config
  let world ← get
  fromExcept (LogManager.scan ⟨manager, world⟩)

/-- The log is opened and a scan of it returns these records. -/
def Reopens (config : LogConfig) (world : World) (records : List LogRecord) : Prop :=
  ∃ result world', openAndScan config world = .ok result world' ∧ result.records = records

section
variable {cfg : LogConfig} {mgr : LogManager} {w w' : World} {start : Nat}
  {rs : List LogRecord}

theorem Reopens.unique {rs' : List LogRecord} (h : Reopens cfg w rs)
    (h' : Reopens cfg w rs') : rs = rs' := by
  obtain ⟨res, world₁, hr, rfl⟩ := h
  obtain ⟨res', world₂, hr', rfl⟩ := h'
  rw [hr] at hr'
  cases hr'
  rfl

theorem Reopens.created (h : Reopens cfg w rs) : ∃ mgr w', create cfg w = .ok mgr w' := by
  obtain ⟨_, _, hr, _⟩ := h
  obtain ⟨mgr, w', hc, _⟩ := run_bind_ok.mp hr
  exact ⟨mgr, w', hc⟩

/-- A manager without a buffer scans what is on disk. -/
theorem reopens_of_scan {res : WalScanResult} (hc : create cfg w = .ok mgr w')
    (he : mgr.buffer = []) (hs : scanDisk ⟨mgr, w'⟩ = .ok res) : Reopens cfg w res.records := by
  refine ⟨res, w', ?_, rfl⟩
  refine (run_bind hc).trans (run_get_bind.trans ?_)
  refine run_fromExcept_ok.mpr ⟨?_, rfl⟩
  rw [scan, scanIncludingBuffer, hs, ok_bind, if_pos (.inr he)]
  rfl

theorem Opened.reopens (h : Opened cfg mgr w' start rs)
    (hc : create cfg w = .ok mgr w') : Reopens cfg w rs :=
  reopens_of_scan hc h.empty h.held.disk.scan

end

/-! Directories. -/

section
variable {cfg : LogConfig} {w : World} {dir : Directory}

theorem openSegmented_found {man : WalSegmentManifest} {pre : List Stretch} {last : Stretch}
    {tail : List UInt8} (h : Found man dir pre last tail)
    (hd : w.volume.directory? .published = some dir)
    (hp : man.payloadCapacity = cfg.segmentPayloadCapacity.toNat) :
    ∃ mgr res, openSegmented cfg w = .ok mgr w ∧ mgr.buffer = [] ∧
      scanDisk ⟨mgr, w⟩ = .ok res ∧ res.records = layoutRecords (pre ++ [last]) ∧
      mgr.segmented = some (reopened .published man pre last tail) ∧
      mgr.nextLsn = last.stop ∧ mgr.truncatedTail = !tail.isEmpty := by
  have hc := @create_existing .published w true invalidLsn _ _ _ _ _ h hd
  rw [hp] at hc
  obtain ⟨clean, hcl, _, _⟩ := h.clean
  obtain ⟨fst, lay, hl⟩ := exists_first pre last
  have hn : Scans (reopened .published man pre last tail) w.volume pre last tail :=
    ⟨head?_remembered pre last tail, rfl, scanSegments_remembered h hd⟩
  have hs := hn.scan_eq hcl hl
  have hrd := @run_fromExcept_ok DbError World WalScanResult w _ _ w |>.mpr ⟨hs, rfl⟩
  unfold openSegmented
  cases cfg.openMode <;>
    exact
      ⟨_, _, (run_bind hc).trans (run_get_bind.trans (run_bind hrd)), rfl, hs, rfl, rfl, rfl, rfl⟩

/-- A log that is found is opened and scanned, with or without a torn record at its end. -/
theorem reopens_found {man : WalSegmentManifest} {pre : List Stretch} {last : Stretch}
    {tail : List UInt8} (h : Found man dir pre last tail) (hb : cfg.bufferCapacity ≠ 0)
    (hm : opensSegmented cfg w.volume = true) (hd : w.volume.directory? .published = some dir)
    (hp : man.payloadCapacity = cfg.segmentPayloadCapacity.toNat) :
    Reopens cfg w (layoutRecords (pre ++ [last])) := by
  obtain ⟨world₁, ht, hc⟩ := create_run hb w
  have hd₁ : world₁.volume.directory? .published = some dir := by
    rw [ht.staging]
    exact hd
  obtain ⟨mgr, res, ho, he, hs, hr, _⟩ := openSegmented_found h hd₁ hp
  rw [hm] at hc
  rw [← hr]
  exact reopens_of_scan (hc.trans ho) he hs

theorem Reopens.opensExisting {rs : List LogRecord} (h : Reopens cfg w rs)
    (hm : opensSegmented cfg w.volume = true) (hd : w.volume.directory? .published = some dir) :
    ∃ pl vol stg, SegmentedWalStorage.openExistingStore pl vol dir = .ok stg := by
  obtain ⟨mgr, w', hc⟩ := h.created
  obtain ⟨world₁, ht, hr⟩ := create_run (bufferCapacity_of_create hc) w
  have hd₁ : world₁.volume.directory? .published = some dir := by
    rw [ht.staging]
    exact hd
  rw [hr, hm] at hc
  obtain ⟨stg, _, hs, _⟩ := run_bind_ok.mp hc
  simp only [SegmentedWalStorage.create, run_bind_ok, run_fromExcept_ok, run_get_ok] at hs
  obtain ⟨_, _, ⟨_, rfl⟩, _, _, ⟨rfl, rfl⟩, hs⟩ := hs
  simp only [hd₁, run_bind_ok, run_fromExcept_ok] at hs
  obtain ⟨opened, _, ⟨ho, _⟩, _⟩ := hs
  exact ⟨_, _, opened, ho⟩

end

/-! Rotating. -/

/-- A crash in a rotation left the new segment whole or not at all, and of the records
that were not yet synchronised none that is whole. -/
def RotationSafe (last : Stretch) (tail : List UInt8) (file : SyncedFile) (volume : Volume) :
    Prop :=
  ∀ directory ∈ volume.published.current, RotationWhole directory last tail ∧
    ∀ cut ∈ (directory.segment last.id).current,
      last.recordsWithin cut.bytes.length = last.recordsWithin file.synced

variable {cfg : LogConfig} {vol : Volume}

theorem opensSegmented_published {dir : Directory} (hm : cfg.storageMode ≠ .legacySingleFile)
    (hp : vol.directory? .published = some dir) : opensSegmented cfg vol = true := by
  cases hs : cfg.storageMode with
  | legacySingleFile => exact absurd hs hm
  | segmented => simp [opensSegmented, hs]
  | auto => simp [opensSegmented, hs, hp]

theorem Standing.rotation_reopens_iff {s : StorageState} {dir : Directory}
    {pre : List Stretch} {last : Stretch} {tail : List UInt8} {file : SyncedFile}
    {hasParent : Bool} (h : Standing s dir pre last tail file)
    (hb : cfg.bufferCapacity ≠ 0) (hm : cfg.storageMode ≠ .legacySingleFile)
    (hc : s.storage.manifest.payloadCapacity = cfg.segmentPayloadCapacity.toNat)
    (hcr : Interrupted s.world (finalState SegmentedWalStorage.rotate s).world vol) :
    Reopens cfg ⟨vol, [], hasParent⟩ (layoutRecords pre ++ last.recordsWithin file.synced) ↔
      RotationSafe last tail file vol := by
  obtain ⟨dir', hp, hlf⟩ := h.rotation_left hcr
  have hd := congrArg Entry.current hp
  have hs := opensSegmented_published hm hd
  constructor
  · intro hrp fd hf
    obtain rfl := some.inj (hd.symm.trans hf)
    have hw := h.rotation_refused hlf (hrp.opensExisting hs hd)
    refine ⟨hw, fun cut hu => ?_⟩
    obtain ⟨pre', last', tail', file', hf', hl', hr⟩ := h.rotation_found hlf hw
    obtain rfl := some.inj (hl'.symm.trans hu)
    have hsm := hrp.unique (reopens_found hf' hb hs hd hc)
    exact (append_cancel_left (hsm.trans hr)).symm
  · intro hsf
    obtain ⟨hw, ht⟩ := hsf dir' hd
    obtain ⟨pre', last', tail', file', hf', hl', hr⟩ := h.rotation_found hlf hw
    rw [← ht file' hl', ← hr]
    exact reopens_found hf' hb hs hd hc

/-! Making a log. -/

/-- The parameters of a log that can be made. -/
def LogConfig.Usable (config : LogConfig) : Prop :=
  config.bufferCapacity ≠ 0 ∧
    (config.storageMode ≠ .legacySingleFile → 128 ≤ config.segmentPayloadCapacity.toNat)

instance (config : LogConfig) : Decidable config.Usable := inferInstanceAs (Decidable (_ ∧ _))

/-- There is no log yet: no directory of segments where one could be opened, and no
single file that is not empty. -/
def Unmade (config : LogConfig) (volume : Volume) : Prop :=
  (config.storageMode ≠ .legacySingleFile → volume.published = .absent) ∧
    (config.storageMode ≠ .segmented → ∀ value ∈ volume.legacy.current :: volume.legacy.earlier,
      ∀ file ∈ value, file.bytes = [])

/-- The manifest of a log that is not migrated. -/
def LogConfig.newManifest (config : LogConfig) : WalSegmentManifest :=
  SegmentedWalStorage.initialManifest config.segmentPayloadCapacity.toNat invalidLsn

theorem newManifest_wellFormed (h : 128 ≤ cfg.segmentPayloadCapacity.toNat) :
    cfg.newManifest.WellFormed :=
  ⟨h, Nat.one_ne_zero, (by decide : isValidLsn walHeaderSize), le_rfl, .inl rfl⟩

theorem newManifest_inRange (cfg : LogConfig) : cfg.newManifest.InRange :=
  initialManifest_inRange cfg.segmentPayloadCapacity.toNat_lt (by decide)

/-- What a crash leaves of a log that was being made. -/
structure CreationRemains (config : LogConfig) (volume : Volume) : Prop where
  published : config.storageMode ≠ .legacySingleFile → volume.published = .absent ∨
    ∃ directory, volume.published = ⟨some directory, []⟩ ∧ CreationLeft directory config.newManifest
  legacy : config.storageMode ≠ .segmented → ∀ file ∈ volume.legacy.current,
    ∃ count, file.bytes = encodeWalFileHeader.take count

/-- A crash left a log that is whole or nothing of it, where it can be made again. -/
def CreationSafe (config : LogConfig) (hasParent : Bool) (volume : Volume) : Prop :=
  if opensSegmented config volume then
    (volume.published.current = none → hasParent = true) ∧
      ∀ directory ∈ volume.published.current, CreationWhole directory
  else ∀ file ∈ volume.legacy.current, file.bytes = [] ∨ walHeaderSize ≤ file.bytes.length

/-! Opening where there is no log. -/

section
variable {cfg : LogConfig} {w : World}

/-- A directory that is missing is made, and the parent directory is synchronised where
the path names one. -/
theorem create_missing (hc : 128 ≤ cfg.segmentPayloadCapacity.toNat)
    (hm : w.volume.directory? .published = none) :
    SegmentedWalStorage.create .published cfg.segmentPayloadCapacity.toNat true invalidLsn w =
      if w.hasParent then .ok (newStore .published w cfg.newManifest).storage
        ((newStore .published w cfg.newManifest).after .syncParent).world
      else .error
        (ioError "Could not open directory for durability sync: No such file or directory")
        (newStore .published w cfg.newManifest).world := by
  have hn : SegmentedWalStorage.createNewStore cfg.segmentPayloadCapacity.toNat invalidLsn
      ⟨SegmentedWalStorage.blank .published, w⟩ = if w.hasParent
        then .ok () ((newStore .published w cfg.newManifest).after .syncParent)
        else .error
          (ioError "Could not open directory for durability sync: No such file or directory")
          (newStore .published w cfg.newManifest) := by
    rw [createNewStore_eq (newManifest_wellFormed hc)]
    refine (run_bind (rfl : (get : StorageM StorageState) _ = .ok _ _)).trans ?_
    rw [show (newStore .published w (SegmentedWalStorage.initialManifest
        cfg.segmentPayloadCapacity.toNat invalidLsn)).world.hasParent = w.hasParent from rfl]
    cases w.hasParent <;> rfl
  refine (run_bind (run_fromExcept_ok.mpr ⟨require_of _ hc, rfl⟩)).trans ?_
  refine (run_bind (rfl : (get : EStateM DbError World World) w = .ok w w)).trans ?_
  simp only [hm, if_true, SegmentedWalStorage.construct, hn]
  cases w.hasParent <;> rfl

theorem openSegmented_made (hmd : cfg.storageMode ≠ .legacySingleFile)
    (hcp : 128 ≤ cfg.segmentPayloadCapacity.toNat)
    (hm : w.volume.directory? .published = none) (hp : w.hasParent = true) :
    ∃ mgr, openSegmented cfg w = .ok mgr
      ((newStore .published w cfg.newManifest).after .syncParent).world := by
  have hc := create_missing hcp hm
  rw [if_pos hp] at hc
  obtain ⟨hh, hl, hn, _, ho⟩ := create_new cfg.segmentPayloadCapacity.toNat_lt (by decide) hm hc
  have hd : Disk ⟨{ blank cfg with segmented := some _ }, _⟩ walHeaderSize [] walHeaderSize :=
    .segments ⟨rfl, hmd, hh, hl, by rw [hn]; rfl, by rw [ho]; rfl,
      (by decide : 1 ≤ walHeaderSize)⟩ rfl rfl rfl
  obtain ⟨mgr, hop, _⟩ := openSegmented_run hc hd (by decide)
  exact ⟨mgr, hop⟩

theorem openSegmented_unmade (hcp : 128 ≤ cfg.segmentPayloadCapacity.toNat)
    (hm : w.volume.directory? .published = none) (hp : w.hasParent = false) :
    openSegmented cfg w =
      .error (ioError "Could not open directory for durability sync: No such file or directory")
        (newStore .published w cfg.newManifest).world := by
  have hc := create_missing hcp hm
  rw [if_neg (by rw [hp]; exact Bool.false_ne_true)] at hc
  simp only [openSegmented, run_eq, hc]

/-- The effects that make the single file, which may be there without anything in it. -/
def fileEffects (volume : Volume) : List Effect :=
  (if volume.legacy.current = none then [.createLegacy] else []) ++
    [.writeLegacy 0 encodeWalFileHeader, .syncLegacy]

theorem openLegacy_made (hm : ∀ file ∈ w.volume.legacy.current, file.bytes = []) :
    ∃ w', openLegacy cfg w = .ok (blank cfg) w' ∧ w.Emits w' (fileEffects w.volume) := by
  obtain ⟨world₁, file, hk, he, hf, hb⟩ : ∃ world₁ file,
      callIf (w.volume.legacy.current = none) (emit .createLegacy) w = .ok () world₁ ∧
      w.Emits world₁ (if w.volume.legacy.current = none then [.createLegacy] else []) ∧
      world₁.volume.legacy.current = some file ∧ file.bytes = [] := by
    rw [callIf]
    split
    · exact ⟨_, .empty, rfl, ⟨rfl, rfl, rfl⟩, rfl, rfl⟩
    · obtain ⟨file, hf⟩ := ne_none_iff_exists'.mp ‹_›
      exact ⟨w, file, rfl, .refl _, hf, hm file hf⟩
  have hr : fromExcept (legacyBytes world₁.volume "Could not open WAL file") world₁ =
      (.ok file.bytes world₁ : EStateM.Result DbError World (List UInt8)) :=
    run_fromExcept_ok.mpr ⟨by rw [legacyBytes, hf], rfl⟩
  obtain ⟨world₂, hi, hw⟩ : ∃ world₂, initializeNewWal cfg world₁ = .ok (blank cfg) world₂ ∧
      world₁.Emits world₂ [.writeLegacy 0 encodeWalFileHeader, .syncLegacy] :=
    ⟨_, rfl, rfl, append_assoc _ [_] [_], rfl⟩
  refine ⟨world₂, ?_, he.trans hw⟩
  refine run_get_bind.trans ((run_bind hk).trans (run_get_bind.trans ((run_bind hr).trans ?_)))
  rw [if_pos (by rw [hb]; rfl)]
  exact hi

/-- A single file is opened when it is empty or has its header. -/
theorem openLegacy_header {file : SyncedFile} (hf : w.volume.legacy.current = some file)
    {mgr : LogManager} {w' : World} (ho : openLegacy cfg w = .ok mgr w') :
    file.bytes = [] ∨ walHeaderSize ≤ file.bytes.length := by
  simp only [openLegacy, run_bind_ok, run_get_ok, run_fromExcept_ok] at ho
  obtain ⟨_, _, ⟨rfl, rfl⟩, _, world₁, hk, _, _, ⟨rfl, rfl⟩, bs, _, ⟨hr, rfl⟩, ho⟩ := ho
  rw [callIf, if_neg (by simp [hf])] at hk
  obtain ⟨_, rfl⟩ := run_pure_ok.mp hk
  rw [legacyBytes, hf] at hr
  obtain rfl := Except.ok.inj hr
  split at ho
  · exact .inl (eq_nil_of_length_eq_zero ‹_›)
  · refine .inr ?_
    cases hm : cfg.openMode with
    | eagerValidated =>
      rw [hm] at ho
      obtain ⟨hd, _⟩ := run_fromExcept_ok.mp ho
      simp only [loadExistingWal, scanWalFile, scanDescriptor, ok_iff] at hd
      obtain ⟨_, ⟨_, hl, _⟩, _⟩ := hd
      exact hl
    | deferredRecovery =>
      rw [hm] at ho
      obtain ⟨hd, _⟩ := run_fromExcept_ok.mp ho
      simp only [loadExistingWalDeferred, ok_iff] at hd
      obtain ⟨_, hl, _⟩ := hd
      exact hl

end

/-! Making a log and a crash. -/

theorem World.Touched.hasParent {pl : Place} {w w' : World} (h : World.Touched pl w w') :
    w'.hasParent = w.hasParent := by
  obtain ⟨_, he, _⟩ := h
  exact he.hasParent

namespace CreationRemains
variable {cfg : LogConfig} {vol : Volume} {hasParent : Bool}

theorem reopens_directory_iff (h : CreationRemains cfg vol) (hu : cfg.Usable)
    (hmd : opensSegmented cfg vol = true) :
    Reopens cfg ⟨vol, [], hasParent⟩ [] ↔ (vol.published.current = none → hasParent = true) ∧
        ∀ dir ∈ vol.published.current, CreationWhole dir := by
  have hs := opensSegmented_mode hmd
  have hcp := hu.2 hs
  obtain ⟨world₁, ht, hc⟩ := create_run hu.1 ⟨vol, [], hasParent⟩
  rw [hmd, if_pos rfl] at hc
  rcases h.published hs with ha | ⟨dir, hb, hlf⟩
  · have hn : vol.published.current = none := by rw [ha]; rfl
    have hm : world₁.volume.directory? .published = none := by
      rw [ht.staging]
      exact hn
    simp only [hn, mem_def, reduceCtorEq, false_implies, implies_true, and_true, true_implies]
    constructor
    · intro hrp
      obtain ⟨mgr, w', hma⟩ := hrp.created
      by_contra hp
      rw [hc, openSegmented_unmade hcp hm (ht.hasParent.trans (Bool.eq_false_iff.mpr hp))] at hma
      cases hma
    · intro hp
      obtain ⟨mgr, ho⟩ := openSegmented_made hs hcp hm (ht.hasParent.trans hp)
      have hl : LogFound cfg vol walHeaderSize [] :=
        .missing (by rw [LogMissing, hmd, if_pos rfl]; exact hn) rfl rfl
      exact (create_found hl (hc.trans ho)).reopens (hc.trans ho)
  · have hd := congrArg Entry.current hb
    have hcr : vol.published.current = some dir := hd
    simp only [hcr, reduceCtorEq, false_implies, true_and, mem_some_iff, forall_eq']
    have hf := newManifest_wellFormed hcp
    have hr := newManifest_inRange cfg
    constructor
    · intro hrp
      obtain ⟨_, _, _, ho⟩ := hrp.opensExisting hmd hd
      exact hlf.refused hf hr rfl ho
    · intro hw
      exact reopens_found (hlf.shelved hf hr rfl hw).found hu.1 hmd hd rfl

theorem reopens_file_iff (h : CreationRemains cfg vol) (hu : cfg.Usable)
    (hmo : opensSegmented cfg vol = false) :
    Reopens cfg ⟨vol, [], hasParent⟩ [] ↔
      ∀ file ∈ vol.legacy.current, file.bytes = [] ∨ walHeaderSize ≤ file.bytes.length := by
  have hs : cfg.storageMode ≠ .segmented := by
    intro hsg
    simp [opensSegmented, hsg] at hmo
  obtain ⟨world₁, ht, hc⟩ := create_run hu.1 ⟨vol, [], hasParent⟩
  rw [hmo, if_neg Bool.false_ne_true] at hc
  constructor
  · intro hr file hf
    obtain ⟨mgr, w', hm⟩ := hr.created
    rw [hc] at hm
    refine openLegacy_header ?_ hm
    rw [ht.staging]
    exact hf
  · intro hw
    by_cases he : ∀ file ∈ vol.legacy.current, file.bytes = []
    · obtain ⟨w', hp, _⟩ := @openLegacy_made cfg world₁ (by
        rw [ht.staging]
        exact he)
      have hg : LogFound cfg vol walHeaderSize [] :=
        .missing (by rw [LogMissing, hmo, if_neg Bool.false_ne_true]; exact he) rfl rfl
      exact (create_found hg (hc.trans hp)).reopens (hc.trans hp)
    · obtain ⟨file, hf, hne⟩ : ∃ file, vol.legacy.current = some file ∧ file.bytes ≠ [] := by
        by_contra hnone
        exact he fun file hf => by_contra fun hne => hnone ⟨file, hf, hne⟩
      obtain ⟨cnt, hb⟩ := h.legacy hs file hf
      have hl := (hw file hf).resolve_left hne
      have ha : file.bytes = encodeWalFileHeader ++ [] := by
        rw [hb, length_take] at hl
        rw [hb, append_nil]
        exact take_of_length_le (rfl.le.trans (hl.trans (min_le_left _ _)))
      obtain ⟨mgr, w', hm, ho⟩ := @create_stored cfg ⟨vol, [], hasParent⟩ walHeaderSize []
        hu.1 (.file hmo hf ha .nil (by decide) rfl)
      exact ho.reopens hm

theorem reopens_iff (h : CreationRemains cfg vol) (hu : cfg.Usable) :
    Reopens cfg ⟨vol, [], hasParent⟩ [] ↔ CreationSafe cfg hasParent vol := by
  unfold CreationSafe
  cases hm : opensSegmented cfg vol with
  | true => exact h.reopens_directory_iff hu hm
  | false => exact h.reopens_file_iff hu hm

end CreationRemains

/-- The single file was never anything but empty or its header. -/
def HeaderOnly (entry : Entry SyncedFile) : Prop :=
  ∀ value ∈ entry.current :: entry.earlier, ∀ file ∈ value, file.bytes = [] ∨
    file.bytes = encodeWalFileHeader

theorem HeaderOnly.update {ent : Entry SyncedFile} {f : SyncedFile → SyncedFile}
    (h : HeaderOnly ent)
    (hf : ∀ file : SyncedFile, file.bytes = [] ∨ file.bytes = encodeWalFileHeader →
      (f file).bytes = [] ∨ (f file).bytes = encodeWalFileHeader) : HeaderOnly (ent.update f) := by
  intro v hm file hl
  rcases mem_cons.mp hm with rfl | hm
  · obtain ⟨old, ho, rfl⟩ := mem_map.mp hl
    exact hf old (h _ mem_cons_self old ho)
  · exact h v (mem_cons_of_mem _ hm) file hl

theorem perform_headerOnly {eff : Effect} (h : HeaderOnly vol.legacy)
    (he : eff ∈ [Effect.createLegacy, .writeLegacy 0 encodeWalFileHeader, .syncLegacy]) :
    HeaderOnly (vol.perform eff).legacy ∧ (vol.perform eff).published = vol.published := by
  simp only [mem_cons, not_mem_nil, or_false] at he
  rcases he with rfl | rfl | rfl
  · refine ⟨fun v hm file hf => ?_, rfl⟩
    rcases mem_cons.mp hm with rfl | hm
    · obtain rfl := some.inj hf
      exact .inl rfl
    · exact h v hm file hf
  · refine ⟨h.update fun file hf => .inr ?_, rfl⟩
    have hd : file.bytes.drop encodeWalFileHeader.length = [] := by
      rcases hf with hf | hf
      · rw [hf, drop_nil]
      · rw [hf, drop_length]
    simp [write, hd]
  · exact ⟨h.update fun _ hf => hf, rfl⟩

theorem foldl_headerOnly {effs : List Effect} (hf : ∀ eff ∈ effs,
      eff ∈ [Effect.createLegacy, .writeLegacy 0 encodeWalFileHeader, .syncLegacy])
    (vol : Volume) (h : HeaderOnly vol.legacy) :
    HeaderOnly (effs.foldl Volume.perform vol).legacy ∧
      (effs.foldl Volume.perform vol).published = vol.published := by
  induction effs generalizing vol with
  | nil => exact ⟨h, rfl⟩
  | cons eff effs ih =>
    obtain ⟨hs, hp⟩ := perform_headerOnly h (hf eff mem_cons_self)
    obtain ⟨hr, hp'⟩ := ih (fun e he => hf e (mem_cons_of_mem _ he)) _ hs
    exact ⟨hr, hp'.trans hp⟩

theorem HeaderOnly.survives {ent ent' : Entry SyncedFile} (h : HeaderOnly ent)
    (hs : Entry.Survives SyncedFile.Survives ent ent') :
    ∀ file ∈ ent'.current, ∃ cnt, file.bytes = encodeWalFileHeader.take cnt := by
  intro file hf
  obtain ⟨_, v, hm, hr⟩ := hs
  rw [hf] at hr
  cases hr with
  | some hc =>
    rename_i old
    obtain ⟨cnt, _, rfl⟩ := hc
    rcases h _ hm old rfl with hb | hb
    · exact ⟨0, by simp [sync, truncate, hb]⟩
    · exact ⟨cnt, by simp [sync, truncate, hb]⟩

theorem Unmade.headerOnly (h : Unmade cfg vol) (hs : cfg.storageMode ≠ .segmented) :
    HeaderOnly vol.legacy :=
  fun v hm file hf => .inl (h.2 hs v hm file hf)

/-- Where only the directory was being made. -/
theorem creation_remains_directory {base bef : Volume} {cnt : Nat}
    (hu : Unmade cfg base) (hs : cfg.storageMode ≠ .legacySingleFile)
    (hl : bef.legacy = base.legacy ∨ bef.legacy = base.legacy.sync)
    (hp : bef.published = (((creationEffects .published cfg.newManifest).take cnt).foldl
        Volume.perform base).published ∨
      bef.published = (((creationEffects .published cfg.newManifest).take cnt).foldl
        Volume.perform base).published.sync) (hr : bef.Survives vol) : CreationRemains cfg vol := by
  have hd : Entry.Survives Directory.Survives
      (((creationEffects .published cfg.newManifest).take cnt).foldl Volume.perform base).published
      vol.published := by
    rcases hp with hm | hm
    · exact hm ▸ hr.published
    · exact Entry.Survives.of_sync (hm ▸ hr.published)
  have hfl : Entry.Survives SyncedFile.Survives base.legacy vol.legacy := by
    rcases hl with hm | hm
    · exact hm ▸ hr.legacy
    · exact Entry.Survives.of_sync (hm ▸ hr.legacy)
  refine ⟨fun _ => ?_, fun hmd => (hu.headerOnly hmd).survives hfl⟩
  rcases creation_left (hu.1 hs) cnt with ha | ⟨aft, hf, hlf⟩
  · rw [ha] at hd
    exact .inl (Entry.survives_absent hd)
  · rw [hf] at hd
    rcases Entry.survives_made hd with ha | ⟨dir, hi, he⟩
    · exact .inl ha
    · exact .inr ⟨dir, he, hlf dir hi⟩

theorem openSegmented_emits {w : World} (hd : cfg.storageMode ≠ .legacySingleFile)
    (hc : 128 ≤ cfg.segmentPayloadCapacity.toNat) (hm : w.volume.directory? .published = none) :
    w.Emits (finalState (openSegmented cfg) w)
      (creationEffects .published cfg.newManifest ++
        if w.hasParent then [.syncParent] else []) := by
  have hn := newStore_emits .published w cfg.newManifest
  cases hp : w.hasParent with
  | true =>
    obtain ⟨mgr, ho⟩ := openSegmented_made hd hc hm hp
    simp only [finalState, ho]
    exact hn.trans ⟨rfl, rfl, rfl⟩
  | false =>
    simp only [finalState, openSegmented_unmade hc hm hp]
    exact hn.trans (.refl _)

theorem creation_remains {w : World} (hus : cfg.Usable) (hu : Unmade cfg w.volume)
    (hcr : Interrupted w (finalState (create cfg) w) vol) : CreationRemains cfg vol := by
  obtain ⟨world₁, ⟨cleaning, hcl, ht⟩, hc⟩ := create_run hus.1 w
  obtain ⟨hl₁, hp₁⟩ := foldl_staging ht w.volume
  rw [← hcl.volume] at hl₁ hp₁
  -- what the opening does comes after the remains of a migration are cleared away
  have hct : ∀ {effs : List Effect}, world₁.Emits (finalState (create cfg) w) effs →
      ∃ base cnt, base.legacy = w.volume.legacy ∧ base.published = w.volume.published ∧
        ((effs.take cnt).foldl Volume.perform base).Survives vol := by
    intro effs hem
    obtain ⟨cnt, hr⟩ := (hcl.trans hem).interrupted.mp hcr
    rw [take_append, foldl_append] at hr
    obtain ⟨hl, hp⟩ := foldl_staging (fun eff hm => ht eff (mem_of_mem_take hm)) w.volume
    exact ⟨_, _, hl, hp, hr⟩
  have hb : ∀ {base : Volume}, base.legacy = w.volume.legacy →
      base.published = w.volume.published → Unmade cfg base := by
    intro base hl hp
    rw [Unmade, hl, hp]
    exact hu
  cases hd : opensSegmented cfg w.volume with
  | true =>
    have hs := opensSegmented_mode hd
    have hms : world₁.volume.directory? .published = none := by
      show world₁.volume.published.current = none
      rw [hp₁, hu.1 hs]
      rfl
    rw [hd, if_pos rfl] at hc
    have hem := openSegmented_emits hs (hus.2 hs) hms
    rw [show finalState (openSegmented cfg) world₁ = finalState (create cfg) w by
      simp only [finalState, hc]] at hem
    obtain ⟨base, cnt, hl, hp, hr⟩ := hct hem
    rw [take_append, foldl_append] at hr
    have hsm := @foldl_legacy .published ((creationEffects .published cfg.newManifest).take cnt)
      (fun eff hm => by
        have ha := mem_of_mem_take hm
        simp only [creationEffects, manifestEffects, newSegmentEffects, mem_cons, mem_append,
          not_mem_nil, or_false] at ha
        rcases ha with rfl | (rfl | rfl | rfl | rfl | rfl) | rfl | rfl | rfl | rfl <;> rfl) base
    generalize cnt - (creationEffects .published cfg.newManifest).length = rest at hr
    rcases rest with _ | rest
    · exact creation_remains_directory (hb hl hp) hs (.inl hsm) (.inl rfl) hr
    · cases hpr : world₁.hasParent with
      | true =>
        rw [hpr, if_pos rfl, take_succ_cons, take_nil] at hr
        exact creation_remains_directory (hb hl hp) hs
          (.inr (congrArg Entry.sync hsm)) (.inr rfl) hr
      | false =>
        rw [hpr, if_neg Bool.false_ne_true, take_nil] at hr
        exact creation_remains_directory (hb hl hp) hs (.inl hsm) (.inl rfl) hr
  | false =>
    have hs : cfg.storageMode ≠ .segmented := by
      intro hg
      simp [opensSegmented, hg] at hd
    rw [hd, if_neg Bool.false_ne_true] at hc
    obtain ⟨w', hop, hem⟩ := @openLegacy_made cfg world₁ (by
      rw [hl₁]
      exact hu.2 hs _ mem_cons_self)
    rw [show w' = finalState (create cfg) w by
      simp only [finalState, hc, hop]] at hem
    obtain ⟨base, cnt, hl, hp, hr⟩ := hct hem
    obtain ⟨ho, hsm⟩ := @foldl_headerOnly ((fileEffects world₁.volume).take cnt) (fun eff hm => by
      have ha := mem_of_mem_take hm
      unfold fileEffects at ha
      split at ha <;> simp_all) base ((hb hl hp).headerOnly hs)
    refine ⟨fun hau => .inl ?_, fun _ => ho.survives hr.legacy⟩
    have he := hr.published
    rw [hsm, (hb hl hp).1 hau] at he
    exact Entry.survives_absent he

/-! Every crash in a creation or a rotation. -/

/-- After a crash in the making of a log or in a rotation the log is opened with just the
records that were durable before when no file or directory is left half made. -/
theorem interrupted_log_reopens_iff (cfg : LogConfig) :
    (∀ (w : World) (vol : Volume), cfg.Usable → Unmade cfg w.volume →
      Interrupted w (finalState (create cfg) w) vol →
      (Reopens cfg ⟨vol, [], w.hasParent⟩ [] ↔ CreationSafe cfg w.hasParent vol)) ∧
    ∀ (s : StorageState) (dir : Directory) (front : List Stretch) (last : Stretch)
      (tail : List UInt8) (file : SyncedFile) (vol : Volume), cfg.Usable →
      cfg.storageMode ≠ .legacySingleFile →
      s.storage.manifest.payloadCapacity = cfg.segmentPayloadCapacity.toNat →
      Standing s dir front last tail file →
      Interrupted s.world (finalState SegmentedWalStorage.rotate s).world vol →
      (Reopens cfg ⟨vol, [], s.world.hasParent⟩
          (layoutRecords front ++ last.recordsWithin file.synced) ↔
        RotationSafe last tail file vol) := by
  refine ⟨fun w vol husable hunmade hcrash => ?_, ?_⟩
  · exact (creation_remains husable hunmade hcrash).reopens_iff husable
  · intro s dir front last tail file vol husable hmode hcapacity hstanding hcrash
    exact hstanding.rotation_reopens_iff husable.1 hmode hcapacity hcrash

/-- A new log in small segments. -/
def smallLog : StorageState :=
  (StorageState.newStore .published ⟨.empty, [], true⟩ smallSegments.newManifest).after .syncParent

theorem smallLog_standing :
    Standing smallLog (Directory.initial smallSegments.newManifest) []
      (Stretch.initial walHeaderSize 128) [] (Stretch.initial walHeaderSize 128).file :=
  Stored.standing (s := smallLog)
    (stored_initial (newManifest_wellFormed (by decide)) (newManifest_inRange _) rfl) rfl rfl

/-- The volume after the first effects of a call and a crash that loses nothing of them. -/
def crashedAfter (before after : World) (count : Nat) : Volume :=
  (((after.journal.drop before.journal.length).take count).foldl Volume.perform before.volume).kept

theorem interrupted_crashedAfter (bef aft : World) (cnt : Nat) :
    Interrupted bef aft (crashedAfter bef aft cnt) :=
  ⟨cnt, survives_kept _⟩

/-- A crash before the first effect and one after the last. -/
theorem interrupted_log_reopens_small :
    Reopens smallSegments ⟨crashedAfter ⟨.empty, [], true⟩
        (finalState (create smallSegments) ⟨.empty, [], true⟩) 0, [], true⟩ [] ∧
      Reopens smallSegments ⟨crashedAfter smallLog.world
        (finalState SegmentedWalStorage.rotate smallLog).world 5, [], true⟩
        (layoutRecords [] ++
          (Stretch.initial walHeaderSize 128).recordsWithin segmentHeaderSize) := by
  have husable : smallSegments.Usable := by decide
  refine ⟨?_, ?_⟩
  · refine ((interrupted_log_reopens_iff smallSegments).1 ⟨.empty, [], true⟩ _ husable ?_
      (interrupted_crashedAfter _ _ 0)).mpr ?_
    · exact ⟨fun _ => rfl, fun h => absurd rfl h⟩
    · exact ⟨fun _ => rfl, fun _ hnone => absurd hnone (not_mem_none _)⟩
  · refine
      ((interrupted_log_reopens_iff smallSegments).2 smallLog _ _ _ _ _ _ husable (by decide) rfl
      smallLog_standing (interrupted_crashedAfter _ _ 5)).mpr ?_
    unfold RotationSafe RotationWhole
    decide +kernel

/-- The file of the new segment is made and nothing is in it yet: after a crash the log
cannot be opened. -/
theorem rotation_crash_blocks_log :
    ∃ vol, Interrupted smallLog.world (finalState SegmentedWalStorage.rotate smallLog).world vol ∧
      ∃ w', openAndScan smallSegments ⟨vol, [], true⟩ =
        .error (ioError "Unexpected WAL segment EOF") w' := by
  refine ⟨_, interrupted_crashedAfter _ _ 2, ?_⟩
  have hcheck : (match openAndScan smallSegments ⟨crashedAfter smallLog.world
        (finalState SegmentedWalStorage.rotate smallLog).world 2, [], true⟩ with
      | .ok _ _ => false
      | .error e _ => decide (e = ioError "Unexpected WAL segment EOF")) = true := by decide +kernel
  cases hrun : openAndScan smallSegments ⟨crashedAfter smallLog.world
      (finalState SegmentedWalStorage.rotate smallLog).world 2, [], true⟩ with
  | ok result w' => simp [hrun] at hcheck
  | error e w' =>
    rw [hrun] at hcheck
    exact ⟨w', by rw [of_decide_eq_true hcheck]⟩

end MiniDb.Wal
