import MiniDb.LogContents

/-!
Opening and closing a log. What the files say decides whether the log is found in the
single file, in the segments, or not at all; a manager opened on a log that was found
holds its records, and one that is closed leaves everything it could write for the
next one to find.
-/
namespace MiniDb.Wal
open ByteString Outcome CrashFiles Stateful Wal.LogManager Option

variable {dir : Directory} {vol : Volume}

/-! Logs that are found. -/

/-- The log is in the files. -/
inductive LogStored (config : LogConfig) (volume : Volume) (start : Nat)
    (records : List LogRecord) : Prop
  | file {file : SyncedFile} {body : List UInt8} (hmode : opensSegmented config volume = false)
      (hfound : volume.legacy.current = some file)
      (hbytes : file.bytes = encodeWalFileHeader ++ body)
      (hencodes : Encodes walHeaderSize records body)
      (hvalid : isValidLsn (walHeaderSize + body.length))
      (hstart : start = walHeaderSize)
  | segments {manifest : WalSegmentManifest} {directory : Directory} {front : List Stretch}
      {last : Stretch} (hmode : opensSegmented config volume = true)
      (hfound : volume.directory? .published = some directory)
      (hshelved : Shelved manifest directory front last)
      (hcapacity : manifest.payloadCapacity = config.segmentPayloadCapacity.toNat)
      (hids : last.id ≤ last.stop) (hrecords : layoutRecords (front ++ [last]) = records)
      (hstart : (front ++ [last]).head?.map Stretch.start = some start)

/-- There is no log yet. -/
def LogMissing (config : LogConfig) (volume : Volume) : Prop :=
  if opensSegmented config volume then volume.directory? .published = none
  else ∀ file ∈ volume.legacy.current, file.bytes = []

inductive LogFound (config : LogConfig) (volume : Volume) (start : Nat) (records : List LogRecord) :
    Prop
  | missing (h : LogMissing config volume) (hrecords : records = [])
    (hstart : start = walHeaderSize)
  | stored (h : LogStored config volume start records)

/-- The records of a segment are no larger than it. -/
theorem Stretch.Sound.encodedSize_le {str : Stretch} {cap : Nat}
    (h : str.Sound dir cap) {r : LogRecord} (hm : r ∈ str.records) : encodedSize r ≤ cap := by
  obtain ⟨bef, enc, aft, hb, _, he⟩ := h.encodes.recordAt hm
  have hf := h.fits
  rw [hb, List.length_append, List.length_append, length_of_encode he] at hf
  omega

theorem Shelved.encodedSize_le {man : WalSegmentManifest} {pre : List Stretch} {last : Stretch}
    (h : Shelved man dir pre last) {r : LogRecord} (hm : r ∈ layoutRecords (pre ++ [last])) :
    encodedSize r ≤ man.payloadCapacity := by
  obtain ⟨str, hs, hi⟩ := List.mem_flatMap.mp hm
  exact (h.sound str hs).encodedSize_le hi

theorem LogFound.fits {cfg : LogConfig} {start : Nat} {rs : List LogRecord}
    (h : LogFound cfg vol start rs) (hd : opensSegmented cfg vol = true) :
    ∀ r ∈ rs, encodedSize r ≤ cfg.segmentPayloadCapacity.toNat := by
  rcases h with ⟨_, rfl, _⟩ | ⟨h⟩
  · simp
  · cases h with
    | file hf =>
      rw [hd] at hf
      exact absurd hf (by simp)
    | segments _ _ hshelved hcap _ hrecs _ =>
      subst hrecs
      rw [← hcap]
      exact fun r hm => hshelved.encodedSize_le hm

/-! Scanning what is on disk. -/

theorem scanWalFile_whole {body : List UInt8} {rs : List LogRecord}
    (h : Encodes walHeaderSize rs body) :
    scanWalFile (encodeWalFileHeader ++ body) = .ok ⟨rs, false, walHeaderSize + body.length,
      walHeaderSize + body.length, walHeaderSize⟩ :=
  scanWalFile_ok.mpr ⟨⟨rs, false, walHeaderSize + body.length⟩,
    ⟨body, [], (List.append_nil _).symm, h, rfl, rfl⟩, rfl⟩

theorem Disk.scan {s : LogState} {start stop : Nat} {wr : List LogRecord}
    (h : Disk s start wr stop) : scanDisk s = .ok ⟨wr, false, stop, stop, start⟩ := by
  rcases h with ⟨h, rfl⟩ | ⟨h, rfl, ht, rfl⟩
  · simp only [scanDisk, h.legacy, scanLegacy, legacyBytes, h.found, ok_bind, h.bytes,
      scanWalFile_whole h.encodes, h.stop_eq]
  · rename_i stg pre last
    obtain ⟨dir, hd, hs⟩ := h.holds
    obtain ⟨fst, lay, hl⟩ := exists_first pre last
    rw [hl] at ht
    obtain rfl := some.inj ht
    simp only [scanDisk, h.segmented]
    exact hs.scan_eq hd hl

/-! Opening. -/

theorem removeAll_touched (pl : Place) (w : World) :
    Ensures (removeAll pl) w (fun _ w' => World.Touched pl w w') fun _ _ => False := by
  have he : ∀ (bef : World) (eff : Effect), eff.At pl → World.Touched pl w bef →
      Ensures (emit eff) bef (fun _ aft => World.Touched pl w aft) fun _ _ => False := by
    intro bef eff ht hb
    exact hb.trans ⟨[eff], ⟨rfl, rfl, rfl⟩, by simpa using ht⟩
  have hm : ∀ (bef : World) (cnd : Prop) [Decidable cnd] (eff : Effect),
      eff.At pl → World.Touched pl w bef →
      Ensures (callIf cnd (emit eff)) bef (fun _ aft => World.Touched pl w aft)
        fun _ _ => False := by
    intro bef cnd _ eff ht hb
    rw [ensures_callIf]
    split
    · exact he bef eff ht hb
    · exact hb
  simp only [removeAll, ensures_iff]
  cases w.volume.directory? pl with
  | none => exact .refl pl w
  | some dir =>
    simp only [ensures_bind]
    refine (ensures_forM_each (P := World.Touched pl w) (Q := fun _ _ => True) ?_
      (.refl pl w)).imp ?_ fun _ _ h => h
    · intro ent _ bef hb
      exact (he bef (.removeSegment pl ent.1) rfl hb).imp
        (fun _ _ ha => ⟨ha, trivial, fun _ h => h⟩) fun _ _ h => h
    · rintro _ w₁ ⟨hw₁, _⟩
      refine (hm w₁ _ (.removeManifest pl) rfl hw₁).imp ?_ fun _ _ h => h
      intro _ w₂ hw₂
      refine (hm w₂ _ (.removeManifestTemporary pl) rfl hw₂).imp ?_ fun _ _ h => h
      intro _ w₃ hw₃
      exact he w₃ (.removeDirectory pl) rfl hw₃

/-- A manager that was opened and holds what it found. -/
structure Opened (config : LogConfig) (manager : LogManager) (world : World) (start : Nat)
    (records : List LogRecord) : Prop where
  held : Held ⟨manager, world⟩ start records manager.bufferStartOffset []
  config : manager.config = config
  empty : manager.buffer = []
  listed : ∀ last ∈ manager.lastAppendedLsn, last ∈ manager.knownLsns ∧
    ∃ record ∈ records, record.lsn = last
  durable : manager.durableLsn = manager.lastAppendedLsn

theorem Disk.encodes {s : LogState} {start stop : Nat} {wr : List LogRecord}
    (h : Disk s start wr stop) : ∃ bs, Encodes start wr bs ∧ stop = start + bs.length := by
  rcases h with ⟨h, rfl⟩ | ⟨h, rfl, ht, rfl⟩
  · exact ⟨_, h.encodes, h.stop_eq.symm⟩
  · rename_i stg pre last
    obtain ⟨dir, _, hs⟩ := h.holds
    obtain ⟨fst, lay, hl⟩ := exists_first pre last
    rw [hl] at ht
    obtain rfl := some.inj ht
    exact ⟨_, hs.encodes hl, hs.stop_eq hl⟩

section
variable {cfg : LogConfig} {mgr : LogManager} {w w' : World} {start stop : Nat}
  {rs : List LogRecord}

theorem Disk.opened (h : Disk ⟨mgr, w⟩ start rs stop) (hv : isValidLsn stop)
    (he : mgr.buffer = []) (ho : mgr.bufferStartOffset = stop) (hn : mgr.nextLsn = stop)
    (hl : ∀ last ∈ mgr.lastAppendedLsn, last ∈ mgr.knownLsns ∧ ∃ r ∈ rs, r.lsn = last)
    (hd : mgr.durableLsn = mgr.lastAppendedLsn) : Opened mgr.config mgr w start rs := by
  refine ⟨⟨ho ▸ h, ⟨?_, ?_, hn ▸ hv⟩, fun _ => rfl⟩, rfl, he, hl, hd⟩
  · rw [he]
    exact .nil
  · rw [he, ho, hn]
    rfl

/-- A log that was scanned as it was opened. -/
theorem Disk.opened_loaded (h : Disk ⟨mgr, w⟩ start rs stop) (hv : isValidLsn stop)
    (he : mgr.buffer = []) :
    Opened mgr.config (loaded mgr ⟨rs, false, stop, stop, start⟩) w start rs := by
  refine (h.rebuffer (loaded mgr ⟨rs, false, stop, stop, start⟩) rfl rfl).opened hv he rfl
    rfl ?_ rfl
  intro last hm
  obtain ⟨r, hr, rfl⟩ := mem_map.mp hm
  have hi := List.mem_of_getLast? hr
  exact ⟨List.mem_map_of_mem hi, r, hi, rfl⟩

/-- A log whose records recovery is still to scan. -/
theorem Disk.opened_deferred (h : Disk ⟨mgr, w⟩ start rs stop) (hv : isValidLsn stop)
    (he : mgr.buffer = []) (hl : mgr.lastAppendedLsn = none) (hd : mgr.durableLsn = none) :
    Opened mgr.config { mgr with
      nextLsn := stop
      bufferStartOffset := stop
      truncatedTail := false
      recoveryPending := true } w start rs := by
  have hs := h.rebuffer { mgr with
    nextLsn := stop
    bufferStartOffset := stop
    truncatedTail := false
    recoveryPending := true } rfl rfl
  refine hs.opened hv he rfl rfl ?_ (hd.trans hl.symm)
  intro last hm
  simp only [hl] at hm
  exact absurd hm (by simp)

theorem opensSegmented_mode (h : opensSegmented cfg vol = true) :
    cfg.storageMode ≠ .legacySingleFile := by
  intro hl
  simp [opensSegmented, hl] at h

/-- The rest of `openSegmented` once the storage holds the log. -/
theorem openSegmented_run {stg : SegmentedWalStorage}
    (hc : SegmentedWalStorage.create .published cfg.segmentPayloadCapacity.toNat true invalidLsn
      w = .ok stg w') (hd : Disk ⟨{ blank cfg with segmented := some stg }, w'⟩ start rs stop)
    (hv : isValidLsn stop) :
    ∃ mgr, openSegmented cfg w = .ok mgr w' ∧ Opened cfg mgr w' start rs := by
  have hs := hd.scan
  have hr : fromExcept (stg.scan w'.volume) w' =
      (.ok ⟨rs, false, stop, stop, start⟩ w' : EStateM.Result DbError World WalScanResult) :=
    run_fromExcept_ok.mpr ⟨hs, rfl⟩
  unfold openSegmented
  cases cfg.openMode with
  | eagerValidated =>
    refine ⟨loaded { blank cfg with segmented := some stg } _, ?_, hd.opened_loaded hv rfl⟩
    exact (run_bind hc).trans (run_get_bind.trans (run_bind hr))
  | deferredRecovery =>
    refine ⟨_, ?_, hd.opened_deferred hv rfl rfl rfl⟩
    exact (run_bind hc).trans (run_get_bind.trans (run_bind hr))

theorem openSegmented_stored {man : WalSegmentManifest} {pre : List Stretch} {last : Stretch}
    (hm : cfg.storageMode ≠ .legacySingleFile) (hf : w.volume.directory? .published = some dir)
    (hs : Shelved man dir pre last) (hc : man.payloadCapacity = cfg.segmentPayloadCapacity.toNat)
    (hi : last.id ≤ last.stop) (ht : (pre ++ [last]).head?.map Stretch.start = some start) :
    ∃ mgr, openSegmented cfg w = .ok mgr w ∧
      Opened cfg mgr w start (layoutRecords (pre ++ [last])) := by
  have hr := @create_existing .published w true invalidLsn _ _ _ _ _ hs.found hf
  rw [hc] at hr
  refine openSegmented_run hr (.segments ⟨rfl, hm, ⟨dir, hf, hs.stored_reopened⟩,
    rfl, hc, rfl, hi⟩ (layoutRecords_reopened pre last) ?_ rfl) hs.last_sound.space
  rw [← ht]
  cases pre with
  | nil => rfl
  | cons fst pre => rfl

theorem openSegmented_missing (hmd : cfg.storageMode ≠ .legacySingleFile)
    (hs : w.volume.directory? .published = none) (hop : openSegmented cfg w = .ok mgr w') :
    Opened cfg mgr w' walHeaderSize [] := by
  obtain ⟨stg, world₁, hc, _⟩ := run_bind_ok.mp hop
  obtain ⟨hh, hp, hm, _, ho⟩ := create_new cfg.segmentPayloadCapacity.toNat_lt (by decide) hs hc
  have hd : Disk ⟨{ blank cfg with segmented := some stg }, world₁⟩ walHeaderSize []
      walHeaderSize :=
    .segments ⟨rfl, hmd, hh, hp, by rw [hm]; rfl, by rw [ho]; rfl,
      (by decide : 1 ≤ walHeaderSize)⟩ rfl rfl rfl
  obtain ⟨manager₁, hop₁, ho₁⟩ := openSegmented_run hc hd (by decide)
  rw [hop] at hop₁
  cases hop₁
  exact ho₁

/-- A file that is not empty is read as the mode of opening says. -/
theorem openLegacy_existing {file : SyncedFile} (hf : w.volume.legacy.current = some file)
    (hn : ¬ file.bytes.length = 0) :
    openLegacy cfg w = (match cfg.openMode with
      | .deferredRecovery => fromExcept (loadExistingWalDeferred cfg file.bytes)
      | .eagerValidated => fromExcept (loadExistingWal cfg file.bytes) :
        EStateM DbError World LogManager) w := by
  have hs : callIf (w.volume.legacy.current = none) (emit .createLegacy) w = .ok () w := by
    rw [callIf, if_neg (by simp [hf])]
    rfl
  have hr : fromExcept (legacyBytes w.volume "Could not open WAL file") w =
      (.ok file.bytes w : EStateM.Result DbError World (List UInt8)) :=
    run_fromExcept_ok.mpr ⟨by rw [legacyBytes, hf], rfl⟩
  refine run_get_bind.trans ((run_bind hs).trans (run_get_bind.trans ((run_bind hr).trans ?_)))
  exact congrFun (if_neg hn) w

theorem openLegacy_stored {file : SyncedFile} {body : List UInt8}
    (hm : opensSegmented cfg w.volume = false)
    (hf : w.volume.legacy.current = some file) (hb : file.bytes = encodeWalFileHeader ++ body)
    (he : Encodes walHeaderSize rs body) (hv : isValidLsn (walHeaderSize + body.length)) :
    ∃ mgr, openLegacy cfg w = .ok mgr w ∧ Opened cfg mgr w walHeaderSize rs := by
  have hd : Disk ⟨blank cfg, w⟩ walHeaderSize rs (walHeaderSize + body.length) :=
    .file ⟨rfl, hm, hf, hb, he, rfl⟩ rfl
  have hl : file.bytes.length = walHeaderSize + body.length := by
    rw [hb, length_withFileHeader]
  have hn : ¬ file.bytes.length = 0 := by
    rw [hl]
    exact (Nat.lt_of_lt_of_le (by decide) (Nat.le_add_right _ _)).ne'
  rw [openLegacy_existing hf hn]
  cases ho : cfg.openMode with
  | eagerValidated =>
    refine ⟨loaded (blank cfg) _, ?_, hd.opened_loaded hv rfl⟩
    refine run_fromExcept_ok.mpr ⟨?_, rfl⟩
    rw [loadExistingWal, hb, scanWalFile_whole he]
    rfl
  | deferredRecovery =>
    refine ⟨_, ?_, hd.opened_deferred hv rfl rfl rfl⟩
    refine run_fromExcept_ok.mpr ⟨?_, rfl⟩
    rw [loadExistingWalDeferred, require_of _ (by rw [hl]; exact Nat.le_add_right _ _), hl, hb,
      take_withFileHeader, validateWalFileHeader_encode]
    rfl

/-- The single file is made where there was none, or only an empty one. -/
theorem openLegacy_missing (hd : opensSegmented cfg w.volume = false)
    (hms : ∀ file ∈ w.volume.legacy.current, file.bytes = [])
    (ho : openLegacy cfg w = .ok mgr w') : Opened cfg mgr w' walHeaderSize [] := by
  obtain ⟨_, _, hg, ho⟩ := run_bind_ok.mp ho
  obtain ⟨rfl, rfl⟩ := run_get_ok.mp hg
  obtain ⟨_, world₁, hk, ho⟩ := run_bind_ok.mp ho
  obtain ⟨_, _, hg, ho⟩ := run_bind_ok.mp ho
  obtain ⟨rfl, rfl⟩ := run_get_ok.mp hg
  have he : ∃ file, world₁.volume.legacy.current = some file ∧ file.bytes = [] ∧
      world₁.volume.published = w.volume.published := by
    rw [callIf] at hk
    split at hk
    · cases hk
      exact ⟨.empty, rfl, rfl, rfl⟩
    · cases hk
      obtain ⟨file, hl⟩ := ne_none_iff_exists'.mp ‹_›
      exact ⟨file, hl, hms file hl, rfl⟩
  obtain ⟨file, hl, hb, hp⟩ := he
  obtain ⟨bs, _, hr, ho⟩ := run_bind_ok.mp ho
  obtain ⟨hc, rfl⟩ := run_fromExcept_ok.mp hr
  rw [legacyBytes, hl] at hc
  obtain rfl := Except.ok.inj hc
  rw [if_pos (by rw [hb]; rfl)] at ho
  obtain ⟨hm, hv⟩ : mgr = blank cfg ∧ w'.volume =
      (world₁.volume.perform (.writeLegacy 0 encodeWalFileHeader)).perform .syncLegacy := by
    cases ho
    exact ⟨rfl, rfl⟩
  have hf : w'.volume.legacy.current = some (file.write 0 encodeWalFileHeader).sync := by
    rw [hv]
    show ((world₁.volume.legacy.update _).update _).current = _
    rw [Entry.current_update, Entry.current_update, hl]
    rfl
  have hw : (file.write 0 encodeWalFileHeader).sync.bytes = encodeWalFileHeader ++ [] := by
    simp [SyncedFile.sync, SyncedFile.write, hb]
  have hd' : opensSegmented cfg w'.volume = false :=
    opensSegmented_file hd (by rw [hv]; exact hp) hf
  have hs : Disk ⟨blank cfg, w'⟩ walHeaderSize [] walHeaderSize :=
    .file ⟨rfl, hd', hf, hw, .nil, rfl⟩ rfl
  rw [hm]
  exact hs.opened (by decide) rfl rfl rfl (by simp [blank]) rfl

/-- What is left of a migration that was not finished is no part of the log. -/
theorem LogStored.restage (h : LogStored cfg vol start rs) (staging : Entry Directory) :
    LogStored cfg { vol with staging } start rs := by
  cases h with
  | file hm hf hb he hv hs =>
    exact .file hm hf hb he hv hs
  | segments hm hf hshelved hcap hids hrecs hs =>
    exact .segments hm hf hshelved hcap hids hrecs hs

theorem create_run (hc : cfg.bufferCapacity ≠ 0) (w : World) :
    ∃ world₁, World.Touched .staging w world₁ ∧ create cfg w = if opensSegmented cfg w.volume
        then openSegmented cfg world₁ else openLegacy cfg world₁ := by
  have hr : fromExcept (require (cfg.bufferCapacity ≠ 0)
      (invalidArgument "WAL buffer capacity must be positive")) w =
      (.ok () w : EStateM.Result DbError World Unit) :=
    run_fromExcept_ok.mpr ⟨require_of _ hc, rfl⟩
  obtain ⟨world₁, hl, ht⟩ : ∃ world₁, callIf (cfg.storageMode = .auto ∧
      (w.volume.directory? .published).isNone = true) (removeAll .staging) w = .ok () world₁ ∧
      World.Touched .staging w world₁ := by
    rw [callIf]
    split
    · obtain ⟨_, world₁, hn, ht⟩ := (removeAll_touched .staging w).returns
      exact ⟨world₁, hn, ht⟩
    · exact ⟨w, rfl, .refl _ _⟩
  refine ⟨world₁, ht, ?_⟩
  refine (run_bind hr).trans (run_get_bind.trans ((run_bind hl).trans ?_))
  split <;> rfl

theorem bufferCapacity_of_create (hc : create cfg w = .ok mgr w') : cfg.bufferCapacity ≠ 0 := by
  obtain ⟨_, _, hr, _⟩ := run_bind_ok.mp hc
  exact require_ok.mp (run_fromExcept_ok.mp hr).1

/-- A log that is there is opened. -/
theorem create_stored (hc : cfg.bufferCapacity ≠ 0) (h : LogStored cfg w.volume start rs) :
    ∃ mgr w', create cfg w = .ok mgr w' ∧ Opened cfg mgr w' start rs := by
  obtain ⟨world₁, ht, hr⟩ := create_run hc w
  have hv := ht.staging
  rw [hr]
  have hs := h.restage world₁.volume.staging
  rw [← hv] at hs
  have hm : opensSegmented cfg world₁.volume = opensSegmented cfg w.volume := by
    rw [hv]
    rfl
  cases hs with
  | file hl hf hb he hvl hst =>
    rw [← hm, hl, hst]
    obtain ⟨mgr, hp, ho⟩ := openLegacy_stored hl hf hb he hvl
    exact ⟨mgr, world₁, hp, ho⟩
  | segments hg hf hshelved hsize hids hrecs hst =>
    rw [← hm, hg, ← hrecs]
    obtain ⟨mgr, hp, ho⟩ := openSegmented_stored (opensSegmented_mode hg) hf hshelved hsize hids hst
    exact ⟨mgr, world₁, hp, ho⟩

theorem openSegmented_mode (cfg : LogConfig) (w : World) :
    Ensures (openSegmented cfg) w (fun mgr _ => mgr.segmented.isSome = true) fun _ _ => True := by
  simp only [openSegmented, ensures_iff]
  refine (ensures_true _ w).imp (fun stg _ _ => ⟨fun scn _ => ?_, fun _ _ => trivial⟩)
    fun _ _ _ => trivial
  cases cfg.openMode with
  | eagerValidated => exact rfl
  | deferredRecovery => exact rfl

theorem openLegacy_mode (cfg : LogConfig) (w : World) :
    Ensures (openLegacy cfg) w (fun mgr _ => mgr.segmented.isSome = false) fun _ _ => True := by
  simp only [openLegacy, ensures_iff]
  refine (ensures_true _ w).imp (fun _ world₁ _ => ⟨fun file _ => ?_, fun _ _ => trivial⟩)
    fun _ _ _ => trivial
  split
  · exact rfl
  · cases cfg.openMode with
    | eagerValidated =>
      refine ensures_fromExcept.mpr ⟨fun mgr h => ?_, fun _ _ => trivial⟩
      obtain ⟨scn, _, hl⟩ := bind_ok.mp h
      rw [← pure_ok.mp hl]
      rfl
    | deferredRecovery =>
      refine ensures_fromExcept.mpr ⟨fun mgr h => ?_, fun _ _ => trivial⟩
      obtain ⟨_, _, h⟩ := bind_ok.mp h
      obtain ⟨_, _, h⟩ := bind_ok.mp h
      rw [← pure_ok.mp h]
      rfl

/-- What the files say decides where the manager keeps the log. -/
theorem create_mode (hc : create cfg w = .ok mgr w') :
    mgr.segmented.isSome = opensSegmented cfg w.volume := by
  have hp := bufferCapacity_of_create hc
  obtain ⟨world₁, _, hr⟩ := create_run hp w
  rw [hr] at hc
  split at hc
  · rename_i hm
    exact ((ensures_of_ok hc).mp (openSegmented_mode cfg world₁)).trans hm.symm
  · rename_i hm
    exact ((ensures_of_ok hc).mp (openLegacy_mode cfg world₁)).trans (Bool.eq_false_iff.mpr hm).symm

theorem create_found (h : LogFound cfg w.volume start rs)
    (hc : create cfg w = .ok mgr w') : Opened cfg mgr w' start rs := by
  have hp := bufferCapacity_of_create hc
  rcases h with ⟨hm, rfl, rfl⟩ | ⟨hs⟩
  · obtain ⟨world₁, ht, hr⟩ := create_run hp w
    have hv := ht.staging
    rw [hr] at hc
    unfold LogMissing at hm
    split at hc
    · rename_i hd
      rw [if_pos hd] at hm
      refine openSegmented_missing (opensSegmented_mode hd) ?_ hc
      rw [hv]
      exact hm
    · rename_i hd
      rw [if_neg hd] at hm
      refine openLegacy_missing ?_ ?_ hc
      · rw [hv]
        exact Bool.eq_false_iff.mpr hd
      · rw [hv]
        exact hm
  · obtain ⟨manager₁, world₁, hc₁, ho⟩ := create_stored hp hs
    rw [hc] at hc₁
    cases hc₁
    exact ho

end

/-! Where the log is does not change. -/

def SameMode (s s' : LogState) : Prop :=
  s'.manager.segmented.isSome = s.manager.segmented.isSome

theorem onSegments_sameMode {α : Type} {s : LogState} {stg : SegmentedWalStorage}
    (h : s.manager.segmented = some stg) (call : StorageM α) :
    Always (onSegments stg call) s (SameMode s) := by
  simp only [onSegments, ensures_onPart]
  unfold Ensures SameMode
  split <;> rw [h] <;> rfl

theorem onFiles_sameMode {α : Type} (s : LogState) (call : EStateM DbError World α) :
    Always (onFiles call) s (SameMode s) := by
  simp only [onFiles, ensures_onPart]
  unfold Ensures SameMode
  split <;> rfl

theorem writeRecords_sameMode (fuel : Nat) (rest : List UInt8) (lsn : Nat) (s : LogState) :
    Always (writeRecords fuel rest lsn) s (SameMode s) := by
  induction fuel generalizing rest lsn s with
  | zero => exact rfl
  | succ fuel ih =>
    unfold writeRecords
    split
    · exact rfl
    · simp only [ensures_iff]
      cases hg : s.manager.segmented with
      | none => exact rfl
      | some stg =>
        simp only [ensures_bind]
        refine (onSegments_sameMode hg _).imp ?_ fun _ _ h => h
        intro _ s₁ hs
        exact (ih _ _ s₁).imp (fun _ _ h => h.trans hs) fun _ _ h => h.trans hs

theorem writeBytes_sameMode (off : Nat) (bs : List UInt8) (s : LogState) :
    Always (writeBytes off bs) s (SameMode s) := by
  simp only [writeBytes, ensures_iff]
  exact ⟨fun _ _ => onFiles_sameMode s _, fun _ _ => rfl⟩

theorem writeBuffer_sameMode (s : LogState) : Always writeBuffer s (SameMode s) := by
  simp only [writeBuffer, ensures_iff]
  split
  · exact rfl
  · simp only [writePending, ensures_iff, modifyManager]
    split
    · exact writeRecords_sameMode _ _ _ s
    · exact writeBytes_sameMode _ _ s

theorem writeThrough_sameMode (lsn : Nat) (enc : List UInt8) (s : LogState) :
    Always (writeThrough lsn enc) s (SameMode s) := by
  simp only [writeThrough, ensures_iff]
  cases hs : s.manager.segmented with
  | none => exact writeBytes_sameMode _ _ s
  | some stg => exact onSegments_sameMode hs _

theorem append_sameMode (r : LogRecord) (s : LogState) : Always (append r) s (SameMode s) := by
  simp only [append, ensures_iff, modifyManager, placeRecord]
  refine ⟨fun _ _ => ⟨fun _ _ => ⟨fun enc _ => ⟨fun _ _ => ?_, fun _ _ => rfl⟩, fun _ _ => rfl⟩,
    fun _ _ => rfl⟩, fun _ _ => rfl⟩
  split
  · simp only [appendDirectly, ensures_iff, modifyManager]
    refine (writeBuffer_sameMode s).imp ?_ fun _ _ h => h
    intro _ s₁ hs
    exact (writeThrough_sameMode _ _ s₁).imp (fun _ _ h => h.trans hs) fun _ _ h => h.trans hs
  · simp only [appendBuffered, ensures_iff, ensures_callIf, modifyManager]
    split
    · exact writeBuffer_sameMode s
    · exact rfl

theorem syncWritten_sameMode (s : LogState) : Always syncWritten s (SameMode s) := by
  simp only [syncWritten, ensures_iff]
  cases hs : s.manager.segmented with
  | none => exact onFiles_sameMode s _
  | some stg => exact onSegments_sameMode hs _

theorem flushUpTo_sameMode (tgt : Nat) (s : LogState) : Always (flushUpTo tgt) s (SameMode s) := by
  simp only [flushUpTo, ensures_iff]
  refine ⟨fun _ _ => ?_, fun _ _ => rfl⟩
  split
  · exact rfl
  · simp only [ensures_iff, modifyManager]
    refine (writeBuffer_sameMode s).imp ?_ fun _ _ h => h
    intro _ s₁ hs
    exact (syncWritten_sameMode s₁).imp (fun _ _ h => h.trans hs) fun _ _ h => h.trans hs

theorem flushAll_sameMode (s : LogState) : Always flushAll s (SameMode s) := by
  simp only [flushAll, ensures_iff]
  cases s.manager.lastAppendedLsn with
  | none => exact rfl
  | some last => exact flushUpTo_sameMode last s

/-! Closing. -/

/-- The last flush of a manager writes everything. -/
structure Flushable (s : LogState) (stop : Nat) (buffered : List LogRecord) : Prop where
  aligned : stop = s.manager.bufferStartOffset
  unstuck : ¬ Stuck s stop buffered
  pending : s.manager.buffer = [] ∨ ∃ last ∈ s.manager.lastAppendedLsn, containsLsn s last = true ∧
    ∀ durable ∈ s.manager.durableLsn, durable < last

section
variable {s : LogState} {start stop : Nat} {wr buf : List LogRecord}

theorem Held.empty_buffer (h : Held s start wr stop buf) :
    s.manager.buffer = [] ↔ buf = [] := h.buffered.encodes.eq_nil

theorem flushAll_final (h : Held s start wr stop buf) :
    (finalState flushAll s).manager.config = s.manager.config ∧
      ∃ wr' stop' buf', Held (finalState flushAll s) start wr' stop' buf' ∧
        (Flushable s stop buf → wr' = wr ++ buf) := by
  refine Ensures.final (P := fun s' => s'.manager.config = s.manager.config ∧
    ∃ wr' stop' buf', Held s' start wr' stop' buf' ∧ (Flushable s stop buf → wr' = wr ++ buf)) ?_
  simp only [flushAll, ensures_iff]
  cases hl : s.manager.lastAppendedLsn with
  | none =>
    refine ⟨rfl, wr, stop, buf, h, fun hf => ?_⟩
    rcases hf.pending with he | ⟨last, hm, _⟩
    · rw [h.empty_buffer.mp he, List.append_nil]
    · rw [hl] at hm
      exact absurd hm (by simp)
  | some last =>
    refine (flushUpTo_ensures h last).imp ?_ ?_
    · rintro _ s' (⟨rfl, durable, hd, hle⟩ | hs)
      · refine ⟨rfl, wr, stop, buf, h, fun hf => ?_⟩
        rcases hf.pending with he | ⟨last', hm, _, hbl⟩
        · rw [h.empty_buffer.mp he, List.append_nil]
        · obtain rfl : last' = last := some.inj (mem_def.mp hm ▸ hl)
          exact absurd hle (hbl durable hd).not_ge
      · exact ⟨by rw [hs.same], _, _, [], hs.held, fun _ => rfl⟩
    · rintro _ s' ⟨hrs, hsm, hb, wr', stop', buf', hh, _, ho⟩
      refine ⟨hsm.config, wr', stop', buf', hh, fun hf => ?_⟩
      rcases hf.pending with he | ⟨last', hm, hc, _⟩
      · have hn := hh.empty_buffer.mp (hb he)
        have hr := (InOrder.aligned (ho _ (Or.inl ⟨hf.aligned, rfl⟩)) fun _ => by simp [hn, Fits]).2
        rw [← hr, hn, List.append_nil]
      · obtain rfl : last' = last := some.inj (mem_def.mp hm ▸ hl)
        rcases hrs with hms | ht
        · rw [hc] at hms
          exact absurd hms (by simp)
        · exact absurd ht hf.unstuck

/-- A manager that is closed leaves what is on disk for the next one to find. -/
theorem close_stored (h : Held s start wr stop buf) :
    ∃ w' wr', close s.manager s.world = .ok () w' ∧ LogStored s.manager.config w'.volume start wr' ∧
      opensSegmented s.manager.config w'.volume = s.manager.segmented.isSome ∧
      (Flushable s stop buf → wr' = wr ++ buf) := by
  have hmd := (flushAll_sameMode s).final
  obtain ⟨hc, wr', stop', buf', hh, ha⟩ := flushAll_final h
  rw [← hc]
  generalize hfinal : finalState flushAll s = s' at hh hmd
  have hl : ∀ res, s'.manager.segmented.elim (pure ()) SegmentedWalStorage.close s'.world = res →
      close s.manager s.world = res := by
    rintro res rfl
    obtain ⟨mgr, world⟩ := s
    simp only [close, run_eq, hfinal]
    cases s'.manager.segmented <;> rfl
  rcases hh.disk with ⟨hf, ht⟩ | ⟨hs, hrc, ht, hp⟩
  · have hk : opensSegmented s'.manager.config s'.world.volume = s.manager.segmented.isSome := by
      rw [hf.mode, ← hmd, hf.legacy]
      rfl
    refine ⟨s'.world, wr', hl _ (by rw [hf.legacy]; rfl), ?_, hk, ha⟩
    refine .file hf.mode hf.found hf.bytes hf.encodes ?_ ht
    rw [hf.stop_eq, hh.file hf.legacy]
    have hv := hh.buffered.valid
    have he := hh.buffered.stop
    exact Nat.lt_of_le_of_lt (by omega) hv
  · obtain ⟨w', last', dir, hr, hd, hsh, hm, _⟩ := close_run hs.holds
    rw [hs.place] at hd
    have ho : opensSegmented s'.manager.config w'.volume = true := by
      unfold opensSegmented
      cases hk : s'.manager.config.storageMode with
      | legacySingleFile => exact absurd hk hs.mode
      | segmented => rfl
      | auto => simp [hd]
    have hk : opensSegmented s'.manager.config w'.volume = s.manager.segmented.isSome := by
      rw [ho, ← hmd, hs.segmented]
      rfl
    refine ⟨w', wr', hl _ (by rw [hs.segmented]; exact hr), ?_, hk, ha⟩
    refine .segments ho hd hsh hs.capacity ?_ ?_ ?_
    · rw [← hm.id, ← hm.stop]
      exact hs.ids
    · rw [layoutRecords_same hm, hrc]
    · rw [head?_concat_start hm.start.symm [], ht]

end

/-- A log in the smallest segments. -/
def smallSegments : LogConfig := ⟨4096, .eagerValidated, .segmented, 128⟩

end MiniDb.Wal
