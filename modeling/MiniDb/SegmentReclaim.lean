import MiniDb.SegmentReads

/-!
Reclaiming the oldest segments. A reclaim first moves the manifest past the segments
it gives up and then removes their files; what it gives up ends at or before its
floor, and the log without it is laid out as before.
-/
namespace MiniDb.Wal
open ByteString Outcome CrashFiles Stateful SegmentedWalStorage StorageState
open List hiding after get

variable {pre : List Stretch} {fl : Nat} {s : StorageState} {last : Stretch}

/-! The manifest. -/

/-- The directory after a new manifest was put in place. -/
def Directory.withManifest (directory : Directory) (bytes : List UInt8) : Directory :=
  ⟨⟨some ⟨bytes, bytes.length⟩, []⟩, .absent, directory.segments.mapValues Entry.sync⟩

/-- The effects that put a manifest in place. -/
def StorageState.withManifest (s : StorageState) (bytes : List UInt8) : StorageState :=
  ((((s.after (.createManifest s.storage.place)).after (.writeManifest s.storage.place bytes)).after
    (.syncManifest s.storage.place)).after (.renameManifest s.storage.place)).after
      (.syncDirectory s.storage.place)

theorem publishManifest_run {s : StorageState} {bs : List UInt8}
    (he : encodeWalSegmentManifest s.storage.manifest = .ok bs) :
    publishManifest s = .ok () (s.withManifest bs) := by
  unfold publishManifest
  simp only [he, fromExcept, run_eq, emit_run]
  rfl

variable {dir : Directory}

theorem directory?_withManifest {s : StorageState} {bs : List UInt8} (h : s.directory? = some dir) :
    (s.withManifest bs).directory? = some (dir.withManifest bs) := by
  have hc := directory?_after h (.createManifest s.storage.place) (fun dir => { dir with
      manifestTemporary := dir.manifestTemporary.put (some .empty) }) fun _ => rfl
  have hw := directory?_after hc (.writeManifest s.storage.place bs) (fun dir => { dir with
      manifestTemporary := dir.manifestTemporary.update (·.write 0 bs) }) fun _ => rfl
  have hs := directory?_after hw (.syncManifest s.storage.place) (fun dir => { dir with
      manifestTemporary := dir.manifestTemporary.update (·.sync) }) fun _ => rfl
  have hr := directory?_after hs (.renameManifest s.storage.place) (fun dir => { dir with
      manifest := dir.manifest.put dir.manifestTemporary.current
      manifestTemporary := dir.manifestTemporary.put none }) fun _ => rfl
  rw [withManifest, directory?_after hr (.syncDirectory s.storage.place) (·.sync) fun _ => rfl]
  simp [Directory.withManifest, Directory.sync, Entry.put, Entry.update, Entry.sync,
    SyncedFile.sync, SyncedFile.write, SyncedFile.empty, Entry.absent]

theorem Directory.segment_withManifest (dir : Directory) (bs : List UInt8) (id : Nat) :
    (dir.withManifest bs).segment id = (dir.segment id).sync :=
  dir.segment_sync id

/-! Which segments a reclaim gives up. -/

theorem floorIndex_lt {fl : Nat} {segs : List WalSegmentInfo} (h : segs ≠ []) :
    floorIndex fl segs < segs.length := by
  induction segs with
  | nil => exact absurd rfl h
  | cons fst rest ih =>
    cases rest with
    | nil => exact Nat.zero_lt_one
    | cons next rest =>
      rw [floorIndex]
      split
      · have := ih (by simp)
        simp only [length_cons] at this ⊢
        omega
      · exact Nat.zero_lt_succ _

theorem floorIndex_start {segs : List WalSegmentInfo} {fst : WalSegmentInfo}
    (hf : segs.head? = some fst) (hl : fst.header.startLsn ≤ fl) {info : WalSegmentInfo}
    (h : segs[floorIndex fl segs]? = some info) : info.header.startLsn ≤ fl := by
  induction segs generalizing fst with
  | nil => simp at hf
  | cons head rest ih =>
    simp only [head?_cons, Option.some.injEq] at hf
    subst hf
    cases rest with
    | nil =>
      simp only [floorIndex, getElem?_cons_zero, Option.some.injEq] at h
      exact h ▸ hl
    | cons next rest =>
      rw [floorIndex] at h
      split at h
      · rename_i hn
        rw [getElem?_cons_succ] at h
        exact ih rfl hn h
      · simp only [getElem?_cons_zero, Option.some.injEq] at h
        exact h ▸ hl

theorem floorIndex_le {segs : List WalSegmentInfo} {ix : Nat}
    (h : ∀ next, segs[ix + 1]? = some next → fl < next.header.startLsn) :
    floorIndex fl segs ≤ ix ∨ segs.length ≤ ix := by
  induction segs generalizing ix with
  | nil => exact .inr (Nat.zero_le _)
  | cons fst rest ih =>
    cases rest with
    | nil => exact .inl (Nat.zero_le _)
    | cons next rest =>
      rw [floorIndex]
      split
      · rename_i hn
        cases ix with
        | zero =>
          have := h next (by simp)
          omega
        | succ ix =>
          rcases ih fun later hlt => h later (by simpa using hlt) with hle | hle
          · exact .inl (Nat.succ_le_succ hle)
          · exact .inr (by simpa using hle)
      · exact .inl (Nat.zero_le _)

theorem unlink_run {part : List Stretch} (hd : s.directory? = some dir)
    (hpr : ∀ str ∈ part, (dir.segment str.id).current.isSome) (hnd : (part.map Stretch.id).Nodup) :
    ∃ s' dir', (part.map (·.info)).forM unlinkSegment s = .ok () s' ∧
      s'.directory? = some dir' ∧ s'.storage = s.storage ∧
      s'.world.hasParent = s.world.hasParent ∧ dir'.manifest = dir.manifest ∧
      ∀ id, dir'.segment id =
        if id ∈ part.map Stretch.id then (dir.segment id).put none else dir.segment id := by
  induction part generalizing s dir with
  | nil => exact ⟨s, dir, rfl, hd, rfl, rfl, rfl, fun id => by simp⟩
  | cons str part ih =>
    obtain ⟨hn, hrs⟩ := nodup_cons.mp hnd
    have hso : (s.world.volume.segment? s.storage.place str.info.header.segmentId).isSome := by
      rw [s.segment?_eq hd, Option.isSome_map]
      exact hpr str (by simp)
    have hr : unlinkSegment str.info s =
        .ok () (s.after (.removeSegment s.storage.place str.id)) := by
      unfold unlinkSegment
      simp only [run_eq, if_pos hso, emit_run]
      rfl
    have ha := directory?_after hd
      (.removeSegment s.storage.place str.id) (·.putSegment str.id none) fun _ => rfl
    have hs : ∀ id, (dir.putSegment str.id none).segment id =
        if id = str.id then (dir.segment str.id).put none else dir.segment id :=
      fun id => dir.segment_setSegment _ _ id
    obtain ⟨s', dir', hl, hd', ht, hp, hm, hg⟩ :=
      ih ha (fun other ho => by
        have hne : other.id ≠ str.id := by
          intro hsm
          exact hn (mem_map.mpr ⟨other, ho, hsm⟩)
        rw [hs, if_neg hne]
        exact hpr other (mem_cons_of_mem _ ho)) hrs
    refine ⟨s', dir', ?_, hd', ht, hp, hm, ?_⟩
    · show (unlinkSegment str.info >>= fun _ => (part.map (·.info)).forM unlinkSegment) s = _
      rw [run_bind hr]
      exact hl
    · intro id
      rw [hg id, hs]
      by_cases hi : id = str.id
      · subst hi
        simp [hn]
      · simp [hi]

/-- How many segments a reclaim may give up: none that reaches past its floor, and
none of the `extraSegments` before the one with the floor in it. -/
structure Reclaimable (floorLsn extraSegments : Nat) (front : List Stretch) (last : Stretch)
    (removable : Nat) : Prop where
  closed : removable ≤ front.length
  below : ∀ stretch ∈ front.take removable, stretch.stop ≤ floorLsn
  kept : ∀ (index : Nat) stretch, (front ++ [last])[index]? = some stretch →
    stretch.start ≤ floorLsn → (floorLsn < stretch.stop ∨ index = front.length) →
      removable ≤ index - extraSegments

theorem reclaimable_zero {es : Nat} : Reclaimable fl es pre last 0 :=
  ⟨Nat.zero_le _, by simp, fun _ _ _ _ _ => Nat.zero_le _⟩

theorem stop_le_start_of_lt {lay : List Stretch} {a b : Stretch} {i j : Nat}
    (hc : lay.IsChain fun a b => b.start = a.stop) (hle : ∀ x ∈ lay, x.start ≤ x.stop)
    (ha : lay[i]? = some a) (hb : lay[j]? = some b) (hlt : i < j) : a.stop ≤ b.start := by
  obtain ⟨hi, rfl⟩ := List.getElem?_eq_some_iff.mp ha
  have hd := drop_eq_getElem_cons hi
  have hs := hc.drop i
  rw [hd] at hs
  refine stop_le_start hs ?_ ?_
  · intro x hx
    exact hle x (mem_of_mem_drop (hd ▸ hx))
  · refine mem_of_getElem? (i := j - (i + 1)) ?_
    rw [getElem?_drop, show i + 1 + (j - (i + 1)) = j by omega, hb]

/-- What a reclaim gives up lies before its floor. -/
theorem Stored.reclaimable {stg : SegmentedWalStorage} {pre : List Stretch}
    {last fst : Stretch} {lay : List Stretch} {fl es : Nat}
    (h : Stored stg dir pre last) (hy : pre ++ [last] = fst :: lay) (hr : fst.start ≤ fl) :
    Reclaimable fl es pre last (floorIndex fl stg.segments - es) := by
  have hl : stg.segments.length = pre.length + 1 := by
    rw [h.segments, length_map, length_append, length_singleton]
  have hnm : stg.segments ≠ [] := by
    intro hn
    rw [hn] at hl
    exact absurd hl (by simp)
  have hh : stg.segments.head? = some fst.info := by
    rw [h.segments, hy]
    rfl
  have hd := @floorIndex_lt fl _ hnm
  refine ⟨by omega, ?_, ?_⟩
  · intro str hm
    obtain ⟨i, hi⟩ := getElem?_of_mem hm
    have hlt : i < floorIndex fl stg.segments - es := by
      have := (List.getElem?_eq_some_iff.mp hi).1
      rw [length_take] at this
      omega
    rw [getElem?_take_of_lt hlt] at hi
    have hfn : (pre ++ [last])[i]? = some str := by
      rw [getElem?_append_left (List.getElem?_eq_some_iff.mp hi).1, hi]
    obtain ⟨floored, hf⟩ : ∃ x, (pre ++ [last])[floorIndex fl stg.segments]? = some x :=
      ⟨_, getElem?_eq_getElem (by rw [length_append, length_singleton]; omega)⟩
    have hin : stg.segments[floorIndex fl stg.segments]? = some floored.info := by
      nth_rewrite 1 [h.segments]
      rw [getElem?_map, hf]
      rfl
    have hs := floorIndex_start hh hr hin
    have ho := stop_le_start_of_lt h.contiguous (fun x hx => h.start_le_stop hx) hfn hf (by omega)
    exact ho.trans hs
  · intro ix str ha hs hc
    have his := (List.getElem?_eq_some_iff.mp ha).1
    rw [length_append, length_singleton] at his
    rcases hc with hp | hls
    · have hle : floorIndex fl stg.segments ≤ ix ∨ stg.segments.length ≤ ix := by
        refine floorIndex_le fun next hnx => ?_
        rw [h.segments, getElem?_map, Option.map_eq_some_iff] at hnx
        obtain ⟨following, hfo, rfl⟩ := hnx
        have := stop_le_start_of_lt h.contiguous (fun x hx => h.start_le_stop hx) ha hfo
          (Nat.lt_succ_self ix)
        exact hp.trans_le this
      omega
    · omega

/-- The layout without its first segments. -/
theorem Stored.dropFront {stg stg' : SegmentedWalStorage} {dir' : Directory}
    {removed : Nat} (h : Stored stg dir pre last) (hrm : removed ≤ pre.length)
    (ht : stg' = { stg with
      manifest := { stg.manifest with
        firstRetainedSegmentId := stg.manifest.firstRetainedSegmentId + removed }
      segments := stg.segments.drop removed }) (hm : dir'.manifest =
      ⟨some ⟨checkedBlock stg'.manifest.layout, segmentHeaderSize⟩, []⟩)
    (hg : ∀ id, stg.manifest.firstRetainedSegmentId + removed ≤ id →
      dir'.segment id = (dir.segment id).sync) :
    Stored stg' dir' (pre.drop removed) last := by
  subst ht
  have hd : (pre ++ [last]).drop removed = pre.drop removed ++ [last] :=
    drop_append_of_le_length hrm
  have hf := h.last_id
  have hl := h.last_sound.inRange.segmentId
  have he : ∀ str ∈ pre.drop removed ++ [last], str ∈ pre ++ [last] := by
    intro str hs
    exact mem_of_mem_drop (hd ▸ hs)
  have hid : (pre.drop removed ++ [last]).map Stretch.id = range'
      (stg.manifest.firstRetainedSegmentId + removed) ((pre.drop removed).length + 1) := by
    rw [← hd, map_drop, h.ids, drop_range', length_drop, Nat.mul_one]
    congr 1
    omega
  have hid_le : ∀ str ∈ pre.drop removed ++ [last],
      stg.manifest.firstRetainedSegmentId + removed ≤ str.id := by
    intro str hs
    have hr : str.id ∈ (pre.drop removed ++ [last]).map Stretch.id :=
      mem_map.mpr ⟨str, hs, rfl⟩
    rw [hid, mem_range'] at hr
    omega
  refine ⟨⟨hm, ?_, ?_, hid, ?_, ?_, ?_, ?_⟩, ?_, h.logicalEnd, h.descriptor, h.settled, h.untorn⟩
  · obtain ⟨hp, hps, hrs⟩ := h.wellFormed
    exact ⟨hp, Nat.ne_of_gt ((Nat.pos_of_ne_zero hps).trans_le
      (Nat.le_add_right _ _)), hrs⟩
  · refine ⟨h.inRange.payloadCapacity, ?_, h.inRange.initialLsn, h.inRange.migrationBaseLsn⟩
    show stg.manifest.firstRetainedSegmentId + removed < 2 ^ 64
    have : last.id < 2 ^ 64 := hl
    omega
  · rw [← hd]
    exact h.contiguous.drop removed
  · intro str hs
    have hn := h.sound str (he str hs)
    refine { hn with entry := ?_ }
    rw [hg _ (hid_le str hs), hn.entry]
    rfl
  · intro id hle hc
    rw [hg id hle] at hc
    obtain ⟨str, hs, rfl⟩ := h.only id ((Nat.le_add_right _ _).trans hle)
      fun ha => hc (by rw [ha]; rfl)
    refine ⟨str, ?_, rfl⟩
    rw [← hd]
    obtain ⟨i, hi⟩ := getElem?_of_mem hs
    have hat := h.id_at hi
    have hge : removed ≤ i := by
      change stg.manifest.firstRetainedSegmentId + removed ≤ str.id at hle
      omega
    refine mem_of_getElem? (i := i - removed) ?_
    rw [getElem?_drop, Nat.add_sub_cancel' hge, hi]
  · intro str hs
    exact h.closed str (mem_of_mem_drop hs)
  · rw [h.segments, ← hd, map_drop]

theorem giveUp_run {first : Stretch} {removed : Nat} (h : s.Holds pre last)
    (hrm : removed ≤ pre.length) (hf : (pre ++ [last])[removed]? = some first) :
    ∃ reclaimed s', giveUp removed first.info s = .ok reclaimed s' ∧
      s'.Holds (pre.drop removed) last ∧
      s'.storage.place = s.storage.place ∧ s'.world.hasParent = s.world.hasParent ∧
      s'.storage.manifest.payloadCapacity = s.storage.manifest.payloadCapacity := by
  obtain ⟨dir, hd, ht⟩ := h
  have hid := ht.id_at hf
  have hl := ht.last_sound.inRange.segmentId
  have hls := ht.last_id
  -- The manifest with the new floor is written like any other.
  generalize hs₁ : ({ s with storage := { s.storage with manifest := { s.storage.manifest with
    firstRetainedSegmentId := first.id } } } : StorageState) = s₁
  have hw : s₁.storage.manifest.WellFormed := by
    obtain ⟨hc, hps, hrs⟩ := ht.wellFormed
    subst hs₁
    refine ⟨hc, ?_, hrs⟩
    show first.id ≠ 0
    omega
  have hb := publishManifest_run (encodeWalSegmentManifest_ok.mpr ⟨hw, rfl⟩)
  have hd₁ : s₁.directory? = some dir := by
    rw [← hs₁]
    exact hd
  have hd₂ := @directory?_withManifest _ _ (checkedBlock s₁.storage.manifest.layout) hd₁
  have he : ∀ stretch ∈ pre.take removed, stretch ∈ pre ++ [last] :=
    fun stretch hr => mem_append_left _ (mem_of_mem_take hr)
  have hnd : ((pre.take removed).map Stretch.id).Nodup := by
    have ha : ((pre ++ [last]).map Stretch.id).Nodup := by
      rw [ht.ids]
      exact nodup_range'
    rw [map_append] at ha
    rw [map_take]
    exact (nodup_append.mp ha).1.sublist (take_sublist _ _)
  obtain ⟨s₃, directory₃, hu, hd₃, hg₃, hpr₃, hm₃, hse₃⟩ :=
    unlink_run hd₂ (fun stretch hr => by
      rw [Directory.segment_withManifest, (ht.sound stretch (he stretch hr)).entry]
      rfl) hnd
  have haf := directory?_after hd₃ (.syncDirectory s₃.storage.place) (·.sync) fun _ => rfl
  have hp : s₃.storage.place = s.storage.place := by
    rw [hg₃, ← hs₁]
    rfl
  have htk : s.storage.segments.take removed = (pre.take removed).map (·.info) := by
    rw [ht.segments, ← map_take, take_append_of_le_length hrm]
  refine ⟨((s.storage.segments.take removed).map (·.physicalBytes)).sum,
    { s₃.after (.syncDirectory s₃.storage.place) with
      storage := { s₃.storage with segments := s₃.storage.segments.drop removed } },
    ?_, ⟨_, haf, ?_⟩, hp, ?_, ?_⟩
  · have hmd : modifyStorage (fun storage => { storage with
        manifest :=
          { storage.manifest with firstRetainedSegmentId := first.info.header.segmentId } })
        s = .ok () s₁ := by
      rw [← hs₁]
      rfl
    unfold giveUp
    rw [run_get_bind, run_bind hmd, run_bind hb, htk, run_bind hu, ← hp, run_bind (emit_run _ _)]
    rfl
  · refine ht.dropFront hrm ?_ ?_ ?_
    · rw [hg₃, ← hs₁]
      simp only [withManifest, after, hid]
    · show directory₃.manifest.sync = _
      rw [hm₃, hg₃, ← hs₁]
      show (⟨some ⟨checkedBlock _, (checkedBlock _).length⟩, []⟩ : Entry SyncedFile) = _
      rw [length_checkedBlock rfl]
      rfl
    · intro id hle
      have hk : id ∉ (pre.take removed).map Stretch.id := by
        intro hn
        obtain ⟨stretch, hr, rfl⟩ := mem_map.mp hn
        obtain ⟨i, hi⟩ := getElem?_of_mem hr
        have hlt := (List.getElem?_eq_some_iff.mp hi).1
        rw [length_take] at hlt
        rw [getElem?_take_of_lt (by omega)] at hi
        have hat := ht.id_at ((getElem?_append_left (by omega)).trans hi)
        omega
      rw [Directory.segment_sync, hse₃, if_neg hk, Directory.segment_withManifest]
      rfl
  · show s₃.world.hasParent = _
    rw [hpr₃, ← hs₁]
    rfl
  · rw [hg₃, ← hs₁]
    rfl

/-- A reclaim returns, and the log without what it gave up is laid out as before. -/
theorem reclaimBefore_run (fl es : Nat) (h : s.Holds pre last) :
    ∃ reclaimed s' rem, reclaimBefore fl es s = .ok reclaimed s' ∧
      Reclaimable fl es pre last rem ∧ s'.Holds (pre.drop rem) last ∧
      s'.storage.place = s.storage.place ∧ s'.world.hasParent = s.world.hasParent ∧
      s'.storage.manifest.payloadCapacity = s.storage.manifest.payloadCapacity := by
  obtain ⟨dir, hd, hs⟩ := id h
  obtain ⟨oldest, lay, hl⟩ := exists_first pre last
  have hh : s.storage.segments.head? = some oldest.info := by
    rw [hs.segments, hl]
    rfl
  unfold reclaimBefore
  simp only [run_get_bind, hh]
  by_cases ho : s.storage.segments.length ≤ 1 ∨ fl < oldest.info.header.startLsn ∨
      s.storage.logicalEnd < fl
  · simp only [if_pos ho]
    exact ⟨_, s, 0, rfl, reclaimable_zero, h, rfl, rfl, rfl⟩
  · simp only [if_neg ho]
    have hrc := @Stored.reclaimable _ _ _ _ _ _ fl es hs hl
      (by have : ¬ fl < oldest.start := fun hlt => ho (.inr (.inl hlt)); omega)
    by_cases hz : floorIndex fl s.storage.segments - es = 0
    · simp only [if_pos hz]
      exact ⟨_, s, 0, rfl, reclaimable_zero, h, rfl, rfl, rfl⟩
    · simp only [if_neg hz]
      generalize floorIndex fl s.storage.segments - es = rem at hrc
      obtain ⟨fst, hf⟩ : ∃ fst, (pre ++ [last])[rem]? = some fst :=
        ⟨_, getElem?_eq_getElem (by
          rw [length_append, length_singleton]
          exact Nat.lt_succ_of_le hrc.closed)⟩
      have hi : s.storage.segments[rem]? = some fst.info := by
        rw [hs.segments, getElem?_map, hf]
        rfl
      obtain ⟨reclaimed, s', hr, hhl, hpl, hp, hc⟩ :=
        giveUp_run h hrc.closed hf
      refine ⟨reclaimed, s', rem, ?_, hrc, hhl, hpl, hp, hc⟩
      rw [hi]
      exact hr

end MiniDb.Wal
