import MiniDb.SegmentOpening
import MiniDb.WalLogManager

/-!
What a `LogManager` holds: records on disk and, behind them, records in its buffer.
The disk part is the single file or the segments. Writing the buffer either moves it
behind what is on disk as it is, or throws at the first record that has no place
there and leaves a log that is still well formed.
-/
namespace MiniDb.Wal
open ByteString Outcome CrashFiles Stateful Wal.LogManager List

variable {stg : SegmentedWalStorage} {last : Stretch} {file : SyncedFile}
variable {rs : List LogRecord} {body : List UInt8}

/-! The disk part. -/

/-- The single file holds `written` and ends at `stop`. -/
structure FileHolds (s : LogState) (written : List LogRecord) (stop : Nat) (file : SyncedFile)
    (body : List UInt8) : Prop where
  legacy : s.manager.segmented = none
  mode : opensSegmented s.manager.config s.world.volume = false
  found : s.world.volume.legacy.current = some file
  bytes : file.bytes = encodeWalFileHeader ++ body
  encodes : Encodes walHeaderSize written body
  stop_eq : walHeaderSize + body.length = stop

/-- The segments are laid out as `front` and `last`; ids have not outrun positions. -/
structure SegmentsHold (s : LogState) (storage : SegmentedWalStorage) (front : List Stretch)
    (last : Stretch) : Prop where
  segmented : s.manager.segmented = some storage
  mode : s.manager.config.storageMode ≠ .legacySingleFile
  holds : StorageState.Holds ⟨storage, s.world⟩ front last
  place : storage.place = .published
  capacity : storage.manifest.payloadCapacity = s.manager.config.segmentPayloadCapacity.toNat
  opened : storage.activeDescriptor.isSome
  ids : last.id ≤ last.stop

/-- The log on disk holds `written` between the positions `start` and `stop`. -/
inductive Disk (s : LogState) (start : Nat) (written : List LogRecord) (stop : Nat) : Prop
  | file {file : SyncedFile} {body : List UInt8} (h : FileHolds s written stop file body)
      (hstart : start = walHeaderSize)
  | segments {storage : SegmentedWalStorage} {front : List Stretch} {last : Stretch}
      (h : SegmentsHold s storage front last) (hrecords : layoutRecords (front ++ [last]) = written)
      (hstart : (front ++ [last]).head?.map Stretch.start = some start) (hstop : last.stop = stop)

/-- The records in the buffer follow the position where it starts. -/
structure Buffered (s : LogState) (buffered : List LogRecord) : Prop where
  encodes : Encodes s.manager.bufferStartOffset buffered s.manager.buffer
  stop : s.manager.bufferStartOffset + s.manager.buffer.length = s.manager.nextLsn
  valid : isValidLsn s.manager.nextLsn

/-- The buffer is no part of what is on disk. -/
theorem Disk.rebuffer {s : LogState} {start stop : Nat} {wr : List LogRecord}
    (h : Disk s start wr stop) (manager : LogManager) (hg : manager.segmented = s.manager.segmented)
    (hc : manager.config = s.manager.config) : Disk { s with manager } start wr stop := by
  rcases h with ⟨h, hs⟩ | ⟨h, hr, hs, hp⟩
  · exact .file ⟨hg.trans h.legacy, by rw [hc]; exact h.mode, h.found, h.bytes, h.encodes,
      h.stop_eq⟩ hs
  · exact .segments ⟨hg.trans h.segmented, by rw [hc]; exact h.mode, h.holds, h.place,
      by rw [hc]; exact h.capacity, h.opened, h.ids⟩ hr hs hp

/-- A call that changes nothing of the manager but its storage. -/
def SameButStorage (s s' : LogState) : Prop :=
  s'.manager = { s.manager with segmented := s'.manager.segmented }

theorem SameButStorage.refl (s : LogState) : SameButStorage s s := rfl

theorem SameButStorage.trans {a b c : LogState} (ha : SameButStorage a b)
    (hb : SameButStorage b c) : SameButStorage a c := by
  unfold SameButStorage at *
  rw [hb, ha]

/-- The state after one effect. -/
def LogState.after (s : LogState) (effect : Effect) : LogState :=
  { s with world := { s.world with
      volume := s.world.volume.perform effect
      journal := s.world.journal ++ [effect] } }

/-! Writing the buffer. -/

/-- A record put behind the last one of the segments. -/
theorem appendRecord_onSegments {s : LogState} {pre : List Stretch} {rec : LogRecord}
    {enc : List UInt8} {lsn : Nat} (h : SegmentsHold s stg pre last)
    (he : encodeWalRecord rec lsn = .ok enc) (hv : isValidLsn (lsn + enc.length)) :
    Ensures (onSegments stg (SegmentedWalStorage.appendRecord lsn enc)) s
      (fun _ s' => lsn = last.stop ∧
        enc.length ≤ s.manager.config.segmentPayloadCapacity.toNat ∧ SameButStorage s s' ∧
        ∃ stg' pre' last', SegmentsHold s' stg' pre' last' ∧
          Appended rec enc pre last pre' last') (fun _ s' => s' = s ∧
        ¬ (lsn = last.stop ∧ enc.length ≤ s.manager.config.segmentPayloadCapacity.toNat)) := by
  rw [onSegments, ensures_onPart, ← h.capacity]
  refine (appendRecord_ensures h.holds he).imp ?_ ?_
  · rintro _ t ⟨rfl, hf, hw⟩
    obtain ⟨⟨pre', last', hh, ha⟩, ht, _, ho⟩ := hw hv
    refine ⟨rfl, hf, rfl, t.storage, pre', last', ?_, ha⟩
    have hz := encode_pos he
    have hi := h.ids
    have hd := ha.id
    have hp := ha.stop
    simp only [recordHeaderSize] at hz
    refine ⟨rfl, h.mode, hh, ?_, ?_, ho, by omega⟩
    · rw [ht.place]
      exact h.place
    · rw [ht.manifest]
      exact h.capacity
  · rintro _ t (⟨hr, rfl⟩ | ⟨hr, _⟩)
    · refine ⟨?_, hr⟩
      have hm : { s.manager with segmented := some stg } = s.manager := by
        rw [← h.segmented]
      simp only [hm]
    · obtain ⟨_, _, hs⟩ := h.holds
      have hsp : last.stop < 2 ^ 64 - 1 := hs.last_sound.space
      have hi := h.ids
      have ho := h.opened
      rcases hr with hex | hn
      · omega
      · rw [show stg.activeDescriptor = none from hn] at ho
        exact absurd ho (by simp)

/-- The records that have a place in a segment. -/
def Fits (s : LogState) (records : List LogRecord) : Prop :=
  ∀ record ∈ records, encodedSize record ≤ s.manager.config.segmentPayloadCapacity.toNat

theorem SameButStorage.fits {s s' : LogState} (h : SameButStorage s s') :
    Fits s' rs ↔ Fits s rs := by
  unfold Fits
  rw [h]

/-- The records of the buffer put into the segments one after the other. -/
theorem writeRecords_ensures {s : LogState} {pre : List Stretch} {fuel lsn : Nat}
    {rest : List UInt8} (h : SegmentsHold s stg pre last) (he : Encodes lsn rs rest)
    (hv : isValidLsn (lsn + rest.length)) (hl : rest.length ≤ fuel) :
    Ensures (writeRecords fuel rest lsn) s
      (fun _ s' => SameButStorage s s' ∧ (rs = [] ∨ lsn = last.stop) ∧ Fits s rs ∧
        ∃ stg' pre' last', SegmentsHold s' stg' pre' last' ∧
          layoutRecords (pre' ++ [last']) = layoutRecords (pre ++ [last]) ++ rs ∧
          (pre' ++ [last']).head?.map Stretch.start = (pre ++ [last]).head?.map Stretch.start ∧
          last'.stop = last.stop + rest.length)
      (fun _ s' => SameButStorage s s' ∧ ¬ (lsn = last.stop ∧ Fits s rs) ∧
        ∃ stg' pre' last', SegmentsHold s' stg' pre' last' ∧
          (pre' ++ [last']).head?.map Stretch.start = (pre ++ [last]).head?.map Stretch.start ∧
          (lsn < last'.stop ∨ last'.stop = last.stop ∧
            layoutRecords (pre' ++ [last']) = layoutRecords (pre ++ [last]))) := by
  induction he generalizing s stg pre last fuel with
  | nil =>
    rename_i lsn
    have hdn : writeRecords fuel [] lsn s = .ok () s := by
      cases fuel <;> rfl
    rw [ensures_of_ok hdn]
    exact ⟨.refl s, .inl rfl, by simp [Fits], stg, pre, last, h, (append_nil _).symm, rfl, rfl⟩
  | cons henc hlsn hrest ih =>
    rename_i lsn rec enc rs bs
    have hz := encode_pos henc
    simp only [recordHeaderSize] at hz
    cases fuel with
    | zero =>
      rw [length_append] at hl
      omega
    | succ fuel =>
      have hne : enc ++ bs ≠ [] := by
        intro hn
        rw [append_eq_nil_iff] at hn
        rw [hn.1] at hz
        exact absurd hz (by simp)
      have ht := (header_of_encode henc bs).2
      rw [length_append] at hl hv
      unfold writeRecords
      simp only [if_neg hne, ensures_iff, h.segmented, ht, take_left, drop_left]
      have hf : isValidLsn (lsn + enc.length) := Nat.lt_of_le_of_lt (by omega) hv
      refine (appendRecord_onSegments h henc hf).imp ?_ ?_
      · rintro _ s₁ ⟨rfl, hft, hs, storage₁, front₁, last₁, hh, hp⟩
        have hst := hp.stop
        refine (ih hh (by rw [add_assoc]; exact hv) (by omega)).imp ?_ ?_
        · rintro _ s₂ ⟨hs', _, hft', storage₂, front₂, last₂, hh', hc, hd, hst'⟩
          refine ⟨hs.trans hs', .inr rfl, ?_, storage₂, front₂, last₂, hh', ?_, ?_, ?_⟩
          · intro r hr
            rcases mem_cons.mp hr with rfl | hr
            · rw [← length_of_encode henc]
              exact hft
            · exact hs.fits.mp hft' r hr
          · rw [hc, hp.records, append_assoc]
            obtain ⟨type, tid, pv, pl, plc⟩ := rec
            simp only at hlsn
            rw [hlsn]
            rfl
          · rw [hd, hp.head]
          · rw [hst', hst, length_append, add_assoc]
        · rintro _ s₂ ⟨hs', hrs, storage₂, front₂, last₂, hh', hd, hw⟩
          refine ⟨hs.trans hs', ?_, storage₂, front₂, last₂, hh', hd.trans hp.head, .inl ?_⟩
          · rintro ⟨_, ha⟩
            exact hrs ⟨hst.symm, hs.fits.mpr fun r hr => ha r (mem_cons_of_mem _ hr)⟩
          · rcases hw with hbh | ⟨hs, _⟩ <;> omega
      · rintro _ s₁ ⟨rfl, hrs⟩
        refine ⟨.refl _, ?_, stg, pre, last, h, rfl, .inr ⟨rfl, rfl⟩⟩
        rintro ⟨hb, ha⟩
        refine hrs ⟨hb, ?_⟩
        rw [length_of_encode henc]
        exact ha rec mem_cons_self

theorem Encodes.eq_nil {lsn : Nat} {bs : List UInt8} (h : Encodes lsn rs bs) :
    bs = [] ↔ rs = [] := by
  cases h with
  | nil => simp
  | cons henc _ _ =>
    have := encode_pos henc
    simp only [recordHeaderSize] at this
    constructor
    · intro hn
      rw [(append_eq_nil_iff.mp hn).1] at this
      exact absurd this (by simp)
    · intro hn
      exact absurd hn (by simp)

/-- Why the buffer cannot be written: the file is at its limit, or a record has no
place in the segments. -/
def Stuck (s : LogState) (stop : Nat) (buffered : List LogRecord) : Prop :=
  if s.manager.segmented.isSome then ¬ (s.manager.bufferStartOffset = stop ∧ Fits s buffered)
  else fileOffsetMax < s.manager.nextLsn

section
variable {s : LogState} {start stop : Nat} {wr buf : List LogRecord}

/-- A log found in the single file is looked for there as long as the file is there. -/
theorem opensSegmented_file {cfg : LogConfig} {vol vol' : Volume}
    (h : opensSegmented cfg vol = false) (hp : vol'.published = vol.published)
    (hl : vol'.legacy.current = some file) : opensSegmented cfg vol' = false := by
  unfold opensSegmented at h ⊢
  rw [show vol'.directory? .published = vol.directory? .published from
    congrArg Entry.current hp, hl]
  cases hm : cfg.storageMode with
  | legacySingleFile => rfl
  | segmented =>
    rw [hm] at h
    exact h
  | auto =>
    rw [hm] at h
    exact Bool.or_eq_false_iff.mpr ⟨(Bool.or_eq_false_iff.mp h).1, rfl⟩

theorem FileHolds.mode_after {file' : SyncedFile} {eff : Effect} (h : FileHolds s wr stop file body)
    (hp : (s.world.volume.perform eff).published = s.world.volume.published)
    (hf : (s.world.volume.perform eff).legacy.current = some file') :
    opensSegmented (s.after eff).manager.config (s.after eff).world.volume = false :=
  opensSegmented_file h.mode hp hf

theorem FileHolds.write {bs : List UInt8} (h : FileHolds s wr stop file body)
    (he : Encodes stop rs bs) :
    FileHolds (s.after (.writeLegacy stop bs)) (wr ++ rs) (stop + bs.length)
      (file.write stop bs) (body ++ bs) := by
  have hl : file.bytes.length = stop := by
    rw [h.bytes, length_append, ← h.stop_eq]
    rfl
  have hf : (s.world.volume.legacy.update (·.write stop bs)).current =
    some (file.write stop bs) := by
    rw [Entry.current_update, h.found]
    rfl
  refine ⟨h.legacy, h.mode_after rfl hf, hf, ?_, ?_, ?_⟩
  · rw [← hl, SyncedFile.write_end, h.bytes, append_assoc]
  · refine h.encodes.append ?_
    rw [h.stop_eq]
    exact he
  · rw [length_append, ← h.stop_eq, add_assoc]

theorem writeBytes_ensures {bs : List UInt8} (h : FileHolds s wr stop file body)
    (hn : Encodes stop rs bs) :
    Ensures (writeBytes stop bs) s
      (fun _ s' => SameButStorage s s' ∧ FileHolds s' (wr ++ rs) (stop + bs.length)
        (file.write stop bs) (body ++ bs))
      (fun _ s' => s' = s ∧ fileOffsetMax < stop + bs.length) := by
  simp only [writeBytes, ensures_iff, require_ok]
  refine ⟨fun _ _ => ⟨rfl, h.write hn⟩, fun e he =>
    ⟨trivial, ?_⟩⟩
  by_contra hle
  rw [require_of _ ⟨by omega, by omega⟩] at he
  exact absurd he (by simp)

/-- What a manager holds: `written` on disk and `buffered` in memory. The buffer follows
the disk unless a write of it was cut short, which happens to segments only. -/
structure Held (s : LogState) (start : Nat) (written : List LogRecord) (stop : Nat)
    (buffered : List LogRecord) : Prop where
  disk : Disk s start written stop
  buffered : Buffered s buffered
  file : s.manager.segmented = none → stop = s.manager.bufferStartOffset

/-- A call that changes nothing of the manager but its storage and its buffer. -/
def SameButBuffer (s s' : LogState) : Prop :=
  s'.manager = { s.manager with
    segmented := s'.manager.segmented
    buffer := s'.manager.buffer
    bufferStartOffset := s'.manager.bufferStartOffset }

theorem SameButBuffer.trans {a b c : LogState} (ha : SameButBuffer a b) (hb : SameButBuffer b c) :
    SameButBuffer a c := by
  unfold SameButBuffer at *
  rw [hb, ha]

theorem SameButStorage.sameButBuffer {s s' : LogState} (h : SameButStorage s s') :
    SameButBuffer s s' := by
  unfold SameButBuffer
  rw [h]

theorem SameButBuffer.nextLsn {s s' : LogState} (h : SameButBuffer s s') :
    s'.manager.nextLsn = s.manager.nextLsn := by rw [h]

theorem SameButBuffer.config {s s' : LogState} (h : SameButBuffer s s') :
    s'.manager.config = s.manager.config := by rw [h]

/-- A write of the buffer was cut short by a record that has no place in the segments;
what is on disk then runs into what is in the buffer. -/
structure Misaligned (s : LogState) (stop : Nat) (buffered : List LogRecord) : Prop where
  segmented : s.manager.segmented.isSome
  offset : stop ≠ s.manager.bufferStartOffset
  unfit : ¬ Fits s buffered

/-- Disk and buffer hold `records`, in order, or a write of the buffer was cut short. -/
def InOrder (s : LogState) (written : List LogRecord) (stop : Nat)
    (buffered records : List LogRecord) :
    Prop :=
  stop = s.manager.bufferStartOffset ∧ written ++ buffered = records ∨ Misaligned s stop buffered

/-- A buffer that has its place everywhere was never cut short. -/
theorem InOrder.aligned (h : InOrder s wr stop buf rs)
    (hf : s.manager.segmented.isSome → Fits s buf) :
    stop = s.manager.bufferStartOffset ∧ wr ++ buf = rs := by
  rcases h with h | h
  · exact h
  · exact absurd (hf h.segmented) h.unfit

/-- What a call may leave when it finds no place for the buffer. -/
def Intact (s s' : LogState) (start : Nat) (written : List LogRecord) (stop : Nat)
    (buffered : List LogRecord) : Prop :=
  SameButBuffer s s' ∧ (s.manager.buffer = [] → s'.manager.buffer = []) ∧
    ∃ written' stop' buffered', Held s' start written' stop' buffered' ∧ buffered' ⊆ buffered ∧
      ∀ records, InOrder s written stop buffered records →
        InOrder s' written' stop' buffered' records

theorem Held.intact (h : Held s start wr stop buf) : Intact s s start wr stop buf :=
  ⟨rfl, fun he => he, wr, stop, buf, h, List.Subset.refl _, fun _ ho => ho⟩

/-- The manager whose buffer was written. -/
def emptied (s : LogState) : LogState :=
  { s with manager := { s.manager with
      bufferStartOffset := s.manager.bufferStartOffset + s.manager.buffer.length
      buffer := [] } }

/-- The buffer is moved behind what is on disk, or the call throws because it has no
place there. -/
theorem writeBuffer_ensures (h : Held s start wr stop buf) :
    Ensures writeBuffer s (fun _ s' => SameButBuffer s s' ∧
        Held s' start (wr ++ buf) (stop + s.manager.buffer.length) [] ∧
        s'.manager.bufferStartOffset = s.manager.nextLsn ∧ s'.manager.buffer = [] ∧
        (buf = [] ∨ s.manager.bufferStartOffset = stop) ∧ (s.manager.segmented.isSome → Fits s buf))
      (fun _ s' => Stuck s stop buf ∧ Intact s s' start wr stop buf) := by
  have he := h.buffered.stop
  have hem := h.buffered.encodes.eq_nil
  have hv : ∀ {s' : LogState} {stop' : Nat}, SameButStorage s s' →
      Disk s' start (wr ++ buf) stop' → (s'.manager.segmented = none → stop' = s.manager.nextLsn) →
      SameButBuffer s (emptied s') ∧ Held (emptied s') start (wr ++ buf) stop' [] ∧
        (emptied s').manager.bufferStartOffset = s.manager.nextLsn := by
    intro s' stop' hs hds hf
    have ho : (emptied s').manager.bufferStartOffset = s.manager.nextLsn := by
      rw [← he]
      show s'.manager.bufferStartOffset + s'.manager.buffer.length = _
      rw [hs]
    have ht : s'.manager.nextLsn = s.manager.nextLsn := by rw [hs]
    refine ⟨?_, ⟨hds.rebuffer _ rfl rfl, ⟨.nil, ?_, ?_⟩, ?_⟩, ho⟩
    · unfold SameButBuffer emptied
      simp only
      rw [hs]
    · show (emptied s').manager.bufferStartOffset + 0 = s'.manager.nextLsn
      rw [ho, ht, add_zero]
    · show isValidLsn s'.manager.nextLsn
      rw [ht]
      exact h.buffered.valid
    · intro hno
      rw [ho]
      exact hf hno
  simp only [writeBuffer, ensures_iff]
  by_cases hb : s.manager.buffer = []
  · have hno := hem.mp hb
    have hr : s.manager.bufferStartOffset = s.manager.nextLsn := by
      rw [← he, hb]
      rfl
    rw [if_pos hb, ensures_pure, hno, append_nil, hb]
    exact ⟨rfl, hno ▸ h, hr, rfl, .inl rfl, fun _ => by simp [Fits]⟩
  · rw [if_neg hb]
    simp only [ensures_iff, writePending, modifyManager]
    rcases h.disk with ⟨hf, hr⟩ | ⟨hg, hc, hr, ht⟩
    · have ho := (h.file hf.legacy).symm
      have hen := h.buffered.encodes
      rw [ho] at hen
      rw [if_neg (by rw [hf.legacy]; simp), ho]
      refine (writeBytes_ensures hf hen).imp ?_ ?_
      · rintro _ s' ⟨hs, hw⟩
        obtain ⟨hb', hhe, ho'⟩ := hv hs (.file hw hr) (fun _ => by rw [← he, ho])
        refine ⟨hb', hhe, ho', trivial, .inr rfl, fun hso => ?_⟩
        rw [hf.legacy] at hso
        exact absurd hso (by simp)
      · rintro _ s' ⟨rfl, hlm⟩
        refine ⟨?_, h.intact⟩
        rw [Stuck, if_neg (by rw [hf.legacy]; simp), ← he, ho]
        exact hlm
    · have hso : s.manager.segmented.isSome := by rw [hg.segmented]; rfl
      rw [if_pos hso]
      refine (writeRecords_ensures hg h.buffered.encodes (by rw [he]; exact h.buffered.valid)
        le_rfl).imp ?_ ?_
      · rintro _ s' ⟨hs, hbn, hft, stg', front', last', hh, hc', hd, ht'⟩
        obtain ⟨hb', hhe, ho'⟩ := hv hs (.segments hh (by rw [hc', hc]) (hd.trans hr) rfl)
          (fun hno => by rw [hh.segmented] at hno; exact absurd hno (by simp))
        rw [ht', ht] at hhe
        exact ⟨hb', hhe, ho', trivial, ht ▸ hbn, fun _ => hft⟩
      · rintro _ s' ⟨hs, hrs, stg', front', last', hh, hd, hw⟩
        rw [ht, hc] at hw
        rw [ht] at hrs
        have hsc : Stuck s stop buf := by
          rw [Stuck, if_pos hso]
          exact hrs
        have ho : s'.manager.bufferStartOffset = s.manager.bufferStartOffset := by rw [hs]
        have hso' : s'.manager.segmented.isSome := by
          rw [hh.segmented]
          rfl
        refine ⟨hsc, hs.sameButBuffer, fun hn => absurd hn hb, _, _, buf,
          ⟨.segments hh rfl (hd.trans hr) rfl, ⟨?_, ?_, ?_⟩, ?_⟩, List.Subset.refl _,
          fun rs hor => ?_⟩
        · rw [hs]
          exact h.buffered.encodes
        · rw [hs]
          exact h.buffered.stop
        · rw [hs]
          exact h.buffered.valid
        · intro hno
          rw [hh.segmented] at hno
          exact absurd hno (by simp)
        · unfold InOrder
          rw [ho]
          rcases hor with ⟨ha, hl⟩ | hm
          · rcases hw with hbh | ⟨hs', hw⟩
            · refine .inr ⟨hso', ?_, fun hft => hrs ⟨ha.symm, hs.fits.mp hft⟩⟩
              rw [ho]
              exact hbh.ne'
            · exact .inl ⟨hs'.trans ha, by rw [hw, hl]⟩
          · refine .inr ⟨hso', ?_, fun hft => hm.unfit (hs.fits.mp hft)⟩
            rw [ho]
            rcases hw with hbh | ⟨hs', _⟩
            · exact hbh.ne'
            · rw [hs']
              exact hm.offset

/-! Appending. -/

/-- A record has been placed behind everything held, `size` bytes past the end. -/
structure Placed (s s' : LogState) (start : Nat) (written : List LogRecord) (stop : Nat)
    (buffered : List LogRecord) (size : Nat) : Prop where
  same : SameButBuffer s s'
  disk : Disk s' start written stop
  encodes : Encodes s'.manager.bufferStartOffset buffered s'.manager.buffer
  ends : s'.manager.bufferStartOffset + s'.manager.buffer.length = s.manager.nextLsn + size
  file : s'.manager.segmented = none → stop = s'.manager.bufferStartOffset

section
variable {rec : LogRecord} {enc : List UInt8}

theorem writeThrough_ensures (h : Held s start wr stop []) (hm : s.manager.buffer = [])
    (he : encodeWalRecord rec s.manager.nextLsn = .ok enc)
    (hv : isValidLsn (s.manager.nextLsn + enc.length)) :
    Ensures (writeThrough s.manager.nextLsn enc) s
      (fun _ s' => SameButStorage s s' ∧ s.manager.nextLsn = stop ∧
        Disk s' start (wr ++ [{ rec with lsn := s.manager.nextLsn }]) (stop + enc.length) ∧
        (s.manager.segmented.isSome →
          encodedSize rec ≤ s.manager.config.segmentPayloadCapacity.toNat))
      (fun _ s' => s' = s) := by
  have hn : s.manager.bufferStartOffset = s.manager.nextLsn := by
    rw [← h.buffered.stop, hm]
    rfl
  simp only [writeThrough, ensures_iff]
  rcases h.disk with ⟨hf, hr⟩ | ⟨hg, hc, hr, ht⟩
  · have ht : s.manager.nextLsn = stop := by rw [← hn, h.file hf.legacy]
    rw [hf.legacy, ht]
    rw [ht] at he
    refine (writeBytes_ensures hf (.single he)).imp ?_ fun _ s' hs => hs.1
    rintro _ s' ⟨hs, hw⟩
    exact ⟨hs, rfl, .file hw hr, by simp⟩
  · rw [hg.segmented]
    refine (appendRecord_onSegments hg he hv).imp ?_ fun _ s' hs => hs.1
    rintro _ s' ⟨hl, hft, hs, stg', pre', last', hh, ha⟩
    refine ⟨hs, hl.trans ht, .segments hh ?_ (ha.head.trans hr) ?_, fun _ => ?_⟩
    · rw [ha.records, hc, hl]
    · rw [ha.stop, ht]
    · rw [← length_of_encode he]
      exact hft

/-- The log with one more record in its buffer. -/
def LogState.pushed (s : LogState) (enc : List UInt8) : LogState :=
  { s with manager := { s.manager with
      bufferStartOffset :=
        if s.manager.buffer = [] then s.manager.nextLsn else s.manager.bufferStartOffset
      buffer := s.manager.buffer ++ enc } }

theorem Buffered.push (h : Buffered s buf) (hn : encodeWalRecord rec s.manager.nextLsn = .ok enc) :
    Encodes (s.pushed enc).manager.bufferStartOffset
      (buf ++ [{ rec with lsn := s.manager.nextLsn }])
        (s.pushed enc).manager.buffer ∧
      (s.pushed enc).manager.bufferStartOffset + (s.pushed enc).manager.buffer.length =
        s.manager.nextLsn + enc.length ∧
      (s.pushed enc).manager.bufferStartOffset = s.manager.bufferStartOffset := by
  have ho : (s.pushed enc).manager.bufferStartOffset = s.manager.bufferStartOffset := by
    show ite _ _ _ = _
    split
    · rename_i hm
      rw [← h.stop, hm]
      rfl
    · rfl
  rw [ho]
  refine ⟨h.encodes.append ?_, ?_, rfl⟩
  · rw [h.stop]
    exact .single hn
  · rw [← h.stop, add_assoc, ← length_append]
    rfl

theorem Held.push (h : Held s start wr stop buf)
    (hn : encodeWalRecord rec s.manager.nextLsn = .ok enc) :
    Placed s (s.pushed enc) start wr stop (buf ++ [{ rec with lsn := s.manager.nextLsn }])
        enc.length ∧
      (s.pushed enc).manager.bufferStartOffset = s.manager.bufferStartOffset := by
  obtain ⟨hb, he, ho⟩ := h.buffered.push hn
  refine ⟨⟨rfl, h.disk.rebuffer _ rfl rfl, hb, he, ?_⟩, ho⟩
  rw [ho]
  exact h.file

/-- Where `append` puts a record, and what is left when it finds no place. -/
theorem placeRecord_ensures (h : Held s start wr stop buf)
    (hen : encodeWalRecord rec s.manager.nextLsn = .ok enc)
    (hv : isValidLsn (s.manager.nextLsn + enc.length)) :
    Ensures (placeRecord s.manager.nextLsn enc) s (fun _ s' => ∃ wr' stop' buf',
        Placed s s' start wr' stop' buf' enc.length ∧
        buf' ⊆ buf ++ [{ rec with lsn := s.manager.nextLsn }] ∧ ∀ rs, InOrder s wr stop buf rs →
          InOrder s' wr' stop' buf' (rs ++ [{ rec with lsn := s.manager.nextLsn }]))
      (fun _ s' => Intact s s' start wr stop buf) := by
  simp only [placeRecord, ensures_iff]
  split
  · simp only [appendDirectly, ensures_iff, modifyManager]
    refine (writeBuffer_ensures h).imp ?_ ?_
    · rintro _ s₁ ⟨hs, hh, ho, he, _, hf⟩
      have hn := hs.nextLsn
      have hr : encodeWalRecord rec s₁.manager.nextLsn = .ok enc := hn ▸ hen
      have ht := writeThrough_ensures hh he hr (hn ▸ hv)
      rw [hn] at ht
      refine ht.imp ?_ ?_
      · rintro _ s₂ ⟨hs', hl, hd, _⟩
        have he' : s₂.manager.buffer = [] := by rw [hs', he]
        refine ⟨_, _, [], ⟨(hs.trans hs'.sameButBuffer).trans rfl, hd.rebuffer _ rfl rfl, ?_, ?_,
          fun _ => ?_⟩, nil_subset _, fun rs hor => .inl ⟨?_, ?_⟩⟩
        · rw [he']
          exact .nil
        · rw [he']
          rfl
        · rw [hl]
        · rw [hl]
        · rw [append_nil, (hor.aligned hf).2]
      · rintro _ s₂ rfl
        refine ⟨hs, fun _ => he, _, _, [], hh, nil_subset _, fun rs hor => .inl ⟨?_, ?_⟩⟩
        · rw [ho, (hor.aligned hf).1, h.buffered.stop]
        · rw [append_nil, (hor.aligned hf).2]
    · rintro _ s₁ ⟨_, hi⟩
      exact hi
  · simp only [appendBuffered, ensures_iff, ensures_callIf, modifyManager]
    split
    · refine (writeBuffer_ensures h).imp ?_ ?_
      · rintro _ s₁ ⟨hs, hh, ho, he, _, hf⟩
        have hn := hs.nextLsn
        obtain ⟨hp, ho'⟩ := hh.push (hn ▸ hen)
        unfold LogState.pushed at hp ho'
        rw [hn] at hp ho'
        refine ⟨_, _, _, ⟨hs.trans hp.same, hp.disk, hp.encodes, ?_, hp.file⟩,
          subset_append_right _ _, fun rs hor => .inl ⟨?_, ?_⟩⟩
        · rw [hp.ends, hn]
        · rw [ho', ho, (hor.aligned hf).1, h.buffered.stop]
        · rw [← (hor.aligned hf).2]
          rfl
      · rintro _ s₁ ⟨_, hi⟩
        exact hi
    · obtain ⟨hp, ho⟩ := h.push hen
      refine ⟨wr, stop, _, hp, List.Subset.refl _, fun rs hor => ?_⟩
      rcases hor with ⟨ha, rfl⟩ | ⟨hso, hne, hu⟩
      · exact .inl ⟨ha.trans ho.symm, (append_assoc _ _ _).symm⟩
      · exact .inr ⟨hso, fun heq => hne (heq.trans ho),
          fun hf => hu fun r hm => hf r (mem_append_left _ hm)⟩

end

/-- What the log holds after a record was accepted. -/
structure Accepted (s s' : LogState) (record : LogRecord) (start : Nat) (written : List LogRecord)
    (stop : Nat) (buffered : List LogRecord) : Prop where
  config : s'.manager.config = s.manager.config
  last : s'.manager.lastAppendedLsn = some s.manager.nextLsn
  known : s'.manager.knownLsns = s.manager.nextLsn :: s.manager.knownLsns
  durable : s'.manager.durableLsn = s.manager.durableLsn
  next : s'.manager.nextLsn = s.manager.nextLsn + encodedSize record
  pending : s'.manager.recoveryPending = false
  held : ∃ written' stop' buffered', Held s' start written' stop' buffered' ∧
    buffered' ⊆ buffered ++ [{ record with lsn := s.manager.nextLsn }] ∧
    ∀ records, InOrder s written stop buffered records →
      InOrder s' written' stop' buffered' (records ++ [{ record with lsn := s.manager.nextLsn }])

theorem append_ensures (h : Held s start wr stop buf) (rec : LogRecord) :
    Ensures (append rec) s
      (fun lsn s' => lsn = s.manager.nextLsn ∧ Accepted s s' rec start wr stop buf)
      (fun _ s' => Intact s s' start wr stop buf) := by
  simp only [append, ensures_iff, require_ok]
  refine ⟨fun _ hpn => ⟨fun _ _ => ⟨fun enc he => ⟨fun _ hv => ?_, fun _ _ => h.intact⟩,
    fun _ _ => h.intact⟩, fun _ _ => h.intact⟩, fun _ _ => h.intact⟩
  refine (placeRecord_ensures h he hv).imp ?_ fun _ s' hi => hi
  rintro _ s₁ ⟨wr', stop', buf', hp, hs, ho⟩
  simp only [modifyManager, ensures_iff]
  have hm := hp.same
  have hn := hm.nextLsn
  refine ⟨trivial, hm.config, rfl, ?_, ?_, ?_, ?_, wr', stop', buf',
    ⟨hp.disk.rebuffer _ rfl rfl, ⟨hp.encodes, ?_, ?_⟩, hp.file⟩, hs,
    fun rs hb => (ho rs hb).imp id fun h => ⟨h.segmented, h.offset, h.unfit⟩⟩
  · rw [hm]
  · rw [hm]
  · rw [hn, length_of_encode he]
  · rw [hm]
    exact hpn
  · rw [hp.ends, hn]
  · rw [hn]
    exact hv

/-! Flushing. -/

theorem FileHolds.sync (h : FileHolds s wr stop file body) :
    FileHolds (s.after .syncLegacy) wr stop file.sync body := by
  have hf : (s.world.volume.legacy.update (·.sync)).current = some file.sync := by
    rw [Entry.current_update, h.found]
    rfl
  exact ⟨h.legacy, h.mode_after rfl hf, hf, h.bytes, h.encodes, h.stop_eq⟩

theorem SegmentsHold.flush {pre : List Stretch} (h : SegmentsHold s stg pre last) :
    ∃ s' stg' last', onSegments stg SegmentedWalStorage.flush s = .ok () s' ∧
      SameButStorage s s' ∧ SegmentsHold s' stg' pre last' ∧ last.Same last' ∧
      last'.synced = segmentHeaderSize + last'.body.length := by
  obtain ⟨t, last', hr, hh, hs, hy, ht, _, hd⟩ := flush_run h.holds
  refine ⟨⟨{ s.manager with segmented := some t.storage }, t.world⟩, t.storage, last', ?_, rfl,
    ⟨rfl, h.mode, hh, ?_, ?_, ?_, ?_⟩, hs, hy⟩
  · simp only [onSegments, onPart, hr]
  · rw [ht.place]
    exact h.place
  · rw [ht.manifest]
    exact h.capacity
  · rw [hd]
    exact h.opened
  · rw [← hs.id, ← hs.stop]
    exact h.ids

theorem syncWritten_run (h : Held s start wr stop buf) :
    ∃ s', syncWritten s = .ok () s' ∧ SameButStorage s s' ∧ Held s' start wr stop buf := by
  have hb : ∀ {s' : LogState}, SameButStorage s s' → Disk s' start wr stop →
      (s'.manager.segmented = none → s.manager.segmented = none) → Held s' start wr stop buf := by
    intro s' hs hd hn
    refine ⟨hd, ⟨?_, ?_, ?_⟩, ?_⟩
    · rw [hs]
      exact h.buffered.encodes
    · rw [hs]
      exact h.buffered.stop
    · rw [hs]
      exact h.buffered.valid
    · intro hl
      rw [h.file (hn hl), hs]
  rcases h.disk with ⟨hf, ht⟩ | ⟨hg, hc, ht, hp⟩
  · refine ⟨s.after .syncLegacy, ?_, rfl, hb rfl (.file hf.sync ht) id⟩
    rw [syncWritten, run_get_bind, hf.legacy]
    rfl
  · obtain ⟨s', stg', last', hr, hs, hh, hls, _⟩ := hg.flush
    refine ⟨s', ?_, hs, hb hs (.segments hh ?_ ?_ ?_) fun hn => ?_⟩
    · rw [syncWritten, run_get_bind, hg.segmented]
      exact hr
    · rw [layoutRecords_same hls, hc]
    · rw [head?_concat_start hls.start.symm [], ht]
    · rw [← hls.stop, hp]
    · rw [hh.segmented] at hn
      exact absurd hn (by simp)

/-- What a flush leaves that had something to do. -/
structure Flushed (s s' : LogState) (start : Nat) (written : List LogRecord) (stop : Nat)
    (buffered : List LogRecord) : Prop where
  same : s'.manager = { s.manager with
    segmented := s'.manager.segmented
    buffer := []
    bufferStartOffset := s.manager.nextLsn
    durableLsn := s.manager.lastAppendedLsn }
  held : Held s' start (written ++ buffered) (stop + s.manager.buffer.length) []
  ordered : ∀ records, InOrder s written stop buffered records →
    stop + s.manager.buffer.length = s'.manager.bufferStartOffset ∧ written ++ buffered = records

theorem flushUpTo_ensures (h : Held s start wr stop buf) (target : Nat) :
    Ensures (flushUpTo target) s
      (fun _ s' => s' = s ∧ (∃ durable ∈ s.manager.durableLsn, target ≤ durable) ∨
        Flushed s s' start wr stop buf)
      (fun _ s' => (containsLsn s target = false ∨ Stuck s stop buf) ∧
        Intact s s' start wr stop buf) := by
  simp only [flushUpTo, ensures_iff, require_ok]
  refine ⟨fun _ _ => ?_, fun e he => ⟨.inl ?_, h.intact⟩⟩
  · split
    · rename_i hd
      exact .inl ⟨rfl, hd⟩
    · simp only [ensures_iff, modifyManager]
      refine (writeBuffer_ensures h).imp ?_ fun _ s' ht => ⟨.inr ht.1, ht.2⟩
      rintro _ s₁ ⟨hs, hh, ho, hm, _, hf⟩
      obtain ⟨s₂, hr, hs', hh'⟩ := syncWritten_run hh
      obtain ⟨hn, hp, hv⟩ := hh'.buffered
      refine (ensures_of_ok hr).mpr (.inr ⟨?_, ⟨hh'.disk.rebuffer _ rfl rfl,
        ⟨hn, hp, hv⟩, hh'.file⟩, fun rs hor => ?_⟩)
      · rw [hs', hs, ho, hm]
      · obtain ⟨ha, hc⟩ := hor.aligned hf
        refine ⟨?_, hc⟩
        rw [hs', ho, ha, h.buffered.stop]
  · by_contra hcon
    rw [require_of _ (by simpa using hcon)] at he
    exact absurd he (by simp)

end

end MiniDb.Wal
