import MiniDb.SegmentLayout
import MiniDb.WalLogManager

/-!
Rotations that fail. Before the file of the new segment exists a rotation has closed
the one written so far, and it does not remove a file that it could not finish. So a
failed synchronisation of the old segment changes nothing, but behind any later step
there is no segment to write to, and once the new file exists no rotation can make it.
-/
namespace MiniDb.Wal
open ByteString Outcome CrashFiles Stateful SegmentedWalStorage Wal.LogManager Volume
  Directory StorageState

/-- The calls to the system that a rotation makes. Part of the header may be written
when its write fails. -/
inductive RotationStep
  | syncActive
  | createFile
  | writeHeader (written : Fin segmentHeaderSize)
  | syncFile
  | syncDirectory
  deriving DecidableEq

def RotationStep.error : RotationStep → DbError
  | .syncActive | .syncFile =>
    .walError .durability "Could not fsync WAL segment: Input/output error"
  | .createFile => ioError "Could not create WAL segment: Input/output error"
  | .writeHeader _ => ioError "Could not write WAL segment: Input/output error"
  | .syncDirectory => .walError .durability "Could not fsync directory: Input/output error"

namespace SegmentedWalStorage

/-- A step that throws if it is the one to fail. -/
def failAt (failing : Option RotationStep) (step : RotationStep) (call : StorageM Unit) :
    StorageM Unit :=
  if failing = some step then throw step.error else call

/-- To synchronise the file is the first thing `closeActive` does. -/
def closeActiveFailing (failing : Option RotationStep) : StorageM Unit := do
  let s ← get
  if s.storage.segments ≠ [] ∧ s.storage.activeDescriptor.isSome then
    failAt failing .syncActive closeActive
  else closeActive

def writeHeaderFailing (failing : Option RotationStep) (header : WalSegmentHeader) :
    StorageM Unit := do
  let s ← get
  let bytes ← fromExcept (encodeWalSegmentHeader header)
  match failing with
  | some (.writeHeader written) => do
      onWorld (emit (.writeSegment s.storage.place header.segmentId 0 (bytes.take written)))
      throw (RotationStep.writeHeader written).error
  | _ => onWorld (emit (.writeSegment s.storage.place header.segmentId 0 bytes))
  failAt failing .syncFile (onWorld (emit (.syncSegment s.storage.place header.segmentId)))
  failAt failing .syncDirectory (onWorld (emit (.syncDirectory s.storage.place)))

/-- `rotate` in which one step may fail. -/
def rotateFailing (failing : Option RotationStep) : StorageM Unit := do
  let s ← get
  let startLsn := s.storage.logicalEnd
  closeActiveFailing failing
  let s ← get
  let header := newHeader s.storage startLsn
  if header.segmentId = 0 then throw (invalidArgument "WAL segment ID space is exhausted")
  else do
    failAt failing .createFile (createFile header.segmentId)
    modifyStorage fun storage => { storage with activeDescriptor := some header.segmentId }
    tryCatch (writeHeaderFailing failing header) fun error => do
      modifyStorage fun storage => { storage with activeDescriptor := none }
      throw error
    modifyStorage fun storage => { storage with
      segments := storage.segments ++ [⟨header, startLsn, segmentHeaderSize, true⟩]
      logicalEnd := startLsn
      truncatedTail := false }

theorem rotateFailing_none : rotateFailing none = rotate := by
  have hc : closeActiveFailing none = closeActive := by
    funext s
    show (if _ then _ else _ : StorageM Unit) s = _
    split <;> rfl
  unfold rotateFailing rotate createSegment
  rw [hc]
  rfl

end SegmentedWalStorage

/-! The segment that a rotation has closed. -/

namespace StorageState
variable {s : StorageState}

/-- What closing the segment leaves as it was. -/
structure Closes (s s' : StorageState) : Prop where
  place : s'.storage.place = s.storage.place
  manifest : s'.storage.manifest = s.storage.manifest
  logicalEnd : s'.storage.logicalEnd = s.storage.logicalEnd
  truncatedTail : s'.storage.truncatedTail = s.storage.truncatedTail
  segments : s'.storage.segments =
    updateLast s.storage.segments fun last => { last with active := false }
  descriptor : s.storage.segments ≠ [] → s'.storage.activeDescriptor = none
  directory : (s'.world.volume.directory? s.storage.place).isSome =
    (s.world.volume.directory? s.storage.place).isSome
  files : ∀ id, s'.world.volume.segment? s.storage.place id =
    s.world.volume.segment? s.storage.place id

theorem closed_closes (s : StorageState) : s.Closes s.closed := by
  unfold closed
  split
  · rename_i hn
    exact ⟨rfl, rfl, rfl, rfl, by rw [hn]; rfl, fun h => (h hn).elim, rfl, fun _ => rfl⟩
  · unfold flushed
    cases s.storage.activeDescriptor with
    | none => exact ⟨rfl, rfl, rfl, rfl, rfl, fun _ => rfl, rfl, fun _ => rfl⟩
    | some id =>
      have hd :=
        s.world.volume.directory?_updateDirectory s.storage.place (·.changeSegment id (·.sync))
      refine ⟨rfl, rfl, rfl, rfl, rfl, fun _ => rfl, ?_, fun id' => ?_⟩
      · exact (congrArg Option.isSome hd).trans Option.isSome_map
      · show ((s.world.volume.updateDirectory s.storage.place _).directory? _).bind _ = _
        rw [hd, segment?]
        cases s.world.volume.directory? s.storage.place with
        | none => rfl
        | some dir =>
          simp only [Option.map_some, Option.bind_some, segment_changeSegment]
          split
          · rename_i hi
            rw [hi, Entry.current_update, Option.map_map]
            rfl
          · rfl

theorem closed_eq_self (hd : s.storage.activeDescriptor = none)
    (hl : updateLast s.storage.segments (fun last => { last with active := false }) =
      s.storage.segments) : s.closed = s := by
  have hf : s.flushed = s := by rw [flushed, hd]
  rw [closed, hf, hl, ← hd]
  exact ite_self s

theorem closed_twice (s : StorageState) :
    updateLast s.closed.storage.segments (fun last => { last with active := false }) =
      s.closed.storage.segments := by
  rw [s.closed_closes.segments]
  rcases List.eq_nil_or_concat s.storage.segments with hn | ⟨bef, last, hc⟩
  · rw [hn]
    rfl
  · rw [hc, List.concat_eq_append, updateLast_concat, updateLast_concat]

theorem closed_closed (s : StorageState) : s.closed.closed = s.closed := by
  by_cases hn : s.storage.segments = []
  · have hs : s.closed = s := if_pos hn
    rw [hs, hs]
  · exact closed_eq_self (s.closed_closes.descriptor hn) s.closed_twice

theorem rotate_closed (s : StorageState) : rotate s.closed = rotate s := by
  have hr : ∀ t : StorageState, rotate t = createSegment t.storage.logicalEnd t := fun _ => rfl
  rw [hr, hr, s.closed_closes.logicalEnd]
  unfold createSegment
  rw [run_bind s.closed.closeActive_eq, run_bind s.closeActive_eq, closed_closed]

end StorageState

/-- The active segment has room for a record of this size. -/
def SegmentedWalStorage.Fits (storage : SegmentedWalStorage) (size : Nat) : Prop :=
  ∃ active ∈ storage.segments.getLast?,
    size ≤
      subWord storage.manifest.payloadCapacity (subWord storage.logicalEnd active.header.startLsn)

/-- Behind a closed segment a record that fits there is lost, and one that does not
fit is written as ever. -/
theorem appendRecord_closed (s : StorageState) (lsn : Nat) (enc : List UInt8) :
    (¬ s.storage.Fits enc.length → ∀ t, appendRecord lsn enc s = .ok () t →
      appendRecord lsn enc s.closed = .ok () t) ∧
    (s.storage.Fits enc.length → ∀ t, appendRecord lsn enc s.closed ≠ .ok () t) := by
  have hc := s.closed_closes
  have hcl : ∀ t u : StorageState, appendRecord lsn enc t = .ok () u ↔
      t.storage.truncatedTail = false ∧ (lsn = t.storage.logicalEnd ∧ enc ≠ [] ∧
        enc.length ≤ t.storage.manifest.payloadCapacity) ∧
      (rotateUnlessFits enc.length >>= fun _ => writeRecord lsn enc) t = .ok () u := by
    intro t u
    simp only [appendRecord, run_bind_ok, run_get_ok, run_fromExcept_ok, require_ok]
    constructor
    · rintro ⟨_, _, ⟨rfl, rfl⟩, _, _, ⟨ht, rfl⟩, _, _, ⟨hb, rfl⟩, hs⟩
      exact ⟨ht, hb, hs⟩
    · rintro ⟨ht, hb, hs⟩
      exact ⟨t, t, ⟨rfl, rfl⟩, (), t, ⟨ht, rfl⟩, (), t, ⟨hb, rfl⟩, hs⟩
  by_cases hn : s.storage.segments = []
  · have hsm : s.closed = s := if_pos hn
    rw [hsm]
    refine ⟨fun _ _ h => h, ?_⟩
    rintro ⟨active, ha, _⟩
    rw [hn] at ha
    cases ha
  obtain ⟨bef, last, hct⟩ := (List.eq_nil_or_concat _).resolve_left hn
  rw [List.concat_eq_append] at hct
  have hl : s.storage.segments.getLast? = some last := by rw [hct, List.getLast?_concat]
  have hl' : s.closed.storage.segments.getLast? = some { last with active := false } := by
    rw [hc.segments, hct, updateLast_concat, List.getLast?_concat]
  have hf : s.storage.Fits enc.length ↔ enc.length ≤
      subWord s.storage.manifest.payloadCapacity
        (subWord s.storage.logicalEnd last.header.startLsn) := by
    simp [SegmentedWalStorage.Fits, hl]
  refine ⟨fun hm t h => ?_, fun hm t h => ?_⟩
  · obtain ⟨ht, hb, hs⟩ := (hcl s t).mp h
    refine (hcl _ t).mpr ⟨hc.truncatedTail.trans ht, ?_, ?_⟩
    · rwa [hc.logicalEnd, hc.manifest]
    · obtain ⟨_, u, hr, hw⟩ := run_bind_ok.mp hs
      refine run_bind_ok.mpr ⟨(), u, ?_, hw⟩
      have hlt := not_le.mp (mt hf.mpr hm)
      rw [rotateUnlessFits, run_get_bind, hl] at hr
      rw [rotateUnlessFits, run_get_bind, hl', hc.manifest, hc.logicalEnd]
      simp only [if_pos hlt] at hr ⊢
      rwa [s.rotate_closed]
  · obtain ⟨_, _, hs⟩ := (hcl _ t).mp h
    obtain ⟨_, u, hr, hw⟩ := run_bind_ok.mp hs
    rw [rotateUnlessFits, run_get_bind, hl', hc.manifest, hc.logicalEnd] at hr
    simp only [if_neg (not_lt.mpr (hf.mp hm))] at hr
    obtain ⟨_, rfl⟩ := run_pure_ok.mp hr
    rw [writeRecord, run_get_bind, hl', hc.descriptor hn] at hw
    cases hw

/-- A record that is found before is found in the closed segments, if no file is lost. -/
theorem readRecordAt_closed {s s' : StorageState} {lsn : Nat} {r : LogRecord}
    (hp : s'.storage.place = s.storage.place) (hg : s'.storage.segments =
      updateLast s.storage.segments fun last => { last with active := false })
    (hfi : ∀ id bs, s.world.volume.segment? s.storage.place id = some bs →
      s'.world.volume.segment? s.storage.place id = some bs)
    (h : s.storage.readRecordAt s.world.volume lsn = .ok r) :
    s'.storage.readRecordAt s'.world.volume lsn = .ok r := by
  have hfn : ∀ covers : WalSegmentInfo → Bool,
      (∀ info, covers { info with active := false } = covers info) →
      ∀ info, s.storage.segments.find? covers = some info →
      ∃ info', s'.storage.segments.find? covers = some info' ∧ info'.header = info.header := by
    intro covers hv info hi
    rw [hg]
    rcases List.eq_nil_or_concat s.storage.segments with hn | ⟨bef, last, hc⟩
    · rw [hn] at hi
      cases hi
    · rw [hc, List.concat_eq_append] at hi ⊢
      rw [updateLast_concat]
      rw [List.find?_append] at hi ⊢
      cases hb : bef.find? covers with
      | some fd =>
        rw [hb] at hi
        exact ⟨fd, rfl, by rw [Option.some.inj hi]⟩
      | none =>
        rw [hb, Option.none_or, List.find?_singleton] at hi
        rw [Option.none_or, List.find?_singleton, hv]
        split at hi
        · rename_i hl
          rw [if_pos hl]
          exact ⟨_, rfl, by rw [← Option.some.inj hi]⟩
        · cases hi
  unfold SegmentedWalStorage.readRecordAt at h ⊢
  split at h
  · cases h
  · rename_i info hi
    obtain ⟨info', hi', hh⟩ := hfn _ (fun _ => rfl) info hi
    rw [hi']
    simp only [hh, SegmentedWalStorage.openSegment, hp]
    obtain ⟨file, hf, hs⟩ := bind_ok.mp h
    cases hr : s.world.volume.segment? s.storage.place info.header.segmentId with
    | none =>
      rw [SegmentedWalStorage.openSegment, hr] at hf
      cases hf
    | some bs =>
      rw [SegmentedWalStorage.openSegment, hr] at hf
      cases hf
      rw [hfi _ _ hr]
      exact hs

/-! The file of a segment that was not finished. -/

/-- A segment file was made, and the others are as they were. -/
structure Made (place : Place) (id : Nat) (volume volume' : Volume) : Prop where
  made : (volume'.segment? place id).isSome
  others : ∀ id', id' ≠ id → volume'.segment? place id' = volume.segment? place id'

theorem Volume.segment?_updateDirectory (vol : Volume) (pl : Place) (f : Directory → Directory)
    (id : Nat) :
    (vol.updateDirectory pl f).segment? pl id =
      (vol.directory? pl).bind fun dir => ((f dir).segment id).current.map (·.bytes) := by
  unfold segment?
  rw [directory?_updateDirectory]
  cases vol.directory? pl <;> rfl

theorem made_create {pl : Place} {vol : Volume} (id : Nat) (h : (vol.directory? pl).isSome) :
    Made pl id vol (vol.perform (.createSegment pl id)) := by
  obtain ⟨dir, hd⟩ := Option.isSome_iff_exists.mp h
  have hs : ∀ id', (vol.perform (.createSegment pl id)).segment? pl id' =
      ((dir.putSegment id (some .empty)).segment id').current.map (·.bytes) := by
    intro id'
    rw [Volume.perform, segment?_updateDirectory, hd]
    rfl
  refine ⟨?_, fun id' hne => ?_⟩
  · rw [hs, putSegment, segment_setSegment, if_pos rfl]
    rfl
  · rw [hs, putSegment, segment_setSegment, if_neg hne, segment?, hd]
    rfl

theorem Made.change {pl : Place} {id : Nat} {vol vol' : Volume} (h : Made pl id vol vol')
    (f : SyncedFile → SyncedFile) :
    Made pl id vol (vol'.updateDirectory pl (·.changeSegment id f)) := by
  obtain ⟨bs, hb⟩ := Option.isSome_iff_exists.mp h.made
  obtain ⟨dir, hd, hf⟩ := Option.bind_eq_some_iff.mp hb
  obtain ⟨file, hf, _⟩ := Option.map_eq_some_iff.mp hf
  refine ⟨?_, fun id' hne => ?_⟩
  · rw [segment?_updateDirectory, hd, Option.bind_some, segment_changeSegment,
      if_pos rfl, Entry.current_update, hf]
    rfl
  · rw [← h.others id' hne, segment?_updateDirectory, segment?, hd, Option.bind_some,
      segment_changeSegment, if_neg hne]
    rfl

/-- The state that a rotation leaves which failed with the new file already there. -/
structure HalfMade (s s' : StorageState) : Prop where
  storage : s'.storage = { s.closed.storage with activeDescriptor := none }
  formed : (newHeader s.closed.storage s.storage.logicalEnd).WellFormed
  fresh : s.closed.world.volume.segment? s.storage.place (nextSegmentId s.closed.storage.segments) =
    none
  made : Made s.storage.place
    (nextSegmentId s.closed.storage.segments) s.closed.world.volume s'.world.volume

/-- What is left by a rotation in which the step fails. -/
def FailureLeaves (s : StorageState) (step : RotationStep) (s' : StorageState) : Prop :=
  match step with
  | .syncActive => s' = s
  | .createFile => s' = s.closed
  | _ => HalfMade s s'

namespace HalfMade
variable {s s' : StorageState}

theorem rotate_returns (h : HalfMade s s')
    (hd : (s.world.volume.directory? s.storage.place).isSome) : ∃ t, rotate s = .ok () t := by
  rw [← s.closed_closes.directory, ← s.closed_closes.place] at hd
  obtain ⟨dir, hd⟩ := Option.isSome_iff_exists.mp hd
  have hf := h.fresh
  rw [← s.closed_closes.place, segment?_eq hd, Option.map_eq_none_iff] at hf
  exact ⟨_, createSegment_run s.closeActive_eq hd hf h.formed⟩

/-- The next rotation makes the same file again. -/
theorem rotate_throws (h : HalfMade s s') (v : Unit) (t : StorageState) : rotate s' ≠ .ok v t := by
  have hs : s'.storage.segments = s.closed.storage.segments := by rw [h.storage]
  have hp : s'.storage.place = s.storage.place := by rw [h.storage]; exact s.closed_closes.place
  have hc : s'.closed = s' := by
    refine closed_eq_self (by rw [h.storage]) ?_
    rw [hs]
    exact s.closed_twice
  have hex : (s'.world.volume.segment? s'.storage.place
      (newHeader s'.storage s'.storage.logicalEnd).segmentId).isSome := by
    rw [newHeader, hs, hp]
    exact h.made.made
  intro hr
  rw [rotate, run_get_bind, createSegment, run_bind s'.closeActive_eq, hc, run_get_bind] at hr
  split at hr
  · cases hr
  · rw [createFile] at hr
    simp only [bind_assoc] at hr
    rw [run_get_bind, if_pos hex] at hr
    cases hr

end HalfMade

theorem writeHeaderFailing_ensures {s : StorageState} {hdr : WalSegmentHeader} {vol : Volume}
    (step : RotationStep) (hm : Made s.storage.place hdr.segmentId vol s.world.volume) :
    Ensures (writeHeaderFailing (some step) hdr) s (fun _ _ => True) (fun e s' => e = step.error →
      (step ≠ .syncActive ∧ step ≠ .createFile) ∧ hdr.WellFormed ∧ s'.storage = s.storage ∧
      Made s.storage.place hdr.segmentId vol s'.world.volume) := by
  rw [writeHeaderFailing, ensures_bind, ensures_get, ensures_bind, ensures_fromExcept]
  refine ⟨fun bs hb => ?_, fun e he hr => ?_⟩
  · have hf := (encodeWalSegmentHeader_ok.mp hb).1
    cases step with
    | writeHeader wr =>
      exact fun _ => ⟨by simp, hf, rfl, hm.change (·.write 0 (bs.take wr))⟩
    | syncFile => exact fun _ => ⟨by simp, hf, rfl, hm.change (·.write 0 bs)⟩
    | syncDirectory =>
      exact fun _ => ⟨by simp, hf, rfl, (hm.change (·.write 0 bs)).change (·.sync)⟩
    | syncActive | createFile => trivial
  · have hrf : e = invalidArgument "Invalid WAL segment header fields" := by
      unfold encodeWalSegmentHeader require at he
      split at he
      · cases he
      · exact (Except.error.inj he).symm
    rw [hrf] at hr
    cases step <;> cases hr

theorem rotateFailing_ensures {s : StorageState} (step : RotationStep)
    (hd : (s.world.volume.directory? s.storage.place).isSome) :
    Ensures (rotateFailing (some step)) s (fun _ _ => True)
      (fun e s' => e = step.error → FailureLeaves s step s') := by
  have hl : Ensures (closeActiveFailing (some step)) s (fun _ s' => s' = s.closed)
      (fun _ s' => step = .syncActive ∧ s' = s) := by
    have hr : Ensures closeActive s (fun _ s' => s' = s.closed) (fun _ s' =>
      step = .syncActive ∧ s' = s) :=
      (ensures_of_ok s.closeActive_eq).mpr rfl
    rw [closeActiveFailing, ensures_bind, ensures_get]
    split
    · unfold failAt
      split
      · rename_i ht
        exact ⟨Option.some.inj ht, rfl⟩
      · exact hr
    · exact hr
  have hp := s.closed_closes.place
  rw [rotateFailing, ensures_bind, ensures_get, ensures_bind]
  refine hl.imp ?_ ?_
  · rintro _ _ rfl
    rw [ensures_bind, ensures_get]
    by_cases hz : (newHeader s.closed.storage s.storage.logicalEnd).segmentId = 0
    · rw [if_pos hz]
      intro he
      cases step <;> cases he
    rw [if_neg hz, ensures_bind]
    unfold failAt
    split
    · rename_i ht
      cases ht
      exact fun _ => rfl
    · rw [createFile, ensures_bind, ensures_get]
      split
      · intro he
        cases step <;> simp [RotationStep.error, ioError] at he
      · rename_i hfr
        have hm : Made s.storage.place
          (nextSegmentId s.closed.storage.segments) s.closed.world.volume
            (s.closed.world.volume.perform (.createSegment s.closed.storage.place
              (newHeader s.closed.storage s.storage.logicalEnd).segmentId)) := by
          rw [hp]
          exact made_create _ (s.closed_closes.directory ▸ hd)
        rw [ensures_of_ok (emit_run _ _), ensures_bind, modifyStorage, ensures_modify, ensures_bind,
          ensures_tryCatch]
        refine (writeHeaderFailing_ensures step (hp.symm ▸ hm)).imp (fun _ _ _ => trivial) ?_
        intro e s' hlf he
        obtain ⟨⟨ha, hc⟩, hf, hs, hm⟩ := hlf he
        have hh : HalfMade s { s' with storage :=
          { s'.storage with activeDescriptor := none } } := by
          refine ⟨?_, hf, ?_, hp ▸ hm⟩
          · rw [hs]
            rfl
          · rw [← hp]
            exact Option.not_isSome_iff_eq_none.mp hfr
        cases step with
        | syncActive => exact absurd rfl ha
        | createFile => exact absurd rfl hc
        | writeHeader | syncFile | syncDirectory => exact hh
  · rintro e s' ⟨rfl, rfl⟩ _
    rfl

/-! The log. -/

/-- A record the log may write next: the first of its buffer or, if that is empty, any. -/
def WrittenNext (s : LogState) (lsn : Nat) (encoded : List UInt8) : Prop :=
  (∃ record, encodeWalRecord record lsn = .ok encoded) ∧
    (s.manager.buffer = [] ∨ encoded <+: s.manager.buffer)

/-- The calls by which `append`, `flushUpTo` and `rotateSegment` come to the segments. -/
inductive SegmentCall (s : LogState)
  | writeThrough (lsn : Nat) {encoded : List UInt8} (hnext : WrittenNext s lsn encoded)
  | syncWritten
  | rotateSegment

def SegmentCall.run {s : LogState} : SegmentCall s → LogM Unit
  | @writeThrough _ lsn encoded _ => LogManager.writeThrough lsn encoded
  | .syncWritten => LogManager.syncWritten
  | .rotateSegment => LogManager.rotateSegment

/-- All records that can be read before can be read after. -/
def StaysReadable (s s' : LogState) : Prop :=
  ∀ lsn record, LogManager.readRecordAt s lsn = .ok record →
    LogManager.readRecordAt s' lsn = .ok record

/-- Every call that returns before returns after and leaves the same log, so that all goes
on as before; only a synchronisation may find nothing to do. -/
def StaysUsable (s s' : LogState) : Prop :=
  ∀ (call : SegmentCall s) t, call.run s = .ok () t →
    call.run s' = .ok () t ∨ call = .syncWritten ∧ call.run s' = .ok () s'

/-- Whatever record can be written next starts a new segment. -/
def NextRotates (s : LogState) (storage : SegmentedWalStorage) : Prop :=
  ∀ lsn encoded t, WrittenNext s lsn encoded → writeThrough lsn encoded s = .ok () t →
    ¬ storage.Fits encoded.length

/-- The log after a call on its segments. -/
abbrev LogState.onStorage (s : LogState) (t : StorageState) : LogState :=
  ⟨{ s.manager with segmented := some t.storage }, t.world⟩

/-- The rotation of a segmented log gets to a step, which fails. -/
structure RotationFails (s : LogState) (storage : SegmentedWalStorage) (step : RotationStep)
    (s' : LogState) :
    Prop where
  segmented : s.manager.segmented = some storage
  directory : (s.world.volume.directory? storage.place).isSome
  fails : onSegments storage (rotateFailing (some step)) s = .error step.error s'

/-- The storage call behind a call. -/
def SegmentCall.inner {s : LogState} : SegmentCall s → StorageM Unit
  | @writeThrough _ lsn encoded _ => appendRecord lsn encoded
  | .syncWritten => flush
  | .rotateSegment => rotate

section
variable {s v : LogState} {stg : SegmentedWalStorage} {t : StorageState}

theorem SegmentCall.run_eq (call : SegmentCall v) (hs : s.manager.segmented = some stg) :
    call.run s = onSegments stg call.inner s := by
  cases call with
  | writeThrough lsn he => rw [run, LogManager.writeThrough, run_get_bind, hs]; rfl
  | syncWritten => rw [run, LogManager.syncWritten, run_get_bind, hs]; rfl
  | rotateSegment => rw [run, LogManager.rotateSegment, run_get_bind, hs]; rfl

theorem SegmentCall.run_ok (call : SegmentCall v) (hs : s.manager.segmented = some stg)
    {s' : LogState} : call.run s = .ok () s' ↔
      ∃ t, call.inner ⟨stg, s.world⟩ = .ok () t ∧ s.onStorage t = s' := by
  rw [call.run_eq hs]
  exact run_onPart_ok

theorem staysReadable_of_storage (hs : s.manager.segmented = some stg)
    (h : ∀ lsn r, stg.readRecordAt s.world.volume lsn = .ok r →
      t.storage.readRecordAt t.world.volume lsn = .ok r) :
    StaysReadable s (s.onStorage t) := by
  intro lsn r hr
  unfold LogManager.readRecordAt at hr ⊢
  split
  · rename_i hb
    rwa [if_pos hb] at hr
  · rename_i hb
    rw [if_neg hb, readDisk, hs] at hr
    exact h lsn r hr

theorem StaysUsable.returns (h : StaysUsable s (s.onStorage t))
    (hs : s.manager.segmented = some stg) (call : SegmentCall s)
    (hr : ∃ u, call.inner ⟨stg, s.world⟩ = .ok () u) : ∃ u, call.inner t = .ok () u := by
  obtain ⟨u, hi⟩ := hr
  rcases h call _ ((call.run_ok hs).mpr ⟨u, hi, rfl⟩) with hr | ⟨_, hr⟩ <;>
    exact ((call.run_ok rfl).mp hr).imp fun _ => And.left

theorem staysUsable_closed (hs : s.manager.segmented = some stg)
    (ht : t = (mk stg s.world).closed) : StaysUsable s (s.onStorage t) ↔ NextRotates s stg := by
  constructor
  · intro h lsn enc u hn hw hf
    obtain ⟨v, hi, _⟩ := (SegmentCall.run_ok (.writeThrough lsn hn) hs).mp hw
    obtain ⟨u', hi'⟩ := h.returns hs (.writeThrough lsn hn) ⟨v, hi⟩
    rw [ht] at hi'
    exact (appendRecord_closed ⟨stg, s.world⟩ lsn enc).2 hf u' hi'
  · intro h call u hr
    have hu := hr
    obtain ⟨v, hi, rfl⟩ := (call.run_ok hs).mp hr
    rw [call.run_ok rfl, call.run_ok rfl, ht]
    cases call with
    | @writeThrough lsn enc hn =>
      exact .inl ⟨v, (appendRecord_closed _ lsn enc).1 (h lsn enc _ hn hu) v hi, rfl⟩
    | syncWritten =>
      by_cases hn : stg.segments = []
      · rw [show (mk stg s.world).closed = ⟨stg, s.world⟩ from if_pos hn]
        exact .inl ⟨v, hi, rfl⟩
      · refine .inr ⟨rfl, _, flush_eq _, ?_⟩
        rw [StorageState.flushed, (mk stg s.world).closed_closes.descriptor hn]
    | rotateSegment => exact .inl ⟨v, (rotate_closed _).trans hi, rfl⟩

/-- A rotation that fails leaves every record readable. The log goes on as before just
when the old segment could not be synchronised, or the new file could not be created
and whatever is written next starts a new segment. -/
theorem failed_rotation_harmless_iff {s' : LogState} {step : RotationStep}
    (h : RotationFails s stg step s') :
    StaysReadable s s' ∧
      (StaysUsable s s' ↔ step = .syncActive ∨ (step = .createFile ∧ NextRotates s stg)) := by
  obtain ⟨t, hleaves, rfl⟩ : ∃ t, FailureLeaves ⟨stg, s.world⟩ step t ∧
      s' = s.onStorage t := by
    have hrun := @rotateFailing_ensures ⟨stg, s.world⟩ step h.directory
    have hfails := h.fails
    unfold onSegments onPart at hfails
    unfold Ensures at hrun
    split at hrun
    · rename_i hret
      rw [hret] at hfails
      cases hfails
    · rename_i e t hthrew
      rw [hthrew] at hfails
      cases hfails
      exact ⟨t, hrun rfl, rfl⟩
  have hcls := (mk stg s.world).closed_closes
  have hhalf : HalfMade ⟨stg, s.world⟩ t → step ≠ .syncActive ∧ step ≠ .createFile →
      StaysReadable s (s.onStorage t) ∧
      (StaysUsable s (s.onStorage t) ↔
        step = .syncActive ∨ (step = .createFile ∧ NextRotates s stg)) := by
    intro hhalf hlate
    refine ⟨staysReadable_of_storage h.segmented fun lsn record hread => ?_, ?_⟩
    · have hplc : t.storage.place = stg.place := by rw [hhalf.storage]; exact hcls.place
      have hsegs := congrArg SegmentedWalStorage.segments hhalf.storage
      refine readRecordAt_closed (s := ⟨stg, s.world⟩) hplc (hsegs.trans hcls.segments)
        (fun id bytes hbs => ?_) hread
      rw [← hcls.files] at hbs
      rw [hhalf.made.others, hbs]
      rintro rfl
      rw [hhalf.fresh] at hbs
      cases hbs
    · simp only [hlate.1, hlate.2, false_and, or_self, iff_false]
      intro husable
      obtain ⟨u, hrot⟩ :=
        husable.returns h.segmented .rotateSegment (hhalf.rotate_returns h.directory)
      exact hhalf.rotate_throws () u hrot
  cases step with
  | syncActive =>
    have hsame : s.onStorage t = s := by
      rw [LogState.onStorage, show t = ⟨stg, s.world⟩ from hleaves, ← h.segmented]
    rw [hsame]
    exact ⟨fun _ _ hread => hread, fun _ => .inl rfl, fun _ _ _ hrun => .inl hrun⟩
  | createFile =>
    refine ⟨staysReadable_of_storage h.segmented fun lsn record hread => ?_, ?_⟩
    · rw [show t = _ from hleaves]
      exact readRecordAt_closed hcls.place hcls.segments (fun id bytes h =>
        (hcls.files id).trans h) hread
    · rw [staysUsable_closed h.segmented hleaves]
      simp
  | writeHeader | syncFile | syncDirectory => exact hhalf hleaves (by simp)

end

/-- A log with one empty segment. -/
def newStorage : SegmentedWalStorage :=
  { SegmentedWalStorage.blank .published with
    segments := [⟨⟨1, 64, 0, 64, 16 * 1024 * 1024, 0⟩, 64, segmentHeaderSize, true⟩]
    activeDescriptor := some 1 }

def newLog : LogState where
  manager := { LogManager.blank ⟨4096, .eagerValidated, .segmented, 16 * 1024 * 1024⟩ with
    segmented := some newStorage }
  world := ⟨{ Volume.empty with published := ⟨some ((Directory.empty.putSegment 1 (some
    ⟨checkedBlock (WalSegmentHeader.mk 1 64 0 64 (16 * 1024 * 1024) 0).layout, 64⟩)).sync), []⟩ },
      [], true⟩

theorem failed_rotation_harmless_unsynced : RotationFails newLog newStorage .syncActive newLog ∧
    StaysUsable newLog newLog := by
  have hfails : RotationFails newLog newStorage .syncActive newLog := ⟨rfl, rfl, rfl⟩
  exact ⟨hfails, (failed_rotation_harmless_iff hfails).2.mpr (.inl rfl)⟩

/-- After the directory could not be synchronised the log never rotates again. -/
theorem failed_rotation_repeats : ∃ s', RotationFails newLog newStorage .syncDirectory s' ∧
    (∃ t, LogManager.rotateSegment newLog = .ok () t) ∧
      ∀ t, LogManager.rotateSegment s' ≠ .ok () t := by
  obtain ⟨t, hrun⟩ : ∃ t, rotateFailing (some .syncDirectory) ⟨newStorage, newLog.world⟩ =
      .error RotationStep.syncDirectory.error t := ⟨_, rfl⟩
  have hhalf : HalfMade ⟨newStorage, newLog.world⟩ t := by
    have hleaves := @rotateFailing_ensures ⟨newStorage, newLog.world⟩ .syncDirectory rfl
    rw [Ensures, hrun] at hleaves
    exact hleaves rfl
  refine ⟨newLog.onStorage t, ⟨rfl, rfl, ?_⟩, ?_, ?_⟩
  · rw [onSegments, onPart, hrun]
  · obtain ⟨u, hrot⟩ := hhalf.rotate_returns rfl
    exact ⟨_, (SegmentCall.run_ok (v := newLog) .rotateSegment rfl).mpr ⟨u, hrot, rfl⟩⟩
  · intro u hrot
    obtain ⟨v, hinner, _⟩ := (SegmentCall.run_ok (v := newLog) .rotateSegment rfl).mp hrot
    exact hhalf.rotate_throws () v hinner

end MiniDb.Wal
