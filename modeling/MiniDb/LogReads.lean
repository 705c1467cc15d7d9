import MiniDb.LogDurability

/-!
Readers of a log that is partly in memory, and what they would read if the buffer were
written. All of them agree at the positions of records and at the end of the log. At
other positions it matters where the bytes are: a scan of the single file starts
wherever bytes happen to read as a log, a scan of the buffer starts anywhere in the
last record, and a single record is looked for in one file, segment or buffer only.
-/
namespace MiniDb.Wal
open ByteString Outcome CrashFiles Stateful Wal.LogManager LogHistory List

/-! Positions in a log. -/

/-- A scan may start at the end of the log and at its records. -/
def Boundary (records : List LogRecord) (stop position : Nat) : Prop :=
  position = stop ∨ ∃ record ∈ records, record.lsn = position

def recordsFrom (position : Nat) (records : List LogRecord) : List LogRecord :=
  records.filter fun record => position ≤ record.lsn

namespace Encodes
variable {lsn : Nat} {rs : List LogRecord} {bs : List UInt8}

section
variable (h : Encodes lsn rs bs)
include h

theorem recordsFrom_eq_self {pos : Nat} (hle : pos ≤ lsn) : recordsFrom pos rs = rs := by
  refine filter_eq_self.mpr fun r hm => decide_eq_true ?_
  exact hle.trans (h.lsn_le hm).1

/-- Records are in the order of their positions. -/
theorem dropWhile_eq (pos : Nat) : rs.dropWhile (fun r => r.lsn < pos) = recordsFrom pos rs := by
  induction h with
  | nil => rfl
  | cons henc hlsn hrest ih =>
    rename_i lsn r enc rs bs
    by_cases hb : r.lsn < pos
    · rw [dropWhile_cons_of_pos (by simpa using hb), ih, recordsFrom, recordsFrom,
        filter_cons_of_neg (by simpa using hb)]
    · rw [dropWhile_cons_of_neg (by simpa using hb)]
      refine (recordsFrom_eq_self (.cons henc hlsn hrest) ?_).symm
      omega

/-- The part of a log behind one of its boundaries. -/
theorem fromBoundary {pos : Nat} (hb : Boundary rs (lsn + bs.length) pos) :
    Encodes pos (recordsFrom pos rs) (bs.drop (pos - lsn)) := by
  induction h with
  | nil =>
    rw [drop_nil]
    exact .nil
  | cons henc hlsn hr ih =>
    rename_i lsn rec enc rs bs
    have hw : Encodes lsn (rec :: rs) (enc ++ bs) := .cons henc hlsn hr
    by_cases hf : pos = lsn
    · rw [hw.recordsFrom_eq_self hf.le, hf, Nat.sub_self]
      exact hw
    · have hlt : Boundary rs (lsn + enc.length + bs.length) pos := by
        rcases hb with he | ⟨r, hm, hp⟩
        · left
          rw [he, length_append, add_assoc]
        · rcases mem_cons.mp hm with rfl | hm
          · exact absurd (hp.symm.trans hlsn) hf
          · exact .inr ⟨r, hm, hp⟩
      have hh : lsn + enc.length ≤ pos := by
        rcases hlt with he | ⟨r, hm, hp⟩
        · omega
        · have := (hr.lsn_le hm).1
          omega
      have hz := encode_pos henc
      simp only [recordHeaderSize] at hz
      have hs : recordsFrom pos (rec :: rs) = recordsFrom pos rs :=
        filter_cons_of_neg (by simp; omega)
      rw [hs, drop_append, drop_eq_nil_of_le (by omega), nil_append,
        show pos - lsn - enc.length = pos - (lsn + enc.length) by omega]
      exact ih hlt

theorem header_le {r : LogRecord} (hm : r ∈ rs) : walHeaderSize ≤ r.lsn := by
  obtain ⟨_, _, _, _, _, he⟩ := h.recordAt hm
  exact (encodeWalRecord_ok.mp he).1.1.2

theorem head?_lsn {r : LogRecord} (hh : r ∈ rs.head?) : r.lsn = lsn := by
  cases h with
  | nil => simp at hh
  | cons _ hl _ =>
    simp only [head?_cons, Option.mem_some_iff] at hh
    rw [← hh, hl]

/-- Records have one encoding. -/
theorem bytes_unique {bs' : List UInt8} (h' : Encodes lsn rs bs') : bs = bs' := by
  induction h generalizing bs' with
  | nil =>
    cases h' with
    | nil => rfl
  | cons he hlsn hr ih =>
    cases h' with
    | cons he' _ hr' =>
      rw [he] at he'
      obtain rfl := Except.ok.inj he'
      rw [ih hr']

end

end Encodes

variable {rs : List LogRecord}

theorem decodeBuffer_eq {lsn fuel : Nat} {rest : List UInt8} (h : Encodes lsn rs rest)
    (hf : rest.length ≤ fuel) : decodeBuffer fuel rest lsn = .ok rs := by
  induction h generalizing fuel with
  | nil => cases fuel <;> rfl
  | cons henc hl hrest ih =>
    rename_i lsn r enc rs bs
    have hs := encode_pos henc
    have ht := (header_of_encode henc bs).2
    rw [length_append] at hf
    cases fuel with
    | zero =>
      simp only [recordHeaderSize] at hs
      omega
    | succ fuel =>
      have hne : enc ++ bs ≠ [] := by
        intro hn
        rw [(append_eq_nil_iff.mp hn).1] at hs
        exact absurd hs (by decide)
      have hd : decodeWalRecord enc lsn = .ok r := by
        obtain ⟨type, tid, pv, pl, plc⟩ := r
        simp only at hl
        rw [decode_encode henc, hl]
      have hh : recordHeaderSize ≤ (enc ++ bs).length := by
        rw [length_append]
        exact hs.trans (Nat.le_add_right _ _)
      have hft : enc.length ≤ (enc ++ bs).length := by
        rw [length_append]
        exact Nat.le_add_right _ _
      have hlt := @ih fuel (by simp only [recordHeaderSize] at hs; omega)
      simp only [decodeBuffer, if_neg hne, ht, take_left, drop_left, require_of _ hh,
        require_of _ hft, ok_bind, hd, hlt]
      rfl

/-! Records in pieces of a log. -/

theorem recordAt_append {rest more : List UInt8} {lsn : Nat} {r : LogRecord} :
    RecordAt rest lsn r ↔ RecordAt (rest ++ more) lsn r ∧ encodedSize r ≤ rest.length := by
  constructor
  · rintro ⟨enc, tail, rfl, he, hl⟩
    refine ⟨⟨enc, tail ++ more, by rw [append_assoc], he, hl⟩, ?_⟩
    rw [length_append, length_of_encode he]
    exact Nat.le_add_right _ _
  · rintro ⟨⟨enc, tail, hb, he, hl⟩, hf⟩
    rw [← length_of_encode he] at hf
    refine ⟨enc, rest.drop enc.length, ?_, he, hl⟩
    have ht : rest.take enc.length = enc := by
      have := congrArg (take enc.length) hb
      rwa [take_append_of_le_length hf, take_left] at this
    have hs := take_append_drop enc.length rest
    rw [ht] at hs
    exact hs.symm

theorem not_recordAt_nil {lsn : Nat} {r : LogRecord} : ¬ RecordAt [] lsn r := by
  intro h
  exact absurd h.header.size (by decide)

/-- A record that stands inside one of the pieces that follow one another from `start`. -/
def PieceAt : (start : Nat) → (pieces : List (List UInt8)) → Nat → LogRecord → Prop
  | _, [], _, _ => False
  | start, piece :: pieces, lsn, record =>
    start ≤ lsn ∧ RecordAt (piece.drop (lsn - start)) lsn record ∨
      PieceAt (start + piece.length) pieces lsn record

/-- Where pieces end. -/
def pieceEnds : (start : Nat) → (pieces : List (List UInt8)) → List Nat
  | _, [] => []
  | start, piece :: pieces => (start + piece.length) :: pieceEnds (start + piece.length) pieces

/-- No piece ends inside the record. -/
def Unbroken (ends : List Nat) (lsn : Nat) (record : LogRecord) : Prop :=
  ∀ stop ∈ ends, ¬ (lsn < stop ∧ stop < lsn + encodedSize record)

theorem le_of_mem_pieceEnds {start stop : Nat} {pieces : List (List UInt8)}
    (h : stop ∈ pieceEnds start pieces) : start ≤ stop := by
  induction pieces generalizing start with
  | nil => simp [pieceEnds] at h
  | cons piece pieces ih =>
    rcases mem_cons.mp h with rfl | h
    · exact Nat.le_add_right _ _
    · exact (Nat.le_add_right _ _).trans (ih h)

/-- A record is in one piece just when it is in the whole and no piece ends inside it. -/
theorem pieceAt_iff {start lsn : Nat} {pieces : List (List UInt8)} {r : LogRecord} :
    PieceAt start pieces lsn r ↔ start ≤ lsn ∧ RecordAt (pieces.flatten.drop (lsn - start)) lsn r ∧
      Unbroken (pieceEnds start pieces) lsn r := by
  induction pieces generalizing start with
  | nil =>
    rw [flatten_nil, drop_nil]
    exact ⟨False.elim, fun h => absurd h.2.1 not_recordAt_nil⟩
  | cons piece pieces ih =>
    unfold PieceAt pieceEnds
    rw [ih, flatten_cons]
    by_cases hb : lsn < start
    · constructor
      · rintro (⟨h, _⟩ | ⟨h, _⟩) <;> omega
      · rintro ⟨h, _⟩
        omega
    · have hle := not_lt.mp hb
      by_cases hi : lsn < start + piece.length
      · -- the position is in the first piece: the record is there or broken by its end
        have hd : (piece ++ pieces.flatten).drop (lsn - start) =
            piece.drop (lsn - start) ++ pieces.flatten := drop_append_of_le_length (by omega)
        rw [hd, @recordAt_append _ pieces.flatten, length_drop]
        constructor
        · rintro (⟨_, hr, hf⟩ | ⟨h, _⟩)
          · refine ⟨hle, hr, fun stop hs hbr => ?_⟩
            rcases mem_cons.mp hs with rfl | hs
            · omega
            · have := le_of_mem_pieceEnds hs
              omega
          · omega
        · rintro ⟨_, hr, hu⟩
          refine .inl ⟨hle, hr, ?_⟩
          have := hu _ mem_cons_self
          omega
      · have hd : (piece ++ pieces.flatten).drop (lsn - start) =
            pieces.flatten.drop (lsn - (start + piece.length)) := by
          rw [drop_append, drop_eq_nil_of_le (by omega), nil_append, Nat.sub_sub]
        rw [hd, drop_eq_nil_of_le (show piece.length ≤ lsn - start by omega)]
        constructor
        · rintro (⟨_, hr⟩ | ⟨_, hr, hu⟩)
          · exact absurd hr not_recordAt_nil
          · refine ⟨hle, hr, fun stop hs => ?_⟩
            rcases mem_cons.mp hs with rfl | hs
            · omega
            · exact hu stop hs
        · rintro ⟨_, hr, hu⟩
          exact .inr ⟨by omega, hr, fun stop hs => hu stop (mem_cons_of_mem _ hs)⟩

theorem pieceAt_concat {start lsn : Nat} {pieces : List (List UInt8)} {piece : List UInt8}
    {r : LogRecord} :
    PieceAt start (pieces ++ [piece]) lsn r ↔ PieceAt start pieces lsn r ∨
      start + pieces.flatten.length ≤ lsn ∧
        RecordAt (piece.drop (lsn - (start + pieces.flatten.length))) lsn r := by
  induction pieces generalizing start with
  | nil => simp [PieceAt]
  | cons fst pieces ih =>
    rw [cons_append, PieceAt, PieceAt, ih, flatten_cons, length_append, add_assoc, or_assoc]

theorem pieceEnds_concat {start : Nat} {pieces : List (List UInt8)} {piece : List UInt8} :
    pieceEnds start (pieces ++ [piece]) =
      pieceEnds start pieces ++ [start + pieces.flatten.length + piece.length] := by
  induction pieces generalizing start with
  | nil => simp [pieceEnds]
  | cons fst pieces ih =>
    rw [cons_append, pieceEnds, pieceEnds, ih, flatten_cons, length_append,
      ← add_assoc start, cons_append]

/-- The end of everything is inside no record. -/
theorem unbroken_concat {start lsn : Nat} {bs : List UInt8} {ends : List Nat} {r : LogRecord}
    (hle : start ≤ lsn) (hr : RecordAt (bs.drop (lsn - start)) lsn r) :
    Unbroken (ends ++ [start + bs.length]) lsn r ↔ Unbroken ends lsn r := by
  constructor
  · exact fun h stop hs => h stop (mem_append_left _ hs)
  · intro h stop hs
    rcases mem_append.mp hs with hs | hs
    · exact h stop hs
    · obtain ⟨enc, tail, hb, he, _⟩ := hr
      have hl := congrArg length hb
      rw [length_append, length_drop, length_of_encode he] at hl
      rw [mem_singleton.mp hs]
      omega

/-! Pieces on disk. -/

theorem readWalRecordAt_ok {body : List UInt8} {lsn : Nat} {r : LogRecord} :
    readWalRecordAt (encodeWalFileHeader ++ body) lsn = .ok r ↔
      walHeaderSize ≤ lsn ∧ RecordAt (body.drop (lsn - walHeaderSize)) lsn r := by
  have hs : walHeaderSize ≤ lsn → ∀ cnt, slice (encodeWalFileHeader ++ body) lsn cnt =
      (body.drop (lsn - walHeaderSize)).take cnt := by
    intro hle cnt
    rw [slice_append_right (show encodeWalFileHeader.length ≤ lsn from hle)]
    rfl
  simp only [readWalRecordAt, ok_iff, take_withFileHeader, length_withFileHeader,
    validateWalFileHeader_encode, recordAt_iff]
  constructor
  · rintro ⟨_, ⟨hle, he, _⟩, _, _, _, _, _, hf, hd⟩
    rw [hs hle] at hf hd
    rw [hs hle, readUint32_header] at hd
    rw [readUint32_header] at hf
    refine ⟨hle, ?_, hd⟩
    rw [length_drop]
    omega
  · rintro ⟨hle, hf, hd⟩
    have hh := (recordAt_iff.mpr ⟨hf, hd⟩).header
    have hz := hh.size
    rw [length_drop] at hf hz
    simp only [recordHeaderSize] at hz
    rw [hs hle, hs hle, readUint32_header]
    refine ⟨(), ⟨hle, by omega, by simp only [recordHeaderSize]; omega⟩, (), trivial, (), ?_, (),
      by omega, hd⟩
    exact validateRecordPrefix_ok.mpr ((recordHeader_take le_rfl).mpr hh)

theorem pieceAt_layout {lay : List Stretch} {fst : Stretch} {lsn : Nat} {r : LogRecord}
    (hc : (fst :: lay).IsChain fun a b => b.start = a.stop)
    (hs : ∀ str ∈ fst :: lay, str.stop = str.start + str.body.length) :
    PieceAt fst.start ((fst :: lay).map Stretch.body) lsn r ↔
      ∃ str ∈ fst :: lay, str.start ≤ lsn ∧ RecordAt (str.body.drop (lsn - str.start)) lsn r := by
  induction lay generalizing fst with
  | nil => simp [PieceAt]
  | cons second lay ih =>
    have hn := isChain_cons_cons.mp hc
    have hlt := ih hn.2 fun str hm => hs str (mem_cons_of_mem _ hm)
    rw [map_cons, PieceAt, ← hs fst mem_cons_self, ← hn.1, hlt]
    simp only [mem_cons, exists_eq_or_imp]

theorem pieceEnds_layout {lay : List Stretch} {fst : Stretch}
    (hc : (fst :: lay).IsChain fun a b => b.start = a.stop)
    (hs : ∀ str ∈ fst :: lay, str.stop = str.start + str.body.length) :
    pieceEnds fst.start ((fst :: lay).map Stretch.body) = (fst :: lay).map Stretch.stop := by
  induction lay generalizing fst with
  | nil => simp [pieceEnds, hs]
  | cons second lay ih =>
    have hn := isChain_cons_cons.mp hc
    have hlt := ih hn.2 fun str hm => hs str (mem_cons_of_mem _ hm)
    rw [map_cons, pieceEnds, ← hs fst mem_cons_self, ← hn.1, hlt, hn.1]
    rfl

/-- Where the file or a segment ends; a record is read from one of them only. -/
def readEnds (manager : LogManager) : List Nat :=
  match manager.segmented with
  | none => [manager.bufferStartOffset]
  | some storage => storage.segments.map (·.logicalEndLsn)

section
variable {s : LogState} {start stop : Nat} {wr buf : List LogRecord}

/-- The pieces the log on disk consists of. -/
theorem Disk.pieces (h : Disk s start wr stop)
    (hf : s.manager.segmented = none → stop = s.manager.bufferStartOffset) :
    ∃ pieces, Encodes start wr pieces.flatten ∧ stop = start + pieces.flatten.length ∧
      pieceEnds start pieces = readEnds s.manager ∧
      ∀ lsn r, readDisk s lsn = .ok r ↔ PieceAt start pieces lsn r := by
  rcases h with ⟨h, rfl⟩ | ⟨h, rfl, ht, rfl⟩
  · rename_i file body
    refine ⟨[body], by simpa using h.encodes, by simpa using h.stop_eq.symm, ?_, fun lsn r => ?_⟩
    · simp only [pieceEnds, readEnds, h.legacy, h.stop_eq, hf h.legacy]
    · simp only [readDisk, h.legacy, legacyBytes, h.found, ok_bind, h.bytes, readWalRecordAt_ok,
        PieceAt, or_false]
  · rename_i stg pre last
    obtain ⟨dir, hd, hs⟩ := h.holds
    obtain ⟨fst, lay, hl⟩ := exists_first pre last
    have hc := hs.contiguous
    have hn : ∀ str ∈ pre ++ [last], str.stop = str.start + str.body.length :=
      fun str hm => (hs.sound str hm).stop
    have hen := hs.encodes hl
    have he := hs.stop_eq hl
    have hg := hs.segments
    have hr := fun lsn r => @Stored.readRecordAt_ok r _ _ _ _ _ hs hd lsn
    rw [hl] at ht hc hn hen he hg hr ⊢
    obtain rfl := Option.some.inj ht
    refine ⟨(fst :: lay).map Stretch.body, ?_, ?_, ?_, fun lsn r => ?_⟩
    · rw [← flatMap_def]
      exact hen
    · rw [← flatMap_def]
      exact he
    · rw [pieceEnds_layout hc hn]
      simp only [readEnds, h.segmented, show stg.segments = _ from hg, map_map]
      rfl
    · rw [pieceAt_layout hc hn, ← hr]
      simp only [readDisk, h.segmented]

theorem readBufferedAt_ok {lsn : Nat} {r : LogRecord} :
    readBufferedAt s lsn = .ok r ↔
      RecordAt (s.manager.buffer.drop (lsn - s.manager.bufferStartOffset)) lsn r := by
  simp only [readBufferedAt, ok_iff]
  rw [recordAt_iff]
  constructor
  · rintro ⟨_, _, _, hf, hd⟩
    exact ⟨hf, hd⟩
  · rintro ⟨hf, hd⟩
    exact ⟨(), (recordAt_iff.mpr ⟨hf, hd⟩).header.size, (), hf, hd⟩

/-! What readers return. -/

/-- A record is read wherever it stands in the log, unless the file or a segment ends
inside it. -/
theorem Held.readRecordAt_ok (h : Held s start wr stop buf)
    (ha : stop = s.manager.bufferStartOffset) :
    ∃ bs, Encodes start (wr ++ buf) bs ∧ s.manager.nextLsn = start + bs.length ∧
      ∀ lsn r, readRecordAt s lsn = .ok r ↔ start ≤ lsn ∧
        RecordAt (bs.drop (lsn - start)) lsn r ∧ Unbroken (readEnds s.manager) lsn r := by
  obtain ⟨pieces, hn, hs, hed, hrd⟩ := h.disk.pieces h.file
  have hb := h.buffered.encodes
  rw [← ha, hs] at hb
  refine ⟨pieces.flatten ++ s.manager.buffer, hn.append hb, ?_, fun lsn r => ?_⟩
  · rw [← h.buffered.stop, ← ha, hs, length_append, add_assoc]
  · have hp : readRecordAt s lsn = .ok r ↔ PieceAt start (pieces ++ [s.manager.buffer]) lsn r := by
      rw [pieceAt_concat, ← hs, ha, ← hrd]
      unfold readRecordAt
      split
      · rename_i hf
        have hh : pieces.flatten.drop (lsn - start) = [] := drop_eq_nil_of_le (by omega)
        rw [readBufferedAt_ok, hrd, pieceAt_iff, hh]
        exact ⟨fun hr => .inr ⟨hf.2, hr⟩,
          fun hr => hr.elim (fun hd => absurd hd.2.1 not_recordAt_nil) fun hm => hm.2⟩
      · rename_i hd
        refine ⟨fun hr => .inl hr, fun hr => hr.elim id fun hm => ?_⟩
        have he : s.manager.buffer = [] := by
          by_contra hne
          exact hd ⟨hne, hm.1⟩
        rw [he, drop_nil] at hm
        exact absurd hm.2 not_recordAt_nil
    rw [hp, pieceAt_iff, pieceEnds_concat, flatten_append, flatten_singleton, hed,
      add_assoc, ← length_append]
    constructor
    · rintro ⟨hle, hr, hu⟩
      exact ⟨hle, hr, (unbroken_concat hle hr).mp hu⟩
    · rintro ⟨hle, hr, hu⟩
      exact ⟨hle, hr, (unbroken_concat hle hr).mpr hu⟩

theorem Held.scan_eq (h : Held s start wr stop buf) (ha : stop = s.manager.bufferStartOffset) :
    scan s = .ok ⟨wr ++ buf, false, s.manager.nextLsn, s.manager.nextLsn, start⟩ := by
  have hn := h.buffered.stop
  rw [scan, scanIncludingBuffer, h.disk.scan, ok_bind]
  by_cases he : s.manager.buffer = []
  · rw [if_pos (.inr he), h.empty_buffer.mp he, append_nil, ha, ← hn, he]
    rfl
  · rw [if_neg (by simp [he]), require_of _ ⟨ha, ha⟩, ok_bind,
      decodeBuffer_eq h.buffered.encodes le_rfl, ok_bind, ← hn, ← ha]
    rfl

/-- A position inside the last record, where a scan of the buffer finds nothing to refuse. -/
def InLastRecord (records : List LogRecord) (stop position : Nat) : Prop :=
  (∀ record ∈ records, record.lsn < position) ∧ position < stop

theorem recordsFrom_eq_nil {pos : Nat} : recordsFrom pos rs = [] ↔ ∀ r ∈ rs, r.lsn < pos := by
  simp [recordsFrom, filter_eq_nil_iff]

/-- A log with a buffer is scanned from a boundary, or from inside its last record. -/
theorem Held.scanFrom_buffered (h : Held s start wr stop buf)
    (han : stop = s.manager.bufferStartOffset) (hne : s.manager.buffer ≠ []) {pos : Nat}
    {res : WalScanResult} :
    scanFrom s pos = .ok res ↔ (Boundary (wr ++ buf) s.manager.nextLsn pos ∨
        InLastRecord (wr ++ buf) s.manager.nextLsn pos) ∧
      (⟨recordsFrom pos (wr ++ buf), false, s.manager.nextLsn, s.manager.nextLsn,
        pos⟩ : WalScanResult) = res := by
  obtain ⟨bs, hen, he, _⟩ := h.readRecordAt_ok han
  have hs : scanIncludingBuffer s = _ := h.scan_eq han
  -- the buffer holds a record, so that the log does not end at its header
  obtain ⟨held, hhl⟩ := exists_mem_of_ne_nil _ fun hn => hne (h.empty_buffer.mpr hn)
  have hi := mem_append_right wr hhl
  have hh := hen.header_le hi
  have hbl := (hen.lsn_le hi).2
  simp only [scanFrom, if_pos hne, scanBufferedFrom, hs, ok_bind, ok_iff, hen.dropWhile_eq]
  constructor
  · rintro ⟨_, ⟨_, hle⟩, _, ht, hr⟩
    refine ⟨?_, hr⟩
    by_cases hl : pos = s.manager.nextLsn
    · exact .inl (.inl hl)
    · cases hd : (recordsFrom pos (wr ++ buf)).head? with
      | none => exact .inr ⟨recordsFrom_eq_nil.mp (head?_eq_none_iff.mp hd), by omega⟩
      | some fst =>
        have hm := (mem_filter.mp (mem_of_head? hd)).1
        refine .inl (.inr ⟨fst, hm, ?_⟩)
        by_contra ho
        exact ht ⟨⟨fst, hd, ho⟩, hl⟩
  · rintro ⟨hal, hr⟩
    refine ⟨(), ?_, (), ?_, hr⟩
    · rcases hal with (rfl | ⟨r, hm, rfl⟩) | ⟨ha, hl⟩
      · omega
      · have := hen.header_le hm
        have := (hen.lsn_le hm).2
        omega
      · have := ha held hi
        omega
    · rintro ⟨⟨fst, hd, ho⟩, _⟩
      rcases hal with hb | ⟨ha, _⟩
      · rw [he] at hb
        exact ho ((hen.fromBoundary hb).head?_lsn hd)
      · rw [recordsFrom_eq_nil.mpr ha] at hd
        exact absurd hd (by simp)

/-- A log that is written to segments is scanned from a boundary. -/
theorem Held.scanFrom_segments (h : Held s start wr stop [])
    (ha : stop = s.manager.bufferStartOffset) (hg : s.manager.segmented.isSome)
    {pos : Nat} {res : WalScanResult} :
    scanFrom s pos = .ok res ↔ Boundary wr s.manager.nextLsn pos ∧
      (⟨recordsFrom pos wr, false, s.manager.nextLsn, s.manager.nextLsn, pos⟩ :
        WalScanResult) = res := by
  have he := h.empty_buffer.mpr rfl
  have hn := h.buffered.stop
  rw [he, ← ha] at hn
  rcases h.disk with ⟨hf, _⟩ | ⟨hse, hr, _, ht⟩
  · rw [hf.legacy] at hg
    exact absurd hg (by simp)
  · obtain ⟨dir, hd, hs⟩ := hse.holds
    have hc := @Stored.scanImpl_ok _ _ _ _ _ hs hd pos res
    rw [hr, ht, show stop = s.manager.nextLsn from hn] at hc
    simp only [scanFrom, he, ne_eq, not_true_eq_false, if_false, hse.segmented]
    exact hc

/-- A log that is written to the single file is scanned from wherever its bytes read as a
log. -/
theorem Held.scanFrom_file (h : Held s start wr stop [])
    (ha : stop = s.manager.bufferStartOffset) (hl : s.manager.segmented = none)
    {bs : List UInt8} (hn : Encodes start wr bs) {pos : Nat} {res : WalScanResult} :
    scanFrom s pos = .ok res ↔ (start ≤ pos ∧ pos ≤ s.manager.nextLsn) ∧
      ∃ scn, ScansTo TornTail (bs.drop (pos - start)) pos scn ∧
        (⟨scn.records, scn.truncatedTail, scn.validEnd, s.manager.nextLsn, pos⟩ :
          WalScanResult) = res := by
  have he := h.empty_buffer.mpr rfl
  have hd := h.buffered.stop
  rw [he, ← ha] at hd
  rcases h.disk with ⟨hf, rfl⟩ | ⟨hs, _, _, _⟩
  · rename_i file body
    obtain rfl : bs = body := hn.bytes_unique hf.encodes
    simp only [scanFrom, he, ne_eq, not_true_eq_false, if_false, hl, legacyBytes,
      hf.found, ok_bind, hf.bytes, scanWalFileFrom]
    rw [scanDescriptor_ok, hf.stop_eq, show stop = s.manager.nextLsn from hd]
  · rw [hs.segmented] at hl
    exact absurd hl (by simp)

/-- The bytes from a position on read as a log of their own. -/
def ReadsAsLog (start : Nat) (bytes : List UInt8) (position : Nat) : Prop :=
  (start ≤ position ∧ position ≤ start + bytes.length) ∧
    ∃ scanned, ScansTo TornTail (bytes.drop (position - start)) position scanned

/-- A log that is written is scanned from every boundary, and from elsewhere just when it
is a single file whose bytes read as a log from there. -/
theorem Held.scanFrom_written (h : Held s start wr stop [])
    (ha : stop = s.manager.bufferStartOffset) {bs : List UInt8}
    (hn : Encodes start wr bs) (he : s.manager.nextLsn = start + bs.length) (pos : Nat) :
    (Boundary wr s.manager.nextLsn pos → scanFrom s pos =
      .ok ⟨recordsFrom pos wr, false, s.manager.nextLsn, s.manager.nextLsn, pos⟩) ∧
    (¬ Boundary wr s.manager.nextLsn pos → ((∃ res, scanFrom s pos = .ok res) ↔
        s.manager.segmented = none ∧ ReadsAsLog start bs pos)) := by
  cases hg : s.manager.segmented with
  | some stg =>
    have hs := fun res => @Held.scanFrom_segments _ _ _ _ h ha (by rw [hg]; rfl) pos res
    refine ⟨fun hb => (hs _).mpr ⟨hb, rfl⟩, fun ho => ?_⟩
    exact ⟨fun ⟨res, hrs⟩ => absurd ((hs res).mp hrs).1 ho, fun hno => by simp at hno⟩
  | none =>
    have hs := fun res => @Held.scanFrom_file _ _ _ _ h ha hg _ hn pos res
    refine ⟨fun hb => ?_, fun _ => ?_⟩
    · rw [he] at hb
      have hh := hn.fromBoundary hb
      have hr : start ≤ pos ∧ pos ≤ start + bs.length := by
        rcases hb with rfl | ⟨r, hm, rfl⟩
        · omega
        · have := hn.lsn_le hm
          omega
      refine (hs _).mpr ⟨by omega, ⟨recordsFrom pos wr, false, s.manager.nextLsn⟩,
        ⟨_, [], (append_nil _).symm, hh, ?_, rfl⟩, rfl⟩
      show s.manager.nextLsn = pos + (bs.drop (pos - start)).length
      rw [length_drop, he]
      omega
    · rw [ReadsAsLog, ← he]
      constructor
      · rintro ⟨res, hrs⟩
        obtain ⟨hr, scn, hsn, _⟩ := (hs res).mp hrs
        exact ⟨rfl, hr, scn, hsn⟩
      · rintro ⟨_, hr, scn, hsn⟩
        exact ⟨_, (hs _).mpr ⟨hr, scn, hsn, rfl⟩⟩

/-! Buffered and written. -/

/-- The log in memory is read as the written one, and scans start at boundaries. -/
structure Invisible (s s' : LogState) (records : List LogRecord) (position lsn : Nat) : Prop where
  scan : (LogManager.scan s).toOption = (LogManager.scan s').toOption
  scanFrom : (LogManager.scanFrom s position).toOption = (LogManager.scanFrom s' position).toOption
  read : (LogManager.readRecordAt s lsn).toOption = (LogManager.readRecordAt s' lsn).toOption
  found : Boundary records s.manager.nextLsn position → ∃ result,
    LogManager.scanFrom s position = .ok result ∧ result.records = recordsFrom position records
  refused : ¬ Boundary records s.manager.nextLsn position →
    ∃ e, LogManager.scanFrom s position = .error e

/-- Nothing in the log can be mistaken for a record or for the start of a log. -/
structure Unmistakable (s s' : LogState) (start : Nat) (records : List LogRecord)
    (bytes : List UInt8)
    (position lsn : Nat) : Prop where
  file : s.manager.segmented = none → ¬ Boundary records s.manager.nextLsn position →
    ¬ ReadsAsLog start bytes position
  buffer : s.manager.buffer ≠ [] → ¬ InLastRecord records s.manager.nextLsn position
  pieces : ∀ record, start ≤ lsn → RecordAt (bytes.drop (lsn - start)) lsn record →
    (Unbroken (readEnds s.manager) lsn record ↔ Unbroken (readEnds s'.manager) lsn record)

theorem InLastRecord.not_boundary {pos : Nat} (h : InLastRecord rs stop pos) :
    ¬ Boundary rs stop pos := by
  rintro (rfl | ⟨r, hm, rfl⟩)
  · exact absurd h.2 (lt_irrefl _)
  · exact absurd (h.1 r hm) (lt_irrefl _)

theorem exists_error {α : Type} {x : Result α} (h : ¬ ∃ a, x = .ok a) : ∃ e, x = .error e := by
  cases x with
  | ok a => exact absurd ⟨a, rfl⟩ h
  | error e => exact ⟨e, rfl⟩

/-- Off the boundaries a log with a buffer is scanned inside its last record only. -/
theorem Held.scanFrom_refused {bs : List UInt8} (h : Held s start wr stop buf)
    (ha : stop = s.manager.bufferStartOffset) (hn : Encodes start (wr ++ buf) bs)
    (hd : s.manager.nextLsn = start + bs.length) {pos : Nat}
    (ho : ¬ Boundary (wr ++ buf) s.manager.nextLsn pos) :
    (∃ res, scanFrom s pos = .ok res) ↔
      s.manager.buffer ≠ [] ∧ InLastRecord (wr ++ buf) s.manager.nextLsn pos ∨
        s.manager.buffer = [] ∧ s.manager.segmented = none ∧ ReadsAsLog start bs pos := by
  by_cases hb : s.manager.buffer = []
  · obtain rfl := h.empty_buffer.mp hb
    rw [append_nil] at hn ho ⊢
    rw [(h.scanFrom_written ha hn hd pos).2 ho]
    simp [hb]
  · constructor
    · rintro ⟨res, hr⟩
      rcases ((h.scanFrom_buffered ha hb).mp hr).1 with hbn | hl
      · exact absurd hbn ho
      · exact .inl ⟨hb, hl⟩
    · rintro (⟨_, hl⟩ | ⟨he, _⟩)
      · exact ⟨_, (h.scanFrom_buffered ha hb).mpr ⟨.inr hl, rfl⟩⟩
      · exact absurd he hb

/-- Every boundary is a place to scan from. -/
theorem Held.scanFrom_boundary {bs : List UInt8} (h : Held s start wr stop buf)
    (ha : stop = s.manager.bufferStartOffset) (hn : Encodes start (wr ++ buf) bs)
    (he : s.manager.nextLsn = start + bs.length) {pos : Nat}
    (hb : Boundary (wr ++ buf) s.manager.nextLsn pos) :
    scanFrom s pos = .ok ⟨recordsFrom pos (wr ++ buf), false,
      s.manager.nextLsn, s.manager.nextLsn, pos⟩ := by
  by_cases hf : s.manager.buffer = []
  · obtain rfl := h.empty_buffer.mp hf
    rw [append_nil] at hn hb ⊢
    exact (h.scanFrom_written ha hn he pos).1 hb
  · exact (h.scanFrom_buffered ha hf).mpr ⟨.inl hb, rfl⟩

theorem Held.invisible_iff {s' : LogState} {stop' : Nat} {bs : List UInt8}
    (h : Held s start wr stop buf) (ha : stop = s.manager.bufferStartOffset)
    (h' : Held s' start (wr ++ buf) stop' []) (ha' : stop' = s'.manager.bufferStartOffset)
    (hx : s'.manager.nextLsn = s.manager.nextLsn) (hmd : SameMode s s')
    (hn : Encodes start (wr ++ buf) bs) (pos lsn : Nat) :
    Invisible s s' (wr ++ buf) pos lsn ↔ Unmistakable s s' start (wr ++ buf) bs pos lsn := by
  obtain ⟨bytes₁, hbs, hed, hd⟩ := h.readRecordAt_ok ha
  obtain rfl := hn.bytes_unique hbs
  obtain ⟨bytes₂, hbs', hed', hd'⟩ := h'.readRecordAt_ok ha'
  rw [append_nil] at hbs'
  obtain rfl := hn.bytes_unique hbs'
  have hb := @Held.scanFrom_boundary _ _ _ _ _ _ h ha hn hed pos
  have hrf := @Held.scanFrom_refused _ _ _ _ _ _ h ha hn hed pos
  obtain ⟨hb', hrf'⟩ := h'.scanFrom_written ha' hn hed' pos
  have hl : s'.manager.segmented = none ↔ s.manager.segmented = none := by
    have hso : s'.manager.segmented.isSome = s.manager.segmented.isSome := hmd
    rw [← Option.not_isSome_iff_eq_none, ← Option.not_isSome_iff_eq_none, hso]
  rw [hx] at hb' hrf'
  constructor
  · intro hi
    refine ⟨fun hno ho hre => ?_, fun hbf hls => ?_, fun r hle hc => ?_⟩
    · obtain ⟨e, he⟩ := hi.refused ho
      obtain ⟨res, hr⟩ := (hrf' ho).mpr ⟨hl.mpr hno, hre⟩
      have hm := (toOption_eq_iff.mp hi.scanFrom res).mpr hr
      rw [he] at hm
      exact absurd hm (by simp)
    · obtain ⟨e, he⟩ := hi.refused hls.not_boundary
      obtain ⟨res, hr⟩ := (hrf hls.not_boundary).mpr (Or.inl ⟨hbf, hls⟩)
      rw [he] at hr
      exact absurd hr (by simp)
    · have hm := toOption_eq_iff.mp hi.read r
      rw [hd, hd'] at hm
      simpa only [hle, hc, true_and] using hm
  · intro hu
    have he : ¬ Boundary (wr ++ buf) s.manager.nextLsn pos → ∃ e, scanFrom s pos = .error e := by
      intro ho
      refine exists_error fun hr => ?_
      rcases (hrf ho).mp hr with ⟨hbf, hls⟩ | ⟨_, hno, hre⟩
      · exact hu.buffer hbf hls
      · exact hu.file hno ho hre
    refine ⟨?_, ?_, ?_, fun hf => ⟨_, hb hf, rfl⟩, he⟩
    · rw [h.scan_eq ha, h'.scan_eq ha', hx, append_nil]
    · by_cases ht : Boundary (wr ++ buf) s.manager.nextLsn pos
      · rw [hb ht, hb' ht]
      · obtain ⟨e, hs⟩ := he ht
        obtain ⟨e', hs'⟩ := exists_error (x := scanFrom s' pos) fun hr =>
          hu.file (hl.mp ((hrf' ht).mp hr).1) ht ((hrf' ht).mp hr).2
        rw [hs, hs']
        rfl
    · rw [toOption_eq_iff]
      intro r
      rw [hd, hd']
      constructor
      · rintro ⟨hle, hc, hub⟩
        exact ⟨hle, hc, (hu.pieces r hle hc).mp hub⟩
      · rintro ⟨hle, hc, hub⟩
        exact ⟨hle, hc, (hu.pieces r hle hc).mpr hub⟩

end

/-- In every state a run reaches, and against the state in which its buffer is written, the
readers behave as if everything were written just when nothing in the log can be mistaken
for a record or the start of a log. -/
theorem buffering_invisible_iff {config : LogConfig} {manager : LogManager} {world world' : World}
    {start : Nat} {existing : List LogRecord} {s' : LogState}
    (hfound : LogFound config world.volume start existing)
    (hcreate : create config world = .ok manager world') (requests : List LogRequest)
    (hwrite : writeBuffer (run ⟨⟨manager, world'⟩, []⟩ requests).state = .ok () s')
    (position lsn : Nat) :
    ∃ bs, Encodes start (existing ++ (run ⟨⟨manager, world'⟩, []⟩ requests).accepted) bs ∧
      (Invisible (run ⟨⟨manager, world'⟩, []⟩ requests).state s'
          (existing ++ (run ⟨⟨manager, world'⟩, []⟩ requests).accepted) position lsn ↔
        Unmistakable (run ⟨⟨manager, world'⟩, []⟩ requests).state s' start
          (existing ++ (run ⟨⟨manager, world'⟩, []⟩ requests).accepted) bs position lsn) := by
  have hkept := (create_found hfound hcreate).kept.run requests
  generalize run ⟨⟨manager, world'⟩, []⟩ requests = h at hkept hwrite ⊢
  obtain ⟨wr, stop, buf, hheld, _, hordered⟩ := hkept.carried
  obtain ⟨hsame, hheld', hoffset, _, _, hfits⟩ :=
    (ensures_of_ok hwrite).mp (writeBuffer_ensures hheld)
  obtain ⟨haligned, hrecords⟩ := hordered.aligned hfits
  have haligned' : stop + h.state.manager.buffer.length = s'.manager.bufferStartOffset := by
    rw [hoffset, ← hheld.buffered.stop, haligned]
  obtain ⟨bs, hencodes, _⟩ := hheld.readRecordAt_ok haligned
  have hmode : SameMode h.state s' := (ensures_of_ok hwrite).mp (writeBuffer_sameMode h.state)
  rw [← hrecords]
  exact ⟨bs, hencodes, hheld.invisible_iff haligned hheld' haligned' hsame.nextLsn hmode hencodes
    position lsn⟩

/-! One record in the buffer. -/

theorem buffering_invisible_at_record :
    ∃ manager world s', create smallSegments ⟨.empty, [], true⟩ = .ok manager world ∧
      writeBuffer (run ⟨⟨manager, world⟩, []⟩ [.append (payloadRecord 0)]).state = .ok () s' ∧
      Invisible (run ⟨⟨manager, world⟩, []⟩ [.append (payloadRecord 0)]).state s'
        ([] ++ (run ⟨⟨manager, world⟩, []⟩ [.append (payloadRecord 0)]).accepted) 64 64 := by
  have hcheck : returnsWith (create smallSegments ⟨.empty, [], true⟩) (fun manager world =>
      let h := run ⟨⟨manager, world⟩, []⟩ [.append (payloadRecord 0)]
      returnsWith (writeBuffer h.state) fun _ s' =>
        decide (readEnds h.state.manager = [64] ∧ readEnds s'.manager = [112] ∧
          h.accepted = [{ payloadRecord 0 with lsn := 64 }] ∧ h.state.manager.segmented ≠ none)) =
        true := by
    decide +kernel
  simp only [returnsWith_iff, decide_eq_true_eq] at hcheck
  obtain ⟨manager, world, hcreate, _, s', hwrite, hends, hends', haccepted, hsegmented⟩ := hcheck
  refine ⟨manager, world, s', hcreate, hwrite, ?_⟩
  obtain ⟨bs, hencodes, hiff⟩ :=
    buffering_invisible_iff smallSegments_found hcreate _ hwrite 64 64
  refine hiff.mpr ⟨fun hnone => absurd hnone hsegmented, fun _ hlast => ?_, fun record _ hrecord =>
    ?_⟩
  · rw [haccepted] at hlast
    exact absurd (hlast.1 _ mem_cons_self) (by decide)
  · -- the log has 48 bytes, so that a record in it ends where the segment does
    have hlength : bs.length = 48 := by
      rw [haccepted] at hencodes
      cases hencodes with
      | cons hencode _ hrest =>
        cases hrest with
        | nil => rw [append_nil, length_of_encode hencode]; rfl
    obtain ⟨encoded, tail, hbytes, hencode, _⟩ := hrecord
    have hsize := congrArg length hbytes
    rw [length_append, length_drop, hlength, length_of_encode hencode] at hsize
    simp only [hends, hends', Unbroken, mem_singleton, forall_eq]
    omega

/-- A scan from inside a record that is in the buffer is not refused. -/
theorem scan_inside_buffered_record :
    ∃ manager world s', create smallSegments ⟨.empty, [], true⟩ = .ok manager world ∧
      writeBuffer (run ⟨⟨manager, world⟩, []⟩ [.append (payloadRecord 0)]).state = .ok () s' ∧
      ¬ Invisible (run ⟨⟨manager, world⟩, []⟩ [.append (payloadRecord 0)]).state s'
        ([] ++ (run ⟨⟨manager, world⟩, []⟩ [.append (payloadRecord 0)]).accepted) 65 64 := by
  have hcheck : returnsWith (create smallSegments ⟨.empty, [], true⟩) (fun manager world =>
      let h := run ⟨⟨manager, world⟩, []⟩ [.append (payloadRecord 0)]
      returnsWith (writeBuffer h.state) fun _ s' =>
        (scanFrom h.state 65).toOption.isSome && (scanFrom s' 65).toOption.isNone) = true := by
    decide +kernel
  simp only [returnsWith_iff, Bool.and_eq_true, Option.isNone_iff_eq_none] at hcheck
  obtain ⟨manager, world, hcreate, _, s', hwrite, hscan, hscan'⟩ := hcheck
  refine ⟨manager, world, s', hcreate, hwrite, fun hinvisible => ?_⟩
  rw [hinvisible.scanFrom, hscan'] at hscan
  cases hscan

end MiniDb.Wal
