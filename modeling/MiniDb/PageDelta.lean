import MiniDb.LogRecord

/-!
Byte-range page deltas. `computePageDelta` collects the maximal runs of offsets
where two images differ or where a change is required to be recorded. Applying
such a delta to any page overlays exactly those offsets, and the payload
checks accept every delta that was computed for at least one offset.
-/
namespace MiniDb
open ByteBlock Outcome List
open Option hiding mem_map

variable {ex : Bool} {pid : Nat} {req : Nat → Bool} {aft bef : Page}

def deltaIncludes (before after : Page) (requiredOffsets : Nat → Bool) (index : Nat) : Bool :=
  byteAt before index != byteAt after index || requiredOffsets index

/-- The two nested scan loops as one pass: `first` is the offset at which the
current run began, if the scan stands inside a run. -/
def scanRanges (included : Nat → Bool) :
    (remaining offset : Nat) → (first : Option Nat) → List (Nat × Nat)
  | 0, _, none => []
  | 0, offset, some first => [(first, offset - first)]
  | remaining + 1, offset, none =>
    if included offset then scanRanges included remaining (offset + 1) (some offset)
    else scanRanges included remaining (offset + 1) none
  | remaining + 1, offset, some first =>
    if included offset then scanRanges included remaining (offset + 1) (some first)
    else (first, offset - first) :: scanRanges included remaining (offset + 1) none

def pageBytes (page : Page) (offset length : Nat) : List UInt8 :=
  (List.range length).map fun k => byteAt page (offset + k)

def sliceRange (before after : Page) (run : Nat × Nat) : PageByteRange :=
  ⟨run.1, run.2, pageBytes before run.1 run.2, pageBytes after run.1 run.2⟩

def computePageDelta (before after : Page) (requiredOffsets : Nat → Bool) :
    List PageByteRange :=
  (scanRanges (deltaIncludes before after requiredOffsets) pageSize 0 none).map
    (sliceRange before after)

def applyPageDeltaAfter (page : Page) (payload : PageDeltaUpdateLogPayload) : Result Page := do
  validateDeltaRanges payload .corruptRecord
  return payload.ranges.foldl (fun page range => writeBytes page range.offset range.afterBytes) page

def applyPageDeltaBefore (page : Page) (payload : PageDeltaUpdateLogPayload) : Result Page := do
  validateDeltaRanges payload .corruptRecord
  return payload.ranges.foldl (fun page range =>
    writeBytes page range.offset range.beforeBytes) page

theorem byteAt_writeBytes_slice (pg source : Page) (off length i : Nat) :
    byteAt (writeBytes pg off (pageBytes source off length)) i =
      if off ≤ i ∧ i < off + length then byteAt source i else byteAt pg i := by
  by_cases hi : off ≤ i ∧ i < off + length
  · rw [if_pos hi, byteAt_writeBytes]
    by_cases hn : i < pageSize
    · rw [if_pos ⟨hi.1, hn⟩]
      simp [pageBytes, show i - off < length by omega, show off + (i - off) = i by omega]
    · rw [if_neg (by omega), byteAt_of_ge _ (not_lt.mp hn),
        byteAt_of_ge _ (not_lt.mp hn)]
  · rw [if_neg hi]
    apply byteAt_writeBytes_outside
    simp only [pageBytes, length_map, length_range]
    omega

theorem byteAt_foldl_slices (source pg : Page) (runs : List (Nat × Nat)) (i : Nat) :
    byteAt (runs.foldl (fun pg run => writeBytes pg run.1 (pageBytes source run.1 run.2)) pg) i =
      if ∃ run ∈ runs, run.1 ≤ i ∧ i < run.1 + run.2 then byteAt source i else byteAt pg i := by
  induction runs generalizing pg with
  | nil => simp
  | cons run runs ih =>
    rw [foldl_cons, ih, byteAt_writeBytes_slice]
    by_cases ht : ∃ run ∈ runs, run.1 ≤ i ∧ i < run.1 + run.2
    · have ha : ∃ r ∈ run :: runs, r.1 ≤ i ∧ i < r.1 + r.2 := by
        obtain ⟨r, hr, hi⟩ := ht
        exact ⟨r, by simp [hr], hi⟩
      rw [if_pos ht, if_pos ha]
    · rw [if_neg ht]
      by_cases hh : run.1 ≤ i ∧ i < run.1 + run.2
      · rw [if_pos hh, if_pos ⟨run, by simp, hh⟩]
      · rw [if_neg hh, if_neg]
        rintro ⟨r, hr, hi⟩
        rcases mem_cons.mp hr with rfl | hr
        · exact hh hi
        · exact ht ⟨r, hr, hi⟩

theorem scanRanges_covers (inc : Nat → Bool) (rmn off : Nat)
    (fst : Option Nat) (hf : ∀ b ∈ fst, b < off) (i : Nat) :
    (∃ run ∈ scanRanges inc rmn off fst, run.1 ≤ i ∧ i < run.1 + run.2) ↔
      (∃ b ∈ fst, b ≤ i ∧ i < off) ∨ (off ≤ i ∧ i < off + rmn ∧ inc i = true) := by
  induction rmn generalizing off fst with
  | zero =>
    cases fst with
    | none => simp [scanRanges]; omega
    | some b =>
      have := hf b rfl
      simp [scanRanges]
      omega
  | succ rmn ih =>
    have hh : ∀ {P : Prop}, (P ∨ (off ≤ i ∧ i < off + (rmn + 1) ∧
        inc i = true)) ↔ (P ∨ (i = off ∧ inc off = true) ∨
        (off + 1 ≤ i ∧ i < off + 1 + rmn ∧ inc i = true)) := by
      intro P
      by_cases hi : i = off
      · subst hi
        simp
      · have hlt : off ≤ i ↔ off + 1 ≤ i := by omega
        have hbn : i < off + (rmn + 1) ↔ i < off + 1 + rmn := by omega
        simp [hi, hlt, hbn]
    rw [hh]
    cases fst with
    | none =>
      by_cases hn : inc off = true
      · rw [scanRanges, if_pos hn, ih (off + 1) (some off) (by simp)]
        simp only [mem_def, some.injEq, exists_eq_left', hn, and_true,
          reduceCtorEq, false_and, exists_false, false_or]
        constructor
        · rintro (h | h)
          · exact .inl (by omega)
          · exact .inr h
        · rintro (h | h)
          · exact .inl (by omega)
          · exact .inr h
      · rw [scanRanges, if_neg hn, ih (off + 1) none (by simp)]
        simp [hn]
    | some b =>
      have hb := hf b rfl
      by_cases hn : inc off = true
      · rw [scanRanges, if_pos hn, ih (off + 1) (some b) (by simp; omega)]
        simp only [mem_def, some.injEq, exists_eq_left', hn, and_true]
        constructor
        · rintro (h | h)
          · by_cases hi : i = off
            · exact .inr (.inl hi)
            · exact .inl (by omega)
          · exact .inr (.inr h)
        · rintro (h | h | h)
          · exact .inl (by omega)
          · exact .inl (by omega)
          · exact .inr h
      · rw [scanRanges, if_neg hn]
        simp only [mem_cons, exists_eq_or_imp, mem_def, some.injEq,
          exists_eq_left', hn, Bool.false_eq_true, and_false, false_or]
        rw [ih (off + 1) none (by simp)]
        simp only [mem_def, reduceCtorEq, false_and, exists_false, false_or]
        have hr : b ≤ i ∧ i < b + (off - b) ↔ b ≤ i ∧ i < off := by omega
        rw [hr]

/-- Runs between `low` and `stop`, each behind a gap. -/
inductive Runs (stop : Nat) : Nat → List (Nat × Nat) → Prop
  | nil {low : Nat} : Runs stop low []
  | cons {low : Nat} {run : Nat × Nat} {runs : List (Nat × Nat)} (hlow : low ≤ run.1)
      (hlength : run.2 ≠ 0) (hstop : run.1 + run.2 ≤ stop)
      (hruns : Runs stop (run.1 + run.2 + 1) runs) : Runs stop low (run :: runs)

theorem Runs.mono {stop low low' : Nat} {runs : List (Nat × Nat)} (h : Runs stop low runs)
    (hle : low' ≤ low) : Runs stop low' runs := by
  cases h with
  | nil => exact .nil
  | cons hb hl hs hr => exact .cons (hle.trans hb) hl hs hr

theorem scanRanges_runs (inc : Nat → Bool) (rmn off : Nat) (fst : Option Nat)
    (hf : ∀ b ∈ fst, b < off) : Runs (off + rmn) (fst.getD off) (scanRanges inc rmn off fst) := by
  induction rmn generalizing off fst with
  | zero =>
    cases fst with
    | none => exact .nil
    | some b =>
      have hb := hf b rfl
      exact .cons le_rfl (by omega) (by omega) .nil
  | succ rmn ih =>
    have hi := ih (off + 1)
    rw [show off + 1 + rmn = off + (rmn + 1) by omega] at hi
    cases fst with
    | none =>
      rw [scanRanges]
      split
      · exact hi (some off) (by simp)
      · exact (hi none (by simp)).mono (Nat.le_succ off)
    | some b =>
      have hb := hf b rfl
      rw [scanRanges]
      split
      · exact hi (some b) (by simp; omega)
      · exact .cons le_rfl (by omega) (by omega) ((hi none (by simp)).mono (by simp; omega))

section
variable {stop low : Nat} {runs : List (Nat × Nat)}

/-- The runs stand in order. -/
theorem Runs.sorted (h : Runs stop low runs) :
    runs.Pairwise (fun run later => run.1 + run.2 < later.1) ∧ ∀ run ∈ runs, low ≤ run.1 := by
  induction h with
  | nil => simp
  | cons hb hl hs _ ih =>
    refine ⟨pairwise_cons.mpr ⟨ih.2, ih.1⟩, ?_⟩
    intro run hr
    rcases mem_cons.mp hr with rfl | hr
    · exact hb
    · have := ih.2 run hr
      omega

theorem Runs.bounded (h : Runs stop low runs) :
    (runs.map Prod.snd).sum ≤ stop - low ∧ runs.length ≤ (stop - low + 1) / 2 := by
  induction h with
  | nil => simp
  | cons hb hl hs _ ih =>
    simp only [map_cons, sum_cons, length_cons]
    omega

end

theorem pageBytes_length (pg : Page) (off length : Nat) :
    (pageBytes pg off length).length = length := by
  simp [pageBytes]

theorem validateRanges_cons {kind : WalErrorKind} {pe : Option Nat} {rg : PageByteRange}
    {rgs : List PageByteRange} :
    validateRanges kind ex pe (rg :: rgs) = .ok () ↔
      (rg.length ≠ 0 ∧ rg.offset < pageSize ∧ rg.length ≤ pageSize - rg.offset) ∧
        (∀ last ∈ pe, last < rg.offset) ∧
        (rg.beforeBytes.length = rg.length ∧ rg.afterBytes.length = rg.length) ∧
        (ex = true ∨ ∀ byte ∈ rg.beforeBytes, byte = 0) ∧
        validateRanges kind ex (some (rg.offset + rg.length)) rgs = .ok () := by
  simp only [validateRanges, ok_iff, exists_const]

private theorem pageBytes_zero (off length : Nat) (byte : UInt8)
    (h : byte ∈ pageBytes zero off length) : byte = 0 := by
  simp only [pageBytes, byteAt_zero, mem_map] at h
  obtain ⟨_, _, rfl⟩ := h
  rfl

private theorem validateRanges_slices (kind : WalErrorKind) (hn : ex = true ∨ bef = zero)
    {low : Nat} {runs : List (Nat × Nat)} {pe : Option Nat} (h : Runs pageSize low runs)
    (hp : ∀ last ∈ pe, last < low) :
    validateRanges kind ex pe (runs.map (sliceRange bef aft)) = .ok () := by
  induction h generalizing pe with
  | nil => rfl
  | @cons low run runs hb hl hs _ ih =>
    refine validateRanges_cons.mpr ⟨?_, fun last hm => (hp last hm).trans_le hb, ?_, ?_,
      ih (by simp [sliceRange])⟩
    · simp only [sliceRange]
      omega
    · simp [sliceRange, pageBytes_length]
    · rcases hn with h | rfl
      · exact .inl h
      · exact .inr (pageBytes_zero run.1 run.2)

theorem computePageDelta_ne_nil (hs : ∃ i, i < pageSize ∧ deltaIncludes bef aft req i = true) :
    computePageDelta bef aft req ≠ [] := by
  intro hn
  obtain ⟨i, hi, hin⟩ := hs
  have hc := (scanRanges_covers (deltaIncludes bef aft req) pageSize 0 none
    (by simp) i).mpr (.inr ⟨Nat.zero_le i, by omega, hin⟩)
  obtain ⟨run, hr, _⟩ := hc
  rw [computePageDelta, map_eq_nil_iff] at hn
  simp [hn] at hr

theorem runs_computePageDelta (bef aft : Page) (req : Nat → Bool) :
    Runs pageSize 0 (scanRanges (deltaIncludes bef aft req) pageSize 0 none) := by
  simpa using scanRanges_runs (deltaIncludes bef aft req) pageSize 0 none (by simp)

theorem length_computePageDelta (bef aft : Page) (req : Nat → Bool) :
    (computePageDelta bef aft req).length ≤ (pageSize + 1) / 2 := by
  rw [computePageDelta, length_map]
  exact (runs_computePageDelta bef aft req).bounded.2

/-- A delta that is not empty passes every payload check; the before-image of a page
that did not exist has to be the zero page. -/
theorem validateDeltaRanges_of_ne_nil (kind : WalErrorKind) (hi : pid ≠ invalidPageId)
    (hn : ex = true ∨ bef = zero) (hs : computePageDelta bef aft req ≠ []) :
    validateDeltaRanges ⟨pid, ex, computePageDelta bef aft req⟩ kind = .ok () := by
  have hc : computePageDelta bef aft req ≠ [] ∧
      (computePageDelta bef aft req).length ≤ (pageSize + 1) / 2 :=
    ⟨hs, length_computePageDelta bef aft req⟩
  have hr : validateRanges kind ex none (computePageDelta bef aft req) = .ok () :=
    validateRanges_slices kind hn (runs_computePageDelta bef aft req) (by simp)
  simp only [validateDeltaRanges, require_of _ hi, require_of _ hc, ok_bind, hr]

theorem overlay_of_slices (pg source : Page) (inc : Nat → Bool) :
    (scanRanges inc pageSize 0 none).foldl
      (fun pg run => writeBytes pg run.1 (pageBytes source run.1 run.2)) pg =
      overlay pg source inc := by
  apply eq_of_byteAt
  intro i hi
  rw [byteAt_foldl_slices, byteAt_overlay]
  have hc := scanRanges_covers inc pageSize 0 none (by simp) i
  simp only [mem_def, reduceCtorEq, false_and, exists_false, Nat.zero_le, true_and,
    zero_add, hi, false_or] at hc
  simp only [hc]

theorem applyPageDeltaAfter_computePageDelta {pg : Page} {q : Page}
    (h : applyPageDeltaAfter pg ⟨pid, ex, computePageDelta bef aft req⟩ =
      .ok q) : q = overlay pg aft (deltaIncludes bef aft req) := by
  simp only [applyPageDeltaAfter, ok_iff] at h
  obtain ⟨_, _, rfl⟩ := h
  rw [computePageDelta, foldl_map]
  exact overlay_of_slices pg aft _

theorem applyPageDeltaBefore_computePageDelta {pg : Page} {q : Page}
    (h : applyPageDeltaBefore pg ⟨pid, ex, computePageDelta bef aft req⟩ =
      .ok q) : q = overlay pg bef (deltaIncludes bef aft req) := by
  simp only [applyPageDeltaBefore, ok_iff] at h
  obtain ⟨_, _, rfl⟩ := h
  rw [computePageDelta, foldl_map]
  exact overlay_of_slices pg bef _

end MiniDb
