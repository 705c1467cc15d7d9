import MiniDb.PageLsn

/-!
The logical contents of a page: its bytes with the PageLSN slot cleared.
The slot accessors of the code are characterised here once, by three total
functions (`normalized`, `stamped` and `slotValue`) and the recognition
predicate; nothing later looks at the layouts again. Every slot lies behind
the twenty bytes that decide the page type, so writing a slot moves no slot.
-/
namespace MiniDb
open ByteBlock Outcome

variable {lsn off : Nat} {a b pg : Page}

def Recognised (page : Page) : Prop := ∃ slot, persistentPageLsnSlot page = .ok slot

def pageLsnSlot (page : Page) : Option Nat :=
  match persistentPageLsnSlot page with
  | .ok (some slot) => some slot.offset
  | _ => none

def normalized (page : Page) : Page :=
  match pageLsnSlot page with
  | some offset => writeUint64 page offset 0
  | none => page

def stamped (page : Page) (lsn : Nat) : Page :=
  match pageLsnSlot page with
  | some offset => writeUint64 page offset lsn
  | none => page

def slotValue (page : Page) : Nat :=
  match pageLsnSlot page with
  | some offset => readUint64 page offset
  | none => 0

def knownLsn (page : Page) : Option Nat :=
  if slotValue page = 0 then none else some (slotValue page)

/-- Two images with the same bytes outside their PageLSN slots. -/
def SameContents (a b : Page) : Prop := normalized a = normalized b

theorem SameContents.refl (a : Page) : SameContents a a := rfl

theorem SameContents.symm (h : SameContents a b) : SameContents b a := Eq.symm h

theorem SameContents.trans {c : Page} (ha : SameContents a b) (hb : SameContents b c) :
    SameContents a c := Eq.trans ha hb

theorem byteAt_of_hasMagic {pg : Page} {magic : List Char} (h : hasMagic pg magic = true)
    {i : Nat} {byte : UInt8} (hi : (magicBytes magic)[i]? = some byte) : byteAt pg i = byte := by
  simp only [hasMagic, List.all_eq_true, beq_iff_eq] at h
  exact h (byte, i) (List.mem_zipIdx_iff_getElem?.mpr hi)

theorem hasMagic_congr {magic : List Char} (h : ∀ i, i < magic.length → byteAt a i = byteAt b i) :
    hasMagic a magic = hasMagic b magic := by
  unfold hasMagic
  rw [Bool.eq_iff_iff, List.all_eq_true, List.all_eq_true]
  refine forall₂_congr ?_
  rintro ⟨byte, i⟩ hm
  have hi := (List.mem_zipIdx' hm).1
  rw [magicBytes, List.length_map] at hi
  simp only [h i hi]

private theorem readUint32_congr (h : ∀ i, i < 20 → byteAt a i = byteAt b i) (ho : off + 4 ≤ 20) :
    readUint32 a off = readUint32 b off :=
  readLe_congr fun i _ hi => h i (by omega)

theorem persistentPageLsnSlot_congr (h : ∀ i, i < 20 → byteAt a i = byteAt b i) :
    persistentPageLsnSlot a = persistentPageLsnSlot b := by
  have hm : ∀ magic : List Char, magic.length ≤ 20 → hasMagic a magic = hasMagic b magic :=
    fun _ hn => hasMagic_congr fun i hi => h i (hi.trans_le hn)
  have h8 : readUint32 a 8 = readUint32 b 8 := readUint32_congr h (by omega)
  have h12 : readUint32 a 12 = readUint32 b 12 := readUint32_congr h (by omega)
  have h16 : readUint32 a 16 = readUint32 b 16 := readUint32_congr h (by omega)
  have hl : ∀ lay, layoutSlot lay a = layoutSlot lay b := by
    intro lay
    simp only [layoutSlot, requireUint32, h8, h12]
  simp only [persistentPageLsnSlot, databaseMetadataSlot, bplusLeafSlot, requireUint32,
    hl, h8, h12, h16, hm _ (by decide : databaseMagic.length ≤ 20),
    hm _ (by decide : freeLayout.magic.length ≤ 20),
    hm _ (by decide : slottedLayout.magic.length ≤ 20),
    hm _ (by decide : tupleHeapMetadataLayout.magic.length ≤ 20),
    hm _ (by decide : indexMetadataLayout.magic.length ≤ 20),
    hm _ (by decide : bplusLeafLayout.magic.length ≤ 20),
    hm _ (by decide : bplusInternalLayout.magic.length ≤ 20),
    hm _ (by decide : catalogMetadataLayout.magic.length ≤ 20)]

theorem persistentPageLsnSlot_bounds {slot : PersistentPageLsnSlot}
    (h : persistentPageLsnSlot pg = .ok (some slot)) : 20 ≤ slot.offset ∧ slot.offset ≤ 40 := by
  have hl : ∀ lay : PageLayout, 20 ≤ lay.slotOffset → lay.slotOffset ≤ 40 →
      layoutSlot lay pg = .ok (some slot) → 20 ≤ slot.offset ∧ slot.offset ≤ 40 := by
    intro lay ho hh hk
    simp only [layoutSlot, ok_iff, Option.some.injEq] at hk
    obtain ⟨_, _, _, _, rfl⟩ := hk
    exact ⟨ho, hh⟩
  unfold persistentPageLsnSlot at h
  split at h
  · simp only [databaseMetadataSlot, bind_ok] at h
    obtain ⟨_, _, _, _, h⟩ := h
    split at h
    · simp at h
    · simp only [pure_ok, Option.some.injEq] at h
      subst h
      decide
  split at h
  · exact hl _ (by decide) (by decide) h
  split at h
  · exact hl _ (by decide) (by decide) h
  split at h
  · exact hl _ (by decide) (by decide) h
  split at h
  · exact hl _ (by decide) (by decide) h
  split at h
  · unfold bplusLeafSlot at h
    split at h
    · simp at h
    · exact hl _ (by decide) (by decide) h
  split at h
  · exact hl _ (by decide) (by decide) h
  split at h
  · exact hl _ (by decide) (by decide) h
  · simp at h

theorem pageLsnSlot_bounds (h : pageLsnSlot pg = some off) : 20 ≤ off ∧ off ≤ 40 := by
  unfold pageLsnSlot at h
  split at h
  · rename_i slot hs
    simp only [Option.some.injEq] at h
    exact h ▸ persistentPageLsnSlot_bounds hs
  · simp at h

theorem pageLsnSlot_congr (h : persistentPageLsnSlot a = persistentPageLsnSlot b) :
    pageLsnSlot a = pageLsnSlot b := by
  simp only [pageLsnSlot, h]

theorem stamped_of_slot (h : pageLsnSlot pg = some off) (lsn : Nat) :
    stamped pg lsn = writeUint64 pg off lsn := by
  simp only [stamped, h]

theorem stamped_of_no_slot (h : pageLsnSlot pg = none) (lsn : Nat) : stamped pg lsn = pg := by
  simp only [stamped, h]

theorem slotValue_of_slot (h : pageLsnSlot pg = some off) : slotValue pg = readUint64 pg off := by
  simp only [slotValue, h]

theorem slotValue_of_no_slot (h : pageLsnSlot pg = none) : slotValue pg = 0 := by
  simp only [slotValue, h]

@[simp] theorem persistentPageLsnSlot_stamped (pg : Page) (lsn : Nat) :
    persistentPageLsnSlot (stamped pg lsn) = persistentPageLsnSlot pg := by
  unfold stamped
  split
  · rename_i off hs
    have hb := (pageLsnSlot_bounds hs).1
    exact persistentPageLsnSlot_congr fun i hi => byteAt_writeLe_outside pg (by omega)
  · rfl

@[simp] theorem pageLsnSlot_stamped (pg : Page) (lsn : Nat) :
    pageLsnSlot (stamped pg lsn) = pageLsnSlot pg :=
  pageLsnSlot_congr (persistentPageLsnSlot_stamped pg lsn)

@[simp] theorem stamped_stamped (pg : Page) (lsn lsn' : Nat) :
    stamped (stamped pg lsn) lsn' = stamped pg lsn' := by
  have hm := pageLsnSlot_stamped pg lsn
  cases hs : pageLsnSlot pg with
  | none => rw [stamped_of_no_slot (hm.trans hs), stamped_of_no_slot hs, stamped_of_no_slot hs]
  | some off =>
    rw [stamped_of_slot (hm.trans hs), stamped_of_slot hs, stamped_of_slot hs]
    exact writeLe_writeLe_same pg off 8 lsn lsn'

@[simp] theorem normalized_stamped (pg : Page) (lsn : Nat) :
    normalized (stamped pg lsn) = normalized pg :=
  stamped_stamped pg lsn 0

@[simp] theorem normalized_normalized (pg : Page) : normalized (normalized pg) = normalized pg :=
  stamped_stamped pg 0 0

theorem slotValue_stamped (hs : pageLsnSlot pg = some off) (hl : lsn < 2 ^ 64) :
    slotValue (stamped pg lsn) = lsn := by
  have hb := pageLsnSlot_bounds hs
  rw [slotValue_of_slot ((pageLsnSlot_stamped pg lsn).trans hs), stamped_of_slot hs]
  simp only [readUint64, writeUint64]
  rw [readLe_writeLe_same pg (by simp only [pageSize]; omega)]
  exact Nat.mod_eq_of_lt (by simpa using hl)

theorem sameContents_stamped (pg : Page) (lsn : Nat) : SameContents (stamped pg lsn) pg :=
  normalized_stamped pg lsn

theorem sameContents_normalized (pg : Page) : SameContents (normalized pg) pg :=
  normalized_normalized pg

theorem persistentPageLsnSlot_of_slot (h : pageLsnSlot pg = some off) :
    ∃ slot, persistentPageLsnSlot pg = .ok (some slot) ∧ slot.offset = off := by
  unfold pageLsnSlot at h
  split at h
  · rename_i slot hs
    simp only [Option.some.injEq] at h
    exact ⟨slot, hs, h⟩
  · simp at h

theorem supportsPersistentPageLsn_ok {b : Bool} :
    supportsPersistentPageLsn pg = .ok b ↔ Recognised pg ∧ b = (pageLsnSlot pg).isSome := by
  simp only [supportsPersistentPageLsn, ok_iff]
  constructor
  · rintro ⟨slot, hs, rfl⟩
    refine ⟨⟨slot, hs⟩, ?_⟩
    cases slot <;> simp [pageLsnSlot, hs]
  · rintro ⟨⟨slot, hs⟩, rfl⟩
    refine ⟨slot, hs, ?_⟩
    cases slot <;> simp [pageLsnSlot, hs]

theorem clearPersistentPageLsn_ok {q : Page} :
    clearPersistentPageLsn pg = .ok q ↔ Recognised pg ∧ q = normalized pg := by
  simp only [clearPersistentPageLsn, bind_ok]
  constructor
  · rintro ⟨slot, hs, h⟩
    refine ⟨⟨slot, hs⟩, ?_⟩
    cases slot <;> simp_all [normalized, pageLsnSlot]
  · rintro ⟨⟨slot, hs⟩, rfl⟩
    refine ⟨slot, hs, ?_⟩
    cases slot <;> simp [normalized, pageLsnSlot, hs]

theorem writePersistentPageLsn_ok {q : Page} :
    writePersistentPageLsn pg (some lsn) = .ok q ↔
      (pageLsnSlot pg).isSome ∧ lsn ≠ 0 ∧ q = stamped pg lsn := by
  simp only [writePersistentPageLsn, bind_ok]
  constructor
  · rintro ⟨slot, hs, h⟩
    cases slot with
    | none => simp at h
    | some s =>
      simp only [encodePersistentPageLsn, ok_iff] at h
      obtain ⟨enc, ⟨_, hne, rfl⟩, rfl⟩ := h
      simp [pageLsnSlot, stamped, hs, hne]
  · rintro ⟨hm, hne, rfl⟩
    obtain ⟨off, ho⟩ := Option.isSome_iff_exists.mp hm
    obtain ⟨slot, hs, rfl⟩ := persistentPageLsnSlot_of_slot ho
    refine ⟨some slot, hs, ?_⟩
    simp [encodePersistentPageLsn, hne, stamped, ho, require]

theorem readPersistentPageLsn_ok {r : Option Nat} :
    readPersistentPageLsn pg = .ok r ↔
      Recognised pg ∧ slotValue pg ≠ invalidLsn ∧ r = knownLsn pg := by
  have hd : ∀ v r, decodePersistentPageLsn v = .ok r ↔
      v ≠ invalidLsn ∧ r = if v = 0 then none else some v := by
    intro v r
    unfold decodePersistentPageLsn
    by_cases hz : v = 0
    · rw [if_pos hz, if_pos hz, pure_ok, eq_comm]
      simp [hz, invalidLsn]
    · rw [if_neg hz, if_neg hz]
      simp only [ok_iff]
      rw [exists_const, eq_comm]
  have hn : (0 : Nat) ≠ invalidLsn := by decide
  simp only [readPersistentPageLsn, bind_ok]
  constructor
  · rintro ⟨slot, hs, h⟩
    refine ⟨⟨slot, hs⟩, ?_⟩
    cases slot with
    | none =>
      have hv : slotValue pg = 0 := slotValue_of_no_slot (by simp [pageLsnSlot, hs])
      simp only [pure_ok] at h
      simp [knownLsn, hv, hn, ← h]
    | some s =>
      have hv : slotValue pg = readUint64 pg s.offset :=
        slotValue_of_slot (by simp [pageLsnSlot, hs])
      simp only [hd, ← hv] at h
      exact h
  · rintro ⟨⟨slot, hs⟩, hne, rfl⟩
    refine ⟨slot, hs, ?_⟩
    cases slot with
    | none =>
      have hv : slotValue pg = 0 := slotValue_of_no_slot (by simp [pageLsnSlot, hs])
      simp [knownLsn, hv]
    | some s =>
      have hv : slotValue pg = readUint64 pg s.offset :=
        slotValue_of_slot (by simp [pageLsnSlot, hs])
      simp only [hd, ← hv]
      exact ⟨hne, rfl⟩

theorem knownLsn_stamped (hs : (pageLsnSlot pg).isSome) (hp : lsn ≠ 0) (hl : lsn < 2 ^ 64) :
    knownLsn (stamped pg lsn) = some lsn := by
  obtain ⟨off, ho⟩ := Option.isSome_iff_exists.mp hs
  simp [knownLsn, slotValue_stamped ho hl, hp]

theorem zero_untyped : persistentPageLsnSlot zero = .ok none := by decide

end MiniDb
