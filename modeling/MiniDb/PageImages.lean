import MiniDb.Foundation.BlockFields
import MiniDb.PageContents

/-!
Pages with integer fields behind a magic and zero bytes behind those. What a page is read
as determines it, so a writer and a reader agree once both are related to one layout.
-/
namespace MiniDb
open ByteBlock ByteString Outcome

def ZeroBytes (page : Page) (first stop : Nat) : Prop :=
  ∀ i < stop, first ≤ i → byteAt page i = 0

instance (page : Page) (first stop : Nat) : Decidable (ZeroBytes page first stop) :=
  inferInstanceAs (Decidable (∀ i < stop, first ≤ i → byteAt page i = 0))

def magicPage (magic : List Char) : Page := writeBytes zero 0 (magicBytes magic)

/-- The page has the magic, is read as the layout, and is zero behind it. -/
structure Image (magic : List Char) (layout : List (Nat × Nat)) (page : Page) : Prop where
  magic : ∀ i < 8, byteAt page i = byteAt (magicPage magic) i
  reads : Reads page 8 layout
  unused : ZeroBytes page (8 + widths layout) pageSize

variable {lsn off v w : Nat} {a b pg : Page} {magic : List Char} {lay : List (Nat × Nat)}

theorem magicPage_of_hasMagic (hl : magic.length = 8) (h : hasMagic pg magic = true) {i : Nat}
    (hi : i < 8) : byteAt pg i = byteAt (magicPage magic) i := by
  have hb : (magicBytes magic)[i]? = some ((magicBytes magic).getD i 0) := by
    rw [List.getD_eq_getElem?_getD,
      List.getElem?_eq_getElem (by rwa [magicBytes, List.length_map, hl])]
    rfl
  rw [byteAt_of_hasMagic h hb, magicPage, byteAt_writeBytes,
    if_pos ⟨Nat.zero_le i, hi.trans (by decide)⟩, Nat.sub_zero, hb, Option.getD_some]

theorem hasMagic_writeLayout (hl : magic.length ≤ off) :
    hasMagic (writeLayout pg off lay) magic = hasMagic pg magic :=
  hasMagic_congr fun _ hi => byteAt_writeLayout (.inl (hi.trans_le hl))

theorem Image.written (hl : magic.length = 8) (hv : ∀ field ∈ lay, field.2 < 256 ^ field.1)
    (hn : 8 + widths lay ≤ pageSize) : Image magic lay (writeLayout (magicPage magic) 8 lay) := by
  refine ⟨fun i hi => byteAt_writeLayout (.inl hi), reads_writeLayout hv hn, fun i _ hi => ?_⟩
  have h8 : 0 + (magicBytes magic).length ≤ i := by
    rw [magicBytes, List.length_map]
    omega
  rw [byteAt_writeLayout (.inr hi), magicPage, byteAt_writeBytes_outside _ (.inr h8), byteAt_zero]

theorem readLe_of_zeroBytes {stop : Nat} (h : ZeroBytes pg off stop) (hn : off + w ≤ stop) :
    ByteBlock.readLe pg off w = 0 := by
  have hz : ByteBlock.readLe (zero : Page) off w = 0 := by
    simp [ByteBlock.readLe, zero, Block.bits]
  rw [← hz]
  exact readLe_congr fun i hl hh => (h i (by omega) hl).trans (byteAt_zero i).symm

theorem Image.padded (h : Image magic lay pg) (hn : 8 + widths lay + w ≤ pageSize) :
    Image magic (lay ++ [(w, 0)]) pg := by
  refine ⟨h.magic, reads_append.mpr ⟨h.reads, readLe_of_zeroBytes h.unused hn, trivial⟩, ?_⟩
  exact fun i hi hl => h.unused i hi (by rw [widths_append] at hl; omega)

theorem Image.stamped {bef aft : List (Nat × Nat)} (h : Image magic (bef ++ (8, lsn) :: aft) pg)
    (hv : v < invalidLsn) (hn : 8 + widths bef + 8 ≤ pageSize) :
    Image magic (bef ++ (8, v) :: aft) (writeUint64 pg (8 + widths bef) v) := by
  have hw : widths (bef ++ (8, lsn) :: aft) = widths (bef ++ (8, v) :: aft) := by
    simp [widths]
  have hl : 8 + widths bef + 8 ≤ 8 + widths (bef ++ (8, v) :: aft) := by
    simp [widths]
    omega
  refine ⟨fun i hi => ?_, h.reads.write (hv.trans (by decide)) hn, fun i hi hle => ?_⟩
  · rw [writeUint64, byteAt_writeLe_outside pg (by omega), h.magic i hi]
  · rw [writeUint64, byteAt_writeLe_outside pg (by omega), h.unused i hi (hw ▸ hle)]

theorem Image.unique (ha : Image magic lay a) (hb : Image magic lay b) : a = b := by
  refine eq_of_byteAt fun i hi => ?_
  by_cases h8 : i < 8
  · rw [ha.magic i h8, hb.magic i h8]
  · by_cases hl : i < 8 + widths lay
    · exact ha.reads.byteAt_eq hb.reads (by omega) hl
    · rw [ha.unused i hi (by omega), hb.unused i hi (by omega)]

theorem Image.hasMagic_eq {other : List Char} (h : Image magic lay pg) (hl : other.length = 8) :
    hasMagic pg other = hasMagic (magicPage magic) other :=
  hasMagic_congr fun i hi => h.magic i (hl ▸ hi)

theorem layoutSlot_of {lay : PageLayout} (h8 : readUint32 pg 8 = lay.version)
    (h12 : readUint32 pg 12 = lay.headerSize) :
    layoutSlot lay pg = .ok (some ⟨lay.pageType, lay.slotOffset⟩) := by
  rw [layoutSlot, requireUint32, require_of _ h8, requireUint32, require_of _ h12]
  rfl

theorem decode_lsn (h : lsn ≠ invalidLsn) : ∃ l, decodePersistentPageLsn lsn = .ok l := by
  unfold decodePersistentPageLsn
  split
  · exact ⟨_, rfl⟩
  · rw [require_of _ h]
    exact ⟨_, rfl⟩

end MiniDb
