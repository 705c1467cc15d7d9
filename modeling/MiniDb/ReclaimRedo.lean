import MiniDb.PageReclaim

/-!
Replay of a page reclamation. A PAGE_RECLAIM record changes two pages, the reclaimed page
and page 0, and either write may be the last one that reached the file. Each page is in
its state before the record or in the state the record leaves; a replay finds out which,
completes what is missing and leaves the rest alone.
-/
namespace MiniDb
open ByteBlock ByteString Outcome DiskManager

variable {lsn pid : Nat} {pg : Page}

/-! `redoPageReclaim` with its counters, its two write orders and interruptions. -/

structure ReclaimRedoStats where
  writes : Nat
  skips : Nat
  deriving DecidableEq, Repr

/-- The image `apply` writes to one of the two pages, and `none` where it skips. -/
def plannedImage (payload : PageReclaimPayload) (lsn : Nat)
    (knownLaterState : Nat → Option Nat → Bool) (disk : DiskManager) (pageId : Nat) :
    Result (Option Page) := do
  let page ← disk.readPhysicalPage pageId
  let current ← readPersistentPageLsn page
  if current = none ∧ knownLaterState pageId none then return none
  else if ∃ later ∈ current, lsn < later then do
    require (knownLaterState pageId current)
      (corruptRecord "PAGE_RECLAIM unknown later page identity")
    return none
  else reclaimImage payload lsn pageId page current

abbrev RedoState := DiskManager × ReclaimRedoStats

def applyCounted (payload : PageReclaimPayload) (lsn : Nat)
    (knownLaterState : Nat → Option Nat → Bool) (s : RedoState) (pageId : Nat) :
    Result RedoState := do
  match ← plannedImage payload lsn knownLaterState s.1 pageId with
  | none => return (s.1, { s.2 with skips := s.2.skips + 1 })
  | some image => do
      let disk ← s.1.writePhysicalPage pageId image
      return (disk, { s.2 with writes := s.2.writes + 1 })

/-- An execution that is interrupted does nothing more once it has made so many writes. -/
def applyUntil (interruption : Option Nat) (payload : PageReclaimPayload) (lsn : Nat)
    (knownLaterState : Nat → Option Nat → Bool) (s : RedoState) (pageId : Nat) : Result RedoState :=
  if interruption = some s.2.writes then .ok s
  else applyCounted payload lsn knownLaterState s pageId

/-- `MINIDB_RECLAIM_PAGE0_FIRST` inverts the order of the two pages. -/
def redoOrder (metadataFirst : Bool) (payload : PageReclaimPayload) : List Nat :=
  if metadataFirst then [0, payload.page] else [payload.page, 0]

def redoPageReclaimUntil (metadataFirst : Bool) (interruption : Option Nat) (disk : DiskManager)
    (record : LogRecord) (knownLaterState : Nat → Option Nat → Bool) : Result RedoState := do
  let payload ← decodePageReclaim record
  require (payload.pageCount ≤ disk.pageCount)
    (corruptRecord "PAGE_RECLAIM cannot extend a missing physical extent")
  let metadata ← disk.readPhysicalPage 0
  requireNotCatalogRoot payload record.lsn metadata
  (redoOrder metadataFirst payload).foldlM
    (applyUntil interruption payload record.lsn knownLaterState) (disk, ⟨0, 0⟩)

theorem applyReclaim_eq_plannedImage (pl : PageReclaimPayload) (lsn : Nat)
    (known : Nat → Option Nat → Bool) (disk : DiskManager) (pid : Nat) :
    applyReclaim pl lsn known disk pid =
      plannedImage pl lsn known disk pid >>= writeImage disk pid := by
  simp only [applyReclaim, plannedImage, bind_assoc]
  refine bind_congr fun pg => bind_congr fun cur => ?_
  split
  · rfl
  · split
    · rw [bind_assoc]
      rfl
    · rfl

theorem applyCounted_disk (pl : PageReclaimPayload) (lsn : Nat)
    (known : Nat → Option Nat → Bool) (s : RedoState) (pid : Nat) :
    Prod.fst <$> applyCounted pl lsn known s pid = applyReclaim pl lsn known s.1 pid := by
  rw [applyReclaim_eq_plannedImage, applyCounted, map_bind]
  refine bind_congr fun img => ?_
  cases img with
  | none => rfl
  | some img => exact (map_bind ..).trans (bind_pure _)

/-- The replay recovery runs: the target first, and to its end. -/
theorem redoPageReclaimUntil_disk (disk : DiskManager) (r : LogRecord)
    (known : Nat → Option Nat → Bool) :
    Prod.fst <$> redoPageReclaimUntil false none disk r known = redoPageReclaim disk r known := by
  simp only [redoPageReclaimUntil, redoPageReclaim, map_bind]
  refine bind_congr fun pl => bind_congr fun _ => bind_congr fun metadata => bind_congr fun _ => ?_
  show Prod.fst <$> (applyCounted pl r.lsn known (disk, ⟨0, 0⟩) pl.page >>=
    fun s => applyCounted pl r.lsn known s 0 >>= pure) = _
  rw [map_bind, ← applyCounted_disk pl r.lsn known (disk, ⟨0, 0⟩) pl.page, bind_map_left]
  refine bind_congr fun s => ?_
  rw [bind_pure, applyCounted_disk]

/-! The two images a reclamation leaves. -/

/-- A free page from the version field on. -/
def freeFields (next : Nat) : List (Nat × Nat) :=
  [(4, freeLayout.version), (4, freeLayout.headerSize), (4, next)]

theorem freePageImage_image {next : Nat} (h : next < 256 ^ 4) :
    Image freeLayout.magic (freeFields next ++ [(8, 0)]) (freePageImage next) := by
  have hw : widths (freeFields next) = 12 := rfl
  have hv : ∀ field ∈ freeFields next, field.2 < 256 ^ field.1 := by
    simpa [freeFields, freeLayout] using h
  exact (Image.written rfl hv (by rw [hw]; decide)).padded (by rw [hw]; decide)

variable {rest : List (Nat × Nat)}

theorem slot_of_free {next : Nat} (h : Image freeLayout.magic (freeFields next ++ rest) pg) :
    persistentPageLsnSlot pg = .ok (some ⟨.free, 20⟩) := by
  rw [persistentPageLsnSlot, h.hasMagic_eq rfl, if_neg (by decide +kernel), h.hasMagic_eq rfl,
    if_pos (by decide +kernel)]
  exact layoutSlot_of h.reads.1 h.reads.2.1

/-- A free page is read as such by the allocator, whatever PageLSN it has. -/
theorem nextFreePageId_of_image {disk : DiskManager} {next : Nat}
    (h : Image freeLayout.magic (freeFields next ++ [(8, lsn)]) pg) (hl : lsn ≠ invalidLsn)
    (hn : next ≠ invalidPageId → next ≠ 0 ∧ next < disk.pageCount) :
    nextFreePageId disk pg = .ok next := by
  obtain ⟨h8, h12, h16, h20, _⟩ : readUint32 pg 8 = freeLayout.version ∧
    readUint32 pg 12 = freeLayout.headerSize ∧ readUint32 pg 16 = next ∧
    readUint64 pg 20 = lsn ∧ True := h.reads
  have hm : hasMagic pg freeLayout.magic = true := by
    rw [h.hasMagic_eq rfl]
    decide +kernel
  have hz : ByteBlock.readLe pg 28 (pageSize - 28) = 0 := readLe_of_zeroBytes h.unused (by decide)
  obtain ⟨l, hd⟩ := decode_lsn hl
  have hr : readPersistentPageLsn pg = .ok l := by
    rw [readPersistentPageLsn, slot_of_free h]
    exact (congrArg decodePersistentPageLsn h20).trans hd
  rw [nextFreePageId, require_of _ hm, ok_bind, require_of _ h8, ok_bind, require_of _ h12, ok_bind,
    require_of _ hz, ok_bind, hr, ok_bind, h16]
  show (fun _ => next) <$> (if next ≠ invalidPageId then
    requireExistingListPage disk next "Next free-page ID" else .ok ()) = .ok next
  by_cases hi : next = invalidPageId
  · rw [if_neg (not_not_intro hi)]
    rfl
  · rw [if_pos hi, requireExistingListPage, require_of _ ⟨(hn hi).1, hi, (hn hi).2⟩]
    rfl

/-- What a header on disk satisfies besides its format version. -/
structure HeaderReadable (header : DatabaseHeader) : Prop where
  version : header.formatVersion = 2
  page : header.pageSize = pageSize
  size : header.headerSize = 64
  catalogRoot : header.catalogRootPageId < 256 ^ 4
  freeListRoot : header.freeListRootPageId < 256 ^ 4

variable {hdr : DatabaseHeader}

theorem HeaderReadable.of_deserialize (h : deserializeDatabaseHeader pg = .ok hdr)
    (hver : hdr.formatVersion = 2) : HeaderReadable hdr := by
  simp only [deserializeDatabaseHeader, ok_iff] at h
  obtain ⟨_, _, _, _, _, hg, _, hs, _, _, _, _, rfl⟩ := h
  exact ⟨hver, hg, hs, readLe_lt pg 20 4, readLe_lt pg 24 4⟩

section Serialized
variable {hdr : DatabaseHeader} (h : HeaderReadable hdr)
include h

theorem HeaderReadable.image :
    Image databaseMagic (headerFields hdr ++ [(8, 0)]) (serializeDatabaseHeader hdr) := by
  refine serialize_image ?_
  simpa [headerFields, h.version, h.page, h.size, pageSize] using ⟨h.catalogRoot, h.freeListRoot⟩

theorem HeaderReadable.slot :
    persistentPageLsnSlot (serializeDatabaseHeader hdr) = .ok (some ⟨.databaseMetadata, 28⟩) := by
  have h8 : readUint32 (serializeDatabaseHeader hdr) 8 = 2 := h.image.reads.1.trans h.version
  have h16 : readUint32 (serializeDatabaseHeader hdr) 16 = 64 := h.image.reads.2.2.1.trans h.size
  simp only [persistentPageLsnSlot, hasMagic_serialize, if_true, databaseMetadataSlot,
    requireUint32]
  rw [require_of _ h16, ok_bind, h8, require_of _ (.inr rfl), ok_bind]
  rfl

/-- A header that was written with a PageLSN is read back. -/
theorem HeaderReadable.deserialize_stamped (hl : lsn < invalidLsn) :
    deserializeDatabaseHeader (stamped (serializeDatabaseHeader hdr) lsn) = .ok hdr := by
  have hs : pageLsnSlot (serializeDatabaseHeader hdr) = some 28 := by
    rw [pageLsnSlot, h.slot]
  have hi : Image databaseMagic (headerFields hdr ++ [(8, lsn)])
      (stamped (serializeDatabaseHeader hdr) lsn) := by
    rw [stamped_of_slot hs]
    exact h.image.stamped hl (show 36 ≤ _ by decide)
  generalize stamped (serializeDatabaseHeader hdr) lsn = pg at hi ⊢
  obtain ⟨h8, h12, h16, h20, h24, h28, _⟩ : readUint32 pg 8 = hdr.formatVersion ∧
    readUint32 pg 12 = hdr.pageSize ∧ readUint32 pg 16 = hdr.headerSize ∧
    readUint32 pg 20 = hdr.catalogRootPageId ∧ readUint32 pg 24 = hdr.freeListRootPageId ∧
    readUint64 pg 28 = lsn ∧ True := hi.reads
  have hm : hasMagic pg databaseMagic = true := by
    rw [hi.hasMagic_eq rfl]
    decide +kernel
  have hz : ByteBlock.readLe pg 36 (pageSize - 36) = 0 := readLe_of_zeroBytes hi.unused (by decide)
  have he : ¬ ((hdr.formatVersion = 1 ∧ lsn ≠ 0) ∨ lsn = invalidLsn) := by
    rw [h.version]
    omega
  rw [deserializeDatabaseHeader, require_of _ hm, ok_bind]
  simp only [h8, h12, h16, h20, h24, h28]
  rw [require_of _ (.inr h.version), ok_bind, require_of _ h.page, ok_bind, require_of _ h.size,
    ok_bind, require_of _ he, ok_bind, require_of _ hz, ok_bind]
  rfl

end Serialized

/-- A page is read as a header of the current format just when it is that header,
written with some PageLSN. -/
theorem header_codec_exact (pg : Page) (hdr : DatabaseHeader) :
    deserializeDatabaseHeader pg = .ok hdr ∧ hdr.formatVersion = 2 ↔
      HeaderReadable hdr ∧ ∃ lsn < invalidLsn, pg = stamped (serializeDatabaseHeader hdr) lsn := by
  constructor
  · rintro ⟨h, hver⟩
    have hr := HeaderReadable.of_deserialize h hver
    have hl : readUint64 pg 28 < invalidLsn := by
      simp only [deserializeDatabaseHeader, ok_iff] at h
      obtain ⟨_, _, _, _, _, _, _, _, _, hs, _⟩ := h
      exact Nat.lt_of_le_of_ne (Nat.le_of_lt_succ (readLe_lt pg 28 8)) fun he => hs (.inr he)
    refine ⟨hr, _, hl, (image_of_header h).1.unique ?_⟩
    rw [stamped_of_slot (by rw [pageLsnSlot, hr.slot])]
    exact hr.image.stamped hl (show 36 ≤ _ by decide)
  · rintro ⟨hr, lsn, hl, rfl⟩
    exact ⟨hr.deserialize_stamped hl, hr.version⟩

/-! Progress of a replay. -/

/-- The preconditions a PAGE_RECLAIM record logs. -/
structure ReclaimReady (disk : DiskManager) (record : LogRecord) (payload : PageReclaimPayload)
    (header : DatabaseHeader) : Prop where
  decoded : decodePageReclaim record = .ok payload
  word : record.lsn < 2 ^ 64
  extent : payload.pageCount ≤ disk.pageCount
  target : readPersistentPageLsn (disk.page payload.page) = .ok payload.beforePageLsn
  crc : crc32c (disk.page payload.page) = payload.beforeCrc
  metadata : deserializeDatabaseHeader (disk.page 0) = .ok header
  metadataLsn : readPersistentPageLsn (disk.page 0) = .ok payload.beforeMetadataLsn
  head : header.freeListRootPageId = payload.head
  notCatalogRoot : header.catalogRootPageId ≠ payload.page

def finalTarget (payload : PageReclaimPayload) (lsn : Nat) : Page :=
  stamped (freePageImage payload.head) lsn

def finalHeader (payload : PageReclaimPayload) (header : DatabaseHeader) : DatabaseHeader :=
  { header with freeListRootPageId := payload.page }

def finalMetadata (payload : PageReclaimPayload) (header : DatabaseHeader) (lsn : Nat) : Page :=
  stamped (serializeDatabaseHeader (finalHeader payload header)) lsn

def finalImage (payload : PageReclaimPayload) (header : DatabaseHeader) (lsn pageId : Nat) : Page :=
  if pageId = 0 then finalMetadata payload header lsn else finalTarget payload lsn

/-- Which of the two pages have their final image; nothing else has changed. -/
structure RedoProgress (start : DiskManager) (payload : PageReclaimPayload)
    (header : DatabaseHeader) (lsn : Nat) (done : Nat → Bool) (disk : DiskManager) : Prop where
  count : disk.pageCount = start.pageCount
  pages : ∀ pageId, disk.page pageId =
    if done pageId then finalImage payload header lsn pageId else start.page pageId
  only : ∀ pageId, done pageId = true → pageId = payload.page ∨ pageId = 0

/-- What a decoded record says about its numbers. -/
structure ReclaimBounds (record : LogRecord) (payload : PageReclaimPayload) : Prop where
  lsn : record.lsn ≠ invalidLsn ∧ walHeaderSize ≤ record.lsn
  page : payload.page ≠ 0 ∧ payload.page ≠ invalidPageId ∧ payload.page < payload.pageCount
  count : payload.pageCount ≤ invalidPageId
  head : payload.head = invalidPageId ∨ payload.head ≠ 0 ∧ payload.head < payload.pageCount
  beforePage : ∀ lsn ∈ payload.beforePageLsn, lsn < record.lsn
  beforeMetadata : ∀ lsn ∈ payload.beforeMetadataLsn, lsn < record.lsn

variable {pl : PageReclaimPayload} {r : LogRecord}

theorem ReclaimBounds.of_decode (h : decodePageReclaim r = .ok pl) : ReclaimBounds r pl := by
  unfold decodePageReclaim at h
  split at h
  · simp only [ok_iff, requireReclaimPayload] at h
    obtain ⟨_, ⟨_, _, hl⟩, _, ⟨hz, hi, hlt, hc, _, hh⟩, _, ⟨hg, ht⟩, rfl⟩ := h
    exact ⟨hl, ⟨hz, hi, hlt⟩, hc, hh, fun lsn hm => (hg lsn hm).2, fun lsn hm => (ht lsn hm).2⟩
  · simp at h

section Steps
variable {start disk : DiskManager} {r : LogRecord} {pl : PageReclaimPayload} {hdr : DatabaseHeader}
  {done : Nat → Bool}

/-- No page has a history after the record. -/
def noLaterState : Nat → Option Nat → Bool := fun _ _ => false

theorem RedoProgress.refl (start : DiskManager) (pl : PageReclaimPayload) (hdr : DatabaseHeader)
    (lsn : Nat) :
    RedoProgress start pl hdr lsn (fun _ => false) start := ⟨rfl, fun _ => rfl, nofun⟩

theorem ReclaimReady.lsn_lt (h : ReclaimReady start r pl hdr) : r.lsn < invalidLsn := by
  have hne := (ReclaimBounds.of_decode h.decoded).lsn.1
  have hw := h.word
  have hi : invalidLsn = 2 ^ 64 - 1 := rfl
  omega

theorem ReclaimReady.lsn_ne_zero (h : ReclaimReady start r pl hdr) : r.lsn ≠ 0 := by
  have hle := (ReclaimBounds.of_decode h.decoded).lsn.2
  have hs : walHeaderSize = 64 := rfl
  omega

theorem readPersistentPageLsn_stamped {slot : PersistentPageLsnSlot}
    (hs : persistentPageLsnSlot pg = .ok (some slot)) (hz : lsn ≠ 0) (hl : lsn < invalidLsn) :
    readPersistentPageLsn (stamped pg lsn) = .ok (some lsn) := by
  have ho : pageLsnSlot pg = some slot.offset := by
    rw [pageLsnSlot, hs]
  have hw : lsn < 2 ^ 64 := hl.trans_le (by decide)
  refine readPersistentPageLsn_ok.mpr ⟨?_, ?_, ?_⟩
  · exact ⟨some slot, by rw [persistentPageLsnSlot_stamped, hs]⟩
  · rw [slotValue_stamped ho hw]
    exact hl.ne
  · exact (knownLsn_stamped (by rw [ho]; rfl) hz hw).symm

variable (hready : ReclaimReady start r pl hdr)
include hready

theorem ReclaimReady.readable (hver : hdr.formatVersion = 2) :
    HeaderReadable (finalHeader pl hdr) := by
  obtain ⟨hver, hg, hs, ht, _⟩ := HeaderReadable.of_deserialize hready.metadata hver
  have hb := ReclaimBounds.of_decode hready.decoded
  refine ⟨hver, hg, hs, ht, ?_⟩
  show pl.page < 256 ^ 4
  have hlt := hb.page.2.2
  have hc := hb.count
  have hi : invalidPageId = 2 ^ 32 - 1 := rfl
  omega

theorem ReclaimReady.image_target :
    Image freeLayout.magic (freeFields pl.head ++ [(8, 0)]) (freePageImage pl.head) := by
  obtain ⟨_, _, hb, hh, _, _⟩ := ReclaimBounds.of_decode hready.decoded
  have hi : invalidPageId = 2 ^ 32 - 1 := rfl
  exact freePageImage_image (by omega)

theorem ReclaimReady.finalTarget_lsn :
    readPersistentPageLsn (finalTarget pl r.lsn) = .ok (some r.lsn) :=
  readPersistentPageLsn_stamped (slot_of_free hready.image_target) hready.lsn_ne_zero hready.lsn_lt

theorem ReclaimReady.finalMetadata_lsn (hver : hdr.formatVersion = 2) :
    readPersistentPageLsn (finalMetadata pl hdr r.lsn) = .ok (some r.lsn) :=
  readPersistentPageLsn_stamped (hready.readable hver).slot hready.lsn_ne_zero hready.lsn_lt

theorem ReclaimReady.reclaimedPage_eq : reclaimedPage pl r.lsn = .ok (finalTarget pl r.lsn) := by
  refine writePersistentPageLsn_ok.mpr ⟨?_, hready.lsn_ne_zero, rfl⟩
  rw [pageLsnSlot, slot_of_free hready.image_target]
  rfl

omit hready in
theorem plannedImage_of {cur : Option Nat} (hr : disk.readPhysicalPage pid = .ok pg)
    (hc : readPersistentPageLsn pg = .ok cur) (hle : ∀ later ∈ cur, later ≤ lsn) :
    plannedImage pl lsn noLaterState disk pid = reclaimImage pl lsn pid pg cur := by
  have hl : ¬ ∃ later ∈ cur, lsn < later := by
    rintro ⟨later, hm, hlt⟩
    exact not_lt.mpr (hle later hm) hlt
  rw [plannedImage, hr, ok_bind, hc, ok_bind, if_neg (by simp [noLaterState]), if_neg hl]

section
variable (hp : RedoProgress start pl hdr r.lsn done disk)
include hp

theorem RedoProgress.page_lt (hi : pid = pl.page ∨ pid = 0) :
    pid ≠ invalidPageId ∧ pid < disk.pageCount := by
  obtain ⟨_, hv, hlt⟩ := (ReclaimBounds.of_decode hready.decoded).page
  have hex := hready.extent
  have hc := hp.count
  rcases hi with rfl | rfl
  · exact ⟨hv, by omega⟩
  · exact ⟨by decide, by omega⟩

theorem RedoProgress.read (hi : pid = pl.page ∨ pid = 0) :
    disk.readPhysicalPage pid = .ok (disk.page pid) := by
  obtain ⟨hv, hlt⟩ := hp.page_lt hready hi
  exact readPhysicalPage_ok.mpr ⟨hv, hlt, rfl⟩

/-- Replay writes the target unless it already is the free page. -/
theorem RedoProgress.plan_target : plannedImage pl r.lsn noLaterState disk pl.page =
    .ok (if done pl.page then none else some (finalTarget pl r.lsn)) := by
  have hd := hp.read hready (.inl rfl)
  have hg := hp.pages pl.page
  rw [finalImage, if_neg (ReclaimBounds.of_decode hready.decoded).page.1] at hg
  cases hdone : done pl.page with
  | true =>
    rw [hdone, if_pos rfl] at hg
    have hc := hready.finalTarget_lsn
    rw [← hg] at hc
    rw [plannedImage_of hd hc (by simp), reclaimImage, if_pos rfl, reclaimTarget,
      hready.reclaimedPage_eq, ok_bind, if_pos rfl, require_of _ hg]
    rfl
  | false =>
    rw [hdone, if_neg Bool.false_ne_true] at hg
    have hc := hready.target
    have hr := hready.crc
    rw [← hg] at hc hr
    have hb := (ReclaimBounds.of_decode hready.decoded).beforePage
    have hn : pl.beforePageLsn ≠ some r.lsn :=
      fun hs => lt_irrefl _ (hb _ hs)
    rw [plannedImage_of hd hc fun later hm => (hb later hm).le, reclaimImage,
      if_pos rfl, reclaimTarget, hready.reclaimedPage_eq, ok_bind, if_neg hn,
      require_of _ (And.intro rfl hr)]
    rfl

theorem RedoProgress.plan_metadata (hver : hdr.formatVersion = 2) :
    plannedImage pl r.lsn noLaterState disk 0 =
      .ok (if done 0 then none else some (finalMetadata pl hdr r.lsn)) := by
  have he := hp.read hready (.inr rfl)
  have hz := (ReclaimBounds.of_decode hready.decoded).page.1
  have hg : disk.page 0 = if done 0 then finalMetadata pl hdr r.lsn else start.page 0 := hp.pages 0
  have hr := hready.readable hver
  cases hdone : done 0 with
  | true =>
    rw [hdone, if_pos rfl] at hg
    have hc := hready.finalMetadata_lsn hver
    have hh := hr.deserialize_stamped hready.lsn_lt
    have hd : (finalHeader pl hdr).freeListRootPageId = pl.page := rfl
    rw [← finalMetadata, ← hg] at hh
    rw [← hg] at hc
    rw [plannedImage_of he hc (by simp), reclaimImage, if_neg (Ne.symm hz), reclaimMetadata,
      hh, ok_bind, require_of _ hr.version, ok_bind, if_pos rfl, require_of _ hd]
    rfl
  | false =>
    rw [hdone, if_neg Bool.false_ne_true] at hg
    have hc := hready.metadataLsn
    have hh := hready.metadata
    rw [← hg] at hc hh
    have hb := (ReclaimBounds.of_decode hready.decoded).beforeMetadata
    have hn : pl.beforeMetadataLsn ≠ some r.lsn :=
      fun hs => lt_irrefl _ (hb _ hs)
    have hw : writePersistentPageLsn (serializeDatabaseHeader (finalHeader pl hdr)) (some r.lsn) =
        .ok (finalMetadata pl hdr r.lsn) := by
      refine writePersistentPageLsn_ok.mpr ⟨?_, hready.lsn_ne_zero, rfl⟩
      rw [pageLsnSlot, hr.slot]
      rfl
    rw [plannedImage_of he hc fun later hm => (hb later hm).le, reclaimImage,
      if_neg (Ne.symm hz), reclaimMetadata, hh, ok_bind, require_of _ hver, ok_bind, if_neg hn,
      require_of _ (And.intro rfl hready.head), ok_bind]
    show
      (writePersistentPageLsn (serializeDatabaseHeader (finalHeader pl hdr)) (some r.lsn) >>= _) = _
    rw [hw]
    rfl

/-- What replay writes to one of its pages, and the header it reads back from there. -/
theorem RedoProgress.plan (hi : pid = pl.page ∨ pid = 0) (hver : pid = 0 → hdr.formatVersion = 2) :
    plannedImage pl r.lsn noLaterState disk pid =
        .ok (if done pid then none else some (finalImage pl hdr r.lsn pid)) ∧
      ∃ updated, disk.headerAfterWrite pid (finalImage pl hdr r.lsn pid) = .ok updated := by
  have hz := (ReclaimBounds.of_decode hready.decoded).page.1
  rcases hi with rfl | rfl
  · rw [finalImage, if_neg hz]
    exact ⟨hp.plan_target hready, _, if_neg hz⟩
  · exact ⟨hp.plan_metadata hready (hver rfl), _, (if_pos rfl).trans
      ((hready.readable (hver rfl)).deserialize_stamped hready.lsn_lt)⟩

/-- One page of a replay: it is left alone, or its final image is written. -/
theorem RedoProgress.step (hi : pid = pl.page ∨ pid = 0) (hver : pid = 0 → hdr.formatVersion = 2)
    (stats : ReclaimRedoStats) :
    ∃ disk', applyCounted pl r.lsn noLaterState (disk, stats) pid = .ok (disk',
        if done pid then ⟨stats.writes, stats.skips + 1⟩ else ⟨stats.writes + 1, stats.skips⟩) ∧
      RedoProgress start pl hdr r.lsn (fun other => done other || other = pid) disk' ∧
      (done pid = true → disk' = disk) := by
  obtain ⟨hl, _, hh⟩ := hp.plan hready hi hver
  cases hd : done pid with
  | true =>
    have hsame : (fun other => done other || decide (other = pid)) = done := by
      funext other
      by_cases ho : other = pid
      · simp [ho, hd]
      · simp [ho]
    refine ⟨disk, ?_, hsame.symm ▸ hp, fun _ => rfl⟩
    rw [applyCounted, hl, hd]
    rfl
  | false =>
    obtain ⟨hv, hlt⟩ := hp.page_lt hready hi
    have hc := hp.count
    have hm : pid + 1 - disk.pageCount = 0 := by omega
    obtain ⟨disk', hr⟩ : ∃ disk',
        disk.writePhysicalPage pid (finalImage pl hdr r.lsn pid) = .ok disk' := by
      rw [writePhysicalPage, require_of _ hv, ok_bind, hh, ok_bind, hm]
      exact ⟨_, rfl⟩
    have hw := writePhysicalPage_wrote hr
    refine ⟨disk', ?_, ⟨?_, ?_, ?_⟩, by simp⟩
    · rw [applyCounted, hl, hd]
      show (disk.writePhysicalPage pid (finalImage pl hdr r.lsn pid) >>= _) = _
      rw [hr]
      rfl
    · rw [hw.count]
      omega
    · intro other
      rw [hw.pages]
      by_cases ho : other = pid
      · simp [ho]
      · simp [ho, hp.pages other]
    · intro other ho
      by_cases hs : other = pid
      · exact hs ▸ hi
      · exact hp.only other (by simpa [hs] using ho)

end

section
variable (hver : hdr.formatVersion = 2)
include hver

section
variable (hp : RedoProgress start pl hdr r.lsn done disk)
include hp

/-- The guard reads the page 0 that the same record rewrites; both name the same catalog root. -/
theorem RedoProgress.guard : requireNotCatalogRoot pl r.lsn (disk.page 0) = .ok () := by
  have hg : disk.page 0 = if done 0 then finalMetadata pl hdr r.lsn else start.page 0 := hp.pages 0
  cases hd : done 0 with
  | true =>
    rw [hd, if_pos rfl] at hg
    have hr : (finalHeader pl hdr).catalogRootPageId ≠ pl.page := hready.notCatalogRoot
    rw [requireNotCatalogRoot, hg, hready.finalMetadata_lsn hver, ok_bind, if_pos (by simp),
      finalMetadata,
      (hready.readable hver).deserialize_stamped hready.lsn_lt, ok_bind, require_of _ hr]
  | false =>
    rw [hd, if_neg Bool.false_ne_true] at hg
    have hb := (ReclaimBounds.of_decode hready.decoded).beforeMetadata
    rw [requireNotCatalogRoot, hg, hready.metadataLsn, ok_bind,
      if_pos fun known hm => (hb known hm).le, hready.metadata, ok_bind,
      require_of _ hready.notCatalogRoot]

/-- An execution gets to its two pages from every state of progress. -/
theorem RedoProgress.redo_eq (metadataFirst : Bool) (ir : Option Nat) :
    redoPageReclaimUntil metadataFirst ir disk r noLaterState = (redoOrder metadataFirst pl).foldlM
        (applyUntil ir pl r.lsn noLaterState) (disk, ⟨0, 0⟩) := by
  have hex : pl.pageCount ≤ disk.pageCount := by
    rw [hp.count]
    exact hready.extent
  rw [redoPageReclaimUntil, hready.decoded, ok_bind, require_of _ hex, ok_bind,
    hp.read hready (.inr rfl), ok_bind, hp.guard hready hver, ok_bind]

omit hready hver hp in
theorem redoOrder_eq (metadataFirst : Bool) (pl : PageReclaimPayload) : ∃ fst snd,
    redoOrder metadataFirst pl = [fst, snd] ∧
      ∀ pid, pid = pl.page ∨ pid = 0 ↔ pid = fst ∨ pid = snd := by
  cases metadataFirst with
  | true => exact ⟨0, pl.page, rfl, fun _ => or_comm⟩
  | false => exact ⟨pl.page, 0, rfl, fun _ => Iff.rfl⟩

/-- An execution that may be interrupted does not fail and leaves a state of progress. -/
theorem RedoProgress.interrupted (metadataFirst : Bool) (ir : Option Nat) :
    ∃ s done', redoPageReclaimUntil metadataFirst ir disk r noLaterState = .ok s ∧
      RedoProgress start pl hdr r.lsn done' s.1 := by
  obtain ⟨fst, snd, ho, hi⟩ := redoOrder_eq metadataFirst pl
  rw [hp.redo_eq hready hver]
  have hstep : ∀ pid ∈ redoOrder metadataFirst pl, ∀ s : RedoState,
      (∃ done', RedoProgress start pl hdr r.lsn done' s.1) →
      ∃ s', applyUntil ir pl r.lsn noLaterState s pid = .ok s' ∧
        ∃ done', RedoProgress start pl hdr r.lsn done' s'.1 := by
    rintro pid hm s ⟨done', hs⟩
    rw [ho] at hm
    rw [applyUntil]
    split
    · exact ⟨s, rfl, done', hs⟩
    · obtain ⟨disk', ht, hp', _⟩ := hs.step hready ((hi pid).mpr (by simpa using hm))
        (fun _ => hver) s.2
      exact ⟨_, ht, _, hp'⟩
  obtain ⟨s, hr, done', hp'⟩ := foldlM_total hstep
    (⟨done, hp⟩ : ∃ done',
      RedoProgress start pl hdr r.lsn done' (disk, (⟨0, 0⟩ : ReclaimRedoStats)).1)
  exact ⟨s, done', hr, hp'⟩

/-- An execution that runs to its end leaves both final images. -/
theorem RedoProgress.completed (metadataFirst : Bool) :
    ∃ s done', redoPageReclaimUntil metadataFirst none disk r noLaterState = .ok s ∧
      RedoProgress start pl hdr r.lsn done' s.1 ∧
        (∀ pid, pid = pl.page ∨ pid = 0 → done' pid = true) ∧
      ((∀ pid, pid = pl.page ∨ pid = 0 → done pid = true) → s = (disk, ⟨0, 2⟩)) := by
  obtain ⟨fst, snd, ho, hi⟩ := redoOrder_eq metadataFirst pl
  obtain ⟨mid, hf, hm, hs⟩ := hp.step hready ((hi fst).mpr (.inl rfl)) (fun _ => hver) ⟨0, 0⟩
  obtain ⟨disk', hc, hp', hs'⟩ := hm.step hready ((hi snd).mpr (.inr rfl)) (fun _ => hver) _
  rw [hp.redo_eq hready hver, ho]
  refine ⟨_, _, (bind_of_ok hf _).trans (bind_of_ok hc _), hp', ?_, ?_⟩
  · intro pid hpid
    rcases (hi pid).mp hpid with rfl | rfl
    · simp
    · simp
  · intro hdone
    have hfst := hdone fst ((hi fst).mpr (.inl rfl))
    have hsnd := hdone snd ((hi snd).mpr (.inr rfl))
    rw [hs' (by simp [hsnd]), hs hfst]
    simp [hfst, hsnd]

end

end

/-- The page that is left is a free page to the allocator, and links to the old head. -/
theorem ReclaimReady.nextFreePageId_eq (hc : disk.pageCount = start.pageCount) :
    nextFreePageId disk (finalTarget pl r.lsn) = .ok pl.head := by
  obtain ⟨_, _, hb, hh, _, _⟩ := ReclaimBounds.of_decode hready.decoded
  have he := hready.extent
  have hi : invalidPageId = 2 ^ 32 - 1 := rfl
  have hg : Image freeLayout.magic (freeFields pl.head ++ [(8, r.lsn)]) (finalTarget pl r.lsn) := by
    have hs : pageLsnSlot (freePageImage pl.head) = some 20 := by
      rw [pageLsnSlot, slot_of_free hready.image_target]
    rw [finalTarget, stamped_of_slot hs]
    exact hready.image_target.stamped hready.lsn_lt (show 28 ≤ _ by decide)
  exact nextFreePageId_of_image hg hready.lsn_lt.ne fun hne => by omega

end Steps

/-! Whole histories. -/

/-- The states that executions of a replay leave, in either order of its writes and each
interrupted or not, with restarts of the process between them. -/
inductive Replayed (start : DiskManager) (record : LogRecord) : DiskManager → Prop
  | start : Replayed start record start
  | interrupted {disk : DiskManager} (metadataFirst : Bool) (interruption : Option Nat)
    {s : RedoState}
      (before : Replayed start record disk)
      (redo : redoPageReclaimUntil metadataFirst interruption disk record noLaterState = .ok s) :
      Replayed start record s.1
  | restarted {disk reopened : DiskManager} (before : Replayed start record disk)
      (pages : reopened.pages = disk.pages) : Replayed start record reopened

theorem Replayed.progress {start disk : DiskManager}
    (hready : ReclaimReady start r pl hdr) (hver : hdr.formatVersion = 2)
    (h : Replayed start r disk) : ∃ done, RedoProgress start pl hdr r.lsn done disk := by
  induction h with
  | start => exact ⟨_, .refl start pl hdr r.lsn⟩
  | interrupted metadataFirst ir bef redo ih =>
    obtain ⟨done, hp⟩ := ih
    obtain ⟨s', done', hr, hp'⟩ := hp.interrupted hready hver metadataFirst ir
    rw [redo, Except.ok.injEq] at hr
    subst hr
    exact ⟨done', hp'⟩
  | @restarted disk reopened bef pages ih =>
    obtain ⟨done, hp⟩ := ih
    refine ⟨done, ?_, ?_, hp.only⟩
    · rw [DiskManager.pageCount, pages]
      exact hp.count
    · intro pid
      rw [DiskManager.page, pages]
      exact hp.pages pid

/-- What a completed replay of the record leaves of the state it was logged in. -/
structure Reclaimed (start : DiskManager) (record : LogRecord) (payload : PageReclaimPayload)
    (header : DatabaseHeader) (disk : DiskManager) : Prop where
  target : reclaimedPage payload record.lsn = .ok (disk.page payload.page)
  link : nextFreePageId disk (disk.page payload.page) = .ok payload.head
  targetLsn : readPersistentPageLsn (disk.page payload.page) = .ok (some record.lsn)
  metadata : deserializeDatabaseHeader (disk.page 0) =
    .ok { header with freeListRootPageId := payload.page }
  metadataLsn : readPersistentPageLsn (disk.page 0) = .ok (some record.lsn)
  others : ∀ pageId, pageId ≠ payload.page → pageId ≠ 0 → disk.page pageId = start.page pageId
  count : disk.pageCount = start.pageCount

theorem RedoProgress.reclaimed {start disk : DiskManager}
    (hready : ReclaimReady start r pl hdr) (hver : hdr.formatVersion = 2)
    {done : Nat → Bool} (h : RedoProgress start pl hdr r.lsn done disk)
    (hdone : ∀ pid, pid = pl.page ∨ pid = 0 → done pid = true) : Reclaimed start r pl hdr disk := by
  have ht := h.pages pl.page
  have hm : disk.page 0 = finalMetadata pl hdr r.lsn :=
    (h.pages 0).trans (if_pos (hdone 0 (.inr rfl)))
  rw [hdone _ (.inl rfl), if_pos rfl, finalImage,
    if_neg (ReclaimBounds.of_decode hready.decoded).page.1] at ht
  refine ⟨?_, ?_, ?_, ?_, ?_, ?_, h.count⟩
  · rw [ht]
    exact hready.reclaimedPage_eq
  · rw [ht]
    exact hready.nextFreePageId_eq h.count
  · rw [ht]
    exact hready.finalTarget_lsn
  · rw [hm]
    exact (hready.readable hver).deserialize_stamped hready.lsn_lt
  · rw [hm]
    exact hready.finalMetadata_lsn hver
  · intro pid htarget hmetadata
    rw [h.pages, if_neg fun hd => (h.only pid hd).elim htarget hmetadata]

/-- In a database of format 2, replay of a reclamation cannot fail, whatever interrupted
executions it follows; it completes the reclamation, and has nothing to write after that. -/
theorem reclaim_redo_completes {start : DiskManager} {r : LogRecord} {pl : PageReclaimPayload}
    {hdr : DatabaseHeader} (hready : ReclaimReady start r pl hdr)
    (hversion : hdr.formatVersion = 2) {disk : DiskManager} (h : Replayed start r disk) :
    (∀ metadataFirst interruption, ∃ s,
      redoPageReclaimUntil metadataFirst interruption disk r noLaterState = .ok s) ∧
    ∀ metadataFirst, ∃ s, redoPageReclaimUntil metadataFirst none disk r noLaterState = .ok s ∧
      Reclaimed start r pl hdr s.1 ∧
      ∀ metadataFirst,
        redoPageReclaimUntil metadataFirst none s.1 r noLaterState = .ok (s.1, ⟨0, 2⟩) := by
  obtain ⟨done, hp⟩ := h.progress hready hversion
  constructor
  · intro metadataFirst interruption
    obtain ⟨s, _, hrun, _⟩ := hp.interrupted hready hversion metadataFirst interruption
    exact ⟨s, hrun⟩
  · intro metadataFirst
    obtain ⟨s, done', hrun, hprogress, hdone, _⟩ := hp.completed hready hversion metadataFirst
    refine ⟨s, hrun, hprogress.reclaimed hready hversion hdone, ?_⟩
    intro again
    obtain ⟨s', _, hagain, _, _, hsame⟩ := hprogress.completed hready hversion again
    rw [hagain, hsame hdone]

/-- Replay needs the current format, which is none of the logged preconditions. -/
theorem ReclaimReady.refused_of_version {start : DiskManager}
    (hready : ReclaimReady start r pl hdr) (hver : hdr.formatVersion ≠ 2) (metadataFirst : Bool) :
    redoPageReclaimUntil metadataFirst none start r noLaterState =
      .error (corruptRecord "PAGE_RECLAIM requires database v2") := by
  have hb := (ReclaimBounds.of_decode hready.decoded).beforeMetadata
  have hz := (ReclaimBounds.of_decode hready.decoded).page.1
  have hp := RedoProgress.refl start pl hdr r.lsn
  have hrf : require (hdr.formatVersion = 2) (corruptRecord "PAGE_RECLAIM requires database v2") =
      .error (corruptRecord "PAGE_RECLAIM requires database v2") := if_neg hver
  -- page 0 is the state at the start until the replay gets to it
  have ha : ∀ {disk : DiskManager} {done : Nat → Bool},
      RedoProgress start pl hdr r.lsn done disk → done 0 = false → ∀ stats,
        applyCounted pl r.lsn noLaterState (disk, stats) 0 =
          .error (corruptRecord "PAGE_RECLAIM requires database v2") := by
    intro disk done hr hdone stats
    have hpg := hr.pages 0
    rw [hdone, if_neg Bool.false_ne_true] at hpg
    have hd := hr.read hready (.inr rfl)
    rw [hpg] at hd
    rw [applyCounted, plannedImage_of hd hready.metadataLsn fun later hm => (hb later hm).le,
      reclaimImage, if_neg (Ne.symm hz), reclaimMetadata, hready.metadata, ok_bind, hrf]
    rfl
  have hg : requireNotCatalogRoot pl r.lsn (start.page 0) = .ok () := by
    rw [requireNotCatalogRoot, hready.metadataLsn, ok_bind,
      if_pos fun known hm => (hb known hm).le, hready.metadata, ok_bind,
      require_of _ hready.notCatalogRoot]
  rw [redoPageReclaimUntil, hready.decoded, ok_bind, require_of _ hready.extent, ok_bind,
    hp.read hready (.inr rfl), ok_bind, hg, ok_bind]
  cases metadataFirst with
  | true =>
    show (applyCounted pl r.lsn noLaterState (start, ⟨0, 0⟩) 0 >>= _) = _
    rw [ha hp rfl]
    rfl
  | false =>
    obtain ⟨mid, hf, hmd, _⟩ := hp.step hready (.inl rfl) (fun he => absurd he hz) ⟨0, 0⟩
    refine (bind_of_ok hf _).trans ?_
    show (applyCounted pl r.lsn noLaterState (mid, _) 0 >>= _) = _
    rw [ha hmd (by simp [Ne.symm hz])]
    rfl

/-! A database of two pages, of which the second is reclaimed. -/

def twoPageHeader (formatVersion : Nat) : DatabaseHeader :=
  { makeCurrentDatabaseHeader with formatVersion }

def twoPages (formatVersion : Nat) : DiskManager :=
  ⟨⟨[serializeDatabaseHeader (twoPageHeader formatVersion), zero], []⟩, twoPageHeader formatVersion,
    false⟩

def secondPageReclaim : PageReclaimPayload :=
  ⟨1, invalidPageId, 2, none, none, crc32c (zero : Page)⟩

def secondPageRecord : LogRecord := ⟨0, none, .pageReclaim secondPageReclaim, walHeaderSize⟩

theorem twoPages_ready {formatVersion : Nat}
    (hh : deserializeDatabaseHeader (serializeDatabaseHeader (twoPageHeader formatVersion)) =
      .ok (twoPageHeader formatVersion))
    (hl : readPersistentPageLsn (serializeDatabaseHeader (twoPageHeader formatVersion)) =
      .ok none) :
    ReclaimReady (twoPages formatVersion) secondPageRecord secondPageReclaim
      (twoPageHeader formatVersion) where
  decoded := rfl
  word := by decide
  extent := le_rfl
  target := by
    show readPersistentPageLsn zero = .ok none
    rw [readPersistentPageLsn, zero_untyped]
    rfl
  crc := rfl
  metadata := hh
  metadataLsn := hl
  head := rfl
  notCatalogRoot := by
    show invalidPageId ≠ 1
    decide

/-- The replay that follows one interrupted behind its first write, that of page 0. -/
theorem reclaim_redo_completes_second_page :
    ∃ s, redoPageReclaimUntil true (some 1) (twoPages 2) secondPageRecord noLaterState = .ok s ∧
      ∃ s', redoPageReclaimUntil false none s.1 secondPageRecord noLaterState = .ok s' ∧
        Reclaimed (twoPages 2) secondPageRecord secondPageReclaim (twoPageHeader 2) s'.1 := by
  have hready := twoPages_ready (by decide +kernel : deserializeDatabaseHeader
    (serializeDatabaseHeader (twoPageHeader 2)) = .ok (twoPageHeader 2)) (by decide +kernel)
  obtain ⟨s, hinterrupted⟩ := (reclaim_redo_completes hready rfl .start).1 true (some 1)
  obtain ⟨s', hrun, hdone, _⟩ := (reclaim_redo_completes hready rfl
    (.interrupted true (some 1) .start hinterrupted)).2 false
  exact ⟨s, hinterrupted, s', hrun, hdone⟩

/-- A header of the first format passes the same preconditions, and replay refuses it in
both orders of its writes. -/
theorem legacy_reclaim_refused :
    ReclaimReady (twoPages 1) secondPageRecord secondPageReclaim (twoPageHeader 1) ∧
      ∀ metadataFirst,
        redoPageReclaimUntil metadataFirst none (twoPages 1) secondPageRecord noLaterState =
        .error (corruptRecord "PAGE_RECLAIM requires database v2") := by
  have hready := twoPages_ready (by decide +kernel : deserializeDatabaseHeader
    (serializeDatabaseHeader (twoPageHeader 1)) = .ok (twoPageHeader 1)) (by decide +kernel)
  exact ⟨hready, hready.refused_of_version (by decide)⟩

end MiniDb
