import MiniDb.Foundation.DurableFile
import MiniDb.PageImages

/-!
The database file: page 0 holds the database header, every other page is data.
Page writes reach the file in program order and become durable at `sync`. The
cached header follows page 0 on every physical write of it.
-/
namespace MiniDb
open ByteBlock ByteString Outcome DurableFile

variable {p : Nat} {a b : Page}

structure DatabaseHeader where
  formatVersion : Nat
  pageSize : Nat
  headerSize : Nat
  catalogRootPageId : Nat
  freeListRootPageId : Nat
  deriving DecidableEq, Repr

def makeCurrentDatabaseHeader : DatabaseHeader :=
  ⟨2, pageSize, 64, invalidPageId, invalidPageId⟩

def serializeDatabaseHeader (header : DatabaseHeader) : Page :=
  let page := writeBytes zero 0 (magicBytes databaseMagic)
  let page := writeUint32 page 8 header.formatVersion
  let page := writeUint32 page 12 header.pageSize
  let page := writeUint32 page 16 header.headerSize
  let page := writeUint32 page 20 header.catalogRootPageId
  writeUint32 page 24 header.freeListRootPageId

def deserializeDatabaseHeader (page : Page) : Result DatabaseHeader := do
  require (hasMagic page databaseMagic)
    (.runtimeError "Invalid database magic: file is not a MiniDB++ database.")
  let header : DatabaseHeader := ⟨readUint32 page 8, readUint32 page 12, readUint32 page 16,
    readUint32 page 20, readUint32 page 24⟩
  require (header.formatVersion = 1 ∨ header.formatVersion = 2)
    (.runtimeError ("Unsupported database format version " ++ toString header.formatVersion
      ++ "; supported versions are 1 and 2."))
  require (header.pageSize = pageSize)
    (.runtimeError ("Database page size " ++ toString header.pageSize
      ++ " does not match the compiled page size " ++ toString pageSize ++ "."))
  require (header.headerSize = 64)
    (.runtimeError ("Database header size " ++ toString header.headerSize
      ++ " does not match the supported header size 64."))
  let encodedPageLsn := readUint64 page 28
  require (¬ ((header.formatVersion = 1 ∧ encodedPageLsn ≠ 0) ∨ encodedPageLsn = invalidLsn))
    (.runtimeError "Database metadata page has an invalid PageLSN encoding.")
  require (readLe page 36 (pageSize - 36) = 0)
    (.runtimeError "Database metadata page reserved bytes are not zero.")
  return header

structure DiskManager where
  file : BufferedFile Page
  databaseHeader : DatabaseHeader
  /-- An opened file may hold unsynchronised writes of the process before. -/
  initialSyncRequired : Bool

variable {disk disk' : DiskManager}

namespace DiskManager

def pages (disk : DiskManager) : List Page := disk.file.contents zero

def pageCount (disk : DiskManager) : Nat := disk.pages.length

def page (disk : DiskManager) (pageId : Nat) : Page := disk.pages.getD pageId zero

def perform (disk : DiskManager) (op : FileOp Page) : DiskManager :=
  { disk with file := disk.file.perform op }

def requireExistingPhysicalPage (disk : DiskManager) (pageId : Nat) : Result Unit :=
  require (pageId ≠ invalidPageId ∧ pageId < disk.pageCount)
    (.outOfRange "Physical PageId does not exist.")

def requireExistingDataPage (disk : DiskManager) (pageId : Nat) : Result Unit := do
  require (pageId ≠ 0) (.invalidArgument "Page 0 is reserved for database metadata.")
  require (pageId ≠ invalidPageId ∧ pageId < disk.pageCount)
    (.outOfRange "Page ID does not exist.")

def readPhysicalPage (disk : DiskManager) (pageId : Nat) : Result Page := do
  disk.requireExistingPhysicalPage pageId
  return disk.page pageId

def readPage (disk : DiskManager) (pageId : Nat) : Result Page := do
  disk.requireExistingDataPage pageId
  return disk.page pageId

def writePage (disk : DiskManager) (pageId : Nat) (page : Page) : Result DiskManager := do
  disk.requireExistingDataPage pageId
  return disk.perform (.write pageId page)

def appendPage (disk : DiskManager) (expectedPageId : Nat) : Result DiskManager := do
  require (expectedPageId = disk.pageCount)
    (.logicError "Physical extent changed after page reservation")
  require (disk.pageCount ≠ invalidPageId)
    (.overflowError "Database has exhausted the available page IDs.")
  return disk.perform (.write disk.pageCount zero)

/-- Appends zero pages until the file reaches `pageId`; `missing` bounds the loop. -/
def extendTo (pageId : Nat) : (missing : Nat) → DiskManager → Result DiskManager
  | 0, disk => .ok disk
  | missing + 1, disk => do
      if disk.pageCount ≤ pageId then
        let disk ← disk.appendPage disk.pageCount
        extendTo pageId missing disk
      else return disk

/-- The cached header once `page` is written: page 0 must be a readable header. -/
def headerAfterWrite (disk : DiskManager) (pageId : Nat) (page : Page) : Result DatabaseHeader :=
  if pageId = 0 then deserializeDatabaseHeader page else .ok disk.databaseHeader

def writePhysicalPage (disk : DiskManager) (pageId : Nat) (page : Page) :
    Result DiskManager := do
  require (pageId ≠ invalidPageId) (.invalidArgument "Cannot physically write INVALID_PAGE_ID.")
  let updatedHeader ← disk.headerAfterWrite pageId page
  let disk ← extendTo pageId (pageId + 1 - disk.pageCount) disk
  return { disk.perform (.write pageId page) with databaseHeader := updatedHeader }

def sync (disk : DiskManager) : DiskManager :=
  { disk with file := disk.file.sync zero, initialSyncRequired := false }

def reloadDatabaseHeader (disk : DiskManager) : Result DiskManager := do
  return { disk with databaseHeader := ← deserializeDatabaseHeader (disk.page 0) }

def truncateToPageCount (disk : DiskManager) (count : Nat) : Result DiskManager := do
  require (count ≠ 0 ∧ count ≤ invalidPageId)
    (.invalidArgument "Recovery page count is outside the supported range.")
  if count = disk.pageCount then return disk
  else
    -- the file may also grow here, by zero bytes
    let op := if count < disk.pageCount then .truncate count else .write (count - 1) zero
    (disk.perform op).reloadDatabaseHeader

def writebackPending (disk : DiskManager) : Bool :=
  disk.initialSyncRequired || !disk.file.pending.isEmpty

def syncPendingWritebacks (disk : DiskManager) : DiskManager :=
  if disk.writebackPending then disk.sync else disk

end DiskManager

open DiskManager

/-! Field equations of the file operations. -/

@[simp] theorem pages_perform (disk : DiskManager) (op : FileOp Page) :
    (disk.perform op).pages = applyOp zero disk.pages op :=
  contents_perform disk.file op

@[simp] theorem page_sync (disk : DiskManager) (p : Nat) : disk.sync.page p = disk.page p := rfl

@[simp] theorem pageCount_sync (disk : DiskManager) : disk.sync.pageCount = disk.pageCount := rfl

@[simp] theorem page_perform_write (disk : DiskManager) (p q : Nat) (img : Page) :
    (disk.perform (.write p img)).page q = if q = p then img else disk.page q := by
  simp only [DiskManager.page, pages_perform, applyOp, getD_writeBlock]

@[simp] theorem pageCount_perform_write (disk : DiskManager) (p : Nat) (img : Page) :
    (disk.perform (.write p img)).pageCount = max disk.pageCount (p + 1) := by
  simp only [DiskManager.pageCount, pages_perform, applyOp, length_writeBlock]

theorem pageCount_overwrite {disk : DiskManager} {p : Nat} (h : p < disk.pageCount) (img : Page) :
    (disk.perform (.write p img)).pageCount = disk.pageCount := by
  rw [pageCount_perform_write, max_eq_left h]

theorem pageCount_extend (disk : DiskManager) (img : Page) :
    (disk.perform (.write disk.pageCount img)).pageCount = disk.pageCount + 1 := by
  rw [pageCount_perform_write, max_eq_right (Nat.le_succ _)]

theorem page_of_ge (disk : DiskManager) (h : disk.pageCount ≤ p) : disk.page p = zero := by
  simp only [DiskManager.page, List.getD_eq_getElem?_getD]
  rw [List.getElem?_eq_none h, Option.getD_none]

theorem readPhysicalPage_ok {img : Page} :
    disk.readPhysicalPage p = .ok img ↔
      p ≠ invalidPageId ∧ p < disk.pageCount ∧ img = disk.page p := by
  simp only [readPhysicalPage, requireExistingPhysicalPage, ok_iff]
  constructor
  · rintro ⟨_, ⟨hi, hlt⟩, rfl⟩
    exact ⟨hi, hlt, rfl⟩
  · rintro ⟨hi, hlt, rfl⟩
    exact ⟨(), ⟨hi, hlt⟩, rfl⟩

theorem writePage_ok {img : Page} :
    disk.writePage p img = .ok disk' ↔
      p ≠ 0 ∧ p ≠ invalidPageId ∧ p < disk.pageCount ∧ disk' = disk.perform (.write p img) := by
  simp only [writePage, requireExistingDataPage, ok_iff]
  constructor
  · rintro ⟨_, ⟨_, hz, hi, hlt⟩, rfl⟩
    exact ⟨hz, hi, hlt, rfl⟩
  · rintro ⟨hz, hi, hlt, rfl⟩
    exact ⟨(), ⟨(), hz, hi, hlt⟩, rfl⟩

theorem appendPage_ok :
    disk.appendPage p = .ok disk' ↔ p = disk.pageCount ∧ disk.pageCount ≠ invalidPageId ∧
        disk' = disk.perform (.write p zero) := by
  simp only [appendPage, ok_iff]
  constructor
  · rintro ⟨_, rfl, _, hi, rfl⟩
    exact ⟨rfl, hi, rfl⟩
  · rintro ⟨rfl, hi, rfl⟩
    exact ⟨(), rfl, (), hi, rfl⟩

/-- Extending a file keeps its pages, and what it adds reads as the zero page. -/
theorem extendTo_spec {pid missing : Nat} (h : extendTo pid missing disk = .ok disk') :
    (∀ q, disk'.page q = disk.page q) ∧ disk.pageCount ≤ disk'.pageCount ∧
      disk'.pageCount ≤ max disk.pageCount (pid + 1) ∧
      disk'.databaseHeader = disk.databaseHeader ∧ disk'.file.durable = disk.file.durable ∧
      ∃ added, disk'.file.pending = disk.file.pending ++ added ∧
        ∀ op ∈ added, ∃ q, disk.pageCount ≤ q ∧ q ≤ pid ∧ op = .write q zero := by
  induction missing generalizing disk with
  | zero =>
    simp only [extendTo, Except.ok.injEq] at h
    subst h
    exact ⟨fun _ => rfl, le_rfl, by omega, rfl, rfl, [], by simp, by simp⟩
  | succ missing ih =>
    simp only [extendTo] at h
    split at h
    · rename_i hle
      simp only [bind_ok, appendPage_ok] at h
      obtain ⟨mid, ⟨_, _, rfl⟩, hr⟩ := h
      obtain ⟨hg, hl, hi, hh, hd, added, ha, ho⟩ := ih hr
      simp only [pageCount_perform_write] at hl hi ho
      refine ⟨?_, by omega, by omega, hh, hd, .write disk.pageCount zero :: added, ?_, ?_⟩
      · intro q
        rw [hg, page_perform_write]
        split
        · rename_i hq
          exact (page_of_ge disk hq.symm.le).symm
        · rfl
      · simp [ha, DiskManager.perform, BufferedFile.perform]
      · intro op hp
        rcases List.mem_cons.mp hp with rfl | hp
        · exact ⟨disk.pageCount, le_rfl, hle, rfl⟩
        · obtain ⟨q, hq, hq', rfl⟩ := ho op hp
          exact ⟨q, by omega, hq', rfl⟩
    · simp only [pure_ok] at h
      subst h
      exact ⟨fun _ => rfl, le_rfl, by omega, rfl, rfl, [], by simp, by simp⟩

/-! Page 0 as a layout. -/

def headerFields (header : DatabaseHeader) : List (Nat × Nat) :=
  [(4, header.formatVersion), (4, header.pageSize), (4, header.headerSize),
    (4, header.catalogRootPageId), (4, header.freeListRootPageId)]

theorem serialize_eq (hd : DatabaseHeader) : serializeDatabaseHeader hd =
    writeLayout (magicPage databaseMagic) 8 (headerFields hd) := rfl

theorem hasMagic_serialize (hd : DatabaseHeader) :
    hasMagic (serializeDatabaseHeader hd) databaseMagic = true := by
  rw [serialize_eq, hasMagic_writeLayout (by decide)]
  decide +kernel

theorem serialize_image {hd : DatabaseHeader}
    (hv : ∀ field ∈ headerFields hd, field.2 < 256 ^ field.1) :
    Image databaseMagic (headerFields hd ++ [(8, 0)]) (serializeDatabaseHeader hd) := by
  have hw : widths (headerFields hd) = 20 := rfl
  rw [serialize_eq]
  exact (Image.written rfl hv (by rw [hw]; decide)).padded (by rw [hw]; decide)

theorem image_of_header {pg : Page} {hdr : DatabaseHeader}
    (h : deserializeDatabaseHeader pg = .ok hdr) :
    Image databaseMagic (headerFields hdr ++ [(8, readUint64 pg 28)]) pg ∧
      pageLsnSlot pg = (if hdr.formatVersion = 1 then none else some 28) ∧
      (hdr.formatVersion = 1 → readUint64 pg 28 = 0) := by
  simp only [deserializeDatabaseHeader, ok_iff] at h
  obtain ⟨_, ha, _, hv, _, hz, _, hh, _, hs, _, hr, rfl⟩ := h
  refine ⟨⟨fun i => magicPage_of_hasMagic rfl ha, ⟨rfl, rfl, rfl, rfl, rfl, rfl, trivial⟩, ?_⟩,
    ?_, fun ho => ?_⟩
  · exact fun i hi hl => byteAt_of_readLe_zero hr hl (by simp only [pageSize] at hi ⊢; omega)
  · simp only [pageLsnSlot, persistentPageLsnSlot, ha, if_true, databaseMetadataSlot,
      requireUint32, require_of _ hh, require_of _ hv, ok_bind]
    by_cases ho : readUint32 pg 8 = 1
    · simp only [ho, if_true, pure, Except.pure]
    · simp only [ho, if_false, pure, Except.pure]
  · by_contra hne
    exact hs (.inl ⟨ho, hne⟩)

/-- A readable header with an empty PageLSN is the serialized header. -/
theorem normalized_of_header {page : Page} {header : DatabaseHeader}
    (h : deserializeDatabaseHeader page = .ok header) :
    normalized page = serializeDatabaseHeader header := by
  obtain ⟨hi, hs, hz⟩ := image_of_header h
  have hn : Image databaseMagic (headerFields header ++ [(8, 0)]) (normalized page) := by
    rw [normalized, hs]
    by_cases ho : header.formatVersion = 1
    · rw [if_pos ho]
      exact hz ho ▸ hi
    · rw [if_neg ho]
      exact hi.stamped (show 0 < _ by decide) (show 36 ≤ _ by decide)
  refine hn.unique (serialize_image ?_)
  obtain ⟨h8, h12, h16, h20, h24, _⟩ := hi.reads
  simp only [headerFields, List.forall_mem_cons]
  rw [← h8, ← h12, ← h16, ← h20, ← h24]
  exact ⟨readLe_lt _ _ _, readLe_lt _ _ _, readLe_lt _ _ _, readLe_lt _ _ _, readLe_lt _ _ _,
    by simp⟩

@[simp] theorem normalized_serialize (header : DatabaseHeader) :
    normalized (serializeDatabaseHeader header) = serializeDatabaseHeader header := by
  unfold normalized
  split
  · rename_i off ho
    have hs : off = 28 := by
      simp only [pageLsnSlot, persistentPageLsnSlot, hasMagic_serialize, if_true,
        databaseMetadataSlot, requireUint32, require, bind, Except.bind, pure, Except.pure] at ho
      grind
    have hz : readUint64 (serializeDatabaseHeader header) 28 = 0 := by
      simp only [readUint64, serializeDatabaseHeader, writeUint32]
      repeat rw [readLe_writeLe_outside _ (by omega)]
      decide +kernel
    rw [hs, ← hz]
    exact writeLe_readLe_same _
  · rfl

/-- A page 0 without the head of its free list. -/
def withoutFreeListHead (page : Page) : Page := writeUint32 page 24 0

/-- Two header pages that differ at most in PageLSN and free-list head. -/
def SameHeader (a b : Page) : Prop :=
  withoutFreeListHead (normalized a) = withoutFreeListHead (normalized b)

theorem SameContents.sameHeader (h : SameContents a b) : SameHeader a b :=
  congrArg withoutFreeListHead h

theorem SameHeader.trans {c : Page} (ha : SameHeader a b) (hb : SameHeader b c) :
    SameHeader a c := Eq.trans ha hb

theorem serialize_withoutFreeListHead (hd : DatabaseHeader) (root : Nat) :
    withoutFreeListHead (serializeDatabaseHeader { hd with freeListRootPageId := root }) =
      withoutFreeListHead (serializeDatabaseHeader hd) := by
  simp only [withoutFreeListHead, serializeDatabaseHeader, writeUint32, writeLe_writeLe_same]

/-- The header the disk manager caches is the one page 0 holds. -/
abbrev DiskManager.HeaderCached (disk : DiskManager) : Prop :=
  deserializeDatabaseHeader (disk.page 0) = .ok disk.databaseHeader

/-- A physical write changes its page and, on page 0, the cached header. -/
structure WrotePage (disk disk' : DiskManager) (p : Nat) (page : Page) : Prop where
  valid : p ≠ invalidPageId
  pages : ∀ q, disk'.page q = if q = p then page else disk.page q
  count : disk'.pageCount = max disk.pageCount (p + 1)
  metadata : p = 0 → deserializeDatabaseHeader page = .ok disk'.databaseHeader
  header : p ≠ 0 → disk'.databaseHeader = disk.databaseHeader
  durable : disk'.file.durable = disk.file.durable
  pending : ∃ added, disk'.file.pending = disk.file.pending ++ added ++ [.write p page] ∧
    ∀ op ∈ added, ∃ q, disk.pageCount ≤ q ∧ q ≤ p ∧ op = .write q zero

theorem WrotePage.headerCached {pg : Page} (h : WrotePage disk disk' p pg)
    (hh : disk.HeaderCached) : disk'.HeaderCached := by
  rw [DiskManager.HeaderCached, h.pages]
  split
  · rename_i hp
    exact h.metadata hp.symm
  · rename_i hp
    rw [h.header (Ne.symm hp)]
    exact hh

theorem writePhysicalPage_wrote {pg : Page} (h : disk.writePhysicalPage p pg = .ok disk') :
    WrotePage disk disk' p pg := by
  simp only [writePhysicalPage, ok_iff] at h
  obtain ⟨_, hv, hr, hh, extended, hex, rfl⟩ := h
  obtain ⟨hg, hl, hi, hs, hd, added, ha, ho⟩ := extendTo_spec hex
  refine ⟨hv, ?_, ?_, ?_, ?_, hd, added, ?_, ho⟩
  · intro q
    refine (page_perform_write extended p q pg).trans ?_
    rw [hg]
  · refine (pageCount_perform_write extended p pg).trans ?_
    omega
  · intro hp
    simpa [headerAfterWrite, hp] using hh
  · intro hp
    simp only [headerAfterWrite, if_neg hp, Except.ok.injEq] at hh
    exact hh.symm
  · simp [DiskManager.perform, BufferedFile.perform, ha]

end MiniDb
