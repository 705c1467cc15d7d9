import MiniDb.DiskManager
import MiniDb.RecordValidation

/-!
Free pages and their reclamation. The free list runs from the database header
through the `next` field of each free page. A PAGE_RECLAIM record names the
state it starts from (PageLSNs, extent, list head and a checksum of the page),
and its replay writes two pages: the reclaimed page and page 0.
-/
namespace MiniDb
open ByteBlock Outcome

def requireExistingListPage (disk : DiskManager) (pageId : Nat) (description : String) :
    Result Unit :=
  require (pageId ≠ 0 ∧ pageId ≠ invalidPageId ∧ pageId < disk.pageCount)
    (.storageError .invalidPage (description ++ " is not an existing data page."))

/-- `readNextFreePageId` on an image of the page. -/
def nextFreePageId (disk : DiskManager) (page : Page) : Result Nat := do
  require (hasMagic page freeLayout.magic)
    (.storageError .corruptPage "Invalid free-page magic or page type.")
  require (readUint32 page 8 = freeLayout.version)
    (.storageError .corruptPage "Unsupported free-page layout version.")
  require (readUint32 page 12 = freeLayout.headerSize)
    (.storageError .corruptPage "Invalid free-page header size.")
  require (readLe page 28 (pageSize - 28) = 0)
    (.storageError .corruptPage "Free page contains nonzero reserved bytes.")
  let _ ← readPersistentPageLsn page
  let nextPageId := readUint32 page 16
  (fun _ => nextPageId) <$> (if nextPageId ≠ invalidPageId then
    requireExistingListPage disk nextPageId "Next free-page ID" else .ok ())

/-- The free list from `pageId` on, over the images `read` gives. -/
def walkFreeList (disk : DiskManager) (read : Nat → Result Page) :
    (rounds : Nat) → (visited : List Nat) → Nat → Result (List Nat)
  | 0, visited, pageId =>
    if pageId = invalidPageId then .ok visited.reverse
    else .error (.storageError .corruptPage "Free-list cycle or duplicate page detected.")
  | rounds + 1, visited, pageId =>
    if pageId = invalidPageId then .ok visited.reverse
    else do
      require (pageId ∉ visited)
        (.storageError .corruptPage "Free-list cycle or duplicate page detected.")
      requireExistingListPage disk pageId "Free-list page ID"
      let page ← read pageId
      let next ← nextFreePageId disk page
      walkFreeList disk read rounds (pageId :: visited) next

/-- The free list as the disk has it, read past the buffer pool. -/
def freePages (disk : DiskManager) : Result (List Nat) :=
  walkFreeList disk disk.readPage disk.pageCount [] disk.databaseHeader.freeListRootPageId

def freePageImage (next : Nat) : Page :=
  let page := writeBytes zero 0 (magicBytes freeLayout.magic)
  let page := writeUint32 page 8 freeLayout.version
  let page := writeUint32 page 12 freeLayout.headerSize
  writeUint32 page 16 next

def reclaimedPage (payload : PageReclaimPayload) (lsn : Nat) : Result Page :=
  writePersistentPageLsn (freePageImage payload.head) (some lsn)

/-- The target image of a reclaim over `page`, and `none` where replay skips it. -/
def reclaimTarget (payload : PageReclaimPayload) (lsn : Nat) (page : Page)
    (current : Option Nat) : Result (Option Page) := do
  let after ← reclaimedPage payload lsn
  if current = some lsn then do
    require (page = after) (corruptRecord "PAGE_RECLAIM malformed completed Free Page")
    return none
  else do
    require (current = payload.beforePageLsn ∧ crc32c page = payload.beforeCrc)
      (corruptRecord "PAGE_RECLAIM target precondition changed")
    return some after

def reclaimMetadata (payload : PageReclaimPayload) (lsn : Nat) (page : Page)
    (current : Option Nat) : Result (Option Page) := do
  let header ← deserializeDatabaseHeader page
  require (header.formatVersion = 2) (corruptRecord "PAGE_RECLAIM requires database v2")
  if current = some lsn then do
    require (header.freeListRootPageId = payload.page)
      (corruptRecord "PAGE_RECLAIM completed metadata has wrong head")
    return none
  else do
    require (current = payload.beforeMetadataLsn ∧ header.freeListRootPageId = payload.head)
      (corruptRecord "PAGE_RECLAIM metadata precondition changed")
    let page ← writePersistentPageLsn
      (serializeDatabaseHeader { header with freeListRootPageId := payload.page }) (some lsn)
    return some page

/-- What a reclaim makes of one of its two pages, and `none` where replay skips it. -/
def reclaimImage (payload : PageReclaimPayload) (lsn pageId : Nat) (page : Page)
    (current : Option Nat) : Result (Option Page) :=
  if pageId = payload.page then reclaimTarget payload lsn page current
  else reclaimMetadata payload lsn page current

def writeImage (disk : DiskManager) (pageId : Nat) : Option Page → Result DiskManager
  | none => .ok disk
  | some image => disk.writePhysicalPage pageId image

/-- `apply` of `redoPageReclaim`: one of the two pages of the record. -/
def applyReclaim (payload : PageReclaimPayload) (lsn : Nat)
    (knownLaterState : Nat → Option Nat → Bool) (disk : DiskManager) (pageId : Nat) :
    Result DiskManager := do
  let page ← disk.readPhysicalPage pageId
  let current ← readPersistentPageLsn page
  if current = none ∧ knownLaterState pageId none then return disk
  else if ∃ later ∈ current, lsn < later then do
    require (knownLaterState pageId current)
      (corruptRecord "PAGE_RECLAIM unknown later page identity")
    return disk
  else do
    let image ← reclaimImage payload lsn pageId page current
    writeImage disk pageId image

/-- A page 0 that may be older than the record must not name its target. -/
def requireNotCatalogRoot (payload : PageReclaimPayload) (lsn : Nat) (metadata : Page) :
    Result Unit := do
  let metadataLsn ← readPersistentPageLsn metadata
  if ∀ known ∈ metadataLsn, known ≤ lsn then do
    let header ← deserializeDatabaseHeader metadata
    require (header.catalogRootPageId ≠ payload.page)
      (corruptRecord "PAGE_RECLAIM targets the live catalog root")
  else .ok ()

def redoPageReclaim (disk : DiskManager) (record : LogRecord)
    (knownLaterState : Nat → Option Nat → Bool) : Result DiskManager := do
  let payload ← decodePageReclaim record
  require (payload.pageCount ≤ disk.pageCount)
    (corruptRecord "PAGE_RECLAIM cannot extend a missing physical extent")
  let metadata ← disk.readPhysicalPage 0
  requireNotCatalogRoot payload record.lsn metadata
  let disk ← applyReclaim payload record.lsn knownLaterState disk payload.page
  applyReclaim payload record.lsn knownLaterState disk 0

end MiniDb
