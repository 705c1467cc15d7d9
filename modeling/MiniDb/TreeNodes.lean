import MiniDb.PageImages
import MiniDb.Tables

/-!
The node pages of the persistent B+ tree. What a reader looks at is stated once as a
predicate on the page; the writers establish it, storing a PageLSN keeps it, and the
reader returns the node from it. The legacy layout of a leaf differs by its header.
-/
namespace MiniDb.BPlusTree
open ByteBlock ByteString Outcome Sql List

structure IndexEntry where
  key : Nat
  recordId : RecordId
  deriving DecidableEq

structure LeafNode where
  entries : List IndexEntry
  nextPageId : Nat
  previousPageId : Nat
  deriving DecidableEq

structure InternalNode where
  keys : List Nat
  children : List Nat
  deriving DecidableEq

/-- What the readers of node pages know of the tree and its file. -/
structure Tree where
  metadataPageId : Nat
  pageCount : Nat

def physicalLeafMaxKeys : Nat := (pageSize - 36) / 10

def physicalInternalMaxKeys : Nat := (pageSize - 32 - 4) / 8

def validateLogicalCapacities (leafMaxKeys internalMaxKeys : Nat) : Result Unit := do
  require (3 ≤ leafMaxKeys ∧ leafMaxKeys ≤ physicalLeafMaxKeys)
    (.invalidArgument "Persistent B+ tree leaf capacity is outside physical limits.")
  require (3 ≤ internalMaxKeys ∧ internalMaxKeys ≤ physicalInternalMaxKeys)
    (.invalidArgument "Persistent B+ tree internal capacity is outside physical limits.")

def isValid (recordId : RecordId) : Bool :=
  recordId.pageId ≠ invalidPageId && recordId.pageId ≠ 0 && recordId.slotId ≠ 2 ^ 16 - 1

/-- The page ids that a node can have, of a tree with this metadata page. -/
def Tree.NodeId (tree : Tree) (pageId : Nat) : Prop :=
  pageId ≠ 0 ∧ pageId ≠ invalidPageId ∧ pageId ≠ tree.metadataPageId ∧ pageId < tree.pageCount

instance (tree : Tree) (pageId : Nat) : Decidable (tree.NodeId pageId) :=
  inferInstanceAs (Decidable (_ ∧ _))

def isLeafPage (tree : Tree) (pageId : Nat) (page : Page) : Result Bool := do
  require (tree.NodeId pageId)
    (.runtimeError "Persistent B+ tree references an invalid node page ID.")
  if hasMagic page bplusLeafLayout.magic then return true
  else do
    require (hasMagic page bplusInternalLayout.magic)
      (.runtimeError "Persistent B+ tree node has an invalid magic/type.")
    return false

/-! Leaves. -/

def validateLink (tree : Tree) (pageId link : Nat) : Result Unit :=
  require (link = invalidPageId ∨
      (link ≠ 0 ∧ link ≠ tree.metadataPageId ∧ link ≠ pageId ∧ link < tree.pageCount))
    (.runtimeError "Persistent B+ tree leaf has an invalid sibling page ID.")

def entryAt (page : Page) (offset : Nat) : IndexEntry :=
  ⟨readUint32 page offset, readUint32 page (offset + 4), ByteBlock.readLe page (offset + 8) 2⟩

def readEntry (page : Page) (headerSize : Nat) (entries : List IndexEntry) (index : Nat) :
    Result (List IndexEntry) := do
  let entry := entryAt page (headerSize + index * 10)
  require (isValid entry.recordId)
    (.runtimeError "Persistent B+ tree leaf contains an invalid RecordId.")
  require (∀ last ∈ entries.getLast?, last.key < entry.key)
    (.runtimeError "Persistent B+ tree leaf keys are not strictly sorted.")
  return entries ++ [entry]

def readLeaf (tree : Tree) (pageId : Nat) (page : Page) (logicalCapacity : Nat) :
    Result LeafNode := do
  let leafPage ← isLeafPage tree pageId page
  require leafPage (.runtimeError "Expected a persistent B+ tree leaf page.")
  let version := readUint32 page 8
  require (version = 1 ∨ version = 2)
    (.runtimeError ("Unsupported persistent B+ tree leaf version " ++ toString version ++ "."))
  let headerSize := if version = 1 then 32 else 36
  require (readUint32 page 12 = headerSize)
    (.runtimeError "Persistent B+ tree leaf has an invalid header size.")
  let keyCount := readUint32 page 16
  require (keyCount ≠ 0 ∧ keyCount ≤ logicalCapacity ∧ keyCount ≤ physicalLeafMaxKeys)
    (.runtimeError "Persistent B+ tree leaf has an invalid key count.")
  require (version = 1 → readUint32 page 28 = 0)
    (.runtimeError "Persistent B+ tree leaf reserved field is not zero.")
  let _ ← (if version = 2 then readPersistentPageLsn page else .ok none)
  validateLink tree pageId (readUint32 page 20)
  validateLink tree pageId (readUint32 page 24)
  let entries ← (List.range keyCount).foldlM (readEntry page headerSize) []
  require (ZeroBytes page (headerSize + keyCount * 10) pageSize)
    (.runtimeError "Persistent B+ tree leaf unused bytes are not zero.")
  let _ ← readPersistentPageLsn page
  return ⟨entries, readUint32 page 20, readUint32 page 24⟩

def entryLayout (entry : IndexEntry) : List (Nat × Nat) :=
  [(4, entry.key), (4, entry.recordId.pageId), (2, entry.recordId.slotId)]

/-- A leaf from the version field on. What stands before the entries is the PageLSN, or
the reserved bytes of the legacy layout; the writer leaves it zero. -/
def leafLayout (version headerSize lsn : Nat) (leaf : LeafNode) : List (Nat × Nat) :=
  [(4, version), (4, headerSize), (4, leaf.entries.length), (4, leaf.nextPageId),
    (4, leaf.previousPageId)] ++ (headerSize - 28, lsn) :: leaf.entries.flatMap entryLayout

def leafPage (version headerSize : Nat) (leaf : LeafNode) : Page :=
  writeLayout (magicPage bplusLeafLayout.magic) 8 (leafLayout version headerSize 0 leaf)

def writeLeaf (leaf : LeafNode) : Result Page := do
  require (leaf.entries ≠ [] ∧ leaf.entries.length ≤ physicalLeafMaxKeys)
    (.logicError "Cannot serialize a persistent B+ tree leaf with invalid size.")
  return leafPage 2 36 leaf

/-! Internal nodes. -/

def readChild (tree : Tree) (pageId : Nat) (page : Page) (keyCount : Nat) (node : InternalNode)
    (index : Nat) : Result InternalNode := do
  let child := readUint32 page (32 + index * 8)
  require (tree.NodeId child ∧ child ≠ pageId)
    (.runtimeError "Persistent B+ tree internal page has an invalid child ID.")
  if index < keyCount then do
    let key := readUint32 page (32 + 4 + index * 8)
    require (∀ last ∈ node.keys.getLast?, last < key)
      (.runtimeError "Persistent B+ tree internal separators are not strictly sorted.")
    return ⟨node.keys ++ [key], node.children ++ [child]⟩
  else return ⟨node.keys, node.children ++ [child]⟩

def readInternal (tree : Tree) (pageId : Nat) (page : Page) (logicalCapacity : Nat) :
    Result InternalNode := do
  let leafPage ← isLeafPage tree pageId page
  require (leafPage = false) (.runtimeError "Expected a persistent B+ tree internal page.")
  let version := readUint32 page 8
  require (version = 1)
    (.runtimeError ("Unsupported persistent B+ tree internal version " ++ toString version ++ "."))
  require (readUint32 page 12 = 32)
    (.runtimeError "Persistent B+ tree internal page has an invalid header size.")
  let keyCount := readUint32 page 16
  require (keyCount ≠ 0 ∧ keyCount ≤ logicalCapacity ∧ keyCount ≤ physicalInternalMaxKeys)
    (.runtimeError "Persistent B+ tree internal page has an invalid key count.")
  require (readUint32 page 20 = keyCount + 1)
    (.runtimeError "Persistent B+ tree internal child/key counts disagree.")
  require (ZeroBytes page (bplusInternalLayout.slotOffset + 8) 32)
    (.runtimeError "Persistent B+ tree internal reserved bytes are not zero.")
  let _ ← readPersistentPageLsn page
  let node ← (List.range (keyCount + 1)).foldlM (readChild tree pageId page keyCount) ⟨[], []⟩
  require (ZeroBytes page (32 + 4 + keyCount * 8) pageSize)
    (.runtimeError "Persistent B+ tree internal unused bytes are not zero.")
  return node

/-- The children with the keys between them. -/
def childLayout : (children keys : List Nat) → List (Nat × Nat)
  | child :: children, key :: keys => (4, child) :: (4, key) :: childLayout children keys
  | children, _ => children.map ((4, ·))

def internalLayout (lsn : Nat) (node : InternalNode) : List (Nat × Nat) :=
  [(4, 1), (4, 32), (4, node.keys.length), (4, node.children.length)] ++
    (8, lsn) :: childLayout node.children node.keys

def internalPage (node : InternalNode) : Page :=
  writeLayout (magicPage bplusInternalLayout.magic) 8 (internalLayout 0 node)

def writeInternal (node : InternalNode) : Result Page := do
  require (node.keys ≠ [] ∧ node.keys.length ≤ physicalInternalMaxKeys ∧
      node.children.length = node.keys.length + 1)
    (.logicError "Cannot serialize an invalid persistent B+ tree internal node.")
  return internalPage node

/-! What a page says of its node. -/

variable {tree : Tree} {pid cap version headerSize lsn off k v : Nat} {pg : Page}
  {leaf : LeafNode} {node : InternalNode} {magic : List Char} {lay : List (Nat × Nat)}

theorem slot_of_leaf (h : Image bplusLeafLayout.magic lay pg) :
    persistentPageLsnSlot pg = bplusLeafSlot pg := by
  unfold persistentPageLsnSlot
  repeat rw [h.hasMagic_eq rfl, if_neg (by decide +kernel)]
  rw [h.hasMagic_eq rfl, if_pos (by decide +kernel)]

theorem slot_of_internal (h : Image bplusInternalLayout.magic lay pg) :
    persistentPageLsnSlot pg = layoutSlot bplusInternalLayout pg := by
  unfold persistentPageLsnSlot
  repeat rw [h.hasMagic_eq rfl, if_neg (by decide +kernel)]
  rw [h.hasMagic_eq rfl, if_pos (by decide +kernel)]

/-- The last element before one of a sorted list is below it. -/
theorem lt_of_getLast?_take {α : Type} {R : α → α → Prop} {l : List α} {a last : α}
    (hs : l.Pairwise R) (hk : l[k]? = some a) (hl : last ∈ (l.take k).getLast?) : R last a := by
  rw [← take_append_drop k l, pairwise_append] at hs
  exact hs.2.2 last (mem_of_getLast? hl) a (mem_iff_getElem?.mpr ⟨0, by rwa [getElem?_drop]⟩)

/-! Leaves. -/

/-- A leaf that the tree may write to this page; its numbers fit their fields. -/
structure LeafNode.Formed (tree : Tree) (pageId capacity : Nat) (leaf : LeafNode) : Prop where
  filled : leaf.entries.length ≠ 0
  fits : leaf.entries.length ≤ capacity
  sorted : leaf.entries.Pairwise (·.key < ·.key)
  valid : ∀ entry ∈ leaf.entries, isValid entry.recordId = true
  bounded : ∀ entry ∈ leaf.entries, ∀ field ∈ entryLayout entry, field.2 < 256 ^ field.1
  next : validateLink tree pageId leaf.nextPageId = .ok ()
  previous : validateLink tree pageId leaf.previousPageId = .ok ()

def LeafVersion (version headerSize : Nat) : Prop :=
  version = 1 ∧ headerSize = 32 ∨ version = 2 ∧ headerSize = 36

theorem widths_entries (ents : List IndexEntry) :
    widths (ents.flatMap entryLayout) = ents.length * 10 := by
  induction ents with
  | nil => rfl
  | cons ent ents ih =>
    rw [flatMap_cons, widths_append, ih, length_cons]
    simp [entryLayout, widths]
    omega

theorem widths_leaf (hv : LeafVersion version headerSize) :
    8 + widths (leafLayout version headerSize lsn leaf) =
      headerSize + leaf.entries.length * 10 := by
  simp only [leafLayout, widths_append, widths_cons, widths_entries, show widths [] = 0 from rfl]
  rcases hv with ⟨rfl, rfl⟩ | ⟨rfl, rfl⟩ <;> omega

theorem entryAt_of_reads {ents : List IndexEntry} {ent : IndexEntry}
    (h : Reads pg off (ents.flatMap entryLayout)) (hk : ents[k]? = some ent) :
    entryAt pg (off + k * 10) = ent := by
  induction ents generalizing off k with
  | nil => cases hk
  | cons fst ents ih =>
    rw [flatMap_cons, reads_append] at h
    cases k with
    | zero =>
      cases hk
      obtain ⟨⟨hk, hp, hs, _⟩, _⟩ := h
      rw [Nat.zero_mul, add_zero, entryAt, readUint32, readUint32, hk, hp, hs]
    | succ k =>
      rw [Nat.succ_mul, Nat.add_comm _ 10, ← add_assoc]
      exact ih h.2 hk

theorem leaf_slot (h : Image bplusLeafLayout.magic (leafLayout 2 36 lsn leaf) pg) :
    persistentPageLsnSlot pg = .ok (some ⟨.bplusLeaf, 28⟩) := by
  have h8 : readUint32 pg 8 = 2 := h.reads.1
  rw [slot_of_leaf h, bplusLeafSlot, if_neg (by omega)]
  exact layoutSlot_of h8 h.reads.2.1

theorem leaf_lsn (h : Image bplusLeafLayout.magic (leafLayout version headerSize lsn leaf) pg)
    (hv : LeafVersion version headerSize) (hl : lsn ≠ invalidLsn) :
    ∃ l, readPersistentPageLsn pg = .ok l := by
  rcases hv with ⟨rfl, rfl⟩ | ⟨rfl, rfl⟩
  · have h8 : readUint32 pg 8 = 1 := h.reads.1
    have h12 : readUint32 pg 12 = 32 := h.reads.2.1
    rw [readPersistentPageLsn, slot_of_leaf h, bplusLeafSlot, if_pos h8, requireUint32,
      require_of _ h12]
    exact ⟨_, rfl⟩
  · have hs := h.reads.2.2.2.2.2.1
    rw [readPersistentPageLsn, leaf_slot h]
    exact decode_lsn fun he => hl (hs.symm.trans he)

theorem readLeaf_of_image
    (h : Image bplusLeafLayout.magic (leafLayout version headerSize lsn leaf) pg)
    (hv : LeafVersion version headerSize) (hl : lsn ≠ invalidLsn) (hz : version = 1 → lsn = 0)
    (hd : tree.NodeId pid) (hf : leaf.Formed tree pid cap) (hc : cap ≤ physicalLeafMaxKeys) :
    isLeafPage tree pid pg = .ok true ∧ readLeaf tree pid pg cap = .ok leaf := by
  have hi : isLeafPage tree pid pg = .ok true := by
    rw [isLeafPage, require_of _ hd, h.hasMagic_eq rfl, if_pos (by decide +kernel)]
    rfl
  obtain ⟨h8, h12, h16, h20, h24, hs, he⟩ : readUint32 pg 8 = version ∧
    readUint32 pg 12 = headerSize ∧ readUint32 pg 16 = leaf.entries.length ∧
    readUint32 pg 20 = leaf.nextPageId ∧ readUint32 pg 24 = leaf.previousPageId ∧
    ByteBlock.readLe pg 28 (headerSize - 28) = lsn ∧
    Reads pg (28 + (headerSize - 28)) (leaf.entries.flatMap entryLayout) := h.reads
  have hh : (if version = 1 then 32 else 36) = headerSize ∧
    28 + (headerSize - 28) = headerSize := by
    rcases hv with ⟨rfl, rfl⟩ | ⟨rfl, rfl⟩ <;> exact ⟨rfl, rfl⟩
  rw [hh.2] at he
  have ho : ∀ k < leaf.entries.length, readEntry pg headerSize (leaf.entries.take k) k =
      .ok (leaf.entries.take (k + 1)) := by
    intro k hk
    have hg := getElem?_eq_getElem hk
    rw [readEntry, entryAt_of_reads he hg, require_of _ (hf.valid _ (getElem_mem hk)),
      require_of _ fun last hl => lt_of_getLast?_take hf.sorted hg hl, take_add_one, hg]
    rfl
  have ha := foldlM_range _ _ ho
  rw [take_zero, take_length] at ha
  obtain ⟨l, hn⟩ := leaf_lsn h hv hl
  have ht : (if version = 2 then readPersistentPageLsn pg else .ok none) =
      .ok (if version = 2 then l else none) := by
    rw [hn]
    split <;> rfl
  have hr : version = 1 → readUint32 pg 28 = 0 := by
    rintro rfl
    obtain rfl : headerSize = 32 := hh.1.symm
    exact hs.trans (hz rfl)
  have hu := h.unused
  rw [widths_leaf hv] at hu
  refine ⟨hi, ?_⟩
  simp only [readLeaf, ok_iff, h8, h12, h16, h20, h24, hh.1]
  exact ⟨true, hi, (), rfl, (), hv.imp And.left And.left, (), trivial, (),
    ⟨hf.filled, hf.fits, hf.fits.trans hc⟩, (), hr, _, ht, (), hf.next, (),
    hf.previous, _, ha, (), hu, l, hn, rfl⟩

theorem link_lt {link : Nat} (hc : tree.pageCount ≤ 2 ^ 32)
    (h : validateLink tree pid link = .ok ()) : link < 256 ^ 4 := by
  rcases require_ok.mp h with rfl | ⟨_, _, _, hlt⟩
  · decide
  · exact hlt.trans_le hc

theorem leafPage_image (hf : leaf.Formed tree pid cap) (ha : cap ≤ physicalLeafMaxKeys)
    (hc : tree.pageCount ≤ 2 ^ 32) (hv : LeafVersion version headerSize) :
    8 + widths (leafLayout version headerSize 0 leaf) ≤ pageSize ∧
      Image bplusLeafLayout.magic (leafLayout version headerSize 0 leaf)
        (leafPage version headerSize leaf) := by
  have hle : leaf.entries.length ≤ 406 := hf.fits.trans ha
  have hh : headerSize ≤ 36 ∧ version ≤ 2 := by
    rcases hv with ⟨rfl, rfl⟩ | ⟨rfl, rfl⟩ <;> decide
  have hn : 8 + widths (leafLayout version headerSize 0 leaf) ≤ pageSize := by
    rw [widths_leaf hv, pageSize]
    omega
  refine ⟨hn, .written rfl (forall_mem_append.mpr ⟨?_, forall_mem_cons.mpr ⟨Nat.pow_pos (by decide),
    fun field hm => ?_⟩⟩) hn⟩
  · simp only [forall_mem_cons, not_mem_nil, false_implies, implies_true, and_true]
    exact ⟨by omega, by omega, by omega, link_lt hc hf.next, link_lt hc hf.previous⟩
  · obtain ⟨ent, he, hm⟩ := mem_flatMap.mp hm
    exact hf.bounded ent he field hm

/-! Internal nodes. -/

structure InternalNode.Formed (tree : Tree) (pageId capacity : Nat) (node : InternalNode) :
    Prop where
  filled : node.keys.length ≠ 0
  fits : node.keys.length ≤ capacity
  children : node.children.length = node.keys.length + 1
  sorted : node.keys.Pairwise (· < ·)
  bounded : ∀ key ∈ node.keys, key < 2 ^ 32
  valid : ∀ child ∈ node.children, tree.NodeId child ∧ child ≠ pageId

/-- The children and keys in turn, with what the fields say of each of them. -/
theorem childLayout_spec {children keys : List Nat} (hl : children.length = keys.length + 1) :
    widths (childLayout children keys) = 4 + keys.length * 8 ∧
    ((∀ child ∈ children, child < 2 ^ 32) → (∀ key ∈ keys, key < 2 ^ 32) →
      ∀ field ∈ childLayout children keys, field.2 < 256 ^ field.1) ∧
    ∀ (pg : Page) (off k : Nat), Reads pg off (childLayout children keys) →
      (∀ child, children[k]? = some child → readUint32 pg (off + k * 8) = child) ∧
        ∀ key, keys[k]? = some key → readUint32 pg (off + 4 + k * 8) = key := by
  induction keys generalizing children with
  | nil =>
    obtain ⟨child, rfl⟩ := length_eq_one_iff.mp hl
    refine ⟨rfl, fun hc _ => forall_mem_singleton.mpr (hc child mem_cons_self), ?_⟩
    rintro pg off (_ | k) ⟨h, _⟩
    · exact ⟨fun _ hk => Option.some.inj hk ▸ h, nofun⟩
    · exact ⟨nofun, nofun⟩
  | cons key keys ih =>
    obtain ⟨child, children, rfl⟩ := exists_cons_of_length_eq_add_one hl
    obtain ⟨hw, hb, hr⟩ := ih (Nat.succ.inj hl)
    refine ⟨by rw [childLayout, widths_cons, widths_cons, hw, length_cons]; omega, ?_, ?_⟩
    · intro hc hk
      obtain ⟨hc, hs⟩ := forall_mem_cons.mp hc
      obtain ⟨hk, hks⟩ := forall_mem_cons.mp hk
      exact forall_mem_cons.mpr ⟨hc, forall_mem_cons.mpr ⟨hk, hb hs hks⟩⟩
    · rintro pg off (_ | k) ⟨hc, hk, h⟩
      · exact ⟨fun _ he => Option.some.inj he ▸ hc, fun _ he => Option.some.inj he ▸ hk⟩
      · have ht := hr pg _ k h
        rw [show off + 4 + 4 + k * 8 = off + (k + 1) * 8 by omega,
          show off + 4 + 4 + 4 + k * 8 = off + 4 + (k + 1) * 8 by omega] at ht
        exact ht

theorem widths_internal (hl : node.children.length = node.keys.length + 1) :
    8 + widths (internalLayout lsn node) = 32 + 4 + node.keys.length * 8 := by
  simp only [internalLayout, widths_append, widths_cons, (childLayout_spec hl).1,
    show widths [] = 0 from rfl]
  omega

theorem internal_slot (h : Image bplusInternalLayout.magic (internalLayout lsn node) pg) :
    persistentPageLsnSlot pg = .ok (some ⟨.bplusInternal, 24⟩) := by
  have h8 := h.reads.1
  rw [slot_of_internal h]
  exact layoutSlot_of h8 h.reads.2.1

theorem readInternal_of_image (h : Image bplusInternalLayout.magic (internalLayout lsn node) pg)
    (hl : lsn ≠ invalidLsn) (hd : tree.NodeId pid) (hf : node.Formed tree pid cap)
    (hcap : cap ≤ physicalInternalMaxKeys) :
    isLeafPage tree pid pg = .ok false ∧
      readInternal tree pid pg cap = .ok node := by
  have hi : isLeafPage tree pid pg = .ok false := by
    rw [isLeafPage, require_of _ hd, h.hasMagic_eq rfl, if_neg (by decide +kernel),
      h.hasMagic_eq rfl, require_of _ (by decide +kernel)]
    rfl
  obtain ⟨h8, h12, h16, h20, hs, he⟩ : readUint32 pg 8 = 1 ∧ readUint32 pg 12 = 32 ∧
    readUint32 pg 16 = node.keys.length ∧ readUint32 pg 20 = node.children.length ∧
    readUint64 pg 24 = lsn ∧ Reads pg 32 (childLayout node.children node.keys) := h.reads
  have hp : ∀ k < node.keys.length + 1, readChild tree pid pg node.keys.length
      ⟨node.keys.take k, node.children.take k⟩ k =
        .ok ⟨node.keys.take (k + 1), node.children.take (k + 1)⟩ := by
    intro k hk
    obtain ⟨hc, hy⟩ := (childLayout_spec hf.children).2.2 pg 32 k he
    have hlt : k < node.children.length := hf.children ▸ hk
    have hg := getElem?_eq_getElem hlt
    have hh : node.children.take (k + 1) = node.children.take k ++ [node.children[k]] := by
      rw [take_add_one, hg]
      rfl
    simp only [readChild, hc _ hg, require_of _ (hf.valid _ (getElem_mem _)), hh, ok_bind]
    split
    · rename_i hk
      have hg := getElem?_eq_getElem hk
      have ho : ∀ last ∈ (node.keys.take k).getLast?, last < node.keys[k] :=
        fun last hl => lt_of_getLast?_take hf.sorted hg hl
      rw [hy _ hg, require_of _ ho, take_add_one, hg]
      rfl
    · rw [take_of_length_le (by omega), take_of_length_le (i := k + 1) (by omega)]
      rfl
  have ha := foldlM_range _ (fun k => InternalNode.mk (node.keys.take k) (node.children.take k))
    hp
  rw [take_of_length_le (Nat.le_succ _), take_of_length_le hf.children.le] at ha
  obtain ⟨l, hn⟩ := decode_lsn (hs ▸ hl)
  have hr : readPersistentPageLsn pg = .ok l := by
    rw [readPersistentPageLsn, internal_slot h]
    exact hn
  have hu := h.unused
  rw [widths_internal hf.children] at hu
  refine ⟨hi, ?_⟩
  simp only [readInternal, ok_iff, h8, h12, h16, h20]
  exact ⟨false, hi, (), rfl, (), trivial, (), trivial, (),
    ⟨hf.filled, hf.fits, hf.fits.trans hcap⟩, (), hf.children, (),
    fun i hi hle => absurd hi hle.not_gt, l, hr, node, ha, (), hu, rfl⟩

theorem internalPage_image (hf : node.Formed tree pid cap)
    (ha : cap ≤ physicalInternalMaxKeys) (hc : tree.pageCount ≤ 2 ^ 32) :
    8 + widths (internalLayout 0 node) ≤ pageSize ∧
      Image bplusInternalLayout.magic (internalLayout 0 node) (internalPage node) := by
  have hle : node.keys.length ≤ 507 := hf.fits.trans ha
  have hl := hf.children
  have hn : 8 + widths (internalLayout 0 node) ≤ pageSize := by
    rw [widths_internal hl, pageSize]
    omega
  refine ⟨hn, .written rfl (forall_mem_append.mpr ⟨?_, forall_mem_cons.mpr ⟨by decide,
    (childLayout_spec hl).2.1 (fun child hm =>
      Nat.lt_of_lt_of_le (hf.valid child hm).1.2.2.2 hc) hf.bounded⟩⟩) hn⟩
  simp only [forall_mem_cons, not_mem_nil, false_implies, implies_true, and_true]
  exact ⟨by decide, by decide, by omega, by omega⟩

/-! Round trips. -/

/-- The page itself, or with a PageLSN stored in it. -/
def Stamping (page stamped : Page) : Prop :=
  stamped = page ∨ ∃ lsn, (∀ value ∈ lsn, value < invalidLsn) ∧
    writePersistentPageLsn page lsn = .ok stamped

theorem Stamping.image {bef aft : List (Nat × Nat)} {pg' : Page} {type : PersistentPageType}
    (h : Stamping pg pg') (hi : Image magic (bef ++ (8, 0) :: aft) pg)
    (hs : persistentPageLsnSlot pg = .ok (some ⟨type, 8 + widths bef⟩))
    (hn : 8 + widths bef + 8 ≤ pageSize) :
    ∃ v ≠ invalidLsn, Image magic (bef ++ (8, v) :: aft) pg' := by
  rcases h with rfl | ⟨lsn, hl, hw⟩
  · exact ⟨0, by decide, hi⟩
  · simp only [writePersistentPageLsn, hs, ok_bind, ok_iff] at hw
    obtain ⟨v, he, rfl⟩ := hw
    have hv : v < invalidLsn := by
      cases lsn with
      | none =>
        cases he
        decide
      | some lsn =>
        simp only [encodePersistentPageLsn, ok_iff] at he
        obtain ⟨_, _, rfl⟩ := he
        exact hl lsn rfl
    exact ⟨v, hv.ne, hi.stamped hv hn⟩

/-- What is written for a node is read back as that node with any PageLSN, and fits the page. -/
theorem tree_nodes_round_trip {tree : Tree} {leafMaxKeys internalMaxKeys pid : Nat}
    (hc : validateLogicalCapacities leafMaxKeys internalMaxKeys = .ok ())
    (ho : tree.pageCount ≤ 2 ^ 32) (hd : tree.NodeId pid) :
    (∀ leaf : LeafNode, leaf.Formed tree pid leafMaxKeys →
      8 + widths (leafLayout 2 36 0 leaf) ≤ pageSize ∧
      ∃ pg, writeLeaf leaf = .ok pg ∧ supportsPersistentPageLsn pg = .ok true ∧
        ∀ stamped, Stamping pg stamped → isLeafPage tree pid stamped = .ok true ∧
          readLeaf tree pid stamped leafMaxKeys = .ok leaf) ∧
    (∀ node : InternalNode, node.Formed tree pid internalMaxKeys →
      8 + widths (internalLayout 0 node) ≤ pageSize ∧
      ∃ pg, writeInternal node = .ok pg ∧ supportsPersistentPageLsn pg = .ok true ∧
        ∀ stamped, Stamping pg stamped → isLeafPage tree pid stamped = .ok false ∧
          readInternal tree pid stamped internalMaxKeys = .ok node) ∧
    ∀ leaf : LeafNode, leaf.Formed tree pid leafMaxKeys →
      8 + widths (leafLayout 1 32 0 leaf) ≤ pageSize ∧
      isLeafPage tree pid (leafPage 1 32 leaf) = .ok true ∧
      readLeaf tree pid (leafPage 1 32 leaf) leafMaxKeys = .ok leaf := by
  simp only [validateLogicalCapacities, ok_iff] at hc
  obtain ⟨_, ⟨_, hl⟩, _, ht⟩ := hc
  refine ⟨fun leaf hf => ?_, fun node hf => ?_, fun leaf hf => ?_⟩
  · obtain ⟨hs, hi⟩ := leafPage_image hf hl ho (Or.inr ⟨rfl, rfl⟩)
    refine ⟨hs, leafPage 2 36 leaf, ?_, ?_, fun stamped hst => ?_⟩
    · rw [writeLeaf, require_of _ ⟨fun hn => hf.filled (length_eq_zero_iff.mpr hn),
        hf.fits.trans hl⟩]
      rfl
    · rw [supportsPersistentPageLsn, leaf_slot hi]
      rfl
    · obtain ⟨v, hv, hm⟩ := hst.image hi (leaf_slot hi) (show 36 ≤ pageSize by decide)
      exact readLeaf_of_image hm (.inr ⟨rfl, rfl⟩) hv (by simp) hd hf hl
  · obtain ⟨hs, hi⟩ := internalPage_image hf ht ho
    refine ⟨hs, internalPage node, ?_, ?_, fun stamped hst => ?_⟩
    · rw [writeInternal, require_of _ ⟨fun hn => hf.filled (length_eq_zero_iff.mpr hn),
        hf.fits.trans ht, hf.children⟩]
      rfl
    · rw [supportsPersistentPageLsn, internal_slot hi]
      rfl
    · obtain ⟨v, hv, hm⟩ := hst.image hi (internal_slot hi) (show 32 ≤ pageSize by decide)
      exact readInternal_of_image hm hv hd hf ht
  · obtain ⟨hs, hi⟩ := leafPage_image hf hl ho (Or.inl ⟨rfl, rfl⟩)
    exact ⟨hs, readLeaf_of_image hi (.inl ⟨rfl, rfl⟩) (by decide) (fun _ => rfl) hd hf hl⟩

def twoEntries : LeafNode := ⟨[⟨7, ⟨3, 0⟩⟩, ⟨9, ⟨3, 1⟩⟩], 4, invalidPageId⟩

def twoKeys : InternalNode := ⟨[5, 6], [7, 8, 3]⟩

theorem tree_nodes_round_trip_one :
    (∃ pg stamped, writeLeaf twoEntries = .ok pg ∧
      writePersistentPageLsn pg (some 64) = .ok stamped ∧
      readLeaf ⟨1, 9⟩ 2 stamped 3 = .ok twoEntries) ∧
    ∃ pg stamped, writeInternal twoKeys = .ok pg ∧
      writePersistentPageLsn pg (some 64) = .ok stamped ∧
      readInternal ⟨1, 9⟩ 2 stamped 3 = .ok twoKeys := by
  obtain ⟨hleaf, hnode, _⟩ := tree_nodes_round_trip
    (show validateLogicalCapacities 3 3 = .ok () by rfl)
    (show (⟨1, 9⟩ : Tree).pageCount ≤ 2 ^ 32 by decide) (by decide : Tree.NodeId ⟨1, 9⟩ 2)
  have hstamp : ∀ {pg : Page}, supportsPersistentPageLsn pg = .ok true →
      writePersistentPageLsn pg (some 64) = .ok (stamped pg 64) := by
    intro pg hsupports
    simp only [supportsPersistentPageLsn, ok_iff] at hsupports
    obtain ⟨slot, hslot, hsome⟩ := hsupports
    obtain ⟨slot, rfl⟩ := Option.isSome_iff_exists.mp hsome
    exact writePersistentPageLsn_ok.mpr ⟨by rw [pageLsnSlot, hslot]; rfl, by decide, rfl⟩
  have hlsn : ∀ value ∈ some 64, value < invalidLsn := by simp [invalidLsn]
  obtain ⟨_, pg, hwrite, hsupports, hread⟩ := hleaf twoEntries
    ⟨by decide, by decide, by decide, by decide, by decide, by rfl, by rfl⟩
  obtain ⟨_, pg', hwrite', hsupports', hread'⟩ := hnode twoKeys
    ⟨by decide, by decide, by decide, by decide, by decide, by decide⟩
  exact ⟨⟨pg, _, hwrite, hstamp hsupports, (hread _ (.inr ⟨_, hlsn, hstamp hsupports⟩)).2⟩,
    pg', _, hwrite', hstamp hsupports', (hread' _ (.inr ⟨_, hlsn, hstamp hsupports'⟩)).2⟩

end MiniDb.BPlusTree
