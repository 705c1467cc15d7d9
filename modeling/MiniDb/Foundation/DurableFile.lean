import Mathlib.Data.List.Basic
import Mathlib.Data.List.Sublists

/-!
A file of blocks behind an operating-system cache. Writes are visible at once
and become durable at the next synchronisation; a crash keeps the synchronised
contents and any subset of the later operations, each of them whole. Blocks are
of any type; `blank` is what an extended file shows where nothing was written.
-/
namespace DurableFile

variable {α : Type}

inductive FileOp (α : Type)
  | write (index : Nat) (block : α)
  | truncate (count : Nat)

def writeBlock (blank : α) (blocks : List α) (index : Nat) (block : α) : List α :=
  (blocks ++ List.replicate (index + 1 - blocks.length) blank).set index block

def applyOp (blank : α) (blocks : List α) : FileOp α → List α
  | .write index block => writeBlock blank blocks index block
  | .truncate count => blocks.take count

structure BufferedFile (α : Type) where
  durable : List α
  pending : List (FileOp α)

variable {file : BufferedFile α}

namespace BufferedFile

def contents (blank : α) (file : BufferedFile α) : List α :=
  file.pending.foldl (applyOp blank) file.durable

def perform (file : BufferedFile α) (op : FileOp α) : BufferedFile α :=
  { file with pending := file.pending ++ [op] }

def sync (blank : α) (file : BufferedFile α) : BufferedFile α :=
  ⟨file.contents blank, []⟩

/-- The blocks that a crash can leave behind. -/
def Survives (blank : α) (file : BufferedFile α) (blocks : List α) : Prop :=
  ∃ kept : List (FileOp α), kept.Sublist file.pending ∧
    blocks = kept.foldl (applyOp blank) file.durable

end BufferedFile

open BufferedFile List

variable {blank : α}

@[simp] theorem length_writeBlock (bks : List α) (ix : Nat) (block : α) :
    (writeBlock blank bks ix block).length = max bks.length (ix + 1) := by
  simp only [writeBlock, length_set, length_append, length_replicate]
  omega

theorem getElem?_writeBlock (bks : List α) (ix : Nat) (block : α) (i : Nat) :
    (writeBlock blank bks ix block)[i]? = if i = ix then some block
      else if i < bks.length then bks[i]?
      else if i < ix then some blank else none := by
  unfold writeBlock
  by_cases hi : i = ix
  · subst hi
    rw [getElem?_set_self (by simp; omega), if_pos rfl]
  · rw [getElem?_set_ne (Ne.symm hi), if_neg hi]
    by_cases hl : i < bks.length
    · rw [getElem?_append_left hl, if_pos hl]
    · rw [getElem?_append_right (by omega), if_neg hl, getElem?_replicate]
      by_cases hp : i < ix
      · rw [if_pos (by omega), if_pos hp]
      · rw [if_neg (by omega), if_neg hp]

@[simp] theorem getD_writeBlock (bks : List α) (ix : Nat) (block : α) (i : Nat) :
    (writeBlock blank bks ix block).getD i blank = if i = ix then block else bks.getD i blank := by
  rw [getD_eq_getElem?_getD, getElem?_writeBlock, getD_eq_getElem?_getD]
  by_cases hi : i = ix
  · simp [hi]
  · by_cases hl : i < bks.length
    · simp [hi, hl]
    · have hn := getElem?_eq_none (not_lt.mp hl)
      by_cases hp : i < ix
      · simp [hi, hl, hp]
      · simp [hi, hl, hp]

theorem getD_take (bks : List α) (cnt i : Nat) :
    (bks.take cnt).getD i blank = if i < cnt then bks.getD i blank else blank := by
  rw [getD_eq_getElem?_getD, getElem?_take, getD_eq_getElem?_getD]
  split <;> rfl

@[simp] theorem contents_perform (file : BufferedFile α) (op : FileOp α) :
    (file.perform op).contents blank = applyOp blank (file.contents blank) op := by
  simp [contents, perform]

theorem survives_self (file : BufferedFile α) : Survives blank file (file.contents blank) :=
  ⟨file.pending, List.Sublist.refl _, rfl⟩

/-- Every surviving image of a file satisfies what the durable contents satisfy
and each later operation keeps. -/
theorem survives_induction {P : List α → Prop} {bks : List α} (h : Survives blank file bks)
    (hb : P file.durable) (ht : ∀ op ∈ file.pending, ∀ bks, P bks → P (applyOp blank bks op)) :
    P bks := by
  obtain ⟨kept, hs, rfl⟩ := h
  have hm : ∀ op ∈ kept, op ∈ file.pending := fun op ho => hs.subset ho
  generalize hd : file.durable = base at hb ⊢
  clear hd hs
  induction kept generalizing base with
  | nil => exact hb
  | cons op kept ih =>
    rw [foldl_cons]
    refine ih (fun op' ho' => hm op' (by simp [ho'])) _ ?_
    exact ht op (hm op (by simp)) base hb

/-- No operation of the file reaches the block `count` or one behind it. -/
structure BufferedFile.Within (file : BufferedFile α) (count : Nat) : Prop where
  durable : file.durable.length ≤ count
  pending : ∀ op ∈ file.pending, ∃ index block, op = .write index block ∧ index < count

theorem BufferedFile.Within.mono {cnt cnt' : Nat} (h : file.Within cnt) (hle : cnt ≤ cnt') :
    file.Within cnt' := by
  refine ⟨h.durable.trans hle, ?_⟩
  intro op ho
  obtain ⟨ix, block, hw, hlt⟩ := h.pending op ho
  exact ⟨ix, block, hw, hlt.trans_le hle⟩

theorem BufferedFile.Within.write {cnt ix : Nat} {block : α} (h : file.Within cnt)
    (hlt : ix < cnt) : (file.perform (.write ix block)).Within cnt := by
  refine ⟨h.durable, ?_⟩
  intro op ho
  rcases mem_append.mp ho with ho | ho
  · exact h.pending op ho
  · exact ⟨ix, block, mem_singleton.mp ho, hlt⟩

theorem BufferedFile.Within.survives {cnt : Nat} {bks : List α} (h : file.Within cnt)
    (hs : Survives blank file bks) : bks.length ≤ cnt := by
  refine survives_induction (P := fun bks => bks.length ≤ cnt) hs h.durable ?_
  intro op ho bks hb
  obtain ⟨ix, block, rfl, hlt⟩ := h.pending op ho
  simp only [applyOp, length_writeBlock]
  omega

theorem BufferedFile.Within.sync {cnt : Nat} (h : file.Within cnt) : (file.sync blank).Within cnt :=
  ⟨h.survives (survives_self file), by simp [BufferedFile.sync]⟩

end DurableFile
