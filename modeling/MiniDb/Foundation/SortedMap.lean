import Mathlib.Data.List.Sort

/-!
Finite maps with natural keys, kept as association lists in key order. A walk
over the entries visits the keys in ascending order, each one once, which the
order of the list carries as a field of the structure.
-/

variable {α β : Type}

structure SortedMap (α : Type) where
  entries : List (Nat × α)
  sorted : entries.Pairwise (fun a b => a.1 < b.1)

namespace SortedMap
open List

def empty : SortedMap α := ⟨[], List.Pairwise.nil⟩

def find? (map : SortedMap α) (key : Nat) : Option α :=
  (map.entries.find? (·.1 = key)).map Prod.snd

def contains (map : SortedMap α) (key : Nat) : Bool := (map.find? key).isSome

def keys (map : SortedMap α) : List Nat := map.entries.map Prod.fst

def insert (map : SortedMap α) (key : Nat) (value : α) : SortedMap α where
  entries := map.entries.filter (·.1 < key) ++ (key, value) :: map.entries.filter (key < ·.1)
  sorted := by
    refine pairwise_append.mpr
      ⟨map.sorted.filter _, pairwise_cons.mpr ⟨?_, map.sorted.filter _⟩, ?_⟩
    · intro entry he
      exact of_decide_eq_true (mem_filter.mp he).2
    · intro left hl right hr
      have hl := of_decide_eq_true (mem_filter.mp hl).2
      rcases mem_cons.mp hr with rfl | hr
      · exact hl
      · exact hl.trans (of_decide_eq_true (mem_filter.mp hr).2)

def erase (map : SortedMap α) (key : Nat) : SortedMap α :=
  ⟨map.entries.filter (fun entry => entry.1 ≠ key), map.sorted.filter _⟩

def filterKeys (map : SortedMap α) (keep : Nat → Bool) : SortedMap α :=
  ⟨map.entries.filter (fun entry => keep entry.1), map.sorted.filter _⟩

variable {map : SortedMap α} {key : Nat}

theorem find?_eq_some {v : α} : map.find? key = some v ↔ (key, v) ∈ map.entries := by
  have hn : (map.entries.map Prod.fst).Nodup := pairwise_map.mpr (map.sorted.imp Nat.ne_of_lt)
  rw [find?, Option.map_eq_some_iff]
  constructor
  · rintro ⟨⟨k, w⟩, hf, rfl⟩
    obtain rfl : k = key := by simpa using List.find?_some hf
    exact mem_of_find?_eq_some hf
  · intro h
    cases hf : map.entries.find? (·.1 = key) with
    | none => simpa using find?_eq_none.mp hf _ h
    | some entry =>
      have hk : entry.1 = key := by simpa using List.find?_some hf
      exact ⟨entry, rfl, congrArg Prod.snd (inj_on_of_nodup_map hn (mem_of_find?_eq_some hf) h hk)⟩

@[simp] theorem find?_empty (key : Nat) : (empty : SortedMap α).find? key = none := rfl

@[simp] theorem find?_insert (map : SortedMap α) (key : Nat) (v : α) (other : Nat) :
    (map.insert key v).find? other = if other = key then some v else map.find? other := by
  refine Option.ext ?_
  intro w
  rw [find?_eq_some]
  simp only [insert, mem_append, mem_cons, mem_filter, decide_eq_true_eq, Prod.mk.injEq]
  split
  · rename_i ho
    simp [ho, eq_comm]
  · rename_i ho
    rw [find?_eq_some]
    constructor
    · rintro (h | h | h)
      · exact h.1
      · exact absurd h.1 ho
      · exact h.1
    · intro h
      rcases Nat.lt_or_gt_of_ne ho with hlt | hgt
      · exact .inl ⟨h, hlt⟩
      · exact .inr (.inr ⟨h, hgt⟩)

theorem eq_of_find?_insert {v fd : α} (h : (map.insert key v).find? key = some fd) : v = fd := by
  rw [find?_insert, if_pos rfl] at h
  exact Option.some.inj h

theorem forall_insert {P : Nat → α → Prop} {v : α} (hk : P key v)
    (h : ∀ other w, other ≠ key → map.find? other = some w → P other w) :
    ∀ other w, (map.insert key v).find? other = some w → P other w := by
  intro other w hw
  rw [find?_insert] at hw
  split at hw
  · rename_i ho
    subst ho
    cases hw
    exact hk
  · rename_i ho
    exact h other w ho hw

@[simp] theorem find?_filterKeys (map : SortedMap α) (keep : Nat → Bool) (other : Nat) :
    (map.filterKeys keep).find? other = if keep other then map.find? other else none := by
  refine Option.ext ?_
  intro v
  rw [find?_eq_some]
  simp only [filterKeys, mem_filter]
  split
  · rename_i hk
    simp [hk, find?_eq_some]
  · rename_i hk
    simp [hk]

@[simp] theorem find?_erase (map : SortedMap α) (key other : Nat) :
    (map.erase key).find? other = if other = key then none else map.find? other := by
  have h := find?_filterKeys map (fun k => k ≠ key) other
  by_cases hk : other = key
  · simpa [hk, erase, filterKeys] using h
  · simpa [hk, erase, filterKeys] using h

theorem find?_of_erase {other : Nat} {v : α} (h : (map.erase key).find? other = some v) :
    map.find? other = some v := by
  rw [find?_erase] at h
  split at h
  · cases h
  · exact h

def mapValues (map : SortedMap α) (f : α → β) : SortedMap β :=
  ⟨map.entries.map fun entry => (entry.1, f entry.2), List.pairwise_map.mpr map.sorted⟩

@[simp] theorem find?_mapValues (map : SortedMap α) (f : α → β) (key : Nat) :
    (map.mapValues f).find? key = (map.find? key).map f := by
  simp only [find?, mapValues, List.find?_map, Option.map_map]
  rfl

theorem mem_keys : key ∈ map.keys ↔ ∃ v, map.find? key = some v := by
  simp only [keys, mem_map, Prod.exists, find?_eq_some]
  constructor
  · rintro ⟨k, v, hm, rfl⟩
    exact ⟨v, hm⟩
  · rintro ⟨v, hm⟩
    exact ⟨key, v, hm, rfl⟩

theorem contains_iff : map.contains key = true ↔ ∃ v, map.find? key = some v := by
  simp [contains, Option.isSome_iff_exists]

/-- How many keys have a value of this kind. -/
def countValues (map : SortedMap α) (p : α → Bool) : Nat :=
  map.entries.countP fun entry => p entry.2

theorem sorted_keys (map : SortedMap α) : map.keys.Pairwise (· < ·) :=
  pairwise_map.mpr map.sorted

/-- Lists in key order with the same entries are the same. -/
theorem eq_of_sorted {a b : List (Nat × α)} (ha : a.Pairwise (fun x y => x.1 < y.1))
    (hb : b.Pairwise (fun x y => x.1 < y.1)) (h : ∀ ent, ent ∈ a ↔ ent ∈ b) : a = b := by
  have hn : ∀ l : List (Nat × α), l.Pairwise (fun x y => x.1 < y.1) → l.Nodup := fun l hl =>
    hl.imp fun hlt heq => absurd (heq ▸ hlt) (lt_irrefl _)
  refine ((perm_ext_iff_of_nodup (hn a ha) (hn b hb)).mpr h).eq_of_pairwise ?_ ha hb
  intro x y _ _ hx hy
  exact absurd hx (Nat.lt_asymm hy)

/-- A map is known by its lookups, since both entry lists are in key order. -/
theorem ext_find {a b : SortedMap α} (h : ∀ key, a.find? key = b.find? key) : a = b := by
  have he : a.entries = b.entries := by
    refine eq_of_sorted a.sorted b.sorted ?_
    rintro ⟨key, v⟩
    rw [← find?_eq_some, ← find?_eq_some, h]
  cases a
  cases b
  simp only at he
  subst he
  rfl

@[simp] theorem insert_insert (map : SortedMap α) (key : Nat) (old new : α) :
    (map.insert key old).insert key new = map.insert key new := by
  refine ext_find ?_
  intro other
  simp only [find?_insert]
  split <;> rfl

theorem nodup_entries (map : SortedMap α) : map.entries.Nodup :=
  map.sorted.imp fun hlt heq => absurd (heq ▸ hlt) (lt_irrefl _)

theorem perm_erase {v : α} (h : map.find? key = some v) :
    map.entries.Perm ((key, v) :: (map.erase key).entries) := by
  refine (perm_ext_iff_of_nodup map.nodup_entries
    (nodup_cons.mpr ⟨by simp [erase], (map.erase key).nodup_entries⟩)).mpr ?_
  rintro ⟨k, w⟩
  rw [mem_cons, ← find?_eq_some, ← find?_eq_some, find?_erase]
  by_cases hk : k = key
  · subst hk
    simp [h, eq_comm]
  · simp [hk]

theorem countValues_erase {v : α} {p : α → Bool} (h : map.find? key = some v) :
    map.countValues p = (map.erase key).countValues p + (p v).toNat := by
  rw [countValues, (perm_erase h).countP_eq, countP_cons]
  cases p v <;> rfl

theorem erase_of_absent (h : map.find? key = none) : map.erase key = map := by
  refine ext_find fun other => ?_
  rw [find?_erase]
  split
  · rename_i ho
    rw [ho, h]
  · rfl

theorem countValues_insert {v : α} {p : α → Bool} (h : map.find? key = none) :
    (map.insert key v).countValues p = map.countValues p + (p v).toNat := by
  have he : (map.insert key v).erase key = map := by
    refine ext_find fun other => ?_
    rw [find?_erase, find?_insert]
    split
    · rename_i ho
      rw [ho, h]
    · rfl
  rw [countValues_erase (find?_insert map key v key ▸ if_pos rfl), he]

end SortedMap
