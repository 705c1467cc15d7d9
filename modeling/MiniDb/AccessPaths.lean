import MiniDb.Tables
import MiniDb.WhereSoundness

/-!
The rows a WHERE clause selects. The executor takes a primary key from the conjuncts
of the clause if it can, and then looks at one row only. A clause that is true of a
row makes all its conjuncts true, so a key it names is the key of the row, and where
heap and index agree no other row has it.
-/
namespace MiniDb.Sql
open Outcome List Option

/-- The lambda of `primaryKeyCandidate`. -/
def matchKey (primaryKeyColumn : Nat) : BoundExpression → BoundExpression → Option UInt32
  | .column _ _ index, .literal _ _ (.uint32 key) =>
    if index = primaryKeyColumn then some key else none
  | _, _ => none

def primaryKeyCandidate (primaryKeyColumn : Nat) : BoundExpression → Option UInt32
  | .binary _ _ .and left right =>
    (primaryKeyCandidate primaryKeyColumn left).or (primaryKeyCandidate primaryKeyColumn right)
  | .binary _ _ .equal left right =>
    (matchKey primaryKeyColumn left right).or (matchKey primaryKeyColumn right left)
  | _ => none

inductive AccessPath
  | none
  | heapScan
  | primaryKeyLookup
  deriving DecidableEq

structure ExecutionStats where
  accessPath : AccessPath := .none
  rowsExamined : Nat := 0
  rowsReturned : Nat := 0
  indexLookups : Nat := 0
  deriving DecidableEq

/-- The rows of which the clause, if there is one, is true. -/
def keepMatching (clause : Option BoundExpression) : List TableRow → SqlResult (List TableRow)
  | [] => .ok []
  | row :: rows => do
    let truth ← clause.elim (.ok .true) (evaluateTruth row.values)
    let kept ← keepMatching clause rows
    return if truth = .true then row :: kept else kept

def matchingRows (table : Table) (clause : Option BoundExpression) (stats : ExecutionStats) :
    SqlResult (List TableRow × ExecutionStats) :=
  let candidate := table.schema.primaryKeyColumn.bind fun column =>
    clause.bind (primaryKeyCandidate column)
  match candidate with
  | some key => do
    let row ← table.findByPrimaryKey key
    let kept ← keepMatching clause row.toList
    return (kept, ⟨.primaryKeyLookup, stats.rowsExamined + row.toList.length, kept.length, 1⟩)
  | none => do
    let rows ← table.scan
    let kept ← keepMatching clause rows
    return (kept, ⟨.heapScan, stats.rowsExamined + rows.length, kept.length, stats.indexLookups⟩)

/-- Every tuple decodes, and the index holds the key of each row and nothing else. -/
structure Table.Agrees (table : Table) : Prop where
  indexed : table.primaryIndex.isSome = table.schema.primaryKeyColumn.isSome
  decoded : ∀ tuple ∈ table.heap.tuples, ∃ values, decodeTuple table.schema tuple.2 = .ok values
  entered : ∀ index ∈ table.primaryIndex, ∀ (key : UInt32) recordId,
    index.find? key.toNat = some recordId ↔ ∃ bytes values, (recordId, bytes) ∈ table.heap.tuples ∧
      decodeTuple table.schema bytes = .ok values ∧ table.primaryKeyOf values = .ok key

variable {row : RowValues} {key : UInt32} {bound left right : BoundExpression} {pk : Nat}
  {v : Value} {table : Table} {rows : List TableRow} {tuple : RecordId × List UInt8}

theorem compareTruth_key (h : compareTruth .equal (valueScalar v) (.uint32 key) = .ok .true ∨
    compareTruth .equal (.uint32 key) (valueScalar v) = .ok .true) : v = .uint32 key := by
  cases v with
  | uint32 x =>
    have hx : (valueScalar (.uint32 x)).hasType .uint32 = true := rfl
    have hk : (BoundScalar.uint32 key).hasType .uint32 = true := rfl
    rw [compareTruth_eq hx hk (by decide), compareTruth_eq hk hx (by decide)] at h
    have heq : x.toNat = key.toNat := by
      simp [valueScalar, BoundScalar.datum, BinaryOperator.compares, BinaryOperator.relates,
        ofKleene,
        truthOfBool] at h
      omega
    rw [UInt32.toNat_inj.mp heq]
  | null | int64 | boolean | varchar => rcases h with h | h <;> cases h

theorem matchKey_eq_some (h : matchKey pk left right = some key) :
    ∃ span type span' type', left = .column span type pk ∧
      right = .literal span' type' (.uint32 key) := by
  unfold matchKey at h
  split at h
  · split at h
    · rename_i hi
      cases h
      subst hi
      exact ⟨_, _, _, _, rfl, rfl⟩
    · cases h
  · cases h

theorem evaluateScalar_column {span : SourceSpan} {type : BoundType} {scalar : BoundScalar}
    (h : evaluateScalar row (.column span type pk) = .ok scalar) :
    ∃ v, row[pk]? = some v ∧ scalar = valueScalar v := by
  simp only [evaluateScalar, scalarFrom] at h
  split at h
  · cases h
  · rename_i v hv
    cases h
    exact ⟨v, hv, rfl⟩

/-- A clause that is true of a row names the row's key if it names one. -/
theorem primaryKeyCandidate_forces (ht : evaluateTruth row bound = .ok .true)
    (h : primaryKeyCandidate pk bound = some key) : row[pk]? = some (.uint32 key) := by
  induction bound with
  | binary span type op left right ihl ihr =>
    cases op with
    | and =>
      simp only [evaluateTruth, bind_ok] at ht
      obtain ⟨l, hl, ht⟩ := ht
      split at ht
      · cases ht
      · simp only [ok_iff] at ht
        obtain ⟨r, hr, ha⟩ := ht
        have hb : l = .true ∧ r = .true := by
          cases l <;> cases r <;> simp [truthAnd] at ha ⊢
        obtain ⟨rfl, rfl⟩ := hb
        simp only [primaryKeyCandidate, or_eq_some_iff] at h
        rcases h with h | ⟨_, h⟩
        · exact ihl hl h
        · exact ihr hr h
    | equal =>
      have hn : (do
          let l ← evaluateScalar row left
          let r ← evaluateScalar row right
          compareTruth .equal l r) = .ok .true := ht
      simp only [bind_ok] at hn
      obtain ⟨l, hl, r, hr, hc⟩ := hn
      simp only [primaryKeyCandidate, or_eq_some_iff] at h
      rcases h with h | ⟨_, h⟩
      · obtain ⟨_, _, _, _, rfl, rfl⟩ := matchKey_eq_some h
        obtain ⟨v, hv, rfl⟩ := evaluateScalar_column hl
        cases hr
        rw [hv, compareTruth_key (.inl hc)]
      · obtain ⟨_, _, _, _, rfl, rfl⟩ := matchKey_eq_some h
        obtain ⟨v, hv, rfl⟩ := evaluateScalar_column hr
        cases hl
        rw [hv, compareTruth_key (.inr hc)]
    | _ => cases h
  | _ => cases h

theorem rowOf_ok {fd : TableRow} : table.rowOf tuple = .ok fd ↔
    decodeTuple table.schema tuple.2 = .ok fd.values ∧ fd.recordId = tuple.1 := by
  unfold Table.rowOf fromDatabase
  cases decodeTuple table.schema tuple.2 with
  | error e => simp [Except.mapError]
  | ok values =>
    obtain ⟨recordId, values'⟩ := fd
    simp [Except.mapError, and_comm, eq_comm]

theorem scan_distinct (hs : table.scan = .ok rows) : (rows.map TableRow.recordId).Nodup := by
  rw [map_of_mapM hs fun _ _ h => (rowOf_ok.mp h).2]
  exact table.heap.distinct

theorem scan_valid (hs : table.scan = .ok rows) {fd : TableRow} (h : fd ∈ rows) :
    table.schema.validateValues fd.values = .ok () := by
  obtain ⟨tuple, _, hr⟩ := (mem_of_mapM hs).mp h
  exact decodeTuple_valid (rowOf_ok.mp hr).1

theorem keepMatching_eq (h : ∀ fd ∈ rows, ∃ truth, evaluateTruth fd.values bound = .ok truth) :
    keepMatching (some bound) rows =
      .ok (rows.filter fun fd => evaluateTruth fd.values bound = .ok .true) := by
  induction rows with
  | nil => rfl
  | cons fd rows ih =>
    obtain ⟨truth, ht⟩ := h fd (by simp)
    rw [keepMatching, elim_some, ht, ok_bind, ih fun other ho => h other (by simp [ho]),
      ok_bind, filter_cons, ht]
    simp only [Except.ok.injEq, decide_eq_true_eq]
    rfl

theorem filter_unique {P : TableRow → Bool} {fd : TableRow}
    (hd : (rows.map TableRow.recordId).Nodup) (hm : fd ∈ rows)
    (h : ∀ other ∈ rows, P other = true → other.recordId = fd.recordId) :
    rows.filter P = [fd].filter P := by
  have hi : ∀ other ∈ rows, P other = (P fd && (other == fd)) := by
    intro other ho
    by_cases hs : other = fd
    · simp [hs]
    · cases hP : P other with
      | false => simp [hs]
      | true => exact absurd (inj_on_of_nodup_map hd ho hm (h other ho hP)) hs
  rw [filter_congr hi]
  cases hP : P fd with
  | false => simp [hP]
  | true =>
    simp only [Bool.true_and, filter_beq, hP, filter_cons, filter_nil, if_true]
    rw [count_eq_one_of_mem (hd.of_map _) hm]
    rfl

theorem get_of_mem {heap : TupleStore} (h : tuple ∈ heap.tuples) :
    heap.get tuple.1 = .ok tuple.2 := by
  unfold TupleStore.get
  cases hf : heap.tuples.find? (·.1 = tuple.1) with
  | none =>
    have hn := find?_eq_none.mp hf tuple h
    simp at hn
  | some other =>
    have hi : other.1 = tuple.1 := by simpa using find?_some hf
    rw [inj_on_of_nodup_map heap.distinct (mem_of_find?_eq_some hf) h hi]

/-- The lookup finds a row of the scan, and the only one with this key. -/
theorem findByPrimaryKey_spec (ha : table.Agrees)
    (hp : table.schema.primaryKeyColumn = some pk) (hs : table.scan = .ok rows) :
    ∃ fd, table.findByPrimaryKey key = .ok fd ∧ (∀ row ∈ fd, row ∈ rows) ∧
      ∀ other ∈ rows, other.values[pk]? = some (.uint32 key) →
        ∃ row ∈ fd, other.recordId = row.recordId := by
  obtain ⟨ix, hi⟩ : ∃ ix, table.primaryIndex = some ix := by
    rw [← isSome_iff_exists, ha.indexed, hp]
    rfl
  have he := ha.entered ix hi key
  have ho : ∀ other ∈ rows, other.values[pk]? = some (.uint32 key) →
      ix.find? key.toNat = some other.recordId := by
    intro other hm hk
    obtain ⟨tuple, ht, hr⟩ := (mem_of_mapM hs).mp hm
    obtain ⟨hd, hid⟩ := rowOf_ok.mp hr
    refine (he _).mpr ⟨tuple.2, other.values, hid ▸ ht, hd, ?_⟩
    simp [Table.primaryKeyOf, hp, hk]
  cases hf : ix.find? key.toNat with
  | none =>
    refine ⟨none, ?_, by simp, fun other hm hk => ?_⟩
    · simp [Table.findByPrimaryKey, Table.requirePrimaryIndex, hi, hf]
    · rw [ho other hm hk] at hf
      cases hf
  | some recordId =>
    obtain ⟨bs, values, ht, hd, hk⟩ := (he recordId).mp hf
    have hg : table.get recordId = .ok values := by
      rw [Table.get, get_of_mem ht, ok_bind, hd]
      rfl
    refine ⟨some ⟨recordId, values⟩, ?_, ?_, fun other hm hk => ⟨_, rfl, ?_⟩⟩
    · simp [Table.findByPrimaryKey, Table.requirePrimaryIndex, hi, hf, hg, hk]
    · rintro _ ⟨⟩
      exact (mem_of_mapM hs).mpr ⟨_, ht, rowOf_ok.mpr ⟨hd, rfl⟩⟩
    · exact (some.inj (hf.symm.trans (ho other hm hk))).symm

/-- Whichever way it takes, the executor returns the rows of the scan of which the
clause is true. -/
theorem matching_rows_exact {expression : Expression} (hag : table.Agrees)
    (hbn : bindExpression table.schema expression = .ok bound)
    (hbl : requireBoolean bound = .ok ()) (stats : ExecutionStats) :
    ∃ rows stats', table.scan = .ok rows ∧ matchingRows table (some bound) stats =
      .ok (rows.filter fun row => evaluateTruth row.values bound = .ok .true, stats') := by
  obtain ⟨rows, hsc⟩ : ∃ rows, table.scan = .ok rows := by
    refine mapM_total fun tuple htp => ?_
    obtain ⟨values, hdc⟩ := hag.decoded tuple htp
    exact ⟨⟨tuple.1, values⟩, rowOf_ok.mpr ⟨hdc, rfl⟩⟩
  have hsn : ∀ row ∈ rows, ∃ truth, evaluateTruth row.values bound = .ok truth := fun row hr =>
    ⟨_, (bindExpression_denotes (scan_valid hsc hr) hbn).truth hbl⟩
  refine ⟨rows, ?_⟩
  unfold matchingRows
  simp only [hsc, ok_bind, bind_some]
  split
  · rename_i key hcn
    obtain ⟨pk, hpk, hk⟩ := bind_eq_some_iff.mp hcn
    obtain ⟨found, hfn, hm, ha⟩ := findByPrimaryKey_spec hag hpk hsc
    have hfr : ∀ row ∈ rows, evaluateTruth row.values bound = .ok .true →
        ∃ same ∈ found, row.recordId = same.recordId := fun row hr htr =>
      ha row hr (primaryKeyCandidate_forces htr hk)
    have hfl : rows.filter (fun row => evaluateTruth row.values bound = .ok .true) =
        found.toList.filter (fun row => evaluateTruth row.values bound = .ok .true) := by
      cases found with
      | none =>
        refine filter_eq_nil_iff.mpr fun row hr htr => ?_
        obtain ⟨_, hno, _⟩ := hfr row hr (of_decide_eq_true htr)
        cases hno
      | some row =>
        refine filter_unique (scan_distinct hsc) (hm row rfl) fun other hot htr => ?_
        obtain ⟨_, ⟨⟩, hsm⟩ := hfr other hot (of_decide_eq_true htr)
        exact hsm
    rw [hfn, ok_bind, hfl, keepMatching_eq fun row hr =>
      hsn row (hm row (mem_toList.mp hr)), ok_bind]
    exact ⟨_, trivial, rfl⟩
  · rw [keepMatching_eq hsn, ok_bind]
    exact ⟨_, trivial, rfl⟩

/-- One row with key 3. -/
def tupleThree : List UInt8 :=
  tupleMagic ++ [1, 0, 0, 0, 24, 0, 0, 0, 1, 0, 1, 0, 29, 0, 0, 0, 0, 3, 0, 0, 0]

def tableThree : Table :=
  ⟨idSchema, ⟨[(⟨2, 0⟩, tupleThree)], by decide⟩, some (SortedMap.empty.insert 3 ⟨2, 0⟩)⟩

theorem decodeTuple_three : decodeTuple idSchema tupleThree = .ok [.uint32 3] := by rfl

theorem tableThree_agrees : tableThree.Agrees where
  indexed := by decide
  decoded := by
    intro tuple ht
    obtain rfl := mem_singleton.mp ht
    exact ⟨_, decodeTuple_three⟩
  entered := by
    rintro _ ⟨⟩ key recordId
    have hy : tableThree.primaryKeyOf [.uint32 3] = .ok 3 := rfl
    have hn : key.toNat = 3 ↔ 3 = key := by
      rw [← UInt32.toNat_inj, eq_comm]
      rfl
    rw [SortedMap.find?_insert, SortedMap.find?_empty]
    constructor
    · intro h
      split at h
      · rename_i hk
        cases h
        exact ⟨_, _, mem_singleton_self _, decodeTuple_three, hn.mp hk ▸ hy⟩
      · cases h
    · rintro ⟨bs, values, ht, hd, hk⟩
      obtain ⟨⟩ := mem_singleton.mp ht
      cases hd.symm.trans decodeTuple_three
      rw [if_pos (hn.mpr (Except.ok.inj (hy.symm.trans hk)))]

/-- `id = 3`. -/
def idIsThree : Expression :=
  .binary {} .equal (.identifier {} [105, 100]) (.literal {} ⟨{}, .integer ⟨Bool.false, [3]⟩⟩)

theorem matching_rows_exact_lookup : ∃ bound rows stats,
    bindExpression idSchema idIsThree = .ok bound ∧ tableThree.scan = .ok rows ∧
      matchingRows tableThree (some bound) {} =
        .ok (rows.filter fun row => evaluateTruth row.values bound = .ok .true, stats) := by
  obtain ⟨rows, stats, h⟩ :=
    @matching_rows_exact _ tableThree idIsThree tableThree_agrees rfl rfl {}
  exact ⟨_, rows, stats, rfl, h⟩

end MiniDb.Sql
