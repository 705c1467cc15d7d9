import MiniDb.HistorySoundness

/-!
Why an extent passes its provenance check. The analysis of a history enters every
reservation it reads, under its transaction and with its LSN, and no others. A
transaction that was alone in the log since its BEGIN therefore accounts for every
page it reserved, and no other transaction can contend for one of them.
-/
namespace MiniDb
open ByteBlock Outcome LogPayload SortedMap HistoryState List

variable {h h' : HistoryState} {rs : List LogRecord} {r : LogRecord} {start : Nat}
  {t : OwnedRollbackAnalysis} {txs : SortedMap OwnedRollbackAnalysis}

/-- The record reserves page `p` for the transaction. -/
def Reserves (transactionId p : Nat) (record : LogRecord) : Prop :=
  record.transactionId = transactionId ∧
    ∃ payload, record.payload = .pageReserve payload ∧ payload.pageId = p

namespace HistoryState

/-- The table has the reservations that were read, each with its own record. -/
structure ReservesRead (h : HistoryState) : Prop where
  read : ∀ id t page lsn, h.transactions.find? id = some t → reserveLsnOf t page = some lsn →
    ∃ record ∈ h.seen, record.transactionId = id ∧ record.lsn = lsn
  entered : ∀ id t page record, h.transactions.find? id = some t → record ∈ h.seen →
    Reserves id page record → reserveLsnOf t page = some record.lsn

/-- A record that reserves nothing, after which one transaction may be stored anew. -/
theorem ReservesRead.quiet (hd : ReservesRead h) (hn : h'.seen = h.seen ++ [r])
    (hp : ∀ pl, r.payload ≠ .pageReserve pl) (htr : ∀ id t', h'.transactions.find? id = some t' →
      ∃ t, h.transactions.find? id = some t ∧ ∀ pg, reserveLsnOf t' pg = reserveLsnOf t pg) :
    ReservesRead h' := by
  refine ⟨?_, ?_⟩
  · intro id t' pg lsn ht' hl
    obtain ⟨t, ht, hs⟩ := htr id t' ht'
    obtain ⟨old, ho, hf⟩ := hd.read id t pg lsn ht (hs pg ▸ hl)
    exact ⟨old, by rw [hn]; exact mem_append_left _ ho, hf⟩
  · intro id t' pg old ht' ho hrs
    obtain ⟨t, ht, hs⟩ := htr id t' ht'
    rw [hn] at ho
    rcases mem_append.mp ho with ho | ho
    · rw [hs pg]
      exact hd.entered id t pg old ht ho hrs
    · obtain ⟨_, pl, hr, _⟩ := hrs
      rw [mem_singleton.mp ho] at hr
      exact absurd hr (hp pl)

theorem reserveLsnOf_noteReclaim (t : OwnedRollbackAnalysis) (pg reclaim q : Nat) :
    reserveLsnOf (t.noteReclaim pg reclaim) q = reserveLsnOf t q := by
  unfold OwnedRollbackAnalysis.noteReclaim
  split
  · rename_i ent he
    exact @reserveLsn_insert t pg ent { ent with reclaimLsn := some reclaim } he rfl q
  · rfl

theorem ReservesRead.begun {prot : RollbackProtocol} (hd : ReservesRead h) (hi : WalkInv h)
    (hid : r.transactionId ≠ 0) (hp : ∀ pl, r.payload ≠ .pageReserve pl)
    (hn : h.transactions.find? r.transactionId = none) :
    ReservesRead ((h.read r).setTransaction ⟨r.transactionId, prot, .ownedActive,
      r.lsn, r.lsn, none, start, false, .empty⟩) := by
  refine ⟨?_, ?_⟩
  · intro id t pg lsn ht hl
    simp only [setTransaction, find?_insert] at ht
    split at ht
    · cases ht
      simp [reserveLsnOf] at hl
    · obtain ⟨old, ho, hf⟩ := hd.read id t pg lsn ht hl
      exact ⟨old, mem_append_left _ ho, hf⟩
  · intro id t pg old ht ho hs
    have hb : old ∈ h.seen := by
      rcases mem_append.mp ho with ho | ho
      · exact ho
      · obtain ⟨_, pl, hr, _⟩ := hs
        rw [mem_singleton.mp ho] at hr
        exact absurd hr (hp pl)
    simp only [setTransaction, find?_insert] at ht
    split at ht
    · rename_i heq
      -- the transaction is new, so no record of it was read before
      obtain ⟨t, hk⟩ := hi.begun old hb (by rw [hs.1, heq]; exact hid)
      rw [hs.1, heq, hn] at hk
      cases hk
    · exact hd.entered id t pg old ht hb hs

theorem ReservesRead.chained {h₁ : HistoryState} {t' : OwnedRollbackAnalysis} (hd : ReservesRead h)
    (hy : Keyed h) (ht : h.transactions.find? r.transactionId = some t)
    (hr : (h.read r).onTransactionRecord t r = .ok (h₁, t')) :
    ReservesRead (h₁.advance { t' with lastLsn := r.lsn }) := by
  have hfm := onTransactionRecord_frame hr
  obtain ⟨owners, ha⟩ := advance_eq h₁ { t' with lastLsn := r.lsn }
  have hsn : (h₁.advance { t' with lastLsn := r.lsn }).seen = h.seen ++ [r] := by
    rw [ha]
    exact hfm.seen
  have hi := hfm.same.transactionId.trans (hy _ t ht)
  have hn : ∀ id, (h₁.advance { t' with lastLsn := r.lsn }).transactions.find? id =
      if id = r.transactionId then some { t' with lastLsn := r.lsn }
      else h.transactions.find? id := by
    intro id
    rw [ha]
    simp only [setTransaction, find?_insert, hi, hfm.transactions]
    rfl
  rcases hfm.reserves with ⟨pl, hp, hfr, hls⟩ | ⟨hp, hls⟩
  · refine ⟨?_, ?_⟩
    · intro id u pg lsn hu hl
      rw [hn] at hu
      rw [hsn]
      split at hu
      · rename_i heq
        cases hu
        rw [show reserveLsnOf { t' with lastLsn := r.lsn } pg = reserveLsnOf t' pg from rfl,
          hls] at hl
        split at hl
        · cases hl
          exact ⟨r, by simp, heq.symm, rfl⟩
        · obtain ⟨old, ho, hf⟩ := hd.read _ t pg lsn ht hl
          exact ⟨old, mem_append_left _ ho, heq ▸ hf⟩
      · obtain ⟨old, ho, hf⟩ := hd.read id u pg lsn hu hl
        exact ⟨old, mem_append_left _ ho, hf⟩
    · intro id u pg old hu ho hs
      rw [hn] at hu
      rw [hsn] at ho
      split at hu
      · rename_i heq
        cases hu
        show reserveLsnOf t' pg = some old.lsn
        rw [hls]
        rcases mem_append.mp ho with ho | ho
        · have hk := hd.entered _ t pg old ht ho (heq ▸ hs)
          rw [if_neg, hk]
          rintro rfl
          rw [hfr] at hk
          cases hk
        · obtain ⟨_, pl', hp', hg⟩ := hs
          rw [mem_singleton.mp ho, hp] at hp'
          cases hp'
          rw [if_pos hg.symm, mem_singleton.mp ho]
      · rename_i hne
        rcases mem_append.mp ho with ho | ho
        · exact hd.entered id u pg old hu ho hs
        · rw [mem_singleton.mp ho] at hs
          exact absurd hs.1.symm hne
  · refine hd.quiet hsn hp ?_
    intro id u hu
    rw [hn] at hu
    split at hu
    · rename_i heq
      cases hu
      exact ⟨t, heq ▸ ht, hls⟩
    · exact ⟨u, hu, fun _ => rfl⟩

theorem ReservesRead.step (hrd : ReservesRead h) (hi : WalkInv h) (hs : h.step r = .ok h') :
    ReservesRead h' := by
  obtain ⟨_, ha⟩ := step_accepted hs
  cases ha with
  | @answered own exp t hpend hsys hlsn hpay ht =>
    refine hrd.quiet rfl (by simp [hpay]) ?_
    intro id u hu
    have hd : (t.noteReclaim exp.reclaim.page r.lsn).transactionId = own :=
      hi.keyed own t ht
    simp only [setTransaction, find?_insert, hd] at hu
    split at hu
    · rename_i heq
      cases hu
      exact ⟨t, heq ▸ ht, reserveLsnOf_noteReclaim t _ _⟩
    · exact ⟨u, hu, fun _ => rfl⟩
  | system hpend hsys hpay =>
    refine hrd.quiet rfl ?_ fun id u hu => ⟨u, hu, fun _ => rfl⟩
    intro pl hr
    simp [hr, isPageReclaim, isCheckpoint] at hpay
  | begun hpend hd hpay hnew =>
    refine hrd.begun hi hd ?_ hnew
    intro pl hr
    simp [hr] at hpay
  | chained hpend hd ht hlive hprev howned hcleanup hrec =>
    exact hrd.chained hi.keyed ht hrec

theorem ReservesRead.run (hd : ReservesRead h) (hi : WalkInv h)
    (hr : rs.foldlM HistoryState.step h = .ok h') : ReservesRead h' := by
  refine (foldlM_preserves (P := fun g => ReservesRead g ∧ WalkInv g) ?_ ⟨hd, hi⟩ hr).1
  intro r _ g g' hg hs
  exact ⟨hg.1.step hg.2 hs, (hg.2.step hs).1⟩

/-- A BEGIN_OWNED the walk accepts opens its transaction. -/
theorem step_beginOwned (hp : r.payload = .beginOwned start) (hs : h.step r = .ok h') :
    h'.transactions.find? r.transactionId = some ⟨r.transactionId, .ownedAppend,
      .ownedActive, r.lsn, r.lsn, none, start, false, .empty⟩ := by
  obtain ⟨_, ha⟩ := step_accepted hs
  cases ha with
  | answered _ _ _ hr => simp [hp] at hr
  | system _ _ hkind =>
    simp [hp, isPageReclaim, isCheckpoint] at hkind
  | begun _ _ hkind =>
    simp only [hp, reduceCtorEq, false_and, beginOwned.injEq, false_or] at hkind
    obtain ⟨rfl, rfl⟩ := hkind
    simp [setTransaction]
  | chained _ _ _ _ _ _ _ hrec =>
    simp [onTransactionRecord, hp, pageUpdateIdentity] at hrec

end HistoryState

/-- Every reservation of an accepted history is in the table, and no other. -/
theorem analyzeOwnedRollbackHistory_reserves (h : analyzeOwnedRollbackHistory rs = .ok txs) :
    ∃ s : HistoryState, HistoryState.ReservesRead s ∧ HistoryState.WalkInv s ∧
      s.seen = rs ∧ s.transactions = txs := by
  simp only [analyzeOwnedRollbackHistory, ok_iff] at h
  obtain ⟨last, hr, rfl⟩ := h
  obtain ⟨hi, hs⟩ := (walkInv_start _).run hr
  have hd : HistoryState.ReservesRead
      ⟨.empty, [], .empty, .empty, none, (rs.head?.map (·.lsn)).getD walHeaderSize⟩ := by
    refine ⟨?_, ?_⟩
    · intro id t pg lsn ht
      cases ht
    · intro id t pg r ht
      cases ht
  exact ⟨last, hd.run (walkInv_start _) hr, hi, by simpa using hs, rfl⟩

/-- An accepted history knows the transaction of each BEGIN_OWNED in it. -/
theorem analyzeOwnedRollbackHistory_begun {begin : LogRecord} (hm : begin ∈ rs)
    (hp : begin.payload = .beginOwned start) (h : analyzeOwnedRollbackHistory rs = .ok txs) :
    ∃ own, txs.find? begin.transactionId = some own ∧
      own.transactionId = begin.transactionId ∧ own.startPageCount = start ∧
      own.beginLsn = begin.lsn := by
  simp only [analyzeOwnedRollbackHistory, ok_iff] at h
  obtain ⟨last, hr, rfl⟩ := h
  obtain ⟨pre, back, rfl⟩ := append_of_mem hm
  obtain ⟨mid, hf, hrs⟩ := foldlM_append_ok.mp hr
  simp only [foldlM_cons, bind_ok] at hrs
  obtain ⟨opened, ht, hb⟩ := hrs
  have hi := ((walkInv_start _).run hf).1.step ht
  obtain ⟨_, hk⟩ := fold_keeps hi.1.keyed hb
  obtain ⟨own, how, hs⟩ := hk _ _ (step_beginOwned hp ht)
  exact ⟨own, how, hs.transactionId, hs.startPageCount, hs.beginLsn⟩

/-- The pages `t` accounts for in the extent of `owner`. -/
def accountedPages (owner : OwnedRollbackAnalysis) (id : Nat) (t : OwnedRollbackAnalysis) :
    List Nat :=
  (t.reservations.entries.filter fun (_, entry) => owner.beginLsn ≤ entry.reserveLsn ∧
    (id = owner.transactionId ∨ t.phase = .commitRecorded)).map Prod.fst

theorem mem_accountedPages {own : OwnedRollbackAnalysis} {id pg : Nat} :
    pg ∈ accountedPages own id t ↔ (∃ lsn, reserveLsnOf t pg = some lsn ∧ own.beginLsn ≤ lsn) ∧
        (id = own.transactionId ∨ t.phase = .commitRecorded) := by
  simp only [accountedPages, mem_map, mem_filter, decide_eq_true_eq, Prod.exists,
    exists_and_right, exists_eq_right, ← find?_eq_some, reserveLsnOf, Option.map_eq_some_iff]
  constructor
  · rintro ⟨ent, he, hl, hp⟩
    exact ⟨⟨_, ⟨ent, he, rfl⟩, hl⟩, hp⟩
  · rintro ⟨⟨_, ⟨ent, he, rfl⟩, hl⟩, hp⟩
    exact ⟨ent, he, hl, hp⟩

theorem accountedPages_nodup (own t : OwnedRollbackAnalysis) (id : Nat) :
    (accountedPages own id t).Nodup := by
  refine List.Sublist.nodup (filter_sublist.map _) ?_
  exact t.reservations.sorted_keys.imp fun hlt => hlt.ne

/-- A transaction that was alone in the log since its BEGIN, and reserved every page
of the file past it, passes the provenance check in every accepted history. -/
theorem validateExtentProvenance_reserved {begin : LogRecord} {extent : Nat}
    {own : OwnedRollbackAnalysis}
    (hm : begin ∈ rs) (hp : begin.payload = .beginOwned start)
    (h : analyzeOwnedRollbackHistory rs = .ok txs) (how : txs.find? begin.transactionId = some own)
    (hal : ∀ r ∈ rs, begin.lsn ≤ r.lsn →
      r.transactionId = begin.transactionId ∨ r.transactionId = 0)
    (hrs : ∀ p, start ≤ p → p < extent → ∃ r ∈ rs,
      Reserves begin.transactionId p r ∧ begin.lsn ≤ r.lsn) :
    validateExtentProvenance own txs extent = .ok () := by
  obtain ⟨_, hf, hid, hst, hbg⟩ := analyzeOwnedRollbackHistory_begun hm hp h
  rw [how] at hf
  cases hf
  obtain ⟨s, hd, hi, rfl, rfl⟩ := analyzeOwnedRollbackHistory_reserves h
  -- only the owner can have reserved anything since its BEGIN
  have hon : ∀ id t pg, (id, t) ∈ s.transactions.entries →
      pg ∈ accountedPages own id t → id = begin.transactionId := by
    intro id t pg ht hg
    obtain ⟨⟨lsn, hl, hb⟩, _⟩ := mem_accountedPages.mp hg
    have hn := find?_eq_some.mpr ht
    obtain ⟨r, hr, hat, rfl⟩ := hd.read id t pg lsn hn hl
    rcases hal r hr (hbg ▸ hb) with hw | hs
    · rw [← hat, hw]
    · exact absurd (hat.symm.trans hs) (hi.told id t hn).1
  have hnd : (s.transactions.entries.flatMap fun entry =>
    accountedPages own entry.1 entry.2).Nodup := by
    refine nodup_flatMap.mpr ⟨fun _ _ => accountedPages_nodup _ _ _, ?_⟩
    refine s.transactions.sorted.imp_of_mem ?_
    rintro ⟨id, t⟩ ⟨id', t'⟩ ht ht' hlt pg hg hg'
    have := hon id t pg ht hg
    have := hon id' t' pg ht' hg'
    simp only at hlt
    omega
  have ha : ∀ off ∈ range (extent - own.startPageCount), own.startPageCount + off ∈
      s.transactions.entries.flatMap fun entry => accountedPages own entry.1 entry.2 := by
    intro off ho
    rw [mem_range, hst] at ho
    obtain ⟨r, hr, hv, hb⟩ :=
      hrs (start + off) (Nat.le_add_right _ _) (by omega)
    refine mem_flatMap.mpr ⟨(begin.transactionId, own), find?_eq_some.mp how, ?_⟩
    refine mem_accountedPages.mpr ⟨⟨r.lsn, ?_, hbg ▸ hb⟩, .inl hid.symm⟩
    rw [hst]
    exact hd.entered _ _ _ r how hr hv
  exact bind_ok.mpr ⟨(), require_of _ hnd, require_of _ ha⟩

end MiniDb
