import MiniDb.UndoSteps

/-!
What owned cleanup does to disk and log when it returns normally. A reclaim
writes the page it reclaims and the free-list head in page 0, and cleanup
reclaims only pages past the extent its owner started from.
-/
namespace MiniDb
open ByteBlock Outcome Engine Storage

variable {disk disk' : DiskManager} {hist : List LogRecord} {loser : Loser}
  {lsn p start tid : Nat} {known : Nat → Option Nat → Bool}
  {own : OwnedRollbackAnalysis} {pl : PageReclaimPayload} {s s' : Storage}

/-- A disk on which nothing but the pages of `touched` and, in page 0, the head
of the free list has moved. -/
structure HeaderKept (disk disk' : DiskManager) (touched : Nat → Prop) : Prop where
  pages : ∀ p, ¬ touched p → p ≠ 0 → disk'.page p = disk.page p
  metadata : SameHeader (disk'.page 0) (disk.page 0)
  count : disk'.pageCount = disk.pageCount
  header : deserializeDatabaseHeader (disk'.page 0) = .ok disk'.databaseHeader

theorem HeaderKept.refl (touched : Nat → Prop) (h : disk.HeaderCached) :
    HeaderKept disk disk touched :=
  ⟨fun _ _ _ => rfl, rfl, rfl, h⟩

theorem HeaderKept.trans {a b c : DiskManager} {touched : Nat → Prop}
    (ha : HeaderKept a b touched) (hb : HeaderKept b c touched) : HeaderKept a c touched :=
  ⟨fun p hp hz => (hb.pages p hp hz).trans (ha.pages p hp hz),
    hb.metadata.trans ha.metadata, hb.count.trans ha.count, hb.header⟩

theorem HeaderKept.sync {touched : Nat → Prop} (h : HeaderKept disk disk' touched) :
    HeaderKept disk disk'.sync touched :=
  ⟨h.pages, h.metadata, h.count, h.header⟩

/-- A reclaim's replay of one page either leaves it or writes its image. -/
theorem applyReclaim_ok (h : applyReclaim pl lsn known disk p = .ok disk') :
    p < disk.pageCount ∧ ∃ cur, readPersistentPageLsn (disk.page p) = .ok cur ∧
      ((disk' = disk ∧ ((cur = none ∧ known p none = true) ∨
          (∃ later ∈ cur, lsn < later) ∧ known p cur = true)) ∨
        ∃ img, reclaimImage pl lsn p (disk.page p) cur = .ok img ∧
          writeImage disk p img = .ok disk' ∧ ∀ later ∈ cur, later ≤ lsn) := by
  simp only [applyReclaim, bind_ok, readPhysicalPage_ok] at h
  obtain ⟨_, ⟨_, hlt, rfl⟩, cur, hc, h⟩ := h
  refine ⟨hlt, cur, hc, ?_⟩
  split at h
  · rename_i hn
    simp only [pure_ok] at h
    exact .inl ⟨h.symm, .inl hn⟩
  · split at h
    · rename_i hl
      simp only [ok_iff] at h
      obtain ⟨_, hk, rfl⟩ := h
      exact .inl ⟨rfl, .inr ⟨hl, hk⟩⟩
    · rename_i hl
      simp only [bind_ok] at h
      obtain ⟨img, hi, hw⟩ := h
      refine .inr ⟨img, hi, hw, ?_⟩
      intro later hm
      by_contra hgt
      exact hl ⟨later, hm, not_le.mp hgt⟩

theorem reclaimMetadata_some {pg img : Page} {cur : Option Nat}
    (h : reclaimMetadata pl lsn pg cur = .ok (some img)) :
    ∃ hd, deserializeDatabaseHeader pg = .ok hd ∧ hd.formatVersion = 2 ∧
      cur = pl.beforeMetadataLsn ∧ hd.freeListRootPageId = pl.head ∧ img = stamped
        (serializeDatabaseHeader { hd with freeListRootPageId := pl.page }) lsn := by
  simp only [reclaimMetadata, ok_iff] at h
  obtain ⟨hd, hh, _, hv, h⟩ := h
  split at h
  · simp at h
  · simp only [ok_iff, Option.some.injEq, writePersistentPageLsn_ok] at h
    obtain ⟨_, ⟨hc, hhd⟩, _, ⟨_, _, rfl⟩, rfl⟩ := h
    exact ⟨hd, hh, hv, hc, hhd, rfl⟩

theorem applyReclaim_metadata (hg : pl.page ≠ 0) (hh : disk.HeaderCached)
    (h : applyReclaim pl lsn known disk 0 = .ok disk') : HeaderKept disk disk' fun _ => False := by
  obtain ⟨hlt, current, _, hc⟩ := applyReclaim_ok h
  rcases hc with ⟨rfl, _⟩ | ⟨image, hi, hr, _⟩
  · exact .refl _ hh
  · cases image with
    | none =>
      simp only [writeImage, Except.ok.injEq] at hr
      subst hr
      exact .refl _ hh
    | some image =>
      have hw := writePhysicalPage_wrote hr
      simp only [reclaimImage, if_neg (Ne.symm hg)] at hi
      obtain ⟨header, ho, _, _, _, rfl⟩ := reclaimMetadata_some hi
      refine ⟨?_, ?_, ?_, hw.headerCached hh⟩
      · intro p _ hp
        rw [hw.pages, if_neg hp]
      · rw [hw.pages, if_pos rfl]
        refine (sameContents_stamped _ lsn).sameHeader.trans ?_
        show withoutFreeListHead (normalized _) = _
        rw [normalized_serialize, serialize_withoutFreeListHead, ← normalized_of_header ho]
      · rw [hw.count]
        omega

theorem applyReclaim_target (hg : pl.page ≠ 0) (hh : disk.HeaderCached)
    (h : applyReclaim pl lsn known disk pl.page = .ok disk') :
    HeaderKept disk disk' (· = pl.page) := by
  obtain ⟨hlt, cur, _, hc⟩ := applyReclaim_ok h
  rcases hc with ⟨rfl, _⟩ | ⟨img, hi, hr, _⟩
  · exact .refl _ hh
  · cases img with
    | none =>
      simp only [writeImage, Except.ok.injEq] at hr
      subst hr
      exact .refl _ hh
    | some img =>
      have hw := writePhysicalPage_wrote hr
      refine ⟨?_, ?_, ?_, hw.headerCached hh⟩
      · intro p hp _
        rw [hw.pages, if_neg hp]
      · rw [hw.pages, if_neg (Ne.symm hg)]
        rfl
      · rw [hw.count]
        omega

theorem redoPageReclaim_kept {r : LogRecord} (hh : disk.HeaderCached)
    (hp : r.payload = .pageReclaim pl) (h : redoPageReclaim disk r known = .ok disk') :
    HeaderKept disk disk' (· = pl.page) := by
  simp only [redoPageReclaim, bind_ok] at h
  obtain ⟨decoded, hd, _, _, _, _, _, _, mid, ht, hm⟩ := h
  obtain ⟨_, hr, hg⟩ := decodePageReclaim_ok hd
  rw [hp, LogPayload.pageReclaim.injEq] at hr
  subst hr
  have hf := applyReclaim_target hg hh ht
  have hs := applyReclaim_metadata hg hf.header hm
  exact hf.trans ⟨fun p _ => hs.pages p id, hs.metadata, hs.count, hs.header⟩

/-- What cleanup keeps: log records are its owner's or the system's, and below
`start` only the free-list head moves. -/
structure CleanedUp (s s' : Storage) (transactionId start : Nat) : Prop where
  grows : LogGrows s.log s'.log
  adds : ∀ record ∈ s'.log.records, record ∈ s.log.records ∨ UndoRecord transactionId record
  disk : HeaderKept s.disk s'.disk (start ≤ ·)

theorem CleanedUp.refl (tid start : Nat) (h : s.disk.HeaderCached) : CleanedUp s s tid start :=
  ⟨.refl, fun _ hm => .inl hm, .refl _ h⟩

theorem CleanedUp.trans {a b c : Storage} (ha : CleanedUp a b tid start)
    (hb : CleanedUp b c tid start) : CleanedUp a c tid start := by
  refine ⟨ha.grows.trans hb.grows, ?_, ha.disk.trans hb.disk⟩
  intro r hm
  rcases hb.adds r hm with hm | hi
  · exact ha.adds r hm
  · exact .inr hi

theorem CleanedUp.sync (h : CleanedUp s s' tid start) : CleanedUp s s'.sync tid start :=
  ⟨h.grows, h.adds, h.disk.sync⟩

theorem CleanedUp.noted {s'' : Storage} {own : Nat} {pv : Option Nat} {pl : LogPayload}
    (h : CleanedUp s s' tid start) (hn : Noted s' s'' own pv pl)
    (how : own = tid ∨ own = 0) (hk : pl.isUndo = true) : CleanedUp s s'' tid start := by
  refine h.trans ⟨hn.grows, ?_, ?_⟩
  · intro r hm
    rw [hn.records] at hm
    rcases List.mem_append.mp hm with hm | hm
    · exact .inl hm
    · rw [List.mem_singleton.mp hm]
      exact .inr ⟨how, hk⟩
  · rw [hn.disk]
    exact .refl _ h.disk.header

/-- The reclaim an intent announced is in the log and on the disk. -/
theorem applyIntended_cleanedUp {intent : Nat} (hs : LogSound s.log) (hh : s.disk.HeaderCached)
    (hg : start ≤ pl.page) (h : applyIntended s intent pl = .ok (s', lsn)) :
    CleanedUp s s' tid start := by
  simp only [applyIntended, ok_iff, attempt_ok, Prod.exists] at h
  obtain ⟨app, reclaimLsn, ha, _, _, _, _, frc, hfl, r, hrd, disk, he, rfl, rfl⟩ := h
  obtain ⟨hl, rfl, hd⟩ := storage_append_ok ha
  obtain ⟨hfr, hd'⟩ := storage_flushUpTo_ok hfl
  have hn : Noted s frc 0 none (.pageReclaim pl) :=
    ⟨⟨_, hl, hfr⟩, hd'.trans hd⟩
  have hr : r.payload = .pageReclaim pl := by
    have hm : (⟨0, none, .pageReclaim pl, s.log.nextLsn⟩ : LogRecord) ∈
        frc.log.records := by
      rw [hn.records]
      simp
    have hpl := (hn.grows.sound hs).placed
    have hf := hpl.readRecordAt hm
    rw [hrd, Except.ok.injEq] at hf
    rw [hf]
  have hk := redoPageReclaim_kept (by rw [hn.disk]; exact hh) hr he
  refine ((CleanedUp.refl tid start hh).noted hn (.inr rfl) rfl).trans
    ⟨.refl, fun _ hm => .inl hm, ?_⟩
  refine ⟨?_, hk.metadata, hk.count, hk.header⟩
  intro p hp hz
  refine hk.pages p ?_ hz
  rintro rfl
  exact hp hg

theorem reclaimReserved_cleanedUp {loser' : Loser} {ent : OwnedReservationEvidence}
    (hs : LogSound s.log) (hh : s.disk.HeaderCached)
    (h : reclaimReserved s loser own hist p ent = .ok (s', loser', lsn)) :
    CleanedUp s s' loser.transactionId own.startPageCount ∧
      loser'.transactionId = loser.transactionId := by
  simp only [reclaimReserved, ok_iff, attempt_ok, Prod.exists] at h
  obtain ⟨physical, hr, pl, hp, _, _, noted, intent, hfr, applied, _, ha, rfl, rfl, rfl⟩ := h
  obtain ⟨hn, rfl⟩ := appendForced_noted hfr
  simp only [proveMaterialized, ok_iff] at hr
  obtain ⟨_, ⟨_, _, ht, _⟩, _⟩ := hr
  simp only [reclaimPayloadOf, ok_iff] at hp
  obtain ⟨_, _, _, _, _, _, rfl⟩ := hp
  have hf := (CleanedUp.refl loser.transactionId own.startPageCount hh).noted hn (.inl rfl) rfl
  exact ⟨hf.trans (applyIntended_cleanedUp (hn.grows.sound hs) hf.disk.header ht ha), rfl⟩

theorem settleReservation_cleanedUp {loser' : Loser} {lsn : Option Nat}
    {ent : OwnedReservationEvidence} (hs : LogSound s.log) (hh : s.disk.HeaderCached)
    (h : settleReservation s loser own hist p ent = .ok (s', loser', lsn)) :
    CleanedUp s s' loser.transactionId own.startPageCount ∧
      loser'.transactionId = loser.transactionId := by
  have hl := CleanedUp.refl loser.transactionId own.startPageCount hh
  unfold settleReservation at h
  split at h
  · simp only [ok_iff, attempt_ok, Prod.exists] at h
    obtain ⟨reclaimed, loser'', _, he, _, _, rfl, rfl, rfl⟩ := h
    unfold ensureReclaimed at he
    split at he
    · obtain ⟨hc, hi⟩ := reclaimReserved_cleanedUp hs hh he
      exact ⟨hc.sync, hi⟩
    · simp only [ok_iff] at he
      obtain ⟨_, _, rfl, rfl, _⟩ := he
      exact ⟨hl.sync, rfl⟩
  · simp only [ok_iff] at h
    obtain ⟨_, _, rfl, rfl, _⟩ := h
    exact ⟨hl, rfl⟩

theorem finishReservation_cleanedUp {st st' : Storage × Loser}
    {rsv : Nat × OwnedReservationEvidence} (hs : LogSound st.1.log)
    (hh : st.1.disk.HeaderCached) (h : finishReservation own hist st rsv = .ok st') :
    CleanedUp st.1 st'.1 st.2.transactionId own.startPageCount ∧
      st'.2.transactionId = st.2.transactionId := by
  obtain ⟨s, loser⟩ := st
  obtain ⟨p, ent⟩ := rsv
  simp only [finishReservation] at h
  split at h
  · simp only [ok_iff] at h
    obtain ⟨_, _, rfl⟩ := h
    exact ⟨.refl _ _ hh, rfl⟩
  · simp only [ok_iff, Prod.exists] at h
    obtain ⟨settled, loser', _, ht, noted, _, hf, rfl⟩ := h
    obtain ⟨hc, hi⟩ := settleReservation_cleanedUp hs hh ht
    obtain ⟨hn, rfl⟩ := appendForced_noted hf
    exact ⟨hc.noted hn (.inl hi) rfl, hi⟩

theorem finishReservations_cleanedUp {st st' : Storage × Loser}
    {rsvs : List (Nat × OwnedReservationEvidence)}
    (h : rsvs.foldlM (finishReservation own hist) st = .ok st')
    (hs : LogSound st.1.log) (hh : st.1.disk.HeaderCached) :
    CleanedUp st.1 st'.1 st.2.transactionId own.startPageCount ∧
      st'.2.transactionId = st.2.transactionId := by
  refine foldlM_preserves (P := fun t => CleanedUp st.1 t.1 st.2.transactionId
    own.startPageCount ∧ t.2.transactionId = st.2.transactionId) ?_ ⟨.refl _ _ hh, rfl⟩ h
  intro rsv _ t t' ht hst
  obtain ⟨hc, hi⟩ := ht
  obtain ⟨hn, hi'⟩ := finishReservation_cleanedUp (hc.grows.sound hs) hc.disk.header hst
  rw [hi] at hn
  exact ⟨hc.trans hn, hi'.trans hi⟩

/-- Reading the header again changes nothing while the cached one is current. -/
theorem reloadDatabaseHeader_ok
    (hh : s.disk.HeaderCached)
    (h : s.reloadDatabaseHeader = .ok s') : s'.log = s.log ∧ s'.disk = s.disk := by
  simp only [reloadDatabaseHeader, map_ok, attempt_ok, DiskManager.reloadDatabaseHeader, ok_iff]
    at h
  obtain ⟨_, ⟨hd, hr, rfl⟩, rfl⟩ := h
  rw [hh, Except.ok.injEq] at hr
  subst hr
  exact ⟨rfl, rfl⟩

theorem finishOwned_cleanedUp (hs : LogSound s.log)
    (hh : s.disk.HeaderCached) (h : finishOwned s loser = .ok s') :
    ∃ hist txs own, analyzeOwner s.log loser = .ok (hist, txs, own) ∧
      CleanedUp s s' loser.transactionId own.startPageCount := by
  simp only [finishOwned, ok_iff, attempt_ok, Prod.exists] at h
  obtain ⟨_, _, hist, txs, own, ha, reloaded, hr, _, _, _, _, finished,
    loser', hfl, aborted, _, hf, rfl⟩ := h
  obtain ⟨hl, hd⟩ := reloadDatabaseHeader_ok hh hr
  have ht : CleanedUp s reloaded loser.transactionId own.startPageCount := by
    refine ⟨hl ▸ .refl, fun r hm => .inl (hl ▸ hm), ?_⟩
    rw [hd]
    exact .refl _ hh
  obtain ⟨hc, hi⟩ := finishReservations_cleanedUp hfl (ht.grows.sound hs) ht.disk.header
  obtain ⟨hn, _⟩ := appendForced_noted hf
  exact ⟨hist, txs, own, ha, (ht.trans hc).sync.noted hn (.inl hi) rfl⟩

end MiniDb
