import MiniDb.ExtentProvenance
import MiniDb.StatementBoundary
import MiniDb.UndoTrail

/-!
Physical growth under an owned transaction. A page is appended to the file only
behind a durable PAGE_RESERVE of the transaction, which stands behind its
BEGIN_OWNED. What this says about file and log survives every effect of the
engine, a checkpoint, the undo of the transaction, crashes in between, and the
undo that startup recovery repeats.
-/
namespace MiniDb
open ByteBlock Outcome Engine DurableFile TransactionContext LogPayload SortedMap List

variable {e e' : Engine} {pl : LogPayload}
variable {x y : DiskManager × LogManager} {lsn : Nat}

/-- The BEGIN_OWNED of a transaction that began with `start` pages. -/
def BeginsOwned (transactionId start : Nat) (record : LogRecord) : Prop :=
  record.transactionId = transactionId ∧ record.payload = .beginOwned start

/-- The pages of the file past `start` are accounted for in the log. -/
structure Accounted (transactionId start : Nat) (disk : DiskManager) (log : LogManager) :
    Prop where
  sound : LogSound log
  within : disk.file.Within disk.pageCount
  begun : ∀ record ∈ log.records, record.transactionId = transactionId →
    record.payload ≠ .beginOwned start →
    ∃ begin ∈ log.records, BeginsOwned transactionId start begin ∧ begin.lsn < record.lsn
  first : ∀ begin ∈ log.records, BeginsOwned transactionId start begin →
    ∀ record ∈ log.records, record.transactionId = transactionId → begin.lsn ≤ record.lsn
  alone : ∀ begin ∈ log.records, BeginsOwned transactionId start begin →
    ∀ record ∈ log.records, begin.lsn ≤ record.lsn →
      record.transactionId = transactionId ∨ record.transactionId = 0
  single : ∀ p, ∀ left ∈ log.records, ∀ right ∈ log.records, Reserves transactionId p left →
    Reserves transactionId p right → left = right
  reserved : ∀ p, start ≤ p → p < disk.pageCount →
    ∃ record ∈ log.records, Reserves transactionId p record ∧ log.IsDurable record.lsn
  updates : ∀ record ∈ log.records, record.transactionId = transactionId →
    ∀ p, record.payload.pageUpdateIdentity = some ⟨p, true⟩ → p < start
  owned : ∀ record ∈ log.records, record.transactionId = transactionId →
    ∀ count, record.payload ≠ .begin count

section FileAndLog

variable {tid start : Nat} {disk disk' : DiskManager} {log log' : LogManager}

/-- What a record of undo, or of the system, is not. -/
theorem isUndo_excludes (h : pl.isUndo = true) :
    (∀ reserve, pl ≠ .pageReserve reserve) ∧ (∀ cnt, pl ≠ .beginOwned cnt) ∧
      (∀ cnt, pl ≠ .begin cnt) ∧ pl.pageUpdateIdentity = none := by
  cases pl <;> simp_all [isUndo, pageUpdateIdentity]

theorem Accounted.resize (h : Accounted tid start disk log) (hw : disk'.file.Within disk'.pageCount)
    (hc : disk'.pageCount ≤ max start disk.pageCount) : Accounted tid start disk' log :=
  ⟨h.sound, hw, h.begun, h.first, h.alone, h.single,
    fun p hs hlt => h.reserved p hs (by omega), h.updates, h.owned⟩

/-- A record that is neither BEGIN, reservation nor update goes to the log. -/
theorem Accounted.append {own : Nat} {pv : Option Nat} (h : Accounted tid start disk log)
    (ho : own = tid ∨ own = 0)
    (hop : own = tid → ∃ begin ∈ log.records, BeginsOwned tid start begin)
    (hv : ∀ reserve, pl ≠ .pageReserve reserve) (hb : ∀ cnt, pl ≠ .beginOwned cnt)
    (hlg : ∀ cnt, pl ≠ .begin cnt) (hu : pl.pageUpdateIdentity = none)
    (ha : log.append own pv pl = .ok (log', lsn)) : Accounted tid start disk log' := by
  have hgr : LogGrows log log' := .single (.append ha)
  have he := (append_extends ha).records
  have hm : ∀ {r}, r ∈ log'.records → r ∈ log.records ∨ r = ⟨own, pv, pl, log.nextLsn⟩ := by
    intro r hc
    rw [he] at hc
    rcases mem_append.mp hc with hold | hn
    · exact .inl hold
    · exact .inr (mem_singleton.mp hn)
  have hk : ∀ {r}, r ∈ log.records → r ∈ log'.records :=
    fun hc => (append_extends ha).subset hc
  have hold : ∀ {p r}, r ∈ log'.records → Reserves tid p r → r ∈ log.records := by
    rintro p r hc ⟨_, reserve, hp, _⟩
    rcases hm hc with hold | rfl
    · exact hold
    · exact absurd hp (hv reserve)
  refine ⟨hgr.sound h.sound, h.within, ?_, ?_, ?_, ?_, ?_, ?_, ?_⟩
  · intro r hc hi hp
    rcases hm hc with hold | rfl
    · obtain ⟨begin, hb, hf⟩ := h.begun r hold hi hp
      exact ⟨begin, hk hb, hf⟩
    · obtain ⟨begin, hb, hg⟩ := hop hi
      exact ⟨begin, hk hb, hg, (h.sound.placed.lsn_lt hb).2⟩
  · intro begin hb' hg r hc hi
    rcases hm hb' with hold | rfl
    · rcases hm hc with hc | rfl
      · exact h.first begin hold hg r hc hi
      · exact Nat.le_of_lt (h.sound.placed.lsn_lt hold).2
    · exact absurd hg.2 (hb start)
  · intro begin hb' hg r hc hle
    rcases hm hb' with hold | rfl
    · rcases hm hc with hc | rfl
      · exact h.alone begin hold hg r hc hle
      · exact ho
    · exact absurd hg.2 (hb start)
  · intro p left hlf right hrg hl hr
    exact h.single p left (hold hlf hl) right (hold hrg hr) hl hr
  · intro p ht hlt
    obtain ⟨r, hc, hs, hd⟩ := h.reserved p ht hlt
    exact ⟨r, hk hc, hs, hgr.isDurable h.sound hd⟩
  · intro r hc hi p hin
    rcases hm hc with hold | rfl
    · exact h.updates r hold hi p hin
    · rw [hu] at hin
      cases hin
  · intro r hc hi cnt
    rcases hm hc with hold | rfl
    · exact h.owned r hold hi cnt
    · exact hlg cnt

theorem Accounted.force (h : Accounted tid start disk log) (hfl : log.flushUpTo lsn = .ok log') :
    Accounted tid start disk log' := by
  have hg : LogGrows log log' := .single (.flush hfl)
  have hc := (flushUpTo_fields hfl).1
  have hd : ∀ {lsn}, log.IsDurable lsn → log'.IsDurable lsn :=
    fun hl => hg.isDurable h.sound hl
  obtain ⟨hs, hw, hb, hf, ha, hn, hrs, hu, ho⟩ := h
  rw [← hc] at hb hf ha hn hrs hu ho
  refine ⟨hg.sound hs, hw, hb, hf, ha, hn, ?_, hu, ho⟩
  intro p ht hlt
  obtain ⟨r, hr, hv, hl⟩ := hrs p ht hlt
  exact ⟨r, hr, hv, hd hl⟩

theorem within_writePhysicalPage {p : Nat} {pg : Page} (h : disk.file.Within disk.pageCount)
    (hr : disk.writePhysicalPage p pg = .ok disk') :
    disk'.file.Within disk'.pageCount ∧ disk'.pageCount = max disk.pageCount (p + 1) := by
  have hw := writePhysicalPage_wrote hr
  refine ⟨⟨?_, ?_⟩, hw.count⟩
  · rw [hw.durable, hw.count]
    exact h.durable.trans (le_max_left _ _)
  · obtain ⟨added, hp, ha⟩ := hw.pending
    intro op ho
    rw [hp] at ho
    rw [hw.count]
    rcases mem_append.mp ho with ho | ho
    · rcases mem_append.mp ho with ho | ho
      · obtain ⟨ix, block, rfl, hlt⟩ := h.pending op ho
        exact ⟨ix, block, rfl, by omega⟩
      · obtain ⟨ix, _, hle, rfl⟩ := ha op ho
        exact ⟨ix, zero, rfl, by omega⟩
    · exact ⟨p, pg, mem_singleton.mp ho, by omega⟩

/-- One move of undo. -/
theorem Accounted.move (h : Accounted tid start x.1 x.2)
    (hop : ∃ begin ∈ x.2.records, BeginsOwned tid start begin)
    (hm : UndoMove (· = tid) x y) : Accounted tid start y.1 y.2 := by
  cases hm with
  | appended ho hk ha =>
    obtain ⟨hs, hb, hl, hu⟩ := isUndo_excludes hk
    exact h.append ho (fun _ => hop) hs hb hl hu ha
  | forced hfl => exact h.force hfl
  | @wrote disk disk' log p pg hp hwr =>
    obtain ⟨hw, hc⟩ := within_writePhysicalPage h.within hwr
    refine h.resize hw ?_
    rw [hc]
    rcases hp with hlt | ⟨r, hr, hi, hn⟩
    · show max disk.pageCount (p + 1) ≤ max start disk.pageCount
      omega
    · have hlt := h.updates r hr hi p hn
      omega
  | synced => exact h.resize h.within.sync (le_max_right _ _)
  | reloaded hreload =>
    simp only [DiskManager.reloadDatabaseHeader, ok_iff] at hreload
    obtain ⟨hd, _, rfl⟩ := hreload
    exact h.resize h.within (le_max_right _ _)
  | truncated hb _ =>
    obtain ⟨r, hr, hi, cnt, hy⟩ := hb
    exact absurd hy (h.owned r hr hi cnt)

/-- A log cut at a record boundary, with its durable part kept. -/
theorem Accounted.reopen {kept : Nat} {bks : List Page} (h : Accounted tid start disk log)
    (hbl : disk.file.Survives zero bks) (hls : log.Loses kept) (hf : disk'.file = ⟨bks, []⟩) :
    Accounted tid start disk' (log.reopen kept) := by
  have hs := reopen_sound h.sound kept
  have hm : ∀ {r}, r ∈ (log.reopen kept).records → r ∈ log.records :=
    fun hrc => mem_of_mem_take hrc
  have hc : disk'.pageCount = bks.length := by
    simp [DiskManager.pageCount, DiskManager.pages, BufferedFile.contents, hf]
  have hex := h.within.survives hbl
  refine ⟨hs, ?_, ?_, ?_, ?_, ?_, ?_, ?_, ?_⟩
  · rw [hc, hf]
    exact ⟨le_rfl, by simp⟩
  · intro r hrc hi hp
    obtain ⟨begin, hb, hg, hlt⟩ := h.begun r (hm hrc) hi hp
    -- what was written in front of a kept record is kept
    refine ⟨begin, ?_, hg, hlt⟩
    rw [← take_append_drop kept log.records] at hb
    rcases mem_append.mp hb with hk | ho
    · exact hk
    · have hsr := h.sound.placed.sorted
      rw [← take_append_drop kept log.records] at hsr
      have := (pairwise_append.mp hsr).2.2 r hrc begin ho
      omega
  · exact fun begin hb hg r hrc =>
      h.first begin (hm hb) hg r (hm hrc)
  · exact fun begin hb hg r hrc =>
      h.alone begin (hm hb) hg r (hm hrc)
  · intro p left hlf right hrg hl hr
    exact h.single p left (hm hlf) right (hm hrg) hl hr
  · intro p ht hlt
    obtain ⟨r, hrc, hrs, hd⟩ := h.reserved p ht (by omega)
    have hk := reopen_durable hls hrc hd
    exact ⟨r, hk, hrs, hs.last r hk⟩
  · exact fun r hrc => h.updates r (hm hrc)
  · exact fun r hrc => h.owned r (hm hrc)

end FileAndLog

/-- The reservations of the running transaction are those in the log, and every page
the file gained since it began has one that is durable. -/
structure Reserving (context : TransactionContext) (pageCount : Nat) (log : LogManager) :
    Prop where
  owned : context.rollbackProtocol = .ownedAppend
  alone : ∀ begin, context.beginLsn = some begin → ∀ record ∈ log.records, begin ≤ record.lsn →
    record.transactionId = context.transactionId ∨ record.transactionId = 0
  logged : ∀ p reservation, context.reservations.find? p = some reservation →
    ∃ record ∈ log.records, Reserves context.transactionId p record ∧
      record.lsn = reservation.reserveLsn
  known : ∀ p, ∀ record ∈ log.records, Reserves context.transactionId p record →
    ∃ reservation, context.reservations.find? p = some reservation ∧
      reservation.reserveLsn = record.lsn
  grown : ∀ p, context.startPageCount ≤ p → p < pageCount →
    ∃ reservation, context.reservations.find? p = some reservation ∧
      log.IsDurable reservation.reserveLsn

/-- Two contexts of one transaction with the same reservations. -/
structure SameReservings (context context' : TransactionContext) : Prop
    extends context.SameWriter context' where
  reservations : context'.reservations = context.reservations

section Running

variable {ctx ctx' : TransactionContext} {cnt : Nat} {log log' : LogManager}

section
variable (h : Reserving ctx cnt log)
include h

/-- The log gains records that reserve nothing, and keeps those of the transaction. -/
theorem Reserving.extend (hm : SameReservings ctx ctx') (ha : ∀ r ∈ log'.records, r ∈ log.records ∨
      (r.transactionId = ctx.transactionId ∨ r.transactionId = 0) ∧
        ∀ p, ¬ Reserves ctx.transactionId p r)
    (hk : ∀ r ∈ log.records, r.transactionId = ctx.transactionId →
      r ∈ log'.records) (hd : ∀ lsn, log.IsDurable lsn → log'.IsDurable lsn)
    (hbe : ∀ begin, ctx'.beginLsn = some begin → ctx.beginLsn = some begin ∨
      ∀ r ∈ log.records, r.lsn < begin) : Reserving ctx' cnt log' := by
  obtain ⟨⟨hi, hp, hst⟩, he⟩ := hm
  refine ⟨hp.trans h.owned, ?_, ?_, ?_, ?_⟩
  · intro begin hg r hr hle
    rw [hi]
    rcases ha r hr with ho | ⟨ht, _⟩
    · rcases hbe begin hg with hb | hla
      · exact h.alone begin hb r ho hle
      · exact absurd (hla r ho) hle.not_gt
    · exact ht
  · intro p rsv hf
    rw [he] at hf
    obtain ⟨r, hr, hs, hl⟩ := h.logged p rsv hf
    exact ⟨r, hk r hr hs.1, hi ▸ hs, hl⟩
  · intro p r hr hs
    rw [hi] at hs
    rw [he]
    rcases ha r hr with ho | ⟨_, hn⟩
    · exact h.known p r ho hs
    · exact absurd hs (hn p)
  · intro p hle hlt
    rw [he]
    obtain ⟨rsv, hf, hl⟩ := h.grown p (hst ▸ hle) hlt
    exact ⟨rsv, hf, hd _ hl⟩

theorem Reserving.of_same (hs : SameReservings ctx ctx') (hb : ctx'.beginLsn = ctx.beginLsn) :
    Reserving ctx' cnt log :=
  h.extend hs (fun _ hr => .inl hr) (fun _ hr _ => hr)
    (fun _ hl => hl) (fun _ hg => .inl (hb ▸ hg))

/-- One record that reserves nothing, perhaps the BEGIN. -/
theorem Reserving.append {own : Nat} {pv : Option Nat} (hs : LogSound log)
    (hm : SameReservings ctx ctx') (ho : own = ctx.transactionId ∨ own = 0)
    (hp : ∀ reserve, pl ≠ .pageReserve reserve)
    (hb : ctx'.beginLsn = ctx.beginLsn ∨ ctx'.beginLsn = some log.nextLsn)
    (ha : log.append own pv pl = .ok (log', lsn)) : Reserving ctx' cnt log' := by
  have hgr : LogGrows log log' := .single (.append ha)
  refine h.extend hm ?_ (fun _ hr _ => (append_extends ha).subset hr)
    (fun _ hl => hgr.isDurable hs hl) ?_
  · intro r hr
    rw [(append_extends ha).records] at hr
    rcases mem_append.mp hr with hd | hn
    · exact .inl hd
    · rw [mem_singleton.mp hn]
      refine .inr ⟨ho, ?_⟩
      rintro p ⟨_, reserve, hrs, _⟩
      exact hp reserve hrs
  · intro begin hg
    rcases hb with hm | hn
    · exact .inl (hm ▸ hg)
    · rw [hn] at hg
      cases hg
      exact .inr fun r hr => (hs.placed.lsn_lt hr).2

theorem Reserving.force (hs : LogSound log) (hf : log.flushUpTo lsn = .ok log') :
    Reserving ctx cnt log' := by
  have hg : LogGrows log log' := .single (.flush hf)
  have hc := (flushUpTo_fields hf).1
  exact h.extend ⟨⟨rfl, rfl, rfl⟩, rfl⟩ (fun r hr => .inl (hc ▸ hr))
    (fun r hr _ => hc ▸ hr) (fun lsn hl => hg.isDurable hs hl) (fun begin hb => .inl hb)

theorem Reserving.ensureBeginLogged (hs : LogSound log)
    (hb : ctx.ensureBeginLogged log = .ok (ctx', log')) : Reserving ctx' cnt log' := by
  rcases ensureBeginLogged_ok hb with ⟨_, rfl, rfl⟩ | ⟨_, rfl, ha⟩
  · exact h
  · refine h.append hs ⟨⟨rfl, rfl, rfl⟩, rfl⟩ (.inl rfl) ?_ (.inr rfl) ha
    intro reserve
    unfold beginPayload
    split <;> simp

theorem Reserving.appendTransactionRecord (hs : LogSound log)
    (hp : ∀ reserve, pl ≠ .pageReserve reserve)
    (hr : ctx.appendTransactionRecord log pl = .ok (ctx', log', lsn)) :
    Reserving ctx' cnt log' := by
  obtain ⟨begun, mid, hb, ha, rfl⟩ :=
    appendTransactionRecord_ok hr
  have hi := (ensureBeginLogged_keeps hb).1.transactionId
  have hm := (ensureBeginLogged_grows hb).sound hs
  exact (h.ensureBeginLogged hs hb).append hm ⟨⟨rfl, rfl, rfl⟩, rfl⟩ (.inl hi.symm)
    hp (.inl rfl) ha

theorem Reserving.intent {p : Nat} {bef : Page} (hi : ctx.notePageWriteIntent p bef = .ok ctx') :
    Reserving ctx' cnt log := by
  rcases notePageWriteIntent_ok hi with
    ⟨_, _, rfl⟩ | ⟨_, _, _, rfl⟩
  · exact h.of_same ⟨⟨rfl, rfl, rfl⟩, rfl⟩ rfl
  · exact h.of_same ⟨⟨rfl, rfl, rfl⟩, rfl⟩ rfl

theorem Reserving.prepared {mode : WalUpdateMode} {formatVersion p : Nat} {aft : Page}
    {prep : PreparedPage} (hs : LogSound log)
    (ho : ctx.PrepareOutcome log mode formatVersion p aft prep) :
    Reserving prep.context cnt prep.log := by
  cases ho with
  | absent => exact h
  | unchanged => exact h
  | logged hst haft hbef hdiffers hlgd =>
    obtain ⟨pl, app, log', lsn, hd, ha, hc, rfl, _⟩ :=
      logged_describes haft hbef hlgd
    rw [hc]
    refine (h.appendTransactionRecord hs ?_ ha).of_same ⟨⟨rfl, rfl, rfl⟩, rfl⟩ rfl
    rintro reserve rfl
    have hi := hd.identity
    simp [pageUpdateIdentity] at hi

theorem Reserving.reserve {p : Nat} {pv : Option Nat} (hs : LogSound log)
    (hn : ctx.reservations.find? p = none)
    (ha : log.append ctx.transactionId pv (.pageReserve ⟨p, p⟩) = .ok (log', lsn)) :
    Reserving (({ ctx with lastLsn := some lsn } : TransactionContext).setReservation p
      ⟨lsn, false⟩) cnt log' := by
  have hg : LogGrows log log' := .single (.append ha)
  obtain ⟨rfl, _, _, _, hc, _⟩ := append_ok ha
  have hm : ∀ {r}, r ∈ log'.records → r ∈ log.records ∨
      r = ⟨ctx.transactionId, pv, .pageReserve ⟨p, p⟩, log.nextLsn⟩ := by
    intro r hr
    rw [hc] at hr
    simpa using hr
  refine ⟨h.owned, ?_, ?_, ?_, ?_⟩
  · intro begin hb r hr hle
    rcases hm hr with ho | rfl
    · exact h.alone begin hb r ho hle
    · exact .inl rfl
  · intro q rsv hf
    simp only [setReservation, find?_insert] at hf
    split at hf
    · rename_i hq
      cases hf
      refine ⟨⟨ctx.transactionId, pv, .pageReserve ⟨p, p⟩, log.nextLsn⟩, ?_,
        ⟨rfl, _, rfl, hq.symm⟩, rfl⟩
      rw [hc]
      exact mem_append_right _ (mem_singleton.mpr rfl)
    · obtain ⟨r, hr, hfc⟩ := h.logged q rsv hf
      exact ⟨r, by rw [hc]; exact mem_append_left _ hr, hfc⟩
  · intro q r hr hrs
    simp only [setReservation, find?_insert]
    rcases hm hr with ho | rfl
    · obtain ⟨rsv, hf, hl⟩ := h.known q r ho hrs
      refine ⟨rsv, ?_, hl⟩
      rw [if_neg, hf]
      rintro rfl
      rw [hn] at hf
      cases hf
    · obtain ⟨_, reserve, hv, rfl⟩ := hrs
      cases hv
      exact ⟨_, if_pos rfl, rfl⟩
  · intro q hle hlt
    obtain ⟨rsv, hf, hl⟩ := h.grown q hle hlt
    refine ⟨rsv, ?_, hg.isDurable hs hl⟩
    simp only [setReservation, find?_insert]
    rw [if_neg, hf]
    rintro rfl
    rw [hn] at hf
    cases hf

theorem Reserving.reserved {p : Nat} (hs : LogSound log)
    (hrs : ctx.prepareForPhysicalPageAppend log p = .ok (ctx', log', lsn)) :
    Reserving ctx' cnt log' := by
  simp only [prepareForPhysicalPageAppend, bind_ok, Prod.exists] at hrs
  obtain ⟨_, _, begun, mid, hb, hr⟩ := hrs
  have ho : Reserving ({ ctx with safeBoundary := false } : TransactionContext) cnt log :=
    h.of_same ⟨⟨rfl, rfl, rfl⟩, rfl⟩ rfl
  have hg := ho.ensureBeginLogged hs hb
  have hm := (ensureBeginLogged_grows hb).sound hs
  rcases reservePage_ok hr with ⟨rfl, rfl, _⟩ | ⟨app, hc, rfl, hn⟩
  · exact hg
  · obtain ⟨begun', mid', hb', ha, rfl⟩ := appendTransactionRecord_ok hc
    obtain ⟨⟨⟨hi, _, _⟩, _⟩, he⟩ := ensureBeginLogged_keeps hb'
    have hm' := (ensureBeginLogged_grows hb').sound hm
    exact (hg.ensureBeginLogged hm hb').reserve hm' (he ▸ hn) (hi ▸ ha)

/-- The page at the end of the file is appended behind its durable reservation. -/
theorem Reserving.confirmed (hc : ctx.notePhysicalPageAppend log cnt = .ok ctx') :
    Reserving ctx' (cnt + 1) log := by
  unfold notePhysicalPageAppend at hc
  split at hc
  · rename_i rsv hf
    simp only [ok_iff] at hc
    obtain ⟨_, ⟨_, hd⟩, rfl⟩ := hc
    refine ⟨h.owned, h.alone, ?_, ?_, ?_⟩
    · intro q other ho
      simp only [setReservation, find?_insert] at ho
      split at ho
      · rename_i hq
        cases ho
        exact hq ▸ h.logged cnt rsv hf
      · exact h.logged q other ho
    · intro q r hr hs
      obtain ⟨other, ho, hl⟩ := h.known q r hr hs
      simp only [setReservation, find?_insert]
      split
      · rename_i hq
        rw [hq, hf] at ho
        cases ho
        exact ⟨_, rfl, hl⟩
      · exact ⟨other, ho, hl⟩
    · intro q hle hlt
      simp only [setReservation, find?_insert]
      split
      · exact ⟨_, rfl, hd⟩
      · rename_i hq
        exact h.grown q hle (by omega)
  · cases hc

end

end Running

/-- What holds of the engine between any two effects. -/
structure Growth (e : Engine) : Prop where
  within : e.disk.file.Within e.disk.pageCount
  running : ∀ context, e.context = some context → Reserving context e.disk.pageCount e.log

variable {ctx : TransactionContext}

theorem Growth.of_running (hw : e.disk.file.Within e.disk.pageCount) (hc : e.context = some ctx)
    (hr : Reserving ctx e.disk.pageCount e.log) : Growth e := by
  refine ⟨hw, ?_⟩
  intro run heq
  rw [hc] at heq
  cases heq
  exact hr

theorem Growth.reframe (h : Growth e) (frs : SortedMap Frame) :
    Growth { e with frames := frs } := ⟨h.within, h.running⟩

theorem Growth.effect (h : Growth e) (hs : LogSound e.log) (he : Effect e e') : Growth e' := by
  cases he with
  | mutated => exact h.reframe _
  | pool he =>
    cases he with
    | repinned | loaded | evicted => exact h.reframe _
    | prepared hc _ _ hpr _ =>
      exact .of_running h.within rfl
        ((h.running _ hc).prepared hs (preparePageForWrite_outcome hpr))
    | forced lsn hlog => exact ⟨h.within, fun ctx hc => (h.running ctx hc).force hs hlog⟩
    | @wroteBack p f hf hp _ _ =>
      have hn := pageCount_overwrite hp.2 f.data
      refine ⟨?_, fun ctx hc => hn ▸ h.running ctx hc⟩
      show ((e.disk.perform (.write p f.data)).file).Within
        (e.disk.perform (.write p f.data)).pageCount
      rw [hn]
      exact h.within.write hp.2
  | reserved hc hrsvd =>
    exact .of_running h.within rfl ((h.running _ hc).reserved hs hrsvd)
  | appended hc hroom hconf hint =>
    have hn := pageCount_extend e.disk zero
    refine .of_running ?_ rfl ?_
    · show ((e.disk.perform (.write e.disk.pageCount zero)).file).Within
        (e.disk.perform (.write e.disk.pageCount zero)).pageCount
      rw [hn]
      exact (h.within.mono (Nat.le_succ _)).write (Nat.lt_succ_self _)
    · show Reserving _ (e.disk.perform (.write e.disk.pageCount zero)).pageCount e.log
      rw [hn]
      exact ((h.running _ hc).confirmed hconf).intent hint
  | intended hc _ _ hint | headerIntended hc _ hint =>
    exact .of_running h.within rfl ((h.running _ hc).intent hint)
  | @persisted ctx prep log disk s hdr hc hst hexists hpr hlog hdisk =>
    have ho := preparePageForWrite_outcome hpr
    obtain ⟨hw, hn⟩ := within_writePhysicalPage h.within hdisk
    have hm : disk.pageCount = e.disk.pageCount := by omega
    refine .of_running hw rfl ?_
    rw [hm]
    have hr := (h.running _ hc).prepared hs ho
    have hpr := ho.grows.sound hs
    cases hl : prep.lsn with
    | none =>
      simp only [flushUpToIfValid, hl, Except.ok.injEq] at hlog
      exact hlog ▸ hr
    | some lsn =>
      simp only [flushUpToIfValid, hl] at hlog
      exact hr.force hpr hlog
  | bounded hc _ _ =>
    refine .of_running h.within (by rw [markSafeBoundary, hc]; rfl) ?_
    exact (h.running _ hc).of_same ⟨⟨rfl, rfl, rfl⟩, rfl⟩ rfl

theorem Growth.effects (h : Growth e) (hs : LogSound e.log) (he : Effects e e') : Growth e' := by
  induction he with
  | refl => exact h
  | tail hbef heff ih =>
    exact ih.effect ((Effects.logGrows hbef).sound hs) heff

theorem Growth.of_idle (hw : e.disk.file.Within e.disk.pageCount) (hi : e.context = none) :
    Growth e := by
  refine ⟨hw, ?_⟩
  intro ctx hc
  rw [hi] at hc
  cases hc

theorem Growth.begin (h : Growth e) (hs : Sound e) (hb : e.beginTransaction .ownedAppend = .ok e') :
    Growth e' := by
  simp only [beginTransaction, ok_iff] at hb
  obtain ⟨_, _, _, _, _, _, _, _, rfl⟩ := hb
  refine .of_running h.within rfl ⟨rfl, ?_, ?_, ?_, ?_⟩
  · intro begin hg
    cases hg
  · intro p rsv hf
    cases hf
  · intro p r hr hrs
    have hi : r.transactionId = e.nextTransactionId := hrs.1
    exact absurd (hs.owned.ids r hr) (by omega)
  · intro p hle hlt
    exact absurd hlt hle.not_gt

theorem Growth.commit (h : Growth e) (hs : Sound e) (hc : e.commitStatement = .ok e') :
    Growth e' := by
  simp only [commitStatement, bind_ok] at hc
  obtain ⟨prep, hp, hc⟩ := hc
  have hr := prepareStatement_prepared hs.ready hp
  have hw := (h.effects hs.ready.log hr.effects).within
  split at hc
  · simp at hc
  · split at hc
    · simp only [pure_ok] at hc
      subst hc
      exact .of_idle hw rfl
    · simp only [ok_iff, Prod.exists] at hc
      obtain ⟨_, _, _, _, _, _, rfl⟩ := hc
      exact .of_idle hw rfl

theorem Growth.unmoved (h : Growth e) (hs : IdsInUse e) (hu : Unmoved e e') : Growth e' := by
  have hh := hu.history
  refine ⟨?_, ?_⟩
  · rw [hu.extent]
    exact hh.file _ le_rfl h.within
  · intro ctx hc
    rw [hu.context] at hc
    rw [hu.extent]
    refine (h.running ctx hc).extend ⟨⟨rfl, rfl, rfl⟩, rfl⟩ ?_ ?_ hh.durable
      (fun begin hb => .inl hb)
    · intro r hr
      refine (hh.adds r hr).imp_right fun hz => ⟨.inr hz, ?_⟩
      rintro p ⟨hi, _⟩
      exact hs.running ctx hc (hi.symm.trans hz)
    · intro r hr hi
      have ho := mem_ownRecords.mpr ⟨hr, hi⟩
      rw [← hh.own ctx hc] at ho
      exact (mem_ownRecords.mp ho).1

/-! The running transaction accounts for the file. -/

/-- The records of a transaction behind its BEGIN. -/
theorem OwnRecord.kinds {r : LogRecord} (h : OwnRecord ctx r) :
    (∀ cnt, r.payload ≠ .beginOwned cnt) ∧ ∀ cnt, r.payload ≠ .begin cnt := by
  cases h with
  | reserve p hp => simp [hp]
  | update hst hdesc =>
    have hi := hdesc.identity
    refine ⟨?_, ?_⟩
    · intro cnt hp
      simp [hp, pageUpdateIdentity] at hi
    · intro cnt hp
      simp [hp, pageUpdateIdentity] at hi

theorem Growth.accounted (h : Growth e) (hs : Sound e) (hc : e.context = some ctx) :
    Accounted ctx.transactionId ctx.startPageCount e.disk e.log := by
  have hrs := h.running ctx hc
  have ho := (hs.owned.own ctx hc).2
  have hsr := hs.ready.log.placed.sorted
  have hss := (hs.ready.coherent.intents ctx hc).2
  -- what a record of the transaction can be
  have hcs : ∀ r ∈ e.log.records, r.transactionId = ctx.transactionId →
      ∃ begin, ctx.beginLsn = some begin ∧ ctx.beginRecord begin ∈ e.log.records ∧
        (r = ctx.beginRecord begin ∨ begin < r.lsn ∧ OwnRecord ctx r) := by
    intro r hrc hi
    have hm := mem_ownRecords.mpr ⟨hrc, hi⟩
    cases hb : ctx.beginLsn with
    | none =>
      rw [(ho.chained.unbegun hb).2] at hm
      cases hm
    | some begin =>
      obtain ⟨rest, hh, _, _, he⟩ := ho.chained.begun begin hb
      have hpl : (ownRecords e.log.records ctx.transactionId).Pairwise
          (fun a b => a.lsn < b.lsn) := hsr.filter _
      have hfs : ctx.beginRecord begin ∈ ownRecords e.log.records ctx.transactionId := by
        rw [hh]
        exact mem_cons_self
      rw [hh] at hm hpl
      refine ⟨begin, rfl, (mem_ownRecords.mp hfs).1, ?_⟩
      rcases mem_cons.mp hm with rfl | hm
      · exact .inl rfl
      · exact .inr ⟨(pairwise_cons.mp hpl).1 r hm, he r hm⟩
  have hp : ctx.beginPayload = .beginOwned ctx.startPageCount := by
    simp [beginPayload, hrs.owned]
  -- the only BEGIN_OWNED of the transaction is its first record
  have hg : ∀ begin ∈ e.log.records, BeginsOwned ctx.transactionId ctx.startPageCount begin →
      ctx.beginLsn = some begin.lsn := by
    rintro begin hb ⟨hi, hk⟩
    obtain ⟨lsn, hls, _, rfl | ⟨_, hrc⟩⟩ := hcs begin hb hi
    · exact hls
    · exact absurd hk (hrc.kinds.1 _)
  refine ⟨hs.ready.log, h.within, ?_, ?_, ?_, ?_, ?_, ?_, ?_⟩
  · intro r hrc hi hk
    obtain ⟨begin, _, hm, rfl | ⟨hlt, _⟩⟩ := hcs r hrc hi
    · exact absurd hp hk
    · exact ⟨_, hm, ⟨rfl, hp⟩, hlt⟩
  · intro begin hb hk r hrc hi
    have hls := hg begin hb hk
    obtain ⟨lsn, hls', _, rfl | ⟨hlt, _⟩⟩ := hcs r hrc hi
    · rw [hls] at hls'
      cases hls'
      exact le_rfl
    · rw [hls] at hls'
      cases hls'
      exact hlt.le
  · intro begin hb hk
    exact hrs.alone begin.lsn (hg begin hb hk)
  · intro p left hlf right hrg hl hr
    obtain ⟨rsv, hf, hls⟩ := hrs.known p left hlf hl
    obtain ⟨rsv', hf', hls'⟩ := hrs.known p right hrg hr
    rw [hf] at hf'
    cases hf'
    exact eq_of_lsn_eq hsr hlf hrg (hls.symm.trans hls')
  · intro p hle hlt
    obtain ⟨rsv, hf, hd⟩ := hrs.grown p hle hlt
    obtain ⟨r, hrc, hv, hls⟩ := hrs.logged p rsv hf
    exact ⟨r, hrc, hv, hls ▸ hd⟩
  · intro r hrc hi p hn
    obtain ⟨begin, _, _, rfl | ⟨_, hk⟩⟩ := hcs r hrc hi
    · rw [beginRecord_not_update] at hn
      cases hn
    · cases hk with
      | reserve q hq => simp [hq, pageUpdateIdentity] at hn
      | @update q s _ _ hst hdesc =>
        rw [hdesc.identity] at hn
        simp only [Option.some.injEq, PageUpdateIdentity.mk.injEq] at hn
        obtain ⟨rfl, ht⟩ := hn
        have hex := (hss q s hst).2.existed
        rw [ht] at hex
        exact of_decide_eq_true hex.symm
  · intro r hrc hi cnt hk
    obtain ⟨begin, _, _, rfl | ⟨_, hrc⟩⟩ := hcs r hrc hi
    · rw [beginRecord, hp] at hk
      cases hk
    · exact hrc.kinds.2 cnt hk

theorem Growth.begin_logged {begin : Nat} (h : Growth e) (hs : Sound e)
    (hc : e.context = some ctx) (hb : ctx.beginLsn = some begin) : ∃ r ∈ e.log.records,
      BeginsOwned ctx.transactionId ctx.startPageCount r := by
  obtain ⟨rest, ho, _⟩ := (hs.owned.own ctx hc).2.chained.begun begin hb
  have hf : ctx.beginRecord begin ∈ ownRecords e.log.records ctx.transactionId := by
    rw [ho]
    exact mem_cons_self
  refine ⟨ctx.beginRecord begin, (mem_ownRecords.mp hf).1, rfl, ?_⟩
  simp [beginRecord, beginPayload, (h.running ctx hc).owned]

theorem Accounted.moves {tid start : Nat} (h : Accounted tid start x.1 x.2)
    (hp : ∃ begin ∈ x.2.records, BeginsOwned tid start begin) (ho : UndoMoves (· = tid) x y) :
    Accounted tid start y.1 y.2 ∧ ∃ begin ∈ y.2.records, BeginsOwned tid start begin := by
  induction ho with
  | refl => exact ⟨h, hp⟩
  | tail _ hm ih =>
    refine ⟨ih.1.move ih.2 hm, ?_⟩
    obtain ⟨begin, hb, hg⟩ := ih.2
    refine ⟨begin, ?_, hg⟩
    cases hm with
    | appended _ _ ha => exact (append_extends ha).subset hb
    | forced hfl => exact (flushUpTo_fields hfl).1 ▸ hb
    | _ => exact hb

variable {log : LogManager}

theorem Growth.boundary {bnd : TransactionContext} (h : Growth e) (hs : Sound e)
    (hc : e.context = some ctx) (hn : e.ensureBoundaryLogged ctx = .ok (bnd, log)) :
    Growth { e with rollbackActive := true, log := log, context := some bnd } := by
  refine .of_running h.within rfl ?_
  rcases ensureBoundaryLogged_ok hn with ⟨rfl, rfl, _⟩ | ⟨_, hb⟩
  · exact h.running _ hc
  · exact (h.running ctx hc).ensureBeginLogged hs.ready.log hb

/-- Where live undo starts from: the BEGIN and the last record are durable. -/
structure UndoStart (e : Engine) (context boundary : TransactionContext) (begin last : Nat)
    (log : LogManager) : Prop where
  running : e.context = some context
  begun : boundary.beginLsn = some begin
  ended : boundary.lastLsn = some last
  forced : ∃ logged, e.ensureBoundaryLogged context = .ok (boundary, logged) ∧
    logged.flushUpTo last = .ok log

/-- The undo of a live rollback. -/
def liveUndo (e : Engine) (boundary : TransactionContext) (begin last : Nat)
    (log : LogManager) : Attempt Storage :=
  undoTransactions (.open_ e.disk log) [loserOf boundary begin last]
    (fun _ => undoBase boundary) finishOwned

theorem UndoStart.accounted {bnd : TransactionContext} {begin last : Nat}
    (ht : UndoStart e ctx bnd begin last log) (h : Growth e) (hs : Sound e) :
    bnd.transactionId = ctx.transactionId ∧ bnd.startPageCount = ctx.startPageCount ∧
      Accounted ctx.transactionId ctx.startPageCount e.disk log ∧ ∃ r ∈ log.records,
        BeginsOwned ctx.transactionId ctx.startPageCount r := by
  obtain ⟨logged, hb, hf⟩ := ht.forced
  have hgr := h.boundary hs ht.running hb
  have hr := hs.boundary ht.running hb
  have ha := (hgr.accounted hr rfl).force hf
  obtain ⟨r, hc, hg⟩ := hgr.begin_logged hr rfl ht.begun
  obtain ⟨⟨hi, _, hex⟩, _⟩ := ensureBoundaryLogged_keeps hb
  rw [hi, hex] at ha hg
  refine ⟨hi, hex, ha, r, ?_, hg⟩
  rw [(flushUpTo_fields hf).1]
  exact hc

/-- Every state that a live rollback passes accounts for the file. -/
theorem UndoStart.passed {bnd : TransactionContext} {begin last : Nat}
    (ht : UndoStart e ctx bnd begin last log) (h : Growth e) (hs : Sound e) :
    Attempt.Passed (· = ctx.transactionId) (e.disk, log) id (liveUndo e bnd begin last log) := by
  have ho : (Storage.open_ e.disk log).Passed (· = ctx.transactionId) (e.disk, log) := by
    refine ⟨.refl, ?_⟩
    intro x hx
    rw [mem_singleton.mp hx]
  refine undoTransactions_passed ho ?_
  intro loser hl
  rw [mem_singleton.mp hl]
  exact (ht.accounted h hs).1

theorem Growth.rollback (h : Growth e) (hn : Sound e) (hrb : e.rollbackStatement = .ok e') :
    Growth e' := by
  unfold rollbackStatement at hrb
  split at hrb
  · simp at hrb
  · rename_i ctx hc
    simp only [bind_ok] at hrb
    obtain ⟨_, _, prep, hp, hrb⟩ := hrb
    have hpr := prepareStatement_prepared hn.ready hp
    have hr := hn.effects hpr.effects
    have hg := h.effects hn.ready.log hpr.effects
    unfold rollbackPrepared at hrb
    split at hrb
    · simp at hrb
    · rename_i held hh
      simp only [bind_ok, Prod.exists] at hrb
      obtain ⟨bnd, logged, hb, hu⟩ := hrb
      unfold undoActive at hu
      split at hu
      · rename_i begin last hbg hls
        simp only [ok_iff] at hu
        obtain ⟨log, hf, discarded, hd, s, hs, disk, hl, rfl⟩ := hu
        have ht : UndoStart prep held bnd begin last log :=
          ⟨hh, hbg, hls, logged, hb, hf⟩
        have hrs : ReservesNew { prep with
            rollbackActive := true, log := log, context := some bnd } :=
          (hr.boundary hh hb).reserves
        obtain ⟨frs, rfl⟩ := (discardForRollback_discarded hrs rfl hd).same
        obtain ⟨_, _, ha, ho⟩ := ht.accounted hg hr
        have hps := ht.passed hg hr
        rw [liveUndo, mapError_ok.mp hs] at hps
        have hw := (ha.moves ho hps.current).1.within
        simp only [DiskManager.reloadDatabaseHeader, ok_iff] at hl
        obtain ⟨hdr, _, rfl⟩ := hl
        exact .of_idle hw rfl
      · simp only [pure_ok] at hu
        subst hu
        exact .of_idle hg.within rfl

/-- The engine between two calls of a history in which every transaction is owned. -/
structure Accounting (e : Engine) : Prop where
  growth : Growth e
  running : Running e
  mark : MarkKept e

theorem Accounting.effects (h : Accounting e) (he : Effects e e') : Accounting e' :=
  ⟨h.growth.effects h.running.sound.ready.log he, h.running.effects he,
    h.mark.effects h.running.sound he⟩

theorem Accounting.step {op : EngineOp} (h : Accounting e)
    (hn : ∀ prot, op = .begin prot → prot = .ownedAppend) (ht : e.step op = .ok e') :
    Accounting e' := by
  have hs := h.running.sound
  by_cases ho : op.Inside
  · exact h.effects (step_effects hs.ready ho ht)
  · cases op with
    | begin prot =>
      obtain rfl := hn prot rfl
      have hi : e.context = none := by
        simp only [Engine.step, beginTransaction, ok_iff] at ht
        obtain ⟨_, hi, _⟩ := ht
        simpa using hi
      have hd : Steady e := ⟨h.running, hs.settled_of_idle hi⟩
      exact ⟨h.growth.begin hs ht, (Running.begin hd ht).toRunning, .begin hs ht⟩
    | commit =>
      have he := h.running.commit ht
      exact ⟨h.growth.commit hs ht, he.toRunning, .of_idle he.ended⟩
    | rollback =>
      have he := h.running.rollback ht
      exact ⟨h.growth.rollback hs ht, he.toRunning, .of_idle he.ended⟩
    | _ => exact absurd trivial ho

theorem Accounting.attempt {m : CheckpointManager} (h : Accounting m.engine)
    (call : CheckpointCall) (steps : Nat) : Accounting (m.attempt call steps .start).engine := by
  rcases h.mark.attempt call steps h.running.sound h.running.ids with hs | hu
  · rw [hs]
    exact h
  · exact ⟨h.growth.unmoved h.running.ids hu,
      ⟨hu.sound, h.running.ids.unmoved hu, hu.idle.trans h.running.idle⟩, h.mark.unmoved hu⟩

/-- Histories of write transactions. A call that failed leaves the effects it had,
and a checkpoint may end anywhere. -/
inductive WriteHistory (initial : CheckpointManager) : CheckpointManager → Prop
  | opened : WriteHistory initial initial
  | returned {m : CheckpointManager} {e' : Engine} (op : EngineOp) (h : WriteHistory initial m)
      (howned : ∀ protocol, op = .begin protocol → protocol = .ownedAppend)
      (hstep : m.engine.step op = .ok e') : WriteHistory initial { m with engine := e' }
  | failed {m : CheckpointManager} {e' : Engine} (h : WriteHistory initial m)
      (heffects : Effects m.engine e') : WriteHistory initial { m with engine := e' }
  | checkpointed {m : CheckpointManager} (call : CheckpointCall) (steps : Nat)
      (h : WriteHistory initial m) : WriteHistory initial (m.attempt call steps .start)

theorem WriteHistory.accounting {initial m : CheckpointManager} (ho : initial.engine.Opened)
    (hi : initial.engine.nextTransactionId ≠ 0) (hy : initial.engine.disk.file.pending = [])
    (h : WriteHistory initial m) : Accounting m.engine := by
  induction h with
  | opened =>
    have hs := Opened.sound ho
    have he : Ended initial.engine :=
      .of_sound hs ho.context ho.idle.1 (Nat.pos_iff_ne_zero.mpr hi)
    refine ⟨.of_idle ⟨?_, by simp [hy]⟩ ho.context, he.toRunning, .of_idle ho.context⟩
    simp [DiskManager.pageCount, DiskManager.pages, BufferedFile.contents, hy]
  | returned op _ howned hstep ih => exact ih.step howned hstep
  | failed _ heffs ih => exact ih.effects heffs
  | checkpointed call steps _ ih => exact ih.attempt call steps

/-- The page has a durable reservation that no append has used. -/
def NextReserved (p : Nat) (e : Engine) : Prop :=
  ∃ context reservation, e.context = some context ∧
    context.reservations.find? p = some reservation ∧
    reservation.materializedInRuntime = false ∧ e.log.IsDurable reservation.reserveLsn

theorem reserveNextPage_reserved (h : Ready e) (hr : e.reserveNextPage = .ok e') :
    NextReserved e.disk.pageCount e' := by
  unfold reserveNextPage at hr
  split at hr
  · cases hr
  · rename_i ctx hc
    simp only [ok_iff, Prod.exists] at hr
    obtain ⟨_, _, ctx', log, lsn, hs, frc, he, rfl⟩ := hr
    obtain ⟨rsv, hf, hm, rfl⟩ := prepareForPhysicalPageAppend_reserved hs
    have hl := (prepareForPhysicalPageAppend_grows hs).sound h.log
    exact ⟨ctx', rsv, rfl, hf, hm, (ensureDurable_ok hl he).1⟩

/-- Making room in the pool leaves the reservation alone. -/
theorem NextReserved.pooled {p : Nat} (h : NextReserved p e) (hr : Ready e)
    (he : PoolEffects e e') : NextReserved p e' := by
  induction he with
  | refl => exact h
  | @tail mid last hbef heff ih =>
    obtain ⟨ctx, rsv, hc, hf, hm, hd⟩ := ih
    have hd' := (Effect.pool heff).logGrows.isDurable (hr.effects (PoolEffects.effects hbef)).log hd
    cases heff with
    | @prepared _ _ _ ctx' prep hc' _ _ hprep _ =>
      rw [hc] at hc'
      cases hc'
      have ho := prepareOutcome_reservations (preparePageForWrite_outcome hprep)
      exact ⟨prep.context, rsv, rfl, ho ▸ hf, hm, hd'⟩
    | _ => exact ⟨ctx, rsv, hc, hf, hm, hd'⟩

/-- The file grows by the one page whose reservation is durable. -/
theorem appendNextPage_ok {victim : Option Nat} {ext : Engine} (h : Ready e)
    (ha : e.appendNextPage victim = .ok ext) :
    ∃ ready, Effects e ready ∧ NextReserved e.disk.pageCount ready ∧
      e.disk.pageCount = ready.disk.pageCount ∧ ready.disk.pageCount ≠ invalidPageId ∧
      ext = { ready with disk := ready.disk.perform (.write ready.disk.pageCount zero) } := by
  simp only [appendNextPage, ok_iff, appendPage_ok] at ha
  obtain ⟨rsvd, hrv, ready, hv, _, ⟨hc, hi, rfl⟩, rfl⟩ := ha
  have hs := reserveNextPage_effects h hrv
  have hp := availableFrame_pooled (h.effects hs) hv
  exact ⟨ready, hs.trans hp.effects, (reserveNextPage_reserved h hrv).pooled (h.effects hs) hp,
    hc, hi, by rw [hc]⟩

theorem notePageWriteIntent_zero {p : Nat} (ctx : TransactionContext) (h : p ≠ invalidPageId) :
    ∃ ctx', ctx.notePageWriteIntent p zero = .ok ctx' := by
  have hz : readPersistentPageLsn zero = .ok none := by decide +kernel
  unfold notePageWriteIntent intentState
  rw [bind_of_ok (require_of _ h), hz]
  dsimp only
  split
  · exact ⟨_, rfl⟩
  · split <;> exact ⟨_, rfl⟩

/-- A call that has grown the file returns: the confirmation finds the reservation. -/
theorem newPageWrite_of_append {victim : Option Nat} {ext : Engine} (h : Ready e)
    (ha : e.appendNextPage victim = .ok ext) : ∃ e', e.newPageWrite victim = .ok e' := by
  obtain ⟨ready, _, ⟨ctx, rsv, hc, hf, hm, hd⟩, hcn, hi, rfl⟩ := appendNextPage_ok h ha
  have hcf : ctx.notePhysicalPageAppend ready.log e.disk.pageCount = .ok (ctx.setReservation
      e.disk.pageCount { rsv with materializedInRuntime := true }) := by
    simp only [notePhysicalPageAppend, hf, require, hm, hd, and_self, if_true]
    rfl
  obtain ⟨ctx', hin⟩ := notePageWriteIntent_zero (ctx.setReservation e.disk.pageCount
    { rsv with materializedInRuntime := true }) (hcn ▸ hi)
  simp only [newPageWrite, ha, ok_bind, confirmAppend, installPage, setFrame, hc, hcf, pure_bind,
    noteGuardWriteIntent, find?_insert, if_true, hin]
  exact ⟨_, rfl⟩

/-- Where the process can die while the transaction runs: between two effects, with
the file grown by a page that is not confirmed yet, with COMMIT appended, and
anywhere inside the undo of a live rollback. -/
inductive CrashPoint (e : Engine) (context : TransactionContext) :
    DiskManager × LogManager → Prop
  | running (hcontext : e.context = some context) : CrashPoint e context (e.disk, e.log)
  | appending {victim : Option Nat} {extended : Engine} (hcontext : e.context = some context)
      (happend : e.appendNextPage victim = .ok extended) :
      CrashPoint e context (extended.disk, extended.log)
  | committing {context' : TransactionContext} {log : LogManager} {lsn : Nat}
      (hcontext : e.context = some context) (hbegun : context.beginLsn.isSome)
      (hcommit : context.appendTransactionRecord e.log .commit = .ok (context', log, lsn)) :
      CrashPoint e context (e.disk, log)
  | undoing {boundary : TransactionContext} {begin last : Nat} {log : LogManager}
      {x : DiskManager × LogManager} (hstart : UndoStart e context boundary begin last log)
      (hx : (∃ s, liveUndo e boundary begin last log = .ok s ∧ x ∈ s.trail) ∨
        ∃ failure, liveUndo e boundary begin last log = .error failure ∧ x ∈ failure.trail) :
      CrashPoint e context x

theorem CrashPoint.accounted (h : CrashPoint e ctx x) (han : Accounting e) :
    Accounted ctx.transactionId ctx.startPageCount x.1 x.2 := by
  have hg := han.growth
  have hn := han.running.sound
  cases h with
  | running hc => exact hg.accounted hn hc
  | appending hc hap =>
    obtain ⟨ready, he, ⟨ctx', rsv, hc', hf, _, hdur⟩, hct, _, rfl⟩ := appendNextPage_ok hn.ready hap
    obtain ⟨_, hc'', hsm⟩ := he.sameWriter hc
    rw [hc'] at hc''
    cases hc''
    have hready := han.effects he
    have hac := hready.growth.accounted hready.running.sound hc'
    obtain ⟨r, hr, hrs, hl⟩ := (hready.growth.running ctx' hc').logged _ _ hf
    rw [hsm.transactionId, hsm.startPageCount] at hac
    rw [hsm.transactionId, hct] at hrs
    have hcn := pageCount_extend ready.disk zero
    refine ⟨hac.sound, ?_, hac.begun, hac.first, hac.alone, hac.single, ?_, hac.updates, hac.owned⟩
    · rw [hcn]
      exact (hac.within.mono (Nat.le_succ _)).write (Nat.lt_succ_self _)
    · intro p hle hlt
      rw [hcn] at hlt
      rcases Nat.lt_succ_iff_lt_or_eq.mp hlt with hlt | rfl
      · exact hac.reserved p hle hlt
      · exact ⟨r, hr, hrs, hl ▸ hdur⟩
  | committing hc hbg hcom =>
    obtain ⟨begin, hb⟩ := Option.isSome_iff_exists.mp hbg
    obtain ⟨_, _, he, ha, _⟩ :=
      appendTransactionRecord_ok hcom
    simp only [ensureBeginLogged, hbg, if_true, ok_iff] at he
    obtain ⟨rfl, rfl⟩ := he
    exact (hg.accounted hn hc).append (.inl rfl)
      (fun _ => hg.begin_logged hn hc hb) (by simp) (by simp) (by simp) rfl ha
  | undoing hstart hx =>
    obtain ⟨_, _, hac, ho⟩ := hstart.accounted hg hn
    have hp := hstart.passed hg hn
    rcases hx with ⟨s, hs, hx⟩ | ⟨failure, hf, hx⟩
    · rw [hs] at hp
      exact (hac.moves ho (hp.trail x hx)).1
    · rw [hf] at hp
      exact (hac.moves ho (hp x hx)).1

/-- What happens to file and log from a crash point on: the process dies, startup
recovery repeats the pages of transactions that ended before BEGIN, and it takes up
the undo of the transaction where the log has it. -/
inductive RestartMove (transactionId start : Nat) :
    DiskManager × LogManager → DiskManager × LogManager → Prop
  | crashed {disk disk' : DiskManager} {log : LogManager} {blocks : List Page} {kept : Nat}
      (hblocks : disk.file.Survives zero blocks) (hloses : log.Loses kept)
      (hfile : disk'.file = ⟨blocks, []⟩) :
      RestartMove transactionId start (disk, log) (disk', log.reopen kept)
  | redone {disk disk' : DiskManager} {log : LogManager} {p : Nat} {page : Page}
      (hp : p < start ∨ p < disk.pageCount) (hwrite : disk.writePhysicalPage p page = .ok disk') :
      RestartMove transactionId start (disk, log) (disk', log)
  | undone {x y : DiskManager × LogManager}
      (hopen : ∃ begin ∈ x.2.records, BeginsOwned transactionId start begin)
      (hmove : UndoMove (· = transactionId) x y) : RestartMove transactionId start x y

theorem Accounted.restart {tid start : Nat} (h : Accounted tid start x.1 x.2)
    (ho : Relation.ReflTransGen (RestartMove tid start) x y) : Accounted tid start y.1 y.2 := by
  induction ho with
  | refl => exact h
  | tail _ hm ih =>
    cases hm with
    | crashed hb hl hf => exact ih.reopen hb hl hf
    | redone hp hwr =>
      obtain ⟨hw, hc⟩ := within_writePhysicalPage ih.within hwr
      refine ih.resize hw ?_
      rw [hc]
      dsimp only
      omega
    | undone hopen hm => exact ih.move hopen hm

/-- The page has one reservation in the log; it is durable, and so is the BEGIN_OWNED
in front of it. -/
def ReservedOnce (transactionId start p : Nat) (log : LogManager) : Prop :=
  ∃ record ∈ log.records, Reserves transactionId p record ∧ log.IsDurable record.lsn ∧
    (∀ other ∈ log.records, Reserves transactionId p other → other = record) ∧
    ∃ begin ∈ log.records, BeginsOwned transactionId start begin ∧ begin.lsn < record.lsn ∧
      log.IsDurable begin.lsn

theorem Accounted.reservedOnce {tid start p : Nat} {disk : DiskManager}
    (h : Accounted tid start disk log) (hle : start ≤ p) (hlt : p < disk.pageCount) :
    ReservedOnce tid start p log := by
  obtain ⟨r, hr, hs, hd⟩ := h.reserved p hle hlt
  obtain ⟨hi, reserve, hp, _⟩ := id hs
  obtain ⟨begin, he, hg, hb⟩ := h.begun r hr hi (by simp [hp])
  refine ⟨r, hr, hs, hd, ?_, begin, he, hg, hb, ?_⟩
  · exact fun other ho hs' => h.single p other ho r hr hs' hs
  · obtain ⟨last, hl, hc⟩ := hd
    exact ⟨last, hl, hb.le.trans hc⟩

/-- A retained history that has the BEGIN_OWNED passes the provenance check. -/
theorem Accounted.provenance {tid start : Nat} {disk : DiskManager} {hist : List LogRecord}
    {begin : LogRecord} {txs : SortedMap OwnedRollbackAnalysis} {own : OwnedRollbackAnalysis}
    (h : Accounted tid start disk log) (hh : hist <:+ log.records) (hb : begin ∈ hist)
    (hg : BeginsOwned tid start begin) (hn : analyzeOwnedRollbackHistory hist = .ok txs)
    (ho : txs.find? tid = some own) : validateExtentProvenance own txs disk.pageCount = .ok () := by
  obtain ⟨hi, hp⟩ := hg
  subst hi
  have hm := hh.subset hb
  refine validateExtentProvenance_reserved hb hp hn ho ?_ ?_
  · exact fun r hr => h.alone begin hm ⟨rfl, hp⟩ r (hh.subset hr)
  · intro p hle hlt
    obtain ⟨r, hr, hrs, _⟩ := h.reserved p hle hlt
    have ha := h.first begin hm ⟨rfl, hp⟩ r hr hrs.1
    refine ⟨r, ?_, hrs, ha⟩
    -- a record behind BEGIN is in every suffix that has BEGIN
    obtain ⟨pre, hsp⟩ := hh
    have hs := h.sound.placed.sorted
    rw [← hsp] at hr hs
    rcases mem_append.mp hr with hf | hc
    · have := (pairwise_append.mp hs).2.2 r hf begin hb
      omega
    · exact hc

/-- At every crash point of every history of owned transactions, and through every
restart that follows, each page past the start of the unfinished transaction has one
durable reservation behind a durable BEGIN_OWNED, and the file passes the provenance
check of every history that recovery can analyse. No call that has grown the file
fails afterwards. -/
theorem physical_growth_accounted {initial m : CheckpointManager} {context : TransactionContext}
    {x y : DiskManager × LogManager} (hopened : initial.engine.Opened)
    (hids : initial.engine.nextTransactionId ≠ 0)
    (hsynced : initial.engine.disk.file.pending = []) (hhistory : WriteHistory initial m)
    (hpoint : CrashPoint m.engine context x) (hrestart : Relation.ReflTransGen
      (RestartMove context.transactionId context.startPageCount) x y) :
    (∀ p, context.startPageCount ≤ p → p < y.1.pageCount →
      ReservedOnce context.transactionId context.startPageCount p y.2) ∧
    (∀ history begin transactions owner, history <:+ y.2.records → begin ∈ history →
      BeginsOwned context.transactionId context.startPageCount begin →
      analyzeOwnedRollbackHistory history = .ok transactions →
      transactions.find? context.transactionId = some owner →
      validateExtentProvenance owner transactions y.1.pageCount = .ok ()) ∧
    ∀ victim extended, m.engine.appendNextPage victim = .ok extended →
      ∃ e, m.engine.newPageWrite victim = .ok e := by
  have haccounting := hhistory.accounting hopened hids hsynced
  have haccounted := (hpoint.accounted haccounting).restart hrestart
  refine ⟨fun p hle hlt => haccounted.reservedOnce hle hlt, ?_, fun _ _ happend =>
    newPageWrite_of_append haccounting.running.sound.ready happend⟩
  intro history begin transactions owner hsuffix hbegin hbegins hanalysis howner
  exact haccounted.provenance hsuffix hbegin hbegins hanalysis howner

/-- The file has two pages, and the log begins with the BEGIN_OWNED of transaction 1
and is a history that knows it. -/
def appendedOne (e : Engine) : Bool :=
  decide (e.disk.pageCount = 2) &&
    (e.log.records.head?.any fun begin =>
      decide (begin.transactionId = 1) && match begin.payload with
        | .beginOwned start => decide (start = 1)
        | _ => false) &&
    satisfies (analyzeOwnedRollbackHistory e.log.records) fun transactions =>
      transactions.contains 1

/-- The process dies when the first transaction of a new database has grown the file. -/
theorem physical_growth_accounted_appended : ∃ e extended transactions owner,
    (create 4 .fullPage).beginTransaction .ownedAppend = .ok e ∧
      e.appendNextPage none = .ok extended ∧ extended.disk.pageCount = 2 ∧
      ReservedOnce 1 1 1 extended.log ∧
      analyzeOwnedRollbackHistory extended.log.records = .ok transactions ∧
      transactions.find? 1 = some owner ∧
        validateExtentProvenance owner transactions 2 = .ok () := by
  have hrun : satisfies ((create 4 .fullPage).beginTransaction .ownedAppend) (fun e =>
      satisfies (e.appendNextPage none) appendedOne) = true := by
    decide +kernel
  simp only [satisfies_iff, appendedOne, Bool.and_eq_true, decide_eq_true_eq, Option.any_eq_true,
    contains_iff] at hrun
  obtain ⟨e, he, extended, happend, ⟨hcount, begin, hbegin, hauthor, hpayload⟩,
    transactions, hanalysis, owner, howner⟩ := hrun
  obtain ⟨context, hcontext, hid, _, hstart⟩ := beginTransaction_extent he
  have hbegins : BeginsOwned 1 1 begin := by
    refine ⟨hauthor, ?_⟩
    split at hpayload
    · rename_i start hstart
      rw [hstart, of_decide_eq_true hpayload]
    · cases hpayload
  have hgrowth := @physical_growth_accounted ⟨create 4 .fullPage, .absent, 1, 0, none⟩ _ context _ _
    (create_opened 4 .fullPage) (by decide) rfl
    (.returned (.begin .ownedAppend) .opened (by simp) he) (.appending hcontext happend) .refl
  rw [hid, hstart, hcount] at hgrowth
  exact ⟨e, extended, transactions, owner, he, happend, hcount, hgrowth.1 1 (by decide) (by decide),
    hanalysis, howner,
    hgrowth.2.1 _ begin _ _ (suffix_refl _) (mem_of_mem_head? hbegin) hbegins hanalysis howner⟩

end MiniDb
