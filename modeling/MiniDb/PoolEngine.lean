import MiniDb.FrameLsns
import MiniDb.FramePartition

/-!
The engine behind a pool of frames: the frames by the page they hold, with the
coordinator's log and transaction. Calls of the coordinator from the pool are the
engine's own when they return, and move only log and bookkeeping when they throw.
-/
namespace MiniDb
open ByteBlock Outcome Stateful Pool TransactionContext

variable {fr : BufferFrame} {c : Coordinator} {f q : Nat} {ext : Option Nat} {p : Pool}

def BufferFrame.toFrame (frame : BufferFrame) (writeGuarded : Bool) : Frame :=
  ⟨frame.data, frame.pinCount, writeGuarded, frame.dirty, frame.pageLsn, frame.recLsn,
    frame.walDependencyRetired, frame.pendingWalPreparation⟩

namespace Pool

def engineFrame (p : Pool) (f : Nat) : Frame :=
  ((p.frames[f]?).getD .free).toFrame (p.writeLocked f)

def engine (p : Pool) : Engine :=
  { p.coordinator with
    disk := p.disk
    frames := p.pageTable.mapValues p.engineFrame
    frameCount := p.frames.length }

/-- Page as a guard of the pool would see it. -/
def view (p : Pool) (q : Nat) : Page :=
  match (p.pageTable.find? q).bind fun f => p.frames[f]? with
  | some frame => frame.data
  | none => p.disk.page q

end Pool

theorem Partition.find_engine (h : Partition p ext) (hf : p.frames[f]? = some fr)
    (hv : fr.valid = true) :
    p.engine.frames.find? fr.pageId = some (fr.toFrame (p.writeLocked f)) := by
  have hm := h.find_page hf hv
  simp [Pool.engine, hm, Pool.engineFrame, hf]

theorem Partition.of_find_engine (h : Partition p ext) {e : Frame}
    (hf : p.engine.frames.find? q = some e) :
    ∃ (f : Nat) (fr : BufferFrame), p.frames[f]? = some fr ∧ fr.valid = true ∧ fr.pageId = q ∧
      e = fr.toFrame (p.writeLocked f) := by
  simp only [Pool.engine, SortedMap.find?_mapValues, Option.map_eq_some_iff] at hf
  obtain ⟨f, hm, rfl⟩ := hf
  obtain ⟨fr, hr, hv, hp⟩ := (h.mapped q f).mp hm
  exact ⟨f, fr, hr, hv, hp, by simp [Pool.engineFrame, hr]⟩

theorem Partition.view_engine (h : Partition p ext) (q : Nat) : p.engine.view q = p.view q := by
  simp only [Engine.view, Pool.view, Pool.engine, SortedMap.find?_mapValues]
  cases hm : p.pageTable.find? q with
  | none => simp
  | some f =>
    obtain ⟨fr, hf, _⟩ := (h.mapped q f).mp hm
    simp [Pool.engineFrame, hf, BufferFrame.toFrame]

theorem Partition.view_resident (h : Partition p ext) (hf : p.frames[f]? = some fr)
    (hv : fr.valid = true) : p.view fr.pageId = fr.data := by
  have hm := h.find_page hf hv
  simp [Pool.view, hm, hf]

/-- Two engines that agree on the frame of every page, and on all else. -/
theorem engine_ext {e e' : Engine} (hd : e.disk = e'.disk) (hl : e.log = e'.log)
    (hf : ∀ q, e.frames.find? q = e'.frames.find? q) (hc : e.frameCount = e'.frameCount)
    (ht : e.context = e'.context) (hn : e.nextTransactionId = e'.nextTransactionId)
    (hm : e.updateMode = e'.updateMode) (hr : e.rollbackActive = e'.rollbackActive)
    (ha : e.allocatorSystemOperation = e'.allocatorSystemOperation) : e = e' := by
  cases e
  cases e'
  simp only at hd hl hf hc ht hn hm hr ha
  subst hd hl hc ht hn hm hr ha
  rw [SortedMap.ext_find hf]

/-- The frames of an engine over another disk and coordinator. -/
abbrev Engine.over (e : Engine) (disk : DiskManager) (c : Coordinator) : Engine :=
  { c with disk, frames := e.frames, frameCount := e.frameCount }

/-- A change of one frame that keeps its page is one of the engine's frame. -/
theorem Partition.engine_setFrame {p' : Pool} (h : Partition p ext) {fr' : BufferFrame}
    (hr : p.frames[f]? = some fr) (hv : fr.valid = true) (hf : p'.frames = p.frames.set f fr')
    (ht : p'.pageTable = p.pageTable) (hl : ∀ g, g ≠ f → p'.writeLocked g = p.writeLocked g) :
    p'.engine = (p.engine.over p'.disk p'.coordinator).setFrame fr.pageId
      (fr'.toFrame (p'.writeLocked f)) := by
  have hlt := lt_of_getElem? hr
  refine engine_ext rfl rfl ?_ ?_ rfl rfl rfl rfl rfl
  · intro q
    rw [find?_setFrame]
    simp only [Pool.engine, SortedMap.find?_mapValues, ht]
    have hm := h.find_page hr hv
    split
    · rename_i hq
      subst hq
      simp [hm, Pool.engineFrame, hf, List.getElem?_set_self hlt]
    · rename_i hq
      cases hn : p.pageTable.find? q with
      | none => rfl
      | some g =>
        have hg : g ≠ f := by
          rintro rfl
          exact hq (h.page_of_find hr hn).2.symm
        simp only [Option.map_some, Pool.engineFrame, hf,
          List.getElem?_set_ne (Ne.symm hg), hl g hg]
  · show p'.frames.length = p.frames.length
    rw [hf, List.length_set]

/-! The coordinator's calls. -/

/-- A call of the coordinator that threw, or that only wrote to the log. -/
structure Stalled (c c' : Coordinator) : Prop where
  only : c' = { c with context := c'.context, log := c'.log }
  log : LogGrows c.log c'.log
  writer : WriterKept c.context c'.context

theorem Stalled.refl (c : Coordinator) : Stalled c c := ⟨rfl, .refl, .refl _⟩

theorem Stalled.trans {a b : Coordinator} (ha : Stalled a b) (hb : Stalled b c) : Stalled a c := by
  refine ⟨?_, ha.log.trans hb.log, ha.writer.trans hb.writer⟩
  rw [hb.only, ha.only]

variable {ctx : TransactionContext}

theorem Stalled.context {c' : Coordinator} {ctx' : TransactionContext} (ht : c.context = some ctx)
    (hc : c' = { c with context := some ctx', log := c'.log }) (hl : LogGrows c.log c'.log)
    (hs : ctx'.startPageCount = ctx.startPageCount)
    (hp : SameIntents ctx.pages ctx'.pages) : Stalled c c' := by
  refine ⟨?_, hl, .inr ⟨ctx, ctx', ht, ?_, hs, hp⟩⟩
  · rw [hc]
  · rw [hc]

theorem ensureBeginLogged_ensures :
    Ensures (Coordinator.ensureBeginLogged ctx) c
      (fun ctx' c' => ∃ log, ctx.ensureBeginLogged c.log = .ok (ctx', log) ∧
        c' = { c with context := some ctx', log := log }) (fun _ c' => c' = c) := by
  simp only [Coordinator.ensureBeginLogged, Coordinator.setRecord, ensures_iff]
  exact ⟨fun res hr => ⟨res.2, hr, rfl⟩, fun _ _ => trivial⟩

theorem appendTransactionRecord_ensures {pl : LogPayload} (hc : c.context = some ctx) :
    Ensures (Coordinator.appendTransactionRecord ctx pl) c
      (fun res c' => ∃ log, ctx.appendTransactionRecord c.log pl =
          .ok (res.1, log, res.2) ∧ c' = { c with context := some res.1, log := log })
      (fun _ c' => Stalled c c') := by
  simp only [Coordinator.appendTransactionRecord, ensures_bind]
  refine ensureBeginLogged_ensures.imp ?_ (fun _ _ h => h ▸ .refl c)
  rintro begun _ ⟨log, hb, rfl⟩
  obtain ⟨⟨⟨_, _, hs⟩, hp⟩, _⟩ := ensureBeginLogged_keeps hb
  simp only [Coordinator.setRecord, ensures_iff]
  refine ⟨?_, ?_⟩
  · rintro ⟨log', lsn⟩ ha
    refine ⟨log', ?_, rfl⟩
    exact bind_ok.mpr ⟨_, hb, bind_ok.mpr ⟨_, ha, rfl⟩⟩
  · intro error _
    exact .context hc rfl (ensureBeginLogged_grows hb) hs (hp ▸ .refl _)

theorem notePageWriteIntent_ensures {bef : Page} :
    Ensures (Coordinator.notePageWriteIntent q bef) c
      (fun _ c' => ∃ ctx ctx', c.context = some ctx ∧ ctx.notePageWriteIntent q bef = .ok ctx' ∧
        c' = { c with context := some ctx' }) (fun _ c' => Stalled c c') := by
  simp only [Coordinator.notePageWriteIntent, ensures_iff]
  cases ht : c.context with
  | none => exact .refl c
  | some ctx =>
    simp only
    by_cases hi : q = invalidPageId
    · rw [if_pos hi]
      exact .refl c
    rw [if_neg hi]
    simp only [Coordinator.setContext, ensures_iff]
    have hn : ∀ {res : Result TransactionContext} {ctx' : TransactionContext},
        res = .ok ctx' → (if ctx.pages.contains q = true then
          .ok ({ ctx with safeBoundary := false } : TransactionContext)
        else ({ ctx with safeBoundary := false } : TransactionContext).setPage q <$>
          intentState ctx.startPageCount q bef) = res →
        ctx.notePageWriteIntent q bef = .ok ctx' := by
      intro res ctx' ho hr
      exact bind_ok.mpr ⟨(), require_of _ hi, hr.trans ho⟩
    split
    · rename_i hc
      refine ⟨ctx, _, rfl, hn rfl (if_pos hc), rfl⟩
    · rename_i hc
      simp only [ensures_iff]
      refine ⟨?_, ?_⟩
      · intro s hs
        refine ⟨ctx, _, rfl, hn rfl ?_, rfl⟩
        rw [if_neg hc]
        exact map_ok.mpr ⟨s, hs, rfl⟩
      · intro _ _
        exact .context ht rfl .refl rfl (.refl _)

/-- What a reservation needs to be confirmed once its page is there. -/
def Reserved (c : Coordinator) (q : Nat) : Prop :=
  ∃ context lsn, c.context = some context ∧ context.startPageCount ≤ q ∧
    context.reservations.find? q = some ⟨lsn, false⟩ ∧ c.log.IsDurable lsn

theorem reservePage_ensures (hc : c.context = some ctx) :
    Ensures (Coordinator.reservePage ctx q) c
      (fun lsn c' => Stalled c c' ∧ ∃ ctx', c'.context = some ctx' ∧
        ctx'.startPageCount = ctx.startPageCount ∧ ctx'.reservations.find? q = some ⟨lsn, false⟩)
      (fun _ c' => Stalled c c') := by
  unfold Coordinator.reservePage
  split
  · simp only [ensures_iff]
    refine ⟨?_, fun _ _ => .refl c⟩
    intro _ _
    refine (appendTransactionRecord_ensures hc).imp ?_ (fun _ _ h => h)
    rintro ⟨app, lsn⟩ _ ⟨log, ha, rfl⟩
    obtain ⟨⟨⟨_, _, hs⟩, hp⟩, _⟩ := appendTransactionRecord_keeps ha
    simp only [Coordinator.setContext, ensures_iff]
    refine ⟨.context hc rfl (appendTransactionRecord_grows ha) hs
      ?_, _, rfl, hs, by simp [setReservation]⟩
    show SameIntents ctx.pages app.pages
    rw [show app.pages = ctx.pages from hp]
    exact .refl _
  · rename_i rsv hr
    simp only [ensures_iff]
    refine ⟨?_, fun _ _ => .refl c⟩
    intro _ hf
    refine ⟨.refl c, ctx, hc, rfl, ?_⟩
    rw [hr, ← require_ok.mp hf]

theorem prepareForPhysicalPageAppend_ensures (hs : LogSound c.log) :
    Ensures (Coordinator.prepareForPhysicalPageAppend q) c
      (fun _ c' => Stalled c c' ∧ Reserved c' q ∧ q ≠ invalidPageId ∧ q ≠ 0)
      (fun _ c' => Stalled c c') := by
  simp only [Coordinator.prepareForPhysicalPageAppend, ensures_iff]
  split
  · rename_i ctx hc hid
    simp only [ensures_iff, Coordinator.setContext]
    refine ⟨?_, fun _ _ => .refl c⟩
    intro _ hlg
    obtain ⟨hi, hz, ht⟩ := require_ok.mp hlg
    refine ensureBeginLogged_ensures.imp ?_ ?_
    · rintro begun _ ⟨log, hb, rfl⟩
      obtain ⟨⟨⟨_, _, ht'⟩, hp⟩, _⟩ := ensureBeginLogged_keeps hb
      have hg : Stalled c { c with context := some begun, log := log } :=
        .context hc rfl (ensureBeginLogged_grows hb) ht' (hp ▸ .refl _)
      refine (reservePage_ensures rfl).imp ?_ (fun _ _ h => hg.trans h)
      rintro lsn c' ⟨hv, ctx', hc', ht'', hrs⟩
      have hl := hg.trans hv
      refine ⟨?_, fun _ _ => hl⟩
      intro frc he
      obtain ⟨hd, hcs⟩ := ensureDurable_ok (hl.log.sound hs) he
      have hr : LogGrows c'.log frc := by
        rcases hcs with rfl | hf
        · exact .refl
        · exact .single (.flush hf)
      refine ⟨hl.trans ⟨rfl, hr, .refl _⟩, ⟨ctx', lsn, hc', ?_, hrs, hd⟩, hi, hz⟩
      rw [ht'', ht']
      exact ht
    · rintro _ _ rfl
      exact .context hc rfl .refl rfl (.refl _)
  · exact .refl c

theorem notePhysicalPageAppend_run (h : Reserved c q) :
    ∃ ctx confirmed, c.context = some ctx ∧ ctx.startPageCount ≤ q ∧
      ctx.notePhysicalPageAppend c.log q = .ok confirmed ∧
      Coordinator.notePhysicalPageAppend q c = .ok () { c with context := some confirmed } := by
  obtain ⟨ctx, lsn, hc, hs, hr, hd⟩ := h
  have hn : ctx.notePhysicalPageAppend c.log q = .ok (ctx.setReservation q ⟨lsn, true⟩) := by
    unfold notePhysicalPageAppend
    rw [hr]
    exact bind_ok.mpr ⟨(), require_of _ ⟨rfl, hd⟩, rfl⟩
  refine ⟨ctx, _, hc, hs, hn, ?_⟩
  simp only [Coordinator.notePhysicalPageAppend, run_eq, hc, hn, fromExcept]
  rfl

/-- The log does not see the write intents. -/
theorem appendTransactionRecord_setPage {app : TransactionContext} {lsn : Nat}
    {s : PageState} {log log' : LogManager} {pl : LogPayload}
    (h : (ctx.setPage q s).appendTransactionRecord log pl = .ok (app, log', lsn)) :
    ∃ plain, ctx.appendTransactionRecord log pl = .ok (plain, log', lsn) ∧
      app = plain.setPage q s := by
  obtain ⟨begun, mid, hb, ha, rfl⟩ :=
    appendTransactionRecord_ok h
  rcases ensureBeginLogged_ok hb with
    ⟨hg, rfl, rfl⟩ | ⟨hn, rfl, hf⟩
  · refine ⟨{ ctx with lastLsn := some lsn }, bind_ok.mpr ⟨(ctx, mid), ?_,
      bind_ok.mpr ⟨(log', lsn), ha, rfl⟩⟩, rfl⟩
    have hg : ctx.beginLsn.isSome := hg
    simp only [ensureBeginLogged, hg, if_true]
    rfl
  · refine ⟨{ ctx.begun log.nextLsn with lastLsn := some lsn }, bind_ok.mpr
      ⟨(ctx.begun log.nextLsn, mid), ?_, bind_ok.mpr ⟨(log', lsn), ha, rfl⟩⟩, rfl⟩
    have hn : ctx.beginLsn = none := hn
    simp only [ensureBeginLogged, hn, Option.isSome_none, Bool.false_eq_true, if_false]
    exact bind_ok.mpr ⟨_, hf, rfl⟩

theorem touch_same (s : PageState) (cmp aft : Page) :
    SameIntent s (s.touch cmp aft) := ⟨rfl, rfl, rfl, rfl⟩

theorem preparePageForWrite_ensures (hct : c.context = some ctx) (formatVersion q : Nat)
    (aft : Page) :
    Ensures (Coordinator.preparePageForWrite formatVersion q aft) c (fun res c' => ∃ prep,
        ctx.preparePageForWrite c.log c.updateMode formatVersion q aft = .ok prep ∧
        res = (prep.page, prep.lsn) ∧ c' = { c with context := some prep.context, log := prep.log })
      (fun _ c' => Stalled c c') := by
  simp only [Coordinator.preparePageForWrite, ensures_iff, hct, preparePageForWrite]
  cases hst : ctx.pages.find? q with
  | none => exact ⟨_, rfl, rfl, by rw [← hct]⟩
  | some s =>
    simp only [ensures_iff]
    refine ⟨?_, fun _ _ => .refl c⟩
    rintro ⟨supports, na⟩ ha
    refine ⟨?_, fun _ _ => .refl c⟩
    rintro ⟨_, nb⟩ hb
    simp only [ha, hb, ok_bind]
    by_cases hs : s.latestAfter.getD nb = na
    · rw [if_pos hs, if_pos hs]
      simp only [ensures_iff]
      refine ⟨?_, fun _ _ => .refl c⟩
      intro pg hp
      refine ⟨⟨ctx, c.log, pg, s.latestLsn⟩, map_ok.mpr ⟨pg, hp, rfl⟩, rfl, ?_⟩
      rw [← hct]
    · rw [if_neg hs, if_neg hs]
      have ht : Stalled c { c with context := some (ctx.setPage q
          (s.touch (s.latestAfter.getD nb) na)) } :=
        .context hct rfl .refl rfl (.insert hst (touch_same s _ _))
      simp only [Coordinator.logPageUpdate, ensures_iff, Coordinator.setContext]
      refine (appendTransactionRecord_ensures rfl).imp ?_ ?_
      · rintro ⟨app, lsn⟩ _ ⟨log, hap, rfl⟩
        obtain ⟨plain, hpl, rfl⟩ := appendTransactionRecord_setPage hap
        obtain ⟨pg, hp⟩ : ∃ pg, writeLsnIfSupported
            (isPageLsnAware formatVersion q supports na) aft lsn = .ok pg := by
          unfold writeLsnIfSupported
          split
          · rename_i hw
            obtain ⟨_, hr⟩ := clearIfSupported_ok.mp ha
            have hsp : supports = (pageLsnSlot aft).isSome := congrArg Prod.fst hr
            refine ⟨_, writePersistentPageLsn_ok.mpr ⟨hsp ▸ isPageLsnAware_slot hw, ?_, rfl⟩⟩
            obtain ⟨_, _, _, hls, _⟩ := appendTransactionRecord_ok hpl
            obtain ⟨rfl, _, hf, _⟩ := append_ok hls
            have hl := hf.2
            simp only [walHeaderSize] at hl
            omega
          · exact ⟨aft, rfl⟩
        simp only
        refine ⟨?_, ?_⟩
        · intro pg' hp'
          refine ⟨_, bind_ok.mpr ⟨_, hpl, bind_ok.mpr ⟨_, hp', rfl⟩⟩, rfl, ?_⟩
          simp [setPage]
        · intro error he
          rw [hp] at he
          simp at he
      · intro error c' hc'
        exact ht.trans hc'

end MiniDb
