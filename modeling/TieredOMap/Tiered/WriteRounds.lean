import TieredOMap.Omap.StepLaws
import TieredOMap.Tiered.DataRounds
import TieredOMap.Tiered.Serves

/-!
# The rounds of an interleaved write

Until the searcher has answered it keeps searching, whatever the rounds do for
the dummy side, the scan and the piggybacked operations; then the data operation
reads the block of its answer, and the result is the value written into it.
-/

namespace TieredOmap

namespace TieredOMap

variable {Ω : Tier → Type} {s : TieredOMap Ω}

theorem other_ne (tier : Tier) : tier.other ≠ tier := by
  cases tier <;> decide

theorem omap_setOmap_other {tier tier' : Tier} (differs : tier' ≠ tier) (omap : Ω tier) :
    (s.setOmap tier omap).omap tier' = s.omap tier' := by
  cases tier <;> cases tier' <;> first | rfl | exact absurd rfl differs

end TieredOMap

namespace Rounds

open TieredOMap

variable {Ω : Tier → Type}

/--
An interleaved write between two steps of a round. Until its searcher has
answered the searcher's map satisfies `holds`; its data operation then reads the
block of `ref`, and once the block has been rewritten the result is the written
value.
-/
structure Answering (holds : ∀ tier, Ω tier → Prop) (ref value : Bytes) (r : Rounds Ω) : Prop where
  searching : r.decisionTriggered = false → r.searcherDone = false →
    holds r.searcher (r.s.omap r.searcher)
  found : r.data.st = .needRead → r.data.blk = refToBlk ref
  answered : r.data.st = .needWrite ∨ r.data.st = .done → r.result.value = value
  decided : r.decisionPending = true → r.decisionTriggered = true

variable {holds holds' : ∀ tier, Ω tier → Prop} {ref value : Bytes} {r r' : Rounds Ω}

/-- A step of the maps and of the data ORAM leaves the rest as it is. -/
theorem Answering.withState (answering : r.Answering holds ref value) {s : TieredOMap Ω}
    (searching : r.decisionTriggered = false → r.searcherDone = false →
      holds' r.searcher (s.omap r.searcher)) :
    ({ r with s := s } : Rounds Ω).Answering holds' ref value :=
  ⟨searching, answering.found, answering.answered, answering.decided⟩

/-- An operation on the other map. -/
theorem Answering.setOther (answering : r.Answering holds ref value) {tier : Tier}
    (differs : r.searcher ≠ tier) (omap : Ω tier) :
    ({ r with s := r.s.setOmap tier omap } : Rounds Ω).Answering holds ref value := by
  refine answering.withState (fun undecided unfinished => ?_)
  rw [omap_setOmap_other differs]
  exact answering.searching undecided unfinished

/-- A pure operation on the other map. -/
theorem Answering.modifyOther (answering : r.Answering holds ref value) {tier : Tier}
    (differs : r.searcher ≠ tier) (f : Ω tier → Ω tier) :
    (r.modifyOmap tier f).Answering holds ref value :=
  answering.setOther differs _

/-- An operation on the searcher's map, given what it does to its search. -/
theorem Answering.yields_onSearcher {Result : Type} (answering : r.Answering holds ref value)
    {operation : Ω r.searcher → Rand Result} {f : Result → Ω r.searcher}
    {P : Result → ∀ tier, Ω tier → Prop}
    (survives : ∀ omap, holds r.searcher omap →
      Yields (operation omap) (fun outcome => P outcome r.searcher (f outcome))) :
    Yields (operation (r.s.omap r.searcher)) (fun outcome =>
      ({ r with s := r.s.setOmap r.searcher (f outcome) } : Rounds Ω).Answering
        (P outcome) ref value) := by
  by_cases searching : r.decisionTriggered = false ∧ r.searcherDone = false
  · refine (survives _ (answering.searching searching.1 searching.2)).mono ?_
    intro outcome searched
    refine answering.withState (fun _ _ => ?_)
    rw [omap_setOmap]
    exact searched
  · refine (yields_any _).mono ?_
    intro outcome _
    exact answering.withState (fun undecided unfinished =>
      absurd ⟨undecided, unfinished⟩ searching)

/-- An operation on either map that the searcher's search survives. -/
theorem Answering.yields_onOmap (answering : r.Answering holds ref value) (tier : Tier)
    {operation : Ω tier → Rand (Ω tier)}
    (survives : ∀ omap, holds tier omap → Yields (operation omap) (holds tier)) :
    Yields (r.onOmap tier operation) (fun r' => (∃ s, r' = { r with s := s }) ∧
      r'.Answering holds ref value) := by
  refine Prog.ends_bind (Q := fun s => ({ r with s := s } : Rounds Ω).Answering holds ref value)
    ?_ (fun s after => Prog.ends_pure ⟨⟨s, rfl⟩, after⟩)
  by_cases here : tier = r.searcher
  · subst here
    refine Prog.ends_bind (answering.yields_onSearcher (f := id) (P := fun _ => holds)
      survives) ?_
    intro omap after
    exact Prog.ends_pure after
  · refine Prog.ends_bind (yields_any _) ?_
    intro omap _
    exact Prog.ends_pure (answering.setOther (fun same => here same.symm) omap)

/-- A pure operation on either map that the searcher's search survives. -/
theorem Answering.modifyOmap (answering : r.Answering holds ref value) (tier : Tier)
    {f : Ω tier → Ω tier} (survives : ∀ omap, holds tier omap → holds tier (f omap)) :
    (r.modifyOmap tier f).Answering holds ref value := by
  by_cases here : tier = r.searcher
  · subst here
    refine answering.withState (fun undecided unfinished => ?_)
    rw [omap_setOmap]
    exact survives _ (answering.searching undecided unfinished)
  · exact answering.setOther (fun same => here same.symm) _

variable [∀ tier, OmapInterface (Ω tier)] [∀ tier, LawfulOmap (Ω tier)]
  [∀ tier, LawfulSteps (Ω tier)]

/-- The searcher is searching, and the answer is `ref`. -/
def Seeking (phase : StepPhase) (ref : Bytes) (tier : Tier) (omap : Ω tier) : Prop :=
  LawfulSteps.Seeks phase omap ref

/-- The phase of the searcher in the middle of a round, if it takes part. -/
def phaseWhen (active : Bool) (phase : StepPhase) : StepPhase := if active then phase else .resting

/-! ### Reading -/

/-- The searcher has asked for its reads. -/
def Asking (phase : StepPhase) (ref : Bytes) (reads : List StepReadReq) (tier : Tier)
    (omap : Ω tier) : Prop :=
  Seeking phase ref tier (if reads.isEmpty then omap
    else OmapInterface.stepApplyReads omap (reads.map (OmapInterface.readStore omap)))

theorem Answering.yields_nextRound (answering : r.Answering (Seeking .resting ref) ref value)
    (active : Bool) :
    Yields (r.nextRound r.searcher active) (fun outcome => (∃ s, outcome.2 = { r with s := s }) ∧
      outcome.2.Answering (Asking (phaseWhen active .fetched) ref outcome.1) ref value) := by
  unfold nextRound
  cases active with
  | true =>
      refine Prog.ends_bind (answering.yields_onSearcher (f := Prod.snd)
        (P := fun outcome => Asking .fetched ref outcome.1)
        (fun omap => LawfulSteps.seeks_fetch omap ref)) ?_
      rintro ⟨reads, omap⟩ asked
      exact Prog.ends_pure ⟨⟨_, rfl⟩, asked⟩
  | false => exact Prog.ends_pure ⟨⟨r.s, rfl⟩, answering⟩

theorem Answering.applyReads {phase : StepPhase} {reads : List StepReadReq}
    (answering : r.Answering (Asking phase ref reads) ref value) :
    (r.applyReads r.searcher reads).Answering (Seeking phase ref) ref value := by
  unfold Rounds.applyReads
  split
  · rename_i empty
    refine answering.withState (s := r.s) (fun undecided unfinished => ?_)
    have asked := answering.searching undecided unfinished
    rw [Asking, if_pos empty] at asked
    exact asked
  · rename_i notEmpty
    refine answering.withState (fun undecided unfinished => ?_)
    have asked := answering.searching undecided unfinished
    rw [Asking, if_neg notEmpty] at asked
    rw [omap_setOmap]
    exact asked

omit [∀ tier, LawfulOmap (Ω tier)] [∀ tier, LawfulSteps (Ω tier)] in
@[simp]
theorem searcher_applyReads (r : Rounds Ω) (tier : Tier) (reads : List StepReadReq) :
    (r.applyReads tier reads).searcher = r.searcher := by
  unfold Rounds.applyReads
  split <;> rfl

omit [∀ tier, LawfulOmap (Ω tier)] [∀ tier, LawfulSteps (Ω tier)] in
@[simp]
theorem data_applyReads (r : Rounds Ω) (tier : Tier) (reads : List StepReadReq) :
    (r.applyReads tier reads).data = r.data := by
  unfold Rounds.applyReads
  split <;> rfl

omit [∀ tier, LawfulOmap (Ω tier)] [∀ tier, LawfulSteps (Ω tier)] in
theorem Answering.applyOther (answering : r.Answering holds ref value) {tier : Tier}
    (differs : r.searcher ≠ tier) (reads : List StepReadReq) :
    (r.applyReads tier reads).Answering holds ref value := by
  unfold Rounds.applyReads
  split
  · exact answering
  · exact answering.setOther differs _

omit [∀ tier, OmapInterface (Ω tier)] [∀ tier, LawfulOmap (Ω tier)]
  [∀ tier, LawfulSteps (Ω tier)] in
theorem Answering.applyData [Cipher] (answering : r.Answering holds ref value) (op : DataOp)
    (reading : Bool) (server : BinaryTreeStorage) :
    (r.applyData op reading server).Answering holds ref value ∧
      (r.applyData op reading server).data = r.data := by
  unfold Rounds.applyData
  split
  · exact ⟨answering.withState answering.searching, rfl⟩
  · exact ⟨answering, rfl⟩

omit [∀ tier, OmapInterface (Ω tier)] [∀ tier, LawfulOmap (Ω tier)]
  [∀ tier, LawfulSteps (Ω tier)] in
/-- The fetched data paths go to the stash. -/
theorem Answering.applyPaths [Cipher] (answering : r.Answering holds ref value) (p : RoundPlan) :
    (((r.applyData r.data p.dataRead r.s.dataOram.storage).applyData r.ddummy p.dummyRead
      r.s.dataOram.storage).applyData r.scanData p.scanRead r.s.dataOram.storage).Answering
        holds ref value ∧
    (((r.applyData r.data p.dataRead r.s.dataOram.storage).applyData r.ddummy p.dummyRead
      r.s.dataOram.storage).applyData r.scanData p.scanRead r.s.dataOram.storage).data =
        r.data := by
  rcases answering.applyData r.data p.dataRead r.s.dataOram.storage with ⟨first, firstData⟩
  rcases first.applyData r.ddummy p.dummyRead r.s.dataOram.storage with ⟨second, secondData⟩
  rcases second.applyData r.scanData p.scanRead r.s.dataOram.storage with ⟨third, thirdData⟩
  exact ⟨third, thirdData.trans (secondData.trans firstData)⟩

theorem Answering.yields_fetch [Cipher] (answering : r.Answering (Seeking .resting ref) ref value)
    (p : RoundPlan) :
    Yields (r.fetch p) (fun r' => r'.data = r.data ∧
      r'.Answering (Seeking (phaseWhen p.searcherActive .fetched) ref) ref value) := by
  unfold fetch
  refine Prog.ends_bind (answering.yields_nextRound p.searcherActive) ?_
  rintro ⟨searcherReads, _⟩ ⟨⟨s, rfl⟩, asked⟩
  have dummied : Yields (({ r with s := s } : Rounds Ω).nextRound r.dummy p.dummyActive)
      (fun outcome => (∃ s', outcome.2 = { r with s := s' }) ∧ outcome.2.Answering
        (Asking (phaseWhen p.searcherActive .fetched) ref searcherReads) ref value) := by
    unfold nextRound
    split
    · refine Prog.ends_bind (yields_any _) ?_
      rintro ⟨reads, omap⟩ _
      exact Prog.ends_pure ⟨⟨_, rfl⟩, asked.setOther (fun same => other_ne r.searcher same.symm) omap⟩
    · exact Prog.ends_pure ⟨⟨s, rfl⟩, asked⟩
  refine Prog.ends_bind dummied ?_
  rintro ⟨dummyReads, _⟩ ⟨⟨s', rfl⟩, asked'⟩
  refine Prog.ends_bind (yields_any _) ?_
  intro _ _
  have searched := asked'.applyReads
  have answered : ((({ r with s := s' } : Rounds Ω).applyReads r.searcher searcherReads).applyReads
      r.dummy dummyReads).Answering (Seeking (phaseWhen p.searcherActive .fetched) ref) ref value :=
    searched.applyOther (by
      rw [searcher_applyReads]
      exact fun same => other_ne r.searcher same.symm) dummyReads
  have dataEq : ((({ r with s := s' } : Rounds Ω).applyReads r.searcher searcherReads).applyReads
      r.dummy dummyReads).data = r.data := by
    rw [data_applyReads, data_applyReads]
  rcases answered.applyPaths p with ⟨arrived, arrivedData⟩
  exact Prog.ends_pure ⟨arrivedData.trans dataEq, arrived⟩

theorem Answering.yields_process {p : RoundPlan}
    (answering : r.Answering (Seeking (phaseWhen p.searcherActive .fetched) ref) ref value) :
    Yields (r.process p) (fun r' => r'.data = r.data ∧
      r'.Answering (Seeking (phaseWhen p.searcherActive .processed) ref) ref value) := by
  have searched : Yields (doWhen p.searcherActive (r.onOmap r.searcher OmapInterface.stepProcess) r)
      (fun r' => (∃ s, r' = { r with s := s }) ∧
        r'.Answering (Seeking (phaseWhen p.searcherActive .processed) ref) ref value) := by
    cases active : p.searcherActive with
    | true =>
        rw [active] at answering
        refine Prog.ends_bind (Q := fun s => ({ r with s := s } : Rounds Ω).Answering
          (Seeking .processed ref) ref value) ?_ (fun s after => Prog.ends_pure ⟨⟨s, rfl⟩, after⟩)
        refine Prog.ends_bind (answering.yields_onSearcher (f := id)
          (P := fun _ => Seeking .processed ref)
          (fun omap => LawfulSteps.seeks_process omap ref)) ?_
        intro omap after
        exact Prog.ends_pure after
    | false =>
        rw [active] at answering
        exact Prog.ends_pure ⟨⟨r.s, rfl⟩, answering⟩
  refine Prog.ends_bind searched ?_
  rintro _ ⟨⟨s, rfl⟩, searching⟩
  refine yields_doWhen (fun _ => ?_) (fun _ => ⟨rfl, searching⟩)
  refine Prog.ends_bind (Q := fun s' => ({ r with s := s' } : Rounds Ω).Answering
    (Seeking (phaseWhen p.searcherActive .processed) ref) ref value) ?_
    (fun s' after => Prog.ends_pure ⟨rfl, after⟩)
  refine Prog.ends_bind (yields_any _) ?_
  intro omap _
  exact Prog.ends_pure (searching.setOther (fun same => other_ne r.searcher same.symm) omap)

/-! ### The block of the query -/

variable {q : Query} {phase : StepPhase}

omit [∀ tier, OmapInterface (Ω tier)] [∀ tier, LawfulOmap (Ω tier)]
  [∀ tier, LawfulSteps (Ω tier)] in
/-- Rewriting the block computes the answer, which is the written value. -/
theorem Answering.yields_rewriteBlock (answering : r.Answering holds ref value)
    (writes : q.newValue = some value) :
    Yields (r.rewriteBlock q) (fun r' => r'.Answering holds ref value ∧
      r'.result.value = value) := by
  refine Prog.ends_bind (yields_any _) ?_
  rintro ⟨block, dataOram⟩ _
  refine Prog.ends_pure ?_
  dsimp only
  rw [writes, Option.getD_some]
  refine ⟨⟨fun undecided unfinished => ?_, answering.found, fun _ => rfl, answering.decided⟩, rfl⟩
  have searching := answering.searching undecided unfinished
  dsimp only
  split <;> exact searching

omit [∀ tier, LawfulOmap (Ω tier)] [∀ tier, LawfulSteps (Ω tier)] in
/-- A decision is only taken once the searcher has answered. -/
theorem Answering.yields_decidePromotion (answering : r.Answering holds ref value)
    (pending : r.decisionPending = true) :
    Yields r.decidePromotion (fun r' => r'.Answering holds ref value) := by
  have triggered := answering.decided pending
  refine Prog.ends_bind (Q := fun r' => ∃ s, r' = { r with s := s }) ?_ ?_
  · refine Prog.ends_bind (yields_any _) ?_
    intro s _
    exact Prog.ends_pure ⟨s, rfl⟩
  · rintro _ ⟨s, rfl⟩
    refine Prog.ends_pure ⟨fun undecided => ?_, answering.found, answering.answered, fun isPending => ?_⟩
    · exact absurd (undecided.symm.trans triggered) (by decide)
    · cases isPending

omit [∀ tier, LawfulOmap (Ω tier)] [∀ tier, LawfulSteps (Ω tier)] in
/-- Once the query's block has arrived, the answer is the written value. -/
theorem Answering.yields_finishDataRead {p : RoundPlan} (answering : r.Answering holds ref value)
    (writes : q.newValue = some value) (found : refToBlk ref ≠ invalidBlock)
    (reading : p.dataRead = true → r.data.st = .needRead) :
    Yields (r.finishDataRead q p) (fun r' => r'.Answering holds ref value) := by
  unfold finishDataRead
  split
  · rename_i due
    have blkEq := answering.found (reading due)
    have rewritten : Yields (doWhen (r.data.blk != invalidBlock) (r.rewriteBlock q) r)
        (fun r' => r'.Answering holds ref value ∧ r'.result.value = value) := by
      have isBlock : (r.data.blk != invalidBlock) = true := by
        rw [blkEq]
        exact bne_iff_ne.mpr found
      rw [isBlock]
      exact answering.yields_rewriteBlock writes
    refine Prog.ends_bind rewritten ?_
    rintro r' ⟨answering', valueEq⟩
    have written : ({ r' with data := { r'.data with st := .needWrite } } : Rounds Ω).Answering
        holds ref value :=
      ⟨answering'.searching, fun isRead => by (cases isRead), fun _ => valueEq, answering'.decided⟩
    exact yields_doWhen (fun pending => written.yields_decidePromotion pending) (fun _ => written)
  · exact Prog.ends_pure answering

/-! ### The other reads -/

omit [∀ tier, OmapInterface (Ω tier)] [∀ tier, LawfulOmap (Ω tier)]
  [∀ tier, LawfulSteps (Ω tier)] in
theorem Answering.finishDummyRead (answering : r.Answering holds ref value) (p : RoundPlan) :
    (r.finishDummyRead p).Answering holds ref value := by
  unfold Rounds.finishDummyRead
  split
  · exact ⟨answering.searching, answering.found, answering.answered, answering.decided⟩
  · exact answering

theorem Answering.yields_finishScanRead (answering : r.Answering (Seeking phase ref) ref value)
    (p : RoundPlan) :
    Yields (r.finishScanRead q p) (fun r' => r'.Answering (Seeking phase ref) ref value) := by
  unfold finishScanRead
  split
  · have demoted : Yields (doWhen (r.scanData.blk != invalidBlock) (r.decideDemotion q) r)
        (fun r' => r'.Answering (Seeking phase ref) ref value) := by
      refine yields_doWhen (fun _ => ?_) (fun _ => answering)
      refine Prog.ends_bind (yields_any _) ?_
      rintro ⟨block, dataOram⟩ _
      have extracted : ({ r with s := { r.s with dataOram } } : Rounds Ω).Answering
          (Seeking phase ref) ref value := answering.withState answering.searching
      dsimp only
      refine Prog.ends_bind (extracted.yields_onOmap .hot (fun omap seeks => ?_)) ?_
      · split
        · exact LawfulSteps.seeks_piggybackRemove phase omap ref seeks
        · exact LawfulSteps.seeks_piggybackNoop phase omap ref seeks
      · rintro decided ⟨_, decidedAnswering⟩
        exact Prog.ends_pure ⟨decidedAnswering.searching, decidedAnswering.found,
          decidedAnswering.answered, decidedAnswering.decided⟩
    refine Prog.ends_bind demoted ?_
    intro r' answering'
    exact Prog.ends_pure ⟨answering'.searching, answering'.found, answering'.answered,
      answering'.decided⟩
  · exact Prog.ends_pure answering

/-! ### Scheduling -/

theorem Answering.yields_triggerDecision [Cipher]
    (answering : r.Answering (Seeking phase ref) ref value) :
    Yields (r.triggerDecision q) (fun r' => r'.Answering (Seeking phase ref) ref value) := by
  unfold triggerDecision
  split
  · rename_i due
    simp only [Bool.and_eq_true, Bool.not_eq_true'] at due
    have refEq := LawfulSteps.traverse_eq phase _ ref (answering.searching due.1.1.1.1 due.1.1.1.2)
      due.2
    refine Prog.ends_bind (yields_scheduleRead _ _ _) ?_
    rintro ⟨data, _⟩ ⟨oram, rfl, isRead, blkEq, _⟩
    refine Prog.ends_pure ⟨fun undecided => by (cases undecided), fun _ => ?_, fun past => ?_,
      fun _ => rfl⟩
    · rw [← refEq]
      exact blkEq
    · have waits : data.st = .needRead := isRead
      simp [waits] at past
  · exact Prog.ends_pure answering

omit [∀ tier, LawfulOmap (Ω tier)] [∀ tier, LawfulSteps (Ω tier)] in
theorem Answering.yields_triggerScanDecision [Cipher]
    (answering : r.Answering holds ref value) :
    Yields (r.triggerScanDecision q) (fun r' => r'.Answering holds ref value) := by
  unfold triggerScanDecision
  split
  · refine Prog.ends_bind (yields_scheduleRead _ _ _) ?_
    rintro ⟨scanData, _⟩ ⟨oram, rfl, _⟩
    exact Prog.ends_pure ⟨answering.searching, answering.found, answering.answered,
      answering.decided⟩
  · exact Prog.ends_pure answering

theorem Answering.yields_finishSearcher [Cipher]
    (answering : r.Answering (Seeking phase ref) ref value) :
    Yields r.finishSearcher (fun r' => r'.Answering (Seeking phase ref) ref value) := by
  unfold finishSearcher
  split
  · rename_i due
    simp only [Bool.and_eq_true, Bool.not_eq_true'] at due
    split
    · exact Prog.ends_pure ⟨fun _ unfinished => by (cases unfinished), answering.found,
        answering.answered, answering.decided⟩
    · rename_i undecided
      have refEq := LawfulSteps.finish_eq phase _ ref
        (answering.searching (by simpa using undecided) due.1) due.2
      refine Prog.ends_bind (yields_scheduleRead _ _ _) ?_
      rintro ⟨data, _⟩ ⟨oram, rfl, isRead, blkEq, _⟩
      refine Prog.ends_pure ⟨fun _ unfinished => by (cases unfinished), fun _ => ?_, fun past => ?_,
        answering.decided⟩
      · rw [← refEq]
        exact blkEq
      · have waits : data.st = .needRead := isRead
        simp [waits] at past
  · exact Prog.ends_pure answering

/-! ### Writing back -/

/-- The searcher has handed over its writes. -/
def Writing (ref : Bytes) (writes : List StepWriteReq) (tier : Tier) (omap : Ω tier) : Prop :=
  Seeking .resting ref tier (writes.foldl OmapInterface.writeStore omap)

theorem Answering.yields_prepareWrites (active : Bool)
    (answering : r.Answering (Seeking (phaseWhen active .processed) ref) ref value) :
    Yields (r.prepareWrites r.searcher active) (fun outcome =>
      outcome.2.Answering (Writing ref outcome.1) ref value) := by
  unfold prepareWrites
  cases active with
  | true =>
      refine Prog.ends_bind (answering.yields_onSearcher (f := Prod.snd)
        (P := fun outcome => Writing ref outcome.1)
        (fun omap => LawfulSteps.seeks_write omap ref)) ?_
      rintro ⟨writes, omap⟩ asked
      exact Prog.ends_pure asked
  | false => exact Prog.ends_pure answering

omit [∀ tier, OmapInterface (Ω tier)] [∀ tier, LawfulOmap (Ω tier)]
  [∀ tier, LawfulSteps (Ω tier)] in
theorem Answering.yields_evictData [Cipher] (answering : r.Answering holds ref value)
    (op : DataOp) :
    Yields (r.evictData op) (fun outcome => outcome.2.Answering holds ref value) := by
  unfold evictData
  split
  · refine Prog.ends_bind (yields_any _) ?_
    rintro ⟨path, dataOram⟩ _
    exact Prog.ends_pure (answering.withState answering.searching)
  · exact Prog.ends_pure answering

omit [∀ tier, OmapInterface (Ω tier)] [∀ tier, LawfulOmap (Ω tier)]
  [∀ tier, LawfulSteps (Ω tier)] in
theorem Answering.yields_startDummy (answering : r.Answering holds ref value) :
    Yields (r.startDummy q) (fun r' => r'.Answering holds ref value) := by
  unfold startDummy
  split
  · rename_i due
    have closed : ({ r with data := { r.data with st := .done } } : Rounds Ω).Answering
        holds ref value :=
      ⟨answering.searching, fun isRead => by (cases isRead),
        fun _ => answering.answered (Or.inl due), answering.decided⟩
    dsimp only
    split
    · refine Prog.ends_bind (yields_any _) ?_
      intro leaf _
      exact Prog.ends_pure ⟨closed.searching, closed.found, closed.answered, closed.decided⟩
    · exact Prog.ends_pure closed
  · exact Prog.ends_pure answering

omit [∀ tier, OmapInterface (Ω tier)] [∀ tier, LawfulOmap (Ω tier)]
  [∀ tier, LawfulSteps (Ω tier)] in
theorem Answering.closeDummy (answering : r.Answering holds ref value) :
    r.closeDummy.Answering holds ref value := by
  unfold Rounds.closeDummy
  split
  · exact ⟨answering.searching, answering.found, answering.answered, answering.decided⟩
  · exact answering

omit [∀ tier, OmapInterface (Ω tier)] [∀ tier, LawfulOmap (Ω tier)]
  [∀ tier, LawfulSteps (Ω tier)] in
theorem Answering.closeScan (answering : r.Answering holds ref value) :
    r.closeScan.Answering holds ref value := by
  unfold Rounds.closeScan
  split
  · exact ⟨answering.searching, answering.found, answering.answered, answering.decided⟩
  · exact answering

/-- The server applies the searcher's writes. -/
theorem Answering.applyWrites {writes : List StepWriteReq}
    (answering : r.Answering (Writing ref writes) ref value) :
    (r.modifyOmap r.searcher (fun omap => writes.foldl OmapInterface.writeStore omap)).Answering
      (Seeking .resting ref) ref value := by
  refine answering.withState (fun undecided unfinished => ?_)
  rw [omap_setOmap]
  exact answering.searching undecided unfinished

theorem Answering.yields_writeBack [Cipher] {p : RoundPlan}
    (answering : r.Answering (Seeking (phaseWhen p.searcherActive .processed) ref) ref value) :
    Yields (r.writeBack q p) (fun r' => r'.Answering (Seeking .resting ref) ref value) := by
  unfold writeBack
  refine Prog.ends_bind (answering.yields_prepareWrites p.searcherActive) ?_
  rintro ⟨writes, prepared⟩ asked
  have dummied : Yields (prepared.prepareWrites prepared.dummy p.dummyActive)
      (fun outcome => outcome.2.Answering (Writing ref writes) ref value) := by
    unfold prepareWrites
    split
    · refine Prog.ends_bind (yields_any _) ?_
      rintro ⟨reads, omap⟩ _
      exact Prog.ends_pure (asked.setOther (fun same => other_ne prepared.searcher same.symm) omap)
    · exact Prog.ends_pure asked
  refine Prog.ends_bind dummied ?_
  rintro ⟨dummyWrites, ready⟩ readyAsked
  refine Prog.ends_bind (readyAsked.yields_evictData ready.data) ?_
  rintro ⟨dataPaths, evicted⟩ evictedAsked
  refine Prog.ends_bind evictedAsked.yields_startDummy ?_
  intro started startedAsked
  refine Prog.ends_bind (startedAsked.yields_evictData started.ddummy) ?_
  rintro ⟨dummyPaths, dummied⟩ dummiedAsked
  refine Prog.ends_bind (dummiedAsked.closeDummy.yields_evictData _) ?_
  rintro ⟨scanPaths, scanned⟩ scannedAsked
  refine Prog.ends_bind (yields_any _) ?_
  intro _ _
  have written := scannedAsked.closeScan.applyWrites.setOther
    (fun same => other_ne scanned.closeScan.searcher same.symm)
  exact Prog.ends_pure ((written _).withState (written _).searching)

/-! ### The loop -/

theorem Answering.yields_round [Cipher] (answering : r.Answering (Seeking .resting ref) ref value)
    (writes : q.newValue = some value) (found : refToBlk ref ≠ invalidBlock) :
    Yields (r.round q) (fun r' => r'.Answering (Seeking .resting ref) ref value) := by
  have reading : r.plan.dataRead = true → r.data.st = .needRead := by
    intro due
    simpa [plan] using due
  unfold round
  refine Prog.ends_bind (answering.yields_fetch r.plan) ?_
  rintro fetched ⟨fetchedData, fetchedAnswering⟩
  refine Prog.ends_bind fetchedAnswering.yields_process ?_
  rintro processed ⟨processedData, processedAnswering⟩
  refine Prog.ends_bind (processedAnswering.yields_finishDataRead writes found ?_) ?_
  · rw [processedData, fetchedData]
    exact reading
  intro read readAnswering
  refine Prog.ends_bind ((readAnswering.finishDummyRead r.plan).yields_finishScanRead r.plan) ?_
  intro scanned scannedAnswering
  refine Prog.ends_bind scannedAnswering.yields_triggerDecision ?_
  intro decided decidedAnswering
  refine Prog.ends_bind decidedAnswering.yields_triggerScanDecision ?_
  intro triggered triggeredAnswering
  refine Prog.ends_bind triggeredAnswering.yields_finishSearcher ?_
  intro searched searchedAnswering
  exact searchedAnswering.yields_writeBack

/-- When the loop ends, the result is the written value. -/
theorem Answering.yields_loop [Cipher] (answering : r.Answering (Seeking .resting ref) ref value)
    (writes : q.newValue = some value) (found : refToBlk ref ≠ invalidBlock) (fuel : Nat) :
    Yields (loop q fuel r) (fun r' => r'.result.value = value) := by
  have ended : ∀ r : Rounds Ω, r.Answering (Seeking .resting ref) ref value → r.finished = true →
      r.result.value = value := by
    intro r answering finished
    simp only [Rounds.finished, Bool.and_eq_true, beq_iff_eq] at finished
    exact answering.answered (Or.inr finished.1.1.2)
  induction fuel generalizing r with
  | zero =>
      unfold loop
      split
      · rename_i finished
        exact Prog.ends_pure (ended r answering finished)
      · exact Prog.ends_fail trivial
  | succ fuel ih =>
      unfold loop
      split
      · rename_i finished
        exact Prog.ends_pure (ended r answering finished)
      · refine Prog.ends_bind (answering.yields_round writes found) ?_
        exact fun r' answering' => ih answering'

/-! ### The start -/

omit [∀ tier, OmapInterface (Ω tier)] [∀ tier, LawfulOmap (Ω tier)]
  [∀ tier, LawfulSteps (Ω tier)] in
/-- A pure operation that is applied on a condition. -/
theorem Answering.modifyWhen {P : Prop} [Decidable P] {r' : Rounds Ω}
    (taken : P → r'.Answering holds ref value) (skipped : r.Answering holds ref value) :
    (if P then r' else r).Answering holds ref value := by
  split
  · exact taken ‹_›
  · exact skipped

/-- A swap's insert may ride along. -/
theorem Answering.yields_insertWhen (answering : r.Answering (Seeking .resting ref) ref value)
    (due : Bool) (tier : Tier) (key : Int) (newRef : Bytes) :
    Yields (doWhen due
        (r.onOmap tier (fun omap => OmapInterface.beginPiggybackInsert omap key newRef)) r)
      (fun r' => r'.Answering (Seeking .resting ref) ref value) := by
  refine yields_doWhen (fun _ => ?_) (fun _ => answering)
  refine (answering.yields_onOmap tier (fun omap seeks => ?_)).mono (fun _ after => after.2)
  exact LawfulSteps.seeks_piggybackInsert omap ref key newRef seeks

/-- The searcher looks for the key, whatever rides along. -/
theorem yields_begin_answering {s : TieredOMap Ω} {contents : Int → Option Bytes} {room : Nat}
    (rep : LawfulOmap.Rep (s.omap (if q.key ∈ s.physHotKeys then .hot else .cold)) contents room)
    (value : Bytes) :
    Yields (begin_ s q) (fun r =>
      r.Answering (Seeking .resting (valueOf (contents q.key))) (valueOf (contents q.key)) value) := by
  set ref := valueOf (contents q.key) with refDef
  unfold begin_
  dsimp only
  have decided : (if decide (q.key ∈ s.physHotKeys) = true then Tier.hot else Tier.cold) =
      if q.key ∈ s.physHotKeys then Tier.hot else Tier.cold := by simp
  generalize searcherEq : (if decide (q.key ∈ s.physHotKeys) = true then Tier.hot else Tier.cold) =
    searcher at decided ⊢
  rw [← decided] at rep
  have started : (({ s, searcher, result := { foundInHot := q.key ∈ s.hotKeys } } :
      Rounds Ω).modifyOmap searcher (fun omap => OmapInterface.beginStepSearch omap q.key none)
      ).Answering (Seeking .resting ref) ref value := by
    refine ⟨fun _ _ => ?_, fun isRead => by (cases isRead), fun past => by (simp [modifyOmap] at past),
      fun pending => by (cases pending)⟩
    change Seeking .resting ref searcher ((s.setOmap searcher _).omap searcher)
    rw [omap_setOmap]
    exact LawfulSteps.seeks_begin _ _ _ _ rep
  refine Prog.ends_bind (Q := fun r => r.Answering (Seeking .resting ref) ref value)
    (Answering.yields_insertWhen ?_ _ _ _ _) ?_
  · have dummied := fun f => started.modifyOther (fun same => other_ne searcher same.symm) f
    refine Answering.modifyWhen (fun _ => ?_) (dummied _)
    exact ((dummied _).modifyOmap .hot (fun omap seeks =>
      LawfulSteps.seeks_piggybackSearch omap ref _ seeks)).modifyOmap .hot (fun omap seeks =>
        LawfulSteps.seeks_setPiggybackDecision omap ref true seeks)
  intro hotArmed hotAnswering
  refine Prog.ends_bind (hotAnswering.yields_insertWhen _ _ _ _) ?_
  intro armed answering
  have decides := Answering.modifyWhen (P := (q.epochMode && !decide (q.key ∈ s.physHotKeys)) = true)
    (fun _ => answering.modifyOmap searcher (fun omap seeks =>
      LawfulSteps.seeks_setDecision omap ref true seeks)) answering
  have padded := Answering.modifyWhen (P := (q.hotDummyPb && q.hotInsertKey == invalidKey &&
      (decide (q.key ∈ s.physHotKeys) || !q.usePartialDummy)) = true)
    (fun _ => decides.modifyOmap .hot (fun omap seeks =>
      LawfulSteps.seeks_piggybackDummy omap ref seeks)) decides
  have final := Answering.modifyWhen (P := (q.coldDummyPb && q.coldInsertKey == invalidKey &&
      (!decide (q.key ∈ s.physHotKeys) || !q.usePartialDummy)) = true)
    (fun _ => padded.modifyOmap .cold (fun omap seeks =>
      LawfulSteps.seeks_piggybackDummy omap ref seeks)) padded
  exact Prog.ends_pure ⟨final.searching, final.found, final.answered, final.decided⟩

end Rounds

end TieredOmap
