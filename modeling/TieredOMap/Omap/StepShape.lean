import TieredOMap.Omap.Shape

/-!
# The rounds of one AVL step machine

A search and a dummy operation both take exactly `3 * max_height_` rounds, and
every round reads and writes one path of the tree's store.
-/

namespace TieredOmap

namespace AVLOmap

/-- How many rounds a main operation still takes. -/
def Running (ss : AVLStepState) (height : Int) (left : Nat) : Prop :=
  match ss.phase with
  | .done => left = 0
  | .pad => ss.padRemaining = left ∧ 0 < left
  | .traverse => ss.ops = ss.depth ∧ 0 ≤ ss.depth ∧ ss.depth < height ∧
      ss.budget = 3 * height ∧ (left : Int) = 3 * height - ss.ops

/-- A step machine without a piggyback and with `left` rounds to go. -/
structure Stepping (omap : AVLOmap) (store : Nat) (height : Int) (left : Nat) : Prop where
  whole : ∃ ops, omap.Whole store height ops
  noPiggyback : omap.pb.active = false
  running : Running omap.ss height left

/-- The machine has asked for a path of its one ORAM in this round. -/
def InRound (omap : AVLOmap) : Prop :=
  (∃ leaf, omap.ss.curRound = some { half := .lower, leaf }) ∧ omap.pb.curRound = none

variable {omap : AVLOmap} {store left : Nat} {height : Int}

theorem Stepping.done_iff (stepping : omap.Stepping store height left) :
    omap.stepDone = true ↔ left = 0 := by
  have running := stepping.running
  unfold stepDone
  rw [stepping.noPiggyback]
  cases phase : omap.ss.phase with
  | traverse =>
      simp only [Running, phase] at running
      simp
      omega
  | pad =>
      simp only [Running, phase] at running
      simp
      omega
  | done =>
      simp only [Running, phase] at running
      simpa using running

theorem Stepping.finished {ops : Nat} (whole : omap.Whole store height ops)
    (noPiggyback : omap.pb.active = false) (isDone : omap.ss.phase = .done) :
    omap.Stepping store height 0 :=
  ⟨⟨ops, whole⟩, noPiggyback, by simp [Running, isDone]⟩

theorem Whole.withSteps {ops : Nat} (whole : omap.Whole store height ops) (ss : AVLStepState)
    (pb : AVLPBState) : { omap with ss, pb }.Whole store height ops :=
  ⟨whole.noSplit, whole.storeId, whole.noOds, whole.maxHeight_eq, whole.opCount_eq,
    whole.upperOpCount_eq, whole.lowerOpCount_eq⟩

theorem Whole.beginStepSearch {ops : Nat} (whole : omap.Whole store height ops)
    (positive : 0 < height) (key : Int) (update : Option Bytes) :
    (omap.beginStepSearch key update).Stepping store height (3 * height.toNat) := by
  refine ⟨⟨0, (whole.resetOpCounts.withLocal []).withSteps _ {}⟩, rfl, ?_⟩
  unfold AVLOmap.beginStepSearch beginStep
  dsimp only
  rw [whole.maxHeight_eq]
  by_cases noRoot : omap.rootKey = invalidKey
  · rw [if_pos noRoot]
    simp only [Running]
    omega
  · rw [if_neg noRoot]
    refine ⟨rfl, le_refl _, positive, rfl, ?_⟩
    push_cast
    simp [Int.toNat_of_nonneg positive.le]

theorem Whole.beginStepDummy {ops : Nat} (whole : omap.Whole store height ops)
    (positive : 0 < height) :
    omap.beginStepDummy.Stepping store height (3 * height.toNat) := by
  refine ⟨⟨0, (whole.resetOpCounts.withLocal []).withSteps _ {}⟩, rfl, ?_⟩
  simp only [AVLOmap.beginStepDummy, beginStep, Running, whole.maxHeight_eq]
  omega


/-- What a level of the traversal leaves alone. -/
theorem AVLStepState.advance_spec (ss : AVLStepState) (avl : AVLNodeData) (maxHeight : Int) :
    (ss.advance avl maxHeight).2.phase = ss.phase ∧
      (ss.advance avl maxHeight).2.budget = ss.budget ∧
      (ss.advance avl maxHeight).2.ops = ss.ops + 1 ∧
      (ss.advance avl maxHeight).2.depth = ss.depth + 1 ∧
      (ss.advance avl maxHeight).2.curRound = ss.curRound ∧
      ((ss.advance avl maxHeight).1 = false → ss.depth + 1 < maxHeight) := by
  refine ⟨rfl, rfl, rfl, rfl, rfl, ?_⟩
  intro goesOn
  simp only [AVLStepState.advance, Bool.or_eq_false_iff, decide_eq_false_iff_not] at goesOn
  omega

/-- A machine that is not done asks for one path. -/
theorem Stepping.sends_stepNextRound (stepping : omap.Stepping store height left)
    (more : 0 < left) :
    Sends omap.stepNextRound (fun outcome sent =>
      outcome.1.map StepReadReq.storeId = [store] ∧ outcome.2.Stepping store height left ∧
        outcome.2.InRound ∧ sent = []) := by
  rcases stepping with ⟨⟨ops, whole⟩, noPiggyback, running⟩
  refine Prog.emits_bind (Q := fun round sent =>
    (∃ leaf, round = some { half := .lower, leaf }) ∧ sent = []) ?_ ?_
  · unfold mainRound
    cases phase : omap.ss.phase with
    | done =>
        simp only [Running, phase] at running
        omega
    | traverse =>
        dsimp only
        rw [whole.halfForDepth]
        exact Prog.emits_pure ⟨⟨_, rfl⟩, rfl⟩
    | pad =>
        dsimp only
        rw [whole.padHalf]
        refine Prog.emits_bind (PathORAM.sends_randomLeaf _) ?_
        rintro leaf _ rfl
        exact Prog.emits_pure ⟨⟨leaf, rfl⟩, rfl⟩
  · rintro _ _ ⟨⟨leaf, rfl⟩, rfl⟩
    have idle : omap.piggybackRound = pure (none, omap.pb.nodeInLocal) := by
      rw [piggybackRound, if_pos (by simp [noPiggyback])]
    rw [idle]
    refine Prog.emits_bind (Q := fun outcome sent =>
      outcome = (none, omap.pb.nodeInLocal) ∧ sent = []) (Prog.emits_pure ⟨rfl, rfl⟩) ?_
    rintro _ _ ⟨rfl, rfl⟩
    refine Prog.emits_pure ⟨?_, ⟨⟨ops, whole.withSteps _ _⟩, noPiggyback, running⟩, ?_, rfl⟩
    · simp [SplitOram.request, SplitOram.get, whole.storeId]
    · exact ⟨⟨leaf, rfl⟩, rfl⟩

theorem Stepping.withOram (stepping : omap.Stepping store height left) {oram : PathORAM}
    (sameId : oram.storage.storeId = store) :
    { omap with orams := omap.orams.set .lower oram }.Stepping store height left := by
  rcases stepping with ⟨⟨ops, whole⟩, noPiggyback, running⟩
  exact ⟨⟨ops, whole.withOram sameId⟩, noPiggyback, running⟩

theorem Stepping.stepApplyReads [Cipher] (stepping : omap.Stepping store height left)
    (inRound : omap.InRound) (results : List PathData) :
    (omap.stepApplyReads results).Stepping store height left ∧
      (omap.stepApplyReads results).InRound := by
  rcases stepping.whole with ⟨ops, whole⟩
  rcases inRound with ⟨⟨leaf, mainRound⟩, noRound⟩
  have applied : ∃ oram : PathORAM, oram.storage.storeId = store ∧
      omap.stepApplyReads results = { omap with orams := omap.orams.set .lower oram } := by
    unfold AVLOmap.stepApplyReads
    rw [mainRound, noRound]
    cases results with
    | nil => exact ⟨omap.orams.oram, whole.storeId, rfl⟩
    | cons path rest =>
        exact ⟨omap.orams.oram.applyFetchedPath path, whole.storeId, rfl⟩
  rcases applied with ⟨oram, oramId, appliedEq⟩
  rw [appliedEq]
  exact ⟨stepping.withOram oramId, ⟨leaf, mainRound⟩, noRound⟩

theorem Whole.sends_extractNode {ops : Nat} (whole : omap.Whole store height ops)
    (key depth : Int) :
    Sends (omap.extractNode key depth) (fun outcome sent =>
      (∃ oram : PathORAM, oram.storage.storeId = store ∧
        outcome.2.2 = { omap with orams := omap.orams.set .lower oram }) ∧ sent = []) := by
  unfold extractNode
  rw [whole.halfForDepth]
  refine Prog.emits_bind (PathORAM.sends_extractFromStash _ key) ?_
  rintro ⟨block, extracted⟩ _ ⟨extractedId, rfl⟩
  refine Prog.emits_bind (sends_decode _) ?_
  rintro avl _ rfl
  exact Prog.emits_pure ⟨⟨extracted, extractedId.trans whole.storeId, rfl⟩, rfl⟩

@[simp]
theorem countOp_ss (omap : AVLOmap) (depth : Int) : (omap.countOp depth).ss = omap.ss := by
  unfold countOp
  split
  · split <;> rfl
  · rfl

@[simp]
theorem countOp_pb (omap : AVLOmap) (depth : Int) : (omap.countOp depth).pb = omap.pb := by
  unfold countOp
  split
  · split <;> rfl
  · rfl

/-- Taking a node counts one operation and leaves the state of the operations alone. -/
theorem Whole.sends_fetchMain {ops : Nat} (whole : omap.Whole store height ops) :
    Sends omap.fetchMain (fun outcome sent =>
      (outcome.2.Whole store height (ops + 1) ∧ outcome.2.ss = omap.ss ∧
        outcome.2.pb = omap.pb) ∧ sent = []) := by
  refine Prog.emits_bind (whole.sends_extractNode _ _) ?_
  rintro ⟨block, avl, _⟩ _ ⟨⟨oram, oramId, rfl⟩, rfl⟩
  have fetchedWhole := whole.withOram oramId
  exact Prog.emits_pure ⟨⟨(fetchedWhole.withLocal _).countOp omap.ss.depth, countOp_ss _ _,
    countOp_pb _ _⟩, rfl⟩

theorem Whole.setSs {ops : Nat} (whole : omap.Whole store height ops) (ss : AVLStepState) :
    (omap.setSs ss).Whole store height ops :=
  whole.withSteps ss omap.pb

/-- Leaving a node takes the traversal one round further. -/
theorem Whole.sends_leaveNode {ops : Nat} (whole : omap.Whole store height ops)
    (noPiggyback : omap.pb.active = false) (inRound : omap.InRound)
    (traversing : omap.ss.phase = .traverse) (running : Running omap.ss height (left + 1))
    (avl : AVLNodeData) :
    Sends (omap.leaveNode avl) (fun omap' sent =>
      omap'.Stepping store height left ∧ omap'.InRound ∧ sent = []) := by
  simp only [Running, traversing] at running
  rcases running with ⟨opsEq, depthNonneg, depthLt, budgetEq, leftEq⟩
  have spec := AVLStepState.advance_spec omap.ss avl omap.maxHeight
  unfold leaveNode
  rcases advance : omap.ss.advance avl omap.maxHeight with ⟨ended, ss⟩
  rw [advance] at spec
  rcases spec with ⟨phaseEq, budgetEq', opsEq', depthEq', roundEq, goesOn⟩
  dsimp only at phaseEq budgetEq' opsEq' depthEq' roundEq goesOn ⊢
  rcases inRound with ⟨⟨leaf, mainRound⟩, noRound⟩
  cases ended with
  | true =>
      rw [if_pos rfl]
      refine Prog.emits_bind (whole.setSs ss).sends_reassignAndFlush ?_
      rintro reassigned _ ⟨⟨oram, oramId, rootLeaf, flushEq⟩, rfl⟩
      rw [flushEq]
      have flushedWhole := (((whole.setSs ss).withOram oramId).withRoot rootLeaf).withLocal []
      have padEq : max 0 (ss.budget - ss.ops) = left := by
        rw [budgetEq', opsEq', budgetEq]
        omega
      refine Prog.emits_pure ⟨⟨⟨ops, flushedWhole.setSs _⟩, noPiggyback, ?_⟩,
        ⟨⟨leaf, roundEq.trans mainRound⟩, noRound⟩, rfl⟩
      unfold startPad Running
      dsimp only [AVLOmap.setSs]
      rw [padEq]
      by_cases finished : (left : Int) = 0
      · rw [if_pos finished]
        exact_mod_cast finished
      · rw [if_neg finished]
        exact ⟨rfl, by omega⟩
  | false =>
      rw [if_neg (by simp)]
      refine Prog.emits_pure ⟨⟨⟨ops, whole.setSs ss⟩, noPiggyback, ?_⟩,
        ⟨⟨leaf, roundEq.trans mainRound⟩, noRound⟩, rfl⟩
      have goesOn' := goesOn rfl
      rw [whole.maxHeight_eq] at goesOn'
      simp only [AVLOmap.setSs, Running, phaseEq, traversing]
      omega

/-- A round brings the machine one round closer to its end. -/
theorem Stepping.sends_stepProcess (stepping : omap.Stepping store height (left + 1))
    (inRound : omap.InRound) :
    Sends omap.stepProcess (fun omap' sent =>
      omap'.Stepping store height left ∧ omap'.InRound ∧ sent = []) := by
  rcases stepping with ⟨⟨ops, whole⟩, noPiggyback, running⟩
  have idle : ∀ omap' : AVLOmap, omap'.pb.active = false →
      omap'.processPiggyback = pure omap' := by
    intro omap' noPiggyback'
    rw [processPiggyback, if_pos (by simp [noPiggyback'])]
  suffices main : Sends omap.processMain (fun omap' sent =>
      omap'.Stepping store height left ∧ omap'.InRound ∧ sent = []) by
    refine Prog.emits_bind main ?_
    rintro omap' _ ⟨stepping', inRound', rfl⟩
    rw [idle omap' stepping'.noPiggyback]
    exact Prog.emits_pure ⟨stepping', inRound', rfl⟩
  unfold processMain
  cases phase : omap.ss.phase with
  | done =>
      simp only [Running, phase] at running
      omega
  | pad =>
      simp only [Running, phase] at running
      have padded : omap.padMain = { { omap with opCount := omap.opCount + 1 } with
          ss := omap.padMain.ss } := by
        unfold padMain
        dsimp only
        rw [if_neg whole.noSplit]
      have counted : omap.padMain.Whole store height (ops + 1) := by
        rw [padded]
        exact ⟨whole.noSplit, whole.storeId, whole.noOds, whole.maxHeight_eq,
          by simp [whole.opCount_eq], whole.upperOpCount_eq, whole.lowerOpCount_eq⟩
      refine Prog.emits_pure ⟨⟨⟨ops + 1, counted⟩, by rw [padded]; exact noPiggyback, ?_⟩, ?_, rfl⟩
      · rw [Running]
        by_cases last : omap.ss.padRemaining - 1 ≤ 0
        · simp only [padMain, last, if_true]
          omega
        · simp only [padMain, last, if_false]
          omega
      · rw [padded]
        exact inRound
  | traverse =>
      refine Prog.emits_bind whole.sends_fetchMain ?_
      rintro ⟨avl, fetched⟩ _ ⟨⟨fetchedWhole, ssEq, pbEq⟩, rfl⟩
      refine fetchedWhole.sends_leaveNode ?_ ?_ ?_ ?_ avl
      · rw [pbEq, noPiggyback]
      · rw [InRound, ssEq, pbEq]
        exact inRound
      · rw [ssEq, phase]
      · rw [ssEq]
        exact running

/-- The write-back of a round goes to the one store. -/
theorem Stepping.sends_stepPrepareWrites [Cipher] (stepping : omap.Stepping store height left)
    (inRound : omap.InRound) :
    Sends omap.stepPrepareWrites (fun outcome sent =>
      (outcome.1.map StepWriteReq.storeId = [store] ∧
        outcome.2.Stepping store height left) ∧ sent = []) := by
  rcases inRound with ⟨⟨leaf, mainRound⟩, noRound⟩
  rcases stepping.whole with ⟨ops, whole⟩
  unfold stepPrepareWrites
  rw [mainRound, noRound]
  refine Prog.emits_bind (Q := fun outcome sent => (outcome.1.map StepWriteReq.storeId = [store] ∧
    ∃ oram : PathORAM, oram.storage.storeId = store ∧
      outcome.2 = omap.orams.set .lower oram) ∧ sent = []) ?_ ?_
  · refine Prog.emits_bind (Q := fun outcome sent => (outcome.1.storeId = store ∧
      ∃ oram : PathORAM, oram.storage.storeId = store ∧
        outcome.2 = omap.orams.set .lower oram) ∧ sent = []) ?_ ?_
    · refine Prog.emits_bind (PathORAM.sends_prepareEviction _ leaf) ?_
      rintro ⟨path, oram⟩ _ ⟨oramId, rfl⟩
      have sameId : oram.storage.storeId = store := oramId.trans whole.storeId
      exact Prog.emits_pure ⟨⟨sameId, oram, sameId, rfl⟩, rfl⟩
    · rintro ⟨write, _⟩ _ ⟨⟨writeId, oram, oramId, rfl⟩, rfl⟩
      exact Prog.emits_pure ⟨⟨by simpa using writeId, oram, oramId, rfl⟩, rfl⟩
  · rintro ⟨writes, _⟩ _ ⟨⟨writeIds, oram, oramId, rfl⟩, rfl⟩
    exact Prog.emits_pure ⟨⟨writeIds, stepping.withOram oramId⟩, rfl⟩

/-- The server's writes leave the client's state alone. -/
theorem Stepping.writeStore (stepping : omap.Stepping store height left)
    (request : StepWriteReq) :
    Stepping { omap with orams := omap.orams.writeStore request } store height left := by
  rcases stepping.whole with ⟨ops, whole⟩
  have written : omap.orams.writeStore request =
      omap.orams.set .lower (omap.orams.oram.writePath request.data) :=
    if_neg (fun split => whole.noSplit split.1)
  rw [written]
  exact stepping.withOram ((PathORAM.storeId_writePath _ _).trans whole.storeId)

end AVLOmap

end TieredOmap
