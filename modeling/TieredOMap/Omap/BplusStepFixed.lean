import TieredOMap.Omap.StepFixed

/-!
# The B+ step machine keeps its set-up

As for the AVL tree, no part of a round sends anything. Only the set-up is followed here: how the
counters grow depends on the shares of the padding.
-/

namespace TieredOmap

namespace BPlusOmap

variable {omap : BPlusOmap} {setting : TreeSetting}

/-! ## Local changes -/

theorem Fixed.withOrams (fixed : omap.Fixed setting) {orams : SplitOram}
    (between : orams.Between setting.split setting.stores) : { omap with orams }.Fixed setting :=
  { fixed with between }

theorem Fixed.setSs (fixed : omap.Fixed setting) (ss : BPlusStepState) :
    (omap.setSs ss).Fixed setting := { fixed with }

theorem Fixed.setPb (fixed : omap.Fixed setting) (pb : BPlusPBState) :
    (omap.setPb pb).Fixed setting := { fixed with }

theorem Fixed.countOp (fixed : omap.Fixed setting) (depth : Int) :
    (omap.countOp depth).Fixed setting := by
  unfold BPlusOmap.countOp
  split
  · exact { fixed with }
  · exact { fixed with }

theorem Fixed.countPad (fixed : omap.Fixed setting) (partialUpperPad : Int) :
    (omap.countPad partialUpperPad).Fixed setting := by
  unfold BPlusOmap.countPad
  split
  · exact { fixed with }
  · exact { fixed with }

/-! ## Beginning -/

theorem Fixed.beginStep (fixed : omap.Fixed setting) (ss : BPlusStepState) :
    (omap.beginStep ss).Fixed setting := { fixed with }

theorem Fixed.beginPiggybackSearch (fixed : omap.Fixed setting) (key : Int) :
    (omap.beginPiggybackSearch key).Fixed setting := by
  unfold BPlusOmap.beginPiggybackSearch
  split
  · exact fixed.setPb _
  · exact fixed.setPb _

theorem Fixed.silent_beginPiggybackInsert (fixed : omap.Fixed setting) (key : Int)
    (value : Bytes) : Silent (omap.beginPiggybackInsert key value) (fun omap' =>
      omap'.Fixed setting) := by
  unfold beginPiggybackInsert
  dsimp only
  split
  · refine silent_bind (fixed.between.sends_assignLeaf _ _) ?_
    rintro ⟨leaf, orams⟩ between
    exact silent_pure { fixed with between }
  · exact silent_pure (fixed.setPb _)

/-! ## The paths of a round -/

theorem silent_siblingRound (omap : BPlusOmap) (isDummy : Bool) (leaf depth : Int) :
    Silent (omap.siblingRound isDummy leaf depth) (fun round =>
      round.half = omap.orams.halfForDepth depth) := by
  unfold siblingRound
  cases isDummy with
  | true => exact silent_bind (AVLOmap.silent_randomLeaf _ _) (fun _ _ => silent_pure rfl)
  | false => exact silent_pure rfl

/-- The half of a padding path. -/
def padHalf (omap : BPlusOmap) (partialUpperPad : Int) : Half :=
  omap.orams.halfForDepth (if 0 < partialUpperPad then 0 else omap.orams.splitDepth)

theorem silent_padRound (omap : BPlusOmap) (partialUpperPad : Int) :
    Silent (omap.padRound partialUpperPad) (fun round =>
      round.half = omap.padHalf partialUpperPad) := by
  unfold padRound padHalf
  split
  · exact silent_bind (AVLOmap.silent_randomLeaf _ _) (fun _ _ => silent_pure rfl)
  · exact silent_bind (AVLOmap.silent_randomLeaf _ _) (fun _ _ => silent_pure rfl)

/-- The half the main operation visits in this round. -/
def mainHalf (omap : BPlusOmap) : Option Half :=
  match omap.ss.phase with
  | .done | .decision => none
  | .traverseTarget => some (omap.orams.halfForDepth omap.ss.depth)
  | .traverseSibling => some (omap.orams.halfForDepth (omap.ss.depth + 1))
  | .pad => some (omap.padHalf omap.ss.partialUpperPad)

/-- The half the piggybacked operation visits in this round. -/
def piggybackHalf (omap : BPlusOmap) : Option Half :=
  if !omap.pb.active then none
  else match omap.pb.phase with
  | .done | .decision => none
  | .traverseTarget => some (omap.orams.halfForDepth omap.pb.depth)
  | .traverseSibling => some (omap.orams.halfForDepth (omap.pb.depth + 1))
  | .pad => some (omap.padHalf omap.pb.partialUpperPad)

theorem silent_mainRound (omap : BPlusOmap) :
    Silent omap.mainRound (fun round => round.map RoundPath.half = omap.mainHalf) := by
  have asked : ∀ {round : Rand RoundPath} {half : Half}, Silent round (·.half = half) →
      Silent (do let round ← round; return some round) (fun round =>
        round.map RoundPath.half = some half) :=
    fun path => silent_bind path (fun _ same => silent_pure (congrArg some same))
  unfold mainRound mainHalf
  dsimp only
  cases omap.ss.phase with
  | done => exact silent_pure rfl
  | decision => exact silent_pure rfl
  | traverseTarget => exact silent_pure rfl
  | traverseSibling => exact asked (omap.silent_siblingRound _ _ _)
  | pad => exact asked (omap.silent_padRound _)

theorem silent_piggybackRound (omap : BPlusOmap) :
    Silent omap.piggybackRound (fun round =>
      round.1.map RoundPath.half = omap.piggybackHalf) := by
  have asked : ∀ {round : Rand RoundPath} {half : Half}, Silent round (·.half = half) →
      Silent (do let round ← round; return (some round, omap.pb.nodeInLocal)) (fun round =>
        round.1.map RoundPath.half = some half) :=
    fun path => silent_bind path (fun _ same => silent_pure (congrArg some same))
  unfold piggybackRound piggybackHalf
  dsimp only
  split
  · exact silent_pure rfl
  · cases omap.pb.phase with
    | done => exact silent_pure rfl
    | decision => exact silent_pure rfl
    | traverseTarget =>
        dsimp only
        split
        · exact silent_bind (AVLOmap.silent_randomLeaf _ _) (fun _ _ => silent_pure rfl)
        · exact silent_pure rfl
    | traverseSibling => exact asked (omap.silent_siblingRound _ _ _)
    | pad => exact asked (omap.silent_padRound _)

/-- The reads of a round: the stores of the halves, and nothing else of the state changes. -/
theorem Fixed.silent_stepNextRound (fixed : omap.Fixed setting) :
    Silent omap.stepNextRound (fun outcome =>
      outcome.1.map StepReadReq.storeId =
        (omap.mainHalf.toList ++ omap.piggybackHalf.toList).map setting.stores ∧
      ∃ main piggyback nodeInLocal, main.map RoundPath.half = omap.mainHalf ∧
        piggyback.map RoundPath.half = omap.piggybackHalf ∧
        outcome.2 = { omap with
          ss := { omap.ss with curRound := main }
          pb := { omap.pb with curRound := piggyback, nodeInLocal } }) := by
  refine silent_bind omap.silent_mainRound ?_
  intro main mainEq
  refine silent_bind omap.silent_piggybackRound ?_
  rintro ⟨piggyback, nodeInLocal⟩ piggybackEq
  refine silent_pure ⟨?_, main, piggyback, nodeInLocal, mainEq, piggybackEq, rfl⟩
  rw [← mainEq, ← piggybackEq]
  exact fixed.between.map_request main piggyback

/-! ## Processing a round -/

theorem Fixed.silent_extractNode (fixed : omap.Fixed setting) (id depth : Int) :
    Silent (omap.extractNode id depth) (fun outcome => Kept setting omap outcome.2.2) := by
  unfold extractNode
  refine silent_bind (PathORAM.sends_extractFromStash _ id) ?_
  rintro ⟨block, oram⟩ sameId
  exact silent_pure { fixed.kept with
    between := fixed.between.set (sameId.trans (fixed.between.storeId_eq _)) }

theorem Fixed.silent_reassignAndFlush (fixed : omap.Fixed setting) :
    Silent omap.reassignAllLeaves (fun omap' => Kept setting omap omap'.flushAllToStash) :=
  fixed.silent_reassignAllLeaves.mono
    (fun _ _ outcome => ⟨outcome.1.trans outcome.1.toFixed.flushAllToStash, outcome.2⟩)

theorem Fixed.silent_endMain (fixed : omap.Fixed setting) :
    Silent omap.endMain (fun omap' => omap'.Fixed setting) := by
  unfold endMain
  refine silent_bind fixed.silent_reassignAndFlush ?_
  intro flushed kept
  exact silent_pure (kept.toFixed.setSs _)

theorem Fixed.silent_targetMain (fixed : omap.Fixed setting) :
    Silent omap.targetMain (fun omap' => omap'.Fixed setting) := by
  unfold targetMain
  refine silent_bind (fixed.silent_extractNode _ _) ?_
  rintro ⟨leaf, node, fetched⟩ kept
  have pushed : ∀ local_, { fetched with local_ }.Fixed setting := fun _ => { kept with }
  exact silent_pure (((pushed _).countOp _).setSs _)

/-- The sibling of a level is taken, unless there is none. -/
theorem Fixed.silent_takeSibling (fixed : omap.Fixed setting) (isDummy : Bool) (sibId depth : Int)
    (parentLocalIdx childIdxInParent : Nat) :
    Silent (doWhen (!isDummy) (do
      let (leaf, node, omap) ← omap.extractNode sibId depth
      return omap.pushSibling
        { id := sibId, leaf, node, parentLocalIdx, childIdxInParent, depth }) omap)
      (Kept setting omap) := by
  cases isDummy with
  | true => exact silent_pure fixed.kept
  | false =>
      refine silent_bind (fixed.silent_extractNode sibId depth) ?_
      rintro ⟨leaf, node, fetched⟩ kept
      exact silent_pure (kept.trans { kept.toFixed.kept with })

theorem Fixed.silent_siblingMain (fixed : omap.Fixed setting) :
    Silent omap.siblingMain (fun omap' => omap'.Fixed setting) := by
  unfold siblingMain
  refine silent_bind (fixed.silent_takeSibling _ _ _ _ _) ?_
  intro taken kept
  have counted := (kept.toFixed.countOp (omap.ss.depth + 1)).setSs
    { omap.ss with ops := omap.ss.ops + 1 }
  dsimp only
  split
  · split
    · exact silent_pure (counted.setSs _)
    · exact counted.silent_endMain
  · exact silent_pure (counted.setSs _)

theorem Fixed.silent_processMain (fixed : omap.Fixed setting) :
    Silent omap.processMain (fun omap' => omap'.Fixed setting) := by
  unfold processMain
  cases omap.ss.phase with
  | traverseTarget => exact fixed.silent_targetMain
  | traverseSibling => exact fixed.silent_siblingMain
  | pad => exact silent_pure ((fixed.countPad _).setSs _)
  | decision => exact silent_pure fixed
  | done => exact silent_pure fixed

theorem Fixed.silent_piggybackNode (fixed : omap.Fixed setting) :
    Silent omap.piggybackNode (fun outcome => outcome.2.Fixed setting) := by
  unfold piggybackNode
  split
  · exact silent_pure fixed
  · refine silent_bind (fixed.silent_extractNode _ _) ?_
    rintro ⟨leaf, node, fetched⟩ kept
    exact silent_pure { kept with }

theorem Fixed.silent_targetPiggyback (fixed : omap.Fixed setting) :
    Silent omap.targetPiggyback (fun omap' => omap'.Fixed setting) := by
  unfold targetPiggyback
  refine silent_bind fixed.silent_piggybackNode ?_
  rintro ⟨idx, fetched⟩ fetchedFixed
  have counted := (fetchedFixed.countOp fetched.pb.depth).setPb
    { fetched.pb with ops := fetched.pb.ops + 1 }
  dsimp only
  split
  · split
    · refine silent_bind (counted.silent_insertAt _ _ _) ?_
      intro inserted kept
      exact silent_pure (kept.toFixed.setPb _)
    · exact silent_pure (counted.setPb _)
  · exact silent_pure (counted.setPb _)

theorem Fixed.silent_siblingPiggyback (fixed : omap.Fixed setting) :
    Silent omap.siblingPiggyback (fun omap' => omap'.Fixed setting) := by
  unfold siblingPiggyback
  refine silent_bind (fixed.silent_takeSibling _ _ _ _ _) ?_
  intro taken kept
  have counted := (kept.toFixed.countOp (omap.pb.depth + 1)).setPb
    { omap.pb with ops := omap.pb.ops + 1 }
  dsimp only
  split
  · split
    · exact silent_pure (counted.setPb _)
    · exact silent_pure ((counted.setPb _).setPb _)
  · exact silent_pure (counted.setPb _)

theorem Fixed.silent_processPiggyback (fixed : omap.Fixed setting) :
    Silent omap.processPiggyback (fun omap' => omap'.Fixed setting) := by
  unfold processPiggyback
  split
  · exact silent_pure fixed
  · cases omap.pb.phase with
    | traverseTarget => exact fixed.silent_targetPiggyback
    | traverseSibling => exact fixed.silent_siblingPiggyback
    | pad => exact silent_pure ((fixed.countPad _).setPb _)
    | decision => exact silent_pure fixed
    | done => exact silent_pure fixed

theorem Fixed.silent_stepProcess (fixed : omap.Fixed setting) :
    Silent omap.stepProcess (fun omap' => omap'.Fixed setting) :=
  silent_bind fixed.silent_processMain (fun _ processed => processed.silent_processPiggyback)

/-! ## Decisions -/

theorem Fixed.silent_stepCommitRemove (fixed : omap.Fixed setting) :
    Silent omap.stepCommitRemove (fun omap' => omap'.Fixed setting) := by
  unfold stepCommitRemove
  split
  · exact silent_pure fixed
  · have erased : (omap.modifyLastLeaf (fun node => node.eraseEntry omap.ss.key)).Fixed setting :=
      { fixed with }
    have ended : ∀ atLeaf : Bool, Silent (if atLeaf then (omap.modifyLastLeaf (fun node =>
        node.eraseEntry omap.ss.key)).handleDeleteUnderflow else omap).endMain (fun omap' =>
          omap'.Fixed setting) := by
      intro atLeaf
      cases atLeaf with
      | true => exact erased.handleDeleteUnderflow.toFixed.silent_endMain
      | false => exact fixed.silent_endMain
    exact ended _

theorem Fixed.silent_stepCommitNoop (fixed : omap.Fixed setting) :
    Silent omap.stepCommitNoop (fun omap' => omap'.Fixed setting) := by
  unfold stepCommitNoop
  split
  · exact silent_pure fixed
  · exact fixed.silent_endMain

/-! ## Reads and writes -/

variable [Cipher]

theorem Fixed.stepApplyReads (fixed : omap.Fixed setting) (results : List PathData) :
    (omap.stepApplyReads results).Fixed setting :=
  fixed.withOrams (fixed.between.applyReads _ _ results)

theorem Fixed.silent_stepPrepareWrites (fixed : omap.Fixed setting) :
    Silent omap.stepPrepareWrites (fun outcome =>
      outcome.1.map StepWriteReq.storeId = (SplitOram.writtenHalves omap.ss.curRound
        omap.pb.curRound).map setting.stores ∧
      ∃ orams : SplitOram, orams.Between setting.split setting.stores ∧
        outcome.2 = { omap with orams }) := by
  refine silent_bind (fixed.between.silent_prepareWrites _ _) ?_
  rintro ⟨writes, orams⟩ ⟨stores, between⟩
  exact silent_pure ⟨stores, orams, between, rfl⟩

omit [Cipher] in
theorem Fixed.writeStore (fixed : omap.Fixed setting) (request : StepWriteReq) :
    { omap with orams := omap.orams.writeStore request }.Fixed setting :=
  fixed.withOrams (fixed.between.writeStore request)

end BPlusOmap

end TieredOmap
