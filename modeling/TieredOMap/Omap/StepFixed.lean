import TieredOMap.Omap.BplusVisits
import TieredOMap.Omap.StepShape

/-!
# The step machines keep their set-up

The parts of a round send nothing by themselves: the requests are handed to whoever drives the
machine. They change the ORAMs, the local nodes and the state of the operations, but neither the
set-up of the tree nor the stores.
-/

namespace TieredOmap

theorem PathORAM.sends_prepareEvictionPaths [Cipher] (oram : PathORAM) (leaves : List Int) :
    Sends (oram.prepareEvictionPaths leaves) (fun outcome sent =>
      outcome.2.storage.storeId = oram.storage.storeId ∧ sent = []) := by
  unfold prepareEvictionPaths
  dsimp only
  split
  · exact Prog.emits_fail (by decide)
  · exact Prog.emits_pure ⟨rfl, rfl⟩

namespace SplitOram

variable {orams : SplitOram} {split : Int} {stores : Half → Nat} [Cipher]

omit [Cipher] in
/-- The requests for the paths of a round name the stores of their halves. -/
theorem Between.map_request (between : orams.Between split stores)
    (main piggyback : Option RoundPath) :
    (main.toList.map orams.request ++ piggyback.toList.map orams.request).map
      StepReadReq.storeId = ((main.map RoundPath.half).toList ++
        (piggyback.map RoundPath.half).toList).map stores := by
  have asked : ∀ round : Option RoundPath, (round.toList.map orams.request).map
      StepReadReq.storeId = (round.map RoundPath.half).toList.map stores := by
    rintro (_ | round)
    · rfl
    · exact congrArg ([·]) (between.storeId_eq round.half)
  rw [List.map_append, asked, asked, ← List.map_append]

theorem Between.applyFetched (between : orams.Between split stores) (half : Half)
    (path : PathData) : (orams.applyFetched half path).Between split stores :=
  between.set (between.storeId_eq half)

theorem Between.applyReads (between : orams.Between split stores)
    (main piggyback : Option RoundPath) (results : List PathData) :
    (orams.applyReads main piggyback results).Between split stores := by
  unfold SplitOram.applyReads
  split
  · split
    · exact between.applyFetched _ _
    · exact (between.applyFetched _ _).applyFetched _ _
  · exact between.applyFetched _ _
  · exact between.applyFetched _ _
  · exact between

omit [Cipher] in
theorem Between.writeStore (between : orams.Between split stores) (request : StepWriteReq) :
    (orams.writeStore request).Between split stores := by
  unfold SplitOram.writeStore
  have written : ∀ half, (orams.set half ((orams.get half).writePath request.data)).Between split
      stores :=
    fun half => between.set ((PathORAM.storeId_writePath _ _).trans (between.storeId_eq half))
  split
  · exact written .upper
  · exact written .lower

theorem Between.silent_prepareEviction (between : orams.Between split stores)
    (round : RoundPath) :
    Silent (orams.prepareEviction round) (fun outcome =>
      outcome.1.storeId = stores round.half ∧ outcome.2.Between split stores) := by
  refine silent_bind (PathORAM.sends_prepareEviction _ _) ?_
  rintro ⟨data, oram⟩ sameId
  have storeEq : oram.storage.storeId = stores round.half :=
    sameId.trans (between.storeId_eq round.half)
  exact silent_pure ⟨storeEq, between.set storeEq⟩

/-- The stores that the paths of a round are written to; one if they share a half. -/
def writtenHalves : Option RoundPath → Option RoundPath → List Half
  | none, none => []
  | some main, some piggyback =>
      if main.half = piggyback.half then [main.half] else [main.half, piggyback.half]
  | some main, none => [main.half]
  | none, some piggyback => [piggyback.half]

theorem Between.silent_prepareOne (between : orams.Between split stores) (round : RoundPath) :
    Silent (do
      let (write, orams) ← orams.prepareEviction round
      return ([write], orams)) (fun outcome =>
        outcome.1.map StepWriteReq.storeId = [stores round.half] ∧
          outcome.2.Between split stores) := by
  refine silent_bind (between.silent_prepareEviction round) ?_
  rintro ⟨write, orams'⟩ ⟨storeEq, between'⟩
  exact silent_pure ⟨congrArg ([·]) storeEq, between'⟩

theorem Between.silent_prepareWrites (between : orams.Between split stores)
    (main piggyback : Option RoundPath) :
    Silent (orams.prepareWrites main piggyback) (fun outcome =>
      outcome.1.map StepWriteReq.storeId = (writtenHalves main piggyback).map stores ∧
        outcome.2.Between split stores) := by
  rcases main with _ | main <;> rcases piggyback with _ | piggyback
  · exact silent_pure ⟨rfl, between⟩
  · exact between.silent_prepareOne piggyback
  · exact between.silent_prepareOne main
  · unfold SplitOram.prepareWrites writtenHalves
    dsimp only
    split
    · refine silent_bind (PathORAM.sends_prepareEvictionPaths _ _) ?_
      rintro ⟨data, oram⟩ sameId
      have storeEq : oram.storage.storeId = stores main.half :=
        sameId.trans (between.storeId_eq main.half)
      exact silent_pure ⟨congrArg ([·]) storeEq, between.set storeEq⟩
    · refine silent_bind (between.silent_prepareEviction main) ?_
      rintro ⟨write, orams'⟩ ⟨storeEq, between'⟩
      refine silent_bind (between'.silent_prepareEviction piggyback) ?_
      rintro ⟨write', orams''⟩ ⟨storeEq', between''⟩
      exact silent_pure ⟨congrArg₂ (fun store store' => [store, store']) storeEq storeEq',
        between''⟩

end SplitOram

namespace AVLOmap

variable {omap : AVLOmap} {setting : TreeSetting} {visited : List Half} [Cipher]

/-! ## The AVL machine -/

omit [Cipher] in
theorem Fixed.beginStep (fixed : omap.Fixed setting) (ss : AVLStepState) :
    (omap.beginStep ss).Tallied setting [] :=
  { fixed.resetOpCounts with }

omit [Cipher] in
theorem Tallied.withPb (tallied : omap.Tallied setting visited) (pb : AVLPBState) :
    { omap with pb }.Tallied setting visited :=
  { tallied with }

omit [Cipher] in
theorem Tallied.withSs (tallied : omap.Tallied setting visited) (ss : AVLStepState) :
    (omap.setSs ss).Tallied setting visited :=
  { tallied with }

omit [Cipher] in
theorem Tallied.beginPiggybackSearch (tallied : omap.Tallied setting visited) (key : Int) :
    (omap.beginPiggybackSearch key).Tallied setting visited := by
  unfold AVLOmap.beginPiggybackSearch
  split
  · exact tallied.withPb _
  · exact tallied.withPb _

omit [Cipher] in
theorem Tallied.silent_beginPiggybackInsert (tallied : omap.Tallied setting visited) (key : Int)
    (value : Bytes) : Silent (omap.beginPiggybackInsert key value) (fun omap' =>
      omap'.Tallied setting visited) := by
  unfold beginPiggybackInsert
  dsimp only
  split
  · refine silent_bind (tallied.between.sends_assignLeaf _ _) ?_
    rintro ⟨leaf, orams⟩ between
    exact silent_pure { tallied with between }
  · exact silent_pure (tallied.withPb _)

/-- The half the main operation visits in this round. -/
def mainHalf (omap : AVLOmap) : Option Half :=
  match omap.ss.phase with
  | .done => none
  | .traverse => some (omap.orams.halfForDepth omap.ss.depth)
  | .pad => some (omap.orams.padHalf omap.ss.dummyStep omap.ss.dummySplitBoundary)

/-- The half the piggybacked operation visits in this round. -/
def piggybackHalf (omap : AVLOmap) : Option Half :=
  if !omap.pb.active then none
  else match omap.pb.phase with
  | .done => none
  | .traverse => some (omap.orams.halfForDepth omap.pb.depth)
  | .pad => some (omap.orams.padHalf omap.pb.dummyStep omap.pb.dummySplitBoundary)

omit [Cipher] in
theorem silent_randomLeaf (orams : SplitOram) (half : Half) :
    Silent (orams.randomLeaf half) (fun _ => True) :=
  (PathORAM.sends_randomLeaf _).mono (fun _ _ none => ⟨trivial, none⟩)

omit [Cipher] in
theorem silent_mainRound (omap : AVLOmap) :
    Silent omap.mainRound (fun round => round.map RoundPath.half = omap.mainHalf) := by
  unfold mainRound mainHalf
  cases omap.ss.phase with
  | done => exact silent_pure rfl
  | traverse => exact silent_pure rfl
  | pad => exact silent_bind (silent_randomLeaf _ _) (fun _ _ => silent_pure rfl)

omit [Cipher] in
theorem silent_piggybackRound (omap : AVLOmap) :
    Silent omap.piggybackRound (fun round =>
      round.1.map RoundPath.half = omap.piggybackHalf) := by
  unfold piggybackRound piggybackHalf
  split
  · exact silent_pure rfl
  · cases omap.pb.phase with
    | done => exact silent_pure rfl
    | traverse =>
        dsimp only
        split
        · exact silent_bind (silent_randomLeaf _ _) (fun _ _ => silent_pure rfl)
        · exact silent_pure rfl
    | pad => exact silent_bind (silent_randomLeaf _ _) (fun _ _ => silent_pure rfl)

omit [Cipher] in
/-- The reads of a round: the stores of the halves, and nothing else of the state changes. -/
theorem Tallied.silent_stepNextRound (tallied : omap.Tallied setting visited) :
    Silent omap.stepNextRound (fun outcome =>
      outcome.1.map StepReadReq.storeId =
        (omap.mainHalf.toList ++ omap.piggybackHalf.toList).map setting.stores ∧
      ∃ main piggyback nodeInLocal, main.map RoundPath.half = omap.mainHalf ∧
        piggyback.map RoundPath.half = omap.piggybackHalf ∧
        outcome.2 = { omap with
          ss := { omap.ss with curRound := main }
          pb := { omap.pb with curRound := piggyback, nodeInLocal } }) := by
  refine silent_bind omap.silent_mainRound ?_
  intro main mainEq
  refine silent_bind omap.silent_piggybackRound ?_
  rintro ⟨piggyback, nodeInLocal⟩ piggybackEq
  refine silent_pure ⟨?_, main, piggyback, nodeInLocal, mainEq, piggybackEq, rfl⟩
  rw [← mainEq, ← piggybackEq]
  exact tallied.between.map_request main piggyback

omit [Cipher] in
theorem Tallied.silent_extractNode (tallied : omap.Tallied setting visited) (key depth : Int) :
    Silent (omap.extractNode key depth) (fun outcome =>
      outcome.2.2.Tallied setting visited ∧ outcome.2.2.ss = omap.ss ∧
        outcome.2.2.pb = omap.pb) := by
  unfold extractNode
  refine silent_bind (PathORAM.sends_extractFromStash _ key) ?_
  rintro ⟨block, oram⟩ sameId
  refine silent_bind (Q := fun _ => True)
    ((sends_decode _).mono (fun _ _ none => ⟨trivial, none⟩)) ?_
  intro avl _
  exact silent_pure
    ⟨tallied.withOrams (tallied.between.set (sameId.trans (tallied.between.storeId_eq _))), rfl, rfl⟩

omit [Cipher] in
theorem Tallied.startPad (tallied : omap.Tallied setting visited) :
    omap.startPad.Tallied setting visited :=
  { tallied with }

omit [Cipher] in
theorem Tallied.silent_fetchMain (tallied : omap.Tallied setting visited) :
    Silent omap.fetchMain (fun outcome =>
      outcome.2.Tallied setting (visited ++ [halfAt setting.split omap.ss.depth]) ∧
        outcome.2.ss = omap.ss ∧ outcome.2.pb = omap.pb) := by
  unfold fetchMain
  refine silent_bind (tallied.silent_extractNode _ _) ?_
  rintro ⟨block, avl, fetched⟩ ⟨fetchedTallied, sameSs, samePb⟩
  exact silent_pure ⟨(fetchedTallied.withLocal _).countOp _, (countOp_ss _ _).trans sameSs,
    (countOp_pb _ _).trans samePb⟩

omit [Cipher] in
theorem Tallied.silent_reassignAndFlush (tallied : omap.Tallied setting visited) :
    Silent omap.reassignLeaves (fun omap' => omap'.flushLocalToStash.Tallied setting visited ∧
      omap'.flushLocalToStash.ss = omap.ss ∧ omap'.flushLocalToStash.pb = omap.pb) := by
  refine silent_bind (sends_drawLocalLeaves omap.local_ tallied.between) ?_
  rintro ⟨nodes, orams⟩ between
  have reassigned : ∀ rootLeaf local_, Tallied { omap with orams, rootLeaf, local_ } setting visited :=
    fun _ _ => { tallied with between }
  exact silent_pure ⟨(reassigned _ _).flushLocalToStash, rfl, rfl⟩

/-- The main operation after a level of its traversal, which ends or goes on. -/
def LeftNode (setting : TreeSetting) (visited : List Half) (omap omap' : AVLOmap) : Prop :=
  ∃ avl, omap'.pb = omap.pb ∧
    if (omap.ss.advance avl setting.maxHeight).1 then
      ∃ flushed : AVLOmap, flushed.Tallied setting visited ∧
        flushed.ss = (omap.ss.advance avl setting.maxHeight).2 ∧ omap' = flushed.startPad
    else omap'.Tallied setting visited ∧ omap'.ss = (omap.ss.advance avl setting.maxHeight).2

omit [Cipher] in
theorem Tallied.silent_leaveNode (tallied : omap.Tallied setting visited) (avl : AVLNodeData) :
    Silent (omap.leaveNode avl) (LeftNode setting visited omap) := by
  unfold leaveNode
  rw [tallied.maxHeight_eq]
  rcases advanced : omap.ss.advance avl setting.maxHeight with ⟨ended, ss⟩
  dsimp only
  cases ended with
  | true =>
      refine silent_bind (tallied.withSs ss).silent_reassignAndFlush ?_
      rintro reassigned ⟨flushedTallied, sameSs, samePb⟩
      refine silent_pure ⟨avl, samePb, ?_⟩
      rw [advanced, if_pos rfl]
      exact ⟨_, flushedTallied, sameSs, rfl⟩
  | false =>
      refine silent_pure ⟨avl, rfl, ?_⟩
      rw [advanced, if_neg (by simp)]
      exact ⟨tallied.withSs ss, rfl⟩

omit [Cipher] in
theorem LeftNode.tallied {omap' : AVLOmap} (left : LeftNode setting visited omap omap') :
    omap'.Tallied setting visited := by
  rcases left with ⟨avl, _, rest⟩
  split at rest
  · rcases rest with ⟨flushed, tallied, _, rfl⟩
    exact tallied.startPad
  · exact rest.1

omit [Cipher] in
theorem Tallied.silent_traverseMain (tallied : omap.Tallied setting visited) :
    Silent omap.traverseMain
      (LeftNode setting (visited ++ [halfAt setting.split omap.ss.depth]) omap) := by
  unfold traverseMain
  refine silent_bind tallied.silent_fetchMain ?_
  rintro ⟨avl, fetched⟩ ⟨fetchedTallied, sameSs, samePb⟩
  have left := fetchedTallied.silent_leaveNode avl
  unfold LeftNode at left ⊢
  rw [sameSs, samePb] at left
  exact left

omit [Cipher] in
/-- A dummy round counts in the half it visits. -/
theorem Tallied.countDummy (tallied : omap.Tallied setting visited) (dummyStep boundary : Int) :
    (if 0 < omap.orams.splitDepth then
        if dummyStep < boundary then { omap with upperOpCount := omap.upperOpCount + 1 }
        else { omap with lowerOpCount := omap.lowerOpCount + 1 }
      else { omap with opCount := omap.opCount + 1 }).Tallied setting
        (visited ++ [omap.orams.padHalf dummyStep boundary]) := by
  have counted := tallied.countOp (if dummyStep < boundary then setting.split - 1 else setting.split)
  unfold AVLOmap.countOp halfAt at counted
  unfold SplitOram.padHalf
  rw [tallied.between.splitDepth_eq] at counted ⊢
  have above : setting.split - 1 < setting.split := by omega
  by_cases early : dummyStep < boundary
  · simpa only [early, above, if_true, and_true] using counted
  · simpa only [early, lt_irrefl, if_false, and_false] using counted

omit [Cipher] in
theorem Tallied.padMain (tallied : omap.Tallied setting visited) :
    omap.padMain.Tallied setting
      (visited ++ [omap.orams.padHalf omap.ss.dummyStep omap.ss.dummySplitBoundary]) := by
  have counted := tallied.countDummy omap.ss.dummyStep omap.ss.dummySplitBoundary
  unfold AVLOmap.padMain
  simp only [Int.add_one_le_iff]
  exact counted.withSs _

omit [Cipher] in
theorem padMain_pb (omap : AVLOmap) : omap.padMain.pb = omap.pb := by
  unfold padMain
  dsimp only
  split
  · split <;> rfl
  · rfl

omit [Cipher] in
/-- The main operation counts the path it has read. -/
theorem Tallied.silent_processMain (tallied : omap.Tallied setting visited) :
    Silent omap.processMain (fun omap' =>
      omap'.Tallied setting (visited ++ omap.mainHalf.toList) ∧ omap'.pb = omap.pb) := by
  unfold processMain mainHalf
  cases omap.ss.phase with
  | done => exact silent_pure ⟨by simpa using tallied, rfl⟩
  | traverse =>
      rw [tallied.between.halfForDepth]
      refine tallied.silent_traverseMain.mono ?_
      rintro omap' _ ⟨left, none⟩
      exact ⟨⟨left.tallied, left.choose_spec.1⟩, none⟩
  | pad => exact silent_pure ⟨tallied.padMain, omap.padMain_pb⟩

/-! ### The piggybacked operation -/

omit [Cipher] in
theorem Tallied.silent_piggybackNode (tallied : omap.Tallied setting visited) :
    Silent omap.piggybackNode (fun outcome =>
      outcome.2.Tallied setting visited ∧ outcome.2.pb = omap.pb) := by
  unfold piggybackNode
  split
  · exact silent_pure ⟨tallied, rfl⟩
  · refine silent_bind (tallied.silent_extractNode _ _) ?_
    rintro ⟨block, avl, fetched⟩ ⟨fetchedTallied, _, samePb⟩
    exact silent_pure ⟨fetchedTallied.withLocal _, samePb⟩

omit [Cipher] in
theorem Tallied.endPiggyback (tallied : omap.Tallied setting visited) :
    omap.endPiggyback.Tallied setting visited := by
  unfold AVLOmap.endPiggyback
  split
  · exact tallied.updateHeights.rebalance.withPb _
  · exact tallied.withPb _

omit [Cipher] in
theorem Tallied.silent_insertPiggyback (tallied : omap.Tallied setting visited) (idx : Nat) :
    Silent (omap.insertPiggyback idx) (fun outcome => outcome.2.Tallied setting visited) := by
  unfold insertPiggyback
  dsimp only
  split
  · exact silent_pure (tallied.withLocal _)
  · have attached : ∀ onLeft, Silent (omap.attachPiggyback idx onLeft) (fun omap' =>
        omap'.Tallied setting visited) := by
      intro onLeft
      unfold attachPiggyback
      refine silent_bind (tallied.between.sends_assignLeaf _ _) ?_
      rintro ⟨leaf, orams⟩ between
      exact silent_pure ((tallied.withOrams between).withLocal _)
    have ended : ∀ onLeft, Silent (do
        let omap ← omap.attachPiggyback idx onLeft
        return (true, omap)) (fun outcome => outcome.2.Tallied setting visited) :=
      fun onLeft => silent_bind (attached onLeft) (fun _ tallied' => silent_pure tallied')
    split
    · split
      · exact ended _
      · exact silent_pure (tallied.withPb _)
    · split
      · exact ended _
      · exact silent_pure (tallied.withPb _)

omit [Cipher] in
theorem Tallied.searchPiggyback (tallied : omap.Tallied setting visited) (idx : Nat) :
    (omap.searchPiggyback idx).2.Tallied setting visited := by
  unfold AVLOmap.searchPiggyback
  dsimp only
  split
  · exact tallied.withPb _
  · split
    · exact tallied
    · exact tallied.withPb _

omit [Cipher] in
theorem Tallied.silent_traversePiggyback (tallied : omap.Tallied setting visited) :
    Silent omap.traversePiggyback (fun omap' =>
      omap'.Tallied setting (visited ++ [halfAt setting.split omap.pb.depth])) := by
  unfold traversePiggyback
  refine silent_bind tallied.silent_piggybackNode ?_
  rintro ⟨idx, fetched⟩ ⟨fetchedTallied, samePb⟩
  dsimp only
  have counted := (fetchedTallied.withPb { fetched.pb with ops := fetched.pb.ops + 1 }).countOp
    fetched.pb.depth
  rw [samePb] at counted ⊢
  have leave : ∀ (ended : Bool) (deeper : AVLOmap),
      deeper.Tallied setting (visited ++ [halfAt setting.split omap.pb.depth]) →
        (if ended then deeper.endPiggyback else deeper).Tallied setting
          (visited ++ [halfAt setting.split omap.pb.depth]) := by
    intro ended deeper tallied'
    cases ended with
    | true => exact tallied'.endPiggyback
    | false => exact tallied'
  split
  · refine silent_bind (counted.silent_insertPiggyback idx) ?_
    rintro ⟨ended, went⟩ wentTallied
    exact silent_pure (leave _ _ (wentTallied.withPb _))
  · exact silent_pure (leave _ _ ((counted.searchPiggyback idx).withPb _))

omit [Cipher] in
theorem Tallied.padPiggyback (tallied : omap.Tallied setting visited) :
    omap.padPiggyback.Tallied setting
      (visited ++ [omap.orams.padHalf omap.pb.dummyStep omap.pb.dummySplitBoundary]) :=
  (tallied.countDummy omap.pb.dummyStep omap.pb.dummySplitBoundary).withPb _

omit [Cipher] in
theorem Tallied.silent_processPiggyback (tallied : omap.Tallied setting visited) :
    Silent omap.processPiggyback (fun omap' =>
      omap'.Tallied setting (visited ++ omap.piggybackHalf.toList)) := by
  unfold processPiggyback piggybackHalf
  split
  · exact silent_pure (by simpa using tallied)
  · cases omap.pb.phase with
    | done => exact silent_pure (by simpa using tallied)
    | traverse =>
        rw [tallied.between.halfForDepth]
        exact tallied.silent_traversePiggyback
    | pad => exact silent_pure tallied.padPiggyback

omit [Cipher] in
/-- The counters of the machine count the paths it has read. -/
theorem Tallied.silent_stepProcess (tallied : omap.Tallied setting visited) :
    Silent omap.stepProcess (fun omap' => ∃ visited', omap'.Tallied setting visited') := by
  unfold stepProcess
  refine silent_bind tallied.silent_processMain ?_
  rintro processed ⟨processedTallied, _⟩
  refine processedTallied.silent_processPiggyback.mono ?_
  rintro omap' _ ⟨tallied', none⟩
  exact ⟨⟨_, tallied'⟩, none⟩

/-! ### Reads and writes -/

theorem Tallied.stepApplyReads (tallied : omap.Tallied setting visited)
    (results : List PathData) : (omap.stepApplyReads results).Tallied setting visited :=
  tallied.withOrams (tallied.between.applyReads _ _ results)

theorem Tallied.silent_stepPrepareWrites (tallied : omap.Tallied setting visited) :
    Silent omap.stepPrepareWrites (fun outcome =>
      outcome.1.map StepWriteReq.storeId = (SplitOram.writtenHalves omap.ss.curRound
        omap.pb.curRound).map setting.stores ∧
      ∃ orams : SplitOram, orams.Between setting.split setting.stores ∧
        outcome.2 = { omap with orams }) := by
  refine silent_bind (tallied.between.silent_prepareWrites _ _) ?_
  rintro ⟨writes, orams⟩ ⟨stores, between⟩
  exact silent_pure ⟨stores, orams, between, rfl⟩

omit [Cipher] in
theorem Tallied.writeStore (tallied : omap.Tallied setting visited) (request : StepWriteReq) :
    { omap with orams := omap.orams.writeStore request }.Tallied setting visited :=
  tallied.withOrams (tallied.between.writeStore request)

end AVLOmap

end TieredOmap
