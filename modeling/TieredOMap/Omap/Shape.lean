import TieredOMap.Lib.Trace
import TieredOMap.Omap.AvlStep

/-!
# The requests of one AVL tree

Which requests the operations of a tree without a split send: a search and a
dummy access both read and write back a path exactly `3 * max_height_` times,
and as step machines both take exactly that many rounds.
-/

namespace TieredOmap

/-- The requests a program adds to the log. Running out of fuel is the only error ruled out. -/
abbrev Sends {Result : Type} (program : Rand Result)
    (post : Result → List StorageReq → Prop) : Prop :=
  Prog.Emits World.log (· ≠ Err.outOfFuel) program post

theorem sends_randBelow (bound : Nat) : Sends (randBelow bound) (fun _ sent => sent = []) := by
  intro before world start
  rcases bound with _ | bound
  · exact ⟨[], by simpa using start, rfl⟩
  · rcases draws : world.draws with _ | ⟨draw, rest⟩
    · simp only [Prog.runFrom, randBelow, draws]
      exact ⟨[], by simpa using start, rfl⟩
    · simp only [Prog.runFrom, randBelow, draws]
      exact ⟨[], by simpa using start, rfl⟩

theorem sends_send (request : StorageReq) :
    Sends (send request) (fun _ sent => sent = [request]) := by
  intro before world start
  exact ⟨[request], congrArg (· ++ [request]) start, rfl⟩

/-- Reading and writing back a path of a store, a number of times. -/
def pathAccesses (store : Nat) : Nat → List StorageReq
  | 0 => []
  | count + 1 => [.readPath store, .writePaths store] ++ pathAccesses store count

theorem pathAccesses_add (store count count' : Nat) :
    pathAccesses store (count + count') = pathAccesses store count ++ pathAccesses store count' := by
  induction count with
  | zero => simp [pathAccesses]
  | succ count ih =>
      rw [Nat.add_right_comm, pathAccesses, ih, pathAccesses, List.append_assoc]

/-! ## Requests of an ORAM -/

namespace PathORAM

variable [Cipher]

omit [Cipher] in
theorem sends_randomLeaf (oram : PathORAM) : Sends oram.randomLeaf (fun _ sent => sent = []) := by
  refine Prog.emits_bind (sends_randBelow _) ?_
  rintro leaf _ rfl
  exact Prog.emits_pure rfl

theorem sends_readPathToStash (oram : PathORAM) (leaf : Int) :
    Sends (oram.readPathToStash leaf) (fun oram' sent =>
      oram'.storage.storeId = oram.storage.storeId ∧
        sent = [.readPath oram.storage.storeId]) := by
  refine Prog.emits_bind (sends_send _) ?_
  rintro _ _ rfl
  exact Prog.emits_pure ⟨rfl, rfl⟩

omit [Cipher] in
theorem storeId_writePath (oram : PathORAM) (path : PathData) :
    (oram.writePath path).storage.storeId = oram.storage.storeId :=
  (BinaryTreeStorage.writeMultiplePaths_keeps _ _).2.2

theorem sends_evictStash (oram : PathORAM) (leaves : List Int) :
    Sends (oram.evictStash leaves) (fun oram' sent =>
      oram'.storage.storeId = oram.storage.storeId ∧
        sent = [.writePaths oram.storage.storeId]) := by
  unfold evictStash
  dsimp only
  split
  · exact Prog.emits_fail (by decide)
  · refine Prog.emits_bind (sends_send _) ?_
    rintro _ _ rfl
    exact Prog.emits_pure ⟨storeId_writePath _ _, rfl⟩

omit [Cipher] in
theorem sends_extractFromStash (oram : PathORAM) (key : Int) :
    Sends (oram.extractFromStash key) (fun outcome sent =>
      outcome.2.storage.storeId = oram.storage.storeId ∧ sent = []) := by
  unfold extractFromStash
  split
  · exact Prog.emits_pure ⟨rfl, rfl⟩
  · exact Prog.emits_fail (by decide)

theorem sends_dummyAccess (oram : PathORAM) :
    Sends oram.dummyAccess (fun oram' sent =>
      oram'.storage.storeId = oram.storage.storeId ∧
        sent = pathAccesses oram.storage.storeId 1) := by
  refine Prog.emits_bind oram.sends_randomLeaf ?_
  rintro leaf _ rfl
  refine Prog.emits_bind (oram.sends_readPathToStash leaf) ?_
  rintro fetched _ ⟨sameId, rfl⟩
  refine (fetched.sends_evictStash [leaf]).mono ?_
  rintro written _ ⟨sameId', rfl⟩
  exact ⟨sameId'.trans sameId, by simp [pathAccesses, sameId]⟩

theorem sends_access (oram : PathORAM) (key : Int) (newValue : Option Bytes) :
    Sends (oram.access key newValue) (fun outcome sent =>
      outcome.2.storage.storeId = oram.storage.storeId ∧
        sent = pathAccesses oram.storage.storeId 1) := by
  unfold access
  split
  · exact Prog.emits_fail (by decide)
  · rename_i oldLeaf _
    refine Prog.emits_bind oram.sends_randomLeaf ?_
    rintro newLeaf _ rfl
    refine Prog.emits_bind ((oram.setLeaf key newLeaf).sends_readPathToStash oldLeaf) ?_
    rintro fetched _ ⟨sameId, rfl⟩
    have fetchedId : fetched.storage.storeId = oram.storage.storeId := sameId
    dsimp only
    split
    · exact Prog.emits_fail (by decide)
    · refine Prog.emits_bind (sends_evictStash _ [oldLeaf]) ?_
      rintro written _ ⟨sameId', rfl⟩
      exact Prog.emits_pure ⟨sameId'.trans fetchedId, by simp [pathAccesses, setLeaf, fetchedId]⟩

theorem sends_prepareEviction (oram : PathORAM) (leaf : Int) :
    Sends (oram.prepareEviction leaf) (fun outcome sent =>
      outcome.2.storage.storeId = oram.storage.storeId ∧ sent = []) := by
  unfold prepareEviction
  dsimp only
  split
  · exact Prog.emits_fail (by decide)
  · exact Prog.emits_pure ⟨rfl, rfl⟩

end PathORAM

/-! ## Requests of one operation -/

namespace AVLOmap

/-- A tree without a split: its store, its height bound and the operations counted so far. -/
structure Whole (omap : AVLOmap) (store : Nat) (height : Int) (ops : Nat) : Prop where
  noSplit : ¬0 < omap.orams.splitDepth
  storeId : omap.orams.oram.storage.storeId = store
  noOds : omap.odsMode = false
  maxHeight_eq : omap.maxHeight = height
  opCount_eq : omap.opCount = ops
  upperOpCount_eq : omap.upperOpCount = 0
  lowerOpCount_eq : omap.lowerOpCount = 0

variable {omap : AVLOmap} {store ops : Nat} {height : Int}

theorem Whole.halfForDepth (whole : omap.Whole store height ops) (depth : Int) :
    omap.orams.halfForDepth depth = .lower :=
  if_neg (fun split => whole.noSplit split.1)

theorem Whole.padHalf (whole : omap.Whole store height ops) (dummyStep boundary : Int) :
    omap.orams.padHalf dummyStep boundary = .lower :=
  if_neg (fun split => whole.noSplit split.1)

/-- Another ORAM with the same store. -/
theorem Whole.withOram (whole : omap.Whole store height ops) {oram : PathORAM}
    (sameId : oram.storage.storeId = store) :
    { omap with orams := omap.orams.set .lower oram }.Whole store height ops :=
  ⟨whole.noSplit, sameId, whole.noOds, whole.maxHeight_eq, whole.opCount_eq,
    whole.upperOpCount_eq, whole.lowerOpCount_eq⟩

theorem Whole.withLocal (whole : omap.Whole store height ops) (local_ : List AVLLocalNode) :
    { omap with local_ }.Whole store height ops :=
  ⟨whole.noSplit, whole.storeId, whole.noOds, whole.maxHeight_eq, whole.opCount_eq,
    whole.upperOpCount_eq, whole.lowerOpCount_eq⟩

theorem Whole.withRoot (whole : omap.Whole store height ops) (rootLeaf : Int) :
    { omap with rootLeaf }.Whole store height ops :=
  ⟨whole.noSplit, whole.storeId, whole.noOds, whole.maxHeight_eq, whole.opCount_eq,
    whole.upperOpCount_eq, whole.lowerOpCount_eq⟩

theorem Whole.countOp (whole : omap.Whole store height ops) (depth : Int) :
    (omap.countOp depth).Whole store height (ops + 1) := by
  have counted : omap.countOp depth = { omap with opCount := omap.opCount + 1 } :=
    if_neg whole.noSplit
  rw [counted]
  refine ⟨whole.noSplit, whole.storeId, whole.noOds, whole.maxHeight_eq, ?_,
    whole.upperOpCount_eq, whole.lowerOpCount_eq⟩
  simp [whole.opCount_eq]

theorem Whole.resetOpCounts (whole : omap.Whole store height ops) :
    omap.resetOpCounts.Whole store height 0 :=
  ⟨whole.noSplit, whole.storeId, whole.noOds, whole.maxHeight_eq, rfl, rfl, rfl⟩

theorem Whole.modifyLast (whole : omap.Whole store height ops)
    (f : AVLLocalNode → AVLLocalNode) : (omap.modifyLast f).Whole store height ops :=
  whole.withLocal _

theorem sends_decode (raw : Bytes) : Sends (AVLNodeData.decode raw) (fun _ sent => sent = []) := by
  unfold AVLNodeData.decode
  split
  · exact Prog.emits_fail (by decide)
  · exact Prog.emits_pure rfl

variable [Cipher]

theorem Whole.sends_moveToLocal (whole : omap.Whole store height ops)
    (key leaf parentKey depth : Int) :
    Sends (omap.moveToLocal key leaf parentKey depth) (fun outcome sent =>
      outcome.2.Whole store height (ops + 1) ∧ sent = pathAccesses store 1) := by
  unfold moveToLocal
  rw [whole.halfForDepth]
  dsimp only [SplitOram.get]
  refine Prog.emits_bind (PathORAM.sends_readPathToStash _ leaf) ?_
  rintro fetched _ ⟨fetchedId, rfl⟩
  refine Prog.emits_bind (fetched.sends_extractFromStash key) ?_
  rintro ⟨block, extracted⟩ _ ⟨extractedId, rfl⟩
  refine Prog.emits_bind (sends_decode _) ?_
  rintro avl _ rfl
  refine Prog.emits_bind (extracted.sends_evictStash [leaf]) ?_
  rintro written _ ⟨writtenId, rfl⟩
  have sameId : written.storage.storeId = store :=
    writtenId.trans (extractedId.trans (fetchedId.trans whole.storeId))
  refine Prog.emits_pure ⟨((whole.withOram sameId).withLocal _).countOp depth, ?_⟩
  have extractedStore : extracted.storage.storeId = store :=
    extractedId.trans (fetchedId.trans whole.storeId)
  simp [pathAccesses, whole.storeId, extractedStore]

theorem sends_dummyAccesses (count : Nat) (orams : SplitOram)
    (sameId : orams.oram.storage.storeId = store) :
    Sends (SplitOram.dummyAccesses .lower count orams) (fun orams' sent =>
      (∃ oram : PathORAM, oram.storage.storeId = store ∧ orams' = orams.set .lower oram) ∧
        sent = pathAccesses store count) := by
  induction count generalizing orams with
  | zero => exact Prog.emits_pure ⟨⟨orams.oram, sameId, rfl⟩, rfl⟩
  | succ count ih =>
      unfold SplitOram.dummyAccesses SplitOram.dummyAccess
      refine Prog.emits_bind (Q := fun orams' sent => (∃ oram : PathORAM,
        oram.storage.storeId = store ∧ orams' = orams.set .lower oram) ∧
          sent = pathAccesses store 1) ?_ ?_
      · refine Prog.emits_bind orams.oram.sends_dummyAccess ?_
        rintro oram _ ⟨oramId, rfl⟩
        exact Prog.emits_pure ⟨⟨oram, oramId.trans sameId, rfl⟩, by simp [sameId]⟩
      · rintro _ _ ⟨⟨oram, oramId, rfl⟩, rfl⟩
        refine (ih (orams.set .lower oram) oramId).mono ?_
        rintro _ _ ⟨⟨oram', oramId', rfl⟩, rfl⟩
        exact ⟨⟨oram', oramId', rfl⟩, by rw [← pathAccesses_add, Nat.add_comm]⟩

/-- Padding fills the budget up with dummy accesses. -/
theorem Whole.sends_padToBudget (whole : omap.Whole store height ops) (budget : Nat)
    (within : ops ≤ budget) :
    Sends (omap.padToBudget budget) (fun omap' sent =>
      omap'.Whole store height budget ∧ sent = pathAccesses store (budget - ops)) := by
  have padEq : max 0 ((budget : Int) -
      (omap.upperOpCount + omap.lowerOpCount + omap.opCount)) = (budget - ops : Nat) := by
    rw [whole.upperOpCount_eq, whole.lowerOpCount_eq, whole.opCount_eq]
    omega
  unfold padToBudget
  rw [if_neg whole.noSplit]
  dsimp only
  rw [padEq]
  refine Prog.emits_bind (sends_dummyAccesses _ _ whole.storeId) ?_
  rintro orams _ ⟨⟨oram, oramId, rfl⟩, rfl⟩
  refine Prog.emits_pure ⟨?_, by simp⟩
  refine ⟨whole.noSplit, oramId, whole.noOds, whole.maxHeight_eq, ?_, whole.upperOpCount_eq,
    whole.lowerOpCount_eq⟩
  simp only [whole.opCount_eq]
  omega

omit [Cipher] in
theorem Whole.budget_eq (whole : omap.Whole store height ops) (nonneg : 0 ≤ height) :
    3 * omap.maxHeight = (3 * height.toNat : Nat) := by
  rw [whole.maxHeight_eq]
  omega

theorem Whole.sends_padUnlessOds (whole : omap.Whole store height ops)
    (within : ops ≤ 3 * height.toNat) :
    Sends (omap.padUnlessOds (3 * height.toNat : Nat)) (fun omap' sent =>
      omap'.Whole store height (3 * height.toNat) ∧
        sent = pathAccesses store (3 * height.toNat - ops)) := by
  unfold padUnlessOds
  rw [if_neg (by simp [whole.noOds])]
  exact whole.sends_padToBudget _ within

theorem Whole.sends_searchLoop (key : Int) (update : Option Bytes) (count : Nat)
    (d curKey curLeaf : Int) (whole : omap.Whole store height ops) :
    Sends (searchLoop key update count d curKey curLeaf omap) (fun outcome sent =>
      ∃ fetched ≤ count, outcome.2.Whole store height (ops + fetched) ∧
        sent = pathAccesses store fetched) := by
  induction count generalizing d curKey curLeaf omap ops with
  | zero => exact Prog.emits_pure ⟨0, le_refl 0, whole, rfl⟩
  | succ count ih =>
      unfold searchLoop
      split
      · exact Prog.emits_pure ⟨0, Nat.zero_le _, whole, rfl⟩
      · refine Prog.emits_bind (whole.sends_moveToLocal _ _ _ _) ?_
        rintro ⟨node, moved⟩ _ ⟨movedWhole, rfl⟩
        dsimp only
        have goOn : ∀ nextKey nextLeaf, Sends
            (searchLoop key update count (d + 1) nextKey nextLeaf moved) (fun outcome sent =>
              ∃ fetched ≤ count + 1, outcome.2.Whole store height (ops + fetched) ∧
                pathAccesses store 1 ++ sent = pathAccesses store fetched) := by
          intro nextKey nextLeaf
          refine (ih (d + 1) nextKey nextLeaf movedWhole).mono ?_
          rintro outcome _ ⟨fetched, within, outcomeWhole, rfl⟩
          refine ⟨1 + fetched, by omega, ?_, (pathAccesses_add _ _ _).symm⟩
          rw [← Nat.add_assoc]
          exact outcomeWhole
        split
        · exact Prog.emits_pure ⟨1, by omega, movedWhole.modifyLast _, by simp⟩
        · split
          · exact goOn _ _
          · exact goOn _ _

omit [Cipher] in
theorem Whole.sends_drawLocalLeaves (nodes : List AVLLocalNode) (orams : SplitOram)
    (noSplit : ¬0 < orams.splitDepth) (sameId : orams.oram.storage.storeId = store) :
    Sends (drawLocalLeaves nodes orams) (fun outcome sent =>
      (∃ oram : PathORAM, oram.storage.storeId = store ∧ outcome.2 = orams.set .lower oram) ∧
        sent = []) := by
  induction nodes with
  | nil => exact Prog.emits_pure ⟨⟨orams.oram, sameId, rfl⟩, rfl⟩
  | cons node rest ih =>
      refine Prog.emits_bind ih ?_
      rintro ⟨drawn, _⟩ _ ⟨⟨oram, oramId, rfl⟩, rfl⟩
      have isLower : (orams.set .lower oram).halfForDepth node.depth = .lower :=
        if_neg (fun split => noSplit split.1)
      dsimp only
      rw [isLower]
      refine Prog.emits_bind (Q := fun outcome sent => (∃ oram : PathORAM,
        oram.storage.storeId = store ∧ outcome.2 = orams.set .lower oram) ∧ sent = []) ?_ ?_
      · refine Prog.emits_bind (PathORAM.sends_randomLeaf _) ?_
        rintro leaf _ rfl
        exact Prog.emits_pure ⟨⟨oram.setLeaf node.key leaf, oramId, rfl⟩, rfl⟩
      · rintro ⟨leaf, _⟩ _ ⟨⟨oram', oramId', rfl⟩, rfl⟩
        exact Prog.emits_pure ⟨⟨oram', oramId', rfl⟩, rfl⟩

omit [Cipher] in
/-- Reassigning leaves changes the ORAM, the local nodes and the root's leaf. -/
theorem Whole.sends_reassignLeaves (whole : omap.Whole store height ops) :
    Sends omap.reassignLeaves (fun omap' sent =>
      (∃ oram : PathORAM, oram.storage.storeId = store ∧ ∃ rootLeaf local_,
        omap' = { omap with orams := omap.orams.set .lower oram, rootLeaf, local_ }) ∧
        sent = []) := by
  refine Prog.emits_bind (sends_drawLocalLeaves omap.local_ omap.orams whole.noSplit
    whole.storeId) ?_
  rintro ⟨nodes, _⟩ _ ⟨⟨oram, oramId, rfl⟩, rfl⟩
  exact Prog.emits_pure ⟨⟨oram, oramId, _, _, rfl⟩, rfl⟩

omit [Cipher] in
/-- Flushing changes the ORAM and empties the local nodes. -/
theorem Whole.flushLocalToStash (whole : omap.Whole store height ops) :
    ∃ oram : PathORAM, oram.storage.storeId = store ∧
      omap.flushLocalToStash = { omap with orams := omap.orams.set .lower oram, local_ := [] } := by
  have flushed : ∀ (nodes : List AVLLocalNode) (orams : SplitOram), ¬0 < orams.splitDepth →
      orams.oram.storage.storeId = store →
        ∃ oram : PathORAM, oram.storage.storeId = store ∧
          nodes.foldl (fun orams node => orams.addToStash (orams.halfForDepth node.depth)
            { key := node.key, leaf := node.leaf, value := node.avl.encode }) orams =
              orams.set .lower oram := by
    intro nodes
    induction nodes with
    | nil => exact fun orams _ sameId => ⟨orams.oram, sameId, rfl⟩
    | cons node rest ih =>
        intro orams noSplit sameId
        have isLower : orams.halfForDepth node.depth = .lower :=
          if_neg (fun split => noSplit split.1)
        rw [List.foldl_cons, isLower]
        rcases ih (orams.addToStash .lower _) noSplit sameId with ⟨oram, oramId, foldEq⟩
        exact ⟨oram, oramId, foldEq⟩
  rcases flushed omap.local_ omap.orams whole.noSplit whole.storeId with ⟨oram, oramId, foldEq⟩
  exact ⟨oram, oramId, by rw [AVLOmap.flushLocalToStash, foldEq]⟩

omit [Cipher] in
/-- Reassigning and flushing send nothing. -/
theorem Whole.sends_reassignAndFlush (whole : omap.Whole store height ops) :
    Sends omap.reassignLeaves (fun omap' sent =>
      (∃ oram : PathORAM, oram.storage.storeId = store ∧ ∃ rootLeaf,
        omap'.flushLocalToStash =
          { omap with orams := omap.orams.set .lower oram, rootLeaf, local_ := [] }) ∧
        sent = []) := by
  refine whole.sends_reassignLeaves.mono ?_
  rintro _ _ ⟨⟨oram, oramId, rootLeaf, local_, rfl⟩, rfl⟩
  have changed : Whole { omap with orams := omap.orams.set .lower oram, rootLeaf, local_ }
      store height ops :=
    ⟨whole.noSplit, oramId, whole.noOds, whole.maxHeight_eq, whole.opCount_eq,
      whole.upperOpCount_eq, whole.lowerOpCount_eq⟩
  rcases changed.flushLocalToStash with ⟨oram', oramId', flushEq⟩
  exact ⟨⟨oram', oramId', rootLeaf, flushEq⟩, rfl⟩

/-- A search reads and writes back exactly `3 * max_height_` paths. -/
theorem Whole.sends_search (whole : omap.Whole store height ops) (nonneg : 0 ≤ height)
    (key : Int) (update : Option Bytes) :
    Sends (omap.search key update) (fun outcome sent =>
      outcome.2.Whole store height (3 * height.toNat) ∧
        sent = pathAccesses store (3 * height.toNat)) := by
  have reset := whole.resetOpCounts
  unfold search
  dsimp only
  rw [reset.budget_eq nonneg]
  split
  · refine Prog.emits_bind (reset.sends_padUnlessOds (Nat.zero_le _)) ?_
    rintro padded _ ⟨paddedWhole, rfl⟩
    exact Prog.emits_pure ⟨paddedWhole, by simp⟩
  · refine Prog.emits_bind ((reset.withLocal []).sends_searchLoop key update _ _ _ _) ?_
    rintro ⟨result, found⟩ _ ⟨fetched, within, foundWhole, rfl⟩
    rw [reset.maxHeight_eq] at within
    refine Prog.emits_bind foundWhole.sends_reassignAndFlush ?_
    rintro reassigned _ ⟨⟨oram, oramId, rootLeaf, flushEq⟩, rfl⟩
    rw [flushEq]
    have flushedWhole := (foundWhole.withOram oramId).withRoot rootLeaf
    refine Prog.emits_bind ((flushedWhole.withLocal []).sends_padUnlessOds (by omega)) ?_
    rintro padded _ ⟨paddedWhole, rfl⟩
    refine Prog.emits_pure ⟨paddedWhole, ?_⟩
    simp only [List.nil_append, List.append_nil]
    rw [← pathAccesses_add]
    congr 1
    omega

/-- So does a dummy access. -/
theorem Whole.sends_dummyAccess (whole : omap.Whole store height ops) (nonneg : 0 ≤ height) :
    Sends omap.dummyAccess (fun omap' sent =>
      omap'.Whole store height (3 * height.toNat) ∧
        sent = pathAccesses store (3 * height.toNat)) := by
  unfold dummyAccess
  rw [whole.budget_eq nonneg]
  exact whole.resetOpCounts.sends_padToBudget _ (Nat.zero_le _)

end AVLOmap

end TieredOmap
