import TieredOMap.Omap.AvlBalance

/-!
# Rebalancing after an insertion

All nodes on the way to a new leaf are local, so every rotation that the way
back up needs finds its nodes.
-/

namespace TieredOmap

open AvlPart

variable {label : Int → Int} {omap : AVLOmap} {frames : List AvlFrame} {frame : AvlFrame}
  {part : AvlPart} {spare : AvlTree}

/--
A subtree that had the given height before an insertion. If it has grown, the
nodes of the grown side are local.
-/
structure Grown (height : Nat) (part : AvlPart) : Prop where
  height_cases : part.tree.height = height ∨ part.tree.height = height + 1
  liftable : part.tree.height = height + 1 → ∀ side, Liftable side part
  leans : part.tree.height = height + 1 → 0 < height →
    ∃ side, BinaryTree.leansTo side part.tree = true

/-- A local node has its children on either side. -/
theorem exists_fetchedOn (side side' : Bool) (node : AVLLocalNode) (child other : AvlPart) :
    ∃ child' other', fetchedOn side node child other = fetchedOn side' node child' other' := by
  by_cases same : side' = side
  · exact ⟨child, other, by rw [same]⟩
  · have flipped : side = !side' := by
      cases side <;> cases side' <;> simp_all
    refine ⟨other, child, ?_⟩
    rw [flipped]
    exact fetchedOn_not side' node child other

/-- The node of a frame that needs no rotation. -/
theorem Grown.plug (grown : Grown spare.height part)
    (siblingLe : frame.sibling.tree.height ≤ spare.height + 1)
    (partLe : part.tree.height ≤ frame.sibling.tree.height + 1) :
    Grown (frame.frame.plug spare).height (frame.plug part) := by
  have oldHeight : (frame.frame.plug spare).height =
      max spare.height frame.sibling.tree.height + 1 := BinaryTree.height_nodeOn _ _ _ _
  have newHeight : (frame.plug part).tree.height =
      max part.tree.height frame.sibling.tree.height + 1 := by
    rw [AvlFrame.tree_plug]
    exact BinaryTree.height_nodeOn _ _ _ _
  rcases grown.height_cases with same | grew
  · refine ⟨Or.inl (by omega), fun grew => ?_, fun grew => ?_⟩ <;> omega
  · refine ⟨by omega, fun higher side => ?_, fun higher _ => ⟨frame.onLeft, ?_⟩⟩
    · rcases grown.liftable grew true with ⟨pivot, inner, outer, partEq, _⟩
      by_cases here : frame.onLeft = side
      · refine ⟨frame.node, frame.sibling, part, ?_, fun inwards => ?_⟩
        · rw [fetchedOn_not, ← here]
          rfl
        · omega
      · have flipped : frame.onLeft = !side := by
          cases side <;> simp_all
        refine ⟨frame.node, part, frame.sibling, ?_, fun _ => ⟨pivot, ?_⟩⟩
        · rw [← flipped]
          rfl
        · rw [partEq]
          exact exists_fetchedOn (!true) side pivot inner outer
    · rw [AvlFrame.tree_plug]
      refine (BinaryTree.leansTo_nodeOn frame.onLeft _ part.tree frame.sibling.tree).trans ?_
      exact decide_eq_true (by omega)

/-- Balancing the node of the innermost frame over a subtree that may have grown. -/
theorem AvlFocus.balance_grown (focus : AvlFocus label omap (frame :: frames) part)
    (exact : (frame.plug part).HeightsExact) (balanced : (frame.frame.plug spare).Balanced)
    (partBalanced : part.tree.Balanced) (grown : Grown spare.height part) : ∃ frames' part',
      Reshaped label omap (AvlPart.plug (frame :: frames) part) (omap.balanceNode frames.length)
        (AvlPart.plug frames' part') ∧
      AvlFocus label (omap.balanceNode frames.length) frames' part' ∧
      SameWay frames frames' ∧ part'.HeightsExact ∧
      part'.tree = frame.frame.rebalance part.tree ∧
      Grown (frame.frame.plug spare).height part' := by
  rcases BinaryTree.balanced_nodeOn.mp balanced with
    ⟨spareLe, siblingLe, spareBalanced, siblingBalanced⟩
  change spare.height ≤ frame.sibling.tree.height + 1 at spareLe
  change frame.sibling.tree.height ≤ spare.height + 1 at siblingLe
  change frame.sibling.tree.Balanced at siblingBalanced
  have popped : AvlFocus label omap frames (frame.plug part) := ⟨focus.local_.pop, focus.rootKey⟩
  have found : omap.local_[frames.length]? = some frame.node := focus.local_.isNext
  have oldHeight : (frame.frame.plug spare).height =
      max spare.height frame.sibling.tree.height + 1 := BinaryTree.height_nodeOn _ _ _ _
  by_cases tall : frame.sibling.tree.height + 1 < part.tree.height
  · have grew : part.tree.height = spare.height + 1 := by
      rcases grown.height_cases with same | grew <;> omega
    rcases popped.balanceNode_tall exact found (grown.liftable grew frame.onLeft) tall with
      ⟨frames', part', reshaped, focus', same, exact', treeEq⟩
    refine ⟨frames', part', reshaped, focus', same, exact', treeEq, ?_⟩
    rcases BinaryTree.balanceOn_tall frame.onLeft (frame.node.key, frame.node.avl.data) partBalanced
      siblingBalanced (by omega) with ⟨_, _, _, heightEq⟩
    have leaning : BinaryTree.leansTo frame.onLeft part.tree = true ∨
        BinaryTree.leansTo (!frame.onLeft) part.tree = true := by
      rcases grown.leans grew (by omega) with ⟨side, leans⟩
      cases side <;> cases frame.onLeft <;> simp_all
    rw [← treeEq] at heightEq
    have newHeight := heightEq leaning
    refine ⟨Or.inl (by omega), fun higher => ?_, fun higher => ?_⟩ <;> omega
  · have partLe : part.tree.height ≤ frame.sibling.tree.height + 1 := by omega
    have siblingLe' : frame.sibling.tree.height ≤ part.tree.height + 1 := by
      rcases grown.height_cases with same | grew <;> omega
    have even : omap.balanceNode frames.length = omap := by
      rcases heightsExact_fetchedOn.mp exact with ⟨partHeight, siblingHeight, _, _⟩
      refine AVLOmap.balanceNode_even found ?_ ?_ <;> cases onLeft : frame.onLeft <;>
        rw [onLeft] at partHeight siblingHeight <;>
        simp only [Bool.not_true, Bool.not_false] at siblingHeight <;> omega
    rw [even]
    refine ⟨frames, frame.plug part, Reshaped.refl _ _ _, popped, SameWay.refl _, exact, ?_,
      grown.plug siblingLe partLe⟩
    rw [AvlFrame.tree_plug]
    change _ = BinaryTree.balanceOn frame.onLeft _ part.tree frame.sibling.tree
    rw [BinaryTree.balanceOn, if_neg (by omega), if_neg (by omega)]
    rfl

/-- The sweep of `rebalance` over the way up. -/
def balanceUp (count : Nat) (omap : AVLOmap) : AVLOmap :=
  (List.range count).reverse.foldl (fun omap i => omap.updateHeights.balanceNode i) omap

theorem balanceUp_succ (count : Nat) (omap : AVLOmap) : balanceUp (count + 1) omap =
    balanceUp count (omap.updateHeights.balanceNode count) := by
  simp [balanceUp, List.range_succ]

/-- The whole way up is rebalanced. -/
theorem AvlFocus.balanceUp (focus : AvlFocus label omap frames part) (exact : part.HeightsExact)
    (sides : SidesExact frames)
    (balanced : (BinaryTree.plug (frames.map AvlFrame.frame) spare).Balanced)
    (partBalanced : part.tree.Balanced) (grown : Grown spare.height part) : ∃ part',
      Reshaped label omap (AvlPart.plug frames part) (balanceUp frames.length omap) part' ∧
      AvlFocus label (balanceUp frames.length omap) [] part' ∧ part'.HeightsExact ∧
      part'.tree = BinaryTree.rebalance (frames.map AvlFrame.frame) part.tree := by
  induction lengthEq : frames.length generalizing omap frames part spare with
  | zero =>
      rw [List.eq_nil_of_length_eq_zero lengthEq] at focus ⊢
      exact ⟨part, Reshaped.refl _ _ _, focus, exact, rfl⟩
  | succ count ih =>
      rw [balanceUp_succ]
      rcases focus.updateHeights exact sides with ⟨frames₁, updated, focus₁, same₁, whole, _⟩
      have count₁ : frames₁.length = count + 1 := by
        rw [← lengthEq]
        simpa using congrArg List.length same₁
      rcases frames₁ with _ | ⟨frame, outer⟩
      · cases count₁
      have outerCount : outer.length = count := by simpa using count₁
      rw [← same₁] at balanced
      rcases sides_of_exact whole with ⟨_, sides₁⟩
      have plugExact : (frame.plug part).HeightsExact := (@sides_of_exact outer _ whole).1
      rcases focus₁.balance_grown plugExact (BinaryTree.Balanced.of_plug balanced) partBalanced
        grown with ⟨frames', part', reshaped, focus', sameWay, exact', treeEq, grown'⟩
      have partBalanced' : part'.tree.Balanced := by
        rw [treeEq]
        refine (BinaryTree.Frame.balanced_rebalance (BinaryTree.Balanced.of_plug balanced)
          partBalanced ?_ ?_).1 <;> rcases grown.height_cases with same | grew <;> omega
      rw [outerCount] at reshaped focus'
      have outerBalanced : (BinaryTree.plug (frames'.map AvlFrame.frame)
          (frame.frame.plug spare)).Balanced := by
        rw [sameWay.frames_eq]
        exact balanced
      rcases ih focus' exact' (sameWay.sides (fun frame' mem =>
        sides₁ frame' (List.mem_cons_of_mem _ mem))) outerBalanced partBalanced' grown'
        (sameWay.length_eq.trans outerCount) with ⟨part'', reshaped', focus'', exact'', treeEq'⟩
      refine ⟨part'', (updated.trans reshaped).trans reshaped', focus'', exact'', ?_⟩
      rw [treeEq', treeEq, sameWay.frames_eq, ← same₁]
      rfl

/-- The new leaf is the last local node. -/
theorem AvlLocal.leaf_found {nodes : List AVLLocalNode} {leaf : AVLLocalNode}
    (local_ : AvlLocal label nodes frames (fetched leaf (stored .nil) (stored .nil)))
    (count : nodes.length = frames.length + 1) : nodes[frames.length]? = some leaf := by
  rcases local_.order with ⟨rest, nodesEq, perm⟩
  have restLength : rest.length = 1 := by
    rw [nodesEq] at count
    simpa using count
  have permLength := perm.length_eq
  rcases List.length_eq_one_iff.mp restLength with ⟨only, rfl⟩
  have leafMem : leaf ∈ [only] := perm.mem_iff.mpr (List.mem_cons_self)
  rw [nodesEq, List.getElem?_append_right (by simp)]
  simp [List.mem_singleton.mp leafMem]

theorem grown_leaf (leaf : AVLLocalNode) :
    Grown (BinaryTree.nil : AvlTree).height (fetched leaf (stored .nil) (stored .nil)) := by
  refine ⟨Or.inr rfl, fun _ side => ⟨leaf, stored .nil, stored .nil, ?_, fun inwards => ?_⟩,
    fun _ positive => ?_⟩
  · cases side <;> rfl
  · exact absurd inwards (lt_irrefl _)
  · exact absurd positive (lt_irrefl _)

/-- `update_heights` and `rebalance` after a new leaf has been attached. -/
theorem AvlFocus.rebalance_leaf {leaf : AVLLocalNode}
    (focus : AvlFocus label omap frames (fetched leaf (stored .nil) (stored .nil)))
    (exact : (fetched leaf (stored .nil) (stored .nil)).HeightsExact) (sides : SidesExact frames)
    (count : omap.local_.length = frames.length + 1)
    (balanced : (BinaryTree.plug (frames.map AvlFrame.frame) .nil).Balanced) : ∃ part',
      Reshaped label omap (AvlPart.plug frames (fetched leaf (stored .nil) (stored .nil)))
        omap.updateHeights.rebalance part' ∧
      AvlFocus label omap.updateHeights.rebalance [] part' ∧ part'.HeightsExact ∧
      part'.tree = BinaryTree.rebalance (frames.map AvlFrame.frame)
        (.node (leaf.key, leaf.avl.data) .nil .nil) := by
  rcases focus.updateHeights exact sides with ⟨frames₁, updated₁, focus₁, same₁, whole₁, _⟩
  rcases sides_of_exact whole₁ with ⟨_, sides₁⟩
  rcases focus₁.updateHeights exact sides₁ with ⟨frames₂, updated₂, focus₂, same₂, whole₂, _⟩
  have count₁ : omap.updateHeights.local_.length = frames₂.length + 1 := by
    rw [updated₁.length, count, ← List.length_map AvlFrame.frame, ← same₁, ← same₂,
      List.length_map]
  have even : omap.updateHeights.updateHeights.balanceNode frames₂.length =
      omap.updateHeights.updateHeights := by
    refine AVLOmap.balanceNode_even (focus₂.local_.leaf_found ?_) ?_ ?_
    · rw [updated₂.length, count₁]
    · rw [exact.1, exact.2.1]
      simp [AvlPart.tree]
    · rw [exact.1, exact.2.1]
      simp [AvlPart.tree]
  have rebalanceEq : omap.updateHeights.rebalance =
      (TieredOmap.balanceUp frames₂.length omap.updateHeights.updateHeights).updateHeights := by
    change (TieredOmap.balanceUp omap.updateHeights.local_.length
      omap.updateHeights).updateHeights = _
    rw [count₁, balanceUp_succ, even]
  rw [← same₁, ← same₂] at balanced
  rcases focus₂.balanceUp exact (sides_of_exact whole₂).2 balanced ⟨by decide, by decide, trivial,
    trivial⟩ (grown_leaf leaf) with ⟨part', reshaped, focus', exact', treeEq⟩
  rcases focus'.updateHeights exact' (fun frame mem => (List.not_mem_nil mem).elim) with
    ⟨frames₃, updated₃, focus₃, same₃, whole₃, _⟩
  rw [List.map_nil, List.map_eq_nil_iff] at same₃
  subst same₃
  rw [rebalanceEq]
  refine ⟨part', ((updated₁.trans updated₂).trans reshaped).trans updated₃, focus₃, exact', ?_⟩
  rw [treeEq, same₂, same₁]
  rfl

end TieredOmap
