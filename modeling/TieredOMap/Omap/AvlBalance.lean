import TieredOMap.Omap.AvlRotate

/-!
# Rebalancing local nodes

`updateHeights` goes through the local nodes from the last to the first. Below the
focus and beside the way up all heights are right already, so the nodes of the way
up get theirs one after the other. `balanceNode` then is the library's `balanceOn`,
if the nodes it lifts are local.
-/

namespace TieredOmap

open AvlPart

/-! ## Heights -/

/-- The height that the local nodes give for a key. -/
def heightIn (nodes : List AVLLocalNode) (key height : Int) : Int :=
  nodes.foldl (fun height child => if child.key = key then child.avl.height else height) height

section Heights

variable {label : Int → Int} {nodes : List AVLLocalNode} {node : AVLLocalNode} {part : AvlPart}

theorem heightIn_of_notMem {key : Int} (notMem : key ∉ nodes.map AVLLocalNode.key) (height : Int) :
    heightIn nodes key height = height := by
  induction nodes generalizing height with
  | nil => rfl
  | cons head rest ih =>
      rw [List.map_cons, List.mem_cons, not_or] at notMem
      rw [heightIn, List.foldl_cons, if_neg (Ne.symm notMem.1)]
      exact ih notMem.2 height

theorem heightIn_of_mem (nodup : (nodes.map AVLLocalNode.key).Nodup) (mem : node ∈ nodes)
    (height : Int) : heightIn nodes node.key height = node.avl.height := by
  induction nodes generalizing height with
  | nil => cases mem
  | cons head rest ih =>
      rw [List.map_cons, List.nodup_cons] at nodup
      rw [heightIn, List.foldl_cons]
      rcases List.mem_cons.mp mem with rfl | inRest
      · rw [if_pos rfl]
        exact heightIn_of_notMem nodup.1 _
      · exact ih nodup.2 inRest _

theorem refreshHeights_eq (nodes : List AVLLocalNode) (node : AVLLocalNode) :
    AVLOmap.refreshHeights nodes node = { node with avl := { node.avl with
      lHeight := heightIn nodes node.avl.lKey node.avl.lHeight
      rHeight := heightIn nodes node.avl.rKey node.avl.rHeight } } := by
  induction nodes generalizing node with
  | nil => rfl
  | cons head rest ih =>
      rw [AVLOmap.refreshHeights, List.foldl_cons, ← AVLOmap.refreshHeights, ih]
      simp only [heightIn, List.foldl_cons]
      by_cases isLeft : head.key = node.avl.lKey
      · rw [if_pos isLeft, if_pos isLeft]
        by_cases isRight : head.key = node.avl.rKey
        · rw [if_pos isRight, if_pos isRight]
        · rw [if_neg isRight, if_neg isRight]
      · rw [if_neg isLeft, if_neg isLeft]
        by_cases isRight : head.key = node.avl.rKey
        · rw [if_pos isRight, if_pos isRight]
        · rw [if_neg isRight, if_neg isRight]

theorem child_refreshHeights (nodes : List AVLLocalNode) (node : AVLLocalNode) (side : Bool) :
    (AVLOmap.refreshHeights nodes node).avl.child side = { node.avl.child side with
      height := heightIn nodes (node.avl.child side).key (node.avl.child side).height } := by
  rw [refreshHeights_eq]
  cases side <;> rfl

/-- The local nodes of a part are in a list, and what is stored of it is not. -/
structure Within (nodes : List AVLLocalNode) (part : AvlPart) : Prop where
  nodup : (nodes.map AVLLocalNode.key).Nodup
  noInvalid : invalidKey ∉ nodes.map AVLLocalNode.key
  sub : part.nodes ⊆ nodes
  notLocal : ∀ key ∈ part.storedKeys, key ∉ nodes.map AVLLocalNode.key

/-- For a part below a node the local nodes give its height. -/
theorem Within.heightIn_eq {ptr : ChildPtr} (within : Within nodes part)
    (ptrOk : part.PtrOk label ptr) (exact : part.HeightsExact) :
    heightIn nodes ptr.key ptr.height = part.tree.height := by
  cases part with
  | stored tree =>
      have ptrEq : ptr = tree.ptr label := ptrOk
      have notMem : ptr.key ∉ nodes.map AVLLocalNode.key := by
        cases tree with
        | nil => exact ptrEq ▸ within.noInvalid
        | node entry left right => exact ptrEq ▸ within.notLocal entry.1 (by simp [storedKeys])
      rw [heightIn_of_notMem notMem, ptrEq]
      exact AvlTree.ptr_height label tree
  | fetched node left right =>
      have isRoot : ptr.key = node.key := ptrOk
      rw [isRoot, heightIn_of_mem within.nodup (within.sub (by simp [AvlPart.nodes]))]
      exact height_of_exact exact

theorem Within.ptrOk_refreshed {ptr : ChildPtr} (within : Within nodes part)
    (ptrOk : part.PtrOk label ptr) (exact : part.HeightsExact) :
    part.PtrOk label { ptr with height := heightIn nodes ptr.key ptr.height } := by
  cases part with
  | stored tree =>
      have ptrEq : ptr = tree.ptr label := ptrOk
      have sameHeight : ptr.height = tree.height := by rw [ptrEq, AvlTree.ptr_height]
      rw [within.heightIn_eq ptrOk exact, AvlPart.tree, ← sameHeight]
      exact ptrEq
  | fetched node left right => exact ptrOk

/-- In a part with the right heights there is nothing to refresh. -/
theorem Within.refreshHeights_eq_self (within : Within nodes part) (linked : part.Linked label)
    (exact : part.HeightsExact) (mem : node ∈ part.nodes) :
    AVLOmap.refreshHeights nodes node = node := by
  induction part with
  | stored tree => cases mem
  | fetched root left right ihLeft ihRight =>
      rcases linked with ⟨leftPtr, rightPtr, _, _, leftLinked, rightLinked⟩
      rcases exact with ⟨leftHeight, rightHeight, leftExact, rightExact⟩
      have leftWithin : Within nodes left := ⟨within.nodup, within.noInvalid,
        fun _ mem => within.sub (by simp [AvlPart.nodes, mem]),
        fun key mem => within.notLocal key (List.mem_append_left _ mem)⟩
      have rightWithin : Within nodes right := ⟨within.nodup, within.noInvalid,
        fun _ mem => within.sub (by simp [AvlPart.nodes, mem]),
        fun key mem => within.notLocal key (List.mem_append_right _ mem)⟩
      rw [AvlPart.nodes, List.mem_cons, List.mem_append] at mem
      rcases mem with rfl | inLeft | inRight
      · have leftSame := leftWithin.heightIn_eq leftPtr leftExact
        have rightSame := rightWithin.heightIn_eq rightPtr rightExact
        rw [← leftHeight] at leftSame
        rw [← rightHeight] at rightSame
        simp only [AVLNodeData.child] at leftSame rightSame
        rw [refreshHeights_eq, leftSame, rightSame]
      · exact ihLeft leftWithin leftLinked leftExact inLeft
      · exact ihRight rightWithin rightLinked rightExact inRight

theorem AvlLocal.within {frames : List AvlFrame} (local_ : AvlLocal label nodes frames part) :
    Within nodes part := by
  refine ⟨local_.nodup_keys, local_.key_ne_invalid, fun node mem => ?_,
    fun key => local_.notMem_of_stored⟩
  rw [local_.perm.mem_iff]
  exact List.mem_append_right _ (List.mem_append_left _ mem)

theorem AvlLocal.within_sibling {frames : List AvlFrame} {frame : AvlFrame}
    (local_ : AvlLocal label nodes frames part) (mem : frame ∈ frames) :
    Within nodes frame.sibling := by
  refine ⟨local_.nodup_keys, local_.key_ne_invalid, fun node mem' => ?_,
    fun key => local_.notMem_of_sibling mem⟩
  rw [local_.perm.mem_iff]
  exact List.mem_append_right _ (List.mem_append_right _ (List.mem_flatMap.mpr ⟨frame, mem, mem'⟩))

end Heights

/-! ## The sweep over the local nodes -/

section Sweep

variable {label : Int → Int} {nodes : List AVLLocalNode} {frames : List AvlFrame} {part : AvlPart}

/-- Refresh the first nodes, starting with the last of them. -/
def sweep (count : Nat) (nodes : List AVLLocalNode) : List AVLLocalNode :=
  (List.range count).reverse.foldl
    (fun nodes i => nodes.modify i (AVLOmap.refreshHeights nodes)) nodes

theorem sweep_succ (count : Nat) (nodes : List AVLLocalNode) : sweep (count + 1) nodes =
    sweep count (nodes.modify count (AVLOmap.refreshHeights nodes)) := by
  rw [sweep, List.range_succ, List.reverse_append, List.foldl_append]
  rfl

/-- Beyond the way up there is nothing to refresh. -/
theorem AvlLocal.sweep_eq (local_ : AvlLocal label nodes frames part) (exact : part.HeightsExact)
    (sides : SidesExact frames) {count : Nat} (le : frames.length ≤ count) :
    sweep count nodes = sweep frames.length nodes := by
  induction count, le using Nat.le_induction with
  | base => rfl
  | succ count le ih =>
      rw [sweep_succ]
      suffices kept : nodes.modify count (AVLOmap.refreshHeights nodes) = nodes by
        rw [kept, ih]
      rcases found : nodes[count]? with _ | node
      · rw [List.modify_eq_self]
        exact List.getElem?_eq_none_iff.mp found
      have refreshed : AVLOmap.refreshHeights nodes node = node := by
        rcases local_.order with ⟨rest, order, restPerm⟩
        have mem : node ∈ rest := by
          rw [order, List.getElem?_append_right (by simpa using le)] at found
          exact List.mem_of_getElem? found
        rcases List.mem_append.mp (restPerm.mem_iff.mp mem) with inPart | beside
        · exact local_.within.refreshHeights_eq_self local_.linked exact inPart
        · rcases List.mem_flatMap.mp beside with ⟨frame, frameMem, mem⟩
          exact (local_.within_sibling frameMem).refreshHeights_eq_self
            (local_.spine.sibling_linked frameMem) (sides frame frameMem).2 mem
      rw [List.modify_eq_set_getElem?, found]
      change nodes.set count (AVLOmap.refreshHeights nodes node) = nodes
      rw [refreshed]
      exact set_of_getElem? found

/-- The innermost frame gets its heights. -/
theorem AvlLocal.refreshFrame {frame : AvlFrame} (local_ : AvlLocal label nodes (frame :: frames) part)
    (exact : part.HeightsExact) (siblingExact : frame.sibling.HeightsExact) : ∃ node,
      nodes.modify frames.length (AVLOmap.refreshHeights nodes) = nodes.set frames.length node ∧
      node.slot = frame.node.slot ∧
      ({ frame with node } : AvlFrame).frame = frame.frame ∧
      AvlLocal label (nodes.set frames.length node) ({ frame with node } :: frames) part ∧
      (AvlFrame.plug { frame with node } part).HeightsExact := by
  have isNext := local_.isNext
  rcases local_.spine with ⟨ptrOk, _, siblingPtr, _⟩
  have siblingWithin := local_.within_sibling List.mem_cons_self
  obtain ⟨node, nodeEq⟩ : ∃ node, node = AVLOmap.refreshHeights nodes frame.node := ⟨_, rfl⟩
  have child : ∀ side, node.avl.child side = { frame.node.avl.child side with
      height := heightIn nodes (frame.node.avl.child side).key
        (frame.node.avl.child side).height } := by
    intro side
    rw [nodeEq, child_refreshHeights]
  refine ⟨node, ?_, ?_, ?_, local_.setFrame ?_ ?_ ?_ ?_,
    heightsExact_fetchedOn.mpr ⟨?_, ?_, exact, siblingExact⟩⟩
  · rw [List.modify_eq_set_getElem?, isNext, nodeEq]
    rfl
  · rw [nodeEq, refreshHeights_eq]
    rfl
  · rw [AvlFrame.frame, AvlFrame.frame, nodeEq, refreshHeights_eq]
  · rw [nodeEq, refreshHeights_eq]
  · rw [nodeEq, refreshHeights_eq]
  · rw [child]
    exact local_.within.ptrOk_refreshed ptrOk exact
  · rw [child]
    exact siblingWithin.ptrOk_refreshed siblingPtr siblingExact
  · rw [child]
    exact local_.within.heightIn_eq ptrOk exact
  · rw [child]
    exact siblingWithin.heightIn_eq siblingPtr siblingExact

/-- The way up gets its heights. -/
theorem AvlLocal.sweep_spine (local_ : AvlLocal label nodes frames part)
    (exact : part.HeightsExact) (sides : SidesExact frames) : ∃ frames',
      AvlLocal label (sweep frames.length nodes) frames' part ∧
      frames'.map AvlFrame.frame = frames.map AvlFrame.frame ∧
      frames'.map AvlFrame.sibling = frames.map AvlFrame.sibling ∧
      (plug frames' part).HeightsExact ∧
      (sweep frames.length nodes).map AVLLocalNode.slot = nodes.map AVLLocalNode.slot ∧
      (sweep frames.length nodes).drop frames.length = nodes.drop frames.length := by
  induction frames generalizing nodes part with
  | nil => exact ⟨[], local_, rfl, rfl, exact, rfl, rfl⟩
  | cons frame frames ih =>
      have isNext := local_.isNext
      rcases local_.refreshFrame exact (sides frame List.mem_cons_self).2 with
        ⟨node, modified, sameSlot, sameFrame, changed, plugExact⟩
      rcases ih changed.pop plugExact (fun frame mem => sides frame (List.mem_cons_of_mem _ mem)) with
        ⟨frames', local_', sameFrames, sameSiblings, wholeExact, slots, sameDrop⟩
      rw [List.length_cons, sweep_succ, modified]
      have sameLength : frames'.length = frames.length := by
        simpa using congrArg List.length sameFrames
      refine ⟨{ frame with node } :: frames', local_'.push ?_, ?_, ?_, wholeExact, slots.trans ?_, ?_⟩
      · have dropped := congrArg (fun nodes => nodes[0]?) sameDrop
        simp only [List.getElem?_drop, Nat.add_zero] at dropped
        rw [sameLength, dropped, List.getElem?_set_self]
        exact (List.getElem?_eq_some_iff.mp isNext).1
      · rw [List.map_cons, List.map_cons, sameFrames, sameFrame]
      · rw [List.map_cons, List.map_cons, sameSiblings]
      · rw [List.map_set]
        refine set_of_getElem? ?_
        rw [List.getElem?_map, isNext, sameSlot]
        rfl
      · have dropped := congrArg (List.drop 1) sameDrop
        rw [List.drop_drop, List.drop_drop, List.drop_set_of_lt (by omega)] at dropped
        exact dropped

/-- Right heights at the focus and beside the way up. -/
theorem AvlPart.sides_of_exact (exact : (plug frames part).HeightsExact) :
    part.HeightsExact ∧ SidesExact frames := by
  induction frames generalizing part with
  | nil => exact ⟨exact, fun frame mem => (List.not_mem_nil mem).elim⟩
  | cons frame frames ih =>
      rcases ih exact with ⟨plugExact, sides⟩
      rcases heightsExact_fetchedOn.mp plugExact with ⟨_, siblingHeight, partExact, siblingExact⟩
      refine ⟨partExact, ?_⟩
      intro frame' mem
      rcases List.mem_cons.mp mem with rfl | isOuter
      · exact ⟨siblingHeight, siblingExact⟩
      · exact sides frame' isOuter

/-- `updateHeights` with right heights at the focus and beside the way up. -/
theorem AvlFocus.updateHeights {omap : AVLOmap} (focus : AvlFocus label omap frames part)
    (exact : part.HeightsExact) (sides : SidesExact frames) : ∃ frames',
      Reshaped label omap (plug frames part) omap.updateHeights (plug frames' part) ∧
      AvlFocus label omap.updateHeights frames' part ∧
      frames'.map AvlFrame.frame = frames.map AvlFrame.frame ∧
      (plug frames' part).HeightsExact ∧
      frames'.map AvlFrame.sibling = frames.map AvlFrame.sibling := by
  rcases focus.local_.sweep_spine exact sides with
    ⟨frames', local_, sameFrames, sameSiblings, wholeExact, slots, _⟩
  have le : frames.length ≤ omap.local_.length := by
    rcases focus.local_.order with ⟨rest, order, _⟩
    rw [order]
    simp
  have updated : omap.updateHeights.local_ = sweep frames.length omap.local_ :=
    focus.local_.sweep_eq exact sides le
  refine ⟨frames', ⟨rfl, updated ▸ slots, ?_⟩, ⟨updated ▸ local_, ?_⟩, sameFrames, wholeExact,
    sameSiblings⟩
  · intro place half
    rw [blocks_plug, blocks_plug, sameSiblings]
  · have rootKey := focus.rootKey
    rw [tree_plug, ← sameFrames, ← tree_plug] at rootKey
    exact rootKey

end Sweep

/-! ## Balancing one node -/

section Balance

variable {label : Int → Int} {frames : List AvlFrame} {side : Bool} {node : AVLLocalNode}

namespace AVLOmap

variable {omap : AVLOmap} {idx : Nat}

/-- The balance of a child that leans away from the side it is on. -/
def leansIn (side : Bool) (balance : Int) : Bool :=
  if side then balance < 0 else 0 < balance

theorem leansIn_balance (side : Bool) (avl : AVLNodeData) :
    leansIn side avl.balance = decide ((avl.child side).height < (avl.child !side).height) := by
  cases side
  · refine decide_eq_decide.mpr ?_
    change 0 < avl.lHeight - avl.rHeight ↔ avl.rHeight < avl.lHeight
    omega
  · refine decide_eq_decide.mpr ?_
    change avl.lHeight - avl.rHeight < 0 ↔ avl.lHeight < avl.rHeight
    omega

theorem balanceNode_tall (found : omap.local_[idx]? = some node)
    (tall : (node.avl.child !side).height + 1 < (node.avl.child side).height) :
    omap.balanceNode idx =
      (omap.rotateAt? side (omap.leaningIdx (node.avl.child side).key (leansIn side))).rotate idx
        (!side) := by
  have nodeEq : omap.local_.getD idx default = node := by
    rw [List.getD_eq_getElem?_getD, found]
    rfl
  unfold AVLOmap.balanceNode
  dsimp only
  rw [nodeEq]
  cases side
  · have notLeft : ¬ 1 < node.avl.balance := by
      change node.avl.lHeight + 1 < node.avl.rHeight at tall
      rw [AVLNodeData.balance]
      omega
    have isRight : node.avl.balance < -1 := by
      change node.avl.lHeight + 1 < node.avl.rHeight at tall
      rw [AVLNodeData.balance]
      omega
    rw [if_neg notLeft, if_pos isRight]
    rfl
  · have isLeft : 1 < node.avl.balance := by
      change node.avl.rHeight + 1 < node.avl.lHeight at tall
      rw [AVLNodeData.balance]
      omega
    rw [if_pos isLeft]
    rfl

theorem balanceNode_even (found : omap.local_[idx]? = some node)
    (leftLe : (node.avl.child true).height ≤ (node.avl.child false).height + 1)
    (rightLe : (node.avl.child false).height ≤ (node.avl.child true).height + 1) :
    omap.balanceNode idx = omap := by
  have nodeEq : omap.local_.getD idx default = node := by
    rw [List.getD_eq_getElem?_getD, found]
    rfl
  have balanceEq : node.avl.balance =
      (node.avl.child true).height - (node.avl.child false).height := rfl
  unfold AVLOmap.balanceNode
  dsimp only
  rw [nodeEq, balanceEq, if_neg (by omega), if_neg (by omega)]

end AVLOmap

/-- The nodes that a rotation at a tall child lifts are local. -/
def Liftable (side : Bool) (tall : AvlPart) : Prop :=
  ∃ pivot inner outer, tall = fetchedOn (!side) pivot inner outer ∧
    (outer.tree.height < inner.tree.height → ∃ middle low high, inner = fetchedOn side middle low high)

/-- The inner rotation, if the tall child leans inwards. -/
theorem AvlFocus.straighten {omap : AVLOmap} {tall other : AvlPart}
    (focus : AvlFocus label omap frames (fetchedOn side node tall other))
    (exact : (fetchedOn side node tall other).HeightsExact)
    (found : omap.local_[frames.length]? = some node) (liftable : Liftable side tall) :
    ∃ omap' node' pivot inner outer,
      omap.rotateAt? side (omap.leaningIdx (node.avl.child side).key (AVLOmap.leansIn side)) =
        omap' ∧
      Reshaped label omap (plug frames (fetchedOn side node tall other)) omap'
        (plug frames (fetchedOn side node' (fetchedOn (!side) pivot inner outer) other)) ∧
      AvlFocus label omap' frames
        (fetchedOn side node' (fetchedOn (!side) pivot inner outer) other) ∧
      (fetchedOn side node' (fetchedOn (!side) pivot inner outer) other).HeightsExact ∧
      omap'.local_[frames.length]? = some node' ∧
      (node'.key, node'.avl.data) = (node.key, node.avl.data) ∧
      (fetchedOn (!side) pivot inner outer).tree = BinaryTree.straighten side tall.tree := by
  rcases liftable with ⟨pivot, inner, outer, rfl, innerLocal⟩
  have local_ := focus.local_
  have isPivot : (node.avl.child side).key = pivot.key :=
    ptrOk_fetchedOn.mp (linked_fetchedOn.mp local_.linked).1
  have pivotMem : pivot ∈ omap.local_ := by
    refine local_.perm.mem_iff.mpr (List.mem_append_right _ (List.mem_append_left _ ?_))
    exact (AvlLocal.nodes_rotatable _ _ _ _ _ _).mem_iff.mpr (by simp)
  rcases heightsExact_fetchedOn.mp exact with ⟨_, otherHeight, pivotExact, otherExact⟩
  rcases heightsExact_fetchedOn.mp pivotExact with ⟨innerHeight, outerHeight, _, _⟩
  rw [Bool.not_not] at outerHeight
  have idxEq := findIdx?_key local_.nodup_keys pivotMem
    (fun child => AVLOmap.leansIn side child.avl.balance)
  have leans : AVLOmap.leansIn side pivot.avl.balance =
      decide (outer.tree.height < inner.tree.height) := by
    rw [AVLOmap.leansIn_balance, outerHeight, innerHeight]
    exact decide_eq_decide.mpr Nat.cast_lt
  have leansTree : BinaryTree.leansTo (!side) (fetchedOn (!side) pivot inner outer).tree =
      decide (outer.tree.height < inner.tree.height) := by
    rw [tree_fetchedOn, BinaryTree.leansTo_nodeOn]
  rw [isPivot, BinaryTree.straighten, leansTree]
  rw [leans] at idxEq
  by_cases isInner : outer.tree.height < inner.tree.height
  · rw [if_pos (by simpa using isInner)] at idxEq ⊢
    rcases idxEq with ⟨pivotIdx, pivotIdxEq, pivotFound⟩
    rcases innerLocal isInner with ⟨middle, low, high, rfl⟩
    have pushed : AvlFocus label omap (⟨node, side, other⟩ :: frames)
        (fetchedOn (!side) pivot (fetchedOn (!!side) middle low high) outer) := by
      rw [Bool.not_not]
      exact ⟨local_.push found, focus.rootKey⟩
    have pivotExact' : (fetchedOn (!side) pivot (fetchedOn (!!side) middle low high)
        outer).HeightsExact := by
      rw [Bool.not_not]
      exact pivotExact
    rcases pushed.rotate pivotExact' pivotFound with
      ⟨ptr, down, up, reshaped, focus', exact', ptrHeight, treeEq⟩
    have partEq : AvlLocal.rotated (!side) down up low high outer =
        fetchedOn (!side) up high (fetchedOn (!side) down (low.setParent down.key) outer) := by
      rw [AvlLocal.rotated, Bool.not_not]
      exact (fetchedOn_not side up high _).symm
    rw [partEq] at reshaped focus' exact' ptrHeight treeEq
    rw [Bool.not_not] at reshaped focus' treeEq
    refine ⟨_, { node with avl := node.avl.setChild side ptr }, up, high, _, ?_, reshaped,
      ⟨focus'.local_.pop, focus'.rootKey⟩, ?_, focus'.local_.isNext, ?_, treeEq⟩
    · rw [AVLOmap.leaningIdx, pivotIdxEq]
      rfl
    · refine heightsExact_fetchedOn.mpr ⟨?_, ?_, exact', otherExact⟩
      · simpa using ptrHeight
      · simpa using otherHeight
    · simp
  · rw [if_neg (by simpa using isInner)] at idxEq ⊢
    refine ⟨omap, node, pivot, inner, outer, ?_, Reshaped.refl _ _ _, focus, exact, found, rfl, rfl⟩
    rw [AVLOmap.leaningIdx, idxEq]
    rfl

/-- The same way up, with at most other pointers at the focus. -/
structure SameWay (frames frames' : List AvlFrame) : Prop where
  frames_eq : frames'.map AvlFrame.frame = frames.map AvlFrame.frame
  sides : SidesExact frames → SidesExact frames'
  siblings : frames'.map AvlFrame.sibling = frames.map AvlFrame.sibling

theorem SameWay.refl (frames : List AvlFrame) : SameWay frames frames := ⟨rfl, id, rfl⟩

theorem SameWay.trans {frames' frames'' : List AvlFrame} (first : SameWay frames frames')
    (second : SameWay frames' frames'') : SameWay frames frames'' :=
  ⟨second.frames_eq.trans first.frames_eq, fun exact => second.sides (first.sides exact),
    second.siblings.trans first.siblings⟩

theorem SameWay.length_eq {frames' : List AvlFrame} (same : SameWay frames frames') :
    frames'.length = frames.length := by
  simpa using congrArg List.length same.frames_eq

theorem sameWay_refocus (ptr : ChildPtr) (frames : List AvlFrame) :
    SameWay frames (refocus ptr frames) := by
  refine ⟨map_frame_refocus ptr frames, fun sides => ?_, siblings_refocus ptr frames⟩
  cases frames with
  | nil => exact sides
  | cons frame frames =>
      intro frame' mem
      rcases List.mem_cons.mp mem with rfl | isOuter
      · have exact := sides frame List.mem_cons_self
        refine ⟨?_, exact.2⟩
        rw [AvlFrame.refocus, AVLNodeData.child_setChild_not]
        exact exact.1
      · exact sides frame' (List.mem_cons_of_mem _ isOuter)

/-- `balance_node` at a node with a child that is too high. -/
theorem AvlFocus.balanceNode_tall {omap : AVLOmap} {tall other : AvlPart}
    (focus : AvlFocus label omap frames (fetchedOn side node tall other))
    (exact : (fetchedOn side node tall other).HeightsExact)
    (found : omap.local_[frames.length]? = some node) (liftable : Liftable side tall)
    (isTall : other.tree.height + 1 < tall.tree.height) : ∃ frames' part,
      Reshaped label omap (plug frames (fetchedOn side node tall other))
        (omap.balanceNode frames.length) (plug frames' part) ∧
      AvlFocus label (omap.balanceNode frames.length) frames' part ∧
      SameWay frames frames' ∧ part.HeightsExact ∧
      part.tree = BinaryTree.balanceOn side (node.key, node.avl.data) tall.tree other.tree := by
  rcases heightsExact_fetchedOn.mp exact with ⟨tallHeight, otherHeight, _, _⟩
  rw [AVLOmap.balanceNode_tall found (by rw [tallHeight, otherHeight]; omega)]
  rcases focus.straighten exact found liftable with
    ⟨omap', node', pivot, inner, outer, rfl, reshaped, focus', exact', found', sameNode, treeEq⟩
  rcases focus'.rotate exact' found' with
    ⟨ptr, down, up, reshaped', focus'', exact'', _, treeEq'⟩
  refine ⟨_, _, reshaped.trans reshaped', focus'', sameWay_refocus ptr frames, exact'', ?_⟩
  rw [treeEq', tree_fetchedOn, treeEq, sameNode, BinaryTree.balanceOn, if_pos isTall]

end Balance

end TieredOmap
