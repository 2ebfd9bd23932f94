import TieredOMap.Omap.AvlDelete

/-!
# The way back up

After a deletion every node of the path is visited once more, from the bottom
up. Where a subtree has become too low, its sibling and perhaps the sibling's
inner child are fetched and rotated; everywhere else there are dummy accesses.
-/

namespace TieredOmap

open AvlPart

/-! ## Local nodes by their keys -/

section Keys

variable {omap : AVLOmap} {nodes : List AVLLocalNode} {node : AVLLocalNode} {idx : Nat}

theorem find?_key (nodup : (nodes.map AVLLocalNode.key).Nodup) (mem : node ∈ nodes) :
    nodes.find? (fun other => other.key == node.key) = some node := by
  induction nodes with
  | nil => cases mem
  | cons head rest ih =>
      rcases List.nodup_cons.mp nodup with ⟨notMem, restNodup⟩
      rcases List.mem_cons.mp mem with rfl | below
      · exact List.find?_cons_of_pos (beq_self_eq_true _)
      · have differs : (head.key == node.key) = false := by
          refine beq_eq_false_iff_ne.mpr (fun same => notMem ?_)
          rw [same]
          exact List.mem_map_of_mem below
        rw [List.find?_cons_of_neg (by rw [differs]; exact Bool.false_ne_true)]
        exact ih restNodup below

theorem AVLOmap.localIdx_of_getElem? (nodup : (omap.local_.map AVLLocalNode.key).Nodup)
    (found : omap.local_[idx]? = some node) : omap.localIdx node.key = some idx := by
  rcases AVLOmap.localIdx_eq nodup (List.mem_of_getElem? found) with ⟨idx', isIdx, found'⟩
  rw [isIdx]
  refine congrArg some ?_
  have lt : idx' < (omap.local_.map AVLLocalNode.key).length := by
    rw [List.length_map]
    exact (List.getElem?_eq_some_iff.mp found').1
  refine (List.getElem?_inj lt nodup).mp ?_
  rw [List.getElem?_map, List.getElem?_map, found, found']

end Keys

/-! ## One node of the way -/

section Climb

variable [Cipher] {label : Int → Int} {level : Nat} {omap : AVLOmap} {frame : AvlFrame}
  {frames : List AvlFrame} {part : AvlPart}

/-- The way back up: below the focus all heights are right, beside it everything is stored. -/
structure Climbing (label : Int → Int) (level : Nat) (omap : AVLOmap) (frames : List AvlFrame)
    (part : AvlPart) : Prop where
  op : AvlOp label level omap frames part
  exact : part.HeightsExact
  sides : SidesExact frames
  storedSides : StoredSides frames

theorem Deleted.climbing {tree : AvlTree} (deleted : Deleted label level omap frames tree) :
    Climbing label level omap frames (stored tree) :=
  ⟨deleted.op, trivial, deleted.sides, deleted.storedSides⟩

/-- Dummy accesses on the way. -/
theorem Climbing.ends_dummies (climbing : Climbing label level omap frames part) (depth : Int) :
    Ends (do
        let omap ← omap.trackedDummy depth
        omap.trackedDummy depth)
      (fun omap' => Climbing label level omap' frames part ∧
        omap'.maxHeight = omap.maxHeight) := by
  refine Prog.ends_bind (AVLOmap.ends_trackedDummy climbing.op.whole climbing.op.holds depth) ?_
  intro omap₁ quiet₁
  have op₁ := climbing.op.quiet quiet₁
  refine (AVLOmap.ends_trackedDummy op₁.whole op₁.holds depth).mono ?_
  intro omap₂ quiet₂
  refine ⟨⟨op₁.quiet quiet₂, climbing.exact, climbing.sides, climbing.storedSides⟩, ?_⟩
  rcases quiet₁ with ⟨_, _, rfl, _⟩
  rcases quiet₂ with ⟨_, _, rfl, _⟩
  rfl

/-- The node of the innermost frame learns the heights of its children. -/
theorem Climbing.refreshed (climbing : Climbing label level omap (frame :: frames) part) :
    ∃ node, omap.localIdx frame.node.key = some frames.length ∧
      omap.local_.modify frames.length (AVLOmap.refreshHeights omap.local_) =
        omap.local_.set frames.length node ∧
      ({ frame with node } : AvlFrame).frame = frame.frame ∧
      Climbing label level { omap with local_ := omap.local_.set frames.length node }
        ({ frame with node } :: frames) part ∧
      (AvlFrame.plug { frame with node } part).HeightsExact := by
  have op := climbing.op
  have local_ := op.focus.local_
  rcases local_.refreshFrame climbing.exact (climbing.sides frame List.mem_cons_self).2 with
    ⟨node, modified, sameSlot, sameFrame, changed, plugExact⟩
  have sameTree : (plug ({ frame with node } :: frames) part).tree =
      (plug (frame :: frames) part).tree := by
    rw [AvlPart.tree_plug, AvlPart.tree_plug, List.map_cons, sameFrame, List.map_cons]
  have slots : (omap.local_.set frames.length node).map AVLLocalNode.slot =
      omap.local_.map AVLLocalNode.slot := by
    rw [List.map_set]
    refine set_of_getElem? ?_
    rw [List.getElem?_map, local_.isNext, sameSlot]
    rfl
  have reshaped : Reshaped label omap (plug (frame :: frames) part)
      { omap with local_ := omap.local_.set frames.length node }
      (plug ({ frame with node } :: frames) part) := by
    refine ⟨rfl, slots, fun place half => ?_⟩
    rw [blocks_plug, blocks_plug]
    rfl
  have focus : AvlFocus label { omap with local_ := omap.local_.set frames.length node }
      ({ frame with node } :: frames) part :=
    ⟨changed, by rw [sameTree]; exact op.focus.rootKey⟩
  have nonempty : omap.local_ ≠ [] := by
    intro isNil
    have isNext := local_.isNext
    rw [isNil] at isNext
    cases isNext
  refine ⟨node, AVLOmap.localIdx_of_getElem? local_.nodup_keys local_.isNext, modified, sameFrame,
    ⟨op.reshaped reshaped focus (fun key mem => sameTree ▸ mem) ?_ nonempty, climbing.exact, ?_, ?_⟩,
    plugExact⟩
  · rw [sameTree]
    exact op.fits.height_lt
  · intro frame' mem
    rcases List.mem_cons.mp mem with rfl | above
    · rcases heightsExact_fetchedOn.mp plugExact with ⟨_, siblingHeight, _, siblingExact⟩
      exact ⟨siblingHeight, siblingExact⟩
    · exact climbing.sides frame' (List.mem_cons_of_mem _ above)
  · intro frame' mem
    rcases List.mem_cons.mp mem with rfl | above
    · exact climbing.storedSides frame List.mem_cons_self
    · exact climbing.storedSides frame' (List.mem_cons_of_mem _ above)

omit [Cipher] in
theorem storedSides_congr {frames' : List AvlFrame}
    (same : frames'.map AvlFrame.sibling = frames.map AvlFrame.sibling)
    (storedSides : StoredSides frames) : StoredSides frames' := by
  intro frame' mem
  have siblingMem : frame'.sibling ∈ frames.map AvlFrame.sibling := by
    rw [← same]
    exact List.mem_map_of_mem mem
  rcases List.mem_map.mp siblingMem with ⟨frame, frameMem, siblingEq⟩
  rcases storedSides frame frameMem with ⟨tree, isStored⟩
  exact ⟨tree, siblingEq.symm.trans isStored⟩

omit [Cipher] in
/-- The same tree around a focus with the same entries. -/
theorem keys_plug_congr {frames' : List AvlFrame} {part' : AvlPart}
    (sameFrames : frames'.map AvlFrame.frame = frames.map AvlFrame.frame)
    (sameList : part'.tree.toList = part.tree.toList) :
    (plug frames' part').tree.keys = (plug frames part).tree.keys := by
  rw [AvlTree.keys, AvlTree.keys, AvlPart.tree_plug, AvlPart.tree_plug, sameFrames,
    BinaryTree.toList_plug, BinaryTree.toList_plug, sameList]

/-- The rotations at a node whose tall child, and what a rotation lifts of it, is local. -/
theorem AvlOp.rebalanced {side : Bool} {node : AVLLocalNode} {tall other : AvlPart}
    (op : AvlOp label level omap frames (fetchedOn side node tall other))
    (exact : (fetchedOn side node tall other).HeightsExact) (sides : SidesExact frames)
    (storedSides : StoredSides frames) (isNext : omap.local_[frames.length]? = some node)
    (liftable : Liftable side tall) (tallBalanced : tall.tree.Balanced)
    (otherBalanced : other.tree.Balanced)
    (isTall : tall.tree.height = other.tree.height + 2) : ∃ idx frames' part,
      omap.updateHeights.localIdx node.key = some idx ∧
      (omap.updateHeights.balanceNode idx).updateHeights.maxHeight = omap.maxHeight ∧
      Climbing label level (omap.updateHeights.balanceNode idx).updateHeights frames' part ∧
      frames'.map AvlFrame.frame = frames.map AvlFrame.frame ∧
      part.tree = BinaryTree.balanceOn side (node.key, node.avl.data) tall.tree other.tree := by
  rcases heightsExact_fetchedOn.mp exact with ⟨_, otherHeight, tallExact, otherExact⟩
  have pushed : AvlOp label level omap (⟨node, side, other⟩ :: frames) tall :=
    @AvlOp.push _ label level omap frames tall ⟨node, side, other⟩ op isNext
  have sides₀ : SidesExact (⟨node, side, other⟩ :: frames) := by
    intro frame' mem
    rcases List.mem_cons.mp mem with rfl | above
    · exact ⟨otherHeight, otherExact⟩
    · exact sides frame' above
  rcases pushed.focus.updateHeights tallExact sides₀ with
    ⟨frames₁, updated₁, focus₁, same₁, whole₁, siblings₁⟩
  rcases frames₁ with _ | ⟨⟨node₁, side₁, other₁⟩, outer₁⟩
  · cases siblings₁
  rw [List.map_cons, List.map_cons] at same₁ siblings₁
  rcases List.cons.inj same₁ with ⟨frameEq, outerEq₁⟩
  rcases List.cons.inj siblings₁ with ⟨siblingEq, outerSiblings₁⟩
  obtain rfl : other₁ = other := siblingEq
  have sideEq : side₁ = side := congrArg BinaryTree.Frame.onLeft frameEq
  have entryEq : (node₁.key, node₁.avl.data) = (node.key, node.avl.data) :=
    congrArg BinaryTree.Frame.value frameEq
  subst sideEq
  have isNext₁ : omap.updateHeights.local_[outer₁.length]? = some node₁ := focus₁.local_.isNext
  have idxEq : omap.updateHeights.localIdx node.key = some outer₁.length := by
    have keyEq : node₁.key = node.key := congrArg Prod.fst entryEq
    rw [← keyEq]
    exact AVLOmap.localIdx_of_getElem? focus₁.local_.nodup_keys isNext₁
  have popped : AvlFocus label omap.updateHeights outer₁ (fetchedOn side₁ node₁ tall other₁) :=
    ⟨focus₁.local_.pop, focus₁.rootKey⟩
  rcases @sides_of_exact outer₁ (fetchedOn side₁ node₁ tall other₁) whole₁ with ⟨exact₁, sides₁⟩
  rcases popped.balanceNode_tall exact₁ isNext₁ liftable (by omega) with
    ⟨frames₂, part, reshaped₂, focus₂, sameWay, exact₂, treeEq⟩
  rcases focus₂.updateHeights exact₂ (sameWay.sides sides₁) with
    ⟨frames₃, updated₃, focus₃, same₃, whole₃, siblings₃⟩
  have framesEq : frames₃.map AvlFrame.frame = frames.map AvlFrame.frame :=
    same₃.trans (sameWay.frames_eq.trans outerEq₁)
  have siblingsEq : frames₃.map AvlFrame.sibling = frames.map AvlFrame.sibling :=
    siblings₃.trans (sameWay.siblings.trans outerSiblings₁)
  have total := (updated₁.trans reshaped₂).trans updated₃
  rw [entryEq] at treeEq
  have sameList : part.tree.toList = (fetchedOn side₁ node tall other₁).tree.toList := by
    rw [treeEq, BinaryTree.toList_balanceOn, tree_fetchedOn]
  have heightLe : part.tree.height ≤ (fetchedOn side₁ node tall other₁).tree.height + 0 := by
    rw [treeEq, tree_fetchedOn, BinaryTree.height_nodeOn]
    rcases BinaryTree.balanceOn_tall side₁ (node.key, node.avl.data) tallBalanced otherBalanced
      isTall with ⟨_, _, upper, _⟩
    omega
  have plugLe : (plug frames₃ part).tree.height ≤
      (plug frames (fetchedOn side₁ node tall other₁)).tree.height := by
    rw [AvlPart.tree_plug, framesEq, ← AvlPart.tree_plug]
    exact height_plug_le frames heightLe
  have nonempty : omap.local_ ≠ [] := by
    intro isNil
    rw [isNil] at isNext
    cases isNext
  refine ⟨outer₁.length, frames₃, part, idxEq, ?_, ⟨op.reshaped total focus₃ ?_ ?_ nonempty, exact₂,
    (sides_of_exact whole₃).2, storedSides_congr siblingsEq storedSides⟩, framesEq, treeEq⟩
  · rw [total.rest]
  · intro key mem
    rw [keys_plug_congr framesEq sameList] at mem
    exact mem
  · exact lt_of_le_of_lt plugLe op.fits.height_lt

/-- The pointer to the child that a double rotation lifts. -/
def innerPtr (side : Bool) (tall : AVLNodeData) : ChildPtr :=
  if AVLOmap.leansIn side tall.balance then tall.child !side else ⟨invalidKey, invalidLeaf, 0⟩

omit [Cipher] in
theorem innerChild_eq {side : Bool} {balance : Int} (leftTall : side = true → 1 < balance)
    (rightTall : side = false → balance < -1) (tall : AVLNodeData) :
    AVLOmap.innerChild balance tall = ((innerPtr side tall).key, (innerPtr side tall).leaf) := by
  unfold AVLOmap.innerChild innerPtr AVLOmap.leansIn
  cases side with
  | true =>
      have isLeft := leftTall rfl
      have notRight : ¬ (balance < -1 ∧ 0 < tall.balance) := fun both => by omega
      by_cases leans : tall.balance < 0
      · simp [isLeft, leans, AVLNodeData.child]
      · rw [if_neg (fun both => leans both.2), if_neg notRight]
        simp [leans]
  | false =>
      have isRight := rightTall rfl
      have notLeft : ¬ (1 < balance ∧ tall.balance < 0) := fun both => by omega
      by_cases leans : 0 < tall.balance
      · rw [if_neg notLeft]
        simp [isRight, leans, AVLNodeData.child]
      · rw [if_neg notLeft, if_neg (fun both => leans both.2)]
        simp [leans]

/-- A stored node that the focus refers to is not local. -/
theorem AvlOp.ends_fetchUnlessLocal {side : Bool} {above : AVLLocalNode} {other : AvlPart}
    {entry : Int × Bytes} {left right : AvlTree}
    (op : AvlOp label level omap frames
      (fetchedOn side above (stored (.node entry left right)) other)) (depth : Int) :
    Ends (omap.fetchUnlessLocal entry.1 (label entry.1) above.key depth) (fun omap' =>
      AvlOp label level omap' frames (fetchedOn side above
        (fetched (fetchedNode label entry left right above.key depth) (stored left) (stored right))
          other) ∧
      omap'.maxHeight = omap.maxHeight ∧
      omap'.local_ = omap.local_ ++ [fetchedNode label entry left right above.key depth]) := by
  have local_ := op.focus.local_
  have keyMem : entry.1 ∈ (fetchedOn side above (stored (.node entry left right)) other).storedKeys :=
    (storedKeys_fetchedOn _ _ _ _).mem_iff.mpr
      (List.mem_append_left _ (by simp [AvlPart.storedKeys]))
  have notLocal := local_.notMem_of_stored keyMem
  have valid : entry.1 ≠ invalidKey := by
    refine local_.valid _ (keys_sub_plug _ _ _ ?_)
    rw [tree_fetchedOn]
    exact (AvlTree.keys_nodeOn _ _ _ _).mem_iff.mpr
      (List.mem_cons_of_mem _ (List.mem_append_left _ (by simp [AvlPart.tree])))
  unfold AVLOmap.fetchUnlessLocal
  rw [if_pos ⟨valid, AVLOmap.localIdx_eq_none notLocal⟩]
  refine Prog.ends_bind (op.ends_fetchChild depth) ?_
  rintro ⟨_, omap'⟩ ⟨_, op', oram, opCount, rfl⟩
  exact Prog.ends_pure ⟨op', rfl, rfl⟩

/-- The inner child is fetched if the tall child leans inwards. -/
theorem AvlOp.ends_fetchInner {side : Bool} {node tall : AVLLocalNode} {inner outer : AvlTree}
    {other : AvlPart} (op : AvlOp label level omap frames
      (fetchedOn side node (fetchedOn (!side) tall (stored inner) (stored outer)) other))
    (exact : (fetchedOn side node (fetchedOn (!side) tall (stored inner) (stored outer))
      other).HeightsExact)
    (isNext : omap.local_[frames.length]? = some node) (depth : Int) :
    Ends (omap.fetchUnlessLocal (innerPtr side tall.avl).key (innerPtr side tall.avl).leaf tall.key
      depth) (fun omap' => omap'.maxHeight = omap.maxHeight ∧
        omap'.local_[frames.length]? = some node ∧ ∃ part, Liftable side part ∧
          part.tree = (fetchedOn (!side) tall (stored inner) (stored outer)).tree ∧
          AvlOp label level omap' frames (fetchedOn side node part other) ∧
          (fetchedOn side node part other).HeightsExact) := by
  rcases heightsExact_fetchedOn.mp exact with ⟨tallHeight, otherHeight, tallExact, otherExact⟩
  rcases heightsExact_fetchedOn.mp tallExact with ⟨innerHeight, outerHeight, _, _⟩
  rw [Bool.not_not] at outerHeight
  have leansEq := AVLOmap.leansIn_balance side tall.avl
  rw [outerHeight, innerHeight] at leansEq
  simp only [AvlPart.tree, Nat.cast_lt] at leansEq
  by_cases leans : outer.height < inner.height
  · rw [decide_eq_true leans] at leansEq
    cases inner with
    | nil => exact absurd leans (Nat.not_lt_zero _)
    | node entry left right =>
        have pushed : AvlOp label level omap (⟨node, side, other⟩ :: frames)
            (fetchedOn (!side) tall (stored (.node entry left right)) (stored outer)) :=
          @AvlOp.push _ label level omap frames _ ⟨node, side, other⟩ op isNext
        rcases linked_fetchedOn.mp pushed.focus.local_.linked with ⟨innerPtrOk, _⟩
        have ptrEq : innerPtr side tall.avl = AvlTree.ptr label (.node entry left right) := by
          rw [innerPtr, if_pos leansEq]
          exact innerPtrOk
        rw [ptrEq]
        refine (pushed.ends_fetchUnlessLocal depth).mono ?_
        rintro omap' ⟨op', sameHeight, localEq⟩
        refine ⟨sameHeight, ?_, _, ⟨tall, _, _, rfl, fun _ => ?_⟩, ?_, op'.pop, ?_⟩
        · rw [localEq]
          have lt : frames.length < omap.local_.length := (List.getElem?_eq_some_iff.mp isNext).1
          rw [List.getElem?_append_left lt]
          exact isNext
        · rcases exists_fetchedOn true side (fetchedNode label entry left right tall.key depth)
            (stored left) (stored right) with ⟨low, high, fetchedEq⟩
          exact ⟨_, low, high, fetchedEq⟩
        · rw [tree_fetchedOn, tree_fetchedOn]
          rfl
        · refine heightsExact_fetchedOn.mpr ⟨tallHeight.trans ?_, otherHeight,
            heightsExact_fetchedOn.mpr ⟨innerHeight, ?_, ?_, trivial⟩, otherExact⟩
          · rw [tree_fetchedOn, tree_fetchedOn]
            rfl
          · rw [Bool.not_not]
            exact outerHeight
          · exact ⟨AvlTree.ptr_height label left, AvlTree.ptr_height label right, trivial, trivial⟩
  · rw [decide_eq_false leans] at leansEq
    have ptrEq : innerPtr side tall.avl = ⟨invalidKey, invalidLeaf, 0⟩ := by
      rw [innerPtr, leansEq]
      rfl
    rw [ptrEq, AVLOmap.fetchUnlessLocal, if_neg (fun both => both.1 rfl)]
    refine (AVLOmap.ends_trackedDummy op.whole op.holds depth).mono ?_
    intro omap' quiet
    have op' := op.quiet quiet
    rcases quiet with ⟨_, _, rfl, _⟩
    exact ⟨rfl, isNext, _, ⟨tall, stored inner, stored outer, rfl,
      fun inwards => absurd inwards leans⟩, rfl, op', exact⟩

/-- A node whose stored child is too high. -/
theorem AvlOp.ends_fetchAndBalance {side : Bool} {node : AVLLocalNode} {tall : AvlTree}
    {other : AvlPart} (op : AvlOp label level omap frames (fetchedOn side node (stored tall) other))
    (exact : (fetchedOn side node (stored tall) other).HeightsExact) (sides : SidesExact frames)
    (storedSides : StoredSides frames) (isNext : omap.local_[frames.length]? = some node)
    (tallBalanced : tall.Balanced) (otherBalanced : other.tree.Balanced)
    (isTall : tall.height = other.tree.height + 2) :
    Ends (omap.fetchAndBalance node) (fun omap' => omap'.maxHeight = omap.maxHeight ∧
      ∃ frames' part, Climbing label level omap' frames' part ∧
        frames'.map AvlFrame.frame = frames.map AvlFrame.frame ∧
        part.tree = BinaryTree.balanceOn side (node.key, node.avl.data) tall other.tree) := by
  rcases heightsExact_fetchedOn.mp exact with ⟨tallHeight, otherHeight, _, otherExact⟩
  rcases linked_fetchedOn.mp op.focus.local_.linked with ⟨tallPtr, _⟩
  simp only [AvlPart.tree] at tallHeight
  have leftTall : side = true → 1 < node.avl.balance := by
    rintro rfl
    change 1 < (node.avl.child true).height - (node.avl.child !true).height
    omega
  have rightTall : side = false → node.avl.balance < -1 := by
    rintro rfl
    change (node.avl.child !false).height - (node.avl.child false).height < -1
    omega
  cases tall with
  | nil => cases isTall
  | node entry left right =>
      have ptrEq : node.avl.child side = AvlTree.ptr label (.node entry left right) := tallPtr
      have tallKey : (if 1 < node.avl.balance then node.avl.lKey else node.avl.rKey) = entry.1 := by
        have keyEq := congrArg ChildPtr.key ptrEq
        cases side with
        | true => exact (if_pos (leftTall rfl)).trans keyEq
        | false => exact (if_neg (by have := rightTall rfl; omega)).trans keyEq
      have tallLeaf : (if 1 < node.avl.balance then node.avl.lLeaf else node.avl.rLeaf) =
          label entry.1 := by
        have leafEq := congrArg ChildPtr.leaf ptrEq
        cases side with
        | true => exact (if_pos (leftTall rfl)).trans leafEq
        | false => exact (if_neg (by have := rightTall rfl; omega)).trans leafEq
      unfold AVLOmap.fetchAndBalance
      dsimp only
      rw [tallKey, tallLeaf]
      refine Prog.ends_bind (op.ends_fetchUnlessLocal (node.depth + 1)) ?_
      rintro omap₁ ⟨op₁, sameHeight₁, local₁⟩
      obtain ⟨fetchedTall, fetchedEq⟩ : ∃ fetchedTall, fetchedTall =
          fetchedNode label entry left right node.key (node.depth + 1) := ⟨_, rfl⟩
      rw [← fetchedEq] at op₁ local₁
      have tallKeyEq : fetchedTall.key = entry.1 := by rw [fetchedEq]; rfl
      have found : omap₁.local_.find? (fun local_ => local_.key == fetchedTall.key) =
          some fetchedTall :=
        find?_key op₁.focus.local_.nodup_keys (by rw [local₁]; simp)
      have isNext₁ : omap₁.local_[frames.length]? = some node := by
        rw [local₁, List.getElem?_append_left (List.getElem?_eq_some_iff.mp isNext).1]
        exact isNext
      have exact₁ : (fetchedOn side node (fetched fetchedTall (stored left) (stored right))
          other).HeightsExact := by
        refine heightsExact_fetchedOn.mpr ⟨tallHeight, otherHeight, ?_, otherExact⟩
        rw [fetchedEq]
        exact ⟨AvlTree.ptr_height label left, AvlTree.ptr_height label right, trivial, trivial⟩
      obtain ⟨inner, outer, orientation⟩ : ∃ inner outer : AvlTree,
          fetched fetchedTall (stored left) (stored right) =
            fetchedOn (!side) fetchedTall (stored inner) (stored outer) := by
        cases side with
        | true => exact ⟨right, left, rfl⟩
        | false => exact ⟨left, right, rfl⟩
      have treeEq : (fetched fetchedTall (stored left) (stored right)).tree =
          .node entry left right := by
        rw [fetchedEq]
        rfl
      rw [orientation] at op₁ exact₁ treeEq
      rw [← tallKeyEq]
      simp only [found, innerChild_eq leftTall rightTall]
      refine Prog.ends_bind (op₁.ends_fetchInner exact₁ isNext₁ (fetchedTall.depth + 1)) ?_
      rintro omap₂ ⟨sameHeight₂, isNext₂, part, liftable, partEq, op₂, exact₂⟩
      rw [treeEq] at partEq
      rcases op₂.rebalanced exact₂ sides storedSides isNext₂ liftable (partEq ▸ tallBalanced)
        otherBalanced (partEq ▸ isTall) with
        ⟨idx, frames', part', idxEq, sameHeight₃, climbing, framesEq, balancedEq⟩
      rw [partEq] at balancedEq
      simp only [idxEq]
      refine Prog.ends_pure ?_
      exact ⟨sameHeight₃.trans (sameHeight₂.trans sameHeight₁), frames', part', climbing, framesEq,
        balancedEq⟩

/-- One step of the way back up. -/
theorem Climbing.ends_step (climbing : Climbing label level omap (frame :: frames) part)
    (partBalanced : part.tree.Balanced) (siblingBalanced : frame.sibling.tree.Balanced)
    (partLe : part.tree.height ≤ frame.sibling.tree.height + 1)
    (siblingLe : frame.sibling.tree.height ≤ part.tree.height + 2) :
    Ends (omap.backUpStep frame.node.key) (fun omap' => omap'.maxHeight = omap.maxHeight ∧
      ∃ frames' part', Climbing label level omap' frames' part' ∧
        frames'.map AvlFrame.frame = frames.map AvlFrame.frame ∧
        part'.tree = frame.frame.rebalance part.tree) := by
  rcases climbing.refreshed with ⟨node, idxEq, modified, sameFrame, refreshed, plugExact⟩
  have entryEq : (node.key, node.avl.data) = (frame.node.key, frame.node.avl.data) :=
    congrArg BinaryTree.Frame.value sameFrame
  have isNext : (omap.local_.set frames.length node)[frames.length]? = some node :=
    refreshed.op.focus.local_.isNext
  have nodeIs : (omap.local_.set frames.length node).getD frames.length default = node := by
    rw [List.getD_eq_getElem?_getD, isNext]
    rfl
  rcases climbing.storedSides frame List.mem_cons_self with ⟨tall, isStored⟩
  rcases heightsExact_fetchedOn.mp plugExact with ⟨partHeight, siblingHeight, _⟩
  have sides : SidesExact frames :=
    fun frame' mem => refreshed.sides frame' (List.mem_cons_of_mem _ mem)
  have storedSides : StoredSides frames :=
    fun frame' mem => refreshed.storedSides frame' (List.mem_cons_of_mem _ mem)
  unfold AVLOmap.backUpStep
  simp only [idxEq, modified, nodeIs]
  have evenIff : node.avl.balance.natAbs ≤ 1 ↔
      part.tree.height ≤ frame.sibling.tree.height + 1 ∧
        frame.sibling.tree.height ≤ part.tree.height + 1 := by
    change (node.avl.lHeight - node.avl.rHeight).natAbs ≤ 1 ↔ _
    cases onLeft : frame.onLeft <;> rw [onLeft] at partHeight siblingHeight <;>
      simp only [AVLNodeData.child, Bool.not_true, Bool.not_false] at partHeight siblingHeight <;>
      omega
  by_cases even : node.avl.balance.natAbs ≤ 1
  · rw [if_pos even]
    refine (refreshed.ends_dummies node.depth).mono ?_
    rintro omap' ⟨climbing', sameHeight⟩
    refine ⟨sameHeight, frames, _, ⟨climbing'.op.pop, plugExact, sides, storedSides⟩, rfl, ?_⟩
    rcases evenIff.mp even with ⟨_, siblingLe'⟩
    rw [AvlFrame.tree_plug, sameFrame]
    change _ = BinaryTree.balanceOn frame.onLeft _ part.tree frame.sibling.tree
    rw [BinaryTree.balanceOn, if_neg (by omega), if_neg (by omega)]
    rfl
  · rw [if_neg even]
    have isTall : frame.sibling.tree.height = part.tree.height + 2 := by
      by_contra notTall
      exact even (evenIff.mpr ⟨partLe, by omega⟩)
    have popped := refreshed.op.pop
    have plugEq : AvlFrame.plug { frame with node } part =
        fetchedOn (!frame.onLeft) node (stored tall) part := by
      rw [fetchedOn_not, ← isStored]
      rfl
    rw [plugEq] at popped plugExact
    rw [isStored] at isTall siblingBalanced
    refine (popped.ends_fetchAndBalance plugExact sides storedSides isNext siblingBalanced
      partBalanced isTall).mono ?_
    rintro omap' ⟨sameHeight, frames', part', climbing', framesEq, balancedEq⟩
    refine ⟨sameHeight, frames', part', climbing', framesEq, ?_⟩
    rw [balancedEq, BinaryTree.balanceOn_not, entryEq]
    change _ = BinaryTree.balanceOn frame.onLeft _ part.tree frame.sibling.tree
    rw [isStored]
    rfl

omit [Cipher] in
theorem map_key_frames (frames : List AvlFrame) : frames.map (fun frame => frame.node.key) =
    (frames.map AvlFrame.frame).map (fun frame => frame.value.1) := by
  rw [List.map_map]
  rfl

/-- The whole way back up. -/
theorem Climbing.ends_backUp (climbing : Climbing label level omap frames part) {spare : AvlTree}
    (balanced : (BinaryTree.plug (frames.map AvlFrame.frame) spare).Balanced)
    (partBalanced : part.tree.Balanced) (le : part.tree.height ≤ spare.height)
    (shrunk : spare.height ≤ part.tree.height + 1) :
    Ends (AVLOmap.backUp (frames.map (fun frame => frame.node.key)) omap) (fun omap' =>
      omap'.maxHeight = omap.maxHeight ∧ ∃ part', AvlOp label level omap' [] part' ∧
        part'.HeightsExact ∧
        part'.tree = BinaryTree.rebalance (frames.map AvlFrame.frame) part.tree) := by
  induction lengthEq : frames.length generalizing omap frames part spare with
  | zero =>
      obtain rfl := List.eq_nil_of_length_eq_zero lengthEq
      exact Prog.ends_pure ⟨rfl, part, climbing.op, climbing.exact, rfl⟩
  | succ count ih =>
      rcases frames with _ | ⟨frame, frames⟩
      · cases lengthEq
      have around : (frame.frame.plug spare).Balanced := BinaryTree.Balanced.of_plug balanced
      rcases BinaryTree.balanced_nodeOn.mp around with ⟨spareLe, siblingLe, _, siblingBalanced⟩
      change spare.height ≤ frame.sibling.tree.height + 1 at spareLe
      change frame.sibling.tree.height ≤ spare.height + 1 at siblingLe
      refine Prog.ends_bind (climbing.ends_step partBalanced siblingBalanced (by omega)
        (by omega)) ?_
      rintro omap' ⟨sameHeight, frames', part', climbing', framesEq, treeEq⟩
      rcases BinaryTree.Frame.balanced_rebalance around partBalanced shrunk (by omega) with
        ⟨partBalanced', shrunk', _⟩
      have le' := BinaryTree.Frame.height_rebalance_le around partBalanced shrunk le
      rw [← treeEq] at partBalanced' shrunk' le'
      have balanced' : (BinaryTree.plug (frames'.map AvlFrame.frame)
          (frame.frame.plug spare)).Balanced := framesEq ▸ balanced
      have lengthEq' : frames'.length = count := by
        have sameLength := congrArg List.length framesEq
        rw [List.length_map, List.length_map] at sameLength
        rw [sameLength]
        simpa using lengthEq
      have rest := ih climbing' balanced' partBalanced' le' shrunk' lengthEq'
      rw [map_key_frames, framesEq, ← map_key_frames] at rest
      refine rest.mono ?_
      rintro omap'' ⟨sameHeight', part'', op, exact, treeEq'⟩
      refine ⟨sameHeight'.trans sameHeight, part'', op, exact, ?_⟩
      rw [treeEq', treeEq]
      rfl

/-- The keys of the path, from the bottom up. -/
theorem Deleted.path_keys {tree : AvlTree} (deleted : Deleted label level omap frames tree) :
    (omap.local_.map AVLLocalNode.key).reverse = frames.map (fun frame => frame.node.key) := by
  rcases deleted.op.focus.local_.order with ⟨rest, order, perm⟩
  rw [sideNodes_of_stored deleted.storedSides] at perm
  rw [order, List.perm_nil.mp perm, List.append_nil, List.map_reverse, List.reverse_reverse,
    List.map_map]
  rfl

/-- `remove`. -/
theorem AVLOmap.Stores.ends_remove {tree : AvlTree} (stores : omap.Stores level tree) (key : Int)
    (le : tree.height ≤ omap.maxHeight) (balanced : tree.Balanced) :
    Ends (omap.remove key) (fun omap' => omap'.Stores level (BinaryTree.remove key tree) ∧
      omap'.maxHeight = omap.maxHeight) := by
  rcases stores with ⟨label, op⟩
  have rootKey : omap.resetOpCounts.rootKey = (tree.ptr label).key :=
    op.focus.rootKey.trans (AvlTree.ptr_key label tree).symm
  have rootLeaf : omap.resetOpCounts.rootLeaf = (tree.ptr label).leaf := op.rootPtr tree rfl
  unfold AVLOmap.remove
  dsimp only
  by_cases empty : omap.resetOpCounts.rootKey = invalidKey
  · obtain rfl : tree = .nil := op.rootKey_eq_iff.mp empty
    rw [if_pos empty]
    exact op.reset.quiet (fun whole _ holds => AVLOmap.ends_padUnlessOds whole holds _)
  · have loop := op.start.ends_removeLoop key omap.maxHeight.toNat 0 (by omega)
    rw [← rootKey, ← rootLeaf] at loop
    rw [if_neg empty]
    refine Prog.ends_bind loop ?_
    rintro ⟨target, omap'⟩ ⟨sameHeight, frames, deleted, framesEq⟩
    rw [List.map_nil] at deleted framesEq
    dsimp only
    rw [deleted.path_keys]
    have whole : BinaryTree.plug (BinaryTree.descend key tree []).1
        (BinaryTree.descend key tree []).2 = tree := BinaryTree.plug_descend key tree []
    rcases BinaryTree.balanced_cutRoot (whole.symm ▸ balanced) with
      ⟨spare, spareBalanced, restBalanced, _, restLe, shrunk⟩
    rw [← framesEq] at spareBalanced
    refine Prog.ends_bind (deleted.climbing.ends_backUp spareBalanced restBalanced restLe shrunk) ?_
    rintro omap'' ⟨sameHeight', part, op', exact, treeEq⟩
    refine (op'.ends_finish exact _).mono ?_
    rintro final ⟨stores, sameFinal⟩
    rw [treeEq, framesEq] at stores
    rw [BinaryTree.remove_eq_cutRoot]
    exact ⟨stores, sameFinal.trans (sameHeight'.trans sameHeight)⟩

end Climb

end TieredOmap
