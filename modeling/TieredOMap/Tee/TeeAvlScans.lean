import TieredOMap.Omap.AvlPart
import TieredOMap.Tee.TeeAvlSplice
import TieredOMap.Tee.TeeAvlTrace

/-!
# Scans over the local entries

The scans of `TeeAvlOmap` over all entries of `local_` change the nodes in the way of
`TeeAvlChanges`: a conditional move to a variable finds the one entry that passes its test, a
rotation whose flag is set turns two nodes and any other one does nothing. So rebalancing keeps the
nodes woven into a search tree with the same values.
-/

namespace TieredOmap

/-- An entry of `local_` as a node. -/
def AVLLocalNode.piece (node : AVLLocalNode) : Piece where
  key := node.key
  leaf := node.leaf
  parentKey := node.parentKey
  data := node.avl.data
  childKey := fun side => (node.avl.child side).key
  childLeaf := fun side => (node.avl.child side).leaf

/-! ## Conditional moves to a variable -/

section Moves

variable {α β : Type} {items : List α} {test : α → Bool} {value : α → β} {init final : β}

/-- If no item passes the test, the variable keeps its value. -/
theorem foldl_oMov_miss (miss : ∀ item ∈ items, test item = false) :
    items.foldl (fun acc item => oMov (test item) acc (value item)) init = init := by
  induction items generalizing init with
  | nil => rfl
  | cons item rest ih =>
      rw [List.foldl_cons, miss item List.mem_cons_self, oMov_false]
      exact ih (fun item mem => miss item (List.mem_cons_of_mem _ mem))

/-- If items pass the test, the variable gets the value that they have in common. -/
theorem foldl_oMov_hit (hit : ∃ item ∈ items, test item = true)
    (same : ∀ item ∈ items, test item = true → value item = final) :
    items.foldl (fun acc item => oMov (test item) acc (value item)) init = final := by
  induction items generalizing init with
  | nil => exact absurd hit (by simp)
  | cons item rest ih =>
      have sameRest := fun item mem => same item (List.mem_cons_of_mem _ mem)
      rw [List.foldl_cons]
      by_cases later : ∃ item ∈ rest, test item = true
      · exact ih later sameRest
      · have missRest : ∀ item ∈ rest, test item = false := by
          intro item mem
          exact Bool.eq_false_iff.mpr (fun passes => later ⟨item, mem, passes⟩)
        rw [foldl_oMov_miss missRest]
        rcases hit with ⟨item', mem, passes⟩
        rcases List.mem_cons.mp mem with rfl | inRest
        · rw [passes, oMov_true]
          exact same item' List.mem_cons_self passes
        · exact absurd ⟨item', inRest, passes⟩ later

end Moves

namespace TeeAvlOmap

variable {omap : TeeAvlOmap} {nodes : List AVLLocalNode} {i j : Nat} {node node' : AVLLocalNode}
  {key : Int} {dir : Bool}

/-- Two entries with a valid key in common are one entry. -/
theorem index_unique (once : Once (nodes.map AVLLocalNode.piece)) (found : nodes[i]? = some node)
    (found' : nodes[j]? = some node') (same : node.key = node'.key)
    (isReal : node.key ≠ invalidKey) : i = j ∧ node = node' := by
  rcases List.getElem?_eq_some_iff.mp found with ⟨bound, rfl⟩
  rcases List.getElem?_eq_some_iff.mp found' with ⟨bound', rfl⟩
  rw [Once, List.pairwise_map, List.pairwise_iff_getElem] at once
  rcases Nat.lt_trichotomy i j with less | rfl | greater
  · exact absurd (once i j bound bound' less same) isReal
  · exact ⟨rfl, rfl⟩
  · exact absurd (same.trans (once j i bound' bound greater same.symm)) isReal

section Scan

variable {α : Type} {test : Int → AVLLocalNode → Bool} {field : AVLLocalNode → α} {init : α}

theorem scan_miss (miss : ∀ (i : Nat) node, nodes[i]? = some node → test i node = false) :
    scan test field nodes init = init := by
  refine foldl_oMov_miss (fun entry mem => ?_)
  exact miss entry.2 entry.1 (List.mem_zipIdx_iff_getElem?.mp mem)

theorem scan_hit (found : nodes[i]? = some node) (passes : test i node = true)
    (only : ∀ (j : Nat) node', nodes[j]? = some node' → test j node' = true → node' = node) :
    scan test field nodes init = field node := by
  refine foldl_oMov_hit ⟨(node, i), List.mem_zipIdx_iff_getElem?.mpr found, passes⟩ ?_
  intro entry mem passes'
  exact congrArg field (only entry.2 entry.1 (List.mem_zipIdx_iff_getElem?.mp mem) passes')

/-- A scan for the index of an entry. -/
theorem index_hit {test : AVLLocalNode → Bool} (found : nodes[i]? = some node)
    (passes : test node = true)
    (only : ∀ j node', nodes[j]? = some node' → test node' = true → j = i) :
    nodes.zipIdx.foldl (fun acc entry => oMov (test entry.1) acc entry.2) 0 = i := by
  refine foldl_oMov_hit ?_ ?_
  · exact ⟨(node, i), List.mem_zipIdx_iff_getElem?.mpr found, passes⟩
  · intro entry mem passes'
    exact only entry.2 entry.1 (List.mem_zipIdx_iff_getElem?.mp mem) passes'

end Scan

theorem isReal_iff : isReal node = true ↔ node.key ≠ invalidKey := by
  simp [isReal]

theorem hasKey_iff : hasKey key node = true ↔ node.key = key ∧ key ≠ invalidKey := by
  simp only [hasKey, isReal, oEqual_eq, Bool.and_eq_true, Bool.not_eq_true', decide_eq_true_eq,
    decide_eq_false_iff_not]
  constructor
  · exact fun both => ⟨both.1.1, both.2⟩
  · exact fun both => ⟨⟨both.1, fun isDummy => both.2 (both.1.symm.trans isDummy)⟩, both.2⟩

/-! ## Heights -/

/-- The nodes that are local. -/
def pieces (omap : TeeAvlOmap) : List Piece := omap.local_.map AVLLocalNode.piece

theorem getElem?_pieces (omap : TeeAvlOmap) (i : Nat) :
    omap.pieces[i]? = omap.local_[i]?.map AVLLocalNode.piece := List.getElem?_map

theorem piece_takeHeight (child node : AVLLocalNode) :
    (takeHeight child node).piece = node.piece := by
  unfold takeHeight AVLLocalNode.piece
  congr 1
  · funext side
    cases side <;> rfl
  · funext side
    cases side <;> rfl

theorem map_piece_modify {f : AVLLocalNode → AVLLocalNode} (i : Nat)
    (same : ∀ node, (f node).piece = node.piece) (nodes : List AVLLocalNode) :
    (nodes.modify i f).map AVLLocalNode.piece = nodes.map AVLLocalNode.piece := by
  refine List.ext_getElem? (fun j => ?_)
  rw [List.getElem?_map, List.getElem?_map, List.getElem?_modify]
  rcases nodes[j]? with _ | node
  · rfl
  · change some (AVLLocalNode.piece (if i = j then f node else node)) = some node.piece
    split
    · rw [same]
    · rfl

/-- Heights do not belong to a node. -/
theorem pieces_updateHeights (omap : TeeAvlOmap) : omap.updateHeights.pieces = omap.pieces := by
  have refreshed : ∀ nodes i,
      (refreshHeights nodes i).map AVLLocalNode.piece = nodes.map AVLLocalNode.piece := by
    intro nodes i
    unfold refreshHeights
    generalize List.range nodes.length = indices
    induction indices generalizing nodes with
    | nil => rfl
    | cons j rest ih =>
        rw [List.foldl_cons, ih]
        exact map_piece_modify i (piece_takeHeight _) nodes
  unfold pieces updateHeights
  dsimp only
  generalize (List.range omap.local_.length).reverse = indices
  generalize omap.local_ = nodes
  induction indices generalizing nodes with
  | nil => rfl
  | cons i rest ih => rw [List.foldl_cons, ih, refreshed]

/-! ## Rotations -/

section Rotation

variable {pivot : AVLLocalNode}

/-- The node that a rotation brings down. -/
theorem piece_takeInner (dir : Bool) (pivot node : AVLLocalNode) :
    AVLLocalNode.piece { node with
      avl := takeInner true dir pivot node, parentKey := pivot.key } =
    { node.piece.setChild dir (pivot.piece.childKey !dir) (pivot.piece.childLeaf !dir) with
      parentKey := pivot.key } := by
  unfold AVLLocalNode.piece Piece.setChild takeInner
  congr 1
  · funext side
    cases dir <;> cases side <;> rfl
  · funext side
    cases dir <;> cases side <;> rfl

/-- The node that a rotation brings up. -/
theorem piece_scatterPivot (dir : Bool) (node pivot : AVLLocalNode) (parentKey height : Int) :
    (scatterPivot true parentKey (takeNode true dir node height pivot) pivot).piece =
      { pivot.piece.setChild (!dir) node.key node.leaf with parentKey } := by
  unfold AVLLocalNode.piece Piece.setChild scatterPivot takeNode
  congr 1
  · funext side
    cases dir <;> cases side <;> rfl
  · funext side
    cases dir <;> cases side <;> rfl

theorem scatterPivot_false (parentKey : Int) (up : AVLNodeData) (entry : AVLLocalNode) :
    scatterPivot false parentKey up entry = entry := rfl

theorem piece_replaceChild (oldKey key leaf height : Int) (entry : AVLLocalNode) :
    (replaceChild true oldKey key leaf height entry).piece =
      entry.piece.redirect oldKey key leaf := by
  have moved : ∀ {α : Type} (child : Int) (before after : α),
      oMov (true && oEqual child oldKey) before after =
        if child = oldKey then after else before := by
    intro α child before after
    by_cases same : child = oldKey <;> simp [same]
  unfold AVLLocalNode.piece Piece.redirect replaceChild Link.aim
  simp only [moved]
  congr 1
  · funext side
    cases side <;> rfl
  · funext side
    cases side <;> rfl

theorem replaceChild_false (oldKey key leaf height : Int) (entry : AVLLocalNode) :
    replaceChild false oldKey key leaf height entry = entry := rfl

theorem piece_setParent (fix : Bool) (parentKey : Int) (entry : AVLLocalNode) :
    (setParent fix parentKey entry).piece =
      if fix then { entry.piece with parentKey } else entry.piece := by
  cases fix <;> rfl

theorem adjust_of_ne {parentKey oldKey key leaf transKey below : Int} {piece : Piece}
    (notParent : parentKey ≠ piece.key) (notBelow : transKey ≠ piece.key) :
    piece.adjust parentKey oldKey key leaf transKey below = piece := by
  have first : ¬(piece.key = parentKey ∧ piece.key ≠ invalidKey) :=
    fun both => notParent both.1.symm
  unfold Piece.adjust
  rw [if_neg first]
  exact if_neg (fun both => notBelow both.1.symm)

/-- Moves to the fields of an entry, with flags for a parent and for a child. -/
theorem piece_flagged {parentKey childKey : Int} {entry : AVLLocalNode} {isParent isChild : Bool}
    (parentFlag : isParent = decide (entry.piece.key = parentKey ∧ entry.piece.key ≠ invalidKey))
    (childFlag : isChild = decide (entry.piece.key = childKey ∧ entry.piece.key ≠ invalidKey))
    (oldKey key leaf height below : Int) :
    (setParent isChild below (replaceChild isParent oldKey key leaf height entry)).piece =
      entry.piece.adjust parentKey oldKey key leaf childKey below := by
  have keyKept : ∀ {c : Prop} [Decidable c],
      (if c then entry.piece.redirect oldKey key leaf else entry.piece).key = entry.piece.key := by
    intro c _
    split <;> rfl
  rw [piece_setParent, parentFlag, childFlag, Piece.adjust]
  simp only [decide_eq_true_eq, keyKept]
  by_cases leadsThere : entry.piece.key = parentKey ∧ entry.piece.key ≠ invalidKey
  · rw [decide_eq_true leadsThere, piece_replaceChild, if_pos leadsThere]
    rfl
  · rw [decide_eq_false leadsThere, replaceChild_false, if_neg leadsThere]

/-- What a rotation does to the entries that it does not turn. -/
theorem piece_adjust (parentKey oldKey key leaf height transKey below : Int)
    (entry : AVLLocalNode) :
    (setParent (hasKey transKey (replaceChild (oEqual entry.key parentKey && isReal entry) oldKey
        key leaf height entry)) below (replaceChild (oEqual entry.key parentKey && isReal entry)
        oldKey key leaf height entry)).piece =
      entry.piece.adjust parentKey oldKey key leaf transKey below := by
  refine piece_flagged ?_ ?_ _ _ _ _ _
  · rw [Bool.eq_iff_iff, Bool.and_eq_true, isReal_iff, oEqual_eq, decide_eq_true_eq,
      decide_eq_true_eq]
    rfl
  · rw [Bool.eq_iff_iff, hasKey_iff, decide_eq_true_eq]
    exact and_congr_right (fun same => by rw [← same]; rfl)

/-- A rotation whose flag is not set, or without a pivot, does nothing. -/
theorem rotateCond_inactive (idx : Nat) {active : Bool} (inactive : (active && omap.local_.any
      (hasKey (oSelect dir (omap.local_.getD idx default).avl.lKey
        (omap.local_.getD idx default).avl.rKey))) = false) :
    omap.rotateCond idx active dir = omap := by
  unfold rotateCond
  simp only [inactive, Bool.false_and, scatterPivot_false, replaceChild_false, oMov_false]
  have same : (omap.local_.modify idx fun node => { node with
        avl := takeInner false dir (scan (fun _ => hasKey (oSelect dir
          (omap.local_.getD idx default).avl.lKey (omap.local_.getD idx default).avl.rKey)) id
            omap.local_ noEntry) (omap.local_.getD idx default),
        parentKey := node.parentKey }).mapIdx
      (fun _ entry => setParent false (omap.local_.getD idx default).key entry) = omap.local_ := by
    refine List.ext_getElem? (fun i => ?_)
    rw [List.getElem?_mapIdx, List.getElem?_modify]
    rcases found : omap.local_[i]? with _ | entry
    · rfl
    · by_cases here : idx = i
      · subst here
        rw [List.getD_eq_getElem?_getD, found]
        simp only [Option.map_eq_map, Option.map_some, if_true]
        rfl
      · simp only [Option.map_eq_map, Option.map_some, if_neg here]
        rfl
  rw [same]

/-- A rotation turns a node and its child. -/
theorem pieces_rotateCond {idx pivotIdx : Nat} (once : Once omap.pieces)
    (found : omap.local_[idx]? = some node) (isReal : node.key ≠ invalidKey)
    (pivotFound : omap.local_[pivotIdx]? = some pivot) (pivotReal : pivot.key ≠ invalidKey)
    (leads : node.piece.childKey dir = pivot.key) (apart : pivot.key ≠ node.key)
    (notParent : node.parentKey ≠ node.key ∧ node.parentKey ≠ pivot.key)
    (notInner : pivot.piece.childKey (!dir) ≠ node.key ∧ pivot.piece.childKey (!dir) ≠ pivot.key) :
    (omap.rotateCond idx true dir).pieces =
        omap.pieces.map (Piece.turn dir node.piece pivot.piece) ∧
      (omap.rotateCond idx true dir).rootKey = Link.aim node.key pivot.key omap.rootKey := by
  have nodeIs : omap.local_.getD idx default = node := by
    rw [List.getD_eq_getElem?_getD, found]
    rfl
  have keyIs : oSelect dir node.avl.lKey node.avl.rKey = pivot.key := by
    rw [← leads]
    cases dir <;> rfl
  have transIs : oSelect dir pivot.avl.rKey pivot.avl.lKey = pivot.piece.childKey (!dir) := by
    cases dir <;> rfl
  have hits : hasKey pivot.key pivot = true := hasKey_iff.mpr ⟨rfl, pivotReal⟩
  have only : ∀ j entry, omap.local_[j]? = some entry → hasKey pivot.key entry = true →
      j = pivotIdx ∧ entry = pivot := by
    intro j entry foundEntry passes
    rcases index_unique once pivotFound foundEntry (hasKey_iff.mp passes).1.symm pivotReal with
      ⟨rfl, rfl⟩
    exact ⟨rfl, rfl⟩
  have present : omap.local_.any (hasKey pivot.key) = true :=
    List.any_eq_true.mpr ⟨pivot, List.mem_of_getElem? pivotFound, hits⟩
  have pivotIdxIs : omap.local_.zipIdx.foldl
      (fun acc entry => oMov (hasKey pivot.key entry.1) acc entry.2) 0 = pivotIdx :=
    index_hit pivotFound hits (fun j entry foundEntry passes => (only j entry foundEntry passes).1)
  have pivotIs : scan (fun _ => hasKey pivot.key) id omap.local_ noEntry = pivot :=
    scan_hit pivotFound hits (fun j entry foundEntry passes => (only j entry foundEntry passes).2)
  unfold rotateCond
  simp only [nodeIs, keyIs, transIs, present, pivotIdxIs, pivotIs, Bool.true_and, oMov_true]
  refine ⟨List.ext_getElem? (fun i => ?_), ?_⟩
  · rw [getElem?_pieces, List.getElem?_map, getElem?_pieces]
    dsimp only
    rw [List.getElem?_mapIdx, List.getElem?_modify]
    rcases foundEntry : omap.local_[i]? with _ | entry
    · rfl
    · simp only [Option.map_eq_map, Option.map_some]
      congr 1
      refine (piece_adjust _ _ _ _ _ _ _ _).trans ?_
      by_cases atNode : idx = i
      · subst atNode
        cases found.symm.trans foundEntry
        have notPivot : (idx == pivotIdx) = false := by
          rw [beq_eq_false_iff_ne]
          rintro rfl
          exact apart (congrArg AVLLocalNode.key
            (Option.some.inj (pivotFound.symm.trans found)))
        rw [if_pos rfl, notPivot, scatterPivot_false, piece_takeInner, Woven.turn_down]
        exact adjust_of_ne notParent.1 notInner.1
      · rw [if_neg atNode]
        by_cases atPivot : i = pivotIdx
        · subst atPivot
          cases pivotFound.symm.trans foundEntry
          rw [beq_self_eq_true, piece_scatterPivot, Woven.turn_up apart]
          exact adjust_of_ne notParent.2 notInner.2
        · have notPivot : (i == pivotIdx) = false := beq_eq_false_iff_ne.mpr atPivot
          have others : entry.piece.key ≠ node.piece.key ∧ entry.piece.key ≠ pivot.piece.key := by
            refine ⟨fun same => atNode ?_, fun same => atPivot ?_⟩
            · exact (index_unique once found foundEntry same.symm isReal).1
            · exact (index_unique once pivotFound foundEntry same.symm pivotReal).1.symm
          rw [notPivot, scatterPivot_false, Piece.turn, if_neg others.1, if_neg others.2]
          rfl
  · unfold Link.aim oMov
    simp only [oEqual_eq, decide_eq_true_eq]

end Rotation

/-! ## Rebalancing -/

/-- The local nodes and a store of nodes are woven into a search tree. -/
abbrev Weaves (omap : TeeAvlOmap) (store : Int → Option Piece) (tree : BinaryTree (Int × Bytes)) :
    Prop :=
  Woven omap.rootKey omap.rootLeaf omap.pieces store tree

/-- The entry at an index is no dummy. -/
def RealAt (omap : TeeAvlOmap) (idx : Nat) : Prop :=
  ∃ key ≠ invalidKey, (omap.local_.map AVLLocalNode.key)[idx]? = some key

section Balance

variable {store : Int → Option Piece} {tree : BinaryTree (Int × Bytes)} {idx : Nat} {active : Bool}

theorem RealAt.exists_node (realAt : omap.RealAt idx) :
    ∃ node, omap.local_[idx]? = some node ∧ node.key ≠ invalidKey := by
  rcases realAt with ⟨key, isReal, found⟩
  rw [List.getElem?_map] at found
  rcases Option.map_eq_some_iff.mp found with ⟨node, foundNode, rfl⟩
  exact ⟨node, foundNode, isReal⟩

theorem realAt_of_node (found : omap.local_[idx]? = some node) (isReal : node.key ≠ invalidKey) :
    omap.RealAt idx := by
  refine ⟨node.key, isReal, ?_⟩
  rw [List.getElem?_map, found]
  rfl

theorem realAt_rotateCond {idx' : Nat} :
    (omap.rotateCond idx' active dir).RealAt idx ↔ omap.RealAt idx := by
  rw [RealAt, RealAt, keys_rotateCond]

/-- A rotation keeps the order of the values. -/
theorem Weaves.rotateCond (weaves : omap.Weaves store tree)
    (realAt : active = true → omap.RealAt idx) :
    ∃ tree', (omap.rotateCond idx active dir).Weaves store tree' ∧ tree'.toList = tree.toList := by
  rcases Bool.eq_false_or_eq_true (active && omap.local_.any
    (hasKey (oSelect dir (omap.local_.getD idx default).avl.lKey
      (omap.local_.getD idx default).avl.rKey))) with turns | inactive
  · rw [Bool.and_eq_true] at turns
    rcases turns with ⟨rfl, present⟩
    rcases (realAt rfl).exists_node with ⟨node, found, isReal⟩
    rcases List.any_eq_true.mp present with ⟨pivot, pivotMem, hits⟩
    rcases List.mem_iff_getElem?.mp pivotMem with ⟨pivotIdx, pivotFound⟩
    rcases hasKey_iff.mp hits with ⟨isPivot, childReal⟩
    have leads : node.piece.childKey dir = pivot.key := by
      rw [isPivot, List.getD_eq_getElem?_getD, found]
      cases dir <;> rfl
    have pivotReal : pivot.key ≠ invalidKey := isPivot.trans_ne childReal
    have nodeMem : node.piece ∈ omap.pieces :=
      List.mem_map_of_mem (List.mem_of_getElem? found)
    have isNode : pieceAt omap.pieces node.piece.key = some node.piece :=
      pieceAt_of_mem weaves.once nodeMem isReal
    have isUp : pieceAt omap.pieces pivot.piece.key = some pivot.piece :=
      pieceAt_of_mem weaves.once (List.mem_map_of_mem pivotMem) pivotReal
    have isUp' : pieceAt omap.pieces (node.piece.childKey dir) = some pivot.piece := leads ▸ isUp
    have nodeLinks := @pieceLinks_eq _ store _ _ (nodeOf?_local isNode)
    have upLinks := @pieceLinks_eq _ store _ _ (nodeOf?_local isUp')
    have inTree := weaves.all _ _ (nodeOf?_local isNode)
    have dirReal : node.piece.link.child dir ≠ invalidKey := leads.trans_ne pivotReal
    have apart : pivot.key ≠ node.key := fun same =>
      weaves.spells.child_ne weaves.nodup inTree nodeLinks dir dirReal (leads.trans same)
    have notBack : ∀ side, pivot.piece.childKey side ≠ node.key := fun side same =>
      weaves.spells.grandchild_ne weaves.nodup inTree nodeLinks dirReal upLinks side
        (same.trans_ne isReal) same
    have notParent : node.parentKey ≠ node.key ∧ node.parentKey ≠ pivot.key := by
      rcases weaves.parents _ _ isNode with ⟨isRoot, -⟩ | ⟨parent, side, isParent, leadsBack⟩
      · exact ⟨(isRoot.trans_ne isReal.symm), (isRoot.trans_ne pivotReal.symm)⟩
      · refine ⟨fun same => ?_, fun same => ?_⟩
        · change pieceAt omap.pieces node.parentKey = _ at isParent
          rw [same] at isParent
          cases isNode.symm.trans isParent
          exact weaves.spells.child_ne weaves.nodup inTree nodeLinks side
            (leadsBack.trans_ne isReal) leadsBack
        · change pieceAt omap.pieces node.parentKey = _ at isParent
          rw [same] at isParent
          cases isUp.symm.trans isParent
          exact notBack side leadsBack
    have notInner : pivot.piece.childKey (!dir) ≠ pivot.key := fun same =>
      weaves.spells.child_ne weaves.nodup (weaves.all _ _ (nodeOf?_local isUp'))
        upLinks (!dir) (same.trans_ne pivotReal) (same.trans leads.symm)
    rcases pieces_rotateCond weaves.once found isReal pivotFound pivotReal leads apart notParent
      ⟨notBack _, notInner⟩ with ⟨sameNodes, sameRoot⟩
    rcases weaves.turned isNode isUp' with ⟨tree', woven, sameList⟩
    refine ⟨tree', ?_, sameList⟩
    rw [Weaves, sameNodes, sameRoot]
    exact woven
  · rw [rotateCond_inactive idx inactive]
    exact ⟨tree, weaves, rfl⟩

/-- A scan finds the index of a child that is local. -/
theorem realAt_child (once : Once omap.pieces)
    (present : ∃ entry ∈ omap.local_, (isReal entry && oEqual entry.key key) = true) :
    omap.RealAt (omap.local_.zipIdx.foldl
      (fun acc entry => oMov (isReal entry.1 && oEqual entry.1.key key) acc entry.2) 0) := by
  rcases present with ⟨child, mem, passes⟩
  rcases List.mem_iff_getElem?.mp mem with ⟨i, found⟩
  have keyIs : ∀ {entry : AVLLocalNode}, (TeeAvlOmap.isReal entry && oEqual entry.key key) = true →
      entry.key ≠ invalidKey ∧ entry.key = key := by
    intro entry passesEntry
    rw [Bool.and_eq_true, isReal_iff, oEqual_eq, decide_eq_true_eq] at passesEntry
    exact passesEntry
  have childReal := (keyIs passes).1
  rw [index_hit found passes
    (fun j entry foundEntry passesEntry => (index_unique once found foundEntry
      ((keyIs passes).2.trans (keyIs passesEntry).2.symm) childReal).1.symm)]
  exact realAt_of_node found childReal

/-- Only a local child can lean. -/
theorem present_of_leans {leans : Int → Int → Bool} (level : leans 0 0 = false)
    (uneven : leans (scan (fun _ entry => isReal entry && oEqual entry.key key) id omap.local_
        noEntry).avl.lHeight (scan (fun _ entry => isReal entry && oEqual entry.key key) id
          omap.local_ noEntry).avl.rHeight = true) :
    ∃ entry ∈ omap.local_, (isReal entry && oEqual entry.key key) = true := by
  by_contra none'
  rw [scan_miss (fun i entry found => Bool.eq_false_iff.mpr
    (fun passes => none' ⟨entry, List.mem_of_getElem? found, passes⟩))] at uneven
  exact absurd uneven (by rw [show noEntry.avl.lHeight = 0 from rfl,
    show noEntry.avl.rHeight = 0 from rfl, level]; simp)

/-- Rebalancing a node keeps the order of the values. -/
theorem Weaves.balanceNode (weaves : omap.Weaves store tree) (bound : idx < omap.local_.length) :
    ∃ tree', (omap.balanceNode idx).Weaves store tree' ∧ tree'.toList = tree.toList := by
  unfold TeeAvlOmap.balanceNode
  dsimp only
  have nodeReal : TeeAvlOmap.isReal (omap.local_.getD idx default) = true → omap.RealAt idx := by
    intro isReal
    refine realAt_of_node (List.getElem?_eq_getElem bound) ?_
    rw [isReal_iff, List.getD_eq_getElem?_getD, List.getElem?_eq_getElem bound] at isReal
    exact isReal
  rcases weaves.rotateCond (fun active => realAt_child weaves.once
    (@present_of_leans _ _ (fun left right => oLess (left - right) 0) rfl
      (Bool.and_eq_true_iff.mp active).2)) with ⟨tree₁, weaves₁, same₁⟩
  rcases weaves₁.rotateCond (fun active => realAt_rotateCond.mpr (realAt_child weaves.once
    (@present_of_leans _ _ (fun left right => oLess 0 (left - right)) rfl
      (Bool.and_eq_true_iff.mp active).2))) with ⟨tree₂, weaves₂, same₂⟩
  rcases weaves₂.rotateCond (fun active => realAt_rotateCond.mpr (realAt_rotateCond.mpr
    (nodeReal (Bool.and_eq_true_iff.mp active).1))) with ⟨tree₃, weaves₃, same₃⟩
  rcases weaves₃.rotateCond (fun active => realAt_rotateCond.mpr (realAt_rotateCond.mpr
    (realAt_rotateCond.mpr (nodeReal (Bool.and_eq_true_iff.mp active).1)))) with
      ⟨tree₄, weaves₄, same₄⟩
  exact ⟨tree₄, weaves₄, same₄.trans (same₃.trans (same₂.trans same₁))⟩

theorem length_updateHeights (omap : TeeAvlOmap) :
    omap.updateHeights.local_.length = omap.local_.length := by
  simpa using congrArg List.length (keys_updateHeights omap)

theorem length_balanceNode (omap : TeeAvlOmap) (idx : Nat) :
    (omap.balanceNode idx).local_.length = omap.local_.length := by
  unfold TeeAvlOmap.balanceNode
  have kept : ∀ (omap : TeeAvlOmap) idx active dir,
      (omap.rotateCond idx active dir).local_.length = omap.local_.length := by
    intro omap idx active dir
    simpa using congrArg List.length (keys_rotateCond omap idx active dir)
  dsimp only
  rw [kept, kept, kept, kept]

theorem Weaves.updateHeights (weaves : omap.Weaves store tree) :
    omap.updateHeights.Weaves store tree := by
  rw [Weaves, pieces_updateHeights]
  exact weaves

/-- Rebalancing keeps the values in order. -/
theorem Weaves.rebalance (weaves : omap.Weaves store tree) :
    ∃ tree', omap.rebalance.Weaves store tree' ∧ tree'.toList = tree.toList := by
  have folded : ∀ (indices : List Nat) (omap : TeeAvlOmap) tree, omap.Weaves store tree →
      (∀ i ∈ indices, i < omap.local_.length) → ∃ tree',
        (indices.foldl (fun omap i => omap.updateHeights.balanceNode i) omap).Weaves store tree' ∧
          tree'.toList = tree.toList := by
    intro indices
    induction indices with
    | nil => exact fun omap tree weaves _ => ⟨tree, weaves, rfl⟩
    | cons i rest ih =>
        intro omap tree weaves bounds
        have sameLength := length_updateHeights omap
        rcases weaves.updateHeights.balanceNode
          (sameLength.symm ▸ bounds i List.mem_cons_self) with ⟨tree₁, weaves₁, same₁⟩
        rcases ih _ tree₁ weaves₁ (fun j mem => by
          rw [length_balanceNode, sameLength]
          exact bounds j (List.mem_cons_of_mem _ mem)) with ⟨tree₂, weaves₂, same₂⟩
        exact ⟨tree₂, weaves₂, same₂.trans same₁⟩
  rcases folded (List.range omap.local_.length).reverse omap tree weaves (fun i mem => by
    simpa using mem) with ⟨tree', weaves', same⟩
  exact ⟨tree', weaves'.updateHeights, same⟩

end Balance

end TeeAvlOmap

end TieredOmap
