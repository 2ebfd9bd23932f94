import TieredOMap.Omap.AvlLocal

/-!
# Rotations of local nodes

A rotation changes four local nodes at most, found by their keys: the node going
down, the pivot, the parent and the child that is handed over. On the tree it is the
rotation of the library, at the focus of the list.
-/

namespace TieredOmap

open AvlPart

namespace AVLOmap

theorem rotateDown_eq (side : Bool) (pivot node : AVLLocalNode) :
    rotateDown (!side) pivot node = { node with
      parentKey := pivot.key
      avl := node.avl.setChild side (pivot.avl.child !side) } := by
  cases side <;> rfl

theorem rotateUp_eq (side : Bool) (down pivot : AVLLocalNode) (parentKey : Int) :
    rotateUp (!side) down pivot parentKey = { pivot with
      parentKey
      avl := pivot.avl.setChild (!side) ⟨down.key, down.leaf, down.avl.height⟩ } := by
  cases side <;> rfl

theorem localIdx_eq {omap : AVLOmap} {node : AVLLocalNode}
    (nodup : (omap.local_.map AVLLocalNode.key).Nodup) (mem : node ∈ omap.local_) :
    ∃ idx, omap.localIdx node.key = some idx ∧ omap.local_[idx]? = some node := by
  have found := findIdx?_key nodup mem (fun _ => true)
  rw [if_pos rfl] at found
  simpa only [localIdx, Bool.and_true] using found

theorem localIdx_eq_none {omap : AVLOmap} {key : Int}
    (notMem : key ∉ omap.local_.map AVLLocalNode.key) : omap.localIdx key = none := by
  have none := findIdx?_key_eq_none notMem (fun _ => true)
  simpa only [localIdx, Bool.and_true] using none

theorem slot_relinkChild (oldKey : Int) (child parent : AVLLocalNode) :
    (relinkChild oldKey child parent).slot = parent.slot := by
  unfold relinkChild
  split
  · rfl
  · split <;> rfl

theorem key_relinkChild (oldKey : Int) (child parent : AVLLocalNode) :
    (relinkChild oldKey child parent).key = parent.key := by
  unfold relinkChild
  split
  · rfl
  · split <;> rfl

/-- What a rotation does to the local nodes. -/
def moved (side : Bool) (node pivot down up : AVLLocalNode) (local_ : AVLLocalNode) :
    AVLLocalNode :=
  onKey (pivot.avl.child !side).key (fun child => { child with parentKey := node.key })
    (onKey node.parentKey (relinkChild node.key up)
      (onKey pivot.key (fun _ => up) (onKey node.key (fun _ => down) local_)))

/-- A rotation is a map over the local nodes. -/
theorem rotate_eq {omap : AVLOmap} {side : Bool} {node pivot : AVLLocalNode} {idx : Nat}
    (nodup : (omap.local_.map AVLLocalNode.key).Nodup)
    (noInvalid : invalidKey ∉ omap.local_.map AVLLocalNode.key)
    (found : omap.local_[idx]? = some node) (pivotMem : pivot ∈ omap.local_)
    (isPivot : (node.avl.child side).key = pivot.key) (differs : pivot.key ≠ node.key)
    {down up : AVLLocalNode} (downEq : down = rotateDown (!side) pivot node)
    (upEq : up = rotateUp (!side) down pivot node.parentKey) :
    omap.rotate idx (!side) = { omap with
      local_ := omap.local_.map (moved side node pivot down up)
      rootKey := if omap.rootKey = node.key then pivot.key else omap.rootKey } := by
  rcases localIdx_eq nodup pivotMem with ⟨pivotIdx, pivotIdxEq, pivotFound⟩
  have nodeEq : omap.local_.getD idx default = node := by
    rw [List.getD_eq_getElem?_getD, found]
    rfl
  have pivotEq : omap.local_.getD pivotIdx default = pivot := by
    rw [List.getD_eq_getElem?_getD, pivotFound]
    rfl
  have pivotKeyEq : (if (!side) = true then node.avl.rKey else node.avl.lKey) = pivot.key := by
    rw [← isPivot]
    cases side <;> rfl
  have transferredEq : (if (!side) = true then pivot.avl.lKey else pivot.avl.rKey) =
      (pivot.avl.child !side).key := by
    cases side <;> rfl
  have downKey : down.key = node.key := by
    rw [downEq, rotateDown_eq]
  have upKey : up.key = pivot.key := by
    rw [upEq, rotateUp_eq]
  unfold AVLOmap.rotate
  dsimp only
  rw [nodeEq, pivotKeyEq, pivotIdxEq]
  dsimp only
  rw [pivotEq, transferredEq, ← downEq, ← upEq]
  have keys₁ : (omap.local_.map (onKey node.key (fun _ => down))).map AVLLocalNode.key =
      omap.local_.map AVLLocalNode.key := map_key_onKey (fun _ _ => downKey)
  have keys₂ : ((omap.local_.map (onKey node.key (fun _ => down))).map
      (onKey pivot.key (fun _ => up))).map AVLLocalNode.key = omap.local_.map AVLLocalNode.key :=
    (map_key_onKey (fun _ _ => upKey)).trans keys₁
  have keys₃ : (((omap.local_.map (onKey node.key (fun _ => down))).map
      (onKey pivot.key (fun _ => up))).map (onKey node.parentKey (relinkChild node.key up))).map
        AVLLocalNode.key = omap.local_.map AVLLocalNode.key := by
    refine (map_key_onKey ?_).trans keys₂
    exact fun parent isParent => (key_relinkChild _ _ parent).trans isParent
  have pivotFound₁ : (omap.local_.map (onKey node.key (fun _ => down)))[pivotIdx]? = some pivot := by
    rw [List.getElem?_map, pivotFound, Option.map_some, onKey_of_ne differs]
  have movedEq : omap.local_.map (moved side node pivot down up) =
      (((omap.local_.map (onKey node.key (fun _ => down))).map (onKey pivot.key (fun _ => up))).map
        (onKey node.parentKey (relinkChild node.key up))).map
          (onKey (pivot.avl.child !side).key
            (fun child => { child with parentKey := node.key })) := by
    simp only [List.map_map]
    rfl
  rw [movedEq, set_key nodup found, set_key (keys₁ ▸ nodup) pivotFound₁,
    modifyFirst_key (keys₂ ▸ nodup)]
  generalize List.map (onKey node.parentKey _) _ = nodes₃ at keys₃ ⊢
  by_cases none : (pivot.avl.child !side).key = invalidKey
  · rw [if_pos none, none, map_onKey_of_notMem (keys₃.symm ▸ noInvalid)]
  · rw [if_neg none, modifyFirst_key (keys₃.symm ▸ nodup)]

theorem relinkChild_eq {side : Bool} {oldKey : Int} {child parent : AVLLocalNode}
    (isChild : (parent.avl.child side).key = oldKey)
    (notOther : (parent.avl.child !side).key ≠ oldKey) :
    relinkChild oldKey child parent = { parent with
      avl := parent.avl.setChild side ⟨child.key, child.leaf, child.avl.height⟩ } := by
  unfold relinkChild
  cases side with
  | true => rw [if_pos (show parent.avl.lKey = oldKey from isChild)]; rfl
  | false =>
      rw [if_neg (show parent.avl.lKey ≠ oldKey from notOther),
        if_pos (show parent.avl.rKey = oldKey from isChild)]
      rfl

/-- A key that no change of a rotation is about. -/
def Untouched (side : Bool) (node pivot : AVLLocalNode) (key : Int) : Prop :=
  key ≠ node.key ∧ key ≠ pivot.key ∧ key ≠ node.parentKey ∧ key ≠ (pivot.avl.child !side).key

section Moved

variable {side : Bool} {node pivot down up local_ : AVLLocalNode}

theorem moved_of_untouched (untouched : Untouched side node pivot local_.key) :
    moved side node pivot down up local_ = local_ := by
  rcases untouched with ⟨notNode, notPivot, notParent, notInner⟩
  rw [moved, onKey_of_ne notNode, onKey_of_ne notPivot, onKey_of_ne notParent,
    onKey_of_ne notInner]

theorem map_moved_of_untouched {nodes : List AVLLocalNode}
    (untouched : ∀ local_ ∈ nodes, Untouched side node pivot local_.key) :
    nodes.map (moved side node pivot down up) = nodes := by
  conv_rhs => rw [← List.map_id nodes]
  exact List.map_congr_left (fun local_ mem => moved_of_untouched (untouched local_ mem))

theorem key_moved (downKey : down.key = node.key) (upKey : up.key = pivot.key) :
    (moved side node pivot down up local_).key = local_.key := by
  have relinked : ∀ parent, parent.key = node.parentKey →
      (relinkChild node.key up parent).key = node.parentKey :=
    fun parent isParent => (key_relinkChild _ _ parent).trans isParent
  have adopted : ∀ child : AVLLocalNode, child.key = (pivot.avl.child !side).key →
      ({ child with parentKey := node.key } : AVLLocalNode).key = (pivot.avl.child !side).key :=
    fun _ isKey => isKey
  rw [moved, key_onKey adopted, key_onKey relinked, key_onKey (fun _ _ => upKey),
    key_onKey (fun _ _ => downKey)]

end Moved

end AVLOmap

open AVLOmap

namespace AvlLocal

variable {label : Int → Int} {nodes : List AVLLocalNode} {frames : List AvlFrame}
  {side : Bool} {node pivot : AVLLocalNode} {inner outer other : AvlPart}

/-- The part after a rotation at its root. -/
def rotated (side : Bool) (down up : AVLLocalNode) (inner outer other : AvlPart) : AvlPart :=
  .fetchedOn (!side) up (.fetchedOn side down (inner.setParent down.key) other) outer

/-- The nodes of a part that is about to be rotated, at its root. -/
theorem nodes_rotatable (side : Bool) (node pivot : AVLLocalNode) (inner outer other : AvlPart) :
    (fetchedOn side node (fetchedOn (!side) pivot inner outer) other).nodes.Perm
      (node :: pivot :: (inner.nodes ++ outer.nodes ++ other.nodes)) := by
  refine (nodes_fetchedOn _ _ _ _).trans (List.Perm.cons _ ?_)
  exact (nodes_fetchedOn _ _ _ _).append_right _

/-- Its keys and those around it. -/
theorem keys_rotatable (frames : List AvlFrame) (side : Bool) (node pivot : AVLLocalNode)
    (inner outer other : AvlPart) :
    (plug frames (fetchedOn side node (fetchedOn (!side) pivot inner outer) other)).tree.keys.Perm
      (frames.map (fun frame => frame.node.key) ++
        ((node.key :: pivot.key :: (inner.tree.keys ++ outer.tree.keys ++ other.tree.keys)) ++
          frames.flatMap (fun frame => frame.sibling.tree.keys))) := by
  refine (keys_plug frames _).trans (List.Perm.append_left _ (List.Perm.append_right _ ?_))
  rw [tree_fetchedOn, tree_fetchedOn]
  refine (AvlTree.keys_nodeOn _ _ _ _).trans (List.Perm.cons _ ?_)
  exact (AvlTree.keys_nodeOn _ _ _ _).append_right _

/-- The parent of the root of the focus is the innermost frame. -/
theorem parentKey_cases (local_ : AvlLocal label nodes frames (fetchedOn side node inner other)) :
    frames = [] ∧ node.parentKey = invalidKey ∨
      ∃ frame outer, frames = frame :: outer ∧ node.parentKey = frame.node.key := by
  have spine := local_.spine
  cases frames with
  | nil => exact Or.inl ⟨rfl, parentIs_fetchedOn.mp spine⟩
  | cons frame frames => exact Or.inr ⟨frame, frames, rfl, parentIs_fetchedOn.mp spine.2.1⟩

/-- The node that a rotation hands over is in the inner part. -/
theorem innerKey_cases (local_ : AvlLocal label nodes frames
    (fetchedOn side node (fetchedOn (!side) pivot inner outer) other)) :
    (pivot.avl.child !side).key = inner.tree.rootKey ∧
      ((pivot.avl.child !side).key = invalidKey ∨ (pivot.avl.child !side).key ∈ inner.tree.keys) := by
  have innerKey : (pivot.avl.child !side).key = inner.tree.rootKey :=
    (linked_fetchedOn.mp (linked_fetchedOn.mp local_.linked).2.2.2.2.1).1.key_eq
  refine ⟨innerKey, ?_⟩
  have valid : ∀ key ∈ inner.tree.keys, key ≠ invalidKey := by
    intro key mem
    refine local_.valid key ((keys_rotatable frames side node pivot inner outer other).mem_iff.mpr ?_)
    simp [mem]
  rw [innerKey]
  rcases AvlTree.rootKey_mem valid with ⟨isInvalid, _⟩ | ⟨_, mem⟩
  · exact Or.inl isInvalid
  · exact Or.inr mem

/-- The keys whose nodes a rotation changes are different, and there are no others. -/
structure Apart (frames : List AvlFrame) (side : Bool) (node pivot : AVLLocalNode)
    (inner outer other : AvlPart) : Prop where
  inOuter : ∀ key ∈ outer.tree.keys, Untouched side node pivot key
  inOther : ∀ key ∈ other.tree.keys, Untouched side node pivot key
  inInner : ∀ key ∈ inner.tree.keys, key ≠ (pivot.avl.child !side).key →
    Untouched side node pivot key
  isAbove : ∀ key ∈ frames.map (fun frame => frame.node.key), key ≠ node.parentKey →
    Untouched side node pivot key
  isBeside : ∀ key ∈ frames.flatMap (fun frame => frame.sibling.tree.keys),
    Untouched side node pivot key
  node_ne_pivot : node.key ≠ pivot.key
  node_ne_parent : node.key ≠ node.parentKey
  pivot_ne_parent : pivot.key ≠ node.parentKey
  node_notMem : node.key ∉ inner.tree.keys
  pivot_notMem : pivot.key ∉ inner.tree.keys
  node_ne_inner : node.key ≠ (pivot.avl.child !side).key
  pivot_ne_inner : pivot.key ≠ (pivot.avl.child !side).key
  inner_notMem : (pivot.avl.child !side).key ∉ frames.map (fun frame => frame.node.key)
  parent_notMem : node.parentKey ∉ inner.tree.keys
  node_notAbove : node.key ∉ frames.map (fun frame => frame.node.key)
  node_notBeside : node.key ∉ frames.flatMap (fun frame => frame.sibling.tree.keys)
  nodup_inner : inner.tree.keys.Nodup
  nodup_above : (frames.map (fun frame => frame.node.key)).Nodup

theorem apart (local_ : AvlLocal label nodes frames
    (fetchedOn side node (fetchedOn (!side) pivot inner outer) other)) :
    Apart frames side node pivot inner outer other := by
  have keys := keys_rotatable frames side node pivot inner outer other
  have distinct := keys.nodup_iff.mp local_.nodup
  have valid : invalidKey ∉ _ := fun mem => local_.valid invalidKey (keys.mem_iff.mpr mem) rfl
  have ⟨_, innerKey⟩ := local_.innerKey_cases
  have parentKey : node.parentKey = invalidKey ∨
      node.parentKey ∈ frames.map (fun frame => frame.node.key) := by
    rcases local_.parentKey_cases with ⟨_, isRoot⟩ | ⟨frame, above, rfl, isFrame⟩
    · exact Or.inl isRoot
    · exact Or.inr (by simp [isFrame])
  simp only [List.nodup_append, List.nodup_cons, List.mem_append, List.mem_cons, not_or]
    at distinct valid
  clear keys local_
  constructor
  all_goals
    unfold Untouched at *
    generalize (pivot.avl.child !side).key = given at *
    generalize node.parentKey = parent at *
    generalize frames.map (fun frame => frame.node.key) = aboveKeys at *
    generalize frames.flatMap (fun frame => frame.sibling.tree.keys) = besideKeys at *
    generalize inner.tree.keys = innerKeys at *
    generalize outer.tree.keys = outerKeys at *
    generalize other.tree.keys = otherKeys at *
    grind

section Moved

variable {down up : AVLLocalNode}

theorem tree_rotated (downEq : down = rotateDown (!side) pivot node)
    (upEq : up = rotateUp (!side) down pivot node.parentKey) :
    (rotated side down up inner outer other).tree = BinaryTree.rotate (!side)
      (fetchedOn side node (fetchedOn (!side) pivot inner outer) other).tree := by
  rw [rotateDown_eq] at downEq
  rw [rotateUp_eq] at upEq
  rw [tree_fetchedOn, tree_fetchedOn, BinaryTree.rotate_nodeOn, rotated, tree_fetchedOn,
    tree_fetchedOn, tree_setParent, upEq, downEq]
  simp

theorem nodes_rotated (side : Bool) (down up : AVLLocalNode) (inner outer other : AvlPart) :
    (rotated side down up inner outer other).nodes.Perm
      (down :: up :: ((inner.setParent down.key).nodes ++ outer.nodes ++ other.nodes)) := by
  refine (nodes_fetchedOn _ _ _ _).trans ?_
  refine (List.Perm.cons _ ((nodes_fetchedOn _ _ _ _).append_right _)).trans ?_
  refine (List.Perm.swap _ _ _).trans (List.Perm.cons _ (List.Perm.cons _ ?_))
  change ((inner.setParent down.key).nodes ++ other.nodes ++ outer.nodes).Perm _
  rw [List.append_assoc, List.append_assoc]
  exact List.Perm.append_left _ List.perm_append_comm

theorem moved_node (apart : Apart frames side node pivot inner outer other)
    (downKey : down.key = node.key) : moved side node pivot down up node = down := by
  have notPivot : down.key ≠ pivot.key := downKey ▸ apart.node_ne_pivot
  have notParent : down.key ≠ node.parentKey := downKey ▸ apart.node_ne_parent
  have notInner : down.key ≠ (pivot.avl.child !side).key := downKey ▸ apart.node_ne_inner
  rw [moved, onKey_of_eq rfl, onKey_of_ne notPivot, onKey_of_ne notParent, onKey_of_ne notInner]

theorem moved_pivot (apart : Apart frames side node pivot inner outer other)
    (upKey : up.key = pivot.key) : moved side node pivot down up pivot = up := by
  have notNode : pivot.key ≠ node.key := apart.node_ne_pivot.symm
  have notParent : up.key ≠ node.parentKey := upKey ▸ apart.pivot_ne_parent
  have notInner : up.key ≠ (pivot.avl.child !side).key := upKey ▸ apart.pivot_ne_inner
  rw [moved, onKey_of_ne notNode, onKey_of_eq rfl, onKey_of_ne notParent, onKey_of_ne notInner]

/-- The root of the inner part gets another parent. -/
theorem map_moved_inner (apart : Apart frames side node pivot inner outer other)
    (innerKey : (pivot.avl.child !side).key = inner.tree.rootKey) :
    inner.nodes.map (moved side node pivot down up) = (inner.setParent node.key).nodes := by
  cases inner with
  | stored tree => rfl
  | fetched root left right =>
      have rootEq : moved side node pivot down up root = { root with parentKey := node.key } := by
        have rootMem : root.key ∈ (fetched root left right).tree.keys := by
          simp [AvlPart.tree]
        have notNode : root.key ≠ node.key := fun same => apart.node_notMem (same ▸ rootMem)
        have notPivot : root.key ≠ pivot.key := fun same => apart.pivot_notMem (same ▸ rootMem)
        have notParent : root.key ≠ node.parentKey :=
          fun same => apart.parent_notMem (same ▸ rootMem)
        have isInner : root.key = (pivot.avl.child !side).key := innerKey.symm
        rw [moved, onKey_of_ne notNode, onKey_of_ne notPivot, onKey_of_ne notParent,
          onKey_of_eq isInner]
      have rest : (left.nodes ++ right.nodes).map (moved side node pivot down up) =
          left.nodes ++ right.nodes := by
        refine map_moved_of_untouched ?_
        intro local_ mem
        have below : local_.key ∈ left.tree.keys ++ right.tree.keys := by
          rcases List.mem_append.mp mem with inLeft | inRight
          · exact List.mem_append_left _ (key_mem_keys inLeft)
          · exact List.mem_append_right _ (key_mem_keys inRight)
        have distinct := (AvlTree.keys_nodeOn true _ left.tree right.tree).nodup_iff.mp
          apart.nodup_inner
        refine apart.inInner _ ?_ ?_
        · rw [AvlPart.tree, AvlTree.keys_node]
          simp only [List.mem_append, List.mem_cons] at below ⊢
          tauto
        · rintro same
          rw [same, innerKey] at below
          exact (List.nodup_cons.mp distinct).1 below
      rw [AvlPart.nodes, List.map_cons, rootEq, rest]
      rfl

/-- The parent gets the pivot as its child. -/
theorem map_moved_above (local_ : AvlLocal label nodes frames
    (fetchedOn side node (fetchedOn (!side) pivot inner outer) other)) :
    (frames.map AvlFrame.node).map (moved side node pivot down up) =
      (refocus ⟨up.key, up.leaf, up.avl.height⟩ frames).map AvlFrame.node := by
  have apart := local_.apart
  rcases local_.parentKey_cases with ⟨rfl, _⟩ | ⟨frame, above, rfl, isFrame⟩
  · rfl
  have distinct := apart.nodup_above
  have noInner := apart.inner_notMem
  rw [List.map_cons, List.nodup_cons] at distinct
  rw [List.map_cons, List.mem_cons, not_or] at noInner
  rcases local_.spine with ⟨ptrOk, _, siblingPtr, _⟩
  have notOther : (frame.node.avl.child !frame.onLeft).key ≠ node.key := by
    have keyMem : ∀ key ∈ frame.sibling.tree.keys, key ∈
        (frame :: above).flatMap (fun frame => frame.sibling.tree.keys) := by
      intro key mem
      simp [mem]
    have valid : ∀ key ∈ frame.sibling.tree.keys, key ≠ invalidKey := by
      intro key mem
      refine local_.valid key ((keys_plug _ _).mem_iff.mpr ?_)
      exact List.mem_append_right _ (List.mem_append_right _ (keyMem key mem))
    rw [siblingPtr.key_eq]
    rcases AvlTree.rootKey_mem valid with ⟨isInvalid, _⟩ | ⟨_, mem⟩
    · rw [isInvalid]
      intro isNode
      refine local_.valid node.key ((keys_rotatable _ _ _ _ _ _ _).mem_iff.mpr ?_) isNode.symm
      simp
    · exact fun same => apart.node_notBeside (same ▸ keyMem _ mem)
  have frameEq : moved side node pivot down up frame.node =
      (frame.refocus ⟨up.key, up.leaf, up.avl.height⟩).node := by
    have notNode : frame.node.key ≠ node.key := isFrame ▸ apart.node_ne_parent.symm
    have notPivot : frame.node.key ≠ pivot.key := isFrame ▸ apart.pivot_ne_parent.symm
    rw [moved, onKey_of_ne notNode, onKey_of_ne notPivot, onKey_of_eq isFrame.symm,
      relinkChild_eq (ptrOk_fetchedOn.mp ptrOk) notOther]
    refine onKey_of_ne ?_
    exact fun same => noInner.1 same.symm
  have rest : (above.map AvlFrame.node).map (moved side node pivot down up) =
      above.map AvlFrame.node := by
    refine map_moved_of_untouched ?_
    intro local_ mem
    rcases List.mem_map.mp mem with ⟨frame', frameMem, rfl⟩
    have isAbove : frame'.node.key ∈ above.map (fun frame => frame.node.key) :=
      List.mem_map_of_mem frameMem
    refine apart.isAbove _ (List.mem_cons_of_mem _ isAbove) ?_
    rw [isFrame]
    exact fun same => distinct.1 (same ▸ isAbove)
  rw [List.map_cons, List.map_cons, frameEq, rest]
  rfl

theorem map_moved_beside (apart : Apart frames side node pivot inner outer other) :
    (sideNodes frames).map (moved side node pivot down up) = sideNodes frames := by
  refine map_moved_of_untouched ?_
  intro local_ mem
  rcases List.mem_flatMap.mp mem with ⟨frame, frameMem, mem⟩
  exact apart.isBeside _ (List.mem_flatMap.mpr ⟨frame, frameMem, key_mem_keys mem⟩)

theorem slot_moved (local_ : AvlLocal label nodes frames
    (fetchedOn side node (fetchedOn (!side) pivot inner outer) other))
    (downEq : down = rotateDown (!side) pivot node)
    (upEq : up = rotateUp (!side) down pivot node.parentKey) {local_' : AVLLocalNode}
    (mem : local_' ∈ nodes) :
    (moved side node pivot down up local_').slot = local_'.slot := by
  have apart := local_.apart
  have rootMem : ∀ root ∈ [node, pivot], root ∈ nodes := by
    intro root rootMem
    refine local_.perm.mem_iff.mpr (List.mem_append_right _ (List.mem_append_left _ ?_))
    refine (nodes_rotatable _ _ _ _ _ _).mem_iff.mpr ?_
    simp only [List.mem_cons, List.not_mem_nil, or_false] at rootMem ⊢
    tauto
  have only : ∀ root ∈ [node, pivot], local_'.key = root.key → local_' = root :=
    fun root isRoot same => List.inj_on_of_nodup_map local_.nodup_keys mem (rootMem root isRoot) same
  by_cases isNode : local_'.key = node.key
  · rw [only node (by simp) isNode, moved_node apart (by rw [downEq, rotateDown_eq]), downEq,
      rotateDown_eq]
    rfl
  by_cases isPivot : local_'.key = pivot.key
  · rw [only pivot (by simp) isPivot, moved_pivot apart (by rw [upEq, rotateUp_eq]), upEq,
      rotateUp_eq]
    rfl
  have adopted : ∀ child : AVLLocalNode,
      ({ child with parentKey := node.key } : AVLLocalNode).slot = child.slot := fun _ => rfl
  rw [moved, onKey_of_ne isNode, onKey_of_ne isPivot, slot_onKey adopted,
    slot_onKey (slot_relinkChild _ _)]

/-- The local nodes after a rotation. -/
theorem rotated_local (local_ : AvlLocal label nodes frames
    (fetchedOn side node (fetchedOn (!side) pivot inner outer) other))
    (downEq : down = rotateDown (!side) pivot node)
    (upEq : up = rotateUp (!side) down pivot node.parentKey) :
    AvlLocal label (nodes.map (moved side node pivot down up))
      (refocus ⟨up.key, up.leaf, up.avl.height⟩ frames) (rotated side down up inner outer other) := by
  have apart := local_.apart
  have innerKey := local_.innerKey_cases.1
  have downKey : down.key = node.key := by rw [downEq, rotateDown_eq]
  have upKey : up.key = pivot.key := by rw [upEq, rotateUp_eq]
  have sameKeys : (plug (refocus ⟨up.key, up.leaf, up.avl.height⟩ frames)
      (rotated side down up inner outer other)).tree.keys = (plug frames
        (fetchedOn side node (fetchedOn (!side) pivot inner outer) other)).tree.keys :=
    keys_plug_refocus _ frames (by rw [tree_rotated downEq upEq, BinaryTree.toList_rotate])
  rcases linked_fetchedOn.mp local_.linked with
    ⟨_, otherPtr, pivotParent, otherParent, pivotLinked, otherLinked⟩
  rcases linked_fetchedOn.mp pivotLinked with
    ⟨innerPtr, outerPtr, _, outerParent, innerLinked, outerLinked⟩
  rw [Bool.not_not] at outerPtr
  refine ⟨?_, local_.spine.refocus ?_ ?_, ?_, ?_, ?_⟩
  · rcases local_.order with ⟨rest, orderEq, restPerm⟩
    refine ⟨rest.map (moved side node pivot down up), ?_, ?_⟩
    · rw [orderEq, List.map_append, List.map_reverse, local_.map_moved_above]
    · have before := (nodes_rotatable side node pivot inner outer other).map
        (moved side node pivot down up)
      simp only [List.map_cons, List.map_append] at before
      rw [moved_node apart downKey, moved_pivot apart upKey, map_moved_inner apart innerKey,
        map_moved_of_untouched (fun _ mem => apart.inOuter _ (key_mem_keys mem)),
        map_moved_of_untouched (fun _ mem => apart.inOther _ (key_mem_keys mem))] at before
      refine (restPerm.map _).trans ?_
      rw [List.map_append, map_moved_beside apart, sideNodes_refocus]
      refine (before.trans ?_).append_right _
      rw [← downKey]
      exact (nodes_rotated side down up inner outer other).symm
  · rw [rotated, ptrOk_fetchedOn]
  · intro key
    rw [rotated, parentIs_fetchedOn, parentIs_fetchedOn, upEq, rotateUp_eq]
    exact id
  · rw [rotated, linked_fetchedOn, linked_fetchedOn]
    refine ⟨?_, ?_, ?_, ?_, ⟨?_, ?_, ?_, ?_, ?_, ?_⟩, ?_⟩
    · simp [upEq, rotateUp_eq]
    · rw [upEq, rotateUp_eq, Bool.not_not]
      simpa using outerPtr
    · rw [parentIs_fetchedOn, downEq, rotateDown_eq, upKey]
    · rw [upKey]
      exact outerParent
    · simpa [downEq, rotateDown_eq] using innerPtr
    · simpa [downEq, rotateDown_eq] using otherPtr
    · exact inner.parentIs_setParent down.key
    · rw [downKey]
      exact otherParent
    · simpa using innerLinked
    · exact otherLinked
    · exact outerLinked
  · rw [sameKeys]
    exact local_.nodup
  · rw [sameKeys]
    exact local_.valid

theorem exact_rotated (downEq : down = rotateDown (!side) pivot node)
    (upEq : up = rotateUp (!side) down pivot node.parentKey)
    (exact : (fetchedOn side node (fetchedOn (!side) pivot inner outer) other).HeightsExact) :
    (rotated side down up inner outer other).HeightsExact := by
  rcases heightsExact_fetchedOn.mp exact with ⟨_, otherHeight, pivotExact, otherExact⟩
  rcases heightsExact_fetchedOn.mp pivotExact with
    ⟨innerHeight, outerHeight, innerExact, outerExact⟩
  have downExact : (fetchedOn side down (inner.setParent down.key) other).HeightsExact := by
    refine heightsExact_fetchedOn.mpr ⟨?_, ?_, ?_, otherExact⟩
    · simpa [downEq, rotateDown_eq] using innerHeight
    · simpa [downEq, rotateDown_eq] using otherHeight
    · simpa using innerExact
  refine heightsExact_fetchedOn.mpr ⟨?_, ?_, downExact, outerExact⟩
  · rw [← height_of_exact_fetchedOn downExact, upEq, rotateUp_eq]
    simp
  · rw [upEq, rotateUp_eq, Bool.not_not]
    simpa using outerHeight

end Moved

end AvlLocal

/-- A rotation at the root of the focus. -/
theorem AvlFocus.rotate {label : Int → Int} {omap : AVLOmap} {frames : List AvlFrame} {side : Bool}
    {node pivot : AVLLocalNode} {inner outer other : AvlPart} {idx : Nat}
    (focus : AvlFocus label omap frames
      (fetchedOn side node (fetchedOn (!side) pivot inner outer) other))
    (exact : (fetchedOn side node (fetchedOn (!side) pivot inner outer) other).HeightsExact)
    (found : omap.local_[idx]? = some node) : ∃ ptr down up,
      Reshaped label omap (plug frames
        (fetchedOn side node (fetchedOn (!side) pivot inner outer) other)) (omap.rotate idx (!side))
          (plug (refocus ptr frames) (AvlLocal.rotated side down up inner outer other)) ∧
      AvlFocus label (omap.rotate idx (!side)) (refocus ptr frames)
        (AvlLocal.rotated side down up inner outer other) ∧
      (AvlLocal.rotated side down up inner outer other).HeightsExact ∧
      ptr.height = (AvlLocal.rotated side down up inner outer other).tree.height ∧
      (AvlLocal.rotated side down up inner outer other).tree = BinaryTree.rotate (!side)
        (fetchedOn side node (fetchedOn (!side) pivot inner outer) other).tree := by
  obtain ⟨down, downEq⟩ : ∃ down, down = rotateDown (!side) pivot node := ⟨_, rfl⟩
  obtain ⟨up, upEq⟩ : ∃ up, up = rotateUp (!side) down pivot node.parentKey := ⟨_, rfl⟩
  have local_ := focus.local_
  have apart := local_.apart
  have downKey : down.key = node.key := by rw [downEq, rotateDown_eq]
  have upKey : up.key = pivot.key := by rw [upEq, rotateUp_eq]
  have exact' := AvlLocal.exact_rotated downEq upEq exact
  have pivotMem : pivot ∈ omap.local_ := by
    refine local_.perm.mem_iff.mpr (List.mem_append_right _ (List.mem_append_left _ ?_))
    exact (AvlLocal.nodes_rotatable _ _ _ _ _ _).mem_iff.mpr (by simp)
  have isPivot : (node.avl.child side).key = pivot.key :=
    ptrOk_fetchedOn.mp (linked_fetchedOn.mp local_.linked).1
  have rotateEq := rotate_eq local_.nodup_keys local_.key_ne_invalid found pivotMem isPivot
    apart.node_ne_pivot.symm downEq upEq
  have treeEq : (AvlLocal.rotated side down up inner outer other).tree = _ :=
    AvlLocal.tree_rotated downEq upEq
  have upHeight := height_of_exact_fetchedOn exact'
  refine ⟨⟨up.key, up.leaf, up.avl.height⟩, down, up, ⟨by rw [rotateEq], ?_, ?_⟩, ⟨?_, ?_⟩, exact',
    upHeight, treeEq⟩
  · rw [rotateEq, List.map_map]
    exact List.map_congr_left (fun local_' mem => local_.slot_moved downEq upEq mem)
  · intro place half
    rw [blocks_plug, blocks_plug, siblings_refocus, AvlLocal.rotated, blocks_fetchedOn,
      blocks_fetchedOn, blocks_setParent, blocks_fetchedOn, blocks_fetchedOn]
    exact congrArg (· + _) (add_right_comm _ _ _)
  · rw [rotateEq]
    exact local_.rotated_local downEq upEq
  · have rootKey := focus.rootKey
    rw [rootKey_plug] at rootKey
    rw [rotateEq, rootKey_plug, keys_refocus]
    dsimp only
    rcases local_.parentKey_cases with ⟨rfl, _⟩ | ⟨frame, above, rfl, _⟩
    · have isRoot : omap.rootKey = node.key := by
        rw [rootKey]
        cases side <;> rfl
      rw [if_pos isRoot, ← upKey]
      cases side <;> rfl
    · have notAbove := apart.node_notAbove
      generalize lastEq : (List.map (fun frame => frame.node.key) (frame :: above)).getLast? = last
        at rootKey ⊢
      cases last with
      | none => simp at lastEq
      | some last =>
          have notRoot : omap.rootKey ≠ node.key := by
            rw [rootKey]
            exact fun same => notAbove (same ▸ List.mem_of_getLast? lastEq)
          rw [if_neg notRoot, rootKey]
          rfl

end TieredOmap
