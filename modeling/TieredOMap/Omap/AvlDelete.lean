import TieredOMap.Omap.AvlRename

/-!
# The deletion of `remove`

The traversal ends at the target, or at its in-order successor if the target has
two children. In both cases one node is taken out, and the way up to it is left
for rebalancing.
-/

namespace TieredOmap

open AvlPart

/-! ## The takeover in the local list -/

section Renaming

variable {oldKey newKey : Int} {data : Bytes} {label : Int → Int} {nodes : List AVLLocalNode}
  {inner frames : List AvlFrame} {part : AvlPart} {node : AVLLocalNode}

/-- Move the inner frames into the focus. -/
theorem AvlLocal.popInner (local_ : AvlLocal label nodes (inner ++ frames) part) :
    AvlLocal label nodes frames (plug inner part) := by
  induction inner generalizing part with
  | nil => exact local_
  | cons frame inner ih => exact ih local_.pop

/-- Move all frames into the focus. -/
theorem AvlLocal.popAll (local_ : AvlLocal label nodes frames part) :
    AvlLocal label nodes [] (plug frames part) :=
  AvlLocal.popInner (by simpa using local_)

/-- A node that mentions the old key as its parent at most. -/
theorem takeOver_other (notOld : node.key ≠ oldKey)
    (notChild : ∀ side, (node.avl.child side).key ≠ oldKey) :
    node.takeOver oldKey newKey data =
      if node.parentKey = oldKey then { node with parentKey := newKey } else node := by
  have left : node.avl.lKey ≠ oldKey := notChild true
  have right : node.avl.rKey ≠ oldKey := notChild false
  unfold AVLLocalNode.takeOver
  rw [renameKey_of_ne notOld, renameKey_of_ne left, renameKey_of_ne right, if_neg notOld, renameKey]
  split <;> rfl

/-- The parent of the renamed node. -/
theorem takeOver_parent (notOld : node.key ≠ oldKey)
    (different : node.avl.lKey = oldKey → node.avl.rKey ≠ oldKey)
    (notParent : node.parentKey ≠ oldKey) :
    node.takeOver oldKey newKey data = AVLOmap.renameChild oldKey newKey node := by
  unfold AVLLocalNode.takeOver AVLOmap.renameChild
  rw [renameKey_of_ne notOld, if_neg notOld, renameKey_of_ne notParent]
  by_cases isLeft : node.avl.lKey = oldKey
  · rw [if_pos isLeft, isLeft, renameKey_self, renameKey_of_ne (different isLeft)]
  · rw [if_neg isLeft, renameKey_of_ne isLeft]
    by_cases isRight : node.avl.rKey = oldKey
    · rw [if_pos isRight, isRight, renameKey_self]
    · rw [if_neg isRight, renameKey_of_ne isRight]

/-- The renamed node itself. -/
theorem takeOver_target (notChild : ∀ side, (node.avl.child side).key ≠ node.key)
    (notParent : node.parentKey ≠ node.key) :
    node.takeOver node.key newKey data =
      { node with key := newKey, avl := { node.avl with data } } := by
  have left : node.avl.lKey ≠ node.key := notChild true
  have right : node.avl.rKey ≠ node.key := notChild false
  unfold AVLLocalNode.takeOver
  rw [renameKey_self, renameKey_of_ne left, renameKey_of_ne right, renameKey_of_ne notParent,
    if_pos rfl]

theorem modify_at {α : Type} (before : List α) (item : α) (after : List α) (f : α → α) :
    (before ++ item :: after).modify before.length f = before ++ f item :: after := by
  rw [List.modify_eq_set_getElem?]
  simp

theorem spineKey_cases (frames : List AvlFrame) : AvlLocal.spineKey frames = invalidKey ∨
    AvlLocal.spineKey frames ∈ (frames.map AvlFrame.node).map AVLLocalNode.key := by
  cases frames with
  | nil => exact Or.inl rfl
  | cons frame frames => exact Or.inr (by simp [AvlLocal.spineKey])

/-- The target takes over its successor's key and data. -/
theorem AVLOmap.renameTarget_eq {omap : AVLOmap} {frame : AvlFrame} {succ : AVLLocalNode}
    (local_ : AvlLocal label omap.local_ (inner ++ frame :: frames) part)
    (isNext : omap.local_ = ((inner ++ frame :: frames).map AvlFrame.node).reverse ++ [succ]) :
    omap.renameTarget frames.length = omap.takeOver frame.node.key succ.key succ.avl.data := by
  set before := (frames.map AvlFrame.node).reverse with beforeDef
  set rest := (inner.map AvlFrame.node).reverse ++ [succ] with restDef
  have layout : omap.local_ = before ++ frame.node :: rest := by
    rw [isNext]
    simp [beforeDef, restDef]
  have countBefore : before.length = frames.length := by simp [beforeDef]
  have lastIs : omap.local_.getD (omap.local_.length - 1) default = succ := by
    rw [isNext, List.length_append, List.length_singleton, Nat.add_sub_cancel]
    simp
  have targetIs : omap.local_.getD frames.length default = frame.node := by
    rw [layout, ← countBefore]
    simp
  have focus := local_.popInner
  have parentEq : frame.node.parentKey = AvlLocal.spineKey frames :=
    parentIs_fetchedOn.mp (AvlLocal.parentIs_spineKey focus.pop.spine)
  have whole := local_.popAll
  have nodup := whole.nodup_keys
  have noInvalid := whole.key_ne_invalid
  have targetMem : frame.node ∈ omap.local_ := by
    rw [layout]
    simp
  have valid : frame.node.key ≠ invalidKey :=
    fun isInvalid => noInvalid (isInvalid ▸ List.mem_map_of_mem targetMem)
  have onlyParent : ∀ node ∈ omap.local_, node.key ≠ frame.node.parentKey →
      ∀ side, (node.avl.child side).key ≠ frame.node.key := by
    intro node mem notParent side refers
    refine notParent (parentKey_of_child whole.linked whole.nodup (whole.perm_plug.mem_iff.mp mem)
      (whole.perm_plug.mem_iff.mp targetMem) valid side refers).symm
  rw [layout, List.map_append, List.map_cons] at nodup
  rcases List.nodup_append.mp nodup with ⟨beforeNodup, afterNodup, apart⟩
  have beforeNe : ∀ node ∈ before, node.key ≠ frame.node.key :=
    fun node mem => apart _ (List.mem_map_of_mem mem) _ List.mem_cons_self
  have restNe : ∀ node ∈ rest, node.key ≠ frame.node.key :=
    fun node mem same => (List.nodup_cons.mp afterNodup).1 (same ▸ List.mem_map_of_mem mem)
  have spineMem : AvlLocal.spineKey frames = invalidKey ∨
      AvlLocal.spineKey frames ∈ before.map AVLLocalNode.key := by
    rw [beforeDef, List.map_reverse, List.mem_reverse]
    exact spineKey_cases frames
  have restNotParent : ∀ node ∈ rest, node.key ≠ frame.node.parentKey := by
    intro node mem same
    rw [parentEq] at same
    rcases spineMem with isInvalid | isAbove
    · refine noInvalid ?_
      rw [← isInvalid, ← same, layout]
      exact List.mem_map_of_mem (by simp [mem])
    · exact apart _ isAbove _ (List.mem_cons_of_mem _ (List.mem_map_of_mem mem)) same.symm
  have notOwnParent : frame.node.parentKey ≠ frame.node.key := by
    rw [parentEq]
    rcases spineMem with isInvalid | isAbove
    · rw [isInvalid]
      exact valid.symm
    · exact apart _ isAbove _ List.mem_cons_self
  have targetEq := @takeOver_target succ.key succ.avl.data frame.node
    (onlyParent _ targetMem notOwnParent.symm) notOwnParent
  have otherEq : ∀ node ∈ omap.local_, node.key ≠ frame.node.key →
      node.key ≠ frame.node.parentKey →
      node.takeOver frame.node.key succ.key succ.avl.data =
        if node.parentKey = frame.node.key then { node with parentKey := succ.key } else node :=
    fun node mem notTarget notParent => takeOver_other notTarget (onlyParent node mem notParent)
  have targetChanged : omap.local_.modify frames.length (fun node => { node with
      key := succ.key, avl := { node.avl with data := succ.avl.data } }) =
      before ++ frame.node.takeOver frame.node.key succ.key succ.avl.data :: rest := by
    rw [layout, ← countBefore, modify_at, targetEq]
  have listEq : (if frame.node.parentKey = invalidKey then
        before ++ frame.node.takeOver frame.node.key succ.key succ.avl.data :: rest
      else modifyFirst (fun parent => parent.key == frame.node.parentKey)
        (AVLOmap.renameChild frame.node.key succ.key)
        (before ++ frame.node.takeOver frame.node.key succ.key succ.avl.data :: rest)).map
          (fun child => if child.parentKey = frame.node.key then
            { child with parentKey := succ.key } else child) =
      omap.local_.map (AVLLocalNode.takeOver frame.node.key succ.key succ.avl.data) := by
    have restEq : rest.map (fun child => if child.parentKey = frame.node.key then
        { child with parentKey := succ.key } else child) =
        rest.map (AVLLocalNode.takeOver frame.node.key succ.key succ.avl.data) :=
      List.map_congr_left (fun node mem => (otherEq node (by rw [layout]; simp [mem])
        (restNe node mem) (restNotParent node mem)).symm)
    have targetSame : (frame.node.takeOver frame.node.key succ.key succ.avl.data).parentKey ≠
        frame.node.key := by
      rw [targetEq]
      exact notOwnParent
    cases frames with
    | nil =>
        have isRoot : frame.node.parentKey = invalidKey := parentEq
        rw [if_pos isRoot, layout, List.map_append, List.map_append, List.map_cons, List.map_cons,
          restEq, if_neg targetSame]
        rfl
    | cons parent above =>
        have beforeEq : before = (above.map AvlFrame.node).reverse ++ [parent.node] := by
          simp [beforeDef]
        have parentMem : parent.node ∈ omap.local_ := by
          rw [layout, beforeEq]
          simp
        have aboveMem : ∀ node ∈ (above.map AvlFrame.node).reverse, node ∈ before := by
          intro node mem
          rw [beforeEq]
          exact List.mem_append_left _ mem
        have isInner : frame.node.parentKey ≠ invalidKey := by
          rw [parentEq]
          exact fun isInvalid => noInvalid (isInvalid ▸ List.mem_map_of_mem parentMem)
        have aboveNe : ∀ node ∈ (above.map AvlFrame.node).reverse,
            node.key ≠ frame.node.parentKey := by
          rw [beforeEq, List.map_append] at beforeNodup
          rcases List.nodup_append.mp beforeNodup with ⟨_, _, apartParent⟩
          rw [parentEq]
          exact fun node mem => apartParent _ (List.mem_map_of_mem mem) _ List.mem_cons_self
        have skipped : ∀ node ∈ (above.map AvlFrame.node).reverse,
            (node.key == frame.node.parentKey) = false :=
          fun node mem => beq_eq_false_iff_ne.mpr (aboveNe node mem)
        have grandparent : parent.node.parentKey ≠ frame.node.key := by
          have grandEq : parent.node.parentKey = AvlLocal.spineKey above :=
            parentIs_fetchedOn.mp (AvlLocal.parentIs_spineKey focus.pop.pop.spine)
          rw [grandEq]
          rcases spineKey_cases above with isInvalid | isAbove
          · rw [isInvalid]
            exact valid.symm
          · rcases List.mem_map.mp isAbove with ⟨node, nodeMem, keyEq⟩
            exact keyEq ▸ beforeNe node (aboveMem node (List.mem_reverse.mpr nodeMem))
        have parentChanged : AVLOmap.renameChild frame.node.key succ.key parent.node =
            parent.node.takeOver frame.node.key succ.key succ.avl.data := by
          refine (takeOver_parent (beforeNe _ ?_) (fun isLeft isRight => valid ?_) grandparent).symm
          · rw [beforeEq]
            simp
          · exact isLeft.symm.trans (children_differ whole.linked whole.nodup
              (whole.perm_plug.mem_iff.mp parentMem) (isLeft.trans isRight.symm))
        have aboveEq : (above.map AvlFrame.node).reverse.map (fun child =>
            if child.parentKey = frame.node.key then
              { child with parentKey := succ.key } else child) =
            (above.map AvlFrame.node).reverse.map
              (AVLLocalNode.takeOver frame.node.key succ.key succ.avl.data) :=
          List.map_congr_left (fun node mem => (otherEq node
            (by rw [layout]; exact List.mem_append_left _ (aboveMem node mem))
            (beforeNe node (aboveMem node mem)) (aboveNe node mem)).symm)
        have parentSame : (parent.node.takeOver frame.node.key succ.key succ.avl.data).parentKey ≠
            frame.node.key := by
          change renameKey _ _ parent.node.parentKey ≠ _
          rw [renameKey_of_ne grandparent]
          exact grandparent
        rw [if_neg isInner, beforeEq, List.append_assoc, List.singleton_append,
          modifyFirst_at _ skipped (by rw [parentEq]; exact beq_self_eq_true _), parentChanged,
          layout, beforeEq]
        simp only [List.map_append, List.map_cons, List.append_assoc, List.singleton_append,
          if_neg targetSame, if_neg parentSame, restEq, aboveEq]
  unfold AVLOmap.renameTarget AVLOmap.takeOver
  simp only [lastIs, targetIs, targetChanged]
  rw [listEq]
  rfl

end Renaming

/-! ## Unlinking the successor -/

section Successor

variable [Cipher] {oldKey newKey : Int} {data : Bytes} {label : Int → Int} {level : Nat}
  {omap : AVLOmap} {frames : List AvlFrame} {node : AVLLocalNode} {left right : AvlTree}

omit [Cipher] in
theorem rootKey_ne {tree : AvlTree} (valid : oldKey ≠ invalidKey) (notMem : oldKey ∉ tree.keys) :
    tree.rootKey ≠ oldKey := by
  cases tree with
  | nil => exact valid.symm
  | node entry left right =>
      rintro rfl
      exact notMem (by simp [AvlTree.rootKey])

omit [Cipher] in
theorem onlyChild_takeOver (notChild : ∀ side, (node.avl.child side).key ≠ oldKey) :
    onlyChild (node.takeOver oldKey newKey data) = onlyChild node := by
  have left : node.avl.lKey ≠ oldKey := notChild true
  have right : node.avl.rKey ≠ oldKey := notChild false
  simp only [onlyChild, AVLLocalNode.takeOver, renameKey_of_ne left, renameKey_of_ne right]

omit [Cipher] in
theorem refocus_takeOver {ptr : ChildPtr} (notOld : ptr.key ≠ oldKey) (frames : List AvlFrame) :
    refocus ptr (frames.map (AvlFrame.takeOver oldKey newKey data)) =
      (refocus ptr frames).map (AvlFrame.takeOver oldKey newKey data) := by
  cases frames with
  | nil => rfl
  | cons frame frames =>
      rcases frame with ⟨node, onLeft, sibling⟩
      rcases ptr with ⟨key, leaf, height⟩
      have keyEq : renameKey oldKey newKey key = key := renameKey_of_ne notOld
      cases onLeft <;>
      simp [refocus, AvlFrame.refocus, AvlFrame.takeOver, AVLLocalNode.takeOver,
        AVLNodeData.setChild, keyEq]

/-- The successor is unlinked after its key has been taken over. -/
theorem Arrived.unlink_takeOver (arrived : Arrived label level omap frames node left right)
    (isAbove : oldKey ∈ frames.map (fun frame => frame.node.key)) (data : Bytes) :
    (omap.takeOver oldKey node.key data).unlink (omap.local_.length - 1) =
      (omap.unlink (omap.local_.length - 1)).takeOver oldKey node.key data := by
  have local_ := arrived.op.focus.local_
  have whole := local_.popAll
  have oldMem : oldKey ∈ omap.local_.map AVLLocalNode.key := by
    rw [arrived.isNext, List.map_append, List.map_reverse, List.map_map]
    exact List.mem_append_left _ (List.mem_reverse.mpr isAbove)
  have valid : oldKey ≠ invalidKey := fun isInvalid => whole.key_ne_invalid (isInvalid ▸ oldMem)
  have notStored : ∀ key ∈ left.keys ++ right.keys ++ sideKeys frames, key ≠ oldKey := by
    rintro key mem rfl
    exact whole.notMem_of_stored ((storedKeys_plug frames _).mem_iff.mpr mem) oldMem
  have rootNe : ∀ tree : AvlTree, (∀ key ∈ tree.keys,
      key ∈ left.keys ++ right.keys ++ sideKeys frames) → tree.rootKey ≠ oldKey :=
    fun tree sub => rootKey_ne valid (fun mem => notStored _ (sub _ mem) rfl)
  have notChild : ∀ side, (node.avl.child side).key ≠ oldKey := by
    rcases local_.linked with ⟨leftPtr, rightPtr, _⟩
    intro side
    cases side with
    | true =>
        rw [leftPtr.key_eq]
        exact rootNe left (fun key mem => by simp [mem])
    | false =>
        rw [rightPtr.key_eq]
        exact rootNe right (fun key mem => by simp [mem])
  have spareOld : (onlyChild node).key ≠ oldKey := by
    unfold onlyChild
    dsimp only
    split
    · exact notChild true
    · exact notChild false
  cases frames with
  | nil => cases isAbove
  | cons frame frames =>
      rcases local_.spine with ⟨ptrOk, parentIs, siblingPtr, _⟩
      have keysNodup := (keys_plug _ _).nodup_iff.mp local_.nodup
      rcases List.nodup_append.mp keysNodup with ⟨aboveNodup, focusNodup, apart⟩
      rcases List.nodup_append.mp focusNodup with ⟨_, _, apartFocus⟩
      have nodeMem : node.key ∈ (fetched node (stored left) (stored right)).tree.keys := by
        simp [AvlPart.tree]
      have nodeValid : node.key ≠ invalidKey := local_.valid _ (keys_sub_plug _ _ _ nodeMem)
      have aboveNe : ∀ key ∈ (frame :: frames).map (fun frame => frame.node.key),
          key ≠ node.key :=
        fun key mem => apart _ mem _ (List.mem_append_left _ nodeMem)
      have siblingOld : (frame.node.avl.child !frame.onLeft).key ≠ oldKey := by
        rcases arrived.sides frame List.mem_cons_self with ⟨tree, isStored⟩
        rw [isStored] at siblingPtr
        rw [siblingPtr.key_eq]
        refine rootNe tree (fun key mem => List.mem_append_right _ ?_)
        exact List.mem_flatMap.mpr ⟨frame, List.mem_cons_self, by rw [isStored]; exact mem⟩
      have siblingNode : (frame.node.avl.child !frame.onLeft).key ≠ node.key := by
        rcases siblingPtr.key_cases with isInvalid | isBeside
        · rw [isInvalid]
          exact nodeValid.symm
        · exact (apartFocus _ nodeMem _ (List.mem_flatMap.mpr
            ⟨frame, List.mem_cons_self, isBeside⟩)).symm
      have nodeOld : node.key ≠ oldKey := (aboveNe oldKey isAbove).symm
      have lengthEq : omap.local_.length =
          (omap.takeOver oldKey node.key data).local_.length := by
        simp [AVLOmap.takeOver]
      have isNext : (omap.takeOver oldKey node.key data).local_ =
          (((frame :: frames).map (AvlFrame.takeOver oldKey node.key data)).map
            AvlFrame.node).reverse ++ [node.takeOver oldKey node.key data] := by
        change omap.local_.map _ = _
        rw [arrived.isNext, List.map_append, List.map_reverse, List.map_map, List.map_map]
        rfl
      have parentEq : (node.takeOver oldKey node.key data).parentKey =
          (frame.takeOver oldKey node.key data).node.key :=
        congrArg (renameKey oldKey node.key) parentIs
      have parentValid : (frame.takeOver oldKey node.key data).node.key ≠ invalidKey := by
        change renameKey oldKey node.key frame.node.key ≠ invalidKey
        unfold renameKey
        split
        · exact nodeValid
        · exact local_.valid _ ((keys_plug _ _).mem_iff.mpr (by simp))
      have notAbove : (frame.takeOver oldKey node.key data).node.key ∉
          (frames.map (AvlFrame.takeOver oldKey node.key data)).map (fun frame => frame.node.key) := by
        intro mem
        rw [List.map_map] at mem
        rcases List.mem_map.mp mem with ⟨above, aboveMem, same⟩
        have sameKey : above.node.key = frame.node.key :=
          renameKey_inj (aboveNe _ (by simp [List.mem_map_of_mem aboveMem]))
            (aboveNe _ (by simp)) same
        exact (List.nodup_cons.mp aboveNodup).1 (List.mem_map.mpr ⟨above, aboveMem, sameKey⟩)
      have refers : ((frame.takeOver oldKey node.key data).node.avl.child frame.onLeft).key =
          (node.takeOver oldKey node.key data).key := by
        change ((frame.node.takeOver oldKey node.key data).avl.child frame.onLeft).key = _
        rw [child_takeOver]
        exact congrArg (renameKey oldKey node.key) ptrOk
      have notOther : ((frame.takeOver oldKey node.key data).node.avl.child !frame.onLeft).key ≠
          (node.takeOver oldKey node.key data).key := by
        change ((frame.node.takeOver oldKey node.key data).avl.child !frame.onLeft).key ≠
          renameKey oldKey node.key node.key
        rw [child_takeOver, renameKey_of_ne nodeOld]
        change renameKey oldKey node.key (frame.node.avl.child !frame.onLeft).key ≠ node.key
        rw [renameKey_of_ne siblingOld]
        exact siblingNode
      rw [lengthEq, AVLOmap.unlink_inner isNext parentEq parentValid notAbove refers notOther,
        ← lengthEq, arrived.unlink_eq, onlyChild_takeOver notChild]
      have rows : ((refocus (onlyChild node) ((frame :: frames).map
          (AvlFrame.takeOver oldKey node.key data))).map AvlFrame.node).reverse =
          ((refocus (onlyChild node) (frame :: frames)).map AvlFrame.node).reverse.map
            (AVLLocalNode.takeOver oldKey node.key data) := by
        rw [refocus_takeOver spareOld, List.map_reverse, List.map_map, List.map_map]
        rfl
      rw [← List.map_cons, rows]
      simp only [AVLOmap.takeOver, if_neg (List.cons_ne_nil _ _)]

omit [Cipher] in
/-- The frame of a node that does not have the old key. -/
theorem frame_takeOver {frame : AvlFrame} (isStored : ∃ tree, frame.sibling = stored tree)
    (differs : frame.node.key ≠ oldKey) :
    (frame.takeOver oldKey newKey data).frame = frame.frame := by
  rcases frame with ⟨node, onLeft, sibling⟩
  rcases isStored with ⟨tree, rfl⟩
  simp only [AvlFrame.takeOver, AvlFrame.frame, AVLLocalNode.takeOver, AvlPart.takeOver,
    renameKey_of_ne differs, if_neg differs]

omit [Cipher] in
theorem map_frame_takeOver (sides : StoredSides frames)
    (notMem : oldKey ∉ frames.map (fun frame => frame.node.key)) :
    (frames.map (AvlFrame.takeOver oldKey newKey data)).map AvlFrame.frame =
      frames.map AvlFrame.frame := by
  rw [List.map_map]
  refine List.map_congr_left (fun frame mem => frame_takeOver (sides frame mem) ?_)
  rintro rfl
  exact notMem (List.mem_map_of_mem mem)

/-- A node with two children is deleted by taking out its successor. -/
theorem Arrived.deleted_two {inner : List AvlFrame} {target : AVLLocalNode} {beside : AvlTree}
    (arrived : Arrived label level omap (inner ++ childFrame false target beside :: frames) node
      .nil right) :
    ∃ frames', Deleted label level
        ((omap.renameTarget frames.length).unlink (omap.local_.length - 1)) frames' right ∧
      frames'.map AvlFrame.frame = inner.map AvlFrame.frame ++
        ⟨false, (node.key, node.avl.data), beside⟩ :: frames.map AvlFrame.frame ∧
      ((omap.renameTarget frames.length).unlink (omap.local_.length - 1)).maxHeight =
        omap.maxHeight := by
  have op := arrived.op
  have local_ := op.focus.local_
  have isAbove : target.key ∈ (inner ++ childFrame false target beside :: frames).map
      (fun frame => frame.node.key) := by
    simp [childFrame]
  rcases arrived.unlinked (Or.inl rfl) with ⟨deleted, sameHeight⟩
  have keys := @keys_unlinked .nil right (Or.inl rfl)
    (inner ++ childFrame false target beside :: frames)
    (AvlTree.ptr label (spareTree .nil right)) node
  rw [AVLOmap.renameTarget_eq local_ arrived.isNext]
  change ∃ frames', Deleted label level ((omap.takeOver target.key node.key node.avl.data).unlink
    (omap.local_.length - 1)) frames' right ∧ _ ∧ ((omap.takeOver target.key node.key
      node.avl.data).unlink (omap.local_.length - 1)).maxHeight = omap.maxHeight
  rw [arrived.unlink_takeOver isAbove]
  have nodup := keys.nodup_iff.mp local_.nodup
  have nodeMem : node.key ∈ (plug (inner ++ childFrame false target beside :: frames)
      (fetched node (stored .nil) (stored right))).tree.keys :=
    keys.mem_iff.mpr List.mem_cons_self
  have valid : target.key ≠ invalidKey :=
    local_.valid _ ((keys_plug _ _).mem_iff.mpr (List.mem_append_left _ isAbove))
  have notStored : target.key ∉ (plug (refocus (AvlTree.ptr label right)
      (inner ++ childFrame false target beside :: frames)) (stored right)).storedKeys := by
    have after := deleted.op.focus.local_
    refine fun mem => after.popAll.notMem_of_stored mem ?_
    refine ((after.perm.map AVLLocalNode.key).mem_iff).mpr ?_
    rw [List.map_append, List.map_map]
    refine List.mem_append_left _ ?_
    have sameKeys := keys_refocus (AvlTree.ptr label right)
      (inner ++ childFrame false target beside :: frames)
    exact sameKeys ▸ isAbove
  have rootNe : (AvlTree.ptr label right).key ≠ target.key := by
    rw [AvlTree.ptr_key]
    refine rootKey_ne valid (fun mem => notStored ?_)
    exact (storedKeys_plug _ _).mem_iff.mpr (List.mem_append_left _ mem)
  have frameKeys := (List.nodup_append.mp ((keys_plug _ _).nodup_iff.mp local_.nodup)).1
  rw [List.map_append, List.map_cons] at frameKeys
  rcases List.nodup_append.mp frameKeys with ⟨_, outerNodup, apart⟩
  refine ⟨_, deleted.takeOver node.avl.data valid (local_.valid _ nodeMem) notStored
    (List.nodup_cons.mp nodup).1 (op.fits.leaves _ nodeMem) (op.fits.ints _ nodeMem), ?_,
    sameHeight⟩
  have targetFrame : ((childFrame false target beside).takeOver target.key node.key
      node.avl.data).frame = ⟨false, (node.key, node.avl.data), beside⟩ := by
    simp [childFrame, AvlFrame.takeOver, AvlFrame.frame, AVLLocalNode.takeOver, renameKey_self,
      AvlPart.takeOver, AvlPart.tree]
  have innerNotMem : target.key ∉ inner.map (fun frame => frame.node.key) :=
    fun mem => apart _ mem _ List.mem_cons_self rfl
  have outerNotMem : target.key ∉ frames.map (fun frame => frame.node.key) :=
    (List.nodup_cons.mp outerNodup).1
  change ((refocus (AvlTree.ptr label right) (inner ++ childFrame false target beside ::
    frames)).map (AvlFrame.takeOver target.key node.key node.avl.data)).map AvlFrame.frame = _
  rw [← refocus_takeOver rootNe, map_frame_refocus, List.map_append, List.map_append, List.map_cons,
    List.map_cons, targetFrame,
    map_frame_takeOver (fun frame mem => arrived.sides frame (by simp [mem])) innerNotMem,
    map_frame_takeOver (fun frame mem => arrived.sides frame (by simp [mem])) outerNotMem]

end Successor

/-! ## The traversal -/

section Traversal

variable [Cipher] {label : Int → Int} {level : Nat} {omap : AVLOmap} {frames : List AvlFrame}
  {tree left right : AvlTree} {entry : Int × Bytes} {node : AVLLocalNode}

/-- The way on to the successor. -/
theorem OnWay.ends_successorLoop (count : Nat) (depth : Int)
    (way : OnWay label level omap frames (.node entry left right))
    (le : BinaryTree.height (.node entry left right) ≤ count) :
    Ends (AVLOmap.successorLoop count depth entry.1 (label entry.1) omap) (fun omap' =>
      omap'.maxHeight = omap.maxHeight ∧ ∃ inner succ rest,
        Arrived label level omap' (inner ++ frames) succ .nil rest ∧
        BinaryTree.leftmost left [] entry right =
          (inner.map AvlFrame.frame, (succ.key, succ.avl.data), rest)) := by
  induction count generalizing omap frames entry left right depth with
  | zero => exact absurd le (by simp [BinaryTree.height])
  | succ count ih =>
      unfold AVLOmap.successorLoop
      refine Prog.ends_bind (way.ends_step depth) ?_
      rintro ⟨_, omap'⟩ ⟨rfl, arrived, sameHeight⟩
      dsimp only
      simp only [BinaryTree.height] at le
      cases left with
      | nil =>
          have isLast : (fetchedNode label entry .nil right (AvlLocal.spineKey frames)
              depth).avl.lKey = invalidKey := rfl
          rw [if_pos isLast]
          exact Prog.ends_pure ⟨sameHeight, [], _, right, arrived, rfl⟩
      | node entry' left' right' =>
          have entered : OnWay label level omap' (childFrame true (fetchedNode label entry
              (.node entry' left' right') right (AvlLocal.spineKey frames) depth) right :: frames)
              (.node entry' left' right') := arrived.enter true
          have goesOn : (fetchedNode label entry (.node entry' left' right') right
              (AvlLocal.spineKey frames) depth).avl.lKey ≠ invalidKey := entered.key_ne_invalid
          rw [if_neg goesOn]
          refine (ih (depth + 1) entered (by omega)).mono ?_
          rintro omap'' ⟨same, inner, succ, rest, arrived', way'⟩
          refine ⟨same.trans sameHeight, inner ++ [childFrame true (fetchedNode label entry
            (.node entry' left' right') right (AvlLocal.spineKey frames) depth) right], succ, rest,
            ?_, ?_⟩
          · rw [List.append_assoc]
            exact arrived'
          · have split := BinaryTree.leftmost_append left' [] [⟨true, entry, right⟩] entry' right'
            rw [way'] at split
            rw [BinaryTree.leftmost, ← List.nil_append [_], split, List.map_append]
            rfl

/-- What `remove` has done once the target has been deleted: `way` is where the key is. -/
def AfterDeletion (label : Int → Int) (level : Nat) (omap : AVLOmap)
    (way : List (BinaryTree.Frame (Int × Bytes)) × AvlTree)
    (outcome : Option AVLOmap.RemoveTarget × AVLOmap) : Prop :=
  (outcome.2.deleteTarget outcome.1).maxHeight = omap.maxHeight ∧ ∃ frames,
    Deleted label level (outcome.2.deleteTarget outcome.1) frames
      (BinaryTree.cutRoot way.1 way.2).2 ∧
    frames.map AvlFrame.frame = (BinaryTree.cutRoot way.1 way.2).1

omit [Cipher] in
theorem cutRoot_spareTree (spare : left = .nil ∨ right = .nil)
    (frames : List (BinaryTree.Frame (Int × Bytes))) :
    BinaryTree.cutRoot frames (.node entry left right) = (frames, spareTree left right) := by
  rcases spare with rfl | rfl
  · rfl
  · cases left with
    | nil => rfl
    | node entry' below above => rfl

/-- A key that is not there. -/
theorem OnWay.afterDeletion_nil (way : OnWay label level omap frames .nil) :
    AfterDeletion label level omap (frames.map AvlFrame.frame, .nil) (none, omap) :=
  ⟨rfl, frames, ⟨way.op, way.sides, (sides_of_exact way.exact).2⟩, rfl⟩

/-- The traversal has found the key. -/
theorem Arrived.ends_found (arrived : Arrived label level omap frames node left right)
    (count : Nat) (depth : Int) (le : right.height ≤ count) :
    Ends (if node.avl.lKey ≠ invalidKey ∧ node.avl.rKey ≠ invalidKey then do
          let omap' ← AVLOmap.successorLoop count depth node.avl.rKey node.avl.rLeaf omap
          return (some { idx := omap.local_.length - 1, twoChild := true }, omap')
        else return (some { idx := omap.local_.length - 1, twoChild := false }, omap))
      (AfterDeletion label level omap
        (frames.map AvlFrame.frame, .node (node.key, node.avl.data) left right)) := by
  have local_ := arrived.op.focus.local_
  rcases local_.linked with ⟨leftPtr, rightPtr, _⟩
  have leftKey : node.avl.lKey = left.rootKey := leftPtr.key_eq
  have rightKey : node.avl.rKey = right.rootKey := rightPtr.key_eq
  -- With at most one child the node itself is unlinked.
  have unlinks : left = .nil ∨ right = .nil → AfterDeletion label level omap
      (frames.map AvlFrame.frame, .node (node.key, node.avl.data) left right)
      (some { idx := omap.local_.length - 1, twoChild := false }, omap) := by
    intro spare
    rcases arrived.unlinked spare with ⟨deleted, sameHeight⟩
    rw [AfterDeletion, cutRoot_spareTree spare]
    exact ⟨sameHeight, _, deleted, map_frame_refocus _ _⟩
  cases left with
  | nil =>
      rw [if_neg (fun both => both.1 leftKey)]
      exact Prog.ends_pure (unlinks (Or.inl rfl))
  | node leftEntry leftBelow leftAbove =>
      cases right with
      | nil =>
          rw [if_neg (fun both => both.2 rightKey)]
          exact Prog.ends_pure (unlinks (Or.inr rfl))
      | node rightEntry rightBelow rightAbove =>
          have entered : OnWay label level omap
              (childFrame false node (.node leftEntry leftBelow leftAbove) :: frames)
              (.node rightEntry rightBelow rightAbove) := arrived.enter false
          have entered' : OnWay label level omap
              (childFrame true node (.node rightEntry rightBelow rightAbove) :: frames)
              (.node leftEntry leftBelow leftAbove) := arrived.enter true
          have both : node.avl.lKey ≠ invalidKey ∧ node.avl.rKey ≠ invalidKey := by
            rw [leftKey, rightKey]
            exact ⟨entered'.key_ne_invalid, entered.key_ne_invalid⟩
          have rightRoot : node.avl.rKey = rightEntry.1 := rightKey
          have rightLeaf : node.avl.rLeaf = label rightEntry.1 := congrArg ChildPtr.leaf rightPtr
          have idxEq : omap.local_.length - 1 = frames.length := by
            rw [arrived.isNext]
            simp
          rw [if_pos both, rightRoot, rightLeaf, idxEq]
          refine Prog.ends_bind (entered.ends_successorLoop count depth le) ?_
          rintro omap' ⟨sameHeight, inner, succ, rest, arrived', wayEq⟩
          rcases arrived'.deleted_two with ⟨frames', deleted, framesEq, sameHeight'⟩
          refine Prog.ends_pure ⟨sameHeight'.trans sameHeight, frames', ?_, ?_⟩
          · simp only [BinaryTree.cutRoot, wayEq]
            exact deleted
          · simp only [BinaryTree.cutRoot, wayEq]
            exact framesEq

/-- The traversal of `remove`, and the deletion at its end. -/
theorem OnWay.ends_removeLoop (key : Int) (count : Nat) (depth : Int)
    (way : OnWay label level omap frames tree) (le : tree.height ≤ count) :
    Ends (AVLOmap.removeLoop key count depth (tree.ptr label).key (tree.ptr label).leaf omap)
      (AfterDeletion label level omap
        (BinaryTree.descend key tree (frames.map AvlFrame.frame))) := by
  induction count generalizing omap frames tree depth with
  | zero =>
      cases tree with
      | nil => exact Prog.ends_pure way.afterDeletion_nil
      | node entry left right => exact absurd le (by simp [BinaryTree.height])
  | succ count ih =>
      cases tree with
      | nil =>
          change Ends (AVLOmap.removeLoop key (count + 1) depth invalidKey invalidLeaf omap) _
          unfold AVLOmap.removeLoop
          rw [if_pos rfl]
          exact Prog.ends_pure way.afterDeletion_nil
      | node entry left right =>
          change Ends
            (AVLOmap.removeLoop key (count + 1) depth entry.1 (label entry.1) omap) _
          unfold AVLOmap.removeLoop
          rw [if_neg way.key_ne_invalid]
          refine Prog.ends_bind (way.ends_step depth) ?_
          rintro ⟨_, omap'⟩ ⟨rfl, arrived, sameHeight⟩
          dsimp only
          simp only [BinaryTree.height] at le
          have maxEq : ∀ way outcome, AfterDeletion label level omap' way outcome →
              AfterDeletion label level omap way outcome :=
            fun _ _ ⟨same, found⟩ => ⟨same.trans sameHeight, found⟩
          unfold BinaryTree.descend
          by_cases here : key = entry.1
          · rw [if_pos here, if_pos here]
            exact (arrived.ends_found count (depth + 1) (by omega)).mono (maxEq _)
          · rw [if_neg here, if_neg here]
            by_cases less : key < entry.1
            · have less' : key < (fetchedNode label entry left right (AvlLocal.spineKey frames)
                  depth).key := less
              rw [if_pos less', if_pos less]
              exact (ih (depth + 1) (arrived.enter true) (by omega)).mono (maxEq _)
            · have less' : ¬ key < (fetchedNode label entry left right (AvlLocal.spineKey frames)
                  depth).key := less
              rw [if_neg less', if_neg less]
              exact (ih (depth + 1) (arrived.enter false) (by omega)).mono (maxEq _)

end Traversal

end TieredOmap
