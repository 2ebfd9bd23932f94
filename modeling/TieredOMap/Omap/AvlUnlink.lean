import TieredOMap.Omap.AvlUpdate

/-!
# Taking a node out

`remove` unlinks a node with at most one child from its parent. A node with two
children first takes over the key and the data of its successor, which is
unlinked in its place; this renames a key in the local nodes.
-/

namespace TieredOmap

open AvlPart

/-! ## Unlinking the last node -/

section Unlink

variable {label : Int → Int} {omap : AVLOmap} {frame : AvlFrame} {frames : List AvlFrame}
  {node : AVLLocalNode}

/-- The only child of a node, as `unlink` passes it on. -/
def onlyChild (node : AVLLocalNode) : ChildPtr where
  key := if node.avl.lKey ≠ invalidKey then node.avl.lKey else node.avl.rKey
  leaf := if node.avl.lKey ≠ invalidKey then node.avl.lLeaf else node.avl.rLeaf
  height :=
    if (if node.avl.lKey ≠ invalidKey then node.avl.lKey else node.avl.rKey) = invalidKey then 0
    else if node.avl.lKey ≠ invalidKey then node.avl.lHeight else node.avl.rHeight

theorem replaceChild_eq {side : Bool} {parent : AVLLocalNode} {oldKey : Int} (ptr : ChildPtr)
    (isChild : (parent.avl.child side).key = oldKey)
    (notOther : (parent.avl.child !side).key ≠ oldKey) :
    AVLOmap.replaceChild oldKey ptr.key ptr.leaf ptr.height parent =
      { parent with avl := parent.avl.setChild side ptr } := by
  unfold AVLOmap.replaceChild
  cases side with
  | true =>
      simp only [AVLNodeData.child] at isChild
      rw [if_pos isChild]
      rfl
  | false =>
      simp only [AVLNodeData.child, Bool.not_false] at isChild notOther
      rw [if_neg notOther, if_pos isChild]
      rfl

theorem modifyFirst_at {α : Type} {p : α → Bool} (f : α → α) {before : List α} {item : α}
    (skipped : ∀ other ∈ before, p other = false) (isFirst : p item = true) (after : List α) :
    modifyFirst p f (before ++ item :: after) = before ++ f item :: after := by
  induction before with
  | nil => simp [modifyFirst, isFirst]
  | cons other before ih =>
      have notOther : p other = false := skipped other List.mem_cons_self
      rw [List.cons_append, modifyFirst, if_neg (by simp [notOther]),
        ih (fun other' mem => skipped other' (List.mem_cons_of_mem _ mem)), List.cons_append]

theorem AVLOmap.unlink_eq {idx : Nat} (isNode : omap.local_.getD idx default = node) :
    omap.unlink idx =
      if node.parentKey = invalidKey then { omap with
        rootKey := (onlyChild node).key
        rootLeaf := if (onlyChild node).key = invalidKey then invalidLeaf
          else (onlyChild node).leaf
        local_ := omap.local_.eraseIdx idx }
      else { omap with
        local_ := (modifyFirst (fun parent => parent.key == node.parentKey)
          (AVLOmap.replaceChild node.key (onlyChild node).key (onlyChild node).leaf
            (onlyChild node).height) omap.local_).eraseIdx idx } := by
  have onLeft : ((node.avl.lKey != invalidKey) = true) = (node.avl.lKey ≠ invalidKey) := by simp
  unfold AVLOmap.unlink
  simp only [isNode, onLeft]
  split <;> rfl

/-- The parent of the unlinked node gets its child. -/
theorem AVLOmap.unlink_inner
    (isNext : omap.local_ = ((frame :: frames).map AvlFrame.node).reverse ++ [node])
    (parentEq : node.parentKey = frame.node.key) (valid : frame.node.key ≠ invalidKey)
    (notAbove : frame.node.key ∉ frames.map (fun frame => frame.node.key))
    (refers : (frame.node.avl.child frame.onLeft).key = node.key)
    (notOther : (frame.node.avl.child !frame.onLeft).key ≠ node.key) :
    omap.unlink (omap.local_.length - 1) = { omap with
      local_ := ((refocus (onlyChild node) (frame :: frames)).map AvlFrame.node).reverse } := by
  have last : omap.local_.length - 1 = (frames.map AvlFrame.node).reverse.length + 1 := by
    rw [isNext]
    simp
  have layout : omap.local_ = (frames.map AvlFrame.node).reverse ++ frame.node :: [node] := by
    rw [isNext, List.map_cons, List.reverse_cons, List.append_assoc]
    rfl
  have isLast : omap.local_.getD (omap.local_.length - 1) default = node := by
    rw [last, layout]
    simp
  have skipped : ∀ other ∈ (frames.map AvlFrame.node).reverse,
      (other.key == frame.node.key) = false := by
    intro other mem
    refine beq_eq_false_iff_ne.mpr (fun same => notAbove ?_)
    rcases List.mem_map.mp (List.mem_reverse.mp mem) with ⟨above, aboveMem, rfl⟩
    exact same ▸ List.mem_map_of_mem aboveMem
  have relinked := replaceChild_eq (onlyChild node) refers notOther
  rw [AVLOmap.unlink_eq isLast, if_neg (by rw [parentEq]; exact valid)]
  have relinkedAll : (modifyFirst (fun parent => parent.key == node.parentKey)
      (AVLOmap.replaceChild node.key (onlyChild node).key (onlyChild node).leaf
        (onlyChild node).height) omap.local_).eraseIdx (omap.local_.length - 1) =
      ((refocus (onlyChild node) (frame :: frames)).map AvlFrame.node).reverse := by
    rw [last, layout, parentEq, modifyFirst_at _ skipped (beq_self_eq_true _), relinked,
      List.eraseIdx_append_of_length_le (by simp)]
    simp [refocus, AvlFrame.refocus]
  rw [relinkedAll]

/-- The only child of the root becomes the root. -/
theorem AVLOmap.unlink_root (isOnly : omap.local_ = [node]) (isRoot : node.parentKey = invalidKey) :
    omap.unlink (omap.local_.length - 1) = { omap with
      rootKey := (onlyChild node).key
      rootLeaf := if (onlyChild node).key = invalidKey then invalidLeaf else (onlyChild node).leaf
      local_ := [] } := by
  have isLast : omap.local_.getD (omap.local_.length - 1) default = node := by
    rw [isOnly]
    rfl
  rw [AVLOmap.unlink_eq isLast, if_pos isRoot, isOnly]
  rfl

/-- The one subtree below a node whose other subtree is empty. -/
def spareTree (left right : AvlTree) : AvlTree :=
  match left with
  | .nil => right
  | left => left

theorem onlyChild_eq {left right : AvlTree} (leftPtr : node.avl.child true = left.ptr label)
    (rightPtr : node.avl.child false = right.ptr label)
    (leftValid : left ≠ .nil → left.rootKey ≠ invalidKey)
    (rightValid : right ≠ .nil → right.rootKey ≠ invalidKey) :
    onlyChild node = (spareTree left right).ptr label := by
  rcases node with ⟨key, leaf, ⟨data, lKey, lLeaf, lHeight, rKey, rLeaf, rHeight⟩, parentKey, depth⟩
  simp only [AVLNodeData.child] at leftPtr rightPtr
  cases left with
  | nil =>
      simp only [AvlTree.ptr, ChildPtr.mk.injEq] at leftPtr
      rcases leftPtr with ⟨rfl, rfl, rfl⟩
      cases right with
      | nil =>
          simp only [AvlTree.ptr, ChildPtr.mk.injEq] at rightPtr
          rcases rightPtr with ⟨rfl, rfl, rfl⟩
          rfl
      | node entry below above =>
          have valid : entry.1 ≠ invalidKey := rightValid (by simp)
          simp only [AvlTree.ptr, ChildPtr.mk.injEq] at rightPtr
          rcases rightPtr with ⟨rfl, rfl, rfl⟩
          simp [onlyChild, spareTree, AvlTree.ptr, valid]
  | node entry below above =>
      have valid : entry.1 ≠ invalidKey := leftValid (by simp)
      simp only [AvlTree.ptr, ChildPtr.mk.injEq] at leftPtr
      rcases leftPtr with ⟨rfl, rfl, rfl⟩
      simp [onlyChild, spareTree, AvlTree.ptr, valid]

end Unlink

/-! ## The state after a deletion -/

section Deleted

variable [Cipher] {label : Int → Int} {level : Nat} {omap : AVLOmap} {frames : List AvlFrame}
  {node : AVLLocalNode} {tree left right : AvlTree}

/-- A node has been taken out at the focus, which may have lost a level. -/
structure Deleted (label : Int → Int) (level : Nat) (omap : AVLOmap) (frames : List AvlFrame)
    (tree : AvlTree) : Prop where
  op : AvlOp label level omap frames (stored tree)
  storedSides : StoredSides frames
  sides : SidesExact frames

omit [Cipher] in
theorem spareTree_cases (spare : left = .nil ∨ right = .nil) :
    left = .nil ∧ spareTree left right = right ∨ right = .nil ∧ spareTree left right = left := by
  rcases spare with rfl | rfl
  · exact Or.inl ⟨rfl, rfl⟩
  · cases left with
    | nil => exact Or.inl ⟨rfl, rfl⟩
    | node entry below above => exact Or.inr ⟨rfl, rfl⟩

omit [Cipher] in
theorem keys_spareTree (spare : left = .nil ∨ right = .nil) (entry : Int × Bytes) :
    (AvlTree.keys (.node entry left right)).Perm (entry.1 :: (spareTree left right).keys) := by
  rw [AvlTree.keys_node]
  rcases spareTree_cases spare with ⟨rfl, isRight⟩ | ⟨rfl, isLeft⟩
  · rw [isRight]
    exact List.Perm.refl _
  · rw [isLeft]
    exact List.perm_append_singleton _ _

omit [Cipher] in
theorem height_spareTree (spare : left = .nil ∨ right = .nil) (entry : Int × Bytes) :
    BinaryTree.height (.node entry left right) = (spareTree left right).height + 1 := by
  rcases spareTree_cases spare with ⟨rfl, isRight⟩ | ⟨rfl, isLeft⟩
  · rw [isRight]
    simp [BinaryTree.height]
  · rw [isLeft]
    simp [BinaryTree.height]

omit [Cipher] in
theorem inOram_spareTree (spare : left = .nil ∨ right = .nil) (node : AVLLocalNode) :
    (fetched node (stored left) (stored right)).inOram label =
      (stored (spareTree left right)).inOram label := by
  rcases spareTree_cases spare with ⟨rfl, isRight⟩ | ⟨rfl, isLeft⟩
  · rw [isRight]
    exact zero_add _
  · rw [isLeft]
    exact add_zero _

omit [Cipher] in
theorem keys_unlinked (spare : left = .nil ∨ right = .nil) (frames : List AvlFrame)
    (ptr : ChildPtr) (node : AVLLocalNode) :
    (plug frames (fetched node (stored left) (stored right))).tree.keys.Perm
      (node.key :: (plug (refocus ptr frames) (stored (spareTree left right))).tree.keys) := by
  refine (keys_plug _ _).trans (List.Perm.trans ?_ ((keys_plug _ _).symm.cons node.key))
  rw [keys_refocus, siblingKeys_refocus]
  refine List.Perm.trans ?_ List.perm_middle
  exact ((keys_spareTree spare (node.key, node.avl.data)).append_right _).append_left _

omit [Cipher] in
/-- Around an inner focus nothing is stored as a whole. -/
theorem plug_inner_ne_stored {frame : AvlFrame} (frames : List AvlFrame) (part : AvlPart)
    (tree : AvlTree) : plug (frame :: frames) part ≠ stored tree := by
  have isLocal : ∀ other, frame.plug part ≠ stored other := by
    intro other same
    rcases frame with ⟨node, onLeft, sibling⟩
    cases onLeft <;> cases same
  exact @plug_ne_stored frames _ isLocal tree

omit [Cipher] in
theorem storedSides_refocus (stored : StoredSides frames) (ptr : ChildPtr) :
    StoredSides (refocus ptr frames) := by
  cases frames with
  | nil => exact stored
  | cons frame frames =>
      intro frame' mem
      rcases List.mem_cons.mp mem with rfl | above
      · exact stored frame List.mem_cons_self
      · exact stored frame' (List.mem_cons_of_mem _ above)

/-- The unlinked map, as far as the traversal is concerned. -/
theorem Arrived.unlink_eq (arrived : Arrived label level omap frames node left right) :
    omap.unlink (omap.local_.length - 1) = { omap with
      local_ := ((refocus (onlyChild node) frames).map AvlFrame.node).reverse
      rootKey := if frames = [] then (onlyChild node).key else omap.rootKey
      rootLeaf := if frames = [] then
        if (onlyChild node).key = invalidKey then invalidLeaf else (onlyChild node).leaf
        else omap.rootLeaf } := by
  have local_ := arrived.op.focus.local_
  cases frames with
  | nil => exact AVLOmap.unlink_root arrived.isNext local_.spine
  | cons frame frames =>
      rcases local_.spine with ⟨ptrOk, parentIs, siblingPtr, _⟩
      have keysNodup := (keys_plug _ _).nodup_iff.mp local_.nodup
      rcases List.nodup_append.mp keysNodup with ⟨above, focusNodup, _⟩
      rcases List.nodup_append.mp focusNodup with ⟨_, _, apart⟩
      have nodeMem : node.key ∈ (fetched node (stored left) (stored right)).tree.keys := by
        simp [AvlPart.tree]
      have nodeValid : node.key ≠ invalidKey := local_.valid _ (keys_sub_plug _ _ _ nodeMem)
      have notOther : (frame.node.avl.child !frame.onLeft).key ≠ node.key := by
        rcases siblingPtr.key_cases with isInvalid | isBeside
        · rw [isInvalid]
          exact nodeValid.symm
        · exact (apart _ nodeMem _ (List.mem_flatMap.mpr
            ⟨frame, List.mem_cons_self, isBeside⟩)).symm
      have frameValid : frame.node.key ≠ invalidKey := by
        refine local_.valid _ ((keys_plug _ _).mem_iff.mpr ?_)
        simp
      exact AVLOmap.unlink_inner arrived.isNext parentIs frameValid (List.nodup_cons.mp above).1
        ptrOk notOther

/-- The node at the focus is unlinked. -/
theorem Arrived.unlinked (arrived : Arrived label level omap frames node left right)
    (spare : left = .nil ∨ right = .nil) :
    Deleted label level (omap.unlink (omap.local_.length - 1))
      (refocus ((spareTree left right).ptr label) frames) (spareTree left right) ∧
    (omap.unlink (omap.local_.length - 1)).maxHeight = omap.maxHeight := by
  have op := arrived.op
  have local_ := op.focus.local_
  set tree := spareTree left right with treeDef
  have keys : (plug frames (fetched node (stored left) (stored right))).tree.keys.Perm
      (node.key :: (plug (refocus (tree.ptr label) frames) (stored tree)).tree.keys) :=
    keys_unlinked spare frames _ node
  have sub : ∀ key ∈ (plug (refocus (tree.ptr label) frames) (stored tree)).tree.keys,
      key ∈ (plug frames (fetched node (stored left) (stored right))).tree.keys :=
    fun key mem => keys.mem_iff.mpr (List.mem_cons_of_mem _ mem)
  rcases local_.linked with ⟨leftPtr, rightPtr, _⟩
  have rootValid : ∀ below : AvlTree, (∀ key ∈ below.keys, key ∈
      (plug frames (fetched node (stored left) (stored right))).tree.keys) →
      below.rootKey = invalidKey ∧ below = .nil ∨ below.rootKey ≠ invalidKey ∧
        below.rootKey ∈ below.keys :=
    fun below belowSub => AvlTree.rootKey_mem (fun key mem => local_.valid key (belowSub key mem))
  have childSub : ∀ below : AvlTree, below = left ∨ below = right → ∀ key ∈ below.keys, key ∈
      (plug frames (fetched node (stored left) (stored right))).tree.keys := by
    rintro below (rfl | rfl) key mem <;>
    exact keys_sub_plug _ _ _ (by simp [AvlPart.tree, mem])
  have childEq : onlyChild node = tree.ptr label := by
    refine onlyChild_eq leftPtr rightPtr (fun notNil => ?_) (fun notNil => ?_)
    · rcases rootValid left (childSub left (Or.inl rfl)) with ⟨_, isNil⟩ | ⟨valid, _⟩
      · exact (notNil isNil).elim
      · exact valid
    · rcases rootValid right (childSub right (Or.inr rfl)) with ⟨_, isNil⟩ | ⟨valid, _⟩
      · exact (notNil isNil).elim
      · exact valid
  have leafEq : (if (tree.ptr label).key = invalidKey then invalidLeaf else (tree.ptr label).leaf) =
      (tree.ptr label).leaf := by
    split
    · rename_i isInvalid
      rw [AvlTree.ptr_key] at isInvalid
      rcases rootValid tree (fun key mem => sub key (keys_sub_plug _ _ _ mem)) with
        ⟨_, isNil⟩ | ⟨valid, _⟩
      · rw [isNil]
        rfl
      · exact (valid isInvalid).elim
    · rfl
  rw [arrived.unlink_eq, childEq, leafEq]
  refine ⟨⟨⟨⟨⟨⟨[], by simp, ?_⟩, ?_, trivial, ?_, ?_⟩, ?_⟩, ?_, op.whole, ?_, ?_⟩, ?_, ?_⟩, rfl⟩
  · rw [sideNodes_refocus, sideNodes_of_stored arrived.sides]
    exact List.Perm.refl _
  · exact local_.spine.refocus rfl (fun _ _ => trivial)
  · exact (List.nodup_cons.mp (keys.nodup_iff.mp local_.nodup)).2
  · exact fun key mem => local_.valid key (sub key mem)
  · dsimp only
    rw [rootKey_plug, keys_refocus, AvlTree.ptr_key]
    cases frames with
    | nil => rfl
    | cons frame frames =>
        rw [if_neg (List.cons_ne_nil _ _), op.focus.rootKey, rootKey_plug, List.map_cons,
          List.getLast?_cons]
        rfl
  · have sameBlocks : (plug (refocus (tree.ptr label) frames) (stored tree)).inOram label =
        (plug frames (fetched node (stored left) (stored right))).inOram label := by
      rw [inOram, inOram, blocks_plug, blocks_plug, siblings_refocus]
      exact congrArg (· + _) (inOram_spareTree spare node).symm
    exact sameBlocks ▸ op.holds
  · refine op.fits.mono sub ?_
    rw [AvlPart.tree_plug, map_frame_refocus, ← AvlPart.tree_plug]
    have higher := height_spareTree spare (node.key, node.avl.data)
    rw [← treeDef] at higher
    have le : (stored tree).tree.height ≤
        (fetched node (stored left) (stored right)).tree.height + 0 := by
      simp only [AvlPart.tree]
      omega
    exact AvlPart.height_plug_le frames le
  · intro tree' isStored
    cases frames with
    | nil =>
        obtain rfl : tree = tree' := by
          injection isStored
        dsimp only
        rw [if_pos rfl]
    | cons frame frames => exact (plug_inner_ne_stored _ _ _ isStored).elim
  · exact storedSides_refocus arrived.sides _
  · exact SidesExact.refocus (sides_of_exact arrived.exact).2 _

end Deleted

end TieredOmap
