import TieredOMap.Omap.AvlInsert
import TieredOMap.Omap.AvlSettle

/-!
# Searching and inserting

Between two operations the whole tree is stored. A search leaves it as it is,
up to the data it writes; an insertion adds a leaf and rebalances the way up.
-/

namespace TieredOmap

open AvlPart

/-! ## Changes in the middle of an operation -/

section Changes

variable [Cipher] {label : Int → Int} {level : Nat} {omap omap' : AVLOmap}
  {frames : List AvlFrame} {part part' : AvlPart}

omit [Cipher] in
theorem modify_last {α : Type} (items : List α) (item : α) (f : α → α) :
    (items ++ [item]).modify ((items ++ [item]).length - 1) f = items ++ [f item] := by
  rw [List.length_append, List.length_singleton, Nat.add_sub_cancel, List.modify_eq_set_getElem?]
  simp

omit [Cipher] in
/-- A focus that grows makes the whole grow at most as much. -/
theorem AvlPart.height_plug_le (frames : List AvlFrame) {extra : Nat}
    (le : part'.tree.height ≤ part.tree.height + extra) :
    (plug frames part').tree.height ≤ (plug frames part).tree.height + extra := by
  induction frames generalizing part part' with
  | nil => exact le
  | cons frame frames ih =>
      refine ih ?_
      simp only [AvlFrame.tree_plug, BinaryTree.Frame.plug, BinaryTree.height_nodeOn]
      omega

/-- A change of the local nodes keeps the state of the operation. -/
theorem AvlOp.reshaped {frames' : List AvlFrame} (op : AvlOp label level omap frames part)
    (reshaped : Reshaped label omap (plug frames part) omap' (plug frames' part'))
    (focus : AvlFocus label omap' frames' part')
    (sub : ∀ key ∈ (plug frames' part').tree.keys, key ∈ (plug frames part).tree.keys)
    (height : (plug frames' part').tree.height < 2 ^ 31) (nonempty : omap.local_ ≠ []) :
    AvlOp label level omap' frames' part' := by
  have orams : omap'.orams = omap.orams := by
    rw [reshaped.rest]
  refine ⟨focus, ?_, ?_, ⟨fun key mem => op.fits.leaves key (sub key mem),
    fun key mem => op.fits.ints key (sub key mem), op.fits.level_le, height⟩, ?_⟩
  · rw [orams]
    have sameBlocks : (plug frames' part').inOram label = (plug frames part).inOram label :=
      reshaped.blocks (fun _ => .lower) .lower
    exact sameBlocks ▸ op.holds
  · rw [orams]
    exact op.whole
  · rintro tree isStored
    have noNodes : omap'.local_.Perm [] := by
      have perm := focus.local_.perm_plug
      rw [isStored] at perm
      exact perm
    refine (nonempty (List.length_eq_zero_iff.mp ?_)).elim
    rw [← reshaped.length, noNodes.length_eq, List.length_nil]

end Changes

/-! ## Between two operations -/

section AtRest

variable [Cipher] {level : Nat} {omap : AVLOmap} {tree : AvlTree}

/-- The map stores a tree, and nothing is local. -/
def AVLOmap.Stores (level : Nat) (omap : AVLOmap) (tree : AvlTree) : Prop :=
  ∃ label, AvlOp label level omap [] (stored tree)

/-- Only the labels of the stored keys matter. -/
theorem AvlOp.relabelStored {label label' : Int → Int}
    (op : AvlOp label level omap [] (stored tree))
    (same : ∀ key ∈ tree.keys, label key = label' key) :
    AvlOp label' level omap [] (stored tree) := by
  have local_ := op.focus.local_
  have nothing : omap.local_ = [] := List.perm_nil.mp local_.perm_plug
  refine ⟨⟨?_, op.focus.rootKey⟩, ?_, op.whole, ⟨?_, op.fits.ints, op.fits.level_le,
    op.fits.height_lt⟩, ?_⟩
  · rw [nothing]
    exact local_.atRest label'
  · have sameBlocks : (stored tree).inOram label = (stored tree).inOram label' :=
      AvlTree.blocks_congr same (fun _ _ => rfl)
    exact sameBlocks ▸ op.holds
  · intro key mem
    exact same key mem ▸ op.fits.leaves key mem
  · rintro tree' isStored
    obtain rfl : tree = tree' := by
      injection isStored
    rw [← AvlTree.ptr_congr same]
    exact op.rootPtr tree rfl

/-- Every other key may be given any label, such as that of the first leaf. -/
theorem AVLOmap.Stores.exists_leaf (stores : omap.Stores level tree) {key : Int}
    (absent : key ∉ tree.keys) :
    ∃ label, AvlOp label level omap [] (stored tree) ∧ IsLeaf level (label key) := by
  rcases stores with ⟨label, op⟩
  refine ⟨Function.update label key 0, op.relabelStored ?_, ?_⟩
  · intro key' mem
    have differs : key' ≠ key := fun same => absent (same ▸ mem)
    exact (Function.update_of_ne differs 0 label).symm
  · rw [Function.update_self]
    exact ⟨le_refl 0, Int.pow_pos (by decide)⟩

/-- Accesses that leave the map as it is. -/
theorem AVLOmap.Stores.quiet (stores : omap.Stores level tree) {prog : Rand AVLOmap}
    (quiet : omap.orams.splitDepth ≤ 0 → ∀ blocks, omap.orams.oram.Holds level ∅ blocks →
      Ends prog (AVLOmap.Quiet level blocks omap)) :
    Ends prog (fun omap' => omap'.Stores level tree ∧ omap'.maxHeight = omap.maxHeight) := by
  rcases stores with ⟨label, op⟩
  refine (quiet op.whole _ op.holds).mono ?_
  intro omap' same
  have op' := op.quiet same
  rcases same with ⟨oram, opCount, rfl, _⟩
  exact ⟨⟨label, op'⟩, rfl⟩

end AtRest

/-! ## Attaching a leaf -/

section Attach

variable [Cipher] {label : Int → Int} {level : Nat} {omap : AVLOmap} {frame : AvlFrame}
  {frames : List AvlFrame} {tree : AvlTree}

/-- The state after a new leaf has been attached. -/
structure Attached (label : Int → Int) (level : Nat) (key : Int) (value : Bytes) (omap : AVLOmap)
    (frames : List AvlFrame) (leaf : AVLLocalNode) : Prop where
  op : AvlOp label level omap frames (fetched leaf (stored .nil) (stored .nil))
  sides : SidesExact frames
  exact : (fetched leaf (stored .nil) (stored .nil)).HeightsExact
  count : omap.local_.length = frames.length + 1
  entry : (leaf.key, leaf.avl.data) = (key, value)

omit [Cipher] in
theorem SidesExact.refocus (sides : SidesExact frames) (ptr : ChildPtr) :
    SidesExact (refocus ptr frames) :=
  (sameWay_refocus ptr frames).sides sides

omit [Cipher] in
theorem siblingKeys_refocus (ptr : ChildPtr) (frames : List AvlFrame) :
    (refocus ptr frames).flatMap (fun frame => frame.sibling.tree.keys) =
      frames.flatMap (fun frame => frame.sibling.tree.keys) := by
  cases frames <;> rfl

omit [Cipher] in
theorem keys_attach (frames : List AvlFrame) (ptr : ChildPtr) (leaf : AVLLocalNode) :
    (plug (refocus ptr frames) (fetched leaf (stored .nil) (stored .nil))).tree.keys.Perm
      (leaf.key :: (plug frames (stored .nil)).tree.keys) := by
  refine (keys_plug _ _).trans (List.Perm.trans ?_ ((keys_plug _ _).symm.cons leaf.key))
  rw [keys_refocus, siblingKeys_refocus]
  simp only [tree, AvlTree.keys_node, AvlTree.keys_nil, List.nil_append]
  exact List.perm_middle

omit [Cipher] in
/-- The new leaf comes to the end of the list, and its parent points at it. -/
theorem AvlLocal.attach {nodes : List AVLLocalNode}
    (local_ : AvlLocal label nodes (frame :: frames) (stored .nil))
    (sides : StoredSides (frame :: frames)) {ptr : ChildPtr} {leaf : AVLLocalNode}
    (ptrKey : ptr.key = leaf.key) (leafParent : leaf.parentKey = frame.node.key)
    (leafPtr : ∀ side, leaf.avl.child side = AvlTree.ptr label .nil)
    (absent : leaf.key ∉ (plug (frame :: frames) (stored .nil)).tree.keys)
    (valid : leaf.key ≠ invalidKey) :
    AvlLocal label (((refocus ptr (frame :: frames)).map AvlFrame.node).reverse ++ [leaf])
      (refocus ptr (frame :: frames)) (fetched leaf (stored .nil) (stored .nil)) := by
  have keys := keys_attach (frame :: frames) ptr leaf
  rcases local_.spine with ⟨_, _, siblingPtr, siblingParent, siblingLinked, outer⟩
  refine ⟨⟨[leaf], rfl, ?_⟩, ⟨?_, leafParent, ?_, siblingParent, siblingLinked, outer.congr ?_ ?_⟩,
    ⟨leafPtr true, leafPtr false, trivial, trivial, trivial, trivial⟩,
    keys.nodup_iff.mpr (List.nodup_cons.mpr ⟨absent, local_.nodup⟩), ?_⟩
  · rw [sideNodes_refocus, sideNodes_of_stored sides, List.append_nil]
    exact List.Perm.refl _
  · rw [AvlFrame.refocus, AVLNodeData.child_setChild]
    exact ptrKey
  · rw [AvlFrame.refocus, AVLNodeData.child_setChild_not]
    exact siblingPtr
  · intro ptr'
    rw [AvlFrame.plug, AvlFrame.plug, ptrOk_fetchedOn, ptrOk_fetchedOn]
    exact id
  · intro key
    rw [AvlFrame.plug, AvlFrame.plug, parentIs_fetchedOn, parentIs_fetchedOn]
    exact id
  · intro key mem
    rcases List.mem_cons.mp (keys.mem_iff.mp mem) with rfl | old
    · exact valid
    · exact local_.valid key old

/-- `attach_new` below the innermost frame. -/
theorem OnWay.ends_attach (way : OnWay label level omap (frame :: frames) .nil) {key : Int}
    (value : Bytes) (depth : Int)
    (absent : key ∉ (plug (frame :: frames) (stored .nil)).tree.keys) (valid : key ≠ invalidKey)
    (isLeaf : IsLeaf level (label key)) (isInt : IsInt key)
    (height : (plug (frame :: frames) (stored .nil)).tree.height + 1 < 2 ^ 31) :
    Ends (omap.attachNew key value frame.onLeft frame.node.key depth) (fun omap' =>
      omap'.maxHeight = omap.maxHeight ∧ ∃ ptr leaf,
        Attached label level key value omap' (refocus ptr (frame :: frames)) leaf) := by
  have op := way.op
  have drawn : Ends (omap.orams.assignLeaf (omap.orams.halfForDepth depth) key) (fun outcome =>
      Relabelled omap.orams outcome.2) := by
    rw [AVLOmap.halfForDepth_whole op.whole]
    refine Prog.ends_bind (PathORAM.ends_randomLeaf op.holds) ?_
    intro leaf _
    exact Prog.ends_pure ⟨omap.orams.oram.posMap.set key leaf, rfl⟩
  refine Prog.ends_bind drawn ?_
  rintro ⟨leaf, _⟩ ⟨posMap, rfl⟩
  have rows : (refocus ⟨key, leaf, 1⟩ (frame :: frames)).map AvlFrame.node =
      { frame.node with avl := frame.node.avl.setChild frame.onLeft ⟨key, leaf, 1⟩ } ::
        frames.map AvlFrame.node := rfl
  have localEq : ∀ orams, (AVLOmap.modifyLast { omap with orams } (fun node => { node with avl :=
      if frame.onLeft then { node.avl with lKey := key, lLeaf := leaf, lHeight := 1 }
      else { node.avl with rKey := key, rLeaf := leaf, rHeight := 1 } })).local_ =
        ((refocus ⟨key, leaf, 1⟩ (frame :: frames)).map AvlFrame.node).reverse := by
    intro orams
    change omap.local_.modify (omap.local_.length - 1) _ = _
    rw [way.local_eq, List.map_cons, List.reverse_cons, modify_last, rows, List.reverse_cons]
    cases frame.onLeft <;> rfl
  have local_ := @AvlLocal.attach label frame frames omap.local_ op.focus.local_ way.sides
    ⟨key, leaf, 1⟩ (AVLOmap.newNode key leaf value frame.node.key depth) rfl rfl
    (fun side => by (cases side <;> rfl)) absent valid
  have keys := keys_attach (frame :: frames) ⟨key, leaf, 1⟩
    (AVLOmap.newNode key leaf value frame.node.key depth)
  refine Prog.ends_pure ⟨rfl, ⟨key, leaf, 1⟩, AVLOmap.newNode key leaf value frame.node.key depth,
    ⟨⟨⟨?_, ?_⟩, ?_, op.whole, ⟨?_, ?_, op.fits.level_le, ?_⟩, ?_⟩, ?_, ?_, ?_, rfl⟩⟩
  · rw [AVLOmap.pushLocal, localEq]
    exact local_
  · refine op.focus.rootKey.trans ?_
    rw [rootKey_plug, rootKey_plug, keys_refocus]
    simp only [List.map_cons, List.getLast?_cons]
    rfl
  · have sameBlocks : (plug (refocus ⟨key, leaf, 1⟩ (frame :: frames))
        (fetched (AVLOmap.newNode key leaf value frame.node.key depth) (stored .nil)
          (stored .nil))).inOram label = (plug (frame :: frames) (stored .nil)).inOram label := by
      rw [inOram, inOram, blocks_plug, blocks_plug, siblings_refocus]
      rfl
    rw [sameBlocks]
    exact op.holds.withPosMap posMap
  · intro key' mem
    rcases List.mem_cons.mp (keys.mem_iff.mp mem) with rfl | old
    · exact isLeaf
    · exact op.fits.leaves key' old
  · intro key' mem
    rcases List.mem_cons.mp (keys.mem_iff.mp mem) with rfl | old
    · exact isInt
    · exact op.fits.ints key' old
  · have le : (plug (refocus ⟨key, leaf, 1⟩ (frame :: frames))
        (fetched (AVLOmap.newNode key leaf value frame.node.key depth) (stored .nil)
          (stored .nil))).tree.height ≤
        (plug (refocus ⟨key, leaf, 1⟩ (frame :: frames)) (stored .nil)).tree.height + 1 :=
      AvlPart.height_plug_le _ (le_refl _)
    rw [AvlPart.tree_plug _ (stored .nil), map_frame_refocus, ← AvlPart.tree_plug] at le
    exact lt_of_le_of_lt le height
  · intro tree isStored
    exact (plug_ne_stored (fun _ same => by (cases same)) tree isStored).elim
  · exact SidesExact.refocus (sides_of_exact way.exact).2 _
  · exact ⟨rfl, rfl, trivial, trivial⟩
  · rw [AVLOmap.pushLocal, localEq]
    simp [refocus]

/-- The way down of an insertion ends above the new leaf. -/
theorem OnWay.ends_insertLoop {entry : Int × Bytes} {left right : AvlTree} (key : Int)
    (value : Bytes) (count : Nat) (depth : Int)
    (way : OnWay label level omap frames (.node entry left right))
    (le : BinaryTree.height (.node entry left right) ≤ count)
    (absent : key ∉ (plug frames (stored (.node entry left right))).tree.keys)
    (valid : key ≠ invalidKey) (isLeaf : IsLeaf level (label key)) (isInt : IsInt key)
    (height : (plug frames (stored (.node entry left right))).tree.height + 1 < 2 ^ 31) :
    Ends (AVLOmap.insertLoop key value count depth entry.1 (label entry.1) omap) (fun omap' =>
      omap'.maxHeight = omap.maxHeight ∧ ∃ frames' leaf,
        Attached label level key value omap' frames' leaf ∧ frames'.map AvlFrame.frame =
          (BinaryTree.descend key (.node entry left right) (frames.map AvlFrame.frame)).1) := by
  induction count generalizing omap frames entry left right depth with
  | zero => exact absurd le (by simp [BinaryTree.height])
  | succ count ih =>
      unfold AVLOmap.insertLoop
      rw [if_neg way.key_ne_invalid]
      refine Prog.ends_bind (way.ends_step depth) ?_
      rintro ⟨_, omap'⟩ ⟨rfl, arrived, sameHeight⟩
      dsimp only
      simp only [BinaryTree.height] at le
      have differs : key ≠ entry.1 := by
        rintro rfl
        exact absent (keys_sub_plug _ _ _ (by simp [AvlPart.tree]))
      -- Either there is no child on the way, or the loop goes on at it.
      have goOn : ∀ side child other, child.height ≤ count →
          (plug (childFrame side (fetchedNode label entry left right (AvlLocal.spineKey frames)
            depth) other :: frames) (stored child)).tree =
              (plug frames (stored (.node entry left right))).tree →
          OnWay label level omap' (childFrame side (fetchedNode label entry left right
            (AvlLocal.spineKey frames) depth) other :: frames) child →
          Ends (if (child.ptr label).key = invalidKey then
              omap'.attachNew key value side entry.1 (depth + 1)
            else AVLOmap.insertLoop key value count (depth + 1) (child.ptr label).key
              (child.ptr label).leaf omap') (fun omap'' =>
            omap''.maxHeight = omap.maxHeight ∧ ∃ frames' leaf,
              Attached label level key value omap'' frames' leaf ∧ frames'.map AvlFrame.frame =
                (BinaryTree.descend key child (⟨side, entry, other⟩ ::
                  frames.map AvlFrame.frame)).1) := by
        intro side child other childLe sameTree entered
        cases child with
        | nil =>
            refine (entered.ends_attach value (depth + 1) (sameTree ▸ absent) valid isLeaf isInt
              (sameTree ▸ height)).mono ?_
            rintro omap'' ⟨same, ptr, leaf, attached⟩
            exact ⟨same.trans sameHeight, _, leaf, attached, map_frame_refocus _ _⟩
        | node entry' left' right' =>
            have goesOn : (AvlTree.ptr label (.node entry' left' right')).key ≠ invalidKey :=
              entered.key_ne_invalid
            rw [if_neg goesOn]
            refine (ih (depth + 1) entered childLe (sameTree ▸ absent) (sameTree ▸ height)).mono ?_
            rintro omap'' ⟨same, found⟩
            exact ⟨same.trans sameHeight, found⟩
      unfold BinaryTree.descend
      rw [if_neg differs]
      by_cases less : key < entry.1
      · rw [if_pos less, if_pos less]
        exact goOn true left right (by omega) (by rw [tree_plug, tree_plug]; rfl) (arrived.enter true)
      · rw [if_neg less, if_neg less]
        exact goOn false right left (by omega) (by rw [tree_plug, tree_plug]; rfl)
          (arrived.enter false)

end Attach

/-! ## Whole operations -/

section Operations

variable [Cipher] {label : Int → Int} {level : Nat} {omap : AVLOmap} {tree : AvlTree}

/-- An operation starts with nothing local. -/
theorem AvlOp.start (op : AvlOp label level omap [] (stored tree)) :
    OnWay label level { omap.resetOpCounts with local_ := [] } [] tree where
  op := ⟨⟨op.focus.local_.atRest label, op.focus.rootKey⟩, op.holds, op.whole, op.fits, op.rootPtr⟩
  sides := fun _ mem => (List.not_mem_nil mem).elim
  exact := trivial

theorem AvlOp.reset (op : AvlOp label level omap [] (stored tree)) :
    omap.resetOpCounts.Stores level tree :=
  ⟨label, ⟨op.focus.local_, op.focus.rootKey⟩, op.holds, op.whole, op.fits, op.rootPtr⟩

theorem AvlOp.rootKey_eq_iff (op : AvlOp label level omap [] (stored tree)) :
    omap.rootKey = invalidKey ↔ tree = .nil := by
  rw [show omap.rootKey = tree.rootKey from op.focus.rootKey]
  rcases AvlTree.rootKey_mem op.focus.local_.valid with ⟨isInvalid, isNil⟩ | ⟨valid, mem⟩
  · exact ⟨fun _ => isNil, fun _ => isInvalid⟩
  · refine ⟨fun isInvalid => (valid isInvalid).elim, ?_⟩
    rintro rfl
    cases mem

/-- The end of every operation. -/
theorem AvlOp.ends_finish {part : AvlPart} (op : AvlOp label level omap [] part)
    (exact : part.HeightsExact) (budget : Int) :
    Ends (do
        let omap ← omap.reassignLeaves
        omap.flushLocalToStash.padUnlessOds budget)
      (fun omap' => omap'.Stores level part.tree ∧ omap'.maxHeight = omap.maxHeight) := by
  refine Prog.ends_bind (op.ends_settle exact) ?_
  rintro omap' ⟨sameHeight, label', op'⟩
  refine (AVLOmap.Stores.quiet ⟨label', op'⟩ (fun whole _ holds =>
    AVLOmap.ends_padUnlessOds whole holds budget)).mono ?_
  rintro omap'' ⟨stores, same⟩
  exact ⟨stores, same.trans sameHeight⟩

/-- A search reads the value of the key, and writes the update if there is one. -/
theorem AVLOmap.Stores.ends_search (stores : omap.Stores level tree) (key : Int)
    (update : Option Bytes) (le : tree.height ≤ omap.maxHeight) :
    Ends (omap.search key update) (fun outcome =>
      outcome.1 = rootData (BinaryTree.descend key tree []).2 ∧
      outcome.2.Stores level (BinaryTree.plug (BinaryTree.descend key tree []).1
        (updateRoot update (BinaryTree.descend key tree []).2)) ∧
      outcome.2.maxHeight = omap.maxHeight) := by
  rcases stores with ⟨label, op⟩
  have rootKey : omap.resetOpCounts.rootKey = (tree.ptr label).key :=
    op.focus.rootKey.trans (AvlTree.ptr_key label tree).symm
  have rootLeaf : omap.resetOpCounts.rootLeaf = (tree.ptr label).leaf := op.rootPtr tree rfl
  unfold AVLOmap.search
  dsimp only
  by_cases empty : omap.resetOpCounts.rootKey = invalidKey
  · obtain rfl : tree = .nil := op.rootKey_eq_iff.mp empty
    rw [if_pos empty]
    refine Prog.ends_bind (op.reset.quiet (fun whole _ holds =>
      AVLOmap.ends_padUnlessOds whole holds _)) ?_
    rintro omap' ⟨stores, same⟩
    exact Prog.ends_pure ⟨rfl, stores, same⟩
  · have loop := op.start.ends_searchLoop key update omap.maxHeight.toNat 0 (by omega)
    rw [← rootKey, ← rootLeaf] at loop
    rw [if_neg empty]
    refine Prog.ends_bind loop ?_
    rintro ⟨result, omap'⟩ ⟨answer, sameHeight, frames, part, op', exact, framesEq, treeEq⟩
    refine Prog.ends_bind (op'.popAll.ends_settle exact) ?_
    rintro settled ⟨sameSettled, label', op''⟩
    refine Prog.ends_bind (AVLOmap.Stores.quiet ⟨label', op''⟩ (fun whole _ holds =>
      AVLOmap.ends_padUnlessOds whole holds _)) ?_
    rintro final ⟨stores, sameFinal⟩
    refine Prog.ends_pure ⟨answer, ?_, sameFinal.trans (sameSettled.trans sameHeight)⟩
    rw [AvlPart.tree_plug, framesEq, treeEq] at stores
    exact stores

omit [Cipher] in
/-- The way down to a key that is not there ends below all nodes. -/
theorem AvlTree.descend_absent {key : Int} (absent : key ∉ tree.keys) :
    (BinaryTree.descend key tree []).2 = .nil := by
  rcases BinaryTree.descend_root key tree [] with isNil | ⟨value, left, right, isNode⟩
  · exact isNil
  · have whole : BinaryTree.plug (BinaryTree.descend key tree []).1 (.node (key, value) left right) =
        tree := isNode ▸ BinaryTree.plug_descend key tree []
    have mem : (key, value) ∈ (BinaryTree.plug (BinaryTree.descend key tree []).1
        (.node (key, value) left right)).toList := by
      rw [BinaryTree.toList_plug]
      simp [BinaryTree.toList]
    rw [whole] at mem
    exact (absent (List.mem_map_of_mem mem)).elim

/-- The first entry of an empty map. -/
theorem AvlOp.ends_insertFirst (op : AvlOp label level omap [] (stored .nil)) {key : Int}
    (value : Bytes) (valid : key ≠ invalidKey) (isInt : IsInt key) :
    Ends (omap.orams.assignLeaf .lower key) (fun outcome =>
      AVLOmap.Stores level { omap with
        orams := outcome.2.addToStash .lower
          { key, leaf := outcome.1, value := ({ data := value } : AVLNodeData).encode }
        rootKey := key
        rootLeaf := outcome.1 } (.node (key, value) .nil .nil)) := by
  refine Prog.ends_bind (PathORAM.ends_randomLeaf op.holds) ?_
  intro leaf isLeaf
  have isReal : (⟨key, leaf, ({ data := value } : AVLNodeData).encode⟩ : Block).isDummy = false :=
    beq_eq_false_iff_ne.mpr valid
  have holds := (op.holds.withPosMap (omap.orams.oram.posMap.set key leaf)).addToStash isReal
  have onlyKey : ∀ key' ∈ AvlTree.keys (.node (key, value) .nil .nil), key' = key := by
    intro key' mem
    simpa using mem
  have local_ := op.focus.local_
  have nothing : omap.local_ = [] := List.perm_nil.mp local_.perm_plug
  refine Prog.ends_pure ⟨fun _ => leaf, ⟨⟨?_, rfl⟩, ?_, op.whole, ⟨fun _ _ => isLeaf, ?_,
    op.fits.level_le, ?_⟩, ?_⟩⟩
  · refine ⟨⟨[], ?_, List.Perm.nil⟩, trivial, trivial, List.nodup_singleton key, ?_⟩
    · rw [nothing]
      rfl
    · intro key' mem
      rw [onlyKey key' mem]
      exact valid
  · exact holds
  · intro key' mem
    rw [onlyKey key' mem]
    exact isInt
  · simp [plug, AvlPart.tree, BinaryTree.height]
  · rintro tree isStored
    obtain rfl : BinaryTree.node (key, value) .nil .nil = tree := by
      injection isStored
    rfl

/-- An insertion of a new key. -/
theorem AVLOmap.Stores.ends_insert (stores : omap.Stores level tree) {key : Int} (value : Bytes)
    (le : tree.height ≤ omap.maxHeight) (balanced : tree.Balanced) (absent : key ∉ tree.keys)
    (valid : key ≠ invalidKey) (isInt : IsInt key) (height : tree.height + 1 < 2 ^ 31) :
    Ends (omap.insert key value) (fun omap' =>
      omap'.Stores level (BinaryTree.insertNew key value tree) ∧
      omap'.maxHeight = omap.maxHeight) := by
  rcases stores.exists_leaf absent with ⟨label, op, isLeaf⟩
  have rootLeaf : omap.resetOpCounts.rootLeaf = (tree.ptr label).leaf := op.rootPtr tree rfl
  have rootKey : omap.resetOpCounts.rootKey = (tree.ptr label).key :=
    op.focus.rootKey.trans (AvlTree.ptr_key label tree).symm
  unfold AVLOmap.insert
  dsimp only
  cases tree with
  | nil =>
      have empty : omap.resetOpCounts.rootKey = invalidKey := op.rootKey_eq_iff.mpr rfl
      rcases op.reset with ⟨_, reset⟩
      rw [if_pos empty, AVLOmap.halfForDepth_whole reset.whole]
      refine Prog.ends_bind (reset.ends_insertFirst value valid isInt) ?_
      rintro ⟨leaf, orams⟩ stores'
      refine (stores'.quiet (fun whole _ holds =>
        AVLOmap.ends_padUnlessOds whole holds _)).mono ?_
      rintro omap' ⟨stores'', same⟩
      exact ⟨stores'', same⟩
  | node entry left right =>
      have notEmpty : omap.resetOpCounts.rootKey ≠ invalidKey :=
        fun isInvalid => by (cases op.rootKey_eq_iff.mp isInvalid)
      have loop := op.start.ends_insertLoop key value omap.maxHeight.toNat 0 (by omega)
        absent valid isLeaf isInt height
      have entryKey : entry.1 = omap.resetOpCounts.rootKey := rootKey.symm
      have entryLeaf : label entry.1 = omap.resetOpCounts.rootLeaf := rootLeaf.symm
      rw [entryLeaf, entryKey] at loop
      rw [if_neg notEmpty]
      refine Prog.ends_bind loop ?_
      rintro omap' ⟨sameHeight, frames, leaf, attached, framesEq⟩
      have noFocus := AvlTree.descend_absent absent
      have oldTree := BinaryTree.plug_descend key (.node entry left right : AvlTree) []
      rw [List.map_nil] at framesEq
      rw [noFocus, ← framesEq] at oldTree
      have stillBalanced : (BinaryTree.plug (frames.map AvlFrame.frame) .nil).Balanced :=
        oldTree ▸ balanced
      rcases attached.op.focus.rebalance_leaf attached.exact attached.sides attached.count
        stillBalanced with ⟨part', reshaped, focus', exact', treeEq⟩
      have sameMax : omap'.updateHeights.rebalance.maxHeight = omap'.maxHeight := by
        rw [reshaped.rest]
      have sameList : part'.tree.toList =
          (plug frames (fetched leaf (stored .nil) (stored .nil))).tree.toList := by
        rw [treeEq, AvlPart.tree_plug, BinaryTree.toList_rebalance, BinaryTree.toList_plug]
        rfl
      have grown : part'.tree.height ≤
          (BinaryTree.plug (frames.map AvlFrame.frame) .nil).height + 1 := by
        rw [treeEq]
        have leafBalanced : (BinaryTree.node (leaf.key, leaf.avl.data) .nil .nil).Balanced :=
          ⟨by decide, by decide, trivial, trivial⟩
        exact (BinaryTree.balanced_rebalance stillBalanced leafBalanced (Nat.zero_le _)
          (le_refl _)).2
      have op' := attached.op.reshaped reshaped focus'
        (fun key mem => by rw [AvlTree.keys, ← sameList]; exact mem)
        (lt_of_le_of_lt (by rw [oldTree] at grown; exact grown) height)
        (fun isNil => by (have count := attached.count; rw [isNil] at count; cases count))
      refine (op'.ends_finish exact' _).mono ?_
      rintro final ⟨stores', same⟩
      rw [treeEq, framesEq, attached.entry] at stores'
      exact ⟨stores', same.trans (sameMax.trans sameHeight)⟩

end Operations

end TieredOmap
