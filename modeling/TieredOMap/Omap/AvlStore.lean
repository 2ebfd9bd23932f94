import TieredOMap.Omap.AvlBalance
import TieredOMap.Oram.DataArray

/-!
# An AVL map and its ORAM

Without a split one ORAM holds the blocks of all nodes that are not local. A
fetch takes one block out of it and makes its node local.
-/

namespace TieredOmap

open AvlPart

/-! ## Nodes as blocks -/

/-- The numbers of a child pointer fit into an `int`. -/
structure ChildPtr.Ints (ptr : ChildPtr) : Prop where
  key : IsInt ptr.key
  leaf : IsInt ptr.leaf
  height : IsInt ptr.height

theorem drop_intToBytes (count : Nat) (value : Int) (rest : Bytes) :
    (intToBytes value ++ rest).drop (count + 4) = rest.drop count := by
  rw [List.drop_append, length_intToBytes, List.drop_of_length_le (by simp [length_intToBytes])]
  simp

theorem bytesToInt_append {value : Int} (isInt : IsInt value) (rest : Bytes) :
    bytesToInt (intToBytes value ++ rest) = value := by
  rw [bytesToInt_intToBytes_append, bmod_of_isInt isInt]

/-- A node whose numbers fit is read back as it was written. -/
theorem AVLNodeData.decode_encode {avl : AVLNodeData} (left : (avl.child true).Ints)
    (right : (avl.child false).Ints) : AVLNodeData.decode avl.encode = pure avl := by
  have encodeEq : avl.encode = intToBytes avl.lKey ++ (intToBytes avl.lLeaf ++
      (intToBytes avl.lHeight ++ (intToBytes avl.rKey ++ (intToBytes avl.rLeaf ++
        (intToBytes avl.rHeight ++ avl.data))))) := by
    simp only [encode, List.append_assoc]
  have long : ¬ avl.encode.length < avlHeaderSize := by
    simp only [encode, List.length_append, length_intToBytes, avlHeaderSize]
    omega
  have lKey : IsInt avl.lKey := left.key
  have lLeaf : IsInt avl.lLeaf := left.leaf
  have lHeight : IsInt avl.lHeight := left.height
  have rKey : IsInt avl.rKey := right.key
  have rLeaf : IsInt avl.rLeaf := right.leaf
  have rHeight : IsInt avl.rHeight := right.height
  unfold decode
  rw [if_neg long, encodeEq]
  simp only [drop_intToBytes 0, drop_intToBytes 4, drop_intToBytes 8, drop_intToBytes 12,
    drop_intToBytes 16, drop_intToBytes 20, List.drop_zero]
  rw [bytesToInt_append lKey, bytesToInt_append lLeaf, bytesToInt_append lHeight,
    bytesToInt_append rKey, bytesToInt_append rLeaf, bytesToInt_append rHeight]

namespace AvlPart

/-- The blocks that are in the ORAM of a map without a split. -/
abbrev inOram (label : Int → Int) (part : AvlPart) : Multiset Block :=
  part.blocks label (fun _ => .lower) .lower

theorem map_key_inOram (label : Int → Int) (part : AvlPart) :
    (part.inOram label).map Block.key = ↑part.storedKeys := by
  induction part with
  | stored tree =>
      refine (AvlTree.map_key_blocks label _ .lower tree).trans ?_
      simp [storedKeys]
  | fetched node left right ihLeft ihRight =>
      change (left.inOram label + right.inOram label).map Block.key = _
      rw [Multiset.map_add, ihLeft, ihRight]
      rfl

end AvlPart

/-! ## Fetching one node -/

namespace AVLOmap

variable [Cipher] {omap : AVLOmap} {level : Nat} {blocks : Multiset Block}

omit [Cipher] in
theorem halfForDepth_whole (whole : omap.orams.splitDepth ≤ 0) (depth : Int) :
    omap.orams.halfForDepth depth = .lower := by
  rw [SplitOram.halfForDepth, if_neg (by omega)]

/-- `move_to_local` takes the node's block out of the ORAM. -/
theorem ends_moveToLocal (whole : omap.orams.splitDepth ≤ 0)
    (holds : omap.orams.oram.Holds level ∅ blocks) (nodup : (blocks.map Block.key).Nodup)
    {key leaf : Int} {avl : AVLNodeData} (mem : ⟨key, leaf, avl.encode⟩ ∈ blocks)
    (isLeaf : IsLeaf level leaf) (left : (avl.child true).Ints) (right : (avl.child false).Ints)
    (parentKey depth : Int) :
    Ends (omap.moveToLocal key leaf parentKey depth) (fun outcome =>
      outcome.1 = ⟨key, leaf, avl, parentKey, depth⟩ ∧
      ∃ oram opCount, outcome.2 = { omap with
        orams := { omap.orams with oram }
        local_ := omap.local_ ++ [⟨key, leaf, avl, parentKey, depth⟩], opCount } ∧
        oram.Holds level ∅ (blocks.erase ⟨key, leaf, avl.encode⟩)) := by
  unfold moveToLocal
  rw [halfForDepth_whole whole]
  dsimp only [SplitOram.get]
  refine Prog.ends_bind (PathORAM.ends_readPathToStash holds isLeaf) ?_
  rintro read ⟨readHolds, _⟩
  have inStash : (⟨key, leaf, avl.encode⟩ : Block) ∈ read.stash :=
    readHolds.mem_stash mem (Finset.Subset.refl _) List.mem_cons_self
  refine Prog.ends_bind (PathORAM.ends_extractFromStash readHolds nodup inStash) ?_
  rintro ⟨_, extracted⟩ ⟨rfl, extractedHolds, _⟩
  dsimp only
  rw [AVLNodeData.decode_encode left right]
  have decoded : Ends (pure avl : Rand AVLNodeData) (fun avl' => avl' = avl) := Prog.ends_pure rfl
  refine Prog.ends_bind decoded ?_
  rintro _ rfl
  refine Prog.ends_bind (PathORAM.ends_evictStash extractedHolds (by simpa using isLeaf)) ?_
  rintro evicted ⟨evictedHolds, _⟩
  refine Prog.ends_pure ⟨rfl, evicted, omap.opCount + 1, ?_, evictedHolds⟩
  rw [countOp, if_neg (by exact not_lt.mpr whole)]
  rfl

/-- Only the ORAM and the number of operations change, and the blocks are still there. -/
def Quiet (level : Nat) (blocks : Multiset Block) (omap omap' : AVLOmap) : Prop :=
  ∃ oram opCount, omap' = { omap with orams := { omap.orams with oram }, opCount } ∧
    oram.Holds level ∅ blocks

theorem Quiet.refl (holds : omap.orams.oram.Holds level ∅ blocks) : Quiet level blocks omap omap :=
  ⟨omap.orams.oram, omap.opCount, rfl, holds⟩

/-- A dummy access leaves all blocks where they are. -/
theorem ends_trackedDummy (whole : omap.orams.splitDepth ≤ 0)
    (holds : omap.orams.oram.Holds level ∅ blocks) (depth : Int) :
    Ends (omap.trackedDummy depth) (Quiet level blocks omap) := by
  refine Prog.ends_bind (Q := fun orams => ∃ oram, orams = { omap.orams with oram } ∧
    oram.Holds level ∅ blocks) ?_ ?_
  · rw [halfForDepth_whole whole]
    refine Prog.ends_bind holds.ends_dummyAccess ?_
    rintro oram ⟨oramHolds, _⟩
    exact Prog.ends_pure ⟨oram, rfl, oramHolds⟩
  · rintro _ ⟨oram, rfl, oramHolds⟩
    refine Prog.ends_pure ⟨oram, omap.opCount + 1, ?_, oramHolds⟩
    rw [countOp, if_neg (by exact not_lt.mpr whole)]

theorem ends_dummyAccesses {orams : SplitOram} (holds : orams.oram.Holds level ∅ blocks)
    (count : Nat) : Ends (orams.dummyAccesses .lower count) (fun orams' =>
      ∃ oram, orams' = { orams with oram } ∧ oram.Holds level ∅ blocks) := by
  induction count generalizing orams with
  | zero => exact Prog.ends_pure ⟨orams.oram, rfl, holds⟩
  | succ count ih =>
      refine Prog.ends_bind (Q := fun orams' => ∃ oram, orams' = { orams with oram } ∧
        oram.Holds level ∅ blocks) ?_ ?_
      · refine Prog.ends_bind holds.ends_dummyAccess ?_
        rintro oram ⟨oramHolds, _⟩
        exact Prog.ends_pure ⟨oram, rfl, oramHolds⟩
      · rintro _ ⟨oram, rfl, oramHolds⟩
        exact @ih { orams with oram } oramHolds

/-- `pad_to_budget`. -/
theorem ends_padToBudget (whole : omap.orams.splitDepth ≤ 0)
    (holds : omap.orams.oram.Holds level ∅ blocks) (budget : Int) :
    Ends (omap.padToBudget budget) (Quiet level blocks omap) := by
  unfold padToBudget
  rw [if_neg (not_lt.mpr whole)]
  refine Prog.ends_bind (ends_dummyAccesses holds _) ?_
  rintro _ ⟨oram, rfl, oramHolds⟩
  exact Prog.ends_pure ⟨oram, _, rfl, oramHolds⟩

theorem ends_padUnlessOds (whole : omap.orams.splitDepth ≤ 0)
    (holds : omap.orams.oram.Holds level ∅ blocks) (budget : Int) :
    Ends (omap.padUnlessOds budget) (Quiet level blocks omap) := by
  unfold padUnlessOds
  split
  · exact Prog.ends_pure (Quiet.refl holds)
  · exact ends_padToBudget whole holds budget

end AVLOmap

/-! ## Exposing stored nodes -/

namespace AvlLocal

variable {label : Int → Int} {nodes : List AVLLocalNode} {frames : List AvlFrame}
  {part part' : AvlPart} {frame : AvlFrame}

/-- The key of the node above the focus. -/
def spineKey : List AvlFrame → Int
  | [] => invalidKey
  | frame :: _ => frame.node.key

theorem parentIs_spineKey (linked : SpineLinked label frames part) :
    part.ParentIs (spineKey frames) := by
  cases frames with
  | nil => exact linked
  | cons frame frames => exact linked.2.1

/-- The spine only asks the focus for its pointer and its parent. -/
theorem spine_refill (linked : SpineLinked label frames part)
    (samePtr : ∀ ptr, part.PtrOk label ptr → part'.PtrOk label ptr)
    (parentIs : part'.ParentIs (spineKey frames)) : SpineLinked label frames part' := by
  cases frames with
  | nil => exact parentIs
  | cons frame frames =>
      rcases linked with ⟨ptrOk, _, siblingPtr, siblingParent, siblingLinked, outer⟩
      refine ⟨samePtr _ ptrOk, parentIs, siblingPtr, siblingParent, siblingLinked, ?_⟩
      refine outer.congr (fun ptr ok => ?_) (fun key isParent => ?_)
      · exact ptrOk_fetchedOn.mpr (ptrOk_fetchedOn.mp ok)
      · exact parentIs_fetchedOn.mpr (parentIs_fetchedOn.mp isParent)

/-- More nodes of the focus are local, at the end of the list. -/
theorem refill (local_ : AvlLocal label nodes frames part) (extra : List AVLLocalNode)
    (sameTree : part'.tree = part.tree) (perm : part'.nodes.Perm (extra ++ part.nodes))
    (samePtr : ∀ ptr, part.PtrOk label ptr → part'.PtrOk label ptr)
    (parentIs : part'.ParentIs (spineKey frames)) (linked : part'.Linked label) :
    AvlLocal label (nodes ++ extra) frames part' := by
  have wholeTree : (plug frames part').tree = (plug frames part).tree := by
    rw [tree_plug, tree_plug, sameTree]
  rcases local_.order with ⟨rest, nodesEq, restPerm⟩
  refine ⟨⟨rest ++ extra, ?_, ?_⟩, spine_refill local_.spine samePtr parentIs, linked, ?_, ?_⟩
  · rw [nodesEq, List.append_assoc]
  · refine (restPerm.append_right extra).trans (List.perm_append_comm.trans ?_)
    rw [← List.append_assoc]
    exact (perm.append_right _).symm
  · rw [wholeTree]
    exact local_.nodup
  · rw [wholeTree]
    exact local_.valid

/-- The root of the focus becomes local. -/
theorem expose {entry : Int × Bytes} {left right : AvlTree}
    (local_ : AvlLocal label nodes frames (stored (.node entry left right))) {node : AVLLocalNode}
    (nodeKey : node.key = entry.1) (nodeAvl : node.avl = AvlTree.nodeData label entry.2 left right)
    (parentEq : node.parentKey = spineKey frames) :
    AvlLocal label (nodes ++ [node]) frames (fetched node (stored left) (stored right)) := by
  refine local_.refill [node] ?_ (List.Perm.refl _) (fun ptr ok => ?_) parentEq ?_
  · simp only [tree, nodeKey, nodeAvl]
    rfl
  · rw [show ptr = AvlTree.ptr label (.node entry left right) from ok]
    exact nodeKey.symm
  · refine ⟨?_, ?_, trivial, trivial, trivial, trivial⟩
    · rw [nodeAvl]
      rfl
    · rw [nodeAvl]
      rfl

/-- The other child of the innermost frame comes into the focus. -/
theorem flip (local_ : AvlLocal label nodes (frame :: frames) part) :
    AvlLocal label nodes ({ frame with onLeft := !frame.onLeft, sibling := part } :: frames)
      frame.sibling := by
  have samePlug : AvlFrame.plug { frame with onLeft := !frame.onLeft, sibling := part } frame.sibling =
      frame.plug part := fetchedOn_not frame.onLeft frame.node frame.sibling part
  rcases local_.order with ⟨rest, nodesEq, restPerm⟩
  rcases local_.spine with ⟨ptrOk, parentIs, siblingPtr, siblingParent, siblingLinked, outer⟩
  refine ⟨⟨rest, nodesEq, restPerm.trans ?_⟩, ⟨siblingPtr, siblingParent, ?_, parentIs,
    local_.linked, ?_⟩, siblingLinked, ?_, ?_⟩
  · simp only [sideNodes, List.flatMap_cons]
    rw [← List.append_assoc, ← List.append_assoc]
    exact List.Perm.append_right _ List.perm_append_comm
  · simpa using ptrOk
  · rw [samePlug]
    exact outer
  · change (plug frames (AvlFrame.plug _ _)).tree.keys.Nodup
    rw [samePlug]
    exact local_.nodup
  · change ∀ key ∈ (plug frames (AvlFrame.plug _ _)).tree.keys, key ≠ invalidKey
    rw [samePlug]
    exact local_.valid

end AvlLocal

/-! ## The state of an operation -/

/-- The labels are leaves, and all numbers in the nodes of a tree fit into an `int`. -/
structure Fits (label : Int → Int) (level : Nat) (tree : AvlTree) : Prop where
  leaves : ∀ key ∈ tree.keys, IsLeaf level (label key)
  ints : ∀ key ∈ tree.keys, IsInt key
  level_le : level ≤ 32
  height_lt : tree.height < 2 ^ 31

section Fits

variable {label : Int → Int} {level : Nat} {tree : AvlTree}

theorem Fits.mono (fits : Fits label level tree) {tree' : AvlTree}
    (sub : ∀ key ∈ tree'.keys, key ∈ tree.keys) (le : tree'.height ≤ tree.height) :
    Fits label level tree' :=
  ⟨fun key mem => fits.leaves key (sub key mem), fun key mem => fits.ints key (sub key mem),
    fits.level_le, lt_of_le_of_lt le fits.height_lt⟩

theorem isInt_of_isLeaf {leaf : Int} (isLeaf : IsLeaf level leaf) (le : level ≤ 32) :
    IsInt leaf := by
  have bound : (2 : Int) ^ (level - 1) ≤ 2 ^ 31 := by
    exact_mod_cast Nat.pow_le_pow_right (by decide) (show level - 1 ≤ 31 by omega)
  exact ⟨le_trans (by decide) isLeaf.1, lt_of_lt_of_le isLeaf.2 bound⟩

/-- What a parent stores of a child fits. -/
theorem Fits.ptr_ints (fits : Fits label level tree) : (tree.ptr label).Ints := by
  cases tree with
  | nil =>
      refine ⟨?_, ?_, ?_⟩
      · exact (by decide : IsInt invalidKey)
      · exact (by decide : IsInt invalidLeaf)
      · exact (by decide : IsInt 0)
  | node entry left right =>
      have rootMem : entry.1 ∈ AvlTree.keys (.node entry left right) := by simp
      have heightLt := fits.height_lt
      refine ⟨fits.ints _ rootMem, isInt_of_isLeaf (fits.leaves _ rootMem) fits.level_le, ?_⟩
      rw [AvlTree.ptr_height]
      refine ⟨le_trans (by decide) (Int.natCast_nonneg _), ?_⟩
      exact_mod_cast heightLt

end Fits

namespace AvlPart

theorem keys_sub_plug (frames : List AvlFrame) (part : AvlPart) :
    ∀ key ∈ part.tree.keys, key ∈ (plug frames part).tree.keys := by
  intro key mem
  refine (keys_plug frames part).mem_iff.mpr ?_
  exact List.mem_append_right _ (List.mem_append_left _ mem)

/-- Around a local node nothing is stored as a whole. -/
theorem plug_ne_stored {frames : List AvlFrame} {part : AvlPart}
    (isLocal : ∀ tree, part ≠ stored tree) (tree : AvlTree) : plug frames part ≠ stored tree := by
  induction frames generalizing part with
  | nil => exact isLocal tree
  | cons frame frames ih =>
      refine ih (fun tree' same => ?_)
      change fetchedOn frame.onLeft frame.node part frame.sibling = stored tree' at same
      cases onLeft : frame.onLeft <;> rw [onLeft] at same <;> cases same

theorem height_le_plug (frames : List AvlFrame) (part : AvlPart) :
    part.tree.height ≤ (plug frames part).tree.height := by
  induction frames generalizing part with
  | nil => exact le_refl _
  | cons frame frames ih =>
      refine le_trans ?_ (ih (frame.plug part))
      rw [AvlFrame.tree_plug]
      change _ ≤ BinaryTree.height (BinaryTree.nodeOn _ _ _ _)
      rw [BinaryTree.height_nodeOn]
      omega

end AvlPart

/--
The state within an operation: the local nodes with a focus, and the ORAM, which
holds the blocks of all other nodes.
-/
structure AvlOp [Cipher] (label : Int → Int) (level : Nat) (omap : AVLOmap) (frames : List AvlFrame)
    (part : AvlPart) : Prop where
  focus : AvlFocus label omap frames part
  holds : omap.orams.oram.Holds level ∅ ((plug frames part).inOram label)
  whole : omap.orams.splitDepth ≤ 0
  fits : Fits label level (plug frames part).tree
  rootPtr : ∀ tree, plug frames part = stored tree → omap.rootLeaf = (tree.ptr label).leaf

/-- The local copy of a stored node. -/
def fetchedNode (label : Int → Int) (entry : Int × Bytes) (left right : AvlTree)
    (parentKey depth : Int) : AVLLocalNode where
  key := entry.1
  leaf := label entry.1
  avl := AvlTree.nodeData label entry.2 left right
  parentKey := parentKey
  depth := depth

namespace AvlOp

variable [Cipher] {label : Int → Int} {level : Nat} {omap : AVLOmap} {frames : List AvlFrame}
  {part : AvlPart}

theorem nodup_inOram (op : AvlOp label level omap frames part) :
    (((plug frames part).inOram label).map Block.key).Nodup := by
  rw [map_key_inOram, Multiset.coe_nodup]
  have nodup := (keys_perm (plug frames part)).nodup_iff.mp op.focus.local_.nodup
  exact (List.nodup_append.mp nodup).2.1

/-- A fetch of a node that is stored somewhere in the focus. -/
theorem ends_fetchIn (op : AvlOp label level omap frames part) {part' : AvlPart}
    {entry : Int × Bytes} {left right : AvlTree} {parentKey depth : Int}
    (sameTree : part'.tree = part.tree)
    (subKeys : ∀ key ∈ AvlTree.keys (.node entry left right), key ∈ part.tree.keys)
    (subHeight : BinaryTree.height (.node entry left right) ≤ part.tree.height)
    (moved : part.inOram label = ⟨entry.1, label entry.1,
      (AvlTree.nodeData label entry.2 left right).encode⟩ ::ₘ part'.inOram label)
    (local_ : AvlLocal label (omap.local_ ++ [fetchedNode label entry left right parentKey depth])
      frames part') (isLocal : ∀ tree, part' ≠ stored tree) :
    Ends (omap.moveToLocal entry.1 (label entry.1) parentKey depth) (fun outcome =>
      outcome.1 = fetchedNode label entry left right parentKey depth ∧
      AvlOp label level outcome.2 frames part' ∧
      ∃ oram opCount, outcome.2 = { omap with
        orams := { omap.orams with oram }
        local_ := omap.local_ ++ [fetchedNode label entry left right parentKey depth], opCount }) := by
  have fits : Fits label level (.node entry left right) :=
    op.fits.mono (fun key mem => keys_sub_plug _ _ _ (subKeys key mem))
      (subHeight.trans (height_le_plug _ _))
  have leftFits : Fits label level left :=
    fits.mono (fun key mem => by simp [mem]) (by simp only [BinaryTree.height]; omega)
  have rightFits : Fits label level right :=
    fits.mono (fun key mem => by simp [mem]) (by simp only [BinaryTree.height]; omega)
  have movedWhole : (plug frames part).inOram label = ⟨entry.1, label entry.1,
      (AvlTree.nodeData label entry.2 left right).encode⟩ ::ₘ (plug frames part').inOram label := by
    rw [inOram, inOram, blocks_plug, blocks_plug, ← Multiset.cons_add]
    exact congrArg (· + _) moved
  have blockMem : (⟨entry.1, label entry.1,
      (AvlTree.nodeData label entry.2 left right).encode⟩ : Block) ∈
        (plug frames part).inOram label := by
    rw [movedWhole]
    exact Multiset.mem_cons_self _ _
  refine (AVLOmap.ends_moveToLocal op.whole op.holds op.nodup_inOram blockMem
    (fits.leaves _ (by simp)) leftFits.ptr_ints rightFits.ptr_ints parentKey depth).mono ?_
  rintro ⟨_, _⟩ ⟨rfl, oram, opCount, rfl, holds⟩
  rw [movedWhole, Multiset.erase_cons_head] at holds
  have wholeTree : (plug frames part').tree = (plug frames part).tree := by
    rw [tree_plug, tree_plug, sameTree]
  refine ⟨rfl, ⟨⟨local_, ?_⟩, holds, op.whole, ?_, ?_⟩, oram, opCount, rfl⟩
  · rw [wholeTree]
    exact op.focus.rootKey
  · rw [wholeTree]
    exact op.fits
  · intro tree isStored
    exact (plug_ne_stored isLocal tree isStored).elim

omit [Cipher] in
theorem inOram_node (label : Int → Int) (entry : Int × Bytes) (left right : AvlTree)
    (node : AVLLocalNode) :
    (stored (.node entry left right)).inOram label = ⟨entry.1, label entry.1,
      (AvlTree.nodeData label entry.2 left right).encode⟩ ::ₘ
        (fetched node (stored left) (stored right)).inOram label := by
  simp only [inOram, blocks, AvlTree.blocks, if_true]
  rw [Multiset.singleton_add]

/-- A fetch of the root of the focus. -/
theorem ends_fetch {entry : Int × Bytes} {left right : AvlTree}
    (op : AvlOp label level omap frames (stored (.node entry left right))) (depth : Int) :
    Ends (omap.moveToLocal entry.1 (label entry.1) (AvlLocal.spineKey frames) depth)
      (fun outcome =>
        outcome.1 = fetchedNode label entry left right (AvlLocal.spineKey frames) depth ∧
        AvlOp label level outcome.2 frames
          (fetched (fetchedNode label entry left right (AvlLocal.spineKey frames) depth)
            (stored left) (stored right)) ∧
        ∃ oram opCount, outcome.2 = { omap with
          orams := { omap.orams with oram }
          local_ := omap.local_ ++
            [fetchedNode label entry left right (AvlLocal.spineKey frames) depth], opCount }) :=
  op.ends_fetchIn rfl (fun _ mem => mem) (le_refl _) (inOram_node label entry left right _)
    (op.focus.local_.expose rfl rfl rfl) (fun _ same => by (cases same))

/-- A fetch of a child of the root of the focus. -/
theorem ends_fetchChild {side : Bool} {above : AVLLocalNode} {other : AvlPart}
    {entry : Int × Bytes} {left right : AvlTree}
    (op : AvlOp label level omap frames
      (fetchedOn side above (stored (.node entry left right)) other)) (depth : Int) :
    Ends (omap.moveToLocal entry.1 (label entry.1) above.key depth) (fun outcome =>
      outcome.1 = fetchedNode label entry left right above.key depth ∧
      AvlOp label level outcome.2 frames (fetchedOn side above
        (fetched (fetchedNode label entry left right above.key depth) (stored left) (stored right))
          other) ∧
      ∃ oram opCount, outcome.2 = { omap with
        orams := { omap.orams with oram }
        local_ := omap.local_ ++ [fetchedNode label entry left right above.key depth], opCount }) := by
  rcases linked_fetchedOn.mp op.focus.local_.linked with
    ⟨ptrOk, otherPtr, _, otherParent, _, otherLinked⟩
  refine op.ends_fetchIn ?_ ?_ ?_ ?_ (op.focus.local_.refill [_] ?_ ?_ ?_ ?_ ?_) ?_
  · rw [tree_fetchedOn, tree_fetchedOn]
    rfl
  · intro key mem
    rw [tree_fetchedOn]
    exact (AvlTree.keys_nodeOn _ _ _ _).mem_iff.mpr
      (List.mem_cons_of_mem _ (List.mem_append_left _ mem))
  · rw [tree_fetchedOn, BinaryTree.height_nodeOn]
    simp only [tree]
    omega
  · rw [inOram, inOram, blocks_fetchedOn, blocks_fetchedOn, ← Multiset.cons_add]
    exact congrArg (· + _) (inOram_node label entry left right _)
  · rw [tree_fetchedOn, tree_fetchedOn]
    rfl
  · refine (nodes_fetchedOn _ _ _ _).trans ?_
    refine List.Perm.trans ?_ (List.Perm.cons _ (nodes_fetchedOn _ _ _ _).symm)
    exact List.Perm.swap _ _ _
  · intro ptr ok
    exact ptrOk_fetchedOn.mpr (ptrOk_fetchedOn.mp ok)
  · exact parentIs_fetchedOn.mpr (parentIs_fetchedOn.mp (AvlLocal.parentIs_spineKey
      op.focus.local_.spine))
  · refine linked_fetchedOn.mpr ⟨?_, otherPtr, rfl, otherParent, ?_, otherLinked⟩
    · exact congrArg ChildPtr.key ptrOk
    · exact ⟨rfl, rfl, trivial, trivial, trivial, trivial⟩
  · intro tree same
    cases side <;> cases same

/-- Move the innermost frame into the focus. -/
theorem pop {frame : AvlFrame} (op : AvlOp label level omap (frame :: frames) part) :
    AvlOp label level omap frames (frame.plug part) :=
  ⟨⟨op.focus.local_.pop, op.focus.rootKey⟩, op.holds, op.whole, op.fits, op.rootPtr⟩

/-- Move all frames into the focus. -/
theorem popAll (op : AvlOp label level omap frames part) :
    AvlOp label level omap [] (plug frames part) := by
  induction frames generalizing part with
  | nil => exact op
  | cons frame frames ih => exact ih op.pop

/-- Move the root of the focus into the frames, if it comes next in the list. -/
theorem push {frame : AvlFrame} (op : AvlOp label level omap frames (frame.plug part))
    (isNext : omap.local_[frames.length]? = some frame.node) :
    AvlOp label level omap (frame :: frames) part :=
  ⟨⟨op.focus.local_.push isNext, op.focus.rootKey⟩, op.holds, op.whole, op.fits, op.rootPtr⟩

/-- A quiet change keeps the state of the operation. -/
theorem quiet (op : AvlOp label level omap frames part) {omap' : AVLOmap}
    (same : AVLOmap.Quiet level ((plug frames part).inOram label) omap omap') :
    AvlOp label level omap' frames part := by
  rcases same with ⟨oram, opCount, rfl, holds⟩
  exact ⟨⟨op.focus.local_, op.focus.rootKey⟩, holds, op.whole, op.fits, op.rootPtr⟩

end AvlOp

end TieredOmap
