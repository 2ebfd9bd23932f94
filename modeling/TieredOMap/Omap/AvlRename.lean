import TieredOMap.Omap.AvlUnlink

/-!
# A node takes over a key

A node with two children is removed by taking over the key and the data of its
successor. As the successor is unlinked, this renames one key of the tree; the
nodes that mention the old key are all local.
-/

namespace TieredOmap

open AvlPart

/-! ## Renaming -/

/-- One key is replaced by another one. -/
def renameKey (oldKey newKey key : Int) : Int := if key = oldKey then newKey else key

theorem renameKey_of_ne {oldKey newKey key : Int} (differs : key ≠ oldKey) :
    renameKey oldKey newKey key = key := if_neg differs

theorem renameKey_self (oldKey newKey : Int) : renameKey oldKey newKey oldKey = newKey := if_pos rfl

/-- Keys other than the new one stay different. -/
theorem renameKey_inj {oldKey newKey key key' : Int} (notNew : key ≠ newKey)
    (notNew' : key' ≠ newKey) (same : renameKey oldKey newKey key = renameKey oldKey newKey key') :
    key = key' := by
  unfold renameKey at same
  split at same <;> split at same
  · rename_i isOld isOld'
    exact isOld.trans isOld'.symm
  · exact (notNew' same.symm).elim
  · exact (notNew same).elim
  · exact same

section TakeOver

variable (oldKey newKey : Int) (data : Bytes)

/-- The node of the old key takes over another key and its data. -/
def AVLLocalNode.takeOver (node : AVLLocalNode) : AVLLocalNode :=
  { node with
    key := renameKey oldKey newKey node.key
    parentKey := renameKey oldKey newKey node.parentKey
    avl := { node.avl with
      data := if node.key = oldKey then data else node.avl.data
      lKey := renameKey oldKey newKey node.avl.lKey
      rKey := renameKey oldKey newKey node.avl.rKey } }

/-- The same in a pointer. -/
def ChildPtr.takeOver (ptr : ChildPtr) : ChildPtr :=
  { ptr with key := renameKey oldKey newKey ptr.key }

/-- The same in the local nodes of a part. -/
def AvlPart.takeOver : AvlPart → AvlPart
  | stored tree => stored tree
  | fetched node left right =>
      fetched (node.takeOver oldKey newKey data) left.takeOver right.takeOver

/-- The same in a frame. -/
def AvlFrame.takeOver (frame : AvlFrame) : AvlFrame where
  node := frame.node.takeOver oldKey newKey data
  onLeft := frame.onLeft
  sibling := frame.sibling.takeOver oldKey newKey data

end TakeOver

section Lemmas

variable {oldKey newKey : Int} {data : Bytes} {label : Int → Int} {part : AvlPart}

theorem child_takeOver (node : AVLLocalNode) (side : Bool) :
    (node.takeOver oldKey newKey data).avl.child side =
      (node.avl.child side).takeOver oldKey newKey := by
  cases side <;> rfl

theorem nodes_takeOver (part : AvlPart) : (part.takeOver oldKey newKey data).nodes =
    part.nodes.map (AVLLocalNode.takeOver oldKey newKey data) := by
  induction part with
  | stored tree => rfl
  | fetched node left right ihLeft ihRight =>
      simp [AvlPart.takeOver, AvlPart.nodes, ihLeft, ihRight]

theorem blocks_takeOver (place : Int → Half) (half : Half) (part : AvlPart) :
    (part.takeOver oldKey newKey data).blocks label place half = part.blocks label place half := by
  induction part with
  | stored tree => rfl
  | fetched node left right ihLeft ihRight =>
      simp only [AvlPart.takeOver, AvlPart.blocks, ihLeft, ihRight]

theorem takeOver_fetchedOn (side : Bool) (node : AVLLocalNode) (child other : AvlPart) :
    (fetchedOn side node child other).takeOver oldKey newKey data =
      fetchedOn side (node.takeOver oldKey newKey data) (child.takeOver oldKey newKey data)
        (other.takeOver oldKey newKey data) := by
  cases side <;> rfl

theorem framePlug_takeOver (frame : AvlFrame) (part : AvlPart) :
    (frame.takeOver oldKey newKey data).plug (part.takeOver oldKey newKey data) =
      (frame.plug part).takeOver oldKey newKey data :=
  (takeOver_fetchedOn _ _ _ _).symm

theorem plug_takeOver (frames : List AvlFrame) (part : AvlPart) :
    plug (frames.map (AvlFrame.takeOver oldKey newKey data)) (part.takeOver oldKey newKey data) =
      (plug frames part).takeOver oldKey newKey data := by
  induction frames generalizing part with
  | nil => rfl
  | cons frame frames ih =>
      exact (congrArg (plug _) (framePlug_takeOver frame part)).trans (ih _)

theorem map_renameKey_of_notMem {keys : List Int} (notMem : oldKey ∉ keys) :
    keys.map (renameKey oldKey newKey) = keys := by
  refine (List.map_congr_left (fun key mem => ?_)).trans (List.map_id keys)
  exact renameKey_of_ne (fun same => notMem (same ▸ mem))

theorem keys_takeOver (notStored : oldKey ∉ part.storedKeys) :
    (part.takeOver oldKey newKey data).tree.keys =
      part.tree.keys.map (renameKey oldKey newKey) := by
  induction part with
  | stored tree => exact (map_renameKey_of_notMem notStored).symm
  | fetched node left right ihLeft ihRight =>
      simp only [AvlPart.storedKeys, List.mem_append, not_or] at notStored
      simp only [AvlPart.takeOver, AvlPart.tree, AvlTree.keys_node, ihLeft notStored.1,
        ihRight notStored.2, List.map_append, List.map_cons]
      rfl

theorem height_takeOver (part : AvlPart) :
    (part.takeOver oldKey newKey data).tree.height = part.tree.height := by
  induction part with
  | stored tree => rfl
  | fetched node left right ihLeft ihRight =>
      simp only [AvlPart.takeOver, AvlPart.tree, BinaryTree.height, ihLeft, ihRight]

theorem rootKey_takeOver (valid : oldKey ≠ invalidKey) (notStored : oldKey ∉ part.storedKeys) :
    (part.takeOver oldKey newKey data).tree.rootKey =
      renameKey oldKey newKey part.tree.rootKey := by
  cases part with
  | stored tree =>
      refine (renameKey_of_ne ?_).symm
      cases tree with
      | nil => exact valid.symm
      | node entry left right =>
          intro isOld
          have isOld : entry.1 = oldKey := isOld
          exact notStored (by simp [AvlPart.storedKeys, ← isOld])
  | fetched node left right => rfl

theorem sideNodes_takeOver (frames : List AvlFrame) :
    sideNodes (frames.map (AvlFrame.takeOver oldKey newKey data)) =
      (sideNodes frames).map (AVLLocalNode.takeOver oldKey newKey data) := by
  simp only [sideNodes, List.flatMap_map, List.map_flatMap]
  exact List.flatMap_congr (fun frame _ => nodes_takeOver frame.sibling)

theorem ptrOk_takeOver {ptr : ChildPtr} (valid : oldKey ≠ invalidKey)
    (notStored : oldKey ∉ part.storedKeys) (ptrOk : part.PtrOk label ptr) :
    (part.takeOver oldKey newKey data).PtrOk label (ptr.takeOver oldKey newKey) := by
  cases part with
  | stored tree =>
      have sameRoot : tree.rootKey = renameKey oldKey newKey tree.rootKey :=
        @rootKey_takeOver oldKey newKey data (stored tree) valid notStored
      obtain rfl : ptr = tree.ptr label := ptrOk
      change ChildPtr.takeOver oldKey newKey (tree.ptr label) = tree.ptr label
      rw [ChildPtr.takeOver, AvlTree.ptr_key, ← sameRoot, ← AvlTree.ptr_key label]
  | fetched node left right =>
      exact congrArg (renameKey oldKey newKey) ptrOk

theorem parentIs_takeOver {key : Int} (parentIs : part.ParentIs key) :
    (part.takeOver oldKey newKey data).ParentIs (renameKey oldKey newKey key) := by
  cases part with
  | stored tree => trivial
  | fetched node left right => exact congrArg (renameKey oldKey newKey) parentIs

theorem linked_takeOver (valid : oldKey ≠ invalidKey) (notStored : oldKey ∉ part.storedKeys)
    (linked : part.Linked label) : (part.takeOver oldKey newKey data).Linked label := by
  induction part with
  | stored tree => trivial
  | fetched node left right ihLeft ihRight =>
      simp only [AvlPart.storedKeys, List.mem_append, not_or] at notStored
      rcases linked with ⟨leftPtr, rightPtr, leftParent, rightParent, leftLinked, rightLinked⟩
      exact ⟨ptrOk_takeOver valid notStored.1 leftPtr, ptrOk_takeOver valid notStored.2 rightPtr,
        parentIs_takeOver leftParent, parentIs_takeOver rightParent,
        ihLeft notStored.1 leftLinked, ihRight notStored.2 rightLinked⟩

theorem spineLinked_takeOver {frames : List AvlFrame} (valid : oldKey ≠ invalidKey)
    (notStored : oldKey ∉ (plug frames part).storedKeys) (linked : SpineLinked label frames part) :
    SpineLinked label (frames.map (AvlFrame.takeOver oldKey newKey data))
      (part.takeOver oldKey newKey data) := by
  induction frames generalizing part with
  | nil =>
      have parentIs := @parentIs_takeOver oldKey newKey data part invalidKey linked
      rwa [renameKey_of_ne valid.symm] at parentIs
  | cons frame frames ih =>
      rcases linked with ⟨ptrOk, parentIs, siblingPtr, siblingParent, siblingLinked, outer⟩
      have keys := storedKeys_plug (frame :: frames) part
      have notInPart : oldKey ∉ part.storedKeys := fun mem =>
        notStored (keys.mem_iff.mpr (List.mem_append_left _ mem))
      have notBeside : oldKey ∉ frame.sibling.storedKeys := fun mem =>
        notStored (keys.mem_iff.mpr (List.mem_append_right _
          (List.mem_flatMap.mpr ⟨frame, List.mem_cons_self, mem⟩)))
      refine ⟨?_, parentIs_takeOver parentIs, ?_, parentIs_takeOver siblingParent,
        linked_takeOver valid notBeside siblingLinked, ?_⟩
      · change PtrOk label ((frame.node.takeOver oldKey newKey data).avl.child frame.onLeft) _
        rw [child_takeOver]
        exact ptrOk_takeOver valid notInPart ptrOk
      · change PtrOk label ((frame.node.takeOver oldKey newKey data).avl.child !frame.onLeft) _
        rw [child_takeOver]
        exact ptrOk_takeOver valid notBeside siblingPtr
      · rw [framePlug_takeOver]
        exact ih notStored outer

end Lemmas

/-! ## The state of an operation -/

section State

variable [Cipher] {oldKey newKey : Int} {data : Bytes} {label : Int → Int} {level : Nat}
  {omap : AVLOmap} {frames : List AvlFrame} {part : AvlPart} {tree : AvlTree}

/-- The renamed map. -/
def AVLOmap.takeOver (oldKey newKey : Int) (data : Bytes) (omap : AVLOmap) : AVLOmap :=
  { omap with
    local_ := omap.local_.map (AVLLocalNode.takeOver oldKey newKey data)
    rootKey := renameKey oldKey newKey omap.rootKey }

/-- Renaming keeps the state of the operation, if the old key is local and the new one is free. -/
theorem AvlOp.takeOver (op : AvlOp label level omap frames part) (data : Bytes)
    (valid : oldKey ≠ invalidKey) (newValid : newKey ≠ invalidKey)
    (notStored : oldKey ∉ (plug frames part).storedKeys)
    (free : newKey ∉ (plug frames part).tree.keys) (isLeaf : IsLeaf level (label newKey))
    (isInt : IsInt newKey) :
    AvlOp label level (omap.takeOver oldKey newKey data)
      (frames.map (AvlFrame.takeOver oldKey newKey data)) (part.takeOver oldKey newKey data) := by
  have local_ := op.focus.local_
  have keys := @keys_takeOver oldKey newKey data _ notStored
  rw [← plug_takeOver] at keys
  have keyCases : ∀ key ∈ (plug (frames.map (AvlFrame.takeOver oldKey newKey data))
      (part.takeOver oldKey newKey data)).tree.keys,
      key = newKey ∨ key ∈ (plug frames part).tree.keys := by
    intro key mem
    rw [keys] at mem
    rcases List.mem_map.mp mem with ⟨old, oldMem, rfl⟩
    unfold renameKey
    split
    · exact Or.inl rfl
    · exact Or.inr oldMem
  have nodup : ((plug frames part).tree.keys.map (renameKey oldKey newKey)).Nodup := by
    refine local_.nodup.map_on ?_
    intro key mem key' mem' same
    refine renameKey_inj ?_ ?_ same
    · rintro rfl
      exact free mem
    · rintro rfl
      exact free mem'
  rcases local_.order with ⟨rest, order, perm⟩
  refine ⟨⟨⟨⟨rest.map (AVLLocalNode.takeOver oldKey newKey data), ?_, ?_⟩,
    spineLinked_takeOver valid notStored local_.spine, ?_, keys ▸ nodup, ?_⟩, ?_⟩, ?_, op.whole,
    ⟨?_, ?_, op.fits.level_le, ?_⟩, ?_⟩
  · change omap.local_.map _ = _
    rw [order, List.map_append, List.map_reverse, List.map_map, List.map_map]
    rfl
  · rw [nodes_takeOver, sideNodes_takeOver, ← List.map_append]
    exact perm.map _
  · refine linked_takeOver valid (fun mem => notStored ?_) local_.linked
    exact (storedKeys_plug _ _).mem_iff.mpr (List.mem_append_left _ mem)
  · intro key mem
    rcases keyCases key mem with rfl | old
    · exact newValid
    · exact local_.valid key old
  · rw [plug_takeOver, rootKey_takeOver valid notStored, ← op.focus.rootKey]
    rfl
  · rw [plug_takeOver, inOram, blocks_takeOver]
    exact op.holds
  · intro key mem
    rcases keyCases key mem with rfl | old
    · exact isLeaf
    · exact op.fits.leaves key old
  · intro key mem
    rcases keyCases key mem with rfl | old
    · exact isInt
    · exact op.fits.ints key old
  · rw [plug_takeOver, height_takeOver]
    exact op.fits.height_lt
  · intro tree isStored
    rw [plug_takeOver] at isStored
    refine op.rootPtr tree ?_
    cases whole : plug frames part with
    | stored tree' =>
        rw [whole] at isStored
        exact isStored
    | fetched node left right =>
        rw [whole] at isStored
        cases isStored

/-- After a deletion the nodes beside the way up and below it are stored. -/
theorem Deleted.takeOver (deleted : Deleted label level omap frames tree) (data : Bytes)
    (valid : oldKey ≠ invalidKey) (newValid : newKey ≠ invalidKey)
    (notStored : oldKey ∉ (plug frames (stored tree)).storedKeys)
    (free : newKey ∉ (plug frames (stored tree)).tree.keys) (isLeaf : IsLeaf level (label newKey))
    (isInt : IsInt newKey) :
    Deleted label level (omap.takeOver oldKey newKey data)
      (frames.map (AvlFrame.takeOver oldKey newKey data)) tree := by
  refine ⟨deleted.op.takeOver data valid newValid notStored free isLeaf isInt, ?_, ?_⟩
  · intro frame mem
    rcases List.mem_map.mp mem with ⟨old, oldMem, rfl⟩
    rcases deleted.storedSides old oldMem with ⟨tree', isStored⟩
    exact ⟨tree', by rw [AvlFrame.takeOver, isStored]; rfl⟩
  · intro frame mem
    rcases List.mem_map.mp mem with ⟨old, oldMem, rfl⟩
    rcases deleted.storedSides old oldMem with ⟨tree', isStored⟩
    rcases deleted.sides old oldMem with ⟨height, _⟩
    refine ⟨?_, ?_⟩
    · change ((old.node.takeOver oldKey newKey data).avl.child !old.onLeft).height =
        (old.sibling.takeOver oldKey newKey data).tree.height
      rw [child_takeOver, height_takeOver]
      exact height
    · change (old.sibling.takeOver oldKey newKey data).HeightsExact
      rw [isStored]
      trivial

end State

end TieredOmap
