import TieredOMap.Omap.AvlPart

/-!
# The local nodes of an AVL operation

`local_` starts with the nodes from the root down to a focus, in this order; the
nodes below follow in any order. Nodes are found by their keys, which are all
different, so every change of some nodes is a map over the list.
-/

namespace TieredOmap

/-! ## Lists of nodes with different keys -/

/-- What a change of the local nodes keeps of a node. -/
def AVLLocalNode.slot (node : AVLLocalNode) : Int × Int := (node.key, node.depth)

theorem set_of_getElem? {α : Type} {items : List α} {idx : Nat} {item : α}
    (found : items[idx]? = some item) : items.set idx item = items := by
  rcases List.getElem?_eq_some_iff.mp found with ⟨idxLt, isItem⟩
  rw [← isItem]
  exact List.set_getElem_self idxLt

/-- Change the node of a key. -/
def onKey (key : Int) (f : AVLLocalNode → AVLLocalNode) (node : AVLLocalNode) : AVLLocalNode :=
  if node.key = key then f node else node

section Keyed

variable {nodes : List AVLLocalNode} {f : AVLLocalNode → AVLLocalNode} {key : Int}
  {node : AVLLocalNode} {idx : Nat}

theorem onKey_of_eq (isKey : node.key = key) : onKey key f node = f node := if_pos isKey

theorem onKey_of_ne (differs : node.key ≠ key) : onKey key f node = node := if_neg differs

theorem slot_onKey (sameSlot : ∀ node, (f node).slot = node.slot) :
    (onKey key f node).slot = node.slot := by
  unfold onKey
  split
  · exact sameSlot node
  · rfl

theorem map_onKey_of_notMem (notMem : key ∉ nodes.map AVLLocalNode.key) :
    nodes.map (onKey key f) = nodes := by
  conv_rhs => rw [← List.map_id nodes]
  refine List.map_congr_left ?_
  intro node mem
  exact onKey_of_ne (fun isKey => notMem (isKey ▸ List.mem_map_of_mem mem))

theorem modifyFirst_key (nodup : (nodes.map AVLLocalNode.key).Nodup) :
    modifyFirst (fun node => node.key == key) f nodes = nodes.map (onKey key f) := by
  induction nodes with
  | nil => rfl
  | cons head rest ih =>
      rw [List.map_cons, List.nodup_cons] at nodup
      unfold modifyFirst
      by_cases isKey : head.key = key
      · rw [if_pos (by simpa using isKey), List.map_cons, onKey_of_eq isKey,
          map_onKey_of_notMem (isKey ▸ nodup.1)]
      · rw [if_neg (by simpa using isKey), List.map_cons, onKey_of_ne isKey, ih nodup.2]

theorem modify_key (nodup : (nodes.map AVLLocalNode.key).Nodup) (found : nodes[idx]? = some node) :
    nodes.modify idx f = nodes.map (onKey node.key f) := by
  induction nodes generalizing idx with
  | nil => simp at found
  | cons head rest ih =>
      rw [List.map_cons, List.nodup_cons] at nodup
      cases idx with
      | zero =>
          obtain rfl : head = node := by simpa using found
          rw [List.modify_zero_cons, List.map_cons, onKey_of_eq rfl, map_onKey_of_notMem nodup.1]
      | succ idx =>
          rw [List.getElem?_cons_succ] at found
          have differs : head.key ≠ node.key := by
            intro same
            exact nodup.1 (same ▸ List.mem_map_of_mem (List.mem_of_getElem? found))
          rw [List.modify_succ_cons, List.map_cons, onKey_of_ne differs, ih nodup.2 found]

theorem set_key (nodup : (nodes.map AVLLocalNode.key).Nodup) (found : nodes[idx]? = some node)
    (node' : AVLLocalNode) : nodes.set idx node' = nodes.map (onKey node.key (fun _ => node')) := by
  rw [← modify_key nodup found, List.modify_eq_set_getElem?, found]
  rfl

/-- Only the node of a key passes a test for this key. -/
theorem findIdx?_key (nodup : (nodes.map AVLLocalNode.key).Nodup) (mem : node ∈ nodes)
    (test : AVLLocalNode → Bool) :
    if test node then ∃ idx, nodes.findIdx? (fun other => other.key == node.key && test other) =
        some idx ∧ nodes[idx]? = some node
      else nodes.findIdx? (fun other => other.key == node.key && test other) = none := by
  have only : ∀ other ∈ nodes, other.key = node.key → other = node :=
    fun other mem' same => List.inj_on_of_nodup_map nodup mem' mem same
  split
  · rename_i passes
    rcases found : nodes.findIdx? (fun other => other.key == node.key && test other) with _ | idx
    · rw [List.findIdx?_eq_none_iff] at found
      simpa [passes] using found node mem
    · rcases List.findIdx?_eq_some_iff_getElem.mp found with ⟨idxLt, isKey, _⟩
      refine ⟨idx, found, ?_⟩
      rw [List.getElem?_eq_getElem idxLt, only _ (List.getElem_mem idxLt)]
      simp only [Bool.and_eq_true, beq_iff_eq] at isKey
      exact isKey.1
  · rename_i fails
    rw [List.findIdx?_eq_none_iff]
    intro other mem'
    by_cases same : other.key = node.key
    · rw [only other mem' same]
      simpa using fails
    · simp [same]

theorem findIdx?_key_eq_none (notMem : key ∉ nodes.map AVLLocalNode.key)
    (test : AVLLocalNode → Bool) :
    nodes.findIdx? (fun node => node.key == key && test node) = none := by
  rw [List.findIdx?_eq_none_iff]
  intro node mem
  have differs : node.key ≠ key := fun isKey => notMem (isKey ▸ List.mem_map_of_mem mem)
  simp [differs]

theorem key_onKey (sameKey : ∀ node, node.key = key → (f node).key = key)
    (node : AVLLocalNode) : (onKey key f node).key = node.key := by
  unfold onKey
  split
  · rename_i isKey
    rw [sameKey node isKey, isKey]
  · rfl

theorem map_key_onKey (sameKey : ∀ node, node.key = key → (f node).key = key) :
    (nodes.map (onKey key f)).map AVLLocalNode.key = nodes.map AVLLocalNode.key := by
  rw [List.map_map]
  exact List.map_congr_left (fun node _ => key_onKey sameKey node)

end Keyed

/-! ## The way up from the focus -/

/-- A local node above the focus. -/
structure AvlFrame where
  node : AVLLocalNode
  onLeft : Bool
  sibling : AvlPart

namespace AvlFrame

/-- The node over the part at its focus. -/
def plug (frame : AvlFrame) (part : AvlPart) : AvlPart :=
  .fetchedOn frame.onLeft frame.node part frame.sibling

/-- The frame of the tree. -/
def frame (frame : AvlFrame) : BinaryTree.Frame (Int × Bytes) :=
  ⟨frame.onLeft, (frame.node.key, frame.node.avl.data), frame.sibling.tree⟩

@[simp]
theorem tree_plug (frame : AvlFrame) (part : AvlPart) :
    (frame.plug part).tree = frame.frame.plug part.tree :=
  AvlPart.tree_fetchedOn _ _ _ _

/-- Replace the child at the focus. -/
def refocus (frame : AvlFrame) (ptr : ChildPtr) : AvlFrame :=
  { frame with node := { frame.node with avl := frame.node.avl.setChild frame.onLeft ptr } }

theorem frame_refocus (frame : AvlFrame) (ptr : ChildPtr) :
    (frame.refocus ptr).frame = frame.frame := by
  rw [AvlFrame.frame, AvlFrame.frame, refocus, AVLNodeData.data_setChild]

end AvlFrame

namespace AvlPart

/-- The part around a focus; the innermost frame comes first. -/
def plug (frames : List AvlFrame) (part : AvlPart) : AvlPart :=
  frames.foldl (fun part frame => frame.plug part) part

theorem tree_plug (frames : List AvlFrame) (part : AvlPart) :
    (plug frames part).tree = BinaryTree.plug (frames.map AvlFrame.frame) part.tree := by
  induction frames generalizing part with
  | nil => rfl
  | cons frame frames ih =>
      rw [plug, List.foldl_cons, ← plug, ih, frame.tree_plug]
      rfl

/-- The frames know their children and parents. -/
def SpineLinked (label : Int → Int) : List AvlFrame → AvlPart → Prop
  | [], part => part.ParentIs invalidKey
  | frame :: frames, part =>
      part.PtrOk label (frame.node.avl.child frame.onLeft) ∧ part.ParentIs frame.node.key ∧
        frame.sibling.PtrOk label (frame.node.avl.child !frame.onLeft) ∧
        frame.sibling.ParentIs frame.node.key ∧ frame.sibling.Linked label ∧
        SpineLinked label frames (frame.plug part)

/-- What a frame requires of its focus. -/
theorem SpineLinked.congr {label : Int → Int} {frames : List AvlFrame} {part part' : AvlPart}
    (linked : SpineLinked label frames part)
    (samePtr : ∀ ptr, part.PtrOk label ptr → part'.PtrOk label ptr)
    (sameParent : ∀ key, part.ParentIs key → part'.ParentIs key) :
    SpineLinked label frames part' := by
  induction frames generalizing part part' with
  | nil => exact sameParent _ linked
  | cons frame frames ih =>
      rcases linked with ⟨ptrOk, parentIs, siblingPtr, siblingParent, siblingLinked, outer⟩
      refine ⟨samePtr _ ptrOk, sameParent _ parentIs, siblingPtr, siblingParent, siblingLinked, ?_⟩
      -- From above, a frame looks the same whatever its focus is.
      refine ih outer ?_ ?_
      · intro ptr
        rw [AvlFrame.plug, AvlFrame.plug, ptrOk_fetchedOn, ptrOk_fetchedOn]
        exact id
      · intro key
        rw [AvlFrame.plug, AvlFrame.plug, parentIs_fetchedOn, parentIs_fetchedOn]
        exact id

theorem SpineLinked.sibling_linked {label : Int → Int} {frames : List AvlFrame} {part : AvlPart}
    (linked : SpineLinked label frames part) {frame : AvlFrame} (mem : frame ∈ frames) :
    frame.sibling.Linked label := by
  induction frames generalizing part with
  | nil => cases mem
  | cons innermost frames ih =>
      rcases linked with ⟨_, _, _, _, siblingLinked, outer⟩
      rcases List.mem_cons.mp mem with rfl | isOuter
      · exact siblingLinked
      · exact ih outer isOuter

/-- Give the innermost frame another child at its focus. -/
def refocus (ptr : ChildPtr) : List AvlFrame → List AvlFrame
  | [] => []
  | frame :: frames => frame.refocus ptr :: frames

theorem map_frame_refocus (ptr : ChildPtr) (frames : List AvlFrame) :
    (refocus ptr frames).map AvlFrame.frame = frames.map AvlFrame.frame := by
  cases frames with
  | nil => rfl
  | cons frame frames => rw [refocus, List.map_cons, frame.frame_refocus, List.map_cons]

theorem SpineLinked.refocus {label : Int → Int} {frames : List AvlFrame} {part part' : AvlPart}
    (linked : SpineLinked label frames part) {ptr : ChildPtr} (ptrOk' : part'.PtrOk label ptr)
    (sameParent : ∀ key, part.ParentIs key → part'.ParentIs key) :
    SpineLinked label (refocus ptr frames) part' := by
  cases frames with
  | nil => exact sameParent _ linked
  | cons frame frames =>
      rcases linked with ⟨ptrOk, parentIs, siblingPtr, siblingParent, siblingLinked, outer⟩
      refine ⟨?_, sameParent _ parentIs, ?_, siblingParent, siblingLinked, outer.congr ?_ ?_⟩
      · simpa [AvlFrame.refocus] using ptrOk'
      · simpa [AvlFrame.refocus] using siblingPtr
      · intro ptr
        rw [AvlFrame.plug, AvlFrame.plug, ptrOk_fetchedOn, ptrOk_fetchedOn]
        exact id
      · intro key
        rw [AvlFrame.plug, AvlFrame.plug, parentIs_fetchedOn, parentIs_fetchedOn]
        exact id

/-- The local nodes beside the way up. -/
def sideNodes (frames : List AvlFrame) : List AVLLocalNode :=
  frames.flatMap (fun frame => frame.sibling.nodes)

/-- The stored keys beside the way up. -/
def sideKeys (frames : List AvlFrame) : List Int :=
  frames.flatMap (fun frame => frame.sibling.storedKeys)

theorem nodes_plug (frames : List AvlFrame) (part : AvlPart) :
    (plug frames part).nodes.Perm (frames.map AvlFrame.node ++ (part.nodes ++ sideNodes frames)) := by
  induction frames generalizing part with
  | nil => simp [plug, sideNodes]
  | cons frame frames ih =>
      rw [plug, List.foldl_cons, ← plug]
      refine (ih _).trans ?_
      have inner := nodes_fetchedOn frame.onLeft frame.node part frame.sibling
      rw [← AvlFrame.plug] at inner
      refine (List.Perm.append_left _ (inner.append_right _)).trans ?_
      simp only [List.map_cons, sideNodes, List.flatMap_cons, List.cons_append, List.append_assoc]
      exact List.perm_middle

theorem storedKeys_fetchedOn (side : Bool) (node : AVLLocalNode) (child other : AvlPart) :
    (fetchedOn side node child other).storedKeys.Perm (child.storedKeys ++ other.storedKeys) := by
  cases side
  · exact List.perm_append_comm
  · exact List.Perm.refl _

theorem storedKeys_plug (frames : List AvlFrame) (part : AvlPart) :
    (plug frames part).storedKeys.Perm (part.storedKeys ++ sideKeys frames) := by
  induction frames generalizing part with
  | nil => simp [plug, sideKeys]
  | cons frame frames ih =>
      rw [plug, List.foldl_cons, ← plug]
      refine (ih _).trans ?_
      have inner := storedKeys_fetchedOn frame.onLeft frame.node part frame.sibling
      rw [← AvlFrame.plug] at inner
      refine (inner.append_right _).trans ?_
      simp only [sideKeys, List.flatMap_cons, List.append_assoc]
      exact List.Perm.refl _

/-- The keys around a focus. -/
theorem keys_plug (frames : List AvlFrame) (part : AvlPart) :
    (plug frames part).tree.keys.Perm (frames.map (fun frame => frame.node.key) ++
      (part.tree.keys ++ frames.flatMap (fun frame => frame.sibling.tree.keys))) := by
  induction frames generalizing part with
  | nil => simp [plug]
  | cons frame frames ih =>
      rw [plug, List.foldl_cons, ← plug]
      refine (ih _).trans ?_
      have inner := AvlTree.keys_nodeOn frame.onLeft (frame.node.key, frame.node.avl.data)
        part.tree frame.sibling.tree
      rw [← AvlPart.tree_fetchedOn, ← AvlFrame.plug] at inner
      refine (List.Perm.append_left _ (inner.append_right _)).trans ?_
      simp only [List.map_cons, List.flatMap_cons, List.cons_append, List.append_assoc]
      exact List.perm_middle

theorem key_mem_keys {part : AvlPart} {node : AVLLocalNode} (mem : node ∈ part.nodes) :
    node.key ∈ part.tree.keys :=
  part.keys_perm.mem_iff.mpr (List.mem_append_left _ (List.mem_map_of_mem mem))

theorem keys_refocus (ptr : ChildPtr) (frames : List AvlFrame) :
    (refocus ptr frames).map (fun frame => frame.node.key) =
      frames.map (fun frame => frame.node.key) := by
  cases frames <;> rfl

theorem sideNodes_refocus (ptr : ChildPtr) (frames : List AvlFrame) :
    sideNodes (refocus ptr frames) = sideNodes frames := by
  cases frames <;> rfl

/-- The keys around a focus only depend on the keys at the focus. -/
theorem keys_plug_refocus {part part' : AvlPart} (ptr : ChildPtr) (frames : List AvlFrame)
    (same : part'.tree.toList = part.tree.toList) :
    (plug (refocus ptr frames) part').tree.keys = (plug frames part).tree.keys := by
  rw [AvlTree.keys, AvlTree.keys, tree_plug, tree_plug, map_frame_refocus,
    BinaryTree.toList_plug, BinaryTree.toList_plug, same]

/-- The root is the outermost frame, if there is one. -/
theorem rootKey_plug (frames : List AvlFrame) (part : AvlPart) : (plug frames part).tree.rootKey =
    ((frames.map (fun frame => frame.node.key)).getLast?).getD part.tree.rootKey := by
  induction frames generalizing part with
  | nil => rfl
  | cons frame frames ih =>
      have here : (frame.plug part).tree.rootKey = frame.node.key := by
        rcases frame with ⟨node, onLeft, sibling⟩
        cases onLeft <;> rfl
      rw [plug, List.foldl_cons, ← plug, ih, here, List.map_cons]
      cases frames with
      | nil => rfl
      | cons outer frames => simp [List.getLast?_cons]

/-- What is stored beside the way up. -/
theorem blocks_plug (label : Int → Int) (place : Int → Half) (half : Half) (frames : List AvlFrame)
    (part : AvlPart) : (plug frames part).blocks label place half =
      part.blocks label place half +
        ((frames.map AvlFrame.sibling).map (fun sibling => sibling.blocks label place half)).sum := by
  induction frames generalizing part with
  | nil => simp [plug]
  | cons frame frames ih =>
      rw [plug, List.foldl_cons, ← plug, ih, AvlFrame.plug, blocks_fetchedOn]
      simp [add_assoc]

theorem siblings_refocus (ptr : ChildPtr) (frames : List AvlFrame) :
    (refocus ptr frames).map AvlFrame.sibling = frames.map AvlFrame.sibling := by
  cases frames <;> rfl

end AvlPart

/-! ## The local list -/

open AvlPart

/-- The local list holds the nodes of the frames, from the root down, and those below. -/
structure AvlLocal (label : Int → Int) (nodes : List AVLLocalNode) (frames : List AvlFrame)
    (part : AvlPart) : Prop where
  order : ∃ rest, nodes = (frames.map AvlFrame.node).reverse ++ rest ∧
    rest.Perm (part.nodes ++ sideNodes frames)
  spine : SpineLinked label frames part
  linked : part.Linked label
  nodup : (plug frames part).tree.keys.Nodup
  valid : ∀ key ∈ (plug frames part).tree.keys, key ≠ invalidKey

namespace AvlLocal

variable {label : Int → Int} {nodes : List AVLLocalNode} {frames : List AvlFrame}
  {part : AvlPart}

theorem perm (local_ : AvlLocal label nodes frames part) :
    nodes.Perm (frames.map AvlFrame.node ++ (part.nodes ++ sideNodes frames)) := by
  rcases local_.order with ⟨rest, rfl, restPerm⟩
  exact (List.reverse_perm _).append restPerm

theorem perm_plug (local_ : AvlLocal label nodes frames part) :
    nodes.Perm (plug frames part).nodes :=
  local_.perm.trans (nodes_plug frames part).symm

theorem keys_perm (local_ : AvlLocal label nodes frames part) :
    (plug frames part).tree.keys.Perm
      (nodes.map AVLLocalNode.key ++ (part.storedKeys ++ sideKeys frames)) :=
  (AvlPart.keys_perm _).trans ((local_.perm_plug.symm.map _).append (storedKeys_plug frames part))

theorem nodup_keys (local_ : AvlLocal label nodes frames part) :
    (nodes.map AVLLocalNode.key).Nodup :=
  (List.nodup_append'.mp (local_.keys_perm.nodup_iff.mp local_.nodup)).1

theorem notMem_of_stored (local_ : AvlLocal label nodes frames part) {key : Int}
    (stored : key ∈ part.storedKeys) : key ∉ nodes.map AVLLocalNode.key := by
  have disjoint := (List.nodup_append'.mp (local_.keys_perm.nodup_iff.mp local_.nodup)).2.2
  exact fun mem => disjoint mem (List.mem_append_left _ stored)

theorem notMem_of_sibling (local_ : AvlLocal label nodes frames part) {frame : AvlFrame}
    (mem : frame ∈ frames) {key : Int} (stored : key ∈ frame.sibling.storedKeys) :
    key ∉ nodes.map AVLLocalNode.key := by
  have disjoint := (List.nodup_append'.mp (local_.keys_perm.nodup_iff.mp local_.nodup)).2.2
  refine fun mem' => disjoint mem' (List.mem_append_right _ ?_)
  exact List.mem_flatMap.mpr ⟨frame, mem, stored⟩

theorem key_ne_invalid (local_ : AvlLocal label nodes frames part) :
    invalidKey ∉ nodes.map AVLLocalNode.key := by
  intro mem
  exact local_.valid invalidKey (local_.keys_perm.mem_iff.mpr (List.mem_append_left _ mem)) rfl

/-- The innermost frame is at its place in the list. -/
theorem isNext {frame : AvlFrame} (local_ : AvlLocal label nodes (frame :: frames) part) :
    nodes[frames.length]? = some frame.node := by
  rcases local_.order with ⟨rest, order, _⟩
  rw [order, List.map_cons, List.reverse_cons, List.append_assoc,
    List.getElem?_append_right (by simp)]
  simp

/-- Change the node of the innermost frame. -/
theorem setFrame {frame : AvlFrame} (local_ : AvlLocal label nodes (frame :: frames) part)
    {node : AVLLocalNode} (sameKey : node.key = frame.node.key)
    (sameParent : node.parentKey = frame.node.parentKey)
    (ptrOk : part.PtrOk label (node.avl.child frame.onLeft))
    (siblingPtr : frame.sibling.PtrOk label (node.avl.child !frame.onLeft)) :
    AvlLocal label (nodes.set frames.length node) ({ frame with node } :: frames) part := by
  rcases local_.order with ⟨rest, order, restPerm⟩
  rcases local_.spine with ⟨_, parentIs, _, siblingParent, siblingLinked, outer⟩
  have sameKeys : (plug ({ frame with node } :: frames) part).tree.keys.Perm
      (plug (frame :: frames) part).tree.keys := by
    refine (keys_plug _ part).trans ?_
    simp only [List.map_cons, List.flatMap_cons, sameKey]
    exact (keys_plug (frame :: frames) part).symm
  refine ⟨⟨rest, ?_, restPerm⟩, ⟨ptrOk, sameKey ▸ parentIs, siblingPtr, sameKey ▸ siblingParent,
    siblingLinked, ?_⟩, local_.linked, sameKeys.nodup_iff.mpr local_.nodup,
    fun key mem => local_.valid key (sameKeys.mem_iff.mp mem)⟩
  · rw [order, List.map_cons, List.reverse_cons, List.append_assoc,
      List.set_append_right _ _ (by simp)]
    simp
  · refine outer.congr ?_ ?_
    · intro ptr
      rw [AvlFrame.plug, AvlFrame.plug, ptrOk_fetchedOn, ptrOk_fetchedOn, sameKey]
      exact id
    · intro key
      rw [AvlFrame.plug, AvlFrame.plug, parentIs_fetchedOn, parentIs_fetchedOn, sameParent]
      exact id

/-- Take the innermost frame into the focus. -/
theorem pop {frame : AvlFrame} (local_ : AvlLocal label nodes (frame :: frames) part) :
    AvlLocal label nodes frames (frame.plug part) := by
  rcases local_.order with ⟨rest, order, restPerm⟩
  rcases local_.spine with ⟨ptrOk, parentIs, siblingPtr, siblingParent, siblingLinked, outer⟩
  refine ⟨⟨frame.node :: rest, ?_, ?_⟩, outer, ?_, local_.nodup, local_.valid⟩
  · rw [order]
    simp
  · refine (List.Perm.cons _ restPerm).trans ?_
    have inner := nodes_fetchedOn frame.onLeft frame.node part frame.sibling
    refine List.Perm.trans ?_ (inner.symm.append_right _)
    simp [sideNodes]
  · exact linked_fetchedOn.mpr ⟨ptrOk, siblingPtr, parentIs, siblingParent, local_.linked,
      siblingLinked⟩

/-- Take the root of the focus into the frames, if it comes next in the list. -/
theorem push {frame : AvlFrame} (local_ : AvlLocal label nodes frames (frame.plug part))
    (isNext : nodes[frames.length]? = some frame.node) :
    AvlLocal label nodes (frame :: frames) part := by
  rcases local_.order with ⟨rest, order, restPerm⟩
  rcases linked_fetchedOn.mp local_.linked with
    ⟨ptrOk, siblingPtr, parentIs, siblingParent, linked, siblingLinked⟩
  have restHead : rest[0]? = some frame.node := by
    rw [order, List.getElem?_append_right (by simp)] at isNext
    simpa using isNext
  rcases rest with _ | ⟨head, rest⟩
  · cases restHead
  obtain rfl : head = frame.node := by simpa using restHead
  refine ⟨⟨rest, ?_, ?_⟩, ⟨ptrOk, parentIs, siblingPtr, siblingParent, siblingLinked,
    local_.spine⟩, linked, local_.nodup, local_.valid⟩
  · rw [order]
    simp
  · have inner := nodes_fetchedOn frame.onLeft frame.node part frame.sibling
    have whole := restPerm.trans (inner.append_right _)
    rw [List.cons_append] at whole
    refine (List.Perm.cons_inv whole).trans ?_
    simp [sideNodes]

end AvlLocal

/-! ## Changes of the local nodes -/

/-- Only local nodes and the root's key change; the nodes keep their slots, and what is
stored stays so. -/
structure Reshaped (label : Int → Int) (omap : AVLOmap) (whole : AvlPart) (omap' : AVLOmap)
    (whole' : AvlPart) : Prop where
  rest : omap' = { omap with local_ := omap'.local_, rootKey := omap'.rootKey }
  slots : omap'.local_.map AVLLocalNode.slot = omap.local_.map AVLLocalNode.slot
  blocks : ∀ place half, whole'.blocks label place half = whole.blocks label place half

namespace Reshaped

variable {label : Int → Int} {omap omap' omap'' : AVLOmap} {whole whole' whole'' : AvlPart}

theorem refl (label : Int → Int) (omap : AVLOmap) (whole : AvlPart) :
    Reshaped label omap whole omap whole := ⟨rfl, rfl, fun _ _ => rfl⟩

theorem trans (first : Reshaped label omap whole omap' whole')
    (second : Reshaped label omap' whole' omap'' whole'') :
    Reshaped label omap whole omap'' whole'' := by
  refine ⟨?_, second.slots.trans first.slots, fun place half =>
    (second.blocks place half).trans (first.blocks place half)⟩
  rw [second.rest, first.rest]

theorem length (reshaped : Reshaped label omap whole omap' whole') :
    omap'.local_.length = omap.local_.length := by
  simpa using congrArg List.length reshaped.slots

end Reshaped

/-- The local nodes and the root of an operation, with a focus. -/
structure AvlFocus (label : Int → Int) (omap : AVLOmap) (frames : List AvlFrame)
    (part : AvlPart) : Prop where
  local_ : AvlLocal label omap.local_ frames part
  rootKey : omap.rootKey = (plug frames part).tree.rootKey

/-- The frames know the heights of their other children. -/
def SidesExact (frames : List AvlFrame) : Prop :=
  ∀ frame ∈ frames, (frame.node.avl.child !frame.onLeft).height = frame.sibling.tree.height ∧
    frame.sibling.HeightsExact

end TieredOmap
