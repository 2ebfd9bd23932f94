import TieredOMap.Lib.AvlTree
import TieredOMap.Omap.Avl

/-!
# Partly fetched AVL trees

During an operation the nodes near the root are local and the subtrees below are
in the ORAMs. `AvlPart` is such a tree. A local node knows its children by key; the
leaf and the height it has for a child are only right if the child is stored, since
local nodes move and change until the operation ends.
-/

namespace TieredOmap

/-- The tree of an AVL map: keys with their data. -/
abbrev AvlTree := BinaryTree (Int × Bytes)

/-! ## Stored trees -/

/-- What a node knows about one of its children. -/
structure ChildPtr where
  key : Int
  leaf : Int
  height : Int
deriving DecidableEq, Repr

namespace AVLNodeData

/-- The child on a side; `true` is left. -/
def child (avl : AVLNodeData) : Bool → ChildPtr
  | true => ⟨avl.lKey, avl.lLeaf, avl.lHeight⟩
  | false => ⟨avl.rKey, avl.rLeaf, avl.rHeight⟩

/-- Replace the child on a side. -/
def setChild (avl : AVLNodeData) : Bool → ChildPtr → AVLNodeData
  | true, ptr => { avl with lKey := ptr.key, lLeaf := ptr.leaf, lHeight := ptr.height }
  | false, ptr => { avl with rKey := ptr.key, rLeaf := ptr.leaf, rHeight := ptr.height }

@[simp]
theorem child_setChild (avl : AVLNodeData) (side : Bool) (ptr : ChildPtr) :
    (avl.setChild side ptr).child side = ptr := by
  cases side <;> rfl

@[simp]
theorem child_setChild_not (avl : AVLNodeData) (side : Bool) (ptr : ChildPtr) :
    (avl.setChild side ptr).child (!side) = avl.child (!side) := by
  cases side <;> rfl

@[simp]
theorem child_not_setChild (avl : AVLNodeData) (side : Bool) (ptr : ChildPtr) :
    (avl.setChild (!side) ptr).child side = avl.child side := by
  cases side <;> rfl

@[simp]
theorem data_setChild (avl : AVLNodeData) (side : Bool) (ptr : ChildPtr) :
    (avl.setChild side ptr).data = avl.data := by
  cases side <;> rfl

theorem ext_child {avl avl' : AVLNodeData} (data : avl.data = avl'.data) (side : Bool)
    (child : avl.child side = avl'.child side)
    (other : avl.child (!side) = avl'.child (!side)) : avl = avl' := by
  rcases avl with ⟨_, _, _, _, _, _, _⟩
  rcases avl' with ⟨_, _, _, _, _, _, _⟩
  cases side <;> simp_all [AVLNodeData.child]

theorem height_eq_child (avl : AVLNodeData) (side : Bool) :
    avl.height = 1 + max (avl.child side).height (avl.child (!side)).height := by
  cases side
  · exact congrArg (1 + ·) (max_comm _ _)
  · rfl

end AVLNodeData

namespace AvlTree

/-- The key of the root. -/
def rootKey : AvlTree → Int
  | .nil => invalidKey
  | .node entry _ _ => entry.1

/-- What a parent has to know about a stored tree under the given leaves. -/
def ptr (label : Int → Int) : AvlTree → ChildPtr
  | .nil => ⟨invalidKey, invalidLeaf, 0⟩
  | .node entry left right => ⟨entry.1, label entry.1, (BinaryTree.node entry left right).height⟩

@[simp]
theorem ptr_key (label : Int → Int) (tree : AvlTree) : (tree.ptr label).key = tree.rootKey := by
  cases tree <;> rfl

@[simp]
theorem ptr_height (label : Int → Int) (tree : AvlTree) :
    (tree.ptr label).height = tree.height := by
  cases tree <;> rfl

/-- The keys from left to right. -/
def keys (tree : AvlTree) : List Int := tree.toList.map Prod.fst

@[simp]
theorem keys_nil : keys .nil = [] := rfl

@[simp]
theorem keys_node (entry : Int × Bytes) (left right : AvlTree) :
    keys (.node entry left right) = left.keys ++ entry.1 :: right.keys := by
  simp [keys, BinaryTree.toList]

theorem keys_nodeOn (side : Bool) (entry : Int × Bytes) (child other : AvlTree) :
    (AvlTree.keys (.nodeOn side entry child other)).Perm (entry.1 :: (child.keys ++ other.keys)) := by
  cases side
  · simp only [BinaryTree.nodeOn, keys_node]
    exact List.perm_middle.trans (List.Perm.cons _ List.perm_append_comm)
  · simp only [BinaryTree.nodeOn, keys_node]
    exact List.perm_middle

theorem rootKey_mem {tree : AvlTree} (valid : ∀ key ∈ tree.keys, key ≠ invalidKey) :
    tree.rootKey = invalidKey ∧ tree = .nil ∨ tree.rootKey ≠ invalidKey ∧ tree.rootKey ∈ tree.keys := by
  cases tree with
  | nil => exact Or.inl ⟨rfl, rfl⟩
  | node entry left right =>
      have rootMem : entry.1 ∈ keys (.node entry left right) := by simp
      exact Or.inr ⟨valid _ rootMem, rootMem⟩

theorem ptr_congr {label label' : Int → Int} {tree : AvlTree}
    (same : ∀ key ∈ tree.keys, label key = label' key) : tree.ptr label = tree.ptr label' := by
  cases tree with
  | nil => rfl
  | node entry left right =>
      rw [ptr, ptr, same _ (by simp)]

/-- The contents of a node's block. -/
def nodeData (label : Int → Int) (data : Bytes) (left right : AvlTree) : AVLNodeData :=
  ((({ data } : AVLNodeData).setChild true (left.ptr label)).setChild false (right.ptr label))

/-- The blocks of a tree in one of the ORAMs. -/
def blocks (label : Int → Int) (place : Int → Half) (half : Half) : AvlTree → Multiset Block
  | .nil => 0
  | .node entry left right =>
      (if place entry.1 = half then
        {⟨entry.1, label entry.1, (nodeData label entry.2 left right).encode⟩} else 0) +
        (blocks label place half left + blocks label place half right)

theorem blocks_congr {label label' : Int → Int} {place place' : Int → Half} {half : Half}
    {tree : AvlTree} (sameLabel : ∀ key ∈ tree.keys, label key = label' key)
    (samePlace : ∀ key ∈ tree.keys, place key = place' key) :
    tree.blocks label place half = tree.blocks label' place' half := by
  induction tree with
  | nil => rfl
  | node entry left right ihLeft ihRight =>
      simp only [keys_node, List.mem_append, List.mem_cons] at sameLabel samePlace
      have leftPtr := ptr_congr (fun key mem => sameLabel key (Or.inl mem))
      have rightPtr := ptr_congr (fun key mem => sameLabel key (Or.inr (Or.inr mem)))
      rw [blocks, blocks, nodeData, nodeData, leftPtr, rightPtr,
        sameLabel entry.1 (Or.inr (Or.inl rfl)), samePlace entry.1 (Or.inr (Or.inl rfl)),
        ihLeft (fun key mem => sameLabel key (Or.inl mem)) (fun key mem => samePlace key (Or.inl mem)),
        ihRight (fun key mem => sameLabel key (Or.inr (Or.inr mem)))
          (fun key mem => samePlace key (Or.inr (Or.inr mem)))]

theorem mem_blocks_key {label : Int → Int} {place : Int → Half} {half : Half} {tree : AvlTree}
    {block : Block} (mem : block ∈ tree.blocks label place half) : block.key ∈ tree.keys := by
  induction tree with
  | nil => simp [blocks] at mem
  | node entry left right ihLeft ihRight =>
      rw [keys_node, List.mem_append, List.mem_cons]
      rw [blocks, Multiset.mem_add, Multiset.mem_add] at mem
      rcases mem with here | inLeft | inRight
      · split at here
        · rw [Multiset.mem_singleton] at here
          exact Or.inr (Or.inl (here ▸ rfl))
        · simp at here
      · exact Or.inl (ihLeft inLeft)
      · exact Or.inr (Or.inr (ihRight inRight))

/-- The keys that one of the ORAMs has. -/
theorem map_key_blocks (label : Int → Int) (place : Int → Half) (half : Half) (tree : AvlTree) :
    (tree.blocks label place half).map Block.key =
      ↑(tree.keys.filter (fun key => place key = half)) := by
  induction tree with
  | nil => rfl
  | node entry left right ihLeft ihRight =>
      rw [blocks, Multiset.map_add, Multiset.map_add, ihLeft, ihRight, keys_node, List.filter_append,
        List.filter_cons]
      by_cases here : place entry.1 = half
      · rw [if_pos here, if_pos (by simpa using here), ← Multiset.coe_add, ← Multiset.cons_coe,
          Multiset.map_singleton, Multiset.singleton_add, Multiset.add_cons]
      · rw [if_neg here, if_neg (by simpa using here), ← Multiset.coe_add, Multiset.map_zero,
          zero_add]

end AvlTree

/-! ## Partly fetched trees -/

/-- A tree whose upper nodes are local. -/
inductive AvlPart where
  | stored (tree : AvlTree)
  | fetched (node : AVLLocalNode) (left right : AvlPart)

namespace AvlPart

/-- The tree, whether fetched or not. -/
def tree : AvlPart → AvlTree
  | stored tree => tree
  | fetched node left right => .node (node.key, node.avl.data) left.tree right.tree

/-- The local nodes. -/
def nodes : AvlPart → List AVLLocalNode
  | stored _ => []
  | fetched node left right => node :: (left.nodes ++ right.nodes)

/-- The keys that are not local. -/
def storedKeys : AvlPart → List Int
  | stored tree => tree.keys
  | fetched _ left right => left.storedKeys ++ right.storedKeys

/-- The blocks that are still in one of the ORAMs. -/
def blocks (label : Int → Int) (place : Int → Half) (half : Half) : AvlPart → Multiset Block
  | stored tree => tree.blocks label place half
  | fetched _ left right => left.blocks label place half + right.blocks label place half

/-- A local node with a child on a side. -/
def fetchedOn (side : Bool) (node : AVLLocalNode) (child other : AvlPart) : AvlPart :=
  if side then fetched node child other else fetched node other child

theorem fetchedOn_not (side : Bool) (node : AVLLocalNode) (child other : AvlPart) :
    fetchedOn (!side) node child other = fetchedOn side node other child := by
  cases side <;> rfl

@[simp]
theorem tree_fetchedOn (side : Bool) (node : AVLLocalNode) (child other : AvlPart) :
    (fetchedOn side node child other).tree =
      .nodeOn side (node.key, node.avl.data) child.tree other.tree := by
  cases side <;> rfl

theorem nodes_fetchedOn (side : Bool) (node : AVLLocalNode) (child other : AvlPart) :
    (fetchedOn side node child other).nodes.Perm (node :: (child.nodes ++ other.nodes)) := by
  cases side
  · exact List.Perm.cons _ List.perm_append_comm
  · exact List.Perm.refl _

theorem blocks_fetchedOn (label : Int → Int) (place : Int → Half) (half : Half) (side : Bool)
    (node : AVLLocalNode) (child other : AvlPart) :
    (fetchedOn side node child other).blocks label place half =
      child.blocks label place half + other.blocks label place half := by
  cases side
  · exact add_comm _ _
  · rfl

/-- The keys are those of the local nodes and the stored ones. -/
theorem keys_perm (part : AvlPart) :
    part.tree.keys.Perm (part.nodes.map AVLLocalNode.key ++ part.storedKeys) := by
  induction part with
  | stored tree => exact List.Perm.refl _
  | fetched node left right ihLeft ihRight =>
      simp only [tree, nodes, storedKeys, AvlTree.keys_node, List.map_cons, List.map_append,
        List.cons_append]
      refine List.perm_middle.trans (List.Perm.cons _ ((ihLeft.append ihRight).trans ?_))
      simp only [List.append_assoc]
      refine List.Perm.append_left _ ?_
      simp only [← List.append_assoc]
      exact List.Perm.append_right _ List.perm_append_comm

/-- The parent that the root refers to, if it is local. -/
def ParentIs (parentKey : Int) : AvlPart → Prop
  | stored _ => True
  | fetched node _ _ => node.parentKey = parentKey

/-- What a parent knows about the root: all of it if it is stored, else only the key. -/
def PtrOk (label : Int → Int) (ptr : ChildPtr) : AvlPart → Prop
  | stored tree => ptr = tree.ptr label
  | fetched node _ _ => ptr.key = node.key

/-- Local nodes know their children and their parents. -/
def Linked (label : Int → Int) : AvlPart → Prop
  | stored _ => True
  | fetched node left right =>
      left.PtrOk label (node.avl.child true) ∧ right.PtrOk label (node.avl.child false) ∧
        left.ParentIs node.key ∧ right.ParentIs node.key ∧ left.Linked label ∧ right.Linked label

/-- Local nodes know the heights of their children. -/
def HeightsExact : AvlPart → Prop
  | stored _ => True
  | fetched node left right =>
      (node.avl.child true).height = left.tree.height ∧
        (node.avl.child false).height = right.tree.height ∧ left.HeightsExact ∧ right.HeightsExact

theorem PtrOk.key_eq {label : Int → Int} {ptr : ChildPtr} {part : AvlPart}
    (ok : part.PtrOk label ptr) : ptr.key = part.tree.rootKey := by
  cases part with
  | stored tree =>
      rw [show ptr = tree.ptr label from ok]
      exact AvlTree.ptr_key label tree
  | fetched node left right => exact ok

@[simp]
theorem ptrOk_fetchedOn {label : Int → Int} {ptr : ChildPtr} {side : Bool} {node : AVLLocalNode}
    {child other : AvlPart} :
    (fetchedOn side node child other).PtrOk label ptr ↔ ptr.key = node.key := by
  cases side <;> rfl

@[simp]
theorem parentIs_fetchedOn {parentKey : Int} {side : Bool} {node : AVLLocalNode}
    {child other : AvlPart} :
    (fetchedOn side node child other).ParentIs parentKey ↔ node.parentKey = parentKey := by
  cases side <;> rfl

theorem linked_fetchedOn {label : Int → Int} {side : Bool} {node : AVLLocalNode}
    {child other : AvlPart} : (fetchedOn side node child other).Linked label ↔
      child.PtrOk label (node.avl.child side) ∧ other.PtrOk label (node.avl.child !side) ∧
        child.ParentIs node.key ∧ other.ParentIs node.key ∧ child.Linked label ∧
          other.Linked label := by
  cases side
  · exact ⟨fun ⟨a, b, c, d, e, f⟩ => ⟨b, a, d, c, f, e⟩, fun ⟨a, b, c, d, e, f⟩ => ⟨b, a, d, c, f, e⟩⟩
  · exact Iff.rfl

theorem heightsExact_fetchedOn {side : Bool} {node : AVLLocalNode} {child other : AvlPart} :
    (fetchedOn side node child other).HeightsExact ↔
      (node.avl.child side).height = child.tree.height ∧
        (node.avl.child !side).height = other.tree.height ∧ child.HeightsExact ∧
          other.HeightsExact := by
  cases side
  · exact ⟨fun ⟨a, b, c, d⟩ => ⟨b, a, d, c⟩, fun ⟨a, b, c, d⟩ => ⟨b, a, d, c⟩⟩
  · exact Iff.rfl

/-- With the right heights of its children a node has the right height. -/
theorem height_of_exact {node : AVLLocalNode} {left right : AvlPart}
    (exact : (fetched node left right).HeightsExact) :
    node.avl.height = (fetched node left right).tree.height := by
  rcases exact with ⟨leftExact, rightExact, _, _⟩
  rw [node.avl.height_eq_child true, leftExact]
  rw [show (node.avl.child !true).height = right.tree.height from rightExact]
  simp only [tree, BinaryTree.height]
  omega

theorem height_of_exact_fetchedOn {side : Bool} {node : AVLLocalNode} {child other : AvlPart}
    (exact : (fetchedOn side node child other).HeightsExact) :
    node.avl.height = (fetchedOn side node child other).tree.height := by
  cases side <;> exact height_of_exact exact

/-- Make the root refer to another parent. -/
def setParent (parentKey : Int) : AvlPart → AvlPart
  | stored tree => stored tree
  | fetched node left right => fetched { node with parentKey } left right

section SetParent

variable (part : AvlPart) (parentKey : Int)

@[simp]
theorem tree_setParent : (part.setParent parentKey).tree = part.tree := by
  cases part <;> rfl

@[simp]
theorem blocks_setParent (label : Int → Int) (place : Int → Half) (half : Half) :
    (part.setParent parentKey).blocks label place half = part.blocks label place half := by
  cases part <;> rfl

@[simp]
theorem parentIs_setParent : (part.setParent parentKey).ParentIs parentKey := by
  cases part
  · trivial
  · rfl

@[simp]
theorem linked_setParent (label : Int → Int) :
    (part.setParent parentKey).Linked label ↔ part.Linked label := by
  cases part <;> rfl

@[simp]
theorem ptrOk_setParent (label : Int → Int) (ptr : ChildPtr) :
    (part.setParent parentKey).PtrOk label ptr ↔ part.PtrOk label ptr := by
  cases part <;> rfl

@[simp]
theorem heightsExact_setParent :
    (part.setParent parentKey).HeightsExact ↔ part.HeightsExact := by
  cases part <;> rfl

end SetParent

end AvlPart

end TieredOmap
