import TieredOMap.Omap.AvlTraverse

/-!
# The end of an operation

All local nodes get new leaves, every parent learns the leaves of its children,
and the nodes go back to the stash.
-/

namespace TieredOmap

open AvlPart

/-! ## Children and their parents -/

section Parents

variable {label : Int → Int} {part : AvlPart} {node child : AVLLocalNode}

/-- The key of a child is a key of the tree. -/
theorem AvlPart.PtrOk.key_cases {ptr : ChildPtr} (ok : part.PtrOk label ptr) :
    ptr.key = invalidKey ∨ ptr.key ∈ part.tree.keys := by
  rw [ok.key_eq]
  cases part.tree with
  | nil => exact Or.inl rfl
  | node entry left right => exact Or.inr (by simp [AvlTree.rootKey])

theorem AvlPart.child_cases (linked : part.Linked label) (nodeMem : node ∈ part.nodes)
    (side : Bool) :
    (node.avl.child side).key = invalidKey ∨ (node.avl.child side).key ∈ part.tree.keys := by
  induction part with
  | stored tree => cases nodeMem
  | fetched root left right ihLeft ihRight =>
      rcases linked with ⟨leftPtr, rightPtr, _, _, leftLinked, rightLinked⟩
      simp only [tree, AvlTree.keys_node, List.mem_append, List.mem_cons]
      rcases List.mem_cons.mp nodeMem with rfl | below
      · cases side with
        | true => exact leftPtr.key_cases.imp_right Or.inl
        | false => exact rightPtr.key_cases.imp_right (fun mem => Or.inr (Or.inr mem))
      · rcases List.mem_append.mp below with inLeft | inRight
        · exact (ihLeft leftLinked inLeft).imp_right Or.inl
        · exact (ihRight rightLinked inRight).imp_right (fun mem => Or.inr (Or.inr mem))

/-- The root of a part below a node refers to it. -/
theorem AvlPart.parentKey_of_root {parentKey : Int} {ptr : ChildPtr} (ok : part.PtrOk label ptr)
    (parentIs : part.ParentIs parentKey) (nodup : part.tree.keys.Nodup)
    (childMem : child ∈ part.nodes) (refers : ptr.key = child.key) : child.parentKey = parentKey := by
  cases part with
  | stored tree => cases childMem
  | fetched root left right =>
      rcases List.mem_cons.mp childMem with rfl | below
      · exact parentIs
      · have rootKey : root.key = child.key := Eq.trans (Eq.symm ok) refers
        have keysNodup := ((keys_perm _).nodup_iff.mp nodup).of_append_left
        have notBelow : root.key ∉ (left.nodes ++ right.nodes).map AVLLocalNode.key :=
          (List.nodup_cons.mp keysNodup).1
        exact (notBelow (rootKey ▸ List.mem_map_of_mem below)).elim

/-- A local node whose key a local node refers to is a child of that node. -/
theorem AvlPart.parentKey_of_child (linked : part.Linked label) (nodup : part.tree.keys.Nodup)
    (nodeMem : node ∈ part.nodes) (childMem : child ∈ part.nodes)
    (valid : child.key ≠ invalidKey) (side : Bool)
    (refers : (node.avl.child side).key = child.key) : child.parentKey = node.key := by
  induction part with
  | stored tree => cases nodeMem
  | fetched root left right ihLeft ihRight =>
      rcases linked with ⟨leftPtr, rightPtr, leftParent, rightParent, leftLinked, rightLinked⟩
      simp only [tree, AvlTree.keys_node] at nodup
      rcases List.nodup_append.mp nodup with ⟨leftNodup, restNodup, apart⟩
      rcases List.nodup_cons.mp restNodup with ⟨rootNotRight, rightNodup⟩
      -- A node with a key of one side is on that side.
      have onLeft : child.key ∈ left.tree.keys → child ∈ left.nodes := by
        intro keyMem
        rcases List.mem_cons.mp childMem with rfl | below
        · exact (apart _ keyMem _ List.mem_cons_self rfl).elim
        · rcases List.mem_append.mp below with inLeft | inRight
          · exact inLeft
          · exact (apart _ keyMem _ (List.mem_cons_of_mem _ (key_mem_keys inRight)) rfl).elim
      have onRight : child.key ∈ right.tree.keys → child ∈ right.nodes := by
        intro keyMem
        rcases List.mem_cons.mp childMem with rfl | below
        · exact (rootNotRight keyMem).elim
        · rcases List.mem_append.mp below with inLeft | inRight
          · exact (apart _ (key_mem_keys inLeft) _ (List.mem_cons_of_mem _ keyMem) rfl).elim
          · exact inRight
      rcases List.mem_cons.mp nodeMem with rfl | below
      · cases side with
        | true =>
            rcases leftPtr.key_cases with isInvalid | keyMem
            · exact (valid (refers.symm.trans isInvalid)).elim
            · exact parentKey_of_root leftPtr leftParent leftNodup (onLeft (refers ▸ keyMem)) refers
        | false =>
            rcases rightPtr.key_cases with isInvalid | keyMem
            · exact (valid (refers.symm.trans isInvalid)).elim
            · exact parentKey_of_root rightPtr rightParent rightNodup (onRight (refers ▸ keyMem))
                refers
      · rcases List.mem_append.mp below with inLeft | inRight
        · rcases child_cases leftLinked inLeft side with isInvalid | keyMem
          · exact (valid (refers.symm.trans isInvalid)).elim
          · exact ihLeft leftLinked leftNodup inLeft (onLeft (refers ▸ keyMem))
        · rcases child_cases rightLinked inRight side with isInvalid | keyMem
          · exact (valid (refers.symm.trans isInvalid)).elim
          · exact ihRight rightLinked rightNodup inRight (onRight (refers ▸ keyMem))

/-- The two children of a node are different. -/
theorem AvlPart.children_differ (linked : part.Linked label) (nodup : part.tree.keys.Nodup)
    (nodeMem : node ∈ part.nodes) (same : (node.avl.child true).key = (node.avl.child false).key) :
    (node.avl.child true).key = invalidKey := by
  induction part with
  | stored tree => cases nodeMem
  | fetched root left right ihLeft ihRight =>
      rcases linked with ⟨leftPtr, rightPtr, _, _, leftLinked, rightLinked⟩
      simp only [tree, AvlTree.keys_node] at nodup
      rcases List.nodup_append.mp nodup with ⟨leftNodup, restNodup, apart⟩
      rcases List.mem_cons.mp nodeMem with rfl | below
      · rcases leftPtr.key_cases with isInvalid | inLeft
        · exact isInvalid
        · rcases rightPtr.key_cases with isInvalid | inRight
          · exact same.trans isInvalid
          · exact (apart _ inLeft _ (List.mem_cons_of_mem _ inRight) same).elim
      · rcases List.mem_append.mp below with inLeft | inRight
        · exact ihLeft leftLinked leftNodup inLeft
        · exact ihRight rightLinked (List.nodup_cons.mp restNodup).2 inRight

end Parents

/-! ## The pointers to the new leaves -/

section Pointers

variable {nodes children : List AVLLocalNode} {node : AVLLocalNode}

theorem key_pointAt (child node : AVLLocalNode) : (AVLOmap.pointAt child node).key = node.key := by
  unfold AVLOmap.pointAt
  split
  · rfl
  · split <;> rfl

theorem pointParent_eq (child : AVLLocalNode) (nodup : (nodes.map AVLLocalNode.key).Nodup)
    (noInvalid : invalidKey ∉ nodes.map AVLLocalNode.key) :
    AVLOmap.pointParent nodes child =
      nodes.map (onKey child.parentKey (AVLOmap.pointAt child)) := by
  unfold AVLOmap.pointParent
  split
  · rename_i isRoot
    rw [isRoot, map_onKey_of_notMem noInvalid]
  · exact modifyFirst_key nodup

/-- What one node learns of its children. -/
def pointAll (children : List AVLLocalNode) (node : AVLLocalNode) : AVLLocalNode :=
  children.foldl (fun node child => onKey child.parentKey (AVLOmap.pointAt child) node) node

theorem foldl_pointParent (children : List AVLLocalNode)
    (nodup : (nodes.map AVLLocalNode.key).Nodup)
    (noInvalid : invalidKey ∉ nodes.map AVLLocalNode.key) :
    children.foldl AVLOmap.pointParent nodes = nodes.map (pointAll children) := by
  induction children generalizing nodes with
  | nil => exact (List.map_id nodes).symm
  | cons child rest ih =>
      have sameKeys : (nodes.map (onKey child.parentKey (AVLOmap.pointAt child))).map
          AVLLocalNode.key = nodes.map AVLLocalNode.key :=
        map_key_onKey (fun node isKey => (key_pointAt child node).trans isKey)
      rw [List.foldl_cons, pointParent_eq child nodup noInvalid, ih (by rw [sameKeys]; exact nodup)
        (by rw [sameKeys]; exact noInvalid), List.map_map]
      rfl

/-- Some of the nodes is a child with the given key. -/
def hasChild (children : List AVLLocalNode) (parentKey key : Int) : Bool :=
  children.any (fun child => child.parentKey == parentKey && child.key == key)

/-- The leaf of a child, which is new if the child is among the given nodes. -/
def newLeaf (new : Int → Int) (children : List AVLLocalNode) (parentKey key leaf : Int) : Int :=
  if hasChild children parentKey key then new key else leaf

/-- A node learns the leaves of its children. -/
theorem pointAll_eq {new : Int → Int} (leafEq : ∀ child ∈ children, child.leaf = new child.key)
    (distinct : node.avl.lKey = node.avl.rKey → ∀ child ∈ children, child.key ≠ node.avl.lKey) :
    pointAll children node = { node with avl := { node.avl with
      lLeaf := newLeaf new children node.key node.avl.lKey node.avl.lLeaf
      rLeaf := newLeaf new children node.key node.avl.rKey node.avl.rLeaf } } := by
  induction children generalizing node with
  | nil => rfl
  | cons child rest ih =>
      have restLeaf : ∀ child ∈ rest, child.leaf = new child.key :=
        fun child mem => leafEq child (List.mem_cons_of_mem _ mem)
      have leafHere := leafEq child List.mem_cons_self
      have step : pointAll (child :: rest) node =
          pointAll rest (onKey child.parentKey (AVLOmap.pointAt child) node) := rfl
      rw [step]
      by_cases isParent : node.key = child.parentKey
      · have here : ∀ key, hasChild (child :: rest) node.key key =
            (child.key == key || hasChild rest node.key key) := by
          intro key
          simp [hasChild, isParent]
        have newHere : ∀ key leaf, child.key = key →
            newLeaf new rest node.key key child.leaf = newLeaf new (child :: rest) node.key key leaf := by
          intro key leaf isKey
          simp [newLeaf, here, isKey, leafHere]
        have newThere : ∀ key leaf, child.key ≠ key →
            newLeaf new rest node.key key leaf = newLeaf new (child :: rest) node.key key leaf := by
          intro key leaf notKey
          simp [newLeaf, here, notKey]
        have restDistinct : node.avl.lKey = node.avl.rKey → ∀ child ∈ rest, child.key ≠ node.avl.lKey :=
          fun same child mem => distinct same child (List.mem_cons_of_mem _ mem)
        rw [onKey_of_eq isParent, AVLOmap.pointAt]
        by_cases isLeft : node.avl.lKey = child.key
        · have notRight : child.key ≠ node.avl.rKey := by
            intro isRight
            exact distinct (isLeft.trans isRight) child List.mem_cons_self isLeft.symm
          rw [if_pos isLeft]
          refine (@ih { node with avl := { node.avl with lLeaf := child.leaf } } restLeaf
            restDistinct).trans ?_
          simp only [newHere _ node.avl.lLeaf isLeft.symm, newThere _ _ notRight]
        · rw [if_neg isLeft]
          by_cases isRight : node.avl.rKey = child.key
          · rw [if_pos isRight]
            refine (@ih { node with avl := { node.avl with rLeaf := child.leaf } } restLeaf
              restDistinct).trans ?_
            simp only [newHere _ node.avl.rLeaf isRight.symm, newThere _ _ (Ne.symm isLeft)]
          · rw [if_neg isRight, ih restLeaf restDistinct]
            simp only [newThere _ _ (Ne.symm isLeft), newThere _ _ (Ne.symm isRight)]
      · rw [onKey_of_ne isParent, ih restLeaf (fun same child mem =>
          distinct same child (List.mem_cons_of_mem _ mem))]
        have notHere : ∀ key, hasChild (child :: rest) node.key key = hasChild rest node.key key := by
          intro key
          simp [hasChild, Ne.symm isParent]
        simp only [newLeaf, notHere]

end Pointers

/-! ## The blocks that go back -/

section Blocks

variable {label new : Int → Int} {keys : List Int}

/-- The leaves after the operation: the given keys get new ones. -/
def relabel (label new : Int → Int) (keys : List Int) (key : Int) : Int :=
  if key ∈ keys then new key else label key

/-- A pointer with the child's new leaf. -/
def ChildPtr.settled (new : Int → Int) (keys : List Int) (ptr : ChildPtr) : ChildPtr :=
  { ptr with leaf := if ptr.key ∈ keys then new ptr.key else ptr.leaf }

/-- A local node with all new leaves. -/
def AVLLocalNode.settled (new : Int → Int) (keys : List Int) (node : AVLLocalNode) : AVLLocalNode :=
  { node with
    leaf := new node.key
    avl := { node.avl with
      lLeaf := if node.avl.lKey ∈ keys then new node.avl.lKey else node.avl.lLeaf
      rLeaf := if node.avl.rKey ∈ keys then new node.avl.rKey else node.avl.rLeaf } }

/-- The block of a local node. -/
def AVLLocalNode.toBlock (node : AVLLocalNode) : Block := ⟨node.key, node.leaf, node.avl.encode⟩

theorem child_settled (node : AVLLocalNode) (side : Bool) :
    (node.settled new keys).avl.child side = (node.avl.child side).settled new keys := by
  cases side <;> rfl

/-- Every parent finds its local children among the drawn nodes. -/
theorem AvlPart.pointAll_settled {part : AvlPart} {nodes : List AVLLocalNode}
    (linked : part.Linked label) (nodup : part.tree.keys.Nodup) (perm : nodes.Perm part.nodes)
    (noInvalid : invalidKey ∉ nodes.map AVLLocalNode.key) (new : Int → Int) {node : AVLLocalNode}
    (mem : node ∈ nodes) :
    pointAll (nodes.map (fun node => ({ node with leaf := new node.key } : AVLLocalNode))).reverse
        { node with leaf := new node.key } =
      node.settled new (nodes.map AVLLocalNode.key) := by
  have nodeMem := perm.mem_iff.mp mem
  have known : ∀ side, hasChild
      (nodes.map (fun node => ({ node with leaf := new node.key } : AVLLocalNode))).reverse
      node.key (node.avl.child side).key =
        decide ((node.avl.child side).key ∈ nodes.map AVLLocalNode.key) := by
    intro side
    rw [hasChild, List.any_reverse, List.any_map]
    refine Bool.eq_iff_iff.mpr ?_
    simp only [List.any_eq_true, Function.comp_apply, Bool.and_eq_true, beq_iff_eq,
      decide_eq_true_eq, List.mem_map]
    constructor
    · rintro ⟨child, childMem, _, keyEq⟩
      exact ⟨child, childMem, keyEq⟩
    · rintro ⟨child, childMem, keyEq⟩
      have valid : child.key ≠ invalidKey :=
        fun isInvalid => noInvalid (isInvalid ▸ List.mem_map_of_mem childMem)
      exact ⟨child, childMem, parentKey_of_child linked nodup nodeMem (perm.mem_iff.mp childMem)
        valid side keyEq.symm, keyEq⟩
  have leafEq : ∀ child ∈
      (nodes.map (fun node => ({ node with leaf := new node.key } : AVLLocalNode))).reverse,
      child.leaf = new child.key := by
    intro child childMem
    rcases List.mem_map.mp (List.mem_reverse.mp childMem) with ⟨drawn, _, rfl⟩
    rfl
  have distinct : node.avl.lKey = node.avl.rKey → ∀ child ∈
      (nodes.map (fun node => ({ node with leaf := new node.key } : AVLLocalNode))).reverse,
      child.key ≠ node.avl.lKey := by
    intro same child childMem keyEq
    have isInvalid := children_differ linked nodup nodeMem same
    rcases List.mem_map.mp (List.mem_reverse.mp childMem) with ⟨drawn, drawnMem, rfl⟩
    refine noInvalid ?_
    rw [← isInvalid]
    exact List.mem_map.mpr ⟨drawn, drawnMem, keyEq⟩
  have pointed := @pointAll_eq _ { node with leaf := new node.key } new leafEq distinct
  have learnt : ∀ side key leaf, (node.avl.child side).key = key → newLeaf new
      (nodes.map (fun node => ({ node with leaf := new node.key } : AVLLocalNode))).reverse
      node.key key leaf = if key ∈ nodes.map AVLLocalNode.key then new key else leaf := by
    rintro side key leaf rfl
    simp only [newLeaf, known, decide_eq_true_eq]
  rw [pointed, AVLLocalNode.settled]
  dsimp only
  rw [learnt true node.avl.lKey node.avl.lLeaf rfl, learnt false node.avl.rKey node.avl.rLeaf rfl]

/-- What a parent knows about a child once both have been written back. -/
theorem AvlPart.PtrOk.settled_eq {part : AvlPart} {ptr : ChildPtr} (ok : part.PtrOk label ptr)
    (height : ptr.height = part.tree.height)
    (localKeys : ∀ key ∈ part.nodes.map AVLLocalNode.key, key ∈ keys)
    (storedKeys : ∀ key ∈ part.storedKeys, key ∉ keys) (noInvalid : invalidKey ∉ keys) :
    ptr.settled new keys = part.tree.ptr (relabel label new keys) := by
  cases part with
  | stored tree =>
      rw [show ptr = tree.ptr label from ok]
      cases tree with
      | nil => simp [ChildPtr.settled, AvlTree.ptr, AvlPart.tree, noInvalid]
      | node entry left right =>
          have notMem : entry.1 ∉ keys := storedKeys _ (by simp [AvlPart.storedKeys])
          simp [ChildPtr.settled, AvlTree.ptr, AvlPart.tree, relabel, notMem]
  | fetched node left right =>
      have keyEq : ptr.key = node.key := ok
      have mem : node.key ∈ keys := localKeys _ List.mem_cons_self
      rcases ptr with ⟨key, leaf, ptrHeight⟩
      dsimp only at keyEq height
      subst keyEq height
      simp [ChildPtr.settled, AvlTree.ptr, AvlPart.tree, relabel, mem]

/-- The settled nodes complete the stored blocks to those of the tree. -/
theorem AvlPart.settled_blocks {part : AvlPart} (linked : part.Linked label)
    (exact : part.HeightsExact)
    (localKeys : ∀ key ∈ part.nodes.map AVLLocalNode.key, key ∈ keys)
    (storedKeys : ∀ key ∈ part.storedKeys, key ∉ keys) (noInvalid : invalidKey ∉ keys) :
    part.inOram label + ↑(part.nodes.map (fun node => (node.settled new keys).toBlock)) =
      part.tree.blocks (relabel label new keys) (fun _ => .lower) .lower := by
  induction part with
  | stored tree =>
      simp only [AvlPart.nodes, List.map_nil, Multiset.coe_nil, add_zero]
      refine AvlTree.blocks_congr (fun key mem => ?_) (fun _ _ => rfl)
      exact (if_neg (storedKeys key mem)).symm
  | fetched node left right ihLeft ihRight =>
      rcases linked with ⟨leftPtr, rightPtr, _, _, leftLinked, rightLinked⟩
      rcases exact with ⟨leftHeight, rightHeight, leftExact, rightExact⟩
      simp only [AvlPart.nodes, List.map_cons, List.map_append, List.mem_cons,
        List.mem_append] at localKeys
      simp only [AvlPart.storedKeys, List.mem_append] at storedKeys
      have leftLocal : ∀ key ∈ left.nodes.map AVLLocalNode.key, key ∈ keys :=
        fun key mem => localKeys key (Or.inr (Or.inl mem))
      have rightLocal : ∀ key ∈ right.nodes.map AVLLocalNode.key, key ∈ keys :=
        fun key mem => localKeys key (Or.inr (Or.inr mem))
      have leftStored : ∀ key ∈ left.storedKeys, key ∉ keys :=
        fun key mem => storedKeys key (Or.inl mem)
      have rightStored : ∀ key ∈ right.storedKeys, key ∉ keys :=
        fun key mem => storedKeys key (Or.inr mem)
      have nodeEq : (node.settled new keys).avl =
          AvlTree.nodeData (relabel label new keys) node.avl.data left.tree right.tree := by
        refine AVLNodeData.ext_child rfl true ?_ ?_
        · rw [child_settled, leftPtr.settled_eq leftHeight leftLocal leftStored noInvalid]
          rfl
        · rw [child_settled, Bool.not_true,
            rightPtr.settled_eq rightHeight rightLocal rightStored noInvalid]
          rfl
      have leafEq : new node.key = relabel label new keys node.key :=
        (if_pos (localKeys node.key (Or.inl rfl))).symm
      have blockEq : (node.settled new keys).toBlock = ⟨node.key, relabel label new keys node.key,
          (AvlTree.nodeData (relabel label new keys) node.avl.data left.tree right.tree).encode⟩ := by
        rw [AVLLocalNode.toBlock, nodeEq, ← leafEq]
        rfl
      simp only [AvlPart.tree, AvlTree.blocks, if_true, ← ihLeft leftLinked leftExact leftLocal
        leftStored, ← ihRight rightLinked rightExact rightLocal rightStored, ← blockEq]
      simp only [AvlPart.nodes, List.map_cons, List.map_append, ← Multiset.cons_coe,
        ← Multiset.coe_add]
      simp only [inOram, AvlPart.blocks, ← Multiset.singleton_add]
      abel

end Blocks

/-! ## The new leaves -/

section Settle

variable [Cipher] {label : Int → Int} {level : Nat} {omap : AVLOmap} {part : AvlPart}
  {blocks : Multiset Block}

/-- Only the position map of the ORAM changes. -/
def Relabelled (orams orams' : SplitOram) : Prop :=
  ∃ posMap, orams' = { orams with oram := { orams.oram with posMap } }

/-- Every local node gets a leaf. -/
theorem ends_drawLocalLeaves {nodes : List AVLLocalNode} {orams : SplitOram}
    (whole : orams.splitDepth ≤ 0) (holds : orams.oram.Holds level ∅ blocks)
    (nodup : (nodes.map AVLLocalNode.key).Nodup) :
    Ends (AVLOmap.drawLocalLeaves nodes orams) (fun outcome =>
      Relabelled orams outcome.2 ∧ ∃ new : Int → Int,
        outcome.1 = nodes.map (fun node => { node with leaf := new node.key }) ∧
        ∀ node ∈ nodes, IsLeaf level (new node.key)) := by
  induction nodes with
  | nil =>
      refine Prog.ends_pure ⟨⟨orams.oram.posMap, rfl⟩, fun _ => invalidLeaf, rfl, ?_⟩
      intro node mem
      cases mem
  | cons node rest ih =>
      rcases List.nodup_cons.mp nodup with ⟨notMem, restNodup⟩
      refine Prog.ends_bind (ih restNodup) ?_
      rintro ⟨_, _⟩ ⟨⟨posMap, rfl⟩, new, rfl, areLeaves⟩
      have half : SplitOram.halfForDepth { orams with oram := { orams.oram with posMap } } node.depth =
          .lower := by
        rw [SplitOram.halfForDepth, if_neg (by change ¬ (0 < orams.splitDepth ∧ _); omega)]
      have drawn : Ends (SplitOram.assignLeaf { orams with oram := { orams.oram with posMap } } .lower
          node.key) (fun outcome => IsLeaf level outcome.1 ∧ Relabelled orams outcome.2) := by
        refine Prog.ends_bind (PathORAM.ends_randomLeaf (holds.withPosMap posMap)) ?_
        intro leaf isLeaf
        exact Prog.ends_pure ⟨isLeaf, posMap.set node.key leaf, rfl⟩
      dsimp only
      rw [half]
      refine Prog.ends_bind drawn ?_
      rintro ⟨leaf, drawnOrams⟩ ⟨isLeaf, relabelled⟩
      have elsewhere : ∀ other ∈ rest, Function.update new node.key leaf other.key = new other.key := by
        intro other mem
        refine Function.update_of_ne (fun same => notMem ?_) _ _
        rw [← same]
        exact List.mem_map_of_mem mem
      refine Prog.ends_pure ⟨relabelled, Function.update new node.key leaf, ?_, ?_⟩
      · rw [List.map_cons, Function.update_self]
        refine congrArg _ (List.map_congr_left (fun other mem => ?_))
        rw [elsewhere other mem]
      · intro other mem
        rcases List.mem_cons.mp mem with rfl | isRest
        · rw [Function.update_self]
          exact isLeaf
        · rw [elsewhere other isRest]
          exact areLeaves other isRest

/-- The nodes go to the stash one by one. -/
theorem holds_addAll {nodes : List AVLLocalNode} {orams : SplitOram} (whole : orams.splitDepth ≤ 0)
    (holds : orams.oram.Holds level ∅ blocks) (real : invalidKey ∉ nodes.map AVLLocalNode.key) :
    ∃ oram, nodes.foldl (fun orams node => orams.addToStash (orams.halfForDepth node.depth)
      { key := node.key, leaf := node.leaf, value := node.avl.encode }) orams =
        { orams with oram } ∧
      oram.Holds level ∅ (blocks + ↑(nodes.map AVLLocalNode.toBlock)) := by
  induction nodes generalizing orams blocks with
  | nil => exact ⟨orams.oram, rfl, by simpa using holds⟩
  | cons node rest ih =>
      simp only [List.map_cons, List.mem_cons, not_or] at real
      have half : orams.halfForDepth node.depth = .lower := by
        rw [SplitOram.halfForDepth, if_neg (by omega)]
      have isReal : node.toBlock.isDummy = false := by
        rw [Block.isDummy]
        exact beq_eq_false_iff_ne.mpr (Ne.symm real.1)
      rcases @ih _ { orams with oram := orams.oram.addToStash node.toBlock } whole
        (holds.addToStash isReal) real.2 with ⟨oram, sameRest, restHolds⟩
      refine ⟨oram, ?_, ?_⟩
      · rw [List.foldl_cons, half]
        exact sameRest
      · rw [List.map_cons, ← Multiset.cons_coe, Multiset.add_cons, ← Multiset.cons_add]
        exact restHolds

omit [Cipher] in
/-- The leaf of the root after the draw. -/
theorem rootLeaf_drawn {nodes : List AVLLocalNode} {rootKey : Int} (new : Int → Int) (leaf : Int)
    (mem : rootKey ∈ nodes.map AVLLocalNode.key) :
    (match (nodes.map (fun node => ({ node with leaf := new node.key } : AVLLocalNode))).find?
        (fun node => node.key == rootKey) with
      | some node => node.leaf
      | none => leaf) = new rootKey := by
  rcases List.mem_map.mp mem with ⟨root, rootMem, rfl⟩
  cases found : (nodes.map (fun node => ({ node with leaf := new node.key } : AVLLocalNode))).find?
      (fun node => node.key == root.key) with
  | none =>
      have absent := List.find?_eq_none.mp found _ (List.mem_map_of_mem rootMem)
      exact (absent (beq_self_eq_true root.key)).elim
  | some node =>
      have isRoot : node.key = root.key := by simpa using List.find?_some found
      rcases List.mem_map.mp (List.mem_of_find?_eq_some found) with ⟨drawn, _, rfl⟩
      exact congrArg new isRoot

omit [Cipher] in
/-- A tree that is stored as a whole, with nothing local. -/
theorem AvlLocal.atRest {part : AvlPart} {nodes : List AVLLocalNode}
    (local_ : AvlLocal label nodes [] part) (label' : Int → Int) :
    AvlLocal label' [] [] (stored part.tree) where
  order := ⟨[], rfl, List.Perm.nil⟩
  spine := trivial
  linked := trivial
  nodup := local_.nodup
  valid := local_.valid

/--
`reassign_leaves` and `flush_local_to_stash`: the whole tree is stored again,
with new leaves for what was local.
-/
theorem AvlOp.ends_settle (op : AvlOp label level omap [] part) (exact : part.HeightsExact) :
    Ends omap.reassignLeaves (fun omap' =>
      omap'.flushLocalToStash.maxHeight = omap.maxHeight ∧
      ∃ label', AvlOp label' level omap'.flushLocalToStash [] (stored part.tree)) := by
  have local_ := op.focus.local_
  have perm : omap.local_.Perm part.nodes := local_.perm_plug
  have nodup := local_.nodup_keys
  have noInvalid := local_.key_ne_invalid
  refine Prog.ends_bind (ends_drawLocalLeaves op.whole op.holds nodup) ?_
  rintro ⟨_, _⟩ ⟨⟨posMap, rfl⟩, new, rfl, areLeaves⟩
  set keys := omap.local_.map AVLLocalNode.key with keysDef
  refine Prog.ends_pure ⟨rfl, relabel label new keys, ?_⟩
  have pointed : (omap.local_.map (fun node =>
      ({ node with leaf := new node.key } : AVLLocalNode))).reverse.foldl AVLOmap.pointParent
        (omap.local_.map (fun node => ({ node with leaf := new node.key } : AVLLocalNode))) =
      omap.local_.map (AVLLocalNode.settled new keys) := by
    have drawnKeys : (omap.local_.map (fun node =>
        ({ node with leaf := new node.key } : AVLLocalNode))).map AVLLocalNode.key = keys := by
      rw [List.map_map]
      rfl
    rw [foldl_pointParent _ (drawnKeys ▸ nodup) (drawnKeys ▸ noInvalid), List.map_map]
    exact List.map_congr_left (fun node mem =>
      pointAll_settled local_.linked local_.nodup perm noInvalid new mem)
  have settledKeys : (omap.local_.map (AVLLocalNode.settled new keys)).map AVLLocalNode.key =
      keys := by
    rw [List.map_map]
    rfl
  rcases @holds_addAll _ _ _ (omap.local_.map (AVLLocalNode.settled new keys))
    { omap.orams with oram := { omap.orams.oram with posMap } } op.whole
    (op.holds.withPosMap posMap) (by rw [settledKeys]; exact noInvalid) with ⟨oram, added, holds⟩
  have storedKeys : ∀ key ∈ part.storedKeys, key ∉ keys :=
    fun key mem => local_.notMem_of_stored mem
  have localKeys : ∀ key ∈ part.nodes.map AVLLocalNode.key, key ∈ keys :=
    fun key mem => ((perm.map AVLLocalNode.key).mem_iff).mpr mem
  have allBlocks : part.inOram label +
      ↑((omap.local_.map (AVLLocalNode.settled new keys)).map AVLLocalNode.toBlock) =
        (stored part.tree).inOram (relabel label new keys) := by
    rw [List.map_map, Multiset.coe_eq_coe.mpr (perm.map _)]
    exact settled_blocks local_.linked exact localKeys storedKeys noInvalid
  have rootLabel : ∀ key leaf, key ∈ keys →
      (match (omap.local_.map (fun node => ({ node with leaf := new node.key } : AVLLocalNode))).find?
          (fun node => node.key == key) with
        | some node => node.leaf
        | none => leaf) = relabel label new keys key := by
    intro key leaf mem
    rw [rootLeaf_drawn new leaf mem, relabel, if_pos mem]
  refine ⟨⟨local_.atRest _, op.focus.rootKey⟩, ?_, ?_, ⟨?_, op.fits.ints, op.fits.level_le,
    op.fits.height_lt⟩, ?_⟩
  · dsimp only [AVLOmap.flushLocalToStash]
    rw [pointed, added]
    exact allBlocks ▸ holds
  · dsimp only [AVLOmap.flushLocalToStash]
    rw [pointed, added]
    exact op.whole
  · intro key mem
    rw [relabel]
    split
    · rename_i isLocal
      rcases List.mem_map.mp isLocal with ⟨node, nodeMem, rfl⟩
      exact areLeaves node nodeMem
    · exact op.fits.leaves key mem
  · rintro tree wholeEq
    obtain rfl : part.tree = tree := by
      injection wholeEq
    dsimp only [AVLOmap.flushLocalToStash]
    cases part with
    | stored tree =>
        have nothing : omap.local_ = [] := List.perm_nil.mp perm
        have noKeys : keys = [] := by rw [keysDef, nothing, List.map_nil]
        have sameLabel : relabel label new keys = label :=
          funext (fun key => if_neg (by rw [noKeys]; exact List.not_mem_nil))
        rw [nothing, sameLabel]
        exact op.rootPtr tree rfl
    | fetched root left right =>
        have rootKey : omap.rootKey = root.key := op.focus.rootKey
        have rootMem : root.key ∈ keys := localKeys _ List.mem_cons_self
        exact rootKey ▸ rootLabel omap.rootKey omap.rootLeaf (rootKey ▸ rootMem)

end Settle

end TieredOmap
