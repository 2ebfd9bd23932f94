import TieredOMap.Omap.AvlInit
import TieredOMap.Tee.ColdMap
import TieredOMap.Tee.TeeAvlRemove

/-!
# Filling the enclave's tree

`init` builds the balanced tree of the sorted data, draws a leaf for every node, tells the
parents, and loads the nodes into the ORAM under these leaves.
-/

namespace TieredOmap

open BinaryTree Links EnclaveOram

namespace TeeAvlOmap

-- What a step ends with is known from its lemma, never from running it.
attribute [local irreducible] Prog.Ends

variable {omap : TeeAvlOmap} {tree : AvlTree} {size : Nat} {data : List (Int × Bytes)}
  {leaves : KeyMap Int Int}

/-! ## Building -/

/-- `build` builds the balanced tree of a range of the sorted data. -/
theorem build_eq (sorted : List (Int × Bytes)) (count start fuel : Nat)
    (nodes : KeyMap Int AVLNodeData) (le : count ≤ fuel)
    (nodup : (nodes.keys ++ AvlTree.keys (ofRange
      (fun i => sorted.getD i (invalidKey, [])) count start)).Nodup) :
    (build sorted fuel start (start + count - 1) nodes).1 =
        AvlTree.rootKey (ofRange (fun i => sorted.getD i (invalidKey, [])) count start) ∧
      (build sorted fuel start (start + count - 1) nodes).2.entries =
        nodes.entries ++ AvlTree.listNodes AvlTree.bareNode
          (ofRange (fun i => sorted.getD i (invalidKey, [])) count start) := by
  induction count, start using ofRange.induct generalizing fuel nodes with
  | case1 start =>
      have stops : build sorted fuel start (start + (0 : Nat) - 1) nodes = (invalidKey, nodes) := by
        cases fuel with
        | zero => rfl
        | succ fuel => exact if_pos (by omega)
      rw [stops, ofRange]
      exact ⟨rfl, (List.append_nil _).symm⟩
  | case2 rest start ihLeft ihRight =>
      rcases fuel with _ | fuel
      · omega
      rw [ofRange] at nodup ⊢
      generalize leftIs : (ofRange (fun i => sorted.getD i (invalidKey, [])) (rest / 2) start :
        AvlTree) = left at ihLeft nodup ⊢
      generalize rightIs : (ofRange (fun i => sorted.getD i (invalidKey, [])) (rest - rest / 2)
        (start + rest / 2 + 1) : AvlTree) = right at ihRight nodup ⊢
      have midIs : (start : Int) + (start + (rest + 1 : Nat) - 1 - start) / 2 =
          (start + rest / 2 : Nat) := by
        push_cast
        omega
      have lowEnd : ((start + rest / 2 : Nat) : Int) - 1 = start + (rest / 2 : Nat) - 1 := by
        push_cast
        rfl
      have highStart : ((start + rest / 2 : Nat) : Int) + 1 = (start + rest / 2 + 1 : Nat) := by
        push_cast
        rfl
      have highEnd : (start : Int) + (rest + 1 : Nat) - 1 =
          (start + rest / 2 + 1 : Nat) + (rest - rest / 2 : Nat) - 1 := by
        omega
      rw [AvlTree.keys_node] at nodup
      have perm : (nodes.keys ++ (AvlTree.keys left ++
          (sorted.getD (start + rest / 2) (invalidKey, [])).1 :: AvlTree.keys right)).Perm
            ((sorted.getD (start + rest / 2) (invalidKey, [])).1 ::
              (nodes.keys ++ AvlTree.keys left ++ AvlTree.keys right)) := by
        rw [← List.append_assoc]
        exact List.perm_middle
      rcases List.nodup_cons.mp (perm.nodup_iff.mp nodup) with ⟨absent, nodup'⟩
      rcases ihLeft fuel nodes (by omega) (List.nodup_append.mp nodup').1 with
        ⟨leftRoot, leftEntries⟩
      rw [build, if_neg (by omega)]
      simp only [midIs, Int.toNat_natCast]
      rw [lowEnd, highStart, highEnd]
      generalize build sorted fuel start (start + (rest / 2 : Nat) - 1) nodes = built
        at leftRoot leftEntries ⊢
      have builtKeys : built.2.keys.Perm (nodes.keys ++ AvlTree.keys left) := by
        rw [KeyMap.keys, leftEntries, List.map_append]
        exact List.Perm.append_left _ (AvlTree.keys_listNodes _ _)
      rcases ihRight fuel built.2 (by omega)
        ((builtKeys.append_right (AvlTree.keys right)).nodup_iff.mpr nodup') with
            ⟨rightRoot, rightEntries⟩
      generalize build sorted fuel (start + rest / 2 + 1 : Nat)
        ((start + rest / 2 + 1 : Nat) + (rest - rest / 2 : Nat) - 1) built.2 = built'
        at rightRoot rightEntries ⊢
      refine ⟨rfl, (KeyMap.setEntry_of_notMem ?_).trans ?_⟩
      · rw [rightEntries, List.map_append]
        intro mem
        refine absent ?_
        rcases List.mem_append.mp mem with inBuilt | inRight
        · exact List.mem_append_left _ (builtKeys.mem_iff.mp inBuilt)
        · exact List.mem_append_right _ ((AvlTree.keys_listNodes _ _).mem_iff.mp inRight)
      · rw [rightEntries, leftEntries, leftRoot, rightRoot, AvlTree.listNodes]
        simp only [List.append_assoc]
        rfl

/-! ## Leaves -/

/-- The node of every subtree is listed. -/
theorem mem_listNodes {β : Type} (make : Bytes → AvlTree → AvlTree → β) {entry : Int × Bytes}
    {left right : AvlTree} (mem : BinaryTree.node entry left right ∈ tree.subtrees) :
    (entry.1, make entry.2 left right) ∈ AvlTree.listNodes make tree := by
  induction tree with
  | nil => cases mem
  | node root left' right' ihLeft ihRight =>
      rw [AvlTree.listNodes, List.mem_append, List.mem_append, List.mem_singleton]
      rcases List.mem_cons.mp mem with same | inChild
      · cases same
        exact Or.inr rfl
      · rcases List.mem_append.mp inChild with inLeft | inRight
        · exact Or.inl (Or.inl (ihLeft inLeft))
        · exact Or.inl (Or.inr (ihRight inRight))

theorem nodeAt_of_mem {nodes : List (Int × AVLNodeData)} (nodup : (nodes.map Prod.fst).Nodup)
    {key : Int} {avl : AVLNodeData} (mem : (key, avl) ∈ nodes) :
    AVLOmap.nodeAt nodes key = pure avl := by
  rw [AVLOmap.nodeAt, (KeyMap.lookupEntry_eq_some_iff nodup).mpr mem]

/-- Every node of a subtree gets a leaf. -/
theorem settles_assignLeaves (noSplit : omap.splitDepth ≤ 0)
    {nodes : List (Int × AVLNodeData)} (nodup : (nodes.map Prod.fst).Nodup) (tree : AvlTree)
    (fuel : Nat) (le : tree.height ≤ fuel) (depth : Int)
    (valid : ∀ key ∈ AvlTree.keys tree, key ≠ invalidKey)
    (listed : ∀ entry ∈ AvlTree.listNodes AvlTree.highNode tree, entry ∈ nodes)
    (areLeaves : ∀ key leaf, leaves.get? key = some leaf → IsLeaf omap.lowerOram.level leaf) :
    Settles (omap.assignLeaves nodes fuel (AvlTree.rootKey tree) depth leaves) (fun leaves' =>
      (∀ key leaf, leaves'.get? key = some leaf → IsLeaf omap.lowerOram.level leaf) ∧
        ∀ key, (leaves.get? key).isSome ∨ key ∈ AvlTree.keys tree → (leaves'.get? key).isSome) := by
  induction tree generalizing fuel depth leaves with
  | nil =>
      have nothing : omap.assignLeaves nodes fuel (AvlTree.rootKey .nil) depth leaves =
          pure leaves := by
        cases fuel with
        | zero => rfl
        | succ fuel => exact if_pos rfl
      rw [nothing]
      refine Prog.ends_pure ⟨areLeaves, ?_⟩
      rintro key (present | mem)
      · exact present
      · cases mem
  | node entry left right ihLeft ihRight =>
      rcases fuel with _ | fuel
      · exact absurd le (by simp [BinaryTree.height])
      simp only [BinaryTree.height, Nat.succ_le_succ_iff, max_le_iff] at le
      simp only [AvlTree.keys_node, List.mem_append, List.mem_cons] at valid
      simp only [AvlTree.listNodes, List.mem_append, List.mem_singleton] at listed
      unfold assignLeaves
      rw [show AvlTree.rootKey (.node entry left right) = entry.1 from rfl,
        if_neg (valid entry.1 (Or.inr (Or.inl rfl))), (oram_of_noSplit noSplit depth).1]
      refine Prog.ends_bind (EnclaveOram.ends_randomLeaf _) (fun leaf isLeaf => ?_)
      have atRoot := nodeAt_of_mem nodup (listed (entry.1, AvlTree.highNode entry.2 left right)
        (Or.inr rfl))
      refine Prog.ends_bind (ends_inTee (atRoot ▸ Prog.ends_pure rfl)) ?_
      rintro avl rfl
      have setLeaves : ∀ key leaf', (leaves.set entry.1 leaf).get? key = some leaf' →
          IsLeaf omap.lowerOram.level leaf' := by
        intro key leaf' found
        rw [KeyMap.get?_set] at found
        split at found
        · exact Option.some.inj found ▸ isLeaf
        · exact areLeaves key leaf' found
      refine Prog.ends_bind (ihLeft fuel le.1 (depth + 1) (fun key mem => valid key (Or.inl mem))
        (fun entry mem => listed entry (Or.inl (Or.inl mem))) setLeaves) ?_
      rintro leaves' ⟨areLeaves', present⟩
      refine (ihRight fuel le.2 (depth + 1) (fun key mem => valid key (Or.inr (Or.inr mem)))
        (fun entry mem => listed entry (Or.inl (Or.inr mem))) areLeaves').mono ?_
      rintro leaves'' ⟨areLeaves'', present'⟩
      refine ⟨areLeaves'', fun key known => present' key ?_⟩
      rw [AvlTree.keys_node, List.mem_append, List.mem_cons] at known
      rcases known with wasThere | inLeft | rfl | inRight
      · refine Or.inl (present key (Or.inl ?_))
        rw [KeyMap.get?_set]
        split
        · rfl
        · exact wasThere
      · exact Or.inl (present key (Or.inr inLeft))
      · exact Or.inl (present _ (Or.inl (by rw [KeyMap.get?_set_self]; rfl)))
      · exact Or.inr inRight

/-- The nodes with the leaves of their children. -/
theorem withLeaves_highNode (leaves : KeyMap Int Int) (data : Bytes) {left right : AvlTree}
    (leftValid : ∀ key ∈ AvlTree.keys left, key ≠ invalidKey)
    (rightValid : ∀ key ∈ AvlTree.keys right, key ≠ invalidKey) :
    withLeaves leaves (AvlTree.highNode data left right) =
      AvlTree.nodeData (fun key => leaves.getD key 0) data left right := by
  have side : ∀ {tree : AvlTree}, (∀ key ∈ AvlTree.keys tree, key ≠ invalidKey) →
      ChildPtr.mk (AvlTree.rootKey tree) (if AvlTree.rootKey tree ≠ invalidKey
        then leaves.getD (AvlTree.rootKey tree) 0 else invalidLeaf) tree.height =
        AvlTree.ptr (fun key => leaves.getD key 0) tree := by
    intro tree valid
    cases tree with
    | nil => rfl
    | node entry left right =>
        exact congrArg (ChildPtr.mk _ · _) (if_pos (valid entry.1 (by simp)))
  exact AVLNodeData.ext_child rfl true (side leftValid) (side rightValid)

theorem map_withLeaves (leaves : KeyMap Int Int) {tree : AvlTree}
    (valid : ∀ key ∈ AvlTree.keys tree, key ≠ invalidKey) :
    (AvlTree.listNodes AvlTree.highNode tree).map
        (fun entry => (entry.1, withLeaves leaves entry.2)) =
      AvlTree.listNodes (AvlTree.nodeData (fun key => leaves.getD key 0)) tree := by
  induction tree with
  | nil => rfl
  | node entry left right ihLeft ihRight =>
      simp only [AvlTree.keys_node, List.mem_append, List.mem_cons] at valid
      have leftValid : ∀ key ∈ AvlTree.keys left, key ≠ invalidKey :=
        fun key mem => valid key (Or.inl mem)
      have rightValid : ∀ key ∈ AvlTree.keys right, key ≠ invalidKey :=
        fun key mem => valid key (Or.inr (Or.inr mem))
      rw [AvlTree.listNodes, List.map_append, List.map_append, ihLeft leftValid,
        ihRight rightValid, List.map_singleton, withLeaves_highNode leaves _ leftValid rightValid]
      rfl

/-- Preset leaves are taken over. -/
theorem settles_chooseLeaves (oram : EnclaveOram) (data : List (Int × Bytes))
    (preset : ∀ entry ∈ data, (leaves.get? entry.1).isSome) {leafMap : KeyMap Int Int}
    (agree : ∀ key leaf, leafMap.get? key = some leaf → leaves.get? key = some leaf) :
    Settles (oram.chooseLeaves leaves data leafMap) (fun leafMap' =>
      (∀ key leaf, leafMap'.get? key = some leaf → leaves.get? key = some leaf) ∧
        ∀ key, (leafMap.get? key).isSome ∨ key ∈ data.map Prod.fst →
            (leafMap'.get? key).isSome) := by
  induction data generalizing leafMap with
  | nil =>
      refine Prog.ends_pure ⟨agree, ?_⟩
      rintro key (present | mem)
      · exact present
      · cases mem
  | cons entry rest ih =>
      have presetRest : ∀ entry ∈ rest, (leaves.get? entry.1).isSome :=
        fun entry mem => preset entry (List.mem_cons_of_mem _ mem)
      unfold chooseLeaves
      rcases listed : leafMap.get? entry.1 with _ | leaf
      · rcases found : leaves.get? entry.1 with _ | leaf
        · have some' := preset entry List.mem_cons_self
          rw [found] at some'
          cases some'
        · refine (ih presetRest ?_).mono ?_
          · intro key leaf' isSet
            rw [KeyMap.get?_set] at isSet
            split at isSet
            · rename_i same
              rw [same, found]
              exact isSet
            · exact agree key leaf' isSet
          · rintro leafMap' ⟨agree', present⟩
            refine ⟨agree', fun key known => present key ?_⟩
            rw [KeyMap.get?_set]
            split
            · exact Or.inl rfl
            · rename_i differs
              exact known.imp_right (fun mem => (List.mem_cons.mp mem).resolve_left differs)
      · refine (ih presetRest agree).mono ?_
        rintro leafMap' ⟨agree', present⟩
        refine ⟨agree', fun key known => present key ?_⟩
        rcases known with wasThere | mem
        · exact Or.inl wasThere
        · rcases List.mem_cons.mp mem with rfl | inRest
          · exact Or.inl (listed ▸ rfl)
          · exact Or.inr inRest

/-! ## The stored tree -/

/-- A value as it is stored. -/
def padded (size : Nat) (entry : Int × Bytes) : Int × Bytes := (entry.1, padBytes entry.2 size)

/-- A node of a tree as it is stored. -/
def treePiece (label : Int → Int) (size : Nat) (entry : Int × Bytes) (left right : AvlTree) :
    Piece :=
  AVLLocalNode.piece {
    key := entry.1, leaf := label entry.1
    avl := AvlTree.nodeData label (padBytes entry.2 size) left right
    parentKey := invalidKey, depth := 0 }

theorem toList_map {α β : Type} (f : α → β) (tree : BinaryTree α) :
    (tree.map f).toList = tree.toList.map f := by
  induction tree with
  | nil => rfl
  | node value left right ihLeft ihRight =>
      rw [BinaryTree.map, toList, toList, ihLeft, ihRight, List.map_append, List.map_cons]

theorem keysOf_padded (size : Nat) (tree : AvlTree) :
    keysOf (tree.map (padded size)) = AvlTree.keys tree := by
  rw [keysOf, toList_map, List.map_map]
  rfl

/-- Every key of a tree is that of a node. -/
theorem exists_subtree {key : Int} (mem : key ∈ AvlTree.keys tree) :
    ∃ value left right, BinaryTree.node (key, value) left right ∈ tree.subtrees := by
  induction tree with
  | nil => cases mem
  | node entry left right ihLeft ihRight =>
      rw [AvlTree.keys_node, List.mem_append, List.mem_cons] at mem
      rcases mem with inLeft | rfl | inRight
      · rcases ihLeft inLeft with ⟨value, left', right', isSub⟩
        exact ⟨value, left', right', List.mem_cons_of_mem _ (List.mem_append_left _ isSub)⟩
      · exact ⟨entry.2, left, right, List.mem_cons_self⟩
      · rcases ihRight inRight with ⟨value, left', right', isSub⟩
        exact ⟨value, left', right', List.mem_cons_of_mem _ (List.mem_append_right _ isSub)⟩

/-- Every listed node is that of a subtree. -/
theorem exists_of_listNodes {β : Type} (make : Bytes → AvlTree → AvlTree → β) {record : Int × β}
    (mem : record ∈ AvlTree.listNodes make tree) :
    ∃ entry left right, BinaryTree.node entry left right ∈ tree.subtrees ∧
      record = (entry.1, make entry.2 left right) := by
  induction tree with
  | nil => cases mem
  | node root left right ihLeft ihRight =>
      rw [AvlTree.listNodes, List.mem_append, List.mem_append, List.mem_singleton] at mem
      rcases mem with (inLeft | inRight) | isRoot
      · rcases ihLeft inLeft with ⟨entry, left', right', isSub, same⟩
        exact ⟨entry, left', right', List.mem_cons_of_mem _ (List.mem_append_left _ isSub), same⟩
      · rcases ihRight inRight with ⟨entry, left', right', isSub, same⟩
        exact ⟨entry, left', right', List.mem_cons_of_mem _ (List.mem_append_right _ isSub), same⟩
      · exact ⟨root, left, right, List.mem_cons_self, isRoot⟩

/-- The parts of a subtree are in the tree. -/
theorem keys_of_subtree {entry : Int × Bytes} {left right : AvlTree}
    (mem : BinaryTree.node entry left right ∈ tree.subtrees) : entry ∈ tree.toList ∧
      (∀ key ∈ AvlTree.keys left, key ∈ AvlTree.keys tree) ∧
      ∀ key ∈ AvlTree.keys right, key ∈ AvlTree.keys tree := by
  induction tree with
  | nil => cases mem
  | node root left' right' ihLeft ihRight =>
      rw [toList, AvlTree.keys_node]
      rcases List.mem_cons.mp mem with same | inChild
      · cases same
        exact ⟨by simp, fun key inLeft => by simp [inLeft], fun key inRight => by simp [inRight]⟩
      · rcases List.mem_append.mp inChild with inLeft | inRight
        · rcases ihLeft inLeft with ⟨isEntry, lefts, rights⟩
          exact ⟨List.mem_append_left _ isEntry,
            fun key mem => List.mem_append_left _ (lefts key mem),
            fun key mem => List.mem_append_left _ (rights key mem)⟩
        · rcases ihRight inRight with ⟨isEntry, lefts, rights⟩
          exact ⟨List.mem_append_right _ (List.mem_cons_of_mem _ isEntry),
            fun key mem => List.mem_append_right _ (List.mem_cons_of_mem _ (lefts key mem)),
            fun key mem => List.mem_append_right _ (List.mem_cons_of_mem _ (rights key mem))⟩

/-- Nodes that lead to the roots of their subtrees spell out the tree. -/
theorem spells_of_pieces {links : Links Int Bytes} {label : Int → Int}
    (valid : ∀ key ∈ AvlTree.keys tree, key ≠ invalidKey)
    (found : ∀ entry left right, BinaryTree.node entry left right ∈ tree.subtrees →
      links entry.1 = some (treePiece label size entry left right).link) :
    links.Spells invalidKey (AvlTree.rootKey tree) (tree.map (padded size)) := by
  induction tree with
  | nil => rfl
  | node entry left right ihLeft ihRight =>
      simp only [AvlTree.keys_node, List.mem_append, List.mem_cons] at valid
      have keyOf : ∀ sub : AvlTree, (AvlTree.ptr label sub).key = AvlTree.rootKey sub :=
        AvlTree.ptr_key label
      refine ⟨rfl, valid entry.1 (Or.inr (Or.inl rfl)), _,
          found entry left right List.mem_cons_self,
        rfl, ?_, ?_⟩
      · rw [show (treePiece label size entry left right).link.child true =
          AvlTree.rootKey left from keyOf left]
        exact ihLeft (fun key mem => valid key (Or.inl mem)) (fun entry' left' right' mem =>
          found entry' left' right' (List.mem_cons_of_mem _ (List.mem_append_left _ mem)))
      · rw [show (treePiece label size entry left right).link.child false =
          AvlTree.rootKey right from keyOf right]
        exact ihRight (fun key mem => valid key (Or.inr (Or.inr mem)))
            (fun entry' left' right' mem =>
          found entry' left' right' (List.mem_cons_of_mem _ (List.mem_append_right _ mem)))

/-- A store of the nodes of a tree. -/
theorem woven_of_pieces {store : Int → Option Piece} {label : Int → Int}
    (ordered : tree.Ordered) (valid : ∀ key ∈ AvlTree.keys tree, key ≠ invalidKey)
    (found : ∀ entry left right, BinaryTree.node entry left right ∈ tree.subtrees →
      store entry.1 = some (treePiece label size entry left right))
    (absent : ∀ key, key ∉ AvlTree.keys tree → store key = none) :
    Woven (AvlTree.rootKey tree) (label (AvlTree.rootKey tree)) [] store
      (tree.map (padded size)) := by
  have stored : ∀ {key : Int} {piece : Piece}, store key = some piece →
      ∃ value left right, BinaryTree.node (key, value) left right ∈ tree.subtrees ∧
        piece = treePiece label size (key, value) left right := by
    intro key piece isStored
    have mem : key ∈ AvlTree.keys tree := by
      by_contra notMem
      rw [absent key notMem] at isStored
      cases isStored
    rcases exists_subtree mem with ⟨value, left, right, isSub⟩
    exact ⟨value, left, right, isSub,
      Option.some.inj (isStored.symm.trans (found _ left right isSub))⟩
  have isNode : ∀ key, nodeOf? [] store key = store key := by
    intro key
    refine nodeOf?_stored ?_
    unfold pieceAt
    split <;> rfl
  refine ⟨List.Pairwise.nil, ?_, ?_, ?_, ?_, ?_, ?_, ?_, ?_⟩
  · intro key piece isLocal
    exact absurd (mem_of_pieceAt isLocal).1 List.not_mem_nil
  · intro key piece isStored
    rcases stored isStored with ⟨value, left, right, isSub, rfl⟩
    exact ⟨rfl, valid key (List.mem_map.mpr ⟨_, (keys_of_subtree isSub).1, rfl⟩)⟩
  · refine @spells_of_pieces _ _ _ label valid (fun entry left right isSub => ?_)
    unfold pieceLinks
    rw [isNode, found entry left right isSub]
    rfl
  · intro key piece isPiece
    rw [isNode] at isPiece
    rcases stored isPiece with ⟨value, left, right, isSub, rfl⟩
    rw [keysOf_padded]
    exact List.mem_map.mpr ⟨_, (keys_of_subtree isSub).1, rfl⟩
  · unfold Ordered
    rw [toList_map, List.map_map]
    exact ordered
  · intro key piece side child isPiece isChild
    rw [isNode] at isPiece
    rcases stored isPiece with ⟨value, left, right, isSub, rfl⟩
    have leafOf : ∀ sub : AvlTree, store (AvlTree.ptr label sub).key = some child →
        (AvlTree.ptr label sub).leaf = child.leaf := by
      intro sub isRoot
      rcases stored isRoot with ⟨value', left', right', isSub', rfl⟩
      cases sub with
      | nil => exact absurd rfl (valid _ (List.mem_map.mpr ⟨_, (keys_of_subtree isSub').1, rfl⟩))
      | node entry left'' right'' => rfl
    cases side with
    | true => exact leafOf left isChild
    | false => exact leafOf right isChild
  · intro piece isRoot
    rcases stored isRoot with ⟨value, left, right, isSub, rfl⟩
    rfl
  · intro key piece isLocal
    exact absurd (mem_of_pieceAt isLocal).1 List.not_mem_nil

/-! ## Loading -/

theorem IsKey.isInt {key : Int} (isKey : IsKey key) : IsInt key :=
  ⟨by have := isKey.1; omega, isKey.2⟩

/-- A short value is padded where it is stored. -/
theorem fitValue_encode {avl : AVLNodeData} (short : avl.data.length ≤ size) :
    fitValue (avlHeaderSize + size) avl.encode =
      { avl with data := padBytes avl.data size }.encode := by
  have length := length_encode_avl avl
  rw [fitValue_of_le (length.le.trans (Nat.add_le_add_left short _)), padBytes, length,
    Nat.add_sub_add_left]
  simp only [AVLNodeData.encode, padBytes, List.append_assoc]

/-- The node of a tree, stored and decoded again. -/
theorem storedPiece_nodeData {label : Int → Int} {entry : Int × Bytes} {left right : AvlTree}
    (short : entry.2.length ≤ size) (ints : ∀ key ∈ AvlTree.keys left ++ AvlTree.keys right,
      IsInt key ∧ IsInt (label key)) :
    storedPiece (avlHeaderSize + size) entry.1
        (label entry.1, (AvlTree.nodeData label entry.2 left right).encode) =
      treePiece label size entry left right := by
  have sized : (AvlTree.nodeData label (padBytes entry.2 size) left right).data.length = size :=
    length_padBytes short
  have isPadded :
      fitValue (avlHeaderSize + size) (AvlTree.nodeData label entry.2 left right).encode =
      fitValue (avlHeaderSize + size)
        (AvlTree.nodeData label (padBytes entry.2 size) left right).encode := by
    rw [fitValue_encode short, fitValue_encode sized.le]
    have twice : padBytes (padBytes entry.2 size) size = padBytes entry.2 size := by
      rw [padBytes, length_padBytes short, Nat.sub_self, List.replicate_zero, List.append_nil]
    exact congrArg (fun data => (AvlTree.nodeData label data left right).encode) twice.symm
  have coded := @storedPiece_encode {
    key := entry.1, leaf := label entry.1
    avl := AvlTree.nodeData label (padBytes entry.2 size) left right
    parentKey := invalidKey, depth := 0 } _ sized
  unfold storedPiece at coded ⊢
  rw [isPadded]
  refine coded.trans ?_
  have ptrInts : ∀ sub : AvlTree, (∀ key ∈ AvlTree.keys sub, IsInt key ∧ IsInt (label key)) →
      IsInt (AvlTree.ptr label sub).key ∧ IsInt (AvlTree.ptr label sub).leaf := by
    intro sub keys
    cases sub with
    | nil =>
        have minusOne : IsInt (-1) := by decide
        exact ⟨minusOne, minusOne⟩
    | node root left right => exact keys root.1 (by simp)
  have leftInts := ptrInts left (fun key mem => ints key (List.mem_append_left _ mem))
  have rightInts := ptrInts right (fun key mem => ints key (List.mem_append_right _ mem))
  refine Piece.ext rfl rfl rfl rfl ?_ ?_
  · funext side
    cases side with
    | true => exact bmod_of_isInt leftInts.1
    | false => exact bmod_of_isInt rightInts.1
  · funext side
    cases side with
    | true => exact bmod_of_isInt leftInts.2
    | false => exact bmod_of_isInt rightInts.2

/-- The ledger of the nodes of a tree. -/
theorem ledger_of_listNodes {label : Int → Int} (nodup : (AvlTree.keys tree).Nodup)
    (valid : ∀ key ∈ AvlTree.keys tree, key ≠ invalidKey) {leafMap : KeyMap Int Int}
    (labels : ∀ key ∈ AvlTree.keys tree, leafMap.getD key 0 = label key) :
    (∀ entry left right, BinaryTree.node entry left right ∈ tree.subtrees →
      initialLedger (AvlTree.listNodes (fun data left right =>
        (AvlTree.nodeData label data left right).encode) tree) leafMap entry.1 =
          some (label entry.1, (AvlTree.nodeData label entry.2 left right).encode)) ∧
    ∀ key, key ∉ AvlTree.keys tree → initialLedger (AvlTree.listNodes (fun data left right =>
      (AvlTree.nodeData label data left right).encode) tree) leafMap key = none := by
  have listed := AvlTree.keys_listNodes
    (fun data left right => (AvlTree.nodeData label data left right).encode) tree
  have isNodup := listed.symm.nodup nodup
  constructor
  · intro entry left right isSub
    have mem : entry.1 ∈ AvlTree.keys tree := List.mem_map.mpr ⟨_, (keys_of_subtree isSub).1, rfl⟩
    have isListed := mem_listNodes
      (fun data left right => (AvlTree.nodeData label data left right).encode) isSub
    unfold initialLedger
    rw [if_neg (valid _ mem), labels _ mem]
    generalize AvlTree.listNodes _ tree = records at isNodup isListed
    have found : records.find? (fun record => record.1 == entry.1) =
        some (entry.1, (AvlTree.nodeData label entry.2 left right).encode) := by
      rcases isFound : records.find? (fun record => record.1 == entry.1) with _ | record
      · have none' := List.find?_eq_none.mp isFound _ isListed
        simp at none'
      · have sameKey : record.1 = entry.1 := by simpa using List.find?_some isFound
        exact isFound.trans (congrArg some (List.inj_on_of_nodup_map isNodup
          (List.mem_of_find?_eq_some isFound) isListed sameKey))
    rw [found]
    rfl
  · intro key absent
    have notListed : (AvlTree.listNodes (fun data left right =>
        (AvlTree.nodeData label data left right).encode) tree).find?
          (fun record => record.1 == key) = none := by
      refine List.find?_eq_none.mpr (fun record mem isKey => absent ?_)
      have sameKey : record.1 = key := by simpa using isKey
      rw [← sameKey]
      exact listed.mem_iff.mp (List.mem_map_of_mem mem)
    unfold initialLedger
    rw [notListed]
    split <;> rfl

/-- The new map, without its ORAM, holds nothing. -/
theorem new_shape_whole (capacity : Int) (valueSize bucketSize : Nat) {splitDepth : Int}
    (noSplit : splitDepth ≤ 0) : (new capacity valueSize bucketSize splitDepth).splitDepth ≤ 0 ∧
      (new capacity valueSize bucketSize splitDepth).lowerOram =
        EnclaveOram.new capacity (avlHeaderSize + valueSize) bucketSize :=
  ⟨(min_le_left _ _).trans noSplit, rfl⟩

/-- The tree that `init` builds has the records of the data. -/
theorem lookup_initialTree (nodup : (data.map Prod.fst).Nodup)
    (short : ∀ entry ∈ data, entry.2.length ≤ size) (key : Int) :
    ((AVLOmap.initialTree data).map (padded size)).lookup key = keptRecords size data key := by
  have ordered : ((AVLOmap.initialTree data).map (padded size)).Ordered := by
    unfold Ordered
    rw [toList_map, List.map_map]
    exact AVLOmap.ordered_initialTree nodup
  refine Option.ext (fun value => ?_)
  rw [lookup_eq_some_iff ordered, toList_map, List.mem_map, keptRecords, Option.map_eq_some_iff]
  constructor
  · rintro ⟨entry, mem, isPadded⟩
    cases isPadded
    have inData := (AVLOmap.perm_initialTree data).mem_iff.mp mem
    exact ⟨entry.2, (KeyMap.lookupEntry_eq_some_iff nodup).mpr inData,
      fitValue_of_le (short entry inData)⟩
  · rintro ⟨plain, isRecord, rfl⟩
    have inData := (KeyMap.lookupEntry_eq_some_iff nodup).mp isRecord
    refine ⟨(key, plain), (AVLOmap.perm_initialTree data).mem_iff.mpr inData, ?_⟩
    rw [padded, fitValue_of_le (short _ inData)]

/-- Few enough records have leaves that are ints. -/
theorem level_le_of_isInt {capacity : Int} (isInt : IsInt capacity)
    (valueSize bucketSize : Nat) (splitDepth : Int) :
    (new capacity valueSize bucketSize splitDepth).lowerOram.level ≤ 32 := by
  have small := AVLOmap.ceilLog2_le isInt
  exact max_le (by decide) (by omega)

/-- Loading the nodes of a tree under their leaves. -/
theorem settles_loadTree {capacity : Int} {valueSize bucketSize : Nat} {splitDepth : Int}
    (noSplit : splitDepth ≤ 0)
    (level_le : (new capacity valueSize bucketSize splitDepth).lowerOram.level ≤ 32)
    (ordered : tree.Ordered)
    (keys : ∀ key ∈ AvlTree.keys tree, IsKey key)
    (short : ∀ entry ∈ tree.toList, entry.2.length ≤ valueSize)
    (areLeaves : ∀ key leaf, leaves.get? key = some leaf →
      IsLeaf (new capacity valueSize bucketSize splitDepth).lowerOram.level leaf)
    (present : ∀ key ∈ AvlTree.keys tree, (leaves.get? key).isSome) :
    Settles ((new capacity valueSize bucketSize splitDepth).lowerOram.init
      (AvlTree.listNodes (fun data left right =>
        (AvlTree.nodeData (fun key => leaves.getD key 0) data left right).encode) tree) leaves)
      (fun loaded => Rests
        { new capacity valueSize bucketSize splitDepth with
          rootKey := AvlTree.rootKey tree, rootLeaf := leaves.getD (AvlTree.rootKey tree) 0
          lowerOram := loaded.2 } (tree.map (padded valueSize))) := by
  generalize labelIs : (fun key => leaves.getD key 0) = label
  have nodup : (AvlTree.keys tree).Nodup := nodup_keysOf ordered
  have valid : ∀ key ∈ AvlTree.keys tree, key ≠ invalidKey := fun key mem =>
      (keys key mem).ne_invalid
  have listed := AvlTree.keys_listNodes
    (fun data left right => (AvlTree.nodeData label data left right).encode) tree
  rcases new_shape_whole capacity valueSize bucketSize noSplit with ⟨noSplit', isNew⟩
  have inTree : ∀ record ∈ AvlTree.listNodes (fun data left right =>
      (AvlTree.nodeData label data left right).encode) tree, record.1 ∈ AvlTree.keys tree :=
    fun record mem => listed.mem_iff.mp (List.mem_map_of_mem mem)
  unfold EnclaveOram.init
  refine Prog.ends_bind (settles_chooseLeaves _ _ (fun record mem => present _ (inTree record mem))
    (fun key leaf found => (by cases found))) ?_
  rintro leafMap ⟨agree, hasLeaf⟩
  refine Prog.ends_pure ?_
  have labels : ∀ key ∈ AvlTree.keys tree, leafMap.getD key 0 = label key ∧
      IsLeaf (new capacity valueSize bucketSize splitDepth).lowerOram.level (label key) := by
    intro key mem
    rcases Option.isSome_iff_exists.mp (hasLeaf key (Or.inr (listed.mem_iff.mpr mem))) with
      ⟨leaf, found⟩
    have preset := agree key leaf found
    rw [KeyMap.getD_of_get? found, ← labelIs]
    dsimp only
    rw [KeyMap.getD_of_get? preset]
    exact ⟨rfl, areLeaves key leaf preset⟩
  rcases ledger_of_listNodes nodup valid (fun key mem => (labels key mem).1) with ⟨live, dead⟩
  have nodeShort : ∀ record ∈ AvlTree.listNodes (fun data left right =>
      (AvlTree.nodeData label data left right).encode) tree,
        record.2.length ≤ avlHeaderSize + valueSize := by
    intro record mem
    rcases exists_of_listNodes _ mem with ⟨entry, left, right, isSub, rfl⟩
    rw [length_encode_avl]
    exact Nat.add_le_add_left (short _ (keys_of_subtree isSub).1) _
  rcases sound_load isNew le_rfl (listed.symm.nodup nodup) nodeShort
    (fun key leaf found => areLeaves key leaf (agree key leaf found))
    (fun record mem => hasLeaf record.1 (Or.inr (List.mem_map_of_mem mem))) with ⟨sound, alike⟩
  generalize (new capacity valueSize bucketSize splitDepth).lowerOram.load _ leafMap = loaded
    at sound alike
  have inLedger : ∀ {key entry}, initialLedger (AvlTree.listNodes (fun data left right =>
      (AvlTree.nodeData label data left right).encode) tree) leafMap key = some entry →
        ∃ value left right, BinaryTree.node (key, value) left right ∈ tree.subtrees ∧
          entry = (label key, (AvlTree.nodeData label value left right).encode) := by
    intro key entry isStored
    have mem : key ∈ AvlTree.keys tree := by
      by_contra notMem
      rw [dead key notMem] at isStored
      cases isStored
    rcases exists_subtree mem with ⟨value, left, right, isSub⟩
    exact ⟨value, left, right, isSub,
      Option.some.inj (isStored.symm.trans (live _ left right isSub))⟩
  have keyOfSub : ∀ {key value} {left right : AvlTree},
      BinaryTree.node (key, value) left right ∈ tree.subtrees → key ∈ AvlTree.keys tree :=
    fun isSub => List.mem_map.mpr ⟨_, (keys_of_subtree isSub).1, rfl⟩
  refine ⟨_, ⟨noSplit', ?_, sound, ?_, ?_, ?_⟩, ?_, ?_⟩
  · exact alike.valueSize.trans (congrArg EnclaveOram.valueSize isNew)
  · intro key entry isStored
    rcases inLedger isStored with ⟨value, left, right, isSub, rfl⟩
    change IsLeaf loaded.level (label key)
    rw [alike.level]
    exact (labels key (keyOfSub isSub)).2
  · intro key entry isStored
    rcases inLedger isStored with ⟨value, left, right, isSub, -⟩
    exact keys key (keyOfSub isSub)
  · exact alike.level.le.trans level_le
  · change Woven _ (leaves.getD (AvlTree.rootKey tree) 0) []
      (storeOf (avlHeaderSize + valueSize) _) _
    rw [show leaves.getD (AvlTree.rootKey tree) 0 = label (AvlTree.rootKey tree) from
      congrFun labelIs _]
    refine woven_of_pieces ordered valid (fun entry left right isSub => ?_) (fun key absent => ?_)
    · rcases keys_of_subtree isSub with ⟨isEntry, lefts, rights⟩
      unfold storeOf
      rw [live entry left right isSub, Option.map_some]
      refine congrArg some (storedPiece_nodeData (short entry isEntry) (fun key mem => ?_))
      have inWhole : key ∈ AvlTree.keys tree :=
        (List.mem_append.mp mem).elim (lefts key) (rights key)
      exact ⟨IsKey.isInt (keys key inWhole), isInt_of_isLeaf level_le (labels key inWhole).2⟩
    · unfold storeOf
      rw [dead key absent]
      rfl
  · rw [keysOf_padded]
    exact keys

/-- The data are a nonempty list of records, each with its own key and a value that fits. -/
structure Loadable (valueSize : Nat) (data : List (Int × Bytes)) : Prop where
  nonempty : data ≠ []
  nodup : (data.map Prod.fst).Nodup
  keys : ∀ key ∈ data.map Prod.fst, IsKey key
  short : ∀ entry ∈ data, entry.2.length ≤ valueSize

/-- Filling a new map with data. -/
theorem settles_init {capacity : Int} {valueSize bucketSize : Nat} {splitDepth : Int}
    (noSplit : splitDepth ≤ 0)
    (level_le : (new capacity valueSize bucketSize splitDepth).lowerOram.level ≤ 32)
    (loadable : Loadable valueSize data) :
    Settles ((new capacity valueSize bucketSize splitDepth).init data) (fun omap =>
      SameSizes (new capacity valueSize bucketSize splitDepth) omap ∧
        omap.Rests ((AVLOmap.initialTree data).map (padded valueSize))) := by
  rcases loadable with ⟨nonempty, nodup, keys, short⟩
  have keysPerm := AVLOmap.keys_initialTree data
  have treeNodup : (AvlTree.keys (AVLOmap.initialTree data)).Nodup := keysPerm.nodup_iff.mpr nodup
  have treeKeys : ∀ key ∈ AvlTree.keys (AVLOmap.initialTree data), IsKey key :=
    fun key mem => keys key (keysPerm.mem_iff.mp mem)
  have treeValid : ∀ key ∈ AvlTree.keys (AVLOmap.initialTree data), key ≠ invalidKey :=
    fun key mem => (treeKeys key mem).ne_invalid
  have treeShort : ∀ entry ∈ (AVLOmap.initialTree data).toList, entry.2.length ≤ valueSize :=
    fun entry mem => short entry ((AVLOmap.perm_initialTree data).mem_iff.mp mem)
  have ordered := AVLOmap.ordered_initialTree nodup
  have listed := AvlTree.keys_listNodes AvlTree.highNode (AVLOmap.initialTree data)
  have built := build_eq (AVLOmap.sortedData data) (AVLOmap.sortedData data).length 0
    (AVLOmap.sortedData data).length ∅ (le_refl _) treeNodup
  rw [Nat.cast_zero, zero_add] at built
  rcases built with ⟨root, entries⟩
  have entries' : (build (AVLOmap.sortedData data) (AVLOmap.sortedData data).length 0
      ((AVLOmap.sortedData data).length - 1) ∅).2.entries =
        AvlTree.listNodes AvlTree.bareNode (AVLOmap.initialTree data) := entries
  have root' : (build (AVLOmap.sortedData data) (AVLOmap.sortedData data).length 0
      ((AVLOmap.sortedData data).length - 1) ∅).1 =
        AvlTree.rootKey (AVLOmap.initialTree data) := root
  generalize treeIs : AVLOmap.initialTree data = tree at *
  have fuel : tree.height ≤ (AvlTree.listNodes AvlTree.bareNode tree).length := by
    have length : (AvlTree.listNodes AvlTree.bareNode tree).length = tree.numNodes := by
      rw [← BinaryTree.length_toList, ← List.length_map (f := Prod.fst),
        (AvlTree.keys_listNodes AvlTree.bareNode tree).length_eq]
      exact List.length_map _
    exact length ▸ BinaryTree.height_le_numNodes tree
  unfold init
  rw [if_neg (by simpa using nonempty)]
  dsimp only
  rw [show data.insertionSort (fun entry entry' => entry.1 ≤ entry'.1) = AVLOmap.sortedData data
    from rfl]
  generalize build (AVLOmap.sortedData data) (AVLOmap.sortedData data).length 0
    ((AVLOmap.sortedData data).length - 1) ∅ = built at entries' root' ⊢
  rcases built with ⟨rootIs, nodes⟩
  dsimp only at entries' root' ⊢
  subst root'
  rw [entries', AVLOmap.fixHeights_whole treeNodup treeValid]
  refine Prog.ends_bind (ends_inTee (Prog.ends_pure rfl)) ?_
  rintro _ rfl
  dsimp only
  refine Prog.ends_bind (settles_assignLeaves (new_shape_whole capacity valueSize bucketSize
    noSplit).1 (listed.symm.nodup treeNodup) tree _ fuel 0 treeValid (fun _ mem => mem)
      (fun key leaf found => (by cases found))) ?_
  rintro leaves ⟨areLeaves, present⟩
  rw [if_neg (not_lt.mpr (new_shape_whole capacity valueSize bucketSize noSplit).1),
    map_withLeaves leaves treeValid, AvlTree.listNodes_map]
  refine Prog.ends_bind (settles_loadTree noSplit level_le ordered treeKeys treeShort areLeaves
    (fun key mem => present key (Or.inr mem))) ?_
  intro loaded rests
  exact Prog.ends_pure ⟨⟨rfl, rfl, rfl⟩, rests⟩

end TeeAvlOmap

end TieredOmap
