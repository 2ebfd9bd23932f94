import Mathlib.Data.Nat.Fib.Basic
import TieredOMap.Omap.AvlBackUp

/-!
# Initialising an AVL map

`init` sorts the data, builds a balanced tree of encoded nodes, decodes them again,
fills in the heights and the leaves and loads the ORAM. All steps keep the nodes in one
order, in which the two subtrees come before their root.
-/

namespace TieredOmap

open BinaryTree

/-! ## Nodes in the order of `build_balanced` -/

namespace AvlTree

/-- The nodes of a tree, each made of its data and its subtrees, roots last. -/
def listNodes {β : Type} (make : Bytes → AvlTree → AvlTree → β) : AvlTree → List (Int × β)
  | .nil => []
  | .node entry left right =>
      listNodes make left ++ listNodes make right ++ [(entry.1, make entry.2 left right)]

section ListNodes

variable {β γ : Type} (make : Bytes → AvlTree → AvlTree → β)

theorem keys_listNodes (tree : AvlTree) :
    ((tree.listNodes make).map Prod.fst).Perm tree.keys := by
  induction tree with
  | nil => exact List.Perm.refl _
  | node entry left right ihLeft ihRight =>
      rw [listNodes, List.map_append, List.map_append, keys_node, List.map_singleton,
        List.append_assoc]
      exact ihLeft.append ((List.perm_append_singleton _ _).trans (List.Perm.cons _ ihRight))

theorem map_fst_listNodes (make' : Bytes → AvlTree → AvlTree → γ) (tree : AvlTree) :
    (tree.listNodes make').map Prod.fst = (tree.listNodes make).map Prod.fst := by
  induction tree with
  | nil => rfl
  | node entry left right ihLeft ihRight =>
      simp only [listNodes, List.map_append, ihLeft, ihRight, List.map_singleton]

theorem listNodes_map (f : β → γ) (tree : AvlTree) :
    (tree.listNodes make).map (fun entry => (entry.1, f entry.2)) =
      tree.listNodes (fun data left right => f (make data left right)) := by
  induction tree with
  | nil => rfl
  | node entry left right ihLeft ihRight =>
      rw [listNodes, List.map_append, List.map_append, ihLeft, ihRight]
      rfl

end ListNodes

/-- A node as `build_balanced` makes it. -/
def bareNode (data : Bytes) (left right : AvlTree) : AVLNodeData :=
  { data, lKey := left.rootKey, rKey := right.rootKey }

/-- A node after `fix_heights`. -/
def highNode (data : Bytes) (left right : AvlTree) : AVLNodeData :=
  { data, lKey := left.rootKey, lHeight := left.height, rKey := right.rootKey
    rHeight := right.height }

end AvlTree

/-! ## Building -/

namespace AVLOmap

/-- `build_balanced` builds the balanced tree of a range of the sorted data. -/
theorem buildBalanced_eq (sorted : List (Int × Bytes)) (count start fuel : Nat)
    (oramData : KeyMap Int Bytes) (le : count ≤ fuel)
    (nodup : (oramData.keys ++ AvlTree.keys (ofRange
      (fun i => sorted.getD i (invalidKey, [])) count start)).Nodup) :
    (buildBalanced sorted fuel start (start + count - 1) oramData).1 =
        AvlTree.rootKey (ofRange (fun i => sorted.getD i (invalidKey, [])) count start) ∧
      (buildBalanced sorted fuel start (start + count - 1) oramData).2.entries =
        oramData.entries ++ (AvlTree.listNodes (fun data left right =>
          (AvlTree.bareNode data left right).encode) (ofRange
            (fun i => sorted.getD i (invalidKey, [])) count start)) := by
  induction count, start using ofRange.induct generalizing fuel oramData with
  | case1 start =>
      have stops : buildBalanced sorted fuel start (start + (0 : Nat) - 1) oramData =
          (invalidKey, oramData) := by
        cases fuel with
        | zero => rfl
        | succ fuel =>
            rw [buildBalanced, if_pos (by omega)]
      rw [stops, ofRange]
      exact ⟨rfl, (List.append_nil _).symm⟩
  | case2 rest start ihLeft ihRight =>
      rcases fuel with _ | fuel
      · omega
      set item := fun i => sorted.getD i (invalidKey, ([] : Bytes)) with itemDef
      set left := ofRange item (rest / 2) start with leftDef
      set right := ofRange item (rest - rest / 2) (start + rest / 2 + 1) with rightDef
      have treeEq : ofRange item (rest + 1) start =
          .node (item (start + rest / 2)) left right := by
        rw [ofRange]
      rw [treeEq] at nodup ⊢
      have midEq : (start : Int) + (start + (rest + 1 : Nat) - 1 - start) / 2 =
          (start + rest / 2 : Nat) := by
        push_cast
        omega
      have upperEq : (start : Int) + (rest + 1 : Nat) - 1 =
          (start + rest / 2 + 1 : Nat) + (rest - rest / 2 : Nat) - 1 := by
        omega
      rw [AvlTree.keys_node, ← List.append_assoc] at nodup
      have lowNodup := (List.nodup_append.mp nodup).1
      rcases ihLeft fuel oramData (by omega) lowNodup with ⟨leftRoot, leftEntries⟩
      rw [buildBalanced, if_neg (by omega)]
      simp only [midEq, Int.toNat_natCast]
      rw [show ((start + rest / 2 : Nat) : Int) - 1 = start + (rest / 2 : Nat) - 1 by push_cast; rfl,
        show ((start + rest / 2 : Nat) : Int) + 1 = (start + rest / 2 + 1 : Nat) by push_cast; rfl,
        upperEq]
      set built := buildBalanced sorted fuel start (start + (rest / 2 : Nat) - 1) oramData
        with builtDef
      have builtKeys : built.2.keys.Perm (oramData.keys ++ AvlTree.keys left) := by
        rw [KeyMap.keys, leftEntries, List.map_append]
        exact List.Perm.append_left _ (AvlTree.keys_listNodes _ _)
      have reordered : (built.2.keys ++ AvlTree.keys right ++ [(item (start + rest / 2)).1]).Nodup := by
        refine List.Perm.nodup ?_ nodup
        refine List.perm_middle.trans ((List.Perm.cons _ ?_).trans
          (List.perm_append_singleton _ _).symm)
        exact List.Perm.append_right _ builtKeys.symm
      rcases ihRight fuel built.2 (by omega) (List.nodup_append.mp reordered).1 with
        ⟨rightRoot, rightEntries⟩
      refine ⟨rfl, ?_⟩
      have absent : (item (start + rest / 2)).1 ∉ (buildBalanced sorted fuel
          (start + rest / 2 + 1 : Nat)
          ((start + rest / 2 + 1 : Nat) + (rest - rest / 2 : Nat) - 1) built.2).2.entries.map
            Prod.fst := by
        rw [rightEntries, List.map_append]
        intro mem
        have mem' : (item (start + rest / 2)).1 ∈ built.2.keys ++ AvlTree.keys right := by
          rcases List.mem_append.mp mem with inBuilt | inRight
          · exact List.mem_append_left _ inBuilt
          · exact List.mem_append_right _ ((AvlTree.keys_listNodes _ _).mem_iff.mp inRight)
        exact (List.nodup_append.mp reordered).2.2 _ mem' _ (List.mem_singleton_self _) rfl
      refine (KeyMap.setEntry_of_notMem absent).trans ?_
      rw [rightEntries, leftEntries, leftRoot, rightRoot, AvlTree.listNodes]
      simp only [List.append_assoc]
      rfl

/-- What has been encoded is decoded again. -/
theorem decodeNodes_map (nodes : List (Int × AVLNodeData))
    (ints : ∀ entry ∈ nodes, ∀ side, (entry.2.child side).Ints) :
    decodeNodes (nodes.map (fun entry => (entry.1, entry.2.encode))) = pure nodes := by
  induction nodes with
  | nil => rfl
  | cons entry rest ih =>
      have here := ints entry List.mem_cons_self
      rw [List.map_cons, decodeNodes, AVLNodeData.decode_encode (here true) (here false), pure_bind,
        ih (fun entry' mem => ints entry' (List.mem_cons_of_mem _ mem)), pure_bind]

/-! ## Heights -/

section Heights

variable {before after : List (Int × AVLNodeData)} {key : Int}

theorem absent_of_nodup {avl : AVLNodeData}
    (nodup : ((before ++ (key, avl) :: after).map Prod.fst).Nodup) :
    key ∉ before.map Prod.fst ∧ key ∉ after.map Prod.fst := by
  rw [List.map_append, List.map_cons, List.nodup_append, List.nodup_cons] at nodup
  exact ⟨fun mem => nodup.2.2 _ mem _ List.mem_cons_self rfl, nodup.2.1.1⟩

theorem nodeAt_append (absent : key ∉ before.map Prod.fst) (avl : AVLNodeData) :
    nodeAt (before ++ (key, avl) :: after) key = pure avl := by
  have found : KeyMap.lookupEntry (before ++ (key, avl) :: after) key = some avl := by
    induction before with
    | nil => exact if_pos rfl
    | cons entry rest ih =>
        rw [List.map_cons, List.mem_cons, not_or] at absent
        rw [List.cons_append, KeyMap.lookupEntry, if_neg absent.1, ih absent.2]
  rw [nodeAt, found]

theorem setNode_of_notMem (absent : key ∉ before.map Prod.fst) (f : AVLNodeData → AVLNodeData) :
    setNode before key f = before := by
  conv_rhs => rw [← List.map_id before]
  refine List.map_congr_left ?_
  intro entry mem
  exact if_neg (fun same => absent (List.mem_map.mpr ⟨entry, mem, same⟩))

theorem setNode_append (absentBefore : key ∉ before.map Prod.fst)
    (absentAfter : key ∉ after.map Prod.fst) (avl : AVLNodeData)
    (f : AVLNodeData → AVLNodeData) :
    setNode (before ++ (key, avl) :: after) key f = before ++ (key, f avl) :: after := by
  have here : setNode ((key, avl) :: after) key f = (key, f avl) :: setNode after key f := by
    simp [setNode]
  have split : setNode (before ++ (key, avl) :: after) key f =
      setNode before key f ++ setNode ((key, avl) :: after) key f :=
    List.map_append
  rw [split, here, setNode_of_notMem absentBefore, setNode_of_notMem absentAfter]

/-- `fix_heights` fills in the heights of a subtree. -/
theorem fixHeights_listNodes (tree : AvlTree) (fuel : Nat) (le : tree.height ≤ fuel)
    (nodup : ((before ++ tree.listNodes AvlTree.bareNode ++ after).map Prod.fst).Nodup)
    (valid : ∀ key ∈ tree.keys, key ≠ invalidKey) :
    fixHeights fuel tree.rootKey (before ++ tree.listNodes AvlTree.bareNode ++ after) =
      pure ((tree.height : Int), before ++ tree.listNodes AvlTree.highNode ++ after) := by
  induction tree generalizing fuel before after with
  | nil =>
      cases fuel with
      | zero => rfl
      | succ fuel => exact if_pos rfl
  | node entry left right ihLeft ihRight =>
      rcases fuel with _ | fuel
      · exact absurd le (by simp [BinaryTree.height])
      simp only [BinaryTree.height, Nat.succ_le_succ_iff, max_le_iff] at le
      simp only [AvlTree.keys_node, List.mem_append, List.mem_cons] at valid
      have rootValid : entry.1 ≠ invalidKey := valid _ (Or.inr (Or.inl rfl))
      set avl := AvlTree.bareNode entry.2 left right with avlDef
      have atRoot : before ++ AvlTree.listNodes AvlTree.bareNode (.node entry left right) ++ after =
          before ++ AvlTree.listNodes AvlTree.bareNode left ++
            AvlTree.listNodes AvlTree.bareNode right ++ (entry.1, avl) :: after := by
        simp [AvlTree.listNodes, avlDef]
      have leftKeys := AvlTree.map_fst_listNodes AvlTree.bareNode AvlTree.highNode left
      have rightKeys := AvlTree.map_fst_listNodes AvlTree.bareNode AvlTree.highNode right
      rw [atRoot] at nodup ⊢
      have highRoot : before ++ AvlTree.listNodes AvlTree.highNode (.node entry left right) ++ after =
          before ++ AvlTree.listNodes AvlTree.highNode left ++
            AvlTree.listNodes AvlTree.highNode right ++
              (entry.1, AvlTree.highNode entry.2 left right) :: after := by
        simp [AvlTree.listNodes]
      rw [highRoot]
      set bareLeft := AvlTree.listNodes AvlTree.bareNode left
      set bareRight := AvlTree.listNodes AvlTree.bareNode right
      set highLeft := AvlTree.listNodes AvlTree.highNode left
      set highRight := AvlTree.listNodes AvlTree.highNode right
      have atLeft : before ++ bareLeft ++ bareRight ++ (entry.1, avl) :: after =
          before ++ bareLeft ++ (bareRight ++ (entry.1, avl) :: after) :=
        List.append_assoc _ _ _
      have atRight : before ++ highLeft ++ (bareRight ++ (entry.1, avl) :: after) =
          (before ++ highLeft) ++ bareRight ++ (entry.1, avl) :: after :=
        (List.append_assoc _ _ _).symm
      have rightNodup :
          ((before ++ highLeft ++ bareRight ++ (entry.1, avl) :: after).map Prod.fst).Nodup := by
        simpa only [List.map_append, leftKeys] using nodup
      have doneNodup :
          ((before ++ highLeft ++ highRight ++ (entry.1, avl) :: after).map Prod.fst).Nodup := by
        simpa only [List.map_append, leftKeys, rightKeys] using nodup
      have toLeft : avl.lKey = AvlTree.rootKey left := rfl
      have toRight : avl.rKey = AvlTree.rootKey right := rfl
      rw [AvlTree.rootKey, fixHeights, if_neg rootValid, nodeAt_append (absent_of_nodup nodup).1,
        pure_bind, atLeft, toLeft, toRight,
        ihLeft fuel le.1 (atLeft ▸ nodup) (fun key mem => valid key (Or.inl mem)), pure_bind, atRight]
      dsimp only
      rw [ihRight fuel le.2 rightNodup (fun key mem => valid key (Or.inr (Or.inr mem))), pure_bind]
      dsimp only
      rw [setNode_append (absent_of_nodup doneNodup).1 (absent_of_nodup doneNodup).2]
      refine congrArg pure (Prod.ext ?_ ?_)
      · simp only [AVLNodeData.height, BinaryTree.height]
        omega
      · rfl

end Heights

/-! ## Leaves -/

section Leaves

variable {oram : PathORAM}

/-- Every listed key gets a leaf. -/
theorem ends_drawLeaves (keys : List Int)
    (areLeaves : ∀ key leaf, oram.posMap.get? key = some leaf → IsLeaf oram.storage.level leaf) :
    Ends (drawLeaves keys oram) (fun oram' => ∃ posMap, oram' = { oram with posMap } ∧
      (∀ key, (∃ leaf, oram.posMap.get? key = some leaf) ∨ key ∈ keys →
        ∃ leaf, posMap.get? key = some leaf) ∧
      ∀ key leaf, posMap.get? key = some leaf → IsLeaf oram.storage.level leaf) := by
  induction keys generalizing oram with
  | nil =>
      refine Prog.ends_pure ⟨oram.posMap, rfl, ?_, areLeaves⟩
      rintro key (present | mem)
      · exact present
      · exact absurd mem List.not_mem_nil
  | cons key rest ih =>
      refine Prog.ends_bind (PathORAM.ends_drawLeaf oram) ?_
      intro leaf isLeaf
      refine (@ih (oram.setLeaf key leaf) ?_).mono ?_
      · intro key' leaf' recorded
        rw [PathORAM.setLeaf, KeyMap.get?_set] at recorded
        split at recorded
        · exact Option.some.inj recorded ▸ isLeaf
        · exact areLeaves key' leaf' recorded
      · rintro _ ⟨posMap, rfl, present, leaves⟩
        refine ⟨posMap, rfl, ?_, leaves⟩
        intro key' known
        refine present key' ?_
        rw [PathORAM.setLeaf, KeyMap.get?_set]
        split
        · exact Or.inl ⟨leaf, rfl⟩
        · rename_i differs
          exact known.imp_right (fun mem => (List.mem_cons.mp mem).resolve_left differs)

/-- Storing distinct keys one after the other. -/
theorem entries_foldl_set {nodes : List (Int × AVLNodeData)} (nodup : (nodes.map Prod.fst).Nodup)
    (f : AVLNodeData → Bytes) :
    (nodes.foldl (fun oramData entry => oramData.set entry.1 (f entry.2))
        (∅ : KeyMap Int Bytes)).entries = nodes.map (fun entry => (entry.1, f entry.2)) := by
  have sameKeys : (nodes.map (fun entry => (entry.1, f entry.2))).map Prod.fst =
      nodes.map Prod.fst := by
    simp [Function.comp_def]
  have filled := KeyMap.foldl_set_entries
    ⟨nodes.map (fun entry => (entry.1, f entry.2)), sameKeys ▸ nodup⟩
  rw [List.foldl_map] at filled
  exact congrArg KeyMap.entries filled

theorem withChildLeaves_highNode (orams : SplitOram) (data : Bytes) {left right : AvlTree}
    (leftValid : ∀ key ∈ left.keys, key ≠ invalidKey)
    (rightValid : ∀ key ∈ right.keys, key ≠ invalidKey) :
    withChildLeaves orams .lower (AvlTree.highNode data left right) =
      AvlTree.nodeData orams.oram.getLeaf data left right := by
  have side : ∀ {tree : AvlTree}, (∀ key ∈ tree.keys, key ≠ invalidKey) →
      ChildPtr.mk tree.rootKey (if tree.rootKey ≠ invalidKey then orams.oram.getLeaf tree.rootKey
        else invalidLeaf) tree.height = tree.ptr orams.oram.getLeaf := by
    intro tree valid
    cases tree with
    | nil => rfl
    | node entry left right =>
        have rootValid : entry.1 ≠ invalidKey := valid entry.1 (by simp)
        exact congrArg (ChildPtr.mk _ · _) (if_pos rootValid)
  refine AVLNodeData.ext_child rfl true ?_ ?_
  · exact side leftValid
  · exact side rightValid

/-- The nodes of a tree as they are stored. -/
theorem map_withChildLeaves (orams : SplitOram) {tree : AvlTree}
    (valid : ∀ key ∈ tree.keys, key ≠ invalidKey) :
    (tree.listNodes AvlTree.highNode).map
        (fun entry => (entry.1, (withChildLeaves orams .lower entry.2).encode)) =
      tree.listNodes (fun data left right =>
        (AvlTree.nodeData orams.oram.getLeaf data left right).encode) := by
  induction tree with
  | nil => rfl
  | node entry left right ihLeft ihRight =>
      simp only [AvlTree.keys_node, List.mem_append, List.mem_cons] at valid
      have leftValid : ∀ key ∈ AvlTree.keys left, key ≠ invalidKey :=
        fun key mem => valid key (Or.inl mem)
      have rightValid : ∀ key ∈ AvlTree.keys right, key ≠ invalidKey :=
        fun key mem => valid key (Or.inr (Or.inr mem))
      rw [AvlTree.listNodes, List.map_append, List.map_append, ihLeft leftValid,
        ihRight rightValid, List.map_singleton, withChildLeaves_highNode orams _ leftValid rightValid]
      rfl

end Leaves

/-! ## Loading the ORAM -/

section Loading

/-- The blocks of a tree, listed. -/
theorem inOram_eq_listNodes (label : Int → Int) (tree : AvlTree) :
    (AvlPart.stored tree).inOram label =
      ↑((tree.listNodes (fun data left right =>
        (AvlTree.nodeData label data left right).encode)).map
          (fun entry => (⟨entry.1, label entry.1, entry.2⟩ : Block))) := by
  induction tree with
  | nil => rfl
  | node entry left right ihLeft ihRight =>
      simp only [AvlPart.inOram, AvlPart.blocks] at ihLeft ihRight ⊢
      rw [AvlTree.blocks, if_pos rfl, ihLeft, ihRight, AvlTree.listNodes, List.map_append,
        List.map_append, ← Multiset.coe_add, ← Multiset.coe_add, add_comm]
      rfl

/-- The blocks of a tree are known by their keys, their values and their leaves. -/
theorem eq_inOram {label label' : Int → Int} {tree : AvlTree}
    (same : ∀ key ∈ tree.keys, label key = label' key) {blocks : Multiset Block}
    (leaves : ∀ block ∈ blocks, block.leaf = label' block.key)
    (entries : blocks.map (fun block => (block.key, block.value)) =
      ↑(tree.listNodes (fun data left right => (AvlTree.nodeData label data left right).encode))) :
    blocks = (AvlPart.stored tree).inOram label' := by
  have relabelled : (AvlPart.stored tree).inOram label = (AvlPart.stored tree).inOram label' :=
    AvlTree.blocks_congr same (fun _ _ => rfl)
  have sameLeaf : ∀ entry ∈ tree.listNodes (fun data left right =>
      (AvlTree.nodeData label data left right).encode),
        (⟨entry.1, label' entry.1, entry.2⟩ : Block) = ⟨entry.1, label entry.1, entry.2⟩ := by
    intro entry mem
    have keyMem := (AvlTree.keys_listNodes _ tree).mem_iff.mp (List.mem_map_of_mem mem)
    rw [same entry.1 keyMem]
  rw [← relabelled, inOram_eq_listNodes, ← List.map_congr_left sameLeaf, ← Multiset.map_coe,
    ← entries, Multiset.map_map]
  conv_lhs => rw [← Multiset.map_id blocks]
  refine Multiset.map_congr rfl ?_
  intro block mem
  simp only [id_eq, Function.comp_apply, ← leaves block mem]

variable [Cipher]

/-- The end of `init` loads the nodes of a tree, each under its own leaf. -/
theorem ends_initWhole (omap : AVLOmap) {tree : AvlTree} (nodup : tree.keys.Nodup)
    (valid : ∀ key ∈ tree.keys, key ≠ invalidKey) :
    Ends (omap.initWhole (tree.listNodes AvlTree.highNode)) (fun omap' => ∃ oram,
      omap' = { omap with orams := { omap.orams with oram } } ∧
      oram.Holds (ceilLog2 omap.capacity + 1) ∅ ((AvlPart.stored tree).inOram oram.getLeaf) ∧
      ∀ key ∈ tree.keys, IsLeaf (ceilLog2 omap.capacity + 1) (oram.getLeaf key)) := by
  have listed := AvlTree.keys_listNodes AvlTree.highNode tree
  refine Prog.ends_bind (PathORAM.ends_newEmpty _ _ _) ?_
  rintro oram ⟨numData, unused, _⟩
  have noLeaves : ∀ key leaf, oram.posMap.get? key = some leaf →
      IsLeaf oram.storage.level leaf := by
    simp [unused.noLeaves]
  have level : oram.storage.level = ceilLog2 omap.capacity + 1 := numData ▸ unused.sized
  refine Prog.ends_bind (ends_drawLeaves _ noLeaves) ?_
  rintro _ ⟨posMap, rfl, drawn, leaves⟩
  set orams : SplitOram := { omap.orams with oram := { oram with posMap } } with oramsDef
  have entries := entries_foldl_set (listed.symm.nodup nodup)
    (fun avl => (withChildLeaves orams .lower avl).encode)
  rw [map_withChildLeaves orams valid] at entries
  set oramData := (tree.listNodes AvlTree.highNode).foldl (fun oramData entry =>
    oramData.set entry.1 (withChildLeaves orams .lower entry.2).encode) (∅ : KeyMap Int Bytes)
  have storedKeys : (oramData.entries.map Prod.fst).Perm tree.keys := by
    rw [entries]
    exact AvlTree.keys_listNodes _ tree
  have realKeys : ∀ entry ∈ oramData.entries, entry.1 ≠ invalidKey :=
    fun entry mem => valid _ (storedKeys.mem_iff.mp (List.mem_map_of_mem mem))
  refine Prog.ends_bind (@PathORAM.ends_init _ { oram with posMap } oramData
    unused.sized leaves realKeys) ?_
  rintro loaded ⟨blocks, tracked, blocksEq, kept⟩
  have known : ∀ key ∈ tree.keys, ∃ leaf, orams.oram.getLeaf key = leaf ∧
      loaded.getLeaf key = leaf ∧ IsLeaf oram.storage.level leaf := by
    intro key mem
    rcases drawn key (Or.inr (listed.mem_iff.mpr mem)) with ⟨leaf, recorded⟩
    exact ⟨leaf, KeyMap.getD_of_get? recorded, KeyMap.getD_of_get? (kept key leaf recorded),
      leaves key leaf recorded⟩
  have sameLeaf : ∀ key ∈ tree.keys, orams.oram.getLeaf key = loaded.getLeaf key := by
    intro key mem
    rcases known key mem with ⟨leaf, before, after, _⟩
    rw [before, after]
  have labelled : blocks = (AvlPart.stored tree).inOram loaded.getLeaf := by
    refine eq_inOram sameLeaf (fun block mem => ?_) (blocksEq.trans (congrArg _ entries))
    exact (KeyMap.getD_of_get? (tracked.mapped block mem).1).symm
  refine Prog.ends_pure ⟨loaded, rfl, ?_, ?_⟩
  · rw [← labelled, ← level]
    exact tracked.holds
  · intro key mem
    rcases known key mem with ⟨leaf, _, after, isLeaf⟩
    rw [after, ← level]
    exact isLeaf

end Loading

/-! ## The whole of `init` -/

section Init

/-- The data as `init` sorts it. -/
def sortedData (data : List (Int × Bytes)) : List (Int × Bytes) :=
  data.insertionSort (fun entry entry' => entry.1 ≤ entry'.1)

/-- The tree that `init` builds. -/
def initialTree (data : List (Int × Bytes)) : AvlTree :=
  ofRange (fun i => (sortedData data).getD i (invalidKey, [])) (sortedData data).length 0

theorem toList_initialTree (data : List (Int × Bytes)) :
    (initialTree data).toList = sortedData data := by
  rw [initialTree, toList_ofRange]
  refine List.ext_getElem (by simp) ?_
  intro i lt lt'
  rw [List.getElem_map, List.getElem_range', zero_add, one_mul, List.getD_eq_getElem _ _ lt']

theorem perm_initialTree (data : List (Int × Bytes)) : (initialTree data).toList.Perm data :=
  toList_initialTree data ▸ List.perm_insertionSort _ data

theorem keys_initialTree (data : List (Int × Bytes)) :
    (initialTree data).keys.Perm (data.map Prod.fst) :=
  (perm_initialTree data).map Prod.fst

theorem ordered_initialTree {data : List (Int × Bytes)} (nodup : (data.map Prod.fst).Nodup) :
    (initialTree data).Ordered := by
  have keys : (initialTree data).toList.map Prod.fst =
      (data.map Prod.fst).insertionSort (· ≤ ·) := by
    rw [toList_initialTree]
    exact List.map_insertionSort _ _ Prod.fst data (fun _ _ _ _ => Iff.rfl)
  rw [Ordered, keys]
  refine ((List.pairwise_insertionSort (· ≤ ·) (data.map Prod.fst)).and
    ((List.perm_insertionSort (· ≤ ·) (data.map Prod.fst)).nodup_iff.mpr nodup)).imp ?_
  rintro key key' ⟨le, differs⟩
  exact lt_of_le_of_ne le differs

theorem balanced_initialTree (data : List (Int × Bytes)) : (initialTree data).Balanced :=
  balanced_ofRange _ _ _

/-- The levels of a tree for an `int` of items. -/
theorem ceilLog2_le {capacity : Int} (isInt : IsInt capacity) : ceilLog2 capacity + 1 ≤ 32 := by
  unfold ceilLog2
  split
  · omega
  · have lt : Nat.log2 (capacity - 1).toNat < 31 :=
      (Nat.log2_lt (by omega)).mpr (by have := isInt.2; omega)
    omega

variable [Cipher] {omap : AVLOmap}

/-- A map that has been constructed but not initialised. -/
structure Blank (omap : AVLOmap) : Prop where
  whole : omap.orams.splitDepth ≤ 0
  local_ : omap.local_ = []
  capacity : IsInt omap.capacity
  empty : omap.orams.oram.Holds (ceilLog2 omap.capacity + 1) ∅ 0

theorem ends_new_blank {capacity : Int} (isInt : IsInt capacity) (bucketSize : Int) :
    Ends (AVLOmap.new capacity bucketSize) (fun omap =>
      omap.Blank ∧ omap.capacity = capacity ∧ omap.maxHeight = maxHeightFor capacity) := by
  refine Prog.ends_bind (PathORAM.ends_newEmpty _ _ _) ?_
  rintro oram ⟨_, _, holds⟩
  exact Prog.ends_pure ⟨⟨le_refl _, rfl, isInt, holds⟩, rfl, rfl⟩

/-- With nothing local, the ORAM has to hold the whole tree. -/
theorem stores_of_holds {level : Nat} {tree : AvlTree} (label : Int → Int)
    (whole : omap.orams.splitDepth ≤ 0) (noLocal : omap.local_ = [])
    (rootKey : omap.rootKey = tree.rootKey) (rootLeaf : omap.rootLeaf = (tree.ptr label).leaf)
    (holds : omap.orams.oram.Holds level ∅ ((AvlPart.stored tree).inOram label))
    (nodup : tree.keys.Nodup) (valid : ∀ key ∈ tree.keys, key ≠ invalidKey)
    (fits : Fits label level tree) : omap.Stores level tree := by
  refine ⟨label, ⟨⟨⟨[], noLocal, List.Perm.refl _⟩, trivial, trivial, nodup, valid⟩, rootKey⟩,
    holds, whole, fits, ?_⟩
  intro tree' same
  cases same
  exact rootLeaf

omit [Cipher] in
theorem buildBalanced_sorted {data : List (Int × Bytes)} (nodup : (initialTree data).keys.Nodup) :
    ∃ oramData, buildBalanced (sortedData data) (sortedData data).length 0
        ((sortedData data).length - 1) ∅ = ((initialTree data).rootKey, oramData) ∧
      oramData.entries = (initialTree data).listNodes
        (fun data left right => (AvlTree.bareNode data left right).encode) := by
  have built := buildBalanced_eq (sortedData data) (sortedData data).length 0
    (sortedData data).length ∅ (le_refl _) nodup
  rw [Nat.cast_zero, zero_add] at built
  exact ⟨_, Prod.ext built.1 rfl, built.2⟩

omit [Cipher] in
/-- The nodes that `build_balanced` makes refer to keys of the tree. -/
theorem ints_listNodes {tree : AvlTree} (ints : ∀ key ∈ tree.keys, IsInt key) :
    ∀ entry ∈ tree.listNodes AvlTree.bareNode, ∀ side, (entry.2.child side).Ints := by
  have rootInt : ∀ {tree : AvlTree}, (∀ key ∈ tree.keys, IsInt key) →
      (ChildPtr.mk tree.rootKey invalidLeaf 0).Ints := by
    intro tree ints
    have negInt : IsInt (-1) := by decide
    have zeroInt : IsInt 0 := by decide
    refine ⟨?_, negInt, zeroInt⟩
    cases tree with
    | nil => exact negInt
    | node entry left right => exact ints entry.1 (by simp)
  induction tree with
  | nil => exact fun _ mem => absurd mem List.not_mem_nil
  | node entry left right ihLeft ihRight =>
      simp only [AvlTree.keys_node, List.mem_append, List.mem_cons] at ints
      have leftInts : ∀ key ∈ AvlTree.keys left, IsInt key := fun key mem => ints key (Or.inl mem)
      have rightInts : ∀ key ∈ AvlTree.keys right, IsInt key :=
        fun key mem => ints key (Or.inr (Or.inr mem))
      intro entry' mem side
      rw [AvlTree.listNodes, List.mem_append, List.mem_append, List.mem_singleton] at mem
      rcases mem with (inLeft | inRight) | rfl
      · exact ihLeft leftInts entry' inLeft side
      · exact ihRight rightInts entry' inRight side
      · cases side
        · exact rootInt rightInts
        · exact rootInt leftInts

omit [Cipher] in
theorem decodeNodes_listNodes {tree : AvlTree} (ints : ∀ key ∈ tree.keys, IsInt key) :
    decodeNodes (tree.listNodes (fun data left right =>
        (AvlTree.bareNode data left right).encode)) =
      pure (tree.listNodes AvlTree.bareNode) := by
  rw [← AvlTree.listNodes_map AvlTree.bareNode AVLNodeData.encode]
  exact decodeNodes_map _ (ints_listNodes ints)

omit [Cipher] in
theorem fixHeights_whole {tree : AvlTree} (nodup : tree.keys.Nodup)
    (valid : ∀ key ∈ tree.keys, key ≠ invalidKey) :
    fixHeights (tree.listNodes AvlTree.bareNode).length tree.rootKey
        (tree.listNodes AvlTree.bareNode) =
      pure ((tree.height : Int), tree.listNodes AvlTree.highNode) := by
  have listed := AvlTree.keys_listNodes AvlTree.bareNode tree
  have length : (tree.listNodes AvlTree.bareNode).length = tree.numNodes := by
    rw [← BinaryTree.length_toList, ← List.length_map (f := Prod.fst), listed.length_eq]
    exact List.length_map _
  have fixed := @fixHeights_listNodes [] [] tree (tree.listNodes AvlTree.bareNode).length
    (length ▸ BinaryTree.height_le_numNodes tree)
  rw [List.nil_append, List.nil_append, List.append_nil, List.append_nil] at fixed
  exact fixed (listed.symm.nodup nodup) valid

/-- `init` stores the balanced tree of the data. -/
theorem Blank.ends_init (blank : omap.Blank) {data : List (Int × Bytes)}
    (nodup : (data.map Prod.fst).Nodup)
    (valid : ∀ key ∈ data.map Prod.fst, key ≠ invalidKey ∧ IsInt key)
    (fits : (data.length : Int) ≤ omap.capacity) :
    Ends (omap.init data) (fun omap' => omap'.Stores (ceilLog2 omap.capacity + 1)
      (initialTree data) ∧ omap'.maxHeight = omap.maxHeight) := by
  have keysPerm := keys_initialTree data
  have treeNodup : (initialTree data).keys.Nodup := keysPerm.nodup_iff.mpr nodup
  have treeValid : ∀ key ∈ (initialTree data).keys, key ≠ invalidKey :=
    fun key mem => (valid key (keysPerm.mem_iff.mp mem)).1
  have treeInts : ∀ key ∈ (initialTree data).keys, IsInt key :=
    fun key mem => (valid key (keysPerm.mem_iff.mp mem)).2
  have numNodes : (initialTree data).numNodes = data.length := by
    rw [← BinaryTree.length_toList]
    exact (perm_initialTree data).length_eq
  have level_le := ceilLog2_le blank.capacity
  have height_lt : (initialTree data).height < 2 ^ 31 := by
    have bound := BinaryTree.height_le_numNodes (initialTree data)
    have capacity := blank.capacity.2
    omega
  unfold AVLOmap.init
  split
  · rename_i empty
    obtain rfl : data = [] := List.isEmpty_iff.mp empty
    have isNil : initialTree [] = .nil := by
      simp [initialTree, sortedData, ofRange]
    rw [isNil] at treeInts height_lt ⊢
    refine Prog.ends_pure ⟨stores_of_holds (fun _ => 0) blank.whole blank.local_ rfl rfl
      blank.empty List.nodup_nil (fun _ mem => absurd mem List.not_mem_nil)
        ⟨fun _ mem => absurd mem List.not_mem_nil, treeInts, level_le, height_lt⟩, rfl⟩
  · rename_i nonempty
    rcases buildBalanced_sorted treeNodup with ⟨oramData, built, entries⟩
    unfold sortedData at built
    dsimp only
    rw [built]
    dsimp only
    rw [entries, decodeNodes_listNodes treeInts, pure_bind, fixHeights_whole treeNodup treeValid,
      pure_bind]
    dsimp only
    rw [if_neg (not_lt.mpr blank.whole)]
    refine Prog.ends_bind (ends_initWhole omap treeNodup treeValid) ?_
    rintro _ ⟨oram, rfl, holds, leaves⟩
    refine Prog.ends_pure ⟨stores_of_holds oram.getLeaf blank.whole blank.local_ rfl ?_
      holds treeNodup treeValid ⟨leaves, treeInts, level_le, height_lt⟩, rfl⟩
    have lower := @halfForDepth_whole { omap with orams := { omap.orams with oram } } blank.whole 0
    change (SplitOram.get _ (SplitOram.halfForDepth _ 0)).getLeaf _ = _
    rw [lower]
    rcases isTree : initialTree data with _ | ⟨entry, left, right⟩
    · rw [isTree] at numNodes
      exact absurd (List.isEmpty_iff.mpr (List.length_eq_zero_iff.mp numNodes.symm)) nonempty
    · rfl

end Init

end AVLOmap

end TieredOmap
