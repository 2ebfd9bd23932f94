import TieredOMap.Omap.AvlInit
import TieredOMap.Omap.Uses

/-!
# AVL maps are finite maps

A map without a split that is initialised with distinct keys and used within its capacity
answers every call as a finite map does, whatever leaves are drawn. The invariant is that
it stores a balanced search tree with the entries of the finite map; such a tree is never
higher than `max_height_`, so that no traversal stops too early.
-/

namespace TieredOmap

open BinaryTree

/-! ## The height bound -/

theorem ceilLog2_le_iff {n : Int} {levels : Nat} : ceilLog2 n ≤ levels ↔ n ≤ 2 ^ levels := by
  have positive : (1 : Int) ≤ 2 ^ levels := Int.pow_pos (by decide)
  have cast : ((2 : Int) ^ levels) = ((2 ^ levels : Nat) : Int) := by simp
  unfold ceilLog2
  split
  · omega
  · rw [Nat.succ_le_iff, Nat.log2_lt (by omega)]
    omega

/-- For all heights that an `int` of nodes allows, `max_height_` is large enough. -/
theorem fib_lt_maxHeight : ∀ height < 46,
    (2 : Nat) ^ (25 * height) < (max (Nat.fib (height + 3) - 1) 2) ^ 36 := by
  decide +kernel

namespace AVLOmap

/-- A balanced tree of at most `capacity` nodes is no higher than `max_height_`. -/
theorem height_le_maxHeight {α : Type} {capacity : Int} (isInt : IsInt capacity)
    {tree : BinaryTree α} (balanced : tree.Balanced) (fits : (tree.numNodes : Int) ≤ capacity) :
    (tree.height : Int) ≤ maxHeightFor capacity := by
  have enough := balanced.fib_le
  have capacityLt := isInt.2
  rcases heightEq : tree.height with _ | height
  · exact le_trans (by simp) (le_max_left _ _)
  rw [heightEq] at enough
  have low : height < 46 := by
    by_contra high
    have mono : Nat.fib 48 ≤ Nat.fib (height + 1 + 2) := Nat.fib_mono (by omega)
    have value : Nat.fib 48 = 4807526976 := by decide +kernel
    omega
  change Nat.fib (height + 3) ≤ _ at enough
  obtain ⟨count, countEq⟩ : ∃ count : Nat, max capacity 2 = count :=
    ⟨_, (Int.toNat_of_nonneg (by omega)).symm⟩
  have nodes : max (Nat.fib (height + 3) - 1) 2 ≤ count := by omega
  have power := (fib_lt_maxHeight height low).trans_le (Nat.pow_le_pow_left nodes 36)
  have exceeds : ¬ceilLog2 (max capacity 2 ^ 36) ≤ 25 * height := by
    rw [ceilLog2_le_iff, countEq]
    exact not_le.mpr (by exact_mod_cast power)
  refine le_trans ?_ (le_max_right _ _)
  omega

end AVLOmap

/-! ## Calls -/

namespace MapCall

/-- What a call does to a finite map. -/
def apply (contents : KeyMap Int Bytes) : MapCall → KeyMap Int Bytes
  | search key update =>
      match update, contents.get? key with
      | some value, some _ => contents.set key value
      | _, _ => contents
  | insert key value => contents.set key value
  | remove key => contents.erase key
  | dummyAccess => contents

/-- What a finite map answers. -/
def answer (contents : KeyMap Int Bytes) : MapCall → Bytes
  | search key _ => valueOf (contents.get? key)
  | _ => []

/-- Only new keys are inserted, and only as many as there is room for. -/
def Allowed (capacity : Int) (contents : KeyMap Int Bytes) : MapCall → Prop
  | insert key _ => key ≠ invalidKey ∧ IsInt key ∧ contents.get? key = none ∧
      (contents.entries.length : Int) + 1 ≤ capacity
  | _ => True

/-- The finite map after some calls. -/
def applyAll (contents : KeyMap Int Bytes) (calls : List MapCall) : KeyMap Int Bytes :=
  calls.foldl apply contents

/-- The answers to some calls. -/
def answers (contents : KeyMap Int Bytes) : List MapCall → List Bytes
  | [] => []
  | call :: calls => call.answer contents :: answers (call.apply contents) calls

/-- All calls are allowed when they are made. -/
def AllAllowed (capacity : Int) (contents : KeyMap Int Bytes) : List MapCall → Prop
  | [] => True
  | call :: calls => call.Allowed capacity contents ∧ AllAllowed capacity (call.apply contents) calls

variable [Cipher]

/-- Make a call of an AVL map. -/
def run (omap : AVLOmap) : MapCall → Rand (Bytes × AVLOmap)
  | search key update => omap.search key update
  | insert key value => do
      let omap ← omap.insert key value
      return ([], omap)
  | remove key => do
      let omap ← omap.remove key
      return ([], omap)
  | dummyAccess => do
      let omap ← omap.dummyAccess
      return ([], omap)

/-- Make calls one after the other. -/
def runAll : List MapCall → AVLOmap → Rand (List Bytes × AVLOmap)
  | [], omap => return ([], omap)
  | call :: calls, omap => do
      let (result, omap) ← call.run omap
      let (results, omap) ← runAll calls omap
      return (result :: results, omap)

end MapCall

/-! ## The stored tree and the finite map -/

/-- The entries of a search tree are those of a finite map. -/
def AvlTree.Maps (tree : AvlTree) (contents : KeyMap Int Bytes) : Prop :=
  ∀ key, tree.lookup key = contents.get? key

section Maps

variable {tree : AvlTree} {contents : KeyMap Int Bytes}

theorem AvlTree.Maps.perm (maps : tree.Maps contents) (ordered : tree.Ordered) :
    tree.toList.Perm contents.entries := by
  have treeNodup : tree.toList.Nodup :=
    List.Nodup.of_map Prod.fst (ordered.imp (fun lt => ne_of_lt lt))
  refine (List.perm_ext_iff_of_nodup treeNodup (List.Nodup.of_map Prod.fst contents.nodup)).mpr ?_
  rintro ⟨key, value⟩
  rw [← lookup_eq_some_iff ordered, maps key, KeyMap.get?_eq_some_iff]

theorem AvlTree.Maps.numNodes (maps : tree.Maps contents) (ordered : tree.Ordered) :
    tree.numNodes = contents.entries.length := by
  rw [← BinaryTree.length_toList, (maps.perm ordered).length_eq]

theorem AvlTree.maps_of_perm (ordered : tree.Ordered) (perm : tree.toList.Perm contents.entries) :
    tree.Maps contents := by
  intro key
  refine Option.ext (fun value => ?_)
  rw [lookup_eq_some_iff ordered, KeyMap.get?_eq_some_iff, perm.mem_iff]

end Maps

/-! ## Search trees as finite maps -/

section Spec

variable {tree : AvlTree} {contents : KeyMap Int Bytes} {key : Int}

theorem AvlTree.Maps.of_update (maps : tree.Maps contents) {tree' : AvlTree}
    {contents' : KeyMap Int Bytes} {outcome : Option Bytes}
    (updated : (fun key' => tree'.lookup key') =
      Function.update (fun key' => tree.lookup key') key outcome)
    (updated' : ∀ key', contents'.get? key' =
      if key' = key then outcome else contents.get? key') : tree'.Maps contents' := by
  intro key'
  rw [congrFun updated key', updated', Function.update_apply, maps key']

theorem rootData_descend (key : Int) (tree : AvlTree) :
    rootData (descend key tree []).2 = valueOf (tree.lookup key) := by
  unfold BinaryTree.lookup
  rcases (descend key tree []).2 with _ | ⟨entry, left, right⟩ <;> rfl

/-- The tree after a search is that of the finite map. -/
theorem AvlTree.Maps.search (maps : tree.Maps contents) (ordered : tree.Ordered)
    (balanced : tree.Balanced) (key : Int) (update : Option Bytes) :
    let tree' := plug (descend key tree []).1 (updateRoot update (descend key tree []).2)
    tree'.Ordered ∧ tree'.Balanced ∧ tree'.numNodes = tree.numNodes ∧
      AvlTree.Maps tree' (MapCall.apply contents (.search key update)) := by
  have same := plug_descend key tree []
  have found := maps key
  unfold BinaryTree.lookup at found
  cases update with
  | none =>
      have unchanged : updateRoot none (descend key tree []).2 = (descend key tree []).2 := by
        rcases (descend key tree []).2 with _ | ⟨entry, left, right⟩ <;> rfl
      dsimp only
      rw [unchanged, same]
      exact ⟨ordered, balanced, rfl, maps⟩
  | some value =>
      rcases isRoot : (descend key tree []).2 with _ | ⟨entry, left, right⟩
      · rw [isRoot] at found same
        have unchanged : MapCall.apply contents (.search key (some value)) = contents := by
          simp [MapCall.apply, ← found]
        rw [unchanged]
        dsimp only [updateRoot]
        rw [same]
        exact ⟨ordered, balanced, rfl, maps⟩
      · rw [isRoot] at found
        have replaced : plug (descend key tree []).1
            (updateRoot (some value) (.node entry left right)) = replace key value tree := by
          rw [replace, ← Prod.mk.eta (p := descend key tree []), isRoot]
          rfl
        have present : tree.lookup key = some entry.2 := (maps key).trans found.symm
        rcases replace_spec ordered balanced present value with ⟨ordered', balanced', size, lookups⟩
        dsimp only
        rw [replaced]
        refine ⟨ordered', balanced', size, maps.of_update lookups (fun key' => ?_)⟩
        simp only [MapCall.apply, ← found]
        exact KeyMap.get?_set _ _ _ _

end Spec

/-! ## Runs -/

section Runs

variable [Cipher] {omap : AVLOmap} {capacity : Int} {contents : KeyMap Int Bytes} {level : Nat}
  {tree : AvlTree}

/-- The map stores a balanced search tree with the entries of a finite map. -/
structure AVLOmap.Keeps (capacity : Int) (level : Nat) (omap : AVLOmap) (tree : AvlTree)
    (contents : KeyMap Int Bytes) : Prop where
  stores : omap.Stores level tree
  ordered : tree.Ordered
  balanced : tree.Balanced
  maps : tree.Maps contents
  bound : omap.maxHeight = AVLOmap.maxHeightFor capacity
  room : (tree.numNodes : Int) ≤ capacity

/-- The map stands for a finite map. -/
def AVLOmap.Represents (capacity : Int) (omap : AVLOmap) (contents : KeyMap Int Bytes) : Prop :=
  ∃ level tree, AVLOmap.Keeps capacity level omap tree contents

theorem AVLOmap.Keeps.height_le (keeps : AVLOmap.Keeps capacity level omap tree contents)
    (isInt : IsInt capacity) : (tree.height : Int) ≤ omap.maxHeight :=
  keeps.bound ▸ AVLOmap.height_le_maxHeight isInt keeps.balanced keeps.room

/-- `init` on a new map. -/
theorem AVLOmap.ends_create_represents (isInt : IsInt capacity) (bucketSize : Int)
    (valid : ∀ key ∈ contents.keys, key ≠ invalidKey ∧ IsInt key)
    (fits : (contents.entries.length : Int) ≤ capacity) :
    Ends (do
        let omap ← AVLOmap.new capacity bucketSize
        omap.init contents.entries)
      (fun omap => omap.Represents capacity contents) := by
  refine Prog.ends_bind (AVLOmap.ends_new_blank isInt bucketSize) ?_
  rintro omap ⟨blank, capacityEq, bound⟩
  refine (blank.ends_init contents.nodup valid (capacityEq ▸ fits)).mono ?_
  rintro omap' ⟨stores, sameBound⟩
  have ordered := AVLOmap.ordered_initialTree contents.nodup
  have maps := AvlTree.maps_of_perm ordered (AVLOmap.perm_initialTree contents.entries)
  exact ⟨_, _, stores, ordered, AVLOmap.balanced_initialTree _, maps, sameBound.trans bound,
    maps.numNodes ordered ▸ fits⟩

/-- An allowed call is answered as by the finite map. -/
theorem AVLOmap.Represents.ends_run (represents : omap.Represents capacity contents)
    (isInt : IsInt capacity) {call : MapCall} (allowed : call.Allowed capacity contents) :
    Ends (call.run omap) (fun outcome =>
      outcome.1 = call.answer contents ∧
        outcome.2.Represents capacity (call.apply contents)) := by
  rcases represents with ⟨level, tree, keeps⟩
  have height := keeps.height_le isInt
  have size := keeps.maps.numNodes keeps.ordered
  cases call with
  | search key update =>
      refine (keeps.stores.ends_search key update height).mono ?_
      rintro ⟨result, omap'⟩ ⟨resultEq, stores, sameBound⟩
      rcases keeps.maps.search keeps.ordered keeps.balanced key update with
        ⟨ordered, balanced, sameSize, maps⟩
      refine ⟨?_, level, _, stores, ordered, balanced, maps, sameBound.trans keeps.bound, ?_⟩
      · exact resultEq.trans ((rootData_descend key tree).trans (congrArg valueOf (keeps.maps key)))
      · rw [sameSize]
        exact keeps.room
  | insert key value =>
      rcases allowed with ⟨valid, keyInt, absent, fits⟩
      have absentTree : tree.lookup key = none := (keeps.maps key).trans absent
      have notMem : key ∉ tree.keys := by
        intro mem
        rcases List.mem_map.mp mem with ⟨entry, entryMem, rfl⟩
        rw [(lookup_eq_some_iff keeps.ordered).mpr entryMem] at absentTree
        cases absentTree
      have grows : tree.height + 1 < 2 ^ 31 := by
        have bound := BinaryTree.height_le_numNodes tree
        have capacityLt := isInt.2
        omega
      rcases insertNew_spec keeps.ordered keeps.balanced absentTree value with
        ⟨ordered, balanced, grown, lookups⟩
      refine Prog.ends_bind (keeps.stores.ends_insert value height keeps.balanced notMem valid keyInt
        grows) ?_
      rintro omap' ⟨stores, sameBound⟩
      refine Prog.ends_pure ⟨rfl, level, _, stores, ordered, balanced, ?_,
        sameBound.trans keeps.bound, ?_⟩
      · exact keeps.maps.of_update lookups (fun key' => KeyMap.get?_set _ _ _ _)
      · rw [grown, size]
        exact_mod_cast fits
  | remove key =>
      rcases remove_spec key keeps.ordered keeps.balanced with
        ⟨ordered, balanced, shrunk, _, lookups⟩
      refine Prog.ends_bind (keeps.stores.ends_remove key height keeps.balanced) ?_
      rintro omap' ⟨stores, sameBound⟩
      refine Prog.ends_pure ⟨rfl, level, _, stores, ordered, balanced, ?_,
        sameBound.trans keeps.bound, ?_⟩
      · exact keeps.maps.of_update lookups (fun key' => KeyMap.get?_erase _ _ _)
      · have room := keeps.room
        omega
  | dummyAccess =>
      rcases keeps.stores with ⟨label, op⟩
      refine Prog.ends_bind (op.reset.quiet
        (fun whole _ holds => AVLOmap.ends_padToBudget whole holds _)) ?_
      rintro omap' ⟨stores, sameBound⟩
      exact Prog.ends_pure ⟨rfl, level, tree, stores, keeps.ordered, keeps.balanced, keeps.maps,
        sameBound.trans keeps.bound, keeps.room⟩

/-- A run of allowed calls is answered as by the finite map. -/
theorem AVLOmap.Represents.ends_runAll (calls : List MapCall)
    (represents : omap.Represents capacity contents) (isInt : IsInt capacity)
    (allowed : MapCall.AllAllowed capacity contents calls) :
    Ends (MapCall.runAll calls omap) (fun outcome =>
      outcome.1 = MapCall.answers contents calls ∧
        outcome.2.Represents capacity (MapCall.applyAll contents calls)) := by
  induction calls generalizing omap contents with
  | nil => exact Prog.ends_pure ⟨rfl, represents⟩
  | cons call calls ih =>
      rcases allowed with ⟨first, rest⟩
      refine Prog.ends_bind (represents.ends_run isInt first) ?_
      rintro ⟨result, omap'⟩ ⟨resultEq, represents'⟩
      refine Prog.ends_bind (ih represents' rest) ?_
      rintro ⟨results, omap''⟩ ⟨resultsEq, represents''⟩
      refine Prog.ends_pure ⟨?_, represents''⟩
      exact congrArg₂ List.cons resultEq resultsEq

/-- The answers are those of a finite map. -/
theorem AVLOmap.answers_eq (isInt : IsInt capacity) (bucketSize : Int)
    (valid : ∀ key ∈ contents.keys, key ≠ invalidKey ∧ IsInt key)
    (fits : (contents.entries.length : Int) ≤ capacity) (calls : List MapCall)
    (allowed : MapCall.AllAllowed capacity contents calls) :
    Ends (do
        let omap ← AVLOmap.new capacity bucketSize
        let omap ← omap.init contents.entries
        MapCall.runAll calls omap)
      (fun outcome => outcome.1 = MapCall.answers contents calls) := by
  refine Prog.ends_bind_bind (AVLOmap.ends_create_represents isInt bucketSize valid fits) ?_
  intro omap represents
  exact (represents.ends_runAll calls isInt allowed).mono (fun _ outcome => outcome.1)

end Runs

section Sample

attribute [local instance] clearCipher

theorem AVLOmap.answers_eq_sample :
    Ends (do
        let omap ← AVLOmap.new 2 4
        let omap ← omap.init [(1, [10]), (2, [20])]
        MapCall.runAll [.remove 1, .insert 3 [30], .search 3 none] omap)
      (fun outcome => outcome.1 = [[], [], [30]]) :=
  @AVLOmap.answers_eq clearCipher 2 ⟨[(1, [10]), (2, [20])], by decide⟩ (by decide) 4 (by decide)
    (by decide) [.remove 1, .insert 3 [30], .search 3 none]
    ⟨trivial, ⟨by decide, by decide, by decide, by decide⟩, trivial, trivial⟩

end Sample

/-! ## The stored tree -/

section StoredTree

variable [Cipher] {omap : AVLOmap} {capacity : Int} {contents : KeyMap Int Bytes} {level : Nat}
  {tree : AvlTree}

/-- The map holds a block for every node of the tree, with its entry, the keys of its children
and their heights, and no other block. -/
structure AVLOmap.HoldsTree (omap : AVLOmap) (tree : AvlTree) : Prop where
  rootKey : omap.rootKey = tree.rootKey
  noLocal : omap.local_ = []
  stored : ∃ level blocks, omap.orams.oram.Holds level ∅ blocks ∧
    blocks.map Block.key = ↑tree.keys ∧
    ∀ entry left right, .node entry left right ∈ tree.subtrees →
      ∃ leaf, ∃ avl : AVLNodeData, ⟨entry.1, leaf, avl.encode⟩ ∈ blocks ∧ avl.data = entry.2 ∧
        avl.lKey = AvlTree.rootKey left ∧ avl.rKey = AvlTree.rootKey right ∧
        avl.lHeight = BinaryTree.height left ∧ avl.rHeight = BinaryTree.height right

omit [Cipher] in
theorem AvlTree.mem_blocks {label : Int → Int} {entry : Int × Bytes} {left right : AvlTree}
    (mem : .node entry left right ∈ tree.subtrees) :
    ⟨entry.1, label entry.1, (AvlTree.nodeData label entry.2 left right).encode⟩ ∈
      (AvlPart.stored tree).inOram label := by
  induction tree with
  | nil => exact absurd mem List.not_mem_nil
  | node entry' left' right' ihLeft ihRight =>
      simp only [AvlPart.inOram, AvlPart.blocks] at ihLeft ihRight ⊢
      rw [AvlTree.blocks, Multiset.mem_add, Multiset.mem_add, if_pos rfl, Multiset.mem_singleton]
      rcases List.mem_cons.mp mem with same | below
      · cases same
        exact Or.inl rfl
      · exact Or.inr ((List.mem_append.mp below).imp ihLeft ihRight)

theorem AVLOmap.Keeps.holdsTree (keeps : AVLOmap.Keeps capacity level omap tree contents) :
    omap.HoldsTree tree := by
  rcases keeps.stores with ⟨label, op⟩
  rcases op.focus.local_.order with ⟨rest, localEq, perm⟩
  obtain rfl := List.perm_nil.mp perm
  refine ⟨op.focus.rootKey, localEq, level, _, op.holds, ?_, ?_⟩
  · exact AvlPart.map_key_inOram label (.stored tree)
  · intro entry left right mem
    exact ⟨label entry.1, _, AvlTree.mem_blocks mem, rfl, AvlTree.ptr_key label left,
      AvlTree.ptr_key label right, AvlTree.ptr_height label left, AvlTree.ptr_height label right⟩

/-- After every run the map stores an AVL tree of the live keys, with the heights of all subtrees. -/
theorem AVLOmap.stores_avlTree (isInt : IsInt capacity) (bucketSize : Int)
    (valid : ∀ key ∈ contents.keys, key ≠ invalidKey ∧ IsInt key)
    (fits : (contents.entries.length : Int) ≤ capacity) (calls : List MapCall)
    (allowed : MapCall.AllAllowed capacity contents calls) :
    Ends (do
        let omap ← AVLOmap.new capacity bucketSize
        let omap ← omap.init contents.entries
        MapCall.runAll calls omap)
      (fun outcome => ∃ tree, outcome.2.HoldsTree tree ∧
        (tree.toList.map Prod.fst).Pairwise (· < ·) ∧
        tree.toList.Perm (MapCall.applyAll contents calls).entries ∧
        ∀ entry left right, .node entry left right ∈ tree.subtrees →
          BinaryTree.height left ≤ BinaryTree.height right + 1 ∧
            BinaryTree.height right ≤ BinaryTree.height left + 1) := by
  refine Prog.ends_bind_bind (AVLOmap.ends_create_represents isInt bucketSize valid fits) ?_
  intro omap represents
  refine (represents.ends_runAll calls isInt allowed).mono ?_
  rintro ⟨results, omap'⟩ ⟨_, level, tree, keeps⟩
  refine ⟨tree, keeps.holdsTree, keeps.ordered, keeps.maps.perm keeps.ordered, ?_⟩
  intro entry left right mem
  have balanced := keeps.balanced.of_mem_subtrees mem
  exact ⟨balanced.1, balanced.2.1⟩

end StoredTree

section Sample

attribute [local instance] clearCipher

theorem AVLOmap.stores_avlTree_sample :
    Ends (do
        let omap ← AVLOmap.new 2 4
        let omap ← omap.init [(1, [10]), (2, [20])]
        MapCall.runAll [.remove 1, .insert 3 [30]] omap)
      (fun outcome => ∃ tree, outcome.2.HoldsTree tree ∧
        (tree.toList.map Prod.fst).Pairwise (· < ·) ∧
        tree.toList.Perm [(2, [20]), (3, [30])] ∧
        ∀ entry left right, .node entry left right ∈ tree.subtrees →
          BinaryTree.height left ≤ BinaryTree.height right + 1 ∧
            BinaryTree.height right ≤ BinaryTree.height left + 1) :=
  @AVLOmap.stores_avlTree clearCipher 2 ⟨[(1, [10]), (2, [20])], by decide⟩ (by decide) 4
    (by decide) (by decide) [.remove 1, .insert 3 [30]]
    ⟨trivial, ⟨by decide, by decide, by decide, by decide⟩, trivial⟩

end Sample

end TieredOmap
