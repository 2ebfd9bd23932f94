import TieredOMap.Common

/-!
# The server's bucket tree

`BinaryTreeStorage`: a complete binary tree of buckets in heap order. Node
`0` is the root, node `n` has children `2 n + 1` and `2 n + 2`, and leaf `l`
is node `leafRange - 1 + l`. `std::ceil(std::log2(n))` is taken exactly.
-/

namespace TieredOmap

/-- `ceil_log2`. -/
def ceilLog2 (n : Int) : Nat := if n ≤ 1 then 0 else Nat.log2 (n - 1).toNat + 1

/-- Buckets by node, as read from or written to a path. Nodes ascend. -/
abbrev PathData := List (Nat × List Block)

/-- A bucket tree together with the id under which the server knows it. -/
structure BinaryTreeStorage where
  storeId : Nat := 0
  level : Nat := 0
  bucketSize : Int := 0
  storage : Nat → List Block := fun _ => []

instance : Inhabited BinaryTreeStorage := ⟨{}⟩

namespace BinaryTreeStorage

/-- An empty tree for `numData` items. -/
def new (storeId : Nat) (numData bucketSize : Int) : BinaryTreeStorage :=
  { storeId, level := ceilLog2 numData + 1, bucketSize }

/-- `leaf_range`: the number of leaves. -/
def leafRange (tree : BinaryTreeStorage) : Nat := 2 ^ (tree.level - 1)

/-- The number of nodes of a tree with the given number of levels. -/
def totalNodes (level : Nat) : Nat := 2 ^ level - 1

/-- The nodes from `node` up to the root. -/
def climb : Nat → Nat → List Nat
  | 0, node => [node]
  | fuel + 1, node => if node = 0 then [0] else node :: climb fuel ((node - 1) / 2)

/-- The nodes from the given leaf up to the root; none for a leaf before the first node. -/
def pathNodes (level : Nat) (leaf : Int) : List Nat :=
  if (2 : Int) ^ (level - 1) - 1 + leaf < 0 then []
  else climb ((2 : Int) ^ (level - 1) - 1 + leaf).toNat ((2 : Int) ^ (level - 1) - 1 + leaf).toNat

/-- Insertion into `std::set<int>`. -/
def insertNode (node : Nat) : List Nat → List Nat
  | [] => [node]
  | head :: rest =>
      if node < head then node :: head :: rest
      else if node = head then head :: rest
      else head :: insertNode node rest

/-- `get_merged_path_indices`: the nodes on the paths of the given leaves, ascending. -/
def mergedPathIndices (level : Nat) (leaves : List Int) : List Nat :=
  (leaves.flatMap (pathNodes level)).foldr insertNode []

/-- `reset`: empty all buckets. -/
def reset (tree : BinaryTreeStorage) (numData bucketSize : Int) : BinaryTreeStorage :=
  new tree.storeId numData bucketSize

/-- Replace the bucket of one node. -/
def setBucket (tree : BinaryTreeStorage) (node : Nat) (bucket : List Block) : BinaryTreeStorage :=
  { tree with storage := fun node' => if node' = node then bucket else tree.storage node' }

/-- `fill_data_to_leaf`: put a block into the deepest bucket with room on its leaf's path. -/
def fillDataToLeaf (tree : BinaryTreeStorage) (block : Block) : BinaryTreeStorage :=
  match (pathNodes tree.level block.leaf).find?
      (fun node => (tree.storage node).length < tree.bucketSize) with
  | some node => tree.setBucket node (tree.storage node ++ [block])
  | none => tree

/-- The keys of the real blocks held anywhere in the tree. -/
def placedKeys (tree : BinaryTreeStorage) : List Int :=
  ((List.range (totalNodes tree.level)).flatMap tree.storage).filterMap
    (fun block => if block.isDummy then none else some block.key)

/-- `bulk_load`: fill in all blocks and report which keys found a place. -/
def bulkLoad (tree : BinaryTreeStorage) (blocks : List Block) : List Int × BinaryTreeStorage :=
  let tree := blocks.foldl fillDataToLeaf tree
  (tree.placedKeys, tree)

/-- `read_multiple_paths`; `read_path` is its case of one leaf. -/
def readMultiplePaths (tree : BinaryTreeStorage) (leaves : List Int) : PathData :=
  (mergedPathIndices tree.level leaves).map (fun node => (node, tree.storage node))

/-- `read_path`. -/
def readPath (tree : BinaryTreeStorage) (leaf : Int) : PathData :=
  tree.readMultiplePaths [leaf]

/-- `write_multiple_paths`, also `write_path`: overwrite the given buckets. -/
def writeMultiplePaths (tree : BinaryTreeStorage) (buckets : PathData) : BinaryTreeStorage :=
  buckets.foldl (fun tree entry => tree.setBucket entry.1 entry.2) tree

/-- The bucket of one node in a path. -/
def bucketAt (path : PathData) (node : Nat) : List Block :=
  match path.find? (fun entry => entry.1 = node) with
  | some entry => entry.2
  | none => []

/-- Append a block to the bucket of one node in a path. -/
def pushAt (path : PathData) (node : Nat) (block : Block) : PathData :=
  path.map (fun entry => if entry.1 = node then (entry.1, entry.2 ++ [block]) else entry)

/-- `fill_block_to_path`: the deepest node with room that is an ancestor of the block's leaf. -/
def fillBlockToPath (block : Block) (path : PathData) (level : Nat) (bucketSize : Int) :
    Option PathData :=
  match (path.map Prod.fst).reverse.find? (fun node =>
      (bucketAt path node).length < bucketSize && (pathNodes level block.leaf).contains node) with
  | some node => some (pushAt path node block)
  | none => none

/-! ## Geometry -/

theorem climb_le {fuel node node' : Nat} (mem : node' ∈ climb fuel node) : node' ≤ node := by
  induction fuel generalizing node with
  | zero => simp_all [climb]
  | succ fuel ih =>
      by_cases root : node = 0
      · simp_all [climb]
      · simp only [climb, root, if_false, List.mem_cons] at mem
        rcases mem with rfl | above
        · exact le_refl _
        · exact (ih above).trans (by omega)

theorem pathNodes_lt {level : Nat} {leaf : Int} (inRange : leaf < 2 ^ (level - 1))
    (positive : 0 < level) {node : Nat} (mem : node ∈ pathNodes level leaf) :
    node < totalNodes level := by
  unfold pathNodes at mem
  split at mem
  · simp at mem
  · have below := climb_le mem
    have doubled : (2 : Nat) ^ level = 2 * 2 ^ (level - 1) := by
      rw [← pow_succ', Nat.sub_add_cancel positive]
    have cast : ((2 : Int) ^ (level - 1)) = ((2 ^ (level - 1) : Nat) : Int) := by simp
    have positivePow : 0 < 2 ^ (level - 1) := Nat.two_pow_pos _
    unfold totalNodes
    omega

/-- The root lies on the path of every leaf of the tree. -/
theorem root_mem_climb {fuel node : Nat} (enough : node ≤ fuel) : 0 ∈ climb fuel node := by
  induction fuel generalizing node with
  | zero => simp_all [climb]
  | succ fuel ih =>
      by_cases root : node = 0
      · simp [climb, root]
      · simp only [climb, root, if_false, List.mem_cons]
        exact Or.inr (ih (by omega))

theorem root_mem_pathNodes {level : Nat} {leaf : Int} (nonneg : 0 ≤ leaf) :
    0 ∈ pathNodes level leaf := by
  have positivePow : (0 : Int) < 2 ^ (level - 1) := Int.pow_pos (by decide)
  unfold pathNodes
  rw [if_neg (by omega)]
  exact root_mem_climb (le_refl _)

theorem self_mem_climb (fuel node : Nat) : node ∈ climb fuel node := by
  cases fuel with
  | zero => simp [climb]
  | succ fuel =>
      by_cases root : node = 0
      · simp [climb, root]
      · simp [climb, root]

theorem climb_above {fuel node node' : Nat} (mem : node' ∈ climb fuel node) :
    node' = node ∨ node' ≤ (node - 1) / 2 := by
  cases fuel with
  | zero => simp_all [climb]
  | succ fuel =>
      by_cases root : node = 0
      · simp_all [climb]
      · simp only [climb, root, if_false, List.mem_cons] at mem
        exact mem.imp_right climb_le

/-- The bottom node of a path is on no other path. -/
theorem bottom_mem_pathNodes_iff {level : Nat} {leaf leaf' : Int} (nonneg : 0 ≤ leaf)
    (nonneg' : 0 ≤ leaf') (inRange' : leaf' < 2 ^ (level - 1)) :
    ((2 : Int) ^ (level - 1) - 1 + leaf).toNat ∈ pathNodes level leaf' ↔ leaf = leaf' := by
  have positivePow : (0 : Int) < 2 ^ (level - 1) := Int.pow_pos (by decide)
  unfold pathNodes
  rw [if_neg (by omega)]
  generalize (2 : Int) ^ (level - 1) = leaves at positivePow inRange'
  constructor
  · intro mem
    rcases climb_above mem with same | above <;> omega
  · rintro rfl
    exact self_mem_climb _ _

/-! ## Sets of nodes -/

theorem mem_insertNode {node node' : Nat} {nodes : List Nat} :
    node' ∈ insertNode node nodes ↔ node' = node ∨ node' ∈ nodes := by
  induction nodes with
  | nil => simp [insertNode]
  | cons head rest ih =>
      unfold insertNode
      split
      · simp
      · split
        · rename_i same
          simp [same]
        · simp only [List.mem_cons, ih]
          tauto

theorem pairwise_insertNode {node : Nat} {nodes : List Nat} (sorted : nodes.Pairwise (· < ·)) :
    (insertNode node nodes).Pairwise (· < ·) := by
  induction nodes with
  | nil => simp [insertNode]
  | cons head rest ih =>
      rcases List.pairwise_cons.mp sorted with ⟨headLt, restSorted⟩
      unfold insertNode
      split
      · rename_i before
        refine List.pairwise_cons.mpr ⟨?_, sorted⟩
        intro node' nodeMem
        rcases List.mem_cons.mp nodeMem with rfl | inRest
        · exact before
        · exact before.trans (headLt node' inRest)
      · split
        · exact sorted
        · refine List.pairwise_cons.mpr ⟨?_, ih restSorted⟩
          intro node' nodeMem
          rcases mem_insertNode.mp nodeMem with rfl | inRest
          · omega
          · exact headLt node' inRest

theorem mem_mergedPathIndices {level : Nat} {leaves : List Int} {node : Nat} :
    node ∈ mergedPathIndices level leaves ↔ ∃ leaf ∈ leaves, node ∈ pathNodes level leaf := by
  rw [← List.mem_flatMap]
  unfold mergedPathIndices
  induction leaves.flatMap (pathNodes level) with
  | nil => simp
  | cons head rest ih => simp [mem_insertNode, ih]

theorem pairwise_mergedPathIndices (level : Nat) (leaves : List Int) :
    (mergedPathIndices level leaves).Pairwise (· < ·) := by
  unfold mergedPathIndices
  induction leaves.flatMap (pathNodes level) with
  | nil => simp
  | cons head rest ih => exact pairwise_insertNode ih

theorem nodup_mergedPathIndices (level : Nat) (leaves : List Int) :
    (mergedPathIndices level leaves).Nodup :=
  (pairwise_mergedPathIndices level leaves).imp (fun before => by omega)

/-! ## Writing paths -/

@[simp]
theorem setBucket_level (tree : BinaryTreeStorage) (node : Nat) (bucket : List Block) :
    (tree.setBucket node bucket).level = tree.level := rfl

@[simp]
theorem setBucket_bucketSize (tree : BinaryTreeStorage) (node : Nat) (bucket : List Block) :
    (tree.setBucket node bucket).bucketSize = tree.bucketSize := rfl

@[simp]
theorem setBucket_storeId (tree : BinaryTreeStorage) (node : Nat) (bucket : List Block) :
    (tree.setBucket node bucket).storeId = tree.storeId := rfl

theorem writeMultiplePaths_keeps (tree : BinaryTreeStorage) (buckets : PathData) :
    (tree.writeMultiplePaths buckets).level = tree.level ∧
      (tree.writeMultiplePaths buckets).bucketSize = tree.bucketSize ∧
      (tree.writeMultiplePaths buckets).storeId = tree.storeId := by
  unfold writeMultiplePaths
  induction buckets generalizing tree with
  | nil => simp
  | cons entry rest ih => simpa using ih (tree.setBucket entry.1 entry.2)

theorem storeId_bulkLoad (tree : BinaryTreeStorage) (blocks : List Block) :
    (tree.bulkLoad blocks).2.storeId = tree.storeId := by
  unfold bulkLoad
  dsimp only
  induction blocks generalizing tree with
  | nil => rfl
  | cons block rest ih =>
      rw [List.foldl_cons, ih, fillDataToLeaf]
      split <;> rfl

theorem writeMultiplePaths_of_not_mem (tree : BinaryTreeStorage) {buckets : PathData} {node : Nat}
    (absent : node ∉ buckets.map Prod.fst) :
    (tree.writeMultiplePaths buckets).storage node = tree.storage node := by
  unfold writeMultiplePaths
  induction buckets generalizing tree with
  | nil => rfl
  | cons entry rest ih =>
      simp only [List.map_cons, List.mem_cons, not_or] at absent
      rw [List.foldl_cons, ih _ absent.2]
      simp [setBucket, absent.1]

theorem writeMultiplePaths_of_mem (tree : BinaryTreeStorage) {buckets : PathData}
    (nodup : (buckets.map Prod.fst).Nodup) {node : Nat} {bucket : List Block}
    (mem : (node, bucket) ∈ buckets) :
    (tree.writeMultiplePaths buckets).storage node = bucket := by
  induction buckets generalizing tree with
  | nil => simp at mem
  | cons entry rest ih =>
      simp only [List.map_cons, List.nodup_cons] at nodup
      rcases List.mem_cons.mp mem with rfl | inRest
      · have kept := writeMultiplePaths_of_not_mem (tree.setBucket node bucket) nodup.1
        simpa [writeMultiplePaths, setBucket] using kept
      · exact ih (tree.setBucket entry.1 entry.2) nodup.2 inRest

end BinaryTreeStorage

end TieredOmap
