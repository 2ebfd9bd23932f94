import Mathlib.Data.Int.Interval
import TieredOMap.Oram.Conservation
import TieredOMap.Tee.EnclaveOram

/-!
# What the ORAM of the enclave holds

`Holds` says which real blocks are in the stash and in the tree, with the sizes that make
the branch-free moves plain moves: every slot has a value of the ORAM's size and every
bucket all its slots. Reading moves a path to the stash and leaves empty slots behind, and
evicting fills empty slots, so neither loses or copies a block.
-/

namespace TieredOmap

namespace EnclaveOram

/-- The real blocks among some entries. -/
def realBlocks (entries : List Block) : Multiset Block :=
  ↑(entries.filter (fun entry => !oEqual entry.key invalidKey))

section RealBlocks

variable {entry : Block} {entries others : List Block}

theorem realBlocks_cons_real (isReal : entry.key ≠ invalidKey) :
    realBlocks (entry :: entries) = entry ::ₘ realBlocks entries := by
  rw [realBlocks, List.filter_cons_of_pos (by simpa using isReal)]
  rfl

theorem realBlocks_cons_dummy (isDummy : entry.key = invalidKey) :
    realBlocks (entry :: entries) = realBlocks entries := by
  rw [realBlocks, List.filter_cons_of_neg (by simpa using isDummy)]
  rfl

@[simp]
theorem realBlocks_append (entries others : List Block) :
    realBlocks (entries ++ others) = realBlocks entries + realBlocks others := by
  rw [realBlocks, List.filter_append]
  rfl

theorem realBlocks_perm (perm : entries.Perm others) : realBlocks entries = realBlocks others :=
  Multiset.coe_eq_coe.mpr (perm.filter _)

theorem realBlocks_dummies (areDummies : ∀ entry ∈ entries, entry.key = invalidKey) :
    realBlocks entries = 0 := by
  have none : entries.filter (fun entry => !oEqual entry.key invalidKey) = [] := by
    refine List.filter_eq_nil_iff.mpr ?_
    intro entry mem
    simp [areDummies entry mem]
  rw [realBlocks, none]
  rfl

theorem mem_realBlocks : entry ∈ realBlocks entries ↔ entry ∈ entries ∧ entry.key ≠ invalidKey := by
  rw [realBlocks, Multiset.mem_coe, List.mem_filter]
  simp

end RealBlocks

/-- The nodes of the tree. -/
def nodes (oram : EnclaveOram) : Finset Int :=
  (Finset.range (2 ^ oram.level - 1)).image (fun node : Nat => (node : Int))

/-- The real blocks in the stash and in the tree. -/
def blocks (oram : EnclaveOram) : Multiset Block :=
  realBlocks oram.stash + ∑ node ∈ oram.nodes, realBlocks (oram.tree node)

/-- Every entry has a value of one size. -/
def Sized (valueSize : Nat) (entries : List Block) : Prop :=
  ∀ entry ∈ entries, entry.value.length = valueSize

/-- The parameters of an ORAM never change. -/
structure Alike (oram oram' : EnclaveOram) : Prop where
  valueSize : oram'.valueSize = oram.valueSize
  bucketSize : oram'.bucketSize = oram.bucketSize
  level : oram'.level = oram.level
  stashMax : oram'.stashMax = oram.stashMax

namespace Alike

variable {oram oram' oram'' : EnclaveOram}

theorem refl (oram : EnclaveOram) : Alike oram oram := ⟨rfl, rfl, rfl, rfl⟩

theorem trans (first : Alike oram oram') (second : Alike oram' oram'') : Alike oram oram'' :=
  ⟨second.valueSize.trans first.valueSize, second.bucketSize.trans first.bucketSize,
    second.level.trans first.level, second.stashMax.trans first.stashMax⟩

theorem leafToNode (alike : Alike oram oram') (leaf : Int) :
    oram'.leafToNode leaf = oram.leafToNode leaf := by
  rw [EnclaveOram.leafToNode, leafRange, alike.level]
  rfl

theorem path (alike : Alike oram oram') (leaf : Int) : oram'.path leaf = oram.path leaf := by
  rw [EnclaveOram.path, alike.leafToNode, alike.level]
  rfl

theorem pathContains (alike : Alike oram oram') (leaf node : Int) :
    oram'.pathContains leaf node = oram.pathContains leaf node := by
  rw [EnclaveOram.pathContains, alike.leafToNode, alike.level]
  rfl

theorem nodes (alike : Alike oram oram') : oram'.nodes = oram.nodes := by
  rw [EnclaveOram.nodes, alike.level]
  rfl

end Alike

/-- The ORAM holds exactly `held`. -/
structure Holds (oram : EnclaveOram) (held : Multiset Block) : Prop where
  level_pos : 0 < oram.level
  blocks_eq : oram.blocks = held
  sized : Sized oram.valueSize oram.stash
  treeSized : ∀ node ∈ oram.nodes, Sized oram.valueSize (oram.tree node)
  slots : ∀ node ∈ oram.nodes, (oram.tree node).length = oram.bucketSize
  placed : ∀ node ∈ oram.nodes, ∀ block ∈ realBlocks (oram.tree node),
    oram.pathContains block.leaf node = true

/-- The slots of some nodes are empty. -/
def Emptied (oram : EnclaveOram) (path : List Int) : Prop :=
  ∀ node ∈ path, ∀ slot ∈ oram.tree node, slot.key = invalidKey

/-! ## Geometry -/

theorem nodesUp_cons (count : Nat) (node : Int) : nodesUp (count + 1) node =
    node :: if node = 0 then [] else nodesUp count (parent node) := rfl

theorem nodesUp_le {count : Nat} {node node' : Int} (nonneg : 0 ≤ node)
    (mem : node' ∈ nodesUp count node) : 0 ≤ node' ∧ node' ≤ node := by
  induction count generalizing node with
  | zero => cases mem
  | succ count ih =>
      rw [nodesUp_cons, List.mem_cons] at mem
      rcases mem with rfl | above
      · exact ⟨nonneg, le_refl _⟩
      · split at above
        · cases above
        · have inside := ih (by unfold parent; omega) above
          unfold parent at inside
          omega

/-- A path goes strictly upwards. -/
theorem nodup_nodesUp {count : Nat} {node : Int} (nonneg : 0 ≤ node) :
    (nodesUp count node).Nodup := by
  induction count generalizing node with
  | zero => exact List.nodup_nil
  | succ count ih =>
      rw [nodesUp_cons]
      split
      · exact List.nodup_singleton _
      · refine List.nodup_cons.mpr ⟨?_, ih (by unfold parent; omega)⟩
        intro above
        have le := (nodesUp_le (by unfold parent; omega) above).2
        unfold parent at le
        omega

/-- The branch-free test is membership in the path. -/
theorem containsUp_iff {count : Nat} {cur node : Int} (nonneg : 0 ≤ cur) :
    containsUp count cur node = true ↔ node ∈ nodesUp count cur := by
  induction count generalizing cur with
  | zero => simp [containsUp, nodesUp]
  | succ count ih =>
      rw [containsUp, nodesUp_cons, Bool.or_eq_true, List.mem_cons]
      by_cases isRoot : cur = 0
      · subst isRoot
        -- Above the root the walk stays there.
        have stays : ∀ count, containsUp count 0 node = true → node = 0 := by
          intro count
          induction count with
          | zero => simp [containsUp]
          | succ count ih =>
              rw [containsUp, Bool.or_eq_true]
              rintro (here | above)
              · simpa [eq_comm] using here
              · exact ih above
        simp only [oEqual_eq, decide_eq_true_eq, lt_irrefl, if_false, if_true, List.not_mem_nil,
          or_false]
        constructor
        · rintro (here | above)
          · exact here.symm
          · exact stays count above
        · exact fun isRoot => Or.inl isRoot.symm
      · have positive : 0 < cur := by omega
        rw [if_pos positive, if_neg isRoot, ih (by unfold parent; omega)]
        simp [eq_comm]

section Geometry

variable {oram : EnclaveOram} {leaf node : Int}

theorem leafToNode_nonneg (isLeaf : IsLeaf oram.level leaf) : 0 ≤ oram.leafToNode leaf := by
  have positive : 0 < oram.leafRange := Nat.two_pow_pos _
  have nonneg := isLeaf.1
  unfold leafToNode
  omega

theorem pathContains_iff (isLeaf : IsLeaf oram.level leaf) :
    oram.pathContains leaf node = true ↔ node ∈ oram.path leaf :=
  containsUp_iff (leafToNode_nonneg isLeaf)

theorem path_subset (levelPos : 0 < oram.level) (isLeaf : IsLeaf oram.level leaf) :
    ∀ node ∈ oram.path leaf, node ∈ oram.nodes := by
  intro node mem
  have inside := nodesUp_le (leafToNode_nonneg isLeaf) mem
  have doubled : (2 : Int) ^ oram.level = 2 * 2 ^ (oram.level - 1) := by
    rw [← pow_succ', Nat.sub_add_cancel levelPos]
  have rangeEq : (oram.leafRange : Int) = 2 ^ (oram.level - 1) := by simp [leafRange]
  have upper := isLeaf.2
  unfold leafToNode at inside
  have nonneg := inside.1
  have below : node.toNat < 2 ^ oram.level - 1 := by
    have cast : ((2 ^ oram.level : Nat) : Int) = 2 ^ oram.level := by simp
    omega
  exact Finset.mem_image.mpr ⟨node.toNat, Finset.mem_range.mpr below, Int.toNat_of_nonneg nonneg⟩

theorem nodup_path (isLeaf : IsLeaf oram.level leaf) : (oram.path leaf).Nodup :=
  nodup_nodesUp (leafToNode_nonneg isLeaf)

end Geometry

/-! ## Reading a path -/

section Tree

variable {oram : EnclaveOram} {held : Multiset Block} {node : Int} {leaf : Int}

@[simp]
theorem tree_setBucket_self (oram : EnclaveOram) (node : Int) (bucket : List Block) :
    (oram.setBucket node bucket).tree node = bucket := if_pos rfl

theorem tree_setBucket_of_ne (oram : EnclaveOram) {node node' : Int} (bucket : List Block)
    (differs : node' ≠ node) : (oram.setBucket node bucket).tree node' = oram.tree node' :=
  if_neg differs

/-- The blocks after one bucket has changed. -/
theorem sum_setBucket (mem : node ∈ oram.nodes) (bucket : List Block) :
    ∑ node' ∈ oram.nodes, realBlocks ((oram.setBucket node bucket).tree node') +
        realBlocks (oram.tree node) =
      ∑ node' ∈ oram.nodes, realBlocks (oram.tree node') + realBlocks bucket := by
  rw [← Finset.add_sum_erase _ _ mem, ← Finset.add_sum_erase oram.nodes
    (fun node' => realBlocks (oram.tree node')) mem, tree_setBucket_self]
  have rest : ∑ node' ∈ oram.nodes.erase node,
      realBlocks ((oram.setBucket node bucket).tree node') =
        ∑ node' ∈ oram.nodes.erase node, realBlocks (oram.tree node') := by
    refine Finset.sum_congr rfl ?_
    intro node' mem'
    rw [tree_setBucket_of_ne _ _ (Finset.ne_of_mem_erase mem')]
  rw [rest]
  abel

theorem emptySlot_key (valueSize : Nat) : (emptySlot valueSize).key = invalidKey := rfl

theorem length_emptySlot (valueSize : Nat) : (emptySlot valueSize).value.length = valueSize :=
  List.length_replicate

theorem realBlocks_replicate (count valueSize : Nat) :
    realBlocks (List.replicate count (emptySlot valueSize)) = 0 := by
  refine realBlocks_dummies ?_
  intro entry mem
  rw [List.eq_of_mem_replicate mem]
  rfl

theorem sized_replicate (count valueSize : Nat) :
    Sized valueSize (List.replicate count (emptySlot valueSize)) := by
  intro entry mem
  rw [List.eq_of_mem_replicate mem, length_emptySlot]

theorem Sized.append {valueSize : Nat} {entries others : List Block}
    (sized : Sized valueSize entries) (othersSized : Sized valueSize others) :
    Sized valueSize (entries ++ others) := by
  intro entry mem
  rcases List.mem_append.mp mem with inFirst | inSecond
  · exact sized entry inFirst
  · exact othersSized entry inSecond

/-- Taking a bucket moves its blocks to the stash. -/
theorem Holds.takeBucket (holds : oram.Holds held) (mem : node ∈ oram.nodes) :
    (oram.takeBucket node).Holds held := by
  refine ⟨holds.level_pos, ?_, ?_, ?_, ?_, ?_⟩
  · have moved := sum_setBucket mem (List.replicate oram.bucketSize (emptySlot oram.valueSize))
    rw [realBlocks_replicate, add_zero] at moved
    rw [← holds.blocks_eq]
    change realBlocks (oram.stash ++ oram.tree node) + _ = realBlocks oram.stash + _
    rw [realBlocks_append, ← moved]
    change _ + ∑ node' ∈ oram.nodes, _ = _
    abel
  · exact holds.sized.append (holds.treeSized node mem)
  · intro node' mem'
    change Sized oram.valueSize ((oram.setBucket node _).tree node')
    by_cases same : node' = node
    · rw [same, tree_setBucket_self]
      exact sized_replicate _ _
    · rw [tree_setBucket_of_ne _ _ same]
      exact holds.treeSized node' mem'
  · intro node' mem'
    change ((oram.setBucket node _).tree node').length = oram.bucketSize
    by_cases same : node' = node
    · rw [same, tree_setBucket_self]
      exact List.length_replicate
    · rw [tree_setBucket_of_ne _ _ same]
      exact holds.slots node' mem'
  · intro node' mem'
    change ∀ block ∈ realBlocks ((oram.setBucket node _).tree node'), oram.pathContains _ _ = true
    by_cases same : node' = node
    · rw [same, tree_setBucket_self, realBlocks_replicate]
      exact fun block mem => (Multiset.notMem_zero _ mem).elim
    · rw [tree_setBucket_of_ne _ _ same]
      exact holds.placed node' mem'

/-- What reading some nodes leaves behind. -/
theorem Holds.takeBuckets (holds : oram.Holds held) {path : List Int}
    (inside : ∀ node ∈ path, node ∈ oram.nodes) :
    (path.foldl EnclaveOram.takeBucket oram).Holds held ∧
      (path.foldl EnclaveOram.takeBucket oram).Emptied path ∧
      Alike oram (path.foldl EnclaveOram.takeBucket oram) ∧
      ∀ node, node ∉ path → (path.foldl EnclaveOram.takeBucket oram).tree node = oram.tree node := by
  induction path generalizing oram with
  | nil => exact ⟨holds, fun node mem => (List.not_mem_nil mem).elim, Alike.refl _,
      fun _ _ => rfl⟩
  | cons head rest ih =>
      have headMem := inside head List.mem_cons_self
      rcases ih (holds.takeBucket headMem)
        (fun node mem => inside node (List.mem_cons_of_mem _ mem)) with ⟨holds', emptied, alike, frame⟩
      have taken : Alike oram (oram.takeBucket head) := ⟨rfl, rfl, rfl, rfl⟩
      rw [List.foldl_cons]
      refine ⟨holds', ?_, taken.trans alike, ?_⟩
      · intro node mem
        by_cases again : node ∈ rest
        · exact emptied node again
        obtain rfl : node = head := (List.mem_cons.mp mem).resolve_right again
        rw [frame node again]
        change ∀ slot ∈ (oram.setBucket node _).tree node, slot.key = invalidKey
        rw [tree_setBucket_self]
        intro slot slotMem
        rw [List.eq_of_mem_replicate slotMem]
        rfl
      · intro node notMem
        rw [List.mem_cons, not_or] at notMem
        rw [frame node notMem.2]
        exact tree_setBucket_of_ne _ _ notMem.1

theorem alike_takeBuckets (path : List Int) (oram : EnclaveOram) :
    Alike oram (path.foldl EnclaveOram.takeBucket oram) := by
  induction path generalizing oram with
  | nil => exact Alike.refl _
  | cons head rest ih =>
      have taken : Alike oram (oram.takeBucket head) := ⟨rfl, rfl, rfl, rfl⟩
      exact taken.trans (ih _)

/-- Reading a path moves the blocks on it to the stash. -/
theorem Holds.readPath (holds : oram.Holds held) (isLeaf : IsLeaf oram.level leaf) :
    (oram.readPath leaf).Holds held ∧ (oram.readPath leaf).Emptied (oram.path leaf) ∧
      Alike oram (oram.readPath leaf) := by
  rcases holds.takeBuckets (path_subset holds.level_pos isLeaf) with ⟨holds', emptied, alike, _⟩
  exact ⟨holds', emptied, alike⟩

/-- While a path is empty, the blocks with its leaf are in the stash. -/
theorem Holds.mem_stash (holds : oram.Holds held) (emptied : oram.Emptied (oram.path leaf))
    (isLeaf : IsLeaf oram.level leaf) {block : Block} (mem : block ∈ held)
    (itsLeaf : block.leaf = leaf) : block ∈ oram.stash := by
  rw [← holds.blocks_eq, blocks, Multiset.mem_add, Multiset.mem_sum] at mem
  rcases mem with inStash | ⟨node, nodeMem, inBucket⟩
  · exact (mem_realBlocks.mp inStash).1
  · have onPath := holds.placed node nodeMem block inBucket
    rw [itsLeaf, pathContains_iff isLeaf] at onPath
    rcases mem_realBlocks.mp inBucket with ⟨slotMem, isReal⟩
    exact (isReal (emptied node onPath block slotMem)).elim

end Tree

/-! ## Filling a path -/

section Fill

variable {oram : EnclaveOram} {held : Multiset Block} {node : Int}

/-- A filled slot is left alone. -/
theorem fillSlot_filled (oram : EnclaveOram) (node : Int) {stash : List Block} {slot : Block}
    (sized : Sized slot.value.length stash) :
    oram.fillSlot node stash slot true = (stash, slot) := by
  induction stash with
  | nil => rfl
  | cons entry rest ih =>
      have entrySized := sized entry List.mem_cons_self
      have restSized : Sized slot.value.length rest :=
        fun entry mem => sized entry (List.mem_cons_of_mem _ mem)
      unfold fillSlot
      simp only [Bool.not_true, Bool.and_false, oMov_false, Bool.or_false,
        oMovBytes_of_length entrySized.symm]
      rw [ih restSized]

/-- An empty slot takes the first real block that may be there, if there is one. -/
theorem fillSlot_empty (oram : EnclaveOram) (node : Int) {stash : List Block} {slot : Block}
    (sized : Sized slot.value.length stash) (isEmpty : slot.key = invalidKey) :
    Sized slot.value.length (oram.fillSlot node stash slot false).1 ∧
      (oram.fillSlot node stash slot false).2.value.length = slot.value.length ∧
      realBlocks stash = realBlocks (oram.fillSlot node stash slot false).1 +
        realBlocks [(oram.fillSlot node stash slot false).2] ∧
      ((oram.fillSlot node stash slot false).2.key ≠ invalidKey →
        oram.pathContains (oram.fillSlot node stash slot false).2.leaf node = true) := by
  induction stash with
  | nil =>
      refine ⟨sized, rfl, ?_, fun isReal => (isReal isEmpty).elim⟩
      change realBlocks [] = realBlocks [] + realBlocks [slot]
      rw [realBlocks_cons_dummy isEmpty]
      rfl
  | cons entry rest ih =>
      have entrySized := sized entry List.mem_cons_self
      have restSized : Sized slot.value.length rest :=
        fun entry mem => sized entry (List.mem_cons_of_mem _ mem)
      unfold fillSlot
      simp only [Bool.not_false, Bool.and_true, Bool.false_or,
        oMovBytes_of_length entrySized.symm]
      by_cases candidate : (!oEqual entry.key invalidKey && oram.pathContains entry.leaf node) = true
      · have isReal : entry.key ≠ invalidKey := by
          simp only [Bool.and_eq_true] at candidate
          simpa using candidate.1
        have filled : oram.fillSlot node rest entry true = (rest, entry) :=
          fillSlot_filled oram node (entrySized ▸ restSized)
        rw [candidate]
        simp only [oMov_true]
        rw [show oram.fillSlot node rest ⟨entry.key, entry.leaf, entry.value⟩ true = (rest, entry)
          from filled]
        refine ⟨?_, entrySized, ?_, fun _ => ?_⟩
        · intro entry' mem
          rcases List.mem_cons.mp mem with rfl | inRest
          · exact entrySized
          · exact restSized entry' inRest
        · rw [realBlocks_cons_real isReal, realBlocks_cons_dummy rfl, realBlocks_cons_real isReal,
            ← Multiset.singleton_add, add_comm]
          rfl
        · simp only [Bool.and_eq_true] at candidate
          exact candidate.2
      · rw [Bool.not_eq_true] at candidate
        rw [candidate]
        simp only [oMov_false]
        rcases ih restSized with ⟨sized', slotSized, conserved, onPath⟩
        refine ⟨?_, slotSized, ?_, onPath⟩
        · intro entry' mem
          rcases List.mem_cons.mp mem with rfl | inRest
          · exact entrySized
          · exact sized' entry' inRest
        · by_cases isReal : entry.key = invalidKey
          · rw [realBlocks_cons_dummy isReal, realBlocks_cons_dummy isReal]
            exact conserved
          · rw [realBlocks_cons_real isReal, realBlocks_cons_real isReal, Multiset.cons_add]
            exact congrArg (entry ::ₘ ·) conserved

/-- Filling empty slots moves blocks from the stash to them. -/
theorem fillSlots_empty (oram : EnclaveOram) (node : Int) {valueSize : Nat}
    {stash bucket : List Block} (sized : Sized valueSize stash)
    (bucketSized : Sized valueSize bucket) (areEmpty : ∀ slot ∈ bucket, slot.key = invalidKey) :
    (oram.fillSlots node stash bucket).2.length = bucket.length ∧
      Sized valueSize (oram.fillSlots node stash bucket).1 ∧
      Sized valueSize (oram.fillSlots node stash bucket).2 ∧
      realBlocks stash = realBlocks (oram.fillSlots node stash bucket).1 +
        realBlocks (oram.fillSlots node stash bucket).2 ∧
      ∀ block ∈ realBlocks (oram.fillSlots node stash bucket).2,
        oram.pathContains block.leaf node = true := by
  induction bucket generalizing stash with
  | nil =>
      exact ⟨rfl, sized, bucketSized, (add_zero _).symm,
        fun block mem => (Multiset.notMem_zero _ mem).elim⟩
  | cons slot rest ih =>
      have slotSized := bucketSized slot List.mem_cons_self
      rcases fillSlot_empty oram node (slotSized.symm ▸ sized) (areEmpty slot List.mem_cons_self) with
        ⟨sized', slotSized', conserved, onPath⟩
      unfold fillSlots
      dsimp only
      generalize oram.fillSlot node stash slot false = filled at *
      rw [slotSized] at sized' slotSized'
      rcases ih sized' (fun slot mem => bucketSized slot (List.mem_cons_of_mem _ mem))
        (fun slot mem => areEmpty slot (List.mem_cons_of_mem _ mem)) with
        ⟨bucketLength, sized'', restSized, conserved', restOnPath⟩
      have split : realBlocks (filled.2 :: (oram.fillSlots node filled.1 rest).2) =
          realBlocks [filled.2] + realBlocks (oram.fillSlots node filled.1 rest).2 :=
        realBlocks_append [filled.2] _
      refine ⟨congrArg (· + 1) bucketLength, sized'', ?_, ?_, ?_⟩
      · intro entry mem
        rcases List.mem_cons.mp mem with rfl | inRest
        · exact slotSized'
        · exact restSized entry inRest
      · rw [split, conserved, conserved']
        abel
      · intro block mem
        rw [split, Multiset.mem_add] at mem
        rcases mem with here | inRest
        · rcases mem_realBlocks.mp here with ⟨same, isReal⟩
          obtain rfl := List.mem_singleton.mp same
          exact onPath isReal
        · exact restOnPath block inRest

/-- Filling the empty bucket of a node. -/
theorem Holds.fillBucket (holds : oram.Holds held) (mem : node ∈ oram.nodes)
    (areEmpty : ∀ slot ∈ oram.tree node, slot.key = invalidKey) :
    (oram.fillBucket node).Holds held := by
  rcases fillSlots_empty oram node holds.sized (holds.treeSized node mem) areEmpty with
    ⟨bucketLength, sized, bucketSized, conserved, onPath⟩
  have moved := sum_setBucket mem (oram.fillSlots node oram.stash (oram.tree node)).2
  rw [realBlocks_dummies areEmpty, add_zero] at moved
  refine ⟨holds.level_pos, ?_, sized, ?_, ?_, ?_⟩
  · rw [← holds.blocks_eq]
    change realBlocks (oram.fillSlots node oram.stash (oram.tree node)).1 +
      ∑ node' ∈ oram.nodes, realBlocks ((oram.setBucket node _).tree node') = _
    rw [moved, blocks, conserved]
    abel
  · intro node' mem'
    change Sized oram.valueSize ((oram.setBucket node _).tree node')
    by_cases same : node' = node
    · rw [same, tree_setBucket_self]
      exact bucketSized
    · rw [tree_setBucket_of_ne _ _ same]
      exact holds.treeSized node' mem'
  · intro node' mem'
    change ((oram.setBucket node _).tree node').length = oram.bucketSize
    by_cases same : node' = node
    · rw [same, tree_setBucket_self, bucketLength]
      exact holds.slots node mem
    · rw [tree_setBucket_of_ne _ _ same]
      exact holds.slots node' mem'
  · intro node' mem'
    change ∀ block ∈ realBlocks ((oram.setBucket node _).tree node'), oram.pathContains _ _ = true
    by_cases same : node' = node
    · rw [same, tree_setBucket_self]
      exact onPath
    · rw [tree_setBucket_of_ne _ _ same]
      exact holds.placed node' mem'

/-- Filling the empty buckets of different nodes. -/
theorem Holds.fillBuckets (holds : oram.Holds held) {path : List Int} (nodup : path.Nodup)
    (inside : ∀ node ∈ path, node ∈ oram.nodes) (emptied : oram.Emptied path) :
    (path.foldl EnclaveOram.fillBucket oram).Holds held ∧
      Alike oram (path.foldl EnclaveOram.fillBucket oram) := by
  induction path generalizing oram with
  | nil => exact ⟨holds, Alike.refl _⟩
  | cons head rest ih =>
      rcases List.nodup_cons.mp nodup with ⟨notAgain, restNodup⟩
      have headMem := inside head List.mem_cons_self
      have filled : Alike oram (oram.fillBucket head) := ⟨rfl, rfl, rfl, rfl⟩
      have restEmptied : (oram.fillBucket head).Emptied rest := by
        intro node mem
        have differs : node ≠ head := fun same => notAgain (same ▸ mem)
        change ∀ slot ∈ (oram.setBucket head _).tree node, slot.key = invalidKey
        rw [tree_setBucket_of_ne _ _ differs]
        exact emptied node (List.mem_cons_of_mem _ mem)
      rcases ih (holds.fillBucket headMem (emptied head List.mem_cons_self)) restNodup
        (fun node mem => inside node (List.mem_cons_of_mem _ mem)) restEmptied with ⟨holds', alike⟩
      exact ⟨holds', filled.trans alike⟩

theorem length_fillSlot (oram : EnclaveOram) (node : Int) (stash : List Block) (slot : Block)
    (filled : Bool) : (oram.fillSlot node stash slot filled).1.length = stash.length := by
  induction stash generalizing slot filled with
  | nil => rfl
  | cons entry rest ih => exact congrArg (· + 1) (ih _ _)

theorem length_fillSlots (oram : EnclaveOram) (node : Int) (stash bucket : List Block) :
    (oram.fillSlots node stash bucket).1.length = stash.length := by
  induction bucket generalizing stash with
  | nil => rfl
  | cons slot rest ih => exact (ih _).trans (length_fillSlot oram node stash slot false)

theorem length_fillBuckets (path : List Int) (oram : EnclaveOram) :
    (path.foldl EnclaveOram.fillBucket oram).stash.length = oram.stash.length := by
  induction path generalizing oram with
  | nil => rfl
  | cons head rest ih => exact (ih _).trans (length_fillSlots oram head oram.stash _)

theorem alike_fillBuckets (path : List Int) (oram : EnclaveOram) :
    Alike oram (path.foldl EnclaveOram.fillBucket oram) := by
  induction path generalizing oram with
  | nil => exact Alike.refl _
  | cons head rest ih =>
      have filled : Alike oram (oram.fillBucket head) := ⟨rfl, rfl, rfl, rfl⟩
      exact filled.trans (ih _)

end Fill

/-! ## Compaction -/

section Compact

variable {oram : EnclaveOram} {held : Multiset Block} {leaf : Int}

theorem compactStep_eq {valueSize : Nat} (left right : Block)
    (leftSized : left.value.length = valueSize) (rightSized : right.value.length = valueSize) :
    compactStep left right =
      Bubble.swapOut (fun entry => !oEqual entry.key invalidKey) left right := by
  have sameSize : left.value.length = right.value.length := leftSized.trans rightSized.symm
  unfold compactStep Bubble.swapOut
  dsimp only
  rw [oSwapBytes_of_length sameSize, Bool.not_not]
  split
  · rename_i swaps
    simp only [oSwap, if_pos swaps]
  · rename_i keeps
    simp only [oSwap, if_neg keeps]

/-- Compaction brings the real blocks to the front. -/
theorem compact_spec {valueSize : Nat} {stash : List Block} (sized : Sized valueSize stash) :
    ∃ front back, compact stash = front ++ back ∧ (front ++ back).Perm stash ∧
      (∀ entry ∈ front, entry.key ≠ invalidKey) ∧ ∀ entry ∈ back, entry.key = invalidKey := by
  have isSwaps : compact stash = (Bubble.pass (Bubble.swapOut
      (fun entry : Block => !oEqual entry.key invalidKey)))^[stash.length] stash :=
    Bubble.passes_congr compactStep_eq stash.length sized
  have perm := Bubble.perm_passes (fun entry : Block => !oEqual entry.key invalidKey) stash.length
    stash
  rcases @Bubble.passes_length Block (fun entry => !oEqual entry.key invalidKey) stash with
    ⟨front, back, eq, areReal, areDummies⟩
  refine ⟨front, back, isSwaps.trans eq, eq ▸ perm, ?_, ?_⟩
  · exact fun entry mem => by simpa using areReal entry mem
  · exact fun entry mem => by simpa using areDummies entry mem

theorem validCount_append {front back : List Block}
    (areReal : ∀ entry ∈ front, entry.key ≠ invalidKey)
    (areDummies : ∀ entry ∈ back, entry.key = invalidKey) :
    validCount (front ++ back) = front.length := by
  have all : front.filter (fun entry => !oEqual entry.key invalidKey) = front :=
    List.filter_eq_self.mpr (fun entry mem => by simpa using areReal entry mem)
  have none : back.filter (fun entry => !oEqual entry.key invalidKey) = [] :=
    List.filter_eq_nil_iff.mpr (fun entry mem => by simpa using areDummies entry mem)
  rw [validCount, List.filter_append, all, none, List.append_nil]

theorem padStash_of_le (le : oram.stashMax ≤ oram.stash.length) : oram.padStash = oram := by
  rw [padStash, Nat.sub_eq_zero_of_le le, List.replicate_zero, List.append_nil]

/-- Cutting off the compacted stash loses no real block. -/
theorem Holds.cutOff (holds : oram.Holds held) (full : oram.stashMax ≤ oram.stash.length) :
    (EnclaveOram.padStash { oram with
      stash := resizeStash (compact oram.stash)
        (max (validCount (compact oram.stash)) oram.stashMax) }).Holds held ∧
      validCount (compact oram.stash) = (realBlocks oram.stash).card := by
  rcases compact_spec holds.sized with ⟨front, back, eq, perm, areReal, areDummies⟩
  have count : validCount (compact oram.stash) = front.length := by
    rw [eq, validCount_append areReal areDummies]
  have sameLength : front.length + back.length = oram.stash.length := by
    rw [← List.length_append]
    exact perm.length_eq
  have allReal : realBlocks front = ↑front := by
    rw [realBlocks, List.filter_eq_self.mpr (fun entry mem => by simpa using areReal entry mem)]
  have sameBlocks : realBlocks oram.stash = ↑front := by
    rw [← realBlocks_perm perm, realBlocks_append, realBlocks_dummies areDummies, add_zero, allReal]
  have shorter : max front.length oram.stashMax - (front.length + back.length) = 0 := by omega
  have resized : resizeStash (compact oram.stash) (max (validCount (compact oram.stash))
      oram.stashMax) = front ++ back.take (max front.length oram.stashMax - front.length) := by
    rw [count, eq, resizeStash, List.take_append, List.take_of_length_le (le_max_left _ _),
      List.length_append, shorter, List.replicate_zero, List.append_nil]
  have newLength : (front ++ back.take (max front.length oram.stashMax - front.length)).length =
      max front.length oram.stashMax := by
    rw [List.length_append, List.length_take]
    omega
  rw [resized]
  refine ⟨?_, by rw [count, sameBlocks, Multiset.coe_card]⟩
  rw [padStash_of_le (by rw [newLength]; exact le_max_right _ _)]
  refine ⟨holds.level_pos, ?_, ?_, holds.treeSized, holds.slots, holds.placed⟩
  · rw [← holds.blocks_eq]
    change realBlocks (front ++ _) + ∑ node ∈ oram.nodes, _ = realBlocks oram.stash + _
    rw [realBlocks_append, allReal, sameBlocks, realBlocks_dummies, add_zero]
    exact fun entry mem => areDummies entry (List.mem_of_mem_take mem)
  · intro entry mem
    refine holds.sized entry (perm.mem_iff.mp ?_)
    rcases List.mem_append.mp mem with inFront | inBack
    · exact List.mem_append_left _ inFront
    · exact List.mem_append_right _ (List.mem_of_mem_take inBack)

theorem length_resizeStash (stash : List Block) (size : Nat) :
    (resizeStash stash size).length = size := by
  rw [resizeStash, List.length_append, List.length_take, List.length_replicate]
  omega

/-- The stash after an eviction has its size, or as many entries as it has real blocks. -/
theorem length_evictPath_stash (oram : EnclaveOram) (path : List Int) :
    oram.stashMax ≤ (oram.evictPath path).1.stash.length ∧ ((oram.evictPath path).2 = false →
      (oram.evictPath path).1.stash.length = oram.stashMax) := by
  have alike := alike_fillBuckets path oram
  unfold evictPath
  dsimp only
  generalize path.foldl EnclaveOram.fillBucket oram = filled at *
  rw [padStash_of_le ((le_max_right _ _).trans (length_resizeStash _ _).ge), ← alike.stashMax]
  refine ⟨(le_max_right _ _).trans (length_resizeStash _ _).ge, fun fits => ?_⟩
  have noMore : validCount (compact filled.stash) ≤ filled.stashMax := by simpa using fits
  rw [max_eq_right noMore]
  exact length_resizeStash _ _

/-- Evicting along an empty path loses no block, even if it overflows. -/
theorem Holds.evictPath (holds : oram.Holds held) (isLeaf : IsLeaf oram.level leaf)
    (emptied : oram.Emptied (oram.path leaf)) (full : oram.stashMax ≤ oram.stash.length) :
    (oram.evictPath (oram.path leaf)).1.Holds held ∧
      Alike oram (oram.evictPath (oram.path leaf)).1 := by
  rcases holds.fillBuckets (nodup_path isLeaf) (path_subset holds.level_pos isLeaf) emptied with
    ⟨holds', alike⟩
  have full' : ((oram.path leaf).foldl EnclaveOram.fillBucket oram).stashMax ≤
      ((oram.path leaf).foldl EnclaveOram.fillBucket oram).stash.length := by
    rw [alike.stashMax, length_fillBuckets]
    exact full
  exact ⟨(holds'.cutOff full').1, alike.trans ⟨rfl, rfl, rfl, rfl⟩⟩

end Compact

end EnclaveOram

end TieredOmap
