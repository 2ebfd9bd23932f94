import TieredOMap.Tee.EnclaveBlocks

/-!
# An ORAM of the enclave that holds nothing

An ORAM that was never given data starts without the dummies of its stash, and eviction
fills the stash up with entries that have no value at all. What still holds is that the
slots of the tree have values of the ORAM's size, and the last entry that a read appends is
such a slot, so an extraction always returns a value of the right size.
-/

namespace TieredOmap

namespace EnclaveOram

/-- Neither the tree nor the stash has a real block. -/
structure Vacant (oram : EnclaveOram) : Prop where
  level_pos : 0 < oram.level
  bucketSize_pos : 0 < oram.bucketSize
  slots : ∀ node, (oram.tree node).length = oram.bucketSize
  treeSized : ∀ node, Sized oram.valueSize (oram.tree node)
  treeEmpty : ∀ node, ∀ slot ∈ oram.tree node, slot.key = invalidKey
  stashEmpty : ∀ entry ∈ oram.stash, entry.key = invalidKey

/-- The last entry has a value of the given size. -/
def EndsSized (valueSize : Nat) (entries : List Block) : Prop :=
  ∃ front last, entries = front ++ [last] ∧ last.value.length = valueSize

theorem vacant_new (numData : Int) (valueSize : Nat) {bucketSize : Nat} (positive : 0 < bucketSize) :
    (new numData valueSize bucketSize).Vacant := by
  refine ⟨by unfold new; dsimp only; omega, positive, fun _ => List.length_replicate,
    fun _ => sized_replicate _ _, ?_, fun _ mem => by cases mem⟩
  intro node slot mem
  rw [List.eq_of_mem_replicate mem]
  rfl

section Vacant

variable {oram : EnclaveOram}

theorem EndsSized.append {valueSize : Nat} (entries : List Block) {others : List Block}
    (endsSized : EndsSized valueSize others) : EndsSized valueSize (entries ++ others) := by
  rcases endsSized with ⟨front, last, rfl, sized⟩
  exact ⟨entries ++ front, last, (List.append_assoc _ _ _).symm, sized⟩

theorem Sized.endsSized {valueSize : Nat} {entries : List Block} (sized : Sized valueSize entries)
    (nonempty : entries ≠ []) : EndsSized valueSize entries :=
  ⟨entries.dropLast, entries.getLast nonempty, (List.dropLast_append_getLast nonempty).symm,
    sized _ (List.getLast_mem nonempty)⟩

theorem Vacant.bucket_ne_nil (vacant : oram.Vacant) (node : Int) : oram.tree node ≠ [] := by
  have length_eq := vacant.slots node
  have positive := vacant.bucketSize_pos
  rw [← List.length_pos_iff]
  omega

/-- Entries without a block come to the stash. -/
theorem Vacant.withStash (vacant : oram.Vacant) {stash : List Block}
    (areDummies : ∀ entry ∈ stash, entry.key = invalidKey) :
    ({ oram with stash := stash } : EnclaveOram).Vacant :=
  ⟨vacant.level_pos, vacant.bucketSize_pos, vacant.slots, vacant.treeSized, vacant.treeEmpty,
    areDummies⟩

/-- Replacing a bucket by another one without blocks. -/
theorem Vacant.setBucket (vacant : oram.Vacant) {node : Int} {bucket : List Block}
    (length_eq : bucket.length = oram.bucketSize) (sized : Sized oram.valueSize bucket)
    (areEmpty : ∀ slot ∈ bucket, slot.key = invalidKey) : (oram.setBucket node bucket).Vacant := by
  have other : ∀ {property : List Block → Prop}, property bucket →
      (∀ node', property (oram.tree node')) →
        ∀ node', property ((oram.setBucket node bucket).tree node') := by
    intro property here elsewhere node'
    by_cases same : node' = node
    · rw [same, tree_setBucket_self]
      exact here
    · rw [tree_setBucket_of_ne _ _ same]
      exact elsewhere node'
  exact ⟨vacant.level_pos, vacant.bucketSize_pos,
    @other (fun bucket => bucket.length = oram.bucketSize) length_eq vacant.slots,
    @other (Sized oram.valueSize) sized vacant.treeSized,
    @other (fun bucket => ∀ slot ∈ bucket, slot.key = invalidKey) areEmpty vacant.treeEmpty,
    vacant.stashEmpty⟩

theorem Vacant.takeBucket (vacant : oram.Vacant) (node : Int) :
    (oram.takeBucket node).Vacant ∧ EndsSized oram.valueSize (oram.takeBucket node).stash := by
  have replaced : (oram.setBucket node
      (List.replicate oram.bucketSize (emptySlot oram.valueSize))).Vacant := by
    refine vacant.setBucket List.length_replicate (sized_replicate _ _) ?_
    intro slot mem
    rw [List.eq_of_mem_replicate mem]
    rfl
  refine ⟨replaced.withStash ?_,
    ((vacant.treeSized node).endsSized (vacant.bucket_ne_nil node)).append _⟩
  intro entry mem
  rcases List.mem_append.mp mem with inStash | inBucket
  · exact vacant.stashEmpty entry inStash
  · exact vacant.treeEmpty node entry inBucket

theorem Vacant.takeBuckets (vacant : oram.Vacant) (path : List Int) :
    (path.foldl EnclaveOram.takeBucket oram).Vacant ∧ (path ≠ [] →
      EndsSized oram.valueSize (path.foldl EnclaveOram.takeBucket oram).stash) := by
  induction path generalizing oram with
  | nil => exact ⟨vacant, fun impossible => (impossible rfl).elim⟩
  | cons head rest ih =>
      rcases vacant.takeBucket head with ⟨taken, endsSized⟩
      refine ⟨(ih taken).1, fun _ => ?_⟩
      cases rest with
      | nil => exact endsSized
      | cons node rest => exact (ih taken).2 (List.cons_ne_nil _ _)

theorem Vacant.path_ne_nil (vacant : oram.Vacant) (leaf : Int) : oram.path leaf ≠ [] := by
  have positive := vacant.level_pos
  rw [path, ← Nat.succ_pred_eq_of_pos positive]
  exact List.cons_ne_nil _ _

theorem Vacant.readPath (vacant : oram.Vacant) (leaf : Int) :
    (oram.readPath leaf).Vacant ∧ EndsSized oram.valueSize (oram.readPath leaf).stash :=
  ⟨(vacant.takeBuckets _).1, (vacant.takeBuckets _).2 (vacant.path_ne_nil leaf)⟩

/-- An extraction finds no block among dummies. -/
theorem extractLoop_dummies (key : Int) {stash : List Block} {result : Block}
    (areDummies : ∀ entry ∈ stash, entry.key = invalidKey) (isDummy : result.key = invalidKey) :
    (extractLoop key stash result).1 = stash ∧
      (extractLoop key stash result).2.key = invalidKey := by
  induction stash generalizing result with
  | nil => exact ⟨rfl, isDummy⟩
  | cons entry rest ih =>
      have noHit : (oEqual entry.key key && !oEqual entry.key invalidKey) = false := by
        simp [areDummies entry List.mem_cons_self]
      unfold extractLoop
      dsimp only
      rw [noHit]
      simp only [oMov_false]
      rcases @ih ⟨result.key, result.leaf, oMovBytes false result.value entry.value⟩
        (fun entry mem => areDummies entry (List.mem_cons_of_mem _ mem)) isDummy with ⟨same, dummy⟩
      exact ⟨by rw [same], dummy⟩

/-- What an extraction returns has the size of the last entry. -/
theorem length_extractLoop {valueSize : Nat} (key : Int) {stash : List Block} (result : Block)
    (endsSized : EndsSized valueSize stash) :
    (extractLoop key stash result).2.value.length = valueSize := by
  rcases endsSized with ⟨front, last, rfl, sized⟩
  induction front generalizing result with
  | nil => exact (length_oMovBytes _ _ _).trans sized
  | cons entry rest ih => exact ih _

/-- An extraction with nothing to find returns an empty slot's worth of bytes. -/
theorem Vacant.extractFromStash (vacant : oram.Vacant) (key : Int)
    (endsSized : EndsSized oram.valueSize oram.stash) :
    (oram.extractFromStash key).2 = oram ∧ (oram.extractFromStash key).1.key = invalidKey ∧
      (oram.extractFromStash key).1.value.length = oram.valueSize := by
  rcases extractLoop_dummies key vacant.stashEmpty (emptySlot_key oram.valueSize) with ⟨same, dummy⟩
  refine ⟨?_, dummy, length_extractLoop key _ endsSized⟩
  unfold EnclaveOram.extractFromStash
  dsimp only
  rw [same]

/-! ## Evicting -/

/-- No dummy fills a slot. -/
theorem fillSlot_dummies {valueSize : Nat} (oram : EnclaveOram) (node : Int) {stash : List Block}
    {slot : Block} {filled : Bool} (areDummies : ∀ entry ∈ stash, entry.key = invalidKey)
    (isDummy : slot.key = invalidKey) :
    (oram.fillSlot node stash slot filled).1 = stash ∧
      (oram.fillSlot node stash slot filled).2.key = invalidKey ∧
      (EndsSized valueSize stash →
        (oram.fillSlot node stash slot filled).2.value.length = valueSize) := by
  induction stash generalizing slot filled with
  | nil => exact ⟨rfl, isDummy, fun ⟨front, last, impossible, _⟩ => by simp at impossible⟩
  | cons entry rest ih =>
      have noCandidate : (!oEqual entry.key invalidKey && oram.pathContains entry.leaf node &&
          !filled) = false := by
        simp [areDummies entry List.mem_cons_self]
      unfold fillSlot
      dsimp only
      rw [noCandidate]
      simp only [oMov_false]
      rcases @ih ⟨slot.key, slot.leaf, oMovBytes false slot.value entry.value⟩ (filled || false)
        (fun entry mem => areDummies entry (List.mem_cons_of_mem _ mem)) isDummy with
        ⟨same, dummy, sized⟩
      refine ⟨by rw [same], dummy, ?_⟩
      rintro ⟨front, last, eq, lastSized⟩
      cases front with
      | nil =>
          obtain ⟨rfl, rfl⟩ : entry = last ∧ rest = [] := by simpa using eq
          exact (length_oMovBytes false slot.value entry.value).trans lastSized
      | cons first front => exact sized ⟨front, last, (List.cons.inj eq).2, lastSized⟩

theorem fillSlots_dummies {valueSize : Nat} (oram : EnclaveOram) (node : Int) {stash bucket : List Block}
    (areDummies : ∀ entry ∈ stash, entry.key = invalidKey)
    (endsSized : EndsSized valueSize stash) (areEmpty : ∀ slot ∈ bucket, slot.key = invalidKey) :
    (oram.fillSlots node stash bucket).1 = stash ∧
      (oram.fillSlots node stash bucket).2.length = bucket.length ∧
      Sized valueSize (oram.fillSlots node stash bucket).2 ∧
      ∀ slot ∈ (oram.fillSlots node stash bucket).2, slot.key = invalidKey := by
  induction bucket with
  | nil => exact ⟨rfl, rfl, fun _ mem => (List.not_mem_nil mem).elim,
      fun _ mem => (List.not_mem_nil mem).elim⟩
  | cons slot rest ih =>
      rcases @fillSlot_dummies valueSize oram node stash slot false areDummies
        (areEmpty slot List.mem_cons_self) with ⟨same, dummy, sized⟩
      rcases ih (fun slot mem => areEmpty slot (List.mem_cons_of_mem _ mem)) with
        ⟨same', length_eq, restSized, restEmpty⟩
      unfold fillSlots
      dsimp only
      rw [same]
      refine ⟨same', congrArg (· + 1) length_eq, ?_, ?_⟩
      · intro entry mem
        rcases List.mem_cons.mp mem with rfl | inRest
        · exact sized endsSized
        · exact restSized entry inRest
      · intro entry mem
        rcases List.mem_cons.mp mem with rfl | inRest
        · exact dummy
        · exact restEmpty entry inRest

theorem Vacant.fillBucket (vacant : oram.Vacant) (endsSized : EndsSized oram.valueSize oram.stash)
    (node : Int) : (oram.fillBucket node).Vacant ∧ (oram.fillBucket node).stash = oram.stash := by
  rcases fillSlots_dummies oram node vacant.stashEmpty endsSized (vacant.treeEmpty node) with
    ⟨same, length_eq, sized, areEmpty⟩
  refine ⟨(vacant.setBucket (length_eq.trans (vacant.slots node)) sized areEmpty).withStash ?_, same⟩
  rw [same]
  exact vacant.stashEmpty

theorem Vacant.fillBuckets (vacant : oram.Vacant) (endsSized : EndsSized oram.valueSize oram.stash)
    (path : List Int) : (path.foldl EnclaveOram.fillBucket oram).Vacant := by
  induction path generalizing oram with
  | nil => exact vacant
  | cons head rest ih =>
      rcases vacant.fillBucket endsSized head with ⟨filled, same⟩
      exact ih filled (same ▸ endsSized)

/-- Compaction makes no block. -/
theorem compact_dummies {stash : List Block}
    (areDummies : ∀ entry ∈ stash, entry.key = invalidKey) :
    ∀ entry ∈ compact stash, entry.key = invalidKey := by
  have simulates : ∀ left right : Block, left.key = invalidKey → right.key = invalidKey →
      ((), ()) = Prod.map (fun _ => ()) (fun _ => ()) (compactStep left right) ∧
        (compactStep left right).1.key = invalidKey ∧
          (compactStep left right).2.key = invalidKey := by
    intro left right leftDummy rightDummy
    have noSwap : (oEqual left.key invalidKey && !oEqual right.key invalidKey) = false := by
      simp [rightDummy]
    unfold compactStep
    rw [noSwap]
    exact ⟨rfl, leftDummy, rightDummy⟩
  exact (Bubble.passes_map simulates stash.length areDummies).2

theorem validCount_dummies {stash : List Block}
    (areDummies : ∀ entry ∈ stash, entry.key = invalidKey) : validCount stash = 0 := by
  have front : ∀ entry ∈ ([] : List Block), entry.key ≠ invalidKey :=
    fun _ mem => (List.not_mem_nil mem).elim
  exact validCount_append front areDummies

/-- Evicting nothing leaves nothing, and cannot overflow. -/
theorem Vacant.evictPath (vacant : oram.Vacant) (endsSized : EndsSized oram.valueSize oram.stash)
    (path : List Int) : (oram.evictPath path).1.Vacant ∧ (oram.evictPath path).2 = false := by
  have filled := vacant.fillBuckets endsSized path
  have areDummies := compact_dummies filled.stashEmpty
  unfold EnclaveOram.evictPath
  dsimp only
  rw [validCount_dummies areDummies]
  refine ⟨filled.withStash ?_, by simp⟩
  have padding : ∀ (count : Nat) (block : Block), block.key = invalidKey →
      ∀ entry ∈ List.replicate count block, entry.key = invalidKey := by
    intro count block isDummy entry mem
    rwa [List.eq_of_mem_replicate mem]
  intro entry mem
  rcases List.mem_append.mp mem with resized | padded
  · rcases List.mem_append.mp resized with kept | added
    · exact areDummies entry (List.mem_of_mem_take kept)
    · exact padding _ _ rfl entry added
  · exact padding _ _ rfl entry padded

/-- An entry without a block is added. -/
theorem Vacant.addToStash (vacant : oram.Vacant) (leaf : Int) (value : Bytes) :
    (oram.addToStash invalidKey leaf value).Vacant := by
  refine vacant.withStash ?_
  intro entry mem
  rcases List.mem_append.mp mem with old | new
  · exact vacant.stashEmpty entry old
  · rw [List.mem_singleton.mp new]

end Vacant

end EnclaveOram

end TieredOmap
