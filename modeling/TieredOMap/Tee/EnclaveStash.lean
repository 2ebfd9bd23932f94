import TieredOMap.Tee.EnclaveBlocks

/-!
# What the scans of the stash do

The branch-free scans of `access_or_dummy`, `extract_from_stash` and `init`, over an ORAM
whose values have one size: a scan changes the one entry with the key, if it is there, and
touches no other.
-/

namespace TieredOmap

namespace EnclaveOram

theorem realBlocks_cons (entry : Block) (entries : List Block) :
    realBlocks (entry :: entries) = realBlocks [entry] + realBlocks entries :=
  realBlocks_append [entry] entries

theorem realBlocks_singleton {entry : Block} (isReal : entry.key ≠ invalidKey) :
    realBlocks [entry] = {entry} := realBlocks_cons_real isReal

/-! ## The scan of an access -/

section Access

variable {key newLeaf : Int} {hasNew : Bool} {paddedNew : Bytes} {valueSize : Nat}
  {stash : List Block} {result : Bytes}

/-- The block an access leaves for a block. -/
def accessed (newLeaf : Int) (hasNew : Bool) (paddedNew : Bytes) (block : Block) : Block :=
  { block with leaf := newLeaf, value := if hasNew then paddedNew else block.value }

/-- Without a hit an access changes nothing. -/
theorem accessStash_miss {real : Bool} (sized : Sized valueSize stash)
    (newSized : paddedNew.length = valueSize) (resultSized : result.length = valueSize)
    (misses : ∀ entry ∈ stash, real = true → entry.key ≠ key) :
    accessStash key newLeaf real hasNew paddedNew stash result = (stash, result) := by
  induction stash with
  | nil => rfl
  | cons entry rest ih =>
      have entrySized := sized entry List.mem_cons_self
      have noHit : (real && oEqual entry.key key) = false := by
        have miss := misses entry List.mem_cons_self
        cases real with
        | false => rfl
        | true => simpa using miss rfl
      unfold accessStash
      dsimp only
      rw [noHit, oMovBytes_of_length (resultSized.trans entrySized.symm),
        oMovBytes_of_length (entrySized.trans newSized.symm)]
      simp only [Bool.false_and, oMov_false]
      rw [ih (fun entry mem => sized entry (List.mem_cons_of_mem _ mem))
        (fun entry mem => misses entry (List.mem_cons_of_mem _ mem))]

/-- An access changes the block with its key and returns the value it had. -/
theorem accessStash_hit {front back : List Block} {block : Block}
    (sized : Sized valueSize (front ++ block :: back)) (newSized : paddedNew.length = valueSize)
    (resultSized : result.length = valueSize) (frontMisses : ∀ entry ∈ front, entry.key ≠ block.key)
    (backMisses : ∀ entry ∈ back, entry.key ≠ block.key) :
    accessStash block.key newLeaf true hasNew paddedNew (front ++ block :: back) result =
      (front ++ accessed newLeaf hasNew paddedNew block :: back, block.value) := by
  induction front with
  | nil =>
      have blockSized := sized block List.mem_cons_self
      have backSized : Sized valueSize back :=
        fun entry mem => sized entry (List.mem_cons_of_mem _ mem)
      rw [List.nil_append]
      unfold accessStash
      simp only [oEqual_eq, decide_true, Bool.true_and, oMov_true,
        oMovBytes_of_length (resultSized.trans blockSized.symm),
        oMovBytes_of_length (blockSized.trans newSized.symm)]
      rw [accessStash_miss backSized newSized blockSized (fun entry mem _ => backMisses entry mem)]
      rfl
  | cons entry rest ih =>
      have entrySized := sized entry List.mem_cons_self
      have noHit : (true && oEqual entry.key block.key) = false := by
        simpa using frontMisses entry List.mem_cons_self
      rw [List.cons_append]
      unfold accessStash
      dsimp only
      rw [noHit, oMovBytes_of_length (resultSized.trans entrySized.symm),
        oMovBytes_of_length (entrySized.trans newSized.symm)]
      simp only [Bool.false_and, oMov_false]
      rw [ih (fun entry mem => sized entry (List.mem_cons_of_mem _ mem))
        (fun entry mem => frontMisses entry (List.mem_cons_of_mem _ mem))]
      rfl

end Access

/-! ## The scan of an extraction -/

section Extract

variable {key : Int} {valueSize : Nat} {stash : List Block} {result : Block}

/-- Without a hit an extraction changes nothing. -/
theorem extractLoop_miss (sized : Sized valueSize stash)
    (resultSized : result.value.length = valueSize)
    (misses : ∀ entry ∈ stash, entry.key = key → entry.key = invalidKey) :
    extractLoop key stash result = (stash, result) := by
  induction stash with
  | nil => rfl
  | cons entry rest ih =>
      have entrySized := sized entry List.mem_cons_self
      have noHit : (oEqual entry.key key && !oEqual entry.key invalidKey) = false := by
        have miss := misses entry List.mem_cons_self
        simpa using miss
      unfold extractLoop
      dsimp only
      rw [noHit, oMovBytes_of_length (resultSized.trans entrySized.symm)]
      simp only [oMov_false]
      rw [ih (fun entry mem => sized entry (List.mem_cons_of_mem _ mem))
        (fun entry mem => misses entry (List.mem_cons_of_mem _ mem))]

/-- An extraction returns the block with its key and leaves a dummy in its place. -/
theorem extractLoop_hit {front back : List Block} {block : Block}
    (sized : Sized valueSize (front ++ block :: back)) (isReal : block.key ≠ invalidKey)
    (resultSized : result.value.length = valueSize)
    (frontMisses : ∀ entry ∈ front, entry.key ≠ block.key)
    (backMisses : ∀ entry ∈ back, entry.key ≠ block.key) :
    extractLoop block.key (front ++ block :: back) result =
      (front ++ { block with key := invalidKey } :: back, block) := by
  induction front with
  | nil =>
      have blockSized := sized block List.mem_cons_self
      have backSized : Sized valueSize back :=
        fun entry mem => sized entry (List.mem_cons_of_mem _ mem)
      have isHit : (oEqual block.key block.key && !oEqual block.key invalidKey) = true := by
        simpa using isReal
      rw [List.nil_append]
      unfold extractLoop
      dsimp only
      rw [isHit, oMovBytes_of_length (resultSized.trans blockSized.symm)]
      simp only [oMov_true]
      have rest : extractLoop block.key back block = (back, block) :=
        extractLoop_miss backSized blockSized
          (fun entry mem same => (backMisses entry mem same).elim)
      rw [show extractLoop block.key back ⟨block.key, block.leaf, block.value⟩ = (back, block)
        from rest]
      rfl
  | cons entry rest ih =>
      have entrySized := sized entry List.mem_cons_self
      have noHit : (oEqual entry.key block.key && !oEqual entry.key invalidKey) = false := by
        have miss := frontMisses entry List.mem_cons_self
        simp [miss]
      rw [List.cons_append]
      unfold extractLoop
      dsimp only
      rw [noHit, oMovBytes_of_length (resultSized.trans entrySized.symm)]
      simp only [oMov_false]
      rw [ih (fun entry mem => sized entry (List.mem_cons_of_mem _ mem))
        (fun entry mem => frontMisses entry (List.mem_cons_of_mem _ mem))]
      rfl

end Extract

/-! ## Changing the stash -/

section Stash

variable {oram : EnclaveOram} {held : Multiset Block}

/-- Only the stash changes. -/
theorem Holds.withStash (holds : oram.Holds held) {stash : List Block} {added : Multiset Block}
    (sized : Sized oram.valueSize stash) {kept : Multiset Block}
    (had : held = added + kept) {new : Multiset Block}
    (replaced : realBlocks stash + added = realBlocks oram.stash + new) :
    Holds { oram with stash } (new + kept) := by
  refine ⟨holds.level_pos, ?_, sized, holds.treeSized, holds.slots, holds.placed⟩
  change realBlocks stash + ∑ node ∈ oram.nodes, realBlocks (oram.tree node) = _
  have total := holds.blocks_eq
  rw [had, blocks] at total
  have cancelled : (realBlocks stash + ∑ node ∈ oram.nodes, realBlocks (oram.tree node)) + added =
      (new + kept) + added := by
    calc (realBlocks stash + ∑ node ∈ oram.nodes, realBlocks (oram.tree node)) + added
        = (realBlocks stash + added) + ∑ node ∈ oram.nodes, realBlocks (oram.tree node) := by abel
      _ = (realBlocks oram.stash + ∑ node ∈ oram.nodes, realBlocks (oram.tree node)) + new := by
          rw [replaced]
          abel
      _ = (new + kept) + added := by
          rw [total]
          abel
  exact add_right_cancel cancelled

/-- A block of the stash, among entries with other keys. -/
theorem Holds.split_stash (holds : oram.Holds held) (nodup : (held.map Block.key).Nodup)
    {block : Block} (mem : block ∈ oram.stash) (isReal : block.key ≠ invalidKey) :
    ∃ front back, oram.stash = front ++ block :: back ∧
      (∀ entry ∈ front, entry.key ≠ block.key) ∧ (∀ entry ∈ back, entry.key ≠ block.key) := by
  rcases List.append_of_mem mem with ⟨front, back, eq⟩
  have stashNodup : ((realBlocks oram.stash).map Block.key).Nodup := by
    refine Multiset.nodup_of_le (Multiset.map_le_map ?_) nodup
    rw [← holds.blocks_eq]
    exact Multiset.le_add_right _ _
  rw [eq, realBlocks_append, realBlocks_cons_real isReal, Multiset.add_cons, Multiset.map_cons,
    Multiset.nodup_cons, Multiset.map_add, Multiset.mem_add, not_or] at stashNodup
  have differs : ∀ {entries : List Block}, block.key ∉ (realBlocks entries).map Block.key →
      ∀ entry ∈ entries, entry.key ≠ block.key := by
    intro entries notMem entry entryMem same
    refine notMem (Multiset.mem_map.mpr ⟨entry, mem_realBlocks.mpr ⟨entryMem, ?_⟩, same⟩)
    exact same ▸ isReal
  exact ⟨front, back, eq, differs stashNodup.1.1, differs stashNodup.1.2⟩

end Stash

/-! ## Loading -/

section Load

variable {oram : EnclaveOram} {held : Multiset Block} {block : Block}

/-- Overwriting the first empty slot adds a block. -/
theorem realBlocks_modifyFirst {bucket : List Block}
    (hasEmpty : bucket.any (fun slot => slot.key == invalidKey) = true) :
    realBlocks (modifyFirst (fun slot => slot.key == invalidKey) (fun _ => block) bucket) =
      realBlocks [block] + realBlocks bucket := by
  induction bucket with
  | nil => cases hasEmpty
  | cons slot rest ih =>
      rw [modifyFirst]
      by_cases isEmpty : slot.key = invalidKey
      · rw [if_pos (by simpa using isEmpty), realBlocks_cons_dummy isEmpty, ← realBlocks_cons]
      · rw [if_neg (by simpa using isEmpty), realBlocks_cons slot, realBlocks_cons slot rest, ih]
        · abel
        · simpa [isEmpty] using hasEmpty

theorem mem_modifyFirst_const {α : Type} {test : α → Bool} {new item : α} {items : List α}
    (mem : item ∈ modifyFirst test (fun _ => new) items) : item = new ∨ item ∈ items := by
  induction items with
  | nil => cases mem
  | cons head rest ih =>
      rw [modifyFirst] at mem
      split at mem
      · rcases List.mem_cons.mp mem with rfl | inRest
        · exact Or.inl rfl
        · exact Or.inr (List.mem_cons_of_mem _ inRest)
      · rcases List.mem_cons.mp mem with rfl | inRest
        · exact Or.inr List.mem_cons_self
        · exact (ih inRest).imp_right (List.mem_cons_of_mem _)

/-- Placing a block adds it on its path or in the stash. -/
theorem Holds.placeBlock (holds : oram.Holds held) (blockSized : block.value.length = oram.valueSize)
    (isLeaf : IsLeaf oram.level block.leaf) :
    (oram.placeBlock block).Holds (realBlocks [block] + held) ∧ Alike oram (oram.placeBlock block) := by
  unfold EnclaveOram.placeBlock
  generalize search : (oram.path block.leaf).find?
    (fun node => (oram.tree node).any (fun slot => slot.key == invalidKey)) = place
  rcases place with _ | node
  · refine ⟨⟨holds.level_pos, ?_, ?_, holds.treeSized, holds.slots, holds.placed⟩, rfl, rfl, rfl, rfl⟩
    · change realBlocks (oram.stash ++ [block]) + _ = _
      rw [realBlocks_append, ← holds.blocks_eq, blocks]
      change realBlocks oram.stash + realBlocks [block] + ∑ node ∈ oram.nodes, _ = _
      abel
    · refine holds.sized.append ?_
      intro entry mem
      rw [List.mem_singleton.mp mem]
      exact blockSized
  · have onPath : node ∈ oram.path block.leaf := List.mem_of_find?_eq_some search
    have hasEmpty := List.find?_some search
    have inside := path_subset holds.level_pos isLeaf node onPath
    refine ⟨⟨holds.level_pos, ?_, holds.sized, ?_, ?_, ?_⟩, rfl, rfl, rfl, rfl⟩
    · have moved := sum_setBucket inside
        (modifyFirst (fun slot => slot.key == invalidKey) (fun _ => block) (oram.tree node))
      rw [realBlocks_modifyFirst hasEmpty, ← add_assoc] at moved
      rw [← holds.blocks_eq]
      change realBlocks oram.stash +
        ∑ node' ∈ oram.nodes, realBlocks ((oram.setBucket node _).tree node') = _
      rw [add_right_cancel moved, blocks]
      abel
    · intro node' mem'
      change Sized oram.valueSize ((oram.setBucket node _).tree node')
      by_cases same : node' = node
      · rw [same, tree_setBucket_self]
        intro slot mem
        rcases mem_modifyFirst_const mem with rfl | before
        · exact blockSized
        · exact holds.treeSized node inside slot before
      · rw [tree_setBucket_of_ne _ _ same]
        exact holds.treeSized node' mem'
    · intro node' mem'
      change ((oram.setBucket node _).tree node').length = oram.bucketSize
      by_cases same : node' = node
      · rw [same, tree_setBucket_self, length_modifyFirst]
        exact holds.slots node inside
      · rw [tree_setBucket_of_ne _ _ same]
        exact holds.slots node' mem'
    · intro node' mem'
      change ∀ slot ∈ realBlocks ((oram.setBucket node _).tree node'), oram.pathContains _ _ = true
      by_cases same : node' = node
      · rw [same, tree_setBucket_self]
        intro slot mem
        rcases mem_realBlocks.mp mem with ⟨slotMem, isReal⟩
        rcases mem_modifyFirst_const slotMem with rfl | before
        · exact (pathContains_iff isLeaf).mpr onPath
        · exact holds.placed node inside slot (mem_realBlocks.mpr ⟨before, isReal⟩)
      · rw [tree_setBucket_of_ne _ _ same]
        exact holds.placed node' mem'

/-- Placing blocks in turn. -/
theorem Holds.placeBlocks (holds : oram.Holds held) {entries : List Block}
    (sized : Sized oram.valueSize entries)
    (areLeaves : ∀ entry ∈ entries, IsLeaf oram.level entry.leaf) :
    (entries.foldl EnclaveOram.placeBlock oram).Holds (realBlocks entries + held) ∧
      Alike oram (entries.foldl EnclaveOram.placeBlock oram) := by
  induction entries generalizing oram held with
  | nil => exact ⟨(zero_add held).symm ▸ holds, Alike.refl _⟩
  | cons entry rest ih =>
      rcases holds.placeBlock (sized entry List.mem_cons_self) (areLeaves entry List.mem_cons_self)
        with ⟨holds', alike⟩
      rcases ih holds' (fun entry mem => alike.valueSize.symm ▸ sized entry (List.mem_cons_of_mem _ mem))
        (fun entry mem => alike.level.symm ▸ areLeaves entry (List.mem_cons_of_mem _ mem)) with
        ⟨holds'', alike'⟩
      refine ⟨?_, alike.trans alike'⟩
      rw [realBlocks_cons entry rest, add_comm (realBlocks [entry]), add_assoc]
      exact holds''

theorem Holds.padStash (holds : oram.Holds held) : oram.padStash.Holds held := by
  refine ⟨holds.level_pos, ?_, holds.sized.append (sized_replicate _ _), holds.treeSized,
    holds.slots, holds.placed⟩
  rw [← holds.blocks_eq]
  change realBlocks (oram.stash ++ _) + _ = _
  rw [realBlocks_append, realBlocks_replicate, add_zero]
  rfl

theorem stashMax_le_padStash (oram : EnclaveOram) :
    oram.stashMax ≤ oram.padStash.stash.length := by
  change oram.stashMax ≤ (oram.stash ++ _).length
  rw [List.length_append, List.length_replicate]
  omega

/-- A new ORAM holds nothing. -/
theorem holds_new (numData : Int) (valueSize bucketSize stashScale : Nat) :
    (new numData valueSize bucketSize stashScale).Holds 0 := by
  refine ⟨Nat.lt_of_lt_of_le Nat.one_pos (le_max_left 1 _), ?_, ?_, ?_, ?_, ?_⟩
  · change realBlocks [] + ∑ _node ∈ _, realBlocks (List.replicate _ (emptySlot valueSize)) = 0
    rw [realBlocks_replicate, Finset.sum_const_zero]
    rfl
  · exact fun entry mem => (List.not_mem_nil mem).elim
  · exact fun _ _ => sized_replicate _ _
  · exact fun _ _ => List.length_replicate
  · intro node _ block mem
    change block ∈ realBlocks (List.replicate _ (emptySlot valueSize)) at mem
    rw [realBlocks_replicate] at mem
    exact (Multiset.notMem_zero _ mem).elim

end Load

end EnclaveOram

end TieredOmap
