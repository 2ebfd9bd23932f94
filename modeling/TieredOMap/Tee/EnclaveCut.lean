import TieredOMap.Tee.EnclaveBlocks

/-!
# Values that do not fit

A value longer than the ORAM's value size is stored as it is, and every move between
buffers of different sizes cuts bytes off or adds zeros. The first bytes, as many as the
value size, are always those of a block with a value of that size: an ORAM whose values are
cut off does the same as the ORAM itself.
-/

namespace TieredOmap

theorem take_padBytes (bytes : Bytes) (size : Nat) :
    (padBytes bytes size).take size = padBytes (bytes.take size) size := by
  simp only [padBytes, List.take_append, List.take_replicate, List.length_take]
  congr 2
  omega

theorem take_resizeBytes {bytes : Bytes} {size size' : Nat} (enough : size ≤ bytes.length)
    (enough' : size ≤ size') : (resizeBytes bytes size').take size = bytes.take size := by
  have noZeros : size - (bytes.take size').length = 0 := by
    rw [List.length_take]
    omega
  rw [resizeBytes, List.take_append, noZeros, List.take_zero, List.append_nil, List.take_take,
    min_eq_left enough']

/-- The first bytes are moved as in buffers of their size. -/
theorem take_oMovBytes (cond : Bool) {dst src : Bytes} {size : Nat} (dstFits : size ≤ dst.length)
    (srcFits : size ≤ src.length) :
    (oMovBytes cond dst src).take size = oMovBytes cond (dst.take size) (src.take size) := by
  have sameSize : (dst.take size).length = (src.take size).length := by
    rw [List.length_take, List.length_take]
    omega
  rw [oMovBytes_of_length sameSize, oMovBytes]
  cases cond with
  | true => rfl
  | false => exact take_resizeBytes dstFits srcFits

theorem take_oSwapBytes (cond : Bool) {a b : Bytes} {size : Nat} (aFits : size ≤ a.length)
    (bFits : size ≤ b.length) :
    (oSwapBytes cond a b).1.take size = (oSwapBytes cond (a.take size) (b.take size)).1 ∧
      (oSwapBytes cond a b).2.take size = (oSwapBytes cond (a.take size) (b.take size)).2 := by
  have sameSize : (a.take size).length = (b.take size).length := by
    rw [List.length_take, List.length_take]
    omega
  have aTaken := take_resizeBytes aFits (aFits.trans (le_max_left a.length b.length))
  have bTaken := take_resizeBytes bFits (aFits.trans (le_max_left a.length b.length))
  rw [oSwapBytes_of_length sameSize, oSwapBytes]
  cases cond with
  | true => exact ⟨bTaken, aTaken⟩
  | false => exact ⟨aTaken, bTaken⟩

theorem length_oSwapBytes (cond : Bool) (a b : Bytes) :
    (oSwapBytes cond a b).1.length = max a.length b.length ∧
      (oSwapBytes cond a b).2.length = max a.length b.length := by
  cases cond <;> exact ⟨length_resizeBytes _ _, length_resizeBytes _ _⟩

namespace EnclaveOram

/-- A block with the first bytes of its value. -/
def cutBlock (size : Nat) (block : Block) : Block := { block with value := block.value.take size }

/-- An ORAM with the first bytes of its values. -/
def cut (oram : EnclaveOram) : EnclaveOram :=
  { oram with
    tree := fun node => (oram.tree node).map (cutBlock oram.valueSize)
    stash := oram.stash.map (cutBlock oram.valueSize) }

/-- A value that is long enough, and no longer than the widest one. -/
def Fits (size widest : Nat) (block : Block) : Prop :=
  size ≤ block.value.length ∧ block.value.length ≤ widest

/-- All values are long enough, and the stash has its size. -/
structure Fitted (oram : EnclaveOram) (widest : Nat) : Prop where
  wide : oram.valueSize ≤ widest
  stash : ∀ entry ∈ oram.stash, Fits oram.valueSize widest entry
  tree : ∀ node, ∀ slot ∈ oram.tree node, Fits oram.valueSize widest slot
  full : oram.stashMax ≤ oram.stash.length

theorem alike_cut (oram : EnclaveOram) : Alike oram oram.cut := ⟨rfl, rfl, rfl, rfl⟩

@[simp]
theorem cutBlock_emptySlot (size : Nat) : cutBlock size (emptySlot size) = emptySlot size := by
  simp [cutBlock, emptySlot]

theorem fits_emptySlot {size widest : Nat} (wide : size ≤ widest) :
    Fits size widest (emptySlot size) :=
  ⟨(length_emptySlot size).ge, (length_emptySlot size).trans_le wide⟩

theorem sized_map_cutBlock {size widest : Nat} {entries : List Block}
    (fits : ∀ entry ∈ entries, Fits size widest entry) :
    Sized size (entries.map (cutBlock size)) := by
  intro entry mem
  rcases List.mem_map.mp mem with ⟨original, originalMem, rfl⟩
  exact List.length_take.trans (min_eq_left (fits original originalMem).1)

/-- Where no value is too long, nothing is cut off. -/
theorem cutBlock_of_le {size : Nat} {block : Block} (short : block.value.length ≤ size) :
    cutBlock size block = block := by
  rw [cutBlock, List.take_of_length_le short]

/-! ## Reading -/

section Read

variable {oram : EnclaveOram} {widest : Nat}

theorem setBucket_cut (oram : EnclaveOram) (node : Int) (bucket : List Block) :
    (oram.setBucket node bucket).cut =
      oram.cut.setBucket node (bucket.map (cutBlock oram.valueSize)) := by
  unfold cut setBucket
  congr 1
  funext node'
  dsimp only
  split <;> rfl

theorem takeBucket_cut (oram : EnclaveOram) (node : Int) :
    (oram.takeBucket node).cut = oram.cut.takeBucket node := by
  have emptied := setBucket_cut oram node
    (List.replicate oram.bucketSize (emptySlot oram.valueSize))
  rw [List.map_replicate, cutBlock_emptySlot] at emptied
  have sameTree := congrArg EnclaveOram.tree emptied
  unfold takeBucket
  rw [EnclaveOram.mk.injEq]
  refine ⟨rfl, rfl, rfl, rfl, sameTree, ?_⟩
  exact List.map_append

theorem readPath_cut (oram : EnclaveOram) (leaf : Int) :
    (oram.readPath leaf).cut = oram.cut.readPath leaf := by
  have folded : ∀ (path : List Int) (oram : EnclaveOram),
      (path.foldl takeBucket oram).cut = path.foldl takeBucket oram.cut := by
    intro path
    induction path with
    | nil => exact fun _ => rfl
    | cons node rest ih =>
        intro oram
        rw [List.foldl_cons, List.foldl_cons, ih, takeBucket_cut]
  exact folded (oram.path leaf) oram

theorem Fitted.setBucket (fitted : oram.Fitted widest) {bucket stash : List Block} (node : Int)
    (bucketFits : ∀ slot ∈ bucket, Fits oram.valueSize widest slot)
    (stashFits : ∀ entry ∈ stash, Fits oram.valueSize widest entry)
    (full : oram.stashMax ≤ stash.length) :
    Fitted { oram.setBucket node bucket with stash } widest := by
  refine ⟨fitted.wide, stashFits, ?_, full⟩
  intro node' slot mem
  change slot ∈ (if node' = node then bucket else oram.tree node') at mem
  split at mem
  · exact bucketFits slot mem
  · exact fitted.tree node' slot mem

theorem Fitted.takeBucket (fitted : oram.Fitted widest) (node : Int) :
    (oram.takeBucket node).Fitted widest := by
  refine fitted.setBucket node ?_ ?_ ?_
  · intro slot mem
    rw [List.eq_of_mem_replicate mem]
    exact fits_emptySlot fitted.wide
  · intro entry mem
    rcases List.mem_append.mp mem with inStash | inBucket
    · exact fitted.stash entry inStash
    · exact fitted.tree node entry inBucket
  · rw [List.length_append]
    exact fitted.full.trans (Nat.le_add_right _ _)

theorem Fitted.readPath (fitted : oram.Fitted widest) (leaf : Int) :
    (oram.readPath leaf).Fitted widest := by
  have folded : ∀ (path : List Int) {oram : EnclaveOram}, oram.Fitted widest →
      (path.foldl EnclaveOram.takeBucket oram).Fitted widest := by
    intro path
    induction path with
    | nil => exact fun fitted => fitted
    | cons node rest ih => exact fun fitted => ih (fitted.takeBucket node)
  exact folded (oram.path leaf) fitted

end Read

/-! ## Filling -/

section Fill

variable {oram : EnclaveOram} {widest : Nat} {node : Int}

theorem fits_oMovBytes {size : Nat} {cond : Bool} {dst : Bytes} {key leaf : Int} {entry : Block}
    (fits : Fits size widest entry) :
    Fits size widest { key, leaf, value := oMovBytes cond dst entry.value } := by
  unfold Fits
  dsimp only
  rw [length_oMovBytes]
  exact fits

/-- Scanning the stash for a slot treats the first bytes as blocks of their own. -/
theorem fillSlot_cut (oram : EnclaveOram) (node : Int) {stash : List Block} {slot : Block}
    {filled : Bool} (stashFits : ∀ entry ∈ stash, Fits oram.valueSize widest entry)
    (slotFits : Fits oram.valueSize widest slot) :
    oram.cut.fillSlot node (stash.map (cutBlock oram.valueSize)) (cutBlock oram.valueSize slot)
        filled =
      ((oram.fillSlot node stash slot filled).1.map (cutBlock oram.valueSize),
        cutBlock oram.valueSize (oram.fillSlot node stash slot filled).2) ∧
      (∀ entry ∈ (oram.fillSlot node stash slot filled).1, Fits oram.valueSize widest entry) ∧
      Fits oram.valueSize widest (oram.fillSlot node stash slot filled).2 := by
  induction stash generalizing slot filled with
  | nil => exact ⟨rfl, stashFits, slotFits⟩
  | cons entry rest ih =>
      have entryFits := stashFits entry List.mem_cons_self
      have restFits : ∀ entry ∈ rest, Fits oram.valueSize widest entry :=
        fun entry mem => stashFits entry (List.mem_cons_of_mem _ mem)
      rw [List.map_cons]
      unfold fillSlot
      dsimp only
      have moved := fun cond => take_oMovBytes cond slotFits.1 entryFits.1
      have sameCandidate : (cutBlock oram.valueSize entry).key = entry.key ∧
          (cutBlock oram.valueSize entry).leaf = entry.leaf := ⟨rfl, rfl⟩
      rw [sameCandidate.1, sameCandidate.2, (alike_cut oram).pathContains]
      generalize (!oEqual entry.key invalidKey && oram.pathContains entry.leaf node && !filled) =
        candidate
      have slotFits' : Fits oram.valueSize widest {
          key := oMov candidate slot.key entry.key
          leaf := oMov candidate slot.leaf entry.leaf
          value := oMovBytes candidate slot.value entry.value } := fits_oMovBytes entryFits
      rcases @ih _ (filled || candidate) restFits slotFits' with ⟨same, scannedFits, lastFits⟩
      rw [show cutBlock oram.valueSize {
          key := oMov candidate slot.key entry.key
          leaf := oMov candidate slot.leaf entry.leaf
          value := oMovBytes candidate slot.value entry.value } = {
          key := oMov candidate (cutBlock oram.valueSize slot).key entry.key
          leaf := oMov candidate (cutBlock oram.valueSize slot).leaf entry.leaf
          value := oMovBytes candidate (cutBlock oram.valueSize slot).value
            (cutBlock oram.valueSize entry).value } by
        rw [cutBlock, moved candidate]
        rfl] at same
      rw [same]
      refine ⟨rfl, ?_, lastFits⟩
      intro entry' mem
      rcases List.mem_cons.mp mem with rfl | inRest
      · exact entryFits
      · exact scannedFits entry' inRest

theorem fillSlots_cut (oram : EnclaveOram) (node : Int) {stash bucket : List Block}
    (stashFits : ∀ entry ∈ stash, Fits oram.valueSize widest entry)
    (bucketFits : ∀ slot ∈ bucket, Fits oram.valueSize widest slot) :
    oram.cut.fillSlots node (stash.map (cutBlock oram.valueSize))
        (bucket.map (cutBlock oram.valueSize)) =
      ((oram.fillSlots node stash bucket).1.map (cutBlock oram.valueSize),
        (oram.fillSlots node stash bucket).2.map (cutBlock oram.valueSize)) ∧
      (∀ entry ∈ (oram.fillSlots node stash bucket).1, Fits oram.valueSize widest entry) ∧
      ∀ slot ∈ (oram.fillSlots node stash bucket).2, Fits oram.valueSize widest slot := by
  induction bucket generalizing stash with
  | nil => exact ⟨rfl, stashFits, bucketFits⟩
  | cons slot rest ih =>
      rcases @fillSlot_cut widest oram node stash slot false stashFits
        (bucketFits slot List.mem_cons_self) with ⟨same, stashFits', slotFits⟩
      rcases ih stashFits' (fun slot mem => bucketFits slot (List.mem_cons_of_mem _ mem)) with
        ⟨same', stashFits'', restFits⟩
      rw [List.map_cons]
      unfold fillSlots
      dsimp only
      rw [same, same']
      refine ⟨rfl, stashFits'', ?_⟩
      intro slot' mem
      rcases List.mem_cons.mp mem with rfl | inRest
      · exact slotFits
      · exact restFits slot' inRest

theorem Fitted.fillBucket (fitted : oram.Fitted widest) (node : Int) :
    (oram.fillBucket node).cut = oram.cut.fillBucket node ∧
      (oram.fillBucket node).Fitted widest := by
  rcases fillSlots_cut oram node fitted.stash (fitted.tree node) with ⟨same, stashFits, bucketFits⟩
  constructor
  · have replaced := setBucket_cut oram node (oram.fillSlots node oram.stash (oram.tree node)).2
    have sameTree := congrArg EnclaveOram.tree replaced
    unfold EnclaveOram.fillBucket
    rw [EnclaveOram.mk.injEq]
    refine ⟨rfl, rfl, rfl, rfl, ?_, ?_⟩
    · refine sameTree.trans ?_
      exact congrArg (fun filled => (oram.cut.setBucket node filled.2).tree) same.symm
    · exact congrArg Prod.fst same.symm
  · refine fitted.setBucket node bucketFits stashFits ?_
    rw [length_fillSlots]
    exact fitted.full

theorem Fitted.fillBuckets (fitted : oram.Fitted widest) (path : List Int) :
    (path.foldl EnclaveOram.fillBucket oram).cut = path.foldl EnclaveOram.fillBucket oram.cut ∧
      (path.foldl EnclaveOram.fillBucket oram).Fitted widest := by
  induction path generalizing oram with
  | nil => exact ⟨rfl, fitted⟩
  | cons node rest ih =>
      rcases fitted.fillBucket node with ⟨same, fitted'⟩
      rw [List.foldl_cons, List.foldl_cons, ← same]
      exact ih fitted'

end Fill

/-! ## Evicting -/

section Evict

variable {oram : EnclaveOram} {widest : Nat} {leaf : Int}

theorem compactStep_cut {size : Nat} (left right : Block) (leftFits : Fits size widest left)
    (rightFits : Fits size widest right) :
    compactStep (cutBlock size left) (cutBlock size right) =
        Prod.map (cutBlock size) (cutBlock size) (compactStep left right) ∧
      Fits size widest (compactStep left right).1 ∧ Fits size widest (compactStep left right).2 := by
  unfold compactStep
  dsimp only
  have sameTest : (cutBlock size left).key = left.key ∧ (cutBlock size right).key = right.key :=
    ⟨rfl, rfl⟩
  rw [sameTest.1, sameTest.2]
  generalize (oEqual left.key invalidKey && !oEqual right.key invalidKey) = doSwap
  have swapped := take_oSwapBytes doSwap leftFits.1 rightFits.1
  have lengths := length_oSwapBytes doSwap left.value right.value
  have inRange : size ≤ max left.value.length right.value.length ∧
      max left.value.length right.value.length ≤ widest :=
    ⟨leftFits.1.trans (le_max_left _ _), max_le leftFits.2 rightFits.2⟩
  refine ⟨?_, ?_, ?_⟩
  · unfold Prod.map cutBlock
    dsimp only
    rw [swapped.1, swapped.2]
  · unfold Fits
    dsimp only
    rw [lengths.1]
    exact inRange
  · unfold Fits
    dsimp only
    rw [lengths.2]
    exact inRange

theorem compact_cut {size : Nat} {stash : List Block}
    (fits : ∀ entry ∈ stash, Fits size widest entry) :
    compact (stash.map (cutBlock size)) = (compact stash).map (cutBlock size) ∧
      ∀ entry ∈ compact stash, Fits size widest entry := by
  unfold compact
  rw [List.length_map]
  exact Bubble.passes_map compactStep_cut stash.length fits

theorem validCount_cut (size : Nat) (stash : List Block) :
    validCount (stash.map (cutBlock size)) = validCount stash := by
  rw [validCount, List.filter_map, List.length_map]
  rfl

theorem resizeStash_of_le {stash : List Block} {size : Nat} (le : size ≤ stash.length) :
    resizeStash stash size = stash.take size := by
  rw [resizeStash, Nat.sub_eq_zero_of_le le, List.replicate_zero, List.append_nil]

theorem validCount_le (stash : List Block) : validCount stash ≤ stash.length :=
  List.length_filter_le _ _

theorem length_compact (stash : List Block) : (compact stash).length = stash.length :=
  Bubble.length_passes compactStep stash.length stash

/-- Evicting treats the first bytes as blocks of their own, and overflows for them as well. -/
theorem Fitted.evictPath (fitted : oram.Fitted widest) (path : List Int) :
    (oram.evictPath path).1.cut = (oram.cut.evictPath path).1 ∧
      (oram.cut.evictPath path).2 = (oram.evictPath path).2 ∧
      (oram.evictPath path).1.Fitted widest := by
  rcases fitted.fillBuckets path with ⟨same, fitted'⟩
  unfold EnclaveOram.evictPath
  dsimp only
  rw [← same]
  generalize path.foldl EnclaveOram.fillBucket oram = filled at *
  rcases compact_cut fitted'.stash with ⟨sameStash, stashFits⟩
  have sameCount : validCount (compact filled.cut.stash) = validCount (compact filled.stash) := by
    rw [← validCount_cut filled.valueSize (compact filled.stash)]
    exact congrArg validCount sameStash
  have short : max (validCount (compact filled.stash)) filled.stashMax ≤
      (compact filled.stash).length :=
    max_le (validCount_le _) ((length_compact _).symm ▸ fitted'.full)
  have padded : filled.stashMax ≤ (resizeStash (compact filled.stash)
      (max (validCount (compact filled.stash)) filled.stashMax)).length :=
    (le_max_right _ _).trans (length_resizeStash _ _).ge
  have paddedCut : filled.stashMax ≤ (resizeStash (compact filled.cut.stash)
      (max (validCount (compact filled.stash)) filled.stashMax)).length :=
    (le_max_right _ _).trans (length_resizeStash _ _).ge
  rw [sameCount, show filled.cut.stashMax = filled.stashMax from rfl, padStash_of_le padded,
    padStash_of_le paddedCut]
  refine ⟨?_, rfl, fitted'.wide, ?_, fitted'.tree, padded⟩
  · unfold cut
    rw [EnclaveOram.mk.injEq]
    refine ⟨rfl, rfl, rfl, rfl, rfl, ?_⟩
    have shortCut : max (validCount (compact filled.stash)) filled.stashMax ≤
        (compact filled.cut.stash).length := by
      rw [show compact filled.cut.stash = _ from sameStash, List.length_map]
      exact short
    rw [resizeStash_of_le short]
    change (List.take _ (compact filled.stash)).map _ = resizeStash (compact filled.cut.stash) _
    rw [resizeStash_of_le shortCut, List.map_take]
    exact congrArg (List.take _) sameStash.symm
  · intro entry mem
    change entry ∈ resizeStash _ _ at mem
    rw [resizeStash_of_le short] at mem
    exact stashFits entry (List.mem_of_mem_take mem)

end Evict

/-! ## The stash -/

section Stash

variable {oram : EnclaveOram} {widest : Nat}

theorem accessStash_cut {size : Nat} (key newLeaf : Int) (real hasNew : Bool)
    {paddedNew : Bytes} (newFits : size ≤ paddedNew.length ∧ paddedNew.length ≤ widest)
    {stash : List Block} (stashFits : ∀ entry ∈ stash, Fits size widest entry) {result : Bytes}
    (resultFits : size ≤ result.length ∧ result.length ≤ widest) :
    accessStash key newLeaf real hasNew (paddedNew.take size) (stash.map (cutBlock size))
        (result.take size) =
      ((accessStash key newLeaf real hasNew paddedNew stash result).1.map (cutBlock size),
        (accessStash key newLeaf real hasNew paddedNew stash result).2.take size) ∧
      (∀ entry ∈ (accessStash key newLeaf real hasNew paddedNew stash result).1,
        Fits size widest entry) ∧
      (accessStash key newLeaf real hasNew paddedNew stash result).1.length = stash.length ∧
      size ≤ (accessStash key newLeaf real hasNew paddedNew stash result).2.length ∧
      (accessStash key newLeaf real hasNew paddedNew stash result).2.length ≤ widest := by
  induction stash generalizing result with
  | nil => exact ⟨rfl, stashFits, rfl, resultFits⟩
  | cons entry rest ih =>
      have entryFits := stashFits entry List.mem_cons_self
      have restFits : ∀ entry ∈ rest, Fits size widest entry :=
        fun entry mem => stashFits entry (List.mem_cons_of_mem _ mem)
      rw [List.map_cons]
      unfold accessStash
      dsimp only
      rw [show (cutBlock size entry).key = entry.key from rfl,
        show (cutBlock size entry).value = entry.value.take size from rfl]
      generalize (real && oEqual entry.key key) = hit
      have moved := take_oMovBytes hit resultFits.1 entryFits.1
      have written := take_oMovBytes (hit && hasNew) entryFits.1 newFits.1
      have resultFits' : size ≤ (oMovBytes hit result entry.value).length ∧
          (oMovBytes hit result entry.value).length ≤ widest := by
        rw [length_oMovBytes]
        exact entryFits
      rcases ih restFits resultFits' with ⟨same, othersFit, sameLength, lastFits⟩
      rw [← moved, same, ← written]
      refine ⟨rfl, ?_, congrArg (· + 1) sameLength, lastFits⟩
      intro entry' mem
      rcases List.mem_cons.mp mem with rfl | inRest
      · unfold Fits
        dsimp only
        rw [length_oMovBytes]
        exact newFits
      · exact othersFit entry' inRest

theorem extractLoop_cut {size : Nat} (key : Int) {stash : List Block}
    (stashFits : ∀ entry ∈ stash, Fits size widest entry) {result : Block}
    (resultFits : Fits size widest result) :
    extractLoop key (stash.map (cutBlock size)) (cutBlock size result) =
      ((extractLoop key stash result).1.map (cutBlock size),
        cutBlock size (extractLoop key stash result).2) ∧
      (∀ entry ∈ (extractLoop key stash result).1, Fits size widest entry) ∧
      (extractLoop key stash result).1.length = stash.length ∧
      Fits size widest (extractLoop key stash result).2 := by
  induction stash generalizing result with
  | nil => exact ⟨rfl, stashFits, rfl, resultFits⟩
  | cons entry rest ih =>
      have entryFits := stashFits entry List.mem_cons_self
      have restFits : ∀ entry ∈ rest, Fits size widest entry :=
        fun entry mem => stashFits entry (List.mem_cons_of_mem _ mem)
      rw [List.map_cons]
      unfold extractLoop
      dsimp only
      rw [show (cutBlock size entry).key = entry.key from rfl,
        show (cutBlock size entry).leaf = entry.leaf from rfl,
        show (cutBlock size entry).value = entry.value.take size from rfl]
      generalize (oEqual entry.key key && !oEqual entry.key invalidKey) = hit
      have moved := take_oMovBytes hit resultFits.1 entryFits.1
      have resultFits' : Fits size widest {
          key := oMov hit result.key entry.key
          leaf := oMov hit result.leaf entry.leaf
          value := oMovBytes hit result.value entry.value } := fits_oMovBytes entryFits
      rcases ih restFits resultFits' with ⟨same, othersFit, sameLength, lastFits⟩
      unfold cutBlock at same ⊢
      dsimp only at same ⊢
      rw [← moved, same]
      refine ⟨rfl, ?_, congrArg (· + 1) sameLength, lastFits⟩
      intro entry' mem
      rcases List.mem_cons.mp mem with rfl | inRest
      · exact entryFits
      · exact othersFit entry' inRest

end Stash

end EnclaveOram

end TieredOmap
