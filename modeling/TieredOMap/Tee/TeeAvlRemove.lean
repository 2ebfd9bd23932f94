import TieredOMap.Tee.TeeAvlInsert

/-!
# Removing from the enclave's tree

The first loop of a removal meets the node of the key, the second one the least key on its right
if the node has two children. The one that goes away has at most one child.
-/

namespace TieredOmap

open BinaryTree Links EnclaveOram

namespace TeeAvlOmap

-- What a step ends with is known from its lemma, never from running it.
attribute [local irreducible] Prog.Ends

variable {omap omap' : TeeAvlOmap} {ledger : Ledger} {tree tree' sub : BinaryTree (Int × Bytes)}
  {key above : Int} {before after : List (Int × Bytes)} {node : AVLLocalNode} {data : Bytes}

/-! ## Looking for the target -/

/-- Dummies do not matter. -/
theorem Arrived.idled (arrived : Arrived omap ledger tree node sub before after)
    (idled : Idled omap omap') (stocked : omap'.Stocked ledger) :
    Arrived omap' ledger tree node sub before after := by
  have sameLinks : omap'.links ledger = omap.links ledger := by
    unfold TeeAvlOmap.links pieceLinks nodeOf?
    rw [idled.pieceAt_eq, idled.toKept.nodeSize]
  refine ⟨arrived.toOpened.idled idled stocked, ?_, ?_, ?_⟩
  · rw [idled.pieceAt_eq]
    exact arrived.isLocal
  · rw [sameLinks, idled.rootKey]
    exact arrived.focus
  · rw [idled.pieceAt_eq]
    exact arrived.fresh

/-- What the first loop ends with, when it could go down as many levels as given. -/
inductive Targeted (key : Int) (tree : BinaryTree (Int × Bytes)) (levels : Nat)
    (state : TargetState) (omap : TeeAvlOmap) : Prop
  | missing {ledger : Ledger} (absent : key ∉ keysOf tree) (notFound : state.found = false)
      (opened : Opened omap ledger tree)
  | hit {ledger : Ledger} {node : AVLLocalNode} {idx : Nat} {sub : BinaryTree (Int × Bytes)}
      {before after : List (Int × Bytes)} (isFound : state.found = true)
      (isIndex : state.targetIdx = idx) (found : omap.local_[idx]? = some node)
      (isKey : node.key = key) (arrived : Arrived omap ledger tree node sub before after)
      (low : sub.height ≤ levels)

/-- A loop with nowhere to go adds dummies. -/
theorem settles_targetLoop_idle (key : Int) (count : Nat) {d : Int} {state : TargetState}
    {omap : TeeAvlOmap} (stocked : omap.Stocked ledger)
    (idle : state.curKey = invalidKey ∨ state.found = true) :
    Settles (targetLoop key count d state omap) (fun outcome =>
      outcome.2.Stocked ledger ∧ Idled omap outcome.2 ∧
        outcome.1.found = state.found ∧ outcome.1.targetIdx = state.targetIdx) := by
  induction count generalizing d state omap with
  | zero => exact Prog.ends_pure ⟨stocked, Idled.refl omap, rfl, rfl⟩
  | succ count ih =>
      have notSearching : (!oEqual state.curKey invalidKey && !state.found) = false := by
        rcases idle with nowhere | found
        · simp [nowhere]
        · simp [found]
      unfold targetLoop
      simp only [notSearching, Bool.false_and, Bool.or_false]
      refine Prog.ends_bind (stocked.settles_idle d _ _ _) ?_
      rintro omap' ⟨stocked', idled, node, added, -⟩
      refine Prog.Ends.mono (ih stocked' ?_) ?_
      · exact Or.inl rfl
      · rintro outcome ⟨stocked'', idled', rest⟩
        exact ⟨stocked'', idled.trans idled', rest⟩

/-- The loop finds a key if it is long enough. -/
theorem Walk.settles_targetLoop {count : Nat} {d : Int} {state : TargetState}
    (walk : Walk omap ledger tree state.curKey state.curLeaf above sub before after)
    (isAbove : omap.lastKey = above) (encloses : IsKey key → Encloses key before after)
    {levels : Nat} (tall : sub.height ≤ count) (most : count ≤ levels)
    (searching : state.found = false) :
    Settles (targetLoop key count d state omap) (fun outcome =>
      Kept omap outcome.2 ∧ Targeted key tree levels outcome.1 outcome.2) := by
  induction count generalizing d state omap ledger above sub before after with
  | zero =>
      rcases walk.focus.root true with ⟨_, _, _, _, rfl, -⟩
      rw [height_nodeOn] at tall
      omega
  | succ count ih =>
      have curReal : state.curKey ≠ invalidKey := walk.focus.real
      have isSearching : (!oEqual state.curKey invalidKey && !state.found) = true := by
        simp [curReal, searching]
      unfold targetLoop
      simp only [isSearching, Bool.true_and, oSelect_true]
      simp only [searching, Bool.false_or, isAbove]
      refine Prog.ends_bind (walk.settles_step d) ?_
      rintro omap' ⟨ledger', node, arrived, sameKey, kept, added⟩
      rw [lastNode_append added, oEqual_eq]
      by_cases isMatch : key = node.key
      · subst isMatch
        rw [decide_eq_true rfl]
        refine Prog.Ends.mono (settles_targetLoop_idle node.key count arrived.stocked ?_) ?_
        · exact Or.inr rfl
        · rintro ⟨outcome, last⟩ ⟨stocked, idled, isFound, isIndex⟩
          have found : omap'.local_[omap.local_.length]? = some node := by
            rw [added, List.getElem?_concat_length]
          refine ⟨kept.trans idled.toKept,
            .hit isFound (isIndex.trans ?_) (idled.getElem? found) rfl
            (arrived.idled idled stocked) (tall.trans most)⟩
          change (omap'.local_.length : Int) - 1 = omap.local_.length
          rw [added, List.length_append, List.length_singleton]
          omega
      · rw [decide_eq_false isMatch]
        simp only [Bool.not_false, Bool.true_and, oSelect_true, oSelect_false]
        rw [(nextOn _ node).1, (nextOn _ node).2, ← sameKey]
        generalize isSide : oLess key node.key = side
        rcases arrived.split side with ⟨child, other, rfl, empty, goOn⟩
        by_cases nowhere : node.piece.childKey side = invalidKey
        · have isEmpty := empty nowhere
          subst isEmpty
          rw [nowhere]
          refine Prog.Ends.mono (settles_targetLoop_idle key count arrived.stocked ?_) ?_
          · exact Or.inl rfl
          · rintro ⟨outcome, last⟩ ⟨stocked, idled, isFound, -⟩
            exact ⟨kept.trans idled.toKept, .missing (arrived.absent encloses isSide.symm isMatch)
              isFound (arrived.toOpened.idled idled stocked)⟩
        · refine Prog.Ends.mono (ih (goOn nowhere) ?_ ?_ ?_ ?_ ?_) ?_
          · exact lastKey_append added
          · exact arrived.encloses encloses isSide.symm isMatch
          · rw [height_nodeOn] at tall
            omega
          · omega
          · rfl
          · rintro ⟨outcome, last⟩ ⟨kept', targeted⟩
            exact ⟨kept.trans kept', targeted⟩

/-! ## Looking for the successor -/

/-- What the second loop ends with. -/
inductive Succeeded (tree : BinaryTree (Int × Bytes)) (before : List (Int × Bytes))
    (state : SuccessorState) (omap : TeeAvlOmap) : Prop
  | intro {ledger : Ledger} {node : AVLLocalNode} {idx : Nat} {upper : List (Int × Bytes)}
      (isIndex : state.idx = idx) (found : omap.local_[idx]? = some node)
      (isReal : node.key ≠ invalidKey) (noLeft : node.avl.lKey = invalidKey)
      (opened : Opened omap ledger tree)
      (split : tree.toList = before ++ (node.key, node.avl.data) :: upper)

/-- A loop with nowhere to go adds dummies. -/
theorem settles_successorLoop_idle (key targetDepth : Int) (count : Nat) {sd : Int}
    {state : SuccessorState} {omap : TeeAvlOmap} (stocked : omap.Stocked ledger)
    (idle : state.key = invalidKey ∨ state.found = true) :
    Settles (successorLoop key targetDepth count sd state omap) (fun outcome =>
      outcome.2.Stocked ledger ∧ Idled omap outcome.2 ∧ outcome.1.idx = state.idx) := by
  induction count generalizing sd state omap with
  | zero => exact Prog.ends_pure ⟨stocked, Idled.refl omap, rfl⟩
  | succ count ih =>
      have notSearching : (!state.found && !oEqual state.key invalidKey) = false := by
        rcases idle with nowhere | found
        · simp [nowhere]
        · simp [found]
      unfold successorLoop
      simp only [notSearching, Bool.false_and, Bool.or_false]
      refine Prog.ends_bind (stocked.settles_idle _ _ _ _) ?_
      rintro omap' ⟨stocked', idled, node, added, -⟩
      refine Prog.Ends.mono (ih stocked' ?_) ?_
      · exact Or.inl rfl
      · rintro outcome ⟨stocked'', idled', rest⟩
        exact ⟨stocked'', idled.trans idled', rest⟩

/-- The entries that are there keep their places. -/
def Grown (omap omap' : TeeAvlOmap) : Prop :=
  ∀ (i : Nat) node, omap.local_[i]? = some node → omap'.local_[i]? = some node

theorem grown_of_append {added : List AVLLocalNode}
    (isAdded : omap'.local_ = omap.local_ ++ added) :
    Grown omap omap' := by
  intro i node found
  rw [isAdded, List.getElem?_append_left (List.getElem?_eq_some_iff.mp found).1, found]

/-- The loop finds the least key of a subtree if it is long enough. -/
theorem Walk.settles_successorLoop {targetKey targetDepth : Int} {count : Nat} {sd : Int}
    {state : SuccessorState}
    (walk : Walk omap ledger tree state.key state.leaf above sub before after)
    (isAbove : (if sd = 0 then targetKey else omap.lastKey) = above) (atLeast : 0 ≤ sd)
    (tall : sub.height ≤ count) (searching : state.found = false) :
    Settles (successorLoop targetKey targetDepth count sd state omap) (fun outcome =>
      Kept omap outcome.2 ∧ Grown omap outcome.2 ∧ Succeeded tree before outcome.1 outcome.2) := by
  induction count generalizing sd state omap ledger above sub after with
  | zero =>
      rcases walk.focus.root true with ⟨_, _, _, _, rfl, -⟩
      rw [height_nodeOn] at tall
      omega
  | succ count ih =>
      have curReal : state.key ≠ invalidKey := walk.focus.real
      have isSearching : (!state.found && !oEqual state.key invalidKey) = true := by
        simp [curReal, searching]
      unfold successorLoop
      simp only [isSearching, Bool.true_and, oSelect_true]
      simp only [searching, Bool.false_or, Bool.not_false, Bool.and_true, isAbove]
      refine Prog.ends_bind (walk.settles_step _) ?_
      rintro omap' ⟨ledger', node, arrived, sameKey, kept, added⟩
      have grown := grown_of_append added
      rw [lastNode_append added, oEqual_eq]
      rcases arrived.split true with ⟨child, other, rfl, empty, goOn⟩
      by_cases isLeast : node.avl.lKey = invalidKey
      · have isEmpty := empty isLeast
        subst isEmpty
        rw [decide_eq_true isLeast]
        refine Prog.Ends.mono (settles_successorLoop_idle targetKey targetDepth count
          arrived.stocked ?_) ?_
        · exact Or.inr rfl
        · rintro ⟨outcome, last⟩ ⟨stocked, idled, isIndex⟩
          have found : omap'.local_[omap.local_.length]? = some node := by
            rw [added, List.getElem?_concat_length]
          have split : tree.toList = before ++ (node.key, node.avl.data) ::
              (other.toList ++ after) := by
            rw [arrived.focus.split, nodeOn, toList, toList, List.nil_append, List.append_assoc,
              List.cons_append]
          refine ⟨kept.trans idled.toKept, fun i entry foundEntry => idled.getElem? (grown i entry
            foundEntry), .intro (isIndex.trans ?_) (idled.getElem? found) arrived.focus.real isLeast
              (arrived.toOpened.idled idled stocked) split⟩
          change (omap'.local_.length : Int) - 1 = omap.local_.length
          rw [added, List.length_append, List.length_singleton]
          omega
      · rw [decide_eq_false isLeast]
        refine Prog.Ends.mono (ih (goOn isLeast) ?_ ?_ ?_ ?_) ?_
        · rw [if_neg (by omega), lastKey_append added]
        · omega
        · rw [height_nodeOn] at tall
          omega
        · rfl
        · rintro ⟨outcome, last⟩ ⟨kept', grown', succeeded⟩
          exact ⟨kept.trans kept', fun i entry found => grown' i entry (grown i entry found),
            succeeded⟩

/-! ## Taking the node out -/

theorem reshaped_unlink (omap : TeeAvlOmap) (found : Bool) (delIdx : Int) :
    Reshaped omap (omap.unlink found delIdx) := by
  refine ⟨⟨rfl, rfl, rfl⟩, rfl, ?_⟩
  unfold unlink
  dsimp only
  rw [List.map_map]
  refine (map_mapIdx_of_same _ ?_).trans ?_
  · exact fun _ _ => rfl
  · rw [List.map_map]
    rfl

theorem frame_renameTarget (omap : TeeAvlOmap) (hasTwo : Bool) (targetIdx succIdx : Int) :
    SameSizes omap (omap.renameTarget hasTwo targetIdx succIdx) ∧
      (omap.renameTarget hasTwo targetIdx succIdx).lowerOram = omap.lowerOram :=
  ⟨⟨rfl, rfl, rfl⟩, rfl⟩

theorem sized_renameTarget (sized : omap.DataSized) (hasTwo : Bool) (targetIdx succIdx : Int) :
    (omap.renameTarget hasTwo targetIdx succIdx).DataSized := by
  have scanned : ∀ (test : AVLLocalNode × Nat → Bool) (items : List (AVLLocalNode × Nat))
      (acc : Bytes), acc.length = omap.valueSize →
      (∀ item ∈ items, item.1.avl.data.length = omap.valueSize) →
      (items.foldl (fun acc entry => oMovBytes (test entry) acc entry.1.avl.data) acc).length =
        omap.valueSize := by
    intro test items
    induction items with
    | nil => exact fun acc sizedAcc _ => sizedAcc
    | cons item rest ih =>
        intro acc _ sizedItems
        refine ih _ ?_ (fun other mem => sizedItems other (List.mem_cons_of_mem _ mem))
        rw [length_oMovBytes]
        exact sizedItems item List.mem_cons_self
  intro node mem
  unfold renameTarget at mem
  dsimp only at mem
  rcases List.mem_map.mp mem with ⟨renamed, mem', rfl⟩
  rcases List.mem_map.mp mem' with ⟨moved, mem'', rfl⟩
  rcases List.mem_mapIdx.mp mem'' with ⟨i, bound, rfl⟩
  change (oMovBytes _ _ _).length = omap.valueSize
  rw [length_oMovBytes]
  refine scanned _ _ _ List.length_replicate ?_
  rintro ⟨entry, j⟩ inZip
  exact sized entry (List.fst_mem_of_mem_zipIdx inZip)

/-- A tree with one key less. -/
theorem lookup_of_remove {lower upper : List (Int × Bytes)} (ordered : tree.Ordered)
    (ordered' : tree'.Ordered) (split : tree.toList = lower ++ (key, data) :: upper)
    (split' : tree'.toList = lower ++ upper) : (fun key' => tree'.lookup key') =
      Function.update (fun key' => tree.lookup key') key none := by
  refine lookup_eq_update ordered ordered' (fun value => ?_) (fun entry different => ?_)
  · refine ⟨fun mem => ?_, fun none' => (by cases none')⟩
    have nodup := ordered
    unfold Ordered at nodup
    rw [split, List.map_append, List.map_cons] at nodup
    rw [split'] at mem
    rcases List.pairwise_append.mp nodup with ⟨-, nodupUpper, between⟩
    rcases List.mem_append.mp mem with inLower | inUpper
    · exact absurd (between key (List.mem_map.mpr ⟨_, inLower, rfl⟩) key List.mem_cons_self)
        (lt_irrefl key)
    · exact absurd ((List.pairwise_cons.mp nodupUpper).1 key (List.mem_map.mpr ⟨_, inUpper, rfl⟩))
        (lt_irrefl key)
  · have notOld : entry ≠ (key, data) := fun same => different (congrArg Prod.fst same)
    rw [split, split']
    simp [notOld]

/-- The other nodes make up a tree. -/
theorem Opened.without (opened : Opened omap ledger tree)
    (weaves : omap'.Weaves (storeOf omap.nodeSize ledger) tree') (sizes : SameSizes omap omap')
    (sameOram : omap'.lowerOram = omap.lowerOram) (sized : omap'.DataSized)
    {lower upper : List (Int × Bytes)} (split : tree.toList = lower ++ (key, data) :: upper)
    (split' : tree'.toList = lower ++ upper) : Opened omap' ledger tree' := by
  refine ⟨opened.stocked.congr sameOram sizes.splitDepth sizes.valueSize, ?_, sized, ?_⟩
  · rw [show omap'.nodeSize = omap.nodeSize from congrArg (avlHeaderSize + ·) sizes.valueSize]
    exact weaves
  · intro key' mem
    refine opened.keys key' ?_
    rw [keysOf, split'] at mem
    rw [keysOf, split]
    rw [List.map_append, List.mem_append] at mem ⊢
    exact mem.imp id (List.mem_cons_of_mem _)

/-! ## The whole removal -/

/-- What a removal does after the first loop. -/
def removeTarget (omap : TeeAvlOmap) (key : Int) (target : TargetState) : TeeRand TeeAvlOmap := do
  let isTarget := fun (i : Int) (_ : AVLLocalNode) => target.found && oEqual i target.targetIdx
  let rightKey := scan isTarget (fun node => node.avl.rKey) omap.local_ invalidKey
  let rightLeaf := scan isTarget (fun node => node.avl.rLeaf) omap.local_ invalidLeaf
  let leftKey := scan isTarget (fun node => node.avl.lKey) omap.local_ invalidKey
  let hasTwo := target.found && !oEqual leftKey invalidKey && !oEqual rightKey invalidKey
  let (succ, omap) ← successorLoop key target.targetDepth omap.maxHeight 0 {
    key := oSelect hasTwo rightKey invalidKey
    leaf := oSelect hasTwo rightLeaf invalidLeaf } omap
  let omap := (omap.renameTarget hasTwo target.targetIdx succ.idx).unlink target.found
    (oSelect hasTwo succ.idx target.targetIdx)
  let omap ← omap.updateHeights.rebalance.reassignLeaves
  omap.flushLocalToStash.padOps (2 * omap.maxHeight)

theorem remove_eq (omap : TeeAvlOmap) (key : Int) : omap.remove key = (do
    let omap := omap.beginOp
    let real := !oEqual omap.rootKey invalidKey && !oEqual key invalidKey
    let (target, omap) ← targetLoop key omap.maxHeight 0 {
      curKey := oSelect real omap.rootKey invalidKey
      curLeaf := oSelect real omap.rootLeaf invalidLeaf } omap
    omap.removeTarget key target) := rfl

/-- If the key was not found, nothing is removed. -/
theorem Opened.settles_removeTarget_missing (opened : Opened omap ledger tree)
    {target : TargetState}
    (notFound : target.found = false) (key : Int) :
    Settles (omap.removeTarget key target) (fun omap' =>
      ∃ tree', omap'.Rests tree' ∧ SameSizes omap omap' ∧ tree'.toList = tree.toList) := by
  unfold removeTarget
  simp only [notFound, Bool.false_and, oSelect_false]
  refine Prog.ends_bind (settles_successorLoop_idle key _ _ opened.stocked (Or.inl rfl)) ?_
  rintro ⟨succ, last⟩ ⟨stocked, idled, -⟩
  have opened' := opened.idled idled stocked
  rw [renameTarget_false opened'.sized, unlink_false]
  refine (opened'.settles_close _).mono ?_
  rintro omap' ⟨tree', rests, same, sizes⟩
  exact ⟨tree', rests, idled.toKept.sizes.trans sizes, same⟩

/-- What is left is rebalanced and stored. -/
theorem Opened.settles_without (opened : Opened omap ledger tree)
    (weaves : omap'.Weaves (storeOf omap.nodeSize ledger) tree') (sizes : SameSizes omap omap')
    (sameOram : omap'.lowerOram = omap.lowerOram) (sized : omap'.DataSized)
    {lower upper : List (Int × Bytes)} (split : tree.toList = lower ++ (key, data) :: upper)
    (split' : tree'.toList = lower ++ upper) (opsDone : TeeAvlOmap → Int) :
    Settles (omap'.updateHeights.rebalance.reassignLeaves >>=
        fun omap => omap.flushLocalToStash.padOps (opsDone omap)) (fun final =>
      ∃ tree', final.Rests tree' ∧ SameSizes omap final ∧ (fun key' => tree'.lookup key') =
        Function.update (fun key' => tree.lookup key') key none) := by
  have opened' := opened.without weaves sizes sameOram sized split split'
  refine (opened'.settles_close opsDone).mono ?_
  rintro final ⟨tree'', rests, same, sizes'⟩
  refine ⟨tree'', rests, sizes.trans sizes', ?_⟩
  rw [← lookup_of_remove opened.weaves.ordered opened'.weaves.ordered split split']
  exact funext (lookup_of_toList opened'.weaves.ordered same)

/-- A removal whose target was found, with the fields of the target. -/
theorem removeTarget_found {target : TargetState} {idx : Nat} (isFound : target.found = true)
    (isIndex : target.targetIdx = idx) (found : omap.local_[idx]? = some node) (key : Int) :
    omap.removeTarget key target = (do
      let hasTwo := !oEqual node.avl.lKey invalidKey && !oEqual node.avl.rKey invalidKey
      let (succ, omap) ← successorLoop key target.targetDepth omap.maxHeight 0 {
        key := oSelect hasTwo node.avl.rKey invalidKey
        leaf := oSelect hasTwo node.avl.rLeaf invalidLeaf } omap
      let omap := (omap.renameTarget hasTwo idx succ.idx).unlink true (oSelect hasTwo succ.idx idx)
      let omap ← omap.updateHeights.rebalance.reassignLeaves
      omap.flushLocalToStash.padOps (2 * omap.maxHeight)) := by
  have scanned : ∀ {α : Type} (field : AVLLocalNode → α) (initial : α),
      scan (fun i _ => oEqual i idx) field omap.local_ initial = field node := by
    intro α field initial
    refine scan_hit found (by simp) (fun j other foundOther passes => ?_)
    have sameIndex : j = idx := by simpa using passes
    subst sameIndex
    exact Option.some.inj (foundOther.symm.trans found)
  unfold removeTarget
  rw [isFound, isIndex]
  simp only [Bool.true_and, scanned]

/-- A target with at most one child is taken out. -/
theorem Arrived.settles_remove_one (arrived : Arrived omap ledger tree node sub before after)
    {target : TargetState} {idx : Nat} (isFound : target.found = true)
    (isIndex : target.targetIdx = idx) (found : omap.local_[idx]? = some node)
    (single : node.avl.lKey = invalidKey ∨ node.avl.rKey = invalidKey) :
    Settles (omap.removeTarget node.key target) (fun omap' =>
      ∃ tree', omap'.Rests tree' ∧ SameSizes omap omap' ∧
        (fun key' => tree'.lookup key') =
          Function.update (fun key' => tree.lookup key') node.key none) := by
  have notTwo : (!oEqual node.avl.lKey invalidKey && !oEqual node.avl.rKey invalidKey) = false := by
    rcases single with noLeft | noRight
    · simp [noLeft]
    · simp [noRight]
  rw [removeTarget_found isFound isIndex found, notTwo]
  refine Prog.ends_bind (settles_successorLoop_idle node.key _ _ arrived.stocked (Or.inl rfl)) ?_
  rintro ⟨succ, last⟩ ⟨stocked, idled, -⟩
  have opened := arrived.toOpened.idled idled stocked
  dsimp only at idled opened ⊢
  rw [renameTarget_false opened.sized, oSelect_false]
  rcases opened.weaves.unlink_one (idled.getElem? found) arrived.focus.real single with
    ⟨tree', weaves, lower, upper, split, split'⟩
  have reshaped := reshaped_unlink last true idx
  have settled := opened.settles_without weaves reshaped.toSameSizes reshaped.lowerOram
    (reshaped.sized opened.sized) split split' (fun omap => 2 * omap.maxHeight)
  refine settled.mono ?_
  rintro final ⟨tree'', rests, sizes, lookups⟩
  exact ⟨tree'', rests, idled.toKept.sizes.trans sizes, lookups⟩

/-- A target with two children takes over its successor, which is taken out. -/
theorem Arrived.settles_remove_two (arrived : Arrived omap ledger tree node sub before after)
    {target : TargetState} {idx : Nat} (isFound : target.found = true)
    (isIndex : target.targetIdx = idx) (found : omap.local_[idx]? = some node)
    (low : sub.height ≤ omap.maxHeight) (hasLeft : node.avl.lKey ≠ invalidKey)
    (hasRight : node.avl.rKey ≠ invalidKey) :
    Settles (omap.removeTarget node.key target) (fun omap' =>
      ∃ tree', omap'.Rests tree' ∧ SameSizes omap omap' ∧
        (fun key' => tree'.lookup key') =
          Function.update (fun key' => tree.lookup key') node.key none) := by
  have isTwo : (!oEqual node.avl.lKey invalidKey && !oEqual node.avl.rKey invalidKey) = true := by
    simp [hasLeft, hasRight]
  rw [removeTarget_found isFound isIndex found, isTwo]
  rcases arrived.split false with ⟨child, other, rfl, -, goOn⟩
  refine Prog.ends_bind ((goOn hasRight).settles_successorLoop (if_pos rfl) (le_refl 0) ?_ rfl) ?_
  · rw [height_nodeOn] at low
    omega
  rintro ⟨succ, last⟩ ⟨kept, grown, succeeded⟩
  dsimp only at kept grown succeeded ⊢
  rcases succeeded with @⟨ledger', succNode, succIdx, upper, isSucc, foundSucc, succReal, noLeft,
    opened, split⟩
  have adjacent : tree.toList = (before ++ other.toList) ++ (node.key, node.avl.data) ::
      (succNode.key, succNode.avl.data) :: upper := by
    rw [split]
    simp [beforeChild]
  rw [oSelect_true, isSucc]
  rcases opened.weaves.unlink_two opened.sized (grown idx node found) arrived.focus.real foundSucc
    succReal noLeft adjacent with ⟨tree', weaves, split'⟩
  rcases frame_renameTarget last true idx succIdx with ⟨sizes, sameOram⟩
  have reshaped := reshaped_unlink (last.renameTarget true idx succIdx) true succIdx
  have sized := reshaped.sized (sized_renameTarget opened.sized true idx succIdx)
  have settled := opened.settles_without weaves (sizes.trans reshaped.toSameSizes)
    (reshaped.lowerOram.trans sameOram) sized adjacent split' (fun omap => 2 * omap.maxHeight)
  refine settled.mono ?_
  rintro final ⟨tree'', rests, sizes', lookups⟩
  exact ⟨tree'', rests, kept.sizes.trans sizes', lookups⟩

/-- A removal takes out the key, whether it was there or not. -/
theorem Rests.settles_remove (rests : omap.Rests tree) (tall : tree.height ≤ omap.maxHeight)
    (key : Int) : Settles (omap.remove key) (fun omap' =>
      ∃ tree', omap'.Rests tree' ∧ SameSizes omap omap' ∧
        (fun key' => tree'.lookup key') =
          Function.update (fun key' => tree.lookup key') key none) := by
  rcases rests.opened with ⟨ledger, opened⟩
  have targeted : Settles (targetLoop key omap.beginOp.maxHeight 0 {
      curKey := oSelect (!oEqual omap.beginOp.rootKey invalidKey && !oEqual key invalidKey)
        omap.beginOp.rootKey invalidKey
      curLeaf := oSelect (!oEqual omap.beginOp.rootKey invalidKey && !oEqual key invalidKey)
        omap.beginOp.rootLeaf invalidLeaf } omap.beginOp) (fun outcome =>
        Kept omap.beginOp outcome.2 ∧
          Targeted key tree omap.maxHeight outcome.1 outcome.2) := by
    by_cases nothing : omap.beginOp.rootKey = invalidKey ∨ key = invalidKey
    · have isDummy : (!oEqual omap.beginOp.rootKey invalidKey && !oEqual key invalidKey) =
        false := by
        rcases nothing with isEmpty | isInvalid
        · simp [isEmpty]
        · simp [isInvalid]
      have absent : key ∉ keysOf tree := by
        rcases nothing with isEmpty | rfl
        · exact opened.absent_of_empty isEmpty key
        · exact fun mem => (opened.keys _ mem).ne_invalid rfl
      rw [isDummy]
      refine Prog.Ends.mono (settles_targetLoop_idle key _ opened.stocked (Or.inl rfl)) ?_
      rintro ⟨target, last⟩ ⟨stocked, idled, notFound, -⟩
      exact ⟨idled.toKept, .missing absent notFound (opened.idled idled stocked)⟩
    · rw [not_or] at nothing
      have isReal : (!oEqual omap.beginOp.rootKey invalidKey && !oEqual key invalidKey) = true := by
        simp [nothing]
      rw [isReal]
      exact (opened.start rfl nothing.1).settles_targetLoop rfl (fun _ => encloses_nil key) tall
        (le_refl _) rfl
  rw [remove_eq]
  refine Prog.ends_bind targeted ?_
  rintro ⟨target, last⟩ ⟨kept, targeted⟩
  have sizes : SameSizes omap last := ⟨kept.maxHeight, kept.splitDepth, kept.valueSize⟩
  cases targeted with
  | missing absent notFound opened' =>
      refine (opened'.settles_removeTarget_missing notFound key).mono ?_
      rintro omap' ⟨tree', rests', sizes', same⟩
      refine ⟨tree', rests', sizes.trans sizes', ?_⟩
      rw [Function.update_eq_self_iff.mpr (lookup_of_notMem rests.ordered absent).symm]
      exact funext (lookup_of_toList rests.ordered same)
  | @hit ledger' node idx sub before after isFound isIndex found isKey arrived low =>
      subst isKey
      have close : ∀ omap', (∃ tree', omap'.Rests tree' ∧ SameSizes last omap' ∧
          (fun key' => tree'.lookup key') =
            Function.update (fun key' => tree.lookup key') node.key none) →
          ∃ tree', omap'.Rests tree' ∧ SameSizes omap omap' ∧ (fun key' => tree'.lookup key') =
            Function.update (fun key' => tree.lookup key') node.key none := by
        rintro omap' ⟨tree', rests', sizes', lookups⟩
        exact ⟨tree', rests', sizes.trans sizes', lookups⟩
      by_cases single : node.avl.lKey = invalidKey ∨ node.avl.rKey = invalidKey
      · exact (arrived.settles_remove_one isFound isIndex found single).mono close
      · rw [not_or] at single
        exact (arrived.settles_remove_two isFound isIndex found (kept.maxHeight ▸ low) single.1
          single.2).mono close

end TeeAvlOmap

end TieredOmap
