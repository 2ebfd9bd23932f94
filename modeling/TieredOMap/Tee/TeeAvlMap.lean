import TieredOMap.Tee.TeeAvlInit
import TieredOMap.Tee.TeeAvlTrace

/-!
# The enclave's tree as a finite map

Over every run of a map without an upper ORAM the results are those of a finite map, and
the ORAM holds one block for each of its records.
-/

namespace TieredOmap

open BinaryTree Links EnclaveOram

/-! ## Finite maps -/

namespace TeeAvlOp

/-- What an operation does to a finite map. -/
def apply (size : Nat) (contents : Int → Option Bytes) : TeeAvlOp → Int → Option Bytes
  | search key update transform | searchOrDummy key true update transform =>
      Function.update contents key
        ((contents key).map (TeeAvlOmap.rewritten size update transform))
  | insert key value =>
      if key = invalidKey then contents
      else Function.update contents key (some (padBytes value size))
  | remove key => Function.update contents key none
  | searchOrDummy _ false _ _ | dummyAccess => contents

/-- What a finite map answers. -/
def answer (size : Nat) (contents : Int → Option Bytes) : TeeAvlOp → TeeAvlResult
  | search key _ _ => .searched ((contents key).getD [])
  | searchOrDummy key true _ _ =>
      .accessed ((contents key).getD (List.replicate size 0)) (contents key).isSome
  | searchOrDummy _ false _ _ => .accessed (List.replicate size 0) false
  | insert _ _ | remove _ | dummyAccess => .done

/-- Values fit, and only new keys are inserted. -/
def Allowed (size : Nat) (contents : Int → Option Bytes) : TeeAvlOp → Prop
  | search _ update transform | searchOrDummy _ _ update transform =>
      TeeAvlOmap.Fitting size update transform
  | insert key value =>
      value.length ≤ size ∧ (key = invalidKey ∨ IsKey key ∧ contents key = none)
  | remove _ | dummyAccess => True

/-- The finite map after some operations. -/
def applyAll (size : Nat) (contents : Int → Option Bytes) (ops : List TeeAvlOp) :
    Int → Option Bytes :=
  ops.foldl (apply size) contents

/-- The answers to some operations. -/
def answers (size : Nat) (contents : Int → Option Bytes) : List TeeAvlOp → List TeeAvlResult
  | [] => []
  | op :: ops => op.answer size contents :: answers size (op.apply size contents) ops

theorem applyAll_append (size : Nat) (contents : Int → Option Bytes) (ops : List TeeAvlOp)
    (op : TeeAvlOp) :
    applyAll size contents (ops ++ [op]) = op.apply size (applyAll size contents ops) :=
  List.foldl_concat ..

theorem answers_append (size : Nat) (contents : Int → Option Bytes) (ops : List TeeAvlOp)
    (op : TeeAvlOp) : answers size contents (ops ++ [op]) =
      answers size contents ops ++ [op.answer size (applyAll size contents ops)] := by
  induction ops generalizing contents with
  | nil => rfl
  | cons first rest ih => exact congrArg (_ :: ·) (ih (first.apply size contents))

end TeeAvlOp

namespace TeeAvlOmap

-- What a step ends with is known from its lemma, never from running it.
attribute [local irreducible] Prog.Ends

variable {omap : TeeAvlOmap} {contents : Int → Option Bytes}

/-! ## One operation -/

/-- The map stores the records of a finite map. -/
def Represents (omap : TeeAvlOmap) (contents : Int → Option Bytes) : Prop :=
  ∃ tree, omap.Rests tree ∧ ∀ key, tree.lookup key = contents key

/-- No stored tree is higher than the loops are long. -/
def Shallow (omap : TeeAvlOmap) : Prop := ∀ tree, omap.Rests tree → tree.height ≤ omap.maxHeight

/-- A tree whose entries were changed as those of a finite map. -/
theorem represents_of_update {tree tree' : BinaryTree (Int × Bytes)} {key : Int}
    {record record' : Option Bytes} (rests : omap.Rests tree')
    (maps : ∀ key, tree.lookup key = contents key) (same : record = record')
    (changed : (fun key' => tree'.lookup key') =
      Function.update (fun key' => tree.lookup key') key record) :
    omap.Represents (Function.update contents key record') := by
  refine ⟨tree', rests, fun key' => ?_⟩
  rw [congrFun changed key', ← same,
    show (fun key' => tree.lookup key') = contents from funext maps]

/-- A search answers as a finite map. -/
theorem Represents.settles_search (represents : omap.Represents contents) (shallow : omap.Shallow)
    {update : Option Bytes} {transform : Option (Bytes → Bytes)}
    (fitting : Fitting omap.valueSize update transform) (key : Int) :
    Settles (omap.searchOrDummy key true update transform) (fun outcome =>
      SameSizes omap outcome.2 ∧
        outcome.1 = ((contents key).getD (List.replicate omap.valueSize 0), (contents key).isSome) ∧
        outcome.2.Represents (Function.update contents key
          ((contents key).map (rewritten omap.valueSize update transform)))) := by
  rcases represents with ⟨tree, rests, maps⟩
  refine (rests.settles_search (shallow tree rests) fitting key).mono ?_
  rintro ⟨answer, omap'⟩ ⟨tree', rests', sizes, found, changed⟩
  rw [maps key] at found
  exact ⟨sizes, found, represents_of_update rests' maps (by rw [maps key]) changed⟩

/-- Every operation answers as a finite map, and leaves the map as a finite map would. -/
theorem Represents.settles_call (represents : omap.Represents contents) (shallow : omap.Shallow)
    {op : TeeAvlOp} (allowed : op.Allowed omap.valueSize contents) :
    Settles (op.call omap) (fun outcome => SameSizes omap outcome.2 ∧
      outcome.1 = op.answer omap.valueSize contents ∧
      outcome.2.Represents (op.apply omap.valueSize contents)) := by
  cases op with
  | search key update transform =>
      unfold TeeAvlOp.call search
      simp only [bind_assoc, pure_bind]
      refine Prog.ends_bind (represents.settles_search shallow allowed key) ?_
      rintro ⟨found, omap'⟩ ⟨sizes, rfl, represents'⟩
      refine Prog.ends_pure ⟨sizes, ?_, represents'⟩
      unfold TeeAvlOp.answer
      dsimp only
      rcases contents key with _ | value <;> rfl
  | searchOrDummy key real update transform =>
      unfold TeeAvlOp.call
      cases real with
      | true =>
          refine Prog.ends_bind (represents.settles_search shallow allowed key) ?_
          rintro ⟨found, omap'⟩ ⟨sizes, rfl, represents'⟩
          exact Prog.ends_pure ⟨sizes, rfl, represents'⟩
      | false =>
          rcases represents with ⟨tree, rests, maps⟩
          refine Prog.ends_bind (rests.settles_dummy allowed key) ?_
          rintro ⟨found, omap'⟩ ⟨rests', sizes, rfl⟩
          exact Prog.ends_pure ⟨sizes, rfl, tree, rests', maps⟩
  | insert key value =>
      rcases represents with ⟨tree, rests, maps⟩
      rcases allowed with ⟨fits, rfl | ⟨isKey, isNew⟩⟩
      · refine Prog.ends_bind (rests.settles_insert_invalid fits) ?_
        rintro omap' ⟨tree', rests', sizes, same⟩
        refine Prog.ends_pure ⟨sizes, rfl, tree', rests', fun key' => ?_⟩
        refine Eq.trans ?_ (maps key')
        refine Option.ext (fun value' => ?_)
        rw [lookup_eq_some_iff rests'.ordered, lookup_eq_some_iff rests.ordered, same]
      · refine Prog.ends_bind (rests.settles_insert (shallow tree rests) isKey
          ((maps key).trans isNew) fits) ?_
        rintro omap' ⟨tree', rests', sizes, changed⟩
        refine Prog.ends_pure ⟨sizes, rfl, ?_⟩
        simp only [TeeAvlOp.apply, if_neg isKey.ne_invalid]
        exact represents_of_update rests' maps rfl changed
  | remove key =>
      rcases represents with ⟨tree, rests, maps⟩
      refine Prog.ends_bind (rests.settles_remove (shallow tree rests) key) ?_
      rintro omap' ⟨tree', rests', sizes, changed⟩
      exact Prog.ends_pure ⟨sizes, rfl, represents_of_update rests' maps rfl changed⟩
  | dummyAccess =>
      rcases represents with ⟨tree, rests, maps⟩
      unfold TeeAvlOp.call dummyAccess
      simp only [bind_assoc, pure_bind]
      refine Prog.ends_bind (rests.settles_dummy ⟨by simp, by simp⟩ invalidKey) ?_
      rintro ⟨found, omap'⟩ ⟨rests', sizes, -⟩
      exact Prog.ends_pure ⟨sizes, rfl, tree, rests', maps⟩

/-! ## The stored tree -/

/-- An ORAM whose values all have its size. -/
theorem cut_of_fitted {oram : EnclaveOram} (fitted : oram.Fitted oram.valueSize) :
    oram.cut = oram := by
  have whole : ∀ entries : List Block,
      (∀ entry ∈ entries, EnclaveOram.Fits oram.valueSize oram.valueSize entry) →
        entries.map (cutBlock oram.valueSize) = entries := by
    intro entries fits
    rw [List.map_congr_left (fun entry mem => cutBlock_of_le (fits entry mem).2), List.map_id']
  unfold cut
  rw [whole _ fitted.stash, show (fun node => (oram.tree node).map (cutBlock oram.valueSize)) =
    oram.tree from funext (fun node => whole _ (fitted.tree node))]

/-- The blocks of the lower ORAM are those of its ledger. -/
theorem Stocked.mem_blocks {ledger : Ledger} (stocked : omap.Stocked ledger) (block : Block) :
    block ∈ omap.lowerOram.blocks ↔
      fitLedger omap.nodeSize ledger block.key = some (block.leaf, block.value) := by
  rcases stocked.sound.keeps with ⟨held, holds, lists⟩
  have fitted : omap.lowerOram.Fitted omap.lowerOram.valueSize :=
    stocked.size.symm ▸ stocked.sound.fitted
  have blocks := holds.blocks_eq
  rw [cut_of_fitted fitted] at blocks
  rw [blocks, lists.entry block, stocked.size]

/-- A block as a node. -/
def blockPiece (block : Block) : Piece :=
  AVLLocalNode.piece { key := block.key, leaf := block.leaf, avl := AVLOmap.nodeOf block.value
                       parentKey := invalidKey, depth := 0 }

theorem Stocked.storeOf_block {ledger : Ledger} (stocked : omap.Stocked ledger) {block : Block}
    (mem : block ∈ omap.lowerOram.blocks) :
    storeOf omap.nodeSize ledger block.key = some (blockPiece block) := by
  rcases Option.map_eq_some_iff.mp ((stocked.mem_blocks block).mp mem) with ⟨entry, listed, same⟩
  rcases block with ⟨key, leaf, value⟩
  rw [Prod.mk.injEq] at same
  rcases same with ⟨rfl, rfl⟩
  rw [storeOf, listed]
  rfl

/-- Every stored node is a block. -/
theorem Stocked.exists_block {ledger : Ledger} (stocked : omap.Stocked ledger) {key : Int}
    {piece : Piece} (isStored : storeOf omap.nodeSize ledger key = some piece) :
    ∃ block ∈ omap.lowerOram.blocks, block.key = key ∧ piece = blockPiece block := by
  rcases Option.map_eq_some_iff.mp isStored with ⟨entry, listed, rfl⟩
  refine ⟨⟨key, entry.1, fitValue omap.nodeSize entry.2⟩, (stocked.mem_blocks _).mpr ?_, rfl, rfl⟩
  rw [fitLedger, listed]
  rfl

/-- The blocks are the records, each under the leaf that is recorded for it. -/
structure Laid (omap : TeeAvlOmap) (contents : Int → Option Bytes) : Prop where
  once : ∀ key ≠ invalidKey,
    omap.lowerOram.keyCount key = if (contents key).isSome then 1 else 0
  value : ∀ block ∈ omap.lowerOram.blocks,
    contents block.key = some (AVLOmap.nodeOf block.value).data
  recorded : ∀ block ∈ omap.lowerOram.blocks,
    block.key = omap.rootKey ∧ block.leaf = omap.rootLeaf ∨
      ∃ parent ∈ omap.lowerOram.blocks, ∃ side,
        ((AVLOmap.nodeOf parent.value).child side).key = block.key ∧
          ((AVLOmap.nodeOf parent.value).child side).leaf = block.leaf
  placed : ∀ node ∈ omap.lowerOram.nodes, ∀ slot ∈ omap.lowerOram.tree node,
    slot.key ≠ invalidKey → omap.lowerOram.pathContains slot.leaf node = true

/-- Nothing is opened. -/
theorem nodeOf?_empty (store : Int → Option Piece) (key : Int) :
    nodeOf? [] store key = store key := by
  refine nodeOf?_stored ?_
  unfold pieceAt
  split <;> rfl

theorem Represents.laid (represents : omap.Represents contents) : omap.Laid contents := by
  rcases represents with ⟨tree, ⟨ledger, stocked, woven, -⟩, maps⟩
  have isNode := nodeOf?_empty (storeOf omap.nodeSize ledger)
  have isLink : ∀ {key piece}, storeOf omap.nodeSize ledger key = some piece →
      pieceLinks [] (storeOf omap.nodeSize ledger) key = some piece.link := by
    intro key piece isStored
    rw [pieceLinks, isNode, isStored, Option.map_some]
  -- A record of the finite map is a node of the tree, and that is a stored one.
  have value : ∀ key piece, storeOf omap.nodeSize ledger key = some piece →
      contents key = some piece.data := by
    intro key piece isStored
    have inTree := woven.all key piece ((isNode key).trans isStored)
    rcases woven.spells.found inTree with ⟨link, found, isEntry⟩
    rw [isLink isStored] at found
    cases found
    exact (maps key).symm.trans ((lookup_eq_some_iff woven.ordered).mpr isEntry)
  have stored : ∀ key, (contents key).isSome = (ledger key).isSome := by
    intro key
    rcases isStored : storeOf omap.nodeSize ledger key with _ | piece
    · have notListed : ledger key = none := Option.map_eq_none_iff.mp isStored
      rcases isRecord : contents key with _ | record
      · rw [notListed]
        rfl
      · have isEntry := (lookup_eq_some_iff woven.ordered).mp ((maps key).trans isRecord)
        rcases woven.spells.found (List.mem_map.mpr ⟨_, isEntry, rfl⟩) with ⟨link, found, -⟩
        rw [pieceLinks, isNode, isStored] at found
        cases found
    · rw [value key piece isStored]
      rcases Option.map_eq_some_iff.mp isStored with ⟨entry, listed, -⟩
      rw [listed]
      rfl
  rcases stocked.sound.keeps with ⟨held, holds, -⟩
  refine ⟨fun key isReal => ?_, fun block mem => ?_, fun block mem => ?_, fun node mem => ?_⟩
  · rw [stored, ← keyCount_cut, stocked.sound.keeps.keyCount_eq isReal, fitLedger,
      Option.isSome_map]
  · exact value block.key (blockPiece block) (stocked.storeOf_block mem)
  · have isStored := stocked.storeOf_block mem
    have inTree := woven.all block.key _ ((isNode block.key).trans isStored)
    rcases woven.spells.parent inTree with isRoot |
        ⟨parentKey, parentIn, link, side, found, isChild⟩
    · exact Or.inl ⟨isRoot, (woven.rootLeaf_eq _ (isRoot ▸ isStored)).symm⟩
    · rw [pieceLinks, isNode, Option.map_eq_some_iff] at found
      rcases found with ⟨piece, parentStored, rfl⟩
      rcases stocked.exists_block parentStored with ⟨parent, parentMem, rfl, rfl⟩
      refine Or.inr ⟨parent, parentMem, side, isChild, ?_⟩
      refine woven.leaves parent.key _ side (blockPiece block)
        ((isNode parent.key).trans parentStored) ?_
      rw [show (blockPiece parent).childKey side = block.key from isChild]
      exact isStored
  · exact (slots_of_cut holds mem).2

/-- A map that stores few enough keys is never too high. -/
theorem shallow_of_blocks {keys : List Int}
    (only : ∀ block ∈ omap.lowerOram.blocks, block.key ∈ keys)
    (few : keys.length ≤ omap.maxHeight) : omap.Shallow := by
  rintro tree ⟨ledger, stocked, woven, -⟩
  have subset : keysOf tree ⊆ keys := by
    intro key mem
    rcases woven.spells.found mem with ⟨link, found, -⟩
    rw [pieceLinks, nodeOf?_empty, Option.map_eq_some_iff] at found
    rcases found with ⟨piece, isStored, rfl⟩
    rcases stocked.exists_block isStored with ⟨block, blockMem, rfl, -⟩
    exact only block blockMem
  have size := (nodup_keysOf woven.ordered).subperm subset |>.length_le
  rw [keysOf, List.length_map, BinaryTree.length_toList] at size
  exact (BinaryTree.height_le_numNodes tree).trans (size.trans few)

/-- A tree with few enough records is never too high. -/
theorem Represents.shallow (represents : omap.Represents contents) {keys : List Int}
    (only : ∀ key, contents key ≠ none → key ∈ keys) (few : keys.length ≤ omap.maxHeight) :
    omap.Shallow := by
  refine shallow_of_blocks (fun block mem => only block.key ?_) few
  rw [represents.laid.value block mem]
  exact Option.some_ne_none _

/-- The tree stores no other keys than these. -/
def StoresOnly (omap : TeeAvlOmap) (keys : List Int) : Prop :=
  (∀ block ∈ omap.lowerOram.stash, block.key ≠ invalidKey → block.key ∈ keys) ∧
    ∀ node ∈ omap.lowerOram.nodes, ∀ slot ∈ omap.lowerOram.tree node,
      slot.key ≠ invalidKey → slot.key ∈ keys

instance (omap : TeeAvlOmap) (keys : List Int) : Decidable (omap.StoresOnly keys) :=
  inferInstanceAs (Decidable (_ ∧ _))

theorem StoresOnly.shallow {keys : List Int} (only : omap.StoresOnly keys)
    (few : keys.length ≤ omap.maxHeight) : omap.Shallow := by
  refine shallow_of_blocks (fun block mem => ?_) few
  rw [EnclaveOram.blocks, Multiset.mem_add, Multiset.mem_sum] at mem
  rcases mem with inStash | ⟨node, inTree, inBucket⟩
  · rcases mem_realBlocks.mp inStash with ⟨stashMem, isReal⟩
    exact only.1 block stashMem isReal
  · rcases mem_realBlocks.mp inBucket with ⟨slotMem, isReal⟩
    exact only.2 node inTree block slotMem isReal

/-! ## Runs -/

/--
The operations that a map made since it was filled, with what they returned. Every one of them
is allowed, and finds a tree that is no higher than the loops are long.
-/
inductive Called (capacity : Int) (valueSize bucketSize : Nat) (splitDepth : Int)
    (data : List (Int × Bytes)) : List (TeeAvlOp × TeeAvlResult) → TeeAvlOmap → Prop
  | init {world world' : TeeWorld} {omap : TeeAvlOmap}
      (run : ((new capacity valueSize bucketSize splitDepth).init data).runFrom world =
        (.ok omap, world')) : Called capacity valueSize bucketSize splitDepth data [] omap
  | op {history : List (TeeAvlOp × TeeAvlResult)} {omap omap' : TeeAvlOmap} {op : TeeAvlOp}
      {result : TeeAvlResult} {world world' : TeeWorld}
      (before : Called capacity valueSize bucketSize splitDepth data history omap)
      (shallow : omap.Shallow)
      (allowed : op.Allowed valueSize (TeeAvlOp.applyAll valueSize
        (keptRecords valueSize data) (history.map Prod.fst)))
      (run : (op.call omap).runFrom world = (.ok (result, omap'), world')) :
      Called capacity valueSize bucketSize splitDepth data (history ++ [(op, result)]) omap'

section Runs

variable {capacity : Int} {valueSize bucketSize : Nat} {splitDepth : Int}
  {data : List (Int × Bytes)} {history : List (TeeAvlOp × TeeAvlResult)}

/-- The map stores what a finite map would have after the same operations. -/
theorem Called.represents
    (called : Called capacity valueSize bucketSize splitDepth data history omap)
    (noSplit : splitDepth ≤ 0) (isInt : IsInt capacity) (loadable : Loadable valueSize data) :
    SameSizes (new capacity valueSize bucketSize splitDepth) omap ∧
      omap.Represents (TeeAvlOp.applyAll valueSize (keptRecords valueSize data)
        (history.map Prod.fst)) ∧
      history.map Prod.snd = TeeAvlOp.answers valueSize (keptRecords valueSize data)
        (history.map Prod.fst) := by
  induction called with
  | init run =>
      rcases Prog.Ends.returned (settles_init noSplit
        (level_le_of_isInt isInt valueSize bucketSize splitDepth) loadable) run with ⟨sizes, rests⟩
      exact ⟨sizes, ⟨_, rests, lookup_initialTree loadable.nodup loadable.short⟩, rfl⟩
  | @op history omap omap' op result world world' before shallow allowed run ih =>
      rcases ih with ⟨sizes, represents, results⟩
      have size : omap.valueSize = valueSize := sizes.valueSize
      rcases Prog.Ends.returned (represents.settles_call shallow (size.symm ▸ allowed)) run with
        ⟨sizes', answered, represents'⟩
      dsimp only at answered represents'
      rw [size] at answered represents'
      rw [List.map_append, List.map_append, results, answered]
      refine ⟨sizes.trans sizes', ?_, ?_⟩
      · rw [List.map_singleton, TeeAvlOp.applyAll_append]
        exact represents'
      · rw [List.map_singleton, List.map_singleton, TeeAvlOp.answers_append]

theorem loadable_sample : Loadable 1 [(5, [7])] :=
  ⟨by decide, by decide, by simp [IsKey], by decide⟩

/-- A second record is inserted and then searched for. -/
def insertSearch : TeeRand (TeeAvlResult × TeeAvlResult × TeeAvlOmap) := do
  let omap ← (new 2 1 2 0).init [(5, [7])]
  let (result, omap) ← (TeeAvlOp.insert 6 [8]).call omap
  let (result', omap) ← (TeeAvlOp.search 6 none none).call omap
  return (result, result', omap)

/-- A map of one record, into which a second one is inserted and then searched for. -/
theorem called_insertSearch : ∃ omap, Called 2 1 2 0 [(5, [7])]
    [(.insert 6 [8], .done), (.search 6 none none, .searched [8])] omap := by
  have isInt : IsInt 2 := by decide
  have outcome : (insertSearch.runFrom {}).1.toOption.map (fun run => (run.1, run.2.1)) =
      some (.done, .searched [8]) := by
    decide +kernel
  rcases run : insertSearch.runFrom {} with ⟨_ | ⟨result, result', omap''⟩, last⟩
  · rw [run] at outcome
    cases outcome
  rw [run] at outcome
  cases outcome
  rcases Prog.runs_of_bind run with ⟨omap, world, started, run⟩
  rcases Prog.runs_of_bind run with ⟨⟨_, omap'⟩, world', inserted, run⟩
  rcases Prog.runs_of_bind run with ⟨⟨_, _⟩, world'', searched, run⟩
  cases run
  have few : ∀ {history : List (TeeAvlOp × TeeAvlResult)} {omap : TeeAvlOmap},
      Called 2 1 2 0 [(5, [7])] history omap →
      (∀ key, TeeAvlOp.applyAll 1 (keptRecords 1 [(5, [7])]) (history.map Prod.fst) key ≠ none →
        key ∈ [5, 6]) → omap.Shallow := by
    intro history omap called only
    rcases called.represents (by decide) isInt loadable_sample with ⟨sizes, represents, -⟩
    exact represents.shallow only (sizes.maxHeight.symm ▸ (new_shape 2 1 2 0).1)
  have initial : ∀ key, keptRecords 1 [(5, [7])] key ≠ none → key = 5 := by
    intro key present
    by_contra differs
    exact present (by simp [keptRecords, KeyMap.lookupEntry, differs])
  have first : Called 2 1 2 0 [(5, [7])] [] omap := .init started
  have isNew : (TeeAvlOp.insert 6 [8]).Allowed 1 (keptRecords 1 [(5, [7])]) :=
    ⟨by decide, Or.inr ⟨by simp [IsKey], by decide⟩⟩
  have second : Called 2 1 2 0 [(5, [7])] [(.insert 6 [8], .done)] omap' :=
    .op first (few first (fun key present => by simp [initial key present])) isNew inserted
  have onlyTwo : ∀ key, (TeeAvlOp.insert 6 [8]).apply 1 (keptRecords 1 [(5, [7])]) key ≠ none →
      key ∈ [5, 6] := by
    intro key present
    by_cases isSix : key = 6
    · simp [isSix]
    · simp only [TeeAvlOp.apply, if_neg (show (6 : Int) ≠ invalidKey by decide),
        Function.update_of_ne isSix] at present
      simp [initial key present]
  have fits : (TeeAvlOp.search 6 none none).Allowed 1
      ((TeeAvlOp.insert 6 [8]).apply 1 (keptRecords 1 [(5, [7])])) := ⟨by simp, by simp⟩
  exact ⟨omap'', .op second (few second onlyTwo) fits searched⟩

end Runs

end TeeAvlOmap

end TieredOmap
