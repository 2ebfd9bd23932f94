import TieredOMap.Tee.TeeAvlWalk

/-!
# Searching the enclave's tree

The search loop meets the node of a key if the tree is no higher than the loop is long. What it
returns is the old value, and the new one is written to the entry that it met.
-/

namespace TieredOmap

open BinaryTree Links EnclaveOram

namespace TeeAvlOmap

-- What a step ends with is known from its lemma, never from running it.
attribute [local irreducible] Prog.Ends

variable {omap omap' : TeeAvlOmap} {ledger : Ledger} {tree tree' sub : BinaryTree (Int × Bytes)}
  {key above : Int} {before after : List (Int × Bytes)} {node : AVLLocalNode} {data : Bytes}
  {update : Option Bytes} {state : SearchState}

/-! ## Writing to an entry -/

/-- Write to the entry at an index. -/
def writeAt (omap : TeeAvlOmap) (idx : Nat) (data : Bytes) : TeeAvlOmap :=
  { omap with
    local_ := omap.local_.modify idx (fun node => { node with avl := { node.avl with data } }) }

theorem kept_writeAt (omap : TeeAvlOmap) (idx : Nat) (data : Bytes) :
    Kept omap (omap.writeAt idx data) := ⟨rfl, rfl, rfl, rfl, rfl⟩

theorem getElem?_writeAt {idx : Nat} (found : omap.local_[idx]? = some node) (data : Bytes) :
    (omap.writeAt idx data).local_[idx]? = some { node with avl := { node.avl with data } } := by
  change (omap.local_.modify idx _)[idx]? = _
  rw [List.getElem?_modify, found]
  exact congrArg some (if_pos rfl)

theorem pieces_writeAt {idx : Nat} (once : Once omap.pieces) (found : omap.local_[idx]? = some node)
    (isReal : node.key ≠ invalidKey) (data : Bytes) :
    (omap.writeAt idx data).pieces = omap.pieces.map (Piece.withData node.key data) := by
  refine List.ext_getElem? (fun i => ?_)
  rw [getElem?_pieces, List.getElem?_map, getElem?_pieces]
  change ((omap.local_.modify idx _)[i]?).map _ = _
  rw [List.getElem?_modify]
  rcases foundEntry : omap.local_[i]? with _ | entry
  · rfl
  simp only [Option.map_some, Option.map_eq_map]
  unfold Piece.withData
  by_cases same : idx = i
  · subst same
    cases found.symm.trans foundEntry
    rw [if_pos rfl]
    exact congrArg some (if_pos rfl).symm
  · have differs : entry.piece.key ≠ node.key := fun sameKey =>
      same (index_unique once found foundEntry sameKey.symm isReal).1
    rw [if_neg same, if_neg differs]

/-- A value is written to a local node. -/
theorem Opened.writeAt (opened : Opened omap ledger tree) {idx : Nat}
    (found : omap.local_[idx]? = some node) (isReal : node.key ≠ invalidKey)
    (sized : data.length = omap.valueSize) : ∃ tree', Opened (omap.writeAt idx data) ledger tree' ∧
      ∃ lower upper, tree.toList = lower ++ (node.key, node.avl.data) :: upper ∧
        tree'.toList = lower ++ (node.key, data) :: upper := by
  have once := opened.weaves.once
  have isLocal : pieceAt omap.pieces node.key = some node.piece :=
    (pieceAt_eq_some_iff once).mpr ⟨List.mem_map.mpr ⟨node, List.mem_of_getElem? found, rfl⟩, rfl,
      isReal⟩
  rcases opened.weaves.setData isLocal data with ⟨tree', woven, lower, upper, split, split'⟩
  rw [← pieces_writeAt once found isReal data] at woven
  refine ⟨tree', ⟨opened.stocked.congr rfl rfl rfl, woven, ?_, ?_⟩, lower, upper, split, split'⟩
  · intro entry mem
    rcases List.mem_iff_getElem?.mp mem with ⟨i, foundEntry⟩
    rw [show (omap.writeAt idx data).local_ = omap.local_.modify idx _ from rfl,
      List.getElem?_modify] at foundEntry
    rcases wasThere : omap.local_[i]? with _ | old
    · rw [wasThere] at foundEntry
      cases foundEntry
    · rw [wasThere] at foundEntry
      cases foundEntry
      split
      · exact sized
      · exact opened.sized old (List.mem_of_getElem? wasThere)
  · intro key mem
    refine opened.keys key ?_
    unfold keysOf at mem ⊢
    rw [split'] at mem
    rw [split]
    simpa using mem

/-! ## The value of a key -/

/-- Trees that differ in the value of one key. -/
theorem lookup_of_split {lower upper : List (Int × Bytes)} {old : Bytes} (ordered : tree.Ordered)
    (ordered' : tree'.Ordered) (split : tree.toList = lower ++ (key, old) :: upper)
    (split' : tree'.toList = lower ++ (key, data) :: upper) : tree.lookup key = some old ∧
      (fun key' => tree'.lookup key') =
        Function.update (fun key' => tree.lookup key') key (some data) := by
  constructor
  · rw [lookup_eq_some_iff ordered, split]
    simp
  · refine lookup_eq_update ordered ordered' (fun value => ?_) (fun entry different => ?_)
    · have here : tree'.lookup key = some data := by
        rw [lookup_eq_some_iff ordered', split']
        simp
      rw [← lookup_eq_some_iff ordered', here]
    · have notOld : entry ≠ (key, old) := fun same => different (congrArg Prod.fst same)
      have notNew : entry ≠ (key, data) := fun same => different (congrArg Prod.fst same)
      rw [split, split']
      simp [notOld, notNew]

theorem lookup_of_notMem (ordered : tree.Ordered) (absent : key ∉ keysOf tree) :
    tree.lookup key = none := by
  rcases found : tree.lookup key with _ | value
  · rfl
  · exact absurd (List.mem_map.mpr ⟨_, (lookup_eq_some_iff ordered).mp found, rfl⟩) absent

/-! ## The loop -/

/-- The value that a search writes. -/
def written (size : Nat) (update : Option Bytes) (old : Bytes) : Bytes :=
  (update.map (padBytes · size)).getD old

/-- What the search loop ends with. -/
inductive Sought (key : Int) (update : Option Bytes) (tree : BinaryTree (Int × Bytes))
    (initial : Bytes) (after : SearchState) (omap : TeeAvlOmap) : Prop
  | missing {ledger : Ledger} (absent : key ∉ keysOf tree) (notFound : after.found = false)
      (result : after.result = initial) (opened : Opened omap ledger tree)
  | hit {ledger : Ledger} {tree' : BinaryTree (Int × Bytes)} {node : AVLLocalNode} {idx : Nat}
      {lower upper : List (Int × Bytes)} (isFound : after.found = true)
      (isIndex : after.foundIdx = idx) (found : omap.local_[idx]? = some node)
      (isKey : node.key = key) (opened : Opened omap ledger tree')
      (split : tree.toList = lower ++ (key, after.result) :: upper)
      (data : node.avl.data = written omap.valueSize update after.result)
      (split' : tree'.toList = lower ++ (key, node.avl.data) :: upper)

theorem oMovBytes_false {dst src : Bytes} (sameSize : dst.length = src.length) :
    oMovBytes false dst src = dst := oMovBytes_of_length sameSize

/-- What a step of the loop writes. -/
def writeMatch (isMatch : Bool) (update : Option Bytes) (omap : TeeAvlOmap) : TeeAvlOmap :=
  match update with
  | some value => omap.modifyLast (fun avl =>
      { avl with data := oMovBytes isMatch avl.data (padBytes value omap.valueSize) })
  | none => omap

theorem writeMatch_false {nodes : List AVLLocalNode} (added : omap.local_ = nodes ++ [node])
    (sized : node.avl.data.length = omap.valueSize)
    (fits : ∀ value ∈ update, value.length ≤ omap.valueSize) :
    writeMatch false update omap = omap := by
  cases update with
  | none => rfl
  | some value =>
      unfold writeMatch
      refine modifyLast_self added ?_
      rw [oMovBytes_false (sized.trans (length_padBytes (fits value rfl)).symm)]

theorem writeMatch_true {nodes : List AVLLocalNode} (added : omap.local_ = nodes ++ [node]) :
    writeMatch true update omap =
      omap.writeAt nodes.length (written omap.valueSize update node.avl.data) := by
  have isLast : ∀ data, omap.modifyLast (fun avl => { avl with data }) =
      omap.writeAt nodes.length data := by
    intro data
    unfold modifyLast writeAt
    rw [added, List.length_append, List.length_singleton, Nat.add_sub_cancel]
  cases update with
  | none => exact (modifyLast_self added rfl).symm.trans (isLast node.avl.data)
  | some value => exact isLast (padBytes value omap.valueSize)

theorem length_written {size : Nat} {old : Bytes} (sized : old.length = size)
    (fits : ∀ value ∈ update, value.length ≤ size) : (written size update old).length = size := by
  cases update with
  | none => exact sized
  | some value => exact length_padBytes (fits value rfl)

/-- Dummies do not matter. -/
theorem Opened.idled (opened : Opened omap ledger tree) (idled : Idled omap omap')
    (stocked : omap'.Stocked ledger) : Opened omap' ledger tree := by
  refine ⟨stocked, ?_, idled.sized opened.sized, opened.keys⟩
  rw [idled.toKept.nodeSize]
  exact idled.weaves opened.weaves

/-- One round of the loop. -/
theorem searchLoop_succ (key : Int) (update : Option Bytes) (count : Nat) (d : Int)
    (state : SearchState) (omap : TeeAvlOmap) : searchLoop key update (count + 1) d state omap = (do
      let isSearching := !oEqual state.curKey invalidKey && !state.found
      let parentKey := oSelect isSearching omap.lastKey invalidKey
      let omap ← omap.oramStep d state.curKey state.curLeaf isSearching parentKey
      let node := omap.lastNode
      let isMatch := isSearching && oEqual key node.key
      let still := isSearching && !isMatch
      let goLeft := still && oLess key state.curKey
      let nextKey := oSelect goLeft node.avl.lKey node.avl.rKey
      let nextLeaf := oSelect goLeft node.avl.lLeaf node.avl.rLeaf
      searchLoop key update count (d + 1) {
        curKey := oSelect still nextKey invalidKey
        curLeaf := oSelect still nextLeaf invalidLeaf
        found := state.found || isMatch
        foundIdx := oMov isMatch state.foundIdx d
        result := oMovBytes isMatch state.result node.avl.data }
          (writeMatch isMatch update omap)) := by
  cases update <;> rfl

/-- A loop with nowhere to go adds dummies. -/
theorem settles_searchLoop_idle (key : Int) (count : Nat) {d : Int} {state : SearchState}
    {omap : TeeAvlOmap} (stocked : omap.Stocked ledger)
    (fits : ∀ value ∈ update, value.length ≤ omap.valueSize)
    (idle : state.curKey = invalidKey ∨ state.found = true)
    (sized : state.result.length = omap.valueSize) :
    Settles (searchLoop key update count d state omap) (fun outcome =>
      outcome.2.Stocked ledger ∧ Idled omap outcome.2 ∧ outcome.1.found = state.found ∧
        outcome.1.foundIdx = state.foundIdx ∧ outcome.1.result = state.result) := by
  induction count generalizing d state omap with
  | zero => exact Prog.ends_pure ⟨stocked, Idled.refl omap, rfl, rfl, rfl⟩
  | succ count ih =>
      have notSearching : (!oEqual state.curKey invalidKey && !state.found) = false := by
        rcases idle with nowhere | found
        · simp [nowhere]
        · simp [found]
      rw [searchLoop_succ]
      simp only [notSearching, Bool.false_and, Bool.or_false]
      refine Prog.ends_bind (stocked.settles_idle d _ _ _) ?_
      rintro omap' ⟨stocked', idled, node, added, nodeSized⟩
      have fits' : ∀ value ∈ update, value.length ≤ omap'.valueSize := by
        rw [idled.valueSize]
        exact fits
      rw [writeMatch_false added (nodeSized.trans idled.valueSize.symm) fits',
          lastNode_append added, oMovBytes_false (sized.trans nodeSized.symm)]
      refine Prog.Ends.mono (ih stocked' fits' ?_ ?_) ?_
      · exact Or.inl rfl
      · exact sized.trans idled.valueSize.symm
      · rintro outcome ⟨stocked'', idled', rest⟩
        exact ⟨stocked'', idled.trans idled', rest⟩

/-- The side on which the loop goes on. -/
theorem nextOn (side : Bool) (node : AVLLocalNode) :
    oSelect side node.avl.lKey node.avl.rKey = node.piece.childKey side ∧
      oSelect side node.avl.lLeaf node.avl.rLeaf = node.piece.childLeaf side := by
  cases side <;> exact ⟨rfl, rfl⟩

/-- Below a node a key is on the side that the comparison tells. -/
theorem Arrived.encloses {child other : BinaryTree (Int × Bytes)} {side : Bool}
    (arrived : Arrived omap ledger tree node (nodeOn side (node.key, node.avl.data) child other)
      before after) (encloses : IsKey key → Encloses key before after)
    (isSide : side = oLess key node.key) (different : key ≠ node.key) (isKey : IsKey key) :
    Encloses key (beforeChild side (node.key, node.avl.data) other before)
      (afterChild side (node.key, node.avl.data) other after) := by
  have nodeKey := arrived.keys node.key (arrived.focus.inside (mem_keysOf_nodeOn.mpr (Or.inl rfl)))
  refine (encloses isKey).down arrived.weaves.ordered arrived.focus.split ?_ different
  rw [isSide, oLess_keys isKey nodeKey]

/-- A key that belongs where there is no node is not in the tree. -/
theorem Arrived.absent {other : BinaryTree (Int × Bytes)} {side : Bool}
    (arrived : Arrived omap ledger tree node (nodeOn side (node.key, node.avl.data) .nil other)
      before after) (encloses : IsKey key → Encloses key before after)
    (isSide : side = oLess key node.key) (different : key ≠ node.key) : key ∉ keysOf tree := by
  intro mem
  have below := arrived.encloses encloses isSide different (arrived.keys key mem)
  have split := arrived.focus.split
  rw [toList_nodeOn_between] at split
  exact absurd (below.mem_sub split mem) (by simp)

/-- The loop finds a key if it is long enough. -/
theorem Walk.settles_searchLoop {count : Nat} {d : Int} {state : SearchState}
    (walk : Walk omap ledger tree state.curKey state.curLeaf above sub before after)
    (isAbove : omap.lastKey = above) (encloses : IsKey key → Encloses key before after)
    (tall : sub.height ≤ count)
    (place : d = omap.local_.length) (searching : state.found = false)
    (sized : state.result.length = omap.valueSize)
    (fits : ∀ value ∈ update, value.length ≤ omap.valueSize) :
    Settles (searchLoop key update count d state omap) (fun outcome =>
      Kept omap outcome.2 ∧ Sought key update tree state.result outcome.1 outcome.2) := by
  induction count generalizing d state omap ledger above sub before after with
  | zero =>
      rcases walk.focus.root true with ⟨_, _, _, _, rfl, -⟩
      rw [height_nodeOn] at tall
      omega
  | succ count ih =>
      have curReal : state.curKey ≠ invalidKey := walk.focus.real
      have isSearching : (!oEqual state.curKey invalidKey && !state.found) = true := by
        simp [curReal, searching]
      rw [searchLoop_succ]
      simp only [isSearching, Bool.true_and, oSelect_true]
      simp only [searching, Bool.false_or, isAbove]
      refine Prog.ends_bind (walk.settles_step d) ?_
      rintro omap' ⟨ledger', node, arrived, sameKey, kept, added⟩
      have fits' : ∀ value ∈ update, value.length ≤ omap'.valueSize := by
        rw [kept.valueSize]
        exact fits
      have nodeSized : node.avl.data.length = omap'.valueSize :=
        arrived.sized node (by simp [added])
      have resultSized : state.result.length = node.avl.data.length :=
        (sized.trans kept.valueSize.symm).trans nodeSized.symm
      rw [lastNode_append added, oEqual_eq]
      by_cases isMatch : key = node.key
      · subst isMatch
        have found : omap'.local_[omap.local_.length]? = some node := by
          rw [added, List.getElem?_concat_length]
        have dataSized := length_written nodeSized fits'
        rw [decide_eq_true rfl, writeMatch_true added]
        rcases arrived.toOpened.writeAt found arrived.focus.real dataSized with
          ⟨tree', opened, lower, upper, split, split'⟩
        refine Prog.Ends.mono (settles_searchLoop_idle node.key count opened.stocked fits'
          (Or.inr rfl) nodeSized) ?_
        rintro ⟨outcome, last⟩ ⟨stocked, idled, isFound, isIndex, result⟩
        refine ⟨(kept.trans (kept_writeAt omap' _ _)).trans idled.toKept,
          .hit isFound (isIndex.trans place) (idled.getElem? (getElem?_writeAt found _)) rfl
            (opened.idled idled stocked) ?_ ?_ split'⟩
        · rw [result]
          exact split
        · rw [result, idled.valueSize]
          rfl
      · rw [decide_eq_false isMatch]
        rw [writeMatch_false added nodeSized fits', oMovBytes_false resultSized]
        simp only [Bool.not_false, Bool.true_and, oSelect_true, oMov_false]
        rw [(nextOn _ node).1, (nextOn _ node).2, ← sameKey]
        generalize isSide : oLess key node.key = side
        rcases arrived.split side with ⟨child, other, rfl, empty, goOn⟩
        by_cases nowhere : node.piece.childKey side = invalidKey
        · have isEmpty := empty nowhere
          subst isEmpty
          rw [nowhere]
          refine Prog.Ends.mono (settles_searchLoop_idle key count arrived.stocked fits' ?_ ?_) ?_
          · exact Or.inl rfl
          · exact sized.trans kept.valueSize.symm
          · rintro ⟨outcome, last⟩ ⟨stocked, idled, isFound, -, result⟩
            exact ⟨kept.trans idled.toKept, .missing (arrived.absent encloses isSide.symm isMatch)
              isFound result (arrived.toOpened.idled idled stocked)⟩
        · refine Prog.Ends.mono (ih (goOn nowhere) ?_ ?_ ?_ ?_ ?_ ?_ fits') ?_
          · exact lastKey_append added
          · exact arrived.encloses encloses isSide.symm isMatch
          · rw [height_nodeOn] at tall
            omega
          · rw [added, List.length_append, List.length_singleton, place]
            rfl
          · rfl
          · exact sized.trans kept.valueSize.symm
          · rintro ⟨outcome, last⟩ ⟨kept', sought⟩
            exact ⟨kept.trans kept', sought⟩

/-! ## The whole search -/

/-- The new value of a key that is found. -/
def rewritten (size : Nat) (update : Option Bytes) (transform : Option (Bytes → Bytes))
    (old : Bytes) : Bytes :=
  match transform with
  | some transform => padBytes (transform old) size
  | none => written size update old

/-- What is written is not larger than a value. -/
structure Fitting (size : Nat) (update : Option Bytes) (transform : Option (Bytes → Bytes)) :
    Prop where
  update : ∀ value ∈ update, value.length ≤ size
  transform : ∀ f ∈ transform, ∀ old : Bytes, old.length = size → (f old).length ≤ size

/-- The transformed value is written after the loop. -/
def transformed (omap : TeeAvlOmap) (state : SearchState) (transform : Option (Bytes → Bytes)) :
    TeeAvlOmap :=
  match transform with
  | some transform => omap.transformFound state transform
  | none => omap

theorem transformFound_missed {f : Bytes → Bytes} (sized : omap.DataSized)
    (fits : (f state.result).length ≤ omap.valueSize) (notFound : state.found = false) :
    omap.transformFound state f = omap := by
  have same : omap.local_.mapIdx (fun i node =>
      { node with avl := { node.avl with
          data := oMovBytes (state.found && oEqual i state.foundIdx) node.avl.data
            (padBytes (f state.result) omap.valueSize) } }) = omap.local_ := by
    refine List.ext_getElem? (fun i => ?_)
    rw [List.getElem?_mapIdx]
    rcases found : omap.local_[i]? with _ | node
    · rfl
    · rw [Option.map_some, notFound, Bool.false_and, oMovBytes_false
        ((sized node (List.mem_of_getElem? found)).trans (length_padBytes fits).symm)]
  unfold transformFound
  dsimp only
  rw [same]

theorem transformFound_hit {f : Bytes → Bytes} {idx : Nat} (sized : omap.DataSized)
    (fits : (f state.result).length ≤ omap.valueSize) (isFound : state.found = true)
    (isIndex : state.foundIdx = idx) :
    omap.transformFound state f = omap.writeAt idx (padBytes (f state.result) omap.valueSize) := by
  unfold transformFound TeeAvlOmap.writeAt
  refine congrArg (fun nodes => { omap with local_ := nodes }) ?_
  refine List.ext_getElem? (fun i => ?_)
  rw [List.getElem?_mapIdx, List.getElem?_modify]
  rcases found : omap.local_[i]? with _ | node
  · rfl
  · rw [Option.map_some, isFound, isIndex, Bool.true_and, oEqual_eq,
      oMovBytes_of_length ((sized node (List.mem_of_getElem? found)).trans
        (length_padBytes fits).symm)]
    by_cases same : idx = i
    · simp [same]
    · have differs : (i : Int) ≠ idx := fun isIdx => same (Int.ofNat.inj isIdx).symm
      simp [same, differs]

/-- The value of every node has the value size. -/
theorem Opened.length_value (opened : Opened omap ledger tree) {value : Bytes}
    (found : tree.lookup key = some value) : value.length = omap.valueSize := by
  have ordered := opened.weaves.ordered
  have mem := (lookup_eq_some_iff ordered).mp found
  rcases opened.weaves.node_of_mem (List.mem_map.mpr ⟨_, mem, rfl⟩) with
    ⟨piece, isNode, -, -, mem'⟩
  have same := Option.some.inj (found.symm.trans ((lookup_eq_some_iff ordered).mpr mem'))
  rw [same]
  rcases nodeOf?_cases isNode with isLocal | ⟨-, isStored⟩
  · rcases List.mem_map.mp (mem_of_pieceAt isLocal).1 with ⟨node, mem, rfl⟩
    exact opened.sized node mem
  · rcases Option.map_eq_some_iff.mp isStored with ⟨entry, -, rfl⟩
    exact length_data_storedPiece omap.valueSize _ entry

/-- What a search found. -/
theorem Sought.answer {zeros : Bytes} (sought : Sought key update tree zeros state omap)
    (ordered : tree.Ordered) : state.found = (tree.lookup key).isSome ∧
      state.result = (tree.lookup key).getD zeros := by
  cases sought with
  | missing absent notFound result opened =>
      rw [lookup_of_notMem ordered absent]
      exact ⟨notFound, result⟩
  | hit isFound isIndex found isKey opened split data split' =>
      rw [(lookup_of_split ordered opened.weaves.ordered split split').1]
      exact ⟨isFound, rfl⟩

/-- The tree after a search. -/
theorem Sought.transformed {transform : Option (Bytes → Bytes)} {zeros : Bytes}
    (sought : Sought key update tree zeros state omap) (ordered : tree.Ordered)
    (fitting : Fitting omap.valueSize update transform)
    (sized : state.result.length = omap.valueSize) : ∃ ledger tree',
      Opened (omap.transformed state transform) ledger tree' ∧
      Kept omap (omap.transformed state transform) ∧
      (fun key' => tree'.lookup key') = Function.update (fun key' => tree.lookup key') key
        ((tree.lookup key).map (rewritten omap.valueSize update transform)) := by
  cases sought with
  | @missing ledger absent notFound result opened =>
      have noValue := lookup_of_notMem ordered absent
      have same : omap.transformed state transform = omap := by
        cases transform with
        | none => rfl
        | some f =>
            exact transformFound_missed opened.sized (fitting.transform f rfl _ sized) notFound
      rw [same, noValue]
      exact ⟨ledger, tree, opened, Kept.refl omap,
        (Function.update_eq_self_iff.mpr noValue.symm).symm⟩
  | @hit ledger tree' node idx lower upper isFound isIndex found isKey opened split data split' =>
      rcases lookup_of_split ordered opened.weaves.ordered split split' with ⟨value, lookups⟩
      rw [value]
      cases transform with
      | none =>
          refine ⟨_, tree', opened, Kept.refl omap, ?_⟩
          rw [lookups, data]
          rfl
      | some f =>
          have mem : key ∈ keysOf tree' := by
            rw [keysOf, split']
            simp
          have isReal : node.key ≠ invalidKey := isKey ▸ opened.weaves.spells.ne_null mem
          have fits := fitting.transform f rfl _ sized
          have hit := transformFound_hit opened.sized fits isFound isIndex
          rcases opened.writeAt found isReal (length_padBytes fits) with
            ⟨tree'', opened', lower', upper', splitNode, splitNode'⟩
          rw [isKey] at splitNode splitNode'
          rcases lookup_of_split opened.weaves.ordered opened'.weaves.ordered splitNode splitNode'
            with ⟨-, lookups'⟩
          rw [← hit] at opened'
          refine ⟨_, tree'', opened', (congrArg (Kept omap) hit).mpr (kept_writeAt omap _ _), ?_⟩
          rw [lookups', lookups, Function.update_idem]
          rfl

/-- At the end of an operation all nodes are stored. -/
theorem Opened.settles_finish (opened : Opened omap ledger tree) (opsDone : TeeAvlOmap → Int) :
    Settles (omap.reassignLeaves >>= fun omap => omap.flushLocalToStash.padOps (opsDone omap))
      (fun omap' => omap'.Rests tree ∧ SameSizes omap omap') := by
  refine Prog.ends_bind (opened.stocked.settles_reassign opened.weaves opened.sized opened.keys) ?_
  rintro omap' ⟨⟨ledger', stocked, woven, keys⟩, sizes⟩
  refine (stocked.settles_padOps (opsDone omap')).mono ?_
  rintro omap'' ⟨stocked', kept, -⟩
  rw [← kept.nodeSize, ← kept.rootKey, ← kept.rootLeaf] at woven
  exact ⟨⟨ledger', stocked', woven, keys⟩, sizes.trans kept.sizes⟩

/-- An operation starts with everything stored. -/
theorem Rests.opened (rests : omap.Rests tree) : ∃ ledger, Opened omap.beginOp ledger tree := by
  rcases rests with ⟨ledger, stocked, woven, keys⟩
  refine ⟨ledger, stocked.congr rfl rfl rfl, woven, ?_, keys⟩
  rintro node (_ | _)

theorem searchOrDummy_eq (omap : TeeAvlOmap) (key : Int) (real : Bool) (update : Option Bytes)
    (transform : Option (Bytes → Bytes)) : omap.searchOrDummy key real update transform = (do
      let omap := omap.beginOp
      let zeros := List.replicate omap.valueSize 0
      let (state, omap) ← searchLoop key update omap.maxHeight 0 {
        curKey := oSelect real omap.rootKey invalidKey
        curLeaf := oSelect real omap.rootLeaf invalidLeaf
        result := zeros } omap
      let omap ← (omap.transformed state transform).reassignLeaves
      let omap ← omap.flushLocalToStash.padOps omap.maxHeight
      return ((oMovBytes (!state.found) state.result zeros, state.found), omap)) := by
  cases transform <;> rfl

/-- An empty tree has no keys. -/
theorem Opened.absent_of_empty (opened : Opened omap ledger tree)
    (isEmpty : omap.rootKey = invalidKey) (key : Int) : key ∉ keysOf tree := by
  have spells := opened.weaves.spells
  rw [isEmpty] at spells
  rw [spells_null spells]
  exact List.not_mem_nil

theorem Rests.ordered (rests : omap.Rests tree) : tree.Ordered := by
  rcases rests with ⟨ledger, stocked, woven, keys⟩
  exact woven.ordered

/-- A search answers with the value of the key, and maybe replaces it. -/
theorem Rests.settles_search (rests : omap.Rests tree) (tall : tree.height ≤ omap.maxHeight)
    {transform : Option (Bytes → Bytes)} (fitting : Fitting omap.valueSize update transform)
    (key : Int) : Settles (omap.searchOrDummy key true update transform) (fun outcome =>
      ∃ tree', outcome.2.Rests tree' ∧ SameSizes omap outcome.2 ∧
        outcome.1 = ((tree.lookup key).getD (List.replicate omap.valueSize 0),
          (tree.lookup key).isSome) ∧
        (fun key' => tree'.lookup key') = Function.update (fun key' => tree.lookup key') key
          ((tree.lookup key).map (rewritten omap.valueSize update transform))) := by
  rcases rests.opened with ⟨ledger, opened⟩
  have sought : Settles (searchLoop key update omap.beginOp.maxHeight 0 {
      curKey := omap.beginOp.rootKey
      curLeaf := omap.beginOp.rootLeaf
      result := List.replicate omap.beginOp.valueSize 0 } omap.beginOp) (fun outcome =>
        Kept omap.beginOp outcome.2 ∧ Sought key update tree (List.replicate omap.valueSize 0)
          outcome.1 outcome.2) := by
    by_cases nonempty : omap.beginOp.rootKey = invalidKey
    · refine Prog.Ends.mono (settles_searchLoop_idle key _ opened.stocked fitting.update
        (Or.inl nonempty) List.length_replicate) ?_
      rintro ⟨state, last⟩ ⟨stocked, idled, notFound, -, result⟩
      exact ⟨idled.toKept, .missing (opened.absent_of_empty nonempty key) notFound result
        (opened.idled idled stocked)⟩
    · exact (opened.start rfl nonempty).settles_searchLoop rfl (fun _ => encloses_nil key) tall rfl
        rfl List.length_replicate fitting.update
  rw [searchOrDummy_eq]
  refine Prog.ends_bind sought ?_
  rintro ⟨state, last⟩ ⟨kept, sought⟩
  rcases sought.answer rests.ordered with ⟨isFound, result⟩
  have sized : state.result.length = omap.valueSize := by
    rw [result]
    rcases value : tree.lookup key with _ | old
    · exact List.length_replicate
    · exact opened.length_value value
  have sameSize : last.valueSize = omap.valueSize := kept.valueSize
  rcases sought.transformed rests.ordered (sameSize ▸ fitting) (sized.trans sameSize.symm) with
    ⟨ledger', tree', opened', kept', lookups⟩
  refine Prog.ends_bind_bind (opened'.settles_finish _) ?_
  rintro final ⟨rests', sizes⟩
  have sizes' : SameSizes omap last := ⟨kept.maxHeight, kept.splitDepth, kept.valueSize⟩
  refine Prog.ends_pure ⟨tree', rests', sizes'.trans (kept'.sizes.trans sizes), ?_, ?_⟩
  · have sameLength : state.result.length =
        (List.replicate omap.beginOp.valueSize (0 : UInt8)).length :=
      sized.trans List.length_replicate.symm
    dsimp only at isFound result ⊢
    rw [oMovBytes_of_length sameLength, isFound, result]
    cases tree.lookup key <;> rfl
  · rw [lookups, sameSize]

/-- A search that is not real changes nothing. -/
theorem Rests.settles_dummy (rests : omap.Rests tree) {transform : Option (Bytes → Bytes)}
    (fitting : Fitting omap.valueSize update transform) (key : Int) :
    Settles (omap.searchOrDummy key false update transform) (fun outcome =>
      outcome.2.Rests tree ∧ SameSizes omap outcome.2 ∧
        outcome.1 = (List.replicate omap.valueSize 0, false)) := by
  rcases rests.opened with ⟨ledger, opened⟩
  rw [searchOrDummy_eq]
  refine Prog.ends_bind (settles_searchLoop_idle key _ opened.stocked fitting.update
    (Or.inl rfl) List.length_replicate) ?_
  rintro ⟨state, last⟩ ⟨stocked, idled, notFound, -, result⟩
  have opened' := opened.idled idled stocked
  have sized : state.result.length = last.valueSize := by
    rw [result, idled.valueSize]
    exact List.length_replicate
  have same : last.transformed state transform = last := by
    cases transform with
    | none => rfl
    | some f =>
        refine transformFound_missed opened'.sized ?_ notFound
        rw [idled.valueSize]
        exact fitting.transform f rfl _ (sized.trans idled.valueSize)
  refine Prog.ends_bind_bind ((same.symm ▸ opened').settles_finish _) ?_
  rintro final ⟨rests', sizes⟩
  have sizes' : SameSizes omap last := ⟨idled.maxHeight, idled.splitDepth, idled.valueSize⟩
  rw [same] at sizes
  refine Prog.ends_pure ⟨rests', sizes'.trans sizes, ?_⟩
  have sameLength : state.result.length =
      (List.replicate omap.beginOp.valueSize (0 : UInt8)).length :=
    sized.trans (idled.valueSize.trans List.length_replicate.symm)
  dsimp only at notFound result ⊢
  rw [oMovBytes_of_length sameLength, notFound]
  rfl

end TeeAvlOmap

end TieredOmap
