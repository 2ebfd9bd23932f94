import TieredOMap.Tee.TeeAvlSearch

/-!
# Inserting into the enclave's tree

The insert loop stops at a node that misses the child where the new key belongs, and lets it
point at the new key. The new node itself is added after the loop, behind the dummies of the
remaining rounds, and the entries are rebalanced.
-/

namespace TieredOmap

open BinaryTree Links EnclaveOram

namespace TeeAvlOmap

-- What a step ends with is known from its lemma, never from running it.
attribute [local irreducible] Prog.Ends

variable {omap omap' omap'' : TeeAvlOmap} {ledger : Ledger}
    {tree tree' sub : BinaryTree (Int × Bytes)}
  {key above leaf parentKey : Int} {before after : List (Int × Bytes)} {node : AVLLocalNode}
  {data : Bytes} {state : InsertState}

/-! ## Rebalancing -/

/-- Pointers and heights changed, but no data and no sizes. -/
structure Reshaped (omap omap' : TeeAvlOmap) : Prop extends SameSizes omap omap' where
  lowerOram : omap'.lowerOram = omap.lowerOram
  data : omap'.local_.map (fun node => node.avl.data) = omap.local_.map (fun node => node.avl.data)

theorem Reshaped.refl (omap : TeeAvlOmap) : Reshaped omap omap := ⟨⟨rfl, rfl, rfl⟩, rfl, rfl⟩

theorem Reshaped.trans (reshaped : Reshaped omap omap') (reshaped' : Reshaped omap' omap'') :
    Reshaped omap omap'' :=
  ⟨reshaped.toSameSizes.trans reshaped'.toSameSizes,
    reshaped'.lowerOram.trans reshaped.lowerOram, reshaped'.data.trans reshaped.data⟩

theorem Reshaped.sized (reshaped : Reshaped omap omap') (sized : omap.DataSized) :
    omap'.DataSized := by
  intro node mem
  have inData : node.avl.data ∈ omap.local_.map (fun node => node.avl.data) :=
    reshaped.data ▸ List.mem_map_of_mem mem
  rcases List.mem_map.mp inData with ⟨old, wasThere, sameData⟩
  rw [← sameData, reshaped.valueSize]
  exact sized old wasThere

theorem map_modify_of_same {α β : Type} {f : α → β} {change : α → α} (i : Nat) (items : List α)
    (same : ∀ item, items[i]? = some item → f (change item) = f item) :
    (items.modify i change).map f = items.map f := by
  refine List.ext_getElem? (fun j => ?_)
  rw [List.getElem?_map, List.getElem?_map, List.getElem?_modify]
  rcases found : items[j]? with _ | item
  · rfl
  · simp only [Option.map_some, Option.map_eq_map]
    split
    · rename_i isIndex
      rw [same item (isIndex ▸ found)]
    · rfl

theorem map_mapIdx_of_same {α β : Type} {f : α → β} {change : Nat → α → α} (items : List α)
    (same : ∀ i item, f (change i item) = f item) : (items.mapIdx change).map f = items.map f := by
  refine List.ext_getElem? (fun j => ?_)
  rw [List.getElem?_map, List.getElem?_map, List.getElem?_mapIdx]
  cases items[j]? with
  | none => rfl
  | some item => exact congrArg some (same j item)

theorem reshaped_rotateCond (omap : TeeAvlOmap) (idx : Nat) (active dir : Bool) :
    Reshaped omap (omap.rotateCond idx active dir) := by
  refine ⟨⟨rfl, rfl, rfl⟩, rfl, ?_⟩
  unfold rotateCond
  refine (map_mapIdx_of_same _ ?_).trans (map_modify_of_same _ _ ?_)
  · exact fun _ _ => rfl
  · intro node found
    change (omap.local_.getD idx default).avl.data = node.avl.data
    rw [List.getD_eq_getElem?_getD, found, Option.getD_some]

theorem reshaped_balanceNode (omap : TeeAvlOmap) (idx : Nat) :
    Reshaped omap (omap.balanceNode idx) := by
  unfold balanceNode
  exact (((reshaped_rotateCond _ _ _ _).trans (reshaped_rotateCond _ _ _ _)).trans
    (reshaped_rotateCond _ _ _ _)).trans (reshaped_rotateCond _ _ _ _)

theorem reshaped_updateHeights (omap : TeeAvlOmap) : Reshaped omap omap.updateHeights := by
  refine ⟨⟨rfl, rfl, rfl⟩, rfl, ?_⟩
  have same := congrArg (List.map Piece.data) (pieces_updateHeights omap)
  unfold pieces at same
  rw [List.map_map, List.map_map] at same
  exact same

theorem reshaped_rebalance (omap : TeeAvlOmap) : Reshaped omap omap.rebalance := by
  have folded : ∀ (indices : List Nat) (omap : TeeAvlOmap), Reshaped omap
      (indices.foldl (fun omap i => omap.updateHeights.balanceNode i) omap) := by
    intro indices
    induction indices with
    | nil => exact Reshaped.refl
    | cons i rest ih =>
        exact fun omap => ((reshaped_updateHeights omap).trans (reshaped_balanceNode _ i)).trans
            (ih _)
  exact (folded _ omap).trans (reshaped_updateHeights _)

/-- Rebalancing keeps the values in order. -/
theorem Opened.rebalance (opened : Opened omap ledger tree) : ∃ tree',
    Opened omap.updateHeights.rebalance ledger tree' ∧ tree'.toList = tree.toList ∧
      SameSizes omap omap.updateHeights.rebalance := by
  have reshaped := (reshaped_updateHeights omap).trans (reshaped_rebalance omap.updateHeights)
  rcases opened.weaves.updateHeights.rebalance with ⟨tree', weaves, same⟩
  refine ⟨tree', ⟨opened.stocked.congr reshaped.lowerOram reshaped.splitDepth reshaped.valueSize,
    ?_, ?_, ?_⟩, same, reshaped.toSameSizes⟩
  · rw [show omap.updateHeights.rebalance.nodeSize = omap.nodeSize from
      congrArg (avlHeaderSize + ·) reshaped.valueSize]
    exact weaves
  · exact reshaped.sized opened.sized
  · intro key mem
    refine opened.keys key ?_
    rw [keysOf, ← same]
    exact mem

/-- A tree with the same values in order answers the same. -/
theorem lookup_of_toList (ordered : tree.Ordered) (same : tree'.toList = tree.toList) (key : Int) :
    tree'.lookup key = tree.lookup key := by
  have ordered' : tree'.Ordered := by
    unfold Ordered
    rw [same]
    exact ordered
  refine Option.ext (fun value => ?_)
  rw [lookup_eq_some_iff ordered, lookup_eq_some_iff ordered', same]

/-! ## The loop -/

/-- A node points at a new key already, whose own node is still missing. -/
structure Awaits (omap : TeeAvlOmap) (ledger : Ledger) (tree : BinaryTree (Int × Bytes))
    (key parentKey : Int) : Prop where
  stocked : omap.Stocked ledger
  sized : omap.DataSized
  keys : ∀ key ∈ keysOf tree, IsKey key
  joins : ∀ new : Piece, new.key = key → new.parentKey = parentKey →
    new.childKey = (fun _ => invalidKey) → ∃ tree', Woven omap.rootKey omap.rootLeaf
        (omap.pieces ++ [new]) (storeOf omap.nodeSize ledger) tree' ∧
      ∃ lower upper, tree.toList = lower ++ upper ∧
        tree'.toList = lower ++ (key, new.data) :: upper

/-- Dummies may come before the new node. -/
theorem Awaits.idled (awaits : Awaits omap ledger tree key parentKey) (idled : Idled omap omap')
    (stocked : omap'.Stocked ledger) : Awaits omap' ledger tree key parentKey := by
  refine ⟨stocked, idled.sized awaits.sized, awaits.keys, ?_⟩
  intro new isKey isParent noChild
  rcases awaits.joins new isKey isParent noChild with ⟨tree', woven, split⟩
  rcases idled.entries [new] with ⟨same, once⟩
  refine ⟨tree', ?_, split⟩
  rw [idled.toKept.nodeSize, idled.rootKey, idled.rootLeaf]
  exact woven.congr_pieces same (once woven.once)

/-- The last entry gets a child. -/
theorem pieces_attachNew {nodes : List AVLLocalNode} (added : omap.local_ = nodes ++ [node])
    (once : Once omap.pieces) (isReal : node.key ≠ invalidKey) (side : Bool) (key leaf : Int) :
    (omap.modifyLast (attachNew side (!side) key leaf)).pieces =
      omap.pieces.map (Piece.attach node.key side key leaf) := by
  unfold pieces at once ⊢
  rw [local_modifyLast added, added, List.map_append, List.map_append, List.map_append]
  rw [added, List.map_append] at once
  rcases List.pairwise_append.mp once with ⟨-, -, apart⟩
  congr 1
  · rw [List.map_map]
    refine List.map_congr_left (fun entry mem => ?_)
    have differs : entry.piece.key ≠ node.key := fun same =>
      isReal (same.symm.trans (apart entry.piece (List.mem_map_of_mem mem) node.piece
        (List.mem_singleton_self _) same))
    exact (if_neg differs).symm
  · refine congrArg (fun piece => [piece]) ?_
    refine Eq.trans ?_ (if_pos rfl).symm
    refine Piece.ext rfl rfl rfl rfl ?_ ?_
    · funext side'
      cases side <;> cases side' <;> rfl
    · funext side'
      cases side <;> cases side' <;> rfl

/-- Where a new key belongs, its node can be added. -/
theorem Arrived.attach (arrived : Arrived omap ledger tree node sub before after)
    {nodes : List AVLLocalNode} (added : omap.local_ = nodes ++ [node])
    (encloses : Encloses key before after) (isKey : IsKey key) (isNew : key ∉ keysOf tree)
    {side : Bool} (isSide : side = oLess key node.key)
    (empty : node.piece.childKey side = invalidKey) (leaf : Int) :
    Awaits (omap.modifyLast (attachNew side (!side) key leaf)) ledger tree key node.key := by
  have nodeKey := arrived.keys node.key (arrived.focus.inside (by
    rcases arrived.split true with ⟨child, other, rfl, -⟩
    exact mem_keysOf_nodeOn.mpr (Or.inl rfl)))
  refine ⟨arrived.stocked.congr rfl rfl rfl, ?_, arrived.keys, ?_⟩
  · intro entry mem
    rw [local_modifyLast added] at mem
    rcases List.mem_append.mp mem with wasThere | isLast
    · exact arrived.sized entry (by simp [added, wasThere])
    · rw [List.mem_singleton.mp isLast]
      exact arrived.sized node (by simp [added])
  · rintro new rfl isParent noChild
    rw [pieces_attachNew added arrived.weaves.once arrived.focus.real]
    rw [oLess_keys isKey nodeKey] at isSide
    exact arrived.weaves.insert arrived.isLocal empty arrived.focus encloses isSide isNew
      isKey.ne_invalid isParent noChild leaf

/-- A loop with nowhere to go adds dummies. -/
theorem settles_insertLoop_idle (key : Int) (count : Nat) {d : Int} {state : InsertState}
    {omap : TeeAvlOmap} (stocked : omap.Stocked ledger)
    (idle : state.curKey = invalidKey ∨ state.inserted = true) :
    Settles (insertLoop key count d state omap) (fun outcome =>
      outcome.2.Stocked ledger ∧ Idled omap outcome.2 ∧
        outcome.1.inserted = state.inserted ∧ outcome.1.parent = state.parent) := by
  induction count generalizing d state omap with
  | zero => exact Prog.ends_pure ⟨stocked, Idled.refl omap, rfl, rfl⟩
  | succ count ih =>
      have notSearching : (!oEqual state.curKey invalidKey && !state.inserted) = false := by
        rcases idle with nowhere | found
        · simp [nowhere]
        · simp [found]
      unfold insertLoop
      simp only [notSearching, Bool.false_and, Bool.or_false]
      refine Prog.ends_bind (stocked.settles_idle d _ _ _) ?_
      rintro omap' ⟨stocked', idled, node, added, -⟩
      refine Prog.ends_bind (EnclaveOram.ends_randomLeaf _) (fun newLeaf _ => ?_)
      have nothing : omap'.modifyLast (attachNew false false key newLeaf) = omap' :=
        modifyLast_self added rfl
      rw [nothing]
      refine Prog.Ends.mono (ih stocked' ?_) ?_
      · exact Or.inl rfl
      · rintro outcome ⟨stocked'', idled', rest⟩
        exact ⟨stocked'', idled.trans idled', rest⟩

/-- The loop finds the place of a new key if it is long enough. -/
theorem Walk.settles_insertLoop {count : Nat} {d : Int} {state : InsertState}
    (walk : Walk omap ledger tree state.curKey state.curLeaf above sub before after)
    (isAbove : omap.lastKey = above) (encloses : Encloses key before after)
    (tall : sub.height ≤ count) (searching : state.inserted = false) (isKey : IsKey key)
    (isNew : key ∉ keysOf tree) :
    Settles (insertLoop key count d state omap) (fun outcome => Kept omap outcome.2 ∧
      outcome.1.inserted = true ∧
        ∃ ledger', Awaits outcome.2 ledger' tree key outcome.1.parent) := by
  induction count generalizing d state omap ledger above sub before after with
  | zero =>
      rcases walk.focus.root true with ⟨_, _, _, _, rfl, -⟩
      rw [height_nodeOn] at tall
      omega
  | succ count ih =>
      have curReal : state.curKey ≠ invalidKey := walk.focus.real
      have isSearching : (!oEqual state.curKey invalidKey && !state.inserted) = true := by
        simp [curReal, searching]
      unfold insertLoop
      simp only [isSearching, Bool.true_and, oSelect_true]
      simp only [searching, Bool.false_or, isAbove]
      refine Prog.ends_bind (walk.settles_step d) ?_
      rintro omap' ⟨ledger', node, arrived, sameKey, kept, added⟩
      refine Prog.ends_bind (EnclaveOram.ends_randomLeaf _) (fun newLeaf _ => ?_)
      rw [lastNode_append added, (nextOn _ node).1, ← sameKey]
      generalize isSide : oLess key node.key = side
      rcases arrived.split side with ⟨child, other, rfl, empty, goOn⟩
      have different : key ≠ node.key := by
        rintro rfl
        exact isNew (arrived.focus.inside (mem_keysOf_nodeOn.mpr (Or.inl rfl)))
      by_cases nowhere : node.piece.childKey side = invalidKey
      · have awaits := arrived.attach added encloses isKey isNew isSide.symm nowhere newLeaf
        simp only [nowhere, oEqual_eq, decide_true, Bool.true_and, oMov_true]
        refine Prog.Ends.mono (settles_insertLoop_idle key count awaits.stocked ?_) ?_
        · exact Or.inr rfl
        · rintro ⟨outcome, last⟩ ⟨stocked, idled, isInserted, isParent⟩
          have keptLast : Kept omap' (omap'.modifyLast (attachNew side (!side) key newLeaf)) :=
            ⟨rfl, rfl, rfl, rfl, rfl⟩
          refine ⟨(kept.trans keptLast).trans idled.toKept, isInserted, ledger', ?_⟩
          rw [show outcome.parent = node.key from isParent]
          exact awaits.idled idled stocked
      · have nothing : omap'.modifyLast (attachNew false false key newLeaf) = omap' :=
          modifyLast_self added rfl
        simp only [oEqual_eq, decide_eq_false nowhere, Bool.false_and, nothing, Bool.not_false,
          oSelect_true, oMov_false, lastNode_append added, (nextOn _ node).1, (nextOn _ node).2]
        refine Prog.Ends.mono (ih (goOn nowhere) ?_ ?_ ?_ ?_) ?_
        · exact lastKey_append added
        · exact arrived.encloses (fun _ => encloses) isSide.symm different isKey
        · rw [height_nodeOn] at tall
          omega
        · rfl
        · rintro ⟨outcome, last⟩ ⟨kept', awaits⟩
          exact ⟨kept.trans kept', awaits⟩

/-! ## The whole insertion -/

/-- A tree with one more key. -/
theorem lookup_of_insert {lower upper : List (Int × Bytes)} (ordered : tree.Ordered)
    (ordered' : tree'.Ordered) (split : tree.toList = lower ++ upper)
    (split' : tree'.toList = lower ++ (key, data) :: upper) :
    (fun key' => tree'.lookup key') =
      Function.update (fun key' => tree.lookup key') key (some data) := by
  refine lookup_eq_update ordered ordered' (fun value => ?_) (fun entry different => ?_)
  · have here : tree'.lookup key = some data := by
      rw [lookup_eq_some_iff ordered', split']
      simp
    rw [← lookup_eq_some_iff ordered', here]
  · have notNew : entry ≠ (key, data) := fun same => different (congrArg Prod.fst same)
    rw [split, split']
    simp [notNew]

/-- At the end of an operation that changes the tree the entries are rebalanced and stored. -/
theorem Opened.settles_close (opened : Opened omap ledger tree) (opsDone : TeeAvlOmap → Int) :
    Settles (omap.updateHeights.rebalance.reassignLeaves >>=
        fun omap => omap.flushLocalToStash.padOps (opsDone omap))
      (fun omap' => ∃ tree', omap'.Rests tree' ∧ tree'.toList = tree.toList ∧
        SameSizes omap omap') := by
  rcases opened.rebalance with ⟨tree', opened', same, sizes⟩
  refine (opened'.settles_finish opsDone).mono ?_
  rintro final ⟨rests, sizes'⟩
  exact ⟨tree', rests, same, sizes.trans sizes'⟩

/-- The node of the new key joins the others. -/
theorem Awaits.opened (awaits : Awaits omap ledger tree key parentKey) (isKey : IsKey key)
    {node : AVLLocalNode} (sameKey : node.key = key) (isParent : node.parentKey = parentKey)
    (noChild : node.piece.childKey = fun _ => invalidKey)
    (sized : node.avl.data.length = omap.valueSize) :
    ∃ tree', Opened (omap.pushLocal node) ledger tree' ∧
      ∃ lower upper, tree.toList = lower ++ upper ∧
        tree'.toList = lower ++ (key, node.avl.data) :: upper := by
  rcases awaits.joins node.piece sameKey isParent noChild with
      ⟨tree', woven, lower, upper, split, split'⟩
  refine ⟨tree', ⟨awaits.stocked.congr rfl rfl rfl, ?_, ?_, ?_⟩, lower, upper, split, split'⟩
  · have added : (omap.pushLocal node).pieces = omap.pieces ++ [node.piece] := List.map_append
    rw [Weaves, added]
    exact woven
  · intro entry mem
    rcases List.mem_append.mp mem with wasThere | isLast
    · exact awaits.sized entry wasThere
    · rw [List.mem_singleton.mp isLast]
      exact sized
  · intro key' mem
    rw [keysOf, split'] at mem
    by_cases isNew : key' = key
    · exact isNew ▸ isKey
    · refine awaits.keys key' ?_
      rw [keysOf, split]
      simpa [isNew] using mem

/-- The first node of an empty tree. -/
theorem Opened.plant (opened : Opened omap ledger tree) (isEmpty : omap.rootKey = invalidKey)
    (isKey : IsKey key) (sameKey : node.key = key) (isRoot : node.parentKey = invalidKey)
    (noChild : node.piece.childKey = fun _ => invalidKey)
    (sized : node.avl.data.length = omap.valueSize) :
    Opened { omap.pushLocal node with rootKey := key } ledger
      (.node (key, node.avl.data) .nil .nil) := by
  have spells := opened.weaves.spells
  rw [isEmpty] at spells
  have isNil := spells_null spells
  subst isNil
  refine ⟨opened.stocked.congr rfl rfl rfl, ?_, ?_, ?_⟩
  · have planted := opened.weaves.plant (sameKey.trans_ne isKey.ne_invalid) isRoot
      noChild omap.rootLeaf
    have added : (omap.pushLocal node).pieces = omap.pieces ++ [node.piece] := List.map_append
    rw [← added] at planted
    rw [← sameKey]
    exact planted
  · intro entry mem
    rcases List.mem_append.mp mem with wasThere | isLast
    · exact opened.sized entry wasThere
    · rw [List.mem_singleton.mp isLast]
      exact sized
  · intro key' mem
    rw [mem_keysOf_node, keysOf_nil] at mem
    rcases mem with rfl | none' | none'
    · exact isKey
    · cases none'
    · cases none'

theorem childKey_newEntry (inserted : Bool) (key leaf parentKey depth : Int) (data : Bytes) :
    (newEntry inserted key leaf parentKey depth data).piece.childKey = fun _ => invalidKey := by
  funext side
  cases side <;> rfl

/-- A new key is added with its value. -/
theorem Rests.settles_insert (rests : omap.Rests tree) (tall : tree.height ≤ omap.maxHeight)
    (isKey : IsKey key) (isNew : tree.lookup key = none) {value : Bytes}
    (fits : value.length ≤ omap.valueSize) : Settles (omap.insert key value) (fun omap' =>
      ∃ tree', omap'.Rests tree' ∧ SameSizes omap omap' ∧
        (fun key' => tree'.lookup key') = Function.update (fun key' => tree.lookup key') key
          (some (padBytes value omap.valueSize))) := by
  have absent : key ∉ keysOf tree := by
    intro mem
    rcases List.mem_map.mp mem with ⟨⟨_, old⟩, mem', rfl⟩
    rw [(lookup_eq_some_iff rests.ordered).mpr mem'] at isNew
    cases isNew
  have isReal : (!oEqual key invalidKey) = true := by simp [isKey.ne_invalid]
  -- Both ways of adding the node end in a tree with one more key.
  have close : ∀ {last : TeeAvlOmap} {ledger : Ledger} {tree' : BinaryTree (Int × Bytes)}
      (lower upper : List (Int × Bytes)), SameSizes omap last → Opened last ledger tree' →
      tree.toList = lower ++ upper →
      tree'.toList = lower ++ (key, padBytes value omap.valueSize) :: upper →
      Settles (last.updateHeights.rebalance.reassignLeaves >>=
          fun omap => omap.flushLocalToStash.padOps omap.maxHeight) (fun omap' =>
        ∃ tree', omap'.Rests tree' ∧ SameSizes omap omap' ∧
          (fun key' => tree'.lookup key') = Function.update (fun key' => tree.lookup key') key
            (some (padBytes value omap.valueSize))) := by
    intro last ledger tree' lower upper sizes opened split split'
    refine (opened.settles_close _).mono ?_
    rintro omap' ⟨tree'', rests', same, sizes'⟩
    refine ⟨tree'', rests', sizes.trans sizes', ?_⟩
    rw [← lookup_of_insert rests.ordered opened.weaves.ordered split split']
    exact funext (lookup_of_toList opened.weaves.ordered same)
  rcases rests.opened with ⟨ledger, opened⟩
  unfold insert
  simp only [isReal, Bool.true_and, oSelect_true]
  by_cases nonempty : omap.beginOp.rootKey = invalidKey
  · rw [show oEqual omap.beginOp.rootKey invalidKey = true from decide_eq_true nonempty]
    refine Prog.ends_bind (settles_insertLoop_idle key _ opened.stocked (Or.inl nonempty)) ?_
    rintro ⟨state, last⟩ ⟨stocked, idled, -, isParent⟩
    refine Prog.ends_bind (EnclaveOram.ends_randomLeaf _) (fun emptyLeaf _ => ?_)
    have lastOpened := opened.idled idled stocked
    have isEmpty : last.rootKey = invalidKey := idled.rootKey.trans nonempty
    have sameSize : last.valueSize = omap.valueSize := idled.valueSize
    have sized : (padBytes value last.valueSize).length = last.valueSize :=
      length_padBytes (sameSize ▸ fits)
    dsimp only at isParent ⊢
    simp only [Bool.or_true, oMov_true]
    have planted := @Opened.plant _ _ _ _ (newEntry true key emptyLeaf state.parent 0
      (padBytes value last.valueSize)) lastOpened isEmpty isKey rfl isParent
        (childKey_newEntry ..) sized
    have isNil : tree = .nil := by
      have spells := opened.weaves.spells
      rw [nonempty] at spells
      exact spells_null spells
    refine close [] [] ?_ planted ?_ ?_
    · exact ⟨idled.maxHeight, idled.splitDepth, idled.valueSize⟩
    · rw [isNil]
      rfl
    · rw [← sameSize]
      rfl
  · rw [show oEqual omap.beginOp.rootKey invalidKey = false from decide_eq_false nonempty]
    refine Prog.ends_bind ((opened.start rfl nonempty).settles_insertLoop rfl
      (encloses_nil key) tall rfl isKey absent) ?_
    rintro ⟨state, last⟩ ⟨kept, isInserted, ledger', awaits⟩
    refine Prog.ends_bind (EnclaveOram.ends_randomLeaf _) (fun emptyLeaf _ => ?_)
    have sameSize : last.valueSize = omap.valueSize := kept.valueSize
    have sized : (padBytes value last.valueSize).length = last.valueSize :=
      length_padBytes (sameSize ▸ fits)
    dsimp only at isInserted awaits ⊢
    simp only [isInserted, Bool.true_or, oMov_false]
    rcases @Awaits.opened _ _ _ _ _ awaits isKey (newEntry true key state.leaf state.parent
      state.depth (padBytes value last.valueSize)) rfl rfl
        (childKey_newEntry ..) sized with
        ⟨tree', opened', lower, upper, split, split'⟩
    refine close lower upper ?_ opened' split ?_
    · exact ⟨kept.maxHeight, kept.splitDepth, kept.valueSize⟩
    · rw [split', ← sameSize]
      rfl

/-- Inserting an invalid key changes nothing. -/
theorem Rests.settles_insert_invalid (rests : omap.Rests tree) {value : Bytes}
    (fits : value.length ≤ omap.valueSize) : Settles (omap.insert invalidKey value) (fun omap' =>
      ∃ tree', omap'.Rests tree' ∧ SameSizes omap omap' ∧ tree'.toList = tree.toList) := by
  rcases rests.opened with ⟨ledger, opened⟩
  unfold insert
  dsimp only
  refine Prog.ends_bind (settles_insertLoop_idle invalidKey _ opened.stocked (Or.inl rfl)) ?_
  rintro ⟨state, last⟩ ⟨stocked, idled, notInserted, -⟩
  refine Prog.ends_bind (EnclaveOram.ends_randomLeaf _) (fun emptyLeaf _ => ?_)
  dsimp only at notInserted ⊢
  rw [notInserted]
  have sized : (padBytes value last.valueSize).length = last.valueSize :=
    length_padBytes (idled.valueSize ▸ fits)
  have idled' : Idled last (last.pushLocal (newEntry false invalidKey state.leaf state.parent
      state.depth (padBytes value last.valueSize))) := by
    refine ⟨⟨rfl, rfl, rfl, rfl, rfl⟩, _, rfl, ?_⟩
    rintro _ (_ | ⟨_, _ | _⟩)
    exact ⟨rfl, sized⟩
  have opened' := (opened.idled idled stocked).idled idled' (stocked.congr rfl rfl rfl)
  refine Prog.Ends.mono (opened'.settles_close _) ?_
  rintro final ⟨tree', rests', same, sizes⟩
  have sizes' : SameSizes omap last := ⟨idled.maxHeight, idled.splitDepth, idled.valueSize⟩
  exact ⟨tree', rests', sizes'.trans (idled'.toKept.sizes.trans sizes), same⟩

end TeeAvlOmap

end TieredOmap
