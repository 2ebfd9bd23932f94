import TieredOMap.Tee.TeeAvlSettle

/-!
# Walking down the enclave's tree

The first loop of every operation goes down from the root. A step at a node that is stored makes
it local; its subtrees are still stored, and the next step goes to one of them. Once there is
nowhere to go, the remaining steps add dummies.
-/

namespace TieredOmap

open BinaryTree Links EnclaveOram

namespace TeeAvlOmap

-- What a step ends with is known from its lemma, never from running it.
attribute [local irreducible] Prog.Ends

variable {omap omap' omap'' : TeeAvlOmap} {ledger : Ledger} {tree sub : BinaryTree (Int × Bytes)}
  {key leaf above : Int} {before after : List (Int × Bytes)} {node : AVLLocalNode}

/-! ## The last entry -/

theorem lastNode_append {nodes : List AVLLocalNode} (added : omap.local_ = nodes ++ [node]) :
    omap.lastNode = node := by
  unfold lastNode
  rw [added, List.getLast?_append]
  rfl

theorem lastKey_append {nodes : List AVLLocalNode} (added : omap.local_ = nodes ++ [node]) :
    omap.lastKey = node.key := by
  unfold lastKey
  rw [added, List.getLast?_append]
  rfl

theorem local_modifyLast {nodes : List AVLLocalNode} (added : omap.local_ = nodes ++ [node])
    (f : AVLNodeData → AVLNodeData) :
    (omap.modifyLast f).local_ = nodes ++ [{ node with avl := f node.avl }] := by
  change omap.local_.modify _ _ = _
  rw [added, List.length_append, List.length_singleton, Nat.add_sub_cancel]
  clear added
  induction nodes with
  | nil => rfl
  | cons first nodes ih => exact congrArg (first :: ·) ih

/-- A change that leaves the last entry as it is. -/
theorem modifyLast_self {nodes : List AVLLocalNode} (added : omap.local_ = nodes ++ [node])
    {f : AVLNodeData → AVLNodeData} (same : f node.avl = node.avl) : omap.modifyLast f = omap := by
  have sameLocal := local_modifyLast added f
  rw [same, ← added] at sameLocal
  change ({ omap with local_ := (omap.modifyLast f).local_ } : TeeAvlOmap) = omap
  rw [sameLocal]

/-! ## Idle steps -/

/-- Nothing but dummies was added. -/
structure Idled (omap omap' : TeeAvlOmap) : Prop extends Kept omap omap' where
  added : ∃ dummies, omap'.local_ = omap.local_ ++ dummies ∧
    ∀ node ∈ dummies, node.key = invalidKey ∧ node.avl.data.length = omap.valueSize

theorem Idled.refl (omap : TeeAvlOmap) : Idled omap omap :=
  ⟨Kept.refl omap, [], (List.append_nil _).symm, fun _ mem => nomatch mem⟩

theorem Idled.trans (idled : Idled omap omap') (idled' : Idled omap' omap'') :
    Idled omap omap'' := by
  rcases idled.added with ⟨dummies, added, areDummies⟩
  rcases idled'.added with ⟨dummies', added', areDummies'⟩
  refine ⟨idled.toKept.trans idled'.toKept, dummies ++ dummies', ?_, ?_⟩
  · rw [added', added, List.append_assoc]
  · intro node mem
    rcases List.mem_append.mp mem with inFirst | inSecond
    · exact areDummies node inFirst
    · rw [← idled.valueSize]
      exact areDummies' node inSecond

/-- The entries that were there before keep their places. -/
theorem Idled.getElem? (idled : Idled omap omap') {i : Nat} (found : omap.local_[i]? = some node) :
    omap'.local_[i]? = some node := by
  rcases idled.added with ⟨dummies, added, -⟩
  rw [added, List.getElem?_append_left (List.getElem?_eq_some_iff.mp found).1, found]

theorem Idled.sized (idled : Idled omap omap') (sized : omap.DataSized) : omap'.DataSized := by
  rcases idled.added with ⟨dummies, added, areDummies⟩
  intro node mem
  rw [idled.valueSize]
  rw [added] at mem
  rcases List.mem_append.mp mem with wasThere | isNew
  · exact sized node wasThere
  · exact (areDummies node isNew).2

/-- The nodes that are local are the same. -/
theorem Idled.entries (idled : Idled omap omap') (rest : List Piece) :
    pieceAt (omap'.pieces ++ rest) = pieceAt (omap.pieces ++ rest) ∧
      (Once (omap.pieces ++ rest) → Once (omap'.pieces ++ rest)) := by
  rcases idled.added with ⟨dummies, added, areDummies⟩
  have allDummies : ∀ piece ∈ dummies.map AVLLocalNode.piece, piece.key = invalidKey := by
    intro piece mem
    rcases List.mem_map.mp mem with ⟨node, isDummy, rfl⟩
    exact (areDummies node isDummy).1
  rw [pieces, pieces, added, List.map_append]
  generalize dummies.map AVLLocalNode.piece = dummyPieces at allDummies
  constructor
  · funext key
    by_cases isReal : key = invalidKey
    · rw [isReal, pieceAt_invalidKey, pieceAt_invalidKey]
    · have notDummy : dummyPieces.find? (fun piece => piece.key = key) = none := by
        refine List.find?_eq_none.mpr (fun piece mem => ?_)
        simp only [decide_eq_true_eq]
        exact fun same => isReal (same.symm.trans (allDummies piece mem))
      unfold pieceAt
      rw [if_neg isReal, if_neg isReal, List.find?_append, List.find?_append, notDummy,
        Option.or_none, List.find?_append]
  · intro once
    rcases List.pairwise_append.mp once with ⟨onceFirst, onceRest, between⟩
    refine List.pairwise_append.mpr ⟨List.pairwise_append.mpr ⟨onceFirst, ?_, ?_⟩, onceRest, ?_⟩
    · exact List.pairwise_iff_forall_sublist.mpr (fun pair _ =>
        allDummies _ (pair.subset (List.mem_cons_self ..)))
    · exact fun piece _ dummy mem same => same.trans (allDummies dummy mem)
    · intro piece mem piece' mem' same
      rcases List.mem_append.mp mem with inFirst | isDummy
      · exact between piece inFirst piece' mem' same
      · exact allDummies piece isDummy

theorem Idled.pieceAt_eq (idled : Idled omap omap') :
    pieceAt omap'.pieces = pieceAt omap.pieces := by
  simpa using (idled.entries []).1

theorem Idled.weaves (idled : Idled omap omap') {store : Int → Option Piece}
    (weaves : omap.Weaves store tree) : omap'.Weaves store tree := by
  have once : Once omap'.pieces := by simpa using (idled.entries []).2 (by simpa using weaves.once)
  have woven := Woven.congr_pieces weaves idled.pieceAt_eq once
  rwa [← idled.rootKey, ← idled.rootLeaf] at woven

/-- A dummy step. -/
theorem Stocked.settles_idle (stocked : omap.Stocked ledger) (depth key leaf parentKey : Int) :
    Settles (omap.oramStep depth key leaf false parentKey) (fun omap' =>
      omap'.Stocked ledger ∧ Idled omap omap' ∧ ∃ node, omap'.local_ = omap.local_ ++ [node] ∧
        node.avl.data.length = omap.valueSize) := by
  refine (stocked.settles_dummy depth key leaf parentKey).mono ?_
  rintro omap' ⟨stocked', kept, node, added, isDummy, sized⟩
  refine ⟨stocked', ⟨kept, [node], added, ?_⟩, node, added, sized⟩
  rintro _ (_ | ⟨_, _ | _⟩)
  exact ⟨isDummy, sized⟩

/-! ## Steps at stored nodes -/

/-- What the nodes of an operation lead to. -/
def links (omap : TeeAvlOmap) (ledger : Ledger) : Links Int Bytes :=
  pieceLinks omap.pieces (storeOf omap.nodeSize ledger)

/-- During an operation the local and the stored nodes make up the tree. -/
structure Opened (omap : TeeAvlOmap) (ledger : Ledger) (tree : BinaryTree (Int × Bytes)) :
    Prop where
  stocked : omap.Stocked ledger
  weaves : omap.Weaves (storeOf omap.nodeSize ledger) tree
  sized : omap.DataSized
  keys : ∀ key ∈ keysOf tree, IsKey key

/-- A step asks for the root of a subtree whose nodes are all stored. -/
structure Walk (omap : TeeAvlOmap) (ledger : Ledger) (tree : BinaryTree (Int × Bytes))
    (key leaf above : Int) (sub : BinaryTree (Int × Bytes)) (before after : List (Int × Bytes)) :
    Prop extends Opened omap ledger tree where
  focus : Focus (omap.links ledger) invalidKey omap.rootKey tree key sub before after
  fresh : ∀ key ∈ keysOf sub, pieceAt omap.pieces key = none
  leaf_eq : ∀ entry, ledger key = some entry → leaf = entry.1
  below : above = invalidKey ∧ key = omap.rootKey ∨
    ∃ parent side, pieceAt omap.pieces above = some parent ∧ parent.childKey side = key

/-- The root of a subtree is local, its other nodes are stored. -/
structure Arrived (omap : TeeAvlOmap) (ledger : Ledger) (tree : BinaryTree (Int × Bytes))
    (node : AVLLocalNode) (sub : BinaryTree (Int × Bytes)) (before after : List (Int × Bytes)) :
    Prop extends Opened omap ledger tree where
  isLocal : pieceAt omap.pieces node.key = some node.piece
  focus : Focus (omap.links ledger) invalidKey omap.rootKey tree node.key sub before after
  fresh : ∀ key ∈ keysOf sub, key ≠ node.key → pieceAt omap.pieces key = none

theorem storeOf_update (size : Nat) (ledger : Ledger) (key : Int) :
    storeOf size (Function.update ledger key none) =
      Function.update (storeOf size ledger) key none := by
  funext key'
  unfold storeOf
  rw [Function.update_apply, Function.update_apply]
  split <;> rfl

theorem Kept.nodeSize (kept : Kept omap omap') : omap'.nodeSize = omap.nodeSize :=
  congrArg (avlHeaderSize + ·) kept.valueSize

/-- Before the first step everything is stored. -/
theorem Opened.start (opened : Opened omap ledger tree) (noLocal : omap.local_ = [])
    (nonempty : omap.rootKey ≠ invalidKey) :
    Walk omap ledger tree omap.rootKey omap.rootLeaf invalidKey tree [] [] := by
  refine ⟨opened, opened.weaves.spells.focus_root nonempty, ?_, ?_, Or.inl ⟨rfl, rfl⟩⟩
  · intro key _
    unfold pieces
    rw [noLocal]
    unfold pieceAt
    split <;> rfl
  · intro entry isLive
    exact opened.weaves.rootLeaf_eq _ (congrArg (Option.map _) isLive)

/-- A step brings in the root of a subtree. -/
theorem Walk.settles_step (walk : Walk omap ledger tree key leaf above sub before after)
    (depth : Int) : Settles (omap.oramStep depth key leaf true above) (fun omap' =>
      ∃ ledger' node, Arrived omap' ledger' tree node sub before after ∧ node.key = key ∧
        Kept omap omap' ∧ omap'.local_ = omap.local_ ++ [node]) := by
  have isReal := walk.focus.real
  rcases walk.focus.root true with ⟨rootEntry, child, other, link, rfl, isRoot, found, -⟩
  have absent := walk.fresh key (mem_keysOf_nodeOn.mpr (Or.inl isRoot))
  unfold TeeAvlOmap.links pieceLinks at found
  rw [nodeOf?_stored absent] at found
  rcases isLive : ledger key with _ | entry
  · unfold storeOf at found
    rw [isLive] at found
    cases found
  have isStored : storeOf omap.nodeSize ledger key = some (storedPiece omap.nodeSize key entry) :=
    congrArg (Option.map _) isLive
  rw [walk.leaf_eq entry isLive]
  refine (walk.stocked.settles_real isLive depth above).mono ?_
  rintro omap' ⟨stocked', kept, node, added, isNode⟩
  have sameKey : node.key = key := congrArg Piece.key isNode
  have pieces_eq : omap'.pieces =
      omap.pieces ++ [{ storedPiece omap.nodeSize key entry with parentKey := above }] := by
    rw [pieces, added, List.map_append, List.map_singleton, isNode]
    rfl
  have links_eq : omap'.links (Function.update ledger key none) = omap.links ledger := by
    unfold TeeAvlOmap.links
    rw [kept.nodeSize, storeOf_update, pieces_eq,
      Woven.pieceLinks_fetch absent isStored rfl isReal above]
  have weaves' : omap'.Weaves (storeOf omap'.nodeSize (Function.update ledger key none)) tree := by
    have woven := walk.weaves.fetch isStored walk.below
    rwa [← pieces_eq, ← storeOf_update, ← kept.nodeSize, ← kept.rootKey, ← kept.rootLeaf] at woven
  refine ⟨_, node, ⟨⟨stocked', weaves', ?_, walk.keys⟩, ?_, ?_, ?_⟩, sameKey, kept, added⟩
  · intro other mem
    rw [added] at mem
    rw [kept.valueSize]
    rcases List.mem_append.mp mem with wasThere | isNew
    · exact walk.sized other wasThere
    · rw [List.mem_singleton.mp isNew]
      exact (congrArg (fun piece => piece.data.length) isNode).trans
        (length_data_storedPiece omap.valueSize key entry)
  · refine (pieceAt_eq_some_iff weaves'.once).mpr ⟨?_, rfl, sameKey ▸ isReal⟩
    rw [pieces_eq, ← isNode]
    exact List.mem_append_right _ (List.mem_singleton_self _)
  · rw [sameKey, links_eq, kept.rootKey]
    exact walk.focus
  · intro key' mem different
    rw [pieces_eq, pieceAt_append, walk.fresh key' mem, Option.none_or, if_neg]
    rintro ⟨-, same⟩
    exact different (sameKey ▸ same.symm)

theorem spells_null {links : Links Int Bytes} {null : Int}
    (spells : links.Spells null null tree) : tree = .nil := by
  cases tree with
  | nil => rfl
  | node entry left right => exact absurd rfl spells.2.1

/-- On either side there is nothing, or a subtree to which the walk can go on. -/
theorem Arrived.split (arrived : Arrived omap ledger tree node sub before after) (side : Bool) :
    ∃ child other, sub = nodeOn side (node.key, node.avl.data) child other ∧
      (node.piece.childKey side = invalidKey → child = .nil) ∧
      (node.piece.childKey side ≠ invalidKey →
        Walk omap ledger tree (node.piece.childKey side) (node.piece.childLeaf side) node.key child
          (beforeChild side (node.key, node.avl.data) other before)
          (afterChild side (node.key, node.avl.data) other after)) := by
  rcases arrived.focus.root side with ⟨⟨_, _⟩, child, other, link, rfl, rfl, found, value,
    spells, -⟩
  have isLinked : omap.links ledger node.key = some node.piece.link :=
    pieceLinks_eq (nodeOf?_local arrived.isLocal)
  cases isLinked.symm.trans found
  subst value
  refine ⟨child, other, rfl, ?_, ?_⟩
  · intro empty
    rw [show node.piece.link.child side = node.piece.childKey side from rfl, empty] at spells
    exact spells_null spells
  · intro isReal
    have focus := arrived.focus.down arrived.weaves.spells arrived.weaves.nodup found isReal
    rcases nodup_nodeOn (arrived.focus.nodup arrived.weaves.nodup) with ⟨-, -, notChild, -⟩
    refine ⟨arrived.toOpened, focus, ?_, ?_, Or.inr ⟨_, side, arrived.isLocal, rfl⟩⟩
    · intro key' mem
      refine arrived.fresh key' (mem_keysOf_nodeOn.mpr (Or.inr (Or.inl mem))) ?_
      rintro rfl
      exact notChild mem
    · intro entry isLive
      exact arrived.weaves.leaves _ _ side _ (nodeOf?_local arrived.isLocal)
        (congrArg (Option.map _) isLive)

end TeeAvlOmap

end TieredOmap
