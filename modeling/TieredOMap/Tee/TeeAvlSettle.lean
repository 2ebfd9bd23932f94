import TieredOMap.Omap.AvlStore
import TieredOMap.Tee.TeeAvlStore

/-!
# Giving out leaves and storing the entries

At the end of an operation every local node gets a new leaf, its parent, which is local as well, is
told, and all entries go back to the stash. The stored nodes then make up the tree that the
local and the stored ones made up before.
-/

namespace TieredOmap

open Links EnclaveOram

namespace TeeAvlOmap

variable {omap : TeeAvlOmap} {ledger : Ledger} {nodes : List AVLLocalNode} {node : AVLLocalNode}

/-! ## New leaves -/

/-- An entry with another leaf, a proper one if the entry is no dummy. -/
def Releafed (level : Nat) (node node' : AVLLocalNode) : Prop :=
  ∃ leaf, node' = { node with leaf } ∧ (node.key ≠ invalidKey → IsLeaf level leaf)

theorem Stocked.settles_drawLocalLeaves (stocked : omap.Stocked ledger)
    (nodes : List AVLLocalNode) : Settles (omap.drawLocalLeaves nodes)
      (List.Forall₂ (Releafed omap.lowerOram.level) nodes) := by
  induction nodes with
  | nil => exact Prog.ends_pure List.Forall₂.nil
  | cons node rest ih =>
      unfold drawLocalLeaves
      refine Prog.ends_bind ih (fun rest' releafed => ?_)
      rw [(stocked.oram node.depth).1]
      refine Prog.ends_bind (EnclaveOram.ends_randomLeaf _) (fun leaf isLeaf => ?_)
      refine Prog.ends_pure (List.Forall₂.cons ⟨_, rfl, fun isReal => ?_⟩ releafed)
      rw [isReal_iff.mpr isReal, oSelect_true]
      exact isLeaf

/-! ## Telling the parents -/

/-- A node with the leaves of its local children. -/
def retold (pieces : List Piece) (piece : Piece) : Piece :=
  { piece with
    childLeaf := fun side =>
      match pieceAt pieces (piece.childKey side) with
      | some child => child.leaf
      | none => piece.childLeaf side }

theorem foldl_map_comm {α β : Type} (f : β → α → α) (steps : List β) (items : List α) :
    steps.foldl (fun items step => items.map (f step)) items =
      items.map (fun item => steps.foldl (fun item step => f step item) item) := by
  induction steps generalizing items with
  | nil => simp
  | cons step rest ih => rw [List.foldl_cons, ih, List.map_map]; rfl

/-- The flag with which a parent is told about a child. -/
def isTold (child parent : AVLLocalNode) (side : Bool) : Bool :=
  isReal child && !oEqual child.parentKey invalidKey && isReal parent &&
    oEqual parent.key child.parentKey && oEqual (parent.piece.childKey side) child.key

theorem piece_pointAt (child parent : AVLLocalNode) : (pointAt child parent).piece =
    { parent.piece with
      childLeaf := fun side =>
        oMov (isTold child parent side) (parent.piece.childLeaf side) child.leaf } := by
  refine Piece.ext rfl rfl rfl rfl ?_ ?_
  · funext side
    cases side <;> rfl
  · funext side
    cases side <;> rfl

/-- An entry after it was told about some children. -/
theorem piece_tell (children : List AVLLocalNode) (parent : AVLLocalNode) :
    (children.foldl (fun parent child => pointAt child parent) parent).piece =
      { parent.piece with
        childLeaf := fun side =>
          children.foldl (fun leaf child => oMov (isTold child parent side) leaf child.leaf)
            (parent.piece.childLeaf side) } := by
  have sameFlag : ∀ (children : List AVLLocalNode) (parent parent' : AVLLocalNode) (side : Bool),
      parent'.key = parent.key → parent'.piece.childKey = parent.piece.childKey →
        ∀ leaf, children.foldl (fun leaf child => oMov (isTold child parent' side) leaf child.leaf)
            leaf =
          children.foldl (fun leaf child => oMov (isTold child parent side) leaf child.leaf)
              leaf := by
    intro children parent parent' side sameKey sameChildren leaf
    congr 1
    funext leaf child
    unfold isTold isReal
    rw [sameKey, sameChildren]
  induction children generalizing parent with
  | nil => rfl
  | cons child rest ih =>
      rw [List.foldl_cons, ih]
      have told := piece_pointAt child parent
      have sameKey : (pointAt child parent).key = parent.key := rfl
      have sameChildren : (pointAt child parent).piece.childKey = parent.piece.childKey :=
        (congrArg Piece.childKey told).trans rfl
      simp only [sameFlag rest parent (pointAt child parent) _ sameKey sameChildren]
      rw [told]
      simp only [List.foldl_cons]

theorem isTold_iff {child parent : AVLLocalNode} {side : Bool} : isTold child parent side = true ↔
    child.key ≠ invalidKey ∧ child.parentKey ≠ invalidKey ∧ parent.key = child.parentKey ∧
      parent.piece.childKey side = child.key := by
  simp only [isTold, isReal, oEqual_eq, Bool.and_eq_true, Bool.not_eq_true', decide_eq_true_eq,
    decide_eq_false_iff_not]
  constructor
  · rintro ⟨⟨⟨⟨childReal, below⟩, -⟩, isParent⟩, leads⟩
    exact ⟨childReal, below, isParent, leads⟩
  · rintro ⟨childReal, below, isParent, leads⟩
    exact ⟨⟨⟨⟨childReal, below⟩, isParent.trans_ne below⟩, isParent⟩, leads⟩

/-- Every entry whose local children name it gets their leaves. -/
theorem pieces_tell (once : Once (nodes.map AVLLocalNode.piece)) (named : ∀ parent ∈ nodes,
      parent.key ≠ invalidKey → ∀ side child, pieceAt (nodes.map AVLLocalNode.piece)
        (parent.piece.childKey side) = some child → child.parentKey = parent.key) :
    List.Forall₂ Piece.Alike ((nodes.map AVLLocalNode.piece).map
        (retold (nodes.map AVLLocalNode.piece)))
      ((nodes.reverse.foldl (fun nodes child => nodes.map (pointAt child)) nodes).map
        AVLLocalNode.piece) := by
  rw [foldl_map_comm, List.map_map, List.map_map, List.forall₂_map_left_iff,
    List.forall₂_map_right_iff, List.forall₂_same]
  intro parent mem
  by_cases isDummy : parent.key = invalidKey
  · refine Or.inr ⟨isDummy, ?_⟩
    change (List.foldl (fun parent child => pointAt child parent) parent
      nodes.reverse).piece.key = _
    rw [piece_tell]
    exact isDummy
  · refine Or.inl ?_
    change retold (nodes.map AVLLocalNode.piece) parent.piece =
      (List.foldl (fun parent child => pointAt child parent) parent nodes.reverse).piece
    rw [piece_tell, retold]
    congr 1
    funext side
    rcases isChild : pieceAt (nodes.map AVLLocalNode.piece) (parent.piece.childKey side) with
      _ | child
    · refine (foldl_oMov_miss (fun child childMem => ?_)).symm
      rw [List.mem_reverse] at childMem
      refine Bool.eq_false_iff.mpr (fun told => ?_)
      rcases isTold_iff.mp told with ⟨childReal, -, -, leads⟩
      have found := pieceAt_of_mem once (List.mem_map_of_mem childMem) childReal
      rw [leads] at isChild
      cases isChild.symm.trans found
    · rcases mem_of_pieceAt isChild with ⟨childMem, isKey, childReal⟩
      rcases List.mem_map.mp childMem with ⟨childNode, nodeMem, rfl⟩
      have isParent := named parent mem isDummy side _ isChild
      refine (foldl_oMov_hit ⟨childNode, List.mem_reverse.mpr nodeMem, ?_⟩ ?_).symm
      · exact isTold_iff.mpr ⟨isKey.trans_ne childReal, isParent.trans_ne isDummy, isParent.symm,
          isKey.symm⟩
      · intro other otherMem told
        rw [List.mem_reverse] at otherMem
        rcases isTold_iff.mp told with ⟨otherReal, -, -, leads⟩
        have found := pieceAt_of_mem once (List.mem_map_of_mem otherMem) otherReal
        have isChild' := isChild
        rw [leads] at isChild'
        exact congrArg Piece.leaf (Option.some.inj (found.symm.trans isChild'))

/-! ## Encoded entries -/

theorem nodeOf_encode (avl : AVLNodeData) : AVLOmap.nodeOf avl.encode =
    { data := avl.data
      lKey := Int.bmod avl.lKey (2 ^ 32), lLeaf := Int.bmod avl.lLeaf (2 ^ 32)
      lHeight := Int.bmod avl.lHeight (2 ^ 32), rKey := Int.bmod avl.rKey (2 ^ 32)
      rLeaf := Int.bmod avl.rLeaf (2 ^ 32), rHeight := Int.bmod avl.rHeight (2 ^ 32) } := by
  have encodeEq : avl.encode = intToBytes avl.lKey ++ (intToBytes avl.lLeaf ++
      (intToBytes avl.lHeight ++ (intToBytes avl.rKey ++ (intToBytes avl.rLeaf ++
        (intToBytes avl.rHeight ++ avl.data))))) := by
    simp only [AVLNodeData.encode, List.append_assoc]
  unfold AVLOmap.nodeOf
  rw [encodeEq]
  simp only [drop_intToBytes 0, drop_intToBytes 4, drop_intToBytes 8, drop_intToBytes 12,
    drop_intToBytes 16, drop_intToBytes 20, List.drop_zero, bytesToInt_intToBytes_append]

theorem length_encode_avl (avl : AVLNodeData) :
    avl.encode.length = avlHeaderSize + avl.data.length := by
  simp only [AVLNodeData.encode, List.length_append, length_intToBytes, avlHeaderSize]

/-- An encoded entry is decoded again, up to the range of its pointers. -/
theorem storedPiece_encode {size : Nat} (sized : node.avl.data.length = size) :
    storedPiece (avlHeaderSize + size) node.key (node.leaf, node.avl.encode) =
      { node.piece with
        parentKey := invalidKey
        childKey := fun side => Int.bmod (node.piece.childKey side) (2 ^ 32)
        childLeaf := fun side => Int.bmod (node.piece.childLeaf side) (2 ^ 32) } := by
  have length : node.avl.encode.length = avlHeaderSize + size := by
    rw [length_encode_avl, sized]
  have whole : fitValue (avlHeaderSize + size) node.avl.encode = node.avl.encode := by
    rw [fitValue_of_le length.le, padBytes, length, Nat.sub_self, List.replicate_zero,
      List.append_nil]
  unfold storedPiece
  rw [whole, nodeOf_encode]
  refine Piece.ext rfl rfl rfl rfl ?_ ?_
  · funext side
    cases side <;> rfl
  · funext side
    cases side <;> rfl

/-! ## Flushing -/

/-- The ledger after entries were stored. -/
def storedAll (nodes : List AVLLocalNode) (ledger : Ledger) : Ledger :=
  nodes.foldl (fun ledger node => afterAdd ledger node.key node.leaf node.avl.encode) ledger

theorem storedAll_of_absent (nodes : List AVLLocalNode) (ledger : Ledger) {key : Int}
    (absent : ∀ node ∈ nodes, node.key ≠ invalidKey → node.key ≠ key) :
    storedAll nodes ledger key = ledger key := by
  induction nodes generalizing ledger with
  | nil => rfl
  | cons node rest ih =>
      refine (ih _ (fun node' mem => absent node' (List.mem_cons_of_mem _ mem))).trans ?_
      dsimp only
      unfold afterAdd
      split
      · rfl
      · rename_i isReal
        exact Function.update_of_ne (absent node List.mem_cons_self isReal).symm _ _

theorem storedAll_of_mem (once : Once (nodes.map AVLLocalNode.piece)) (ledger : Ledger)
    (mem : node ∈ nodes) (isReal : node.key ≠ invalidKey) :
    storedAll nodes ledger node.key = some (node.leaf, node.avl.encode) := by
  induction nodes generalizing ledger with
  | nil => cases mem
  | cons head rest ih =>
      rw [List.map_cons] at once
      rcases List.pairwise_cons.mp once with ⟨headOnce, restOnce⟩
      rcases List.mem_cons.mp mem with rfl | inRest
      · refine (storedAll_of_absent rest _ (fun node' mem' _ same => ?_)).trans ?_
        · exact isReal (headOnce node'.piece (List.mem_map_of_mem mem') same.symm)
        · dsimp only
          rw [afterAdd, if_neg isReal, Function.update_self]
      · exact ih restOnce _ inRest

/-- Storing entries with new keys. -/
theorem Stocked.storeAll (nodes : List AVLLocalNode) {omap : TeeAvlOmap} {ledger : Ledger}
    (stocked : omap.Stocked ledger) (once : Once (nodes.map AVLLocalNode.piece))
    (valid : ∀ node ∈ nodes, node.key ≠ invalidKey →
      ledger node.key = none ∧ IsLeaf omap.lowerOram.level node.leaf ∧ IsKey node.key)
    (sized : ∀ node ∈ nodes, node.avl.data.length = omap.valueSize) :
    (nodes.foldl (fun omap node => omap.setOram node.depth
        ((omap.oramForDepth node.depth).addToStash node.key node.leaf node.avl.encode))
          omap).Stocked (storedAll nodes ledger) ∧
      Kept omap (nodes.foldl (fun omap node => omap.setOram node.depth
        ((omap.oramForDepth node.depth).addToStash node.key node.leaf node.avl.encode)) omap) := by
  induction nodes generalizing omap ledger with
  | nil => exact ⟨stocked, Kept.refl omap⟩
  | cons node rest ih =>
      rw [List.map_cons] at once
      rcases List.pairwise_cons.mp once with ⟨headOnce, restOnce⟩
      have valid' := valid node List.mem_cons_self
      rcases stocked.oram node.depth with ⟨oramIs, setOramIs⟩
      have short : node.avl.encode.length ≤ omap.nodeSize := by
        rw [length_encode_avl, sized node List.mem_cons_self]
        exact le_rfl
      have isNew : node.key = invalidKey ∨ ledger node.key = none := by
        by_cases isDummy : node.key = invalidKey
        · exact Or.inl isDummy
        · exact Or.inr (valid' isDummy).1
      have added := @Sound.addToStash _ _ _ stocked.sound _ node.leaf _ isNew short
      have stocked' := @Stocked.withOram _ _ stocked (omap.lowerOram.addToStash node.key node.leaf
        node.avl.encode) _ ⟨rfl, rfl, rfl, rfl⟩ added (fun key entry isLive => by
          unfold afterAdd at isLive
          split at isLive
          · exact ⟨stocked.leaves key entry isLive, stocked.keys key entry isLive⟩
          · rename_i isReal
            rw [Function.update_apply] at isLive
            split at isLive
            · rename_i same
              cases isLive
              rw [same]
              exact (valid' isReal).2
            · exact ⟨stocked.leaves key entry isLive, stocked.keys key entry isLive⟩)
      rw [List.foldl_cons, oramIs, setOramIs]
      rcases ih stocked' restOnce (fun node' mem isReal => by
        have validOld := valid node' (List.mem_cons_of_mem _ mem) isReal
        refine ⟨?_, validOld.2⟩
        unfold afterAdd
        split
        · exact validOld.1
        · rename_i headReal
          rw [Function.update_of_ne, validOld.1]
          exact fun same => headReal (headOnce node'.piece (List.mem_map_of_mem mem) same.symm))
        (fun node' mem => sized node' (List.mem_cons_of_mem _ mem)) with ⟨stocked'', kept⟩
      exact ⟨stocked'', ⟨kept.maxHeight, kept.splitDepth, kept.valueSize, kept.rootKey,
        kept.rootLeaf⟩⟩

/-! ## The stored tree -/

/-- The sizes of a map do not change. -/
structure SameSizes (omap omap' : TeeAvlOmap) : Prop where
  maxHeight : omap'.maxHeight = omap.maxHeight
  splitDepth : omap'.splitDepth = omap.splitDepth
  valueSize : omap'.valueSize = omap.valueSize

theorem Kept.sizes {omap omap' : TeeAvlOmap} (kept : Kept omap omap') : SameSizes omap omap' :=
  ⟨kept.maxHeight, kept.splitDepth, kept.valueSize⟩

theorem SameSizes.trans {omap omap' omap'' : TeeAvlOmap} (sizes : SameSizes omap omap')
    (sizes' : SameSizes omap' omap'') : SameSizes omap omap'' :=
  ⟨sizes'.maxHeight.trans sizes.maxHeight, sizes'.splitDepth.trans sizes.splitDepth,
    sizes'.valueSize.trans sizes.valueSize⟩

/-- The stored nodes make up a search tree. -/
def Rests (omap : TeeAvlOmap) (tree : BinaryTree (Int × Bytes)) : Prop :=
  ∃ ledger, omap.Stocked ledger ∧
    Woven omap.rootKey omap.rootLeaf [] (storeOf omap.nodeSize ledger) tree ∧
    ∀ key ∈ keysOf tree, IsKey key

section Finish

variable {tree : BinaryTree (Int × Bytes)} {level : Nat} {nodes' : List AVLLocalNode}

/-- The entries under their keys, with new leaves. -/
theorem pieceAt_releafed (releafed : List.Forall₂ (Releafed level) nodes nodes') (key : Int) :
    (pieceAt (nodes.map AVLLocalNode.piece) key = none →
      pieceAt (nodes'.map AVLLocalNode.piece) key = none) ∧
    ∀ piece, pieceAt (nodes.map AVLLocalNode.piece) key = some piece → ∃ leaf,
      pieceAt (nodes'.map AVLLocalNode.piece) key = some { piece with leaf } ∧
          IsLeaf level leaf := by
  unfold pieceAt
  split
  · exact ⟨fun _ => rfl, fun piece impossible => by cases impossible⟩
  · rename_i isReal
    induction releafed with
    | nil => exact ⟨fun _ => rfl, fun piece impossible => by cases impossible⟩
    | @cons node node' rest rest' same _ ih =>
        rcases same with ⟨leaf, rfl, isLeaf⟩
        rw [List.map_cons, List.map_cons]
        have keyIs : (AVLLocalNode.piece { node with leaf }).key = node.piece.key := rfl
        by_cases here : node.piece.key = key
        · have here' := keyIs.trans here
          rw [List.find?_cons_of_pos (by simpa using here),
            List.find?_cons_of_pos (by simpa using here')]
          refine ⟨fun impossible => (by cases impossible), ?_⟩
          rintro piece ⟨⟩
          exact ⟨leaf, rfl, isLeaf (here.trans_ne isReal)⟩
        · have notHere : ¬(AVLLocalNode.piece { node with leaf }).key = key := here
          rw [List.find?_cons_of_neg (by simpa using here),
            List.find?_cons_of_neg (by simpa using notHere)]
          exact ih

theorem once_releafed (releafed : List.Forall₂ (Releafed level) nodes nodes')
    (once : Once (nodes.map AVLLocalNode.piece)) : Once (nodes'.map AVLLocalNode.piece) := by
  have sameKeys : nodes'.map AVLLocalNode.key = nodes.map AVLLocalNode.key := by
    induction releafed with
    | nil => rfl
    | cons same _ ih =>
        rcases same with ⟨leaf, rfl, -⟩
        rw [List.map_cons, List.map_cons, ih (List.Pairwise.of_cons once)]
  have byKeys : ∀ nodes : List AVLLocalNode, Once (nodes.map AVLLocalNode.piece) ↔
      (nodes.map AVLLocalNode.key).Pairwise (fun key key' => key = key' → key = invalidKey) := by
    intro nodes
    rw [Once, List.pairwise_map, List.pairwise_map]
    rfl
  rw [byKeys, sameKeys]
  exact (byKeys nodes).mp once

theorem isInt_of_isLeaf {leaf : Int} (small : level ≤ 32) (isLeaf : IsLeaf level leaf) :
    IsInt leaf := by
  rcases isLeaf with ⟨lower, upper⟩
  have bound : (2 : Int) ^ (level - 1) ≤ 2 ^ 31 := pow_le_pow_right₀ (by decide) (by omega)
  exact ⟨by omega, by omega⟩

/-- A local child names its parent. -/
theorem Weaves.named {store : Int → Option Piece} (weaves : omap.Weaves store tree)
    (releafed : List.Forall₂ (Releafed level) omap.local_ nodes) : ∀ parent ∈ nodes,
      parent.key ≠ invalidKey → ∀ side child, pieceAt (nodes.map AVLLocalNode.piece)
        (parent.piece.childKey side) = some child → child.parentKey = parent.key := by
  intro parent mem isReal side child isChild
  have before : ∀ key piece, pieceAt (nodes.map AVLLocalNode.piece) key = some piece →
      ∃ piece' leaf, pieceAt omap.pieces key = some piece' ∧ piece = { piece' with leaf } := by
    intro key piece found
    rcases isLocal : pieceAt omap.pieces key with _ | piece'
    · rw [(pieceAt_releafed releafed key).1 isLocal] at found
      cases found
    · rcases (pieceAt_releafed releafed key).2 piece' isLocal with ⟨leaf, found', -⟩
      exact ⟨piece', leaf, rfl, Option.some.inj (found.symm.trans found')⟩
  have isParent := pieceAt_of_mem (once_releafed releafed weaves.once)
    (List.mem_map_of_mem mem) isReal
  rcases before _ _ isParent with ⟨parent', leaf, foundParent, parentIs⟩
  rcases before _ _ isChild with ⟨child', leaf', foundChild, rfl⟩
  have leads : parent'.childKey side = parent.piece.childKey side := by rw [parentIs]
  exact (weaves.parent_eq foundChild (nodeOf?_local foundParent) leads).symm

section Told

variable {told : List AVLLocalNode} {key : Int}

/-- An entry that is told about its children comes from one that was local, with a new leaf. -/
theorem told_found (releafed : List.Forall₂ (Releafed level) omap.local_ nodes)
    (entries : List.Forall₂ Piece.Alike ((nodes.map AVLLocalNode.piece).map
      (retold (nodes.map AVLLocalNode.piece))) (told.map AVLLocalNode.piece)) :
    (pieceAt omap.pieces key = none → pieceAt (told.map AVLLocalNode.piece) key = none ∧
      pieceAt (nodes.map AVLLocalNode.piece) key = none) ∧
    ∀ piece, pieceAt omap.pieces key = some piece → ∃ node ∈ told, ∃ leaf, IsLeaf level leaf ∧
      node.piece = retold (nodes.map AVLLocalNode.piece) { piece with leaf } ∧
      pieceAt (nodes.map AVLLocalNode.piece) key = some { piece with leaf } ∧
      pieceAt (told.map AVLLocalNode.piece) key = some node.piece := by
  have lookup : pieceAt (told.map AVLLocalNode.piece) key =
      (pieceAt (nodes.map AVLLocalNode.piece) key).map
        (retold (nodes.map AVLLocalNode.piece)) := by
    rw [← pieceAt_alike entries]
    exact pieceAt_map (f := retold (nodes.map AVLLocalNode.piece)) (fun _ => rfl) _ _
  rcases pieceAt_releafed releafed key with ⟨absent, present⟩
  refine ⟨fun isAbsent => ⟨?_, absent isAbsent⟩, fun piece found => ?_⟩
  · rw [lookup, absent isAbsent]
    rfl
  · rcases present piece found with ⟨leaf, found', isLeaf⟩
    rw [found'] at lookup
    rcases List.mem_map.mp (mem_of_pieceAt lookup).1 with ⟨node, mem, isNode⟩
    exact ⟨node, mem, leaf, isLeaf, isNode, found', lookup.trans (congrArg some isNode.symm)⟩

theorem once_told (once : Once (nodes.map AVLLocalNode.piece))
    (entries : List.Forall₂ Piece.Alike ((nodes.map AVLLocalNode.piece).map
      (retold (nodes.map AVLLocalNode.piece))) (told.map AVLLocalNode.piece)) :
    Once (told.map AVLLocalNode.piece) :=
  once_alike entries (once_map (fun _ => rfl) once)

/-- The pointers of a node of the tree are numbers. -/
theorem isInt_childKey {store : Int → Option Piece} {piece : Piece}
    (weaves : omap.Weaves store tree) (keys : ∀ key ∈ keysOf tree, IsKey key)
    (isNode : nodeOf? omap.pieces store key = some piece) (side : Bool) :
    IsInt (piece.childKey side) := by
  by_cases isNone : piece.childKey side = invalidKey
  · rw [isNone]
    decide
  · rcases keys _ (weaves.child_mem isNode side isNone) with ⟨lower, upper⟩
    exact ⟨by omega, upper⟩

/-- Under other keys the store is as before. -/
theorem stored_elsewhere (once : Once (told.map AVLLocalNode.piece))
    (absent : pieceAt (told.map AVLLocalNode.piece) key = none) :
    storeOf omap.nodeSize (storedAll told ledger) key = storeOf omap.nodeSize ledger key := by
  unfold storeOf
  rw [storedAll_of_absent]
  rintro node mem isReal rfl
  have found := pieceAt_of_mem once (List.mem_map_of_mem mem) isReal
  cases absent.symm.trans found

/-- Under the key of an entry the entry is stored. -/
theorem stored_node (sized : ∀ node ∈ told, node.avl.data.length = omap.valueSize)
    (once : Once (told.map AVLLocalNode.piece)) (ledger : Ledger) (mem : node ∈ told)
    (isReal : node.key ≠ invalidKey) :
    storeOf omap.nodeSize (storedAll told ledger) node.key = some { node.piece with
      parentKey := invalidKey
      childKey := fun side => Int.bmod (node.piece.childKey side) (2 ^ 32)
      childLeaf := fun side => Int.bmod (node.piece.childLeaf side) (2 ^ 32) } := by
  unfold storeOf
  rw [storedAll_of_mem once ledger mem isReal, Option.map_some, nodeSize,
    storedPiece_encode (sized node mem)]

end Told

/-- The entries, stored with their new leaves, make up the tree. -/
theorem Stocked.woven_told (stocked : omap.Stocked ledger)
    (weaves : omap.Weaves (storeOf omap.nodeSize ledger) tree)
    (keys : ∀ key ∈ keysOf tree, IsKey key)
    (releafed : List.Forall₂ (Releafed omap.lowerOram.level) omap.local_ nodes)
    {told : List AVLLocalNode} (entries : List.Forall₂ Piece.Alike
      ((nodes.map AVLLocalNode.piece).map (retold (nodes.map AVLLocalNode.piece)))
        (told.map AVLLocalNode.piece))
    (sized : ∀ node ∈ told, node.avl.data.length = omap.valueSize) :
    Woven omap.rootKey (told.foldl (fun rootLeaf node =>
        oMov (oEqual node.key omap.rootKey && isReal node) rootLeaf node.leaf) omap.rootLeaf) []
      (storeOf omap.nodeSize (storedAll told ledger)) tree := by
  have onceTold := once_told (once_releafed releafed weaves.once) entries
  have elsewhere : ∀ key, pieceAt omap.pieces key = none →
      storeOf omap.nodeSize (storedAll told ledger) key = storeOf omap.nodeSize ledger key :=
    fun key absent => stored_elsewhere onceTold ((told_found releafed entries).1 absent).1
  have here : ∀ key piece, pieceAt omap.pieces key = some piece → ∃ leaf,
      IsLeaf omap.lowerOram.level leaf ∧
      pieceAt (nodes.map AVLLocalNode.piece) key = some { piece with leaf } ∧
      (∃ node ∈ told, node.key = key ∧ node.key ≠ invalidKey ∧ node.leaf = leaf) ∧
      storeOf omap.nodeSize (storedAll told ledger) key =
        some { retold (nodes.map AVLLocalNode.piece) { piece with leaf } with
          parentKey := invalidKey
          childKey := fun side => Int.bmod (piece.childKey side) (2 ^ 32)
          childLeaf := fun side => Int.bmod ((retold (nodes.map AVLLocalNode.piece)
            { piece with leaf }).childLeaf side) (2 ^ 32) } := by
    intro key piece found
    rcases (told_found releafed entries).2 piece found with ⟨node, mem, leaf, isLeaf, isNode,
      found', foundTold⟩
    rcases mem_of_pieceAt foundTold with ⟨-, isKey, isReal⟩
    have isKey' : node.key = key := isKey
    have nodeReal : node.key ≠ invalidKey := isKey'.trans_ne isReal
    have stored := stored_node sized onceTold ledger mem nodeReal
    refine ⟨leaf, isLeaf, found', ⟨node, mem, isKey', nodeReal, congrArg Piece.leaf isNode⟩, ?_⟩
    rw [isKey', isNode] at stored
    exact stored
  have leafIs : ∀ key piece, storeOf omap.nodeSize ledger key = some piece →
      IsLeaf omap.lowerOram.level piece.leaf := by
    intro key piece isStored
    rcases Option.map_eq_some_iff.mp isStored with ⟨entry, isLive, rfl⟩
    exact stocked.leaves key entry isLive
  have sameInt : ∀ {value : Int}, IsInt value → Int.bmod value (2 ^ 32) = value := bmod_of_isInt
  refine weaves.settle ?_ ?_ ?_
  · intro key absent
    rcases isLocal : pieceAt omap.pieces key with _ | piece
    · rw [elsewhere key isLocal]
      exact (nodeOf?_stored isLocal).symm.trans absent
    · rw [nodeOf?_local isLocal] at absent
      cases absent
  · intro key piece isNode
    rcases nodeOf?_cases isNode with isLocal | ⟨notLocal, isStored⟩
    · rcases here key piece isLocal with ⟨leaf, isLeaf, found, -, stored⟩
      refine ⟨_, stored, (mem_of_pieceAt isLocal).2.1, rfl, ?_, ?_⟩
      · funext side
        exact sameInt (isInt_childKey weaves keys isNode side)
      · intro side child isChild
        change Int.bmod ((retold (nodes.map AVLLocalNode.piece) { piece with leaf }).childLeaf side)
          (2 ^ 32) = child.leaf
        unfold retold
        dsimp only
        rcases isLocalChild : pieceAt omap.pieces (piece.childKey side) with _ | child'
        · rw [((told_found releafed entries).1 isLocalChild).2]
          rw [elsewhere _ isLocalChild] at isChild
          dsimp only
          rw [weaves.leaves key piece side child isNode isChild]
          exact sameInt (isInt_of_isLeaf stocked.level (leafIs _ _ isChild))
        · rcases here _ child' isLocalChild with ⟨leaf', isLeaf', found', -, stored'⟩
          rw [found']
          cases isChild.symm.trans stored'
          exact sameInt (isInt_of_isLeaf stocked.level isLeaf')
    · refine ⟨piece, (elsewhere key notLocal).trans isStored, (weaves.keyed key piece isStored).1,
        rfl, rfl, ?_⟩
      intro side child isChild
      rcases isLocalChild : pieceAt omap.pieces (piece.childKey side) with _ | child'
      · rw [elsewhere _ isLocalChild] at isChild
        exact weaves.leaves key piece side child isNode isChild
      · rcases weaves.links_away isLocalChild isNode with away | ⟨isParent, -⟩
        · exact absurd rfl (away side)
        · rw [notLocal] at isParent
          cases isParent
  · intro piece isStored
    have isRoot : ∀ node : AVLLocalNode, (oEqual node.key omap.rootKey && isReal node) = true ↔
        node.key = omap.rootKey ∧ node.key ≠ invalidKey := by
      intro node
      rw [Bool.and_eq_true, isReal_iff, oEqual_eq, decide_eq_true_eq]
    rcases isLocal : pieceAt omap.pieces omap.rootKey with _ | root
    · rw [foldl_oMov_miss]
      · rw [elsewhere _ isLocal] at isStored
        exact weaves.rootLeaf_eq piece isStored
      · intro node mem
        refine Bool.eq_false_iff.mpr (fun passes => ?_)
        rcases (isRoot node).mp passes with ⟨same, nodeReal⟩
        have found := pieceAt_of_mem onceTold (List.mem_map_of_mem mem) nodeReal
        have absent := ((told_found releafed entries).1 isLocal).1
        rw [← same] at absent
        cases absent.symm.trans found
    · rcases here _ root isLocal with ⟨leaf, isLeaf, -,
        ⟨node, mem, isKey, nodeReal, leafEq⟩, stored⟩
      cases isStored.symm.trans stored
      refine foldl_oMov_hit ⟨node, mem, (isRoot node).mpr ⟨isKey, nodeReal⟩⟩ ?_
      intro other otherMem passes
      rcases (isRoot other).mp passes with ⟨same, otherReal⟩
      have found := pieceAt_of_mem onceTold (List.mem_map_of_mem mem) nodeReal
      have found' := pieceAt_of_mem onceTold (List.mem_map_of_mem otherMem) otherReal
      have sameKey : other.piece.key = node.piece.key := same.trans isKey.symm
      rw [sameKey] at found'
      have samePiece : other.piece = node.piece := Option.some.inj (found'.symm.trans found)
      exact (congrArg Piece.leaf samePiece).trans leafEq

theorem sized_releafed {size : Nat} (sized : ∀ node ∈ nodes, node.avl.data.length = size)
    (releafed : List.Forall₂ (Releafed level) nodes nodes') :
    ∀ node ∈ nodes', node.avl.data.length = size := by
  induction releafed with
  | nil => exact fun node mem => absurd mem List.not_mem_nil
  | @cons head _ _ _ same _ ih =>
      rcases same with ⟨leaf, rfl, -⟩
      intro node mem
      rcases List.mem_cons.mp mem with rfl | inRest
      · exact sized head List.mem_cons_self
      · exact ih (fun node' mem' => sized node' (List.mem_cons_of_mem _ mem')) node inRest

/-- At the end of an operation the entries are stored with new leaves. -/
theorem Stocked.settles_reassign (stocked : omap.Stocked ledger)
    (weaves : omap.Weaves (storeOf omap.nodeSize ledger) tree) (sized : omap.DataSized)
    (keys : ∀ key ∈ keysOf tree, IsKey key) : Settles omap.reassignLeaves (fun omap' =>
      omap'.flushLocalToStash.Rests tree ∧ SameSizes omap omap'.flushLocalToStash) := by
  unfold reassignLeaves
  refine Prog.ends_bind (stocked.settles_drawLocalLeaves omap.local_) (fun nodes releafed => ?_)
  refine Prog.ends_pure ?_
  have once := once_releafed releafed weaves.once
  have entries := pieces_tell once (weaves.named releafed)
  have toldSized : ∀ node ∈ nodes.reverse.foldl
      (fun nodes child => nodes.map (pointAt child)) nodes,
      node.avl.data.length = omap.valueSize := by
    intro node mem
    rw [foldl_map_comm] at mem
    rcases List.mem_map.mp mem with ⟨parent, parentMem, rfl⟩
    have sameData := congrArg Piece.data (piece_tell nodes.reverse parent)
    change (nodes.reverse.foldl (fun parent child => pointAt child parent)
      parent).piece.data.length = _
    rw [sameData]
    exact sized_releafed sized releafed parent parentMem
  generalize nodes.reverse.foldl (fun nodes child => nodes.map (pointAt child)) nodes = told
    at entries toldSized
  have woven := stocked.woven_told weaves keys releafed entries toldSized
  have valid : ∀ node ∈ told, node.key ≠ invalidKey → ledger node.key = none ∧
      IsLeaf omap.lowerOram.level node.leaf ∧ IsKey node.key := by
    intro node mem isReal
    have found := pieceAt_of_mem (once_told once entries) (List.mem_map_of_mem mem) isReal
    rcases isLocal : pieceAt omap.pieces node.piece.key with _ | piece
    · rw [((told_found releafed entries).1 isLocal).1] at found
      cases found
    · rcases (told_found releafed entries).2 piece isLocal with ⟨node', -, leaf, isLeaf, isNode, -,
        found'⟩
      have samePiece : node.piece = node'.piece := Option.some.inj (found.symm.trans found')
      have leafEq : node.leaf = leaf := congrArg Piece.leaf (samePiece.trans isNode)
      refine ⟨Option.map_eq_none_iff.mp (weaves.apart _ _ isLocal), leafEq ▸ isLeaf, ?_⟩
      exact keys _ (weaves.all _ _ (nodeOf?_local isLocal))
  have stockedTold := @Stocked.congr _ _ stocked { omap with
    local_ := told
    rootLeaf := told.foldl (fun rootLeaf node =>
      oMov (oEqual node.key omap.rootKey && isReal node) rootLeaf node.leaf) omap.rootLeaf }
      rfl rfl rfl
  rcases stockedTold.storeAll told (once_told once entries) valid toldSized with ⟨stocked', kept⟩
  refine ⟨⟨storedAll told ledger, stocked'.congr rfl rfl rfl, ?_, keys⟩, ⟨kept.maxHeight,
    kept.splitDepth, kept.valueSize⟩⟩
  have sameNodes : nodeSize (flushLocalToStash { omap with
      local_ := told
      rootLeaf := told.foldl (fun rootLeaf node =>
        oMov (oEqual node.key omap.rootKey && isReal node) rootLeaf node.leaf) omap.rootLeaf }) =
      omap.nodeSize := congrArg (avlHeaderSize + ·) kept.valueSize
  rw [sameNodes]
  have sameRoot : (flushLocalToStash { omap with
      local_ := told
      rootLeaf := told.foldl (fun rootLeaf node =>
        oMov (oEqual node.key omap.rootKey && isReal node) rootLeaf node.leaf)
          omap.rootLeaf }).rootKey =
      omap.rootKey := kept.rootKey
  have sameLeaf := kept.rootLeaf
  rw [sameRoot]
  exact sameLeaf ▸ woven

end Finish

end TeeAvlOmap

end TieredOmap
