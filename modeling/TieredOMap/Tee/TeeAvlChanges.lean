import TieredOMap.Tee.TeeAvlPieces

/-!
# Changes of the local nodes

What an operation does to `local_` keeps the nodes woven into a search tree: fetching a node,
changing a value, rotating, hanging a new node in and taking one out. Each change is a map over
the entries. Storing the entries again makes a tree of stored nodes.
-/

namespace TieredOmap

namespace Woven

variable {rootKey rootLeaf key : Int} {pieces : List Piece} {store store' : Int → Option Piece}
  {tree : BinaryTree (Int × Bytes)} {piece : Piece} {side : Bool}

/-- Dummies do not matter. -/
theorem congr_pieces (woven : Woven rootKey rootLeaf pieces store tree) {pieces' : List Piece}
    (same : pieceAt pieces' = pieceAt pieces) (once : Once pieces') :
    Woven rootKey rootLeaf pieces' store tree := by
  have sameNodes : nodeOf? pieces' store = nodeOf? pieces store := by
    funext key
    rw [nodeOf?, nodeOf?, same]
  have sameLinks : pieceLinks pieces' store = pieceLinks pieces store := by
    funext key
    rw [pieceLinks, pieceLinks, sameNodes]
  refine ⟨once, ?_, woven.keyed, ?_, ?_, woven.ordered, ?_, woven.rootLeaf_eq, ?_⟩
  · rw [same]
    exact woven.apart
  · rw [sameLinks]
    exact woven.spells
  · rw [sameNodes]
    exact woven.all
  · rw [sameNodes]
    exact woven.leaves
  · rw [same]
    exact woven.parents

/-! ## Fetching a node -/

theorem nodeOf?_fetch (absent : pieceAt pieces key = none) (found : store key = some piece)
    (keyed : piece.key = key) (isReal : key ≠ invalidKey) (parentKey : Int) :
    nodeOf? (pieces ++ [{ piece with parentKey }]) (Function.update store key none) = fun key' =>
      if key' = key then some { piece with parentKey } else nodeOf? pieces store key' := by
  funext key'
  rw [nodeOf?, pieceAt_append]
  by_cases same : key' = key
  · subst same
    rw [absent, if_pos rfl, if_pos ⟨isReal, keyed⟩]
    rfl
  · rw [if_neg same, if_neg (fun both => same (both.2.symm.trans keyed)), Option.or_none,
      Function.update_of_ne same]
    rfl

/-- The links do not change when a node becomes local. -/
theorem pieceLinks_fetch (absent : pieceAt pieces key = none) (found : store key = some piece)
    (keyed : piece.key = key) (isReal : key ≠ invalidKey) (parentKey : Int) :
    pieceLinks (pieces ++ [{ piece with parentKey }]) (Function.update store key none) =
      pieceLinks pieces store := by
  funext key'
  rw [pieceLinks, nodeOf?_fetch absent found keyed isReal]
  dsimp only
  split
  · rename_i same
    rw [same, pieceLinks, nodeOf?_stored absent, found]
    rfl
  · rfl

/-- A stored node becomes local, after the root or below a local node. -/
theorem fetch (woven : Woven rootKey rootLeaf pieces store tree) (found : store key = some piece)
    {parentKey : Int} (above : parentKey = invalidKey ∧ key = rootKey ∨
      ∃ parent side, pieceAt pieces parentKey = some parent ∧ parent.childKey side = key) :
    Woven rootKey rootLeaf (pieces ++ [{ piece with parentKey }]) (Function.update store key none)
      tree := by
  rcases woven.keyed key piece found with ⟨keyed, isReal⟩
  have absent : pieceAt pieces key = none := by
    rcases isLocal : pieceAt pieces key with _ | other
    · rfl
    · rw [woven.apart key other isLocal] at found
      cases found
  have nodes := nodeOf?_fetch absent found keyed isReal parentKey
  have entries : ∀ key', pieceAt (pieces ++ [{ piece with parentKey }]) key' =
      if key' = key then some { piece with parentKey } else pieceAt pieces key' := by
    intro key'
    rw [pieceAt_append]
    by_cases same : key' = key
    · subst same
      rw [absent, if_pos rfl, if_pos ⟨isReal, keyed⟩]
      rfl
    · rw [if_neg same, if_neg (fun both => same (both.2.symm.trans keyed)), Option.or_none]
  have fewer : ∀ key' piece', Function.update store key none key' = some piece' →
      store key' = some piece' := by
    intro key' piece' isStored
    rw [Function.update_apply] at isStored
    split at isStored
    · cases isStored
    · exact isStored
  refine ⟨once_append woven.once (Or.inr (keyed ▸ absent)), ?_, ?_, ?_, ?_, woven.ordered,
    ?_, ?_, ?_⟩
  · intro key' piece' isLocal
    rw [entries] at isLocal
    rw [Function.update_apply]
    split at isLocal
    · rename_i same
      rw [if_pos same]
    · rename_i differs
      rw [if_neg differs]
      exact woven.apart key' piece' isLocal
  · exact fun key' piece' isStored => woven.keyed key' piece' (fewer key' piece' isStored)
  · rw [pieceLinks_fetch absent found keyed isReal]
    exact woven.spells
  · intro key' piece' isNode
    rw [nodes] at isNode
    dsimp only at isNode
    split at isNode
    · rename_i same
      subst same
      exact woven.all key' piece ((nodeOf?_stored absent).trans found)
    · exact woven.all key' piece' isNode
  · intro key' piece' side child isNode isStored
    rw [nodes] at isNode
    dsimp only at isNode
    split at isNode
    · cases isNode
      exact woven.leaves key piece side child ((nodeOf?_stored absent).trans found)
        (fewer _ _ isStored)
    · exact woven.leaves key' piece' side child isNode (fewer _ _ isStored)
  · exact fun piece' isStored => woven.rootLeaf_eq piece' (fewer _ _ isStored)
  · intro key' piece' isLocal
    have stays : ∀ parentKey' parent, pieceAt pieces parentKey' = some parent →
        pieceAt (pieces ++ [{ piece with parentKey }]) parentKey' = some parent := by
      intro parentKey' parent isParent
      rw [entries, if_neg]
      · exact isParent
      · rintro rfl
        rw [absent] at isParent
        cases isParent
    rw [entries] at isLocal
    split at isLocal
    · rename_i same
      cases isLocal
      subst same
      rcases above with isRoot | ⟨parent, side, isParent, leads⟩
      · exact Or.inl isRoot
      · exact Or.inr ⟨parent, side, stays _ parent isParent, leads⟩
    · rcases woven.parents key' piece' isLocal with isRoot | ⟨parent, side, isParent, leads⟩
      · exact Or.inl isRoot
      · exact Or.inr ⟨parent, side, stays _ parent isParent, leads⟩

/-! ## Changing the entries in place -/

section Map

variable {f : Piece → Piece} {tree' : BinaryTree (Int × Bytes)} {rootKey' rootLeaf' : Int}

/-- The nodes after a change of the entries. -/
theorem nodeOf?_map (sameKey : ∀ piece, (f piece).key = piece.key) (pieces : List Piece)
    (store : Int → Option Piece) (key : Int) : nodeOf? (pieces.map f) store key =
      ((pieceAt pieces key).map f).or (store key) := by
  rw [nodeOf?, pieceAt_map sameKey]

/-- What is left to show when the entries are changed in place. -/
theorem changed (woven : Woven rootKey rootLeaf pieces store tree)
    (sameKey : ∀ piece, (f piece).key = piece.key)
    (spells : (pieceLinks (pieces.map f) store).Spells invalidKey rootKey' tree')
    (sameKeys : Links.keysOf tree' = Links.keysOf tree)
    (leaves : ∀ key piece side child, pieceAt pieces key = some piece →
      store ((f piece).childKey side) = some child → (f piece).childLeaf side = child.leaf)
    (rootLeaf_eq : ∀ piece, store rootKey' = some piece → rootLeaf' = piece.leaf)
    (parents : ∀ key piece, pieceAt pieces key = some piece →
      (f piece).parentKey = invalidKey ∧ key = rootKey' ∨ ∃ parent side,
        pieceAt pieces (f piece).parentKey = some parent ∧ (f parent).childKey side = key) :
    Woven rootKey' rootLeaf' (pieces.map f) store tree' := by
  have entries := pieceAt_map sameKey pieces
  have nodeCases : ∀ key piece', nodeOf? (pieces.map f) store key = some piece' →
      (∃ piece, pieceAt pieces key = some piece ∧ piece' = f piece) ∨
        nodeOf? pieces store key = some piece' := by
    intro key piece' isNode
    rcases nodeOf?_cases isNode with isLocal | ⟨notLocal, isStored⟩
    · rw [entries] at isLocal
      rcases Option.map_eq_some_iff.mp isLocal with ⟨piece, isPiece, rfl⟩
      exact Or.inl ⟨piece, isPiece, rfl⟩
    · rw [entries, Option.map_eq_none_iff] at notLocal
      exact Or.inr ((nodeOf?_stored notLocal).trans isStored)
  refine ⟨once_map sameKey woven.once, ?_, woven.keyed, spells, ?_, ?_, ?_, rootLeaf_eq, ?_⟩
  · intro key piece' isLocal
    rw [entries] at isLocal
    rcases Option.map_eq_some_iff.mp isLocal with ⟨piece, isPiece, -⟩
    exact woven.apart key piece isPiece
  · intro key piece' isNode
    rw [sameKeys]
    rcases nodeCases key piece' isNode with ⟨piece, isPiece, -⟩ | isNode'
    · exact woven.all key piece (nodeOf?_local isPiece)
    · exact woven.all key piece' isNode'
  · change (Links.keysOf tree').Pairwise (· < ·)
    rw [sameKeys]
    exact woven.ordered
  · intro key piece' side child isNode isStored
    rcases nodeCases key piece' isNode with ⟨piece, isPiece, rfl⟩ | isNode'
    · exact leaves key piece side child isPiece isStored
    · exact woven.leaves key piece' side child isNode' isStored
  · intro key piece' isLocal
    rw [entries] at isLocal
    rcases Option.map_eq_some_iff.mp isLocal with ⟨piece, isPiece, rfl⟩
    rcases parents key piece isPiece with isRoot | ⟨parent, side, isParent, leads⟩
    · exact Or.inl isRoot
    · refine Or.inr ⟨f parent, side, ?_, leads⟩
      rw [entries, isParent]
      rfl

end Map

/-- The entry of a key gets another value. -/
theorem setData (woven : Woven rootKey rootLeaf pieces store tree)
    (found : pieceAt pieces key = some piece) (data : Bytes) :
    ∃ tree', Woven rootKey rootLeaf (pieces.map (Piece.withData key data)) store tree' ∧
      ∃ lower upper, tree.toList = lower ++ (key, piece.data) :: upper ∧
        tree'.toList = lower ++ (key, data) :: upper := by
  have kept : ∀ piece : Piece, (piece.withData key data).key = piece.key ∧
      (piece.withData key data).childKey = piece.childKey ∧
      (piece.withData key data).childLeaf = piece.childLeaf ∧
      (piece.withData key data).parentKey = piece.parentKey := by
    intro piece
    unfold Piece.withData
    split <;> exact ⟨rfl, rfl, rfl, rfl⟩
  have nodes := nodeOf?_map (fun piece => (kept piece).1) pieces store
  rcases mem_of_pieceAt found with ⟨-, isKey, isReal⟩
  have isNode : nodeOf? pieces store key = some piece := nodeOf?_local found
  have here : pieceLinks (pieces.map (Piece.withData key data)) store key =
      some { piece.link with value := data } := by
    rw [pieceLinks, nodes, found]
    simp [Piece.withData, isKey, Piece.link]
  have others : ∀ y ∈ Links.keysOf tree, y ≠ key →
      pieceLinks (pieces.map (Piece.withData key data)) store y =
        (pieceLinks pieces store y).map (Link.redirect key key) := by
    intro y _ differs
    have unchanged : nodeOf? (pieces.map (Piece.withData key data)) store y =
        nodeOf? pieces store y := by
      rw [nodes, nodeOf?]
      rcases isLocal : pieceAt pieces y with _ | other
      · rfl
      · have otherKey := (mem_of_pieceAt isLocal).2.1
        rw [Option.map_some, Piece.withData,
          if_neg (fun same => differs (otherKey.symm.trans same))]
    rw [pieceLinks, pieceLinks, unchanged, Option.map_map]
    congr 1
    funext piece'
    exact (Link.redirect_same key piece'.link).symm
  rcases woven.spells.relabel woven.nodup (woven.all key piece isNode) (pieceLinks_eq isNode) isReal
    here others with ⟨tree', spells', lower, upper, split, split'⟩
  rw [Link.aim_same] at spells'
  refine ⟨tree', woven.changed (fun piece => (kept piece).1) spells' ?_ ?_ woven.rootLeaf_eq ?_,
    lower, upper, split, split'⟩
  · rw [Links.keysOf, Links.keysOf, split, split']
    simp
  · intro key' piece' side child isLocal isStored
    rw [(kept piece').2.1] at isStored
    rw [(kept piece').2.2.1]
    exact woven.leaves key' piece' side child (nodeOf?_local isLocal) isStored
  · intro key' piece' isLocal
    rw [(kept piece').2.2.2]
    rcases woven.parents key' piece' isLocal with isRoot | ⟨parent, side, isParent, leads⟩
    · exact Or.inl isRoot
    · refine Or.inr ⟨parent, side, isParent, ?_⟩
      rw [(kept parent).2.1]
      exact leads

/-- Only the parent of a local entry leads to it, and the parent is local. -/
theorem links_away (woven : Woven rootKey rootLeaf pieces store tree) {key' : Int} {piece' : Piece}
    (found : pieceAt pieces key = some piece) (isNode : nodeOf? pieces store key' = some piece') :
    (∀ side, piece'.childKey side ≠ key) ∨
      pieceAt pieces key' = some piece' ∧ key' = piece.parentKey := by
  by_cases away : ∀ side, piece'.childKey side ≠ key
  · exact Or.inl away
  · simp only [ne_eq, not_forall, not_not] at away
    rcases away with ⟨side, leads⟩
    have parent := woven.parent_eq found isNode leads
    have isReal := (mem_of_pieceAt found).2.2
    rcases woven.parents _ _ found with ⟨-, isRoot⟩ | ⟨other, -, isOther, -⟩
    · exact absurd (leads.trans isRoot) (woven.not_root isNode (leads.trans_ne isReal))
    · rw [← parent] at isOther
      have sameNode := (nodeOf?_local isOther).symm.trans isNode
      cases sameNode
      exact Or.inr ⟨isOther, parent⟩

/-! ## Rotating -/

section Turn

variable {down up : Piece}

theorem turn_key (piece : Piece) : (Piece.turn side down up piece).key = piece.key := by
  unfold Piece.turn Piece.adjust
  dsimp only
  split
  · rfl
  · split
    · rfl
    · split <;> split <;> rfl

theorem turn_down : Piece.turn side down up down =
    { down.setChild side (up.childKey !side) (up.childLeaf !side) with parentKey := up.key } :=
  if_pos rfl

theorem turn_up (differs : up.key ≠ down.key) : Piece.turn side down up up =
    { up.setChild (!side) down.key down.leaf with parentKey := down.parentKey } := by
  rw [Piece.turn, if_neg differs, if_pos rfl]

/-- The children of the other entries, as a rotation leaves them. -/
theorem turn_other (notDown : piece.key ≠ down.key) (notUp : piece.key ≠ up.key) :
    (Piece.turn side down up piece).data = piece.data ∧
    ((Piece.turn side down up piece).parentKey =
      if piece.key = up.childKey (!side) ∧ piece.key ≠ invalidKey then down.key
      else piece.parentKey) ∧
    (if piece.key = down.parentKey ∧ piece.key ≠ invalidKey then
      (Piece.turn side down up piece).childKey = (piece.redirect down.key up.key up.leaf).childKey ∧
      (Piece.turn side down up piece).childLeaf = (piece.redirect down.key up.key up.leaf).childLeaf
    else (Piece.turn side down up piece).childKey = piece.childKey ∧
      (Piece.turn side down up piece).childLeaf = piece.childLeaf) := by
  have redirected : ∀ piece : Piece, (piece.redirect down.key up.key up.leaf).key = piece.key :=
    fun _ => rfl
  unfold Piece.turn Piece.adjust
  rw [if_neg notDown, if_neg notUp]
  dsimp only
  by_cases isParent : piece.key = down.parentKey ∧ piece.key ≠ invalidKey
  · simp only [if_pos isParent, redirected]
    split
    · exact ⟨rfl, rfl, rfl, rfl⟩
    · exact ⟨rfl, rfl, rfl, rfl⟩
  · simp only [if_neg isParent]
    split
    · exact ⟨rfl, rfl, rfl, rfl⟩
    · exact ⟨rfl, rfl, rfl, rfl⟩

/-- An entry that does not lead to the node that goes down keeps its children. -/
theorem turn_away (notDown : piece.key ≠ down.key) (notUp : piece.key ≠ up.key)
    (away : ∀ side, piece.childKey side ≠ down.key) :
    (Piece.turn side down up piece).childKey = piece.childKey ∧
      (Piece.turn side down up piece).childLeaf = piece.childLeaf := by
  have spec := (@turn_other piece side down up notDown notUp).2.2
  split at spec
  · refine ⟨spec.1.trans (funext fun side => ?_), spec.2.trans (funext fun side => ?_)⟩
    · exact Link.aim_of_ne _ (away side)
    · exact if_neg (away side)
  · exact spec

/-- What a rotation does to the links. -/
theorem links_turn (woven : Woven rootKey rootLeaf pieces store tree)
    (foundDown : pieceAt pieces down.key = some down) (isReal : down.childKey side ≠ invalidKey)
    (foundUp : pieceAt pieces (down.childKey side) = some up) :
    pieceLinks (pieces.map (Piece.turn side down up)) store down.key =
        some (down.link.setChild side (up.childKey !side)) ∧
      pieceLinks (pieces.map (Piece.turn side down up)) store (down.childKey side) =
        some (up.link.setChild (!side) down.key) ∧
      ∀ y, y ≠ down.key → y ≠ down.childKey side →
        pieceLinks (pieces.map (Piece.turn side down up)) store y =
          (pieceLinks pieces store y).map (Link.redirect down.key (down.childKey side)) := by
  have nodes := nodeOf?_map (@turn_key side down up) pieces store
  have upKey := (mem_of_pieceAt foundUp).2.1
  have isDown : nodeOf? pieces store down.key = some down := nodeOf?_local foundDown
  have differs : up.key ≠ down.key := by
    rw [upKey]
    exact woven.spells.child_ne woven.nodup (woven.all _ _ isDown)
        (pieceLinks_eq isDown) side isReal
  refine ⟨?_, ?_, fun y notDown notUp => ?_⟩
  · rw [pieceLinks, nodes, foundDown, Option.map_some, turn_down]
    rfl
  · rw [pieceLinks, nodes, foundUp, Option.map_some, turn_up differs]
    rfl
  · rw [pieceLinks, nodes, pieceLinks, nodeOf?]
    rcases isLocal : pieceAt pieces y with _ | other
    · rcases isStored : store y with _ | other
      · rfl
      · have isNode : nodeOf? pieces store y = some other := (nodeOf?_stored isLocal).trans isStored
        rcases woven.links_away foundDown isNode with away | ⟨isParent, -⟩
        · exact congrArg some (@Link.redirect_of_ne _ _ _ _ _ other.link away).symm
        · rw [isLocal] at isParent
          cases isParent
    · have otherKey := (mem_of_pieceAt isLocal).2.1
      have otherDown : other.key ≠ down.key := otherKey.trans_ne notDown
      have otherUp : other.key ≠ up.key := by
        rw [otherKey, upKey]
        exact notUp
      have spec := @turn_other other side down up otherDown otherUp
      change some (Piece.turn side down up other).link = some (other.link.redirect _ _)
      unfold Piece.link
      rw [spec.1]
      congr 2
      by_cases isParent : other.key = down.parentKey ∧ other.key ≠ invalidKey
      · rw [if_pos isParent] at spec
        rw [spec.2.2.1, ← upKey]
        rfl
      · have away := (woven.links_away foundDown (nodeOf?_local isLocal)).resolve_right
          (fun parent => isParent ⟨otherKey.trans parent.2,
            otherKey.trans_ne (mem_of_pieceAt isLocal).2.2⟩)
        rw [(turn_away otherDown otherUp away).1]
        funext side'
        exact (Link.aim_of_ne _ (away side')).symm

/-- An entry is the one that goes down, the one that goes up, or another one. -/
theorem turn_cases (foundDown : pieceAt pieces down.key = some down)
    (foundUp : pieceAt pieces up.key = some up) (found : pieceAt pieces key = some piece) :
    piece = down ∨ piece = up ∨ piece.key ≠ down.key ∧ piece.key ≠ up.key := by
  have isKey := (mem_of_pieceAt found).2.1
  by_cases isDown : piece.key = down.key
  · rw [← isKey, isDown, foundDown] at found
    exact Or.inl (Option.some.inj found).symm
  · by_cases isUp : piece.key = up.key
    · rw [← isKey, isUp, foundUp] at found
      exact Or.inr (Or.inl (Option.some.inj found).symm)
    · exact Or.inr (Or.inr ⟨isDown, isUp⟩)

/-- After a rotation the leaves of stored children are still right. -/
theorem turn_leaves (woven : Woven rootKey rootLeaf pieces store tree)
    (foundDown : pieceAt pieces down.key = some down) (foundUp : pieceAt pieces up.key = some up)
    (differs : up.key ≠ down.key) (found : pieceAt pieces key = some piece) {side' : Bool}
    {child : Piece}
    (isStored : store ((Piece.turn side down up piece).childKey side') = some child) :
    (Piece.turn side down up piece).childLeaf side' = child.leaf := by
  have notStored : ∀ {key : Int} {piece child : Piece}, pieceAt pieces key = some piece →
      store key ≠ some child := by
    intro key piece child isLocal isStored
    rw [woven.apart key piece isLocal] at isStored
    cases isStored
  have before := woven.leaves key piece side' child (nodeOf?_local found)
  rcases turn_cases foundDown foundUp found with rfl | rfl | ⟨notDown, notUp⟩
  · rw [turn_down] at isStored ⊢
    dsimp only [Piece.setChild] at isStored ⊢
    rw [Function.update_apply] at isStored ⊢
    split at isStored
    · rename_i same
      rw [if_pos same]
      exact woven.leaves up.key up (!side) child (nodeOf?_local foundUp) isStored
    · rename_i other
      rw [if_neg other]
      exact before isStored
  · rw [turn_up differs] at isStored ⊢
    dsimp only [Piece.setChild] at isStored ⊢
    rw [Function.update_apply] at isStored ⊢
    split at isStored
    · exact absurd isStored (notStored foundDown)
    · rename_i other
      rw [if_neg other]
      exact before isStored
  · have spec := (@turn_other piece side down up notDown notUp).2.2
    split at spec
    · rw [spec.1] at isStored
      rw [spec.2]
      dsimp only [Piece.redirect] at isStored ⊢
      by_cases toDown : piece.childKey side' = down.key
      · rw [toDown, Link.aim_self] at isStored
        exact absurd isStored (notStored foundUp)
      · rw [Link.aim_of_ne _ toDown] at isStored
        rw [if_neg toDown]
        exact before isStored
    · rw [spec.1] at isStored
      rw [spec.2]
      exact before isStored

/-- A parent that is neither of the two keeps its children, except for the one that goes down. -/
theorem turn_keeps (foundDown : pieceAt pieces down.key = some down)
    (foundUp : pieceAt pieces up.key = some up)
    (leadsUp : down.childKey side = up.key) (differs : up.key ≠ down.key) {parentKey : Int}
    {parent : Piece} (isParent : pieceAt pieces parentKey = some parent) {side' : Bool}
    (leads : parent.childKey side' = key) (notDown : key ≠ down.key) (notUp : key ≠ up.key)
    (notInner : ¬(parent = up ∧ side' = !side)) :
    (Piece.turn side down up parent).childKey side' = key := by
  rcases turn_cases foundDown foundUp isParent with rfl | rfl | ⟨otherDown, otherUp⟩
  · rw [turn_down]
    refine (Function.update_of_ne ?_ _ _).trans leads
    rintro rfl
    exact notUp (leads.symm.trans leadsUp)
  · rw [turn_up differs]
    refine (Function.update_of_ne ?_ _ _).trans leads
    exact fun same => notInner ⟨rfl, same⟩
  · have spec := (@turn_other parent side down up otherDown otherUp).2.2
    split at spec
    · rw [spec.1]
      exact (Link.aim_of_ne _ (leads.trans_ne notDown)).trans leads
    · rw [spec.1]
      exact leads

/-- After a rotation the entries still name their parents. -/
theorem turn_parents (woven : Woven rootKey rootLeaf pieces store tree)
    (foundDown : pieceAt pieces down.key = some down) (foundUp : pieceAt pieces up.key = some up)
    (leadsUp : down.childKey side = up.key) (differs : up.key ≠ down.key)
    (found : pieceAt pieces key = some piece) :
    (Piece.turn side down up piece).parentKey = invalidKey ∧
        key = Link.aim down.key up.key rootKey ∨
      ∃ parent side', pieceAt pieces (Piece.turn side down up piece).parentKey = some parent ∧
        (Piece.turn side down up parent).childKey side' = key := by
  have isKey := (mem_of_pieceAt found).2.1
  rcases turn_cases foundDown foundUp found with rfl | rfl | ⟨notDown, notUp⟩
  · refine Or.inr ⟨up, !side, ?_, ?_⟩
    · rw [turn_down]
      exact foundUp
    · rw [turn_up differs]
      exact (Function.update_self _ _ _).trans isKey
  · rw [turn_up differs]
    rcases woven.parents _ _ foundDown with ⟨isRoot, rfl⟩ | ⟨parent, side', isParent, leads⟩
    · exact Or.inl ⟨isRoot, isKey.symm.trans (Link.aim_self _ _).symm⟩
    · have parentKey := (mem_of_pieceAt isParent).2
      have isDown : nodeOf? pieces store down.key = some down := nodeOf?_local foundDown
      have downMem := woven.all _ _ isDown
      have leadsReal : parent.link.child side' ≠ invalidKey :=
        leads.trans_ne (mem_of_pieceAt foundDown).2.2
      have parentDown : parent.key ≠ down.key := by
        rw [parentKey.1]
        rintro loop
        rw [loop, foundDown] at isParent
        cases isParent
        exact woven.spells.child_ne woven.nodup downMem (pieceLinks_eq isDown) side' leadsReal leads
      have parentUp : parent.key ≠ piece.key := by
        rw [parentKey.1]
        intro loop
        rw [loop, foundUp] at isParent
        cases isParent
        have upReal : down.link.child side ≠ invalidKey :=
          leadsUp.trans_ne (mem_of_pieceAt foundUp).2.2
        refine woven.spells.grandchild_ne woven.nodup downMem (pieceLinks_eq isDown) upReal ?_ side'
          leadsReal leads
        change pieceLinks pieces store (down.childKey side) = _
        rw [leadsUp]
        exact pieceLinks_eq (nodeOf?_local foundUp)
      have spec := (@turn_other parent side down piece parentDown parentUp).2.2
      rw [if_pos ⟨parentKey.1, parentKey.1.trans_ne parentKey.2⟩] at spec
      refine Or.inr ⟨parent, side', isParent, ?_⟩
      rw [spec.1]
      change Link.aim down.key piece.key (parent.childKey side') = key
      rw [leads, Link.aim_self]
      exact isKey
  · have spec := (@turn_other piece side down up notDown notUp).2.1
    rw [spec]
    split
    · rename_i isInner
      refine Or.inr ⟨down, side, foundDown, ?_⟩
      rw [turn_down]
      exact (Function.update_self _ _ _).trans (isInner.1.symm.trans isKey)
    · rename_i notInner
      rw [isKey] at notDown notUp notInner
      rcases woven.parents _ _ found with ⟨isRoot, rfl⟩ | ⟨parent, side', isParent, leads⟩
      · exact Or.inl ⟨isRoot, (Link.aim_of_ne _ notDown).symm⟩
      · refine Or.inr ⟨parent, side', isParent, ?_⟩
        refine turn_keeps foundDown foundUp leadsUp differs isParent leads notDown notUp ?_
        rintro ⟨rfl, rfl⟩
        exact notInner ⟨leads.symm, (mem_of_pieceAt found).2.2⟩

/-- A rotation of two local nodes keeps the order. -/
theorem turned (woven : Woven rootKey rootLeaf pieces store tree)
    (foundDown : pieceAt pieces down.key = some down)
    (foundUp : pieceAt pieces (down.childKey side) = some up) :
    ∃ tree', Woven (Link.aim down.key up.key rootKey) rootLeaf
        (pieces.map (Piece.turn side down up)) store tree' ∧ tree'.toList = tree.toList := by
  rcases mem_of_pieceAt foundUp with ⟨-, upKey, isReal⟩
  rcases woven.links_turn foundDown isReal foundUp with ⟨atDown, atUp, others⟩
  have isDown : nodeOf? pieces store down.key = some down := nodeOf?_local foundDown
  have isUp : nodeOf? pieces store (down.childKey side) = some up := nodeOf?_local foundUp
  have downMem := woven.all _ _ isDown
  rcases woven.spells.rotate woven.nodup downMem (pieceLinks_eq isDown) isReal (pieceLinks_eq isUp)
    atDown atUp (fun y _ => others y) with ⟨tree', spells', sameList⟩
  have differs : up.key ≠ down.key := by
    rw [upKey]
    exact woven.spells.child_ne woven.nodup downMem (pieceLinks_eq isDown) side isReal
  change (pieceLinks _ store).Spells invalidKey (Link.aim _ (down.childKey side) _) tree' at spells'
  rw [← upKey] at spells' foundUp
  refine ⟨tree', woven.changed turn_key spells' (congrArg (List.map Prod.fst) sameList)
    (fun _ _ _ _ found isStored => turn_leaves woven foundDown foundUp differs found isStored) ?_
    (fun _ _ => turn_parents woven foundDown foundUp upKey.symm differs), sameList⟩
  intro piece isStored
  by_cases isRoot : rootKey = down.key
  · rw [isRoot, Link.aim_self, woven.apart _ _ foundUp] at isStored
    cases isStored
  · rw [Link.aim_of_ne _ isRoot] at isStored
    exact woven.rootLeaf_eq piece isStored

end Turn

/-! ## Storing the entries again -/

/-- All entries are stored again, and every node names the leaves of its children. -/
theorem settle (woven : Woven rootKey rootLeaf pieces store tree) {rootLeaf' : Int}
    (absent : ∀ key, nodeOf? pieces store key = none → store' key = none)
    (present : ∀ key piece, nodeOf? pieces store key = some piece →
      ∃ piece', store' key = some piece' ∧
      piece'.key = key ∧ piece'.data = piece.data ∧ piece'.childKey = piece.childKey ∧
      ∀ side child, store' (piece.childKey side) = some child → piece'.childLeaf side = child.leaf)
    (rootLeaf_eq : ∀ piece, store' rootKey = some piece → rootLeaf' = piece.leaf) :
    Woven rootKey rootLeaf' [] store' tree := by
  have none : ∀ key, pieceAt [] key = none := by
    intro key
    unfold pieceAt
    split <;> rfl
  have stored : ∀ key piece', store' key = some piece' → ∃ piece,
      nodeOf? pieces store key = some piece ∧ piece'.key = key ∧ piece'.data = piece.data ∧
      piece'.childKey = piece.childKey ∧
      ∀ side child, store' (piece.childKey side) = some child →
        piece'.childLeaf side = child.leaf := by
    intro key piece' isStored
    rcases isNode : nodeOf? pieces store key with _ | piece
    · rw [absent key isNode] at isStored
      cases isStored
    · rcases present key piece isNode with ⟨piece'', isStored', facts⟩
      cases isStored.symm.trans isStored'
      exact ⟨piece, rfl, facts⟩
  refine ⟨List.Pairwise.nil, ?_, ?_, ?_, ?_, woven.ordered, ?_, rootLeaf_eq, ?_⟩
  · intro key piece' isLocal
    rw [none] at isLocal
    cases isLocal
  · intro key piece' isStored
    rcases stored key piece' isStored with ⟨piece, isNode, isKey, -⟩
    exact ⟨isKey, woven.spells.ne_null (woven.all key piece isNode)⟩
  · refine woven.spells.congr (fun key mem => ?_)
    rcases woven.node_of_mem mem with ⟨piece, isNode, -⟩
    rcases present key piece isNode with ⟨piece', isStored, -, sameData, sameChild, -⟩
    rw [pieceLinks_eq isNode,
      pieceLinks_eq ((nodeOf?_stored (none key)).trans isStored), Piece.link,
      Piece.link, sameData, sameChild]
  · intro key piece' isNode'
    rw [nodeOf?_stored (none key)] at isNode'
    rcases stored key piece' isNode' with ⟨piece, isNode, -⟩
    exact woven.all key piece isNode
  · intro key piece' side child isNode' isStored
    rw [nodeOf?_stored (none key)] at isNode'
    rcases stored key piece' isNode' with ⟨piece, -, -, -, sameChild, agrees⟩
    rw [sameChild] at isStored
    exact agrees side child isStored
  · intro key piece' isLocal
    rw [none] at isLocal
    cases isLocal

end Woven

end TieredOmap
