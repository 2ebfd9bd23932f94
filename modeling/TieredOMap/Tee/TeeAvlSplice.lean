import TieredOMap.Tee.TeeAvlChanges

/-!
# New nodes and removed ones

A new node is hung into the place of a missing child, or becomes the root of an empty tree. A
node with at most one child is taken out by leading its parent to the child; one with two
children takes over key and data of its successor, which is taken out first.
-/

namespace TieredOmap

open Links

namespace Woven

variable {rootKey rootLeaf key leaf : Int} {pieces : List Piece} {store : Int → Option Piece}
  {tree sub : BinaryTree (Int × Bytes)} {piece parent new : Piece} {side : Bool} {data : Bytes}
  {before after : List (Int × Bytes)}

/-! ## A new node -/

/-- A key that is not in the tree has no node. -/
theorem absent (woven : Woven rootKey rootLeaf pieces store tree) (isNew : key ∉ keysOf tree) :
    pieceAt pieces key = none ∧ store key = none := by
  have noNode : nodeOf? pieces store key = none := by
    rcases isNode : nodeOf? pieces store key with _ | piece
    · rfl
    · exact absurd (woven.all key piece isNode) isNew
  rcases isLocal : pieceAt pieces key with _ | piece
  · exact ⟨rfl, (nodeOf?_stored isLocal).symm.trans noNode⟩
  · rw [nodeOf?_local isLocal] at noNode
    cases noNode

/-- A left child is smaller than its parent, a right child greater. -/
theorem child_side (woven : Woven rootKey rootLeaf pieces store tree)
    (isNode : nodeOf? pieces store key = some piece) (isReal : piece.childKey side ≠ invalidKey) :
    side = decide (piece.childKey side < key) ∧ piece.childKey side ≠ key := by
  have mem := woven.all key piece isNode
  refine ⟨?_, woven.spells.child_ne woven.nodup mem (pieceLinks_eq isNode) side isReal⟩
  rcases woven.spells.focus woven.nodup mem with ⟨sub, before, after, focus⟩
  rcases focus.root true with ⟨entry, left, right, link, rfl, rfl, found, -,
    spellsLeft, spellsRight⟩
  cases (pieceLinks_eq isNode).symm.trans found
  have ordered := woven.ordered
  rw [BinaryTree.Ordered, focus.split, List.map_append, List.map_append, List.pairwise_append,
    List.pairwise_append] at ordered
  rcases ordered with ⟨⟨-, inSub, -⟩, -⟩
  simp only [BinaryTree.nodeOn, BinaryTree.toList, List.map_append, List.map_cons,
    List.pairwise_append, List.pairwise_cons] at inSub
  cases side with
  | true =>
      exact (decide_eq_true (inSub.2.2 _ (spellsLeft.root_mem isReal) _ List.mem_cons_self)).symm
  | false => exact (decide_eq_false (inSub.2.1.1 _ (spellsRight.root_mem isReal)).not_gt).symm

theorem attach_key (parentKey : Int) (side : Bool) (key leaf : Int) (piece : Piece) :
    (piece.attach parentKey side key leaf).key = piece.key := by
  unfold Piece.attach
  split <;> rfl

/-- A new node becomes the root of an empty tree. -/
theorem plant (woven : Woven rootKey rootLeaf pieces store .nil) (isReal : new.key ≠ invalidKey)
    (isRoot : new.parentKey = invalidKey) (noChild : new.childKey = fun _ => invalidKey)
    (rootLeaf' : Int) : Woven new.key rootLeaf' (pieces ++ [new]) store
      (.node (new.key, new.data) .nil .nil) := by
  have noNode := fun key => @Woven.absent _ _ key _ _ _ woven List.not_mem_nil
  have entries : ∀ key, pieceAt (pieces ++ [new]) key =
      if key ≠ invalidKey ∧ new.key = key then some new else none := by
    intro key
    rw [pieceAt_append, (noNode key).1, Option.none_or]
  have nodes : ∀ key piece, nodeOf? (pieces ++ [new]) store key = some piece →
      key = new.key ∧ piece = new := by
    intro key piece isNode
    rw [nodeOf?, entries, (noNode key).2, Option.or_none] at isNode
    split at isNode
    · rename_i same
      exact ⟨same.2.symm, (Option.some.inj isNode).symm⟩
    · cases isNode
  have isNode : nodeOf? (pieces ++ [new]) store new.key = some new := by
    rw [nodeOf?, entries, if_pos ⟨isReal, rfl⟩]
    rfl
  refine ⟨once_append woven.once (Or.inr (noNode _).1), ?_, woven.keyed, ?_, ?_, ?_, ?_, ?_, ?_⟩
  · exact fun key _ _ => (noNode key).2
  · refine ⟨rfl, isReal, new.link, pieceLinks_eq isNode, rfl, ?_, ?_⟩
    · exact congrFun noChild true
    · exact congrFun noChild false
  · intro key piece isNode
    rw [(nodes key piece isNode).1]
    exact mem_keysOf_node.mpr (Or.inl rfl)
  · exact List.pairwise_singleton _ _
  · intro key piece side child _ isStored
    rw [(noNode _).2] at isStored
    cases isStored
  · intro piece isStored
    rw [(noNode _).2] at isStored
    cases isStored
  · intro key piece isLocal
    rw [entries] at isLocal
    split at isLocal
    · rename_i same
      cases isLocal
      exact Or.inl ⟨isRoot, same.2.symm⟩
    · cases isLocal

/-- A new node takes the place of a missing child of a local node. -/
theorem insert (woven : Woven rootKey rootLeaf pieces store tree) {parentKey : Int}
    (found : pieceAt pieces parentKey = some parent) (empty : parent.childKey side = invalidKey)
    (focus : Focus (pieceLinks pieces store) invalidKey rootKey tree parentKey sub before after)
    (encloses : Encloses new.key before after) (isSide : side = decide (new.key < parentKey))
    (isNew : new.key ∉ keysOf tree) (isReal : new.key ≠ invalidKey)
    (above : new.parentKey = parentKey) (noChild : new.childKey = fun _ => invalidKey)
    (leaf : Int) : ∃ tree', Woven rootKey rootLeaf
        (pieces.map (Piece.attach parentKey side new.key leaf) ++ [new]) store tree' ∧
      ∃ lower upper, tree.toList = lower ++ upper ∧
        tree'.toList = lower ++ (new.key, new.data) :: upper := by
  have noNode := woven.absent isNew
  have parentKey_eq := (mem_of_pieceAt found).2.1
  have sameKey := attach_key parentKey side new.key leaf
  have isParent : nodeOf? pieces store parentKey = some parent := nodeOf?_local found
  have parentMem := woven.all _ _ isParent
  have entries : ∀ key,
      pieceAt (pieces.map (Piece.attach parentKey side new.key leaf) ++ [new]) key =
      if key = new.key then some new
      else (pieceAt pieces key).map (Piece.attach parentKey side new.key leaf) := by
    intro key
    rw [pieceAt_append, pieceAt_map sameKey]
    by_cases same : key = new.key
    · subst same
      rw [noNode.1, if_pos rfl, if_pos ⟨isReal, rfl⟩]
      rfl
    · rw [if_neg same, if_neg (fun both => same both.2.symm), Option.or_none]
  -- The other entries keep their children.
  have attachOther : ∀ piece : Piece, piece.key ≠ parentKey →
      piece.attach parentKey side new.key leaf = piece := fun piece other => if_neg other
  have attachParent : parent.attach parentKey side new.key leaf =
      parent.setChild side new.key leaf := if_pos parentKey_eq
  have nodeCases : ∀ key piece', nodeOf? (pieces.map (Piece.attach parentKey side new.key leaf) ++
      [new]) store key = some piece' → piece' = new ∧ key = new.key ∨
        ∃ piece, nodeOf? pieces store key = some piece ∧ (piece' = piece ∨
          piece = parent ∧ piece' = parent.setChild side new.key leaf) := by
    intro key piece' isNode
    rcases nodeOf?_cases isNode with isLocal | ⟨notLocal, isStored⟩
    · rw [entries] at isLocal
      split at isLocal
      · rename_i same
        exact Or.inl ⟨(Option.some.inj isLocal).symm, same⟩
      · rcases Option.map_eq_some_iff.mp isLocal with ⟨piece, isPiece, rfl⟩
        refine Or.inr ⟨piece, nodeOf?_local isPiece, ?_⟩
        by_cases same : piece.key = parentKey
        · rw [← (mem_of_pieceAt isPiece).2.1, same, found] at isPiece
          cases isPiece
          exact Or.inr ⟨rfl, attachParent⟩
        · exact Or.inl (attachOther piece same)
    · rw [entries] at notLocal
      split at notLocal
      · cases notLocal
      · rw [Option.map_eq_none_iff] at notLocal
        exact Or.inr ⟨piece', (nodeOf?_stored notLocal).trans isStored, Or.inl rfl⟩
  rcases focus.root side with ⟨entry, child, other, link, rfl, isEntry, foundLink, -,
    spellsChild, -⟩
  cases (pieceLinks_eq isParent).symm.trans foundLink
  have noSub : child = .nil := by
    cases child with
    | nil => rfl
    | node entry left right => exact absurd empty spellsChild.2.1
  subst noSub
  have here : pieceLinks (pieces.map (Piece.attach parentKey side new.key leaf) ++ [new]) store
      parentKey = some (parent.link.setChild side new.key) := by
    have differs : parentKey ≠ new.key := fun same => isNew (same ▸ parentMem)
    rw [pieceLinks, nodeOf?, entries, if_neg differs, found, Option.map_some, attachParent]
    rfl
  have atNew : pieceLinks (pieces.map (Piece.attach parentKey side new.key leaf) ++ [new]) store
      new.key = some ⟨new.data, fun _ => invalidKey⟩ := by
    rw [pieceLinks, nodeOf?, entries, if_pos rfl, ← noChild]
    rfl
  have others : ∀ y ∈ keysOf tree, y ≠ parentKey →
      pieceLinks (pieces.map (Piece.attach parentKey side new.key leaf) ++ [new]) store y =
        pieceLinks pieces store y := by
    intro y mem differs
    have notNew : y ≠ new.key := fun same => isNew (same ▸ mem)
    rw [pieceLinks, pieceLinks, nodeOf?, nodeOf?, entries, if_neg notNew]
    rcases isLocal : pieceAt pieces y with _ | piece
    · rfl
    · have pieceKey := (mem_of_pieceAt isLocal).2.1
      rw [Option.map_some, attachOther piece (pieceKey.trans_ne differs)]
  rcases focus.insert woven.nodup foundLink isReal here atNew others with
    ⟨tree', spells', split, split'⟩
  have away : new.key ≠ entry.1 := by
    rw [← isEntry]
    exact fun same => isNew (same ▸ parentMem)
  have bounds := encloses.down woven.ordered focus.split (isEntry ▸ isSide) away
  have ordered := woven.ordered
  rw [BinaryTree.Ordered, split] at ordered
  have keysOf' : ∀ key, key ∈ keysOf tree' ↔ key = new.key ∨ key ∈ keysOf tree := by
    intro key
    rw [keysOf, keysOf, split, split']
    simp only [List.map_append, List.map_cons, List.mem_append, List.mem_cons]
    tauto
  refine ⟨tree', ⟨?_, ?_, woven.keyed, spells', ?_, ?_, ?_, woven.rootLeaf_eq, ?_⟩, _, _,
    split, split'⟩
  · refine once_append (once_map sameKey woven.once) (Or.inr ?_)
    rw [pieceAt_map sameKey, noNode.1]
    rfl
  · intro key piece' isLocal
    rw [entries] at isLocal
    split at isLocal
    · rename_i same
      exact same ▸ noNode.2
    · rcases Option.map_eq_some_iff.mp isLocal with ⟨piece, isPiece, -⟩
      exact woven.apart key piece isPiece
  · intro key piece' isNode
    rw [keysOf']
    rcases nodeCases key piece' isNode with ⟨-, same⟩ | ⟨piece, isPiece, -⟩
    · exact Or.inl same
    · exact Or.inr (woven.all key piece isPiece)
  · rw [BinaryTree.Ordered, split']
    exact BinaryTree.pairwise_insert ordered bounds.1 bounds.2
  · intro key piece' side' child isNode isStored
    rcases nodeCases key piece' isNode with ⟨rfl, -⟩ | ⟨piece, isPiece, rfl | ⟨rfl, rfl⟩⟩
    · rw [noChild] at isStored
      exact absurd rfl (woven.keyed _ _ isStored).2
    · exact woven.leaves key piece' side' child isPiece isStored
    · dsimp only [Piece.setChild] at isStored ⊢
      rw [Function.update_apply] at isStored ⊢
      split at isStored
      · rw [noNode.2] at isStored
        cases isStored
      · rename_i otherSide
        rw [if_neg otherSide]
        exact woven.leaves key piece side' child isPiece isStored
  · intro key piece' isLocal
    have stays : ∀ parentKey' parent' side', pieceAt pieces parentKey' = some parent' →
        parent'.childKey side' = key → key ≠ invalidKey → ∃ parent'' side'',
          pieceAt (pieces.map (Piece.attach parentKey side new.key leaf) ++ [new]) parentKey' =
            some parent'' ∧ parent''.childKey side'' = key := by
      intro parentKey' parent' side' isParent' leads valid
      have notNew : parentKey' ≠ new.key := by
        rintro rfl
        rw [noNode.1] at isParent'
        cases isParent'
      refine ⟨parent'.attach parentKey side new.key leaf, side', ?_, ?_⟩
      · rw [entries, if_neg notNew, isParent']
        rfl
      · unfold Piece.attach
        split
        · rename_i same
          rw [← (mem_of_pieceAt isParent').2.1, same, found] at isParent'
          cases isParent'
          refine (Function.update_of_ne ?_ _ _).trans leads
          rintro rfl
          exact valid (leads.symm.trans empty)
        · exact leads
    rw [entries] at isLocal
    split at isLocal
    · rename_i same
      cases isLocal
      refine Or.inr ⟨parent.attach parentKey side new.key leaf, side, ?_, ?_⟩
      · have differs : parentKey ≠ new.key := fun same => isNew (same ▸ parentMem)
        rw [above, entries, if_neg differs, found]
        rfl
      · rw [attachParent]
        exact (Function.update_self _ _ _).trans same.symm
    · rcases Option.map_eq_some_iff.mp isLocal with ⟨piece, isPiece, rfl⟩
      have sameParent : (piece.attach parentKey side new.key leaf).parentKey = piece.parentKey := by
        unfold Piece.attach
        split <;> rfl
      rw [sameParent]
      rcases woven.parents key piece isPiece with isRoot | ⟨parent', side', isParent', leads⟩
      · exact Or.inl isRoot
      · exact Or.inr (stays _ parent' side' isParent' leads (mem_of_pieceAt isPiece).2.2)

/-! ## A node that is taken out -/

section Bypass

variable {gone : Piece}

theorem bypass_gone (isGone : piece.key = gone.key) :
    (Piece.bypass side gone piece).key = invalidKey := by
  rw [Piece.bypass, if_pos isGone]

/-- A root without a left child has the least key. -/
theorem root_least (woven : Woven rootKey rootLeaf pieces store tree)
    (found : pieceAt pieces gone.key = some gone) (noLeft : gone.childKey true = invalidKey)
    (isRoot : rootKey = gone.key) (mem : key ∈ keysOf tree) : gone.key ≤ key := by
  subst isRoot
  have spells := woven.spells
  have ordered := woven.ordered
  cases tree with
  | nil => cases mem
  | node entry left right =>
      rcases spells with ⟨isEntry, -, link, foundLink, -, spellsLeft, -⟩
      cases (pieceLinks_eq (nodeOf?_local found)).symm.trans foundLink
      have noneLeft : left = .nil := by
        cases left with
        | nil => rfl
        | node entry' left' right' => exact absurd noLeft spellsLeft.2.1
      subst noneLeft
      rw [BinaryTree.Ordered, BinaryTree.toList, BinaryTree.toList, List.nil_append, List.map_cons,
        List.pairwise_cons] at ordered
      rw [isEntry]
      rcases mem_keysOf_node.mp mem with rfl | inLeft | inRight
      · exact le_rfl
      · cases inLeft
      · exact (ordered.1 key inRight).le

/-- What is left of the other entries. -/
theorem bypass_other (other : piece.key ≠ gone.key) :
    (Piece.bypass side gone piece).key = piece.key ∧
    (Piece.bypass side gone piece).data = piece.data ∧
    ((Piece.bypass side gone piece).parentKey =
      if piece.key = gone.childKey side ∧ piece.key ≠ invalidKey then gone.parentKey
      else piece.parentKey) ∧
    (if piece.key = gone.parentKey ∧ piece.key ≠ invalidKey then
      (Piece.bypass side gone piece).childKey =
        (piece.redirect gone.key (gone.childKey side) (gone.childLeaf side)).childKey ∧
      (Piece.bypass side gone piece).childLeaf =
        (piece.redirect gone.key (gone.childKey side) (gone.childLeaf side)).childLeaf
    else (Piece.bypass side gone piece).childKey = piece.childKey ∧
      (Piece.bypass side gone piece).childLeaf = piece.childLeaf) := by
  have redirected : ∀ key leaf, (piece.redirect gone.key key leaf).key = piece.key :=
    fun _ _ => rfl
  unfold Piece.bypass Piece.lead Piece.adjust
  rw [if_neg other]
  dsimp only
  by_cases isParent : piece.key = gone.parentKey ∧ piece.key ≠ invalidKey
  · simp only [if_pos isParent, redirected]
    split
    · exact ⟨rfl, rfl, rfl, rfl, rfl⟩
    · exact ⟨rfl, rfl, rfl, rfl, rfl⟩
  · simp only [if_neg isParent]
    split
    · exact ⟨rfl, rfl, rfl, rfl, rfl⟩
    · exact ⟨rfl, rfl, rfl, rfl, rfl⟩

theorem once_bypass (once : Once pieces) : Once (pieces.map (Piece.bypass side gone)) := by
  refine List.Pairwise.map _ (fun piece piece' apart same => ?_) once
  by_cases isGone : piece.key = gone.key
  · exact bypass_gone isGone
  · rw [(bypass_other isGone).1] at same ⊢
    by_cases isGone' : piece'.key = gone.key
    · rw [bypass_gone isGone'] at same
      exact same
    · rw [(bypass_other isGone').1] at same
      exact apart same

theorem pieceAt_bypass (once : Once pieces) (key : Int) :
    pieceAt (pieces.map (Piece.bypass side gone)) key =
      if key = gone.key then none else (pieceAt pieces key).map (Piece.bypass side gone) := by
  have keyOf : ∀ piece, piece.key = gone.key ∧ (Piece.bypass side gone piece).key = invalidKey ∨
      piece.key ≠ gone.key ∧ (Piece.bypass side gone piece).key = piece.key := by
    intro piece
    by_cases isGone : piece.key = gone.key
    · exact Or.inl ⟨isGone, bypass_gone isGone⟩
    · exact Or.inr ⟨isGone, (bypass_other isGone).1⟩
  refine Option.ext (fun piece' => ?_)
  rw [pieceAt_eq_some_iff (once_bypass once)]
  constructor
  · rintro ⟨mem, rfl, isReal⟩
    rcases List.mem_map.mp mem with ⟨piece, inPieces, rfl⟩
    rcases keyOf piece with ⟨-, isDummy⟩ | ⟨notGone, sameKey⟩
    · exact absurd isDummy isReal
    · rw [sameKey] at isReal ⊢
      rw [if_neg notGone, pieceAt_of_mem once inPieces isReal]
      rfl
  · intro found
    split at found
    · cases found
    · rename_i notGone
      rcases Option.map_eq_some_iff.mp found with ⟨piece, isPiece, rfl⟩
      rcases mem_of_pieceAt isPiece with ⟨mem, isKey, isReal⟩
      rw [(bypass_other (isKey.trans_ne notGone)).1]
      exact ⟨List.mem_map_of_mem mem, isKey, isReal⟩

/-- A local node names no parent just if it is the root. -/
theorem isRoot_iff (woven : Woven rootKey rootLeaf pieces store tree)
    (found : pieceAt pieces gone.key = some gone) :
    gone.parentKey = invalidKey ↔ rootKey = gone.key := by
  rcases woven.parents _ _ found with ⟨isRoot, same⟩ | ⟨parent, side, isParent, leads⟩
  · exact ⟨fun _ => same.symm, fun _ => isRoot⟩
  · refine ⟨fun isRoot => ?_, fun same => ?_⟩
    · exact absurd isRoot (mem_of_pieceAt isParent).2.2
    · have valid := (mem_of_pieceAt found).2.2
      exact absurd (leads.trans same.symm)
        (woven.not_root (nodeOf?_local isParent) (leads.trans_ne valid))

/-- A node with at most one child is taken out. -/
theorem unlink (woven : Woven rootKey rootLeaf pieces store tree)
    (found : pieceAt pieces gone.key = some gone) (single : gone.childKey (!side) = invalidKey)
    {rootLeaf' : Int} (rootLeaf_eq : if gone.parentKey = invalidKey then
      gone.childKey side ≠ invalidKey → rootLeaf' = gone.childLeaf side else rootLeaf' = rootLeaf) :
    ∃ tree', Woven (if gone.parentKey = invalidKey then gone.childKey side else rootKey) rootLeaf'
        (pieces.map (Piece.bypass side gone)) store tree' ∧
      ∃ lower upper, tree.toList = lower ++ (gone.key, gone.data) :: upper ∧
        tree'.toList = lower ++ upper := by
  have entries := fun key => @pieceAt_bypass _ side gone woven.once key
  have isGone : nodeOf? pieces store gone.key = some gone := nodeOf?_local found
  have goneReal := (mem_of_pieceAt found).2.2
  have nodeCases : ∀ key piece', nodeOf? (pieces.map (Piece.bypass side gone)) store key =
      some piece' → key ≠ gone.key ∧ ((∃ piece, pieceAt pieces key = some piece ∧
        piece.key ≠ gone.key ∧ piece' = Piece.bypass side gone piece) ∨
          pieceAt pieces key = none ∧ store key = some piece') := by
    intro key piece' isNode
    rcases nodeOf?_cases isNode with isLocal | ⟨notLocal, isStored⟩
    · rw [entries] at isLocal
      split at isLocal
      · cases isLocal
      · rename_i notGone
        rcases Option.map_eq_some_iff.mp isLocal with ⟨piece, isPiece, rfl⟩
        exact ⟨notGone, Or.inl ⟨piece, isPiece, (mem_of_pieceAt isPiece).2.1.trans_ne notGone, rfl⟩⟩
    · have notGone : key ≠ gone.key := by
        rintro rfl
        rw [woven.apart _ _ found] at isStored
        cases isStored
      rw [entries, if_neg notGone, Option.map_eq_none_iff] at notLocal
      exact ⟨notGone, Or.inr ⟨notLocal, isStored⟩⟩
  have links : ∀ y ∈ keysOf tree, y ≠ gone.key →
      pieceLinks (pieces.map (Piece.bypass side gone)) store y =
        (pieceLinks pieces store y).map (Link.redirect gone.key (gone.link.child side)) := by
    intro y _ notGone
    rw [pieceLinks, nodeOf?, entries, if_neg notGone, pieceLinks, nodeOf?]
    rcases isLocal : pieceAt pieces y with _ | piece
    · rcases isStored : store y with _ | piece
      · rfl
      · rcases woven.links_away found ((nodeOf?_stored isLocal).trans isStored) with
          away | ⟨isParent, -⟩
        · exact congrArg some (@Link.redirect_of_ne _ _ _ _ _ piece.link away).symm
        · rw [isLocal] at isParent
          cases isParent
    · have isKey := (mem_of_pieceAt isLocal).2.1
      have spec := @bypass_other piece side gone (isKey.trans_ne notGone)
      change some (Piece.bypass side gone piece).link = some (piece.link.redirect _ _)
      unfold Piece.link
      rw [spec.2.1]
      congr 2
      by_cases isParent : piece.key = gone.parentKey ∧ piece.key ≠ invalidKey
      · rw [if_pos isParent] at spec
        rw [spec.2.2.2.1]
        rfl
      · have away := (woven.links_away found (nodeOf?_local isLocal)).resolve_right
          (fun parent => isParent ⟨isKey.trans parent.2,
            isKey.trans_ne (mem_of_pieceAt isLocal).2.2⟩)
        rw [if_neg isParent] at spec
        rw [spec.2.2.2.1]
        funext side'
        exact (Link.aim_of_ne _ (away side')).symm
  rcases woven.spells.remove woven.nodup (woven.all _ _ isGone) (pieceLinks_eq isGone) side single
    links with ⟨tree', spells', lower, upper, split, split'⟩
  have rootKey_eq : Link.aim gone.key (gone.link.child side) rootKey =
      if gone.parentKey = invalidKey then gone.childKey side else rootKey := by
    unfold Link.aim
    simp only [woven.isRoot_iff found]
    rfl
  rw [rootKey_eq] at spells'
  refine ⟨tree', ⟨once_bypass woven.once, ?_, woven.keyed, spells', ?_, ?_, ?_, ?_, ?_⟩,
    lower, upper,
    split, split'⟩
  · intro key piece' isLocal
    rw [entries] at isLocal
    split at isLocal
    · cases isLocal
    · rcases Option.map_eq_some_iff.mp isLocal with ⟨piece, isPiece, -⟩
      exact woven.apart key piece isPiece
  · intro key piece' isNode
    rcases nodeCases key piece' isNode with ⟨notGone, isNode'⟩
    have mem : key ∈ keysOf tree := by
      rcases isNode' with ⟨piece, isPiece, -⟩ | ⟨notLocal, isStored⟩
      · exact woven.all key piece (nodeOf?_local isPiece)
      · exact woven.all key piece' ((nodeOf?_stored notLocal).trans isStored)
    rw [keysOf, split, List.map_append, List.map_cons, List.mem_append, List.mem_cons] at mem
    rw [keysOf, split', List.map_append, List.mem_append]
    exact mem.imp_right (fun later => later.resolve_left notGone)
  · refine woven.ordered.of_toList ?_
    rw [split, split']
    exact List.Sublist.append_left (List.sublist_cons_self _ _) _
  · intro key piece' side' child isNode isStored
    rcases nodeCases key piece' isNode with ⟨-, ⟨piece, isPiece, notGone, rfl⟩ |
        ⟨notLocal, isStored'⟩⟩
    · have before := woven.leaves key piece side' child (nodeOf?_local isPiece)
      have spec := (@bypass_other piece side gone notGone).2.2.2
      split at spec
      · rw [spec.1] at isStored
        rw [spec.2]
        dsimp only [Piece.redirect] at isStored ⊢
        by_cases toGone : piece.childKey side' = gone.key
        · rw [toGone, Link.aim_self] at isStored
          rw [if_pos toGone]
          exact woven.leaves _ gone side child isGone isStored
        · rw [Link.aim_of_ne _ toGone] at isStored
          rw [if_neg toGone]
          exact before isStored
      · rw [spec.1] at isStored
        rw [spec.2]
        exact before isStored
    · exact woven.leaves key piece' side' child ((nodeOf?_stored notLocal).trans isStored') isStored
  · intro piece isStored
    split at isStored
    · rename_i isRoot
      rw [if_pos isRoot] at rootLeaf_eq
      rw [rootLeaf_eq (woven.keyed _ _ isStored).2]
      exact woven.leaves _ gone side piece isGone isStored
    · rename_i notRoot
      rw [if_neg notRoot] at rootLeaf_eq
      rw [rootLeaf_eq]
      exact woven.rootLeaf_eq piece isStored
  · intro key piece' isLocal
    rw [entries] at isLocal
    split at isLocal
    · cases isLocal
    · rename_i notGone
      rcases Option.map_eq_some_iff.mp isLocal with ⟨piece, isPiece, rfl⟩
      rcases mem_of_pieceAt isPiece with ⟨-, isKey, isReal⟩
      have spec := @bypass_other piece side gone (isKey.trans_ne notGone)
      -- A parent that is not taken out still leads to its child, or to what took its place.
      have stays : ∀ parentKey parent side' target, pieceAt pieces parentKey = some parent →
          parentKey ≠ gone.key → parent.childKey side' = target → ∃ parent',
            pieceAt (pieces.map (Piece.bypass side gone)) parentKey = some parent' ∧
              parent'.childKey side' = Link.aim gone.key (gone.childKey side) target := by
        rintro parentKey parent side' target isParent otherParent rfl
        have parentIs := (mem_of_pieceAt isParent).2
        refine ⟨Piece.bypass side gone parent, ?_, ?_⟩
        · rw [entries, if_neg otherParent, isParent]
          rfl
        · have specParent := (@bypass_other parent side gone
            (parentIs.1.trans_ne otherParent)).2.2.2
          split at specParent
          · rw [specParent.1]
            rfl
          · rename_i notParent
            have away := (woven.links_away found (nodeOf?_local isParent)).resolve_right
              (fun above => notParent ⟨parentIs.1.trans above.2, parentIs.1.trans_ne parentIs.2⟩)
            rw [specParent.1, Link.aim_of_ne _ (away side')]
      rw [spec.2.2.1]
      split
      · rename_i isChild
        have keyIs : key = gone.childKey side := isKey.symm.trans isChild.1
        rcases woven.parents _ _ found with ⟨isRoot, -⟩ | ⟨parent, side', isParent, leads⟩
        · rw [if_pos isRoot]
          exact Or.inl ⟨isRoot, keyIs⟩
        · have otherParent : gone.parentKey ≠ gone.key := by
            intro loop
            rw [loop, found] at isParent
            cases isParent
            exact woven.spells.child_ne woven.nodup (woven.all _ _ isGone) (pieceLinks_eq isGone)
              side' (leads.trans_ne goneReal) leads
          rcases stays _ parent side' _ isParent otherParent leads with ⟨parent', isParent', leads'⟩
          rw [Link.aim_self] at leads'
          exact Or.inr ⟨parent', side', isParent', leads'.trans keyIs.symm⟩
      · rename_i notChild
        rcases woven.parents _ _ isPiece with ⟨isRoot, rfl⟩ | ⟨parent, side', isParent, leads⟩
        · refine Or.inl ⟨isRoot, ?_⟩
          rw [if_neg (fun goneRoot => notGone ((woven.isRoot_iff found).mp goneRoot))]
        · have otherParent : piece.parentKey ≠ gone.key := by
            intro isGone'
            rw [isGone', found] at isParent
            cases isParent
            by_cases sameSide : side' = side
            · subst sameSide
              exact notChild ⟨isKey.trans leads.symm, isKey.trans_ne isReal⟩
            · have otherSide : side' = !side := by
                cases side <;> cases side' <;> simp_all
              rw [otherSide, single] at leads
              exact isReal leads.symm
          rcases stays _ parent side' _ isParent otherParent leads with ⟨parent', isParent', leads'⟩
          rw [Link.aim_of_ne _ notGone] at leads'
          exact Or.inr ⟨parent', side', isParent', leads'⟩

end Bypass

/-! ## A node with another key -/

section Rename

variable {oldKey : Int}

/-- What becomes of the node that gets the new key. -/
theorem rename_old (isOld : piece.key = oldKey) :
    (piece.rename oldKey key data).key = key ∧ (piece.rename oldKey key data).data = data := by
  unfold Piece.rename
  rw [if_pos isOld]
  exact ⟨rfl, rfl⟩

/-- Another entry keeps its key and its data. -/
theorem rename_other (other : piece.key ≠ oldKey) :
    (piece.rename oldKey key data).key = piece.key ∧
      (piece.rename oldKey key data).data = piece.data := by
  unfold Piece.rename
  rw [if_neg other]
  exact ⟨rfl, rfl⟩

/-- Pointers to the old key follow. -/
theorem rename_links (isReal : (piece.rename oldKey key data).key ≠ invalidKey) :
    (piece.rename oldKey key data).childKey =
      (fun side => Link.aim oldKey key (piece.childKey side)) ∧
    (piece.rename oldKey key data).childLeaf = piece.childLeaf ∧
    (piece.rename oldKey key data).parentKey = Link.aim oldKey key piece.parentKey := by
  by_cases isOld : piece.key = oldKey
  · rw [(rename_old isOld).1] at isReal
    simp only [Piece.rename, if_pos isOld, if_neg isReal, and_self]
  · rw [(rename_other isOld).1] at isReal
    simp only [Piece.rename, if_neg isOld, if_neg isReal, and_self]

/-- A real entry stays one. -/
theorem rename_real (isReal : key ≠ invalidKey) :
    (piece.rename oldKey key data).key = Link.aim oldKey key piece.key ∧
      (piece.key ≠ invalidKey → (piece.rename oldKey key data).key ≠ invalidKey) := by
  by_cases isOld : piece.key = oldKey
  · rw [(rename_old isOld).1, isOld, Link.aim_self]
    exact ⟨rfl, fun _ => isReal⟩
  · rw [(rename_other isOld).1, Link.aim_of_ne _ isOld]
    exact ⟨rfl, id⟩

theorem adjust_dummy {parentKey child key leaf childKey below : Int}
    (isDummy : piece.key = invalidKey) :
    piece.adjust parentKey child key leaf childKey below = piece := by
  have first : ¬(piece.key = parentKey ∧ piece.key ≠ invalidKey) := fun both => both.2 isDummy
  unfold Piece.adjust
  rw [if_neg first]
  exact if_neg (fun both => both.2 isDummy)

/-- Another parent does not matter for a change of the key. -/
theorem rename_parent (parentKey : Int) (isReal : key ≠ invalidKey)
    (entryReal : piece.key ≠ invalidKey) :
    ({ piece with parentKey } : Piece).rename oldKey key data =
      { piece.rename oldKey key data with parentKey := Link.aim oldKey key parentKey } := by
  unfold Piece.rename
  by_cases isOld : piece.key = oldKey
  · simp only [if_pos isOld, if_neg isReal]
  · simp only [if_neg isOld, if_neg entryReal]

/-- A new child does not matter for a change of another key. -/
theorem redirect_rename {child : Int} (isReal : key ≠ invalidKey)
    (entryReal : piece.key ≠ invalidKey) (notBack : child ≠ oldKey) (leaf : Int)
    (away : ∀ side, piece.childKey side ≠ oldKey) :
    (piece.rename oldKey key data).redirect key child leaf =
      (piece.redirect key child leaf).rename oldKey key data := by
  have aims : ∀ side, Link.aim oldKey key (piece.childKey side) = piece.childKey side :=
    fun side => Link.aim_of_ne _ (away side)
  have children : ∀ side, Link.aim oldKey key (Link.aim key child (piece.childKey side)) =
      Link.aim key child (piece.childKey side) := by
    intro side
    by_cases toGone : piece.childKey side = key
    · rw [toGone, Link.aim_self, Link.aim_of_ne _ notBack]
    · rw [Link.aim_of_ne _ toGone, aims]
  unfold Piece.rename Piece.redirect
  by_cases isOld : piece.key = oldKey
  · simp only [if_pos isOld, if_neg isReal, children, aims]
  · simp only [if_neg isOld, if_neg entryReal, children, aims]

/-- Leading past a node with a key after another one took the key over, or before. -/
theorem adjust_rename {parentKey child : Int} (isReal : key ≠ invalidKey)
    (wasReal : oldKey ≠ invalidKey) (notBack : child ≠ oldKey ∧ child ≠ key)
    (notParent : parentKey ≠ key) (other : piece.key ≠ key)
    (away : piece.key = parentKey → ∀ side, piece.childKey side ≠ oldKey) (leaf below : Int) :
    (piece.rename oldKey key data).adjust (Link.aim oldKey key parentKey) key child leaf child
        (Link.aim oldKey key below) =
      (piece.adjust parentKey key child leaf child below).rename oldKey key data := by
  by_cases isDummy : piece.key = invalidKey
  · have stays := (@rename_other key piece data oldKey (isDummy.trans_ne wasReal.symm)).1
    rw [adjust_dummy isDummy, adjust_dummy (stays.trans isDummy)]
  · rcases @rename_real key piece data oldKey isReal with ⟨keyIs, real⟩
    have isParent : (piece.rename oldKey key data).key = Link.aim oldKey key parentKey ↔
        piece.key = parentKey := by
      rw [keyIs]
      exact ⟨fun same => Link.aim_inj other notParent same, fun same => congrArg _ same⟩
    have isChild : (piece.rename oldKey key data).key = child ↔ piece.key = child := by
      have childIs : Link.aim oldKey key child = child := Link.aim_of_ne _ notBack.1
      rw [keyIs]
      refine ⟨fun same => Link.aim_inj other notBack.2 (same.trans childIs.symm), ?_⟩
      exact fun same => (congrArg _ same).trans childIs
    -- The second step, on an entry that the first one left or redirected.
    have second : ∀ entry : Piece, entry.key = piece.key →
        (if (entry.rename oldKey key data).key = child ∧
            (entry.rename oldKey key data).key ≠ invalidKey
          then { entry.rename oldKey key data with parentKey := Link.aim oldKey key below }
          else entry.rename oldKey key data) =
        (if entry.key = child ∧ entry.key ≠ invalidKey then { entry with parentKey := below }
          else entry).rename oldKey key data := by
      intro entry sameKey
      have renamedKey : (entry.rename oldKey key data).key =
          (piece.rename oldKey key data).key := by
        rw [(@rename_real key entry data oldKey isReal).1, sameKey, keyIs]
      have entryReal := sameKey.trans_ne isDummy
      rw [renamedKey]
      by_cases here : piece.key = child
      · rw [if_pos (And.intro (isChild.mpr here) (real isDummy)),
          if_pos (And.intro (sameKey.trans here) entryReal)]
        exact (rename_parent below isReal entryReal).symm
      · rw [if_neg (fun both => here (isChild.mp both.1)),
          if_neg (fun both => here (sameKey.symm.trans both.1))]
    unfold Piece.adjust
    by_cases leads : piece.key = parentKey
    · have renamedLeads := And.intro (isParent.mpr leads) (real isDummy)
      have redirects : piece.key = parentKey ∧ piece.key ≠ invalidKey := ⟨leads, isDummy⟩
      rw [if_pos renamedLeads, if_pos redirects,
        redirect_rename isReal isDummy notBack.1 leaf (away leads)]
      exact second _ rfl
    · have renamedAway : ¬((piece.rename oldKey key data).key = Link.aim oldKey key parentKey ∧
          (piece.rename oldKey key data).key ≠ invalidKey) := fun both => leads (isParent.mp both.1)
      have stays : ¬(piece.key = parentKey ∧ piece.key ≠ invalidKey) := fun both => leads both.1
      rw [if_neg renamedAway, if_neg stays]
      exact second piece rfl

/-- The same for the node itself. -/
theorem lead_rename {gone : Piece} {side : Bool} (isGone : gone.key = key)
    (isReal : key ≠ invalidKey) (wasReal : oldKey ≠ invalidKey) (apart : oldKey ≠ key)
    (notBack : gone.childKey side ≠ oldKey ∧ gone.childKey side ≠ key)
    (notParent : gone.parentKey ≠ key) (other : piece.key ≠ key)
    (away : piece.key = gone.parentKey → ∀ side', piece.childKey side' ≠ oldKey) :
    Piece.lead side (gone.rename oldKey key data) (piece.rename oldKey key data) =
      (Piece.lead side gone piece).rename oldKey key data := by
  have goneKey := (@rename_other key gone data oldKey (isGone.trans_ne apart.symm)).1.trans isGone
  rcases @rename_links key gone data oldKey (goneKey.trans_ne isReal) with
    ⟨goneChildren, goneLeaves, goneParent⟩
  have childIs : (gone.rename oldKey key data).childKey side = gone.childKey side := by
    rw [goneChildren]
    exact Link.aim_of_ne _ notBack.1
  unfold Piece.lead
  rw [goneKey, childIs, goneLeaves, goneParent, isGone]
  exact adjust_rename isReal wasReal notBack notParent other away _ _

theorem once_rename (once : Once pieces) (isNew : pieceAt pieces key = none)
    (isReal : key ≠ invalidKey) (wasReal : oldKey ≠ invalidKey) :
    Once (pieces.map (Piece.rename oldKey key data)) := by
  have notNew : ∀ piece ∈ pieces, piece.key ≠ key := by
    rintro piece mem rfl
    rw [pieceAt_of_mem once mem isReal] at isNew
    cases isNew
  refine List.pairwise_map.mpr (List.Pairwise.imp_of_mem ?_ once)
  intro piece piece' mem mem' apart same
  by_cases isOld : piece.key = oldKey
  · by_cases isOld' : piece'.key = oldKey
    · exact absurd (isOld.symm.trans (apart (isOld.trans isOld'.symm))) wasReal
    · rw [(rename_old isOld).1, (rename_other isOld').1] at same
      exact absurd same.symm (notNew piece' mem')
  · rw [(rename_other isOld).1] at same ⊢
    by_cases isOld' : piece'.key = oldKey
    · rw [(rename_old isOld').1] at same
      exact absurd same (notNew piece mem)
    · rw [(rename_other isOld').1] at same
      exact apart same

/-- The entries under their new keys. -/
theorem pieceAt_rename (once : Once pieces) (isNew : pieceAt pieces key = none)
    (isReal : key ≠ invalidKey) (found : pieceAt pieces oldKey = some piece) (key' : Int) :
    pieceAt (pieces.map (Piece.rename oldKey key data)) key' =
      if key' = oldKey then none
      else if key' = key then some (piece.rename oldKey key data)
      else (pieceAt pieces key').map (Piece.rename oldKey key data) := by
  rcases mem_of_pieceAt found with ⟨mem, isOld, wasReal⟩
  have differs : key ≠ oldKey := by
    rintro rfl
    rw [found] at isNew
    cases isNew
  have onceRenamed := @once_rename key pieces data oldKey once isNew isReal wasReal
  by_cases atOld : key' = oldKey
  · subst atOld
    rw [if_pos rfl]
    refine Option.eq_none_iff_forall_ne_some.mpr (fun renamed isRenamed => ?_)
    rcases mem_of_pieceAt isRenamed with ⟨memRenamed, isKey, -⟩
    rcases List.mem_map.mp memRenamed with ⟨other, -, rfl⟩
    by_cases otherOld : other.key = key'
    · exact differs ((rename_old otherOld).1.symm.trans isKey)
    · exact otherOld ((rename_other otherOld).1.symm.trans isKey)
  · rw [if_neg atOld]
    by_cases atNew : key' = key
    · subst atNew
      rw [if_pos rfl]
      exact (pieceAt_eq_some_iff onceRenamed).mpr ⟨List.mem_map_of_mem mem, (rename_old isOld).1,
        isReal⟩
    · rw [if_neg atNew]
      refine Option.ext (fun renamed => ?_)
      rw [pieceAt_eq_some_iff onceRenamed, Option.map_eq_some_iff]
      constructor
      · rintro ⟨memRenamed, isKey, isReal'⟩
        rcases List.mem_map.mp memRenamed with ⟨other, memOther, rfl⟩
        by_cases otherOld : other.key = oldKey
        · exact absurd (isKey.symm.trans (rename_old otherOld).1) atNew
        · have sameKey : other.key = key' := (rename_other otherOld).1.symm.trans isKey
          subst sameKey
          exact ⟨other, pieceAt_of_mem once memOther isReal', rfl⟩
      · rintro ⟨other, isOther, rfl⟩
        rcases mem_of_pieceAt isOther with ⟨memOther, isKey, isReal'⟩
        exact ⟨List.mem_map_of_mem memOther,
          (rename_other (isKey.trans_ne atOld)).1.trans isKey, isReal'⟩

/-- A local node takes over another key that belongs in its place, and the data with it. -/
theorem renamed (woven : Woven rootKey rootLeaf pieces store tree)
    (found : pieceAt pieces oldKey = some piece) (isNew : key ∉ keysOf tree)
    (isReal : key ≠ invalidKey) (between : ∀ other ∈ keysOf tree,
      (other < oldKey → other < key) ∧ (oldKey < other → key < other)) :
    ∃ tree', Woven (Link.aim oldKey key rootKey) rootLeaf
        (pieces.map (Piece.rename oldKey key data)) store tree' ∧
      ∃ lower upper, tree.toList = lower ++ (oldKey, piece.data) :: upper ∧
        tree'.toList = lower ++ (key, data) :: upper := by
  rcases woven.absent isNew with ⟨notLocal, notStored⟩
  rcases mem_of_pieceAt found with ⟨-, isOld, wasReal⟩
  have isNode : nodeOf? pieces store oldKey = some piece := nodeOf?_local found
  have mem := woven.all _ _ isNode
  have entries := fun key' => @pieceAt_rename key pieces piece data oldKey woven.once notLocal
    isReal found key'
  have oldStored := woven.apart _ _ found
  -- A node after the change comes from one before it.
  have nodeCases : ∀ key' piece', nodeOf? (pieces.map (Piece.rename oldKey key data)) store key' =
      some piece' → (∃ before oldKey', pieceAt pieces oldKey' = some before ∧
        piece' = before.rename oldKey key data ∧ key' = Link.aim oldKey key oldKey') ∨
      pieceAt pieces key' = none ∧ store key' = some piece' := by
    intro key' piece' isNode'
    rw [nodeOf?, entries] at isNode'
    split at isNode'
    · rename_i atOld
      rw [atOld, oldStored] at isNode'
      cases isNode'
    · rename_i notOld
      split at isNode'
      · rename_i atNew
        cases isNode'
        exact Or.inl ⟨piece, oldKey, found, rfl, by rw [Link.aim_self, atNew]⟩
      · rcases isLocal : pieceAt pieces key' with _ | before
        · rw [isLocal] at isNode'
          exact Or.inr ⟨rfl, isNode'⟩
        · rw [isLocal] at isNode'
          cases isNode'
          exact Or.inl ⟨before, key', isLocal, rfl, (Link.aim_of_ne _ notOld).symm⟩
  have realAfter : ∀ {before : Piece} {oldKey' : Int}, pieceAt pieces oldKey' = some before →
      (before.rename oldKey key data).key = Link.aim oldKey key oldKey' ∧
        (before.rename oldKey key data).key ≠ invalidKey := by
    intro before oldKey' isBefore
    rcases mem_of_pieceAt isBefore with ⟨-, rfl, isReal'⟩
    by_cases same : before.key = oldKey
    · rw [(rename_old same).1, same, Link.aim_self]
      exact ⟨rfl, isReal⟩
    · rw [(rename_other same).1, Link.aim_of_ne _ same]
      exact ⟨rfl, isReal'⟩
  have entriesAim : ∀ {before : Piece} {oldKey' : Int}, pieceAt pieces oldKey' = some before →
      pieceAt (pieces.map (Piece.rename oldKey key data)) (Link.aim oldKey key oldKey') =
        some (before.rename oldKey key data) := by
    intro before oldKey' isBefore
    rw [← (realAfter isBefore).1]
    exact pieceAt_of_mem (@once_rename key pieces data oldKey woven.once notLocal isReal wasReal)
      (List.mem_map_of_mem (mem_of_pieceAt isBefore).1) (realAfter isBefore).2
  have here : pieceLinks (pieces.map (Piece.rename oldKey key data)) store key =
      some { piece.link with value := data } := by
    have entry := entriesAim found
    rw [Link.aim_self] at entry
    rw [pieceLinks_eq (nodeOf?_local entry), Piece.link, (rename_old isOld).2,
      (rename_links (realAfter found).2).1]
    congr 2
    funext side
    refine Link.aim_of_ne _ (fun loop => ?_)
    exact woven.spells.child_ne woven.nodup mem (pieceLinks_eq isNode) side (loop.trans_ne wasReal)
      loop
  have links : ∀ y ∈ keysOf tree, y ≠ oldKey →
      pieceLinks (pieces.map (Piece.rename oldKey key data)) store y =
        (pieceLinks pieces store y).map (Link.redirect oldKey key) := by
    intro y inTree other
    have notKey : y ≠ key := fun same => isNew (same ▸ inTree)
    rw [pieceLinks, nodeOf?, entries, if_neg other, if_neg notKey, pieceLinks, nodeOf?]
    rcases isLocal : pieceAt pieces y with _ | before
    · rcases isStored : store y with _ | before
      · rfl
      · have away := (woven.links_away found
          ((nodeOf?_stored isLocal).trans isStored)).resolve_right
          (fun parent => by
            rw [isLocal] at parent
            cases parent.1)
        exact congrArg some (@Link.redirect_of_ne _ _ _ _ _ before.link away).symm
    · have isKey := (mem_of_pieceAt isLocal).2.1
      change some (before.rename oldKey key data).link = some (before.link.redirect oldKey key)
      rw [Piece.link, (rename_other (isKey.trans_ne other)).2,
          (rename_links (realAfter isLocal).2).1]
      rfl
  rcases woven.spells.relabel woven.nodup mem (pieceLinks_eq isNode) isReal here links with
    ⟨tree', spells', lower, upper, split, split'⟩
  refine ⟨tree', ⟨once_rename woven.once notLocal isReal wasReal, ?_, woven.keyed, spells', ?_, ?_,
    ?_, ?_, ?_⟩, lower, upper, split, split'⟩
  · intro key' piece' isLocal
    rcases nodeCases key' piece' (nodeOf?_local isLocal) with
      ⟨before, oldKey', isBefore, -, rfl⟩ | ⟨-, isStored⟩
    · unfold Link.aim
      split
      · exact notStored
      · exact woven.apart _ _ isBefore
    · rw [entries] at isLocal
      split at isLocal
      · cases isLocal
      · split at isLocal
        · rename_i atNew
          rw [atNew]
          exact notStored
        · rcases Option.map_eq_some_iff.mp isLocal with ⟨before, isBefore, -⟩
          exact woven.apart _ _ isBefore
  · intro key' piece' isNode'
    rw [keysOf, split', List.map_append, List.map_cons, List.mem_append, List.mem_cons]
    have kept : ∀ oldKey' ∈ keysOf tree, oldKey' ≠ oldKey →
        oldKey' ∈ lower.map Prod.fst ∨ oldKey' = key ∨ oldKey' ∈ upper.map Prod.fst := by
      intro oldKey' inTree other
      rw [keysOf, split, List.map_append, List.map_cons, List.mem_append, List.mem_cons] at inTree
      exact inTree.imp_right (fun later => Or.inr (later.resolve_left other))
    rcases nodeCases key' piece' isNode' with ⟨before, oldKey', isBefore, -, rfl⟩ |
        ⟨notLocal', isStored⟩
    · by_cases same : oldKey' = oldKey
      · rw [same, Link.aim_self]
        exact Or.inr (Or.inl rfl)
      · rw [Link.aim_of_ne _ same]
        exact kept oldKey' (woven.all _ _ (nodeOf?_local isBefore)) same
    · refine kept key' (woven.all _ _ ((nodeOf?_stored notLocal').trans isStored)) ?_
      rintro rfl
      rw [oldStored] at isStored
      cases isStored
  · have ordered := woven.ordered
    rw [BinaryTree.Ordered, split, List.map_append, List.map_cons, List.pairwise_append,
      List.pairwise_cons] at ordered
    rw [BinaryTree.Ordered, split', List.map_append, List.map_cons, List.pairwise_append,
      List.pairwise_cons]
    have inside : ∀ other, other ∈ lower.map Prod.fst ∨ other ∈ upper.map Prod.fst →
        other ∈ keysOf tree := by
      intro other where'
      rw [keysOf, split, List.map_append, List.map_cons, List.mem_append, List.mem_cons]
      exact where'.imp_right Or.inr
    refine ⟨ordered.1, ⟨fun other inUpper => ?_, ordered.2.1.2⟩,
        fun other inLower other' mem' => ?_⟩
    · exact (between other (inside other (Or.inr inUpper))).2 (ordered.2.1.1 other inUpper)
    · rcases List.mem_cons.mp mem' with rfl | inUpper
      · exact (between other (inside other (Or.inl inLower))).1
          (ordered.2.2 other inLower oldKey List.mem_cons_self)
      · exact ordered.2.2 other inLower other' (List.mem_cons_of_mem _ inUpper)
  · intro key' piece' side' child isNode' isStored
    rcases nodeCases key' piece' isNode' with ⟨before, oldKey', isBefore, rfl, -⟩ |
        ⟨notLocal', isStored'⟩
    · rw [(rename_links (realAfter isBefore).2).1] at isStored
      rw [(rename_links (realAfter isBefore).2).2.1]
      dsimp only at isStored
      by_cases toOld : before.childKey side' = oldKey
      · rw [toOld, Link.aim_self, notStored] at isStored
        cases isStored
      · rw [Link.aim_of_ne _ toOld] at isStored
        exact woven.leaves _ before side' child (nodeOf?_local isBefore) isStored
    · exact woven.leaves key' piece' side' child
        ((nodeOf?_stored notLocal').trans isStored') isStored
  · intro piece' isStored
    unfold Link.aim at isStored
    split at isStored
    · rw [notStored] at isStored
      cases isStored
    · exact woven.rootLeaf_eq piece' isStored
  · intro key' piece' isLocal
    rcases nodeCases key' piece' (nodeOf?_local isLocal) with
      ⟨before, oldKey', isBefore, rfl, rfl⟩ | ⟨notLocal', isStored⟩
    · rw [(rename_links (realAfter isBefore).2).2.2]
      rcases woven.parents _ _ isBefore with ⟨isRoot, rfl⟩ | ⟨parent, side', isParent, leads⟩
      · rw [isRoot, Link.aim_of_ne _ wasReal.symm]
        exact Or.inl ⟨rfl, rfl⟩
      · refine Or.inr ⟨_, side', entriesAim isParent, ?_⟩
        rw [(rename_links (realAfter isParent).2).1]
        exact congrArg _ leads
    · rw [entries] at isLocal
      split at isLocal
      · cases isLocal
      · split at isLocal
        · rename_i atNew
          rw [atNew, notStored] at isStored
          cases isStored
        · rw [notLocal'] at isLocal
          cases isLocal

end Rename

end Woven

end TieredOmap
