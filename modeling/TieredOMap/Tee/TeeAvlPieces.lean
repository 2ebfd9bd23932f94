import TieredOMap.Lib.LinkedTree
import TieredOMap.Tee.TeeAvlOmap

/-!
# The nodes of an operation and the stored ones

An operation of `TeeAvlOmap` takes nodes out of the ORAM, changes them in `local_` and puts them
back. In between the local entries and the stored nodes together are `Woven` into a search
tree: each key has one node, the pointers spell out the tree, the leaf that a node names for a
stored child is the child's, and every local entry but the root has its parent among the local
entries. Heights and dummy entries do not matter.
-/

namespace TieredOmap

/-- A node with its leaf and its parent; it has a child on each side (`true` is left). -/
@[ext]
structure Piece where
  key : Int
  leaf : Int
  parentKey : Int
  data : Bytes
  childKey : Bool → Int
  childLeaf : Bool → Int

namespace Piece

/-- What a node leads to. -/
def link (piece : Piece) : Link Int Bytes := ⟨piece.data, piece.childKey⟩

/-- Lead to another child instead of an old one. -/
def redirect (oldKey key leaf : Int) (piece : Piece) : Piece :=
  { piece with
    childKey := fun side => Link.aim oldKey key (piece.childKey side)
    childLeaf := fun side =>
      if piece.childKey side = oldKey then leaf else piece.childLeaf side }

/-- Lead to another child on one side. -/
def setChild (side : Bool) (key leaf : Int) (piece : Piece) : Piece :=
  { piece with
    childKey := Function.update piece.childKey side key
    childLeaf := Function.update piece.childLeaf side leaf }

/-- The node of a key gets another value. -/
def withData (key : Int) (data : Bytes) (piece : Piece) : Piece :=
  if piece.key = key then { piece with data } else piece

/-- Lead to another child instead of an old one below a parent, and be below another parent as
the child. -/
def adjust (parentKey oldKey key leaf childKey below : Int) (piece : Piece) : Piece :=
  let piece := if piece.key = parentKey ∧ piece.key ≠ invalidKey
    then piece.redirect oldKey key leaf else piece
  if piece.key = childKey ∧ piece.key ≠ invalidKey then { piece with parentKey := below } else piece

/-- A rotation brings the child `up` of `down` on one side above it. -/
def turn (side : Bool) (down up piece : Piece) : Piece :=
  if piece.key = down.key then
    { piece.setChild side (up.childKey !side) (up.childLeaf !side) with parentKey := up.key }
  else if piece.key = up.key then
    { piece.setChild (!side) down.key down.leaf with parentKey := down.parentKey }
  else piece.adjust down.parentKey down.key up.key up.leaf (up.childKey !side) down.key

/-- The node of a key gets a child on one side. -/
def attach (parentKey : Int) (side : Bool) (key leaf : Int) (piece : Piece) : Piece :=
  if piece.key = parentKey then piece.setChild side key leaf else piece

/-- Lead past a node to its child on one side. -/
def lead (side : Bool) (gone piece : Piece) : Piece :=
  piece.adjust gone.parentKey gone.key (gone.childKey side) (gone.childLeaf side)
    (gone.childKey side) gone.parentKey

/-- A node with at most one child, on the given side, is taken out: the child takes its place. -/
def bypass (side : Bool) (gone piece : Piece) : Piece :=
  if piece.key = gone.key then { piece with key := invalidKey } else lead side gone piece

/-- A node takes over the key and the data of another one. -/
def rename (oldKey key : Int) (data : Bytes) (piece : Piece) : Piece :=
  let piece := if piece.key = oldKey then { piece with key, data } else piece
  { piece with
    childKey := if piece.key = invalidKey then piece.childKey
      else fun side => Link.aim oldKey key (piece.childKey side)
    parentKey := Link.aim oldKey key piece.parentKey }

end Piece

/-- The entry with a key; dummies have none. -/
def pieceAt (pieces : List Piece) (key : Int) : Option Piece :=
  if key = invalidKey then none else pieces.find? (fun piece => piece.key = key)

/-- No two entries have a key in common. -/
def Once (pieces : List Piece) : Prop :=
  pieces.Pairwise (fun piece piece' => piece.key = piece'.key → piece.key = invalidKey)

section PieceAt

variable {pieces : List Piece} {piece : Piece} {key : Int} {f : Piece → Piece}

theorem pieceAt_invalidKey (pieces : List Piece) : pieceAt pieces invalidKey = none := if_pos rfl

theorem mem_of_pieceAt (found : pieceAt pieces key = some piece) :
    piece ∈ pieces ∧ piece.key = key ∧ key ≠ invalidKey := by
  unfold pieceAt at found
  split at found
  · cases found
  · rename_i isReal
    exact ⟨List.mem_of_find?_eq_some found, by simpa using List.find?_some found, isReal⟩

theorem pieceAt_of_mem (once : Once pieces) (mem : piece ∈ pieces)
    (isReal : piece.key ≠ invalidKey) : pieceAt pieces piece.key = some piece := by
  unfold pieceAt
  rw [if_neg isReal]
  induction pieces with
  | nil => cases mem
  | cons head rest ih =>
      rcases List.pairwise_cons.mp once with ⟨headOnce, restOnce⟩
      rw [List.find?_cons]
      rcases List.mem_cons.mp mem with rfl | inRest
      · simp
      · have differs : head.key ≠ piece.key := by
          intro same
          exact isReal (same.symm.trans (headOnce piece inRest same))
        simp only [differs, decide_false]
        exact ih restOnce inRest

theorem pieceAt_eq_some_iff (once : Once pieces) :
    pieceAt pieces key = some piece ↔ piece ∈ pieces ∧ piece.key = key ∧ key ≠ invalidKey := by
  refine ⟨mem_of_pieceAt, ?_⟩
  rintro ⟨mem, rfl, isReal⟩
  exact pieceAt_of_mem once mem isReal

theorem pieceAt_map (sameKey : ∀ piece, (f piece).key = piece.key) (pieces : List Piece)
    (key : Int) : pieceAt (pieces.map f) key = (pieceAt pieces key).map f := by
  unfold pieceAt
  split
  · rfl
  · rw [List.find?_map]
    congr 2
    funext piece
    simp [sameKey]

theorem once_map (sameKey : ∀ piece, (f piece).key = piece.key) (once : Once pieces) :
    Once (pieces.map f) := by
  refine List.Pairwise.map f (fun piece piece' apart => ?_) once
  rw [sameKey, sameKey]
  exact apart

theorem pieceAt_append (pieces : List Piece) (piece : Piece) (key : Int) :
    pieceAt (pieces ++ [piece]) key = (pieceAt pieces key).or
      (if key ≠ invalidKey ∧ piece.key = key then some piece else none) := by
  unfold pieceAt
  by_cases isDummy : key = invalidKey
  · simp [isDummy]
  · rw [if_neg isDummy, if_neg isDummy, List.find?_append]
    congr 1
    by_cases same : piece.key = key <;> simp [same, isDummy]

theorem once_append (once : Once pieces)
    (isNew : piece.key = invalidKey ∨ pieceAt pieces piece.key = none) :
    Once (pieces ++ [piece]) := by
  refine List.pairwise_append.mpr ⟨once, List.pairwise_singleton _ _,
      fun other mem last isLast => ?_⟩
  rw [List.mem_singleton] at isLast
  subst isLast
  intro same
  rcases isNew with isDummy | absent
  · exact same.trans isDummy
  · by_contra isReal
    rw [← same, pieceAt_of_mem once mem isReal] at absent
    cases absent

end PieceAt

/-- The node of a key: a local entry or a stored one. -/
def nodeOf? (pieces : List Piece) (store : Int → Option Piece) (key : Int) : Option Piece :=
  (pieceAt pieces key).or (store key)

/-- What the nodes lead to. -/
def pieceLinks (pieces : List Piece) (store : Int → Option Piece) : Links Int Bytes := fun key =>
  (nodeOf? pieces store key).map Piece.link

/-- The local entries and the stored nodes make up a search tree. -/
structure Woven (rootKey rootLeaf : Int) (pieces : List Piece) (store : Int → Option Piece)
    (tree : BinaryTree (Int × Bytes)) : Prop where
  once : Once pieces
  apart : ∀ key piece, pieceAt pieces key = some piece → store key = none
  keyed : ∀ key piece, store key = some piece → piece.key = key ∧ key ≠ invalidKey
  spells : (pieceLinks pieces store).Spells invalidKey rootKey tree
  all : ∀ key piece, nodeOf? pieces store key = some piece → key ∈ Links.keysOf tree
  ordered : tree.Ordered
  leaves : ∀ key piece side child, nodeOf? pieces store key = some piece →
    store (piece.childKey side) = some child → piece.childLeaf side = child.leaf
  rootLeaf_eq : ∀ piece, store rootKey = some piece → rootLeaf = piece.leaf
  parents : ∀ key piece, pieceAt pieces key = some piece →
    piece.parentKey = invalidKey ∧ key = rootKey ∨
      ∃ parent side, pieceAt pieces piece.parentKey = some parent ∧ parent.childKey side = key

section NodeOf

variable {pieces : List Piece} {store : Int → Option Piece} {piece : Piece} {key : Int}

theorem nodeOf?_local (found : pieceAt pieces key = some piece) :
    nodeOf? pieces store key = some piece := by
  rw [nodeOf?, found]
  rfl

theorem nodeOf?_stored (absent : pieceAt pieces key = none) :
    nodeOf? pieces store key = store key := by
  rw [nodeOf?, absent]
  rfl

theorem nodeOf?_cases (found : nodeOf? pieces store key = some piece) :
    pieceAt pieces key = some piece ∨ pieceAt pieces key = none ∧ store key = some piece := by
  rcases isLocal : pieceAt pieces key with _ | piece'
  · rw [nodeOf?_stored isLocal] at found
    exact Or.inr ⟨rfl, found⟩
  · rw [nodeOf?_local isLocal] at found
    exact Or.inl found

theorem pieceLinks_eq (found : nodeOf? pieces store key = some piece) :
    pieceLinks pieces store key = some piece.link := by
  rw [pieceLinks, found]
  rfl

end NodeOf

theorem nodup_keysOf {tree : BinaryTree (Int × Bytes)} (ordered : tree.Ordered) :
    (Links.keysOf tree).Nodup := by
  refine List.Pairwise.imp ?_ ordered
  exact fun less => ne_of_lt less

namespace Woven

variable {rootKey rootLeaf key : Int} {pieces : List Piece} {store : Int → Option Piece}
  {tree : BinaryTree (Int × Bytes)} {piece : Piece} {side : Bool}

theorem nodup (woven : Woven rootKey rootLeaf pieces store tree) : (Links.keysOf tree).Nodup :=
  nodup_keysOf woven.ordered

/-- Each key of the tree has a node. -/
theorem node_of_mem (woven : Woven rootKey rootLeaf pieces store tree)
    (mem : key ∈ Links.keysOf tree) : ∃ piece, nodeOf? pieces store key = some piece ∧
      piece.key = key ∧ key ≠ invalidKey ∧ (key, piece.data) ∈ tree.toList := by
  rcases woven.spells.found mem with ⟨link, found, inTree⟩
  rcases Option.map_eq_some_iff.mp found with ⟨piece, isNode, rfl⟩
  refine ⟨piece, isNode, ?_, woven.spells.ne_null mem, inTree⟩
  rcases nodeOf?_cases isNode with isLocal | ⟨-, isStored⟩
  · exact (mem_of_pieceAt isLocal).2.1
  · exact (woven.keyed key piece isStored).1

/-- The children of a node are in the tree. -/
theorem child_mem (woven : Woven rootKey rootLeaf pieces store tree)
    (found : nodeOf? pieces store key = some piece) (side : Bool)
    (isReal : piece.childKey side ≠ invalidKey) : piece.childKey side ∈ Links.keysOf tree :=
  woven.spells.child_mem (woven.all key piece found) (pieceLinks_eq found) side isReal

/-- Only the parent that a local entry names leads to it. -/
theorem parent_eq (woven : Woven rootKey rootLeaf pieces store tree) {parentKey : Int}
    {parent : Piece} (found : pieceAt pieces key = some piece)
    (isNode : nodeOf? pieces store parentKey = some parent)
    (leads : parent.childKey side = key) : parentKey = piece.parentKey := by
  have isReal : parent.link.child side ≠ invalidKey := by
    change parent.childKey side ≠ invalidKey
    rw [leads]
    exact (mem_of_pieceAt found).2.2
  have mem := woven.all parentKey parent isNode
  rcases woven.parents key piece found with ⟨-, rfl⟩ | ⟨other, side', isOther, leads'⟩
  · exact absurd leads (woven.spells.root_no_child woven.nodup mem
      (pieceLinks_eq isNode) side isReal)
  · have isOtherNode : nodeOf? pieces store piece.parentKey = some other := nodeOf?_local isOther
    exact woven.spells.parent_unique woven.nodup mem (woven.all _ _ isOtherNode)
      (pieceLinks_eq isNode) (pieceLinks_eq isOtherNode) isReal (leads'.trans leads.symm)

/-- A node does not lead to the root. -/
theorem not_root (woven : Woven rootKey rootLeaf pieces store tree)
    (isNode : nodeOf? pieces store key = some piece) (isReal : piece.childKey side ≠ invalidKey) :
    piece.childKey side ≠ rootKey :=
  woven.spells.root_no_child woven.nodup (woven.all key piece isNode) (pieceLinks_eq isNode) side
    isReal

end Woven

end TieredOmap
