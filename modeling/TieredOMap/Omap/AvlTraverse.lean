import TieredOMap.Omap.AvlInsert
import TieredOMap.Omap.AvlStore

/-!
# The way down

The traversals of an operation make the nodes of one path local; everything
beside the path stays stored.
-/

namespace TieredOmap

open AvlPart

/-- Everything beside the way up is stored. -/
def StoredSides (frames : List AvlFrame) : Prop :=
  ∀ frame ∈ frames, ∃ tree, frame.sibling = stored tree

theorem sideNodes_of_stored {frames : List AvlFrame} (sides : StoredSides frames) :
    sideNodes frames = [] := by
  refine List.flatMap_eq_nil_iff.mpr ?_
  intro frame mem
  rcases sides frame mem with ⟨tree, siblingEq⟩
  rw [siblingEq]
  rfl

theorem AvlPart.height_plug_congr {frames : List AvlFrame} {part part' : AvlPart}
    (sameHeight : part'.tree.height = part.tree.height) :
    (plug frames part').tree.height = (plug frames part).tree.height := by
  induction frames generalizing part part' with
  | nil => exact sameHeight
  | cons frame frames ih =>
      refine ih ?_
      rw [AvlFrame.tree_plug, AvlFrame.tree_plug]
      exact (BinaryTree.height_nodeOn _ _ _ _).trans
        ((congrArg (fun height => max height _ + 1) sameHeight).trans
          (BinaryTree.height_nodeOn _ _ _ _).symm)

/-- With a focus of the same height all heights stay right. -/
theorem AvlPart.exact_plug {frames : List AvlFrame} {part part' : AvlPart}
    (exact : (plug frames part).HeightsExact) (sameHeight : part'.tree.height = part.tree.height)
    (exact' : part'.HeightsExact) : (plug frames part').HeightsExact := by
  induction frames generalizing part part' with
  | nil => exact exact'
  | cons frame frames ih =>
      have plugExact : (frame.plug part).HeightsExact := (@sides_of_exact frames _ exact).1
      rcases heightsExact_fetchedOn.mp plugExact with ⟨partHeight, siblingHeight, _, siblingExact⟩
      refine @ih (frame.plug part) _ exact (@height_plug_congr [frame] _ _ sameHeight) ?_
      · refine heightsExact_fetchedOn.mpr ⟨?_, siblingHeight, exact', siblingExact⟩
        rw [partHeight, sameHeight]

/-- The frame over one child of a node. -/
def childFrame (side : Bool) (node : AVLLocalNode) (other : AvlTree) : AvlFrame :=
  ⟨node, side, stored other⟩

section Way

variable [Cipher] {label : Int → Int} {level : Nat} {omap : AVLOmap} {frames : List AvlFrame}
  {tree left right : AvlTree} {node : AVLLocalNode} {entry : Int × Bytes}

/-- The traversal is at a stored subtree. -/
structure OnWay (label : Int → Int) (level : Nat) (omap : AVLOmap) (frames : List AvlFrame)
    (tree : AvlTree) : Prop where
  op : AvlOp label level omap frames (stored tree)
  sides : StoredSides frames
  exact : (plug frames (stored tree)).HeightsExact

/-- The traversal has just made a node local. -/
structure Arrived (label : Int → Int) (level : Nat) (omap : AVLOmap) (frames : List AvlFrame)
    (node : AVLLocalNode) (left right : AvlTree) : Prop where
  op : AvlOp label level omap frames (fetched node (stored left) (stored right))
  sides : StoredSides frames
  exact : (plug frames (fetched node (stored left) (stored right))).HeightsExact
  isNext : omap.local_ = (frames.map AvlFrame.node).reverse ++ [node]

/-- Only the nodes of the path are local. -/
theorem OnWay.local_eq (way : OnWay label level omap frames tree) :
    omap.local_ = (frames.map AvlFrame.node).reverse := by
  rcases way.op.focus.local_.order with ⟨rest, order, perm⟩
  have nothing : rest = [] := by
    refine List.Perm.eq_nil (perm.trans ?_)
    rw [sideNodes_of_stored way.sides]
    exact List.Perm.refl _
  rw [order, nothing, List.append_nil]

theorem OnWay.lastKey_eq (way : OnWay label level omap frames tree) :
    omap.lastKey = AvlLocal.spineKey frames := by
  rw [AVLOmap.lastKey, way.local_eq]
  cases frames with
  | nil => rfl
  | cons frame frames => simp [AvlLocal.spineKey]

/-- Go on to a child. -/
theorem Arrived.enter (side : Bool) {child other : AvlTree}
    (arrived : Arrived label level omap frames node (if side then child else other)
      (if side then other else child)) :
    OnWay label level omap (childFrame side node other :: frames) child := by
  have samePart : fetched node (stored (if side then child else other))
      (stored (if side then other else child)) =
        (childFrame side node other).plug (stored child) := by
    cases side <;> rfl
  have op := arrived.op
  have exact := arrived.exact
  rw [samePart] at op exact
  refine ⟨op.push ?_, ?_, exact⟩
  · rw [arrived.isNext, List.getElem?_append_right (by simp)]
    simp [childFrame]
  · intro frame mem
    rcases List.mem_cons.mp mem with rfl | isOuter
    · exact ⟨other, rfl⟩
    · exact arrived.sides frame isOuter

/-- One step of a traversal. -/
theorem OnWay.ends_step (way : OnWay label level omap frames (.node entry left right))
    (depth : Int) :
    Ends (omap.moveToLocal entry.1 (label entry.1) omap.lastKey depth) (fun outcome =>
      outcome.1 = fetchedNode label entry left right (AvlLocal.spineKey frames) depth ∧
      Arrived label level outcome.2 frames
        (fetchedNode label entry left right (AvlLocal.spineKey frames) depth) left right ∧
      outcome.2.maxHeight = omap.maxHeight) := by
  rw [way.lastKey_eq]
  refine (way.op.ends_fetch depth).mono ?_
  rintro ⟨_, omap'⟩ ⟨rfl, op, oram, opCount, rfl⟩
  refine ⟨rfl, ⟨op, way.sides, ?_, ?_⟩, rfl⟩
  · exact exact_plug way.exact rfl ⟨AvlTree.ptr_height _ _, AvlTree.ptr_height _ _, trivial, trivial⟩
  · exact congrArg (· ++ _) way.local_eq

/-- Change the data or the children of the last node, with all pointers still right. -/
theorem Arrived.setLast (arrived : Arrived label level omap frames node left right)
    {node' : AVLLocalNode} {f : AVLLocalNode → AVLLocalNode} (nodeEq : f node = node')
    (sameKey : node'.key = node.key) (sameParent : node'.parentKey = node.parentKey)
    (sameChild : ∀ side, node'.avl.child side = node.avl.child side) :
    Arrived label level (omap.modifyLast f) frames node' left right := by
  have pushed : AvlOp label level omap (childFrame true node right :: frames) (stored left) :=
    (arrived.enter true).op
  have lastEq : omap.local_.length - 1 = frames.length := by
    rw [arrived.isNext]
    simp
  have localEq : (omap.modifyLast f).local_ = omap.local_.set frames.length node' := by
    change omap.local_.modify (omap.local_.length - 1) f = _
    have isNext : omap.local_[frames.length]? = some node := pushed.focus.local_.isNext
    rw [lastEq, List.modify_eq_set_getElem?, isNext, ← nodeEq]
    rfl
  rcases pushed.focus.local_.spine with ⟨ptrOk, _, siblingPtr, _⟩
  have local_ := @AvlLocal.setFrame _ _ _ _ _ pushed.focus.local_ node' sameKey sameParent
    ((sameChild true).symm ▸ ptrOk) ((sameChild false).symm ▸ siblingPtr)
  rw [← localEq] at local_
  have sameKeys : ((plug frames (fetched node' (stored left) (stored right))).tree.keys).Perm
      (plug frames (fetched node (stored left) (stored right))).tree.keys := by
    refine (keys_plug _ _).trans (List.Perm.trans ?_ (keys_plug _ _).symm)
    simp only [tree, AvlTree.keys_node, sameKey]
    exact List.Perm.refl _
  have op := arrived.op
  refine ⟨⟨⟨local_.pop, ?_⟩, ?_, op.whole, ?_, ?_⟩, arrived.sides, ?_, ?_⟩
  · refine op.focus.rootKey.trans ?_
    rw [rootKey_plug, rootKey_plug]
    simp only [tree, AvlTree.rootKey, sameKey]
  · have sameBlocks : (plug frames (fetched node' (stored left) (stored right))).inOram label =
        (plug frames (fetched node (stored left) (stored right))).inOram label := by
      rw [inOram, inOram, blocks_plug, blocks_plug]
      rfl
    change omap.orams.oram.Holds level ∅
      ((plug frames (fetched node' (stored left) (stored right))).inOram label)
    rw [sameBlocks]
    exact op.holds
  · refine op.fits.mono (fun key mem => sameKeys.mem_iff.mp mem) (le_of_eq ?_)
    exact height_plug_congr rfl
  · intro tree isStored
    exact (plug_ne_stored (fun _ same => by (cases same)) tree isStored).elim
  · refine exact_plug arrived.exact rfl ⟨?_, ?_, trivial, trivial⟩
    · rw [sameChild]
      exact (sides_of_exact arrived.exact).1.1
    · rw [sameChild]
      exact (sides_of_exact arrived.exact).1.2.1
  · rw [localEq, arrived.isNext, List.set_append_right _ _ (by simp)]
    simp

theorem OnWay.key_ne_invalid (way : OnWay label level omap frames (.node entry left right)) :
    entry.1 ≠ invalidKey :=
  way.op.focus.local_.valid entry.1 (keys_sub_plug _ _ _ (by simp [AvlPart.tree]))

/-! ## Searching -/

/-- The data of the root. -/
def rootData : AvlTree → Bytes
  | .nil => []
  | .node entry _ _ => entry.2

/-- The tree with an update at the root. -/
def updateRoot (update : Option Bytes) : AvlTree → AvlTree
  | .nil => .nil
  | .node entry left right => .node (entry.1, update.getD entry.2) left right

/-- `search` goes the way of the search tree. -/
theorem OnWay.ends_searchLoop (key : Int) (update : Option Bytes) (count : Nat) (depth : Int)
    (way : OnWay label level omap frames tree) (le : tree.height ≤ count) :
    Ends (AVLOmap.searchLoop key update count depth (tree.ptr label).key (tree.ptr label).leaf omap)
      (fun outcome =>
        outcome.1 = rootData (BinaryTree.descend key tree (frames.map AvlFrame.frame)).2 ∧
        outcome.2.maxHeight = omap.maxHeight ∧ ∃ frames' part,
          AvlOp label level outcome.2 frames' part ∧ (plug frames' part).HeightsExact ∧
          frames'.map AvlFrame.frame =
            (BinaryTree.descend key tree (frames.map AvlFrame.frame)).1 ∧
          part.tree = updateRoot update
            (BinaryTree.descend key tree (frames.map AvlFrame.frame)).2) := by
  induction count generalizing omap frames tree depth with
  | zero =>
      cases tree with
      | nil => exact Prog.ends_pure ⟨rfl, rfl, frames, _, way.op, way.exact, rfl, rfl⟩
      | node entry left right => exact absurd le (by simp [BinaryTree.height])
  | succ count ih =>
      cases tree with
      | nil =>
          change Ends (AVLOmap.searchLoop key update (count + 1) depth invalidKey invalidLeaf omap) _
          unfold AVLOmap.searchLoop
          rw [if_pos rfl]
          exact Prog.ends_pure ⟨rfl, rfl, frames, _, way.op, way.exact, rfl, rfl⟩
      | node entry left right =>
          change Ends
            (AVLOmap.searchLoop key update (count + 1) depth entry.1 (label entry.1) omap) _
          unfold AVLOmap.searchLoop
          rw [if_neg way.key_ne_invalid]
          refine Prog.ends_bind (way.ends_step depth) ?_
          rintro ⟨_, omap'⟩ ⟨rfl, arrived, sameHeight⟩
          dsimp only
          simp only [BinaryTree.height] at le
          unfold BinaryTree.descend
          by_cases here : key = entry.1
          · rw [if_pos here, if_pos here]
            have updated := arrived.setLast (f := fun node =>
              { node with avl := { node.avl with data := update.getD node.avl.data } }) rfl rfl rfl
                (fun side => by (cases side <;> rfl))
            exact Prog.ends_pure ⟨rfl, sameHeight, frames, _, updated.op, updated.exact, rfl, rfl⟩
          · rw [if_neg here, if_neg here]
            by_cases less : key < entry.1
            · rw [if_pos less, if_pos less]
              refine (ih (depth + 1) (arrived.enter true) (by omega)).mono ?_
              rintro outcome ⟨answer, same, found⟩
              exact ⟨answer, same.trans sameHeight, found⟩
            · rw [if_neg less, if_neg less]
              refine (ih (depth + 1) (arrived.enter false) (by omega)).mono ?_
              rintro outcome ⟨answer, same, found⟩
              exact ⟨answer, same.trans sameHeight, found⟩

end Way

end TieredOmap
