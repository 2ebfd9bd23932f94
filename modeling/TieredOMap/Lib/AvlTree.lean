import Mathlib.Data.List.Sort
import Mathlib.Data.Nat.Fib.Basic
import Mathlib.Data.Tree.Basic
import Mathlib.Order.Basic

/-!
# AVL trees

Binary search trees with a focus: a list of frames is the way from a node up to
the root. Inserting and removing change the tree at the focus and rebalance every
frame on the way up. The values from left to right do not depend on the shape, so
searching, inserting and removing are understood on the list of values.
-/

namespace BinaryTree

universe u v

variable {α : Type u}

/-- The values from left to right. -/
def toList : BinaryTree α → List α
  | nil => []
  | node value left right => left.toList ++ value :: right.toList

/-- All subtrees that have a root. -/
def subtrees : BinaryTree α → List (BinaryTree α)
  | nil => []
  | node value left right => node value left right :: (left.subtrees ++ right.subtrees)

theorem length_toList (tree : BinaryTree α) : tree.toList.length = tree.numNodes := by
  induction tree with
  | nil => rfl
  | node value left right ihLeft ihRight =>
      simp only [toList, List.length_append, List.length_cons, ihLeft, ihRight, numNodes]
      omega

/-! ## Both sides at once -/

/-- A node with `child` on the given side (`true` is left) and `other` on the other one. -/
def nodeOn : Bool → α → BinaryTree α → BinaryTree α → BinaryTree α
  | true, value, child, other => node value child other
  | false, value, child, other => node value other child

theorem nodeOn_not (side : Bool) (value : α) (child other : BinaryTree α) :
    nodeOn (!side) value child other = nodeOn side value other child := by
  cases side <;> rfl

theorem exists_nodeOn (side : Bool) {tree : BinaryTree α} (nonempty : tree ≠ nil) :
    ∃ value child other, tree = nodeOn side value child other := by
  cases tree with
  | nil => exact (nonempty rfl).elim
  | node value left right =>
      cases side with
      | true => exact ⟨value, left, right, rfl⟩
      | false => exact ⟨value, right, left, rfl⟩

@[simp]
theorem height_nodeOn (side : Bool) (value : α) (child other : BinaryTree α) :
    (nodeOn side value child other).height = max child.height other.height + 1 := by
  cases side
  · exact congrArg (· + 1) (max_comm other.height child.height)
  · rfl

theorem ne_nil_of_height {tree : BinaryTree α} (positive : 0 < tree.height) : tree ≠ nil := by
  rintro rfl
  exact Nat.lt_irrefl 0 positive

/-! ## Rotations -/

/-- Lift a child above the root: the right one in a left rotation. -/
def rotate : Bool → BinaryTree α → BinaryTree α
  | true, node value left (node pivot inner outer) => node pivot (node value left inner) outer
  | false, node value (node pivot outer inner) right => node pivot outer (node value inner right)
  | _, tree => tree

@[simp]
theorem rotate_nodeOn (side : Bool) (value pivot : α) (inner outer other : BinaryTree α) :
    rotate (!side) (nodeOn side value (nodeOn (!side) pivot inner outer) other) =
      nodeOn (!side) pivot (nodeOn side value inner other) outer := by
  cases side <;> rfl

theorem toList_rotate (left : Bool) (tree : BinaryTree α) :
    (rotate left tree).toList = tree.toList := by
  unfold rotate
  split <;> simp [toList]

/-- The child on the given side is the higher one. -/
def leansTo (side : Bool) : BinaryTree α → Bool
  | nil => false
  | node _ left right => if side then right.height < left.height else left.height < right.height

theorem leansTo_nodeOn (side : Bool) (value : α) (child other : BinaryTree α) :
    leansTo side (nodeOn side value child other) = decide (other.height < child.height) := by
  cases side <;> rfl

/-- Prepare a child for a rotation above it. -/
def straighten (side : Bool) (tree : BinaryTree α) : BinaryTree α :=
  if leansTo (!side) tree then rotate side tree else tree

theorem toList_straighten (side : Bool) (tree : BinaryTree α) :
    (straighten side tree).toList = tree.toList := by
  unfold straighten
  split
  · exact toList_rotate side tree
  · rfl

/-- A node over two trees, rebalanced if one of them is higher by more than one. -/
def balanceOn (side : Bool) (value : α) (child other : BinaryTree α) : BinaryTree α :=
  if other.height + 1 < child.height then
    rotate (!side) (nodeOn side value (straighten side child) other)
  else if child.height + 1 < other.height then
    rotate side (nodeOn (!side) value (straighten (!side) other) child)
  else nodeOn side value child other

theorem toList_nodeOn_congr (side : Bool) (value : α) {child child' other other' : BinaryTree α}
    (sameChild : child.toList = child'.toList) (sameOther : other.toList = other'.toList) :
    (nodeOn side value child other).toList = (nodeOn side value child' other').toList := by
  cases side <;> simp [nodeOn, toList, sameChild, sameOther]

theorem toList_balanceOn (side : Bool) (value : α) (child other : BinaryTree α) :
    (balanceOn side value child other).toList = (nodeOn side value child other).toList := by
  unfold balanceOn
  split
  · rw [toList_rotate]
    exact toList_nodeOn_congr side value (toList_straighten side child) rfl
  · split
    · rw [toList_rotate, nodeOn_not]
      exact toList_nodeOn_congr side value rfl (toList_straighten (!side) other)
    · rfl

theorem balanceOn_not (side : Bool) (value : α) (child other : BinaryTree α) :
    balanceOn (!side) value child other = balanceOn side value other child := by
  unfold balanceOn
  rw [Bool.not_not, nodeOn_not]
  by_cases childTall : other.height + 1 < child.height
  · rw [if_pos childTall, if_neg (by omega), if_pos childTall]
  · rw [if_neg childTall]
    by_cases otherTall : child.height + 1 < other.height
    · rw [if_pos otherTall, if_pos otherTall]
    · rw [if_neg otherTall, if_neg otherTall, if_neg childTall]
      exact nodeOn_not side value child other

/-! ## Balance -/

/-- The children of every node differ by at most one in height. -/
def Balanced : BinaryTree α → Prop
  | nil => True
  | node _ left right => left.height ≤ right.height + 1 ∧ right.height ≤ left.height + 1 ∧
      left.Balanced ∧ right.Balanced

theorem Balanced.of_mem_subtrees {tree tree' : BinaryTree α} (balanced : tree.Balanced)
    (mem : tree' ∈ tree.subtrees) : tree'.Balanced := by
  induction tree with
  | nil => exact absurd mem List.not_mem_nil
  | node value left right ihLeft ihRight =>
      rcases List.mem_cons.mp mem with rfl | below
      · exact balanced
      · rcases List.mem_append.mp below with inLeft | inRight
        · exact ihLeft balanced.2.2.1 inLeft
        · exact ihRight balanced.2.2.2 inRight

theorem balanced_nodeOn {side : Bool} {value : α} {child other : BinaryTree α} :
    (nodeOn side value child other).Balanced ↔ child.height ≤ other.height + 1 ∧
      other.height ≤ child.height + 1 ∧ child.Balanced ∧ other.Balanced := by
  cases side
  · exact ⟨fun ⟨a, b, c, d⟩ => ⟨b, a, d, c⟩, fun ⟨a, b, c, d⟩ => ⟨b, a, d, c⟩⟩
  · exact Iff.rfl

/-- The higher child by two, as it is rotated. -/
theorem balanceOn_tall (side : Bool) (value : α) {child other : BinaryTree α}
    (balanced : child.Balanced) (otherBalanced : other.Balanced)
    (tall : child.height = other.height + 2) :
    (balanceOn side value child other).Balanced ∧
      child.height ≤ (balanceOn side value child other).height ∧
      (balanceOn side value child other).height ≤ child.height + 1 ∧
      ((leansTo side child = true ∨ leansTo (!side) child = true) →
        (balanceOn side value child other).height = child.height) := by
  rcases exists_nodeOn (!side) (ne_nil_of_height (by omega : 0 < child.height)) with
    ⟨pivot, inner, outer, rfl⟩
  rcases balanced_nodeOn.mp balanced with ⟨innerLe, outerLe, innerBalanced, outerBalanced⟩
  rw [height_nodeOn] at tall
  have leansIn := leansTo_nodeOn (!side) pivot inner outer
  have leansOut : leansTo side (nodeOn (!side) pivot inner outer) =
      decide (inner.height < outer.height) := by
    rw [nodeOn_not]
    exact leansTo_nodeOn side pivot outer inner
  unfold balanceOn straighten
  rw [height_nodeOn, if_pos (by omega), leansIn, leansOut]
  by_cases isInner : outer.height < inner.height
  · rcases exists_nodeOn side (ne_nil_of_height (by omega : 0 < inner.height)) with
      ⟨middle, low, high, rfl⟩
    rcases balanced_nodeOn.mp innerBalanced with ⟨lowLe, highLe, lowBalanced, highBalanced⟩
    rw [height_nodeOn] at isInner innerLe outerLe tall
    have lifted : rotate side (nodeOn (!side) pivot (nodeOn side middle low high) outer) =
        nodeOn side middle (nodeOn (!side) pivot low outer) high := by
      have rotated := rotate_nodeOn (!side) pivot middle low high outer
      rwa [Bool.not_not] at rotated
    rw [if_pos (by simpa using isInner), lifted, ← nodeOn_not side middle, rotate_nodeOn]
    simp only [balanced_nodeOn, height_nodeOn]
    refine ⟨⟨?_, ?_, ⟨?_, ?_, highBalanced, otherBalanced⟩, ?_, ?_, lowBalanced, outerBalanced⟩,
      ?_, ?_, fun _ => ?_⟩
    all_goals omega
  · rw [if_neg (by simpa using isInner), rotate_nodeOn]
    simp only [balanced_nodeOn, height_nodeOn, decide_eq_true_eq]
    refine ⟨⟨?_, ?_, ⟨?_, ?_, innerBalanced, otherBalanced⟩, outerBalanced⟩, ?_, ?_, fun _ => ?_⟩
    all_goals omega

/-- Rebalancing works when one child has grown or shrunk by one. -/
theorem balanced_balanceOn (side : Bool) (value : α) {child other : BinaryTree α}
    (balanced : child.Balanced) (otherBalanced : other.Balanced)
    (childLe : child.height ≤ other.height + 2) (otherLe : other.height ≤ child.height + 2) :
    (balanceOn side value child other).Balanced ∧
      max child.height other.height ≤ (balanceOn side value child other).height ∧
      (balanceOn side value child other).height ≤ max child.height other.height + 1 := by
  by_cases childTall : child.height = other.height + 2
  · rcases balanceOn_tall side value balanced otherBalanced childTall with
      ⟨isBalanced, lower, upper, _⟩
    exact ⟨isBalanced, by omega, by omega⟩
  by_cases otherTall : other.height = child.height + 2
  · rcases balanceOn_tall (!side) value otherBalanced balanced otherTall with
      ⟨isBalanced, lower, upper, _⟩
    rw [balanceOn_not] at isBalanced lower upper
    exact ⟨isBalanced, by omega, by omega⟩
  unfold balanceOn
  rw [if_neg (by omega), if_neg (by omega)]
  simp only [balanced_nodeOn, height_nodeOn]
  exact ⟨⟨by omega, by omega, balanced, otherBalanced⟩, by omega, by omega⟩

/-- A balanced tree of some height has at least a Fibonacci number of nodes. -/
theorem Balanced.fib_le {tree : BinaryTree α} (balanced : tree.Balanced) :
    Nat.fib (tree.height + 2) ≤ tree.numNodes + 1 := by
  induction tree with
  | nil => simp
  | node value left right ihLeft ihRight =>
      rcases balanced with ⟨leftLe, rightLe, leftBalanced, rightBalanced⟩
      specialize ihLeft leftBalanced
      specialize ihRight rightBalanced
      rw [height, numNodes]
      have fibEq : Nat.fib (max left.height right.height + 1 + 2) =
          Nat.fib (max left.height right.height + 1) +
            Nat.fib (max left.height right.height + 2) := Nat.fib_add_two
      rw [fibEq]
      rcases le_total left.height right.height with rightHigh | leftHigh
      · rw [max_eq_right rightHigh]
        have low : Nat.fib (right.height + 1) ≤ Nat.fib (left.height + 2) :=
          Nat.fib_mono (by omega)
        omega
      · rw [max_eq_left leftHigh]
        have low : Nat.fib (left.height + 1) ≤ Nat.fib (right.height + 2) :=
          Nat.fib_mono (by omega)
        omega

/-! ## Building a balanced tree -/

/-- The balanced tree of `count` items from `start` on, the middle one at the root. -/
def ofRange (item : Nat → α) : Nat → Nat → BinaryTree α
  | 0, _ => nil
  | rest + 1, start =>
      node (item (start + rest / 2)) (ofRange item (rest / 2) start)
        (ofRange item (rest - rest / 2) (start + rest / 2 + 1))
termination_by count => count

theorem toList_ofRange (item : Nat → α) (count start : Nat) :
    (ofRange item count start).toList = (List.range' start count).map item := by
  induction count, start using ofRange.induct with
  | case1 start => simp [ofRange, toList]
  | case2 rest start ihLeft ihRight =>
      have split : List.range' start (rest + 1) = List.range' start (rest / 2) ++
          (start + rest / 2) :: List.range' (start + rest / 2 + 1) (rest - rest / 2) := by
        rw [show rest + 1 = rest / 2 + (rest - rest / 2 + 1) by omega, ← List.range'_append_1,
          List.range'_succ]
      rw [ofRange, toList, ihLeft, ihRight, split, List.map_append, List.map_cons]

theorem height_ofRange_le (item : Nat → α) (count start : Nat) {height : Nat} :
    (ofRange item count start).height ≤ height ↔ count < 2 ^ height := by
  induction count, start using ofRange.induct generalizing height with
  | case1 start => simp [ofRange, BinaryTree.height]
  | case2 rest start ihLeft ihRight =>
      rw [ofRange, BinaryTree.height]
      cases height with
      | zero => simp
      | succ height =>
          rw [Nat.succ_le_succ_iff, max_le_iff, ihLeft, ihRight, pow_succ]
          omega

theorem balanced_ofRange (item : Nat → α) (count start : Nat) :
    (ofRange item count start).Balanced := by
  induction count, start using ofRange.induct with
  | case1 start => simp [ofRange, Balanced]
  | case2 rest start ihLeft ihRight =>
      have leftLt := (height_ofRange_le item (rest / 2) start).mp (le_refl _)
      have rightLt :=
        (height_ofRange_le item (rest - rest / 2) (start + rest / 2 + 1)).mp (le_refl _)
      rw [ofRange]
      refine ⟨?_, ?_, ihLeft, ihRight⟩
      · rw [height_ofRange_le, pow_succ]
        omega
      · rw [height_ofRange_le, pow_succ]
        omega

/-! ## The way up -/

/-- A node above the focus, with its other child. -/
structure Frame (α : Type u) where
  onLeft : Bool
  value : α
  sibling : BinaryTree α

namespace Frame

/-- The node of a frame over a tree at its focus. -/
def plug (frame : Frame α) (tree : BinaryTree α) : BinaryTree α :=
  nodeOn frame.onLeft frame.value tree frame.sibling

/-- The same, rebalanced. -/
def rebalance (frame : Frame α) (tree : BinaryTree α) : BinaryTree α :=
  balanceOn frame.onLeft frame.value tree frame.sibling

/-- What a frame has to the left of its focus. -/
def before (frame : Frame α) : List α :=
  if frame.onLeft then [] else frame.sibling.toList ++ [frame.value]

/-- What a frame has to the right of its focus. -/
def after (frame : Frame α) : List α :=
  if frame.onLeft then frame.value :: frame.sibling.toList else []

theorem toList_plug (frame : Frame α) (tree : BinaryTree α) :
    (frame.plug tree).toList = frame.before ++ tree.toList ++ frame.after := by
  rcases frame with ⟨onLeft, value, sibling⟩
  cases onLeft <;> simp [plug, before, after, nodeOn, toList]

/-- A frame whose focus grows or shrinks by one does so itself at most. -/
theorem balanced_rebalance {frame : Frame α} {tree tree' : BinaryTree α}
    (balanced : (frame.plug tree).Balanced) (balanced' : tree'.Balanced)
    (shrunk : tree.height ≤ tree'.height + 1) (grown : tree'.height ≤ tree.height + 1) :
    (frame.rebalance tree').Balanced ∧
      (frame.plug tree).height ≤ (frame.rebalance tree').height + 1 ∧
      (frame.rebalance tree').height ≤ (frame.plug tree).height + 1 := by
  rcases balanced_nodeOn.mp balanced with ⟨treeLe, siblingLe, _, siblingBalanced⟩
  rcases balanced_balanceOn frame.onLeft frame.value balanced'
    siblingBalanced (by omega) (by omega) with ⟨isBalanced, lower, upper⟩
  refine ⟨isBalanced, ?_⟩
  rw [plug, height_nodeOn, rebalance]
  by_cases tall : tree'.height = frame.sibling.height + 2 ∨
      frame.sibling.height = tree'.height + 2
  · omega
  · have kept : balanceOn frame.onLeft frame.value tree' frame.sibling =
        nodeOn frame.onLeft frame.value tree' frame.sibling := by
      rw [balanceOn, if_neg (by omega), if_neg (by omega)]
    rw [kept, height_nodeOn]
    omega

/-- A frame whose focus shrinks does not grow. -/
theorem height_rebalance_le {frame : Frame α} {tree tree' : BinaryTree α}
    (balanced : (frame.plug tree).Balanced) (balanced' : tree'.Balanced)
    (shrunk : tree.height ≤ tree'.height + 1) (le : tree'.height ≤ tree.height) :
    (frame.rebalance tree').height ≤ (frame.plug tree).height := by
  rcases balanced_nodeOn.mp balanced with ⟨treeLe, siblingLe, _, siblingBalanced⟩
  rcases balanced_balanceOn frame.onLeft frame.value balanced' siblingBalanced (by omega)
    (by omega) with ⟨_, _, upper⟩
  rw [plug, height_nodeOn, rebalance]
  omega

end Frame

/-- The tree around a focus; the innermost frame comes first. -/
def plug (frames : List (Frame α)) (tree : BinaryTree α) : BinaryTree α :=
  frames.foldl (fun tree frame => frame.plug tree) tree

/-- The tree around a focus, rebalanced all the way up. -/
def rebalance (frames : List (Frame α)) (tree : BinaryTree α) : BinaryTree α :=
  frames.foldl (fun tree frame => frame.rebalance tree) tree

/-- What is to the left of the focus. -/
def before : List (Frame α) → List α
  | [] => []
  | frame :: frames => before frames ++ frame.before

/-- What is to the right of the focus. -/
def after : List (Frame α) → List α
  | [] => []
  | frame :: frames => frame.after ++ after frames

theorem toList_plug (frames : List (Frame α)) (tree : BinaryTree α) :
    (plug frames tree).toList = before frames ++ tree.toList ++ after frames := by
  induction frames generalizing tree with
  | nil => simp [plug, before, after]
  | cons frame frames ih =>
      rw [plug, List.foldl_cons, ← plug, ih, frame.toList_plug]
      simp [before, after]

theorem toList_rebalance (frames : List (Frame α)) (tree : BinaryTree α) :
    (rebalance frames tree).toList = before frames ++ tree.toList ++ after frames := by
  induction frames generalizing tree with
  | nil => simp [rebalance, before, after]
  | cons frame frames ih =>
      rw [rebalance, List.foldl_cons, ← rebalance, ih, Frame.rebalance, toList_balanceOn,
        ← Frame.plug, frame.toList_plug]
      simp [before, after]

theorem before_append (inner outer : List (Frame α)) :
    before (inner ++ outer) = before outer ++ before inner := by
  induction inner with
  | nil => simp [before]
  | cons frame inner ih => simp [before, ih]

theorem after_append (inner outer : List (Frame α)) :
    after (inner ++ outer) = after inner ++ after outer := by
  induction inner with
  | nil => simp [after]
  | cons frame inner ih => simp [after, ih]

theorem Balanced.of_plug {frames : List (Frame α)} {tree : BinaryTree α}
    (balanced : (plug frames tree).Balanced) : tree.Balanced := by
  induction frames generalizing tree with
  | nil => exact balanced
  | cons frame frames ih => exact (balanced_nodeOn.mp (ih balanced)).2.2.1

/-- Rebalancing works when the tree at the focus grows or shrinks by one. -/
theorem balanced_rebalance {frames : List (Frame α)} {tree tree' : BinaryTree α}
    (balanced : (plug frames tree).Balanced) (balanced' : tree'.Balanced)
    (shrunk : tree.height ≤ tree'.height + 1) (grown : tree'.height ≤ tree.height + 1) :
    (rebalance frames tree').Balanced ∧
      (rebalance frames tree').height ≤ (plug frames tree).height + 1 := by
  induction frames generalizing tree tree' with
  | nil => exact ⟨balanced', grown⟩
  | cons frame frames ih =>
      have around : (plug frames (frame.plug tree)).Balanced := balanced
      rcases Frame.balanced_rebalance around.of_plug balanced' shrunk grown with
        ⟨isBalanced, shrunk', grown'⟩
      exact ih around isBalanced shrunk' grown'

/-- Rebalancing a balanced tree changes nothing. -/
theorem rebalance_eq_plug {frames : List (Frame α)} {tree : BinaryTree α}
    (balanced : (plug frames tree).Balanced) : rebalance frames tree = plug frames tree := by
  induction frames generalizing tree with
  | nil => rfl
  | cons frame frames ih =>
      have around : (plug frames (frame.plug tree)).Balanced := balanced
      rcases balanced_nodeOn.mp around.of_plug with ⟨treeLe, siblingLe, _, _⟩
      have kept : frame.rebalance tree = frame.plug tree := by
        rw [Frame.rebalance, balanceOn, if_neg (by omega), if_neg (by omega)]
        rfl
      rw [rebalance, List.foldl_cons, kept]
      exact ih around

/-- A tree of the same height may take the place of a tree at the focus. -/
theorem balanced_plug_congr {frames : List (Frame α)} {tree tree' : BinaryTree α}
    (balanced : (plug frames tree).Balanced) (balanced' : tree'.Balanced)
    (sameHeight : tree'.height = tree.height) :
    (plug frames tree').Balanced ∧ (plug frames tree').height = (plug frames tree).height := by
  induction frames generalizing tree tree' with
  | nil => exact ⟨balanced', sameHeight⟩
  | cons frame frames ih =>
      have around : (plug frames (frame.plug tree)).Balanced := balanced
      rcases balanced_nodeOn.mp around.of_plug with ⟨treeLe, siblingLe, _, siblingBalanced⟩
      refine ih around ?_ ?_
      · exact balanced_nodeOn.mpr ⟨by omega, by omega, balanced', siblingBalanced⟩
      · change (nodeOn frame.onLeft frame.value tree' frame.sibling).height =
          (nodeOn frame.onLeft frame.value tree frame.sibling).height
        rw [height_nodeOn, height_nodeOn, sameHeight]

theorem plug_append (inner outer : List (Frame α)) (tree : BinaryTree α) :
    plug (inner ++ outer) tree = plug outer (plug inner tree) :=
  List.foldl_append

/-- The way down to the first value. -/
def leftmost : BinaryTree α → List (Frame α) → α → BinaryTree α →
    List (Frame α) × α × BinaryTree α
  | nil, frames, value, right => (frames, value, right)
  | node value' left' right', frames, value, right =>
      leftmost left' (⟨true, value, right⟩ :: frames) value' right'

theorem plug_leftmost (left : BinaryTree α) (frames : List (Frame α)) (value : α)
    (right : BinaryTree α) :
    plug (leftmost left frames value right).1
      (node (leftmost left frames value right).2.1 nil (leftmost left frames value right).2.2) =
        plug frames (node value left right) := by
  induction left generalizing frames value right with
  | nil => rfl
  | node value' left' right' ihLeft _ => exact ihLeft _ _ _

theorem before_leftmost (left : BinaryTree α) (frames : List (Frame α)) (value : α)
    (right : BinaryTree α) : before (leftmost left frames value right).1 = before frames := by
  induction left generalizing frames value right with
  | nil => rfl
  | node value' left' right' ihLeft _ =>
      rw [leftmost, ihLeft]
      simp [before, Frame.before]

theorem leftmost_append (left : BinaryTree α) (frames frames' : List (Frame α)) (value : α)
    (right : BinaryTree α) : leftmost left (frames ++ frames') value right =
      ((leftmost left frames value right).1 ++ frames', (leftmost left frames value right).2) := by
  induction left generalizing frames value right with
  | nil => rfl
  | node value' left' right' ihLeft _ => exact ihLeft (⟨true, value, right⟩ :: frames) _ _

/-- Take the root out at a focus: with two children, the next value takes its place. -/
def cutRoot : List (Frame α) → BinaryTree α → List (Frame α) × BinaryTree α
  | frames, nil => (frames, nil)
  | frames, node _ nil right => (frames, right)
  | frames, node _ left nil => (frames, left)
  | frames, node _ left (node value left' right') =>
      ((leftmost left' [] value right').1 ++
        ⟨false, (leftmost left' [] value right').2.1, left⟩ :: frames,
        (leftmost left' [] value right').2.2)

/-- What is left at the focus has lost a level at most. -/
theorem balanced_cutRoot {frames : List (Frame α)} {tree : BinaryTree α}
    (balanced : (plug frames tree).Balanced) : ∃ spare,
      (plug (cutRoot frames tree).1 spare).Balanced ∧ (cutRoot frames tree).2.Balanced ∧
      (plug (cutRoot frames tree).1 spare).height = (plug frames tree).height ∧
      (cutRoot frames tree).2.height ≤ spare.height ∧
      spare.height ≤ (cutRoot frames tree).2.height + 1 := by
  rcases tree with _ | ⟨value, left, right⟩
  · exact ⟨nil, balanced, trivial, rfl, le_refl _, Nat.le_succ _⟩
  rcases balanced.of_plug with ⟨leftLe, rightLe, leftBalanced, rightBalanced⟩
  rcases left with _ | ⟨leftValue, leftLeft, leftRight⟩
  · refine ⟨node value nil right, balanced, rightBalanced, rfl, ?_, ?_⟩ <;> simp [cutRoot, height]
  rcases right with _ | ⟨rightValue, rightLeft, rightRight⟩
  · refine ⟨node value (node leftValue leftLeft leftRight) nil, balanced, leftBalanced, rfl,
      ?_, ?_⟩ <;> simp [cutRoot, height]
  · have plugged := plug_leftmost rightLeft [] rightValue rightRight
    simp only [cutRoot]
    generalize leftmost rightLeft [] rightValue rightRight = outcome at plugged ⊢
    rcases outcome with ⟨inner, next, rest⟩
    dsimp only at plugged ⊢
    have innerBalanced : (plug inner (node next nil rest)).Balanced := plugged ▸ rightBalanced
    have whole : plug (inner ++ ⟨false, next, node leftValue leftLeft leftRight⟩ :: frames)
        (node next nil rest) = plug frames (node next (node leftValue leftLeft leftRight)
          (node rightValue rightLeft rightRight)) := by
      rw [plug_append, plugged]
      rfl
    have renamed : (node next (node leftValue leftLeft leftRight)
        (node rightValue rightLeft rightRight)).Balanced := balanced.of_plug
    have sameShape := balanced_plug_congr balanced renamed rfl
    refine ⟨node next nil rest, whole ▸ sameShape.1, innerBalanced.of_plug.2.2.2,
      by rw [whole, sameShape.2], ?_, ?_⟩ <;> simp [height]

/-! ## Search trees -/

section Search

variable {κ : Type u} {ν : Type v} [LinearOrder κ]

/-- The keys ascend from left to right. -/
def Ordered (tree : BinaryTree (κ × ν)) : Prop := (tree.toList.map Prod.fst).Pairwise (· < ·)

/-- Go down to the node of a key, or to where it would be. -/
def descend (key : κ) : BinaryTree (κ × ν) → List (Frame (κ × ν)) →
    List (Frame (κ × ν)) × BinaryTree (κ × ν)
  | nil, frames => (frames, nil)
  | node entry left right, frames =>
      if key = entry.1 then (frames, node entry left right)
      else if key < entry.1 then descend key left (⟨true, entry, right⟩ :: frames)
      else descend key right (⟨false, entry, left⟩ :: frames)

/-- The value of a key. -/
def lookup (key : κ) (tree : BinaryTree (κ × ν)) : Option ν :=
  match (descend key tree []).2 with
  | nil => none
  | node entry _ _ => some entry.2

/-- Add a new key. -/
def insertNew (key : κ) (value : ν) (tree : BinaryTree (κ × ν)) : BinaryTree (κ × ν) :=
  rebalance (descend key tree []).1 (node (key, value) nil nil)

/-- Change the value of a key. -/
def replace (key : κ) (value : ν) (tree : BinaryTree (κ × ν)) : BinaryTree (κ × ν) :=
  match descend key tree [] with
  | (frames, nil) => plug frames nil
  | (frames, node entry left right) => plug frames (node (entry.1, value) left right)

/-- Remove a key; a node with two children takes over the next entry. -/
def remove (key : κ) (tree : BinaryTree (κ × ν)) : BinaryTree (κ × ν) :=
  match descend key tree [] with
  | (frames, nil) => rebalance frames nil
  | (frames, node _ nil right) => rebalance frames right
  | (frames, node _ left nil) => rebalance frames left
  | (frames, node _ left (node value left' right')) =>
      rebalance ((leftmost left' [] value right').1 ++
        ⟨false, (leftmost left' [] value right').2.1, left⟩ :: frames)
        (leftmost left' [] value right').2.2

theorem remove_eq_cutRoot (key : κ) (tree : BinaryTree (κ × ν)) :
    remove key tree = rebalance
      (cutRoot (descend key tree []).1 (descend key tree []).2).1
      (cutRoot (descend key tree []).1 (descend key tree []).2).2 := by
  unfold remove
  split <;> rename_i focusEq
  · rw [focusEq, cutRoot]
  · rw [focusEq, cutRoot]
  · rename_i notNil
    rw [focusEq, cutRoot]
    exact notNil
  · rename_i notNil
    rw [focusEq, cutRoot]
    exact notNil

variable {key : κ} {tree : BinaryTree (κ × ν)}

theorem plug_descend (key : κ) (tree : BinaryTree (κ × ν)) (frames : List (Frame (κ × ν))) :
    plug (descend key tree frames).1 (descend key tree frames).2 = plug frames tree := by
  induction tree generalizing frames with
  | nil => rfl
  | node entry left right ihLeft ihRight =>
      unfold descend
      split
      · rfl
      · split
        · exact ihLeft _
        · exact ihRight _

theorem descend_root (key : κ) (tree : BinaryTree (κ × ν)) (frames : List (Frame (κ × ν))) :
    (descend key tree frames).2 = nil ∨
      ∃ value left right, (descend key tree frames).2 = node (key, value) left right := by
  induction tree generalizing frames with
  | nil => exact Or.inl rfl
  | node entry left right ihLeft ihRight =>
      unfold descend
      split
      · rename_i isKey
        subst isKey
        exact Or.inr ⟨entry.2, left, right, rfl⟩
      · split
        · exact ihLeft _
        · exact ihRight _

/-- The way down takes a node for every level. -/
theorem length_descend (key : κ) (tree : BinaryTree (κ × ν)) (frames : List (Frame (κ × ν))) :
    (descend key tree frames).1.length + (descend key tree frames).2.height ≤
      frames.length + tree.height := by
  induction tree generalizing frames with
  | nil => exact Nat.le_refl _
  | node entry left right ihLeft ihRight =>
      unfold descend
      split
      · exact Nat.le_refl _
      · split
        · refine (ihLeft _).trans ?_
          simp only [List.length_cons, height]
          omega
        · refine (ihRight _).trans ?_
          simp only [List.length_cons, height]
          omega

/-- The keys on both sides of the focus are smaller and greater than the given key. -/
def Between (key : κ) (frames : List (Frame (κ × ν))) : Prop :=
  (∀ entry ∈ before frames, entry.1 < key) ∧ ∀ entry ∈ after frames, key < entry.1

theorem ordered_node {entry : κ × ν} {left right : BinaryTree (κ × ν)} :
    (node entry left right).Ordered ↔ left.Ordered ∧ right.Ordered ∧
      (∀ entry' ∈ left.toList, entry'.1 < entry.1) ∧ ∀ entry' ∈ right.toList, entry.1 < entry'.1 := by
  simp only [Ordered, toList, List.map_append, List.map_cons, List.pairwise_append,
    List.pairwise_cons, List.mem_map, List.mem_cons]
  constructor
  · rintro ⟨ordered, ⟨right, ordered'⟩, across⟩
    exact ⟨ordered, ordered', fun entry' mem => across _ ⟨entry', mem, rfl⟩ _ (Or.inl rfl),
      fun entry' mem => right _ ⟨entry', mem, rfl⟩⟩
  · rintro ⟨ordered, ordered', left, right⟩
    refine ⟨ordered, ⟨?_, ordered'⟩, ?_⟩
    · rintro _ ⟨entry', mem, rfl⟩
      exact right entry' mem
    · rintro _ ⟨entry', mem, rfl⟩ _ (rfl | ⟨entry'', mem', rfl⟩)
      · exact left entry' mem
      · exact (left entry' mem).trans (right entry'' mem')

theorem between_descend {frames : List (Frame (κ × ν))} (ordered : tree.Ordered)
    (between : Between key frames) : Between key (descend key tree frames).1 := by
  induction tree generalizing frames with
  | nil => exact between
  | node entry left right ihLeft ihRight =>
      rcases ordered_node.mp ordered with ⟨leftOrdered, rightOrdered, leftLt, rightGt⟩
      unfold descend
      split
      · exact between
      rename_i notKey
      split
      · rename_i isBefore
        refine ihLeft leftOrdered ⟨?_, ?_⟩
        · simpa [before, Frame.before] using between.1
        · intro entry' mem
          simp only [after, Frame.after, if_true, List.cons_append, List.mem_cons,
            List.mem_append] at mem
          rcases mem with rfl | inRight | outside
          · exact isBefore
          · exact isBefore.trans (rightGt entry' inRight)
          · exact between.2 entry' outside
      · rename_i notBefore
        have isAfter : entry.1 < key := lt_of_le_of_ne (not_lt.mp notBefore) (Ne.symm notKey)
        refine ihRight rightOrdered ⟨?_, ?_⟩
        · intro entry' mem
          simp only [before, Frame.before, Bool.false_eq_true, if_false, List.mem_append,
            List.mem_cons, List.not_mem_nil, or_false] at mem
          rcases mem with outside | inLeft | rfl
          · exact between.1 entry' outside
          · exact (leftLt entry' inLeft).trans isAfter
          · exact isAfter
        · simpa [after, Frame.after] using between.2

theorem between_nil (key : κ) : Between key ([] : List (Frame (κ × ν))) := by
  constructor
  · intro entry mem
    cases mem
  · intro entry mem
    cases mem

theorem Ordered.of_toList {tree' : BinaryTree (κ × ν)} (ordered : tree.Ordered)
    (sub : tree'.toList.Sublist tree.toList) : tree'.Ordered :=
  List.Pairwise.sublist (sub.map Prod.fst) ordered

/-- The focus of a key: its node, if there is one. -/
theorem focus_cases (key : κ) (ordered : tree.Ordered) : ∃ frames, Between key frames ∧
    frames.length ≤ tree.height ∧ (descend key tree []).1 = frames ∧
    (((descend key tree []).2 = nil ∧ tree = plug frames nil ∧ tree.lookup key = none) ∨
      ∃ value left right, (descend key tree []).2 = node (key, value) left right ∧
        tree = plug frames (node (key, value) left right) ∧ tree.lookup key = some value ∧
        frames.length + max left.height right.height + 1 ≤ tree.height) := by
  have between := between_descend ordered (between_nil key)
  have plugged := plug_descend key tree []
  have levels := length_descend key tree []
  rw [List.length_nil, Nat.zero_add] at levels
  refine ⟨_, between, by omega, rfl, ?_⟩
  rcases descend_root key tree [] with empty | ⟨value, left, right, found⟩
  · rw [empty] at plugged
    exact Or.inl ⟨empty, plugged.symm, by rw [lookup, empty]⟩
  · rw [found] at plugged levels
    rw [height] at levels
    exact Or.inr ⟨value, left, right, found, plugged.symm, by rw [lookup, found], by omega⟩

theorem lookup_eq_some_iff (ordered : tree.Ordered) {value : ν} :
    tree.lookup key = some value ↔ (key, value) ∈ tree.toList := by
  rcases focus_cases key ordered with ⟨frames, between, _, _, focus⟩
  have outside : (key, value) ∉ before frames ∧ (key, value) ∉ after frames :=
    ⟨fun mem => lt_irrefl _ (between.1 _ mem), fun mem => lt_irrefl _ (between.2 _ mem)⟩
  rcases focus with ⟨_, treeEq, absent⟩ | ⟨value', left, right, _, treeEq, found, _⟩
  · rw [absent, treeEq, toList_plug]
    simp [toList, outside]
  · rw [found, treeEq, toList_plug]
    have focusOrdered : (node (key, value') left right).Ordered := by
      refine ordered.of_toList ?_
      rw [treeEq, toList_plug, List.append_assoc]
      exact (List.sublist_append_left _ _).trans (List.sublist_append_right _ _)
    rcases ordered_node.mp focusOrdered with ⟨_, _, leftLt, rightGt⟩
    have inside : (key, value) ∉ left.toList ∧ (key, value) ∉ right.toList :=
      ⟨fun mem => lt_irrefl key (leftLt (key, value) mem),
        fun mem => lt_irrefl key (rightGt (key, value) mem)⟩
    simp only [toList, List.mem_append, List.mem_cons, outside, inside, false_or, or_false,
      Prod.mk.injEq, true_and, Option.some.injEq]
    exact eq_comm

/-- Trees that differ in one key. -/
theorem lookup_eq_update {tree' : BinaryTree (κ × ν)} (ordered : tree.Ordered)
    (ordered' : tree'.Ordered) {outcome : Option ν}
    (here : ∀ value, (key, value) ∈ tree'.toList ↔ outcome = some value)
    (elsewhere : ∀ entry, entry.1 ≠ key → (entry ∈ tree'.toList ↔ entry ∈ tree.toList)) :
    (fun key' => tree'.lookup key') = Function.update (fun key' => tree.lookup key') key outcome := by
  funext key'
  by_cases same : key' = key
  · subst same
    rw [Function.update_self]
    refine Option.ext ?_
    intro value
    rw [lookup_eq_some_iff ordered', here]
  · rw [Function.update_of_ne same]
    refine Option.ext ?_
    intro value
    rw [lookup_eq_some_iff ordered', lookup_eq_some_iff ordered]
    exact elsewhere (key', value) same

theorem pairwise_insert {before after : List (κ × ν)} {value : ν}
    (ordered : ((before ++ after).map Prod.fst).Pairwise (· < ·))
    (beforeLt : ∀ entry ∈ before, entry.1 < key) (afterGt : ∀ entry ∈ after, key < entry.1) :
    ((before ++ (key, value) :: after).map Prod.fst).Pairwise (· < ·) := by
  simp only [List.map_append, List.map_cons, List.pairwise_append, List.pairwise_cons, List.mem_map,
    List.mem_cons] at ordered ⊢
  rcases ordered with ⟨beforeOrdered, afterOrdered, across⟩
  refine ⟨beforeOrdered, ⟨?_, afterOrdered⟩, ?_⟩
  · rintro _ ⟨entry, mem, rfl⟩
    exact afterGt entry mem
  · rintro _ ⟨entry, mem, rfl⟩ _ (rfl | inAfter)
    · exact beforeLt entry mem
    · exact across _ ⟨entry, mem, rfl⟩ _ inAfter

/-- Adding a key. -/
theorem insertNew_spec (ordered : tree.Ordered) (balanced : tree.Balanced)
    (absent : tree.lookup key = none) (value : ν) :
    (insertNew key value tree).Ordered ∧ (insertNew key value tree).Balanced ∧
      (insertNew key value tree).numNodes = tree.numNodes + 1 ∧
      (fun key' => (insertNew key value tree).lookup key') =
        Function.update (fun key' => tree.lookup key') key (some value) := by
  rcases focus_cases key ordered with ⟨frames, between, _, framesEq, focus⟩
  rcases focus with ⟨_, treeEq, _⟩ | ⟨_, _, _, _, _, found, _⟩
  · have listEq : (insertNew key value tree).toList =
        before frames ++ (key, value) :: after frames := by
      rw [insertNew, framesEq, toList_rebalance]
      simp [toList]
    have oldList : tree.toList = before frames ++ after frames := by
      rw [treeEq, toList_plug]
      simp [toList]
    have ordered' : (insertNew key value tree).Ordered := by
      rw [Ordered, oldList] at ordered
      rw [Ordered, listEq]
      exact pairwise_insert ordered between.1 between.2
    refine ⟨ordered', ?_, ?_, ?_⟩
    · rw [insertNew, framesEq]
      have around : (plug frames nil).Balanced := treeEq ▸ balanced
      refine (balanced_rebalance around ?_ ?_ ?_).1
      · exact ⟨Nat.zero_le _, Nat.zero_le _, trivial, trivial⟩
      · exact Nat.zero_le _
      · exact Nat.le_refl _
    · rw [← length_toList, ← length_toList, listEq, oldList]
      simp only [List.length_append, List.length_cons]
      omega
    · refine lookup_eq_update ordered ordered' ?_ ?_
      · intro value'
        rw [listEq]
        have outside : (key, value') ∉ before frames ∧ (key, value') ∉ after frames :=
          ⟨fun mem => lt_irrefl _ (between.1 _ mem), fun mem => lt_irrefl _ (between.2 _ mem)⟩
        simp [outside, eq_comm]
      · intro entry differs
        have notNew : entry ≠ (key, value) := fun same => differs (same ▸ rfl)
        rw [listEq, oldList]
        simp [notNew]
  · rw [absent] at found
    cases found

/-- Changing the value of a key. -/
theorem replace_spec (ordered : tree.Ordered) (balanced : tree.Balanced) {old : ν}
    (present : tree.lookup key = some old) (value : ν) :
    (replace key value tree).Ordered ∧ (replace key value tree).Balanced ∧
      (replace key value tree).numNodes = tree.numNodes ∧
      (fun key' => (replace key value tree).lookup key') =
        Function.update (fun key' => tree.lookup key') key (some value) := by
  rcases focus_cases key ordered with ⟨frames, between, _, framesEq, focus⟩
  rcases focus with ⟨_, _, absent⟩ | ⟨value', left, right, focusEq, treeEq, _, _⟩
  · rw [present] at absent
    cases absent
  · have result : replace key value tree = plug frames (node (key, value) left right) := by
      have whole : descend key tree [] = (frames, node (key, value') left right) :=
        Prod.ext framesEq focusEq
      rw [replace, whole]
    have oldList : tree.toList =
        (before frames ++ left.toList) ++ (key, value') :: (right.toList ++ after frames) := by
      rw [treeEq, toList_plug]
      simp [toList]
    have listEq : (replace key value tree).toList =
        (before frames ++ left.toList) ++ (key, value) :: (right.toList ++ after frames) := by
      rw [result, toList_plug]
      simp [toList]
    have ordered' : (replace key value tree).Ordered := by
      rw [Ordered, oldList] at ordered
      rw [Ordered, listEq]
      simpa using ordered
    refine ⟨ordered', ?_, ?_, ?_⟩
    · have around : (plug frames (node (key, value') left right)).Balanced := treeEq ▸ balanced
      have inner : (node (key, value) left right).Balanced := around.of_plug
      rw [result]
      exact (balanced_plug_congr around inner rfl).1
    · rw [← length_toList, ← length_toList, listEq, oldList]
      simp
    · have notElsewhere : ∀ value'', (key, value'') ∉ before frames ++ left.toList ∧
          (key, value'') ∉ right.toList ++ after frames := by
        intro value''
        rw [Ordered, oldList, List.map_append, List.map_cons, List.pairwise_append,
          List.pairwise_cons] at ordered
        refine ⟨fun mem => ?_, fun mem => ?_⟩
        · exact lt_irrefl key (ordered.2.2 key (List.mem_map.mpr ⟨_, mem, rfl⟩) key
            List.mem_cons_self)
        · exact lt_irrefl key (ordered.2.1.1 key (List.mem_map.mpr ⟨_, mem, rfl⟩))
      refine lookup_eq_update (treeEq ▸ ordered) ordered' ?_ ?_
      · intro value''
        rw [listEq, List.mem_append, List.mem_cons]
        simp only [notElsewhere value'', false_or, or_false, Prod.mk.injEq, true_and,
          Option.some.injEq]
        exact eq_comm
      · intro entry differs
        have notNew : entry ≠ (key, value) := fun same => differs (same ▸ rfl)
        have notOld : entry ≠ (key, value') := fun same => differs (same ▸ rfl)
        rw [listEq, oldList]
        simp [notNew, notOld]

/-- How a key is removed: its node, or the one of the next entry, is taken out at a focus. -/
theorem exists_removed (ordered : tree.Ordered) (balanced : tree.Balanced) {value : ν}
    (present : tree.lookup key = some value) : ∃ frames spare rest,
      remove key tree = rebalance frames rest ∧ rest.Balanced ∧
      (plug frames spare).Balanced ∧ (plug frames spare).height = tree.height ∧
      spare.height = rest.height + 1 ∧
      ∃ lower upper, tree.toList = lower ++ (key, value) :: upper ∧
        before frames ++ rest.toList ++ after frames = lower ++ upper := by
  rcases focus_cases key ordered with ⟨frames, between, _, framesEq, focus⟩
  rcases focus with ⟨_, _, absent⟩ | ⟨value', left, right, focusEq, treeEq, found, _⟩
  · rw [present] at absent
    cases absent
  have whole : descend key tree [] = (frames, node (key, value') left right) :=
    Prod.ext framesEq focusEq
  obtain rfl : value = value' := Option.some.inj (present.symm.trans found)
  have around : (plug frames (node (key, value) left right)).Balanced := treeEq ▸ balanced
  have oldList : tree.toList =
      (before frames ++ left.toList) ++ (key, value) :: (right.toList ++ after frames) := by
    rw [treeEq, toList_plug]
    simp [toList]
  rcases around.of_plug with ⟨leftLe, rightLe, leftBalanced, rightBalanced⟩
  rcases left with _ | ⟨leftValue, leftLeft, leftRight⟩
  · refine ⟨frames, node (key, value) nil right, right, by rw [remove, whole], rightBalanced,
      around, by rw [← treeEq], ?_, _, _, oldList, ?_⟩
    · simp
    · simp [toList]
  rcases right with _ | ⟨rightValue, rightLeft, rightRight⟩
  · refine ⟨frames, node (key, value) (node leftValue leftLeft leftRight) nil,
      node leftValue leftLeft leftRight, by rw [remove, whole], leftBalanced, around,
      by rw [← treeEq], ?_, _, _, oldList, ?_⟩
    · simp
    · simp [toList]
  · have plugged := plug_leftmost rightLeft [] rightValue rightRight
    have lefts := before_leftmost rightLeft [] rightValue rightRight
    have rightList := congrArg toList plugged
    generalize way : leftmost rightLeft [] rightValue rightRight = outcome at plugged lefts rightList
    rcases outcome with ⟨inner, next, rest⟩
    dsimp only at plugged lefts rightList
    have innerBalanced : (plug inner (node next nil rest)).Balanced := plugged ▸ rightBalanced
    rw [toList_plug, lefts] at rightList
    simp only [before, plug, List.foldl_nil, toList, List.nil_append] at rightList
    have whole' : plug (inner ++ ⟨false, next, node leftValue leftLeft leftRight⟩ :: frames)
        (node next nil rest) = plug frames (node next (node leftValue leftLeft leftRight)
          (node rightValue rightLeft rightRight)) := by
      rw [plug_append, plugged]
      rfl
    have renamed : (node next (node leftValue leftLeft leftRight)
        (node rightValue rightLeft rightRight)).Balanced := around.of_plug
    have sameShape := balanced_plug_congr around renamed rfl
    have result : remove key tree = rebalance
        (inner ++ ⟨false, next, node leftValue leftLeft leftRight⟩ :: frames) rest := by
      rw [remove, whole]
      dsimp only
      rw [way]
    refine ⟨inner ++ ⟨false, next, node leftValue leftLeft leftRight⟩ :: frames,
      node next nil rest, rest, result, innerBalanced.of_plug.2.2.2,
      whole' ▸ sameShape.1, by rw [whole', sameShape.2, ← treeEq], by simp, _, _, oldList, ?_⟩
    rw [before_append, after_append, lefts]
    simp only [before, after, Frame.before, Frame.after, toList, List.append_nil, List.append_assoc,
      List.nil_append, List.cons_append, Bool.false_eq_true, if_false]
    have shifted := congrArg (· ++ after frames) rightList
    simp only [List.append_assoc, List.cons_append] at shifted
    rw [shifted]

/-- Removing a key. -/
theorem remove_spec (key : κ) (ordered : tree.Ordered) (balanced : tree.Balanced) :
    (remove key tree).Ordered ∧ (remove key tree).Balanced ∧
      (remove key tree).numNodes ≤ tree.numNodes ∧
      (remove key tree).height ≤ tree.height + 1 ∧
      (fun key' => (remove key tree).lookup key') =
        Function.update (fun key' => tree.lookup key') key none := by
  rcases lookupEq : tree.lookup key with _ | value
  · rcases focus_cases key ordered with ⟨frames, between, _, framesEq, focus⟩
    rcases focus with ⟨focusEq, treeEq, _⟩ | ⟨_, _, _, _, _, found, _⟩
    · have whole : descend key tree [] = (frames, nil) := Prod.ext framesEq focusEq
      have same : remove key tree = tree := by
        have around : (plug frames nil).Balanced := treeEq ▸ balanced
        rw [remove, whole, treeEq]
        exact rebalance_eq_plug around
      rw [same]
      refine ⟨ordered, balanced, Nat.le_refl _, Nat.le_succ _, ?_⟩
      exact (Function.update_eq_self_iff.mpr lookupEq.symm).symm
    · rw [lookupEq] at found
      cases found
  · rcases exists_removed ordered balanced lookupEq with ⟨frames, spare, rest, result, restBalanced,
      around, heightEq, spareHeight, lower, upper, oldList, newList⟩
    have listEq : (remove key tree).toList = lower ++ upper := by
      rw [result, toList_rebalance, newList]
    have rebalanced := balanced_rebalance around restBalanced (by omega) (by omega)
    have ordered' : (remove key tree).Ordered := by
      refine ordered.of_toList ?_
      rw [listEq, oldList]
      exact (List.sublist_cons_self _ _).append_left lower
    rw [Ordered, oldList, List.map_append, List.map_cons, List.pairwise_append,
      List.pairwise_cons] at ordered
    refine ⟨ordered', result ▸ rebalanced.1, ?_, ?_, ?_⟩
    · rw [← length_toList, ← length_toList, listEq, oldList]
      simp
    · rw [result, ← heightEq]
      exact rebalanced.2
    · have gone : ∀ value', (key, value') ∉ lower ++ upper := by
        intro value' mem
        rcases List.mem_append.mp mem with inLower | inUpper
        · exact lt_irrefl key (ordered.2.2 key (List.mem_map.mpr ⟨_, inLower, rfl⟩) key
            List.mem_cons_self)
        · exact lt_irrefl key (ordered.2.1.1 key (List.mem_map.mpr ⟨_, inUpper, rfl⟩))
      refine lookup_eq_update ?_ ordered' ?_ ?_
      · rw [Ordered, oldList, List.map_append, List.map_cons, List.pairwise_append,
          List.pairwise_cons]
        exact ordered
      · intro value'
        rw [listEq]
        simp [gone]
      · intro entry differs
        have notOld : entry ≠ (key, value) := fun same => differs (same ▸ rfl)
        rw [listEq, oldList]
        simp [notOld]

end Search

end BinaryTree
