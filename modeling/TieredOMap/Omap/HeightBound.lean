import Mathlib.Analysis.SpecialFunctions.Log.Base
import TieredOMap.Omap.AvlMap
import TieredOMap.Tee.TeeAvlOmap

/-!
# The height bound of AVL trees

The constructors of `AVLOmap` and `TeeAvlOmap` bound the height of a tree by
`max(1, ceil(1.44 * log2(max(capacity, 2))))`. The model computes this number with integers
only; here it is shown to be the number that the formula gives over the reals.
-/

namespace TieredOmap

open BinaryTree

/-- `max(1, ceil(1.44 * log2(max(capacity, 2))))` over the reals. -/
noncomputable def realHeightBound (capacity : Int) : Int :=
  max 1 ⌈(1.44 : ℝ) * Real.logb 2 (max capacity 2 : Int)⌉

/-- A multiple of a logarithm is bounded by comparing powers. -/
theorem mul_logb_le_iff {n : Nat} (positive : 0 < n) (bound : Nat) :
    (1.44 : ℝ) * Real.logb 2 n ≤ bound ↔ n ^ 36 ≤ 2 ^ (25 * bound) := by
  have nPositive : (0 : ℝ) < n := by exact_mod_cast positive
  have scaled : (1.44 : ℝ) * Real.logb 2 n ≤ bound ↔
      Real.logb 2 ((n : ℝ) ^ 36) ≤ ((25 * bound : Nat) : ℝ) := by
    rw [Real.logb_pow]
    push_cast
    constructor <;> intro le <;> linarith
  rw [scaled, Real.logb_le_iff_le_rpow (by norm_num) (by positivity), Real.rpow_natCast]
  exact_mod_cast Iff.rfl

/-- The integer formula computes the bound exactly. -/
theorem maxHeightFor_eq (capacity : Int) :
    AVLOmap.maxHeightFor capacity = realHeightBound capacity := by
  obtain ⟨n, nEq⟩ : ∃ n : Nat, max capacity 2 = n :=
    ⟨_, (Int.toNat_of_nonneg (by omega)).symm⟩
  have nPositive : 0 < n := by omega
  have sameBounds : ∀ bound : Nat, ((ceilLog2 (max capacity 2 ^ 36) : Int) + 24) / 25 ≤ bound ↔
      ⌈(1.44 : ℝ) * Real.logb 2 (max capacity 2 : Int)⌉ ≤ (bound : Int) := by
    intro bound
    have real := mul_logb_le_iff nPositive bound
    have exact : ceilLog2 (max capacity 2 ^ 36) ≤ 25 * bound ↔ n ^ 36 ≤ 2 ^ (25 * bound) := by
      rw [ceilLog2_le_iff, nEq]
      exact_mod_cast Iff.rfl
    have above : ⌈(1.44 : ℝ) * Real.logb 2 (max capacity 2 : Int)⌉ ≤ (bound : Int) ↔
        n ^ 36 ≤ 2 ^ (25 * bound) := by
      rw [Int.ceil_le, nEq]
      exact_mod_cast real
    rw [above, ← exact]
    omega
  have logNonneg : (0 : ℝ) ≤ 1.44 * Real.logb 2 (max capacity 2 : Int) := by
    have atLeastOne : (1 : ℝ) ≤ ((max capacity 2 : Int) : ℝ) := by
      exact_mod_cast (by omega : (1 : Int) ≤ max capacity 2)
    have := Real.logb_nonneg (by norm_num : (1 : ℝ) < 2) atLeastOne
    linarith
  unfold AVLOmap.maxHeightFor realHeightBound
  congr 1
  refine le_antisymm ?_ ?_
  · have ceilNonneg := Int.ceil_nonneg logNonneg
    have bounded := (sameBounds
      ⌈(1.44 : ℝ) * Real.logb 2 (max capacity 2 : Int)⌉.toNat).mpr (by omega)
    omega
  · have bounded := (sameBounds (((ceilLog2 (max capacity 2 ^ 36) : Int) + 24) / 25).toNat).mp
      (by omega)
    omega

/-- The constructor of an AVL map sets `max_height_` to the bound. -/
theorem yields_new_maxHeight (capacity bucketSize : Int) :
    Yields (AVLOmap.new capacity bucketSize)
      (fun omap => omap.maxHeight = realHeightBound capacity) :=
  Prog.ends_bind (yields_any _) (fun _ _ => Prog.ends_pure (maxHeightFor_eq capacity))

/-- So does the one for split trees. -/
theorem yields_newSplit_maxHeight (capacity bucketSize splitDepth upperCapacity : Int) :
    Yields (AVLOmap.newSplit capacity bucketSize splitDepth upperCapacity)
      (fun omap => omap.maxHeight = realHeightBound capacity) := by
  refine Prog.ends_bind (yields_any _) (fun _ _ => ?_)
  exact Prog.ends_bind (yields_any _) (fun _ _ => Prog.ends_pure (maxHeightFor_eq capacity))

theorem new_maxHeight (capacity : Int) (valueSize bucketSize : Nat) (splitDepth : Int) :
    ((TeeAvlOmap.new capacity valueSize bucketSize splitDepth).maxHeight : Int) =
      realHeightBound capacity := by
  have positive : 1 ≤ AVLOmap.maxHeightFor capacity := le_max_left _ _
  change ((AVLOmap.maxHeightFor capacity).toNat : Int) = _
  rw [Int.toNat_of_nonneg (by omega), maxHeightFor_eq]

/--
No balanced tree of at most `capacity` nodes is higher than the real bound, and `max_height_`
of both tree maps is this bound.
-/
theorem balanced_height_le_maxHeight {α : Type} (capacity : Int) (positive : 1 ≤ capacity)
    (isInt : capacity < 2 ^ 31) (tree : BinaryTree α) (balanced : tree.Balanced)
    (fits : (tree.numNodes : Int) ≤ capacity) :
    (tree.height : Int) ≤ max 1 ⌈(1.44 : ℝ) * Real.logb 2 (max capacity 2 : Int)⌉ ∧
      (∀ bucketSize, Yields (AVLOmap.new capacity bucketSize)
        (fun omap => (tree.height : Int) ≤ omap.maxHeight)) ∧
      (∀ bucketSize splitDepth upperCapacity,
        Yields (AVLOmap.newSplit capacity bucketSize splitDepth upperCapacity)
          (fun omap => (tree.height : Int) ≤ omap.maxHeight)) ∧
      ∀ valueSize bucketSize splitDepth,
        tree.height ≤ (TeeAvlOmap.new capacity valueSize bucketSize splitDepth).maxHeight := by
  have bounded : (tree.height : Int) ≤ realHeightBound capacity := by
    rw [← maxHeightFor_eq]
    exact AVLOmap.height_le_maxHeight ⟨by omega, isInt⟩ balanced fits
  refine ⟨bounded, fun bucketSize => ?_, fun bucketSize splitDepth upperCapacity => ?_,
    fun valueSize bucketSize splitDepth => ?_⟩
  · exact (yields_new_maxHeight capacity bucketSize).mono
      (fun omap same => bounded.trans_eq same.symm)
  · exact (yields_newSplit_maxHeight capacity bucketSize splitDepth upperCapacity).mono
      (fun omap same => bounded.trans_eq same.symm)
  · have same := new_maxHeight capacity valueSize bucketSize splitDepth
    omega

/-- A tree of four nodes and height three, the most that three levels need. -/
theorem balanced_height_le_maxHeight_sample :
    let tree : BinaryTree Int :=
      .node 2 (.node 1 (.node 0 .nil .nil) .nil) (.node 3 .nil .nil)
    tree.height = 3 ∧
      (tree.height : Int) ≤ max 1 ⌈(1.44 : ℝ) * Real.logb 2 (max (4 : Int) 2 : Int)⌉ :=
  ⟨by decide, (balanced_height_le_maxHeight 4 (by decide) (by decide) _
    (by simp [BinaryTree.Balanced, BinaryTree.height]) (by decide)).1⟩

end TieredOmap
