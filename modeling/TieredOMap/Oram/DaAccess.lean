import TieredOMap.Oram.DaInvariant

/-!
# Accesses to a DAORAM

An access uses one group of counters at every stage, from the chip down, and
moves the blocks of each stage right after the counters of the stage above. So
on its way the leaves lag behind the counters at exactly one stage.
-/

namespace TieredOmap

namespace Plan

variable {plan : Plan} {use : Nat → (Nat → CounterBlock) → Nat → CounterBlock}

/-- The counters once the stages from `stage` up have been used. -/
def usedFrom (plan : Plan) (use : Nat → (Nat → CounterBlock) → Nat → CounterBlock) (stage : Nat)
    (counters : Counters) : Counters :=
  fun stage' => if stage ≤ stage' ∧ stage' ≤ plan.top then use stage' (counters stage')
    else counters stage'

/-- The leaves while the blocks of `stage` have yet to move. -/
def lagging (plan : Plan) (use : Nat → (Nat → CounterBlock) → Nat → CounterBlock) (stage : Nat)
    (counters : Counters) : Nat → Nat → Int :=
  fun stage' => if stage' ≤ stage then plan.labelsOf counters stage'
    else plan.labelsOf (plan.usedFrom use 0 counters) stage'

theorem usedFrom_top (counters : Counters) :
    plan.usedFrom use plan.top counters =
      Function.update counters plan.top (use plan.top (counters plan.top)) := by
  funext stage
  by_cases here : stage = plan.top
  · subst here
    simp [usedFrom]
  · rw [Function.update_of_ne here, usedFrom, if_neg (by omega)]

theorem usedFrom_of_lt {counters : Counters} {stage stage' : Nat} (below : stage' < stage) :
    plan.usedFrom use stage counters stage' = counters stage' := by
  rw [usedFrom, if_neg (by omega)]

theorem usedFrom_of_le {counters : Counters} {stage stage' : Nat} (above : stage ≤ stage')
    (stageLe : stage' ≤ plan.top) :
    plan.usedFrom use stage counters stage' = use stage' (counters stage') := by
  rw [usedFrom, if_pos ⟨above, stageLe⟩]

/-- Using one more stage. -/
theorem usedFrom_succ {counters : Counters} {level : Nat} (levelLt : level < plan.top) :
    Function.update (plan.usedFrom use (level + 1) counters) level (use level (counters level)) =
      plan.usedFrom use level counters := by
  funext stage
  by_cases here : stage = level
  · subst here
    rw [Function.update_self, usedFrom_of_le (Nat.le_refl _) (Nat.le_of_lt levelLt)]
  · rw [Function.update_of_ne here]
    by_cases above : level + 1 ≤ stage ∧ stage ≤ plan.top
    · rw [usedFrom_of_le above.1 above.2, usedFrom_of_le (by omega) above.2]
    · rw [usedFrom, if_neg above, usedFrom, if_neg (by omega)]

theorem labelsOf_congr {counters counters' : Counters} {stage : Nat}
    (same : counters stage = counters' stage) :
    plan.labelsOf counters stage = plan.labelsOf counters' stage := by
  funext key
  rw [labelsOf, labelsOf, same]

/-- The leaves of a stage are as its counters were before or as they are in the end. -/
theorem labelsOf_usedFrom {counters : Counters} {stage stage' : Nat} (above : stage ≤ stage')
    (stageLe : stage' ≤ plan.top) :
    plan.labelsOf (plan.usedFrom use stage counters) stage' =
      plan.labelsOf (plan.usedFrom use 0 counters) stage' := by
  refine labelsOf_congr ?_
  rw [usedFrom_of_le above stageLe, usedFrom_of_le (Nat.zero_le _) stageLe]

theorem lagging_top {counters : Counters} {stage : Nat} (stageLe : stage ≤ plan.top) :
    plan.lagging use plan.top counters stage = plan.labelsOf counters stage := by
  rw [lagging, if_pos stageLe]

/-- The moves that are due at a stage take the leaves there to where they belong. -/
theorem lagging_succ {counters : Counters} {level key : Nat} {cur : PosMapResult}
    (due : plan.Due (level + 1) key (plan.labelsOf counters (level + 1))
      (plan.labelsOf (plan.usedFrom use 0 counters) (level + 1)) cur) {stage k : Nat}
    (kLt : k < plan.sizes stage) :
    Function.update (plan.lagging use (level + 1) counters) (level + 1)
        (relabelled cur (plan.keyAt key (level + 1)) (plan.lagging use (level + 1) counters
          (level + 1))) stage k = plan.lagging use level counters stage k := by
  by_cases here : stage = level + 1
  · subst here
    rw [Function.update_self, lagging, if_pos (Nat.le_refl _), due.moved k kLt, lagging,
      if_neg (by omega)]
  · rw [Function.update_of_ne here, lagging, lagging]
    by_cases below : stage ≤ level
    · rw [if_pos below, if_pos (by omega)]
    · rw [if_neg below, if_neg (by omega)]

theorem Due.isLeaf1 {stage key : Nat} {old new : Nat → Int} {cur : PosMapResult}
    (due : plan.Due stage key old new cur) (oldLeaf : IsLeaf (plan.levels stage)
      (old (plan.keyAt key stage))) : ∀ leaf ∈ [cur.leaf1, cur.leaf2],
        IsLeaf (plan.levels stage) leaf := by
  intro leaf leafMem
  rcases List.mem_cons.mp leafMem with rfl | isSecond
  · rw [due.leaf1]
    exact oldLeaf
  · rw [List.mem_singleton] at isSecond
    rw [isSecond]
    exact due.isLeaf2

end Plan

namespace DAOram

variable [Cipher] {da : DAOram} {plan : Plan} {counters : Counters} {values : Nat → Bytes}

omit [Cipher] in
/-- What is due is in the stash once the two paths are fetched. -/
theorem fetched_of_due {stage key : Nat} {old new : Nat → Int} {cur : PosMapResult}
    (due : plan.Due stage key old new cur) (keyLt : plan.keyAt key stage < plan.sizes stage)
    (inStash : ∀ k < plan.sizes stage, old k ∈ [cur.leaf1, cur.leaf2] →
      (da.treeAt stage).InStash k) : da.Fetched plan key stage cur := by
  refine ⟨inStash _ keyLt (by simp [due.leaf1]), ?_⟩
  intro rKey isReset
  rcases due.reset rKey isReset with ⟨_, rLt, leaf2Eq, _⟩
  exact inStash rKey rLt (by simp [leaf2Eq])

omit [Cipher] in
theorem update_empty (stage : Nat) :
    Function.update (fun _ : Nat => (∅ : Finset Nat)) stage ∅ = fun _ => ∅ :=
  Function.update_eq_self stage _

/-- One round of an access: fetch, visit, evict. -/
theorem Holding.ends_traverseBelow (valid : plan.Valid) {key : Nat} (keyLt : key < plan.sizes 0)
    {stage : Nat} (stageLe : stage ≤ plan.top)
    (holding : da.Holding plan (plan.usedFrom (plan.touchGroup key) stage counters)
      (plan.lagging (plan.touchGroup key) stage counters) (fun _ => ∅) values) {cur : PosMapResult}
    (due : plan.Due stage key (plan.labelsOf counters stage)
      (plan.labelsOf (plan.usedFrom (plan.touchGroup key) 0 counters) stage) cur) :
    Ends (da.traverseBelow key stage cur) (fun outcome =>
      outcome.2.Holding plan (plan.usedFrom (plan.touchGroup key) 0 counters)
        (plan.lagging (plan.touchGroup key) 0 counters) (fun _ => ∅) values ∧
      plan.Due 0 key (plan.labelsOf counters 0)
        (plan.labelsOf (plan.usedFrom (plan.touchGroup key) 0 counters) 0) outcome.1) := by
  induction stage generalizing da cur with
  | zero => exact Prog.ends_pure ⟨holding, due⟩
  | succ level ih =>
      have areLeaves := due.isLeaf1 (plan.labelsOf_isLeaf _ _ _)
      have lagged : plan.lagging (plan.touchGroup key) (level + 1) counters (level + 1) =
          plan.labelsOf counters (level + 1) := by
        rw [Plan.lagging, if_pos (Nat.le_refl _)]
      have unused : plan.usedFrom (plan.touchGroup key) (level + 1) counters level =
          counters level := Plan.usedFrom_of_lt (Nat.lt_succ_self level)
      refine Prog.ends_bind (holding.ends_readPaths stageLe rfl areLeaves) ?_
      rintro fetchedDa ⟨fetchedHolding, inStash⟩
      rw [lagged] at inStash
      refine Prog.ends_bind (fetchedHolding.ends_visitPosMap valid keyLt stageLe due
        (fetched_of_due due (Plan.keyAt_lt valid keyLt stageLe) inStash)) ?_
      rintro ⟨next, visitedDa⟩ ⟨visitedHolding, nextDue, _⟩
      rw [unused, Plan.usedFrom_succ stageLe, Plan.labelsOf_congr unused,
        Plan.labelsOf_usedFrom (Nat.le_refl _) (Nat.le_of_lt stageLe)] at nextDue
      rw [unused, Plan.usedFrom_succ stageLe] at visitedHolding
      refine Prog.ends_bind ((visitedHolding.congrLabels
        (fun _ _ _ kLt => Plan.lagging_succ due kLt)).ends_evictPaths stageLe areLeaves) ?_
      intro evictedDa evictedHolding
      rw [update_empty] at evictedHolding
      exact ih (Nat.le_of_lt stageLe) evictedHolding nextDue

/-- The traversal of the position maps leaves only the data blocks to be moved. -/
theorem Represents.ends_traversePosMaps (represents : da.Represents plan counters values)
    (valid : plan.Valid) {key : Nat} (keyLt : key < plan.sizes 0) :
    Ends (da.traversePosMaps key) (fun outcome =>
      outcome.2.Holding plan (plan.usedFrom (plan.touchGroup key) 0 counters)
        (plan.lagging (plan.touchGroup key) 0 counters) (fun _ => ∅) values ∧
      plan.Due 0 key (plan.labelsOf counters 0)
        (plan.labelsOf (plan.usedFrom (plan.touchGroup key) 0 counters) 0) outcome.1) := by
  refine Prog.ends_bind (Holding.ends_touchOnChip represents valid keyLt) ?_
  rintro ⟨cur, touchedDa⟩ ⟨holding, due, _⟩
  dsimp only
  rw [← Plan.usedFrom_top, Plan.labelsOf_usedFrom (Nat.le_refl _) (Nat.le_refl _)] at due
  rw [← Plan.usedFrom_top] at holding
  rw [holding.follows.top]
  refine Holding.ends_traverseBelow valid keyLt (Nat.le_refl _) (holding.congrLabels ?_) due
  intro stage stageLe k _
  rw [Plan.lagging_top stageLe]

/-- `access` returns the value of a block, replaces it and uses the counters on the way to it. -/
theorem Represents.ends_access (represents : da.Represents plan counters values)
    (valid : plan.Valid) {key : Nat} (keyLt : key < plan.sizes 0) (newValue : Option Bytes) :
    Ends (da.access key newValue) (fun outcome => outcome.1 = values key ∧
      outcome.2.Represents plan (plan.usedFrom (plan.touchGroup key) 0 counters)
        (Function.update values key (newValue.getD (values key)))) := by
  refine Prog.ends_bind (represents.ends_traversePosMaps valid keyLt) ?_
  rintro ⟨cur, downDa⟩ ⟨holding, due⟩
  have areLeaves := due.isLeaf1 (plan.labelsOf_isLeaf _ _ _)
  refine Prog.ends_bind (holding.ends_readPaths (Nat.zero_le _) rfl areLeaves) ?_
  rintro fetchedDa ⟨fetchedHolding, inStash⟩
  refine Prog.ends_bind (fetchedHolding.ends_visitData due
    (fetched_of_due due keyLt inStash) newValue) ?_
  rintro ⟨result, visitedDa⟩ ⟨resultEq, visitedHolding, _⟩
  have settled : ∀ stage ≤ plan.top, ∀ k < plan.sizes stage,
      Function.update (plan.lagging (plan.touchGroup key) 0 counters) 0
        (Plan.relabelled cur key (plan.lagging (plan.touchGroup key) 0 counters 0)) stage k =
          plan.labelsOf (plan.usedFrom (plan.touchGroup key) 0 counters) stage k := by
    intro stage _ k kLt
    by_cases here : stage = 0
    · subst here
      rw [Function.update_self]
      exact due.moved k kLt
    · rw [Function.update_of_ne here, Plan.lagging, if_neg (by omega)]
  refine Prog.ends_bind ((visitedHolding.congrLabels settled).ends_evictPaths (Nat.zero_le _)
    areLeaves) ?_
  intro evictedDa evictedHolding
  rw [update_empty] at evictedHolding
  exact Prog.ends_pure ⟨resultEq, evictedHolding⟩

/-! ## Dummy accesses -/

/-- Fetching and evicting some paths of a stage changes nothing. -/
theorem Represents.ends_refresh (represents : da.Represents plan counters values) {stage : Nat}
    (stageLe : stage ≤ plan.top) {leaves : List Int}
    (areLeaves : ∀ leaf ∈ leaves, IsLeaf (plan.levels stage) leaf) :
    Ends (do let da ← da.readPaths stage leaves; da.evictPaths stage leaves)
      (fun da' => da'.Represents plan counters values) := by
  refine Prog.ends_bind (Holding.ends_readPaths represents stageLe rfl areLeaves) ?_
  rintro fetchedDa ⟨fetchedHolding, _⟩
  refine (fetchedHolding.ends_evictPaths stageLe areLeaves).mono ?_
  intro evictedDa evictedHolding
  rwa [update_empty] at evictedHolding

theorem Represents.ends_traverseDummyBelow (represents : da.Represents plan counters values)
    {stage : Nat} (stageLe : stage ≤ plan.top) :
    Ends (da.traverseDummyBelow stage) (fun da' => da'.Represents plan counters values) := by
  induction stage generalizing da with
  | zero => exact Prog.ends_pure represents
  | succ level ih =>
      have randomLeaf : Ends (da.treeAt (level + 1)).randomLeaf
          (IsLeaf (plan.levels (level + 1))) :=
        (represents.labelled (level + 1) stageLe).ends_randomLeaf
      refine Prog.ends_bind randomLeaf ?_
      intro leaf1 isLeaf1
      refine Prog.ends_bind randomLeaf ?_
      intro leaf2 isLeaf2
      have areLeaves : ∀ leaf ∈ [leaf1, leaf2], IsLeaf (plan.levels (level + 1)) leaf := by
        simp [isLeaf1, isLeaf2]
      refine Prog.ends_bind_bind (represents.ends_refresh stageLe areLeaves) ?_
      intro refreshedDa refreshed
      exact ih refreshed (Nat.le_of_lt stageLe)

theorem Holding.ends_randomLeaves {labels : Nat → Nat → Int} {out : Nat → Finset Nat}
    (holding : da.Holding plan counters labels out values) {stage : Nat}
    (stageLe : stage ≤ plan.top) :
    Ends (da.randomLeaves stage) (fun cur =>
      ∀ leaf ∈ [cur.leaf1, cur.leaf2], IsLeaf (plan.levels stage) leaf) := by
  have isLeaf : Ends (randBelow (max (da.leafRangeAt stage) 1))
      (fun leaf => IsLeaf (plan.levels stage) leaf) := by
    rw [holding.leafRangeAt_eq stageLe, Nat.max_eq_left (plan.leafRange_pos stage)]
    refine (ends_randBelow (plan.leafRange_pos stage)).mono ?_
    intro leaf leafLt
    exact ⟨Int.natCast_nonneg leaf, by exact_mod_cast leafLt⟩
  refine Prog.ends_bind isLeaf ?_
  intro leaf1 isLeaf1
  refine Prog.ends_bind isLeaf ?_
  intro leaf2 isLeaf2
  exact Prog.ends_pure (by simp [isLeaf1, isLeaf2])

/-- `dummy_access` changes nothing. -/
theorem Represents.ends_dummyAccess (represents : da.Represents plan counters values) :
    Ends da.dummyAccess (fun da' => da'.Represents plan counters values) := by
  unfold DAOram.dummyAccess
  rw [represents.follows.top]
  refine Prog.ends_bind (represents.ends_traverseDummyBelow (Nat.le_refl _)) ?_
  intro downDa downRepresents
  refine Prog.ends_bind (Holding.ends_randomLeaves downRepresents (Nat.zero_le _)) ?_
  intro cur areLeaves
  exact downRepresents.ends_refresh (Nat.zero_le _) areLeaves

end DAOram

end TieredOmap
