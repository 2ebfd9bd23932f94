import Mathlib.Tactic.Common

/-!
# Programs that draw, log and throw

A program runs in a world (the random draws still to come, a log, a clock) and
either returns or throws; the world survives a throw. `Triple` is the usual
judgement with a precondition on the world and one postcondition for each way
a run can end.

Most results need no world in their postcondition. `Ends` is the demonic
special case: whatever the world is, the program returns a result that
satisfies the postcondition or throws one of the allowed errors, so a claim
about every outcome of the random draws needs no probability.
-/

/-- A computation over a world that may throw. -/
abbrev Prog (World Err : Type) (Result : Type) := ExceptT Err (StateM World) Result

namespace Prog

variable {World Err α β : Type}

/-- Throw an error. -/
def fail (error : Err) : Prog World Err α := fun world => (.error error, world)

/-- Run a program from a world. -/
def runFrom (program : Prog World Err α) (world : World) : Except Err α × World := program world

/-- From a world satisfying `pre`, a run that returns ends in `post` and one that throws in `thrown`. -/
def Triple (pre : World → Prop) (program : Prog World Err α) (post : α → World → Prop)
    (thrown : Err → World → Prop) : Prop :=
  ∀ world, pre world → match program.runFrom world with
    | (.ok result, world') => post result world'
    | (.error error, world') => thrown error world'

section Triple

variable {pre : World → Prop} {program : Prog World Err α} {post : α → World → Prop}
  {thrown : Err → World → Prop}

theorem triple_pure {result : α} (holds : ∀ world, pre world → post result world) :
    Triple pre (pure result : Prog World Err α) post thrown :=
  holds

theorem triple_fail {error : Err} (holds : ∀ world, pre world → thrown error world) :
    Triple pre (fail error : Prog World Err α) post thrown :=
  holds

theorem runFrom_bind (program : Prog World Err α) (next : α → Prog World Err β) (world : World) :
    (program >>= next).runFrom world = match program.runFrom world with
      | (.ok result, world') => (next result).runFrom world'
      | (.error error, world') => (.error error, world') := by
  rcases run : program.runFrom world with ⟨error | result, world'⟩
  all_goals
    have unfolded : (program >>= next).runFrom world =
        ExceptT.bindCont next (program.runFrom world).1 (program.runFrom world).2 := rfl
    rw [unfolded, run]
    rfl

/-- A run of two programs in sequence that returns is a run of the first, then one of the second. -/
theorem runs_of_bind {program : Prog World Err α} {next : α → Prog World Err β} {result : β}
    {world world' : World} (run : (program >>= next).runFrom world = (.ok result, world')) :
    ∃ middle between, program.runFrom world = (.ok middle, between) ∧
      (next middle).runFrom between = (.ok result, world') := by
  rw [runFrom_bind] at run
  rcases first : program.runFrom world with ⟨error | middle, between⟩
  · rw [first] at run
    cases run
  · rw [first] at run
    exact ⟨middle, between, rfl, run⟩

/-- A run of two programs in sequence that throws stops in the first or in the second. -/
theorem throws_of_bind {program : Prog World Err α} {next : α → Prog World Err β} {error : Err}
    {world world' : World} (run : (program >>= next).runFrom world = (.error error, world')) :
    program.runFrom world = (.error error, world') ∨
      ∃ middle between, program.runFrom world = (.ok middle, between) ∧
        (next middle).runFrom between = (.error error, world') := by
  rw [runFrom_bind] at run
  rcases first : program.runFrom world with ⟨stopped | middle, between⟩
  · rw [first] at run
    cases run
    exact Or.inl rfl
  · rw [first] at run
    exact Or.inr ⟨middle, between, rfl, run⟩

theorem triple_bind {next : α → Prog World Err β} {Q : α → World → Prop}
    {final : β → World → Prop} (first : Triple pre program Q thrown)
    (rest : ∀ result, Triple (Q result) (next result) final thrown) :
    Triple pre (program >>= next) final thrown := by
  intro world start
  have outcome := first world start
  rw [runFrom_bind]
  rcases run : program.runFrom world with ⟨error | result, world'⟩
  · rw [run] at outcome
    exact outcome
  · rw [run] at outcome
    exact rest result world' outcome

theorem Triple.consequence (triple : Triple pre program post thrown) {pre' : World → Prop}
    {post' : α → World → Prop} {thrown' : Err → World → Prop}
    (start : ∀ world, pre' world → pre world)
    (imp : ∀ result world, post result world → post' result world)
    (impThrown : ∀ error world, thrown error world → thrown' error world) :
    Triple pre' program post' thrown' := by
  intro world holds
  have outcome := triple world (start world holds)
  rcases run : program.runFrom world with ⟨error | result, world'⟩
  · rw [run] at outcome
    exact impThrown error world' outcome
  · rw [run] at outcome
    exact imp result world' outcome

theorem Triple.mono (triple : Triple pre program post thrown) {post' : α → World → Prop}
    (imp : ∀ result world, post result world → post' result world) :
    Triple pre program post' thrown :=
  triple.consequence (fun _ holds => holds) imp (fun _ _ holds => holds)

end Triple

section Ends

variable {allowed : Err → Prop} {program : Prog World Err α} {post : α → Prop}

/-- Whatever the world, the run returns a result satisfying `post` or throws an allowed error. -/
def Ends (allowed : Err → Prop) (program : Prog World Err α) (post : α → Prop) : Prop :=
  Triple (fun _ => True) program (fun result _ => post result) (fun error _ => allowed error)

theorem Ends.returned (ends : Ends allowed program post) {world world' : World} {result : α}
    (run : program.runFrom world = (.ok result, world')) : post result := by
  have outcome := ends world trivial
  rw [run] at outcome
  exact outcome

theorem Ends.threw (ends : Ends allowed program post) {world world' : World} {error : Err}
    (run : program.runFrom world = (.error error, world')) : allowed error := by
  have outcome := ends world trivial
  rw [run] at outcome
  exact outcome

theorem ends_pure {result : α} (holds : post result) :
    Ends allowed (pure result : Prog World Err α) post :=
  triple_pure (fun _ _ => holds)

theorem ends_fail {error : Err} (isAllowed : allowed error) :
    Ends allowed (fail error : Prog World Err α) post :=
  triple_fail (fun _ _ => isAllowed)

theorem ends_bind {next : α → Prog World Err β} {Q : α → Prop} {final : β → Prop}
    (first : Ends allowed program Q)
    (rest : ∀ result, Q result → Ends allowed (next result) final) :
    Ends allowed (program >>= next) final :=
  triple_bind first (fun result world holds => rest result holds world trivial)

/-- What follows a program that never returns does not matter. -/
theorem Ends.bind_never (never : Ends allowed program (fun _ => False))
    {next : α → Prog World Err β} {final : β → Prop} : Ends allowed (program >>= next) final :=
  ends_bind never (fun _ impossible => impossible.elim)

/-- Two steps that are known together, followed by the rest. -/
theorem ends_bind_bind {γ : Type} {middle : α → Prog World Err β} {next : β → Prog World Err γ}
    {Q : β → Prop} {final : γ → Prop} (first : Ends allowed (program >>= middle) Q)
    (rest : ∀ result, Q result → Ends allowed (next result) final) :
    Ends allowed (program >>= fun result => middle result >>= next) final := by
  rw [← bind_assoc]
  exact ends_bind first rest

theorem Ends.mono (ends : Ends allowed program post) {weaker : α → Prop}
    (imp : ∀ result, post result → weaker result) : Ends allowed program weaker :=
  Triple.mono ends (fun result _ => imp result)

/-- Two facts about one program hold together. -/
theorem Ends.and (ends : Ends allowed program post) {allowed' : Err → Prop} {post' : α → Prop}
    (ends' : Ends allowed' program post') :
    Ends (fun error => allowed error ∧ allowed' error) program
      (fun result => post result ∧ post' result) := by
  intro world start
  have outcome := ends world start
  have outcome' := ends' world start
  rcases run : program.runFrom world with ⟨error | result, world'⟩
  · rw [run] at outcome outcome'
    exact ⟨outcome, outcome'⟩
  · rw [run] at outcome outcome'
    exact ⟨outcome, outcome'⟩

theorem Ends.allow (ends : Ends allowed program post) {allowed' : Err → Prop}
    (imp : ∀ error, allowed error → allowed' error) : Ends allowed' program post :=
  Triple.consequence ends (fun _ holds => holds) (fun _ _ holds => holds)
    (fun error _ => imp error)

end Ends

end Prog
