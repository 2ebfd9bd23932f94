import TieredOMap.Lib.Demonic

/-!
# Programs and their traces

Where the world keeps a trace that only grows, `Emits` says which events a
program adds to it, whatever the world: every run that returns adds a list of
events that satisfies the postcondition together with the result. Sequencing
appends traces.
-/

namespace Prog

variable {World Err Event α β : Type} {trace : World → List Event} {thrown : Err → Prop}

/--
A run that returns adds to the trace some events with `post result events`; one
that throws throws a `thrown` error.
-/
def Emits (trace : World → List Event) (thrown : Err → Prop) (program : Prog World Err α)
    (post : α → List Event → Prop) : Prop :=
  ∀ before, Triple (fun world => trace world = before) program
    (fun result world => ∃ events, trace world = before ++ events ∧ post result events)
    (fun error _ => thrown error)

theorem emits_pure {result : α} {post : α → List Event → Prop} (holds : post result []) :
    Emits trace thrown (pure result : Prog World Err α) post := by
  intro before
  refine triple_pure ?_
  intro world start
  exact ⟨[], by simpa using start, holds⟩

theorem emits_fail {error : Err} {post : α → List Event → Prop} (isThrown : thrown error) :
    Emits trace thrown (fail error : Prog World Err α) post :=
  fun _ => triple_fail (fun _ _ => isThrown)

theorem emits_bind {program : Prog World Err α} {next : α → Prog World Err β}
    {Q : α → List Event → Prop} {post : β → List Event → Prop}
    (first : Emits trace thrown program Q)
    (rest : ∀ result events, Q result events →
      Emits trace thrown (next result) (fun result' events' => post result' (events ++ events'))) :
    Emits trace thrown (program >>= next) post := by
  intro before
  refine triple_bind (first before) ?_
  intro result world start
  rcases start with ⟨events, traceEq, holds⟩
  have outcome := rest result events holds (before ++ events) world traceEq
  rcases run : (next result).runFrom world with ⟨error | result', world'⟩
  · rw [run] at outcome
    exact outcome
  · rw [run] at outcome
    rcases outcome with ⟨events', traceEq', holds'⟩
    exact ⟨events ++ events', by rw [traceEq', List.append_assoc], holds'⟩

theorem Emits.mono {program : Prog World Err α} {post post' : α → List Event → Prop}
    (emits : Emits trace thrown program post)
    (imp : ∀ result events, post result events → post' result events) :
    Emits trace thrown program post' := by
  intro before
  refine (emits before).mono ?_
  rintro result world ⟨events, traceEq, holds⟩
  exact ⟨events, traceEq, imp result events holds⟩

theorem Emits.allow {program : Prog World Err α} {post : α → List Event → Prop}
    (emits : Emits trace thrown program post) {thrown' : Err → Prop}
    (imp : ∀ error, thrown error → thrown' error) : Emits trace thrown' program post :=
  fun before => (emits before).consequence (fun _ holds => holds) (fun _ _ holds => holds)
    (fun error _ => imp error)

/-- What a run that returned has added to the trace. -/
theorem Emits.returned {program : Prog World Err α} {post : α → List Event → Prop}
    (emits : Emits trace thrown program post) {world world' : World} {result : α}
    (run : program.runFrom world = (.ok result, world')) :
    ∃ events, trace world' = trace world ++ events ∧ post result events := by
  have outcome := emits (trace world) world rfl
  rw [run] at outcome
  exact outcome

/-- What holds of the results anyway holds next to what is added to the trace. -/
theorem Emits.and_ends {program : Prog World Err α} {post : α → List Event → Prop}
    (emits : Emits trace thrown program post) {allowed : Err → Prop} {post' : α → Prop}
    (ends : Ends allowed program post') :
    Emits trace thrown program (fun result events => post result events ∧ post' result) := by
  intro before world start
  have emitted := emits before world start
  rcases run : program.runFrom world with ⟨error | result, world'⟩
  · rw [run] at emitted
    exact emitted
  · rw [run] at emitted
    rcases emitted with ⟨events, traceEq, holds⟩
    exact ⟨events, traceEq, holds, ends.returned run⟩

end Prog
