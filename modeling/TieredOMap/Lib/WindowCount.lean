import Mathlib.Algebra.Order.Group.Int
import Mathlib.Data.List.Induction
import Mathlib.Tactic.Common

/-!
# Counting events in windows

Events are numbered from 1 and event number `t` falls into epoch `t / window`.
A counter that is brought up to date only when its own key occurs needs the
epoch of the last occurrence, the count in that epoch and the count in the one
before; `countIn_same` and `countIn_later` say how they change.
-/

namespace WindowCount

variable {κ : Type} [DecidableEq κ]

/-- How often a key occurs in an epoch. -/
def countIn (window : Int) (events : List κ) (key : κ) (epoch : Int) : Nat :=
  (events.zipIdx 1).countP (fun event => decide (event.1 = key ∧ (event.2 : Int) / window = epoch))

/-- The epoch in which a key has last occurred; 0 if it never has. -/
def lastIn (window : Int) (events : List κ) (key : κ) : Int :=
  (events.zipIdx 1).foldl
    (fun epoch event => if event.1 = key then (event.2 : Int) / window else epoch) 0

variable {window : Int} {events : List κ} {event key : κ}

@[simp]
theorem countIn_nil (epoch : Int) : countIn window ([] : List κ) key epoch = 0 := rfl

@[simp]
theorem lastIn_nil : lastIn window ([] : List κ) key = 0 := rfl

theorem countIn_snoc (epoch : Int) :
    countIn window (events ++ [event]) key epoch = countIn window events key epoch +
      if event = key ∧ ((events.length + 1 : Nat) : Int) / window = epoch then 1 else 0 := by
  simp only [countIn, List.zipIdx_append, List.countP_append, List.zipIdx_singleton,
    List.countP_singleton, decide_eq_true_eq, Nat.add_comm 1]

theorem lastIn_snoc :
    lastIn window (events ++ [event]) key =
      if event = key then ((events.length + 1 : Nat) : Int) / window
      else lastIn window events key := by
  simp only [lastIn, List.zipIdx_append, List.foldl_append, List.zipIdx_singleton, List.foldl_cons,
    List.foldl_nil, Nat.add_comm 1]

theorem lastIn_nonneg (positive : 0 < window) : 0 ≤ lastIn window events key := by
  induction events using List.reverseRecOn with
  | nil => exact le_refl 0
  | append_singleton events event ih =>
      rw [lastIn_snoc]
      split
      · exact Int.ediv_nonneg (Int.natCast_nonneg _) positive.le
      · exact ih

/-- No key has occurred later than now. -/
theorem lastIn_le (positive : 0 < window) :
    lastIn window events key ≤ (events.length : Int) / window := by
  induction events using List.reverseRecOn with
  | nil => simp
  | append_singleton events event ih =>
      have grows : (events.length : Int) / window ≤ ((events.length + 1 : Nat) : Int) / window :=
        Int.ediv_le_ediv positive (by omega)
      rw [lastIn_snoc, List.length_append, List.length_singleton]
      split
      · exact le_refl _
      · exact ih.trans grows

/-- A key does not occur after the last epoch in which it has. -/
theorem countIn_of_lastIn_lt (positive : 0 < window) {epoch : Int}
    (later : lastIn window events key < epoch) : countIn window events key epoch = 0 := by
  induction events using List.reverseRecOn with
  | nil => rfl
  | append_singleton events event ih =>
      rw [lastIn_snoc] at later
      rw [countIn_snoc]
      by_cases here : event = key
      · rw [if_pos here] at later
        have before : lastIn window events key < epoch := by
          have bound : lastIn window events key ≤ (events.length : Int) / window := lastIn_le positive
          have grows : (events.length : Int) / window ≤ ((events.length + 1 : Nat) : Int) / window :=
            Int.ediv_le_ediv positive (by omega)
          omega
        rw [ih before, if_neg (fun both => by omega)]
      · rw [if_neg here] at later
        rw [ih later, if_neg (fun both => here both.1)]

theorem countIn_le_length (epoch : Int) : countIn window events key epoch ≤ events.length := by
  unfold countIn
  exact List.countP_le_length.trans (by simp)

/-- Nothing happens in a negative epoch. -/
theorem countIn_of_neg (positive : 0 < window) {epoch : Int} (negative : epoch < 0) :
    countIn window events key epoch = 0 := by
  induction events using List.reverseRecOn with
  | nil => rfl
  | append_singleton events event ih =>
      have nonneg : (0 : Int) ≤ ((events.length + 1 : Nat) : Int) / window :=
        Int.ediv_nonneg (Int.natCast_nonneg _) positive.le
      rw [countIn_snoc, ih, if_neg (fun both => by omega)]

/-- Another occurrence in the epoch of the last one. -/
theorem countIn_same
    (same : lastIn window events key = ((events.length + 1 : Nat) : Int) / window) :
    countIn window (events ++ [key]) key (lastIn window events key) =
        countIn window events key (lastIn window events key) + 1 ∧
      countIn window (events ++ [key]) key (lastIn window events key - 1) =
        countIn window events key (lastIn window events key - 1) := by
  rw [countIn_snoc, countIn_snoc, if_pos ⟨rfl, same.symm⟩, if_neg (fun both => by omega)]
  exact ⟨rfl, rfl⟩

/-- The first occurrence in a later epoch. -/
theorem countIn_later (positive : 0 < window)
    (later : lastIn window events key < ((events.length + 1 : Nat) : Int) / window) :
    countIn window (events ++ [key]) key (((events.length + 1 : Nat) : Int) / window) = 1 ∧
      countIn window (events ++ [key]) key (((events.length + 1 : Nat) : Int) / window - 1) =
        if lastIn window events key = ((events.length + 1 : Nat) : Int) / window - 1 then
          countIn window events key (lastIn window events key)
        else 0 := by
  rw [countIn_snoc, countIn_snoc, if_pos ⟨rfl, rfl⟩, if_neg (fun both => by omega),
    countIn_of_lastIn_lt positive later]
  refine ⟨rfl, ?_⟩
  split
  · rename_i adjacent
    rw [← adjacent, Nat.add_zero]
  · rw [countIn_of_lastIn_lt positive (by omega)]

end WindowCount
