import Mathlib.Data.List.Nodup
import Mathlib.Order.Lattice
import Mathlib.Tactic.Common

/-!
# Sweeping a sorted list that changes

A cursor that is a key, not an index, visits the keys of a sorted list: each
scan goes to the first key after the cursor, or around to the first key of all
when there is none. Between two scans the list may become any other sorted list.
A sweep is what happens from one turn around to the next.
-/

namespace Sweep

/-- One scan: the list it finds, the key it visits and whether it has turned around. -/
structure Scan (κ : Type) where
  keys : List κ
  key : κ
  wraps : Bool
deriving DecidableEq, Repr

variable {κ : Type} [LinearOrder κ]

/-- A scan of a sorted list above `low` by a cursor. -/
structure Follows (low cursor : κ) (scan : Scan κ) : Prop where
  sorted : scan.keys.Pairwise (· ≤ ·)
  above : ∀ key ∈ scan.keys, low < key
  ahead : scan.wraps = false → scan.keys.find? (fun key => cursor < key) = some scan.key
  around : scan.wraps = true → scan.keys.find? (fun key => cursor < key) = none ∧
    scan.keys.head? = some scan.key

/-- The scans made by a cursor, one after the other. -/
def Scans (low : κ) : κ → List (Scan κ) → Prop
  | _, [] => True
  | cursor, scan :: rest => Follows low cursor scan ∧ Scans low scan.key rest

/-- Where the cursor is after some scans. -/
def cursorAfter (cursor : κ) (log : List (Scan κ)) : κ :=
  log.foldl (fun _ scan => scan.key) cursor

variable {low cursor key : κ} {scan first last : Scan κ} {log log' sweep : List (Scan κ)}

theorem scans_append :
    Scans low cursor (log ++ log') ↔
      Scans low cursor log ∧ Scans low (cursorAfter cursor log) log' := by
  induction log generalizing cursor with
  | nil => simp [Scans, cursorAfter]
  | cons scan rest ih => simp only [List.cons_append, Scans, ih, and_assoc, cursorAfter,
      List.foldl_cons]

omit [LinearOrder κ] in
theorem cursorAfter_append :
    cursorAfter cursor (log ++ log') = cursorAfter (cursorAfter cursor log) log' := by
  simp [cursorAfter]

/-! ## One scan -/

/-- A scan that does not turn around visits a later key. -/
theorem Follows.lt (follows : Follows low cursor scan) (isAhead : scan.wraps = false) :
    cursor < scan.key := by
  simpa using List.find?_some (follows.ahead isAhead)

/-- It visits the least later key. -/
theorem Follows.least (follows : Follows low cursor scan) (isAhead : scan.wraps = false)
    (keyMem : key ∈ scan.keys) (later : cursor < key) : scan.key ≤ key := by
  have found := follows.ahead isAhead
  have sorted := follows.sorted
  revert found sorted keyMem
  generalize scan.keys = keys
  intro keyMem found sorted
  induction keys with
  | nil => simp at keyMem
  | cons head rest ih =>
      rcases List.pairwise_cons.mp sorted with ⟨headLe, restSorted⟩
      rw [List.find?_cons] at found
      split at found
      · obtain rfl : head = scan.key := by simpa using found
        rcases List.mem_cons.mp keyMem with same | inRest
        · exact same.ge
        · exact headLe key inRest
      · rename_i notLater
        rcases List.mem_cons.mp keyMem with rfl | inRest
        · exact absurd later (by simpa using notLater)
        · exact ih inRest found restSorted

/-- When it turns around, no key is left after the cursor. -/
theorem Follows.le_cursor (follows : Follows low cursor scan) (turns : scan.wraps = true)
    (keyMem : key ∈ scan.keys) : key ≤ cursor := by
  simpa using List.find?_eq_none.mp (follows.around turns).1 key keyMem

/-- It then visits the least key of all. -/
theorem Follows.first_le (follows : Follows low cursor scan) (turns : scan.wraps = true)
    (keyMem : key ∈ scan.keys) : scan.key ≤ key := by
  have head := (follows.around turns).2
  have sorted := follows.sorted
  cases keysEq : scan.keys with
  | nil =>
      rw [keysEq] at keyMem
      simp at keyMem
  | cons front rest =>
      rw [keysEq] at head sorted keyMem
      obtain rfl : front = scan.key := by simpa using head
      rcases List.mem_cons.mp keyMem with same | inRest
      · exact same.ge
      · exact (List.pairwise_cons.mp sorted).1 key inRest

/-- The first scan of a sweep visits the least key. -/
theorem Follows.start_le (follows : Follows low cursor scan)
    (starts : scan.wraps = true ∨ cursor = low) (keyMem : key ∈ scan.keys) : scan.key ≤ key := by
  by_cases turns : scan.wraps = true
  · exact follows.first_le turns keyMem
  · rcases starts with turned | fresh
    · exact absurd turned turns
    · refine follows.least (by simpa using turns) keyMem ?_
      rw [fresh]
      exact follows.above key keyMem

/-! ## A sweep -/

/-- Until the next turn the visited keys increase. -/
theorem keys_increasing (scans : Scans low cursor sweep)
    (within : ∀ scan ∈ sweep, scan.wraps = false) :
    (cursor :: sweep.map Scan.key).Pairwise (· < ·) := by
  induction sweep generalizing cursor with
  | nil => simp
  | cons scan rest ih =>
      rcases scans with ⟨follows, later⟩
      have increasing := ih later (fun scan' scanMem => within scan' (List.mem_cons_of_mem _ scanMem))
      have step := follows.lt (within scan List.mem_cons_self)
      refine List.pairwise_cons.mpr ⟨?_, increasing⟩
      intro key keyMem
      rcases List.mem_cons.mp keyMem with rfl | inRest
      · exact step
      · exact step.trans ((List.pairwise_cons.mp increasing).1 key inRest)

/-- A key that stays is visited or still ahead of the cursor. -/
theorem visited_or_ahead (scans : Scans low cursor sweep)
    (within : ∀ scan ∈ sweep, scan.wraps = false) (ahead : cursor < key)
    (stays : ∀ scan ∈ sweep, key ∈ scan.keys) :
    key ∈ sweep.map Scan.key ∨ cursorAfter cursor sweep < key := by
  induction sweep generalizing cursor with
  | nil => exact Or.inr ahead
  | cons scan rest ih =>
      rcases scans with ⟨follows, later⟩
      have least := follows.least (within scan List.mem_cons_self) (stays scan List.mem_cons_self)
        ahead
      rcases least.eq_or_lt with here | stillAhead
      · exact Or.inl (List.mem_cons.mpr (Or.inl here.symm))
      · rcases ih later (fun scan' scanMem => within scan' (List.mem_cons_of_mem _ scanMem)) stillAhead
          (fun scan' scanMem => stays scan' (List.mem_cons_of_mem _ scanMem)) with visited | beyond
        · exact Or.inl (List.mem_cons_of_mem _ visited)
        · exact Or.inr beyond

/-- A sweep visits every key that stays in the list until the next turn. -/
theorem sweep_visits (scans : Scans low cursor (first :: sweep ++ [last]))
    (starts : first.wraps = true ∨ cursor = low) (within : ∀ scan ∈ sweep, scan.wraps = false)
    (turns : last.wraps = true) (stays : ∀ scan ∈ first :: sweep ++ [last], key ∈ scan.keys) :
    key ∈ (first :: sweep).map Scan.key := by
  rw [List.cons_append] at scans
  rcases scans with ⟨followsFirst, later⟩
  rcases scans_append.mp later with ⟨swept, followsLast, _⟩
  have least := followsFirst.start_le starts (stays first (by simp))
  rcases least.eq_or_lt with here | ahead
  · exact List.mem_cons.mpr (Or.inl here.symm)
  · rcases visited_or_ahead swept within ahead (fun scan scanMem => stays scan (by simp [scanMem]))
      with visited | beyond
    · exact List.mem_cons_of_mem _ visited
    · exact absurd (followsLast.le_cursor turns (stays last (by simp))) (not_le.mpr beyond)

/--
In every sweep of the log, from its start or a turn around to the next turn, the
visited keys increase, and each key that stays in the list is visited once.
-/
structure Fair (log : List (Scan κ)) : Prop where
  increasing : ∀ before first sweep after, log = before ++ first :: sweep ++ after →
    (first.wraps = true ∨ before = []) → (∀ scan ∈ sweep, scan.wraps = false) →
    ((first :: sweep).map Scan.key).Pairwise (· < ·)
  once : ∀ before first sweep last after, log = before ++ (first :: sweep ++ [last]) ++ after →
    (first.wraps = true ∨ before = []) → (∀ scan ∈ sweep, scan.wraps = false) →
    last.wraps = true → ∀ key, (∀ scan ∈ first :: sweep ++ [last], key ∈ scan.keys) →
    ((first :: sweep).map Scan.key).count key = 1

/-- A cursor that starts below all keys is fair. -/
theorem fair_of_scans (scans : Scans low low log) : Fair log := by
  have increasing : ∀ before first sweep after, log = before ++ first :: sweep ++ after →
      (∀ scan ∈ sweep, scan.wraps = false) →
      ((first :: sweep).map Scan.key).Pairwise (· < ·) := by
    rintro before first sweep after rfl within
    rcases (scans_append.mp (scans_append.mp scans).1).2 with ⟨_, swept⟩
    exact keys_increasing swept within
  refine ⟨fun before first sweep after logEq _ => increasing before first sweep after logEq, ?_⟩
  intro before first sweep last after logEq starts within turns key stays
  have unique := increasing before first sweep (last :: after) (by simp [logEq]) within
  subst logEq
  have swept := (scans_append.mp (scans_append.mp scans).1).2
  have started : first.wraps = true ∨ cursorAfter low before = low := by
    rcases starts with turned | fresh
    · exact Or.inl turned
    · exact Or.inr (by rw [fresh]; rfl)
  exact List.count_eq_one_of_mem (unique.imp (fun less => less.ne))
    (sweep_visits swept started within turns stays)

end Sweep
