import Mathlib.Data.List.Basic
import Mathlib.Logic.Function.Iterate
import Mathlib.Tactic.Common

/-!
# Compaction by bubbling

A pass applies a step to every pair of neighbours from the left. If the step swaps a
pair exactly when only its right item is valid, then each pass brings one more invalid
item to the end, and as many passes as there are items bring all valid ones to the front.
-/

namespace Bubble

variable {α : Type}

/-- Carry an item through a list. -/
def carry (step : α → α → α × α) : α → List α → List α
  | item, [] => [item]
  | item, head :: rest => (step item head).1 :: carry step (step item head).2 rest

/-- One pass over a list. -/
def pass (step : α → α → α × α) : List α → List α
  | [] => []
  | head :: rest => carry step head rest

/-- Swap a pair whose right item is the only valid one. -/
def swapOut (valid : α → Bool) (left right : α) : α × α :=
  if !valid left && valid right then (right, left) else (left, right)

theorem swapOut_cases (valid : α → Bool) (left right : α) :
    swapOut valid left right = (right, left) ∨ swapOut valid left right = (left, right) := by
  unfold swapOut
  split
  · exact Or.inl rfl
  · exact Or.inr rfl

theorem length_carry (step : α → α → α × α) (item : α) (items : List α) :
    (carry step item items).length = items.length + 1 := by
  induction items generalizing item with
  | nil => rfl
  | cons head rest ih => rw [carry, List.length_cons, ih, List.length_cons]

theorem length_pass (step : α → α → α × α) (items : List α) :
    (pass step items).length = items.length := by
  cases items with
  | nil => rfl
  | cons head rest => exact length_carry step head rest

theorem length_passes (step : α → α → α × α) (count : Nat) (items : List α) :
    ((pass step)^[count] items).length = items.length := by
  induction count generalizing items with
  | zero => rfl
  | succ count ih => rw [Function.iterate_succ_apply, ih, length_pass]

/-- A step that is only right on some items will do on a list of these. -/
theorem pass_congr {step : α → α → α × α} {valid : α → Bool} {Fits : α → Prop}
    (isSwap : ∀ left right, Fits left → Fits right → step left right = swapOut valid left right)
    {items : List α} (fits : ∀ item ∈ items, Fits item) :
    pass step items = pass (swapOut valid) items := by
  have carried : ∀ (items : List α) (item : α), Fits item → (∀ item ∈ items, Fits item) →
      carry step item items = carry (swapOut valid) item items := by
    intro items
    induction items with
    | nil => exact fun _ _ _ => rfl
    | cons head rest ih =>
        intro item itemFits fits
        have headFits := fits head List.mem_cons_self
        have restFits : ∀ item ∈ rest, Fits item := fun item mem =>
          fits item (List.mem_cons_of_mem _ mem)
        rw [carry, carry, isSwap item head itemFits headFits]
        rcases swapOut_cases valid item head with swapped | kept
        · rw [swapped, ih item itemFits restFits]
        · rw [kept, ih head headFits restFits]
  cases items with
  | nil => rfl
  | cons head rest =>
      exact carried rest head (fits head List.mem_cons_self)
        (fun item mem => fits item (List.mem_cons_of_mem _ mem))

/-- A pass over images, if the step works on images as on the items it fits. -/
theorem pass_map {β : Type} {step : α → α → α × α} {step' : β → β → β × β} {image : α → β}
    {Fits : α → Prop}
    (simulates : ∀ left right, Fits left → Fits right →
      step' (image left) (image right) = Prod.map image image (step left right) ∧
        Fits (step left right).1 ∧ Fits (step left right).2)
    {items : List α} (fits : ∀ item ∈ items, Fits item) :
    pass step' (items.map image) = (pass step items).map image ∧
      ∀ item ∈ pass step items, Fits item := by
  have carried : ∀ (items : List α) (item : α), Fits item → (∀ item ∈ items, Fits item) →
      carry step' (image item) (items.map image) = (carry step item items).map image ∧
        ∀ item' ∈ carry step item items, Fits item' := by
    intro items
    induction items with
    | nil =>
        intro item itemFits _
        refine ⟨rfl, fun item' mem => ?_⟩
        rw [List.mem_singleton.mp mem]
        exact itemFits
    | cons head rest ih =>
        intro item itemFits fits
        rcases simulates item head itemFits (fits head List.mem_cons_self) with
          ⟨same, leftFits, rightFits⟩
        rcases ih (step item head).2 rightFits
          (fun item mem => fits item (List.mem_cons_of_mem _ mem)) with ⟨same', restFits⟩
        rw [List.map_cons, carry, carry, same, List.map_cons]
        refine ⟨congrArg (image (step item head).1 :: ·) same', ?_⟩
        intro item' mem
        rcases List.mem_cons.mp mem with rfl | inRest
        · exact leftFits
        · exact restFits item' inRest
  cases items with
  | nil => exact ⟨rfl, fun _ mem => (List.not_mem_nil mem).elim⟩
  | cons head rest =>
      exact carried rest head (fits head List.mem_cons_self)
        (fun item mem => fits item (List.mem_cons_of_mem _ mem))

theorem passes_map {β : Type} {step : α → α → α × α} {step' : β → β → β × β} {image : α → β}
    {Fits : α → Prop}
    (simulates : ∀ left right, Fits left → Fits right →
      step' (image left) (image right) = Prod.map image image (step left right) ∧
        Fits (step left right).1 ∧ Fits (step left right).2)
    (count : Nat) {items : List α} (fits : ∀ item ∈ items, Fits item) :
    (pass step')^[count] (items.map image) = ((pass step)^[count] items).map image ∧
      ∀ item ∈ (pass step)^[count] items, Fits item := by
  induction count generalizing items with
  | zero => exact ⟨rfl, fits⟩
  | succ count ih =>
      rcases pass_map simulates fits with ⟨same, fits'⟩
      rw [Function.iterate_succ_apply, Function.iterate_succ_apply, same]
      exact ih fits'

section SwapOut

variable (valid : α → Bool)

theorem perm_carry (item : α) (items : List α) :
    (carry (swapOut valid) item items).Perm (item :: items) := by
  induction items generalizing item with
  | nil => exact List.Perm.refl _
  | cons head rest ih =>
      rw [carry]
      rcases swapOut_cases valid item head with swapped | kept
      · rw [swapped]
        exact (List.Perm.cons _ (ih item)).trans (List.Perm.swap _ _ _)
      · rw [kept]
        exact List.Perm.cons _ (ih head)

theorem perm_pass (items : List α) : (pass (swapOut valid) items).Perm items := by
  cases items with
  | nil => exact List.Perm.refl _
  | cons head rest => exact perm_carry valid head rest

theorem perm_passes (count : Nat) (items : List α) :
    ((pass (swapOut valid))^[count] items).Perm items := by
  induction count generalizing items with
  | zero => exact List.Perm.refl _
  | succ count ih =>
      rw [Function.iterate_succ_apply]
      exact (ih _).trans (perm_pass valid items)

theorem passes_congr {step : α → α → α × α} {valid : α → Bool} {Fits : α → Prop}
    (isSwap : ∀ left right, Fits left → Fits right → step left right = swapOut valid left right)
    (count : Nat) {items : List α} (fits : ∀ item ∈ items, Fits item) :
    (pass step)^[count] items = (pass (swapOut valid))^[count] items := by
  induction count with
  | zero => rfl
  | succ count ih =>
      rw [Function.iterate_succ_apply', Function.iterate_succ_apply', ih]
      refine pass_congr isSwap ?_
      exact fun item mem => fits item ((perm_passes valid count items).mem_iff.mp mem)

variable {valid}

/-- Invalid items at the end stay there. -/
theorem carry_append (item : α) (items : List α) {suffix : List α}
    (invalid : ∀ item ∈ suffix, valid item = false) :
    carry (swapOut valid) item (items ++ suffix) = carry (swapOut valid) item items ++ suffix := by
  induction items generalizing item with
  | nil =>
      induction suffix generalizing item with
      | nil => rfl
      | cons head rest ih =>
          have noSwap : swapOut valid item head = (item, head) := by
            simp [swapOut, invalid head List.mem_cons_self]
          have restKept := ih (fun item mem => invalid item (List.mem_cons_of_mem _ mem)) head
          change (swapOut valid item head).1 :: carry (swapOut valid) (swapOut valid item head).2 rest = _
          rw [noSwap]
          exact congrArg (item :: ·) restKept
  | cons head rest ih => rw [List.cons_append, carry, carry, ih, List.cons_append]

theorem pass_append (items : List α) {suffix : List α}
    (invalid : ∀ item ∈ suffix, valid item = false) :
    pass (swapOut valid) (items ++ suffix) = pass (swapOut valid) items ++ suffix := by
  cases items with
  | nil =>
      cases suffix with
      | nil => rfl
      | cons head rest =>
          exact carry_append head [] (fun item mem => invalid item (List.mem_cons_of_mem _ mem))
  | cons head rest => exact carry_append head rest invalid

/-- An invalid item is carried to the end, past all valid ones. -/
theorem carry_last (item : α) (items : List α)
    (present : valid item = false ∨ ∃ item ∈ items, valid item = false) :
    ∃ others last, carry (swapOut valid) item items = others ++ [last] ∧ valid last = false := by
  induction items generalizing item with
  | nil =>
      rcases present with here | ⟨_, mem, _⟩
      · exact ⟨[], item, rfl, here⟩
      · cases mem
  | cons head rest ih =>
      rw [carry]
      by_cases swaps : valid item = false ∧ valid head = true
      · have swapped : swapOut valid item head = (head, item) := by simp [swapOut, swaps]
        rcases ih item (Or.inl swaps.1) with ⟨others, last, eq, invalid⟩
        exact ⟨head :: others, last, by rw [swapped, eq, List.cons_append], invalid⟩
      · have kept : swapOut valid item head = (item, head) := by
          rw [swapOut, if_neg (by simpa using swaps)]
        have stillPresent : valid head = false ∨ ∃ item ∈ rest, valid item = false := by
          rcases present with here | ⟨other, mem, invalid⟩
          · exact Or.inl (by simpa [here] using swaps)
          · rcases List.mem_cons.mp mem with rfl | inRest
            · exact Or.inl invalid
            · exact Or.inr ⟨other, inRest, invalid⟩
        rcases ih head stillPresent with ⟨others, last, eq, invalid⟩
        exact ⟨item :: others, last, by rw [kept, eq, List.cons_append], invalid⟩

/-- After some passes the end of the list is invalid, at least one item for each pass. -/
theorem passes_suffix (count : Nat) (items : List α) : ∃ before suffix,
    (pass (swapOut valid))^[count] items = before ++ suffix ∧
      (∀ item ∈ suffix, valid item = false) ∧
      ((∀ item ∈ before, valid item = true) ∨ count ≤ suffix.length) := by
  induction count with
  | zero => exact ⟨items, [], by simp, by simp, Or.inr (Nat.le_refl _)⟩
  | succ count ih =>
      rcases ih with ⟨before, suffix, eq, invalid, progress⟩
      rw [Function.iterate_succ_apply', eq, pass_append before invalid]
      by_cases allValid : ∀ item ∈ before, valid item = true
      · refine ⟨_, suffix, rfl, invalid, Or.inl ?_⟩
        exact fun item mem => allValid item ((perm_pass valid before).mem_iff.mp mem)
      · have enough := progress.resolve_left allValid
        rcases before with _ | ⟨head, rest⟩
        · exact (allValid (fun item mem => (List.not_mem_nil mem).elim)).elim
        have present : valid head = false ∨ ∃ item ∈ rest, valid item = false := by
          by_contra none
          rw [not_or] at none
          refine allValid (fun item mem => ?_)
          rcases List.mem_cons.mp mem with rfl | inRest
          · simpa using none.1
          · simpa using fun isInvalid => none.2 ⟨item, inRest, isInvalid⟩
        rcases carry_last head rest present with ⟨others, last, carried, lastInvalid⟩
        refine ⟨others, last :: suffix, ?_, ?_, Or.inr ?_⟩
        · rw [pass, carried, List.append_assoc, List.singleton_append]
        · intro item mem
          rcases List.mem_cons.mp mem with rfl | inSuffix
          · exact lastInvalid
          · exact invalid item inSuffix
        · simpa using enough

/-- As many passes as there are items bring the valid ones to the front. -/
theorem passes_length (items : List α) : ∃ front back,
    (pass (swapOut valid))^[items.length] items = front ++ back ∧
      (∀ item ∈ front, valid item = true) ∧ ∀ item ∈ back, valid item = false := by
  rcases passes_suffix items.length items with ⟨before, suffix, eq, invalid, allValid | enough⟩
  · exact ⟨before, suffix, eq, allValid, invalid⟩
  · have total := congrArg List.length eq
    rw [length_passes, List.length_append] at total
    obtain rfl : before = [] := List.length_eq_zero_iff.mp (by omega)
    exact ⟨[], suffix, eq, fun item mem => (List.not_mem_nil mem).elim, invalid⟩

end SwapOut

end Bubble
