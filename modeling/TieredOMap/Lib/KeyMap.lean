import Mathlib.Data.List.Nodup
import Mathlib.Tactic.Common

/-!
# Finite maps as association lists

A map from keys to values kept as a list of entries in insertion order, with
the fact that no key occurs twice as a field. Lookups and updates evaluate by
structural recursion, so maps compute inside `decide`.
-/

/-- An association list in which no key occurs twice. -/
structure KeyMap (κ β : Type) where
  entries : List (κ × β)
  nodup : (entries.map Prod.fst).Nodup

namespace KeyMap

variable {κ β : Type}

/-- The keys of a map, in insertion order. -/
def keys (map : KeyMap κ β) : List κ := map.entries.map Prod.fst

theorem nodup_keys (map : KeyMap κ β) : map.keys.Nodup := map.nodup

/-- The empty map. -/
def empty : KeyMap κ β := ⟨[], by simp⟩

instance : EmptyCollection (KeyMap κ β) := ⟨empty⟩

@[simp]
theorem keys_empty : (∅ : KeyMap κ β).keys = [] := rfl

variable [DecidableEq κ]

/-- The value of the first entry with the given key. -/
def lookupEntry : List (κ × β) → κ → Option β
  | [], _ => none
  | (key', value) :: rest, key => if key = key' then some value else lookupEntry rest key

/-- Overwrite the entry with the given key, or append a new one. -/
def setEntry : List (κ × β) → κ → β → List (κ × β)
  | [], key, value => [(key, value)]
  | (key', value') :: rest, key, value =>
      if key = key' then (key, value) :: rest else (key', value') :: setEntry rest key value

theorem mem_keys_setEntry {entries : List (κ × β)} {key key' : κ} {value : β} :
    key' ∈ (setEntry entries key value).map Prod.fst ↔
      key' = key ∨ key' ∈ entries.map Prod.fst := by
  induction entries with
  | nil => simp [setEntry]
  | cons entry rest ih =>
      rcases entry with ⟨headKey, headValue⟩
      by_cases same : key = headKey
      · simp [setEntry, same]
      · simp only [setEntry, same, if_false, List.map_cons, List.mem_cons, ih]
        tauto

theorem nodup_setEntry {entries : List (κ × β)} (nodup : (entries.map Prod.fst).Nodup)
    (key : κ) (value : β) : ((setEntry entries key value).map Prod.fst).Nodup := by
  induction entries with
  | nil => simp [setEntry]
  | cons entry rest ih =>
      rcases entry with ⟨headKey, headValue⟩
      simp only [List.map_cons, List.nodup_cons] at nodup
      by_cases same : key = headKey
      · simpa [setEntry, same] using nodup
      · simp only [setEntry, same, if_false, List.map_cons, List.nodup_cons, mem_keys_setEntry]
        refine ⟨?_, ih nodup.2⟩
        rintro (headEq | headMem)
        · exact same headEq.symm
        · exact nodup.1 headMem

/-- The value stored under a key. -/
def get? (map : KeyMap κ β) (key : κ) : Option β := lookupEntry map.entries key

/-- Store a value under a key. -/
def set (map : KeyMap κ β) (key : κ) (value : β) : KeyMap κ β :=
  ⟨setEntry map.entries key value, nodup_setEntry map.nodup key value⟩

/-- Remove a key. -/
def erase (map : KeyMap κ β) (key : κ) : KeyMap κ β :=
  ⟨map.entries.filter (fun entry => entry.1 ≠ key),
    map.nodup.sublist (List.filter_sublist.map Prod.fst)⟩

theorem lookupEntry_setEntry (entries : List (κ × β)) (key key' : κ) (value : β) :
    lookupEntry (setEntry entries key value) key' =
      if key' = key then some value else lookupEntry entries key' := by
  induction entries with
  | nil => simp [setEntry, lookupEntry]
  | cons entry rest ih =>
      rcases entry with ⟨headKey, headValue⟩
      by_cases same : key = headKey
      · subst headKey
        by_cases hit : key' = key <;> simp [setEntry, lookupEntry, hit]
      · by_cases hit : key' = headKey
        · have differs : ¬key' = key := fun eq => same (eq.symm.trans hit)
          simp [setEntry, lookupEntry, same, hit, Ne.symm same]
        · simp [setEntry, lookupEntry, same, hit, ih]

theorem lookupEntry_filter (entries : List (κ × β)) (key key' : κ) :
    lookupEntry (entries.filter (fun entry => entry.1 ≠ key)) key' =
      if key' = key then none else lookupEntry entries key' := by
  induction entries with
  | nil => simp [lookupEntry]
  | cons entry rest ih =>
      rcases entry with ⟨headKey, headValue⟩
      by_cases dropped : headKey = key
      · subst headKey
        by_cases hit : key' = key
        · subst key'
          simpa using ih
        · simpa [lookupEntry, hit] using ih
      · by_cases hit : key' = headKey
        · simp [lookupEntry, dropped, hit]
        · simpa [lookupEntry, dropped, hit] using ih

theorem lookupEntry_eq_some_iff {entries : List (κ × β)}
    (nodup : (entries.map Prod.fst).Nodup) {key : κ} {value : β} :
    lookupEntry entries key = some value ↔ (key, value) ∈ entries := by
  induction entries with
  | nil => simp [lookupEntry]
  | cons entry rest ih =>
      rcases entry with ⟨headKey, headValue⟩
      simp only [List.map_cons, List.nodup_cons] at nodup
      by_cases hit : key = headKey
      · subst headKey
        have absent : (key, value) ∉ rest :=
          fun mem => nodup.1 (List.mem_map_of_mem (f := Prod.fst) mem)
        simp [lookupEntry, absent, eq_comm]
      · simp [lookupEntry, hit, ih nodup.2]

theorem lookupEntry_isSome_iff {entries : List (κ × β)} {key : κ} :
    (lookupEntry entries key).isSome ↔ key ∈ entries.map Prod.fst := by
  induction entries with
  | nil => simp [lookupEntry]
  | cons entry rest ih =>
      rcases entry with ⟨headKey, headValue⟩
      by_cases hit : key = headKey <;> simp [lookupEntry, hit, ih]

@[simp]
theorem get?_empty (key : κ) : (∅ : KeyMap κ β).get? key = none := rfl

theorem get?_set (map : KeyMap κ β) (key key' : κ) (value : β) :
    (map.set key value).get? key' = if key' = key then some value else map.get? key' :=
  lookupEntry_setEntry map.entries key key' value

@[simp]
theorem get?_set_self (map : KeyMap κ β) (key : κ) (value : β) :
    (map.set key value).get? key = some value := by
  simp [get?_set]

theorem get?_set_of_ne (map : KeyMap κ β) {key key' : κ} (value : β) (differs : key' ≠ key) :
    (map.set key value).get? key' = map.get? key' := by
  simp [get?_set, differs]

theorem get?_erase (map : KeyMap κ β) (key key' : κ) :
    (map.erase key).get? key' = if key' = key then none else map.get? key' :=
  lookupEntry_filter map.entries key key'

@[simp]
theorem get?_erase_self (map : KeyMap κ β) (key : κ) : (map.erase key).get? key = none := by
  simp [get?_erase]

theorem get?_erase_of_ne (map : KeyMap κ β) {key key' : κ} (differs : key' ≠ key) :
    (map.erase key).get? key' = map.get? key' := by
  simp [get?_erase, differs]

theorem get?_eq_some_iff (map : KeyMap κ β) {key : κ} {value : β} :
    map.get? key = some value ↔ (key, value) ∈ map.entries :=
  lookupEntry_eq_some_iff map.nodup

theorem mem_keys_iff (map : KeyMap κ β) {key : κ} : key ∈ map.keys ↔ (map.get? key).isSome :=
  lookupEntry_isSome_iff.symm

theorem mem_keys_set (map : KeyMap κ β) {key key' : κ} {value : β} :
    key' ∈ (map.set key value).keys ↔ key' = key ∨ key' ∈ map.keys :=
  mem_keys_setEntry

theorem mem_keys_erase (map : KeyMap κ β) {key key' : κ} :
    key' ∈ (map.erase key).keys ↔ key' ≠ key ∧ key' ∈ map.keys := by
  rw [mem_keys_iff, mem_keys_iff, get?_erase]
  by_cases hit : key' = key <;> simp [hit]

/-- To overwrite a value with itself changes nothing. -/
theorem setEntry_of_lookupEntry {entries : List (κ × β)} {key : κ} {value : β}
    (found : lookupEntry entries key = some value) : setEntry entries key value = entries := by
  induction entries with
  | nil => cases found
  | cons entry rest ih =>
      rcases entry with ⟨headKey, headValue⟩
      by_cases hit : key = headKey
      · simp only [lookupEntry, hit, if_true, Option.some.injEq] at found
        simp [setEntry, hit, found]
      · simp only [lookupEntry, hit, if_false] at found
        simp [setEntry, hit, ih found]

theorem set_of_get? {map : KeyMap κ β} {key : κ} {value : β}
    (present : map.get? key = some value) : map.set key value = map := by
  have same := setEntry_of_lookupEntry present
  rcases map with ⟨entries, nodup⟩
  simp only [set, same]

theorem setEntry_of_notMem {entries : List (κ × β)} {key : κ} {value : β}
    (isNew : key ∉ entries.map Prod.fst) : setEntry entries key value = entries ++ [(key, value)] := by
  induction entries with
  | nil => rfl
  | cons entry rest ih =>
      rcases entry with ⟨headKey, headValue⟩
      rw [List.map_cons, List.mem_cons, not_or] at isNew
      rw [setEntry, if_neg isNew.1, ih isNew.2, List.cons_append]

omit [DecidableEq κ] in
theorem eq_of_entries {map map' : KeyMap κ β} (same : map.entries = map'.entries) :
    map = map' := by
  rcases map with ⟨entries, nodup⟩
  rcases map' with ⟨entries', nodup'⟩
  cases same
  rfl

/-- A map is what setting its entries one after the other gives. -/
theorem foldl_set_entries (map : KeyMap κ β) :
    map.entries.foldl (fun result entry => result.set entry.1 entry.2) ∅ = map := by
  have filled : ∀ (rest : List (κ × β)) (start : KeyMap κ β),
      ((start.entries ++ rest).map Prod.fst).Nodup →
      (rest.foldl (fun result entry => result.set entry.1 entry.2) start).entries =
        start.entries ++ rest := by
    intro rest
    induction rest with
    | nil => exact fun start _ => (List.append_nil _).symm
    | cons entry rest ih =>
        intro start nodup
        have isNew : entry.1 ∉ start.entries.map Prod.fst := by
          intro old
          rw [List.map_append, List.nodup_append] at nodup
          exact nodup.2.2 entry.1 old entry.1 List.mem_cons_self rfl
        have added : (start.set entry.1 entry.2).entries = start.entries ++ [entry] :=
          setEntry_of_notMem isNew
        have same : start.entries ++ entry :: rest = start.entries ++ [entry] ++ rest := by simp
        rw [List.foldl_cons, ih _ (by rw [added, ← same]; exact nodup), added, same]
  exact eq_of_entries (filled map.entries ∅ map.nodup)

/-- A lookup with the default that `operator[]` would create. -/
def getD (map : KeyMap κ β) (key : κ) (default : β) : β := (map.get? key).getD default

/-- `operator[]` on a missing key leaves a default entry behind. -/
def touch (map : KeyMap κ β) (key : κ) (default : β) : KeyMap κ β :=
  match map.get? key with
  | some _ => map
  | none => map.set key default

theorem touch_of_get? {map : KeyMap κ β} {key : κ} {value default : β}
    (present : map.get? key = some value) : map.touch key default = map := by
  simp [touch, present]

theorem getD_of_get? {map : KeyMap κ β} {key : κ} {value default : β}
    (present : map.get? key = some value) : map.getD key default = value := by
  simp [getD, present]

end KeyMap
