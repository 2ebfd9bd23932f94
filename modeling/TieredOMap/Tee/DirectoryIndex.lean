import TieredOMap.Tee.PackedDirectory

/-!
# The directory as an index

The slots in use list the hot keys with their leaves. A directory `Indexes` some labels if it
lists each of them once and counts its slots in use: then a scan finds the leaf of a key, and
each operation of the directory is that of a finite map.
-/

namespace TieredOmap

namespace PackedDirectory

/-- The key and the leaf of a slot in use. -/
def labelOf (entry : DirEntry) : Option (Int × Int) :=
  if entry.key = invalidKey then none else some (entry.key, entry.posLabel)

/-- The keys of some slots with their leaves. -/
def labelled (entries : List DirEntry) : List (Int × Int) := entries.filterMap labelOf

/-- The keys of the directory with their leaves. -/
def listing (dir : PackedDirectory) : List (Int × Int) := labelled dir.entries

variable {dir : PackedDirectory} {entry : DirEntry} {entries front back : List DirEntry}
  {key posLabel epoch : Int}

theorem labelOf_empty (empty : entry.key = invalidKey) : labelOf entry = none := if_pos empty

theorem labelOf_used (used : entry.key ≠ invalidKey) :
    labelOf entry = some (entry.key, entry.posLabel) := if_neg used

@[simp]
theorem labelled_append (entries others : List DirEntry) :
    labelled (entries ++ others) = labelled entries ++ labelled others :=
  List.filterMap_append

theorem labelled_cons_empty (empty : entry.key = invalidKey) :
    labelled (entry :: entries) = labelled entries :=
  List.filterMap_cons_none (labelOf_empty empty)

theorem labelled_cons_used (used : entry.key ≠ invalidKey) :
    labelled (entry :: entries) = (entry.key, entry.posLabel) :: labelled entries :=
  List.filterMap_cons_some (labelOf_used used)

theorem mem_labelled : (key, posLabel) ∈ labelled entries ↔
    key ≠ invalidKey ∧ ∃ entry ∈ entries, entry.key = key ∧ entry.posLabel = posLabel := by
  unfold labelled
  rw [List.mem_filterMap]
  constructor
  · rintro ⟨entry, mem, found⟩
    by_cases empty : entry.key = invalidKey
    · rw [labelOf_empty empty] at found
      cases found
    · rw [labelOf_used empty] at found
      cases found
      exact ⟨empty, entry, mem, rfl, rfl⟩
  · rintro ⟨used, entry, mem, rfl, rfl⟩
    exact ⟨entry, mem, labelOf_used used⟩

/-- The number of the slots in use. -/
theorem length_labelled (entries : List DirEntry) :
    (labelled entries).length = entries.countP (fun entry => entry.key ≠ invalidKey) := by
  induction entries with
  | nil => rfl
  | cons entry rest ih =>
      by_cases empty : entry.key = invalidKey
      · rw [labelled_cons_empty empty, List.countP_cons_of_neg (by simpa using empty), ih]
      · rw [labelled_cons_used empty, List.countP_cons_of_pos (by simpa using empty),
          List.length_cons, ih]

/-! ## The operations on the slots -/

/-- A scan finds what every slot of the key says. -/
theorem foldl_lookup (entries : List DirEntry) (key posLabel result : Int)
    (agree : ∀ entry ∈ entries, entry.key = key → entry.posLabel = posLabel) :
    entries.foldl (fun result entry => oMov (oEqual entry.key key) result entry.posLabel) result =
      if ∃ entry ∈ entries, entry.key = key then posLabel else result := by
  induction entries generalizing result with
  | nil => simp
  | cons entry rest ih =>
      rw [List.foldl_cons, ih _ (fun entry mem => agree entry (List.mem_cons_of_mem _ mem))]
      by_cases here : entry.key = key
      · have sameLeaf := agree entry List.mem_cons_self here
        simp [here, sameLeaf]
      · simp [here]

theorem lookup_of_agree
    (agree : ∀ entry ∈ dir.entries, entry.key = key → entry.posLabel = posLabel) :
    dir.lookup key = if ∃ entry ∈ dir.entries, entry.key = key then posLabel else invalidLeaf :=
  foldl_lookup dir.entries key posLabel invalidLeaf agree

/-- A key that has been inserted is not inserted again. -/
theorem insertSlot_done (real inserted : Bool) (done : (real && !inserted) = false)
    (entries : List DirEntry) :
    insertSlot real key posLabel entries inserted = (entries, inserted) := by
  induction entries with
  | nil => rfl
  | cons entry rest ih =>
      unfold insertSlot
      simp only [done, Bool.false_and, Bool.or_false, oMov_false, ih]

/-- The key gets the first empty slot. -/
theorem insertSlot_split (used : ∀ entry ∈ front, entry.key ≠ invalidKey)
    (empty : entry.key = invalidKey) :
    insertSlot true key posLabel (front ++ entry :: back) false =
      (front ++ { entry with key, posLabel } :: back, true) := by
  induction front with
  | nil =>
      unfold insertSlot
      rw [List.nil_append]
      dsimp only
      rw [empty]
      simp only [oEqual_eq, decide_true, Bool.not_false, Bool.and_self, Bool.or_true, oMov_true]
      rw [insertSlot_done true true rfl]
      rfl
  | cons head rest ih =>
      have headUsed := used head List.mem_cons_self
      rw [List.cons_append]
      unfold insertSlot
      simp only [oEqual_eq, headUsed, decide_false, Bool.and_false, Bool.or_false, oMov_false,
        ih (fun entry mem => used entry (List.mem_cons_of_mem _ mem))]
      rfl

/-- While not every slot is in use, there is a first one that is empty. -/
theorem exists_empty_slot (room : (labelled entries).length < entries.length) :
    ∃ front entry back, entries = front ++ entry :: back ∧ entry.key = invalidKey ∧
      ∀ entry ∈ front, entry.key ≠ invalidKey := by
  induction entries with
  | nil => exact absurd room (by simp)
  | cons head rest ih =>
      by_cases empty : head.key = invalidKey
      · exact ⟨[], head, rest, rfl, empty, by simp⟩
      · rw [labelled_cons_used empty, List.length_cons, List.length_cons] at room
        rcases ih (by omega) with ⟨front, entry, back, rfl, isEmpty, used⟩
        refine ⟨head :: front, entry, back, rfl, isEmpty, ?_⟩
        intro entry mem
        rcases List.mem_cons.mp mem with rfl | inFront
        · exact empty
        · exact used entry inFront

theorem listing_insert (isReal : key ≠ invalidKey) (room : dir.listing.length < dir.capacity) :
    (dir.insert key posLabel).listing.Perm ((key, posLabel) :: dir.listing) ∧
      (dir.insert key posLabel).count = dir.count + 1 ∧
      (dir.insert key posLabel).capacity = dir.capacity := by
  rcases exists_empty_slot room with ⟨front, entry, back, split, empty, used⟩
  have real : (!oEqual key invalidKey) = true := by simpa using isReal
  unfold insert listing capacity
  rw [real, split, insertSlot_split used empty]
  refine ⟨?_, rfl, by simp⟩
  rw [labelled_append, labelled_append, labelled_cons_empty empty,
    labelled_cons_used (by exact isReal)]
  exact List.perm_middle

/-- Inserting no key changes nothing. -/
theorem insert_invalidKey : dir.insert invalidKey posLabel = dir := by
  unfold insert
  rw [show (!oEqual invalidKey invalidKey) = false from rfl, insertSlot_done false false rfl]
  simp

theorem clearSlot_of_eq (isReal : key ≠ invalidKey) (same : entry.key = key) :
    (clearSlot (!oEqual key invalidKey) key entry).key = invalidKey := by
  simp [clearSlot, same, isReal]

theorem clearSlot_of_ne (real : Bool) (other : entry.key ≠ key) :
    clearSlot real key entry = entry := by
  simp [clearSlot, other]

theorem labelled_clearSlot (isReal : key ≠ invalidKey) (entries : List DirEntry) :
    labelled (entries.map (clearSlot (!oEqual key invalidKey) key)) =
      (labelled entries).filter (fun label => label.1 ≠ key) := by
  induction entries with
  | nil => rfl
  | cons entry rest ih =>
      rw [List.map_cons]
      by_cases same : entry.key = key
      · rw [labelled_cons_empty (clearSlot_of_eq isReal same), ih,
          labelled_cons_used (same ▸ isReal), List.filter_cons_of_neg (by simpa using same)]
      · rw [clearSlot_of_ne _ same]
        by_cases empty : entry.key = invalidKey
        · rw [labelled_cons_empty empty, labelled_cons_empty empty, ih]
        · rw [labelled_cons_used empty, labelled_cons_used empty,
            List.filter_cons_of_pos (by simpa using same), ih]

theorem listing_remove (isReal : key ≠ invalidKey) :
    (dir.remove key).listing = dir.listing.filter (fun label => label.1 ≠ key) :=
  labelled_clearSlot isReal dir.entries

/-- Removing no key changes nothing. -/
theorem remove_invalidKey : dir.remove invalidKey = dir := by
  have same : clearSlot (!oEqual invalidKey invalidKey) invalidKey = id := by
    funext entry
    simp [clearSlot]
  have noMatch : dir.entries.any (fun _ => false) = false := List.any_eq_false.mpr (by simp)
  unfold remove
  dsimp only
  rw [same]
  simp [noMatch]

theorem listing_updatePos (newPos : Int) :
    (dir.updatePos key newPos).listing =
      dir.listing.map (fun label => (label.1, if label.1 = key then newPos else label.2)) := by
  unfold updatePos listing
  dsimp only
  induction dir.entries with
  | nil => rfl
  | cons entry rest ih =>
      rw [List.map_cons]
      by_cases empty : entry.key = invalidKey
      · rw [labelled_cons_empty (by exact empty), labelled_cons_empty empty, ih]
      · rw [labelled_cons_used (by exact empty), labelled_cons_used empty, List.map_cons, ih]
        simp [oMov]

theorem listing_bumpFreq : (dir.bumpFreq key epoch).listing = dir.listing := by
  unfold bumpFreq listing labelled
  rw [List.filterMap_map]
  rfl

/-- What the scan finds, if it finds a key, is a slot that it accepts. -/
theorem findDemoteCandidate_spec (dir : PackedDirectory) (scanIdx epoch windows threshold : Int) :
    dir.findDemoteCandidate scanIdx epoch windows threshold = invalidKey ∨
      ∃ entry ∈ dir.entries, shouldDemote epoch windows threshold entry = true ∧
        entry.key = dir.findDemoteCandidate scanIdx epoch windows threshold := by
  refine List.foldlRecOn (motive := fun result => result = invalidKey ∨
    ∃ entry ∈ dir.entries, shouldDemote epoch windows threshold entry = true ∧
      entry.key = result) _ _ (Or.inl rfl) ?_
  intro result accepted i inRange
  dsimp only
  cases taken : (shouldDemote epoch windows threshold
      (dir.entries.getD ((scanIdx + i) % dir.capacity).toNat {}) && oEqual result invalidKey) with
  | false => exact accepted
  | true =>
      have bound : ((scanIdx + i) % dir.capacity).toNat < dir.entries.length := by
        have positive : 0 < dir.entries.length := by
          have := List.mem_range.mp inRange
          unfold capacity at this
          omega
        unfold capacity
        have lower := Int.emod_nonneg (scanIdx + i) (b := dir.entries.length) (by omega)
        have upper := Int.emod_lt_of_pos (scanIdx + i) (b := dir.entries.length) (by omega)
        omega
      refine Or.inr ⟨_, ?_, (Bool.and_eq_true_iff.mp taken).1, rfl⟩
      rw [List.getD_eq_getElem _ _ bound]
      exact List.getElem_mem bound

/-! ## The index -/

/-- The directory lists the labels, each once, and counts them. -/
structure Indexes (dir : PackedDirectory) (labels : Int → Option Int) : Prop where
  once : (dir.listing.map Prod.fst).Nodup
  entry : ∀ key posLabel, (key, posLabel) ∈ dir.listing ↔ labels key = some posLabel
  count : dir.count = dir.listing.length

section Indexes

variable {labels : Int → Option Int}

theorem indexes_new (capacity : Nat) : (new capacity).Indexes (fun _ => none) := by
  have none : (new capacity).listing = [] := by
    refine List.filterMap_eq_nil_iff.mpr (fun entry mem => ?_)
    rw [List.eq_of_mem_replicate mem]
    exact labelOf_empty rfl
  refine ⟨?_, ?_, ?_⟩
  · rw [none]
    exact List.nodup_nil
  · simp [none]
  · rw [none]
    rfl

/-- Two slots of one key have one leaf. -/
theorem Indexes.agree (indexes : dir.Indexes labels) (isReal : key ≠ invalidKey)
    (labelled : labels key = some posLabel) :
    ∀ entry ∈ dir.entries, entry.key = key → entry.posLabel = posLabel := by
  rintro entry mem rfl
  have listed := (indexes.entry entry.key entry.posLabel).mp
    (mem_labelled.mpr ⟨isReal, entry, mem, rfl, rfl⟩)
  exact (Option.some.inj (labelled.symm.trans listed)).symm

theorem Indexes.isReal (indexes : dir.Indexes labels) (labelled : labels key = some posLabel) :
    key ≠ invalidKey :=
  (mem_labelled.mp ((indexes.entry key posLabel).mpr labelled)).1

theorem Indexes.lookup_found (indexes : dir.Indexes labels)
    (labelled : labels key = some posLabel) : dir.lookup key = posLabel := by
  rcases mem_labelled.mp ((indexes.entry key posLabel).mpr labelled) with
    ⟨isReal, entry, mem, same, -⟩
  rw [lookup_of_agree (indexes.agree isReal labelled), if_pos ⟨entry, mem, same⟩]

theorem Indexes.lookup_absent (indexes : dir.Indexes labels) (isReal : key ≠ invalidKey)
    (absent : labels key = none) : dir.lookup key = invalidLeaf := by
  have noSlot : ¬ ∃ entry ∈ dir.entries, entry.key = key := by
    rintro ⟨entry, mem, rfl⟩
    have listed := (indexes.entry entry.key entry.posLabel).mp
      (mem_labelled.mpr ⟨isReal, entry, mem, rfl, rfl⟩)
    rw [absent] at listed
    cases listed
  rw [@lookup_of_agree dir key 0 (fun entry mem same => absurd ⟨entry, mem, same⟩ noSlot),
    if_neg noSlot]

theorem Indexes.insert (indexes : dir.Indexes labels) (isReal : key ≠ invalidKey)
    (absent : labels key = none) (room : dir.count < dir.capacity) (posLabel : Int) :
    (dir.insert key posLabel).Indexes (Function.update labels key (some posLabel)) ∧
      (dir.insert key posLabel).capacity = dir.capacity := by
  have space : dir.listing.length < dir.capacity := by
    have := indexes.count
    omega
  rcases @listing_insert dir key posLabel isReal space with ⟨perm, count, capacity⟩
  have notListed : key ∉ dir.listing.map Prod.fst := by
    intro mem
    rcases List.mem_map.mp mem with ⟨⟨key', label⟩, listed, rfl⟩
    rw [(indexes.entry key' label).mp listed] at absent
    cases absent
  refine ⟨⟨?_, ?_, ?_⟩, capacity⟩
  · rw [(perm.map Prod.fst).nodup_iff, List.map_cons, List.nodup_cons]
    exact ⟨notListed, indexes.once⟩
  · intro key' label
    rw [perm.mem_iff, List.mem_cons, indexes.entry, Function.update_apply, Prod.mk.injEq]
    by_cases same : key' = key
    · subst same
      simp [absent, eq_comm]
    · simp [same]
  · rw [count, indexes.count, perm.length_eq, List.length_cons]
    push_cast
    rfl

/-- The labels after those of some keys, unless negative, have been inserted. -/
def withEntries (entries : List (Int × Int)) (labels : Int → Option Int) : Int → Option Int :=
  fun key => if 0 ≤ key then (KeyMap.lookupEntry entries key).or (labels key) else labels key

theorem withEntries_cons {key posLabel : Int} {rest : List (Int × Int)} (nonneg : 0 ≤ key)
    (notAgain : key ∉ rest.map Prod.fst) (labels : Int → Option Int) :
    withEntries rest (Function.update labels key (some posLabel)) =
      withEntries ((key, posLabel) :: rest) labels := by
  have noMore : KeyMap.lookupEntry rest key = none := by
    rw [← Option.not_isSome_iff_eq_none, KeyMap.lookupEntry_isSome_iff]
    exact notAgain
  funext key'
  unfold withEntries
  simp only [Function.update_apply, KeyMap.lookupEntry]
  by_cases same : key' = key
  · subst same
    simp [nonneg, noMore]
  · simp [same]

/-- Inserting keys in turn, without the negative ones. -/
theorem Indexes.insertAll (indexes : dir.Indexes labels) {entries : List (Int × Int)}
    (distinct : (entries.map Prod.fst).Nodup)
    (absent : ∀ entry ∈ entries, 0 ≤ entry.1 → labels entry.1 = none)
    (room : dir.count + (entries.filter (fun entry => 0 ≤ entry.1)).length ≤ dir.capacity) :
    (entries.foldl (fun dir entry => if 0 ≤ entry.1 then dir.insert entry.1 entry.2 else dir)
        dir).Indexes (withEntries entries labels) ∧
      (entries.foldl (fun dir entry => if 0 ≤ entry.1 then dir.insert entry.1 entry.2 else dir)
        dir).capacity = dir.capacity := by
  induction entries generalizing dir labels with
  | nil =>
      have same : withEntries [] labels = labels := by
        funext key
        simp [withEntries, KeyMap.lookupEntry]
      rw [same]
      exact ⟨indexes, rfl⟩
  | cons entry rest ih =>
      rcases entry with ⟨key, posLabel⟩
      rw [List.map_cons, List.nodup_cons] at distinct
      rw [List.foldl_cons]
      by_cases nonneg : 0 ≤ key
      · rw [List.filter_cons_of_pos (by simpa using nonneg), List.length_cons] at room
        have isReal : key ≠ invalidKey := by
          rintro rfl
          exact absurd nonneg (by decide)
        rcases indexes.insert isReal (absent _ List.mem_cons_self nonneg) (by omega) posLabel with
          ⟨inserted, capacity⟩
        have count : (dir.insert key posLabel).count = dir.count + 1 := by
          have space : dir.listing.length < dir.capacity := by
            have := indexes.count
            omega
          exact (listing_insert isReal space).2.1
        rw [if_pos nonneg, ← withEntries_cons nonneg distinct.1 labels, ← capacity]
        have differs : ∀ entry ∈ rest, entry.1 ≠ key := by
          rintro entry mem rfl
          exact distinct.1 (List.mem_map.mpr ⟨entry, mem, rfl⟩)
        refine ih inserted distinct.2 (fun entry mem entryNonneg => ?_) ?_
        · rw [Function.update_of_ne (differs entry mem)]
          exact absent entry (List.mem_cons_of_mem _ mem) entryNonneg
        · dsimp only
          omega
      · rw [List.filter_cons_of_neg (by simpa using nonneg)] at room
        have same : withEntries ((key, posLabel) :: rest) labels = withEntries rest labels := by
          funext key'
          unfold withEntries
          split
          · rename_i nonneg'
            have differs : key' ≠ key := fun eq => nonneg (eq ▸ nonneg')
            simp only [KeyMap.lookupEntry, if_neg differs]
          · rfl
        rw [if_neg nonneg, same]
        exact ih indexes distinct.2 (fun entry mem => absent entry (List.mem_cons_of_mem _ mem)) room

theorem Indexes.remove (indexes : dir.Indexes labels) (labelled : labels key = some posLabel) :
    (dir.remove key).Indexes (Function.update labels key none) := by
  have isReal := indexes.isReal labelled
  have listed := (indexes.entry key posLabel).mpr labelled
  have removed := @listing_remove dir key isReal
  have once : ((dir.remove key).listing.map Prod.fst).Nodup := by
    rw [removed]
    exact indexes.once.sublist (List.filter_sublist.map _)
  refine ⟨once, ?_, ?_⟩
  · intro key' label
    rw [removed, List.mem_filter, indexes.entry, Function.update_apply]
    by_cases same : key' = key <;> simp [same]
  · have found : dir.entries.any (fun entry => !oEqual key invalidKey && oEqual entry.key key) =
        true := by
      rcases mem_labelled.mp listed with ⟨-, entry, mem, same, -⟩
      exact List.any_eq_true.mpr ⟨entry, mem, by simp [isReal, same]⟩
    have erased : ((key, posLabel) :: (dir.remove key).listing).Perm dir.listing := by
      refine (List.perm_ext_iff_of_nodup ?_ (List.Nodup.of_map _ indexes.once)).mpr ?_
      · refine List.nodup_cons.mpr ⟨?_, List.Nodup.of_map _ once⟩
        rw [removed, List.mem_filter]
        simp
      · rintro ⟨key', label⟩
        rw [List.mem_cons, removed, List.mem_filter, indexes.entry, Prod.mk.injEq]
        by_cases same : key' = key
        · subst same
          simp [labelled, eq_comm]
        · simp [same]
    have length := erased.length_eq
    have before := indexes.count
    rw [List.length_cons] at length
    change dir.count - oSelect (dir.entries.any _) 1 0 = _
    rw [found, oSelect_true]
    omega

theorem Indexes.updatePos (indexes : dir.Indexes labels) (labelled : labels key = some posLabel)
    (newPos : Int) :
    (dir.updatePos key newPos).Indexes (Function.update labels key (some newPos)) := by
  have updated := @listing_updatePos dir key newPos
  refine ⟨?_, ?_, ?_⟩
  · rw [updated, List.map_map]
    exact indexes.once
  · intro key' label
    rw [updated, List.mem_map, Function.update_apply]
    constructor
    · rintro ⟨⟨key'', label'⟩, mem, moved⟩
      cases moved
      rw [(indexes.entry key'' label').mp mem]
      split <;> rfl
    · intro listed
      by_cases same : key' = key
      · subst same
        rw [if_pos rfl] at listed
        cases listed
        exact ⟨_, (indexes.entry key' posLabel).mpr labelled, by simp⟩
      · rw [if_neg same] at listed
        exact ⟨_, (indexes.entry key' label).mpr listed, by simp [same]⟩
  · rw [updated, List.length_map]
    exact indexes.count

/-- No slot of the key is there to be changed. -/
theorem Indexes.updatePos_absent (indexes : dir.Indexes labels) (isReal : key ≠ invalidKey)
    (absent : labels key = none) (newPos : Int) : dir.updatePos key newPos = dir := by
  have same : dir.entries.map (fun entry => { entry with
      posLabel := oMov (oEqual entry.key key) entry.posLabel newPos }) = dir.entries := by
    refine (List.map_congr_left (fun entry mem => ?_)).trans (List.map_id _)
    have other : entry.key ≠ key := by
      rintro rfl
      have listed := (indexes.entry entry.key entry.posLabel).mp
        (mem_labelled.mpr ⟨isReal, entry, mem, rfl, rfl⟩)
      rw [absent] at listed
      cases listed
    simp [other]
  unfold PackedDirectory.updatePos
  rw [same]

theorem Indexes.bumpFreq (indexes : dir.Indexes labels) :
    (dir.bumpFreq key epoch).Indexes labels := by
  refine ⟨?_, ?_, ?_⟩
  · rw [listing_bumpFreq]
    exact indexes.once
  · rw [listing_bumpFreq]
    exact indexes.entry
  · rw [listing_bumpFreq]
    exact indexes.count

end Indexes

end PackedDirectory

end TieredOmap
