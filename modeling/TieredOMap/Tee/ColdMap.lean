import TieredOMap.Tee.EnclaveConserves
import TieredOMap.Tee.TeeAvlOmap

/-!
# The cold tier of the enclave as a map

`ColdMap` lists what `TeeOmap` uses of its cold tier, which is a `TeeAvlOmap`. `LawfulColdMap`
says that these operations are those of a finite map, as long as the map `FindsKeys`: the tree of the
enclave finds a key only within its height. A value is kept up to the value size, with zeros
behind a shorter one; a cold tier need not accept values of every length.
-/

namespace TieredOmap

/-- Any error is allowed: what a program of the enclave returns, if it returns, satisfies `post`. -/
abbrev Returns {Result : Type} (program : TeeRand Result) (post : Result → Prop) : Prop :=
  Prog.Ends (fun _ => True) program post

theorem returns_any {Result : Type} (program : TeeRand Result) :
    Returns program (fun _ => True) := by
  intro world _
  rcases run : program.runFrom world with ⟨_ | _, _⟩ <;> trivial

/-- The operations that `TeeOmap` uses of its cold tier. -/
class ColdMap (Ω : Type) where
  make : (capacity : Int) → (valueSize bucketSize : Nat) → (splitDepth : Int) → Ω
  init : Ω → List (Int × Bytes) → TeeRand Ω
  searchOrDummy : Ω → Int → (real : Bool) → (update : Option Bytes) →
    (transform : Option (Bytes → Bytes)) → TeeRand ((Bytes × Bool) × Ω)
  insert : Ω → Int → Bytes → TeeRand Ω
  remove : Ω → Int → TeeRand Ω

instance : ColdMap TeeAvlOmap where
  make := TeeAvlOmap.new
  init := TeeAvlOmap.init
  searchOrDummy := TeeAvlOmap.searchOrDummy
  insert := TeeAvlOmap.insert
  remove := TeeAvlOmap.remove

/-- What a search writes to the entry it finds. -/
def writtenBack (update : Option Bytes) (transform : Option (Bytes → Bytes))
    (result value : Bytes) : Bytes :=
  match transform with
  | some transform => transform result
  | none => update.getD value

/-- The values that are kept of some records. -/
def keptRecords (size : Nat) (data : List (Int × Bytes)) : Int → Option Bytes := fun key =>
  (KeyMap.lookupEntry data key).map (EnclaveOram.fitValue size)

/-- What a cold tier stands for. -/
class ColdView (Ω : Type) where
  /-- The map `omap` stands for `contents`, with values of a size. -/
  Rep : Ω → (size : Nat) → (contents : Int → Option Bytes) → Prop
  /-- The map `omap` can find all its keys. -/
  FindsKeys : Ω → Prop

open ColdView

/-- The operations of a cold tier are those of a finite map of values of one size, as long as
no value is longer than the widest one. -/
class LawfulColdMap (Ω : Type) [ColdMap Ω] [ColdView Ω] (size widest : Nat) : Prop where
  returns_init : ∀ capacity bucketSize (data : List (Int × Bytes)), (data.map Prod.fst).Nodup →
    (∀ record ∈ data, 0 ≤ record.1 ∧ record.2.length ≤ widest) →
    Returns (ColdMap.init (ColdMap.make (Ω := Ω) capacity size bucketSize 0) data)
      (fun omap => FindsKeys omap → Rep omap size (keptRecords size data))
  returns_found : ∀ (omap : Ω) contents key update transform value, Rep omap size contents →
    0 ≤ key → contents key = some value →
    (∀ found, found.take size = value → size ≤ found.length → found.length ≤ widest →
      (writtenBack update transform found value).length ≤ widest) →
    Returns (ColdMap.searchOrDummy omap key true update transform) (fun outcome =>
      outcome.1.2 = true ∧ outcome.1.1.take size = value ∧ size ≤ outcome.1.1.length ∧
        outcome.1.1.length ≤ widest ∧
        (FindsKeys outcome.2 → Rep outcome.2 size (Function.update contents key
          (some (EnclaveOram.fitValue size (writtenBack update transform outcome.1.1 value))))))
  returns_absent : ∀ (omap : Ω) contents key update transform, Rep omap size contents →
    0 ≤ key → contents key = none →
    Returns (ColdMap.searchOrDummy omap key true update transform) (fun outcome =>
      outcome.1 = (List.replicate size 0, false) ∧ (FindsKeys outcome.2 → Rep outcome.2 size contents))
  returns_dummy : ∀ (omap : Ω) contents key update transform, Rep omap size contents →
    Returns (ColdMap.searchOrDummy omap key false update transform) (fun outcome =>
      outcome.1 = (List.replicate size 0, false) ∧ (FindsKeys outcome.2 → Rep outcome.2 size contents))
  returns_insert : ∀ (omap : Ω) contents key value, Rep omap size contents → 0 ≤ key →
    contents key = none → value.length ≤ widest →
    Returns (ColdMap.insert omap key value) (fun omap' => FindsKeys omap' →
      Rep omap' size (Function.update contents key (some (EnclaveOram.fitValue size value))))
  returns_insertNone : ∀ (omap : Ω) contents value, Rep omap size contents →
    Returns (ColdMap.insert omap invalidKey value) (fun omap' => FindsKeys omap' →
      Rep omap' size contents)
  returns_remove : ∀ (omap : Ω) contents key, Rep omap size contents → 0 ≤ key →
    Returns (ColdMap.remove omap key) (fun omap' => FindsKeys omap' →
      Rep omap' size (Function.update contents key none))
  returns_removeNone : ∀ (omap : Ω) contents, Rep omap size contents →
    Returns (ColdMap.remove omap invalidKey) (fun omap' => FindsKeys omap' → Rep omap' size contents)

/-! ## The reference cold tier -/

/-- A cold tier that is just a finite map. -/
structure PlainColdMap where
  size : Nat := 0
  contents : KeyMap Int Bytes := ∅

namespace PlainColdMap

/-- The records with their values as they are kept. -/
def fitRecords (size : Nat) (data : List (Int × Bytes)) : List (Int × Bytes) :=
  data.map (fun record => (record.1, EnclaveOram.fitValue size record.2))

/-- Keep the given records. -/
def load (omap : PlainColdMap) (data : List (Int × Bytes)) : PlainColdMap :=
  if nodup : ((fitRecords omap.size data).map Prod.fst).Nodup then
    { omap with contents := ⟨fitRecords omap.size data, nodup⟩ }
  else omap

instance : ColdMap PlainColdMap where
  make _ size _ _ := { size }
  init omap data := return omap.load data
  searchOrDummy omap key real update transform :=
    match real, omap.contents.get? key with
    | true, some value => return ((value, true), { omap with
        contents := omap.contents.set key
          (EnclaveOram.fitValue omap.size (writtenBack update transform value value)) })
    | _, _ => return ((List.replicate omap.size 0, false), omap)
  insert omap key value := return if key = invalidKey then omap
    else { omap with contents := omap.contents.set key (EnclaveOram.fitValue omap.size value) }
  remove omap key := return if key = invalidKey then omap
    else { omap with contents := omap.contents.erase key }

/-- The map stands for its entries, which have the value size. -/
structure StandsFor (omap : PlainColdMap) (size : Nat) (contents : Int → Option Bytes) : Prop where
  size_eq : omap.size = size
  entries_eq : omap.contents.get? = contents
  sized : ∀ key value, contents key = some value → value.length = size

variable {omap : PlainColdMap} {size : Nat} {contents : Int → Option Bytes}

theorem StandsFor.set (stands : omap.StandsFor size contents) (key : Int) (value : Bytes) :
    StandsFor { omap with
        contents := omap.contents.set key (EnclaveOram.fitValue omap.size value) }
      size (Function.update contents key (some (EnclaveOram.fitValue size value))) := by
  refine ⟨stands.size_eq, ?_, ?_⟩
  · funext key'
    rw [KeyMap.get?_set, stands.entries_eq, stands.size_eq]
    by_cases here : key' = key <;> simp [here, Function.update]
  · intro key' value' found
    rw [Function.update_apply] at found
    split at found
    · cases found
      exact EnclaveOram.length_fitValue size value
    · exact stands.sized key' value' found

theorem StandsFor.erase (stands : omap.StandsFor size contents) (key : Int) :
    StandsFor { omap with contents := omap.contents.erase key } size
      (Function.update contents key none) := by
  refine ⟨stands.size_eq, ?_, ?_⟩
  · funext key'
    rw [KeyMap.get?_erase, stands.entries_eq]
    by_cases here : key' = key <;> simp [here, Function.update]
  · intro key' value' found
    rw [Function.update_apply] at found
    split at found
    · cases found
    · exact stands.sized key' value' found

theorem lookupEntry_fitRecords (size : Nat) (data : List (Int × Bytes)) (key : Int) :
    KeyMap.lookupEntry (fitRecords size data) key = keptRecords size data key := by
  unfold keptRecords fitRecords
  induction data with
  | nil => rfl
  | cons record rest ih =>
      simp only [List.map_cons, KeyMap.lookupEntry]
      split
      · rfl
      · exact ih

theorem standsFor_load (size : Nat) {data : List (Int × Bytes)}
    (distinct : (data.map Prod.fst).Nodup) :
    StandsFor (load { size } data) size (keptRecords size data) := by
  have nodup : ((fitRecords size data).map Prod.fst).Nodup := by
    unfold fitRecords
    rwa [List.map_map]
  have loaded : load { size } data = { size, contents := ⟨fitRecords size data, nodup⟩ } :=
    dif_pos nodup
  rw [loaded]
  refine ⟨rfl, funext (lookupEntry_fitRecords size data), ?_⟩
  intro key value found
  rcases Option.map_eq_some_iff.mp found with ⟨record, _, rfl⟩
  exact EnclaveOram.length_fitValue size record

instance : ColdView PlainColdMap where
  Rep := StandsFor
  FindsKeys _ := True

/-- The reference tier takes values of every length. -/
theorem lawful {size widest : Nat} (wide : size ≤ widest) :
    LawfulColdMap PlainColdMap size widest where
  returns_init _ _ _ distinct _ := Prog.ends_pure (fun _ => standsFor_load size distinct)
  returns_found omap contents key update transform value stands _ found _ := by
    have entry : omap.contents.get? key = some value := by rw [stands.entries_eq, found]
    change Returns (match true, omap.contents.get? key with
      | true, some value => _
      | _, _ => _) _
    rw [entry]
    have sized := stands.sized key value found
    refine Prog.ends_pure ⟨rfl, ?_, sized.ge, sized.trans_le wide, fun _ => stands.set key _⟩
    rw [← sized]
    exact List.take_length
  returns_absent omap contents key update transform stands _ absent := by
    have entry : omap.contents.get? key = none := by rw [stands.entries_eq, absent]
    change Returns (match true, omap.contents.get? key with
      | true, some value => _
      | _, _ => _) _
    rw [entry]
    exact Prog.ends_pure ⟨by rw [stands.size_eq], fun _ => stands⟩
  returns_dummy omap contents key update transform stands := by
    refine Prog.ends_pure ⟨?_, fun _ => stands⟩
    rw [stands.size_eq]
  returns_insert omap _ key value stands nonneg _ _ := by
    have isReal : key ≠ invalidKey := by
      rintro rfl
      exact absurd nonneg (by decide)
    refine Prog.ends_pure (fun _ => ?_)
    rw [if_neg isReal]
    exact stands.set key value
  returns_insertNone _ _ _ stands := Prog.ends_pure (fun _ => stands)
  returns_remove omap _ key stands nonneg := by
    have isReal : key ≠ invalidKey := by
      rintro rfl
      exact absurd nonneg (by decide)
    refine Prog.ends_pure (fun _ => ?_)
    rw [if_neg isReal]
    exact stands.erase key
  returns_removeNone _ _ stands := Prog.ends_pure (fun _ => stands)

end PlainColdMap

end TieredOmap
