import TieredOMap.Omap.Interface

/-!
# The reference oblivious map

A finite map kept by the client, with the interface of an oblivious map. It is
what the tiers of a tiered map abstract to, and the smallest lawful instance.
-/

namespace TieredOmap

/-- An oblivious map that is just a finite map. -/
structure MapOmap where
  contents : KeyMap Int Bytes := ∅

namespace MapOmap

/-- Keep the given records. -/
def load (records : List (Int × Bytes)) : MapOmap :=
  if nodup : (records.map Prod.fst).Nodup then ⟨records, nodup⟩ else {}

instance : OmapInterface MapOmap where
  make _ _ _ _ := return {}
  init _ records := return load records
  search omap key update :=
    let updated := match update, omap.contents.get? key with
      | some value, some _ => ⟨omap.contents.set key value⟩
      | _, _ => omap
    return (valueOf (omap.contents.get? key), updated)
  insert omap key value := return ⟨omap.contents.set key value⟩
  remove omap key := return ⟨omap.contents.erase key⟩
  dummyAccess omap := return omap

instance : LawfulOmap MapOmap where
  Rep omap contents _ := omap.contents.get? = contents
  Fresh _ _ := True
  ends_make _ _ _ _ := Prog.ends_pure trivial
  ends_init omap room data _ _ _ := by
    refine Prog.ends_pure ?_
    rw [load, dif_pos data.nodup]
  ends_search omap contents room key rep := Prog.ends_pure ⟨by rw [rep], rep⟩
  ends_insert omap contents room key value keys rep _ _ _ _ := by
    refine Prog.ends_pure ?_
    funext key'
    rw [KeyMap.get?_set, rep]
    by_cases here : key' = key <;> simp [here, Function.update]
  ends_remove omap contents room key rep := by
    refine Prog.ends_pure ?_
    funext key'
    rw [KeyMap.get?_erase, rep]
    by_cases here : key' = key <;> simp [here, Function.update]
  ends_dummyAccess _ _ _ rep := Prog.ends_pure rep
  ends_partialDummyAccess _ _ _ rep := Prog.ends_pure rep

end MapOmap

end TieredOmap
