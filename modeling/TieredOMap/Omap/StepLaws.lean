import TieredOMap.Omap.MapOmap

/-!
# Laws of the step machines

An interleaved access runs the search of an oblivious map one round at a time.
`LawfulSteps` says that a search run in this way finds what a search at once
would find, whatever a piggybacked operation does in the same rounds.
-/

namespace TieredOmap

/-- Where a step machine is within its round. -/
inductive StepPhase where
  | resting
  | fetched
  | processed
deriving DecidableEq, Repr

/-- The step machine of a lawful map searches the map it stands for. -/
class LawfulSteps (Ω : Type) [OmapInterface Ω] [LawfulOmap Ω] where
  /-- The machine is searching, and the answer is `ref`. -/
  Seeks : StepPhase → Ω → (ref : Bytes) → Prop
  seeks_begin : ∀ omap contents room key, LawfulOmap.Rep omap contents room →
    Seeks .resting (OmapInterface.beginStepSearch omap key none) (valueOf (contents key))
  seeks_setDecision : ∀ omap ref enabled, Seeks .resting omap ref →
    Seeks .resting (OmapInterface.setStepDecisionEnabled omap enabled) ref
  seeks_piggybackSearch : ∀ omap ref key, Seeks .resting omap ref →
    Seeks .resting (OmapInterface.beginPiggybackSearch omap key) ref
  seeks_setPiggybackDecision : ∀ omap ref enabled, Seeks .resting omap ref →
    Seeks .resting (OmapInterface.setPiggybackDecisionEnabled omap enabled) ref
  seeks_piggybackInsert : ∀ omap ref key value, Seeks .resting omap ref →
    Yields (OmapInterface.beginPiggybackInsert omap key value)
      (fun omap' => Seeks .resting omap' ref)
  seeks_piggybackDummy : ∀ omap ref, Seeks .resting omap ref →
    Seeks .resting (OmapInterface.beginPiggybackDummy omap) ref
  seeks_fetch : ∀ omap ref, Seeks .resting omap ref →
    Yields (OmapInterface.stepNextRound omap) (fun outcome =>
      Seeks .fetched (if outcome.1.isEmpty then outcome.2
        else OmapInterface.stepApplyReads outcome.2
          (outcome.1.map (OmapInterface.readStore outcome.2))) ref)
  seeks_process : ∀ omap ref, Seeks .fetched omap ref →
    Yields (OmapInterface.stepProcess omap) (fun omap' => Seeks .processed omap' ref)
  seeks_piggybackRemove : ∀ phase omap ref, Seeks phase omap ref →
    Yields (OmapInterface.piggybackCommitRemove omap) (fun omap' => Seeks phase omap' ref)
  seeks_piggybackNoop : ∀ phase omap ref, Seeks phase omap ref →
    Yields (OmapInterface.piggybackCommitNoop omap) (fun omap' => Seeks phase omap' ref)
  seeks_write : ∀ omap ref, Seeks .processed omap ref →
    Yields (OmapInterface.stepPrepareWrites omap) (fun outcome =>
      Seeks .resting (outcome.1.foldl OmapInterface.writeStore outcome.2) ref)
  finish_eq : ∀ phase omap ref, Seeks phase omap ref → OmapInterface.stepDone omap = true →
    OmapInterface.stepFinish omap = ref
  traverse_eq : ∀ phase omap ref, Seeks phase omap ref →
    OmapInterface.stepNeedsDecision omap = true → OmapInterface.stepGetTraverseResult omap = ref

/-! ## The reference step machine -/

/-- A finite map that answers a search after one round. -/
structure SteppedMap where
  contents : KeyMap Int Bytes := ∅
  answer : Bytes := []
  isDone : Bool := true

namespace SteppedMap

/-- The finite map without its step machine. -/
def plain (omap : SteppedMap) : MapOmap := ⟨omap.contents⟩

instance : OmapInterface SteppedMap where
  make _ _ _ _ := return {}
  init _ records := return { contents := (MapOmap.load records).contents }
  search omap key update := do
    let (value, plain) ← OmapInterface.search omap.plain key update
    return (value, { omap with contents := plain.contents })
  insert omap key value := return { omap with contents := omap.contents.set key value }
  remove omap key := return { omap with contents := omap.contents.erase key }
  dummyAccess omap := return omap
  supportsInterleaved _ := true
  beginStepSearch omap key _ :=
    { omap with answer := valueOf (omap.contents.get? key), isDone := false }
  beginStepDummy omap := { omap with isDone := false }
  stepProcess omap := return { omap with isDone := true }
  stepDone omap := omap.isDone
  stepFinish omap := omap.answer

instance : LawfulOmap SteppedMap where
  Rep omap contents _ := omap.contents.get? = contents
  Fresh _ _ := True
  ends_make _ _ _ _ := Prog.ends_pure trivial
  ends_init omap room data _ _ _ := by
    refine Prog.ends_pure ?_
    rw [MapOmap.load, dif_pos data.nodup]
  ends_search omap contents room key rep := Prog.ends_pure ⟨by rw [← rep]; rfl, rep⟩
  ends_insert omap contents room key value keys rep _ _ _ _ := by
    refine Prog.ends_pure ?_
    funext key'
    rw [KeyMap.get?_set, rep]
    by_cases here : key' = key <;> simp [here, Function.update]
  ends_remove omap contents room key rep := by
    refine Prog.ends_pure ?_
    funext key'
    rw [KeyMap.get?_erase, rep]
    by_cases here : key' = key <;> simp [here, Function.update]
  ends_dummyAccess _ _ _ rep := Prog.ends_pure rep
  ends_partialDummyAccess _ _ _ rep := Prog.ends_pure rep

instance : LawfulSteps SteppedMap where
  Seeks _ omap ref := omap.answer = ref
  seeks_begin omap contents room key rep := by
    change valueOf (omap.contents.get? key) = _
    rw [show omap.contents.get? = contents from rep]
  seeks_setDecision _ _ _ seeks := seeks
  seeks_piggybackSearch _ _ _ seeks := seeks
  seeks_setPiggybackDecision _ _ _ seeks := seeks
  seeks_piggybackInsert _ _ _ _ seeks := Prog.ends_pure seeks
  seeks_piggybackDummy _ _ seeks := seeks
  seeks_fetch _ _ seeks := Prog.ends_pure seeks
  seeks_process _ _ seeks := Prog.ends_pure seeks
  seeks_piggybackRemove _ _ _ seeks := Prog.ends_pure seeks
  seeks_piggybackNoop _ _ _ seeks := Prog.ends_pure seeks
  seeks_write _ _ seeks := Prog.ends_pure seeks
  finish_eq _ _ _ seeks _ := seeks
  traverse_eq _ _ _ seeks paused := by cases paused

end SteppedMap

end TieredOmap
