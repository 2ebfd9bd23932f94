import TieredOMap.Tiered.BatchedShape

/-!
# The shape of an access

A sequential and an interleaved access both send the shape of the tier that is
searched, and keep the footprint.
-/

namespace TieredOmap

namespace TieredOMap

variable {s : TieredOMap AvlTiers} {fp : Footprint} {keys : Finset Int} [Cipher]

omit [Cipher] in
/-- Both machines are started for the given tier. -/
theorem Plain.stepping_begin (plain : s.Plain fp keys) (tier : Tier) (key : Int) (tier' : Tier) :
    let searching := s.setOmap tier ((s.omap tier).beginStepSearch key none)
    AVLOmap.Stepping
      ((searching.setOmap tier.other (searching.omap tier.other).beginStepDummy).omap tier')
      (fp.tierStore tier') (fp.height tier') (fp.rounds tier') := by
  rcases plain.whole .hot with ⟨_, hotWhole⟩
  rcases plain.whole .cold with ⟨_, coldWhole⟩
  have hotPositive := plain.fixed.positive .hot
  have coldPositive := plain.fixed.positive .cold
  cases tier <;> cases tier'
  · exact hotWhole.beginStepSearch hotPositive key none
  · exact coldWhole.beginStepDummy coldPositive
  · exact hotWhole.beginStepDummy hotPositive
  · exact coldWhole.beginStepSearch coldPositive key none

/-- An interleaved access starts at its round `0`. -/
theorem Plain.emits_begin (plain : s.Plain fp keys) {q : Query} (plainQuery : Rounds.PlainQuery q) :
    Sends (Rounds.begin_ s q) (fun r sent =>
      r.AtRound fp keys (tierOf keys q.key) 0 ∧ sent = []) := by
  have searcherEq : (if decide (q.key ∈ s.physHotKeys) then Tier.hot else .cold) =
      tierOf keys q.key := by
    rw [plain.fixed.physHot]
    by_cases isHot : q.key ∈ keys <;> simp [tierOf, isHot]
  have noScan : q.scanOnPiggyback = false := by simp [Query.scanOnPiggyback, plainQuery.noScan]
  unfold Rounds.begin_
  dsimp only
  rw [searcherEq]
  simp only [noScan, plainQuery.full, plainQuery.noHotInsert, plainQuery.noColdInsert,
    plainQuery.noEpoch, plainQuery.noHotDummy, plainQuery.noColdDummy, doWhen, bne_self_eq_false,
    Bool.false_and, Bool.not_false, Bool.or_true, if_true, Bool.false_eq_true, if_false, pure_bind]
  refine Prog.emits_pure ⟨⟨rfl, ?_, ?_, ?_, ?_, rfl, ?_, rfl, rfl⟩, rfl⟩
  · exact (plain.fixed.setOmap _ _).setOmap _ _
  · exact plain.stepping_begin (tierOf keys q.key) q.key
  · have positive := plain.fixed.positive (tierOf keys q.key)
    refine (if_pos ?_).symm
    unfold Footprint.rounds
    omega
  · exact (if_pos (Nat.zero_le _)).symm
  · have positive := plain.fixed.positive (tierOf keys q.key)
    refine (decide_eq_false ?_).symm
    unfold Footprint.rounds
    omega

/-- A run out of fuel is one with less fuel than rounds. -/
def FuelShort (fp : Footprint) (tier : Tier) (fuel : Nat) (error : Err) : Prop :=
  error = .outOfFuel → fuel < fp.lastRound tier

omit [Cipher] in
theorem fuelShort_of_ne (fp : Footprint) (tier : Tier) (fuel : Nat) (error : Err)
    (isOther : error ≠ .outOfFuel) : FuelShort fp tier fuel error :=
  fun isFuel => absurd isFuel isOther

theorem Plain.emits_interleavedAccess (plain : s.Plain fp keys) {q : Query}
    (plainQuery : Rounds.PlainQuery q) (fuel : Nat) :
    Prog.Emits World.log (FuelShort fp (tierOf keys q.key) fuel) (s.interleavedAccess fuel q)
      (fun outcome sent => outcome.2.Plain fp keys ∧
        sent = fp.batchedShape (tierOf keys q.key)) := by
  refine Prog.emits_bind ((plain.emits_begin plainQuery).allow (fuelShort_of_ne _ _ _)) ?_
  rintro r _ ⟨start, rfl⟩
  refine Prog.emits_bind ((start.emits_loop plainQuery fuel).allow ?_) ?_
  · intro error isThrown isFuel
    simpa using isThrown isFuel
  · rintro final _ ⟨ended, rfl⟩
    refine Prog.emits_pure ⟨⟨ended.fixed, fun tier => (ended.stepping tier).whole⟩, ?_⟩
    simp [Footprint.batchedShape, List.range_eq_range']

/-- An access sends the shape of the searched tier. -/
theorem Plain.emits_access (plain : s.Plain fp keys) (fuel : Nat) (key : Int)
    (newValue : Option Bytes) :
    Prog.Emits World.log (FuelShort fp (tierOf keys key) fuel) (s.access fuel key newValue)
      (fun outcome sent => outcome.2.Plain fp keys ∧ sent = fp.accessShape (tierOf keys key)) := by
  have noMaint : ¬s.maint.isSome = true := by simp [plain.fixed.noMaint]
  have interleaves : s.canInterleave = fp.batched := by
    have channel := plain.fixed.batched
    unfold canInterleave
    rw [channel]
    exact (Bool.and_true _).trans (Bool.and_true _)
  unfold access accessPlain Footprint.accessShape
  rw [if_neg noMaint, interleaves]
  by_cases batched : fp.batched = true
  · rw [if_pos batched, if_pos batched]
    refine Prog.emits_bind (plain.emits_interleavedAccess ?_ fuel) ?_
    · exact ⟨by simp [plain.fixed.oblivious], rfl, rfl, rfl, rfl, rfl, plain.fixed.noForce⟩
    · rintro ⟨result, s'⟩ _ ⟨plain', rfl⟩
      exact Prog.emits_pure ⟨plain', List.append_nil _⟩
  · rw [if_neg batched, if_neg batched]
    refine Prog.emits_bind ((plain.sends_accessPlainSequential key newValue).allow
      (fuelShort_of_ne _ _ _)) ?_
    rintro ⟨value, s'⟩ _ ⟨plain', rfl⟩
    exact Prog.emits_pure ⟨plain', List.append_nil _⟩

end TieredOMap

end TieredOmap
