import TieredOMap.Oram.CounterBlock

/-!
# A counter lags at most one generation

A counter block is used again and again: every use advances one counter and repairs one
flag. The keys behind the last managed one are never repaired, so their flags do not count
as pending; their counters are advanced like all others. Once the counters of a block
overflow, no managed counter is still two generations behind.
-/

namespace TieredOmap

namespace CounterBlock

/-- `update_counter_in` followed by `perform_reset_in`. -/
def useOnce (prf : Prf) (icMax numIc baseKey numManaged leafRange : Nat) (cb : CounterBlock)
    (offset : Nat) : Rand CounterBlock := do
  let cb := (cb.updateCounterIn prf icMax offset (baseKey + offset) leafRange).2
  let (_, cb) ← cb.performResetIn prf numIc baseKey numManaged leafRange
  return cb

/-- One use after the other. -/
def useAll (prf : Prf) (icMax numIc baseKey numManaged leafRange : Nat) :
    CounterBlock → List Nat → Rand CounterBlock
  | cb, [] => return cb
  | cb, offset :: rest => do
      let cb ← useOnce prf icMax numIc baseKey numManaged leafRange cb offset
      useAll prf icMax numIc baseKey numManaged leafRange cb rest

variable {prf : Prf} {icMax numIc baseKey numManaged leafRange offset : Nat} {cb : CounterBlock}

/-- The DAORAM uses the group of a key in this way. -/
theorem touch_eq_useOnce (prf : Prf) (icMax numIc numManaged leafRange key : Nat)
    (cb : CounterBlock) :
    (do
      let (_, cb) ← cb.touch prf icMax numIc key numManaged leafRange
      return cb) =
      useOnce prf icMax numIc (key / numIc * numIc) numManaged leafRange cb (key % numIc) := by
  unfold touch useOnce
  rw [Nat.div_add_mod']
  simp only [bind_assoc, pure_bind]

/-- While repairs are pending, every counter that is up to date is far from its maximum. -/
structure Spread (icMax numIc baseKey numManaged : Nat) (cb : CounterBlock) : Prop where
  icLength : cb.ic.length = numIc
  backupLength : cb.backup.length = numIc
  slack : ∀ i < numIc, cb.backup.getD i 0 ≠ 1 →
    (cb.pending numIc baseKey numManaged).card = 0 ∨
      (cb.pending numIc baseKey numManaged).card + (cb.ic.getD i 0).toNat + 2 ≤ numIc
  below : ∀ i < numIc, (cb.ic.getD i 0).toNat < icMax

/-- The same between the two halves of a use: one repair is still to come. -/
structure Loaded (icMax numIc baseKey numManaged offset : Nat) (cb : CounterBlock) : Prop where
  icLength : cb.ic.length = numIc
  backupLength : cb.backup.length = numIc
  current : cb.backup.getD offset 0 ≠ 1
  slack : ∀ i < numIc, cb.backup.getD i 0 ≠ 1 →
    (cb.pending numIc baseKey numManaged).card ≤ 1 ∨
      (cb.pending numIc baseKey numManaged).card + (cb.ic.getD i 0).toNat + 1 ≤ numIc
  below : ∀ i < numIc, (cb.ic.getD i 0).toNat < icMax

theorem getD_replicate_zero (count i : Nat) : (List.replicate count (0 : UInt8)).getD i 0 = 0 := by
  rw [List.getD_eq_getElem?_getD, List.getElem?_replicate]
  split <;> rfl

theorem spread_zero (numIc baseKey numManaged : Nat) (positive : 0 < icMax) :
    (zero numIc).Spread icMax numIc baseKey numManaged := by
  have noFlags : (zero numIc).pending numIc baseKey numManaged = ∅ := by
    refine Finset.eq_empty_of_forall_notMem ?_
    intro i isPending
    have flag := (mem_pending.mp isPending).2.1
    rw [zero, getD_replicate_zero] at flag
    exact absurd flag (by decide)
  refine ⟨by simp [zero], by simp [zero], fun _ _ _ => .inl ?_, fun i _ => ?_⟩
  · rw [noFlags]
    rfl
  · rw [zero, getD_replicate_zero]
    exact positive

/-- Resetting a counter leaves all counters below the maximum. -/
theorem below_set (icLength : cb.ic.length = numIc) (offsetLt : offset < numIc)
    (below : ∀ i < numIc, (cb.ic.getD i 0).toNat < icMax) {value : UInt8}
    (valueLt : value.toNat < icMax) :
    ∀ i < numIc, ((cb.ic.set offset value).getD i 0).toNat < icMax := by
  intro i iLt
  rw [getD_set _ (icLength.symm ▸ offsetLt)]
  split
  · exact valueLt
  · exact below i iLt

/-- A counter behind the last overflow catches up. -/
theorem Spread.loaded_of_flag (spread : cb.Spread icMax numIc baseKey numManaged)
    (offsetLt : offset < numIc) (positive : 0 < icMax) :
    (cb.resetAt offset).Loaded icMax numIc baseKey numManaged offset := by
  have icLt : offset < cb.ic.length := spread.icLength.symm ▸ offsetLt
  have backupLt : offset < cb.backup.length := spread.backupLength.symm ▸ offsetLt
  have current : (cb.resetAt offset).backup.getD offset 0 ≠ 1 := by
    simp only [resetAt, getD_set _ backupLt, if_true]
    decide
  have fewer : ((cb.resetAt offset).pending numIc baseKey numManaged).card ≤
      (cb.pending numIc baseKey numManaged).card := by
    rw [resetAt, pending_setBackup backupLt]
    exact Finset.card_erase_le
  have notAll : ((cb.resetAt offset).pending numIc baseKey numManaged).card < numIc :=
    card_pending_lt offsetLt current
  refine ⟨by simp [resetAt, spread.icLength], by simp [resetAt, spread.backupLength], current, ?_,
    below_set spread.icLength offsetLt spread.below positive⟩
  intro i iLt unflagged
  by_cases here : i = offset
  · simp only [resetAt, getD_set _ icLt, here, if_true, UInt8.toNat_zero] at notAll ⊢
    omega
  · simp only [resetAt, getD_set _ backupLt, getD_set _ icLt, here, if_false] at unflagged fewer ⊢
    rcases spread.slack i iLt unflagged with none | slack <;> omega

/-- When a counter overflows, no repair is pending. -/
theorem Spread.pending_eq_empty (spread : cb.Spread icMax numIc baseKey numManaged)
    (offsetLt : offset < numIc) (fewIc : numIc ≤ icMax + 1)
    (unflagged : cb.backup.getD offset 0 ≠ 1)
    (overflows : icMax ≤ (cb.ic.getD offset 0).toNat + 1) :
    cb.pending numIc baseKey numManaged = ∅ := by
  refine Finset.card_eq_zero.mp ?_
  rcases spread.slack offset offsetLt unflagged with none | slack <;> omega

/-- The flags that an overflow raises. -/
theorem getD_raised {flags : List UInt8} {i : Nat} (iLt : i < flags.length) (offset : Nat) :
    (flags.mapIdx (fun i flag => if i = offset then flag else 1)).getD i 0 =
      if i = offset then flags.getD offset 0 else 1 := by
  by_cases here : i = offset
  · subst here
    simp [List.getD_eq_getElem?_getD, iLt]
  · simp [List.getD_eq_getElem?_getD, iLt, here]

/-- An overflow leaves one counter up to date, and that one is zero. -/
theorem Spread.loaded_of_overflow (spread : cb.Spread icMax numIc baseKey numManaged)
    (offsetLt : offset < numIc) (positive : 0 < icMax)
    (unflagged : cb.backup.getD offset 0 ≠ 1) :
    Loaded icMax numIc baseKey numManaged offset {
      gc := cb.gc + 1, ic := cb.ic.set offset 0
      backup := cb.backup.mapIdx (fun i flag => if i = offset then flag else 1) } := by
  have icLt : offset < cb.ic.length := spread.icLength.symm ▸ offsetLt
  have raised : ∀ i < numIc, _ := fun i iLt =>
    @getD_raised cb.backup i (spread.backupLength.symm ▸ iLt) offset
  have sameLength : (cb.backup.mapIdx
      (fun i flag => if i = offset then flag else 1)).length = numIc := by
    rw [List.length_mapIdx, spread.backupLength]
  generalize cb.backup.mapIdx (fun i flag => if i = offset then flag else 1) = flags
    at raised sameLength
  have current : flags.getD offset 0 ≠ 1 := by
    rw [raised offset offsetLt, if_pos rfl]
    exact unflagged
  refine ⟨by simp [spread.icLength], sameLength, current, ?_,
    below_set spread.icLength offsetLt spread.below positive⟩
  intro i iLt calm
  have here : i = offset := by
    by_contra other
    rw [raised i iLt, if_neg other] at calm
    exact calm rfl
  have notAll : ((⟨cb.gc + 1, cb.ic.set offset 0, flags⟩ : CounterBlock).pending numIc baseKey
    numManaged).card < numIc := card_pending_lt offsetLt current
  simp only [here, getD_set _ icLt, if_true, UInt8.toNat_zero]
  omega

/-- Without an overflow the counter goes up by one. -/
theorem Spread.loaded_of_room (spread : cb.Spread icMax numIc baseKey numManaged)
    (offsetLt : offset < numIc) (smallMax : icMax ≤ 256)
    (unflagged : cb.backup.getD offset 0 ≠ 1)
    (room : (cb.ic.getD offset 0).toNat + 1 < icMax) :
    Loaded icMax numIc baseKey numManaged offset
      { cb with ic := cb.ic.set offset (cb.ic.getD offset 0 + 1) } := by
  have icLt : offset < cb.ic.length := spread.icLength.symm ▸ offsetLt
  have noWrap : (cb.ic.getD offset 0 + 1).toNat = (cb.ic.getD offset 0).toNat + 1 := by
    rw [UInt8.toNat_add, UInt8.toNat_one, Nat.mod_eq_of_lt (by omega)]
  refine ⟨by simp [spread.icLength], spread.backupLength, unflagged, ?_,
    below_set spread.icLength offsetLt spread.below (noWrap ▸ room)⟩
  intro i iLt calm
  have samePending : ({ cb with ic := cb.ic.set offset (cb.ic.getD offset 0 + 1) } :
      CounterBlock).pending numIc baseKey numManaged = cb.pending numIc baseKey numManaged := rfl
  have slack := spread.slack i iLt calm
  rw [samePending, getD_set _ icLt]
  split
  · rename_i here
    rw [here] at slack
    rw [noWrap]
    omega
  · omega

/-- The first half of a use. -/
theorem Spread.updateCounterIn (spread : cb.Spread icMax numIc baseKey numManaged)
    (offsetLt : offset < numIc) (positive : 0 < icMax) (smallMax : icMax ≤ 256) (key : Nat) :
    (cb.updateCounterIn prf icMax offset key leafRange).2.Loaded icMax numIc baseKey numManaged
      offset := by
  unfold CounterBlock.updateCounterIn
  dsimp only
  split
  · exact spread.loaded_of_flag offsetLt positive
  · rename_i unflagged
    split
    · exact spread.loaded_of_overflow offsetLt positive unflagged
    · exact spread.loaded_of_room offsetLt smallMax unflagged (by omega)

/-- A repair makes up for the counter that was advanced. -/
theorem Loaded.spread_resetAt (loaded : cb.Loaded icMax numIc baseKey numManaged offset)
    (offsetLt : offset < numIc) (positive : 0 < icMax) {i : Nat}
    (found : cb.resetIndex numIc baseKey numManaged = some i) :
    (cb.resetAt i).Spread icMax numIc baseKey numManaged := by
  have isPending := resetIndex_eq_some found
  have iLt := (mem_pending.mp isPending).1
  have icLt : i < cb.ic.length := loaded.icLength.symm ▸ iLt
  have backupLt : i < cb.backup.length := loaded.backupLength.symm ▸ iLt
  have card : ((cb.resetAt i).pending numIc baseKey numManaged).card + 1 =
      (cb.pending numIc baseKey numManaged).card := by
    rw [resetAt, pending_setBackup backupLt, Finset.card_erase_add_one isPending]
  have notAll : (cb.pending numIc baseKey numManaged).card < numIc :=
    card_pending_lt offsetLt loaded.current
  refine ⟨by simp [resetAt, loaded.icLength], by simp [resetAt, loaded.backupLength], ?_,
    below_set loaded.icLength iLt loaded.below positive⟩
  intro j jLt calm
  by_cases here : j = i
  · simp only [resetAt, getD_set _ icLt, here, if_true, UInt8.toNat_zero] at card ⊢
    omega
  · simp only [resetAt, getD_set _ backupLt, getD_set _ icLt, here, if_false] at calm card ⊢
    rcases loaded.slack j jLt calm with few | slack <;> omega

/-- The second half of a use. -/
theorem Loaded.ends_performResetIn (loaded : cb.Loaded icMax numIc baseKey numManaged offset)
    (offsetLt : offset < numIc) (positive : 0 < icMax) :
    Ends (cb.performResetIn prf numIc baseKey numManaged leafRange) (fun outcome =>
      outcome.2.Spread icMax numIc baseKey numManaged) := by
  unfold CounterBlock.performResetIn
  split
  · rename_i i found
    exact Prog.ends_pure (loaded.spread_resetAt offsetLt positive found)
  · rename_i absent
    refine Prog.ends_bind (ends_randBelow (by omega)) (fun _ _ => Prog.ends_pure ?_)
    refine ⟨loaded.icLength, loaded.backupLength, fun _ _ _ => .inl ?_, loaded.below⟩
    rw [pending_of_resetIndex_eq_none absent]
    rfl

theorem Spread.ends_useOnce (spread : cb.Spread icMax numIc baseKey numManaged)
    (offsetLt : offset < numIc) (positive : 0 < icMax) (smallMax : icMax ≤ 256) :
    Ends (useOnce prf icMax numIc baseKey numManaged leafRange cb offset)
      (Spread icMax numIc baseKey numManaged) :=
  Prog.ends_bind
    ((spread.updateCounterIn offsetLt positive smallMax _).ends_performResetIn offsetLt positive)
    (fun _ kept => Prog.ends_pure kept)

theorem Spread.ends_useAll (positive : 0 < icMax) (smallMax : icMax ≤ 256) (offsets : List Nat)
    (inRange : ∀ offset ∈ offsets, offset < numIc)
    (spread : cb.Spread icMax numIc baseKey numManaged) :
    Ends (useAll prf icMax numIc baseKey numManaged leafRange cb offsets)
      (Spread icMax numIc baseKey numManaged) := by
  induction offsets generalizing cb with
  | nil => exact Prog.ends_pure spread
  | cons offset rest ih =>
      refine Prog.ends_bind
        (spread.ends_useOnce (inRange offset List.mem_cons_self) positive smallMax) ?_
      intro cb' spread'
      exact ih (fun offset' mem => inRange offset' (List.mem_cons_of_mem _ mem)) spread'

/-- The group counter only changes when a counter overflows. -/
theorem Spread.caughtUp_of_overflow (spread : cb.Spread icMax numIc baseKey numManaged)
    (offsetLt : offset < numIc) (fewIc : numIc ≤ icMax + 1) {key : Nat}
    (overflows : (cb.updateCounterIn prf icMax offset key leafRange).2.gc ≠ cb.gc) :
    ∀ i < numIc, baseKey + i < numManaged → cb.backup.getD i 0 ≠ 1 := by
  unfold CounterBlock.updateCounterIn at overflows
  dsimp only at overflows
  split at overflows
  · exact absurd rfl overflows
  · rename_i unflagged
    split at overflows
    · rename_i full
      intro i iLt managed flag
      have isPending := mem_pending.mpr ⟨iLt, flag, managed⟩
      rw [spread.pending_eq_empty offsetLt fewIc unflagged full] at isPending
      exact absurd isPending (Finset.notMem_empty i)
    · exact absurd rfl overflows

/--
After any uses of a new block, all counters are below `ic_max`, also in the middle of the
next use, and an update that overflows into the next generation finds every managed counter
in the current one.
-/
theorem counter_lags_one_generation (prf : Prf) {icMax numIc : Nat} (many : 2 ≤ numIc)
    (fewIc : numIc ≤ icMax + 1) (smallMax : icMax ≤ 256) (baseKey numManaged leafRange : Nat)
    (offsets : List Nat) (inRange : ∀ offset ∈ offsets, offset < numIc) :
    Ends (useAll prf icMax numIc baseKey numManaged leafRange (zero numIc) offsets) (fun cb =>
      (∀ i < numIc, (cb.ic.getD i 0).toNat < icMax) ∧
      ∀ offset < numIc,
        let updated := (cb.updateCounterIn prf icMax offset (baseKey + offset) leafRange).2
        (∀ i < numIc, (updated.ic.getD i 0).toNat < icMax) ∧
        (updated.gc ≠ cb.gc →
          ∀ i < numIc, i ≠ offset → baseKey + i < numManaged → cb.backup.getD i 0 ≠ 1)) := by
  have positive : 0 < icMax := by omega
  refine ((spread_zero numIc baseKey numManaged positive).ends_useAll positive smallMax offsets
    inRange).mono ?_
  intro cb spread
  refine ⟨spread.below, fun offset offsetLt => ⟨?_, fun overflows i iLt _ managed => ?_⟩⟩
  · exact (spread.updateCounterIn offsetLt positive smallMax _).below
  · exact spread.caughtUp_of_overflow offsetLt fewIc overflows i iLt managed

theorem counter_lags_one_generation_sample :
    Ends (useAll (fun _ _ _ _ => 0) 2 3 0 2 4 (zero 3) [0, 0, 1, 2, 1]) (fun cb =>
      ∀ i < 3, (cb.ic.getD i 0).toNat < 2) :=
  (counter_lags_one_generation (fun _ _ _ _ => 0) (by decide) (by decide) (by decide) 0 2 4
    [0, 0, 1, 2, 1] (by decide)).mono (fun _ kept => kept.1)

end CounterBlock

end TieredOmap
