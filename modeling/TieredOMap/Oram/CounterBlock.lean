import Mathlib.Algebra.Order.Group.Nat
import Mathlib.Data.Finset.Card
import TieredOMap.Common

/-!
# Counter blocks

A counter block (`CounterBlock`) replaces the leaves of `num_ic` keys: a shared
group counter, an individual counter for each key and a backup flag. A key's
leaf is the pseudo-random function of its counters, with the group counter
before the last overflow while its flag is set. An overflow sets the flags of
all other keys of the group, and every use of the group repairs one of them.

`Sound` is why a flag is never set twice: as long as repairs are pending, no
counter of the group is near its maximum.
-/

namespace TieredOmap

/-! ## Words as bytes -/

/-- The `count` little-endian bytes of a number. -/
def littleEndian : Nat → Nat → Bytes
  | 0, _ => []
  | count + 1, value => UInt8.ofNat value :: littleEndian count (value / 256)

/-- The number that little-endian bytes stand for. -/
def ofLittleEndian : Bytes → Nat
  | [] => 0
  | byte :: rest => byte.toNat + 256 * ofLittleEndian rest

@[simp]
theorem length_littleEndian (count value : Nat) : (littleEndian count value).length = count := by
  induction count generalizing value with
  | zero => rfl
  | succ count ih => simp [littleEndian, ih]

theorem ofLittleEndian_littleEndian (count value : Nat) :
    ofLittleEndian (littleEndian count value) = value % 256 ^ count := by
  induction count generalizing value with
  | zero => simp [littleEndian, ofLittleEndian, Nat.mod_one]
  | succ count ih =>
      have byteEq : (UInt8.ofNat value).toNat = value % 256 := by simp
      rw [littleEndian, ofLittleEndian, ih, byteEq, pow_succ', Nat.mod_mul]

/-! ## Counter blocks -/

/-- `CounterBlock`. -/
structure CounterBlock where
  gc : UInt64 := 0
  ic : List UInt8 := []
  backup : List UInt8 := []
deriving DecidableEq, Repr, Inhabited

/-- A pseudo-random function of a key, its counters and the number of leaves. -/
abbrev Prf := Nat → UInt64 → UInt8 → Nat → Nat

/-- `prf_leaf`. -/
def prfLeaf (prf : Prf) (key : Nat) (gc : UInt64) (ic : UInt8) (leafRange : Nat) : Int :=
  if leafRange = 0 then 0 else (prf key gc ic leafRange % leafRange : Nat)

theorem prfLeaf_range (prf : Prf) (key : Nat) (gc : UInt64) (ic : UInt8) (leafRange : Nat) :
    0 ≤ prfLeaf prf key gc ic leafRange ∧ prfLeaf prf key gc ic leafRange < (max leafRange 1 : Nat) := by
  unfold prfLeaf
  split
  · omega
  · rename_i nonzero
    have below := Nat.mod_lt (prf key gc ic leafRange) (Nat.pos_of_ne_zero nonzero)
    omega

/-- Where to look for a block and its new leaf, and a key of the group whose counter is repaired. -/
structure PosMapResult where
  leaf1 : Int := invalidLeaf
  leaf2 : Int := invalidLeaf
  newLeaf : Int := invalidLeaf
  rKey : Option Nat := none
  rNewLeaf : Int := invalidLeaf
deriving DecidableEq, Repr, Inhabited

namespace CounterBlock

/-- `CounterBlock(num_ic)`. -/
def zero (numIc : Nat) : CounterBlock where
  ic := List.replicate numIc 0
  backup := List.replicate numIc 0

/-- `encode`. -/
def encode (cb : CounterBlock) : Bytes :=
  littleEndian 8 cb.gc.toNat ++ (cb.ic ++ cb.backup)

/-- `decode`: a buffer that is too short gives zero counters. -/
def decode (data : Bytes) (numIc : Nat) : CounterBlock :=
  if 8 + 2 * numIc ≤ data.length then
    { gc := UInt64.ofNat (ofLittleEndian (data.take 8))
      ic := (data.drop 8).take numIc
      backup := (data.drop (8 + numIc)).take numIc }
  else zero numIc

/-- `update_counter_in`: the current and the new leaf of a key, and its advanced counter. -/
def updateCounterIn (prf : Prf) (icMax : Nat) (cb : CounterBlock) (offset managedKey leafRange : Nat) :
    (Int × Int) × CounterBlock :=
  let curIc := cb.ic.getD offset 0
  if cb.backup.getD offset 0 = 1 then
    ((prfLeaf prf managedKey (cb.gc - 1) curIc leafRange, prfLeaf prf managedKey cb.gc 0 leafRange),
      { cb with ic := cb.ic.set offset 0, backup := cb.backup.set offset 0 })
  else if icMax ≤ curIc.toNat + 1 then
    ((prfLeaf prf managedKey cb.gc curIc leafRange,
        prfLeaf prf managedKey (cb.gc + 1) 0 leafRange),
      { gc := cb.gc + 1
        ic := cb.ic.set offset 0
        backup := cb.backup.mapIdx (fun i flag => if i = offset then flag else 1) })
  else
    ((prfLeaf prf managedKey cb.gc curIc leafRange,
        prfLeaf prf managedKey cb.gc (curIc + 1) leafRange),
      { cb with ic := cb.ic.set offset (curIc + 1) })

/-- The first key of the group that `perform_reset_in` repairs. -/
def resetIndex (cb : CounterBlock) (numIc baseKey numManaged : Nat) : Option Nat :=
  (List.range numIc).find? (fun i => cb.backup.getD i 0 == 1 && baseKey + i < numManaged)

/-- The counters of a repaired key. -/
def resetAt (cb : CounterBlock) (i : Nat) : CounterBlock :=
  { cb with ic := cb.ic.set i 0, backup := cb.backup.set i 0 }

/-- `perform_reset_in`: repair one key, or pick a random path when none needs it. -/
def performResetIn (prf : Prf) (cb : CounterBlock) (numIc baseKey numManaged leafRange : Nat) :
    Rand ((Option Nat × Int × Int) × CounterBlock) :=
  match cb.resetIndex numIc baseKey numManaged with
  | some i =>
      return ((some (baseKey + i),
        prfLeaf prf (baseKey + i) (cb.gc - 1) (cb.ic.getD i 0) leafRange,
        prfLeaf prf (baseKey + i) cb.gc 0 leafRange), cb.resetAt i)
  | none => do
      let leaf ← randBelow (max leafRange 1)
      return ((none, leaf, -1), cb)

/-- Advance a key's counter and repair one key of its group. -/
def touch (prf : Prf) (icMax numIc : Nat) (cb : CounterBlock)
    (managedKey numManaged leafRange : Nat) : Rand (PosMapResult × CounterBlock) := do
  let ((leaf1, newLeaf), cb) :=
    cb.updateCounterIn prf icMax (managedKey % numIc) managedKey leafRange
  let ((rKey, leaf2, rNewLeaf), cb) ←
    cb.performResetIn prf numIc (managedKey / numIc * numIc) numManaged leafRange
  return ({ leaf1, leaf2, newLeaf, rKey, rNewLeaf }, cb)

theorem decode_encode {cb : CounterBlock} {numIc : Nat} (icLength : cb.ic.length = numIc)
    (backupLength : cb.backup.length = numIc) : decode cb.encode numIc = cb := by
  have longEnough : 8 + 2 * numIc ≤ cb.encode.length := by
    simp [encode, icLength, backupLength]
    omega
  have gcPart : cb.encode.take 8 = littleEndian 8 cb.gc.toNat := by
    rw [encode, List.take_left' (by simp)]
  have icPart : (cb.encode.drop 8).take numIc = cb.ic := by
    rw [encode, List.drop_left' (by simp), List.take_left' icLength]
  have backupPart : (cb.encode.drop (8 + numIc)).take numIc = cb.backup := by
    rw [← List.drop_drop, encode, List.drop_left' (by simp), List.drop_left' icLength,
      List.take_of_length_le (by omega)]
  have gcEq : UInt64.ofNat (ofLittleEndian (littleEndian 8 cb.gc.toNat)) = cb.gc := by
    rw [ofLittleEndian_littleEndian, Nat.mod_eq_of_lt (by have := cb.gc.toNat_lt; omega)]
    exact UInt64.ofNat_toNat
  rw [decode, if_pos longEnough, gcPart, icPart, backupPart, gcEq]

/-! ## Leaves -/

/-- The leaf that the counters give the `i`-th key of the group. -/
def leafOf (prf : Prf) (cb : CounterBlock) (leafRange key i : Nat) : Int :=
  prfLeaf prf key (if cb.backup.getD i 0 = 1 then cb.gc - 1 else cb.gc) (cb.ic.getD i 0) leafRange

/-- The keys of the group whose counters have not been repaired since the last overflow. -/
def pending (cb : CounterBlock) (numIc baseKey numManaged : Nat) : Finset Nat :=
  (Finset.range numIc).filter (fun i => cb.backup.getD i 0 = 1 ∧ baseKey + i < numManaged)

theorem mem_pending {cb : CounterBlock} {numIc baseKey numManaged i : Nat} :
    i ∈ cb.pending numIc baseKey numManaged ↔
      i < numIc ∧ cb.backup.getD i 0 = 1 ∧ baseKey + i < numManaged := by
  simp [pending]

/-- While repairs are pending, every other counter of the group is far from its maximum. -/
structure Sound (cb : CounterBlock) (numIc baseKey numManaged : Nat) : Prop where
  icLength : cb.ic.length = numIc
  backupLength : cb.backup.length = numIc
  slack : ∀ i < numIc, baseKey + i < numManaged → cb.backup.getD i 0 ≠ 1 →
    (cb.pending numIc baseKey numManaged).card = 0 ∨
      (cb.pending numIc baseKey numManaged).card + (cb.ic.getD i 0).toNat + 2 ≤ numIc

/-- The state between the two halves of `touch`: one repair is still to come. -/
structure Advanced (cb : CounterBlock) (numIc baseKey numManaged offset : Nat) : Prop where
  icLength : cb.ic.length = numIc
  backupLength : cb.backup.length = numIc
  current : cb.backup.getD offset 0 ≠ 1
  slack : ∀ i < numIc, baseKey + i < numManaged → cb.backup.getD i 0 ≠ 1 →
    (cb.pending numIc baseKey numManaged).card ≤ 1 ∨
      (cb.pending numIc baseKey numManaged).card + (cb.ic.getD i 0).toNat + 1 ≤ numIc

theorem getD_set {α : Type} (items : List α) {i j : Nat} (inRange : j < items.length)
    (value fallback : α) :
    (items.set j value).getD i fallback = if i = j then value else items.getD i fallback := by
  by_cases here : i = j
  · subst here
    simp [List.getD_eq_getElem?_getD, inRange]
  · simp [List.getD_eq_getElem?_getD, List.getElem?_set_ne (Ne.symm here), here]

theorem sound_zero (numIc baseKey numManaged : Nat) :
    (zero numIc).Sound numIc baseKey numManaged := by
  refine ⟨by simp [zero], by simp [zero], ?_⟩
  intro i _ _ _
  refine Or.inl (Finset.card_eq_zero.mpr (Finset.eq_empty_of_forall_notMem ?_))
  intro j isPending
  have flag := (mem_pending.mp isPending).2.1
  simp [zero, List.getD_eq_getElem?_getD, List.getElem?_replicate] at flag
  split at flag <;> simp at flag

variable {prf : Prf} {icMax numIc baseKey numManaged leafRange offset : Nat} {cb : CounterBlock}

/-- A key that is not pending is not counted. -/
theorem card_pending_lt (offsetLt : offset < numIc) (current : cb.backup.getD offset 0 ≠ 1) :
    (cb.pending numIc baseKey numManaged).card < numIc := by
  have sub : cb.pending numIc baseKey numManaged ⊆ (Finset.range numIc).erase offset := by
    intro i isPending
    rcases mem_pending.mp isPending with ⟨iLt, flag, _⟩
    refine Finset.mem_erase.mpr ⟨?_, Finset.mem_range.mpr iLt⟩
    rintro rfl
    exact current flag
  have card := Finset.card_le_card sub
  rw [Finset.card_erase_of_mem (Finset.mem_range.mpr offsetLt), Finset.card_range] at card
  omega

/-- Clearing a flag takes one repair off the list. -/
theorem pending_setBackup (backupLt : offset < cb.backup.length) (ic : List UInt8) (gc : UInt64) :
    ({ gc, ic, backup := cb.backup.set offset 0 } : CounterBlock).pending numIc baseKey numManaged =
      (cb.pending numIc baseKey numManaged).erase offset := by
  ext i
  simp only [mem_pending, Finset.mem_erase, getD_set _ backupLt]
  by_cases here : i = offset <;> simp [here]

/-- The backup branch of `update_counter_in` repairs the key itself. -/
theorem Sound.advanced_of_flag (sound : cb.Sound numIc baseKey numManaged) (offsetLt : offset < numIc)
    (managed : baseKey + offset < numManaged) (flag : cb.backup.getD offset 0 = 1) :
    (cb.resetAt offset).Advanced numIc baseKey numManaged offset := by
  have icLt : offset < cb.ic.length := sound.icLength.symm ▸ offsetLt
  have backupLt : offset < cb.backup.length := sound.backupLength.symm ▸ offsetLt
  have isPending : offset ∈ cb.pending numIc baseKey numManaged :=
    mem_pending.mpr ⟨offsetLt, flag, managed⟩
  have card : ((cb.resetAt offset).pending numIc baseKey numManaged).card + 1 =
      (cb.pending numIc baseKey numManaged).card := by
    rw [resetAt, pending_setBackup backupLt, Finset.card_erase_add_one isPending]
  have cardLe : (cb.pending numIc baseKey numManaged).card ≤ numIc := by
    simpa [pending] using Finset.card_filter_le (Finset.range numIc)
      (fun i => cb.backup.getD i 0 = 1 ∧ baseKey + i < numManaged)
  refine ⟨by simp [resetAt, sound.icLength], by simp [resetAt, sound.backupLength], ?_, ?_⟩
  · simp only [resetAt, getD_set _ backupLt, if_true]
    decide
  · intro i iLt iManaged unflagged
    refine Or.inr ?_
    by_cases here : i = offset
    · simp only [resetAt, getD_set _ icLt, here, if_true, UInt8.toNat_zero] at card ⊢
      omega
    · simp only [resetAt, getD_set _ backupLt, getD_set _ icLt, here, if_false] at unflagged card ⊢
      rcases sound.slack i iLt iManaged unflagged with none | slack <;> omega

/-- An overflow only happens when no repair is pending. -/
theorem Sound.pending_eq_empty (sound : cb.Sound numIc baseKey numManaged)
    (offsetLt : offset < numIc) (managed : baseKey + offset < numManaged)
    (fewIc : numIc ≤ icMax + 1) (unflagged : cb.backup.getD offset 0 ≠ 1)
    (overflows : icMax ≤ (cb.ic.getD offset 0).toNat + 1) :
    cb.pending numIc baseKey numManaged = ∅ := by
  refine Finset.card_eq_zero.mp ?_
  rcases sound.slack offset offsetLt managed unflagged with none | slack <;> omega

/-- What `update_counter_in` does to the leaves of the group and to its pending repairs. -/
theorem Sound.updateCounterIn (sound : cb.Sound numIc baseKey numManaged)
    (offsetLt : offset < numIc) (managed : baseKey + offset < numManaged)
    (fewIc : numIc ≤ icMax + 1) (smallMax : icMax ≤ 256) :
    let updated := cb.updateCounterIn prf icMax offset (baseKey + offset) leafRange
    updated.1.1 = cb.leafOf prf leafRange (baseKey + offset) offset ∧
      updated.1.2 = updated.2.leafOf prf leafRange (baseKey + offset) offset ∧
      (∀ i < numIc, i ≠ offset → baseKey + i < numManaged →
        updated.2.leafOf prf leafRange (baseKey + i) i = cb.leafOf prf leafRange (baseKey + i) i) ∧
      updated.2.Advanced numIc baseKey numManaged offset := by
  have icLt : offset < cb.ic.length := sound.icLength.symm ▸ offsetLt
  have backupLt : offset < cb.backup.length := sound.backupLength.symm ▸ offsetLt
  unfold CounterBlock.updateCounterIn
  dsimp only
  split
  · rename_i flag
    refine ⟨by rw [leafOf, if_pos flag], ?_, ?_, sound.advanced_of_flag offsetLt managed flag⟩
    · simp only [leafOf, getD_set _ icLt, getD_set _ backupLt, if_true]
      rfl
    · intro i _ other _
      simp only [leafOf, getD_set _ icLt, getD_set _ backupLt, if_neg other]
  · rename_i unflagged
    split
    · rename_i overflows
      have noPending := sound.pending_eq_empty offsetLt managed fewIc unflagged overflows
      have raised : ∀ i < numIc, (cb.backup.mapIdx
          (fun i flag => if i = offset then flag else 1)).getD i 0 =
            if i = offset then cb.backup.getD offset 0 else 1 := by
        intro i iLt
        have iLt' : i < cb.backup.length := sound.backupLength.symm ▸ iLt
        by_cases here : i = offset
        · subst here
          simp [List.getD_eq_getElem?_getD, iLt']
        · simp [List.getD_eq_getElem?_getD, iLt', here]
      have sameLength : (cb.backup.mapIdx
          (fun i flag => if i = offset then flag else 1)).length = numIc := by
        rw [List.length_mapIdx, sound.backupLength]
      generalize cb.backup.mapIdx (fun i flag => if i = offset then flag else 1) = flags
        at raised sameLength
      refine ⟨by rw [leafOf, if_neg unflagged], ?_, ?_, ?_⟩
      · simp only [leafOf, getD_set _ icLt, raised offset offsetLt, if_true, if_neg unflagged]
      · intro i iLt other iManaged
        have calm : cb.backup.getD i 0 ≠ 1 := by
          intro flag
          have isPending := mem_pending.mpr ⟨iLt, flag, iManaged⟩
          rw [noPending] at isPending
          exact absurd isPending (Finset.notMem_empty i)
        simp only [leafOf, getD_set _ icLt, raised i iLt, if_neg other, if_true, if_neg calm,
          UInt64.add_sub_cancel]
      · have current : flags.getD offset 0 ≠ 1 := by
          rw [raised offset offsetLt, if_pos rfl]
          exact unflagged
        refine ⟨by simp [sound.icLength], sameLength, current, ?_⟩
        intro i iLt _ calm
        have here : i = offset := by
          by_contra other
          rw [raised i iLt, if_neg other] at calm
          exact calm rfl
        subst here
        refine Or.inr ?_
        have card : ((⟨cb.gc + 1, cb.ic.set i 0, flags⟩ : CounterBlock).pending numIc baseKey
            numManaged).card < numIc := card_pending_lt iLt current
        simp only [getD_set _ icLt, if_true, UInt8.toNat_zero]
        omega
    · rename_i room
      refine ⟨by rw [leafOf, if_neg unflagged], ?_, ?_,
        ⟨by simp [sound.icLength], sound.backupLength, unflagged, ?_⟩⟩
      · simp only [leafOf, getD_set _ icLt, if_true, if_neg unflagged]
      · intro i _ other _
        simp only [leafOf, getD_set _ icLt, if_neg other]
      · intro i iLt iManaged calm
        have samePending : ({ cb with ic := cb.ic.set offset (cb.ic.getD offset 0 + 1) } :
            CounterBlock).pending numIc baseKey numManaged =
              cb.pending numIc baseKey numManaged := rfl
        rw [samePending]
        dsimp only at calm ⊢
        rw [getD_set _ icLt]
        have slack := sound.slack i iLt iManaged calm
        by_cases here : i = offset
        · subst here
          have noWrap : (cb.ic.getD i 0 + 1).toNat = (cb.ic.getD i 0).toNat + 1 := by
            rw [UInt8.toNat_add, UInt8.toNat_one, Nat.mod_eq_of_lt (by omega)]
          rw [if_pos rfl, noWrap]
          omega
        · rw [if_neg here]
          omega

theorem resetIndex_eq_some {i : Nat}
    (found : cb.resetIndex numIc baseKey numManaged = some i) :
    i ∈ cb.pending numIc baseKey numManaged := by
  have sat := List.find?_some found
  have iLt := List.mem_range.mp (List.mem_of_find?_eq_some found)
  simp only [Bool.and_eq_true, beq_iff_eq, decide_eq_true_eq] at sat
  exact mem_pending.mpr ⟨iLt, sat⟩

theorem pending_of_resetIndex_eq_none (absent : cb.resetIndex numIc baseKey numManaged = none) :
    cb.pending numIc baseKey numManaged = ∅ := by
  refine Finset.eq_empty_of_forall_notMem ?_
  intro i isPending
  rcases mem_pending.mp isPending with ⟨iLt, flag, managed⟩
  have unsat := List.find?_eq_none.mp absent i (List.mem_range.mpr iLt)
  exact unsat (by simp only [flag, managed, BEq.rfl, decide_true, Bool.and_true])

/-- Without a repair to do the group is sound again. -/
theorem Advanced.sound_of_none (advanced : cb.Advanced numIc baseKey numManaged offset)
    (absent : cb.resetIndex numIc baseKey numManaged = none) :
    cb.Sound numIc baseKey numManaged := by
  refine ⟨advanced.icLength, advanced.backupLength, ?_⟩
  intro i _ _ _
  rw [pending_of_resetIndex_eq_none absent]
  exact Or.inl rfl

/-- A repair makes up for the counter that was advanced. -/
theorem Advanced.sound_resetAt (advanced : cb.Advanced numIc baseKey numManaged offset)
    (offsetLt : offset < numIc) {i : Nat}
    (found : cb.resetIndex numIc baseKey numManaged = some i) :
    (cb.resetAt i).Sound numIc baseKey numManaged := by
  have isPending := resetIndex_eq_some found
  have iLt := (mem_pending.mp isPending).1
  have icLt : i < cb.ic.length := advanced.icLength.symm ▸ iLt
  have backupLt : i < cb.backup.length := advanced.backupLength.symm ▸ iLt
  have card : ((cb.resetAt i).pending numIc baseKey numManaged).card + 1 =
      (cb.pending numIc baseKey numManaged).card := by
    rw [resetAt, pending_setBackup backupLt, Finset.card_erase_add_one isPending]
  have cardLt : (cb.pending numIc baseKey numManaged).card < numIc :=
    card_pending_lt offsetLt advanced.current
  refine ⟨by simp [resetAt, advanced.icLength], by simp [resetAt, advanced.backupLength], ?_⟩
  intro j jLt jManaged calm
  by_cases here : j = i
  · refine Or.inr ?_
    simp only [resetAt, getD_set _ icLt, here, if_true, UInt8.toNat_zero] at card ⊢
    omega
  · simp only [resetAt, getD_set _ backupLt, getD_set _ icLt, here, if_false] at calm card ⊢
    rcases advanced.slack j jLt jManaged calm with few | slack <;> omega

/-! ## Using a group -/

/-- The leaf of a key under the counters of its group. -/
def label (prf : Prf) (numIc leafRange : Nat) (cb : CounterBlock) (key : Nat) : Int :=
  cb.leafOf prf leafRange key (key % numIc)

/-- The counters after `touch`, whatever it draws. -/
def touched (prf : Prf) (icMax numIc : Nat) (cb : CounterBlock)
    (managedKey numManaged leafRange : Nat) : CounterBlock :=
  let cb := (cb.updateCounterIn prf icMax (managedKey % numIc) managedKey leafRange).2
  match cb.resetIndex numIc (managedKey / numIc * numIc) numManaged with
  | some i => cb.resetAt i
  | none => cb

/--
`touch` says where a key is and where it goes, and the same for the key whose
counter it repairs; the other keys of the group stay where they are.
-/
structure Moves (prf : Prf) (numIc numManaged leafRange : Nat) (cb cb' : CounterBlock)
    (key : Nat) (result : PosMapResult) : Prop where
  leaf1 : result.leaf1 = label prf numIc leafRange cb key
  newLeaf : result.newLeaf = label prf numIc leafRange cb' key
  leaf2 : 0 ≤ result.leaf2 ∧ result.leaf2 < (max leafRange 1 : Nat)
  reset : ∀ r, result.rKey = some r → r ≠ key ∧ r / numIc = key / numIc ∧ r < numManaged ∧
    result.leaf2 = label prf numIc leafRange cb r ∧
    result.rNewLeaf = label prf numIc leafRange cb' r
  others : ∀ k, k / numIc = key / numIc → k < numManaged → k ≠ key → result.rKey ≠ some k →
    label prf numIc leafRange cb' k = label prf numIc leafRange cb k

/-- What a repair does to the leaves of the group. -/
theorem leafOf_resetAt {i j : Nat} (iLt : i < numIc) (icLength : cb.ic.length = numIc)
    (backupLength : cb.backup.length = numIc) (key : Nat) :
    (cb.resetAt i).leafOf prf leafRange key j =
      if j = i then prfLeaf prf key cb.gc 0 leafRange else cb.leafOf prf leafRange key j := by
  have icLt : i < cb.ic.length := icLength.symm ▸ iLt
  have backupLt : i < cb.backup.length := backupLength.symm ▸ iLt
  by_cases here : j = i
  · simp only [leafOf, resetAt, getD_set _ icLt, getD_set _ backupLt, here, if_true]
    rfl
  · simp only [leafOf, resetAt, getD_set _ icLt, getD_set _ backupLt, if_neg here]

variable {key : Nat}

/-- A key of the group and its offset. -/
theorem base_add_offset {k group : Nat} (inGroup : k / numIc = group) :
    group * numIc + k % numIc = k := by
  subst inGroup
  exact Nat.div_add_mod' k numIc

/-- `touch` moves the key and at most one other key of its group. -/
theorem Sound.ends_touch (sound : cb.Sound numIc (key / numIc * numIc) numManaged)
    (numIcPos : 0 < numIc) (managed : key < numManaged) (fewIc : numIc ≤ icMax + 1)
    (smallMax : icMax ≤ 256) :
    Ends (cb.touch prf icMax numIc key numManaged leafRange) (fun outcome =>
      outcome.2 = cb.touched prf icMax numIc key numManaged leafRange ∧
        outcome.2.Sound numIc (key / numIc * numIc) numManaged ∧
        Moves prf numIc numManaged leafRange cb outcome.2 key outcome.1) := by
  have offsetLt := Nat.mod_lt key numIcPos
  have keyEq : key / numIc * numIc + key % numIc = key := base_add_offset rfl
  have updatedCounter := @Sound.updateCounterIn prf icMax numIc (key / numIc * numIc) numManaged
    leafRange (key % numIc) cb sound offsetLt (by rwa [keyEq]) fewIc smallMax
  rcases updatedCounter with ⟨leaf1Eq, newLeafEq, others, advanced⟩
  unfold CounterBlock.touch CounterBlock.touched
  rw [keyEq] at leaf1Eq newLeafEq others advanced
  generalize cb.updateCounterIn prf icMax (key % numIc) key leafRange = updated
    at leaf1Eq newLeafEq others advanced ⊢
  rcases updated with ⟨⟨leaf1, newLeaf⟩, cb'⟩
  dsimp only at leaf1Eq newLeafEq others advanced ⊢
  unfold CounterBlock.performResetIn
  have sameGroup : ∀ k, k / numIc = key / numIc → k < numManaged → k ≠ key →
      label prf numIc leafRange cb' k = label prf numIc leafRange cb k := by
    intro k inGroup kManaged other
    have kEq := base_add_offset inGroup
    have differs : k % numIc ≠ key % numIc := by
      intro same
      rw [same, keyEq] at kEq
      exact other kEq.symm
    have kept := others (k % numIc) (Nat.mod_lt k numIcPos) differs (by rwa [kEq])
    rwa [kEq] at kept
  rcases found : cb'.resetIndex numIc (key / numIc * numIc) numManaged with _ | i
  · have positive : 0 < max leafRange 1 := by omega
    refine Prog.ends_bind (Q := fun outcome => outcome.2 = cb' ∧ outcome.1.1 = none ∧
      0 ≤ outcome.1.2.1 ∧ outcome.1.2.1 < ((max leafRange 1 : Nat) : Int)) ?_ ?_
    · refine Prog.ends_bind (ends_randBelow positive) ?_
      intro leaf leafLt
      exact Prog.ends_pure ⟨rfl, rfl, Int.natCast_nonneg leaf, Int.ofNat_lt.mpr leafLt⟩
    · rintro ⟨⟨rKey, leaf2, rNewLeaf⟩, after⟩ ⟨rfl, rfl, leaf2Range⟩
      refine Prog.ends_pure ⟨rfl, advanced.sound_of_none found, leaf1Eq, newLeafEq, leaf2Range, ?_,
        ?_⟩
      · intro r isReset
        cases isReset
      · intro k inGroup kManaged other _
        exact sameGroup k inGroup kManaged other
  · rcases mem_pending.mp (resetIndex_eq_some found) with ⟨iLt, flag, iManaged⟩
    have rOffset : (key / numIc * numIc + i) % numIc = i := by
      rw [Nat.add_comm, Nat.add_mul_mod_self_right, Nat.mod_eq_of_lt iLt]
    have rGroup : (key / numIc * numIc + i) / numIc = key / numIc := by
      rw [Nat.add_comm, Nat.add_mul_div_right _ _ numIcPos, Nat.div_eq_of_lt iLt, Nat.zero_add]
    have rNe : key / numIc * numIc + i ≠ key := by
      intro same
      rw [same] at rOffset
      rw [← rOffset] at flag
      exact advanced.current flag
    have repaired : ∀ k, label prf numIc leafRange (cb'.resetAt i) k =
        if k % numIc = i then prfLeaf prf k cb'.gc 0 leafRange
        else label prf numIc leafRange cb' k := by
      intro k
      exact leafOf_resetAt iLt advanced.icLength advanced.backupLength k
    have resetLeaf : label prf numIc leafRange cb' (key / numIc * numIc + i) =
        prfLeaf prf (key / numIc * numIc + i) (cb'.gc - 1) (cb'.ic.getD i 0) leafRange := by
      rw [label, rOffset, leafOf, if_pos flag]
    have keyOffset : key % numIc ≠ i := by
      rintro rfl
      exact rNe keyEq
    refine Prog.ends_pure ⟨rfl, advanced.sound_resetAt offsetLt found, leaf1Eq, ?_,
      prfLeaf_range _ _ _ _ _, ?_, ?_⟩
    · rw [repaired, if_neg keyOffset]
      exact newLeafEq
    · intro r isReset
      obtain rfl : key / numIc * numIc + i = r := by simpa using isReset
      refine ⟨rNe, rGroup, iManaged, ?_, ?_⟩
      · rw [← sameGroup _ rGroup iManaged rNe]
        exact resetLeaf.symm
      · rw [repaired, if_pos rOffset]
    · intro k inGroup kManaged other notReset
      have kOffset : k % numIc ≠ i := by
        rintro rfl
        exact notReset (congrArg some (base_add_offset inGroup))
      rw [repaired, if_neg kOffset]
      exact sameGroup k inGroup kManaged other

end CounterBlock

end TieredOmap
