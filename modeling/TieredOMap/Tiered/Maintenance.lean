import Mathlib.Algebra.Order.Group.Multiset
import TieredOMap.Common

/-!
# The maintenance manager

`MaintenanceManager` (`maintenance.h`): epoch metadata, the phases at which
maintenance steps fire, the client cache with its admission rule and the swap
state. A C++ `/` or `%` on `int` is `Int.tdiv` or `Int.tmod`.
-/

namespace TieredOmap

/-- `MaintenanceConfig`. -/
structure MaintenanceConfig where
  observationWindow : Int := 65536
  swapInterval : Int := 32
  cacheSize : Int := 8
  enabled : Bool := false
  piggyback : Bool := false
deriving DecidableEq, Repr, Inhabited

/-- A key in the client cache with its access frequency. -/
structure CacheEntry where
  key : Int := invalidKey
  fp : Int := 0
deriving DecidableEq, Repr, Inhabited

/-- `MaintenanceManager`. -/
structure MaintenanceManager where
  cfg : MaintenanceConfig
  cache : List CacheEntry := []
  swapState : SwapState := .idle
  obsEpoch : Int := 0
  totalAccesses : Int := 0
  scanPtr : Int := -1
deriving DecidableEq, Repr, Inhabited

namespace MaintenanceManager

/-- `update_meta`. -/
def updateMeta (maint : MaintenanceManager) (stored : EpochMeta) : EpochMeta :=
  if stored.ep < maint.obsEpoch then
    { fp := if stored.ep = maint.obsEpoch - 1 then stored.cnt else 0,
      cnt := 1, ep := maint.obsEpoch }
  else { stored with cnt := stored.cnt + 1 }

/-- `tick`. -/
def tick (maint : MaintenanceManager) : MaintenanceManager :=
  { maint with
    totalAccesses := maint.totalAccesses + 1
    obsEpoch := (maint.totalAccesses + 1).tdiv maint.cfg.observationWindow }

/-- `can_maintain`. -/
def canMaintain (maint : MaintenanceManager) : Bool :=
  0 < maint.totalAccesses && 0 < maint.obsEpoch

/-- `phase`. -/
def phase (maint : MaintenanceManager) : Int := maint.totalAccesses.tmod maint.cfg.swapInterval

/-- `hot_insert_phase`. -/
def hotInsertPhase (maint : MaintenanceManager) : Int := max 1 (maint.cfg.swapInterval.tdiv 3)

/-- `cold_insert_phase`. -/
def coldInsertPhase (maint : MaintenanceManager) : Int :=
  max 2 ((2 * maint.cfg.swapInterval).tdiv 3)

/-- `should_scan`. -/
def shouldScan (maint : MaintenanceManager) : Bool := maint.canMaintain && maint.phase == 0

/-- `should_hot_insert`. -/
def shouldHotInsert (maint : MaintenanceManager) : Bool :=
  maint.canMaintain && maint.phase == maint.hotInsertPhase

/-- `should_cold_insert`. -/
def shouldColdInsert (maint : MaintenanceManager) : Bool :=
  maint.canMaintain && maint.phase == maint.coldInsertPhase

/-- `should_promote`: the frequency beats the least one in the cache. -/
def shouldPromote (maint : MaintenanceManager) (fp : Int) : Bool :=
  match maint.cache with
  | [] => false
  | first :: rest =>
      rest.foldl (fun minFp entry => if entry.fp < minFp then entry.fp else minFp) first.fp < fp

/-- `should_demote_cache`: the frequency is below the greatest one in the cache. -/
def shouldDemoteCache (maint : MaintenanceManager) (fp : Int) : Bool :=
  match maint.cache with
  | [] => false
  | first :: rest =>
      fp < rest.foldl (fun maxFp entry => if maxFp < entry.fp then entry.fp else maxFp) first.fp

/-- The first index whose frequency no other one beats. -/
def evictIndex (beats : Int → Int → Bool) (cache : List CacheEntry) : Nat :=
  (List.range' 1 (cache.length - 1)).foldl
    (fun idx i => if beats (cache.getD i {}).fp (cache.getD idx {}).fp then i else idx) 0

/-- `cache_admit`: add an entry, then evict the hottest (`fromHot`) or the coldest one. -/
def cacheAdmit (maint : MaintenanceManager) (key fp : Int) (fromHot : Bool) :
    CacheEntry × MaintenanceManager :=
  let cache := maint.cache ++ [{ key := key, fp := fp }]
  let idx := evictIndex (if fromHot then (fun x y => y < x) else (fun x y => x < y)) cache
  (cache.getD idx {}, { maint with cache := cache.eraseIdx idx })

/-- `set_swap_state`. -/
def setSwapState (maint : MaintenanceManager) (swapState : SwapState) : MaintenanceManager :=
  { maint with swapState }

/-- `set_scan_ptr`. -/
def setScanPtr (maint : MaintenanceManager) (key : Int) : MaintenanceManager :=
  { maint with scanPtr := key }

/-- `reset_scan_ptr`. -/
def resetScanPtr (maint : MaintenanceManager) : MaintenanceManager := { maint with scanPtr := -1 }

/-- `init_cache`. -/
def initCache (maint : MaintenanceManager) (entries : List CacheEntry) : MaintenanceManager :=
  { maint with cache := entries }

/-- Set the frequency of the first entry with the given key. -/
def setFp (key newFp : Int) : List CacheEntry → List CacheEntry
  | [] => []
  | entry :: rest =>
      if entry.key = key then { entry with fp := newFp } :: rest else entry :: setFp key newFp rest

/-- `update_cache_fp`. -/
def updateCacheFp (maint : MaintenanceManager) (key newFp : Int) : MaintenanceManager :=
  { maint with cache := setFp key newFp maint.cache }

/-! ## The cache keys -/

/-- The keys in the cache. -/
def cacheKeyList (maint : MaintenanceManager) : List Int := maint.cache.map CacheEntry.key

@[simp]
theorem cacheKeyList_tick (maint : MaintenanceManager) :
    maint.tick.cacheKeyList = maint.cacheKeyList := rfl

@[simp]
theorem cacheKeyList_setSwapState (maint : MaintenanceManager) (swapState : SwapState) :
    (maint.setSwapState swapState).cacheKeyList = maint.cacheKeyList := rfl

@[simp]
theorem cacheKeyList_setScanPtr (maint : MaintenanceManager) (key : Int) :
    (maint.setScanPtr key).cacheKeyList = maint.cacheKeyList := rfl

@[simp]
theorem cacheKeyList_resetScanPtr (maint : MaintenanceManager) :
    maint.resetScanPtr.cacheKeyList = maint.cacheKeyList := rfl

theorem map_key_setFp (key newFp : Int) (cache : List CacheEntry) :
    (setFp key newFp cache).map CacheEntry.key = cache.map CacheEntry.key := by
  induction cache with
  | nil => rfl
  | cons entry rest ih =>
      unfold setFp
      split
      · rfl
      · simp [ih]

@[simp]
theorem cacheKeyList_updateCacheFp (maint : MaintenanceManager) (key newFp : Int) :
    (maint.updateCacheFp key newFp).cacheKeyList = maint.cacheKeyList :=
  map_key_setFp key newFp maint.cache

/-! ## Admission -/

/-- The scan keeps the first index that no index seen so far beats. -/
theorem evictIndex_spec {beats : Int → Int → Bool} (irrefl : ∀ x, beats x x = false)
    (trans : ∀ x y z, beats x y = true → beats y z = true → beats x z = true)
    (negTrans : ∀ x y z, beats x y = true → beats z y = false → beats x z = true)
    (cache : List CacheEntry) (count : Nat) :
    let idx := (List.range' 1 count).foldl
      (fun idx i => if beats (cache.getD i {}).fp (cache.getD idx {}).fp then i else idx) 0
    idx ≤ count ∧ (∀ i ≤ count, beats (cache.getD i {}).fp (cache.getD idx {}).fp = false) ∧
      ∀ i < idx, beats (cache.getD idx {}).fp (cache.getD i {}).fp = true := by
  induction count with
  | zero =>
      refine ⟨le_refl _, ?_, fun i iLt => absurd iLt (Nat.not_lt_zero i)⟩
      intro i iLe
      have iZero : i = 0 := by omega
      subst iZero
      exact irrefl _
  | succ count ih =>
      rcases ih with ⟨idxLe, unbeaten, first⟩
      simp only [List.range'_1_concat, List.foldl_append, List.foldl_cons, List.foldl_nil]
      rw [Nat.add_comm 1 count]
      set idx := (List.range' 1 count).foldl
        (fun idx i => if beats (cache.getD i {}).fp (cache.getD idx {}).fp then i else idx) 0
      split
      · rename_i better
        refine ⟨le_refl _, ?_, ?_⟩
        · intro i iLe
          by_contra beaten
          rcases Nat.lt_or_ge i (count + 1) with before | last
          · have through := trans _ _ _ (Bool.eq_true_of_not_eq_false beaten) better
            rw [unbeaten i (by omega)] at through
            exact absurd through (by decide)
          · have iLast : i = count + 1 := by omega
            subst iLast
            exact beaten (irrefl _)
        · intro i iLt
          exact negTrans _ _ _ better (unbeaten i (by omega))
      · rename_i worse
        refine ⟨by omega, ?_, first⟩
        intro i iLe
        rcases Nat.lt_or_ge i (count + 1) with before | last
        · exact unbeaten i (by omega)
        · have iLast : i = count + 1 := by omega
          subst iLast
          exact Bool.eq_false_of_not_eq_true worse

/-- The order in which `cache_admit` prefers to evict. -/
def evictOrder (fromHot : Bool) : Int → Int → Bool :=
  if fromHot then (fun x y => y < x) else (fun x y => x < y)

theorem evictOrder_irrefl (fromHot : Bool) (fp : Int) : evictOrder fromHot fp fp = false := by
  cases fromHot <;> simp [evictOrder]

theorem evictOrder_trans (fromHot : Bool) (x y z : Int) :
    evictOrder fromHot x y = true → evictOrder fromHot y z = true →
      evictOrder fromHot x z = true := by
  cases fromHot <;> simp only [evictOrder] <;> simp <;> omega

theorem evictOrder_negTrans (fromHot : Bool) (x y z : Int) :
    evictOrder fromHot x y = true → evictOrder fromHot z y = false →
      evictOrder fromHot x z = true := by
  cases fromHot <;> simp only [evictOrder] <;> simp <;> omega

/-- Admission evicts an old entry whenever the new one does not beat them all. -/
theorem cacheAdmit_spec (maint : MaintenanceManager) (key : Int) {fp : Int} {fromHot : Bool}
    (guard : ∃ entry ∈ maint.cache, evictOrder fromHot fp entry.fp = false) :
    ∃ evicted ∈ maint.cache, ∃ cache', maint.cacheAdmit key fp fromHot =
        (evicted, { maint with cache := cache' ++ [{ key := key, fp := fp }] }) ∧
      (↑maint.cache : Multiset CacheEntry) = evicted ::ₘ ↑cache' := by
  rcases guard with ⟨entry, entryMem, notBeaten⟩
  rcases List.mem_iff_getElem.mp entryMem with ⟨at_, atLt, entryEq⟩
  set extended := maint.cache ++ [({ key := key, fp := fp } : CacheEntry)] with extendedDef
  have spec := evictIndex_spec (evictOrder_irrefl fromHot) (evictOrder_trans fromHot)
    (evictOrder_negTrans fromHot) extended (extended.length - 1)
  set idx := evictIndex (evictOrder fromHot) extended with idxDef
  change idx ≤ _ ∧ (∀ i ≤ _, evictOrder fromHot (extended.getD i {}).fp
    (extended.getD idx {}).fp = false) ∧ ∀ i < idx, evictOrder fromHot (extended.getD idx {}).fp
      (extended.getD i {}).fp = true at spec
  have lengthEq : extended.length = maint.cache.length + 1 := by simp [extendedDef]
  have old : idx < maint.cache.length := by
    by_contra notOld
    have last : idx = maint.cache.length := by omega
    have beaten := spec.2.2 at_ (by omega)
    have newAt : (extended.getD idx {}).fp = fp := by
      simp [last, extendedDef, List.getD_eq_getElem?_getD]
    have entryAt : extended.getD at_ {} = entry := by
      simp [extendedDef, List.getD_eq_getElem?_getD, List.getElem?_append_left atLt, atLt, entryEq]
    rw [newAt, entryAt, notBeaten] at beaten
    exact absurd beaten (by decide)
  refine ⟨maint.cache[idx], List.getElem_mem old, maint.cache.eraseIdx idx, ?_, ?_⟩
  · have admitted : maint.cacheAdmit key fp fromHot =
        (extended.getD idx {}, { maint with cache := extended.eraseIdx idx }) := rfl
    rw [admitted, extendedDef, List.eraseIdx_append_of_lt_length old]
    simp [List.getD_eq_getElem?_getD, List.getElem?_append_left old, old]
  · exact Multiset.coe_eq_coe.mpr (List.getElem_cons_eraseIdx_perm old).symm

theorem foldl_pick_mem (pick : Int → CacheEntry → Int)
    (picks : ∀ fp entry, pick fp entry = fp ∨ pick fp entry = entry.fp)
    (entries : List CacheEntry) (start : Int) :
    entries.foldl pick start ∈ start :: entries.map CacheEntry.fp := by
  induction entries generalizing start with
  | nil => simp
  | cons entry rest ih =>
      have later := ih (pick start entry)
      simp only [List.map_cons, List.mem_cons, List.foldl_cons] at later ⊢
      rcases picks start entry with same | taken
      · rw [same] at later ⊢
        tauto
      · rw [taken] at later ⊢
        tauto

/-- A promoted key beats an entry of the cache. -/
theorem shouldPromote_beats {maint : MaintenanceManager} {fp : Int}
    (promote : maint.shouldPromote fp = true) : ∃ entry ∈ maint.cache, entry.fp < fp := by
  unfold shouldPromote at promote
  cases cacheEq : maint.cache with
  | nil => simp [cacheEq] at promote
  | cons first rest =>
      simp only [cacheEq] at promote
      have picked := foldl_pick_mem (fun minFp entry =>
        if entry.fp < minFp then entry.fp else minFp) (by
          intro fp entry
          split
          · exact Or.inr rfl
          · exact Or.inl rfl) rest first.fp
      rw [← List.map_cons] at picked
      rcases List.mem_map.mp picked with ⟨entry, entryMem, entryFp⟩
      refine ⟨entry, entryMem, ?_⟩
      rw [entryFp]
      exact of_decide_eq_true promote

/-- The promotion guard is what keeps admission from evicting the promoted key. -/
theorem shouldPromote_guard {maint : MaintenanceManager} {fp : Int}
    (promote : maint.shouldPromote fp = true) :
    ∃ entry ∈ maint.cache, evictOrder false fp entry.fp = false := by
  rcases shouldPromote_beats promote with ⟨entry, entryMem, beaten⟩
  exact ⟨entry, entryMem, by simpa [evictOrder] using beaten.le⟩

/-- The demotion guard is what keeps admission from evicting the demoted key. -/
theorem shouldDemoteCache_guard {maint : MaintenanceManager} {fp : Int}
    (demote : maint.shouldDemoteCache fp = true) :
    ∃ entry ∈ maint.cache, evictOrder true fp entry.fp = false := by
  unfold shouldDemoteCache at demote
  cases cacheEq : maint.cache with
  | nil => simp [cacheEq] at demote
  | cons first rest =>
      simp only [cacheEq] at demote
      have picked := foldl_pick_mem (fun maxFp entry =>
        if maxFp < entry.fp then entry.fp else maxFp) (by
          intro fp entry
          split
          · exact Or.inr rfl
          · exact Or.inl rfl) rest first.fp
      rw [← List.map_cons] at picked
      rcases List.mem_map.mp picked with ⟨entry, entryMem, entryFp⟩
      refine ⟨entry, entryMem, ?_⟩
      rw [entryFp]
      simpa [evictOrder] using (of_decide_eq_true demote).le

end MaintenanceManager

end TieredOmap
