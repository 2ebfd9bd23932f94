import TieredOMap.Lib.WindowCount
import TieredOMap.Tiered.Store

/-!
# Epoch metadata counts accesses

The metadata in a key's record is brought up to date only when the key is
accessed, and travels with the record. It is the number of accesses to the key
in the epoch of its last access and in the epoch before; the frequencies in the
cache are those in the records.
-/

namespace TieredOmap

open WindowCount

/-- The metadata of a key after some accesses. -/
def metaAfter (window : Int) (keys : List Int) (key : Int) : EpochMeta where
  cnt := countIn window keys key (lastIn window keys key)
  ep := lastIn window keys key
  fp := countIn window keys key (lastIn window keys key - 1)

/-- One access updates the metadata as the manager does, once its clock has ticked. -/
theorem updateMeta_metaAfter {maint : MaintenanceManager} {window : Int} (positive : 0 < window)
    {keys : List Int} (key : Int)
    (clock : maint.obsEpoch = ((keys.length + 1 : Nat) : Int) / window) :
    maint.updateMeta (metaAfter window keys key) = metaAfter window (keys ++ [key]) key := by
  have grows : (keys.length : Int) / window ≤ ((keys.length + 1 : Nat) : Int) / window :=
    Int.ediv_le_ediv positive (by omega)
  have bound : lastIn window keys key ≤ (keys.length : Int) / window := lastIn_le positive
  unfold MaintenanceManager.updateMeta metaAfter
  rw [lastIn_snoc, if_pos rfl]
  dsimp only
  split
  · rename_i earlier
    rw [clock] at earlier
    rcases countIn_later positive earlier with ⟨count, before⟩
    rw [count, before, clock]
    congr 1
    split <;> rfl
  · rename_i notEarlier
    rw [clock] at notEarlier
    have same : lastIn window keys key = ((keys.length + 1 : Nat) : Int) / window := by omega
    rcases countIn_same same with ⟨count, before⟩
    rw [same] at count before
    rw [count, before, same]
    push_cast
    rfl

/-- Accesses to other keys leave the metadata of a key as it was. -/
theorem metaAfter_of_ne (window : Int) (keys : List Int) {key key' : Int} (differs : key' ≠ key) :
    metaAfter window (keys ++ [key]) key' = metaAfter window keys key' := by
  have notHere : key ≠ key' := Ne.symm differs
  simp only [metaAfter, lastIn_snoc, countIn_snoc, notHere, if_false, false_and, Nat.add_zero]

/-- Metadata of fewer than `2 ^ 31` accesses survives a trip through memory. -/
theorem wrap_metaAfter {window : Int} (positive : 0 < window) {keys : List Int}
    (short : keys.length < 2 ^ 31) (key : Int) :
    (metaAfter window keys key).wrap = metaAfter window keys key := by
  have inRange : ∀ value : Int, 0 ≤ value → value ≤ keys.length →
      Int.bmod value (2 ^ 32) = value := by
    intro value nonneg bound
    have small : (keys.length : Int) < 2 ^ 31 := by exact_mod_cast short
    rw [Int.bmod_eq_of_le] <;> omega
  have last : lastIn window keys key ≤ (keys.length : Int) / window := lastIn_le positive
  have lastNonneg : 0 ≤ lastIn window keys key := lastIn_nonneg positive
  have lastBound : lastIn window keys key ≤ keys.length :=
    last.trans (Int.ediv_le_self _ (Int.natCast_nonneg _))
  have count := @countIn_le_length _ _ window keys key (lastIn window keys key)
  have before := @countIn_le_length _ _ window keys key (lastIn window keys key - 1)
  simp only [EpochMeta.wrap, metaAfter]
  rw [inRange _ (Int.natCast_nonneg _) (by exact_mod_cast count), inRange _ lastNonneg lastBound,
    inRange _ (Int.natCast_nonneg _) (by exact_mod_cast before)]

/-! ## The cache -/

namespace MaintenanceManager

/-- An update stores the frequency that it returns. -/
theorem fp_updateMeta_wrap (maint : MaintenanceManager) (raw : Bytes) :
    (maint.updateMeta (decodeEpoch raw).2).wrap.fp = (maint.updateMeta (decodeEpoch raw).2).fp := by
  rcases bmod_decodeEpoch raw with ⟨cnt, fp⟩
  unfold updateMeta EpochMeta.wrap
  split
  · dsimp only
    split
    · exact cnt
    · rfl
  · exact fp

/-- Admission brings only the admitted entry into the cache. -/
theorem mem_cacheAdmit {maint : MaintenanceManager} {key fp : Int} {fromHot : Bool}
    {entry : CacheEntry} (entryMem : entry ∈ (maint.cacheAdmit key fp fromHot).2.cache) :
    entry ∈ maint.cache ∨ entry = { key := key, fp := fp } := by
  have inAll := List.mem_of_mem_eraseIdx entryMem
  simpa using inAll

/-- With distinct keys, `update_cache_fp` rewrites the entry of its key and no other. -/
theorem mem_setFp {key newFp : Int} {cache : List CacheEntry} {entry : CacheEntry}
    (nodup : (cache.map CacheEntry.key).Nodup) (entryMem : entry ∈ setFp key newFp cache) :
    entry = { key := key, fp := newFp } ∨ entry ∈ cache ∧ entry.key ≠ key := by
  induction cache with
  | nil => simp [setFp] at entryMem
  | cons head rest ih =>
      rw [List.map_cons, List.nodup_cons] at nodup
      unfold setFp at entryMem
      split at entryMem
      · rename_i here
        rcases List.mem_cons.mp entryMem with rfl | inRest
        · exact Or.inl (by rw [← here])
        · refine Or.inr ⟨List.mem_cons_of_mem _ inRest, ?_⟩
          intro again
          exact nodup.1 (List.mem_map.mpr ⟨entry, inRest, again.trans here.symm⟩)
      · rename_i differs
        rcases List.mem_cons.mp entryMem with rfl | inRest
        · exact Or.inr ⟨List.mem_cons_self, differs⟩
        · rcases ih nodup.2 inRest with written | ⟨old, apart⟩
          · exact Or.inl written
          · exact Or.inr ⟨List.mem_cons_of_mem _ old, apart⟩

end MaintenanceManager

namespace Client

variable {layout : Layout} {c c' : Client}

/-- The metadata stored with a key's record. -/
def storedMeta (c : Client) (key : Int) : EpochMeta := (decodeEpoch (c.records key)).2

/-- Every frequency in the cache is the one stored with the key's record. -/
def CacheExact (c : Client) : Prop :=
  ∀ entry ∈ c.mgr.cache, entry.fp = (c.storedMeta entry.key).fp

/-- A step that changes no record brings in exact entries only. -/
theorem CacheExact.enlarge (exact : c.CacheExact) (records : c'.records = c.records)
    (entries : ∀ entry ∈ c'.mgr.cache, entry ∈ c.mgr.cache ∨
      entry.fp = (c.storedMeta entry.key).fp) : c'.CacheExact := by
  intro entry entryMem
  have same : c'.storedMeta = c.storedMeta := by
    funext key
    rw [storedMeta, records, storedMeta]
  rw [same]
  rcases entries entry entryMem with old | new
  · exact exact entry old
  · exact new

theorem CacheExact.withMgr (exact : c.CacheExact) {f : MaintenanceManager → MaintenanceManager}
    (sameCache : ∀ maint, (f maint).cache = maint.cache) : (c.withMgr f).CacheExact := by
  refine exact.enlarge rfl (fun entry entryMem => Or.inl ?_)
  rw [mgr_withMgr] at entryMem
  split at entryMem
  · rwa [sameCache] at entryMem
  · exact entryMem

theorem CacheExact.demoteToCache (exact : c.CacheExact) {scanKey fp : Int} (ref : Bytes)
    (stored : fp = (c.storedMeta scanKey).fp) : (c.demoteToCache scanKey fp ref).CacheExact := by
  refine exact.enlarge rfl (fun entry entryMem => ?_)
  rw [mgr_demoteToCache] at entryMem
  split at entryMem
  · rcases MaintenanceManager.mem_cacheAdmit entryMem with old | rfl
    · exact Or.inl old
    · exact Or.inr stored
  · exact Or.inl entryMem

theorem CacheExact.promoteToCache (exact : c.CacheExact) {key fp : Int} (ref : Bytes)
    (stored : fp = (c.storedMeta key).fp) : (c.promoteToCache key fp ref).CacheExact := by
  refine exact.enlarge rfl (fun entry entryMem => ?_)
  rw [mgr_promoteToCache] at entryMem
  split at entryMem
  · rcases MaintenanceManager.mem_cacheAdmit entryMem with old | rfl
    · exact Or.inl old
    · exact Or.inr stored
  · exact Or.inl entryMem

theorem CacheExact.nextScanKey (exact : c.CacheExact) : c.nextScanKey.2.CacheExact := by
  unfold Client.nextScanKey
  split
  · exact exact
  · split <;> exact exact.withMgr (fun _ => rfl)

/-- The scan reads the frequency from the record. -/
theorem CacheExact.doScanStep (exact : c.CacheExact) (shape : c.Shape layout)
    (notByItself : c.scansByItself = false) : (c.doScanStep layout).CacheExact := by
  unfold Client.doScanStep
  split
  · exact exact
  · rw [notByItself]
    simp only [Bool.false_eq_true, if_false]
    split
    · exact exact
    · rename_i nonempty
      have scanMem : c.nextScanKey.1 ∈ layout.stored :=
        shape.hotKeys_sub (shape.phys_sub ((shape.mem_list _).mp (nextScanKey_mem nonempty)))
      unfold scanNextKey
      dsimp only
      split
      · refine exact.nextScanKey.demoteToCache _ ?_
        rw [record, if_pos scanMem, storedMeta]
      · exact exact.nextScanKey

theorem CacheExact.clearPending (exact : c.CacheExact) : c.clearPending.CacheExact := by
  have cleared : CacheExact { c with pendingInsertKey := invalidKey, pendingInsertRef := [] } :=
    exact.enlarge rfl (fun _ => Or.inl)
  exact cleared.withMgr (fun _ => rfl)

theorem CacheExact.staggeredMaintenance (exact : c.CacheExact) (shape : c.Shape layout)
    (notByItself : c.scansByItself = false) : (c.staggeredMaintenance layout).CacheExact := by
  have scanned : (if c.mgr.shouldScan then c.doScanStep layout else c).CacheExact := by
    split
    · exact exact.doScanStep shape notByItself
    · exact exact
  unfold Client.staggeredMaintenance
  dsimp only
  generalize (if c.mgr.shouldScan then c.doScanStep layout else c) = s at scanned ⊢
  have inserted : (if s.mgr.shouldHotInsert then s.doHotInsertStep else s).CacheExact := by
    unfold doHotInsertStep
    split
    · split
      · exact CacheExact.clearPending scanned
      · exact scanned
    · exact scanned
  generalize (if s.mgr.shouldHotInsert then s.doHotInsertStep else s) = s' at inserted ⊢
  unfold doColdInsertStep
  split
  · split
    · exact inserted.clearPending
    · exact inserted
  · exact inserted

/-! ## Accesses -/

/-- The metadata a record gets from an access. -/
theorem storedMeta_restamp {key key' : Int} (newValue : Option Bytes)
    (keyStored' : key' ∈ layout.stored) :
    (c.restamp layout key newValue).2.storedMeta key' =
      if key' = key then (c.mgr.updateMeta (c.storedMeta key)).wrap else c.storedMeta key' := by
  unfold storedMeta restamp
  dsimp only
  rw [valueOf_setRecord _ keyStored']
  split
  · rename_i here
    subst here
    rw [decodeEpoch_encodeWithEpoch, record, if_pos keyStored']
  · rfl

/-- The frequency an access returns is the one it stores. -/
theorem fp_restamp {key : Int} (newValue : Option Bytes) (keyStored : key ∈ layout.stored) :
    (c.restamp layout key newValue).1.2 =
      ((c.restamp layout key newValue).2.storedMeta key).fp := by
  rw [storedMeta_restamp newValue keyStored, if_pos rfl, storedMeta,
    MaintenanceManager.fp_updateMeta_wrap]
  simp only [restamp, record, if_pos keyStored]

@[simp]
theorem mgr_restamp (key : Int) (newValue : Option Bytes) :
    (c.restamp layout key newValue).2.mgr = c.mgr := by
  unfold restamp setRecord
  dsimp only
  split <;> rfl

/-- Stamping a key that is not cached leaves the cache exact. -/
theorem CacheExact.restamp (exact : c.CacheExact) (shape : c.Shape layout) {key : Int}
    (notCached : key ∉ c.cacheKeys) (newValue : Option Bytes) :
    (c.restamp layout key newValue).2.CacheExact := by
  intro entry entryMem
  rw [mgr_restamp] at entryMem
  have cached : entry.key ∈ c.cacheKeys :=
    (shape.mem_cache _).mp (List.mem_map_of_mem entryMem)
  have differs : entry.key ≠ key := fun here => notCached (here ▸ cached)
  rw [storedMeta_restamp newValue (shape.hotKeys_sub (shape.cache_sub cached)), if_neg differs,
    exact entry entryMem]

theorem CacheExact.accessPath (exact : c.CacheExact) (shape : c.Shape layout) (key : Int)
    (newValue : Option Bytes) : (c.accessPath layout key newValue).2.CacheExact := by
  unfold Client.accessPath
  split
  · have notCached : c.pendingInsertKey ∉ c.cacheKeys := by
      by_cases isIdle : c.mgr.swapState = .idle
      · intro cached
        exact layout.valid _ (shape.hotKeys_sub (shape.cache_sub cached)) (shape.idle isIdle).1
      · exact (shape.pending isIdle).2.2.2
    exact exact.restamp shape notCached newValue
  · split
    · rename_i cached
      have keyStored := shape.hotKeys_sub (shape.cache_sub cached)
      intro entry entryMem
      change _ = ((c.restamp layout key newValue).2.storedMeta entry.key).fp
      rw [accessCache, mgr_withMgr, mgr_restamp] at entryMem
      have written : entry = { key := key, fp := (c.restamp layout key newValue).1.2 } ∨
          entry ∈ c.mgr.cache ∧ entry.key ≠ key := by
        split at entryMem
        · exact MaintenanceManager.mem_setFp shape.cacheNodup entryMem
        · rename_i disabled
          have enabled := congrArg Option.isSome
            (maint_of_mgr (Or.inl (List.ne_nil_of_mem entryMem)))
          rw [(shape.keeps_restamp key newValue).enabled] at disabled
          exact absurd enabled disabled
      rcases written with rfl | ⟨old, differs⟩
      · exact fp_restamp newValue keyStored
      · have oldCached : entry.key ∈ c.cacheKeys :=
          (shape.mem_cache _).mp (List.mem_map_of_mem old)
        rw [storedMeta_restamp newValue (shape.hotKeys_sub (shape.cache_sub oldCached)),
          if_neg differs, exact entry old]
    · rename_i notCached
      have stamped := exact.restamp shape notCached newValue
      unfold accessSequential reactivePromotion
      dsimp only
      split
      · rename_i promoting
        exact stamped.promoteToCache _ (fp_restamp newValue promoting.1.2)
      · exact stamped

/-- The clock and the records after accesses to the given keys. -/
structure Counts (layout : Layout) (c : Client) (window : Int) (keys : List Int) : Prop where
  clock : c.Clock window keys.length
  stored : ∀ key ∈ layout.stored, c.storedMeta key = metaAfter window keys key

variable {window : Int} {keys : List Int}

theorem Counts.accessEpoch (counts : c.Counts layout window keys) (positive : 0 < window)
    (enabled : c.maint.isSome) (key : Int) (newValue : Option Bytes)
    (short : keys.length + 1 < 2 ^ 31) :
    (c.accessEpoch layout key newValue).2.Counts layout window (keys ++ [key]) := by
  have lengthEq : (keys ++ [key]).length = keys.length + 1 := by simp
  have ticked := counts.clock.tick enabled
  have tickedMgr : (c.withMgr MaintenanceManager.tick).mgr = c.mgr.tick := by
    rw [mgr_withMgr, if_pos enabled]
  refine ⟨?_, ?_⟩
  · rw [lengthEq]
    exact counts.clock.accessEpoch enabled layout key newValue
  · intro key' keyStored'
    rw [storedMeta, (c.accessEpoch_restamps layout key newValue).2, ← storedMeta,
      storedMeta_restamp newValue keyStored', tickedMgr]
    change (if key' = key then (c.mgr.tick.updateMeta (c.storedMeta key)).wrap
      else c.storedMeta key') = _
    split
    · rename_i here
      subst here
      rw [counts.stored key' keyStored', updateMeta_metaAfter positive key' (tickedMgr ▸ ticked.epoch),
        wrap_metaAfter positive (by rw [lengthEq]; exact short)]
    · rename_i differs
      rw [counts.stored key' keyStored', metaAfter_of_ne window keys differs]

theorem CacheExact.accessEpoch (exact : c.CacheExact) (shape : c.Shape layout)
    (notByItself : c.scansByItself = false) (key : Int) (newValue : Option Bytes) :
    (c.accessEpoch layout key newValue).2.CacheExact := by
  have ticked : (c.withMgr MaintenanceManager.tick).CacheExact := exact.withMgr (fun _ => rfl)
  have served := shape.keeps_tick.trans (shape.keeps_tick.shape.keeps_accessPath key newValue)
  refine (ticked.accessPath shape.keeps_tick.shape key newValue).staggeredMaintenance served.shape ?_
  rw [scansByItself, served.config]
  exact notByItself

/-- A run of the client counts its accesses, and keeps the cache exact. -/
theorem Shape.counts_runAccesses (shape : c.Shape layout) (notByItself : c.scansByItself = false)
    (enabled : c.maint.isSome) (positive : 0 < window) (counts : c.Counts layout window keys)
    (exact : c.CacheExact) (ops : List (Int × Option Bytes))
    (short : keys.length + ops.length < 2 ^ 31) :
    (c.runAccesses layout ops).2.Counts layout window (keys ++ ops.map Prod.fst) ∧
      (c.runAccesses layout ops).2.CacheExact := by
  induction ops generalizing c keys with
  | nil =>
      rw [List.map_nil, List.append_nil]
      exact ⟨counts, exact⟩
  | cons op rest ih =>
      rw [List.length_cons] at short
      have keeps := shape.keeps_access notByItself op.1 op.2
      have accessEq : c.access layout op.1 op.2 = c.accessEpoch layout op.1 op.2 := if_pos enabled
      have counts' := counts.accessEpoch positive enabled op.1 op.2 (by omega)
      have exact' := exact.accessEpoch shape notByItself op.1 op.2
      rw [← accessEq] at counts' exact'
      have later := ih keeps.shape (by rw [scansByItself, keeps.config]; exact notByItself)
        (keeps.enabled.trans enabled) counts' exact' (by simp; omega)
      simpa [runAccesses] using later

/-- The manager of the first client. -/
theorem mgr_start (data : Dataset) (config : TieredOMapConfig)
    (enabled : config.maintenance.enabled = true) :
    (start data config).mgr = MaintenanceManager.initCache { cfg := config.maintenance }
      ((unfilled data config).taken.map (fun key => { key := key, fp := 0 })) := by
  have startEq : start data config = (unfilled data config).extractCache data.refOf :=
    if_pos enabled
  have maintEq : (unfilled data config).maint = some { cfg := config.maintenance } := if_pos enabled
  rw [startEq, extractCache, mgr_withMgr]
  simp [mgr, maintEq]

/-- No access has been counted at the start, and the cache holds frequencies of zero. -/
theorem counts_start (data : Dataset) (config : TieredOMapConfig)
    (enabled : config.maintenance.enabled = true) :
    (start data config).Counts (data.layout config) config.maintenance.observationWindow [] ∧
      (start data config).CacheExact := by
  have startEq : start data config = (unfilled data config).extractCache data.refOf :=
    if_pos enabled
  have mgrEq := mgr_start data config enabled
  have blank : ∀ key, (start data config).storedMeta key = metaAfter
      config.maintenance.observationWindow [] key := by
    intro key
    rw [startEq]
    simp [storedMeta, extractCache, unfilled, TieredOMap.storedForm, enabled, metaAfter,
      EpochMeta.wrap]
  refine ⟨⟨⟨?_, ?_, ?_⟩, fun key _ => blank key⟩, ?_⟩
  · rw [mgrEq]
    rfl
  · rw [mgrEq]
    rfl
  · rw [mgrEq]
    simp [MaintenanceManager.initCache]
  · intro entry entryMem
    rw [mgrEq] at entryMem
    rcases List.mem_map.mp entryMem with ⟨key, _, rfl⟩
    rw [blank]
    rfl

end Client

namespace TieredOMap

variable {Ω : Tier → Type} [∀ tier, OmapInterface (Ω tier)] [∀ tier, LawfulOmap (Ω tier)]

section Counts

variable [Cipher]

/-- What the records and the cache say after accesses to the given keys, the last one to `key`. -/
structure CountsAccesses (data : Dataset) (window : Int) (keys : List Int) (s : TieredOMap Ω)
    (contents : Int → Option Bytes) : Prop where
  total : s.mgr.totalAccesses = keys.length
  stamped : ∀ earlier key, keys = earlier ++ [key] → key ∈ data.keys → ∃ raw epoch,
    contents (refToBlk (data.refOf key)) = some raw ∧
    epoch = s.mgr.totalAccesses / window ∧
    (decodeEpoch raw).2 = {
      ep := epoch
      cnt := countIn window keys key epoch
      fp := if epoch = 0 then 0 else countIn window keys key (epoch - 1) }
  cached : ∀ entry ∈ s.mgr.cache, ∃ raw, contents (refToBlk (data.refOf entry.key)) = some raw ∧
    entry.fp = (decodeEpoch raw).2.fp

end Counts

section Sample

attribute [local instance] clearCipher

end Sample

end TieredOMap

end TieredOmap
