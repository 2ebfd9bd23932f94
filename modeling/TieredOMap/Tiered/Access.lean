import TieredOMap.Tiered.Interleaved

/-!
# Access

`TieredOMap::access`: the paths for a pending key, an interleaved access, a
cached key and a sequential access when maintenance is on, the staggered
maintenance steps that follow, and the plain paths when it is off.
-/

namespace TieredOmap

namespace TieredOMap

variable {Ω : Tier → Type} [∀ tier, OmapInterface (Ω tier)] [Cipher]

/-! ## Maintenance steps -/

/-- `do_scan_step` when the hot map is a DA map with piggybacking. -/
def doDaScanStep (s : TieredOMap Ω) : Rand (TieredOMap Ω) := do
  let (dk, fp, s) : Int × Int × TieredOMap Ω := match s.daPendingDemotions with
    | [] => (invalidKey, 0, s)
    | (key, fp) :: rest => (key, fp, { s with daPendingDemotions := rest })
  if dk ≠ invalidKey ∧ dk ∈ s.physHotKeys then
    let (ref, s) ← s.searchTier .hot dk
    let s ← s.onTier .hot (fun omap => OmapInterface.remove omap dk)
    s.demoteToCache dk fp ref
  else s.onTier .hot OmapInterface.dummyAccess

/-- `do_scan_step` for the next key of the scan. -/
def scanNextKey (s : TieredOMap Ω) : Rand (TieredOMap Ω) := do
  let (scanKey, s) := s.nextScanKey
  let (ref, s) ← s.searchTier .hot scanKey
  let (raw, s) ← s.dataAccess (refToBlk ref) none
  let fp := (decodeEpoch raw).2.fp
  if s.mgr.shouldDemoteCache fp then
    let s ← s.onTier .hot (fun omap => OmapInterface.remove omap scanKey)
    s.demoteToCache scanKey fp ref
  else return s

/-- `do_scan_step`. -/
def doScanStep (s : TieredOMap Ω) : Rand (TieredOMap Ω) := do
  if s.mgr.swapState ≠ .idle then
    let s ← s.onTier .hot OmapInterface.dummyAccess
    s.dataDummy
  else if s.config.isDaHot && s.config.maintenance.piggyback then s.doDaScanStep
  else if s.hotKeyList = [] then
    let s ← s.onTier .hot OmapInterface.dummyAccess
    s.dataDummy
  else s.scanNextKey

/-- `do_hot_insert_step`. -/
def doHotInsertStep (s : TieredOMap Ω) : Rand (TieredOMap Ω) := do
  if s.mgr.swapState = .hotPend then
    let s ← s.onTier .hot
      (fun omap => OmapInterface.insert omap s.pendingInsertKey s.pendingInsertRef)
    return (s.addPhysHot s.pendingInsertKey).clearPending
  else s.onTier .hot OmapInterface.dummyAccess

/-- `do_cold_insert_step`. -/
def doColdInsertStep (s : TieredOMap Ω) : Rand (TieredOMap Ω) := do
  if s.mgr.swapState = .coldPend then
    let s ← s.onTier .cold
      (fun omap => OmapInterface.insert omap s.pendingInsertKey s.pendingInsertRef)
    return s.clearPending
  else s.onTier .cold OmapInterface.dummyAccess

/-! ## Access paths with maintenance -/

/-- What an interleaved access has already done of this access's maintenance. -/
structure Piggybacked where
  scan : Bool := false
  hotInsert : Bool := false
  coldInsert : Bool := false
  hotDummy : Bool := false
  coldDummy : Bool := false
deriving DecidableEq, Repr, Inhabited

/-- Read a record through its reference and write it back with updated metadata. -/
def restamp (s : TieredOMap Ω) (ref : Bytes) (newValue : Option Bytes) :
    Rand ((Bytes × Int) × TieredOMap Ω) := do
  let blk := refToBlk ref
  let (raw, s) ← s.dataAccess blk none
  let (val, epochMeta) := decodeEpoch raw
  let updated := s.mgr.updateMeta epochMeta
  let value := newValue.getD val
  let (_, s) ← s.dataAccess blk (some (encodeWithEpoch value updated))
  return ((value, updated.fp), s)

/-- The key is the pending one: it is served from the client. -/
def accessPending (s : TieredOMap Ω) (newValue : Option Bytes) :
    Rand (AccessResult × TieredOMap Ω) := do
  let ((value, fp), s) ← s.restamp s.pendingInsertRef newValue
  let s ← s.onTier .hot OmapInterface.dummyAccess
  let s ← s.dummyTier .cold
  return ({ value := value, foundInHot := true, lastAccessFp := fp }, s)

/-- The key is in the client cache. -/
def accessCache (s : TieredOMap Ω) (key : Int) (newValue : Option Bytes) :
    Rand (AccessResult × TieredOMap Ω) := do
  let ref := s.cacheDataRefs.getD key []
  let foundInHot : Bool := key ∈ s.hotKeys
  let s := { s with cacheDataRefs := s.cacheDataRefs.touch key [] }
  let ((value, fp), s) ← s.restamp ref newValue
  let s := s.withMgr (fun maint => maint.updateCacheFp key fp)
  let s ← s.onTier .hot OmapInterface.dummyAccess
  let s ← s.dummyTier .cold
  return ({ value := value, foundInHot := foundInHot }, s)

/-- A cold key that was found is promoted when it is hotter than the coldest cache entry. -/
def reactivePromotion (s : TieredOMap Ω) (key fp : Int) (ref : Bytes) : Rand (TieredOMap Ω) := do
  if key ∉ s.hotKeys ∧ ref ≠ [] then
    if s.mgr.swapState = .idle ∧ s.mgr.shouldPromote fp = true then
      let s ← s.onTier .cold (fun omap => OmapInterface.remove omap key)
      s.promoteToCache key fp ref
    else s.onTier .cold OmapInterface.dummyAccess
  else return s

/-- Sequential access with maintenance. -/
def accessSequential (s : TieredOMap Ω) (key : Int) (newValue : Option Bytes) :
    Rand (AccessResult × TieredOMap Ω) := do
  let foundInHot : Bool := key ∈ s.hotKeys
  let target : Tier := if key ∈ s.physHotKeys then .hot else .cold
  let (ref, s) ← s.searchTier target key
  let ((value, fp), s) ← s.restamp ref newValue
  let s ← s.dummyTier target.other
  let s ← s.reactivePromotion key fp ref
  return ({ value := value, foundInHot := foundInHot, lastAccessFp := fp }, s)

/-- What the interleaved access is asked to piggyback. -/
def piggybackQuery (s : TieredOMap Ω) (key : Int) (newValue : Option Bytes) :
    Query × TieredOMap Ω :=
  let usePartial := s.config.mode == .tierMembership
  let base : Query := { key, newValue, usePartialDummy := usePartial, epochMode := true }
  if s.config.maintenance.piggyback then
    let isHotPhysical : Bool := key ∈ s.physHotKeys
    let doScan := s.mgr.shouldScan && !s.config.isDaHot && s.mgr.swapState == .idle
    let (scanKey, s) := if doScan then s.nextScanKey else (invalidKey, s)
    let pending := s.pendingInsertKey != invalidKey
    let hotInsert := s.mgr.shouldHotInsert && s.mgr.swapState == .hotPend && pending
    let coldInsert := s.mgr.shouldColdInsert && s.mgr.swapState == .coldPend && pending
    ({ base with
      scanKey := scanKey
      hotInsertKey := if hotInsert then s.pendingInsertKey else invalidKey
      coldInsertKey := if coldInsert then s.pendingInsertKey else invalidKey
      hotDummyPb := s.mgr.shouldHotInsert && !hotInsert && (isHotPhysical || !usePartial)
      coldDummyPb := s.mgr.shouldColdInsert && !coldInsert && (!isHotPhysical || !usePartial) }, s)
  else (base, s)

/-- After an interleaved access: a cold key found hot enough is promoted. -/
def interleavedPromotion (s : TieredOMap Ω) (key : Int) (isHotLogical : Bool) (ir : AccessResult) :
    Rand (TieredOMap Ω) := do
  if !isHotLogical && ir.coldDecisionHandled then
    if ir.coldPromotionDone then s.promoteToCache key ir.lastAccessFp ir.coldRef else return s
  else if !isHotLogical && 0 < ir.lastAccessFp && s.mgr.swapState == .idle &&
      s.mgr.shouldPromote ir.lastAccessFp then
    let s ← s.onTier .cold (fun omap => OmapInterface.remove omap key)
    s.promoteToCache key ir.lastAccessFp ir.coldRef
  else if !isHotLogical && !ir.coldDecisionHandled then s.onTier .cold OmapInterface.dummyAccess
  else return s

/-- Interleaved access with maintenance, and what follows from its completion flags. -/
def accessInterleaved (fuel : Nat) (s : TieredOMap Ω) (key : Int) (newValue : Option Bytes) :
    Rand (AccessResult × Piggybacked × TieredOMap Ω) := do
  let isHotLogical : Bool := key ∈ s.hotKeys
  let (q, s) := s.piggybackQuery key newValue
  let (ir, s) ← s.interleavedAccess fuel q
  let s ← doWhen (q.scanKey != invalidKey && ir.scanDecisionHandled && ir.scanDemoted)
    (s.demoteToCache q.scanKey ir.scanFp ir.scanRef) s
  let s := if ir.hotInsertDone then (s.addPhysHot q.hotInsertKey).clearPending else s
  let s := if ir.coldInsertDone then s.clearPending else s
  let s ← s.interleavedPromotion key isHotLogical ir
  return ({ value := ir.value, foundInHot := ir.foundInHot, lastAccessFp := ir.lastAccessFp },
    { scan := q.scanKey != invalidKey, hotInsert := ir.hotInsertDone
      coldInsert := ir.coldInsertDone, hotDummy := q.hotDummyPb, coldDummy := q.coldDummyPb }, s)

/-- The DA map scans one key on every access and queues it for demotion. -/
def daPiggybackScan (s : TieredOMap Ω) : Rand (TieredOMap Ω) := do
  if s.config.isDaHot && s.config.maintenance.piggyback then
    let ((key, value), omap) ← OmapInterface.piggybackScanStep s.hotOmap
    let s := { s with hotOmap := omap }
    if key ≠ invalidKey ∧ value ≠ [] then
      let (raw, s) ← s.dataAccess (refToBlk value) none
      let fp := (decodeEpoch raw).2.fp
      if s.mgr.shouldDemoteCache fp then
        return { s with daPendingDemotions := s.daPendingDemotions ++ [(key, fp)] }
      else return s
    else return s
  else return s

/-- The maintenance steps that are due and have not been piggybacked. -/
def staggeredMaintenance (s : TieredOMap Ω) (done : Piggybacked) : Rand (TieredOMap Ω) := do
  let s ← doWhen (!done.scan && s.mgr.shouldScan) s.doScanStep s
  let s ← doWhen (!done.hotInsert && !done.hotDummy && s.mgr.shouldHotInsert) s.doHotInsertStep s
  doWhen (!done.coldInsert && !done.coldDummy && s.mgr.shouldColdInsert) s.doColdInsertStep s

/-- Both maps can be run step by step over a channel. -/
def canInterleave (s : TieredOMap Ω) : Bool :=
  s.channel && OmapInterface.supportsInterleaved s.hotOmap &&
    OmapInterface.supportsInterleaved s.coldOmap

/-- The path of an access that piggybacks no maintenance. -/
def withoutPiggyback (path : Rand (AccessResult × TieredOMap Ω)) :
    Rand (AccessResult × Piggybacked × TieredOMap Ω) := do
  let (result, s) ← path
  return (result, {}, s)

/-- The path that serves the key. -/
def accessPath (fuel : Nat) (s : TieredOMap Ω) (key : Int) (newValue : Option Bytes) :
    Rand (AccessResult × Piggybacked × TieredOMap Ω) :=
  if key = s.pendingInsertKey then withoutPiggyback (s.accessPending newValue)
  else if key ∈ s.cacheKeys then withoutPiggyback (s.accessCache key newValue)
  else if s.canInterleave then s.accessInterleaved fuel key newValue
  else withoutPiggyback (s.accessSequential key newValue)

/-- `access` when maintenance is on. -/
def accessEpoch (fuel : Nat) (s : TieredOMap Ω) (key : Int) (newValue : Option Bytes) :
    Rand (AccessResult × TieredOMap Ω) := do
  let (result, done, s) ←
    accessPath fuel (s.withMgr MaintenanceManager.tick) key newValue
  let s ← s.daPiggybackScan
  let s ← s.staggeredMaintenance done
  return (result, s)

/-! ## Access paths without maintenance -/

/-- Interleaved access without maintenance. -/
def accessPlainInterleaved (fuel : Nat) (s : TieredOMap Ω) (key : Int) (newValue : Option Bytes) :
    Rand (AccessResult × TieredOMap Ω) := do
  let (ir, s) ← s.interleavedAccess fuel
    { key, newValue, usePartialDummy := s.config.mode == .tierMembership,
      coldDummyPb := s.forceColdDummyPb }
  return ({ value := ir.value, foundInHot := ir.foundInHot }, s)

/-- Sequential access to a key of the hot map without maintenance. -/
def accessPlainHot (s : TieredOMap Ω) (key : Int) (newValue : Option Bytes) :
    Rand (Bytes × TieredOMap Ω) := do
  let (ref, s) ← s.searchTier .hot key
  let (value, s) ← s.dataAccess (refToBlk ref) newValue
  let s ← s.dummyTier .cold
  let s ← doWhen (s.config.mode == .fullOblivious) s.dataDummy s
  return (value, s)

/-- Sequential access to any other key without maintenance. -/
def accessPlainCold (s : TieredOMap Ω) (key : Int) (newValue : Option Bytes) :
    Rand (Bytes × TieredOMap Ω) := do
  let s ← s.onTier .hot OmapInterface.dummyAccess
  let (ref, s) ← s.searchTier .cold key
  let s ← doWhen (s.config.mode == .fullOblivious) s.dataDummy s
  s.dataAccess (refToBlk ref) newValue

/-- Sequential access without maintenance. -/
def accessPlainSequential (s : TieredOMap Ω) (key : Int) (newValue : Option Bytes) :
    Rand (Bytes × TieredOMap Ω) :=
  if key ∈ s.physHotKeys then s.accessPlainHot key newValue else s.accessPlainCold key newValue

/-- `access` when maintenance is off. -/
def accessPlain (fuel : Nat) (s : TieredOMap Ω) (key : Int) (newValue : Option Bytes) :
    Rand (AccessResult × TieredOMap Ω) :=
  if s.canInterleave then s.accessPlainInterleaved fuel key newValue
  else do
    let (value, s') ← s.accessPlainSequential key newValue
    return ({ value := value, foundInHot := key ∈ s.hotKeys }, s')

/-- `access`, with fuel for the round loop of an interleaved access. -/
def access (fuel : Nat) (s : TieredOMap Ω) (key : Int) (newValue : Option Bytes) :
    Rand (AccessResult × TieredOMap Ω) :=
  if s.maint.isSome then s.accessEpoch fuel key newValue else s.accessPlain fuel key newValue

/-- A run of accesses; an access without a new value is a read. -/
def runAccesses (fuel : Nat) (s : TieredOMap Ω) :
    List (Int × Option Bytes) → Rand (List Bytes × TieredOMap Ω)
  | [] => return ([], s)
  | (key, newValue) :: rest => do
      let (result, s) ← s.access fuel key newValue
      let (values, s) ← runAccesses fuel s rest
      return (result.value :: values, s)

end TieredOMap

end TieredOmap
