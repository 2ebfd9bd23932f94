import Mathlib.Data.Finset.Basic
import Mathlib.Data.List.Sort
import TieredOMap.Omap.Interface
import TieredOMap.Oram.PathOram

/-!
# State of a tiered map

`TieredOMap`: a hot and a cold oblivious map from keys to data references, a
data ORAM, the key sets of the tiers, the client cache and the pending entry of
a swap. The types of the two maps are the family `Ω`. Bandwidth and round
statistics are left out.
-/

namespace TieredOmap

/-- The two tiers. -/
inductive Tier where
  | hot
  | cold
deriving DecidableEq, Repr

/-- The tier that runs the dummy operation while this one is searched. -/
def Tier.other : Tier → Tier
  | .hot => .cold
  | .cold => .hot

/-- `INVALID_BLOCK`. -/
abbrev invalidBlock : Int := -1

/-- `ref_to_blk`. -/
def refToBlk (ref : Bytes) : Int := if ref.isEmpty then invalidBlock else bytesToInt ref

/-- Erase at `std::lower_bound`, if the key is there. -/
def eraseSorted : List Int → Int → List Int
  | [], _ => []
  | head :: rest, key =>
      if head < key then head :: eraseSorted rest key
      else if head = key then rest
      else head :: rest

/-- Insert at `std::lower_bound`. -/
def insertSorted : List Int → Int → List Int
  | [], key => [key]
  | head :: rest, key =>
      if head < key then head :: insertSorted rest key else key :: head :: rest

/-- `AccessResult`, without statistics. -/
structure AccessResult where
  value : Bytes := []
  foundInHot : Bool := false
  lastAccessFp : Int := 0
  scanRef : Bytes := []
  coldRef : Bytes := []
  hotInsertDone : Bool := false
  coldInsertDone : Bool := false
  coldDecisionHandled : Bool := false
  coldPromotionDone : Bool := false
  scanDecisionHandled : Bool := false
  scanDemoted : Bool := false
  scanFp : Int := 0
deriving DecidableEq, Repr, Inhabited

/-- `TieredOMap`. -/
structure TieredOMap (Ω : Tier → Type) where
  config : TieredOMapConfig
  channel : Bool := false
  hotOmap : Ω .hot
  coldOmap : Ω .cold
  dataOram : PathORAM
  nextDataBlockId : Int := 0
  hotKeys : Finset Int := ∅
  physHotKeys : Finset Int := ∅
  hotKeyList : List Int := []
  maint : Option MaintenanceManager := none
  hotCapacity : Int := 0
  cacheKeys : Finset Int := ∅
  cacheDataRefs : KeyMap Int Bytes := ∅
  pendingInsertKey : Int := invalidKey
  pendingInsertRef : Bytes := []
  daPendingDemotions : List (Int × Int) := []
  forceColdDummyPb : Bool := false

namespace TieredOMap

variable {Ω : Tier → Type} [∀ tier, OmapInterface (Ω tier)] [Cipher]

/-- The map of a tier. -/
def omap (s : TieredOMap Ω) : (tier : Tier) → Ω tier
  | .hot => s.hotOmap
  | .cold => s.coldOmap

/-- Replace the map of a tier. -/
def setOmap (s : TieredOMap Ω) : (tier : Tier) → Ω tier → TieredOMap Ω
  | .hot, omap => { s with hotOmap := omap }
  | .cold, omap => { s with coldOmap := omap }

/-- Run an operation of one tier. -/
def onTier (s : TieredOMap Ω) (tier : Tier) (operation : Ω tier → Rand (Ω tier)) :
    Rand (TieredOMap Ω) := do
  let omap ← operation (s.omap tier)
  return s.setOmap tier omap

/-- Search one tier. -/
def searchTier (s : TieredOMap Ω) (tier : Tier) (key : Int) : Rand (Bytes × TieredOMap Ω) := do
  let (ref, omap) ← OmapInterface.search (s.omap tier) key none
  return (ref, s.setOmap tier omap)

/-- Dummy access on one tier: full in full-oblivious mode, else partial. -/
def dummyTier (s : TieredOMap Ω) (tier : Tier) : Rand (TieredOMap Ω) :=
  if s.config.mode = .fullOblivious then s.onTier tier OmapInterface.dummyAccess
  else s.onTier tier OmapInterface.partialDummyAccess

/-- `*maint_`. -/
def mgr (s : TieredOMap Ω) : MaintenanceManager := s.maint.getD { cfg := s.config.maintenance }

/-- Update `*maint_`. -/
def withMgr (s : TieredOMap Ω) (f : MaintenanceManager → MaintenanceManager) : TieredOMap Ω :=
  { s with maint := s.maint.map f }

/-- `data_access`. -/
def dataAccess (s : TieredOMap Ω) (blk : Int) (newValue : Option Bytes) :
    Rand (Bytes × TieredOMap Ω) :=
  if blk < 0 then do
    let dataOram ← s.dataOram.dummyAccess
    return ([], { s with dataOram })
  else do
    let (value, dataOram) ← s.dataOram.access blk newValue
    return (value, { s with dataOram })

/-- `data_oram_.dummy_access()`. -/
def dataDummy (s : TieredOMap Ω) : Rand (TieredOMap Ω) := do
  let dataOram ← s.dataOram.dummyAccess
  return { s with dataOram }

/-! ## Initialisation -/

/-- The records placed so far by `init`. -/
structure Placement where
  blocks : KeyMap Int Bytes := ∅
  hotRefs : List (Int × Bytes) := []
  coldRefs : List (Int × Bytes) := []
  nextId : Int := 0

/-- Give one record the next data block and put its reference in a tier. -/
def placeRecord (useEpoch : Bool) (physHotKeys : Finset Int) (placement : Placement)
    (record : Int × Bytes) : Placement :=
  let stored :=
    if useEpoch then encodeWithEpoch record.2 { cnt := 0, ep := 0 } else record.2
  let blkId := placement.nextId
  let ref := intToBytes blkId
  { blocks := placement.blocks.set blkId stored
    hotRefs := if record.1 ∈ physHotKeys then placement.hotRefs ++ [(record.1, ref)]
      else placement.hotRefs
    coldRefs := if record.1 ∈ physHotKeys then placement.coldRefs
      else placement.coldRefs ++ [(record.1, ref)]
    nextId := placement.nextId + 1 }

/-- Move hot keys, in order, from the hot map to the client cache. -/
def extractKeys (s : TieredOMap Ω) : List Int → Rand (List CacheEntry × TieredOMap Ω)
  | [] => return ([], s)
  | key :: rest => do
      let (ref, s) ← s.searchTier .hot key
      let s ← s.onTier .hot (fun omap => OmapInterface.remove omap key)
      let s := { s with
        physHotKeys := s.physHotKeys.erase key
        cacheKeys := insert key s.cacheKeys
        cacheDataRefs := s.cacheDataRefs.set key ref }
      let (entries, s) ← extractKeys s rest
      return ({ key := key, fp := 0 } :: entries, s)

/-- Fill the client cache with the first hot keys; a negative count is a vector length error. -/
def extractCache (s : TieredOMap Ω) : Rand (TieredOMap Ω) :=
  let extractCount := min s.config.maintenance.cacheSize s.hotKeyList.length
  if extractCount < 0 then Prog.fail .lengthError
  else do
    let toExtract := s.hotKeyList.take extractCount.toNat
    let (cacheEntries, s) ← s.extractKeys toExtract
    return { s with hotKeyList := s.hotKeyList.drop extractCount.toNat }.withMgr
      (fun maint => maint.initCache cacheEntries)

/-- `enable_maintenance`. -/
def enableMaintenance (s : TieredOMap Ω) (mc : MaintenanceConfig) : Rand (TieredOMap Ω) :=
  let maintenance : MaintenanceConfig := { mc with enabled := true }
  extractCache { s with
    config := { s.config with maintenance }
    maint := some { cfg := maintenance } }

/-- The constructor followed by `init`. -/
def init (config : TieredOMapConfig) (allData : List (Int × Bytes)) (hotKeys : List Int) :
    Rand (TieredOMap Ω) := do
  let useEpoch := config.maintenance.enabled
  let maint := if useEpoch then some { cfg := config.maintenance } else none
  let count : Int := max allData.length 1
  let dataCap := if useEpoch then max (count * 2) (count + 64) else count
  let dataOram ← PathORAM.new dataCap config.bucketSize 7
  let placed := allData.foldl (placeRecord useEpoch hotKeys.toFinset) {}
  let dataOram ← dataOram.init placed.blocks
  let hotCount : Int := placed.hotRefs.length
  let coldCount : Int := placed.coldRefs.length
  let hotCap := max hotCount 1
  let coldCap := if useEpoch then max coldCount config.totalKeys else max coldCount 1
  let hotOmap ← OmapInterface.make config hotCap false hotCount
  let coldOmap ← OmapInterface.make config coldCap true hotCount
  let hotOmap ← OmapInterface.init hotOmap placed.hotRefs
  let coldOmap ← OmapInterface.init coldOmap placed.coldRefs
  let s : TieredOMap Ω := {
    config, hotOmap, coldOmap, dataOram, maint
    nextDataBlockId := placed.nextId
    hotKeys := hotKeys.toFinset
    physHotKeys := hotKeys.toFinset
    hotKeyList := hotKeys.insertionSort (· ≤ ·)
    hotCapacity := hotCap }
  if useEpoch then s.extractCache else return s

/-! ## Scanning and swapping -/

/-- `next_scan_key`: the first hot key after the scan pointer, wrapping around. -/
def nextScanKey (s : TieredOMap Ω) : Int × TieredOMap Ω :=
  match s.hotKeyList with
  | [] => (invalidKey, s)
  | first :: _ =>
      match s.hotKeyList.find? (fun key => s.mgr.scanPtr < key) with
      | some key => (key, s.withMgr (fun maint => maint.setScanPtr key))
      | none => (first, s.withMgr (fun maint => maint.resetScanPtr.setScanPtr first))

/--
A scanned hot key enters the cache and the hottest entry becomes pending. The
key itself has been removed from the hot map.
-/
def demoteToCache (s : TieredOMap Ω) (scanKey fp : Int) (ref : Bytes) : Rand (TieredOMap Ω) := do
  let admitted := s.mgr.cacheAdmit scanKey fp true
  let evicted := admitted.1
  notePendingStore s.mgr.swapState s.pendingInsertKey
  return { s with
    maint := s.maint.map (fun _ => admitted.2.setSwapState .hotPend)
    pendingInsertKey := evicted.key
    pendingInsertRef := s.cacheDataRefs.getD evicted.key []
    physHotKeys := s.physHotKeys.erase scanKey
    hotKeyList := eraseSorted s.hotKeyList scanKey
    cacheKeys := (insert scanKey s.cacheKeys).erase evicted.key
    cacheDataRefs := ((s.cacheDataRefs.touch evicted.key []).set scanKey ref).erase evicted.key }

/--
A cold key enters the cache and the coldest entry becomes pending. The key
itself has been removed from the cold map.
-/
def promoteToCache (s : TieredOMap Ω) (key fp : Int) (ref : Bytes) : Rand (TieredOMap Ω) := do
  let admitted := s.mgr.cacheAdmit key fp false
  let evicted := admitted.1
  notePendingStore s.mgr.swapState s.pendingInsertKey
  return { s with
    maint := s.maint.map (fun _ => admitted.2.setSwapState .coldPend)
    pendingInsertKey := evicted.key
    pendingInsertRef := s.cacheDataRefs.getD evicted.key []
    cacheKeys := insert key (s.cacheKeys.erase evicted.key)
    cacheDataRefs := ((s.cacheDataRefs.touch evicted.key []).erase evicted.key).set key ref
    hotKeys := insert key (s.hotKeys.erase evicted.key) }

/-- Clear the pending entry. -/
def clearPending (s : TieredOMap Ω) : TieredOMap Ω :=
  { s with pendingInsertKey := invalidKey, pendingInsertRef := [] }.withMgr
    (fun maint => maint.setSwapState .idle)

/-- A key is back in the hot map. -/
def addPhysHot (s : TieredOMap Ω) (key : Int) : TieredOMap Ω :=
  { s with
    physHotKeys := insert key s.physHotKeys
    hotKeyList := insertSorted s.hotKeyList key }

end TieredOMap

end TieredOmap
