import TieredOMap.Tee.ColdMap
import TieredOMap.Tee.PackedDirectory

/-!
# The tiered map of the enclave

`TeeOmap` (`tee/tee_omap.cpp`): the hot keys are in an ORAM behind a packed directory, the
others in the cold tier, which in the source is a `TeeAvlOmap`. An access gives an early answer from the hot tier and a final one
after the cold tier. With maintenance on, every `swap_interval`-th access demotes one hot
key and promotes one cold key. Page statistics are left out.
-/

namespace TieredOmap

/-- `TeeSecurityMode`. -/
inductive TeeSecurityMode where
  | fullOblivious
  | tierMembership
deriving DecidableEq, Repr, Inhabited

/-- `TeeMaintenanceConfig`. -/
structure TeeMaintenanceConfig where
  enabled : Bool := false
  observationWindow : Int := 256
  swapInterval : Int := 256
  promoteThreshold : Int := 5
  demoteThreshold : Int := 2
  stalenessWindows : Int := 3
deriving DecidableEq, Repr, Inhabited

/-- `TeeOmapConfig`. -/
structure TeeOmapConfig where
  totalKeys : Int := 0
  hotSetSize : Int := 0
  valueSize : Nat := 256
  bucketSize : Nat := 4
  mode : TeeSecurityMode := .fullOblivious
  useSplitOram : Bool := true
  maintenance : TeeMaintenanceConfig := {}
deriving DecidableEq, Repr, Inhabited

/-- `TeeOmap`. -/
structure TeeOmap (Ω : Type) where
  config : TeeOmapConfig
  hotDir : PackedDirectory := {}
  hotOram : EnclaveOram := {}
  coldOmap : Ω
  hotCapacity : Int := 0
  currentEpoch : Int := 1
  accessCounter : Int := 0
  scanPtr : Int := 0
  pendingPromoKey : Int := invalidKey
  pendingPromoVal : Bytes := []

/-- What a callback is given: the value and whether it was found. -/
structure TeeAnswer where
  value : Bytes
  found : Bool
deriving DecidableEq, Repr

/-- `TeeAccessResult`, with what the two callbacks were given. -/
structure TeeAccessResult where
  value : Bytes
  foundInHot : Bool
  early : TeeAnswer
  final : TeeAnswer
deriving DecidableEq, Repr

namespace TeeOmapConfig

/-- `stored_value_size`. -/
def storedValueSize (config : TeeOmapConfig) : Nat :=
  if config.maintenance.enabled then config.valueSize + epochMetaSize else config.valueSize

/-- `wrap_value`. -/
def wrapValue (config : TeeOmapConfig) (value : Bytes) (epochMeta : EpochMeta) : Bytes :=
  if config.maintenance.enabled then
    encodeWithEpoch (padBytes value config.valueSize) epochMeta
  else value

/-- `unwrap_value`. -/
def unwrapValue (config : TeeOmapConfig) (stored : Bytes) : Bytes × EpochMeta :=
  if config.maintenance.enabled then decodeEpoch stored else (stored, {})

/-- `value_size` zeros. -/
def zeros (config : TeeOmapConfig) : Bytes := List.replicate config.valueSize 0

/-- The number of slots of the hot tier. -/
def hotCapacity (config : TeeOmapConfig) : Int :=
  let n := config.hotSetSize
  if config.maintenance.enabled then max (n * 2) (n + 64) else n

/-- The hot queries skip the cold tier, and the cold ones the hot ORAM. -/
def isTm (config : TeeOmapConfig) : Bool := config.mode == .tierMembership

end TeeOmapConfig

namespace TeeOmap

variable {Ω : Type}

/-- `bump_epoch`. -/
def bumpEpoch (s : TeeOmap Ω) (old : EpochMeta) : EpochMeta :=
  let stale := oLess old.ep s.currentEpoch
  { old with cnt := oSelect stale 1 (old.cnt + 1), ep := oSelect stale s.currentEpoch old.ep }

variable [ColdMap Ω]

/-! ## Initialisation -/

/-- The constructor; a negative capacity is a vector length error. -/
def new (config : TeeOmapConfig) : TeeRand (TeeOmap Ω) :=
  let n := config.hotSetSize
  let total := config.totalKeys
  let hotCapacity := config.hotCapacity
  let sv := config.storedValueSize
  let coldCap := if config.maintenance.enabled then max (total - n) total else total
  let splitDepth : Int :=
    if config.useSplitOram then max 1 (ceilLog2 (max n 2) : Int) else 0
  if hotCapacity < 0 then Prog.fail .lengthError
  else return {
    config, hotCapacity
    hotDir := PackedDirectory.new hotCapacity.toNat
    hotOram := EnclaveOram.new hotCapacity sv config.bucketSize
    coldOmap := ColdMap.make coldCap sv config.bucketSize splitDepth }

/-- The blocks that fill the hot ORAM: a free slot has a negative key. -/
def fillers (config : TeeOmapConfig) (count : Nat) : List (Int × Bytes) :=
  (List.range count).map (fun (i : Nat) =>
    (-((i : Int) + 1), List.replicate config.storedValueSize 0))

/-- `init`. -/
def init (s : TeeOmap Ω) (allData : List (Int × Bytes)) (hotKeys : List Int) :
    TeeRand (TeeOmap Ω) := do
  let stored := allData.map (fun record => (record.1, s.config.wrapValue record.2 {}))
  let hotData := stored.filter (fun record => record.1 ∈ hotKeys)
  let coldData := stored.filter (fun record => record.1 ∉ hotKeys)
  let fillerCount := (s.hotCapacity - hotData.length).toNat
  let (hotLeaves, hotOram) ← s.hotOram.init (hotData ++ fillers s.config fillerCount)
  let hotDir := hotLeaves.entries.foldl (fun dir entry =>
    if 0 ≤ entry.1 then dir.insert entry.1 entry.2 else dir) s.hotDir
  let coldOmap ← ColdMap.init s.coldOmap coldData
  return { s with hotDir, hotOram, coldOmap }

/-! ## Promotion and demotion -/

/-- `promote`. -/
def promote (s : TeeOmap Ω) (key : Int) (value : Bytes) : TeeRand (TeeOmap Ω) := do
  let isReal := !oEqual key invalidKey
  let coldOmap ← ColdMap.remove s.coldOmap key
  let leaf ← s.hotOram.randomLeaf
  let hotOram ← s.hotOram.readPathToStash .hot leaf
  let stored := padBytes (s.config.wrapValue value {}) s.config.storedValueSize
  let hotOram := hotOram.addToStash (oSelect isReal key invalidKey) leaf stored
  let hotOram ← hotOram.evictOnePath .hot leaf
  return { s with coldOmap, hotOram, hotDir := s.hotDir.insert key leaf }

/-- `demote`. -/
def demote (s : TeeOmap Ω) (key : Int) : TeeRand (TeeOmap Ω) := do
  let isReal := !oEqual key invalidKey
  let oldLeaf := s.hotDir.lookup key
  let dummyLeaf ← s.hotOram.randomLeaf
  let useOld := oSelect isReal oldLeaf dummyLeaf
  let hotOram ← s.hotOram.readPathToStash .hot useOld
  let (blk, hotOram) := hotOram.extractFromStash (oSelect isReal key (-2))
  let newLeaf ← hotOram.randomLeaf
  let hotOram := hotOram.addToStash (oSelect isReal invalidKey blk.key) newLeaf blk.value
  let hotOram ← hotOram.evictOnePath .hot useOld
  let (val, epochMeta) := s.config.unwrapValue blk.value
  let stored := padBytes (s.config.wrapValue val epochMeta) s.config.storedValueSize
  let coldOmap ← ColdMap.insert s.coldOmap (oSelect isReal key invalidKey) stored
  return { s with hotOram, hotDir := s.hotDir.remove key, coldOmap }

/-- The key that the next maintenance step demotes. -/
def demoteCandidate (s : TeeOmap Ω) : Int :=
  s.hotDir.findDemoteCandidate s.scanPtr s.currentEpoch s.config.maintenance.stalenessWindows
    s.config.maintenance.demoteThreshold

/-- The key that is promoted: the pending one, if it is still cold and there is room. -/
def promoteCandidate (s : TeeOmap Ω) : Int :=
  let alreadyHot := !oEqual (s.hotDir.lookup s.pendingPromoKey) invalidLeaf
  let capacityOk : Bool := s.hotDir.count < s.hotCapacity
  let doPromo := !oEqual s.pendingPromoKey invalidKey && !alreadyHot && capacityOk
  oSelect doPromo s.pendingPromoKey invalidKey

/-- The demotion of a maintenance step. -/
def demoteStep (s : TeeOmap Ω) : TeeRand (TeeOmap Ω) := do
  let demoteKey := s.demoteCandidate
  let s := { s with scanPtr := (s.scanPtr + 1).tmod (max s.hotDir.capacity 1) }
  s.demote demoteKey

/-- Forget the pending promotion. -/
def clearPromo (s : TeeOmap Ω) : TeeOmap Ω :=
  { s with pendingPromoKey := invalidKey, pendingPromoVal := s.config.zeros }

/-- The promotion of a maintenance step. -/
def promoteStep (s : TeeOmap Ω) : TeeRand (TeeOmap Ω) := do
  let s ← s.promote s.promoteCandidate s.pendingPromoVal
  return s.clearPromo

/-- `do_maintenance_step`. -/
def doMaintenanceStep (s : TeeOmap Ω) : TeeRand (TeeOmap Ω) := do
  let s ← s.demoteStep
  s.promoteStep

/-! ## Access -/

/-- The access to the hot ORAM: the value of the block, and the map afterwards. -/
def accessHotOram (s : TeeOmap Ω) (key : Int) (newValue : Option Bytes) (hotHit : Bool)
    (oldPos : Int) : TeeRand (Bytes × TeeOmap Ω) := do
  let newHotLeaf ← s.hotOram.randomLeaf
  let dummyLeaf ← s.hotOram.randomLeaf
  let useLeaf := oSelect hotHit oldPos dummyLeaf
  let hotOram ← s.hotOram.readPathToStash .hot useLeaf
  let (blk, hotOram) := hotOram.extractFromStash (oSelect hotHit key (-2))
  let (hotVal, hotMeta) := s.config.unwrapValue blk.value
  let newHotMeta := s.bumpEpoch hotMeta
  let wbVal := padBytes hotVal s.config.valueSize
  let wbVal := match newValue with
    | some value => oMovBytes hotHit wbVal (padBytes value s.config.valueSize)
    | none => wbVal
  let wbStored := padBytes (s.config.wrapValue wbVal newHotMeta) s.config.storedValueSize
  let hotOram := hotOram.addToStash (oSelect hotHit key blk.key) newHotLeaf wbStored
  let hotOram ← hotOram.evictOnePath .hot useLeaf
  let hotDir := s.hotDir.updatePos key (oSelect hotHit newHotLeaf invalidLeaf)
  return (hotVal, { s with hotOram, hotDir })

/-- The key is in the directory. -/
def isHot (s : TeeOmap Ω) (key : Int) : Bool := !oEqual (s.hotDir.lookup key) invalidLeaf

/-- Phase 1: the hot tier, and the early answer. -/
def accessHot (s : TeeOmap Ω) (key : Int) (newValue : Option Bytes) :
    TeeRand (TeeAnswer × TeeOmap Ω) := do
  let oldPos := s.hotDir.lookup key
  let hotHit := !oEqual oldPos invalidLeaf
  let skipHotOram := s.config.isTm && !hotHit
  let (hotVal, s) ←
    (if skipHotOram then pure (s.config.zeros, s)
      else s.accessHotOram key newValue hotHit oldPos : TeeRand (Bytes × TeeOmap Ω))
  let hotDir := if s.config.maintenance.enabled then s.hotDir.bumpFreq key s.currentEpoch
    else s.hotDir
  let value := oMovBytes hotHit s.config.zeros (padBytes hotVal s.config.valueSize)
  return ({ value, found := hotHit }, { s with hotDir })

/-- How an access changes the stored value of a cold key when maintenance is on. -/
def coldTransform (s : TeeOmap Ω) (newValue : Option Bytes) (coldReal : Bool)
    (oldStored : Bytes) : Bytes :=
  let (cv, cm) := s.config.unwrapValue oldStored
  let nm := s.bumpEpoch cm
  let wv := padBytes cv s.config.valueSize
  let wv := match newValue with
    | some value => oMovBytes coldReal wv (padBytes value s.config.valueSize)
    | none => wv
  s.config.wrapValue wv nm

/-- Phase 2: the cold tier. The result is what it has stored for the key. -/
def accessCold (s : TeeOmap Ω) (key : Int) (newValue : Option Bytes) (coldReal : Bool) :
    TeeRand (Bytes × TeeOmap Ω) := do
  let enabled := s.config.maintenance.enabled
  let transform := if enabled then some (s.coldTransform newValue coldReal) else none
  let update := if enabled then none else newValue
  let (found, coldOmap) ← ColdMap.searchOrDummy s.coldOmap key coldReal update transform
  return (found.1, { s with coldOmap })

/-- A cold key that was accessed often enough becomes the pending promotion. -/
def notePromotion (s : TeeOmap Ω) (key : Int) (coldReal skipCold : Bool) (coldStored : Bytes)
    (coldMeta : EpochMeta) : TeeOmap Ω :=
  let coldFreqOk := !oLess coldMeta.cnt s.config.maintenance.promoteThreshold
  let isCandidate := coldReal && coldFreqOk
  let pv := padBytes (if skipCold then s.config.zeros else (s.config.unwrapValue coldStored).1)
    s.config.valueSize
  { s with
    pendingPromoKey := oMov isCandidate s.pendingPromoKey key
    pendingPromoVal := oMovBytes isCandidate s.pendingPromoVal pv }

/-- The epoch after another access. -/
def tick (s : TeeOmap Ω) : TeeOmap Ω :=
  { s with
    accessCounter := s.accessCounter + 1
    currentEpoch := (s.accessCounter + 1).tdiv s.config.maintenance.observationWindow }

/-- An access up to its maintenance step. -/
def serve (s : TeeOmap Ω) (key : Int) (newValue : Option Bytes) :
    TeeRand (TeeAccessResult × TeeOmap Ω) := do
  let (early, s) ← s.accessHot key newValue
  let coldReal := !early.found
  let skipCold := s.config.isTm && early.found
  let (coldStored, s) ←
    (if skipCold then pure (List.replicate s.config.storedValueSize 0, s)
      else s.accessCold key newValue coldReal : TeeRand (Bytes × TeeOmap Ω))
  let (coldVal, coldMeta) : Bytes × EpochMeta :=
    if skipCold then ([], {}) else s.config.unwrapValue coldStored
  let value := if skipCold then early.value
    else oMovBytes coldReal early.value (padBytes coldVal s.config.valueSize)
  let result : TeeAccessResult :=
    { value, foundInHot := early.found, early, final := { value, found := !early.found } }
  let s := if s.config.maintenance.enabled then
    (s.notePromotion key coldReal skipCold coldStored coldMeta).tick else s
  return (result, s)

/-- A maintenance step is due. -/
def maintenanceDue (s : TeeOmap Ω) : Bool :=
  s.config.maintenance.enabled &&
    s.accessCounter.tmod s.config.maintenance.swapInterval == 0 && 0 < s.accessCounter

/-- `access`. -/
def access (s : TeeOmap Ω) (key : Int) (newValue : Option Bytes) :
    TeeRand (TeeAccessResult × TeeOmap Ω) := do
  let (result, s) ← s.serve key newValue
  let s ← (if s.maintenanceDue then s.doMaintenanceStep else pure s : TeeRand (TeeOmap Ω))
  return (result, s)

end TeeOmap

end TieredOmap
