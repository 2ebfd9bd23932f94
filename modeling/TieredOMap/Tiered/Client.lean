import TieredOMap.Tiered.Access

/-!
# The client of a tiered map

What is left of a tiered map once its oblivious maps are finite maps and its
data ORAM is an array of records: a deterministic machine on the containers the
client keeps and on the records of the stored keys. Each step does to these what
the step of `access` with the same name does.
-/

namespace TieredOmap

/-- The stored keys with their references, and the room of each tier. -/
structure Layout where
  stored : Finset Int
  refs : Int → Bytes
  room : Tier → Nat
  valid : ∀ key ∈ stored, key ≠ invalidKey
  refs_ne_nil : ∀ key ∈ stored, refs key ≠ []
  blk_nonneg : ∀ key ∈ stored, 0 ≤ refToBlk (refs key)
  blk_inj : ∀ key ∈ stored, ∀ key' ∈ stored, refToBlk (refs key) = refToBlk (refs key') → key = key'

/-- The containers of the client, and the record in each key's data block. -/
structure Client where
  config : TieredOMapConfig
  maint : Option MaintenanceManager
  hotKeys : Finset Int
  physHotKeys : Finset Int
  hotKeyList : List Int
  cacheKeys : Finset Int
  cacheDataRefs : KeyMap Int Bytes
  pendingInsertKey : Int
  pendingInsertRef : Bytes
  daPendingDemotions : List (Int × Int)
  records : Int → Bytes

/-- The client of a tiered map whose data blocks hold `records`. -/
def TieredOMap.client {Ω : Tier → Type} (s : TieredOMap Ω) (records : Int → Bytes) : Client where
  config := s.config
  maint := s.maint
  hotKeys := s.hotKeys
  physHotKeys := s.physHotKeys
  hotKeyList := s.hotKeyList
  cacheKeys := s.cacheKeys
  cacheDataRefs := s.cacheDataRefs
  pendingInsertKey := s.pendingInsertKey
  pendingInsertRef := s.pendingInsertRef
  daPendingDemotions := s.daPendingDemotions
  records := records

namespace Client

/-- `*maint_`. -/
def mgr (c : Client) : MaintenanceManager := c.maint.getD { cfg := c.config.maintenance }

/-- Update `*maint_`. -/
def withMgr (c : Client) (f : MaintenanceManager → MaintenanceManager) : Client :=
  { c with maint := c.maint.map f }

/-- The hot map is a DA map that scans for demotions by itself. -/
def scansByItself (c : Client) : Bool := c.config.isDaHot && c.config.maintenance.piggyback

/-! ## Records -/

/-- What a data access for a key reads; a key that is not stored has no block. -/
def record (layout : Layout) (c : Client) (key : Int) : Bytes :=
  if key ∈ layout.stored then c.records key else []

/-- Overwrite the record of a stored key. -/
def setRecord (layout : Layout) (c : Client) (key : Int) (raw : Bytes) : Client :=
  if key ∈ layout.stored then { c with records := Function.update c.records key raw } else c

/-- `restamp`. -/
def restamp (layout : Layout) (c : Client) (key : Int) (newValue : Option Bytes) :
    (Bytes × Int) × Client :=
  let raw := c.record layout key
  let updated := c.mgr.updateMeta (decodeEpoch raw).2
  let value := newValue.getD (decodeEpoch raw).1
  ((value, updated.fp), c.setRecord layout key (encodeWithEpoch value updated))

/-! ## Scanning and swapping -/

/-- `next_scan_key`. -/
def nextScanKey (c : Client) : Int × Client :=
  match c.hotKeyList with
  | [] => (invalidKey, c)
  | first :: _ =>
      match c.hotKeyList.find? (fun key => c.mgr.scanPtr < key) with
      | some key => (key, c.withMgr (fun maint => maint.setScanPtr key))
      | none => (first, c.withMgr (fun maint => maint.resetScanPtr.setScanPtr first))

/-- `demoteToCache`. -/
def demoteToCache (c : Client) (scanKey fp : Int) (ref : Bytes) : Client :=
  let admitted := c.mgr.cacheAdmit scanKey fp true
  let evicted := admitted.1
  { c with
    maint := c.maint.map (fun _ => admitted.2.setSwapState .hotPend)
    pendingInsertKey := evicted.key
    pendingInsertRef := c.cacheDataRefs.getD evicted.key []
    physHotKeys := c.physHotKeys.erase scanKey
    hotKeyList := eraseSorted c.hotKeyList scanKey
    cacheKeys := (insert scanKey c.cacheKeys).erase evicted.key
    cacheDataRefs := ((c.cacheDataRefs.touch evicted.key []).set scanKey ref).erase evicted.key }

/-- `promoteToCache`. -/
def promoteToCache (c : Client) (key fp : Int) (ref : Bytes) : Client :=
  let admitted := c.mgr.cacheAdmit key fp false
  let evicted := admitted.1
  { c with
    maint := c.maint.map (fun _ => admitted.2.setSwapState .coldPend)
    pendingInsertKey := evicted.key
    pendingInsertRef := c.cacheDataRefs.getD evicted.key []
    cacheKeys := insert key (c.cacheKeys.erase evicted.key)
    cacheDataRefs := ((c.cacheDataRefs.touch evicted.key []).erase evicted.key).set key ref
    hotKeys := insert key (c.hotKeys.erase evicted.key) }

/-- Clear the pending entry. -/
def clearPending (c : Client) : Client :=
  { c with pendingInsertKey := invalidKey, pendingInsertRef := [] }.withMgr
    (fun maint => maint.setSwapState .idle)

/-- A key is back in the hot map. -/
def addPhysHot (c : Client) (key : Int) : Client :=
  { c with
    physHotKeys := insert key c.physHotKeys
    hotKeyList := insertSorted c.hotKeyList key }

/-- `doDaScanStep`. -/
def doDaScanStep (layout : Layout) (c : Client) : Client :=
  match c.daPendingDemotions with
  | [] => c
  | (key, fp) :: rest =>
      let c := { c with daPendingDemotions := rest }
      if key ≠ invalidKey ∧ key ∈ c.physHotKeys then c.demoteToCache key fp (layout.refs key)
      else c

/-- `scanNextKey`. -/
def scanNextKey (layout : Layout) (c : Client) : Client :=
  let scanKey := c.nextScanKey.1
  let c := c.nextScanKey.2
  let fp := (decodeEpoch (c.record layout scanKey)).2.fp
  if c.mgr.shouldDemoteCache fp then c.demoteToCache scanKey fp (layout.refs scanKey) else c

/-- `do_scan_step`. -/
def doScanStep (layout : Layout) (c : Client) : Client :=
  if c.mgr.swapState ≠ .idle then c
  else if c.scansByItself then c.doDaScanStep layout
  else if c.hotKeyList = [] then c
  else c.scanNextKey layout

/-- `do_hot_insert_step`. -/
def doHotInsertStep (c : Client) : Client :=
  if c.mgr.swapState = .hotPend then (c.addPhysHot c.pendingInsertKey).clearPending else c

/-- `do_cold_insert_step`. -/
def doColdInsertStep (c : Client) : Client :=
  if c.mgr.swapState = .coldPend then c.clearPending else c

/-- `staggeredMaintenance`. -/
def staggeredMaintenance (layout : Layout) (c : Client) : Client :=
  let c := if c.mgr.shouldScan then c.doScanStep layout else c
  let c := if c.mgr.shouldHotInsert then c.doHotInsertStep else c
  if c.mgr.shouldColdInsert then c.doColdInsertStep else c

/-! ## Accesses -/

/-- `accessPending`. -/
def accessPending (layout : Layout) (c : Client) (newValue : Option Bytes) :
    AccessResult × Client :=
  let stamped := c.restamp layout c.pendingInsertKey newValue
  ({ value := stamped.1.1, foundInHot := true, lastAccessFp := stamped.1.2 }, stamped.2)

/-- `accessCache`. -/
def accessCache (layout : Layout) (c : Client) (key : Int) (newValue : Option Bytes) :
    AccessResult × Client :=
  let stamped := c.restamp layout key newValue
  ({ value := stamped.1.1, foundInHot := key ∈ c.hotKeys },
    stamped.2.withMgr (fun maint => maint.updateCacheFp key stamped.1.2))

/-- `reactivePromotion` of a key that is not in the hot set. -/
def reactivePromotion (layout : Layout) (c : Client) (key fp : Int) : Client :=
  if (key ∉ c.hotKeys ∧ key ∈ layout.stored) ∧
      c.mgr.swapState = .idle ∧ c.mgr.shouldPromote fp = true then
    c.promoteToCache key fp (layout.refs key)
  else c

/-- `accessSequential`. -/
def accessSequential (layout : Layout) (c : Client) (key : Int) (newValue : Option Bytes) :
    AccessResult × Client :=
  let stamped := c.restamp layout key newValue
  ({ value := stamped.1.1, foundInHot := key ∈ c.hotKeys, lastAccessFp := stamped.1.2 },
    stamped.2.reactivePromotion layout key stamped.1.2)

/-- `accessPath` without a channel. -/
def accessPath (layout : Layout) (c : Client) (key : Int) (newValue : Option Bytes) :
    AccessResult × Client :=
  if key = c.pendingInsertKey then c.accessPending layout newValue
  else if key ∈ c.cacheKeys then c.accessCache layout key newValue
  else c.accessSequential layout key newValue

/-- `access` when maintenance is on. -/
def accessEpoch (layout : Layout) (c : Client) (key : Int) (newValue : Option Bytes) :
    AccessResult × Client :=
  let served := (c.withMgr MaintenanceManager.tick).accessPath layout key newValue
  (served.1, served.2.staggeredMaintenance layout)

/-- `access` when maintenance is off. -/
def accessPlain (layout : Layout) (c : Client) (key : Int) (newValue : Option Bytes) :
    AccessResult × Client :=
  ({ value := c.record layout key, foundInHot := key ∈ c.hotKeys },
    c.setRecord layout key (newValue.getD (c.record layout key)))

/-- `access` without a channel, unless the hot map scans by itself. -/
def access (layout : Layout) (c : Client) (key : Int) (newValue : Option Bytes) :
    AccessResult × Client :=
  if c.maint.isSome then c.accessEpoch layout key newValue else c.accessPlain layout key newValue

/-- A run of accesses. -/
def runAccesses (layout : Layout) (c : Client) :
    List (Int × Option Bytes) → List Bytes × Client
  | [] => ([], c)
  | (key, newValue) :: rest =>
      let served := c.access layout key newValue
      let later := runAccesses layout served.2 rest
      (served.1.value :: later.1, later.2)

end Client

end TieredOmap
