import TieredOMap.Tiered.Store

/-!
# Queued demotions

With a DA hot map and piggybacking on, an access queues a key that it found
cold, together with its frequency; a later scan step demotes the key at the head
of the queue without looking at the cache again. As long as some cached key is
then at least as hot as the queued frequency, the swap is an ordinary one.
Otherwise admission evicts the very key it admits, before its reference is
recorded.
-/

namespace TieredOmap

/-- A scan step of a DA map yields an entry of the map or nothing, and leaves the map as it was. -/
class ScannedOmap (Ω : Type) [OmapInterface Ω] [LawfulOmap Ω] : Prop where
  ends_piggybackScanStep : ∀ (omap : Ω) contents room, LawfulOmap.Rep omap contents room →
    Ends (OmapInterface.piggybackScanStep omap) (fun outcome =>
      (outcome.1.1 ≠ invalidKey → outcome.1.2 ≠ [] → contents outcome.1.1 = some outcome.1.2) ∧
        LawfulOmap.Rep outcome.2 contents room)

instance : ScannedOmap MapOmap where
  ends_piggybackScanStep _ _ _ rep := Prog.ends_pure ⟨fun notInvalid => absurd rfl notInvalid, rep⟩

namespace TieredOMap

variable {Ω : Tier → Type} [∀ tier, OmapInterface (Ω tier)] [Cipher]

/-- What an access with maintenance does before its staggered maintenance. -/
def accessFront (fuel : Nat) (s : TieredOMap Ω) (key : Int) (newValue : Option Bytes) :
    Rand (AccessResult × Piggybacked × TieredOMap Ω) := do
  let (result, done, s) ← accessPath fuel (s.withMgr MaintenanceManager.tick) key newValue
  let s ← s.daPiggybackScan
  return (result, done, s)

theorem accessEpoch_eq (fuel : Nat) (s : TieredOMap Ω) (key : Int) (newValue : Option Bytes) :
    s.accessEpoch fuel key newValue = (do
      let (result, done, s) ← s.accessFront fuel key newValue
      let s ← s.staggeredMaintenance done
      return (result, s)) := by
  simp only [accessEpoch, accessFront, bind_assoc, pure_bind]

/-- If a queued demotion is due, some cached key is at least as hot as it. -/
def FreshQueue (s : TieredOMap Ω) : Prop :=
  (s.config.isDaHot && s.config.maintenance.piggyback) = true → s.mgr.shouldScan = true →
    s.mgr.swapState = .idle → FreshHead s.mgr s.physHotKeys s.daPendingDemotions

/-- The queue is fresh when the maintenance of an access that starts in `world` is due. -/
def FreshAccess (fuel : Nat) (s : TieredOMap Ω) (key : Int) (newValue : Option Bytes)
    (world : World) : Prop :=
  s.maint.isSome → ∀ result done middle world',
    (s.accessFront fuel key newValue).runFrom world = (.ok (result, done, middle), world') →
      middle.FreshQueue

variable [∀ tier, LawfulOmap (Ω tier)] [ScannedOmap (Ω .hot)] {layout : Layout} {c : Client}
  {s : TieredOMap Ω}

/-- The scan of the DA map may put one key in the queue. -/
theorem Serves.ends_daPiggybackScan (serves : s.Serves layout c) :
    Ends s.daPiggybackScan (fun s' => ∃ queue,
      s'.Serves layout { c with daPendingDemotions := queue }) := by
  have unqueued : ∃ queue, s.Serves layout { c with daPendingDemotions := queue } :=
    ⟨c.daPendingDemotions, serves⟩
  unfold daPiggybackScan
  split
  · refine Prog.ends_bind
      (ScannedOmap.ends_piggybackScanStep _ _ _ (serves.reps .hot)) ?_
    rintro ⟨⟨key, value⟩, omap⟩ ⟨found, rep⟩
    dsimp only at found rep ⊢
    have scanned : (s.setOmap .hot omap).Serves layout c := serves.setOmap rep
    split
    · rename_i isEntry
      have entry := found isEntry.1 isEntry.2
      have keyMem : key ∈ c.tierKeys layout .hot := refsOn_isSome.mp (by rw [entry]; rfl)
      have keyStored := serves.shape.hotKeys_sub (serves.shape.phys_sub keyMem)
      have isRef : IsRef layout key value := by
        rw [refsOn, if_pos keyMem] at entry
        rw [IsRef, if_pos keyStored, ← Option.some.inj entry]
      refine Prog.ends_bind (scanned.ends_dataRead isRef) ?_
      rintro ⟨raw, read⟩ ⟨_, readServes⟩
      dsimp only at readServes ⊢
      split
      · refine Prog.ends_pure ⟨read.daPendingDemotions ++ [(key, (decodeEpoch raw).2.fp)], ?_⟩
        refine readServes.congr ⟨rfl, rfl, rfl, rfl⟩ ?_ ?_ rfl rfl
        · exact congrArg (fun client : Client => { client with
            daPendingDemotions := read.daPendingDemotions ++ [(key, (decodeEpoch raw).2.fp)] })
              readServes.client
        · exact readServes.shape.congr ⟨rfl, rfl, rfl, rfl, rfl, rfl, rfl, rfl, rfl⟩
      · exact Prog.ends_pure ⟨c.daPendingDemotions, readServes⟩
    · exact Prog.ends_pure ⟨c.daPendingDemotions, scanned⟩
  · exact Prog.ends_pure unqueued

/-- The front of an access is the client's path, with a key queued perhaps. -/
theorem Serves.ends_accessFront (serves : s.Serves layout c) (fuel : Nat) (key : Int)
    (newValue : Option Bytes) :
    Ends (s.accessFront fuel key newValue) (fun outcome =>
      outcome.1 = ((c.withMgr MaintenanceManager.tick).accessPath layout key newValue).1 ∧
        outcome.2.1 = {} ∧ ∃ queue, outcome.2.2.Serves layout
          { ((c.withMgr MaintenanceManager.tick).accessPath layout key newValue).2 with
            daPendingDemotions := queue }) := by
  refine Prog.ends_bind (serves.tick.ends_accessPath fuel key newValue) ?_
  rintro ⟨_, _, accessed⟩ ⟨rfl, rfl, accessedServes⟩
  refine Prog.ends_bind accessedServes.ends_daPiggybackScan ?_
  rintro scanned ⟨queue, scannedServes⟩
  exact Prog.ends_pure ⟨rfl, rfl, queue, scannedServes⟩

/-- A client that does not scan by itself never has a queued demotion due. -/
theorem Serves.freshAccess (serves : s.Serves layout c) (notByItself : c.scansByItself = false)
    (fuel : Nat) (key : Int) (newValue : Option Bytes) (world : World) :
    s.FreshAccess fuel key newValue world := by
  intro _ result done middle world' frontRun byItself
  rcases (serves.ends_accessFront fuel key newValue).returned frontRun with
    ⟨_, _, queue, middleServes⟩
  have path := serves.shape.keeps_tick.trans
    (serves.shape.keeps_tick.shape.keeps_accessPath key newValue)
  have configEq : middle.config = c.config := middleServes.config_eq.trans path.config
  rw [configEq] at byItself
  rw [Client.scansByItself, byItself] at notByItself
  cases notByItself

/-- What an access does to the values of the stored keys. -/
structure Accessed (layout : Layout) (c c' : Client) (key : Int) (newValue : Option Bytes)
    (result : AccessResult) : Prop where
  keeps : c.Keeps layout c'
  values : ∀ key' ∈ layout.stored, c'.valueOf key' =
    if key' = key then newValue.getD (c.valueOf key') else c.valueOf key'
  answer : key ∈ layout.stored → newValue = none → result.value = c.valueOf key

/-- An access whose queue is fresh serves a client with the values it should have. -/
theorem Serves.accessed (serves : s.Serves layout c) {fuel : Nat} {key : Int}
    {newValue : Option Bytes} {world world' : World} {result : AccessResult} {s' : TieredOMap Ω}
    (fresh : s.FreshAccess fuel key newValue world)
    (run : (s.access fuel key newValue).runFrom world = (.ok (result, s'), world')) :
    ∃ c', s'.Serves layout c' ∧ Accessed layout c c' key newValue result := by
  have maintEq : s.maint = c.maint := congrArg Client.maint serves.client
  by_cases isEpoch : c.maint.isSome
  · have accessEq : s.access fuel key newValue = s.accessEpoch fuel key newValue := by
      unfold access
      rw [maintEq, if_pos isEpoch]
    rw [accessEq, accessEpoch_eq] at run
    rcases Prog.runs_of_bind run with ⟨⟨result', done, middle⟩, between, frontRun, backRun⟩
    have queueFresh := fresh (maintEq ▸ isEpoch) result' done middle between frontRun
    rcases (serves.ends_accessFront fuel key newValue).returned frontRun with
      ⟨resultEq, doneEq, queue, middleServes⟩
    dsimp only at resultEq doneEq middleServes
    subst doneEq
    set served := (c.withMgr MaintenanceManager.tick).accessPath layout key newValue with servedDef
    have kept : c.Keeps layout { served.2 with daPendingDemotions := queue } := by
      have path := serves.shape.keeps_tick.trans
        (serves.shape.keeps_tick.shape.keeps_accessPath key newValue)
      exact ⟨middleServes.shape, path.card, path.config, path.enabled⟩
    -- the client's maintenance is in step with the map's because the queue is fresh
    have clientFresh : ({ served.2 with daPendingDemotions := queue } : Client).scansByItself = true →
        ({ served.2 with daPendingDemotions := queue } : Client).mgr.shouldScan = true →
        ({ served.2 with daPendingDemotions := queue } : Client).mgr.swapState = .idle →
        FreshHead ({ served.2 with daPendingDemotions := queue } : Client).mgr
          ({ served.2 with daPendingDemotions := queue } : Client).physHotKeys queue := by
      have queueEq : middle.daPendingDemotions = queue :=
        congrArg Client.daPendingDemotions middleServes.client
      rw [FreshQueue, middleServes.config_eq, middleServes.mgr_eq, middleServes.physHotKeys_eq,
        queueEq] at queueFresh
      exact queueFresh
    have back := (middleServes.ends_staggeredMaintenance clientFresh)
    rcases Prog.runs_of_bind backRun with ⟨maintained, between', maintRun, lastRun⟩
    cases lastRun
    refine ⟨_, back.returned maintRun,
      kept.trans (middleServes.shape.keeps_staggeredMaintenance clientFresh), ?_, ?_⟩
    · intro key' keyStored'
      have enabled := (kept.trans
        (middleServes.shape.keeps_staggeredMaintenance clientFresh)).enabled
      rw [Client.valueOf, enabled, if_pos isEpoch, Client.records_staggeredMaintenance]
      change (decodeEpoch (served.2.records key')).1 = _
      rw [servedDef, (Client.accessPath_restamps layout _ key newValue).2, Client.restamp,
        Client.valueOf_setRecord _ keyStored']
      by_cases here : key' = key
      · subst here
        simp [Client.record, keyStored', Client.valueOf, isEpoch]
      · simp [here, Client.valueOf, isEpoch]
    · rintro keyStored rfl
      rw [resultEq, servedDef, (Client.accessPath_restamps layout _ key none).1]
      simp [Client.restamp, Client.record, keyStored, Client.valueOf, isEpoch]
  · have disabled : c.maint = none := by simpa using isEpoch
    have accessEq : s.access fuel key newValue = s.accessPlain fuel key newValue := by
      unfold access
      rw [maintEq, if_neg isEpoch]
    rw [accessEq] at run
    rcases (serves.ends_accessPlain disabled fuel key newValue).returned run with
      ⟨resultEq, accessedServes⟩
    dsimp only at resultEq accessedServes
    have clientEq : c.access layout key newValue = c.accessPlain layout key newValue :=
      if_neg isEpoch
    have keeps := serves.shape.keeps_setRecord key (newValue.getD (c.record layout key))
    refine ⟨_, accessedServes, keeps, ?_, ?_⟩
    · intro key' keyStored'
      rw [← clientEq]
      exact Client.valueOf_access key newValue keyStored' (clientEq ▸ keeps.enabled)
    · rintro keyStored rfl
      rw [resultEq, ← clientEq]
      exact Client.value_access keyStored

/-! ## Runs -/

/-- The states that accesses with a fresh queue reach from `init`. -/
inductive FreshlyReached (config : TieredOMapConfig) (data : Dataset) : TieredOMap Ω → Prop
  | init {s : TieredOMap Ω} {world world' : World}
      (run : (TieredOMap.init config data.records data.hotKeys).runFrom world = (.ok s, world')) :
      FreshlyReached config data s
  | access {s s' : TieredOMap Ω} {fuel : Nat} {key : Int} {newValue : Option Bytes}
      {result : AccessResult} {world world' : World}
      (reached : FreshlyReached config data s) (fresh : s.FreshAccess fuel key newValue world)
      (run : (s.access fuel key newValue).runFrom world = (.ok (result, s'), world')) :
      FreshlyReached config data s'

theorem FreshlyReached.serves {config : TieredOMapConfig} {data : Dataset}
    (reached : FreshlyReached config data s) :
    ∃ c, s.Serves (data.layout config) c ∧ c.hotKeys.card = data.hotKeys.length := by
  induction reached with
  | init run =>
      refine ⟨_, (ends_init data config).returned run, ?_⟩
      rw [(Client.keeps_start data config).card]
      exact data.card_hotKeys
  | access _ fresh run ih =>
      rcases ih with ⟨c, serves, card⟩
      rcases serves.accessed fresh run with ⟨c', serves', accessed⟩
      exact ⟨c', serves', accessed.keeps.card.trans card⟩

end TieredOMap

/-! ## A stale demotion -/

/-- A finite map with the scan of a DA map: each step yields the next entry. -/
structure CursorOmap where
  omap : MapOmap := {}
  cursor : Nat := 0

namespace CursorOmap

/-- Run an operation of the map. -/
def onMap (omap : CursorOmap) (operation : MapOmap → Rand MapOmap) : Rand CursorOmap := do
  let map ← operation omap.omap
  return { omap with omap := map }

/-- Yield the entry under the cursor. -/
def scan (omap : CursorOmap) : (Int × Bytes) × CursorOmap :=
  let entries := omap.omap.contents.entries
  ((entries[omap.cursor % entries.length]?).getD (invalidKey, []),
    { omap with cursor := omap.cursor + 1 })

instance : OmapInterface CursorOmap where
  make _ _ _ _ := return {}
  init omap records := omap.onMap (fun map => OmapInterface.init map records)
  search omap key update := do
    let (ref, map) ← OmapInterface.search omap.omap key update
    return (ref, { omap with omap := map })
  insert omap key value := omap.onMap (fun map => OmapInterface.insert map key value)
  remove omap key := omap.onMap (fun map => OmapInterface.remove map key)
  dummyAccess omap := return omap
  piggybackScanStep omap := return omap.scan

/-- An operation of the map, as an operation of the map with its cursor. -/
theorem ends_onMap {omap : CursorOmap} {operation : MapOmap → Rand MapOmap}
    {post : MapOmap → Prop} (ends : Ends (operation omap.omap) post) :
    Ends (omap.onMap operation) (fun omap' => post omap'.omap) := by
  refine Prog.ends_bind ends ?_
  intro map holds
  exact Prog.ends_pure holds

instance : LawfulOmap CursorOmap where
  Rep omap contents room := LawfulOmap.Rep omap.omap contents room
  Fresh omap room := LawfulOmap.Fresh omap.omap room
  ends_make _ _ _ _ := Prog.ends_pure trivial
  ends_init omap room data isFresh valid fits :=
    @ends_onMap omap (fun map => OmapInterface.init map data.entries) _
      (LawfulOmap.ends_init omap.omap room data isFresh valid fits)
  ends_search omap contents room key rep := by
    refine Prog.ends_bind (LawfulOmap.ends_search omap.omap contents room key rep) ?_
    rintro ⟨ref, map⟩ found
    exact Prog.ends_pure found
  ends_insert omap contents room key value keys rep valid absent listed fits :=
    @ends_onMap omap (fun map => OmapInterface.insert map key value) _
      (LawfulOmap.ends_insert omap.omap contents room key value keys rep valid absent listed fits)
  ends_remove omap contents room key rep :=
    @ends_onMap omap (fun map => OmapInterface.remove map key) _
      (LawfulOmap.ends_remove omap.omap contents room key rep)
  ends_dummyAccess _ _ _ rep := Prog.ends_pure rep
  ends_partialDummyAccess _ _ _ rep := Prog.ends_pure rep

instance : ScannedOmap CursorOmap where
  ends_piggybackScanStep omap contents room rep := by
    have holds : omap.omap.contents.get? = contents := rep
    refine Prog.ends_pure ⟨?_, holds⟩
    intro notInvalid _
    unfold scan at notInvalid ⊢
    dsimp only at notInvalid ⊢
    cases entryEq : omap.omap.contents.entries[omap.cursor %
        omap.omap.contents.entries.length]? with
    | none =>
        rw [entryEq] at notInvalid
        exact absurd rfl notInvalid
    | some entry =>
        have found := (KeyMap.get?_eq_some_iff omap.omap.contents).mpr
          (List.mem_of_getElem? entryEq)
        rw [← holds]
        exact found

end CursorOmap

/-- Both tiers are reference maps with a scan. -/
abbrev CursorTiers : Tier → Type := fun _ => CursorOmap

/-- Two hot records. -/
def staleData : Dataset where
  records := [(1, [1]), (2, [2])]
  hotKeys := [1, 2]
  nodup := by decide
  keyRange := by decide
  hotNodup := by decide
  hotSub := by decide

/-- A DA hot map that piggybacks, a cache of one key, and a scan at every thirteenth access. -/
def staleConfig : TieredOMapConfig where
  hotBackend := .daAvl
  useHotBackend := true
  maintenance :=
    { enabled := true, piggyback := true, swapInterval := 13, observationWindow := 4
      cacheSize := 1 }

/-- Key 1 is hot while key 2 is queued and cold when key 2 is demoted; then key 2 is read. -/
def staleOps : List (Int × Option Bytes) :=
  [1, 1, 2, 2, 1, 2, 2, 2, 2, 2, 2, 1, 2, 2].map (fun key => (key, none))

namespace TieredOMap

section Sample

attribute [local instance] clearCipher

/-- The pending entry and the last value read after some accesses, unless one throws. -/
def pendingAfter (ops : List (Int × Option Bytes)) : Option (SwapState × Int × Bytes × Option Bytes) :=
  match (run CursorTiers 0 staleConfig staleData ops).runFrom {} with
  | (.ok (values, s), _) =>
      some (s.mgr.swapState, s.pendingInsertKey, s.pendingInsertRef, values.getLast?)
  | (.error _, _) => none

/-- Whether the first access of that run returns, and the queue before its maintenance. -/
def firstQueue : Option (Bool × List (Int × Int)) :=
  match (TieredOMap.init (Ω := CursorTiers) staleConfig staleData.records
    staleData.hotKeys).runFrom {} with
  | (.ok s, world) =>
      match (s.accessFront 0 1 none).runFrom world with
      | (.ok (_, _, middle), _) =>
          some (((s.access 0 1 none).runFrom world).1.isOk, middle.daPendingDemotions)
      | (.error _, _) => none
  | (.error _, _) => none

end Sample

end TieredOMap

end TieredOmap
