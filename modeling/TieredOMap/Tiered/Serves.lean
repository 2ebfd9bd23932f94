import TieredOMap.Oram.DataArray
import TieredOMap.Tiered.ClientStep

/-!
# A tiered map serves a client

`Serves` ties a tiered map to the client it stands for: the containers are the
client's, each oblivious map holds the references of its tier's keys and the
data ORAM holds the client's records under the references of their keys. Every
step of an access keeps it, so a run of accesses is a run of the client.
-/

namespace TieredOmap

open TieredOMap

namespace Client

variable {layout : Layout} {c : Client}

/-- To overwrite a record with itself changes nothing. -/
theorem setRecord_self (layout : Layout) (c : Client) (key : Int) :
    c.setRecord layout key (c.record layout key) = c := by
  unfold setRecord record
  split <;> simp

theorem record_setRecord_self {key : Int} (raw : Bytes) (keyStored : key ∈ layout.stored) :
    (c.setRecord layout key raw).record layout key = raw := by
  simp [setRecord, record, keyStored]

end Client

namespace TieredOMap

variable {Ω : Tier → Type} {s s' s'' : TieredOMap Ω}

theorem omap_setOmap (s : TieredOMap Ω) (tier : Tier) (omap : Ω tier) :
    (s.setOmap tier omap).omap tier = omap := by
  cases tier <;> rfl

/-- Replacing a map does not change the client. -/
theorem client_setOmap (s : TieredOMap Ω) (tier : Tier) (omap : Ω tier) (records : Int → Bytes) :
    (s.setOmap tier omap).client records = s.client records := by
  cases tier <;> rfl

/-- Two tiered maps with the same stores. -/
structure SameStores (s s' : TieredOMap Ω) : Prop where
  hotOmap : s'.hotOmap = s.hotOmap
  coldOmap : s'.coldOmap = s.coldOmap
  dataOram : s'.dataOram = s.dataOram
  channel : s'.channel = s.channel

theorem SameStores.omap (same : SameStores s s') (tier : Tier) : s'.omap tier = s.omap tier := by
  cases tier with
  | hot => exact same.hotOmap
  | cold => exact same.coldOmap

variable [∀ tier, OmapInterface (Ω tier)] [∀ tier, LawfulOmap (Ω tier)] [Cipher]
  {layout : Layout} {c c' : Client}

/-- The data ORAM holds every stored key's record under its reference. -/
def DataHolds (layout : Layout) (records : Int → Bytes) (dataOram : PathORAM) : Prop :=
  ∃ contents, dataOram.IsArray contents ∧ ∀ key ∈ layout.stored,
    contents (refToBlk (layout.refs key)) = some (records key)

/-- A tiered map without a channel stands for a client. -/
structure Serves (layout : Layout) (c : Client) (s : TieredOMap Ω) : Prop where
  client : s.client c.records = c
  shape : c.Shape layout
  reps : ∀ tier, LawfulOmap.Rep (s.omap tier) (refsOn layout.refs (c.tierKeys layout tier))
    (layout.room tier)
  data : DataHolds layout c.records s.dataOram
  noChannel : s.channel = false

theorem Serves.mgr_eq (serves : s.Serves layout c) : s.mgr = c.mgr :=
  congrArg Client.mgr serves.client

theorem Serves.config_eq (serves : s.Serves layout c) : s.config = c.config :=
  congrArg Client.config serves.client

theorem Serves.physHotKeys_eq (serves : s.Serves layout c) : s.physHotKeys = c.physHotKeys :=
  congrArg Client.physHotKeys serves.client

theorem Serves.hotKeys_eq (serves : s.Serves layout c) : s.hotKeys = c.hotKeys :=
  congrArg Client.hotKeys serves.client

/-- The client of a tiered map without stores that differ. -/
theorem Serves.congr (serves : s.Serves layout c) (same : SameStores s s')
    (client : s'.client c'.records = c') (shape : c'.Shape layout)
    (tierKeys : c'.tierKeys layout = c.tierKeys layout) (records : c'.records = c.records) :
    s'.Serves layout c' := by
  refine ⟨client, shape, ?_, ?_, same.channel.trans serves.noChannel⟩
  · intro tier
    rw [same.omap, tierKeys]
    exact serves.reps tier
  · rw [same.dataOram, records]
    exact serves.data

/-- Replacing one map by another that stands for the same references. -/
theorem Serves.setOmap (serves : s.Serves layout c) {tier : Tier} {omap : Ω tier}
    (rep : LawfulOmap.Rep omap (refsOn layout.refs (c.tierKeys layout tier)) (layout.room tier)) :
    (s.setOmap tier omap).Serves layout c := by
  refine ⟨(client_setOmap s tier omap _).trans serves.client, serves.shape, ?_, ?_, ?_⟩
  · intro tier'
    cases tier <;> cases tier' <;> first | exact rep | exact serves.reps _
  · cases tier <;> exact serves.data
  · cases tier <;> exact serves.noChannel

/-- A move that changed one map and then the client accordingly. -/
theorem Serves.moved (serves : s.Serves layout c) {tier : Tier} {omap : Ω tier}
    (same : SameStores (s.setOmap tier omap) s') (client : s'.client c'.records = c')
    (shape : c'.Shape layout) (records : c'.records = c.records)
    (rep : LawfulOmap.Rep omap (refsOn layout.refs (c'.tierKeys layout tier)) (layout.room tier))
    (sameOther : c'.tierKeys layout tier.other = c.tierKeys layout tier.other) :
    s'.Serves layout c' := by
  have otherRep : LawfulOmap.Rep (s.omap tier.other)
      (refsOn layout.refs (c'.tierKeys layout tier.other)) (layout.room tier.other) := by
    rw [sameOther]
    exact serves.reps _
  refine ⟨client, shape, ?_, ?_, ?_⟩
  · intro tier'
    rw [same.omap]
    cases tier <;> cases tier' <;> first | exact rep | exact otherRep
  · rw [same.dataOram, records]
    cases tier <;> exact serves.data
  · rw [same.channel]
    cases tier <;> exact serves.noChannel

/-- Replacing the data ORAM. -/
theorem Serves.withData (serves : s.Serves layout c) {dataOram : PathORAM}
    (client : s.client c'.records = c') (same : c.SameShape c')
    (data : DataHolds layout c'.records dataOram) :
    { s with dataOram := dataOram }.Serves layout c' := by
  refine ⟨client, serves.shape.congr same, ?_, data, serves.noChannel⟩
  intro tier
  rw [same.tierKeys]
  cases tier
  · exact serves.reps .hot
  · exact serves.reps .cold

/-- Manager updates that keep the cache keys and the swap state. -/
theorem Serves.withMgr (serves : s.Serves layout c) {f : MaintenanceManager → MaintenanceManager}
    (sameKeys : ∀ maint, (f maint).cacheKeyList = maint.cacheKeyList)
    (sameSwap : ∀ maint, (f maint).swapState = maint.swapState) :
    (s.withMgr f).Serves layout (c.withMgr f) := by
  have same := Client.sameShape_withMgr (c := c) sameKeys sameSwap
  exact serves.congr ⟨rfl, rfl, rfl, rfl⟩ (congrArg (Client.withMgr · f) serves.client)
    (serves.shape.congr same) (same.tierKeys layout) rfl

/-! ## Single operations -/

/-- An operation that leaves every map as it was. -/
theorem Serves.ends_onTier (serves : s.Serves layout c) {tier : Tier}
    {operation : Ω tier → Rand (Ω tier)}
    (quiet : ∀ omap contents room, LawfulOmap.Rep omap contents room →
      Ends (operation omap) (fun omap' => LawfulOmap.Rep omap' contents room)) :
    Ends (s.onTier tier operation) (fun s' => s'.Serves layout c) := by
  refine Prog.ends_bind (quiet _ _ _ (serves.reps tier)) ?_
  intro omap rep
  exact Prog.ends_pure (serves.setOmap rep)

theorem Serves.ends_dummy (serves : s.Serves layout c) (tier : Tier) :
    Ends (s.onTier tier OmapInterface.dummyAccess) (fun s' => s'.Serves layout c) :=
  serves.ends_onTier LawfulOmap.ends_dummyAccess

theorem Serves.ends_dummyTier (serves : s.Serves layout c) (tier : Tier) :
    Ends (s.dummyTier tier) (fun s' => s'.Serves layout c) := by
  unfold dummyTier
  split
  · exact serves.ends_dummy tier
  · exact serves.ends_onTier LawfulOmap.ends_partialDummyAccess

theorem Serves.ends_searchTier (serves : s.Serves layout c) (tier : Tier) (key : Int) :
    Ends (s.searchTier tier key) (fun outcome =>
      outcome.1 = valueOf (refsOn layout.refs (c.tierKeys layout tier) key) ∧
        outcome.2.Serves layout c) := by
  refine Prog.ends_bind (LawfulOmap.ends_search _ _ _ key (serves.reps tier)) ?_
  rintro ⟨ref, omap⟩ ⟨refEq, rep⟩
  exact Prog.ends_pure ⟨refEq, serves.setOmap rep⟩

theorem Serves.ends_dataDummy (serves : s.Serves layout c) :
    Ends s.dataDummy (fun s' => s'.Serves layout c) := by
  rcases serves.data with ⟨contents, isArray, records⟩
  refine Prog.ends_bind isArray.ends_dummyAccess ?_
  intro dataOram isArray'
  exact Prog.ends_pure (serves.withData serves.client
    ⟨rfl, rfl, rfl, rfl, rfl, rfl, rfl, rfl, rfl⟩ ⟨contents, isArray', records⟩)

/-- What a reference found for a key is: the key's own if it is stored, else empty. -/
def IsRef (layout : Layout) (key : Int) (ref : Bytes) : Prop :=
  ref = if key ∈ layout.stored then layout.refs key else []

/-- Reading through a key's reference returns its record and may overwrite it. -/
theorem Serves.ends_dataAccess (serves : s.Serves layout c) {key : Int} {ref : Bytes}
    (isRef : IsRef layout key ref) (newValue : Option Bytes) :
    Ends (s.dataAccess (refToBlk ref) newValue) (fun outcome =>
      outcome.1 = c.record layout key ∧
        outcome.2.Serves layout
          (c.setRecord layout key (newValue.getD (c.record layout key)))) := by
  rcases serves.data with ⟨contents, isArray, records⟩
  unfold dataAccess
  by_cases keyStored : key ∈ layout.stored
  · rw [IsRef, if_pos keyStored] at isRef
    subst isRef
    rw [if_neg (by have nonneg := layout.blk_nonneg key keyStored; omega)]
    refine Prog.ends_bind (isArray.ends_access (records key keyStored) newValue) ?_
    rintro ⟨value, dataOram⟩ ⟨rfl, isArray'⟩
    simp only [Client.record, Client.setRecord, if_pos keyStored]
    set records' := Function.update c.records key (newValue.getD (c.records key)) with records'Def
    refine Prog.ends_pure ⟨rfl, serves.withData
      (congrArg (fun client : Client => { client with records := records' }) serves.client)
      ⟨rfl, rfl, rfl, rfl, rfl, rfl, rfl, rfl, rfl⟩ ⟨_, isArray', ?_⟩⟩
    intro key' keyStored'
    by_cases here : key' = key
    · subst here
      simp only [records'Def, Function.update_self]
    · have otherBlk : refToBlk (layout.refs key') ≠ refToBlk (layout.refs key) :=
        fun same => here (layout.blk_inj key' keyStored' key keyStored same)
      rw [Function.update_of_ne otherBlk]
      simp only [records'Def, Function.update_of_ne here]
      exact records key' keyStored'
  · rw [IsRef, if_neg keyStored] at isRef
    subst isRef
    rw [if_pos (by decide)]
    refine Prog.ends_bind isArray.ends_dummyAccess ?_
    intro dataOram isArray'
    simp only [Client.record, Client.setRecord, if_neg keyStored]
    exact Prog.ends_pure ⟨rfl, serves.withData serves.client
      ⟨rfl, rfl, rfl, rfl, rfl, rfl, rfl, rfl, rfl⟩ ⟨contents, isArray', records⟩⟩

/-- A plain read. -/
theorem Serves.ends_dataRead (serves : s.Serves layout c) {key : Int} {ref : Bytes}
    (isRef : IsRef layout key ref) :
    Ends (s.dataAccess (refToBlk ref) none) (fun outcome =>
      outcome.1 = c.record layout key ∧ outcome.2.Serves layout c) := by
  refine (serves.ends_dataAccess isRef none).mono ?_
  rintro outcome ⟨valueEq, read⟩
  rw [Option.getD_none, Client.setRecord_self] at read
  exact ⟨valueEq, read⟩

/-- `restamp` does to the stores what it does to the client. -/
theorem Serves.ends_restamp (serves : s.Serves layout c) {key : Int} {ref : Bytes}
    (isRef : IsRef layout key ref) (newValue : Option Bytes) :
    Ends (s.restamp ref newValue) (fun outcome =>
      outcome.1 = (c.restamp layout key newValue).1 ∧
        outcome.2.Serves layout (c.restamp layout key newValue).2) := by
  refine Prog.ends_bind (serves.ends_dataRead isRef) ?_
  rintro ⟨raw, read⟩ ⟨rfl, readServes⟩
  have mgrEq : read.mgr = c.mgr := readServes.mgr_eq
  simp only [mgrEq]
  refine Prog.ends_bind (readServes.ends_dataAccess isRef _) ?_
  rintro ⟨_, written⟩ ⟨_, writtenServes⟩
  exact Prog.ends_pure ⟨rfl, writtenServes⟩

end TieredOMap

end TieredOmap
