import TieredOMap.Omap.Uses
import TieredOMap.Tiered.TierMoves

/-!
# A tiered map uses its tiers

All that a tiered map does with the maps of its tiers is to use them, each through its interface.
So a property that a new map has and no use of a map breaks holds of both maps in every state,
whatever the accesses, with or without a channel, and whatever the server answers.
-/

namespace TieredOmap

/-- What follows a search in a use of a map only drops the value that was found. -/
theorem yields_of_dropped {α β : Type} {program : Rand (α × β)} {post : β → Prop}
    (dropped : Yields (do let (_, result) ← program; return result) post) :
    Yields program (fun outcome => post outcome.2) := by
  intro world _
  rcases run : program.runFrom world with ⟨_ | ⟨first, result⟩, world'⟩
  · trivial
  · have droppedRun : Prog.runFrom (do let (_, result) ← program; return result) world =
        (.ok result, world') := by
      rw [Prog.runFrom_bind, run]
      rfl
    exact dropped.returned droppedRun

variable {Ω : Tier → Type}

namespace TieredOMap

/-- The maps of both tiers have a property; the kind of the hot map is as it was. -/
structure Tended (s : TieredOMap Ω) (isDa : Bool) (P : ∀ tier, Ω tier → Prop) : Prop where
  kind : s.config.isDaHot = isDa
  hot : P .hot s.hotOmap
  cold : P .cold s.coldOmap

variable {s : TieredOMap Ω} {isDa : Bool} {P : ∀ tier, Ω tier → Prop}

theorem Tended.omap (tended : s.Tended isDa P) (tier : Tier) : P tier (s.omap tier) := by
  cases tier with
  | hot => exact tended.hot
  | cold => exact tended.cold

theorem Tended.setOmap (tended : s.Tended isDa P) {tier : Tier} {omap : Ω tier}
    (holds : P tier omap) : (s.setOmap tier omap).Tended isDa P := by
  cases tier with
  | hot => exact { tended with hot := holds }
  | cold => exact { tended with cold := holds }

theorem Tended.withMgr (tended : s.Tended isDa P) (f : MaintenanceManager → MaintenanceManager) :
    (s.withMgr f).Tended isDa P := { tended with }

theorem Tended.nextScanKey (tended : s.Tended isDa P) : s.nextScanKey.2.Tended isDa P := by
  unfold TieredOMap.nextScanKey
  split
  · exact tended
  · split
    · exact tended.withMgr _
    · exact tended.withMgr _

theorem Tended.onTier (tended : s.Tended isDa P) {tier : Tier}
    {operation : Ω tier → Rand (Ω tier)}
    (keeps : ∀ omap, P tier omap → Yields (operation omap) (P tier)) :
    Yields (s.onTier tier operation) (·.Tended isDa P) :=
  Prog.ends_bind (keeps _ (tended.omap tier)) (fun _ holds => Prog.ends_pure (tended.setOmap holds))

end TieredOMap

namespace Rounds

variable {r : Rounds Ω} {isDa : Bool} {P : ∀ tier, Ω tier → Prop}

/-- The maps keep their property in the rounds of an interleaved access. -/
def Tended (r : Rounds Ω) (isDa : Bool) (P : ∀ tier, Ω tier → Prop) : Prop := r.s.Tended isDa P

theorem Tended.setOmap (tended : r.Tended isDa P) {tier : Tier} {omap : Ω tier}
    (holds : P tier omap) : Tended { r with s := r.s.setOmap tier omap } isDa P :=
  TieredOMap.Tended.setOmap tended holds

theorem Tended.modifyOmap (tended : r.Tended isDa P) {tier : Tier} {f : Ω tier → Ω tier}
    (keeps : ∀ omap, P tier omap → P tier (f omap)) : (r.modifyOmap tier f).Tended isDa P :=
  tended.setOmap (keeps _ (TieredOMap.Tended.omap tended tier))

theorem Tended.onOmap (tended : r.Tended isDa P) {tier : Tier} {operation : Ω tier → Rand (Ω tier)}
    (keeps : ∀ omap, P tier omap → Yields (operation omap) (P tier)) :
    Yields (r.onOmap tier operation) (·.Tended isDa P) := by
  refine Prog.ends_bind (TieredOMap.Tended.onTier tended keeps) ?_
  exact fun s sTended => Prog.ends_pure sTended

theorem Tended.scheduleRead {s : TieredOMap Ω} (tended : s.Tended isDa P) (ref : Bytes)
    (op : DataOp) :
    Yields (Rounds.scheduleRead s ref op) (fun outcome => outcome.2.Tended isDa P) := by
  refine Prog.ends_bind (yields_any _) (fun leaf _ => ?_)
  split
  · exact Prog.ends_pure { tended with }
  · exact Prog.ends_pure tended

theorem Tended.rewriteBlock (tended : r.Tended isDa P) (q : Query) :
    Yields (r.rewriteBlock q) (·.Tended isDa P) := by
  refine Prog.ends_bind (yields_any _) ?_
  rintro ⟨block, dataOram⟩ _
  have moved : ∀ dataOram, TieredOMap.Tended { r.s with dataOram } isDa P :=
    fun _ => { tended with }
  refine Prog.ends_pure ?_
  unfold Tended
  dsimp only
  split
  · exact (moved _).withMgr _
  · exact moved _

theorem Tended.evictData [Cipher] (tended : r.Tended isDa P) (op : DataOp) :
    Yields (r.evictData op) (fun outcome => outcome.2.Tended isDa P) := by
  unfold Rounds.evictData
  split
  · refine Prog.ends_bind (yields_any _) ?_
    rintro ⟨path, dataOram⟩ _
    exact Prog.ends_pure { tended with }
  · exact Prog.ends_pure tended

theorem Tended.startDummy (tended : r.Tended isDa P) (q : Query) :
    Yields (r.startDummy q) (·.Tended isDa P) := by
  unfold Rounds.startDummy
  split
  · dsimp only
    split
    · exact Prog.ends_bind (yields_any _) (fun leaf _ => Prog.ends_pure tended)
    · exact Prog.ends_pure tended
  · exact Prog.ends_pure tended

theorem Tended.closeDummy (tended : r.Tended isDa P) : r.closeDummy.Tended isDa P := by
  unfold Rounds.closeDummy
  split <;> exact tended

theorem Tended.closeScan (tended : r.Tended isDa P) : r.closeScan.Tended isDa P := by
  unfold Rounds.closeScan
  split <;> exact tended

theorem Tended.finishDummyRead (tended : r.Tended isDa P) (p : RoundPlan) :
    (r.finishDummyRead p).Tended isDa P := by
  unfold Rounds.finishDummyRead
  split <;> exact tended

theorem Tended.applyData [Cipher] (tended : r.Tended isDa P) (op : DataOp) (reading : Bool)
    (server : BinaryTreeStorage) : (r.applyData op reading server).Tended isDa P := by
  unfold Rounds.applyData
  split
  · exact { tended with }
  · exact tended

end Rounds

variable [∀ tier, OmapInterface (Ω tier)]

/-- A property of the maps that every new map has and no use of a map breaks. -/
structure KeptByUses (config : TieredOMapConfig) (P : ∀ tier, Ω tier → Prop) : Prop where
  made : ∀ tier capacity isCold hotCount,
    Yields (OmapInterface.make (Ω := Ω tier) config capacity isCold hotCount) (P tier)
  used : ∀ tier omap (use : OmapUse), P tier omap → Yields (use.run omap) (P tier)
  scanned : ∀ tier omap, P tier omap →
    Yields (OmapInterface.piggybackScanStep omap) (fun outcome => P tier outcome.2)

section Uses

variable {config : TieredOMapConfig} {P : ∀ tier, Ω tier → Prop} {tier : Tier} {omap : Ω tier}

theorem KeptByUses.search (kept : KeptByUses config P) (holds : P tier omap) (key : Int)
    (update : Option Bytes) :
    Yields (OmapInterface.search omap key update) (fun outcome => P tier outcome.2) :=
  yields_of_dropped (kept.used tier omap (.call (.search key update)) holds)

theorem KeptByUses.stepNextRound (kept : KeptByUses config P) (holds : P tier omap) :
    Yields (OmapInterface.stepNextRound omap) (fun outcome => P tier outcome.2) :=
  yields_of_dropped (kept.used tier omap .stepNextRound holds)

theorem KeptByUses.stepPrepareWrites (kept : KeptByUses config P) (holds : P tier omap) :
    Yields (OmapInterface.stepPrepareWrites omap) (fun outcome => P tier outcome.2) :=
  yields_of_dropped (kept.used tier omap .stepPrepareWrites holds)

/-- A use that draws nothing. -/
theorem KeptByUses.pure (kept : KeptByUses config P) (holds : P tier omap) (use : OmapUse)
    {result : Ω tier} (isPure : use.run omap = Pure.pure result) : P tier result := by
  have used := kept.used tier omap use holds
  rw [isPure] at used
  exact used {} trivial

theorem KeptByUses.writeStore (kept : KeptByUses config P) (writes : List StepWriteReq)
    (holds : P tier omap) : P tier (writes.foldl OmapInterface.writeStore omap) := by
  induction writes generalizing omap with
  | nil => exact holds
  | cons request rest ih => exact ih (kept.pure holds (.writeStore request) rfl)

end Uses

namespace TieredOMap

variable {s : TieredOMap Ω} {config : TieredOMapConfig} {isDa : Bool} {P : ∀ tier, Ω tier → Prop}
  (kept : KeptByUses config P)

include kept

theorem Tended.searchTier (tended : s.Tended isDa P) (tier : Tier) (key : Int) :
    Yields (s.searchTier tier key) (fun outcome => outcome.2.Tended isDa P) := by
  refine Prog.ends_bind (kept.search (tended.omap tier) key none) ?_
  rintro ⟨ref, omap⟩ holds
  exact Prog.ends_pure (tended.setOmap holds)

theorem Tended.remove (tended : s.Tended isDa P) (tier : Tier) (key : Int) :
    Yields (s.onTier tier (fun omap => OmapInterface.remove omap key)) (·.Tended isDa P) :=
  tended.onTier (fun omap holds => kept.used tier omap (.call (.remove key)) holds)

theorem Tended.insert (tended : s.Tended isDa P) (tier : Tier) (key : Int) (value : Bytes) :
    Yields (s.onTier tier (fun omap => OmapInterface.insert omap key value)) (·.Tended isDa P) :=
  tended.onTier (fun omap holds => kept.used tier omap (.call (.insert key value)) holds)

theorem Tended.dummyAccess (tended : s.Tended isDa P) (tier : Tier) :
    Yields (s.onTier tier OmapInterface.dummyAccess) (·.Tended isDa P) :=
  tended.onTier (fun omap holds => kept.used tier omap (.call .dummyAccess) holds)

theorem Tended.dummyTier (tended : s.Tended isDa P) (tier : Tier) :
    Yields (s.dummyTier tier) (·.Tended isDa P) := by
  unfold TieredOMap.dummyTier
  split
  · exact tended.dummyAccess kept tier
  · exact tended.onTier (fun omap holds => kept.used tier omap .partialDummyAccess holds)

theorem Tended.extractKeys (tended : s.Tended isDa P) (keys : List Int) :
    Yields (s.extractKeys keys) (fun outcome => outcome.2.Tended isDa P) := by
  induction keys generalizing s with
  | nil => exact Prog.ends_pure tended
  | cons key rest ih =>
      refine Prog.ends_bind (tended.searchTier kept .hot key) ?_
      rintro ⟨ref, searched⟩ searchedTended
      refine Prog.ends_bind (Tended.remove kept searchedTended .hot key) ?_
      intro removed removedTended
      refine Prog.ends_bind (ih { removedTended with }) ?_
      rintro ⟨entries, extracted⟩ extractedTended
      exact Prog.ends_pure extractedTended

theorem Tended.extractCache (tended : s.Tended isDa P) :
    Yields s.extractCache (·.Tended isDa P) := by
  unfold TieredOMap.extractCache
  dsimp only
  split
  · exact Prog.ends_fail trivial
  · refine Prog.ends_bind (tended.extractKeys kept _) ?_
    rintro ⟨entries, extracted⟩ extractedTended
    exact Prog.ends_pure { extractedTended with }

theorem Tended.promote (tended : s.Tended isDa P) (key : Int) :
    Yields (s.promote key) (·.Tended isDa P) := by
  unfold TieredOMap.promote
  split
  · exact Prog.ends_pure tended
  · refine Prog.ends_bind (tended.searchTier kept .cold key) ?_
    rintro ⟨ref, searched⟩ searchedTended
    refine Prog.ends_bind (Tended.remove kept searchedTended .cold key) ?_
    intro removed removedTended
    refine Prog.ends_bind (removedTended.insert kept .hot key ref) ?_
    exact fun inserted insertedTended => Prog.ends_pure { insertedTended with }

theorem Tended.demote (tended : s.Tended isDa P) (key : Int) :
    Yields (s.demote key) (·.Tended isDa P) := by
  unfold TieredOMap.demote
  split
  · exact Prog.ends_pure tended
  · refine Prog.ends_bind (tended.searchTier kept .hot key) ?_
    rintro ⟨ref, searched⟩ searchedTended
    refine Prog.ends_bind (Tended.remove kept searchedTended .hot key) ?_
    intro removed removedTended
    refine Prog.ends_bind (removedTended.insert kept .cold key ref) ?_
    exact fun inserted insertedTended => Prog.ends_pure { insertedTended with }

theorem Tended.enableMaintenance (tended : s.Tended isDa P) (mc : MaintenanceConfig) :
    Yields (s.enableMaintenance mc) (·.Tended isDa P) :=
  Tended.extractCache kept { tended with kind := tended.kind }

/-! ## Accesses on their own -/

variable [Cipher]

omit kept [∀ tier, OmapInterface (Ω tier)] in
theorem Tended.dataAccess (tended : s.Tended isDa P) (blk : Int) (newValue : Option Bytes) :
    Yields (s.dataAccess blk newValue) (fun outcome => outcome.2.Tended isDa P) := by
  unfold TieredOMap.dataAccess
  split
  · exact Prog.ends_bind (yields_any _) (fun _ _ => Prog.ends_pure { tended with })
  · exact Prog.ends_bind (yields_any _) (fun _ _ => Prog.ends_pure { tended with })

omit kept [∀ tier, OmapInterface (Ω tier)] in
theorem Tended.dataDummy (tended : s.Tended isDa P) : Yields s.dataDummy (·.Tended isDa P) :=
  Prog.ends_bind (yields_any _) (fun _ _ => Prog.ends_pure { tended with })

omit kept [∀ tier, OmapInterface (Ω tier)] [Cipher] in
theorem Tended.demoteToCache (tended : s.Tended isDa P) (scanKey fp : Int) (ref : Bytes) :
    Yields (s.demoteToCache scanKey fp ref) (·.Tended isDa P) :=
  Prog.ends_bind (yields_any _) (fun _ _ => Prog.ends_pure { tended with })

omit kept [∀ tier, OmapInterface (Ω tier)] [Cipher] in
theorem Tended.promoteToCache (tended : s.Tended isDa P) (key fp : Int) (ref : Bytes) :
    Yields (s.promoteToCache key fp ref) (·.Tended isDa P) :=
  Prog.ends_bind (yields_any _) (fun _ _ => Prog.ends_pure { tended with })

omit kept [∀ tier, OmapInterface (Ω tier)] [Cipher] in
theorem Tended.clearPending (tended : s.Tended isDa P) : s.clearPending.Tended isDa P :=
  { tended with }

omit kept [∀ tier, OmapInterface (Ω tier)] [Cipher] in
theorem Tended.addPhysHot (tended : s.Tended isDa P) (key : Int) :
    (s.addPhysHot key).Tended isDa P := { tended with }

omit [Cipher] in
/-- The key of a queued demotion is moved to the cache if it is still hot. -/
theorem Tended.demoteQueued (tended : s.Tended isDa P) (dk fp : Int) :
    Yields (if dk ≠ invalidKey ∧ dk ∈ s.physHotKeys then do
        let (ref, s) ← s.searchTier .hot dk
        let s ← s.onTier .hot (fun omap => OmapInterface.remove omap dk)
        s.demoteToCache dk fp ref
      else s.onTier .hot OmapInterface.dummyAccess) (·.Tended isDa P) := by
  split
  · refine Prog.ends_bind (tended.searchTier kept .hot dk) ?_
    rintro ⟨ref, searched⟩ searchedTended
    refine Prog.ends_bind (Tended.remove kept searchedTended .hot dk) ?_
    exact fun removed removedTended => removedTended.demoteToCache dk fp ref
  · exact tended.dummyAccess kept .hot

omit [Cipher] in
theorem Tended.doDaScanStep (tended : s.Tended isDa P) :
    Yields s.doDaScanStep (·.Tended isDa P) := by
  unfold TieredOMap.doDaScanStep
  cases s.daPendingDemotions with
  | nil => exact tended.demoteQueued kept invalidKey 0
  | cons head rest =>
      have taken : Tended { s with daPendingDemotions := rest } isDa P := { tended with }
      exact taken.demoteQueued kept head.1 head.2

theorem Tended.scanNextKey (tended : s.Tended isDa P) :
    Yields s.scanNextKey (·.Tended isDa P) := by
  refine Prog.ends_bind (Tended.searchTier kept tended.nextScanKey .hot _) ?_
  rintro ⟨ref, searched⟩ searchedTended
  refine Prog.ends_bind (Tended.dataAccess searchedTended _ none) ?_
  rintro ⟨raw, read⟩ readTended
  dsimp only at readTended ⊢
  split
  · refine Prog.ends_bind (readTended.remove kept .hot _) ?_
    exact fun removed removedTended => removedTended.demoteToCache _ _ ref
  · exact Prog.ends_pure readTended

theorem Tended.doScanStep (tended : s.Tended isDa P) :
    Yields s.doScanStep (·.Tended isDa P) := by
  have dummies : Yields (do
      let s ← s.onTier .hot OmapInterface.dummyAccess
      s.dataDummy) (·.Tended isDa P) :=
    Prog.ends_bind (tended.dummyAccess kept .hot) (fun _ dummied => dummied.dataDummy)
  unfold TieredOMap.doScanStep
  split
  · exact dummies
  · split
    · exact tended.doDaScanStep kept
    · split
      · exact dummies
      · exact tended.scanNextKey kept

omit [Cipher] in
theorem Tended.doHotInsertStep (tended : s.Tended isDa P) :
    Yields s.doHotInsertStep (·.Tended isDa P) := by
  unfold TieredOMap.doHotInsertStep
  split
  · exact Prog.ends_bind (tended.insert kept .hot _ _)
      (fun _ inserted => Prog.ends_pure (inserted.addPhysHot _).clearPending)
  · exact tended.dummyAccess kept .hot

omit [Cipher] in
theorem Tended.doColdInsertStep (tended : s.Tended isDa P) :
    Yields s.doColdInsertStep (·.Tended isDa P) := by
  unfold TieredOMap.doColdInsertStep
  split
  · exact Prog.ends_bind (tended.insert kept .cold _ _)
      (fun _ inserted => Prog.ends_pure inserted.clearPending)
  · exact tended.dummyAccess kept .cold

theorem Tended.staggeredMaintenance (tended : s.Tended isDa P) (done : Piggybacked) :
    Yields (s.staggeredMaintenance done) (·.Tended isDa P) := by
  refine Prog.ends_bind
    (yields_doWhen (fun _ => tended.doScanStep kept) (fun _ => tended)) ?_
  intro scanned scannedTended
  refine Prog.ends_bind
    (yields_doWhen (fun _ => scannedTended.doHotInsertStep kept) (fun _ => scannedTended)) ?_
  intro inserted insertedTended
  exact yields_doWhen (fun _ => insertedTended.doColdInsertStep kept) (fun _ => insertedTended)

omit kept [∀ tier, OmapInterface (Ω tier)] in
theorem Tended.restamp (tended : s.Tended isDa P) (ref : Bytes) (newValue : Option Bytes) :
    Yields (s.restamp ref newValue) (fun outcome => outcome.2.Tended isDa P) := by
  refine Prog.ends_bind (Tended.dataAccess tended _ none) ?_
  rintro ⟨raw, read⟩ readTended
  refine Prog.ends_bind (Tended.dataAccess readTended _ _) ?_
  rintro ⟨_, written⟩ writtenTended
  exact Prog.ends_pure writtenTended

omit [Cipher] in
/-- Both maps are hidden by dummy accesses. -/
theorem Tended.dummies (tended : s.Tended isDa P) (result : AccessResult) :
    Yields (do
      let s ← s.onTier .hot OmapInterface.dummyAccess
      let s ← s.dummyTier .cold
      return (result, s)) (fun outcome => outcome.2.Tended isDa P) := by
  refine Prog.ends_bind (tended.dummyAccess kept .hot) ?_
  intro hotDummied hotTended
  refine Prog.ends_bind (hotTended.dummyTier kept .cold) ?_
  exact fun coldDummied coldTended => Prog.ends_pure coldTended

theorem Tended.accessPending (tended : s.Tended isDa P) (newValue : Option Bytes) :
    Yields (s.accessPending newValue) (fun outcome => outcome.2.Tended isDa P) := by
  refine Prog.ends_bind (tended.restamp _ newValue) ?_
  rintro ⟨⟨value, fp⟩, restamped⟩ stampedTended
  exact stampedTended.dummies kept _

theorem Tended.accessCache (tended : s.Tended isDa P) (key : Int) (newValue : Option Bytes) :
    Yields (s.accessCache key newValue) (fun outcome => outcome.2.Tended isDa P) := by
  have touched : Tended { s with cacheDataRefs := s.cacheDataRefs.touch key [] } isDa P :=
    { tended with }
  refine Prog.ends_bind (touched.restamp _ newValue) ?_
  rintro ⟨⟨value, fp⟩, restamped⟩ stampedTended
  exact (Tended.withMgr stampedTended _).dummies kept _

omit [Cipher] in
theorem Tended.reactivePromotion (tended : s.Tended isDa P) (key fp : Int) (ref : Bytes) :
    Yields (s.reactivePromotion key fp ref) (·.Tended isDa P) := by
  unfold TieredOMap.reactivePromotion
  split
  · split
    · refine Prog.ends_bind (tended.remove kept .cold key) ?_
      exact fun removed removedTended => removedTended.promoteToCache key fp ref
    · exact tended.dummyAccess kept .cold
  · exact Prog.ends_pure tended

theorem Tended.accessSequential (tended : s.Tended isDa P) (key : Int)
    (newValue : Option Bytes) :
    Yields (s.accessSequential key newValue) (fun outcome => outcome.2.Tended isDa P) := by
  refine Prog.ends_bind (tended.searchTier kept _ key) ?_
  rintro ⟨ref, searched⟩ searchedTended
  refine Prog.ends_bind (Tended.restamp searchedTended ref newValue) ?_
  rintro ⟨⟨value, fp⟩, restamped⟩ stampedTended
  refine Prog.ends_bind (Tended.dummyTier kept stampedTended _) ?_
  intro dummied dummiedTended
  refine Prog.ends_bind (dummiedTended.reactivePromotion kept key fp ref) ?_
  exact fun final finalTended => Prog.ends_pure finalTended

end TieredOMap

/-! ## Rounds -/

namespace Rounds

variable {r : Rounds Ω} {config : TieredOMapConfig} {isDa : Bool} {P : ∀ tier, Ω tier → Prop}
  (kept : KeptByUses config P)

include kept

theorem Tended.modifyUse (tended : r.Tended isDa P) {tier : Tier} {f : Ω tier → Ω tier}
    (use : OmapUse) (isUse : ∀ omap : Ω tier, use.run omap = pure (f omap)) :
    (r.modifyOmap tier f).Tended isDa P :=
  tended.modifyOmap (fun omap holds => kept.pure holds use (isUse omap))

theorem Tended.modifyWhen (tended : r.Tended isDa P) {due : Bool} {tier : Tier}
    {f : Ω tier → Ω tier} (use : OmapUse) (isUse : ∀ omap : Ω tier, use.run omap = pure (f omap)) :
    (if due then r.modifyOmap tier f else r).Tended isDa P := by
  split
  · exact tended.modifyUse kept use isUse
  · exact tended

theorem Tended.beginInsertWhen (tended : r.Tended isDa P) (due : Bool) (tier : Tier) (key : Int)
    (value : Bytes) :
    Yields (doWhen due (r.onOmap tier (fun omap =>
      OmapInterface.beginPiggybackInsert omap key value)) r) (·.Tended isDa P) :=
  yields_doWhen (fun _ => tended.onOmap (fun omap holds =>
    kept.used tier omap (.beginPiggybackInsert key value) holds)) (fun _ => tended)

theorem Tended.begin_ {s : TieredOMap Ω} (tended : s.Tended isDa P) (q : Query) :
    Yields (Rounds.begin_ s q) (·.Tended isDa P) := by
  have searching : ∀ r : Rounds Ω, r.Tended isDa P → ∀ tier, (r.modifyOmap tier (fun omap =>
      OmapInterface.beginStepSearch omap q.key none)).Tended isDa P :=
    fun r tended tier => tended.modifyUse kept (.beginStepSearch q.key none) (fun _ => rfl)
  have dummying : ∀ r : Rounds Ω, r.Tended isDa P → ∀ (full : Bool) tier, (r.modifyOmap tier
      (if full then OmapInterface.beginStepDummy
        else OmapInterface.beginStepPartialDummy)).Tended isDa P := by
    intro r tended full tier
    cases full with
    | true => exact tended.modifyUse kept .beginStepDummy (fun _ => rfl)
    | false => exact tended.modifyUse kept .beginStepPartialDummy (fun _ => rfl)
  have scanning : ∀ r : Rounds Ω, r.Tended isDa P → Tended (if q.scanOnPiggyback then
      (r.modifyOmap .hot (fun omap => OmapInterface.beginPiggybackSearch omap q.scanKey)).modifyOmap
        .hot (fun omap => OmapInterface.setPiggybackDecisionEnabled omap true)
      else r) isDa P := by
    intro r tended
    split
    · refine Tended.modifyUse kept ?_ (.setPiggybackDecisionEnabled true) (fun _ => rfl)
      exact tended.modifyUse kept (.beginPiggybackSearch q.scanKey) (fun _ => rfl)
    · exact tended
  unfold Rounds.begin_
  dsimp only
  refine Prog.ends_bind (Q := (·.Tended isDa P)) (Tended.beginInsertWhen kept ?_ _ _ _ _) ?_
  · refine scanning _ (dummying _ (searching _ ?_ _) _ _)
    exact tended
  intro hotBegun hotTended
  refine Prog.ends_bind (Tended.beginInsertWhen kept hotTended _ _ _ _) ?_
  intro coldBegun coldTended
  refine Prog.ends_pure ?_
  exact Tended.modifyWhen kept (Tended.modifyWhen kept (Tended.modifyWhen kept coldTended
    (.setStepDecisionEnabled true) (fun _ => rfl)) .beginPiggybackDummy (fun _ => rfl))
    .beginPiggybackDummy (fun _ => rfl)

theorem Tended.nextRound (tended : r.Tended isDa P) (tier : Tier) (active : Bool) :
    Yields (r.nextRound tier active) (fun outcome => outcome.2.Tended isDa P) := by
  unfold Rounds.nextRound
  split
  · refine Prog.ends_bind (kept.stepNextRound (TieredOMap.Tended.omap tended tier)) ?_
    rintro ⟨reads, omap⟩ holds
    exact Prog.ends_pure (tended.setOmap holds)
  · exact Prog.ends_pure tended

theorem Tended.applyReads (tended : r.Tended isDa P) (tier : Tier) (reads : List StepReadReq) :
    (r.applyReads tier reads).Tended isDa P := by
  unfold Rounds.applyReads
  split
  · exact tended
  · exact tended.modifyOmap (fun omap holds =>
      kept.pure holds (.stepApplyReads (reads.map (OmapInterface.readStore omap))) rfl)

theorem Tended.fetch [Cipher] (tended : r.Tended isDa P) (p : RoundPlan) :
    Yields (r.fetch p) (·.Tended isDa P) := by
  refine Prog.ends_bind (tended.nextRound kept _ _) ?_
  rintro ⟨searcherReads, r'⟩ tended'
  refine Prog.ends_bind (Tended.nextRound kept tended' _ _) ?_
  rintro ⟨dummyReads, r''⟩ tended''
  refine Prog.ends_bind (yields_any _) (fun _ _ => Prog.ends_pure ?_)
  have applied := Tended.applyReads kept (Tended.applyReads kept tended'' r''.searcher
    searcherReads) r''.dummy dummyReads
  exact ((applied.applyData _ _ _).applyData _ _ _).applyData _ _ _

theorem Tended.process (tended : r.Tended isDa P) (p : RoundPlan) :
    Yields (r.process p) (·.Tended isDa P) := by
  have processes : ∀ {r : Rounds Ω} (tier : Tier), r.Tended isDa P →
      Yields (r.onOmap tier OmapInterface.stepProcess) (·.Tended isDa P) :=
    fun tier tended => tended.onOmap (fun omap holds => kept.used tier omap .stepProcess holds)
  refine Prog.ends_bind (yields_doWhen (fun _ => processes _ tended) (fun _ => tended)) ?_
  exact fun r' tended' => yields_doWhen (fun _ => processes _ tended') (fun _ => tended')

theorem Tended.decidePromotion (tended : r.Tended isDa P) :
    Yields r.decidePromotion (·.Tended isDa P) := by
  unfold Rounds.decidePromotion
  dsimp only
  refine Prog.ends_bind (tended.onOmap ?_) (fun r' tended' => Prog.ends_pure tended')
  intro omap holds
  split
  · exact kept.used _ omap .stepCommitRemove holds
  · exact kept.used _ omap .stepCommitNoop holds

theorem Tended.finishDataRead (tended : r.Tended isDa P) (q : Query) (p : RoundPlan) :
    Yields (r.finishDataRead q p) (·.Tended isDa P) := by
  unfold Rounds.finishDataRead
  split
  · refine Prog.ends_bind
      (yields_doWhen (fun _ => tended.rewriteBlock q) (fun _ => tended)) ?_
    intro r' tended'
    have moved : Tended { r' with data := { r'.data with st := .needWrite } } isDa P := tended'
    exact yields_doWhen (fun _ => moved.decidePromotion kept) (fun _ => moved)
  · exact Prog.ends_pure tended

theorem Tended.decideDemotion (tended : r.Tended isDa P) (q : Query) :
    Yields (r.decideDemotion q) (·.Tended isDa P) := by
  refine Prog.ends_bind (yields_any _) ?_
  rintro ⟨block, dataOram⟩ _
  dsimp only
  have moved : Tended { r with s := { r.s with dataOram } } isDa P := { tended with }
  refine Prog.ends_bind (moved.onOmap ?_) ?_
  · intro omap holds
    split
    · exact kept.used .hot omap .piggybackCommitRemove holds
    · exact kept.used .hot omap .piggybackCommitNoop holds
  · intro r' tended'
    exact Prog.ends_pure { (tended' : r'.s.Tended isDa P) with }

theorem Tended.finishScanRead (tended : r.Tended isDa P) (q : Query) (p : RoundPlan) :
    Yields (r.finishScanRead q p) (·.Tended isDa P) := by
  unfold Rounds.finishScanRead
  split
  · refine Prog.ends_bind
      (yields_doWhen (fun _ => tended.decideDemotion kept q) (fun _ => tended)) ?_
    exact fun r' tended' => Prog.ends_pure tended'
  · exact Prog.ends_pure tended

theorem Tended.prepareWrites (tended : r.Tended isDa P) (tier : Tier) (active : Bool) :
    Yields (r.prepareWrites tier active) (fun outcome => outcome.2.Tended isDa P) := by
  unfold Rounds.prepareWrites
  split
  · refine Prog.ends_bind (kept.stepPrepareWrites (TieredOMap.Tended.omap tended tier)) ?_
    rintro ⟨writes, omap⟩ holds
    exact Prog.ends_pure (tended.setOmap holds)
  · exact Prog.ends_pure tended

omit kept in
theorem Tended.triggerDecision (tended : r.Tended isDa P) (q : Query) :
    Yields (r.triggerDecision q) (·.Tended isDa P) := by
  unfold Rounds.triggerDecision
  split
  · refine Prog.ends_bind (Tended.scheduleRead tended _ _) ?_
    rintro ⟨data, s⟩ sTended
    exact Prog.ends_pure sTended
  · exact Prog.ends_pure tended

omit kept in
theorem Tended.triggerScanDecision (tended : r.Tended isDa P) (q : Query) :
    Yields (r.triggerScanDecision q) (·.Tended isDa P) := by
  unfold Rounds.triggerScanDecision
  split
  · refine Prog.ends_bind (Tended.scheduleRead tended _ _) ?_
    rintro ⟨scanData, s⟩ sTended
    exact Prog.ends_pure sTended
  · exact Prog.ends_pure tended

omit kept in
theorem Tended.finishSearcher (tended : r.Tended isDa P) :
    Yields r.finishSearcher (·.Tended isDa P) := by
  unfold Rounds.finishSearcher
  split
  · split
    · exact Prog.ends_pure tended
    · refine Prog.ends_bind (Tended.scheduleRead tended _ _) ?_
      rintro ⟨data, s⟩ sTended
      exact Prog.ends_pure sTended
  · exact Prog.ends_pure tended

theorem Tended.writeBack [Cipher] (tended : r.Tended isDa P) (q : Query) (p : RoundPlan) :
    Yields (r.writeBack q p) (·.Tended isDa P) := by
  refine Prog.ends_bind (tended.prepareWrites kept _ _) ?_
  rintro ⟨searcherWrites, searched⟩ searchedTended
  refine Prog.ends_bind (Tended.prepareWrites kept searchedTended _ _) ?_
  rintro ⟨dummyWrites, dummied⟩ dummiedTended
  refine Prog.ends_bind (Tended.evictData dummiedTended _) ?_
  rintro ⟨dataPaths, evicted⟩ evictedTended
  refine Prog.ends_bind (Tended.startDummy evictedTended q) ?_
  intro started startedTended
  refine Prog.ends_bind (startedTended.evictData _) ?_
  rintro ⟨dummyPaths, evicted'⟩ evictedTended'
  refine Prog.ends_bind (Tended.evictData (Tended.closeDummy evictedTended') _) ?_
  rintro ⟨scanPaths, evicted''⟩ evictedTended''
  refine Prog.ends_bind (yields_any _) (fun _ _ => Prog.ends_pure ?_)
  have written : ∀ r : Rounds Ω, r.Tended isDa P → ∀ tier (writes : List StepWriteReq),
      (r.modifyOmap tier (fun omap => writes.foldl OmapInterface.writeStore omap)).Tended isDa P :=
    fun r tended tier writes =>
      tended.modifyOmap (fun omap holds => kept.writeStore writes holds)
  have all := written _ (written _ (Tended.closeScan evictedTended'') evicted''.closeScan.searcher
    searcherWrites) evicted''.closeScan.dummy dummyWrites
  exact { (all : TieredOMap.Tended _ isDa P) with }

theorem Tended.round [Cipher] (tended : r.Tended isDa P) (q : Query) :
    Yields (r.round q) (·.Tended isDa P) := by
  refine Prog.ends_bind (tended.fetch kept _) (fun fetched fetchedTended => ?_)
  refine Prog.ends_bind (fetchedTended.process kept _) (fun processed processedTended => ?_)
  refine Prog.ends_bind (processedTended.finishDataRead kept q _) (fun read readTended => ?_)
  refine Prog.ends_bind ((readTended.finishDummyRead _).finishScanRead kept q _)
    (fun scanned scannedTended => ?_)
  refine Prog.ends_bind (scannedTended.triggerDecision q) (fun decided decidedTended => ?_)
  refine Prog.ends_bind (decidedTended.triggerScanDecision q) (fun decided' decidedTended' => ?_)
  refine Prog.ends_bind decidedTended'.finishSearcher (fun finished finishedTended => ?_)
  exact finishedTended.writeBack kept q _

theorem Tended.loop [Cipher] (q : Query) (fuel : Nat) (tended : r.Tended isDa P) :
    Yields (r.loop q fuel) (·.Tended isDa P) := by
  induction fuel generalizing r with
  | zero =>
      unfold Rounds.loop
      split
      · exact Prog.ends_pure tended
      · exact Prog.ends_fail trivial
  | succ fuel ih =>
      unfold Rounds.loop
      split
      · exact Prog.ends_pure tended
      · exact Prog.ends_bind (tended.round kept q) (fun _ tended' => ih tended')

end Rounds

namespace TieredOMap

variable [Cipher] {s : TieredOMap Ω} {config : TieredOMapConfig} {isDa : Bool}
  {P : ∀ tier, Ω tier → Prop} (kept : KeptByUses config P)

include kept

theorem Tended.interleavedAccess (tended : s.Tended isDa P) (fuel : Nat) (q : Query) :
    Yields (s.interleavedAccess fuel q) (fun outcome => outcome.2.Tended isDa P) := by
  refine Prog.ends_bind (Rounds.Tended.begin_ kept tended q) (fun begun begunTended => ?_)
  exact Prog.ends_bind (begunTended.loop kept q fuel) (fun _ looped => Prog.ends_pure looped)

omit [Cipher] in
theorem Tended.interleavedPromotion (tended : s.Tended isDa P) (key : Int) (isHotLogical : Bool)
    (ir : AccessResult) :
    Yields (s.interleavedPromotion key isHotLogical ir) (·.Tended isDa P) := by
  unfold TieredOMap.interleavedPromotion
  split
  · split
    · exact tended.promoteToCache _ _ _
    · exact Prog.ends_pure tended
  · split
    · refine Prog.ends_bind (tended.remove kept .cold key) ?_
      exact fun removed removedTended => removedTended.promoteToCache _ _ _
    · split
      · exact tended.dummyAccess kept .cold
      · exact Prog.ends_pure tended

theorem Tended.accessInterleaved (tended : s.Tended isDa P) (fuel : Nat) (key : Int)
    (newValue : Option Bytes) :
    Yields (s.accessInterleaved fuel key newValue) (fun outcome => outcome.2.2.Tended isDa P) := by
  have asked : (s.piggybackQuery key newValue).2.Tended isDa P := by
    unfold piggybackQuery
    dsimp only
    split
    · split
      · exact tended.nextScanKey
      · exact tended
    · exact tended
  refine Prog.ends_bind (asked.interleavedAccess kept fuel _) ?_
  rintro ⟨ir, accessed⟩ accessedTended
  refine Prog.ends_bind (yields_doWhen (fun _ => Tended.demoteToCache accessedTended _ _ _)
    (fun _ => accessedTended)) ?_
  intro demoted demotedTended
  dsimp only
  refine Prog.ends_bind (Q := (·.Tended isDa P)) (Tended.interleavedPromotion kept ?_ key _ ir) ?_
  · split
    · split
      · exact (demotedTended.addPhysHot _).clearPending.clearPending
      · exact demotedTended.clearPending
    · split
      · exact (demotedTended.addPhysHot _).clearPending
      · exact demotedTended
  · exact fun promoted promotedTended => Prog.ends_pure promotedTended

theorem Tended.daPiggybackScan (tended : s.Tended isDa P) :
    Yields s.daPiggybackScan (·.Tended isDa P) := by
  unfold TieredOMap.daPiggybackScan
  split
  · refine Prog.ends_bind (kept.scanned .hot _ tended.hot) ?_
    rintro ⟨⟨key, value⟩, omap⟩ holds
    have scanned : Tended { s with hotOmap := omap } isDa P := { tended with hot := holds }
    dsimp only
    split
    · refine Prog.ends_bind (scanned.dataAccess _ none) ?_
      rintro ⟨raw, read⟩ readTended
      dsimp only at readTended ⊢
      split
      · exact Prog.ends_pure { readTended with }
      · exact Prog.ends_pure readTended
    · exact Prog.ends_pure scanned
  · exact Prog.ends_pure tended

theorem Tended.accessPath (tended : s.Tended isDa P) (fuel : Nat) (key : Int)
    (newValue : Option Bytes) :
    Yields (s.accessPath fuel key newValue) (fun outcome => outcome.2.2.Tended isDa P) := by
  have alone : ∀ path : Rand (AccessResult × TieredOMap Ω),
      Yields path (fun outcome => outcome.2.Tended isDa P) →
      Yields (withoutPiggyback path) (fun outcome => outcome.2.2.Tended isDa P) := by
    intro path served
    refine Prog.ends_bind served ?_
    rintro ⟨result, final⟩ finalTended
    exact Prog.ends_pure finalTended
  unfold TieredOMap.accessPath
  split
  · exact alone _ (tended.accessPending kept newValue)
  · split
    · exact alone _ (tended.accessCache kept key newValue)
    · split
      · exact tended.accessInterleaved kept fuel key newValue
      · exact alone _ (tended.accessSequential kept key newValue)

theorem Tended.accessEpoch (tended : s.Tended isDa P) (fuel : Nat) (key : Int)
    (newValue : Option Bytes) :
    Yields (s.accessEpoch fuel key newValue) (fun outcome => outcome.2.Tended isDa P) := by
  refine Prog.ends_bind ((tended.withMgr _).accessPath kept fuel key newValue) ?_
  rintro ⟨result, done, served⟩ servedTended
  refine Prog.ends_bind (Tended.daPiggybackScan kept servedTended) ?_
  intro scanned scannedTended
  refine Prog.ends_bind (scannedTended.staggeredMaintenance kept done) ?_
  exact fun final finalTended => Prog.ends_pure finalTended

theorem Tended.accessPlainSequential (tended : s.Tended isDa P) (key : Int)
    (newValue : Option Bytes) :
    Yields (s.accessPlainSequential key newValue) (fun outcome => outcome.2.Tended isDa P) := by
  have dummyRead : ∀ s : TieredOMap Ω, s.Tended isDa P → ∀ due,
      Yields (doWhen due s.dataDummy s) (·.Tended isDa P) :=
    fun s tended due => yields_doWhen (fun _ => tended.dataDummy) (fun _ => tended)
  unfold TieredOMap.accessPlainSequential
  split
  · refine Prog.ends_bind (tended.searchTier kept .hot key) ?_
    rintro ⟨ref, searched⟩ searchedTended
    refine Prog.ends_bind (Tended.dataAccess searchedTended _ newValue) ?_
    rintro ⟨value, read⟩ readTended
    refine Prog.ends_bind (Tended.dummyTier kept readTended .cold) ?_
    intro dummied dummiedTended
    exact Prog.ends_bind (dummyRead _ dummiedTended _)
      (fun _ finalTended => Prog.ends_pure finalTended)
  · refine Prog.ends_bind (tended.dummyAccess kept .hot) ?_
    intro dummied dummiedTended
    refine Prog.ends_bind (dummiedTended.searchTier kept .cold key) ?_
    rintro ⟨ref, searched⟩ searchedTended
    exact Prog.ends_bind (dummyRead _ searchedTended _)
      (fun _ readTended => readTended.dataAccess _ newValue)

theorem Tended.access (tended : s.Tended isDa P) (fuel : Nat) (key : Int)
    (newValue : Option Bytes) :
    Yields (s.access fuel key newValue) (fun outcome => outcome.2.Tended isDa P) := by
  unfold TieredOMap.access
  split
  · exact tended.accessEpoch kept fuel key newValue
  · unfold accessPlain
    split
    · refine Prog.ends_bind (tended.interleavedAccess kept fuel _) ?_
      exact fun outcome accessed => Prog.ends_pure accessed
    · refine Prog.ends_bind (tended.accessPlainSequential kept key newValue) ?_
      exact fun outcome accessed => Prog.ends_pure accessed

theorem tended_init (allData : List (Int × Bytes)) (hotKeys : List Int) :
    Yields (TieredOMap.init (Ω := Ω) config allData hotKeys) (·.Tended config.isDaHot P) := by
  refine Prog.ends_bind (yields_any _) (fun newOram _ => ?_)
  refine Prog.ends_bind (yields_any _) (fun dataOram _ => ?_)
  refine Prog.ends_bind (kept.made .hot _ false _) (fun newHot newHotHolds => ?_)
  refine Prog.ends_bind (kept.made .cold _ true _) (fun newCold newColdHolds => ?_)
  refine Prog.ends_bind (kept.used .hot newHot (.init _) newHotHolds) (fun hot hotHolds => ?_)
  refine Prog.ends_bind (kept.used .cold newCold (.init _) newColdHolds) (fun cold coldHolds => ?_)
  dsimp only
  split
  · exact Tended.extractCache kept ⟨rfl, hotHolds, coldHolds⟩
  · exact Prog.ends_pure ⟨rfl, hotHolds, coldHolds⟩

/-! ## Every state -/

/-- The states of a tiered map that the calls of its interface lead to. -/
inductive InService (config : TieredOMapConfig) : TieredOMap Ω → Prop where
  | init {allData : List (Int × Bytes)} {hotKeys : List Int} {world world' : World}
      {s : TieredOMap Ω}
      (run : (TieredOMap.init config allData hotKeys).runFrom world = (.ok s, world')) :
      InService config s
  | setChannel {s : TieredOMap Ω} (channel : Bool) (inService : InService config s) :
      InService config { s with channel }
  | access {s s' : TieredOMap Ω} {fuel : Nat} {key : Int} {newValue : Option Bytes}
      {world world' : World} {result : AccessResult} (inService : InService config s)
      (run : (s.access fuel key newValue).runFrom world = (.ok (result, s'), world')) :
      InService config s'
  | promote {s s' : TieredOMap Ω} {key : Int} {world world' : World}
      (inService : InService config s) (run : (s.promote key).runFrom world = (.ok s', world')) :
      InService config s'
  | demote {s s' : TieredOMap Ω} {key : Int} {world world' : World}
      (inService : InService config s) (run : (s.demote key).runFrom world = (.ok s', world')) :
      InService config s'
  | enableMaintenance {s s' : TieredOMap Ω} {mc : MaintenanceConfig} {world world' : World}
      (inService : InService config s)
      (run : (s.enableMaintenance mc).runFrom world = (.ok s', world')) : InService config s'

/-- In every state both maps have what new maps have and no use breaks. -/
theorem InService.tended (inService : InService config s) : s.Tended config.isDaHot P := by
  induction inService with
  | init run => exact (tended_init kept _ _).returned run
  | setChannel channel _ ih => exact { ih with }
  | access _ run ih => exact (Tended.access kept ih _ _ _).returned run
  | promote _ run ih => exact (Tended.promote kept ih _).returned run
  | demote _ run ih => exact (Tended.demote kept ih _).returned run
  | enableMaintenance _ run ih => exact (Tended.enableMaintenance kept ih _).returned run

end TieredOMap

end TieredOmap
