import Mathlib.Data.Finset.Card
import TieredOMap.Oram.BinaryTreeStorage
import TieredOMap.Tiered.Config

/-!
# The interface of an oblivious map

`OmapInterface` lists the operations a tiered map uses of its tiers, with the
defaults of the base class. `make` is the factory `make_omap` of
`TieredOMap::init`. A batched round names stores by id; `readStore` and
`writeStore` are the server's side of a batch for the stores of one map.

`LawfulOmap` says that the operations used one at a time are those of a finite
map of bounded size.
-/

namespace TieredOmap

/-- `StepReadReq`. -/
structure StepReadReq where
  storeId : Nat := 0
  leaf : Int := invalidLeaf
deriving DecidableEq, Repr, Inhabited

/-- `StepWriteReq`. -/
structure StepWriteReq where
  storeId : Nat := 0
  data : PathData := []
deriving DecidableEq, Repr, Inhabited

/-- `OmapInterface`. -/
class OmapInterface (Ω : Type) where
  make : (config : TieredOMapConfig) → (capacity : Int) → (isCold : Bool) → (hotCount : Int) →
    Rand Ω
  init : Ω → List (Int × Bytes) → Rand Ω
  search : Ω → Int → Option Bytes → Rand (Bytes × Ω)
  insert : Ω → Int → Bytes → Rand Ω
  remove : Ω → Int → Rand Ω
  dummyAccess : Ω → Rand Ω
  partialDummyAccess : Ω → Rand Ω := dummyAccess
  /-- `DaOstOmap::piggyback_scan_step`; only called on a DA map. -/
  piggybackScanStep : Ω → Rand ((Int × Bytes) × Ω) := fun omap => return ((invalidKey, []), omap)
  supportsInterleaved : Ω → Bool := fun _ => false
  beginStepSearch : Ω → Int → Option Bytes → Ω := fun omap _ _ => omap
  beginStepDummy : Ω → Ω := id
  beginStepPartialDummy : Ω → Ω := beginStepDummy
  stepNextRound : Ω → Rand (List StepReadReq × Ω) := fun omap => return ([], omap)
  readStore : Ω → StepReadReq → PathData := fun _ _ => []
  stepApplyReads : Ω → List PathData → Ω := fun omap _ => omap
  stepProcess : Ω → Rand Ω := pure
  stepPrepareWrites : Ω → Rand (List StepWriteReq × Ω) := fun omap => return ([], omap)
  writeStore : Ω → StepWriteReq → Ω := fun omap _ => omap
  stepDone : Ω → Bool := fun _ => true
  stepFinish : Ω → Bytes := fun _ => []
  setStepDecisionEnabled : Ω → Bool → Ω := fun omap _ => omap
  stepNeedsDecision : Ω → Bool := fun _ => false
  stepGetTraverseResult : Ω → Bytes := fun _ => []
  stepCommitRemove : Ω → Rand Ω := pure
  stepCommitNoop : Ω → Rand Ω := pure
  setPiggybackDecisionEnabled : Ω → Bool → Ω := fun omap _ => omap
  beginPiggybackSearch : Ω → Int → Ω := fun omap _ => omap
  beginPiggybackInsert : Ω → Int → Bytes → Rand Ω := fun omap _ _ => return omap
  beginPiggybackDummy : Ω → Ω := id
  finishPiggyback : Ω → Bytes := fun _ => []
  piggybackNeedsDecision : Ω → Bool := fun _ => false
  piggybackGetTraverseResult : Ω → Bytes := fun _ => []
  piggybackCommitRemove : Ω → Rand Ω := pure
  piggybackCommitNoop : Ω → Rand Ω := pure

/-- The value a search for an absent key returns is empty. -/
def valueOf (entry : Option Bytes) : Bytes := entry.getD []

/-- The operations of an oblivious map are those of a finite map with room for `room` keys. -/
class LawfulOmap (Ω : Type) [OmapInterface Ω] where
  /-- The map `omap` stands for `contents`, with room for `room` keys. -/
  Rep : Ω → (contents : Int → Option Bytes) → (room : Nat) → Prop
  /-- The map `omap` is new, with room for `room` keys. -/
  Fresh : Ω → (room : Nat) → Prop
  ends_make : ∀ config capacity isCold hotCount,
    Ends (OmapInterface.make (Ω := Ω) config capacity isCold hotCount)
      (fun omap => Fresh omap capacity.toNat)
  ends_init : ∀ omap room (data : KeyMap Int Bytes), Fresh omap room →
    (∀ key ∈ data.keys, key ≠ invalidKey) → data.entries.length ≤ room →
    Ends (OmapInterface.init omap data.entries) (fun omap' => Rep omap' data.get? room)
  ends_search : ∀ omap contents room key, Rep omap contents room →
    Ends (OmapInterface.search omap key none)
      (fun outcome => outcome.1 = valueOf (contents key) ∧ Rep outcome.2 contents room)
  ends_insert : ∀ omap contents room key value (keys : Finset Int), Rep omap contents room →
    key ≠ invalidKey → contents key = none →
    (∀ key', (contents key').isSome → key' ∈ keys) → keys.card < room →
    Ends (OmapInterface.insert omap key value)
      (fun omap' => Rep omap' (Function.update contents key (some value)) room)
  ends_remove : ∀ omap contents room key, Rep omap contents room →
    Ends (OmapInterface.remove omap key)
      (fun omap' => Rep omap' (Function.update contents key none) room)
  ends_dummyAccess : ∀ omap contents room, Rep omap contents room →
    Ends (OmapInterface.dummyAccess omap) (fun omap' => Rep omap' contents room)
  ends_partialDummyAccess : ∀ omap contents room, Rep omap contents room →
    Ends (OmapInterface.partialDummyAccess omap) (fun omap' => Rep omap' contents room)

end TieredOmap
