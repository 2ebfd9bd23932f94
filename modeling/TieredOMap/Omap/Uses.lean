import TieredOMap.Omap.SplitOram

/-!
# The uses of a map

Everything a client can do with an oblivious map: operations on their own, and the parts of rounds.
A state is reached by using a map in any order, whatever the server answers.
-/

namespace TieredOmap

/-- A call of a map. -/
inductive MapCall where
  | search (key : Int) (update : Option Bytes)
  | insert (key : Int) (value : Bytes)
  | remove (key : Int)
  | dummyAccess
deriving DecidableEq, Repr

/-- A use of a map. -/
inductive OmapUse where
  | init (data : List (Int × Bytes))
  | call (operation : MapCall)
  | partialDummyAccess
  | beginStepSearch (key : Int) (update : Option Bytes)
  | beginStepDummy
  | beginStepPartialDummy
  | stepNextRound
  | stepApplyReads (results : List PathData)
  | stepProcess
  | stepPrepareWrites
  | writeStore (request : StepWriteReq)
  | setStepDecisionEnabled (enable : Bool)
  | stepCommitRemove
  | stepCommitNoop
  | setPiggybackDecisionEnabled (enable : Bool)
  | beginPiggybackSearch (key : Int)
  | beginPiggybackInsert (key : Int) (value : Bytes)
  | beginPiggybackDummy
  | piggybackCommitRemove
  | piggybackCommitNoop

variable {Ω : Type} [OmapInterface Ω]

/-- Make a call of a map. -/
def MapCall.perform (omap : Ω) : MapCall → Rand Ω
  | .search key update => do
      let (_, omap) ← OmapInterface.search omap key update
      return omap
  | .insert key value => OmapInterface.insert omap key value
  | .remove key => OmapInterface.remove omap key
  | .dummyAccess => OmapInterface.dummyAccess omap

/-- Use a map. -/
def OmapUse.run (omap : Ω) : OmapUse → Rand Ω
  | .init data => OmapInterface.init omap data
  | .call operation => operation.perform omap
  | .partialDummyAccess => OmapInterface.partialDummyAccess omap
  | .beginStepSearch key update => return OmapInterface.beginStepSearch omap key update
  | .beginStepDummy => return OmapInterface.beginStepDummy omap
  | .beginStepPartialDummy => return OmapInterface.beginStepPartialDummy omap
  | .stepNextRound => do
      let (_, omap) ← OmapInterface.stepNextRound omap
      return omap
  | .stepApplyReads results => return OmapInterface.stepApplyReads omap results
  | .stepProcess => OmapInterface.stepProcess omap
  | .stepPrepareWrites => do
      let (_, omap) ← OmapInterface.stepPrepareWrites omap
      return omap
  | .writeStore request => return OmapInterface.writeStore omap request
  | .setStepDecisionEnabled enable => return OmapInterface.setStepDecisionEnabled omap enable
  | .stepCommitRemove => OmapInterface.stepCommitRemove omap
  | .stepCommitNoop => OmapInterface.stepCommitNoop omap
  | .setPiggybackDecisionEnabled enable =>
      return OmapInterface.setPiggybackDecisionEnabled omap enable
  | .beginPiggybackSearch key => return OmapInterface.beginPiggybackSearch omap key
  | .beginPiggybackInsert key value => OmapInterface.beginPiggybackInsert omap key value
  | .beginPiggybackDummy => return OmapInterface.beginPiggybackDummy omap
  | .piggybackCommitRemove => OmapInterface.piggybackCommitRemove omap
  | .piggybackCommitNoop => OmapInterface.piggybackCommitNoop omap

end TieredOmap
