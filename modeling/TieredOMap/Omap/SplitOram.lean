import TieredOMap.Omap.Interface
import TieredOMap.Oram.PathOram

/-!
# A tree over two ORAMs

The tree maps keep the levels above `split_depth_` in `upper_oram_` and the
others in `oram_`; without a split everything is in `oram_`.
-/

namespace TieredOmap

/-- Which of the two ORAMs; stands for a `PathORAM*` of the source. -/
inductive Half where
  | upper
  | lower
deriving DecidableEq, Repr, Inhabited

/-- The path an operation fetches in a round: `cur_round_oram` and `cur_round_leaf`. -/
structure RoundPath where
  half : Half := .lower
  leaf : Int := invalidLeaf
deriving DecidableEq, Repr, Inhabited

/-- `upper_oram_` and `oram_`. -/
structure SplitOram where
  splitDepth : Int := 0
  upperOram : PathORAM := {}
  oram : PathORAM := {}

namespace SplitOram

variable [Cipher]

/-- The ORAM of a half. -/
def get (orams : SplitOram) : Half → PathORAM
  | .upper => orams.upperOram
  | .lower => orams.oram

/-- Replace the ORAM of a half. -/
def set (orams : SplitOram) : Half → PathORAM → SplitOram
  | .upper, oram => { orams with upperOram := oram }
  | .lower, oram => { orams with oram := oram }

/-- `oram_for_depth`. -/
def halfForDepth (orams : SplitOram) (depth : Int) : Half :=
  if 0 < orams.splitDepth ∧ depth < orams.splitDepth then .upper else .lower

/-- The half an operation pads: the first `boundary` dummies go to the upper one. -/
def padHalf (orams : SplitOram) (dummyStep boundary : Int) : Half :=
  if 0 < orams.splitDepth ∧ dummyStep < boundary then .upper else .lower

/-- `random_leaf` of a half. -/
def randomLeaf (orams : SplitOram) (half : Half) : Rand Int := (orams.get half).randomLeaf

/-- `set_leaf` on a half. -/
def setLeaf (orams : SplitOram) (half : Half) (key leaf : Int) : SplitOram :=
  orams.set half ((orams.get half).setLeaf key leaf)

/-- Draw a fresh leaf for a block and record it in the position map. -/
def assignLeaf (orams : SplitOram) (half : Half) (key : Int) : Rand (Int × SplitOram) := do
  let leaf ← orams.randomLeaf half
  return (leaf, orams.setLeaf half key leaf)

/-- `add_to_stash` on a half. -/
def addToStash (orams : SplitOram) (half : Half) (block : Block) : SplitOram :=
  orams.set half ((orams.get half).addToStash block)

/-- `dummy_access` on a half. -/
def dummyAccess (orams : SplitOram) (half : Half) : Rand SplitOram := do
  let oram ← (orams.get half).dummyAccess
  return orams.set half oram

/-- Several dummy accesses. -/
def dummyAccesses (half : Half) : Nat → SplitOram → Rand SplitOram
  | 0, orams => return orams
  | count + 1, orams => do
      let orams ← orams.dummyAccess half
      dummyAccesses half count orams

/-- The server's side of reading one path. -/
def readStore (orams : SplitOram) (request : StepReadReq) : PathData :=
  if 0 < orams.splitDepth ∧ request.storeId = orams.upperOram.storage.storeId then
    orams.upperOram.storage.readPath request.leaf
  else orams.oram.storage.readPath request.leaf

/-- The server's side of writing one path. -/
def writeStore (orams : SplitOram) (request : StepWriteReq) : SplitOram :=
  if 0 < orams.splitDepth ∧ request.storeId = orams.upperOram.storage.storeId then
    { orams with upperOram := orams.upperOram.writePath request.data }
  else { orams with oram := orams.oram.writePath request.data }

/-- The read request for a path. -/
def request (orams : SplitOram) (round : RoundPath) : StepReadReq :=
  { storeId := (orams.get round.half).storage.storeId, leaf := round.leaf }

/-- `apply_fetched_path` on a half. -/
def applyFetched (orams : SplitOram) (half : Half) (path : PathData) : SplitOram :=
  orams.set half ((orams.get half).applyFetchedPath path)

/-- Two paths of one ORAM are merged first, so that a shared bucket is taken once. -/
def mergePaths (first second : PathData) : PathData :=
  first ++ second.filter (fun entry => !(first.map Prod.fst).contains entry.1)

/-- `step_apply_reads`. -/
def applyReads (orams : SplitOram) (main piggyback : Option RoundPath) (results : List PathData) :
    SplitOram :=
  match main, piggyback, results with
  | some main, some piggyback, path :: path' :: _ =>
      if main.half = piggyback.half then orams.applyFetched main.half (mergePaths path path')
      else (orams.applyFetched main.half path).applyFetched piggyback.half path'
  | some main, _, path :: _ => orams.applyFetched main.half path
  | none, some piggyback, path :: _ => orams.applyFetched piggyback.half path
  | _, _, _ => orams

/-- `prepare_eviction` on a half, as a write request. -/
def prepareEviction (orams : SplitOram) (round : RoundPath) : Rand (StepWriteReq × SplitOram) := do
  let (data, oram) ← (orams.get round.half).prepareEviction round.leaf
  return ({ storeId := oram.storage.storeId, data }, orams.set round.half oram)

/-- `step_prepare_writes`. -/
def prepareWrites (orams : SplitOram) (main piggyback : Option RoundPath) :
    Rand (List StepWriteReq × SplitOram) :=
  match main, piggyback with
  | none, none => return ([], orams)
  | some main, some piggyback =>
      if main.half = piggyback.half then do
        let (data, oram) ←
          (orams.get main.half).prepareEvictionPaths [main.leaf, piggyback.leaf]
        return ([{ storeId := oram.storage.storeId, data }], orams.set main.half oram)
      else do
        let (mainWrite, orams) ← orams.prepareEviction main
        let (piggybackWrite, orams) ← orams.prepareEviction piggyback
        return ([mainWrite, piggybackWrite], orams)
  | some main, none => do
      let (write, orams) ← orams.prepareEviction main
      return ([write], orams)
  | none, some piggyback => do
      let (write, orams) ← orams.prepareEviction piggyback
      return ([write], orams)

end SplitOram

end TieredOmap
