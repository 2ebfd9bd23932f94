import TieredOMap.Tee.Oblivious

/-!
# The directory of hot keys

`PackedDirectory` (`tee/packed_directory.cpp`): a flat array of the hot keys with their
leaves and access counters. Every operation scans the whole array.
-/

namespace TieredOmap

/-- `PackedDirectory::Entry`. -/
structure DirEntry where
  key : Int := invalidKey
  posLabel : Int := invalidLeaf
  freqCount : Int := 0
  freqEpoch : Int := 0
deriving DecidableEq, Repr, Inhabited

/-- `PackedDirectory`; its capacity is the number of its slots. -/
structure PackedDirectory where
  count : Int := 0
  entries : List DirEntry := []
deriving DecidableEq, Repr, Inhabited

namespace PackedDirectory

/-- The constructor. -/
def new (capacity : Nat) : PackedDirectory := { entries := List.replicate capacity {} }

/-- `capacity`. -/
def capacity (dir : PackedDirectory) : Nat := dir.entries.length

/-- `lookup`. -/
def lookup (dir : PackedDirectory) (key : Int) : Int :=
  dir.entries.foldl (fun result entry => oMov (oEqual entry.key key) result entry.posLabel)
    invalidLeaf

/-- `update_pos`. -/
def updatePos (dir : PackedDirectory) (key newPos : Int) : PackedDirectory :=
  { dir with entries := dir.entries.map (fun entry =>
    { entry with posLabel := oMov (oEqual entry.key key) entry.posLabel newPos }) }

/-- The loop of `insert`: the slots, and whether the key has been inserted. -/
def insertSlot (real : Bool) (key posLabel : Int) : List DirEntry → Bool → List DirEntry × Bool
  | [], inserted => ([], inserted)
  | entry :: rest, inserted =>
      let isSlot := real && !inserted && oEqual entry.key invalidKey
      let others := insertSlot real key posLabel rest (inserted || isSlot)
      ({ entry with
          key := oMov isSlot entry.key key
          posLabel := oMov isSlot entry.posLabel posLabel } :: others.1, others.2)

/-- `insert`. -/
def insert (dir : PackedDirectory) (key posLabel : Int) : PackedDirectory :=
  let inserted := insertSlot (!oEqual key invalidKey) key posLabel dir.entries false
  { count := dir.count + oSelect inserted.2 1 0, entries := inserted.1 }

/-- The slot of a key, as `remove` leaves it. -/
def clearSlot (real : Bool) (key : Int) (entry : DirEntry) : DirEntry :=
  let isMatch := real && oEqual entry.key key
  { key := oMov isMatch entry.key invalidKey
    posLabel := oMov isMatch entry.posLabel invalidLeaf
    freqCount := oMov isMatch entry.freqCount 0
    freqEpoch := oMov isMatch entry.freqEpoch 0 }

/-- `remove`. -/
def remove (dir : PackedDirectory) (key : Int) : PackedDirectory :=
  let real := !oEqual key invalidKey
  { count := dir.count - oSelect (dir.entries.any (fun entry => real && oEqual entry.key key)) 1 0
    entries := dir.entries.map (clearSlot real key) }

/-- The slot of a key, as `bump_freq` leaves it. -/
def bumpSlot (key currentEpoch : Int) (entry : DirEntry) : DirEntry :=
  let isMatch := oEqual entry.key key
  let stale := isMatch && oLess entry.freqEpoch currentEpoch
  let fresh := isMatch && !stale
  let freqCount := oMov stale entry.freqCount 1
  { entry with
    freqEpoch := oMov stale entry.freqEpoch currentEpoch
    freqCount := oMov fresh freqCount (freqCount + 1) }

/-- `bump_freq`. -/
def bumpFreq (dir : PackedDirectory) (key currentEpoch : Int) : PackedDirectory :=
  { dir with entries := dir.entries.map (bumpSlot key currentEpoch) }

/-- A slot that `find_demote_candidate` accepts: a key that is stale or below the threshold. -/
def shouldDemote (currentEpoch stalenessWindows demoteThreshold : Int) (entry : DirEntry) : Bool :=
  let isReal := !oEqual entry.key invalidKey
  let isStale := isReal && (oLess entry.freqEpoch (currentEpoch - stalenessWindows + 1) ||
    oEqual entry.freqEpoch 0)
  let isCold := isReal && oLess entry.freqCount demoteThreshold
  isStale || isCold

/-- `find_demote_candidate`. -/
def findDemoteCandidate (dir : PackedDirectory)
    (scanIdx currentEpoch stalenessWindows demoteThreshold : Int) : Int :=
  (List.range dir.capacity).foldl (fun (result : Int) (i : Nat) =>
    let entry := dir.entries.getD ((scanIdx + i) % dir.capacity).toNat {}
    let should := shouldDemote currentEpoch stalenessWindows demoteThreshold entry
    oMov (should && oEqual result invalidKey) result entry.key) invalidKey

end PackedDirectory

end TieredOmap
