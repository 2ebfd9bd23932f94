import TieredOMap.Omap.AvlSetUp
import TieredOMap.Tee.EnclaveRuns
import TieredOMap.Tee.TeeAvlSurgery

/-!
# The stored nodes of the enclave's tree

The lower ORAM of a `TeeAvlOmap` without a split keeps a ledger of encoded nodes. A real step takes
the node of its key out of it, a dummy step and a padding step change nothing, flushing puts the
local entries back. Nothing can go wrong but that the stash overflows.
-/

namespace TieredOmap

open Links EnclaveOram

/-- The keys of a tree are numbers that the comparisons can tell apart. -/
def IsKey (key : Int) : Prop := 0 ≤ key ∧ key < 2 ^ 31

theorem IsKey.ne_invalid {key : Int} (isKey : IsKey key) : key ≠ invalidKey := by
  rintro rfl
  exact absurd isKey.1 (by decide)

theorem oLess_keys {key key' : Int} (isKey : IsKey key) (isKey' : IsKey key') :
    oLess key key' = decide (key < key') := by
  rcases isKey with ⟨lower, upper⟩
  rcases isKey' with ⟨lower', upper'⟩
  exact oLess_eq (by omega) (by omega)

/-- What a step, which may be stopped by an overflow, ends with. -/
abbrev Settles {Result : Type} (program : TeeRand Result) (post : Result → Prop) : Prop :=
  Prog.Ends (· = Err.stashOverflow) program post

namespace EnclaveOram

variable {oram : EnclaveOram} {widest : Nat} {ledger : Ledger} {leaf : Int}

theorem settles_readPathToStash (sound : oram.Sound widest ledger) (isLeaf : IsLeaf oram.level leaf)
    (name : OramName) : Settles (oram.readPathToStash name leaf) (fun oram' =>
      oram'.Sound widest ledger ∧ oram'.cut.Emptied (oram'.path leaf) ∧ Alike oram oram') := by
  rcases sound.readPath isLeaf with ⟨sound', emptied, alike⟩
  intro world _
  exact ⟨sound', alike.path leaf ▸ emptied, alike⟩

theorem settles_evictOnePath (sound : oram.Sound widest ledger) (isLeaf : IsLeaf oram.level leaf)
    (emptied : oram.cut.Emptied (oram.path leaf)) (name : OramName) :
    Settles (oram.evictOnePath name leaf) (fun oram' =>
      oram'.Sound widest ledger ∧ Alike oram oram') := by
  rcases sound.evictPath isLeaf emptied with ⟨sound', alike⟩
  unfold evictOnePath
  intro world _
  dsimp only
  cases (oram.evictPath (oram.path leaf)).2 with
  | true => rfl
  | false => exact ⟨sound', alike⟩

/-- The extraction of a key that is not there changes nothing. -/
theorem Sound.extract_miss (sound : oram.Sound widest ledger) {key : Int}
    (absent : ledger key = none) : (oram.extractFromStash key).2.Sound widest ledger := by
  have sound' := sound.extract key
  rcases extractFromStash_cut sound.fitted key with ⟨same, -⟩
  have isDummy : (oram.extractFromStash key).1.key = invalidKey := by
    have misses : ∀ entry ∈ oram.cut.stash, entry.key = key → entry.key = invalidKey := by
      rintro entry mem rfl
      by_contra isReal
      rcases sound.keeps.split mem isReal with ⟨held, front, back, holds, lists, -⟩
      have isLive := (lists.entry entry).mp (Multiset.mem_cons_self _ _)
      rw [fitLedger, absent] at isLive
      cases isLive
    rcases sound.keeps with ⟨held, holds, lists⟩
    have unchanged := extractLoop_miss holds.sized (length_emptySlot oram.cut.valueSize) misses
    unfold extractFromStash at same
    rw [unchanged] at same
    have sameKey := congrArg (fun pair : Block × EnclaveOram => pair.1.key) same
    exact sameKey.symm.trans (emptySlot_key _)
  rw [afterExtract, if_pos isDummy] at sound'
  exact sound'

/-- What is extracted is long enough. -/
theorem Sound.fits_extracted (sound : oram.Sound widest ledger) (key : Int) :
    Fits oram.valueSize widest (oram.extractFromStash key).1 :=
  (extractLoop_cut key sound.fitted.stash (fits_emptySlot sound.fitted.wide)).2.2.2

end EnclaveOram

namespace TeeAvlOmap

/-! ## Stored nodes -/

/-- The size of an encoded node. -/
def nodeSize (omap : TeeAvlOmap) : Nat := avlHeaderSize + omap.valueSize

/-- A stored node; its leaf is the one in the ledger. -/
def storedPiece (size : Nat) (key : Int) (entry : Int × Bytes) : Piece :=
  AVLLocalNode.piece { key, leaf := entry.1, avl := AVLOmap.nodeOf (fitValue size entry.2)
                       parentKey := invalidKey, depth := 0 }

/-- The stored nodes of a ledger. -/
def storeOf (size : Nat) (ledger : Ledger) : Int → Option Piece := fun key =>
  (ledger key).map (storedPiece size key)

/-- The lower ORAM keeps the nodes of a ledger. -/
structure Stocked (omap : TeeAvlOmap) (ledger : Ledger) : Prop where
  noSplit : omap.splitDepth ≤ 0
  size : omap.lowerOram.valueSize = omap.nodeSize
  sound : omap.lowerOram.Sound omap.nodeSize ledger
  leaves : ∀ key entry, ledger key = some entry → IsLeaf omap.lowerOram.level entry.1
  keys : ∀ key entry, ledger key = some entry → IsKey key
  level : omap.lowerOram.level ≤ 32

/-- What no step changes. -/
structure Kept (omap omap' : TeeAvlOmap) : Prop where
  maxHeight : omap'.maxHeight = omap.maxHeight
  splitDepth : omap'.splitDepth = omap.splitDepth
  valueSize : omap'.valueSize = omap.valueSize
  rootKey : omap'.rootKey = omap.rootKey
  rootLeaf : omap'.rootLeaf = omap.rootLeaf

theorem Kept.refl (omap : TeeAvlOmap) : Kept omap omap := ⟨rfl, rfl, rfl, rfl, rfl⟩

theorem Kept.trans {omap omap' omap'' : TeeAvlOmap} (kept : Kept omap omap')
    (kept' : Kept omap' omap'') : Kept omap omap'' :=
  ⟨kept'.maxHeight.trans kept.maxHeight, kept'.splitDepth.trans kept.splitDepth,
    kept'.valueSize.trans kept.valueSize, kept'.rootKey.trans kept.rootKey,
    kept'.rootLeaf.trans kept.rootLeaf⟩

variable {omap : TeeAvlOmap} {ledger : Ledger} {key leaf parentKey : Int} {entry : Int × Bytes}

theorem length_data_storedPiece (size : Nat) (key : Int) (entry : Int × Bytes) :
    (storedPiece (avlHeaderSize + size) key entry).data.length = size := by
  change ((fitValue (avlHeaderSize + size) entry.2).drop avlHeaderSize).length = size
  rw [List.length_drop, length_fitValue]
  omega

theorem oram_of_noSplit (noSplit : omap.splitDepth ≤ 0) (depth : Int) :
    omap.oramForDepth depth = omap.lowerOram ∧ ∀ oram, omap.setOram depth oram =
      { omap with lowerOram := oram } := by
  have notUpper : omap.inUpper depth = false := by
    unfold inUpper
    rw [decide_eq_false (not_lt.mpr noSplit), Bool.false_and]
  constructor
  · unfold oramForDepth
    rw [notUpper]
    rfl
  · intro oram
    unfold setOram
    rw [notUpper]
    rfl

theorem Stocked.oram (stocked : omap.Stocked ledger) (depth : Int) :
    omap.oramForDepth depth = omap.lowerOram ∧ ∀ oram, omap.setOram depth oram =
      { omap with lowerOram := oram } := oram_of_noSplit stocked.noSplit depth

/-- Another ORAM with other nodes. -/
theorem Stocked.withOram (stocked : omap.Stocked ledger) {oram : EnclaveOram} {ledger' : Ledger}
    (alike : Alike omap.lowerOram oram) (sound : oram.Sound omap.nodeSize ledger')
    (within : ∀ key entry, ledger' key = some entry →
      IsLeaf omap.lowerOram.level entry.1 ∧ IsKey key) :
    Stocked { omap with lowerOram := oram } ledger' := by
  refine ⟨stocked.noSplit, alike.valueSize.trans stocked.size, sound, ?_, ?_, ?_⟩
  · intro key entry isLive
    rw [show ({ omap with lowerOram := oram } : TeeAvlOmap).lowerOram.level = oram.level from rfl,
      alike.level]
    exact (within key entry isLive).1
  · exact fun key entry isLive => (within key entry isLive).2
  · exact alike.level.trans_le stocked.level

/-- Only the ORAM and some sizes matter. -/
theorem Stocked.congr (stocked : omap.Stocked ledger) {omap' : TeeAvlOmap}
    (sameOram : omap'.lowerOram = omap.lowerOram) (sameSplit : omap'.splitDepth = omap.splitDepth)
    (sameSize : omap'.valueSize = omap.valueSize) : omap'.Stocked ledger := by
  have sameNodes : omap'.nodeSize = omap.nodeSize := congrArg (avlHeaderSize + ·) sameSize
  refine ⟨sameSplit.trans_le stocked.noSplit, ?_, ?_, ?_, stocked.keys, ?_⟩
  · rw [sameOram, sameNodes]
    exact stocked.size
  · rw [sameOram, sameNodes]
    exact stocked.sound
  · rw [sameOram]
    exact stocked.leaves
  · rw [sameOram]
    exact stocked.level

/-- The keys that are left have their leaves. -/
theorem Stocked.within_update (stocked : omap.Stocked ledger) (key : Int) :
    ∀ key' entry, Function.update ledger key none key' = some entry →
      IsLeaf omap.lowerOram.level entry.1 ∧ IsKey key' := by
  intro key' entry isLive
  rw [Function.update_apply] at isLive
  split at isLive
  · cases isLive
  · exact ⟨stocked.leaves key' entry isLive, stocked.keys key' entry isLive⟩

/-- Counting a step changes no field that matters. -/
theorem countOp_kept (omap : TeeAvlOmap) (depth : Int) :
    Kept omap (omap.countOp depth) ∧ (omap.countOp depth).lowerOram = omap.lowerOram ∧
      (omap.countOp depth).local_ = omap.local_ := by
  unfold countOp
  split <;> exact ⟨⟨rfl, rfl, rfl, rfl, rfl⟩, rfl, rfl⟩

/-- The end of a step with another ORAM and a further entry. -/
theorem Stocked.pushed {oram : EnclaveOram} {ledger' : Ledger}
    (stocked : Stocked { omap with lowerOram := oram } ledger') (node : AVLLocalNode)
    (depth : Int) :
    ((pushLocal { omap with lowerOram := oram } node).countOp depth).Stocked ledger' ∧
      Kept omap ((pushLocal { omap with lowerOram := oram } node).countOp depth) ∧
      ((pushLocal { omap with lowerOram := oram } node).countOp depth).local_ =
        omap.local_ ++ [node] := by
  rcases countOp_kept (pushLocal { omap with lowerOram := oram } node) depth with
    ⟨kept, sameOram, sameLocal⟩
  exact ⟨stocked.congr sameOram kept.splitDepth kept.valueSize,
    @Kept.trans _ (pushLocal { omap with lowerOram := oram } node) _ ⟨rfl, rfl, rfl, rfl, rfl⟩ kept,
    sameLocal⟩

/-! ## Steps -/

theorem settles_decode {raw : Bytes} (long : avlHeaderSize ≤ raw.length) :
    Settles (inTee (AVLNodeData.decode raw)) (· = AVLOmap.nodeOf raw) := by
  refine ends_inTee ?_
  unfold AVLNodeData.decode
  rw [if_neg (not_lt.mpr long)]
  exact Prog.ends_pure rfl

/-- A real step takes a node out of the store. -/
theorem Stocked.settles_real (stocked : omap.Stocked ledger) (isLive : ledger key = some entry)
    (depth parentKey : Int) : Settles (omap.oramStep depth key entry.1 true parentKey) (fun omap' =>
      omap'.Stocked (Function.update ledger key none) ∧ Kept omap omap' ∧
        ∃ node, omap'.local_ = omap.local_ ++ [node] ∧
          node.piece = { storedPiece omap.nodeSize key entry with parentKey }) := by
  rcases stocked.oram depth with ⟨oramIs, setOramIs⟩
  have isLeaf := stocked.leaves key entry isLive
  unfold oramStep
  dsimp only
  rw [oramIs]
  refine Prog.ends_bind (EnclaveOram.ends_randomLeaf _) (fun draw _ => ?_)
  rw [oSelect_true, oSelect_true]
  refine Prog.ends_bind (settles_readPathToStash stocked.sound isLeaf _) ?_
  rintro read ⟨readSound, emptied, readAlike⟩
  have isLeafRead : IsLeaf read.level entry.1 := readAlike.level.symm ▸ isLeaf
  have isBlock := readSound.extract_hit isLeafRead emptied isLive
  have fits := readSound.fits_extracted key
  have extractedSound := readSound.extract key
  generalize extractedIs : read.extractFromStash key = extracted at *
  rcases extracted with ⟨block, extracted⟩
  rw [readAlike.valueSize, stocked.size] at isBlock fits
  have sameValue : block.value.take omap.nodeSize = block.value := List.take_of_length_le fits.2
  have blockIs : block = ⟨key, entry.1, fitValue omap.nodeSize entry.2⟩ := by
    rw [← isBlock, cutBlock, sameValue]
  subst blockIs
  have isReal : key ≠ invalidKey := (stocked.keys key entry isLive).ne_invalid
  rw [afterExtract, if_neg isReal] at extractedSound
  have extractedAlike : Alike read extracted := by
    have isExtracted : (read.extractFromStash key).2 = extracted := congrArg Prod.snd extractedIs
    rw [← isExtracted]
    exact ⟨rfl, rfl, rfl, rfl⟩
  have emptiedAfter : extracted.cut.Emptied (extracted.path entry.1) := by
    have isExtracted : (read.extractFromStash key).2 = extracted := congrArg Prod.snd extractedIs
    rw [← isExtracted]
    exact emptied
  refine Prog.ends_bind (settles_decode ?_) ?_
  · rw [length_fitValue]
    exact Nat.le_add_right _ _
  · rintro avl rfl
    refine Prog.ends_bind (settles_evictOnePath extractedSound
      (extractedAlike.level.symm ▸ isLeafRead) emptiedAfter _) ?_
    rintro evicted ⟨evictedSound, evictedAlike⟩
    refine Prog.ends_pure ?_
    rw [setOramIs]
    have stocked' := stocked.withOram (readAlike.trans (extractedAlike.trans evictedAlike))
      evictedSound (stocked.within_update key)
    rcases stocked'.pushed (stepEntry depth key true parentKey
      ⟨key, entry.1, fitValue omap.nodeSize entry.2⟩
        (AVLOmap.nodeOf (fitValue omap.nodeSize entry.2))) depth with ⟨stocked'', kept, sameLocal⟩
    exact ⟨stocked'', kept, _, sameLocal, rfl⟩

/-- No node has the key that a dummy step asks for. -/
theorem Stocked.absent_dummy (stocked : omap.Stocked ledger) : ledger (-2) = none := by
  rcases isLive : ledger (-2) with _ | entry
  · rfl
  · exact absurd (stocked.keys _ _ isLive).1 (by decide)

/-- A dummy step adds a dummy entry. -/
theorem Stocked.settles_dummy (stocked : omap.Stocked ledger) (depth key leaf parentKey : Int) :
    Settles (omap.oramStep depth key leaf false parentKey) (fun omap' =>
      omap'.Stocked ledger ∧ Kept omap omap' ∧ ∃ node, omap'.local_ = omap.local_ ++ [node] ∧
        node.key = invalidKey ∧ node.avl.data.length = omap.valueSize) := by
  rcases stocked.oram depth with ⟨oramIs, setOramIs⟩
  unfold oramStep
  dsimp only
  rw [oramIs]
  refine Prog.ends_bind (EnclaveOram.ends_randomLeaf _) (fun draw isLeaf => ?_)
  rw [oSelect_false, oSelect_false]
  refine Prog.ends_bind (settles_readPathToStash stocked.sound isLeaf _) ?_
  rintro read ⟨readSound, emptied, readAlike⟩
  have fits := readSound.fits_extracted (-2)
  rw [readAlike.valueSize, stocked.size] at fits
  have sound' := readSound.extract_miss stocked.absent_dummy
  refine Prog.ends_bind (settles_decode ((Nat.le_add_right _ _).trans fits.1)) ?_
  rintro avl rfl
  refine Prog.ends_bind (settles_evictOnePath sound' (readAlike.level.symm ▸ isLeaf) emptied _) ?_
  rintro evicted ⟨evictedSound, evictedAlike⟩
  refine Prog.ends_pure ?_
  rw [setOramIs]
  have extractedAlike : Alike read (read.extractFromStash (-2)).2 := ⟨rfl, rfl, rfl, rfl⟩
  have stocked' := stocked.withOram (readAlike.trans (extractedAlike.trans evictedAlike))
    evictedSound (fun key entry isLive => ⟨stocked.leaves key entry isLive,
      stocked.keys key entry isLive⟩)
  rcases stocked'.pushed (stepEntry depth key false parentKey (read.extractFromStash (-2)).1
    (AVLOmap.nodeOf (read.extractFromStash (-2)).1.value)) depth with ⟨stocked'', kept, sameLocal⟩
  refine ⟨stocked'', kept, _, sameLocal, rfl, ?_⟩
  have sameLength : (read.extractFromStash (-2)).1.value.length = omap.nodeSize :=
    le_antisymm fits.2 fits.1
  change ((read.extractFromStash (-2)).1.value.drop avlHeaderSize).length = omap.valueSize
  rw [List.length_drop, sameLength]
  exact Nat.add_sub_cancel_left _ _

/-! ## Padding -/

/-- A padding step changes no node. -/
theorem Stocked.settles_padStep (stocked : omap.Stocked ledger) (depth : Int) :
    Settles (omap.padStep depth) (fun omap' =>
      omap'.Stocked ledger ∧ Kept omap omap' ∧ omap'.local_ = omap.local_) := by
  rcases stocked.oram depth with ⟨oramIs, setOramIs⟩
  unfold padStep
  dsimp only
  rw [oramIs]
  refine Prog.ends_bind (EnclaveOram.ends_randomLeaf _) (fun draw isLeaf => ?_)
  refine Prog.ends_bind (settles_readPathToStash stocked.sound isLeaf _) ?_
  rintro read ⟨readSound, emptied, readAlike⟩
  have sound' := readSound.extract_miss stocked.absent_dummy
  refine Prog.ends_bind (settles_evictOnePath sound' (readAlike.level.symm ▸ isLeaf) emptied _) ?_
  rintro evicted ⟨evictedSound, evictedAlike⟩
  refine Prog.ends_pure ?_
  rw [setOramIs]
  have extractedAlike : Alike read (read.extractFromStash (-2)).2 := ⟨rfl, rfl, rfl, rfl⟩
  have stocked' := stocked.withOram (readAlike.trans (extractedAlike.trans evictedAlike))
    evictedSound (fun key entry isLive => ⟨stocked.leaves key entry isLive,
      stocked.keys key entry isLive⟩)
  rcases countOp_kept { omap with lowerOram := evicted } depth with ⟨kept, sameOram, sameLocal⟩
  exact ⟨stocked'.congr sameOram kept.splitDepth kept.valueSize,
    @Kept.trans _ { omap with lowerOram := evicted } _ ⟨rfl, rfl, rfl, rfl, rfl⟩ kept, sameLocal⟩

theorem Stocked.settles_padSteps (depth : Int) (count : Nat) (stocked : omap.Stocked ledger) :
    Settles (padSteps depth count omap) (fun omap' =>
      omap'.Stocked ledger ∧ Kept omap omap' ∧ omap'.local_ = omap.local_) := by
  induction count generalizing omap with
  | zero => exact Prog.ends_pure ⟨stocked, Kept.refl omap, rfl⟩
  | succ count ih =>
      refine Prog.ends_bind (stocked.settles_padStep depth) ?_
      rintro omap' ⟨stocked', kept, sameLocal⟩
      refine (ih stocked').mono ?_
      rintro omap'' ⟨stocked'', kept', sameLocal'⟩
      exact ⟨stocked'', kept.trans kept', sameLocal'.trans sameLocal⟩

/-- So does all padding. -/
theorem Stocked.settles_padOps (stocked : omap.Stocked ledger) (opsDone : Int) :
    Settles (omap.padOps opsDone) (fun omap' =>
      omap'.Stocked ledger ∧ Kept omap omap' ∧ omap'.local_ = omap.local_) := by
  unfold padOps
  dsimp only
  rw [if_neg (not_lt.mpr stocked.noSplit)]
  exact stocked.settles_padSteps _ _

end TeeAvlOmap

end TieredOmap
