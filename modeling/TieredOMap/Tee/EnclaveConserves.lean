import TieredOMap.Tee.EnclaveCut
import TieredOMap.Tee.EnclaveStash

/-!
# The operations of the ORAM of the enclave keep a ledger

A ledger records for every key the leaf and the value last given for it. `Sound` says that
the blocks of the ORAM are those of the ledger. Values may be of any length: they are kept
up to the value size of the ORAM, with zeros after a shorter one.
-/

namespace TieredOmap

namespace EnclaveOram

/-- For every key its current leaf and the value last written. -/
abbrev Ledger := Int → Option (Int × Bytes)

/-- The blocks held are those of a ledger, each once. -/
structure Lists (held : Multiset Block) (ledger : Ledger) : Prop where
  once : (held.map Block.key).Nodup
  entry : ∀ block, block ∈ held ↔ ledger block.key = some (block.leaf, block.value)

/-- The ORAM holds the blocks of a ledger. -/
def Keeps (oram : EnclaveOram) (ledger : Ledger) : Prop :=
  ∃ held, oram.Holds held ∧ Lists held ledger

/-- The first bytes of a value, with zeros after a shorter one. -/
def fitValue (size : Nat) (value : Bytes) : Bytes := padBytes (value.take size) size

/-- A ledger of the values as they are kept. -/
def fitLedger (size : Nat) (ledger : Ledger) : Ledger := fun key =>
  (ledger key).map (fun entry => (entry.1, fitValue size entry.2))

theorem length_fitValue (size : Nat) (value : Bytes) : (fitValue size value).length = size :=
  length_padBytes (List.length_take_le _ _)

theorem take_padBytes_eq_fitValue (size : Nat) (value : Bytes) :
    (padBytes value size).take size = fitValue size value := take_padBytes value size

theorem fitValue_of_le {size : Nat} {value : Bytes} (short : value.length ≤ size) :
    fitValue size value = padBytes value size := by
  rw [fitValue, List.take_of_length_le short]

theorem fitLedger_update (size : Nat) (ledger : Ledger) (key leaf : Int) (value : Bytes) :
    fitLedger size (Function.update ledger key (some (leaf, value))) =
      Function.update (fitLedger size ledger) key (some (leaf, fitValue size value)) := by
  funext key'
  rw [fitLedger, Function.update_apply, Function.update_apply]
  split <;> rfl

theorem fitLedger_erase (size : Nat) (ledger : Ledger) (key : Int) :
    fitLedger size (Function.update ledger key none) =
      Function.update (fitLedger size ledger) key none := by
  funext key'
  rw [fitLedger, Function.update_apply, Function.update_apply]
  split <;> rfl

/-! ## Ledgers -/

section Lists

variable {held : Multiset Block} {ledger : Ledger} {block : Block}

theorem Lists.notMem_key (lists : Lists (block ::ₘ held) ledger) :
    ∀ other ∈ held, other.key ≠ block.key := by
  intro other mem same
  have once := lists.once
  rw [Multiset.map_cons, Multiset.nodup_cons] at once
  exact once.1 (Multiset.mem_map.mpr ⟨other, mem, same⟩)

theorem Lists.erase (lists : Lists (block ::ₘ held) ledger) :
    Lists held (Function.update ledger block.key none) := by
  have others := lists.notMem_key
  have once := lists.once
  rw [Multiset.map_cons, Multiset.nodup_cons] at once
  refine ⟨once.2, ?_⟩
  intro other
  by_cases same : other.key = block.key
  · rw [same, Function.update_self]
    exact ⟨fun mem => (others other mem same).elim, fun impossible => by cases impossible⟩
  · rw [Function.update_of_ne same, ← lists.entry other, Multiset.mem_cons]
    exact (or_iff_right (fun isBlock => same (congrArg Block.key isBlock))).symm

theorem Lists.add (lists : Lists held ledger) (isNew : ledger block.key = none) :
    Lists (block ::ₘ held) (Function.update ledger block.key (some (block.leaf, block.value))) := by
  have notMem : ∀ other ∈ held, other.key ≠ block.key := by
    intro other mem same
    have listed := (lists.entry other).mp mem
    rw [same, isNew] at listed
    cases listed
  refine ⟨?_, ?_⟩
  · rw [Multiset.map_cons, Multiset.nodup_cons, Multiset.mem_map]
    exact ⟨fun ⟨other, mem, same⟩ => notMem other mem same, lists.once⟩
  · intro other
    rw [Multiset.mem_cons]
    by_cases same : other.key = block.key
    · rw [same, Function.update_self, Option.some.injEq, Prod.mk.injEq]
      constructor
      · rintro (isBlock | mem)
        · rw [isBlock]
          exact ⟨rfl, rfl⟩
        · exact (notMem other mem same).elim
      · rintro ⟨sameLeaf, sameValue⟩
        refine Or.inl ?_
        rcases other with ⟨key', leaf', value'⟩
        rcases block with ⟨key, leaf, value⟩
        exact Block.mk.injEq .. ▸ ⟨same, sameLeaf.symm, sameValue.symm⟩
    · rw [Function.update_of_ne same, ← lists.entry other]
      exact or_iff_right (fun isBlock => same (congrArg Block.key isBlock))

/-- A block gives way to another one with its key. -/
theorem Lists.replace (lists : Lists (block ::ₘ held) ledger) {new : Block}
    (sameKey : new.key = block.key) :
    Lists (new ::ₘ held) (Function.update ledger block.key (some (new.leaf, new.value))) := by
  have added := @Lists.add _ _ new lists.erase (by rw [sameKey, Function.update_self])
  rwa [sameKey, Function.update_idem] at added

end Lists

/-! ## One step of an ORAM with sized values -/

section Keeps

variable {oram : EnclaveOram} {ledger : Ledger} {leaf : Int}

theorem Keeps.readPath (keeps : oram.Keeps ledger) (isLeaf : IsLeaf oram.level leaf) :
    (oram.readPath leaf).Keeps ledger ∧ (oram.readPath leaf).Emptied (oram.path leaf) ∧
      Alike oram (oram.readPath leaf) := by
  rcases keeps with ⟨held, holds, lists⟩
  rcases holds.readPath isLeaf with ⟨holds', emptied, alike⟩
  exact ⟨⟨held, holds', lists⟩, emptied, alike⟩

theorem Keeps.evictPath (keeps : oram.Keeps ledger) (isLeaf : IsLeaf oram.level leaf)
    (emptied : oram.Emptied (oram.path leaf)) (full : oram.stashMax ≤ oram.stash.length) :
    (oram.evictPath (oram.path leaf)).1.Keeps ledger ∧
      Alike oram (oram.evictPath (oram.path leaf)).1 := by
  rcases keeps with ⟨held, holds, lists⟩
  rcases holds.evictPath isLeaf emptied full with ⟨holds', alike⟩
  exact ⟨⟨held, holds', lists⟩, alike⟩

/-- A block of the stash, among entries with other keys. -/
theorem Keeps.split (keeps : oram.Keeps ledger) {block : Block} (mem : block ∈ oram.stash)
    (isReal : block.key ≠ invalidKey) :
    ∃ held front back, oram.Holds (block ::ₘ held) ∧ Lists (block ::ₘ held) ledger ∧
      oram.stash = front ++ block :: back ∧ (∀ entry ∈ front, entry.key ≠ block.key) ∧
      ∀ entry ∈ back, entry.key ≠ block.key := by
  rcases keeps with ⟨held, holds, lists⟩
  rcases holds.split_stash lists.once mem isReal with ⟨front, back, eq, frontMisses, backMisses⟩
  have inHeld : block ∈ held := by
    rw [← holds.blocks_eq, blocks, Multiset.mem_add]
    exact Or.inl (mem_realBlocks.mpr ⟨mem, isReal⟩)
  rcases Multiset.exists_cons_of_mem inHeld with ⟨others, rfl⟩
  exact ⟨others, front, back, holds, lists, eq, frontMisses, backMisses⟩

/-- While its path is empty, a block is in the stash. -/
theorem Keeps.mem_stash (keeps : oram.Keeps ledger) (isLeaf : IsLeaf oram.level leaf)
    (emptied : oram.Emptied (oram.path leaf)) {key : Int} {value : Bytes}
    (isLive : ledger key = some (leaf, value)) :
    ⟨key, leaf, value⟩ ∈ oram.stash ∧ key ≠ invalidKey := by
  rcases keeps with ⟨held, holds, lists⟩
  have mem : (⟨key, leaf, value⟩ : Block) ∈ held := (lists.entry ⟨key, leaf, value⟩).mpr isLive
  refine ⟨holds.mem_stash emptied isLeaf mem rfl, ?_⟩
  rw [← holds.blocks_eq, blocks, Multiset.mem_add, Multiset.mem_sum] at mem
  rcases mem with inStash | ⟨node, _, inBucket⟩
  · exact (mem_realBlocks.mp inStash).2
  · exact (mem_realBlocks.mp inBucket).2

/-- A real access replaces the block with its key and returns its value. -/
theorem Keeps.accessStash (keeps : oram.Keeps ledger) (isLeaf : IsLeaf oram.level leaf)
    (emptied : oram.Emptied (oram.path leaf)) {key newLeaf : Int} {value paddedNew result : Bytes}
    {hasNew : Bool} (isLive : ledger key = some (leaf, value))
    (newSized : paddedNew.length = oram.valueSize) (resultSized : result.length = oram.valueSize) :
    Keeps { oram with
        stash := (EnclaveOram.accessStash key newLeaf true hasNew paddedNew oram.stash result).1 }
      (Function.update ledger key (some (newLeaf, if hasNew then paddedNew else value))) ∧
      (EnclaveOram.accessStash key newLeaf true hasNew paddedNew oram.stash result).2 = value := by
  rcases keeps.mem_stash isLeaf emptied isLive with ⟨mem, isReal⟩
  rcases keeps.split mem isReal with
    ⟨others, front, back, holds, lists, eq, frontMisses, backMisses⟩
  have sized := holds.sized
  rw [eq] at sized
  have hit := @accessStash_hit newLeaf hasNew paddedNew _ _ _ _ _ sized newSized resultSized
    frontMisses backMisses
  dsimp only at hit
  rw [eq, hit]
  have newReal : (accessed newLeaf hasNew paddedNew ⟨key, leaf, value⟩).key ≠ invalidKey := isReal
  have accessedSized : Sized oram.valueSize
      (front ++ accessed newLeaf hasNew paddedNew ⟨key, leaf, value⟩ :: back) := by
    intro entry mem
    rcases List.mem_append.mp mem with inFront | inBack
    · exact sized entry (List.mem_append_left _ inFront)
    · rcases List.mem_cons.mp inBack with rfl | inBack
      · have blockSized := sized ⟨key, leaf, value⟩
          (List.mem_append_right _ List.mem_cons_self)
        unfold accessed
        dsimp only
        split
        · exact newSized
        · exact blockSized
      · exact sized entry (List.mem_append_right _ (List.mem_cons_of_mem _ inBack))
  have replaced : Holds { oram with
      stash := front ++ accessed newLeaf hasNew paddedNew ⟨key, leaf, value⟩ :: back }
      ({accessed newLeaf hasNew paddedNew ⟨key, leaf, value⟩} + others) := by
    refine holds.withStash accessedSized (Multiset.singleton_add ⟨key, leaf, value⟩ others).symm ?_
    rw [eq, realBlocks_append, realBlocks_append, realBlocks_cons_real newReal,
      realBlocks_cons_real isReal, ← Multiset.singleton_add, ← Multiset.singleton_add]
    abel
  rw [Multiset.singleton_add] at replaced
  exact ⟨⟨_, replaced, lists.replace rfl⟩, rfl⟩

/-- A dummy access changes nothing. -/
theorem Keeps.accessStash_dummy (keeps : oram.Keeps ledger) {key newLeaf : Int}
    {paddedNew result : Bytes} {hasNew : Bool} (newSized : paddedNew.length = oram.valueSize)
    (resultSized : result.length = oram.valueSize) :
    Keeps { oram with
      stash := (EnclaveOram.accessStash key newLeaf false hasNew paddedNew oram.stash result).1 }
      ledger := by
  rcases keeps with ⟨held, holds, lists⟩
  rw [accessStash_miss holds.sized newSized resultSized (fun _ _ isReal => by cases isReal)]
  exact ⟨held, holds, lists⟩

/-- The ledger after the block with a key was taken out. -/
def afterExtract (ledger : Ledger) (key : Int) (extracted : Block) : Ledger :=
  if extracted.key = invalidKey then ledger else Function.update ledger key none

/-- An extraction takes the block with its key out of the stash. -/
theorem Keeps.extract_hit (keeps : oram.Keeps ledger) {block : Block} (mem : block ∈ oram.stash)
    (isReal : block.key ≠ invalidKey) : (oram.extractFromStash block.key).1 = block ∧
      (oram.extractFromStash block.key).2.Keeps (Function.update ledger block.key none) := by
  rcases keeps.split mem isReal with
    ⟨others, front, back, holds, lists, eq, frontMisses, backMisses⟩
  have sized := holds.sized
  rw [eq] at sized
  have hit := extractLoop_hit sized isReal (length_emptySlot oram.valueSize) frontMisses backMisses
  unfold extractFromStash
  rw [eq, hit]
  have takenSized : Sized oram.valueSize (front ++ { block with key := invalidKey } :: back) := by
    intro entry entryMem
    rcases List.mem_append.mp entryMem with inFront | inBack
    · exact sized entry (List.mem_append_left _ inFront)
    · rcases List.mem_cons.mp inBack with rfl | inBack
      · exact sized block (List.mem_append_right _ List.mem_cons_self)
      · exact sized entry (List.mem_append_right _ (List.mem_cons_of_mem _ inBack))
  have taken : Holds { oram with stash := front ++ { block with key := invalidKey } :: back }
      (0 + others) := by
    refine holds.withStash takenSized (Multiset.singleton_add block others).symm ?_
    rw [eq, realBlocks_append, realBlocks_append, realBlocks_cons_dummy rfl,
      realBlocks_cons_real isReal, ← Multiset.singleton_add]
    abel
  rw [zero_add] at taken
  exact ⟨rfl, others, taken, lists.erase⟩

/-- An extraction finds the block in the stash or changes nothing. -/
theorem Keeps.extract (keeps : oram.Keeps ledger) (key : Int) :
    (oram.extractFromStash key).2.Keeps
      (afterExtract ledger key (oram.extractFromStash key).1) := by
  by_cases found : ∃ entry ∈ oram.stash, entry.key = key ∧ entry.key ≠ invalidKey
  · rcases found with ⟨entry, mem, rfl, isReal⟩
    rcases keeps.extract_hit mem isReal with ⟨isBlock, keeps'⟩
    rw [isBlock, afterExtract, if_neg isReal]
    exact keeps'
  · have misses : ∀ entry ∈ oram.stash, entry.key = key → entry.key = invalidKey := by
      intro entry mem same
      by_contra isReal
      exact found ⟨entry, mem, same, isReal⟩
    rcases keeps with ⟨held, holds, lists⟩
    have unchanged := extractLoop_miss holds.sized (length_emptySlot oram.valueSize) misses
    unfold extractFromStash
    rw [unchanged, afterExtract, if_pos (emptySlot_key _)]
    exact ⟨held, holds, lists⟩

/-- The ledger after a block was added. -/
def afterAdd (ledger : Ledger) (key leaf : Int) (value : Bytes) : Ledger :=
  if key = invalidKey then ledger else Function.update ledger key (some (leaf, value))

/-- Adding a block with a new key, or a dummy. -/
theorem Keeps.addToStash (keeps : oram.Keeps ledger) {key leaf : Int} {value : Bytes}
    (isNew : key = invalidKey ∨ ledger key = none) (short : value.length ≤ oram.valueSize) :
    (oram.addToStash key leaf value).Keeps
      (afterAdd ledger key leaf (padBytes value oram.valueSize)) := by
  rcases keeps with ⟨held, holds, lists⟩
  have addedSized : Sized oram.valueSize
      (oram.stash ++ [⟨key, leaf, padBytes value oram.valueSize⟩]) := by
    refine holds.sized.append ?_
    intro entry mem
    rw [List.mem_singleton.mp mem]
    exact length_padBytes short
  have added : (oram.addToStash key leaf value).Holds
      (realBlocks [⟨key, leaf, padBytes value oram.valueSize⟩] + held) := by
    refine holds.withStash addedSized (zero_add held).symm ?_
    rw [realBlocks_append, add_zero]
  by_cases isReal : key = invalidKey
  · rw [realBlocks_cons_dummy isReal] at added
    rw [afterAdd, if_pos isReal]
    exact ⟨held, (zero_add held) ▸ added, lists⟩
  · rw [realBlocks_singleton (by exact isReal), Multiset.singleton_add] at added
    rw [afterAdd, if_neg isReal]
    exact ⟨_, added, lists.add (isNew.resolve_left isReal)⟩

end Keeps

/-! ## One step of an ORAM with values of any length -/

/-- The ORAM keeps the values of a ledger up to its value size. -/
structure Sound (oram : EnclaveOram) (widest : Nat) (ledger : Ledger) : Prop where
  fitted : oram.Fitted widest
  keeps : oram.cut.Keeps (fitLedger oram.valueSize ledger)

section Sound

variable {oram : EnclaveOram} {widest : Nat} {ledger : Ledger} {leaf : Int}

theorem Sound.readPath (sound : oram.Sound widest ledger) (isLeaf : IsLeaf oram.level leaf) :
    (oram.readPath leaf).Sound widest ledger ∧
      (oram.readPath leaf).cut.Emptied (oram.path leaf) ∧ Alike oram (oram.readPath leaf) := by
  have alike : Alike oram (oram.readPath leaf) := alike_takeBuckets (oram.path leaf) oram
  rcases sound.keeps.readPath isLeaf with ⟨keeps, emptied, _⟩
  rw [← readPath_cut] at keeps emptied
  exact ⟨⟨sound.fitted.readPath leaf, alike.valueSize.symm ▸ keeps⟩, emptied, alike⟩

theorem Sound.evictPath (sound : oram.Sound widest ledger) (isLeaf : IsLeaf oram.level leaf)
    (emptied : oram.cut.Emptied (oram.path leaf)) :
    (oram.evictPath (oram.path leaf)).1.Sound widest ledger ∧
      Alike oram (oram.evictPath (oram.path leaf)).1 := by
  rcases sound.fitted.evictPath (oram.path leaf) with ⟨same, _, fitted⟩
  have full : oram.cut.stashMax ≤ oram.cut.stash.length :=
    sound.fitted.full.trans_eq (List.length_map _).symm
  rcases sound.keeps.evictPath isLeaf emptied full with ⟨keeps, alike⟩
  have alike' : Alike oram (oram.evictPath (oram.path leaf)).1 :=
    (alike_fillBuckets (oram.path leaf) oram).trans ⟨rfl, rfl, rfl, rfl⟩
  refine ⟨⟨fitted, ?_⟩, alike'⟩
  rw [alike'.valueSize, same]
  exact keeps

/-- The stash is scanned, and no block is lost. -/
theorem Sound.withStash (fitted : oram.Fitted widest) {stash : List Block}
    (stashFits : ∀ entry ∈ stash, Fits oram.valueSize widest entry)
    (sameLength : stash.length = oram.stash.length)
    (keeps : Keeps { oram.cut with stash := stash.map (cutBlock oram.valueSize) }
      (fitLedger oram.valueSize ledger)) : Sound { oram with stash } widest ledger :=
  ⟨⟨fitted.wide, stashFits, fitted.tree, sameLength ▸ fitted.full⟩, keeps⟩

theorem length_padBytes_bounds {value : Bytes} {size widest : Nat} (wide : size ≤ widest)
    (short : value.length ≤ widest) :
    size ≤ (padBytes value size).length ∧ (padBytes value size).length ≤ widest := by
  rw [padBytes, List.length_append, List.length_replicate]
  omega

/-- The new value of an access, padded, or zeros. -/
def paddedNew (size : Nat) : Option Bytes → Bytes
  | some value => padBytes value size
  | none => List.replicate size 0

theorem accessOrDummy_eq (oram : EnclaveOram) (key oldLeaf newLeaf : Int) (real : Bool)
    (newValue : Option Bytes) (dummyLeaf : Int) :
    oram.accessOrDummy key oldLeaf newLeaf real newValue dummyLeaf =
      let useLeaf := oSelect real oldLeaf dummyLeaf
      let read := oram.readPath useLeaf
      let scanned := EnclaveOram.accessStash key newLeaf real newValue.isSome
        (paddedNew read.valueSize newValue) read.stash (List.replicate read.valueSize 0)
      (scanned.2, { read with stash := scanned.1 }.evictPath (read.path useLeaf)) := by
  cases newValue <;> rfl

theorem paddedNew_spec {size widest : Nat} (wide : size ≤ widest) {newValue : Option Bytes}
    (short : ∀ value, newValue = some value → value.length ≤ widest) :
    (size ≤ (paddedNew size newValue).length ∧ (paddedNew size newValue).length ≤ widest) ∧
      ∀ value, (if newValue.isSome then (paddedNew size newValue).take size
        else fitValue size value) = fitValue size (newValue.getD value) := by
  cases newValue with
  | none => exact ⟨by simpa [paddedNew] using wide, fun _ => rfl⟩
  | some new =>
      exact ⟨length_padBytes_bounds wide (short new rfl), fun _ => take_padBytes_eq_fitValue size new⟩

/-- Scanning the stash for the block of an access, or for none. -/
theorem Sound.accessStash (sound : oram.Sound widest ledger) {key oldLeaf newLeaf : Int}
    {real hasNew : Bool} {paddedNew result : Bytes}
    (newFits : oram.valueSize ≤ paddedNew.length ∧ paddedNew.length ≤ widest)
    (resultFits : oram.valueSize ≤ result.length ∧ result.length ≤ widest) {value new : Bytes}
    (newTaken : (if hasNew then paddedNew.take oram.valueSize else fitValue oram.valueSize value) =
      fitValue oram.valueSize new)
    (isLive : real = true → ledger key = some (oldLeaf, value) ∧ IsLeaf oram.level oldLeaf ∧
      oram.cut.Emptied (oram.path oldLeaf)) :
    Sound { oram with
        stash := (EnclaveOram.accessStash key newLeaf real hasNew paddedNew oram.stash result).1 }
      widest (if real then Function.update ledger key (some (newLeaf, new)) else ledger) ∧
      (real = true →
        (EnclaveOram.accessStash key newLeaf real hasNew paddedNew oram.stash result).2.take
          oram.valueSize = fitValue oram.valueSize value) ∧
      oram.valueSize ≤
        (EnclaveOram.accessStash key newLeaf real hasNew paddedNew oram.stash result).2.length ∧
      (EnclaveOram.accessStash key newLeaf real hasNew paddedNew oram.stash result).2.length ≤
        widest := by
  rcases accessStash_cut key newLeaf real hasNew newFits sound.fitted.stash resultFits with
    ⟨same, stashFits, sameLength, bounds⟩
  have newSized : (paddedNew.take oram.valueSize).length = oram.cut.valueSize :=
    List.length_take.trans (min_eq_left newFits.1)
  have resultSized : (result.take oram.valueSize).length = oram.cut.valueSize :=
    List.length_take.trans (min_eq_left resultFits.1)
  cases real with
  | false =>
      have keeps := @Keeps.accessStash_dummy oram.cut _ sound.keeps key newLeaf _ _ hasNew newSized
        resultSized
      rw [show oram.cut.stash = oram.stash.map (cutBlock oram.valueSize) from rfl, same] at keeps
      exact ⟨Sound.withStash sound.fitted stashFits sameLength keeps,
        fun isReal => (Bool.false_ne_true isReal).elim, bounds⟩
  | true =>
      rcases isLive rfl with ⟨listed, isLeaf, emptied⟩
      have listed' : fitLedger oram.valueSize ledger key =
          some (oldLeaf, fitValue oram.valueSize value) := by
        rw [fitLedger, listed]
        rfl
      rcases @Keeps.accessStash oram.cut _ oldLeaf sound.keeps isLeaf emptied key newLeaf _ _ _
        hasNew listed' newSized resultSized with ⟨keeps, returned⟩
      rw [show oram.cut.stash = oram.stash.map (cutBlock oram.valueSize) from rfl, same] at keeps returned
      rw [newTaken, ← fitLedger_update] at keeps
      exact ⟨Sound.withStash sound.fitted stashFits sameLength keeps, fun _ => returned, bounds⟩

/-- An access, real or dummy, with what it returns. -/
theorem Sound.access (sound : oram.Sound widest ledger) {key oldLeaf newLeaf dummyLeaf : Int}
    {real : Bool} {newValue : Option Bytes}
    (short : ∀ value, newValue = some value → value.length ≤ widest)
    (isLeaf : IsLeaf oram.level (oSelect real oldLeaf dummyLeaf)) {value : Bytes}
    (isLive : real = true → ledger key = some (oldLeaf, value)) :
    (oram.accessOrDummy key oldLeaf newLeaf real newValue dummyLeaf).2.1.Sound widest
        (if real then Function.update ledger key (some (newLeaf, newValue.getD value)) else ledger) ∧
      Alike oram (oram.accessOrDummy key oldLeaf newLeaf real newValue dummyLeaf).2.1 ∧
      (real = true →
        (oram.accessOrDummy key oldLeaf newLeaf real newValue dummyLeaf).1.take oram.valueSize =
          fitValue oram.valueSize value) ∧
      oram.valueSize ≤ (oram.accessOrDummy key oldLeaf newLeaf real newValue dummyLeaf).1.length ∧
      (oram.accessOrDummy key oldLeaf newLeaf real newValue dummyLeaf).1.length ≤ widest := by
  rcases sound.readPath isLeaf with ⟨readSound, emptied, alike⟩
  have useLeafEq : real = true → oSelect real oldLeaf dummyLeaf = oldLeaf := by
    rintro rfl
    rfl
  rw [accessOrDummy_eq]
  dsimp only
  generalize oSelect real oldLeaf dummyLeaf = useLeaf at *
  generalize oram.readPath useLeaf = read at *
  rcases paddedNew_spec readSound.fitted.wide short with ⟨newFits, newTaken⟩
  have zerosFit : read.valueSize ≤ (List.replicate read.valueSize (0 : UInt8)).length ∧
      (List.replicate read.valueSize (0 : UInt8)).length ≤ widest := by
    rw [List.length_replicate]
    exact ⟨le_refl _, readSound.fitted.wide⟩
  rw [← alike.path] at emptied
  rw [← alike.level] at isLeaf
  have readLive : real = true → ledger key = some (oldLeaf, value) ∧ IsLeaf read.level oldLeaf ∧
      read.cut.Emptied (read.path oldLeaf) := by
    intro isReal
    have isOld := useLeafEq isReal
    exact ⟨isLive isReal, isOld ▸ isLeaf, isOld ▸ emptied⟩
  rcases @Sound.accessStash read widest ledger readSound key oldLeaf newLeaf real _ _ _ newFits
    zerosFit _ _ (newTaken value) readLive with ⟨scanned, returned, bounds⟩
  generalize EnclaveOram.accessStash key newLeaf real newValue.isSome
    (paddedNew read.valueSize newValue) read.stash (List.replicate read.valueSize 0) = outcome at *
  rcases scanned.evictPath isLeaf emptied with ⟨evicted, alike'⟩
  rw [alike.valueSize] at returned bounds
  have scannedAlike : Alike read { read with stash := outcome.1 } := ⟨rfl, rfl, rfl, rfl⟩
  exact ⟨evicted, alike.trans (scannedAlike.trans alike'), returned, bounds⟩

/-- A real access updates the ledger and returns the value it had. -/
theorem Sound.access_real (sound : oram.Sound widest ledger) {key oldLeaf : Int}
    (newLeaf dummyLeaf : Int) {newValue : Option Bytes}
    (short : ∀ value, newValue = some value → value.length ≤ widest)
    (isLeaf : IsLeaf oram.level oldLeaf) {value : Bytes}
    (isLive : ledger key = some (oldLeaf, value)) :
    (oram.accessOrDummy key oldLeaf newLeaf true newValue dummyLeaf).2.1.Sound widest
        (Function.update ledger key (some (newLeaf, newValue.getD value))) ∧
      Alike oram (oram.accessOrDummy key oldLeaf newLeaf true newValue dummyLeaf).2.1 ∧
      (oram.accessOrDummy key oldLeaf newLeaf true newValue dummyLeaf).1.take oram.valueSize =
        fitValue oram.valueSize value ∧
      oram.valueSize ≤ (oram.accessOrDummy key oldLeaf newLeaf true newValue dummyLeaf).1.length ∧
      (oram.accessOrDummy key oldLeaf newLeaf true newValue dummyLeaf).1.length ≤ widest := by
  rcases @Sound.access oram widest ledger sound key oldLeaf newLeaf dummyLeaf true newValue short
    isLeaf value (fun _ => isLive) with ⟨sound', alike, returned, bounds⟩
  rw [if_pos rfl] at sound'
  exact ⟨sound', alike, returned rfl, bounds⟩

/-- A dummy access changes no block. -/
theorem Sound.access_dummy (sound : oram.Sound widest ledger) (key oldLeaf newLeaf : Int)
    {dummyLeaf : Int} {newValue : Option Bytes}
    (short : ∀ value, newValue = some value → value.length ≤ widest)
    (isLeaf : IsLeaf oram.level dummyLeaf) :
    (oram.accessOrDummy key oldLeaf newLeaf false newValue dummyLeaf).2.1.Sound widest ledger ∧
      Alike oram (oram.accessOrDummy key oldLeaf newLeaf false newValue dummyLeaf).2.1 := by
  rcases @Sound.access oram widest ledger sound key oldLeaf newLeaf dummyLeaf false newValue short
    isLeaf [] (fun impossible => (Bool.false_ne_true impossible).elim) with ⟨sound', alike, _⟩
  rw [if_neg Bool.false_ne_true] at sound'
  exact ⟨sound', alike⟩

/-- What an extraction returns is cut off as well. -/
theorem extractFromStash_cut (fitted : oram.Fitted widest) (key : Int) :
    oram.cut.extractFromStash key = (cutBlock oram.valueSize (oram.extractFromStash key).1,
        (oram.extractFromStash key).2.cut) ∧ (oram.extractFromStash key).2.Fitted widest := by
  rcases extractLoop_cut key fitted.stash (fits_emptySlot fitted.wide) with
    ⟨same, stashFits, sameLength, _⟩
  rw [cutBlock_emptySlot] at same
  constructor
  · unfold extractFromStash
    rw [show extractLoop key oram.cut.stash (emptySlot oram.cut.valueSize) = _ from same]
    rfl
  · exact ⟨fitted.wide, stashFits, fitted.tree, sameLength ▸ fitted.full⟩

theorem Sound.extract (sound : oram.Sound widest ledger) (key : Int) :
    (oram.extractFromStash key).2.Sound widest
      (afterExtract ledger key (oram.extractFromStash key).1) := by
  rcases extractFromStash_cut sound.fitted key with ⟨same, fitted⟩
  have keeps := sound.keeps.extract key
  rw [same] at keeps
  refine ⟨fitted, ?_⟩
  unfold afterExtract at keeps ⊢
  split
  · rename_i isDummy
    rw [if_pos (show (cutBlock oram.valueSize (oram.extractFromStash key).1).key = invalidKey
      from isDummy)] at keeps
    exact keeps
  · rename_i isReal
    rw [if_neg (show ¬(cutBlock oram.valueSize (oram.extractFromStash key).1).key = invalidKey
      from isReal), ← fitLedger_erase] at keeps
    exact keeps

/-- While its path is empty, a block is extracted with its leaf and its value. -/
theorem Sound.extract_hit (sound : oram.Sound widest ledger) (isLeaf : IsLeaf oram.level leaf)
    (emptied : oram.cut.Emptied (oram.path leaf)) {key : Int} {value : Bytes}
    (isLive : ledger key = some (leaf, value)) :
    cutBlock oram.valueSize (oram.extractFromStash key).1 =
      ⟨key, leaf, fitValue oram.valueSize value⟩ := by
  rcases extractFromStash_cut sound.fitted key with ⟨same, _⟩
  have isLive' : fitLedger oram.valueSize ledger key =
      some (leaf, fitValue oram.valueSize value) := by
    rw [fitLedger, isLive]
    rfl
  rcases sound.keeps.mem_stash isLeaf emptied isLive' with ⟨mem, isReal⟩
  have hit := (sound.keeps.extract_hit mem isReal).1
  dsimp only at hit
  rw [same] at hit
  exact hit

theorem Sound.addToStash (sound : oram.Sound widest ledger) {key leaf : Int} {value : Bytes}
    (isNew : key = invalidKey ∨ ledger key = none) (short : value.length ≤ widest) :
    (oram.addToStash key leaf value).Sound widest (afterAdd ledger key leaf value) := by
  have isNew' : key = invalidKey ∨ fitLedger oram.valueSize ledger key = none := by
    refine isNew.imp_right (fun absent => ?_)
    rw [fitLedger, absent]
    rfl
  have short' : (value.take oram.valueSize).length ≤ oram.cut.valueSize := List.length_take_le _ _
  have keeps := @Keeps.addToStash oram.cut _ sound.keeps key leaf _ isNew' short'
  have added : oram.cut.addToStash key leaf (value.take oram.valueSize) =
      (oram.addToStash key leaf value).cut := by
    unfold EnclaveOram.addToStash cut
    rw [EnclaveOram.mk.injEq]
    refine ⟨rfl, rfl, rfl, rfl, rfl, ?_⟩
    rw [List.map_append, List.map_singleton, cutBlock]
    dsimp only
    rw [take_padBytes]
  refine ⟨⟨sound.fitted.wide, ?_, sound.fitted.tree, ?_⟩, ?_⟩
  · intro entry mem
    rcases List.mem_append.mp mem with inStash | isAdded
    · exact sound.fitted.stash entry inStash
    · rw [List.mem_singleton.mp isAdded]
      exact length_padBytes_bounds sound.fitted.wide short
  · change oram.stashMax ≤ (oram.stash ++ [_]).length
    rw [List.length_append]
    exact sound.fitted.full.trans (Nat.le_add_right _ _)
  · rw [← added]
    unfold afterAdd at keeps ⊢
    split
    · rename_i isDummy
      rw [if_pos isDummy] at keeps
      exact keeps
    · rename_i isReal
      rw [if_neg isReal] at keeps
      rw [fitLedger_update]
      exact keeps

end Sound

end EnclaveOram

end TieredOmap
