import TieredOMap.Tee.EnclaveConserves

/-!
# Runs of the ORAM of the enclave

`Reached` is any run of accesses, real or dummy, and of sessions that read a path, extract
and add blocks and evict the path. An eviction that overflows leaves a state like any
other. In every state reached the blocks are those of the ledger, each once, in the stash
or on its path, and an access returns the value last written.
-/

namespace TieredOmap

namespace EnclaveOram

/-! ## Initialisation -/

/-- The records a fresh ORAM is loaded with. -/
def initialLedger (data : List (Int × Bytes)) (leafMap : KeyMap Int Int) : Ledger := fun key =>
  if key = invalidKey then none
  else (data.find? (fun entry => entry.1 == key)).map
    (fun entry => (leafMap.getD key 0, entry.2))

section Init

variable {oram : EnclaveOram} {data : List (Int × Bytes)} {leafMap : KeyMap Int Int}

/-- A drawn leaf is a leaf. -/
theorem ends_randomLeaf (oram : EnclaveOram) :
    Prog.Ends (· = Err.stashOverflow) oram.randomLeaf (IsLeaf oram.level) := by
  have positive : 0 < oram.leafRange := Nat.two_pow_pos _
  refine Prog.ends_bind (ends_inTee (ends_randBelow positive)) ?_
  intro leaf leafLt
  refine Prog.ends_pure ⟨Int.natCast_nonneg _, ?_⟩
  exact_mod_cast leafLt

/-- Every key gets a leaf. -/
theorem ends_chooseLeaves (oram : EnclaveOram) {presetLeaves : KeyMap Int Int}
    (presetAreLeaves : ∀ key leaf, presetLeaves.get? key = some leaf → IsLeaf oram.level leaf)
    (data : List (Int × Bytes)) {leafMap : KeyMap Int Int}
    (areLeaves : ∀ key leaf, leafMap.get? key = some leaf → IsLeaf oram.level leaf) :
    Prog.Ends (· = Err.stashOverflow) (oram.chooseLeaves presetLeaves data leafMap) (fun leafMap' =>
      (∀ key leaf, leafMap'.get? key = some leaf → IsLeaf oram.level leaf) ∧
        (∀ entry ∈ data, (leafMap'.get? entry.1).isSome) ∧
        ∀ key, (leafMap.get? key).isSome → (leafMap'.get? key).isSome) := by
  have stored : ∀ (leafMap : KeyMap Int Int) (key leaf : Int),
      (∀ key leaf, leafMap.get? key = some leaf → IsLeaf oram.level leaf) →
      IsLeaf oram.level leaf →
      ∀ key' leaf', (leafMap.set key leaf).get? key' = some leaf' → IsLeaf oram.level leaf' := by
    intro leafMap key leaf areLeaves isLeaf key' leaf' found
    rw [KeyMap.get?_set] at found
    split at found
    · cases found
      exact isLeaf
    · exact areLeaves key' leaf' found
  induction data generalizing leafMap with
  | nil =>
      exact Prog.ends_pure ⟨areLeaves, fun _ mem => (List.not_mem_nil mem).elim, fun _ found => found⟩
  | cons entry rest ih =>
      -- What the rest of the loop does once the key has its leaf.
      have next : ∀ leafMap' : KeyMap Int Int,
          (∀ key leaf, leafMap'.get? key = some leaf → IsLeaf oram.level leaf) →
          (leafMap'.get? entry.1).isSome →
          (∀ key, (leafMap.get? key).isSome → (leafMap'.get? key).isSome) →
          Prog.Ends (· = Err.stashOverflow) (oram.chooseLeaves presetLeaves rest leafMap')
            (fun leafMap'' =>
              (∀ key leaf, leafMap''.get? key = some leaf → IsLeaf oram.level leaf) ∧
              (∀ entry' ∈ entry :: rest, (leafMap''.get? entry'.1).isSome) ∧
              ∀ key, (leafMap.get? key).isSome → (leafMap''.get? key).isSome) := by
        intro leafMap' areLeaves' hasLeaf kept
        refine (ih areLeaves').mono (fun leafMap'' => ?_)
        rintro ⟨areLeaves'', restHave, kept'⟩
        refine ⟨areLeaves'', ?_, fun key found => kept' key (kept key found)⟩
        intro entry' mem
        rcases List.mem_cons.mp mem with rfl | inRest
        · exact kept' _ hasLeaf
        · exact restHave entry' inRest
      have setHas : ∀ leaf, ((leafMap.set entry.1 leaf).get? entry.1).isSome := by
        intro leaf
        rw [KeyMap.get?_set_self]
        rfl
      have setKeeps : ∀ leaf key, (leafMap.get? key).isSome →
          ((leafMap.set entry.1 leaf).get? key).isSome := by
        intro leaf key found
        rw [KeyMap.get?_set]
        split
        · rfl
        · exact found
      unfold chooseLeaves
      rcases listed : leafMap.get? entry.1 with _ | leaf
      · rcases preset : presetLeaves.get? entry.1 with _ | leaf
        · refine Prog.ends_bind oram.ends_randomLeaf (fun leaf isLeaf => ?_)
          exact next _ (stored _ _ _ areLeaves isLeaf) (setHas leaf) (setKeeps leaf)
        · exact next _ (stored _ _ _ areLeaves (presetAreLeaves _ _ preset)) (setHas leaf)
            (setKeeps leaf)
      · exact next leafMap areLeaves (listed ▸ rfl) (fun _ found => found)

/-- Placing a block is placing its first bytes. -/
theorem placeBlock_cut (oram : EnclaveOram) (block : Block) :
    (oram.placeBlock block).cut = oram.cut.placeBlock (cutBlock oram.valueSize block) := by
  have modified : ∀ bucket : List Block,
      (modifyFirst (fun slot => slot.key == invalidKey) (fun _ => block) bucket).map
          (cutBlock oram.valueSize) =
        modifyFirst (fun slot => slot.key == invalidKey) (fun _ => cutBlock oram.valueSize block)
          (bucket.map (cutBlock oram.valueSize)) := by
    intro bucket
    induction bucket with
    | nil => rfl
    | cons slot rest ih =>
        rw [List.map_cons, modifyFirst, modifyFirst]
        rw [show (cutBlock oram.valueSize slot).key = slot.key from rfl]
        split
        · rfl
        · rw [List.map_cons, ih]
  have sameSearch : (oram.cut.path (cutBlock oram.valueSize block).leaf).find?
      (fun node => (oram.cut.tree node).any (fun slot => slot.key == invalidKey)) =
        (oram.path block.leaf).find?
          (fun node => (oram.tree node).any (fun slot => slot.key == invalidKey)) := by
    have sameTest : ∀ node, (oram.cut.tree node).any (fun slot => slot.key == invalidKey) =
        (oram.tree node).any (fun slot => slot.key == invalidKey) := by
      intro node
      exact List.any_map
    rw [(alike_cut oram).path]
    exact congrArg (fun test => (oram.path block.leaf).find? test) (funext sameTest)
  unfold placeBlock
  rw [sameSearch]
  generalize (oram.path block.leaf).find?
    (fun node => (oram.tree node).any (fun slot => slot.key == invalidKey)) = place
  rcases place with _ | node
  · unfold cut
    rw [EnclaveOram.mk.injEq]
    exact ⟨rfl, rfl, rfl, rfl, rfl, List.map_append⟩
  · dsimp only
    rw [setBucket_cut, modified]
    rfl

/-- Every value in the tree and in the stash is long enough. -/
def AllFit (oram : EnclaveOram) (widest : Nat) : Prop :=
  (∀ entry ∈ oram.stash, Fits oram.valueSize widest entry) ∧
    ∀ node, ∀ slot ∈ oram.tree node, Fits oram.valueSize widest slot

theorem AllFit.placeBlock {widest : Nat} {block : Block} (allFit : oram.AllFit widest)
    (blockFits : Fits oram.valueSize widest block) : (oram.placeBlock block).AllFit widest := by
  unfold EnclaveOram.placeBlock
  split
  · rename_i node _
    refine ⟨allFit.1, ?_⟩
    intro node' slot mem
    change slot ∈ (if node' = node then _ else oram.tree node') at mem
    split at mem
    · rcases mem_modifyFirst_const mem with rfl | before
      · exact blockFits
      · exact allFit.2 node slot before
    · exact allFit.2 node' slot mem
  · refine ⟨?_, allFit.2⟩
    intro entry mem
    rcases List.mem_append.mp mem with inStash | isNew
    · exact allFit.1 entry inStash
    · rw [List.mem_singleton.mp isNew]
      exact blockFits

theorem alike_placeBlock (oram : EnclaveOram) (block : Block) :
    Alike oram (oram.placeBlock block) := by
  unfold placeBlock
  split <;> exact ⟨rfl, rfl, rfl, rfl⟩

/-- Placing blocks in turn. -/
theorem AllFit.placeBlocks {widest : Nat} {entries : List Block} (allFit : oram.AllFit widest)
    (entriesFit : ∀ entry ∈ entries, Fits oram.valueSize widest entry) :
    (entries.foldl EnclaveOram.placeBlock oram).AllFit widest ∧
      Alike oram (entries.foldl EnclaveOram.placeBlock oram) ∧
      (entries.foldl EnclaveOram.placeBlock oram).cut =
        (entries.map (cutBlock oram.valueSize)).foldl EnclaveOram.placeBlock oram.cut := by
  induction entries generalizing oram with
  | nil => exact ⟨allFit, Alike.refl _, rfl⟩
  | cons entry rest ih =>
      have alike := oram.alike_placeBlock entry
      have restFit : ∀ entry' ∈ rest, Fits (oram.placeBlock entry).valueSize widest entry' := by
        intro entry' mem
        rw [alike.valueSize]
        exact entriesFit entry' (List.mem_cons_of_mem _ mem)
      rcases ih (allFit.placeBlock (entriesFit entry List.mem_cons_self)) restFit with
        ⟨allFit', alike', same⟩
      refine ⟨allFit', alike.trans alike', ?_⟩
      rw [List.map_cons, List.foldl_cons, List.foldl_cons, ← placeBlock_cut, same, alike.valueSize]

theorem padStash_cut (oram : EnclaveOram) : oram.padStash.cut = oram.cut.padStash := by
  unfold padStash cut
  rw [EnclaveOram.mk.injEq]
  refine ⟨rfl, rfl, rfl, rfl, rfl, ?_⟩
  rw [List.map_append, List.map_replicate, cutBlock_emptySlot, List.length_map]

/-- The blocks of some records are those of the initial ledger. -/
theorem lists_initial (size : Nat) (distinct : (data.map Prod.fst).Nodup)
    (leafMap : KeyMap Int Int) :
    Lists (realBlocks (data.map (fun entry =>
      ⟨entry.1, leafMap.getD entry.1 0, fitValue size entry.2⟩)))
      (fitLedger size (initialLedger data leafMap)) := by
  constructor
  · have sub : (((data.map (fun entry =>
        (⟨entry.1, leafMap.getD entry.1 0, fitValue size entry.2⟩ : Block))).filter
          (fun entry => !oEqual entry.key invalidKey)).map Block.key).Sublist
            (data.map Prod.fst) := by
      refine (List.filter_sublist.map Block.key).trans ?_
      rw [List.map_map]
      exact List.Sublist.refl _
    exact distinct.sublist sub
  · intro block
    rw [mem_realBlocks, List.mem_map, fitLedger, initialLedger]
    constructor
    · rintro ⟨⟨entry, mem, rfl⟩, isReal⟩
      have found : data.find? (fun entry' => entry'.1 == entry.1) = some entry := by
        rcases search : data.find? (fun entry' => entry'.1 == entry.1) with _ | entry'
        · exact (List.find?_eq_none.mp search entry mem (by simp)).elim
        · have same : entry'.1 = entry.1 := by simpa using List.find?_some search
          have isEntry := List.inj_on_of_nodup_map distinct (List.mem_of_find?_eq_some search) mem same
          exact search.trans (congrArg some isEntry)
      rw [if_neg isReal, found]
      rfl
    · intro listed
      split at listed
      · cases listed
      · rename_i isReal
        rcases found : data.find? (fun entry => entry.1 == block.key) with _ | entry
        · rw [found] at listed
          cases listed
        · rw [found] at listed
          have same : entry.1 = block.key := by simpa using List.find?_some found
          refine ⟨⟨entry, List.mem_of_find?_eq_some found, ?_⟩, isReal⟩
          rcases block with ⟨key, leaf, value⟩
          dsimp only at same
          subst same
          simp only [Option.map_some, Option.some.injEq, Prod.mk.injEq] at listed
          rw [Block.mk.injEq]
          exact ⟨rfl, listed⟩

/-- A freshly loaded ORAM keeps the records. -/
theorem sound_load {numData : Int} {valueSize bucketSize stashScale widest : Nat}
    (fresh : oram = new numData valueSize bucketSize stashScale) (wide : valueSize ≤ widest)
    (distinct : (data.map Prod.fst).Nodup) (short : ∀ entry ∈ data, entry.2.length ≤ widest)
    (areLeaves : ∀ key leaf, leafMap.get? key = some leaf → IsLeaf oram.level leaf)
    (listed : ∀ entry ∈ data, (leafMap.get? entry.1).isSome) :
    (oram.load data leafMap).Sound widest (initialLedger data leafMap) ∧
      Alike oram (oram.load data leafMap) := by
  subst fresh
  generalize emptyEq : new numData valueSize bucketSize stashScale = empty at *
  have sizeEq : empty.valueSize = valueSize := by
    rw [← emptyEq]
    rfl
  have noStash : { empty with stash := [] } = empty := by
    rw [← emptyEq]
    rfl
  have allFit : empty.AllFit widest := by
    rw [← emptyEq]
    refine ⟨fun entry mem => (List.not_mem_nil mem).elim, ?_⟩
    intro node slot mem
    rw [List.eq_of_mem_replicate mem]
    exact fits_emptySlot wide
  have blocksFit : ∀ block ∈ data.map (empty.blockOf leafMap),
      Fits empty.valueSize widest block := by
    intro block mem
    rcases List.mem_map.mp mem with ⟨entry, entryMem, rfl⟩
    exact length_padBytes_bounds (sizeEq ▸ wide) (short entry entryMem)
  have cutBlocks : (data.map (empty.blockOf leafMap)).map (cutBlock empty.valueSize) =
      data.map (fun entry =>
        ⟨entry.1, leafMap.getD entry.1 0, fitValue empty.valueSize entry.2⟩) := by
    rw [List.map_map]
    refine List.map_congr_left (fun entry _ => ?_)
    rw [Function.comp_apply, blockOf, cutBlock]
    dsimp only
    rw [take_padBytes_eq_fitValue]
  rcases allFit.placeBlocks blocksFit with ⟨allFit', alike, same⟩
  have emptyHolds : empty.cut.Holds 0 := by
    have nothing := holds_new numData valueSize bucketSize stashScale
    rw [emptyEq] at nothing
    have sameEmpty : empty.cut = empty := by
      rw [← emptyEq, cut, new]
      rw [EnclaveOram.mk.injEq]
      refine ⟨rfl, rfl, rfl, rfl, ?_, rfl⟩
      funext node
      dsimp only
      rw [List.map_replicate, cutBlock_emptySlot]
    rw [sameEmpty]
    exact nothing
  have cutSized : Sized empty.cut.valueSize (data.map (fun entry =>
      (⟨entry.1, leafMap.getD entry.1 0, fitValue empty.valueSize entry.2⟩ : Block))) := by
    intro block mem
    rcases List.mem_map.mp mem with ⟨entry, _, rfl⟩
    exact length_fitValue _ _
  have cutLeaves : ∀ block ∈ data.map (fun entry =>
      (⟨entry.1, leafMap.getD entry.1 0, fitValue empty.valueSize entry.2⟩ : Block)),
      IsLeaf empty.cut.level block.leaf := by
    intro block mem
    rcases List.mem_map.mp mem with ⟨entry, entryMem, rfl⟩
    rcases Option.isSome_iff_exists.mp (listed entry entryMem) with ⟨leaf, found⟩
    dsimp only
    rw [KeyMap.getD_of_get? found]
    exact areLeaves entry.1 leaf found
  rcases emptyHolds.placeBlocks cutSized cutLeaves with ⟨holds, _⟩
  rw [← cutBlocks, ← same] at holds
  have padHolds := holds.padStash
  rw [← padStash_cut] at padHolds
  unfold load
  rw [noStash]
  generalize (data.map (empty.blockOf leafMap)).foldl EnclaveOram.placeBlock empty = loaded at *
  refine ⟨⟨⟨?_, ?_, ?_, stashMax_le_padStash loaded⟩, ?_⟩, alike.trans ⟨rfl, rfl, rfl, rfl⟩⟩
  · exact (alike.valueSize.trans sizeEq).trans_le wide
  · intro entry mem
    rcases List.mem_append.mp mem with inStash | isPad
    · exact allFit'.1 entry inStash
    · rw [List.eq_of_mem_replicate isPad]
      exact fits_emptySlot ((alike.valueSize.trans sizeEq).trans_le wide)
  · exact allFit'.2
  · refine ⟨_, padHolds, ?_⟩
    rw [cutBlocks, add_zero]
    change Lists _ (fitLedger loaded.valueSize _)
    rw [alike.valueSize]
    exact lists_initial empty.valueSize distinct leafMap

end Init

/-! ## Runs -/

/--
The states reached from a fresh ORAM, with the ledger of what was given to it and the leaf
of the path that has been read and not yet evicted. No value is longer than `widest`.
-/
inductive Reached (numData : Int) (valueSize bucketSize stashScale widest : Nat) :
    EnclaveOram → Ledger → Option Int → Prop where
  | init {data : List (Int × Bytes)} {presetLeaves leafMap : KeyMap Int Int} {oram : EnclaveOram}
      {world world' : TeeWorld} (distinct : (data.map Prod.fst).Nodup)
      (presetAreLeaves : ∀ key leaf, presetLeaves.get? key = some leaf →
        IsLeaf (new numData valueSize bucketSize stashScale).level leaf)
      (short : ∀ entry ∈ data, entry.2.length ≤ widest)
      (run : ((new numData valueSize bucketSize stashScale).init data presetLeaves).runFrom world =
        (.ok (leafMap, oram), world')) :
      Reached numData valueSize bucketSize stashScale widest oram (initialLedger data leafMap) none
  | access {oram : EnclaveOram} {ledger : Ledger} {key oldLeaf newLeaf dummyLeaf : Int}
      {value : Bytes} {newValue : Option Bytes}
      (reached : Reached numData valueSize bucketSize stashScale widest oram ledger none)
      (isLive : ledger key = some (oldLeaf, value)) (isLeaf : IsLeaf oram.level oldLeaf)
      (short : ∀ new, newValue = some new → new.length ≤ widest) :
      Reached numData valueSize bucketSize stashScale widest
        (oram.accessOrDummy key oldLeaf newLeaf true newValue dummyLeaf).2.1
        (Function.update ledger key (some (newLeaf, newValue.getD value))) none
  | dummy {oram : EnclaveOram} {ledger : Ledger} {key oldLeaf newLeaf dummyLeaf : Int}
      {newValue : Option Bytes}
      (reached : Reached numData valueSize bucketSize stashScale widest oram ledger none)
      (isLeaf : IsLeaf oram.level dummyLeaf)
      (short : ∀ new, newValue = some new → new.length ≤ widest) :
      Reached numData valueSize bucketSize stashScale widest
        (oram.accessOrDummy key oldLeaf newLeaf false newValue dummyLeaf).2.1 ledger none
  | read {oram : EnclaveOram} {ledger : Ledger} {leaf : Int}
      (reached : Reached numData valueSize bucketSize stashScale widest oram ledger none)
      (isLeaf : IsLeaf oram.level leaf) :
      Reached numData valueSize bucketSize stashScale widest (oram.readPath leaf) ledger (some leaf)
  | extract {oram : EnclaveOram} {ledger : Ledger} {leaf key : Int}
      (reached : Reached numData valueSize bucketSize stashScale widest oram ledger (some leaf)) :
      Reached numData valueSize bucketSize stashScale widest (oram.extractFromStash key).2
        (afterExtract ledger key (oram.extractFromStash key).1) (some leaf)
  | add {oram : EnclaveOram} {ledger : Ledger} {leaf key newLeaf : Int} {value : Bytes}
      (reached : Reached numData valueSize bucketSize stashScale widest oram ledger (some leaf))
      (isNew : key = invalidKey ∨ ledger key = none) (short : value.length ≤ widest) :
      Reached numData valueSize bucketSize stashScale widest (oram.addToStash key newLeaf value)
        (afterAdd ledger key newLeaf value) (some leaf)
  | evict {oram : EnclaveOram} {ledger : Ledger} {leaf : Int}
      (reached : Reached numData valueSize bucketSize stashScale widest oram ledger (some leaf)) :
      Reached numData valueSize bucketSize stashScale widest
        (oram.evictPath (oram.path leaf)).1 ledger none

section Runs

variable {numData : Int} {valueSize bucketSize stashScale widest : Nat} {oram : EnclaveOram}
  {ledger : Ledger} {session : Option Int}

/-- What holds in every state reached. -/
theorem Reached.sound
    (reached : Reached numData valueSize bucketSize stashScale widest oram ledger session) :
    oram.Sound (max valueSize widest) ledger ∧
      Alike (new numData valueSize bucketSize stashScale) oram ∧
      ∀ leaf, session = some leaf → IsLeaf oram.level leaf ∧ oram.cut.Emptied (oram.path leaf) := by
  induction reached with
  | @init data presetLeaves leafMap oram world world' distinct presetAreLeaves short run =>
      rcases Prog.runs_of_bind run with ⟨chosen, between, choosing, returned⟩
      have ends := ends_chooseLeaves (new numData valueSize bucketSize stashScale) presetAreLeaves
        data (fun key leaf (found : (∅ : KeyMap Int Int).get? key = some leaf) => by cases found)
      rcases ends.returned choosing with ⟨areLeaves, listed, _⟩
      cases returned
      have longer : ∀ entry ∈ data, entry.2.length ≤ max valueSize widest :=
        fun entry mem => (short entry mem).trans (le_max_right _ _)
      rcases sound_load rfl (le_max_left _ _) distinct longer areLeaves listed with ⟨sound, alike⟩
      exact ⟨sound, alike, fun leaf impossible => by cases impossible⟩
  | @access _ _ _ _ newLeaf dummyLeaf _ _ reached isLive isLeaf short ih =>
      rcases ih with ⟨sound, alike, _⟩
      rcases sound.access_real newLeaf dummyLeaf
        (fun new given => (short new given).trans (le_max_right _ _)) isLeaf isLive with
        ⟨sound', alike', _⟩
      exact ⟨sound', alike.trans alike', fun leaf impossible => by cases impossible⟩
  | @dummy _ _ key oldLeaf newLeaf _ _ reached isLeaf short ih =>
      rcases ih with ⟨sound, alike, _⟩
      rcases sound.access_dummy key oldLeaf newLeaf
        (fun new given => (short new given).trans (le_max_right _ _)) isLeaf with ⟨sound', alike'⟩
      exact ⟨sound', alike.trans alike', fun leaf impossible => by cases impossible⟩
  | @read oram ledger leaf reached isLeaf ih =>
      rcases ih with ⟨sound, alike, _⟩
      rcases sound.readPath isLeaf with ⟨sound', emptied, alike'⟩
      refine ⟨sound', alike.trans alike', ?_⟩
      rintro leaf' ⟨⟩
      rw [alike'.level, alike'.path]
      exact ⟨isLeaf, emptied⟩
  | extract reached ih =>
      rcases ih with ⟨sound, alike, open'⟩
      exact ⟨sound.extract _, alike.trans ⟨rfl, rfl, rfl, rfl⟩, open'⟩
  | add reached isNew short ih =>
      rcases ih with ⟨sound, alike, open'⟩
      exact ⟨sound.addToStash isNew (short.trans (le_max_right _ _)),
        alike.trans ⟨rfl, rfl, rfl, rfl⟩, open'⟩
  | evict reached ih =>
      rcases ih with ⟨sound, alike, open'⟩
      rcases open' _ rfl with ⟨isLeaf, emptied⟩
      rcases sound.evictPath isLeaf emptied with ⟨sound', alike'⟩
      exact ⟨sound', alike.trans alike', fun leaf impossible => by cases impossible⟩

/-- No value of the ledger is too long. -/
theorem Reached.short
    (reached : Reached numData valueSize bucketSize stashScale widest oram ledger session)
    {key leaf : Int} {value : Bytes} (isLive : ledger key = some (leaf, value)) :
    value.length ≤ widest := by
  induction reached generalizing key leaf value with
  | @init data _ leafMap _ _ _ _ _ short _ =>
      rw [initialLedger] at isLive
      split at isLive
      · cases isLive
      · rcases found : data.find? (fun entry => entry.1 == key) with _ | entry
        · rw [found] at isLive
          cases isLive
        · rw [found] at isLive
          cases isLive
          exact short entry (List.mem_of_find?_eq_some found)
  | @access _ _ key' _ newLeaf _ old newValue reached wasLive _ short ih =>
      rw [Function.update_apply] at isLive
      split at isLive
      · cases isLive
        rcases newValue with _ | new
        · exact ih wasLive
        · exact short new rfl
      · exact ih isLive
  | dummy _ _ _ ih => exact ih isLive
  | read _ _ ih => exact ih isLive
  | extract _ ih =>
      unfold afterExtract at isLive
      split at isLive
      · exact ih isLive
      · rw [Function.update_apply] at isLive
        split at isLive
        · cases isLive
        · exact ih isLive
  | add _ _ short ih =>
      unfold afterAdd at isLive
      split at isLive
      · exact ih isLive
      · rw [Function.update_apply] at isLive
        split at isLive
        · cases isLive
          exact short
        · exact ih isLive
  | evict _ ih => exact ih isLive

/-- How often a key is in the stash and in the tree. -/
def keyCount (oram : EnclaveOram) (key : Int) : Nat :=
  oram.stash.countP (fun entry => entry.key == key) +
    ∑ node ∈ oram.nodes, (oram.tree node).countP (fun slot => slot.key == key)

theorem keyCount_cut (oram : EnclaveOram) (key : Int) : oram.cut.keyCount key = oram.keyCount key := by
  have mapped : ∀ entries : List Block,
      (entries.map (cutBlock oram.valueSize)).countP (fun entry => entry.key == key) =
        entries.countP (fun entry => entry.key == key) := by
    intro entries
    rw [List.countP_map]
    rfl
  unfold keyCount
  change (oram.stash.map _).countP _ + ∑ node ∈ oram.nodes, ((oram.tree node).map _).countP _ = _
  rw [mapped]
  congr 1
  exact Finset.sum_congr rfl (fun node _ => mapped (oram.tree node))

/-- Real keys are counted among the real blocks. -/
theorem count_key_realBlocks {key : Int} (isReal : key ≠ invalidKey) (entries : List Block) :
    ((realBlocks entries).map Block.key).count key =
      entries.countP (fun entry => entry.key == key) := by
  induction entries with
  | nil => rfl
  | cons entry rest ih =>
      rw [realBlocks_cons, Multiset.map_add, Multiset.count_add, ih, List.countP_cons, add_comm]
      congr 1
      by_cases isDummy : entry.key = invalidKey
      · have differs : entry.key ≠ key := fun same => isReal (same ▸ isDummy)
        rw [realBlocks_cons_dummy isDummy, if_neg (by simpa using differs)]
        rfl
      · rw [realBlocks_singleton isDummy, Multiset.map_singleton, Multiset.count_singleton]
        by_cases same : entry.key = key
        · rw [if_pos same.symm, if_pos (by simpa using same)]
        · rw [if_neg (Ne.symm same), if_neg (by simpa using same)]

theorem keyCount_eq {key : Int} (isReal : key ≠ invalidKey) :
    oram.keyCount key = (oram.blocks.map Block.key).count key := by
  rw [blocks, Multiset.map_add, Multiset.count_add, count_key_realBlocks isReal, keyCount]
  congr 1
  rw [← Multiset.coe_mapAddMonoidHom, map_sum, ← Multiset.coe_countAddMonoidHom, map_sum]
  exact Finset.sum_congr rfl (fun node _ => (count_key_realBlocks isReal (oram.tree node)).symm)

/-- A live key is in the ORAM once, any other key nowhere. -/
theorem Keeps.keyCount_eq (keeps : oram.Keeps ledger) {key : Int} (isReal : key ≠ invalidKey) :
    oram.keyCount key = if (ledger key).isSome then 1 else 0 := by
  rcases keeps with ⟨held, holds, lists⟩
  rw [EnclaveOram.keyCount_eq isReal, holds.blocks_eq]
  split
  · rename_i isLive
    rcases Option.isSome_iff_exists.mp isLive with ⟨⟨leaf, value⟩, listed⟩
    have mem : (⟨key, leaf, value⟩ : Block) ∈ held := (lists.entry ⟨key, leaf, value⟩).mpr listed
    exact Multiset.count_eq_one_of_mem lists.once (Multiset.mem_map.mpr ⟨_, mem, rfl⟩)
  · rename_i absent
    refine Multiset.count_eq_zero.mpr ?_
    intro mem
    rcases Multiset.mem_map.mp mem with ⟨block, blockMem, rfl⟩
    rw [(lists.entry block).mp blockMem] at absent
    exact absent rfl

theorem slots_of_cut {held : Multiset Block} (holds : oram.cut.Holds held) {node : Int}
    (mem : node ∈ oram.nodes) : (oram.tree node).length = oram.bucketSize ∧
      ∀ slot ∈ oram.tree node, slot.key ≠ invalidKey → oram.pathContains slot.leaf node = true := by
  constructor
  · have slots := holds.slots node mem
    rwa [show oram.cut.tree node = (oram.tree node).map (cutBlock oram.valueSize) from rfl,
      List.length_map] at slots
  · intro slot slotMem isReal
    exact holds.placed node mem (cutBlock oram.valueSize slot)
      (mem_realBlocks.mpr ⟨List.mem_map.mpr ⟨slot, slotMem, rfl⟩, isReal⟩)

/--
In every state reached, also after an eviction that overflows, each live key is in the
stash and the tree once and every other key nowhere, blocks in the tree are on their own
paths, and buckets have all their slots. What an access returns begins with the value last
written, up to the value size, and is that value padded if none was longer. In a session
the blocks of the path read are there to be extracted.
-/
theorem reached_conserves_blocks
    (reached : Reached numData valueSize bucketSize stashScale widest oram ledger session) :
    (∀ key ≠ invalidKey, oram.keyCount key = if (ledger key).isSome then 1 else 0) ∧
      (∀ node ∈ oram.nodes, (oram.tree node).length = bucketSize ∧
        ∀ slot ∈ oram.tree node, slot.key ≠ invalidKey →
          oram.pathContains slot.leaf node = true) ∧
      (session = none → ∀ (key leaf newLeaf dummyLeaf : Int) (value : Bytes)
        (newValue : Option Bytes), ledger key = some (leaf, value) → IsLeaf oram.level leaf →
        (∀ new, newValue = some new → new.length ≤ widest) →
        (oram.accessOrDummy key leaf newLeaf true newValue dummyLeaf).1.take valueSize =
            padBytes (value.take valueSize) valueSize ∧
          (widest ≤ valueSize →
            (oram.accessOrDummy key leaf newLeaf true newValue dummyLeaf).1 =
              padBytes value valueSize)) ∧
      ∀ leaf, session = some leaf → ∀ key value, ledger key = some (leaf, value) →
        (oram.extractFromStash key).1.key = key ∧ (oram.extractFromStash key).1.leaf = leaf ∧
          (oram.extractFromStash key).1.value.take valueSize =
            padBytes (value.take valueSize) valueSize := by
  rcases reached.sound with ⟨sound, alike, inSession⟩
  have keeps := sound.keeps
  rcases keeps with ⟨held, holds, lists⟩
  have sizeEq : oram.valueSize = valueSize := alike.valueSize
  refine ⟨?_, ?_, ?_, ?_⟩
  · intro key isReal
    rw [← keyCount_cut, sound.keeps.keyCount_eq isReal, fitLedger, Option.isSome_map]
  · intro node mem
    have slots := slots_of_cut holds mem
    rw [alike.bucketSize] at slots
    exact slots
  · intro _ key leaf newLeaf dummyLeaf value newValue isLive isLeaf short
    rcases sound.access_real newLeaf dummyLeaf
      (fun new given => (short new given).trans (le_max_right _ _)) isLeaf isLive with
      ⟨_, _, returned, lower, upper⟩
    rw [sizeEq] at returned lower
    refine ⟨returned, fun noWider => ?_⟩
    rw [max_eq_left noWider] at upper
    rw [List.take_of_length_le upper] at returned
    rw [returned, fitValue_of_le ((reached.short isLive).trans noWider)]
  · intro leaf isOpen key value isLive
    rcases inSession leaf isOpen with ⟨isLeaf, emptied⟩
    have hit := sound.extract_hit isLeaf emptied isLive
    rw [sizeEq] at hit
    have fields := hit
    rw [cutBlock, Block.mk.injEq] at fields
    exact fields

/-- One record of one byte in an ORAM for values of two bytes. -/
theorem reached_shortRecord :
    Reached 1 2 1 7 1 ((new 1 2 1).load [(5, [1])] ((∅ : KeyMap Int Int).set 5 0))
      (initialLedger [(5, [1])] ((∅ : KeyMap Int Int).set 5 0)) none := by
  have started : ((new 1 2 1).init [(5, [1])] ∅).runFrom {} =
      (.ok ((∅ : KeyMap Int Int).set 5 0,
        (new 1 2 1).load [(5, [1])] ((∅ : KeyMap Int Int).set 5 0)), {}) := rfl
  exact Reached.init (by decide) (fun key leaf found => by cases found) (by decide) started

/-- A short value does not come back as it was written. -/
theorem access_pads_value : ¬ ∀ (numData : Int) (valueSize bucketSize stashScale widest : Nat)
    (oram : EnclaveOram) (ledger : Ledger) (key leaf newLeaf dummyLeaf : Int) (value : Bytes),
    Reached numData valueSize bucketSize stashScale widest oram ledger none →
    ledger key = some (leaf, value) → IsLeaf oram.level leaf →
    (oram.accessOrDummy key leaf newLeaf true none dummyLeaf).1 = value := by
  intro claimed
  have returned := claimed 1 2 1 7 1 _ _ 5 0 0 0 [1] reached_shortRecord rfl
    ⟨by decide, by decide⟩
  exact absurd returned (by decide +kernel)

/-- The key is there once, and read with a zero. -/
theorem conserves_shortRecord :
    ((new 1 2 1).load [(5, [1])] ((∅ : KeyMap Int Int).set 5 0)).keyCount 5 = 1 ∧
      (((new 1 2 1).load [(5, [1])] ((∅ : KeyMap Int Int).set 5 0)).accessOrDummy
        5 0 0 true none 0).1 = [1, 0] := by
  rcases reached_conserves_blocks reached_shortRecord with ⟨counts, _, access, _⟩
  refine ⟨counts 5 (by decide), ?_⟩
  exact (access rfl 5 0 0 0 [1] none rfl ⟨by decide, by decide⟩
    (fun _ impossible => by cases impossible)).2 (by decide)

end Runs

end EnclaveOram

end TieredOmap
