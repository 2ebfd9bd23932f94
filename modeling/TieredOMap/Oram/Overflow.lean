import TieredOMap.Oram.Rounds

/-!
# What a stash overflow leaves behind

`evict_stash`, `prepare_eviction` and `prepare_eviction_paths` move blocks from the stash to
local buckets before they check the size of the stash, and drop these buckets when they throw.
The methods are modelled here as programs that change the object step by step, so that the
object a throw leaves behind can be seen. The server still has the buckets that were fetched:
nothing is lost or doubled exactly when the eviction only puts these blocks back.
-/

namespace TieredOmap

open BinaryTreeStorage Bucketed

/-- A method of a Path ORAM object; what it has changed stays changed when it throws. -/
abbrev PathORAM.Method (Result : Type) := Prog (PathORAM × World) Err Result

namespace PathORAM.Method

/-- The object. -/
def self : Method PathORAM := fun state => (.ok state.1, state)

/-- Change the object. -/
def change (f : PathORAM → PathORAM) : Method Unit := fun state => (.ok (), (f state.1, state.2))

/-- Draw, send or throw, without changing the object. -/
def ask {Result : Type} (f : PathORAM → Rand Result) : Method Result := fun state =>
  match (f state.1).runFrom state.2 with
  | (outcome, world) => (outcome, (state.1, world))

variable [Cipher]

/-- Fill the buckets of some paths from the stash and check what is left. -/
def fillAndCheck (leaves : List Int) : Method PathData := do
  let oram ← self
  change (fun oram => (oram.fillFromStash leaves).2)
  let left ← self
  if left.overflows then Prog.fail .stashOverflow else return (oram.fillFromStash leaves).1

/-- `prepare_eviction`. -/
def prepareEviction (leaf : Int) : Method PathData := do
  let path ← fillAndCheck [leaf]
  return encryptPath path

/-- `prepare_eviction_paths`. -/
def prepareEvictionPaths (leaves : List Int) : Method PathData := do
  let path ← fillAndCheck leaves
  let oram ← self
  return encryptPath (path.map (fun entry =>
    (entry.1, entry.2 ++ List.replicate (oram.bucketSize - entry.2.length).toNat ({} : Block))))

/-- `evict_stash`. -/
def evictStash (leaves : List Int) : Method Unit := do
  let path ← fillAndCheck leaves
  ask (fun oram => send (.writePaths oram.storage.storeId))
  change (fun oram => oram.writePath (encryptPath path))

/-- `read_path_to_stash`. -/
def readPathToStash (leaf : Int) : Method Unit := do
  ask (fun oram => send (.readPath oram.storage.storeId))
  change (fun oram => oram.applyFetchedPath (oram.storage.readPath leaf))

/-- The value and the leaf that `access` gives its block. -/
def rewritten (newValue : Option Bytes) (newLeaf : Int) (block : Block) : Block :=
  { block with value := newValue.getD block.value, leaf := newLeaf }

/-- The end of `access`: the block is in the stash now. -/
def rewriteAndEvict (key : Int) (newValue : Option Bytes) (oldLeaf newLeaf : Int) :
    Method Bytes := do
  let oram ← self
  match oram.findInStash key with
  | none => Prog.fail .keyNotFound
  | some target =>
      change (fun oram => oram.updateInStash key (rewritten newValue newLeaf))
      evictStash [oldLeaf]
      return target.value

/-- `access`. -/
def access (key : Int) (newValue : Option Bytes) : Method Bytes := do
  let oram ← self
  match oram.posMap.get? key with
  | none => Prog.fail .outOfRange
  | some oldLeaf =>
      let newLeaf ← ask PathORAM.randomLeaf
      change (fun oram => oram.setLeaf key newLeaf)
      readPathToStash oldLeaf
      rewriteAndEvict key newValue oldLeaf newLeaf

/-- `dummy_access`. -/
def dummyAccess : Method Unit := do
  let leaf ← ask PathORAM.randomLeaf
  readPathToStash leaf
  evictStash [leaf]

/-! ## The methods and the functions agree -/

/-- A method computes what a function of the object computes; only its throws show more. -/
def Agrees {Result : Type} (method : Method Result) (f : PathORAM → Rand (Result × PathORAM)) :
    Prop :=
  ∀ oram world, match (f oram).runFrom world with
    | (.ok (result, oram'), world') =>
        method.runFrom (oram, world) = (.ok result, (oram', world'))
    | (.error error, world') =>
        ∃ left, method.runFrom (oram, world) = (.error error, (left, world'))

section Agrees

variable {α β : Type}

omit [Cipher] in
theorem agrees_pure (result : α) :
    Agrees (pure result) (fun oram => pure (result, oram)) :=
  fun _ _ => rfl

omit [Cipher] in
theorem agrees_fail (error : Err) :
    Agrees (Prog.fail error : Method α) (fun _ => Prog.fail error) :=
  fun oram _ => ⟨oram, rfl⟩

omit [Cipher] in
theorem agrees_self {next : PathORAM → Method β} {g : PathORAM → PathORAM → Rand (β × PathORAM)}
    (rest : ∀ oram, Agrees (next oram) (g oram)) :
    Agrees (self >>= next) (fun oram => g oram oram) := by
  intro oram world
  rw [Prog.runFrom_bind]
  exact rest oram oram world

omit [Cipher] in
theorem agrees_change (f : PathORAM → PathORAM) :
    Agrees (change f) (fun oram => pure ((), f oram)) :=
  fun _ _ => rfl

omit [Cipher] in
theorem agrees_ask (f : PathORAM → Rand α) {next : α → Method β}
    {g : α → PathORAM → Rand (β × PathORAM)} (rest : ∀ result, Agrees (next result) (g result)) :
    Agrees (ask f >>= next) (fun oram => do let result ← f oram; g result oram) := by
  intro oram world
  rw [Prog.runFrom_bind, Prog.runFrom_bind]
  have asked : (ask f).runFrom (oram, world) =
      (((f oram).runFrom world).1, (oram, ((f oram).runFrom world).2)) := rfl
  rw [asked]
  rcases run : (f oram).runFrom world with ⟨error | result, world'⟩
  · exact ⟨oram, rfl⟩
  · exact rest result oram world'

omit [Cipher] in
/-- A part of a method. -/
theorem Agrees.bind {method : Method α} {f : PathORAM → Rand (α × PathORAM)}
    (agrees : Agrees method f) {next : α → Method β} {g : α → PathORAM → Rand (β × PathORAM)}
    (rest : ∀ result, Agrees (next result) (g result)) :
    Agrees (method >>= next) (fun oram => do let (result, oram) ← f oram; g result oram) := by
  intro oram world
  have first := agrees oram world
  rw [Prog.runFrom_bind, Prog.runFrom_bind]
  rcases run : (f oram).runFrom world with ⟨error | ⟨result, oram'⟩, world'⟩
  · rw [run] at first
    rcases first with ⟨left, first⟩
    rw [first]
    exact ⟨left, rfl⟩
  · rw [run] at first
    rw [first]
    exact rest result oram' world'

omit [Cipher] in
theorem Agrees.congr {method : Method α} {f g : PathORAM → Rand (α × PathORAM)}
    (agrees : Agrees method f) (same : ∀ oram, f oram = g oram) : Agrees method g := by
  rw [← funext same]
  exact agrees

end Agrees

omit [Cipher] in
theorem agrees_fillAndCheck (leaves : List Int) :
    Agrees (fillAndCheck leaves) (fun oram =>
      if (oram.fillFromStash leaves).2.overflows then Prog.fail .stashOverflow
      else return oram.fillFromStash leaves) := by
  refine Agrees.congr (agrees_self (fun oram => (agrees_change _).bind (fun _ =>
    agrees_self (fun left => (?_ : Agrees _ (fun left' =>
      if left.overflows then Prog.fail .stashOverflow
      else return ((oram.fillFromStash leaves).1, left'))))))) (fun _ => rfl)
  split
  · exact agrees_fail _
  · exact agrees_pure _

theorem agrees_prepareEviction (leaf : Int) :
    Agrees (prepareEviction leaf) (fun oram => oram.prepareEviction leaf) := by
  refine Agrees.congr ((agrees_fillAndCheck [leaf]).bind (fun path => agrees_pure _)) ?_
  intro oram
  unfold PathORAM.prepareEviction
  dsimp only
  split <;> rfl

theorem agrees_prepareEvictionPaths (leaves : List Int) :
    Agrees (prepareEvictionPaths leaves) (fun oram => oram.prepareEvictionPaths leaves) := by
  refine Agrees.congr ((agrees_fillAndCheck leaves).bind (fun path =>
    agrees_self (fun oram => agrees_pure _))) ?_
  intro oram
  unfold PathORAM.prepareEvictionPaths
  dsimp only
  split <;> rfl

theorem agrees_evictStash (leaves : List Int) :
    Agrees (evictStash leaves) (fun oram => do
      let oram ← oram.evictStash leaves
      return ((), oram)) := by
  refine Agrees.congr ((agrees_fillAndCheck leaves).bind (fun path =>
    agrees_ask (fun oram => send (.writePaths oram.storage.storeId)) (fun _ =>
      agrees_change _))) ?_
  intro oram
  unfold PathORAM.evictStash
  dsimp only
  split <;> rfl

theorem agrees_readPathToStash (leaf : Int) :
    Agrees (readPathToStash leaf) (fun oram => do
      let oram ← oram.readPathToStash leaf
      return ((), oram)) := by
  exact agrees_ask (fun oram => send (.readPath oram.storage.storeId)) (fun _ => agrees_change _)

theorem agrees_dummyAccess :
    Agrees dummyAccess (fun oram => do
      let oram ← oram.dummyAccess
      return ((), oram)) := by
  refine Agrees.congr (agrees_ask PathORAM.randomLeaf (fun leaf =>
    (agrees_readPathToStash leaf).bind (fun _ => agrees_evictStash [leaf]))) ?_
  intro oram
  simp only [PathORAM.dummyAccess, PathORAM.evictAndWritePath, bind_assoc, pure_bind]

theorem agrees_rewriteAndEvict (key : Int) (newValue : Option Bytes) (oldLeaf newLeaf : Int) :
    Agrees (rewriteAndEvict key newValue oldLeaf newLeaf) (fun oram =>
      match oram.findInStash key with
      | none => Prog.fail .keyNotFound
      | some target => do
          let oram ← (oram.updateInStash key (rewritten newValue newLeaf)).evictStash [oldLeaf]
          return (target.value, oram)) := by
  refine Agrees.congr (agrees_self (fun oram => (?_ : Agrees _ (fun oram' =>
    match oram.findInStash key with
    | none => Prog.fail .keyNotFound
    | some target => do
        let oram' ← (oram'.updateInStash key (rewritten newValue newLeaf)).evictStash [oldLeaf]
        return (target.value, oram'))))) (fun _ => rfl)
  split
  · exact agrees_fail _
  · rename_i target _
    refine Agrees.congr ((agrees_change _).bind (fun _ => (agrees_evictStash [oldLeaf]).bind
      (fun _ => agrees_pure target.value))) ?_
    intro oram'
    simp only [pure_bind, bind_assoc]

theorem agrees_access (key : Int) (newValue : Option Bytes) :
    Agrees (access key newValue) (fun oram => oram.access key newValue) := by
  refine Agrees.congr (agrees_self (fun oram => (?_ : Agrees _ (fun oram' =>
    match oram.posMap.get? key with
    | none => Prog.fail .outOfRange
    | some oldLeaf => do
        let newLeaf ← oram'.randomLeaf
        let oram' ← (oram'.setLeaf key newLeaf).readPathToStash oldLeaf
        match oram'.findInStash key with
        | none => Prog.fail .keyNotFound
        | some target => do
            let oram' ← (oram'.updateInStash key (rewritten newValue newLeaf)).evictStash [oldLeaf]
            return (target.value, oram'))))) (fun _ => rfl)
  split
  · exact agrees_fail _
  · rename_i oldLeaf _
    refine agrees_ask PathORAM.randomLeaf (fun newLeaf => ?_)
    refine Agrees.congr ((agrees_change _).bind (fun _ => (agrees_readPathToStash oldLeaf).bind
      (fun _ => agrees_rewriteAndEvict key newValue oldLeaf newLeaf))) ?_
    intro oram'
    simp only [pure_bind, bind_assoc]

/-! ## The object after a throw -/

section Throws

variable {oram left : PathORAM} {world world' : World} {leaves : List Int}

omit [Cipher] in
theorem run_fillAndCheck (oram : PathORAM) (world : World) (leaves : List Int) :
    (fillAndCheck leaves).runFrom (oram, world) =
      if (oram.fillFromStash leaves).2.overflows then
        (.error .stashOverflow, ((oram.fillFromStash leaves).2, world))
      else (.ok (oram.fillFromStash leaves).1, ((oram.fillFromStash leaves).2, world)) := by
  have unfolded : (fillAndCheck leaves).runFrom (oram, world) =
      (if (oram.fillFromStash leaves).2.overflows then Prog.fail .stashOverflow
        else return (oram.fillFromStash leaves).1 : Method PathData).runFrom
          ((oram.fillFromStash leaves).2, world) := rfl
  rw [unfolded]
  split <;> rfl

/-- What an eviction leaves when the stash is still too large after the fill. -/
def Overflowed (oram : PathORAM) (leaves : List Int) (left : PathORAM) : Prop :=
  left = (oram.fillFromStash leaves).2 ∧ left.overflows = true

omit [Cipher] in
theorem left_fillAndCheck {error : Err}
    (run : (fillAndCheck leaves).runFrom (oram, world) = (.error error, (left, world'))) :
    Overflowed oram leaves left := by
  rw [run_fillAndCheck] at run
  split at run
  · rename_i overflows
    cases run
    exact ⟨rfl, overflows⟩
  · cases run

theorem left_evictStash {error : Err}
    (run : (evictStash leaves).runFrom (oram, world) = (.error error, (left, world'))) :
    Overflowed oram leaves left := by
  rcases Prog.throws_of_bind run with first | ⟨path, ⟨filled, between⟩, _, rest⟩
  · exact left_fillAndCheck first
  · cases rest

theorem left_prepareEviction {error : Err} {leaf : Int}
    (run : (prepareEviction leaf).runFrom (oram, world) = (.error error, (left, world'))) :
    Overflowed oram [leaf] left := by
  rcases Prog.throws_of_bind run with first | ⟨path, ⟨filled, between⟩, _, rest⟩
  · exact left_fillAndCheck first
  · cases rest

theorem left_prepareEvictionPaths {error : Err}
    (run : (prepareEvictionPaths leaves).runFrom (oram, world) = (.error error, (left, world'))) :
    Overflowed oram leaves left := by
  rcases Prog.throws_of_bind run with first | ⟨path, ⟨filled, between⟩, _, rest⟩
  · exact left_fillAndCheck first
  · cases rest

omit [Cipher] in
/-- Drawing a leaf does not throw. -/
theorem run_randomLeaf (oram : PathORAM) (world : World) :
    ∃ leaf between, oram.randomLeaf.runFrom world = (.ok leaf, between) := by
  have drawn : ∃ leaf between, (randBelow oram.leafRange).runFrom world = (.ok leaf, between) := by
    unfold Prog.runFrom randBelow
    split <;> exact ⟨_, _, rfl⟩
  rcases drawn with ⟨leaf, between, drawn⟩
  refine ⟨leaf, between, ?_⟩
  rw [PathORAM.randomLeaf, Prog.runFrom_bind, drawn]
  rfl

omit [Cipher] in
theorem run_ask_bind {α β : Type} {f : PathORAM → Rand α} {result : α} {between : World}
    (asked : (f oram).runFrom world = (.ok result, between)) (next : α → Method β) :
    (ask f >>= next).runFrom (oram, world) = (next result).runFrom (oram, between) := by
  have run : (ask f).runFrom (oram, world) =
      (((f oram).runFrom world).1, (oram, ((f oram).runFrom world).2)) := rfl
  rw [Prog.runFrom_bind, run, asked]

theorem run_readPathToStash_bind {β : Type} (leaf : Int) (next : Unit → Method β) :
    ∃ between, (readPathToStash leaf >>= next).runFrom (oram, world) =
      (next ()).runFrom (oram.applyFetchedPath (oram.storage.readPath leaf), between) :=
  ⟨_, Prog.runFrom_bind _ _ _⟩

theorem left_dummyAccess {error : Err}
    (run : dummyAccess.runFrom (oram, world) = (.error error, (left, world'))) :
    ∃ leaf between, oram.randomLeaf.runFrom world = (.ok leaf, between) ∧
      Overflowed (oram.applyFetchedPath (oram.storage.readPath leaf)) [leaf] left := by
  rcases run_randomLeaf oram world with ⟨leaf, between, drawn⟩
  rcases @run_readPathToStash_bind _ oram between _ leaf (fun _ => evictStash [leaf]) with
    ⟨between', read⟩
  refine ⟨leaf, between, drawn, ?_⟩
  rw [dummyAccess, run_ask_bind drawn, read] at run
  exact left_evictStash run

/-- The object when `access` looks for its block in the stash. -/
def begun (oram : PathORAM) (key oldLeaf newLeaf : Int) : PathORAM :=
  (oram.setLeaf key newLeaf).applyFetchedPath (oram.storage.readPath oldLeaf)

theorem left_rewriteAndEvict {key : Int} {newValue : Option Bytes} {oldLeaf newLeaf : Int}
    (run : (rewriteAndEvict key newValue oldLeaf newLeaf).runFrom (oram, world) =
      (.error .stashOverflow, (left, world'))) :
    (∃ target, oram.findInStash key = some target) ∧
      Overflowed (oram.updateInStash key (rewritten newValue newLeaf)) [oldLeaf] left := by
  have begun : (rewriteAndEvict key newValue oldLeaf newLeaf).runFrom (oram, world) =
      Prog.runFrom (match oram.findInStash key with
        | none => Prog.fail .keyNotFound
        | some target => do
            change (fun oram => oram.updateInStash key (rewritten newValue newLeaf))
            evictStash [oldLeaf]
            return target.value) (oram, world) := rfl
  rcases found : oram.findInStash key with _ | target
  · rw [begun, found] at run
    cases run
  · rw [begun, found] at run
    have changed : (do
        change (fun oram => oram.updateInStash key (rewritten newValue newLeaf))
        evictStash [oldLeaf]
        return target.value : Method Bytes).runFrom (oram, world) =
          (evictStash [oldLeaf] >>= fun _ => pure target.value).runFrom
            (oram.updateInStash key (rewritten newValue newLeaf), world) := rfl
    rcases Prog.throws_of_bind (changed.symm.trans run) with first | ⟨_, _, _, rest⟩
    · exact ⟨⟨target, rfl⟩, left_evictStash first⟩
    · cases rest

theorem left_access {key : Int} {newValue : Option Bytes}
    (run : (access key newValue).runFrom (oram, world) =
      (.error .stashOverflow, (left, world'))) :
    ∃ oldLeaf newLeaf between, oram.posMap.get? key = some oldLeaf ∧
      oram.randomLeaf.runFrom world = (.ok newLeaf, between) ∧
      (∃ target, (begun oram key oldLeaf newLeaf).findInStash key = some target) ∧
      Overflowed ((begun oram key oldLeaf newLeaf).updateInStash key
        (rewritten newValue newLeaf)) [oldLeaf] left := by
  have unfolded : (access key newValue).runFrom (oram, world) =
      Prog.runFrom (match oram.posMap.get? key with
        | none => Prog.fail .outOfRange
        | some oldLeaf => do
            let newLeaf ← ask PathORAM.randomLeaf
            change (fun oram => oram.setLeaf key newLeaf)
            readPathToStash oldLeaf
            rewriteAndEvict key newValue oldLeaf newLeaf) (oram, world) := rfl
  rcases recorded : oram.posMap.get? key with _ | oldLeaf
  · rw [unfolded, recorded] at run
    cases run
  · rw [unfolded, recorded] at run
    rcases run_randomLeaf oram world with ⟨newLeaf, between, drawn⟩
    rw [run_ask_bind drawn] at run
    refine ⟨oldLeaf, newLeaf, between, rfl, drawn, ?_⟩
    rcases @run_readPathToStash_bind _ (oram.setLeaf key newLeaf) between _ oldLeaf
      (fun _ => rewriteAndEvict key newValue oldLeaf newLeaf) with ⟨between', read⟩
    have changed : (do
        change (fun oram => oram.setLeaf key newLeaf)
        readPathToStash oldLeaf
        rewriteAndEvict key newValue oldLeaf newLeaf : Method Bytes).runFrom (oram, between) =
          (readPathToStash oldLeaf >>= fun _ =>
            rewriteAndEvict key newValue oldLeaf newLeaf).runFrom
              (oram.setLeaf key newLeaf, between) := rfl
    rw [changed, read] at run
    exact left_rewriteAndEvict run

end Throws

end PathORAM.Method

end TieredOmap
