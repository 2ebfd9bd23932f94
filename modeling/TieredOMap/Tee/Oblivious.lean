import TieredOMap.Common

/-!
# Branch-free primitives and the world of the enclave

`oblivious.h`: conditional moves, swaps and comparisons. A flag is an `int` of `0`
or `1` in the source and a `Bool` here. Moving a byte buffer first gives the
destination the size of the source, whether or not the move happens.

The enclave draws as the client does. What an observer of the memory sees are the
path reads and the evictions, with the number of stash entries each one scans.
-/

namespace TieredOmap

/-! ## Moves and comparisons -/

/-- `o_mov`, `o_mov_i` and `o_mov_bool`. -/
def oMov {α : Type} (cond : Bool) (dst src : α) : α := if cond then src else dst

/-- `o_select_i`. -/
def oSelect {α : Type} (cond : Bool) (ifSet otherwise : α) : α := oMov cond otherwise ifSet

@[simp]
theorem oMov_true {α : Type} (dst src : α) : oMov true dst src = src := rfl

@[simp]
theorem oMov_false {α : Type} (dst src : α) : oMov false dst src = dst := rfl

@[simp]
theorem oSelect_true {α : Type} (ifSet otherwise : α) : oSelect true ifSet otherwise = ifSet := rfl

@[simp]
theorem oSelect_false {α : Type} (ifSet otherwise : α) :
    oSelect false ifSet otherwise = otherwise := rfl

/-- `o_equal`. -/
def oEqual (a b : Int) : Bool := a == b

@[simp]
theorem oEqual_eq (a b : Int) : oEqual a b = decide (a = b) := rfl

/-- `o_less`: the sign bit of the difference, which wraps. -/
def oLess (a b : Int) : Bool := Int.bmod (a - b) (2 ^ 32) < 0

/-- `o_max`. -/
def oMax (a b : Int) : Int := oSelect (oLess a b) b a

/-- `std::vector::resize` of a byte buffer with zeros. -/
def resizeBytes (bytes : Bytes) (size : Nat) : Bytes :=
  bytes.take size ++ List.replicate (size - bytes.length) 0

/-- `o_mov_bytes`. -/
def oMovBytes (cond : Bool) (dst src : Bytes) : Bytes :=
  oMov cond (resizeBytes dst src.length) src

/-- `o_swap_i`. -/
def oSwap {α : Type} (cond : Bool) (a b : α) : α × α := if cond then (b, a) else (a, b)

/-- `o_swap_bytes`. -/
def oSwapBytes (cond : Bool) (a b : Bytes) : Bytes × Bytes :=
  oSwap cond (resizeBytes a (max a.length b.length)) (resizeBytes b (max a.length b.length))

@[simp]
theorem resizeBytes_length_self (bytes : Bytes) : resizeBytes bytes bytes.length = bytes := by
  simp [resizeBytes]

theorem resizeBytes_of_length {bytes : Bytes} {size : Nat} (sameSize : bytes.length = size) :
    resizeBytes bytes size = bytes := by
  rw [← sameSize, resizeBytes_length_self]

@[simp]
theorem length_resizeBytes (bytes : Bytes) (size : Nat) :
    (resizeBytes bytes size).length = size := by
  simp only [resizeBytes, List.length_append, List.length_take, List.length_replicate]
  omega

@[simp]
theorem length_oMovBytes (cond : Bool) (dst src : Bytes) :
    (oMovBytes cond dst src).length = src.length := by
  cases cond <;> simp [oMovBytes]

/-- Between buffers of one size a move only moves. -/
theorem oMovBytes_of_length {cond : Bool} {dst src : Bytes} (sameSize : dst.length = src.length) :
    oMovBytes cond dst src = oMov cond dst src := by
  rw [oMovBytes, resizeBytes_of_length sameSize]

theorem oSwapBytes_of_length {cond : Bool} {a b : Bytes} (sameSize : a.length = b.length) :
    oSwapBytes cond a b = oSwap cond a b := by
  rw [oSwapBytes, resizeBytes_of_length (by omega), resizeBytes_of_length (by omega)]

/-- Keys and counters are far from wrapping. -/
theorem oLess_eq {a b : Int} (lower : -2 ^ 31 ≤ a - b) (upper : a - b < 2 ^ 31) :
    oLess a b = decide (a < b) := by
  rw [oLess, bmod_of_isInt ⟨lower, upper⟩]
  refine decide_eq_decide.mpr ?_
  omega

theorem length_padBytes {bytes : Bytes} {size : Nat} (fits : bytes.length ≤ size) :
    (padBytes bytes size).length = size := by
  simp only [padBytes, List.length_append, List.length_replicate]
  omega

/-! ## The world of the enclave -/

/-- The ORAMs of the enclave. -/
inductive OramName where
  | hot
  | upper
  | lower
deriving DecidableEq, Repr

/-- What an observer sees of an ORAM. -/
inductive OramStep where
  | read (oram : OramName)
  | evict (oram : OramName) (scanned : Nat)
deriving DecidableEq, Repr

/-- The client's world, with the steps made so far. -/
structure TeeWorld extends World where
  steps : List OramStep := []

/-- A computation of the enclave. -/
abbrev TeeRand (Result : Type) := Prog TeeWorld Err Result

/-- Run a computation of the client. -/
def inTee {Result : Type} (program : Rand Result) : TeeRand Result := fun world =>
  let outcome := program.runFrom world.toWorld
  (outcome.1, { world with toWorld := outcome.2 })

theorem runFrom_inTee {Result : Type} (program : Rand Result) (world : TeeWorld) :
    (inTee program).runFrom world = ((program.runFrom world.toWorld).1,
      { world with toWorld := (program.runFrom world.toWorld).2 }) := rfl

theorem ends_inTee {Result : Type} {program : Rand Result} {allowed : Err → Prop}
    {post : Result → Prop} (ends : Prog.Ends allowed program post) :
    Prog.Ends allowed (inTee program) post := by
  intro world _
  have outcome := ends world.toWorld trivial
  rw [runFrom_inTee]
  rcases run : program.runFrom world.toWorld with ⟨error | result, world'⟩
  · rw [run] at outcome
    exact outcome
  · rw [run] at outcome
    exact outcome

/-- Make a step. -/
def noteStep (step : OramStep) : TeeRand Unit := fun world =>
  (.ok (), { world with steps := world.steps ++ [step] })

end TieredOmap
