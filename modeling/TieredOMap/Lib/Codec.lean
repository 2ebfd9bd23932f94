import Mathlib.Tactic.Common

/-!
# Reading what was written

A decoder takes symbols from the front of a stream, or fails. `Reads` says that a decoder
gets a value back from its encoding, whatever follows in the stream, and leaves exactly
what follows. Decoders in sequence read encodings one after the other, so a format built
from parts is read back part by part.
-/

/-- A computation that takes symbols from the front of a stream. -/
abbrev Decoder (Symbol Err : Type) := StateT (List Symbol) (Except Err)

namespace Decoder

variable {Symbol Err α β : Type}

/-- Take one value after the other. -/
def times (decoder : Decoder Symbol Err α) : Nat → Decoder Symbol Err (List α)
  | 0 => return []
  | count + 1 => do
      let value ← decoder
      let rest ← times decoder count
      return value :: rest

/-- From the symbols of an encoding the decoder gets the value, and it takes no more. -/
def Reads (decoder : Decoder Symbol Err α) (value : α) (symbols : List Symbol) : Prop :=
  ∀ rest, decoder.run (symbols ++ rest) = .ok (value, rest)

section Reads

variable {decoder : Decoder Symbol Err α} {value : α} {symbols : List Symbol}

theorem reads_pure (value : α) : Reads (pure value : Decoder Symbol Err α) value [] := fun _ => rfl

theorem reads_bind {next : α → Decoder Symbol Err β} {value' : β} {symbols' : List Symbol}
    (first : Reads decoder value symbols) (rest : Reads (next value) value' symbols') :
    Reads (decoder >>= next) value' (symbols ++ symbols') := by
  intro stream
  rw [List.append_assoc, StateT.run_bind, first]
  exact rest stream

/-- What comes after the last symbol is not looked at. -/
theorem reads_bind_pure {value' : β} {f : α → β} (first : Reads decoder value symbols)
    (same : f value = value') :
    Reads (decoder >>= fun value => pure (f value)) value' symbols := by
  intro stream
  rw [StateT.run_bind, first, ← same]
  rfl

/-- A stream that ends with the encoding. -/
theorem Reads.run (reads : Reads decoder value symbols) : decoder.run symbols = .ok (value, []) := by
  have whole := reads []
  rwa [List.append_nil] at whole

/-- A list is read back from the encodings of its items. -/
theorem reads_times {encode : α → List Symbol} {values : List α}
    (each : ∀ value ∈ values, Reads decoder value (encode value)) :
    Reads (decoder.times values.length) values (values.flatMap encode) := by
  induction values with
  | nil => exact reads_pure []
  | cons value rest ih =>
      rw [List.flatMap_cons]
      refine reads_bind (each value List.mem_cons_self) ?_
      exact reads_bind_pure (ih (fun value mem => each value (List.mem_cons_of_mem _ mem))) rfl

end Reads

end Decoder

/-! ## Patching -/

section Overwrite

variable {Symbol : Type}

/-- Write symbols over those at an offset of a stream. -/
def overwrite (stream : List Symbol) (offset : Nat) (symbols : List Symbol) : List Symbol :=
  stream.take offset ++ (symbols ++ stream.drop (offset + symbols.length))

/-- A part of a stream is replaced by one of the same length. -/
theorem overwrite_append {front old new back : List Symbol} (same : new.length = old.length) :
    overwrite (front ++ (old ++ back)) front.length new = front ++ (new ++ back) := by
  unfold overwrite
  rw [List.take_left, same, ← List.append_assoc front old back, ← List.length_append,
    List.drop_left]

end Overwrite
