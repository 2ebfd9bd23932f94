import Mathlib.Algebra.BigOperators.Group.Finset.Basic
import Mathlib.Algebra.Order.Group.Multiset
import Mathlib.Tactic.Abel

/-!
# Buckets and a stash

A store keeps items in the buckets of finitely many nodes and in a stash. A
client works on some nodes at a time: it checks them out (copies their buckets
to the stash, leaving stale copies behind), rearranges the stash, and checks
them in again (overwrites their buckets). What the client owns is the stash
together with the buckets that are not checked out; both moves preserve it.
-/

namespace Bucketed

open Finset

variable {ν β : Type} [DecidableEq ν]

/-- The items in the stash and in the buckets that are not checked out. -/
def visible (nodes checkedOut : Finset ν) (tree : ν → Multiset β) (stash : Multiset β) :
    Multiset β :=
  stash + ∑ node ∈ nodes \ checkedOut, tree node

/-- Checking out a set of nodes preserves the visible items. -/
theorem visible_checkOut {nodes path : Finset ν} (inNodes : path ⊆ nodes)
    (tree : ν → Multiset β) (stash : Multiset β) :
    visible nodes path tree (stash + ∑ node ∈ path, tree node) = visible nodes ∅ tree stash := by
  have split := sum_sdiff inNodes (f := tree)
  simp only [visible, sdiff_empty, ← split]
  abel

/-- Checking nodes in again preserves the visible items when their new buckets came from the stash. -/
theorem visible_checkIn {nodes path : Finset ν} (inNodes : path ⊆ nodes)
    {tree tree' : ν → Multiset β} {stash remaining : Multiset β}
    (frame : ∀ node, node ∉ path → tree' node = tree node)
    (split : stash = remaining + ∑ node ∈ path, tree' node) :
    visible nodes ∅ tree' remaining = visible nodes path tree stash := by
  have outside : ∑ node ∈ nodes \ path, tree node = ∑ node ∈ nodes \ path, tree' node := by
    apply sum_congr rfl
    intro node nodeMem
    exact (frame node (mem_sdiff.mp nodeMem).2).symm
  have parts := sum_sdiff inNodes (f := tree')
  simp only [visible, sdiff_empty, split, outside, ← parts]
  abel

/-- A visible item is in the stash or in a bucket that is not checked out. -/
theorem mem_visible_iff {nodes checkedOut : Finset ν} {tree : ν → Multiset β}
    {stash : Multiset β} {item : β} :
    item ∈ visible nodes checkedOut tree stash ↔
      item ∈ stash ∨ ∃ node ∈ nodes, node ∉ checkedOut ∧ item ∈ tree node := by
  simp only [visible, Multiset.mem_add, Multiset.mem_sum, mem_sdiff]
  constructor
  · rintro (inStash | ⟨node, ⟨nodeMem, out⟩, inBucket⟩)
    · exact Or.inl inStash
    · exact Or.inr ⟨node, nodeMem, out, inBucket⟩
  · rintro (inStash | ⟨node, nodeMem, out, inBucket⟩)
    · exact Or.inl inStash
    · exact Or.inr ⟨node, ⟨nodeMem, out⟩, inBucket⟩

/-- Every item of every bucket may live at that node. -/
def Placed (nodes : Finset ν) (tree : ν → Multiset β) (home : β → Finset ν) : Prop :=
  ∀ node ∈ nodes, ∀ item ∈ tree node, node ∈ home item

/-- Once all nodes where an item may live are checked out, the item is in the stash. -/
theorem mem_stash_of_home {nodes checkedOut : Finset ν} {tree : ν → Multiset β}
    {stash : Multiset β} {home : β → Finset ν} (placed : Placed nodes tree home) {item : β}
    (itemMem : item ∈ visible nodes checkedOut tree stash) (homeOut : home item ⊆ checkedOut) :
    item ∈ stash := by
  rcases mem_visible_iff.mp itemMem with inStash | ⟨node, nodeMem, out, inBucket⟩
  · exact inStash
  · exact absurd (homeOut (placed node nodeMem item inBucket)) out

/-- Placement survives a check-in that puts every item at one of its nodes. -/
theorem Placed.checkIn {nodes path : Finset ν} {tree tree' : ν → Multiset β}
    {home : β → Finset ν} (placed : Placed nodes tree home)
    (frame : ∀ node, node ∉ path → tree' node = tree node)
    (placedOnPath : ∀ node ∈ path, ∀ item ∈ tree' node, node ∈ home item) :
    Placed nodes tree' home := by
  intro node nodeMem item itemMem
  by_cases onPath : node ∈ path
  · exact placedOnPath node onPath item itemMem
  · rw [frame node onPath] at itemMem
    exact placed node nodeMem item itemMem

end Bucketed
