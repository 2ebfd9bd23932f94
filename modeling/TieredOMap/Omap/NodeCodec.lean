import TieredOMap.Omap.AvlStore
import TieredOMap.Omap.Bplus
import TieredOMap.Oram.CounterBlock

/-!
# Nodes are read back as they were written

`encode` and `decode` of the three kinds of B+ nodes, of the nodes of an AVL tree and of
counter blocks. Every size is written as an `int`, so a list or a byte string is read back
only if an `int` can hold its length.
-/

namespace TieredOmap

theorem drop_four (value : Int) (rest : Bytes) : (intToBytes value ++ rest).drop 4 = rest := by
  rw [drop_intToBytes 0, List.drop_zero]

namespace BPlusNode

/-- The three kinds of nodes with the arrays that each of them has. -/
inductive Shaped : BPlusNode → Prop
  | internal {keys childIds childLeaves : List Int} (ids : childIds.length = keys.length + 1)
      (leaves : childLeaves.length = keys.length + 1) :
      Shaped { isLeaf := false, keys, childIds, childLeaves }
  | indexLeaf {keys childIds : List Int} (ids : childIds.length = keys.length) :
      Shaped { isIndexLeaf := true, keys, childIds }
  | valueLeaf {keys : List Int} {values : List Bytes} (sameLength : values.length = keys.length) :
      Shaped { keys, values }

/-- The numbers of a node fit into an `int`. -/
structure Ints (node : BPlusNode) : Prop where
  keys : ∀ key ∈ node.keys, IsInt key
  childIds : ∀ id ∈ node.childIds, IsInt id
  childLeaves : ∀ leaf ∈ node.childLeaves, IsInt leaf

/-- So do its sizes, which are written or computed as one. -/
structure Sizes (node : BPlusNode) : Prop where
  count : node.keys.length + 1 < 2 ^ 31
  values : ∀ value ∈ node.values, value.length < 2 ^ 31

theorem takeInts_append {ints : List Int} (areInts : ∀ int ∈ ints, IsInt int) (rest : Bytes) :
    takeInts ints.length (ints.flatMap intToBytes ++ rest) = (ints, rest) := by
  induction ints with
  | nil => rfl
  | cons int ints ih =>
      have tail := ih (fun int' mem => areInts int' (List.mem_cons_of_mem _ mem))
      rw [List.flatMap_cons, List.append_assoc, List.length_cons, takeInts, drop_four, tail,
        bytesToInt_append (areInts int List.mem_cons_self)]

theorem takePairs_flatMap {pairs : List (Int × Int)}
    (areInts : ∀ pair ∈ pairs, IsInt pair.1 ∧ IsInt pair.2) :
    takePairs pairs.length (pairs.flatMap (fun pair =>
      intToBytes pair.1 ++ intToBytes pair.2)) = pairs := by
  induction pairs with
  | nil => rfl
  | cons pair pairs ih =>
      have tail := ih (fun pair' mem => areInts pair' (List.mem_cons_of_mem _ mem))
      have here := areInts pair List.mem_cons_self
      rw [List.flatMap_cons, List.append_assoc, List.length_cons, takePairs, drop_four,
        drop_intToBytes 4, drop_four, tail, bytesToInt_append here.1, bytesToInt_append here.2]

theorem takeValues_flatMap {values : List Bytes}
    (short : ∀ value ∈ values, value.length < 2 ^ 31) :
    takeValues values.length (values.flatMap (fun value =>
      intToBytes value.length ++ value)) = values := by
  induction values with
  | nil => rfl
  | cons value values ih =>
      have tail := ih (fun value' mem => short value' (List.mem_cons_of_mem _ mem))
      have here := short value List.mem_cons_self
      rw [List.flatMap_cons, List.append_assoc, List.length_cons, takeValues,
        bytesToInt_append ⟨by omega, by exact_mod_cast here⟩, Int.toNat_natCast, drop_four,
        List.take_left, ← List.drop_drop, drop_four, List.drop_left, tail]

/-- What is read behind the type byte, once the keys have been read. -/
theorem decode_cons {typeByte : UInt8} {raw body : Bytes} {keys : List Int}
    (countRead : (bytesToInt raw).toNat = keys.length)
    (keysRead : takeInts keys.length (raw.drop 4) = (keys, body)) :
    decode (typeByte :: raw) =
      if typeByte = 0 then
        { isLeaf := false, keys
          childIds := (takePairs (keys.length + 1) body).map Prod.fst
          childLeaves := (takePairs (keys.length + 1) body).map Prod.snd }
      else if typeByte = 2 then
        { isIndexLeaf := true, keys, childIds := (takeInts keys.length body).1 }
      else { keys, values := takeValues keys.length body } := by
  unfold decode
  dsimp only
  rw [countRead, keysRead]

theorem read_count {keys : List Int} (count : keys.length < 2 ^ 31) (rest : Bytes) :
    (bytesToInt (intToBytes keys.length ++ rest)).toNat = keys.length := by
  have isInt : IsInt (keys.length : Int) := ⟨by omega, by omega⟩
  rw [bytesToInt_append isInt, Int.toNat_natCast]

theorem read_keys {keys : List Int} (areInts : ∀ key ∈ keys, IsInt key) (count : Int)
    (body : Bytes) : takeInts keys.length
      ((intToBytes count ++ (keys.flatMap intToBytes ++ body)).drop 4) = (keys, body) := by
  rw [drop_four, takeInts_append areInts]

theorem decode_encode_internal {keys childIds childLeaves : List Int}
    (ids : childIds.length = keys.length + 1) (leaves : childLeaves.length = keys.length + 1)
    (ints : Ints { isLeaf := false, keys, childIds, childLeaves })
    (count : keys.length < 2 ^ 31) :
    decode (encode { isLeaf := false, keys, childIds, childLeaves }) =
      { isLeaf := false, keys, childIds, childLeaves } := by
  have zipped : (childIds.zip childLeaves).length = keys.length + 1 := by
    rw [List.length_zip, ids, leaves, min_self]
  have children := @takePairs_flatMap (childIds.zip childLeaves) (fun pair mem =>
    ⟨ints.childIds _ (List.of_mem_zip mem).1, ints.childLeaves _ (List.of_mem_zip mem).2⟩)
  rw [zipped] at children
  have encoded : encode { isLeaf := false, keys, childIds, childLeaves } =
      0 :: (intToBytes keys.length ++ (keys.flatMap intToBytes ++
        (childIds.zip childLeaves).flatMap
          (fun child => intToBytes child.1 ++ intToBytes child.2))) := rfl
  rw [encoded, decode_cons (read_count count _) (read_keys ints.keys _ _), if_pos rfl, children,
    List.map_fst_zip (by omega), List.map_snd_zip (by omega)]

theorem decode_encode_indexLeaf {keys childIds : List Int} (ids : childIds.length = keys.length)
    (ints : Ints { isIndexLeaf := true, keys, childIds }) (count : keys.length < 2 ^ 31) :
    decode (encode { isIndexLeaf := true, keys, childIds }) =
      { isIndexLeaf := true, keys, childIds } := by
  have children := @takeInts_append childIds ints.childIds []
  rw [List.append_nil, ids] at children
  have encoded : encode { isIndexLeaf := true, keys, childIds } =
      2 :: (intToBytes keys.length ++ (keys.flatMap intToBytes ++
        childIds.flatMap intToBytes)) := rfl
  rw [encoded, decode_cons (read_count count _) (read_keys ints.keys _ _), if_neg (by decide),
    if_pos rfl, children]

theorem decode_encode_valueLeaf {keys : List Int} {values : List Bytes}
    (sameLength : values.length = keys.length) (areInts : ∀ key ∈ keys, IsInt key)
    (count : keys.length < 2 ^ 31) (short : ∀ value ∈ values, value.length < 2 ^ 31) :
    decode (encode { keys, values }) = { keys, values } := by
  have items := takeValues_flatMap short
  rw [sameLength] at items
  have encoded : encode { keys, values } =
      1 :: (intToBytes keys.length ++ (keys.flatMap intToBytes ++
        values.flatMap (fun value => intToBytes value.length ++ value))) := rfl
  rw [encoded, decode_cons (read_count count _) (read_keys areInts _ _), if_neg (by decide),
    if_neg (by decide), items]

/-- A node of any kind is read back as it was written. -/
theorem decode_encode {node : BPlusNode} (shaped : node.Shaped) (ints : node.Ints)
    (sizes : node.Sizes) : decode node.encode = node := by
  have count : node.keys.length < 2 ^ 31 := by
    have withOne := sizes.count
    omega
  cases shaped with
  | internal ids leaves => exact decode_encode_internal ids leaves ints count
  | indexLeaf ids => exact decode_encode_indexLeaf ids ints count
  | valueLeaf sameLength =>
      exact decode_encode_valueLeaf sameLength ints.keys count sizes.values

/-- A value of `2 ^ 31` bytes is lost: its length is read back as a negative number. -/
theorem decode_encode_overlong {value : Bytes} (overlong : value.length = 2 ^ 31) :
    decode (encode { keys := [0], values := [value] }) ≠ { keys := [0], values := [value] } := by
  intro same
  have sizeEq : bytesToInt (intToBytes ((2 ^ 31 : Nat) : Int) ++ value) = -2 ^ 31 := by
    rw [bytesToInt_intToBytes_append]
    decide
  have body : encodeBody { keys := [0], values := [value] } =
      intToBytes ((2 ^ 31 : Nat) : Int) ++ value := by
    simp [encodeBody, overlong]
  have read : (decode (encode { keys := [0], values := [value] })).values = [[]] := by
    have encoded : encode { keys := [0], values := [value] } =
        1 :: (intToBytes ([0] : List Int).length ++ (([0] : List Int).flatMap intToBytes ++
          encodeBody { keys := [0], values := [value] })) := rfl
    rw [encoded, decode_cons (read_count (by decide) _) (read_keys (by decide) _ _),
      if_neg (by decide), if_neg (by decide), body]
    dsimp only [List.length_singleton, takeValues]
    rw [sizeEq]
    rfl
  rw [same] at read
  have lengthEq : value.length = 0 := by
    rw [List.head_eq_of_cons_eq read]
    rfl
  omega

end BPlusNode

namespace AVLNodeData

/-- The numbers of a node fit into an `int`. -/
def Ints (avl : AVLNodeData) : Prop := (avl.child true).Ints ∧ (avl.child false).Ints

/-- Whatever follows a node is read as more of its data. -/
theorem decode_encode_append {avl : AVLNodeData} (ints : avl.Ints) (rest : Bytes) :
    decode (avl.encode ++ rest) = pure { avl with data := avl.data ++ rest } := by
  have longer : avl.encode ++ rest = encode { avl with data := avl.data ++ rest } := by
    simp only [encode, List.append_assoc]
  rw [longer]
  exact @decode_encode { avl with data := avl.data ++ rest } ints.1 ints.2

end AVLNodeData

/--
Every node is read back as it was written, as long as its sizes fit into an `int`; zeros
behind an AVL node become zeros behind its data.
-/
theorem node_codecs_exact :
    (∀ node : BPlusNode, node.Shaped → node.Ints → node.Sizes →
      BPlusNode.decode node.encode = node) ∧
    (∀ avl : AVLNodeData, avl.Ints → AVLNodeData.decode avl.encode = pure avl) ∧
    (∀ (avl : AVLNodeData) (size : Nat), avl.Ints →
      AVLNodeData.decode (padBytes avl.encode size) = pure { avl with
        data := avl.data ++ List.replicate (size - avl.encode.length) 0 }) ∧
    (∀ (cb : CounterBlock) (numIc : Nat), cb.ic.length = numIc → cb.backup.length = numIc →
      CounterBlock.decode cb.encode numIc = cb) :=
  ⟨fun _ shaped ints sizes => BPlusNode.decode_encode shaped ints sizes,
    fun _ ints => AVLNodeData.decode_encode ints.1 ints.2,
    fun _ _ ints => AVLNodeData.decode_encode_append ints _,
    fun _ _ icLength backupLength => CounterBlock.decode_encode icLength backupLength⟩

theorem node_codecs_exact_sample :
    BPlusNode.decode (BPlusNode.encode { keys := [3, 5], values := [[7], []] }) =
      { keys := [3, 5], values := [[7], []] } :=
  node_codecs_exact.1 _ (.valueLeaf rfl) ⟨by decide, by decide, by decide⟩
    ⟨by decide, by decide⟩

/-- A tree leaf with a value of `2 ^ 31` bytes is not read back. -/
theorem overlong_value_lost : ∃ node : BPlusNode, node.Shaped ∧ node.Ints ∧
    BPlusNode.decode node.encode ≠ node :=
  ⟨{ keys := [0], values := [List.replicate (2 ^ 31) 0] }, .valueLeaf rfl,
    ⟨by decide, fun _ mem => absurd mem List.not_mem_nil,
      fun _ mem => absurd mem List.not_mem_nil⟩,
    BPlusNode.decode_encode_overlong List.length_replicate⟩

end TieredOmap
