import Mathlib.Data.ZMod.Basic
import ZkEvm.Goldilocks
import ZkEvm.Memory.Columns

/-!
Memory operations as the CPU logs them, the order the generator sorts them in, and the row
`MemoryOp::into_row` makes of one.

`MemoryOp`, `MemoryAddress` and `sorting_key` are defined in `witness/memory.rs`, which is not
part of this model; they follow the spec: an operation is sorted by the key
`(context, segment, virt, timestamp)`, and a dummy read is an inactive read.
-/

namespace ZkEvm.Memory.Ops

open ZkEvm.Goldilocks ZkEvm.Memory.Columns

/-- Modelled from the spec: `MemoryAddress`, a cell of the segmented memory. -/
@[ext]
structure MemoryAddress where
  context : ℕ
  segment : ℕ
  virt : ℕ
  deriving DecidableEq

/-- Modelled from the spec: `MemoryOpKind`. -/
inductive MemoryOpKind
  | read
  | write
  deriving DecidableEq

/-- Modelled from the spec: `MemoryOp`. `filter` is false exactly for the operations the
generator invents; `value` is a `U256`. -/
structure MemoryOp where
  filter : Bool
  timestamp : ℕ
  address : MemoryAddress
  kind : MemoryOpKind
  value : BitVec 256
  deriving DecidableEq

namespace MemoryOp

/-- Modelled from the spec: `MemoryOp::new_dummy_read`, an inactive read. -/
def newDummyRead (address : MemoryAddress) (timestamp : ℕ) (value : BitVec 256) : MemoryOp :=
  ⟨false, timestamp, address, .read, value⟩

@[simp] lemma newDummyRead_filter (a : MemoryAddress) (t : ℕ) (v : BitVec 256) :
    (newDummyRead a t v).filter = false := rfl
@[simp] lemma newDummyRead_kind (a : MemoryAddress) (t : ℕ) (v : BitVec 256) :
    (newDummyRead a t v).kind = .read := rfl
@[simp] lemma newDummyRead_address (a : MemoryAddress) (t : ℕ) (v : BitVec 256) :
    (newDummyRead a t v).address = a := rfl
@[simp] lemma newDummyRead_timestamp (a : MemoryAddress) (t : ℕ) (v : BitVec 256) :
    (newDummyRead a t v).timestamp = t := rfl
@[simp] lemma newDummyRead_value (a : MemoryAddress) (t : ℕ) (v : BitVec 256) :
    (newDummyRead a t v).value = v := rfl

/-- Modelled from the spec: `MemoryOp::sorting_key`. -/
def sortingKey (op : MemoryOp) : ℕ × ℕ × ℕ × ℕ :=
  (op.address.context, op.address.segment, op.address.virt, op.timestamp)

/-! ### The key order -/

/-- `a.sorting_key() < b.sorting_key()`: tuples compare lexicographically. -/
def KeyLt (a b : MemoryOp) : Prop :=
  a.address.context < b.address.context ∨ a.address.context = b.address.context ∧
    (a.address.segment < b.address.segment ∨ a.address.segment = b.address.segment ∧
      (a.address.virt < b.address.virt ∨ a.address.virt = b.address.virt ∧
        a.timestamp < b.timestamp))

instance : DecidableRel KeyLt := fun _ _ => inferInstanceAs (Decidable (_ ∨ _))

/-- The comparison `sort_by_key(MemoryOp::sorting_key)` merges with: `a` may stay before `b`. -/
def keyLe (a b : MemoryOp) : Bool := !decide (KeyLt b a)

lemma keyLt_trans {a b c : MemoryOp} (h₁ : KeyLt a b) (h₂ : KeyLt b c) : KeyLt a c := by
  unfold KeyLt at *; omega

lemma keyLt_irrefl (a : MemoryOp) : ¬ KeyLt a a := by
  unfold KeyLt; omega

instance : IsTrans MemoryOp KeyLt := ⟨fun _ _ _ => keyLt_trans⟩

instance : IsIrrefl MemoryOp KeyLt := ⟨keyLt_irrefl⟩

instance : IsAntisymm MemoryOp KeyLt :=
  ⟨fun a _ h₁ h₂ => absurd (keyLt_trans h₁ h₂) (keyLt_irrefl a)⟩

@[simp] lemma keyLe_eq_true (a b : MemoryOp) : keyLe a b = true ↔ ¬ KeyLt b a := by
  simp [keyLe]

lemma keyLt_of_not_keyLt {a b : MemoryOp} (h : ¬ KeyLt b a) (hk : a.sortingKey ≠ b.sortingKey) :
    KeyLt a b := by
  simp only [KeyLt, sortingKey, ne_eq, Prod.mk.injEq] at *; omega

/-- `sort_by_key(MemoryOp::sorting_key)`: a stable sort, as `List.mergeSort` is. -/
def sortByKey (ops : List MemoryOp) : List MemoryOp := ops.mergeSort keyLe

lemma sortByKey_perm (ops : List MemoryOp) : (sortByKey ops).Perm ops := List.mergeSort_perm _ _

lemma sortByKey_sorted (ops : List MemoryOp) : (sortByKey ops).Pairwise (keyLe · ·) :=
  List.sorted_mergeSort (fun a b c h₁ h₂ => by simp only [keyLe_eq_true, KeyLt] at *; omega)
    (fun a b => by simp only [Bool.or_eq_true, keyLe_eq_true, KeyLt]; omega) ops

lemma sortingKey_ne_of_keyLt {a b : MemoryOp} (h : KeyLt a b) : a.sortingKey ≠ b.sortingKey := by
  simp only [KeyLt, sortingKey, ne_eq, Prod.mk.injEq] at *; omega

lemma nodup_sortingKey {ops : List MemoryOp} (h : ops.Pairwise KeyLt) :
    (ops.map sortingKey).Nodup :=
  List.pairwise_map.mpr (h.imp sortingKey_ne_of_keyLt)

lemma sortByKey_keyLt {ops : List MemoryOp} (hk : (ops.map sortingKey).Nodup) :
    (sortByKey ops).Pairwise KeyLt := by
  have hk' : ((sortByKey ops).map sortingKey).Nodup :=
    ((sortByKey_perm ops).map _).nodup_iff.mpr hk
  exact ((sortByKey_sorted ops).and (List.pairwise_map.mp hk')).imp fun h =>
    keyLt_of_not_keyLt (by simpa using h.1) h.2

lemma sortByKey_of_sorted {ops : List MemoryOp} (h : ops.Pairwise (keyLe · ·)) :
    sortByKey ops = ops :=
  List.mergeSort_of_sorted h

/-- The sort of a list is the one strictly increasing list with its elements. -/
lemma sortByKey_eq_of_perm {ops ops' : List MemoryOp} (hp : ops.Perm ops')
    (h : ops'.Pairwise KeyLt) : sortByKey ops = ops' :=
  List.eq_of_perm_of_sorted ((sortByKey_perm ops).trans hp)
    (sortByKey_keyLt ((hp.map _).nodup_iff.mpr (nodup_sortingKey h))) h

end MemoryOp

/-! ### The row of an operation -/

/-- `F::from_bool`. -/
def fromBool (b : Bool) : ZMod goldilocks := if b then 1 else 0

/-- The `j`-th 32-bit limb of a value, `(value >> (j * 32)).low_u32()`. -/
def limb (value : BitVec 256) (j : ℕ) : ℕ := (value >>> (j * 32)).toNat % 2 ^ 32

/-- `MemoryOp::into_row` over the Goldilocks field: the columns that depend on the operation
alone; every other column is zero. -/
def MemoryOp.intoRow (op : MemoryOp) : MemoryColumnsView (ZMod goldilocks) :=
  { MemoryColumnsView.default with
    filter := fromBool op.filter
    timestamp := op.timestamp
    timestampInv := (op.timestamp : ZMod goldilocks)⁻¹
    isRead := fromBool (op.kind == .read)
    addrContext := op.address.context
    addrSegment := op.address.segment
    addrVirtual := op.address.virt
    valueLimbs := fun j => (limb op.value j : ZMod goldilocks) }

end ZkEvm.Memory.Ops
