import Mathlib.Data.List.Basic
import Mathlib.Tactic.NormNum

/-!
# Nibbles

The key type of `mpt_trie`'s tries, and the nibbles it reads off one.

`mpt_trie` is not part of this model. `Nibbles` follows the crate's description of itself: `count`
nibbles packed into one integer, the first nibble the most significant, with only the low
`4 * count` bits in use. `push_nibble_back` shifts a nibble in at the low end, and
`pop_next_nibble_front` reads the top one and masks it off. The integer alone would lose leading
zero nibbles; the count keeps them. Below, a `Nibbles` is read as the list of the nibbles
`get_nibble` returns, `toList`, and each operation is shown to act on that list as its name says.
-/

namespace ZkEvm.TraceDecoder

/-- Modelled from the spec: `u4::U4`, a nibble, one of `Dec00` to `Dec15`. -/
abbrev U4 := Fin 16

/-- Modelled from the spec: `U4::new`, the nibble of a byte below `16`. -/
def U4.new (n : ℕ) : Option U4 := if h : n < 16 then some ⟨n, h⟩ else none

@[simp] lemma U4.new_of_lt {n : ℕ} (h : n < 16) : U4.new n = some ⟨n, h⟩ := dif_pos h

/-- Modelled from the spec: `mpt_trie::nibbles::Nibbles`. `count` nibbles packed into `packed`,
the first nibble the most significant; the bits above the low `4 * count` are zero. -/
structure Nibbles where
  count : ℕ
  packed : ℕ
  packed_lt : packed < 16 ^ count
  deriving DecidableEq

namespace Nibbles

lemma two_pow_mul_four (m : ℕ) : 2 ^ (m * 4) = 16 ^ m := by
  rw [mul_comm, pow_mul]
  norm_num

/-- `Nibbles::default`: no nibbles. -/
instance : Inhabited Nibbles := ⟨⟨0, 0, Nat.zero_lt_one⟩⟩

/-- `Nibbles::is_empty`. -/
def isEmpty (n : Nibbles) : Bool := n.count == 0

/-- `Nibbles::get_nibble`: the nibble at `idx`, counted from the front. It lies `count - idx - 1`
nibbles above the low end, in the low or the high half of its byte. -/
def getNibble (n : Nibbles) (idx : ℕ) : ℕ :=
  let nibIdx := n.count - idx - 1
  let byte := n.packed >>> (8 * (nibIdx / 2)) &&& 0xff
  if nibIdx % 2 = 0 then byte &&& 0b1111 else byte >>> 4

/-- `Nibbles::get_next_nibble`: the first nibble. -/
def getNextNibble (n : Nibbles) : ℕ := n.getNibble 0

/-- `Nibbles::truncate_n_nibbles_front_mut`: drops the first `k` nibbles and masks off their
bits. -/
def truncateNNibblesFront (n : Nibbles) (k : ℕ) : Nibbles :=
  ⟨n.count - k, n.packed &&& 2 ^ ((n.count - k) * 4) - 1, by
    rw [Nat.and_pow_two_sub_one_eq_mod, two_pow_mul_four]
    exact Nat.mod_lt _ (by positivity)⟩

/-- `Nibbles::pop_next_nibble_front`: the first nibble, and the nibbles after it. `from_nibbles`
calls it only on a non-empty sequence. -/
def popNextNibbleFront (n : Nibbles) : ℕ × Nibbles :=
  (n.getNextNibble, n.truncateNNibblesFront 1)

lemma shiftLeft_or_eq {p d : ℕ} (hd : d < 16) : p <<< 4 ||| d = 16 * p + d := by
  rw [Nat.shiftLeft_eq, mul_comm, ← Nat.mul_add_lt_is_or hd]

/-- `Nibbles::push_nibble_back`: appends a nibble at the low end. The crate asserts that the
sequence stays within `64` nibbles and that the nibble fits in four bits; a failed assertion
panics, `none` here. -/
def pushNibbleBack (n : Nibbles) (nib : ℕ) : Option Nibbles :=
  if h : n.count < 64 ∧ nib < 16 then
    some ⟨n.count + 1, n.packed <<< 4 ||| nib, by
      rw [shiftLeft_or_eq h.2, pow_succ]
      have := n.packed_lt
      omega⟩
  else none

/-- The nibbles of `n`, first to last, as `get_nibble` reads them. -/
def toList (n : Nibbles) : List ℕ := (List.range n.count).map n.getNibble

/-! ### Reading a nibble -/

lemma getNibble_eq (n : Nibbles) (i : ℕ) :
    n.getNibble i = n.packed / 16 ^ (n.count - i - 1) % 16 := by
  unfold getNibble
  generalize n.count - i - 1 = j
  have hpow : (16 : ℕ) ^ j = 2 ^ (4 * j) := by rw [pow_mul]; norm_num
  dsimp only
  rw [hpow, Nat.shiftRight_eq_div_pow, show (255 : ℕ) = 2 ^ 8 - 1 from rfl,
    Nat.and_pow_two_sub_one_eq_mod]
  split_ifs with hj
  · rw [show (15 : ℕ) = 2 ^ 4 - 1 from rfl, Nat.and_pow_two_sub_one_eq_mod,
      show 8 * (j / 2) = 4 * j by omega]
    exact Nat.mod_mod_of_dvd _ (by norm_num)
  · rw [Nat.shiftRight_eq_div_pow, show (2 : ℕ) ^ 8 = 2 ^ 4 * 2 ^ 4 by norm_num,
      Nat.mod_mul_right_div_self, Nat.div_div_eq_div_mul, ← pow_add,
      show 8 * (j / 2) + 4 = 4 * j by omega]
    rfl

lemma getNibble_lt (n : Nibbles) (i : ℕ) : n.getNibble i < 16 := by
  rw [getNibble_eq]
  exact Nat.mod_lt _ (by norm_num)

@[simp] lemma length_toList (n : Nibbles) : n.toList.length = n.count := by
  simp [toList]

@[simp] lemma count_default : (default : Nibbles).count = 0 := rfl

@[simp] lemma toList_default : (default : Nibbles).toList = [] := rfl

@[simp] lemma truncateNNibblesFront_count (n : Nibbles) (k : ℕ) :
    (n.truncateNNibblesFront k).count = n.count - k := rfl

lemma truncateNNibblesFront_packed (n : Nibbles) (k : ℕ) :
    (n.truncateNNibblesFront k).packed = n.packed % 16 ^ (n.count - k) := by
  rw [← two_pow_mul_four, ← Nat.and_pow_two_sub_one_eq_mod]
  rfl

/-! ### Popping the front and pushing the back -/

lemma packed_eq_of_count_eq_succ {n : Nibbles} {c : ℕ} (hc : n.count = c + 1) :
    n.getNextNibble = n.packed / 16 ^ c ∧
      n.packed = n.getNextNibble * 16 ^ c + (n.truncateNNibblesFront 1).packed := by
  have hlt : n.packed / 16 ^ c < 16 :=
    Nat.div_lt_of_lt_mul (by rw [← pow_succ, ← hc]; exact n.packed_lt)
  have hnext : n.getNextNibble = n.packed / 16 ^ c := by
    rw [getNextNibble, getNibble_eq, hc, Nat.sub_zero, Nat.add_sub_cancel, Nat.mod_eq_of_lt hlt]
  refine ⟨hnext, ?_⟩
  rw [hnext, truncateNNibblesFront_packed, hc, Nat.add_sub_cancel, mul_comm]
  exact (Nat.div_add_mod _ _).symm

lemma toList_popNextNibbleFront {n : Nibbles} (h : n.count ≠ 0) :
    n.toList = n.popNextNibbleFront.1 :: n.popNextNibbleFront.2.toList := by
  obtain ⟨c, hc⟩ : ∃ c, n.count = c + 1 := ⟨n.count - 1, by omega⟩
  simp only [toList, popNextNibbleFront, truncateNNibblesFront_count, hc, Nat.add_sub_cancel,
    List.range_succ_eq_map, List.map_cons, List.map_map, Nat.succ_eq_add_one]
  refine congrArg₂ _ rfl (List.map_congr_left fun i hi => ?_)
  have hi : i < c := List.mem_range.mp hi
  rw [Function.comp_apply, getNibble_eq, getNibble_eq, truncateNNibblesFront_count,
    truncateNNibblesFront_packed, hc, Nat.add_sub_cancel,
    show c + 1 - (i + 1) - 1 = c - i - 1 by omega,
    show (16 : ℕ) ^ c = 16 ^ (c - i - 1) * 16 ^ (i + 1) by rw [← pow_add]; congr 1; omega,
    Nat.mod_mul_right_div_self, Nat.mod_mod_of_dvd _ (dvd_pow_self 16 (Nat.succ_ne_zero i))]

lemma toList_eq_append {n m : Nibbles} {d : ℕ} (hc : m.count = n.count + 1)
    (hp : m.packed = 16 * n.packed + d) (hd : d < 16) : m.toList = n.toList ++ [d] := by
  simp only [toList, hc, List.range_succ, List.map_append, List.map_cons, List.map_nil]
  refine congrArg₂ _ (List.map_congr_left fun i hi => ?_) ?_
  · have hi : i < n.count := List.mem_range.mp hi
    rw [getNibble_eq, getNibble_eq, hc, hp,
      show n.count + 1 - i - 1 = n.count - i - 1 + 1 by omega, pow_succ',
      ← Nat.div_div_eq_div_mul, Nat.mul_add_div (by norm_num), Nat.div_eq_of_lt hd, add_zero]
  · rw [getNibble_eq, hc, hp, Nat.add_sub_cancel_left, Nat.sub_self, pow_zero, Nat.div_one]
    congr 1
    omega

lemma pushNibbleBack_spec {n : Nibbles} {d : ℕ} (hc : n.count < 64) (hd : d < 16) :
    ∃ m, n.pushNibbleBack d = some m ∧ m.toList = n.toList ++ [d] :=
  ⟨_, dif_pos ⟨hc, hd⟩, toList_eq_append rfl (shiftLeft_or_eq hd) hd⟩

/-- Nibbles are equal when they hold the same nibbles: the count keeps the leading zeros. -/
lemma eq_of_toList_eq {n m : Nibbles} (h : n.toList = m.toList) : n = m := by
  have hcount : n.count = m.count := by simpa using congrArg List.length h
  suffices hp : n.packed = m.packed by
    obtain ⟨c₁, p₁, _⟩ := n
    obtain ⟨c₂, p₂, _⟩ := m
    dsimp only at hcount hp
    subst hcount hp
    rfl
  obtain ⟨c, hc⟩ : ∃ c, n.count = c := ⟨_, rfl⟩
  induction c generalizing n m with
  | zero =>
    have hn := n.packed_lt
    have hm := m.packed_lt
    rw [hc] at hn
    rw [← hcount, hc] at hm
    simp only [pow_zero, Nat.lt_one_iff] at hn hm
    rw [hn, hm]
  | succ c ih =>
    have hc' : m.count = c + 1 := hcount ▸ hc
    rw [toList_popNextNibbleFront (show n.count ≠ 0 by omega),
      toList_popNextNibbleFront (show m.count ≠ 0 by omega)] at h
    obtain ⟨h₁, h₂⟩ := List.cons.inj h
    simp only [popNextNibbleFront] at h₁ h₂
    rw [(packed_eq_of_count_eq_succ hc).2, (packed_eq_of_count_eq_succ hc').2, h₁,
      ih h₂ (by simp [hc, hc']) (by simp [hc])]

end Nibbles

end ZkEvm.TraceDecoder
