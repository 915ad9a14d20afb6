import Mathlib.Data.List.GetD
import Mathlib.Data.List.InsertIdx
import ZkEvm.TraceDecoder.Nibbles

/-!
# Trie keys

`TrieKey`, the key of `TypedMpt`: at most 64 nibbles. It converts to and from `mpt_trie`'s
`Nibbles`, and to and from 32-byte hashes.

`copyvec` and `u4` are not part of this model. A `CopyVec<T, N>` is a list of at most `N`
elements; `AsNibbles` reads each byte as two nibbles, the high half first, and `pack_from_slice`
writes them back the same way. Each conversion is shown to keep the nibbles in order, which is
all the round trips need: `into_nibbles` pushes at the back what `from_nibbles` pops from the
front, and the padding of `into_hash_left_padded` only adds zero nibbles in front.
-/

namespace ZkEvm.TraceDecoder

/-- Modelled from the spec: `copyvec::CopyVec<T, N>`, at most `N` elements in order. -/
@[ext]
structure CopyVec (α : Type) (cap : ℕ) where
  toList : List α
  length_le : toList.length ≤ cap
  deriving DecidableEq

namespace CopyVec

variable {α : Type} {cap : ℕ}

/-- `CopyVec::new`. -/
def new : CopyVec α cap := ⟨[], Nat.zero_le _⟩

/-- `CopyVec::try_push`: appends an element, or fails when the vector is full. -/
def tryPush (v : CopyVec α cap) (x : α) : Option (CopyVec α cap) :=
  if h : v.toList.length < cap then some ⟨v.toList ++ [x], by simpa using h⟩ else none

/-- `CopyVec::insert`: puts an element at `index` and moves the later ones up. It panics when the
vector is full or `index` is past its end. -/
def insert (v : CopyVec α cap) (index : ℕ) (x : α) : Option (CopyVec α cap) :=
  if h : index ≤ v.toList.length ∧ v.toList.length < cap then
    some ⟨v.toList.insertIdx index x, by rw [List.length_insertIdx _ _ h.1]; exact h.2⟩
  else none

/-- The length of `spare_capacity_mut()`: the room left. -/
def spareCapacity (v : CopyVec α cap) : ℕ := cap - v.toList.length

/-- `CopyVec::try_from_iter`: pushes the elements in order, failing on one that does not fit. -/
def tryFromIter (l : List α) : Option (CopyVec α cap) := l.foldlM tryPush new

@[simp] lemma tryPush_of_lt {v : CopyVec α cap} {x : α} (h : v.toList.length < cap) :
    v.tryPush x = some ⟨v.toList ++ [x], by simpa using h⟩ := dif_pos h

lemma foldlM_tryPush : ∀ (l : List α) (v : CopyVec α cap), v.toList.length + l.length ≤ cap →
    ∃ w, l.foldlM tryPush v = some w ∧ w.toList = v.toList ++ l
  | [], v, _ => ⟨v, rfl, by simp⟩
  | x :: l, v, h => by
    simp only [List.length_cons] at h
    have hlt : v.toList.length < cap := by omega
    obtain ⟨w, hw, hwl⟩ := foldlM_tryPush l ⟨v.toList ++ [x], by simpa using hlt⟩
      (by simp only [List.length_append, List.length_singleton]; omega)
    exact ⟨w, by simpa [hlt] using hw, by simpa using hwl⟩

lemma tryFromIter_spec {l : List α} (h : l.length ≤ cap) :
    ∃ w : CopyVec α cap, tryFromIter l = some w ∧ w.toList = l := by
  simpa [new] using foldlM_tryPush l (new : CopyVec α cap) (by simpa [new] using h)

lemma foldlM_insert_zero (x : α) : ∀ (m : ℕ) (v : CopyVec α cap), v.toList.length + m ≤ cap →
    ∃ w, (List.range m).foldlM (fun w _ => w.insert 0 x) v = some w ∧
      w.toList = List.replicate m x ++ v.toList
  | 0, v, _ => ⟨v, rfl, by simp⟩
  | m + 1, v, h => by
    obtain ⟨w, hw, hwl⟩ := foldlM_insert_zero x m v (by omega)
    have hlt : w.toList.length < cap := by
      rw [hwl, List.length_append, List.length_replicate]; omega
    refine ⟨⟨x :: w.toList, by simpa using hlt⟩, ?_, by simp [hwl, List.replicate_succ]⟩
    rw [List.range_succ, List.foldlM_append, hw]
    simp [insert, hlt, List.insertIdx_zero]

end CopyVec

/-- Modelled from the spec: `ethereum_types::H256`, a 32-byte word. -/
@[ext]
structure H256 where
  bytes : List UInt8
  length_bytes : bytes.length = 32
  deriving DecidableEq

/-- `H256::from_slice`: the word of 32 bytes; it panics on any other length. -/
def H256.fromSlice (src : List UInt8) : Option H256 :=
  if h : src.length = 32 then some ⟨src, h⟩ else none

/-- The nibble at `i` of a word, counted from the front: the high half of byte `i / 2` when `i`
is even, its low half when `i` is odd. -/
def H256.nibble (w : H256) (i : ℕ) : ℕ :=
  let b := (w.bytes.getD (i / 2) 0).toNat
  if i % 2 = 0 then b / 16 else b % 16

lemma div_sixteen_lt (b : UInt8) : b.toNat / 16 < 16 := Nat.div_lt_of_lt_mul b.toNat_lt_size

/-- Modelled from the spec: iterating `u4::AsNibbles` over bytes, two nibbles a byte, the high
half first. -/
def asNibbles : List UInt8 → List U4
  | [] => []
  | b :: bytes => ⟨b.toNat / 16, div_sixteen_lt b⟩ :: ⟨b.toNat % 16, Nat.mod_lt _ (by norm_num)⟩ ::
      asNibbles bytes

/-- Two nibbles a byte, the first in the high half. -/
def packNibbles : List U4 → List UInt8
  | hi :: lo :: rest => UInt8.ofNat (16 * hi.val + lo.val) :: packNibbles rest
  | _ => []

/-- Modelled from the spec: `AsNibbles::pack_from_slice`, which writes the nibbles over the
bytes, two a byte, the high half first. The one call passes exactly as many nibbles as the bytes
hold; any other length is taken as a panic. -/
def packFromSlice (bytes : List UInt8) (slice : List U4) : Option (List UInt8) :=
  if slice.length = 2 * bytes.length then some (packNibbles slice) else none

/-- `TrieKey`: at most 64 nibbles. -/
@[ext]
structure TrieKey where
  components : CopyVec U4 64
  deriving DecidableEq

namespace TrieKey

/-- `TrieKey::new`: the key of at most 64 nibbles; more are an error. -/
def new (components : List U4) : Option TrieKey := (CopyVec.tryFromIter components).map mk

/-- `TrieKey::into_nibbles`: pushes the key's nibbles, in order, at the back of empty
`Nibbles`. -/
def intoNibbles (k : TrieKey) : Option Nibbles :=
  k.components.toList.foldlM (fun theirs component => theirs.pushNibbleBack component.val) default

/-- The loop of `TrieKey::from_nibbles`: while `theirs` is not empty, pop its first nibble and
push it on `ours`. A nibble above `15` panics ("mpt_trie returned an invalid nibble"), and so does
a push on a full key ("mpt_trie should not have more than 64 nibbles"). Each turn pops one
nibble, so `theirs.count` turns are enough: that count is the fuel. -/
def fromNibblesLoop : ℕ → Nibbles → CopyVec U4 64 → Option TrieKey
  | 0, _, ours => some ⟨ours⟩
  | fuel + 1, theirs, ours =>
    if theirs.isEmpty then some ⟨ours⟩
    else do
      let u ← U4.new theirs.popNextNibbleFront.1
      let ours ← ours.tryPush u
      fromNibblesLoop fuel theirs.popNextNibbleFront.2 ours

/-- `TrieKey::from_nibbles`. -/
def fromNibbles (theirs : Nibbles) : Option TrieKey := fromNibblesLoop theirs.count theirs .new

/-- `TrieKey::from_hash`: the 64 nibbles of the hash's bytes. -/
def fromHash (h : H256) : Option TrieKey := new (asNibbles h.bytes)

/-- `TrieKey::into_hash_left_padded`: inserts zero nibbles at the front, as many as the key has
room for, and packs the 64 nibbles into 32 bytes. -/
def intoHashLeftPadded (k : TrieKey) : Option H256 := do
  let padded ← (List.range k.components.spareCapacity).foldlM (fun v _ => v.insert 0 0)
    k.components
  let packed ← packFromSlice (List.replicate 32 0) padded.toList
  H256.fromSlice packed

/-! ### Keys and nibbles -/

lemma foldlM_pushNibbleBack : ∀ (l : List U4) (n : Nibbles), n.count + l.length ≤ 64 →
    ∃ m, l.foldlM (fun theirs component => theirs.pushNibbleBack component.val) n = some m ∧
      m.toList = n.toList ++ l.map Fin.val
  | [], n, _ => ⟨n, rfl, by simp⟩
  | u :: l, n, h => by
    simp only [List.length_cons] at h
    obtain ⟨n', hn', hl'⟩ := Nibbles.pushNibbleBack_spec (show n.count < 64 by omega) u.isLt
    obtain ⟨m, hm, hml⟩ := foldlM_pushNibbleBack l n'
      (by rw [← Nibbles.length_toList, hl', List.length_append, Nibbles.length_toList,
        List.length_singleton]; omega)
    exact ⟨m, by simp [hn', hm], by simp [hml, hl']⟩

/-- `into_nibbles` never panics, and keeps the key's nibbles in order. -/
lemma intoNibbles_spec (k : TrieKey) :
    ∃ n, k.intoNibbles = some n ∧ n.toList = k.components.toList.map Fin.val := by
  simpa using foldlM_pushNibbleBack k.components.toList default
    (by simpa using k.components.length_le)

lemma fromNibblesLoop_succ {c : ℕ} {n : Nibbles} (hc : n.count = c + 1) (ours : CopyVec U4 64) :
    fromNibblesLoop (c + 1) n ours = (ours.tryPush ⟨n.popNextNibbleFront.1, n.getNibble_lt 0⟩).bind
      (fromNibblesLoop c n.popNextNibbleFront.2) := by
  simp [fromNibblesLoop, Nibbles.isEmpty, hc,
    U4.new_of_lt (show n.popNextNibbleFront.1 < 16 from n.getNibble_lt 0)]

lemma fromNibblesLoop_spec : ∀ (c : ℕ) (n : Nibbles) (ours : CopyVec U4 64), n.count = c →
    ours.toList.length + c ≤ 64 → ∃ k, fromNibblesLoop c n ours = some k ∧
      k.components.toList.map Fin.val = ours.toList.map Fin.val ++ n.toList
  | 0, n, ours, hc, _ => ⟨⟨ours⟩, rfl, by simp [Nibbles.toList, hc]⟩
  | c + 1, n, ours, hc, h => by
    obtain ⟨k, hk, hkl⟩ := fromNibblesLoop_spec c n.popNextNibbleFront.2
      ⟨ours.toList ++ [⟨n.popNextNibbleFront.1, n.getNibble_lt 0⟩], by simp; omega⟩
      (by simp [Nibbles.popNextNibbleFront, hc])
      (by simp only [List.length_append, List.length_singleton]; omega)
    refine ⟨k, ?_, ?_⟩
    · rw [fromNibblesLoop_succ hc, CopyVec.tryPush_of_lt (by omega), Option.some_bind, hk]
    · rw [hkl, Nibbles.toList_popNextNibbleFront (show n.count ≠ 0 by omega)]
      simp

/-- `from_nibbles` never panics on at most 64 nibbles, and keeps them in order. -/
lemma fromNibbles_spec {n : Nibbles} (h : n.count ≤ 64) :
    ∃ k, fromNibbles n = some k ∧ k.components.toList.map Fin.val = n.toList := by
  simpa [CopyVec.new] using fromNibblesLoop_spec n.count n .new rfl (by simpa [CopyVec.new] using h)

lemma eq_of_map_val_eq {k k' : TrieKey}
    (h : k.components.toList.map Fin.val = k'.components.toList.map Fin.val) : k = k' :=
  TrieKey.ext (CopyVec.ext (List.map_injective_iff.mpr (fun _ _ => Fin.ext) h))

lemma intoNibbles_bind_fromNibbles (k : TrieKey) : k.intoNibbles.bind fromNibbles = some k := by
  obtain ⟨n, hn, hnl⟩ := intoNibbles_spec k
  obtain ⟨k', hk', hkl'⟩ := fromNibbles_spec (show n.count ≤ 64 by
    rw [← Nibbles.length_toList, hnl, List.length_map]
    exact k.components.length_le)
  rw [hn, Option.some_bind, hk', eq_of_map_val_eq (hkl'.trans hnl)]

lemma fromNibbles_bind_intoNibbles {n : Nibbles} (h : n.count ≤ 64) :
    (fromNibbles n).bind intoNibbles = some n := by
  obtain ⟨k, hk, hkl⟩ := fromNibbles_spec h
  obtain ⟨m, hm, hml⟩ := intoNibbles_spec k
  rw [hk, Option.some_bind, hm, Nibbles.eq_of_toList_eq (hml.trans hkl)]

/-! ### Keys and hashes -/

@[simp] lemma length_asNibbles (bytes : List UInt8) :
    (asNibbles bytes).length = 2 * bytes.length := by
  induction bytes with
  | nil => rfl
  | cons b bytes ih => simp only [asNibbles, List.length_cons, ih]; omega

lemma length_packNibbles : ∀ l : List U4, (packNibbles l).length = l.length / 2
  | [] => rfl
  | [_] => by simp [packNibbles]
  | _ :: _ :: rest => by simp only [packNibbles, List.length_cons, length_packNibbles rest]; omega

lemma ofNat_toNat (b : UInt8) : UInt8.ofNat b.toNat = b :=
  UInt8.toNat.inj (UInt8.toNat_ofNat_of_lt b.toNat_lt_size)

lemma packNibbles_asNibbles : ∀ bytes : List UInt8, packNibbles (asNibbles bytes) = bytes
  | [] => rfl
  | b :: bytes => by
    simp only [asNibbles, packNibbles, packNibbles_asNibbles bytes, Nat.div_add_mod, ofNat_toNat]

lemma asNibbles_packNibbles : ∀ l : List U4, l.length % 2 = 0 → asNibbles (packNibbles l) = l
  | [], _ => rfl
  | [_], h => absurd h (by simp)
  | hi :: lo :: rest, h => by
    have := hi.isLt
    have := lo.isLt
    have hlt : 16 * hi.val + lo.val < UInt8.size := by rw [show UInt8.size = 256 from rfl]; omega
    have h₁ : (16 * hi.val + lo.val) / 16 = hi.val := by omega
    have h₂ : (16 * hi.val + lo.val) % 16 = lo.val := by omega
    simp only [List.length_cons] at h
    simp only [packNibbles, asNibbles, UInt8.toNat_ofNat_of_lt hlt, h₁, h₂,
      asNibbles_packNibbles rest (by omega)]

lemma val_getD_asNibbles : ∀ (bytes : List UInt8) (i : ℕ), ((asNibbles bytes).getD i 0).val =
    if i % 2 = 0 then (bytes.getD (i / 2) 0).toNat / 16 else (bytes.getD (i / 2) 0).toNat % 16
  | [], i => by simp [asNibbles]
  | b :: bytes, 0 => by simp [asNibbles]
  | b :: bytes, 1 => by simp [asNibbles]
  | b :: bytes, i + 2 => by
    rw [asNibbles, List.getD_cons_succ, List.getD_cons_succ, val_getD_asNibbles bytes i,
      show (i + 2) / 2 = i / 2 + 1 by omega, show (i + 2) % 2 = i % 2 by omega,
      List.getD_cons_succ]

lemma map_range_nibble (w : H256) :
    (List.range 64).map w.nibble = (asNibbles w.bytes).map Fin.val := by
  have hlen : (asNibbles w.bytes).length = 64 := by simp [w.length_bytes]
  refine List.ext_getElem (by simp [hlen]) fun i h₁ _ => ?_
  have hi : i < 64 := by simpa using h₁
  rw [List.getElem_map, List.getElem_range, List.getElem_map, ← List.getD_eq_getElem _ 0,
    val_getD_asNibbles]
  rfl

lemma fromHash_spec (h : H256) :
    ∃ k, fromHash h = some k ∧ k.components.toList = asNibbles h.bytes := by
  obtain ⟨w, hw, hwl⟩ : ∃ w : CopyVec U4 64, CopyVec.tryFromIter (asNibbles h.bytes) = some w ∧
      w.toList = asNibbles h.bytes := CopyVec.tryFromIter_spec (by simp [h.length_bytes])
  exact ⟨⟨w⟩, by simp [fromHash, new, hw], hwl⟩

/-- `into_hash_left_padded` never panics: it packs the key behind as many zero nibbles as make
64. -/
lemma intoHashLeftPadded_spec (k : TrieKey) : ∃ w, k.intoHashLeftPadded = some w ∧
    w.bytes = packNibbles (List.replicate (64 - k.components.toList.length) 0 ++
      k.components.toList) := by
  have hk := k.components.length_le
  obtain ⟨v, hv, hvl⟩ := CopyVec.foldlM_insert_zero (0 : U4) k.components.spareCapacity
    k.components (by simp only [CopyVec.spareCapacity]; omega)
  have hlen : v.toList.length = 64 := by
    simp only [hvl, CopyVec.spareCapacity, List.length_append, List.length_replicate]; omega
  have hpack : (packNibbles v.toList).length = 32 := by rw [length_packNibbles, hlen]
  refine ⟨⟨_, hpack⟩, ?_, by show packNibbles v.toList = _; rw [hvl]; rfl⟩
  simp [intoHashLeftPadded, hv, packFromSlice, hlen, H256.fromSlice, hpack]

/-- **Left-padded hashes.** The key of a hash pads back to the hash; and every key pads to the
word whose first nibbles are zero and whose last nibbles are the key's, in order. -/
theorem intoHashLeftPadded_fromHash :
    (∀ h : H256, (fromHash h).bind intoHashLeftPadded = some h) ∧
    ∀ k : TrieKey, ∃ w, k.intoHashLeftPadded = some w ∧
      (List.range 64).map w.nibble =
        List.replicate (64 - k.components.toList.length) 0 ++ k.components.toList.map Fin.val := by
  refine ⟨fun h => ?_, fun k => ?_⟩
  · obtain ⟨k, hk, hkl⟩ := fromHash_spec h
    obtain ⟨w, hw, hwb⟩ := intoHashLeftPadded_spec k
    rw [hkl, length_asNibbles, h.length_bytes, Nat.sub_self, List.replicate_zero, List.nil_append,
      packNibbles_asNibbles] at hwb
    rw [hk, Option.some_bind, hw, H256.ext hwb]
  · obtain ⟨w, hw, hwb⟩ := intoHashLeftPadded_spec k
    have hk := k.components.length_le
    refine ⟨w, hw, ?_⟩
    rw [map_range_nibble, hwb,
      asNibbles_packNibbles _ (by simp only [List.length_append, List.length_replicate]; omega),
      List.map_append,
      List.map_replicate]
    rfl

end TrieKey

end ZkEvm.TraceDecoder
