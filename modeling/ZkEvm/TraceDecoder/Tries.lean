import Mathlib.Data.List.Nodup
import ZkEvm.TraceDecoder.TypedMpt

/-!
# The transaction and receipt tries

`TransactionTrie` and `ReceiptTrie` map a transaction's index to bytes, over an untyped partial
trie whose key for index `i` is the `rlp` encoding of `i`.

`mpt_trie`'s insert is modelled on the trie's items, as its get is in `TypedMpt`: the walk from the
root fails on a hash node on the way to the path, and otherwise the item at the path is set. That
is what `mpt_trie` does as long as no path the trie holds or is asked about extends another. On
paths that do, its get matches a leaf up to the shorter path and its insert fails, or panics, on a
hash node below the path; the item view does not follow that. The tries here never meet such
paths: `rlp` encodes distinct indices so that none extends another, and a trie built by
`default()` and `insert` holds nothing but values under index keys. Over every such trie, each
insert updates the trie, read by index, at its own index only.
-/

namespace ZkEvm.TraceDecoder

/-- Modelled from the spec: `mpt_trie`'s `TrieOpError` as an insert meets it, the hash node on its
path. -/
structure TrieOpError where
  hash : H256

namespace PartialTrie

variable {V : Type}

/-- Modelled from the spec: `HashedPartialTrie::default()`, the empty trie. -/
def empty : PartialTrie V := ⟨[], List.nodup_nil⟩

/-- The hash of a sub-trie kept out of band on the way to `path`: a hash item whose path is a
prefix of it. -/
def hashOn (t : PartialTrie V) (path : Nibbles) : Option H256 :=
  t.items.findSome? fun e => match e.2 with
    | .hash h => if e.1.toList.isPrefixOf path.toList then some h else none
    | .val _ => none

/-- The trie holds only values: no part of it is kept out of band. -/
def Hydrated (t : PartialTrie V) : Prop := ∀ e ∈ t.items, e.2.value?.isSome

lemma nodup_filter_append {items : List (Nibbles × ValOrHash V)} (h : (items.map Prod.fst).Nodup)
    (path : Nibbles) (x : ValOrHash V) :
    (((items.filter fun e => e.1 ≠ path) ++ [(path, x)]).map Prod.fst).Nodup := by
  rw [List.map_append, List.nodup_append]
  refine ⟨h.sublist ((List.filter_sublist _).map _), List.nodup_singleton _, fun a ha hb => ?_⟩
  simp only [List.mem_map, List.mem_filter, decide_eq_true_eq] at ha
  obtain ⟨e, ⟨-, hne⟩, rfl⟩ := ha
  exact hne (List.mem_singleton.mp hb)

/-- The trie with the item at `path`, if any, replaced by `x`. -/
def setItem (t : PartialTrie V) (path : Nibbles) (x : ValOrHash V) : PartialTrie V :=
  ⟨(t.items.filter fun e => e.1 ≠ path) ++ [(path, x)], nodup_filter_append t.nodup_paths path x⟩

/-- Modelled from the spec: `PartialTrie::insert`, of a value or of the hash of a sub-trie kept
out of band, at a path that extends none of the trie's paths and that none of them extends. The
walk from the root along `path` fails on a hash node on the way; otherwise the item at `path`
becomes `x`. Where the new item goes among the others is not modelled. -/
def insert (t : PartialTrie V) (path : Nibbles) (x : ValOrHash V) :
    Except TrieOpError (PartialTrie V) :=
  match t.hashOn path with
  | some h => .error ⟨h⟩
  | none => .ok (t.setItem path x)

lemma lookup_filter_append (q p : Nibbles) (x : ValOrHash V) :
    ∀ l : List (Nibbles × ValOrHash V),
      ((l.filter fun e => e.1 ≠ p) ++ [(p, x)]).lookup q = if q = p then some x else l.lookup q
  | [] => by
    by_cases hq : q = p
    · subst hq; simp [List.lookup_cons]
    · simp [List.lookup_cons, beq_false_of_ne hq, hq]
  | (a, b) :: l => by
    have ih := lookup_filter_append q p x l
    rw [List.filter_cons]
    by_cases ha : a = p
    · subst ha
      by_cases hq : q = a <;> simp_all [List.lookup_cons, beq_false_of_ne]
    · by_cases hq : q = a
      · subst hq; simp [List.lookup_cons, ha]
      · simpa [ha, List.lookup_cons, beq_false_of_ne hq] using ih

@[simp] lemma get_setItem (t : PartialTrie V) (path q : Nibbles) (x : ValOrHash V) :
    (t.setItem path x).get q = if q = path then x.value? else t.get q := by
  rw [get, setItem]
  dsimp only
  rw [lookup_filter_append]
  split_ifs <;> rfl

lemma hashOn_eq_none {t : PartialTrie V} (ht : t.Hydrated) (path : Nibbles) :
    t.hashOn path = none :=
  List.findSome?_eq_none_iff.mpr fun e he => by
    obtain ⟨p, x⟩ := e
    cases x with
    | val v => rfl
    | hash h =>
      have := ht (p, .hash h) he
      simp [ValOrHash.value?] at this

lemma Hydrated.setItem {t : PartialTrie V} (ht : t.Hydrated) (path : Nibbles) (v : V) :
    (t.setItem path (.val v)).Hydrated := by
  intro e he
  rcases List.mem_append.mp he with he | he
  · exact ht e (List.mem_of_mem_filter he)
  · rw [List.mem_singleton.mp he]; rfl

lemma empty_hydrated : (empty : PartialTrie V).Hydrated :=
  fun _ he => absurd he (List.not_mem_nil _)

end PartialTrie

section Insert

variable {V : Type}

/-- The insert the tries share: the value stored before at the path, and the trie with `value`
there. The path is computed twice, as each caller does; either computation can panic, the outer
`none`. -/
def insertAtPath (inner : PartialTrie V) (path? : Option Nibbles) (value : V) :
    Option (Except TrieOpError (Option V × PartialTrie V)) := do
  let prev ← path?.map inner.get
  let path ← path?
  pure ((inner.insert path (.val value)).map (prev, ·))

lemma insertAtPath_some (inner : PartialTrie V) (path : Nibbles) (value : V) :
    insertAtPath inner (some path) value = some (match inner.hashOn path with
      | some h => .error ⟨h⟩
      | none => .ok (inner.get path, inner.setItem path (.val value))) := by
  show some ((inner.insert path (.val value)).map (inner.get path, ·)) = _
  unfold PartialTrie.insert
  cases inner.hashOn path <;> rfl

end Insert

/-! ### Tries keyed by transaction index -/

/-- Modelled from the spec: `u64::to_be_bytes`, the eight bytes of the value, the most
significant first. -/
def toBeBytes (n : ℕ) : List UInt8 := (List.range 8).reverse.map fun i => UInt8.ofNat (n / 256 ^ i)

/-- Modelled from the spec: `rlp`'s `encode_value` of a string of at most 55 bytes, the only
strings an integer gives: `0x80` for the empty string, a byte below `0x80` as itself, and any other
string after the byte `0x80` plus its length. -/
def encodeValue (value : List UInt8) : List UInt8 :=
  match value with
  | [] => [0x80]
  | [b] => if b < 0x80 then [b] else [0x81, b]
  | _ => UInt8.ofNat (0x80 + value.length) :: value

/-- Modelled from the spec: `rlp::encode` of a `usize`, which goes through `u64`: its big-endian
bytes after the leading zero bytes. -/
def rlpEncodeUsize (n : ℕ) : List UInt8 := encodeValue ((toBeBytes n).dropWhile (· == 0))

example : rlpEncodeUsize 0 = [0x80] ∧ rlpEncodeUsize 127 = [0x7f] ∧
    rlpEncodeUsize 1024 = [0x82, 0x04, 0x00] := by decide

/-- `TrieKey::from_txn_ix`: the nibbles of the index's `rlp` encoding. The `expect` panics when
they do not fit a key. -/
def TrieKey.fromTxnIx (txnIx : ℕ) : Option TrieKey := TrieKey.new (asNibbles (rlpEncodeUsize txnIx))

/-- The path of a transaction index, `TrieKey::from_txn_ix(txn_ix).into_nibbles()`. -/
def txnPath (txnIx : ℕ) : Option Nibbles := (TrieKey.fromTxnIx txnIx).bind TrieKey.intoNibbles

/-- `TransactionTrie`: per block, `txn_ix -> [u8]`, over an untyped trie. -/
structure TransactionTrie where
  untyped : PartialTrie (List UInt8)

/-- `ReceiptTrie`: per block, `txn_ix -> [u8]`, over an untyped trie. -/
structure ReceiptTrie where
  untyped : PartialTrie (List UInt8)

/-- `TransactionTrie::insert`. -/
def TransactionTrie.insert (t : TransactionTrie) (txnIx : ℕ) (val : List UInt8) :
    Option (Except TrieOpError (Option (List UInt8) × TransactionTrie)) :=
  (insertAtPath t.untyped (txnPath txnIx) val).map (Except.map (Prod.map id TransactionTrie.mk))

/-- `ReceiptTrie::insert`. -/
def ReceiptTrie.insert (t : ReceiptTrie) (txnIx : ℕ) (val : List UInt8) :
    Option (Except TrieOpError (Option (List UInt8) × ReceiptTrie)) :=
  (insertAtPath t.untyped (txnPath txnIx) val).map (Except.map (Prod.map id ReceiptTrie.mk))

/-- The bytes a transaction or receipt trie holds for each index. -/
def txnView (untyped : PartialTrie (List UInt8)) (txnIx : ℕ) : Option (List UInt8) :=
  (txnPath txnIx).bind untyped.get

/-- The number big-endian bytes stand for. -/
def beValue : List UInt8 → ℕ
  | [] => 0
  | b :: bs => b.toNat * 256 ^ bs.length + beValue bs

/-- Reads back the string `encodeValue` writes. -/
def decodeValue : List UInt8 → List UInt8
  | [b] => if b < 0x80 then [b] else []
  | _ :: rest => rest
  | [] => []

lemma decodeValue_encodeValue : ∀ value : List UInt8, decodeValue (encodeValue value) = value
  | [] => rfl
  | [b] => by by_cases hb : b < 0x80 <;> simp [encodeValue, decodeValue, hb]
  | _ :: _ :: _ => rfl

lemma beValue_range (n : ℕ) : ∀ k : ℕ,
    beValue ((List.range k).reverse.map fun i => UInt8.ofNat (n / 256 ^ i)) = n % 256 ^ k
  | 0 => (Nat.mod_one n).symm
  | k + 1 => by
    rw [List.range_succ, List.reverse_append, List.reverse_singleton, List.singleton_append,
      List.map_cons, beValue, List.length_map, List.length_reverse, List.length_range,
      beValue_range n k, Nat.mod_pow_succ, show (UInt8.ofNat (n / 256 ^ k)).toNat =
        n / 256 ^ k % 256 from rfl, Nat.mul_comm, Nat.add_comm]

lemma beValue_dropWhile : ∀ l : List UInt8, beValue (l.dropWhile (· == 0)) = beValue l
  | [] => rfl
  | b :: bs => by
    by_cases hb : b = 0
    · subst hb
      simp [List.dropWhile_cons, beValue, beValue_dropWhile bs]
    · simp [List.dropWhile_cons, hb]

lemma length_dropWhile_toBeBytes (n : ℕ) : ((toBeBytes n).dropWhile (· == 0)).length ≤ 8 :=
  (List.dropWhile_suffix _).length_le.trans (by simp [toBeBytes])

lemma length_rlpEncodeUsize (n : ℕ) : (rlpEncodeUsize n).length ≤ 9 := by
  have h := length_dropWhile_toBeBytes n
  unfold rlpEncodeUsize encodeValue
  split
  · simp
  · split <;> simp
  · simp only [List.length_cons]; omega

lemma rlpEncodeUsize_inj {i j : ℕ} (hi : i < 2 ^ 64) (hj : j < 2 ^ 64)
    (h : rlpEncodeUsize i = rlpEncodeUsize j) : i = j := by
  have hval (n : ℕ) (hn : n < 2 ^ 64) :
      beValue (decodeValue (rlpEncodeUsize n)) = n := by
    rw [rlpEncodeUsize, decodeValue_encodeValue, beValue_dropWhile, toBeBytes, beValue_range,
      show (256 : ℕ) ^ 8 = 2 ^ 64 by norm_num, Nat.mod_eq_of_lt hn]
  rw [← hval i hi, ← hval j hj, h]

/-- `from_txn_ix` never panics, and the path of an index holds the nibbles of its encoding. -/
lemma txnPath_spec (n : ℕ) :
    ∃ p, txnPath n = some p ∧ p.toList = (asNibbles (rlpEncodeUsize n)).map Fin.val := by
  obtain ⟨w, hw, hwl⟩ : ∃ w : CopyVec U4 64,
      CopyVec.tryFromIter (asNibbles (rlpEncodeUsize n)) = some w ∧
        w.toList = asNibbles (rlpEncodeUsize n) :=
    CopyVec.tryFromIter_spec (by
      have := length_rlpEncodeUsize n
      simp only [TrieKey.length_asNibbles]
      omega)
  obtain ⟨p, hp, hpl⟩ := TrieKey.intoNibbles_spec ⟨w⟩
  exact ⟨p, by simp [txnPath, TrieKey.fromTxnIx, TrieKey.new, hw, hp], by rw [hpl, hwl]⟩

/-- The length of an `rlp` string of at most 55 bytes, read off its first byte: a single byte up
to `0x80`, and otherwise the first byte less `0x80` after it. -/
def rlpLength (first : ℕ) : ℕ := if first ≤ 0x80 then 1 else first - 0x7f

lemma encodeValue_cons {value : List UInt8} (h : value.length ≤ 8) :
    ∃ b rest, encodeValue value = b :: rest ∧ rest.length + 1 = rlpLength b.toNat := by
  match value, h with
  | [], _ => exact ⟨0x80, [], rfl, rfl⟩
  | [b], _ =>
    by_cases hb : b < 0x80
    · have : b.toNat < 0x80 := hb
      exact ⟨b, [], by simp [encodeValue, hb], by rw [rlpLength, if_pos (by omega)]; rfl⟩
    · exact ⟨0x81, [b], by simp [encodeValue, hb], rfl⟩
  | b₁ :: b₂ :: rest, h =>
    have hlen : rest.length + 2 ≤ 8 := h
    refine ⟨_, _, rfl, ?_⟩
    rw [show (UInt8.ofNat (0x80 + (b₁ :: b₂ :: rest).length)).toNat =
      (0x80 + (rest.length + 2)) % 256 from rfl, Nat.mod_eq_of_lt (by omega), rlpLength,
      if_neg (by omega)]
    simp only [List.length_cons]
    omega

lemma rlpEncodeUsize_prefixFree {i j : ℕ} (hi : i < 2 ^ 64) (hj : j < 2 ^ 64)
    (h : rlpEncodeUsize i <+: rlpEncodeUsize j) : i = j := by
  obtain ⟨b, rest, hb, hl⟩ := encodeValue_cons (length_dropWhile_toBeBytes i)
  obtain ⟨b', rest', hb', hl'⟩ := encodeValue_cons (length_dropWhile_toBeBytes j)
  rw [rlpEncodeUsize, rlpEncodeUsize, hb, hb'] at h
  obtain ⟨rfl, -⟩ := List.cons_prefix_cons.mp h
  refine rlpEncodeUsize_inj hi hj ?_
  rw [rlpEncodeUsize, rlpEncodeUsize, hb, hb']
  exact h.eq_of_length (by simp only [List.length_cons]; omega)

lemma packNibbles_asNibbles_append : ∀ (bytes : List UInt8) (l : List U4),
    packNibbles (asNibbles bytes ++ l) = bytes ++ packNibbles l
  | [], _ => rfl
  | b :: bytes, l => by
    rw [asNibbles, List.cons_append, List.cons_append, packNibbles,
      packNibbles_asNibbles_append bytes l, Nat.div_add_mod, TrieKey.ofNat_toNat, List.cons_append]

lemma isPrefix_of_asNibbles {a b : List UInt8} (h : asNibbles a <+: asNibbles b) : a <+: b := by
  obtain ⟨l, hl⟩ := h
  exact ⟨packNibbles l, by rw [← packNibbles_asNibbles_append, hl, TrieKey.packNibbles_asNibbles]⟩

lemma txnPath_prefixFree {i j : ℕ} (hi : i < 2 ^ 64) (hj : j < 2 ^ 64) {p q : Nibbles}
    (hp : txnPath i = some p) (hq : txnPath j = some q) (h : p.toList <+: q.toList) : i = j := by
  obtain ⟨p', hp', hl⟩ := txnPath_spec i
  obtain ⟨q', hq', hl'⟩ := txnPath_spec j
  rw [hp, Option.some_inj] at hp'
  rw [hq, Option.some_inj] at hq'
  subst hp' hq'
  rw [hl, hl', List.prefix_iff_eq_take, List.length_map, ← List.map_take] at h
  exact rlpEncodeUsize_prefixFree hi hj (isPrefix_of_asNibbles (List.prefix_iff_eq_take.mpr
    (List.map_injective_iff.mpr (fun _ _ => Fin.ext) h)))

/-- No path of the trie extends another. -/
def PartialTrie.PrefixFree {V : Type} (t : PartialTrie V) : Prop :=
  ∀ e ∈ t.items, ∀ e' ∈ t.items, e.1.toList <+: e'.1.toList → e.1 = e'.1

/-- Every item of the trie is a value under the path of an index below `2 ^ 64`. -/
def IndexKeyed (u : PartialTrie (List UInt8)) : Prop :=
  ∀ e ∈ u.items, e.2.value?.isSome ∧ ∃ i < 2 ^ 64, txnPath i = some e.1

/-- The trie `TransactionTrie::default()` and `ReceiptTrie::default()` start from, and what each
successful insert at an index makes of it. -/
inductive BuiltByInsert : PartialTrie (List UInt8) → Prop
  | empty : BuiltByInsert .empty
  | insert {u u' : PartialTrie (List UInt8)} {prev : Option (List UInt8)} {txnIx : ℕ}
      {val : List UInt8} : BuiltByInsert u → txnIx < 2 ^ 64 →
      insertAtPath u (txnPath txnIx) val = some (.ok (prev, u')) → BuiltByInsert u'

section IndexKeyed

variable {u : PartialTrie (List UInt8)} {txnIx : ℕ} {p : Nibbles}

lemma IndexKeyed.prefixFree (hu : IndexKeyed u) : u.PrefixFree := by
  intro e he e' he' h
  obtain ⟨-, i, hi, hp⟩ := hu e he
  obtain ⟨-, j, hj, hq⟩ := hu e' he'
  obtain rfl := txnPath_prefixFree hi hj hp hq h
  exact Option.some_inj.mp (hp.symm.trans hq)

lemma insertAtPath_txnPath_eq (hu : IndexKeyed u) (hp : txnPath txnIx = some p)
    (val : List UInt8) :
    insertAtPath u (txnPath txnIx) val = some (.ok (txnView u txnIx, u.setItem p (.val val))) := by
  rw [hp, insertAtPath_some, PartialTrie.hashOn_eq_none fun e he => (hu e he).1]
  simp [txnView, hp]

lemma IndexKeyed.setItem (hu : IndexKeyed u) (h : txnIx < 2 ^ 64) (hp : txnPath txnIx = some p)
    (val : List UInt8) : IndexKeyed (u.setItem p (.val val)) := by
  intro e he
  rcases List.mem_append.mp he with he | he
  · exact hu e (List.mem_of_mem_filter he)
  · rw [List.mem_singleton.mp he]
    exact ⟨rfl, txnIx, h, hp⟩

lemma txnView_setItem (h : txnIx < 2 ^ 64) (hp : txnPath txnIx = some p) (val : List UInt8)
    {j : ℕ} (hj : j < 2 ^ 64) :
    txnView (u.setItem p (.val val)) j = if j = txnIx then some val else txnView u j := by
  obtain ⟨q, hq, -⟩ := txnPath_spec j
  simp only [txnView, hq, hp, Option.some_bind, PartialTrie.get_setItem]
  by_cases hji : j = txnIx
  · subst hji
    rw [hq, Option.some_inj] at hp
    simp [hp, ValOrHash.value?]
  · have hqp : q ≠ p := fun he => hji (txnPath_prefixFree hj h hq (he ▸ hp) (List.prefix_refl _))
    simp [hji, hqp]

lemma BuiltByInsert.indexKeyed (hu : BuiltByInsert u) : IndexKeyed u := by
  induction hu with
  | empty => exact fun _ he => absurd he (List.not_mem_nil _)
  | @insert u u' prev txnIx val _ h hins ih =>
    obtain ⟨p, hp, -⟩ := txnPath_spec txnIx
    rw [insertAtPath_txnPath_eq ih hp, Option.some_inj, Except.ok.injEq, Prod.mk.injEq] at hins
    rw [← hins.2]
    exact ih.setItem h hp val

lemma BuiltByInsert.insert_txnPath (hu : BuiltByInsert u) (h : txnIx < 2 ^ 64) (val : List UInt8) :
    ∃ u', insertAtPath u (txnPath txnIx) val = some (.ok (txnView u txnIx, u')) ∧
      BuiltByInsert u' ∧
      ∀ j < 2 ^ 64, txnView u' j = if j = txnIx then some val else txnView u j := by
  obtain ⟨p, hp, -⟩ := txnPath_spec txnIx
  have hins := insertAtPath_txnPath_eq hu.indexKeyed hp val
  exact ⟨_, hins, hu.insert h hins, fun j hj => txnView_setItem h hp val hj⟩

end IndexKeyed

/-- **Transaction and receipt tries are maps.** The paths of distinct indices never extend one
another, so a trie built by `default()` and inserts holds only values, under index paths none of
which extends another: the tries on which `mpt_trie` finds exactly the item at a path. On such a
trie, inserting at an index neither panics nor fails. It returns the bytes held before for that
index and leaves a trie built the same way, holding the new bytes for that index and the old bytes
for every other. -/
theorem insert_txnView :
    (∀ {i j : ℕ}, i < 2 ^ 64 → j < 2 ^ 64 → ∀ {p q : Nibbles}, txnPath i = some p →
      txnPath j = some q → p.toList <+: q.toList → i = j) ∧
    (∀ u, BuiltByInsert u → u.PrefixFree ∧ IndexKeyed u) ∧
    (∀ (t : TransactionTrie) (txnIx : ℕ) (val : List UInt8), BuiltByInsert t.untyped →
      txnIx < 2 ^ 64 → ∃ t', t.insert txnIx val = some (.ok (txnView t.untyped txnIx, t')) ∧
        BuiltByInsert t'.untyped ∧
        ∀ j < 2 ^ 64, txnView t'.untyped j = if j = txnIx then some val else txnView t.untyped j) ∧
    ∀ (t : ReceiptTrie) (txnIx : ℕ) (val : List UInt8), BuiltByInsert t.untyped →
      txnIx < 2 ^ 64 → ∃ t', t.insert txnIx val = some (.ok (txnView t.untyped txnIx, t')) ∧
        BuiltByInsert t'.untyped ∧
        ∀ j < 2 ^ 64,
          txnView t'.untyped j = if j = txnIx then some val else txnView t.untyped j := by
  refine ⟨txnPath_prefixFree, fun u hu => ⟨hu.indexKeyed.prefixFree, hu.indexKeyed⟩,
    fun t txnIx val hu h => ?_, fun t txnIx val hu h => ?_⟩ <;>
  obtain ⟨u', hins, hu', hview⟩ := hu.insert_txnPath h val <;>
  exact ⟨⟨u'⟩, by simp [TransactionTrie.insert, ReceiptTrie.insert, hins, Except.map], hu', hview⟩

/-- Index `128`, then index `129`, whose keys `0x81 0x80` and `0x81 0x81` share their first three
nibbles, in a transaction trie built from the empty one: both sets of bytes stay readable. -/
theorem insert_txnView_twice : ∃ t₁ t₂, (⟨.empty⟩ : TransactionTrie).insert 128 [1] =
      some (.ok (none, t₁)) ∧ t₁.insert 129 [7] = some (.ok (none, t₂)) ∧
    txnView t₂.untyped 128 = some [1] ∧ txnView t₂.untyped 129 = some [7] := by
  obtain ⟨t₁, h₁, hb₁, hv₁⟩ :=
    insert_txnView.2.2.1 ⟨.empty⟩ 128 [1] BuiltByInsert.empty (by norm_num)
  obtain ⟨t₂, h₂, -, hv₂⟩ := insert_txnView.2.2.1 t₁ 129 [7] hb₁ (by norm_num)
  have hv₁₂₉ : txnView t₁.untyped 129 = none := by rw [hv₁ 129 (by norm_num)]; rfl
  refine ⟨t₁, t₂, h₁, by rwa [hv₁₂₉] at h₂, ?_, by rw [hv₂ 129 (by norm_num), if_pos rfl]⟩
  rw [hv₂ 128 (by norm_num), if_neg (by norm_num), hv₁ 128 (by norm_num), if_pos rfl]

end ZkEvm.TraceDecoder
