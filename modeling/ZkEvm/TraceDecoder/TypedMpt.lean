import ZkEvm.TraceDecoder.TrieKey

/-!
A trie keyed by `TrieKey`s, and what `TypedMpt::iter` reads from it.

The partial trie underneath belongs to `mpt_trie`, which is not part of this model. It is seen as
the items it holds: each path with a value, or with the hash of a sub-trie kept out of band, at
distinct paths. `keys` lists the paths and `get` reads the item at a path. That is what `mpt_trie`
returns at a path the trie holds, and at a path that extends none of the trie's paths and that
none of them extends; at other paths `mpt_trie` matches a leaf up to the shorter path, which the
item view does not follow, and nothing here reads the trie there. Values are held decoded:
`TypedMpt` inserts only encoded values and asserts that decoding gives them back (`PANIC_MSG`), so
the RLP layer is left out.

`iter` turns each path into a key and looks the key up again. The key turns back into the path it
came from, so `iter` lists each stored value once, under the key of its path, in the trie's
order.
-/

namespace ZkEvm.TraceDecoder

/-- Modelled from the spec: `mpt_trie`'s `ValOrHash`, what the trie holds at a path. -/
inductive ValOrHash (V : Type)
  | val (v : V)
  | hash (h : H256)

/-- The value an item holds, if it holds one. -/
def ValOrHash.value? {V : Type} : ValOrHash V → Option V
  | .val v => some v
  | .hash _ => none

/-- Modelled from the spec: `mpt_trie`'s `HashedPartialTrie`, seen as its items: each path with
a value, or with the hash of a sub-trie kept out of band. The paths are distinct. -/
structure PartialTrie (V : Type) where
  items : List (Nibbles × ValOrHash V)
  nodup_paths : (items.map Prod.fst).Nodup

namespace PartialTrie

variable {V : Type}

/-- `PartialTrie::keys`: the paths of the items, in the trie's order. -/
def keys (t : PartialTrie V) : List Nibbles := t.items.map Prod.fst

/-- Modelled from the spec: `PartialTrie::get`, the value stored at a path, where the path is one
the trie holds or extends none of its paths and is extended by none. -/
def get (t : PartialTrie V) (path : Nibbles) : Option V :=
  (t.items.lookup path).bind ValOrHash.value?

/-- The values the trie stores, each with its path, in the trie's order. -/
def valueItems (t : PartialTrie V) : List (Nibbles × V) :=
  t.items.filterMap fun e => e.2.value?.map (e.1, ·)

lemma lookup_of_mem : ∀ {items : List (Nibbles × ValOrHash V)}, (items.map Prod.fst).Nodup →
    ∀ {p : Nibbles} {x : ValOrHash V}, (p, x) ∈ items → items.lookup p = some x
  | [], _, _, _, h => absurd h (List.not_mem_nil _)
  | (q, y) :: items, hnd, p, x, h => by
    simp only [List.map_cons, List.nodup_cons] at hnd
    rcases List.mem_cons.mp h with he | hmem
    · obtain ⟨rfl, rfl⟩ := Prod.mk.inj he
      exact List.lookup_cons_self
    · have hpq : p ≠ q := by
        rintro rfl
        exact hnd.1 (List.mem_map_of_mem Prod.fst hmem)
      rw [List.lookup_cons, beq_false_of_ne hpq]
      exact lookup_of_mem hnd.2 hmem

lemma get_of_mem (t : PartialTrie V) {p : Nibbles} {x : ValOrHash V} (h : (p, x) ∈ t.items) :
    t.get p = x.value? := by
  rw [get, lookup_of_mem t.nodup_paths h, Option.some_bind]

end PartialTrie

lemma filterMapM_loop_eq {α β : Type} (f : α → Option (Option β)) (g : α → Option β) :
    ∀ (l : List α) (bs : List β), (∀ a ∈ l, f a = some (g a)) →
      List.filterMapM.loop f l bs = some (bs.reverse ++ l.filterMap g)
  | [], bs, _ => by simp [List.filterMapM.loop]
  | a :: l, bs, h => by
    have ih := filterMapM_loop_eq f g l
    have hl : ∀ x ∈ l, f x = some (g x) := fun x hx => h x (List.mem_cons_of_mem a hx)
    simp only [List.filterMapM.loop, h a (List.mem_cons_self a l), Option.bind_eq_bind,
      Option.some_bind]
    cases hg : g a with
    | none => simp [ih bs hl, List.filterMap_cons, hg]
    | some b => simp [ih (b :: bs) hl, List.filterMap_cons, hg]

lemma filterMapM_eq {α β : Type} {f : α → Option (Option β)} {g : α → Option β} {l : List α}
    (h : ∀ a ∈ l, f a = some (g a)) : l.filterMapM f = some (l.filterMap g) := by
  simpa using filterMapM_loop_eq f g l [] h

/-- `TypedMpt<T>`: a partial trie keyed by `TrieKey`s. -/
structure TypedMpt (T : Type) where
  inner : PartialTrie T

namespace TypedMpt

variable {T : Type}

/-- `TypedMpt::get`: the value stored under a key. The outer `none` is a panic. -/
def get (t : TypedMpt T) (key : TrieKey) : Option (Option T) := key.intoNibbles.map t.inner.get

/-- `TypedMpt::iter`: each path of the trie as a key, with the value stored under that key; a
path with no value is skipped. The outer `none` is a panic. -/
def iter (t : TypedMpt T) : Option (List (TrieKey × T)) :=
  t.inner.keys.filterMapM fun nib => do
    let path ← TrieKey.fromNibbles nib
    let v ← t.get path
    pure (v.map (path, ·))

/-- `iter` never panics on a trie whose paths are at most 64 nibbles long, and lists the stored
values, each under the key of its path, in the trie's order. -/
lemma iter_spec (t : TypedMpt T) (h : ∀ p ∈ t.inner.keys, p.count ≤ 64) :
    ∃ l, t.iter = some l ∧ l.map (fun e => (e.1.intoNibbles, e.2)) =
      t.inner.valueItems.map fun e => (some e.1, e.2) := by
  have hkey : ∀ p ∈ t.inner.keys,
      ∃ k, TrieKey.fromNibbles p = some k ∧ k.intoNibbles = some p :=
    fun p hp => Option.bind_eq_some.mp (TrieKey.fromNibbles_bind_intoNibbles (h p hp))
  refine ⟨t.inner.keys.filterMap fun p =>
      (TrieKey.fromNibbles p).bind fun k => (t.inner.get p).map (k, ·),
    filterMapM_eq fun p hp => ?_, ?_⟩
  · obtain ⟨k, hk, hkp⟩ := hkey p hp
    simp [hk, get, hkp]
  · rw [List.map_filterMap, PartialTrie.valueItems, List.map_filterMap, PartialTrie.keys,
      List.filterMap_map]
    refine List.filterMap_congr fun e he => ?_
    obtain ⟨k, hk, hkp⟩ := hkey e.1 (List.mem_map_of_mem _ he)
    simp [hk, hkp, Function.comp_def,
      PartialTrie.get_of_mem t.inner (show (e.1, e.2) ∈ t.inner.items from he)]

end TypedMpt

/-- **Keys and nibbles.** A key comes back from `mpt_trie`'s nibbles; at most 64 nibbles come back
from a key, leading zeros kept; and so `iter` lists every value of a trie whose paths are at most
64 nibbles long, under the key of its path, in the trie's order. -/
theorem fromNibbles_intoNibbles :
    (∀ k : TrieKey, k.intoNibbles.bind TrieKey.fromNibbles = some k) ∧
    (∀ n : Nibbles, n.count ≤ 64 → (TrieKey.fromNibbles n).bind TrieKey.intoNibbles = some n) ∧
    ∀ {T : Type} (t : TypedMpt T), (∀ p ∈ t.inner.keys, p.count ≤ 64) →
      ∃ l, t.iter = some l ∧
        l.map (fun e => (e.1.intoNibbles, e.2)) = t.inner.valueItems.map fun e => (some e.1, e.2) :=
  ⟨TrieKey.intoNibbles_bind_fromNibbles, fun _ h => TrieKey.fromNibbles_bind_intoNibbles h,
    fun t h => t.iter_spec h⟩

/-- The nibbles `0a`, whose leading zero only the count records, and a trie holding a value
there. -/
theorem fromNibbles_intoNibbles_leadingZero :
    (TrieKey.fromNibbles ⟨2, 0x0a, by norm_num⟩).bind TrieKey.intoNibbles =
        some ⟨2, 0x0a, by norm_num⟩ ∧
      ∃ l, (⟨⟨[(⟨2, 0x0a, by norm_num⟩, .val 7)], by simp⟩⟩ : TypedMpt ℕ).iter =
        some l ∧ l.map (fun e => (e.1.intoNibbles, e.2)) = [(some ⟨2, 0x0a, by norm_num⟩, 7)] :=
  ⟨fromNibbles_intoNibbles.2.1 _ (by decide),
    fromNibbles_intoNibbles.2.2 _ (by simp [PartialTrie.keys])⟩

end ZkEvm.TraceDecoder
