import Mathlib.Algebra.Ring.Basic
import Mathlib.Algebra.BigOperators.Group.List
import ZkEvm.Memory.Columns

/-!
The constraints of the memory table, `MemoryStark::eval_packed_generic`, and its two lookups.

The evaluator yields a list of constraints, each with the kind of `ConstraintConsumer` call
that yields it: on every row, on every transition (not from the last row to the first), or on
the first row only. An assignment of `N` rows satisfies the table when each constraint
vanishes wherever it is enforced, the next row of the last row being the first.
-/

namespace ZkEvm.Memory.Constraints

open ZkEvm.Memory.Columns

/-- `constraint`, `constraint_transition` and `constraint_first_row`. -/
inductive ConstraintKind
  | everyRow
  | transition
  | firstRow
  deriving DecidableEq

/-- Whether a constraint of this kind is checked at row `i` of `N`. -/
def ConstraintKind.enforced : ConstraintKind → ℕ → ℕ → Bool
  | .everyRow, _, _ => true
  | .transition, i, n => i + 1 < n
  | .firstRow, i, _ => i = 0

variable {R : Type} [CommRing R]

/-- `MemoryStark::eval_packed_generic`, on the local row `lv` and the next row `nv`. -/
def evalPackedGeneric (sg : SegmentIds) (lv nv : MemoryColumnsView R) :
    List (ConstraintKind × R) :=
  let one : R := 1
  let timestamp := lv.timestamp
  let addrContext := lv.addrContext
  let addrSegment := lv.addrSegment
  let addrVirtual := lv.addrVirtual
  let valueLimbs := lv.valueLimbs
  let timestampInv := lv.timestampInv
  let isStale := lv.isStale
  let maybeInMemAfter := lv.maybeInMemAfter
  let memAfterFilter := lv.memAfterFilter
  let initializeAux := lv.initializeAux
  let preinitializedSegments := lv.preinitializedSegments
  let preinitializedSegmentsAux := lv.preinitializedSegmentsAux
  let nextTimestamp := nv.timestamp
  let nextIsRead := nv.isRead
  let nextAddrContext := nv.addrContext
  let nextAddrSegment := nv.addrSegment
  let nextAddrVirtual := nv.addrVirtual
  let nextValuesLimbs := nv.valueLimbs
  let filter := lv.filter
  let isDummy := 1 - filter
  let isWrite := 1 - lv.isRead
  let contextFirstChange := lv.contextFirstChange
  let segmentFirstChange := lv.segmentFirstChange
  let virtualFirstChange := lv.virtualFirstChange
  let addressUnchanged := one - contextFirstChange - segmentFirstChange - virtualFirstChange
  let rangeCheck := lv.rangeCheck
  let notContextFirstChange := one - contextFirstChange
  let notSegmentFirstChange := one - segmentFirstChange
  let notVirtualFirstChange := one - virtualFirstChange
  let notAddressUnchanged := one - addressUnchanged
  let computedRangeCheck :=
    contextFirstChange * (nextAddrContext - addrContext - one) +
      segmentFirstChange * (nextAddrSegment - addrSegment - one) +
      virtualFirstChange * (nextAddrVirtual - addrVirtual - one) +
      addressUnchanged * (nextTimestamp - timestamp)
  [(.everyRow, filter * (filter - 1)),
    (.everyRow, isDummy * isWrite),
    (.everyRow, contextFirstChange * notContextFirstChange),
    (.everyRow, segmentFirstChange * notSegmentFirstChange),
    (.everyRow, virtualFirstChange * notVirtualFirstChange),
    (.everyRow, addressUnchanged * notAddressUnchanged),
    (.transition, segmentFirstChange * (nextAddrContext - addrContext)),
    (.transition, virtualFirstChange * (nextAddrContext - addrContext)),
    (.transition, virtualFirstChange * (nextAddrSegment - addrSegment)),
    (.transition, addressUnchanged * (nextAddrContext - addrContext)),
    (.transition, addressUnchanged * (nextAddrSegment - addrSegment)),
    (.transition, addressUnchanged * (nextAddrVirtual - addrVirtual)),
    (.transition, rangeCheck - computedRangeCheck),
    (.transition, preinitializedSegmentsAux -
      (nextAddrSegment - (sg.accountsLinkedList : R)) *
        (nextAddrSegment - (sg.storageLinkedList : R))),
    (.transition, preinitializedSegments -
      (nextAddrSegment - (sg.code : R)) * (nextAddrSegment - (sg.trieData : R)) *
        preinitializedSegmentsAux),
    (.transition, initializeAux - preinitializedSegments * notAddressUnchanged * nextIsRead)] ++
  (List.finRange Columns.valueLimbs).flatMap (fun i =>
    [(.transition, nextIsRead * addressUnchanged * (nextValuesLimbs i - valueLimbs i)),
      (.transition, initializeAux * nextValuesLimbs i)]) ++
  [(.transition, maybeInMemAfter + filter * notAddressUnchanged * (isStale - 1)),
    (.everyRow, memAfterFilter * (memAfterFilter - 1))] ++
  (List.finRange Columns.valueLimbs).map (fun i =>
    (.everyRow, (memAfterFilter - maybeInMemAfter) * preinitializedSegments * valueLimbs i)) ++
  [(.everyRow, timestamp * (timestamp * timestampInv - 1)),
    (.firstRow, lv.counter),
    (.transition, nv.counter - lv.counter - 1)]

/-- Every constraint vanishes on an assignment `t` of `N` rows, where it is enforced. -/
def ConstraintsHold (sg : SegmentIds) (N : ℕ) (t : ℕ → MemoryColumnsView R) : Prop :=
  ∀ i < N, ∀ c ∈ evalPackedGeneric sg (t i) (t ((i + 1) % N)),
    c.1.enforced i N = true → c.2 = 0

instance [DecidableEq R] (sg : SegmentIds) (N : ℕ) (t : ℕ → MemoryColumnsView R) :
    Decidable (ConstraintsHold sg N t) :=
  inferInstanceAs (Decidable (∀ i < N, ∀ c ∈ evalPackedGeneric sg (t i) (t ((i + 1) % N)),
    c.1.enforced i N = true → c.2 = 0))

/-- The constraints `eval_packed_generic` checks on every row, one field each. -/
structure RowConstraints (lv : MemoryColumnsView R) : Prop where
  filter_bool : lv.filter * (lv.filter - 1) = 0
  dummy_read : (1 - lv.filter) * (1 - lv.isRead) = 0
  context_bool : lv.contextFirstChange * (1 - lv.contextFirstChange) = 0
  segment_bool : lv.segmentFirstChange * (1 - lv.segmentFirstChange) = 0
  virtual_bool : lv.virtualFirstChange * (1 - lv.virtualFirstChange) = 0
  unchanged_bool : (1 - lv.contextFirstChange - lv.segmentFirstChange - lv.virtualFirstChange) *
    (1 - (1 - lv.contextFirstChange - lv.segmentFirstChange - lv.virtualFirstChange)) = 0
  memAfterFilter_bool : lv.memAfterFilter * (lv.memAfterFilter - 1) = 0
  memAfterFilter_limbs : ∀ i, (lv.memAfterFilter - lv.maybeInMemAfter) *
    lv.preinitializedSegments * lv.valueLimbs i = 0
  timestampInv_valid : lv.timestamp * (lv.timestamp * lv.timestampInv - 1) = 0

/-- The constraints `eval_packed_generic` checks between a row and the next, one field each. -/
structure TransitionConstraints (sg : SegmentIds) (lv nv : MemoryColumnsView R) : Prop where
  segment_context : lv.segmentFirstChange * (nv.addrContext - lv.addrContext) = 0
  virtual_context : lv.virtualFirstChange * (nv.addrContext - lv.addrContext) = 0
  virtual_segment : lv.virtualFirstChange * (nv.addrSegment - lv.addrSegment) = 0
  unchanged_context : (1 - lv.contextFirstChange - lv.segmentFirstChange - lv.virtualFirstChange) *
    (nv.addrContext - lv.addrContext) = 0
  unchanged_segment : (1 - lv.contextFirstChange - lv.segmentFirstChange - lv.virtualFirstChange) *
    (nv.addrSegment - lv.addrSegment) = 0
  unchanged_virtual : (1 - lv.contextFirstChange - lv.segmentFirstChange - lv.virtualFirstChange) *
    (nv.addrVirtual - lv.addrVirtual) = 0
  rangeCheck_valid : lv.rangeCheck -
    (lv.contextFirstChange * (nv.addrContext - lv.addrContext - 1) +
      lv.segmentFirstChange * (nv.addrSegment - lv.addrSegment - 1) +
      lv.virtualFirstChange * (nv.addrVirtual - lv.addrVirtual - 1) +
      (1 - lv.contextFirstChange - lv.segmentFirstChange - lv.virtualFirstChange) *
        (nv.timestamp - lv.timestamp)) = 0
  preinitializedSegmentsAux_valid : lv.preinitializedSegmentsAux -
    (nv.addrSegment - (sg.accountsLinkedList : R)) * (nv.addrSegment - (sg.storageLinkedList : R))
      = 0
  preinitializedSegments_valid : lv.preinitializedSegments -
    (nv.addrSegment - (sg.code : R)) * (nv.addrSegment - (sg.trieData : R)) *
      lv.preinitializedSegmentsAux = 0
  initializeAux_valid : lv.initializeAux - lv.preinitializedSegments *
    (1 - (1 - lv.contextFirstChange - lv.segmentFirstChange - lv.virtualFirstChange)) * nv.isRead
      = 0
  read_limbs : ∀ i, nv.isRead *
    (1 - lv.contextFirstChange - lv.segmentFirstChange - lv.virtualFirstChange) *
      (nv.valueLimbs i - lv.valueLimbs i) = 0
  zero_init_limbs : ∀ i, lv.initializeAux * nv.valueLimbs i = 0
  maybeInMemAfter_valid : lv.maybeInMemAfter + lv.filter *
    (1 - (1 - lv.contextFirstChange - lv.segmentFirstChange - lv.virtualFirstChange)) *
      (lv.isStale - 1) = 0
  counter_step : nv.counter - lv.counter - 1 = 0

/-- The constraints `eval_packed_generic` yields, read off by kind. -/
lemma evalPackedGeneric_forall_iff (sg : SegmentIds) (lv nv : MemoryColumnsView R)
    (P : ConstraintKind → Prop) :
    (∀ c ∈ evalPackedGeneric sg lv nv, P c.1 → c.2 = 0) ↔
      (P .everyRow → RowConstraints lv) ∧ (P .transition → TransitionConstraints sg lv nv) ∧
        (P .firstRow → lv.counter = 0) := by
  simp only [evalPackedGeneric, List.forall_mem_append, List.forall_mem_cons,
    List.forall_mem_flatMap, List.forall_mem_map, List.mem_finRange, forall_const,
    List.not_mem_nil, false_implies, implies_true, and_true, forall_and]
  constructor
  · rintro ⟨⟨⟨⟨⟨h1, h2, h3, h4, h5, h6, h7, h8, h9, h10, h11, h12, h13, h14, h15, h16⟩, hl, hz⟩,
      h17, h18⟩, hm⟩, h19, h20, h21⟩
    exact ⟨fun p => ⟨h1 p, h2 p, h3 p, h4 p, h5 p, h6 p, h18 p, fun i => hm i p, h19 p⟩,
      fun p => ⟨h7 p, h8 p, h9 p, h10 p, h11 p, h12 p, h13 p, h14 p, h15 p, h16 p,
        fun i => hl i p, fun i => hz i p, h17 p, h21 p⟩, h20⟩
  · rintro ⟨hr, ht, hf⟩
    exact ⟨⟨⟨⟨⟨fun p => (hr p).1, fun p => (hr p).2, fun p => (hr p).3, fun p => (hr p).4,
      fun p => (hr p).5, fun p => (hr p).6, fun p => (ht p).1, fun p => (ht p).2,
      fun p => (ht p).3, fun p => (ht p).4, fun p => (ht p).5, fun p => (ht p).6,
      fun p => (ht p).7, fun p => (ht p).8, fun p => (ht p).9, fun p => (ht p).10⟩,
      fun i p => (ht p).11 i, fun i p => (ht p).12 i⟩, fun p => (ht p).13, fun p => (hr p).7⟩,
      fun i p => (hr p).8 i⟩, fun p => (hr p).9, hf, fun p => (ht p).14⟩

/-- An assignment satisfies the table exactly when every row meets the row constraints, every
row but the last meets the transition constraints with the next, and the counter starts at
zero. -/
theorem constraintsHold_iff {sg : SegmentIds} {N : ℕ} {t : ℕ → MemoryColumnsView R} :
    ConstraintsHold sg N t ↔ (∀ i < N, RowConstraints (t i)) ∧
      (∀ i, i + 1 < N → TransitionConstraints sg (t i) (t (i + 1))) ∧
        (0 < N → (t 0).counter = 0) := by
  have key (i : ℕ) : (∀ c ∈ evalPackedGeneric sg (t i) (t ((i + 1) % N)),
      c.1.enforced i N = true → c.2 = 0) ↔ RowConstraints (t i) ∧
        (i + 1 < N → TransitionConstraints sg (t i) (t (i + 1))) ∧ (i = 0 → (t i).counter = 0) := by
    rw [evalPackedGeneric_forall_iff sg _ _ (fun k => k.enforced i N = true)]
    by_cases hi : i + 1 < N
    · simp [ConstraintKind.enforced, hi, Nat.mod_eq_of_lt hi]
    · simp [ConstraintKind.enforced, hi]
  simp only [ConstraintsHold, key]
  constructor
  · intro h
    exact ⟨fun i hi => (h i hi).1, fun i hi => (h i (by omega)).2.1 hi,
      fun hN => (h 0 hN).2.2 rfl⟩
  · rintro ⟨hr, ht, hf⟩ i hi
    exact ⟨hr i hi, ht i, fun h => by subst h; exact hf hi⟩

/-! ### Lookups -/

/-- A `starky` lookup: looking columns, each with its filter, read on the local and the next
row, against a table column with a column of multiplicities. -/
structure Lookup (R : Type) where
  columns : List (MemoryColumnsView R → MemoryColumnsView R → R)
  tableColumn : MemoryColumnsView R → R
  frequenciesColumn : MemoryColumnsView R → R
  filterColumns : List (MemoryColumnsView R → R)

/-- The range-check lookup of `MemoryStark::lookups`: the range check of every row (under the
default filter, which selects every row) and the next row's virtual address after a context or
segment change, against the counter column. -/
def rangeCheckLookup : Lookup R :=
  ⟨[fun lv _ => lv.rangeCheck, fun _ nv => nv.addrVirtual], fun lv => lv.counter,
    fun lv => lv.frequencies, [fun _ => 1, fun lv => lv.contextFirstChange + lv.segmentFirstChange]⟩

/-- The stale-context lookup of `MemoryStark::lookups`: `addr_context + 1` of every stale row,
against the `stale_contexts` column. -/
def staleContextsLookup : Lookup R :=
  ⟨[fun lv _ => lv.addrContext + 1], fun lv => lv.staleContexts,
    fun lv => lv.staleContextFrequencies, [fun lv => lv.isStale]⟩

/-- `MemoryStark::lookups`. -/
def lookups : List (Lookup R) := [rangeCheckLookup, staleContextsLookup]

variable [DecidableEq R]

/-- The multiplicity with which row `lv` (with next row `nv`) looks up `x`. -/
def Lookup.looking (l : Lookup R) (lv nv : MemoryColumnsView R) (x : R) : R :=
  (List.zipWith (fun c f => if c lv nv = x then f lv else 0) l.columns l.filterColumns).sum

/-- The multiplicity the table offers for `x`. -/
def Lookup.looked (l : Lookup R) (lv : MemoryColumnsView R) (x : R) : R :=
  if l.tableColumn lv = x then l.frequenciesColumn lv else 0

/-- The logUp argument accepts: each value is looked up exactly as often as the table offers
it, counted in the field. -/
def Lookup.Balanced (l : Lookup R) (N : ℕ) (t : ℕ → MemoryColumnsView R) : Prop :=
  ∀ x : R, ((List.range N).map fun i => l.looking (t i) (t ((i + 1) % N)) x).sum =
    ((List.range N).map fun i => l.looked (t i) x).sum

/-- Every value the range-check lookup looks up appears in the counter column. -/
def RangeCheckLookupHolds (N : ℕ) (t : ℕ → MemoryColumnsView R) : Prop :=
  ∀ i < N, (∃ j < N, (t i).rangeCheck = (t j).counter) ∧
    ((t i).contextFirstChange + (t i).segmentFirstChange = 1 →
      ∃ j < N, (t ((i + 1) % N)).addrVirtual = (t j).counter)

instance (N : ℕ) (t : ℕ → MemoryColumnsView R) : Decidable (RangeCheckLookupHolds N t) :=
  inferInstanceAs (Decidable (∀ i < N, (∃ j < N, (t i).rangeCheck = (t j).counter) ∧
    ((t i).contextFirstChange + (t i).segmentFirstChange = 1 →
      ∃ j < N, (t ((i + 1) % N)).addrVirtual = (t j).counter)))

end ZkEvm.Memory.Constraints
