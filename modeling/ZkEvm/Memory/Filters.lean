import ZkEvm.Memory.Soundness

/-!
The filters of the memory table's lookups and cross-table lookups, and what the constraints say
about them.

`filter`, `1 - timestamp * timestamp_inv`, `mem_after_filter` and
`context_first_change + segment_first_change` are bits on every satisfying assignment.
`is_stale` and `is_pruned` appear in no booleanity constraint, `mem_after_filter` is tied to
`maybe_in_mem_after` only on rows with a non-zero limb whose *next* row lies outside the
preinitialized segments, and no constraint relates `is_pruned` to `stale_contexts`. The last
part of the module gives, for every choice of segment ids, an accepted two-row assignment for
each of these gaps.
-/

namespace ZkEvm.Memory.Filters

open ZkEvm.Memory.Columns ZkEvm.Memory.Constraints ZkEvm.Memory.Soundness ZkEvm.Goldilocks

variable {F : Type} [Field F]

/-- `1 - timestamp * timestamp_inv`, the filter of `ctl_filter_mem_before`. -/
def ctlFilterMemBefore (lv : MemoryColumnsView F) : F := 1 - lv.timestamp * lv.timestampInv

lemma rowConstraints_filters_bits (h3 : (3 : F) ≠ 0) {lv : MemoryColumnsView F}
    (h : RowConstraints lv) :
    (lv.filter = 0 ∨ lv.filter = 1) ∧
    ((ctlFilterMemBefore lv = 0 ∨ ctlFilterMemBefore lv = 1) ∧
      (ctlFilterMemBefore lv = 1 ↔ lv.timestamp = 0)) ∧
    (lv.memAfterFilter = 0 ∨ lv.memAfterFilter = 1) ∧
    (lv.contextFirstChange + lv.segmentFirstChange = 0 ∨
      lv.contextFirstChange + lv.segmentFirstChange = 1) := by
  refine ⟨eq_zero_or_eq_one_of_mul_sub' h.filter_bool, ?_,
    eq_zero_or_eq_one_of_mul_sub' h.memAfterFilter_bool, ?_⟩
  · unfold ctlFilterMemBefore
    rcases mul_eq_zero.mp h.timestampInv_valid with h0 | h1
    · simp [h0]
    · have hts : lv.timestamp ≠ 0 := fun h0 => by simp [h0] at h1
      rw [sub_eq_zero.mp h1]
      simp [hts]
  · rcases eq_zero_or_eq_one_of_mul_sub h.context_bool with hc | hc <;>
    rcases eq_zero_or_eq_one_of_mul_sub h.segment_bool with hs | hs
    · exact .inl (by simp [hc, hs])
    · exact .inr (by simp [hc, hs])
    · exact .inr (by simp [hc, hs])
    -- both flags set: their complement `-1 - v` is a bit only when `2 = 0`
    left
    have hu := eq_zero_or_eq_one_of_mul_sub h.unchanged_bool
    rcases eq_zero_or_eq_one_of_mul_sub h.virtual_bool with hv | hv <;>
      rw [hc, hs, hv] at hu <;> rw [hc, hs] <;> rcases hu with hu | hu
    · linear_combination (-2) * hu
    · linear_combination -hu
    · linear_combination -hu
    · exact absurd (by linear_combination -hu) h3

/-! ### Accepted assignments outside the intended behaviour -/

/-- Two rows of Goldilocks: zero written at `(0, 0, 0)` at timestamp `0` and read back at
timestamp `1`, with the preinitialized-segment columns that `sg` makes them, and the given
`is_stale`, `stale_contexts`, `stale_context_frequencies`, `is_pruned` and `mem_after_filter`
on row `0`. -/
def writeRead (sg : SegmentIds) (isStale staleContexts staleContextFrequencies isPruned
    memAfterFilter : ZMod goldilocks) : ℕ → MemoryColumnsView (ZMod goldilocks)
  | 0 => { MemoryColumnsView.default with
      filter := 1, rangeCheck := 1, frequencies := 1, isStale, staleContexts,
      staleContextFrequencies, isPruned, memAfterFilter,
      preinitializedSegmentsAux := (0 - sg.accountsLinkedList) * (0 - sg.storageLinkedList),
      preinitializedSegments := (0 - sg.code) * (0 - sg.trieData) *
        ((0 - sg.accountsLinkedList) * (0 - sg.storageLinkedList)) }
  | _ => { MemoryColumnsView.default with
      filter := 1, isRead := 1, timestamp := 1, timestampInv := 1, counter := 1, frequencies := 1 }

lemma writeRead_constraintsHold (sg : SegmentIds) {s c f q m : ZMod goldilocks}
    (hm : m * (m - 1) = 0) : ConstraintsHold sg 2 (writeRead sg s c f q m) := by
  refine constraintsHold_iff.mpr ⟨fun i hi => ?_, fun i hi => ?_, fun _ => rfl⟩
  · obtain rfl | rfl : i = 0 ∨ i = 1 := by omega
    all_goals constructor <;> simp [writeRead, MemoryColumnsView.default, hm]
  · obtain rfl : i = 0 := by omega
    constructor <;> simp [writeRead, MemoryColumnsView.default]

lemma writeRead_lookups (sg : SegmentIds) {s c f q m : ZMod goldilocks}
    (hs : s = 0 ∧ f = 0 ∨ c = 1 ∧ f = s) :
    ∀ l ∈ lookups, l.Balanced 2 (writeRead sg s c f q m) := by
  simp only [lookups, List.mem_cons, List.mem_singleton, forall_eq_or_imp, forall_eq,
    List.not_mem_nil, false_implies, implies_true, and_true]
  refine ⟨fun x => ?_, fun x => ?_⟩ <;>
    simp [Lookup.looking, Lookup.looked, rangeCheckLookup, staleContextsLookup, writeRead,
      List.range_succ, MemoryColumnsView.default]
  · -- the range checks of the two rows are the two counters, in the other order
    exact add_comm _ _
  · rcases hs with ⟨rfl, rfl⟩ | ⟨rfl, rfl⟩ <;> simp

/-- The property that every filter of the table's lookups and cross-table lookups is a bit. -/
def FiltersAreBits (lv : MemoryColumnsView F) : Prop :=
  (lv.filter = 0 ∨ lv.filter = 1) ∧
  ((ctlFilterMemBefore lv = 0 ∨ ctlFilterMemBefore lv = 1) ∧
    (ctlFilterMemBefore lv = 1 ↔ lv.timestamp = 0)) ∧
  (lv.memAfterFilter = 0 ∨ lv.memAfterFilter = 1) ∧
  (lv.contextFirstChange + lv.segmentFirstChange = 0 ∨
    lv.contextFirstChange + lv.segmentFirstChange = 1) ∧
  (lv.isStale = 0 ∨ lv.isStale = 1) ∧ (lv.isPruned = 0 ∨ lv.isPruned = 1)

/-- **`is_stale` and `is_pruned` are not bits.** For every choice of segment ids, the
constraints accept `is_stale = is_pruned = 2` on a row inside a run. -/
theorem isStale_isPruned_not_bits : ∀ sg : SegmentIds,
    ConstraintsHold sg 2 (writeRead sg 2 0 0 2 0) ∧ ¬ FiltersAreBits (writeRead sg 2 0 0 2 0 0) :=
  fun sg => ⟨writeRead_constraintsHold sg (by simp), fun h => by
    have h2 : (2 : ZMod goldilocks) = 0 ∨ (2 : ZMod goldilocks) = 1 := h.2.2.2.2.1
    revert h2; decide⟩

/-- The rule `generate_trace_col_major` applies to `mem_after_filter` at row `i`: set exactly on
an active, non-stale row that ends its address run and holds a non-zero value or lies in a
preinitialized segment. -/
def MemAfterFilterRule (sg : SegmentIds) (N : ℕ) (t : ℕ → MemoryColumnsView F) (i : ℕ) : Prop :=
  (t i).memAfterFilter = 1 ↔ (t i).filter = 1 ∧ (t i).isStale = 0 ∧
    (i + 1 = N ∨ (t (i + 1)).addr ≠ (t i).addr) ∧
    ((∃ l, (t i).valueLimbs l ≠ 0) ∨
      (t i).addrSegment ∈ sg.preinitializedSegmentsIndices.map (fun n : ℕ => (n : F)))

/-- **`mem_after_filter` is not pinned.** For every choice of segment ids, the constraints and
both lookups accept `mem_after_filter = 1` on a zero-valued row that does not end its run. -/
theorem memAfterFilter_not_pinned : ∀ sg : SegmentIds,
    ConstraintsHold sg 2 (writeRead sg 0 0 0 0 1) ∧
      (∀ l ∈ lookups, l.Balanced 2 (writeRead sg 0 0 0 0 1)) ∧
      (writeRead sg 0 0 0 0 1 0).isStale = 0 ∧ ¬ MemAfterFilterRule sg 2 (writeRead sg 0 0 0 0 1) 0 :=
  fun sg => ⟨writeRead_constraintsHold sg (by simp), writeRead_lookups sg (.inl ⟨rfl, rfl⟩), rfl,
    fun h => by simp [MemAfterFilterRule, writeRead, MemoryColumnsView.addr,
      MemoryColumnsView.default] at h⟩

/-- Every stale row's context is among the contexts `ctl_context_pruning_looking` sends. -/
def StalePruningJustified (N : ℕ) (t : ℕ → MemoryColumnsView F) : Prop :=
  ∀ i < N, (t i).isStale ≠ 0 →
    ∃ j < N, (t j).isPruned ≠ 0 ∧ (t j).staleContexts = (t i).addrContext + 1

/-- **Stale rows without pruning.** For every choice of segment ids, the constraints and both
lookups accept a stale row whose context no row sends through the pruning cross-table lookup. -/
theorem stale_without_pruning : ∀ sg : SegmentIds,
    ConstraintsHold sg 2 (writeRead sg 1 1 1 0 0) ∧
      (∀ l ∈ lookups, l.Balanced 2 (writeRead sg 1 1 1 0 0)) ∧
      ¬ StalePruningJustified 2 (writeRead sg 1 1 1 0 0) :=
  fun sg => ⟨writeRead_constraintsHold sg (by simp), writeRead_lookups sg (.inr ⟨rfl, rfl⟩),
    fun h => by
      obtain ⟨j, hj, hp, -⟩ := h 0 (by omega) (by simp [writeRead])
      obtain rfl | rfl : j = 0 ∨ j = 1 := by omega
      all_goals simp [writeRead, MemoryColumnsView.default] at hp⟩

/-! ### What the constraints do pin -/

/-- **Constrained filters are bits.** On every assignment, over a field where `3 ≠ 0`, on which
every constraint of `eval_packed_generic` vanishes, each row's `filter`,
`1 - timestamp * timestamp_inv`, `mem_after_filter` and
`context_first_change + segment_first_change` is `0` or `1`; the `mem_before` filter is `1` exactly
at timestamp zero. -/
theorem constrained_filters_bits (h3 : (3 : F) ≠ 0) {sg : SegmentIds} {N : ℕ}
    {t : ℕ → MemoryColumnsView F} (h : ConstraintsHold sg N t) {i : ℕ} (hi : i < N) :
    ((t i).filter = 0 ∨ (t i).filter = 1) ∧
    ((ctlFilterMemBefore (t i) = 0 ∨ ctlFilterMemBefore (t i) = 1) ∧
      (ctlFilterMemBefore (t i) = 1 ↔ (t i).timestamp = 0)) ∧
    ((t i).memAfterFilter = 0 ∨ (t i).memAfterFilter = 1) ∧
    ((t i).contextFirstChange + (t i).segmentFirstChange = 0 ∨
      (t i).contextFirstChange + (t i).segmentFirstChange = 1) :=
  rowConstraints_filters_bits h3 ((constraintsHold_iff.mp h).1 i hi)

/-- The accepted write-then-read rows of Goldilocks: every filter the constraints cover is a bit
on row `0`. -/
theorem constrained_filters_bits_writeRead :
    (3 : ZMod goldilocks) ≠ 0 ∧ ConstraintsHold ⟨0, 1, 2, 3⟩ 2 (writeRead ⟨0, 1, 2, 3⟩ 0 0 0 0 0) ∧
    ((writeRead ⟨0, 1, 2, 3⟩ 0 0 0 0 0 0).filter = 0 ∨
      (writeRead ⟨0, 1, 2, 3⟩ 0 0 0 0 0 0).filter = 1) ∧
    ((ctlFilterMemBefore (writeRead ⟨0, 1, 2, 3⟩ 0 0 0 0 0 0) = 0 ∨
        ctlFilterMemBefore (writeRead ⟨0, 1, 2, 3⟩ 0 0 0 0 0 0) = 1) ∧
      (ctlFilterMemBefore (writeRead ⟨0, 1, 2, 3⟩ 0 0 0 0 0 0) = 1 ↔
        (writeRead ⟨0, 1, 2, 3⟩ 0 0 0 0 0 0).timestamp = 0)) ∧
    ((writeRead ⟨0, 1, 2, 3⟩ 0 0 0 0 0 0).memAfterFilter = 0 ∨
      (writeRead ⟨0, 1, 2, 3⟩ 0 0 0 0 0 0).memAfterFilter = 1) ∧
    ((writeRead ⟨0, 1, 2, 3⟩ 0 0 0 0 0 0).contextFirstChange +
        (writeRead ⟨0, 1, 2, 3⟩ 0 0 0 0 0 0).segmentFirstChange = 0 ∨
      (writeRead ⟨0, 1, 2, 3⟩ 0 0 0 0 0 0).contextFirstChange +
        (writeRead ⟨0, 1, 2, 3⟩ 0 0 0 0 0 0).segmentFirstChange = 1) :=
  have h3 : (3 : ZMod goldilocks) ≠ 0 := by decide
  have hc : ConstraintsHold ⟨0, 1, 2, 3⟩ 2 (writeRead ⟨0, 1, 2, 3⟩ 0 0 0 0 0) :=
    writeRead_constraintsHold _ (by simp)
  ⟨h3, hc, constrained_filters_bits h3 hc (by norm_num)⟩

end ZkEvm.Memory.Filters
