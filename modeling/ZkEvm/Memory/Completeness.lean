import ZkEvm.Memory.Trace
import ZkEvm.Memory.ColMajor
import ZkEvm.Memory.Soundness

/-!
Completeness of trace generation: for a log within the bounds whose reads see the writes before
them, `generate_trace` returns, and every constraint of `eval_packed_generic` vanishes on the
trace it returns.

The trace is described once (`generateTrace_eq`, `rowAt_traceRows`): the row-major rows of
`rowOps`, the stale contexts recorded, and the columns `written` by the column-major loop. The
row constraints then hold row by row, and the transition constraints pair by pair: those on the
flags and the range check for any two rows (`flags_transition`), those on the values because
every read sees the row before it (`Follows`).
-/

namespace ZkEvm.Memory.Completeness

open ZkEvm.Goldilocks ZkEvm.Memory.Columns ZkEvm.Memory.Constraints ZkEvm.Memory.Ops MemoryOp
open ZkEvm.Memory.FillGaps ZkEvm.Memory.Generation ZkEvm.Memory.Trace ZkEvm.Memory.ColMajor
open ZkEvm.Memory.Soundness

/-! ### The trace of a log -/

/-- The log `generate_trace` sorts: the operations, then a write at timestamp `0` of each
`mem_before` value. -/
def traceOps (memoryOps : List MemoryOp) (memBeforeValues : List (MemoryAddress × BitVec 256)) :
    List MemoryOp :=
  memoryOps ++ memBeforeValues.map memBeforeOp

/-- The rows the column-major pass starts from: the row-major rows of `rowOps`, with the stale
contexts recorded. -/
def staleRows (sg : SegmentIds) (ops : List MemoryOp) (staleContexts : List ℕ) : List Row :=
  withStale (flagRows sg ((rowOps ops).map MemoryOp.intoRow)) staleContexts

/-- The rows `generate_trace` returns. -/
def traceRows (sg : SegmentIds) (ops : List MemoryOp) (staleContexts : List ℕ) : List Row :=
  (written sg (staleRows sg ops staleContexts) (rowOps ops).length).apply
    (staleRows sg ops staleContexts)

/-- The stale contexts the specification allows: distinct, each below the `next_power_of_two` of the
length `fill_gaps` walks. -/
structure StaleBounds (ops : List MemoryOp) (staleContexts : List ℕ) : Prop where
  nodup : staleContexts.Nodup
  lt : ∀ c ∈ staleContexts, c < (walked ops).length.nextPowerOfTwo

section Trace

variable (sg : SegmentIds) {ops : List MemoryOp} (staleContexts : List ℕ)

@[simp] lemma length_staleRows :
    (staleRows sg ops staleContexts).length = (rowOps ops).length := by
  simp [staleRows]

@[simp] lemma length_traceRows :
    (traceRows sg ops staleContexts).length = (rowOps ops).length := by
  simp [traceRows]

lemma nextPowerOfTwo_walked_le (h : LogBounds ops) :
    (walked ops).length.nextPowerOfTwo ≤ (rowOps ops).length := by
  have := walkedMaxRc_lt_length h
  have := nextPowerOfTwo_pos (walked ops).length
  unfold walkedMaxRc at *
  omega

lemma rowAt_staleRows {i : ℕ} (hi : i < (rowOps ops).length) :
    rowAt (staleRows sg ops staleContexts) i =
      { rowAt (flagRows sg ((rowOps ops).map MemoryOp.intoRow)) i with
        staleContexts := if i ∈ staleContexts then (i : ZMod goldilocks) + 1
          else (rowAt (flagRows sg ((rowOps ops).map MemoryOp.intoRow)) i).staleContexts
        isPruned := if i ∈ staleContexts then 1
          else (rowAt (flagRows sg ((rowOps ops).map MemoryOp.intoRow)) i).isPruned } :=
  rowAt_withStale (by simpa using hi)

lemma stepInBounds_staleRows (h : LogBounds ops) {i : ℕ} (hi : i < (rowOps ops).length) :
    StepInBounds (staleRows sg ops staleContexts) i := by
  refine ⟨by simpa using hi, ?_, fun hf hi' => ?_, ?_⟩
  · rw [rowAt_staleRows sg staleContexts hi, length_staleRows]
    dsimp only
    exact rangeCheck_lt sg h hi
  · rw [length_staleRows] at hi' ⊢
    rw [rowAt_staleRows sg staleContexts hi] at hf
    rw [rowAt_staleRows sg staleContexts hi']
    dsimp only at hf ⊢
    exact addrVirtual_lt h hi' hf
  · rw [rowAt_staleRows sg staleContexts hi, length_staleRows]
    dsimp only
    exact addrContext_lt h hi

lemma rowAt_traceRows {i : ℕ} (hi : i < (rowOps ops).length) :
    rowAt (traceRows sg ops staleContexts) i =
      { rowAt (staleRows sg ops staleContexts) i with
        counter := (i : ZMod goldilocks)
        frequencies :=
          (written sg (staleRows sg ops staleContexts) (rowOps ops).length).frequencies i
        staleContextFrequencies := (written sg (staleRows sg ops staleContexts)
          (rowOps ops).length).staleContextFrequencies i
        isStale := (written sg (staleRows sg ops staleContexts) (rowOps ops).length).isStale i
        maybeInMemAfter :=
          (written sg (staleRows sg ops staleContexts) (rowOps ops).length).maybeInMemAfter i
        memAfterFilter :=
          (written sg (staleRows sg ops staleContexts) (rowOps ops).length).memAfterFilter i } :=
  Written.rowAt_apply _ _ (by simpa using hi)

end Trace

/-- Under the bounds, `generate_trace` returns `traceRows`, the values of the rows its
`mem_after_filter` selects, and the length of the filled log. -/
lemma generateTrace_eq {sg : SegmentIds} {memoryOps : List MemoryOp}
    {memBeforeValues : List (MemoryAddress × BitVec 256)} {staleContexts : List ℕ}
    (h : LogBounds (traceOps memoryOps memBeforeValues))
    (hs : StaleBounds (traceOps memoryOps memBeforeValues) staleContexts) :
    generateTrace sg memoryOps memBeforeValues staleContexts =
      .ok (traceRows sg (traceOps memoryOps memBeforeValues) staleContexts,
        ((traceRows sg (traceOps memoryOps memBeforeValues) staleContexts).filter
          fun row => row.memAfterFilter = 1).map fun row => 1 :: row.addrValueSlice,
        (filled (walked (traceOps memoryOps memBeforeValues))).length) := by
  have hlt : ∀ c ∈ staleContexts, c < (flagRows sg ((rowOps (traceOps memoryOps
      memBeforeValues)).map MemoryOp.intoRow)).length := fun c hc => by
    simpa using lt_of_lt_of_le (hs.lt c hc) (nextPowerOfTwo_walked_le h)
  have hcol := generateTraceColMajor_eq sg (staleRows sg (traceOps memoryOps memBeforeValues)
    staleContexts) fun i hi => stepInBounds_staleRows sg staleContexts h (by simpa using hi)
  rw [length_staleRows] at hcol
  rw [generateTrace, show memoryOps ++ memBeforeValues.map memBeforeOp =
    traceOps memoryOps memBeforeValues from rfl]
  simp only [generateTraceRowMajor_eq sg h, bind, Except.bind,
    insertStaleContexts_eq hs.nodup hlt]
  rw [← staleRows, hcol]
  rfl

/-! ### The flags of a row -/

section Flags

variable (sg : SegmentIds) (b : Bool) (row next : Row)

lemma firstChange_firstChangeFlagsAndRc : FirstChange (firstChangeFlagsAndRc sg b row next) := by
  unfold firstChangeFlagsAndRc
  by_cases h₁ : row.addrContext = next.addrContext
  · by_cases h₂ : row.addrSegment = next.addrSegment
    · by_cases h₃ : row.addrVirtual = next.addrVirtual
      · refine .unchanged ?_ ?_ ?_ <;> simp [fromBool, h₁, h₂, h₃]
      · refine .virtual ?_ ?_ ?_ <;> simp [fromBool, h₁, h₂, h₃]
    · refine .segment ?_ ?_ ?_ <;> simp [fromBool, h₁, h₂]
  · refine .context ?_ ?_ ?_ <;> simp [fromBool, h₁]

lemma flags_transition :
    let lv := firstChangeFlagsAndRc sg false row next
    lv.segmentFirstChange * (next.addrContext - lv.addrContext) = 0 ∧
    lv.virtualFirstChange * (next.addrContext - lv.addrContext) = 0 ∧
    lv.virtualFirstChange * (next.addrSegment - lv.addrSegment) = 0 ∧
    (1 - lv.contextFirstChange - lv.segmentFirstChange - lv.virtualFirstChange) *
      (next.addrContext - lv.addrContext) = 0 ∧
    (1 - lv.contextFirstChange - lv.segmentFirstChange - lv.virtualFirstChange) *
      (next.addrSegment - lv.addrSegment) = 0 ∧
    (1 - lv.contextFirstChange - lv.segmentFirstChange - lv.virtualFirstChange) *
      (next.addrVirtual - lv.addrVirtual) = 0 ∧
    lv.rangeCheck -
      (lv.contextFirstChange * (next.addrContext - lv.addrContext - 1) +
        lv.segmentFirstChange * (next.addrSegment - lv.addrSegment - 1) +
        lv.virtualFirstChange * (next.addrVirtual - lv.addrVirtual - 1) +
        (1 - lv.contextFirstChange - lv.segmentFirstChange - lv.virtualFirstChange) *
          (next.timestamp - lv.timestamp)) = 0 ∧
    lv.preinitializedSegmentsAux - (next.addrSegment - (sg.accountsLinkedList : ZMod goldilocks)) *
      (next.addrSegment - (sg.storageLinkedList : ZMod goldilocks)) = 0 ∧
    lv.preinitializedSegments - (next.addrSegment - (sg.code : ZMod goldilocks)) *
      (next.addrSegment - (sg.trieData : ZMod goldilocks)) * lv.preinitializedSegmentsAux = 0 ∧
    lv.initializeAux - lv.preinitializedSegments *
      (1 - (1 - lv.contextFirstChange - lv.segmentFirstChange - lv.virtualFirstChange)) *
        next.isRead = 0 := by
  unfold firstChangeFlagsAndRc
  by_cases h₁ : row.addrContext = next.addrContext
  · by_cases h₂ : row.addrSegment = next.addrSegment
    · by_cases h₃ : row.addrVirtual = next.addrVirtual <;> simp [fromBool, h₁, h₂, h₃]
    · simp [fromBool, h₁, h₂]
  · simp [fromBool, h₁]

end Flags

lemma firstChange_of_eq {lv lv' : Row} (h : FirstChange lv)
    (hc : lv'.contextFirstChange = lv.contextFirstChange)
    (hs : lv'.segmentFirstChange = lv.segmentFirstChange)
    (hv : lv'.virtualFirstChange = lv.virtualFirstChange) : FirstChange lv' := by
  rcases h with ⟨c, s, v⟩ | ⟨c, s, v⟩ | ⟨c, s, v⟩ | ⟨c, s, v⟩
  exacts [.context (hc.trans c) (hs.trans s) (hv.trans v),
    .segment (hc.trans c) (hs.trans s) (hv.trans v),
    .virtual (hc.trans c) (hs.trans s) (hv.trans v),
    .unchanged (hc.trans c) (hs.trans s) (hv.trans v)]

/-! ### What the generator guarantees of a row -/

/-- What the generator guarantees of a row, `stale` saying whether its context is stale: a
filter bit, an inactive row a read, flags of one case, the inverse of the timestamp, and the
stale and final-state flags the column-major loop sets from the row's own columns. -/
structure RowSpec (sg : SegmentIds) (stale : Prop) [Decidable stale] (r : Row) : Prop where
  filter_bit : r.filter = 0 ∨ r.filter = 1
  dummy_read : r.filter = 0 → r.isRead = 1
  firstChange : FirstChange r
  timestampInv : r.timestampInv = r.timestamp⁻¹
  isStale : r.isStale = if stale then 1 else 0
  maybeInMemAfter : r.maybeInMemAfter = if ¬ stale ∧ EndsAddress r then 1 else 0
  memAfterFilter : r.memAfterFilter = if ¬ stale ∧ EndsAddress r ∧ KeepsValue sg r then 1 else 0

section RowSpec

variable {sg : SegmentIds} {stale : Prop} [Decidable stale] {r : Row}

lemma endsAddress_iff (h : RowSpec sg stale r) : EndsAddress r ↔ r.filter = 1 ∧
    r.contextFirstChange + r.segmentFirstChange + r.virtualFirstChange = 1 := by
  unfold EndsAddress
  rcases h.firstChange with ⟨c, s, v⟩ | ⟨c, s, v⟩ | ⟨c, s, v⟩ | ⟨c, s, v⟩ <;> simp [c, s, v]

lemma RowSpec.rowConstraints (h : RowSpec sg stale r) : RowConstraints r := by
  have hbit {x : ZMod goldilocks} (hx : x = 0 ∨ x = 1) : x * (x - 1) = 0 := by
    rcases hx with rfl | rfl <;> simp
  have hflags : r.contextFirstChange * (1 - r.contextFirstChange) = 0 ∧
      r.segmentFirstChange * (1 - r.segmentFirstChange) = 0 ∧
      r.virtualFirstChange * (1 - r.virtualFirstChange) = 0 ∧
      (1 - r.contextFirstChange - r.segmentFirstChange - r.virtualFirstChange) *
        (1 - (1 - r.contextFirstChange - r.segmentFirstChange - r.virtualFirstChange)) = 0 := by
    rcases h.firstChange with ⟨c, s, v⟩ | ⟨c, s, v⟩ | ⟨c, s, v⟩ | ⟨c, s, v⟩ <;> simp [c, s, v]
  refine ⟨hbit h.filter_bit, ?_, hflags.1, hflags.2.1, hflags.2.2.1, hflags.2.2.2, ?_,
    fun j => ?_, ?_⟩
  · rcases h.filter_bit with hf | hf
    · simp [hf, h.dummy_read hf]
    · simp [hf]
  · exact hbit (by rw [h.memAfterFilter]; split_ifs <;> simp)
  · rw [h.memAfterFilter, h.maybeInMemAfter]
    by_cases hk : KeepsValue sg r
    · split_ifs <;> simp_all
    · simp only [KeepsValue, not_or, not_exists, not_not] at hk
      simp [hk.1 j]
  · rw [h.timestampInv]
    by_cases ht : r.timestamp = 0 <;> simp [ht]


lemma RowSpec.maybeInMemAfter_valid (h : RowSpec sg stale r) :
    r.maybeInMemAfter + r.filter * (1 - (1 - r.contextFirstChange - r.segmentFirstChange -
      r.virtualFirstChange)) * (r.isStale - 1) = 0 := by
  rw [h.maybeInMemAfter, h.isStale]
  simp only [endsAddress_iff h]
  by_cases hs : stale
  · simp [hs]
  · rcases h.filter_bit with hf | hf <;>
    rcases h.firstChange with ⟨c, s, v⟩ | ⟨c, s, v⟩ | ⟨c, s, v⟩ | ⟨c, s, v⟩ <;>
    simp [hs, hf, c, s, v]

end RowSpec

/-! ### The rows of a log -/

section Rows

variable {sg : SegmentIds} {ops : List MemoryOp} {staleContexts : List ℕ}

lemma limb_zero (j : ℕ) : limb 0 j = 0 := by simp [limb]

lemma firstChange_traceRows {i : ℕ} (hi : i < (rowOps ops).length) :
    FirstChange (rowAt (traceRows sg ops staleContexts) i) := by
  obtain ⟨b, next, he⟩ := rowAt_flagRows_intoRow sg hi
  rw [rowAt_traceRows sg staleContexts hi, rowAt_staleRows sg staleContexts hi, he]
  exact firstChange_of_eq (firstChange_firstChangeFlagsAndRc sg b _ next) rfl rfl rfl

lemma isStale_traceRows {i : ℕ} (hi : i < (rowOps ops).length) :
    (rowAt (traceRows sg ops staleContexts) i).isStale =
      if StaleAt (staleRows sg ops staleContexts) i then 1 else 0 := by
  obtain ⟨b, next, he⟩ := rowAt_flagRows_intoRow sg hi
  rw [rowAt_traceRows sg staleContexts hi]
  show (written _ _ _).isStale i = _
  rw [isStale_written, rowAt_staleRows sg staleContexts hi, he]
  simp only [hi, true_and]
  rfl

/-- Every row of the trace of a log whose inactive operations are reads is as the generator
guarantees, with the stale test of the column-major loop. -/
lemma rowSpec_traceRows (h : LogBounds ops) (hread : ∀ o ∈ ops, o.filter = false → o.kind = .read)
    {i : ℕ} (hi : i < (rowOps ops).length) :
    RowSpec sg (StaleAt (staleRows sg ops staleContexts) i)
      (rowAt (traceRows sg ops staleContexts) i) := by
  obtain ⟨b, next, he⟩ := rowAt_flagRows_intoRow sg hi
  have hx : (rowOps ops)[i].filter = false → (rowOps ops)[i].kind = .read := fun hf =>
    (mem_rowOps_cases h (List.getElem_mem hi)).elim (fun ho => hread _ ho hf) fun ho => ho.2.1
  have hr := rowAt_traceRows sg staleContexts hi
  have hs := rowAt_staleRows sg staleContexts hi
  rw [he] at hs
  refine ⟨?_, ?_, firstChange_traceRows hi, ?_, isStale_traceRows hi, ?_, ?_⟩ <;> rw [hr, hs]
  · show fromBool _ = 0 ∨ fromBool _ = 1
    cases (rowOps ops)[i].filter <;> simp [fromBool]
  · show fromBool _ = 0 → fromBool _ = 1
    cases hfx : (rowOps ops)[i].filter
    · simp [fromBool, hx hfx]
    · simp [fromBool]
  · rfl
  · show (written _ _ _).maybeInMemAfter i = _
    rw [maybeInMemAfter_written, hs]
    simp only [hi, true_and]
    rfl
  · show (written _ _ _).memAfterFilter i = _
    rw [memAfterFilter_written, hs]
    simp only [hi, true_and]
    rfl

lemma staleContexts_staleRows {j : ℕ} (hj : j < (rowOps ops).length) :
    (rowAt (staleRows sg ops staleContexts) j).staleContexts =
      if j ∈ staleContexts then (j : ZMod goldilocks) + 1 else 0 := by
  obtain ⟨b, next, he⟩ := rowAt_flagRows_intoRow sg hj
  rw [rowAt_staleRows sg staleContexts hj, he]
  rfl

lemma addrContext_staleRows {i : ℕ} (hi : i < (rowOps ops).length) :
    (rowAt (staleRows sg ops staleContexts) i).addrContext =
      ((rowOps ops)[i].address.context : ZMod goldilocks) := by
  obtain ⟨b, next, he⟩ := rowAt_flagRows_intoRow sg hi
  rw [rowAt_staleRows sg staleContexts hi, he]
  rfl

lemma staleAt_staleRows_iff (h : LogBounds ops) {i : ℕ} (hi : i < (rowOps ops).length) :
    StaleAt (staleRows sg ops staleContexts) i ↔
      (rowOps ops)[i].address.context ∈ staleContexts := by
  have hc := (mem_rowOps h (List.getElem_mem hi)).1
  have := walkedMaxRc_lt h
  have := walkedMaxRc_lt_length h
  unfold StaleAt
  rw [addrContext_staleRows hi, val_natCast_of_lt (by omega),
    staleContexts_staleRows (by omega)]
  split_ifs with hS
  · simp [hS]
  · simpa [hS] using natCast_add_one_ne_zero (by omega)

lemma values_transition {x y : MemoryOp} (hx : Fits x) (hy : Fits y) (hf : Follows sg x y) :
    let lv := firstChangeFlagsAndRc sg false x.intoRow y.intoRow
    (∀ j, y.intoRow.isRead *
      (1 - lv.contextFirstChange - lv.segmentFirstChange - lv.virtualFirstChange) *
        (y.intoRow.valueLimbs j - lv.valueLimbs j) = 0) ∧
    ∀ j, lv.initializeAux * y.intoRow.valueLimbs j = 0 := by
  intro lv
  obtain ⟨hc, hs, hv⟩ := flags_intoRow sg hx hy false
  have hia : lv.initializeAux = lv.preinitializedSegments *
      (lv.contextFirstChange + lv.segmentFirstChange + lv.virtualFirstChange) *
        y.intoRow.isRead := rfl
  have hflags : lv.contextFirstChange + lv.segmentFirstChange + lv.virtualFirstChange =
      if x.address = y.address then 0 else 1 := by
    rw [hc, hs, hv]
    by_cases h₁ : x.address.context = y.address.context <;>
    by_cases h₂ : x.address.segment = y.address.segment <;>
    by_cases h₃ : x.address.virt = y.address.virt <;>
    simp [fromBool, h₁, h₂, h₃, MemoryAddress.ext_iff]
  cases hk : y.kind with
  | write =>
    have hread : y.intoRow.isRead = 0 := by simp [MemoryOp.intoRow, hk, fromBool]
    exact ⟨fun j => by simp [hread], fun j => by simp [hia, hread]⟩
  | read =>
    have hread : y.intoRow.isRead = 1 := by simp [MemoryOp.intoRow, hk, fromBool]
    have hfy := hf hk
    have hsum : 1 - lv.contextFirstChange - lv.segmentFirstChange - lv.virtualFirstChange =
        1 - (lv.contextFirstChange + lv.segmentFirstChange + lv.virtualFirstChange) := by ring
    by_cases ha : x.address = y.address
    · rw [if_pos ha] at hfy hflags
      refine ⟨fun j => ?_, fun j => by rw [hia, hflags]; simp⟩
      show _ * _ * ((limb y.value j : ZMod goldilocks) - limb x.value j) = 0
      rw [hfy]; simp
    · rw [if_neg ha] at hfy hflags
      refine ⟨fun j => by rw [hsum, hflags]; simp, fun j => ?_⟩
      rw [hia, hflags, hread, mul_one, mul_one]
      by_cases hseg : y.address.segment ∈ sg.preinitializedSegmentsIndices
      · simp only [SegmentIds.preinitializedSegmentsIndices, List.mem_cons,
          List.not_mem_nil, or_false] at hseg
        show (((y.address.segment : ZMod goldilocks) - sg.code) *
          (y.address.segment - sg.trieData) * ((y.address.segment - sg.accountsLinkedList) *
            (y.address.segment - sg.storageLinkedList))) * _ = 0
        rcases hseg with h | h | h | h <;> simp [h]
      · show _ * (limb y.value j : ZMod goldilocks) = 0
        rw [hfy hseg, limb_zero]; simp

/-- Every transition of the trace of a log meets the transition constraints, when every
inactive operation is a read and every read sees the row before it or a fresh cell. -/
lemma transitionConstraints_traceRows (h : LogBounds ops)
    (hread : ∀ o ∈ ops, o.filter = false → o.kind = .read)
    (hr : (rowOps ops).Chain' (Follows sg)) {i : ℕ} (hi : i + 1 < (rowOps ops).length) :
    TransitionConstraints sg (rowAt (traceRows sg ops staleContexts) i)
      (rowAt (traceRows sg ops staleContexts) (i + 1)) := by
  have hspec : RowSpec sg (StaleAt (staleRows sg ops staleContexts) i)
      (rowAt (traceRows sg ops staleContexts) i) := rowSpec_traceRows h hread (by omega)
  have hm := hspec.maybeInMemAfter_valid
  obtain ⟨b, z, hz⟩ := rowAt_flagRows_intoRow sg hi
  obtain ⟨h1, h2, h3, h4, h5, h6, h7, h8, h9, h10⟩ :=
    flags_transition sg (rowOps ops)[i].intoRow (rowOps ops)[i + 1].intoRow
  obtain ⟨h11, h12⟩ := values_transition (fits_rowOps h (List.getElem_mem (by omega : i < _)))
    (fits_rowOps h (List.getElem_mem hi)) (rel_getElem_of_chain' hr hi)
  rw [rowAt_traceRows sg staleContexts (by omega), rowAt_staleRows sg staleContexts (by omega),
    rowAt_flagRows_of_lt hi] at hm ⊢
  rw [rowAt_traceRows sg staleContexts hi, rowAt_staleRows sg staleContexts hi, hz]
  dsimp only at hm
  constructor <;> dsimp only
  exacts [h1, h2, h3, h4, h5, h6, h7, h8, h9, h10, h11, h12, hm, by push_cast; ring]

end Rows

/-! ### Completeness -/

/-- **Completeness of trace generation.** For a log within the bounds (non-empty, distinct
keys, contexts, segments and stale contexts below `next_power_of_two(L)`, virtual addresses and
timestamps below `2³²`), whose inactive operations are reads and whose reads, in key order,
carry the value before them at their address or a fresh value, `generate_trace` returns, and
every constraint of `eval_packed_generic` vanishes on its trace. -/
theorem generateTrace_constraintsHold (sg : SegmentIds) (memoryOps : List MemoryOp)
    (memBeforeValues : List (MemoryAddress × BitVec 256)) (staleContexts : List ℕ)
    (h : LogBounds (traceOps memoryOps memBeforeValues))
    (hread : ∀ o ∈ memoryOps, o.filter = false → o.kind = .read)
    (hreads : ReadsSeeWrites sg (sortByKey (traceOps memoryOps memBeforeValues)))
    (hs : StaleBounds (traceOps memoryOps memBeforeValues) staleContexts) :
    ∃ rows memAfterValues unpaddedLength,
      generateTrace sg memoryOps memBeforeValues staleContexts =
        .ok (rows, memAfterValues, unpaddedLength) ∧
      ConstraintsHold sg rows.length (rowAt rows) := by
  have hread' : ∀ o ∈ traceOps memoryOps memBeforeValues, o.filter = false → o.kind = .read := by
    intro o ho hf
    rcases List.mem_append.mp ho with ho | ho
    · exact hread o ho hf
    · obtain ⟨a, -, rfl⟩ := List.mem_map.mp ho
      simp [memBeforeOp] at hf
  refine ⟨_, _, _, generateTrace_eq h hs, constraintsHold_iff.mpr ⟨fun i hi => ?_, fun i hi => ?_,
    fun hN => ?_⟩⟩
  · exact (rowSpec_traceRows h hread' (by simpa using hi)).rowConstraints
  · exact transitionConstraints_traceRows h hread' (chain_rowOps_follows h hreads)
      (by simpa using hi)
  · rw [rowAt_traceRows sg staleContexts (by simpa using hN)]
    simp

lemma readsSeeWrites_mixed :
    ReadsSeeWrites ⟨0, 1, 2, 3⟩ (sortByKey (traceOps mixedOps mixedBefore)) := by
  rw [traceOps, sortByKey_mixed]
  refine ⟨by decide, ?_⟩
  simp only [List.chain'_cons, List.chain'_singleton, and_true]
  decide

lemma staleBounds_mixed : StaleBounds (traceOps mixedOps mixedBefore) [1] :=
  ⟨List.nodup_singleton 1, fun c hc => by
    have := le_nextPowerOfTwo_walked_mixed
    rw [List.mem_singleton.mp hc]
    exact lt_of_lt_of_le (by norm_num) this⟩

/-- The mixed log, with context `1` stale: the reads see what was written, the first one a
preinitialized cell. -/
theorem generateTrace_constraintsHold_mixed :
    LogBounds (traceOps mixedOps mixedBefore) ∧
    (∀ o ∈ mixedOps, o.filter = false → o.kind = .read) ∧
    ReadsSeeWrites ⟨0, 1, 2, 3⟩ (sortByKey (traceOps mixedOps mixedBefore)) ∧
    StaleBounds (traceOps mixedOps mixedBefore) [1] ∧
    ∃ rows memAfterValues unpaddedLength,
      generateTrace ⟨0, 1, 2, 3⟩ mixedOps mixedBefore [1] =
        .ok (rows, memAfterValues, unpaddedLength) ∧
      ConstraintsHold ⟨0, 1, 2, 3⟩ rows.length (rowAt rows) :=
  ⟨logBounds_mixed, by decide, readsSeeWrites_mixed, staleBounds_mixed,
    generateTrace_constraintsHold ⟨0, 1, 2, 3⟩ _ _ _ logBounds_mixed (by decide)
      readsSeeWrites_mixed staleBounds_mixed⟩

end ZkEvm.Memory.Completeness
