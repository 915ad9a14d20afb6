import ZkEvm.Memory.Generation

/-!
The rows `generate_trace_row_major` makes, and the bounds gap filling and padding guarantee:
every range check is below the number of rows, so the assertion of
`generate_first_change_flags_and_rc` never fires and the column-major pass never indexes past
the end.

Under the bounds the specification puts on the log (`LogBounds`), the sorted, filled and padded
list is `rowOps`: the filled log in key order, then copies of its padding operation. Consecutive
operations of it are `InRange` of `max_rc`, and every field of every operation is small enough
for the field to hold it.
-/

namespace ZkEvm.Memory.Trace

open ZkEvm.Goldilocks ZkEvm.Memory.Columns ZkEvm.Memory.Ops MemoryOp ZkEvm.Memory.FillGaps
open ZkEvm.Memory.Generation

/-! ### The row of a pair of operations -/

/-- The fields of an operation are below `2⁶³`, so that the field holds them faithfully. -/
def Fits (op : MemoryOp) : Prop :=
  op.address.context < 2 ^ 63 ∧ op.address.segment < 2 ^ 63 ∧ op.address.virt < 2 ^ 63 ∧
    op.timestamp < 2 ^ 63

@[simp] lemma fromBool_eq_one (b : Prop) [Decidable b] : fromBool (decide b) = 1 ↔ b := by
  by_cases h : b <;> simp [fromBool, h]

section Pair

variable (sg : SegmentIds) {x y : MemoryOp}

lemma flags_intoRow (hx : Fits x) (hy : Fits y) (b : Bool) :
    (firstChangeFlagsAndRc sg b x.intoRow y.intoRow).contextFirstChange =
        fromBool (x.address.context ≠ y.address.context) ∧
      (firstChangeFlagsAndRc sg b x.intoRow y.intoRow).segmentFirstChange =
        fromBool (x.address.context = y.address.context ∧ x.address.segment ≠ y.address.segment) ∧
      (firstChangeFlagsAndRc sg b x.intoRow y.intoRow).virtualFirstChange =
        fromBool (x.address.context = y.address.context ∧
          x.address.segment = y.address.segment ∧ x.address.virt ≠ y.address.virt) := by
  obtain ⟨hx1, hx2, hx3, -⟩ := hx
  obtain ⟨hy1, hy2, hy3, -⟩ := hy
  simp only [firstChangeFlagsAndRc, MemoryOp.intoRow, natCast_bne hx1 hy1, natCast_bne hx2 hy2,
    natCast_bne hx3 hy3]
  by_cases h₁ : x.address.context = y.address.context <;>
    by_cases h₂ : x.address.segment = y.address.segment <;> simp [h₁, h₂]

lemma rangeCheck_val_le {m : ℕ} (hx : Fits x) (hy : Fits y) (h : InRange m x y) :
    (firstChangeFlagsAndRc sg false x.intoRow y.intoRow).rangeCheck.val ≤ m := by
  obtain ⟨hx1, hx2, hx3, hx4⟩ := hx
  obtain ⟨hy1, hy2, hy3, hy4⟩ := hy
  simp only [firstChangeFlagsAndRc, MemoryOp.intoRow, natCast_bne hx1 hy1, natCast_bne hx2 hy2,
    natCast_bne hx3 hy3]
  unfold InRange at h
  split_ifs at h with h₁ h₂ h₃
  · simp [h₁]; rw [val_sub_sub_one_of_lt h.1 hy1]; omega
  · simp [h₁, h₂]; rw [val_sub_sub_one_of_lt h.1 hy2]; omega
  · simp [h₁, h₂, h₃]; rw [val_sub_sub_one_of_lt h.1 hy3]; omega
  · simp [h₁, h₂, h₃]; rw [val_sub_of_le h.1 hy4]; omega

end Pair

/-! ### The flags pass -/

/-- The rows the flags pass computes from `traceRows`, before its assertion. -/
def flagRows (sg : SegmentIds) (traceRows : List Row) : List Row :=
  (List.range traceRows.length).map fun idx =>
    firstChangeFlagsAndRc sg (idx == traceRows.length - 1) (rowAt traceRows idx)
      (rowAt traceRows (if idx == traceRows.length - 1 then 0 else idx + 1))

section Flags

variable {sg : SegmentIds}

@[simp] lemma length_flagRows (traceRows : List Row) :
    (flagRows sg traceRows).length = traceRows.length := by
  simp [flagRows]

lemma rowAt_flagRows {traceRows : List Row} {i : ℕ} (hi : i < traceRows.length) :
    rowAt (flagRows sg traceRows) i =
      firstChangeFlagsAndRc sg (i == traceRows.length - 1) (rowAt traceRows i)
        (rowAt traceRows (if i == traceRows.length - 1 then 0 else i + 1)) := by
  simp [rowAt, flagRows, hi]

lemma generateFirstChangeFlagsAndRc_eq {traceRows : List Row}
    (h : ∀ i < traceRows.length, (rowAt (flagRows sg traceRows) i).rangeCheck.val <
      traceRows.length) :
    generateFirstChangeFlagsAndRc sg traceRows = .ok (flagRows sg traceRows) := by
  unfold generateFirstChangeFlagsAndRc
  dsimp only
  rw [List.find?_eq_none.mpr fun r hr => ?_]
  · rfl
  obtain ⟨i, hi, rfl⟩ := List.mem_map.mp hr
  have := h i (List.mem_range.mp hi)
  rw [rowAt_flagRows (List.mem_range.mp hi)] at this
  simpa using this

lemma rowAt_map_intoRow {ops : List MemoryOp} {i : ℕ} (hi : i < ops.length) :
    rowAt (ops.map MemoryOp.intoRow) i = ops[i].intoRow := by
  simp [rowAt, hi]

lemma rowAt_flagRows_addrVirtual {traceRows : List Row} {i : ℕ} (hi : i < traceRows.length) :
    (rowAt (flagRows sg traceRows) i).addrVirtual = (rowAt traceRows i).addrVirtual := by
  rw [rowAt_flagRows hi]; rfl

end Flags

lemma rel_getElem_of_chain' {R : MemoryOp → MemoryOp → Prop} {l : List MemoryOp} (h : l.Chain' R)
    {i : ℕ} (hi : i + 1 < l.length) : R l[i] l[i + 1] := by
  simpa using List.chain'_iff_get.mp h i (by omega)

section OpRows

variable {sg : SegmentIds} {ops : List MemoryOp}

lemma rowAt_flagRows_of_lt {i : ℕ} (hi : i + 1 < ops.length) :
    rowAt (flagRows sg (ops.map MemoryOp.intoRow)) i =
      firstChangeFlagsAndRc sg false ops[i].intoRow ops[i + 1].intoRow := by
  have hne : (i == ops.length - 1) = false := by simp; omega
  rw [rowAt_flagRows (by simpa using (by omega : i < ops.length)), List.length_map, hne,
    if_neg Bool.false_ne_true, rowAt_map_intoRow (by omega), rowAt_map_intoRow hi]

lemma rowAt_flagRows_last (hi : 0 < ops.length) :
    rowAt (flagRows sg (ops.map MemoryOp.intoRow)) (ops.length - 1) =
      firstChangeFlagsAndRc sg true ops[ops.length - 1].intoRow ops[0].intoRow := by
  rw [rowAt_flagRows (by simpa using (by omega : ops.length - 1 < ops.length)), List.length_map,
    beq_self_eq_true, if_pos rfl, rowAt_map_intoRow (by omega), rowAt_map_intoRow hi]

lemma rowAt_flagRows_intoRow (sg : SegmentIds) {i : ℕ} (hi : i < ops.length) : ∃ b next,
    rowAt (flagRows sg (ops.map MemoryOp.intoRow)) i =
      firstChangeFlagsAndRc sg b ops[i].intoRow next :=
  ⟨_, _, by rw [rowAt_flagRows (by simpa using hi), rowAt_map_intoRow hi]⟩

end OpRows

/-! ### The rows of a log within the bounds -/

section Bounds

variable {sg : SegmentIds} {memoryOps : List MemoryOp}

lemma fits_rowOps (h : LogBounds memoryOps) {o : MemoryOp} (ho : o ∈ rowOps memoryOps) :
    Fits o := by
  have := mem_rowOps h ho
  have := walkedMaxRc_lt h
  unfold Fits
  omega

lemma rangeCheck_lt (sg : SegmentIds) (h : LogBounds memoryOps) {i : ℕ}
    (hi : i < (rowOps memoryOps).length) :
    (rowAt (flagRows sg ((rowOps memoryOps).map MemoryOp.intoRow)) i).rangeCheck.val <
      (rowOps memoryOps).length := by
  by_cases hl : i + 1 < (rowOps memoryOps).length
  · rw [rowAt_flagRows_of_lt hl]
    have := rangeCheck_val_le sg (fits_rowOps h (List.getElem_mem _))
      (fits_rowOps h (List.getElem_mem _)) (rel_getElem_of_chain' (chain_rowOps_inRange h) hl)
    have := walkedMaxRc_lt_length h
    omega
  · obtain rfl : i = (rowOps memoryOps).length - 1 := by omega
    rw [rowAt_flagRows_last (by omega)]
    simp [firstChangeFlagsAndRc]
    omega

lemma addrVirtual_lt (h : LogBounds memoryOps) {i : ℕ} (hi : i + 1 < (rowOps memoryOps).length)
    (hf : (rowAt (flagRows sg ((rowOps memoryOps).map MemoryOp.intoRow)) i).contextFirstChange = 1 ∨
      (rowAt (flagRows sg ((rowOps memoryOps).map MemoryOp.intoRow)) i).segmentFirstChange = 1) :
    (rowAt (flagRows sg ((rowOps memoryOps).map MemoryOp.intoRow)) (i + 1)).addrVirtual.val <
      (rowOps memoryOps).length := by
  have hx := fits_rowOps h (List.getElem_mem (show i < (rowOps memoryOps).length by omega))
  have hy := fits_rowOps h (List.getElem_mem hi)
  obtain ⟨hc, hs, -⟩ := flags_intoRow sg hx hy false
  rw [rowAt_flagRows_of_lt hi, hc, hs, fromBool_eq_one, fromBool_eq_one] at hf
  have hr := rel_getElem_of_chain' (chain_rowOps_inRange h) hi
  have := walkedMaxRc_lt_length h
  rw [rowAt_flagRows_addrVirtual (by simpa using hi), rowAt_map_intoRow hi]
  simp only [MemoryOp.intoRow]
  rw [val_natCast_of_lt hy.2.2.1]
  unfold InRange at hr
  split_ifs at hr <;> simp_all <;> omega

lemma addrContext_lt (h : LogBounds memoryOps) {i : ℕ} (hi : i < (rowOps memoryOps).length) :
    (rowAt (flagRows sg ((rowOps memoryOps).map MemoryOp.intoRow)) i).addrContext.val <
      (rowOps memoryOps).length := by
  obtain ⟨b, next, he⟩ := rowAt_flagRows_intoRow sg hi
  have := mem_rowOps h (List.getElem_mem hi)
  have := walkedMaxRc_lt h
  have := walkedMaxRc_lt_length h
  rw [he]
  show ((rowOps memoryOps)[i].address.context : ZMod goldilocks).val < _
  rw [val_natCast_of_lt (by omega)]
  omega

lemma addrVirtual_zero (h : LogBounds memoryOps) :
    (rowAt (flagRows sg ((rowOps memoryOps).map MemoryOp.intoRow)) 0).addrVirtual = 0 := by
  have hpos : 0 < (rowOps memoryOps).length := by
    rw [length_rowOps h]; exact nextPowerOfTwo_pos _
  rw [rowAt_flagRows_addrVirtual (by simpa using hpos), rowAt_map_intoRow hpos]
  have := head?_rowOps h (rowOps memoryOps)[0]
    (by rw [List.head?_eq_getElem?, List.getElem?_eq_getElem hpos]; rfl)
  simp [MemoryOp.intoRow, this]

/-- Under the bounds, `generate_trace_row_major` returns the flags pass over the rows of
`rowOps`. -/
lemma generateTraceRowMajor_eq (sg : SegmentIds) (h : LogBounds memoryOps) :
    generateTraceRowMajor sg memoryOps = .ok (flagRows sg ((rowOps memoryOps).map MemoryOp.intoRow),
      (filled (walked memoryOps)).length) := by
  simp only [generateTraceRowMajor, sortedPaddedOps_rowOps h, bind, Except.bind, pure, Except.pure]
  rw [generateFirstChangeFlagsAndRc_eq fun i hi => by
    simpa using rangeCheck_lt sg h (by simpa using hi)]

end Bounds

/-! ### Gap filling and padding -/

/-- **Gap filling and padding bound every range check.** For a log within the bounds,
`fill_gaps` computes within `usize`, and `generate_trace_row_major` returns one row for each
sorted, filled and padded operation: `N = next_power_of_two(unpadded_length + 1)` of them, the
unpadded ones in strictly increasing key order, then at least one copy of a padding operation
above them all. Row `0` is at virtual address `0`, every range check is below `N` (so the
assertion never fires), and after a change of context or segment the virtual address is
below `N`. -/
theorem generateTraceRowMajor_rangeCheck_lt (sg : SegmentIds) (memoryOps : List MemoryOp)
    (h : LogBounds memoryOps) :
    FillGapsInBounds (sortByKey memoryOps) ∧
    ∃ ops unpaddedLength rows,
      sortedPaddedOps memoryOps = .ok (ops, unpaddedLength) ∧
      generateTraceRowMajor sg memoryOps = .ok (rows, unpaddedLength) ∧
      rows.length = ops.length ∧
      ops.length = (unpaddedLength + 1).nextPowerOfTwo ∧ ops.length.isPowerOfTwo ∧
      unpaddedLength < ops.length ∧
      (∃ pad, ops = ops.take unpaddedLength ++ List.replicate (ops.length - unpaddedLength) pad ∧
        (ops.take unpaddedLength ++ [pad]).Pairwise KeyLt) ∧
      (rowAt rows 0).addrVirtual = 0 ∧
      (∀ i < rows.length, (rowAt rows i).rangeCheck.val < rows.length) ∧
      (∀ i, i + 1 < rows.length → ((rowAt rows i).contextFirstChange = 1 ∨
        (rowAt rows i).segmentFirstChange = 1) →
          (rowAt rows (i + 1)).addrVirtual.val < rows.length) := by
  obtain ⟨last, k, -, heq, hk, hsorted⟩ := rowOps_sorted h
  have hN := length_rowOps h
  have hu := le_nextPowerOfTwo ((filled (walked memoryOps)).length + 1)
  have hpos : 0 < (rowOps memoryOps).length := by omega
  have hlen : (rowOps memoryOps).length = (filled (walked memoryOps)).length + k := by
    rw [heq, List.length_append, List.length_replicate]
  refine ⟨fillGapsInBounds h, rowOps memoryOps, _, _, sortedPaddedOps_rowOps h,
    generateTraceRowMajor_eq sg h, by simp, hN, hN ▸ Nat.isPowerOfTwo_nextPowerOfTwo _, by omega,
    ⟨paddingOp last, ?_, ?_⟩, ?_, fun i hi => ?_, fun i hi hf => ?_⟩
  · rw [hlen, Nat.add_sub_cancel_left]
    conv_lhs => rw [heq]
    rw [heq, List.take_left' rfl]
  · rwa [heq, List.take_left' rfl]
  · exact addrVirtual_zero h
  · simpa using rangeCheck_lt sg h (by simpa using hi)
  · simpa using addrVirtual_lt h (by simpa using hi) hf


/-- A log that takes each branch of the generator: a read, in preinitialized segment `1`, of a
cell nothing wrote; a read of the `mem_before` value `mixedBefore`; and a write in context `1`
read back nine timestamps later. Its first virtual address is not `0`, and nine timestamps are
more than the `max_rc` of its six walked operations, so `fill_gaps` has reads to insert. -/
def mixedOps : List MemoryOp :=
  [⟨true, 1, ⟨1, 4, 2⟩, .write, 5⟩, ⟨true, 10, ⟨1, 4, 2⟩, .read, 5⟩,
    ⟨true, 2, ⟨0, 4, 1⟩, .read, 9⟩, ⟨true, 3, ⟨0, 1, 3⟩, .read, 7⟩]

/-- The `mem_before` value `mixedOps` reads: `9` at `(0, 4, 1)`. -/
def mixedBefore : List (MemoryAddress × BitVec 256) := [(⟨0, 4, 1⟩, 9)]

lemma sortByKey_mixed : sortByKey (mixedOps ++ mixedBefore.map memBeforeOp) =
    [⟨true, 3, ⟨0, 1, 3⟩, .read, 7⟩, ⟨true, 0, ⟨0, 4, 1⟩, .write, 9⟩,
      ⟨true, 2, ⟨0, 4, 1⟩, .read, 9⟩, ⟨true, 1, ⟨1, 4, 2⟩, .write, 5⟩,
      ⟨true, 10, ⟨1, 4, 2⟩, .read, 5⟩] :=
  sortByKey_eq_of_perm (by decide) (by decide)

lemma le_nextPowerOfTwo_walked_mixed :
    6 ≤ (walked (mixedOps ++ mixedBefore.map memBeforeOp)).length.nextPowerOfTwo := by
  rw [walked, sortByKey_mixed]
  exact le_nextPowerOfTwo _

lemma logBounds_mixed : LogBounds (mixedOps ++ mixedBefore.map memBeforeOp) := by
  have hsmall : ∀ o ∈ mixedOps ++ mixedBefore.map memBeforeOp,
      o.address.context ≤ 4 ∧ o.address.segment ≤ 4 := by decide
  have hw := le_nextPowerOfTwo_walked_mixed
  exact ⟨by simp [mixedOps], by decide, by decide, fun o ho => by have := hsmall o ho; omega,
    by decide⟩

theorem generateTraceRowMajor_rangeCheck_lt_mixed :
    LogBounds (mixedOps ++ mixedBefore.map memBeforeOp) ∧
    FillGapsInBounds (sortByKey (mixedOps ++ mixedBefore.map memBeforeOp)) ∧
    ∃ ops unpaddedLength rows,
      sortedPaddedOps (mixedOps ++ mixedBefore.map memBeforeOp) = .ok (ops, unpaddedLength) ∧
      generateTraceRowMajor ⟨0, 1, 2, 3⟩ (mixedOps ++ mixedBefore.map memBeforeOp) =
        .ok (rows, unpaddedLength) ∧
      rows.length = ops.length ∧
      ops.length = (unpaddedLength + 1).nextPowerOfTwo ∧ ops.length.isPowerOfTwo ∧
      unpaddedLength < ops.length ∧
      (∃ pad, ops = ops.take unpaddedLength ++ List.replicate (ops.length - unpaddedLength) pad ∧
        (ops.take unpaddedLength ++ [pad]).Pairwise KeyLt) ∧
      (rowAt rows 0).addrVirtual = 0 ∧
      (∀ i < rows.length, (rowAt rows i).rangeCheck.val < rows.length) ∧
      (∀ i, i + 1 < rows.length → ((rowAt rows i).contextFirstChange = 1 ∨
        (rowAt rows i).segmentFirstChange = 1) →
          (rowAt rows (i + 1)).addrVirtual.val < rows.length) :=
  ⟨logBounds_mixed, generateTraceRowMajor_rangeCheck_lt ⟨0, 1, 2, 3⟩ _ logBounds_mixed⟩

end ZkEvm.Memory.Trace
