import ZkEvm.Memory.Accounting
import ZkEvm.Memory.Balance
import ZkEvm.Memory.Filters

/-!
The memory table's cross-table lookups, and what each of them sees of the trace
`generate_trace` returns.

`ctl_data` under `ctl_filter` is the memory side of the CPU's memory lookup. `ctl_looking_mem`
under `ctl_filter_mem_before` and `ctl_filter_mem_after` is what the `mem_before` and `mem_after`
tables are matched against. `ctl_context_pruning_looking` sends `stale_contexts - 1` from each
row with `is_pruned` set. A lookup sees a row as many times as its filter says. On the generated
trace every filter is `0` or `1`, so a lookup sees the rows whose filter is `1`, once each. The
CPU lookup sees the active operations and the `mem_before` writes; the `mem_before` lookup sees
those writes; the `mem_after` lookup sees `mem_after_values`; and the pruning lookup sees each
stale context once.
-/

namespace ZkEvm.Memory.Ctl

open ZkEvm.Goldilocks ZkEvm.Memory.Columns ZkEvm.Memory.Ops MemoryOp ZkEvm.Memory.FillGaps
open ZkEvm.Memory.Generation ZkEvm.Memory.Trace ZkEvm.Memory.ColMajor
open ZkEvm.Memory.Completeness ZkEvm.Memory.Accounting ZkEvm.Memory.Balance
open ZkEvm.Memory.Filters

section Columns

variable {F : Type}

/-- `ctl_data`: `is_read`, the address, the limbs of the value and the timestamp. -/
def ctlData (r : MemoryColumnsView F) : List F :=
  [r.isRead, r.addrContext, r.addrSegment, r.addrVirtual] ++ List.ofFn r.valueLimbs ++
    [r.timestamp]

/-- `ctl_filter`: the `filter` column. -/
def ctlFilter (r : MemoryColumnsView F) : F := r.filter

/-- `ctl_looking_mem`: the address and the limbs of the value. -/
def ctlLookingMem (r : MemoryColumnsView F) : List F :=
  [r.addrContext, r.addrSegment, r.addrVirtual] ++ List.ofFn r.valueLimbs

/-- `ctl_filter_mem_after`: the `mem_after_filter` column. -/
def ctlFilterMemAfter (r : MemoryColumnsView F) : F := r.memAfterFilter

/-- The columns a cross-table lookup reads from a row, and the filter that says how often it sees
the row. -/
structure TableColumns (F : Type) where
  columns : MemoryColumnsView F → List F
  filter : MemoryColumnsView F → F

/-- `ctl_context_pruning_looking`: the context `stale_contexts - 1`, seen as often as
`is_pruned` says. -/
def ctlContextPruningLooking [Sub F] [One F] : TableColumns F :=
  ⟨fun r => [r.staleContexts - 1], fun r => r.isPruned⟩

/-- What a lookup sees of rows whose filters are bits: the columns of each row with filter `1`,
in row order. -/
def TableColumns.seen [DecidableEq F] [One F] (t : TableColumns F)
    (rows : List (MemoryColumnsView F)) : List (List F) :=
  (rows.filter fun r => t.filter r = 1).map t.columns

end Columns

/-- The memory side of the CPU's memory lookup. -/
def cpuLookup : TableColumns (ZMod goldilocks) := ⟨ctlData, ctlFilter⟩

/-- What the `mem_before` table is matched against. -/
def memBeforeLookup : TableColumns (ZMod goldilocks) := ⟨ctlLookingMem, ctlFilterMemBefore⟩

/-- What the `mem_after` table is matched against. -/
def memAfterLookup : TableColumns (ZMod goldilocks) := ⟨ctlLookingMem, ctlFilterMemAfter⟩

/-- The cross-table lookups of the memory table. -/
def memoryCtls : List (TableColumns (ZMod goldilocks)) :=
  [cpuLookup, memBeforeLookup, memAfterLookup, ctlContextPruningLooking]

/-! ### The columns of a row that shows an operation -/

lemma ctlData_eq {r : Row} {o : MemoryOp} (h : ShowsOp r o) : ctlData r = ctlData o.intoRow := by
  obtain ⟨-, ht, -, hr, hc, hs, hv, hl⟩ := h
  simp only [ctlData, ht, hr, hc, hs, hv, hl]

lemma ctlLookingMem_eq {r : Row} {o : MemoryOp} (h : ShowsOp r o) :
    ctlLookingMem r = ctlLookingMem o.intoRow := by
  obtain ⟨-, -, -, -, hc, hs, hv, hl⟩ := h
  simp only [ctlLookingMem, hc, hs, hv, hl]

lemma map_eq_of_forall₂ (f : Row → List (ZMod goldilocks))
    (hf : ∀ r o, ShowsOp r o → f r = f o.intoRow) :
    ∀ {rs : List Row} {os : List MemoryOp}, List.Forall₂ ShowsOp rs os →
      rs.map f = os.map fun o => f o.intoRow
  | _, _, .nil => rfl
  | _, _, .cons hr h => by rw [List.map_cons, List.map_cons, hf _ _ hr, map_eq_of_forall₂ f hf h]

lemma ctlFilterMemBefore_eq_one_iff {r : Row} {o : MemoryOp} (hr : ShowsOp r o) :
    ctlFilterMemBefore r = 1 ↔ r.timestamp = 0 := by
  have hinv : r.timestampInv = r.timestamp⁻¹ := by rw [hr.2.2.1, hr.2.1]; rfl
  rw [ctlFilterMemBefore, hinv]
  by_cases ht : r.timestamp = 0
  · simp [ht]
  · simp [ht, mul_inv_cancel₀ ht]

/-! ### The filters of the generated trace -/

section Rows

variable (sg : SegmentIds) {ops : List MemoryOp} (staleContexts : List ℕ)

lemma isPruned_traceRows {i : ℕ} (hi : i < (rowOps ops).length) :
    (rowAt (traceRows sg ops staleContexts) i).isPruned = if i ∈ staleContexts then 1 else 0 := by
  obtain ⟨b, next, he⟩ := rowAt_flagRows_intoRow sg hi
  rw [rowAt_traceRows sg staleContexts hi, rowAt_staleRows sg staleContexts hi, he]
  rfl

lemma memAfterFilter_traceRows_bit {i : ℕ} (hi : i < (rowOps ops).length) :
    (rowAt (traceRows sg ops staleContexts) i).memAfterFilter = 0 ∨
      (rowAt (traceRows sg ops staleContexts) i).memAfterFilter = 1 := by
  obtain ⟨b, next, he⟩ := rowAt_flagRows_intoRow sg hi
  rw [rowAt_traceRows sg staleContexts hi]
  show (written _ _ _).memAfterFilter i = 0 ∨ (written _ _ _).memAfterFilter i = 1
  rw [memAfterFilter_written, rowAt_staleRows sg staleContexts hi, he]
  split_ifs <;> first | exact .inr rfl | exact .inl rfl

lemma filters_traceRows_bits {i : ℕ} (hi : i < (rowOps ops).length) :
    ∀ t ∈ memoryCtls, t.filter (rowAt (traceRows sg ops staleContexts) i) = 0 ∨
      t.filter (rowAt (traceRows sg ops staleContexts) i) = 1 := by
  have hr := showsOp_traceRows sg staleContexts hi
  simp only [memoryCtls, List.mem_cons, List.mem_singleton, List.not_mem_nil, or_false]
  rintro t (rfl | rfl | rfl | rfl)
  · dsimp only [cpuLookup, ctlFilter]
    rw [hr.1]
    cases (rowOps ops)[i].filter <;> simp [MemoryOp.intoRow, fromBool]
  · dsimp only [memBeforeLookup]
    by_cases ht : (rowAt (traceRows sg ops staleContexts) i).timestamp = 0
    · exact .inr ((ctlFilterMemBefore_eq_one_iff hr).mpr ht)
    · left
      have hinv : (rowAt (traceRows sg ops staleContexts) i).timestampInv =
          (rowAt (traceRows sg ops staleContexts) i).timestamp⁻¹ := by
        rw [hr.2.2.1, hr.2.1]; rfl
      rw [ctlFilterMemBefore, hinv, mul_inv_cancel₀ ht, sub_self]
  · dsimp only [memAfterLookup, ctlFilterMemAfter]
    exact memAfterFilter_traceRows_bit sg staleContexts hi
  · dsimp only [ctlContextPruningLooking]
    rw [isPruned_traceRows sg staleContexts hi]
    split_ifs <;> simp

lemma map_rowAt_range (rows : List Row) : (List.range rows.length).map (rowAt rows) = rows :=
  List.ext_getElem (by simp) fun i _ h₂ => by
    rw [List.getElem_map, List.getElem_range]
    exact List.getD_eq_getElem _ _ h₂

lemma seen_ctlContextPruningLooking :
    ctlContextPruningLooking.seen (traceRows sg ops staleContexts) =
      ((List.range (rowOps ops).length).filter (· ∈ staleContexts)).map
        fun c : ℕ => [(c : ZMod goldilocks)] := by
  rw [TableColumns.seen, ← map_rowAt_range (traceRows sg ops staleContexts), length_traceRows,
    List.filter_map, List.map_map]
  have hfilter : ((List.range (rowOps ops).length).filter
      ((fun r : Row => decide (ctlContextPruningLooking.filter r = 1)) ∘
        rowAt (traceRows sg ops staleContexts))) =
      (List.range (rowOps ops).length).filter (· ∈ staleContexts) :=
    List.filter_congr fun i hi => by
      simp [ctlContextPruningLooking, isPruned_traceRows sg staleContexts (List.mem_range.mp hi)]
  rw [hfilter]
  refine List.map_congr_left fun i hi => ?_
  obtain ⟨hi, hS⟩ := List.mem_filter.mp hi
  have hS : i ∈ staleContexts := by simpa using hS
  simp [ctlContextPruningLooking, staleContexts_traceRows (List.mem_range.mp hi), hS]

end Rows

lemma filter_range_perm {N : ℕ} {S : List ℕ} (hnd : S.Nodup) (hlt : ∀ c ∈ S, c < N) :
    ((List.range N).filter (· ∈ S)).Perm S :=
  (List.perm_ext_iff_of_nodup ((List.nodup_range N).filter _) hnd).mpr fun c => by
    simpa using fun hc => hlt c hc

section Log

variable (sg : SegmentIds) {memoryOps : List MemoryOp}
  {memBeforeValues : List (MemoryAddress × BitVec 256)} (staleContexts : List ℕ)

lemma memBeforeOp_filter_timestamp : ∀ o ∈ memBeforeValues.map memBeforeOp,
    o.filter = true ∧ o.timestamp = 0 := by
  intro o ho
  obtain ⟨_, -, rfl⟩ := List.mem_map.mp ho
  exact ⟨rfl, rfl⟩

lemma seen_cpuLookup (h : LogBounds (traceOps memoryOps memBeforeValues)) :
    (cpuLookup.seen (traceRows sg (traceOps memoryOps memBeforeValues) staleContexts)).Perm
      ((memoryOps.filter (·.filter) ++ memBeforeValues.map memBeforeOp).map
        fun o => ctlData o.intoRow) := by
  have hf : List.Forall₂ ShowsOp
      ((traceRows sg (traceOps memoryOps memBeforeValues) staleContexts).filter
        fun r => cpuLookup.filter r = 1)
      ((rowOps (traceOps memoryOps memBeforeValues)).filter (·.filter)) :=
    forall₂_filter_traceRows sg staleContexts h fun _ _ hr _ => by
      simpa [cpuLookup, ctlFilter] using filter_eq_one_iff hr
  rw [TableColumns.seen, map_eq_of_forall₂ cpuLookup.columns (fun _ _ => ctlData_eq) hf]
  refine ((filter_rowOps_perm h fun o ho => by simp [ho.1]).trans ?_).map _
  have hactive : (memBeforeValues.map memBeforeOp).filter (·.filter) =
      memBeforeValues.map memBeforeOp :=
    List.filter_eq_self.mpr fun o ho => by simp [(memBeforeOp_filter_timestamp o ho).1]
  rw [traceOps, List.filter_append, hactive]

lemma seen_memBeforeLookup (h : LogBounds (traceOps memoryOps memBeforeValues))
    (hts : ∀ o ∈ memoryOps, 1 ≤ o.timestamp) :
    (memBeforeLookup.seen (traceRows sg (traceOps memoryOps memBeforeValues) staleContexts)).Perm
      ((memBeforeValues.map memBeforeOp).map fun o => ctlLookingMem o.intoRow) := by
  have hf : List.Forall₂ ShowsOp
      ((traceRows sg (traceOps memoryOps memBeforeValues) staleContexts).filter
        fun r => memBeforeLookup.filter r = 1)
      ((rowOps (traceOps memoryOps memBeforeValues)).filter fun o => o.timestamp = 0) :=
    forall₂_filter_traceRows sg staleContexts h fun _ _ hr ho => by
      simpa [memBeforeLookup, ctlFilterMemBefore_eq_one_iff hr] using timestamp_eq_zero_iff hr ho
  rw [TableColumns.seen,
    map_eq_of_forall₂ memBeforeLookup.columns (fun _ _ => ctlLookingMem_eq) hf]
  refine ((filter_rowOps_perm h fun o ho => by have := ho.2.2; simp; omega).trans ?_).map _
  have hbefore : (memBeforeValues.map memBeforeOp).filter (fun o => o.timestamp = 0) =
      memBeforeValues.map memBeforeOp :=
    List.filter_eq_self.mpr fun o ho => by simp [(memBeforeOp_filter_timestamp o ho).2]
  rw [traceOps, List.filter_append,
    List.filter_eq_nil_iff.mpr fun o ho => by have := hts o ho; simp; omega, List.nil_append,
    hbefore]

end Log

/-- **The memory table's lookups.** For a log within the bounds whose operations come after
timestamp `0`, and stale contexts within theirs, every filter of the memory table's cross-table
lookups is `0` or `1` on every row `generate_trace` returns. On those rows the CPU lookup sees the
`ctl_data` of the active operations and of the `mem_before` writes; the `mem_before` lookup sees
the address and value of each `mem_before` value; the `mem_after` lookup sees the entries of
`mem_after_values` after their leading `1`; and the pruning lookup sees each stale context once. -/
theorem generateTrace_ctls (sg : SegmentIds) (memoryOps : List MemoryOp)
    (memBeforeValues : List (MemoryAddress × BitVec 256)) (staleContexts : List ℕ)
    (h : LogBounds (traceOps memoryOps memBeforeValues))
    (hs : StaleBounds (traceOps memoryOps memBeforeValues) staleContexts)
    (hts : ∀ o ∈ memoryOps, 1 ≤ o.timestamp) :
    ∃ rows memAfterValues unpaddedLength,
      generateTrace sg memoryOps memBeforeValues staleContexts =
        .ok (rows, memAfterValues, unpaddedLength) ∧
      (∀ r ∈ rows, ∀ t ∈ memoryCtls, t.filter r = 0 ∨ t.filter r = 1) ∧
      (cpuLookup.seen rows).Perm
        ((memoryOps.filter (·.filter) ++ memBeforeValues.map memBeforeOp).map
          fun o => ctlData o.intoRow) ∧
      (memBeforeLookup.seen rows).Perm
        ((memBeforeValues.map memBeforeOp).map fun o => ctlLookingMem o.intoRow) ∧
      memAfterLookup.seen rows = memAfterValues.map List.tail ∧
      (ctlContextPruningLooking.seen rows).Perm
        (staleContexts.map fun c : ℕ => [(c : ZMod goldilocks)]) := by
  refine ⟨_, _, _, generateTrace_eq h hs, fun r hr t ht => ?_, seen_cpuLookup sg staleContexts h,
    seen_memBeforeLookup sg staleContexts h hts, ?_, ?_⟩
  · obtain ⟨i, hi, rfl⟩ := List.getElem_of_mem hr
    rw [← List.getD_eq_getElem _ MemoryColumnsView.default hi]
    exact filters_traceRows_bits sg staleContexts (by simpa using hi) t ht
  · simp [TableColumns.seen, memAfterLookup, ctlFilterMemAfter, ctlLookingMem,
      MemoryColumnsView.addrValueSlice, Function.comp_def]
  · rw [seen_ctlContextPruningLooking sg staleContexts]
    exact (filter_range_perm hs.nodup fun c hc =>
      lt_of_lt_of_le (hs.lt c hc) (nextPowerOfTwo_walked_le h)).map _

/-- The mixed log with context `1` stale. -/
theorem generateTrace_ctls_mixed :
    LogBounds (traceOps mixedOps mixedBefore) ∧
    StaleBounds (traceOps mixedOps mixedBefore) [1] ∧
    (∀ o ∈ mixedOps, 1 ≤ o.timestamp) ∧
    ∃ rows memAfterValues unpaddedLength,
      generateTrace ⟨0, 1, 2, 3⟩ mixedOps mixedBefore [1] =
        .ok (rows, memAfterValues, unpaddedLength) ∧
      (∀ r ∈ rows, ∀ t ∈ memoryCtls, t.filter r = 0 ∨ t.filter r = 1) ∧
      (cpuLookup.seen rows).Perm
        ((mixedOps.filter (·.filter) ++ mixedBefore.map memBeforeOp).map fun o =>
          ctlData o.intoRow) ∧
      (memBeforeLookup.seen rows).Perm
        ((mixedBefore.map memBeforeOp).map fun o => ctlLookingMem o.intoRow) ∧
      memAfterLookup.seen rows = memAfterValues.map List.tail ∧
      (ctlContextPruningLooking.seen rows).Perm ([1].map fun c : ℕ => [(c : ZMod goldilocks)]) :=
  ⟨logBounds_mixed, staleBounds_mixed, by decide,
    generateTrace_ctls ⟨0, 1, 2, 3⟩ _ _ [1] logBounds_mixed staleBounds_mixed (by decide)⟩

end ZkEvm.Memory.Ctl
