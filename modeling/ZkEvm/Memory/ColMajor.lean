import ZkEvm.Memory.Generation

/-!
`insert_stale_contexts` and `generate_trace_col_major`, as functions of the rows they start
from.

The loop of `generate_trace_col_major` writes five columns (`frequencies`,
`stale_context_frequencies`, `is_stale`, `maybe_in_mem_after`, `mem_after_filter`) and reads
only others, so a run of it is a run of `stepWritten` on those five columns (`Written`), each
read from the rows it started from. After `k` iterations each written cell is a count, or a
flag, over the first `k` rows (`written_eq`).
-/

namespace ZkEvm.Memory.ColMajor

open ZkEvm.Goldilocks ZkEvm.Memory.Columns ZkEvm.Memory.Ops ZkEvm.Memory.Generation

/-! ### `insert_stale_contexts` -/

/-- The rows with each stale context `c` recorded at row `c`. -/
def withStale (rows : List Row) (staleContexts : List ℕ) : List Row :=
  rows.mapIdx fun j row => { row with
    staleContexts := if j ∈ staleContexts then (j : ZMod goldilocks) + 1 else row.staleContexts
    isPruned := if j ∈ staleContexts then 1 else row.isPruned }

@[simp] lemma length_withStale (rows : List Row) (staleContexts : List ℕ) :
    (withStale rows staleContexts).length = rows.length := by
  simp [withStale]

lemma withStale_nil (rows : List Row) : withStale rows [] = rows :=
  List.ext_getElem (by simp) fun j _ _ => by simp [withStale]

lemma rowAt_withStale {rows : List Row} {staleContexts : List ℕ} {j : ℕ} (hj : j < rows.length) :
    rowAt (withStale rows staleContexts) j = { rowAt rows j with
      staleContexts := if j ∈ staleContexts then (j : ZMod goldilocks) + 1
        else (rowAt rows j).staleContexts
      isPruned := if j ∈ staleContexts then 1 else (rowAt rows j).isPruned } := by
  simp [rowAt, withStale, hj]

lemma modifyAt_withStale {rows : List Row} {S : List ℕ} {c : ℕ} (hc : c < rows.length) :
    modifyAt (fun row => { row with staleContexts := (c : ZMod goldilocks) + 1, isPruned := 1 }) c
      (withStale rows S) = .ok (withStale rows (S ++ [c])) := by
  rw [modifyAt, if_pos (by simpa using hc)]
  congr 1
  refine List.ext_getElem (by simp) fun j h₁ h₂ => ?_
  simp only [withStale, List.getElem_modify, List.getElem_mapIdx, List.mem_append,
    List.mem_singleton]
  by_cases hj : c = j
  · subst hj; simp
  · simp [hj, Ne.symm hj]

lemma insertStaleContexts_eq {rows : List Row} {staleContexts : List ℕ}
    (hnodup : staleContexts.Nodup) (hlt : ∀ c ∈ staleContexts, c < rows.length) :
    insertStaleContexts rows staleContexts = .ok (withStale rows staleContexts) := by
  rw [insertStaleContexts, if_pos hnodup]
  suffices ∀ T S : List ℕ, (∀ c ∈ T, c < rows.length) →
      T.foldlM (fun rows (ctx : ℕ) => modifyAt (fun row =>
        { row with staleContexts := (ctx : ZMod goldilocks) + 1, isPruned := 1 }) ctx rows)
        (withStale rows S) = .ok (withStale rows (S ++ T)) by
    simpa [withStale_nil] using this staleContexts [] hlt
  intro T
  induction T with
  | nil => intro S _; simp; rfl
  | cons c T ih =>
    intro S hT
    rw [List.foldlM_cons, modifyAt_withStale (hT c (by simp))]
    simpa using ih (S ++ [c]) fun c' hc' => hT c' (by simp [hc'])

/-! ### The columns the loop writes -/

/-- The five columns the loop of `generate_trace_col_major` writes, by row index. -/
structure Written where
  frequencies : ℕ → ZMod goldilocks
  staleContextFrequencies : ℕ → ZMod goldilocks
  isStale : ℕ → ZMod goldilocks
  maybeInMemAfter : ℕ → ZMod goldilocks
  memAfterFilter : ℕ → ZMod goldilocks

namespace Written

/-- The rows with each counter set to its index and the written columns set from `w`. -/
def apply (w : Written) (rows : List Row) : List Row :=
  rows.mapIdx fun j row => { row with
    counter := (j : ZMod goldilocks)
    frequencies := w.frequencies j
    staleContextFrequencies := w.staleContextFrequencies j
    isStale := w.isStale j
    maybeInMemAfter := w.maybeInMemAfter j
    memAfterFilter := w.memAfterFilter j }

/-- The written columns as `rows` hold them. -/
def ofRows (rows : List Row) : Written :=
  ⟨fun j => (rowAt rows j).frequencies, fun j => (rowAt rows j).staleContextFrequencies,
    fun j => (rowAt rows j).isStale, fun j => (rowAt rows j).maybeInMemAfter,
    fun j => (rowAt rows j).memAfterFilter⟩

variable (w : Written) (rows : List Row)

@[simp] lemma length_apply : (w.apply rows).length = rows.length := by simp [apply]

lemma rowAt_apply {j : ℕ} (hj : j < rows.length) : rowAt (w.apply rows) j =
    { rowAt rows j with
      counter := (j : ZMod goldilocks)
      frequencies := w.frequencies j
      staleContextFrequencies := w.staleContextFrequencies j
      isStale := w.isStale j
      maybeInMemAfter := w.maybeInMemAfter j
      memAfterFilter := w.memAfterFilter j } := by
  simp [rowAt, apply, hj]

@[simp] lemma addrVirtual_rowAt_apply (j : ℕ) :
    (rowAt (w.apply rows) j).addrVirtual = (rowAt rows j).addrVirtual := by
  by_cases hj : j < rows.length
  · rw [rowAt_apply w rows hj]
  · simp [rowAt, apply, List.getElem?_eq_none (not_lt.mp hj)]

@[simp] lemma staleContexts_rowAt_apply (j : ℕ) :
    (rowAt (w.apply rows) j).staleContexts = (rowAt rows j).staleContexts := by
  by_cases hj : j < rows.length
  · rw [rowAt_apply w rows hj]
  · simp [rowAt, apply, List.getElem?_eq_none (not_lt.mp hj)]

lemma ofRows_apply : (ofRows rows).apply rows =
    rows.mapIdx fun i row => { row with counter := (i : ZMod goldilocks) } :=
  List.ext_getElem (by simp) fun j h₁ _ => by
    simp only [apply, ofRows, List.getElem_mapIdx, rowAt, List.getD_eq_getElem?_getD,
      List.getElem?_eq_getElem (by simpa using h₁), Option.getD_some]

/-- `f` with one more at `idx`. -/
def bump (f : ℕ → ZMod goldilocks) (idx : ℕ) : ℕ → ZMod goldilocks :=
  Function.update f idx (f idx + 1)

lemma modify_bumpFrequencies (idx : ℕ) : (w.apply rows).modify bumpFrequencies idx =
    ({ w with frequencies := bump w.frequencies idx } : Written).apply rows :=
  List.ext_getElem (by simp) fun j _ _ => by
    by_cases h : idx = j
    · subst h; simp [apply, bumpFrequencies, bump]
    · simp [apply, bump, h, Ne.symm h]

lemma modify_bumpStaleContextFrequencies (idx : ℕ) :
    (w.apply rows).modify bumpStaleContextFrequencies idx =
      ({ w with staleContextFrequencies := bump w.staleContextFrequencies idx } : Written).apply
        rows :=
  List.ext_getElem (by simp) fun j _ _ => by
    by_cases h : idx = j
    · subst h; simp [apply, bumpStaleContextFrequencies, bump]
    · simp [apply, bump, h, Ne.symm h]

lemma modify_isStale (i : ℕ) : (w.apply rows).modify (fun r => { r with isStale := 1 }) i =
    ({ w with isStale := Function.update w.isStale i 1 } : Written).apply rows :=
  List.ext_getElem (by simp) fun j _ _ => by
    by_cases h : i = j
    · subst h; simp [apply]
    · simp [apply, h, Ne.symm h]

lemma modify_maybeInMemAfter (i : ℕ) (memAfter : Prop) [Decidable memAfter] :
    (w.apply rows).modify (fun r => { r with
        maybeInMemAfter := 1
        memAfterFilter := if memAfter then 1 else r.memAfterFilter }) i =
      ({ w with
        maybeInMemAfter := Function.update w.maybeInMemAfter i 1
        memAfterFilter := if memAfter then Function.update w.memAfterFilter i 1
          else w.memAfterFilter } : Written).apply rows :=
  List.ext_getElem (by simp) fun j _ _ => by
    by_cases h : i = j
    · subst h; split_ifs <;> simp [apply]
    · split_ifs <;> simp [apply, h, Ne.symm h]

end Written

/-! ### One iteration -/

section Conditions

variable (rows : List Row) (i : ℕ)

/-- A row changes context or segment, so it looks up the next row's virtual address. -/
def BooksNext (row : Row) : Prop := row.contextFirstChange = 1 ∨ row.segmentFirstChange = 1

/-- The virtual address row `i` books: the next row's, or `0` at the last row. -/
def nextVirt : ℕ := if i < rows.length - 1 then (rowAt rows (i + 1)).addrVirtual.val else 0

/-- `addr_ctx + 1 == stale_contexts[addr_ctx]`: row `i` is in a stale context. -/
def StaleAt : Prop :=
  (rowAt rows i).addrContext + 1 = (rowAt rows (rowAt rows i).addrContext.val).staleContexts

/-- A row is active and the last of its address. -/
def EndsAddress (row : Row) : Prop :=
  row.filter = 1 ∧ (row.contextFirstChange = 1 ∨ row.segmentFirstChange = 1 ∨
    row.virtualFirstChange = 1)

/-- A row holds a non-zero value or is in a preinitialized segment. -/
def KeepsValue (sg : SegmentIds) (row : Row) : Prop :=
  (∃ limb, row.valueLimbs limb ≠ 0) ∨ row.addrSegment.val ∈ sg.preinitializedSegmentsIndices

instance (row : Row) : Decidable (BooksNext row) := inferInstanceAs (Decidable (_ ∨ _))
instance : Decidable (StaleAt rows i) := inferInstanceAs (Decidable (_ = _))
instance (row : Row) : Decidable (EndsAddress row) := inferInstanceAs (Decidable (_ ∧ _))
instance (sg : SegmentIds) (row : Row) : Decidable (KeepsValue sg row) :=
  inferInstanceAs (Decidable (_ ∨ _))

end Conditions

/-- `countRangeChecks` on the written columns, with every other column read from `rows`. -/
def countWritten (rows : List Row) (w : Written) (i : ℕ) : Written :=
  let w := { w with frequencies := Written.bump w.frequencies (rowAt rows i).rangeCheck.val }
  if BooksNext (rowAt rows i) then
    { w with frequencies := Written.bump w.frequencies (nextVirt rows i) }
  else w

/-- `markStaleOrMemAfter` on the written columns, with every other column read from `rows`. -/
def markWritten (sg : SegmentIds) (rows : List Row) (w : Written) (i : ℕ) : Written :=
  if StaleAt rows i then
    { w with
      staleContextFrequencies :=
        Written.bump w.staleContextFrequencies (rowAt rows i).addrContext.val
      isStale := Function.update w.isStale i 1 }
  else if EndsAddress (rowAt rows i) then
    { w with
      maybeInMemAfter := Function.update w.maybeInMemAfter i 1
      memAfterFilter := if KeepsValue sg (rowAt rows i) then Function.update w.memAfterFilter i 1
        else w.memAfterFilter }
  else w

/-- Iteration `i` of the loop on the written columns. -/
def stepWritten (sg : SegmentIds) (rows : List Row) (w : Written) (i : ℕ) : Written :=
  markWritten sg rows (countWritten rows w i) i

section Step

variable (sg : SegmentIds) (rows : List Row) (w : Written)

/-- What iteration `i` needs to stay in bounds: the range check, the virtual address of the
next row at a context or segment change, and the context are row indices. -/
structure StepInBounds (i : ℕ) : Prop where
  lt_length : i < rows.length
  rangeCheck_lt : (rowAt rows i).rangeCheck.val < rows.length
  addrVirtual_lt : (rowAt rows i).contextFirstChange = 1 ∨ (rowAt rows i).segmentFirstChange = 1 →
    i + 1 < rows.length → (rowAt rows (i + 1)).addrVirtual.val < rows.length
  addrContext_lt : (rowAt rows i).addrContext.val < rows.length

lemma modifyAt_bumpFrequencies_apply {idx : ℕ} (h : idx < rows.length) :
    modifyAt bumpFrequencies idx (w.apply rows) =
      .ok (({ w with frequencies := Written.bump w.frequencies idx } : Written).apply rows) := by
  rw [modifyAt, if_pos (by simpa using h), Written.modify_bumpFrequencies]

variable {rows} {i : ℕ} (h : StepInBounds rows i)
include h

lemma countRangeChecks_apply :
    countRangeChecks (w.apply rows) i = .ok ((countWritten rows w i).apply rows) := by
  obtain ⟨hi, hrc, hv, -⟩ := h
  simp only [countRangeChecks, countWritten, BooksNext, nextVirt, Written.rowAt_apply w rows hi,
    modifyAt_bumpFrequencies_apply _ _ hrc, bind, Except.bind, Written.length_apply,
    Written.addrVirtual_rowAt_apply]
  split_ifs with h₁ h₂
  · exact modifyAt_bumpFrequencies_apply _ _ (hv h₁ (by omega))
  · exact modifyAt_bumpFrequencies_apply rows _ (by omega)
  · rfl

lemma markStaleOrMemAfter_apply :
    markStaleOrMemAfter sg (w.apply rows) i = .ok ((markWritten sg rows w i).apply rows) := by
  obtain ⟨hi, -, -, hc⟩ := h
  simp only [markStaleOrMemAfter, markWritten, StaleAt, EndsAddress, KeepsValue,
    decide_eq_true_eq, Written.rowAt_apply w rows hi,
    Written.length_apply, Written.staleContexts_rowAt_apply, if_pos hc]
  by_cases hs : (rowAt rows i).addrContext + 1 =
      (rowAt rows (rowAt rows i).addrContext.val).staleContexts
  · rw [if_pos hs, if_pos hs, Written.modify_isStale, modifyAt, if_pos (by simpa using hc),
      Written.modify_bumpStaleContextFrequencies]
  rw [if_neg hs, if_neg hs]
  split
  · rw [Written.modify_maybeInMemAfter]
  · rfl

lemma colMajorStep_apply :
    colMajorStep sg (w.apply rows) i = .ok ((stepWritten sg rows w i).apply rows) := by
  rw [colMajorStep, countRangeChecks_apply w h]
  exact markStaleOrMemAfter_apply sg _ h

end Step

/-! ### The whole loop -/

/-- The written columns after the first `k` iterations. -/
def written (sg : SegmentIds) (rows : List Row) (k : ℕ) : Written :=
  (List.range k).foldl (stepWritten sg rows) (Written.ofRows rows)

section Run

variable (sg : SegmentIds) (rows : List Row)

lemma written_succ (k : ℕ) :
    written sg rows (k + 1) = stepWritten sg rows (written sg rows k) k := by
  simp [written, List.range_succ]

lemma foldlM_colMajorStep {k : ℕ} (h : ∀ i < k, StepInBounds rows i) :
    (List.range k).foldlM (colMajorStep sg) ((Written.ofRows rows).apply rows) =
      .ok ((written sg rows k).apply rows) := by
  induction k with
  | zero => rfl
  | succ k ih =>
    rw [List.range_succ, List.foldlM_append, ih fun i hi => h i (by omega), written_succ]
    show List.foldlM (colMajorStep sg) _ [k] = _
    rw [List.foldlM_cons, colMajorStep_apply sg _ (h k (by omega))]
    rfl

/-- With every iteration in bounds, `generate_trace_col_major` numbers the rows and writes the
columns of `written`. -/
lemma generateTraceColMajor_eq (h : ∀ i < rows.length, StepInBounds rows i) :
    generateTraceColMajor sg rows = .ok ((written sg rows rows.length).apply rows) := by
  rw [generateTraceColMajor, ← Written.ofRows_apply]
  exact foldlM_colMajorStep sg rows h

end Run

/-! ### What the loop writes -/

section Counts

variable (sg : SegmentIds) (rows : List Row) (j : ℕ)

lemma bump_apply (f : ℕ → ZMod goldilocks) (idx : ℕ) :
    Written.bump f idx j = f j + if idx = j then 1 else 0 := by
  by_cases h : idx = j
  · subst h; simp [Written.bump]
  · simp [Written.bump, Function.update_apply, Ne.symm h, h]

lemma countP_range_succ (p : ℕ → Bool) (k : ℕ) :
    (List.range (k + 1)).countP p = (List.range k).countP p + if p k then 1 else 0 := by
  simp [List.range_succ, List.countP_append, List.countP_singleton]

lemma countWritten_frequencies (w : Written) (i : ℕ) :
    (countWritten rows w i).frequencies j = w.frequencies j +
      (if (rowAt rows i).rangeCheck.val = j then 1 else 0) +
      (if BooksNext (rowAt rows i) ∧ nextVirt rows i = j then 1 else 0) := by
  unfold countWritten
  by_cases hb : BooksNext (rowAt rows i) <;> simp [hb, bump_apply]

lemma stepWritten_frequencies (w : Written) (i : ℕ) :
    (stepWritten sg rows w i).frequencies = (countWritten rows w i).frequencies := by
  unfold stepWritten markWritten; split_ifs <;> rfl

lemma frequencies_written (k : ℕ) : (written sg rows k).frequencies j = (rowAt rows j).frequencies +
    ((List.range k).countP fun i => (rowAt rows i).rangeCheck.val = j) +
    ((List.range k).countP fun i => BooksNext (rowAt rows i) ∧ nextVirt rows i = j) := by
  induction k with
  | zero => simp [written, Written.ofRows]
  | succ k ih =>
    rw [written_succ, stepWritten_frequencies, countWritten_frequencies, ih, countP_range_succ,
      countP_range_succ]
    push_cast [decide_eq_true_eq, Nat.cast_ite]
    ring

lemma countWritten_others (w : Written) (i : ℕ) :
    (countWritten rows w i).staleContextFrequencies = w.staleContextFrequencies ∧
      (countWritten rows w i).isStale = w.isStale ∧
      (countWritten rows w i).maybeInMemAfter = w.maybeInMemAfter ∧
      (countWritten rows w i).memAfterFilter = w.memAfterFilter := by
  unfold countWritten; split_ifs <;> exact ⟨rfl, rfl, rfl, rfl⟩

lemma markWritten_staleContextFrequencies (w : Written) (i : ℕ) :
    (markWritten sg rows w i).staleContextFrequencies j = w.staleContextFrequencies j +
      if StaleAt rows i ∧ (rowAt rows i).addrContext.val = j then 1 else 0 := by
  unfold markWritten
  by_cases hs : StaleAt rows i <;> simp [hs, bump_apply, apply_ite Written.staleContextFrequencies]

lemma markWritten_isStale (w : Written) (i : ℕ) : (markWritten sg rows w i).isStale j =
    if i = j ∧ StaleAt rows i then 1 else w.isStale j := by
  unfold markWritten
  by_cases hij : i = j
  · subst hij; split_ifs <;> simp_all
  · simp only [hij, false_and, if_false]
    split_ifs <;> simp [Ne.symm hij]

lemma markWritten_maybeInMemAfter (w : Written) (i : ℕ) :
    (markWritten sg rows w i).maybeInMemAfter j =
      if i = j ∧ ¬ StaleAt rows i ∧ EndsAddress (rowAt rows i) then 1 else w.maybeInMemAfter j := by
  unfold markWritten
  by_cases hij : i = j
  · subst hij; split_ifs <;> simp_all
  · simp only [hij, false_and, if_false]
    split_ifs <;> simp [Ne.symm hij]

lemma markWritten_memAfterFilter (w : Written) (i : ℕ) :
    (markWritten sg rows w i).memAfterFilter j =
      if i = j ∧ ¬ StaleAt rows i ∧ EndsAddress (rowAt rows i) ∧ KeepsValue sg (rowAt rows i)
      then 1
      else w.memAfterFilter j := by
  unfold markWritten
  by_cases hij : i = j
  · subst hij; split_ifs <;> simp_all
  · simp only [hij, false_and, if_false]
    split_ifs <;> simp [Ne.symm hij]

lemma staleContextFrequencies_written (k : ℕ) :
    (written sg rows k).staleContextFrequencies j = (rowAt rows j).staleContextFrequencies +
      ((List.range k).countP fun i => StaleAt rows i ∧ (rowAt rows i).addrContext.val = j) := by
  induction k with
  | zero => simp [written, Written.ofRows]
  | succ k ih =>
    rw [written_succ, stepWritten, markWritten_staleContextFrequencies,
      (countWritten_others rows _ k).1, ih, countP_range_succ]
    push_cast [decide_eq_true_eq, Nat.cast_ite]
    ring

lemma lt_succ_iff_of_ne {j k : ℕ} (hj : k ≠ j) : j < k + 1 ↔ j < k := by omega

lemma isStale_written (k : ℕ) : (written sg rows k).isStale j =
    if j < k ∧ StaleAt rows j then 1 else (rowAt rows j).isStale := by
  induction k with
  | zero => simp [written, Written.ofRows]
  | succ k ih =>
    rw [written_succ, stepWritten, markWritten_isStale, (countWritten_others rows _ k).2.1, ih]
    by_cases hj : k = j
    · subst hj; simp
    · simp [hj, lt_succ_iff_of_ne hj]

lemma maybeInMemAfter_written (k : ℕ) : (written sg rows k).maybeInMemAfter j =
    if j < k ∧ ¬ StaleAt rows j ∧ EndsAddress (rowAt rows j) then 1
    else (rowAt rows j).maybeInMemAfter := by
  induction k with
  | zero => simp [written, Written.ofRows]
  | succ k ih =>
    rw [written_succ, stepWritten, markWritten_maybeInMemAfter,
      (countWritten_others rows _ k).2.2.1, ih]
    by_cases hj : k = j
    · subst hj; simp
    · simp [hj, lt_succ_iff_of_ne hj]

lemma memAfterFilter_written (k : ℕ) : (written sg rows k).memAfterFilter j =
    if j < k ∧ ¬ StaleAt rows j ∧ EndsAddress (rowAt rows j) ∧ KeepsValue sg (rowAt rows j)
    then 1
    else (rowAt rows j).memAfterFilter := by
  induction k with
  | zero => simp [written, Written.ofRows]
  | succ k ih =>
    rw [written_succ, stepWritten, markWritten_memAfterFilter,
      (countWritten_others rows _ k).2.2.2, ih]
    by_cases hj : k = j
    · subst hj; simp
    · simp [hj, lt_succ_iff_of_ne hj]

end Counts

end ZkEvm.Memory.ColMajor
