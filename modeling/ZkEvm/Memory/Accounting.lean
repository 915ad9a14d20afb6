import ZkEvm.Memory.Completeness

/-!
No operation is lost or duplicated. The rows `generate_trace` returns show, one to one and in
order, the operations of `rowOps`: the log and the `mem_before` writes, the reads `fill_gaps`
invents, then the padding of `pad_memory_ops`. Every invented read is inactive and comes after
timestamp `0`, so the rows `ctl_filter` selects are the active operations of the input and the
rows of timestamp `0` are the `mem_before` writes.
-/

namespace ZkEvm.Memory.Accounting

open ZkEvm.Goldilocks ZkEvm.Memory.Columns ZkEvm.Memory.Ops MemoryOp ZkEvm.Memory.FillGaps
open ZkEvm.Memory.Generation ZkEvm.Memory.Trace ZkEvm.Memory.Completeness

/-- A read the generator invents: inactive, after timestamp `0`. -/
def InventedRead (o : MemoryOp) : Prop := o.filter = false ∧ o.kind = .read ∧ 1 ≤ o.timestamp

/-- The row shows the operation: it holds every cell `MemoryOp::into_row` computes from it. -/
def ShowsOp (r : Row) (op : MemoryOp) : Prop :=
  r.filter = op.intoRow.filter ∧ r.timestamp = op.intoRow.timestamp ∧
    r.timestampInv = op.intoRow.timestampInv ∧ r.isRead = op.intoRow.isRead ∧
    r.addrContext = op.intoRow.addrContext ∧ r.addrSegment = op.intoRow.addrSegment ∧
    r.addrVirtual = op.intoRow.addrVirtual ∧ r.valueLimbs = op.intoRow.valueLimbs

instance (o : MemoryOp) : Decidable (InventedRead o) := inferInstanceAs (Decidable (_ ∧ _))

instance (r : Row) (op : MemoryOp) : Decidable (ShowsOp r op) :=
  inferInstanceAs (Decidable (_ ∧ _))

lemma inventedRead_paddingOp (last : MemoryOp) : InventedRead (paddingOp last) :=
  ⟨rfl, rfl, Nat.le_add_left 1 _⟩

/-! ### The operations of the rows -/

lemma withFirstRead_perm : ∀ ops : List MemoryOp,
    ∃ extra, (withFirstRead ops).Perm (ops ++ extra) ∧ ∀ o ∈ extra, InventedRead o
  | [] => ⟨[], by simp [withFirstRead], by simp⟩
  | first :: rest => by
    simp only [withFirstRead]
    split_ifs
    · exact ⟨[zeroAddressRead], (List.perm_append_singleton _ _).symm,
        by simpa using ⟨rfl, rfl, le_rfl⟩⟩
    · exact ⟨[], by simp, by simp⟩

lemma walked_perm (ops : List MemoryOp) :
    ∃ extra, (walked ops).Perm (ops ++ extra) ∧ ∀ o ∈ extra, InventedRead o := by
  obtain ⟨extra, hp, hx⟩ := withFirstRead_perm (sortByKey ops)
  exact ⟨extra, hp.trans ((sortByKey_perm ops).append_right extra), hx⟩

lemma filled_perm (ops : List MemoryOp) :
    ∃ extra, (filled ops).Perm (ops ++ extra) ∧ ∀ o ∈ extra, InventedRead o := by
  unfold filled
  split_ifs with hm
  · refine ⟨windowsDummies _ hm ops, (perm_expand hm ops).symm, fun o ho => ?_⟩
    obtain ⟨a, -, b, -, hd⟩ := mem_windowsDummies hm ho
    obtain ⟨hf, hk, ht, -⟩ := mem_sortedGapDummies hm hd
    exact ⟨hf, hk, ht⟩
  · exact ⟨[], by simp, by simp⟩

/-- The operations of the rows are the log, invented reads, and padding, which is invented
too. -/
lemma rowOps_perm {ops : List MemoryOp} (h : LogBounds ops) :
    ∃ extra padding, rowOps ops = filled (walked ops) ++ padding ∧
      (filled (walked ops)).Perm (ops ++ extra) ∧ ∀ o ∈ extra ++ padding, InventedRead o := by
  obtain ⟨last, -, heq⟩ := rowOps_eq h
  obtain ⟨e₁, hp₁, hx₁⟩ := walked_perm ops
  obtain ⟨e₂, hp₂, hx₂⟩ := filled_perm (walked ops)
  refine ⟨e₁ ++ e₂, _, heq, ?_, fun o ho => ?_⟩
  · rw [← List.append_assoc]
    exact hp₂.trans (hp₁.append_right e₂)
  · simp only [List.mem_append] at ho
    rcases ho with (ho | ho) | ho
    exacts [hx₁ o ho, hx₂ o ho, List.eq_of_mem_replicate ho ▸ inventedRead_paddingOp last]

lemma filter_rowOps_perm {ops : List MemoryOp} (h : LogBounds ops) {p : MemoryOp → Bool}
    (hp : ∀ o, InventedRead o → p o = false) : ((rowOps ops).filter p).Perm (ops.filter p) := by
  obtain ⟨extra, padding, heq, hperm, hx⟩ := rowOps_perm h
  have hnil : ∀ l : List MemoryOp, (∀ o ∈ l, InventedRead o) → l.filter p = [] :=
    fun l hl => List.filter_eq_nil_iff.mpr fun o ho => by simp [hp o (hl o ho)]
  rw [heq, List.filter_append, hnil padding fun o ho => hx o (by simp [ho]), List.append_nil]
  calc ((filled (walked ops)).filter p).Perm ((ops ++ extra).filter p) := hperm.filter p
    _ = ops.filter p := by
      rw [List.filter_append, hnil extra fun o ho => hx o (by simp [ho]), List.append_nil]

/-! ### The rows and their operations -/

section Rows

variable (sg : SegmentIds) {ops : List MemoryOp} (staleContexts : List ℕ)

lemma showsOp_traceRows {i : ℕ} (hi : i < (rowOps ops).length) :
    ShowsOp (rowAt (traceRows sg ops staleContexts) i) (rowOps ops)[i] := by
  obtain ⟨b, next, he⟩ := rowAt_flagRows_intoRow sg hi
  rw [rowAt_traceRows sg staleContexts hi, rowAt_staleRows sg staleContexts hi, he]
  exact ⟨rfl, rfl, rfl, rfl, rfl, rfl, rfl, rfl⟩

lemma forall₂_traceRows (h : LogBounds ops) :
    List.Forall₂ (fun r o => ShowsOp r o ∧ Fits o) (traceRows sg ops staleContexts)
      (rowOps ops) := by
  refine List.forall₂_iff_get.mpr ⟨length_traceRows sg staleContexts, fun i h₁ h₂ =>
    ⟨?_, fits_rowOps h (List.get_mem _ _ _)⟩⟩
  rw [show (traceRows sg ops staleContexts).get ⟨i, h₁⟩ = rowAt (traceRows sg ops staleContexts) i
    from (List.getD_eq_getElem _ _ h₁).symm, List.get_eq_getElem]
  exact showsOp_traceRows sg staleContexts h₂

lemma forall₂_filter_traceRows (h : LogBounds ops) {p : Row → Bool} {q : MemoryOp → Bool}
    (hpq : ∀ r o, ShowsOp r o → Fits o → (p r ↔ q o)) :
    List.Forall₂ ShowsOp ((traceRows sg ops staleContexts).filter p) ((rowOps ops).filter q) :=
  (List.rel_filter (R := fun r o => ShowsOp r o ∧ Fits o) (fun _ _ hr => hpq _ _ hr.1 hr.2)
    (forall₂_traceRows sg staleContexts h)).imp fun _ _ hr => hr.1

end Rows

lemma filter_eq_one_iff {r : Row} {o : MemoryOp} (hr : ShowsOp r o) :
    r.filter = 1 ↔ o.filter = true := by
  rw [hr.1]
  cases hf : o.filter <;> simp [MemoryOp.intoRow, fromBool, hf]

lemma timestamp_eq_zero_iff {r : Row} {o : MemoryOp} (hr : ShowsOp r o) (ho : Fits o) :
    r.timestamp = 0 ↔ o.timestamp = 0 := by
  rw [hr.2.1, ← Nat.cast_zero]
  exact natCast_inj_of_lt ho.2.2.2 (by norm_num)

/-! ### No operation is lost or duplicated -/

/-- **No operation is lost or duplicated.** For a log within the bounds whose operations come
after timestamp `0`, and stale contexts within theirs, the rows `generate_trace` returns show,
one to one and in order, a list of operations and then padding. The operations are those of
`memory_ops`, one timestamp-`0` write for each `mem_before` value, and reads the generator
invents; every invented read, and every padding row, is inactive and after timestamp `0`; and
`unpadded_length` counts the operations. So the rows with `filter = 1` show the active operations
of the log and the `mem_before` writes, and the rows of timestamp `0` show the `mem_before`
writes. -/
theorem generateTrace_rows_perm (sg : SegmentIds) (memoryOps : List MemoryOp)
    (memBeforeValues : List (MemoryAddress × BitVec 256)) (staleContexts : List ℕ)
    (h : LogBounds (traceOps memoryOps memBeforeValues))
    (hs : StaleBounds (traceOps memoryOps memBeforeValues) staleContexts)
    (hts : ∀ o ∈ memoryOps, 1 ≤ o.timestamp) :
    ∃ rows memAfterValues unpaddedLength,
      generateTrace sg memoryOps memBeforeValues staleContexts =
        .ok (rows, memAfterValues, unpaddedLength) ∧
      ∃ ops extra padding,
        List.Forall₂ ShowsOp rows (ops ++ padding) ∧ unpaddedLength = ops.length ∧
        ops.Perm (memoryOps ++ memBeforeValues.map memBeforeOp ++ extra) ∧
        (∀ o ∈ extra ++ padding, InventedRead o) ∧
        (∃ active, active.Perm (memoryOps.filter (·.filter) ++ memBeforeValues.map memBeforeOp) ∧
          List.Forall₂ ShowsOp (rows.filter fun r => r.filter = 1) active) ∧
        ∃ before, before.Perm (memBeforeValues.map memBeforeOp) ∧
          List.Forall₂ ShowsOp (rows.filter fun r => r.timestamp = 0) before := by
  obtain ⟨extra, padding, heq, hperm, hx⟩ := rowOps_perm h
  have hmb : ∀ o ∈ memBeforeValues.map memBeforeOp, o.filter = true ∧ o.timestamp = 0 := by
    intro o ho
    obtain ⟨_, -, rfl⟩ := List.mem_map.mp ho
    exact ⟨rfl, rfl⟩
  have hactive : (memBeforeValues.map memBeforeOp).filter (·.filter) =
      memBeforeValues.map memBeforeOp := List.filter_eq_self.mpr fun o ho => by simp [(hmb o ho).1]
  have hbefore : (memBeforeValues.map memBeforeOp).filter (fun o => o.timestamp = 0) =
      memBeforeValues.map memBeforeOp := List.filter_eq_self.mpr fun o ho => by simp [(hmb o ho).2]
  have hlater : memoryOps.filter (fun o => o.timestamp = 0) = [] :=
    List.filter_eq_nil_iff.mpr fun o ho => by have := hts o ho; simp; omega
  refine ⟨_, _, _, generateTrace_eq h hs, _, extra, padding,
    heq ▸ (forall₂_traceRows sg staleContexts h).imp fun _ _ hr => hr.1, rfl, hperm, hx,
    ⟨_, ?_, forall₂_filter_traceRows sg staleContexts h (q := (·.filter))
      fun _ _ hr _ => by simpa using filter_eq_one_iff hr⟩,
    ⟨_, ?_, forall₂_filter_traceRows sg staleContexts h (q := fun o => o.timestamp = 0)
      fun _ _ hr ho => by simpa using timestamp_eq_zero_iff hr ho⟩⟩
  · refine (filter_rowOps_perm h fun o ho => by simp [ho.1]).trans ?_
    rw [traceOps, List.filter_append, hactive]
  · refine (filter_rowOps_perm h fun o ho => by have := ho.2.2; simp; omega).trans ?_
    rw [traceOps, List.filter_append, hbefore, hlater, List.nil_append]

theorem generateTrace_rows_perm_mixed :
    LogBounds (traceOps mixedOps mixedBefore) ∧
    StaleBounds (traceOps mixedOps mixedBefore) [1] ∧
    (∀ o ∈ mixedOps, 1 ≤ o.timestamp) ∧
    ∃ rows memAfterValues unpaddedLength,
      generateTrace ⟨0, 1, 2, 3⟩ mixedOps mixedBefore [1] =
        .ok (rows, memAfterValues, unpaddedLength) ∧
      ∃ ops extra padding,
        List.Forall₂ ShowsOp rows (ops ++ padding) ∧ unpaddedLength = ops.length ∧
        ops.Perm (mixedOps ++ mixedBefore.map memBeforeOp ++ extra) ∧
        (∀ o ∈ extra ++ padding, InventedRead o) ∧
        (∃ active, active.Perm (mixedOps.filter (·.filter) ++ mixedBefore.map memBeforeOp) ∧
          List.Forall₂ ShowsOp (rows.filter fun r => r.filter = 1) active) ∧
        ∃ before, before.Perm (mixedBefore.map memBeforeOp) ∧
          List.Forall₂ ShowsOp (rows.filter fun r => r.timestamp = 0) before :=
  ⟨logBounds_mixed, staleBounds_mixed, by decide,
    generateTrace_rows_perm ⟨0, 1, 2, 3⟩ _ _ [1] logBounds_mixed staleBounds_mixed
      (by decide)⟩

end ZkEvm.Memory.Accounting
