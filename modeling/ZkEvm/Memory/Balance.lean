import Mathlib.Algebra.BigOperators.Ring
import ZkEvm.Memory.Completeness

/-!
Lookup completeness: the multiplicities `generate_trace_col_major` writes balance both lookups
of `MemoryStark::lookups` on the trace.

A column of multiplicities that counts, for each counter value, the looked-up entries equal to it
balances a lookup whose entries are all row indices (`sum_count`). The stale-context lookup
balances because the non-zero entries of its table are distinct and every stale row finds its
context there.
-/

namespace ZkEvm.Memory.Balance

open Finset ZkEvm.Goldilocks ZkEvm.Memory.Columns ZkEvm.Memory.Constraints ZkEvm.Memory.Ops
open ZkEvm.Memory.FillGaps ZkEvm.Memory.Generation ZkEvm.Memory.Trace ZkEvm.Memory.ColMajor
open ZkEvm.Memory.Completeness ZkEvm.Memory.Soundness

/-! ### Sums over the rows -/

lemma sum_range_list (f : ℕ → ZMod goldilocks) (N : ℕ) :
    ((List.range N).map f).sum = ∑ i ∈ range N, f i := by
  induction N with
  | zero => simp
  | succ N ih => simp [List.range_succ, ih, Finset.sum_range_succ]

lemma countP_range_cast (p : ℕ → Prop) [DecidablePred p] (N : ℕ) :
    (((List.range N).countP fun i => p i : ℕ) : ZMod goldilocks) =
      ∑ i ∈ range N, if p i then 1 else 0 := by
  induction N with
  | zero => simp
  | succ N ih =>
    rw [List.range_succ, List.countP_append, List.countP_singleton, Nat.cast_add, ih,
      Finset.sum_range_succ]
    by_cases h : p N <;> simp [h]

lemma sum_count {N : ℕ} (g : ℕ → ℕ) (P : ℕ → Prop) [DecidablePred P]
    (hg : ∀ i < N, P i → g i < N) (x : ZMod goldilocks) :
    ∑ j ∈ range N, (if (j : ZMod goldilocks) = x then
        ∑ i ∈ range N, (if P i ∧ g i = j then (1 : ZMod goldilocks) else 0) else 0) =
      ∑ i ∈ range N, if P i ∧ (g i : ZMod goldilocks) = x then 1 else 0 := by
  rw [← Finset.sum_filter, Finset.sum_comm]
  refine Finset.sum_congr rfl fun i hi => ?_
  by_cases hp : P i
  · simp only [hp, true_and, Finset.sum_ite_eq, Finset.mem_filter, Finset.mem_range,
      hg i (Finset.mem_range.mp hi) hp]
  · simp [hp]

/-! ### The two lookups -/

section Lookups

variable {N : ℕ} {t : ℕ → Row}

/-- The range-check lookup balances when the counter numbers the rows, each frequency counts
the range checks and the booked virtual addresses equal to its index, and all of those are row
indices. -/
lemma rangeCheckLookup_balanced (hcounter : ∀ j < N, (t j).counter = j)
    (hflags : ∀ i < N, (t i).contextFirstChange + (t i).segmentFirstChange = 0 ∨
      (t i).contextFirstChange + (t i).segmentFirstChange = 1)
    (hfreq : ∀ j < N, (t j).frequencies =
      ((List.range N).countP fun i => (t i).rangeCheck.val = j) +
      ((List.range N).countP fun i => (t i).contextFirstChange + (t i).segmentFirstChange = 1 ∧
        (t ((i + 1) % N)).addrVirtual.val = j))
    (hrc : ∀ i < N, (t i).rangeCheck.val < N)
    (hv : ∀ i < N, (t i).contextFirstChange + (t i).segmentFirstChange = 1 →
      (t ((i + 1) % N)).addrVirtual.val < N) :
    rangeCheckLookup.Balanced N t := by
  intro x
  rw [sum_range_list, sum_range_list]
  have h₁ := sum_count (fun i => (t i).rangeCheck.val) (fun _ => True) (fun i hi _ => hrc i hi) x
  have h₂ := sum_count (fun i => (t ((i + 1) % N)).addrVirtual.val) _ hv x
  simp only [true_and, ZMod.natCast_zmod_val] at h₁ h₂
  simp only [Lookup.looking, Lookup.looked, rangeCheckLookup, List.zipWith, List.sum_cons,
    List.sum_nil, add_zero]
  calc ∑ i ∈ range N, ((if (t i).rangeCheck = x then 1 else 0) +
          if (t ((i + 1) % N)).addrVirtual = x then
            (t i).contextFirstChange + (t i).segmentFirstChange else 0)
      _ = ∑ i ∈ range N, ((if (t i).rangeCheck = x then 1 else 0) +
          if (t i).contextFirstChange + (t i).segmentFirstChange = 1 ∧
            (t ((i + 1) % N)).addrVirtual = x then 1 else 0) :=
        Finset.sum_congr rfl fun i hi => by
          rcases hflags i (mem_range.mp hi) with hf | hf <;> simp [hf]
      _ = ∑ j ∈ range N, if (j : ZMod goldilocks) = x then
          ((∑ i ∈ range N, if (t i).rangeCheck.val = j then 1 else 0) +
            ∑ i ∈ range N, if (t i).contextFirstChange + (t i).segmentFirstChange = 1 ∧
              (t ((i + 1) % N)).addrVirtual.val = j then 1 else 0) else 0 := by
        simp only [ite_add_zero, Finset.sum_add_distrib, h₁, h₂]
      _ = _ := Finset.sum_congr rfl fun j hj => by
        rw [hcounter j (mem_range.mp hj), hfreq j (mem_range.mp hj), countP_range_cast,
          countP_range_cast]

/-- The stale-context lookup balances when `is_stale` is a bit, each stale-context frequency
counts the stale rows that look up its entry, the non-zero entries are distinct, and every
stale row's context plus one is a non-zero entry. -/
lemma staleContextsLookup_balanced
    (hstale : ∀ i < N, (t i).isStale = 0 ∨ (t i).isStale = 1)
    (hfreq : ∀ j < N, (t j).staleContextFrequencies = ((List.range N).countP fun i =>
      (t i).isStale = 1 ∧ (t i).addrContext + 1 = (t j).staleContexts))
    (hinj : ∀ i < N, ∀ j < N, (t i).staleContexts ≠ 0 →
      (t i).staleContexts = (t j).staleContexts → i = j)
    (hmem : ∀ i < N, (t i).isStale = 1 → ∃ j < N,
      (t j).staleContexts = (t i).addrContext + 1 ∧ (t j).staleContexts ≠ 0) :
    staleContextsLookup.Balanced N t := by
  intro x
  rw [sum_range_list, sum_range_list]
  simp only [Lookup.looking, Lookup.looked, staleContextsLookup, List.zipWith, List.sum_cons,
    List.sum_nil, add_zero]
  have hL : ∑ i ∈ range N, (if (t i).addrContext + 1 = x then (t i).isStale else 0) =
      ∑ i ∈ range N, if (t i).isStale = 1 ∧ (t i).addrContext + 1 = x then 1 else 0 :=
    sum_congr rfl fun i hi => by rcases hstale i (mem_range.mp hi) with h | h <;> simp [h]
  have hR : ∑ j ∈ range N, (if (t j).staleContexts = x then (t j).staleContextFrequencies
      else 0) = ∑ j ∈ range N, if (t j).staleContexts = x then
        ∑ i ∈ range N, (if (t i).isStale = 1 ∧ (t i).addrContext + 1 = x then 1 else 0)
      else 0 :=
    sum_congr rfl fun j hj => by
      split_ifs with hx
      · rw [hfreq j (mem_range.mp hj), countP_range_cast, hx]
      · rfl
  rw [hL, hR]
  by_cases hex : ∃ i < N, (t i).isStale = 1 ∧ (t i).addrContext + 1 = x
  · obtain ⟨i, hi, h1, h2⟩ := hex
    obtain ⟨j₀, hj₀, hsc, hne⟩ := hmem i hi h1
    rw [h2] at hsc
    generalize (∑ i ∈ range N, if (t i).isStale = 1 ∧ (t i).addrContext + 1 = x
      then (1 : ZMod goldilocks) else 0) = C
    rw [← sum_filter, show (range N).filter (fun j => (t j).staleContexts = x) = {j₀} from ?_,
      sum_singleton]
    ext j
    simp only [mem_filter, mem_range, mem_singleton]
    exact ⟨fun ⟨hj, hx⟩ => (hinj j₀ hj₀ j hj (hsc ▸ hne) (hsc.trans hx.symm)).symm,
      fun hj => hj ▸ ⟨hj₀, hsc⟩⟩
  · push_neg at hex
    have h0 : ∑ i ∈ range N, (if (t i).isStale = 1 ∧ (t i).addrContext + 1 = x
        then (1 : ZMod goldilocks) else 0) = 0 :=
      sum_eq_zero fun i hi => if_neg fun h => hex i (mem_range.mp hi) h.1 h.2
    simp [h0]

end Lookups

/-! ### The multiplicities of the trace -/

lemma booksNext_iff {r : Row} (h : FirstChange r) :
    BooksNext r ↔ r.contextFirstChange + r.segmentFirstChange = 1 := by
  unfold BooksNext
  rcases h with ⟨c, s, v⟩ | ⟨c, s, v⟩ | ⟨c, s, v⟩ | ⟨c, s, v⟩ <;> simp [c, s]

lemma flags_bit {r : Row} (h : FirstChange r) :
    r.contextFirstChange + r.segmentFirstChange = 0 ∨
      r.contextFirstChange + r.segmentFirstChange = 1 := by
  rcases h with ⟨c, s, v⟩ | ⟨c, s, v⟩ | ⟨c, s, v⟩ | ⟨c, s, v⟩ <;> simp [c, s]

section Trace

variable {sg : SegmentIds} {ops : List MemoryOp} {staleContexts : List ℕ}

lemma counter_traceRows {j : ℕ} (hj : j < (rowOps ops).length) :
    (rowAt (traceRows sg ops staleContexts) j).counter = j := by
  rw [rowAt_traceRows sg staleContexts hj]

lemma addrVirtual_traceRows_zero (h : LogBounds ops) :
    (rowAt (traceRows sg ops staleContexts) 0).addrVirtual = 0 := by
  have hpos : 0 < (rowOps ops).length := by rw [length_rowOps h]; exact nextPowerOfTwo_pos _
  rw [rowAt_traceRows sg staleContexts hpos, rowAt_staleRows sg staleContexts hpos]
  dsimp only
  exact addrVirtual_zero h

lemma nextVirt_staleRows (h : LogBounds ops) {i : ℕ} (hi : i < (rowOps ops).length) :
    nextVirt (staleRows sg ops staleContexts) i =
      (rowAt (traceRows sg ops staleContexts) ((i + 1) % (rowOps ops).length)).addrVirtual.val := by
  unfold nextVirt
  rw [length_staleRows]
  split_ifs with hl
  · rw [Nat.mod_eq_of_lt (by omega), rowAt_traceRows sg staleContexts (by omega)]
  · rw [show i + 1 = (rowOps ops).length by omega, Nat.mod_self, addrVirtual_traceRows_zero h]
    rfl

lemma addrVirtual_next_lt (h : LogBounds ops) {i : ℕ} (hi : i < (rowOps ops).length)
    (hf : (rowAt (traceRows sg ops staleContexts) i).contextFirstChange +
      (rowAt (traceRows sg ops staleContexts) i).segmentFirstChange = 1) :
    (rowAt (traceRows sg ops staleContexts) ((i + 1) % (rowOps ops).length)).addrVirtual.val <
      (rowOps ops).length := by
  by_cases hl : i + 1 < (rowOps ops).length
  · rw [Nat.mod_eq_of_lt hl, rowAt_traceRows sg staleContexts hl,
      rowAt_staleRows sg staleContexts hl]
    rw [← booksNext_iff (firstChange_traceRows hi), rowAt_traceRows sg staleContexts hi,
      rowAt_staleRows sg staleContexts hi] at hf
    dsimp only at hf ⊢
    exact addrVirtual_lt h hl hf
  · rw [show i + 1 = (rowOps ops).length by omega, Nat.mod_self, addrVirtual_traceRows_zero h]
    simp only [ZMod.val_zero]
    omega

lemma frequencies_traceRows (h : LogBounds ops) {j : ℕ} (hj : j < (rowOps ops).length) :
    (rowAt (traceRows sg ops staleContexts) j).frequencies =
      ((List.range (rowOps ops).length).countP fun i =>
        (rowAt (traceRows sg ops staleContexts) i).rangeCheck.val = j) +
      ((List.range (rowOps ops).length).countP fun i =>
        (rowAt (traceRows sg ops staleContexts) i).contextFirstChange +
          (rowAt (traceRows sg ops staleContexts) i).segmentFirstChange = 1 ∧
        (rowAt (traceRows sg ops staleContexts)
          ((i + 1) % (rowOps ops).length)).addrVirtual.val = j) := by
  obtain ⟨b, next, he⟩ := rowAt_flagRows_intoRow sg hj
  have h0 : (rowAt (staleRows sg ops staleContexts) j).frequencies = 0 := by
    rw [rowAt_staleRows sg staleContexts hj, he]; rfl
  rw [rowAt_traceRows sg staleContexts hj]
  dsimp only
  rw [frequencies_written, h0, zero_add]
  refine congrArg₂ (· + ·) (congrArg _ (List.countP_congr fun i hi => ?_))
    (congrArg _ (List.countP_congr fun i hi => ?_)) <;> replace hi := List.mem_range.mp hi <;>
    simp only [decide_eq_true_eq]
  · rw [rowAt_traceRows sg staleContexts hi]
  · rw [nextVirt_staleRows h hi, ← booksNext_iff (firstChange_traceRows hi),
      rowAt_traceRows sg staleContexts hi]
    dsimp only [BooksNext]
    exact Iff.rfl

lemma rangeCheck_traceRows_lt (h : LogBounds ops) {i : ℕ} (hi : i < (rowOps ops).length) :
    (rowAt (traceRows sg ops staleContexts) i).rangeCheck.val < (rowOps ops).length := by
  rw [rowAt_traceRows sg staleContexts hi, rowAt_staleRows sg staleContexts hi]
  dsimp only
  exact rangeCheck_lt sg h hi

lemma isStale_bit {i : ℕ} (hi : i < (rowOps ops).length) :
    (rowAt (traceRows sg ops staleContexts) i).isStale = 0 ∨
      (rowAt (traceRows sg ops staleContexts) i).isStale = 1 := by
  rw [isStale_traceRows hi]
  split_ifs <;> simp

lemma staleContexts_traceRows {j : ℕ} (hj : j < (rowOps ops).length) :
    (rowAt (traceRows sg ops staleContexts) j).staleContexts =
      if j ∈ staleContexts then (j : ZMod goldilocks) + 1 else 0 := by
  rw [rowAt_traceRows sg staleContexts hj]
  dsimp only
  exact staleContexts_staleRows hj

lemma addrContext_traceRows {i : ℕ} (hi : i < (rowOps ops).length) :
    (rowAt (traceRows sg ops staleContexts) i).addrContext =
      ((rowOps ops)[i].address.context : ZMod goldilocks) := by
  rw [rowAt_traceRows sg staleContexts hi]
  dsimp only
  exact addrContext_staleRows hi

lemma isStale_eq_one_iff (h : LogBounds ops) {i : ℕ} (hi : i < (rowOps ops).length) :
    (rowAt (traceRows sg ops staleContexts) i).isStale = 1 ↔
      (rowOps ops)[i].address.context ∈ staleContexts := by
  have hs : StaleAt (staleRows sg ops staleContexts) i ↔ _ := staleAt_staleRows_iff h hi
  rw [isStale_traceRows hi, ← hs]
  split_ifs with hs <;> simp [hs]

lemma context_lt_pow (h : LogBounds ops) {i : ℕ} (hi : i < (rowOps ops).length) :
    (rowOps ops)[i].address.context < 2 ^ 63 ∧
      (rowOps ops)[i].address.context < (rowOps ops).length := by
  have := (mem_rowOps h (List.getElem_mem hi)).1
  have := walkedMaxRc_lt h
  have := walkedMaxRc_lt_length h
  omega

lemma lt_pow_of_mem (h : LogBounds ops) (hs : StaleBounds ops staleContexts) {j : ℕ}
    (hj : j ∈ staleContexts) : j < 2 ^ 63 :=
  lt_of_lt_of_le (hs.lt j hj) (nextPowerOfTwo_le ⟨63, rfl⟩ (length_walked_le h))

lemma staleContextFrequencies_traceRows (h : LogBounds ops) (hs : StaleBounds ops staleContexts)
    {j : ℕ} (hj : j < (rowOps ops).length) :
    (rowAt (traceRows sg ops staleContexts) j).staleContextFrequencies =
      (List.range (rowOps ops).length).countP fun i =>
        (rowAt (traceRows sg ops staleContexts) i).isStale = 1 ∧
        (rowAt (traceRows sg ops staleContexts) i).addrContext + 1 =
          (rowAt (traceRows sg ops staleContexts) j).staleContexts := by
  obtain ⟨b, next, he⟩ := rowAt_flagRows_intoRow sg hj
  have h0 : (rowAt (staleRows sg ops staleContexts) j).staleContextFrequencies = 0 := by
    rw [rowAt_staleRows sg staleContexts hj, he]; rfl
  rw [staleContexts_traceRows hj, rowAt_traceRows sg staleContexts hj]
  dsimp only
  rw [staleContextFrequencies_written, h0, zero_add]
  refine congrArg _ (List.countP_congr fun i hi => ?_)
  replace hi := List.mem_range.mp hi
  have hc := context_lt_pow h hi
  simp only [decide_eq_true_eq]
  rw [staleAt_staleRows_iff h hi, isStale_eq_one_iff h hi, addrContext_staleRows hi,
    addrContext_traceRows hi, val_natCast_of_lt hc.1]
  constructor
  · rintro ⟨hS, rfl⟩
    exact ⟨hS, by rw [if_pos hS]⟩
  · rintro ⟨hS, heq⟩
    split_ifs at heq with hjS
    · exact ⟨hS, (natCast_inj_of_lt hc.1 (lt_pow_of_mem h hs hjS)).mp (add_right_cancel heq)⟩
    · exact absurd heq (natCast_add_one_ne_zero hc.1)

lemma staleContexts_inj (h : LogBounds ops) (hs : StaleBounds ops staleContexts) {i j : ℕ}
    (hi : i < (rowOps ops).length) (hj : j < (rowOps ops).length)
    (hne : (rowAt (traceRows sg ops staleContexts) i).staleContexts ≠ 0)
    (heq : (rowAt (traceRows sg ops staleContexts) i).staleContexts =
      (rowAt (traceRows sg ops staleContexts) j).staleContexts) : i = j := by
  rw [staleContexts_traceRows hi] at hne heq
  rw [staleContexts_traceRows hj] at heq
  split_ifs at hne heq with hiS hjS
  · exact (natCast_inj_of_lt (lt_pow_of_mem h hs hiS) (lt_pow_of_mem h hs hjS)).mp
      (add_right_cancel heq)
  · exact absurd heq (natCast_add_one_ne_zero (lt_pow_of_mem h hs hiS))
  all_goals exact absurd rfl hne

lemma exists_staleContexts (h : LogBounds ops) {i : ℕ} (hi : i < (rowOps ops).length)
    (hst : (rowAt (traceRows sg ops staleContexts) i).isStale = 1) :
    ∃ j < (rowOps ops).length, (rowAt (traceRows sg ops staleContexts) j).staleContexts =
      (rowAt (traceRows sg ops staleContexts) i).addrContext + 1 ∧
      (rowAt (traceRows sg ops staleContexts) j).staleContexts ≠ 0 := by
  rw [isStale_eq_one_iff h hi] at hst
  have hc := context_lt_pow h hi
  refine ⟨_, hc.2, ?_, ?_⟩ <;> rw [staleContexts_traceRows hc.2, if_pos hst]
  · rw [addrContext_traceRows hi]
  · exact natCast_add_one_ne_zero hc.1

end Trace

/-! ### Lookup completeness -/

/-- **Lookup completeness.** For a log within the bounds and stale contexts within theirs,
`generate_trace` numbers its rows, each frequency counts the range checks and the virtual
addresses booked after a change of context or segment (the last row's, of row `0`, included)
equal to its index, each stale-context frequency counts the stale rows whose context plus one is
its row's entry, the non-zero entries are distinct, and both lookups of `MemoryStark::lookups`
balance. -/
theorem generateTrace_lookups_balanced (sg : SegmentIds) (memoryOps : List MemoryOp)
    (memBeforeValues : List (MemoryAddress × BitVec 256)) (staleContexts : List ℕ)
    (h : LogBounds (traceOps memoryOps memBeforeValues))
    (hs : StaleBounds (traceOps memoryOps memBeforeValues) staleContexts) :
    ∃ rows memAfterValues unpaddedLength,
      generateTrace sg memoryOps memBeforeValues staleContexts =
        .ok (rows, memAfterValues, unpaddedLength) ∧
      (∀ t < rows.length, (rowAt rows t).counter = t) ∧
      (∀ t < rows.length, (rowAt rows t).frequencies =
        ((List.range rows.length).countP fun i => (rowAt rows i).rangeCheck.val = t) +
        ((List.range rows.length).countP fun i =>
          (rowAt rows i).contextFirstChange + (rowAt rows i).segmentFirstChange = 1 ∧
          (rowAt rows ((i + 1) % rows.length)).addrVirtual.val = t)) ∧
      (∀ j < rows.length, (rowAt rows j).staleContextFrequencies =
        (List.range rows.length).countP fun i =>
          (rowAt rows i).isStale = 1 ∧
          (rowAt rows i).addrContext + 1 = (rowAt rows j).staleContexts) ∧
      (∀ i < rows.length, ∀ j < rows.length, (rowAt rows i).staleContexts ≠ 0 →
        (rowAt rows i).staleContexts = (rowAt rows j).staleContexts → i = j) ∧
      ∀ l ∈ lookups, l.Balanced rows.length (rowAt rows) := by
  refine ⟨_, _, _, generateTrace_eq h hs, ?_⟩
  rw [length_traceRows]
  refine ⟨fun t ht => counter_traceRows ht, fun t ht => frequencies_traceRows h ht,
    fun j hj => staleContextFrequencies_traceRows h hs hj,
    fun i hi j hj => staleContexts_inj h hs hi hj, ?_⟩
  simp only [lookups, List.mem_cons, List.not_mem_nil, or_false]
  rintro l (rfl | rfl)
  · exact rangeCheckLookup_balanced (fun t ht => counter_traceRows ht)
      (fun i hi => flags_bit (firstChange_traceRows hi)) (fun t ht => frequencies_traceRows h ht)
      (fun i hi => rangeCheck_traceRows_lt h hi) (fun i hi hf => addrVirtual_next_lt h hi hf)
  · exact staleContextsLookup_balanced (fun i hi => isStale_bit hi)
      (fun j hj => staleContextFrequencies_traceRows h hs hj)
      (fun i hi j hj => staleContexts_inj h hs hi hj)
      (fun i hi hst => exists_staleContexts h hi hst)

theorem generateTrace_lookups_balanced_mixed :
    LogBounds (traceOps mixedOps mixedBefore) ∧
    StaleBounds (traceOps mixedOps mixedBefore) [1] ∧
    ∃ rows memAfterValues unpaddedLength,
      generateTrace ⟨0, 1, 2, 3⟩ mixedOps mixedBefore [1] =
        .ok (rows, memAfterValues, unpaddedLength) ∧
      (∀ t < rows.length, (rowAt rows t).counter = t) ∧
      (∀ t < rows.length, (rowAt rows t).frequencies =
        ((List.range rows.length).countP fun i => (rowAt rows i).rangeCheck.val = t) +
        ((List.range rows.length).countP fun i =>
          (rowAt rows i).contextFirstChange + (rowAt rows i).segmentFirstChange = 1 ∧
          (rowAt rows ((i + 1) % rows.length)).addrVirtual.val = t)) ∧
      (∀ j < rows.length, (rowAt rows j).staleContextFrequencies =
        (List.range rows.length).countP fun i =>
          (rowAt rows i).isStale = 1 ∧
          (rowAt rows i).addrContext + 1 = (rowAt rows j).staleContexts) ∧
      (∀ i < rows.length, ∀ j < rows.length, (rowAt rows i).staleContexts ≠ 0 →
        (rowAt rows i).staleContexts = (rowAt rows j).staleContexts → i = j) ∧
      ∀ l ∈ lookups, l.Balanced rows.length (rowAt rows) :=
  ⟨logBounds_mixed, staleBounds_mixed,
    generateTrace_lookups_balanced ⟨0, 1, 2, 3⟩ _ _ [1] logBounds_mixed staleBounds_mixed⟩

end ZkEvm.Memory.Balance
