import Mathlib.Algebra.CharP.Defs
import Mathlib.Tactic.LinearCombination
import Mathlib.Tactic.Linarith
import ZkEvm.Goldilocks
import ZkEvm.Memory.Constraints

/-!
What an assignment that satisfies the memory constraints must look like.

The range-check lookup bounds the step by which the first address component that changes
moves from a row to the next; as long as `N` such steps cannot wrap around the characteristic,
two rows with one address enclose only rows with that address. Read consistency and zero
initialization then hold transition by transition.
-/

namespace ZkEvm.Memory.Soundness

open ZkEvm.Memory.Columns ZkEvm.Memory.Constraints ZkEvm.Goldilocks

variable {F : Type} [Field F]

/-! ### One row -/

lemma eq_zero_or_eq_one_of_mul_sub {x : F} (h : x * (1 - x) = 0) : x = 0 ∨ x = 1 := by
  rcases mul_eq_zero.mp h with h | h
  · exact .inl h
  · exact .inr (sub_eq_zero.mp h).symm

lemma eq_zero_or_eq_one_of_mul_sub' {x : F} (h : x * (x - 1) = 0) : x = 0 ∨ x = 1 := by
  rcases mul_eq_zero.mp h with h | h
  · exact .inl h
  · exact .inr (sub_eq_zero.mp h)

/-- The first-change flags of a row: exactly one of the four cases, the last one being that
the address does not change. -/
inductive FirstChange (lv : MemoryColumnsView F) : Prop
  | context (c : lv.contextFirstChange = 1) (s : lv.segmentFirstChange = 0)
      (v : lv.virtualFirstChange = 0)
  | segment (c : lv.contextFirstChange = 0) (s : lv.segmentFirstChange = 1)
      (v : lv.virtualFirstChange = 0)
  | virtual (c : lv.contextFirstChange = 0) (s : lv.segmentFirstChange = 0)
      (v : lv.virtualFirstChange = 1)
  | unchanged (c : lv.contextFirstChange = 0) (s : lv.segmentFirstChange = 0)
      (v : lv.virtualFirstChange = 0)

lemma firstChange_of_rowConstraints {lv : MemoryColumnsView F} (h : RowConstraints lv)
    (h2 : (2 : F) ≠ 0) (h3 : (3 : F) ≠ 0) : FirstChange lv := by
  have hu := eq_zero_or_eq_one_of_mul_sub h.unchanged_bool
  rcases eq_zero_or_eq_one_of_mul_sub h.context_bool with hc | hc <;>
  rcases eq_zero_or_eq_one_of_mul_sub h.segment_bool with hs | hs <;>
  rcases eq_zero_or_eq_one_of_mul_sub h.virtual_bool with hv | hv <;>
  simp only [hc, hs, hv] at hu
  · exact .unchanged hc hs hv
  · exact .virtual hc hs hv
  · exact .segment hc hs hv
  pick_goal 2
  · exact .context hc hs hv
  -- two or three flags set: the complement is `-1` or `-2`, not a bit
  all_goals rcases hu with hu | hu
  all_goals first
    | exact absurd (by linear_combination -hu) one_ne_zero
    | exact absurd (by linear_combination -hu) h2
    | exact absurd (by linear_combination -hu) h3

lemma transitionConstraints_step {sg : SegmentIds} {lv nv : MemoryColumnsView F}
    (h : TransitionConstraints sg lv nv) :
    FirstChange lv → (lv.contextFirstChange = 1 →
        lv.rangeCheck = nv.addrContext - lv.addrContext - 1) ∧
      (lv.segmentFirstChange = 1 → nv.addrContext = lv.addrContext ∧
        lv.rangeCheck = nv.addrSegment - lv.addrSegment - 1) ∧
      (lv.virtualFirstChange = 1 → nv.addrContext = lv.addrContext ∧
        nv.addrSegment = lv.addrSegment ∧ lv.rangeCheck = nv.addrVirtual - lv.addrVirtual - 1) ∧
      (lv.contextFirstChange = 0 → lv.segmentFirstChange = 0 → lv.virtualFirstChange = 0 →
        nv.addrContext = lv.addrContext ∧ nv.addrSegment = lv.addrSegment ∧
          nv.addrVirtual = lv.addrVirtual ∧ lv.rangeCheck = nv.timestamp - lv.timestamp) := by
  have h1 := h.segment_context; have h2 := h.virtual_context; have h3 := h.virtual_segment
  have h4 := h.unchanged_context; have h5 := h.unchanged_segment
  have h6 := h.unchanged_virtual; have h7 := h.rangeCheck_valid
  rintro (⟨hc, hs, hv⟩ | ⟨hc, hs, hv⟩ | ⟨hc, hs, hv⟩ | ⟨hc, hs, hv⟩) <;>
    simp only [hc, hs, hv] at h1 h2 h3 h4 h5 h6 h7 ⊢ <;>
    norm_num at h1 h2 h3 h4 h5 h6 h7 ⊢
  · linear_combination h7
  · exact ⟨by linear_combination h1, by linear_combination h7⟩
  · exact ⟨by linear_combination h2, by linear_combination h3, by linear_combination h7⟩
  · exact ⟨by linear_combination h4, by linear_combination h5, by linear_combination h6,
      by linear_combination h7⟩

/-! ### Counting without wrapping around -/

section Wrap

variable (p : ℕ) [CharP F p]

lemma natCast_ne_zero_of_lt {n : ℕ} (h0 : 0 < n) (hn : n < p) : (n : F) ≠ 0 := by
  rw [Ne, CharP.cast_eq_zero_iff F p]
  exact fun hd => absurd (Nat.le_of_dvd h0 hd) (by omega)

lemma exists_sum_of_steps {x : ℕ → F} {P : ℕ → Prop} {N i j : ℕ}
    (hstep : ∀ m, i ≤ m → m < j → ∃ d ≤ N, x (m + 1) = x m + d ∧ (P m → 0 < d)) :
    ∀ k, i + k ≤ j → ∃ D ≤ k * N, x (i + k) = x i + D ∧ ∀ m, i ≤ m → m < i + k → P m → 0 < D
  | 0, _ => ⟨0, by simp, by simp, fun m h1 h2 => by omega⟩
  | k + 1, hk => by
    obtain ⟨D, hD, hx, hP⟩ := exists_sum_of_steps hstep k (by omega)
    obtain ⟨d, hd, hxd, hPd⟩ := hstep (i + k) (by omega) (by omega)
    refine ⟨D + d, by rw [Nat.succ_mul]; omega, by rw [← add_assoc, hxd, hx]; push_cast; ring,
      fun m h1 h2 hm => ?_⟩
    rcases Nat.lt_or_ge m (i + k) with h | h
    · exact Nat.lt_of_lt_of_le (hP m h1 h hm) (Nat.le_add_right _ _)
    · obtain rfl : m = i + k := by omega
      exact Nat.lt_of_lt_of_le (hPd hm) (Nat.le_add_left _ _)

/-- **No wrap-around.** Steps of at most `N` that come back to the start in characteristic
`p > (j - i) * N` take no marked step. -/
lemma not_marked_of_eq {x : ℕ → F} {P : ℕ → Prop} {N i j : ℕ} (hp : (j - i) * N < p)
    (hstep : ∀ m, i ≤ m → m < j → ∃ d ≤ N, x (m + 1) = x m + d ∧ (P m → 0 < d))
    (hij : i ≤ j) (heq : x j = x i) : ∀ m, i ≤ m → m < j → ¬ P m := by
  obtain ⟨D, hD, hx, hP⟩ := exists_sum_of_steps hstep (j - i) (by omega)
  rw [Nat.add_sub_cancel' hij, heq, self_eq_add_right, CharP.cast_eq_zero_iff F p] at hx
  have hD0 : D = 0 := Nat.eq_zero_of_dvd_of_lt hx (by omega)
  intro m h1 h2 hm
  have := hP m h1 (by omega) hm
  omega

end Wrap

/-! ### The assignment -/

section Assignment

variable (p : ℕ) [CharP F p] {sg : SegmentIds} {N : ℕ} {t : ℕ → MemoryColumnsView F}

lemma counter_eq (hc : ConstraintsHold sg N t) : ∀ j < N, (t j).counter = j
  | 0, h => by simpa using (constraintsHold_iff.mp hc).2.2 h
  | j + 1, h => by
    have := ((constraintsHold_iff.mp hc).2.1 j h).counter_step
    rw [counter_eq hc j (by omega)] at this
    push_cast
    linear_combination this

lemma transition_facts (hp : 2 * N * (N + 1) < p) (hc : ConstraintsHold sg N t)
    (hl : RangeCheckLookupHolds N t) {m : ℕ} (hm : m + 1 < N) :
    ∃ r < N, (t m).rangeCheck = r ∧ FirstChange (t m) ∧
      TransitionConstraints sg (t m) (t (m + 1)) := by
  obtain ⟨hr, ht, -⟩ := constraintsHold_iff.mp hc
  obtain ⟨r, hr', hrc⟩ := (hl m (by omega)).1
  refine ⟨r, hr', by rw [hrc, counter_eq hc r hr'], ?_, ht m hm⟩
  refine firstChange_of_rowConstraints (hr m (by omega)) ?_ ?_
  · exact_mod_cast natCast_ne_zero_of_lt p (n := 2) (by norm_num) (by nlinarith)
  · exact_mod_cast natCast_ne_zero_of_lt p (n := 3) (by norm_num) (by nlinarith)

lemma no_change_between (hp : 2 * N * (N + 1) < p) (hc : ConstraintsHold sg N t)
    (hl : RangeCheckLookupHolds N t) {i j : ℕ} (hij : i ≤ j) (hj : j < N)
    (h : (t j).addr = (t i).addr) (m : ℕ) (h1 : i ≤ m) (h2 : m < j) :
    (t m).contextFirstChange = 0 ∧ (t m).segmentFirstChange = 0 ∧
      (t m).virtualFirstChange = 0 := by
  simp only [MemoryColumnsView.addr, Prod.mk.injEq] at h
  have hpN : (j - i) * N < p :=
    calc (j - i) * N ≤ N * N := Nat.mul_le_mul_right _ (by omega)
      _ ≤ 2 * N * (N + 1) := Nat.mul_le_mul (by omega) (by omega)
      _ < p := hp
  have fact := fun m (hm : m < j) => transition_facts p hp hc hl (m := m) (by omega)
  -- the context moves up by `r + 1` at a context change, and stays otherwise
  have hctx := not_marked_of_eq p hpN (x := fun m => (t m).addrContext)
    (P := fun m => (t m).contextFirstChange = 1) (fun m _ hm => by
      obtain ⟨r, hr, hrc, hf, ht⟩ := fact m hm
      have hs := transitionConstraints_step ht hf
      rcases hf with ⟨hc, -, -⟩ | ⟨hc, hs', -⟩ | ⟨hc, -, hv⟩ | ⟨hc, hs', hv⟩
      · exact ⟨r + 1, hr, by push_cast; linear_combination (hs.1 hc).symm.trans hrc,
          fun _ => by omega⟩
      · exact ⟨0, by omega, by simp [(hs.2.1 hs').1], fun h => by simp [hc] at h⟩
      · exact ⟨0, by omega, by simp [(hs.2.2.1 hv).1], fun h => by simp [hc] at h⟩
      · exact ⟨0, by omega, by simp [(hs.2.2.2 hc hs' hv).1], fun h => by simp [hc] at h⟩)
    hij h.1
  -- with the context fixed, the segment moves up by `r + 1` at a segment change
  have hseg := not_marked_of_eq p hpN (x := fun m => (t m).addrSegment)
    (P := fun m => (t m).segmentFirstChange = 1) (fun m h1 hm => by
      obtain ⟨r, hr, hrc, hf, ht⟩ := fact m hm
      have hs := transitionConstraints_step ht hf
      rcases hf with ⟨hc, -, -⟩ | ⟨-, hs', -⟩ | ⟨hc, hs', hv⟩ | ⟨hc, hs', hv⟩
      · exact absurd hc (hctx m h1 hm)
      · exact ⟨r + 1, hr, by push_cast; linear_combination (hs.2.1 hs').2.symm.trans hrc,
          fun _ => by omega⟩
      · exact ⟨0, by omega, by simp [(hs.2.2.1 hv).2.1], fun h => by simp [hs'] at h⟩
      · exact ⟨0, by omega, by simp [(hs.2.2.2 hc hs' hv).2.1], fun h => by simp [hs'] at h⟩)
    hij h.2.1
  -- with both fixed, the virtual address moves up by `r + 1` at a virtual change
  have hvirt := not_marked_of_eq p hpN (x := fun m => (t m).addrVirtual)
    (P := fun m => (t m).virtualFirstChange = 1) (fun m h1 hm => by
      obtain ⟨r, hr, hrc, hf, ht⟩ := fact m hm
      have hs := transitionConstraints_step ht hf
      rcases hf with ⟨hc, -, -⟩ | ⟨-, hs', -⟩ | ⟨-, -, hv⟩ | ⟨hc, hs', hv⟩
      · exact absurd hc (hctx m h1 hm)
      · exact absurd hs' (hseg m h1 hm)
      · exact ⟨r + 1, hr, by push_cast; linear_combination (hs.2.2.1 hv).2.2.symm.trans hrc,
          fun _ => by omega⟩
      · exact ⟨0, by omega, by simp [(hs.2.2.2 hc hs' hv).2.2.1], fun h => by simp [hv] at h⟩)
    hij h.2.2
  obtain ⟨-, -, -, hf, -⟩ := fact m h2
  rcases hf with ⟨hc, -, -⟩ | ⟨-, hs, -⟩ | ⟨-, -, hv⟩ | ⟨hc, hs, hv⟩
  · exact absurd hc (hctx m h1 h2)
  · exact absurd hs (hseg m h1 h2)
  · exact absurd hv (hvirt m h1 h2)
  · exact ⟨hc, hs, hv⟩

lemma addr_succ_of_no_change {m : ℕ} (h : TransitionConstraints sg (t m) (t (m + 1)))
    (hf : (t m).contextFirstChange = 0 ∧ (t m).segmentFirstChange = 0 ∧
      (t m).virtualFirstChange = 0) : (t (m + 1)).addr = (t m).addr := by
  obtain ⟨hc, hs, hv⟩ := hf
  obtain ⟨h1, h2, h3, -⟩ := (transitionConstraints_step h (.unchanged hc hs hv)).2.2.2 hc hs hv
  simp [MemoryColumnsView.addr, h1, h2, h3]

/-- The memory log an assignment spells out is consistent: dummy rows are reads, the rows of
one address form one run, a read inside a run repeats the limbs of the row before it, and a read
that starts a run after row `0`, outside the preinitialized segments, reads zero. -/
structure MemoryConsistent (sg : SegmentIds) (N : ℕ) (t : ℕ → MemoryColumnsView F) : Prop where
  dummy_read : ∀ i < N, (t i).filter = 0 → (t i).isRead = 1
  one_run : ∀ i j k, i ≤ k → k ≤ j → j < N → (t j).addr = (t i).addr → (t k).addr = (t i).addr
  read_repeats : ∀ i, i + 1 < N → (t (i + 1)).addr = (t i).addr → (t (i + 1)).isRead = 1 →
    (t (i + 1)).valueLimbs = (t i).valueLimbs
  first_read_zero : ∀ i, i + 1 < N → (t (i + 1)).addr ≠ (t i).addr → (t (i + 1)).isRead = 1 →
    (t (i + 1)).addrSegment ≠ sg.code → (t (i + 1)).addrSegment ≠ sg.trieData →
    (t (i + 1)).addrSegment ≠ sg.accountsLinkedList →
    (t (i + 1)).addrSegment ≠ sg.storageLinkedList → (t (i + 1)).valueLimbs = 0

/-- **Memory consistency.** An assignment that meets every constraint and the range-check
lookup, in characteristic `p > 2N(N+1)`, spells out a consistent memory log. -/
theorem memory_consistency (sg : SegmentIds) (N : ℕ) (t : ℕ → MemoryColumnsView F)
    (hp : 2 * N * (N + 1) < p) (hc : ConstraintsHold sg N t) (hl : RangeCheckLookupHolds N t) :
    MemoryConsistent sg N t := by
  obtain ⟨hr, ht, -⟩ := constraintsHold_iff.mp hc
  refine ⟨fun i hi h0 => ?_, fun i j k hik hkj hj h => ?_, fun i hi h hread => ?_,
    fun i hi h hread h1 h2 h3 h4 => ?_⟩
  · -- a dummy row is a read
    have := (hr i hi).dummy_read
    rw [h0, sub_zero, one_mul, sub_eq_zero] at this
    exact this.symm
  · -- one run per address
    induction k, hik using Nat.le_induction with
    | base => rfl
    | succ k hik ih =>
      rw [addr_succ_of_no_change (ht k (by omega))
        (no_change_between p hp hc hl (by omega) hj h k hik (by omega)), ih (by omega)]
  · -- read consistency
    obtain ⟨hc0, hs0, hv0⟩ := no_change_between p hp hc hl (Nat.le_succ i) hi h i le_rfl
      (Nat.lt_succ_self i)
    funext l
    have := (ht i hi).read_limbs l
    rw [hread, hc0, hs0, hv0] at this
    simpa [sub_eq_zero] using this
  · -- zero initialization
    obtain ⟨-, -, -, hf, htr⟩ := transition_facts p hp hc hl hi
    have hchanged : (t i).contextFirstChange + (t i).segmentFirstChange +
        (t i).virtualFirstChange = 1 := by
      rcases hf with ⟨hc, hs, hv⟩ | ⟨hc, hs, hv⟩ | ⟨hc, hs, hv⟩ | ⟨hc, hs, hv⟩ <;>
        simp only [hc, hs, hv] <;> norm_num
      exact absurd (addr_succ_of_no_change htr ⟨hc, hs, hv⟩) h
    have hps : (t i).preinitializedSegments ≠ 0 := by
      rw [sub_eq_zero.mp htr.preinitializedSegments_valid,
        sub_eq_zero.mp htr.preinitializedSegmentsAux_valid]
      exact mul_ne_zero (mul_ne_zero (sub_ne_zero.mpr h1) (sub_ne_zero.mpr h2))
        (mul_ne_zero (sub_ne_zero.mpr h3) (sub_ne_zero.mpr h4))
    have hinit : (t i).initializeAux = (t i).preinitializedSegments := by
      have := htr.initializeAux_valid
      rw [hread] at this
      linear_combination this + (t i).preinitializedSegments * hchanged
    funext l
    have := htr.zero_init_limbs l
    rw [hinit] at this
    exact (mul_eq_zero.mp this).resolve_left hps

end Assignment

/-- Zero written at `(0, 0, 0)` at timestamp `0` and read back at timestamp `1`. -/
def writeThenRead : ℕ → MemoryColumnsView (ZMod goldilocks)
  | 0 => { MemoryColumnsView.default with
      filter := 1, rangeCheck := 1, preinitializedSegmentsAux := 6 }
  | _ => { MemoryColumnsView.default with
      filter := 1, isRead := 1, timestamp := 1, timestampInv := 1, counter := 1 }

theorem memory_consistency_writeThenRead :
    2 * 2 * (2 + 1) < goldilocks ∧ ConstraintsHold ⟨0, 1, 2, 3⟩ 2 writeThenRead ∧
      RangeCheckLookupHolds 2 writeThenRead ∧ MemoryConsistent ⟨0, 1, 2, 3⟩ 2 writeThenRead :=
  have hp : 2 * 2 * (2 + 1) < goldilocks := by unfold goldilocks; norm_num
  have hc : ConstraintsHold ⟨0, 1, 2, 3⟩ 2 writeThenRead := by decide
  have hl : RangeCheckLookupHolds 2 writeThenRead := by decide
  ⟨hp, hc, hl, memory_consistency goldilocks _ 2 writeThenRead hp hc hl⟩

end ZkEvm.Memory.Soundness
