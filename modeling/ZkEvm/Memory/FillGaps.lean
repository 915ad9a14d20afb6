import Mathlib.Algebra.Order.Group.Nat
import ZkEvm.Memory.Ops

/-!
`MemoryStark::fill_gaps` and `MemoryStark::pad_memory_ops`: the dummy reads the generator adds
so that every difference the table range-checks is below the trace length.

`fill_gaps` walks the windows `(curr, next)` of the sorted log and pushes the dummy reads of
one of three loops for each. In key order the dummies of a window sit between its two ends, so
the sorted result is `expand`: the log with every window filled in. A loop is a run of its
body, and a property of consecutive operations holds along a run when the body keeps an
invariant and relates each state to the one it makes (`chain_virtualDummies` and its two
companions); each property of the filled log is one such invariant per loop.
-/

namespace ZkEvm.Memory.FillGaps

open ZkEvm.Memory.Columns ZkEvm.Memory.Ops MemoryOp

/-! ### `next_power_of_two` -/

lemma le_nextPowerOfTwo_go (n : ℕ) :
    ∀ power h, n ≤ Nat.nextPowerOfTwo.go n power h ∧ power ≤ Nat.nextPowerOfTwo.go n power h := by
  intro power h
  induction power, h using Nat.nextPowerOfTwo.go.induct n with
  | case1 power h hlt ih => rw [Nat.nextPowerOfTwo.go, if_pos hlt]; omega
  | case2 power h hge => rw [Nat.nextPowerOfTwo.go, if_neg hge]; omega

lemma nextPowerOfTwo_go_le {n k : ℕ} (hk : k.isPowerOfTwo) (hn : n ≤ k) :
    ∀ power h, power.isPowerOfTwo → power ≤ k → Nat.nextPowerOfTwo.go n power h ≤ k := by
  intro power h
  induction power, h using Nat.nextPowerOfTwo.go.induct n with
  | case1 power h hlt ih =>
    rintro ⟨a, rfl⟩ _
    obtain ⟨b, rfl⟩ := hk
    rw [Nat.nextPowerOfTwo.go, if_pos hlt]
    have hab : a < b := (Nat.pow_lt_pow_iff_right (by norm_num : 1 < 2)).mp (by omega)
    exact ih ⟨a + 1, pow_succ 2 a⟩ (pow_succ 2 a ▸ Nat.pow_le_pow_right (by norm_num) hab)
  | case2 power h hge => intro _ hpk; rw [Nat.nextPowerOfTwo.go, if_neg hge]; exact hpk

lemma le_nextPowerOfTwo (n : ℕ) : n ≤ n.nextPowerOfTwo := (le_nextPowerOfTwo_go n 1 _).1

lemma nextPowerOfTwo_le {n k : ℕ} (hk : k.isPowerOfTwo) (hn : n ≤ k) : n.nextPowerOfTwo ≤ k :=
  nextPowerOfTwo_go_le hk hn 1 _ Nat.one_isPowerOfTwo (Nat.pos_of_isPowerOfTwo hk)

lemma nextPowerOfTwo_mono {n k : ℕ} (h : n ≤ k) : n.nextPowerOfTwo ≤ k.nextPowerOfTwo :=
  nextPowerOfTwo_le (Nat.isPowerOfTwo_nextPowerOfTwo k) (h.trans (le_nextPowerOfTwo k))

lemma nextPowerOfTwo_pos (n : ℕ) : 0 < n.nextPowerOfTwo :=
  Nat.pos_of_isPowerOfTwo (Nat.isPowerOfTwo_nextPowerOfTwo n)

/-! ### The three loops -/

section Loops

variable (maxRc : ℕ)

/-- The body of the loop at a change of context or segment: a dummy read `max_rc` below
`next`, at `timestamp + 1`. -/
def contextDummy (timestamp : ℕ) (next : MemoryAddress) : MemoryOp :=
  newDummyRead { next with virt := next.virt - maxRc } (timestamp + 1) 0

/-- The loop at a change of context or segment, in push order: each dummy becomes the new
`next`, until `next`'s virtual address is at most `max_rc`. -/
def contextDummies (hm : 0 < maxRc) (timestamp : ℕ) (next : MemoryAddress) : List MemoryOp :=
  if maxRc < next.virt then
    contextDummy maxRc timestamp next ::
      contextDummies hm timestamp (contextDummy maxRc timestamp next).address
  else []
termination_by next.virt
decreasing_by simp [contextDummy]; omega

/-- The body of the loop at a change of virtual address: a dummy read `max_rc + 1` above
`curr`, one timestamp later. -/
def virtualDummy (curr : MemoryOp) : MemoryOp :=
  newDummyRead { curr.address with virt := curr.address.virt + (maxRc + 1) }
    (curr.timestamp + 1) 0

/-- The loop at a change of virtual address: each dummy becomes the new `curr`, until the gap
to `next_virt` is at most `max_rc`. -/
def virtualDummies (curr : MemoryOp) (nextVirt : ℕ) : List MemoryOp :=
  if maxRc < nextVirt - curr.address.virt - 1 then
    virtualDummy maxRc curr :: virtualDummies (virtualDummy maxRc curr) nextVirt
  else []
termination_by nextVirt - curr.address.virt
decreasing_by simp [virtualDummy]; omega

/-- The body of the loop at one address: a dummy read `max_rc` later, with `curr`'s value. -/
def timestampDummy (curr : MemoryOp) : MemoryOp :=
  newDummyRead curr.address (curr.timestamp + maxRc) curr.value

/-- The loop at one address: each dummy becomes the new `curr`, until the gap to
`next_timestamp` is at most `max_rc`. -/
def timestampDummies (hm : 0 < maxRc) (curr : MemoryOp) (nextTimestamp : ℕ) : List MemoryOp :=
  if maxRc < nextTimestamp - curr.timestamp then
    timestampDummy maxRc curr :: timestampDummies hm (timestampDummy maxRc curr) nextTimestamp
  else []
termination_by nextTimestamp - curr.timestamp
decreasing_by simp [timestampDummy]; omega

/-- The dummies `fill_gaps` pushes for the window `(curr, next)`, in push order. -/
def gapDummies (hm : 0 < maxRc) (curr next : MemoryOp) : List MemoryOp :=
  if curr.address.context ≠ next.address.context ∨
      curr.address.segment ≠ next.address.segment then
    contextDummies maxRc hm curr.timestamp next.address
  else if curr.address.virt ≠ next.address.virt then
    virtualDummies maxRc curr next.address.virt
  else timestampDummies maxRc hm curr next.timestamp

/-- The dummies of every window of `ops`, in push order. -/
def windowsDummies (hm : 0 < maxRc) : List MemoryOp → List MemoryOp
  | curr :: next :: rest => gapDummies maxRc hm curr next ++ windowsDummies hm (next :: rest)
  | _ => []

end Loops

/-! ### `fill_gaps` and `pad_memory_ops` -/

/-- The read `fill_gaps` inserts at index `0`. -/
def zeroAddressRead : MemoryOp := ⟨false, 1, ⟨0, 0, 0⟩, .read, 0⟩

/-- The log with `zeroAddressRead` first when the first virtual address is not `0`. -/
def withFirstRead : List MemoryOp → List MemoryOp
  | [] => []
  | first :: rest =>
    if first.address.virt ≠ 0 then zeroAddressRead :: first :: rest else first :: rest

/-- `MemoryStark::fill_gaps`, on a log sorted by key. Indexing the first operation of an empty
log panics. -/
def fillGaps (memoryOps : List MemoryOp) : Except String (List MemoryOp) :=
  if memoryOps = [] then .error "index out of bounds: the len is 0 but the index is 0" else
  let memoryOps := withFirstRead memoryOps
  let maxRc := memoryOps.length.nextPowerOfTwo - 1
  -- `max_rc` is `0` only for a single operation, which has no window
  if hm : 0 < maxRc then .ok (memoryOps ++ windowsDummies maxRc hm memoryOps) else .ok memoryOps

/-- The operation `pad_memory_ops` repeats: an inactive read one cell and one timestamp after
the last operation. -/
def paddingOp (lastOp : MemoryOp) : MemoryOp :=
  ⟨false, lastOp.timestamp + 1, { lastOp.address with virt := lastOp.address.virt + 1 }, .read, 0⟩

/-- `MemoryStark::pad_memory_ops`: at least one padding operation, up to a power of two. -/
def padMemoryOps (memoryOps : List MemoryOp) : Except String (List MemoryOp) :=
  match memoryOps.getLast? with
  | none => .error "No memory ops?"
  | some lastOp =>
    let numOps := memoryOps.length
    let numOpsPadded := (numOps + 1).nextPowerOfTwo
    .ok (memoryOps ++ List.replicate (numOpsPadded - numOps) (paddingOp lastOp))

/-- The operations `generate_trace_row_major` turns into rows, with `unpadded_length`. -/
def sortedPaddedOps (memoryOps : List MemoryOp) : Except String (List MemoryOp × ℕ) := do
  let memoryOps := sortByKey memoryOps
  let memoryOps ← fillGaps memoryOps
  let unpaddedLength := memoryOps.length
  let memoryOps := sortByKey memoryOps
  let memoryOps ← padMemoryOps memoryOps
  pure (sortByKey memoryOps, unpaddedLength)

/-- Every `usize` subtraction `fill_gaps` makes for the window `(curr, next)` has its minuend
at least its subtrahend, and every sum it makes is below `2⁶⁴`. The states of a loop are `curr`
and the dummies it makes; the one subtraction of the loop at a change of context or segment is
under its guard. -/
def WindowInBounds (maxRc : ℕ) (hm : 0 < maxRc) (curr next : MemoryOp) : Prop :=
  if curr.address.context ≠ next.address.context ∨
      curr.address.segment ≠ next.address.segment then
    curr.timestamp + 1 < 2 ^ 64
  else if curr.address.virt ≠ next.address.virt then
    ∀ c ∈ curr :: virtualDummies maxRc curr next.address.virt,
      c.address.virt + 1 ≤ next.address.virt ∧ c.address.virt + (maxRc + 1) < 2 ^ 64 ∧
        c.timestamp + 1 < 2 ^ 64
  else
    ∀ c ∈ curr :: timestampDummies maxRc hm curr next.timestamp,
      c.timestamp ≤ next.timestamp ∧ c.timestamp + maxRc < 2 ^ 64

/-- `fill_gaps` computes within `usize` on a sorted log: the `next_power_of_two` of the length
it walks does not overflow, and every window is in bounds. -/
def FillGapsInBounds (memoryOps : List MemoryOp) : Prop :=
  (withFirstRead memoryOps).length ≤ 2 ^ 63 ∧
    ∀ hm : 0 < (withFirstRead memoryOps).length.nextPowerOfTwo - 1,
      (withFirstRead memoryOps).Chain'
        (WindowInBounds ((withFirstRead memoryOps).length.nextPowerOfTwo - 1) hm)

/-! ### The filled log in key order -/

section Expand

variable (maxRc : ℕ)

/-- The dummies of the window `(curr, next)` in key order: the loop at a change of context or
segment pushes them downward. -/
def sortedGapDummies (hm : 0 < maxRc) (curr next : MemoryOp) : List MemoryOp :=
  if curr.address.context ≠ next.address.context ∨
      curr.address.segment ≠ next.address.segment then
    (contextDummies maxRc hm curr.timestamp next.address).reverse
  else gapDummies maxRc hm curr next

/-- The log with the dummies of each window between its two ends. -/
def expand (hm : 0 < maxRc) : List MemoryOp → List MemoryOp
  | curr :: next :: rest =>
    curr :: (sortedGapDummies maxRc hm curr next ++ expand hm (next :: rest))
  | ops => ops

end Expand

/-- What `fill_gaps` leaves of the list it walks, in key order. -/
def filled (ops : List MemoryOp) : List MemoryOp :=
  if hm : 0 < ops.length.nextPowerOfTwo - 1 then expand _ hm ops else ops

/-! ### Steps of a sorted log -/

/-- `next` follows `curr` within the range `generate_first_change_flags_and_rc` checks: the
first of context, segment and virtual address that changes grows by at most `max_rc + 1`, at
one address the timestamp grows by at most `max_rc`, and after a change of context or segment
the virtual address is at most `max_rc`. -/
def InRange (maxRc : ℕ) (curr next : MemoryOp) : Prop :=
  if curr.address.context ≠ next.address.context then
    curr.address.context < next.address.context ∧
      next.address.context ≤ curr.address.context + maxRc + 1 ∧ next.address.virt ≤ maxRc
  else if curr.address.segment ≠ next.address.segment then
    curr.address.segment < next.address.segment ∧
      next.address.segment ≤ curr.address.segment + maxRc + 1 ∧ next.address.virt ≤ maxRc
  else if curr.address.virt ≠ next.address.virt then
    curr.address.virt < next.address.virt ∧ next.address.virt ≤ curr.address.virt + maxRc + 1
  else curr.timestamp ≤ next.timestamp ∧ next.timestamp ≤ curr.timestamp + maxRc

/-- A read at an address nothing has written to sees `0`, outside the preinitialized
segments. -/
def FreshValue (sg : SegmentIds) (r : MemoryOp) : Prop :=
  r.address.segment ∉ sg.preinitializedSegmentsIndices → r.value = 0

/-- A read `r` right after `prev` in key order sees `prev`'s value at `prev`'s address, and a
fresh value at a new one. -/
def Follows (sg : SegmentIds) (prev r : MemoryOp) : Prop :=
  r.kind = .read → if prev.address = r.address then r.value = prev.value else FreshValue sg r

/-- Every read of a key-ordered log carries the value of the operation before it at its
address, and a fresh value when it is the first there. -/
def ReadsSeeWrites (sg : SegmentIds) (log : List MemoryOp) : Prop :=
  (∀ r ∈ log.head?, r.kind = .read → FreshValue sg r) ∧ log.Chain' (Follows sg)

instance (sg : SegmentIds) (r : MemoryOp) : Decidable (FreshValue sg r) :=
  inferInstanceAs (Decidable (r.address.segment ∉ sg.preinitializedSegmentsIndices → r.value = 0))

instance (sg : SegmentIds) (prev r : MemoryOp) : Decidable (Follows sg prev r) :=
  inferInstanceAs (Decidable (r.kind = .read →
    if prev.address = r.address then r.value = prev.value else FreshValue sg r))

instance (sg : SegmentIds) (log : List MemoryOp) : Decidable (ReadsSeeWrites sg log) :=
  inferInstanceAs (Decidable ((∀ r ∈ log.head?, r.kind = .read → FreshValue sg r) ∧
    log.Chain' (Follows sg)))

lemma follows_of_eq {sg : SegmentIds} {prev r : MemoryOp} (heq : prev.address = r.address)
    (hv : r.value = prev.value) : Follows sg prev r :=
  fun _ => by rw [if_pos heq]; exact hv

lemma follows_of_ne_of_zero {sg : SegmentIds} {prev r : MemoryOp} (hne : prev.address ≠ r.address)
    (hv : r.value = 0) : Follows sg prev r :=
  fun _ => by rw [if_neg hne]; exact fun _ => hv

lemma follows_of_ne {sg : SegmentIds} {prev prev' r : MemoryOp} (h : Follows sg prev r)
    (hne : prev.address ≠ r.address) (hne' : prev'.address ≠ r.address) : Follows sg prev' r := by
  simpa [Follows, hne, hne'] using h

/-! ### Runs of the loops -/

section Runs

variable {maxRc : ℕ} {R : MemoryOp → MemoryOp → Prop} {P : MemoryOp → Prop}

lemma chain_contextDummies (hm : 0 < maxRc) (curr : MemoryOp) (timestamp : ℕ)
    (step : ∀ y, P y → maxRc < y.address.virt →
      R (contextDummy maxRc timestamp y.address) y ∧ P (contextDummy maxRc timestamp y.address))
    (exit : ∀ y, P y → ¬ maxRc < y.address.virt → R curr y) (next : MemoryOp) (h : P next) :
    (curr :: (contextDummies maxRc hm timestamp next.address).reverse ++ [next]).Chain' R := by
  obtain ⟨a, ha⟩ : ∃ a, next.address = a := ⟨_, rfl⟩
  induction a using contextDummies.induct maxRc hm timestamp generalizing next with
  | case1 a hv ih =>
    subst ha
    obtain ⟨hr, hp⟩ := step next h hv
    rw [contextDummies, if_pos hv, List.reverse_cons, ← List.cons_append]
    exact (ih _ hp rfl).append (List.chain'_singleton next)
      (by rw [List.getLast?_append]; simpa using hr)
  | case2 a hv =>
    subst ha
    rw [contextDummies, if_neg hv]
    simpa using exit next h hv

lemma chain_virtualDummies (next : MemoryOp)
    (step : ∀ c, P c → maxRc < next.address.virt - c.address.virt - 1 →
      R c (virtualDummy maxRc c) ∧ P (virtualDummy maxRc c))
    (exit : ∀ c, P c → ¬ maxRc < next.address.virt - c.address.virt - 1 → R c next)
    (curr : MemoryOp) (h : P curr) :
    (curr :: virtualDummies maxRc curr next.address.virt ++ [next]).Chain' R := by
  refine virtualDummies.induct maxRc (motive := fun c v => v = next.address.virt → P c →
    (c :: virtualDummies maxRc c v ++ [next]).Chain' R) ?_ ?_ curr _ rfl h
  · rintro c v hg ih rfl hc
    obtain ⟨hr, hp⟩ := step c hc hg
    rw [virtualDummies, if_pos hg]
    exact (ih rfl hp).cons hr
  · rintro c v hg rfl hc
    rw [virtualDummies, if_neg hg]
    simpa using exit c hc hg

lemma chain_timestampDummies (hm : 0 < maxRc) (next : MemoryOp)
    (step : ∀ c, P c → maxRc < next.timestamp - c.timestamp →
      R c (timestampDummy maxRc c) ∧ P (timestampDummy maxRc c))
    (exit : ∀ c, P c → ¬ maxRc < next.timestamp - c.timestamp → R c next)
    (curr : MemoryOp) (h : P curr) :
    (curr :: timestampDummies maxRc hm curr next.timestamp ++ [next]).Chain' R := by
  refine timestampDummies.induct maxRc hm (motive := fun c t => t = next.timestamp → P c →
    (c :: timestampDummies maxRc hm c t ++ [next]).Chain' R) ?_ ?_ curr _ rfl h
  · rintro c t hg ih rfl hc
    obtain ⟨hr, hp⟩ := step c hc hg
    rw [timestampDummies, if_pos hg]
    exact (ih rfl hp).cons hr
  · rintro c t hg rfl hc
    rw [timestampDummies, if_neg hg]
    simpa using exit c hc hg

lemma forall_mem_contextDummies (hm : 0 < maxRc) (timestamp : ℕ) {Q : MemoryOp → Prop}
    {P : MemoryAddress → Prop} (step : ∀ a, P a → maxRc < a.virt →
      Q (contextDummy maxRc timestamp a) ∧ P (contextDummy maxRc timestamp a).address) :
    ∀ a, P a → ∀ d ∈ contextDummies maxRc hm timestamp a, Q d := by
  intro a
  induction a using contextDummies.induct maxRc hm timestamp with
  | case1 a hv ih =>
    intro ha d hd
    rw [contextDummies, if_pos hv, List.mem_cons] at hd
    obtain ⟨hq, hp⟩ := step a ha hv
    rcases hd with rfl | hd
    exacts [hq, ih hp d hd]
  | case2 a hv => intro _ d hd; rw [contextDummies, if_neg hv] at hd; cases hd

lemma forall_mem_virtualDummies (nextVirt : ℕ) {Q : MemoryOp → Prop}
    (step : ∀ c, P c → maxRc < nextVirt - c.address.virt - 1 →
      Q (virtualDummy maxRc c) ∧ P (virtualDummy maxRc c)) :
    ∀ c, P c → ∀ d ∈ virtualDummies maxRc c nextVirt, Q d := fun c => by
  refine virtualDummies.induct maxRc (motive := fun c v => v = nextVirt → P c →
    ∀ d ∈ virtualDummies maxRc c v, Q d) ?_ ?_ c _ rfl
  · rintro c v hg ih rfl hc d hd
    rw [virtualDummies, if_pos hg, List.mem_cons] at hd
    obtain ⟨hq, hp⟩ := step c hc hg
    rcases hd with rfl | hd
    exacts [hq, ih rfl hp d hd]
  · rintro c v hg rfl _ d hd
    rw [virtualDummies, if_neg hg] at hd
    cases hd

lemma forall_mem_timestampDummies (hm : 0 < maxRc) (nextTimestamp : ℕ) {Q : MemoryOp → Prop}
    (step : ∀ c, P c → maxRc < nextTimestamp - c.timestamp →
      Q (timestampDummy maxRc c) ∧ P (timestampDummy maxRc c)) :
    ∀ c, P c → ∀ d ∈ timestampDummies maxRc hm c nextTimestamp, Q d := fun c => by
  refine timestampDummies.induct maxRc hm (motive := fun c t => t = nextTimestamp → P c →
    ∀ d ∈ timestampDummies maxRc hm c t, Q d) ?_ ?_ c _ rfl
  · rintro c t hg ih rfl hc d hd
    rw [timestampDummies, if_pos hg, List.mem_cons] at hd
    obtain ⟨hq, hp⟩ := step c hc hg
    rcases hd with rfl | hd
    exacts [hq, ih rfl hp d hd]
  · rintro c t hg rfl _ d hd
    rw [timestampDummies, if_neg hg] at hd
    cases hd

end Runs


/-! ### One window -/

section Window

variable {maxRc : ℕ} (hm : 0 < maxRc) {curr next : MemoryOp}

lemma ne_of_virt_ne {a b : MemoryAddress} (h : a.virt ≠ b.virt) : a ≠ b :=
  fun hab => h (congrArg MemoryAddress.virt hab)

lemma chain_gap_inRange (h : KeyLt curr next) (hc : next.address.context ≤ maxRc)
    (hs : next.address.segment ≤ maxRc) :
    (curr :: sortedGapDummies maxRc hm curr next ++ [next]).Chain'
      (fun x y => KeyLt x y ∧ InRange maxRc x y) := by
  unfold sortedGapDummies gapDummies KeyLt at *
  split_ifs with h₁ h₂
  · refine chain_contextDummies hm curr _ (P := fun y => y.address.context =
      next.address.context ∧ y.address.segment = next.address.segment) ?_ ?_ next ⟨rfl, rfl⟩
    · rintro y ⟨hyc, hys⟩ hv
      simp only [contextDummy, newDummyRead, KeyLt, InRange, true_and]
      split_ifs <;> omega
    · rintro y ⟨hyc, hys⟩ hv
      simp only [KeyLt, InRange]
      split_ifs <;> omega
  · refine chain_virtualDummies next (P := fun c => c.address.context = next.address.context ∧
      c.address.segment = next.address.segment ∧ c.address.virt < next.address.virt) ?_ ?_
      curr (by omega)
    · rintro c ⟨hcc, hcs, hcv⟩ hg
      simp only [virtualDummy, newDummyRead, KeyLt, InRange, true_and]
      split_ifs <;> omega
    · rintro c ⟨hcc, hcs, hcv⟩ hg
      simp only [KeyLt, InRange]
      split_ifs <;> omega
  · refine chain_timestampDummies hm next (P := fun c => c.address.context =
      next.address.context ∧ c.address.segment = next.address.segment ∧
      c.address.virt = next.address.virt ∧ c.timestamp < next.timestamp) ?_ ?_ curr (by omega)
    · rintro c ⟨hcc, hcs, hcv, hct⟩ hg
      simp only [timestampDummy, newDummyRead, KeyLt, InRange, true_and]
      split_ifs <;> omega
    · rintro c ⟨hcc, hcs, hcv, hct⟩ hg
      simp only [KeyLt, InRange]
      split_ifs <;> omega

lemma chain_gap_follows {sg : SegmentIds} (h : KeyLt curr next) (hf : Follows sg curr next) :
    (curr :: sortedGapDummies maxRc hm curr next ++ [next]).Chain' (Follows sg) := by
  unfold sortedGapDummies gapDummies
  split_ifs with h₁ h₂
  · have hne : ∀ y : MemoryOp, y.address.context = next.address.context →
        y.address.segment = next.address.segment → curr.address ≠ y.address := by
      intro y hyc hys heq
      have := congrArg MemoryAddress.context heq
      have := congrArg MemoryAddress.segment heq
      omega
    refine chain_contextDummies hm curr _ (P := fun y => y.address.context =
      next.address.context ∧ y.address.segment = next.address.segment ∧ Follows sg curr y)
      ?_ (fun y hy _ => hy.2.2) next ⟨rfl, rfl, hf⟩
    rintro y ⟨hyc, hys, hfy⟩ hv
    have hyd : (contextDummy maxRc curr.timestamp y.address).address ≠ y.address :=
      ne_of_virt_ne (by simp only [contextDummy, newDummyRead]; omega)
    exact ⟨follows_of_ne hfy (hne y hyc hys) hyd, hyc, hys,
      follows_of_ne_of_zero (hne _ hyc hys) rfl⟩
  · refine chain_virtualDummies next (P := fun c => c.address.virt < next.address.virt ∧
      Follows sg c next) ?_ (fun c hc _ => hc.2) curr ⟨by unfold KeyLt at h; omega, hf⟩
    rintro c ⟨hcv, hfc⟩ hg
    have hv : (virtualDummy maxRc c).address.virt < next.address.virt := by
      simp only [virtualDummy, newDummyRead]; omega
    refine ⟨follows_of_ne_of_zero (ne_of_virt_ne ?_) rfl, hv,
      follows_of_ne hfc (ne_of_virt_ne hcv.ne) (ne_of_virt_ne hv.ne)⟩
    simp only [virtualDummy, newDummyRead]; omega
  · refine chain_timestampDummies hm next (P := fun c => c.address = next.address ∧
      Follows sg c next) ?_ (fun c hc _ => hc.2) curr ⟨?_, hf⟩
    · rintro c ⟨hca, hfc⟩ -
      refine ⟨follows_of_eq rfl rfl, hca, fun hr => ?_⟩
      have := hfc hr
      rw [if_pos hca] at this
      rw [if_pos (show (timestampDummy maxRc c).address = next.address from hca)]
      exact this
    · simp only [not_or, not_not] at h₁ h₂
      exact MemoryAddress.ext h₁.1 h₁.2 h₂

/-- A dummy of the window `(curr, next)`: an inactive read after timestamp `0`, at `next`'s
context and segment, at most at its virtual address, and no later than the two ends allow. -/
def DummyOf (curr next d : MemoryOp) : Prop :=
  d.filter = false ∧ d.kind = .read ∧ 0 < d.timestamp ∧
    d.address.context = next.address.context ∧ d.address.segment = next.address.segment ∧
    d.address.virt ≤ next.address.virt ∧
    d.timestamp ≤ curr.timestamp + next.address.virt + next.timestamp

lemma mem_sortedGapDummies {d : MemoryOp} (hd : d ∈ sortedGapDummies maxRc hm curr next) :
    DummyOf curr next d := by
  unfold sortedGapDummies gapDummies at hd
  split_ifs at hd with h₁ h₂
  · rw [List.mem_reverse] at hd
    refine forall_mem_contextDummies hm _ (Q := DummyOf curr next) (P := fun a =>
      a.context = next.address.context ∧ a.segment = next.address.segment ∧
      a.virt ≤ next.address.virt) ?_ _ ⟨rfl, rfl, le_rfl⟩ d hd
    rintro a ⟨hac, has, hav⟩ hv
    simp only [DummyOf, contextDummy, newDummyRead, true_and]
    omega
  · refine forall_mem_virtualDummies next.address.virt (Q := DummyOf curr next) (P := fun c =>
      c.address.context = next.address.context ∧ c.address.segment = next.address.segment ∧
      c.timestamp + curr.address.virt ≤ curr.timestamp + c.address.virt) ?_ curr
      ⟨by omega, by omega, le_rfl⟩ d hd
    rintro c ⟨hcc, hcs, hct⟩ hg
    simp only [DummyOf, virtualDummy, newDummyRead, true_and]
    omega
  · refine forall_mem_timestampDummies hm next.timestamp (Q := DummyOf curr next) (P := fun c =>
      c.address.context = next.address.context ∧ c.address.segment = next.address.segment ∧
      c.address.virt = next.address.virt) ?_ curr ⟨by omega, by omega, by omega⟩ d hd
    rintro c ⟨hcc, hcs, hcv⟩ hg
    simp only [DummyOf, timestampDummy, newDummyRead, true_and]
    omega

lemma windowInBounds (h : KeyLt curr next) (hmr : maxRc < 2 ^ 63)
    (hc : curr.address.virt < 2 ^ 32 ∧ curr.timestamp < 2 ^ 32)
    (hn : next.address.virt < 2 ^ 32 ∧ next.timestamp < 2 ^ 32) :
    WindowInBounds maxRc hm curr next := by
  unfold WindowInBounds
  unfold KeyLt at h
  split_ifs with h₁ h₂
  · omega
  · have key : ∀ c ∈ virtualDummies maxRc curr next.address.virt,
        c.address.virt < next.address.virt ∧
        c.timestamp + curr.address.virt ≤ curr.timestamp + c.address.virt :=
      forall_mem_virtualDummies _ (P := fun c => c.address.virt < next.address.virt ∧
        c.timestamp + curr.address.virt ≤ curr.timestamp + c.address.virt)
        (fun c hc hg => by simp only [virtualDummy, newDummyRead]; omega) curr (by omega)
    intro c hc'
    rcases List.mem_cons.mp hc' with rfl | hc'
    · omega
    · have := key c hc'; omega
  · have key : ∀ c ∈ timestampDummies maxRc hm curr next.timestamp, c.timestamp < next.timestamp :=
      forall_mem_timestampDummies hm _ (P := fun c => c.timestamp < next.timestamp)
        (fun c hc hg => by simp only [timestampDummy, newDummyRead]; omega) curr (by omega)
    intro c hc'
    rcases List.mem_cons.mp hc' with rfl | hc'
    · omega
    · have := key c hc'; omega

end Window


/-! ### The whole log -/

section Whole

variable {maxRc : ℕ} (hm : 0 < maxRc)

lemma sortedGapDummies_perm (curr next : MemoryOp) :
    (sortedGapDummies maxRc hm curr next).Perm (gapDummies maxRc hm curr next) := by
  unfold sortedGapDummies
  split_ifs with h
  · rw [gapDummies, if_pos h]
    exact List.reverse_perm _
  · exact List.Perm.refl _

lemma perm_expand : ∀ ops : List MemoryOp,
    (ops ++ windowsDummies maxRc hm ops).Perm (expand maxRc hm ops)
  | [] => by simp [windowsDummies, expand]
  | [a] => by simp [windowsDummies, expand]
  | a :: b :: rest => by
    rw [windowsDummies, expand]
    exact ((List.perm_append_comm_assoc _ _ _).trans
      ((sortedGapDummies_perm hm a b).symm.append (perm_expand (b :: rest)))).cons a

lemma expand_cons (a : MemoryOp) : ∀ rest, ∃ t, expand maxRc hm (a :: rest) = a :: t
  | [] => ⟨[], rfl⟩
  | _ :: _ => ⟨_, rfl⟩

lemma getLast?_expand : ∀ ops : List MemoryOp, (expand maxRc hm ops).getLast? = ops.getLast?
  | [] => rfl
  | [_] => rfl
  | a :: b :: rest => by
    obtain ⟨t, ht⟩ := expand_cons hm b rest
    have ih := getLast?_expand (b :: rest)
    rw [ht] at ih
    rw [expand, ht, List.getLast?_cons_cons, ← List.cons_append, List.getLast?_append, ih,
      List.getLast?_eq_getLast (b :: rest) (List.cons_ne_nil _ _)]
    rfl

/-- A relation holds along the filled log when it holds along each filled window. -/
lemma chain_expand {R W : MemoryOp → MemoryOp → Prop}
    (hgap : ∀ a b, W a b → (a :: sortedGapDummies maxRc hm a b ++ [b]).Chain' R) :
    ∀ {ops : List MemoryOp}, ops.Chain' W → (expand maxRc hm ops).Chain' R
  | [], _ => List.chain'_nil
  | [_], _ => List.chain'_singleton _
  | a :: b :: rest, h => by
    obtain ⟨t, ht⟩ := expand_cons hm b rest
    have ih := chain_expand hgap (List.chain'_cons.mp h).2
    rw [ht] at ih
    have := (hgap a b (List.chain'_cons.mp h).1).append_overlap (ih : ([b] ++ t).Chain' R)
      (List.cons_ne_nil _ _)
    rw [List.append_assoc] at this
    rw [expand, ht]
    exact this

lemma mem_windowsDummies {d : MemoryOp} : ∀ {ops : List MemoryOp},
    d ∈ windowsDummies maxRc hm ops → ∃ a ∈ ops, ∃ b ∈ ops, d ∈ sortedGapDummies maxRc hm a b
  | [], h => by simp [windowsDummies] at h
  | [_], h => by simp [windowsDummies] at h
  | a :: b :: rest, h => by
    rw [windowsDummies, List.mem_append] at h
    rcases h with h | h
    · exact ⟨a, by simp, b, by simp, (sortedGapDummies_perm hm a b).mem_iff.mpr h⟩
    · obtain ⟨x, hx, y, hy, hd⟩ := mem_windowsDummies h
      exact ⟨x, List.mem_cons_of_mem _ hx, y, List.mem_cons_of_mem _ hy, hd⟩

lemma mem_expand {d : MemoryOp} {ops : List MemoryOp} (h : d ∈ expand maxRc hm ops) :
    d ∈ ops ∨ ∃ a ∈ ops, ∃ b ∈ ops, DummyOf a b d := by
  rcases List.mem_append.mp ((perm_expand hm ops).mem_iff.mpr h) with h | h
  · exact .inl h
  · obtain ⟨a, ha, b, hb, hd⟩ := mem_windowsDummies hm h
    exact .inr ⟨a, ha, b, hb, mem_sortedGapDummies hm hd⟩

end Whole

lemma length_le_one_of_maxRc {ops : List MemoryOp} (h : ¬ 0 < ops.length.nextPowerOfTwo - 1) :
    ops.length ≤ 1 := by
  have := le_nextPowerOfTwo ops.length; omega

lemma chain'_of_length_le_one {R : MemoryOp → MemoryOp → Prop} :
    ∀ {ops : List MemoryOp}, ops.length ≤ 1 → ops.Chain' R
  | [], _ => List.chain'_nil
  | [_], _ => List.chain'_singleton _
  | _ :: _ :: _, h => by simp at h

lemma fillGaps_perm {memoryOps : List MemoryOp} (hne : memoryOps ≠ []) :
    ∃ ops, fillGaps memoryOps = .ok ops ∧ ops.Perm (filled (withFirstRead memoryOps)) := by
  unfold fillGaps filled
  rw [if_neg hne]
  dsimp only
  split_ifs with hm
  · exact ⟨_, rfl, perm_expand hm _⟩
  · exact ⟨_, rfl, List.Perm.refl _⟩

lemma chain_filled {R W : MemoryOp → MemoryOp → Prop} {ops : List MemoryOp}
    (hgap : ∀ hm a b, W a b →
      (a :: sortedGapDummies (ops.length.nextPowerOfTwo - 1) hm a b ++ [b]).Chain' R)
    (h : ops.Chain' W) : (filled ops).Chain' R := by
  unfold filled
  split_ifs with hm
  · exact chain_expand hm (hgap hm) h
  · exact chain'_of_length_le_one (length_le_one_of_maxRc hm)

lemma length_le_filled (ops : List MemoryOp) : ops.length ≤ (filled ops).length := by
  unfold filled
  split_ifs with hm
  · rw [← (perm_expand hm ops).length_eq, List.length_append]; omega
  · exact le_rfl

lemma getLast?_filled (ops : List MemoryOp) : (filled ops).getLast? = ops.getLast? := by
  unfold filled
  split_ifs with hm
  exacts [getLast?_expand hm ops, rfl]

lemma mem_filled {d : MemoryOp} {ops : List MemoryOp} (h : d ∈ filled ops) :
    d ∈ ops ∨ ∃ a ∈ ops, ∃ b ∈ ops, DummyOf a b d := by
  unfold filled at h
  split_ifs at h with hm
  exacts [mem_expand hm h, .inl h]


/-! ### Sorting, filling and padding -/

lemma mem_withFirstRead {x : MemoryOp} {ops : List MemoryOp} (h : x ∈ withFirstRead ops) :
    x = zeroAddressRead ∨ x ∈ ops := by
  unfold withFirstRead at h
  split at h
  · cases h
  · split_ifs at h
    · simpa using h
    · exact .inr h

lemma head?_withFirstRead_virt {ops : List MemoryOp} :
    ∀ x ∈ (withFirstRead ops).head?, x.address.virt = 0 := by
  unfold withFirstRead
  split
  · simp
  · split_ifs with h <;> simp_all [zeroAddressRead]

lemma chain_withFirstRead {ops : List MemoryOp} (h : ops.Chain' KeyLt) :
    (withFirstRead ops).Chain' KeyLt := by
  unfold withFirstRead
  split
  · exact List.chain'_nil
  · split_ifs with hv
    · exact h.cons (by simp only [zeroAddressRead, KeyLt]; omega)
    · exact h

lemma le_of_mem_of_getLast? {ops : List MemoryOp} {x last : MemoryOp} (h : ops.Pairwise KeyLt)
    (hl : ops.getLast? = some last) (hx : x ∈ ops) : x = last ∨ KeyLt x last := by
  obtain ⟨init, rfl⟩ := List.getLast?_eq_some_iff.mp hl
  rw [List.pairwise_append] at h
  rcases List.mem_append.mp hx with hx | hx
  · exact .inr (h.2.2 x hx last (List.mem_singleton_self _))
  · exact .inl (List.mem_singleton.mp hx)

lemma keyLt_paddingOp (last : MemoryOp) : KeyLt last (paddingOp last) := by
  simp only [KeyLt, paddingOp, true_and]; omega

lemma padMemoryOps_eq {ops : List MemoryOp} {last : MemoryOp} (h : ops.getLast? = some last) :
    padMemoryOps ops = .ok (ops ++ List.replicate ((ops.length + 1).nextPowerOfTwo - ops.length)
      (paddingOp last)) := by
  simp [padMemoryOps, h]

lemma sorted_padded {ops : List MemoryOp} {last : MemoryOp} (h : ops.Pairwise KeyLt)
    (hl : ops.getLast? = some last) (k : ℕ) :
    (ops ++ List.replicate k (paddingOp last)).Pairwise (keyLe · ·) := by
  have asymm : ∀ {a b : MemoryOp}, KeyLt a b → keyLe a b := fun hab => by
    simpa using fun hba => keyLt_irrefl _ (keyLt_trans hab hba)
  refine List.pairwise_append.mpr ⟨h.imp asymm, List.pairwise_replicate.mpr
    (.inr (by simpa using keyLt_irrefl _)), fun x hx y hy => ?_⟩
  rw [List.eq_of_mem_replicate hy]
  rcases le_of_mem_of_getLast? h hl hx with rfl | hxl
  exacts [asymm (keyLt_paddingOp x), asymm (keyLt_trans hxl (keyLt_paddingOp last))]

lemma chain_padded {R : MemoryOp → MemoryOp → Prop} {ops : List MemoryOp} {last : MemoryOp}
    (h : ops.Chain' R) (hl : ops.getLast? = some last) (h₁ : R last (paddingOp last))
    (h₂ : R (paddingOp last) (paddingOp last)) (k : ℕ) :
    (ops ++ List.replicate k (paddingOp last)).Chain' R :=
  h.append (List.pairwise_replicate.mpr (.inr h₂)).chain' fun x hx y hy => by
    rw [hl, Option.mem_some_iff] at hx
    rw [List.eq_of_mem_replicate (List.mem_of_mem_head? hy), ← hx]
    exact h₁

section SortedPadded

variable {memoryOps : List MemoryOp}

/-- The list `fill_gaps` walks: the sorted log, with the read at `(0, 0, 0)` first when
needed. -/
def walked (memoryOps : List MemoryOp) : List MemoryOp := withFirstRead (sortByKey memoryOps)

/-- The `max_rc` of `fill_gaps`. -/
def walkedMaxRc (memoryOps : List MemoryOp) : ℕ := (walked memoryOps).length.nextPowerOfTwo - 1

lemma walked_ne_nil (hne : memoryOps ≠ []) : walked memoryOps ≠ [] := by
  unfold walked withFirstRead
  split
  · rename_i h
    have := (sortByKey_perm memoryOps).length_eq
    rw [h] at this
    exact absurd (List.length_eq_zero.mp this.symm) hne
  · split_ifs <;> simp

lemma chain_walked (hk : (memoryOps.map sortingKey).Nodup)
    (hb : ∀ o ∈ memoryOps, o.address.context ≤ walkedMaxRc memoryOps ∧
      o.address.segment ≤ walkedMaxRc memoryOps) :
    (walked memoryOps).Chain' fun a b => KeyLt a b ∧
      b.address.context ≤ walkedMaxRc memoryOps ∧ b.address.segment ≤ walkedMaxRc memoryOps := by
  refine (List.Chain'.iff_mem.mp
    (chain_withFirstRead (sortByKey_keyLt hk).chain')).imp fun x y ⟨_, hy, hxy⟩ => ⟨hxy, ?_⟩
  rcases mem_withFirstRead hy with rfl | hy
  · simp [zeroAddressRead]
  · exact hb y ((sortByKey_perm memoryOps).mem_iff.mp hy)

lemma chain_filled_inRange (hk : (memoryOps.map sortingKey).Nodup)
    (hb : ∀ o ∈ memoryOps, o.address.context ≤ walkedMaxRc memoryOps ∧
      o.address.segment ≤ walkedMaxRc memoryOps) :
    (filled (walked memoryOps)).Chain' fun x y => KeyLt x y ∧ InRange (walkedMaxRc memoryOps) x y :=
  chain_filled (fun hm _ _ hw => chain_gap_inRange hm hw.1 hw.2.1 hw.2.2) (chain_walked hk hb)

lemma sortedPaddedOps_eq (hne : memoryOps ≠ []) (hk : (memoryOps.map sortingKey).Nodup)
    (hb : ∀ o ∈ memoryOps, o.address.context ≤ walkedMaxRc memoryOps ∧
      o.address.segment ≤ walkedMaxRc memoryOps) :
    ∃ last, (filled (walked memoryOps)).getLast? = some last ∧
      sortedPaddedOps memoryOps = .ok (filled (walked memoryOps) ++
        List.replicate (((filled (walked memoryOps)).length + 1).nextPowerOfTwo -
          (filled (walked memoryOps)).length) (paddingOp last),
        (filled (walked memoryOps)).length) := by
  have hF := List.chain'_iff_pairwise.mp ((chain_filled_inRange hk hb).imp fun _ _ h => h.1)
  have hS : sortByKey memoryOps ≠ [] := fun h => hne (List.length_eq_zero.mp
    ((sortByKey_perm memoryOps).length_eq.symm.trans (by rw [h]; rfl)))
  obtain ⟨l, hl, hperm : l.Perm (filled (walked memoryOps))⟩ := fillGaps_perm hS
  obtain ⟨last, hlast⟩ := Option.ne_none_iff_exists'.mp
    (show (filled (walked memoryOps)).getLast? ≠ none by
      rw [getLast?_filled, Ne, List.getLast?_eq_none_iff]; exact walked_ne_nil hne)
  refine ⟨last, hlast, ?_⟩
  simp only [sortedPaddedOps, hl, bind, Except.bind, pure, Except.pure,
    sortByKey_eq_of_perm hperm hF, (sortByKey_perm l).length_eq, hperm.length_eq,
    padMemoryOps_eq hlast, sortByKey_of_sorted (sorted_padded hF hlast _)]

end SortedPadded


/-! ### Under the bounds of the specification -/

/-- The bounds the specification of the generator puts on the log it sorts: non-empty, with
distinct keys, virtual addresses and timestamps below `2³²`, contexts and segments below the
`next_power_of_two` of the length `fill_gaps` walks, and no longer than a `Vec` can be. -/
structure LogBounds (memoryOps : List MemoryOp) : Prop where
  ne_nil : memoryOps ≠ []
  nodup_keys : (memoryOps.map sortingKey).Nodup
  small : ∀ o ∈ memoryOps, o.address.virt < 2 ^ 32 ∧ o.timestamp < 2 ^ 32
  context_lt : ∀ o ∈ memoryOps, o.address.context < (walked memoryOps).length.nextPowerOfTwo ∧
    o.address.segment < (walked memoryOps).length.nextPowerOfTwo
  length_lt : memoryOps.length < 2 ^ 63

/-- The operations the rows are made of: the filled log, then copies of its padding operation
up to the next power of two above its length. -/
def rowOps (memoryOps : List MemoryOp) : List MemoryOp :=
  match (filled (walked memoryOps)).getLast? with
  | some last => filled (walked memoryOps) ++ List.replicate
      (((filled (walked memoryOps)).length + 1).nextPowerOfTwo - (filled (walked memoryOps)).length)
      (paddingOp last)
  | none => []

section Bounds

variable {memoryOps : List MemoryOp}

lemma length_withFirstRead_le (ops : List MemoryOp) :
    (withFirstRead ops).length ≤ ops.length + 1 := by
  unfold withFirstRead
  split
  · simp
  · split_ifs <;> simp

lemma length_walked_le (h : LogBounds memoryOps) : (walked memoryOps).length ≤ 2 ^ 63 := by
  have : (walked memoryOps).length ≤ _ := length_withFirstRead_le (sortByKey memoryOps)
  have := (sortByKey_perm memoryOps).length_eq
  have := h.length_lt
  omega

lemma walkedMaxRc_lt (h : LogBounds memoryOps) : walkedMaxRc memoryOps < 2 ^ 63 := by
  have := nextPowerOfTwo_le ⟨63, rfl⟩ (length_walked_le h)
  unfold walkedMaxRc; omega

lemma mem_walked (h : LogBounds memoryOps) {o : MemoryOp} (ho : o ∈ walked memoryOps) :
    o.address.context ≤ walkedMaxRc memoryOps ∧ o.address.segment ≤ walkedMaxRc memoryOps ∧
      o.address.virt < 2 ^ 32 ∧ o.timestamp < 2 ^ 32 := by
  rcases mem_withFirstRead ho with rfl | ho
  · simp [zeroAddressRead]
  · have ho := (sortByKey_perm memoryOps).mem_iff.mp ho
    have := h.context_lt o ho
    have := h.small o ho
    unfold walkedMaxRc
    omega

lemma mem_filled_walked (h : LogBounds memoryOps) {o : MemoryOp}
    (ho : o ∈ filled (walked memoryOps)) :
    o.address.context ≤ walkedMaxRc memoryOps ∧ o.address.segment ≤ walkedMaxRc memoryOps ∧
      o.address.virt < 2 ^ 32 ∧ o.timestamp < 2 ^ 34 := by
  rcases mem_filled ho with ho | ⟨a, ha, b, hb, hd⟩
  · have := mem_walked h ho; omega
  · have := mem_walked h ha
    have := mem_walked h hb
    unfold DummyOf at hd
    omega

lemma filled_walked_ne_nil (h : LogBounds memoryOps) : filled (walked memoryOps) ≠ [] := by
  intro h0
  have := getLast?_filled (walked memoryOps)
  rw [h0] at this
  exact walked_ne_nil h.ne_nil (List.getLast?_eq_none_iff.mp this.symm)

lemma sortedPaddedOps_rowOps (h : LogBounds memoryOps) :
    sortedPaddedOps memoryOps = .ok (rowOps memoryOps, (filled (walked memoryOps)).length) := by
  obtain ⟨last, hlast, heq⟩ := sortedPaddedOps_eq h.ne_nil h.nodup_keys
    (fun o ho => have := h.context_lt o ho; by unfold walkedMaxRc; omega)
  rw [heq, rowOps, hlast]

lemma rowOps_eq (h : LogBounds memoryOps) :
    ∃ last, (filled (walked memoryOps)).getLast? = some last ∧
    rowOps memoryOps = filled (walked memoryOps) ++ List.replicate
      (((filled (walked memoryOps)).length + 1).nextPowerOfTwo - (filled (walked memoryOps)).length)
      (paddingOp last) := by
  obtain ⟨last, hlast⟩ := Option.ne_none_iff_exists'.mp
    (mt List.getLast?_eq_none_iff.mp (filled_walked_ne_nil h))
  exact ⟨last, hlast, by rw [rowOps, hlast]⟩

lemma length_rowOps (h : LogBounds memoryOps) :
    (rowOps memoryOps).length = ((filled (walked memoryOps)).length + 1).nextPowerOfTwo := by
  obtain ⟨last, -, heq⟩ := rowOps_eq h
  have := le_nextPowerOfTwo ((filled (walked memoryOps)).length + 1)
  rw [heq, List.length_append, List.length_replicate]
  omega

lemma walkedMaxRc_lt_length (h : LogBounds memoryOps) :
    walkedMaxRc memoryOps < (rowOps memoryOps).length := by
  have := length_le_filled (walked memoryOps)
  have := nextPowerOfTwo_mono (show (walked memoryOps).length ≤
    (filled (walked memoryOps)).length + 1 by omega)
  have := nextPowerOfTwo_pos ((filled (walked memoryOps)).length + 1)
  rw [length_rowOps h]
  unfold walkedMaxRc
  omega

lemma context_le (h : LogBounds memoryOps) : ∀ o ∈ memoryOps,
    o.address.context ≤ walkedMaxRc memoryOps ∧ o.address.segment ≤ walkedMaxRc memoryOps :=
  fun o ho => have := h.context_lt o ho; by unfold walkedMaxRc; omega

/-- `fill_gaps` computes within `usize`. -/
lemma fillGapsInBounds (h : LogBounds memoryOps) : FillGapsInBounds (sortByKey memoryOps) :=
  ⟨length_walked_le h, fun hm => (List.Chain'.iff_mem.mp (chain_walked h.nodup_keys
    (context_le h))).imp fun a b ⟨ha, hb, hab⟩ => by
      have := mem_walked h ha
      have := mem_walked h hb
      exact windowInBounds hm hab.1 (walkedMaxRc_lt h) ⟨by omega, by omega⟩ ⟨by omega, by omega⟩⟩

lemma chain_rowOps_inRange (h : LogBounds memoryOps) :
    (rowOps memoryOps).Chain' (InRange (walkedMaxRc memoryOps)) := by
  obtain ⟨last, hlast, heq⟩ := rowOps_eq h
  rw [heq]
  refine chain_padded ((chain_filled_inRange h.nodup_keys (context_le h)).imp
    fun _ _ h => h.2) hlast ?_ ?_ _
  · simp [InRange, paddingOp]
  · simp [InRange, paddingOp]

lemma chain'_and {R S : MemoryOp → MemoryOp → Prop} :
    ∀ {l : List MemoryOp}, l.Chain' R → l.Chain' S → l.Chain' fun a b => R a b ∧ S a b
  | [], _, _ => List.chain'_nil
  | [_], _, _ => List.chain'_singleton _
  | _ :: _ :: _, h₁, h₂ => (chain'_and h₁.tail h₂.tail).cons ⟨h₁.rel_head, h₂.rel_head⟩

lemma chain_walked_follows {sg : SegmentIds} (hk : (memoryOps.map sortingKey).Nodup)
    (hr : ReadsSeeWrites sg (sortByKey memoryOps)) :
    (walked memoryOps).Chain' fun a b => KeyLt a b ∧ Follows sg a b := by
  have hs := chain'_and (sortByKey_keyLt hk).chain' hr.2
  unfold walked withFirstRead
  split
  · exact List.chain'_nil
  · rename_i first rest heq
    rw [heq] at hs
    split_ifs with hv
    · refine hs.cons ⟨by simp only [zeroAddressRead, KeyLt]; omega, fun hread => ?_⟩
      rw [if_neg (ne_of_virt_ne (by simp only [zeroAddressRead]; omega))]
      exact hr.1 first (by simp [heq]) hread
    · exact hs

lemma chain_rowOps_follows {sg : SegmentIds} (h : LogBounds memoryOps)
    (hr : ReadsSeeWrites sg (sortByKey memoryOps)) : (rowOps memoryOps).Chain' (Follows sg) := by
  obtain ⟨last, hlast, heq⟩ := rowOps_eq h
  rw [heq]
  refine chain_padded (chain_filled (fun hm _ _ hw => chain_gap_follows hm hw.1 hw.2)
    (chain_walked_follows h.nodup_keys hr)) hlast ?_ (follows_of_eq rfl rfl) _
  exact follows_of_ne_of_zero (ne_of_virt_ne (by simp [paddingOp])) rfl

lemma mem_rowOps_cases (h : LogBounds memoryOps) {o : MemoryOp} (ho : o ∈ rowOps memoryOps) :
    o ∈ memoryOps ∨ o.filter = false ∧ o.kind = .read ∧ 0 < o.timestamp := by
  obtain ⟨last, hlast, heq⟩ := rowOps_eq h
  rw [heq, List.mem_append] at ho
  rcases ho with ho | ho
  · rcases mem_filled ho with ho | ⟨a, -, b, -, hd⟩
    · rcases mem_withFirstRead ho with rfl | ho
      · exact .inr ⟨rfl, rfl, Nat.one_pos⟩
      · exact .inl ((sortByKey_perm memoryOps).mem_iff.mp ho)
    · exact .inr ⟨hd.1, hd.2.1, hd.2.2.1⟩
  · rw [List.eq_of_mem_replicate ho]
    exact .inr ⟨rfl, rfl, Nat.succ_pos _⟩

lemma mem_rowOps (h : LogBounds memoryOps) {o : MemoryOp} (ho : o ∈ rowOps memoryOps) :
    o.address.context ≤ walkedMaxRc memoryOps ∧ o.address.segment ≤ walkedMaxRc memoryOps ∧
      o.address.virt ≤ 2 ^ 32 ∧ o.timestamp ≤ 2 ^ 34 := by
  obtain ⟨last, hlast, heq⟩ := rowOps_eq h
  rw [heq, List.mem_append] at ho
  rcases ho with ho | ho
  · have := mem_filled_walked h ho; omega
  · have := mem_filled_walked h (List.mem_of_getLast?_eq_some hlast)
    rw [List.eq_of_mem_replicate ho]
    simp only [paddingOp]
    omega

lemma head?_filled (ops : List MemoryOp) : (filled ops).head? = ops.head? := by
  unfold filled
  split_ifs with hm
  · cases ops with
    | nil => rfl
    | cons a rest => obtain ⟨t, ht⟩ := expand_cons hm a rest; rw [ht]; rfl
  · rfl

lemma head?_rowOps (h : LogBounds memoryOps) :
    ∀ o ∈ (rowOps memoryOps).head?, o.address.virt = 0 := by
  obtain ⟨last, hlast, heq⟩ := rowOps_eq h
  rw [heq, List.head?_append_of_ne_nil _ (filled_walked_ne_nil h), head?_filled]
  exact head?_withFirstRead_virt

/-- The rows are the filled log in strictly increasing key order, then at least one copy of the
padding operation of its last, above all of it. -/
lemma rowOps_sorted (h : LogBounds memoryOps) : ∃ last k,
    (filled (walked memoryOps)).getLast? = some last ∧
    rowOps memoryOps = filled (walked memoryOps) ++ List.replicate k (paddingOp last) ∧ 1 ≤ k ∧
      (filled (walked memoryOps) ++ [paddingOp last]).Pairwise KeyLt := by
  obtain ⟨last, hlast, heq⟩ := rowOps_eq h
  have hF := List.chain'_iff_pairwise.mp
    ((chain_filled_inRange h.nodup_keys (context_le h)).imp fun _ _ h => h.1)
  refine ⟨last, _, hlast, heq, ?_, List.pairwise_append.mpr ⟨hF, List.pairwise_singleton _ _,
    fun x hx y hy => ?_⟩⟩
  · have := le_nextPowerOfTwo ((filled (walked memoryOps)).length + 1); omega
  · rw [List.mem_singleton.mp hy]
    rcases le_of_mem_of_getLast? hF hlast hx with rfl | hxl
    exacts [keyLt_paddingOp x, keyLt_trans hxl (keyLt_paddingOp last)]

end Bounds

end ZkEvm.Memory.FillGaps
