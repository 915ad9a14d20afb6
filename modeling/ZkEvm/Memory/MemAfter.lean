import ZkEvm.Memory.Accounting

/-!
The final memory state `generate_trace` hands to `MemAfterStark`: one entry for each address
whose last operation in key order is active, outside the stale contexts, and holds a non-zero
value or lies in a preinitialized segment, in increasing address order.

The column-major pass puts a row in `mem_after` when its flags say that the next row is at
another address. In the sorted rows that is when no later operation is at the row's address
(`EndsIn`). The reads `fill_gaps` invents never come after the last operation of an address the
log uses: within a window they sit below its upper end, at its address or strictly between the
two. So an operation of the log ends its address in the rows exactly when it is the last at its
address in the log.
-/

namespace ZkEvm.Memory.MemAfter

open ZkEvm.Goldilocks ZkEvm.Memory.Columns ZkEvm.Memory.Ops MemoryOp ZkEvm.Memory.FillGaps
open ZkEvm.Memory.Generation ZkEvm.Memory.Trace ZkEvm.Memory.ColMajor ZkEvm.Memory.Completeness
open ZkEvm.Memory.Accounting

/-! ### The final state -/

/-- `o` is the last operation of `ops` at its address. -/
def LastAtAddress (ops : List MemoryOp) (o : MemoryOp) : Prop :=
  ∀ o' ∈ ops, o'.address = o.address → o'.timestamp ≤ o.timestamp

/-- The operations that leave their address in memory after the segment: active, the last at
their address, outside the stale contexts, with a non-zero value or in a preinitialized
segment. -/
def InMemAfter (sg : SegmentIds) (staleContexts : List ℕ) (ops : List MemoryOp) (o : MemoryOp) :
    Prop :=
  o.filter = true ∧ LastAtAddress ops o ∧ o.address.context ∉ staleContexts ∧
    (o.value ≠ 0 ∨ o.address.segment ∈ sg.preinitializedSegmentsIndices)

instance (ops : List MemoryOp) (o : MemoryOp) : Decidable (LastAtAddress ops o) :=
  inferInstanceAs (Decidable (∀ o' ∈ ops, _))

instance (sg : SegmentIds) (staleContexts : List ℕ) (ops : List MemoryOp) (o : MemoryOp) :
    Decidable (InMemAfter sg staleContexts ops o) :=
  inferInstanceAs (Decidable (_ ∧ _))

/-- An entry of `mem_after_values`: `1`, the address, and the eight 32-bit limbs of the value. -/
def memAfterEntry (o : MemoryOp) : List (ZMod goldilocks) :=
  1 :: (o.address.context : ZMod goldilocks) :: (o.address.segment : ZMod goldilocks) ::
    (o.address.virt : ZMod goldilocks) ::
      List.ofFn fun j : Fin valueLimbs => (limb o.value j : ZMod goldilocks)

/-- The final memory state of a log: the entry of each operation that stays in memory, in key
order. -/
def finalState (sg : SegmentIds) (ops : List MemoryOp) (staleContexts : List ℕ) :
    List (List (ZMod goldilocks)) :=
  ((sortByKey ops).filter fun o => InMemAfter sg staleContexts ops o).map memAfterEntry

lemma pairwise_inMemAfter {sg : SegmentIds} {staleContexts : List ℕ} {ops : List MemoryOp}
    (hk : (ops.map sortingKey).Nodup) :
    ((sortByKey ops).filter fun o => InMemAfter sg staleContexts ops o).Pairwise
      fun a b => KeyLt a b ∧ a.address ≠ b.address := by
  refine ((sortByKey_keyLt hk).filter _).imp_of_mem fun {a b} ha hb hab => ⟨hab, fun heq => ?_⟩
  have hlast := (of_decide_eq_true (List.mem_filter.mp ha).2).2.1 b
    ((sortByKey_perm ops).subset (List.mem_filter.mp hb).1) heq.symm
  unfold KeyLt at hab
  rw [heq] at hab
  omega

/-! ### Values and their limbs -/

lemma eq_zero_of_limbs_zero : ∀ k n : ℕ, n < 2 ^ (32 * k) →
    (∀ j < k, n / 2 ^ (32 * j) % 2 ^ 32 = 0) → n = 0
  | 0, n, hn, _ => by simpa using hn
  | k + 1, n, hn, h => by
    have hq : n / 2 ^ 32 = 0 := eq_zero_of_limbs_zero k _
      (Nat.div_lt_of_lt_mul (by rwa [← pow_add, show 32 + 32 * k = 32 * (k + 1) by ring]))
      fun j hj => by
        rw [Nat.div_div_eq_div_mul, ← pow_add, show 32 + 32 * j = 32 * (j + 1) by ring]
        exact h (j + 1) (by omega)
    have h0 := h 0 (by omega)
    simp only [mul_zero, pow_zero, Nat.div_one] at h0
    omega

lemma value_eq_zero_iff (v : BitVec 256) : v = 0 ↔ ∀ j : Fin valueLimbs, limb v j = 0 := by
  refine ⟨fun h j => by simp [h, limb], fun h => BitVec.eq_of_toNat_eq
    ((eq_zero_of_limbs_zero 8 _ v.isLt fun j hj => ?_).trans (by simp))⟩
  simpa [limb, Nat.shiftRight_eq_div_pow, mul_comm] using h ⟨j, hj⟩

lemma limb_cast_eq_zero (v : BitVec 256) (j : ℕ) :
    (limb v j : ZMod goldilocks) = 0 ↔ limb v j = 0 := by
  rw [← Nat.cast_zero]
  exact natCast_inj_of_lt (lt_trans (Nat.mod_lt _ (by norm_num)) (by norm_num)) (by norm_num)

lemma keepsValue_iff (sg : SegmentIds) {r : Row} {o : MemoryOp} (hr : ShowsOp r o) (ho : Fits o) :
    KeepsValue sg r ↔ o.value ≠ 0 ∨ o.address.segment ∈ sg.preinitializedSegmentsIndices := by
  obtain ⟨-, -, -, -, -, hs, -, hv⟩ := hr
  unfold KeepsValue
  rw [hv, hs]
  simp only [MemoryOp.intoRow]
  rw [val_natCast_of_lt ho.2.1]
  simp only [ne_eq, value_eq_zero_iff, limb_cast_eq_zero, not_forall]

lemma addrValueSlice_eq {r : Row} {o : MemoryOp} (hr : ShowsOp r o) :
    1 :: r.addrValueSlice = memAfterEntry o := by
  obtain ⟨-, -, -, -, hc, hs, hv, hl⟩ := hr
  rw [MemoryColumnsView.addrValueSlice, hc, hs, hv, hl]
  rfl

/-! ### The last operation of an address -/

/-- No operation of `l` after `o` in key order is at `o`'s address. -/
def EndsIn (l : List MemoryOp) (o : MemoryOp) : Prop :=
  ∀ x ∈ l, KeyLt o x → x.address ≠ o.address

lemma address_eq_of_between {a x c : MemoryOp} (h₁ : KeyLt a x) (h₂ : ¬ KeyLt c x)
    (h : a.address = c.address) : x.address = a.address := by
  obtain ⟨hc, hs, hv⟩ := MemoryAddress.ext_iff.mp h
  unfold KeyLt at h₁ h₂
  exact MemoryAddress.ext (by omega) (by omega) (by omega)

lemma keyLt_of_address_eq {a b : MemoryOp} (h : a.address = b.address)
    (ht : a.timestamp < b.timestamp) : KeyLt a b := by
  unfold KeyLt
  rw [h]
  omega

lemma endsIn_getElem_iff {l : List MemoryOp} (hl : l.Pairwise KeyLt) {i : ℕ}
    (hi : i + 1 < l.length) : EndsIn l l[i] ↔ l[i].address ≠ l[i + 1].address := by
  have hlt := List.pairwise_iff_getElem.mp hl
  refine ⟨fun h heq => h _ (List.getElem_mem _) (hlt _ _ _ _ (Nat.lt_succ_self i)) heq.symm,
    fun hne x hx hix hax => ?_⟩
  obtain ⟨j, hj, rfl⟩ := List.getElem_of_mem hx
  have hij : i + 1 ≤ j := by
    by_contra hji
    rcases Nat.lt_or_ge j i with hji | hji
    · exact keyLt_irrefl _ (keyLt_trans (hlt _ _ _ _ hji) hix)
    · obtain rfl : j = i := by omega
      exact keyLt_irrefl _ hix
  rcases hij.eq_or_lt with rfl | hij
  · exact hne hax.symm
  · exact hne (address_eq_of_between (hlt _ _ _ _ (Nat.lt_succ_self i))
      (fun h => keyLt_irrefl _ (keyLt_trans h (hlt _ _ _ _ hij))) hax.symm).symm

lemma address_ne_paddingOp {l : List MemoryOp} {last o : MemoryOp} (hl : l.Pairwise KeyLt)
    (hlast : l.getLast? = some last) (ho : o ∈ l) : (paddingOp last).address ≠ o.address := by
  intro heq
  simp only [paddingOp, MemoryAddress.ext_iff] at heq
  rcases le_of_mem_of_getLast? hl hlast ho with rfl | h
  · omega
  · unfold KeyLt at h
    omega

/-! ### Invented reads never end an address of the log -/

section Dummies

variable {maxRc : ℕ} (hm : 0 < maxRc)

lemma address_ne_of_mem_sortedGapDummies {curr next d : MemoryOp}
    (hne : curr.address ≠ next.address) (hd : d ∈ sortedGapDummies maxRc hm curr next) :
    d.address ≠ curr.address := by
  obtain ⟨-, -, -, hc, hs, -⟩ := mem_sortedGapDummies hm hd
  intro heq
  rw [heq] at hc hs
  have hv : curr.address.virt ≠ next.address.virt := fun hv => hne (MemoryAddress.ext hc hs hv)
  simp only [sortedGapDummies, gapDummies, hc, hs, ne_eq, not_true_eq_false, or_self, if_false,
    hv, not_false_eq_true, if_true] at hd
  have : curr.address.virt < d.address.virt := forall_mem_virtualDummies next.address.virt
    (P := fun c => curr.address.virt ≤ c.address.virt)
    (Q := fun d => curr.address.virt < d.address.virt)
    (fun c hc _ => by simp only [virtualDummy, newDummyRead_address]; omega) curr le_rfl d hd
  rw [heq] at this
  omega

lemma exists_walked_of_mem_expand {o x : MemoryOp} (hox : KeyLt o x)
    (ha : x.address = o.address) : ∀ {W : List MemoryOp}, (expand maxRc hm W).Pairwise KeyLt →
      o ∈ W → x ∈ expand maxRc hm W → ∃ b ∈ W, KeyLt o b ∧ b.address = o.address
  | [], _, ho, _ => absurd ho (List.not_mem_nil _)
  | [_], _, _, hx => ⟨x, hx, hox, ha⟩
  | curr :: next :: rest, hp, ho, hx => by
    obtain ⟨t, ht⟩ := expand_cons hm next rest
    have hW : ∀ y ∈ next :: rest, y ∈ next :: t := fun y hy =>
      ht ▸ (perm_expand hm _).subset (List.mem_append_left _ hy)
    rw [expand, ht] at hp hx
    obtain ⟨hcurr, hp⟩ := List.pairwise_cons.mp hp
    obtain ⟨-, hnt, hgap⟩ := List.pairwise_append.mp hp
    have hcn : KeyLt curr next := hcurr next (by simp)
    rcases List.mem_cons.mp ho with rfl | ho
    · -- `o` is the lower end of the first window
      rcases List.mem_cons.mp hx with rfl | hx
      · exact absurd hox (keyLt_irrefl _)
      refine ⟨next, by simp, hcn, ?_⟩
      rcases List.mem_append.mp hx with hx | hx
      · by_contra hne
        exact address_ne_of_mem_sortedGapDummies hm (Ne.symm hne) hx ha
      · rcases List.mem_cons.mp hx with rfl | hx
        · exact ha
        · exact address_eq_of_between hcn
            (fun h => keyLt_irrefl _ (keyLt_trans h ((List.pairwise_cons.mp hnt).1 x hx))) ha.symm
    · -- `o` is further on, and so is `x`
      rcases List.mem_cons.mp hx with hxc | hx
      · exact absurd (keyLt_trans (hxc ▸ hox) (hcurr o (List.mem_append_right _ (hW o ho))))
          (keyLt_irrefl _)
      rcases List.mem_append.mp hx with hx | hx
      · exact absurd (keyLt_trans hox (hgap x hx o (hW o ho))) (keyLt_irrefl _)
      · obtain ⟨b, hb, hob, hab⟩ :=
          exists_walked_of_mem_expand hox ha (by rw [ht]; exact hnt) ho (by rw [ht]; exact hx)
        exact ⟨b, List.mem_cons_of_mem _ hb, hob, hab⟩

end Dummies

lemma exists_walked_of_mem_filled {W : List MemoryOp} (hp : (filled W).Pairwise KeyLt)
    {o x : MemoryOp} (ho : o ∈ W) (hx : x ∈ filled W) (hox : KeyLt o x)
    (ha : x.address = o.address) : ∃ b ∈ W, KeyLt o b ∧ b.address = o.address := by
  unfold filled at hp hx
  split_ifs at hp hx with hm
  · exact exists_walked_of_mem_expand hm hox ha hp ho hx
  · exact ⟨x, hx, hox, ha⟩

lemma mem_sortByKey_of_keyLt {ops : List MemoryOp} {o b : MemoryOp} (ho : o ∈ sortByKey ops)
    (hb : b ∈ walked ops) (hob : KeyLt o b) : b ∈ sortByKey ops := by
  have hS := sortByKey_sorted ops
  unfold walked at hb
  generalize sortByKey ops = S at hS ho hb ⊢
  cases S with
  | nil => cases ho
  | cons s rest =>
    simp only [withFirstRead] at hb
    split_ifs at hb with hv
    · rcases List.mem_cons.mp hb with rfl | hb
      · have hso : ¬ KeyLt o s := by
          rcases List.mem_cons.mp ho with rfl | ho
          · exact keyLt_irrefl _
          · simpa using List.rel_of_pairwise_cons hS ho
        simp only [KeyLt, zeroAddressRead] at hob hso
        omega
      · exact hb
    · exact hb

/-! ### The rows put in `mem_after` -/

/-- What the column-major pass asks of the operation of a row to put it in `mem_after`: active,
the last at its address in the rows `l`, outside the stale contexts, with a non-zero value or in
a preinitialized segment. -/
def MarkedIn (sg : SegmentIds) (staleContexts : List ℕ) (l : List MemoryOp) (o : MemoryOp) :
    Prop :=
  o.filter = true ∧ EndsIn l o ∧ o.address.context ∉ staleContexts ∧
    (o.value ≠ 0 ∨ o.address.segment ∈ sg.preinitializedSegmentsIndices)

instance (l : List MemoryOp) (o : MemoryOp) : Decidable (EndsIn l o) :=
  inferInstanceAs (Decidable (∀ x ∈ l, _))

instance (sg : SegmentIds) (staleContexts : List ℕ) (l : List MemoryOp) (o : MemoryOp) :
    Decidable (MarkedIn sg staleContexts l o) :=
  inferInstanceAs (Decidable (_ ∧ _))

section Shows

variable (sg : SegmentIds) {ops : List MemoryOp} (staleContexts : List ℕ)

lemma showsOp_staleRows {i : ℕ} (hi : i < (rowOps ops).length) :
    ShowsOp (rowAt (staleRows sg ops staleContexts) i) (rowOps ops)[i] := by
  obtain ⟨b, next, he⟩ := rowAt_flagRows_intoRow sg hi
  rw [rowAt_staleRows sg staleContexts hi, he]
  exact ⟨rfl, rfl, rfl, rfl, rfl, rfl, rfl, rfl⟩

end Shows

section Rows

variable {sg : SegmentIds} {ops : List MemoryOp} {staleContexts : List ℕ}

lemma endsIn_rowOps_iff (h : LogBounds ops) {o : MemoryOp} (ho : o ∈ ops) :
    EndsIn (rowOps ops) o ↔ LastAtAddress ops o := by
  obtain ⟨last, k, hlast, heq, hk, hsorted⟩ := rowOps_sorted h
  have hF := (List.pairwise_append.mp hsorted).1
  obtain ⟨e₁, hp₁, -⟩ := walked_perm ops
  obtain ⟨e₂, hp₂, -⟩ := filled_perm (walked ops)
  have hoW : o ∈ walked ops := hp₁.symm.subset (List.mem_append_left _ ho)
  have hmem : ∀ x ∈ ops, x ∈ rowOps ops := fun x hx => heq ▸ List.mem_append_left _
    (hp₂.symm.subset (List.mem_append_left _ (hp₁.symm.subset (List.mem_append_left _ hx))))
  refine ⟨fun hE o' ho' ha => ?_, fun hL x hx hox ha => ?_⟩
  · by_contra hlt
    exact hE o' (hmem o' ho') (keyLt_of_address_eq ha.symm (by omega)) ha
  · rw [heq, List.mem_append] at hx
    rcases hx with hx | hx
    · obtain ⟨b, hb, hob, hab⟩ := exists_walked_of_mem_filled hF hoW hx hox ha
      have hb' := (sortByKey_perm ops).subset
        (mem_sortByKey_of_keyLt ((sortByKey_perm ops).symm.subset ho) hb hob)
      have := hL b hb' hab
      unfold KeyLt at hob
      rw [hab] at hob
      omega
    · rw [List.eq_of_mem_replicate hx] at ha
      exact address_ne_paddingOp hF hlast
        (hp₂.symm.subset (List.mem_append_left _ hoW)) ha

lemma filter_markedIn_rowOps (h : LogBounds ops) :
    (rowOps ops).filter (fun o => MarkedIn sg staleContexts (rowOps ops) o) =
      (sortByKey ops).filter fun o => InMemAfter sg staleContexts ops o := by
  obtain ⟨last, k, hlast, heq, hk, hsorted⟩ := rowOps_sorted h
  have hF := (List.pairwise_append.mp hsorted).1
  have hrow : ∀ p : MemoryOp → Bool, (∀ o, p o = true → o.filter = true) →
      (rowOps ops).filter p = (filled (walked ops)).filter p := fun p hp => by
    rw [heq, List.filter_append, List.append_right_eq_self, List.filter_eq_nil_iff]
    intro o ho hpo
    simpa [List.eq_of_mem_replicate ho, paddingOp] using hp o hpo
  have hS := (sortByKey_keyLt h.nodup_keys).filter fun o => InMemAfter sg staleContexts ops o
  have hM := hF.filter fun o => MarkedIn sg staleContexts (rowOps ops) o
  rw [hrow _ fun o ho => (of_decide_eq_true ho).1]
  refine List.eq_of_perm_of_sorted ((List.perm_ext_iff_of_nodup hM.nodup hS.nodup).mpr
    fun o => ?_) hM hS
  obtain ⟨e₁, hp₁, -⟩ := walked_perm ops
  obtain ⟨e₂, hp₂, -⟩ := filled_perm (walked ops)
  simp only [List.mem_filter, decide_eq_true_eq, (sortByKey_perm ops).mem_iff]
  constructor
  · rintro ⟨ho, hf, hE, hc⟩
    have hop : o ∈ ops := (mem_rowOps_cases h (heq ▸ List.mem_append_left _ ho)).resolve_right
      fun hi => by simp [hi.1] at hf
    exact ⟨hop, hf, (endsIn_rowOps_iff h hop).mp hE, hc⟩
  · rintro ⟨hop, hf, hL, hc⟩
    exact ⟨hp₂.symm.subset (List.mem_append_left _ (hp₁.symm.subset (List.mem_append_left _ hop))),
      hf, (endsIn_rowOps_iff h hop).mpr hL, hc⟩

lemma getElem_rowOps {l : List MemoryOp} {pad : MemoryOp} {k : ℕ}
    (heq : rowOps ops = l ++ List.replicate k pad) {j : ℕ} (hj : j ≤ l.length)
    (hjr : j < (rowOps ops).length) (hjl : j < (l ++ [pad]).length) :
    (rowOps ops)[j] = (l ++ [pad])[j] := by
  rw [List.getElem_of_eq heq hjr]
  rcases hj.lt_or_eq with hj | rfl
  · rw [List.getElem_append_left hj, List.getElem_append_left hj]
  · rw [List.getElem_append_right le_rfl, List.getElem_append_right le_rfl]
    simp

lemma changesAddress_iff (sg : SegmentIds) {x y : MemoryOp} (hx : Fits x) (hy : Fits y)
    (b : Bool) :
    ((firstChangeFlagsAndRc sg b x.intoRow y.intoRow).contextFirstChange = 1 ∨
      (firstChangeFlagsAndRc sg b x.intoRow y.intoRow).segmentFirstChange = 1 ∨
      (firstChangeFlagsAndRc sg b x.intoRow y.intoRow).virtualFirstChange = 1) ↔
      x.address ≠ y.address := by
  obtain ⟨hc, hs, hv⟩ := flags_intoRow sg hx hy b
  rw [hc, hs, hv]
  simp only [fromBool_eq_one, ne_eq, MemoryAddress.ext_iff]
  tauto

lemma endsAddress_staleRows_iff (h : LogBounds ops) {i : ℕ} (hi : i < (rowOps ops).length) :
    EndsAddress (rowAt (staleRows sg ops staleContexts) i) ↔
      (rowOps ops)[i].filter = true ∧ EndsIn (rowOps ops) (rowOps ops)[i] := by
  obtain ⟨last, k, -, heq, hk, hsorted⟩ := rowOps_sorted h
  unfold EndsAddress
  rw [filter_eq_one_iff (showsOp_staleRows sg staleContexts hi)]
  refine and_congr_right fun hf => ?_
  -- an active row is not padding: the next operation is in the filled log or pads it
  have hlen : (rowOps ops).length = (filled (walked ops)).length + k := by
    rw [heq, List.length_append, List.length_replicate]
  have hiF : i < (filled (walked ops)).length := by
    by_contra hge
    have := List.getElem_of_eq heq hi
    rw [List.getElem_append_right (by omega)] at this
    simp [this, paddingOp] at hf
  have hi1 : i + 1 < (rowOps ops).length := by omega
  have hmem : ∀ x, x ∈ rowOps ops ↔ x ∈ filled (walked ops) ++ [paddingOp last] := fun x => by
    rw [heq]
    simp [List.mem_replicate, show k ≠ 0 by omega]
  rw [rowAt_staleRows sg staleContexts hi]
  dsimp only
  rw [rowAt_flagRows_of_lt hi1, changesAddress_iff sg (fits_rowOps h (List.getElem_mem hi))
    (fits_rowOps h (List.getElem_mem hi1)) false, show EndsIn (rowOps ops) (rowOps ops)[i] ↔
      EndsIn (filled (walked ops) ++ [paddingOp last]) (rowOps ops)[i] by simp only [EndsIn, hmem],
    getElem_rowOps heq hiF.le hi (by simp; omega), getElem_rowOps heq hiF hi1 (by simp; omega),
    endsIn_getElem_iff hsorted (by simp; omega)]

lemma memAfterFilter_traceRows_iff (h : LogBounds ops) {i : ℕ} (hi : i < (rowOps ops).length) :
    (rowAt (traceRows sg ops staleContexts) i).memAfterFilter = 1 ↔
      MarkedIn sg staleContexts (rowOps ops) (rowOps ops)[i] := by
  obtain ⟨b, next, he⟩ := rowAt_flagRows_intoRow sg hi
  have h0 : (rowAt (staleRows sg ops staleContexts) i).memAfterFilter = 0 := by
    rw [rowAt_staleRows sg staleContexts hi, he]; rfl
  have hstale : StaleAt (staleRows sg ops staleContexts) i ↔ _ := staleAt_staleRows_iff h hi
  have hK := keepsValue_iff sg (showsOp_staleRows sg staleContexts hi)
    (fits_rowOps h (List.getElem_mem hi))
  have hE : EndsAddress (rowAt (staleRows sg ops staleContexts) i) ↔ _ :=
    endsAddress_staleRows_iff h hi
  rw [rowAt_traceRows sg staleContexts hi]
  dsimp only
  rw [memAfterFilter_written, h0]
  split_ifs with hc
  · obtain ⟨-, hns, hE', hK'⟩ := hc
    exact iff_of_true rfl ⟨(hE.mp hE').1, (hE.mp hE').2, fun hm => hns (hstale.mpr hm), hK.mp hK'⟩
  · refine iff_of_false zero_ne_one fun ⟨hf, hen, hns, hK'⟩ => hc ?_
    exact ⟨hi, fun hs => hns (hstale.mp hs), hE.mpr ⟨hf, hen⟩, hK.mpr hK'⟩

/-- The values `generate_trace` hands to `MemAfterStark` are the final state of the log. -/
lemma memAfterValues_eq (h : LogBounds ops) :
    ((traceRows sg ops staleContexts).filter fun r => r.memAfterFilter = 1).map
      (fun r => 1 :: r.addrValueSlice) = finalState sg ops staleContexts := by
  have hF : List.Forall₂ (fun r o => ShowsOp r o ∧
      (r.memAfterFilter = 1 ↔ MarkedIn sg staleContexts (rowOps ops) o))
      (traceRows sg ops staleContexts) (rowOps ops) := by
    refine List.forall₂_iff_get.mpr ⟨length_traceRows sg staleContexts, fun i h₁ h₂ => ?_⟩
    rw [show (traceRows sg ops staleContexts).get ⟨i, h₁⟩ = rowAt (traceRows sg ops staleContexts) i
      from (List.getD_eq_getElem _ _ h₁).symm, List.get_eq_getElem]
    exact ⟨showsOp_traceRows sg staleContexts h₂, memAfterFilter_traceRows_iff h h₂⟩
  have hmap := List.rel_map (P := Eq) (fun r o hr => addrValueSlice_eq hr.1)
    (List.rel_filter (p := fun r => r.memAfterFilter = 1)
      (q := fun o => MarkedIn sg staleContexts (rowOps ops) o)
      (fun r o hr => by simpa using hr.2) hF)
  rw [List.forall₂_eq_eq_eq] at hmap
  rw [hmap, finalState, filter_markedIn_rowOps h]

end Rows

/-! ### The final memory state -/

/-- **Final-state extraction.** For a log within the bounds and stale contexts within theirs,
`generate_trace` returns as `mem_after_values` the final state of its combined log (`memory_ops`
then the timestamp-`0` writes of `mem_before_values`): the entry `1`, address, eight limbs of
value, of each operation that is the last at its address, active, outside the stale contexts,
and with a non-zero value or in a preinitialized segment, in increasing key order, at distinct
addresses. -/
theorem generateTrace_memAfterValues (sg : SegmentIds) (memoryOps : List MemoryOp)
    (memBeforeValues : List (MemoryAddress × BitVec 256)) (staleContexts : List ℕ)
    (h : LogBounds (traceOps memoryOps memBeforeValues))
    (hs : StaleBounds (traceOps memoryOps memBeforeValues) staleContexts) :
    (∃ rows unpaddedLength, generateTrace sg memoryOps memBeforeValues staleContexts =
      .ok (rows, finalState sg (traceOps memoryOps memBeforeValues) staleContexts,
        unpaddedLength)) ∧
    ((sortByKey (traceOps memoryOps memBeforeValues)).filter fun o =>
      InMemAfter sg staleContexts (traceOps memoryOps memBeforeValues) o).Pairwise
        fun a b => KeyLt a b ∧ a.address ≠ b.address :=
  ⟨⟨_, _, by rw [generateTrace_eq h hs, memAfterValues_eq h]⟩, pairwise_inMemAfter h.nodup_keys⟩

theorem generateTrace_memAfterValues_mixed :
    LogBounds (traceOps mixedOps mixedBefore) ∧
    StaleBounds (traceOps mixedOps mixedBefore) [1] ∧
    (∃ rows unpaddedLength, generateTrace ⟨0, 1, 2, 3⟩ mixedOps mixedBefore [1] =
      .ok (rows, finalState ⟨0, 1, 2, 3⟩ (traceOps mixedOps mixedBefore) [1],
        unpaddedLength)) ∧
    ((sortByKey (traceOps mixedOps mixedBefore)).filter fun o =>
      InMemAfter ⟨0, 1, 2, 3⟩ [1] (traceOps mixedOps mixedBefore) o).Pairwise
        fun a b => KeyLt a b ∧ a.address ≠ b.address :=
  ⟨logBounds_mixed, staleBounds_mixed,
    generateTrace_memAfterValues ⟨0, 1, 2, 3⟩ _ _ [1] logBounds_mixed staleBounds_mixed⟩

end ZkEvm.Memory.MemAfter
