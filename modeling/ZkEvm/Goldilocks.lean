import Mathlib.NumberTheory.LucasPrimality
import Mathlib.Tactic.NormNum.Prime

/-!
The Goldilocks field `𝔽_p`, `p = 2⁶⁴ - 2³² + 1`, the field of every `RichField` the memory
table is generated over.

Primality is Lucas's test with the generator `7`: `p - 1 = 2³² · 3 · 5 · 17 · 257 · 65537`, and
each power is computed by square-and-multiply, one step per bit of the exponent.
-/

namespace ZkEvm.Goldilocks

/-- The Goldilocks prime. -/
def goldilocks : ℕ := 2 ^ 64 - 2 ^ 32 + 1

/-- `b ^ e * acc` modulo `m`, by square-and-multiply over `fuel` bits of `e`. -/
def powMod : ℕ → ℕ → ℕ → ℕ → ℕ → ℕ
  | 0, _, _, _, acc => acc
  | fuel + 1, b, e, m, acc =>
    powMod fuel (b * b % m) (e / 2) m (if e % 2 = 1 then acc * b % m else acc)

lemma powMod_cast (m : ℕ) : ∀ fuel b e acc, e < 2 ^ fuel →
    ((powMod fuel b e m acc : ℕ) : ZMod m) = acc * (b : ZMod m) ^ e
  | 0, b, e, acc, h => by
    obtain rfl : e = 0 := by simpa using h
    simp [powMod]
  | fuel + 1, b, e, acc, h => by
    rw [powMod, powMod_cast m fuel _ _ _ (by rw [pow_succ] at h; omega)]
    conv_rhs => rw [← Nat.div_add_mod e 2, pow_add, pow_mul]
    split_ifs with h1
    · simp [h1, ZMod.natCast_mod]; ring
    · simp [show e % 2 = 0 by omega, ZMod.natCast_mod]; ring

lemma seven_pow (e : ℕ) (he : e < 2 ^ 64) :
    (7 : ZMod goldilocks) ^ e = ((powMod 64 7 e goldilocks 1 : ℕ) : ZMod goldilocks) := by
  rw [powMod_cast _ _ _ _ _ he]; simp

lemma natCast_ne_one (n : ℕ) (h : n % goldilocks ≠ 1) : (n : ZMod goldilocks) ≠ 1 := by
  rw [← Nat.cast_one, Ne, ZMod.natCast_eq_natCast_iff']
  exact h

lemma prime_dvd_goldilocks_sub_one {q : ℕ} (hq : q.Prime) (h : q ∣ goldilocks - 1) :
    q = 2 ∨ q = 3 ∨ q = 5 ∨ q = 17 ∨ q = 257 ∨ q = 65537 := by
  have hfac : goldilocks - 1 = 2 ^ 32 * (3 * (5 * (17 * (257 * 65537)))) := by
    unfold goldilocks; norm_num
  have hp (r : ℕ) (hr : r.Prime) (hd : q ∣ r) : q = r := (Nat.prime_dvd_prime_iff_eq hq hr).mp hd
  rw [hfac] at h
  rcases (Nat.Prime.dvd_mul hq).mp h with h | h
  · exact .inl (hp 2 Nat.prime_two (hq.dvd_of_dvd_pow h))
  rcases (Nat.Prime.dvd_mul hq).mp h with h | h
  · exact .inr (.inl (hp 3 (by norm_num) h))
  rcases (Nat.Prime.dvd_mul hq).mp h with h | h
  · exact .inr (.inr (.inl (hp 5 (by norm_num) h)))
  rcases (Nat.Prime.dvd_mul hq).mp h with h | h
  · exact .inr (.inr (.inr (.inl (hp 17 (by norm_num) h))))
  rcases (Nat.Prime.dvd_mul hq).mp h with h | h
  · exact .inr (.inr (.inr (.inr (.inl (hp 257 (by norm_num) h)))))
  · exact .inr (.inr (.inr (.inr (.inr (hp 65537 (by norm_num) h)))))

theorem goldilocks_prime : goldilocks.Prime := by
  refine lucas_primality goldilocks 7 ?_ fun q hq hd => ?_
  · rw [seven_pow _ (by unfold goldilocks; norm_num)]
    have : powMod 64 7 (goldilocks - 1) goldilocks 1 = 1 := by decide
    rw [this, Nat.cast_one]
  · rcases prime_dvd_goldilocks_sub_one hq hd with rfl | rfl | rfl | rfl | rfl | rfl <;>
    · rw [seven_pow _ (by unfold goldilocks; norm_num)]
      exact natCast_ne_one _ (by decide)

instance : Fact goldilocks.Prime := ⟨goldilocks_prime⟩

/-! ### Small values -/

lemma val_natCast_of_lt {a : ℕ} (h : a < 2 ^ 63) : (a : ZMod goldilocks).val = a :=
  ZMod.val_natCast_of_lt (by unfold goldilocks; omega)

lemma natCast_inj_of_lt {a b : ℕ} (ha : a < 2 ^ 63) (hb : b < 2 ^ 63) :
    (a : ZMod goldilocks) = b ↔ a = b := by
  rw [ZMod.natCast_eq_natCast_iff', Nat.mod_eq_of_lt (by unfold goldilocks; omega),
    Nat.mod_eq_of_lt (by unfold goldilocks; omega)]

lemma natCast_bne {a b : ℕ} (ha : a < 2 ^ 63) (hb : b < 2 ^ 63) :
    ((a : ZMod goldilocks) != (b : ZMod goldilocks)) = decide (a ≠ b) := by
  rw [← Bool.coe_iff_coe, bne_iff_ne, decide_eq_true_iff, Ne, Ne, natCast_inj_of_lt ha hb]

lemma val_sub_of_le {a b : ℕ} (hab : a ≤ b) (hb : b < 2 ^ 63) :
    ((b : ZMod goldilocks) - a).val = b - a := by
  rw [← Nat.cast_sub hab, val_natCast_of_lt (by omega)]

lemma val_sub_sub_one_of_lt {a b : ℕ} (hab : a < b) (hb : b < 2 ^ 63) :
    ((b : ZMod goldilocks) - a - 1).val = b - a - 1 := by
  rw [← Nat.cast_one, ← Nat.cast_sub hab.le, ← Nat.cast_sub (by omega),
    val_natCast_of_lt (by omega)]

lemma natCast_add_one_ne_zero {a : ℕ} (h : a < 2 ^ 63) : (a : ZMod goldilocks) + 1 ≠ 0 := by
  intro h0
  have := congrArg ZMod.val h0
  rw [← Nat.cast_one, ← Nat.cast_add, ZMod.val_natCast, ZMod.val_zero,
    Nat.mod_eq_of_lt (by unfold goldilocks; omega)] at this
  omega

end ZkEvm.Goldilocks
