import Mathlib.Algebra.Order.Field.Power
import Mathlib.Algebra.Order.Field.Rat
import Mathlib.Algebra.Order.Ring.Abs
import Mathlib.Tactic.FieldSimp
import Mathlib.Tactic.Linarith
import Mathlib.Tactic.Positivity
import Mathlib.Tactic.Ring
import LetWhile.Proofs.Checking

/-!
# Rounding to the nearest double

`Binary64.ofRat` works on codes. It finds the exponent of the last place from the size of the
rational, rounds the rational in units of that place to a natural number, and adds the two up to a
code. `NearestTo` says what should come out of this without any of it: among all finite doubles none
is nearer to the rational, and if another one is as near, the code is even.

The argument is about the grid of doubles. Around the rational and above it, all doubles are
multiples of the unit that was chosen, so rounding in this unit finds the nearest of them. Below,
the grid may be finer, but only below the least number of the rational's own binade. That number is
on the grid too, and it stands between the rational and everything below it.
-/

namespace LetWhile.Binary64

/-! ## Powers of two -/

/-- A power with an integer exponent, as it is computed from powers of naturals. -/
theorem natPow_eq_zpow (b : Nat) (e : Int) :
    (if 0 ≤ e then ((Nat.pow b e.toNat : Nat) : ℚ) else 1 / ((Nat.pow b (-e).toNat : Nat) : ℚ)) =
      (b : ℚ) ^ e := by
  have hcast (n : Nat) : ((Nat.pow b n : Nat) : ℚ) = b ^ n := Nat.cast_pow b n
  split
  · next h =>
    obtain ⟨n, rfl⟩ := Int.eq_ofNat_of_zero_le h
    rw [Int.toNat_natCast, hcast, zpow_natCast]
  · next h =>
    obtain ⟨n, hn⟩ := Int.eq_ofNat_of_zero_le (show 0 ≤ -e by omega)
    rw [hn, Int.toNat_natCast, hcast, show e = -(n : Int) by omega, zpow_neg, zpow_natCast, one_div]

theorem twoPow_eq_zpow (e : Int) : twoPow e = (2 : ℚ) ^ e := by
  rw [twoPow, natPow_eq_zpow, Nat.cast_ofNat]

/-- Shifting one of two naturals to the left scales their quotient. -/
theorem shifted_div (num den : Nat) (e : Int) :
    ((num * Nat.pow 2 (-e).toNat : Nat) : ℚ) / ((den * Nat.pow 2 e.toNat : Nat) : ℚ) =
      (num : ℚ) / den / 2 ^ e := by
  have hcast (n : Nat) : ((Nat.pow 2 n : Nat) : ℚ) = 2 ^ n := Nat.cast_pow 2 n
  rw [Nat.cast_mul, Nat.cast_mul, hcast, hcast]
  rcases le_total 0 e with h | h
  · obtain ⟨n, rfl⟩ := Int.eq_ofNat_of_zero_le h
    rw [show (-(n : Int)).toNat = 0 by omega, Int.toNat_natCast, pow_zero, mul_one, zpow_natCast,
      div_div]
  · obtain ⟨n, hn⟩ := Int.eq_ofNat_of_zero_le (show 0 ≤ -e by omega)
    rw [hn, Int.toNat_natCast, show e.toNat = 0 by omega, show e = -(n : Int) by omega, zpow_neg,
      zpow_natCast, pow_zero, mul_one, div_inv_eq_mul, mul_div_right_comm]

/-- A natural number is at least the power of two that its logarithm gives, and less than twice
as much. -/
theorem zpow_log2_bounds {n : Nat} (hn : n ≠ 0) :
    (2 : ℚ) ^ (n.log2 : Int) ≤ n ∧ (n : ℚ) < 2 ^ ((n.log2 : Int) + 1) := by
  have hlow : 2 ^ n.log2 ≤ n := Nat.log2_self_le hn
  have hhigh : n < 2 ^ (n.log2 + 1) := Nat.lt_log2_self
  constructor
  · rw [zpow_natCast]
    exact_mod_cast hlow
  · rw [← Int.natCast_succ, zpow_natCast]
    exact_mod_cast hhigh

/-- **The size of a quotient.** -/
theorem zpow_floorLog2_bounds {num den : Nat} (hnum : num ≠ 0) (hden : den ≠ 0) :
    (2 : ℚ) ^ floorLog2 num den ≤ (num : ℚ) / den ∧
      (num : ℚ) / den < 2 ^ (floorLog2 num den + 1) := by
  have hden' : (0 : ℚ) < den := by exact_mod_cast Nat.pos_of_ne_zero hden
  obtain ⟨hnum₁, hnum₂⟩ := zpow_log2_bounds hnum
  obtain ⟨hden₁, hden₂⟩ := zpow_log2_bounds hden
  have hupper : (num : ℚ) / den < 2 ^ ((num.log2 : Int) - den.log2 + 1) := by
    rw [div_lt_iff₀ hden']
    calc (num : ℚ) < 2 ^ ((num.log2 : Int) + 1) := hnum₂
      _ = 2 ^ ((num.log2 : Int) - den.log2 + 1) * 2 ^ (den.log2 : Int) := by
        rw [← zpow_add₀ two_ne_zero]
        ring_nf
      _ ≤ 2 ^ ((num.log2 : Int) - den.log2 + 1) * den := by gcongr
  have hlower : (2 : ℚ) ^ ((num.log2 : Int) - den.log2 - 1) ≤ (num : ℚ) / den := by
    rw [le_div_iff₀ hden']
    calc (2 : ℚ) ^ ((num.log2 : Int) - den.log2 - 1) * den
        ≤ 2 ^ ((num.log2 : Int) - den.log2 - 1) * 2 ^ ((den.log2 : Int) + 1) := by gcongr
      _ = 2 ^ (num.log2 : Int) := by
        rw [← zpow_add₀ two_ne_zero]
        ring_nf
      _ ≤ num := hnum₁
  -- the test in the definition compares the quotient with the power between the two
  have htest (e : Int) : den * Nat.pow 2 e.toNat ≤ num * Nat.pow 2 (-e).toNat ↔
      (2 : ℚ) ^ e ≤ (num : ℚ) / den := by
    have hpos : (0 : ℚ) < ((den * Nat.pow 2 e.toNat : Nat) : ℚ) := by
      have : 0 < den * 2 ^ e.toNat := by positivity
      exact_mod_cast this
    have hscale := shifted_div num den e
    rw [← Nat.cast_le (α := ℚ), ← one_le_div hpos, hscale, one_le_div (by positivity)]
  unfold floorLog2
  dsimp only
  split
  · next h => exact ⟨(htest _).mp h, hupper⟩
  · next h =>
    refine ⟨hlower, ?_⟩
    rw [sub_add_cancel]
    exact lt_of_not_ge fun h' => h ((htest _).mpr h')

/-! ## Rounding to a natural number -/

/-- A quotient is rounded by a half at most, and by a half only to an even number. -/
theorem roundDiv_close (num : Nat) {den : Nat} (hden : 0 < den) :
    |(roundDiv num den : ℚ) - num / den| ≤ 1 / 2 ∧
      (|(roundDiv num den : ℚ) - num / den| = 1 / 2 → roundDiv num den % 2 = 0) := by
  have hden' : (0 : ℚ) < den := by exact_mod_cast hden
  have hquotient : (num : ℚ) / den = (num / den : Nat) + (num % den : Nat) / (den : ℚ) := by
    have hsplit : ((den * (num / den) + num % den : Nat) : ℚ) = num := by rw [Nat.div_add_mod]
    rw [← hsplit, Nat.cast_add, Nat.cast_mul]
    field_simp
  have hfrac : (0 : ℚ) ≤ (num % den : Nat) / (den : ℚ) := by positivity
  unfold roundDiv
  dsimp only
  rw [hquotient]
  generalize num / den = q at *
  split
  · next hlow =>
    have hlow' : ((num % den : Nat) : ℚ) / den < 1 / 2 := by
      rw [div_lt_div_iff₀ hden' two_pos]
      exact_mod_cast (by omega : (num % den) * 2 < 1 * den)
    rw [sub_add_cancel_left, abs_neg, abs_of_nonneg hfrac]
    exact ⟨hlow'.le, fun h => absurd h hlow'.ne⟩
  next hlow =>
  have hupper : ((num % den : Nat) : ℚ) / den < 1 := by
    rw [div_lt_one hden']
    exact_mod_cast Nat.mod_lt num hden
  have hceil : |((q + 1 : Nat) : ℚ) - (q + (num % den : Nat) / (den : ℚ))| =
      1 - (num % den : Nat) / (den : ℚ) := by
    rw [Nat.cast_add, Nat.cast_one, add_sub_add_left_eq_sub, abs_of_nonneg (by linarith)]
  split
  · next hhigh =>
    have hhigh' : 1 / 2 < ((num % den : Nat) : ℚ) / den := by
      rw [div_lt_div_iff₀ two_pos hden']
      exact_mod_cast (by omega : 1 * den < (num % den) * 2)
    rw [hceil]
    exact ⟨by linarith, fun h => by linarith⟩
  next hhigh =>
  -- exactly halfway
  have hhalf : ((num % den : Nat) : ℚ) / den = 1 / 2 := by
    rw [div_eq_div_iff hden'.ne' two_ne_zero]
    exact_mod_cast (by omega : (num % den) * 2 = 1 * den)
  split
  · next heven =>
    rw [sub_add_cancel_left, abs_neg, abs_of_nonneg hfrac, hhalf]
    exact ⟨le_refl _, fun _ => heven⟩
  · next hodd =>
    rw [hceil, hhalf]
    exact ⟨by norm_num, fun _ => by omega⟩

/-- A natural number within a half of `x` is a nearest one, and the only one if it is nearer. -/
theorem nearest_of_close {m : Nat} {x : ℚ} (h : |(m : ℚ) - x| ≤ 1 / 2) (j : Nat) :
    |(m : ℚ) - x| ≤ |(j : ℚ) - x| ∧
      (|(m : ℚ) - x| = |(j : ℚ) - x| → j = m ∨ |(m : ℚ) - x| = 1 / 2) := by
  by_cases hj : j = m
  · subst hj
    exact ⟨le_refl _, fun _ => .inl rfl⟩
  · have hone : (1 : ℚ) ≤ |(j : ℚ) - m| := by
      have hint : 1 ≤ |(j : Int) - m| := Int.one_le_abs (by omega)
      exact_mod_cast hint
    have htriangle : |(j : ℚ) - m| ≤ |(j : ℚ) - x| + |(m : ℚ) - x| := by
      rw [abs_sub_comm (m : ℚ) x]
      exact abs_sub_le _ _ _
    exact ⟨by linarith, fun heq => .inr (by linarith)⟩

/-! ## The grid of doubles -/

theorem binade_eq : (binade : ℚ) = 2 ^ (52 : Int) := by
  rw [binade]
  norm_num

theorem significand_lt (code : Nat) : significand code < 2 * binade := by
  have hmod : code % binade < binade := Nat.mod_lt _ (by decide)
  unfold significand
  split <;> omega

theorem minExponent_le_exponent (code : Nat) : minExponent ≤ exponent code := by
  unfold exponent
  split <;> omega

theorem magnitude_eq (code : Nat) :
    magnitude code = significand code * (2 : ℚ) ^ exponent code := by
  rw [magnitude, twoPow_eq_zpow]

theorem magnitude_nonneg (code : Nat) : 0 ≤ magnitude code := by
  rw [magnitude_eq]
  positivity

/-- **The code of a significand in a binade.** It may also be the first one of the binade above, to
which a significand can be rounded up. -/
theorem magnitude_code {k m : Nat} (hlow : k = 0 ∨ binade ≤ m) (hhigh : m ≤ 2 * binade) :
    magnitude (k * binade + m) = m * (2 : ℚ) ^ (minExponent + k) := by
  have hpos : 0 < binade := by decide
  rw [magnitude_eq]
  by_cases hsub : k * binade + m < binade
  · -- in the lowest binade the code is the significand
    have hk : k = 0 := by
      rcases hlow with hk | hm
      · exact hk
      · omega
    subst hk
    rw [significand, exponent, if_pos hsub, if_pos hsub]
    simp
  · have hm : binade ≤ m := by
      rcases hlow with rfl | hm
      · omega
      · exact hm
    rw [significand, exponent, if_neg hsub, if_neg hsub]
    by_cases htop : m = 2 * binade
    · have hcode : k * binade + m = binade * (k + 2) := by rw [htop]; ring
      rw [hcode, Nat.mul_div_cancel_left _ hpos, Nat.mul_mod_right, htop, Nat.add_zero,
        show k + 2 - 1 = k + 1 by omega]
      push_cast
      rw [← add_assoc, zpow_add_one₀ two_ne_zero]
      ring
    · obtain ⟨r, rfl⟩ := Nat.exists_eq_add_of_le hm
      have hr : r < binade := by omega
      have hcode : k * binade + (binade + r) = r + binade * (k + 1) := by ring
      rw [hcode, Nat.add_mul_div_left _ _ hpos, Nat.add_mul_mod_self_left, Nat.mod_eq_of_lt hr,
        Nat.div_eq_of_lt hr, Nat.zero_add, Nat.add_sub_cancel]

/-- Every number on the grid is a multiple of a given unit, or lies below the binade of the unit. -/
theorem magnitude_grid (code : Nat) (e : Int) :
    (∃ j : Nat, magnitude code = j * (2 : ℚ) ^ e) ∨
      (minExponent < e ∧ magnitude code < binade * (2 : ℚ) ^ e) := by
  rw [magnitude_eq]
  by_cases he : e ≤ exponent code
  · left
    obtain ⟨n, hn⟩ := Int.eq_ofNat_of_zero_le (show 0 ≤ exponent code - e by omega)
    refine ⟨significand code * 2 ^ n, ?_⟩
    rw [show exponent code = e + n by omega, zpow_add₀ two_ne_zero, zpow_natCast]
    push_cast
    ring
  · right
    have hmin := minExponent_le_exponent code
    refine ⟨by omega, ?_⟩
    have hsignificand : (significand code : ℚ) < 2 * binade := by
      exact_mod_cast significand_lt code
    calc (significand code : ℚ) * 2 ^ exponent code
        < 2 * binade * 2 ^ exponent code := by gcongr
      _ = binade * 2 ^ (exponent code + 1) := by
        rw [zpow_add_one₀ two_ne_zero]
        ring
      _ ≤ binade * 2 ^ e := by
        have hle : (2 : ℚ) ^ (exponent code + 1) ≤ 2 ^ e :=
          zpow_le_zpow_right₀ one_le_two (by omega)
        gcongr

/-! ## The nearest code -/

/-- How a code was found: by rounding in units of a last place in which the quotient has the size of
a significand. -/
structure Rounded (x : ℚ) (e : Int) (m code : Nat) : Prop where
  least : minExponent ≤ e
  code_eq : code = (e - minExponent).toNat * binade + m
  close : |(m : ℚ) - x / 2 ^ e| ≤ 1 / 2
  even : |(m : ℚ) - x / 2 ^ e| = 1 / 2 → m % 2 = 0
  below : x < 2 * binade * 2 ^ e
  above : minExponent < e → binade * 2 ^ e ≤ x

/-- Every quotient is rounded in this way, to a code that may be above that of infinity. -/
theorem exists_rounded {num den : Nat} (hnum : num ≠ 0) (hden : den ≠ 0) :
    ∃ e m code, Rounded ((num : ℚ) / den) e m code ∧
      roundCode num den = min infinityCode code := by
  obtain ⟨hlow, hhigh⟩ := zpow_floorLog2_bounds hnum hden
  unfold roundCode
  rw [if_neg hnum]
  dsimp only
  generalize floorLog2 num den = f at *
  obtain ⟨e, he⟩ : ∃ e, e = max minExponent (f - 52) := ⟨_, rfl⟩
  rw [← he]
  have hpos : 0 < den * Nat.pow 2 e.toNat :=
    Nat.mul_pos (Nat.pos_of_ne_zero hden) (Nat.pow_pos (by decide))
  obtain ⟨hclose, heven⟩ := roundDiv_close (num * Nat.pow 2 (-e).toNat) hpos
  rw [shifted_div] at hclose heven
  refine ⟨e, _, _, ⟨by omega, rfl, hclose, heven, ?_, fun hmin => ?_⟩, rfl⟩
  · calc (num : ℚ) / den < 2 ^ (f + 1) := hhigh
      _ ≤ 2 ^ ((53 : Int) + e) := zpow_le_zpow_right₀ one_le_two (by omega)
      _ = 2 * binade * 2 ^ e := by rw [zpow_add₀ two_ne_zero, binade_eq]; norm_num
  · have hf : f = 52 + e := by omega
    calc binade * (2 : ℚ) ^ e = 2 ^ ((52 : Int) + e) := by rw [zpow_add₀ two_ne_zero, binade_eq]
      _ ≤ (num : ℚ) / den := by rw [← hf]; exact hlow

theorem rounded_roundCode {num den : Nat} (hnum : num ≠ 0) (hden : den ≠ 0)
    (hfinite : roundCode num den < infinityCode) :
    ∃ e m, Rounded ((num : ℚ) / den) e m (roundCode num den) := by
  obtain ⟨e, m, code, h, heq⟩ := exists_rounded hnum hden
  have hcode : roundCode num den = code := by omega
  exact ⟨e, m, by rw [hcode]; exact h⟩

section Rounded

variable {x : ℚ} {e : Int} {m code : Nat}

theorem Rounded.le_two_binade (h : Rounded x e m code) : m ≤ 2 * binade := by
  have hunit : (0 : ℚ) < 2 ^ e := by positivity
  have hx : x / 2 ^ e < 2 * binade := (div_lt_iff₀ hunit).mpr h.below
  have hm : (m : ℚ) < 2 * binade + 1 := by
    have := (abs_le.mp h.close).2
    linarith
  have : m < 2 * binade + 1 := by exact_mod_cast hm
  omega

theorem Rounded.binade_le (h : Rounded x e m code) (hmin : minExponent < e) : binade ≤ m := by
  have hunit : (0 : ℚ) < 2 ^ e := by positivity
  have hx : (binade : ℚ) ≤ x / 2 ^ e := (le_div_iff₀ hunit).mpr (h.above hmin)
  have hm : (binade : ℚ) < m + 1 := by
    have := (abs_le.mp h.close).1
    linarith
  have : binade < m + 1 := by exact_mod_cast hm
  omega

theorem Rounded.magnitude_eq (h : Rounded x e m code) : magnitude code = m * (2 : ℚ) ^ e := by
  have hleast := h.least
  have hlow : (e - minExponent).toNat = 0 ∨ binade ≤ m := by
    by_cases hmin : minExponent < e
    · exact .inr (h.binade_le hmin)
    · exact .inl (by omega)
  rw [h.code_eq, magnitude_code hlow h.le_two_binade,
    show minExponent + ((e - minExponent).toNat : Int) = e by omega]

/-- A code is even if its significand is. -/
theorem Rounded.code_even (h : Rounded x e m code) (hm : m % 2 = 0) : code % 2 = 0 := by
  have hbinade : binade = 2 * 0x8000000000000 := by decide
  rw [h.code_eq, hbinade, Nat.mul_left_comm, Nat.mul_add_mod, hm]

/-- **No code stands for a nearer number**, and if one stands for another number that is as near,
the code is even. -/
theorem Rounded.nearest (h : Rounded x e m code) (other : Nat) :
    |magnitude code - x| ≤ |magnitude other - x| ∧
      (|magnitude code - x| = |magnitude other - x| →
        magnitude other = magnitude code ∨ code % 2 = 0) := by
  have hunit : (0 : ℚ) < 2 ^ e := by positivity
  have hscale (j : Nat) : |(j : ℚ) * 2 ^ e - x| = |(j : ℚ) - x / 2 ^ e| * 2 ^ e := by
    rw [← abs_of_pos hunit, ← abs_mul, abs_of_pos hunit, sub_mul, div_mul_cancel₀ _ hunit.ne']
  have hnear (j : Nat) := nearest_of_close h.close j
  rw [h.magnitude_eq]
  rcases magnitude_grid other e with ⟨j, hj⟩ | ⟨hmin, hbelow⟩
  · rw [hj, hscale, hscale]
    refine ⟨mul_le_mul_of_nonneg_right (hnear j).1 hunit.le, fun heq => ?_⟩
    rcases (hnear j).2 (mul_right_cancel₀ hunit.ne' heq) with rfl | hhalf
    · exact .inl rfl
    · exact .inr (h.code_even (h.even hhalf))
  · -- the first number of the binade lies between
    have hfirst : |(m : ℚ) * 2 ^ e - x| ≤ |(binade : ℚ) * 2 ^ e - x| := by
      rw [hscale, hscale]
      exact mul_le_mul_of_nonneg_right (hnear binade).1 hunit.le
    have habove := h.above hmin
    rw [abs_sub_comm (binade * 2 ^ e : ℚ) x, abs_of_nonneg (sub_nonneg.mpr habove)] at hfirst
    have hless : |(m : ℚ) * 2 ^ e - x| < |magnitude other - x| := by
      have hpositive : 0 ≤ x - magnitude other := by linarith
      rw [abs_sub_comm (magnitude other) x, abs_of_nonneg hpositive]
      linarith
    exact ⟨hless.le, fun heq => absurd heq hless.ne⟩

end Rounded

/-- The same of the quotient zero, which is on the grid. -/
theorem roundCode_nearest {num den : Nat} (hden : den ≠ 0)
    (hfinite : roundCode num den < infinityCode) (other : Nat) :
    |magnitude (roundCode num den) - (num : ℚ) / den| ≤ |magnitude other - (num : ℚ) / den| ∧
      (|magnitude (roundCode num den) - (num : ℚ) / den| = |magnitude other - (num : ℚ) / den| →
        magnitude other = magnitude (roundCode num den) ∨ roundCode num den % 2 = 0) := by
  by_cases hnum : num = 0
  · subst hnum
    have hzero : magnitude 0 = 0 := by rw [magnitude_eq]; simp [significand, binade]
    have hcode : roundCode 0 den = 0 := if_pos rfl
    rw [hcode, hzero, Nat.cast_zero, zero_div, sub_zero, abs_zero]
    exact ⟨abs_nonneg _, fun _ => .inr rfl⟩
  · obtain ⟨e, m, h⟩ := rounded_roundCode hnum hden hfinite
    exact h.nearest other

/-! ## Doubles -/

/-- **What it means that a double is nearest to a rational.** It is finite, no finite double is
nearer, and if another one is as near, its code is even. -/
structure NearestTo (x : Binary64) (q : ℚ) : Prop where
  finite : x.code < infinityCode
  nearest : ∀ y : Binary64, y.code < infinityCode → |x.toRat - q| ≤ |y.toRat - q|
  even : ∀ y : Binary64, y.code < infinityCode → |x.toRat - q| = |y.toRat - q| →
    y.toRat = x.toRat ∨ x.code % 2 = 0

theorem negative_ofCode (negative : Bool) {c : Nat} (h : c ≤ infinityCode) :
    (ofCode negative c).negative = negative := by
  have hc : c < signBit := Nat.lt_of_le_of_lt h (by decide)
  have hsign : signBit = 2 ^ 63 := by decide
  rw [hsign] at hc
  unfold ofCode Binary64.negative
  rw [hsign, UInt64.toNat_ofNat']
  cases negative with
  | false => rw [if_neg Bool.false_ne_true, decide_eq_false_iff_not]; omega
  | true => rw [if_pos rfl, decide_eq_true_eq]; omega

theorem code_ofRat (q : ℚ) : (ofRat q).code = roundCode q.num.natAbs q.den :=
  Typing.code_ofCode _ (Typing.roundCode_le _ _)

/-- A rational and its double have the same sign. -/
theorem toRat_ofRat (q : ℚ) :
    (ofRat q).toRat = if q < 0 then -magnitude (ofRat q).code else magnitude (ofRat q).code := by
  have hnegative : (ofRat q).negative = decide (q.num < 0) :=
    negative_ofCode _ (Typing.roundCode_le _ _)
  rw [toRat, hnegative]
  simp only [decide_eq_true_eq, Rat.num_neg]

theorem abs_eq_num_div_den (q : ℚ) : |q| = (q.num.natAbs : ℚ) / q.den := by
  rw [Nat.cast_natAbs, Int.cast_abs]
  conv_lhs => rw [← Rat.num_div_den q]
  rw [abs_div, Nat.abs_cast]

theorem abs_toRat (y : Binary64) : |y.toRat| = magnitude y.code := by
  unfold toRat
  split
  · rw [abs_neg, abs_of_nonneg (magnitude_nonneg _)]
  · rw [abs_of_nonneg (magnitude_nonneg _)]

/-- A double is no nearer to a rational than its magnitude to that of the rational. -/
theorem abs_magnitude_sub_le (y : Binary64) (q : ℚ) :
    |magnitude y.code - (|q|)| ≤ |y.toRat - q| := by
  rw [← abs_toRat]
  exact abs_abs_sub_abs_le y.toRat q

theorem abs_toRat_ofRat_sub (q : ℚ) :
    |(ofRat q).toRat - q| = |magnitude (ofRat q).code - (|q|)| := by
  rw [toRat_ofRat]
  split
  · next hq => rw [abs_of_neg hq, ← abs_neg, neg_sub, sub_neg_eq_add, sub_neg_eq_add, add_comm]
  · next hq => rw [abs_of_nonneg (not_lt.mp hq)]

/-- A double and its opposite are as far from a rational only if one of the three is zero. -/
theorem eq_neg_or_even {q : ℚ} (h : |(ofRat q).toRat - q| = |-(ofRat q).toRat - q|) :
    -(ofRat q).toRat = (ofRat q).toRat ∨ (ofRat q).code % 2 = 0 := by
  rcases abs_eq_abs.mp h with hsame | hopposite
  · exact .inl (by linarith)
  · right
    have hq : q = 0 := by linarith
    rw [code_ofRat, hq]
    rfl

/-- **Rounding gives the nearest double**, if it gives a finite one. -/
theorem nearestTo_ofRat {q : ℚ} (hfinite : (ofRat q).code < infinityCode) :
    NearestTo (ofRat q) q := by
  have hnearest (y : Binary64) := roundCode_nearest q.den_ne_zero
    (by rw [← code_ofRat]; exact hfinite) y.code
  rw [← abs_eq_num_div_den, ← code_ofRat] at hnearest
  refine ⟨hfinite, fun y _ => ?_, fun y _ heq => ?_⟩
  · rw [abs_toRat_ofRat_sub]
    exact (hnearest y).1.trans (abs_magnitude_sub_le y q)
  · have hle := abs_magnitude_sub_le y q
    rw [← heq, abs_toRat_ofRat_sub] at hle
    rcases (hnearest y).2 (le_antisymm (hnearest y).1 hle) with hmagnitude | heven
    · -- of two doubles with one magnitude, the one with the other sign is farther
      rw [← abs_toRat, ← abs_toRat, abs_eq_abs] at hmagnitude
      rcases hmagnitude with hsame | hopposite
      · exact .inl hsame
      · rw [hopposite] at heq ⊢
        exact eq_neg_or_even heq
    · exact .inr heven

end LetWhile.Binary64
