import Mathlib.Order.Monotone.Basic
import LetWhile.Proofs.DecimalRange
import LetWhile.Number.Shortest

/-!
# The shortest decimal rounds back

`Shortest.decimal` looks for a decimal in an interval around a double. Two things have to be seen
before its answer can be trusted. The ends of the interval lie halfway to the two neighbours of the
double, and they belong to it just when the double's code is even, so every number in the interval
is rounded to the double. And there is a decimal to find: the first digit of a double stands at a
power of ten that is no greater than the double, so the grid of the seventeenth digit is finer than
the grid of doubles around it, by so much that of the two points next to the double one is in the
interval. Below a power of two the interval is only half as wide, but there the double has the least
significand of its binade, which makes the decimal grid twice as fine in comparison.
-/

namespace LetWhile

namespace Binary64

/-! ## Neighbouring doubles -/

/-- A code is made of the number of its binade and of its significand. -/
theorem exists_code_eq (code : Nat) :
    ∃ k : Nat, code = k * binade + significand code ∧ exponent code = minExponent + k ∧
      (k = 0 ∨ binade ≤ significand code) := by
  by_cases h : code < binade
  · refine ⟨0, ?_, ?_, .inl rfl⟩
    · rw [significand, if_pos h, Nat.zero_mul, Nat.zero_add]
    · rw [exponent, if_pos h, Nat.cast_zero, add_zero]
  · refine ⟨code / binade - 1, ?_, ?_, .inr ?_⟩
    · rw [significand, if_neg h]
      unfold binade at *
      omega
    · rw [exponent, if_neg h]
    · rw [significand, if_neg h]
      exact Nat.le_add_right _ _

/-- **The next double** is a unit of the last place away. -/
theorem magnitude_succ (code : Nat) :
    magnitude (code + 1) = magnitude code + 2 ^ exponent code := by
  obtain ⟨k, hcode, hexponent, hlow⟩ := exists_code_eq code
  have hlt := significand_lt code
  have hnext : code + 1 = k * binade + (significand code + 1) := by omega
  rw [hnext, magnitude_code (hlow.imp_right Nat.le_succ_of_le) hlt, magnitude_eq, hexponent]
  push_cast
  ring

theorem magnitude_strictMono : StrictMono magnitude := by
  refine strictMono_nat_of_lt_succ fun code => ?_
  have hunit : (0 : ℚ) < 2 ^ exponent code := by positivity
  rw [magnitude_succ]
  linarith

theorem magnitude_succ_pos (code : Nat) : 0 < magnitude (code + 1) :=
  (magnitude_nonneg code).trans_lt (magnitude_strictMono code.lt_succ_self)

/-- The unit of the last place doubles where a new binade starts. -/
theorem exponent_succ (code : Nat) :
    exponent (code + 1) =
      if significand (code + 1) = binade ∧ minExponent < exponent (code + 1) then exponent code + 1
      else exponent code := by
  unfold exponent significand binade
  split_ifs <;> omega

theorem significand_even_iff (code : Nat) : significand code % 2 = 0 ↔ code % 2 = 0 := by
  unfold significand binade
  split <;> omega

end Binary64

open Binary64

namespace Shortest

/-! ## The interval of a double -/

theorem Interval.contains_iff {i : Interval} {q : ℚ} :
    i.contains q = true ↔
      i.low ≤ q ∧ q ≤ i.high ∧ (q = i.low ∨ q = i.high → i.closed = true) := by
  unfold Interval.contains
  split
  · next h => simp [h]
  · next h =>
    simp only [Bool.and_eq_true, decide_eq_true_eq, h, Bool.false_eq_true, imp_false]
    constructor
    · rintro ⟨hlow, hhigh⟩
      exact ⟨hlow.le, hhigh.le, fun hend => hend.elim hlow.ne' hhigh.ne⟩
    · rintro ⟨hlow, hhigh, hends⟩
      exact ⟨hlow.lt_of_ne fun h => hends (.inl h.symm),
        hhigh.lt_of_ne fun h => hends (.inr h)⟩

/-- **The interval of a double ends halfway to its neighbours**, and the ends belong to it just when
its code is even. -/
theorem interval_succ (code : Nat) :
    interval (code + 1) =
      { low := (magnitude code + magnitude (code + 1)) / 2
        high := (magnitude (code + 1) + magnitude (code + 2)) / 2
        closed := (code + 1) % 2 = 0 } := by
  have hpos : 0 < significand (code + 1) := by
    unfold significand binade
    split <;> omega
  have hquarter (e : Int) : twoPow (e - 2) = (2 : ℚ) ^ e / 4 := by
    rw [twoPow_eq_zpow, zpow_sub₀ two_ne_zero]
    norm_num
  have hunit := exponent_succ code
  have hbelow := magnitude_succ code
  have habove := magnitude_succ (code + 1)
  have hself := magnitude_eq (code + 1)
  unfold interval
  simp only [Interval.mk.injEq, hquarter, significand_even_iff, and_true]
  constructor
  · -- the gap below is half as wide where a binade starts
    split at hunit
    · next hfirst =>
      rw [if_pos hfirst, Nat.cast_sub (by omega)]
      rw [hunit, zpow_add_one₀ two_ne_zero] at hself ⊢
      push_cast
      linarith
    · next hinside =>
      rw [if_neg hinside, Nat.cast_sub (by omega)]
      rw [hunit] at hself ⊢
      push_cast
      linarith
  · push_cast
    linarith

/-- From the middle between `a` and `b` on, nothing up to `a` is nearer than `b`, and only `a` is as
near. -/
theorem eq_middle_of_abs_le {a b x y : ℚ} (hab : a < b) (hy : y ≤ a) (hx : (a + b) / 2 ≤ x)
    (hnear : |y - x| ≤ |b - x|) : x = (a + b) / 2 ∧ y = a ∧ |y - x| = |b - x| := by
  have hyx : |y - x| = x - y := by rw [abs_sub_comm, abs_of_nonneg (by linarith)]
  rcases le_total x b with hxb | hbx
  · have hbx : |b - x| = b - x := abs_of_nonneg (by linarith)
    rw [hyx, hbx] at hnear ⊢
    exact ⟨by linarith, by linarith, by linarith⟩
  · rw [hyx, abs_sub_comm b x, abs_of_nonneg (by linarith)] at hnear
    linarith

/-- **Every number in the interval of a double is rounded to it.** Its neighbours are at least as
far away, and where one of them is just as far, the double is even and the neighbour odd. -/
theorem code_eq_of_contains {code c m : Nat} {x : ℚ} {e : Int} (h : Rounded x e m c)
    (hx : (interval (code + 1)).contains x = true) : c = code + 1 := by
  rw [interval_succ, Interval.contains_iff] at hx
  obtain ⟨hlow, hhigh, hends⟩ := hx
  simp only [decide_eq_true_eq] at hlow hhigh hends
  obtain ⟨hnear, heven⟩ := h.nearest (code + 1)
  -- a neighbour that is as far away would have to be even as well
  have hparity (hc : c ≠ code + 1) (hfar : |magnitude c - x| = |magnitude (code + 1) - x|) :
      c % 2 = 0 :=
    (heven hfar).resolve_left fun heq => hc (magnitude_strictMono.injective heq).symm
  rcases Nat.lt_trichotomy c (code + 1) with hlt | heq | hgt
  · obtain ⟨hmiddle, hc, hfar⟩ := eq_middle_of_abs_le (magnitude_strictMono code.lt_succ_self)
      (magnitude_strictMono.monotone (Nat.le_of_lt_succ hlt)) hlow hnear
    have hcode : c = code := magnitude_strictMono.injective hc
    have hself := hends (.inl hmiddle)
    have hneighbour := hparity hlt.ne hfar
    omega
  · exact heq
  · -- the same on the other side, where everything is seen with its sign turned
    have hneg (y : ℚ) : |-y - -x| = |y - x| := by rw [← abs_neg, neg_sub_neg, neg_sub]
    obtain ⟨hmiddle, hc, hfar⟩ := eq_middle_of_abs_le (x := -x)
      (neg_lt_neg (magnitude_strictMono (code + 1).lt_succ_self))
      (neg_le_neg (magnitude_strictMono.monotone hgt)) (by linarith) (by rwa [hneg, hneg])
    have hcode : c = code + 2 := magnitude_strictMono.injective (neg_injective hc)
    have hself := hends (.inr (by linarith))
    have hneighbour := hparity hgt.ne' (by rwa [hneg, hneg] at hfar)
    omega

/-- The numbers in the interval of a finite double have its code. -/
theorem code_ofRat_of_contains {code : Nat} {x : ℚ} (hpos : 0 < code)
    (hfinite : code < infinityCode) (hx : (interval code).contains x = true) :
    (ofRat x).code = code := by
  obtain ⟨code, rfl⟩ := Nat.exists_eq_succ_of_ne_zero hpos.ne'
  have hlow : 0 < x := by
    have hcontains := hx
    rw [Nat.succ_eq_add_one, interval_succ, Interval.contains_iff] at hcontains
    have hnonneg := magnitude_nonneg code
    have hpositive := magnitude_succ_pos code
    linarith [hcontains.1]
  obtain ⟨e, m, c, h, hcode⟩ := exists_rounded_ofRat hlow.ne'
  rw [abs_of_pos hlow] at h
  rw [hcode, code_eq_of_contains h hx]
  omega

/-! ## The decimal grid -/

theorem tenPow_eq_zpow (e : Int) : Decimal.tenPow e = (10 : ℚ) ^ e := by
  rw [Decimal.tenPow, natPow_eq_zpow, Nat.cast_ofNat]

theorem toRat_eq (d : Decimal) : d.toRat = d.digits * (10 : ℚ) ^ d.exponent := by
  rw [Decimal.toRat, tenPow_eq_zpow]

theorem toRat_normalize (d : Decimal) : d.normalize.toRat = d.toRat := by
  fun_induction Decimal.normalize d with
  | case1 d h ih =>
      have hdigits : (d.digits : ℚ) = (d.digits / 10 : Nat) * 10 := by
        exact_mod_cast (Nat.div_mul_cancel (Nat.dvd_of_mod_eq_zero h.2)).symm
      rw [ih, toRat_eq, toRat_eq, hdigits, zpow_add_one₀ (by norm_num)]
      ring
  | case2 => rfl

theorem lt_pow_length_toDigits (n : Nat) : n < 10 ^ (Nat.toDigits 10 n).length :=
  (Nat.length_toDigits_le_iff (by decide) Nat.length_toDigits_pos).mp le_rfl

theorem pow_length_toDigits_le {n : Nat} (hn : 0 < n) :
    10 ^ ((Nat.toDigits 10 n).length - 1) ≤ n := by
  by_cases hone : (Nat.toDigits 10 n).length - 1 = 0
  · rw [hone, pow_zero]
    exact hn
  · have hlong : ¬ (Nat.toDigits 10 n).length ≤ (Nat.toDigits 10 n).length - 1 := by omega
    rwa [Nat.length_toDigits_le_iff (by decide) (Nat.pos_of_ne_zero hone), not_lt] at hlong

/-- **The first digit of a number** stands at a power of ten that is no greater than it. -/
theorem zpow_leadingExponent_le {q : ℚ} (hq : 0 < q) : (10 : ℚ) ^ leadingExponent q ≤ q := by
  unfold leadingExponent
  split
  · next hone =>
    -- the whole part has as many digits as the power of ten, and one more
    have hfloor : 1 ≤ q.floor := Rat.le_floor_iff.mpr (by exact_mod_cast hone)
    obtain ⟨n, hn⟩ := Int.eq_ofNat_of_zero_le (zero_le_one.trans hfloor)
    have hlength : 0 < (Nat.toDigits 10 n).length := Nat.length_toDigits_pos
    have hle : (10 : ℚ) ^ ((Nat.toDigits 10 n).length - 1) ≤ n := by
      exact_mod_cast pow_length_toDigits_le (by omega : 0 < n)
    rw [hn, Int.toNat_natCast, ← Int.natCast_pred_of_pos hlength, zpow_natCast]
    calc (10 : ℚ) ^ ((Nat.toDigits 10 n).length - 1) ≤ n := hle
      _ = (q.floor : ℚ) := by rw [hn]; rfl
      _ ≤ q := Rat.floor_le q
  · next hone =>
    -- the inverse is at most one more than a number of so many digits
    have hceil : 0 < q⁻¹.ceil := by
      have hle : q⁻¹ ≤ (q⁻¹.ceil : ℚ) := Rat.le_ceil
      exact_mod_cast (inv_pos.mpr hq).trans_le hle
    obtain ⟨n, hn⟩ := Int.eq_succ_of_zero_lt hceil
    have hlt : n + 1 ≤ 10 ^ (Nat.toDigits 10 n).length := lt_pow_length_toDigits n
    rw [hn, Int.toNat_natCast_add_one, Nat.add_sub_cancel, zpow_neg, zpow_natCast]
    refine inv_le_of_inv_le₀ hq ?_
    calc q⁻¹ ≤ (q⁻¹.ceil : ℚ) := Rat.le_ceil
      _ = ((n + 1 : Nat) : ℚ) := by rw [hn]; push_cast; rfl
      _ ≤ 10 ^ (Nat.toDigits 10 n).length := by exact_mod_cast hlt

/-! ## The search -/

section Search

variable {i : Interval} {q : ℚ}

theorem contains_of_onGrid? {e : Int} {d : Decimal} (h : onGrid? i q e = some d) :
    i.contains d.toRat = true := by
  unfold onGrid? at h
  dsimp only at h
  split at h
  · next hbelow habove =>
    split_ifs at h
    all_goals cases h; assumption
  · next hbelow _ => cases h; exact hbelow
  · next _ habove => cases h; exact habove
  · cases h

/-- A grid has something if one of the two points next to `q` is in the interval. -/
theorem onGrid?_ne_none {e : Int}
    (h : ∀ k : Nat, k * (10 : ℚ) ^ e ≤ q → q < (k + 1) * (10 : ℚ) ^ e →
      i.contains (k * (10 : ℚ) ^ e) = true ∨ i.contains ((k + 1) * (10 : ℚ) ^ e) = true)
    (hq : 0 ≤ q) : onGrid? i q e ≠ none := by
  have hgrid : (0 : ℚ) < 10 ^ e := by positivity
  have hfloor : 0 ≤ (q / 10 ^ e).floor := Rat.le_floor_iff.mpr (by push_cast; positivity)
  obtain ⟨k, hk⟩ := Int.eq_ofNat_of_zero_le hfloor
  have hbelow : (k : ℚ) ≤ q / 10 ^ e := by
    have hle := Rat.floor_le (q / 10 ^ e)
    rw [hk] at hle
    exact_mod_cast hle
  have habove : q / 10 ^ e < k + 1 := by
    have hlt := Rat.lt_floor (x := q / 10 ^ e)
    rw [hk] at hlt
    push_cast at hlt
    linarith
  have hnext := h k ((le_div_iff₀ hgrid).mp hbelow) ((div_lt_iff₀ hgrid).mp habove)
  unfold onGrid?
  simp only [tenPow_eq_zpow, toRat_eq, hk, Int.toNat_natCast]
  push_cast
  split
  · split_ifs <;> exact Option.some_ne_none _
  · exact Option.some_ne_none _
  · exact Option.some_ne_none _
  · next hnone₁ hnone₂ =>
    rw [hnone₁, hnone₂] at hnext
    simp at hnext

theorem contains_of_search {count : Nat} {e : Int} {d : Decimal} (h : search i q count e = some d) :
    i.contains d.toRat = true := by
  induction count generalizing e with
  | zero => cases h
  | succ count ih =>
      rw [search] at h
      split at h
      · next d' hgrid => cases h; exact contains_of_onGrid? hgrid
      · exact ih h

/-- The search finds something if one of its grids has something. -/
theorem exists_search {count : Nat} {e : Int} {n : Nat} (hn : n < count)
    (h : onGrid? i q (e - n) ≠ none) : ∃ d, search i q count e = some d := by
  induction count generalizing e n with
  | zero => exact absurd hn n.not_lt_zero
  | succ count ih =>
      rw [search]
      split
      · next d _ => exact ⟨d, rfl⟩
      · next hnone =>
        cases n with
        | zero => exact absurd hnone (by simpa using h)
        | succ n =>
            refine ih (Nat.lt_of_succ_lt_succ hn) ?_
            rwa [sub_sub, add_comm (1 : Int), ← Nat.cast_succ]

end Search

/-! ## Seventeen digits -/

/-- The grid of the seventeenth digit is finer than the grid of doubles, and more than twice as fine
where the doubles below are denser. -/
theorem grid_lt_unit {code : Nat} {g : ℚ} (hg : g * 10 ^ 16 ≤ magnitude (code + 1)) :
    g < 2 ^ exponent (code + 1) ∧
      (exponent code = exponent (code + 1) ∨ 2 * g < 2 ^ exponent (code + 1)) := by
  have hunit : (0 : ℚ) < 2 ^ exponent (code + 1) := by positivity
  have hsignificand : (significand (code + 1) : ℚ) ≤ 2 * binade := by
    exact_mod_cast (significand_lt (code + 1)).le
  rw [magnitude_eq] at hg
  rw [binade_eq] at hsignificand
  constructor
  · -- `2 ^ 53 < 10 ^ 16`
    have hle : significand (code + 1) * (2 : ℚ) ^ exponent (code + 1) ≤
        2 * 2 ^ (52 : Int) * 2 ^ exponent (code + 1) := by gcongr
    norm_num at hle hg
    linarith
  · have hcases := exponent_succ code
    split at hcases
    · next hfirst =>
      -- the least significand of a binade is only `2 ^ 52`
      rw [hfirst.1, binade_eq] at hg
      norm_num at hg
      exact .inr (by linarith)
    · exact .inl hcases.symm

/-- Strictly between the ends of an interval it does not matter whether they belong to it. -/
theorem contains_of_lt {code : Nat} {x : ℚ}
    (hlow : (magnitude code + magnitude (code + 1)) / 2 < x)
    (hhigh : x < (magnitude (code + 1) + magnitude (code + 2)) / 2) :
    (interval (code + 1)).contains x = true := by
  rw [interval_succ, Interval.contains_iff]
  exact ⟨hlow.le, hhigh.le, fun hend => absurd hend (not_or.mpr ⟨hlow.ne', hhigh.ne⟩)⟩

/-- One of the two points of the grid of the seventeenth digit next to a double rounds to it. -/
theorem contains_grid {code k : Nat} {g : ℚ} (hg : g * 10 ^ 16 ≤ magnitude (code + 1))
    (hbelow : k * g ≤ magnitude (code + 1)) (habove : magnitude (code + 1) < (k + 1) * g) :
    (interval (code + 1)).contains (k * g) = true ∨
      (interval (code + 1)).contains ((k + 1) * g) = true := by
  obtain ⟨hfine, hsame⟩ := grid_lt_unit hg
  have hlow := magnitude_succ code
  have hhigh := magnitude_succ (code + 1)
  have hstep : (k + 1) * g = k * g + g := by ring
  have hunit : (0 : ℚ) < 2 ^ exponent code := by positivity
  have hunit' : (0 : ℚ) < 2 ^ exponent (code + 1) := by positivity
  by_cases hnear : (k + 1) * g - magnitude (code + 1) < 2 ^ exponent (code + 1) / 2
  · exact .inr (contains_of_lt (by linarith) (by linarith))
  · -- the point above is far off, so the one below is near
    rcases hsame with hsame | hfiner
    · rw [hsame] at hlow
      exact .inl (contains_of_lt (by linarith) (by linarith))
    · linarith

theorem decimal_contains {code : Nat} (h : 0 < code) :
    (interval code).contains (decimal code).toRat = true := by
  obtain ⟨code, rfl⟩ := Nat.exists_eq_succ_of_ne_zero h.ne'
  have hpos := magnitude_succ_pos code
  obtain ⟨d, hd⟩ : ∃ d, search (interval (code + 1)) (magnitude (code + 1)) 17
      (leadingExponent (magnitude (code + 1))) = some d := by
    -- if nothing was found before, it is found on the last grid
    refine exists_search (n := 16) (by decide) (onGrid?_ne_none (fun k => contains_grid ?_) hpos.le)
    rw [← zpow_natCast, ← zpow_add₀ (by norm_num)]
    simpa using zpow_leadingExponent_le hpos
  unfold decimal
  rw [if_neg h.ne']
  dsimp only
  rw [hd, Option.getD_some, toRat_normalize]
  exact contains_of_search hd

/-- **The shortest decimal of a finite double has its code.** -/
theorem code_ofRat_decimal {code : Nat} (h : code < infinityCode) :
    (ofRat (decimal code).toRat).code = code := by
  rcases Nat.eq_zero_or_pos code with rfl | hpos
  · have hzero : (decimal 0).toRat = 0 := by rw [toRat_eq]; simp [decimal]
    rw [hzero, code_ofRat_zero]
  · exact code_ofRat_of_contains hpos h (decimal_contains hpos)

end Shortest

/-! ## Doubles with a sign -/

namespace Binary64

/-- The shortest decimal of a finite double, with its sign. -/
def shortest (x : Binary64) : ℚ :=
  if x.negative then -(Shortest.decimal x.code).toRat else (Shortest.decimal x.code).toRat

theorem code_ofRat_neg (q : ℚ) : (ofRat (-q)).code = (ofRat q).code := by
  rw [code_ofRat, code_ofRat, Rat.neg_num, Int.natAbs_neg, Rat.neg_den]

/-- A double is known by its sign and its code. -/
theorem ofRat_eq_ofRat {q r : ℚ} (hsign : r < 0 ↔ q < 0)
    (hcode : (ofRat r).code = (ofRat q).code) : ofRat r = ofRat q := by
  have hnum : r.num < 0 ↔ q.num < 0 := by rw [Rat.num_neg, Rat.num_neg, hsign]
  rw [code_ofRat, code_ofRat] at hcode
  unfold ofRat
  rw [hcode, decide_eq_decide.mpr hnum]

/-- **A double is found again from its shortest decimal**, if it is zero or normal. A smaller one
could be the negative zero, and its shortest decimal has no sign. -/
theorem ofRat_shortest {q : ℚ} (h : q = 0 ∨ normalBound ≤ |q| ∧ |q| < finiteBound) :
    ofRat (ofRat q).shortest = ofRat q := by
  have hrep := represents_ofRat h
  have hfinite := hrep.nearest.finite
  have hback := Shortest.code_ofRat_decimal hfinite
  have hnonneg : 0 ≤ (Shortest.decimal (ofRat q).code).toRat := by
    rw [Shortest.toRat_eq]
    positivity
  unfold shortest
  split
  · next hnegative =>
    have hq : q < 0 := hrep.negative_iff.mp hnegative
    have hne : (Shortest.decimal (ofRat q).code).toRat ≠ 0 := by
      intro hzero
      rw [hzero, code_ofRat_zero] at hback
      rcases h with rfl | ⟨hlow, -⟩
      · exact lt_irrefl _ hq
      · rw [← not_lt, ← code_ofRat_lt_binade_iff, ← hback] at hlow
        exact hlow (by decide)
    refine ofRat_eq_ofRat (iff_of_true ?_ hq) (by rw [code_ofRat_neg, hback])
    exact neg_lt_zero.mpr (hnonneg.lt_of_ne hne.symm)
  · next hpositive =>
    refine ofRat_eq_ofRat (iff_of_false hnonneg.not_gt fun hq => ?_) hback
    exact hpositive (hrep.negative_iff.mpr hq)

end Binary64

end LetWhile
