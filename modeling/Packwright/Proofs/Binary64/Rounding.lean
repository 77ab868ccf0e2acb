import Mathlib.Algebra.Order.Field.Basic
import Mathlib.Algebra.Order.Field.Power
import Mathlib.Algebra.Order.Ring.Rat
import Mathlib.Data.Rat.Cast.Order
import Mathlib.Tactic.FieldSimp
import Mathlib.Tactic.Linarith
import Mathlib.Tactic.NormNum
import Mathlib.Tactic.Positivity
import Mathlib.Tactic.Ring
import Packwright.Binary64

/-!
# Rounding

What the rounding of a fraction does, in terms of the rational number that the fraction stands for.
-/

namespace Packwright.Binary64

/-! ## Fractions -/

/-- A fraction divided by a power, the power going to the one side or the other. -/
theorem scale_spec {base : Nat} (hbase : 0 < base) (num : Nat) {den : Nat} (hden : 0 < den)
    (e : Int) {scaled : Nat × Nat}
    (hscaled : scaled =
      if e < 0 then (num * base ^ (-e).toNat, den) else (num, den * base ^ e.toNat)) :
    0 < scaled.2 ∧ (scaled.1 : ℚ) / scaled.2 = (num : ℚ) / den / base ^ e := by
  subst hscaled
  split
  · have hpow : (base : ℚ) ^ e = ((base : ℚ) ^ (-e).toNat)⁻¹ := by
      rw [← zpow_natCast, ← zpow_neg]
      congr 1
      omega
    refine ⟨hden, ?_⟩
    rw [hpow]
    push_cast
    field_simp
  · have hpow : (base : ℚ) ^ e = (base : ℚ) ^ e.toNat := by
      rw [← zpow_natCast]
      congr 1
      omega
    refine ⟨by positivity, ?_⟩
    rw [hpow]
    push_cast
    field_simp

theorem scaleBinary_spec (num : Nat) {den : Nat} (hden : 0 < den) (e : Int) :
    0 < (scaleBinary num den e).2 ∧
      ((scaleBinary num den e).1 : ℚ) / (scaleBinary num den e).2 = (num : ℚ) / den / 2 ^ e :=
  scale_spec (by decide) num hden e rfl

theorem scaleDecimal_spec (num : Nat) {den : Nat} (hden : 0 < den) (e : Int) :
    0 < (scaleDecimal num den e).2 ∧
      ((scaleDecimal num den e).1 : ℚ) / (scaleDecimal num den e).2 = (num : ℚ) / den / 10 ^ e :=
  scale_spec (by decide) num hden e rfl

/-! ## The nearest natural -/

section Nearest

variable {num den : Nat} (hden : 0 < den)

include hden

variable (num) in
/-- Rounding moves a fraction by at most a half. -/
theorem abs_roundDiv_sub_le : |(roundDiv num den : ℚ) - num / den| ≤ 1 / 2 := by
  have hd : (0 : ℚ) < den := by exact_mod_cast hden
  have hsplit : (num : ℚ) / den = (num / den : Nat) + ((num % den : Nat) : ℚ) / den := by
    have hmod : (num : ℚ) = den * (num / den : Nat) + (num % den : Nat) := by
      exact_mod_cast (Nat.div_add_mod num den).symm
    rw [div_eq_iff hd.ne', add_mul, div_mul_cancel₀ _ hd.ne', ← hmod.symm, mul_comm]
  have hlow : (0 : ℚ) ≤ ((num % den : Nat) : ℚ) / den := by positivity
  have hhigh : ((num % den : Nat) : ℚ) / den < 1 := by
    rw [div_lt_one hd]
    exact_mod_cast Nat.mod_lt num hden
  have hbelow : 2 * (num % den) ≤ den → ((num % den : Nat) : ℚ) / den ≤ 1 / 2 := fun h => by
    rw [div_le_div_iff₀ hd two_pos]
    have : (2 : ℚ) * (num % den : Nat) ≤ den := by exact_mod_cast h
    linarith
  have habove : den ≤ 2 * (num % den) → 1 / 2 ≤ ((num % den : Nat) : ℚ) / den := fun h => by
    rw [div_le_div_iff₀ two_pos hd]
    have : (den : ℚ) ≤ 2 * (num % den : Nat) := by exact_mod_cast h
    linarith
  -- the remainder says which neighbour is taken; at one half either will do
  rw [hsplit, abs_le]
  unfold roundDiv
  dsimp only
  split
  · have := hbelow (by omega)
    constructor <;> linarith
  · split
    · have := habove (by omega)
      push_cast
      constructor <;> linarith
    · have := hbelow (by omega)
      have := habove (by omega)
      split <;> push_cast <;> constructor <;> linarith

/-- So a fraction nearer to a whole number than a half is rounded to it. -/
theorem roundDiv_eq_of_near {k : Nat} (h : |(num : ℚ) / den - k| < 1 / 2) :
    roundDiv num den = k := by
  have hround := abs_le.mp (abs_roundDiv_sub_le num hden)
  rw [abs_lt] at h
  have hupper : (roundDiv num den : ℚ) < (k + 1 : Nat) := by push_cast; linarith [hround.2, h.2]
  have hlower : (k : ℚ) < (roundDiv num den + 1 : Nat) := by push_cast; linarith [hround.1, h.1]
  have hupper' : roundDiv num den < k + 1 := by exact_mod_cast hupper
  have hlower' : k < roundDiv num den + 1 := by exact_mod_cast hlower
  omega

/-- Rounding does not go below a whole number that the fraction reaches. -/
theorem le_roundDiv {k : Nat} (h : (k : ℚ) ≤ num / den) : k ≤ roundDiv num den := by
  have hround := abs_le.mp (abs_roundDiv_sub_le num hden)
  have hlt : (k : ℚ) < (roundDiv num den + 1 : Nat) := by push_cast; linarith [hround.1]
  have hlt' : k < roundDiv num den + 1 := by exact_mod_cast hlt
  omega

theorem roundDiv_le {k : Nat} (h : (num : ℚ) / den ≤ k) : roundDiv num den ≤ k := by
  have hround := abs_le.mp (abs_roundDiv_sub_le num hden)
  have hlt : (roundDiv num den : ℚ) < (k + 1 : Nat) := by push_cast; linarith [hround.2]
  have hlt' : roundDiv num den < k + 1 := by exact_mod_cast hlt
  omega

end Nearest

/-! ## The binade of a fraction -/

/-- What a power of two leaves of a number is between the least and the greatest mantissa of
fifty-three bits. -/
def InBinade (x : ℚ) (e : Int) : Prop :=
  2 ^ 52 ≤ x / 2 ^ e ∧ x / 2 ^ e < 2 ^ 53

/-- The binary logarithm, as bounds on the number. -/
theorem log2_bounds {n : Nat} (hn : 0 < n) :
    (2 : ℚ) ^ (Nat.log2 n : Int) ≤ n ∧ (n : ℚ) < 2 ^ ((Nat.log2 n : Int) + 1) := by
  constructor
  · rw [zpow_natCast]
    exact_mod_cast Nat.log2_self_le hn.ne'
  · have hlt : n < 2 ^ (Nat.log2 n + 1) := Nat.lt_log2_self
    have hcast : (n : ℚ) < 2 ^ (Nat.log2 n + 1) := by exact_mod_cast hlt
    exact_mod_cast hcast

theorem two_zpow_pos (e : Int) : (0 : ℚ) < 2 ^ e :=
  zpow_pos two_pos e

/-- The lower end of a binade, with the power multiplied out. -/
theorem InBinade.le {x : ℚ} {e : Int} (h : InBinade x e) : 2 ^ 52 * 2 ^ e ≤ x :=
  (le_div_iff₀ (two_zpow_pos e)).mp h.1

theorem InBinade.lt {x : ℚ} {e : Int} (h : InBinade x e) : x < 2 ^ 53 * 2 ^ e :=
  (div_lt_iff₀ (two_zpow_pos e)).mp h.2

/-- Binades lie beside each other in the order of their exponents. -/
theorem InBinade.lt_of_lt {x y : ℚ} {e e' : Int} (h : InBinade x e) (h' : InBinade y e')
    (he : e < e') : x < y := by
  have hpow : (2 : ℚ) ^ (e + 1) ≤ 2 ^ e' := zpow_le_zpow_right₀ (by norm_num) (by omega)
  rw [zpow_add_one₀ two_ne_zero] at hpow
  calc x < 2 ^ 53 * 2 ^ e := h.lt
    _ = 2 ^ 52 * (2 ^ e * 2) := by ring
    _ ≤ 2 ^ 52 * 2 ^ e' := by gcongr
    _ ≤ y := h'.le

/-- **A number is in one binade.** -/
theorem InBinade.unique {x : ℚ} {e e' : Int} (h : InBinade x e) (h' : InBinade x e') : e = e' := by
  rcases lt_trichotomy e e' with hlt | heq | hgt
  · exact absurd (h.lt_of_lt h' hlt) (lt_irrefl x)
  · exact heq
  · exact absurd (h'.lt_of_lt h hgt) (lt_irrefl x)

/-- The first guess at the binade, from the two logarithms, is off by at most one. -/
theorem log2_div_bounds {num den : Nat} (hnum : 0 < num) (hden : 0 < den) {e : Int}
    (he : e = (Nat.log2 num : Int) - Nat.log2 den - 53) :
    (2 : ℚ) ^ 52 ≤ num / den / 2 ^ e ∧ (num : ℚ) / den / 2 ^ e < 2 ^ 54 := by
  obtain ⟨hnlow, hnhigh⟩ := log2_bounds hnum
  obtain ⟨hdlow, hdhigh⟩ := log2_bounds hden
  have hd : (0 : ℚ) < den := by exact_mod_cast hden
  have hpe := two_zpow_pos e
  -- of the 53 places the denominator may cost one and the numerator may win one
  constructor
  · rw [le_div_iff₀ hpe, le_div_iff₀ hd]
    calc (2 : ℚ) ^ 52 * 2 ^ e * den
        ≤ 2 ^ 52 * 2 ^ e * 2 ^ ((Nat.log2 den : Int) + 1) := by gcongr
      _ = 2 ^ (Nat.log2 num : Int) := by
          rw [← zpow_natCast (2 : ℚ) 52, ← zpow_add₀ two_ne_zero, ← zpow_add₀ two_ne_zero]
          congr 1
          push_cast
          omega
      _ ≤ num := hnlow
  · rw [div_lt_iff₀ hpe, div_lt_iff₀ hd]
    calc (num : ℚ) < 2 ^ ((Nat.log2 num : Int) + 1) := hnhigh
      _ = 2 ^ 54 * 2 ^ e * 2 ^ (Nat.log2 den : Int) := by
          rw [← zpow_natCast (2 : ℚ) 54, ← zpow_add₀ two_ne_zero, ← zpow_add₀ two_ne_zero]
          congr 1
          push_cast
          omega
      _ ≤ 2 ^ 54 * 2 ^ e * den := by gcongr

/-- The guess is corrected: the fraction lies in its binade. -/
theorem inBinade_binade {num den : Nat} (hnum : 0 < num) (hden : 0 < den) :
    InBinade (num / den) (binade num den) := by
  unfold binade InBinade
  dsimp only
  generalize he : (Nat.log2 num : Int) - Nat.log2 den - 53 = e
  obtain ⟨hlow, hhigh⟩ := log2_div_bounds hnum hden he.symm
  obtain ⟨hd, hscaled⟩ := scaleBinary_spec num hden e
  generalize scaleBinary num den e = scaled at hd hscaled ⊢
  obtain ⟨n, d⟩ := scaled
  have hdpos : (0 : ℚ) < d := by exact_mod_cast hd
  have hhalf : (num : ℚ) / den / 2 ^ (e + 1) = num / den / 2 ^ e / 2 := by
    rw [zpow_add_one₀ two_ne_zero]
    ring
  dsimp only at hscaled ⊢
  -- the quotient is in one of two neighbouring binades
  split
  · rename_i hlt
    refine ⟨hlow, ?_⟩
    rw [← hscaled, div_lt_iff₀ hdpos]
    exact_mod_cast (Nat.div_lt_iff_lt_mul hd).mp hlt
  · rename_i hge
    have hmul : (2 : ℚ) ^ 53 ≤ num / den / 2 ^ e := by
      rw [← hscaled, le_div_iff₀ hdpos]
      exact_mod_cast (Nat.le_div_iff_mul_le hd).mp (Nat.le_of_not_lt hge)
    rw [hhalf]
    constructor <;> linarith

/-! ## Rounding a fraction -/

/-- The form that rounding gives to a number: the mantissa has fifty-three bits, or fewer if the
exponent is the least one. -/
def IsNormal : Binary64 → Prop
  | finite _ m e =>
    m < 2 ^ 53 ∧ minExponent ≤ e ∧ e ≤ maxExponent ∧ (2 ^ 52 ≤ m ∨ e = minExponent)
  | infinite _ => True
  | nan => True

section Rounding

variable {num den : Nat} (hnum : 0 < num) (hden : 0 < den)

/-- The rounded fraction, with the two names that its proofs need: the exponent and the mantissa. -/
theorem ofRatio_eq (negative : Bool) (hnum : 0 < num) {e : Int}
    (he : e = max (binade num den) minExponent) {m : Nat}
    (hm : m = roundDiv (scaleBinary num den e).1 (scaleBinary num den e).2) :
    ofRatio negative num den =
      if m = 2 ^ 53 then
        if maxExponent < e + 1 then infinite negative else finite negative (2 ^ 52) (e + 1)
      else if m = 0 then zero negative
      else if maxExponent < e then infinite negative else finite negative m e := by
  subst he hm
  unfold ofRatio
  rw [if_neg hnum.ne']
  dsimp only
  split
  · exact if_neg (Nat.ne_of_gt (Nat.two_pow_pos 52))
  · rfl

include hnum hden

/-- A fraction is rounded in its binade, or with the least exponent if it is smaller than that. -/
theorem scaled_bounds {e : Int} (he : e = max (binade num den) minExponent) :
    (num : ℚ) / den / 2 ^ e < 2 ^ 53 ∧
      (minExponent < e → (2 : ℚ) ^ 52 ≤ num / den / 2 ^ e) := by
  have hbinade := inBinade_binade hnum hden
  have hpe := two_zpow_pos e
  constructor
  · rw [div_lt_iff₀ hpe]
    have hpow : (2 : ℚ) ^ binade num den ≤ 2 ^ e := zpow_le_zpow_right₀ (by norm_num) (by omega)
    calc (num : ℚ) / den < 2 ^ 53 * 2 ^ binade num den := hbinade.lt
      _ ≤ 2 ^ 53 * 2 ^ e := by gcongr
  · intro hlt
    obtain rfl : e = binade num den := by omega
    exact hbinade.1

/-- **Rounding gives numbers in one form only.** -/
theorem isNormal_ofRatio_of_pos (negative : Bool) : (ofRatio negative num den).IsNormal := by
  generalize he : max (binade num den) minExponent = e
  generalize hm : roundDiv (scaleBinary num den e).1 (scaleBinary num den e).2 = m
  obtain ⟨hupper, hlower⟩ := scaled_bounds hnum hden he.symm
  obtain ⟨hd, hscaled⟩ := scaleBinary_spec num hden e
  rw [← hscaled] at hupper hlower
  -- the scaled fraction is below 2 ^ 53, and above the least exponent also at least 2 ^ 52
  have hmle : m ≤ 2 ^ 53 := hm ▸ roundDiv_le hd (by push_cast; exact hupper.le)
  have hmge : minExponent < e → 2 ^ 52 ≤ m := fun hlt =>
    hm ▸ le_roundDiv hd (by push_cast; exact hlower hlt)
  have hemin : minExponent ≤ e := he ▸ le_max_right _ _
  rw [ofRatio_eq negative hnum he.symm hm.symm]
  split
  · split
    · trivial
    · exact ⟨by decide, by omega, by omega, .inl le_rfl⟩
  · rename_i hne
    split
    · exact ⟨by decide, le_rfl, by decide, .inr rfl⟩
    · split
      · trivial
      · refine ⟨by omega, hemin, by omega, ?_⟩
        -- a mantissa with fewer bits is allowed at the least exponent only
        by_cases hlt : minExponent < e
        · exact .inl (hmge hlt)
        · exact .inr (by omega)

omit hnum in
/-- Less than half a unit away, a multiple of the unit is what a fraction is rounded to. -/
theorem roundDiv_scaleBinary {k : Nat} {e : Int} (h : |(num : ℚ) / den - k * 2 ^ e| < 2 ^ e / 2) :
    roundDiv (scaleBinary num den e).1 (scaleBinary num den e).2 = k := by
  have hpe := two_zpow_pos e
  obtain ⟨hd, hscaled⟩ := scaleBinary_spec num hden e
  refine roundDiv_eq_of_near hd ?_
  rw [abs_lt] at h
  rw [hscaled, abs_lt]
  constructor
  · rw [lt_sub_iff_add_lt, lt_div_iff₀ hpe]
    linarith [h.1]
  · rw [sub_lt_iff_lt_add, div_lt_iff₀ hpe]
    linarith [h.2]

/-- A fraction near a number is rounded to it if its binade is that of the number, or a smaller one
where the exponent of the number is the least. -/
theorem ofRatio_of_near_of_le (negative : Bool) {m : Nat} {e : Int}
    (hnormal : (finite negative m e).IsNormal) (hpos : 0 < m)
    (hnear : |(num : ℚ) / den - m * 2 ^ e| < 2 ^ e / 2)
    (hcase : (2 : ℚ) ^ 52 * 2 ^ e ≤ num / den ∨ e = minExponent) :
    ofRatio negative num den = finite negative m e := by
  obtain ⟨hm, hemin, hemax, -⟩ := hnormal
  have hpe := two_zpow_pos e
  have hbinade := inBinade_binade hnum hden
  -- the exponent of the number is the one that is rounded with
  have he : e = max (binade num den) minExponent := by
    by_cases hlow : (2 : ℚ) ^ 52 * 2 ^ e ≤ num / den
    · have hm53 : (m : ℚ) + 1 ≤ (2 ^ 53 : Nat) := by exact_mod_cast hm
      push_cast at hm53
      have hin : InBinade (num / den) e := by
        refine ⟨(le_div_iff₀ hpe).mpr hlow, (div_lt_iff₀ hpe).mpr ?_⟩
        nlinarith [(abs_lt.mp hnear).2]
      rw [hin.unique hbinade] at hemin ⊢
      omega
    · have hmin := hcase.resolve_left hlow
      have hlt : (2 : ℚ) ^ binade num den < 2 ^ e := by
        have := hbinade.le
        rw [not_le] at hlow
        exact lt_of_mul_lt_mul_left (this.trans_lt hlow) (by positivity)
      have := (zpow_lt_zpow_iff_right₀ (by norm_num : (1 : ℚ) < 2)).mp hlt
      omega
  rw [ofRatio_eq negative hnum he (roundDiv_scaleBinary hden hnear).symm, if_neg (by omega),
    if_neg (by omega), if_neg (by omega)]

/-- A fraction that is close below a power of two is rounded to it. -/
theorem ofRatio_of_near_below (negative : Bool) {e : Int} (hemin : minExponent < e)
    (hemax : e ≤ maxExponent) (hlow : (num : ℚ) / den < 2 ^ 52 * 2 ^ e)
    (hquarter : (2 : ℚ) ^ 52 * 2 ^ e - num / den < 2 ^ e / 4) :
    ofRatio negative num den = finite negative (2 ^ 52) e := by
  have hdouble : (2 : ℚ) ^ e = 2 ^ (e - 1) * 2 := by
    rw [← zpow_add_one₀ two_ne_zero]
    congr 1
    omega
  have hpe := two_zpow_pos (e - 1)
  rw [hdouble] at hquarter hlow
  -- it is rounded in the binade below, up to 2 ^ 53, which is carried over
  have hin : InBinade (num / den) (e - 1) := by
    constructor
    · rw [le_div_iff₀ hpe]
      nlinarith
    · rw [div_lt_iff₀ hpe]
      nlinarith
  have he : e - 1 = max (binade num den) minExponent := by
    have := hin.unique (inBinade_binade hnum hden)
    omega
  have hnear : |(num : ℚ) / den - (2 ^ 53 : Nat) * 2 ^ (e - 1)| < 2 ^ (e - 1) / 2 := by
    push_cast
    rw [abs_lt]
    constructor <;> linarith
  rw [ofRatio_eq negative hnum he (roundDiv_scaleBinary hden hnear).symm, if_pos rfl,
    if_neg (by omega)]
  congr 1
  omega

/-- **A fraction near a number is rounded to it.** Near means less than half a unit of the last
place away; from below a power of two, where the numbers are twice as dense, less than a quarter. -/
theorem ofRatio_of_near (negative : Bool) {m : Nat} {e : Int}
    (hnormal : (finite negative m e).IsNormal) (hpos : 0 < m)
    (hnear : |(num : ℚ) / den - m * 2 ^ e| < 2 ^ e / 2)
    (hbelow : m = 2 ^ 52 → (m : ℚ) * 2 ^ e - num / den < 2 ^ e / 4) :
    ofRatio negative num den = finite negative m e := by
  by_cases hcase : (2 : ℚ) ^ 52 * 2 ^ e ≤ num / den ∨ e = minExponent
  · exact ofRatio_of_near_of_le hnum hden negative hnormal hpos hnear hcase
  · -- the number is a power of two and the fraction is below it
    obtain ⟨-, hemin, hemax, hform⟩ := hnormal
    rw [not_or, not_le] at hcase
    obtain ⟨hlow, hne⟩ := hcase
    obtain rfl : m = 2 ^ 52 := by
      have hpe := two_zpow_pos e
      have hge := hform.resolve_right hne
      have hlt : (m : ℚ) * 2 ^ e < (2 ^ 52 + 1) * 2 ^ e := by nlinarith [(abs_lt.mp hnear).1]
      have hlt' : m < 2 ^ 52 + 1 := by exact_mod_cast lt_of_mul_lt_mul_right hlt hpe.le
      omega
    have hquarter := hbelow rfl
    push_cast at hquarter
    exact ofRatio_of_near_below hnum hden negative (by omega) hemax hlow hquarter

end Rounding

theorem isNormal_ofRatio (negative : Bool) (num : Nat) {den : Nat} (hden : 0 < den) :
    (ofRatio negative num den).IsNormal := by
  rcases Nat.eq_zero_or_pos num with rfl | hnum
  · exact ⟨by decide, le_rfl, by decide, .inr rfl⟩
  · exact isNormal_ofRatio_of_pos hnum hden negative

/-- Rounding does not see a common factor. -/
theorem roundDiv_mul_right (num : Nat) {den k : Nat} (hk : 0 < k) :
    roundDiv (num * k) (den * k) = roundDiv num den := by
  have hlt : ∀ a b : Nat, a * k < b * k ↔ a < b := fun a b => Nat.mul_lt_mul_right hk
  unfold roundDiv
  dsimp only
  rw [Nat.mul_div_mul_right _ _ hk, Nat.mul_mod_mul_right, ← Nat.mul_assoc]
  simp only [hlt]

theorem roundDiv_congr {num den num' den' : Nat} (hden : 0 < den) (hden' : 0 < den')
    (h : (num : ℚ) / den = num' / den') : roundDiv num den = roundDiv num' den' := by
  rw [div_eq_div_iff (by exact_mod_cast hden.ne') (by exact_mod_cast hden'.ne')] at h
  have hcross : num * den' = num' * den := by exact_mod_cast h
  rw [← roundDiv_mul_right num hden', ← roundDiv_mul_right num' hden, hcross, Nat.mul_comm den]

/-- **Rounding sees the number only**, not the fraction that stands for it. -/
theorem ofRatio_congr (negative : Bool) {num den num' den' : Nat} (hnum : 0 < num) (hden : 0 < den)
    (hnum' : 0 < num') (hden' : 0 < den') (h : (num : ℚ) / den = num' / den') :
    ofRatio negative num den = ofRatio negative num' den' := by
  have hin := inBinade_binade hnum' hden'
  rw [← h] at hin
  have hbinade := (inBinade_binade hnum hden).unique hin
  generalize he : max (binade num den) minExponent = e
  have he' : e = max (binade num' den') minExponent := by rw [← he, hbinade]
  obtain ⟨hd, hscaled⟩ := scaleBinary_spec num hden e
  obtain ⟨hd', hscaled'⟩ := scaleBinary_spec num' hden' e
  have hround := roundDiv_congr hd hd' (by rw [hscaled, hscaled', h])
  rw [ofRatio_eq negative hnum he.symm rfl, ofRatio_eq negative hnum' he' rfl, hround]

/-- What is beyond the greatest number is infinite. -/
theorem ofRatio_eq_infinite (negative : Bool) {num den : Nat} (hnum : 0 < num) (hden : 0 < den)
    (h : (2 : ℚ) ^ 1024 ≤ num / den) : ofRatio negative num den = infinite negative := by
  have hin := inBinade_binade hnum hden
  -- a number in a binade up to the greatest one would stay below 2 ^ 1024
  have hbinade : maxExponent < binade num den := by
    by_contra hle
    have hpow : (2 : ℚ) ^ binade num den ≤ 2 ^ (971 : Int) :=
      zpow_le_zpow_right₀ (by norm_num) (by unfold maxExponent at hle; omega)
    have hlt := (h.trans_lt hin.lt).trans_le (mul_le_mul_of_nonneg_left hpow (by positivity))
    rw [← zpow_natCast (2 : ℚ) 53, ← zpow_add₀ two_ne_zero, ← zpow_natCast] at hlt
    exact absurd ((zpow_lt_zpow_iff_right₀ (by norm_num)).mp hlt) (by decide)
  generalize he : max (binade num den) minExponent = e
  generalize hm : roundDiv (scaleBinary num den e).1 (scaleBinary num den e).2 = m
  have hmax : maxExponent < e := by omega
  obtain ⟨hd, hscaled⟩ := scaleBinary_spec num hden e
  have hlower := (scaled_bounds hnum hden he.symm).2 (by unfold maxExponent minExponent at *; omega)
  rw [← hscaled] at hlower
  have hmge : 2 ^ 52 ≤ m := hm ▸ le_roundDiv hd (by push_cast; exact hlower)
  rw [ofRatio_eq negative hnum he.symm hm.symm]
  have hne : m ≠ 0 := by omega
  have hmax' : maxExponent < e + 1 := by omega
  simp only [hne, hmax, hmax', if_true, if_false, ite_self]

/-! ## Rounding decimal digits -/

/-- The count of digits, as a bound on the number. -/
theorem digitCount_le_iff {n k : Nat} (hk : 0 < k) : digitCount n ≤ k ↔ n < 10 ^ k :=
  Nat.length_toDigits_le_iff (by decide) hk

theorem digitCount_pos (n : Nat) : 0 < digitCount n :=
  List.length_pos_iff.mpr Nat.toDigits_ne_nil

/-- A number stays below the power of ten with as many zeros as it has digits. -/
theorem lt_pow_digitCount (n : Nat) : n < 10 ^ digitCount n :=
  (digitCount_le_iff (digitCount_pos n)).mp le_rfl

/-- And reaches the power before. -/
theorem pow_le_of_pos {n : Nat} (hn : 0 < n) : 10 ^ (digitCount n - 1) ≤ n := by
  rcases Nat.eq_zero_or_pos (digitCount n - 1) with hone | hmore
  · rw [hone]
    exact hn
  · by_contra hlt
    have := (digitCount_le_iff hmore).mpr (Nat.lt_of_not_le hlt)
    omega

/-- A zero at the end is one more digit. -/
theorem digitCount_mul_ten {n : Nat} (hn : 0 < n) : digitCount (n * 10) = digitCount n + 1 := by
  apply Nat.le_antisymm
  · rw [digitCount_le_iff (by omega), Nat.pow_succ]
    exact Nat.mul_lt_mul_of_pos_right (lt_pow_digitCount n) (by decide)
  · by_contra hlt
    have hle : digitCount (n * 10) ≤ digitCount n := by omega
    have hshort := (digitCount_le_iff (digitCount_pos n)).mp hle
    -- with no more digits than before, ten times the number would be below its own power of ten
    have hlow := pow_le_of_pos hn
    have hsplit : 10 ^ digitCount n = 10 ^ (digitCount n - 1) * 10 := by
      rw [← Nat.pow_succ]
      congr 1
      have := digitCount_pos n
      omega
    omega

/-- **Every decimal is read as a number in its one form.** -/
theorem isNormal_ofDecimal (negative : Bool) (digits : Nat) (exponent : Int) :
    (ofDecimal negative digits exponent).IsNormal := by
  have hzero : (zero negative).IsNormal := ⟨by decide, le_rfl, by decide, .inr rfl⟩
  unfold ofDecimal
  split
  · exact hzero
  · split
    · trivial
    · split
      · exact hzero
      · exact isNormal_ofRatio negative _ (scaleDecimal_spec digits Nat.one_pos (-exponent)).1

/-- The fraction of digits and an exponent. -/
theorem scaled_digits (digits : Nat) (exponent : Int) :
    0 < (scaleDecimal digits 1 (-exponent)).2 ∧
      ((scaleDecimal digits 1 (-exponent)).1 : ℚ) / (scaleDecimal digits 1 (-exponent)).2 =
        digits * 10 ^ exponent := by
  obtain ⟨hd, hscaled⟩ := scaleDecimal_spec digits Nat.one_pos (-exponent)
  refine ⟨hd, ?_⟩
  rw [hscaled, zpow_neg, Nat.cast_one, div_one, div_inv_eq_mul]

/-- Scaling leaves digits other than zero. -/
theorem scaled_digits_pos {digits : Nat} (hdigits : 0 < digits) (exponent : Int) :
    0 < (scaleDecimal digits 1 (-exponent)).1 := by
  obtain ⟨hd, hscaled⟩ := scaled_digits digits exponent
  have hten : (0 : ℚ) < 10 ^ exponent := zpow_pos (by norm_num) exponent
  have hpos : (0 : ℚ) < digits * 10 ^ exponent := mul_pos (by exact_mod_cast hdigits) hten
  rw [← hscaled] at hpos
  rcases Nat.eq_zero_or_pos (scaleDecimal digits 1 (-exponent)).1 with hzero | hnum
  · rw [hzero] at hpos
    simp at hpos
  · exact hnum

/-- Digits that are neither far too great nor far too small are rounded as the fraction they make
up. -/
theorem ofDecimal_eq_ofRatio (negative : Bool) {digits : Nat} {exponent : Int}
    (hdigits : 0 < digits) (hgreat : exponent ≤ 310)
    (hsmall : -330 ≤ exponent + digitCount digits) :
    ofDecimal negative digits exponent =
      ofRatio negative (scaleDecimal digits 1 (-exponent)).1
        (scaleDecimal digits 1 (-exponent)).2 := by
  unfold ofDecimal
  rw [if_neg hdigits.ne', if_neg (by omega), if_neg (by omega)]

/-- A zero at the end of the digits is one in the exponent, also for the limits at which a decimal
is taken as zero or infinite. -/
theorem ofDecimal_mul_ten (negative : Bool) {digits : Nat} (hdigits : 0 < digits)
    (exponent : Int) :
    ofDecimal negative (digits * 10) exponent = ofDecimal negative digits (exponent + 1) := by
  have hmul : 0 < digits * 10 := by omega
  have hcount := digitCount_mul_ten hdigits
  have hvalue : ((digits * 10 : Nat) : ℚ) * 10 ^ exponent = digits * 10 ^ (exponent + 1) := by
    rw [zpow_add_one₀ (by norm_num)]
    push_cast
    ring
  obtain ⟨hd, hscaled⟩ := scaled_digits (digits * 10) exponent
  obtain ⟨hd', hscaled'⟩ := scaled_digits digits (exponent + 1)
  -- one more ten in the exponent may step over the upper limit, but not over the lower one
  rcases lt_or_ge 310 exponent with hgreat | hle
  · unfold ofDecimal
    rw [if_neg hmul.ne', if_neg hdigits.ne', if_pos hgreat, if_pos (by omega)]
  · by_cases hsmall : exponent + digitCount (digits * 10) < -330
    · have hsmall' : exponent + 1 + digitCount digits < -330 := by omega
      have hpos := digitCount_pos digits
      unfold ofDecimal
      rw [if_neg hmul.ne', if_neg hle.not_gt, if_pos hsmall, if_neg hdigits.ne',
        if_neg (by omega : ¬ 310 < exponent + 1), if_pos hsmall']
    · rw [ofDecimal_eq_ofRatio negative hmul hle (by omega)]
      rcases lt_or_ge 310 (exponent + 1) with hgreat | hle'
      · obtain rfl : exponent = 310 := by omega
        have hlimit : (2 ^ 1024 : Nat) ≤ 10 ^ 310 := by decide +kernel
        have hlarge : (2 : ℚ) ^ 1024 ≤ (digits * 10 : Nat) * 10 ^ (310 : Int) := by
          have hcast : (2 : ℚ) ^ 1024 ≤ 10 ^ (310 : Int) := by exact_mod_cast hlimit
          have hone : (1 : ℚ) ≤ (digits * 10 : Nat) := by exact_mod_cast hmul
          calc (2 : ℚ) ^ 1024 ≤ 10 ^ (310 : Int) := hcast
            _ = 1 * 10 ^ (310 : Int) := (one_mul _).symm
            _ ≤ _ := mul_le_mul_of_nonneg_right hone (by positivity)
        rw [ofRatio_eq_infinite negative (scaled_digits_pos hmul 310) hd (hscaled ▸ hlarge)]
        unfold ofDecimal
        rw [if_neg hdigits.ne', if_pos (by omega)]
      · rw [ofDecimal_eq_ofRatio negative hdigits hle' (by omega)]
        exact ofRatio_congr negative (scaled_digits_pos hmul exponent) hd
          (scaled_digits_pos hdigits _) hd' (by rw [hscaled, hscaled', hvalue])

/-- **Zeros behind the digits may go into the exponent.** -/
theorem ofDecimal_mul_pow (negative : Bool) {digits : Nat} (hdigits : 0 < digits) (k : Nat)
    (exponent : Int) :
    ofDecimal negative (digits * 10 ^ k) exponent = ofDecimal negative digits (exponent + k) := by
  induction k generalizing exponent with
  | zero => simp
  | succ k ih =>
    have hpos : 0 < digits * 10 ^ k := by positivity
    rw [Nat.pow_succ, ← Nat.mul_assoc, ofDecimal_mul_ten negative hpos, ih]
    congr 1
    push_cast
    omega

end Packwright.Binary64
