import Packwright.Proofs.Binary64.Rounding

/-!
# Digits that read back

The digits that a number is printed with are read back as that number.

* `pointPosition_spec`: the position of the point in front of which the digits start.
* `onGrid?_seventeen`: with seventeen digits the nearest decimal fraction is near enough, so the
  search for the fewest digits ends.
* `ofDecimal_digits`: what is found reads back, also without the zeros at its end.
-/

namespace Packwright.Binary64

/-! ## The position of the point -/

/-- The counted zeros bring the number just below one: one more would reach it. -/
theorem leadingZeros_spec {fuel num den : Nat} (hlt : num < den) (hfuel : den ≤ num * 10 ^ fuel) :
    num * 10 ^ leadingZeros fuel num den < den ∧
      den ≤ num * 10 ^ (leadingZeros fuel num den + 1) := by
  fun_induction leadingZeros fuel num den with
  | case1 num den => omega
  | case2 fuel num den hle => exact ⟨by simpa using hlt, by simpa using hle⟩
  | case3 fuel num den hnot ih =>
    have hstep := ih (by omega) (by rw [Nat.pow_succ'] at hfuel; rwa [Nat.mul_assoc])
    rw [Nat.mul_assoc, Nat.mul_assoc, ← Nat.pow_succ', ← Nat.pow_succ'] at hstep
    exact hstep

/-- The position of the point is the power of ten just above the number. -/
theorem pointPosition_spec {num den : Nat} (hden : 0 < den)
    (hsmall : den ≤ num * 10 ^ 400) :
    (10 : ℚ) ^ (pointPosition num den - 1) ≤ num / den ∧
      (num : ℚ) / den < 10 ^ pointPosition num den := by
  have hd : (0 : ℚ) < den := by exact_mod_cast hden
  unfold pointPosition
  -- from one on the digits of the whole part are counted, below it the zeros behind the point
  split
  · rename_i hle
    have hpos : 0 < num / den := Nat.div_pos hle hden
    have hcount := digitCount_pos (num / den)
    constructor
    · have hlow : 10 ^ (digitCount (num / den) - 1) * den ≤ num :=
        (Nat.le_div_iff_mul_le hden).mp (pow_le_of_pos hpos)
      have hexp : ((digitCount (num / den) : Int) - 1) = (digitCount (num / den) - 1 : Nat) := by
        omega
      rw [hexp, zpow_natCast, le_div_iff₀ hd]
      exact_mod_cast hlow
    · have hhigh : num < 10 ^ digitCount (num / den) * den :=
        (Nat.div_lt_iff_lt_mul hden).mp (lt_pow_digitCount _)
      rw [zpow_natCast, div_lt_iff₀ hd]
      exact_mod_cast hhigh
  · rename_i hlt
    obtain ⟨hbelow, habove⟩ := leadingZeros_spec (Nat.lt_of_not_le hlt) hsmall
    generalize leadingZeros 400 num den = k at hbelow habove
    constructor
    · have hexp : -(k : Int) - 1 = -((k + 1 : Nat) : Int) := by omega
      rw [hexp, zpow_neg, zpow_natCast, le_div_iff₀ hd, inv_mul_le_iff₀ (by positivity), mul_comm]
      exact_mod_cast habove
    · rw [zpow_neg, zpow_natCast, div_lt_iff₀ hd, ← div_eq_inv_mul, lt_div_iff₀ (by positivity)]
      exact_mod_cast hbelow

/-! ## Seventeen digits -/

section Printing

variable {m : Nat} {e : Int} (hnormal : (finite false m e).IsNormal) (hpos : 0 < m)

/-- The fraction of a number. -/
theorem ratio_spec (m : Nat) (e : Int) :
    0 < (ratio m e).2 ∧ ((ratio m e).1 : ℚ) / (ratio m e).2 = m * 2 ^ e := by
  obtain ⟨hd, hscaled⟩ := scaleBinary_spec m Nat.one_pos (-e)
  refine ⟨hd, ?_⟩
  show ((scaleBinary m 1 (-e)).1 : ℚ) / (scaleBinary m 1 (-e)).2 = _
  rw [hscaled, zpow_neg, Nat.cast_one, div_one, div_inv_eq_mul]

include hnormal hpos

/-- A finite number other than zero lies well within the powers of ten that the search for digits
reaches. -/
theorem value_bounds :
    (10 : ℚ) ^ (-324 : Int) ≤ m * 2 ^ e ∧ (m : ℚ) * 2 ^ e < 10 ^ (309 : Int) := by
  obtain ⟨hm, hemin, hemax, -⟩ := hnormal
  have hone : (1 : ℚ) ≤ m := by exact_mod_cast hpos
  have hpe := two_zpow_pos e
  constructor
  · have hlow : (2 : ℚ) ^ (-1074 : Int) ≤ 2 ^ e := zpow_le_zpow_right₀ (by norm_num) hemin
    -- the smallest subnormal number against the power of ten, as whole numbers
    have hten : (10 : ℚ) ^ (-324 : Int) ≤ 2 ^ (-1074 : Int) := by
      rw [zpow_neg, zpow_neg, inv_le_inv₀ (by positivity) (by positivity)]
      have : (2 ^ 1074 : Nat) ≤ 10 ^ 324 := by decide +kernel
      exact_mod_cast this
    nlinarith
  · have hhigh : (2 : ℚ) ^ e ≤ 2 ^ (971 : Int) := zpow_le_zpow_right₀ (by norm_num) hemax
    have hten : (2 : ℚ) ^ 53 * 2 ^ (971 : Int) < 10 ^ (309 : Int) := by
      have : (2 ^ 53 * 2 ^ 971 : Nat) < 10 ^ 309 := by decide +kernel
      exact_mod_cast this
    have hmq : (m : ℚ) < 2 ^ 53 := by exact_mod_cast hm
    calc (m : ℚ) * 2 ^ e < 2 ^ 53 * 2 ^ e := by gcongr
      _ ≤ 2 ^ 53 * 2 ^ (971 : Int) := by gcongr
      _ < 10 ^ (309 : Int) := hten

/-- The point of a number is where its digits start. -/
theorem point_spec :
    (10 : ℚ) ^ (pointPosition (ratio m e).1 (ratio m e).2 - 1) ≤ m * 2 ^ e ∧
      (m : ℚ) * 2 ^ e < 10 ^ pointPosition (ratio m e).1 (ratio m e).2 := by
  obtain ⟨hd, hvalue⟩ := ratio_spec m e
  obtain ⟨hlow, -⟩ := value_bounds hnormal hpos
  have hdq : (0 : ℚ) < (ratio m e).2 := by exact_mod_cast hd
  rw [← hvalue] at hlow ⊢
  refine pointPosition_spec hd ?_
  have hwide : (10 : ℚ) ^ (-400 : Int) ≤ (ratio m e).1 / (ratio m e).2 :=
    (zpow_le_zpow_right₀ (by norm_num) (by decide)).trans hlow
  rw [zpow_neg, le_div_iff₀ hdq, inv_mul_le_iff₀ (by positivity), mul_comm] at hwide
  exact_mod_cast hwide

/-- A decimal fraction of seventeen digits that is half a step of its grid away from a number, at
most, is rounded to that number. -/
theorem ofDecimal_of_near {near : Nat} {grid : Int} (hlarge : 10 ^ 16 ≤ near)
    (hgrid : -347 ≤ grid ∧ grid ≤ 310) (hstep : (10 : ℚ) ^ grid * 10 ^ 16 ≤ m * 2 ^ e)
    (hround : |(near : ℚ) - m * 2 ^ e / 10 ^ grid| ≤ 1 / 2) :
    ofDecimal false near grid = finite false m e := by
  have hten : (0 : ℚ) < 10 ^ grid := zpow_pos (by norm_num) _
  have hpe := two_zpow_pos e
  have hm : (m : ℚ) < 2 ^ 53 := by exact_mod_cast hnormal.1
  have hnear : 0 < near := by omega
  have hdist : |(near : ℚ) * 10 ^ grid - m * 2 ^ e| ≤ 10 ^ grid / 2 := by
    have hsplit : (near : ℚ) * 10 ^ grid - m * 2 ^ e =
        (near - m * 2 ^ e / 10 ^ grid) * 10 ^ grid := by
      field_simp
    rw [hsplit, abs_mul, abs_of_pos hten]
    calc |(near : ℚ) - m * 2 ^ e / 10 ^ grid| * 10 ^ grid ≤ 1 / 2 * 10 ^ grid := by gcongr
      _ = 10 ^ grid / 2 := by ring
  have hcount : 16 < digitCount near := by
    have hlt := hlarge.trans_lt (lt_pow_digitCount near)
    exact (Nat.pow_lt_pow_iff_right (by decide)).mp hlt
  obtain ⟨hd, hvalue⟩ := scaled_digits near grid
  rw [ofDecimal_eq_ofRatio false hnear hgrid.2 (by omega)]
  refine ofRatio_of_near (scaled_digits_pos hnear grid) hd false hnormal hpos ?_ ?_
  · rw [hvalue]
    -- half a step of the grid is less than half of the last place, as 2 ^ 53 < 10 ^ 16
    refine hdist.trans_lt ?_
    nlinarith
  · intro hhalf
    have hm52 : (m : ℚ) = 2 ^ 52 := by exact_mod_cast hhalf
    rw [hvalue]
    have := (abs_le.mp hdist).1
    rw [hm52] at this hstep ⊢
    nlinarith

/-- **Seventeen digits are enough.** On the grid of that many digits the nearest multiple is closer
to the number than any other number is. -/
theorem onGrid?_seventeen :
    (onGrid? m e (pointPosition (ratio m e).1 (ratio m e).2 - 17)).isSome := by
  obtain ⟨hlow, hhigh⟩ := point_spec hnormal hpos
  obtain ⟨hsmall, hgreat⟩ := value_bounds hnormal hpos
  obtain ⟨hd, hvalue⟩ := ratio_spec m e
  generalize pointPosition (ratio m e).1 (ratio m e).2 = p at hlow hhigh ⊢
  -- one step of the grid is a small part of the number
  have hten : (0 : ℚ) < 10 ^ (p - 17) := zpow_pos (by norm_num) _
  have hstep : (10 : ℚ) ^ (p - 17) * 10 ^ 16 ≤ m * 2 ^ e := by
    rwa [← zpow_natCast (10 : ℚ) 16, ← zpow_add₀ (by norm_num),
      show p - 17 + ((16 : Nat) : Int) = p - 1 by push_cast; omega]
  obtain ⟨hd', hscaled⟩ := scaleDecimal_spec (ratio m e).1 hd (p - 17)
  rw [hvalue] at hscaled
  have hround := abs_roundDiv_sub_le (scaleDecimal (ratio m e).1 (ratio m e).2 (p - 17)).1 hd'
  have hlarge : 10 ^ 16 ≤ roundDiv (scaleDecimal (ratio m e).1 (ratio m e).2 (p - 17)).1
      (scaleDecimal (ratio m e).1 (ratio m e).2 (p - 17)).2 := by
    refine le_roundDiv hd' ?_
    rw [hscaled, le_div_iff₀ hten]
    push_cast
    linarith
  rw [hscaled] at hround
  unfold onGrid?
  dsimp only
  generalize roundDiv (scaleDecimal (ratio m e).1 (ratio m e).2 (p - 17)).1
    (scaleDecimal (ratio m e).1 (ratio m e).2 (p - 17)).2 = near at hround hlarge ⊢
  have hpoint : -324 < p ∧ p - 1 < 309 :=
    ⟨(zpow_lt_zpow_iff_right₀ (by norm_num)).mp (hsmall.trans_lt hhigh),
      (zpow_lt_zpow_iff_right₀ (by norm_num)).mp (hlow.trans_lt hgreat)⟩
  have hreads : ofDecimal false near (p - 17) = finite false m e :=
    ofDecimal_of_near hnormal hpos hlarge (by omega) hstep hround
  rw [if_pos (by simpa using hreads)]
  rfl

end Printing

/-! ## The digits of a number -/

/-- Digits that the grid offers read back as the number, because that is what it tried. -/
theorem onGrid?_eq_some {m ds : Nat} {e grid exponent : Int}
    (h : onGrid? m e grid = some (ds, exponent)) :
    ofDecimal false ds exponent = finite false m e := by
  -- either neighbour is offered only after it was read and found equal
  have hpick : ∀ near other : Nat,
      (if ofDecimal false near grid == finite false m e then some (near, grid)
        else if ofDecimal false other grid == finite false m e then some (other, grid)
        else none) = some (ds, exponent) → ofDecimal false ds exponent = finite false m e := by
    intro near other h
    split at h
    · rename_i hreads
      obtain ⟨rfl, rfl⟩ := Prod.mk.inj (Option.some.inj h)
      exact beq_iff_eq.mp hreads
    · split at h
      · rename_i hreads
        obtain ⟨rfl, rfl⟩ := Prod.mk.inj (Option.some.inj h)
        exact beq_iff_eq.mp hreads
      · simp at h
  exact hpick _ _ h

/-- What the search for the fewest digits finds is read back. -/
theorem shortest?_eq_some {m ds tries count : Nat} {e point exponent : Int}
    (h : shortest? m e point tries count = some (ds, exponent)) :
    ofDecimal false ds exponent = finite false m e := by
  fun_induction shortest? m e point tries count with
  | case1 => simp at h
  | case2 tries count found hfound =>
    obtain rfl := Option.some.inj h
    exact onGrid?_eq_some hfound
  | case3 tries count _ ih => exact ih h

/-- The search ends if it comes to a grid on which there is something to find. -/
theorem shortest?_isSome {m tries count : Nat} {e point : Int}
    (h : (onGrid? m e (point - (count + tries : Nat))).isSome) :
    (shortest? m e point (tries + 1) count).isSome := by
  induction tries generalizing count with
  | zero =>
    obtain ⟨found, hfound⟩ := Option.isSome_iff_exists.mp h
    rw [shortest?, show (onGrid? m e (point - count)) = some found from hfound]
    rfl
  | succ tries ih =>
    rw [shortest?]
    split
    · rfl
    · exact ih (by rwa [show count + 1 + tries = count + (tries + 1) by omega])

/-- A number with another sign. -/
def signed (negative : Bool) : Binary64 → Binary64
  | finite _ m e => finite negative m e
  | infinite _ => infinite negative
  | nan => nan

/-- The sign takes no part in rounding. -/
theorem ofDecimal_eq_signed (negative : Bool) (ds : Nat) (exponent : Int) :
    ofDecimal negative ds exponent = signed negative (ofDecimal false ds exponent) := by
  -- the sign is set at the end and does not take part in the rounding
  have hratio : ∀ num den, ofRatio negative num den = signed negative (ofRatio false num den) := by
    intro num den
    rcases Nat.eq_zero_or_pos num with rfl | hnum
    · rfl
    · rw [ofRatio_eq negative hnum rfl rfl, ofRatio_eq false hnum rfl rfl]
      simp only [apply_ite (signed negative)]
      rfl
  unfold ofDecimal
  split
  · rfl
  · split
    · rfl
    · split
      · rfl
      · exact hratio _ _

/-- Trailing zeros may go into the exponent. -/
theorem ofDecimal_dropZeros (negative : Bool) (fuel ds : Nat) (exponent : Int) :
    ofDecimal negative (dropZeros fuel ds exponent).1 (dropZeros fuel ds exponent).2 =
      ofDecimal negative ds exponent := by
  fun_induction dropZeros fuel ds exponent with
  | case1 => rfl
  | case2 fuel ds exponent hzero ih =>
    have hpos : 0 < ds / 10 := Nat.div_pos (by omega) (by decide)
    have hsplit : ds = ds / 10 * 10 := by omega
    rw [ih, ← ofDecimal_mul_ten negative hpos, ← hsplit]
  | case3 => rfl

/-- **The digits of a number read back as it.** -/
theorem ofDecimal_digits {negative : Bool} {m : Nat} {e : Int}
    (hnormal : (finite negative m e).IsNormal) (hpos : 0 < m) :
    ofDecimal negative (digits m e).1 (digits m e).2 = finite negative m e := by
  -- seventeen digits always suffice, so the search for fewer ends in time
  have hfound : (shortest? m e (pointPosition (ratio m e).1 (ratio m e).2) 17 1).isSome :=
    shortest?_isSome (onGrid?_seventeen hnormal hpos)
  obtain ⟨⟨ds, exponent⟩, hds⟩ := Option.isSome_iff_exists.mp hfound
  have hdigits : digits m e = dropZeros 20 ds exponent := by
    unfold digits
    rw [show ratio m e = ((ratio m e).1, (ratio m e).2) from rfl]
    dsimp only
    rw [hds]
    rfl
  rw [hdigits, ofDecimal_dropZeros, ofDecimal_eq_signed, shortest?_eq_some hds]
  rfl

/-- A number other than zero has digits other than zero. -/
theorem digits_pos {m : Nat} {e : Int} (hnormal : (finite false m e).IsNormal) (hpos : 0 < m) :
    0 < (digits m e).1 := by
  rcases Nat.eq_zero_or_pos (digits m e).1 with hzero | hds
  · have hreads := ofDecimal_digits hnormal hpos
    rw [hzero] at hreads
    have hm : 0 = m := (finite.inj hreads).2.1
    omega
  · exact hds

end Packwright.Binary64
