import Packwright.Json.Writer
import Packwright.Proofs.Binary64.Digits
import Packwright.Proofs.Json.Faults

/-!
# Numbers are read as they are written

An integer is written in decimal digits, and read from them if they are not too many. Any other
number is written in the fewest digits that read back as it, in one of several layouts; whichever it
is, the digits and the exponent that are read make up the same decimal fraction.
-/

namespace Packwright.Json

open Packwright.Text

variable {limit? : Option Nat}

/-! ## Digits -/

/-- The value of digits is that of the library. -/
theorem natOfDigits_eq (ds : List Char) : natOfDigits ds = Nat.ofDigitChars 10 ds 0 := by
  have hfold : ∀ n, (ds.map fun c => c.toNat - '0'.toNat).foldl (fun n d => n * 10 + d) n =
      Nat.ofDigitChars 10 ds n := by
    induction ds with
    | nil => exact fun _ => rfl
    | cons c rest ih =>
      intro n
      rw [List.map_cons, List.foldl_cons, ih, Nat.ofDigitChars_cons, Nat.mul_comm]
  exact hfold 0

theorem natOfDigits_toDigits (n : Nat) : natOfDigits (Nat.toDigits 10 n) = n := by
  rw [natOfDigits_eq, Nat.ofDigitChars_ten_toDigits]

theorem natOfDigits_zeros (k : Nat) (ds : List Char) :
    natOfDigits (List.replicate k '0' ++ ds) = natOfDigits ds := by
  rw [natOfDigits_eq, natOfDigits_eq, Nat.ofDigitChars_append, Nat.ofDigitChars_replicate_zero,
    Nat.mul_zero]

theorem natOfDigits_append_zeros (ds : List Char) (k : Nat) :
    natOfDigits (ds ++ List.replicate k '0') = natOfDigits ds * 10 ^ k := by
  rw [natOfDigits_eq, natOfDigits_eq, Nat.ofDigitChars_append, Nat.ofDigitChars_replicate_zero,
    Nat.mul_comm]

/-- The whole part of a number as it is written: a zero, or digits that do not start with one. -/
def IsWhole (ds : List Char) : Prop :=
  ds = ['0'] ∨ ds ≠ [] ∧ (∀ d ∈ ds, d.isDigit = true) ∧ ds.head? ≠ some '0'

/-- The digits of a number are written as JSON wants them: no zero in front. -/
theorem isWhole_toDigits (n : Nat) : IsWhole (Nat.toDigits 10 n) := by
  rcases Nat.eq_zero_or_pos n with rfl | hpos
  · exact .inl (by decide)
  · exact .inr ⟨Nat.toDigits_ne_nil, fun d hd => isDigit_of_mem_toDigits hd, head?_toDigits hpos⟩

/-- The whole part is taken in full. -/
theorem takeWhole_of_isWhole {ds rest : List Char} (h : IsWhole ds)
    (hrest : ∀ c ∈ rest.head?, c.isDigit = false) : takeWhole (ds ++ rest) = (ds, rest) := by
  rcases h with rfl | ⟨-, hdigits, hhead⟩
  · rfl
  · exact takeWhole_append hdigits hhead hrest

/-- A whole part begins with a digit. -/
theorem IsWhole.exists_cons {ds : List Char} (h : IsWhole ds) :
    ∃ d more, ds = d :: more ∧ d.isDigit = true := by
  rcases h with rfl | ⟨hne, hdigits, -⟩
  · exact ⟨'0', [], rfl, by decide⟩
  · obtain ⟨d, more, rfl⟩ := List.exists_cons_of_ne_nil hne
    exact ⟨d, more, rfl, hdigits d List.mem_cons_self⟩

/-! ## What stands behind a number -/

/-- What may stand behind a value: nothing, or what goes on with a list or a table or ends it. -/
def IsEnd (rest : List Char) : Prop :=
  ∀ c ∈ rest.head?, c = ',' ∨ c = ']' ∨ c = '\x7d'

/-- What may follow a number cannot prolong it. -/
theorem IsEnd.head_ne {rest : List Char} (h : IsEnd rest) {c : Char} (hc : c ∈ rest.head?) :
    c.isDigit = false ∧ c ≠ '.' ∧ c ≠ 'e' ∧ c ≠ 'E' := by
  rcases h c hc with rfl | rfl | rfl <;> decide

theorem IsEnd.takeFraction {rest : List Char} (h : IsEnd rest) :
    takeFraction rest = ([], rest) := by
  unfold Json.takeFraction
  split
  · exact absurd rfl (h.head_ne rfl).2.1
  · rfl

/-- And no exponent. -/
theorem IsEnd.takeExponent? {rest : List Char} (h : IsEnd rest) : takeExponent? rest = none := by
  unfold Json.takeExponent?
  split
  · rename_i e rest
    have hne := (h.head_ne rfl).2.2
    rw [if_neg (not_or.mpr hne)]
  · rfl

/-- A fraction is taken in full. -/
theorem takeFraction_append {fraction rest : List Char} (hne : fraction ≠ [])
    (hdigits : ∀ d ∈ fraction, d.isDigit = true) (hrest : ∀ c ∈ rest.head?, c.isDigit = false) :
    takeFraction ('.' :: (fraction ++ rest)) = (fraction, rest) := by
  simp only [takeFraction, takeDigits_append hdigits hrest]
  obtain ⟨d, more, rfl⟩ := List.exists_cons_of_ne_nil hne
  rfl

/-! ## Integers -/

def signChars (negative : Bool) : List Char :=
  if negative then ['-'] else []

/-- Sign and digits, with nothing behind them, are a whole number. -/
theorem readNumber_int (negative : Bool) {whole rest : List Char} (hwhole : IsWhole whole)
    (hshort : ∀ limit ∈ limit?, whole.length ≤ limit) (hrest : IsEnd rest) :
    readNumber limit? (signChars negative ++ (whole ++ rest)) =
      .ok (.int (if negative then -natOfDigits whole else natOfDigits whole), rest) := by
  have hdigit : ∀ c ∈ rest.head?, c.isDigit = false := fun c hc => (hrest.head_ne hc).1
  have htake := takeWhole_of_isWhole hwhole hdigit
  -- the limit is not passed
  have hread : limit?.any (· < whole.length) = false := by
    cases limit? with
    | none => rfl
    | some limit => simpa using hshort limit rfl
  obtain ⟨d, more, rfl, hd⟩ := hwhole.exists_cons
  have hsign : d ≠ '-' := by
    rintro rfl
    exact absurd hd (by decide)
  rw [List.cons_append] at htake
  cases negative <;>
    simpa [readNumber, signChars, hsign, htake, hrest.takeFraction, hrest.takeExponent?] using hread

/-! ## Fractions and exponents -/

variable (limit?)

/-- With a fraction they are a decimal, whose exponent counts the digits behind the point. -/
theorem readNumber_fraction (negative : Bool) {whole fraction rest : List Char}
    (hwhole : IsWhole whole) (hne : fraction ≠ []) (hdigits : ∀ d ∈ fraction, d.isDigit = true)
    (hrest : IsEnd rest) :
    readNumber limit? (signChars negative ++ (whole ++ '.' :: (fraction ++ rest))) =
      .ok (.real (.ofDecimal negative (natOfDigits (whole ++ fraction)) (-fraction.length)),
        rest) := by
  have hfraction := takeFraction_append hne hdigits fun c hc => (hrest.head_ne hc).1
  have hhead : ∀ c ∈ ('.' :: (fraction ++ rest)).head?, c.isDigit = false := by simp
  -- the point ends the whole part; what is behind it matters only for the fraction
  generalize '.' :: (fraction ++ rest) = behind at hfraction hhead ⊢
  have htake := takeWhole_of_isWhole hwhole hhead
  obtain ⟨d, more, rfl, hd⟩ := hwhole.exists_cons
  have hsign : d ≠ '-' := by
    rintro rfl
    exact absurd hd (by decide)
  rw [List.cons_append] at htake
  obtain ⟨f, fraction, rfl⟩ := List.exists_cons_of_ne_nil hne
  cases negative <;>
    simp [readNumber, signChars, hsign, htake, hfraction, hrest.takeExponent?]

/-- The digits behind a point, if there are any, with the point. -/
def pointed (fraction : List Char) : List Char :=
  match fraction with
  | [] => []
  | more => '.' :: more

/-- And with an exponent, the exponent is added to that. -/
theorem readNumber_exponent (negative down : Bool) {whole fraction exponent rest : List Char}
    (hwhole : IsWhole whole) (hdigits : ∀ d ∈ fraction, d.isDigit = true) (hne : exponent ≠ [])
    (hexponent : ∀ d ∈ exponent, d.isDigit = true) (hrest : IsEnd rest) :
    readNumber limit? (signChars negative ++ (whole ++ (pointed fraction ++
        'e' :: (if down then '-' else '+') :: (exponent ++ rest)))) =
      .ok (.real (.ofDecimal negative (natOfDigits (whole ++ fraction))
        ((if down then -(natOfDigits exponent : Int) else natOfDigits exponent) - fraction.length)),
        rest) := by
  -- what stands in front of the exponent ends where it starts, as it starts with no digit
  generalize hbehind : 'e' :: (if down then '-' else '+') :: (exponent ++ rest) = behind
  have hhead : ∀ c ∈ behind.head?, c.isDigit = false := by simp [← hbehind]
  have hpointed : ∀ c ∈ (pointed fraction ++ behind).head?, c.isDigit = false := by
    cases fraction with
    | nil => exact hhead
    | cons f fraction => simp [pointed]
  have htake := takeWhole_of_isWhole hwhole hpointed
  have hfraction : takeFraction (pointed fraction ++ behind) = (fraction, behind) := by
    cases fraction with
    | nil => rw [← hbehind]; rfl
    | cons f fraction => exact takeFraction_append (by simp) hdigits hhead
  have hpower : takeExponent? behind =
      some (if down then -(natOfDigits exponent : Int) else natOfDigits exponent, rest) := by
    have hall := takeDigits_append hexponent fun c hc => (hrest.head_ne hc).1
    obtain ⟨x, exponent, rfl⟩ := List.exists_cons_of_ne_nil hne
    rw [List.cons_append] at hall
    rw [← hbehind]
    cases down <;> simp [takeExponent?, hall]
  obtain ⟨d, more, rfl, hd⟩ := hwhole.exists_cons
  have hsign : d ≠ '-' := by
    rintro rfl
    exact absurd hd (by decide)
  rw [List.cons_append] at htake
  cases negative <;> cases fraction <;>
    simp [readNumber, signChars, hsign, htake, hfraction, hpower]

/-! ## Layouts -/

theorem isDigit_of_mem_zeros {k : Nat} : ∀ d ∈ List.replicate k '0', d.isDigit = true := by
  intro d hd
  rw [List.eq_of_mem_replicate hd]
  decide

/-- Whether digits spell a number that is not zero, without zeros in front. -/
structure Spells (text : List Char) (ds : Nat) : Prop where
  pos : 0 < ds
  ne_nil : text ≠ []
  isDigit : ∀ d ∈ text, d.isDigit = true
  head_ne : text.head? ≠ some '0'
  value : natOfDigits text = ds

/-- The digits of a number spell it. -/
theorem spells_toDigits {ds : Nat} (h : 0 < ds) : Spells (Nat.toDigits 10 ds) ds where
  pos := h
  ne_nil := Nat.toDigits_ne_nil
  isDigit := fun _ hd => isDigit_of_mem_toDigits hd
  head_ne := head?_toDigits h
  value := natOfDigits_toDigits ds

section Layouts

variable (negative : Bool) {text rest : List Char} {ds : Nat} (h : Spells text ds)

include h

/-- A spelling with digits behind it is a whole part. -/
theorem Spells.isWhole_append {more : List Char} (hmore : ∀ d ∈ more, d.isDigit = true) :
    IsWhole (text ++ more) := by
  obtain ⟨d, text, rfl⟩ := List.exists_cons_of_ne_nil h.ne_nil
  exact .inr ⟨by simp, List.forall_mem_append.mpr ⟨h.isDigit, hmore⟩, h.head_ne⟩

theorem Spells.isWhole_take {p : Nat} (hp : 0 < p) : IsWhole (text.take p) := by
  obtain ⟨d, text, rfl⟩ := List.exists_cons_of_ne_nil h.ne_nil
  obtain ⟨p, rfl⟩ : ∃ n, p = n + 1 := ⟨p - 1, by omega⟩
  exact .inr ⟨by simp, fun c hc => h.isDigit c (List.mem_of_mem_take hc), h.head_ne⟩

variable (hrest : IsEnd rest)

include hrest

/-- Zeros in front of the digits count. -/
theorem readNumber_zeros_before (k : Nat) :
    readNumber limit? (signChars negative ++ ('0' :: '.' :: List.replicate k '0' ++ text ++ rest)) =
      .ok (.real (.ofDecimal negative ds (-(k + text.length : Nat))), rest) := by
  have hfraction : ∀ d ∈ List.replicate k '0' ++ text, d.isDigit = true :=
    List.forall_mem_append.mpr ⟨isDigit_of_mem_zeros, h.isDigit⟩
  have hread := readNumber_fraction limit? negative (.inl rfl : IsWhole ['0']) (by simp [h.ne_nil])
    hfraction hrest
  have hzeros : natOfDigits (['0'] ++ (List.replicate k '0' ++ text)) = ds := by
    rw [← List.append_assoc]
    exact (natOfDigits_zeros (k + 1) text).trans h.value
  rw [hzeros, List.length_append, List.length_replicate] at hread
  simpa using hread

/-- Zeros behind the digits are a power of ten. -/
theorem readNumber_zeros_behind (k : Nat) :
    readNumber limit? (signChars negative ++ (text ++ List.replicate k '0' ++ ['.', '0'] ++ rest)) =
      .ok (.real (.ofDecimal negative ds k), rest) := by
  have hread := readNumber_fraction limit? negative (h.isWhole_append (isDigit_of_mem_zeros (k := k)))
    (by simp : ['0'] ≠ []) (by simp) hrest
  have hzeros : natOfDigits (text ++ List.replicate k '0' ++ ['0']) = ds * 10 ^ (k + 1) := by
    rw [← h.value, ← natOfDigits_append_zeros, List.append_assoc, List.replicate_succ']
  have hexponent : (-((['0'].length : Nat) : Int)) + ((k + 1 : Nat) : Int) = k := by
    push_cast
    simp only [List.length_singleton]
    omega
  rw [hzeros, Binary64.ofDecimal_mul_pow negative h.pos, hexponent] at hread
  simpa using hread

/-- The layout with the point among the digits reads back. -/
theorem readNumber_point_among {p : Nat} (hp : 0 < p) (hlt : p < text.length) :
    readNumber limit? (signChars negative ++ (text.take p ++ '.' :: text.drop p ++ rest)) =
      .ok (.real (.ofDecimal negative ds (-(text.length - p : Nat))), rest) := by
  have hmore : text.drop p ≠ [] := by
    rw [Ne, List.drop_eq_nil_iff]
    omega
  have hread := readNumber_fraction limit? negative (h.isWhole_take hp) hmore
    (fun d hd => h.isDigit d (List.mem_of_mem_drop hd)) hrest
  rw [List.take_append_drop, h.value, List.length_drop] at hread
  simpa using hread

/-- The exponent is that of the first digit. -/
theorem readNumber_scientific (width : Nat) (power : Int) :
    readNumber limit? (signChars negative ++ (text.take 1 ++ pointed (text.drop 1) ++
        'e' :: (if power < 0 then '-' else '+') ::
          Binary64.padZeros width (Nat.toDigits 10 power.natAbs) ++ rest)) =
      .ok (.real (.ofDecimal negative ds (power + 1 - text.length)), rest) := by
  have hpadded : ∀ c ∈ Binary64.padZeros width (Nat.toDigits 10 power.natAbs),
      c.isDigit = true :=
    List.forall_mem_append.mpr ⟨isDigit_of_mem_zeros, fun c hc => isDigit_of_mem_toDigits hc⟩
  have hsome : Binary64.padZeros width (Nat.toDigits 10 power.natAbs) ≠ [] := by
    simp [Binary64.padZeros, Nat.toDigits_ne_nil]
  have hfraction : ∀ c ∈ text.drop 1, c.isDigit = true := fun c hc =>
    h.isDigit c (List.mem_of_mem_drop hc)
  have hread := readNumber_exponent limit? negative (decide (power < 0)) (h.isWhole_take Nat.one_pos)
    hfraction hsome hpadded hrest
  -- padding the exponent with zeros does not change it
  have hnumber : natOfDigits (Binary64.padZeros width (Nat.toDigits 10 power.natAbs)) =
      power.natAbs := by
    rw [Binary64.padZeros, natOfDigits_zeros, natOfDigits_toDigits]
  have hexponent : (if decide (power < 0) = true then -(power.natAbs : Int) else power.natAbs) -
      ((text.drop 1).length : Int) = power + 1 - text.length := by
    have hlength := List.length_pos_iff.mpr h.ne_nil
    rw [List.length_drop]
    simp only [decide_eq_true_eq]
    split <;> omega
  rw [hnumber, hexponent, List.take_append_drop, h.value] at hread
  simpa using hread

/-- **In whatever layout a number is written, its digits and its exponent are read.** -/
theorem readNumber_layout (style : Binary64.Layout) (exponent : Int) :
    readNumber limit? (signChars negative ++
        (Binary64.layout style text (text.length + exponent) ++ rest)) =
      .ok (.real (.ofDecimal negative ds exponent), rest) := by
  -- the point stands before all digits, behind them or among them, or there is an exponent
  unfold Binary64.layout
  split
  · split
    · rename_i hpoint
      have hread := readNumber_zeros_before limit? negative h hrest
        (-((text.length : Int) + exponent)).toNat
      rwa [show -(((-((text.length : Int) + exponent)).toNat + text.length : Nat) : Int) = exponent
        by omega] at hread
    · split
      · rename_i hpoint hlong
        have hread := readNumber_zeros_behind limit? negative h hrest
          (((text.length : Int) + exponent).toNat - text.length)
        rwa [show ((((text.length : Int) + exponent).toNat - text.length : Nat) : Int) = exponent
          by omega] at hread
      · rename_i hpoint hshort
        have hread := readNumber_point_among limit? negative h hrest
          (by omega : 0 < ((text.length : Int) + exponent).toNat) (by omega)
        rwa [show -((text.length - ((text.length : Int) + exponent).toNat : Nat) : Int) = exponent
          by omega] at hread
  · have hread := readNumber_scientific limit? negative h hrest style.exponentWidth
      (text.length + exponent - 1)
    rwa [show (text.length : Int) + exponent - 1 + 1 - text.length = exponent by omega] at hread

end Layouts

/-! ## Numbers -/

/-- A number in the form that rounding gives is read from its digits. -/
theorem readNumber_finite {negative : Bool} {m : Nat} {e : Int}
    (h : (Binary64.finite negative m e).IsNormal) {rest : List Char} (hrest : IsEnd rest) :
    readNumber limit? (((Binary64.finite negative m e).render numberLayout).toList ++ rest) =
      .ok (.real (.finite negative m e), rest) := by
  have hrender : ∀ body : List Char,
      (String.ofList (if negative then '-' :: body else body)).toList =
        signChars negative ++ body := by
    intro body
    cases negative <;> simp [signChars]
  unfold Binary64.render
  rw [hrender, List.append_assoc]
  rcases Nat.eq_zero_or_pos m with rfl | hpos
  · -- zero has one form only, with the least exponent
    have hexponent : e = Binary64.minExponent :=
      h.2.2.2.resolve_left (by decide)
    have hread := readNumber_fraction limit? negative (.inl rfl : IsWhole ['0'])
      (by simp : ['0'] ≠ []) (by simp) hrest
    rw [hexponent]
    exact hread
  · rw [if_neg hpos.ne']
    -- the shortest digits read back as the number, in whichever layout they are written
    have hread := readNumber_layout limit? negative (spells_toDigits (Binary64.digits_pos h hpos)) hrest
      numberLayout (Binary64.digits m e).2
    rw [Binary64.ofDecimal_digits h hpos] at hread
    exact hread

variable {limit?} in
/-- A whole number reads back, unless it has more digits than the limit. -/
theorem readNumber_toString {i : Int}
    (hshort : ∀ limit ∈ limit?, Binary64.digitCount i.natAbs ≤ limit) {rest : List Char}
    (hrest : IsEnd rest) :
    readNumber limit? ((toString i).toList ++ rest) = .ok (.int i, rest) := by
  -- a negative number is its sign and the digits of its absolute value
  have hchars : (toString i).toList = signChars (decide (i < 0)) ++ Nat.toDigits 10 i.natAbs := by
    cases i with
    | ofNat n =>
      rw [show toString (Int.ofNat n) = toString n from rfl, Nat.toString_eq_ofList_toDigits,
        String.toList_ofList]
      rfl
    | negSucc n =>
      rw [show toString (Int.negSucc n) = "-" ++ toString (n + 1) from rfl,
        Nat.toString_eq_ofList_toDigits, String.toList_append,
        decide_eq_true (Int.negSucc_lt_zero n)]
      show '-' :: (String.ofList (Nat.toDigits 10 (n + 1))).toList = _
      rw [String.toList_ofList]
      rfl
  have hread := readNumber_int (decide (i < 0)) (isWhole_toDigits i.natAbs) hshort hrest
  rw [hchars, List.append_assoc, hread, natOfDigits_toDigits]
  simp only [decide_eq_true_eq]
  congr 3
  split <;> omega

end Packwright.Json
