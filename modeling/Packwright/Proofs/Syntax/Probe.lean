import Packwright.Proofs.Syntax.ClosedLexeme
import Packwright.Syntax.Probe

/-!
# A comment beyond the reach of a probe

What a reader learns from a probe does not depend on whether a comment starts behind the characters
that the probe is about. There is one case for each probe.
-/

namespace Packwright.Syntax.Probe

open Lexeme

/-- A lexeme that is not closed reaches to the end, so no comment stands beyond its reach. -/
theorem closed_comment {length? : List Char → Option Nat} {a b t : List Char} (hb : b ≠ [])
    (hclosed : ∀ n, length? (a ++ b) = some n → n ≤ a.length →
      length? (a ++ '/' :: '*' :: t) = some n)
    (h : closedReach (length? (a ++ b)) (a ++ b) ≤ a.length) :
    length? (a ++ '/' :: '*' :: t) = length? (a ++ b) := by
  cases hlen : length? (a ++ b) with
  | none =>
    have hpos := List.length_pos_iff.mpr hb
    rw [hlen, closedReach, Option.getD_none, List.length_append] at h
    omega
  | some n =>
    rw [hlen, closedReach, Option.getD_some] at h
    exact hclosed n hlen h

theorem startsString_append {a : List Char} (s b : List Char) (hne : a ≠ []) :
    startsString (a ++ s) = startsString (a ++ b) := by
  obtain ⟨c, rest, rfl⟩ := List.exists_cons_of_ne_nil hne
  rfl

theorem stringLength?_eq_none {s : List Char} (h : startsString s = false) :
    stringLength? s = none := by
  cases s with
  | nil => rfl
  | cons c s =>
    rw [startsString, List.head?_cons, Bool.or_eq_false_iff] at h
    have hd : c ≠ '"' := by simpa using h.1
    have hs : c ≠ '\'' := by simpa using h.2
    exact stringLength?_of_not_quote hd hs s

theorem attributeTextLength?_eq_none {s : List Char} (h : startsString s = false) :
    attributeTextLength? s = none := by
  cases s with
  | nil => rfl
  | cons c s =>
    rw [startsString, List.head?_cons, Bool.or_eq_false_iff] at h
    have hd : (c == '"') = false := h.1
    have hs : (c == '\'') = false := h.2
    rw [attributeTextLength?, hd, hs]
    rfl

/-- A quoted text is read the same way with a comment behind it; without a quote there is none. -/
theorem quoted_comment {length? : List Char → Option Nat} {a b : List Char} (t : List Char)
    (hne : a ≠ []) (hb : b ≠ []) (hnone : ∀ s, startsString s = false → length? s = none)
    (hclosed : ∀ n, length? (a ++ b) = some n → n ≤ a.length →
      length? (a ++ '/' :: '*' :: t) = some n)
    (h : (if startsString (a ++ b) then closedReach (length? (a ++ b)) (a ++ b) else 1) ≤ a.length) :
    length? (a ++ '/' :: '*' :: t) = length? (a ++ b) := by
  cases hquote : startsString (a ++ b) with
  | true =>
    rw [hquote, if_pos rfl] at h
    exact closed_comment hb hclosed h
  | false =>
    have hother := startsString_append ('/' :: '*' :: t) b hne
    rw [hnone _ hquote, hnone _ (hother.trans hquote)]

/-- A line that is commented out ends before the reach of the probe for it does. -/
theorem lt_of_lineReach {length k : Nat} (h : lineReach length ≤ k) (hpos : 0 < length) :
    length < k := by
  cases length with
  | zero => exact absurd hpos (Nat.lt_irrefl 0)
  | succ n => exact h

theorem lead_le_reach {α : Type} (probe : Probe α) (s : List Char) : probe.lead s ≤ probe.reach s := by
  cases probe with
  | mark =>
    show (if isChoiceOfFraction s then 1 else 0) ≤ if isChoiceOfFraction s then 3 else _
    split
    · decide
    · exact Nat.zero_le _
  | _ => exact Nat.zero_le _

/-- A question mark that stands apart from a fraction is a question mark. -/
theorem answer_comment_lead {α : Type} (probe : Probe α) {a b : List Char} (t : List Char)
    (hne : a ≠ []) (h : a.length ≤ probe.lead (a ++ b)) :
    probe.answer (a ++ '/' :: '*' :: t) = probe.answer (a ++ b) := by
  have hpos := List.length_pos_iff.mpr hne
  cases probe with
  | mark =>
    have hlead : a.length ≤ if isChoiceOfFraction (a ++ b) then 1 else 0 := h
    have hchoice : isChoiceOfFraction (a ++ b) = true := by
      cases hchoice : isChoiceOfFraction (a ++ b) with
      | true => rfl
      | false =>
        rw [hchoice, if_neg (by simp)] at hlead
        omega
    rw [hchoice, if_pos rfl] at hlead
    obtain ⟨c, rfl⟩ := List.length_eq_one_iff.mp (Nat.le_antisymm hlead hpos)
    have hc : c = '?' := head_of_isChoiceOfFraction hchoice
    subst hc
    have hmark : mark? (['?'] ++ '/' :: '*' :: t) = mark? (['?'] ++ b) := by
      rw [mark?, mark?, if_pos hchoice]
      rfl
    exact congrArg (·.getD []) hmark
  | _ => exact absurd hpos (Nat.not_lt.mpr h)

/-- **What a probe answers does not depend on comments beyond its reach.** -/
theorem answer_comment {α : Type} (probe : Probe α) {a b : List Char} (t : List Char) (hne : a ≠ [])
    (hb : b ≠ []) (h : probe.reach (a ++ b) ≤ a.length) :
    probe.answer (a ++ '/' :: '*' :: t) = probe.answer (a ++ b) := by
  cases probe with
  | head =>
    obtain ⟨c, rest, rfl⟩ := List.exists_cons_of_ne_nil hne
    rfl
  | word =>
    show (a ++ '/' :: '*' :: t).take (nameLength (a ++ '/' :: '*' :: t)) = _
    have hle : nameLength (a ++ b) ≤ a.length := h
    rw [nameLength_comment a b t hle, List.take_append_of_le_length hle]
    exact (List.take_append_of_le_length hle).symm
  | mark =>
    have hmark : mark? (a ++ '/' :: '*' :: t) = mark? (a ++ b) := by
      simp only [reach, markReach] at h
      cases hchoice : isChoiceOfFraction (a ++ b) with
      | true =>
        rw [hchoice, if_pos rfl] at h
        rw [mark?, mark?, isChoiceOfFraction_comment hne fun _ => h, hchoice, if_pos rfl, if_pos rfl]
      | false =>
        rw [hchoice, if_neg (by simp)] at h
        exact mark?_comment hne (fun htrue => by rw [hchoice] at htrue; exact absurd htrue (by simp)) h
    exact congrArg (·.getD []) hmark
  | number => exact numberLength_comment a b t h
  | string =>
    exact quoted_comment t hne hb (fun _ => stringLength?_eq_none)
      (fun n hn hle => stringLength?_comment t hn hne hle) h
  | regex => exact closed_comment hb (fun n hn hle => regexLength?_comment t hn hne hle) h
  | chunk =>
    have hclosed : ∀ n, (chunkLength? 0 (a ++ b)).map (· + 2) = some n → n ≤ a.length →
        (chunkLength? 0 (a ++ '/' :: '*' :: t)).map (· + 2) = some n := by
      intro n hn hle
      obtain ⟨m, hm, rfl⟩ := Option.map_eq_some_iff.mp hn
      rw [chunkLength?_comment t hm hle]
      rfl
    -- the two characters in front of the chunk count for its length in both
    have hmap := @closed_comment (fun s => (chunkLength? 0 s).map (· + 2)) a b t hb hclosed h
    exact Option.map_injective (fun m n hmn => Nat.add_right_cancel hmn) hmap
  | privateName =>
    obtain ⟨c, rest, rfl⟩ := List.exists_cons_of_ne_nil hne
    have hrest : nameLength (rest ++ b) ≤ rest.length := Nat.le_of_succ_le_succ h
    exact nameLength_comment rest b t hrest
  | continuation =>
    have hle : max (if pairsUp (a ++ b) then 2 else 1) (nameLength (a ++ b)) ≤ a.length := h
    refine continuesStatement_comment hne (fun hpair => ?_) (Nat.le_trans (Nat.le_max_right _ _) hle)
    rw [if_pos hpair] at hle
    exact Nat.le_trans (Nat.le_max_left _ _) hle
  | markupComment =>
    exact markedLineLength_comment t hne (by decide) fun hpos => lt_of_lineReach h hpos
  | hashBang =>
    exact markedLineLength_comment t hne (by decide) fun hpos => lt_of_lineReach h hpos
  | elementName => exact elementNameLength_comment a b t h
  | attributeText =>
    exact quoted_comment t hne hb (fun _ => attributeTextLength?_eq_none)
      (fun n hn hle => attributeTextLength?_comment t hn hne hle) h
  | elementText =>
    show ((a ++ '/' :: '*' :: t).takeWhile isElementText).length = _
    rw [takeWhile_append_of_lt _ (Nat.lt_of_succ_le h)]
    rfl
  | closingTag => exact isClosingTag_append _ h

end Packwright.Syntax.Probe
