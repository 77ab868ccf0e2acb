import Packwright.Value

/-!
# How values are displayed

A value that is no text is displayed with a beginning of its own: a bracket, a sign, a digit, or the
first letter of a word. So a text that begins otherwise displays itself only.
-/

namespace Packwright

/-! ## Numbers -/

theorem isDigit_of_mem_toDigits {n : Nat} {c : Char} (h : c ∈ Nat.toDigits 10 n) :
    c.isDigit = true :=
  Nat.isDigit_of_mem_toDigits (by decide) (by decide) h

/-- A whole number is written with digits and a sign. -/
theorem mem_toString {i : Int} {c : Char} (h : c ∈ (toString i).toList) :
    c = '-' ∨ c.isDigit = true := by
  cases i with
  | ofNat n =>
    rw [show toString (Int.ofNat n) = toString n from rfl, Nat.toString_eq_ofList_toDigits,
      String.toList_ofList] at h
    exact Or.inr (isDigit_of_mem_toDigits h)
  | negSucc n =>
    rw [show toString (Int.negSucc n) = "-" ++ toString (n + 1) from rfl,
      Nat.toString_eq_ofList_toDigits, String.toList_append] at h
    rcases List.mem_append.mp h with hsign | hdigit
    · exact Or.inl (List.mem_singleton.mp hsign)
    · rw [String.toList_ofList] at hdigit
      exact Or.inr (isDigit_of_mem_toDigits hdigit)

namespace Binary64

/-- What a number is laid out with besides its digits. -/
def marks : List Char := ['.', 'e', '-', '+']

/-- The layout of a number adds marks to its digits and nothing else. -/
theorem mem_layout {style : Layout} {ds : List Char} {point : Int} {c : Char}
    (hds : ∀ d ∈ ds, d.isDigit = true) (h : c ∈ layout style ds point) :
    c.isDigit = true ∨ c ∈ marks := by
  have hzeros : ∀ n, c ∈ List.replicate n '0' → c.isDigit = true := fun n hc => by
    rw [List.eq_of_mem_replicate hc]
    decide
  have hexponent : c ∈ padZeros style.exponentWidth (Nat.toDigits 10 (point - 1).natAbs) →
      c.isDigit = true := by
    intro hc
    rcases List.mem_append.mp hc with hzero | hdigit
    · exact hzeros _ hzero
    · exact isDigit_of_mem_toDigits hdigit
  have hsign : ∀ (p : Prop) [Decidable p], (if p then '-' else '+') ∈ marks := by
    intro p _
    split <;> decide
  -- plain digits: a point in front of them, behind them or between them; else an exponent
  unfold layout at h
  split at h
  · split at h
    · simp only [List.cons_append, List.mem_cons, List.mem_append] at h
      rcases h with rfl | rfl | hzero | hdigit
      · exact Or.inl (by decide)
      · exact Or.inr (by decide)
      · exact Or.inl (hzeros _ hzero)
      · exact Or.inl (hds c hdigit)
    · split at h
      · simp only [List.mem_append, List.mem_cons, List.not_mem_nil, or_false] at h
        rcases h with (hdigit | hzero) | rfl | rfl
        · exact Or.inl (hds c hdigit)
        · exact Or.inl (hzeros _ hzero)
        · exact Or.inr (by decide)
        · exact Or.inl (by decide)
      · simp only [List.mem_append, List.mem_cons] at h
        rcases h with hwhole | rfl | hfraction
        · exact Or.inl (hds c (List.mem_of_mem_take hwhole))
        · exact Or.inr (by decide)
        · exact Or.inl (hds c (List.mem_of_mem_drop hfraction))
  · simp only [List.mem_append, List.mem_cons] at h
    rcases h with (hfirst | hfraction) | rfl | rfl | hdigit
    · exact Or.inl (hds c (List.mem_of_mem_take hfirst))
    · split at hfraction
      · exact absurd hfraction List.not_mem_nil
      · rcases List.mem_cons.mp hfraction with rfl | hmore
        · exact Or.inr (by decide)
        · exact Or.inl (hds c (List.mem_of_mem_drop hmore))
    · exact Or.inr (by decide)
    · exact Or.inr (hsign _)
    · exact Or.inl (hexponent hdigit)

/-- A number is written with digits and marks, or with the words of the layout. -/
theorem mem_render {style : Layout} {x : Binary64} {c : Char} (h : c ∈ (x.render style).toList) :
    c.isDigit = true ∨ c ∈ marks ∨ c ∈ style.infinityText.toList ∨ c ∈ style.nanText.toList := by
  cases x with
  | nan => exact Or.inr (Or.inr (Or.inr h))
  | infinite negative =>
    rw [render, String.toList_append] at h
    rcases List.mem_append.mp h with hsign | hword
    · cases negative with
      | true => exact Or.inr (Or.inl (by rw [List.mem_singleton.mp hsign]; decide))
      | false => exact absurd hsign List.not_mem_nil
    · exact Or.inr (Or.inr (Or.inl hword))
  | finite negative m e =>
    -- the sign apart, a finite number is laid out from its digits
    have hbody : c ∈ (if m = 0 then ['0', '.', '0'] else
        layout style (Nat.toDigits 10 (digits m e).1)
          ((Nat.toDigits 10 (digits m e).1).length + (digits m e).2)) →
        c.isDigit = true ∨ c ∈ marks := by
      intro hc
      split at hc
      · simp only [List.mem_cons, List.not_mem_nil, or_false] at hc
        rcases hc with rfl | rfl | rfl
        · exact Or.inl (by decide)
        · exact Or.inr (by decide)
        · exact Or.inl (by decide)
      · exact mem_layout (fun d hd => isDigit_of_mem_toDigits hd) hc
    simp only [render, String.toList_ofList] at h
    refine Or.imp_right Or.inl ?_
    split at h
    · rcases List.mem_cons.mp h with rfl | hc
      · exact Or.inr (by decide)
      · exact hbody hc
    · exact hbody h

end Binary64

namespace Value

/-! ## Values -/

theorem text?_eq_some_iff {v : Value} {s : String} : v.text? = some s ↔ v = .text s := by
  cases v <;> simp [text?]

/-- No value but a text or a date is displayed with an `r` in front. -/
theorem head?_quotedForm_ne_r {v : Value} (htext : ∀ t, v ≠ .text t) (hstamp : ∀ t, v ≠ .stamp t) :
    (quotedForm v).head? ≠ some 'r' := by
  cases v with
  | text t => exact absurd rfl (htext t)
  | stamp t => exact absurd rfl (hstamp t)
  | null => decide
  | bool b => cases b <;> decide
  | int i =>
    rw [quotedForm]
    exact fun h => absurd (mem_toString (List.mem_of_head? h)) (by decide)
  | real x =>
    rw [quotedForm]
    exact fun h => absurd (Binary64.mem_render (List.mem_of_head? h)) (by decide)
  | list items => simp [quotedForm]
  | table fields => simp [quotedForm]

/-- **A text that begins with an `r` displays itself**, and no other value that is no date. -/
theorem display_eq_iff_of_head {v : Value} {s : String} (hs : s.toList.head? = some 'r')
    (hstamp : ∀ t, v ≠ .stamp t) : v.display = s ↔ v = .text s := by
  constructor
  · intro h
    by_cases htext : ∀ t, v ≠ .text t
    · -- only texts are shown without quoting, and no quoted form begins with this letter
      have hform : v.display.toList = quotedForm v := by
        cases v with
        | text t => exact absurd rfl (htext t)
        | _ => simp [display]
      rw [h] at hform
      exact absurd (hform ▸ hs) (head?_quotedForm_ne_r htext hstamp)
    · obtain ⟨t, rfl⟩ : ∃ t, v = .text t := by simpa using htext
      exact congrArg Value.text h
  · rintro rfl
    rfl

end Value

end Packwright
