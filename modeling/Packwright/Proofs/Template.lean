import Mathlib.Algebra.Group.Nat.Defs
import Mathlib.Data.List.Chain
import Packwright.Proofs.Traversal
import Packwright.Template

/-!
# What templates stand for

Only a backslash makes a template more than its characters, and not every backslash does.

* `IsVerbatim` says of a text that each of its backslashes stands for itself, because of the
  character behind it. Such a template is accepted and stands for itself, whatever it is put in
  place of (`parse_of_isVerbatim`).
* `escape_cases` says what any other escape can stand for: one character, or the occurrence.
-/

namespace Packwright.Template

open Packwright.Text Packwright.Traversal

/-! ## Templates that stand for themselves -/

/-- Whether a backslash in front of a character stands for itself, and the character too. -/
def IsKept (c : Char) : Prop :=
  ¬ c.isAlphanum ∧ c ≠ '\\'

instance : DecidablePred IsKept := fun c =>
  inferInstanceAs (Decidable (¬ c.isAlphanum ∧ c ≠ '\\'))

/-- Whether every backslash of a text stands for itself: behind none of them is a letter, a digit or
another backslash. -/
def IsVerbatim (t : List Char) : Prop :=
  t.IsChain fun c next => c = '\\' → IsKept next

instance : DecidablePred IsVerbatim := fun t =>
  inferInstanceAs (Decidable (t.IsChain fun c next => c = '\\' → IsKept next))

/-- Without a backslash there is no escape. -/
theorem isVerbatim_of_not_mem {t : List Char} (h : '\\' ∉ t) : IsVerbatim t := by
  unfold IsVerbatim
  induction t with
  | nil => exact .nil
  | cons c rest ih =>
    rw [List.mem_cons, not_or] at h
    exact List.isChain_cons.mpr ⟨fun _ _ hc => absurd hc.symm h.1, ih h.2⟩

/-- A character that escapes nothing may stand in front. -/
theorem isVerbatim_cons_iff {c : Char} {rest : List Char} (h : c = '\\' → rest = []) :
    IsVerbatim (c :: rest) ↔ IsVerbatim rest := by
  unfold IsVerbatim
  rw [List.isChain_cons, and_iff_right]
  rintro next hnext hc
  rw [h hc] at hnext
  exact absurd hnext (by simp)

/-- So may a kept escape, and no other. -/
theorem isVerbatim_escape_iff {c : Char} {rest : List Char} :
    IsVerbatim ('\\' :: c :: rest) ↔ IsKept c ∧ IsVerbatim rest := by
  have hhead : IsVerbatim ('\\' :: c :: rest) ↔ IsKept c ∧ IsVerbatim (c :: rest) := by
    unfold IsVerbatim
    rw [List.isChain_cons_cons]
    simp
  rw [hhead]
  exact and_congr_right fun hc => isVerbatim_cons_iff fun heq => absurd heq hc.2

/-- **A text is verbatim if its escapes are kept.** -/
theorem isVerbatim_iff {t : List Char} :
    IsVerbatim t ↔ ∀ c, .escaped c ∈ tokens t → IsKept c := by
  fun_induction tokens t with
  | case1 => simp [IsVerbatim]
  | case2 c rest ih => rw [isVerbatim_escape_iff, ih]; simp
  | case3 c rest hnone ih =>
    have hlast : c = '\\' → rest = [] := fun hc => by
      cases rest with
      | nil => rfl
      | cons d rest => exact (hnone d rest hc rfl).elim
    rw [isVerbatim_cons_iff hlast, ih]
    simp

/-- The tokens of a template are its characters. -/
theorem flatMap_chars_tokens (t : List Char) : (tokens t).flatMap Token.chars = t := by
  fun_induction tokens t with
  | case1 => rfl
  | case2 c rest ih => rw [List.flatMap_cons, ih]; rfl
  | case3 c rest _ ih => rw [List.flatMap_cons, ih]; rfl

/-- An escape that means nothing stands for itself, backslash and all. -/
theorem escape_of_isKept {c : Char} (h : IsKept c) (ts : List Token) :
    escape c ts = .ok ([.char '\\', .char c], ts) := by
  obtain ⟨hword, hbackslash⟩ := h
  have hnone : ∀ d : Char, d.isAlphanum = true → c ≠ d := fun d hd heq => hword (heq ▸ hd)
  have halpha : ¬ c.isAlpha = true := fun hc => hword (by simp [Char.isAlphanum, hc])
  have hdigit : asciiDigit? c = none := by
    have : ¬ c.isDigit = true := fun hc => hword (by simp [Char.isAlphanum, hc])
    simp [asciiDigit?, this]
  have hcontrol : control? c = none := by
    unfold control?
    split <;> first | rfl | exact absurd rfl (hnone _ (by decide)) | exact absurd rfl hbackslash
  rw [escape, if_neg (hnone 'g' (by decide)), if_neg (hnone '0' (by decide)), hdigit]
  simp only [hcontrol, if_neg halpha]

/-- So a template with such escapes only is read as its own characters. -/
theorem piecesFrom_of_isKept {ts : List Token} (h : ∀ c, .escaped c ∈ ts → IsKept c) {fuel : Nat}
    (hfuel : ts.length ≤ fuel) :
    piecesFrom fuel ts = .ok ((ts.flatMap Token.chars).map .char) := by
  induction ts generalizing fuel with
  | nil => cases fuel <;> rfl
  | cons t rest ih =>
    obtain ⟨fuel, rfl⟩ : ∃ n, fuel = n + 1 :=
      Nat.exists_eq_add_one_of_ne_zero (Nat.ne_of_gt (Nat.lt_of_lt_of_le (by simp) hfuel))
    have hrest := ih (fun c hc => h c (List.mem_cons_of_mem _ hc)) (Nat.le_of_succ_le_succ hfuel)
    cases t with
    | plain c => rw [piecesFrom, hrest]; rfl
    | escaped c =>
      -- an escape with no meaning is written as two characters
      have hkept := escape_of_isKept (h c List.mem_cons_self) rest
      simp only [piecesFrom, hkept, Bind.bind, Except.bind, hrest]
      rfl

/-- Parsing puts the reading and its refusal in one place. -/
theorem parse_eq_ok_iff {t : List Char} {found : List Piece} :
    parse t = .ok found ↔ piecesFrom (tokens t).length (tokens t) = .ok found := by
  simp only [parse]
  split <;> rename_i hpieces <;> simp [hpieces]

theorem parse_of_isVerbatim {t : List Char} (h : IsVerbatim t) : parse t = .ok (t.map .char) := by
  have hpieces := piecesFrom_of_isKept (isVerbatim_iff.mp h) le_rfl
  rwa [flatMap_chars_tokens, ← parse_eq_ok_iff] at hpieces

/-- Pieces that are characters are written as they are. -/
theorem expand_chars (occurrence t : List Char) : expand occurrence (t.map .char) = t := by
  induction t with
  | nil => rfl
  | cons c rest ih =>
    show c :: expand occurrence (rest.map .char) = c :: rest
    rw [ih]

theorem expand_append (occurrence : List Char) (found more : List Piece) :
    expand occurrence (found ++ more) = expand occurrence found ++ expand occurrence more :=
  List.flatMap_append

/-! ## Other escapes -/

/-- A name in brackets ends with the first closing one. -/
theorem untilBracket_eq_some {ts after : List Token} {name : List Char}
    (h : untilBracket ts = some (name, after)) :
    ∃ inside, ts = inside ++ .plain '>' :: after ∧ name = inside.flatMap Token.chars := by
  fun_induction untilBracket ts generalizing name with
  | case1 => simp at h
  | case2 rest =>
    obtain ⟨rfl, rfl⟩ := Prod.mk.inj (Option.some.inj h)
    exact ⟨[], rfl, rfl⟩
  | case3 t rest _ ih =>
    obtain ⟨⟨inner, after'⟩, hinner, heq⟩ := Option.map_eq_some_iff.mp h
    obtain ⟨rfl, rfl⟩ := Prod.mk.inj heq
    obtain ⟨inside, rfl, rfl⟩ := ih hinner
    exact ⟨t :: inside, rfl, rfl⟩

/-- A named reference is a reference to the occurrence, with a name between brackets. -/
theorem namedReference_eq_ok {ts rest : List Token} {piece : Piece}
    (h : namedReference ts = .ok (piece, rest)) :
    piece = .occurrence ∧ ∃ taken, ts = taken ++ rest ∧ 3 ≤ taken.length := by
  unfold namedReference at h
  split at h
  · rename_i ts
    split at h
    · split at h <;> simp [refuse] at h
    · rename_i name after hname
      obtain ⟨inside, rfl, rfl⟩ := untilBracket_eq_some hname
      simp only at h
      split at h
      · simp [refuse] at h
      · rename_i hne
        -- a name is not empty, so with its brackets three tokens are taken at least
        have hinside : inside ≠ [] := fun hnil => hne (by simp [hnil])
        split at h
        · simp at h
        · split at h
          · rename_i index _
            unfold reference at h
            split at h
            · obtain ⟨rfl, rfl⟩ := Prod.mk.inj (Except.ok.inj h)
              have hpos := List.length_pos_iff.mpr hinside
              exact ⟨rfl, .plain '<' :: inside ++ [.plain '>'], by simp, by simp; omega⟩
            · simp [refuse, Bind.bind, Except.bind] at h
          · simp [refuse] at h
  · simp [refuse] at h

/-- The octal digits that are taken bound the number that they make. -/
theorem octalDigits_spec (count value : Nat) (ts : List Token) :
    ∃ taken, ts = taken ++ (octalDigits count value ts).2 ∧
      (octalDigits count value ts).1 < (value + 1) * 8 ^ taken.length := by
  fun_induction octalDigits count value ts with
  | case1 => exact ⟨[], rfl, by simp⟩
  | case2 => exact ⟨[], rfl, by simp⟩
  | case3 count value t rest d hd ih =>
    obtain ⟨taken, hts, hlt⟩ := ih
    refine ⟨t :: taken, by rw [List.cons_append, ← hts], ?_⟩
    -- only digits below eight are taken
    have hdigit : d < 8 := by
      cases t with
      | plain c => simpa using (Option.filter_eq_some_iff.mp hd).2
      | escaped c => simp [Token.digit?] at hd
    calc (octalDigits count (value * 8 + d) rest).1
        < (value * 8 + d + 1) * 8 ^ taken.length := hlt
      _ ≤ ((value + 1) * 8) * 8 ^ taken.length := Nat.mul_le_mul_right _ (by omega)
      _ = (value + 1) * 8 ^ (t :: taken).length := by
          rw [List.length_cons, Nat.pow_succ', Nat.mul_assoc]
  | case4 => exact ⟨[], rfl, by simp⟩

/-- A number that does not start with zero is a character only if it has three digits; it is no
reference, since there is only group zero. -/
theorem numbered_eq_ok {first left : Nat} {ts rest : List Token} {piece : Piece}
    (hfirst : first ≠ 0) (h : numbered first left ts = .ok (piece, rest)) :
    ∃ d t u, piece = .char d ∧ ts = t :: u :: rest := by
  -- a reference to a group is refused, since the pattern has none
  have hnone : ∀ index n after, index ≠ 0 →
      (do pure (← reference index n, after) : Except Refusal (Piece × List Token)) ≠
        .ok (piece, rest) := fun index n after hindex => by
    simp [reference, hindex, refuse, Bind.bind, Except.bind]
  unfold numbered at h
  split at h
  · split at h
    · exact absurd h (hnone _ _ _ hfirst)
    · split at h
      · split at h
        · split at h
          · simp only at h
            split at h
            · simp [refuse] at h
            · obtain ⟨rfl, rfl⟩ := Prod.mk.inj (Except.ok.inj h)
              exact ⟨_, _, _, rfl, rfl⟩
          · exact absurd h (hnone _ _ _ (by omega))
        · exact absurd h (hnone _ _ _ (by omega))
      · exact absurd h (hnone _ _ _ (by omega))
  · exact absurd h (hnone _ _ _ hfirst)

/-- A digit other than `0` is not zero. -/
theorem asciiDigit_ne_zero {c : Char} {d : Nat} (h : asciiDigit? c = some d) (hc : c ≠ '0') :
    d ≠ 0 := by
  unfold asciiDigit? at h
  split at h
  · rename_i hdigit
    obtain rfl := Option.some.inj h
    have hle : '0'.toNat ≤ c.toNat := by
      simpa [Char.isDigit, UInt32.le_iff_toNat_le] using (Bool.and_eq_true_iff.mp hdigit).1
    have hne : c.toNat ≠ '0'.toNat := fun heq => hc (Char.toNat_inj.mp heq)
    omega
  · simp at h

/-- No control character is half of a closing mark. -/
theorem not_mark_of_control {c d : Char} (h : control? c = some d) : ¬ (d = '*' ∨ d = '/') := by
  unfold control? at h
  split at h <;> first | (obtain rfl := Option.some.inj h; decide) | simp at h

/-- **What an escape can stand for** that is not kept: one character, which is no ordinary one
unless there are more digits to it, or the occurrence, whose name stands in brackets. -/
theorem escape_cases {c : Char} {ts rest : List Token} {found : List Piece}
    (h : escape c ts = .ok (found, rest)) (hc : ¬ IsKept c) :
    ∃ taken, ts = taken ++ rest ∧
      ((∃ d, found = [.char d] ∧ (d = '*' ∨ d = '/' → 2 ≤ taken.length)) ∨
        found = [.occurrence] ∧ 3 ≤ taken.length) := by
  unfold escape at h
  split at h
  · -- a named reference
    obtain ⟨⟨piece, after⟩, hname, heq⟩ := bind_eq_ok_iff.mp h
    obtain ⟨rfl, rfl⟩ := Prod.mk.inj (Except.ok.inj heq)
    obtain ⟨rfl, taken, hts, hlen⟩ := namedReference_eq_ok hname
    exact ⟨taken, hts, .inr ⟨rfl, hlen⟩⟩
  · split at h
    · -- octal digits: fewer than two more make a control character
      obtain ⟨rfl, rfl⟩ := Prod.mk.inj (Except.ok.inj h)
      obtain ⟨taken, hts, hlt⟩ := octalDigits_spec 2 0 ts
      refine ⟨taken, hts, .inl ⟨_, rfl, fun hd => ?_⟩⟩
      by_contra hshort
      have hpow : 8 ^ taken.length ≤ 8 ^ 1 := Nat.pow_le_pow_right (by decide) (by omega)
      have hlow : (octalDigits 2 0 ts).1 < 8 := by omega
      have hcontrol : ∀ value < 8, ¬ (Char.ofNat value = '*' ∨ Char.ofNat value = '/') := by decide
      exact hcontrol _ hlow hd
    · rename_i hzero
      split at h
      · -- a number
        rename_i first hdigit
        obtain ⟨⟨piece, after⟩, hnumber, heq⟩ := bind_eq_ok_iff.mp h
        obtain ⟨rfl, rfl⟩ := Prod.mk.inj (Except.ok.inj heq)
        obtain ⟨d, t, u, rfl, rfl⟩ := numbered_eq_ok (asciiDigit_ne_zero hdigit hzero) hnumber
        exact ⟨[t, u], rfl, .inl ⟨d, rfl, fun _ => le_rfl⟩⟩
      · split at h
        · -- a control character
          rename_i d hcontrol
          obtain ⟨rfl, rfl⟩ := Prod.mk.inj (Except.ok.inj h)
          exact ⟨[], rfl, .inl ⟨d, rfl, fun hd => absurd hd (not_mark_of_control hcontrol)⟩⟩
        · rename_i hdigit _ hcontrol
          split at h
          · simp [refuse] at h
          · rename_i halpha
            refine absurd ⟨fun hword => ?_, ?_⟩ hc
            · have hten : c.isDigit = true := (Bool.or_eq_true_iff.mp hword).resolve_left halpha
              rw [asciiDigit?, if_pos hten] at hdigit
              simp at hdigit
            · rintro rfl
              exact absurd hcontrol (by decide)

end Packwright.Template
