import Packwright.Text.Lines

/-!
# Cutting what was joined

* Cutting at a separator inverts joining with it, as long as no piece holds the separator.
* `getElem?_splitOn_iff`: the piece at an index stands between separators, with as many before it.
* A text falls into newline-terminated lines and a rest in one way only.
-/

namespace Packwright.Text

variable {α : Type} [DecidableEq α] {sep : α}

/-- Without a separator there is one piece. -/
theorem splitOn_of_not_mem {piece : List α} (h : sep ∉ piece) : splitOn sep piece = [piece] := by
  induction piece with
  | nil => rfl
  | cons c rest ih =>
    have hc : c ≠ sep := fun heq => h (heq ▸ List.mem_cons_self)
    have hrest : sep ∉ rest := fun hmem => h (List.mem_cons_of_mem _ hmem)
    rw [splitOn, if_neg hc, ih hrest]

/-- The first separator ends the first piece. -/
theorem splitOn_append_sep {piece : List α} (h : sep ∉ piece) (rest : List α) :
    splitOn sep (piece ++ sep :: rest) = piece :: splitOn sep rest := by
  induction piece with
  | nil => rw [List.nil_append, splitOn, if_pos rfl]
  | cons c more ih =>
    have hc : c ≠ sep := fun heq => h (heq ▸ List.mem_cons_self)
    have hmore : sep ∉ more := fun hmem => h (List.mem_cons_of_mem _ hmem)
    rw [List.cons_append, splitOn, if_neg hc, ih hmore]

/-- **Cutting inverts joining**, if there is a piece and none holds the separator. -/
theorem splitOn_joinWith {pieces : List (List α)} (hne : pieces ≠ [])
    (h : ∀ piece ∈ pieces, sep ∉ piece) : splitOn sep (joinWith sep pieces) = pieces := by
  induction pieces with
  | nil => exact absurd rfl hne
  | cons piece more ih =>
    have hpiece := h piece List.mem_cons_self
    cases more with
    | nil => exact splitOn_of_not_mem hpiece
    | cons next rest =>
      have hmore := ih (by simp) fun q hq => h q (List.mem_cons_of_mem _ hq)
      rw [joinWith, splitOn_append_sep hpiece, hmore]
      simp

/-- Pieces that all end in a separator have nothing behind the last one. -/
theorem splitOn_flatMap_ended {pieces : List (List α)} (h : ∀ piece ∈ pieces, sep ∉ piece) :
    splitOn sep (pieces.flatMap fun piece => piece ++ [sep]) = pieces ++ [[]] := by
  induction pieces with
  | nil => rfl
  | cons piece more ih =>
    obtain ⟨hpiece, hmore⟩ := List.forall_mem_cons.mp h
    rw [List.flatMap_cons, List.append_assoc, List.singleton_append, splitOn_append_sep hpiece,
      ih hmore]
    rfl

/-- The pieces hold what stands between the separators. -/
theorem mem_of_mem_splitOn {s piece : List α} (h : piece ∈ splitOn sep s) {c : α} (hc : c ∈ piece) :
    c ∈ s ∧ c ≠ sep := by
  induction s generalizing piece with
  | nil =>
    rw [splitOn, List.mem_singleton] at h
    rw [h] at hc
    exact absurd hc (by simp)
  | cons d rest ih =>
    -- a piece of the rest is a piece of all
    have hrest : ∀ {q}, q ∈ splitOn sep rest → c ∈ q → c ∈ d :: rest ∧ c ≠ sep := fun hq hcq =>
      (ih hq hcq).imp_left (List.mem_cons_of_mem _)
    rw [splitOn] at h
    split at h
    · rcases List.mem_cons.mp h with rfl | hq
      · exact absurd hc (by simp)
      · exact hrest hq hc
    · rename_i hd
      split at h
      · rename_i hnil
        exact absurd hnil (splitOn_ne_nil sep rest)
      · rename_i first more hsplit
        rcases List.mem_cons.mp h with rfl | hq
        · rcases List.mem_cons.mp hc with rfl | hfirst
          · exact ⟨List.mem_cons_self, hd⟩
          · exact hrest (by rw [hsplit]; exact List.mem_cons_self) hfirst
        · exact hrest (by rw [hsplit]; exact List.mem_cons_of_mem _ hq) hc

omit [DecidableEq α] in
/-- What is joined holds the pieces and separators. -/
theorem mem_of_mem_joinWith {pieces : List (List α)} {c : α} (h : c ∈ joinWith sep pieces) :
    c = sep ∨ ∃ piece ∈ pieces, c ∈ piece := by
  induction pieces with
  | nil => exact absurd h (by simp [joinWith])
  | cons piece more ih =>
    cases more with
    | nil => exact Or.inr ⟨piece, List.mem_cons_self, h⟩
    | cons next rest =>
      rw [joinWith, List.mem_append, List.mem_cons] at h
      rcases h with hpiece | rfl | hmore
      · exact Or.inr ⟨piece, List.mem_cons_self, hpiece⟩
      · exact Or.inl rfl
      · rcases ih hmore with heq | ⟨q, hq, hc⟩
        · exact Or.inl heq
        · exact Or.inr ⟨q, List.mem_cons_of_mem _ hq, hc⟩
      simp

/-! ## The piece at an index -/

/-- There is one piece more than separators. -/
theorem length_splitOn (s : List α) : (splitOn sep s).length = s.count sep + 1 := by
  induction s with
  | nil => rfl
  | cons c rest ih =>
    rw [splitOn, List.count_cons]
    by_cases hc : c = sep
    · simp [hc, ih]
    · rw [if_neg hc]
      split
      · exact absurd ‹_› (splitOn_ne_nil sep rest)
      · rename_i piece more hrest
        rw [hrest] at ih
        simpa [hc] using ih

/-- Splitting two texts with a separator between them splits each. -/
theorem splitOn_append_sep_append (s t : List α) :
    splitOn sep (s ++ sep :: t) = splitOn sep s ++ splitOn sep t := by
  induction s with
  | nil =>
    show splitOn sep (sep :: t) = [] :: splitOn sep t
    rw [splitOn, if_pos rfl]
  | cons c rest ih =>
    rw [List.cons_append, splitOn, splitOn, ih]
    by_cases hc : c = sep
    · rw [if_pos hc, if_pos hc]
      rfl
    · rw [if_neg hc, if_neg hc]
      -- the character joins the first piece, and there is always one
      obtain ⟨piece, more, hrest⟩ := List.exists_cons_of_ne_nil (splitOn_ne_nil sep rest)
      rw [hrest]
      rfl

/-- **The piece at an index** is cut out by separators, or by the ends of the whole, and has as many
separators before it. -/
theorem getElem?_splitOn_iff {s piece : List α} {i : Nat} : (splitOn sep s)[i]? = some piece ↔
    ∃ before behind, s = before ++ piece ++ behind ∧ sep ∉ piece ∧ before.count sep = i ∧
      (before = [] ∨ ∃ front, before = front ++ [sep]) ∧
      (behind = [] ∨ ∃ back, behind = sep :: back) := by
  constructor
  · intro h
    induction s generalizing i piece with
    | nil =>
      obtain ⟨rfl, rfl⟩ : i = 0 ∧ piece = [] := by
        cases i <;> simp_all [splitOn]
      exact ⟨[], [], rfl, List.not_mem_nil, rfl, Or.inl rfl, Or.inl rfl⟩
    | cons c rest ih =>
      rw [splitOn] at h
      by_cases hc : c = sep
      · rw [if_pos hc] at h
        cases i with
        | zero =>
          obtain rfl : piece = [] := (Option.some.inj h).symm
          exact ⟨[], c :: rest, rfl, List.not_mem_nil, rfl, Or.inl rfl, Or.inr ⟨rest, by rw [hc]⟩⟩
        | succ i =>
          obtain ⟨before, behind, rfl, hpiece, hcount, hfront, hbehind⟩ := ih h
          refine ⟨c :: before, behind, rfl, hpiece, ?_, Or.inr ?_, hbehind⟩
          · rw [hc, List.count_cons_self, hcount]
          · rcases hfront with rfl | ⟨front, rfl⟩
            · exact ⟨[], by rw [hc]; rfl⟩
            · exact ⟨c :: front, rfl⟩
      · rw [if_neg hc] at h
        obtain ⟨first, more, hrest⟩ := List.exists_cons_of_ne_nil (splitOn_ne_nil sep rest)
        rw [hrest] at h ih
        cases i with
        | zero =>
          -- the character goes to the first piece, which nothing stands before
          obtain rfl : piece = c :: first := (Option.some.inj h).symm
          obtain ⟨before, behind, rfl, hpiece, hcount, hfront, hbehind⟩ := ih (i := 0) rfl
          rcases hfront with rfl | ⟨front, rfl⟩
          · refine ⟨[], behind, rfl, ?_, rfl, Or.inl rfl, hbehind⟩
            exact List.not_mem_cons_of_ne_of_not_mem (Ne.symm hc) hpiece
          · rw [List.count_append, List.count_singleton_self] at hcount
            omega
        | succ i =>
          obtain ⟨before, behind, rfl, hpiece, hcount, hfront, hbehind⟩ := ih (i := i + 1) h
          refine ⟨c :: before, behind, rfl, hpiece, ?_, Or.inr ?_, hbehind⟩
          · rw [List.count_cons_of_ne hc, hcount]
          · rcases hfront with rfl | ⟨front, rfl⟩
            · exact absurd hcount (by simp)
            · exact ⟨c :: front, rfl⟩
  · rintro ⟨before, behind, rfl, hpiece, rfl, hfront, hbehind⟩
    -- the piece is the first one of what begins with it
    have hhead : ∃ more, splitOn sep (piece ++ behind) = piece :: more := by
      rcases hbehind with rfl | ⟨back, rfl⟩
      · exact ⟨[], by rw [List.append_nil, splitOn_of_not_mem hpiece]⟩
      · exact ⟨_, splitOn_append_sep hpiece back⟩
    obtain ⟨more, hmore⟩ := hhead
    rcases hfront with rfl | ⟨front, rfl⟩
    · rw [List.nil_append, hmore]
      rfl
    · have hlength : (splitOn sep front).length = front.count sep + 1 := length_splitOn front
      have htext : front ++ [sep] ++ piece ++ behind = front ++ sep :: (piece ++ behind) := by simp
      rw [htext, splitOn_append_sep_append, hmore, List.count_append, List.count_singleton_self,
        ← hlength, List.getElem?_append_right (Nat.le_refl _), Nat.sub_self]
      rfl

/-! ## Newline-terminated lines -/

/-- A text without a newline is all rest. -/
theorem newlineLines_of_not_mem {rest : List Char} (h : '\n' ∉ rest) :
    newlineLines rest = ([], rest) := by
  induction rest with
  | nil => rfl
  | cons c rest ih =>
    have hc : c ≠ '\n' := fun heq => h (heq ▸ List.mem_cons_self)
    have hrest : '\n' ∉ rest := fun hmem => h (List.mem_cons_of_mem _ hmem)
    simp only [newlineLines, ih hrest, if_neg hc]

/-- The first newline ends the first line. -/
theorem newlineLines_line {line : List Char} (h : '\n' ∉ line) (text : List Char) :
    newlineLines (line ++ '\n' :: text) =
      (line :: (newlineLines text).1, (newlineLines text).2) := by
  induction line with
  | nil => simp only [List.nil_append, newlineLines, if_true]
  | cons c line ih =>
    have hc : c ≠ '\n' := fun heq => h (heq ▸ List.mem_cons_self)
    have hline : '\n' ∉ line := fun hmem => h (List.mem_cons_of_mem _ hmem)
    rw [List.cons_append, newlineLines, ih hline]
    simp only [if_neg hc]

/-- Where two texts agree from their starts on, so do their first lines. -/
theorem first_line_eq {line other s t : List Char} (hline : '\n' ∉ line)
    (hother : '\n' ∉ other) (h : line ++ '\n' :: s <+: other ++ '\n' :: t) :
    line = other ∧ s <+: t := by
  induction line generalizing other with
  | nil =>
    cases other with
    | nil => exact ⟨rfl, (List.cons_prefix_cons.mp h).2⟩
    | cons d other =>
      have hd : '\n' = d := (List.cons_prefix_cons.mp h).1
      -- one line ends where the other goes on, so it would hold a newline
      exact absurd (hd ▸ List.mem_cons_self) hother
  | cons c line ih =>
    cases other with
    | nil =>
      have hc : c = '\n' := (List.cons_prefix_cons.mp h).1
      exact absurd (hc ▸ List.mem_cons_self) hline
    | cons d other =>
      obtain ⟨hcd, hmore⟩ := List.cons_prefix_cons.mp h
      have htails := ih (fun hmem => hline (List.mem_cons_of_mem _ hmem))
        (fun hmem => hother (List.mem_cons_of_mem _ hmem)) hmore
      exact ⟨by rw [hcd, htails.1], htails.2⟩

/-- The lines hold no newline, and neither does the rest. -/
theorem not_mem_newlineLines (s : List Char) :
    (∀ line ∈ (newlineLines s).1, '\n' ∉ line) ∧ '\n' ∉ (newlineLines s).2 := by
  induction s with
  | nil => exact ⟨by simp [newlineLines], by simp [newlineLines]⟩
  | cons c rest ih =>
    rw [newlineLines]
    by_cases hc : c = '\n'
    · simp only [if_pos hc]
      exact ⟨List.forall_mem_cons.mpr ⟨by simp, ih.1⟩, ih.2⟩
    · simp only [if_neg hc]
      -- the character goes to the first line, or to the rest if there is no line
      cases hlines : (newlineLines rest).1 with
      | nil => exact ⟨by simp, List.not_mem_cons_of_ne_of_not_mem (Ne.symm hc) ih.2⟩
      | cons line more =>
        rw [hlines, List.forall_mem_cons] at ih
        exact ⟨List.forall_mem_cons.mpr
          ⟨List.not_mem_cons_of_ne_of_not_mem (Ne.symm hc) ih.1.1, ih.1.2⟩, ih.2⟩

end Packwright.Text
