import Packwright.Proofs.Path.NormalForm

/-!
# The steps of a path

Of the components of a path those that are empty or a single dot lead nowhere; the others are its
steps. How a path is written otherwise makes no difference to them, so what is rendered from steps has
these steps (`steps_render`), and the steps of a normal form are the reduced ones of the path
(`steps_normalizeChars`, and `steps_normalizeChars_drive` behind a drive).
-/

namespace Packwright.Path

open Packwright.Text

def steps (p : List Char) : List Component :=
  (components p).filter fun c => c ≠ [] ∧ c ≠ here

/-- Whether a component leads somewhere. -/
structure LeadsSomewhere (c : Component) : Prop where
  ne_nil : c ≠ []
  ne_here : c ≠ here
  no_slash : '/' ∉ c

theorem IsName.leadsSomewhere {c : Component} (h : IsName c) : LeadsSomewhere c :=
  ⟨h.ne_nil, h.ne_here, h.no_slash⟩

/-- So does every component of a reduced list, the steps up included. -/
theorem Reduced.leadSomewhere {absolute : Bool} {cs : List Component} (h : Reduced absolute cs) :
    ∀ c ∈ cs, LeadsSomewhere c := by
  obtain ⟨ups, names, -, hnames, rfl⟩ := h
  intro c hc
  rcases List.mem_append.mp hc with hup | hname
  · rw [(List.mem_replicate.mp hup).2]
    exact ⟨by decide, by decide, by decide⟩
  · exact (hnames c hname).leadsSomewhere

/-! ## Writing steps -/

/-- The steps of a path are those before a slash and those behind it. -/
theorem steps_append_slash (p q : List Char) : steps (p ++ '/' :: q) = steps p ++ steps q := by
  unfold steps components
  rw [splitOn_append_sep_append, List.filter_append]

theorem steps_slash (p : List Char) : steps ('/' :: p) = steps p :=
  steps_append_slash [] p

/-- A component that leads somewhere is one step. -/
theorem LeadsSomewhere.steps_eq {c : Component} (h : LeadsSomewhere c) : steps c = [c] := by
  unfold steps components
  rw [splitOn_of_not_mem h.no_slash, List.filter_cons_of_pos (by simp [h.ne_nil, h.ne_here])]
  rfl

theorem steps_text_append (anchor : Anchor) (p : List Char) : steps (anchor.text ++ p) = steps p := by
  cases anchor with
  | relative => rfl
  | rooted => exact steps_slash p
  | doubled => exact (steps_slash ('/' :: p)).trans (steps_slash p)

/-- Joined components are the steps again. -/
theorem steps_joinWith {cs : List Component} (h : ∀ c ∈ cs, LeadsSomewhere c) :
    steps (joinWith '/' cs) = cs := by
  induction cs with
  | nil => rfl
  | cons c more ih =>
    obtain ⟨hc, hmore⟩ := List.forall_mem_cons.mp h
    cases more with
    | nil => exact hc.steps_eq
    | cons next rest =>
      show steps (c ++ '/' :: joinWith '/' (next :: rest)) = _
      rw [steps_append_slash, hc.steps_eq, ih hmore]
      rfl

/-- **What is written with steps has these steps.** -/
theorem steps_render (anchor : Anchor) {cs : List Component} (h : ∀ c ∈ cs, LeadsSomewhere c) :
    steps (render anchor cs) = cs := by
  have htext : steps (anchor.text ++ joinWith '/' cs) = cs := by
    rw [steps_text_append, steps_joinWith h]
  unfold render
  split
  · -- nothing is written as a dot, which is no step either
    rename_i hnil
    rw [hnil] at htext
    exact htext
  · exact htext

/-- Rendering keeps the anchor: no component begins with a slash. -/
theorem ofChars_render (anchor : Anchor) {cs : List Component} (h : ∀ c ∈ cs, LeadsSomewhere c) :
    Anchor.ofChars (render anchor cs) = anchor := by
  have htext : Anchor.ofChars (anchor.text ++ joinWith '/' cs) = anchor :=
    ofChars_text_append anchor
      (head?_joinWith (fun c hc => (h c hc).no_slash) fun c hc => (h c hc).ne_nil)
  unfold render
  split
  · rename_i hnil
    rw [hnil] at htext
    exact htext
  · exact htext

/-! ## Steps of normal forms -/

/-- Components that lead nowhere are passed over. -/
theorem reduce_components (absolute : Bool) (p : List Char) :
    reduce absolute (components p) = reduce absolute (steps p) := by
  rw [reduce, reduce, steps, List.foldl_filter]
  congr 2
  funext kept c
  by_cases hnowhere : c = [] ∨ c = here
  · rw [if_neg (by simpa using hnowhere.resolve_left)]
    exact if_pos hnowhere
  · rw [if_pos (by simpa using hnowhere)]

theorem steps_clean (p : List Char) :
    steps (clean p) = reduce (Anchor.ofChars p).isAbsolute (steps p) := by
  rw [← reduce_components]
  exact steps_render _ (reduced_components p _).leadSomewhere

theorem ofChars_clean (p : List Char) : Anchor.ofChars (clean p) = Anchor.ofChars p :=
  ofChars_render _ (reduced_components p _).leadSomewhere

/-- **The steps of a normal form** are what is left of those of the path. -/
theorem steps_normalizeChars {p : List Char} (hback : '\\' ∉ p) (hne : p ≠ [])
    (hdrive : ¬ startsWithDrive p = true) :
    steps (normalizeChars p) = reduce (Anchor.ofChars p).isAbsolute (steps p) ∧
      Anchor.ofChars (normalizeChars p) = Anchor.ofChars p := by
  rw [normalizeChars_eq hback hne, if_neg hdrive]
  exact ⟨steps_clean p, ofChars_clean p⟩

theorem ne_slash_of_isAlpha {letter : Char} (h : letter.isAlpha = true) : letter ≠ '/' := fun heq =>
  absurd (heq ▸ h) (by decide)

/-- What stands before the first slash behind a drive is a name. -/
theorem isName_drive {letter : Char} (h : letter.isAlpha = true) : IsName [letter, ':'] :=
  ⟨by simp, by simp [here], by simp [up], by simp [(ne_slash_of_isAlpha h).symm]⟩

/-- A drive is the first step, and what is left of the others is left as behind a root. -/
theorem steps_normalizeChars_drive {letter : Char} {tail : List Char}
    (hback : '\\' ∉ letter :: ':' :: '/' :: tail) (hletter : letter.isAlpha = true) :
    steps (normalizeChars (letter :: ':' :: '/' :: tail)) =
        [letter, ':'] :: reduce true (steps tail) ∧
      Anchor.ofChars (normalizeChars (letter :: ':' :: '/' :: tail)) = .relative := by
  have hslash := ne_slash_of_isAlpha hletter
  have hfirst := (isName_drive hletter).leadsSomewhere
  have hdrive : startsWithDrive (letter :: ':' :: '/' :: tail) = true := by
    simp [startsWithDrive, hletter]
  have hclean := steps_clean ('/' :: tail)
  obtain ⟨more, hmore⟩ := exists_clean_slash tail
  rw [isAbsolute_ofChars_slash, hmore, steps_slash, steps_slash] at hclean
  -- the drive is set aside, and what follows it is cleaned from the root
  have hnormal : normalizeChars (letter :: ':' :: '/' :: tail) = [letter, ':'] ++ '/' :: more := by
    rw [normalizeChars_eq hback (by simp), if_pos hdrive, ← hmore]
    rfl
  rw [hnormal, steps_append_slash, hfirst.steps_eq, hclean]
  exact ⟨rfl, by simp [Anchor.ofChars, hslash]⟩

end Packwright.Path
