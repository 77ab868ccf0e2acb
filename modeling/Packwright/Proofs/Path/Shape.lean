import Mathlib.Data.List.TakeWhile
import Packwright.Proofs.Path.NormalForm

/-!
# The shape of a normal form

What a normal form looks like as a text, said without the function that makes it.

* `IsNormal` cuts a path into its drive, if it starts with one, the slashes behind the drive, and
  the components behind the slashes, and says what each of these parts may be.
* `normalizeChars_eq_self_iff`: the paths of this shape, and the empty path, are the ones that are
  their own normal form. This covers the paths that happen to look as if they were on a drive: a
  relative path may be cleaned to one, or may start with a component such as `C:`.
* `normalize_isNormal` is the outcome for every path.
-/

namespace Packwright.Path

open Packwright.Text

/-! ## The parts of a path -/

/-- What stands behind the drive, if the path starts with one. -/
def behindDrive (p : List Char) : List Char :=
  if startsWithDrive p then p.drop 2 else p

def leadingSlashes (p : List Char) : List Char :=
  p.takeWhile (· == '/')

/-- The components behind these slashes, none if nothing stands there. -/
def componentsBehind (p : List Char) : List Component :=
  match p.dropWhile (· == '/') with
  | [] => []
  | rest => components rest

/-- Whether a path has the shape of a normal form that is not empty. -/
structure IsNormal (p : List Char) : Prop where
  ne_nil : p ≠ []
  no_backslash : '\\' ∉ p
  slashes : (leadingSlashes (behindDrive p)).length ≤ 2
  no_empty : ∀ c ∈ componentsBehind (behindDrive p), c ≠ []
  /-- A single dot is the whole path. -/
  only_here : here ∈ componentsBehind (behindDrive p) → p = here
  /-- Steps up stand in front of all other components, and in relative paths only. -/
  steps_first : ∃ steps names,
    componentsBehind (behindDrive p) = List.replicate steps up ++ names ∧ up ∉ names ∧
      (0 < steps → leadingSlashes (behindDrive p) = [])

/-- The slashes and the components make up the path. -/
theorem leadingSlashes_append (p : List Char) :
    leadingSlashes p ++ joinWith '/' (componentsBehind p) = p := by
  have hrest : joinWith '/' (componentsBehind p) = p.dropWhile (· == '/') := by
    unfold componentsBehind
    split
    · rename_i hnil
      rw [hnil]
      rfl
    · exact joinWith_splitOn '/' _
  rw [hrest]
  exact List.takeWhile_append_dropWhile

/-- The components behind the anchor hold no slash. -/
theorem componentsBehind_no_slash (p : List Char) : ∀ c ∈ componentsBehind p, '/' ∉ c := by
  unfold componentsBehind
  split
  · simp
  · exact components_no_slash _

/-- The parts of a path that is made of an anchor and components are these. -/
theorem parts_text_append (anchor : Anchor) {cs : List Component} (hslash : ∀ c ∈ cs, '/' ∉ c)
    (hne : ∀ c ∈ cs, c ≠ []) :
    leadingSlashes (anchor.text ++ joinWith '/' cs) = anchor.text ∧
      componentsBehind (anchor.text ++ joinWith '/' cs) = cs := by
  have htext : ∀ c ∈ anchor.text, (c == '/') = true := by cases anchor <;> simp [Anchor.text]
  have hjoin : (joinWith '/' cs).takeWhile (· == '/') = [] ∧
      (joinWith '/' cs).dropWhile (· == '/') = joinWith '/' cs := by
    have hhead := head?_joinWith hslash hne
    cases hcs : joinWith '/' cs with
    | nil => exact ⟨rfl, rfl⟩
    | cons c rest =>
      have hc : (c == '/') = false := by
        rw [hcs] at hhead
        simpa using hhead
      exact ⟨List.takeWhile_cons_of_neg (by simp [hc]), List.dropWhile_cons_of_neg (by simp [hc])⟩
  constructor
  · unfold leadingSlashes
    rw [List.takeWhile_append_of_pos htext, hjoin.1, List.append_nil]
  · unfold componentsBehind
    rw [List.dropWhile_append_of_pos htext, hjoin.2]
    cases cs with
    | nil => rfl
    | cons c more =>
      split
      · -- a component that is not empty leaves something behind the slashes
        rename_i hnil
        have hc := hne c List.mem_cons_self
        cases more with
        | nil => exact absurd hnil hc
        | cons next rest => exact absurd (List.append_eq_nil_iff.mp hnil).1 hc
      · exact splitOn_joinWith (by simp) hslash

/-- At most two leading slashes are the text of an anchor. -/
theorem exists_anchor {p : List Char} (h : (leadingSlashes p).length ≤ 2) :
    ∃ anchor : Anchor, leadingSlashes p = anchor.text := by
  have hall : ∀ c ∈ leadingSlashes p, c = '/' := fun c hc =>
    beq_iff_eq.mp (List.mem_takeWhile_imp (p := (· == '/')) hc)
  rw [List.eq_replicate_of_mem hall]
  generalize (leadingSlashes p).length = n at h
  match n, h with
  | 0, _ => exact ⟨.relative, rfl⟩
  | 1, _ => exact ⟨.rooted, rfl⟩
  | 2, _ => exact ⟨.doubled, rfl⟩

/-! ## Clean paths -/

theorem here_no_up : here ≠ up := by decide

/-- What is rendered from reduced components, unless it is a single dot. -/
theorem exists_of_clean {p : List Char} (hclean : clean p = p) (hhere : p ≠ here) :
    ∃ (anchor : Anchor) (cs : List Component), Reduced anchor.isAbsolute cs ∧
      p = anchor.text ++ joinWith '/' cs := by
  refine ⟨Anchor.ofChars p, reduce (Anchor.ofChars p).isAbsolute (components p),
    reduced_components p _, ?_⟩
  have hrender :
      render (Anchor.ofChars p) (reduce (Anchor.ofChars p).isAbsolute (components p)) = p := hclean
  unfold render at hrender
  split at hrender
  · exact absurd hrender.symm hhere
  · exact hrender.symm

/-- The parts of a clean path are those that it is rendered from. -/
theorem parts_of_clean {p : List Char} (hclean : clean p = p) (hhere : p ≠ here) :
    (leadingSlashes p).length ≤ 2 ∧
      ∃ steps names, (0 < steps → leadingSlashes p = []) ∧ (∀ c ∈ names, IsName c) ∧
        componentsBehind p = List.replicate steps up ++ names := by
  obtain ⟨anchor, cs, hreduced, rfl⟩ := exists_of_clean hclean hhere
  obtain ⟨hslashes, hcomponents⟩ := parts_text_append anchor hreduced.no_slash hreduced.ne_nil
  rw [hslashes, hcomponents]
  obtain ⟨steps, names, hsteps, hnames, rfl⟩ := hreduced
  refine ⟨by cases anchor <;> decide, steps, names, fun hpos => ?_, hnames, rfl⟩
  cases anchor with
  | relative => rfl
  | rooted => exact absurd (hsteps rfl) (Nat.ne_of_gt hpos)
  | doubled => exact absurd (hsteps rfl) (Nat.ne_of_gt hpos)

/-- In steps up followed by names, nothing is empty, nothing is the dot, and no step up comes later. -/
theorem not_mem_of_names {steps : Nat} {names : List Component} (hnames : ∀ c ∈ names, IsName c) :
    up ∉ names ∧ (∀ c ∈ List.replicate steps up ++ names, c ≠ []) ∧
      here ∉ List.replicate steps up ++ names := by
  refine ⟨fun hup => (hnames up hup).ne_up rfl, fun c hc => ?_, fun hhere => ?_⟩
  · rcases List.mem_append.mp hc with hup | hname
    · exact (List.mem_replicate.mp hup).2 ▸ (by decide : up ≠ [])
    · exact (hnames c hname).ne_nil
  · rcases List.mem_append.mp hhere with hup | hname
    · exact here_no_up (List.mem_replicate.mp hup).2
    · exact (hnames here hname).ne_here rfl

/-- A path whose part behind the drive is clean has the shape of a normal form. -/
theorem isNormal_of_clean {p : List Char} (hne : p ≠ []) (hback : '\\' ∉ p)
    (hclean : clean (behindDrive p) = behindDrive p) (hhere : behindDrive p = here → p = here) :
    IsNormal p := by
  by_cases hdot : behindDrive p = here
  · -- the single dot
    obtain rfl := hhere hdot
    exact ⟨hne, hback, by decide, by decide, fun _ => rfl, 0, [here], by decide, by decide, by simp⟩
  · obtain ⟨hslashes, steps, names, hsteps, hnames, hparts⟩ := parts_of_clean hclean hdot
    obtain ⟨hup, hnil, hdotless⟩ := not_mem_of_names hnames
    rw [← hparts] at hnil hdotless
    exact ⟨hne, hback, hslashes, hnil, fun hmem => absurd hmem hdotless, steps, names, hparts, hup,
      hsteps⟩

/-- The anchor of an absolute path is written. -/
theorem text_ne_nil {anchor : Anchor} (h : anchor.isAbsolute = true) : anchor.text ≠ [] := by
  cases anchor with
  | relative => exact absurd h (by decide)
  | rooted => decide
  | doubled => decide

/-- Behind the drive something is left: a drive is recognized by the slash that follows it. -/
theorem behindDrive_ne_nil {p : List Char} (hne : p ≠ []) : behindDrive p ≠ [] := by
  unfold behindDrive
  split
  · rename_i hdrive
    unfold startsWithDrive at hdrive
    split at hdrive
    · simp
    · exact absurd hdrive Bool.false_ne_true
  · exact hne

/-- A text of an anchor and components is its own rendering, unless it is empty. -/
theorem render_eq {anchor : Anchor} {cs : List Component} {p : List Char}
    (h : anchor.text ++ joinWith '/' cs = p) (hne : p ≠ []) : render anchor cs = p := by
  unfold render
  split
  · rename_i hnil
    exact absurd (h.symm.trans hnil) hne
  · exact h

/-- A path of that shape is clean behind its drive. -/
theorem IsNormal.clean_eq {p : List Char} (h : IsNormal p) :
    clean (behindDrive p) = behindDrive p := by
  by_cases hdot : here ∈ componentsBehind (behindDrive p)
  · rw [h.only_here hdot]
    rfl
  · obtain ⟨anchor, hanchor⟩ := exists_anchor h.slashes
    obtain ⟨steps, names, hparts, hup, hsteps⟩ := h.steps_first
    have htext := leadingSlashes_append (behindDrive p)
    rw [hanchor] at htext hsteps
    -- no component is empty, a dot or a late step up, so what follows the steps up are names
    have hnames : ∀ c ∈ names, IsName c := fun c hc => by
      have hmem : c ∈ componentsBehind (behindDrive p) := hparts ▸ List.mem_append_right _ hc
      exact ⟨h.no_empty c hmem, fun heq => hdot (heq ▸ hmem), fun heq => hup (heq ▸ hc),
        componentsBehind_no_slash _ c hmem⟩
    have hreduced : Reduced anchor.isAbsolute (componentsBehind (behindDrive p)) :=
      ⟨steps, names, fun habs => Nat.eq_zero_of_not_pos fun hpos => text_ne_nil habs (hsteps hpos),
        hnames, hparts⟩
    rw [← render_eq htext (behindDrive_ne_nil h.ne_nil)]
    exact clean_render hreduced

/-! ## Normal forms -/

/-- A path that has no backslash is its own normal form exactly if it is clean behind its drive. -/
theorem normalizeChars_eq_self_iff_clean {p : List Char} (hne : p ≠ []) (hback : '\\' ∉ p) :
    normalizeChars p = p ↔ clean (behindDrive p) = behindDrive p := by
  rw [normalizeChars_eq hback hne]
  unfold behindDrive
  split
  · -- the drive is set aside on both sides and cancels
    rename_i hdrive
    constructor
    · intro h
      have htail : p.take 2 ++ clean (p.drop 2) = p.take 2 ++ p.drop 2 := by
        rw [h, List.take_append_drop]
      exact List.append_cancel_left htail
    · intro h
      rw [h, List.take_append_drop]
  · exact Iff.rfl

/-- **The paths that are their own normal form** are the empty one and those of the shape. -/
theorem normalizeChars_eq_self_iff {p : List Char} :
    normalizeChars p = p ↔ p = [] ∨ IsNormal p := by
  constructor
  · intro h
    by_cases hne : p = []
    · exact Or.inl hne
    · have hback : '\\' ∉ p := h ▸ backslash_not_mem_normalizeChars p
      have hclean := (normalizeChars_eq_self_iff_clean hne hback).mp h
      refine Or.inr (isNormal_of_clean hne hback hclean fun hhere => ?_)
      -- behind a drive there is a slash
      unfold behindDrive at hhere
      split at hhere
      · rename_i hdrive
        obtain ⟨letter, tail, -, rfl⟩ := exists_of_startsWithDrive hback hdrive
        exact absurd hhere (by simp [here])
      · exact hhere
  · rintro (rfl | h)
    · rfl
    · exact (normalizeChars_eq_self_iff_clean h.ne_nil h.no_backslash).mpr h.clean_eq

/-- Only the empty path is normalized to the empty one. -/
theorem normalizeChars_eq_nil_iff {p : List Char} : normalizeChars p = [] ↔ p = [] := by
  constructor
  · intro h
    by_contra hne
    have hforward : forwardSlashes p ≠ [] := by simpa [forwardSlashes] using hne
    unfold normalizeChars at h
    simp only [List.isEmpty_iff, if_neg hforward] at h
    split at h
    · exact clean_ne_nil _ (List.append_eq_nil_iff.mp h).2
    · exact clean_ne_nil _ h
  · rintro rfl
    rfl

/-- **Every path has a normal form of the shape**, which is its own normal form, and a path is its own
normal form only if it has the shape. The empty path is its own normal form, too. -/
theorem normalize_isNormal (p : String) :
    normalize (normalize p) = normalize p ∧ (normalize p = "" ↔ p = "") ∧
      (normalize p = "" ∨ IsNormal (normalize p).toList) ∧
      (normalize p = p ↔ p = "" ∨ IsNormal p.toList) := by
  have hnil : ∀ s : String, s = "" ↔ s.toList = [] := fun s => String.toList_eq_nil_iff.symm
  have hself : ∀ s : String, normalize s = s ↔ normalizeChars s.toList = s.toList := fun s => by
    rw [← String.toList_inj, normalize, String.toList_ofList]
  have hidem : normalize (normalize p) = normalize p := by
    rw [hself, normalize, String.toList_ofList]
    exact normalizeChars_idem _
  have hiff : ∀ s : String, normalize s = s ↔ s = "" ∨ IsNormal s.toList := fun s => by
    rw [hself, normalizeChars_eq_self_iff, hnil]
  refine ⟨hidem, ?_, (hiff _).mp hidem, hiff p⟩
  rw [hnil, hnil, normalize, String.toList_ofList, normalizeChars_eq_nil_iff]

end Packwright.Path
