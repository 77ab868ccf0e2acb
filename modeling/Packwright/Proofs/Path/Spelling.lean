import Packwright.Proofs.Path.File
import Packwright.Proofs.Path.Shape

/-!
# Spellings of a path

A path can be written in many ways, and a file shares its directory with others. What is asked of a
file is often asked of its directory alone, so none of this can be told from the answer.

* `IsFront` is what components can be put behind, and `IsFront.exists_normalizeChars` what comes of
  these in normal form.
* `InOneDirectory` lists ways to write the paths of files of one directory; `InOneDirectory.parent_eq`
  is the induction on them.
* `normalizeChars_append_ending`: an ending put behind a normal form leaves it in normal form.
-/

namespace Packwright.Path

open Packwright.Text

/-! ## Components behind a front -/

/-- Whether a text is one that components can be put behind: nothing at all, or closed by a slash. -/
structure IsFront (front : List Char) : Prop where
  no_backslash : '\\' ∉ front
  closed : ∀ c ∈ front.getLast?, c = '/'

/-- Whether a text can stand behind a front: it opens with a component. -/
structure IsRest (rest : List Char) : Prop where
  no_backslash : '\\' ∉ rest
  opened : ∃ c ∈ rest.head?, c ≠ '/'

variable {front rest : List Char}

theorem IsRest.ne_nil (h : IsRest rest) : rest ≠ [] := by
  obtain ⟨c, hc, -⟩ := h.opened
  rintro rfl
  exact absurd hc (by simp)

theorem IsRest.head?_ne (h : IsRest rest) : rest.head? ≠ some '/' := by
  obtain ⟨c, hc, hne⟩ := h.opened
  rw [Option.mem_def.mp hc]
  simpa using hne

theorem IsName.isRest {name : Component} (h : IsName name) (hback : '\\' ∉ name) : IsRest name := by
  refine ⟨hback, ?_⟩
  obtain ⟨c, more, rfl⟩ := List.exists_cons_of_ne_nil h.ne_nil
  exact ⟨c, rfl, fun heq => h.no_slash (heq ▸ List.mem_cons_self)⟩

/-- A front contributes components of its own, whatever follows it. -/
theorem IsFront.exists_components (h : IsFront front) :
    ∃ cs, ∀ rest, components (front ++ rest) = cs ++ components rest := by
  cases front using List.reverseRecOn with
  | nil => exact ⟨[], fun rest => rfl⟩
  | append_singleton s c =>
    obtain rfl : c = '/' := h.closed c (by simp)
    refine ⟨components s, fun rest => ?_⟩
    rw [List.append_assoc]
    exact splitOn_append_sep_append s rest

/-- And so does the cleaned path: the front fixes the anchor and the first components. -/
theorem IsFront.exists_clean (h : IsFront front) : ∃ cs, ∀ rest, IsRest rest →
    clean (front ++ rest) =
      render (.ofChars front) (reduce (Anchor.ofChars front).isAbsolute (cs ++ components rest)) := by
  obtain ⟨cs, hcs⟩ := h.exists_components
  refine ⟨cs, fun rest hrest => ?_⟩
  unfold clean
  simp only [ofChars_append_of_head? hrest.head?_ne, hcs]

/-- Whether a path has a drive shows in its front. -/
theorem startsWithDrive_front (h : IsFront front) (hne : front ≠ []) (rest : List Char) :
    startsWithDrive (front ++ rest) = startsWithDrive front := by
  match front with
  | [] => exact absurd rfl hne
  | [a] =>
    obtain rfl : a = '/' := h.closed a rfl
    exact (startsWithDrive_slash rest).trans (startsWithDrive_slash []).symm
  | [a, b] =>
    obtain rfl : b = '/' := h.closed b rfl
    simp [startsWithDrive]
  | a :: b :: c :: more => by_cases hb : b = ':' <;> simp [startsWithDrive, hb]

/-- **The normal form of components behind a front.** The drive, where the path starts and what the
components are put behind depend on the front alone. -/
theorem IsFront.exists_normalizeChars (h : IsFront front) : ∃ drive anchor cs,
    (drive = [] ∨ Anchor.isAbsolute anchor = true) ∧
    ∀ rest, IsRest rest → (front = [] → startsWithDrive rest = false) →
      normalizeChars (front ++ rest) =
        drive ++ render anchor (reduce anchor.isAbsolute (cs ++ components rest)) := by
  have hback : ∀ rest, IsRest rest → '\\' ∉ front ++ rest := fun rest hrest hmem =>
    (List.mem_append.mp hmem).elim h.no_backslash hrest.no_backslash
  have hne : ∀ rest, IsRest rest → front ++ rest ≠ [] := fun rest hrest hnil =>
    hrest.ne_nil (List.append_eq_nil_iff.mp hnil).2
  -- a drive is in the front, or there is none: `hnone` excludes one that starts behind it
  by_cases hdrive : startsWithDrive front = true
  · obtain ⟨letter, tail, -, rfl⟩ := exists_of_startsWithDrive h.no_backslash hdrive
    have htail : IsFront ('/' :: tail) := by
      refine ⟨fun hmem => h.no_backslash (by simp_all), fun c hc => h.closed c ?_⟩
      rw [List.getLast?_cons_cons, List.getLast?_cons_cons]
      exact hc
    obtain ⟨cs, hcs⟩ := htail.exists_clean
    refine ⟨[letter, ':'], .ofChars ('/' :: tail), cs, Or.inr (isAbsolute_ofChars_slash tail),
      fun rest hrest _ => ?_⟩
    have hstill : startsWithDrive (letter :: ':' :: '/' :: tail ++ rest) = true :=
      (startsWithDrive_front h (by simp) rest).trans hdrive
    rw [normalizeChars_eq (hback rest hrest) (hne rest hrest), if_pos hstill, ← hcs rest hrest]
    rfl
  · obtain ⟨cs, hcs⟩ := h.exists_clean
    refine ⟨[], .ofChars front, cs, Or.inl rfl, fun rest hrest hnone => ?_⟩
    have hstill : ¬ startsWithDrive (front ++ rest) = true := by
      by_cases hnil : front = []
      · rw [hnil, List.nil_append, hnone hnil]
        exact Bool.false_ne_true
      · rw [startsWithDrive_front h hnil]
        exact hdrive
    rw [normalizeChars_eq (hback rest hrest) (hne rest hrest), if_neg hstill, hcs rest hrest]
    rfl

/-! ## Dots -/

/-- Components that lead nowhere, with their slashes: a dot, or a name and the way back up. -/
inductive IsDetour : List Char → Prop
  | dot : IsDetour ['.', '/']
  | back {name : Component} (hname : IsName name) (hback : '\\' ∉ name) :
    IsDetour (name ++ ['/', '.', '.', '/'])

/-- A detour before a rest is a rest. -/
theorem IsDetour.isRest {dots : List Char} (h : IsDetour dots) (hrest : IsRest rest) :
    IsRest (dots ++ rest) := by
  cases h with
  | dot =>
    refine ⟨?_, '.', rfl, by decide⟩
    simpa using hrest.no_backslash
  | @back name hname hback =>
    obtain ⟨-, c, hc, hne⟩ := hname.isRest hback
    refine ⟨by simpa using ⟨hback, hrest.no_backslash⟩, c, ?_, hne⟩
    rw [List.append_assoc]
    exact List.mem_head?_append_of_mem_head? hc

/-- Whatever is kept when a detour is taken is kept afterwards. -/
theorem IsDetour.reduce_eq {dots : List Char} (h : IsDetour dots) (absolute : Bool)
    (cs : List Component) (rest : List Char) :
    reduce absolute (cs ++ components (dots ++ rest)) = reduce absolute (cs ++ components rest) := by
  cases h with
  | dot =>
    have hcut : components (here ++ '/' :: rest) = here :: components rest :=
      splitOn_append_sep (by decide) rest
    show reduce absolute (cs ++ components (here ++ '/' :: rest)) = _
    rw [hcut, reduce, reduce, List.foldl_append, List.foldl_append]
    rfl
  | @back name hname hback =>
    have hcut : components (name ++ ['/', '.', '.', '/'] ++ rest) = name :: up :: components rest := by
      rw [List.append_assoc]
      show splitOn '/' (name ++ '/' :: (up ++ '/' :: rest)) = _
      rw [splitOn_append_sep hname.no_slash, splitOn_append_sep up_no_slash]
      rfl
    -- a name followed by a step up leaves the kept components as they were
    have hboth : ∀ kept, reduceStep absolute (reduceStep absolute kept name) up = kept := by
      intro kept
      rw [reduceStep_name hname]
      simp [reduceStep, hname.ne_up, show up ≠ [] by decide, show up ≠ here by decide]
    rw [hcut, reduce, reduce, List.foldl_append, List.foldl_append, List.foldl_cons, List.foldl_cons,
      hboth]

/-! ## Files of one directory -/

/-- Ways to write the paths of files of one directory: with slashes or backslashes, with or without a
detour somewhere, and with any name for the file. A detour must neither hide a drive nor look like
one. -/
inductive InOneDirectory : List Char → List Char → Prop
  | slashes {p q : List Char} (h : forwardSlashes p = forwardSlashes q) : InOneDirectory p q
  | detour {front dots rest : List Char} (hfront : IsFront front) (hdots : IsDetour dots)
      (hrest : IsRest rest) (hdrive : front = [] →
        startsWithDrive rest = false ∧ startsWithDrive (dots ++ rest) = false) :
    InOneDirectory (front ++ (dots ++ rest)) (front ++ rest)
  | sibling {front name other : List Char} (hfront : IsFront front) (hname : IsName name)
      (hback : '\\' ∉ name) (hother : IsName other) (hback' : '\\' ∉ other) :
    InOneDirectory (front ++ name) (front ++ other)
  | symm {p q : List Char} (h : InOneDirectory p q) : InOneDirectory q p
  | trans {p q r : List Char} (h : InOneDirectory p q) (h' : InOneDirectory q r) : InOneDirectory p r

/-- The head of a path that ends in a name is what stands before it. -/
theorem headPart_append_name {name : List Char} (hfront : ∀ c ∈ front.getLast?, c = '/')
    (hname : '/' ∉ name) : headPart (front ++ name) = front := by
  cases front using List.reverseRecOn with
  | nil => exact FilePath.dropAfterLast_of_not_mem hname
  | append_singleton s c =>
    obtain rfl : c = '/' := hfront c (by simp)
    rw [List.append_assoc]
    exact FilePath.headPart_append hname

/-- A name behind a front stands behind a front in normal form. -/
theorem IsFront.exists_normalizeChars_name (h : IsFront front) : ∃ before : List Char,
    (∀ c ∈ before.getLast?, c = '/') ∧
    ∀ name, IsName name → '\\' ∉ name → normalizeChars (front ++ name) = before ++ name := by
  obtain ⟨drive, anchor, cs, hdrive, hnormal⟩ := h.exists_normalizeChars
  have hname : ∀ name, IsName name → '\\' ∉ name → normalizeChars (front ++ name) =
      drive ++ (anchor.text ++ joinWith '/' (reduce anchor.isAbsolute cs ++ [name])) := by
    intro name hname hback
    -- a drive is followed by a slash, which a name does not have
    have hnone : startsWithDrive name = false := by
      by_contra hdrive
      obtain ⟨letter, tail, -, rfl⟩ := exists_of_startsWithDrive hback (by simpa using hdrive)
      exact hname.no_slash (by simp)
    rw [hnormal name (hname.isRest hback) fun _ => hnone, components,
      splitOn_of_not_mem hname.no_slash, reduce_concat_name hname, render_concat hname.ne_nil]
  -- the name stands behind the anchor itself, or behind a slash
  cases hreduced : reduce anchor.isAbsolute cs with
  | nil =>
    refine ⟨drive ++ anchor.text, fun c hc => ?_, fun name hisName hback => ?_⟩
    · cases anchor with
      | relative =>
        rw [hdrive.resolve_right (by decide)] at hc
        exact absurd hc (by simp [Anchor.text])
      | rooted => simpa [Anchor.text, eq_comm] using hc
      | doubled => simpa [Anchor.text, eq_comm] using hc
    · rw [hname name hisName hback, hreduced, List.append_assoc]
      rfl
  | cons first more =>
    refine ⟨drive ++ (anchor.text ++ (joinWith '/' (first :: more) ++ ['/'])), fun c hc => ?_,
      fun name hisName hback => ?_⟩
    · simpa [← List.append_assoc, eq_comm] using hc
    · rw [hname name hisName hback, hreduced, joinWith_concat '/' _ _ (by simp)]
      simp

/-- **The directory is the same however its files are written.** -/
theorem InOneDirectory.parent_eq {p q : List Char} (h : InOneDirectory p q) :
    parentChars (normalizeChars p) = parentChars (normalizeChars q) := by
  induction h with
  | slashes h =>
    unfold normalizeChars
    rw [h]
  | @detour front dots rest hfront hdots hrest hdrive =>
    -- a detour vanishes in reducing, so the whole normal paths agree and not only their parents
    obtain ⟨drive, anchor, cs, -, hnormal⟩ := hfront.exists_normalizeChars
    rw [hnormal _ (hdots.isRest hrest) fun hnil => (hdrive hnil).2,
      hnormal _ hrest fun hnil => (hdrive hnil).1, hdots.reduce_eq]
  | @sibling front name other hfront hname hback hother hback' =>
    -- both names stand behind the same normal front, which is the parent
    obtain ⟨before, hclosed, hnormal⟩ := hfront.exists_normalizeChars_name
    unfold parentChars
    rw [hnormal name hname hback, hnormal other hother hback',
      headPart_append_name hclosed hname.no_slash, headPart_append_name hclosed hother.no_slash]
  | symm _ ih => exact ih.symm
  | trans _ _ ih ih' => exact ih.trans ih'

/-! ## Endings behind a normal form -/

/-- A reduced list stays reduced without its last component. -/
theorem Reduced.of_concat {absolute : Bool} {cs : List Component} {last : Component}
    (h : Reduced absolute (cs ++ [last])) : Reduced absolute cs := by
  obtain ⟨steps, names, hsteps, hnames, heq⟩ := h
  cases names using List.reverseRecOn with
  | nil =>
    -- the last component is a step up
    cases steps with
    | zero => exact absurd heq (by simp)
    | succ steps =>
      rw [List.append_nil, List.replicate_succ'] at heq
      refine ⟨steps, [], fun habs => absurd (hsteps habs) (by simp), by simp, ?_⟩
      rw [List.append_nil]
      exact (List.append_inj' heq rfl).1
  | append_singleton more name =>
    rw [← List.append_assoc] at heq
    exact ⟨steps, more, hsteps, fun c hc => hnames c (List.mem_append_left _ hc),
      (List.append_inj' heq rfl).1⟩

theorem Reduced.concat {absolute : Bool} {cs : List Component} {name : Component}
    (h : Reduced absolute cs) (hname : IsName name) : Reduced absolute (cs ++ [name]) := by
  obtain ⟨steps, names, hsteps, hnames, rfl⟩ := h
  exact ⟨steps, names ++ [name], hsteps,
    List.forall_mem_append.mpr ⟨hnames, by simpa using hname⟩, List.append_assoc _ _ _⟩

/-- A clean path with an ending is clean. -/
theorem clean_append_ending {s p : List Char} (h : IsEnding s) (hclean : p = [] ∨ clean p = p) :
    clean (p ++ s) = p ++ s := by
  -- `.` with an ending is a name, so it is not dropped
  by_cases hshort : p = [] ∨ p = here
  · have hslash : '/' ∉ p := by rcases hshort with rfl | rfl <;> decide
    have hname : IsName (p ++ s) := h.isName hslash
    have hrender : p ++ s = render .relative ([] ++ [p ++ s]) := by
      rw [render_concat hname.ne_nil]
      rfl
    rw [hrender]
    exact clean_render (reduced_of_names (by simpa using hname))
  · obtain ⟨hne, hhere⟩ := not_or.mp hshort
    obtain ⟨anchor, cs, hreduced, htext⟩ := exists_of_clean (hclean.resolve_left hne) hhere
    cases cs using List.reverseRecOn with
    | nil =>
      have hname : IsName ([] ++ s) := h.isName List.not_mem_nil
      have hrender : p ++ s = render anchor ([] ++ [[] ++ s]) := by
        rw [render_concat hname.ne_nil, htext, List.append_assoc]
        rfl
      rw [hrender]
      exact clean_render (hreduced.concat hname)
    | append_singleton before last =>
      have hname : IsName (last ++ s) := h.isName (hreduced.no_slash last (by simp))
      have hrender : p ++ s = render anchor (before ++ [last ++ s]) := by
        rw [render_concat hname.ne_nil, joinWith_concat_append, htext, List.append_assoc]
      rw [hrender]
      exact clean_render (hreduced.of_concat.concat hname)

/-- An ending stands behind the drive and does not move it. -/
theorem behindDrive_append {s p : List Char} (h : IsEnding s) :
    behindDrive (p ++ s) = behindDrive p ++ s := by
  unfold behindDrive
  by_cases hne : p = []
  · -- an ending by itself has no colon and so no drive
    have hnone : ¬ startsWithDrive s = true := by
      intro hdrive
      obtain ⟨letter, tail, -, rfl⟩ := exists_of_startsWithDrive h.2.2.1 hdrive
      exact h.2.2.2 (by simp)
    rw [hne, List.nil_append, if_neg hnone]
    rfl
  · rw [startsWithDrive_append h hne]
    split
    · rename_i hdrive
      have hlength : 2 ≤ p.length := by
        unfold startsWithDrive at hdrive
        split at hdrive
        · simp
        · exact absurd hdrive Bool.false_ne_true
      rw [List.drop_append_of_le_length hlength]
    · rfl

/-- **An ending behind a normal form makes a normal form.** -/
theorem normalizeChars_append_ending {s p : List Char} (h : IsEnding s)
    (hnormal : normalizeChars p = p) : normalizeChars (p ++ s) = p ++ s := by
  have hback : '\\' ∉ p := hnormal ▸ backslash_not_mem_normalizeChars p
  have hboth : '\\' ∉ p ++ s := fun hmem => (List.mem_append.mp hmem).elim hback h.2.2.1
  have hne : p ++ s ≠ [] := by
    intro hnil
    have hlength := h.1
    rw [(List.append_eq_nil_iff.mp hnil).2] at hlength
    exact absurd hlength (by decide)
  -- being normal is being clean behind the drive, and there the ending is put on
  have hclean : behindDrive p = [] ∨ clean (behindDrive p) = behindDrive p := by
    by_cases hnil : p = []
    · exact Or.inl (by rw [hnil]; rfl)
    · exact Or.inr ((normalizeChars_eq_self_iff_clean hnil hback).mp hnormal)
  rw [normalizeChars_eq_self_iff_clean hne hboth, behindDrive_append h]
  exact clean_append_ending h hclean

end Packwright.Path
