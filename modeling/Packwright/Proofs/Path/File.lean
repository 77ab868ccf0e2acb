import Packwright.Path.File
import Packwright.Compile.Scope
import Packwright.Proofs.Path.Ending
import Packwright.Proofs.Path.Steps

/-!
# File paths as texts

A file path that is rooted and made of names alone is written in normal form, so its text can be
used as the virtual path: nothing is lost when it is read back, and the directory part of the text
is the text of the directory.

* `Plain` says which file paths these are. All that reading back needs is a path made of steps
  (`ofString_toString_of_isStep`), such as a text writes and such as `Descends` describes.
* `ofString_toString` and `parent_toString` are the two facts, `virtual_eq` is the reason.
-/

namespace Packwright.FilePath

open Packwright.Path Packwright.Text

/-- A name without a backslash: the text between two slashes of a virtual path. -/
def IsPlainName (name : String) : Prop :=
  IsName name.toList ∧ '\\' ∉ name.toList

instance : DecidablePred IsPlainName := fun name =>
  inferInstanceAs (Decidable (IsName name.toList ∧ '\\' ∉ name.toList))

/-- A path that starts at the root and goes down by names. -/
structure Descends (p : FilePath) : Prop where
  rooted : p.anchor = .rooted
  names : ∀ name ∈ p.parts, IsName name.toList

/-- A path that starts at the root and goes down by names without backslashes. -/
structure Plain (p : FilePath) : Prop where
  rooted : p.anchor = .rooted
  names : ∀ name ∈ p.parts, IsPlainName name

instance (p : FilePath) : Decidable p.Plain :=
  decidable_of_iff (p.anchor = .rooted ∧ ∀ name ∈ p.parts, IsPlainName name)
    ⟨fun ⟨hrooted, hnames⟩ => ⟨hrooted, hnames⟩, fun h => ⟨h.rooted, h.names⟩⟩

variable {p q d : FilePath}

theorem Plain.parent (h : p.Plain) : p.parent.Plain :=
  ⟨h.rooted, fun name hname => h.names name (List.mem_of_mem_dropLast hname)⟩

theorem Plain.descends (h : p.Plain) : p.Descends :=
  ⟨h.rooted, fun name hname => (h.names name hname).1⟩

/-- The components of a descending path are names. -/
theorem Descends.isName (h : p.Descends) : ∀ c ∈ p.parts.map String.toList, IsName c := by
  intro c hc
  obtain ⟨name, hname, rfl⟩ := List.mem_map.mp hc
  exact h.names name hname

theorem Plain.isName (h : p.Plain) : ∀ c ∈ p.parts.map String.toList, IsName c :=
  h.descends.isName

/-! ## Paths that are read from texts -/

/-- Whether a path is one that a text writes. -/
def IsWritten (p : FilePath) : Prop :=
  ∃ s, p = ofString s

/-- Whether a component goes one step, down or up. -/
structure IsStep (part : String) : Prop where
  ne_nil : part.toList ≠ []
  ne_here : part.toList ≠ here
  no_slash : '/' ∉ part.toList

/-- A path that is read from a text is made of steps. -/
theorem IsWritten.isStep (h : p.IsWritten) : ∀ part ∈ p.parts, IsStep part := by
  obtain ⟨s, rfl⟩ := h
  intro part hpart
  obtain ⟨c, hc, rfl⟩ := List.mem_map.mp hpart
  obtain ⟨hcomponent, hkept⟩ := List.mem_filter.mp hc
  obtain ⟨hnil, hhere⟩ := of_decide_eq_true hkept
  refine ⟨?_, ?_, ?_⟩
  all_goals rw [String.toList_ofList]
  · exact hnil
  · exact hhere
  · exact fun hslash => (mem_of_mem_splitOn hcomponent hslash).2 rfl

theorem IsStep.isName {part : String} (h : IsStep part) (hup : part ≠ "..") : IsName part.toList :=
  ⟨h.ne_nil, h.ne_here, fun heq => hup (String.toList_inj.mp heq), h.no_slash⟩

theorem Descends.isStep (h : p.Descends) : ∀ part ∈ p.parts, IsStep part := fun part hpart =>
  ⟨(h.names part hpart).ne_nil, (h.names part hpart).ne_here, (h.names part hpart).no_slash⟩

/-- Steps lead somewhere: none is empty or the dot. -/
theorem leadSomewhere_of_isStep (h : ∀ part ∈ p.parts, IsStep part) :
    ∀ c ∈ p.parts.map String.toList, LeadsSomewhere c := by
  intro c hc
  obtain ⟨part, hpart, rfl⟩ := List.mem_map.mp hc
  exact ⟨(h part hpart).ne_nil, (h part hpart).ne_here, (h part hpart).no_slash⟩

/-- The spelling of a path is the rendering of its parts. -/
theorem toList_toString_eq (p : FilePath) :
    p.toString.toList = render p.anchor (p.parts.map String.toList) :=
  String.toList_ofList

/-- **A path that is made of steps can be read back from its text.** -/
theorem ofString_toString_of_isStep (h : ∀ part ∈ p.parts, IsStep part) :
    ofString p.toString = p := by
  have hsteps := leadSomewhere_of_isStep h
  have hparts : (p.parts.map String.toList).map String.ofList = p.parts := by
    rw [List.map_map]
    exact (List.map_congr_left fun s _ => String.ofList_toList).trans (List.map_id _)
  unfold ofString
  rw [toList_toString_eq, ofChars_render _ hsteps]
  show (⟨p.anchor, (steps (render p.anchor (p.parts.map String.toList))).map String.ofList⟩ :
    FilePath) = p
  rw [steps_render _ hsteps, hparts]

/-- A path whose parts are steps is the reading of a text, its own spelling. -/
theorem isWritten_of_isStep (h : ∀ part ∈ p.parts, IsStep part) : p.IsWritten :=
  ⟨p.toString, (ofString_toString_of_isStep h).symm⟩

/-- Spelling and reading give a descending path back. -/
theorem Descends.ofString_toString (h : p.Descends) : ofString p.toString = p :=
  ofString_toString_of_isStep h.isStep

/-! ## Texts of plain paths -/

/-- A rooted path is a slash and its joined parts. -/
theorem toList_toString_of_rooted (h : p.anchor = .rooted) :
    p.toString.toList = '/' :: joinWith '/' (p.parts.map String.toList) := by
  rw [toList_toString_eq, h, render_of_isAbsolute rfl]
  rfl

theorem toList_toString (h : p.Plain) :
    p.toString.toList = '/' :: joinWith '/' (p.parts.map String.toList) :=
  toList_toString_of_rooted h.rooted

/-- No backslash is in the spelling of a plain path, so normalization does not touch it. -/
theorem backslash_not_mem_toString (h : p.Plain) : '\\' ∉ p.toString.toList := by
  rw [toList_toString h]
  intro hmem
  rcases List.mem_cons.mp hmem with heq | hjoin
  · exact absurd heq (by decide)
  · rcases mem_of_mem_joinWith hjoin with hslash | ⟨c, hc, hback⟩
    · exact absurd hslash (by decide)
    · obtain ⟨name, hname, rfl⟩ := List.mem_map.mp hc
      exact (h.names name hname).2 hback

/-- **The text of a plain path is its virtual path.** -/
theorem virtual_eq (h : p.Plain) : Compile.virtual p = p.toString := by
  have htext := toList_toString h
  have hback := backslash_not_mem_toString h
  have hrender : '/' :: joinWith '/' (p.parts.map String.toList) =
      render .rooted (p.parts.map String.toList) := by
    rw [render_of_isAbsolute rfl]
    rfl
  unfold Compile.virtual Path.normalize
  rw [htext] at hback ⊢
  rw [normalizeChars_slash hback, hrender, clean_render (reduced_of_names h.isName), ← hrender,
    ← htext, String.ofList_toList]

/-- Spelling and reading give a plain path back. -/
theorem ofString_toString (h : p.Plain) : ofString p.toString = p :=
  h.descends.ofString_toString

theorem eq_of_toString_eq (hp : p.Plain) (hq : q.Plain) (h : p.toString = q.toString) : p = q := by
  rw [← ofString_toString hp, ← ofString_toString hq, h]

/-! ## The directory part -/

/-- Without a slash there is no head. -/
theorem dropAfterLast_of_not_mem {s : List Char} (h : '/' ∉ s) : headPart.dropAfterLast s = [] := by
  induction s with
  | nil => rfl
  | cons c rest ih =>
    have hc : c ≠ '/' := fun heq => h (heq ▸ List.mem_cons_self)
    have hrest : '/' ∉ rest := fun hmem => h (List.mem_cons_of_mem _ hmem)
    rw [headPart.dropAfterLast, ih hrest]
    exact if_neg hc

/-- The head ends with the last slash. -/
theorem headPart_append {s name : List Char} (h : '/' ∉ name) :
    headPart (s ++ '/' :: name) = s ++ ['/'] := by
  unfold headPart
  induction s with
  | nil =>
    show headPart.dropAfterLast ('/' :: name) = ['/']
    rw [headPart.dropAfterLast, dropAfterLast_of_not_mem h]
    rfl
  | cons c rest ih =>
    rw [List.cons_append, headPart.dropAfterLast, ih]
    cases rest <;> rfl

/-- One slash at the end is dropped, and no more than that. -/
theorem dropSlashes_append_slash {s : List Char} (h : s.getLast? ≠ some '/') :
    dropSlashes (s ++ ['/']) = s := by
  unfold dropSlashes
  rw [List.reverse_append]
  show (s.reverse.dropWhile (· == '/')).reverse = s
  cases hs : s.reverse with
  | nil => rw [List.reverse_eq_nil_iff.mp hs]; rfl
  | cons last before =>
    have hlast : last ≠ '/' := by
      rintro rfl
      exact h (by rw [List.getLast?_eq_head?_reverse, hs]; rfl)
    rw [List.dropWhile_cons_of_neg (by simpa using hlast), ← hs, List.reverse_reverse]

/-- The parent of a name at the root is the root. -/
theorem parentChars_slash {name : List Char} (h : '/' ∉ name) : parentChars ('/' :: name) = ['/'] := by
  have hhead : headPart ('/' :: name) = ['/'] := headPart_append (s := []) h
  unfold parentChars
  rw [hhead]
  rfl

/-- The parent is what stands before the last slash. -/
theorem parentChars_append {s name : List Char} {last : Char} (hlast : s.getLast? = some last)
    (hne : last ≠ '/') (h : '/' ∉ name) : parentChars (s ++ '/' :: name) = s := by
  have hmore : ¬ (s ++ ['/']).all (· == '/') = true := by
    intro hall
    have hslash := List.all_eq_true.mp hall last
      (List.mem_append_left _ (List.mem_of_getLast? hlast))
    exact hne (beq_iff_eq.mp hslash)
  unfold parentChars
  rw [headPart_append h]
  simp only [if_neg hmore]
  exact dropSlashes_append_slash (by rw [hlast]; simpa using hne)

/-- What is joined from names ends as the last one does. -/
theorem getLast?_joinWith_concat {last : Component} (h : IsName last) (before : List Component) :
    ∃ c, c ≠ '/' ∧ (joinWith '/' (before ++ [last])).getLast? = some c := by
  obtain ⟨front, hfront⟩ := suffix_joinWith_concat before last
  refine ⟨last.getLast h.ne_nil, fun heq => h.no_slash (heq ▸ List.getLast_mem _), ?_⟩
  rw [← hfront, List.getLast?_append_of_ne_nil _ h.ne_nil, List.getLast?_eq_some_getLast]

/-- **The directory part of a text is the text of the directory.** The root is its own
directory. -/
theorem parent_toString (h : p.Plain) : Path.parent p.toString = p.parent.toString := by
  have hdir := toList_toString h.parent
  have htext := toList_toString h
  suffices hchars : parentChars p.toString.toList = p.parent.toString.toList by
    unfold Path.parent
    rw [hchars, String.ofList_toList]
  rw [hdir, htext]
  obtain ⟨anchor, parts⟩ := p
  -- the last part is cut off, and the slash in front of it unless it is the root's
  cases parts using List.reverseRecOn with
  | nil => rfl
  | append_singleton before last =>
    have hlast : '/' ∉ last.toList := (h.isName _ (by simp)).no_slash
    show parentChars ('/' :: joinWith '/' ((before ++ [last]).map String.toList)) =
      '/' :: joinWith '/' ((before ++ [last]).dropLast.map String.toList)
    rw [List.dropLast_concat, List.map_append]
    cases before using List.reverseRecOn with
    | nil => exact parentChars_slash hlast
    | append_singleton above next =>
      have hnext : IsName next.toList := h.isName _ (by simp)
      obtain ⟨c, hc, hend⟩ := getLast?_joinWith_concat hnext (above.map String.toList)
      show parentChars ('/' :: joinWith '/' ((above ++ [next]).map String.toList ++ [last.toList])) = _
      rw [joinWith_concat '/' _ _ (by simp), ← List.cons_append]
      refine parentChars_append (?_ : List.getLast? _ = some c) hc hlast
      rw [List.getLast?_cons, List.map_append]
      show some (((joinWith '/' (above.map String.toList ++ [next.toList])).getLast?).getD '/') = _
      rw [hend]
      rfl

/-! ## A name in a directory -/

/-- A name without a slash is taken as one component. -/
theorem child_name (d : FilePath) {name : String} (h : IsName name.toList) :
    d.child name = ⟨d.anchor, d.parts ++ [name]⟩ := by
  -- a name does not begin with a slash, so joining it does not start again at the root
  have hanchor : Anchor.ofChars name.toList = .relative := by
    cases hname : name.toList with
    | nil => rfl
    | cons c rest =>
      have hc : c ≠ '/' := fun heq => h.no_slash (by rw [hname, heq]; exact List.mem_cons_self)
      simp [Anchor.ofChars, hc]
  have hparts : ofString name = ⟨.relative, [name]⟩ := by
    unfold ofString components
    rw [hanchor, splitOn_of_not_mem h.no_slash]
    simp [h.ne_nil, h.ne_here]
  unfold child join
  rw [hparts]
  rfl

theorem Plain.child (hd : d.Plain) {name : String} (h : IsPlainName name) : (d.child name).Plain := by
  rw [child_name d h.1]
  exact ⟨hd.rooted, List.forall_mem_append.mpr ⟨hd.names, by simpa using h⟩⟩

/-- The names in a directory stand behind one and the same text. -/
theorem exists_toString_child (hd : d.Plain) :
    ∃ front, ∀ name, IsPlainName name → (d.child name).toString.toList = front ++ name.toList := by
  refine ⟨'/' :: (if d.parts = [] then [] else joinWith '/' (d.parts.map String.toList) ++ ['/']),
    fun name hname => ?_⟩
  rw [toList_toString (hd.child hname), child_name d hname.1]
  show '/' :: joinWith '/' ((d.parts ++ [name]).map String.toList) = _
  rw [List.map_append]
  by_cases hroot : d.parts = []
  · rw [if_pos hroot, hroot]
    rfl
  · show '/' :: joinWith '/' (d.parts.map String.toList ++ [name.toList]) = _
    rw [joinWith_concat '/' _ _ (by simpa using hroot), if_neg hroot]
    simp

/-- The parent of a child is the directory. -/
theorem parent_child (d : FilePath) {name : String} (h : IsName name.toList) :
    (d.child name).parent = d := by
  rw [child_name d h]
  unfold FilePath.parent
  rw [List.dropLast_concat]

/-! ## Steps of what is in a directory -/

/-- Whatever text is joined to it, a path of steps stays one: reading drops empty parts and dots. -/
theorem isStep_child (hd : ∀ part ∈ d.parts, IsStep part) (s : String) :
    ∀ part ∈ (d.child s).parts, IsStep part := by
  have hwritten : ∀ part ∈ (ofString s).parts, IsStep part := IsWritten.isStep ⟨s, rfl⟩
  unfold child join
  split
  · exact List.forall_mem_append.mpr ⟨hd, hwritten⟩
  · exact hwritten

theorem child_empty (d : FilePath) : d.child "" = d := by
  show (⟨d.anchor, d.parts ++ []⟩ : FilePath) = d
  rw [List.append_nil]

/-- What is read from its own text stands for itself, wherever it is seen from. -/
theorem Descends.child_toString (h : q.Descends) (d : FilePath) : d.child q.toString = q := by
  unfold child join
  rw [h.ofString_toString, if_neg (by rw [h.rooted]; decide)]

end Packwright.FilePath
