import Mathlib.Data.List.Infix
import Packwright.Proofs.Path.NormalForm

/-!
# Endings of paths

An ending of a file name stays where it is when a path is brought into normal form, and so a source
can be told from each of its outputs.

* `suffix_normalizeChars`: the normal form of a path with an ending has that ending.
* `normalizeChars_append`: behind a name, an ending goes through to the normal form.
* `exists_compiledPathChars` and `sourcePathForChars_output` lead from a source to an output and back;
  `compiledPath_leadsBack` puts both together, for every path that names a source.
-/

namespace Packwright.Path

open Packwright.Text

/-! ## Exchanging an ending -/

/-- Stripping takes off a suffix that was put on. -/
theorem stripSuffix?_append (stem suffix : List Char) :
    stripSuffix? suffix (stem ++ suffix) = some stem := by
  unfold stripSuffix?
  rw [if_pos (List.isSuffixOf_iff_suffix.mpr (List.suffix_append stem suffix)), List.length_append,
    Nat.add_sub_cancel, List.take_left]

/-- Without the suffix there is nothing to strip. -/
theorem stripSuffix?_of_not_suffix {suffix s : List Char} (h : ¬ suffix <:+ s) :
    stripSuffix? suffix s = none := by
  unfold stripSuffix?
  rw [if_neg (fun hs => h (List.isSuffixOf_iff_suffix.mp hs))]

theorem replaceSuffixChars_append (stem old new : List Char) :
    replaceSuffixChars (stem ++ old) old new = stem ++ new := by
  unfold replaceSuffixChars
  rw [stripSuffix?_append]

/-! ## Endings and normal forms -/

/-- An ending that makes every component that has it a name: it is too long for a dot or two, and
holds neither a separator nor the mark of a drive. -/
def IsEnding (s : List Char) : Prop :=
  3 ≤ s.length ∧ '/' ∉ s ∧ '\\' ∉ s ∧ ':' ∉ s

instance : DecidablePred IsEnding := fun s =>
  inferInstanceAs (Decidable (3 ≤ s.length ∧ '/' ∉ s ∧ '\\' ∉ s ∧ ':' ∉ s))

/-- Whatever stands before it, an ending makes a name: it is too long for a dot step and holds no
slash. -/
theorem IsEnding.isName {s c : List Char} (h : IsEnding s) (hc : '/' ∉ c) : IsName (c ++ s) := by
  have hlen : 3 ≤ (c ++ s).length := by rw [List.length_append]; exact h.1.trans (Nat.le_add_left _ _)
  refine ⟨?_, ?_, ?_, fun hmem => (List.mem_append.mp hmem).elim hc h.2.1⟩
  all_goals
    intro heq
    rw [heq] at hlen
    exact absurd hlen (by decide)

/-- What is appended without a separator goes to the last piece. -/
theorem splitOn_append {α : Type} [DecidableEq α] {sep : α} {tail : List α} (h : sep ∉ tail)
    (s : List α) : ∃ pieces last, splitOn sep s = pieces ++ [last] ∧
      splitOn sep (s ++ tail) = pieces ++ [last ++ tail] := by
  induction s with
  | nil => exact ⟨[], [], rfl, splitOn_of_not_mem h⟩
  | cons c rest ih =>
    obtain ⟨pieces, last, hrest, htail⟩ := ih
    rw [List.cons_append, splitOn, splitOn, hrest, htail]
    -- a separator closes an empty piece; any other character joins the first piece of the rest
    by_cases hc : c = sep
    · exact ⟨[] :: pieces, last, if_pos hc, if_pos hc⟩
    · rw [if_neg hc, if_neg hc]
      cases pieces with
      | nil => exact ⟨[], c :: last, rfl, rfl⟩
      | cons piece more => exact ⟨(c :: piece) :: more, last, rfl, rfl⟩

/-- The last component is the end of the joined path. -/
theorem suffix_joinWith_concat (cs : List Component) (last : Component) :
    last <:+ joinWith '/' (cs ++ [last]) := by
  by_cases hcs : cs = []
  · rw [hcs]
    exact List.suffix_refl last
  · rw [joinWith_concat '/' cs last hcs]
    exact (List.suffix_cons '/' last).trans (List.suffix_append _ _)

/-- And of the rendered one, if it is not empty. -/
theorem suffix_render {anchor : Anchor} {cs : List Component} {last : Component}
    (hlast : last ≠ []) : last <:+ render anchor (cs ++ [last]) := by
  have hjoin : last <:+ anchor.text ++ joinWith '/' (cs ++ [last]) :=
    (suffix_joinWith_concat cs last).trans (List.suffix_append _ _)
  unfold render
  split
  · rename_i hnil
    rw [hnil] at hjoin
    exact absurd (List.suffix_nil.mp hjoin) hlast
  · exact hjoin

/-- Cleaning keeps an ending: it belongs to a last component that is a name, and names are never
dropped from the end. -/
theorem suffix_clean {s p : List Char} (h : IsEnding s) (hp : s <:+ p) : s <:+ clean p := by
  obtain ⟨stem, rfl⟩ := hp
  obtain ⟨pieces, last, hstem, hsplit⟩ := splitOn_append h.2.1 stem
  have hlast : '/' ∉ last := fun hmem =>
    (mem_of_mem_splitOn (hstem ▸ List.mem_append_right _ List.mem_cons_self) hmem).2 rfl
  unfold clean components
  simp only [hsplit, reduce_concat_name (h.isName hlast)]
  exact (List.suffix_append last s).trans (suffix_render (h.isName hlast).ne_nil)

/-- **A path with an ending has it in normal form.** -/
theorem suffix_normalizeChars {s p : List Char} (h : IsEnding s) (hp : s <:+ p) :
    s <:+ normalizeChars p := by
  have hforward : s <:+ forwardSlashes p := by
    obtain ⟨stem, rfl⟩ := hp
    rw [forwardSlashes, List.map_append, ← forwardSlashes, ← forwardSlashes,
      forwardSlashes_of_not_mem h.2.2.1]
    exact List.suffix_append _ _
  have hback := backslash_not_mem_forwardSlashes p
  unfold normalizeChars
  dsimp only
  split
  · rename_i hnil
    rw [List.isEmpty_iff.mp hnil] at hforward
    exact hforward
  · split
    · rename_i hdrive
      obtain ⟨letter, tail, -, heq⟩ := exists_of_startsWithDrive hback hdrive
      -- the ending is too short to reach back to the colon
      have htail : s <:+ '/' :: tail := by
        rw [heq, List.suffix_cons_iff, List.suffix_cons_iff] at hforward
        rcases hforward with hall | hcolon | htail
        · exact absurd (by rw [hall]; simp) h.2.2.2
        · exact absurd (by rw [hcolon]; simp) h.2.2.2
        · exact htail
      rw [heq]
      exact (suffix_clean h htail).trans (List.suffix_append [letter, ':'] _)
    · exact suffix_clean h hforward

/-! ## Appending an ending -/

/-- Whether a path, once its backslashes are slashes, ends in the name of something. -/
def EndsInName (p : List Char) : Prop :=
  ∃ c ∈ (components (forwardSlashes p)).getLast?, IsName c

/-- Where a path starts is seen before anything but a slash. -/
theorem ofChars_append_of_head? {s : List Char} (hhead : s.head? ≠ some '/') (p : List Char) :
    Anchor.ofChars (p ++ s) = Anchor.ofChars p := by
  -- only a path that is nothing but one or two slashes can look at what follows it
  cases p with
  | nil => exact ofChars_text_append .relative hhead
  | cons c p =>
    by_cases hc : c = '/'
    · subst hc
      cases p with
      | nil => exact ofChars_text_append .rooted hhead
      | cons d p =>
        by_cases hd : d = '/'
        · subst hd
          cases p with
          | nil => exact ofChars_text_append .doubled hhead
          | cons e p => by_cases he : e = '/' <;> simp [Anchor.ofChars, he]
        · simp [Anchor.ofChars, hd]
    · simp [Anchor.ofChars, hc]

/-- Text without a slash behind a path does not change its anchor. -/
theorem ofChars_append {s : List Char} (hs : '/' ∉ s) (p : List Char) :
    Anchor.ofChars (p ++ s) = Anchor.ofChars p :=
  ofChars_append_of_head? (fun h => hs (List.mem_of_mem_head? h)) p

/-- A path with a last component is never rendered as the dot. -/
theorem render_concat {last : Component} (h : last ≠ []) (anchor : Anchor) (cs : List Component) :
    render anchor (cs ++ [last]) = anchor.text ++ joinWith '/' (cs ++ [last]) := by
  have hne : anchor.text ++ joinWith '/' (cs ++ [last]) ≠ [] := fun hnil =>
    h (List.suffix_nil.mp (hnil ▸
      (suffix_joinWith_concat cs last).trans (List.suffix_append anchor.text _)))
  unfold render
  split
  · exact absurd ‹_› hne
  · rfl

/-- Lengthening the last component lengthens the joined path. -/
theorem joinWith_concat_append (cs : List Component) (last s : Component) :
    joinWith '/' (cs ++ [last ++ s]) = joinWith '/' (cs ++ [last]) ++ s := by
  by_cases hcs : cs = []
  · rw [hcs]
    rfl
  · rw [joinWith_concat _ _ _ hcs, joinWith_concat _ _ _ hcs, List.append_assoc, List.cons_append]

/-- So an ending may be put on before or after cleaning, where the path ends in a name. -/
theorem clean_append {s p : List Char} (h : IsEnding s)
    (hp : ∃ c ∈ (components p).getLast?, IsName c) : clean (p ++ s) = clean p ++ s := by
  obtain ⟨pieces, last, hsplit, hmore⟩ := splitOn_append h.2.1 p
  have hlast : IsName last := by
    obtain ⟨c, hc, hname⟩ := hp
    rw [components, hsplit, List.getLast?_concat] at hc
    exact Option.some.inj hc ▸ hname
  have hlonger : IsName (last ++ s) := h.isName hlast.no_slash
  unfold clean components
  simp only [ofChars_append h.2.1, hsplit, hmore, reduce_concat_name hlast,
    reduce_concat_name hlonger]
  rw [render_concat hlast.ne_nil, render_concat hlonger.ne_nil, joinWith_concat_append,
    List.append_assoc]

/-- An ending makes no drive of a path that had none, and unmakes none. -/
theorem startsWithDrive_append {s p : List Char} (h : IsEnding s) (hne : p ≠ []) :
    startsWithDrive (p ++ s) = startsWithDrive p := by
  obtain ⟨-, hslash, hback, hcolon⟩ := h
  match p with
  | [] => exact absurd rfl hne
  | [a] =>
    -- the colon would have to be part of the ending
    cases s with
    | nil => rfl
    | cons c rest =>
      have hc : c ≠ ':' := fun heq => hcolon (heq ▸ List.mem_cons_self)
      simp [startsWithDrive, hc]
  | [a, b] =>
    cases s with
    | nil => rfl
    | cons c rest =>
      have hc : c ≠ '/' := fun heq => hslash (heq ▸ List.mem_cons_self)
      have hc' : c ≠ '\\' := fun heq => hback (heq ▸ List.mem_cons_self)
      by_cases hb : b = ':' <;> simp [startsWithDrive, hb, hc, hc']
  | a :: b :: c :: rest => by_cases hb : b = ':' <;> simp [startsWithDrive, hb]

/-- **Behind a name, an ending goes through to the normal form.** -/
theorem normalizeChars_append {s p : List Char} (h : IsEnding s) (hp : EndsInName p) :
    normalizeChars (p ++ s) = normalizeChars p ++ s := by
  have hforward : forwardSlashes (p ++ s) = forwardSlashes p ++ s := by
    rw [forwardSlashes, List.map_append, ← forwardSlashes, ← forwardSlashes,
      forwardSlashes_of_not_mem h.2.2.1]
  have hback := backslash_not_mem_forwardSlashes p
  have hname : ∃ c ∈ (components (forwardSlashes p)).getLast?, IsName c := hp
  have hne : forwardSlashes p ≠ [] := by
    intro hnil
    obtain ⟨c, hc, hisName⟩ := hname
    rw [hnil] at hc
    exact hisName.ne_nil (Option.some.inj hc).symm
  unfold normalizeChars
  simp only [hforward, List.isEmpty_iff, List.append_eq_nil_iff, hne, false_and, if_false,
    startsWithDrive_append h hne]
  split
  · rename_i hdrive
    obtain ⟨letter, tail, hletter, heq⟩ := exists_of_startsWithDrive hback hdrive
    have hslash : '/' ∉ [letter, ':'] := by
      have hne : letter ≠ '/' := fun heq => absurd (heq ▸ hletter) (by decide)
      simp [hne.symm]
    -- the drive is a component of its own, so the last one is that of what follows it
    have htail : ∃ c ∈ (components ('/' :: tail)).getLast?, IsName c := by
      obtain ⟨c, hc, hisName⟩ := hname
      refine ⟨c, ?_, hisName⟩
      have hcut : components (forwardSlashes p) = [letter, ':'] :: splitOn '/' tail := by
        rw [heq]
        exact splitOn_append_sep hslash tail
      have hroot : components ('/' :: tail) = [] :: splitOn '/' tail :=
        splitOn_append_sep List.not_mem_nil tail
      rw [hcut, List.getLast?_cons_of_ne_nil (splitOn_ne_nil '/' tail)] at hc
      rw [hroot, List.getLast?_cons_of_ne_nil (splitOn_ne_nil '/' tail)]
      exact hc
    rw [heq]
    show letter :: ':' :: clean ('/' :: tail ++ s) = letter :: ':' :: clean ('/' :: tail) ++ s
    rw [clean_append h htail]
    rfl
  · exact clean_append h hname

/-! ## Sources and outputs -/

theorem isEnding_sourceExtension : IsEnding sourceExtension := by decide

/-- Of a normal source path, the compiled path is the stem with the new extension. -/
theorem exists_compiledPathChars_of_normal {p : List Char} (h : sourceExtension <:+ normalizeChars p) :
    ∃ stem, normalizeChars p = stem ++ sourceExtension ∧
      ∀ extension, compiledPathChars p extension = stem ++ extension := by
  obtain ⟨stem, hstem⟩ := h
  refine ⟨stem, hstem.symm, fun extension => ?_⟩
  unfold compiledPathChars
  rw [← hstem, replaceSuffixChars_append]

/-- **The outputs of a source** are its normal form with another ending. -/
theorem exists_compiledPathChars {p : List Char} (h : sourceExtension <:+ p) :
    ∃ stem, normalizeChars p = stem ++ sourceExtension ∧
      ∀ extension, compiledPathChars p extension = stem ++ extension :=
  exists_compiledPathChars_of_normal (suffix_normalizeChars isEnding_sourceExtension h)

/-- A suffix that ends in no newline keeps the whole text. -/
theorem dropFinalNewline_append {s : List Char} (hs : s.getLast?.isSome)
    (hlast : s.getLast? ≠ some '\n') (stem : List Char) :
    dropFinalNewline (stem ++ s) = stem ++ s := by
  unfold dropFinalNewline
  rw [List.getLast?_append_of_ne_nil _ (by rintro rfl; simp at hs), if_neg hlast]

/-- **The source of an output** is what it was compiled from. -/
theorem sourcePathForChars_output {extension : List Char}
    (h : extension = moduleExtension ∨ extension = declarationExtension) (stem : List Char) :
    sourcePathForChars (stem ++ extension) = stem ++ sourceExtension := by
  have hcore : dropFinalNewline (stem ++ extension) = stem ++ extension := by
    rcases h with rfl | rfl <;> exact dropFinalNewline_append (by decide) (by decide) stem
  unfold sourcePathForChars
  simp only [hcore, List.drop_length, List.append_nil]
  rcases h with rfl | rfl
  · -- the declaration ending is tried first, and a module does not end in it
    have hother : ¬ declarationExtension <:+ stem ++ moduleExtension := by
      intro hsuffix
      have hts : ".ts".toList <:+ stem ++ moduleExtension :=
        List.IsSuffix.trans (by decide) hsuffix
      have heq := List.IsSuffix.eq_of_length
        (List.suffix_of_suffix_length_le hts (List.suffix_append stem moduleExtension) (by decide))
        (by decide)
      exact absurd heq (by decide)
    rw [stripSuffix?_of_not_suffix hother, stripSuffix?_append]
  · rw [stripSuffix?_append]

/-- Whether a path names a source, perhaps a declaration file: its normal form has the ending of
one. -/
def NamesSource (p : String) : Prop :=
  sourceExtension <:+ (normalize p).toList

instance : DecidablePred NamesSource := fun p =>
  inferInstanceAs (Decidable (sourceExtension <:+ (normalize p).toList))

/-- **The way back from an output leads to the source** it was compiled from, under its normal name. -/
theorem sourcePathFor_compiledPath {p extension : String} (hp : NamesSource p)
    (h : extension.toList = moduleExtension ∨ extension.toList = declarationExtension) :
    sourcePathFor (compiledPath p extension) = normalize p := by
  have hnormal : sourceExtension <:+ normalizeChars p.toList := by
    unfold NamesSource normalize at hp
    rwa [String.toList_ofList] at hp
  obtain ⟨stem, hstem, houtput⟩ := exists_compiledPathChars_of_normal hnormal
  unfold sourcePathFor compiledPath normalize
  rw [String.toList_ofList, houtput, sourcePathForChars_output h, hstem]

/-- **Compiled paths lead back to their source.** The source of an output, be it a module or a
declaration file, is the normal form of the path that it was compiled from, whatever else that ends
in before the ending of a source; so two paths share an output only if they name one source. -/
theorem compiledPath_leadsBack {extension : String}
    (h : extension.toList = moduleExtension ∨ extension.toList = declarationExtension) :
    (∀ p, NamesSource p → sourcePathFor (compiledPath p extension) = normalize p) ∧
    ∀ p q, NamesSource p → NamesSource q →
      (compiledPath p extension = compiledPath q extension ↔ normalize p = normalize q) := by
  refine ⟨fun p hp => sourcePathFor_compiledPath hp h, fun p q hp hq => ⟨fun heq => ?_, fun heq => ?_⟩⟩
  · calc normalize p
        = sourcePathFor (compiledPath p extension) := (sourcePathFor_compiledPath hp h).symm
      _ = sourcePathFor (compiledPath q extension) := by rw [heq]
      _ = normalize q := sourcePathFor_compiledPath hq h
  · -- an output is made of the normal form alone
    have hchars : normalizeChars p.toList = normalizeChars q.toList := String.ofList_injective heq
    unfold compiledPath compiledPathChars
    rw [hchars]

/-- Stems that end like an output, one of them behind a newline. -/
theorem compiledPath_leadsBack_endingInStem :
    NamesSource "lib\\x\n.js.ts/" ∧ NamesSource "a/../lib/x.d.js.ts" ∧
      sourcePathFor (compiledPath "lib\\x\n.js.ts/" ".d.ts") = normalize "lib\\x\n.js.ts/" ∧
      (compiledPath "lib\\x\n.js.ts/" ".d.ts" = compiledPath "a/../lib/x.d.js.ts" ".d.ts" ↔
        normalize "lib\\x\n.js.ts/" = normalize "a/../lib/x.d.js.ts") := by
  have hfirst : NamesSource "lib\\x\n.js.ts/" := by decide +kernel
  have hsecond : NamesSource "a/../lib/x.d.js.ts" := by decide +kernel
  have hending : ".d.ts".toList = moduleExtension ∨ ".d.ts".toList = declarationExtension :=
    Or.inr rfl
  obtain ⟨hback, hshare⟩ := compiledPath_leadsBack hending
  exact ⟨hfirst, hsecond, hback _ hfirst, hshare _ _ hfirst hsecond⟩

end Packwright.Path
