import Mathlib.Data.List.TakeWhile
import Mathlib.Data.Option.Basic
import Packwright.Annotate
import Packwright.Proofs.Patch.Ordering

/-!
# Fusing a declaration with the call that fills it

A variable that is declared without a value and filled by a call right behind it becomes one
declaration, with the call for its value. The declaration is recognised by the bytes in front of the
call, read backwards; the tree is asked about the call only.

* `Declaring` is what these bytes look like, and `declarationBefore?_eq_some_iff` says that reading
  backwards finds exactly that.
* `Fills` says which calls are fused with them, and `enumPatches_ne_nil_iff` that these are the calls
  with such patches.
* The bytes need not be a statement of their own. In the head of a loop their semicolon separates
  the parts of the head, and the code is malformed without it (`exists_broken_loop`).
-/

namespace Packwright.Annotate

open Packwright.Syntax
open Packwright.Text

/-! ## Declarations in front of a place -/

/-- Bytes that end in the declaration of a variable without a value: a declaring word that is not
the end of a longer one, blanks, a name, and a semicolon with blanks around it. -/
structure Declaring where
  front : List UInt8
  word : List UInt8
  blanks : List UInt8
  name : List UInt8
  behind : List UInt8
  last : List UInt8
  front_last : ∀ b ∈ front.getLast?, isNameByte b = false
  word_mem : word ∈ ["var", "let", "const"].map Utf8.encode
  blanks_ne : blanks ≠ []
  blanks_blank : ∀ b ∈ blanks, isBlankByte b = true
  name_ne : name ≠ []
  name_name : ∀ b ∈ name, isNameByte b = true
  behind_blank : ∀ b ∈ behind, isBlankByte b = true
  last_blank : ∀ b ∈ last, isBlankByte b = true

namespace Declaring

def upToName (t : Declaring) : List UInt8 :=
  t.front ++ (t.word ++ (t.blanks ++ (t.name ++ t.behind)))

def text (t : Declaring) : List UInt8 := t.upToName ++ 0x3b :: t.last

def semicolon (t : Declaring) : Nat := t.upToName.length

def reach (t : Declaring) : Nat := t.text.length - t.front.length

end Declaring

/-! ## Reading backwards -/

/-- What is taken from the front as long as a condition holds, and what is left. -/
theorem takeWhile_dropWhile_iff {α : Type} {p : α → Bool} {s a b : List α} :
    s.takeWhile p = a ∧ s.dropWhile p = b ↔
      s = a ++ b ∧ (∀ x ∈ a, p x = true) ∧ ∀ x ∈ b.head?, p x = false := by
  constructor
  · rintro ⟨rfl, rfl⟩
    refine ⟨List.takeWhile_append_dropWhile.symm, fun x hx => List.mem_takeWhile_imp hx, ?_⟩
    intro x hx
    have hnot := List.head?_dropWhile_not p s
    rw [Option.mem_def.mp hx] at hnot
    exact hnot
  · rintro ⟨rfl, ha, hb⟩
    have hstop : b.takeWhile p = [] ∧ b.dropWhile p = b := by
      cases b with
      | nil => exact ⟨rfl, rfl⟩
      | cons x rest =>
        have hx := hb x rfl
        simp [hx]
    rw [List.takeWhile_append_of_pos ha, List.dropWhile_append_of_pos ha, hstop.1, hstop.2]
    exact ⟨List.append_nil a, rfl⟩

theorem drop_length_takeWhile {α : Type} (p : α → Bool) (s : List α) :
    s.drop (s.takeWhile p).length = s.dropWhile p :=
  calc s.drop (s.takeWhile p).length
      = (s.takeWhile p ++ s.dropWhile p).drop (s.takeWhile p).length := by
        rw [List.takeWhile_append_dropWhile]
    _ = s.dropWhile p := List.drop_left

theorem head?_append_of_forall {α : Type} {q : α → Prop} {a : List α} (b : List α) (hne : a ≠ [])
    (h : ∀ x ∈ a, q x) : ∀ x ∈ (a ++ b).head?, q x := by
  obtain ⟨y, rest, rfl⟩ := List.exists_cons_of_ne_nil hne
  intro x hx
  obtain rfl : y = x := by simpa using hx
  exact h y List.mem_cons_self

/-- No byte is both a blank and a part of a name, so each walk ends where the next one starts. -/
theorem isNameByte_of_isBlankByte {b : UInt8} (h : isBlankByte b = true) : isNameByte b = false := by
  simp only [isBlankByte, isNameByte, UInt8.le_iff_toNat_le, ← UInt8.toNat_inj, Bool.or_eq_true,
    Bool.and_eq_true, beq_iff_eq, decide_eq_true_eq, Bool.or_eq_false_iff, Bool.and_eq_false_iff,
    beq_eq_false_iff_ne, decide_eq_false_iff_not, UInt8.reduceToNat, ne_eq] at h ⊢
  omega

theorem declaringWords_eq :
    declaringWords = [[114, 97, 118], [116, 101, 108], [116, 115, 110, 111, 99]] := by
  decide

/-- No declaring word is the beginning of another one, backwards. -/
theorem find?_declaringWords {w : List UInt8} (hw : w ∈ declaringWords) (rest : List UInt8) :
    declaringWords.find? (fun v => v.isPrefixOf (w ++ rest)) = some w := by
  rw [declaringWords_eq] at hw ⊢
  simp only [List.mem_cons, List.not_mem_nil, or_false] at hw
  rcases hw with rfl | rfl | rfl <;> simp [List.isPrefixOf]

/-- A declaring word is not empty, and the walk over blanks does not go into it. -/
theorem isBlankByte_eq_false_of_mem {w : List UInt8} (hw : w ∈ declaringWords) :
    w ≠ [] ∧ ∀ b ∈ w, isBlankByte b = false := by
  have hword : w ≠ [] ∧ (w.all fun b => !isBlankByte b) = true := by
    rw [declaringWords_eq] at hw
    simp only [List.mem_cons, List.not_mem_nil, or_false] at hw
    rcases hw with rfl | rfl | rfl <;> decide
  refine ⟨hword.1, fun b hb => ?_⟩
  simpa using List.all_eq_true.mp hword.2 b hb

theorem reverse_mem_declaringWords_iff {w : List UInt8} :
    w.reverse ∈ declaringWords ↔ w ∈ ["var", "let", "const"].map Utf8.encode := by
  simp only [declaringWords, List.mem_map, List.reverse_inj]

/-- What reading backwards finds is there. Each piece is what is taken as long as its bytes go on. -/
theorem exists_declaring_of_declarationBefore? {before : List UInt8} {window : Nat}
    {d : Declaration} (h : declarationBefore? before window = some d) :
    ∃ t : Declaring, before = t.text ∧ t.reach ≤ window ∧ d = ⟨t.name, t.semicolon⟩ := by
  unfold declarationBefore? at h
  simp only [Option.bind_eq_bind, Option.bind_eq_some_iff, Option.guard_eq_some', Option.pure_def,
    Option.some.injEq, exists_and_left, exists_const, drop_length_takeWhile] at h
  obtain ⟨hsemicolon, hname, hblanks, w, hfind, hbeyond, hlength, rfl⟩ := h
  -- what was passed over is cut off piece by piece, and a name put to what is left
  obtain ⟨hback, hlast, -⟩ :=
    (takeWhile_dropWhile_iff (p := isBlankByte) (s := before.reverse)).mp ⟨rfl, rfl⟩
  generalize before.reverse.takeWhile isBlankByte = last at hback hlast
  generalize before.reverse.dropWhile isBlankByte = atSemicolon at *
  obtain ⟨atBehind, rfl⟩ : ∃ atBehind, atSemicolon = 0x3b :: atBehind := by
    cases atSemicolon with
    | nil => simp at hsemicolon
    | cons b atBehind => exact ⟨atBehind, by simpa using hsemicolon⟩
  simp only [List.drop_one, List.tail_cons] at *
  obtain ⟨hatBehind, hbehind, -⟩ :=
    (takeWhile_dropWhile_iff (p := isBlankByte) (s := atBehind)).mp ⟨rfl, rfl⟩
  generalize atBehind.takeWhile isBlankByte = behind at hatBehind hbehind
  generalize atBehind.dropWhile isBlankByte = atName at *
  obtain ⟨hatName, hnameBytes, -⟩ :=
    (takeWhile_dropWhile_iff (p := isNameByte) (s := atName)).mp ⟨rfl, rfl⟩
  generalize atName.takeWhile isNameByte = name at *
  generalize atName.dropWhile isNameByte = atBlanks at *
  obtain ⟨hatBlanks, hblankBytes, -⟩ :=
    (takeWhile_dropWhile_iff (p := isBlankByte) (s := atBlanks)).mp ⟨rfl, rfl⟩
  generalize atBlanks.takeWhile isBlankByte = blanks at *
  generalize atBlanks.dropWhile isBlankByte = atWord at *
  -- the word is the last piece, and it must not go on in front
  have hprefix : w.isPrefixOf atWord = true :=
    List.find?_some (p := fun v : List UInt8 => v.isPrefixOf atWord) hfind
  obtain ⟨beyond, rfl⟩ := List.isPrefixOf_iff_prefix.mp hprefix
  have hw := List.mem_of_find?_eq_some hfind
  rw [List.drop_left] at hbeyond hlength
  have hbefore : before = beyond.reverse ++ (w.reverse ++ (blanks.reverse ++
      (name.reverse ++ behind.reverse))) ++ 0x3b :: last.reverse := by
    rw [← List.reverse_reverse before, hback, hatBehind, hatName, hatBlanks]
    simp
  have hfront : ∀ b ∈ beyond.reverse.getLast?, isNameByte b = false := by
    rw [List.getLast?_reverse]
    intro b hb
    rw [Option.mem_def.mp hb] at hbeyond
    simpa using hbeyond
  refine ⟨{
    front := beyond.reverse, word := w.reverse, blanks := blanks.reverse, name := name.reverse
    behind := behind.reverse, last := last.reverse
    front_last := hfront
    word_mem := reverse_mem_declaringWords_iff.mp (by rwa [List.reverse_reverse])
    blanks_ne := by simpa using hblanks
    blanks_blank := by simpa using hblankBytes
    name_ne := by simpa using hname
    name_name := by simpa using hnameBytes
    behind_blank := by simpa using hbehind
    last_blank := by simpa using hlast }, hbefore, ?_, ?_⟩
  · rw [List.length_reverse, hbefore] at hlength
    simpa only [Declaring.reach, Declaring.text, Declaring.upToName, List.length_reverse] using hlength
  · rw [hatBehind, hatName, hatBlanks]
    simp only [Declaring.semicolon, Declaring.upToName, List.length_append, List.length_reverse,
      List.length_cons, Declaration.mk.injEq, true_and]
    omega

/-- What is there is found. Each piece ends where its bytes do: behind blanks stands no blank, and
behind a name no byte of a name. -/
theorem declarationBefore?_text (t : Declaring) {window : Nat} (h : t.reach ≤ window) :
    declarationBefore? t.text window = some ⟨t.name, t.semicolon⟩ := by
  -- read backwards, the text is its pieces in reverse, the last one first
  have hback : t.text.reverse = t.last.reverse ++ 0x3b :: (t.behind.reverse ++ (t.name.reverse ++
      (t.blanks.reverse ++ (t.word.reverse ++ t.front.reverse)))) := by
    simp [Declaring.text, Declaring.upToName]
  have hword : t.word.reverse ∈ declaringWords := reverse_mem_declaringWords_iff.mpr t.word_mem
  obtain ⟨hwordne, hwordblank⟩ := isBlankByte_eq_false_of_mem hword
  have hnameblank : ∀ b ∈ t.name.reverse, isBlankByte b = false := by
    intro b hb
    have hb' := t.name_name b (List.mem_reverse.mp hb)
    by_contra hblank
    rw [isNameByte_of_isBlankByte (by simpa using hblank)] at hb'
    cases hb'
  -- each walk stops where its piece does, at the first byte of the next one
  obtain ⟨-, hsemicolon⟩ := takeWhile_dropWhile_iff.mpr
    ⟨hback, by simpa using t.last_blank, by simp [show isBlankByte 0x3b = false by decide]⟩
  obtain ⟨-, hname⟩ := takeWhile_dropWhile_iff.mpr
    ⟨rfl, (by simpa using t.behind_blank : ∀ b ∈ t.behind.reverse, isBlankByte b = true),
      head?_append_of_forall (t.blanks.reverse ++ (t.word.reverse ++ t.front.reverse))
        (by simpa using t.name_ne) hnameblank⟩
  obtain ⟨htaken, -⟩ := takeWhile_dropWhile_iff.mpr
    ⟨rfl, (by simpa using t.name_name : ∀ b ∈ t.name.reverse, isNameByte b = true),
      head?_append_of_forall (t.word.reverse ++ t.front.reverse) (by simpa using t.blanks_ne)
        (fun b hb => isNameByte_of_isBlankByte (t.blanks_blank b (List.mem_reverse.mp hb)))⟩
  obtain ⟨hgap, -⟩ := takeWhile_dropWhile_iff.mpr
    ⟨rfl, (by simpa using t.blanks_blank : ∀ b ∈ t.blanks.reverse, isBlankByte b = true),
      head?_append_of_forall t.front.reverse hwordne hwordblank⟩
  -- the word is no end of a longer name, and it starts within the window
  have hbeyond : (t.front.reverse.head?.map isNameByte).getD false = false := by
    rw [List.head?_reverse]
    cases hlast : t.front.getLast? with
    | none => rfl
    | some b => exact t.front_last b hlast
  have hlength : t.text.reverse.length - t.front.reverse.length ≤ window := by
    rw [List.length_reverse, List.length_reverse]
    exact h
  have hnamene : t.name.reverse.isEmpty = false := by simpa using t.name_ne
  have hblanksne : t.blanks.reverse.isEmpty = false := by simpa using t.blanks_ne
  have hoffset : (0x3b :: (t.behind.reverse ++ (t.name.reverse ++ (t.blanks.reverse ++
      (t.word.reverse ++ t.front.reverse))))).length - 1 = t.semicolon := by
    simp only [Declaring.semicolon, Declaring.upToName, List.length_cons, List.length_append,
      List.length_reverse]
    omega
  simp only [declarationBefore?, hsemicolon, List.drop_one, List.tail_cons, hname, htaken,
    List.drop_left, hgap, find?_declaringWords hword, hnamene, hblanksne, hoffset,
    List.reverse_reverse]
  simp only [guard, List.head?_cons, beq_self_eq_true, Bool.not_false, if_true, Option.bind_eq_bind,
    Option.pure_def, Option.bind_some, List.drop_left, hbeyond, hlength]

/-- **Reading backwards finds a declaration exactly where the bytes end in one**, whatever these
bytes are a part of. -/
theorem declarationBefore?_eq_some_iff {before : List UInt8} {window : Nat} {d : Declaration} :
    declarationBefore? before window = some d ↔
      ∃ t : Declaring, before = t.text ∧ t.reach ≤ window ∧ d = ⟨t.name, t.semicolon⟩ := by
  constructor
  · exact exists_declaring_of_declarationBefore?
  · rintro ⟨t, rfl, hreach, rfl⟩
    exact declarationBefore?_text t hreach

/-! ## Calls that fill a variable -/

/-- A call of a function with one parameter and a block for its body, right behind the declaration
of a variable without a value. The variable has the name of the parameter, or it is what the first
argument of the call starts with. -/
structure Fills (code : List UInt8) (call : Node) (t : Declaring) (parameter : List Char)
    (body : Node) : Prop where
  text_eq : code.take call.start = t.text
  reach_le : t.reach ≤ lookBehind
  function : ∃ f, (callee? call).map (stripParentheses (depthBound call)) = some f ∧
    f.kind = .functionExpression ∧ singleParameter? f = some parameter ∧
    f.part? .statementBlock = some body
  refers : t.name = Utf8.encodeChars parameter ∨
    ∃ name, firstArgumentName? call = some name ∧ Utf8.encodeChars name = t.name

/-- The statement that returns a variable, behind a semicolon that ends what stands before it. -/
def returning (parameter : List Char) : String :=
  ";return " ++ String.ofList parameter ++ ";"

/-- The patches that fuse a declaration and a call: a sign for the value goes in place of the
semicolon, and the variable is returned at the end of the function. -/
def fusing (t : Declaring) (parameter : List Char) (body : Node) : List Patch :=
  [Patch.replacement t.semicolon (t.semicolon + 1) " =",
    Patch.insertion (body.stop - 1) (returning parameter)]

theorem enumPatches_of_fills {code : List UInt8} {call body : Node} {t : Declaring}
    {parameter : List Char} (h : Fills code call t parameter body) :
    enumPatches code call = fusing t parameter body := by
  obtain ⟨f, hf, hkind, hparameter, hbody⟩ := h.function
  have hdeclared : declarationBefore? (code.take call.start) lookBehind = some ⟨t.name, t.semicolon⟩ :=
    declarationBefore?_eq_some_iff.mpr ⟨t, h.text_eq, h.reach_le, rfl⟩
  have hrefers : (t.name == Utf8.encodeChars parameter ||
      (firstArgumentName? call).any fun name => Utf8.encodeChars name == t.name) = true := by
    rw [Bool.or_eq_true, beq_iff_eq]
    refine h.refers.imp_right ?_
    rintro ⟨name, hname, heq⟩
    rw [hname, Option.any_some, beq_iff_eq]
    exact heq
  unfold enumPatches
  simp only [hf, hkind, hparameter, hdeclared, hrefers, hbody, beq_self_eq_true, guard, if_true,
    Option.bind_eq_bind, Option.bind_some, Option.pure_def, Option.getD_some]
  rfl

/-- Where patches for an enum are found, each step of the search has succeeded, and together the steps
say what `Fills` says. -/
theorem exists_fills {code : List UInt8} {call : Node} (h : enumPatches code call ≠ []) :
    ∃ t parameter body, Fills code call t parameter body := by
  unfold enumPatches at h
  dsimp only at h
  -- patches come out of the last line only, so each step before it has succeeded
  cases hfound : (do
      let function ← (callee? call).map (stripParentheses (depthBound call))
      guard (function.kind == .functionExpression)
      let parameter ← singleParameter? function
      let declared ← declarationBefore? (code.take call.start) lookBehind
      guard (declared.name == Utf8.encodeChars parameter ||
        (firstArgumentName? call).any fun name => Utf8.encodeChars name == declared.name)
      let body ← function.part? .statementBlock
      return [Patch.replacement declared.semicolon (declared.semicolon + 1) " =",
        Patch.insertion (body.stop - 1) (";return " ++ String.ofList parameter ++ ";")] :
      Option (List Patch)) with
  | none =>
    rw [hfound] at h
    exact absurd rfl h
  | some ps =>
    simp only [Option.bind_eq_bind, Option.bind_eq_some_iff, Option.guard_eq_some', Option.pure_def,
      Option.some.injEq, exists_const, beq_iff_eq] at hfound
    obtain ⟨f, hf, hkind, parameter, hparameter, d, hd, hrefers, body, hbody, -⟩ := hfound
    obtain ⟨t, htext, hreach, rfl⟩ := declarationBefore?_eq_some_iff.mp hd
    refine ⟨t, parameter, body, htext, hreach, ⟨f, hf, hkind, hparameter, hbody⟩, ?_⟩
    simpa only [Bool.or_eq_true, beq_iff_eq, Option.any_eq_true] using hrefers

/-- **When a declaration and a call are fused.** The bytes in front of the call decide, as far as the
reader of declarations looks back, with the callee and the first argument of the call. -/
theorem enumPatches_ne_nil_iff {code : List UInt8} {call : Node} :
    enumPatches code call ≠ [] ↔ ∃ t parameter body, Fills code call t parameter body := by
  refine ⟨exists_fills, ?_⟩
  rintro ⟨t, parameter, body, h⟩
  rw [enumPatches_of_fills h]
  exact List.cons_ne_nil _ _

/-! ## A declaration that is no statement -/

/-- A loop that declares a variable in its head and calls a function of that name for its condition. -/
def loop : String := "for (var E; (function(E){})(E); ) {}"

/-- The same when it is annotated. -/
def brokenLoop : String := "for (var E = /*@__PURE__*/(function(E){;return E;})(E); ) {}"

theorem annotate_loop : annotate loop none = .ok (brokenLoop, none) := by
  -- the patches get a name of their own, so that no later step unfolds them
  obtain ⟨ps, hps⟩ : ∃ ps, ps = [Patch.replacement 10 11 " =",
    Patch.insertion 25 (returning ['E']), Patch.insertion 12 marker] := ⟨_, rfl⟩
  have hpatches : patchesOfCode loop = .ok ps := by
    have hread : (parse? loop.toList).map (patches (Utf8.encode loop)) = some ps := by
      rw [hps]
      decide +kernel
    obtain ⟨tree, htree, hfound⟩ := Option.map_eq_some_iff.mp hread
    rw [patchesOfCode, htree]
    exact congrArg Except.ok hfound
  have hsorted : Patch.sortPatches ps = [Patch.replacement 10 11 " =", Patch.insertion 12 marker,
      Patch.insertion 25 (returning ['E'])] := by
    rw [hps]
    exact Patch.sortPatches_eq_of_perm (by decide +kernel) (by decide +kernel)
  have happly : applyToCode loop ps = .ok brokenLoop := by
    have hbytes : Patch.applyToBytes (Utf8.encode loop) ps =
        .ok (Utf8.encodeChars brokenLoop.toList) := by
      rw [Patch.applyToBytes, Patch.applyPatches, hsorted]
      rfl
    rw [applyToCode, hbytes]
    dsimp only
    rw [Utf8.decode, Utf8.decodeChars_encodeChars]
    show Except.ok (String.ofList brokenLoop.toList) = _
    rw [String.ofList_toList]
  have hsome : ps.isEmpty = false := by rw [hps]; rfl
  unfold annotate
  rw [hpatches]
  show (if ps.isEmpty = true then _ else _) = _
  rw [hsome, if_neg (by simp), happly]
  rfl

/-- **A fused declaration is malformed** in the head of a loop, where its semicolon is needed. -/
theorem exists_broken_loop :
    ¬ ∀ (code : String) (tree : Node), parse? code.toList = some tree →
      ∀ call ∈ visitedCalls tree, enumPatches (Utf8.encode code) call ≠ [] →
        ∃ annotated tree', annotate code none = .ok (annotated, none) ∧
          parse? annotated.toList = some tree' := by
  intro h
  have hcalls : ((parse? loop.toList).any fun tree => (visitedCalls tree).any fun call =>
      !(enumPatches (Utf8.encode loop) call).isEmpty) = true := by
    decide +kernel
  simp only [Option.any_eq_true, List.any_eq_true, Bool.not_eq_true',
    List.isEmpty_eq_false_iff] at hcalls
  obtain ⟨tree, htree, call, hcall, hfused⟩ := hcalls
  obtain ⟨annotated, tree', hannotated, htree'⟩ := h loop tree htree call hcall hfused
  rw [annotate_loop] at hannotated
  obtain ⟨rfl, -⟩ := Prod.mk.inj (Except.ok.inj hannotated)
  have hbroken : (parse? brokenLoop.toList).isNone = true := by decide +kernel
  rw [htree'] at hbroken
  exact absurd hbroken (by simp)

end Packwright.Annotate
