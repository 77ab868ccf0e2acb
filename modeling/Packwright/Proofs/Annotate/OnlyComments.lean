import Packwright.Proofs.Annotate.Markers
import Packwright.Proofs.Syntax.Reading

/-!
# Annotating only adds comments

The markers that code is annotated with are comments, so the annotated code should be the same
program: accepted if the code is, and with the same tree, up to where the leaves stand. It is, as
long as no marked call starts inside of a stretch that the reader looks at as a whole.

The condition is there because markers go in without a look at what stands before them. A division
sign that the call stands right behind makes a comment to the end of the line out of the marker,
which takes the call away; with a blank in between it does not.
-/

namespace Packwright.Annotate

open Packwright.Syntax
open Packwright.Text

/-! ## Calls are parts of the tree -/

mutual

/-- The tokens of a visited call are tokens of the program: one case for each branch of the walk. -/
theorem tokens_of_mem_visitedCalls : (tree : Node) → {call leaf : Node} →
    call ∈ visitedCalls tree → leaf ∈ call.tokens → leaf ∈ tree.tokens
  | .leaf .., call, leaf, hcall, _ => absurd hcall (by simp [visitedCalls])
  | .branch kind children, call, leaf, hcall, hleaf => by
    rw [visitedCalls] at hcall
    split at hcall
    · exact absurd hcall (by simp)
    · split at hcall
      · exact tokens_of_mem_visitedOutsideBody children hcall hleaf
      · -- an ordinary node visits itself, if it is a call, and then its parts
        dsimp only at hcall
        split at hcall
        · rcases List.mem_cons.mp hcall with rfl | hinner
          · exact hleaf
          · exact tokens_of_mem_visitedInAll children hinner hleaf
        · exact tokens_of_mem_visitedInAll children hcall hleaf

/-- The same over a list of parts. -/
theorem tokens_of_mem_visitedInAll : (ns : List Node) → {call leaf : Node} →
    call ∈ visitedInAll ns → leaf ∈ call.tokens → leaf ∈ Node.tokensOfAll ns
  | [], call, leaf, hcall, _ => absurd hcall (by simp [visitedInAll])
  | n :: rest, call, leaf, hcall, hleaf => by
    rw [visitedInAll, List.mem_append] at hcall
    rw [Node.tokensOfAll, List.mem_append]
    rcases hcall with hhere | hrest
    · exact .inl (tokens_of_mem_visitedCalls n hhere hleaf)
    · exact .inr (tokens_of_mem_visitedInAll rest hrest hleaf)

/-- And over the parts of a class. -/
theorem tokens_of_mem_visitedOutsideBody : (ns : List Node) → {call leaf : Node} →
    call ∈ visitedOutsideBody ns → leaf ∈ call.tokens → leaf ∈ Node.tokensOfAll ns
  | [], call, leaf, hcall, _ => absurd hcall (by simp [visitedOutsideBody])
  | n :: rest, call, leaf, hcall, hleaf => by
    rw [visitedOutsideBody] at hcall
    rw [Node.tokensOfAll, List.mem_append]
    split at hcall
    · exact .inr (tokens_of_mem_visitedOutsideBody rest hcall hleaf)
    · rcases List.mem_append.mp hcall with hhere | hrest
      · exact .inl (tokens_of_mem_visitedCalls n hhere hleaf)
      · exact .inr (tokens_of_mem_visitedOutsideBody rest hrest hleaf)

end

/-- A visited call starts at a character, being the start of its first token. -/
theorem atChar_of_mem_visitedCalls {code : List Char} {tree call : Node}
    (hread : parse? code = some tree) (hne : code ≠ []) (hcall : call ∈ visitedCalls tree) :
    AtChar code call.start := by
  rcases start_eq_zero_or call with hzero | ⟨leaf, hleaf, hstart⟩
  · rw [hzero]
    exact atChar_zero hne
  · rw [← hstart]
    exact atChar_of_mem_tokens hread hne (tokens_of_mem_visitedCalls tree hcall hleaf)

/-! ## The places of markers -/

def markedPlaces (tree : Node) : List Nat :=
  ((visitedCalls tree).filter isMarked).map Node.start

/-- The marked places are the starts of the visited calls that are marked. -/
theorem mem_markedPlaces {tree : Node} {place : Nat} :
    place ∈ markedPlaces tree ↔ ∃ call ∈ visitedCalls tree, isMarked call = true ∧ call.start = place := by
  rw [markedPlaces, List.mem_map]
  constructor
  · rintro ⟨call, hcall, hstart⟩
    obtain ⟨hvisited, hmarked⟩ := List.mem_filter.mp hcall
    exact ⟨call, hvisited, hmarked, hstart⟩
  · rintro ⟨call, hvisited, hmarked, hstart⟩
    exact ⟨call, List.mem_filter.mpr ⟨hvisited, hmarked⟩, hstart⟩

theorem markedPlaces_empty {tree : Node} (hread : parse? [] = some tree) :
    markedPlaces tree = [] := by
  have hnone : ((parse? []).map markedPlaces).getD [] = [] := by decide +kernel
  rwa [hread] at hnone

/-- Without variables to fuse, the patches of a tree are its markers. -/
theorem patches_eq_markers {bytes : List UInt8} {tree : Node}
    (hplain : ∀ call ∈ visitedCalls tree, enumPatches bytes call = []) :
    patches bytes tree = (markedPlaces tree).map fun place => Patch.insertion place marker := by
  rw [patches, markedPlaces]
  generalize visitedCalls tree = calls at hplain
  induction calls with
  | nil => rfl
  | cons call rest ih =>
    have hrest := ih fun c hc => hplain c (List.mem_cons_of_mem _ hc)
    have hfirst := hplain call List.mem_cons_self
    rw [List.flatMap_cons, hrest, callPatches]
    -- without an enum a marked call gives its marker and nothing else
    by_cases hmarked : isMarked call = true
    · rw [if_pos hmarked, hfirst, List.filter_cons_of_pos hmarked]
      rfl
    · rw [if_neg hmarked, List.filter_cons_of_neg hmarked]
      rfl

/-- **Annotated code is the code with a comment before every marked call.** -/
theorem annotate_eq_weave {code : String} {tree : Node} (hread : parse? code.toList = some tree)
    (hplain : ∀ call ∈ visitedCalls tree, enumPatches (Utf8.encode code) call = []) :
    annotate code none = .ok (String.ofList
      (weave markerComment ((markedPlaces tree).contains ·) 0 code.toList), none) := by
  have hpatches : patchesOfCode code =
      .ok ((markedPlaces tree).map fun place => Patch.insertion place marker) := by
    rw [patchesOfCode, hread]
    exact congrArg Except.ok (patches_eq_markers hplain)
  unfold annotate
  rw [hpatches]
  -- without a patch the code is handed back unread, and nothing is woven in either
  by_cases hnone : markedPlaces tree = []
  · have hsame : weave markerComment ((markedPlaces tree).contains ·) 0 code.toList = code.toList :=
      weave_of_unmarked markerComment _ fun place _ => by rw [hnone]; rfl
    rw [hsame, hnone, String.ofList_toList]
    rfl
  · have hne : code.toList ≠ [] := by
      intro hnil
      rw [hnil] at hread
      exact hnone (markedPlaces_empty hread)
    have happly := applyToCode_markers fun place hplace => by
      obtain ⟨call, hcall, -, rfl⟩ := mem_markedPlaces.mp hplace
      exact atChar_of_mem_visitedCalls hread hne hcall
    have hsome : ((markedPlaces tree).map fun place => Patch.insertion place marker).isEmpty
        = false := by
      rw [List.isEmpty_map, List.isEmpty_eq_false_iff]
      exact hnone
    show (if _ then _ else _) = _
    rw [hsome, if_neg (by simp), happly]
    rfl

/-! ## Reading annotated code -/

/-- **Annotating only adds comments**, if no marked call starts inside of what the reader looks at
as a whole. -/
theorem annotate_only_comments {code : String} {tree : Node}
    (hread : parse? code.toList = some tree)
    (hplain : ∀ call ∈ visitedCalls tree, enumPatches (Utf8.encode code) call = [])
    (hclear : ∀ call ∈ visitedCalls tree, isMarked call = true →
      ∀ span ∈ sightings code.toList, ¬ span.covers call.start) :
    ∃ annotated tree', annotate code none = .ok (annotated, none) ∧
      parse? annotated.toList = some tree' ∧ tree'.unplaced = tree.unplaced := by
  -- no marker comes to stand where the reader looks two characters ahead
  have hunseen : Unseen ((markedPlaces tree).contains ·) (sightings code.toList) := by
    intro span hspan place hplace
    obtain ⟨call, hcall, hmarked, rfl⟩ := mem_markedPlaces.mp (List.contains_iff_mem.mp hplace)
    exact hclear call hcall hmarked span hspan
  obtain ⟨tree', hread', hsame⟩ := parse?_weave hread hunseen
  refine ⟨_, tree', annotate_eq_weave hread hplain, ?_, hsame⟩
  rw [String.toList_ofList]
  exact hread'

/-- A division by what a call yields, with blanks around its sign. -/
def spacedQuotient : String := "a / f(g())"

/-- A call behind a slash and a blank: the marker is a comment there. -/
theorem annotate_only_comments_spacedQuotient :
    ∃ tree, parse? spacedQuotient.toList = some tree ∧
      (∃ call ∈ visitedCalls tree, isMarked call = true) ∧
      (∀ call ∈ visitedCalls tree, enumPatches (Utf8.encode spacedQuotient) call = []) ∧
      (∀ call ∈ visitedCalls tree, isMarked call = true →
        ∀ span ∈ sightings spacedQuotient.toList, ¬ span.covers call.start) ∧
      ∃ annotated tree', annotate spacedQuotient none = .ok (annotated, none) ∧
        parse? annotated.toList = some tree' ∧ tree'.unplaced = tree.unplaced := by
  have hread : (parse? spacedQuotient.toList).isSome = true := by decide +kernel
  obtain ⟨tree, htree⟩ := Option.isSome_iff_exists.mp hread
  have hcalls : ((parse? spacedQuotient.toList).all fun tree =>
      (visitedCalls tree).any isMarked &&
      (visitedCalls tree).all fun call =>
        (enumPatches (Utf8.encode spacedQuotient) call).isEmpty &&
        (sightings spacedQuotient.toList).all fun span => !decide (span.covers call.start)) = true := by
    decide +kernel
  rw [htree] at hcalls
  simp only [Option.all_some, Bool.and_eq_true, List.any_eq_true, List.all_eq_true, List.isEmpty_iff,
    Bool.not_eq_true', decide_eq_false_iff_not] at hcalls
  obtain ⟨hmarked, hall⟩ := hcalls
  have hplain := fun call hcall => (hall call hcall).1
  have hclear : ∀ call ∈ visitedCalls tree, isMarked call = true →
      ∀ span ∈ sightings spacedQuotient.toList, ¬ span.covers call.start :=
    fun call hcall _ => (hall call hcall).2
  exact ⟨tree, htree, hmarked, hplain, hclear, annotate_only_comments htree hplain hclear⟩

/-- A division by what a call yields, without blanks. -/
def quotient : String := "a/f()"

/-- **A call is lost** behind a division sign: the sign and the marker make a comment of the rest of
the line. -/
theorem exists_lost_call :
    ¬ ∀ (code : String) (tree : Node), parse? code.toList = some tree →
      (∀ call ∈ visitedCalls tree, enumPatches (Utf8.encode code) call = []) →
      ∃ annotated tree', annotate code none = .ok (annotated, none) ∧
        parse? annotated.toList = some tree' ∧ tree'.unplaced = tree.unplaced := by
  intro h
  have hread : (parse? quotient.toList).isSome = true := by decide +kernel
  obtain ⟨tree, htree⟩ := Option.isSome_iff_exists.mp hread
  -- five tokens before, and one after: the marker makes a line comment of the rest
  have hcalls : ((parse? quotient.toList).all fun tree =>
      ((visitedCalls tree).all fun call => (enumPatches (Utf8.encode quotient) call).isEmpty) &&
      (tree.unplaced.tokens.length == 5) &&
      ((parse? (weave markerComment ((markedPlaces tree).contains ·) 0 quotient.toList)).all
        fun tree' => tree'.unplaced.tokens.length == 1)) = true := by
    decide +kernel
  rw [htree] at hcalls
  simp only [Option.all_some, Bool.and_eq_true, List.all_eq_true, List.isEmpty_iff,
    beq_iff_eq] at hcalls
  obtain ⟨⟨hplain, hfive⟩, hone⟩ := hcalls
  obtain ⟨annotated, tree', hannotated, htree', hsame⟩ := h quotient tree htree hplain
  rw [annotate_eq_weave htree hplain] at hannotated
  obtain ⟨rfl, -⟩ := Prod.mk.inj (Except.ok.inj hannotated)
  rw [String.toList_ofList] at htree'
  rw [htree', Option.all_some, beq_iff_eq, hsame, hfive] at hone
  exact absurd hone (by decide)

end Packwright.Annotate
