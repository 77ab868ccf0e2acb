import Packwright.Proofs.Text.Utf8
import Packwright.Syntax.Program

/-!
# Where leaves stand

The leaves of a program's tree start at characters of the program, never inside the bytes of one nor
at the end. Every cursor of the reader is `Placed`: what it has before it is the rest of the program,
and its offset is the size of what is behind it.
-/

namespace Packwright.Syntax

open Packwright.Text

/-- Whether a place, in bytes, is the start of a character. -/
def AtChar (code : List Char) (place : Nat) : Prop :=
  ∃ before rest, code = before ++ rest ∧ rest ≠ [] ∧ place = Utf8.size before

theorem atChar_zero {code : List Char} (hne : code ≠ []) : AtChar code 0 :=
  ⟨[], code, rfl, hne, rfl⟩

theorem AtChar.lt_size {code : List Char} {place : Nat} (h : AtChar code place) :
    place < Utf8.size code := by
  obtain ⟨before, rest, rfl, hne, rfl⟩ := h
  rw [Utf8.size_append]
  exact Nat.lt_add_of_pos_right
    (Nat.pos_of_ne_zero fun hzero => hne (Utf8.eq_nil_of_size_eq_zero hzero))

/-- A cursor of the reader of a program. -/
structure Cursor.Placed (code : List Char) (c : Cursor) : Prop where
  rest : ∃ before, code = before ++ c.rest ∧ c.offset = Utf8.size before
  starts : ∀ place ∈ c.starts, AtChar code place

namespace Cursor.Placed

variable {code : List Char} {c d : Cursor}

theorem atStart (code : List Char) : (Cursor.atStart code).Placed code :=
  ⟨⟨[], rfl, rfl⟩, fun place hplace => absurd hplace (Array.not_mem_empty place)⟩

/-- Characters that are passed over are in front of the cursor then. -/
theorem advance (h : c.Placed code) (n : Nat) : (c.advance n).Placed code := by
  obtain ⟨before, hcode, hoffset⟩ := h.rest
  refine ⟨⟨before ++ c.rest.take n, ?_, ?_⟩, h.starts⟩
  · show code = before ++ c.rest.take n ++ c.rest.drop n
    rw [List.append_assoc, List.take_append_drop]
    exact hcode
  · show c.offset + _ = _
    rw [hoffset, Utf8.size_append]

/-- Passing over blanks keeps the cursor in its place. Induction on the fuel. -/
theorem skipFrom (h : c.Placed code) (fuel : Nat) : (Cursor.skipFrom fuel c).Placed code := by
  induction fuel generalizing c with
  | zero => exact h
  | succ fuel ih =>
    rw [Cursor.skipFrom]
    split
    · have hnext := h.advance (Lexeme.blankLength c.rest)
      exact ih ⟨hnext.rest, hnext.starts⟩
    · exact h

theorem skip (h : c.Placed code) : c.skip.Placed code :=
  h.skipFrom _

/-- A token starts where a character stands, so its start may be recorded. -/
theorem takeRaw? (h : c.Placed code) {kind : Kind} {n : Nat} {leaf : Node}
    (htake : c.takeRaw? kind n = some (leaf, d)) : d.Placed code := by
  unfold Cursor.takeRaw? at htake
  split at htake
  · rename_i hcond
    obtain ⟨-, rfl⟩ := Prod.mk.inj (Option.some.inj htake)
    have hnext := h.advance n
    refine ⟨hnext.rest, fun place hplace => ?_⟩
    -- the start that is recorded is where the cursor stood
    rcases Array.mem_push.mp hplace with hbefore | rfl
    · exact h.starts place hbefore
    · obtain ⟨before, hcode, hoffset⟩ := h.rest
      have hne : c.rest ≠ [] := List.length_pos_iff.mp (by omega)
      exact ⟨before, c.rest, hcode, hne, hoffset⟩
  · exact absurd htake (by simp)

end Cursor.Placed

variable {code : List Char} {calls : Goal → Cursor → Outcome (List Node)}

/-- **A scan keeps its cursor in place**, if the goals that it calls do. -/
theorem runWith_placed
    (hcalls : ∀ goal {c d : Cursor} {ns : List Node}, c.Placed code → calls goal c = .done ns d →
      d.Placed code)
    {α : Type} (scan : Scan α) {c d : Cursor} {value : α} (hc : c.Placed code)
    (h : scan.runWith calls c = .done value d) : d.Placed code := by
  induction scan generalizing c d with
  | done v =>
    cases h
    exact hc
  | fail => exact absurd h (by simp [Scan.runWith])
  | bind first next ihfirst ihnext =>
    rw [Scan.runWith] at h
    cases hfirst : first.runWith calls c with
    | done v e =>
      rw [hfirst] at h
      exact ihnext v (ihfirst hc hfirst) h
    | failed =>
      rw [hfirst] at h
      exact absurd h (by simp)
    | exhausted =>
      rw [hfirst] at h
      exact absurd h (by simp)
  | orElse first second ihfirst ihsecond =>
    rw [Scan.runWith] at h
    cases hfirst : first.runWith calls c with
    | done v e =>
      rw [hfirst] at h
      cases h
      exact ihfirst hc hfirst
    | failed =>
      rw [hfirst] at h
      exact ihsecond hc h
    | exhausted =>
      rw [hfirst] at h
      exact absurd h (by simp)
  | lookAhead inner ih =>
    rw [Scan.runWith] at h
    split at h
    · cases h
      exact hc
    · cases h
      exact hc
    · exact absurd h (by simp)
  | call goal => exact hcalls goal hc h
  | look probe =>
    cases h
    exact hc
  | lineEnded =>
    cases h
    exact hc
  | take kind count =>
    rw [Scan.runWith] at h
    split at h
    · rename_i leaf e htake
      cases h
      exact (hc.takeRaw? htake).skip
    · exact absurd h (by simp)
  | takeRaw kind count =>
    rw [Scan.runWith] at h
    split at h
    · rename_i leaf e htake
      cases h
      exact hc.takeRaw? htake
    · exact absurd h (by simp)
  | pass count =>
    cases h
    exact (hc.advance count).skip
  | skip =>
    cases h
    exact hc.skip

/-- Reading a goal ends at a place of the program. Induction on the fuel. -/
theorem readGoal_placed {fuel : Nat} (goal : Goal) {c d : Cursor} {ns : List Node}
    (hc : c.Placed code) (h : readGoal fuel goal c = .done ns d) : d.Placed code := by
  induction fuel generalizing goal c d ns with
  | zero => exact absurd h (by simp [readGoal])
  | succ fuel ih => exact runWith_placed (fun goal c d ns => ih goal) (Reader.ofGoal goal) hc h

/-! ## Leaves of trees -/

mutual

/-- **A leaf of a located tree starts where a token was recorded**, or at the start of everything if
its number is none. The two lemmas go through trees and lists of them together. -/
theorem start_of_mem_tokens_located {places : Array Nat} : (n : Node) → {leaf : Node} →
    leaf ∈ (n.located places).tokens → leaf.start ∈ places ∨ leaf.start = 0
  | .leaf kind number text, leaf, h => by
    rw [Node.located, Node.tokens, List.mem_singleton] at h
    subst h
    show places.getD number 0 ∈ places ∨ places.getD number 0 = 0
    -- a number beyond the recorded starts is placed at the beginning
    by_cases hlt : number < places.size
    · refine .inl ?_
      rw [Array.getD_eq_getD_getElem?, Array.getElem?_eq_getElem hlt]
      exact Array.getElem_mem hlt
    · refine .inr ?_
      rw [Array.getD_eq_getD_getElem?, Array.getElem?_eq_none (by omega)]
      rfl
  | .branch kind children, leaf, h => start_of_mem_tokensOfAll_located children h

theorem start_of_mem_tokensOfAll_located {places : Array Nat} : (ns : List Node) → {leaf : Node} →
    leaf ∈ Node.tokensOfAll (Node.allLocated places ns) → leaf.start ∈ places ∨ leaf.start = 0
  | [], leaf, h => absurd h (by simp [Node.allLocated, Node.tokensOfAll])
  | n :: rest, leaf, h => by
    rw [Node.allLocated, Node.tokensOfAll, List.mem_append] at h
    rcases h with hn | hrest
    · exact start_of_mem_tokens_located n hn
    · exact start_of_mem_tokensOfAll_located rest hrest

end

/-- **The leaves of a program's tree start at characters.** -/
theorem atChar_of_mem_tokens {tree leaf : Node} (hread : parse? code = some tree) (hne : code ≠ [])
    (hleaf : leaf ∈ tree.tokens) : AtChar code leaf.start := by
  unfold parse? at hread
  split at hread
  · rename_i raw c hrun
    split at hread
    · exact absurd hread (by simp)
    · rw [← Option.some.inj hread] at hleaf
      have hplaced := runWith_placed (fun goal c d ns => readGoal_placed goal) program
        (Cursor.Placed.atStart code).skip hrun
      rcases start_of_mem_tokens_located raw hleaf with hmem | hzero
      · exact hplaced.starts _ hmem
      · rw [hzero]
        exact atChar_zero hne
  · exact absurd hread (by simp)

mutual

/-- A node starts where one of its leaves does; a node without leaves is put at the start. -/
theorem start_eq_zero_or : (n : Node) → n.start = 0 ∨ ∃ leaf ∈ n.tokens, leaf.start = n.start
  | .leaf .. => .inr ⟨_, List.mem_singleton_self _, rfl⟩
  | .branch _ children => startOfFirst_eq_zero_or children

theorem startOfFirst_eq_zero_or : (ns : List Node) →
    Node.startOfFirst ns = 0 ∨ ∃ leaf ∈ Node.tokensOfAll ns, leaf.start = Node.startOfFirst ns
  | [] => .inl rfl
  | n :: _ => (start_eq_zero_or n).imp_right fun ⟨leaf, hmem, heq⟩ =>
      ⟨leaf, List.mem_append_left _ hmem, heq⟩

end

end Packwright.Syntax
