import Packwright.Proofs.Syntax.Weave

/-!
# Programs of the reader and woven comments

A scan gives the same outcome on a program with comments woven in, if none is inside of what it
looks at. The proof goes through the scans once, with one case for each way to build one; goals are
answered alike by induction on the fuel. The annotated program is longer and gets more fuel, which
makes no difference to a run that is not exhausted.
-/

namespace Packwright.Syntax

variable {comment : Comment} {marked : Nat → Bool}

/-- What comes of a scan on the program as it is, and what comes of it with comments woven in. -/
inductive Mirrors (comment : Comment) (marked : Nat → Bool) {α : Type} :
    Outcome α → Outcome α → Prop where
  | done {c d : Cursor} (value : α) (woven : Woven comment marked c d) :
    Mirrors comment marked (.done value c) (.done value d)
  | failed : Mirrors comment marked .failed .failed
  | exhausted (outcome : Outcome α) : Mirrors comment marked .exhausted outcome

variable {calls calls' : Goal → Cursor → Outcome (List Node)} {seen : Goal → Cursor → List Span}

/-- **A scan does not notice comments that are not inside of what it looks at**, if the goals that
it calls do not. -/
theorem runWith_mirrors
    (hcalls : ∀ goal {c d : Cursor}, Woven comment marked c d → Unseen marked (seen goal c) →
      Mirrors comment marked (calls goal c) (calls' goal d))
    {α : Type} (scan : Scan α) {c d : Cursor} (hw : Woven comment marked c d)
    (h : Unseen marked (scan.sightingsWith calls seen c)) :
    Mirrors comment marked (scan.runWith calls c) (scan.runWith calls' d) := by
  induction scan generalizing c d with
  | done value => exact .done value hw
  | fail => exact .failed
  | bind first next ihfirst ihnext =>
    rw [Scan.sightingsWith, unseen_append] at h
    obtain ⟨hfirst, hnext⟩ := h
    have hm := ihfirst hw hfirst
    rw [Scan.runWith, Scan.runWith]
    generalize first.runWith calls c = outcome at hm hnext
    generalize first.runWith calls' d = outcome' at hm
    cases hm with
    | done value woven => exact ihnext value woven hnext
    | failed => exact .failed
    | exhausted => exact .exhausted _
  | orElse first second ihfirst ihsecond =>
    rw [Scan.sightingsWith, unseen_append] at h
    obtain ⟨hfirst, hsecond⟩ := h
    have hm := ihfirst hw hfirst
    rw [Scan.runWith, Scan.runWith]
    generalize first.runWith calls c = outcome at hm hsecond
    generalize first.runWith calls' d = outcome' at hm
    cases hm with
    | done value woven => exact .done value woven
    -- the second scan starts where the first one did
    | failed => exact ihsecond hw hsecond
    | exhausted => exact .exhausted _
  | lookAhead inner ih =>
    have hm := ih hw h
    rw [Scan.runWith, Scan.runWith]
    generalize inner.runWith calls c = outcome at hm
    generalize inner.runWith calls' d = outcome' at hm
    cases hm with
    | done value woven => exact .done (some value) hw
    | failed => exact .done none hw
    | exhausted => exact .exhausted _
  | call goal => exact hcalls goal hw h
  | look probe =>
    have hanswer : probe.answer d.rest = probe.answer c.rest := by
      rw [hw.rest]
      exact answer_weaveBehind probe (unbroken_of_unseen (unseen_cons.mp h).1)
    rw [Scan.runWith, Scan.runWith, hanswer]
    exact .done _ hw
  | lineEnded =>
    rw [Scan.runWith, Scan.runWith, hw.lineEnded]
    exact .done _ hw
  | take kind count =>
    rw [Scan.sightingsWith, unseen_cons] at h
    obtain ⟨hspan, hskip⟩ := h
    rw [Scan.runWith, Scan.runWith]
    rcases hw.takeRaw? kind hspan with ⟨hc, hd⟩ | ⟨leaf, e, f, hc, hd, hf⟩
    · rw [hc, hd]
      exact .failed
    · rw [hc] at hskip ⊢
      rw [hd]
      exact .done leaf (hf.skip hskip)
  | takeRaw kind count =>
    -- blanks are not skipped here, so the character behind the leaf must be unmarked as well
    rw [Scan.sightingsWith, unseen_cons] at h
    have hspan := (unbroken_of_unseen h.1).take_mono (Nat.le_succ count)
    rw [Scan.runWith, Scan.runWith]
    rcases hw.takeRaw? kind hspan with ⟨hc, hd⟩ | ⟨leaf, e, f, hc, hd, hf⟩
    · rw [hc, hd]
      exact .failed
    · rw [hc, hd]
      exact .done leaf (hf.woven (unmarked_of_takeRaw? hc h.1))
  | pass count =>
    rw [Scan.sightingsWith, unseen_cons] at h
    exact .done () (hw.pass h.1 h.2)
  | skip => exact .done () (hw.skip h)

/-- **A goal is read alike with comments woven in**, also with more fuel. -/
theorem readGoal_mirrors {fuel fuel' : Nat} (hle : fuel ≤ fuel') (goal : Goal) {c d : Cursor}
    (hw : Woven comment marked c d) (h : Unseen marked (goalSightings fuel goal c)) :
    Mirrors comment marked (readGoal fuel goal c) (readGoal fuel' goal d) := by
  induction fuel generalizing fuel' goal c d with
  | zero => exact .exhausted _
  | succ fuel ih =>
    obtain ⟨fuel', rfl⟩ := Nat.exists_eq_add_of_le' (Nat.le_trans (Nat.succ_pos fuel) hle)
    exact runWith_mirrors (fun goal c d hw h => ih (Nat.le_of_succ_le_succ hle) goal hw h)
      (Reader.ofGoal goal) hw h

/-! ## Programs -/

mutual

/-- Forgetting where the leaves stand undoes whatever places they were given. -/
theorem unplaced_located (places : Array Nat) : (n : Node) → (n.located places).unplaced = n.unplaced
  | .leaf .. => rfl
  | .branch kind children => by
    show Node.branch kind _ = Node.branch kind _
    rw [allLocated_allLocated places children]

theorem allLocated_allLocated (places : Array Nat) : (ns : List Node) →
    Node.allLocated #[] (Node.allLocated places ns) = Node.allLocated #[] ns
  | [] => rfl
  | n :: rest => by
    have hn : (n.located places).located #[] = n.located #[] := unplaced_located places n
    rw [Node.allLocated, Node.allLocated, Node.allLocated, hn, allLocated_allLocated places rest]

end

/-- Weaving comments in does not make a program shorter. -/
theorem length_le_weave (comment : Comment) (marked : Nat → Bool) (offset : Nat) (s : List Char) :
    s.length ≤ (weave comment marked offset s).length := by
  induction s generalizing offset with
  | nil => exact Nat.zero_le _
  | cons c rest ih =>
    have := ih (offset + c.utf8Size)
    rw [weave, List.length_append, List.length_cons, List.length_cons]
    omega

/-- **A program is read alike with comments woven in that are not inside of its sightings**: as far
as it is well formed, it stays so, and its tree has the same constructs and leaves. -/
theorem parse?_weave {code : List Char} {tree : Node} (hread : parse? code = some tree)
    (h : Unseen marked (sightings code)) :
    ∃ tree', parse? (weave comment marked 0 code) = some tree' ∧
      tree'.unplaced = tree.unplaced := by
  rw [sightings, unseen_append] at h
  have hstart : Facing comment marked (Cursor.atStart code)
      (Cursor.atStart (weave comment marked 0 code)) := ⟨rfl, rfl, rfl⟩
  -- the woven code is longer, so its reader has fuel enough
  have hfuel : fuelFor code.length ≤ fuelFor (weave comment marked 0 code).length := by
    have := length_le_weave comment marked 0 code
    unfold fuelFor
    omega
  have hm := runWith_mirrors (fun goal c d hw h => readGoal_mirrors hfuel goal hw h) program
    (hstart.skip h.1) h.2
  unfold parse? at hread ⊢
  generalize program.runWith (readGoal (fuelFor code.length)) (Cursor.atStart code).skip = outcome
    at hm hread
  generalize program.runWith (readGoal (fuelFor (weave comment marked 0 code).length))
    (Cursor.atStart (weave comment marked 0 code)).skip = outcome' at hm
  -- both readers end alike, and where the tree covers the code is forgotten
  cases hm with
  | done value woven =>
    dsimp only at hread ⊢
    split at hread
    · exact absurd hread (by simp)
    · rename_i hcover
      rw [if_neg hcover, ← Option.some.inj hread]
      refine ⟨_, rfl, ?_⟩
      rw [unplaced_located, unplaced_located]
  | failed => exact absurd hread (by simp)
  | exhausted => exact absurd hread (by simp)

end Packwright.Syntax
