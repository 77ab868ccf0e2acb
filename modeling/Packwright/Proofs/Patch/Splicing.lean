import Packwright.Proofs.Patch

/-!
# One pass, or one patch at a time

Patches are applied in a single pass, with a cursor that never goes back. What comes out is what one
gets by splicing the patches in one at a time, the last one first, so that no splice moves the places
of those still to come.

* `splice` puts one patch into a source, `spliceAll` puts in all of them.
* `Misplaced` says which patches cannot be applied in turn; `applyFrom_isError_iff` says that nothing
  else makes the pass fail.
* `spliceAll_of_applyFrom`: a pass that has come up to the cursor has still to do, behind it, what the
  splices of the patches that are left do to the whole source.
-/

namespace Packwright.Patch

open Packwright.Text

variable {α : Type} {encode : String → List α} {length cursor : Int} {source out : List α}
  {p : Patch} {ps more : List Patch}

/-- The source with the text of a patch in place of what stands between its start and its stop. -/
def splice (encode : String → List α) (source : List α) (p : Patch) : List α :=
  source.take p.start.toNat ++ encode p.text ++ source.drop p.stop.toNat

/-- The source with some patches spliced in one at a time, the last one first. -/
def spliceAll (encode : String → List α) (source : List α) (ps : List Patch) : List α :=
  ps.foldr (fun p spliced => splice encode spliced p) source

/-- Whether one of some patches cannot be applied in its turn: it ends before it starts or behind the
end of the source, or it starts before the patch in front of it ends. The first one may not start
before the cursor. -/
def Misplaced (length cursor : Int) (ps : List Patch) : Prop :=
  ∃ before p behind, ps = before ++ p :: behind ∧
    (p.stop < p.start ∨ length < p.stop ∨ p.start < before.getLast?.elim cursor stop)

/-! ## When the pass fails -/

theorem not_misplaced_nil : ¬ Misplaced length cursor [] := by
  rintro ⟨before, p, behind, h, -⟩
  exact absurd h.symm (by simp)

/-- The first patch is misplaced, or one of the others is, with the cursor where the first one
ends. -/
theorem misplaced_cons : Misplaced length cursor (p :: more) ↔
    (p.stop < p.start ∨ length < p.stop ∨ p.start < cursor) ∨ Misplaced length p.stop more := by
  constructor
  · rintro ⟨before, q, behind, heq, hq⟩
    cases before with
    | nil =>
      obtain ⟨rfl, -⟩ := List.cons.inj heq
      exact Or.inl hq
    | cons r before =>
      obtain ⟨rfl, hmore⟩ := List.cons.inj heq
      refine Or.inr ⟨before, q, behind, hmore, ?_⟩
      -- the patch in front of this one is the first one, or is among the others as well
      cases before with
      | nil => exact hq
      | cons r' before => rwa [List.getLast?_cons_cons] at hq
  · rintro (hp | ⟨before, q, behind, rfl, hq⟩)
    · exact ⟨[], p, more, rfl, hp⟩
    · refine ⟨p :: before, q, behind, rfl, ?_⟩
      cases before with
      | nil => exact hq
      | cons r before => rwa [List.getLast?_cons_cons]

/-- **The pass fails exactly if a patch is misplaced.** -/
theorem applyFrom_isError_iff (encode : String → List α) (length cursor : Int) (rest : List α)
    (ps : List Patch) :
    (∃ e, applyFrom encode length cursor rest ps = .error e) ↔ Misplaced length cursor ps := by
  induction ps generalizing cursor rest with
  | nil => exact iff_of_false (by simp [applyFrom]) not_misplaced_nil
  | cons p more ih =>
    rw [misplaced_cons, ← ih p.stop (rest.drop (p.stop - cursor).toNat), applyFrom]
    -- the overlap is tested before the bounds
    by_cases hoverlap : p.start < cursor
    · rw [if_pos hoverlap]
      exact iff_of_true ⟨_, rfl⟩ (Or.inl (Or.inr (Or.inr hoverlap)))
    · rw [if_neg hoverlap]
      by_cases hbounds : p.stop < p.start ∨ p.stop > length
      · rw [if_pos hbounds]
        exact iff_of_true ⟨_, rfl⟩ (Or.inl (hbounds.imp_right Or.inl))
      · rw [if_neg hbounds]
        have hplaced : ¬(p.stop < p.start ∨ length < p.stop ∨ p.start < cursor) := by omega
        dsimp only
        cases applyFrom encode length p.stop (rest.drop (p.stop - cursor).toNat) more with
        | error e => exact iff_of_true ⟨e, rfl⟩ (Or.inr ⟨e, rfl⟩)
        | ok tail => exact iff_of_false (by simp [Except.map]) (by simp [hplaced])

/-! ## What the pass yields -/

/-- **A pass that succeeds does what the splices do.** They leave alone what stands before the cursor,
and make of the rest what the pass makes of it. -/
theorem spliceAll_of_applyFrom (hcursor : 0 ≤ cursor) (hlength : cursor ≤ source.length)
    (h : applyFrom encode source.length cursor (source.drop cursor.toNat) ps = .ok out) :
    spliceAll encode source ps = source.take cursor.toNat ++ out := by
  induction ps generalizing cursor out with
  | nil =>
    rw [applyFrom] at h
    rw [← Except.ok.inj h, List.take_append_drop]
    rfl
  | cons p more ih =>
    obtain ⟨hstart, hstop, hend, tail, htail, rfl⟩ := applyFrom_cons_ok.mp h
    rw [List.drop_drop, show cursor.toNat + (p.stop - cursor).toNat = p.stop.toNat by omega] at htail
    have hmore : spliceAll encode source more = source.take p.stop.toNat ++ tail :=
      ih (by omega) hend htail
    have hlen : (source.take p.stop.toNat).length = p.stop.toNat := by
      rw [List.length_take]
      omega
    -- the splices behind this patch have left alone what stands before its end
    have hkept : (spliceAll encode source more).take p.start.toNat = source.take p.start.toNat := by
      rw [hmore, List.take_append_of_le_length (by omega), List.take_take, Nat.min_eq_left (by omega)]
    have hbehind : (spliceAll encode source more).drop p.stop.toNat = tail := by
      rw [hmore, List.drop_left' hlen]
    have hfirst : source.take p.start.toNat =
        source.take cursor.toNat ++ (source.drop cursor.toNat).take (p.start - cursor).toNat := by
      rw [← List.take_add, show cursor.toNat + (p.start - cursor).toNat = p.start.toNat by omega]
    calc spliceAll encode source (p :: more)
        = splice encode (spliceAll encode source more) p := rfl
      _ = source.take p.start.toNat ++ encode p.text ++ tail := by rw [splice, hkept, hbehind]
      _ = source.take cursor.toNat ++ ((source.drop cursor.toNat).take (p.start - cursor).toNat ++
            encode p.text ++ tail) := by rw [hfirst]; simp

/-- The pass over a whole source: either a patch is misplaced, or all of them are spliced in. -/
theorem applyPatches_spec (encode : String → List α) (source : List α) (ps : List Patch) :
    ((∃ e, applyPatches encode source ps = .error e) ↔
      Misplaced source.length 0 (sortPatches ps)) ∧
    (¬ Misplaced source.length 0 (sortPatches ps) →
      applyPatches encode source ps = .ok (spliceAll encode source (sortPatches ps))) := by
  have hfails := applyFrom_isError_iff encode source.length 0 source (sortPatches ps)
  refine ⟨hfails, fun hplaced => ?_⟩
  unfold applyPatches at *
  cases h : applyFrom encode source.length 0 source (sortPatches ps) with
  | error e => exact absurd (hfails.mp ⟨e, h⟩) hplaced
  | ok out =>
    -- splicing from the back leaves what is before the first patch
    have hspliced : spliceAll encode source (sortPatches ps) = source.take 0 ++ out :=
      spliceAll_of_applyFrom (Int.le_refl 0) (Int.natCast_nonneg _) h
    rw [hspliced, List.take_zero, List.nil_append]

/-- **One pass is one splice after the other.** The patches of a text, or of bytes, are refused
exactly if one of the sorted patches is misplaced. Otherwise the result is the source with the sorted
patches spliced in one at a time, from the last to the first. -/
theorem applied_eq_spliced (ps : List Patch) :
    (∀ source : String,
      ((∃ e, applyToText source ps = .error e) ↔ Misplaced source.length 0 (sortPatches ps)) ∧
      (¬ Misplaced source.length 0 (sortPatches ps) → applyToText source ps =
        .ok (String.ofList (spliceAll String.toList source.toList (sortPatches ps))))) ∧
    ∀ source : List UInt8,
      ((∃ e, applyToBytes source ps = .error e) ↔ Misplaced source.length 0 (sortPatches ps)) ∧
      (¬ Misplaced source.length 0 (sortPatches ps) → applyToBytes source ps =
        .ok (spliceAll Utf8.encode source (sortPatches ps))) := by
  refine ⟨fun source => ?_, fun source => applyPatches_spec Utf8.encode source ps⟩
  obtain ⟨hfails, hyields⟩ := applyPatches_spec String.toList source.toList ps
  rw [String.length_toList] at hfails hyields
  unfold applyToText
  refine ⟨?_, fun hplaced => by rw [hyields hplaced]; rfl⟩
  rw [← hfails]
  cases applyPatches String.toList source.toList ps <;> simp [Except.map]

end Packwright.Patch
