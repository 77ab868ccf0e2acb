import Packwright.Plugin
import Packwright.Proofs.Path.Spelling

/-!
# Resolving and loading compiled modules

The plugin that serves compiled modules is asked twice about each of them: where a specifier leads,
and what is there. It builds a path for the first question and takes one for the second, and the
store brings every path into normal form once more; the answers fit together because what is built
is in normal form already.

* `normalize_candidate` is that fact, `asksToResolve_iff` says when the delegate is asked at all.
* `candidate_congr`: of its importer a relative specifier sees only the directory.
-/

namespace Packwright.VirtualOutput

open Packwright.Path

def asking (v : VirtualOutput) (delegate? : Option Plugin) : VirtualOutput :=
  { v with delegate? := delegate? }

/-- Whether the delegate is asked where a specifier leads: the answer is not the same for all. -/
def AsksToResolve (v : VirtualOutput) (store : Store) (specifier : String)
    (importer? : Option String) : Prop :=
  ∃ d d' : Plugin, (v.asking (some d)).resolve store specifier importer? ≠
    (v.asking (some d')).resolve store specifier importer?

/-- The directory of an importer in normal form. -/
def directory? (importer? : Option String) : Option String :=
  importer?.map fun importer => Path.parent (Path.normalize importer)

variable {v : VirtualOutput} {store : Store} {specifier : String} {importer? : Option String}

/-! ## Asking the delegate -/

/-- A candidate that is stored is what a specifier resolves to, and nobody else is asked. -/
theorem resolve_of_has (h : store.has (v.candidate specifier importer?) = true)
    (delegate? : Option Plugin) : (v.asking delegate?).resolve store specifier importer? =
      some (v.candidate specifier importer?) :=
  if_pos h

/-- Without one, the delegate is asked for all that there is to say. -/
theorem resolve_of_lacks (h : store.has (v.candidate specifier importer?) = false)
    (delegate? : Option Plugin) : (v.asking delegate?).resolve store specifier importer? =
      delegate?.bind fun d => d.resolve store specifier importer? :=
  if_neg (Bool.eq_false_iff.mp h)

/-- **The delegate has a say exactly if the candidate is not stored.** A delegate that answers
differently from none shows it. -/
theorem asksToResolve_iff : v.AsksToResolve store specifier importer? ↔
    store.has (v.candidate specifier importer?) = false := by
  constructor
  · rintro ⟨d, d', hne⟩
    by_contra hhas
    rw [Bool.not_eq_false] at hhas
    exact hne ((resolve_of_has hhas (some d)).trans (resolve_of_has hhas (some d')).symm)
  · intro hlacks
    -- a delegate that has no answer, and one that always has the same
    refine ⟨.engine "" [], .host ⟨"", fun _ _ _ => some "", fun _ _ => none⟩, ?_⟩
    rw [resolve_of_lacks hlacks, resolve_of_lacks hlacks]
    exact Option.some_ne_none _ ∘ Eq.symm

/-! ## Candidates -/

theorem isEnding_extension (h : v.extension.toList = moduleExtension ∨
    v.extension.toList = declarationExtension) : IsEnding v.extension.toList := by
  rcases h with h | h <;> rw [h] <;> decide

/-- **A candidate is in normal form.** -/
theorem normalize_candidate (h : IsEnding v.extension.toList) :
    Path.normalize (v.candidate specifier importer?) = v.candidate specifier importer? := by
  have hnormal : ∀ full : List Char,
      normalizeChars (if hasExtensionChars (normalizeChars full) then normalizeChars full
        else normalizeChars full ++ v.extension.toList) =
      if hasExtensionChars (normalizeChars full) then normalizeChars full
        else normalizeChars full ++ v.extension.toList := by
    intro full
    -- a candidate keeps the extension that it has, or it gets one
    split
    · exact normalizeChars_idem full
    · exact normalizeChars_append_ending h (normalizeChars_idem full)
  unfold candidate Path.normalize
  rw [String.toList_ofList]
  exact congrArg String.ofList (hnormal _)

/-- A specifier that starts with a dot sees nothing of its importer but the directory. -/
theorem candidate_congr {other? : Option String} (hdot : specifier.toList.head? = some '.')
    (h : directory? importer? = directory? other?) :
    v.candidate specifier importer? = v.candidate specifier other? := by
  cases importer? with
  | none =>
    cases other? with
    | none => rfl
    | some other => exact absurd h (by simp [directory?])
  | some importer =>
    cases other? with
    | none => exact absurd h (by simp [directory?])
    | some other =>
      -- only the directory of the importer is looked at
      have hparent : parentChars (normalizeChars importer.toList) =
          parentChars (normalizeChars other.toList) := by
        have hstrings := String.ofList_injective (Option.some.inj h)
        rwa [Path.normalize, Path.normalize, String.toList_ofList, String.toList_ofList] at hstrings
      unfold candidate
      simp only [hdot, hparent]

/-- Importers that are files of one directory are seen alike. -/
theorem directory?_eq_of_inOneDirectory {importer other : String}
    (h : InOneDirectory importer.toList other.toList) :
    directory? (some importer) = directory? (some other) := by
  unfold directory? Path.parent Path.normalize
  rw [Option.map_some, Option.map_some, String.toList_ofList, String.toList_ofList, h.parent_eq]

/-- The answer is the same for importers with the same candidate, unless the delegate tells them
apart. -/
theorem resolve_congr {other? : Option String} {delegate? : Option Plugin}
    (h : v.candidate specifier importer? = v.candidate specifier other?)
    (hdelegate : store.has (v.candidate specifier importer?) = true ∨ ∀ d ∈ delegate?,
      d.resolve store specifier importer? = d.resolve store specifier other?) :
    (v.asking delegate?).resolve store specifier importer? =
      (v.asking delegate?).resolve store specifier other? := by
  cases hhas : store.has (v.candidate specifier importer?) with
  | true => rw [resolve_of_has hhas, resolve_of_has (h ▸ hhas), h]
  | false =>
    -- without a stored candidate it is the delegate that must answer alike
    have halike := hdelegate.resolve_left (Bool.eq_false_iff.mp hhas)
    rw [resolve_of_lacks hhas, resolve_of_lacks (h ▸ hhas)]
    cases delegate? with
    | none => rfl
    | some d => exact halike d rfl

/-! ## Loading what was resolved -/

/-- A stored output in normal form is loaded as it is stored, with its map, whoever the delegate is. -/
theorem load_of_has {path : String} (hnormal : Path.normalize path = path)
    (hhas : store.has path = true) : ∃ code, store.files.get? path = some code ∧
      ∀ delegate?, (v.asking delegate?).load store path = some ⟨code, store.readMap path⟩ := by
  obtain ⟨code, hcode⟩ := Option.isSome_iff_exists.mp hhas
  rw [hnormal] at hcode
  refine ⟨code, hcode, fun delegate? => ?_⟩
  unfold load Store.read
  rw [hnormal, hcode]

/-- **What is resolved is what is loaded.** The delegate is asked where a specifier leads exactly if
the store lacks the candidate. If the store has it, the candidate is the answer; it is in normal
form, and loading it yields the stored text and the source map of the path, whatever the delegate.
A specifier that starts with a dot sees nothing of its importer but the directory, so importers that
are written as files of one directory resolve alike. -/
theorem resolve_load_agree (hextension : v.extension.toList = moduleExtension ∨
      v.extension.toList = declarationExtension)
    (store : Store) (specifier : String) (importer? : Option String) :
    (v.AsksToResolve store specifier importer? ↔
      store.has (v.candidate specifier importer?) = false) ∧
    (store.has (v.candidate specifier importer?) = false → ∀ delegate?,
      (v.asking delegate?).resolve store specifier importer? =
        delegate?.bind fun d => d.resolve store specifier importer?) ∧
    (store.has (v.candidate specifier importer?) = true → ∃ path code,
      Path.normalize path = path ∧ store.files.get? path = some code ∧ ∀ delegate?,
        (v.asking delegate?).resolve store specifier importer? = some path ∧
        (v.asking delegate?).load store path = some ⟨code, store.readMap path⟩) ∧
    (specifier.toList.head? = some '.' →
      (∀ other?, directory? importer? = directory? other? →
        v.candidate specifier importer? = v.candidate specifier other?) ∧
      ∀ importer other : String, InOneDirectory importer.toList other.toList →
        v.candidate specifier (some importer) = v.candidate specifier (some other) ∧
        ∀ delegate? : Option Plugin, (store.has (v.candidate specifier (some importer)) = true ∨
            ∀ d ∈ delegate?, d.resolve store specifier (some importer) =
              d.resolve store specifier (some other)) →
          (v.asking delegate?).resolve store specifier (some importer) =
            (v.asking delegate?).resolve store specifier (some other)) := by
  refine ⟨asksToResolve_iff, resolve_of_lacks, fun hhas => ?_, fun hdot =>
    ⟨fun other? => candidate_congr hdot, fun importer other hone => ?_⟩⟩
  · have hnormal : Path.normalize (v.candidate specifier importer?) =
        v.candidate specifier importer? := normalize_candidate (isEnding_extension hextension)
    obtain ⟨code, hcode, hload⟩ := load_of_has (v := v) hnormal hhas
    exact ⟨_, code, hnormal, hcode, fun delegate? =>
      ⟨resolve_of_has hhas delegate?, hload delegate?⟩⟩
  · have hsame := candidate_congr (v := v) hdot (directory?_eq_of_inOneDirectory hone)
    exact ⟨hsame, fun delegate? => resolve_congr hsame⟩

/-- A library of two modules, one of which has a source map. -/
def twoModules : Store :=
  Store.empty.writeAll [("lib\\shape/area.js", "export {}"), ("lib/shape/area.js.map", "mapped"),
    ("lib/index.js", "export *")]

/-- A module beside its importer, which may be written with backslashes and a detour, and one that is
missing. -/
theorem resolve_load_agree_detouredImporter :
    (∀ delegate? : Option Plugin,
      (VirtualOutput.mk ".js" delegate? []).resolve twoModules "./area"
          (some "lib\\shape/./circle.js") =
        some "lib/shape/area.js" ∧
      (VirtualOutput.mk ".js" delegate? []).load twoModules "lib/shape/area.js" =
        some ⟨"export {}", some "mapped"⟩) ∧
    InOneDirectory "lib\\shape/./circle.js".toList "lib/shape/square.js".toList ∧
    (∀ delegate? : Option Plugin,
      (VirtualOutput.mk ".js" delegate? []).resolve twoModules "./area"
          (some "lib\\shape/./circle.js") =
        (VirtualOutput.mk ".js" delegate? []).resolve twoModules "./area"
          (some "lib/shape/square.js")) ∧
    AsksToResolve ⟨".js", none, []⟩ twoModules "./volume" (some "lib/shape/square.js") := by
  have hextension : ".js".toList = moduleExtension ∨ ".js".toList = declarationExtension := Or.inl rfl
  have hagree := @resolve_load_agree ⟨".js", none, []⟩ hextension twoModules
  have hcandidate : (VirtualOutput.mk ".js" none []).candidate "./area"
      (some "lib\\shape/./circle.js") = "lib/shape/area.js" := by decide +kernel
  have hhas : twoModules.has "lib/shape/area.js" = true := by decide +kernel
  rw [← hcandidate] at hhas
  obtain ⟨-, -, hserved, hdot⟩ := hagree "./area" (some "lib\\shape/./circle.js")
  have hone : InOneDirectory "lib\\shape/./circle.js".toList "lib/shape/square.js".toList := by
    have hlast : "lib/shape/".toList.getLast? = some '/' := by decide +kernel
    have hfront : IsFront "lib/shape/".toList :=
      ⟨by decide +kernel, fun c hc => (Option.some.inj (hlast.symm.trans hc)).symm⟩
    have hcircle : IsName "circle.js".toList := by decide +kernel
    have hcircleBack : '\\' ∉ "circle.js".toList := by decide +kernel
    -- a dot in the path is a detour, and files of one directory are siblings
    have hdetour := InOneDirectory.detour hfront .dot (hcircle.isRest hcircleBack)
      (fun hnil => absurd hnil (by decide +kernel))
    have hsibling := InOneDirectory.sibling hfront hcircle hcircleBack
      (show IsName "square.js".toList by decide +kernel) (by decide +kernel)
    exact (InOneDirectory.slashes (by decide +kernel)).trans (hdetour.trans hsibling)
  refine ⟨fun delegate? => ?_, hone, fun delegate? => ?_, ?_⟩
  · obtain ⟨path, code, -, hcode, hanswer⟩ := hserved hhas
    have hpath : "lib/shape/area.js" = path := by
      have hresolved := (hanswer none).1
      rw [resolve_of_has hhas, hcandidate] at hresolved
      exact Option.some.inj hresolved
    subst hpath
    have hstored : twoModules.files.get? "lib/shape/area.js" = some "export {}" := by decide +kernel
    have hmap : twoModules.readMap "lib/shape/area.js" = some "mapped" := by decide +kernel
    rw [Option.some.inj (hcode.symm.trans hstored), hmap] at hanswer
    exact hanswer delegate?
  · exact ((hdot rfl).2 _ _ hone).2 delegate? (Or.inl hhas)
  · exact (hagree "./volume" (some "lib/shape/square.js")).1.mpr (by decide +kernel)

end Packwright.VirtualOutput
