import Packwright.Disk
import Packwright.Proofs.Path.File

/-!
# Resolving links

A path that has been resolved is as it should be: no component of it goes up or is a link, so
resolving it once more gives the same path.

* `resolveFrom_induction`: what goes along with the components that are followed holds of the
  location that is reached. So it is real (`IsReal`) if the first one was, and there are only names
  in it if the path is made of steps (`descends_of_resolve`).
* `resolveFrom_of_isReal`: a real location is what its own components lead to.
-/

namespace Packwright.Disk

variable {d : Disk}

/-- Whether every component of a location stands for itself: it does not go up, can be asked about
and is no link. -/
def IsReal (d : Disk) (location : Location) : Prop :=
  ∀ above name, above ++ [name] <+: location →
    name ≠ ".." ∧ holdsNull name = false ∧ ∀ target, d.entry? (above ++ [name]) ≠ some (.link target)

/-- Whether the working directory is given without links, as a system gives it. -/
def Grounded (d : Disk) : Prop :=
  d.IsReal d.cwd

theorem isReal_nil : d.IsReal [] := by
  intro above name hextends
  exact absurd (List.prefix_nil.mp hextends) (by simp)

theorem IsReal.of_prefix {location shorter : Location} (h : d.IsReal location)
    (hextends : shorter <+: location) : d.IsReal shorter :=
  fun above name hname => h above name (hname.trans hextends)

/-- One part further stays real, if it is a name and no link. -/
theorem isReal_concat {here : Location} {part : String} (h : d.IsReal here) (hup : part ≠ "..")
    (hnull : holdsNull part = false)
    (hlink : ∀ target, d.entry? (here ++ [part]) ≠ some (.link target)) :
    d.IsReal (here ++ [part]) := by
  intro above name hextends
  rcases List.prefix_concat_iff.mp hextends with heq | hshorter
  · obtain ⟨rfl, hname⟩ := List.append_inj' heq rfl
    obtain rfl := List.head_eq_of_cons_eq hname
    exact ⟨hup, hnull, hlink⟩
  · exact h above name hshorter

/-- **What holds of the root, and goes along with every component that is followed, holds of the
location that is reached.** The components are those of a path and of the links on the way. -/
theorem resolveFrom_induction {P : Location → Prop} {Q : String → Prop} (hroot : P [])
    (hup : ∀ here, P here → P here.dropLast)
    (hdown : ∀ here part, P here → Q part → part ≠ ".." → holdsNull part = false →
      (∀ target, d.entry? (here ++ [part]) ≠ some (.link target)) → P (here ++ [part]))
    (hlinks : ∀ target, ∀ part ∈ (FilePath.ofString target).parts, Q part)
    {fuel : Nat} {opened : List Location} {here reached : Location} {parts : List String}
    (h : P here) (hparts : ∀ part ∈ parts, Q part)
    (hreached : d.resolveFrom fuel opened here parts = .whole reached) : P reached := by
  have hstart : ∀ {here target}, P here → P (linkStart here target) := by
    intro here target hhere
    unfold linkStart
    split
    · exact hhere
    · exact hroot
  induction fuel generalizing opened here parts reached with
  | zero => exact absurd hreached (by simp [resolveFrom])
  | succ fuel ih =>
    cases parts with
    | nil =>
      rw [resolveFrom] at hreached
      exact Resolution.whole.inj hreached ▸ h
    | cons part rest =>
      obtain ⟨hpart, hrest⟩ := List.forall_mem_cons.mp hparts
      rw [resolveFrom] at hreached
      split at hreached
      · exact ih (hup here h) hrest hreached
      · rename_i hdotted
        split at hreached
        · exact absurd hreached (by simp)
        · rename_i hnull
          dsimp only at hreached
          split at hreached
          · -- a link: first to where it leads, then on from there
            rename_i target _
            split at hreached
            · exact absurd hreached (by simp)
            · split at hreached
              · rename_i there hthere
                exact ih (ih (hstart h) (hlinks target) hthere) hrest hreached
              · exact absurd hreached (by simp)
              · exact absurd hreached (by simp)
          · rename_i hlink
            exact ih (hdown here part h hpart hdotted (by simpa using hnull) hlink) hrest hreached

/-- Following components from a real location leads to a real location, if it leads anywhere. -/
theorem isReal_of_resolveFrom {fuel : Nat} {opened : List Location} {here reached : Location}
    {parts : List String} (h : d.IsReal here)
    (hreached : d.resolveFrom fuel opened here parts = .whole reached) : d.IsReal reached :=
  resolveFrom_induction (Q := fun _ => True) isReal_nil
    (fun here hhere => hhere.of_prefix (List.dropLast_prefix here))
    (fun _ _ hhere _ hup hnull hlink => isReal_concat hhere hup hnull hlink)
    (fun _ _ _ => trivial) h (fun _ _ => trivial) hreached

/-- A path of steps is resolved to one that goes down from the root by names. -/
theorem descends_of_resolve (hcwd : (FilePath.ofLocation d.cwd).Descends) {p q : FilePath}
    (hp : ∀ part ∈ p.parts, FilePath.IsStep part) (hq : d.resolve p = .ok q) : q.Descends := by
  unfold resolve at hq
  dsimp only at hq
  split at hq
  · rename_i location hlocation
    obtain rfl := Except.ok.inj hq
    have hroot : (FilePath.ofLocation []).Descends := ⟨rfl, by simp [FilePath.ofLocation]⟩
    have hstart : (FilePath.ofLocation (d.startOf p)).Descends := by
      unfold startOf
      split
      · exact hcwd
      · exact hroot
    -- the walk always stands at names; links bring steps, and a step up takes a name off
    refine resolveFrom_induction (P := fun location => (FilePath.ofLocation location).Descends)
      (Q := FilePath.IsStep) hroot ?up ?down ?links hstart hp hlocation
    case up =>
      exact fun here hhere => ⟨rfl, fun name hname => hhere.names name (List.mem_of_mem_dropLast hname)⟩
    case down =>
      intro here part hhere hpart hup _ _
      exact ⟨rfl, List.forall_mem_append.mpr ⟨hhere.names, by simpa using hpart.isName hup⟩⟩
    case links => exact fun target => FilePath.IsWritten.isStep ⟨target, rfl⟩
  · exact absurd hq (by simp)
  · split at hq
    all_goals exact absurd hq (by simp)

/-- A real location is what its components lead to, with fuel for each of them. -/
theorem resolveFrom_of_isReal {fuel : Nat} {opened : List Location} {here : Location}
    {parts : List String} (h : d.IsReal (here ++ parts)) (hfuel : parts.length < fuel) :
    d.resolveFrom fuel opened here parts = .whole (here ++ parts) := by
  induction parts generalizing fuel here with
  | nil =>
    obtain ⟨fuel, rfl⟩ := Nat.exists_eq_add_one_of_ne_zero (Nat.ne_zero_of_lt hfuel)
    rw [resolveFrom, List.append_nil]
  | cons part rest ih =>
    obtain ⟨fuel, rfl⟩ := Nat.exists_eq_add_one_of_ne_zero (Nat.ne_zero_of_lt hfuel)
    have hassoc : here ++ part :: rest = (here ++ [part]) ++ rest := by simp
    obtain ⟨hup, hnull, hlink⟩ := h here part ⟨rest, hassoc.symm⟩
    rw [resolveFrom, if_neg hup, hnull, if_neg Bool.false_ne_true]
    dsimp only
    split
    · -- a real location has no link on its way
      exact absurd ‹_› (hlink _)
    · rw [hassoc] at h ⊢
      exact ih h (Nat.lt_of_succ_lt_succ hfuel)

/-- **What was resolved stays as it is** when it is resolved again. -/
theorem resolve_resolve (h : d.Grounded) {p q : FilePath} (hq : d.resolve p = .ok q) :
    d.resolve q = .ok q := by
  unfold resolve at hq
  dsimp only at hq
  split at hq
  · rename_i location hlocation
    obtain rfl := Except.ok.inj hq
    have hstart : d.IsReal (d.startOf p) := by
      unfold startOf
      split
      · exact h
      · exact isReal_nil
    have hreal := isReal_of_resolveFrom hstart hlocation
    -- what was resolved is real, and walking to it again meets no link
    have hsame : ∀ fuel, location.length < fuel →
        d.resolveFrom fuel [] (d.startOf (.ofLocation location)) (FilePath.ofLocation location).parts =
          .whole location :=
      fun fuel hfuel => resolveFrom_of_isReal hreal hfuel
    unfold resolve
    dsimp only
    rw [hsame]
    exact Nat.lt_succ_of_le (Nat.le_add_right _ _)
  · exact absurd hq (by simp)
  · split at hq
    all_goals exact absurd hq (by simp)

end Packwright.Disk
