import Packwright.Proofs.Unit.Lifetime
import Packwright.Proofs.Watch.Acts

/-!
# Paths that belong to nothing

A batch with a path that belongs to nothing is refused before anything is done for it.

* `Unowned` are the paths that are refused. `Stray` are those without a unit of the watch at their
  root: a path is refused without being stray only if a unit outside the watch has the same root.
  In a watch as `start` makes it there is no such unit.
* `run_process_of_unowned` is the refusal.
-/

namespace Packwright.Watch

namespace Coordinator

variable {c : Coordinator} {batch : Batch} {path : String}

/-! ## Paths that are refused -/

/-- Whether a path is no extra file, and the first unit of its root is missing or not watched. -/
def Unowned (c : Coordinator) (path : String) : Prop :=
  Path.sourcePathFor path ∉ c.extra ∧
    ∀ u, c.bundler.registry.byRoot (rootOf path) = some u → u ∉ c.units

/-- Whether a path is no extra file, and no unit of the watch has its root. -/
def Stray (c : Coordinator) (path : String) : Prop :=
  Path.sourcePathFor path ∉ c.extra ∧ ∀ u ∈ c.units, u.root ≠ rootOf path

/-- A path without an owner is refused, and the error names it. -/
theorem owner_of_unowned (h : c.Unowned path) : c.owner path = .error (.noUnit path) := by
  obtain ⟨hextra, hroot⟩ := h
  unfold owner
  dsimp only
  rw [if_neg (by simpa using hextra)]
  cases hfound : c.bundler.registry.byRoot (rootOf path) with
  | none => rfl
  | some u =>
    have hu : c.units.contains u = false := by simpa using hroot u hfound
    dsimp only
    rw [hu]
    rfl

/-- What is not refused belongs to something. -/
theorem exists_owner (h : ¬ c.Unowned path) : ∃ o, c.owner path = .ok o := by
  unfold owner
  dsimp only
  by_cases hextra : c.extra.contains (Path.sourcePathFor path) = true
  · exact ⟨.passThrough, if_pos hextra⟩
  · rw [if_neg hextra]
    -- no extra source, so the root of the path belongs to a unit of the watch
    have hroot : ∃ u, c.bundler.registry.byRoot (rootOf path) = some u ∧ u ∈ c.units := by
      refine Classical.byContradiction fun hno => h ⟨by simpa using hextra, fun u hu hin => ?_⟩
      exact hno ⟨u, hu, hin⟩
    obtain ⟨u, hfound, hu⟩ := hroot
    rw [hfound]
    dsimp only
    rw [if_neg (by simpa using hu)]
    split
    · exact ⟨.passThrough, rfl⟩
    · exact ⟨.unit u, rfl⟩

/-- A stray path is refused. -/
theorem Stray.unowned (h : c.Stray path) : c.Unowned path := by
  refine ⟨h.1, fun u hfound hu => h.2 u hu ?_⟩
  have hroot := Registry.isFirst_find? (fun u => u.root = rootOf path) c.bundler.registry
  unfold Registry.byRoot at hfound
  rw [hfound] at hroot
  obtain ⟨-, -, -, heq, -⟩ := hroot
  exact heq

/-- Where all registered units are watched, the paths that are refused are the stray ones. -/
theorem stray_iff_unowned (hsame : ∀ u, u ∈ c.units ↔ u ∈ c.bundler.registry) :
    c.Stray path ↔ c.Unowned path := by
  refine ⟨Stray.unowned, fun h => ⟨h.1, fun u hu hroot => ?_⟩⟩
  have hfirst := Registry.isFirst_find? (fun u => u.root = rootOf path) c.bundler.registry
  cases hfound : List.find? (fun u => u.root = rootOf path) c.bundler.registry with
  | none =>
    rw [hfound] at hfirst
    exact hfirst u ((hsame u).mp hu) hroot
  | some v =>
    have hv : v ∈ c.bundler.registry := List.mem_of_find?_eq_some hfound
    exact h.2 v hfound ((hsame v).mpr hv)

/-- The first path that is refused, of a batch with one. -/
theorem exists_first_unowned (h : ∃ path ∈ batch, c.Unowned path) :
    ∃ before path after, batch = before ++ path :: after ∧ (∀ p ∈ before, ¬ c.Unowned p) ∧
      c.Unowned path := by
  induction batch with
  | nil =>
    obtain ⟨path, hmem, -⟩ := h
    exact absurd hmem List.not_mem_nil
  | cons first rest ih =>
    -- the first one without an owner is the head, or the first one of the rest
    by_cases hfirst : c.Unowned first
    · exact ⟨[], first, rest, rfl, by simp, hfirst⟩
    · obtain ⟨path, hmem, hpath⟩ := h
      have hin : path ∈ rest := by
        rcases List.mem_cons.mp hmem with rfl | hin
        · exact absurd hpath hfirst
        · exact hin
      obtain ⟨before, path, after, rfl, hbefore, hpath⟩ := ih ⟨path, hin, hpath⟩
      refine ⟨first :: before, path, after, rfl, fun p hp => ?_, hpath⟩
      rcases List.mem_cons.mp hp with rfl | hp
      · exact hfirst
      · exact hbefore p hp

/-- So is the batch, at its first such path. -/
theorem classify_of_unowned {before after : List String} (hbefore : ∀ p ∈ before, ¬ c.Unowned p)
    (hpath : c.Unowned path) : c.classify (before ++ path :: after) = .error (.noUnit path) := by
  have howners : (before ++ path :: after).mapM c.owner = .error (.noUnit path) := by
    induction before with
    | nil =>
      rw [List.nil_append, List.mapM_cons, owner_of_unowned hpath]
      rfl
    | cons first rest ih =>
      -- the paths before it are owned, so the traversal comes as far as this one
      obtain ⟨o, ho⟩ := exists_owner (hbefore first List.mem_cons_self)
      rw [List.cons_append, List.mapM_cons, ho]
      show (List.mapM c.owner (rest ++ path :: after) >>= _) = _
      rw [ih fun p hp => hbefore p (List.mem_cons_of_mem _ hp)]
      rfl
  unfold classify
  rw [howners]
  rfl

/-- **A batch with a path that belongs to nothing is refused**: nothing is asked, and nothing is
changed but the phase. -/
theorem run_process_of_unowned {σ : Type} (engines : Job.Engines σ) {before after : List String}
    (hbefore : ∀ p ∈ before, ¬ c.Unowned p) (hpath : c.Unowned path) (s : Session × σ) :
    Job.run engines (c.process (before ++ path :: after)) s =
        (.error (.noUnit path), ({ s.1 with phase := .flushing }, s.2)) ∧
      Job.exchanges engines (c.process (before ++ path :: after)) s = [] := by
  have hclassify : Job.lift (c.classify (before ++ path :: after)) =
      Job.fail (.noUnit path) := congrArg Job.done (classify_of_unowned hbefore hpath)
  rw [process_eq, hclassify]
  exact ⟨rfl, rfl⟩

end Coordinator

/-- In a watch as it is started, the paths that are refused are the stray ones. -/
theorem stray_iff_unowned_of_start {σ : Type} {engines : Job.Engines σ} {config : Config}
    {plugins : Build.EnginePlugins} {entries extra : List FilePath} {s s' : Session × σ}
    {started : Started}
    (h : Job.run engines (start config plugins entries extra) s = (.ok started, s')) (path : String) :
    started.coordinator.Stray path ↔ started.coordinator.Unowned path := by
  unfold start at h
  obtain ⟨⟨registry, units⟩, s₁, hfound, h⟩ := Job.run_bind_eq_ok h
  obtain ⟨opened, s₂, -, h⟩ := Job.run_bind_eq_ok h
  obtain ⟨session, s₃, -, h⟩ := Job.run_bind_eq_ok h
  obtain ⟨request, s₄, -, h⟩ := Job.run_bind_eq_ok h
  obtain ⟨paths, s₅, -, h⟩ := Job.run_bind_eq_ok h
  have hstarted := Except.ok.inj (Prod.mk.inj h).1
  -- the registry was empty before, so it knows the units that were found and no others
  have hall : Registry.getAll s.1.disk entries [] = (registry, .ok units) := by
    unfold Build.findUnits at hfound
    obtain ⟨session, m, hsession, hfound⟩ := Job.run_bind_eq_ok hfound
    obtain ⟨hsame, rfl⟩ := Prod.mk.inj hsession
    obtain rfl := Except.ok.inj hsame
    obtain ⟨units', m, hunits, hfound⟩ := Job.run_bind_eq_ok hfound
    obtain ⟨hunits, -⟩ := Prod.mk.inj hunits
    obtain ⟨hregistry, rfl⟩ := Prod.mk.inj (Except.ok.inj (Prod.mk.inj hfound).1)
    exact Prod.ext hregistry hunits
  rw [← hstarted]
  refine Coordinator.stray_iff_unowned fun u => ?_
  rw [Registry.mem_getAll_iff hall u]
  simp

end Packwright.Watch
