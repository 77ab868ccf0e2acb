import Mathlib
import Packwright.Proofs.FirstOccurrence
import Packwright.Proofs.Resolving
import Packwright.Proofs.Unit.Loading
import Packwright.Unit.Lifetime

/-!
# What a registry keeps

However often a registry is asked, and whatever happens to the disk meanwhile, it holds one unit for
each entry that was ever given, in order of first use.

* `Kept` is what holds of a registry and the successes so far. `Kept.get` is the step: a unit that is
  given is either known, or loaded and put at the end.
* `getAll_eq_ok` and `getAll_eq_error` say what several entries in turn make known.
* `wellKept_run` is what holds after any run of requests.
-/

namespace Packwright

open Packwright.Traversal Packwright.FirstOccurrence

namespace Registry

variable {disk : Disk} {r r' : Registry} {entry key : FilePath} {u : BuildUnit}

/-! ## One entry -/

/-- What it takes to be given a unit: it is known, or it can be loaded and is known from now on. -/
theorem get_eq_ok_iff : r.get disk entry = .ok (r', u) ↔
    ∃ key, disk.resolve entry = .ok key ∧
      (r.find? key = some u ∧ r' = r ∨
        r.find? key = none ∧ BuildUnit.load disk key = .ok u ∧ r' = r ++ [u]) := by
  unfold get
  rw [bind_eq_ok_iff]
  refine exists_congr fun key => and_congr mapError_eq_ok_iff ?_
  -- a unit that is known is not loaded, whatever the disk says by now
  cases hfind : r.find? key with
  | some v =>
    simp only [reduceCtorEq, false_and, or_false, Option.some.injEq]
    constructor
    · intro h
      obtain ⟨rfl, rfl⟩ := Prod.mk.inj (Except.ok.inj h)
      exact ⟨rfl, rfl⟩
    · rintro ⟨rfl, rfl⟩
      rfl
  | none =>
    simp only [reduceCtorEq, false_and, false_or, true_and]
    rw [bind_eq_ok_iff]
    constructor
    · rintro ⟨v, hv, h⟩
      obtain ⟨rfl, rfl⟩ := Prod.mk.inj (Except.ok.inj h)
      exact ⟨hv, rfl⟩
    · rintro ⟨hload, rfl⟩
      exact ⟨u, hload, rfl⟩

/-- A unit that is found is registered, under the key that was asked for. -/
theorem mem_of_find?_eq_some (h : r.find? key = some u) : u ∈ r ∧ u.entry = key :=
  ⟨List.mem_of_find?_eq_some h, by simpa using List.find?_some h⟩

theorem find?_eq_none_iff : r.find? key = none ↔ ∀ u ∈ r, u.entry ≠ key := by
  simp [find?]

/-- No two units have the same entry, so a unit is found by its entry. -/
theorem find?_of_mem (hnodup : (r.map BuildUnit.entry).Nodup) (hu : u ∈ r) :
    r.find? u.entry = some u := by
  cases hfind : r.find? u.entry with
  | none => exact absurd rfl (find?_eq_none_iff.mp hfind u hu)
  | some v =>
    obtain ⟨hv, hentry⟩ := mem_of_find?_eq_some hfind
    rw [List.inj_on_of_nodup_map hnodup hv hu hentry]

/-! ## A registry and its successes -/

/-- What holds of a registry after some successes. -/
structure Kept (r : Registry) (given : List Success) : Prop where
  /-- It holds what was given, each unit once and in order of first success, by its entry. -/
  units_eq : (given.map fun s => (s.key, s.unit)).eraseDups = r.map fun u => (u.entry, u)
  /-- There is one unit for each entry. -/
  keys_eq : (given.map Success.key).eraseDups = r.map BuildUnit.entry
  /-- A unit is what was on the disk of its first success. -/
  loaded : ∀ u ∈ r, ∃ before s after, given = before ++ s :: after ∧ s.key = u.entry ∧
    (∀ earlier ∈ before, earlier.key ≠ s.key) ∧ BuildUnit.load s.disk s.key = .ok u

/-- The empty registry keeps what was never given out. -/
theorem kept_nil : Kept [] [] := by
  refine ⟨rfl, rfl, fun u hu => ?_⟩
  exact absurd hu List.not_mem_nil

variable {given : List Success}

theorem Kept.nodup (h : Kept r given) : (r.map BuildUnit.entry).Nodup :=
  h.keys_eq ▸ nodup_eraseDups _

/-- **Being given a unit**: a registry keeps the units that it knows, and a new one comes last. -/
theorem Kept.get (h : Kept r given) (hdisk : disk.Grounded) (hkey : disk.resolve entry = .ok key)
    (hget : r.get disk entry = .ok (r', u)) : Kept r' (given ++ [⟨disk, key, u⟩]) ∧ u.entry = key := by
  obtain ⟨key', hkey', hcases⟩ := get_eq_ok_iff.mp hget
  obtain rfl := Except.ok.inj (hkey'.symm.trans hkey)
  rcases hcases with ⟨hfind, rfl⟩ | ⟨hnone, hload, rfl⟩
  · obtain ⟨hu, rfl⟩ := mem_of_find?_eq_some hfind
    refine ⟨⟨?_, ?_, fun v hv => ?_⟩, rfl⟩
    · have hin : (u.entry, u) ∈ r'.map fun u => (u.entry, u) := List.mem_map.mpr ⟨u, hu, rfl⟩
      rw [List.map_append, List.map_singleton, ← concat_eraseDups, h.units_eq,
        if_pos (List.contains_iff_mem.mpr hin)]
    · have hin : u.entry ∈ r'.map BuildUnit.entry := List.mem_map_of_mem hu
      rw [List.map_append, List.map_singleton, ← concat_eraseDups, h.keys_eq,
        if_pos (List.contains_iff_mem.mpr hin)]
    · obtain ⟨before, s, after, rfl, hs⟩ := h.loaded v hv
      exact ⟨before, s, after ++ [_], List.append_assoc before (s :: after) _, hs⟩
  · have hentry : u.entry = key' :=
      Except.ok.inj ((BuildUnit.load_eq_ok_iff.mp hload).entry.symm.trans (Disk.resolve_resolve hdisk hkey))
    have hnew : key' ∉ r.map BuildUnit.entry := by
      intro hin
      obtain ⟨v, hv, heq⟩ := List.mem_map.mp hin
      exact find?_eq_none_iff.mp hnone v hv heq
    refine ⟨⟨?_, ?_, fun v hv => ?_⟩, hentry⟩
    · have hnot : (key', u) ∉ r.map fun u => (u.entry, u) := by
        intro hin
        obtain ⟨v, hv, heq⟩ := List.mem_map.mp hin
        exact find?_eq_none_iff.mp hnone v hv (Prod.mk.inj heq).1
      rw [List.map_append, List.map_singleton, ← concat_eraseDups, h.units_eq,
        if_neg (by simpa using hnot), List.map_append, List.map_singleton, hentry]
    · rw [List.map_append, List.map_singleton, ← concat_eraseDups, h.keys_eq,
        if_neg (by simpa using hnew), List.map_append, List.map_singleton, hentry]
    · rcases List.mem_append.mp hv with hold | hlast
      · obtain ⟨before, s, after, rfl, hs⟩ := h.loaded v hold
        exact ⟨before, s, after ++ [_], List.append_assoc before (s :: after) _, hs⟩
      · obtain rfl := List.mem_singleton.mp hlast
        refine ⟨given, ⟨disk, key', v⟩, [], rfl, hentry.symm, fun earlier hearlier heq => ?_, hload⟩
        -- no entry is known that was not given
        refine hnew ?_
        rw [← h.keys_eq, List.mem_eraseDups]
        exact List.mem_map.mpr ⟨earlier, hearlier, heq⟩

/-- An entry that fails has not been resolved, or its unit is not known and cannot be loaded. -/
theorem successes_of_error {rest : List FilePath} {e : Failure}
    (h : r.get disk entry = .error e) : successes disk (entry :: rest) r = [] := by
  rw [successes, h]
  cases disk.resolve entry <;> rfl

/-- A request that succeeds is one of the successes. -/
theorem successes_of_ok {rest : List FilePath} (hkey : disk.resolve entry = .ok key)
    (h : r.get disk entry = .ok (r', u)) :
    successes disk (entry :: rest) r = ⟨disk, key, u⟩ :: successes disk rest r' := by
  rw [successes, hkey, h]

/-- An entry that was given out has been resolved. -/
theorem exists_resolve_of_get (h : r.get disk entry = .ok (r', u)) :
    ∃ key, disk.resolve entry = .ok key := by
  obtain ⟨key, hkey, -⟩ := get_eq_ok_iff.mp h
  exact ⟨key, hkey⟩

/-- **Being given several units in turn**: it is the same for all that succeed. -/
theorem Kept.getAll (h : Kept r given) (hdisk : disk.Grounded) (entries : List FilePath) :
    Kept (getAll disk entries r).1 (given ++ successes disk entries r) := by
  induction entries generalizing r given with
  | nil =>
    rw [successes, List.append_nil]
    exact h
  | cons entry rest ih =>
    cases hget : r.get disk entry with
    | error e =>
      rw [successes_of_error hget, List.append_nil, Registry.getAll, hget]
      exact h
    | ok found =>
      obtain ⟨r', u⟩ := found
      -- the first request keeps the registry, and so do the others from there
      obtain ⟨key, hkey⟩ := exists_resolve_of_get hget
      have hrest := ih (h.get hdisk hkey hget).1
      rw [List.append_assoc, List.singleton_append] at hrest
      rw [successes_of_ok hkey hget, Registry.getAll, hget]
      exact hrest

/-! ## Several entries in turn -/

theorem prefix_of_get (h : r.get disk entry = .ok (r', u)) : r <+: r' := by
  obtain ⟨-, -, ⟨-, rfl⟩ | ⟨-, -, rfl⟩⟩ := get_eq_ok_iff.mp h
  · exact List.prefix_refl _
  · exact List.prefix_append _ _

/-- What it takes that some entries all succeed. -/
theorem getAll_cons_eq_ok_iff {rest : List FilePath} {found : List BuildUnit} :
    getAll disk (entry :: rest) r = (r', .ok found) ↔
      ∃ r₁ u others, r.get disk entry = .ok (r₁, u) ∧ getAll disk rest r₁ = (r', .ok others) ∧
        found = u :: others := by
  rw [Registry.getAll]
  cases hget : r.get disk entry with
  | error e => simp
  | ok first =>
    obtain ⟨r₁, u⟩ := first
    dsimp only
    cases hrest : getAll disk rest r₁ with
    | mk r₂ result =>
      cases result with
      | error e => simp [Except.map, hrest]
      | ok others =>
        constructor
        · intro h
          obtain ⟨rfl, hfound⟩ := Prod.mk.inj h
          exact ⟨r₁, u, others, rfl, hrest, (Except.ok.inj hfound).symm⟩
        · rintro ⟨r₃, v, others', hfirst, hall, rfl⟩
          obtain ⟨rfl, rfl⟩ := Prod.mk.inj (Except.ok.inj hfirst)
          obtain ⟨rfl, hothers⟩ := Prod.mk.inj (hrest.symm.trans hall)
          rw [Except.ok.inj hothers]
          rfl

/-- Entries that all succeed: the units are those of what the entries resolve to, and of the registry
these are new which were not there. -/
theorem getAll_eq_ok {entries : List FilePath} {found : List BuildUnit} (h : Kept r given)
    (hdisk : disk.Grounded) (hall : getAll disk entries r = (r', .ok found)) :
    List.Forall₂ (fun entry u => disk.resolve entry = .ok u.entry) entries found ∧ r <+: r' ∧
      r'.map BuildUnit.entry = (r.map BuildUnit.entry ++ found.map BuildUnit.entry).eraseDups := by
  induction entries generalizing r given found with
  | nil =>
    obtain ⟨rfl, hfound⟩ := Prod.mk.inj hall
    obtain rfl := Except.ok.inj hfound
    refine ⟨.nil, List.prefix_refl _, ?_⟩
    rw [List.map_nil, List.append_nil, eraseDups_of_nodup h.nodup]
  | cons entry rest ih =>
    obtain ⟨r₁, u, others, hget, hrest, rfl⟩ := getAll_cons_eq_ok_iff.mp hall
    obtain ⟨key, hkey⟩ := exists_resolve_of_get hget
    obtain ⟨hkept, rfl⟩ := h.get hdisk hkey hget
    obtain ⟨hresolved, hextends, hentries⟩ := ih hkept hrest
    refine ⟨.cons hkey hresolved, (prefix_of_get hget).trans hextends, ?_⟩
    -- the keys are those it had and the new one, in the order in which they first came
    have hfirst : r₁.map BuildUnit.entry = (r.map BuildUnit.entry ++ [u.entry]).eraseDups := by
      rw [← hkept.keys_eq, ← h.keys_eq, eraseDups_append_left, List.map_append]
      rfl
    rw [hentries, hfirst, eraseDups_append_left, List.append_assoc]
    rfl

/-- The units of entries that all succeed are known, and no others are new. -/
theorem mem_getAll_iff {entries : List FilePath} {found : List BuildUnit}
    (hall : getAll disk entries r = (r', .ok found)) (v : BuildUnit) :
    v ∈ r' ↔ v ∈ r ∨ v ∈ found := by
  induction entries generalizing r found with
  | nil =>
    obtain ⟨rfl, hfound⟩ := Prod.mk.inj hall
    obtain rfl := Except.ok.inj hfound
    simp
  | cons entry rest ih =>
    obtain ⟨r₁, u, others, hget, hrest, rfl⟩ := getAll_cons_eq_ok_iff.mp hall
    -- a request adds the unit that it gives out, unless it is there
    have hfirst : v ∈ r₁ ↔ v ∈ r ∨ v = u := by
      obtain ⟨key, -, ⟨hfind, rfl⟩ | ⟨-, -, rfl⟩⟩ := get_eq_ok_iff.mp hget
      · refine ⟨Or.inl, fun h => h.elim id fun heq => ?_⟩
        exact heq ▸ (mem_of_find?_eq_some hfind).1
      · simp
    rw [ih hrest, hfirst, List.mem_cons, or_assoc]

/-- Entries of which one fails: those before it have succeeded, and the registry is theirs. -/
theorem getAll_eq_error {entries : List FilePath} {e : Failure}
    (hall : getAll disk entries r = (r', .error e)) :
    ∃ before entry after found, entries = before ++ entry :: after ∧
      getAll disk before r = (r', .ok found) ∧ r'.get disk entry = .error e := by
  induction entries generalizing r with
  | nil => exact absurd (Prod.mk.inj hall).2 (by simp)
  | cons entry rest ih =>
    rw [Registry.getAll] at hall
    -- the induction is on the entries: this one fails, or one of the rest
    cases hget : r.get disk entry with
    | error cause =>
      rw [hget] at hall
      obtain ⟨rfl, hcause⟩ := Prod.mk.inj hall
      obtain rfl := Except.error.inj hcause
      exact ⟨[], entry, rest, [], rfl, rfl, hget⟩
    | ok first =>
      obtain ⟨r₁, u⟩ := first
      rw [hget] at hall
      dsimp only at hall
      cases hrest : getAll disk rest r₁ with
      | mk r₂ others =>
        rw [hrest] at hall
        obtain ⟨rfl, hfound⟩ := Prod.mk.inj hall
        cases others with
        | ok others => exact absurd hfound (by simp [Except.map])
        | error cause =>
          obtain rfl := Except.error.inj hfound
          obtain ⟨before, failing, after, found, rfl, hbefore, hfails⟩ := ih hrest
          have hlonger : getAll disk (entry :: before) r = (r₂, .ok (u :: found)) :=
            getAll_cons_eq_ok_iff.mpr ⟨r₁, u, found, hget, hbefore, rfl⟩
          exact ⟨entry :: before, failing, after, u :: found, rfl, hlonger, hfails⟩

/-! ## Looking units up -/

/-- Whether a unit is the first of a registry that fits, or there is none that does. -/
def IsFirst (fits : BuildUnit → Prop) (r : Registry) : Option BuildUnit → Prop
  | none => ∀ u ∈ r, ¬ fits u
  | some u => ∃ before after, r = before ++ u :: after ∧ fits u ∧ ∀ v ∈ before, ¬ fits v

/-- What is found is the first unit that fits, or none fits. -/
theorem isFirst_find? (fits : BuildUnit → Prop) [DecidablePred fits] (r : Registry) :
    IsFirst fits r (List.find? (fun u => fits u) r) := by
  cases hfind : List.find? (fun u => fits u) r with
  | none =>
    intro u hu
    simpa using List.find?_eq_none.mp hfind u hu
  | some u =>
    obtain ⟨hfits, before, after, rfl, hbefore⟩ := List.find?_eq_some_iff_append.mp hfind
    exact ⟨before, after, rfl, by simpa using hfits, fun v hv => by simpa using hbefore v hv⟩

/-! ## A whole course of requests -/

namespace Lifetime

variable {t : Lifetime}

/-- Every request keeps the registry; only two of them can add to it. -/
theorem kept_step (h : Kept t.registry t.given) (hdisk : t.disk.Grounded) (request : Request) :
    Kept (t.step request).registry (t.step request).given := by
  cases request with
  | get entry =>
    rw [step]
    cases hget : t.registry.get t.disk entry with
    | error e => exact h
    | ok found =>
      obtain ⟨r', u⟩ := found
      obtain ⟨key, hkey⟩ := exists_resolve_of_get hget
      dsimp only
      rw [successes_of_ok hkey hget]
      exact (h.get hdisk hkey hget).1
  | getAll entries => exact h.getAll hdisk entries
  | byRoot root => exact h
  | byName name => exact h
  | change disk => exact h

/-- A request leaves the disk as it is, or changes it to one that is sound as well. -/
theorem grounded_step (hdisk : t.disk.Grounded) {request : Request}
    (hchange : ∀ disk, request = .change disk → disk.Grounded) : (t.step request).disk.Grounded := by
  cases request with
  | get entry =>
    rw [step]
    split <;> exact hdisk
  | change disk => exact hchange disk rfl
  | _ => exact hdisk

/-- So any sequence of requests keeps the registry. -/
theorem kept_run (h : Kept t.registry t.given) (hdisk : t.disk.Grounded) {requests : List Request}
    (hchange : ∀ disk, .change disk ∈ requests → disk.Grounded) :
    Kept (t.run requests).registry (t.run requests).given := by
  induction requests generalizing t with
  | nil => exact h
  | cons request rest ih =>
    have hfirst : ∀ disk, request = .change disk → disk.Grounded := by
      rintro disk rfl
      exact hchange disk List.mem_cons_self
    exact ih (kept_step h hdisk request) (grounded_step hdisk hfirst) fun disk hmem =>
      hchange disk (List.mem_cons_of_mem _ hmem)

/-- What holds of a registry in use. -/
structure WellKept (t : Lifetime) : Prop extends Kept t.registry t.given where
  /-- Whatever has become of the disk, a unit that is known is given as it is, for every path that
  resolves to its entry. -/
  known : ∀ disk entry, ∀ u ∈ t.registry, disk.resolve entry = .ok u.entry →
    t.registry.get disk entry = .ok (t.registry, u)
  /-- A unit that is not known is given if it can be loaded, and comes last. -/
  added : ∀ disk entry key u, disk.Grounded → disk.resolve entry = .ok key →
    (∀ v ∈ t.registry, v.entry ≠ key) → BuildUnit.load disk key = .ok u →
      u.entry = key ∧ t.registry.get disk entry = .ok (t.registry ++ [u], u)
  /-- Nothing comes of a request that fails. -/
  failed : ∀ entry e, t.registry.get t.disk entry = .error e → t.step (.get entry) = t
  /-- Several entries of which one fails make known what those before it stand for. -/
  failed_in_turn : ∀ disk entries e, disk.Grounded → (getAll disk entries t.registry).2 = .error e →
    ∃ before entry after found, entries = before ++ entry :: after ∧
      (getAll disk entries t.registry).1.get disk entry = .error e ∧
      List.Forall₂ (fun entry u => disk.resolve entry = .ok u.entry) before found ∧
      t.registry <+: (getAll disk entries t.registry).1 ∧
      (getAll disk entries t.registry).1.map BuildUnit.entry =
        (t.registry.map BuildUnit.entry ++ found.map BuildUnit.entry).eraseDups
  /-- Looking a unit up finds the first that fits, and changes nothing. -/
  byRoot : ∀ root, IsFirst (fun u => u.root = root) t.registry (t.registry.byRoot root) ∧
    t.step (.byRoot root) = t
  byName : ∀ name, IsFirst (fun u => u.manifest.name = name) t.registry (t.registry.byName name) ∧
    t.step (.byName name) = t

/-- **Whatever a registry is asked, and whatever becomes of the disk meanwhile**, it holds one unit
for each entry that was ever given, in order of first success. -/
theorem wellKept_run {disk : Disk} (hdisk : disk.Grounded) {requests : List Request}
    (hchange : ∀ disk, .change disk ∈ requests → disk.Grounded) :
    WellKept ((initial disk).run requests) := by
  -- all the rest follows from the kept registry, on whatever disk
  have hkept : Kept ((initial disk).run requests).registry ((initial disk).run requests).given :=
    kept_run kept_nil hdisk hchange
  generalize (initial disk).run requests = t at hkept
  refine ⟨hkept, ?known, ?added, ?failed, ?failed_in_turn, ?byRoot, ?byName⟩
  case known =>
    intro disk entry u hu hkey
    exact get_eq_ok_iff.mpr ⟨u.entry, hkey, .inl ⟨find?_of_mem hkept.nodup hu, rfl⟩⟩
  case added =>
    intro disk entry key u hdisk hkey hnone hload
    have hget : t.registry.get disk entry = .ok (t.registry ++ [u], u) :=
      get_eq_ok_iff.mpr ⟨key, hkey, .inr ⟨find?_eq_none_iff.mpr hnone, hload, rfl⟩⟩
    exact ⟨(hkept.get hdisk hkey hget).2, hget⟩
  case failed =>
    intro entry e herror
    rw [step, herror]
  case failed_in_turn =>
    intro disk entries e hdisk herror
    obtain ⟨before, entry, after, found, hentries, hbefore, hfails⟩ :=
      getAll_eq_error (Prod.ext rfl herror)
    obtain ⟨hresolved, hextends, hnew⟩ := getAll_eq_ok hkept hdisk hbefore
    exact ⟨before, entry, after, found, hentries, hfails, hresolved, hextends, hnew⟩
  case byRoot => exact fun root => ⟨isFirst_find? _ t.registry, rfl⟩
  case byName => exact fun name => ⟨isFirst_find? _ t.registry, rfl⟩

/-- A disk with one unit, seen from the directory that the unit stands in. -/
def spoilableDisk (manifest : String) : Disk where
  entries := [(["w"], .directory), (["w", "u"], .directory), (["w", "u", "src"], .directory),
    (["w", "u", "package.json"], .file (Text.Utf8.encode manifest)),
    (["w", "u", "src", "index.ts"], .file [])]
  cwd := ["w"]

/-- The unit is asked for; its manifest is spoilt; it is asked for again, then with one that is not
there. -/
def spoilingRequests : List Request :=
  [.get (.ofString "u/src/index.ts"), .change (spoilableDisk ""),
    .get (.ofString "/w/u/test/../src/index.ts"),
    .getAll [.ofString "u/./src/index.ts", .ofString "v/src/index.ts"], .byName "u"]

theorem grounded_spoilableDisk (manifest : String) : (spoilableDisk manifest).Grounded :=
  Disk.isReal_concat Disk.isReal_nil (by decide) (by rw [Disk.holdsNull_eq]; decide) fun target => by
    simp [spoilableDisk, Disk.entry?, Dictionary.get?]

/-- A unit that is asked for again after its manifest was spoilt. -/
theorem wellKept_run_spoiltManifest :
    WellKept ((initial (spoilableDisk "\x7b\"name\":\"u\"\x7d")).run spoilingRequests) ∧
      ((initial (spoilableDisk "\x7b\"name\":\"u\"\x7d")).run spoilingRequests).registry.map
        BuildUnit.entry =
        [.ofLocation ["w", "u", "src", "index.ts"]] := by
  refine ⟨wellKept_run (grounded_spoilableDisk _) fun disk hmem => ?_, by cbv⟩
  have hdisk : disk = spoilableDisk "" := by simpa [spoilingRequests] using hmem
  exact hdisk ▸ grounded_spoilableDisk ""

end Lifetime

end Registry

end Packwright
