import Packwright.Channel.Bundler

/-!
# Plugins behind a channel

A plugin that the bundler calls through a channel answers as it would answer here.

* The bundler is told the position of every plugin that answers on this side, counted among all
  plugins (`map_hostIndex?_descriptors`).
* A call for a position is answered by the plugin that stands there, whatever stands before it
  (`target_of_position`).
* A call for nobody goes to a chain of the plugins of this side. To leave the others out makes no
  difference, since they never answer (`findSome?_filter_isHost`).
-/

namespace Packwright

/-! ## What the bundler is told -/

/-- The position in what the bundler is told of a plugin that answers on this side. -/
def Plugin.hostIndex? (descriptor : Value) : Option Int :=
  match descriptor.field? "kind", descriptor.field? "index" with
  | some (.text "host"), some (.int i) => some i
  | _, _ => none

/-- What the bundler is told of the plugins of a request. -/
def BundleRequest.announced (r : BundleRequest) : List Value :=
  match r.params.get? "plugins" with
  | some (.list descriptors) => descriptors
  | _ => []

namespace Plugin

/-- A plugin of the host is announced by its position, and one of the engine is not. -/
theorem hostIndex?_descriptor (n : Nat) (p : Plugin) :
    hostIndex? (descriptor n p) = if p.isHost then some (n : Int) else none := by
  cases p with
  | host plugin => rfl
  | engine name options => rfl

theorem getElem?_descriptors (plugins : List Plugin) (n : Nat) :
    (descriptors plugins)[n]? = plugins[n]?.map (descriptor n) :=
  List.getElem?_mapIdx

/-- The positions that are announced are those of the host's plugins in the whole chain. -/
theorem map_hostIndex?_descriptors (plugins : List Plugin) :
    (descriptors plugins).map hostIndex? =
      plugins.mapIdx fun n p => if p.isHost then some (n : Int) else none := by
  refine List.ext_getElem? fun n => ?_
  rw [List.getElem?_map, getElem?_descriptors, List.getElem?_mapIdx, Option.map_map]
  congr 1
  funext p
  exact hostIndex?_descriptor n p

/-- Who is told to stand at a position does stand there, and is told of at that position. -/
theorem of_hostIndex?_eq_some {plugins : List Plugin} {d : Value} {n : Nat} {i : Int}
    (hd : (descriptors plugins)[n]? = some d) (hi : hostIndex? d = some i) :
    i = n ∧ ∃ p, plugins[n]? = some (.host p) := by
  rw [getElem?_descriptors] at hd
  obtain ⟨p, hp, rfl⟩ := Option.map_eq_some_iff.mp hd
  rw [hostIndex?_descriptor] at hi
  cases p with
  | host plugin => exact ⟨(Option.some.inj hi).symm, plugin, hp⟩
  | engine name options => exact absurd hi (by simp [isHost])

/-! ## Who answers first -/

/-- The first answer of some plugins, in their order. -/
def FirstAnswer {α : Type} (plugins : List Plugin) (ask : Plugin → Option α) : Option α → Prop
  | none => ∀ p ∈ plugins, ask p = none
  | some answer => ∃ before p after, plugins = before ++ p :: after ∧ ask p = some answer ∧
      ∀ q ∈ before, ask q = none

/-- Searching the chain gives the first answer, or none if there is none. -/
theorem firstAnswer_findSome? {α : Type} (plugins : List Plugin) (ask : Plugin → Option α) :
    FirstAnswer plugins ask (plugins.findSome? ask) := by
  cases hfound : plugins.findSome? ask with
  | none => exact List.findSome?_eq_none_iff.mp hfound
  | some answer => exact List.findSome?_eq_some_iff.mp hfound

/-- To leave out who never answers leaves the first answer as it is. -/
theorem findSome?_filter_isHost {α : Type} (plugins : List Plugin) {ask : Plugin → Option α}
    (hask : ∀ p, p.isHost = false → ask p = none) :
    (plugins.filter isHost).findSome? ask = plugins.findSome? ask := by
  induction plugins with
  | nil => rfl
  | cons p rest ih =>
    cases hp : p.isHost with
    | true => rw [List.filter_cons_of_pos hp, List.findSome?_cons, List.findSome?_cons, ih]
    | false =>
      have hnot : ¬ p.isHost = true := by simp [hp]
      rw [List.filter_cons_of_neg hnot, List.findSome?_cons, hask p hp, ih]

/-- A plugin of the engine resolves nothing in the process. -/
theorem resolve_of_not_isHost {p : Plugin} (h : p.isHost = false) (store : Store)
    (specifier : String) (importer? : Option String) :
    p.resolve store specifier importer? = none := by
  cases p with
  | host plugin => exact absurd h (by simp [isHost])
  | engine name options => rfl

/-- A plugin of the engine loads nothing in the process. -/
theorem load_of_not_isHost {p : Plugin} (h : p.isHost = false) (store : Store) (path : String) :
    p.load store path = none := by
  cases p with
  | host plugin => exact absurd h (by simp [isHost])
  | engine name options => rfl

/-- A chain of the plugins of this side answers as a chain of all plugins does. -/
theorem chain_filter_isHost (plugins : List Plugin) :
    chain (plugins.filter isHost) = chain plugins := by
  have hresolve : resolveFirst (plugins.filter isHost) = resolveFirst plugins := by
    funext store specifier importer?
    exact findSome?_filter_isHost plugins fun p hp =>
      resolve_of_not_isHost hp store specifier importer?
  have hload : loadFirst (plugins.filter isHost) = loadFirst plugins := by
    funext store path
    exact findSome?_filter_isHost plugins fun p hp => load_of_not_isHost hp store path
  rw [chain, chain, hresolve, hload]

end Plugin

/-! ## Calls of the bundler -/

namespace BundlerHost

variable {σ : Type} (h : BundlerHost σ) (r : BundleRequest)

def answer? (name : String) (params : Value.Fields) (s : σ) : Option (Except Failure Value × σ) :=
  ((h.handlers r).get? name).map fun handler => handler params s

/-- Whether a call is answered, in both its forms, with what a plugin answers here to the same
arguments; the state of the host is left as it is. -/
def AnswersLike (params : Value.Fields) (p : Plugin) : Prop :=
  ∀ s : σ,
    h.answer? r "resolve" params s =
        some (.ok (.ofText? (p.resolve (h.store s) (Value.textAt params "specifier")
          ((params.get? "importer").bind Value.text?))), s) ∧
      h.answer? r "load" params s =
        some (.ok (ofLoaded (p.load (h.store s) (Value.textAt params "path"))), s)

theorem answersLike_target (params : Value.Fields) : h.AnswersLike r params (target r params) :=
  fun _ => ⟨rfl, rfl⟩

variable {r}

/-- A call with a position means the plugin there. -/
theorem target_of_position {n : Nat} {p : Plugin} (hp : r.plugins[n]? = some p)
    {params : Value.Fields} (hparams : params.get? "plugin" = some (.int n)) :
    target r params = p := by
  have hposition : position? (.int n) = some n := by
    show (if (n : Int) < 0 then none else some (n : Int).toNat) = some n
    rw [if_neg (by omega), Int.toNat_natCast]
  unfold target
  rw [hparams, Option.bind_some, hposition, Option.bind_some, hp, Option.getD_some]

/-- A call without a position means the chain. The engine's plugins answer nothing in it, so they
need not be left out. -/
theorem target_of_none {params : Value.Fields} (hparams : params.get? "plugin" = none) :
    target r params = .chain r.plugins := by
  unfold target
  rw [hparams, Option.bind_none, Option.bind_none, Option.getD_none, Plugin.chain_filter_isHost]

/-- Two modules that are loaded differ in the value that is sent for them. -/
theorem ofLoaded_injective : Function.Injective ofLoaded := by
  intro a b hab
  match a, b with
  | none, none => rfl
  | none, some m => exact absurd hab (by simp [ofLoaded])
  | some m, none => exact absurd hab (by simp [ofLoaded])
  | some ⟨code, map?⟩, some ⟨code', map?'⟩ =>
    cases map? <;> cases map?' <;> simp_all [ofLoaded, Value.ofText?]

/-- Plugins that answer through a channel as they would answer here. -/
structure ActsInProcess (h : BundlerHost σ) (r : BundleRequest) : Prop where
  /-- The bundler is told the position of every plugin of this side, and no other position. -/
  announced : r.announced.map Plugin.hostIndex? =
    r.plugins.mapIdx fun n p => if p.isHost then some (n : Int) else none
  distinct : ∀ (m n : Nat) (d e : Value) (i : Int), r.announced[m]? = some d →
    r.announced[n]? = some e → Plugin.hostIndex? d = some i → Plugin.hostIndex? e = some i → m = n
  called : ∀ d ∈ r.announced, ∀ i, Plugin.hostIndex? d = some i →
    0 ≤ i ∧ ∃ p, r.plugins[i.toNat]? = some (.host p) ∧
      ∀ params : Value.Fields, params.get? "plugin" = some (.int i) →
        h.AnswersLike r params (.host p)
  uncalled : ∀ params : Value.Fields, params.get? "plugin" = none →
    h.AnswersLike r params (.chain r.plugins)
  /-- Nothing is lost of a loaded module when the bundler is told of it. -/
  faithful : Function.Injective ofLoaded
  first : ∀ store specifier importer? path,
    Plugin.FirstAnswer r.plugins (fun p => p.resolve store specifier importer?)
        ((Plugin.chain r.plugins).resolve store specifier importer?) ∧
      Plugin.FirstAnswer r.plugins (fun p => p.load store path)
        ((Plugin.chain r.plugins).load store path)

/-- **Plugins act through a channel as they act here**, in whatever order those of either side
stand. -/
theorem actsInProcess (h : BundlerHost σ) (r : BundleRequest) : h.ActsInProcess r where
  announced := Plugin.map_hostIndex?_descriptors r.plugins
  distinct m n d e i hd he hdi hei := by
    have hm := (Plugin.of_hostIndex?_eq_some hd hdi).1
    have hn := (Plugin.of_hostIndex?_eq_some he hei).1
    omega
  -- a position that is announced is that of a plugin, which the call means then
  called d hd i hi := by
    obtain ⟨n, hn⟩ := List.mem_iff_getElem?.mp hd
    obtain ⟨rfl, p, hp⟩ := Plugin.of_hostIndex?_eq_some hn hi
    refine ⟨Int.natCast_nonneg n, p, hp, fun params hparams => ?_⟩
    rw [← target_of_position hp hparams]
    exact h.answersLike_target r params
  uncalled params hparams := by
    rw [← target_of_none hparams]
    exact h.answersLike_target r params
  faithful := ofLoaded_injective
  first store specifier importer? path :=
    ⟨Plugin.firstAnswer_findSome? _ _, Plugin.firstAnswer_findSome? _ _⟩

end BundlerHost

end Packwright
