import Packwright.Proofs.Store.Pending
import Packwright.Store.Course

/-!
# What a store delivers

Whatever happens to a reactor, and however its watchers meddle while they are handed a batch: what
has changed is pending until a flush takes it, and what a flush takes goes to everybody who has
joined before it.

* `step_cases` says what a move does, once for all that is shown of runs.
* `Sound` is what holds between any two pieces of work. There is one lemma for each piece, and
  `sound_run` is the induction.
* `Armed` is what holds besides as long as the clock runs.
* `delivers_run` reads off what this means.
-/

namespace Packwright.Reactor

/-! ## Histories that grow -/

/-- Where an element stands in a list with one more element at its end. -/
theorem concat_eq_append_cons {α : Type} {l before after : List α} {a b : α}
    (h : l ++ [a] = before ++ b :: after) :
    (l = before ∧ a = b ∧ after = []) ∨ ∃ earlier, after = earlier ++ [a] ∧ l = before ++ b :: earlier := by
  rcases after.eq_nil_or_concat' with rfl | ⟨earlier, last, rfl⟩
  · obtain ⟨rfl, hlast⟩ := List.append_inj' h rfl
    exact .inl ⟨rfl, (List.cons.inj hlast).1, rfl⟩
  · rw [← List.cons_append, ← List.append_assoc] at h
    obtain ⟨rfl, hlast⟩ := List.append_inj' h rfl
    obtain ⟨rfl, -⟩ := List.cons.inj hlast
    exact .inr ⟨earlier, rfl, rfl⟩

/-- One more event adds at most one entry to what is read off a history. -/
theorem filterMap_concat {α β : Type} (f : α → Option β) (l : List α) (a : α) :
    (l ++ [a]).filterMap f = l.filterMap f ++ (f a).toList := by
  rw [List.filterMap_append, List.filterMap_cons, List.filterMap_nil]
  cases f a <;> rfl

namespace History

variable (h : History) (e : Event)

@[simp] theorem names_concat : names (h ++ [e]) = names h ++ e.joined?.toList :=
  filterMap_concat _ h e

@[simp] theorem swaps_concat : swaps (h ++ [e]) = swaps h ++ e.swapped?.toList :=
  filterMap_concat _ h e

/-- Only a delivery of that very swap adds to what the swap has handed out. -/
@[simp] theorem handedBy_concat (swap : Nat) :
    handedBy (h ++ [e]) swap = handedBy h swap ++ (e.handedBy? swap).toList :=
  filterMap_concat _ h e

theorem sinceSwap_concat_of_isSwap (he : e.isSwap = true) : sinceSwap (h ++ [e]) = [] := by
  rw [sinceSwap, List.rtakeWhile_concat, he]
  rfl

theorem sinceSwap_concat_of_not_isSwap (he : e.isSwap = false) :
    sinceSwap (h ++ [e]) = sinceSwap h ++ [e] := by
  rw [sinceSwap, List.rtakeWhile_concat, he]
  rfl

theorem unswapped_concat_of_isSwap (he : e.isSwap = true) : unswapped (h ++ [e]) = [] := by
  rw [unswapped, sinceSwap_concat_of_isSwap h e he]
  rfl

/-- Any other event leaves waiting what waited, with its own path behind it if it is a change. -/
theorem unswapped_concat_of_not_isSwap (he : e.isSwap = false) :
    unswapped (h ++ [e]) = unswapped h ++ e.changed?.toList := by
  rw [unswapped, sinceSwap_concat_of_not_isSwap h e he]
  exact filterMap_concat _ _ e

/-- Only a swap makes something to hand out: what it takes, for everybody. -/
theorem handoutsOf_concat (swap : Nat) :
    handoutsOf (h ++ [e]) swap =
      match e.swapped? with
      | none => handoutsOf h swap
      | some (batch, watchers) =>
        if swap = (swaps h).length then watchers.map fun w => (w, batch) else handoutsOf h swap := by
  rw [handoutsOf, swaps_concat]
  cases e.swapped? with
  | none => rw [Option.toList_none, List.append_nil]; rfl
  | some taken =>
    by_cases hn : swap = (swaps h).length
    · rw [hn, Option.toList_some, List.getElem?_concat_length]
      simp
    · rw [Option.toList_some, List.getElem?_append]
      simp only [hn, if_false]
      -- an older swap keeps its handouts; a number past the new one has none
      by_cases hlt : swap < (swaps h).length
      · rw [if_pos hlt]; rfl
      · have hnone : [taken][swap - (swaps h).length]? = none := by
          rw [List.getElem?_eq_none_iff, List.length_singleton]
          omega
        rw [if_neg hlt, hnone, handoutsOf, List.getElem?_eq_none (by omega)]

/-- A swap that has not been made hands nothing out. -/
theorem handoutsOf_of_length_le {swap : Nat} (hle : (swaps h).length ≤ swap) :
    handoutsOf h swap = [] := by
  rw [handoutsOf, List.getElem?_eq_none hle]

/-- Who is handed something makes the next of the deliveries. -/
theorem deliveries_concat (hjoined : e.joined? = none) :
    deliveries (h ++ [e]) =
      deliveries h ++ (e.handed?.map fun p => ((names h).getD p.1 "", p.2)).toList := by
  rw [deliveries, filterMap_concat, names_concat, hjoined, List.map_append]
  cases e.handed? <;> simp [deliveries]

/-- What was handed out stays the same when others join, as long as it went to those who had. -/
theorem deliveries_concat_joined (name : String)
    (hknown : ∀ w batch, (w, batch) ∈ h.filterMap Event.handed? → w < (names h).length) :
    deliveries (h ++ [.joined name]) = deliveries h := by
  rw [deliveries, filterMap_concat, names_concat]
  simp only [Event.handed?, Event.joined?, Option.toList_none, Option.toList_some, List.append_nil]
  refine List.map_congr_left fun ⟨w, batch⟩ hmem => ?_
  have hlt := hknown w batch hmem
  simp only [List.getD_eq_getElem?_getD, List.getElem?_append_left hlt]

/-- Each swap takes, for everybody who has joined before it, what has changed since the one before,
and that is something. -/
def SwapsTakeAll : Prop :=
  ∀ before batch watchers after, h = before ++ .swapped batch watchers :: after →
    batch ≠ [] ∧ batch = (unswapped before).eraseDups ∧ watchers = List.range (names before).length

variable {h e}

/-- A new event keeps the rule of the swaps if it is no swap, or takes all that waits to all who
have joined. -/
theorem SwapsTakeAll.concat (hall : SwapsTakeAll h)
    (hnew : ∀ batch watchers, e = .swapped batch watchers →
      batch ≠ [] ∧ batch = (unswapped h).eraseDups ∧ watchers = List.range (names h).length) :
    SwapsTakeAll (h ++ [e]) := by
  intro before batch watchers after heq
  rcases concat_eq_append_cons heq with ⟨rfl, he, -⟩ | ⟨earlier, -, hold⟩
  · exact hnew batch watchers he
  · exact hall before batch watchers earlier hold

/-- A handout is due because of a swap in the history that had this batch and this watcher. -/
theorem exists_swapped_of_mem_handoutsOf {swap w : Nat} {batch : Batch}
    (hmem : (w, batch) ∈ handoutsOf h swap) :
    ∃ before watchers after, h = before ++ .swapped batch watchers :: after ∧ w ∈ watchers := by
  rw [handoutsOf] at hmem
  split at hmem
  · exact absurd hmem (by simp)
  · rename_i taken watchers hget
    obtain ⟨v, hv, heq⟩ := List.mem_map.mp hmem
    obtain ⟨rfl, rfl⟩ := Prod.mk.inj heq
    obtain ⟨e, he, hswap⟩ := List.mem_filterMap.mp (List.mem_of_getElem? hget)
    obtain ⟨before, after, rfl⟩ := List.append_of_mem he
    cases e with
    | swapped batch' watchers' =>
      obtain ⟨rfl, rfl⟩ := Prod.mk.inj (Option.some.inj hswap)
      exact ⟨before, _, after, rfl, hv⟩
    | _ => exact absurd hswap (by simp [Event.swapped?])

/-- What has been or is to be handed out goes to somebody who has joined, and is something. -/
theorem SwapsTakeAll.of_mem_handoutsOf (hall : SwapsTakeAll h) {swap w : Nat} {batch : Batch}
    (hmem : (w, batch) ∈ handoutsOf h swap) : w < (names h).length ∧ batch ≠ [] := by
  obtain ⟨before, watchers, after, rfl, hw⟩ := exists_swapped_of_mem_handoutsOf hmem
  obtain ⟨hne, -, rfl⟩ := hall before batch watchers after rfl
  have hlt := List.mem_range.mp hw
  refine ⟨?_, hne⟩
  rw [names, List.filterMap_append, List.length_append]
  exact Nat.lt_of_lt_of_le hlt (Nat.le_add_right _ _)

end History

/-! ## Pieces of work -/

namespace Course

open History

variable {c : Course}

/-- What holds between any two pieces of work. -/
structure Sound (c : Course) : Prop where
  watchers_eq : c.reactor.feed.watchers = List.range c.history.names.length
  names_eq : c.reactor.watchers.map Watcher.name = c.history.names
  pending_eq : c.reactor.feed.store.pending = c.history.unswapped.eraseDups
  swaps_eq : c.history.SwapsTakeAll
  handed_eq : ∀ swap,
    c.history.handedBy swap ++ outstanding c.agenda swap = c.history.handoutsOf swap
  delivered_eq : c.reactor.delivered = c.history.deliveries

/-- A course begins sound. -/
theorem sound_initial (debounce : Nat) : Sound (initial debounce) where
  watchers_eq := rfl
  names_eq := rfl
  pending_eq := rfl
  swaps_eq before batch watchers after heq := by simp [initial] at heq
  handed_eq swap := rfl
  delivered_eq := rfl

/-- Whoever was or is to be handed something has joined, and it is not empty. -/
theorem Sound.of_handed (h : Sound c) {swap w : Nat} {batch : Batch}
    (hmem : (w, batch) ∈ c.history.handedBy swap ∨ (w, batch) ∈ outstanding c.agenda swap) :
    w < c.history.names.length ∧ batch ≠ [] := by
  have hmade : (w, batch) ∈ c.history.handoutsOf swap := by
    rw [← h.handed_eq swap]
    exact List.mem_append.mpr hmem
  exact h.swaps_eq.of_mem_handoutsOf hmade

/-- Each delivery goes to a watcher that has joined, with a batch that is not empty. -/
theorem Sound.of_mem_handed (h : Sound c) {w : Nat} {batch : Batch}
    (hmem : (w, batch) ∈ c.history.filterMap Event.handed?) :
    w < c.history.names.length ∧ batch ≠ [] := by
  obtain ⟨e, he, hhanded⟩ := List.mem_filterMap.mp hmem
  cases e with
  | handed swap w' batch' =>
    obtain ⟨rfl, rfl⟩ := Prod.mk.inj (Option.some.inj hhanded)
    have hhand : (w', batch') ∈ c.history.handedBy swap :=
      List.mem_filterMap.mpr ⟨_, he, by simp [Event.handedBy?]⟩
    exact h.of_handed (.inl hhand)
  | _ => exact absurd hhanded (by simp [Event.handed?])

/-- Commands on the agenda are no handouts. -/
theorem outstanding_perform (swap n : Nat) (commands : List Command) (rest : List (Nat × Task)) :
    outstanding ((commands.map Task.perform).map (n, ·) ++ rest) swap = outstanding rest swap := by
  rw [outstanding, List.filterMap_append, List.map_map, List.filterMap_map]
  have hnone : commands.filterMap (handout? swap ∘ (n, ·) ∘ Task.perform) = [] := by
    rw [List.filterMap_eq_nil_iff]
    exact fun _ _ => rfl
  rw [hnone, List.nil_append, outstanding]

/-- The work that a swap makes is outstanding for it and for no other swap. -/
theorem outstanding_deliver (swap n : Nat) (watchers : List Nat) (batch : Batch)
    (rest : List (Nat × Task)) :
    outstanding (((watchers.map fun w => (w, batch)).map fun (w, batch) =>
        Task.deliver w batch).map (n, ·) ++ rest) swap =
      (if swap = n then watchers.map fun w => (w, batch) else []) ++ outstanding rest swap := by
  rw [outstanding, List.filterMap_append, List.map_map, List.map_map, List.filterMap_map, outstanding]
  congr 1
  by_cases hn : swap = n
  · subst hn
    rw [if_pos rfl, ← List.filterMap_eq_map]
    refine List.filterMap_congr fun w _ => ?_
    simp [handout?]
  · rw [if_neg hn, List.filterMap_eq_nil_iff]
    intro w _
    simp [handout?, Ne.symm hn]

/-- A write: a change is noted, and nothing else matters. -/
theorem Sound.write (h : Sound c) {n : Nat} {path content : String} {rest : List (Nat × Task)}
    (hagenda : c.agenda = (n, .perform (.write path content)) :: rest) (clock? : Option Nat) :
    Sound (c.work clock?) := by
  obtain ⟨r, agenda, history⟩ := c
  subst hagenda
  -- the handouts are not touched by a write: the task was none, and none is added
  have hhanded : ∀ swap, handedBy history swap ++ outstanding rest swap = handoutsOf history swap :=
    fun swap => by rw [← h.handed_eq swap]; rfl
  have hwatchers : (r.feed.write clock? path content).watchers = List.range (names history).length := by
    rw [Feed.watchers_write]
    exact h.watchers_eq
  have hpending : r.feed.store.pending = (unswapped history).eraseDups := h.pending_eq
  unfold work
  dsimp only [Reactor.step, Reactor.perform, told]
  rw [List.map_nil, List.nil_append]
  -- a change is the only write that tells something
  cases hc : r.feed.store.isChange path content with
  | true =>
    rw [if_pos rfl]
    constructor
    case watchers_eq => simpa [Event.joined?] using hwatchers
    case names_eq => simpa [Event.joined?] using h.names_eq
    case pending_eq =>
      rw [unswapped_concat_of_not_isSwap _ _ rfl, Feed.store_write, Store.write_of_isChange hc]
      exact (congrArg (Store.addOnce · _) hpending).trans (Store.addOnce_eraseDups _ _)
    case swaps_eq => exact h.swaps_eq.concat fun _ _ heq => by simp at heq
    case handed_eq =>
      intro swap
      rw [handedBy_concat, handoutsOf_concat]
      simpa [Event.handedBy?, Event.swapped?] using hhanded swap
    case delivered_eq =>
      rw [deliveries_concat _ _ rfl]
      simpa [Event.handed?] using h.delivered_eq
  | false =>
    rw [if_neg Bool.false_ne_true, List.append_nil]
    refine ⟨hwatchers, h.names_eq, ?_, h.swaps_eq, hhanded, h.delivered_eq⟩
    rw [Feed.store_write, (Store.write_of_not_isChange hc).2]
    exact hpending

/-- A flush takes all that is pending, if there is something, for everybody who has joined. -/
theorem Sound.flush (h : Sound c) {n : Nat} {rest : List (Nat × Task)}
    (hagenda : c.agenda = (n, .perform .flush) :: rest) (clock? : Option Nat) :
    Sound (c.work clock?) := by
  obtain ⟨r, agenda, history⟩ := c
  subst hagenda
  have hhanded : ∀ swap, handedBy history swap ++ outstanding rest swap = handoutsOf history swap :=
    fun swap => by rw [← h.handed_eq swap]; rfl
  unfold work
  dsimp only [Reactor.step, Reactor.perform, told]
  by_cases hpending : r.feed.store.pending = []
  · rw [Feed.flush_of_nil hpending, if_pos hpending, List.append_nil]
    exact ⟨h.watchers_eq, h.names_eq, h.pending_eq, h.swaps_eq, hhanded, h.delivered_eq⟩
  · rw [Feed.flush_of_ne hpending, if_neg hpending]
    constructor
    case watchers_eq => simpa [Event.joined?] using h.watchers_eq
    case names_eq => simpa [Event.joined?] using h.names_eq
    case pending_eq =>
      rw [unswapped_concat_of_isSwap _ _ rfl]
      rfl
    case swaps_eq =>
      refine h.swaps_eq.concat fun batch watchers heq => ?_
      obtain ⟨rfl, rfl⟩ := Event.swapped.inj heq
      exact ⟨hpending, h.pending_eq, h.watchers_eq⟩
    case handed_eq =>
      intro swap
      dsimp only
      rw [handedBy_concat, handoutsOf_concat, outstanding_deliver]
      simp only [Event.handedBy?, Event.swapped?, Option.toList_none, List.append_nil]
      by_cases hswap : swap = (swaps history).length
      · -- nothing was handed out on account of this swap before it was made
        have hnone := (hhanded swap).trans (handoutsOf_of_length_le history (Nat.le_of_eq hswap.symm))
        obtain ⟨hbefore, hafter⟩ := List.append_eq_nil_iff.mp hnone
        rw [if_pos hswap, if_pos hswap, hbefore, hafter, List.nil_append, List.append_nil]
      · rw [if_neg hswap, if_neg hswap, List.nil_append]
        exact hhanded swap
    case delivered_eq =>
      rw [deliveries_concat _ _ rfl]
      simpa [Event.handed?] using h.delivered_eq

/-- Somebody joins, and is handed what is taken from now on. -/
theorem Sound.watch (h : Sound c) {n : Nat} {name : String} {reactions : List (List Command)}
    {rest : List (Nat × Task)} (hagenda : c.agenda = (n, .perform (.watch name reactions)) :: rest)
    (clock? : Option Nat) : Sound (c.work clock?) := by
  -- who was handed a batch had joined before, so it is not the one that joins now
  have hknown : ∀ w batch, (w, batch) ∈ c.history.filterMap Event.handed? →
      w < c.history.names.length := by
    intro w batch hmem
    exact (h.of_mem_handed hmem).1
  obtain ⟨r, agenda, history⟩ := c
  subst hagenda
  have hnames : r.watchers.map Watcher.name = names history := h.names_eq
  have hlength : r.watchers.length = (names history).length := by
    rw [← hnames, List.length_map]
  unfold work
  dsimp only [Reactor.step, Reactor.perform, told]
  rw [List.map_nil, List.nil_append]
  constructor
  case watchers_eq =>
    have hold : r.feed.watchers = List.range (names history).length := h.watchers_eq
    dsimp only [Feed.watch]
    rw [hold, hlength, names_concat, List.length_append, ← List.range_succ]
    rfl
  case names_eq =>
    rw [List.map_append, hnames, names_concat]
    rfl
  case pending_eq =>
    rw [unswapped_concat_of_not_isSwap _ _ rfl]
    simpa [Event.changed?, Feed.watch] using h.pending_eq
  case swaps_eq => exact h.swaps_eq.concat fun _ _ heq => by simp at heq
  case handed_eq =>
    intro swap
    rw [handedBy_concat, handoutsOf_concat]
    have hold : handedBy history swap ++ outstanding rest swap = handoutsOf history swap := by
      rw [← h.handed_eq swap]; rfl
    simpa [Event.handedBy?, Event.swapped?] using hold
  case delivered_eq =>
    rw [deliveries_concat_joined _ _ hknown]
    exact h.delivered_eq

/-- Handing out a batch leaves the feed alone, until the watcher does something about it. -/
theorem feed_deliver (r : Reactor) (w : Nat) (batch : Batch) : (r.deliver w batch).1.feed = r.feed := by
  unfold deliver
  split
  · rfl
  · dsimp only
    split <;> rfl

/-- What a watcher that has joined does when it is handed a batch: whatever it does is a list of
commands, and its name stays what it is. -/
theorem deliver_eq {r : Reactor} {w : Nat} (hw : w < r.watchers.length) (batch : Batch) :
    ∃ (watchers : List Watcher) (commands : List Command), r.deliver w batch =
        ({ r with
            watchers := watchers
            delivered := r.delivered ++ [((r.watchers.map Watcher.name).getD w "", batch)] },
          commands.map .perform) ∧
      watchers.map Watcher.name = r.watchers.map Watcher.name := by
  have hget : r.watchers[w]? = some r.watchers[w] := List.getElem?_eq_getElem hw
  have hname : (r.watchers.map Watcher.name).getD w "" = r.watchers[w].name := by
    simp [List.getD_eq_getElem?_getD, hget]
  unfold deliver
  rw [hget, hname]
  dsimp only
  -- a watcher without reactions left answers nothing; the others give up their first reaction
  split
  · exact ⟨r.watchers, [], rfl, rfl⟩
  · rename_i commands later _
    refine ⟨_, commands, rfl, List.ext_getElem? fun i => ?_⟩
    by_cases hi : w = i
    · subst hi
      simp [hw]
    · simp [hi]

/-- A watcher is handed a batch: it is outstanding no more, and what the watcher does about it is
still to be done. -/
theorem Sound.deliver (h : Sound c) {n w : Nat} {batch : Batch} {rest : List (Nat × Task)}
    (hagenda : c.agenda = (n, .deliver w batch) :: rest) (clock? : Option Nat) :
    Sound (c.work clock?) := by
  have houtstanding : (w, batch) ∈ outstanding c.agenda n := by
    rw [hagenda, outstanding]
    exact List.mem_filterMap.mpr ⟨_, List.mem_cons_self, by simp [handout?]⟩
  have hknown := (h.of_handed (.inr houtstanding)).1
  obtain ⟨r, agenda, history⟩ := c
  subst hagenda
  have hnames : r.watchers.map Watcher.name = names history := h.names_eq
  obtain ⟨watchers, commands, heq, hsame⟩ :=
    deliver_eq (r := r) (w := w) (by rw [← List.length_map (f := Watcher.name), hnames]; exact hknown)
      batch
  unfold work
  dsimp only [Reactor.step, told]
  rw [heq]
  constructor
  case watchers_eq => simpa [Event.joined?] using h.watchers_eq
  case names_eq => simpa [Event.joined?, hsame] using hnames
  case pending_eq =>
    rw [unswapped_concat_of_not_isSwap _ _ rfl]
    simpa [Event.changed?] using h.pending_eq
  case swaps_eq => exact h.swaps_eq.concat fun _ _ heq => by simp at heq
  case handed_eq =>
    intro swap
    have hold := h.handed_eq swap
    dsimp only at hold ⊢
    -- what was first on the agenda is now last among what has been handed out
    rw [handedBy_concat, handoutsOf_concat, outstanding_perform, ← hold, List.append_assoc]
    by_cases hn : n = swap
    · simp [Event.handedBy?, Event.swapped?, outstanding, handout?, hn]
    · simp [Event.handedBy?, Event.swapped?, outstanding, handout?, hn]
  case delivered_eq =>
    have hold : r.delivered = deliveries history := h.delivered_eq
    rw [deliveries_concat _ _ rfl, hold, hnames]
    rfl

/-! ## A whole run -/

/-- One task from the agenda keeps the course sound, one lemma for each kind of task. -/
theorem Sound.work (h : Sound c) (clock? : Option Nat) : Sound (c.work clock?) := by
  cases hagenda : c.agenda with
  | nil =>
    have hsame : c.work clock? = c := by rw [Course.work, hagenda]
    rw [hsame]
    exact h
  | cons first rest =>
    obtain ⟨n, task⟩ := first
    cases task with
    | perform command =>
      cases command with
      | write path content => exact h.write hagenda clock?
      | flush => exact h.flush hagenda clock?
      | watch name reactions => exact h.watch hagenda clock?
    | deliver w batch => exact h.deliver hagenda clock?

/-- New work that hands nothing out may be put on an empty agenda. -/
theorem Sound.begin (h : Sound c) (hempty : c.agenda = []) (command : Command) :
    Sound { c with agenda := [(0, .perform command)] } where
  watchers_eq := h.watchers_eq
  names_eq := h.names_eq
  pending_eq := h.pending_eq
  swaps_eq := h.swaps_eq
  handed_eq swap := by
    have hold := h.handed_eq swap
    rw [hempty] at hold
    exact hold
  delivered_eq := h.delivered_eq

/-- What a move does: it puts a command on an empty agenda, which is a flush unless it was asked for,
or it is a piece of work, or it does nothing. -/
theorem step_cases (c : Course) (move : Move) :
    (∃ command, c.agenda = [] ∧ (move = .ask command ∨ command = .flush) ∧
        c.step move = { c with agenda := [(0, .perform command)] }) ∨
      (∃ clock?, move = .work clock? ∧ c.step move = c.work clock?) ∨
      c.step move = c := by
  cases move with
  | ask command =>
    rw [step]
    split
    · exact .inl ⟨command, ‹_›, .inl rfl, rfl⟩
    · exact .inr (.inr rfl)
  | fire now =>
    rw [step]
    split
    · exact .inl ⟨.flush, And.left ‹_›, .inr rfl, rfl⟩
    · exact .inr (.inr rfl)
  | work clock? => exact .inr (.inl ⟨clock?, rfl, rfl⟩)

/-- **One move keeps soundness.** -/
theorem Sound.step (h : Sound c) (move : Move) : Sound (c.step move) := by
  rcases c.step_cases move with ⟨command, hempty, -, hstep⟩ | ⟨clock?, -, hstep⟩ | hstep
  · exact hstep ▸ h.begin hempty command
  · exact hstep ▸ h.work clock?
  · rwa [hstep]

/-- **Every course is sound**, whatever is asked, whenever the timer fires and however the work is
interleaved. -/
theorem sound_run (debounce : Nat) (moves : List Move) : Sound ((initial debounce).run moves) := by
  suffices hall : ∀ c : Course, Sound c → Sound (c.run moves) from
    hall _ (sound_initial debounce)
  induction moves with
  | nil => exact fun c h => h
  | cons move rest ih => exact fun c h => ih _ (h.step move)

/-! ## The timer -/

/-- While somebody is told of a change that has not been taken, the timer is set. -/
def Armed (c : Course) : Prop :=
  ∀ path, .changed path true ∈ c.history.sinceSwap → c.reactor.feed.due?.isSome = true

/-- What changed since the last swap is pending. -/
theorem Sound.mem_pending (h : Sound c) {path : String} {watched : Bool}
    (hmem : .changed path watched ∈ c.history.sinceSwap) :
    path ∈ c.reactor.feed.store.pending := by
  rw [h.pending_eq, List.mem_eraseDups]
  exact List.mem_filterMap.mpr ⟨_, hmem, rfl⟩

/-- A change that somebody is told of sets the timer, and no write takes it away. -/
theorem Armed.write {r : Reactor} {history : History} {rest : List (Nat × Task)}
    (ha : Armed ⟨r, rest, history⟩) {clock? : Option Nat} (hclock : clock?.isSome = true)
    (n : Nat) (path content : String) :
    Armed (Course.work ⟨r, (n, .perform (.write path content)) :: rest, history⟩ clock?) := by
  unfold Course.work
  dsimp only [Reactor.step, Reactor.perform, told]
  intro p hp
  rw [Feed.due?_write]
  cases hc : r.feed.store.isChange path content with
  | false =>
    rw [hc, if_neg Bool.false_ne_true, List.append_nil] at hp
    rw [Bool.false_and, if_neg Bool.false_ne_true]
    exact ha p hp
  | true =>
    rw [Bool.true_and]
    by_cases hwatched : (!r.feed.watchers.isEmpty) = true
    · rw [if_pos hwatched, Option.isSome_map]
      exact hclock
    · -- nobody is told of this change, so it was an earlier one
      rw [if_neg hwatched]
      rw [hc, if_pos rfl, sinceSwap_concat_of_not_isSwap _ _ rfl] at hp
      rcases List.mem_append.mp hp with hold | hnew
      · exact ha p hold
      · have heq := List.mem_singleton.mp hnew
        exact absurd (Event.changed.inj heq).2.symm hwatched

/-- A task that is carried out with the clock running keeps the timer armed while anything is
pending. -/
theorem Armed.work (ha : Armed c) (h : Sound c) {clock? : Option Nat} (hclock : clock?.isSome = true) :
    Armed (c.work clock?) := by
  obtain ⟨r, agenda, history⟩ := c
  cases agenda with
  | nil => exact ha
  | cons first rest =>
    obtain ⟨n, task⟩ := first
    cases task with
    | perform command =>
      cases command with
      | write path content => exact Armed.write ha hclock n path content
      | flush =>
        unfold Course.work
        dsimp only [Reactor.step, Reactor.perform, told]
        by_cases hpending : r.feed.store.pending = []
        · -- the timer is withdrawn, but no change is left that it was set for
          rw [Feed.flush_of_nil hpending, if_pos hpending, List.append_nil]
          intro p hp
          exact absurd (h.mem_pending hp) (by simp [hpending])
        · rw [Feed.flush_of_ne hpending, if_neg hpending]
          intro p hp
          rw [sinceSwap_concat_of_isSwap _ _ rfl] at hp
          exact absurd hp (by simp)
      | watch name reactions =>
        unfold Course.work
        dsimp only [Reactor.step, Reactor.perform, told]
        intro p hp
        rw [sinceSwap_concat_of_not_isSwap _ _ rfl] at hp
        exact ha p (by simpa using hp)
    | deliver w batch =>
      unfold Course.work
      dsimp only [Reactor.step, told]
      intro p hp
      rw [sinceSwap_concat_of_not_isSwap _ _ rfl] at hp
      rw [feed_deliver]
      exact ha p (by simpa using hp)

/-- So does every move with the clock running. -/
theorem Armed.step (ha : Armed c) (h : Sound c) {move : Move} (hclock : move.isClocked = true) :
    Armed (c.step move) := by
  rcases c.step_cases move with ⟨command, -, -, hstep⟩ | ⟨clock?, rfl, hstep⟩ | hstep
  · rw [hstep]
    exact ha
  · exact hstep ▸ ha.work h hclock
  · rwa [hstep]

/-- In a run with a running clock, pending changes always have an armed timer. -/
theorem armed_run (debounce : Nat) {moves : List Move} (hclock : ∀ move ∈ moves, move.isClocked = true) :
    Armed ((initial debounce).run moves) := by
  suffices hall : ∀ c : Course, Sound c → Armed c → Armed (c.run moves) from
    hall _ (sound_initial debounce) fun p hp => absurd hp (by simp [initial, sinceSwap])
  induction moves with
  | nil => exact fun c _ ha => ha
  | cons move rest ih =>
    intro c h ha
    exact ih (fun m hm => hclock m (List.mem_cons_of_mem _ hm)) _ (h.step move)
      (ha.step h (hclock move List.mem_cons_self))

/-! ## What has changed, kept twice -/

/-- Looking paths up in a set lists the same paths as looking them up in the list. -/
theorem ofHistory_eq (h : History) :
    (PathIndex.ofHistory h).listed = (unswapped h).eraseDups ∧
      ∀ path, path ∈ (PathIndex.ofHistory h).members ↔ path ∈ unswapped h := by
  induction h using List.reverseRecOn with
  | nil => exact ⟨rfl, fun path => by simp [PathIndex.ofHistory, unswapped, sinceSwap]⟩
  | append_singleton h e ih =>
    have hnext : PathIndex.ofHistory (h ++ [e]) = (PathIndex.ofHistory h).follow e := by
      rw [PathIndex.ofHistory, List.foldl_append]
      rfl
    rw [hnext]
    obtain ⟨hlisted, hmembers⟩ := ih
    cases e with
    | changed path watched =>
      rw [unswapped_concat_of_not_isSwap _ _ rfl]
      simp only [PathIndex.follow, PathIndex.note, Event.changed?, Option.toList_some]
      -- the set knows what is listed, so it decides as the list would
      by_cases hin : path ∈ (PathIndex.ofHistory h).members
      · have hold := (hmembers path).mp hin
        rw [if_pos hin, ← Store.addOnce_eraseDups, ← hlisted, Store.addOnce,
          if_pos (by simpa [hlisted] using hold)]
        refine ⟨rfl, fun p => ?_⟩
        rw [hmembers, List.mem_append, List.mem_singleton]
        exact ⟨.inl, fun hp => hp.elim id fun heq => heq ▸ hold⟩
      · have hnew := fun hold => hin ((hmembers path).mpr hold)
        rw [if_neg hin, ← Store.addOnce_eraseDups, ← hlisted, Store.addOnce,
          if_neg (by simpa [hlisted] using hnew)]
        refine ⟨rfl, fun p => ?_⟩
        rw [Finset.mem_insert, hmembers, List.mem_append, List.mem_singleton]
        exact or_comm
    | swapped batch watchers =>
      rw [unswapped_concat_of_isSwap _ _ rfl]
      exact ⟨rfl, fun path => by simp [PathIndex.follow]⟩
    | joined name =>
      rw [unswapped_concat_of_not_isSwap _ _ rfl]
      simpa [PathIndex.follow, Event.changed?] using ⟨hlisted, hmembers⟩
    | handed swap w batch =>
      rw [unswapped_concat_of_not_isSwap _ _ rfl]
      simpa [PathIndex.follow, Event.changed?] using ⟨hlisted, hmembers⟩

/-! ## Changes and what takes them -/

/-- Events without a swap only prolong the stretch. -/
theorem sinceSwap_append {before after : History} (hnone : ∀ e ∈ after, e.isSwap = false) :
    sinceSwap (before ++ after) = sinceSwap before ++ after := by
  induction after using List.reverseRecOn with
  | nil => rw [List.append_nil, List.append_nil]
  | append_singleton init e ih =>
    have hlast := hnone e (List.mem_append_right _ List.mem_cons_self)
    rw [← List.append_assoc, sinceSwap_concat_of_not_isSwap _ _ hlast,
      ih fun d hd => hnone d (List.mem_append_left _ hd), List.append_assoc]

/-- A path that has changed is among those that have since the last swap, if there was none. -/
theorem mem_unswapped {before middle : History} {path : String} {watched : Bool}
    (hnone : ∀ e ∈ middle, e.isSwap = false) :
    path ∈ (unswapped (before ++ .changed path watched :: middle)).eraseDups := by
  have hquiet : ∀ e ∈ Event.changed path watched :: middle, e.isSwap = false := by
    intro e he
    rcases List.mem_cons.mp he with rfl | hmem
    · rfl
    · exact hnone e hmem
  rw [List.mem_eraseDups, unswapped, sinceSwap_append hquiet]
  exact List.mem_filterMap.mpr
    ⟨.changed path watched, List.mem_append_right _ List.mem_cons_self, rfl⟩

/-- A change is taken by the first swap after it, and pending if there is none. -/
theorem Sound.pending_or_taken (h : Sound c) {before after : History} {path : String}
    {watched : Bool} (heq : c.history = before ++ .changed path watched :: after) :
    (path ∈ c.reactor.feed.store.pending ∧ ∀ e ∈ after, e.isSwap = false) ∨
      ∃ middle batch watchers later, after = middle ++ .swapped batch watchers :: later ∧
        (∀ e ∈ middle, e.isSwap = false) ∧ path ∈ batch := by
  -- the first swap behind the change has taken it, if there is one
  cases hfirst : after.find? Event.isSwap with
  | none =>
    have hnone : ∀ e ∈ after, e.isSwap = false := by simpa using hfirst
    refine .inl ⟨?_, hnone⟩
    rw [h.pending_eq, heq]
    exact mem_unswapped hnone
  | some e =>
    obtain ⟨hswap, middle, later, rfl, hmiddle⟩ := List.find?_eq_some_iff_append.mp hfirst
    have hnone : ∀ e ∈ middle, e.isSwap = false := by simpa using hmiddle
    cases e with
    | swapped batch watchers =>
      refine .inr ⟨middle, batch, watchers, later, rfl, hnone, ?_⟩
      have hsplit : c.history =
          (before ++ .changed path watched :: middle) ++ .swapped batch watchers :: later := by
        rw [heq, List.append_assoc, List.cons_append]
      -- a swap takes all that has changed since the last one, and no swap stands between
      rw [(h.swaps_eq _ _ _ _ hsplit).2.1]
      exact mem_unswapped hnone
    | _ => exact absurd hswap (by simp [Event.isSwap, Event.swapped?])

/-- What a history tells of the next piece of work is a change exactly if it changes what is
stored. -/
theorem told_changed_iff (r : Reactor) (n : Nat) (task : Task) (clock? : Option Nat) (path : String) :
    (r.step clock? task).1.feed.store.files.get? path ≠ r.feed.store.files.get? path ↔
      ∃ watched, told r n task = [.changed path watched] := by
  cases task with
  | perform command =>
    cases command with
    | write written content =>
      dsimp only [Reactor.step, Reactor.perform, told]
      -- a write changes its own path if it is a change, and that is also when it is told
      rw [Feed.store_write, Store.get?_write_ne_iff]
      cases r.feed.store.isChange written content with
      | true => simp [eq_comm]
      | false => simp
    | flush =>
      dsimp only [Reactor.step, Reactor.perform, told]
      by_cases hpending : r.feed.store.pending = []
      · rw [Feed.flush_of_nil hpending, if_pos hpending]
        simp
      · rw [Feed.flush_of_ne hpending, if_neg hpending]
        simp [Store.settle]
    | watch name reactions => simp [Reactor.step, Reactor.perform, told, Feed.watch]
  | deliver w batch =>
    simp [Reactor.step, told, feed_deliver]

/-- **A move changes the text of a path exactly if it tells that change**, and then it tells nothing
else: the events are about the store and not only about themselves. -/
theorem changed_iff (c : Course) (move : Move) (path : String) :
    (c.step move).text? path ≠ c.text? path ↔
      ∃ watched, (c.step move).history = c.history ++ [.changed path watched] := by
  have hsame : c.text? path ≠ c.text? path ↔
      ∃ watched, c.history = c.history ++ [.changed path watched] := by simp
  rcases c.step_cases move with ⟨command, -, -, hstep⟩ | ⟨clock?, -, hstep⟩ | hstep <;> rw [hstep]
  · exact hsame
  · obtain ⟨r, agenda, history⟩ := c
    cases agenda with
    | nil => exact hsame
    | cons first rest =>
      obtain ⟨n, task⟩ := first
      simpa [Course.work, text?] using told_changed_iff r n task clock? path
  · exact hsame

/-- Whether the paths that have changed are normalized, and none is that of a source map. -/
def Plain (h : History) : Prop :=
  ∀ path watched, .changed path watched ∈ h →
    Store.mapOwner? path = none ∧ ∃ written, path = Path.normalize written

theorem Plain.append {h more : History} (hp : Plain h) (hm : Plain more) : Plain (h ++ more) :=
  fun path watched hmem => (List.mem_append.mp hmem).elim (hp path watched) (hm path watched)

/-- The reactor tells changes of text files only, under their normal names. -/
theorem plain_told (r : Reactor) (n : Nat) (task : Task) : Plain (told r n task) := by
  intro path watched hmem
  cases task with
  | perform command =>
    cases command with
    | write written content =>
      dsimp only [told] at hmem
      split at hmem
      · rename_i hc
        -- a change has no map's name: that is the first thing that `isChange` asks
        obtain ⟨rfl, -⟩ := Event.changed.inj (List.mem_singleton.mp hmem)
        simp only [Store.isChange, Bool.and_eq_true, Option.isNone_iff_eq_none] at hc
        exact ⟨hc.1, written, rfl⟩
      · exact absurd hmem (by simp)
    | flush =>
      dsimp only [told] at hmem
      split at hmem <;> exact absurd hmem (by simp)
    | watch name reactions => exact absurd hmem (by simp [told])
  | deliver w batch => exact absurd hmem (by simp [told])

/-- So the history of a course is plain throughout. -/
theorem plain_run (debounce : Nat) (moves : List Move) :
    Plain ((initial debounce).run moves).history := by
  suffices hall : ∀ c : Course, Plain c.history → Plain (c.run moves).history from
    hall _ fun path watched hmem => absurd hmem (by simp [initial])
  induction moves with
  | nil => exact fun c h => h
  | cons move rest ih =>
    intro c h
    refine ih _ ?_
    rcases c.step_cases move with ⟨command, -, -, hstep⟩ | ⟨clock?, -, hstep⟩ | hstep <;> rw [hstep]
    · exact h
    · unfold Course.work
      split
      · exact h
      · exact h.append (plain_told _ _ _)
    · exact h

/-! ## What this means -/

/-- What it means that a store delivers what changes. -/
structure Delivers (c : Course) : Prop where
  /-- The history misses no change of a stored text, and makes none up. -/
  changed_iff : ∀ move path, (c.step move).text? path ≠ c.text? path ↔
    ∃ watched, (c.step move).history = c.history ++ [.changed path watched]
  plain : Plain c.history
  /-- What is pending are the paths that have changed since the last swap, in the order in which
  they did so first, each of them once. -/
  pending_eq : c.reactor.feed.store.pending = c.history.unswapped.eraseDups
  pending_nodup : c.reactor.feed.store.pending.Nodup
  /-- It does not matter whether paths are looked up in the list or in a set that is kept along. -/
  index_eq : (PathIndex.ofHistory c.history).listed = c.reactor.feed.store.pending ∧
    ∀ path, path ∈ (PathIndex.ofHistory c.history).members ↔ path ∈ c.reactor.feed.store.pending
  /-- A change is pending, or taken by the first swap after it. -/
  pending_or_taken : ∀ before path watched after,
    c.history = before ++ .changed path watched :: after →
      (path ∈ c.reactor.feed.store.pending ∧ ∀ e ∈ after, e.isSwap = false) ∨
        ∃ middle batch watchers later, after = middle ++ .swapped batch watchers :: later ∧
          (∀ e ∈ middle, e.isSwap = false) ∧ path ∈ batch
  /-- A swap takes what has changed since the one before and no more, for everybody who has joined;
  no batch is empty. -/
  swaps_eq : c.history.SwapsTakeAll
  /-- What a swap takes is handed to each of them in turn, once. -/
  handed_eq : ∀ swap,
    c.history.handedBy swap ++ outstanding c.agenda swap = c.history.handoutsOf swap
  /-- When no work is left, everybody has been handed everything. -/
  settled : c.agenda = [] → ∀ swap, c.history.handedBy swap = c.history.handoutsOf swap
  not_empty : ∀ swap watcher batch, .handed swap watcher batch ∈ c.history → batch ≠ []
  /-- This is what is delivered, and nothing else. -/
  delivered_eq : c.reactor.delivered = c.history.deliveries

/-- **A store delivers what changes**, whatever happens to it and whatever its watchers do; and as
long as the clock runs, the timer is set until what somebody was told of is taken. -/
theorem delivers_run (debounce : Nat) (moves : List Move) :
    Delivers ((initial debounce).run moves) ∧
      ((∀ move ∈ moves, move.isClocked = true) → Armed ((initial debounce).run moves)) := by
  refine ⟨?_, armed_run debounce⟩
  have h := sound_run debounce moves
  have hplain := plain_run debounce moves
  generalize (initial debounce).run moves = c at h hplain
  constructor
  case changed_iff => exact Course.changed_iff c
  case plain => exact hplain
  case pending_eq => exact h.pending_eq
  case pending_nodup =>
    rw [h.pending_eq]
    exact FirstOccurrence.nodup_eraseDups _
  case index_eq =>
    obtain ⟨hlisted, hmembers⟩ := ofHistory_eq c.history
    refine ⟨hlisted.trans h.pending_eq.symm, fun path => ?_⟩
    rw [hmembers, h.pending_eq, List.mem_eraseDups]
  case pending_or_taken => exact fun before path watched after heq => h.pending_or_taken heq
  case swaps_eq => exact h.swaps_eq
  case handed_eq => exact h.handed_eq
  case settled =>
    -- with an empty agenda nothing is outstanding, so all that was due has been handed over
    intro hempty swap
    have hall := h.handed_eq swap
    rw [hempty] at hall
    exact (List.append_nil _).symm.trans hall
  case not_empty =>
    intro swap w batch hmem
    have hhanded : (w, batch) ∈ History.handedBy _ swap :=
      List.mem_filterMap.mpr ⟨_, hmem, by simp [Event.handedBy?]⟩
    exact (h.of_handed (.inl hhanded)).2
  case delivered_eq => exact h.delivered_eq

end Course

end Packwright.Reactor
