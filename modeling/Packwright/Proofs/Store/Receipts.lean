import Mathlib.Data.List.Nodup
import Packwright.Proofs.Store.Agenda
import Packwright.Store.Receipt

/-!
# Whether watchers see the same

Two watchers who were there from the start are handed the same batches. Their order is another
matter: a watcher that flushes while it is handed a batch has the next batch handed out before those
behind it are handed the first one.

* `total` is what a watcher was handed followed by what it is still to be handed. Work that is done
  only moves things from the one to the other; a swap puts the new batch between them
  (`work_cases`).
* `Balanced` compares the totals of two watchers. They stay the same as long as whatever is swapped
  is put at the same place (`insert_eq_iff`).
* `Unnested` says what is left while watchers only write. Then a flush is all there is to do, and
  nothing is swapped in the middle of handing something out (`not_swapsBetween_run`).
* `agree_run` reads off what this means when nothing is left to do.
-/

namespace Packwright.Reactor

/-! ## One history, two watchers -/

/-- A new element is put into two lists at the same place exactly if the lists are the same, and so
is what stands in front of it. -/
theorem insert_eq_iff {α : Type} {front back front' back' : List α} {a : α}
    (ha : a ∉ front ++ back) (hnodup : (front ++ back).Nodup) :
    front ++ a :: back = front' ++ a :: back' ↔
      front ++ back = front' ++ back' ∧ ∀ r, r ∈ front ↔ r ∈ front' := by
  constructor
  · intro heq
    rw [List.mem_append, not_or] at ha
    obtain ⟨rfl, -, rfl⟩ := (List.append_cons_inj_of_notMem ha.1 ha.2).mp heq
    exact ⟨rfl, fun _ => Iff.rfl⟩
  · rintro ⟨heq, hmem⟩
    -- one front begins the other; what is left over would stand in both parts of a list
    rcases List.append_eq_append_iff.mp heq with ⟨more, rfl, rfl⟩ | ⟨more, rfl, rfl⟩
    · have hnone : more = [] := List.eq_nil_iff_forall_not_mem.mpr fun r hr =>
        (List.nodup_append.mp hnodup).2.2 r ((hmem r).mpr (List.mem_append_right _ hr)) r
          (List.mem_append_left _ hr) rfl
      rw [hnone, List.append_nil, List.nil_append]
    · have hnone : more = [] := List.eq_nil_iff_forall_not_mem.mpr fun r hr =>
        (List.nodup_append.mp (List.nodup_append.mp hnodup).1).2.2 r
          ((hmem r).mp (List.mem_append_right _ hr)) r hr rfl
      rw [hnone, List.append_nil, List.nil_append]

namespace History

variable (h : History) (e : Event)

/-- One more event is at most one more receipt. -/
@[simp] theorem receipts_concat (w : Nat) :
    receipts (h ++ [e]) w = receipts h w ++ (e.receipt? w).toList :=
  filterMap_concat _ h e

/-- Something new is between two watchers only if it is a swap at which they differ. -/
theorem swapsBetween_concat_iff (v w : Nat) :
    SwapsBetween (h ++ [e]) v w ↔
      SwapsBetween h v w ∨ e.isSwap = true ∧ ∃ r, ¬ (r ∈ receipts h v ↔ r ∈ receipts h w) := by
  constructor
  · rintro ⟨before, batch, watchers, after, heq, hdiffer⟩
    rcases concat_eq_append_cons heq with ⟨rfl, rfl, -⟩ | ⟨earlier, -, rfl⟩
    · exact .inr ⟨rfl, hdiffer⟩
    · exact .inl ⟨before, batch, watchers, earlier, rfl, hdiffer⟩
  · rintro (⟨before, batch, watchers, after, rfl, hdiffer⟩ | ⟨hswap, hdiffer⟩)
    · exact ⟨before, batch, watchers, after ++ [e], by simp, hdiffer⟩
    · cases e with
      | swapped batch watchers => exact ⟨h, batch, watchers, [], rfl, hdiffer⟩
      | _ => exact absurd hswap (by simp [Event.isSwap, Event.swapped?])

/-- Whether whatever was taken was taken for a watcher. -/
def Attends (w : Nat) : Prop :=
  ∀ batch watchers, .swapped batch watchers ∈ h → w ∈ watchers

variable {h}

/-- What is taken is something that has changed, so who has joined before any change is there for
all of it. -/
theorem SwapsTakeAll.attends (hall : SwapsTakeAll h) {w : Nat} (hearly : JoinedEarly h w) :
    Attends h w := by
  obtain ⟨start, later, rfl, hw, hnone⟩ := hearly
  intro batch watchers hmem
  obtain ⟨before, after, heq⟩ := List.append_of_mem hmem
  obtain ⟨hne, hbatch, rfl⟩ := hall before batch watchers after heq
  rw [List.mem_range]
  refine Nat.lt_of_lt_of_le hw ?_
  rcases List.append_eq_append_iff.mp heq with ⟨more, rfl, -⟩ | ⟨more, rfl, -⟩
  · rw [names, names, List.filterMap_append, List.length_append]
    exact Nat.le_add_right _ _
  · -- the swap would come before the first change, and there would be nothing to take
    refine absurd ?_ hne
    have hunswapped : unswapped before = [] := by
      rw [unswapped, List.filterMap_eq_nil_iff]
      intro e he
      exact hnone e (List.mem_append_left _ ((List.rtakeWhile_suffix _ _).subset he))
    rw [hbatch, hunswapped]
    rfl

end History

/-! ## What is handed out and what is left -/

namespace Course

open History

variable {c : Course}

/-- What a piece of work is to hand to a watcher. -/
def due? (watcher : Nat) : Nat × Task → Option (Nat × Batch)
  | (swap, .deliver w batch) => if w = watcher then some (swap, batch) else none
  | _ => none

/-- What a watcher was handed, and then what it is still to be handed. -/
def total (c : Course) (watcher : Nat) : List (Nat × Batch) :=
  c.history.receipts watcher ++ c.agenda.filterMap (due? watcher)

/-- Commands are due to nobody. -/
theorem filterMap_due?_perform (w n : Nat) (commands : List Command) (rest : List (Nat × Task)) :
    ((commands.map Task.perform).map (n, ·) ++ rest).filterMap (due? w) = rest.filterMap (due? w) := by
  rw [List.filterMap_append, List.map_map, List.filterMap_map]
  have hnone : commands.filterMap (due? w ∘ (n, ·) ∘ Task.perform) = [] := by
    rw [List.filterMap_eq_nil_iff]
    exact fun _ _ => rfl
  rw [hnone, List.nil_append]

/-- What a swap takes is due to everybody it was taken for, once. -/
theorem filterMap_due?_deliver {watchers : List Nat} (hnodup : watchers.Nodup) {w : Nat}
    (hw : w ∈ watchers) (n : Nat) (batch : Batch) (rest : List (Nat × Task)) :
    (watchers.map fun v => (n, Task.deliver v batch)).filterMap (due? w) ++ rest.filterMap (due? w) =
      (n, batch) :: rest.filterMap (due? w) := by
  obtain ⟨front, back, rfl⟩ := List.append_of_mem hw
  have hothers : ∀ l : List Nat, w ∉ l →
      (l.map fun v => (n, Task.deliver v batch)).filterMap (due? w) = [] := by
    intro l hl
    rw [List.filterMap_eq_nil_iff]
    intro due hmem
    obtain ⟨v, hv, rfl⟩ := List.mem_map.mp hmem
    exact if_neg fun heq : v = w => hl (heq ▸ hv)
  obtain ⟨hfront, hback⟩ : w ∉ front ∧ w ∉ back := by
    simpa using (List.nodup_middle.mp hnodup).notMem
  rw [List.map_append, List.filterMap_append, hothers front hfront, List.map_cons,
    List.filterMap_cons, hothers back hback]
  simp [due?]

/-- **What a piece of work does to the totals**: nothing, unless it is a swap. A swap puts what it
takes between what a watcher was handed and what is left for it. -/
theorem work_cases (h : Sound c) (clock? : Option Nat) :
    (∃ told : Option Event, (c.work clock?).history = c.history ++ told.toList ∧
        (∀ e ∈ told, e.isSwap = false) ∧ ∀ w, (c.work clock?).total w = c.total w) ∨
      ∃ n rest batch watchers, c.agenda = (n, .perform .flush) :: rest ∧
        (c.work clock?).history = c.history ++ [.swapped batch watchers] ∧
        ∀ w ∈ watchers, (c.work clock?).total w =
          c.history.receipts w ++ (c.history.swaps.length, batch) :: rest.filterMap (due? w) := by
  have hwatchers : c.reactor.feed.watchers.Nodup := by
    rw [h.watchers_eq]
    exact List.nodup_range
  obtain ⟨r, agenda, history⟩ := c
  dsimp only at hwatchers
  cases agenda with
  | nil => exact .inl ⟨none, by simp [work], by simp, fun w => rfl⟩
  | cons first rest =>
    obtain ⟨n, task⟩ := first
    cases task with
    | perform command =>
      cases command with
      | write path content =>
        refine .inl ⟨(told r n (.perform (.write path content))).head?, ?_, ?_, fun w => ?_⟩
        all_goals
          simp only [work, Reactor.step, Reactor.perform, total, told]
          cases r.feed.store.isChange path content
        all_goals simp [Event.isSwap, Event.swapped?, Event.receipt?, due?, List.filterMap_cons]
      | flush =>
        by_cases hpending : r.feed.store.pending = []
        · refine .inl ⟨none, ?_, by simp, fun w => ?_⟩
          all_goals
            simp [work, Reactor.step, Reactor.perform, total, told, hpending,
              Feed.flush_of_nil hpending, due?, List.filterMap_cons]
        · refine .inr ⟨n, rest, r.feed.store.pending, r.feed.watchers, rfl, ?_, fun w hw => ?_⟩
          · simp [work, told, hpending]
          · simp only [work, Reactor.step, Reactor.perform, total, told, Feed.flush_of_ne hpending,
              if_neg hpending, receipts_concat, List.map_map, Function.comp_def, List.filterMap_append]
            rw [filterMap_due?_deliver hwatchers hw]
            simp [Event.receipt?]
      | watch name reactions =>
        refine .inl ⟨some (.joined name), rfl, by simp [Event.isSwap, Event.swapped?], fun w => ?_⟩
        simp [work, Reactor.step, Reactor.perform, total, told, Event.receipt?, due?,
          List.filterMap_cons]
    | deliver v batch =>
      obtain ⟨commands, hmade, -, -⟩ := counts_deliver r v batch
      refine .inl ⟨some (.handed n v batch), rfl, by simp [Event.isSwap, Event.swapped?], fun w => ?_⟩
      -- what was first on the agenda is now last among what was handed out
      simp only [work, Reactor.step, hmade, total, told, filterMap_due?_perform, receipts_concat,
        List.filterMap_cons]
      by_cases hv : v = w
      · simp [Event.receipt?, due?, hv]
      · simp [Event.receipt?, due?, hv]

/-! ## Two watchers side by side -/

/-- What holds of the totals of two watchers between any two pieces of work. -/
structure Balanced (c : Course) (v w : Nat) : Prop where
  numbered : ∀ r ∈ c.total v, r.1 < c.history.swaps.length
  nodup : (c.total v).Nodup
  perm : (c.total v).Perm (c.total w)
  same_iff : c.total v = c.total w ↔ ¬ c.history.SwapsBetween v w

theorem balanced_initial (debounce v w : Nat) : Balanced (initial debounce) v w where
  numbered r hr := by simp [total, initial, receipts] at hr
  nodup := by simp [total, initial, receipts]
  perm := .refl _
  same_iff := by simp [total, initial, receipts, SwapsBetween]

theorem Balanced.work (h : Sound c) {v w : Nat} (hb : Balanced c v w) {clock? : Option Nat}
    (hv : (c.work clock?).history.Attends v) (hw : (c.work clock?).history.Attends w) :
    Balanced (c.work clock?) v w := by
  rcases work_cases h clock? with
    ⟨told, hhistory, hquiet, htotal⟩ | ⟨n, rest, batch, watchers, hagenda, hhistory, htotal⟩
  · have hswaps : (c.work clock?).history.swaps = c.history.swaps := by
      rw [hhistory]
      cases told with
      | none => simp
      | some e =>
        have hnone : e.swapped? = none := by simpa [Event.isSwap] using hquiet e rfl
        simp [hnone]
    have hbetween : (c.work clock?).history.SwapsBetween v w ↔ c.history.SwapsBetween v w := by
      rw [hhistory]
      cases told with
      | none => simp
      | some e =>
        rw [Option.toList_some, swapsBetween_concat_iff, hquiet e rfl]
        simp
    constructor
    case numbered => rw [htotal, hswaps]; exact hb.numbered
    case nodup => rw [htotal]; exact hb.nodup
    case perm => rw [htotal, htotal]; exact hb.perm
    case same_iff => rw [htotal, htotal, hbetween]; exact hb.same_iff
  · have hmem : .swapped batch watchers ∈ (c.work clock?).history := by
      rw [hhistory]
      exact List.mem_append_right _ List.mem_cons_self
    have htotalv := htotal v (hv _ _ hmem)
    have htotalw := htotal w (hw _ _ hmem)
    have hold : ∀ u, c.total u = c.history.receipts u ++ rest.filterMap (due? u) := by
      intro u
      rw [total, hagenda, List.filterMap_cons]
      rfl
    -- the number of this swap is new
    have hnew : (c.history.swaps.length, batch) ∉ c.history.receipts v ++ rest.filterMap (due? v) := by
      intro hin
      rw [← hold v] at hin
      exact absurd (hb.numbered _ hin) (Nat.lt_irrefl _)
    have hpermv : ((c.work clock?).total v).Perm ((c.history.swaps.length, batch) :: c.total v) := by
      rw [htotalv, hold v]
      exact List.perm_middle
    have hpermw : ((c.work clock?).total w).Perm ((c.history.swaps.length, batch) :: c.total w) := by
      rw [htotalw, hold w]
      exact List.perm_middle
    constructor
    case numbered =>
      intro r hr
      rw [hhistory, swaps_concat]
      rcases List.mem_cons.mp (hpermv.mem_iff.mp hr) with rfl | hmem
      · simp [Event.swapped?]
      · exact Nat.lt_of_lt_of_le (hb.numbered r hmem) (by simp)
    case nodup =>
      rw [hpermv.nodup_iff, List.nodup_cons, hold v]
      exact ⟨hnew, hold v ▸ hb.nodup⟩
    case perm => exact hpermv.trans ((hb.perm.cons _).trans hpermw.symm)
    case same_iff =>
      rw [htotalv, htotalw, insert_eq_iff hnew (hold v ▸ hb.nodup),
        ← hold v, ← hold w, hb.same_iff, hhistory, swapsBetween_concat_iff]
      simp [Event.isSwap, Event.swapped?]

/-- Being told something puts nothing on the agenda that is handed out. -/
theorem total_begin (hempty : c.agenda = []) (command : Command) (w : Nat) :
    total { c with agenda := [(0, .perform command)] } w = c.total w := by
  rw [total, total, hempty]
  rfl

theorem Balanced.step (h : Sound c) {v w : Nat} (hb : Balanced c v w) {move : Move}
    (hv : (c.step move).history.Attends v) (hw : (c.step move).history.Attends w) :
    Balanced (c.step move) v w := by
  have hbegin : ∀ command, c.agenda = [] →
      Balanced { c with agenda := [(0, .perform command)] } v w := by
    intro command hempty
    constructor
    case numbered => rw [total_begin hempty]; exact hb.numbered
    case nodup => rw [total_begin hempty]; exact hb.nodup
    case perm => rw [total_begin hempty, total_begin hempty]; exact hb.perm
    case same_iff => rw [total_begin hempty, total_begin hempty]; exact hb.same_iff
  rcases c.step_cases move with ⟨command, hempty, -, hstep⟩ | ⟨clock?, -, hstep⟩ | hstep <;>
    rw [hstep] at hv hw ⊢
  · exact hbegin command hempty
  · exact hb.work h hv hw
  · exact hb

/-- What has happened stays what has happened. -/
theorem exists_history_step (h : Sound c) (move : Move) :
    ∃ more, (c.step move).history = c.history ++ more := by
  rcases c.step_cases move with ⟨command, -, -, hstep⟩ | ⟨clock?, -, hstep⟩ | hstep <;> rw [hstep]
  · exact ⟨[], (List.append_nil _).symm⟩
  · rcases work_cases h clock? with ⟨told, hhistory, -⟩ | ⟨-, -, batch, watchers, -, hhistory, -⟩
    · exact ⟨told.toList, hhistory⟩
    · exact ⟨_, hhistory⟩
  · exact ⟨[], (List.append_nil _).symm⟩

theorem run_concat (c : Course) (moves : List Move) (move : Move) :
    c.run (moves ++ [move]) = (c.run moves).step move := by
  rw [run, List.foldl_append]
  rfl

/-- Whoever attends to the end has attended before. -/
theorem attends_of_concat {debounce : Nat} {moves : List Move} {move : Move} {w : Nat}
    (hw : ((initial debounce).run (moves ++ [move])).history.Attends w) :
    ((initial debounce).run moves).history.Attends w := by
  obtain ⟨more, hmore⟩ := exists_history_step (sound_run debounce moves) move
  intro batch watchers hmem
  refine hw batch watchers ?_
  rw [run_concat, hmore]
  exact List.mem_append_left _ hmem

theorem balanced_run (debounce : Nat) (moves : List Move) {v w : Nat}
    (hv : ((initial debounce).run moves).history.Attends v)
    (hw : ((initial debounce).run moves).history.Attends w) :
    Balanced ((initial debounce).run moves) v w := by
  induction moves using List.reverseRecOn with
  | nil => exact balanced_initial debounce v w
  | append_singleton moves move ih =>
    have hb := ih (attends_of_concat hv) (attends_of_concat hw)
    rw [run_concat] at hv hw ⊢
    exact hb.step (sound_run debounce moves) hv hw

/-! ## Watchers that only write -/

/-- What a watcher does when it is handed a batch, and what it is to do later, is what some watcher
was to do. -/
theorem reactions_deliver (r : Reactor) (w : Nat) (batch : Batch) :
    ∃ commands : List Command, (r.deliver w batch).2 = commands.map .perform ∧
      (commands = [] ∨ ∃ u ∈ r.watchers, commands ∈ u.reactions) ∧
      ∀ v ∈ (r.deliver w batch).1.watchers, ∀ reaction ∈ v.reactions,
        ∃ u ∈ r.watchers, reaction ∈ u.reactions := by
  unfold deliver
  cases hget : r.watchers[w]? with
  | none => exact ⟨[], rfl, .inl rfl, fun v hv reaction hr => ⟨v, hv, hr⟩⟩
  | some u =>
    have hu : u ∈ r.watchers := List.mem_of_getElem? hget
    cases hreactions : u.reactions with
    | nil => exact ⟨[], by simp [hreactions], .inl rfl, by
        simp only [hreactions]; exact fun v hv reaction hr => ⟨v, hv, hr⟩⟩
    | cons commands later =>
      simp only [hreactions]
      refine ⟨commands, rfl, .inr ⟨u, hu, by rw [hreactions]; exact List.mem_cons_self⟩, ?_⟩
      intro v hv reaction hr
      rcases List.mem_or_eq_of_mem_set hv with hold | rfl
      · exact ⟨v, hold, hr⟩
      · exact ⟨u, hu, by rw [hreactions]; exact List.mem_cons_of_mem _ hr⟩

/-- What is left to do while watchers only write: nothing but the command that was told, or writes
and batches to hand out. -/
structure Unnested (c : Course) : Prop where
  reactions : ∀ w ∈ c.reactor.watchers, ∀ commands ∈ w.reactions, ∀ command ∈ commands,
    isWrite command = true
  agenda : (∃ n command, c.agenda = [(n, .perform command)] ∧
      ∀ name reactions, command = .watch name reactions →
        ∀ commands ∈ reactions, ∀ command ∈ commands, isWrite command = true) ∨
    ∀ n command, (n, .perform command) ∈ c.agenda → isWrite command = true

theorem Unnested.work (hu : Unnested c) (clock? : Option Nat) : Unnested (c.work clock?) := by
  obtain ⟨hreactions, hagenda⟩ := hu
  obtain ⟨r, agenda, history⟩ := c
  dsimp only at hreactions hagenda
  cases agenda with
  | nil => exact ⟨hreactions, .inr (by simp [Course.work])⟩
  | cons first rest =>
    obtain ⟨n, task⟩ := first
    -- behind a command that does not write there is nothing
    have halone : ∀ command, task = .perform command → isWrite command = false → rest = [] := by
      rintro command rfl hno
      rcases hagenda with ⟨_, _, heq, -⟩ | hwrites
      · exact (List.cons.inj heq).2
      · exact absurd (hwrites n command List.mem_cons_self) (by simp [hno])
    have hrest : ∀ m command, (m, .perform command) ∈ rest → isWrite command = true := by
      intro m command hmem
      rcases hagenda with ⟨_, _, heq, -⟩ | hwrites
      · exact absurd hmem (by simp [(List.cons.inj heq).2])
      · exact hwrites m command (List.mem_cons_of_mem _ hmem)
    cases task with
    | perform command =>
      cases command with
      | write path content => exact ⟨hreactions, .inr hrest⟩
      | flush =>
        obtain rfl := halone _ rfl rfl
        refine ⟨hreactions, .inr fun m command hmem => ?_⟩
        simp [Course.work, Reactor.step, Reactor.perform] at hmem
      | watch name reactions =>
        obtain rfl := halone _ rfl rfl
        refine ⟨fun w hw => ?_, .inr fun m command hmem => absurd hmem (by
          simp [Course.work, Reactor.step, Reactor.perform])⟩
        rcases List.mem_append.mp hw with hold | hnew
        · exact hreactions w hold
        · obtain rfl := List.mem_singleton.mp hnew
          rcases hagenda with ⟨_, _, heq, htold⟩ | hwrites
          · exact htold name reactions (Task.perform.inj (Prod.mk.inj (List.cons.inj heq).1).2).symm
          · exact absurd (hwrites n _ List.mem_cons_self) (by simp [isWrite])
    | deliver w batch =>
      obtain ⟨commands, hmade, hcommands, hlater⟩ := reactions_deliver r w batch
      constructor
      case reactions =>
        intro v hv reaction hr
        obtain ⟨u, hu, hmem⟩ := hlater v hv reaction hr
        exact hreactions u hu reaction hmem
      case agenda =>
        refine .inr fun m command hmem => ?_
        simp only [Course.work, Reactor.step, hmade, List.map_map, List.mem_append, List.mem_map,
          Function.comp_apply] at hmem
        rcases hmem with ⟨command', hin, heq⟩ | hmem
        · obtain rfl := Task.perform.inj (Prod.mk.inj heq).2
          rcases hcommands with rfl | ⟨u, hu, hown⟩
          · exact absurd hin List.not_mem_nil
          · exact hreactions u hu commands hown _ hin
        · exact hrest m command hmem

theorem Unnested.step (hu : Unnested c) {move : Move}
    (htold : ∀ name reactions, move = .ask (.watch name reactions) →
      ∀ commands ∈ reactions, ∀ command ∈ commands, isWrite command = true) :
    Unnested (c.step move) := by
  rcases c.step_cases move with ⟨command, -, hasked, hstep⟩ | ⟨clock?, -, hstep⟩ | hstep <;> rw [hstep]
  · refine ⟨hu.reactions, .inl ⟨0, command, rfl, ?_⟩⟩
    rintro name reactions rfl
    exact htold name reactions (hasked.resolve_right (by simp))
  · exact hu.work clock?
  · exact hu

theorem unnested_run (debounce : Nat) {moves : List Move} (honly : OnlyWrite moves) :
    Unnested ((initial debounce).run moves) := by
  induction moves using List.reverseRecOn with
  | nil => exact ⟨by simp [initial, run, empty], .inr (by simp [initial, run])⟩
  | append_singleton moves move ih =>
    rw [run_concat]
    refine (ih fun name reactions hmem => honly name reactions (List.mem_append_left _ hmem)).step ?_
    rintro name reactions rfl
    exact honly name reactions (List.mem_append_right _ List.mem_cons_self)

/-- While watchers only write, nothing is taken in the middle of handing something out. -/
theorem not_swapsBetween_run (debounce : Nat) {moves : List Move} (honly : OnlyWrite moves) {v w : Nat}
    (hv : ((initial debounce).run moves).history.Attends v)
    (hw : ((initial debounce).run moves).history.Attends w) :
    ¬ ((initial debounce).run moves).history.SwapsBetween v w := by
  induction moves using List.reverseRecOn with
  | nil => simp [initial, run, SwapsBetween]
  | append_singleton moves move ih =>
    have honly' : OnlyWrite moves := fun name reactions hmem =>
      honly name reactions (List.mem_append_left _ hmem)
    have hbefore := ih honly' (attends_of_concat hv) (attends_of_concat hw)
    have hb := balanced_run debounce moves (attends_of_concat hv) (attends_of_concat hw)
    have hu := unnested_run debounce honly'
    have hsound := sound_run debounce moves
    rw [run_concat]
    generalize (initial debounce).run moves = c at hbefore hb hu hsound
    rcases c.step_cases move with ⟨command, -, -, hstep⟩ | ⟨clock?, -, hstep⟩ | hstep <;> rw [hstep]
    · exact hbefore
    · rcases work_cases hsound clock? with
        ⟨told, hhistory, hquiet, -⟩ | ⟨n, rest, batch, watchers, hagenda, hhistory, -⟩
      · rw [hhistory]
        cases told with
        | none => rwa [Option.toList_none, List.append_nil]
        | some e =>
          rw [Option.toList_some, swapsBetween_concat_iff, hquiet e rfl]
          simpa using hbefore
      · -- the flush is all there was to do, so both were handed all that was taken before
        have halone : rest = [] := by
          rcases hu.agenda with ⟨_, _, heq, -⟩ | hwrites
          · exact (List.cons.inj (hagenda.symm.trans heq)).2
          · exact absurd (hwrites n .flush (by rw [hagenda]; exact List.mem_cons_self))
              (by simp [isWrite])
        have htotal : ∀ u, c.total u = c.history.receipts u := by
          intro u
          rw [total, hagenda, halone]
          exact List.append_nil _
        rw [hhistory, swapsBetween_concat_iff]
        rintro (hold | ⟨-, r, hdiffer⟩)
        · exact hbefore hold
        · refine hdiffer ?_
          rw [← htotal v, ← htotal w]
          exact hb.perm.mem_iff
    · exact hbefore

/-! ## When nothing is left to do -/

/-- What two watchers were handed, side by side. -/
structure Agree (h : History) (v w : Nat) : Prop where
  /-- They were handed the same batches, each as often. -/
  perm : (h.received v).Perm (h.received w)
  /-- On account of the same swaps in the same order, exactly if nothing was taken while something
  else had been handed to one of them only. -/
  receipts_eq_iff : h.receipts v = h.receipts w ↔ ¬ h.SwapsBetween v w
  /-- In this case the batches are the same in the same order. -/
  received_eq : ¬ h.SwapsBetween v w → h.received v = h.received w

/-- **Whoever has joined before anything changed is handed the same as anybody else who has**, when
nothing is left to do. The order is the same if nothing was taken in the middle of handing something
else out, and so it is if watchers do nothing but write. -/
theorem agree_run (debounce : Nat) (moves : List Move) (v w : Nat)
    (hdone : ((initial debounce).run moves).agenda = [])
    (hv : ((initial debounce).run moves).history.JoinedEarly v)
    (hw : ((initial debounce).run moves).history.JoinedEarly w) :
    Agree ((initial debounce).run moves).history v w ∧
      (OnlyWrite moves →
        ((initial debounce).run moves).history.received v =
          ((initial debounce).run moves).history.received w) := by
  have hall := (sound_run debounce moves).swaps_eq
  have hav := hall.attends hv
  have haw := hall.attends hw
  have hb := balanced_run debounce moves hav haw
  have htotal : ∀ u, ((initial debounce).run moves).total u =
      ((initial debounce).run moves).history.receipts u := by
    intro u
    rw [total, hdone]
    exact List.append_nil _
  have hiff := hb.same_iff
  have hperm := hb.perm
  rw [htotal, htotal] at hiff hperm
  have hreceived := fun hnot => congrArg (List.map Prod.snd) (hiff.mpr hnot)
  exact ⟨⟨hperm.map Prod.snd, hiff, hreceived⟩,
    fun honly => hreceived (not_swapsBetween_run debounce honly hav haw)⟩

/-- Three watchers; the first one writes and flushes when it is handed a batch. -/
def innerFlush : List Move :=
  [.ask (.watch "a" [[.write "/y" "2", .flush]]), .work none, .ask (.watch "b" []), .work none,
    .ask (.watch "c" []), .work none, .ask (.write "/x" "1"), .work none, .ask .flush] ++
    List.replicate 9 (.work none)

theorem history_innerFlush : ((initial 100).run innerFlush).history =
    [.joined "a", .joined "b", .joined "c", .changed "/x" true, .swapped ["/x"] [0, 1, 2],
      .handed 0 0 ["/x"], .changed "/y" true, .swapped ["/y"] [0, 1, 2], .handed 1 0 ["/y"],
      .handed 1 1 ["/y"], .handed 1 2 ["/y"], .handed 0 1 ["/x"], .handed 0 2 ["/x"]] := by
  decide +kernel

theorem joinedEarly_innerFlush {w : Nat} (hw : w < 3) :
    ((initial 100).run innerFlush).history.JoinedEarly w := by
  rw [history_innerFlush]
  exact ⟨[.joined "a", .joined "b", .joined "c"], _, rfl, hw, by decide⟩

theorem agree_run_innerFlush :
    Agree ((initial 100).run innerFlush).history 1 2 :=
  (agree_run 100 innerFlush 1 2 rfl (joinedEarly_innerFlush (by decide))
    (joinedEarly_innerFlush (by decide))).1

/-- The first watcher is handed the batches in another order than the second one. -/
theorem received_ne_innerFlush :
    ((initial 100).run innerFlush).agenda = [] ∧
      ((initial 100).run innerFlush).history.JoinedEarly 0 ∧
      ((initial 100).run innerFlush).history.JoinedEarly 1 ∧
      ((initial 100).run innerFlush).history.received 0 = [["/x"], ["/y"]] ∧
      ((initial 100).run innerFlush).history.received 1 = [["/y"], ["/x"]] := by
  refine ⟨rfl, joinedEarly_innerFlush (by decide), joinedEarly_innerFlush (by decide), ?_, ?_⟩
  all_goals
    rw [history_innerFlush]
    rfl

end Course

end Packwright.Reactor
