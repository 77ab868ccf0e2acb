import Mathlib.Tactic.NthRewrite
import Packwright.Proofs.Store.Delivery

/-!
# Work comes to an end

Performing a command with all that follows from it is a run of moves that leaves nothing to do: the
fuel that is given is enough, whatever the watchers do.

* Every command is performed once, and a flush hands out no more than there are watchers
  (`load_work`). So what is left becomes less with each piece of work.
* `exists_run_eq_act` and `exists_run_eq_fire` lead from the moves of a course to `Reactor.act` and
  `Reactor.fire`.
-/

namespace Packwright.Reactor.Course

-- sums start at the zero of the core library, whatever other instances are in scope
attribute [local instance (high)] Zero.ofOfNat0

variable {c : Course}

/-! ## What is left -/

/-- The count of a list of commands is the sum of its members' counts: the form that `simp` and
`omega` can use. -/
theorem countList_eq_sum (commands : List Command) :
    countList commands = (commands.map commandCount).sum := by
  induction commands with
  | nil => rfl
  | cons command rest ih => rw [countList, ih, List.map_cons, List.sum_cons]

/-- How many commands a piece of work is. -/
def commandsOf : Nat × Task → Nat
  | (_, .perform command) => commandCount command
  | (_, .deliver ..) => 0

def handoutsIn : Nat × Task → Nat
  | (_, .perform _) => 0
  | (_, .deliver ..) => 1

def commandsLeft (c : Course) : Nat :=
  (c.agenda.map commandsOf).sum + (c.reactor.watchers.map fun w => countAll w.reactions).sum

def handoutsLeft (c : Course) : Nat :=
  (c.agenda.map handoutsIn).sum

/-- What a watcher does when it is handed a batch was counted as left before. -/
theorem counts_deliver (r : Reactor) (w : Nat) (batch : Batch) :
    ∃ commands : List Command, (r.deliver w batch).2 = commands.map .perform ∧
      (r.deliver w batch).1.watchers.length = r.watchers.length ∧
      (commands.map commandCount).sum +
          ((r.deliver w batch).1.watchers.map fun v => countAll v.reactions).sum =
        (r.watchers.map fun v => countAll v.reactions).sum := by
  unfold deliver
  cases hget : r.watchers[w]? with
  | none => exact ⟨[], rfl, rfl, by simp⟩
  | some v =>
    cases hreactions : v.reactions with
    | nil => exact ⟨[], by simp [hreactions], by simp [hreactions], by simp [hreactions]⟩
    | cons commands later =>
      simp only [hreactions]
      refine ⟨commands, rfl, List.length_set, ?_⟩
      -- the commands move from the watcher to the agenda
      obtain ⟨hlt, hv⟩ := List.getElem?_eq_some_iff.mp hget
      have hold : r.watchers = r.watchers.take w ++ v :: r.watchers.drop (w + 1) := by
        rw [← hv, ← List.drop_eq_getElem_cons hlt, List.take_append_drop]
      rw [List.set_eq_take_append_cons_drop, if_pos hlt, ← countList_eq_sum]
      nth_rewrite 3 [hold]
      simp only [List.map_append, List.map_cons, List.sum_append, List.sum_cons, hreactions, countAll]
      omega

/-- The commands that a watcher gives weigh on the agenda what they weigh by themselves. -/
theorem map_commandsOf_perform (n : Nat) (commands : List Command) :
    ((commands.map Task.perform).map (n, ·)).map commandsOf = commands.map commandCount := by
  rw [List.map_map, List.map_map]
  rfl

/-- Commands hand nothing out before they are carried out. -/
theorem sum_handoutsIn_perform (n : Nat) (commands : List Command) :
    (((commands.map Task.perform).map (n, ·)).map handoutsIn).sum = 0 := by
  rw [List.map_map, List.map_map]
  simp [Function.comp_def, handoutsIn]

/-- **A piece of work leaves less to do**: a command is performed, and makes no more handouts than
there are watchers; or a batch is handed out. A command is one more watcher at most. -/
theorem load_work (h : Sound c) (hne : c.agenda ≠ []) (clock? : Option Nat) :
    (c.work clock?).commandsLeft + (c.work clock?).reactor.watchers.length ≤
        c.commandsLeft + c.reactor.watchers.length ∧
      ((c.work clock?).commandsLeft < c.commandsLeft ∧
          (c.work clock?).handoutsLeft ≤ c.handoutsLeft + c.reactor.watchers.length ∨
        (c.work clock?).commandsLeft = c.commandsLeft ∧
          (c.work clock?).handoutsLeft < c.handoutsLeft) := by
  -- a flush hands its batch to the feed's watchers, which are the reactor's in a sound course
  have hwatchers : c.reactor.feed.watchers.length = c.reactor.watchers.length := by
    rw [h.watchers_eq, List.length_range, ← h.names_eq, List.length_map]
  obtain ⟨r, agenda, history⟩ := c
  dsimp only at hwatchers
  cases agenda with
  | nil => exact absurd rfl hne
  | cons first rest =>
    obtain ⟨n, task⟩ := first
    cases task with
    | perform command =>
      cases command with
      | write path content =>
        simp [work, Reactor.step, Reactor.perform, commandsLeft, handoutsLeft, commandsOf, handoutsIn,
          commandCount]
      | flush =>
        by_cases hpending : r.feed.store.pending = []
        · simp [work, Reactor.step, Reactor.perform, Feed.flush_of_nil hpending, commandsLeft,
            handoutsLeft, commandsOf, handoutsIn, commandCount]
        · -- the command is gone, and one handout for each watcher has come instead
          simp [work, Reactor.step, Reactor.perform, Feed.flush_of_ne hpending, commandsLeft,
            handoutsLeft, commandsOf, handoutsIn, commandCount, Function.comp_def, hwatchers]
          omega
      | watch name reactions =>
        simp [work, Reactor.step, Reactor.perform, commandsLeft, handoutsLeft, commandsOf, handoutsIn,
          commandCount]
        omega
    | deliver w batch =>
      -- the commands of a reaction were counted while it was waiting for its turn
      obtain ⟨commands, hmade, hlength, hcounts⟩ := counts_deliver r w batch
      simp only [work, Reactor.step, hmade, hlength, commandsLeft, handoutsLeft, List.map_append,
        List.map_cons, List.sum_append, List.sum_cons, map_commandsOf_perform, sum_handoutsIn_perform,
        handoutsIn, commandsOf]
      omega

/-! ## Until nothing is left -/

/-- With fuel for what is left, a reactor works its agenda off. `bound` bounds the watchers that
there are and that may join. -/
theorem exists_works_eq_run (clock? : Option Nat) (bound : Nat) {fuel : Nat} (h : Sound c)
    (hbound : c.commandsLeft + c.reactor.watchers.length ≤ bound)
    (hfuel : c.commandsLeft * (bound + 1) + c.handoutsLeft ≤ fuel) :
    ∃ n, (c.run (List.replicate n (.work clock?))).agenda = [] ∧
      (c.run (List.replicate n (.work clock?))).reactor =
        Reactor.run clock? fuel c.reactor (c.agenda.map Prod.snd) := by
  induction fuel generalizing c with
  | zero =>
    have hnone : c.commandsLeft = 0 ∧ c.handoutsLeft = 0 := by
      obtain ⟨hcommands, hhandouts⟩ := Nat.add_eq_zero_iff.mp (Nat.le_zero.mp hfuel)
      exact ⟨(Nat.mul_eq_zero.mp hcommands).resolve_right (Nat.succ_ne_zero _), hhandouts⟩
    have hempty : c.agenda = [] := by
      refine Classical.byContradiction fun hne => ?_
      have hwork := (load_work h hne clock?).2
      omega
    exact ⟨0, hempty, rfl⟩
  | succ fuel ih =>
    cases hagenda : c.agenda with
    | nil => exact ⟨0, hagenda, rfl⟩
    | cons first rest =>
      -- a command costs as much as all the handouts that it may make, and one more
      obtain ⟨hless, hwork⟩ := load_work h (by rw [hagenda]; simp) clock?
      have hmeasure :
          (c.work clock?).commandsLeft * (bound + 1) + (c.work clock?).handoutsLeft ≤ fuel := by
        rcases hwork with ⟨hcommands, hhandouts⟩ | ⟨hcommands, hhandouts⟩
        · have hcost := Nat.mul_le_mul_right (bound + 1) (Nat.succ_le_of_lt hcommands)
          rw [Nat.succ_mul] at hcost
          omega
        · rw [hcommands]
          omega
      obtain ⟨n, hdone, hreactor⟩ := ih (h.work clock?) (by omega) hmeasure
      refine ⟨n + 1, hdone, hreactor.trans ?_⟩
      obtain ⟨swap, task⟩ := first
      rw [Course.work, hagenda, List.map_cons, Reactor.run]
      dsimp only
      rw [List.map_append, List.map_map]
      simp [Function.comp_def]

variable {debounce : Nat} {moves : List Move}

/-- With nothing on the agenda, what is told to a reactor is done when some pieces of work have
been. -/
theorem exists_run_eq_act (hempty : ((initial debounce).run moves).agenda = [])
    (clock? : Option Nat) (command : Command) :
    ∃ n, ((initial debounce).run (moves ++ .ask command :: List.replicate n (.work clock?))).agenda = [] ∧
      ((initial debounce).run (moves ++ .ask command :: List.replicate n (.work clock?))).reactor =
        ((initial debounce).run moves).reactor.act clock? command := by
  have h := (sound_run debounce moves).step (.ask command)
  have hsplit : ∀ n, (initial debounce).run (moves ++ .ask command :: List.replicate n (.work clock?)) =
      (((initial debounce).run moves).step (.ask command)).run (List.replicate n (.work clock?)) := by
    intro n
    rw [run, List.foldl_append]
    rfl
  simp only [hsplit]
  generalize (initial debounce).run moves = c at h hempty
  have hstep : c.step (.ask command) = { c with agenda := [(0, .perform command)] } := if_pos hempty
  rw [hstep] at h ⊢
  -- the fuel of the act is enough: it bounds the works that this one command can cause
  refine exists_works_eq_run clock? _ h (Nat.le_refl _) ?_
  simp only [commandsLeft, handoutsLeft, commandsOf, handoutsIn, List.map_cons, List.map_nil,
    List.sum_cons, List.sum_nil, fuelOf, Nat.add_zero]
  exact Nat.mul_le_mul (by omega) (by omega)

theorem exists_run_eq_fire (hempty : ((initial debounce).run moves).agenda = []) (now : Nat) :
    ∃ n, ((initial debounce).run (moves ++ .fire now :: List.replicate n (.work (some now)))).agenda = [] ∧
      ((initial debounce).run (moves ++ .fire now :: List.replicate n (.work (some now)))).reactor =
        ((initial debounce).run moves).reactor.fire now := by
  have hsplit : ∀ n, (initial debounce).run (moves ++ .fire now :: List.replicate n (.work (some now))) =
      (((initial debounce).run moves).step (.fire now)).run (List.replicate n (.work (some now))) := by
    intro n
    rw [run, List.foldl_append]
    rfl
  -- a timer that is due asks for a flush, and one that is not does nothing
  by_cases hdue : ((initial debounce).run moves).reactor.feed.isDue now = true
  · have hsame : ((initial debounce).run moves).step (.fire now) =
        ((initial debounce).run moves).step (.ask .flush) := by
      rw [step, step, if_pos ⟨hempty, hdue⟩, if_pos hempty]
    obtain ⟨n, hdone, hreactor⟩ := exists_run_eq_act hempty (some now) .flush
    rw [run, List.foldl_append] at hdone hreactor
    refine ⟨n, ?_, ?_⟩
    · rw [hsplit, hsame]
      exact hdone
    · rw [hsplit, hsame, Reactor.fire, if_pos hdue]
      exact hreactor
  · refine ⟨0, ?_, ?_⟩
    · rw [hsplit, step, if_neg fun hready => hdue hready.2]
      exact hempty
    · rw [hsplit, step, if_neg fun hready => hdue hready.2, Reactor.fire, if_neg hdue]
      rfl

end Packwright.Reactor.Course
