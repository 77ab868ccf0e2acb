import Packwright.Proofs.Watch.Cycle
import Packwright.Proofs.Watch.Supervision
import Packwright.Proofs.Watch.Unowned

/-!
# A path that belongs to nothing is fatal

A watch that comes to a batch with a path that belongs to nothing has finished the batches before it,
and ends with the failure of that path. Whoever waits for the watch hears of it.

* `Fate` says how far a watch has come that has such a batch before it, `Story` what whoever waits
  for it has heard. `Fate.step` and `Story.step` are the steps, by move and by occurrence.
* `Story.leadsTo_end` is the progress: the worker comes to its end.
* `stray_is_fatal` is what this means.
-/

namespace Packwright.Watch

/-! ## How far a watch has come -/

namespace Run

/-- How far a watch has come that has had `base` behind it, and then `due` before it, with `bad` at
the end, whose path is refused. -/
inductive Fate (c : Coordinator) (base due : List Batch) (bad : Batch) (path : String) (t : Run) : Prop
  /-- The worker goes on with the batches before the bad one. -/
  | ahead {handled waiting more : List Batch} (split : due = handled ++ waiting)
      (taken : t.taken = base ++ handled) (queue : t.queue = waiting ++ bad :: more)
      (working : t.worker.isWorking = true)
      (sorted : ∀ batch ∈ waiting, ∃ sorted, c.classify batch = .ok sorted)
      (own : ∀ batch job rest, t.worker = .busy batch job rest → batch ∈ due)
  /-- A write for one of these has failed. -/
  | hindered {handled waiting : List Batch} {batch : Batch} {cause : Disk.Error}
      (split : due = handled ++ waiting) (taken : t.taken = base ++ handled) (hin : batch ∈ due)
      (worker : t.worker = .ended (some batch) (.error (.disk cause)))
  /-- The worker has come to the bad one, and that was its end. -/
  | met (taken : t.taken = base ++ (due ++ [bad]))
      (worker : t.worker = .ended (some bad) (.error (.noUnit path)))

variable {c : Coordinator} {base due : List Batch} {bad : Batch} {path : String} {t t' : Run}

/-- What the worker does not do leaves the fate of a watch alone. -/
theorem Fate.mono (h : Fate c base due bad path t) (hworker : t'.worker = t.worker)
    (htaken : t'.taken = t.taken) (hqueue : ∃ more, t'.queue = t.queue ++ more) :
    Fate c base due bad path t' := by
  obtain ⟨later, hlater⟩ := hqueue
  cases h with
  | @ahead handled waiting more split taken queue working sorted own =>
    have hlonger : t'.queue = waiting ++ bad :: (more ++ later) := by
      rw [hlater, queue, List.append_assoc, List.cons_append]
    exact .ahead split (htaken.trans taken) hlonger (hworker ▸ working) sorted (hworker ▸ own)
  | hindered split taken hin worker =>
    exact .hindered split (htaken.trans taken) hin (hworker.trans worker)
  | met taken worker => exact .met (htaken.trans taken) (hworker.trans worker)

/-- The worker goes on, or it has ended by a failure. -/
theorem Fate.working_or_ended (h : Fate c base due bad path t) :
    t.worker.isWorking = true ∨ ∃ batch? e, t.worker = .ended batch? (.error e) := by
  cases h with
  | ahead _ _ _ working => exact .inl working
  | hindered _ _ _ worker => exact .inr ⟨_, _, worker⟩
  | met _ worker => exact .inr ⟨_, _, worker⟩

/-- The fate is one of a worker that is there. -/
theorem Fate.ne_absent (h : Fate c base due bad path t) : t.worker ≠ .absent := by
  intro habsent
  rcases h.working_or_ended with hworking | ⟨batch?, e, hended⟩
  · rw [habsent] at hworking
    exact absurd hworking Bool.false_ne_true
  · exact absurd (habsent.symm.trans hended) (by simp)

/-- No batch after the bad one has been taken, and only a watch that has met the bad one has taken
that. -/
theorem Fate.handled (h : Fate c base due bad path t) :
    ∃ handled, t.taken = base ++ handled ∧ handled <+: due ++ [bad] ∧
      (handled = due ++ [bad] → t.worker = .ended (some bad) (.error (.noUnit path))) := by
  -- before the bad batch is met, fewer batches are taken than it takes to reach it
  have hshort : ∀ handled waiting, due = handled ++ waiting → handled ≠ due ++ [bad] := by
    rintro handled waiting hsplit heq
    have hlong := congrArg List.length heq
    rw [List.length_append, hsplit, List.length_append, List.length_singleton] at hlong
    omega
  cases h with
  | @ahead handled waiting _ split taken =>
    refine ⟨handled, taken, ?_, fun heq => absurd heq (hshort handled waiting split)⟩
    rw [split, List.append_assoc]
    exact List.prefix_append _ _
  | @hindered handled waiting _ _ split taken =>
    refine ⟨handled, taken, ?_, fun heq => absurd heq (hshort handled waiting split)⟩
    rw [split, List.append_assoc]
    exact List.prefix_append _ _
  | met taken worker => exact ⟨due ++ [bad], taken, List.prefix_refl _, fun _ => worker⟩

/-- **Taking a batch**: another one that is due, or the bad one, which is the end. -/
theorem Fate.take (h : Fate c base due bad path t) (hbad : c.classify bad = .error (.noUnit path)) :
    Fate c base due bad path (t.take c) := by
  by_cases hidle : t.worker = .idle
  · cases h with
    | hindered _ _ _ worker => exact absurd (hidle.symm.trans worker) (by simp)
    | met _ worker => exact absurd (hidle.symm.trans worker) (by simp)
    | @ahead handled waiting more split taken queue working sorted own =>
      -- the next batch is the bad one exactly if no other one waits before it
      cases waiting with
      | nil =>
        obtain ⟨-, htaken, hworker⟩ := take_of_idle (c := c) hidle queue
        rw [hbad] at hworker
        rw [taken, List.append_assoc, ← List.append_nil handled, ← split] at htaken
        exact .met htaken hworker
      | cons next waiting =>
        obtain ⟨⟨direct, dirty⟩, hsorted⟩ := sorted next List.mem_cons_self
        obtain ⟨hqueue, htaken, hworker⟩ := take_of_idle (c := c) hidle queue
        rw [hsorted] at hworker
        rw [taken, List.append_assoc] at htaken
        have hsplit : due = (handled ++ [next]) ++ waiting := by simp [split]
        refine .ahead hsplit htaken hqueue (by rw [hworker]; rfl)
          (fun batch hbatch => sorted batch (List.mem_cons_of_mem _ hbatch)) fun batch job rest heq => ?_
        obtain ⟨rfl, -, -⟩ := Worker.busy.inj (hworker.symm.trans heq)
        simp [split]
  · rw [take_of_not_idle hidle]
    exact h

/-- **Going on with a batch**: what it fails by is a write of its own. -/
theorem Fate.work (h : Fate c base due bad path t) (htame : t.Tame)
    (answers : (q : Question) → Except Failure q.Answer) :
    Fate c base due bad path (t.work c answers) := by
  cases hworker : t.worker with
  | busy batch job rest =>
    cases h with
    | hindered _ _ _ worker => exact absurd (hworker.symm.trans worker) (by simp)
    | met _ worker => exact absurd (hworker.symm.trans worker) (by simp)
    | ahead split taken queue working sorted own =>
      have hin := own batch job rest hworker
      have hfails := htame batch job rest hworker
      have htaken := (work_keeps t c answers).1.trans taken
      have hqueue := (work_keeps t c answers).2.trans queue
      have hnext := worker_work (c := c) hworker answers
      unfold next at hnext
      -- the job fails by a write, is done, or goes on
      split at hnext
      · obtain ⟨cause, rfl⟩ := hfails
        exact .hindered split htaken hin hnext
      · exact .ahead split htaken hqueue (by rw [hnext]; rfl) sorted fun _ _ _ heq =>
          absurd (hnext.symm.trans heq) (by simp)
      all_goals
        refine .ahead split htaken hqueue (by rw [hnext]; rfl) sorted fun _ _ _ heq => ?_
        obtain ⟨rfl, -, -⟩ := Worker.busy.inj (hnext.symm.trans heq)
        exact hin
  | _ =>
    rw [work_of_not_busy (by simp [hworker]) answers]
    exact h

/-- **Whatever happens in a watch**, its fate is one of the three. -/
theorem Fate.step (h : Fate c base due bad path t) (htame : t.Tame)
    (hbad : c.classify bad = .error (.noUnit path)) {move : Move} (hstop : move.isStop = false) :
    Fate c base due bad path (t.step c move) := by
  by_cases htake : move = .take
  · rw [htake]
    exact h.take hbad
  · by_cases hwork : ∃ answers, move = .work answers
    · obtain ⟨answers, rfl⟩ := hwork
      exact h.work htame answers
    · obtain ⟨hworker, htaken, hqueue⟩ := step_beside (c := c) h.ne_absent htake
        (fun answers heq => hwork ⟨answers, heq⟩) hstop
      exact h.mono hworker htaken hqueue

end Run

/-! ## What is heard of it -/

namespace Supervision

/-- What whoever waits has heard of such a watch. -/
inductive Story (c : Coordinator) (base due : List Batch) (bad : Batch) (path : String)
    (t : Supervision) : Prop
  /-- Nothing yet. -/
  | awaited (fate : t.watch.Fate c base due bad path) (unheard : t.result? = none)
      (unstopped : t.compilation ≠ .stopped)
  /-- The failure of the worker, which has ended the compilation. -/
  | heard {batch? : Option Batch} {e : Failure} (fate : t.watch.Fate c base due bad path)
      (worker : t.watch.worker = .ended batch? (.error e)) (result : t.result? = some (.error e))
      (stopped : t.compilation = .stopped)
  /-- The compilation was over by itself, which has ended the worker if it was not over as well. -/
  | forestalled {own : Except Failure Unit} {handled : List Batch} (closed : t.compilation = .ended own)
      (result : ∃ r, t.result? = some r) (ended : t.HasEnded)
      (taken : t.watch.taken = base ++ handled) (within : handled <+: due ++ [bad])
      (met : handled = due ++ [bad] → t.watch.worker = .ended (some bad) (.error (.noUnit path)))

variable {c : Coordinator} {base due : List Batch} {bad : Batch} {path : String} {t : Supervision}

/-- **Being woken**: by the failure of the worker, by the end of the compilation, or too early. -/
theorem Story.wake (h : Story c base due bad path t) (workerFirst : Bool) :
    Story c base due bad path (t.wake workerFirst) := by
  -- who has been told a result is not woken again
  have hsame : (∃ r, t.result? = some r) → t.wake workerFirst = t := by
    rintro ⟨r, hr⟩
    unfold Supervision.wake
    rw [hr]
  cases h with
  | heard fate worker result stopped =>
    rw [hsame ⟨_, result⟩]
    exact .heard fate worker result stopped
  | forestalled closed result ended taken within met =>
    rw [hsame result]
    exact .forestalled closed result ended taken within met
  | awaited fate unheard unstopped =>
    obtain ⟨htaken, hqueue, hstopped, hkept⟩ := t.watch.stop_spec (.ok ())
    unfold Supervision.wake
    rw [unheard]
    cases hendings : t.endings workerFirst with
    | nil => exact .awaited fate unheard unstopped
    | cons first others =>
      dsimp only
      cases hcompilation : t.compilation with
      | stopped => exact absurd hcompilation unstopped
      | ended own =>
        obtain ⟨handled, hhandled, hwithin, hmet⟩ := fate.handled
        exact .forestalled rfl ⟨_, rfl⟩ hstopped (htaken.trans hhandled) hwithin fun heq =>
          hkept _ _ (hmet heq)
      | working =>
        have hworker := endings_of_working hcompilation workerFirst
        rcases fate.working_or_ended with hworking | ⟨batch?, e, hended⟩
        · have hnone : t.endings workerFirst = [] := by
            rw [hworker]
            split
            · rename_i hended
              rw [hended] at hworking
              exact absurd hworking Bool.false_ne_true
            · rfl
          exact absurd (hendings.symm.trans hnone) (by simp)
        · rw [hended] at hworker
          rw [hendings.symm.trans hworker]
          exact .heard (fate.mono ((hkept _ _ hended).trans hended.symm) htaken
            ⟨[], hqueue.trans (List.append_nil _).symm⟩) (hkept _ _ hended) rfl rfl

/-- **Whatever occurs**, the story goes on. -/
theorem Story.step (h : Story c base due bad path t) (htame : t.watch.Tame)
    (hbad : c.classify bad = .error (.noUnit path)) (o : Occurrence) :
    Story c base due bad path (t.step c o) := by
  cases o with
  | wake workerFirst => exact h.wake workerFirst
  | compilerEnds result =>
    unfold Supervision.step
    dsimp only
    split
    · rename_i hworking
      cases h with
      | awaited fate unheard _ => exact .awaited fate unheard (by simp)
      | heard _ _ _ stopped =>
        rw [stopped] at hworking
        exact absurd hworking Bool.false_ne_true
      | forestalled closed =>
        rw [closed] at hworking
        exact absurd hworking Bool.false_ne_true
    · exact h
  | move m =>
    unfold Supervision.step
    dsimp only
    split
    · exact h
    · rename_i hgoes
      -- the watch is stopped by the supervision only
      have hstop : m.isStop = false := by
        cases hm : m.isStop with
        | true => simp [hm] at hgoes
        | false => rfl
      cases h with
      | awaited fate unheard unstopped =>
        exact .awaited (fate.step htame hbad hstop) unheard unstopped
      | heard fate worker result stopped =>
        exact .heard (fate.step htame hbad hstop) (Run.step_of_ended worker m).1 result stopped
      | forestalled closed result ended taken within met =>
        obtain ⟨batch?, own, hended⟩ := ended
        obtain ⟨hworker, htaken⟩ := Run.step_of_ended (c := c) hended m
        exact .forestalled closed result ⟨_, _, hworker⟩ (htaken.trans taken) within fun heq =>
          hworker.trans (hended.symm.trans (met heq))

theorem Story.run (h : Story c base due bad path t) (hreached : Reached c t)
    (hbad : c.classify bad = .error (.noUnit path)) (occurrences : List Occurrence) :
    Story c base due bad path (t.run c occurrences) := by
  induction occurrences generalizing t with
  | nil => exact h
  | cons o rest ih => exact ih (h.step hreached.tame hbad o) (hreached.step o)

/-- A watch that has a bad batch before it starts such a story. -/
theorem story_start (hreached : Reached c t) {good later : List Batch} (hresult : t.result? = none)
    (hcompilation : t.compilation = .working) (hworker : t.watch.worker.isWorking = true)
    (hqueue : t.watch.queue = good ++ bad :: later)
    (hgood : ∀ batch ∈ good, ∃ sorted, c.classify batch = .ok sorted) :
    Story c t.watch.finished (t.watch.worker.batch?.toList ++ good) bad path t := by
  refine .awaited (.ahead rfl hreached.sound.taken_eq hqueue hworker hgood ?_) hresult
    (by simp [hcompilation])
  intro batch job rest hbusy
  simp [hbusy, Worker.batch?]

/-- In every part of the story the worker is there. -/
theorem Story.ne_absent (h : Story c base due bad path t) : t.watch.worker ≠ .absent := by
  cases h with
  | awaited fate => exact fate.ne_absent
  | heard fate => exact fate.ne_absent
  | forestalled _ _ ended =>
    obtain ⟨_, _, hended⟩ := ended
    simp [hended]

/-- No batch after the bad one is ever taken. -/
theorem Story.handled (h : Story c base due bad path t) :
    ∃ handled, t.watch.taken = base ++ handled ∧ handled <+: due ++ [bad] ∧
      (handled = due ++ [bad] → t.watch.worker = .ended (some bad) (.error (.noUnit path))) := by
  cases h with
  | awaited fate => exact fate.handled
  | heard fate => exact fate.handled
  | forestalled _ _ _ taken within met => exact ⟨_, taken, within, met⟩

/-- What is heard: the failure of the bad path, or of a write for a batch before it. -/
theorem Story.result (h : Story c base due bad path t) {r : Except Failure Unit}
    (hr : t.result? = some r) (hown : ∀ own, t.compilation ≠ .ended own) :
    t.compilation = .stopped ∧
      (r = .error (.noUnit path) ∧ t.watch.taken = base ++ (due ++ [bad]) ∨
        ∃ batch ∈ due, ∃ cause, r = .error (.disk cause) ∧
          t.watch.worker = .ended (some batch) (.error (.disk cause))) := by
  cases h with
  | awaited _ unheard => exact absurd (unheard.symm.trans hr) (by simp)
  | forestalled closed => exact absurd closed (hown _)
  | heard fate worker result stopped =>
    obtain rfl := Option.some.inj (result.symm.trans hr)
    refine ⟨stopped, ?_⟩
    cases fate with
    | ahead _ _ _ working =>
      -- the worker has ended, so it is not on its way any more
      rw [worker] at working
      exact absurd working Bool.false_ne_true
    | hindered _ _ hin ended =>
      obtain ⟨-, heq⟩ := Worker.ended.inj (worker.symm.trans ended)
      exact .inr ⟨_, hin, _, heq, ended⟩
    | met taken ended =>
      obtain ⟨-, heq⟩ := Worker.ended.inj (worker.symm.trans ended)
      exact .inl ⟨heq, taken⟩

/-! ## That it comes to an end -/

variable {course : Nat → Occurrence}

def IsWake (o : Occurrence) : Prop :=
  ∃ workerFirst, o = .wake workerFirst

/-- An idle worker that has such a batch before it takes the next batch some day. -/
theorem Story.leadsTo_taken (hstory : ∀ n, Story c base due bad path (after c t course n))
    (htake : Recurs course IsTake) (k : Nat) :
    LeadsTo c t course (fun t => t.watch.worker = .idle ∧ k ≤ t.watch.taken.length)
      fun t => t.HasEnded ∨ k + 1 ≤ t.watch.taken.length := by
  have hturn : ∀ n, IsTake (course n) → (after c t course n).watch.worker = .idle ∧
      k ≤ (after c t course n).watch.taken.length → (after c t course (n + 1)).HasEnded ∨
        k + 1 ≤ (after c t course (n + 1)).watch.taken.length := by
    rintro n hcourse ⟨hidle, hk⟩
    have hqueue : ∃ batch rest, (after c t course n).watch.queue = batch :: rest := by
      cases hstory n with
      | heard _ worker => exact absurd (hidle.symm.trans worker) (by simp)
      | forestalled _ _ ended =>
        obtain ⟨_, _, hended⟩ := ended
        exact absurd (hidle.symm.trans hended) (by simp)
      | awaited fate =>
        cases fate with
        | hindered _ _ _ worker => exact absurd (hidle.symm.trans worker) (by simp)
        | met _ worker => exact absurd (hidle.symm.trans worker) (by simp)
        | @ahead _ waiting _ _ _ queue => cases waiting <;> exact ⟨_, _, queue⟩
    obtain ⟨batch, rest, hqueue⟩ := hqueue
    have htaken := (Run.take_of_idle (c := c) hidle hqueue).2.1
    rw [after_succ, hcourse]
    show _ ∨ k + 1 ≤ ((after c t course n).watch.take c).taken.length
    rw [htaken, List.length_append]
    exact .inr (Nat.succ_le_succ hk)
  refine leadsTo_of_turn htake (fun n h => ?_) hturn
  have hstep := worker_step (c := c) (hstory n).ne_absent (course n)
  rw [← after_succ] at hstep
  rcases hstep with hstays | hended | ⟨hkind, -⟩ | ⟨-, _, _, _, hbusy⟩
  · exact .inl ⟨hstays.trans h.1, Nat.le_trans h.2 (length_taken_after (Nat.le_succ n))⟩
  · exact .inr (.inl hended)
  · exact .inr (hturn n hkind h)
  · exact absurd (h.1.symm.trans hbusy) (by simp)

/-- **The worker comes to its end**: the induction is on the number of batches that are left. -/
theorem Story.leadsTo_end (hstory : ∀ n, Story c base due bad path (after c t course n))
    (htake : Recurs course IsTake) (hwork : Recurs course IsWork) (n : Nat) :
    ∃ m ≥ n, (after c t course m).HasEnded := by
  suffices h : ∀ k n, base.length + due.length + 1 ≤ (after c t course n).watch.taken.length + k →
      ∃ m ≥ n, (after c t course m).HasEnded from
    h _ n (Nat.le_add_left _ _)
  -- `k` bounds how many may still be taken, the bad one included
  intro k
  induction k with
  | zero =>
    intro n hall
    -- all of them have been taken, the bad one as well
    obtain ⟨handled, htaken, hwithin, hmet⟩ := (hstory n).handled
    rw [htaken, List.length_append] at hall
    have heq : handled = due ++ [bad] := hwithin.eq_of_length_le (by simp; omega)
    exact ⟨n, Nat.le_refl n, _, _, hmet heq⟩
  | succ k ih =>
    intro n hleft
    have hoff : ∃ m ≥ n, (after c t course m).HasLeft := by
      cases hworker : (after c t course n).watch.worker with
      | idle => exact ⟨n, Nat.le_refl n, .inl hworker⟩
      | ended batch? result => exact ⟨n, Nat.le_refl n, .inr ⟨_, _, hworker⟩⟩
      | busy batch job rest => exact leadsTo_left hwork batch job rest n hworker
      | absent => exact absurd hworker (hstory n).ne_absent
    obtain ⟨m, hm, hidle | hended⟩ := hoff
    · have hfar : (after c t course n).watch.taken.length ≤ (after c t course m).watch.taken.length :=
        length_taken_after hm
      obtain ⟨m', hm', hended | htaken⟩ := leadsTo_taken hstory htake _ m ⟨hidle, Nat.le_refl _⟩
      · exact ⟨m', Nat.le_trans hm hm', hended⟩
      · obtain ⟨last, hlast, hended⟩ := ih m' (by omega)
        exact ⟨last, Nat.le_trans hm (Nat.le_trans hm' hlast), hended⟩
    · exact ⟨m, hm, hended⟩

/-- Whoever is woken when the worker has ended hears of it. -/
theorem exists_result_of_wake (hended : t.HasEnded) (workerFirst : Bool) :
    ∃ r, (t.wake workerFirst).result? = some r := by
  obtain ⟨batch?, result, hended⟩ := hended
  cases hresult : t.result? with
  | some r =>
    refine ⟨r, ?_⟩
    unfold Supervision.wake
    rw [hresult]
    exact hresult
  | none =>
    have hmem : result ∈ t.endings workerFirst := by
      unfold endings
      rw [hended]
      cases workerFirst <;> simp
    unfold Supervision.wake
    rw [hresult]
    cases hendings : t.endings workerFirst with
    | nil => exact absurd (hendings ▸ hmem) List.not_mem_nil
    | cons first others => exact ⟨_, rfl⟩

/-- **Whoever waits hears of it**, if there are turns for the worker and for who waits. -/
theorem Story.exists_result (hstory : ∀ n, Story c base due bad path (after c t course n))
    (htake : Recurs course IsTake) (hwork : Recurs course IsWork) (hwake : Recurs course IsWake) :
    ∃ n r, (after c t course n).result? = some r := by
  obtain ⟨n, -, hended⟩ := leadsTo_end hstory htake hwork 0
  obtain ⟨m, hm, workerFirst, hcourse⟩ := hwake n
  obtain ⟨r, hr⟩ := exists_result_of_wake (hasEnded_after hm hended) workerFirst
  refine ⟨m + 1, r, ?_⟩
  rw [after_succ, hcourse]
  exact hr

/-! ## What this means -/

/-- What becomes of a watch that is at `t`, with `bad` before it after the batches that are due. -/
structure Ends (c : Coordinator) (due : List Batch) (bad : Batch) (path : String)
    (t : Supervision) : Prop where
  /-- Batches are taken in order, and none after the bad one. When that one is taken, those before
  it are finished, and it is the end of the worker. -/
  in_order : ∀ occurrences, ∃ handled,
    (t.run c occurrences).watch.taken = t.watch.finished ++ handled ∧ handled <+: due ++ [bad] ∧
      (handled = due ++ [bad] →
        (t.run c occurrences).watch.finished = t.watch.finished ++ due ∧
          (t.run c occurrences).watch.worker = .ended (some bad) (.error (.noUnit path)))
  /-- Whoever waits has the compilation ended, and hears of the bad path when the batches before it
  are finished, unless a write for one of these has failed. -/
  heard : ∀ occurrences r, (t.run c occurrences).result? = some r →
    (∀ own, (t.run c occurrences).compilation ≠ .ended own) →
      (t.run c occurrences).compilation = .stopped ∧
        (r = .error (.noUnit path) ∧
            (t.run c occurrences).watch.finished = t.watch.finished ++ due ∨
          ∃ batch ∈ due, ∃ cause, r = .error (.disk cause) ∧
            (t.run c occurrences).watch.worker = .ended (some batch) (.error (.disk cause)))
  /-- What is heard is final, and nothing is stored any more. -/
  final : ∀ occurrences r, (t.run c occurrences).result? = some r → ∀ more,
    (t.run c (occurrences ++ more)).result? = some r ∧
      ∀ p, (t.run c (occurrences ++ more)).watch.text? p = (t.run c occurrences).watch.text? p
  /-- It is heard some day, whatever the engines answer and whatever else occurs. -/
  comes : ∀ course, Recurs course IsTake → Recurs course IsWork → Recurs course IsWake →
    ∃ n r, (after c t course n).result? = some r

theorem run_append (t : Supervision) (c : Coordinator) (first more : List Occurrence) :
    t.run c (first ++ more) = (t.run c first).run c more :=
  List.foldl_append

/-- When something is heard, the compilation is over. -/
theorem Story.not_working (h : Story c base due bad path t) {r : Except Failure Unit}
    (hr : t.result? = some r) : t.compilation.isWorking = false := by
  cases h with
  | awaited _ unheard => exact absurd (unheard.symm.trans hr) (by simp)
  | heard _ _ _ stopped => rw [stopped]; rfl
  | forestalled closed => rw [closed]; rfl

theorem Story.ends (hstory : Story c t.watch.finished due bad path t) (hreached : Reached c t)
    (hbad : c.classify bad = .error (.noUnit path)) : Ends c due bad path t := by
  have hall : ∀ occurrences, Story c t.watch.finished due bad path (t.run c occurrences) :=
    hstory.run hreached hbad
  -- what was taken and is not in hand is finished
  have hfinished : ∀ occurrences,
      (t.run c occurrences).watch.taken = t.watch.finished ++ (due ++ [bad]) →
      (t.run c occurrences).watch.worker = .ended (some bad) (.error (.noUnit path)) →
      (t.run c occurrences).watch.finished = t.watch.finished ++ due := by
    intro occurrences htaken hworker
    have heq := (hreached.run occurrences).sound.taken_eq
    rw [htaken, hworker, ← List.append_assoc] at heq
    exact (List.append_inj_left' heq rfl).symm
  constructor
  case in_order =>
    intro occurrences
    obtain ⟨handled, htaken, hwithin, hmet⟩ := (hall occurrences).handled
    refine ⟨handled, htaken, hwithin, fun heq => ⟨?_, hmet heq⟩⟩
    exact hfinished occurrences (heq ▸ htaken) (hmet heq)
  case heard =>
    intro occurrences r hr hown
    obtain ⟨hstopped, hwhat⟩ := (hall occurrences).result hr hown
    refine ⟨hstopped, hwhat.imp_left fun ⟨heq, htaken⟩ => ⟨heq, ?_⟩⟩
    obtain ⟨handled, hhandled, -, hmet⟩ := (hall occurrences).handled
    have hbad : handled = due ++ [bad] := List.append_cancel_left (hhandled.symm.trans htaken)
    exact hfinished occurrences htaken (hmet hbad)
  case final =>
    intro occurrences r hr more
    have hendings := (hall occurrences).not_working hr
    rw [run_append]
    refine ⟨?_, fun p => text?_run (hreached.run occurrences) hendings more p⟩
    generalize t.run c occurrences = u at hr hendings
    induction more generalizing u with
    | nil => exact hr
    | cons o rest ih =>
      obtain ⟨hresult, hcompilation⟩ := step_of_result (c := c) hr hendings o
      exact ih _ hresult (hcompilation ▸ hendings)
  case comes =>
    intro course htake hwork hwake
    exact Story.exists_result (fun n => hall _) htake hwork hwake

end Supervision

namespace Coordinator

/-- Whether a batch is refused: nothing is asked for it, and nothing is changed but the phase. -/
def Refuses (c : Coordinator) (batch : Batch) (path : String) : Prop :=
  ∀ {σ : Type} (engines : Job.Engines σ) (s : Session × σ),
    Job.run engines (c.process batch) s =
        (.error (.noUnit path), ({ s.1 with phase := .flushing }, s.2)) ∧
      Job.exchanges engines (c.process batch) s = []

/-- Whether a watch can be started with this coordinator. -/
def IsStarted (c : Coordinator) : Prop :=
  ∃ (σ : Type) (engines : Job.Engines σ) (config : Config) (plugins : Build.EnginePlugins)
    (entries extra : List FilePath) (s s' : Session × σ) (request : CompileRequest),
    Job.run engines (start config plugins entries extra) s = (.ok ⟨request, c⟩, s')

/-- **A stray path is fatal**: its batch is refused by the first path that is not owned, which in a
watch that was started is the first stray one; and whoever waits for a watch that comes to this batch
hears of this path. -/
theorem stray_is_fatal (c : Coordinator) (bad : Batch) (hstray : ∃ path ∈ bad, c.Stray path) :
    ∃ before path after, bad = before ++ path :: after ∧ (∀ p ∈ before, ¬ c.Unowned p) ∧
      c.Unowned path ∧ (c.IsStarted → c.Stray path ∧ ∀ p ∈ before, ¬ c.Stray p) ∧
      c.Refuses bad path ∧
      ∀ (s : Session) (debounce now : Nat) (past : List Occurrence) (good later : List Batch),
        let t := (Supervision.initial s debounce now).run c past
        t.result? = none → t.compilation = .working → t.watch.worker.isWorking = true →
        t.watch.queue = good ++ bad :: later → (∀ batch ∈ good, ∀ p ∈ batch, ¬ c.Unowned p) →
          t.Ends c (t.watch.worker.batch?.toList ++ good) bad path := by
  obtain ⟨before, path, after, rfl, hbefore, hpath⟩ :=
    exists_first_unowned (hstray.imp fun _ h => ⟨h.1, h.2.unowned⟩)
  refine ⟨before, path, after, rfl, hbefore, hpath, ?_, ?_, ?_⟩
  · rintro ⟨σ, engines, config, plugins, entries, extra, s, s', request, hstart⟩
    have hsame : ∀ p, c.Stray p ↔ c.Unowned p := stray_iff_unowned_of_start hstart
    exact ⟨(hsame path).mpr hpath, fun p hp h => hbefore p hp ((hsame p).mp h)⟩
  · exact fun engines s => run_process_of_unowned engines hbefore hpath s
  · intro s debounce now past good later t hresult hcompilation hworker hqueue hgood
    have hreached : t.Reached c := Supervision.reached_run c s debounce now past
    have hsorted : ∀ batch ∈ good, ∃ sorted, c.classify batch = .ok sorted := by
      intro batch hbatch
      obtain ⟨direct, dirty, hclassify⟩ :=
        c.exists_classify fun p hp => exists_owner (hgood batch hbatch p hp)
      exact ⟨_, hclassify⟩
    refine Supervision.Story.ends ?_ hreached (classify_of_unowned hbefore hpath)
    exact Supervision.story_start hreached hresult hcompilation hworker hqueue hsorted

/-! ## Two units of one root -/

/-- A unit with this entry. -/
def sharedRootUnit (entry : String) : BuildUnit where
  entry := .ofLocation ["u", "src", entry]
  root := .ofLocation ["u"]
  sourceDir := .ofLocation ["u", "src"]
  testDir? := none
  tests := []
  manifest := ⟨"u", []⟩
  needsGrammar := false

/-- A watch over some of two units that have the same root. -/
def sharedRootWatch (units : List BuildUnit) : Coordinator where
  units := units
  bundler := ⟨[sharedRootUnit "a.ts", sharedRootUnit "b.ts"], ⟨false, false⟩, none, .engine "dts" []⟩
  extra := []

/-- A batch with an output of a unit and with a path of another root. -/
def strayBatch : Batch := ["/u/src/b.js", "/z/src/y.js"]

/-- The output changes twice, the other path is written the second time; the worker does nothing. -/
def strayPast : List Occurrence := [
  .move .begin,
  .move (.write "/u/src/b.js" "1"), .move (.wait 100), .move .fire,
  .move (.write "/u/src/b.js" "2"), .move (.write "/z/src/y.js" "3"), .move (.wait 100), .move .fire]

/-- The worker has its turns, and no engine answers well. -/
def strayRest : List Occurrence :=
  .move .take :: List.replicate 20 (.move (.work fun _ => .error .configDocument)) ++
    [.move .take, .wake true]

theorem not_unowned_sharedRoot :
    ¬ (sharedRootWatch [sharedRootUnit "a.ts", sharedRootUnit "b.ts"]).Unowned "/u/src/b.js" :=
  fun h => h.2 (sharedRootUnit "a.ts") (by cbv) List.mem_cons_self

theorem stray_sharedRoot {units : List BuildUnit} (h : ∀ u ∈ units, u.root = .ofLocation ["u"]) :
    (sharedRootWatch units).Stray "/z/src/y.js" := by
  have hroot : rootOf "/z/src/y.js" = .ofLocation ["z"] := by cbv
  refine ⟨List.not_mem_nil, fun u hu heq => ?_⟩
  rw [h u hu, hroot] at heq
  exact absurd heq (by decide)

/-- One batch is finished, and the next one, with the stray path, is the end. -/
theorem stray_is_fatal_secondBatch :
    let c := sharedRootWatch [sharedRootUnit "a.ts", sharedRootUnit "b.ts"]
    let t := (Supervision.initial (.ofDisk ⟨[], []⟩ "") 100 0).run c strayPast
    (∃ path ∈ strayBatch, c.Stray path) ∧ c.Refuses strayBatch "/z/src/y.js" ∧
      t.watch.queue = [["/u/src/b.js"]] ++ strayBatch :: [] ∧
      t.Ends c [["/u/src/b.js"]] strayBatch "/z/src/y.js" ∧
      (t.run c strayRest).watch.finished = [["/u/src/b.js"]] ∧
      (t.run c strayRest).watch.worker =
        .ended (some strayBatch) (.error (.noUnit "/z/src/y.js")) ∧
      (t.run c strayRest).result?.isSome = true := by
  intro c t
  have hstray : ∃ path ∈ strayBatch, c.Stray path :=
    ⟨"/z/src/y.js", by simp [strayBatch], stray_sharedRoot (by simp [sharedRootUnit])⟩
  obtain ⟨before, path, after, hbatch, hbefore, hpath, -, hrefuses, hends⟩ :=
    stray_is_fatal c strayBatch hstray
  have hfirst : path = "/z/src/y.js" := by
    match before, hbatch, hbefore with
    | [], hbatch, _ =>
      obtain ⟨rfl, -⟩ := List.cons.inj hbatch
      exact absurd hpath not_unowned_sharedRoot
    | [_], hbatch, _ =>
      exact (List.cons.inj (List.cons.inj hbatch).2).1.symm
    | _ :: _ :: _, hbatch, _ =>
      exact absurd (congrArg List.length hbatch) (by simp [strayBatch])
  subst hfirst
  have hqueue : t.watch.queue = [["/u/src/b.js"]] ++ strayBatch :: [] := by decide +kernel
  have hthere : t.Ends c [["/u/src/b.js"]] strayBatch "/z/src/y.js" := by
    refine hends (.ofDisk ⟨[], []⟩ "") 100 0 strayPast [["/u/src/b.js"]] [] ?_ ?_ ?_ hqueue ?_
    · rfl
    · rfl
    · rfl
    · simpa using not_unowned_sharedRoot
  have htaken : (t.run c strayRest).watch.taken = [["/u/src/b.js"], strayBatch] := by
    decide +kernel
  have hbehind : t.watch.finished = [] := by decide +kernel
  obtain ⟨handled, hhandled, -, hmet⟩ := hthere.in_order strayRest
  rw [hbehind] at hhandled hmet
  obtain ⟨hfinished, hworker⟩ := hmet (hhandled.symm.trans htaken)
  exact ⟨hstray, hrefuses, hqueue, hthere, hfinished, hworker, by decide +kernel⟩

/-- Where only one of two units with the same root is watched, its own outputs are refused: such an
output comes before the stray path, and it is not stray. -/
theorem first_refused_ne_first_stray_sharedRoot :
    let c := sharedRootWatch [sharedRootUnit "b.ts"]
    c.Stray "/z/src/y.js" ∧ ¬ c.Stray "/u/src/b.js" ∧
      ∀ (engines : Job.Engines Unit) (s : Session × Unit),
        (Job.run engines (c.process ["/u/src/b.js", "/z/src/y.js"]) s).1 =
          .error (.noUnit "/u/src/b.js") := by
  intro c
  have hroot : rootOf "/u/src/b.js" = .ofLocation ["u"] := by cbv
  -- the root is registered for the other unit, which is not of the watch
  have hunowned : c.Unowned "/u/src/b.js" := by
    refine ⟨List.not_mem_nil, fun u hu hin => ?_⟩
    have hfirst : c.bundler.registry.byRoot (rootOf "/u/src/b.js") =
        some (sharedRootUnit "a.ts") := by cbv
    obtain rfl := Option.some.inj (hfirst.symm.trans hu)
    exact absurd hin (by decide)
  refine ⟨stray_sharedRoot (by simp [sharedRootUnit]), fun h => ?_, fun engines s => ?_⟩
  · exact h.2 (sharedRootUnit "b.ts") List.mem_cons_self hroot.symm
  · have hnone : ∀ p ∈ ([] : List String), ¬ c.Unowned p := fun _ h => absurd h List.not_mem_nil
    have hrun : Job.run engines (c.process ([] ++ "/u/src/b.js" :: ["/z/src/y.js"])) s = _ :=
      (run_process_of_unowned engines hnone hunowned s).1
    exact congrArg Prod.fst hrun

end Coordinator

end Packwright.Watch
