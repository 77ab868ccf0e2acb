import Packwright.Proofs.Watch.NothingLost
import Packwright.Watch.Supervision

/-!
# A watch that is waited for

What holds of a watch while somebody waits for it, and what its worker comes to if it gets its turns.

* `take_of_idle` and `worker_work` say what the worker does, `step_beside` that nothing else changes
  it. `Tame` is what its job can fail by.
* `reached_run` carries the facts about a watch over to one that is waited for.
* `LeadsTo` says of an endless course of occurrences what is always followed by what. It is shown
  turn by turn (`leadsTo_of_turn`); `leadsTo_left` is the result: a worker that is busy is so no more
  some day, whatever is answered and whatever happens meanwhile.
-/

namespace Packwright.Watch

namespace Coordinator

/-! ## What an act can fail by -/

variable (c : Coordinator)

/-- Writing a file can only fail at the disk. -/
theorem failsBy_writeThrough (path : String) : (writeThrough path).FailsBy Job.IsOfDisk := by
  unfold writeThrough
  split
  · refine Job.failsBy_session.bind fun s => ?_
    cases s.store.read path with
    | none => exact Job.failsBy_pure ()
    | some content => exact Job.failsBy_writeText _ content
  · exact Job.failsBy_pure ()

/-- Whatever bundling fails by is reported; only the report itself can fail. -/
theorem failsBy_rebuild (u : BuildUnit) : (c.rebuild u).FailsBy Job.IsOfDisk := by
  refine (Job.failsBy_attempt _).bind fun result => ?_
  cases result with
  | ok files => exact (Job.failsBy_record _ _ _ _ _).bind fun _ => Job.failsBy_pure _
  | error e =>
    refine (Job.failsBy_modify _).bind fun _ => ?_
    exact (Job.failsBy_record _ _ _ _ _).bind fun _ => Job.failsBy_pure _

/-- **An act fails by nothing but a write of its own.** -/
theorem failsBy_perform (act : Act) : (c.perform act).FailsBy Job.IsOfDisk := by
  cases act with
  | writeThrough path => exact (failsBy_writeThrough path).bind fun _ => Job.failsBy_pure _
  | announce =>
    exact (Job.failsBy_modify _).bind fun _ => (Job.failsBy_modify _).bind fun _ => Job.failsBy_pure _
  | rebuild u => exact (failsBy_rebuild c u).bind fun _ => Job.failsBy_pure _
  | conclude batch direct dirty =>
    refine (Job.failsBy_modify _).bind fun _ => ?_
    exact (Job.failsBy_record _ _ _ _ _).bind fun _ =>
      (Job.failsBy_modify _).bind fun _ => Job.failsBy_pure _

end Coordinator

namespace Run

variable {c : Coordinator} {t : Run}

/-! ## What the worker does -/

/-- What it is to take a batch. -/
theorem take_of_idle (hidle : t.worker = .idle) {batch : Batch} {rest : List Batch}
    (hqueue : t.queue = batch :: rest) :
    (t.take c).queue = rest ∧ (t.take c).taken = t.taken ++ [batch] ∧
      (t.take c).worker = match c.classify batch with
        | .error e => .ended (some batch) (.error e)
        | .ok (direct, dirty) =>
          .busy batch (.done (.ok [])) (Coordinator.acts batch direct dirty) := by
  unfold Run.take
  rw [hidle, hqueue]
  exact ⟨rfl, by simp [taken, Happening.taken?], rfl⟩

/-- With an empty queue there is nothing to take. -/
theorem take_of_nil (hqueue : t.queue = []) : t.take c = t := by
  unfold Run.take
  split
  · exact absurd (hqueue.symm.trans ‹_›) (by simp)
  · rfl

theorem take_of_not_idle (hidle : t.worker ≠ .idle) : t.take c = t := by
  unfold Run.take
  split
  · exact absurd ‹_› hidle
  · rfl

/-- What it is to go on with a batch: nothing is taken, and the queue stays. -/
theorem work_keeps (t : Run) (c : Coordinator) (answers : (q : Question) → Except Failure q.Answer) :
    (t.work c answers).taken = t.taken ∧ (t.work c answers).queue = t.queue := by
  unfold Run.work
  split
  · exact ⟨rfl, rfl⟩
  · exact ⟨by simp [taken, List.filterMap_cons, Happening.taken?], rfl⟩
  · rename_i act rest _
    cases act <;> exact ⟨by simp [taken, tell, List.filterMap_cons, Happening.taken?], rfl⟩
  · exact ⟨rfl, rfl⟩
  · exact ⟨rfl, rfl⟩

/-- A worker without a batch has no work. -/
theorem work_of_not_busy (hbusy : ∀ batch job rest, t.worker ≠ .busy batch job rest)
    (answers : (q : Question) → Except Failure q.Answer) : t.work c answers = t := by
  unfold Run.work
  split
  · exact absurd ‹_› (hbusy _ _ _)
  · exact absurd ‹_› (hbusy _ _ _)
  · exact absurd ‹_› (hbusy _ _ _)
  · exact absurd ‹_› (hbusy _ _ _)
  · rfl

/-- What becomes of a worker that goes on with a batch: a job that is done is the end of it, the end
of the batch, or the start of the next act, and any other is resumed. -/
def next (c : Coordinator) (answers : (q : Question) → Except Failure q.Answer) (s : Session)
    (batch : Batch) : Job (List BuildUnit) → List Act → Worker
  | .done (.error e), _ => .ended (some batch) (.error e)
  | .done (.ok _), [] => .idle
  | .done (.ok _), act :: rest => .busy batch (c.perform act) rest
  | job, rest => .busy batch (job.resume answers s).1 rest

/-- What a busy worker becomes by one piece of work. -/
theorem worker_work {batch : Batch} {job : Job (List BuildUnit)} {rest : List Act}
    (hworker : t.worker = .busy batch job rest)
    (answers : (q : Question) → Except Failure q.Answer) :
    (t.work c answers).worker = next c answers t.session batch job rest := by
  unfold Run.work
  rw [hworker]
  cases job with
  | done result =>
    cases result with
    | error e => rfl
    | ok units => cases rest <;> rfl
  | look next => rfl
  | put session job => rfl
  | ask q next => rfl

/-- An end that comes from outside takes nothing, and changes nothing that has ended. -/
theorem stop_spec (t : Run) (result : Except Failure Unit) :
    (t.stop result).taken = t.taken ∧ (t.stop result).queue = t.queue ∧
      (∃ batch? r, (t.stop result).worker = .ended batch? r) ∧
      ∀ batch? r, t.worker = .ended batch? r → (t.stop result).worker = .ended batch? r := by
  unfold Run.stop
  split
  · exact ⟨rfl, rfl, ⟨_, _, ‹_›⟩, fun _ _ h => h⟩
  · rename_i hnot
    exact ⟨rfl, rfl, ⟨_, _, rfl⟩, fun batch? r h => absurd h (hnot batch? r)⟩

/-- What the compiler writes is not taken yet, and not even in the queue. -/
theorem write_keeps (t : Run) (path content : String) :
    (t.write path content).worker = t.worker ∧ (t.write path content).taken = t.taken ∧
      (t.write path content).queue = t.queue := by
  obtain ⟨-, -, -, -, hqueue, hworker, hhistory⟩ := write_spec t path content
  refine ⟨hworker, ?_, hqueue⟩
  unfold taken
  rw [hhistory]
  split
  · simp [Happening.taken?]
  · rfl

/-- What happens beside the worker leaves it alone, and can only make the queue longer. -/
theorem step_beside (hworker : t.worker ≠ .absent) {move : Move} (htake : move ≠ .take)
    (hwork : ∀ answers, move ≠ .work answers) (hstop : move.isStop = false) :
    (t.step c move).worker = t.worker ∧ (t.step c move).taken = t.taken ∧
      ∃ more, (t.step c move).queue = t.queue ++ more := by
  cases move with
  | write path content =>
    obtain ⟨hworker, htaken, hqueue⟩ := t.write_keeps path content
    exact ⟨hworker, htaken, [], hqueue.trans (List.append_nil _).symm⟩
  | fire => exact ⟨rfl, taken_enqueue t _ _, _, rfl⟩
  | begin =>
    -- a worker is attached once
    have hsame : t.begin = t := by
      unfold Run.begin
      split
      · exact absurd ‹_› hworker
      · rfl
    show t.begin.worker = t.worker ∧ t.begin.taken = t.taken ∧ ∃ more, t.begin.queue = t.queue ++ more
    rw [hsame]
    exact ⟨rfl, rfl, [], (List.append_nil _).symm⟩
  | take => exact absurd rfl htake
  | work answers => exact absurd rfl (hwork answers)
  | stop result => exact absurd hstop (by simp [Move.isStop])
  | _ => exact ⟨rfl, rfl, [], (List.append_nil _).symm⟩

/-- A worker that has ended stays so, and takes nothing. -/
theorem step_of_ended {batch? : Option Batch} {result : Except Failure Unit}
    (hended : t.worker = .ended batch? result) (move : Move) :
    (t.step c move).worker = .ended batch? result ∧ (t.step c move).taken = t.taken := by
  have hsame : ∀ t', t' = t → t'.worker = .ended batch? result ∧ t'.taken = t.taken := by
    rintro t' rfl
    exact ⟨hended, rfl⟩
  cases hm : move with
  | take => exact hsame (t.take c) (take_of_not_idle (by simp [hended]))
  | work answers => exact hsame (t.work c answers) (work_of_not_busy (by simp [hended]) answers)
  | stop other =>
    obtain ⟨htaken, -, -, hkept⟩ := t.stop_spec other
    exact ⟨hkept _ _ hended, htaken⟩
  | _ =>
    -- the other moves go on beside the worker
    rw [← hm]
    have habsent : t.worker ≠ .absent := by simp [hended]
    have htake : move ≠ .take := by simp [hm]
    have hbeside := step_beside (c := c) habsent htake (by simp [hm]) (by simp [hm, Move.isStop])
    exact ⟨hbeside.1.trans hended, hbeside.2.1⟩

/-- What has been taken is never given back. -/
theorem prefix_taken_step (t : Run) (c : Coordinator) (move : Move) :
    t.taken <+: (t.step c move).taken := by
  obtain ⟨news, hnews, -⟩ := t.exists_history_step c move
  unfold taken
  rw [hnews, List.reverse_append, List.filterMap_append]
  exact List.prefix_append _ _

/-- Whatever the worker is busy with fails by nothing but a write of its own. -/
def Tame (t : Run) : Prop :=
  ∀ batch job rest, t.worker = .busy batch job rest → job.FailsBy Job.IsOfDisk

/-- The worker stays tame: each act that it begins can only fail as acts do, and going on with a job
adds no failure. -/
theorem Tame.work (h : t.Tame) (answers : (q : Question) → Except Failure q.Answer) :
    (t.work c answers).Tame := by
  intro batch job rest hworker
  cases hold : t.worker with
  | busy batch' job' rest' =>
    have hfails := h batch' job' rest' hold
    rw [worker_work hold answers] at hworker
    -- the worker ends, is idle, begins its next act, or goes on with the job
    unfold next at hworker
    split at hworker
    · exact absurd hworker (by simp)
    · exact absurd hworker (by simp)
    · obtain ⟨-, rfl, -⟩ := Worker.busy.inj hworker
      exact c.failsBy_perform _
    · obtain ⟨-, rfl, -⟩ := Worker.busy.inj hworker
      exact hfails.resume answers t.session
  | _ =>
    rw [work_of_not_busy (by simp [hold]) answers, hold] at hworker
    exact absurd hworker (by simp)

/-- So does every move. -/
theorem Tame.step (h : t.Tame) (move : Move) : (t.step c move).Tame := by
  cases move with
  | take =>
    intro batch job rest hworker
    change (t.take c).worker = _ at hworker
    by_cases hidle : t.worker = .idle
    · cases hqueue : t.queue with
      | nil =>
        rw [take_of_nil hqueue, hidle] at hworker
        exact absurd hworker (by simp)
      | cons first others =>
        rw [(take_of_idle hidle hqueue).2.2] at hworker
        split at hworker
        · exact absurd hworker (by simp)
        · -- a batch starts with nothing done, which is tame
          obtain ⟨-, rfl, -⟩ := Worker.busy.inj hworker
          trivial
    · rw [take_of_not_idle hidle] at hworker
      exact h batch job rest hworker
  | work answers => exact h.work answers
  | begin =>
    intro batch job rest hworker
    change t.begin.worker = _ at hworker
    unfold Run.begin at hworker
    split at hworker
    · exact absurd hworker (by simp)
    · exact h batch job rest hworker
  | stop result =>
    intro batch job rest hworker
    obtain ⟨_, _, hended⟩ := (t.stop_spec result).2.2.1
    exact absurd (hended.symm.trans hworker) (by simp)
  | write path content =>
    intro batch job rest hworker
    exact h batch job rest ((t.write_keeps path content).1.symm.trans hworker)
  | _ => exact h

end Run

namespace Supervision

variable {c : Coordinator} {t : Supervision}

/-! ## What carries over -/

/-- What an occurrence does to the watch: a move, an end, or nothing. -/
theorem watch_step (t : Supervision) (c : Coordinator) (o : Occurrence) :
    (∃ m, m.isStop = false ∧ o = .move m ∧ (t.step c o).watch = t.watch.step c m) ∨
      ((∃ workerFirst, o = .wake workerFirst) ∧ (t.step c o).watch = t.watch.stop (.ok ())) ∨
      (t.step c o).watch = t.watch := by
  cases o with
  | move m =>
    unfold step
    dsimp only
    split
    · exact .inr (.inr rfl)
    · rename_i hgoes
      refine .inl ⟨m, ?_, rfl, rfl⟩
      -- a move that stops the watch is passed over, so this one does not
      cases hm : m.isStop with
      | true => simp [hm] at hgoes
      | false => rfl
  | compilerEnds result =>
    unfold step
    dsimp only
    split
    · exact .inr (.inr rfl)
    · exact .inr (.inr rfl)
  | wake workerFirst =>
    show _ ∨ _ ∧ (t.wake workerFirst).watch = _ ∨ (t.wake workerFirst).watch = _
    unfold wake
    split
    · exact .inr (.inl ⟨⟨workerFirst, rfl⟩, rfl⟩)
    · exact .inr (.inr rfl)

/-- What holds of a watch in every run of occurrences. -/
structure Reached (c : Coordinator) (t : Supervision) : Prop where
  sound : t.watch.Sound c
  tame : t.watch.Tame

/-- What holds of a reached state holds after one more occurrence. -/
theorem Reached.step (h : Reached c t) (o : Occurrence) : Reached c (t.step c o) := by
  rcases t.watch_step c o with ⟨m, -, -, heq⟩ | ⟨-, heq⟩ | heq
  · exact ⟨heq ▸ h.sound.step m, heq ▸ h.tame.step m⟩
  · exact ⟨heq ▸ h.sound.step (.stop (.ok ())), heq ▸ h.tame.step (c := c) (.stop (.ok ()))⟩
  · exact ⟨heq ▸ h.sound, heq ▸ h.tame⟩

theorem Reached.run (h : Reached c t) (occurrences : List Occurrence) :
    Reached c (t.run c occurrences) := by
  induction occurrences generalizing t with
  | nil => exact h
  | cons o rest ih => exact ih (h.step o)

theorem reached_run (c : Coordinator) (s : Session) (debounce now : Nat)
    (occurrences : List Occurrence) :
    Reached c ((initial s debounce now).run c occurrences) := by
  refine Reached.run ⟨Run.sound_initial c s debounce now, ?_⟩ occurrences
  intro batch job rest hworker
  exact absurd hworker (by simp [initial, Run.initial])

/-- What has been taken is never given back, whoever waits. -/
theorem prefix_taken (t : Supervision) (c : Coordinator) (o : Occurrence) :
    t.watch.taken <+: (t.step c o).watch.taken := by
  rcases t.watch_step c o with ⟨m, -, -, heq⟩ | ⟨-, heq⟩ | heq
  · exact heq ▸ t.watch.prefix_taken_step c m
  · exact heq ▸ t.watch.prefix_taken_step c (.stop (.ok ()))
  · exact heq ▸ List.prefix_refl _

/-- While the compilation goes on, only the worker can be over. -/
theorem endings_of_working (h : t.compilation = .working) (workerFirst : Bool) :
    t.endings workerFirst = match t.watch.worker with
      | .ended _ result => [result]
      | _ => [] := by
  unfold endings
  rw [h]
  cases t.watch.worker <;> simp

/-! ## What is over -/

def HasEnded (t : Supervision) : Prop :=
  ∃ batch? result, t.watch.worker = .ended batch? result

/-- A worker that has ended stays as it is. -/
theorem HasEnded.step (h : t.HasEnded) (o : Occurrence) :
    (t.step c o).watch.worker = t.watch.worker := by
  obtain ⟨batch?, result, hended⟩ := h
  rcases t.watch_step c o with ⟨m, -, -, heq⟩ | ⟨-, heq⟩ | heq
  · rw [heq, hended]
    exact (Run.step_of_ended hended m).1
  · rw [heq, hended]
    exact (Run.step_of_ended (c := c) hended (.stop (.ok ()))).1
  · rw [heq]

/-- Once there is a result it stays, and so does the state of the compilation. -/
theorem step_of_result {r : Except Failure Unit} (hresult : t.result? = some r)
    (hcompilation : t.compilation.isWorking = false) (o : Occurrence) :
    (t.step c o).result? = some r ∧ (t.step c o).compilation = t.compilation := by
  cases o with
  | move m =>
    unfold Supervision.step
    dsimp only
    split
    · exact ⟨hresult, rfl⟩
    · exact ⟨hresult, rfl⟩
  | compilerEnds result =>
    unfold Supervision.step
    dsimp only
    rw [hcompilation]
    exact ⟨hresult, rfl⟩
  | wake workerFirst =>
    -- the supervision wakes once
    have hsame : t.wake workerFirst = t := by
      unfold wake
      rw [hresult]
    show (t.wake workerFirst).result? = _ ∧ (t.wake workerFirst).compilation = _
    rw [hsame]
    exact ⟨hresult, rfl⟩

/-- A compilation that does not go on is not taken up again. -/
theorem isWorking_step (hcompilation : t.compilation.isWorking = false) (o : Occurrence) :
    (t.step c o).compilation.isWorking = false := by
  cases o with
  | move m =>
    unfold Supervision.step
    dsimp only
    split <;> exact hcompilation
  | compilerEnds result =>
    unfold Supervision.step
    dsimp only
    rw [hcompilation]
    exact hcompilation
  | wake workerFirst =>
    show (t.wake workerFirst).compilation.isWorking = false
    unfold wake
    split
    · show t.compilation.stop.isWorking = false
      cases t.compilation <;> rfl
    · exact hcompilation

/-- Only the compiler changes a stored text, and only while its compilation goes on. -/
theorem text?_step (h : Reached c t) (hcompilation : t.compilation.isWorking = false)
    (o : Occurrence) (p : String) : (t.step c o).watch.text? p = t.watch.text? p := by
  have hmove : ∀ m, (∀ path content, m ≠ .write path content) →
      (t.watch.step c m).text? p = t.watch.text? p :=
    fun m hm => congrArg (·.get? p) (h.sound.files_step hm)
  rcases t.watch_step c o with ⟨m, -, rfl, heq⟩ | ⟨-, heq⟩ | heq
  · by_cases hwrite : ∃ path content, m = .write path content
    · obtain ⟨path, content, rfl⟩ := hwrite
      -- the compiler is not let write any more
      have hsame : t.step c (.move (.write path content)) = t := by
        unfold Supervision.step
        simp [Move.isCompilers, hcompilation]
      rw [hsame]
    · rw [heq]
      exact hmove m fun path content hm => hwrite ⟨path, content, hm⟩
  · rw [heq]
    exact hmove (.stop (.ok ())) (by simp)
  · rw [heq]

/-- When the compilation is over, the stored texts are final. -/
theorem text?_run (h : Reached c t) (hcompilation : t.compilation.isWorking = false)
    (occurrences : List Occurrence) (p : String) :
    (t.run c occurrences).watch.text? p = t.watch.text? p := by
  induction occurrences generalizing t with
  | nil => rfl
  | cons o rest ih =>
    have hrest : ((t.step c o).run c rest).watch.text? p = (t.step c o).watch.text? p :=
      ih (h.step o) (isWorking_step hcompilation o)
    exact hrest.trans (text?_step h hcompilation o p)

/-! ## Turns

An endless course gives the worker its turns if it takes and works again and again. Between two turns
anything may happen. -/

/-- Where a course of occurrences has led to after some of them. -/
def after (c : Coordinator) (t : Supervision) (course : Nat → Occurrence) (n : Nat) : Supervision :=
  t.run c ((List.range n).map course)

variable {course : Nat → Occurrence}

theorem after_succ (n : Nat) :
    after c t course (n + 1) = (after c t course n).step c (course n) := by
  simp [after, Supervision.run, List.range_succ]

/-- Along a course, batches are only ever added to those taken. -/
theorem length_taken_after {n m : Nat} (h : n ≤ m) :
    (after c t course n).watch.taken.length ≤ (after c t course m).watch.taken.length := by
  obtain ⟨d, rfl⟩ := Nat.exists_eq_add_of_le h
  clear h
  induction d with
  | zero => exact Nat.le_refl _
  | succ d ih =>
    refine Nat.le_trans ih ?_
    rw [← Nat.add_assoc, after_succ]
    exact (prefix_taken _ c (course (n + d))).length_le

/-- A worker that has ended stays so. -/
theorem hasEnded_after {n m : Nat} (h : n ≤ m) (hended : (after c t course n).HasEnded) :
    (after c t course m).HasEnded := by
  obtain ⟨d, rfl⟩ := Nat.exists_eq_add_of_le h
  clear h
  induction d with
  | zero => exact hended
  | succ d ih =>
    obtain ⟨batch?, result, heq⟩ := ih
    refine ⟨batch?, result, ?_⟩
    rw [← Nat.add_assoc, after_succ]
    exact (HasEnded.step ⟨_, _, heq⟩ (course (n + d))).trans heq

/-- Whether in a course every state of one kind is followed by one of another. -/
def LeadsTo (c : Coordinator) (t : Supervision) (course : Nat → Occurrence)
    (P Q : Supervision → Prop) : Prop :=
  ∀ n, P (after c t course n) → ∃ m ≥ n, Q (after c t course m)

/-- Whether occurrences of a kind come again and again. -/
def Recurs (course : Nat → Occurrence) (kind : Occurrence → Prop) : Prop :=
  ∀ n, ∃ m ≥ n, kind (course m)

variable {P Q R : Supervision → Prop}

/-- Leading to is transitive. -/
theorem LeadsTo.trans (h : LeadsTo c t course P Q) (h' : LeadsTo c t course Q R) :
    LeadsTo c t course P R := by
  intro n hn
  obtain ⟨m, hm, hQ⟩ := h n hn
  obtain ⟨k, hk, hR⟩ := h' m hQ
  exact ⟨k, Nat.le_trans hm hk, hR⟩

/-- **By a turn**: what stays as it is up to the next turn is changed by it. -/
theorem leadsTo_of_turn {kind : Occurrence → Prop} (hoften : Recurs course kind)
    (hstays : ∀ n, P (after c t course n) → P (after c t course (n + 1)) ∨ Q (after c t course (n + 1)))
    (hturn : ∀ n, kind (course n) → P (after c t course n) → Q (after c t course (n + 1))) :
    LeadsTo c t course P Q := by
  intro n hn
  obtain ⟨m, hm, hkind⟩ := hoften n
  -- the induction is on how far away that turn is
  obtain ⟨d, rfl⟩ := Nat.exists_eq_add_of_le hm
  induction d generalizing n with
  | zero => exact ⟨n + 1, Nat.le_succ n, hturn n hkind hn⟩
  | succ d ih =>
    rcases hstays n hn with hP | hQ
    · have hnext : course (n + 1 + d) = course (n + (d + 1)) := congrArg course (by omega)
      obtain ⟨k, hk, hQ⟩ := ih (n + 1) hP (by omega) (hnext ▸ hkind)
      exact ⟨k, by omega, hQ⟩
    · exact ⟨n + 1, Nat.le_succ n, hQ⟩

def IsTake (o : Occurrence) : Prop :=
  o = .move .take

def IsWork (o : Occurrence) : Prop :=
  ∃ answers, o = .move (.work answers)

/-- Whether the worker is busy in a certain way. -/
def IsBusy (batch : Batch) (job : Job (List BuildUnit)) (rest : List Act) (t : Supervision) : Prop :=
  t.watch.worker = .busy batch job rest

/-- Whether the worker has left off: it is idle or has ended. -/
def HasLeft (t : Supervision) : Prop :=
  t.watch.worker = .idle ∨ t.HasEnded

/-- A worker stays as it is, unless it is ended or it is its turn. -/
theorem worker_step (habsent : t.watch.worker ≠ .absent) (o : Occurrence) :
    (t.step c o).watch.worker = t.watch.worker ∨ (t.step c o).HasEnded ∨
      IsTake o ∧ t.watch.worker = .idle ∨
      IsWork o ∧ ∃ batch job rest, t.watch.worker = .busy batch job rest := by
  rcases t.watch_step c o with ⟨m, hstop, rfl, heq⟩ | ⟨-, heq⟩ | heq
  · -- the worker is moved by taking, working and stopping only
    by_cases htake : m = .take
    · by_cases hidle : t.watch.worker = .idle
      · exact .inr (.inr (.inl ⟨congrArg _ htake, hidle⟩))
      · rw [heq, htake]
        exact .inl (congrArg Run.worker (Run.take_of_not_idle hidle))
    · by_cases hwork : ∃ answers, m = .work answers
      · obtain ⟨answers, rfl⟩ := hwork
        by_cases hbusy : ∃ batch job rest, t.watch.worker = .busy batch job rest
        · exact .inr (.inr (.inr ⟨⟨answers, rfl⟩, hbusy⟩))
        · rw [heq]
          refine .inl (congrArg Run.worker (Run.work_of_not_busy (fun batch job rest h => ?_) answers))
          exact hbusy ⟨batch, job, rest, h⟩
      · rw [heq]
        exact .inl (Run.step_beside habsent htake (fun answers h => hwork ⟨answers, h⟩) hstop).1
  · refine .inr (.inl ?_)
    unfold HasEnded
    rw [heq]
    exact (t.watch.stop_spec (.ok ())).2.2.1
  · exact .inl (congrArg Run.worker heq)

/-- One turn of a busy worker. -/
theorem IsBusy.leadsTo {batch : Batch} {job : Job (List BuildUnit)} {rest : List Act}
    (hoften : Recurs course IsWork)
    (hnext : ∀ t answers, IsBusy batch job rest t →
      R (t.step c (.move (.work answers)))) :
    LeadsTo c t course (IsBusy batch job rest) fun t => R t ∨ t.HasEnded := by
  -- before the next turn only an end can come
  have hturn : ∀ n, IsWork (course n) → IsBusy batch job rest (after c t course n) →
      R (after c t course (n + 1)) ∨ (after c t course (n + 1)).HasEnded := by
    rintro n ⟨answers, hcourse⟩ hbusy
    rw [after_succ, hcourse]
    exact .inl (hnext _ answers hbusy)
  refine leadsTo_of_turn hoften (fun n hbusy => ?_) hturn
  have hworker : (after c t course n).watch.worker = .busy batch job rest := hbusy
  have habsent : (after c t course n).watch.worker ≠ .absent := by simp [hworker]
  have hstep := worker_step (c := c) habsent (course n)
  rw [← after_succ] at hstep
  rcases hstep with hstays | hended | ⟨-, hidle⟩ | ⟨hwork, -⟩
  · exact .inl (hstays.trans hworker)
  · exact .inr (.inr hended)
  · exact absurd (hworker.symm.trans hidle) (by simp)
  · exact .inr (hturn n hwork hbusy)

/-- What a step of the worker is, for whoever waits. -/
theorem step_work (t : Supervision) (answers : (q : Question) → Except Failure q.Answer) :
    (t.step c (.move (.work answers))).watch = t.watch.work c answers := rfl

/-- **Every job comes to its end**: the induction is on the job. -/
theorem leadsTo_done (hoften : Recurs course IsWork) (batch : Batch) (rest : List Act)
    (job : Job (List BuildUnit)) :
    LeadsTo c t course (IsBusy batch job rest)
      fun t => (∃ result, IsBusy batch (.done result) rest t) ∨ t.HasEnded := by
  let Ends (job : Job (List BuildUnit)) := LeadsTo c t course (IsBusy batch job rest)
    fun t => (∃ result, IsBusy batch (.done result) rest t) ∨ t.HasEnded
  -- a job that is not done is at another one after a turn
  have hpiece : ∀ job, (∀ result, job ≠ .done result) →
      (∀ answers s, Ends (job.resume answers s).1) → Ends job := by
    intro job hnot hends
    have hone : LeadsTo c t course (IsBusy batch job rest) fun t =>
        (∃ answers s, IsBusy batch (job.resume answers s).1 rest t) ∨ t.HasEnded := by
      refine IsBusy.leadsTo hoften fun t answers hbusy => ⟨answers, t.watch.session, ?_⟩
      unfold IsBusy
      rw [step_work, Run.worker_work hbusy answers]
      cases job with
      | done result => exact absurd rfl (hnot result)
      | _ => rfl
    refine hone.trans fun n hn => ?_
    rcases hn with ⟨answers, s, hbusy⟩ | hended
    · exact hends answers s n hbusy
    · exact ⟨n, Nat.le_refl _, .inr hended⟩
  -- what a job settles at ends as well
  have hboth : Ends job ∧ ∀ s, Ends (job.settle s).1 := by
    induction job with
    | done result =>
      have hdone : Ends (.done result) := fun n hn => ⟨n, Nat.le_refl _, .inl ⟨result, hn⟩⟩
      exact ⟨hdone, fun _ => hdone⟩
    | look next ih =>
      have hlook : Ends (.look next) := hpiece _ (by simp) fun answers s => (ih s).2 s
      exact ⟨hlook, fun _ => hlook⟩
    | put session job ih =>
      exact ⟨hpiece _ (by simp) fun answers s => ih.2 session, fun _ => ih.2 session⟩
    | ask q next ih =>
      have hask : Ends (.ask q next) := hpiece _ (by simp) fun answers s => (ih (answers q)).2 s
      exact ⟨hask, fun _ => hask⟩
  exact hboth.1

/-- **A busy worker leaves off some day**: the induction is on the acts that are left. -/
theorem leadsTo_left (hoften : Recurs course IsWork) (batch : Batch) (job : Job (List BuildUnit))
    (rest : List Act) : LeadsTo c t course (IsBusy batch job rest) HasLeft := by
  induction rest generalizing job with
  | nil =>
    refine (leadsTo_done hoften batch [] job).trans fun n hn => ?_
    rcases hn with ⟨result, hbusy⟩ | hended
    · refine (IsBusy.leadsTo hoften fun t answers hbusy => ?_ :
        LeadsTo c t course (IsBusy batch (.done result) []) fun t => t.HasLeft ∨ t.HasEnded).trans
        (fun m hm => ⟨m, Nat.le_refl _, hm.elim id .inr⟩) n hbusy
      have hworker := Run.worker_work (c := c) hbusy answers
      cases result with
      | error e => exact .inr ⟨some batch, .error e, hworker⟩
      | ok units => exact .inl hworker
    · exact ⟨n, Nat.le_refl _, .inr hended⟩
  | cons act rest ih =>
    refine (leadsTo_done hoften batch (act :: rest) job).trans fun n hn => ?_
    -- the act at hand is done: the next one starts, unless it was the last or the worker ended
    rcases hn with ⟨result, hbusy⟩ | hended
    · have hone : LeadsTo c t course (IsBusy batch (.done result) (act :: rest)) fun t =>
          (t.HasEnded ∨ IsBusy batch (c.perform act) rest t) ∨ t.HasEnded := by
        refine IsBusy.leadsTo hoften fun t answers hbusy => ?_
        have hworker := Run.worker_work (c := c) hbusy answers
        cases result with
        | error e => exact .inl ⟨some batch, .error e, hworker⟩
        | ok units => exact .inr hworker
      obtain ⟨m, hm, hnext⟩ := hone n hbusy
      rcases hnext with (hended | hbusy) | hended
      · exact ⟨m, hm, .inr hended⟩
      · obtain ⟨k, hk, hleft⟩ := ih (c.perform act) m hbusy
        exact ⟨k, Nat.le_trans hm hk, hleft⟩
      · exact ⟨m, hm, .inr hended⟩
    · exact ⟨n, Nat.le_refl _, .inr hended⟩

end Supervision

end Packwright.Watch
