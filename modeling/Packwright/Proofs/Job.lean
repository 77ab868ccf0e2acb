import Packwright.Job

/-!
# Laws of jobs

Jobs go on one after another as one expects of them, and may be run in pieces.

* `Job` is a lawful monad, so that a job can be cut at any of its steps.
* `run_bind_of_ok` and `run_bind_of_error` run a job that goes on after another one.
* `exchanges` are the questions of a run with their answers; a job that goes on after another one
  asks what that one asks first.
* `run_resume`: a job that is run piece by piece, with nothing between the pieces, does what it
  does when it is run at once.
* `Calm` jobs leave the store, its watchers, the timer and the clock alone, also when something else
  changes them between two pieces.
* `FailsBy` says what a job can fail by, whatever it sees and is answered.
-/

namespace Packwright.Job

variable {α β γ : Type}

/-! ## Going on -/

/-- **Going on is associative.** Induction on the job: it goes on in the same way wherever it is
cut. -/
theorem andThen_assoc (job : Job α) (f : Except Failure α → Job β)
    (g : Except Failure β → Job γ) :
    (job.andThen f).andThen g = job.andThen fun r => (f r).andThen g := by
  induction job with
  | done result => rfl
  | look next ih => exact congrArg look (funext fun s => ih s)
  | put s job ih => exact congrArg (put s) ih
  | ask q next ih => exact congrArg (ask q) (funext fun a => ih a)

/-- Going on with nothing is no change. -/
theorem andThen_done (job : Job α) : job.andThen done = job := by
  induction job with
  | done result => rfl
  | look next ih => exact congrArg look (funext fun s => ih s)
  | put s job ih => exact congrArg (put s) ih
  | ask q next ih => exact congrArg (ask q) (funext fun a => ih a)

theorem bind_def (job : Job α) (f : α → Job β) :
    job >>= f = job.andThen fun
      | .ok a => f a
      | .error e => done (.error e) := rfl

instance : LawfulMonad Job := LawfulMonad.mk' Job
  (by
    intro α job
    show job.andThen _ = job
    refine Eq.trans ?_ (andThen_done job)
    congr 1
    funext r
    cases r <;> rfl)
  (fun _ _ => rfl)
  (by
    intro α β γ job f g
    rw [bind_def, bind_def, andThen_assoc, bind_def]
    congr 1
    funext r
    cases r <;> rfl)

/-! ## Running -/

variable {σ : Type}

/-- A job that goes on after another one goes on where that one has left off. -/
theorem run_andThen (engines : Engines σ) (job : Job α) (f : Except Failure α → Job β)
    (s : Session × σ) :
    run engines (job.andThen f) s = run engines (f (run engines job s).1) (run engines job s).2 := by
  induction job generalizing s with
  | done result => rfl
  | look next ih => exact ih s.1 s
  | put session job ih => exact ih (session, s.2)
  | ask q next ih => exact ih (engines q s).1 (engines q s).2

variable {engines : Engines σ} {job : Job α} {s s' : Session × σ}

/-- A job that goes on after a success is run from the session that the first one left. -/
theorem run_bind_of_ok {a : α} (h : run engines job s = (.ok a, s')) (f : α → Job β) :
    run engines (job >>= f) s = run engines (f a) s' := by
  rw [bind_def, run_andThen, h]

/-- Nothing is run after a failure, and what has been changed stays so. -/
theorem run_bind_of_error {e : Failure} (h : run engines job s = (.error e, s')) (f : α → Job β) :
    run engines (job >>= f) s = (.error e, s') := by
  rw [bind_def, run_andThen, h]
  rfl

/-- A job that goes on after another one succeeds only if both do. -/
theorem run_bind_eq_ok {f : α → Job β} {b : β} (h : run engines (job >>= f) s = (.ok b, s')) :
    ∃ a m, run engines job s = (.ok a, m) ∧ run engines (f a) m = (.ok b, s') := by
  cases hrun : run engines job s with
  | mk r m =>
    cases r with
    | ok a => exact ⟨a, m, rfl, run_bind_of_ok hrun f ▸ h⟩
    | error e => exact absurd (run_bind_of_error hrun f ▸ h) (by simp)

/-- A job whose result is only looked at. -/
theorem run_bind_pure (f : α → β) :
    run engines (job >>= fun a => pure (f a)) s =
      ((run engines job s).1.map f, (run engines job s).2) := by
  cases h : run engines job s with
  | mk r m =>
    cases r with
    | ok a => exact run_bind_of_ok h _
    | error e => exact run_bind_of_error h _

/-- An attempt always succeeds: with the result of the job, or with its failure. -/
theorem run_attempt {r : Except Failure α} (h : run engines job s = (r, s')) :
    run engines job.attempt s = (.ok r, s') := by
  rw [attempt, run_andThen, h]
  rfl

/-- A change of the disk is made, or it fails and leaves everything as it was. -/
theorem run_onDisk (engines : Engines σ) (change : Disk → Except Disk.Error Disk)
    (s : Session × σ) : run engines (onDisk change) s =
      match change s.1.disk with
      | .ok disk => (.ok (), ({ s.1 with disk := disk }, s.2))
      | .error e => (.error (.disk e), s) := by
  simp only [onDisk, run]
  cases change s.1.disk <;> rfl

/-- Changing the disk changes nothing else, whether it succeeds or not. -/
theorem feed_run_onDisk (engines : Engines σ) (change : Disk → Except Disk.Error Disk)
    (s : Session × σ) : (run engines (onDisk change) s).2.1.feed = s.1.feed := by
  rw [run_onDisk]
  cases change s.1.disk <;> rfl

/-- Writing a file leaves the output of the compiler alone. -/
theorem feed_run_writeText (engines : Engines σ) (path : FilePath) (content : String)
    (s : Session × σ) : (run engines (writeText path content) s).2.1.feed = s.1.feed := by
  have hmade := feed_run_onDisk engines (fun d => d.makeDirectories path.parent) s
  unfold writeText
  cases h : run engines (onDisk fun d => d.makeDirectories path.parent) s with
  | mk r m =>
    rw [h] at hmade
    cases r with
    | ok _ => rw [run_bind_of_ok h, feed_run_onDisk, hmade]
    | error e => rw [run_bind_of_error h, hmade]

/-! ## Questions and answers -/

/-- A question with the answer that it was given. -/
structure Exchange where
  question : Question
  answer : Except Failure question.Answer

/-- What a job asks in a run, with the answers. -/
def exchanges (engines : Engines σ) : Job α → Session × σ → List Exchange
  | done _, _ => []
  | look f, s => exchanges engines (f s.1) s
  | put session job, s => exchanges engines job (session, s.2)
  | ask q f, s => ⟨q, (engines q s).1⟩ :: exchanges engines (f (engines q s).1) (engines q s).2

/-- **The exchanges of two jobs** are those of the first one and those of the second one, from where
the first one ended. -/
theorem exchanges_andThen (engines : Engines σ) (job : Job α) (f : Except Failure α → Job β)
    (s : Session × σ) :
    exchanges engines (job.andThen f) s = exchanges engines job s ++
      exchanges engines (f (run engines job s).1) (run engines job s).2 := by
  induction job generalizing s with
  | done result => rfl
  | look next ih => exact ih s.1 s
  | put session job ih => exact ih (session, s.2)
  | ask q next ih => exact congrArg (_ :: ·) (ih (engines q s).1 (engines q s).2)

/-- After a success, the exchanges of what goes on come behind. -/
theorem exchanges_bind_of_ok {a : α} (h : run engines job s = (.ok a, s')) (f : α → Job β) :
    exchanges engines (job >>= f) s = exchanges engines job s ++ exchanges engines (f a) s' := by
  rw [bind_def, exchanges_andThen, h]

/-- After a failure there are no more exchanges. -/
theorem exchanges_bind_of_error {e : Failure} (h : run engines job s = (.error e, s'))
    (f : α → Job β) : exchanges engines (job >>= f) s = exchanges engines job s := by
  rw [bind_def, exchanges_andThen, h]
  exact List.append_nil _

/-- A job asks nothing if neither of its parts does. -/
theorem exchanges_bind_eq_nil {f : α → Job β} (h : exchanges engines job s = [])
    (hf : ∀ a m, run engines job s = (.ok a, m) → exchanges engines (f a) m = []) :
    exchanges engines (job >>= f) s = [] := by
  cases hrun : run engines job s with
  | mk r m =>
    cases r with
    | error e => rw [exchanges_bind_of_error hrun, h]
    | ok a => rw [exchanges_bind_of_ok hrun, h, hf a m hrun, List.append_nil]

theorem exchanges_onDisk (engines : Engines σ) (change : Disk → Except Disk.Error Disk)
    (s : Session × σ) : exchanges engines (onDisk change) s = [] := by
  simp only [onDisk, exchanges]
  cases change s.1.disk <;> rfl

theorem exchanges_writeText (engines : Engines σ) (path : FilePath) (content : String)
    (s : Session × σ) : exchanges engines (writeText path content) s = [] :=
  exchanges_bind_eq_nil (exchanges_onDisk engines _ s) fun _ m _ => exchanges_onDisk engines _ m

/-! ## Pieces -/

/-- Making the changes that are ready beforehand makes no difference to a run. -/
theorem run_settle (engines : Engines σ) (job : Job α) (s : Session) (x : σ) :
    run engines (job.settle s).1 ((job.settle s).2, x) = run engines job (s, x) := by
  induction job generalizing s with
  | put session job ih => exact ih session
  | _ => rfl

/-- **A job may be run in pieces**: one piece, and then the rest at once, is the whole job at
once. -/
theorem run_resume (answers : (q : Question) → Except Failure q.Answer) (job : Job α) (s : Session)
    (x : σ) :
    run (fun q s => (answers q, s)) (job.resume answers s).1 ((job.resume answers s).2, x) =
      run (fun q s => (answers q, s)) job (s, x) := by
  cases job with
  | done result => rfl
  | look next => exact run_settle _ (next s) s x
  | put session job => exact run_settle _ job session x
  | ask q next => exact run_settle _ (next (answers q)) s x

/-! ## Calm jobs

What a job has seen of a session is out of date as soon as it pauses. So a calm job may only put
what it has just seen: `seen?` says what that is. -/

/-- The part of a session that belongs to the compiler and the timer. -/
def outside (s : Session) : Feed Unit × Option Nat :=
  (s.feed, s.clock?)

/-- Whether a job leaves alone what is outside, when `seen?` is what it has just seen of it. -/
def Calm : Option (Feed Unit × Option Nat) → Job α → Prop
  | _, done _ => True
  | _, look next => ∀ s, Calm (some (outside s)) (next s)
  | seen?, put s job => seen? = some (outside s) ∧ Calm seen? job
  | _, ask _ next => ∀ a, Calm none (next a)

variable {seen? : Option (Feed Unit × Option Nat)}

/-- A job that has seen nothing is calm whatever it has seen. -/
theorem Calm.mono {job : Job α} (h : Calm none job) : Calm seen? job := by
  cases job with
  | done result => trivial
  | look next => exact h
  | put s job => exact absurd h.1 (by simp)
  | ask q next => exact h

/-- A calm job may go on with calm ones. What has been seen counts for the first one only, since
something else may happen before the second one is run. -/
theorem Calm.andThen {job : Job α} {f : Except Failure α → Job β} (h : Calm seen? job)
    (hf : ∀ r, Calm none (f r)) : Calm seen? (job.andThen f) := by
  induction job generalizing seen? with
  | done result => exact (hf result).mono
  | look next ih => exact fun s => ih s (h s)
  | put s job ih => exact ⟨h.1, ih h.2⟩
  | ask q next ih => exact fun a => ih a (h a)

theorem Calm.bind {job : Job α} {f : α → Job β} (h : Calm seen? job) (hf : ∀ a, Calm none (f a)) :
    Calm seen? (job >>= f) := by
  refine Calm.andThen h fun r => ?_
  cases r with
  | ok a => exact hf a
  | error e => trivial

theorem calm_pure (a : α) : Calm seen? (pure a : Job α) := trivial

theorem calm_lift (x : Except Failure α) : Calm seen? (lift x) := trivial

theorem calm_session : Calm seen? session := fun _ => trivial

theorem calm_request (q : Question) : Calm seen? (request q) := fun _ => trivial

/-- A calm job is calm when its failure is only noted. -/
theorem Calm.attempt {job : Job α} (h : Calm seen? job) : Calm seen? job.attempt :=
  h.andThen fun _ => trivial

/-- A change of the session is calm if it leaves alone what is outside of the job's affairs. -/
theorem calm_modify {change : Session → Session} (h : ∀ s, outside (change s) = outside s) :
    Calm seen? (modify change) :=
  fun s => ⟨by rw [h s], trivial⟩

/-- Nothing on the disk is outside of a job's affairs. -/
theorem calm_onDisk (change : Disk → Except Disk.Error Disk) : Calm seen? (onDisk change) := by
  intro s
  cases h : change s.disk with
  | ok disk => simp only [h]; exact ⟨rfl, trivial⟩
  | error e => simp only [h]; trivial

/-- Writing a file changes the disk and nothing else. -/
theorem calm_writeText (path : FilePath) (content : String) :
    Calm seen? (writeText path content) :=
  (calm_onDisk _).bind fun _ => calm_onDisk _

/-- Writing to the event log changes the log and the disk. -/
theorem outside_append {s s' : Session} {e : Event} (h : s.append e = .ok s') :
    outside s' = outside s := by
  unfold Session.append at h
  split at h
  · rw [Except.ok.inj h]
  · rename_i log _
    cases hlog : log.append s.disk e with
    | error cause => rw [hlog] at h; exact absurd h (by simp [Bind.bind, Except.bind])
    | ok pair =>
      rw [hlog] at h
      rw [← Except.ok.inj h]
      rfl

/-- Writing an event changes the disk and the log, and nothing else. -/
theorem calm_record (kind : String) (unit? : Option String) (ok : Bool) (error? : Option String)
    (metadata : Value.Fields) : Calm seen? (record kind unit? ok error? metadata) := by
  intro s
  cases h : s.append (s.stampEvent kind unit? ok error? metadata) with
  | ok s' => simp only [h]; exact ⟨by rw [outside_append h], trivial⟩
  | error e => simp only [h]; trivial

/-! ## One piece of a calm job -/

/-- **One piece of a calm job** leaves alone what is outside of its affairs, and what is left of the
job is calm. -/
theorem Calm.settle {job : Job α} {s : Session} (h : Calm (some (outside s)) job) :
    outside (job.settle s).2 = outside s ∧ Calm none (job.settle s).1 := by
  induction job generalizing s with
  | done result => exact ⟨rfl, trivial⟩
  | look next ih => exact ⟨rfl, h⟩
  | put session job ih =>
    have hsame : outside s = outside session := Option.some.inj h.1
    have hrest := ih (s := session) (hsame ▸ h.2)
    exact ⟨hrest.1.trans hsame.symm, hrest.2⟩
  | ask q next ih => exact ⟨rfl, h⟩

/-- **One piece of a calm job** leaves alone what is outside, and a calm job behind. -/
theorem Calm.resume {job : Job α} (h : Calm none job)
    (answers : (q : Question) → Except Failure q.Answer) (s : Session) :
    outside (job.resume answers s).2 = outside s ∧ Calm none (job.resume answers s).1 := by
  cases job with
  | done result => exact ⟨rfl, trivial⟩
  | look next => exact (h s).settle
  | put session job => exact absurd h.1 (by simp)
  | ask q next => exact Calm.settle (h (answers q)).mono

/-! ## What a job can fail by -/

/-- Whether a job that fails does so by a failure of a kind. -/
def FailsBy (kind : Failure → Prop) : Job α → Prop
  | done (.ok _) => True
  | done (.error e) => kind e
  | look next => ∀ s, FailsBy kind (next s)
  | put _ job => FailsBy kind job
  | ask _ next => ∀ a, FailsBy kind (next a)

variable {kind : Failure → Prop}

/-- A job fails by what its first part can fail by, or by what the job can that goes on. -/
theorem FailsBy.andThen {job : Job α} {f : Except Failure α → Job β} (h : FailsBy kind job)
    (hok : ∀ a, FailsBy kind (f (.ok a))) (herror : ∀ e, kind e → FailsBy kind (f (.error e))) :
    FailsBy kind (job.andThen f) := by
  induction job with
  | done result =>
    cases result with
    | ok a => exact hok a
    | error e => exact herror e h
  | look next ih => exact fun s => ih s (h s)
  | put s job ih => exact ih h
  | ask q next ih => exact fun a => ih a (h a)

/-- After a failure nothing goes on, so a job that goes on after a success fails as its parts do. -/
theorem FailsBy.bind {job : Job α} {f : α → Job β} (h : FailsBy kind job)
    (hf : ∀ a, FailsBy kind (f a)) : FailsBy kind (job >>= f) :=
  FailsBy.andThen h hf fun _ he => he

theorem failsBy_pure (a : α) : FailsBy kind (pure a : Job α) := trivial

theorem failsBy_session : FailsBy kind session := fun _ => trivial

theorem failsBy_modify (change : Session → Session) : FailsBy kind (modify change) :=
  fun _ => trivial

/-- An attempt does not fail. -/
theorem failsBy_attempt (job : Job α) : FailsBy kind job.attempt := by
  induction job with
  | done result => trivial
  | look next ih => exact fun s => ih s
  | put s job ih => exact ih
  | ask q next ih => exact fun a => ih a

/-- Whether a failure is one of the disk. -/
def IsOfDisk (e : Failure) : Prop :=
  ∃ cause, e = .disk cause

/-- Whatever is done to the disk fails by an error of the disk. -/
theorem failsBy_onDisk (change : Disk → Except Disk.Error Disk) : FailsBy IsOfDisk (onDisk change) := by
  intro s
  cases h : change s.disk with
  | ok disk => simp only [h]; trivial
  | error e => simp only [h]; exact ⟨e, rfl⟩

/-- Writing a file fails by an error of the disk. -/
theorem failsBy_writeText (path : FilePath) (content : String) :
    FailsBy IsOfDisk (writeText path content) :=
  (failsBy_onDisk _).bind fun _ => failsBy_onDisk _

/-- Writing an event fails by an error of the disk. -/
theorem failsBy_record (event : String) (unit? : Option String) (ok : Bool) (error? : Option String)
    (metadata : Value.Fields) : FailsBy IsOfDisk (record event unit? ok error? metadata) := by
  intro s
  cases h : s.append (s.stampEvent event unit? ok error? metadata) with
  | ok s' => simp only [h]; trivial
  | error e => simp only [h]; exact ⟨e, rfl⟩

/-- What is left of a job can fail by nothing else than the job could. -/
theorem FailsBy.settle {job : Job α} (h : FailsBy kind job) (s : Session) :
    FailsBy kind (job.settle s).1 := by
  induction job generalizing s with
  | put session job ih => exact ih h session
  | _ => exact h

/-- What is left of a job after one piece fails by the same kind. -/
theorem FailsBy.resume {job : Job α} (h : FailsBy kind job)
    (answers : (q : Question) → Except Failure q.Answer) (s : Session) :
    FailsBy kind (job.resume answers s).1 := by
  cases job with
  | done result => exact h
  | look next => exact (h s).settle s
  | put session job => exact FailsBy.settle (show FailsBy kind job from h) session
  | ask q next => exact (h (answers q)).settle s

end Packwright.Job
