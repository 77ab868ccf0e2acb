import Packwright.Proofs.Store.Pending
import Packwright.Proofs.Watch.Acts

/-!
# A watch loses no change

A change travels: its path is pending, then in a batch that waits, then in the batch that the
worker has taken. It is never dropped on the way, whatever happens in between, and when everything
has come to rest its unit has been bundled since.

* `Owed` says that a change has not been taken yet, `Served` that what was taken is bundled or about
  to be.
* `Sound` is what holds of every run: it spans the store, the timer, the queue and the worker.
  There is one lemma for each move, and `sound_run` is the induction.
* `nothingLost_run` reads off what this means.
-/

namespace Packwright.Watch.Run

open Coordinator (acts)

/-! ## The store and the feed -/

/-- A flush leaves nothing pending and no timer, and neither files nor watchers change. -/
theorem flush_spec (f : Feed Unit) :
    f.flush.1.store.pending = [] ∧ f.flush.1.due? = none ∧ f.flush.1.watchers = f.watchers ∧
      f.flush.1.store.files = f.store.files := by
  unfold Feed.flush
  split
  · rename_i hp
    exact ⟨hp, rfl, rfl, rfl⟩
  · exact ⟨rfl, rfl, rfl, rfl⟩

/-- What one watcher is handed by a flush: all that is pending, if there is something. -/
theorem batches_flush {f : Feed Unit} (hw : f.watchers = [()]) :
    f.flush.2.map Prod.snd = if f.store.pending = [] then [] else [f.store.pending] := by
  unfold Feed.flush
  split
  · rename_i hp
    rw [if_pos hp]
    rfl
  · rename_i hp
    rw [if_neg hp, hw]
    rfl

/-! ## What a history says -/

/-- Whether a path has changed and no batch with it was taken since. The newest comes first. -/
def Owed (history : List Happening) (path : String) : Prop :=
  ∃ later earlier, history = later ++ .changed path :: earlier ∧
    ∀ batch, .taken batch ∈ later → path ∉ batch

/-- Whether for every path of a batch that was taken its unit was bundled afterwards, or is among
those that are still to be bundled. -/
def Served (c : Coordinator) (history : List Happening) (owes : BuildUnit → Prop) : Prop :=
  ∀ later batch earlier, history = later ++ .taken batch :: earlier → ∀ path ∈ batch, ∀ u,
    c.owner path = .ok (.unit u) → .attempted u ∈ later ∨ owes u

variable {c : Coordinator} {history : List Happening} {path : String}

/-- A path is owed after one more event if that event is its change, or if it was owed and is not
taken now. -/
theorem owed_cons_iff (h : Happening) :
    Owed (h :: history) path ↔
      h = .changed path ∨ (∀ batch, h = .taken batch → path ∉ batch) ∧ Owed history path := by
  constructor
  · rintro ⟨later, earlier, heq, hlater⟩
    -- the change is the event itself, or an earlier one that the event does not take
    cases later with
    | nil => exact Or.inl (List.cons.inj heq).1
    | cons first rest =>
      obtain ⟨rfl, hrest⟩ := List.cons.inj heq
      refine Or.inr ⟨fun batch hb => hlater batch (hb ▸ List.mem_cons_self), rest, earlier, hrest, ?_⟩
      exact fun batch hb => hlater batch (List.mem_cons_of_mem _ hb)
  · rintro (rfl | ⟨hfirst, later, earlier, rfl, hlater⟩)
    · exact ⟨[], history, rfl, by simp⟩
    · refine ⟨h :: later, earlier, rfl, fun batch hb => ?_⟩
      rcases List.mem_cons.mp hb with hh | hrest
      · exact hfirst batch hh.symm
      · exact hlater batch hrest

/-- What is neither a change nor taken leaves open what is owed. -/
theorem owed_of_cons {h : Happening} (hc : ∀ p, h ≠ .changed p) (hp : Owed (h :: history) path) :
    Owed history path := by
  rcases (owed_cons_iff h).mp hp with heq | ⟨_, hrest⟩
  · exact absurd heq (hc path)
  · exact hrest

/-- Flushing pays nothing: a batch in the queue is still owed. -/
theorem owed_of_flushed {batches : List Batch}
    (hp : Owed (batches.map .flushed ++ history) path) : Owed history path := by
  induction batches with
  | nil => exact hp
  | cons batch rest ih => exact ih (owed_of_cons (by simp) hp)

variable {owes owes' : BuildUnit → Prop}

theorem Served.mono (hs : Served c history owes) (h : ∀ u, owes u → owes' u) :
    Served c history owes' :=
  fun later batch earlier heq p hp u hu => (hs later batch earlier heq p hp u hu).imp_right (h u)

/-- Whatever is not taken keeps what was taken served; a debt may be paid by an attempt. -/
theorem Served.cons (hs : Served c history owes) {h : Happening} (hh : ∀ batch, h ≠ .taken batch)
    (howes : ∀ u, owes u → h = .attempted u ∨ owes' u) : Served c (h :: history) owes' := by
  intro later batch earlier heq p hp u hu
  cases later with
  | nil => exact absurd (List.cons.inj heq).1 (hh batch)
  | cons first rest =>
    obtain ⟨rfl, hrest⟩ := List.cons.inj heq
    rcases hs rest batch earlier hrest p hp u hu with hmem | ho
    · exact Or.inl (List.mem_cons_of_mem _ hmem)
    · rcases howes u ho with rfl | ho'
      · exact Or.inl List.mem_cons_self
      · exact Or.inr ho'

/-- Flushes do not change what is served. -/
theorem Served.flushed (hs : Served c history owes) (batches : List Batch) :
    Served c (batches.map .flushed ++ history) owes := by
  induction batches with
  | nil => exact hs
  | cons batch rest ih => exact ih.cons (by simp) fun u hu => Or.inr hu

/-- A batch may be taken when nothing is owed, if its units are owed from then on. -/
theorem Served.taken (hs : Served c history fun _ => False) {batch : Batch}
    (hb : ∀ path ∈ batch, ∀ u, c.owner path = .ok (.unit u) → owes u) :
    Served c (.taken batch :: history) owes := by
  intro later batch' earlier heq p hp u hu
  cases later with
  | nil =>
    obtain ⟨hbatch, _⟩ := List.cons.inj heq
    injection hbatch with hbatch
    exact Or.inr (hb p (hbatch ▸ hp) u hu)
  | cons first rest =>
    obtain ⟨rfl, hrest⟩ := List.cons.inj heq
    exact (hs rest batch' earlier hrest p hp u hu).imp_left (List.mem_cons_of_mem _)|>.imp_right
      False.elim

/-! ## What holds of every run -/

/-- The units that a worker is still to bundle. One that has ended is excused. -/
def owed (w : Worker) (u : BuildUnit) : Prop :=
  match w with
  | .absent | .idle => False
  | .busy _ _ rest => .rebuild u ∈ rest
  | .ended .. => True

/-- What holds of the store, the timer, the queue and the worker, whatever has happened. -/
structure Sound (c : Coordinator) (t : Run) : Prop where
  clock : t.session.clock?.isSome = true
  watchers : t.isAttached = true → t.session.feed.watchers = [()]
  unattached : t.worker = .absent → t.isAttached = false
  attached : t.worker.isWorking = true → t.isAttached = true
  quiet : t.isAttached = false → t.session.feed.due? = none
  armed : t.isAttached = true → t.session.store.pending ≠ [] → t.session.feed.due?.isSome = true
  calm : ∀ batch job rest, t.worker = .busy batch job rest → job.Calm none
  carried : ∀ p, Owed t.history p → p ∈ t.session.store.pending ∨ ∃ batch ∈ t.queue, p ∈ batch
  flushed_eq : t.flushed = t.taken ++ t.queue
  taken_eq : t.taken = t.finished ++ t.worker.batch?.toList
  served : Served c t.history (owed t.worker)

/-- A run begins sound, with nothing written. -/
theorem sound_initial (c : Coordinator) (s : Session) (debounce now : Nat) :
    Sound c (initial s debounce now) where
  clock := rfl
  watchers h := absurd (show false = true from h) (by decide)
  unattached _ := rfl
  attached h := absurd (show false = true from h) (by decide)
  quiet _ := rfl
  armed h := absurd (show false = true from h) (by decide)
  calm _ _ _ h := by simp [initial] at h
  carried p h := by
    obtain ⟨later, earlier, heq, _⟩ := h
    simp [initial] at heq
  flushed_eq := rfl
  taken_eq := rfl
  served later batch earlier heq := by simp [initial] at heq

variable {t : Run}

/-- What the worker does to the session is none of the queue's affair, as long as it leaves the feed
alone and the clock running. -/
theorem Sound.withSession (h : Sound c t) {s : Session} (hf : s.feed = t.session.feed)
    (hc : s.clock?.isSome = true) : Sound c { t with session := s } := by
  have hattached : isAttached { t with session := s } = t.isAttached := by
    unfold isAttached
    rw [show ({ t with session := s } : Run).session.feed = t.session.feed from hf]
  -- a session with the same feed has the same store
  have hstore : s.store = t.session.store := congrArg Feed.store hf
  constructor
  case clock => exact hc
  case watchers => rw [hattached, hf]; exact h.watchers
  case unattached => rw [hattached]; exact h.unattached
  case attached => rw [hattached]; exact h.attached
  case quiet => rw [hattached, hf]; exact h.quiet
  case armed => rw [hattached, hstore, hf]; exact h.armed
  case calm => exact h.calm
  case carried => rw [hstore]; exact h.carried
  case flushed_eq => exact h.flushed_eq
  case taken_eq => exact h.taken_eq
  case served => exact h.served

/-! ## The compiler writes -/

/-- What a write by the compiler makes of a watch. -/
theorem write_spec (t : Run) (path content : String) :
    (t.write path content).session.clock? = t.session.clock? ∧
    (t.write path content).session.feed.watchers = t.session.feed.watchers ∧
    (t.write path content).session.feed.due? =
      (if t.session.store.isChange path content && !t.session.feed.watchers.isEmpty then
        t.session.clock?.map (· + t.session.feed.debounce) else t.session.feed.due?) ∧
    (t.write path content).session.store = t.session.store.write path content ∧
    (t.write path content).queue = t.queue ∧
    (t.write path content).worker = t.worker ∧
    (t.write path content).history =
      if t.session.store.isChange path content then .changed (Path.normalize path) :: t.history
      else t.history := by
  -- whether the path was a change is asked before it is written
  unfold Run.write Session.write Feed.write Session.store
  simp only [and_self]

/-- A write that counts as a change is owed from then on; it is pending, and the timer is set if
somebody is told. -/
theorem Sound.write (h : Sound c t) (path content : String) : Sound c (t.write path content) := by
  obtain ⟨hclock, hwatchers, hdue, hstore, hqueue, hworker, hhistory⟩ := write_spec t path content
  have hpending := Store.mem_pending_write_iff t.session.store path content
  rw [← hstore] at hpending
  generalize t.write path content = t' at *
  generalize hchange : t.session.store.isChange path content = changed at *
  have hattached : t'.isAttached = t.isAttached := by
    unfold isAttached
    rw [hwatchers]
  have hflushed : t'.flushed = t.flushed := by
    unfold flushed
    rw [hhistory]
    cases changed <;> simp [Happening.flushed?]
  have htaken : t'.taken = t.taken := by
    unfold taken
    rw [hhistory]
    cases changed <;> simp [Happening.taken?]
  have hfinished : t'.finished = t.finished := by
    unfold finished
    rw [hhistory]
    cases changed <;> simp [Happening.finished?]
  constructor
  case clock => rw [hclock]; exact h.clock
  case watchers => rw [hattached, hwatchers]; exact h.watchers
  case unattached => rw [hattached, hworker]; exact h.unattached
  case attached => rw [hattached, hworker]; exact h.attached
  case quiet =>
    intro hno
    rw [hattached] at hno
    have hempty : t.session.feed.watchers.isEmpty = true := by
      simpa [isAttached] using hno
    rw [hdue, hempty, Bool.not_true, Bool.and_false, if_neg (by decide)]
    exact h.quiet hno
  case armed =>
    intro hyes hne
    rw [hattached] at hyes
    have hwatched : t.session.feed.watchers.isEmpty = false := by
      simpa [isAttached] using hyes
    obtain ⟨now, hnow⟩ := Option.isSome_iff_exists.mp h.clock
    rw [hdue]
    cases changed with
    | true => simp [hwatched, hnow]
    | false =>
      -- nothing has changed: what is pending was pending before
      have hold : t.session.store.pending ≠ [] := by
        obtain ⟨q, hq⟩ := List.exists_mem_of_ne_nil _ hne
        rcases (hpending q).mp hq with hmem | ⟨hc, _⟩
        · exact List.ne_nil_of_mem hmem
        · exact absurd hc (by decide)
      exact h.armed hyes hold
  case calm => rw [hworker]; exact h.calm
  case carried =>
    intro q hq
    rw [hhistory] at hq
    rw [hpending q, hqueue]
    cases changed with
    | false => exact (h.carried q hq).imp_left Or.inl
    | true =>
      rcases (owed_cons_iff _).mp hq with heq | ⟨_, hrest⟩
      · injection heq with heq
        exact Or.inl (Or.inr ⟨rfl, heq.symm⟩)
      · exact (h.carried q hrest).imp_left Or.inl
  case flushed_eq => rw [hflushed, htaken, hqueue]; exact h.flushed_eq
  case taken_eq => rw [hfinished, htaken, hworker]; exact h.taken_eq
  case served =>
    rw [hhistory, hworker]
    cases changed with
    | false => exact h.served
    | true => exact h.served.cons (by simp) fun u hu => Or.inr hu

/-! ## Batches are handed out -/

@[simp] theorem flushed_enqueue (t : Run) (s : Session) (batches : List Batch) :
    (t.enqueue s batches).flushed = t.flushed ++ batches := by
  simp [flushed, enqueue, List.filterMap_map, Function.comp_def, ← List.map_reverse,
    Happening.flushed?]

/-- Handing out batches is not taking or finishing them. -/
theorem filterMap_enqueue (t : Run) (s : Session) (batches : List Batch)
    {pick : Happening → Option Batch} (h : ∀ batch, pick (.flushed batch) = none) :
    (t.enqueue s batches).history.reverse.filterMap pick = t.history.reverse.filterMap pick := by
  have hnone : (batches.reverse.map Happening.flushed).reverse.filterMap pick = [] := by
    rw [List.filterMap_eq_nil_iff]
    simp [h]
  unfold enqueue
  rw [List.reverse_append, List.filterMap_append, hnone, List.append_nil]

@[simp] theorem taken_enqueue (t : Run) (s : Session) (batches : List Batch) :
    (t.enqueue s batches).taken = t.taken :=
  t.filterMap_enqueue s batches fun _ => rfl

@[simp] theorem finished_enqueue (t : Run) (s : Session) (batches : List Batch) :
    (t.enqueue s batches).finished = t.finished :=
  t.filterMap_enqueue s batches fun _ => rfl

/-- The batch that is handed out takes everything that is pending into the queue. `f` is the feed
with its watcher, `w` who works then. -/
theorem Sound.enqueue (h : Sound c t) {s : Session} {f : Feed Unit} {w : Worker}
    (hstore : f.store = t.session.store) (hw : f.watchers = [()]) (hf : s.feed = f.flush.1)
    (hc : s.clock?.isSome = true) (hpresent : w ≠ .absent)
    (hbatch : w.batch? = t.worker.batch?) (howed : ∀ u, owed t.worker u → owed w u)
    (hcalm : ∀ batch job rest, w = .busy batch job rest → job.Calm none) :
    Sound c { t.enqueue s (f.flush.2.map Prod.snd) with worker := w } := by
  obtain ⟨hpending, hdue, hwatchers, _⟩ := flush_spec f
  have hbatches := batches_flush hw
  have hnone : s.store.pending = [] := by
    unfold Session.store
    rw [hf]
    exact hpending
  have hyes : isAttached { t.enqueue s (f.flush.2.map Prod.snd) with worker := w } = true := by
    show (!s.feed.watchers.isEmpty) = true
    rw [hf, hwatchers, hw]
    rfl
  constructor
  case clock => exact hc
  case watchers =>
    intro _
    show s.feed.watchers = [()]
    rw [hf, hwatchers, hw]
  case unattached => exact fun habs => absurd habs hpresent
  case attached => exact fun _ => hyes
  case quiet => exact fun hno => absurd (hyes.symm.trans hno) (by decide)
  case armed => exact fun _ hne => absurd hnone hne
  case calm => exact hcalm
  case carried =>
    intro q hq
    right
    -- a change that was pending is in the new batch; one that was queued stays so
    rcases h.carried q (owed_of_flushed hq) with hmem | ⟨batch, hqueue, hmem⟩
    · refine ⟨t.session.store.pending, ?_, hmem⟩
      show _ ∈ t.queue ++ f.flush.2.map Prod.snd
      rw [hbatches, hstore, if_neg (List.ne_nil_of_mem hmem)]
      exact List.mem_append_right _ (List.mem_singleton.mpr rfl)
    · exact ⟨batch, List.mem_append_left _ hqueue, hmem⟩
  case flushed_eq =>
    show (t.enqueue s _).flushed = (t.enqueue s _).taken ++ (t.queue ++ _)
    rw [flushed_enqueue, taken_enqueue, h.flushed_eq, List.append_assoc]
  case taken_eq =>
    show (t.enqueue s _).taken = (t.enqueue s _).finished ++ w.batch?.toList
    rw [taken_enqueue, finished_enqueue, hbatch]
    exact h.taken_eq
  case served => exact (h.served.mono howed).flushed _

/-- Beginning attaches the worker, if it has never been attached; the watcher hears of what is
pending when it joins. -/
theorem Sound.begin (h : Sound c t) : Sound c t.begin := by
  unfold Run.begin
  cases hw : t.worker with
  | absent =>
    -- a worker that was never attached has left the feed without watchers
    have hempty : t.session.feed.watchers = [] := by
      have := h.unattached hw
      simpa [isAttached] using this
    have hone : (t.session.feed.watch ()).watchers = [()] := by
      show t.session.feed.watchers ++ [()] = [()]
      rw [hempty]
      rfl
    refine h.enqueue (f := t.session.feed.watch ()) rfl hone rfl h.clock (by simp) ?_ ?_ (by simp)
    · rw [hw]; rfl
    · rw [hw]; exact fun u hu => hu
  | idle => exact h
  | busy batch job rest => exact h
  | ended batch? result => exact h

/-- The timer takes the pending paths to the queue. -/
theorem Sound.fire (h : Sound c t) : Sound c t.fire := by
  unfold Run.fire Watch.fire Feed.fire
  by_cases hdue : t.session.feed.isDue (t.session.clock?.getD 0) = true
  · -- only a watched feed has a timer
    have hyes : t.isAttached = true := by
      cases hno : t.isAttached with
      | true => rfl
      | false => simp [Feed.isDue, h.quiet hno] at hdue
    rw [if_pos hdue]
    have hpresent : t.worker ≠ .absent := fun habs => by
      simp [h.unattached habs] at hyes
    exact h.enqueue (f := t.session.feed) rfl (h.watchers hyes) rfl rfl hpresent rfl
      (fun _ hu => hu) h.calm
  · rw [if_neg hdue]
    have hsame := h.withSession (s := { t.session with
      feed := t.session.feed, clock? := some (t.session.clock?.getD 0) }) rfl rfl
    simpa [Run.enqueue] using hsame

/-! ## The worker -/

/-- A batch that is taken is no longer in the queue: its changes are owed no more, but the units
that they belong to are. -/
theorem Sound.take (h : Sound c t) : Sound c (t.take c) := by
  unfold Run.take
  split
  · rename_i batch rest hworker hqueue
    have hyes : t.isAttached = true := h.attached (by rw [hworker]; rfl)
    have hserved : Served c t.history fun _ => False := by
      have := h.served
      rw [hworker] at this
      exact this
    constructor
    case clock => exact h.clock
    case watchers => exact h.watchers
    case unattached =>
      dsimp only
      split <;> exact fun habs => by simp at habs
    case attached => exact fun _ => hyes
    case quiet => exact h.quiet
    case armed => exact h.armed
    case calm =>
      dsimp only
      intro batch' job rest' heq
      split at heq
      · simp at heq
      · injection heq with _ hjob _
        rw [← hjob]
        trivial
    -- what is in the batch is owed no more, so the change is in another one
    case carried =>
      intro q hq
      rcases (owed_cons_iff _).mp hq with heq | ⟨hnot, hold⟩
      · simp at heq
      · refine (h.carried q hold).imp_right ?_
        rintro ⟨batch', hmem, hq'⟩
        rw [hqueue] at hmem
        rcases List.mem_cons.mp hmem with rfl | hrest
        · exact absurd hq' (hnot _ rfl)
        · exact ⟨batch', hrest, hq'⟩
    case flushed_eq =>
      have hold := h.flushed_eq
      rw [hqueue] at hold
      unfold flushed taken at *
      simp [hold, Happening.flushed?, Happening.taken?]
    case taken_eq =>
      have hold := h.taken_eq
      rw [hworker] at hold
      unfold finished taken at *
      dsimp only
      split <;> simp [hold, Happening.finished?, Happening.taken?, Worker.batch?]
    -- what is in the batch belongs to units that its acts rebuild
    case served =>
      refine hserved.taken fun q hq u hu => ?_
      dsimp only
      split
      · trivial
      · rename_i direct dirty hclass
        exact c.rebuild_mem_acts hclass hq hu
  · exact h

/-- An act that starts is told of if it is an attempt, and nothing else is told. -/
theorem Sound.next (h : Sound c t) {batch : Batch} {job : Job (List BuildUnit)} {act : Act}
    {rest : List Act} (hworker : t.worker = .busy batch job (act :: rest)) :
    Sound c { t with worker := .busy batch (c.perform act) rest, history := tell t.history act } where
  clock := h.clock
  watchers := h.watchers
  unattached habs := by simp at habs
  attached _ := h.attached (by rw [hworker]; rfl)
  quiet := h.quiet
  armed := h.armed
  calm batch' job' rest' heq := by
    injection heq with _ hjob _
    rw [← hjob]
    exact c.calm_perform act
  carried q hq := by
    refine h.carried q ?_
    cases act with
    | rebuild u => exact owed_of_cons (by simp) hq
    | _ => exact hq
  flushed_eq := by
    have hold := h.flushed_eq
    unfold flushed taken at *
    cases act <;> simp [tell, hold, List.filterMap_cons, Happening.flushed?, Happening.taken?]
  taken_eq := by
    have hold := h.taken_eq
    rw [hworker] at hold
    unfold finished taken at *
    cases act <;> simp [tell, hold, List.filterMap_cons, Happening.finished?, Happening.taken?,
      Worker.batch?]
  served := by
    have hserved := h.served
    rw [hworker] at hserved
    have hfirst : ∀ u, owed (.busy batch job (act :: rest)) u →
        act = .rebuild u ∨ owed (.busy batch (c.perform act) rest) u := by
      intro u hu
      rcases List.mem_cons.mp hu with heq | hrest
      · exact Or.inl heq.symm
      · exact Or.inr hrest
    -- an attempt that starts is told of, so its unit is owed no more
    cases act with
    | rebuild v =>
      refine hserved.cons (by simp) fun u hu => ?_
      rcases hfirst u hu with heq | hrest
      · injection heq with heq
        exact Or.inl (by rw [heq])
      · exact Or.inr hrest
    | _ => exact hserved.mono fun u hu => (hfirst u hu).resolve_left (by simp)

/-- When all acts of a batch are done, nothing is owed for it, and the worker is idle again. -/
theorem Sound.finish (h : Sound c t) {batch : Batch} {job : Job (List BuildUnit)}
    (hworker : t.worker = .busy batch job []) :
    Sound c { t with worker := .idle, history := .finished batch :: t.history } where
  clock := h.clock
  watchers := h.watchers
  unattached habs := by simp at habs
  attached _ := h.attached (by rw [hworker]; rfl)
  quiet := h.quiet
  armed := h.armed
  calm batch' job' rest' heq := by simp at heq
  carried q hq := h.carried q (owed_of_cons (by simp) hq)
  flushed_eq := by
    have hold := h.flushed_eq
    unfold flushed taken at *
    simp [hold, List.filterMap_cons, Happening.flushed?, Happening.taken?]
  taken_eq := by
    have hold := h.taken_eq
    rw [hworker] at hold
    unfold finished taken at *
    simp [hold, List.filterMap_cons, Happening.finished?, Happening.taken?, Worker.batch?]
  served := by
    have hserved := h.served
    rw [hworker] at hserved
    -- no act is left, so nothing is owed
    exact hserved.cons (by simp) fun u hu => absurd hu (by simp [owed])

/-- A worker that ends keeps its batch in its hands. -/
theorem Sound.ended (h : Sound c t) {batch? : Option Batch} (hbatch : batch? = t.worker.batch?)
    (result : Except Failure Unit) : Sound c { t with worker := .ended batch? result } where
  clock := h.clock
  watchers := h.watchers
  unattached habs := by simp at habs
  attached hw := absurd (show false = true from hw) (by decide)
  quiet := h.quiet
  armed := h.armed
  calm batch' job' rest' heq := by simp at heq
  carried := h.carried
  flushed_eq := h.flushed_eq
  taken_eq := by
    show t.taken = t.finished ++ batch?.toList
    rw [hbatch]
    exact h.taken_eq
  served := h.served.mono fun _ _ => trivial

/-- Resuming an act leaves the store alone, and a calm job behind. -/
theorem Sound.resumed (h : Sound c t) {batch : Batch} {job : Job (List BuildUnit)}
    {rest : List Act} (hworker : t.worker = .busy batch job rest)
    (answers : (q : Question) → Except Failure q.Answer) :
    Sound c { t with
      session := (job.resume answers t.session).2
      worker := .busy batch (job.resume answers t.session).1 rest } := by
  -- the job is calm: it neither writes to the store nor touches the clock
  obtain ⟨houtside, hcalm⟩ := (h.calm batch job rest hworker).resume answers t.session
  have hfeed : (job.resume answers t.session).2.feed = t.session.feed :=
    congrArg Prod.fst houtside
  have hclock : (job.resume answers t.session).2.clock? = t.session.clock? :=
    congrArg Prod.snd houtside
  have hsame := h.withSession hfeed (by rw [hclock]; exact h.clock)
  have hserved := h.served
  have htaken := h.taken_eq
  rw [hworker] at hserved htaken
  constructor
  case clock => exact hsame.clock
  case watchers => exact hsame.watchers
  case unattached => exact fun habs => by simp at habs
  case attached => exact fun _ => hsame.attached (by rw [hworker]; rfl)
  case quiet => exact hsame.quiet
  case armed => exact hsame.armed
  case calm =>
    intro batch' job' rest' heq
    injection heq with _ hjob _
    rw [← hjob]
    exact hcalm
  case carried => exact hsame.carried
  case flushed_eq => exact hsame.flushed_eq
  case taken_eq => exact htaken
  case served => exact hserved

/-- Work goes on with the job, begins the next act, finishes the batch, or ends the worker. -/
theorem Sound.work (h : Sound c t) (answers : (q : Question) → Except Failure q.Answer) :
    Sound c (t.work c answers) := by
  unfold Run.work
  split
  · rename_i batch e rest hworker
    exact h.ended (by rw [hworker]; rfl) _
  · rename_i batch units hworker
    exact h.finish hworker
  · rename_i batch units act rest hworker
    exact h.next hworker
  · rename_i batch job rest _ _ hworker
    exact h.resumed hworker answers
  · exact h

/-- Stopping ends the worker with whatever batch it has. -/
theorem Sound.stop (h : Sound c t) (result : Except Failure Unit) : Sound c (t.stop result) := by
  unfold Run.stop
  split
  · exact h
  · exact h.ended rfl result

/-! ## A whole run -/

/-- **One move keeps soundness.** -/
theorem Sound.step (h : Sound c t) (move : Move) : Sound c (t.step c move) := by
  cases move with
  | write path content => exact h.write path content
  | report d =>
    refine h.withSession ?_ ?_
    · unfold Session.report
      split <;> rfl
    · unfold Session.report
      split <;> exact h.clock
  | warn request w =>
    refine h.withSession ?_ ?_
    · unfold Session.warn
      split <;> rfl
    · unfold Session.warn
      split <;> exact h.clock
  | wait ms =>
    refine h.withSession rfl ?_
    rw [Option.isSome_map]
    exact h.clock
  | fire => exact h.fire
  | begin => exact h.begin
  | take => exact h.take
  | work answers => exact h.work answers
  | stop result => exact h.stop result

theorem Sound.run (h : Sound c t) (moves : List Move) : Sound c (t.run c moves) := by
  induction moves generalizing t with
  | nil => exact h
  | cons move rest ih => exact ih (h.step move)

theorem sound_run (c : Coordinator) (s : Session) (debounce now : Nat) (moves : List Move) :
    Sound c ((initial s debounce now).run c moves) :=
  (sound_initial c s debounce now).run moves

/-! ## What this means -/

/-- Files are as they were after every move but a write. -/
theorem Sound.files_step (h : Sound c t) {move : Move} (hw : ∀ path content, move ≠ .write path content) :
    (t.step c move).session.store.files = t.session.store.files := by
  cases move with
  | write path content => exact absurd rfl (hw path content)
  | report d =>
    show (t.session.report d).feed.store.files = _
    unfold Session.report
    split <;> rfl
  | warn request w =>
    show (t.session.warn request w).feed.store.files = _
    unfold Session.warn
    split <;> rfl
  | wait ms => rfl
  | fire =>
    show (t.session.feed.fire (t.session.clock?.getD 0)).1.store.files = _
    unfold Feed.fire
    split
    · exact (flush_spec t.session.feed).2.2.2
    · rfl
  | begin =>
    show t.begin.session.store.files = _
    unfold Run.begin
    split
    · exact (flush_spec (t.session.feed.watch ())).2.2.2
    · rfl
  | take =>
    show (t.take c).session.store.files = _
    unfold Run.take
    split <;> rfl
  | work answers =>
    show (t.work c answers).session.store.files = _
    unfold Run.work
    split
    · rfl
    · rfl
    · rfl
    · rename_i batch job rest _ _ _ hworker
      -- only here a job runs, and the jobs of the worker are calm
      have houtside := ((h.calm batch job rest hworker).resume answers t.session).1
      exact congrArg (fun o => o.1.store.files) houtside
    · rfl
  | stop result =>
    show (t.stop result).session.store.files = _
    unfold Run.stop
    split <;> rfl

/-- Whether a move lets the worker begin the rebuilding of a unit: it is done with its last act, and
the next one of its batch is to rebuild that unit. -/
def Begins (t : Run) (move : Move) (u : BuildUnit) : Prop :=
  ∃ batch units rest answers, move = .work answers ∧
    t.worker = .busy batch (.done (.ok units)) (.rebuild u :: rest)

/-- A history only grows. What a move adds to it tells of a change only if the move is a write, and
of an attempt only if the worker begins one. -/
theorem exists_history_step (t : Run) (c : Coordinator) (move : Move) :
    ∃ news, (t.step c move).history = news ++ t.history ∧
      (∀ p, .changed p ∈ news → ∃ path content, move = .write path content) ∧
      ∀ u, .attempted u ∈ news → t.Begins move u := by
  cases move with
  | write path content =>
    obtain ⟨-, -, -, -, -, -, hhistory⟩ := write_spec t path content
    show ∃ news, (t.write path content).history = _ ∧ _
    rw [hhistory]
    split
    · exact ⟨[_], rfl, fun _ _ => ⟨path, content, rfl⟩, by simp⟩
    · exact ⟨[], rfl, by simp, by simp⟩
  | fire => exact ⟨_, rfl, by simp, by simp⟩
  | begin =>
    show ∃ news, t.begin.history = _ ∧ _
    unfold Run.begin
    split
    · exact ⟨(attach t.session).2.reverse.map .flushed, rfl, by simp, by simp⟩
    · exact ⟨[], rfl, by simp, by simp⟩
  | take =>
    show ∃ news, (t.take c).history = _ ∧ _
    unfold Run.take
    split
    · exact ⟨[.taken _], rfl, by simp, by simp⟩
    · exact ⟨[], rfl, by simp, by simp⟩
  | work answers =>
    show ∃ news, (t.work c answers).history = _ ∧ _
    unfold Run.work
    split
    · exact ⟨[], rfl, by simp, by simp⟩
    · exact ⟨[.finished _], rfl, by simp, by simp⟩
    · -- of the acts that can begin, only a rebuilding is told of
      rename_i batch units act rest hworker
      cases act with
      | rebuild u =>
        refine ⟨[.attempted u], rfl, by simp, fun u' hu' => ?_⟩
        obtain rfl : u' = u := by simpa using hu'
        exact ⟨batch, units, rest, answers, rfl, hworker⟩
      | _ => exact ⟨[], rfl, by simp, by simp⟩
    · exact ⟨[], rfl, by simp, by simp⟩
    · exact ⟨[], rfl, by simp, by simp⟩
  | stop result =>
    show ∃ news, (t.stop result).history = _ ∧ _
    unfold Run.stop
    split <;> exact ⟨[], rfl, by simp, by simp⟩
  | _ => exact ⟨[], rfl, by simp, by simp⟩

/-- A history does not stay the same with one more event. -/
theorem history_ne_cons (t : Run) (happening : Happening) : t.history ≠ happening :: t.history :=
  fun heq => by simpa using congrArg List.length heq

/-- The history tells of a change exactly if the stored text of a path has changed. -/
theorem Sound.changed_iff (h : Sound c t) (move : Move) (p : String) :
    (t.step c move).text? p ≠ t.text? p ↔ (t.step c move).history = .changed p :: t.history := by
  by_cases hw : ∃ path content, move = .write path content
  · obtain ⟨path, content, rfl⟩ := hw
    obtain ⟨_, _, _, hstore, _, _, hhistory⟩ := write_spec t path content
    show (t.write path content).text? p ≠ t.text? p ↔ (t.write path content).history = _
    unfold text?
    -- a write changes a text exactly if it is a change, which is when it is told
    rw [hstore, hhistory, Store.get?_write_ne_iff]
    cases t.session.store.isChange path content with
    | true => simp [eq_comm]
    | false => simp [t.history_ne_cons]
  · have hnot : ∀ path content, move ≠ .write path content := fun path content heq =>
      hw ⟨path, content, heq⟩
    have hsame : (t.step c move).text? p = t.text? p := by
      unfold text?
      rw [h.files_step hnot]
    constructor
    · exact fun hne => absurd hsame hne
    · intro heq
      -- no other move has a change among its news
      obtain ⟨news, hnews, hwrite, -⟩ := t.exists_history_step c move
      obtain rfl : news = [.changed p] :=
        List.append_cancel_right (hnews.symm.trans (heq.trans (List.singleton_append).symm))
      exact absurd (hwrite p List.mem_cons_self) hw

/-- A worker that is done with an act goes on with the next one of its batch. -/
theorem work_of_done {t : Run} {batch : Batch} {units : List BuildUnit} {act : Act}
    {rest : List Act} (h : t.worker = .busy batch (.done (.ok units)) (act :: rest))
    (c : Coordinator) (answers : (q : Question) → Except Failure q.Answer) :
    t.work c answers =
      { t with worker := .busy batch (c.perform act) rest, history := tell t.history act } := by
  unfold Run.work
  rw [h]

/-- **An attempt is told of exactly when it begins**: then, and only then, the worker that is done
with its last act has in its hands the job that asks the bundler for the unit. -/
theorem attempted_iff (t : Run) (c : Coordinator) (move : Move) (u : BuildUnit) :
    (t.step c move).history = .attempted u :: t.history ↔
      ∃ batch units rest answers, move = .work answers ∧
        t.worker = .busy batch (.done (.ok units)) (.rebuild u :: rest) ∧
        (t.step c move).worker =
          .busy batch ((c.bundler.bundle u).attempt >>= Coordinator.account u) rest := by
  constructor
  · intro htold
    obtain ⟨news, hnews, -, hbegins⟩ := t.exists_history_step c move
    obtain rfl : news = [.attempted u] :=
      List.append_cancel_right (hnews.symm.trans (htold.trans (List.singleton_append).symm))
    -- an attempt is told by work alone, and only where the next act is that rebuild
    obtain ⟨batch, units, rest, answers, rfl, hworker⟩ := hbegins u List.mem_cons_self
    refine ⟨batch, units, rest, answers, rfl, hworker, ?_⟩
    show (t.work c answers).worker = _
    rw [work_of_done hworker, c.perform_rebuild]
  · rintro ⟨batch, units, rest, answers, rfl, hworker, -⟩
    show (t.work c answers).history = _
    rw [work_of_done hworker]
    rfl

/-- A job that the worker has begun is not dropped. Whatever the move, the worker has the job in its
hands as it was, or one piece further, or the watch is stopped. -/
theorem not_dropped (t : Run) (c : Coordinator) (move : Move) {batch : Batch}
    {job : Job (List BuildUnit)} {rest : List Act} (hworker : t.worker = .busy batch job rest)
    (hjob : ∀ result, job ≠ .done result) :
    (t.step c move).worker = .busy batch job rest ∨
      (∃ answers, move = .work answers ∧
        (t.step c move).worker = .busy batch (job.resume answers t.session).1 rest ∧
        (t.step c move).session = (job.resume answers t.session).2) ∨
      ∃ result, move = .stop result := by
  cases move with
  | work answers =>
    -- the job goes on by one step; nothing else but a stop touches it
    refine .inr (.inl ⟨answers, rfl, ?_⟩)
    show (t.work c answers).worker = _ ∧ (t.work c answers).session = _
    unfold Run.work
    rw [hworker]
    cases job with
    | done result => exact absurd rfl (hjob result)
    | _ => exact ⟨rfl, rfl⟩
  | stop result => exact .inr (.inr ⟨result, rfl⟩)
  | take =>
    left
    show (t.take c).worker = _
    unfold Run.take
    rw [hworker]
    exact hworker
  | begin =>
    left
    show t.begin.worker = _
    unfold Run.begin
    rw [hworker]
    exact hworker
  | _ => exact .inl hworker

/-- What it means that a watch loses nothing. -/
structure NothingLost (c : Coordinator) (t : Run) : Prop where
  /-- The history misses no change of a stored text, and makes none up. -/
  changed_iff : ∀ move p,
    (t.step c move).text? p ≠ t.text? p ↔ (t.step c move).history = .changed p :: t.history
  /-- Nor does it make up an attempt to bundle a unit: one is told of exactly when the worker begins
  the job that asks the bundler for the unit. -/
  attempted_iff : ∀ move u,
    (t.step c move).history = .attempted u :: t.history ↔
      ∃ batch units rest answers, move = .work answers ∧
        t.worker = .busy batch (.done (.ok units)) (.rebuild u :: rest) ∧
        (t.step c move).worker =
          .busy batch ((c.bundler.bundle u).attempt >>= Coordinator.account u) rest
  /-- A job that was begun is not dropped: after every move the worker has it as it was, or one
  piece further, unless the watch is stopped. -/
  not_dropped : ∀ move batch job rest, t.worker = .busy batch job rest →
    (∀ result, job ≠ .done result) →
    (t.step c move).worker = .busy batch job rest ∨
      (∃ answers, move = .work answers ∧
        (t.step c move).worker = .busy batch (job.resume answers t.session).1 rest ∧
        (t.step c move).session = (job.resume answers t.session).2) ∨
      ∃ result, move = .stop result
  /-- A path that has changed since a batch with it was last taken is pending, with a timer once
  somebody is told, or it is in a batch that waits. -/
  carried : ∀ later p earlier, t.history = later ++ .changed p :: earlier →
    (∀ batch, .taken batch ∈ later → p ∉ batch) →
    p ∈ t.session.store.pending ∧ (t.isAttached = true → t.session.feed.due?.isSome = true) ∨
      ∃ batch ∈ t.queue, p ∈ batch
  /-- Batches are taken in the order in which they were handed out, each of them once. -/
  in_order : t.flushed = t.taken ++ t.queue
  /-- A batch is finished before the next one is taken. -/
  one_at_a_time : t.taken = t.finished ++ t.worker.batch?.toList
  /-- When everything has come to rest, an attempt to bundle its unit has been made since any
  change. -/
  attempted : t.worker = .idle → t.session.feed.due? = none → t.queue = [] →
    ∀ later p earlier u, t.history = later ++ .changed p :: earlier →
      c.owner p = .ok (.unit u) → .attempted u ∈ later

/-- **A watch loses no change**, whatever happens in it. -/
theorem nothingLost_run (c : Coordinator) (s : Session) (debounce now : Nat) (moves : List Move) :
    NothingLost c ((initial s debounce now).run c moves) := by
  have h := sound_run c s debounce now moves
  generalize (initial s debounce now).run c moves = t at h
  have hcarried : ∀ later p earlier, t.history = later ++ .changed p :: earlier →
      (∀ batch, .taken batch ∈ later → p ∉ batch) →
      p ∈ t.session.store.pending ∨ ∃ batch ∈ t.queue, p ∈ batch :=
    fun later p earlier heq hlater => h.carried p ⟨later, earlier, heq, hlater⟩
  refine ⟨h.changed_iff, t.attempted_iff c, ?_, ?_, h.flushed_eq, h.taken_eq, ?_⟩
  · exact fun move batch job rest hworker hjob => t.not_dropped c move hworker hjob
  · intro later p earlier heq hlater
    refine (hcarried later p earlier heq hlater).imp_left fun hpending => ?_
    exact ⟨hpending, fun hyes => h.armed hyes (List.ne_nil_of_mem hpending)⟩
  · intro hidle hdue hqueue later p earlier u heq hu
    have hyes : t.isAttached = true := h.attached (by rw [hidle]; rfl)
    -- nothing is pending and nothing waits, so a batch with the path was taken since
    have htaken : ∃ batch, .taken batch ∈ later ∧ p ∈ batch := by
      refine Classical.byContradiction fun hno => ?_
      have hlater : ∀ batch, .taken batch ∈ later → p ∉ batch := fun batch hb hp =>
        hno ⟨batch, hb, hp⟩
      rcases hcarried later p earlier heq hlater with hpending | ⟨batch, hmem, _⟩
      · have hdue' := h.armed hyes (List.ne_nil_of_mem hpending)
        rw [hdue] at hdue'
        exact absurd hdue' (by decide)
      · rw [hqueue] at hmem
        exact absurd hmem (by simp)
    obtain ⟨batch, hmem, hp⟩ := htaken
    obtain ⟨newer, older, rfl⟩ := List.append_of_mem hmem
    have hserved := h.served
    rw [hidle] at hserved
    have hsplit : t.history = newer ++ .taken batch :: (older ++ .changed p :: earlier) := by
      rw [heq]
      simp
    rcases hserved newer batch _ hsplit p hp u hu with hdone | hfalse
    · exact List.mem_append_left _ hdone
    · exact absurd hfalse id

end Packwright.Watch.Run
