import Mathlib.Data.List.Induction
import Packwright.Proofs.Channel.Settling

/-!
# Requests that nobody answers

A channel stops listening when its engine ends its output, loses a reply, or says something that is
not a document. Everything registered then fails, so that nobody waits for an answer that nobody
will read. Two kinds of requests escape: those that are made afterwards, and, when the engine has
said something that cannot even be read, those that were waiting then. A third kind was lost
before: a request whose id was given to another one.

* `Sound` is what holds in every course of events; `sound_after` is the induction.
* A deaf course is cut at the occurrence that has ended the reading (`exists_ending_of_deaf`).
  What comes behind it settles nothing any more (`aftermath_run`).
* `leftWaiting_of_deaf` puts the pieces together: who waits in vain, exactly.
-/

namespace Packwright.Traffic

variable {σ : Type}

/-! ## What holds in every course

Tickets are given out once, and a ticket belongs to one id. -/

/-- What holds of the callers and of what is registered and settled, whatever has happened. -/
structure Sound (t : Traffic σ) : Prop where
  callers_lt : ∀ w ∈ t.callers, w.ticket < t.channel.tickets
  registered_lt : ∀ p ∈ t.channel.registered, p.2.ticket < t.channel.tickets
  unsettled : ∀ u, t.channel.tickets ≤ u → t.channel.outcome? u = none
  keys_nodup : (Dictionary.keys t.channel.registered).Nodup
  same_id : ∀ w ∈ t.callers, ∀ p ∈ t.channel.registered, p.2.ticket = w.ticket → p.1 = w.id

/-- Before anything has happened the books are sound. -/
theorem sound_idle (host : σ) : Sound (idle host) where
  callers_lt := by simp [idle]
  registered_lt := by simp [idle, Channel.idle]
  unsettled := by simp [idle, Channel.idle, Channel.outcome?, Dictionary.get?]
  keys_nodup := by simp [idle, Channel.idle, Dictionary.keys]
  same_id := by simp [idle]

/-- What is registered, the callers and the tickets decide soundness, as long as settling only
reaches tickets that have been given out. -/
theorem Sound.of_eq {t t' : Traffic σ} (h : Sound t) (hc : t'.callers = t.callers)
    (hr : t'.channel.registered = t.channel.registered)
    (ht : t'.channel.tickets = t.channel.tickets)
    (hu : ∀ u, t.channel.tickets ≤ u → t'.channel.outcome? u = none) : Sound t' where
  callers_lt := by rw [hc, ht]; exact h.callers_lt
  registered_lt := by rw [hr, ht]; exact h.registered_lt
  unsettled := by rw [ht]; exact hu
  keys_nodup := by rw [hr]; exact h.keys_nodup
  same_id := by rw [hc, hr]; exact h.same_id

/-- The values of what is registered come from its pairs. -/
theorem Sound.values_lt {t : Traffic σ} (h : Sound t) {r : OpenRequest σ}
    (hr : r ∈ Dictionary.values t.channel.registered) : r.ticket < t.channel.tickets := by
  obtain ⟨p, hp, rfl⟩ := List.mem_map.mp hr
  exact h.registered_lt p hp

/-- Failing everything registered reaches only tickets that have been given out. -/
theorem Sound.unsettled_failAll {t : Traffic σ} (h : Sound t) (e : EngineError) (u : Nat)
    (hu : t.channel.tickets ≤ u) : (t.channel.failAll e).outcome? u = none := by
  rw [Channel.outcome?_failAll_eq_none_iff]
  refine ⟨h.unsettled u hu, fun r hr heq => ?_⟩
  have hlt := h.values_lt hr
  omega

/-- Releasing an id and letting callers go keeps soundness. -/
theorem Sound.release {t : Traffic σ} (h : Sound t) (id : String) {callers : List Caller}
    (hsub : ∀ w ∈ callers, w ∈ t.callers) :
    Sound { t with channel := t.channel.release id, callers := callers } where
  callers_lt w hw := h.callers_lt w (hsub w hw)
  registered_lt p hp := h.registered_lt p (Dictionary.mem_of_mem_erase hp)
  unsettled := h.unsettled
  keys_nodup := Dictionary.nodup_keys_erase h.keys_nodup id
  same_id w hw p hp := h.same_id w (hsub w hw) p (Dictionary.mem_of_mem_erase hp)

/-! ## One occurrence -/

/-- The channel to which a request is registered: the one at hand, or one to a new engine. -/
def registering (t : Traffic σ) (e : Errand σ) : Channel σ :=
  (t.channel.connected.chooseId e.id?).2

/-- A request that is taken waits under its id with the next ticket; any other is over. -/
theorem ask_eq (t : Traffic σ) (e : Errand σ) (taken : Bool) :
    t.ask e taken =
      let registered := ((t.registering e).register (t.idFor e) e.handlers).2
      if taken then
        { t with
          channel := registered
          callers := t.callers ++ [⟨t.idFor e, t.channel.tickets⟩] }
      else { t with channel := registered.release (t.idFor e) } := by
  cases taken <;> simp [ask, registering, idFor, Channel.register]

@[simp] theorem registering_registered (t : Traffic σ) (e : Errand σ) :
    (t.registering e).registered = t.channel.registered := by
  simp [registering]

@[simp] theorem registering_tickets (t : Traffic σ) (e : Errand σ) :
    (t.registering e).tickets = t.channel.tickets := by
  simp [registering]

@[simp] theorem registering_outcome? (t : Traffic σ) (e : Errand σ) (u : Nat) :
    (t.registering e).outcome? u = t.channel.outcome? u := by
  simp [registering]

/-- A request that is taken keeps soundness: its ticket is new, and takes the place of whatever
was registered under its id. -/
theorem Sound.ask_taken {t : Traffic σ} (h : Sound t) (e : Errand σ) : Sound (t.ask e true) := by
  rw [ask_eq]
  simp only [if_true]
  have hmem : ∀ p ∈ (((t.registering e).register (t.idFor e) e.handlers).2).registered,
      p = (t.idFor e, ⟨t.channel.tickets, e.handlers⟩) ∨ p ∈ t.channel.registered := by
    intro p hp
    simpa [Channel.register] using Dictionary.mem_put hp
  have htickets : (((t.registering e).register (t.idFor e) e.handlers).2).tickets =
      t.channel.tickets + 1 := by
    simp [Channel.register]
  constructor
  case callers_lt =>
    intro w hw
    rw [htickets]
    rcases List.mem_append.mp hw with hold | hnew
    · have := h.callers_lt w hold
      omega
    · rw [List.mem_singleton.mp hnew]
      exact Nat.lt_succ_self _
  case registered_lt =>
    intro p hp
    rw [htickets]
    rcases hmem p hp with rfl | hold
    · exact Nat.lt_succ_self _
    · have := h.registered_lt p hold
      omega
  case unsettled =>
    intro u hu
    rw [htickets] at hu
    have hsame : (((t.registering e).register (t.idFor e) e.handlers).2).outcome? u =
        t.channel.outcome? u := registering_outcome? t e u
    rw [hsame]
    exact h.unsettled u (by omega)
  case keys_nodup =>
    have hd : (Dictionary.keys (t.registering e).registered).Nodup := by
      rw [registering_registered]
      exact h.keys_nodup
    exact Dictionary.nodup_keys_put hd _ _
  case same_id =>
    -- only the caller and the entry that are new have the new ticket
    intro w hw p hp hticket
    rcases List.mem_append.mp hw with hold | hnew
    · have hlt := h.callers_lt w hold
      rcases hmem p hp with rfl | hreg
      · simp only at hticket
        omega
      · exact h.same_id w hold p hreg hticket
    · rw [List.mem_singleton.mp hnew] at hticket ⊢
      rcases hmem p hp with rfl | hreg
      · rfl
      · have hlt := h.registered_lt p hreg
        simp only at hticket
        omega

/-- A request that is not taken leaves soundness as it is: it is registered and released at once. -/
theorem Sound.ask {t : Traffic σ} (h : Sound t) (e : Errand σ) (taken : Bool) :
    Sound (t.ask e taken) := by
  have htaken := h.ask_taken e
  cases taken with
  | true => exact htaken
  | false =>
    have hsub : ∀ w ∈ t.callers, w ∈ (t.ask e true).callers := by
      intro w hw
      rw [ask_eq]
      simp [hw]
    have hrel := htaken.release (t.idFor e) hsub
    rw [ask_eq] at hrel ⊢
    simpa using hrel

/-- Hearing the engine keeps soundness: it settles a registered ticket, or fails all of them. -/
theorem Sound.heed {t : Traffic σ} (h : Sound t) (m : Message) : Sound (t.heed m) := by
  cases m with
  | call call => exact h.of_eq rfl rfl rfl h.unsettled
  | nothing => exact h.of_eq rfl rfl rfl h.unsettled
  | unreadable => exact h.of_eq rfl rfl rfl h.unsettled
  | garbled =>
    exact h.of_eq rfl (Channel.registered_failAll _ _) (Channel.tickets_failAll _ _)
      (h.unsettled_failAll _)
  | answer id outcome =>
    unfold Traffic.heed Channel.heed Channel.complete
    cases hr : t.channel.registered.get? id with
    | none => exact h.of_eq rfl (by simp [hr]) (by simp [hr]) (by simpa [hr] using h.unsettled)
    | some r =>
      -- the request that is answered has a ticket, and later ones are still unsettled
      have hlt : r.ticket < t.channel.tickets :=
        h.registered_lt _ (Dictionary.mem_of_get?_eq_some hr)
      refine h.of_eq rfl (by simp [hr]) (by simp [hr]) fun u hu => ?_
      simp only [hr]
      rw [Channel.outcome?_settle, if_neg (by rintro ⟨rfl, _⟩; omega)]
      exact h.unsettled u hu

/-- **One occurrence keeps soundness.** -/
theorem Sound.step {t : Traffic σ} (h : Sound t) (o : Occurrence σ) : Sound (t.step o) := by
  cases o with
  | ask e taken => exact h.ask e taken
  | say m =>
    show Sound (if t.channel.hearing = .listening then t.heed m else t)
    split
    · exact h.heed m
    · exact h
  | replyLost =>
    show Sound (if t.channel.hearing = .listening then
      { t with channel := t.channel.fall .inputClosed } else t)
    split
    · exact h.of_eq rfl (Channel.registered_failAll _ _) (Channel.tickets_failAll _ _)
        (h.unsettled_failAll _)
    · exact h
  | outputEnds =>
    show Sound (if t.channel.hearing = .listening then
      { t with channel := t.channel.fall .exited } else t)
    split
    · exact h.of_eq rfl (Channel.registered_failAll _ _) (Channel.tickets_failAll _ _)
        (h.unsettled_failAll _)
    · exact h
  | leave ticket =>
    show Sound (t.leave ticket)
    unfold Traffic.leave
    split
    · exact h
    · exact h.release _ fun w hw => (List.mem_filter.mp hw).1
  | close =>
    exact h.of_eq rfl (Channel.registered_failAll _ _) (Channel.tickets_failAll _ _)
      (h.unsettled_failAll _)

/-- A course of occurrences keeps soundness. -/
theorem Sound.run {t : Traffic σ} (h : Sound t) (course : List (Occurrence σ)) :
    Sound (t.run course) := by
  induction course generalizing t with
  | nil => exact h
  | cons o rest ih => exact ih (h.step o)

theorem sound_after (host : σ) (course : List (Occurrence σ)) : Sound (after host course) :=
  (sound_idle host).run course

/-! ## The occurrence that ends the reading

Only a channel that listens can stop listening, and only in the four ways that `endsReading`
lists. All but the silent one settle everything that is registered. -/

/-- Between open callers and registered requests the ids decide: a ticket is registered exactly if
it is registered under the id of its caller. -/
theorem Sound.exists_registered_iff {t : Traffic σ} (h : Sound t) {w : Caller}
    (hw : w ∈ t.callers) :
    (∃ r ∈ Dictionary.values t.channel.registered, r.ticket = w.ticket) ↔
      t.isRegistered w = true := by
  unfold isRegistered
  rw [Option.any_eq_true]
  constructor
  · rintro ⟨r, hr, hticket⟩
    obtain ⟨p, hp, rfl⟩ := List.mem_map.mp hr
    -- what is lent for the ticket of a caller is lent under its id
    have hid : p.1 = w.id := h.same_id w hw p hp hticket
    have hget : Dictionary.get? t.channel.registered w.id = some p.2 :=
      Dictionary.get?_eq_some_of_mem h.keys_nodup (hid ▸ hp)
    exact ⟨p.2, hget, by simp [hticket]⟩
  · rintro ⟨r, hget, hticket⟩
    have hmem := Dictionary.mem_of_get?_eq_some hget
    exact ⟨r, List.mem_map_of_mem (f := Prod.snd) hmem, by simpa using hticket⟩

/-- A channel that is deaf after an occurrence, and was not before, listened, and the occurrence is
one that ends the reading. -/
theorem listening_of_step_deaf {t : Traffic σ} {o : Occurrence σ}
    (hbefore : t.channel.hearing ≠ .deaf) (hafter : (t.step o).channel.hearing = .deaf) :
    t.channel.hearing = .listening ∧ o.endsReading = true := by
  cases o with
  | ask e taken =>
    -- registering connects a channel without an engine, and leaves a listening one as it is
    exfalso
    have hreg : (t.registering e).hearing = .deaf := by
      have hstep : (t.ask e taken).channel.hearing = .deaf := hafter
      rw [ask_eq] at hstep
      cases taken <;> simpa [Channel.register, Channel.release] using hstep
    rw [registering, Channel.hearing_chooseId, Channel.hearing_connected] at hreg
    split at hreg
    · exact absurd hreg (by decide)
    · exact hbefore hreg
  | say m =>
    simp only [Traffic.step] at hafter
    split at hafter
    · rename_i hl
      refine ⟨hl, ?_⟩
      cases m with
      | garbled => rfl
      | unreadable => rfl
      | call call => exact absurd hafter hbefore
      | nothing => exact absurd hafter hbefore
      | answer id outcome =>
        exfalso
        unfold Traffic.heed Channel.heed Channel.complete at hafter
        cases hr : t.channel.registered.get? id with
        | none => exact hbefore (by simpa [hr] using hafter)
        | some r => exact hbefore (by simpa [hr] using hafter)
    · exact absurd hafter hbefore
  | replyLost =>
    simp only [Traffic.step] at hafter
    split at hafter
    · rename_i hl
      exact ⟨hl, rfl⟩
    · exact absurd hafter hbefore
  | outputEnds =>
    simp only [Traffic.step] at hafter
    split at hafter
    · rename_i hl
      exact ⟨hl, rfl⟩
    · exact absurd hafter hbefore
  | leave ticket =>
    exfalso
    simp only [Traffic.step, Traffic.leave] at hafter
    split at hafter <;> exact hbefore hafter
  | close => exact absurd hafter (by simp [Traffic.step, Channel.disconnect])

/-- **What the end of the reading leaves behind.** Nobody comes or goes, and a ticket stays without
an outcome exactly if it had none and the end was silent or nothing registered holds it. -/
theorem step_of_endsReading {t : Traffic σ} {o : Occurrence σ}
    (hl : t.channel.hearing = .listening) (ho : o.endsReading = true) :
    (t.step o).channel.hearing = .deaf ∧ (t.step o).callers = t.callers ∧
      (t.step o).channel.tickets = t.channel.tickets ∧
      ∀ u, (t.step o).channel.outcome? u = none ↔
        t.channel.outcome? u = none ∧ (o.endsSilently = true ∨
          ∀ r ∈ Dictionary.values t.channel.registered, r.ticket ≠ u) := by
  have hfall : ∀ e : EngineError, ∀ u, (t.channel.fall e).outcome? u = none ↔
      t.channel.outcome? u = none ∧
        ∀ r ∈ Dictionary.values t.channel.registered, r.ticket ≠ u :=
    fun e u => Channel.outcome?_failAll_eq_none_iff t.channel e u
  have hkeep : ∀ e : EngineError, (t.channel.fall e).tickets = t.channel.tickets :=
    fun e => Channel.tickets_failAll t.channel e
  -- an unreadable line fails nobody; the other three ends fail all that is registered
  cases o with
  | say m =>
    have hstep : t.step (.say m) = t.heed m := if_pos hl
    rw [hstep]
    cases m with
    | garbled =>
      refine ⟨rfl, rfl, hkeep .garbled, fun u => ?_⟩
      show (t.channel.fall .garbled).outcome? u = none ↔ _
      simpa [Occurrence.endsSilently] using hfall .garbled u
    | unreadable => exact ⟨rfl, rfl, rfl, fun u => by simp [Occurrence.endsSilently]; rfl⟩
    | call call => simp [Occurrence.endsReading] at ho
    | nothing => simp [Occurrence.endsReading] at ho
    | answer id outcome => simp [Occurrence.endsReading] at ho
  | replyLost =>
    have hstep : t.step .replyLost = { t with channel := t.channel.fall .inputClosed } := if_pos hl
    rw [hstep]
    refine ⟨rfl, rfl, hkeep .inputClosed, fun u => ?_⟩
    simpa [Occurrence.endsSilently] using hfall .inputClosed u
  | outputEnds =>
    have hstep : t.step .outputEnds = { t with channel := t.channel.fall .exited } := if_pos hl
    rw [hstep]
    refine ⟨rfl, rfl, hkeep .exited, fun u => ?_⟩
    simpa [Occurrence.endsSilently] using hfall .exited u
  | ask e taken => simp [Occurrence.endsReading] at ho
  | leave ticket => simp [Occurrence.endsReading] at ho
  | close => simp [Occurrence.endsReading] at ho

/-! ## After the end of the reading

As long as a deaf channel is not closed, no ticket is settled any more, and whoever comes gets a
new ticket. -/

/-- What a deaf channel has become while it was not closed. -/
structure Aftermath (t t' : Traffic σ) : Prop where
  deaf : t'.channel.hearing = .deaf
  outcome_eq : ∀ u, t'.channel.outcome? u = t.channel.outcome? u
  tickets_le : t.channel.tickets ≤ t'.channel.tickets
  callers : ∀ w ∈ t'.callers, w ∈ t.callers ∨ t.channel.tickets ≤ w.ticket

theorem Aftermath.refl {t : Traffic σ} (h : t.channel.hearing = .deaf) : Aftermath t t :=
  ⟨h, fun _ => rfl, Nat.le_refl _, fun _ hw => Or.inl hw⟩

/-- What a deaf loop leaves behind, it leaves behind for good. -/
theorem Aftermath.trans {t t' t'' : Traffic σ} (h : Aftermath t t') (h' : Aftermath t' t'') :
    Aftermath t t'' where
  deaf := h'.deaf
  outcome_eq u := (h'.outcome_eq u).trans (h.outcome_eq u)
  tickets_le := Nat.le_trans h.tickets_le h'.tickets_le
  callers w hw := by
    rcases h'.callers w hw with hold | hnew
    · exact h.callers w hold
    · exact Or.inr (Nat.le_trans h.tickets_le hnew)

/-- One occurrence at a deaf channel. -/
theorem aftermath_step {t : Traffic σ} (hd : t.channel.hearing = .deaf) {o : Occurrence σ}
    (ho : o.isClose = false) : Aftermath t (t.step o) := by
  have hnl : t.channel.hearing ≠ .listening := by simp [hd]
  cases o with
  | ask e taken =>
    -- there is an engine still, so none is started for the request
    have hregdeaf : (t.registering e).hearing = .deaf := by
      rw [registering, Channel.hearing_chooseId, Channel.hearing_connected, hd]
      rfl
    have houtcome : ∀ u, (t.registering e).outcome? u = t.channel.outcome? u :=
      registering_outcome? t e
    show Aftermath t (t.ask e taken)
    rw [ask_eq]
    cases taken with
    | true =>
      refine ⟨hregdeaf, houtcome, ?_, fun w hw => ?_⟩
      · simp [Channel.register]
      · rcases List.mem_append.mp hw with hold | hnew
        · exact Or.inl hold
        · rw [List.mem_singleton.mp hnew]
          exact Or.inr (Nat.le_refl _)
    | false =>
      refine ⟨hregdeaf, houtcome, ?_, fun w hw => Or.inl hw⟩
      simp [Channel.register, Channel.release]
  | say m =>
    have hstep : t.step (.say m) = t := if_neg hnl
    rw [hstep]
    exact .refl hd
  | replyLost =>
    have hstep : t.step .replyLost = t := if_neg hnl
    rw [hstep]
    exact .refl hd
  | outputEnds =>
    have hstep : t.step .outputEnds = t := if_neg hnl
    rw [hstep]
    exact .refl hd
  | leave ticket =>
    show Aftermath t (t.leave ticket)
    unfold Traffic.leave
    split
    · exact .refl hd
    · exact ⟨hd, fun _ => rfl, Nat.le_refl _, fun w hw => Or.inl (List.mem_filter.mp hw).1⟩
  | close => simp [Occurrence.isClose] at ho

/-- A course of occurrences at a deaf channel that is not closed. -/
theorem aftermath_run {t : Traffic σ} (hd : t.channel.hearing = .deaf)
    {course : List (Occurrence σ)} (hc : ∀ o ∈ course, o.isClose = false) :
    Aftermath t (t.run course) := by
  induction course generalizing t with
  | nil => exact .refl hd
  | cons o rest ih =>
    have hfirst : Aftermath t (t.step o) := aftermath_step hd (hc o List.mem_cons_self)
    have hrest : Aftermath (t.step o) ((t.step o).run rest) :=
      ih hfirst.deaf fun p hp => hc p (List.mem_cons_of_mem _ hp)
    exact hfirst.trans hrest

theorem after_append (host : σ) (course more : List (Occurrence σ)) :
    after host (course ++ more) = (after host course).run more :=
  List.foldl_append

/-! ## Who waits in vain -/

/-- Where a course of occurrences at a channel was cut off from its engine: after `before` the
channel listened, `last` ended the reading, and the channel was not closed in `rest`. -/
structure Ending (host : σ) (course before : List (Occurrence σ)) (last : Occurrence σ)
    (rest : List (Occurrence σ)) : Prop where
  course_eq : course = before ++ last :: rest
  listening : (after host before).channel.hearing = .listening
  ends : last.endsReading = true
  not_closed : ∀ o ∈ rest, o.isClose = false

/-- What becomes of requests at a channel that listens no more. -/
structure LeftWaiting (host : σ) (course : List (Occurrence σ)) : Prop where
  /-- Those who wait for a ticket that is not settled are exactly those who asked after the end of
  the reading, and those who were waiting already and were not failed: the end was silent, or their
  id had been given to another request. -/
  unanswered_iff : ∃ before last rest, Ending host course before last rest ∧
    ∀ w ∈ (after host course).callers,
      ((after host course).isUnanswered w = true ↔
        (after host before).channel.tickets ≤ w.ticket ∨
        (after host before).isUnanswered w = true ∧
          (last.endsSilently = true ∨ (after host before).isRegistered w = false))
  /-- A request whose line is not taken is over at once. -/
  refused : ∀ e, ((after host course).step (.ask e false)).callers = (after host course).callers
  /-- A request whose line is taken waits, and its ticket is not settled before the channel is
  closed. -/
  late : ∀ e, ∃ w, ((after host course).step (.ask e true)).callers =
      (after host course).callers ++ [w] ∧
    ∀ more, (∀ o ∈ more, o.isClose = false) →
      (((after host course).step (.ask e true)).run more).isUnanswered w = true
  /-- After the channel has been closed, a request is heard by a new engine. -/
  reconnected : ∀ e taken,
    (after host (course ++ [.close, .ask e taken])).channel.hearing = .listening

/-- **The last end of the reading.** A deaf channel was cut off from its engine at one occurrence,
and was not closed since. Induction from the end of the course. -/
theorem exists_ending_of_deaf (host : σ) (course : List (Occurrence σ))
    (hdeaf : (after host course).channel.hearing = .deaf) :
    ∃ before last rest, Ending host course before last rest := by
  induction course using List.reverseRecOn with
  | nil => exact absurd hdeaf (by simp [after, run, idle, Channel.idle])
  | append_singleton init o ih =>
    rw [after_append] at hdeaf
    by_cases hinit : (after host init).channel.hearing = .deaf
    · obtain ⟨before, last, rest, hend⟩ := ih hinit
      refine ⟨before, last, rest ++ [o], ?_, hend.listening, hend.ends, fun p hp => ?_⟩
      · rw [hend.course_eq]
        simp
      -- the loop is still deaf, so the new occurrence does not close the channel
      rcases List.mem_append.mp hp with hold | hnew
      · exact hend.not_closed p hold
      · rw [List.mem_singleton.mp hnew]
        cases o with
        | close => exact absurd hdeaf (by simp [run, Traffic.step, Channel.disconnect])
        | _ => rfl
    · obtain ⟨hl, hends⟩ := listening_of_step_deaf hinit hdeaf
      exact ⟨init, o, [], by simp, hl, hends, by simp⟩

/-- Who is unanswered after the reading has ended: those who came afterwards, and those who were
left out when everything registered was failed. -/
theorem Ending.unanswered_iff {host : σ} {course before rest : List (Occurrence σ)}
    {last : Occurrence σ} (h : Ending host course before last rest) {w : Caller}
    (hw : w ∈ (after host course).callers) :
    (after host course).isUnanswered w = true ↔
      (after host before).channel.tickets ≤ w.ticket ∨
      (after host before).isUnanswered w = true ∧
        (last.endsSilently = true ∨ (after host before).isRegistered w = false) := by
  have hb := sound_after host before
  obtain ⟨hd, hcallers, htickets, houtcome⟩ := step_of_endsReading h.listening h.ends
  have haft : Aftermath ((after host before).step last) (after host course) := by
    rw [h.course_eq, after_append]
    exact aftermath_run hd h.not_closed
  unfold isUnanswered
  rw [Option.isNone_iff_eq_none, Option.isNone_iff_eq_none, haft.outcome_eq, houtcome]
  rcases haft.callers w hw with hold | hnew
  · -- the caller was there before the end: its ticket is old
    rw [hcallers] at hold
    have hlt := hb.callers_lt w hold
    have hreg : (∀ r ∈ Dictionary.values (after host before).channel.registered,
        r.ticket ≠ w.ticket) ↔ (after host before).isRegistered w = false := by
      rw [← Bool.not_eq_true, ← hb.exists_registered_iff hold]
      simp
    rw [hreg]
    constructor
    · exact Or.inr
    · rintro (hle | hleft)
      · omega
      · exact hleft
  · -- the caller came after the end: its ticket is new, and no new ticket is settled
    rw [htickets] at hnew
    have hnone := hb.unsettled w.ticket hnew
    constructor
    · exact fun _ => Or.inl hnew
    · refine fun _ => ⟨hnone, Or.inr fun r hr heq => ?_⟩
      have hlt := hb.values_lt hr
      omega

/-- A request that is taken by a deaf channel waits until the channel is closed. -/
theorem late_of_deaf {host : σ} {course : List (Occurrence σ)}
    (hdeaf : (after host course).channel.hearing = .deaf) (e : Errand σ) :
    ∃ w, ((after host course).step (.ask e true)).callers = (after host course).callers ++ [w] ∧
      ∀ more, (∀ o ∈ more, o.isClose = false) →
        (((after host course).step (.ask e true)).run more).isUnanswered w = true := by
  refine ⟨⟨(after host course).idFor e, (after host course).channel.tickets⟩, ?_, ?_⟩
  · show ((after host course).ask e true).callers = _
    rw [ask_eq]
    rfl
  · intro more hmore
    -- a deaf loop settles nothing any more, as long as the channel is not closed
    have hfirst : Aftermath (after host course) ((after host course).step (.ask e true)) :=
      aftermath_step hdeaf rfl
    have hall := hfirst.trans (aftermath_run hfirst.deaf hmore)
    unfold isUnanswered
    rw [Option.isNone_iff_eq_none, hall.outcome_eq]
    exact (sound_after host course).unsettled _ (Nat.le_refl _)

/-- A request at a channel that has been closed starts a new engine, which is listened to. -/
theorem hearing_ask_of_disconnected {t : Traffic σ} (h : t.channel.hearing = .disconnected)
    (e : Errand σ) (taken : Bool) : (t.ask e taken).channel.hearing = .listening := by
  have hreg : (t.registering e).hearing = .listening := by
    rw [registering, Channel.hearing_chooseId, Channel.hearing_connected, h]
    rfl
  rw [ask_eq]
  cases taken <;> exact hreg

/-- **Who waits in vain**, exactly, when a channel has stopped listening. -/
theorem leftWaiting_of_deaf (host : σ) (course : List (Occurrence σ))
    (hdeaf : (after host course).channel.hearing = .deaf) : LeftWaiting host course where
  unanswered_iff := by
    obtain ⟨before, last, rest, hend⟩ := exists_ending_of_deaf host course hdeaf
    exact ⟨before, last, rest, hend, fun w hw => hend.unanswered_iff hw⟩
  refused e := by
    show ((after host course).ask e false).callers = (after host course).callers
    rw [ask_eq]
    rfl
  late e := late_of_deaf hdeaf e
  reconnected e taken := by
    rw [after_append]
    exact hearing_ask_of_disconnected (t := (after host course).step .close) rfl e taken

/-- A request without a particular id. -/
def plainErrand (id? : Option String) : Errand Unit := ⟨id?, "compile", [], []⟩

/-- Two requests share an id, the engine ends its output, and a third request is made: the first
one has lost its id, and the third one is too late. -/
def lostIdAndLate : List (Occurrence Unit) :=
  [.ask (plainErrand (some "x")) true, .ask (plainErrand (some "x")) true, .outputEnds,
    .ask (plainErrand none) true]

theorem leftWaiting_lostIdAndLate :
    (after () lostIdAndLate).channel.hearing = .deaf ∧ LeftWaiting () lostIdAndLate ∧
      (after () lostIdAndLate).callers.filter (after () lostIdAndLate).isUnanswered =
        [⟨"x", 0⟩, ⟨"req-000001", 2⟩] :=
  ⟨by decide, leftWaiting_of_deaf () lostIdAndLate (by decide), by decide⟩

/-- A request that is made after the engine has ended its output is never answered: it does not
hold that a channel that listens no more leaves nobody waiting. -/
theorem exists_unanswered_of_outputEnds :
    ¬ ∀ course : List (Occurrence Unit), (after () course).channel.hearing = .deaf →
      ∀ w ∈ (after () course).callers, (after () course).isUnanswered w = false := by
  intro h
  have hlate := h [.ask (plainErrand none) true, .outputEnds, .ask (plainErrand none) true]
    (by decide) ⟨"req-000002", 1⟩ (by decide)
  exact absurd hlate (by decide)

end Packwright.Traffic
