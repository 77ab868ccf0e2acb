import Packwright.Proofs.Channel.CrossTalk
import Packwright.Rehearsal.Scene

/-!
# A scene is a channel in use

Whatever is played at a channel is a course of occurrences: asking, hearing, finishing and closing
each do to the channel what one or two occurrences do. So what holds of every course of
occurrences holds of every scene.

* `InStep` says that a client knows an engine exactly if its channel is connected; asking, hearing
  and closing keep it.
* `ask_traffic`, `hear_traffic`, `finish_traffic` and `close_traffic` are the four translations;
  `replyWith_traffic` is the part of hearing that can fail.
* `Played` says that a scene has come about by such a course, with those who wait at it. Asking,
  listening, finishing and closing keep it, and `played_rounds` is the induction over a whole play:
  round after round of requests that are asked together, heard together and finished in turn.
-/

namespace Packwright.Rehearsal.Scene

variable {σ : Type}

/-- The channel of a scene in use, with those who wait at it. -/
def traffic (s : Scene σ) (callers : List Caller) : Traffic σ :=
  ⟨s.client.channel, callers, s.host⟩

/-- The client knows an engine exactly if its channel is connected. -/
def InStep (s : Scene σ) : Prop :=
  s.client.actor? = none ↔ s.client.channel.hearing = .disconnected

/-- The caller that a request leaves waiting, if its line was taken. -/
def callersOf (a : Asked) : List Caller :=
  (a.ticket.toOption.map fun ticket => ⟨a.id, ticket⟩).toList

/-- A new client has no engine, and its channel is disconnected. -/
theorem inStep_ofCommand (command : List String) (stage : Stage) (host : σ) :
    InStep (⟨.ofCommand command, stage, host⟩ : Scene σ) :=
  ⟨fun _ => rfl, fun _ => rfl⟩

/-! ## Asking -/

/-- Starting the engine connects the channel, unless it is connected. -/
theorem channel_start {s : Scene σ} (hs : s.InStep) :
    s.start.client.channel = s.client.channel.connected := by
  unfold start Channel.connected
  cases ha : s.client.actor? with
  | none => rw [if_pos (hs.mp ha)]; rfl
  | some n =>
    have hne : s.client.channel.hearing ≠ .disconnected := fun hd => by
      simp [hs.mpr hd] at ha
    rw [if_neg hne]

@[simp] theorem host_start (s : Scene σ) : s.start.host = s.host := by
  unfold start onChannel
  split <;> rfl

/-- Sending a line touches neither the channel nor the host. -/
theorem send_keeps (s : Scene σ) (line : String) :
    (s.send line).2.client = s.client ∧ (s.send line).2.host = s.host := by
  unfold send
  cases ha : s.client.actor? with
  | none => exact ⟨rfl, rfl⟩
  | some n =>
    dsimp only
    split <;> exact ⟨rfl, rfl⟩

/-- **Asking is one occurrence**: a request whose line is taken or not. -/
theorem ask_traffic {s : Scene σ} (hs : s.InStep) (e : Errand σ) (callers : List Caller) :
    (s.ask e).2.traffic (callers ++ callersOf (s.ask e).1) =
      (s.traffic callers).step (.ask e (s.ask e).1.ticket.toOption.isSome) := by
  have hstart := channel_start hs
  show _ = (s.traffic callers).ask e _
  unfold ask Traffic.ask
  simp only [traffic, hstart]
  -- the line is sent from the scene in which the request is registered
  generalize hr : (s.client.channel.connected.chooseId e.id?).2.register
    (s.client.channel.connected.chooseId e.id?).1 e.handlers = registered
  generalize hline : (HostMessage.request _ e.method e.params).toLine = line
  have hkeep := send_keeps (s.start.onChannel fun _ => registered.2) line
  cases hsend : (s.start.onChannel fun _ => registered.2).send line with
  | mk result sent =>
    rw [hsend] at hkeep
    have hclient : sent.client.channel = registered.2 := congrArg Client.channel hkeep.1
    have hhost : sent.host = s.host := hkeep.2.trans (host_start s)
    cases result with
    | ok u =>
      simp only [callersOf, Except.toOption, Option.map_some, Option.toList_some,
        Option.isSome_some, if_true]
      rw [hclient, hhost]
    | error failure =>
      simp only [callersOf, Except.toOption, Option.map_none, Option.toList_none,
        List.append_nil, Option.isSome_none, onChannel]
      rw [hclient, hhost]
      exact (if_neg Bool.false_ne_true).symm

/-! ## Hearing -/

/-- **Replying is one occurrence at most**: the reply is taken, or it is lost. -/
theorem replyWith_traffic {s : Scene σ} (hl : s.client.channel.hearing = .listening)
    (m : HostMessage) (callers : List Caller) :
    (s.replyWith m).traffic callers = s.traffic callers ∨
      (s.replyWith m).traffic callers = (s.traffic callers).step .replyLost := by
  obtain ⟨hclient, hhost⟩ := send_keeps s m.toLine
  unfold replyWith
  cases hsend : s.send m.toLine with
  | mk result sent =>
    rw [hsend] at hclient hhost
    have hsent : sent.traffic callers = s.traffic callers := by
      unfold traffic
      rw [show sent.client = s.client from hclient, show sent.host = s.host from hhost]
    -- a reply that cannot be sent is what the traffic calls a lost reply
    cases result with
    | ok u => exact .inl hsent
    | error failure =>
      right
      rw [show (s.traffic callers).step .replyLost = _ from if_pos hl, ← hsent]
      rfl

/-- **Hearing is at most two occurrences**: the engine ends its output, or says something and
perhaps does not take the reply. The channel is not closed by it. -/
theorem hear_traffic {s s' : Scene σ} (h : s.hear = some s') (callers : List Caller) :
    ∃ course : List (Occurrence σ), s'.traffic callers = (s.traffic callers).run course ∧
      ∀ o ∈ course, o.isClose = false := by
  unfold hear at h
  split at h
  · rename_i n hactor hlistening
    have hl : (s.traffic callers).channel.hearing = .listening := hlistening
    split at h
    · exact absurd h (by simp)
    · rename_i stage _
      refine ⟨[.outputEnds], ?_, by simp [Occurrence.isClose]⟩
      rw [← Option.some.inj h]
      show _ = (s.traffic callers).step .outputEnds
      rw [show (s.traffic callers).step .outputEnds =
        { s.traffic callers with channel := (s.traffic callers).channel.fall .exited } from if_pos hl]
      rfl
    · rename_i line stage _
      have hsay : (s.traffic callers).step (.say (Message.ofLine line)) =
          (s.traffic callers).heed (Message.ofLine line) := if_pos hl
      dsimp only at h
      cases hreply : (s.client.channel.hear line s.host).2.1 with
      | none =>
        refine ⟨[.say (Message.ofLine line)], ?_, by simp [Occurrence.isClose]⟩
        rw [hreply] at h
        rw [← Option.some.inj h]
        show _ = (s.traffic callers).step (.say (Message.ofLine line))
        rw [hsay]
        rfl
      | some m =>
        rw [hreply] at h
        rw [← Option.some.inj h]
        generalize hscene : onChannel _ _ = heard
        have hheard : heard.traffic callers = (s.traffic callers).heed (Message.ofLine line) := by
          rw [← hscene]
          rfl
        -- a reply is owed only to a call, and a call leaves the channel listening
        have hstill : heard.client.channel.hearing = .listening := by
          rw [← hscene]
          unfold Channel.hear at hreply ⊢
          cases hm : Message.ofLine line with
          | call call => exact hl
          | _ => simp [hm, Channel.heed] at hreply
        rcases replyWith_traffic hstill m callers with htaken | hlost
        · refine ⟨[.say (Message.ofLine line)], ?_, by simp [Occurrence.isClose]⟩
          show _ = (s.traffic callers).step (.say (Message.ofLine line))
          rw [htaken, hheard, hsay]
        · refine ⟨[.say (Message.ofLine line), .replyLost], ?_, by simp [Occurrence.isClose]⟩
          show _ = ((s.traffic callers).step (.say (Message.ofLine line))).step .replyLost
          rw [hlost, hheard, hsay]
  · exact absurd h (by simp)

/-! ## Finishing and closing -/

/-- **Finishing a request is one occurrence**: its caller goes. -/
theorem finish_traffic (s : Scene σ) {a : Asked} {ticket : Nat} {callers : List Caller}
    (ha : a.ticket = .ok ticket)
    (hfirst : (callers.find? fun w => w.ticket = ticket) = some ⟨a.id, ticket⟩) :
    (s.finish a).2.traffic (callers.filter fun w => w.ticket ≠ ticket) =
      (s.traffic callers).step (.leave ticket) := by
  show _ = (s.traffic callers).leave ticket
  unfold finish Traffic.leave
  simp only [ha, traffic, hfirst]
  rfl

/-- **Closing is one occurrence.** -/
theorem close_traffic (s : Scene σ) (callers : List Caller) :
    s.closed.traffic callers = (s.traffic callers).step .close := by
  unfold closed close
  cases s.client.actor? with
  | none => rfl
  | some n => rfl

/-- Closing the client takes its engine away and disconnects the channel. -/
theorem inStep_closed (s : Scene σ) : s.closed.InStep := by
  unfold closed close InStep
  cases ha : s.client.actor? with
  | none => simp [onChannel, Channel.disconnect, ha]
  | some n => simp [onChannel, Channel.disconnect]

/-! ## Staying in step

The client forgets its engine only when it closes it, and only closing disconnects the channel. -/

/-- Once it is started, there is an engine. -/
theorem actor?_start (s : Scene σ) : s.start.client.actor?.isSome = true := by
  unfold start
  cases ha : s.client.actor? with
  | none => rfl
  | some n => exact Option.isSome_iff_exists.mpr ⟨n, ha⟩

/-- A request starts an engine if there is none, and a request that cannot be sent leaves it
running. -/
theorem actor?_ask (s : Scene σ) (e : Errand σ) : (s.ask e).2.client.actor?.isSome = true := by
  unfold ask
  dsimp only
  generalize (s.start.client.channel.chooseId e.id?).2.register _ e.handlers = registered
  generalize HostMessage.toLine _ = line
  obtain ⟨hclient, -⟩ := send_keeps (s.start.onChannel fun _ => registered.2) line
  cases hsend : (s.start.onChannel fun _ => registered.2).send line with
  | mk result sent =>
    rw [hsend] at hclient
    -- sending does not end the engine that was started for it
    have hsome : sent.client.actor?.isSome = true := by
      rw [show sent.client = (s.start.onChannel fun _ => registered.2).client from hclient]
      exact actor?_start s
    cases result with
    | ok u => exact hsome
    | error failure => exact hsome

/-- Only an engine is heard, and hearing it does not end it. -/
theorem actor?_hear {s s' : Scene σ} (h : s.hear = some s') :
    s.client.actor?.isSome = true ∧ s'.client.actor? = s.client.actor? := by
  unfold hear at h
  split at h
  · rename_i n hactor hlistening
    refine ⟨Option.isSome_iff_exists.mpr ⟨n, hactor⟩, ?_⟩
    split at h
    · exact absurd h (by simp)
    · rw [← Option.some.inj h]
      rfl
    · dsimp only at h
      split at h
      · rw [← Option.some.inj h]
        rfl
      · rw [← Option.some.inj h]
        -- the reply is sent by the engine that was heard, and sending changes no client
        unfold replyWith
        generalize hscene : onChannel _ _ = heard
        have hheard : heard.client.actor? = s.client.actor? := by
          rw [← hscene]
          rfl
        generalize HostMessage.toLine _ = line
        obtain ⟨hclient, -⟩ := send_keeps heard line
        cases hsend : heard.send line with
        | mk result sent =>
          rw [hsend] at hclient
          have hsent := congrArg Client.actor? hclient
          cases result with
          | ok u => exact hsent.trans hheard
          | error failure => exact hsent.trans hheard
  · exact absurd h (by simp)

/-- What the engine says may make the channel deaf, but never disconnects it. -/
theorem hearing_heed_ne {t : Traffic σ} (h : t.channel.hearing ≠ .disconnected) (m : Message) :
    (t.heed m).channel.hearing ≠ .disconnected := by
  cases m with
  | call call => exact h
  | answer id outcome =>
    show (t.channel.complete id outcome).hearing ≠ _
    unfold Channel.complete
    split
    · exact h
    · -- settling leaves the hearing alone
      rw [Channel.hearing_settle]
      exact h
  | nothing => exact h
  | garbled => exact fun hd => Hearing.noConfusion hd
  | unreadable => exact fun hd => Hearing.noConfusion hd

/-- Only closing disconnects a channel. -/
theorem hearing_step_ne {t : Traffic σ} (h : t.channel.hearing ≠ .disconnected) {o : Occurrence σ}
    (ho : o.isClose = false) : (t.step o).channel.hearing ≠ .disconnected := by
  cases o with
  | ask e taken =>
    show (t.ask e taken).channel.hearing ≠ _
    rw [Traffic.hearing_ask, if_neg h]
    exact h
  | say m =>
    show (if _ then t.heed m else t).channel.hearing ≠ _
    split
    · exact hearing_heed_ne h m
    · exact h
  | replyLost =>
    show (if _ then _ else t : Traffic σ).channel.hearing ≠ _
    split
    · simp [Channel.fall]
    · exact h
  | outputEnds =>
    show (if _ then _ else t : Traffic σ).channel.hearing ≠ _
    split
    · simp [Channel.fall]
    · exact h
  | leave ticket =>
    show (t.leave ticket).channel.hearing ≠ _
    unfold Traffic.leave
    split <;> exact h
  | close => exact absurd ho (by simp [Occurrence.isClose])

/-- Induction over what happens. -/
theorem hearing_run_ne {t : Traffic σ} (h : t.channel.hearing ≠ .disconnected)
    {course : List (Occurrence σ)} (hcourse : ∀ o ∈ course, o.isClose = false) :
    (t.run course).channel.hearing ≠ .disconnected := by
  induction course generalizing t with
  | nil => exact h
  | cons o rest ih =>
    exact ih (hearing_step_ne h (hcourse o List.mem_cons_self)) fun o' ho' =>
      hcourse o' (List.mem_cons_of_mem _ ho')

/-- With an engine at hand, a scene is in step exactly if its channel is not disconnected. -/
theorem inStep_of_isSome {s : Scene σ} (hactor : s.client.actor?.isSome = true)
    (h : s.client.channel.hearing ≠ .disconnected) : s.InStep := by
  refine ⟨fun hnone => ?_, fun hd => absurd hd h⟩
  rw [hnone] at hactor
  exact absurd hactor (by simp)

/-- A request keeps the client and its channel in step: both have an engine afterwards. -/
theorem inStep_ask {s : Scene σ} (hs : s.InStep) (e : Errand σ) : (s.ask e).2.InStep := by
  refine inStep_of_isSome (actor?_ask s e) ?_
  have hhearing : (s.ask e).2.client.channel.hearing =
      if s.client.channel.hearing = .disconnected then .listening
      else s.client.channel.hearing := by
    have hstep := congrArg (fun t => t.channel.hearing) (ask_traffic hs e [])
    exact hstep.trans (Traffic.hearing_ask (s.traffic []) e _)
  rw [hhearing]
  split
  · simp
  · assumption

/-- Hearing a line keeps them in step: the engine stays, and the channel is not closed by it. -/
theorem inStep_hear {s s' : Scene σ} (hs : s.InStep) (h : s.hear = some s') : s'.InStep := by
  obtain ⟨hsome, hsame⟩ := actor?_hear h
  refine inStep_of_isSome (hsame ▸ hsome) ?_
  obtain ⟨course, htraffic, hcourse⟩ := hear_traffic h []
  have hconnected : (s.traffic []).channel.hearing ≠ .disconnected := fun hd => by
    rw [hs.mpr hd] at hsome
    exact absurd hsome (by simp)
  exact congrArg (fun t => t.channel.hearing) htraffic ▸ hearing_run_ne hconnected hcourse

/-! ## A whole play -/

/-- Whether a scene, with those who wait at it, has come about by a course of occurrences at a fresh
channel. That no two of them wait for the same ticket is what makes a caller go when its own request
is finished, and nobody else. -/
structure Played (host : σ) (s : Scene σ) (callers : List Caller) : Prop where
  inStep : s.InStep
  course : ∃ course, s.traffic callers = Traffic.after host course
  tickets_nodup : (callers.map Caller.ticket).Nodup

variable {host : σ} {s : Scene σ} {callers : List Caller}

theorem played_ofCommand (command : List String) (stage : Stage) (host : σ) :
    Played host (⟨.ofCommand command, stage, host⟩ : Scene σ) [] :=
  ⟨inStep_ofCommand command stage host, ⟨[], rfl⟩, List.nodup_nil⟩

/-- One more stretch of a course. -/
theorem Played.extend (h : Played host s callers) {s' : Scene σ} {callers' : List Caller}
    (more : List (Occurrence σ)) (hs : s'.InStep)
    (ht : s'.traffic callers' = (s.traffic callers).run more)
    (hn : (callers'.map Caller.ticket).Nodup) : Played host s' callers' := by
  obtain ⟨course, hcourse⟩ := h.course
  refine ⟨hs, ⟨course ++ more, ?_⟩, hn⟩
  rw [Traffic.after_append, ← hcourse]
  exact ht

/-- The ticket of a request is the next one of the channel, which nobody waits for. -/
theorem Played.ask (h : Played host s callers) (e : Errand σ) :
    Played host (s.ask e).2 (callers ++ callersOf (s.ask e).1) := by
  refine h.extend [.ask e (s.ask e).1.ticket.toOption.isSome] (inStep_ask h.inStep e)
    (ask_traffic h.inStep e callers) ?_
  obtain ⟨course, hcourse⟩ := h.course
  have hsound : (s.traffic callers).Sound := hcourse ▸ Traffic.sound_after host course
  have hcallers : callers ++ callersOf (s.ask e).1 =
      ((s.traffic callers).ask e (s.ask e).1.ticket.toOption.isSome).callers :=
    congrArg Traffic.callers (ask_traffic h.inStep e callers)
  rw [hcallers, Traffic.ask_eq]
  cases (s.ask e).1.ticket.toOption.isSome with
  | false => exact h.tickets_nodup
  | true =>
    show ((callers ++ [_]).map Caller.ticket).Nodup
    rw [List.map_append, List.nodup_append]
    -- the new ticket is later than all that have been handed out
    refine ⟨h.tickets_nodup, List.nodup_singleton _, fun u hu v hv heq => ?_⟩
    obtain ⟨w, hw, rfl⟩ := List.mem_map.mp hu
    have hlt := hsound.callers_lt w hw
    rw [heq, List.mem_singleton.mp hv] at hlt
    exact absurd hlt (Nat.lt_irrefl _)

/-- Hearing a line lets nobody in and nobody out. -/
theorem Played.hear (h : Played host s callers) {s' : Scene σ} (hs : s.hear = some s') :
    Played host s' callers := by
  obtain ⟨course, htraffic, -⟩ := hear_traffic hs callers
  exact h.extend _ (inStep_hear h.inStep hs) htraffic h.tickets_nodup

/-- Induction over the lines that are heard. -/
theorem Played.listenFor (h : Played host s callers) (fuel : Nat) :
    Played host (s.listenFor fuel) callers := by
  induction fuel generalizing s with
  | zero => exact h
  | succ fuel ih =>
    rw [Scene.listenFor]
    split
    · exact h
    · rename_i s' hs
      exact ih (h.hear hs)

theorem Played.listen (h : Played host s callers) : Played host s.listen callers :=
  h.listenFor _

/-- Finishing a request lets its caller go; one that could not be sent left nobody waiting. -/
theorem Played.finish (h : Played host s callers) {a : Asked}
    (ha : ∀ w ∈ callersOf a, w ∈ callers) :
    Played host (s.finish a).2 (callers.filter fun w => !(callersOf a).contains w) := by
  cases hticket : a.ticket with
  | error e =>
    have hnone : callersOf a = [] := by
      rw [callersOf, hticket]
      rfl
    have hkeep : (callers.filter fun w => !(callersOf a).contains w) = callers := by
      rw [hnone]
      exact List.filter_eq_self.mpr fun _ _ => rfl
    rw [hkeep]
    unfold Scene.finish
    rw [hticket]
    exact h
  | ok ticket =>
    have hone : callersOf a = [⟨a.id, ticket⟩] := by
      rw [callersOf, hticket]
      rfl
    have hmem : (⟨a.id, ticket⟩ : Caller) ∈ callers := ha _ (hone ▸ List.mem_singleton_self _)
    -- tickets tell callers apart, so the one that leaves is the one that waits
    have hsame : ∀ w ∈ callers, w.ticket = ticket → w = ⟨a.id, ticket⟩ := fun w hw heq =>
      List.inj_on_of_nodup_map h.tickets_nodup hw hmem heq
    have hfirst : (callers.find? fun w => w.ticket = ticket) = some ⟨a.id, ticket⟩ := by
      cases hfind : callers.find? fun w => decide (w.ticket = ticket) with
      | none => simpa using List.find?_eq_none.mp hfind _ hmem
      | some w =>
        have hw := List.mem_of_find?_eq_some hfind
        rw [hsame w hw (by simpa using List.find?_some hfind)]
    have hfilter : (callers.filter fun w => !(callersOf a).contains w) =
        callers.filter fun w => w.ticket ≠ ticket := by
      refine List.filter_congr fun w hw => ?_
      rw [hone]
      by_cases heq : w.ticket = ticket
      · simp [hsame w hw heq]
      · have hne : w ≠ ⟨a.id, ticket⟩ := fun hw' => heq (congrArg Caller.ticket hw')
        simp [heq, hne]
    rw [hfilter]
    refine h.extend [.leave ticket] ?_ (finish_traffic s hticket hfirst)
      ((List.filter_sublist.map _).nodup h.tickets_nodup)
    unfold Scene.finish
    rw [hticket]
    exact h.inStep

/-- Closing the client is one occurrence, and whoever waits is still there. -/
theorem Played.closed (h : Played host s callers) : Played host s.closed callers :=
  h.extend [.close] (inStep_closed s) (close_traffic s callers) h.tickets_nodup

/-! ## Requests together -/

def callersOfAll (asked : List Asked) : List Caller :=
  asked.flatMap callersOf

/-- Requests that are made one after another: each brings its caller, if it is taken. -/
theorem Played.askAll (h : Played host s callers) (errands : List (Errand σ)) :
    Played host (s.askAll errands).2 (callers ++ callersOfAll (s.askAll errands).1) := by
  induction errands generalizing s callers with
  | nil =>
    rw [show callersOfAll (s.askAll []).1 = [] from rfl, List.append_nil]
    exact h
  | cons e rest ih =>
    have hrest := ih (h.ask e)
    rw [List.append_assoc] at hrest
    exact hrest

/-- Of pieces that have nothing in common, taking one away leaves the others. -/
theorem filter_not_contains_append {xs ys zs : List Caller} (h : (xs ++ (ys ++ zs)).Nodup) :
    ((xs ++ (ys ++ zs)).filter fun w => !ys.contains w) = xs ++ zs := by
  obtain ⟨-, hrest, hxs⟩ := List.nodup_append.mp h
  obtain ⟨-, -, hyszs⟩ := List.nodup_append.mp hrest
  -- who stands in front or behind is none of those in the middle
  have hfront : (xs.filter fun w => !ys.contains w) = xs := by
    refine List.filter_eq_self.mpr fun w hw => ?_
    have hnot : w ∉ ys := fun hmem => hxs w hw w (List.mem_append_left _ hmem) rfl
    simpa using hnot
  have hmiddle : (ys.filter fun w => !ys.contains w) = [] := by
    refine List.filter_eq_nil_iff.mpr fun w hw => ?_
    simpa using hw
  have hback : (zs.filter fun w => !ys.contains w) = zs := by
    refine List.filter_eq_self.mpr fun w hw => ?_
    have hnot : w ∉ ys := fun hmem => hyszs w hmem w hw rfl
    simpa using hnot
  rw [List.filter_append, List.filter_append, hfront, hmiddle, hback, List.nil_append]

/-- Finishing requests in turn lets exactly those go who have made them. -/
theorem Played.finishAll {asked : List Asked} (h : Played host s (callers ++ callersOfAll asked)) :
    Played host (s.finishAll asked).2 callers := by
  induction asked generalizing s with
  | nil =>
    rw [show callersOfAll [] = [] from rfl, List.append_nil] at h
    exact h
  | cons a rest ih =>
    rw [show callersOfAll (a :: rest) = callersOf a ++ callersOfAll rest from rfl] at h
    have hnext := h.finish (a := a) fun w hw =>
      List.mem_append_right _ (List.mem_append_left _ hw)
    rw [filter_not_contains_append h.tickets_nodup.of_map] at hnext
    exact ih hnext

/-- Requests that are made together, heard together and finished in turn leave those waiting who
waited before. -/
theorem Played.gather (h : Played host s callers) (errands : List (Errand σ)) :
    Played host (s.gather errands).2 callers :=
  (h.askAll errands).listen.finishAll

theorem Played.gatherAndClose (h : Played host s callers) (errands : List (Errand σ)) :
    Played host (s.gatherAndClose errands).2 callers :=
  (h.askAll errands).listen.closed.finishAll

/-- One round of a play: requests that are made together, and whether the engine is closed when it
has been heard. -/
def playRound (s : Scene σ) (closes : Bool) (errands : List (Errand σ)) : Scene σ :=
  if closes then (s.gatherAndClose errands).2 else (s.gather errands).2

theorem Played.playRound (h : Played host s callers) (closes : Bool) (errands : List (Errand σ)) :
    Played host (s.playRound closes errands) callers := by
  unfold Scene.playRound
  cases closes with
  | true => exact h.gatherAndClose errands
  | false => exact h.gather errands

/-- **A scene is a channel in use.** Whatever is asked in however many rounds, and whatever the engine
prints meanwhile, the channel is as some course of occurrences leaves a fresh one, and nobody waits
at it any more. -/
theorem played_rounds (command : List String) (stage : Stage) (host : σ)
    (rounds : List (Bool × List (Errand σ))) :
    Played host (rounds.foldl (fun s round => s.playRound round.1 round.2)
      (⟨.ofCommand command, stage, host⟩ : Scene σ)) [] := by
  have hfold : ∀ s : Scene σ, Played host s [] →
      Played host (rounds.foldl (fun s round => s.playRound round.1 round.2) s) [] := by
    induction rounds with
    | nil => exact fun s h => h
    | cons round rest ih => exact fun s h => ih _ (h.playRound round.1 round.2)
  exact hfold _ (played_ofCommand command stage host)

end Packwright.Rehearsal.Scene
