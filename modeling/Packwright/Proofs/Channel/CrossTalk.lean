import Packwright.Proofs.Channel.Answer

/-!
# No request hears what is meant for another

* `Orderly.outcome?_step`: one move settles a ticket exactly if it is not settled, somebody waits for
  it, and something is heard about that caller's id.
* `Orderly.outcome?_run`: so what becomes of a request is its `fate`, which looks at no other
  request.
* `separate_after` says it of the requests of a whole course, and of the lines that settle them.
-/

namespace Packwright

namespace Traffic

variable {σ : Type}

theorem outcome?_ask (t : Traffic σ) (e : Errand σ) (taken : Bool) (u : Nat) :
    (t.ask e taken).channel.outcome? u = t.channel.outcome? u := by
  rw [ask_eq]
  cases taken <;> exact registering_outcome? t e u

/-- Making a request hands out one ticket, whether it is taken or not. -/
theorem tickets_ask (t : Traffic σ) (e : Errand σ) (taken : Bool) :
    (t.ask e taken).channel.tickets = t.channel.tickets + 1 := by
  rw [ask_eq]
  cases taken <;> simp [Channel.register, Channel.release]

/-- Making a request starts the engine if none is running, and leaves the loop alone otherwise. -/
theorem hearing_ask (t : Traffic σ) (e : Errand σ) (taken : Bool) :
    (t.ask e taken).channel.hearing =
      if t.channel.hearing = .disconnected then .listening else t.channel.hearing := by
  have hreg : (t.registering e).hearing =
      if t.channel.hearing = .disconnected then .listening else t.channel.hearing := by
    rw [registering, Channel.hearing_chooseId, Channel.hearing_connected]
  rw [ask_eq]
  cases taken <;> exact hreg

theorem outcome?_leave (t : Traffic σ) (ticket u : Nat) :
    (t.leave ticket).channel.outcome? u = t.channel.outcome? u := by
  unfold leave
  split <;> rfl

theorem step_say_of_listening {t : Traffic σ} (h : t.channel.hearing = .listening) (m : Message) :
    t.step (.say m) = t.heed m :=
  if_pos h

theorem step_say_of_not_listening {t : Traffic σ} (h : t.channel.hearing ≠ .listening)
    (m : Message) : t.step (.say m) = t :=
  if_neg h

end Traffic

namespace Desk

variable {σ : Type}

/-- A course that goes on is run from where its first part has led. -/
theorem after_append (host : σ) (course more : List (Move σ)) :
    after host (course ++ more) = (after host course).run more :=
  List.foldl_append

/-! ## What one move can do

A move either has to do with a request to come, and then settles nothing, or is an occurrence. -/

/-- Whether a move draws an id or makes a request. -/
def Move.isRequest : Move σ → Bool
  | .draw | .present _ _ _ | .occur (.ask _ _) => true
  | .occur _ => false

/-- A request says nothing to anybody who waits, lets nobody leave and changes nothing about the
hearing. -/
theorem Move.silent_of_isRequest {m : Move σ} (hm : m.isRequest = true) :
    (∀ h id, m.word? h id = none) ∧ (∀ u, m.leaves u = false) ∧ ∀ h, m.hearing h = h := by
  cases m with
  | draw => exact ⟨fun _ _ => rfl, fun _ => rfl, fun _ => rfl⟩
  | present place e taken => exact ⟨fun _ _ => rfl, fun _ => rfl, fun _ => rfl⟩
  | occur o =>
    cases o with
    | ask e taken => exact ⟨fun _ _ => rfl, fun _ => rfl, fun _ => rfl⟩
    | _ => simp [isRequest] at hm

/-- Of such a move the traffic sees a request, or nothing but the number of ids. -/
theorem step_of_isRequest {m : Move σ} (hm : m.isRequest = true) (d : Desk σ) :
    (∃ n, (d.step m).traffic =
      { d.traffic with channel := { d.traffic.channel with ids := n } }) ∨
    ∃ e taken, (d.step m).traffic = d.traffic.ask e taken := by
  cases m with
  | draw => exact Or.inl ⟨d.traffic.channel.ids + 1, rfl⟩
  | present place e taken =>
    show (∃ n, (d.present place e taken).traffic = _) ∨
      ∃ e' taken', (d.present place e taken).traffic = _
    unfold present
    split
    · exact Or.inl ⟨d.traffic.channel.ids, rfl⟩
    · rename_i id hplace
      exact Or.inr ⟨{ e with id? := some id }, taken, rfl⟩
  | occur o =>
    cases o with
    | ask e taken => exact Or.inr ⟨{ e with id? := none }, taken, rfl⟩
    | _ => simp [Move.isRequest] at hm

/-- Every other move is an occurrence that makes no request, and the traffic takes its step. -/
theorem exists_occur_of_not_isRequest {m : Move σ} (hm : m.isRequest = false) :
    ∃ o, m = .occur o ∧ (∀ e taken, o ≠ .ask e taken) ∧
      ∀ d : Desk σ, (d.step m).traffic = d.traffic.step o := by
  cases m with
  | draw => simp [Move.isRequest] at hm
  | present place e taken => simp [Move.isRequest] at hm
  | occur o =>
    refine ⟨o, rfl, ?_, ?_⟩
    · rintro e taken rfl
      simp [Move.isRequest] at hm
    · cases o with
      | ask e taken => simp [Move.isRequest] at hm
      | _ => exact fun d => rfl

/-! ## What one move settles -/

def waiting? (d : Desk σ) (ticket : Nat) : Option Caller :=
  d.callers.find? fun w => w.ticket = ticket

theorem waiting?_eq_none_iff {d : Desk σ} {u : Nat} :
    d.waiting? u = none ↔ ∀ w ∈ d.callers, w.ticket ≠ u := by
  simp [waiting?]

/-- Who is found waiting for a ticket is one who waits, and for that ticket. -/
theorem mem_of_waiting? {d : Desk σ} {u : Nat} {w : Caller} (h : d.waiting? u = some w) :
    w ∈ d.callers ∧ w.ticket = u :=
  ⟨List.mem_of_find?_eq_some h, by simpa using List.find?_some h⟩

/-- A move that says nothing to anybody fits the equation of a step trivially: this closes its
silent cases. -/
theorem outcome?_of_silent {d : Desk σ} (m : Move σ) (hnone : ∀ id, m.word? d.hearing id = none)
    (u : Nat) :
    d.outcome? u = (d.outcome? u).or ((d.waiting? u).bind fun w => m.word? d.hearing w.id) := by
  simp [hnone]

section

variable {d : Desk σ} (h : Orderly d)

include h

/-- Who waits is found by its ticket, since no two wait for the same one. -/
theorem Orderly.waiting?_ticket {w : Caller} (hw : w ∈ d.callers) :
    d.waiting? w.ticket = some w := by
  cases hwait : d.waiting? w.ticket with
  | none => exact absurd rfl (waiting?_eq_none_iff.mp hwait w hw)
  | some v =>
    obtain ⟨hv, hticket⟩ := mem_of_waiting? hwait
    rw [h.ticket_inj hv hw hticket]

/-- A failure settles the tickets that somebody waits for. -/
theorem Orderly.outcome?_failAll (e : EngineError) (u : Nat) :
    (d.traffic.channel.failAll e).outcome? u =
      (d.outcome? u).or ((d.waiting? u).map fun _ => .error e) := by
  rw [Channel.outcome?_failAll]
  -- a failure reaches what is registered, and that is what somebody waits for
  cases hwait : d.waiting? u with
  | none =>
    have hnobody : ¬ ∃ r ∈ Dictionary.values d.traffic.channel.registered, r.ticket = u := by
      rintro ⟨r, hr, hticket⟩
      obtain ⟨p, hp, rfl⟩ := List.mem_map.mp hr
      have hmem : callerOf p ∈ d.callers := by
        rw [h.callers_eq]
        exact List.mem_map_of_mem hp
      exact waiting?_eq_none_iff.mp hwait _ hmem hticket
    rw [if_neg fun hboth => hnobody hboth.2, Option.map_none, Option.or_none]
    rfl
  | some w =>
    obtain ⟨hw, rfl⟩ := mem_of_waiting? hwait
    obtain ⟨r, hr, hticket⟩ := h.get?_of_mem hw
    have hmem : r ∈ Dictionary.values d.traffic.channel.registered :=
      List.mem_map_of_mem (f := Prod.snd) (Dictionary.mem_of_get?_eq_some hr)
    cases hn : d.outcome? w.ticket with
    | none => exact if_pos ⟨hn, r, hmem, hticket⟩
    | some x =>
      rw [if_neg fun hboth => Option.some_ne_none x (hn.symm.trans hboth.1)]
      exact hn

/-- An answer settles the ticket of the caller that has its id. -/
theorem Orderly.outcome?_complete (id : String) (outcome : Except EngineError Value) (u : Nat) :
    (d.traffic.channel.complete id outcome).outcome? u =
      (d.outcome? u).or ((d.waiting? u).bind fun w => if id = w.id then some outcome else none) := by
  unfold Channel.complete
  cases hr : d.traffic.channel.registered.get? id with
  | none =>
    -- nobody has the id
    have hnone : ((d.waiting? u).bind fun w => if id = w.id then some outcome else none) = none := by
      refine Option.bind_eq_none_iff.mpr fun w hwait => if_neg fun hid => ?_
      obtain ⟨r, hget, -⟩ := h.get?_of_mem (mem_of_waiting? hwait).1
      rw [← hid, hr] at hget
      cases hget
    rw [hnone, Option.or_none]
    rfl
  | some r =>
    have hmem := h.mem_of_get? hr
    have hwait : d.waiting? r.ticket = some ⟨id, r.ticket⟩ := h.waiting?_ticket hmem
    dsimp only
    rw [Channel.outcome?_settle]
    change (if u = r.ticket ∧ d.outcome? r.ticket = none then _ else d.outcome? u) = _
    by_cases hu : u = r.ticket
    · subst hu
      rw [hwait]
      cases d.outcome? r.ticket <;> simp
    · -- who waits for another ticket has another id
      have hnone : ((d.waiting? u).bind fun w => if id = w.id then some outcome else none) =
          none := by
        refine Option.bind_eq_none_iff.mpr fun w hwait' => if_neg fun hid => hu ?_
        obtain ⟨hw, hticket⟩ := mem_of_waiting? hwait'
        exact hticket.symm.trans (congrArg Caller.ticket (h.id_inj hw hmem hid.symm))
      rw [hnone, Option.or_none, if_neg fun hboth => hu hboth.1]

/-- **Failing everybody who waits** is a move that says the same error to all ids. -/
theorem Orderly.outcome?_failAll_of_word? (m : Move σ) {e : EngineError}
    (hall : ∀ id, m.word? d.hearing id = some (.error e)) (u : Nat) :
    (d.traffic.channel.failAll e).outcome? u =
      (d.outcome? u).or ((d.waiting? u).bind fun w => m.word? d.hearing w.id) := by
  rw [h.outcome?_failAll]
  simp only [hall]
  cases d.waiting? u <;> rfl

/-- **A message that is heard** settles what it says, and that is a word to one id at most. -/
theorem Orderly.outcome?_heed (hl : d.hearing = .listening) (said : Message) (u : Nat) :
    (d.traffic.heed said).channel.outcome? u =
      (d.outcome? u).or ((d.waiting? u).bind fun w =>
        (Move.occur (.say said) : Move σ).word? d.hearing w.id) := by
  cases said with
  | call call => exact outcome?_of_silent (.occur (.say (.call call))) (fun _ => rfl) u
  | nothing => exact outcome?_of_silent (.occur (.say .nothing)) (fun _ => rfl) u
  | unreadable => exact outcome?_of_silent (.occur (.say .unreadable)) (fun _ => rfl) u
  | garbled => exact h.outcome?_failAll_of_word? (.occur (.say .garbled)) (fun _ => if_pos hl) u
  | answer id outcome =>
    simp only [Move.word?, Occurrence.word?, hl, true_and]
    exact h.outcome?_complete id outcome u

/-- **What one move settles.** A ticket that is settled stays as it is. Any other is settled by what
is heard about the id of the caller that waits for it. -/
theorem Orderly.outcome?_step (m : Move σ) (u : Nat) :
    (d.step m).outcome? u =
      (d.outcome? u).or ((d.waiting? u).bind fun w => m.word? d.hearing w.id) := by
  cases hm : m.isRequest with
  | true =>
    rw [← outcome?_of_silent m ((Move.silent_of_isRequest hm).1 _)]
    rcases step_of_isRequest hm d with ⟨n, hstep⟩ | ⟨e, taken, hstep⟩
    · rw [outcome?, hstep]
      rfl
    · rw [outcome?, hstep]
      exact Traffic.outcome?_ask _ _ _ _
  | false =>
    obtain ⟨o, rfl, hnask, hstep⟩ := exists_occur_of_not_isRequest hm
    rw [outcome?, hstep]
    cases o with
    | ask e taken => exact absurd rfl (hnask e taken)
    | leave ticket =>
      have hsame := Traffic.outcome?_leave d.traffic ticket u
      exact hsame.trans (outcome?_of_silent (.occur (.leave ticket)) (fun _ => rfl) u)
    | close => exact h.outcome?_failAll_of_word? (.occur .close) (fun _ => rfl) u
    -- a channel that does not listen hears neither of the other three
    | replyLost =>
      simp only [Traffic.step]
      split
      · rename_i hl
        exact h.outcome?_failAll_of_word? (.occur .replyLost) (fun _ => if_pos hl) u
      · rename_i hl
        exact outcome?_of_silent (.occur .replyLost) (fun _ => if_neg hl) u
    | outputEnds =>
      simp only [Traffic.step]
      split
      · rename_i hl
        exact h.outcome?_failAll_of_word? (.occur .outputEnds) (fun _ => if_pos hl) u
      · rename_i hl
        exact outcome?_of_silent (.occur .outputEnds) (fun _ => if_neg hl) u
    | say said =>
      simp only [Traffic.step]
      split
      · rename_i hl
        exact h.outcome?_heed hl said u
      · rename_i hl
        have hdeaf : d.hearing ≠ .listening := hl
        refine outcome?_of_silent (.occur (.say said)) (fun id => ?_) u
        cases said <;> simp [Move.word?, Occurrence.word?, hdeaf]

/-- What has been settled stays settled in the same way, whatever happens later. Induction over the
course. -/
theorem Orderly.outcome?_run_of_some {u : Nat} {x : Except EngineError Value}
    (hx : d.outcome? u = some x) (course : List (Move σ)) : (d.run course).outcome? u = some x := by
  induction course generalizing d with
  | nil => exact hx
  | cons m rest ih =>
    refine ih (h.step m) ?_
    rw [h.outcome?_step, hx, Option.some_or]

end

/-! ## Who comes and goes -/

/-- What a move does to those who wait: one comes, with a new ticket, or nobody does, and then nobody
goes but who leaves. -/
theorem callers_step_cases (d : Desk σ) (m : Move σ) :
    (∃ e, (d.step m).traffic = d.traffic.ask e true) ∨
      (d.step m).callers.Sublist d.callers ∧
        d.traffic.channel.tickets ≤ (d.step m).traffic.channel.tickets ∧
        ∀ w ∈ d.callers, m.leaves w.ticket = false → w ∈ (d.step m).callers := by
  unfold callers
  cases hm : m.isRequest with
  | true =>
    rcases step_of_isRequest hm d with ⟨n, hstep⟩ | ⟨e, taken, hstep⟩
    · rw [hstep]
      exact Or.inr ⟨List.Sublist.refl _, Nat.le_refl _, fun w hw _ => hw⟩
    · rw [hstep]
      cases taken with
      | true => exact Or.inl ⟨e, rfl⟩
      | false =>
        rw [Traffic.callers_ask_false, Traffic.tickets_ask]
        exact Or.inr ⟨List.Sublist.refl _, Nat.le_succ _, fun w hw _ => hw⟩
  | false =>
    obtain ⟨o, rfl, hnask, hstep⟩ := exists_occur_of_not_isRequest hm
    rw [hstep]
    refine Or.inr ?_
    -- of what else can happen, only a leave concerns those who wait
    by_cases hleave : ∃ ticket, o = .leave ticket
    · obtain ⟨ticket, rfl⟩ := hleave
      simp only [Traffic.step, Traffic.leave]
      split
      · exact ⟨List.Sublist.refl _, Nat.le_refl _, fun w hw _ => hw⟩
      · refine ⟨List.filter_sublist, Nat.le_refl _, fun w hw hl => ?_⟩
        have hne : w.ticket ≠ ticket := fun heq => by simp [Move.leaves, heq] at hl
        exact List.mem_filter.mpr ⟨hw, by simpa using hne⟩
    · have hkeeps := Traffic.keeps_step (t := d.traffic) hnask fun u heq => hleave ⟨u, heq⟩
      rw [hkeeps.callers, hkeeps.tickets]
      exact ⟨List.Sublist.refl _, Nat.le_refl _, fun w hw _ => hw⟩

/-- Nobody but the caller itself makes it leave. -/
theorem mem_callers_step {d : Desk σ} {w : Caller} (hw : w ∈ d.callers) {m : Move σ}
    (hl : m.leaves w.ticket = false) : w ∈ (d.step m).callers := by
  rcases callers_step_cases d m with ⟨e, hstep⟩ | ⟨-, -, hstay⟩
  · rw [callers, hstep, Traffic.callers_ask_true]
    exact List.mem_append_left _ hw
  · exact hstay w hw hl

/-- Only one move lets somebody leave. -/
theorem Move.eq_leave_of_leaves {u : Nat} {m : Move σ} (hl : m.leaves u = true) :
    m = .occur (.leave u) := by
  unfold leaves at hl
  split at hl
  · rw [eq_of_beq hl]
  · cases hl

/-- Tickets are only ever handed out. -/
theorem tickets_le_step (d : Desk σ) (m : Move σ) :
    d.traffic.channel.tickets ≤ (d.step m).traffic.channel.tickets := by
  rcases callers_step_cases d m with ⟨e, hstep⟩ | ⟨-, hle, -⟩
  · rw [hstep, Traffic.tickets_ask]
    exact Nat.le_succ _
  · exact hle

/-- Who has left does not wait any more. -/
theorem not_mem_callers_of_leaves {d : Desk σ} {u : Nat} {m : Move σ} (hl : m.leaves u = true) :
    ∀ w ∈ (d.step m).callers, w.ticket ≠ u := by
  obtain rfl := Move.eq_leave_of_leaves hl
  show ∀ w ∈ (d.traffic.leave u).callers, w.ticket ≠ u
  unfold Traffic.leave
  split
  · rename_i hfind
    simpa using hfind
  · intro w hw
    simpa using (List.mem_filter.mp hw).2

/-- **A message that says nothing to an open request** ends the hearing only if it is unreadable. -/
theorem hearing_heed {t : Traffic σ} (hl : t.channel.hearing = .listening) {said : Message}
    {id : String} (hword : Move.word? t.channel.hearing id (.occur (.say said) : Move σ) = none) :
    (t.heed said).channel.hearing = Move.hearing t.channel.hearing (.occur (.say said) : Move σ) := by
  cases said with
  | call call => rfl
  | nothing => rfl
  -- a garbled line says its error to everybody, so it does not come up here
  | garbled => simp [Move.word?, Occurrence.word?, hl] at hword
  | unreadable => exact (if_pos hl).symm
  | answer name outcome =>
    show (t.channel.complete name outcome).hearing = t.channel.hearing
    unfold Channel.complete
    split
    · rfl
    · exact Channel.hearing_settle _ _ _

/-- As long as nothing is heard about a request, a channel with an engine keeps it. -/
theorem hearing_step {d : Desk σ} {m : Move σ} {id : String} (hd : d.hearing ≠ .disconnected)
    (hword : m.word? d.hearing id = none) :
    (d.step m).hearing = m.hearing d.hearing := by
  cases hm : m.isRequest with
  | true =>
    rw [(Move.silent_of_isRequest hm).2.2]
    rcases step_of_isRequest hm d with ⟨n, hstep⟩ | ⟨e, taken, hstep⟩
    · rw [hearing, hstep]
      rfl
    · rw [hearing, hstep, Traffic.hearing_ask]
      exact if_neg hd
  | false =>
    obtain ⟨o, rfl, hnask, hstep⟩ := exists_occur_of_not_isRequest hm
    rw [hearing, hstep]
    cases o with
    | ask e taken => exact absurd rfl (hnask e taken)
    | close => cases hword
    | leave ticket =>
      simp only [Traffic.step, Traffic.leave]
      split <;> rfl
    -- if the channel listened, these two would be heard about any id
    | replyLost | outputEnds =>
      have hl : d.traffic.channel.hearing ≠ .listening := fun hl => by
        simp [Move.word?, Occurrence.word?, hearing, hl] at hword
      rw [Traffic.step, if_neg hl]
      rfl
    | say said =>
      by_cases hl : d.hearing = .listening
      · rw [Traffic.step_say_of_listening hl]
        exact hearing_heed hl hword
      · rw [Traffic.step_say_of_not_listening hl]
        cases said with
        | unreadable => exact (if_neg hl).symm
        | _ => rfl

/-- As long as nothing has failed, a channel with an engine goes on having one. -/
theorem Move.hearing_ne_disconnected {h : Hearing} (hh : h ≠ .disconnected) (m : Move σ) :
    m.hearing h ≠ .disconnected := by
  unfold hearing
  split
  · split
    · simp
    · exact hh
  · exact hh

/-! ## What becomes of a request -/

/-- Nobody comes back: a ticket that has been given out and that nobody waits for is not settled
any more. -/
theorem Orderly.outcome?_run_of_gone {d : Desk σ} (h : Orderly d) {u : Nat}
    (hn : d.outcome? u = none) (hgone : ∀ w ∈ d.callers, w.ticket ≠ u)
    (hlt : u < d.traffic.channel.tickets) (course : List (Move σ)) :
    (d.run course).outcome? u = none := by
  induction course generalizing d with
  | nil => exact hn
  | cons m rest ih =>
    have hn' : (d.step m).outcome? u = none := by
      rw [h.outcome?_step, hn, waiting?_eq_none_iff.mpr hgone]
      rfl
    -- who comes in has a later ticket, and otherwise nobody comes in
    rcases callers_step_cases d m with ⟨e, hstep⟩ | ⟨hsub, hle, -⟩
    · refine ih (h.step m) hn' (fun w hw => ?_) ?_
      · rw [callers, hstep, Traffic.callers_ask_true] at hw
        rcases List.mem_append.mp hw with hold | hnew
        · exact hgone w hold
        · rw [List.mem_singleton.mp hnew]
          exact Nat.ne_of_gt hlt
      · rw [hstep, Traffic.tickets_ask]
        exact Nat.lt_succ_of_lt hlt
    · exact ih (h.step m) hn' (fun w hw => hgone w (hsub.subset hw)) (Nat.lt_of_lt_of_le hlt hle)

/-- **What becomes of an open request is its fate.** Induction over the course: each move settles it,
or makes its caller leave, or leaves it open. -/
theorem Orderly.outcome?_run {d : Desk σ} (h : Orderly d) {w : Caller} (hw : w ∈ d.callers)
    (hn : d.outcome? w.ticket = none) (hd : d.hearing ≠ .disconnected) (course : List (Move σ)) :
    (d.run course).outcome? w.ticket = fate w d.hearing course := by
  induction course generalizing d with
  | nil => exact hn
  | cons m rest ih =>
    have hstep : (d.step m).outcome? w.ticket = m.word? d.hearing w.id := by
      rw [h.outcome?_step, hn, h.waiting?_ticket hw]
      rfl
    show ((d.step m).run rest).outcome? w.ticket = _
    rw [fate]
    cases hl : m.leaves w.ticket with
    | true =>
      -- the caller leaves, and nobody will wait for its ticket again
      have hnone : (d.step m).outcome? w.ticket = none := by
        obtain rfl := Move.eq_leave_of_leaves hl
        exact hstep
      have hlt : w.ticket < (d.step m).traffic.channel.tickets :=
        Nat.lt_of_lt_of_le (h.sound.callers_lt w hw) (tickets_le_step d m)
      rw [if_pos rfl]
      exact (h.step m).outcome?_run_of_gone hnone (not_mem_callers_of_leaves hl) hlt rest
    | false =>
      rw [if_neg (by simp)]
      cases hword : m.word? d.hearing w.id with
      | some x => exact (h.step m).outcome?_run_of_some (hstep.trans hword) rest
      | none =>
        have hhear := hearing_step hd hword
        have hd' : (d.step m).hearing ≠ .disconnected := by
          rw [hhear]
          exact Move.hearing_ne_disconnected hd m
        rw [ih (h.step m) (mem_callers_step hw hl) (hstep.trans hword) hd', hhear]

/-! ## Requests of a course -/

/-- A move that opens the request of a caller makes a request that is taken. -/
theorem exists_ask_of_opens {host : σ} {before : List (Move σ)} {m : Move σ} {w : Caller}
    (h : Opens host before m w) :
    ∃ e, (after host (before ++ [m])).traffic = (after host before).traffic.ask e true ∧
      w.ticket = (after host before).traffic.channel.tickets := by
  unfold Opens at h
  rw [after_append] at h ⊢
  rcases callers_step_cases (after host before) m with ⟨e, hstep⟩ | ⟨hsub, -⟩
  · refine ⟨e, hstep, ?_⟩
    have hcallers : ((after host before).step m).callers = (after host before).callers ++
        [⟨(after host before).traffic.idFor e, (after host before).traffic.channel.tickets⟩] := by
      rw [callers, hstep]
      exact Traffic.callers_ask_true _ e
    have hw := List.append_cancel_left (h.symm.trans hcallers)
    rw [List.singleton_inj.mp hw]
  · -- without a request nobody comes in, but one has
    have hlen := hsub.length_le
    have hlen' := congrArg List.length h
    simp only [run, List.foldl_cons, List.foldl_nil, List.length_append, List.length_singleton]
      at hlen'
    omega

/-- **Everybody who waits has been let in by some move of the course.** Induction from the end: the
last move let them in, or they were waiting before it. -/
theorem exists_opens {host : σ} {course : List (Move σ)} {w : Caller}
    (hw : w ∈ (after host course).callers) :
    ∃ before m between, course = before ++ m :: between ∧ Opens host before m w := by
  induction course using List.reverseRecOn with
  | nil => exact absurd hw (by simp [after, run, idle, callers, Traffic.idle])
  | append_singleton init m ih =>
    have hold : w ∈ (after host init).callers →
        ∃ before m' between, init ++ [m] = before ++ m' :: between ∧ Opens host before m' w := by
      intro hmem
      obtain ⟨before, m', between, rfl, hopens⟩ := ih hmem
      exact ⟨before, m', between ++ [m], by simp, hopens⟩
    have hstep : after host (init ++ [m]) = (after host init).step m := after_append host init [m]
    -- the last move is a request that is taken, or lets nobody in
    rcases callers_step_cases (after host init) m with ⟨e, hask⟩ | ⟨hsub, -⟩
    · have hcallers : (after host (init ++ [m])).callers = (after host init).callers ++
          [⟨(after host init).traffic.idFor e, (after host init).traffic.channel.tickets⟩] := by
        rw [hstep, callers, hask]
        exact Traffic.callers_ask_true _ e
      rw [hcallers] at hw
      rcases List.mem_append.mp hw with hmem | hnew
      · exact hold hmem
      · refine ⟨init, m, [], rfl, ?_⟩
        rw [Opens, hcallers, List.mem_singleton.mp hnew]
    · rw [hstep] at hw
      exact hold (hsub.subset hw)

/-- **What becomes of a request is its fate from when it was made on**, whatever came before. -/
theorem outcome?_of_opens {host : σ} {before : List (Move σ)} {m : Move σ} {w : Caller}
    (h : Opens host before m w) (rest : List (Move σ)) :
    (after host (before ++ m :: rest)).outcome? w.ticket =
      fate w (after host (before ++ [m])).hearing rest := by
  obtain ⟨e, hask, hticket⟩ := exists_ask_of_opens h
  have hb := orderly_after host before
  have hw : w ∈ (after host (before ++ [m])).callers := by
    rw [h]
    exact List.mem_append_right _ (List.mem_singleton_self w)
  have hn : (after host (before ++ [m])).outcome? w.ticket = none := by
    rw [outcome?, hask, Traffic.outcome?_ask]
    exact hb.sound.unsettled _ (Nat.le_of_eq hticket.symm)
  have hd : (after host (before ++ [m])).hearing ≠ .disconnected := by
    rw [hearing, hask, Traffic.hearing_ask]
    split
    · simp
    · assumption
  rw [show before ++ m :: rest = (before ++ [m]) ++ rest by simp, after_append]
  exact (orderly_after host (before ++ [m])).outcome?_run hw hn hd rest

/-- A message says something only to a loop that listens. -/
theorem listening_of_word? {h : Hearing} {id : String} {said : Message}
    {x : Except EngineError Value} (hx : (Occurrence.say said : Occurrence σ).word? h id = some x) :
    h = .listening := by
  cases said <;> simp_all [Occurrence.word?]

/-- A message that is no garbled line says something to an id only by being the answer for it. -/
theorem eq_answer_of_word? {h : Hearing} {id : String} {said : Message}
    {x : Except EngineError Value} (hvalid : said ≠ .garbled)
    (hx : (Occurrence.say said : Occurrence σ).word? h id = some x) : said = .answer id x := by
  cases said with
  | answer name outcome =>
    obtain ⟨⟨-, rfl⟩, rfl⟩ : (h = .listening ∧ name = id) ∧ outcome = x := by
      simpa [Occurrence.word?] using hx
    rfl
  | garbled => exact absurd rfl hvalid
  | _ => simp [Occurrence.word?] at hx

/-- The loop never begins to listen again by itself. -/
theorem Move.listening_of_hearing {h : Hearing} {m : Move σ} (hm : m.hearing h = .listening) :
    h = .listening := by
  unfold hearing at hm
  split at hm
  · split at hm
    · cases hm
    · exact hm
  · exact hm

/-- If what the engine says decides a fate, the channel has been listening all the time, and no
answer with the id has come before. -/
theorem not_mem_of_fate {w : Caller} {h : Hearing} {between : List (Move σ)} {said : Message}
    {x : Except EngineError Value} (hn : fate w h between = none)
    (hx : fate w h (between ++ [.occur (.say said)]) = some x) :
    h = .listening ∧ ∀ o, Move.occur (.say (.answer w.id o)) ∉ between := by
  induction between generalizing h with
  | nil =>
    refine ⟨?_, by simp⟩
    rw [List.nil_append, fate, if_neg (by simp [Move.leaves])] at hx
    cases hword : Move.word? h w.id (.occur (.say said)) with
    | none =>
      rw [hword] at hx
      cases hx
    | some y => exact listening_of_word? hword
  | cons m rest ih =>
    rw [List.cons_append, fate] at hx
    rw [fate] at hn
    cases hl : m.leaves w.ticket with
    | true => simp [hl] at hx
    | false =>
      rw [if_neg (by simp [hl])] at hn hx
      cases hword : m.word? h w.id with
      | some y => simp [hword] at hn
      | none =>
        rw [hword] at hn hx
        obtain ⟨hlisten, hrest⟩ := ih hn hx
        have hh := Move.listening_of_hearing hlisten
        refine ⟨hh, fun o hmem => ?_⟩
        rcases List.mem_cons.mp hmem with rfl | hmem
        · -- such an answer would have been heard
          simp [Move.word?, Occurrence.word?, hh] at hword
        · exact hrest o hmem

/-! ## The requests of a course -/

/-- What it is for the requests of a course not to get in each other's way. -/
structure Separate (host : σ) (course : List (Move σ)) : Prop where
  /-- Open requests have different ids. -/
  ids_nodup : ((after host course).callers.map Caller.id).Nodup
  /-- A ticket is settled once. -/
  settled_once : ∀ ticket outcome, (after host course).outcome? ticket = some outcome →
    ∀ more, (after host (course ++ more)).outcome? ticket = some outcome
  /-- What becomes of a request depends on what is heard about its id since it was made, and on
  nothing else. -/
  outcome_eq : ∀ before m rest w, course = before ++ m :: rest → Opens host before m w →
    (after host course).outcome? w.ticket = fate w (after host (before ++ [m])).hearing rest
  /-- A document that settles a ticket ends the request that holds it, with that outcome, and is the
  first to do so since the request was made. -/
  first_word : ∀ before line rest ticket outcome, course = before ++ .line line :: rest →
    Message.ofLine line ≠ .garbled → (after host before).outcome? ticket = none →
    (after host (before ++ [.line line])).outcome? ticket = some outcome →
    ∃ early m w between, before = early ++ m :: between ∧ Opens host early m w ∧
      w.ticket = ticket ∧ Message.Ends line w.id outcome ∧
      ∀ other, .line other ∈ between → ∀ o, ¬ Message.Ends other w.id o
  /-- A document that ends no open request changes none. -/
  unmoved : ∀ line, Message.ofLine line ≠ .garbled →
    (∀ w ∈ (after host course).callers, ∀ o, ¬ Message.Ends line w.id o) →
    (after host (course ++ [.line line])).callers = (after host course).callers ∧
      (after host (course ++ [.line line])).traffic.channel.registered =
        (after host course).traffic.channel.registered ∧
      ∀ ticket, (after host (course ++ [.line line])).outcome? ticket =
        (after host course).outcome? ticket

/-- Everybody waits under an id that is the text of a number. -/
theorem exists_eq_idText {host : σ} {course : List (Move σ)} {w : Caller}
    (hw : w ∈ (after host course).callers) : ∃ n, w.id = Channel.idText n := by
  obtain ⟨n, -, heq⟩ := (orderly_after host course).numbered w.id
    (List.mem_append_right _ (List.mem_map_of_mem hw))
  exact ⟨n, heq⟩

/-- A document that settles a ticket is an answer to the caller that waits for it. -/
theorem ends_of_settled {host : σ} {course : List (Move σ)} {line : List Char} {u : Nat}
    {x : Except EngineError Value} (hvalid : Message.ofLine line ≠ .garbled)
    (hn : (after host course).outcome? u = none)
    (hx : (after host (course ++ [.line line])).outcome? u = some x) :
    ∃ w ∈ (after host course).callers, w.ticket = u ∧ Message.Ends line w.id x := by
  have hd := orderly_after host course
  rw [after_append] at hx
  change ((after host course).step (.line line)).outcome? u = some x at hx
  rw [hd.outcome?_step, hn, Option.none_or] at hx
  obtain ⟨w, hwait, hword⟩ := Option.bind_eq_some_iff.mp hx
  obtain ⟨hw, hticket⟩ := mem_of_waiting? hwait
  refine ⟨w, hw, hticket, ?_⟩
  -- an id is the text of a number, so the line can only mean it as it stands there
  obtain ⟨n, hid⟩ := exists_eq_idText hw
  rw [hid] at hword ⊢
  exact Message.ofLine_eq_answer_iff.mp (eq_answer_of_word? hvalid hword)

/-- **No request hears what is meant for another**, in any course of moves. -/
theorem separate_after (host : σ) (course : List (Move σ)) : Separate host course where
  ids_nodup := (List.nodup_append.mp (orderly_after host course).ids_nodup).2.1
  settled_once ticket outcome hx more := by
    rw [after_append]
    exact (orderly_after host course).outcome?_run_of_some hx more
  outcome_eq before m rest w hcourse hopens := by
    rw [hcourse]
    exact outcome?_of_opens hopens rest
  first_word before line rest ticket outcome _ hvalid hn hx := by
    obtain ⟨w, hw, rfl, hends⟩ := ends_of_settled hvalid hn hx
    obtain ⟨early, m, between, rfl, hopens⟩ := exists_opens hw
    refine ⟨early, m, w, between, rfl, hopens, rfl, hends, fun other hother o hends' => ?_⟩
    obtain ⟨n, hid⟩ := exists_eq_idText hw
    rw [outcome?_of_opens hopens] at hn
    rw [List.append_assoc, List.cons_append, outcome?_of_opens hopens] at hx
    -- an earlier word on the id would have settled the request
    have hanswer : Message.ofLine other = .answer w.id o := by
      rw [hid] at hends' ⊢
      exact Message.ofLine_eq_answer_iff.mpr hends'
    refine (not_mem_of_fate hn hx).2 o ?_
    rw [← hanswer]
    exact hother
  unmoved line hvalid hnone := by
    have hstep : (after host (course ++ [.line line])).traffic =
        (after host course).traffic.step (.say (.ofLine line)) := by
      rw [after_append]
      rfl
    have hkeeps := Traffic.keeps_step (t := (after host course).traffic)
      (o := .say (.ofLine line)) (by simp) (by simp)
    refine ⟨?_, ?_, fun ticket => ?_⟩
    · rw [callers, hstep]
      exact hkeeps.callers
    · rw [hstep]
      exact hkeeps.registered
    · cases hn : (after host course).outcome? ticket with
      | some x =>
        rw [after_append]
        exact (orderly_after host course).outcome?_run_of_some hn [.line line]
      | none =>
        cases hx : (after host (course ++ [.line line])).outcome? ticket with
        | none => rfl
        | some x =>
          obtain ⟨w, hw, -, hends⟩ := ends_of_settled hvalid hn hx
          exact absurd hends (hnone w hw x)

end Desk

end Packwright
