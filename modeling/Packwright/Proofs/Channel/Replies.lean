import Packwright.Channel.Replies
import Packwright.Proofs.Channel.CrossTalk
import Packwright.Proofs.Json.Faults
import Packwright.Proofs.Json.Writing

/-!
# Every call is replied to

* `openUnder_iff`: the channel has registered what is open by what has happened, and nothing else.
* `answers_iff`: the reply that the channel finds is the one that the call has to have.
* `repliesToCalls_of_listening` says it of a whole course in which the channel goes on listening.
  Calls are replied to in turn, and they make no difference to the channel.
* A line that holds an integer of too many digits is not understood as a call, whatever it calls
  (`ofLine_swollenLine`), and then nobody is replied to any more.
-/

namespace Packwright

-- powers are those of the core library, whatever other instances are in scope
attribute [local instance (high)] instPowNat

/-! ## Lines that call something -/

namespace Message

/-- The fields of a table are read as a call exactly if they describe it: they name a callback, and
the other fields are taken as they come. -/
theorem ofFields_eq_call_iff {fields : Value.Fields} {c : Call} :
    ofFields fields = .call c ↔ Describes fields c := by
  -- parameters that are missing are an empty table
  have hparams : paramsOf (fields.get? "params") =
      ((fields.get? "params").getD (.table [])).fields? := by
    cases hget : fields.get? "params" with
    | none => rfl
    | some v => cases v <;> rfl
  unfold ofFields
  constructor
  · intro h
    split at h
    · rename_i name hname
      cases h
      exact ⟨hname, rfl, rfl, hparams⟩
    · cases h
  · rintro ⟨hname, hid, hrequest, hcall⟩
    rw [hname, hparams, ← hcall]
    unfold idOf
    rw [← hid, ← hrequest]

/-- **A line is read as a call exactly if it calls**: it holds a table whose fields describe the
call. -/
theorem ofLine_eq_call_iff {line : List Char} {c : Call} :
    ofLine line = .call c ↔ Calls line c := by
  constructor
  · intro h
    rcases ofLine_cases line with hmessage | hmessage | hmessage | ⟨fields, hholds, hmessage⟩ <;>
      rw [hmessage] at h
    iterate 3 cases h
    exact ⟨fields, hholds, ofFields_eq_call_iff.mp h⟩
  · rintro ⟨fields, hholds, hcall⟩
    rw [ofLine_of_holds hholds]
    exact ofFields_eq_call_iff.mpr hcall

end Message

namespace Traffic

variable {σ : Type}

theorem after_concat (host : σ) (before : List (Occurrence σ)) (o : Occurrence σ) :
    after host (before ++ [o]) = (after host before).step o :=
  after_append host before [o]

/-! ## What is registered -/

/-- What is lent after a request: its own handlers go under its id, or they are taken back at once. -/
theorem registered_ask (t : Traffic σ) (e : Errand σ) (taken : Bool) :
    (t.ask e taken).channel.registered =
      if taken then t.channel.registered.put (t.idFor e) ⟨t.channel.tickets, e.handlers⟩
      else (t.channel.registered.put (t.idFor e) ⟨t.channel.tickets, e.handlers⟩).erase
        (t.idFor e) := by
  rw [ask_eq]
  cases taken <;> simp [Channel.register, Channel.release]

/-- A request that is made decides what is lent under its own id, and touches no other one. -/
theorem get?_registered_ask (t : Traffic σ) (e : Errand σ) (taken : Bool) (id : String) :
    (t.ask e taken).channel.registered.get? id =
      if t.idFor e = id then (if taken then some ⟨t.channel.tickets, e.handlers⟩ else none)
      else t.channel.registered.get? id := by
  rw [registered_ask]
  by_cases hid : t.idFor e = id
  · rw [if_pos hid, ← hid]
    cases taken with
    | true => exact Dictionary.get?_put_self _ _ _
    | false => exact Dictionary.get?_erase_self _ _
  · rw [if_neg hid]
    have hold := Dictionary.get?_put_of_ne t.channel.registered
      (⟨t.channel.tickets, e.handlers⟩ : OpenRequest σ) (Ne.symm hid)
    cases taken with
    | true => exact hold
    | false => exact (Dictionary.get?_erase_of_ne _ (Ne.symm hid)).trans hold

/-- What is registered under an id stays, unless the id is given up. -/
theorem get?_registered_of_not_givesUp {t : Traffic σ} {id : String} {o : Occurrence σ}
    (ho : ¬ t.GivesUp id o) :
    (t.step o).channel.registered.get? id = t.channel.registered.get? id := by
  cases o with
  | ask e taken => exact (get?_registered_ask t e taken id).trans (if_neg ho)
  | leave ticket =>
    show (t.leave ticket).channel.registered.get? id = _
    unfold leave
    split
    · rfl
    · rename_i w hw
      -- who leaves gives up its own id only
      have hne : id ≠ w.id := fun heq => ho ⟨w, hw, heq.symm⟩
      exact Dictionary.get?_erase_of_ne _ hne
  | say m => rw [(keeps_step (o := .say m) (by simp) (by simp)).registered]
  | replyLost => rw [(keeps_step (o := .replyLost) (by simp) (by simp)).registered]
  | outputEnds => rw [(keeps_step (o := .outputEnds) (by simp) (by simp)).registered]
  | close => rw [(keeps_step (o := .close) (by simp) (by simp)).registered]

/-- Where an id is given up, only a request that is made then can be registered under it. -/
theorem ask_of_givesUp {t : Traffic σ} {id : String} {o : Occurrence σ} (ho : t.GivesUp id o)
    {r : OpenRequest σ} (hr : (t.step o).channel.registered.get? id = some r) :
    ∃ e, o = .ask e true ∧ t.idFor e = id ∧ r.handlers = e.handlers := by
  cases o with
  | ask e taken =>
    have hid : t.idFor e = id := ho
    have hask := get?_registered_ask t e taken id
    rw [if_pos hid] at hask
    have hsome := hask.symm.trans hr
    cases taken with
    | true =>
      cases hsome
      exact ⟨e, rfl, hid, rfl⟩
    | false => cases hsome
  | leave ticket =>
    obtain ⟨w, hw, rfl⟩ := ho
    have hleave : t.step (.leave ticket) = { t with
        channel := t.channel.release w.id
        callers := t.callers.filter fun w => w.ticket ≠ ticket } := by
      show t.leave ticket = _
      unfold leave
      rw [hw]
    rw [hleave] at hr
    -- what is released is registered no more
    exact absurd ((Dictionary.get?_erase_self _ _).symm.trans hr) (by simp)
  | _ => exact ho.elim

/-- **What is open is what is registered.** -/
theorem openUnder_iff {host : σ} {before : List (Occurrence σ)} {id : String} {lent : Handlers σ} :
    OpenUnder host before id lent ↔
      ∃ r, (after host before).channel.registered.get? id = some r ∧ r.handlers = lent := by
  constructor
  · intro h
    induction h with
    | @asked before e =>
      refine ⟨⟨(after host before).channel.tickets, e.handlers⟩, ?_, rfl⟩
      rw [after_concat]
      exact (get?_registered_ask _ e true _).trans (if_pos rfl)
    | kept h ho ih =>
      rw [after_concat, get?_registered_of_not_givesUp ho]
      exact ih
  · -- from the last occurrence back to the one where the request was made
    induction before using List.reverseRecOn with
    | nil =>
      rintro ⟨r, hr, -⟩
      exact absurd hr (by simp [after, run, idle, Channel.idle, Dictionary.get?])
    | append_singleton init o ih =>
      rintro ⟨r, hr, hlent⟩
      rw [after_concat] at hr
      by_cases ho : (after host init).GivesUp id o
      · obtain ⟨e, rfl, rfl, hhandlers⟩ := ask_of_givesUp ho hr
        rw [← hlent, hhandlers]
        exact .asked e
      · rw [get?_registered_of_not_givesUp ho] at hr
        exact .kept (ih ⟨r, hr, hlent⟩) ho

/-! ## One call -/

/-- **A call reaches a handler exactly if the handler has been lent** under the request that it
names and the call comes with a table of parameters. -/
theorem handlerOf_eq_some_iff {host : σ} {before : List (Occurrence σ)} {c : Call}
    {handler : Handler σ} {params : Value.Fields} :
    (after host before).channel.handlerOf c = some (handler, params) ↔
      Lent host before c handler ∧ c.params? = some params := by
  unfold Channel.handlerOf Lent
  simp only [openUnder_iff, Option.bind_eq_bind, Option.bind_eq_some_iff, Value.text?_eq_some_iff]
  constructor
  · rintro ⟨r, hr, name, hname, found, hfound, fields, hfields, heq⟩
    cases heq
    exact ⟨⟨name, r.handlers, hname, ⟨r, hr, rfl⟩, hfound⟩, hfields⟩
  · rintro ⟨⟨name, _, hname, ⟨r, hr, rfl⟩, hfound⟩, hfields⟩
    exact ⟨r, hr, name, hname, handler, hfound, params, hfields, rfl⟩

/-- The reply that a call has to have is the one that the channel finds. -/
theorem answers_iff {host : σ} {before : List (Occurrence σ)} {c : Call} {m : HostMessage} :
    Answers host before c m ↔
      ((after host before).channel.reply c (after host before).host).1 = m := by
  constructor
  · intro h
    unfold Channel.reply
    cases h with
    | result hlent hparams hv => simp only [handlerOf_eq_some_iff.mpr ⟨hlent, hparams⟩, hv]
    | failed hlent hparams hcause =>
      simp only [handlerOf_eq_some_iff.mpr ⟨hlent, hparams⟩, hcause, EngineError.callbackFailed]
    | unknown hnone =>
      -- a handler and parameters would both have to be there
      have hof : (after host before).channel.handlerOf c = none := by
        refine Option.eq_none_iff_forall_ne_some.mpr fun ⟨handler, params⟩ hsome => ?_
        obtain ⟨hlent, hparams⟩ := handlerOf_eq_some_iff.mp hsome
        rcases hnone with hnobody | hnot
        · exact hnobody handler hlent
        · exact absurd (hnot.symm.trans hparams) (by simp)
      simp only [hof, EngineError.unknownCallback]
  · rintro rfl
    cases hof : (after host before).channel.handlerOf c with
    | none =>
      have hnone : (∀ handler, ¬ Lent host before c handler) ∨ c.params? = none := by
        cases hparams : c.params? with
        | none => exact Or.inr rfl
        | some params =>
          refine Or.inl fun handler hlent => ?_
          have hsome := handlerOf_eq_some_iff.mpr ⟨hlent, hparams⟩
          exact absurd (hof.symm.trans hsome) (by simp)
      simp only [Channel.reply, hof]
      exact .unknown hnone
    | some found =>
      obtain ⟨handler, params⟩ := found
      obtain ⟨hlent, hparams⟩ := handlerOf_eq_some_iff.mp hof
      simp only [Channel.reply, hof]
      cases hdone : handler params (after host before).host with
      | mk outcome s =>
        cases outcome with
        | ok v => exact .result hlent hparams hdone
        | error cause => exact .failed hlent hparams hdone

/-! ## Occurrences while the channel listens -/

/-- **The loop goes on listening** after everything that neither ends it nor closes the channel. -/
theorem listening_step {t : Traffic σ} (hl : t.channel.hearing = .listening) {o : Occurrence σ}
    (hends : o.endsReading = false) (hclose : o.isClose = false) :
    (t.step o).channel.hearing = .listening := by
  cases o with
  | ask e taken =>
    show (t.ask e taken).channel.hearing = .listening
    rw [hearing_ask, hl]
    rfl
  | say m =>
    rw [step_say_of_listening hl]
    cases m with
    -- an answer settles one request, whether anybody waits for it or not
    | answer id outcome =>
      show (t.channel.complete id outcome).hearing = .listening
      unfold Channel.complete
      split
      · exact hl
      · rw [Channel.hearing_settle]
        exact hl
    | garbled => exact absurd hends (by simp [Occurrence.endsReading])
    | unreadable => exact absurd hends (by simp [Occurrence.endsReading])
    | _ => exact hl
  | leave ticket =>
    show (t.leave ticket).channel.hearing = .listening
    unfold leave
    split <;> exact hl
  | replyLost => exact absurd hends (by simp [Occurrence.endsReading])
  | outputEnds => exact absurd hends (by simp [Occurrence.endsReading])
  | close => exact absurd hclose (by simp [Occurrence.isClose])

/-- Induction over what happens. -/
theorem listening_run {t : Traffic σ} (hl : t.channel.hearing = .listening)
    {rest : List (Occurrence σ)}
    (hrest : ∀ o ∈ rest, o.endsReading = false ∧ o.isClose = false) :
    (t.run rest).channel.hearing = .listening := by
  induction rest generalizing t with
  | nil => exact hl
  | cons o rest ih =>
    obtain ⟨⟨hends, hclose⟩, hmore⟩ := List.forall_mem_cons.mp hrest
    exact ih (listening_step hl hends hclose) hmore

theorem exists_of_isCall {o : Occurrence σ} (h : o.isCall = true) : ∃ c, o = .say (.call c) := by
  cases o with
  | say m =>
    cases m with
    | call c => exact ⟨c, rfl⟩
    | _ => exact absurd h (by simp [Occurrence.isCall])
  | _ => exact absurd h (by simp [Occurrence.isCall])

/-- What a loop that listens replies to a message. -/
theorem replyTo?_say {t : Traffic σ} (hl : t.channel.hearing = .listening) (m : Message) :
    t.replyTo? (.say m) = (t.channel.heed m t.host).2.1 :=
  if_pos hl

/-- Only calls are replied to. -/
theorem replyTo?_of_not_isCall (t : Traffic σ) {o : Occurrence σ} (ho : o.isCall = false) :
    t.replyTo? o = none := by
  cases o with
  | say m =>
    by_cases hl : t.channel.hearing = .listening
    · rw [replyTo?_say hl]
      cases m with
      | call c => exact absurd ho (by simp [Occurrence.isCall])
      | _ => rfl
    · exact if_neg hl
  | _ => rfl

/-! ## Replies in a course -/

/-- The replies that there have to be are those that are sent. -/
theorem replied_iff {host : σ} {before rest : List (Occurrence σ)} {sent : List HostMessage}
    (hl : (after host before).channel.hearing = .listening)
    (hrest : ∀ o ∈ rest, o.endsReading = false ∧ o.isClose = false) :
    Replied host before rest sent ↔ (after host before).replies rest = sent := by
  induction rest generalizing before sent with
  | nil =>
    constructor
    · intro h
      cases h
      rfl
    · rintro rfl
      exact .done before
  | cons o rest ih =>
    obtain ⟨⟨hends, hclose⟩, hmore⟩ := List.forall_mem_cons.mp hrest
    have hl' : (after host (before ++ [o])).channel.hearing = .listening := by
      rw [after_concat]
      exact listening_step hl hends hclose
    have htail : ∀ {sent}, Replied host (before ++ [o]) rest sent ↔
        ((after host before).step o).replies rest = sent := by
      intro sent
      rw [← after_concat]
      exact ih hl' hmore
    show _ ↔ ((after host before).replyTo? o).toList ++ _ = sent
    cases hcall : o.isCall with
    | true =>
      -- the reply is found before the call has changed the host
      obtain ⟨c, rfl⟩ := exists_of_isCall hcall
      rw [replyTo?_say hl]
      constructor
      · intro h
        cases h with
        | called hanswers hrest =>
          exact congrArg₂ List.cons (answers_iff.mp hanswers) (htail.mp hrest)
        | passed ho => exact absurd hcall (by simp [ho])
      · rintro rfl
        exact .called (answers_iff.mpr rfl) (htail.mpr rfl)
    | false =>
      rw [replyTo?_of_not_isCall _ hcall]
      constructor
      · intro h
        cases h with
        | called hanswers hrest => exact absurd hcall (by simp [Occurrence.isCall])
        | passed ho hrest => exact htail.mp hrest
      · intro h
        exact .passed hcall (htail.mpr h)

/-! ## What calls leave alone -/

/-- What an occurrence does to the channel and to those who wait has nothing to do with the state of
the host. -/
theorem step_congr {t t' : Traffic σ} (hc : t.channel = t'.channel) (hw : t.callers = t'.callers)
    (o : Occurrence σ) :
    (t.step o).channel = (t'.step o).channel ∧ (t.step o).callers = (t'.step o).callers := by
  obtain ⟨channel, callers, host⟩ := t
  obtain ⟨_, _, host'⟩ := t'
  cases hc
  cases hw
  -- only a call asks the host, and then the channel stays as it is
  cases o with
  | ask e taken => cases taken <;> exact ⟨rfl, rfl⟩
  | say m =>
    by_cases hl : channel.hearing = .listening
    · rw [step_say_of_listening hl, step_say_of_listening hl]
      cases m <;> exact ⟨rfl, rfl⟩
    · rw [step_say_of_not_listening hl, step_say_of_not_listening hl]
      exact ⟨rfl, rfl⟩
  | leave ticket =>
    cases hfind : callers.find? fun w => w.ticket = ticket with
    | none => simp [step, leave, hfind]
    | some w => simp [step, leave, hfind]
  | replyLost => by_cases hl : channel.hearing = .listening <;> simp [step, hl]
  | outputEnds => by_cases hl : channel.hearing = .listening <;> simp [step, hl]
  | close => exact ⟨rfl, rfl⟩

/-- A call changes the state of the host and nothing else: not what is lent, not who waits, not what
has been settled. -/
theorem step_of_isCall (t : Traffic σ) {o : Occurrence σ} (ho : o.isCall = true) :
    (t.step o).channel = t.channel ∧ (t.step o).callers = t.callers := by
  obtain ⟨c, rfl⟩ := exists_of_isCall ho
  by_cases hl : t.channel.hearing = .listening
  · rw [step_say_of_listening hl]
    exact ⟨rfl, rfl⟩
  · rw [step_say_of_not_listening hl]
    exact ⟨rfl, rfl⟩

/-- Without its calls, a course does the same to the channel and to those who wait. -/
theorem run_without_calls {t t' : Traffic σ} (hc : t.channel = t'.channel)
    (hw : t.callers = t'.callers) (course : List (Occurrence σ)) :
    (t.run course).channel = (t'.run (course.filter fun o => !o.isCall)).channel ∧
      (t.run course).callers = (t'.run (course.filter fun o => !o.isCall)).callers := by
  induction course generalizing t t' with
  | nil => exact ⟨hc, hw⟩
  | cons o rest ih =>
    cases ho : o.isCall with
    -- a call leaves both as they are, so it may be left out
    | true =>
      obtain ⟨hchannel, hcallers⟩ := step_of_isCall t ho
      rw [List.filter_cons_of_neg (by simp [ho])]
      exact ih (hchannel.trans hc) (hcallers.trans hw)
    | false =>
      obtain ⟨hchannel, hcallers⟩ := step_congr hc hw o
      rw [List.filter_cons_of_pos (by simp [ho])]
      exact ih hchannel hcallers

/-! ## The whole of it -/

/-- A channel that replies to calls, in what happens after `before`. -/
structure RepliesToCalls (host : σ) (before rest : List (Occurrence σ)) : Prop where
  /-- What calls something is understood as that call, and nothing else is. -/
  understood : ∀ line c, Message.ofLine line = .call c ↔ Message.Calls line c
  /-- Every call has its reply, in turn, and nothing else is sent. -/
  replied : ∀ sent, Replied host before rest sent ↔ (after host before).replies rest = sent
  /-- A reply is one line. -/
  oneLine : ∀ m ∈ (after host before).replies rest, '\n' ∉ m.toLine.toList
  listening : (after host (before ++ rest)).channel.hearing = .listening
  /-- What is registered, what is settled and who waits is as if nothing had been called. -/
  unaffected : ((after host before).run rest).channel =
      ((after host before).run (rest.filter fun o => !o.isCall)).channel ∧
    ((after host before).run rest).callers =
      ((after host before).run (rest.filter fun o => !o.isCall)).callers

/-- **Every call is replied to**, as long as the channel listens and nothing ends the reading. -/
theorem repliesToCalls_of_listening {host : σ} {before rest : List (Occurrence σ)}
    (hl : (after host before).channel.hearing = .listening)
    (hrest : ∀ o ∈ rest, o.endsReading = false ∧ o.isClose = false) :
    RepliesToCalls host before rest where
  understood _ _ := Message.ofLine_eq_call_iff
  replied _ := replied_iff hl hrest
  oneLine m _ := Json.newline_not_mem_writeSorted m.toValue
  listening := by
    rw [after_append]
    exact listening_run hl hrest
  unaffected := run_without_calls rfl rfl rest

def countingHandlers : Handlers Nat :=
  [("pass", fun _ n => (.ok (.int n), n + 1)), ("climb", fun _ n => (.error (.refusal "caught"), n))]

/-- Two requests are made; the first may use the counting handlers. -/
def lentToFirst : List (Occurrence Nat) :=
  [.ask ⟨none, "compile", [], countingHandlers⟩ true, .ask ⟨none, "compile", [], []⟩ true]

/-- The engine uses what it has been lent, what it has not been lent, and what it has no more. -/
def callsOfEachKind : List (Occurrence Nat) :=
  let call := fun id name request => Occurrence.say (.call ⟨.int id, .text name, request, some []⟩)
  [call 7 "pass" "req-000001", call 7 "climb" "req-000001", call 9 "pass" "req-000002",
    call 8 "pass" "req-000001", .leave 0, call 3 "pass" "req-000001"]

theorem repliesToCalls_ofEachKind :
    (after 0 lentToFirst).channel.hearing = .listening ∧
      (∀ o ∈ callsOfEachKind, o.endsReading = false ∧ o.isClose = false) ∧
      RepliesToCalls 0 lentToFirst callsOfEachKind ∧
      (after 0 lentToFirst).replies callsOfEachKind =
        [.result (.int 7) (.int 0), .refusal (.int 7) ⟨"CALLBACK_FAILED", "caught"⟩,
          .refusal (.int 9) ⟨"UNKNOWN_CALLBACK", "Unknown callback: pass"⟩,
          .result (.int 8) (.int 1),
          .refusal (.int 3) ⟨"UNKNOWN_CALLBACK", "Unknown callback: pass"⟩] := by
  have hl : (after 0 lentToFirst).channel.hearing = .listening := by decide
  have hcalls : ∀ o ∈ callsOfEachKind, o.endsReading = false ∧ o.isClose = false := by
    decide
  exact ⟨hl, hcalls, repliesToCalls_of_listening hl hcalls, by rfl⟩

/-! ## A call that is not understood -/

/-- A call of the counting handlers with a number that it does not look at. -/
def swollenFields (n : Nat) : Value.Fields :=
  [("params", .table [("n", .int n)]), ("callback", .text "pass"), ("id", .int 7),
    ("request", .text "req-000001")]

def swollenCall (n : Nat) : Call :=
  ⟨.int 7, .text "pass", "req-000001", some [("n", .int n)]⟩

def swollenLine (n : Nat) : List Char :=
  (Json.write (.table (swollenFields n))).toList

/-- The line of the call as it is printed, up to the digits of its number. What stands behind them
does not matter. -/
theorem swollenLine_eq (n : Nat) : ∃ rest, swollenLine n =
    '\x7b' :: '"' :: ("params".toList ++ '"' :: ':' :: ' ' ::
      '\x7b' :: '"' :: ("n".toList ++ '"' :: ':' :: ' ' ::
        (Nat.toDigits 10 n ++ '\x7d' :: rest))) := by
  have hnumber : (toString (n : Int)).toList = Nat.toDigits 10 n := by
    show (toString n).toList = _
    rw [Nat.toString_eq_ofList_toDigits, String.toList_ofList]
  have hparams : Json.writeText "params" = '"' :: "params".toList ++ ['"'] := by rfl
  have hn : Json.writeText "n" = '"' :: "n".toList ++ ['"'] := by rfl
  refine ⟨',' :: ' ' :: Json.writeFields ((swollenFields n).drop 1) ++ ['\x7d'], ?_⟩
  simp only [swollenLine, Json.write, String.toList_ofList, swollenFields, Json.writeChars,
    Json.writeFields, hnumber, hparams, hn, List.drop_succ_cons, List.drop_zero,
    List.append_assoc, List.cons_append, List.nil_append]

/-- The number spoils the line, before the reader comes to know that something is called. -/
theorem ofLine_swollenLine {n : Nat} (hn : 10 ^ Json.maxDigits ≤ n) :
    Message.ofLine (swollenLine n) = .unreadable := by
  have hdigits : ∀ d ∈ Nat.toDigits 10 n, d.isDigit = true := fun d hd => isDigit_of_mem_toDigits hd
  have hhead : (Nat.toDigits 10 n).head? ≠ some '0' :=
    Json.head?_toDigits (Nat.lt_of_lt_of_le (Nat.pow_pos (by decide)) hn)
  have hlong : Json.maxDigits < (Nat.toDigits 10 n).length := by
    rw [← Nat.not_le, Nat.length_toDigits_le_iff (by decide) (by decide)]
    omega
  have hskip : ∀ s, Json.skipSpace (Nat.toDigits 10 n ++ s) = Nat.toDigits 10 n ++ s := by
    intro s
    obtain ⟨d, more, hds⟩ := List.exists_cons_of_ne_nil (Nat.toDigits_ne_nil (n := n) (b := 10))
    rw [hds, List.cons_append]
    exact Json.skipSpace_cons (Json.isSpace_of_isDigit (hdigits d (by simp [hds]))) _
  obtain ⟨rest, hline⟩ := swollenLine_eq n
  have hread : Json.read (String.ofList (swollenLine n)) =
      .error (.tooManyDigits (Nat.toDigits 10 n).length) := by
    rw [hline]
    refine Json.readWithin_tooManyDigits (by simp) (Json.skipSpace_cons (by decide) _) ?_
    -- a unit of fuel for the number, and two for each of the tables around it
    obtain ⟨fuel, hfuel⟩ : ∃ fuel, 2 * (swollenLine n).length + 2 = fuel + 1 + 2 + 2 :=
      ⟨2 * (swollenLine n).length - 3, by rw [hline]; simp only [List.length_cons]; omega⟩
    rw [← hline, hfuel, hline]
    apply Json.readValue_first_field (by decide) (Json.skipSpace_cons (by decide) _)
    apply Json.readValue_first_field (by decide) (hskip _)
    exact Json.readValue_tooManyDigits hdigits hhead hlong fuel _
  have htrim : Text.trim Text.isAsciiBlank (swollenLine n) = swollenLine n := by
    have hbraces : swollenLine n = '\x7b' :: Json.writeFields (swollenFields n) ++ ['\x7d'] := by
      simp only [swollenLine, Json.write, String.toList_ofList, Json.writeChars]
    rw [hbraces]
    exact Text.trim_eq_self (by decide) (by decide) _
  have hdecode : Text.Encoding.decodeLine? (swollenLine n) = some (swollenLine n) := by
    rw [hline]
    rfl
  have hne : (swollenLine n).isEmpty = false := by rw [hline]; rfl
  simp [Message.ofLine, htrim, hne, hdecode, hread]

/-- The engine writes such a call, with the smallest number that is too long. -/
def spoiled : Occurrence Nat :=
  .line (swollenLine (10 ^ Json.maxDigits))

/-- **A call that is never replied to.** The engine calls what it has been lent, but its line cannot
be read: nothing is sent, the channel listens no more, and both requests are left waiting. -/
theorem spoiled_unheard :
    Message.Describes (swollenFields (10 ^ Json.maxDigits)) (swollenCall (10 ^ Json.maxDigits)) ∧
      (∃ handler, Lent 0 lentToFirst (swollenCall (10 ^ Json.maxDigits)) handler) ∧
      (after 0 lentToFirst).channel.hearing = .listening ∧
      (after 0 lentToFirst).replies [spoiled] = [] ∧
      (after 0 (lentToFirst ++ [spoiled])).channel.hearing = .deaf ∧
      (after 0 (lentToFirst ++ [spoiled])).callers.filter
        (after 0 (lentToFirst ++ [spoiled])).isUnanswered =
          [⟨"req-000001", 0⟩, ⟨"req-000002", 1⟩] := by
  have hcall : ∀ n, Message.Describes (swollenFields n) (swollenCall n) := fun n =>
    ⟨rfl, rfl, rfl, rfl⟩
  have hopen : OpenUnder 0 lentToFirst "req-000001" countingHandlers :=
    openUnder_iff.mpr ⟨⟨0, countingHandlers⟩, by rfl, rfl⟩
  -- the number is too long to be read, so the line ends the loop
  have hspoiled : spoiled = .say .unreadable :=
    congrArg Occurrence.say (ofLine_swollenLine (Nat.le_refl _))
  rw [hspoiled]
  exact ⟨hcall _, ⟨_, "pass", countingHandlers, rfl, hopen, rfl⟩, by decide, by rfl, by decide,
    by decide⟩

end Traffic

end Packwright
