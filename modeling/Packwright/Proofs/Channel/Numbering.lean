import Mathlib.Data.List.Nodup
import Mathlib.Data.List.Perm.Basic
import Packwright.Channel.Desk
import Packwright.Proofs.Channel.Unanswered

/-!
# Whose id is whose

At a desk every id belongs to one request at most.

* `idText_injective`: no two numbers give one id, however many digits they have.
* `Orderly` is what holds of every desk: what is registered are the open requests, in the same
  order, and the ids that are in use or drawn are different numbers that have been given out.
  `orderly_after` is the induction.
-/

namespace Packwright

namespace Channel

variable {σ : Type}

/-! ## Numbers as ids -/

/-- The number behind some digits does not see the zeros in front of them. -/
theorem ofDigitChars_padded (k n : Nat) :
    Nat.ofDigitChars 10 (List.replicate k '0' ++ (toString n).toList) 0 = n := by
  rw [Nat.ofDigitChars_append, Nat.ofDigitChars_replicate_zero, Nat.toString_eq_ofList_toDigits,
    String.toList_ofList]
  exact Nat.ofDigitChars_ten_toDigits

/-- **Different numbers give different ids.** -/
theorem idText_injective : Function.Injective idText := by
  intro m n h
  have hchars := congrArg String.toList h
  simp only [idText, String.toList_append, String.toList_ofList, List.append_assoc] at hchars
  have hdigits := List.append_cancel_left hchars
  calc m = Nat.ofDigitChars 10
        (List.replicate (6 - (toString m).length) '0' ++ (toString m).toList) 0 :=
        (ofDigitChars_padded _ m).symm
    _ = Nat.ofDigitChars 10
        (List.replicate (6 - (toString n).length) '0' ++ (toString n).toList) 0 := by rw [hdigits]
    _ = n := ofDigitChars_padded _ n

theorem idText_ne_empty (n : Nat) : (idText n).isEmpty = false := by
  simp [idText]

/-! ## How many ids have been given out -/

@[simp] theorem ids_settle (c : Channel σ) (t : Nat) (o : Except EngineError Value) :
    (c.settle t o).ids = c.ids := by
  unfold settle; split <;> rfl

/-- Failing requests one by one draws no id. -/
theorem ids_failEach (e : EngineError) (rs : List (OpenRequest σ)) (c : Channel σ) :
    (failEach e rs c).ids = c.ids := by
  induction rs generalizing c with
  | nil => rfl
  | cons r rest ih => exact (ih _).trans (ids_settle c r.ticket (.error e))

@[simp] theorem ids_failAll (c : Channel σ) (e : EngineError) : (c.failAll e).ids = c.ids :=
  ids_failEach e _ c

@[simp] theorem ids_connected (c : Channel σ) : c.connected.ids = c.ids := by
  unfold connected connect; split <;> rfl

@[simp] theorem ids_complete (c : Channel σ) (id : String) (o : Except EngineError Value) :
    (c.complete id o).ids = c.ids := by
  unfold complete; split <;> simp

@[simp] theorem tickets_complete (c : Channel σ) (id : String) (o : Except EngineError Value) :
    (c.complete id o).tickets = c.tickets := by
  unfold complete; split <;> simp

@[simp] theorem registered_complete (c : Channel σ) (id : String) (o : Except EngineError Value) :
    (c.complete id o).registered = c.registered := by
  unfold complete; split <;> simp

end Channel

namespace Traffic

variable {σ : Type}

/-- Without an id of its own, a request gets the next number. -/
theorem idFor_of_none {t : Traffic σ} {e : Errand σ} (h : e.id? = none) :
    t.idFor e = Channel.idText (t.channel.ids + 1) := by
  simp [idFor, h, Channel.chooseId, Channel.nextId]

/-- A request without an id of its own has one drawn for it. -/
theorem ids_registering_of_none {t : Traffic σ} {e : Errand σ} (h : e.id? = none) :
    (t.registering e).ids = t.channel.ids + 1 := by
  simp [registering, h, Channel.chooseId, Channel.nextId]

/-- A request keeps an id that was drawn for it. -/
theorem idFor_of_drawn {t : Traffic σ} {e : Errand σ} {n : Nat}
    (h : e.id? = some (Channel.idText n)) : t.idFor e = Channel.idText n := by
  simp [idFor, h, Channel.chooseId, Channel.idText_ne_empty]

/-- A request that brings a drawn id has no other one drawn for it. -/
theorem ids_registering_of_drawn {t : Traffic σ} {e : Errand σ} {n : Nat}
    (h : e.id? = some (Channel.idText n)) : (t.registering e).ids = t.channel.ids := by
  simp [registering, h, Channel.chooseId, Channel.idText_ne_empty]

/-! ## What a request does -/

/-- A request that is taken is waited for, behind those that were made before it. -/
theorem callers_ask_true (t : Traffic σ) (e : Errand σ) :
    (t.ask e true).callers = t.callers ++ [⟨t.idFor e, t.channel.tickets⟩] := by
  rw [ask_eq]
  rfl

/-- A request that is refused is waited for by nobody. -/
theorem callers_ask_false (t : Traffic σ) (e : Errand σ) :
    (t.ask e false).callers = t.callers := by
  rw [ask_eq]
  rfl

/-- Whether a request is taken makes no difference to the ids that have been drawn. -/
theorem ids_ask (t : Traffic σ) (e : Errand σ) (taken : Bool) :
    (t.ask e taken).channel.ids = (t.registering e).ids := by
  rw [ask_eq]
  cases taken <;> rfl

/-- What is lent to a request that is taken goes behind what was lent before, under its own id. -/
theorem registered_ask_true {t : Traffic σ} {e : Errand σ}
    (h : t.idFor e ∉ Dictionary.keys t.channel.registered) :
    (t.ask e true).channel.registered =
      t.channel.registered ++ [(t.idFor e, ⟨t.channel.tickets, e.handlers⟩)] := by
  rw [ask_eq]
  simp only [Channel.register, registering_registered, registering_tickets, if_true]
  exact Dictionary.put_of_not_mem_keys _ h

/-- What is lent to a request that is refused is taken back at once, and nothing else is missing
then. -/
theorem registered_ask_false {t : Traffic σ} {e : Errand σ}
    (h : t.idFor e ∉ Dictionary.keys t.channel.registered) :
    (t.ask e false).channel.registered = t.channel.registered := by
  rw [ask_eq]
  simp only [Channel.register, Channel.release, registering_registered, Bool.false_eq_true, if_false]
  exact Dictionary.erase_put_of_not_mem_keys _ h

/-- What an occurrence leaves alone if nobody comes or goes. -/
structure Keeps (t t' : Traffic σ) : Prop where
  callers : t'.callers = t.callers
  registered : t'.channel.registered = t.channel.registered
  ids : t'.channel.ids = t.channel.ids
  tickets : t'.channel.tickets = t.channel.tickets

/-- Failing everybody who waits keeps the books: nobody is struck off, nothing is taken back, no
number is used up. -/
theorem keeps_failAll (t : Traffic σ) (hearing : Hearing) (e : EngineError) :
    Keeps t { t with channel := { t.channel.failAll e with hearing := hearing } } :=
  ⟨rfl, Channel.registered_failAll _ _, Channel.ids_failAll _ _, Channel.tickets_failAll _ _⟩

/-- So does a message of the engine, whatever it says. -/
theorem keeps_heed (t : Traffic σ) (m : Message) : Keeps t (t.heed m) := by
  cases m with
  | call call => exact ⟨rfl, rfl, rfl, rfl⟩
  | answer id outcome =>
    exact ⟨rfl, Channel.registered_complete _ _ _, Channel.ids_complete _ _ _,
      Channel.tickets_complete _ _ _⟩
  | nothing => exact ⟨rfl, rfl, rfl, rfl⟩
  | garbled => exact keeps_failAll t .deaf .garbled
  | unreadable => exact ⟨rfl, rfl, rfl, rfl⟩

/-- Only who asks comes, and only who leaves goes. -/
theorem keeps_step {t : Traffic σ} {o : Occurrence σ} (hask : ∀ e taken, o ≠ .ask e taken)
    (hleave : ∀ ticket, o ≠ .leave ticket) : Keeps t (t.step o) := by
  cases o with
  | ask e taken => exact absurd rfl (hask e taken)
  | leave ticket => exact absurd rfl (hleave ticket)
  | close => exact keeps_failAll t .disconnected .closed
  -- a message counts only as long as the loop hears it
  | say m =>
    simp only [step]
    split
    · exact keeps_heed t m
    · exact ⟨rfl, rfl, rfl, rfl⟩
  | replyLost =>
    simp only [step]
    split
    · exact keeps_failAll t .deaf .inputClosed
    · exact ⟨rfl, rfl, rfl, rfl⟩
  | outputEnds =>
    simp only [step]
    split
    · exact keeps_failAll t .deaf .exited
    · exact ⟨rfl, rfl, rfl, rfl⟩

end Traffic

namespace Desk

variable {σ : Type}

/-! ## What holds of every desk -/

def callerOf (p : String × OpenRequest σ) : Caller := ⟨p.1, p.2.ticket⟩

def idsOut (d : Desk σ) : List String := d.drawn ++ d.callers.map Caller.id

/-- What holds of a desk, whatever has happened. -/
structure Orderly (d : Desk σ) : Prop where
  sound : d.traffic.Sound
  callers_eq : d.callers = d.traffic.channel.registered.map callerOf
  tickets_nodup : (d.callers.map Caller.ticket).Nodup
  ids_nodup : d.idsOut.Nodup
  numbered : ∀ id ∈ d.idsOut, ∃ n ≤ d.traffic.channel.ids, id = Channel.idText n

/-- Before anything has happened the books are in order: they are empty. -/
theorem orderly_idle (host : σ) : Orderly (idle host) where
  sound := Traffic.sound_idle host
  callers_eq := rfl
  tickets_nodup := List.nodup_nil
  ids_nodup := List.nodup_nil
  numbered := by simp [idsOut, idle, callers, Traffic.idle]

section

variable {d : Desk σ} (h : Orderly d)

include h

/-- What is lent is lent under the ids of those who wait, in the same order. -/
theorem Orderly.keys_eq :
    Dictionary.keys d.traffic.channel.registered = d.callers.map Caller.id := by
  rw [h.callers_eq, List.map_map]
  rfl

/-- The next id to be drawn is out nowhere: the numbers that are out are lower. -/
theorem Orderly.next_not_mem : Channel.idText (d.traffic.channel.ids + 1) ∉ d.idsOut := by
  intro hmem
  obtain ⟨n, hn, heq⟩ := h.numbered _ hmem
  have := Channel.idText_injective heq
  omega

/-- A caller is registered under its id, with its ticket. -/
theorem Orderly.get?_of_mem {w : Caller} (hw : w ∈ d.callers) :
    ∃ r, d.traffic.channel.registered.get? w.id = some r ∧ r.ticket = w.ticket := by
  rw [h.callers_eq] at hw
  obtain ⟨⟨id, r⟩, hp, rfl⟩ := List.mem_map.mp hw
  exact ⟨r, Dictionary.get?_eq_some_of_mem h.sound.keys_nodup hp, rfl⟩

/-- What is registered under an id belongs to a caller. -/
theorem Orderly.mem_of_get? {id : String} {r : OpenRequest σ}
    (hr : d.traffic.channel.registered.get? id = some r) : ⟨id, r.ticket⟩ ∈ d.callers := by
  rw [h.callers_eq]
  exact List.mem_map_of_mem (f := callerOf) (Dictionary.mem_of_get?_eq_some hr)

theorem Orderly.id_inj {v w : Caller} (hv : v ∈ d.callers) (hw : w ∈ d.callers)
    (hid : v.id = w.id) : v = w :=
  List.inj_on_of_nodup_map (List.nodup_append.mp h.ids_nodup).2.1 hv hw hid

theorem Orderly.ticket_inj {v w : Caller} (hv : v ∈ d.callers) (hw : w ∈ d.callers)
    (hticket : v.ticket = w.ticket) : v = w :=
  List.inj_on_of_nodup_map h.tickets_nodup hv hw hticket

/-! ## One move -/

/-- Where the same requests are open as before, it is the ids that have to be looked at. -/
theorem Orderly.of_same_callers {d' : Desk σ} (hsound : d'.traffic.Sound)
    (hcallers : d'.callers = d.callers)
    (hregistered : d'.traffic.channel.registered = d.traffic.channel.registered)
    (hnodup : d'.idsOut.Nodup)
    (hnum : ∀ id ∈ d'.idsOut, ∃ n ≤ d'.traffic.channel.ids, id = Channel.idText n) :
    Orderly d' := by
  constructor
  case sound => exact hsound
  case callers_eq =>
    rw [hcallers, hregistered]
    exact h.callers_eq
  case tickets_nodup =>
    rw [hcallers]
    exact h.tickets_nodup
  case ids_nodup => exact hnodup
  case numbered => exact hnum

/-- **Drawing an id** puts a new one out. -/
theorem Orderly.draw : Orderly d.draw := by
  have hout : d.draw.idsOut.Perm (Channel.idText (d.traffic.channel.ids + 1) :: d.idsOut) := by
    show ((d.drawn ++ [_]) ++ d.callers.map Caller.id).Perm _
    rw [List.append_assoc]
    exact List.perm_middle
  refine h.of_same_callers (h.sound.of_eq rfl rfl rfl h.sound.unsettled) rfl rfl ?_ ?_
  · exact hout.nodup_iff.mpr (List.nodup_cons.mpr ⟨h.next_not_mem, h.ids_nodup⟩)
  · intro id hid
    rcases List.mem_cons.mp (hout.mem_iff.mp hid) with rfl | hold
    · exact ⟨_, Nat.le_refl _, rfl⟩
    · obtain ⟨n, hn, heq⟩ := h.numbered id hold
      exact ⟨n, Nat.le_succ_of_le hn, heq⟩

section

variable {e : Errand σ} {drawn : List String}
  (hnodup : (d.traffic.idFor e :: (drawn ++ d.callers.map Caller.id)).Nodup)
  (hnum : ∀ id ∈ d.traffic.idFor e :: (drawn ++ d.callers.map Caller.id),
    ∃ n ≤ (d.traffic.registering e).ids, id = Channel.idText n)

include hnodup

/-- Nothing is lent yet under an id that is about to be used. -/
theorem Orderly.idFor_not_mem :
    d.traffic.idFor e ∉ Dictionary.keys d.traffic.channel.registered := by
  rw [h.keys_eq]
  exact fun hmem => (List.nodup_cons.mp hnodup).1 (List.mem_append_right _ hmem)

include hnum

/-- A request that is refused gives its id up, and everything is as before it. -/
theorem Orderly.ask_refused : Orderly { traffic := d.traffic.ask e false, drawn := drawn } := by
  have hcallers : (d.traffic.ask e false).callers = d.callers := Traffic.callers_ask_false _ e
  have hout : idsOut ⟨d.traffic.ask e false, drawn⟩ = drawn ++ d.callers.map Caller.id :=
    congrArg (fun ws => drawn ++ List.map Caller.id ws) hcallers
  -- what was registered for the request is released again
  have hregistered := Traffic.registered_ask_false (h.idFor_not_mem hnodup)
  refine h.of_same_callers (h.sound.ask e false) hcallers hregistered ?_ ?_
  · rw [hout]
    exact (List.nodup_cons.mp hnodup).2
  · rw [hout]
    show ∀ id ∈ _, ∃ n ≤ (d.traffic.ask e false).channel.ids, _
    rw [Traffic.ids_ask]
    exact fun id hid => hnum id (List.mem_cons_of_mem _ hid)

/-- A request that is taken waits under an id that nobody else has, with a ticket that nobody else
has. -/
theorem Orderly.ask_taken : Orderly { traffic := d.traffic.ask e true, drawn := drawn } := by
  have hcallers : (d.traffic.ask e true).callers =
      d.callers ++ [⟨d.traffic.idFor e, d.traffic.channel.tickets⟩] :=
    Traffic.callers_ask_true _ e
  have hregistered := Traffic.registered_ask_true (h.idFor_not_mem hnodup)
  have hout : (idsOut ⟨d.traffic.ask e true, drawn⟩).Perm
      (d.traffic.idFor e :: (drawn ++ d.callers.map Caller.id)) := by
    show (drawn ++ (d.traffic.ask e true).callers.map Caller.id).Perm _
    rw [hcallers, List.map_append, ← List.append_assoc]
    exact List.perm_append_singleton _ _
  constructor
  case sound => exact h.sound.ask e true
  case callers_eq =>
    show (d.traffic.ask e true).callers = (d.traffic.ask e true).channel.registered.map callerOf
    rw [hcallers, hregistered, List.map_append, h.callers_eq]
    rfl
  case tickets_nodup =>
    show ((d.traffic.ask e true).callers.map Caller.ticket).Nodup
    rw [hcallers, List.map_append, List.nodup_append]
    refine ⟨h.tickets_nodup, List.nodup_singleton _, fun a ha b hb => ?_⟩
    -- the new ticket is the first that has not been given out
    obtain ⟨w, hw, rfl⟩ := List.mem_map.mp ha
    have hlt : w.ticket < d.traffic.channel.tickets := h.sound.callers_lt w hw
    rw [List.mem_singleton.mp hb]
    exact Nat.ne_of_lt hlt
  case ids_nodup => exact hout.nodup_iff.mpr hnodup
  case numbered =>
    show ∀ id ∈ _, ∃ n ≤ (d.traffic.ask e true).channel.ids, _
    rw [Traffic.ids_ask]
    exact fun id hid => hnum id (hout.mem_iff.mp hid)

/-- A request keeps the desk orderly if its id is neither in use nor drawn by anybody else. It goes
to the end of what is registered, or, if it is not taken, leaves nothing behind. -/
theorem Orderly.ask (taken : Bool) :
    Orderly { traffic := d.traffic.ask e taken, drawn := drawn } := by
  cases taken with
  | false => exact h.ask_refused hnodup hnum
  | true => exact h.ask_taken hnodup hnum

end

/-- **A request that is made under a drawn id**: the id goes from the hand of who drew it to who
waits, so all the ids that are out are the same ones in another order. -/
theorem Orderly.present (place : Nat) (e : Errand σ) (taken : Bool) :
    Orderly (d.present place e taken) := by
  unfold Desk.present
  cases hplace : d.drawn[place]? with
  | none => exact h
  | some id =>
    obtain ⟨hlt, hget⟩ := List.getElem?_eq_some_iff.mp hplace
    have hperm : (id :: d.drawn.eraseIdx place).Perm d.drawn := by
      rw [← hget]
      exact List.getElem_cons_eraseIdx_perm hlt
    have hout : (id :: (d.drawn.eraseIdx place ++ d.callers.map Caller.id)).Perm d.idsOut :=
      hperm.append_right _
    -- the id has been drawn, so it is the text of a number, and presenting it draws none
    obtain ⟨n, hn, rfl⟩ := h.numbered id (hout.mem_iff.mp List.mem_cons_self)
    have hid : d.traffic.idFor { e with id? := some (Channel.idText n) } = Channel.idText n :=
      Traffic.idFor_of_drawn rfl
    have hids : (d.traffic.registering { e with id? := some (Channel.idText n) }).ids =
        d.traffic.channel.ids := Traffic.ids_registering_of_drawn rfl
    refine h.ask ?_ ?_ taken
    · rw [hid]
      exact hout.nodup_iff.mpr h.ids_nodup
    · rw [hid, hids]
      exact fun i hi => h.numbered i (hout.mem_iff.mp hi)

/-- **A request that leaves the choice of its id to the channel** gets the next number, which is out
nowhere. -/
theorem Orderly.ask_unnumbered (e : Errand σ) (taken : Bool) :
    Orderly { d with traffic := d.traffic.ask { e with id? := none } taken } := by
  have hid : d.traffic.idFor { e with id? := none } = Channel.idText (d.traffic.channel.ids + 1) :=
    Traffic.idFor_of_none rfl
  have hids : (d.traffic.registering { e with id? := none }).ids = d.traffic.channel.ids + 1 :=
    Traffic.ids_registering_of_none rfl
  refine h.ask ?_ ?_ taken
  · rw [hid]
    exact List.nodup_cons.mpr ⟨h.next_not_mem, h.ids_nodup⟩
  · rw [hid, hids]
    intro id hmem
    -- the new id is the next number, and the others have been drawn before
    rcases List.mem_cons.mp hmem with rfl | hold
    · exact ⟨_, Nat.le_refl _, rfl⟩
    · obtain ⟨n, hn, heq⟩ := h.numbered id hold
      exact ⟨n, Nat.le_succ_of_le hn, heq⟩

/-- Who leaves takes along what is registered under its id, and nothing else: the others have other
ids and other tickets. -/
theorem Orderly.leave (ticket : Nat) :
    Orderly { d with traffic := d.traffic.leave ticket } := by
  unfold Traffic.leave
  cases hfind : d.traffic.callers.find? fun w => w.ticket = ticket with
  | none => exact h
  | some w =>
    have hw : w ∈ d.callers := List.mem_of_find?_eq_some hfind
    have hticket : w.ticket = ticket := by simpa using List.find?_some hfind
    have hsub : (d.callers.filter fun v => v.ticket ≠ ticket).Sublist d.callers :=
      List.filter_sublist
    have hout : (d.drawn ++ (d.callers.filter fun v => v.ticket ≠ ticket).map Caller.id).Sublist
        d.idsOut := (List.Sublist.refl _).append (hsub.map _)
    constructor
    case sound => exact h.sound.release _ fun v hv => (List.mem_filter.mp hv).1
    case callers_eq =>
      show d.callers.filter (fun v => v.ticket ≠ ticket) =
        (d.traffic.channel.registered.erase w.id).map callerOf
      rw [h.callers_eq, List.filter_map]
      refine congrArg (List.map callerOf) (List.filter_congr fun p hp => ?_)
      have hv : callerOf p ∈ d.callers := by
        rw [h.callers_eq]
        exact List.mem_map_of_mem hp
      -- tickets and ids are both unique, so either of them says which entry goes
      have hiff : p.2.ticket = ticket ↔ p.1 = w.id := by
        constructor
        · intro heq
          exact congrArg Caller.id (h.ticket_inj hv hw (heq.trans hticket.symm))
        · intro heq
          exact (congrArg Caller.ticket (h.id_inj hv hw heq)).trans hticket
      simp [callerOf, hiff]
    case tickets_nodup => exact (hsub.map _).nodup h.tickets_nodup
    case ids_nodup => exact hout.nodup h.ids_nodup
    case numbered => exact fun id hid => h.numbered id (hout.subset hid)

/-- Everything else that happens keeps the books. -/
theorem Orderly.occur {o : Occurrence σ} (hask : ∀ e taken, o ≠ .ask e taken)
    (hleave : ∀ ticket, o ≠ .leave ticket) :
    Orderly { d with traffic := d.traffic.step o } := by
  have hkeeps := Traffic.keeps_step (t := d.traffic) hask hleave
  have hc : (d.traffic.step o).callers = d.callers := hkeeps.callers
  have hout : idsOut { d with traffic := d.traffic.step o } = d.idsOut :=
    congrArg (fun ws => d.drawn ++ List.map Caller.id ws) hc
  -- the same ones wait, so the same ids are out
  refine h.of_same_callers (h.sound.step o) hc hkeeps.registered ?_ ?_
  · rw [hout]
    exact h.ids_nodup
  · rw [hout]
    show ∀ id ∈ d.idsOut, ∃ n ≤ (d.traffic.step o).channel.ids, _
    rw [hkeeps.ids]
    exact h.numbered

/-- **One move keeps a desk orderly.** -/
theorem Orderly.step (m : Move σ) : Orderly (d.step m) := by
  cases m with
  | draw => exact h.draw
  | present place e taken => exact h.present place e taken
  | occur o =>
    cases o with
    | ask e taken => exact h.ask_unnumbered e taken
    | leave ticket => exact h.leave ticket
    | say m => exact h.occur (o := .say m) (by simp) (by simp)
    | replyLost => exact h.occur (o := .replyLost) (by simp) (by simp)
    | outputEnds => exact h.occur (o := .outputEnds) (by simp) (by simp)
    | close => exact h.occur (o := .close) (by simp) (by simp)

theorem Orderly.run (course : List (Move σ)) : Orderly (d.run course) := by
  induction course generalizing d with
  | nil => exact h
  | cons m rest ih => exact ih (h.step m)

end

theorem orderly_after (host : σ) (course : List (Move σ)) : Orderly (after host course) :=
  (orderly_idle host).run course

end Desk

end Packwright
