import Packwright.Channel.Traffic
import Packwright.Proofs.Dictionary

/-!
# Settling tickets

What every operation of a channel does to what is registered and to what is settled.

* A ticket is settled once: `outcome?_settle` and `outcome?_failAll` say that settling only adds
  outcomes to tickets that have none.
* `failAll` settles exactly the tickets that are registered, so a ticket that is not registered any
  more stays as it is. That is where requests get lost.
-/

namespace Packwright

namespace Channel

variable {σ : Type}

/-! ## What settling leaves alone -/

@[simp] theorem hearing_settle (c : Channel σ) (t : Nat) (o : Except EngineError Value) :
    (c.settle t o).hearing = c.hearing := by
  unfold settle; split <;> rfl

@[simp] theorem registered_settle (c : Channel σ) (t : Nat) (o : Except EngineError Value) :
    (c.settle t o).registered = c.registered := by
  unfold settle; split <;> rfl

@[simp] theorem tickets_settle (c : Channel σ) (t : Nat) (o : Except EngineError Value) :
    (c.settle t o).tickets = c.tickets := by
  unfold settle; split <;> rfl

/-- A ticket is settled at most once, and settling touches no other ticket. -/
theorem outcome?_settle (c : Channel σ) (t u : Nat) (o : Except EngineError Value) :
    (c.settle t o).outcome? u =
      if u = t ∧ c.outcome? t = none then some o else c.outcome? u := by
  unfold settle outcome? Dictionary.has
  by_cases hs : (Dictionary.get? c.settled t).isSome
  · -- settled already, which is not undone
    have hne : Dictionary.get? c.settled t ≠ none := Option.isSome_iff_ne_none.mp hs
    rw [if_pos hs, if_neg fun h => hne h.2]
  · have hnone : Dictionary.get? c.settled t = none := by simpa using hs
    rw [if_neg hs]
    by_cases hu : u = t
    · subst hu
      simp [hnone]
    · rw [if_neg fun h => hu h.1]
      exact Dictionary.get?_put_of_ne _ _ hu

/-! ## Failing what is registered

The fold over the registered requests settles their tickets one after the other. -/

/-- Settles the tickets of some requests with one error. -/
def failEach (e : EngineError) (rs : List (OpenRequest σ)) (c : Channel σ) : Channel σ :=
  rs.foldl (fun c r => c.settle r.ticket (.error e)) c

/-- Failing requests one by one leaves the hearing, what is lent and the tickets alone. Induction
over the requests. -/
theorem failEach_keeps (e : EngineError) (rs : List (OpenRequest σ)) (c : Channel σ) :
    (failEach e rs c).hearing = c.hearing ∧ (failEach e rs c).registered = c.registered ∧
      (failEach e rs c).tickets = c.tickets := by
  induction rs generalizing c with
  | nil => exact ⟨rfl, rfl, rfl⟩
  | cons r rest ih =>
    obtain ⟨hh, hr, ht⟩ := ih (c.settle r.ticket (.error e))
    rw [hearing_settle] at hh
    rw [registered_settle] at hr
    rw [tickets_settle] at ht
    exact ⟨hh, hr, ht⟩

@[simp] theorem registered_failAll (c : Channel σ) (e : EngineError) :
    (c.failAll e).registered = c.registered :=
  (failEach_keeps e _ c).2.1

@[simp] theorem tickets_failAll (c : Channel σ) (e : EngineError) :
    (c.failAll e).tickets = c.tickets :=
  (failEach_keeps e _ c).2.2

/-- After some requests have failed, a ticket that had no outcome has the error exactly if it
belongs to one of them. -/
theorem outcome?_failEach (e : EngineError) (rs : List (OpenRequest σ)) (c : Channel σ) (u : Nat) :
    (failEach e rs c).outcome? u =
      if c.outcome? u = none ∧ ∃ r ∈ rs, r.ticket = u then some (.error e) else c.outcome? u := by
  induction rs generalizing c with
  | nil => simp [failEach]
  | cons r rest ih =>
    have hstep := ih (c.settle r.ticket (.error e))
    rw [outcome?_settle] at hstep
    rw [show failEach e (r :: rest) c = failEach e rest (c.settle r.ticket (.error e)) from rfl,
      hstep]
    -- the first request is failed unless it has been settled, and then the others
    by_cases hu : u = r.ticket
    · subst hu
      by_cases hn : c.outcome? r.ticket = none <;> simp [hn]
    · have hu' : r.ticket ≠ u := Ne.symm hu
      simp [hu, hu']

/-- After everything registered has failed, a ticket that had no outcome has the error exactly if a
registered request holds it. -/
theorem outcome?_failAll (c : Channel σ) (e : EngineError) (u : Nat) :
    (c.failAll e).outcome? u =
      if c.outcome? u = none ∧ ∃ r ∈ c.registered.values, r.ticket = u then some (.error e)
      else c.outcome? u :=
  outcome?_failEach e _ c u

/-- After everything registered has failed, a ticket has no outcome exactly if it had none and no
registered request holds it. -/
theorem outcome?_failAll_eq_none_iff (c : Channel σ) (e : EngineError) (u : Nat) :
    (c.failAll e).outcome? u = none ↔
      c.outcome? u = none ∧ ∀ r ∈ c.registered.values, r.ticket ≠ u := by
  rw [outcome?_failAll]
  split
  · rename_i hfailed
    obtain ⟨r, hr, hticket⟩ := hfailed.2
    exact ⟨fun h => absurd h (by simp), fun h => absurd hticket (h.2 r hr)⟩
  · rename_i hkept
    exact ⟨fun hn => ⟨hn, fun r hr hticket => hkept ⟨hn, r, hr, hticket⟩⟩, fun h => h.1⟩

/-! ## Requests -/

@[simp] theorem hearing_chooseId (c : Channel σ) (id? : Option String) :
    (c.chooseId id?).2.hearing = c.hearing := by
  unfold chooseId nextId
  split <;> (try split) <;> rfl

@[simp] theorem registered_chooseId (c : Channel σ) (id? : Option String) :
    (c.chooseId id?).2.registered = c.registered := by
  unfold chooseId nextId
  split <;> (try split) <;> rfl

@[simp] theorem tickets_chooseId (c : Channel σ) (id? : Option String) :
    (c.chooseId id?).2.tickets = c.tickets := by
  unfold chooseId nextId
  split <;> (try split) <;> rfl

@[simp] theorem outcome?_chooseId (c : Channel σ) (id? : Option String) (u : Nat) :
    (c.chooseId id?).2.outcome? u = c.outcome? u := by
  unfold chooseId nextId
  split <;> (try split) <;> rfl

@[simp] theorem registered_connected (c : Channel σ) :
    c.connected.registered = c.registered := by
  unfold connected connect; split <;> rfl

@[simp] theorem tickets_connected (c : Channel σ) : c.connected.tickets = c.tickets := by
  unfold connected connect; split <;> rfl

@[simp] theorem outcome?_connected (c : Channel σ) (u : Nat) :
    c.connected.outcome? u = c.outcome? u := by
  unfold connected connect; split <;> rfl

/-- A channel to no engine gets a new one, and any other channel keeps its own. -/
theorem hearing_connected (c : Channel σ) :
    c.connected.hearing = if c.hearing = .disconnected then .listening else c.hearing := by
  unfold connected connect; split <;> rfl

end Channel

end Packwright
