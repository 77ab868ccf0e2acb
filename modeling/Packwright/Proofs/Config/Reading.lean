import Packwright.Config.Keys

/-!
# Reading the values of a file

What each reader takes and what it rejects, and the rule by which readers are put in sequence.

* `Verdict blame post` is a step that yields what satisfies `post`, or fails with what satisfies
  `blame`.
* A value is taken if its key accepts it, and an absent one leaves the old value; a reader fails by
  naming its key, and only on account of a value that the key does not accept.
-/

namespace Packwright.Config

/-- A step that yields what satisfies a postcondition, or fails for a reason. -/
def Verdict {α : Type} (blame : MergeError → Prop) (post : α → Prop) : Except MergeError α → Prop
  | .ok a => post a
  | .error e => blame e

namespace Verdict

variable {α β : Type} {blame blame' : MergeError → Prop} {post post' : α → Prop} {after : β → Prop}

/-- Two readings one after the other: what is blamed is blamed by one of them, and the second may
use what the first has settled. -/
theorem bind {x : Except MergeError α} {f : α → Except MergeError β} (hx : Verdict blame post x)
    (hf : ∀ a, post a → Verdict blame after (f a)) : Verdict blame after (x >>= f) := by
  cases x with
  | error e => exact hx
  | ok a => exact hf a hx

/-- A verdict may be weakened on both sides. -/
theorem mono {x : Except MergeError α} (hx : Verdict blame post x)
    (hblame : ∀ e, blame e → blame' e) (hpost : ∀ a, post a → post' a) :
    Verdict blame' post' x := by
  cases x with
  | error e => exact hblame e hx
  | ok a => exact hpost a hx

end Verdict

/-- The key that an error refers to. -/
def Error.field? : Error → Option String
  | notATable _ => none
  | notABoolean field => some field
  | notAText field => some field
  | notAList field => some field
  | notOnlyTexts field => some field
  | notPositive field => some field
  | tooGreat field => some field
  | noCommand engine => some ("engines." ++ engine)

/-! ## Readers -/

/-- What is there is accepted and taken; if nothing is there, the old value stays. -/
def Takes (kind : Kind) (there? : Option Value) (old new : Value) : Prop :=
  (∀ v, there? = some v → kind.Accepts v) ∧ new = there?.getD old

/-- A failure that names a key, on account of what is there. -/
def Rejects (kind : Kind) (field : String) (there? : Option Value) (e : MergeError) : Prop :=
  ∃ cause v, e = .value cause ∧ cause.field? = some field ∧ there? = some v ∧ ¬ kind.Accepts v

/-- Where nothing is written the old value stays. -/
theorem takes_none (kind : Kind) (old : Value) : Takes kind none old old :=
  ⟨fun _ h => (nomatch h), rfl⟩

/-- Where something acceptable is written, it is the new value. -/
theorem takes_some {kind : Kind} {v : Value} (h : kind.Accepts v) (old : Value) :
    Takes kind (some v) old v :=
  ⟨fun _ heq => Option.some.inj heq ▸ h, rfl⟩

/-- Where something else is written, the error names its field. -/
theorem rejects_some {kind : Kind} {field : String} {v : Value} {cause : Error}
    (hcause : cause.field? = some field) (h : ¬ kind.Accepts v) :
    Rejects kind field (some v) (.value cause) :=
  ⟨cause, v, rfl, hcause, rfl, h⟩

/-- A list is read as texts exactly if it is a list of texts, and it is read in full. -/
theorem allTexts_eq_some_iff {items : List Value} {texts : List String} :
    allTexts items = some texts ↔ items = texts.map .text := by
  induction items generalizing texts with
  | nil => cases texts <;> simp [allTexts]
  | cons v items ih =>
    cases v with
    | text s =>
      rw [allTexts, Option.map_eq_some_iff]
      simp only [ih]
      constructor
      · rintro ⟨rest, rfl, rfl⟩
        rfl
      · intro h
        cases texts with
        | nil => exact nomatch h
        | cons t rest =>
          obtain ⟨hs, hrest⟩ := List.cons.inj h
          exact ⟨rest, hrest, by rw [Value.text.inj hs]⟩
    | _ => cases texts <;> simp [allTexts]

section Readers

variable (field : String) (v : Value)

/-- A truth value is taken if one is written. -/
theorem verdict_readBool (old : Bool) :
    Verdict (Rejects .truth field (present? v))
      (fun new => Takes .truth (present? v) (.bool old) (.bool new)) (readBool field v old) := by
  cases v with
  | null => exact takes_none .truth (.bool old)
  | bool b => exact takes_some (.truth b) (.bool old)
  | _ => exact rejects_some rfl (by rintro ⟨⟩)

/-- A text is taken if it is not empty. -/
theorem verdict_readText (old : String) :
    Verdict (Rejects .text field (present? v))
      (fun new => Takes .text (present? v) (.text old) (.text new)) (readText field v old) := by
  cases v with
  | null => exact takes_none .text (.text old)
  | text s =>
    unfold readText
    dsimp only
    split
    · rename_i hempty
      -- an empty text is a text, and yet it is not accepted
      refine rejects_some rfl fun h => ?_
      cases h with
      | text hne => exact hne (String.isEmpty_iff.mp hempty)
    · rename_i hne
      exact takes_some (.text fun heq => hne (String.isEmpty_iff.mpr heq)) (.text old)
  | _ => exact rejects_some rfl (by rintro ⟨⟩)

/-- A list is taken if it has texts only; a null is written, and it is no list. -/
theorem verdict_readTexts (there? : Option Value) (old : List String) :
    Verdict (Rejects .texts field there?)
      (fun new => Takes .texts there? (.texts old) (.texts new)) (readTexts field there? old) := by
  cases there? with
  | none => exact takes_none .texts (.texts old)
  | some v =>
    cases v with
    | list items =>
      unfold readTexts
      dsimp only
      cases htexts : allTexts items with
      | none =>
        -- had the list texts only, the reader would have found them
        refine rejects_some rfl fun h => ?_
        obtain ⟨texts, heq⟩ : ∃ texts : List String, items = texts.map .text := by
          cases h with
          | texts texts => exact ⟨texts, rfl⟩
        rw [allTexts_eq_some_iff.mpr heq] at htexts
        exact nomatch htexts
      | some texts =>
        have hlist : Value.list items = .texts texts :=
          congrArg Value.list (allTexts_eq_some_iff.mp htexts)
        rw [hlist]
        exact takes_some (.texts texts) (.texts old)
    | _ => exact rejects_some rfl (by rintro ⟨⟩)

/-- A time is taken if it is a positive whole number. -/
theorem verdict_readDebounce (old : Nat) :
    Verdict (Rejects .time field (present? v))
      (fun new : Nat => Takes .time (present? v) (.int old) (.int new))
      (readDebounce field v old) := by
  cases v with
  | null => exact takes_none .time (.int old)
  | int ms =>
    show Verdict _ _ (checkDebounce field ms)
    -- too small a time is found first, and one that is neither is kept as it is
    unfold checkDebounce
    split
    · rename_i hsmall
      refine rejects_some rfl ?_
      rintro ⟨hpos, -⟩
      omega
    · rename_i hpos
      split
      · rename_i hgreat
        refine rejects_some rfl ?_
        rintro ⟨-, hle⟩
        omega
      · have hnat : ((ms.toNat : Nat) : Int) = ms := by omega
        show Takes .time (some (.int ms)) (.int old) (.int (ms.toNat : Nat))
        rw [hnat]
        exact takes_some (.time (by omega) (by omega)) (.int old)
  | _ => exact rejects_some rfl (by rintro ⟨⟩)

end Readers

end Packwright.Config
