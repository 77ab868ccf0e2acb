import Packwright.Proofs.Channel.Numbering
import Packwright.Proofs.Json.RoundTrip
import Packwright.Proofs.Value

/-!
# Lines that end a request

An answer names a request by the text of a field, whatever value that field has. Only a text can
name an id that a channel has given out, since nothing else in a document is displayed like one.

* `says_iff`: what an answer says is its result or the error that it describes.
* `ofLine_eq_answer_iff`: a line is an answer under an id that a channel has given out exactly if
  it ends the request with that id.
-/

namespace Packwright.Message

/-! ## What a line holds -/

/-- A line that holds the fields of a table is read as what they say. -/
theorem ofLine_of_holds {line : List Char} {fields : Value.Fields} (h : Holds line fields) :
    ofLine line = ofFields fields := by
  obtain ⟨document, hdecode, hread⟩ := h
  have hne : (Text.trim Text.isAsciiBlank line).isEmpty = false := by
    cases htrim : Text.trim Text.isAsciiBlank line with
    | cons c rest => rfl
    | nil =>
      -- nothing is no document
      exfalso
      rw [htrim] at hdecode
      have hempty : document = [] := by
        simpa [Text.Encoding.decodeLine?, Text.Encoding.ofStart, Text.Utf8.encodeChars,
          Text.Encoding.dropMark, eq_comm] using hdecode
      rw [hempty] at hread
      simp [Json.read, Json.readWithin, Json.readDocument, Json.readValue, Json.skipSpace,
        Json.complain, bind, Except.bind] at hread
  simp [ofLine, hne, hdecode, hread]

/-- A line says nothing, or cannot be understood, or says what the table says that it holds. -/
theorem ofLine_cases (line : List Char) :
    ofLine line = .nothing ∨ ofLine line = .garbled ∨ ofLine line = .unreadable ∨
      ∃ fields, Holds line fields ∧ ofLine line = ofFields fields := by
  unfold ofLine
  dsimp only
  split
  · exact Or.inl rfl
  · split
    · exact Or.inr (Or.inr (Or.inl rfl))
    · rename_i document hdecode
      split
      · rename_i fields hread
        exact Or.inr (Or.inr (Or.inr ⟨fields, ⟨document, hdecode, hread⟩, rfl⟩))
      · exact Or.inl rfl
      · exact Or.inr (Or.inr (Or.inl rfl))
      · exact Or.inr (Or.inl rfl)

/-- Every answer comes from a line that holds a table without the name of something to call. -/
theorem holds_of_answer {line : List Char} {id : String} {outcome : Except EngineError Value}
    (h : ofLine line = .answer id outcome) :
    ∃ fields, Holds line fields ∧ fields.get? "callback" = none ∧ idOf (fields.get? "id") = id ∧
      outcomeOf fields = outcome := by
  rcases ofLine_cases line with hmessage | hmessage | hmessage | ⟨fields, hholds, hmessage⟩ <;> rw [hmessage] at h
  iterate 3 cases h
  unfold ofFields at h
  split at h
  · cases h
  · rename_i hcall
    cases h
    exact ⟨fields, hholds, hcall, rfl, rfl⟩

/-! ## What an answer says -/

/-- The error of a refusal is made of its two details, each with its default. An error that is no
table has neither. -/
theorem errorOf_eq (fields : Value.Fields) :
    errorOf (fields.get? "error") =
      ⟨detail fields "code" "ENGINE_ERROR", detail fields "message" "Engine request failed."⟩ := by
  have hdetail : ∀ (inner : Value.Fields) (key default : String),
      fields.get? "error" = some (.table inner) →
        ((inner.get? key).map Value.display).getD default = detail fields key default := by
    intro inner key default herror
    have hfield : (Value.table inner).field? key = inner.get? key := rfl
    unfold detail
    rw [herror, Option.bind_some, hfield]
    cases inner.get? key <;> rfl
  unfold errorOf
  -- an error that is missing, or no table, has no details to read
  cases herror : fields.get? "error" with
  | none => unfold detail; rw [herror]; rfl
  | some e =>
    cases e with
    | table inner =>
      exact congrArg₂ EngineError.mk (hdetail inner _ _ herror) (hdetail inner _ _ herror)
    | _ => unfold detail; rw [herror]; rfl

/-- What fields say about a request, as a relation, is what the reader of answers computes. -/
theorem says_iff {fields : Value.Fields} {outcome : Except EngineError Value} :
    Says fields outcome ↔ outcomeOf fields = outcome := by
  constructor
  · intro h
    cases h with
    | result hok => simp [outcomeOf, hok]
    | refusal hok =>
      rw [← errorOf_eq]
      unfold outcomeOf
      split
      · rename_i hok'
        exact absurd hok' hok
      · rfl
  · rintro rfl
    unfold outcomeOf
    split
    · rename_i hok
      exact .result hok
    · rename_i hok
      rw [errorOf_eq]
      exact .refusal hok

/-! ## What an answer names -/

/-- In a document, only the text of an id that a channel has given out names it. -/
theorem idOf_eq_idText_iff {line : List Char} {fields : Value.Fields} (h : Holds line fields)
    (n : Nat) :
    idOf (fields.get? "id") = Channel.idText n ↔
      fields.get? "id" = some (.text (Channel.idText n)) := by
  obtain ⟨document, -, hread⟩ := h
  have hhead : (Channel.idText n).toList.head? = some 'r' := by simp [Channel.idText]
  -- an id that is shown like a text with a letter in front is that text
  have hiff : ∀ v : Value, (∀ t, v ≠ .stamp t) →
      (v.display = Channel.idText n ↔ v = .text (Channel.idText n)) :=
    fun v hv => Value.display_eq_iff_of_head hhead hv
  unfold idOf
  cases hid : fields.get? "id" with
  | none => simpa using hiff .null (by simp)
  | some v =>
    have hv : ∀ t, v ≠ .stamp t := fun t heq => Json.get?_ne_stamp hread "id" t (heq ▸ hid)
    simpa using hiff v hv

/-- **A line is the answer to a request of a channel exactly if it ends it.** -/
theorem ofLine_eq_answer_iff {line : List Char} {n : Nat} {outcome : Except EngineError Value} :
    ofLine line = .answer (Channel.idText n) outcome ↔ Ends line (Channel.idText n) outcome := by
  constructor
  · intro h
    obtain ⟨fields, hholds, hcall, hid, hsays⟩ := holds_of_answer h
    exact ⟨fields, hholds, hcall, (idOf_eq_idText_iff hholds n).mp hid, says_iff.mpr hsays⟩
  · rintro ⟨fields, hholds, hcall, hid, hsays⟩
    rw [ofLine_of_holds hholds, ofFields, hcall, (idOf_eq_idText_iff hholds n).mpr hid,
      says_iff.mp hsays]

end Packwright.Message
