import Mathlib.Data.List.TakeWhile
import Packwright.Proofs.Dictionary
import Packwright.Proofs.Json.Numbers
import Packwright.Proofs.Json.Writing
import Packwright.Proofs.Text.Utf8
import Packwright.Proofs.Traversal

/-!
# What is written is read back

A document that has been written is read as the value that it was written from (`read_write`), if
that value is one that documents can hold at all: its integers are not too long to be read, its
other numbers are in the form that rounding gives them, no key stands twice in a table, and it has
no dates. Whatever is read is such a value (`isReadable_of_read`).

* `readText_writeText`: a text is read by its characters, each from its escape.
* `exists_head_of_readValue`: no value starts with what separates values, so that nothing is skipped
  before it and no list or table ends early.
* `IsReadableWithin.readsBack` goes by the parts of a value. A part is read from what it is written as
  with whatever stands behind it, and as much fuel as it has characters is enough.
-/

namespace Packwright.Json

open Packwright.Text

variable {limit? : Option Nat}

/-! ## Texts -/

theorem hexDigit?_hexChar : ∀ n < 16, hexDigit? (hexChar n) = some n := by decide

/-- And so do four of them. -/
theorem readHex4?_hexDigits {n : Nat} (hn : n < 0x10000) (rest : List Char) :
    readHex4? (hexDigits 4 n ++ rest) = some (n, rest) := by
  have hdigits : hexDigits 4 n =
      [hexChar (n / 16 / 16 / 16 % 16), hexChar (n / 16 / 16 % 16), hexChar (n / 16 % 16),
        hexChar (n % 16)] := rfl
  have hdigit : ∀ k, hexDigit? (hexChar (k % 16)) = some (k % 16) := fun k =>
    hexDigit?_hexChar _ (Nat.mod_lt _ (by decide))
  rw [hdigits]
  simp only [readHex4?, List.cons_append, List.nil_append, List.mapM_cons, List.mapM_nil, hdigit]
  show some (ofDigits 16 _, rest) = _
  simp only [ofDigits, List.foldl_cons, List.foldl_nil]
  congr 2
  omega

/-- A character of the first plane is read from its code unit. -/
theorem readUnicode_unit {c : Char} (hc : c.toNat < 0x10000) {rest : List Char}
    (hrest : rest ≠ []) :
    readUnicode ('u' :: (hexDigits 4 c.toNat ++ rest)) = .ok (c, rest) := by
  have hhigh : Utf16.isHighSurrogate c.toNat = false := by
    rcases Utf8.char_valid c with hlow | ⟨hgreat, -⟩ <;> simp [Utf16.isHighSurrogate] <;> omega
  have hlow : Utf16.isLowSurrogate c.toNat = false := by
    rcases Utf8.char_valid c with hsmall | ⟨hgreat, -⟩ <;> simp [Utf16.isLowSurrogate] <;> omega
  obtain ⟨d, rest, rfl⟩ := List.exists_cons_of_ne_nil hrest
  simp [readUnicode, readHex4?_hexDigits hc, hhigh, Utf16.unitChar, hlow]

/-- The two code units of a character beyond the first plane are a pair that stands for it. -/
theorem surrogates_spec {c : Char} (hc : 0x10000 ≤ c.toNat) :
    Utf16.isHighSurrogate (Utf16.surrogates c).1 = true ∧
      Utf16.isLowSurrogate (Utf16.surrogates c).2 = true ∧
      Utf16.ofSurrogates (Utf16.surrogates c).1 (Utf16.surrogates c).2 = c := by
  -- twenty bits are left above the first plane, ten for each half
  have hlast : c.toNat < 0x110000 := by
    rcases Utf8.char_valid c with hlow | ⟨-, hgreat⟩ <;> omega
  have hunits : (Utf16.surrogates c).1 = 0xd800 + (c.toNat - 0x10000) / 0x400 ∧
      (Utf16.surrogates c).2 = 0xdc00 + (c.toNat - 0x10000) % 0x400 := ⟨rfl, rfl⟩
  obtain ⟨hhigh, hlow⟩ := hunits
  refine ⟨?_, ?_, ?_⟩
  · rw [hhigh, Utf16.isHighSurrogate, Bool.and_eq_true, decide_eq_true_eq, decide_eq_true_eq]
    omega
  · rw [hlow, Utf16.isLowSurrogate, Bool.and_eq_true, decide_eq_true_eq, decide_eq_true_eq]
    omega
  · have hcode : 0x10000 + ((Utf16.surrogates c).1 - 0xd800) * 0x400 +
        ((Utf16.surrogates c).2 - 0xdc00) = c.toNat := by omega
    rw [Utf16.ofSurrogates, hcode, Char.ofNat_toNat]

/-- A pair of code units is read as the character that it stands for. -/
theorem readUnicode_pair {high low : Nat} (hhigh : Utf16.isHighSurrogate high = true)
    (hlow : Utf16.isLowSurrogate low = true) {rest : List Char} (hrest : rest ≠ []) :
    readUnicode ('u' :: (hexDigits 4 high ++ '\\' :: 'u' :: (hexDigits 4 low ++ rest))) =
      .ok (Utf16.ofSurrogates high low, rest) := by
  have hsmall : high < 0x10000 ∧ low < 0x10000 := by
    simp only [Utf16.isHighSurrogate, Utf16.isLowSurrogate, Bool.and_eq_true,
      decide_eq_true_eq] at hhigh hlow
    omega
  have hfirst := readHex4?_hexDigits hsmall.1 ('\\' :: 'u' :: (hexDigits 4 low ++ rest))
  have hsecond := readHex4?_hexDigits hsmall.2 rest
  -- the reader looks for a second half only if enough characters follow
  have hlength : 6 < ('\\' :: 'u' :: (hexDigits 4 low ++ rest)).length := by
    have hpos := List.length_pos_iff.mpr hrest
    rw [List.length_cons, List.length_cons, List.length_append, length_hexDigits]
    omega
  have hjoined : (Utf16.isHighSurrogate high &&
      decide (6 < ('\\' :: 'u' :: (hexDigits 4 low ++ rest)).length)) = true := by
    rw [hhigh, Bool.true_and, decide_eq_true hlength]
  simp only [readUnicode, List.drop_succ_cons, List.drop_zero, hfirst, hjoined, if_true, hsecond,
    hlow]

/-- The escape of a code unit is read by its digits. -/
theorem readTextFrom_unicode {start digits rest : List Char} {c : Char}
    (h : readUnicode ('u' :: digits) = .ok (c, rest)) (fuel : Nat) :
    readTextFrom start (fuel + 1) ('\\' :: 'u' :: digits) =
      (readTextFrom start fuel rest).map fun found => (c :: found.1, found.2) := by
  have hback : ('\\' : Char) ≠ '"' := by decide
  conv_lhs => unfold readTextFrom
  simp only [if_neg hback, if_true, h, Bind.bind, Except.bind]
  cases readTextFrom start fuel rest <;> rfl

/-- The short escape of a character is read as the character. -/
theorem readTextFrom_short {start rest : List Char} {e c : Char} (h : shortEscape? e = some c)
    (fuel : Nat) :
    readTextFrom start (fuel + 1) ('\\' :: e :: rest) =
      (readTextFrom start fuel rest).map fun found => (c :: found.1, found.2) := by
  have hback : ('\\' : Char) ≠ '"' := by decide
  -- the letter u opens a numbered escape, which is not among the short ones
  have hletter : e ≠ 'u' := by
    rintro rfl
    have hnone : shortEscape? 'u' = none := by decide
    exact absurd h (by simp [hnone])
  conv_lhs => unfold readTextFrom
  rw [if_neg hback, if_pos rfl]
  split
  · rename_i heq
    exact absurd heq (by simp)
  · rename_i heq
    exact absurd (List.cons.inj heq).1 hletter
  · rename_i heq
    obtain ⟨rfl, rfl⟩ := List.cons.inj heq
    simp only [h, Bind.bind, Except.bind]
    cases readTextFrom start fuel rest <;> rfl

/-- **A character is read from what it is written as.** -/
theorem readTextFrom_escapeChar (start : List Char) (fuel : Nat) (c : Char) {rest : List Char}
    (hrest : rest ≠ []) :
    readTextFrom start (fuel + 1) (escapeChar c ++ rest) =
      (readTextFrom start fuel rest).map fun found => (c :: found.1, found.2) := by
  unfold escapeChar
  split
  -- the characters that have short escapes
  iterate 7 exact readTextFrom_short (by decide) fuel
  · rename_i hquote hback _ _ _ _ _
    split
    · rename_i hshown
      refine readTextFrom_verbatim ?_ fuel
      simp only [isVerbatim, Bool.and_eq_true, bne_iff_ne, decide_eq_true_eq]
      exact ⟨⟨fun h => hquote h, fun h => hback h⟩, hshown.1⟩
    · split
      · rename_i hsmall
        exact readTextFrom_unicode (readUnicode_unit hsmall hrest) fuel
      · rename_i hgreat
        obtain ⟨hhigh, hlow, hchar⟩ := surrogates_spec (c := c) (by omega)
        have hpair := readUnicode_pair hhigh hlow hrest
        rw [hchar] at hpair
        rw [List.append_assoc]
        exact readTextFrom_unicode hpair fuel

/-- Every character is written as something, so the fuel of the reader lasts. -/
theorem length_escapeChar_pos (c : Char) : 0 < (escapeChar c).length := by
  unfold escapeChar
  repeat' split
  all_goals simp [unitEscape]

/-- **A text is read from what it is written as.** -/
theorem readText_writeText (s : String) (rest : List Char) :
    readText (s.toList.flatMap escapeChar ++ '"' :: rest) = .ok (s, rest) := by
  have hfrom : ∀ (start s : List Char) (fuel : Nat), (s.flatMap escapeChar).length < fuel →
      readTextFrom start fuel (s.flatMap escapeChar ++ '"' :: rest) = .ok (s, rest) := by
    intro start s
    induction s with
    | nil =>
      intro fuel hfuel
      obtain ⟨more, rfl⟩ : ∃ more, fuel = more + 1 := ⟨fuel - 1, by simp at hfuel; omega⟩
      simp [readTextFrom]
    | cons c more ih =>
      intro fuel hfuel
      rw [List.flatMap_cons, List.length_append] at hfuel
      -- a character takes one unit of fuel and is written as at least one character
      have hwritten := length_escapeChar_pos c
      obtain ⟨less, rfl⟩ : ∃ less, fuel = less + 1 := ⟨fuel - 1, by omega⟩
      rw [List.flatMap_cons, List.append_assoc, readTextFrom_escapeChar _ _ _ (by simp),
        ih less (by omega)]
      rfl
  unfold readText
  rw [hfrom _ _ _ (by rw [List.length_append]; omega)]
  show Except.ok (String.ofList s.toList, rest) = _
  rw [String.ofList_toList]

/-! ## Where a value starts -/

/-- Where a number is read there is a digit, with a sign before it or not. -/
theorem exists_digit_of_readNumber {s : List Char} {found : Value × List Char}
    (h : readNumber limit? s = .ok found) :
    ∃ d more, d.isDigit = true ∧ (s = d :: more ∨ s = '-' :: d :: more) := by
  have hwhole : ∀ body : List Char, (takeWhole body).1 ≠ [] →
      ∃ d more, d.isDigit = true ∧ body = d :: more := by
    intro body hne
    unfold takeWhole at hne
    split at hne
    · exact ⟨'0', _, by decide, rfl⟩
    · cases body with
      | nil => exact absurd rfl hne
      | cons d more =>
        refine ⟨d, more, ?_, rfl⟩
        by_contra hd
        exact hne (by simp [takeDigits, hd])
  unfold readNumber at h
  split at h
  rename_i negative body hsign
  -- without a whole part there is a complaint
  have hne : (takeWhole body).1 ≠ [] := by
    intro hnil
    rcases hread : takeWhole body with ⟨whole, rest⟩
    rw [hread] at h hnil
    obtain rfl : whole = [] := hnil
    exact absurd h (by simp [complain])
  obtain ⟨d, more, hd, rfl⟩ := hwhole body hne
  refine ⟨d, more, hd, ?_⟩
  split at hsign
  · obtain ⟨-, rfl⟩ := Prod.mk.inj hsign
    exact .inr rfl
  · obtain ⟨-, rfl⟩ := Prod.mk.inj hsign
    exact .inl rfl

/-- No word starts with a sign and a digit. -/
theorem readWord?_of_sign {d : Char} (hd : d.isDigit = true) (s : List Char) :
    readWord? ('-' :: d :: s) = none := by
  have hne : 'I' ≠ d := by
    rintro rfl
    exact absurd hd (by decide)
  simp [readWord?, words, hne]

/-- What is read as a number is read as a value. -/
theorem readValue_of_readNumber {s : List Char} {found : Value × List Char}
    (h : readNumber limit? s = .ok found) (fuel : Nat) : readValue limit? (fuel + 1) s = .ok found := by
  obtain ⟨d, more, hd, rfl | rfl⟩ := exists_digit_of_readNumber h
  · rw [readValue_of_isDigit hd]
    exact h
  · rw [readValue_of_head (by decide) (by decide) (by decide), readWord?_of_sign hd]
    exact h

/-- What separates values or ends a list or a table. -/
def IsBetween (c : Char) : Prop :=
  isSpace c = true ∨ c = ']' ∨ c = '\x7d'

/-- No value starts with what stands between values. -/
theorem exists_head_of_readValue {fuel : Nat} {s : List Char} {found : Value × List Char}
    (h : readValue limit? fuel s = .ok found) : ∃ c more, s = c :: more ∧ ¬ IsBetween c := by
  cases fuel with
  | zero => exact absurd h (by simp [readValue, complain])
  | succ fuel =>
    cases s with
    | nil => exact absurd h (by simp [readValue, complain])
    | cons c more =>
      refine ⟨c, more, rfl, fun hbetween => ?_⟩
      -- a space or a separator opens nothing: it is tried as a number, which needs a digit
      have hnone : ∀ c : Char, IsBetween c → c.isDigit = false ∧ c ≠ '-' ∧
          readValue limit? (fuel + 1) (c :: more) = readNumber limit? (c :: more) := by
        intro c hc
        simp only [IsBetween, isSpace, Bool.or_eq_true, beq_iff_eq, or_assoc] at hc
        rcases hc with rfl | rfl | rfl | rfl | rfl | rfl <;>
          exact ⟨by decide, by decide, by
            rw [readValue_of_head (by decide) (by decide) (by decide)]; simp [readWord?, words]⟩
      obtain ⟨hdigit, hsign, hread⟩ := hnone c hbetween
      obtain ⟨d, rest, hd, heq | heq⟩ := exists_digit_of_readNumber (hread ▸ h)
      · exact absurd hd (by rw [← (List.cons.inj heq).1, hdigit]; decide)
      · exact absurd (List.cons.inj heq).1 hsign

/-! ## Values -/

/-- Whether a value can be read: no integer in it is longer than the limit, every other number in it
is in the form that rounding gives it, no key stands twice in a table, and there are no dates. -/
inductive IsReadableWithin (limit? : Option Nat) : Value → Prop where
  | null : IsReadableWithin limit? .null
  | bool (b : Bool) : IsReadableWithin limit? (.bool b)
  | int {i : Int} (hshort : ∀ limit ∈ limit?, Binary64.digitCount i.natAbs ≤ limit) :
      IsReadableWithin limit? (.int i)
  | real {x : Binary64} (hnormal : x.IsNormal) : IsReadableWithin limit? (.real x)
  | text (s : String) : IsReadableWithin limit? (.text s)
  | list {items : List Value} (hitems : ∀ v ∈ items, IsReadableWithin limit? v) :
      IsReadableWithin limit? (.list items)
  | table {fields : Value.Fields} (hkeys : (Dictionary.keys fields).Nodup)
      (hfields : ∀ p ∈ fields, IsReadableWithin limit? p.2) : IsReadableWithin limit? (.table fields)

abbrev IsReadable : Value → Prop :=
  IsReadableWithin (some maxDigits)

/-- Whether a value is read from what it is written as, whatever ends it. -/
def ReadsBack (limit? : Option Nat) (v : Value) : Prop :=
  ∀ (fuel : Nat) (rest : List Char), (writeChars v).length ≤ fuel → IsEnd rest →
    readValue limit? fuel (writeChars v ++ rest) = .ok (v, rest)

/-- A value that reads back begins with a character that is neither a space nor a separator. -/
theorem ReadsBack.exists_head {v : Value} (h : ReadsBack limit? v) :
    ∃ c more, writeChars v = c :: more ∧ ¬ IsBetween c := by
  have hread := h _ [] le_rfl (by simp [IsEnd])
  rw [List.append_nil] at hread
  exact exists_head_of_readValue hread

theorem skipSpace_writeChars {v : Value} (h : ReadsBack limit? v) (rest : List Char) :
    skipSpace (writeChars v ++ rest) = writeChars v ++ rest := by
  obtain ⟨c, more, heq, hc⟩ := h.exists_head
  rw [heq, List.cons_append]
  exact skipSpace_cons (by simpa using fun hspace => hc (.inl hspace)) _

/-- A comma and the two closing brackets end a number. -/
theorem isEnd_cons {c : Char} (h : c = ',' ∨ c = ']' ∨ c = '\x7d') (rest : List Char) :
    IsEnd (c :: rest) := by
  intro d hd
  obtain rfl : c = d := Option.some.inj hd
  exact h

/-- A list begins with its first value. -/
theorem writeItems_cons (v : Value) (more : List Value) :
    ∃ behind, writeItems (v :: more) = writeChars v ++ behind := by
  cases more with
  | nil => exact ⟨[], by simp [writeItems]⟩
  | cons w more => exact ⟨_, rfl⟩

theorem skipSpace_writeItems {v : Value} (h : ReadsBack limit? v) (more : List Value) (rest : List Char) :
    skipSpace (writeItems (v :: more) ++ rest) = writeItems (v :: more) ++ rest := by
  obtain ⟨behind, heq⟩ := writeItems_cons v more
  rw [heq, List.append_assoc]
  exact skipSpace_writeChars h _

/-- The items of a list read back. -/
theorem readItems_writeItems {items : List Value} (hitems : ∀ v ∈ items, ReadsBack limit? v)
    (hne : items ≠ []) (rest : List Char) (fuel : Nat) (hfuel : (writeItems items).length < fuel) :
    readItems limit? fuel (writeItems items ++ ']' :: rest) = .ok (items, rest) := by
  induction items generalizing fuel with
  | nil => exact absurd rfl hne
  | cons v more ih =>
    obtain ⟨hv, hmore⟩ := List.forall_mem_cons.mp hitems
    obtain ⟨fuel, rfl⟩ : ∃ less, fuel = less + 1 := ⟨fuel - 1, by omega⟩
    unfold readItems
    cases more with
    | nil =>
      -- the last element, which the bracket ends
      rw [writeItems] at hfuel ⊢
      have hclose : skipSpace (']' :: rest) = ']' :: rest := skipSpace_cons (by decide) _
      rw [hv fuel _ (by omega) (isEnd_cons (by decide) rest)]
      simp only [Bind.bind, Except.bind, hclose]
      rfl
    | cons w more =>
      have hwritten : writeItems (v :: w :: more) =
          writeChars v ++ ',' :: ' ' :: writeItems (w :: more) := rfl
      rw [hwritten] at hfuel ⊢
      simp only [List.length_append, List.length_cons] at hfuel
      have hread := ih hmore (by simp) fuel (by omega)
      have hskip : skipSpace (' ' :: (writeItems (w :: more) ++ ']' :: rest)) =
          writeItems (w :: more) ++ ']' :: rest :=
        skipSpace_writeItems (hmore w List.mem_cons_self) more _
      generalize writeItems (w :: more) = behind at *
      have hcomma : skipSpace (',' :: ' ' :: (behind ++ ']' :: rest)) =
          ',' :: ' ' :: (behind ++ ']' :: rest) := skipSpace_cons (by decide) _
      rw [List.append_assoc, List.cons_append, List.cons_append,
        hv fuel _ (by omega) (isEnd_cons (c := ',') (by decide) _)]
      simp only [Bind.bind, Except.bind, hcomma, hskip, hread]
      rfl

/-- The fields of a table begin with a quotation mark. -/
theorem writeFields_cons (p : String × Value) (more : Value.Fields) :
    ∃ behind, writeFields (p :: more) = '"' :: behind := by
  cases more with
  | nil => exact ⟨_, rfl⟩
  | cons q more => exact ⟨_, rfl⟩

/-- One field is read, whatever is behind its value. -/
theorem readFields_writeField {done : Value.Fields} {key : String} {v : Value}
    (hnew : key ∉ Dictionary.keys done) (hv : ReadsBack limit? v) {behind : List Char}
    (hend : IsEnd behind) {fuel : Nat} (hfuel : (writeChars v).length ≤ fuel) :
    readFields limit? (fuel + 1) done (writeText key ++ ':' :: ' ' :: (writeChars v ++ behind)) =
      match skipSpace behind with
      | '\x7d' :: rest => .ok (done ++ [(key, v)], rest)
      | ',' :: rest => readFields limit? fuel (done ++ [(key, v)]) (skipSpace rest)
      | rest => complain .comma rest := by
  have hcolon : skipSpace (':' :: ' ' :: (writeChars v ++ behind)) =
      ':' :: ' ' :: (writeChars v ++ behind) := skipSpace_cons (by decide) _
  -- the value has no space of its own in front
  have hskip : skipSpace (' ' :: (writeChars v ++ behind)) = writeChars v ++ behind :=
    skipSpace_writeChars hv behind
  rw [writeText, List.cons_append, List.cons_append, List.append_assoc, List.cons_append,
    List.nil_append]
  conv_lhs => unfold readFields
  simp only [readText_writeText, Bind.bind, Except.bind, hcolon, hskip, hv fuel _ hfuel hend,
    Dictionary.put_of_not_mem_keys v hnew]
  rfl

/-- The fields of a table read back, in their order, if no key comes twice. -/
theorem readFields_writeFields {fields : Value.Fields} (hfields : ∀ p ∈ fields, ReadsBack limit? p.2)
    (hne : fields ≠ []) (done : Value.Fields) (hkeys : (Dictionary.keys (done ++ fields)).Nodup)
    (rest : List Char) (fuel : Nat) (hfuel : (writeFields fields).length < fuel) :
    readFields limit? fuel done (writeFields fields ++ '\x7d' :: rest) = .ok (done ++ fields, rest) := by
  induction fields generalizing fuel done with
  | nil => exact absurd rfl hne
  | cons p more ih =>
    obtain ⟨key, v⟩ := p
    obtain ⟨(hv : ReadsBack limit? v), hmore⟩ := List.forall_mem_cons.mp hfields
    obtain ⟨fuel, rfl⟩ : ∃ less, fuel = less + 1 := ⟨fuel - 1, by omega⟩
    -- a key that was there would be overwritten in its old place
    have hnew : key ∉ Dictionary.keys done := by
      rw [Dictionary.keys, List.map_append, List.nodup_append] at hkeys
      exact fun hmem => hkeys.2.2 key hmem key List.mem_cons_self rfl
    cases more with
    | nil =>
      have hclose : skipSpace ('\x7d' :: rest) = '\x7d' :: rest := skipSpace_cons (by decide) _
      rw [writeFields] at hfuel ⊢
      simp only [List.length_append, List.length_cons] at hfuel
      simp only [List.append_assoc, List.cons_append]
      rw [readFields_writeField hnew hv (isEnd_cons (by decide) rest) (by omega), hclose]
      rfl
    | cons q more =>
      have hwritten : writeFields ((key, v) :: q :: more) =
          writeText key ++ ':' :: ' ' :: writeChars v ++ ',' :: ' ' :: writeFields (q :: more) :=
        rfl
      rw [hwritten] at hfuel ⊢
      simp only [List.length_append, List.length_cons] at hfuel
      have hread := ih hmore (by simp) (done ++ [(key, v)]) (by simpa using hkeys) fuel
        (by omega)
      obtain ⟨behind, hquote⟩ := writeFields_cons q more
      have hskip : skipSpace (' ' :: (writeFields (q :: more) ++ '\x7d' :: rest)) =
          writeFields (q :: more) ++ '\x7d' :: rest := by
        rw [hquote]
        exact skipSpace_cons (c := '"') (by decide) _
      generalize writeFields (q :: more) = behind at *
      have hcomma : skipSpace (',' :: ' ' :: (behind ++ '\x7d' :: rest)) =
          ',' :: ' ' :: (behind ++ '\x7d' :: rest) := skipSpace_cons (by decide) _
      simp only [List.append_assoc, List.cons_append]
      rw [readFields_writeField hnew hv (isEnd_cons (c := ',') (by decide) _) (by omega), hcomma]
      show readFields limit? fuel _ (skipSpace (' ' :: _)) = _
      rw [hskip, hread, List.append_assoc, List.singleton_append]

/-- A value without parts is read with any fuel at all. -/
theorem readsBack_of_succ {v : Value} (hne : writeChars v ≠ [])
    (h : ∀ fuel rest, IsEnd rest → readValue limit? (fuel + 1) (writeChars v ++ rest) = .ok (v, rest)) :
    ReadsBack limit? v := by
  intro fuel rest hfuel hrest
  have hpos := List.length_pos_iff.mpr hne
  obtain ⟨fuel, rfl⟩ : ∃ less, fuel = less + 1 := ⟨fuel - 1, by omega⟩
  exact h fuel rest hrest

/-- A value that is written as a number reads back if the number does. -/
theorem readsBack_of_readNumber {v : Value}
    (h : ∀ rest : List Char, IsEnd rest → readNumber limit? (writeChars v ++ rest) = .ok (v, rest)) :
    ReadsBack limit? v := by
  refine readsBack_of_succ ?_ fun fuel rest hrest => readValue_of_readNumber (h rest hrest) fuel
  intro hnil
  have hread := h [] (by simp [IsEnd])
  rw [hnil] at hread
  obtain ⟨d, more, -, heq | heq⟩ := exists_digit_of_readNumber hread <;>
    exact absurd heq (by simp)

/-- A list reads back if its items do. -/
theorem readsBack_list {items : List Value} (h : ∀ v ∈ items, ReadsBack limit? v) :
    ReadsBack limit? (.list items) := by
  intro fuel rest hfuel _
  simp only [writeChars, List.length_append, List.length_cons, List.length_nil] at hfuel
  obtain ⟨fuel, rfl⟩ : ∃ less, fuel = less + 1 := ⟨fuel - 1, by omega⟩
  rw [writeChars, List.cons_append, List.cons_append, List.append_assoc, List.singleton_append]
  cases items with
  | nil => rfl
  | cons v more =>
    have hread := readItems_writeItems h (by simp) rest fuel (by omega)
    have hskip := skipSpace_writeItems (h v List.mem_cons_self) more (']' :: rest)
    obtain ⟨behind, heq⟩ := writeItems_cons v more
    obtain ⟨c, first, hfirst, hc⟩ := (h v List.mem_cons_self).exists_head
    -- the first element is no bracket, so the list does not end at once
    have hopen : writeItems (v :: more) ++ ']' :: rest =
        c :: (first ++ (behind ++ ']' :: rest)) := by
      rw [heq, hfirst, List.append_assoc, List.cons_append]
    rw [hopen] at hread hskip ⊢
    unfold readValue
    simp only [hskip]
    split
    · rename_i hclose
      exact absurd (.inr (.inl (List.cons.inj hclose).1)) hc
    · rw [hread]
      rfl

/-- A table reads back if its values do and its keys are distinct. -/
theorem readsBack_table {fields : Value.Fields} (hkeys : (Dictionary.keys fields).Nodup)
    (h : ∀ p ∈ fields, ReadsBack limit? p.2) : ReadsBack limit? (.table fields) := by
  intro fuel rest hfuel _
  simp only [writeChars, List.length_append, List.length_cons, List.length_nil] at hfuel
  obtain ⟨fuel, rfl⟩ : ∃ less, fuel = less + 1 := ⟨fuel - 1, by omega⟩
  rw [writeChars, List.cons_append, List.cons_append, List.append_assoc, List.singleton_append]
  cases fields with
  | nil => rfl
  | cons p more =>
    -- the brace is followed by the first key, so the table is not taken for the empty one
    have hread := readFields_writeFields h (by simp) [] hkeys rest fuel (by omega)
    obtain ⟨behind, heq⟩ := writeFields_cons p more
    have hskip : skipSpace ('"' :: (behind ++ '\x7d' :: rest)) =
        '"' :: (behind ++ '\x7d' :: rest) := skipSpace_cons (by decide) _
    rw [heq, List.cons_append] at hread ⊢
    unfold readValue
    simp only [hskip]
    show (readFields limit? fuel [] _ >>= _) = _
    rw [hread]
    rfl

/-- **A value that can be read is read from what it is written as.** -/
theorem IsReadableWithin.readsBack {v : Value} (h : IsReadableWithin limit? v) :
    ReadsBack limit? v := by
  induction h with
  | null => exact readsBack_of_succ (by decide) fun _ _ _ => rfl
  | bool b => cases b <;> exact readsBack_of_succ (by decide) fun _ _ _ => rfl
  | int hshort => exact readsBack_of_readNumber fun _ => readNumber_toString hshort
  | @real x hnormal =>
    cases x with
    | nan => exact readsBack_of_succ (by decide) fun _ _ _ => rfl
    | infinite negative => cases negative <;> exact readsBack_of_succ (by decide) fun _ _ _ => rfl
    | finite negative m e => exact readsBack_of_readNumber fun _ => readNumber_finite _ hnormal
  | text s =>
    refine readsBack_of_succ (by simp [writeChars, writeText]) fun fuel rest _ => ?_
    rw [writeChars, writeText, List.cons_append, List.cons_append, List.append_assoc,
      List.singleton_append]
    unfold readValue
    simp only [readText_writeText]
    rfl
  | list _ ih => exact readsBack_list ih
  | table hkeys _ ih => exact readsBack_table hkeys ih

/-! ## Documents -/

/-- **A document is read as the value that it was written from**, if that one can be read. -/
theorem readWithin_write {v : Value} (h : IsReadableWithin limit? v) :
    readWithin limit? (write v) = .ok v := by
  have hreads := h.readsBack
  have hshown := isShown_writeChars v
  have hvalue := hreads (2 * (writeChars v).length + 2) [] (by omega) (by simp [IsEnd])
  have hskip := skipSpace_writeChars hreads []
  rw [List.append_nil] at hvalue hskip
  have hdocument : readDocument limit? (writeChars v) = .ok v := by
    unfold readDocument
    split
    · -- a byte order mark is not written
      rename_i hmark
      rw [hmark] at hshown
      exact absurd (hshown _ List.mem_cons_self) (by decide)
    · rw [hskip, hvalue]
      rfl
  unfold readWithin write
  rw [String.toList_ofList, hdocument]

theorem read_write {v : Value} (h : IsReadable v) : read (write v) = .ok v :=
  readWithin_write h

/-! ## What is read -/

/-- Only digits are taken as a whole part. -/
theorem isDigit_of_mem_takeWhole (s : List Char) : ∀ d ∈ (takeWhole s).1, d.isDigit = true := by
  intro d hd
  unfold takeWhole at hd
  split at hd
  · rw [List.mem_singleton.mp hd]
    decide
  · rw [takeDigits] at hd
    exact List.mem_takeWhile_imp hd

/-- Fewer digits than a power of ten has make up a smaller number. -/
theorem natOfDigits_lt {ds : List Char} (h : ∀ d ∈ ds, d.isDigit = true) :
    natOfDigits ds < 10 ^ ds.length := by
  induction ds using List.reverseRecOn with
  | nil => decide
  | append_singleton ds d ih =>
    obtain ⟨hmore, hd⟩ := List.forall_mem_append.mp h
    -- a digit adds at most nine to ten times what is before it
    have hdigit : d.toNat - '0'.toNat ≤ 9 := by
      have hd : d.isDigit = true := hd d List.mem_cons_self
      simp only [Char.isDigit, Bool.and_eq_true, decide_eq_true_eq, ge_iff_le,
        UInt32.le_iff_toNat_le] at hd
      have hnine : d.toNat ≤ 0x39 := hd.2
      show d.toNat - 0x30 ≤ 9
      omega
    have hsum : natOfDigits (ds ++ [d]) = natOfDigits ds * 10 + (d.toNat - '0'.toNat) := by
      simp [natOfDigits, ofDigits]
    have hds := ih hmore
    rw [hsum, List.length_append, List.length_singleton, Nat.pow_succ]
    omega

/-- A number that was read has no more digits than the limit and is in its one form. -/
theorem isReadableWithin_of_readNumber {s : List Char} {v : Value} {rest : List Char}
    (h : readNumber limit? s = .ok (v, rest)) : IsReadableWithin limit? v := by
  unfold readNumber at h
  split at h
  rename_i negative body _
  have hdigits := isDigit_of_mem_takeWhole body
  split at h
  · exact absurd h (by simp [complain])
  · rename_i whole behind hnonempty hwhole
    rw [hwhole] at hdigits
    have hpos : 0 < whole.length := by
      cases whole with
      | nil => exact (hnonempty rfl).elim
      | cons => exact Nat.succ_pos _
    split at h
    split at h
    · split at h
      · exact absurd h (by simp)
      · rename_i hshort
        obtain ⟨rfl, -⟩ := Prod.mk.inj (Except.ok.inj h)
        -- a number has at most the digits that it is written with
        have hcount : Binary64.digitCount (natOfDigits whole) ≤ whole.length :=
          (Nat.length_toDigits_le_iff (by decide) hpos).mpr (natOfDigits_lt hdigits)
        refine .int fun limit hlimit => ?_
        rw [Option.mem_def.mp hlimit] at hshort
        have hwithin : whole.length ≤ limit := by simpa using hshort
        split
        · rw [Int.natAbs_neg, Int.natAbs_natCast]
          exact hcount.trans hwithin
        · rw [Int.natAbs_natCast]
          exact hcount.trans hwithin
    · obtain ⟨rfl, -⟩ := Prod.mk.inj (Except.ok.inj h)
      exact .real (Binary64.isNormal_ofDecimal _ _ _)
    · obtain ⟨rfl, -⟩ := Prod.mk.inj (Except.ok.inj h)
      exact .real (Binary64.isNormal_ofDecimal _ _ _)

/-- So is a word. -/
theorem isReadableWithin_of_readWord? {s : List Char} {v : Value} {rest : List Char}
    (h : readWord? s = some (v, rest)) : IsReadableWithin limit? v := by
  -- every word of the table stands for a readable value
  have hwords : ∀ p ∈ words, IsReadableWithin limit? p.2 := by
    intro p hp
    simp only [words, List.mem_cons, List.not_mem_nil, or_false] at hp
    rcases hp with rfl | rfl | rfl | rfl | rfl | rfl
    · exact .null
    · exact .bool true
    · exact .bool false
    · exact .real trivial
    · exact .real trivial
    · exact .real trivial
  obtain ⟨p, hp, hsome⟩ := List.exists_of_findSome?_eq_some h
  obtain ⟨word, w⟩ := p
  dsimp only at hsome
  split at hsome
  · obtain ⟨rfl, -⟩ := Prod.mk.inj (Option.some.inj hsome)
    exact hwords _ hp
  · exact absurd hsome (by simp)

/-- Whether what is read with some fuel can be read. -/
structure YieldsReadable (limit? : Option Nat) (fuel : Nat) : Prop where
  value : ∀ {s v rest}, readValue limit? fuel s = .ok (v, rest) → IsReadableWithin limit? v
  items : ∀ {s items rest}, readItems limit? fuel s = .ok (items, rest) → ∀ v ∈ items, IsReadableWithin limit? v
  fields : ∀ done {s fields rest}, (Dictionary.keys done).Nodup → (∀ p ∈ done, IsReadableWithin limit? p.2) →
    readFields limit? fuel done s = .ok (fields, rest) →
      (Dictionary.keys fields).Nodup ∧ ∀ p ∈ fields, IsReadableWithin limit? p.2

section Steps

variable {fuel : Nat} (ih : YieldsReadable limit? fuel) {s rest : List Char}

include ih

/-- A value is readable if its parts, read with less fuel, are. -/
theorem YieldsReadable.readValue_succ {v : Value} (h : readValue limit? (fuel + 1) s = .ok (v, rest)) :
    IsReadableWithin limit? v := by
  -- a text, a table or a list is known by how it starts; the rest is a word or a number
  unfold readValue at h
  split at h
  · exact absurd h (by simp [complain])
  · obtain ⟨⟨t, behind⟩, -, heq⟩ := Traversal.bind_eq_ok_iff.mp h
    obtain ⟨rfl, -⟩ := Prod.mk.inj (Except.ok.inj heq)
    exact .text t
  · split at h
    · obtain ⟨rfl, -⟩ := Prod.mk.inj (Except.ok.inj h)
      exact .table List.nodup_nil (by simp)
    · obtain ⟨⟨fields, behind⟩, hread, heq⟩ := Traversal.bind_eq_ok_iff.mp h
      obtain ⟨rfl, -⟩ := Prod.mk.inj (Except.ok.inj heq)
      obtain ⟨hkeys, hfields⟩ := ih.fields [] List.nodup_nil (by simp) hread
      exact .table hkeys hfields
  · split at h
    · obtain ⟨rfl, -⟩ := Prod.mk.inj (Except.ok.inj h)
      exact .list (by simp)
    · obtain ⟨⟨items, behind⟩, hread, heq⟩ := Traversal.bind_eq_ok_iff.mp h
      obtain ⟨rfl, -⟩ := Prod.mk.inj (Except.ok.inj heq)
      exact .list (ih.items hread)
  · split at h
    · rename_i hword
      exact isReadableWithin_of_readWord? (Except.ok.inj h ▸ hword)
    · exact isReadableWithin_of_readNumber h

/-- The same of the items of a list. -/
theorem YieldsReadable.readItems_succ {items : List Value}
    (h : readItems limit? (fuel + 1) s = .ok (items, rest)) : ∀ v ∈ items, IsReadableWithin limit? v := by
  unfold readItems at h
  obtain ⟨⟨v, behind⟩, hread, hmore⟩ := Traversal.bind_eq_ok_iff.mp h
  have hv := ih.value hread
  dsimp only at hmore
  split at hmore
  · obtain ⟨rfl, -⟩ := Prod.mk.inj (Except.ok.inj hmore)
    exact List.forall_mem_singleton.mpr hv
  · obtain ⟨⟨more, last⟩, hitems, heq⟩ := Traversal.bind_eq_ok_iff.mp hmore
    obtain ⟨rfl, -⟩ := Prod.mk.inj (Except.ok.inj heq)
    exact List.forall_mem_cons.mpr ⟨hv, ih.items hitems⟩
  · exact absurd hmore (by simp [complain])

/-- And of the fields of a table, whose keys stay distinct because a repeated key replaces its
value. -/
theorem YieldsReadable.readFields_succ (done : Value.Fields) {fields : Value.Fields}
    (hkeys : (Dictionary.keys done).Nodup) (hdone : ∀ p ∈ done, IsReadableWithin limit? p.2)
    (h : readFields limit? (fuel + 1) done s = .ok (fields, rest)) :
    (Dictionary.keys fields).Nodup ∧ ∀ p ∈ fields, IsReadableWithin limit? p.2 := by
  unfold readFields at h
  split at h
  · obtain ⟨⟨key, behind⟩, -, hcolon⟩ := Traversal.bind_eq_ok_iff.mp h
    dsimp only at hcolon
    split at hcolon
    · obtain ⟨⟨v, last⟩, hread, hmore⟩ := Traversal.bind_eq_ok_iff.mp hcolon
      have hnodup := Dictionary.nodup_keys_put hkeys key v
      -- the new value is readable, and the old ones stay
      have hput : ∀ p ∈ Dictionary.put done key v, IsReadableWithin limit? p.2 := by
        intro p hp
        rcases Dictionary.mem_put hp with rfl | hold
        · exact ih.value hread
        · exact hdone p hold
      dsimp only at hmore
      split at hmore
      · obtain ⟨rfl, -⟩ := Prod.mk.inj (Except.ok.inj hmore)
        exact ⟨hnodup, hput⟩
      · exact ih.fields _ hnodup hput hmore
      · exact absurd hmore (by simp [complain])
    · exact absurd hcolon (by simp [complain])
  · exact absurd h (by simp [complain])

end Steps

/-- By induction on the fuel, all three readers at once. -/
theorem yieldsReadable (limit? : Option Nat) (fuel : Nat) : YieldsReadable limit? fuel := by
  induction fuel with
  | zero =>
    exact ⟨by simp [readValue, complain], by simp [readItems, complain],
      by simp [readFields, complain]⟩
  | succ fuel ih =>
    exact ⟨ih.readValue_succ, ih.readItems_succ, fun done _ _ _ => ih.readFields_succ done⟩

/-- **What is read can be read**: when it is written, it is read again as it was. -/
theorem isReadableWithin_of_read {document : String} {v : Value}
    (h : readWithin limit? document = .ok v) : IsReadableWithin limit? v := by
  -- the error only gets its place in the text
  have hdocument : readDocument limit? document.toList = .ok v := by
    unfold readWithin at h
    split at h
    · rename_i heq
      rw [heq, Except.ok.inj h]
    · exact absurd h (by simp)
  unfold readDocument at hdocument
  split at hdocument
  · exact absurd hdocument (by simp [complain])
  · obtain ⟨⟨w, rest⟩, hread, hend⟩ := Traversal.bind_eq_ok_iff.mp hdocument
    have hw := (yieldsReadable _ _).value hread
    dsimp only at hend
    split at hend
    · exact Except.ok.inj hend ▸ hw
    · exact absurd hend (by simp [complain])

theorem isReadable_of_read {document : String} {v : Value} (h : read document = .ok v) :
    IsReadable v :=
  isReadableWithin_of_read h

/-- A table that is read holds no dates. -/
theorem get?_ne_stamp {document : String} {fields : Value.Fields}
    (h : read document = .ok (.table fields)) (key t : String) :
    fields.get? key ≠ some (.stamp t) := by
  intro hget
  cases isReadable_of_read h with
  | table _ hfields => exact nomatch hfields _ (Dictionary.mem_of_get?_eq_some hget)

end Packwright.Json
