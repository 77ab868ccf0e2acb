import Packwright.Vlq

/-!
# Reading what was written in base 64

The fields of a segment are read back as they were written, and a segment is made of digits only.

* `digitValue?_eq_some_iff`: the value of a digit is its place in the alphabet.
* `decodeFrom_eq_error_iff`: reading stops at the first character that is no digit, and only there.
* `decodeChars_encodeChars_append`: what was written is read back, whatever stands behind it.
-/

namespace Packwright.Vlq

/-! ## Digits -/

/-- The character of a value is the one that has it. -/
theorem digitChar_of_digitValue? {c : Char} {value : Nat} (h : digitValue? c = some value) :
    value < 64 ∧ digitChar value = c := by
  have hchar : ∀ n, n = c.toNat → Char.ofNat n = c := fun n hn => hn ▸ Char.ofNat_toNat c
  unfold digitValue? at h
  -- each stretch of the alphabet is a stretch of characters, moved by a constant
  split at h
  · rename_i hrange
    have hlow : 65 ≤ c.toNat := hrange.1
    have hhigh : c.toNat ≤ 90 := hrange.2
    obtain rfl := Option.some.inj h
    refine ⟨by omega, ?_⟩
    rw [digitChar, if_pos (by omega)]
    apply hchar
    omega
  split at h
  · rename_i hrange
    have hlow : 97 ≤ c.toNat := hrange.1
    have hhigh : c.toNat ≤ 122 := hrange.2
    obtain rfl := Option.some.inj h
    refine ⟨by omega, ?_⟩
    rw [digitChar, if_neg (by omega), if_pos (by omega)]
    apply hchar
    omega
  split at h
  · rename_i hrange
    have hlow : 48 ≤ c.toNat := hrange.1
    have hhigh : c.toNat ≤ 57 := hrange.2
    obtain rfl := Option.some.inj h
    refine ⟨by omega, ?_⟩
    rw [digitChar, if_neg (by omega), if_neg (by omega), if_pos (by omega)]
    apply hchar
    omega
  split at h
  · rename_i hplus
    obtain rfl := Option.some.inj h
    exact ⟨by omega, hplus.symm⟩
  split at h
  · rename_i hslash
    obtain rfl := Option.some.inj h
    exact ⟨by omega, hslash.symm⟩
  · exact absurd h (by simp)

/-- The alphabet is the characters of the values, in their order. -/
theorem alphabet_eq : alphabet = (List.range 64).map digitChar := by
  rfl

/-- **The value of a digit is its place in the alphabet.** -/
theorem digitValue?_eq_some_iff {c : Char} {value : Nat} :
    digitValue? c = some value ↔ alphabet[value]? = some c := by
  rw [alphabet_eq, List.getElem?_map]
  constructor
  · intro h
    obtain ⟨hlt, hchar⟩ := digitChar_of_digitValue? h
    rw [List.getElem?_range hlt, Option.map_some, hchar]
  · intro h
    obtain ⟨v, hv, rfl⟩ := Option.map_eq_some_iff.mp h
    obtain ⟨hlt, rfl⟩ := List.getElem?_eq_some_iff.mp hv
    rw [List.length_range] at hlt
    rw [List.getElem_range]
    exact digitValue?_digitChar hlt

/-- A character is in it exactly if it has a value. -/
theorem mem_alphabet_iff {c : Char} : c ∈ alphabet ↔ ∃ value, digitValue? c = some value := by
  rw [List.mem_iff_getElem?]
  exact exists_congr fun value => digitValue?_eq_some_iff.symm

/-! ## Reading -/

/-- **Reading stops at the first character that is no digit**, and at nothing else. -/
theorem decodeFrom_eq_error_iff (value weight : Nat) {s : List Char} {c : Char} :
    decodeFrom value weight s = .error ⟨c⟩ ↔ s.find? (· ∉ alphabet) = some c := by
  induction s generalizing value weight with
  | nil => simp [decodeFrom]
  | cons d rest ih =>
    rw [decodeFrom, List.find?_cons]
    cases hd : digitValue? d with
    | none =>
      have hout : d ∉ alphabet := by rw [mem_alphabet_iff, hd]; simp
      simp [hout]
    | some digit =>
      have hin : d ∈ alphabet := mem_alphabet_iff.mpr ⟨digit, hd⟩
      simp only [hin, not_true_eq_false, decide_false]
      split
      · -- the digit closes its group, and what is read behind it is put behind the field
        rw [← ih 0 1]
        cases decodeFrom 0 1 rest <;> simp [Except.map]
      · exact ih _ _

/-- Decoding succeeds exactly on characters of the alphabet; where it stands in a group does not
matter. -/
theorem exists_decodeFrom_iff (value weight : Nat) {s : List Char} :
    (∃ values, decodeFrom value weight s = .ok values) ↔ ∀ c ∈ s, c ∈ alphabet := by
  have hfind : (∀ c ∈ s, c ∈ alphabet) ↔ s.find? (· ∉ alphabet) = none := by simp
  rw [hfind, Option.eq_none_iff_forall_ne_some]
  constructor
  · rintro ⟨values, hread⟩ c hc
    rw [← decodeFrom_eq_error_iff value weight, hread] at hc
    exact absurd hc (by simp)
  · intro hnone
    cases hread : decodeFrom value weight s with
    | ok values => exact ⟨values, rfl⟩
    | error e => exact absurd ((decodeFrom_eq_error_iff value weight).mp hread) (hnone e.digit)

/-! ## Writing -/

/-- A group is made of digits. -/
theorem digit_of_mem_group {n : Nat} {c : Char} (h : c ∈ group n) :
    (digitValue? c).isSome = true := by
  induction n using Nat.strongRecOn with
  | ind n ih =>
    rw [group] at h
    split at h
    · rw [List.mem_singleton.mp h, digitValue?_digitChar (by omega)]
      rfl
    · rcases List.mem_cons.mp h with rfl | hrest
      · rw [digitValue?_digitChar (by omega)]
        rfl
      · exact ih (n / 32) (by omega) hrest

theorem digit_of_mem_encodeChars {values : List Int} {c : Char} (h : c ∈ encodeChars values) :
    (digitValue? c).isSome = true := by
  obtain ⟨i, _, hc⟩ := List.mem_flatMap.mp h
  exact digit_of_mem_group hc

/-! ## Reading back -/

/-- A group is read as the number that it writes, in the place that it stands. -/
theorem decodeFrom_group (n value weight : Nat) (rest : List Char) :
    decodeFrom value weight (group n ++ rest) =
      (decodeFrom 0 1 rest).map (unzigzag (value + n * weight) :: ·) := by
  induction n using Nat.strongRecOn generalizing value weight with
  | ind n ih =>
    rw [group]
    split
    · rename_i hlt
      rw [List.cons_append, List.nil_append, decodeFrom, digitValue?_digitChar (by omega)]
      simp only [if_pos hlt]
    · rename_i hge
      have hdigit : digitValue? (digitChar (n % 32 + 32)) = some (n % 32 + 32) :=
        digitValue?_digitChar (by omega)
      rw [List.cons_append, decodeFrom, hdigit]
      simp only [if_neg (show ¬n % 32 + 32 < 32 by omega), Nat.add_sub_cancel]
      rw [ih (n / 32) (by omega)]
      -- the lowest five bits now, and the others thirty-two times heavier
      have hsum : value + n % 32 * weight + n / 32 * (weight * 32) = value + n * weight := by
        have hn : n * weight = (n % 32 + 32 * (n / 32)) * weight := by rw [Nat.mod_add_div]
        rw [hn, Nat.add_mul, Nat.add_assoc, Nat.mul_comm weight 32, ← Nat.mul_assoc,
          Nat.mul_comm (n / 32) 32]
      rw [hsum]

/-- **What was written is read first**, and what stands behind it as if it stood alone. -/
theorem decodeChars_encodeChars_append (values : List Int) (rest : List Char) :
    decodeChars (encodeChars values ++ rest) = (decodeChars rest).map (values ++ ·) := by
  unfold decodeChars encodeChars
  induction values with
  | nil =>
    show decodeFrom 0 1 rest = (decodeFrom 0 1 rest).map id
    cases decodeFrom 0 1 rest <;> rfl
  | cons i more ih =>
    rw [List.flatMap_cons, List.append_assoc, decodeFrom_group, ih, Nat.zero_add, Nat.mul_one,
      unzigzag_zigzag]
    cases decodeFrom 0 1 rest <;> rfl

/-- **Decoding what was encoded gives the numbers back.** -/
@[simp] theorem decodeChars_encodeChars (values : List Int) :
    decodeChars (encodeChars values) = .ok values := by
  have happend := decodeChars_encodeChars_append values []
  rw [List.append_nil] at happend
  rw [happend]
  show Except.ok (values ++ []) = .ok values
  rw [List.append_nil]

theorem encodeChars_append (values more : List Int) :
    encodeChars (values ++ more) = encodeChars values ++ encodeChars more :=
  List.flatMap_append

theorem encode_injective : Function.Injective encode := by
  intro values others h
  have hchars : encodeChars values = encodeChars others := String.ofList_injective h
  have hread := congrArg decodeChars hchars
  rw [decodeChars_encodeChars, decodeChars_encodeChars] at hread
  exact Except.ok.inj hread

/-- Where the digits of some fields start those of others, the fields start the others. -/
theorem encodeChars_append_eq_iff {values others : List Int} {rest : List Char} :
    encodeChars values ++ rest = encodeChars others ↔
      ∃ more, others = values ++ more ∧ rest = encodeChars more := by
  constructor
  · intro h
    -- both sides are decoded, and the numbers compared
    have hread := decodeChars_encodeChars_append values rest
    rw [h, decodeChars_encodeChars] at hread
    cases hrest : decodeChars rest with
    | error e => rw [hrest] at hread; exact absurd hread (by simp [Except.map])
    | ok more =>
      rw [hrest] at hread
      obtain rfl := Except.ok.inj hread
      rw [encodeChars_append] at h
      exact ⟨more, rfl, List.append_cancel_left h⟩
  · rintro ⟨more, rfl, rfl⟩
    exact (encodeChars_append values more).symm

/-- **Fields are read back as they were written, whatever stands behind them**: any digits there are
read as if they stood alone. So the fields are known from what was written, and what some fields
start with was written from what they start with. -/
theorem decode_encode_append (values others : List Int) (rest : String) :
    decode (encode values ++ rest) = (decode rest).map (values ++ ·) ∧
      ((∃ more, decode rest = .ok more ∧ decode (encode values ++ rest) = .ok (values ++ more)) ↔
        ∀ c ∈ rest.toList, c ∈ alphabet) ∧
      decode (encode values) = .ok values ∧
      Function.Injective encode ∧
      (encode values ++ rest = encode others ↔
        ∃ more, others = values ++ more ∧ rest = encode more) := by
  -- the groups of the encoded numbers end where the rest begins
  have happend : decode (encode values ++ rest) = (decode rest).map (values ++ ·) := by
    unfold decode encode
    rw [String.toList_append, String.toList_ofList]
    exact decodeChars_encodeChars_append values rest.toList
  refine ⟨happend, ?_, ?_, encode_injective, ?_⟩
  · rw [← exists_decodeFrom_iff 0 1]
    apply exists_congr
    intro more
    refine and_iff_left_of_imp fun hmore => ?_
    rw [happend, hmore]
    rfl
  · show decodeChars (String.ofList (encodeChars values)).toList = .ok values
    rw [String.toList_ofList, decodeChars_encodeChars]
  · have hrest : ∀ more, rest = encode more ↔ rest.toList = encodeChars more := fun more => by
      rw [← String.toList_inj, encode, String.toList_ofList]
    rw [← String.toList_inj, String.toList_append, encode, encode, String.toList_ofList,
      String.toList_ofList, encodeChars_append_eq_iff]
    simp only [hrest]

end Packwright.Vlq
