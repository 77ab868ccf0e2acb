import Packwright.Proofs.Vlq

/-!
# Digits that are written as they are read

Every text of digits is read as some fields, but not every text is what these fields are written
as. The digits of the alphabet's first half close a group, those of its second half leave it open.

* `IsCanonical` says of a text that it is complete groups, one behind the other, none of them with
  a zero that could be left out and none of them a negative zero.
* `isCanonical_encodeChars` and `exists_encodeChars`: these are the texts that are written.
* `decode_canonical`: so they are the texts that reading and writing give back.
-/

namespace Packwright.Vlq

/-! ## Groups -/

/-- The digits that close a group, and those that leave it open. -/
def closingDigits : List Char := alphabet.take 32
def openDigits : List Char := alphabet.drop 32

theorem mem_closingDigits_iff {c : Char} : c ∈ closingDigits ↔ ∃ v < 32, digitChar v = c := by
  have hdigits : closingDigits = (List.range 32).map digitChar := by rfl
  rw [hdigits, List.mem_map]
  simp only [List.mem_range]

theorem mem_openDigits_iff {c : Char} : c ∈ openDigits ↔ ∃ v < 32, digitChar (v + 32) = c := by
  have hdigits : openDigits = (List.range 32).map fun v => digitChar (v + 32) := by rfl
  rw [hdigits, List.mem_map]
  simp only [List.mem_range]

/-- A complete group: digits that leave it open, and one that closes it. -/
def IsGroup (digits : List Char) : Prop :=
  ∃ more last, digits = more ++ [last] ∧ (∀ c ∈ more, c ∈ openDigits) ∧ last ∈ closingDigits

/-- Digits that are closed by a zero with others in front of it. -/
def IsPadded (digits : List Char) : Prop :=
  ∃ more, more ≠ [] ∧ digits = more ++ ['A']

/-- The digits of a zero with a sign. -/
def negativeZero : List Char := ['B']

/-- A text that is complete groups, none of them padded and none of them a negative zero. -/
def IsCanonical (s : List Char) : Prop :=
  ∃ groups : List (List Char), s = groups.flatten ∧
    ∀ digits ∈ groups, IsGroup digits ∧ ¬ IsPadded digits ∧ digits ≠ negativeZero

/-! ## The groups that are written -/

theorem group_of_lt {n : Nat} (h : n < 32) : group n = [digitChar n] := by
  rw [group, if_pos h]

theorem group_of_le {n : Nat} (h : 32 ≤ n) :
    group n = digitChar (n % 32 + 32) :: group (n / 32) := by
  rw [group, if_neg (by omega)]

theorem digitChar_inj {v w : Nat} (hv : v < 64) (hw : w < 64) (h : digitChar v = digitChar w) :
    v = w := by
  have hvalue := digitValue?_digitChar hv
  rw [h, digitValue?_digitChar hw] at hvalue
  exact (Option.some.inj hvalue).symm

/-- A group that is written is complete, and its last digit is no zero unless it is the only one. -/
theorem exists_of_group (n : Nat) :
    ∃ more last, group n = more ++ [last] ∧ (∀ c ∈ more, c ∈ openDigits) ∧ last ∈ closingDigits ∧
      (0 < n → last ≠ 'A') := by
  induction n using Nat.strongRecOn with
  | ind n ih =>
    by_cases hlt : n < 32
    · have hclosing := mem_closingDigits_iff.mpr ⟨n, hlt, rfl⟩
      refine ⟨[], digitChar n, group_of_lt hlt, by simp, hclosing, ?_⟩
      intro hpos hzero
      have heq : n = 0 := digitChar_inj (by omega) (by omega) hzero
      omega
    · obtain ⟨more, last, hgroup, hmore, hlast, hzero⟩ := ih (n / 32) (by omega)
      have hopen : digitChar (n % 32 + 32) ∈ openDigits :=
        mem_openDigits_iff.mpr ⟨n % 32, Nat.mod_lt n (by omega), rfl⟩
      refine ⟨digitChar (n % 32 + 32) :: more, last, ?_, ?_, hlast, ?_⟩
      · rw [group_of_le (by omega), hgroup, List.cons_append]
      · exact List.forall_mem_cons.mpr ⟨hopen, hmore⟩
      · intro _
        apply hzero
        omega

theorem isGroup_group (n : Nat) : IsGroup (group n) := by
  obtain ⟨more, last, hgroup, hmore, hlast, -⟩ := exists_of_group n
  exact ⟨more, last, hgroup, hmore, hlast⟩

theorem not_isPadded_group (n : Nat) : ¬ IsPadded (group n) := by
  rintro ⟨front, hfront, hpadded⟩
  obtain ⟨more, last, hgroup, -, -, hzero⟩ := exists_of_group n
  obtain ⟨rfl, hlast⟩ := List.append_inj' (hgroup.symm.trans hpadded) rfl
  -- zero is one digit, so there is nothing in front of its last one
  rcases Nat.eq_zero_or_pos n with rfl | hpos
  · rw [group_of_lt (by omega)] at hpadded
    exact hfront (List.append_inj' hpadded rfl).1.symm
  · exact hzero hpos (List.singleton_inj.mp hlast)

theorem group_eq_negativeZero_iff {n : Nat} : group n = negativeZero ↔ n = 1 := by
  constructor
  · intro h
    by_cases hlt : n < 32
    · rw [group_of_lt hlt] at h
      exact digitChar_inj (by omega) (by omega) (List.singleton_inj.mp h)
    · -- there is a digit behind the first one
      rw [group_of_le (by omega)] at h
      obtain ⟨more, last, hgroup, -⟩ := isGroup_group (n / 32)
      have hnil : more ++ [last] = [] := hgroup ▸ (List.cons.inj h).2
      exact absurd hnil (by simp)
  · rintro rfl
    rw [group_of_lt (by omega)]
    rfl

/-- **Every complete group that is not padded is written** for some number. -/
theorem exists_group {digits : List Char} (h : IsGroup digits) (hpad : ¬ IsPadded digits) :
    ∃ n, group n = digits := by
  obtain ⟨more, last, rfl, hmore, hlast⟩ := h
  have hzero : more ≠ [] → last ≠ 'A' := fun hne heq => hpad ⟨more, hne, by rw [heq]⟩
  clear hpad
  -- the number is positive if its last digit is, which is what keeps the digit in front of it open
  suffices hsuff : ∃ n, group n = more ++ [last] ∧ (last ≠ 'A' → 0 < n) from
    hsuff.imp fun _ hn => hn.1
  induction more with
  | nil =>
    obtain ⟨v, hv, rfl⟩ := mem_closingDigits_iff.mp hlast
    refine ⟨v, group_of_lt hv, fun hne => Nat.pos_of_ne_zero ?_⟩
    rintro rfl
    exact hne rfl
  | cons c more ih =>
    obtain ⟨hc, hopen⟩ := List.forall_mem_cons.mp hmore
    obtain ⟨v, hv, rfl⟩ := mem_openDigits_iff.mp hc
    have hne : last ≠ 'A' := hzero (List.cons_ne_nil _ _)
    obtain ⟨n, hn, hpos⟩ := ih hopen fun _ => hne
    have hpositive := hpos hne
    refine ⟨v + 32 * n, ?_, fun _ => by omega⟩
    have hmod : (v + 32 * n) % 32 = v := by omega
    have hdiv : (v + 32 * n) / 32 = n := by omega
    rw [group_of_le (by omega), hmod, hdiv, hn, List.cons_append]

/-! ## The texts that are written -/

theorem zigzag_ne_one (i : Int) : zigzag i ≠ 1 := by
  unfold zigzag
  split <;> omega

theorem zigzag_unzigzag {n : Nat} (h : n ≠ 1) : zigzag (unzigzag n) = n := by
  unfold zigzag unzigzag
  split <;> split <;> omega

theorem isCanonical_encodeChars (values : List Int) : IsCanonical (encodeChars values) := by
  refine ⟨values.map fun i => group (zigzag i), rfl, fun digits hdigits => ?_⟩
  obtain ⟨i, -, rfl⟩ := List.mem_map.mp hdigits
  refine ⟨isGroup_group _, not_isPadded_group _, fun h => ?_⟩
  exact zigzag_ne_one i (group_eq_negativeZero_iff.mp h)

/-- **A canonical text is written** for some fields. -/
theorem exists_encodeChars {s : List Char} (h : IsCanonical s) :
    ∃ values, encodeChars values = s := by
  obtain ⟨groups, rfl, hgroups⟩ := h
  induction groups with
  | nil => exact ⟨[], rfl⟩
  | cons digits more ih =>
    obtain ⟨⟨hgroup, hpad, hzero⟩, hmore⟩ := List.forall_mem_cons.mp hgroups
    obtain ⟨n, rfl⟩ := exists_group hgroup hpad
    obtain ⟨values, hvalues⟩ := ih hmore
    have hn : n ≠ 1 := fun heq => hzero (group_eq_negativeZero_iff.mpr heq)
    refine ⟨unzigzag n :: values, ?_⟩
    show group (zigzag (unzigzag n)) ++ encodeChars values = group n ++ more.flatten
    rw [zigzag_unzigzag hn, hvalues]

/-- **Reading fails exactly at characters that are no digits, and writing gives back what was read
exactly if that was canonical**: groups that are all complete, with no zero closing a group of
several digits and no negative zero. -/
theorem decode_canonical (s : String) :
    ((∃ e, decode s = .error e) ↔ ∃ c ∈ s.toList, c ∉ alphabet) ∧
      ((∃ values, decode s = .ok values ∧ encode values = s) ↔ IsCanonical s.toList) := by
  constructor
  · cases hread : decode s with
    | ok values =>
      have hdigits := (exists_decodeFrom_iff 0 1).mp ⟨values, hread⟩
      constructor
      · rintro ⟨e, he⟩
        exact absurd he (by simp)
      · rintro ⟨c, hc, hout⟩
        exact absurd (hdigits c hc) hout
    | error e =>
      have hfirst := (decodeFrom_eq_error_iff 0 1).mp hread
      have hout : e.digit ∉ alphabet := by simpa using List.find?_some hfirst
      exact ⟨fun _ => ⟨e.digit, List.mem_of_find?_eq_some hfirst, hout⟩, fun _ => ⟨e, rfl⟩⟩
  constructor
  · rintro ⟨values, -, rfl⟩
    rw [encode, String.toList_ofList]
    exact isCanonical_encodeChars values
  · intro h
    obtain ⟨values, hvalues⟩ := exists_encodeChars h
    refine ⟨values, ?_, ?_⟩
    · rw [decode, ← hvalues, decodeChars_encodeChars]
    · rw [encode, hvalues, String.ofList_toList]

end Packwright.Vlq
