import Packwright.Text.Search

/-!
# Finding and exchanging

What an exchange of one text for another does to a text, and what it leaves alone.

* A text occurs on one side or the other of a character that it does not hold
  (`infix_append_cons_iff`).
* `Exchanged` says what comes of searching a text from its start for the occurrences of another and
  putting something in place of each. There is one outcome, and `replaceAll` finds it
  (`exchanged_iff`).
* So an exchange goes on both sides of a character that the exchanged text does not hold as if the
  other side were not there (`replaceAll_append`), and it keeps the number of every character that
  is in neither text (`count_replaceAll`).
-/

namespace Packwright.Text

/-! ## Occurrences -/

section Occurrences

variable {part s t : List Char} {c : Char}

/-- A prefix does not reach past a character that it does not have. -/
theorem prefix_append_cons_iff (hc : c ∉ part) : part <+: s ++ c :: t ↔ part <+: s := by
  constructor
  · intro h
    have hleft : s ++ [c] <+: s ++ c :: t := ⟨t, by simp⟩
    rcases List.prefix_or_prefix_of_prefix h hleft with hshort | hlong
    · rcases List.prefix_concat_iff.mp hshort with rfl | hpart
      · exact absurd (by simp) hc
      · exact hpart
    · exact absurd (hlong.subset (by simp)) hc
  · exact fun h => h.trans (List.prefix_append s _)

/-- What a text starts with stands in front of any character that it does not hold. -/
theorem exists_of_append_eq {rest : List Char} (hc : c ∉ part) (h : part ++ rest = s ++ c :: t) :
    ∃ s', s = part ++ s' ∧ rest = s' ++ c :: t := by
  obtain ⟨s', rfl⟩ := (prefix_append_cons_iff hc).mp ⟨rest, h⟩
  rw [List.append_assoc] at h
  exact ⟨s', rfl, List.append_cancel_left h⟩

/-- **A text occurs on one side of a character that it does not hold.** -/
theorem infix_append_cons_iff (hc : c ∉ part) :
    part <:+: s ++ c :: t ↔ part <:+: s ∨ part <:+: t := by
  induction s with
  | nil =>
    rw [List.nil_append, List.infix_cons_iff, ← List.nil_append (c :: t),
      prefix_append_cons_iff hc, List.prefix_nil, List.infix_nil]
  | cons d s ih =>
    rw [List.cons_append, List.infix_cons_iff, ← List.cons_append, prefix_append_cons_iff hc, ih,
      List.infix_cons_iff, or_assoc]

end Occurrences

/-! ## Exchanges -/

/-- What comes of searching a text from its start for occurrences of `old` and putting `new` in
place of each. What has been exchanged is passed over, and a place without an occurrence is passed
over by one character. -/
inductive Exchanged (old new : List Char) : List Char → List Char → Prop
  | done : Exchanged old new [] []
  | hit {rest out : List Char} (hrest : Exchanged old new rest out) :
      Exchanged old new (old ++ rest) (new ++ out)
  | miss {c : Char} {rest out : List Char} (hnone : ¬ old <+: c :: rest)
      (hrest : Exchanged old new rest out) : Exchanged old new (c :: rest) (c :: out)

section Exchanges

variable {old new s t out : List Char} {c : Char}

/-- The loop, with the characters of the last match that it has still to skip. -/
theorem exchanged_replaceAllFrom (hne : old ≠ []) (skip : Nat) (s : List Char) :
    Exchanged old new (s.drop skip) (replaceAllFrom old new skip s) := by
  induction s generalizing skip with
  | nil => cases skip <;> exact .done
  | cons d rest ih =>
    cases skip with
    | succ skip => exact ih skip
    | zero =>
      rw [replaceAllFrom, List.drop_zero]
      split
      · -- an occurrence: what is passed over is the rest of it
        rename_i hprefix
        obtain ⟨tail, htail⟩ := List.isPrefixOf_iff_prefix.mp hprefix
        have hdrop : rest.drop (old.length - 1) = tail := by
          have hlen : 0 < old.length := List.length_pos_iff.mpr hne
          calc rest.drop (old.length - 1)
              = (d :: rest).drop (old.length - 1 + 1) := rfl
            _ = (old ++ tail).drop old.length := by rw [← htail]; congr 1; omega
            _ = tail := List.drop_left
        have htailed := ih (old.length - 1)
        rw [hdrop] at htailed
        rw [← htail]
        exact .hit htailed
      · rename_i hnone
        exact .miss (fun h => hnone (List.isPrefixOf_iff_prefix.mpr h)) (ih 0)

/-- **A search has one outcome.** -/
theorem Exchanged.unique (hne : old ≠ []) {other : List Char} (h : Exchanged old new s out)
    (h' : Exchanged old new s other) : out = other := by
  induction h generalizing other with
  | done =>
    generalize hs : ([] : List Char) = s at h'
    cases h' with
    | done => rfl
    | hit => exact absurd (List.append_eq_nil_iff.mp hs.symm).1 hne
    | miss => exact absurd hs (by simp)
  | @hit rest out _ ih =>
    -- the two exchanges agree on whether an occurrence starts here
    generalize hs : old ++ rest = s at h'
    cases h' with
    | done => exact absurd (List.append_eq_nil_iff.mp hs).1 hne
    | hit hrest => rw [ih (List.append_cancel_left hs ▸ hrest)]
    | miss hnone => exact absurd (hs ▸ List.prefix_append old rest) hnone
  | @miss d rest out hnone _ ih =>
    generalize hs : d :: rest = s at h'
    cases h' with
    | done => exact absurd hs (by simp)
    | hit => exact absurd (hs ▸ List.prefix_append old _) hnone
    | miss _ hrest =>
      obtain ⟨rfl, rfl⟩ := List.cons_eq_cons.mp hs
      rw [ih hrest]

/-- What replacing gives is an exchange of the occurrences, from left to right. -/
theorem exchanged_replaceAll (hne : old ≠ []) (new s : List Char) :
    Exchanged old new s (replaceAll old new s) := by
  have hempty : ¬ old.isEmpty = true := by simpa using hne
  rw [replaceAll, if_neg hempty]
  exact exchanged_replaceAllFrom hne 0 s

theorem exchanged_iff (hne : old ≠ []) : Exchanged old new s out ↔ out = replaceAll old new s := by
  have hexchanged := exchanged_replaceAll hne new s
  exact ⟨fun h => h.unique hne hexchanged, fun h => h ▸ hexchanged⟩

/-- No occurrence reaches across a character that it does not have, so the two sides are exchanged
apart. -/
theorem Exchanged.append (hne : old ≠ []) (hc : c ∉ old) (h : Exchanged old new s out)
    {out' : List Char} (h' : Exchanged old new t out') :
    Exchanged old new (s ++ c :: t) (out ++ c :: out') := by
  induction h with
  | done =>
    refine .miss (fun hprefix => hne ?_) h'
    rw [← List.nil_append (c :: t), prefix_append_cons_iff hc] at hprefix
    exact List.prefix_nil.mp hprefix
  | hit _ ih =>
    rw [List.append_assoc, List.append_assoc]
    exact .hit ih
  | @miss d rest out hnone _ ih =>
    -- an occurrence that starts on the left would have to end there as well
    refine .miss (fun hprefix => hnone ?_) ih
    have hprefix : old <+: (d :: rest) ++ c :: t := hprefix
    rwa [prefix_append_cons_iff hc] at hprefix

/-- **An exchange goes on both sides of a character** that what is exchanged does not hold. -/
theorem replaceAll_append (hne : old ≠ []) (hc : c ∉ old) (new s t : List Char) :
    replaceAll old new (s ++ c :: t) = replaceAll old new s ++ c :: replaceAll old new t := by
  have hboth := (exchanged_replaceAll hne new s).append hne hc (exchanged_replaceAll hne new t)
  exact ((exchanged_iff hne).mp hboth).symm

theorem replaceAll_nil (old new : List Char) : replaceAll old new [] = [] := by
  unfold replaceAll
  split <;> rfl

/-- A front without any of the characters is kept. -/
theorem replaceAll_append_of_forall (hne : old ≠ []) (hs : ∀ d ∈ s, d ∉ old)
    (new t : List Char) :
    replaceAll old new (s ++ t) = s ++ replaceAll old new t := by
  induction s with
  | nil => rfl
  | cons d s ih =>
    obtain ⟨hd, hrest⟩ := List.forall_mem_cons.mp hs
    have hfirst := replaceAll_append hne hd new [] (s ++ t)
    rw [replaceAll_nil, List.nil_append, List.nil_append] at hfirst
    rw [List.cons_append, hfirst, ih hrest, List.cons_append]

/-- Replacing brings in only characters of the new text. -/
theorem mem_of_mem_replaceAll (h : c ∈ replaceAll old new s) : c ∈ s ∨ c ∈ new := by
  by_cases hne : old = []
  · rw [replaceAll, if_pos (List.isEmpty_iff.mpr hne)] at h
    exact .inl h
  · have hexchanged := exchanged_replaceAll hne new s
    generalize replaceAll old new s = out at h hexchanged
    induction hexchanged with
    | done => exact .inl h
    | hit _ ih =>
      rcases List.mem_append.mp h with hnew | hrest
      · exact .inr hnew
      · exact (ih hrest).imp_left (List.mem_append_right old)
    | miss _ _ ih =>
      rcases List.mem_cons.mp h with rfl | hrest
      · exact .inl List.mem_cons_self
      · exact (ih hrest).imp_left (List.mem_cons_of_mem _)

/-- Where both texts start alike, so does what comes of the exchange. -/
theorem Exchanged.head?_eq (hold : old.head? = some c) (hnew : new.head? = some c)
    (h : Exchanged old new s out) : out.head? = s.head? := by
  cases h with
  | done => rfl
  | hit _ => rw [List.head?_append, List.head?_append, hold, hnew, Option.some_or, Option.some_or]
  | miss _ _ => rfl

/-- A character that both texts hold equally often is as frequent as before. -/
theorem count_replaceAll_of_count_eq (h : new.count c = old.count c) (s : List Char) :
    (replaceAll old new s).count c = s.count c := by
  by_cases hne : old = []
  · rw [replaceAll, if_pos (List.isEmpty_iff.mpr hne)]
  · have hexchanged := exchanged_replaceAll hne new s
    generalize replaceAll old new s = out at hexchanged
    induction hexchanged with
    | done => rfl
    | hit _ ih => rw [List.count_append, List.count_append, ih, h]
    | miss _ _ ih => rw [List.count_cons, List.count_cons, ih]

/-- **An exchange keeps the number of every character** that is in neither of the two texts. -/
theorem count_replaceAll (hold : c ∉ old) (hnew : c ∉ new) (s : List Char) :
    (replaceAll old new s).count c = s.count c := by
  apply count_replaceAll_of_count_eq
  rw [List.count_eq_zero.mpr hold, List.count_eq_zero.mpr hnew]

end Exchanges

end Packwright.Text
