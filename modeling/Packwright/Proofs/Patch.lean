import Mathlib.Data.List.Pairwise
import Packwright.Patch
import Packwright.Proofs.Text.Utf8
import Packwright.Text.Search

/-!
# What patches do to a text

Patches count bytes. If their offsets lie between characters, what they do to the bytes of a text
is an edit of the text: stretches are kept, stretches are removed, and texts are put in their place.

* `Edits` says so, and `edits_of_applyFrom` is the step from bytes to characters.
* `Edits.split` cuts an edit at a character that is kept: the patches before it have made what
  stands before it in the result, and the patches behind it have made the rest.
* `applyFrom_map` and `applyFrom_split` do the same for lists of any kind; with them the origins of
  the bytes of the result are known.
-/

namespace Packwright.Patch

open Packwright.Text

/-! ## Lists of any kind -/

/-- Dropping repeats keeps the order of the rest. -/
theorem dropRepeats_sublist (ps : List Patch) : (dropRepeats ps).Sublist ps := by
  induction ps using dropRepeats.induct with
  | case1 => simp [dropRepeats]
  | case2 p => simp [dropRepeats]
  | case3 p q rest hsame ih =>
    rw [dropRepeats, if_pos hsame]
    exact ih.trans ((List.sublist_cons_self q rest).cons_cons p)
  | case4 p q rest hdiffer ih =>
    rw [dropRepeats, if_neg hdiffer]
    exact ih.cons_cons p

theorem mem_of_mem_dropRepeats {ps : List Patch} {p : Patch} (h : p ∈ dropRepeats ps) : p ∈ ps :=
  (dropRepeats_sublist ps).subset h

/-- Where patches are dropped, others start that stay. -/
theorem exists_dropRepeats_of_mem {ps : List Patch} {p : Patch} (h : p ∈ ps) :
    ∃ q ∈ dropRepeats ps, q.start = p.start ∧ q.text = p.text := by
  induction ps using dropRepeats.induct generalizing p with
  | case1 => exact absurd h List.not_mem_nil
  | case2 q =>
    rw [List.mem_singleton] at h
    exact ⟨q, by simp [dropRepeats], by rw [h], by rw [h]⟩
  | case3 q r rest hsame ih =>
    rw [dropRepeats, if_pos hsame]
    rcases List.mem_cons.mp h with rfl | hmore
    · exact ih List.mem_cons_self
    · rcases List.mem_cons.mp hmore with rfl | hrest
      · -- the patch that is dropped is like the one before it
        rw [sameInsertion, Bool.and_eq_true, beq_iff_eq, beq_iff_eq] at hsame
        rw [← hsame.1, ← hsame.2]
        exact ih List.mem_cons_self
      · exact ih (List.mem_cons_of_mem _ hrest)
  | case4 q r rest hdiffer ih =>
    rw [dropRepeats, if_neg hdiffer]
    rcases List.mem_cons.mp h with rfl | hmore
    · exact ⟨p, List.mem_cons_self, rfl, rfl⟩
    · obtain ⟨t, ht, hlike⟩ := ih hmore
      exact ⟨t, List.mem_cons_of_mem _ ht, hlike⟩

theorem mem_of_mem_sortPatches {ps : List Patch} {p : Patch} (h : p ∈ sortPatches ps) : p ∈ ps :=
  List.mem_mergeSort.mp (mem_of_mem_dropRepeats h)

/-- Patches are sorted by where they start. -/
theorem pairwise_mergeSort (ps : List Patch) :
    (ps.mergeSort fun p q => p.start ≤ q.start).Pairwise fun p q => p.start ≤ q.start := by
  have htrans : ∀ p q r : Patch, decide (p.start ≤ q.start) = true →
      decide (q.start ≤ r.start) = true → decide (p.start ≤ r.start) = true := by
    simpa using fun p q r : Patch => Int.le_trans
  have htotal : ∀ p q : Patch, (decide (p.start ≤ q.start) || decide (q.start ≤ p.start)) = true := by
    simpa using fun p q : Patch => Int.le_total _ _
  simpa using List.pairwise_mergeSort htrans htotal ps

theorem pairwise_sortPatches (ps : List Patch) :
    (sortPatches ps).Pairwise fun p q => p.start ≤ q.start :=
  (pairwise_mergeSort ps).sublist (dropRepeats_sublist _)

/-- One patch that is accepted, and the rest. -/
theorem applyFrom_cons_ok {α : Type} {encode : String → List α} {length cursor : Int}
    {rest out : List α} {p : Patch} {more : List Patch} :
    applyFrom encode length cursor rest (p :: more) = .ok out ↔
      cursor ≤ p.start ∧ p.start ≤ p.stop ∧ p.stop ≤ length ∧ ∃ tail,
        applyFrom encode length p.stop (rest.drop (p.stop - cursor).toNat) more = .ok tail ∧
        out = rest.take (p.start - cursor).toNat ++ encode p.text ++ tail := by
  rw [applyFrom]
  -- the two ways to refuse a patch are excluded by its bounds
  by_cases h1 : p.start < cursor
  · rw [if_pos h1]
    constructor
    · exact fun h => absurd h (by simp)
    · rintro ⟨h, _⟩
      omega
  · rw [if_neg h1]
    by_cases h2 : p.stop < p.start ∨ p.stop > length
    · rw [if_pos h2]
      constructor
      · exact fun h => absurd h (by simp)
      · rintro ⟨_, h, h', _⟩
        omega
    · rw [if_neg h2]
      dsimp only
      cases applyFrom encode length p.stop (rest.drop (p.stop - cursor).toNat) more with
      | error e => simp [Except.map]
      | ok tail =>
        simp only [Except.map, Except.ok.injEq, exists_eq_left', eq_comm]
        constructor
        · exact fun h => ⟨by omega, by omega, by omega, h⟩
        · exact fun h => h.2.2.2

/-- A patch right where the cursor is: its text takes the place of what it removes. -/
theorem applyFrom_cons_here {α : Type} {encode : String → List α} {length : Int}
    {rest tail : List α} {more : List Patch} (p : Patch) (removed : List α)
    (hremoved : p.stop = p.start + removed.length) (hlength : p.stop ≤ length)
    (h : applyFrom encode length p.stop rest more = .ok tail) :
    applyFrom encode length p.start (removed ++ rest) (p :: more) = .ok (encode p.text ++ tail) := by
  have hgone : (p.stop - p.start).toNat = removed.length := by omega
  refine applyFrom_cons_ok.mpr ⟨Int.le_refl _, by omega, hlength, tail, ?_, ?_⟩
  · rw [hgone, List.drop_left]
    exact h
  · rw [Int.sub_self]
    rfl

/-- Whether patches are accepted does not depend on the elements. -/
theorem exists_applyFrom {α β : Type} {encode : String → List α} (encode' : String → List β)
    {length : Int} {ps : List Patch} {cursor : Int} {rest out : List α}
    (h : applyFrom encode length cursor rest ps = .ok out) (rest' : List β) :
    ∃ out', applyFrom encode' length cursor rest' ps = .ok out' := by
  induction ps generalizing cursor rest out rest' with
  | nil => exact ⟨rest', rfl⟩
  | cons p more ih =>
    obtain ⟨h1, h2, h3, tail, htail, _⟩ := applyFrom_cons_ok.mp h
    obtain ⟨tail', htail'⟩ := ih htail (rest'.drop (p.stop - cursor).toNat)
    exact ⟨_, applyFrom_cons_ok.mpr ⟨h1, h2, h3, tail', htail', rfl⟩⟩

/-- **Patches do not look at what they edit**, so they commute with any change of the elements. -/
theorem applyFrom_map {α β : Type} {f : α → β} {encode : String → List α} {encode' : String → List β}
    (hencode : ∀ text, (encode text).map f = encode' text) {length : Int} {ps : List Patch}
    {cursor : Int} {rest out : List α} (h : applyFrom encode length cursor rest ps = .ok out) :
    applyFrom encode' length cursor (rest.map f) ps = .ok (out.map f) := by
  induction ps generalizing cursor rest out with
  | nil =>
    rw [applyFrom] at h ⊢
    rw [Except.ok.inj h]
  | cons p more ih =>
    -- the checks look at places only, so they pass as before
    obtain ⟨h1, h2, h3, tail, htail, rfl⟩ := applyFrom_cons_ok.mp h
    refine applyFrom_cons_ok.mpr ⟨h1, h2, h3, tail.map f, ?_, ?_⟩
    · rw [← List.map_drop]
      exact ih htail
    · rw [List.map_append, List.map_append, hencode, List.map_take]

/-- **Patches are accepted** exactly if they start behind the cursor, are the right way round, end in
the source, and each ends before the next ones start. -/
theorem exists_applyFrom_iff {α : Type} {encode : String → List α} {length cursor : Int}
    {rest : List α} {ps : List Patch} :
    (∃ out, applyFrom encode length cursor rest ps = .ok out) ↔
      (∀ p ∈ ps, cursor ≤ p.start ∧ p.start ≤ p.stop ∧ p.stop ≤ length) ∧
        ps.Pairwise fun p q => p.stop ≤ q.start := by
  induction ps generalizing cursor rest with
  | nil => exact iff_of_true ⟨rest, rfl⟩ ⟨by simp, List.Pairwise.nil⟩
  | cons p more ih =>
    rw [List.forall_mem_cons, List.pairwise_cons]
    constructor
    · rintro ⟨out, h⟩
      obtain ⟨hcursor, hle, hlength, tail, htail, -⟩ := applyFrom_cons_ok.mp h
      obtain ⟨hbounds, hpairwise⟩ := ih.mp ⟨tail, htail⟩
      refine ⟨⟨⟨hcursor, hle, hlength⟩, fun q hq => ?_⟩, fun q hq => (hbounds q hq).1, hpairwise⟩
      -- the cursor has moved to the end of this patch
      have := hbounds q hq
      omega
    · rintro ⟨⟨⟨hcursor, hle, hlength⟩, hbounds⟩, hbehind, hpairwise⟩
      obtain ⟨tail, htail⟩ : ∃ tail,
          applyFrom encode length p.stop (rest.drop (p.stop - cursor).toNat) more = .ok tail :=
        ih.mpr ⟨fun q hq => ⟨hbehind q hq, (hbounds q hq).2⟩, hpairwise⟩
      exact ⟨_, applyFrom_cons_ok.mpr ⟨hcursor, hle, hlength, tail, htail, rfl⟩⟩

/-- Patches that could be applied lie within the text, behind the cursor. -/
theorem bounds_of_applyFrom {α : Type} {encode : String → List α} {length cursor : Int}
    {rest out : List α} {ps : List Patch} (h : applyFrom encode length cursor rest ps = .ok out)
    {p : Patch} (hp : p ∈ ps) : cursor ≤ p.start ∧ p.start ≤ p.stop ∧ p.stop ≤ length :=
  (exists_applyFrom_iff.mp ⟨out, h⟩).1 p hp

/-- In particular they start behind the cursor. -/
theorem le_start_of_applyFrom {α : Type} {encode : String → List α} {length cursor : Int}
    {rest out : List α} {ps : List Patch} (h : applyFrom encode length cursor rest ps = .ok out)
    {p : Patch} (hp : p ∈ ps) : cursor ≤ p.start :=
  (bounds_of_applyFrom h hp).1

/-- **Patches of two stretches that follow each other** do to the two together what they do to each. -/
theorem applyFrom_append {α : Type} {encode : String → List α} {length cursor middle : Int}
    {s u out out' : List α} {ps qs : List Patch}
    (hps : applyFrom encode middle cursor s ps = .ok out) (hmiddle : middle = cursor + s.length)
    (hlength : middle ≤ length) (hqs : applyFrom encode length middle u qs = .ok out') :
    applyFrom encode length cursor (s ++ u) (ps ++ qs) = .ok (out ++ out') := by
  induction ps generalizing cursor s out with
  | nil =>
    rw [applyFrom] at hps
    obtain rfl := Except.ok.inj hps
    cases qs with
    | nil =>
      rw [applyFrom] at hqs
      obtain rfl := Except.ok.inj hqs
      rfl
    | cons q more =>
      -- the first patch of the second stretch leaves the first stretch as it is
      obtain ⟨h1, h2, h3, tail, htail, rfl⟩ := applyFrom_cons_ok.mp hqs
      have htake : (q.start - cursor).toNat = s.length + (q.start - middle).toNat := by omega
      have hdrop : (q.stop - cursor).toNat = s.length + (q.stop - middle).toNat := by omega
      refine applyFrom_cons_ok.mpr ⟨by omega, h2, h3, tail, ?_, ?_⟩
      · rw [hdrop, List.drop_length_add_append]
        exact htail
      · rw [htake, List.take_length_add_append, List.append_assoc, List.append_assoc,
          List.append_assoc]
  | cons p more ih =>
    obtain ⟨h1, h2, h3, tail, htail, rfl⟩ := applyFrom_cons_ok.mp hps
    have hle : (p.stop - cursor).toNat ≤ s.length := by omega
    refine applyFrom_cons_ok.mpr ⟨h1, h2, by omega, tail ++ out', ?_, ?_⟩
    · rw [List.drop_append_of_le_length hle]
      refine ih htail ?_
      rw [List.length_drop]
      omega
    · rw [List.take_append_of_le_length (by omega)]
      simp only [List.append_assoc]

/-- The patches that start at an offset or before it. -/
def upTo (ps : List Patch) (b : Nat) : List Patch :=
  ps.filter fun p => p.start ≤ b

/-- Behind an accepted patch nothing starts earlier. -/
theorem upTo_eq_nil {α : Type} {encode : String → List α} {length cursor : Int}
    {rest out : List α} {ps : List Patch} (h : applyFrom encode length cursor rest ps = .ok out)
    {b : Nat} (hb : (b : Int) < cursor) : upTo ps b = [] := by
  unfold upTo
  rw [List.filter_eq_nil_iff]
  intro p hp
  have hle := le_start_of_applyFrom h hp
  simp only [decide_eq_true_eq]
  omega

/-- **An element that is kept cuts the result**: what stands before it is what the patches up to it
make of the source before it. -/
theorem applyFrom_split {α : Type} {encode : String → List α} {length : Int} {ps : List Patch}
    {cursor : Nat} {rest out : List α} (h : applyFrom encode length cursor rest ps = .ok out)
    {b : Nat} (hcursor : cursor ≤ b) {x : α} (hx : rest[b - cursor]? = some x)
    (hkept : ∀ p ∈ ps, ¬(p.start ≤ b ∧ b < p.stop)) :
    ∃ before behind, out = before ++ x :: behind ∧
      applyFrom encode b cursor (rest.take (b - cursor)) (upTo ps b) = .ok before := by
  induction ps generalizing cursor rest out with
  | nil =>
    rw [applyFrom] at h
    obtain ⟨hlt, hget⟩ := List.getElem?_eq_some_iff.mp hx
    refine ⟨rest.take (b - cursor), rest.drop (b - cursor + 1), ?_, rfl⟩
    rw [← Except.ok.inj h, ← hget, ← List.drop_eq_getElem_cons hlt, List.take_append_drop]
  | cons p more ih =>
    obtain ⟨h1, h2, h3, tail, htail, rfl⟩ := applyFrom_cons_ok.mp h
    have hp := hkept p List.mem_cons_self
    by_cases hstart : p.start ≤ b
    · -- the patch ends before the element, which is found in the tail
      have hstop : p.stop ≤ b := by omega
      obtain ⟨stop, hstop'⟩ := Int.eq_ofNat_of_zero_le (show 0 ≤ p.stop by omega)
      rw [hstop'] at htail
      have hdrop : ((stop : Int) - cursor).toNat = stop - cursor := by omega
      have hx' : (rest.drop ((stop : Int) - cursor).toNat)[b - stop]? = some x := by
        rw [hdrop, List.getElem?_drop, show stop - cursor + (b - stop) = b - cursor by omega]
        exact hx
      obtain ⟨before, behind, htail', hbefore⟩ := ih htail (by omega) hx' fun q hq =>
        hkept q (List.mem_cons_of_mem _ hq)
      refine ⟨rest.take (p.start - cursor).toNat ++ encode p.text ++ before, behind, ?_, ?_⟩
      · rw [htail']
        simp
      · have hup : upTo (p :: more) b = p :: upTo more b := by
          simp [upTo, hstart]
        rw [hup]
        refine applyFrom_cons_ok.mpr ⟨h1, h2, hstop, before, ?_, ?_⟩
        · rw [hstop', hdrop, List.drop_take, show b - cursor - (stop - cursor) = b - stop by omega]
          rw [hdrop] at hbefore
          exact hbefore
        · rw [List.take_take, Nat.min_eq_left (by omega)]
    · -- the element stands before the patch
      obtain ⟨hlt, hget⟩ := List.getElem?_eq_some_iff.mp hx
      have hnil : upTo (p :: more) b = [] := by
        have hmore := upTo_eq_nil htail (b := b) (by omega)
        unfold upTo at hmore ⊢
        rw [List.filter_cons_of_neg (by simpa using hstart), hmore]
      rw [hnil]
      refine ⟨rest.take (b - cursor), (rest.take (p.start - cursor).toNat).drop (b - cursor + 1) ++
        encode p.text ++ tail, ?_, rfl⟩
      generalize hk : (p.start - cursor).toNat = k
      have hlt' : b - cursor < (rest.take k).length := by
        rw [List.length_take]
        omega
      have hcut : rest.take k = rest.take (b - cursor) ++ x :: (rest.take k).drop (b - cursor + 1) := by
        have htake : (rest.take k).take (b - cursor) = rest.take (b - cursor) := by
          rw [List.take_take, Nat.min_eq_left (by omega)]
        have hget' : (rest.take k)[b - cursor] = x := by
          rw [List.getElem_take]
          exact hget
        rw [← htake, ← hget', ← List.drop_eq_getElem_cons hlt', List.take_append_drop]
      calc rest.take k ++ encode p.text ++ tail
          = (rest.take (b - cursor) ++ x :: (rest.take k).drop (b - cursor + 1)) ++
              encode p.text ++ tail := by rw [← hcut]
        _ = rest.take (b - cursor) ++ x ::
              ((rest.take k).drop (b - cursor + 1) ++ encode p.text ++ tail) := by simp

/-! ## Texts -/

/-- Whether an offset in bytes lies between two characters of a text, or at one of its ends. -/
def IsBoundary (text : List Char) (offset : Int) : Prop :=
  ∃ before after, text = before ++ after ∧ offset = Utf8.size before

/-- Whether a patch of the bytes of a text replaces characters, and neither removes nor inserts a
newline. -/
structure FitsLine (text : List Char) (p : Patch) : Prop where
  start : IsBoundary text p.start
  stop : IsBoundary text p.stop
  inserted : '\n' ∉ p.text.toList
  removed : (0x0a : UInt8) ∉ between p.start p.stop (Utf8.encodeChars text)

/-- The characters that a patch replaces, and what stands around them. -/
structure Replaces (text : List Char) (p : Patch) (before removed after : List Char) : Prop where
  text_eq : text = before ++ removed ++ after
  start_eq : p.start = Utf8.size before
  stop_eq : p.stop = Utf8.size (before ++ removed)
  inserted : '\n' ∉ p.text.toList
  removed : '\n' ∉ removed

/-- The bytes between two places of a text. -/
theorem between_encodeChars (before middle after : List Char) :
    between (Utf8.size before) (Utf8.size (before ++ middle))
      (Utf8.encodeChars (before ++ middle ++ after)) = Utf8.encodeChars middle := by
  have hlen : (Utf8.encodeChars (before ++ middle ++ after)).length =
      Utf8.size before + Utf8.size middle + Utf8.size after := by
    rw [Utf8.length_encodeChars, Utf8.size_append, Utf8.size_append]
  -- both places lie within the bytes, so neither is cut to fit
  have hstart : position (Utf8.encodeChars (before ++ middle ++ after)).length
      (Utf8.size before : Int) = Utf8.size before := by
    unfold position
    rw [if_pos (by omega), hlen]
    omega
  have hstop : position (Utf8.encodeChars (before ++ middle ++ after)).length
      (Utf8.size (before ++ middle) : Int) = Utf8.size (before ++ middle) := by
    unfold position
    rw [if_pos (by omega), hlen, Utf8.size_append]
    omega
  unfold between
  rw [hstart, hstop, Utf8.take_encodeChars, Utf8.drop_encodeChars]

/-- A patch that fits replaces characters, if it is the right way round. -/
theorem FitsLine.exists_replaces {text : List Char} {p : Patch} (h : FitsLine text p)
    (hle : p.start ≤ p.stop) : ∃ before removed after, Replaces text p before removed after := by
  obtain ⟨before, rest, htext, hstart⟩ := h.start
  obtain ⟨more, after, htext', hstop⟩ := h.stop
  obtain ⟨removed, rfl, rfl⟩ := Utf8.prefix_of_size_le (htext.symm.trans htext') (by omega)
  refine ⟨before, removed, after, htext', hstart, hstop, h.inserted, ?_⟩
  have hbytes := h.removed
  rw [hstart, hstop, htext', between_encodeChars] at hbytes
  exact fun hmem => hbytes ((Utf8.newline_mem_encodeChars_iff removed).mpr hmem)

/-- A patch that replaces a piece without a newline fits its line. -/
theorem Replaces.fitsLine {text before removed after : List Char} {p : Patch}
    (h : Replaces text p before removed after) : FitsLine text p where
  start := ⟨before, removed ++ after, by rw [h.text_eq, List.append_assoc], h.start_eq⟩
  stop := ⟨before ++ removed, after, h.text_eq, h.stop_eq⟩
  inserted := h.inserted
  removed := by
    rw [h.start_eq, h.stop_eq, h.text_eq, between_encodeChars, Utf8.newline_mem_encodeChars_iff]
    exact h.removed

/-- A patch that fits covers no newline. -/
theorem FitsLine.not_covers_newline {before behind : List Char} {p : Patch}
    (h : FitsLine (before ++ '\n' :: behind) p) :
    ¬(p.start ≤ Utf8.size before ∧ (Utf8.size before : Int) < p.stop) := by
  rintro ⟨hstart, hstop⟩
  obtain ⟨front, removed, after, hr⟩ := h.exists_replaces (by omega)
  have htext := hr.text_eq
  rw [hr.start_eq] at hstart
  rw [hr.stop_eq] at hstop
  -- what stands before the newline ends within what is removed
  obtain ⟨kept, hkept, hrest⟩ := Utf8.prefix_of_size_le htext (by omega)
  cases kept with
  | nil =>
    rw [List.append_nil] at hkept
    rw [hkept] at hstop
    omega
  | cons c kept =>
    obtain ⟨rfl, -⟩ := List.cons.inj hrest
    obtain ⟨middle, rfl, hremoved⟩ := Utf8.prefix_of_size_le hkept (by omega)
    exact hr.removed (by rw [hremoved]; simp)

/-- The rest of a text is edited: stretches are kept, and each patch replaces one. `done` is what
stands before the rest. -/
inductive Edits : List Char → List Char → List Patch → List Char → Prop
  | keep (done rest : List Char) : Edits done rest [] rest
  | edit {done kept removed rest out : List Char} {p : Patch} {more : List Patch}
      (hstart : p.start = Utf8.size (done ++ kept))
      (hstop : p.stop = Utf8.size (done ++ kept ++ removed))
      (hinserted : '\n' ∉ p.text.toList) (hremoved : '\n' ∉ removed)
      (hmore : Edits (done ++ kept ++ removed) rest more out) :
      Edits done (kept ++ removed ++ rest) (p :: more) (kept ++ p.text.toList ++ out)

/-- **Accepted patches of the bytes edit the text**, if they fit. -/
theorem edits_of_applyFrom {ps : List Patch} {done rest : List Char} {bytes : List UInt8}
    (h : applyFrom Utf8.encode (Utf8.size (done ++ rest)) (Utf8.size done) (Utf8.encodeChars rest)
      ps = .ok bytes)
    (hps : ∀ p ∈ ps, FitsLine (done ++ rest) p) :
    ∃ out, bytes = Utf8.encodeChars out ∧ Edits done rest ps out := by
  induction ps generalizing done rest bytes with
  | nil =>
    rw [applyFrom] at h
    exact ⟨rest, (Except.ok.inj h).symm, .keep done rest⟩
  | cons p more ih =>
    obtain ⟨h1, h2, h3, tail, htail, rfl⟩ := applyFrom_cons_ok.mp h
    obtain ⟨before, removed, after, hr⟩ := (hps p List.mem_cons_self).exists_replaces h2
    have hstart := hr.start_eq
    have hstop := hr.stop_eq
    -- what is kept stands between what is done and what is removed
    obtain ⟨kept, rfl, hrest⟩ := Utf8.prefix_of_size_le (y := removed ++ after)
      (hr.text_eq.trans (List.append_assoc _ _ _)) (by omega)
    subst hrest
    have htext : done ++ (kept ++ (removed ++ after)) = done ++ kept ++ removed ++ after := by simp
    rw [Utf8.size_append] at hstart
    rw [Utf8.size_append, Utf8.size_append] at hstop
    have hkept : (p.start - (Utf8.size done : Int)).toNat = Utf8.size kept := by omega
    have hboth : (p.stop - (Utf8.size done : Int)).toNat = Utf8.size (kept ++ removed) := by
      rw [Utf8.size_append]
      omega
    have hcursor : p.stop = (Utf8.size (done ++ kept ++ removed) : Int) := by
      rw [Utf8.size_append, Utf8.size_append]
      omega
    rw [hboth, ← List.append_assoc kept, Utf8.drop_encodeChars, hcursor, List.append_assoc kept,
      htext] at htail
    rw [htext] at hps
    obtain ⟨out, rfl, hedits⟩ := ih htail fun q hq => hps q (List.mem_cons_of_mem _ hq)
    refine ⟨kept ++ p.text.toList ++ out, ?_, ?_⟩
    · rw [hkept, Utf8.take_encodeChars, Utf8.encodeChars_append, Utf8.encodeChars_append]
      rfl
    · rw [← List.append_assoc]
      exact .edit hr.start_eq hcursor hr.inserted hr.removed hedits

/-- Patches that were applied and fit their lines are edits of characters, not only of bytes. -/
theorem exists_edits {text : List Char} {ps : List Patch} {out : List UInt8}
    (h : applyToBytes (Utf8.encodeChars text) ps = .ok out) (hps : ∀ p ∈ ps, FitsLine text p) :
    ∃ patched, out = Utf8.encodeChars patched ∧ Edits [] text (sortPatches ps) patched := by
  have hfrom : applyFrom Utf8.encode (Utf8.size ([] ++ text)) (Utf8.size [])
      (Utf8.encodeChars text) (sortPatches ps) = .ok out := by
    rw [List.nil_append, ← Utf8.length_encodeChars]
    exact h
  exact edits_of_applyFrom hfrom fun p hp => hps p (mem_of_mem_sortPatches hp)

theorem fitsLine_of_mem_sortPatches {text : List Char} {ps : List Patch} {out : List UInt8}
    (h : applyToBytes (Utf8.encodeChars text) ps = .ok out) (hps : ∀ p ∈ ps, FitsLine text p) :
    ∀ p ∈ sortPatches ps, FitsLine text p ∧ p.start ≤ p.stop := fun p hp =>
  ⟨hps p (mem_of_mem_sortPatches hp), (bounds_of_applyFrom h hp).2.1⟩

/-- An edit of the text is what the patches do to its bytes. -/
theorem Edits.applyFrom_eq {done rest out : List Char} {ps : List Patch}
    (h : Edits done rest ps out) :
    applyFrom Utf8.encode (Utf8.size (done ++ rest)) (Utf8.size done) (Utf8.encodeChars rest) ps =
      .ok (Utf8.encodeChars out) := by
  induction h with
  | keep done rest => rfl
  | @edit done kept removed rest out p more hstart hstop _ _ _ ih =>
    -- `done` is what the cursor is behind, so offsets from it are sizes of `kept` and `removed`
    have hkept : (p.start - (Utf8.size done : Int)).toNat = Utf8.size kept := by
      rw [hstart, Utf8.size_append]
      omega
    have hboth : (p.stop - (Utf8.size done : Int)).toNat = Utf8.size (kept ++ removed) := by
      rw [hstop, Utf8.size_append, Utf8.size_append, Utf8.size_append]
      omega
    have htext : done ++ (kept ++ removed ++ rest) = done ++ kept ++ removed ++ rest := by simp
    refine applyFrom_cons_ok.mpr ⟨?_, ?_, ?_, Utf8.encodeChars out, ?_, ?_⟩
    · rw [hstart, Utf8.size_append]
      omega
    · rw [hstart, hstop, Utf8.size_append _ removed]
      omega
    · rw [hstop, htext, Utf8.size_append _ rest]
      omega
    · rw [hboth, Utf8.drop_encodeChars, hstop, htext]
      exact ih
    · rw [hkept, List.append_assoc kept removed, Utf8.take_encodeChars, Utf8.encodeChars_append,
        Utf8.encodeChars_append]
      rfl

/-- **A character that is kept cuts the edit.** -/
theorem Edits.split {done rest out : List Char} {ps : List Patch} (h : Edits done rest ps out)
    {before behind : List Char} {c : Char} (hrest : rest = before ++ c :: behind)
    (hkept : ∀ p ∈ ps,
      ¬(p.start ≤ Utf8.size (done ++ before) ∧ (Utf8.size (done ++ before) : Int) < p.stop)) :
    ∃ before' behind', out = before' ++ c :: behind' ∧
      Edits done before (upTo ps (Utf8.size (done ++ before))) before' := by
  induction h generalizing before with
  | keep done rest => exact ⟨before, behind, hrest, .keep done before⟩
  | @edit done kept removed rest out p more hstart hstop hinserted hremoved hmore ih =>
    have hp := hkept p List.mem_cons_self
    by_cases hle : p.start ≤ Utf8.size (done ++ before)
    · -- the patch ends before the character
      have hstop' : p.stop ≤ Utf8.size (done ++ before) := by omega
      have hsize : Utf8.size (kept ++ removed) ≤ Utf8.size before := by
        rw [hstop, List.append_assoc, Utf8.size_append done, Utf8.size_append done] at hstop'
        omega
      obtain ⟨middle, rfl, hrest'⟩ := Utf8.prefix_of_size_le hrest hsize
      have hdone : done ++ (kept ++ removed ++ middle) = done ++ kept ++ removed ++ middle := by simp
      rw [hdone] at hkept hle ⊢
      obtain ⟨before', behind', rfl, hedits⟩ := ih hrest' fun q hq =>
        hkept q (List.mem_cons_of_mem _ hq)
      refine ⟨kept ++ p.text.toList ++ before', behind', by simp, ?_⟩
      have hup : upTo (p :: more) (Utf8.size (done ++ kept ++ removed ++ middle)) =
          p :: upTo more (Utf8.size (done ++ kept ++ removed ++ middle)) := by
        simp only [upTo, hle, List.filter_cons_of_pos, decide_true]
      rw [hup]
      exact .edit hstart hstop hinserted hremoved hedits
    · -- the character stands before the patch
      have hsize : Utf8.size before < Utf8.size kept := by
        rw [hstart, Utf8.size_append, Utf8.size_append] at hle
        omega
      obtain ⟨middle, rfl, hmiddle⟩ := Utf8.prefix_of_size_le (hrest.symm.trans
        (List.append_assoc _ _ _)) (Nat.le_of_lt hsize)
      cases middle with
      | nil =>
        rw [List.append_nil] at hsize
        omega
      | cons d middle =>
        obtain ⟨rfl, _⟩ := List.cons.inj hmiddle
        refine ⟨before, middle ++ p.text.toList ++ out, by simp, ?_⟩
        have hnil : upTo (p :: more) (Utf8.size (done ++ before)) = [] := by
          have hrest := upTo_eq_nil hmore.applyFrom_eq (b := Utf8.size (done ++ before)) (by
            have hlt : Utf8.size before < Utf8.size (before ++ c :: middle) := hsize
            simp only [Utf8.size_append] at hlt ⊢
            omega)
          unfold upTo at hrest ⊢
          rw [List.filter_cons_of_neg (by simpa using hle), hrest]
        rw [hnil]
        exact .keep done before

end Packwright.Patch
