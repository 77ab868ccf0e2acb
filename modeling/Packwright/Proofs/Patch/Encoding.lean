import Mathlib.Data.List.Forall2
import Packwright.Proofs.Patch.Splicing
import Packwright.Proofs.Traversal

/-!
# Patches of a text and of its bytes

The offsets of a patch count characters if it is applied to a text, and bytes if it is applied to the
bytes of a text. It does the same in both ways, as long as each offset means the same place.

* `SamePlace` relates the two ways to count a place: the places of a text correspond, and so do those
  in front of it and those behind it. It keeps the order of two places, unless both are outside.
* `forall₂_sortPatches`: patches that start inside are put in order alike, and the same ones repeat the
  one before them.
* `applyFrom_encoded` is the pass over patches in order, with the cursor at one place of the text.
-/

namespace Packwright.Patch

open Packwright.Text

/-! ## Places -/

/-- Whether an offset in characters and one in bytes are the same place of a text, which may be at one
of its ends. -/
def Inside (s : List Char) (i j : Int) : Prop :=
  ∃ before after, s = before ++ after ∧ i = before.length ∧ j = Utf8.size before

/-- Whether an offset in characters means what one in bytes means: the same place of a text, a place in
front of it, or a place behind it. -/
inductive SamePlace (s : List Char) (i j : Int) : Prop
  | inside (h : Inside s i j)
  | below (hi : i < 0) (hj : j < 0)
  | above (hi : s.length < i) (hj : Utf8.size s < j)

variable {s : List Char} {i j i' j' : Int}

/-- Two places that are the same, inside the text, lie within its characters and its bytes. -/
theorem Inside.bounds (h : Inside s i j) :
    0 ≤ i ∧ i ≤ s.length ∧ 0 ≤ j ∧ j ≤ Utf8.size s := by
  obtain ⟨before, after, rfl, rfl, rfl⟩ := h
  rw [List.length_append, Utf8.size_append]
  omega

/-- **The order of places is that of their offsets**, in characters and in bytes. -/
theorem Inside.le_iff (h : Inside s i j) (h' : Inside s i' j') : i ≤ i' ↔ j ≤ j' := by
  obtain ⟨before, after, rfl, rfl, rfl⟩ := h
  obtain ⟨before', after', htext, rfl, rfl⟩ := h'
  -- one of the two beginnings of the text begins the other
  rcases Int.le_total (Utf8.size before) (Utf8.size before') with hle | hle
  · obtain ⟨middle, rfl, -⟩ := Utf8.prefix_of_size_le htext (by omega)
    rw [List.length_append]
    omega
  · obtain ⟨middle, rfl, -⟩ := Utf8.prefix_of_size_le htext.symm (by omega)
    have hpos : Utf8.size middle = 0 → middle = [] := Utf8.eq_nil_of_size_eq_zero
    rw [List.length_append, Utf8.size_append]
    constructor
    · intro hlength
      have hnil : middle = [] := List.length_eq_zero_iff.mp (by omega)
      simp [hnil]
    · intro hsize
      have hnil : middle = [] := hpos (by omega)
      simp [hnil]

/-- The order of places is the same in characters and in bytes. -/
theorem Inside.le_iff_of_samePlace (h : Inside s i j) (h' : SamePlace s i' j') :
    (i ≤ i' ↔ j ≤ j') ∧ (i' ≤ i ↔ j' ≤ j) := by
  obtain ⟨h1, h2, h3, h4⟩ := h.bounds
  cases h' with
  | inside h' => exact ⟨h.le_iff h', h'.le_iff h⟩
  | below hi hj => omega
  | above hi hj => omega

/-- A place is inside if its offset is, counted either way. -/
theorem SamePlace.inside_iff (h : SamePlace s i j) :
    (Inside s i j ↔ 0 ≤ i ∧ i ≤ s.length) ∧ (Inside s i j ↔ 0 ≤ j ∧ j ≤ Utf8.size s) := by
  cases h with
  | inside h =>
    obtain ⟨h1, h2, h3, h4⟩ := h.bounds
    exact ⟨iff_of_true h ⟨h1, h2⟩, iff_of_true h ⟨h3, h4⟩⟩
  | below hi hj =>
    have hout : ¬ Inside s i j := fun h => by have := h.bounds; omega
    exact ⟨iff_of_false hout (by omega), iff_of_false hout (by omega)⟩
  | above hi hj =>
    have hout : ¬ Inside s i j := fun h => by have := h.bounds; omega
    exact ⟨iff_of_false hout (by omega), iff_of_false hout (by omega)⟩

/-- Every offset in characters has one in bytes that means the same. -/
theorem exists_samePlace (s : List Char) (i : Int) : ∃ j, SamePlace s i j := by
  by_cases hneg : i < 0
  · exact ⟨-1, .below hneg (by omega)⟩
  · by_cases hbig : (s.length : Int) < i
    · exact ⟨Utf8.size s + 1, .above hbig (by omega)⟩
    · refine ⟨Utf8.size (s.take i.toNat), .inside ⟨s.take i.toNat, s.drop i.toNat, ?_, ?_, rfl⟩⟩
      · rw [List.take_append_drop]
      · rw [List.length_take]
        omega

/-! ## Patches -/

/-- Whether a patch of a text and one of its bytes are the same, up to how they count. -/
structure Encoded (s : List Char) (p q : Patch) : Prop where
  start : SamePlace s p.start q.start
  text : p.text = q.text
  stop? : Option.Rel (SamePlace s) p.stop? q.stop?

variable {p q p' q' : Patch} {ps qs : List Patch}

/-- The ends of an encoded patch are the same place as well. -/
theorem Encoded.stop (h : Encoded s p q) : SamePlace s p.stop q.stop := by
  have hstart := h.start
  have hstop := h.stop?
  unfold Patch.stop
  generalize p.stop? = stop?, q.stop? = stop?' at hstop
  cases hstop with
  | some hplace => exact hplace
  | none => exact hstart

/-- Every patch of a text has one of its bytes. -/
theorem exists_encoded (s : List Char) (p : Patch) : ∃ q, Encoded s p q := by
  obtain ⟨start, hstart⟩ := exists_samePlace s p.start
  cases hstop : p.stop? with
  | none =>
    refine ⟨⟨start, p.text, none⟩, hstart, rfl, ?_⟩
    rw [hstop]
    exact .none
  | some stop =>
    obtain ⟨stop', hstop'⟩ := exists_samePlace s stop
    refine ⟨⟨start, p.text, some stop'⟩, hstart, rfl, ?_⟩
    rw [hstop]
    exact .some hstop'

/-- A patch that starts at a place of the text, counted in both ways. -/
structure EncodedInside (s : List Char) (p q : Patch) : Prop extends Encoded s p q where
  inside : Inside s p.start q.start

/-- Two patches repeat each other in characters exactly if they do in bytes. -/
theorem sameInsertion_eq (h : EncodedInside s p q) (h' : EncodedInside s p' q') :
    sameInsertion p p' = sameInsertion q q' := by
  have hle := h.inside.le_iff h'.inside
  have hge := h'.inside.le_iff h.inside
  have hstart : (p.start == p'.start) = (q.start == q'.start) := by
    rw [Bool.eq_iff_iff, beq_iff_eq, beq_iff_eq]
    omega
  unfold sameInsertion
  rw [h.text, h'.text, hstart]

/-- So the same repeats are dropped, by the recursion of the function. -/
theorem forall₂_dropRepeats (h : List.Forall₂ (EncodedInside s) ps qs) :
    List.Forall₂ (EncodedInside s) (dropRepeats ps) (dropRepeats qs) := by
  induction ps using dropRepeats.induct generalizing qs with
  | case1 =>
    cases h
    simp [dropRepeats]
  | case2 p =>
    cases h with
    | cons hp hrest =>
      cases hrest
      simpa [dropRepeats] using hp
  | case3 p r rest hsame ih =>
    obtain ⟨q, _, hp, hmore, rfl⟩ := List.forall₂_cons_left_iff.mp h
    obtain ⟨t, _, hr, hrest, rfl⟩ := List.forall₂_cons_left_iff.mp hmore
    -- a repeat in characters is one in bytes
    have hsame' : sameInsertion q t = true := (sameInsertion_eq hp hr).symm.trans hsame
    rw [dropRepeats, if_pos hsame, dropRepeats, if_pos hsame']
    exact ih (.cons hp hrest)
  | case4 p r rest hdiffer ih =>
    obtain ⟨q, _, hp, hmore, rfl⟩ := List.forall₂_cons_left_iff.mp h
    obtain ⟨t, _, hr, hrest, rfl⟩ := List.forall₂_cons_left_iff.mp hmore
    have hdiffer' : ¬ sameInsertion q t = true := fun hsame =>
      hdiffer ((sameInsertion_eq hp hr).trans hsame)
    rw [dropRepeats, if_neg hdiffer, dropRepeats, if_neg hdiffer']
    exact .cons hp (ih (.cons hr hrest))

/-- **Patches that start inside are put in order alike.** -/
theorem forall₂_sortPatches (h : List.Forall₂ (EncodedInside s) ps qs) :
    List.Forall₂ (EncodedInside s) (sortPatches ps) (sortPatches qs) := by
  refine forall₂_dropRepeats ?_
  -- both lists are sides of one list of pairs, and sorting that sorts them both
  obtain ⟨hlength, hpairs⟩ := List.forall₂_iff_zip.mp h
  generalize hzip : ps.zip qs = pairs at hpairs
  have hps : pairs.map Prod.fst = ps := by rw [← hzip, List.map_fst_zip (by omega)]
  have hqs : pairs.map Prod.snd = qs := by rw [← hzip, List.map_snd_zip (by omega)]
  let before (a b : Patch × Patch) : Bool := a.1.start ≤ b.1.start
  have hfst : (pairs.mergeSort before).map Prod.fst = ps.mergeSort fun p q => p.start ≤ q.start := by
    rw [← hps]
    exact List.map_mergeSort fun _ _ _ _ => rfl
  have hsnd : (pairs.mergeSort before).map Prod.snd = qs.mergeSort fun p q => p.start ≤ q.start := by
    rw [← hqs]
    refine List.map_mergeSort fun a ha b hb => ?_
    have hle := (hpairs ha).inside.le_iff (hpairs hb).inside
    show decide (a.1.start ≤ b.1.start) = decide (a.2.start ≤ b.2.start)
    exact decide_eq_decide.mpr hle
  rw [← hfst, ← hsnd, List.forall₂_map_left_iff, List.forall₂_map_right_iff, List.forall₂_same]
  exact fun pair hpair => hpairs (List.mem_mergeSort.mp hpair)

/-! ## The pass -/

/-- **A pass over a text does to it what the pass over its bytes does to these.** What is left of the
text stands behind the cursor. -/
theorem applyFrom_encoded {done rest : List Char} (hs : s = done ++ rest)
    (h : List.Forall₂ (EncodedInside s) ps qs) :
    (applyFrom String.toList s.length done.length rest ps).toOption.map Utf8.encodeChars =
      (applyFrom Utf8.encode (Utf8.size s) (Utf8.size done) (Utf8.encodeChars rest) qs).toOption := by
  induction h generalizing done rest with
  | nil => rfl
  | @cons p q ps qs hp _ ih =>
    have hcursor : Inside s done.length (Utf8.size done) := ⟨done, rest, hs, rfl, rfl⟩
    have hend : Inside s s.length (Utf8.size s) := ⟨s, [], (List.append_nil s).symm, rfl, rfl⟩
    have hstart := hcursor.le_iff hp.inside
    obtain ⟨hright, -⟩ := hp.inside.le_iff_of_samePlace hp.stop
    obtain ⟨-, hbounds⟩ := hend.le_iff_of_samePlace hp.stop
    rw [applyFrom, applyFrom]
    by_cases hoverlap : p.start < done.length
    · rw [if_pos hoverlap, if_pos (by omega)]
      rfl
    · rw [if_neg hoverlap, if_neg (show ¬ q.start < Utf8.size done by omega)]
      by_cases hout : p.stop < p.start ∨ p.stop > s.length
      · rw [if_pos hout, if_pos (show q.stop < q.start ∨ q.stop > Utf8.size s by omega)]
        rfl
      · rw [if_neg hout, if_neg (show ¬ (q.stop < q.start ∨ q.stop > Utf8.size s) by omega)]
        -- the patch cuts what is left of the text into what is kept, what is replaced and the rest
        obtain ⟨upTo, behind, hupTo, hpstart, hqstart⟩ := hp.inside
        obtain ⟨kept, rfl, hrest⟩ := Utf8.prefix_of_size_le (hs.symm.trans hupTo) (by omega)
        have hstop : Inside s p.stop q.stop := hp.stop.inside_iff.1.mpr ⟨by omega, by omega⟩
        obtain ⟨through, after, hthrough, hpstop, hqstop⟩ := hstop
        obtain ⟨removed, rfl, hbehind⟩ := Utf8.prefix_of_size_le (hupTo.symm.trans hthrough) (by omega)
        subst hrest hbehind
        have htake : (p.start - (done.length : Int)).toNat = kept.length := by
          rw [hpstart, List.length_append]
          omega
        have hdrop : (p.stop - (done.length : Int)).toNat = (kept ++ removed).length := by
          rw [hpstop, List.length_append, List.length_append, List.length_append]
          omega
        have htake' : (q.start - (Utf8.size done : Int)).toNat = Utf8.size kept := by
          rw [hqstart, Utf8.size_append]
          omega
        have hdrop' : (q.stop - (Utf8.size done : Int)).toNat = Utf8.size (kept ++ removed) := by
          rw [hqstop, Utf8.size_append, Utf8.size_append, Utf8.size_append]
          omega
        have hmore := ih hthrough
        rw [← hpstop, ← hqstop] at hmore
        dsimp only
        rw [htake, hdrop, htake', hdrop', List.take_left, Utf8.take_encodeChars, ← List.append_assoc,
          List.drop_left, Utf8.drop_encodeChars, ← hp.text]
        cases htail : applyFrom String.toList s.length p.stop after ps <;>
          cases htail' : applyFrom Utf8.encode (Utf8.size s) q.stop (Utf8.encodeChars after) qs <;>
          rw [htail, htail'] at hmore <;>
          simp_all [Except.map, Except.toOption, Utf8.encode]

/-! ## Patches that start outside -/

/-- Patches are refused if one of them starts outside of what they are applied to. -/
theorem exists_error_of_outside {α : Type} (encode : String → List α) (source : List α) (hp : p ∈ ps)
    (hout : ¬ (0 ≤ p.start ∧ p.start ≤ source.length)) :
    ∃ e, applyPatches encode source ps = .error e := by
  cases h : applyPatches encode source ps with
  | error e => exact ⟨e, rfl⟩
  | ok out =>
    -- sorting keeps a patch with this start, which the pass cannot have accepted
    obtain ⟨q, hq, hstart, -⟩ := exists_dropRepeats_of_mem (List.mem_mergeSort.mpr hp)
    have hbounds := bounds_of_applyFrom h hq
    exact absurd (show 0 ≤ p.start ∧ p.start ≤ source.length by omega) hout

/-- **Applying patches to the characters and then encoding is applying the encoded patches to the
bytes.** Where a place lies outside, both refuse. -/
theorem applyPatches_encoded (h : List.Forall₂ (Encoded s) ps qs) :
    (applyPatches String.toList s ps).toOption.map Utf8.encodeChars =
      (applyPatches Utf8.encode (Utf8.encodeChars s) qs).toOption := by
  by_cases hinside : List.Forall₂ (EncodedInside s) ps qs
  · unfold applyPatches
    rw [Utf8.length_encodeChars]
    have htext : s = [] ++ s := rfl
    exact applyFrom_encoded htext (forall₂_sortPatches hinside)
  · obtain ⟨hlength, hpairs⟩ := List.forall₂_iff_zip.mp h
    -- one patch starts outside, on both sides, and it makes both fail
    have hsome : ∃ pair ∈ ps.zip qs, ¬ Inside s pair.1.start pair.2.start := by
      by_contra hnone
      refine hinside (List.forall₂_iff_zip.mpr ⟨hlength, fun {p q} hpair => ⟨hpairs hpair, ?_⟩⟩)
      by_contra hout
      exact hnone ⟨(p, q), hpair, hout⟩
    obtain ⟨⟨p, q⟩, hpair, hout⟩ := hsome
    obtain ⟨hp, hq⟩ := List.of_mem_zip hpair
    obtain ⟨hchars, hbytes⟩ := (hpairs hpair).start.inside_iff
    obtain ⟨e, htext⟩ := exists_error_of_outside String.toList s hp fun hin => hout (hchars.mpr hin)
    obtain ⟨e', hbytes'⟩ := exists_error_of_outside Utf8.encode (Utf8.encodeChars s) hq fun hin => by
      rw [Utf8.length_encodeChars] at hin
      exact hout (hbytes.mpr hin)
    rw [htext, hbytes']
    rfl

/-- **Patching a text and patching its bytes agree.** Every list of patches that count characters can
be written with offsets in bytes, and however that is done, places outside staying outside on their
side: applied to the bytes of the text the patches yield the bytes of what they yield applied to the
text, and they are refused there exactly if they are refused here. -/
theorem applyToText_encodes (source : String) (ps : List Patch) :
    (∃ qs, List.Forall₂ (Encoded source.toList) ps qs) ∧
    ∀ qs, List.Forall₂ (Encoded source.toList) ps qs →
      (∀ out, applyToText source ps = .ok out →
        applyToBytes (Utf8.encode source) qs = .ok (Utf8.encode out)) ∧
      ((∃ e, applyToText source ps = .error e) ↔
        ∃ e, applyToBytes (Utf8.encode source) qs = .error e) := by
  refine ⟨Traversal.exists_forall₂ fun p _ => exists_encoded source.toList p, fun qs h => ?_⟩
  have hagree := applyPatches_encoded h
  have hsource : Utf8.encode source = Utf8.encodeChars source.toList := rfl
  unfold applyToText applyToBytes
  rw [hsource]
  generalize applyPatches String.toList source.toList ps = patched,
    applyPatches Utf8.encode (Utf8.encodeChars source.toList) qs = patchedBytes at hagree ⊢
  -- both are refused, or neither is and the bytes are those of the text
  cases patched with
  | error e =>
    cases patchedBytes with
    | error e' => exact ⟨fun out hout => absurd hout (by simp [Except.map]), by simp [Except.map]⟩
    | ok bytes => exact absurd hagree (by simp [Except.toOption])
  | ok chars =>
    cases patchedBytes with
    | error e' => exact absurd hagree (by simp [Except.toOption])
    | ok bytes =>
      have hsame : Utf8.encodeChars chars = bytes := Option.some.inj hagree
      refine ⟨fun out hout => ?_, by simp [Except.map]⟩
      rw [← Except.ok.inj hout, ← hsame, Utf8.encode, String.toList_ofList]

/-- Patches of a text of characters of one, two and four bytes, out of order: the last one repeats the
first one and is dropped, although it ends behind the text. -/
def editsOutOfOrder : List Patch :=
  [⟨2, "!", none⟩, ⟨0, "→", some 1⟩, ⟨2, "!", some 9⟩]

/-- The same with offsets in bytes. -/
def byteEditsOutOfOrder : List Patch :=
  [⟨6, "!", none⟩, ⟨0, "→", some 2⟩, ⟨6, "!", some 8⟩]

/-- Patches out of order, one at the end of a text with characters of two, three and four bytes. -/
theorem applyToText_encodes_outOfOrder :
    List.Forall₂ (Encoded "é𝒳b".toList) editsOutOfOrder byteEditsOutOfOrder ∧
      applyToText "é𝒳b" editsOutOfOrder = .ok "→𝒳!b" ∧
      applyToBytes (Utf8.encode "é𝒳b") byteEditsOutOfOrder = .ok (Utf8.encode "→𝒳!b") := by
  -- the places, in characters and in bytes
  have hfront : SamePlace "é𝒳b".toList 0 0 := .inside ⟨[], "é𝒳b".toList, rfl, rfl, rfl⟩
  have hsecond : SamePlace "é𝒳b".toList 1 2 :=
    .inside ⟨"é".toList, "𝒳b".toList, by decide +kernel, by decide +kernel, by decide +kernel⟩
  have hthird : SamePlace "é𝒳b".toList 2 6 :=
    .inside ⟨"é𝒳".toList, "b".toList, by decide +kernel, by decide +kernel, by decide +kernel⟩
  have hbehind : SamePlace "é𝒳b".toList 9 8 := .above (by decide +kernel) (by decide +kernel)
  have hencoded : List.Forall₂ (Encoded "é𝒳b".toList) editsOutOfOrder byteEditsOutOfOrder :=
    .cons ⟨hthird, rfl, .none⟩ (.cons ⟨hfront, rfl, .some hsecond⟩
      (.cons ⟨hthird, rfl, .some hbehind⟩ .nil))
  have hsorted : sortPatches editsOutOfOrder = [⟨0, "→", some 1⟩, ⟨2, "!", none⟩] := by
    simp [sortPatches, editsOutOfOrder, List.mergeSort, dropRepeats, sameInsertion]
  have htext : applyToText "é𝒳b" editsOutOfOrder = .ok "→𝒳!b" := by
    unfold applyToText applyPatches
    rw [hsorted]
    decide +kernel
  obtain ⟨-, hagrees⟩ := applyToText_encodes "é𝒳b" editsOutOfOrder
  exact ⟨hencoded, htext, (hagrees _ hencoded).1 _ htext⟩

end Packwright.Patch
