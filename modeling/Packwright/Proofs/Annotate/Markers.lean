import Packwright.Annotate
import Packwright.Proofs.Patch.Ordering
import Packwright.Proofs.Syntax.Placement
import Packwright.Proofs.Syntax.Weave

/-!
# Markers are woven comments

Patches that insert a comment at characters of some code weave the comment into it, once at each
place however often it is asked for.
-/

namespace Packwright

open Packwright.Syntax
open Packwright.Text

variable {comment : Comment}

namespace Patch

/-! ## Insertions in order -/

/-- Insertions of one text that start together are the same patch. -/
theorem insertion_congr {text : String} {p q : Patch} (hp : ∃ place : Nat, p = insertion place text)
    (hq : ∃ place : Nat, q = insertion place text) (hstart : p.start = q.start) : p = q := by
  obtain ⟨m, rfl⟩ := hp
  obtain ⟨n, rfl⟩ := hq
  have hplace : (m : Int) = n := hstart
  rw [Int.ofNat_inj.mp hplace]

def startsAt (ps : List Patch) (place : Nat) : Bool :=
  ps.any fun p => p.start == place

/-- A place is marked exactly if some patch starts there. -/
theorem startsAt_iff {ps : List Patch} {place : Nat} :
    startsAt ps place = true ↔ ∃ p ∈ ps, p.start = place := by
  rw [startsAt, List.any_eq_true]
  exact exists_congr fun p => and_congr_right fun _ => beq_iff_eq

/-- With a first patch, the comment woven in behind what stands before it. -/
theorem weave_startsAt_cons {p : Patch} {more : List Patch} {offset : Nat}
    {before rest : List Char} (hstart : p.start = (offset + Utf8.size before : Nat))
    (hfirst : ∀ q ∈ more, p.start < q.start) (hne : rest ≠ []) :
    weave comment (startsAt (p :: more)) offset (before ++ rest) =
      before ++ comment.text ++ weave comment (startsAt more) (offset + Utf8.size before) rest := by
  -- nothing starts in front of the first patch, and nothing else where it starts
  have hbefore : ∀ place, startsAt (p :: more) place = true →
      ¬(offset ≤ place ∧ place < offset + Utf8.size before) := by
    intro place hmarked hin
    obtain ⟨q, hq, hqstart⟩ := startsAt_iff.mp hmarked
    rcases List.mem_cons.mp hq with rfl | hq
    · omega
    · have hlt := hfirst q hq
      omega
  have hhere : startsAt (p :: more) (offset + Utf8.size before) = true :=
    startsAt_iff.mpr ⟨p, List.mem_cons_self, hstart⟩
  have hbehind : ∀ place, offset + Utf8.size before < place →
      startsAt (p :: more) place = startsAt more place := by
    intro place hlt
    have hother : (p.start == (place : Int)) = false := beq_eq_false_iff_ne.mpr (by omega)
    rw [startsAt, List.any_cons, hother, Bool.false_or, startsAt]
  have hnone : ¬ startsAt more (offset + Utf8.size before) = true := by
    intro hmarked
    obtain ⟨q, hq, hqstart⟩ := startsAt_iff.mp hmarked
    have hlt := hfirst q hq
    omega
  rw [weave_append comment rest hbefore, weave_eq, if_pos ⟨hhere, hne⟩,
    weaveBehind_congr comment rest hbehind, weave_eq comment (startsAt more) _ rest,
    if_neg fun hmarked => hnone hmarked.1, List.nil_append, List.append_assoc]

/-- **Insertions in order weave the comment in.** -/
theorem applyFrom_insertions {ps : List Patch} {text : String} (htext : text.toList = comment.text)
    {length : Int} {offset : Nat} {s : List Char} (hlength : (offset + Utf8.size s : Nat) ≤ length)
    (hall : ∀ p ∈ ps, ∃ before rest, s = before ++ rest ∧ rest ≠ [] ∧
      p = insertion (offset + Utf8.size before) text)
    (hsorted : ps.Pairwise fun p q => p.start < q.start) :
    applyFrom Utf8.encode length offset (Utf8.encodeChars s) ps =
      .ok (Utf8.encodeChars (weave comment (startsAt ps) offset s)) := by
  induction ps generalizing offset s with
  | nil =>
    have hnone : ∀ place, offset ≤ place → startsAt [] place = false := fun place _ => rfl
    rw [applyFrom, weave_of_unmarked comment s hnone]
  | cons p more ih =>
    obtain ⟨before, rest, rfl, hne, hp⟩ := hall p List.mem_cons_self
    obtain ⟨hfirst, hmore⟩ := List.pairwise_cons.mp hsorted
    have hstart : p.start = (offset + Utf8.size before : Nat) := by rw [hp]; rfl
    have hstop : p.stop = (offset + Utf8.size before : Nat) := by rw [hp]; rfl
    rw [Utf8.size_append] at hlength
    -- the other places are behind this one, so they are places of what is left
    have hothers : ∀ q ∈ more, ∃ before' rest', rest = before' ++ rest' ∧ rest' ≠ [] ∧
        q = insertion (offset + Utf8.size before + Utf8.size before') text := by
      intro q hq
      obtain ⟨before', rest', heq, hne', hq'⟩ := hall q (List.mem_cons_of_mem _ hq)
      have hlt := hfirst q hq
      have hqstart : q.start = (offset + Utf8.size before' : Nat) := by rw [hq']; rfl
      obtain ⟨middle, rfl, rfl⟩ := Utf8.prefix_of_size_le heq (by omega)
      refine ⟨middle, rest', rfl, hne', ?_⟩
      rw [hq', Utf8.size_append, Nat.add_assoc]
    have hkept : (p.start - (offset : Int)).toNat = Utf8.size before := by omega
    have hgone : (p.stop - (offset : Int)).toNat = Utf8.size before := by omega
    refine applyFrom_cons_ok.mpr ⟨by omega, by omega, by omega,
      Utf8.encodeChars (weave comment (startsAt more) (offset + Utf8.size before) rest), ?_, ?_⟩
    · rw [hgone, hstop, Utf8.drop_encodeChars]
      exact ih (by omega) hothers hmore
    · have hbytes : Utf8.encode p.text = Utf8.encodeChars comment.text := by
        rw [hp]
        exact congrArg Utf8.encodeChars htext
      rw [weave_startsAt_cons hstart hfirst hne, hkept, Utf8.take_encodeChars, hbytes,
        Utf8.encodeChars_append, Utf8.encodeChars_append]

end Patch

/-! ## Code with markers -/

namespace Annotate

/-- The marker, as a comment. -/
def markerComment : Comment where
  body := "@__PURE__*/".toList
  closed := fun s => rfl
  oneLine := by decide

/-- The marker is the comment that the reader of programs skips. -/
theorem marker_toList : marker.toList = markerComment.text := by decide

/-- **Markers at characters of some code are woven into it.** -/
theorem applyToCode_markers {code : String} {places : List Nat}
    (hplaces : ∀ place ∈ places, AtChar code.toList place) :
    applyToCode code (places.map fun place => Patch.insertion place marker) =
      .ok (String.ofList (weave markerComment (places.contains ·) 0 code.toList)) := by
  generalize hps : (places.map fun place => Patch.insertion place marker) = ps
  have hmarkers : ∀ p ∈ ps, ∃ place ∈ places, p = Patch.insertion place marker := by
    intro p hp
    rw [← hps] at hp
    obtain ⟨place, hplace, rfl⟩ := List.mem_map.mp hp
    exact ⟨place, hplace, rfl⟩
  have hsame : ∀ p ∈ ps, ∀ q ∈ ps, p.start = q.start → p = q := fun p hp q hq =>
    Patch.insertion_congr ((hmarkers p hp).imp fun _ h => h.2) ((hmarkers q hq).imp fun _ h => h.2)
  obtain ⟨hsorted, hmem⟩ := Patch.sortPatches_of_alike hsame
  have hinside : ∀ p ∈ Patch.sortPatches ps, ∃ before rest, code.toList = before ++ rest ∧
      rest ≠ [] ∧ p = Patch.insertion (0 + Utf8.size before) marker := by
    intro p hp
    obtain ⟨place, hplace, rfl⟩ := hmarkers p ((hmem p).mp hp)
    obtain ⟨before, rest, hcode, hne, rfl⟩ := hplaces place hplace
    exact ⟨before, rest, hcode, hne, by rw [Nat.zero_add]⟩
  have hlength : ((0 + Utf8.size code.toList : Nat) : Int) ≤ (Utf8.encode code).length := by
    rw [Utf8.encode, Utf8.length_encodeChars]
    omega
  have hmarked : ∀ place, 0 ≤ place →
      Patch.startsAt (Patch.sortPatches ps) place = places.contains place := by
    intro place _
    rw [Bool.eq_iff_iff, Patch.startsAt_iff, List.contains_iff_mem]
    constructor
    · rintro ⟨p, hp, hstart⟩
      obtain ⟨place', hplace', rfl⟩ := hmarkers p ((hmem p).mp hp)
      rwa [← Int.ofNat_inj.mp hstart]
    · intro hplace
      refine ⟨Patch.insertion place marker, (hmem _).mpr ?_, rfl⟩
      rw [← hps]
      exact List.mem_map_of_mem hplace
  have happly := Patch.applyFrom_insertions marker_toList hlength hinside hsorted
  rw [weave_congr markerComment _ hmarked] at happly
  rw [applyToCode, Patch.applyToBytes, Patch.applyPatches]
  -- what comes of it are the bytes of a text, so reading them as one changes nothing
  have hbytes : Utf8.encode code = Utf8.encodeChars code.toList := rfl
  rw [hbytes] at happly ⊢
  rw [← Int.natCast_zero, happly]
  dsimp only
  rw [Utf8.decode, Utf8.decodeChars_encodeChars]
  rfl

end Annotate

end Packwright
