import Packwright.Proofs.Annotate.KeptLines
import Packwright.Proofs.Annotate.WalkOrder
import Packwright.Proofs.Syntax.Declaration

/-!
# Programs with a fused declaration

Annotating code with one fused call does three things to it: a sign for a value takes the place of a
semicolon, a return goes in front of a brace, and markers go in front of calls. Where the declaration
and the call are statements side by side, what comes of it is a program again, with the two in one.

* `Cut` takes the code apart where the first two happen, and `MovesAlong` says where the places of the
  markers are behind them.
* `applyFrom_fusing` is what the patches make of a text. They are sorted, so `exists_spread` finds the
  markers in three stretches around the other two, and each stretch is woven by itself.
* `annotate_eq_weave_fused` says this of annotated code, and `annotate_fuses` how it is read.
-/

namespace Packwright.Annotate

open Packwright.Patch
open Packwright.Syntax
open Packwright.Text

/-! ## The characters of a declaration -/

/-- Bytes of ASCII, as characters. -/
def asciiChars (bytes : List UInt8) : List Char :=
  bytes.map fun b => Char.ofNat b.toNat

/-- The bytes of names and blanks are ASCII, and their characters are those of names and blanks. -/
theorem ofNat_of_isNameByte (b : UInt8) :
    (isNameByte b = true → b.toNat < 0x80 ∧ Lexeme.isNameChar (Char.ofNat b.toNat) = true) ∧
      (isBlankByte b = true → b.toNat < 0x80 ∧ Lexeme.isBlank (Char.ofNat b.toNat) = true) := by
  have table : ∀ n : Fin 256,
      (isNameByte (UInt8.ofNat n) = true →
        n.val < 0x80 ∧ Lexeme.isNameChar (Char.ofNat n) = true) ∧
      (isBlankByte (UInt8.ofNat n) = true →
        n.val < 0x80 ∧ Lexeme.isBlank (Char.ofNat n) = true) := by
    decide +kernel
  have hb := table ⟨b.toNat, b.toNat_lt⟩
  rwa [UInt8.ofNat_toNat] at hb

theorem encodeChars_asciiChars {bytes : List UInt8} (h : ∀ b ∈ bytes, b.toNat < 0x80) :
    Utf8.encodeChars (asciiChars bytes) = bytes := by
  have table : ∀ n : Fin 128, String.utf8EncodeChar (Char.ofNat n) = [UInt8.ofNat n] := by
    decide +kernel
  induction bytes with
  | nil => rfl
  | cons b rest ih =>
    have hone := table ⟨b.toNat, h b List.mem_cons_self⟩
    have hrest := ih fun x hx => h x (List.mem_cons_of_mem _ hx)
    show String.utf8EncodeChar (Char.ofNat b.toNat) ++ Utf8.encodeChars (asciiChars rest) = _
    rw [hone, hrest, UInt8.ofNat_toNat]
    rfl

theorem isBlank_of_mem_asciiChars {bytes : List UInt8} (h : ∀ b ∈ bytes, isBlankByte b = true) :
    ∀ c ∈ asciiChars bytes, Lexeme.isBlank c = true := by
  intro c hc
  obtain ⟨b, hb, rfl⟩ := List.mem_map.mp hc
  exact ((ofNat_of_isNameByte b).2 (h b hb)).2

namespace Declaring

/-- The characters of the declaration from its word up to its semicolon. -/
def opening (t : Declaring) : List Char :=
  asciiChars t.word ++ (asciiChars t.blanks ++ (asciiChars t.name ++ asciiChars t.behind))

/-- The characters of the declaration with a mark where its semicolon is. -/
def chars (t : Declaring) (mark : List Char) : List Char :=
  t.opening ++ (mark ++ asciiChars t.last)

/-- The declaring word is one that the reader knows. -/
theorem exists_word (t : Declaring) :
    ∃ w ∈ ["var", "let", "const"], t.word = Utf8.encode w ∧ asciiChars t.word = w.toList := by
  obtain ⟨w, hw, heq⟩ := List.mem_map.mp t.word_mem
  refine ⟨w, hw, heq.symm, ?_⟩
  rw [← heq]
  simp only [List.mem_cons, List.not_mem_nil, or_false] at hw
  rcases hw with rfl | rfl | rfl <;> decide

theorem encodeChars_blanks {bytes : List UInt8} (h : ∀ b ∈ bytes, isBlankByte b = true) :
    Utf8.encodeChars (asciiChars bytes) = bytes :=
  encodeChars_asciiChars fun b hb => ((ofNat_of_isNameByte b).2 (h b hb)).1

/-- Names and blanks are ASCII, so the characters are written as the bytes that they come from. -/
theorem encodeChars_opening (t : Declaring) :
    Utf8.encodeChars t.opening = t.word ++ (t.blanks ++ (t.name ++ t.behind)) := by
  obtain ⟨w, hw, heq, -⟩ := t.exists_word
  have hword : (t.word.all fun b => decide (b.toNat < 0x80)) = true := by
    rw [heq]
    simp only [List.mem_cons, List.not_mem_nil, or_false] at hw
    rcases hw with rfl | rfl | rfl <;> decide
  have hchars : Utf8.encodeChars (asciiChars t.word) = t.word :=
    encodeChars_asciiChars fun b hb => of_decide_eq_true (List.all_eq_true.mp hword b hb)
  have hname : Utf8.encodeChars (asciiChars t.name) = t.name :=
    encodeChars_asciiChars fun b hb => ((ofNat_of_isNameByte b).1 (t.name_name b hb)).1
  simp only [opening, Utf8.encodeChars_append, hchars, encodeChars_blanks t.blanks_blank, hname,
    encodeChars_blanks t.behind_blank]

/-- What is read backwards in the bytes is a declaration for the reader, if its name is none of the
reserved words. -/
theorem declares {t : Declaring} (hname : Lexeme.IsName (asciiChars t.name)) {w : String}
    (hw : w ∈ ["var", "let", "const"]) :
    Lexeme.Declares w (asciiChars t.blanks) (asciiChars t.name) (asciiChars t.behind) where
  word := hw
  blanks_ne_nil := by simpa [asciiChars] using t.blanks_ne
  blanks := isBlank_of_mem_asciiChars t.blanks_blank
  name := hname
  behind := isBlank_of_mem_asciiChars t.behind_blank

end Declaring

/-! ## The characters of the code -/

/-- The characters of some code, cut where patches fuse a declaration with the call behind it: what
stands before the declaration, what stands between it and the end of the function that is called, and
what follows from the closing brace of the function on. -/
structure Cut (code : List Char) (t : Declaring) (body : Node) where
  front : List Char
  inside : List Char
  behind : List Char
  code_eq : code = front ++ (t.chars [';'] ++ (inside ++ behind))
  front_eq : Utf8.encodeChars front = t.front
  stop_eq : body.stop = Utf8.size (front ++ (t.chars [';'] ++ inside)) + 1

namespace Cut

variable {code : List Char} {t : Declaring} {body : Node}

/-- The code with what is to be returned at the end of the function, and with a mark where the
semicolon of the declaration is. -/
def patched (cut : Cut code t body) (parameter mark : List Char) : List Char :=
  cut.front ++ (t.chars mark ++ (cut.inside ++ ((returning parameter).toList ++ cut.behind)))

/-- The places of the two patches, as sizes of what stands before them. -/
theorem semicolon_eq (cut : Cut code t body) :
    t.semicolon = Utf8.size (cut.front ++ t.opening) := by
  rw [← Utf8.length_encodeChars, Utf8.encodeChars_append, cut.front_eq, t.encodeChars_opening]
  rfl

theorem brace_eq (cut : Cut code t body) :
    body.stop - 1 = t.semicolon + 1 + Utf8.size (asciiChars t.last ++ cut.inside) := by
  rw [cut.stop_eq, cut.semicolon_eq, Declaring.chars]
  simp only [Utf8.size_append, Utf8.size_cons, Utf8.size_nil, show (';' : Char).utf8Size = 1 from rfl]
  omega

/-- The code, cut at the semicolon and before the brace. -/
theorem code_eq_append (cut : Cut code t body) :
    code = (cut.front ++ t.opening) ++ ';' :: ((asciiChars t.last ++ cut.inside) ++ cut.behind) := by
  refine cut.code_eq.trans ?_
  rw [Declaring.chars]
  simp

theorem patched_eq_append (cut : Cut code t body) (parameter mark : List Char) :
    cut.patched parameter mark = (cut.front ++ t.opening) ++ (mark ++
      ((asciiChars t.last ++ cut.inside) ++ ((returning parameter).toList ++ cut.behind))) := by
  rw [patched, Declaring.chars]
  simp

end Cut

/-- A place of a text that lies in a stretch of it is a place of the stretch. -/
theorem exists_of_atChar {x s y : List Char} {place : Nat} (h : AtChar (x ++ (s ++ y)) place)
    (hle : Utf8.size x ≤ place) (hlt : place < Utf8.size (x ++ s)) :
    ∃ before rest, s = before ++ rest ∧ rest ≠ [] ∧ place = Utf8.size x + Utf8.size before := by
  obtain ⟨pre, suf, htext, -, rfl⟩ := h
  obtain ⟨before, rfl, hrest⟩ := Utf8.prefix_of_size_le htext hle
  rw [Utf8.size_append, Utf8.size_append] at hlt
  obtain ⟨rest, rfl, -⟩ := Utf8.prefix_of_size_le hrest.symm (by omega)
  refine ⟨before, rest, rfl, ?_, Utf8.size_append x before⟩
  rintro rfl
  rw [List.append_nil] at hlt
  omega

/-- Whether patches are the markers at the places with some property, in their order. -/
structure AreMarkers (ps : List Patch) (holds : Nat → Prop) : Prop where
  insertion : ∀ p ∈ ps, ∃ place : Nat, p = Patch.insertion place marker
  mem_iff : ∀ place : Nat, Patch.insertion place marker ∈ ps ↔ holds place
  sorted : ps.Pairwise fun p q => p.start < q.start

/-- **Markers in a stretch of a text are woven into it.** Where the stretch starts in the result does
not matter: what is marked are places as far from there. -/
theorem AreMarkers.applyFrom {ps : List Patch} {holds : Nat → Prop} (h : AreMarkers ps holds)
    (start offset : Nat) (s : List Char) {marked : Nat → Bool}
    (hholds : ∀ place, holds place → ∃ before rest, s = before ++ rest ∧ rest ≠ [] ∧
      place = start + Utf8.size before)
    (hmarked : ∀ k < Utf8.size s, marked (offset + k) = true ↔ holds (start + k)) :
    Patch.applyFrom Utf8.encode (start + Utf8.size s : Nat) start (Utf8.encodeChars s) ps =
      .ok (Utf8.encodeChars (weave markerComment marked offset s)) := by
  have hinside : ∀ p ∈ ps, ∃ before rest, s = before ++ rest ∧ rest ≠ [] ∧
      p = Patch.insertion (start + Utf8.size before) marker := by
    intro p hp
    obtain ⟨place, rfl⟩ := h.insertion p hp
    obtain ⟨before, rest, hs, hne, rfl⟩ := hholds place ((h.mem_iff place).mp hp)
    exact ⟨before, rest, hs, hne, rfl⟩
  have hsame : ∀ k < Utf8.size s, startsAt ps (start + k) = marked (offset + k) := by
    intro k hk
    rw [Bool.eq_iff_iff, hmarked k hk, startsAt_iff, ← h.mem_iff]
    constructor
    · rintro ⟨p, hp, hstart⟩
      obtain ⟨place, rfl⟩ := h.insertion p hp
      rwa [← Int.ofNat_inj.mp hstart]
    · exact fun hp => ⟨_, hp, rfl⟩
  rw [← weave_shift markerComment s hsame]
  exact applyFrom_insertions marker_toList (Int.le_refl _) hinside h.sorted

/-- The markers among sorted patches that start where a condition holds. -/
theorem areMarkers_filter {ps : List Patch} {places : List Nat} {keeps : Patch → Bool}
    {within : Nat → Prop} (hsorted : ps.Pairwise fun p q => p.start < q.start)
    (hplaces : ∀ place ∈ places, Patch.insertion place marker ∈ ps)
    (hmarker : ∀ p ∈ ps, keeps p = true → ∃ place ∈ places, p = Patch.insertion place marker)
    (hwithin : ∀ place : Nat, keeps (Patch.insertion place marker) = true ↔ within place) :
    AreMarkers (ps.filter keeps) fun place => place ∈ places ∧ within place := by
  have hmem : ∀ p ∈ ps.filter keeps, ∃ place ∈ places, p = Patch.insertion place marker :=
    fun p hp => hmarker p (List.mem_filter.mp hp).1 (List.mem_filter.mp hp).2
  refine ⟨fun p hp => (hmem p hp).imp fun _ h => h.2, fun place => ⟨fun hp => ?_, fun h => ?_⟩,
    hsorted.filter _⟩
  · obtain ⟨place', hplace', heq⟩ := hmem _ hp
    obtain rfl : place = place' := Int.ofNat_inj.mp (congrArg Patch.start heq)
    exact ⟨hplace', (hwithin place).mp (List.mem_filter.mp hp).2⟩
  · exact List.mem_filter.mpr ⟨hplaces place h.1, (hwithin place).mpr h.2⟩

/-- A patch cuts sorted ones in those that start before it and those that start behind it. -/
theorem eq_filter_append_cons {ps : List Patch} {p : Patch}
    (hsorted : ps.Pairwise fun p q => p.start < q.start) (hp : p ∈ ps) :
    ps = (ps.filter fun q => q.start < p.start) ++ p :: ps.filter fun q => p.start < q.start := by
  obtain ⟨front, behind, rfl⟩ := List.append_of_mem hp
  obtain ⟨-, hrest, hcross⟩ := List.pairwise_append.mp hsorted
  have hbehind := (List.pairwise_cons.mp hrest).1
  have hfront : ∀ q ∈ front, q.start < p.start := fun q hq => hcross q hq p List.mem_cons_self
  have hself : ¬ p.start < p.start := Int.lt_irrefl _
  have hle : ∀ {q : Patch}, q.start < p.start → ¬ p.start < q.start := fun h => Int.lt_asymm h
  simp only [List.filter_append, List.filter_cons, hself, decide_false, if_neg, Bool.false_eq_true,
    not_false_eq_true]
  rw [List.filter_eq_self.mpr fun q hq => decide_eq_true (hfront q hq),
    List.filter_eq_nil_iff.mpr fun q hq => by simpa using Int.le_of_lt (hbehind q hq),
    List.filter_eq_nil_iff.mpr fun q hq => by simpa using Int.le_of_lt (hfront q hq),
    List.filter_eq_self.mpr fun q hq => decide_eq_true (hbehind q hq), List.append_nil,
    List.nil_append]

/-- **Sorted patches with two that are no markers**: the markers before both, between them and behind
both stand there in the list. -/
theorem exists_spread {ps : List Patch} {p q : Patch} {places : List Nat} {first second : Nat}
    (hp : p.start = first) (hq : q.start = second) (hlt : first < second)
    (hsorted : ps.Pairwise fun p q => p.start < q.start)
    (hmem : ∀ r, r ∈ ps ↔ (r = p ∨ r = q) ∨ ∃ place ∈ places, r = Patch.insertion place marker) :
    ∃ front middle behind, ps = front ++ p :: (middle ++ q :: behind) ∧
      AreMarkers front (fun place => place ∈ places ∧ place < first) ∧
      AreMarkers middle (fun place => place ∈ places ∧ first < place ∧ place < second) ∧
      AreMarkers behind (fun place => place ∈ places ∧ second < place) := by
  have hin : ∀ place ∈ places, Patch.insertion place marker ∈ ps := fun place hplace =>
    (hmem _).mpr (.inr ⟨place, hplace, rfl⟩)
  have hmarker : ∀ r ∈ ps, r.start ≠ first ∧ r.start ≠ second →
      ∃ place ∈ places, r = Patch.insertion place marker := by
    rintro r hr ⟨hne, hne'⟩
    rcases (hmem r).mp hr with (rfl | rfl) | hplace
    · exact absurd hp hne
    · exact absurd hq hne'
    · exact hplace
  have hps := eq_filter_append_cons hsorted ((hmem p).mpr (.inl (.inl rfl)))
  have hbehind := eq_filter_append_cons (p := q) (hsorted.filter fun r => decide (p.start < r.start))
    (List.mem_filter.mpr ⟨(hmem q).mpr (.inl (.inr rfl)), by simp [hp, hq, hlt]⟩)
  rw [List.filter_filter, List.filter_filter] at hbehind
  rw [hbehind] at hps
  have hstart : ∀ place : Nat, (Patch.insertion place marker).start = place := fun _ => rfl
  refine ⟨_, _, _, hps, ?_, ?_, ?_⟩
  · refine areMarkers_filter hsorted hin (fun r hr hkeep => hmarker r hr ?_) fun place => ?_
    · rw [hp, decide_eq_true_eq] at hkeep
      omega
    · rw [hp, hstart, decide_eq_true_eq]
      omega
  · refine areMarkers_filter hsorted hin (fun r hr hkeep => hmarker r hr ?_) fun place => ?_
    · rw [hp, hq, Bool.and_eq_true, decide_eq_true_eq, decide_eq_true_eq] at hkeep
      omega
    · rw [hp, hq, hstart, Bool.and_eq_true, decide_eq_true_eq, decide_eq_true_eq]
      omega
  · refine areMarkers_filter hsorted hin (fun r hr hkeep => hmarker r hr ?_) fun place => ?_
    · rw [hp, hq, Bool.and_eq_true, decide_eq_true_eq, decide_eq_true_eq] at hkeep
      omega
    · rw [hp, hq, hstart, Bool.and_eq_true, decide_eq_true_eq, decide_eq_true_eq]
      omega

/-! ## Places in the patched text -/

/-- Where a place of a text is when the byte at `semicolon` has become two and `length` bytes stand
before the one at `brace`. -/
def movedPlace (semicolon brace length place : Nat) : Nat :=
  place + (if semicolon < place then 1 else 0) + (if brace < place then length else 0)

/-- Whether the marked places of the patched text are places of the text that have moved along. -/
structure MovesAlong (places : List Nat) (semicolon brace length : Nat) (marked : Nat → Bool) :
    Prop where
  front : ∀ k < semicolon, (marked k = true ↔ k ∈ places)
  middle : ∀ k, semicolon < k → k < brace → (marked (k + 1) = true ↔ k ∈ places)
  behind : ∀ k, brace ≤ k → (marked (k + 1 + length) = true ↔ k ∈ places ∧ brace < k)
  sign : ∀ place, marked place = true → ¬(semicolon ≤ place ∧ place < semicolon + 2)
  text : ∀ place, marked place = true → ¬(brace + 1 ≤ place ∧ place < brace + 1 + length)

/-- Places other than the two that patches go to move along with what stands there. -/
theorem movesAlong_map {places : List Nat} {semicolon brace : Nat} (length : Nat)
    (hlt : semicolon < brace) (h : ∀ place ∈ places, place ≠ semicolon ∧ place ≠ brace) :
    MovesAlong places semicolon brace length
      ((places.map (movedPlace semicolon brace length)).contains ·) := by
  have hmoved : ∀ {target : Nat},
      (places.map (movedPlace semicolon brace length)).contains target = true ↔
        ∃ place ∈ places, movedPlace semicolon brace length place = target := by
    intro target
    rw [List.contains_iff_mem, List.mem_map]
  have hfrom : ∀ {place target : Nat}, (∀ other ∈ places,
      (movedPlace semicolon brace length other = target ↔ other = place)) →
      ((places.map (movedPlace semicolon brace length)).contains target = true ↔ place ∈ places) :=
    fun heq => hmoved.trans ⟨fun ⟨other, hother, htarget⟩ => (heq other hother).mp htarget ▸ hother,
      fun hplace => ⟨_, hplace, (heq _ hplace).mpr rfl⟩⟩
  constructor
  case front | middle =>
    intros
    refine hfrom fun other hother => ?_
    have hne := h other hother
    unfold movedPlace
    split <;> split <;> omega
  case behind =>
    intro k hle
    rw [hfrom fun other hother => ?_]
    · exact ⟨fun hk => ⟨hk, Nat.lt_of_le_of_ne hle (h k hk).2.symm⟩, And.left⟩
    · have hne := h other hother
      unfold movedPlace
      split <;> split <;> omega
  case sign | text =>
    intro target htarget
    obtain ⟨place, hplace, rfl⟩ := hmoved.mp htarget
    have hne := h place hplace
    unfold movedPlace
    split <;> split <;> omega

/-- Nothing is woven into what the two patches put in, and what stands around it is woven by itself. -/
theorem MovesAlong.weave_eq {x y z inserted : List Char} {places : List Nat} {marked : Nat → Bool}
    (h : MovesAlong places (Utf8.size x) (Utf8.size x + 1 + Utf8.size y) (Utf8.size inserted) marked) :
    weave markerComment marked 0 (x ++ (" =".toList ++ (y ++ (inserted ++ z)))) =
      weave markerComment marked 0 x ++ (" =".toList ++
        (weave markerComment marked (Utf8.size x + 2) y ++ (inserted ++ weave markerComment marked
          (Utf8.size x + 1 + Utf8.size y + 1 + Utf8.size inserted) z))) := by
  have hoffset : Utf8.size x + 2 + Utf8.size y = Utf8.size x + 1 + Utf8.size y + 1 := by omega
  rw [weave_split, Nat.zero_add, weave_append _ _ h.sign, weave_split _ _ _ y]
  show _ ++ (_ ++ (_ ++ weave markerComment marked (Utf8.size x + 2 + Utf8.size y) _)) = _
  rw [hoffset, weave_append _ _ h.text]
  rfl

/-- A sign for a semicolon and a text before a later character, with patches of the stretches around
them: each stretch becomes what its own patches make of it. -/
theorem applyFrom_stretches {x y z x' y' z' : List Char} {text : String}
    {front middle behind : List Patch}
    (hx : applyFrom Utf8.encode (Utf8.size x : Nat) 0 (Utf8.encodeChars x) front =
      .ok (Utf8.encodeChars x'))
    (hy : applyFrom Utf8.encode (Utf8.size x + 1 + Utf8.size y : Nat) (Utf8.size x + 1 : Nat)
      (Utf8.encodeChars y) middle = .ok (Utf8.encodeChars y'))
    (hz : applyFrom Utf8.encode (Utf8.size x + 1 + Utf8.size y + Utf8.size z : Nat)
      (Utf8.size x + 1 + Utf8.size y : Nat) (Utf8.encodeChars z) behind = .ok (Utf8.encodeChars z')) :
    applyFrom Utf8.encode (Utf8.size x + 1 + Utf8.size y + Utf8.size z : Nat) 0
        (Utf8.encodeChars (x ++ ';' :: (y ++ z)))
        (front ++ Patch.replacement (Utf8.size x) (Utf8.size x + 1) " =" ::
          (middle ++ Patch.insertion (Utf8.size x + 1 + Utf8.size y) text :: behind)) =
      .ok (Utf8.encodeChars (x' ++ (" =".toList ++ (y' ++ (text.toList ++ z'))))) := by
  -- from the end backwards: a patch, and the stretch in front of it
  have htext := applyFrom_cons_here (Patch.insertion (Utf8.size x + 1 + Utf8.size y) text) []
    (Int.add_zero _).symm (Int.ofNat_le.mpr (Nat.le_add_right _ _)) hz
  have hrest := applyFrom_append hy (by rw [Utf8.length_encodeChars]; omega) (by omega) htext
  have hsign := applyFrom_cons_here (Patch.replacement (Utf8.size x) (Utf8.size x + 1) " =")
    (Utf8.encode ";") rfl (Int.ofNat_le.mpr (by omega)) hrest
  have hall := applyFrom_append hx (by rw [Utf8.length_encodeChars]; omega) (by omega) hsign
  have hsource : Utf8.encodeChars (x ++ ';' :: (y ++ z)) = Utf8.encodeChars x ++ (Utf8.encode ";" ++
      (Utf8.encodeChars y ++ ([] ++ Utf8.encodeChars z))) := by
    rw [Utf8.encodeChars_append, ← List.singleton_append, Utf8.encodeChars_append,
      Utf8.encodeChars_append]
    rfl
  rw [hsource]
  simp only [Utf8.encodeChars_append]
  exact hall

/-- **What sorted patches make of a text** that put a sign for a value in place of a semicolon, a text
before a later character, and markers elsewhere: the text with the first two, and the markers woven
into it where they have moved to. -/
theorem applyFrom_fusing {x y z : List Char} {text : String} {places : List Nat} {ps : List Patch}
    (hplaces : ∀ place ∈ places, AtChar (x ++ ';' :: (y ++ z)) place)
    (hsorted : ps.Pairwise fun p q => p.start < q.start)
    (hmem : ∀ p, p ∈ ps ↔ (p = Patch.replacement (Utf8.size x) (Utf8.size x + 1) " =" ∨
      p = Patch.insertion (Utf8.size x + 1 + Utf8.size y) text) ∨
      ∃ place ∈ places, p = Patch.insertion place marker)
    {marked : Nat → Bool} (hmarked : MovesAlong places (Utf8.size x)
      (Utf8.size x + 1 + Utf8.size y) (Utf8.size text.toList) marked) :
    applyFrom Utf8.encode (Utf8.size (x ++ ';' :: (y ++ z)) : Nat) 0
        (Utf8.encodeChars (x ++ ';' :: (y ++ z))) ps =
      .ok (Utf8.encodeChars (weave markerComment marked 0
        (x ++ (" =".toList ++ (y ++ (text.toList ++ z)))))) := by
  obtain ⟨front, middle, behind, rfl, hfront, hmiddle, hbehind⟩ := exists_spread rfl rfl
    (by omega) hsorted hmem
  have hsize : Utf8.size (x ++ [';']) = Utf8.size x + 1 := Utf8.size_append x [';']
  have hsize' : Utf8.size (x ++ [';'] ++ y) = Utf8.size x + 1 + Utf8.size y := by
    rw [Utf8.size_append, hsize]
  have hlength : Utf8.size (x ++ ';' :: (y ++ z)) = Utf8.size x + 1 + Utf8.size y + Utf8.size z := by
    rw [← hsize', ← Utf8.size_append]
    simp
  rw [hlength, hmarked.weave_eq]
  -- each of the three stretches keeps its markers, as far from its start as they were
  refine applyFrom_stretches ?front ?middle ?behind
  case front =>
    rw [← Nat.zero_add (Utf8.size x)]
    refine hfront.applyFrom 0 0 x (fun place h => ?_) fun k hk => ?_
    · exact exists_of_atChar (x := []) (hplaces place h.1) (Nat.zero_le _) h.2
    · rw [hmarked.front (0 + k) (by omega)]
      exact ⟨fun h => ⟨h, by omega⟩, And.left⟩
  case middle =>
    refine hmiddle.applyFrom (Utf8.size x + 1) (Utf8.size x + 2) y (fun place h => ?_) fun k hk => ?_
    · have hchar := hplaces place h.1
      rw [show x ++ ';' :: (y ++ z) = x ++ [';'] ++ (y ++ z) by simp] at hchar
      rw [← hsize]
      exact exists_of_atChar hchar (by omega) (by omega)
    · rw [show Utf8.size x + 2 + k = Utf8.size x + 1 + k + 1 by omega,
        hmarked.middle _ (by omega) (by omega)]
      exact ⟨fun h => ⟨h, by omega⟩, And.left⟩
  case behind =>
    refine hbehind.applyFrom (Utf8.size x + 1 + Utf8.size y) _ z (fun place h => ?_) fun k hk => ?_
    · have hchar := hplaces place h.1
      rw [show x ++ ';' :: (y ++ z) = x ++ [';'] ++ y ++ (z ++ []) by simp] at hchar
      rw [← hsize']
      exact exists_of_atChar hchar (by omega) (by simpa using hchar.lt_size)
    · rw [show Utf8.size x + 1 + Utf8.size y + 1 + Utf8.size text.toList + k =
        Utf8.size x + 1 + Utf8.size y + k + 1 + Utf8.size text.toList by omega,
        hmarked.behind _ (by omega)]

/-! ## The patches -/

section Patches

variable {code : List UInt8} {tree call body : Node} {t : Declaring} {parameter : List Char}

/-- A call that is fused calls a function, so it is marked. -/
theorem Fills.isMarked (h : Fills code call t parameter body) : isMarked call = true := by
  obtain ⟨f, hf, hkind, -⟩ := h.function
  obtain ⟨callee, hcallee, rfl⟩ := Option.map_eq_some_iff.mp hf
  -- the word `import` is in no parentheses, and it is no function
  have hne : callee.kind ≠ .importKeyword := by
    intro himport
    have hsame : ∀ fuel, stripParentheses fuel callee = callee := by
      intro fuel
      cases fuel with
      | zero => rfl
      | succ fuel => simp [stripParentheses, himport]
    rw [hsame, himport] at hkind
    exact absurd hkind (by decide)
  rw [Annotate.isMarked, hcallee, Option.map_some, bne_iff_ne]
  exact fun heq => hne (Option.some.inj heq)

/-- If one call of a program is fused, the patches are the two of that call and the markers. -/
theorem mem_patches_iff (hfills : Fills code call t parameter body) (hcall : call ∈ visitedCalls tree)
    (hplain : ∀ other ∈ visitedCalls tree, other ≠ call → enumPatches code other = []) {p : Patch} :
    p ∈ patches code tree ↔ p ∈ fusing t parameter body ∨
      ∃ place ∈ markedPlaces tree, p = Patch.insertion place marker := by
  rw [patches, List.mem_flatMap]
  constructor
  · rintro ⟨other, hother, hp⟩
    unfold callPatches at hp
    split at hp
    · rename_i hmarked
      rcases List.mem_append.mp hp with henum | hmark
      · have hsame : other = call := by
          by_contra hne
          rw [hplain other hother hne] at henum
          exact absurd henum List.not_mem_nil
        rw [hsame, enumPatches_of_fills hfills] at henum
        exact .inl henum
      · exact .inr ⟨other.start, mem_markedPlaces.mpr ⟨other, hother, hmarked, rfl⟩,
          List.mem_singleton.mp hmark⟩
    · exact absurd hp List.not_mem_nil
  · rintro (hfusing | ⟨place, hplace, rfl⟩)
    · refine ⟨call, hcall, ?_⟩
      rw [callPatches, if_pos hfills.isMarked, enumPatches_of_fills hfills]
      exact List.mem_append_left _ hfusing
    · obtain ⟨other, hother, hmarked, rfl⟩ := mem_markedPlaces.mp hplace
      refine ⟨other, hother, ?_⟩
      rw [callPatches, if_pos hmarked]
      exact List.mem_append_right _ List.mem_cons_self

/-- No call starts where one of these two goes: there are a semicolon and a brace. -/
theorem ne_of_mem_markedPlaces (h : Punctuated code tree) (hcall : call ∈ visitedCalls tree)
    (hfills : Fills code call t parameter body) {place : Nat} (hplace : place ∈ markedPlaces tree) :
    place ≠ t.semicolon ∧ place ≠ body.stop - 1 := by
  obtain ⟨other, hother, -, rfl⟩ := mem_markedPlaces.mp hplace
  obtain ⟨hmem, hkind⟩ := mem_nodes_of_mem_visitedCalls hother
  obtain ⟨hsemicolon, hbrace⟩ := h.calls other hmem hkind
  constructor <;> intro heq
  · exact hsemicolon (heq ▸ hfills.semicolon_byte)
  · exact hbrace (heq ▸ h.body_byte hcall hfills)

end Patches

/-! ## The annotated program -/

section Annotated

variable {code : String} {tree call body : Node} {t : Declaring} {parameter : List Char}

/-- Where markers stand in the patched code. -/
def movedMarks (t : Declaring) (parameter : List Char) (body tree : Node) (place : Nat) : Bool :=
  ((markedPlaces tree).map
    (movedPlace t.semicolon (body.stop - 1) (Utf8.size (returning parameter).toList))).contains place

/-- **What annotating makes of code with one fused call**: the two patches of the call, and a marker
before every marked call. -/
theorem annotate_eq_weave_fused (hread : parse? code.toList = some tree)
    (h : Punctuated (Utf8.encode code) tree) (hcall : call ∈ visitedCalls tree)
    (hfills : Fills (Utf8.encode code) call t parameter body)
    (hplain : ∀ other ∈ visitedCalls tree, other ≠ call → enumPatches (Utf8.encode code) other = [])
    (cut : Cut code.toList t body) :
    annotate code none = .ok (String.ofList (weave markerComment (movedMarks t parameter body tree) 0
      (cut.patched parameter [' ', '='])), none) := by
  have hbrace := cut.brace_eq
  have hmarked : MovesAlong (markedPlaces tree) t.semicolon (body.stop - 1)
      (Utf8.size (returning parameter).toList) (movedMarks t parameter body tree) :=
    movesAlong_map _ (by omega) fun place hplace => ne_of_mem_markedPlaces h hcall hfills hplace
  -- only this call puts anything at a closing brace, so no two patches start together
  have honly : ∀ {other body' : Node} {t' : Declaring} {parameter' : List Char},
      other ∈ visitedCalls tree → Fills (Utf8.encode code) other t' parameter' body' →
        other = call := by
    intro other body' t' parameter' hother hfills'
    by_contra hne
    exact enumPatches_ne_nil_iff.mpr ⟨_, _, _, hfills'⟩ (hplain other hother hne)
  obtain ⟨hsorted, hsame⟩ := Patch.sortPatches_of_alike fun p hp q hq =>
    eq_of_start_eq_of_stops h (fun hother hother' hfills hfills' _ =>
      (honly hother hfills).trans (honly hother' hfills').symm) hp hq
  have hmem : ∀ p, p ∈ Patch.sortPatches (patches (Utf8.encode code) tree) ↔
      (p = Patch.replacement t.semicolon (t.semicolon + 1) " =" ∨
        p = Patch.insertion (body.stop - 1) (returning parameter)) ∨
      ∃ place ∈ markedPlaces tree, p = Patch.insertion place marker := by
    intro p
    rw [hsame, mem_patches_iff hfills hcall hplain, fusing, List.mem_pair]
  have hcode := cut.code_eq_append
  have hatChar : ∀ place ∈ markedPlaces tree, AtChar code.toList place := by
    intro place hplace
    obtain ⟨other, hother, -, rfl⟩ := mem_markedPlaces.mp hplace
    exact atChar_of_mem_visitedCalls hread (by rw [hcode]; simp) hother
  rw [hbrace, cut.semicolon_eq] at hmem hmarked
  rw [hcode] at hatChar
  have happly := applyFrom_fusing hatChar hsorted hmem hmarked
  rw [← hcode] at happly
  rw [cut.patched_eq_append, show [' ', '='] = " =".toList from rfl]
  generalize weave markerComment (movedMarks t parameter body tree) 0 _ = out at happly ⊢
  refine (annotate_eq_of_applied hread ?_).1
  have hlength : (Utf8.encode code).length = Utf8.size code.toList := Utf8.length_encodeChars _
  show _ = Except.ok (Utf8.encodeChars (String.ofList out).toList)
  rw [Patch.applyToBytes, Patch.applyPatches, hlength, String.toList_ofList]
  exact happly

/-- Whether the reader of the patched program comes to the declaration, among the statements of the
program and with those before it read. -/
def Cut.IsReached {code : List Char} (cut : Cut code t body) (parameter mark : List Char)
    (before : List Node) (depth : Nat) (ended : Bool) (count : Nat) : Prop :=
  ∃ c : Cursor, Arrives (cut.patched parameter mark) before depth c ∧
    c.At (t.chars mark ++ (cut.inside ++ ((returning parameter).toList ++ cut.behind))) ended count

/-- A declaration that the program starts with is reached, whatever stands for its semicolon. -/
theorem Cut.isReached_of_first {code : List Char} (cut : Cut code t body)
    (hfront : ∀ x ∈ cut.front, Lexeme.isBlank x = true) (parameter mark : List Char) :
    cut.IsReached parameter mark [] 0 (cut.front.any Lexeme.isLineEnd) 0 := by
  obtain ⟨w, hw, -, hword⟩ := t.exists_word
  have hchars : ∀ rest, ∃ x more, t.chars mark ++ rest = x :: more ∧ Lexeme.isBlank x = false ∧
      x ≠ '/' ∧ x ≠ '#' := by
    intro rest
    rw [Declaring.chars, Declaring.opening, hword]
    simp only [List.mem_cons, List.not_mem_nil, or_false] at hw
    rcases hw with rfl | rfl | rfl <;> exact ⟨_, _, rfl, by decide, by decide, by decide⟩
  obtain ⟨x, more, hx, hblank, hslash, hhash⟩ :=
    hchars (cut.inside ++ ((returning parameter).toList ++ cut.behind))
  have hbang : Lexeme.hashBangLength (x :: more) = 0 := by
    simp [Lexeme.hashBangLength, Lexeme.markedLineLength, List.isPrefixOf, Ne.symm hhash]
  obtain ⟨c, hc, harrives⟩ := exists_arrives_start hfront (startsToken_cons hblank hslash) hbang
  rw [Cut.IsReached, Cut.patched, hx]
  exact ⟨c, harrives, hc⟩

/-- **Where a declaration and a call are statements side by side, annotating makes one declaration of
them.** The code with the return put in reads as a program in which the two are statements; then the
annotated code reads as the program in which they are one, as long as no marker comes to stand inside
of what the reader looks at as a whole. -/
theorem annotate_fuses (hread : parse? code.toList = some tree)
    (h : Punctuated (Utf8.encode code) tree) (hcall : call ∈ visitedCalls tree)
    (hfills : Fills (Utf8.encode code) call t parameter body)
    (hplain : ∀ other ∈ visitedCalls tree, other ≠ call → enumPatches (Utf8.encode code) other = [])
    (cut : Cut code.toList t body) {inside : List Char} (hinside : cut.inside = '(' :: inside)
    (hname : Lexeme.IsName (asciiChars t.name))
    {before : List Node} {depth count : Nat} {ended : Bool}
    (hreached : ∀ mark ∈ [[';'], [' ', '=']], cut.IsReached parameter mark before depth ended count)
    {children ending more : List Node} {declaration value : Node} (hvalue : value.kind ≠ .sequence)
    (hreturned : parse? (cut.patched parameter [';']) = some (.branch .program children))
    (hchildren : children.drop before.length =
      declaration :: .branch .expressionStatement (value :: ending) :: more)
    (hunseen : Unseen (movedMarks t parameter body tree)
      (sightings (cut.patched parameter [' ', '=']))) :
    ∃ annotated w tree', annotate code none = .ok (annotated, none) ∧ t.word = Utf8.encode w ∧
      parse? annotated.toList = some tree' ∧ tree'.unplaced =
        (Node.branch .program (children.take before.length ++
          declarationOf w (asciiChars t.name) 0 [.leaf .token 0 ['='], value] ending ::
            more)).unplaced := by
  obtain ⟨w, hw, hword, hchars⟩ := t.exists_word
  -- the patched code without its markers: the reader makes one declaration of the two statements
  obtain ⟨c, harrives, hc⟩ := hreached [';'] (by simp)
  obtain ⟨c', harrives', hc'⟩ := hreached [' ', '='] (by simp)
  -- the sign is one character longer than the semicolon
  have hlength : (cut.patched parameter [';']).length < (cut.patched parameter [' ', '=']).length := by
    simp only [Cut.patched, Declaring.chars, List.length_append, List.length_cons, List.length_nil]
    omega
  simp only [Declaring.chars, Declaring.opening, hinside, hchars, List.append_assoc, List.cons_append,
    List.nil_append] at hc hc'
  obtain ⟨fused, hfused, hsame⟩ := parse?_fused (Declaring.declares hname hw)
    (isBlank_of_mem_asciiChars t.last_blank) hlength harrives harrives' hc hc' hvalue hreturned
    hchildren
  -- and the markers are comments, which the reader passes over
  obtain ⟨tree', hread', hunplaced⟩ := parse?_weave hfused hunseen
  refine ⟨_, w, tree', annotate_eq_weave_fused hread h hcall hfills hplain cut, hword, ?_,
    hunplaced.trans hsame⟩
  rw [String.toList_ofList]
  exact hread'

end Annotated

/-- An enum as compilers write it: a variable, and a call that fills it. -/
def filledEnum : String :=
  "var E;\n(function (E) \x7b\n  E[E[\"A\"] = 0] = \"A\";\n\x7d)(E || (E = \x7b\x7d));"

/-- The declaration in front of the call. -/
def enumDeclaring : Declaring where
  front := []
  word := Utf8.encode "var"
  blanks := [0x20]
  name := [0x45]
  behind := []
  last := [0x0a]
  front_last := by simp
  word_mem := List.mem_cons_self
  blanks_ne := List.cons_ne_nil _ _
  blanks_blank := List.forall_mem_singleton.mpr rfl
  name_ne := List.cons_ne_nil _ _
  name_name := List.forall_mem_singleton.mpr rfl
  behind_blank := List.forall_mem_nil _
  last_blank := List.forall_mem_singleton.mpr rfl

/-- The code cut at its semicolon and before the brace that closes the function. -/
def enumCut {body : Node} (hstop : body.stop = 47) : Cut filledEnum.toList enumDeclaring body where
  front := []
  inside := "(function (E) \x7b\n  E[E[\"A\"] = 0] = \"A\";\n".toList
  behind := "\x7d)(E || (E = \x7b\x7d));".toList
  code_eq := by decide
  front_eq := rfl
  stop_eq := hstop.trans (by decide)

/-- The code with the return put in, and with a mark where its semicolon is. -/
def returningEnum (mark : String) : List Char :=
  ("var E" ++ mark ++
    "\n(function (E) \x7b\n  E[E[\"A\"] = 0] = \"A\";\n;return E;\x7d)(E || (E = \x7b\x7d));").toList

/-- A node with parts is a construct of these parts. -/
theorem eq_branch_of_children {n part : Node} {kind : Kind} {parts : List Node} (hkind : n.kind = kind)
    (hchildren : n.children = part :: parts) : n = .branch kind (part :: parts) := by
  cases n with
  | leaf kind' start text => exact absurd hchildren (by simp [Node.children])
  | branch kind' children => exact congrArg₂ Node.branch hkind hchildren

/-- The variable of an enum becomes a declaration with the call for its value. -/
theorem annotate_fuses_filledEnum :
    ∃ annotated w tree' value ending, annotate filledEnum none = .ok (annotated, none) ∧
      enumDeclaring.word = Utf8.encode w ∧ parse? annotated.toList = some tree' ∧
      tree'.unplaced = (Node.branch .program
        [declarationOf w ['E'] 0 [.leaf .token 0 ['='], value] ending]).unplaced := by
  -- one reading of each program decides all that is asked of its tree
  have hcode : ((parse? filledEnum.toList).any fun tree =>
      decide (Punctuated (Utf8.encode filledEnum) tree) &&
      (visitedCalls tree).map Node.start == [7] && (markedPlaces tree) == [7] &&
      (visitedCalls tree).all fun call =>
        ((callee? call).map (stripParentheses (depthBound call))).any fun f =>
          f.kind == .functionExpression && singleParameter? f == some ['E'] &&
          (f.part? .statementBlock).any fun body => body.stop == 47) = true := by
    decide +kernel
  obtain ⟨tree, hread, hchecks⟩ := (Option.any_eq_true _ _).mp hcode
  simp only [Bool.and_eq_true, decide_eq_true_eq, beq_iff_eq, List.map_eq_singleton_iff] at hchecks
  obtain ⟨⟨⟨hpunctuated, call, hvisited, hstart⟩, hplaces⟩, hfunctions⟩ := hchecks
  simp only [hvisited, List.all_cons, List.all_nil, Bool.and_true, Option.any_eq_true,
    Bool.and_eq_true, beq_iff_eq] at hfunctions
  obtain ⟨f, hf, ⟨hkind, hparameter⟩, body, hbody, hstop⟩ := hfunctions
  have hfills : Fills (Utf8.encode filledEnum) call enumDeclaring ['E'] body :=
    { text_eq := by rw [hstart]; decide
      reach_le := by decide
      function := ⟨f, hf, hkind, hparameter, hbody⟩
      refers := .inl (by decide) }
  have hstatements : ((parse? (returningEnum ";")).any fun returned =>
      returned.kind == .program && returned.children.length == 2 &&
      returned.children.getLast?.any fun statement => statement.kind == .expressionStatement &&
        statement.children.head?.any fun value => value.kind != .sequence) = true := by
    decide +kernel
  obtain ⟨returned, hreturned, hshape⟩ := (Option.any_eq_true _ _).mp hstatements
  simp only [Bool.and_eq_true, beq_iff_eq, bne_iff_ne, Option.any_eq_true, List.length_eq_two,
    List.head?_eq_some_iff] at hshape
  obtain ⟨⟨hprogram, declaration, statement, hboth⟩, last, hlast, hexpression, value,
    ⟨ending, hparts⟩, hvalue⟩ := hshape
  obtain rfl : statement = last := by simpa [hboth] using hlast
  rw [eq_branch_of_children hprogram hboth, eq_branch_of_children hexpression hparts] at hreturned
  have hclear : ((sightings (returningEnum " =")).all fun span =>
      !decide (span.covers 8)) = true := by
    decide +kernel
  -- the one marker stands behind the sign
  have hmoved : movedPlace enumDeclaring.semicolon (47 - 1)
      (Utf8.size (returning ['E']).toList) 7 = 8 := by
    decide
  have hunseen : Unseen (movedMarks enumDeclaring ['E'] body tree)
      (sightings (returningEnum " =")) := by
    intro span hspan place hplace
    rw [movedMarks, hplaces, hstop, List.contains_iff_mem, List.map_singleton,
      List.mem_singleton, hmoved] at hplace
    rw [hplace]
    simpa using List.all_eq_true.mp hclear span hspan
  have hname : Lexeme.IsName (asciiChars enumDeclaring.name) :=
    ⟨by decide, by decide, by decide, by decide⟩
  obtain ⟨annotated, w, tree', hannotated, hw, hread', hsame⟩ := annotate_fuses hread hpunctuated
    (by rw [hvisited]; exact List.mem_cons_self) hfills (by simp [hvisited]) (enumCut hstop) rfl
    hname (fun mark _ => (enumCut hstop).isReached_of_first (by simp [enumCut]) _ mark)
    hvalue hreturned rfl hunseen
  exact ⟨annotated, w, tree', value, ending, hannotated, hw, hread', hsame⟩

end Packwright.Annotate
