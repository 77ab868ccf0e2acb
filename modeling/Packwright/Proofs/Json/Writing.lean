import Packwright.Json.Writer
import Packwright.Proofs.Value

/-!
# Documents are written on one line

Whatever a document holds, it is written in characters of ASCII that can be shown, so that no end
of line is among them.
-/

namespace Packwright.Json

open Packwright.Text

/-- Whether a character of ASCII can be shown. -/
def IsShown (c : Char) : Prop :=
  0x20 ≤ c.toNat ∧ c.toNat < 0x7f

instance : DecidablePred IsShown := fun c =>
  inferInstanceAs (Decidable (0x20 ≤ c.toNat ∧ c.toNat < 0x7f))

/-- The shown characters of a fixed text, by computation. -/
theorem isShown_of_all {s : List Char} (h : s.all (fun c => decide (IsShown c)) = true) :
    ∀ c ∈ s, IsShown c :=
  fun c hc => of_decide_eq_true (List.all_eq_true.mp h c hc)

/-- Digits are shown. -/
theorem isShown_of_isDigit {c : Char} (h : c.isDigit = true) : IsShown c := by
  simp only [Char.isDigit, Bool.and_eq_true, decide_eq_true_eq, ge_iff_le,
    UInt32.le_iff_toNat_le] at h
  obtain ⟨hlow, hhigh⟩ := h
  have hzero : 0x30 ≤ c.toNat := hlow
  have hnine : c.toNat ≤ 0x39 := hhigh
  exact ⟨by omega, by omega⟩

theorem isShown_toString {i : Int} : ∀ c ∈ (toString i).toList, IsShown c := by
  intro c hc
  rcases mem_toString hc with rfl | hdigit
  · decide
  · exact isShown_of_isDigit hdigit

/-- And numbers with a point or an exponent, and the words for those that have none. -/
theorem isShown_render (x : Binary64) : ∀ c ∈ (x.render numberLayout).toList, IsShown c := by
  have hwords : ∀ c ∈ Binary64.marks ++ numberLayout.infinityText.toList ++
      numberLayout.nanText.toList, IsShown c := isShown_of_all (by decide)
  intro c hc
  rcases Binary64.mem_render hc with hdigit | hmark | hinfinity | hnan
  · exact isShown_of_isDigit hdigit
  · exact hwords c (List.mem_append_left _ (List.mem_append_left _ hmark))
  · exact hwords c (List.mem_append_left _ (List.mem_append_right _ hinfinity))
  · exact hwords c (List.mem_append_right _ hnan)

/-! ## Texts -/

/-- Hexadecimal digits are shown. -/
theorem isShown_hexDigits (width n : Nat) : ∀ c ∈ hexDigits width n, IsShown c := by
  have hdigit : ∀ n < 16, IsShown (hexChar n) := by decide
  induction width generalizing n with
  | zero => exact fun c hc => absurd hc List.not_mem_nil
  | succ width ih =>
    intro c hc
    rcases List.mem_append.mp hc with hmore | hlast
    · exact ih _ c hmore
    · rw [List.mem_singleton.mp hlast]
      exact hdigit _ (Nat.mod_lt n (by decide))

theorem isShown_unitEscape (unit : Nat) : ∀ c ∈ unitEscape unit, IsShown c :=
  List.forall_mem_cons.mpr ⟨by decide, List.forall_mem_cons.mpr ⟨by decide, isShown_hexDigits 4 unit⟩⟩

/-- Whatever a character is, it is written with shown ones. -/
theorem isShown_escapeChar (c : Char) : ∀ d ∈ escapeChar c, IsShown d := by
  unfold escapeChar
  split
  -- the characters that have short escapes
  iterate 7 exact isShown_of_all (by decide)
  · split
    · rename_i hshown
      exact List.forall_mem_singleton.mpr hshown
    · split
      · exact isShown_unitEscape _
      · exact List.forall_mem_append.mpr ⟨isShown_unitEscape _, isShown_unitEscape _⟩

/-- And so is every text. -/
theorem isShown_writeText (s : String) : ∀ c ∈ writeText s, IsShown c := by
  intro c hc
  rcases List.mem_append.mp hc with hopen | hclose
  · rcases List.mem_cons.mp hopen with rfl | hinside
    · decide
    · obtain ⟨d, -, hd⟩ := List.mem_flatMap.mp hinside
      exact isShown_escapeChar d c hd
  · rw [List.mem_singleton.mp hclose]
    decide

/-! ## Values -/

mutual

/-- **A written value is printable ASCII throughout**, by recursion on the value: one case for each
constructor. -/
theorem isShown_writeChars (v : Value) : ∀ c ∈ writeChars v, IsShown c := by
  cases v with
  | null => exact isShown_of_all (by decide)
  | bool b => cases b <;> exact isShown_of_all (by decide)
  | int i => exact isShown_toString
  | real x => exact isShown_render x
  | text s => exact isShown_writeText s
  | stamp s => exact isShown_writeText s
  | list items =>
    rw [writeChars]
    exact List.forall_mem_append.mpr
      ⟨List.forall_mem_cons.mpr ⟨by decide, isShown_writeItems items⟩, isShown_of_all (by decide)⟩
  | table fields =>
    rw [writeChars]
    exact List.forall_mem_append.mpr
      ⟨List.forall_mem_cons.mpr ⟨by decide, isShown_writeFields fields⟩, isShown_of_all (by decide)⟩

/-- The same of the items of a list. -/
theorem isShown_writeItems (items : List Value) : ∀ c ∈ writeItems items, IsShown c := by
  match items with
  | [] => exact fun c hc => absurd hc List.not_mem_nil
  | [v] => exact isShown_writeChars v
  | v :: w :: rest =>
    have hrest := isShown_writeItems (w :: rest)
    exact List.forall_mem_append.mpr ⟨isShown_writeChars v,
      List.forall_mem_cons.mpr ⟨by decide, List.forall_mem_cons.mpr ⟨by decide, hrest⟩⟩⟩

/-- And of the fields of a table. -/
theorem isShown_writeFields (fields : List (String × Value)) :
    ∀ c ∈ writeFields fields, IsShown c := by
  have hfield : ∀ k v, (∀ c ∈ writeChars v, IsShown c) →
      ∀ c ∈ writeText k ++ ':' :: ' ' :: writeChars v, IsShown c := fun k v hv =>
    List.forall_mem_append.mpr ⟨isShown_writeText k,
      List.forall_mem_cons.mpr ⟨by decide, List.forall_mem_cons.mpr ⟨by decide, hv⟩⟩⟩
  match fields with
  | [] => exact fun c hc => absurd hc List.not_mem_nil
  | [(k, v)] => exact hfield k v (isShown_writeChars v)
  | (k, v) :: p :: rest =>
    have hrest := isShown_writeFields (p :: rest)
    rw [writeFields]
    · exact List.forall_mem_append.mpr ⟨hfield k v (isShown_writeChars v),
        List.forall_mem_cons.mpr ⟨by decide, List.forall_mem_cons.mpr ⟨by decide, hrest⟩⟩⟩
    · simp

end

/-- **A document is written on one line.** -/
theorem newline_not_mem_writeSorted (v : Value) : '\n' ∉ (writeSorted v).toList := by
  intro hmem
  unfold writeSorted write at hmem
  rw [String.toList_ofList] at hmem
  exact absurd (isShown_writeChars _ _ hmem) (by decide)

end Packwright.Json
