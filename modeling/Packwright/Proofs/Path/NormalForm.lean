import Packwright.Path.Virtual
import Packwright.Proofs.Text.Lines

/-!
# The normal form of a path

What is left of a path when it is cleaned: its anchor, some steps up if it is relative, and names.

* `Reduced` says which components are left; reducing yields such components and leaves them alone
  (`reduced_reduce`, `reduce_of_reduced`).
* `clean_render`: what is rendered from reduced components is clean already.
* `normalizeChars_idem`: a normal form is its own normal form, also when it happens to look like a
  path on a drive.
* `length_normalizeChars_le`: a normal form is no longer than the path.
-/

namespace Packwright.Path

open Packwright.Text

/-! ## Reduced components -/

/-- Whether a component is the name of something. -/
structure IsName (c : Component) : Prop where
  ne_nil : c ≠ []
  ne_here : c ≠ here
  ne_up : c ≠ up
  no_slash : '/' ∉ c

instance : DecidablePred IsName := fun c =>
  decidable_of_iff (c ≠ [] ∧ c ≠ here ∧ c ≠ up ∧ '/' ∉ c)
    ⟨fun ⟨hnil, hhere, hup, hslash⟩ => ⟨hnil, hhere, hup, hslash⟩,
      fun ⟨hnil, hhere, hup, hslash⟩ => ⟨hnil, hhere, hup, hslash⟩⟩

/-- Some steps up, none of them in an absolute path, and then names. -/
def Reduced (absolute : Bool) (cs : List Component) : Prop :=
  ∃ steps names, (absolute = true → steps = 0) ∧ (∀ c ∈ names, IsName c) ∧
    cs = List.replicate steps up ++ names

theorem up_no_slash : '/' ∉ up := by decide

/-- Components of a reduced list hold no slash, so the joined text splits into them again. -/
theorem Reduced.no_slash {absolute : Bool} {cs : List Component} (h : Reduced absolute cs) :
    ∀ c ∈ cs, '/' ∉ c := by
  obtain ⟨steps, names, -, hnames, rfl⟩ := h
  intro c hc
  rcases List.mem_append.mp hc with hup | hname
  · exact (List.mem_replicate.mp hup).2 ▸ up_no_slash
  · exact (hnames c hname).no_slash

/-- And none of them is empty. -/
theorem Reduced.ne_nil {absolute : Bool} {cs : List Component} (h : Reduced absolute cs) :
    ∀ c ∈ cs, c ≠ [] := by
  obtain ⟨steps, names, -, hnames, rfl⟩ := h
  intro c hc
  rcases List.mem_append.mp hc with hup | hname
  · exact (List.mem_replicate.mp hup).2 ▸ (by decide : up ≠ [])
  · exact (hnames c hname).ne_nil

/-- A list of names is reduced, from the root or not. -/
theorem reduced_of_names {absolute : Bool} {cs : List Component} (h : ∀ c ∈ cs, IsName c) :
    Reduced absolute cs :=
  ⟨0, cs, fun _ => rfl, h, rfl⟩

theorem Reduced.names {cs : List Component} (h : Reduced true cs) : ∀ c ∈ cs, IsName c := by
  obtain ⟨steps, names, hsteps, hnames, rfl⟩ := h
  rw [hsteps rfl]
  exact hnames

theorem reduceStep_name {c : Component} (hc : IsName c) (absolute : Bool)
    (kept : List Component) : reduceStep absolute kept c = c :: kept := by
  unfold reduceStep
  rw [if_neg (by simp [hc.ne_nil, hc.ne_here]), if_neg hc.ne_up]

/-- So a run of names is kept, in reverse because the kept components are a stack. -/
theorem foldl_reduceStep_names {names : List Component} (h : ∀ c ∈ names, IsName c)
    (absolute : Bool) (kept : List Component) :
    names.foldl (reduceStep absolute) kept = names.reverse ++ kept := by
  induction names generalizing kept with
  | nil => rfl
  | cons c more ih =>
    obtain ⟨hc, hmore⟩ := List.forall_mem_cons.mp h
    rw [List.foldl_cons, reduceStep_name hc, ih hmore, List.reverse_cons, List.append_assoc]
    rfl

/-- Steps up from nowhere pile up, in a path that does not begin at the root. -/
theorem foldl_reduceStep_up (steps before : Nat) :
    (List.replicate steps up).foldl (reduceStep false) (List.replicate before up) =
      List.replicate (steps + before) up := by
  induction steps generalizing before with
  | zero => rw [Nat.zero_add]; rfl
  | succ steps ih =>
    -- above a step up there is only one more step up
    have hstep : reduceStep false (List.replicate before up) up =
        List.replicate (before + 1) up := by
      cases before <;> rfl
    rw [List.replicate_succ, List.foldl_cons, hstep, ih, Nat.add_right_comm, Nat.add_assoc]

/-- **Reduced components stay as they are.** -/
theorem reduce_of_reduced {absolute : Bool} {cs : List Component} (h : Reduced absolute cs) :
    reduce absolute cs = cs := by
  obtain ⟨steps, names, hsteps, hnames, rfl⟩ := h
  have hups : (List.replicate steps up).foldl (reduceStep absolute) [] =
      List.replicate steps up := by
    cases absolute with
    | true => rw [hsteps rfl]; rfl
    | false => exact foldl_reduceStep_up steps 0
  rw [reduce, List.foldl_append, hups, foldl_reduceStep_names hnames, List.reverse_append,
    List.reverse_reverse, List.reverse_replicate]

/-- One step keeps what has been kept reduced; it is kept backwards. -/
theorem reduced_reduceStep {absolute : Bool} {kept : List Component} {c : Component}
    (h : Reduced absolute kept.reverse) (hc : '/' ∉ c) :
    Reduced absolute (reduceStep absolute kept c).reverse := by
  unfold reduceStep
  split
  · exact h
  · rename_i hplain
    obtain ⟨hnil, hhere⟩ := not_or.mp hplain
    split
    · rename_i hup
      obtain ⟨steps, names, hsteps, hnames, heq⟩ := h
      rw [List.reverse_eq_iff, List.reverse_append, List.reverse_replicate] at heq
      -- a step up takes the last name back, or is one more step up
      cases hlast : names.reverse with
      | nil =>
        rw [hlast, List.nil_append] at heq
        rw [heq]
        cases absolute with
        | true => rw [hsteps rfl]; exact reduced_of_names (by simp)
        | false =>
          refine ⟨steps + 1, [], by simp, by simp, ?_⟩
          cases steps with
          | zero => rfl
          | succ steps =>
            show (up :: up :: List.replicate steps up).reverse = _
            rw [← List.replicate_succ, ← List.replicate_succ, List.reverse_replicate,
              List.append_nil]
      | cons last before =>
        rw [hlast, List.cons_append] at heq
        have hname : ∀ n ∈ last :: before, IsName n := fun n hn =>
          hnames n (List.mem_reverse.mp (hlast ▸ hn))
        obtain ⟨hlastName, hbefore⟩ := List.forall_mem_cons.mp hname
        rw [heq]
        simp only [if_neg hlastName.ne_up]
        refine ⟨steps, before.reverse, hsteps, fun n hn => hbefore n (List.mem_reverse.mp hn), ?_⟩
        rw [List.reverse_append, List.reverse_replicate]
    · rename_i hup
      obtain ⟨steps, names, hsteps, hnames, heq⟩ := h
      refine ⟨steps, names ++ [c], hsteps, ?_, ?_⟩
      · exact List.forall_mem_append.mpr ⟨hnames, by simpa using ⟨hnil, hhere, hup, hc⟩⟩
      · rw [List.reverse_cons, heq, List.append_assoc]

/-- **Reducing yields reduced components.** -/
theorem reduced_reduce (absolute : Bool) {cs : List Component} (h : ∀ c ∈ cs, '/' ∉ c) :
    Reduced absolute (reduce absolute cs) := by
  suffices hfold : ∀ kept : List Component, Reduced absolute kept.reverse →
      Reduced absolute (cs.foldl (reduceStep absolute) kept).reverse from
    hfold [] (reduced_of_names (by simp))
  induction cs with
  | nil => exact fun kept hkept => hkept
  | cons c more ih =>
    obtain ⟨hc, hmore⟩ := List.forall_mem_cons.mp h
    exact fun kept hkept => ih hmore _ (reduced_reduceStep hkept hc)

/-- Components come from the path. -/
theorem mem_of_mem_reduce {absolute : Bool} {cs : List Component} {x : Component}
    (h : x ∈ reduce absolute cs) : x ∈ cs := by
  -- a step keeps what was kept, or adds its own component
  have hstep : ∀ kept c, x ∈ reduceStep absolute kept c → x ∈ kept ∨ x = c := by
    intro kept c hx
    unfold reduceStep at hx
    split at hx
    · exact Or.inl hx
    · split at hx
      · rename_i hup
        split at hx
        · split at hx
          · exact Or.inl hx
          · exact Or.inr (by rw [hup]; exact List.mem_singleton.mp hx)
        · split at hx
          · rcases List.mem_cons.mp hx with heq | hmem
            · exact Or.inr (by rw [hup, heq])
            · exact Or.inl hmem
          · exact Or.inl (List.mem_cons_of_mem _ hx)
      · exact (List.mem_cons.mp hx).symm
  have hfold : ∀ kept, x ∈ cs.foldl (reduceStep absolute) kept → x ∈ kept ∨ x ∈ cs := by
    clear h
    induction cs with
    | nil => exact fun kept hx => Or.inl hx
    | cons c more ih =>
      intro kept hx
      rcases ih _ hx with hkept | hmore
      · exact (hstep kept c hkept).imp_right fun heq => List.mem_cons.mpr (Or.inl heq)
      · exact Or.inr (List.mem_cons_of_mem _ hmore)
  exact (hfold [] (List.mem_reverse.mp h)).resolve_left (by simp)

/-- A name behind other components is left behind what is left of them. -/
theorem reduce_concat_name {c : Component} (hc : IsName c) (absolute : Bool)
    (cs : List Component) : reduce absolute (cs ++ [c]) = reduce absolute cs ++ [c] := by
  rw [reduce, List.foldl_append, List.foldl_cons, reduceStep_name hc]
  exact List.reverse_cons

/-! ## Clean paths -/

/-- The last piece stands behind a separator of its own. -/
theorem joinWith_concat {α : Type} (sep : α) (pieces : List (List α)) (last : List α)
    (hne : pieces ≠ []) :
    joinWith sep (pieces ++ [last]) = joinWith sep pieces ++ sep :: last := by
  induction pieces with
  | nil => exact absurd rfl hne
  | cons piece more ih =>
    cases more with
    | nil => rfl
    | cons next rest =>
      show piece ++ sep :: joinWith sep (next :: rest ++ [last]) = _
      rw [ih (by simp)]
      show _ = piece ++ sep :: joinWith sep (next :: rest) ++ sep :: last
      rw [List.append_assoc, List.cons_append]

/-- What is rendered from components that are not empty starts with no slash of its own. -/
theorem head?_joinWith {cs : List Component} (hslash : ∀ c ∈ cs, '/' ∉ c) (hne : ∀ c ∈ cs, c ≠ []) :
    (joinWith '/' cs).head? ≠ some '/' := by
  cases cs with
  | nil => simp [joinWith]
  | cons c more =>
    cases c with
    | nil => exact absurd rfl (hne [] List.mem_cons_self)
    | cons d rest =>
      have hd : d ≠ '/' := fun heq => hslash _ List.mem_cons_self (heq ▸ List.mem_cons_self)
      cases more <;> simpa [joinWith] using hd

/-- The anchor of a path is read back, if no slash follows its own. -/
theorem ofChars_text_append (anchor : Anchor) {s : List Char} (h : s.head? ≠ some '/') :
    Anchor.ofChars (anchor.text ++ s) = anchor := by
  cases s with
  | nil => cases anchor <;> rfl
  | cons c rest =>
    have hc : c ≠ '/' := fun heq => h (by rw [heq]; rfl)
    cases anchor <;> simp [Anchor.text, Anchor.ofChars, hc]

/-- Nothing but empty components is added to those that a path is rendered from. -/
theorem reduce_components_text_append (anchor : Anchor) (absolute : Bool) {cs : List Component}
    (h : ∀ c ∈ cs, '/' ∉ c) :
    reduce absolute (components (anchor.text ++ joinWith '/' cs)) = reduce absolute cs := by
  -- an anchor reads as empty components, which reducing skips
  have hempty : ∀ cs' : List Component, reduce absolute ([] :: cs') = reduce absolute cs' :=
    fun _ => rfl
  have hjoined : reduce absolute (splitOn '/' (joinWith '/' cs)) = reduce absolute cs := by
    cases cs with
    | nil => rfl
    | cons c more => rw [splitOn_joinWith (by simp) h]
  unfold components
  cases anchor with
  | relative => exact hjoined
  | rooted =>
    show reduce absolute (splitOn '/' ([] ++ '/' :: joinWith '/' cs)) = _
    rw [splitOn_append_sep (by simp), hempty, hjoined]
  | doubled =>
    show reduce absolute (splitOn '/' ([] ++ '/' :: ([] ++ '/' :: joinWith '/' cs))) = _
    rw [splitOn_append_sep (by simp), splitOn_append_sep (by simp), hempty, hempty, hjoined]

/-- **A path that is rendered from reduced components is clean.** -/
theorem clean_render {anchor : Anchor} {cs : List Component}
    (h : Reduced anchor.isAbsolute cs) : clean (render anchor cs) = render anchor cs := by
  unfold render
  split
  · rfl
  · rename_i text hne
    rw [clean, ofChars_text_append anchor (head?_joinWith h.no_slash h.ne_nil)]
    simp only [reduce_components_text_append anchor _ h.no_slash, reduce_of_reduced h]
    unfold render
    split
    · rename_i hempty
      exact absurd hempty hne
    · rfl

theorem components_no_slash (p : List Char) : ∀ c ∈ components p, '/' ∉ c :=
  fun _ hc hmem => (mem_of_mem_splitOn hc hmem).2 rfl

theorem reduced_components (p : List Char) (absolute : Bool) :
    Reduced absolute (reduce absolute (components p)) :=
  reduced_reduce absolute (components_no_slash p)

theorem clean_clean (p : List Char) : clean (clean p) = clean p :=
  clean_render (reduced_components p _)

/-- The rendering of a path is never empty: the dot stands for nothing. -/
theorem render_ne_nil (anchor : Anchor) (cs : List Component) : render anchor cs ≠ [] := by
  unfold render
  split
  · decide
  · assumption

theorem clean_ne_nil (p : List Char) : clean p ≠ [] :=
  render_ne_nil _ _

/-- Rendering brings in slashes and dots and no other character. -/
theorem mem_render {anchor : Anchor} {cs : List Component} {x : Char} (h : x ∈ render anchor cs) :
    x = '/' ∨ x = '.' ∨ ∃ c ∈ cs, x ∈ c := by
  unfold render at h
  split at h
  · exact Or.inr (Or.inl (List.mem_singleton.mp h))
  · rcases List.mem_append.mp h with htext | hjoin
    · left
      cases anchor <;> simp_all [Anchor.text]
    · exact (mem_of_mem_joinWith hjoin).imp_right Or.inr

/-- Cleaning adds no character but dots and slashes. -/
theorem mem_clean {p : List Char} {x : Char} (h : x ∈ clean p) : x = '/' ∨ x = '.' ∨ x ∈ p := by
  refine (mem_render h).imp_right (Or.imp_right ?_)
  rintro ⟨c, hc, hx⟩
  exact (mem_of_mem_splitOn (mem_of_mem_reduce hc) hx).1

/-! ## Normal form -/

/-- Without backslashes there is nothing to turn round. -/
theorem forwardSlashes_of_not_mem {p : List Char} (h : '\\' ∉ p) : forwardSlashes p = p := by
  unfold forwardSlashes
  refine (List.map_congr_left fun c hc => ?_).trans (List.map_id p)
  have hne : c ≠ '\\' := fun heq => h (heq ▸ hc)
  exact if_neg hne

/-- And no backslash is left. -/
theorem backslash_not_mem_forwardSlashes (p : List Char) : '\\' ∉ forwardSlashes p := by
  intro hmem
  obtain ⟨c, -, hc⟩ := List.mem_map.mp hmem
  split at hc
  · exact absurd hc (by decide)
  · rename_i hne
    exact hne hc

/-- Cleaning brings no backslash in. -/
theorem backslash_not_mem_clean {p : List Char} (h : '\\' ∉ p) : '\\' ∉ clean p := by
  intro hmem
  rcases mem_clean hmem with hslash | hdot | hp
  · exact absurd hslash (by decide)
  · exact absurd hdot (by decide)
  · exact h hp

/-- A path from the root has no drive. -/
theorem startsWithDrive_slash (rest : List Char) : startsWithDrive ('/' :: rest) = false := by
  unfold startsWithDrive
  split
  · rename_i letter sep tail heq
    obtain ⟨rfl, -⟩ := List.cons_eq_cons.mp heq
    rfl
  · rfl

/-- A path on a drive, once its backslashes are slashes. -/
theorem exists_of_startsWithDrive {p : List Char} (h : '\\' ∉ p) (hdrive : startsWithDrive p) :
    ∃ letter tail, letter.isAlpha ∧ p = letter :: ':' :: '/' :: tail := by
  unfold startsWithDrive at hdrive
  split at hdrive
  · rename_i letter sep tail
    obtain ⟨hletter, hsep⟩ := Bool.and_eq_true_iff.mp hdrive
    rcases Bool.or_eq_true_iff.mp hsep with hslash | hback
    · exact ⟨letter, tail, hletter, by rw [beq_iff_eq.mp hslash]⟩
    · exact absurd (beq_iff_eq.mp hback) fun heq => h (by simp [heq])
  · exact absurd hdrive Bool.false_ne_true

/-- The three shapes of a normal form: nothing, a clean path behind a drive, and a clean path. -/
theorem normalizeChars_cases (p : List Char) :
    normalizeChars p = [] ∨
      (∃ letter tail, letter.isAlpha ∧ '\\' ∉ letter :: ':' :: '/' :: tail ∧
        normalizeChars p = letter :: ':' :: clean ('/' :: tail)) ∨
      ∃ q, '\\' ∉ q ∧ normalizeChars p = clean q := by
  have hforward := backslash_not_mem_forwardSlashes p
  unfold normalizeChars
  dsimp only
  split
  · exact Or.inl rfl
  · split
    · -- only the part behind the colon of a drive is cleaned
      rename_i hdrive
      obtain ⟨letter, tail, hletter, heq⟩ := exists_of_startsWithDrive hforward hdrive
      exact Or.inr (Or.inl ⟨letter, tail, hletter, heq ▸ hforward, by rw [heq]; rfl⟩)
    · exact Or.inr (Or.inr ⟨_, hforward, rfl⟩)

/-- A normal path holds no backslash. -/
theorem backslash_not_mem_normalizeChars (p : List Char) : '\\' ∉ normalizeChars p := by
  rcases normalizeChars_cases p with hnil | ⟨letter, tail, -, hback, hdrive⟩ | ⟨q, hback, hclean⟩
  · rw [hnil]
    exact List.not_mem_nil
  · rw [hdrive]
    simp only [List.mem_cons, not_or] at hback ⊢
    exact ⟨hback.1, hback.2.1, backslash_not_mem_clean (by simpa using hback.2.2)⟩
  · rw [hclean]
    exact backslash_not_mem_clean hback

/-- Without backslashes only the drive is kept apart. -/
theorem normalizeChars_eq {p : List Char} (h : '\\' ∉ p) (hne : p ≠ []) :
    normalizeChars p =
      if startsWithDrive p then p.take 2 ++ clean (p.drop 2) else clean p := by
  unfold normalizeChars
  rw [forwardSlashes_of_not_mem h]
  simp only [List.isEmpty_iff, if_neg hne]

/-- A path that is absolute and has no backslash is brought into normal form by cleaning. -/
theorem normalizeChars_slash {rest : List Char} (h : '\\' ∉ '/' :: rest) :
    normalizeChars ('/' :: rest) = clean ('/' :: rest) := by
  rw [normalizeChars_eq h (by simp), startsWithDrive_slash]
  rfl

/-- A path with an anchor is never rendered as the dot. -/
theorem render_of_isAbsolute {anchor : Anchor} (h : anchor.isAbsolute = true)
    (cs : List Component) : render anchor cs = anchor.text ++ joinWith '/' cs := by
  cases anchor with
  | relative => exact absurd h (by decide)
  | rooted => rfl
  | doubled => rfl

/-- A slash in front makes a path absolute. -/
theorem isAbsolute_ofChars_slash (rest : List Char) :
    (Anchor.ofChars ('/' :: rest)).isAbsolute = true := by
  unfold Anchor.ofChars
  split
  · rfl
  · rfl
  · rfl
  · rename_i hnone
    exact (hnone rest rfl).elim

/-- And cleaning keeps that slash. -/
theorem exists_clean_slash (rest : List Char) : ∃ more, clean ('/' :: rest) = '/' :: more := by
  have habs := isAbsolute_ofChars_slash rest
  unfold clean
  rw [render_of_isAbsolute habs]
  cases hanchor : Anchor.ofChars ('/' :: rest) with
  | relative => rw [hanchor] at habs; exact absurd habs (by decide)
  | rooted => exact ⟨_, rfl⟩
  | doubled => exact ⟨_, rfl⟩

/-- What looks like a path on a drive after cleaning is clean also without its drive. -/
theorem clean_drop_drive {p tail : List Char} {letter : Char} (hletter : letter.isAlpha)
    (h : clean p = letter :: ':' :: '/' :: tail) : clean ('/' :: tail) = '/' :: tail := by
  have hslash : letter ≠ '/' := fun heq => absurd (heq ▸ hletter) (by decide)
  obtain ⟨anchor, cs, hcs, hreduced⟩ :
      ∃ anchor cs, Reduced (Anchor.isAbsolute anchor) cs ∧ clean p = render anchor cs :=
    ⟨_, _, reduced_components p _, rfl⟩
  rw [h] at hreduced
  -- the path is relative, and the drive is the first of its components
  have htext : anchor.text ++ joinWith '/' cs = letter :: ':' :: '/' :: tail := by
    unfold render at hreduced
    split at hreduced
    · exact absurd hreduced (by simp [here])
    · exact hreduced.symm
  have hrelative : anchor = .relative := by
    rw [← ofChars_text_append anchor (head?_joinWith hcs.no_slash hcs.ne_nil), htext]
    simp [Anchor.ofChars, hslash]
  rw [hrelative] at htext hcs
  have hjoin : joinWith '/' cs = [letter, ':'] ++ '/' :: tail := htext
  have hne : cs ≠ [] := fun hnil => by rw [hnil] at hjoin; exact absurd hjoin (by simp [joinWith])
  have hsplit : cs = [letter, ':'] :: splitOn '/' tail := by
    rw [← splitOn_joinWith hne hcs.no_slash, hjoin, splitOn_append_sep]
    simp [hslash.symm]
  -- so all that follows it are names
  obtain ⟨steps, names, -, hnames, hcomponents⟩ := hcs
  have hmore : ∀ c ∈ splitOn '/' tail, IsName c := by
    cases steps with
    | zero =>
      have hall : names = [letter, ':'] :: splitOn '/' tail := hcomponents.symm.trans hsplit
      exact fun c hc => hnames c (hall ▸ List.mem_cons_of_mem _ hc)
    | succ steps =>
      rw [hsplit, List.replicate_succ, List.cons_append] at hcomponents
      exact absurd (List.cons_eq_cons.mp hcomponents).1 (by simp [up])
  have hrender : '/' :: tail = render .rooted (splitOn '/' tail) := by
    rw [render_of_isAbsolute rfl, joinWith_splitOn]
    rfl
  rw [hrender, clean_render (reduced_of_names hmore)]

/-- **A normal form is its own normal form.** -/
theorem normalizeChars_idem (p : List Char) :
    normalizeChars (normalizeChars p) = normalizeChars p := by
  have hback := backslash_not_mem_normalizeChars p
  rcases normalizeChars_cases p with hnil | ⟨letter, tail, hletter, -, hdrive⟩ | ⟨q, -, hclean⟩
  · rw [hnil]
    rfl
  · -- the drive is recognized again, because the cleaned rest still begins with a slash
    obtain ⟨more, hmore⟩ := exists_clean_slash tail
    rw [hdrive] at hback ⊢
    rw [normalizeChars_eq hback (by simp), if_pos (by rw [hmore]; simp [startsWithDrive, hletter])]
    show letter :: ':' :: clean (clean ('/' :: tail)) = _
    rw [clean_clean]
  · rw [hclean] at hback ⊢
    rw [normalizeChars_eq hback (clean_ne_nil q)]
    split
    · -- a cleaned path may look as if it had a drive; then its rest is clean already
      rename_i hlooks
      obtain ⟨letter, tail, hletter, heq⟩ := exists_of_startsWithDrive hback hlooks
      rw [heq]
      show letter :: ':' :: clean ('/' :: tail) = _
      rw [clean_drop_drive hletter heq]
    · exact clean_clean q

/-- Being normal, of texts, is being normal of their characters. -/
theorem normalizeChars_toList {p : String} (h : normalize p = p) :
    normalizeChars p.toList = p.toList := by
  rw [← String.ofList_inj, String.ofList_toList]
  exact h

/-! ## Lengths -/

/-- A further piece makes the joined text no shorter. -/
theorem length_joinWith_cons_le {α : Type} (sep : α) (piece : List α) (more : List (List α)) :
    (joinWith sep more).length ≤ (joinWith sep (piece :: more)).length := by
  cases more with
  | nil => exact Nat.zero_le _
  | cons next rest =>
    show _ ≤ (piece ++ sep :: joinWith sep (next :: rest)).length
    rw [List.length_append, List.length_cons]
    omega

/-- Fewer pieces make no longer text. -/
theorem length_joinWith_le {α : Type} (sep : α) {pieces others : List (List α)}
    (h : pieces.Sublist others) : (joinWith sep pieces).length ≤ (joinWith sep others).length := by
  induction h with
  | slnil => exact Nat.le_refl _
  | cons piece _ ih => exact Nat.le_trans ih (length_joinWith_cons_le sep piece _)
  | @cons_cons kept all piece hsub ih =>
    -- the first pieces agree, and the separators behind them depend on what is left on each side
    cases all with
    | nil => exact Nat.le_of_eq (by rw [List.sublist_nil.mp hsub])
    | cons next rest =>
      cases kept with
      | nil =>
        show piece.length ≤ (piece ++ sep :: joinWith sep (next :: rest)).length
        rw [List.length_append]
        omega
      | cons first others =>
        show (piece ++ sep :: joinWith sep (first :: others)).length ≤
          (piece ++ sep :: joinWith sep (next :: rest)).length
        rw [List.length_append, List.length_append, List.length_cons, List.length_cons]
        omega

/-- One step keeps the component, drops it, or drops the one before it as well. -/
theorem reduceStep_sublist (absolute : Bool) (kept : List Component) (c : Component) :
    (reduceStep absolute kept c).Sublist (c :: kept) := by
  unfold reduceStep
  split
  · exact List.sublist_cons_self _ _
  · split
    · -- a step up drops the last name, or stays if there is none to drop
      rename_i hup
      rw [hup]
      split
      · split
        · exact List.nil_sublist _
        · exact List.Sublist.refl _
      · split
        · exact List.Sublist.refl _
        · exact (List.sublist_cons_self _ _).trans (List.sublist_cons_self _ _)
    · exact List.Sublist.refl _

/-- What is kept is kept in its order. -/
theorem reduce_sublist (absolute : Bool) (cs : List Component) : (reduce absolute cs).Sublist cs := by
  have hfold : ∀ kept : List Component,
      (cs.foldl (reduceStep absolute) kept).Sublist (cs.reverse ++ kept) := by
    induction cs with
    | nil => exact fun kept => List.Sublist.refl kept
    | cons c more ih =>
      intro kept
      rw [List.reverse_cons, List.append_assoc]
      exact (ih _).trans ((reduceStep_sublist absolute kept c).append_left more.reverse)
  have h := (hfold []).reverse
  rwa [List.append_nil, List.reverse_reverse] at h

/-- So cleaning never lengthens a path that is not empty. -/
theorem length_clean_le {p : List Char} (hne : p ≠ []) : (clean p).length ≤ p.length := by
  have hpos : 0 < p.length := List.length_pos_iff.mpr hne
  have hjoin : ∀ absolute s, (joinWith '/' (reduce absolute (components s))).length ≤ s.length :=
    fun absolute s => by
      have hsub := length_joinWith_le '/' (reduce_sublist absolute (components s))
      rwa [components, joinWith_splitOn] at hsub
  have hrender : ∀ anchor cs, (render anchor cs).length ≤
      max 1 (anchor.text.length + (joinWith '/' cs).length) := by
    intro anchor cs
    unfold render
    split
    · exact Nat.le_max_left _ _
    · rw [List.length_append]
      exact Nat.le_max_right _ _
  refine Nat.le_trans (hrender _ _) (Nat.max_le.mpr ⟨hpos, ?_⟩)
  -- the slashes of the anchor are those that the path starts with
  unfold Anchor.ofChars
  split
  · rename_i rest
    have hrest := hjoin true ('/' :: '/' :: rest)
    show 1 + (joinWith '/' (reduce true (components ('/' :: '/' :: rest)))).length ≤ rest.length + 3
    rw [List.length_cons, List.length_cons] at hrest
    omega
  · rename_i rest _
    have hrest := hjoin true rest
    show 2 + (joinWith '/' (reduce true (components rest))).length ≤ rest.length + 2
    omega
  · rename_i rest _ _
    have hrest := hjoin true rest
    show 1 + (joinWith '/' (reduce true (components rest))).length ≤ rest.length + 1
    omega
  · have hp := hjoin false p
    show 0 + (joinWith '/' (reduce false (components p))).length ≤ p.length
    omega

/-- A normal form is no longer than the path. -/
theorem length_normalizeChars_le (p : List Char) : (normalizeChars p).length ≤ p.length := by
  have hlen : (forwardSlashes p).length = p.length := List.length_map _
  unfold normalizeChars
  dsimp only
  split
  · exact Nat.zero_le _
  · rename_i hne
    split
    · -- the drive keeps its two characters
      rename_i hdrive
      obtain ⟨letter, tail, -, heq⟩ :=
        exists_of_startsWithDrive (backslash_not_mem_forwardSlashes p) hdrive
      have htail : (clean ('/' :: tail)).length ≤ tail.length + 1 := length_clean_le (by simp)
      rw [heq, List.length_cons, List.length_cons, List.length_cons] at hlen
      rw [heq]
      show (clean ('/' :: tail)).length + 1 + 1 ≤ p.length
      omega
    · exact hlen ▸ length_clean_le fun hnil => hne (List.isEmpty_iff.mpr hnil)

end Packwright.Path
