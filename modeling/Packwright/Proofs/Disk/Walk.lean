import Mathlib.Data.Nat.Basic
import Packwright.Proofs.Dictionary
import Packwright.Proofs.Disk
import Packwright.Proofs.Path.File
import Packwright.Proofs.Text.Lines

/-!
# Where a path leads

A path is followed with fuel, of which there is always enough: `Leads` says without it where
components lead (`walk_eq_ok_iff`).

* `Leads.put_file`: a file that is written at the end of a path is what the path leads to from then
  on, since what is followed on the way are directories and links.
* `exists_append_of_read`: what is written at the end of a file is behind what was in it.
* `makeDirectories_parent_of_read`: the directory of a file need not be made.
-/

namespace Packwright.Disk

open Packwright.Text

variable {d : Disk} {follow : Bool} {links : Nat} {here location : Location} {part : String}
  {parts rest : List String} {found : Found} {p : FilePath}

/-! ## Following components -/

/-- Whether a component goes down by a name. -/
def GoesDown (part : String) : Prop :=
  part ≠ ".." ∧ part.utf8ByteSize ≤ maxNameSize

/-- Where components lead from a location, through so many links at most. A link at the end is
followed if `follow` holds. -/
inductive Leads (d : Disk) (follow : Bool) : Nat → Location → List String → Found → Prop
  | arrived {links : Nat} {here : Location} {e : Entry} (hhere : d.entry? here = some e) :
      Leads d follow links here [] (.entry here e)
  | up {links : Nat} {here : Location} {rest : List String} {found : Found}
      (hhere : d.entry? here = some .directory)
      (hrest : Leads d follow links here.dropLast rest found) :
      Leads d follow links here (".." :: rest) found
  | free {links : Nat} {here : Location} {part : String}
      (hhere : d.entry? here = some .directory) (hpart : GoesDown part)
      (hnone : d.entry? (here ++ [part]) = none) :
      Leads d follow links here [part] (.free (here ++ [part]))
  | unfollowed {links : Nat} {here : Location} {part target : String}
      (hhere : d.entry? here = some .directory) (hpart : GoesDown part)
      (hlink : d.entry? (here ++ [part]) = some (.link target)) (hfollow : follow = false) :
      Leads d follow links here [part] (.entry (here ++ [part]) (.link target))
  | link {links : Nat} {here : Location} {part target : String} {rest : List String} {found : Found}
      (hhere : d.entry? here = some .directory) (hpart : GoesDown part)
      (hlink : d.entry? (here ++ [part]) = some (.link target))
      (hfollow : ¬ (rest.isEmpty && !follow) = true)
      (hrest : Leads d follow links (linkStart here (.ofString target))
        ((FilePath.ofString target).parts ++ rest) found) :
      Leads d follow (links + 1) here (part :: rest) found
  | down {links : Nat} {here : Location} {part : String} {e : Entry} {rest : List String}
      {found : Found} (hhere : d.entry? here = some .directory) (hpart : GoesDown part)
      (hnext : d.entry? (here ++ [part]) = some e) (hnot : ∀ target, e ≠ .link target)
      (hrest : Leads d follow links (here ++ [part]) rest found) :
      Leads d follow links here (part :: rest) found

/-- A walk that finds something has been led there. -/
theorem leads_of_walkFrom {fuel : Nat}
    (h : d.walkFrom follow fuel links here parts = .ok found) :
    d.Leads follow links here parts found := by
  induction fuel generalizing links here parts with
  | zero => exact absurd h (by simp [walkFrom])
  | succ fuel ih =>
    -- one split for each test on the way; where the walk goes on, fuel is left for the rest
    unfold walkFrom at h
    split at h
    · exact absurd h (by simp)
    · rename_i e hhere
      exact Except.ok.inj h ▸ .arrived hhere
    · rename_i part rest hhere
      split at h
      · rename_i hup
        exact hup ▸ .up hhere (ih h)
      · rename_i hup
        split at h
        · exact absurd h (by simp)
        · rename_i hsize
          have hpart : GoesDown part := ⟨hup, Nat.le_of_not_lt hsize⟩
          dsimp only at h
          split at h
          · rename_i hnone
            split at h
            · rename_i hlast
              obtain rfl := List.isEmpty_iff.mp hlast
              exact Except.ok.inj h ▸ .free hhere hpart hnone
            · exact absurd h (by simp)
          · rename_i target hlink
            split at h
            · rename_i hlast
              obtain ⟨hempty, hfollow⟩ := Bool.and_eq_true_iff.mp hlast
              obtain rfl := List.isEmpty_iff.mp hempty
              exact Except.ok.inj h ▸ .unfollowed hhere hpart hlink (by simpa using hfollow)
            · rename_i hfollow
              split at h
              · exact absurd h (by simp)
              · exact .link hhere hpart hlink hfollow (ih h)
          · rename_i e hnot hnext
            exact .down hhere hpart hnext hnot (ih h)
    · exact absurd h (by simp)

/-! ## Enough fuel -/

/-- The length of the longest target of a link. -/
def longestTarget (d : Disk) : Nat :=
  (d.entries.map fun (_, e) =>
    match e with
    | .link target => target.length
    | _ => 0).foldl max 0

/-- A member is no greater than the greatest. -/
theorem le_foldl_max {sizes : List Nat} {n : Nat} (h : n ∈ sizes) (start : Nat) :
    n ≤ sizes.foldl max start := by
  have hstart : ∀ (sizes : List Nat) (start : Nat), start ≤ sizes.foldl max start := by
    intro sizes
    induction sizes with
    | nil => exact fun start => le_rfl
    | cons m more ih => exact fun start => (Nat.le_max_left start m).trans (ih _)
  induction sizes generalizing start with
  | nil => exact absurd h List.not_mem_nil
  | cons m more ih =>
    rcases List.mem_cons.mp h with rfl | hmore
    · exact (Nat.le_max_right start n).trans (hstart more _)
    · exact ih hmore _

/-- No target of a link is longer than the longest. -/
theorem length_le_longestTarget {target : String} (h : d.entry? location = some (.link target)) :
    target.length ≤ d.longestTarget := by
  unfold entry? at h
  split at h
  · exact absurd h (by simp)
  · have hmem := Dictionary.mem_of_get?_eq_some h
    refine le_foldl_max ?_ 0
    exact List.mem_map.mpr ⟨(location, .link target), hmem, rfl⟩

/-- A text writes no more components than it has characters, and one more. -/
theorem length_parts_ofString (s : String) : (FilePath.ofString s).parts.length ≤ s.length + 1 := by
  unfold FilePath.ofString
  rw [List.length_map]
  refine (List.length_filter_le _ _).trans ?_
  show (splitOn '/' s.toList).length ≤ _
  rw [length_splitOn, ← String.length_toList]
  exact Nat.succ_le_succ List.count_le_length

/-- Every component takes one unit of fuel, and a link takes those of its target. -/
theorem Leads.walkFrom (h : d.Leads follow links here parts found) {fuel : Nat}
    (hfuel : parts.length + links * (d.longestTarget + 1) < fuel) :
    d.walkFrom follow fuel links here parts = .ok found := by
  induction h generalizing fuel with
  | arrived hhere =>
    obtain ⟨fuel, rfl⟩ := Nat.exists_eq_add_one_of_ne_zero (Nat.ne_zero_of_lt hfuel)
    simp [Disk.walkFrom, hhere]
  | @up links here rest found hhere _ ih =>
    obtain ⟨fuel, rfl⟩ := Nat.exists_eq_add_one_of_ne_zero (Nat.ne_zero_of_lt hfuel)
    rw [List.length_cons] at hfuel
    have hrest : d.walkFrom follow fuel links here.dropLast rest = .ok found := ih (by omega)
    simp [Disk.walkFrom, hhere, hrest]
  | free hhere hpart hnone =>
    obtain ⟨fuel, rfl⟩ := Nat.exists_eq_add_one_of_ne_zero (Nat.ne_zero_of_lt hfuel)
    simp [Disk.walkFrom, hhere, hpart.1, hpart.2, hnone]
  | unfollowed hhere hpart hlink hfollow =>
    obtain ⟨fuel, rfl⟩ := Nat.exists_eq_add_one_of_ne_zero (Nat.ne_zero_of_lt hfuel)
    simp [Disk.walkFrom, hhere, hpart.1, hpart.2, hlink, hfollow]
  | @link links here part target rest found hhere hpart hlink hfollow _ ih =>
    obtain ⟨fuel, rfl⟩ := Nat.exists_eq_add_one_of_ne_zero (Nat.ne_zero_of_lt hfuel)
    -- a link costs one of the allowed links and brings at most the longest target
    have htarget := length_le_longestTarget hlink
    have hparts := length_parts_ofString target
    rw [List.length_cons, Nat.succ_mul] at hfuel
    have hrest : d.walkFrom follow fuel links (linkStart here (.ofString target))
        ((FilePath.ofString target).parts ++ rest) = .ok found :=
      ih (by rw [List.length_append]; omega)
    simp only [Disk.walkFrom, hhere, if_neg hpart.1, if_neg (Nat.not_lt.mpr hpart.2), hlink,
      if_neg hfollow, hrest]
  | @down links here part e rest found hhere hpart hnext hnot _ ih =>
    obtain ⟨fuel, rfl⟩ := Nat.exists_eq_add_one_of_ne_zero (Nat.ne_zero_of_lt hfuel)
    rw [List.length_cons] at hfuel
    have hrest : d.walkFrom follow fuel links (here ++ [part]) rest = .ok found := ih (by omega)
    cases e with
    | link target => exact absurd rfl (hnot target)
    | _ => simp [Disk.walkFrom, hhere, hpart.1, hpart.2, hnext, hrest]

/-- **There is always enough fuel**: a path leads where its components lead, if all of them can be
asked about. -/
theorem walk_eq_ok_iff : d.walk follow p = .ok found ↔
    p.parts.any holdsNull = false ∧ d.Leads follow maxLinks (d.startOf p) p.parts found := by
  unfold walk
  cases hnull : p.parts.any holdsNull with
  | true => simp
  | false =>
    rw [if_neg Bool.false_ne_true]
    dsimp only
    constructor
    · exact fun h => ⟨rfl, leads_of_walkFrom h⟩
    · rintro ⟨-, h⟩
      refine h.walkFrom ?_
      -- the fuel is one part of the path each, and the longest target for each link
      show _ < p.parts.length + 1 + (maxLinks + 1) * (d.longestTarget + 1)
      rw [Nat.succ_mul]
      omega

/-! ## Heads of paths -/

/-- What leads on leads to a directory first. -/
theorem Leads.exists_directory (h : d.Leads true links here parts found) {before : List String}
    {next : String} (hparts : parts = before ++ next :: rest) :
    ∃ there, d.Leads true links here before (.entry there .directory) := by
  induction h generalizing before with
  | arrived _ => exact absurd hparts (by simp)
  | @up links here more found hhere _ ih =>
    cases before with
    | nil => exact ⟨_, .arrived hhere⟩
    | cons first before =>
      obtain ⟨rfl, hmore⟩ := List.cons.inj hparts
      obtain ⟨there, hthere⟩ := ih hmore
      exact ⟨there, .up hhere hthere⟩
  | @free links here part hhere _ _ =>
    cases before with
    | nil => exact ⟨_, .arrived hhere⟩
    | cons first before => exact absurd (List.cons.inj hparts).2 (by simp)
  | unfollowed _ _ _ hfollow => exact nomatch hfollow
  | @link links here part target more found hhere hpart hlink _ _ ih =>
    cases before with
    | nil => exact ⟨_, .arrived hhere⟩
    | cons first before =>
      -- the components of the target go in front of those that are left
      obtain ⟨rfl, rfl⟩ := List.cons.inj hparts
      obtain ⟨there, hthere⟩ := ih (List.append_assoc _ _ _).symm
      exact ⟨there, .link hhere hpart hlink (by simp) hthere⟩
  | @down links here part e more found hhere hpart hnext hnot _ ih =>
    cases before with
    | nil => exact ⟨_, .arrived hhere⟩
    | cons first before =>
      obtain ⟨rfl, hmore⟩ := List.cons.inj hparts
      obtain ⟨there, hthere⟩ := ih hmore
      exact ⟨there, .down hhere hpart hnext hnot hthere⟩

/-- What leads to something does so, or to a link, if the last link is not followed. -/
theorem Leads.exists_entry {e : Entry} (h : d.Leads true links here parts (.entry location e)) :
    ∃ there e', d.Leads false links here parts (.entry there e') := by
  generalize hfound : Found.entry location e = found at h
  induction h with
  | arrived hhere => exact ⟨_, _, .arrived hhere⟩
  | up hhere _ ih =>
    obtain ⟨there, e', h⟩ := ih hfound
    exact ⟨there, e', .up hhere h⟩
  | free _ _ _ => exact nomatch hfound
  | unfollowed _ _ _ hfollow => exact nomatch hfollow
  | @link links here part target rest found hhere hpart hlink _ _ ih =>
    -- a link at the end is the entry itself, if it is not followed
    cases rest with
    | nil => exact ⟨_, _, .unfollowed hhere hpart hlink rfl⟩
    | cons next rest =>
      obtain ⟨there, e', h⟩ := ih hfound
      exact ⟨there, e', .link hhere hpart hlink (by simp) h⟩
  | down hhere hpart hnext hnot _ ih =>
    obtain ⟨there, e', h⟩ := ih hfound
    exact ⟨there, e', .down hhere hpart hnext hnot h⟩

/-! ## Files at the end of a path -/

/-- Whether what is found is on a disk as it was found. -/
def Found.IsOn (d : Disk) : Found → Prop
  | .entry location e => d.entry? location = some e
  | .free location => d.entry? location = none

/-- What is found is on the disk. -/
theorem Leads.isOn (h : d.Leads follow links here parts found) : found.IsOn d := by
  induction h with
  | arrived hhere => exact hhere
  | up _ _ ih => exact ih
  | free _ _ hnone => exact hnone
  | unfollowed _ _ hlink _ => exact hlink
  | link _ _ _ _ _ ih => exact ih
  | down _ _ _ _ _ ih => exact ih

/-- What stands at a location where a file can be written. -/
def Found.IsPlace (location : Location) : Found → Prop
  | .entry there e => there = location ∧ ∃ bytes, e = .file bytes
  | .free there => there = location

/-- **What a path leads to can be written**: then it leads to what was written. -/
theorem Leads.put_file (h : d.Leads follow links here parts found) (hplace : found.IsPlace location)
    (bytes : List UInt8) : (d.put location (.file bytes)).Leads follow links here parts
      (.entry location (.file bytes)) := by
  -- on the way there are directories and links, which stay as they are
  have hold : ∀ e, d.entry? location = some e → ∃ bytes, e = .file bytes := by
    have hend := h.isOn
    intro e he
    cases found with
    | entry there found =>
      obtain ⟨rfl, bytes, rfl⟩ := hplace
      exact ⟨bytes, Option.some.inj (he.symm.trans hend)⟩
    | free there =>
      obtain rfl := hplace
      exact nomatch he.symm.trans hend
  have hne : location ≠ [] := by
    rintro rfl
    obtain ⟨bytes, heq⟩ := hold .directory rfl
    exact nomatch heq
  have hkept : ∀ {there e}, d.entry? there = some e → (∀ bytes, e ≠ .file bytes) →
      entry? (d.put location (.file bytes)) there = some e := by
    intro there e he hnot
    rw [entry_put_of_ne ?_, he]
    rintro rfl
    obtain ⟨bytes, rfl⟩ := hold e he
    exact hnot bytes rfl
  have hself := entry_put_self hne d (.file bytes)
  induction h with
  | arrived hhere =>
    obtain ⟨rfl, -⟩ := hplace
    exact .arrived hself
  | up hhere _ ih => exact .up (hkept hhere nofun) (ih hplace)
  | free hhere hpart _ =>
    obtain rfl := hplace
    exact .down (hkept hhere nofun) hpart hself nofun (.arrived hself)
  | unfollowed _ _ _ _ =>
    obtain ⟨-, bytes, heq⟩ := hplace
    exact nomatch heq
  | link hhere hpart hlink hfollow _ ih =>
    exact .link (hkept hhere nofun) hpart (hkept hlink nofun) hfollow (ih hplace)
  | @down links here part e rest found hhere hpart hnext hnot _ ih =>
    cases e with
    | link target => exact absurd rfl (hnot target)
    | directory => exact .down (hkept hhere nofun) hpart (hkept hnext nofun) nofun (ih hplace)
    | file old =>
      by_cases heq : here ++ [part] = location
      · have hwritten : entry? (d.put location (.file bytes)) (here ++ [part]) =
            some (.file bytes) := by rw [heq, hself]
        exact .down (hkept hhere nofun) hpart hwritten nofun (ih hplace)
      · have hnext' : entry? (d.put location (.file bytes)) (here ++ [part]) = some (.file old) := by
          rw [entry_put_of_ne heq, hnext]
        exact .down (hkept hhere nofun) hpart hnext' nofun (ih hplace)

/-- A file that is read is one that a walk finds. -/
theorem read_eq_ok_iff {bytes : List UInt8} :
    d.read p = .ok bytes ↔ ∃ location, d.walk true p = .ok (.entry location (.file bytes)) := by
  unfold read fail
  constructor
  · intro h
    split at h
    · rename_i location bytes' hwalk
      obtain rfl := Except.ok.inj h
      exact ⟨location, hwalk⟩
    all_goals exact absurd h (by simp)
  · rintro ⟨location, hwalk⟩
    rw [hwalk]

/-- What is written where a path leads is read there. -/
theorem read_put {bytes : List UInt8} (h : d.walk true p = .ok found)
    (hplace : found.IsPlace location) : (d.put location (.file bytes)).read p = .ok bytes := by
  obtain ⟨hnull, hleads⟩ := walk_eq_ok_iff.mp h
  exact read_eq_ok_iff.mpr ⟨location, walk_eq_ok_iff.mpr ⟨hnull, hleads.put_file hplace bytes⟩⟩

/-- **What is written at the end of a file is behind what was in it.** -/
theorem exists_append_of_read {bytes : List UInt8} (h : d.read p = .ok bytes)
    (more : List UInt8) : ∃ d', d.append p more = .ok d' ∧ d'.read p = .ok (bytes ++ more) := by
  obtain ⟨location, hwalk⟩ := read_eq_ok_iff.mp h
  refine ⟨d.put location (.file (bytes ++ more)), ?_, read_put hwalk ⟨rfl, bytes, rfl⟩⟩
  unfold append writeWith
  rw [hwalk]

/-- A file is made where a name is free. -/
theorem exists_append_of_free (h : d.walk true p = .ok (.free location)) (more : List UInt8) :
    ∃ d', d.append p more = .ok d' ∧ d'.read p = .ok more := by
  refine ⟨d.put location (.file more), ?_, read_put h rfl⟩
  unfold append writeWith
  rw [h]
  rfl

/-- **The directory of a file is there.** -/
theorem makeDirectories_parent_of_read {bytes : List UInt8} (h : d.read p = .ok bytes) :
    d.makeDirectories p.parent = .ok d := by
  obtain ⟨location, hwalk⟩ := read_eq_ok_iff.mp h
  obtain ⟨hnull, hleads⟩ := walk_eq_ok_iff.mp hwalk
  obtain ⟨anchor, parts⟩ := p
  cases parts using List.reverseRecOn with
  | nil => rfl
  | append_singleton above last =>
    have hparent : FilePath.parent ⟨anchor, above ++ [last]⟩ = ⟨anchor, above⟩ := by
      simp [FilePath.parent]
    rw [hparent]
    have habove : above.any holdsNull = false := by
      rw [List.any_append, Bool.or_eq_false_iff] at hnull
      exact hnull.1
    obtain ⟨there, hthere⟩ := hleads.exists_directory rfl
    obtain ⟨place, e, hplace⟩ := hthere.exists_entry
    have hdirectory : d.walk true ⟨anchor, above⟩ = .ok (.entry there .directory) :=
      walk_eq_ok_iff.mpr ⟨habove, hthere⟩
    have hentry : d.walk false ⟨anchor, above⟩ = .ok (.entry place e) :=
      walk_eq_ok_iff.mpr ⟨habove, hplace⟩
    -- every making is refused, as there is a directory already, and that is enough
    unfold makeDirectories
    cases hreversed : above.reverse with
    | nil => rfl
    | cons first more =>
      have hback : (first :: more).reverse = above := by rw [← hreversed, List.reverse_reverse]
      have hmade : d.makeDirectory ⟨anchor, above⟩ = fail .alreadyExists ⟨anchor, above⟩ := by
        unfold makeDirectory
        rw [hentry]
      have his : d.isDirectory ⟨anchor, above⟩ = true := by
        unfold isDirectory
        rw [hdirectory]
      rw [ensureAll, hback]
      simp [hmade, fail, his]

end Packwright.Disk
