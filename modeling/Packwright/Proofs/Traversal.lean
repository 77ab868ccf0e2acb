import Mathlib.Data.List.Forall2

/-!
# Steps and traversals that succeed

Two steps that may fail succeed exactly if both do. A traversal with a function that may fail
succeeds exactly if the function does at every element, and yields what it yields there.
-/

namespace Packwright.Traversal

variable {α β ε : Type}

/-- Two steps succeed if the first does and the second does with its result: the lemma by which the
readers of this project are taken apart. -/
theorem bind_eq_ok_iff {x : Except ε α} {f : α → Except ε β} {b : β} :
    (x >>= f) = .ok b ↔ ∃ a, x = .ok a ∧ f a = .ok b := by
  cases x with
  | error e => simp [Bind.bind, Except.bind]
  | ok a => simp [Bind.bind, Except.bind]

/-- Renaming the error leaves the successes. -/
theorem mapError_eq_ok_iff {ε' : Type} {x : Except ε α} {f : ε → ε'} {a : α} :
    x.mapError f = .ok a ↔ x = .ok a := by
  cases x with
  | error e => simp [Except.mapError]
  | ok b => simp [Except.mapError]

theorem toOption_eq_some_iff {x : Except ε α} {a : α} : x.toOption = some a ↔ x = .ok a := by
  cases x with
  | error e => simp [Except.toOption]
  | ok b => simp [Except.toOption]

/-- What there is for every element, there is for all of them in turn. -/
theorem exists_forall₂ {R : α → β → Prop} {xs : List α} (h : ∀ x ∈ xs, ∃ y, R x y) :
    ∃ ys, List.Forall₂ R xs ys := by
  induction xs with
  | nil => exact ⟨[], .nil⟩
  | cons x xs ih =>
    obtain ⟨⟨y, hy⟩, hrest⟩ := List.forall_mem_cons.mp h
    obtain ⟨ys, hys⟩ := ih hrest
    exact ⟨y :: ys, .cons hy hys⟩

/-- What is a function of each element is so for all of them. -/
theorem forall₂_eq_iff {p : α → Prop} {f : α → β} {xs : List α} {ys : List β} :
    List.Forall₂ (fun x y => p x ∧ y = f x) xs ys ↔ (∀ x ∈ xs, p x) ∧ ys = xs.map f := by
  rw [List.forall₂_and_left]
  refine and_congr_right fun _ => ?_
  have hmap : List.Forall₂ (fun x y => f x = y) xs ys ↔ xs.map f = ys := by
    rw [← List.forall₂_map_left_iff (f := f), List.forall₂_eq_eq_eq]
  simp only [eq_comm] at hmap ⊢
  exact hmap

/-- A traversal of one member more. -/
theorem mapM_cons_ok {f : α → Except ε β} {x : α} {xs : List α} {ys : List β} :
    (x :: xs).mapM f = .ok ys ↔ ∃ y rest, f x = .ok y ∧ xs.mapM f = .ok rest ∧ ys = y :: rest := by
  rw [List.mapM_cons]
  cases hx : f x with
  | error e => simp [Bind.bind, Except.bind]
  | ok y =>
    cases hxs : xs.mapM f with
    | error e => simp [Bind.bind, Except.bind]
    | ok rest => simp [Bind.bind, Except.bind, Pure.pure, Except.pure, eq_comm]

/-- **A traversal succeeds element by element.** -/
theorem mapM_eq_ok_iff {f : α → Except ε β} {xs : List α} {ys : List β} :
    xs.mapM f = .ok ys ↔ List.Forall₂ (fun x y => f x = .ok y) xs ys := by
  induction xs generalizing ys with
  | nil =>
    rw [List.mapM_nil, List.forall₂_nil_left_iff]
    exact ⟨fun h => (Except.ok.inj h).symm, fun h => by rw [h]; rfl⟩
  | cons x xs ih =>
    rw [mapM_cons_ok, List.forall₂_cons_left_iff]
    constructor
    · rintro ⟨y, rest, hx, hxs, rfl⟩
      exact ⟨y, rest, hx, ih.mp hxs, rfl⟩
    · rintro ⟨y, rest, hx, hxs, rfl⟩
      exact ⟨y, rest, hx, ih.mpr hxs, rfl⟩

/-- What a traversal yields, the function has yielded at some element. -/
theorem exists_of_mem_mapM {f : α → Except ε β} {xs : List α} {ys : List β}
    (h : xs.mapM f = .ok ys) {y : β} (hy : y ∈ ys) : ∃ x ∈ xs, f x = .ok y := by
  have hall := mapM_eq_ok_iff.mp h
  clear h
  induction hall with
  | nil => exact absurd hy (by simp)
  | cons hfirst _ ih =>
    rcases List.mem_cons.mp hy with rfl | hmore
    · exact ⟨_, List.mem_cons_self, hfirst⟩
    · obtain ⟨x, hx, hfx⟩ := ih hmore
      exact ⟨x, List.mem_cons_of_mem _ hx, hfx⟩

/-- What the function yields at an element, the traversal yields somewhere. -/
theorem mem_of_mem_mapM {f : α → Except ε β} {xs : List α} {ys : List β}
    (h : xs.mapM f = .ok ys) {x : α} (hx : x ∈ xs) {y : β} (hy : f x = .ok y) : y ∈ ys := by
  have hall := mapM_eq_ok_iff.mp h
  clear h
  induction hall with
  | nil => exact absurd hx (by simp)
  | cons hfirst _ ih =>
    rcases List.mem_cons.mp hx with rfl | hmore
    · exact List.mem_cons.mpr (Or.inl (Except.ok.inj (hy.symm.trans hfirst)))
    · exact List.mem_cons_of_mem _ (ih hmore)

end Packwright.Traversal
