import Packwright.Dictionary

/-!
# Look-ups in a dictionary

What is in a dictionary is what a look-up finds, as long as no key is repeated, and neither a put
nor an erasure repeats a key. In an overlay a look-up goes from the upper dictionary to the lower
one (`get?_overlay`).
-/

namespace Packwright

namespace Dictionary

variable {κ α : Type} [DecidableEq κ]

/-- What a look-up finds is in the dictionary. -/
theorem mem_of_get?_eq_some {d : Dictionary κ α} {key : κ} {value : α}
    (h : get? d key = some value) : (key, value) ∈ d := by
  induction d with
  | nil => simp [get?] at h
  | cons p rest ih =>
    obtain ⟨k, v⟩ := p
    by_cases hk : k = key
    · subst hk
      simp only [get?, if_true, Option.some.injEq] at h
      subst h
      exact List.mem_cons_self
    · rw [get?, if_neg hk] at h
      exact List.mem_cons_of_mem _ (ih h)

/-- Without repeated keys, what is in the dictionary is what a look-up finds. -/
theorem get?_eq_some_of_mem {d : Dictionary κ α} (hd : (keys d).Nodup) {key : κ} {value : α}
    (h : (key, value) ∈ d) : get? d key = some value := by
  induction d with
  | nil => simp at h
  | cons p rest ih =>
    obtain ⟨k, v⟩ := p
    have hnd : k ∉ keys rest ∧ (keys rest).Nodup := by simpa [keys] using hd
    rcases List.mem_cons.mp h with heq | hmem
    · obtain ⟨rfl, rfl⟩ := Prod.mk.inj heq
      simp [get?]
    · -- a later entry of this key would repeat it
      have hne : k ≠ key := by
        rintro rfl
        exact hnd.1 (List.mem_map_of_mem (f := Prod.fst) hmem)
      rw [get?, if_neg hne]
      exact ih hnd.2 hmem

/-- What is in a dictionary after a put is what was put, or was there before. -/
theorem mem_put {d : Dictionary κ α} {key : κ} {value : α} {p : κ × α}
    (h : p ∈ put d key value) : p = (key, value) ∨ p ∈ d := by
  induction d with
  | nil => simpa [put] using h
  | cons q rest ih =>
    obtain ⟨k, v⟩ := q
    -- the entry of the key is replaced in its place
    by_cases hk : k = key
    · rw [put, if_pos hk] at h
      rcases List.mem_cons.mp h with heq | hmem
      · exact Or.inl (by rw [heq, hk])
      · exact Or.inr (List.mem_cons_of_mem _ hmem)
    · rw [put, if_neg hk] at h
      rcases List.mem_cons.mp h with heq | hmem
      · exact Or.inr (heq ▸ List.mem_cons_self)
      · rcases ih hmem with heq | hold
        · exact Or.inl heq
        · exact Or.inr (List.mem_cons_of_mem _ hold)

/-- A put repeats no key. -/
theorem nodup_keys_put {d : Dictionary κ α} (hd : (keys d).Nodup) (key : κ) (value : α) :
    (keys (put d key value)).Nodup := by
  by_cases hk : key ∈ keys d
  · rw [keys_put_of_mem d value hk]
    exact hd
  · rw [keys_put_of_not_mem d value hk, List.nodup_append]
    refine ⟨hd, by simp, fun a ha b hb => ?_⟩
    rintro rfl
    exact hk ((List.mem_singleton.mp hb) ▸ ha)

/-- A new key goes to the end with its value. -/
theorem put_of_not_mem_keys {d : Dictionary κ α} {key : κ} (value : α) (h : key ∉ keys d) :
    put d key value = d ++ [(key, value)] := by
  induction d with
  | nil => rfl
  | cons p rest ih =>
    obtain ⟨k, v⟩ := p
    obtain ⟨hne, hrest⟩ : key ≠ k ∧ key ∉ keys rest := by simpa [keys] using h
    rw [put, if_neg (Ne.symm hne), ih hrest, List.cons_append]

/-- What a key has already can be put there again. -/
theorem put_of_get?_eq_some {d : Dictionary κ α} {key : κ} {value : α}
    (h : get? d key = some value) : put d key value = d := by
  induction d with
  | nil => exact absurd h (by simp [get?])
  | cons p rest ih =>
    obtain ⟨k, v⟩ := p
    by_cases hk : k = key
    · rw [get?, if_pos hk] at h
      rw [put, if_pos hk, Option.some.inj h]
    · rw [get?, if_neg hk] at h
      rw [put, if_neg hk, ih h]

/-- The key of a put goes to the end, unless it is there. -/
theorem keys_put (d : Dictionary κ α) (key : κ) (value : α) :
    keys (put d key value) = if (keys d).contains key then keys d else keys d ++ [key] := by
  by_cases hk : key ∈ keys d
  · rw [keys_put_of_mem d value hk, if_pos (List.contains_iff_mem.mpr hk)]
  · rw [keys_put_of_not_mem d value hk, if_neg (fun h => hk (List.contains_iff_mem.mp h))]

/-- Nothing is removed under a key that is not there. -/
theorem erase_of_not_mem_keys {d : Dictionary κ α} {key : κ} (h : key ∉ keys d) :
    erase d key = d := by
  refine List.filter_eq_self.mpr fun p hp => ?_
  have hne : p.1 ≠ key := fun heq => h (heq ▸ List.mem_map_of_mem (f := Prod.fst) hp)
  simpa using hne

/-- What is put under a new key and removed again leaves nothing behind. -/
theorem erase_put_of_not_mem_keys {d : Dictionary κ α} {key : κ} (value : α) (h : key ∉ keys d) :
    erase (put d key value) key = d := by
  have hrest := erase_of_not_mem_keys h
  rw [put_of_not_mem_keys value h]
  unfold erase at hrest ⊢
  rw [List.filter_append, hrest]
  simp

/-- What is in a dictionary after a removal was there before. -/
theorem mem_of_mem_erase {d : Dictionary κ α} {key : κ} {p : κ × α} (h : p ∈ erase d key) :
    p ∈ d :=
  (List.mem_filter.mp h).1

/-- What has been removed is not found. -/
theorem get?_erase_self (d : Dictionary κ α) (key : κ) : get? (erase d key) key = none := by
  cases h : get? (erase d key) key with
  | none => rfl
  | some v =>
    have hmem := (List.mem_filter.mp (mem_of_get?_eq_some h)).2
    exact absurd hmem (by simp)

/-- A removal touches no other key. -/
theorem get?_erase_of_ne (d : Dictionary κ α) {key other : κ} (h : other ≠ key) :
    get? (erase d key) other = get? d other := by
  induction d with
  | nil => rfl
  | cons p rest ih =>
    obtain ⟨k, v⟩ := p
    unfold erase at ih ⊢
    by_cases hk : k = key
    · rw [List.filter_cons_of_neg (by simpa using hk), ih, get?, if_neg (hk ▸ Ne.symm h)]
    · rw [List.filter_cons_of_pos (by simpa using hk), get?, get?, ih]

theorem nodup_keys_erase {d : Dictionary κ α} (hd : (keys d).Nodup) (key : κ) :
    (keys (erase d key)).Nodup :=
  (List.filter_sublist.map Prod.fst).nodup hd

/-- Pairs with different keys are a dictionary as they stand. -/
theorem ofPairs_of_nodup {pairs : List (κ × α)} (h : (pairs.map Prod.fst).Nodup) :
    ofPairs pairs = pairs := by
  -- the pairs already put must be in the statement, for the induction
  have hfold : ∀ d : Dictionary κ α, (keys d ++ pairs.map Prod.fst).Nodup →
      pairs.foldl (fun d p => put d p.1 p.2) d = d ++ pairs := by
    clear h
    induction pairs with
    | nil => exact fun d _ => (List.append_nil d).symm
    | cons p more ih =>
      obtain ⟨k, v⟩ := p
      intro d hd
      have hk : k ∉ keys d := fun hmem =>
        (List.nodup_append.mp hd).2.2 k hmem k (by simp) rfl
      show more.foldl _ (put d k v) = d ++ (k, v) :: more
      rw [put_of_not_mem_keys v hk, ih]
      · rw [List.append_assoc]
        rfl
      · simpa [keys] using hd
  exact hfold [] h

/-! ## Overlays -/

/-- A dictionary put over another one: where both have a key, the value of the upper one counts. -/
def overlay (lower upper : Dictionary κ α) : Dictionary κ α :=
  upper.foldr (fun p d => put d p.1 p.2) lower

/-- In an overlay the upper dictionary is looked up first. -/
theorem get?_overlay (lower upper : Dictionary κ α) (key : κ) :
    get? (overlay lower upper) key = (get? upper key).or (get? lower key) := by
  induction upper with
  | nil => rfl
  | cons p rest ih =>
    obtain ⟨k, v⟩ := p
    show get? (put (overlay lower rest) k v) key = _
    by_cases hk : k = key
    · rw [hk, get?_put_self, get?, if_pos rfl]
      rfl
    · rw [get?_put_of_ne _ _ (Ne.symm hk), ih, get?, if_neg hk]

/-- Values that are changed by their keys are found changed. -/
theorem get?_map {β : Type} (f : κ → α → β) (d : Dictionary κ α) (key : κ) :
    get? (d.map fun (k, v) => (k, f k v)) key = (get? d key).map (f key) := by
  induction d with
  | nil => rfl
  | cons p rest ih =>
    obtain ⟨k, v⟩ := p
    by_cases hk : k = key
    · simp [get?, hk]
    · simpa [get?, hk] using ih

end Dictionary

end Packwright
