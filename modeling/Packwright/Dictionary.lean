/-!
# Dictionaries in order of insertion

A dictionary is a list of keys and values in which the first pair with a key counts. Putting a key
that is there already keeps its place; a new key goes to the end. So the order of the keys is the
order of their first insertion.

* `get?_put_self` and `get?_put_of_ne` say what a look-up sees after a put.
* `keys_put_of_mem` and `keys_put_of_not_mem` say where the key goes.
-/

namespace Packwright

/-- Keys with their values, in order of insertion. -/
abbrev Dictionary (κ α : Type) := List (κ × α)

namespace Dictionary

variable {κ α : Type} [DecidableEq κ]

def get? : Dictionary κ α → κ → Option α
  | [], _ => none
  | (k, v) :: rest, key => if k = key then some v else get? rest key

def has (d : Dictionary κ α) (key : κ) : Bool :=
  (get? d key).isSome

/-- Gives a key a value, in its old place if it has one and at the end otherwise. -/
def put : Dictionary κ α → κ → α → Dictionary κ α
  | [], key, value => [(key, value)]
  | (k, v) :: rest, key, value =>
    if k = key then (k, value) :: rest else (k, v) :: put rest key value

def erase (d : Dictionary κ α) (key : κ) : Dictionary κ α :=
  d.filter fun (k, _) => k ≠ key

def keys (d : Dictionary κ α) : List κ :=
  d.map Prod.fst

def values (d : Dictionary κ α) : List α :=
  d.map Prod.snd

/-- The dictionary of a list of pairs in which the last pair with a key counts and the first one
gives the place. -/
def ofPairs (pairs : List (κ × α)) : Dictionary κ α :=
  pairs.foldl (fun d (k, v) => put d k v) []

@[simp] theorem get?_put_self (d : Dictionary κ α) (key : κ) (value : α) :
    get? (put d key value) key = some value := by
  induction d with
  | nil => simp [put, get?]
  | cons p rest ih =>
    obtain ⟨k, v⟩ := p
    by_cases h : k = key <;> simp [put, get?, h, ih]

theorem get?_put_of_ne (d : Dictionary κ α) {key other : κ} (value : α) (h : other ≠ key) :
    get? (put d key value) other = get? d other := by
  induction d with
  | nil => simp [put, get?, Ne.symm h]
  | cons p rest ih =>
    obtain ⟨k, v⟩ := p
    by_cases hk : k = key
    · subst hk
      simp [put, get?, Ne.symm h]
    · rw [put, if_neg hk]
      simp only [get?, ih]

theorem keys_put_of_mem (d : Dictionary κ α) {key : κ} (value : α) (h : key ∈ keys d) :
    keys (put d key value) = keys d := by
  induction d with
  | nil => simp [keys] at h
  | cons p rest ih =>
    obtain ⟨k, v⟩ := p
    by_cases hk : k = key
    · simp [put, keys, hk]
    · have hmem : key ∈ keys rest := by
        simp only [keys, List.map_cons, List.mem_cons] at h
        rcases h with h | h
        · exact absurd h.symm hk
        · exact h
      have := ih hmem
      simp only [keys] at this
      simp [put, keys, hk, this]

theorem keys_put_of_not_mem (d : Dictionary κ α) {key : κ} (value : α) (h : key ∉ keys d) :
    keys (put d key value) = keys d ++ [key] := by
  induction d with
  | nil => simp [put, keys]
  | cons p rest ih =>
    obtain ⟨k, v⟩ := p
    simp only [keys, List.map_cons, List.mem_cons, not_or] at h
    have := ih h.2
    simp only [keys] at this
    simp [put, keys, Ne.symm h.1, this]

end Dictionary

end Packwright
