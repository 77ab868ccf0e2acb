import Packwright.Proofs.Dictionary.Ascending
import Packwright.Proofs.Json.RoundTrip

/-!
# Documents with their keys in order

A document that is written with the keys of its tables in ascending order is read as a value that
differs from it in nothing but that order.

* `Value.Agrees` says that of two values. A table is what its look-ups find, so the order of its
  keys does not count.
* `readWithin_writeSorted` and `agrees_sortKeys` are the two halves.
-/

namespace Packwright

open Json (IsReadableWithin)

namespace Value

/-- Whether two values differ at most in the order of the keys of tables. -/
inductive Agrees : Value → Value → Prop
  | refl (v : Value) : Agrees v v
  | list {items items' : List Value} (hlength : items.length = items'.length)
      (hitems : ∀ (i : Nat) v v', items[i]? = some v → items'[i]? = some v' → Agrees v v') :
      Agrees (.list items) (.list items')
  | table {fields fields' : Fields}
      (hkeys : ∀ key, (Dictionary.get? fields key).isSome = (Dictionary.get? fields' key).isSome)
      (hfields : ∀ key v v', Dictionary.get? fields key = some v →
        Dictionary.get? fields' key = some v' → Agrees v v') :
      Agrees (.table fields) (.table fields')

/-! ## The parts of a sorted value -/

/-- Sorting the items of a list sorts within each. -/
theorem sortItems_eq_map (items : List Value) : sortItems items = items.map sortKeys := by
  induction items with
  | nil => rfl
  | cons v more ih => rw [sortItems, ih, List.map_cons]

/-- Sorting the values of a table sorts within each. -/
theorem sortFields_eq_map (fields : Fields) :
    sortFields fields = fields.map fun (k, v) => (k, sortKeys v) := by
  induction fields with
  | nil => rfl
  | cons p more ih => rw [sortFields, ih, List.map_cons]

theorem keys_sortFields (fields : Fields) :
    Dictionary.keys (sortFields fields) = Dictionary.keys fields := by
  rw [sortFields_eq_map]
  unfold Dictionary.keys
  rw [List.map_map]
  rfl

theorem get?_sortFields (fields : Fields) (key : String) :
    Dictionary.get? (sortFields fields) key = (Dictionary.get? fields key).map sortKeys := by
  rw [sortFields_eq_map, Dictionary.get?_map fun _ => sortKeys]

variable {limit? : Option Nat} {v : Value}

/-- **A value that can be read can be read when it is sorted.** -/
theorem isReadableWithin_sortKeys (h : IsReadableWithin limit? v) :
    IsReadableWithin limit? v.sortKeys := by
  induction h with
  | null => exact .null
  | bool b => exact .bool b
  | int hshort => exact .int hshort
  | real hnormal => exact .real hnormal
  | text s => exact .text s
  | @list items hitems ih =>
    rw [sortKeys, sortItems_eq_map]
    refine .list fun w hw => ?_
    obtain ⟨v, hv, rfl⟩ := List.mem_map.mp hw
    exact ih v hv
  | @table fields hkeys hfields ih =>
    -- sorting permutes the fields, so the keys stay distinct
    have hperm : ((sortFields fields).mergeSort fun p q => p.1 ≤ q.1).Perm (sortFields fields) :=
      List.mergeSort_perm _ _
    rw [sortKeys]
    refine .table ?_ fun p hp => ?_
    · rw [(Dictionary.keys_perm hperm).nodup_iff, keys_sortFields]
      exact hkeys
    · rw [hperm.mem_iff, sortFields_eq_map] at hp
      obtain ⟨q, hq, rfl⟩ := List.mem_map.mp hp
      exact ih q hq

/-- **Sorting changes the order of keys only.** -/
theorem agrees_sortKeys (h : IsReadableWithin limit? v) : v.sortKeys.Agrees v := by
  induction h with
  | @list items hitems ih =>
    rw [sortKeys, sortItems_eq_map]
    refine .list (List.length_map _) fun i w v hw hv => ?_
    rw [List.getElem?_map, hv] at hw
    obtain rfl := Option.some.inj hw
    exact ih v (List.mem_of_getElem? hv)
  | @table fields hkeys hfields ih =>
    -- with distinct keys the order of the fields does not matter for looking one up
    have hget : ∀ key, Dictionary.get? ((sortFields fields).mergeSort fun p q => p.1 ≤ q.1) key =
        (Dictionary.get? fields key).map sortKeys := fun key => by
      rw [Dictionary.get?_mergeSort (by rwa [keys_sortFields]), get?_sortFields]
    rw [sortKeys]
    refine .table (fun key => ?_) fun key w v hw hv => ?_
    · rw [hget, Option.isSome_map]
    · rw [hget, hv] at hw
      obtain rfl := Option.some.inj hw
      exact ih _ (Dictionary.mem_of_get?_eq_some hv)
  | _ => exact .refl _

end Value

namespace Json

/-- **A sorted document is read as the sorted value.** -/
theorem readWithin_writeSorted {limit? : Option Nat} {v : Value} (h : IsReadableWithin limit? v) :
    readWithin limit? (writeSorted v) = .ok v.sortKeys :=
  readWithin_write (Value.isReadableWithin_sortKeys h)

end Json

end Packwright
