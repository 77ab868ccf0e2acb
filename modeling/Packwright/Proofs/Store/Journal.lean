import Packwright.Proofs.Dictionary
import Packwright.Proofs.Path.Ending
import Packwright.Proofs.Store.Pending
import Packwright.Store.Journal

/-!
# A store is read back as it was written

The files and maps of a store are what its journal says, under every spelling of a path.

* `Recorded` relates the two dictionaries to the journal, key by key. A write extends both
  (`Recorded.write`), and nothing else touches either.
* `Recorded.readsBack` turns keys into paths: `normalize_append_map` says that the key of a map is
  the key of its owner with the ending of maps behind it.
* `Feed.readsBack_run` and `Reactor.Course.readsBack_run` are the inductions.
-/

namespace Packwright

/-- A store that is read back as it was written. -/
structure Store.ReadsBack (s : Store) (j : Journal) : Prop where
  read : ∀ q, ¬ IsMapKey (Path.normalize q) → s.read q = j.last? (Path.normalize q)
  /-- The map of a path is what was written to the path with the ending of maps behind it. -/
  readMap : ∀ q, Path.EndsInName q.toList → s.readMap q = j.last? (Path.normalize (q ++ ".map"))
  has : ∀ q, s.has q = true ↔ s.read q ≠ none
  /-- A source map that is written is seen by nobody who does not ask for it. -/
  unseen : ∀ path content, IsMapKey (Path.normalize path) →
    (∀ q, (s.write path content).read q = s.read q ∧ (s.write path content).has q = s.has q) ∧
      (s.write path content).paths = s.paths ∧ (s.write path content).pending = s.pending
  paths : s.paths = (j.keys.filter fun key => ¬ IsMapKey key).eraseDups

/-! ## The journal -/

namespace Journal

/-- The last entry decides for its own path. -/
theorem last?_concat (j : Journal) (path content key : String) :
    last? (j ++ [(path, content)]) key =
      if Path.normalize path = key then some content else last? j key := by
  unfold last?
  rw [List.reverse_concat, List.find?_cons]
  by_cases hkey : Path.normalize path = key <;> simp [hkey]

/-- A further entry is a further key, at the end. -/
theorem keys_concat (j : Journal) (path content : String) :
    keys (j ++ [(path, content)]) = keys j ++ [Path.normalize path] := by
  rw [keys, List.map_append]
  rfl

end Journal

/-! ## Keys of source maps -/

namespace Store

/-- A name with the map ending behind it belongs to that name. -/
theorem mapOwner?_append (owner : String) : mapOwner? (owner ++ ".map") = some owner := by
  unfold mapOwner?
  rw [String.toList_append]
  show (Path.stripSuffix? mapSuffix (owner.toList ++ mapSuffix)).map String.ofList = some owner
  rw [Path.stripSuffix?_append, Option.map_some, String.ofList_toList]

theorem isMapKey_append (owner : String) : IsMapKey (owner ++ ".map") := by
  unfold IsMapKey
  rw [String.toList_append]
  exact List.suffix_append owner.toList mapSuffix

/-- The key of a map is that of its owner with the ending behind it. -/
theorem exists_eq_append_map {key : String} (h : IsMapKey key) :
    ∃ owner, key = owner ++ ".map" := by
  obtain ⟨stem, hstem⟩ := h
  refine ⟨String.ofList stem, String.toList_injective ?_⟩
  rw [String.toList_append, String.toList_ofList]
  exact hstem.symm

theorem mapOwner?_eq_none {key : String} (h : ¬ IsMapKey key) : mapOwner? key = none := by
  unfold mapOwner?
  rw [Path.stripSuffix?_of_not_suffix h, Option.map_none]

/-- The ending `.map` survives the normalization of paths. -/
theorem isEnding_mapSuffix : Path.IsEnding mapSuffix := by decide

/-- The key of the map of a path, as long as the path ends in the name of something. -/
theorem normalize_append_map {q : String} (h : Path.EndsInName q.toList) :
    Path.normalize (q ++ ".map") = Path.normalize q ++ ".map" := by
  unfold Path.normalize
  rw [String.toList_append]
  show String.ofList (Path.normalizeChars (q.toList ++ mapSuffix)) = _
  rw [Path.normalizeChars_append isEnding_mapSuffix h, String.ofList_append]
  rfl

/-! ## Writes -/

/-- Writing a map stores it under its owner and nothing more: no text, nothing pending. -/
theorem write_map {s : Store} {path owner : String} (h : Path.normalize path = owner ++ ".map")
    (content : String) :
    s.write path content = { s with maps := s.maps.put owner content } := by
  unfold write
  simp only [h, mapOwner?_append]

/-- A file goes to the files, whether or not its content is there already. -/
theorem write_file {s : Store} {path : String} (h : ¬ IsMapKey (Path.normalize path))
    (content : String) :
    (s.write path content).files = s.files.put (Path.normalize path) content ∧
      (s.write path content).maps = s.maps := by
  unfold write
  simp only [mapOwner?_eq_none h]
  split
  · rename_i hsame
    exact ⟨(Dictionary.put_of_get?_eq_some hsame).symm, rfl⟩
  · exact ⟨rfl, rfl⟩

/-- What a store holds by its journal. -/
structure Recorded (s : Store) (j : Journal) : Prop where
  files_get : ∀ key, ¬ IsMapKey key → s.files.get? key = j.last? key
  maps_get : ∀ owner, s.maps.get? owner = j.last? (owner ++ ".map")
  keys_eq : s.files.keys = (j.keys.filter fun key => ¬ IsMapKey key).eraseDups

theorem recorded_empty : Recorded empty [] :=
  ⟨fun _ _ => rfl, fun _ => rfl, rfl⟩

/-- The journal is about the texts and the maps only. -/
theorem Recorded.congr {s s' : Store} {j : Journal} (h : Recorded s j) (hfiles : s'.files = s.files)
    (hmaps : s'.maps = s.maps) : Recorded s' j :=
  ⟨hfiles ▸ h.files_get, hmaps ▸ h.maps_get, hfiles ▸ h.keys_eq⟩

/-- **A write is recorded.** -/
theorem Recorded.write {s : Store} {j : Journal} (h : Recorded s j) (path content : String) :
    Recorded (s.write path content) (j ++ [(path, content)]) := by
  by_cases hmap : IsMapKey (Path.normalize path)
  · obtain ⟨owner, howner⟩ := exists_eq_append_map hmap
    rw [write_map howner]
    constructor
    case files_get =>
      -- a map is written under no key of a file
      intro key hkey
      have hne : Path.normalize path ≠ key := fun heq => hkey (heq ▸ hmap)
      rw [Journal.last?_concat, if_neg hne]
      exact h.files_get key hkey
    case maps_get =>
      -- two owners with one map are one owner
      intro other
      rw [Journal.last?_concat, howner]
      by_cases hother : other = owner
      · rw [hother, if_pos rfl]
        exact Dictionary.get?_put_self s.maps owner content
      · have hne : owner ++ ".map" ≠ other ++ ".map" := fun heq =>
          hother (Option.some.inj ((mapOwner?_append other).symm.trans
            (heq ▸ mapOwner?_append owner)))
        rw [if_neg hne]
        exact (Dictionary.get?_put_of_ne s.maps content hother).trans (h.maps_get other)
    case keys_eq =>
      rw [Journal.keys_concat, List.filter_append, List.filter_singleton]
      simpa [hmap] using h.keys_eq
  · obtain ⟨hfiles, hmaps⟩ := write_file (s := s) hmap content
    constructor
    case files_get =>
      intro key hkey
      rw [Journal.last?_concat, hfiles]
      by_cases heq : Path.normalize path = key
      · rw [heq, if_pos rfl]
        exact Dictionary.get?_put_self s.files key content
      · rw [if_neg heq]
        exact (Dictionary.get?_put_of_ne s.files content (Ne.symm heq)).trans (h.files_get key hkey)
    case maps_get =>
      intro owner
      have hne : Path.normalize path ≠ owner ++ ".map" := fun heq =>
        hmap (heq ▸ isMapKey_append owner)
      rw [Journal.last?_concat, if_neg hne, hmaps]
      exact h.maps_get owner
    case keys_eq =>
      -- the key goes to the end, unless it was there: which is what first occurrences do
      rw [Journal.keys_concat, List.filter_append, List.filter_singleton, hfiles,
        Dictionary.keys_put, h.keys_eq]
      simp only [hmap, not_false_eq_true, decide_true]
      exact FirstOccurrence.concat_eraseDups _ _

/-- **What is recorded is read back.** -/
theorem Recorded.readsBack {s : Store} {j : Journal} (h : Recorded s j) : ReadsBack s j where
  read q hq := h.files_get _ hq
  readMap q hq := by
    rw [normalize_append_map hq]
    exact h.maps_get (Path.normalize q)
  has q := by
    show (s.files.get? (Path.normalize q)).isSome = true ↔ _
    exact Option.isSome_iff_ne_none
  unseen path content hmap := by
    obtain ⟨owner, howner⟩ := exists_eq_append_map hmap
    rw [write_map howner]
    exact ⟨fun q => ⟨rfl, rfl⟩, rfl, rfl⟩
  paths := h.keys_eq

end Store

/-! ## Sequences of operations -/

namespace Feed

variable {ω : Type}

/-- A flush leaves the files and maps where they are. -/
theorem flush_keeps (f : Feed ω) :
    f.flush.1.store.files = f.store.files ∧ f.flush.1.store.maps = f.store.maps := by
  by_cases hpending : f.store.pending = []
  · rw [flush_of_nil hpending]
    exact ⟨rfl, rfl⟩
  · rw [flush_of_ne hpending]
    exact ⟨rfl, rfl⟩

/-- One operation lengthens the journal by what it writes. -/
theorem recorded_operate {f : Feed ω} {j : Journal} (h : f.store.Recorded j) (o : Operation ω) :
    (f.operate o).store.Recorded (j ++ o.written?.toList) := by
  have hflush : f.flush.1.store.Recorded j := h.congr (flush_keeps f).1 (flush_keeps f).2
  cases o with
  | write clock? path content =>
    show (f.write clock? path content).store.Recorded _
    -- only a write has an entry; the other operations append nothing
    rw [store_write]
    exact h.write path content
  | flush =>
    show f.flush.1.store.Recorded (j ++ [])
    rw [List.append_nil]
    exact hflush
  | fire now =>
    show (f.fire now).1.store.Recorded (j ++ [])
    rw [List.append_nil]
    unfold fire
    split
    · exact hflush
    · exact h
  | watch w =>
    show f.store.Recorded (j ++ [])
    rw [List.append_nil]
    exact h

/-- So does a run of them. -/
theorem recorded_run {f : Feed ω} {j : Journal} (h : f.store.Recorded j)
    (operations : List (Operation ω)) :
    (f.run operations).store.Recorded (j ++ written operations) := by
  induction operations generalizing f j with
  | nil =>
    rw [written, List.filterMap_nil, List.append_nil]
    exact h
  | cons o rest ih =>
    have hrest := ih (recorded_operate h o)
    rw [List.append_assoc] at hrest
    have hjournal : written (o :: rest) = o.written?.toList ++ written rest := by
      rw [written, List.filterMap_cons, written]
      cases o.written? <;> rfl
    rw [hjournal]
    exact hrest

/-- A feed that starts empty holds what its own journal says. -/
theorem recorded_written (debounce : Nat) (operations : List (Operation ω)) :
    ((empty debounce).run operations).store.Recorded (written operations) :=
  recorded_run (f := empty debounce) Store.recorded_empty operations

/-- **A store is read back as it was written**, after any sequence of operations. -/
theorem readsBack_run (debounce : Nat) (operations : List (Operation ω)) :
    ((empty debounce).run operations).store.ReadsBack (written operations) :=
  (recorded_written debounce operations).readsBack

end Feed

/-! ## Watchers that write -/

namespace Reactor.Course

/-- A move does to the feed what its operation says, or nothing. -/
theorem feed_step (c : Course) (m : Move) :
    (c.step m).reactor.feed = c.reactor.feed.run (c.operation? m).toList := by
  obtain ⟨r, agenda, history⟩ := c
  cases m with
  | ask command =>
    show (if agenda = [] then _ else _ : Course).reactor.feed = r.feed
    split <;> rfl
  | fire now =>
    show (if agenda = [] ∧ r.feed.isDue now then _ else _ : Course).reactor.feed = r.feed
    split <;> rfl
  | work clock? =>
    cases agenda with
    | nil => rfl
    | cons first rest =>
      obtain ⟨n, task⟩ := first
      cases task with
      | perform command => cases command <;> rfl
      | deliver watcher batch =>
        -- a delivery changes the reactions of its watcher and leaves the feed alone
        show (r.deliver watcher batch).1.feed = r.feed
        unfold deliver
        split
        · rfl
        · dsimp only
          split <;> rfl

/-- **The feed of a reactor goes through the operations of its run.** -/
theorem feed_run (c : Course) (moves : List Move) :
    (c.run moves).reactor.feed = c.reactor.feed.run (c.operations moves) := by
  induction moves generalizing c with
  | nil => rfl
  | cons m rest ih =>
    show ((c.step m).run rest).reactor.feed = _
    rw [ih, feed_step, operations, Feed.run, Feed.run, Feed.run, List.foldl_append]

/-- A store is read back as it was written, by whomever: also by watchers while a batch is handed
out. -/
theorem readsBack_written (debounce : Nat) (moves : List Move) :
    ((initial debounce).run moves).reactor.feed.store.ReadsBack
      ((initial debounce).written moves) := by
  rw [feed_run]
  exact (Feed.recorded_written debounce _).readsBack

end Reactor.Course

end Packwright
