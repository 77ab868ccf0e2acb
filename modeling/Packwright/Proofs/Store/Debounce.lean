import Mathlib.Data.List.SplitBy
import Packwright.Proofs.Store.Pending
import Packwright.Store.Timeline

/-!
# Batches are bursts of changes

A feed that is written to in the course of time hands out one batch for each burst of changes, when
nothing has changed for as long as it waits.

* `Collects` says what a feed is while a burst lasts: its pending paths are those of the burst, and
  its timer is set by the last change.
* `Collects.elapse` and `Collects.write` are what time and writes make of that, and `Collects.play`
  is the induction over the writes.
-/

namespace Packwright

/-! ## Changes and bursts -/

/-- Which writes change something depends on the stored texts alone, so pending paths and maps may
be dropped from the store. -/
theorem Store.changes_congr {s s' : Store} (h : s.files = s'.files) (writes : List TimedWrite) :
    s.changes writes = s'.changes writes := by
  induction writes generalizing s s' with
  | nil => rfl
  | cons w rest ih =>
    rw [changes, changes, isChange_congr h, ih (files_write_congr h w.path w.content)]

/-- No change is earlier than the first write. -/
theorem Store.le_time_of_mem_changes {s : Store} {writes : List TimedWrite} {now : Nat}
    (h : ∀ w ∈ writes, now ≤ w.time) {c : Change} (hc : c ∈ s.changes writes) : now ≤ c.time := by
  induction writes generalizing s with
  | nil => exact absurd hc (by simp [changes])
  | cons w rest ih =>
    have hrest := fun hmem => ih (s := s.write w.path w.content)
      (fun v hv => h v (List.mem_cons_of_mem _ hv)) hmem
    simp only [changes] at hc
    split at hc
    · rcases List.mem_cons.mp hc with rfl | hmem
      · exact h w List.mem_cons_self
      · exact hrest hmem
    · exact hrest hc

/-- Whether a burst is over at a time: nothing has changed for a window. -/
def isOver (window now : Nat) (burst : List Change) : Bool :=
  burst.getLast?.any fun last => last.time + window ≤ now

/-- A burst that is still open hands out nothing. -/
theorem handoutsOf_of_not_isOver {ω : Type} {window now : Nat} {burst : List Change}
    (h : isOver window now burst = false) (watchers : List ω) :
    handoutsOf window watchers now burst = [] := by
  unfold handoutsOf
  cases hlast : burst.getLast? with
  | none => rfl
  | some last =>
    have hlate : ¬ last.time + window ≤ now := by simpa [isOver, hlast] using h
    dsimp only
    rw [if_neg hlate]

/-- What a finished burst hands out no longer depends on when the feed is looked at. -/
theorem handoutsOf_of_isOver {ω : Type} {window now later : Nat} {burst : List Change}
    (h : isOver window now burst = true) (hle : now ≤ later) (watchers : List ω) :
    handoutsOf window watchers later burst = handoutsOf window watchers now burst := by
  unfold handoutsOf
  cases hlast : burst.getLast? with
  | none => rfl
  | some last =>
    have hin : last.time + window ≤ now := by simpa [isOver, hlast] using h
    dsimp only
    rw [if_pos hin, if_pos (Nat.le_trans hin hle)]

/-- A burst that is over is one of its own, whatever changes then. -/
theorem bursts_append {window now : Nat} {burst later : List Change}
    (hchain : burst.IsChain fun a b => Change.isSoon window a b)
    (hover : isOver window now burst = true) (hlater : ∀ c ∈ later, now ≤ c.time) :
    bursts window (burst ++ later) = burst :: bursts window later := by
  have hne : burst ≠ [] := by
    rintro rfl
    exact absurd hover (by simp [isOver])
  -- the window has passed since the last change of the burst, so none of the later ones joins it
  have hcut : ∀ x ∈ burst.getLast?, ∀ y ∈ later.head?, Change.isSoon window x y = false := by
    intro x hx y hy
    have hin : x.time + window ≤ now := by simpa [isOver, Option.mem_def.mp hx] using hover
    have hle := hlater y (List.mem_of_mem_head? hy)
    rw [Change.isSoon, decide_eq_false_iff_not]
    omega
  rw [bursts, List.splitBy_append hcut, List.splitBy_of_isChain hne hchain]
  rfl

/-! ## Collecting a burst -/

namespace Feed

variable {ω : Type} {f : Feed ω} {watchers : List ω} {window : Nat} {burst : List Change}

/-- What a feed is while a burst lasts that is not over yet. -/
structure Collects (f : Feed ω) (watchers : List ω) (window : Nat) (burst : List Change) : Prop where
  watchers_eq : f.watchers = watchers
  debounce_eq : f.debounce = window
  pending_eq : f.store.pending = (burst.map Change.path).eraseDups
  due_eq : f.due? = burst.getLast?.map fun last => last.time + window
  chain : burst.IsChain fun a b => Change.isSoon window a b

/-- Time passes: either the burst goes on, or it is over and handed out. -/
theorem Collects.elapse (h : Collects f watchers window burst) (now : Nat) :
    (f.elapse now).2 = handoutsOf window watchers now burst ∧
      (f.elapse now).1.store.files = f.store.files ∧
      Collects (f.elapse now).1 watchers window (if isOver window now burst then [] else burst) := by
  unfold Feed.elapse
  cases hlast : burst.getLast? with
  | none =>
    have hnil : burst = [] := List.getLast?_eq_none_iff.mp hlast
    have hdue : f.due? = none := by rw [h.due_eq, hlast]; rfl
    rw [hdue]
    subst hnil
    exact ⟨rfl, rfl, by rw [ite_self]; exact h⟩
  | some last =>
    have hdue : f.due? = some (last.time + window) := by rw [h.due_eq, hlast]; rfl
    rw [hdue]
    by_cases hover : last.time + window ≤ now
    · have hyes : isOver window now burst = true := by simpa [isOver, hlast] using hover
      have hne : burst ≠ [] := by
        rintro rfl
        exact absurd hlast (by simp)
      -- the last change is pending, so that there is something to hand out
      have hpending : f.store.pending ≠ [] := by
        rw [h.pending_eq]
        intro hnil
        obtain ⟨c, rest, rfl⟩ := List.exists_cons_of_ne_nil hne
        rw [List.map_cons, List.eraseDups_cons] at hnil
        exact absurd hnil (by simp)
      have hflush : f.fire (last.time + window) =
          ({ f with store := f.store.settle, due? := none },
            f.watchers.map fun w => (w, f.store.pending)) := by
        have hisDue : f.isDue (last.time + window) = true := by simp [isDue, hdue]
        rw [fire, if_pos hisDue, flush_of_ne hpending]
      dsimp only
      rw [if_pos hover, hflush, if_pos hyes]
      refine ⟨?_, rfl, ⟨h.watchers_eq, h.debounce_eq, rfl, rfl, List.isChain_nil⟩⟩
      rw [handoutsOf, hlast]
      dsimp only
      rw [if_pos hover, List.map_map, h.watchers_eq, h.pending_eq]
      rfl
    · have hno : isOver window now burst = false := by simpa [isOver, hlast] using hover
      dsimp only
      rw [if_neg hover, hno, if_neg (by decide)]
      exact ⟨(handoutsOf_of_not_isOver hno watchers).symm, rfl, h⟩

/-- A write while the burst lasts: a change prolongs it, and nothing else matters. -/
theorem Collects.write (h : Collects f watchers window burst) (hw : watchers ≠ []) {now : Nat}
    (hnow : isOver window now burst = false) (path content : String) :
    Collects (f.write (some now) path content) watchers window
      (if f.store.isChange path content then burst ++ [⟨now, Path.normalize path⟩] else burst) := by
  have hwatched : f.watchers.isEmpty = false := by
    rw [h.watchers_eq]
    exact List.isEmpty_eq_false_iff.mpr hw
  -- a change sets the timer anew, so the chain goes on with it
  cases hc : f.store.isChange path content with
  | true =>
    rw [if_pos rfl]
    refine ⟨by rw [watchers_write, h.watchers_eq], by rw [debounce_write, h.debounce_eq], ?_, ?_, ?_⟩
    · rw [store_write, Store.write_of_isChange hc, List.map_append]
      dsimp only
      rw [h.pending_eq, Store.addOnce_eraseDups]
      rfl
    · rw [due?_write, hc, hwatched, Bool.not_false, Bool.and_self, if_pos rfl, h.debounce_eq,
        List.getLast?_concat, Option.map_some, Option.map_some]
    · rw [List.isChain_append]
      refine ⟨h.chain, List.isChain_singleton _, fun x hx y hy => ?_⟩
      have hy' : ⟨now, Path.normalize path⟩ = y := by simpa using hy
      have hsoon : ¬ x.time + window ≤ now := by
        simpa [isOver, Option.mem_def.mp hx] using hnow
      rw [Change.isSoon, ← hy', decide_eq_true_eq]
      exact Nat.lt_of_not_le hsoon
  | false =>
    rw [if_neg (by decide)]
    refine ⟨by rw [watchers_write, h.watchers_eq], by rw [debounce_write, h.debounce_eq], ?_, ?_,
      h.chain⟩
    · rw [store_write, (Store.write_of_not_isChange hc).2, h.pending_eq]
    · rw [due?_write, hc, Bool.false_and, if_neg Bool.false_ne_true]
      exact h.due_eq

/-! ## Playing writes -/

/-- What is handed out while some writes are made, with a burst that has begun before. Induction
over the writes; the burst is what the feed has collected so far. -/
theorem Collects.play (h : Collects f watchers window burst) (hw : watchers ≠ [])
    {writes : List TimedWrite} {now : Nat}
    (hsorted : writes.Pairwise fun v w => v.time ≤ w.time) (hnow : ∀ w ∈ writes, w.time ≤ now) :
    f.play writes now =
      (bursts window (burst ++ f.store.changes writes)).flatMap (handoutsOf window watchers now) := by
  induction writes generalizing f burst with
  | nil =>
    rw [Feed.play, (h.elapse now).1, Store.changes, List.append_nil]
    by_cases hne : burst = []
    · subst hne
      rfl
    · rw [bursts, List.splitBy_of_isChain hne h.chain, List.flatMap_singleton]
  | cons w rest ih =>
    obtain ⟨hfirst, hrest⟩ := List.pairwise_cons.mp hsorted
    have hle := hnow w List.mem_cons_self
    obtain ⟨hhandouts, hfiles, hcollects⟩ := h.elapse w.time
    rw [Feed.play]
    generalize f.elapse w.time = elapsed at hhandouts hfiles hcollects ⊢
    obtain ⟨g, handouts⟩ := elapsed
    dsimp only at hhandouts hfiles hcollects ⊢
    -- the changes that are still to come do not depend on what has been handed out
    have hlater : f.store.changes (w :: rest) = (if g.store.isChange w.path w.content then
        [⟨w.time, Path.normalize w.path⟩] else []) ++
        (g.write (some w.time) w.path w.content).store.changes rest := by
      have hsame := Store.changes_congr (Store.files_write_congr hfiles w.path w.content) rest
      rw [store_write, hsame, Store.isChange_congr hfiles, Store.changes]
      split <;> rfl
    have hmore : ∀ {kept : List Change}, Collects g watchers window kept →
        isOver window w.time kept = false →
        (g.write (some w.time) w.path w.content).play rest now =
          (bursts window (kept ++ f.store.changes (w :: rest))).flatMap
            (handoutsOf window watchers now) := by
      intro kept hkept hopen
      have hwrite := hkept.write hw hopen w.path w.content
      rw [ih hwrite hrest fun v hv => hnow v (List.mem_cons_of_mem _ hv), hlater]
      split <;> simp
    rw [hhandouts]
    cases hover : isOver window w.time burst with
    | true =>
      rw [hover, if_pos rfl] at hcollects
      have htimes : ∀ c ∈ f.store.changes (w :: rest), w.time ≤ c.time := fun c hc =>
        Store.le_time_of_mem_changes (fun v hv => by
          rcases List.mem_cons.mp hv with rfl | hmem
          · exact Nat.le_refl _
          · exact hfirst v hmem) hc
      rw [hmore hcollects rfl, List.nil_append, bursts_append h.chain hover htimes,
        List.flatMap_cons, handoutsOf_of_isOver hover hle]
    | false =>
      rw [hover, if_neg (by decide)] at hcollects
      rw [hmore hcollects hover, handoutsOf_of_not_isOver hover, List.nil_append]

/-- **Debouncing.** A feed with watchers hands out exactly the bursts of changes that are over, each
to every watcher, a window after its last change. -/
theorem play_eq_bursts (window : Nat) {watchers : List ω} (hw : watchers ≠ [])
    {writes : List TimedWrite} (hsorted : writes.Pairwise fun v w => v.time ≤ w.time) {now : Nat}
    (hnow : ∀ w ∈ writes, w.time ≤ now) :
    (watchers.foldl watch (empty window)).play writes now =
      (bursts window (Store.empty.changes writes)).flatMap (handoutsOf window watchers now) := by
  have hfeed : watchers.foldl watch (empty window) = ⟨.empty, watchers, none, window⟩ := by
    -- the watchers that are already there must be in the statement, for the induction
    suffices h : ∀ before : List ω, watchers.foldl watch ⟨.empty, before, none, window⟩ =
        ⟨.empty, before ++ watchers, none, window⟩ from h []
    clear hw
    induction watchers with
    | nil => simp
    | cons w rest ih => intro before; simp [watch, ih]
  rw [hfeed]
  have hcollects : Collects (⟨.empty, watchers, none, window⟩ : Feed ω) watchers window [] :=
    ⟨rfl, rfl, rfl, rfl, List.isChain_nil⟩
  exact hcollects.play hw hsorted hnow

/-- Two paths change, one of them again exactly a window after its last change; a source map and a
content that is stored already are written in between. -/
def twoBursts : List TimedWrite :=
  [⟨0, "b.js", "1"⟩, ⟨3, "a.js", "1"⟩, ⟨8, "b.js", "2"⟩, ⟨12, "a.js.map", "1"⟩, ⟨18, "./b.js", "3"⟩,
    ⟨20, "b.js", "3"⟩]

/-- Two bursts of three changes, the second of a path of the first, before two watchers: each
watcher gets each burst once. -/
theorem play_eq_bursts_twoBursts :
    ["x", "y"] ≠ [] ∧ (twoBursts.Pairwise fun v w => v.time ≤ w.time) ∧
      (∀ w ∈ twoBursts, w.time ≤ 28) ∧
      (["x", "y"].foldl watch (empty 10)).play twoBursts 28 =
        (bursts 10 (Store.empty.changes twoBursts)).flatMap (handoutsOf 10 ["x", "y"] 28) ∧
      (["x", "y"].foldl watch (empty 10)).play twoBursts 28 =
        [⟨18, "x", ["b.js", "a.js"]⟩, ⟨18, "y", ["b.js", "a.js"]⟩, ⟨28, "x", ["b.js"]⟩,
          ⟨28, "y", ["b.js"]⟩] :=
  ⟨by decide, by decide, by decide, play_eq_bursts 10 (by decide) (by decide) (by decide),
    by decide +kernel⟩

end Feed

end Packwright
