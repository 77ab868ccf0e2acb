import Packwright.Proofs.Annotate.MarkedCalls
import Packwright.Proofs.Patch.Ordering

/-!
# The order of the walk

The patches of some code are collected on a walk of its tree, and the order of the walk cannot be
told from what comes of them: where two patches start together, they are the same patch.

* `InOrder` is what is asked of the tree: parts stand one behind the other, and no part is empty.
* `eq_of_body_stop`: two calls that run at once, of functions whose bodies end at the same place, are
  one call. It goes by induction on the tree; calls in different parts have nothing in common, and
  below the function that a call calls nothing runs at once.
* `eq_of_start_eq` is the outcome for all patches of a tree.
-/

namespace Packwright

open Packwright.Syntax
open Packwright.Text

namespace Syntax.Node

/-! ## Trees with parts in order -/

/-- What the reader of a program promises about the places of its constructs: their parts stand one
behind the other, and none of them is empty. -/
structure InOrder (tree : Node) : Prop where
  filled : ∀ n ∈ tree.nodes, ∀ part ∈ n.children, part.start < part.stop
  apart : ∀ n ∈ tree.nodes, n.children.Pairwise fun a b => a.stop ≤ b.start

instance (tree : Node) : Decidable tree.InOrder :=
  decidable_of_iff
    ((∀ n ∈ tree.nodes, ∀ part ∈ n.children, part.start < part.stop) ∧
      ∀ n ∈ tree.nodes, n.children.Pairwise fun a b => a.stop ≤ b.start)
    ⟨fun h => ⟨h.1, h.2⟩, fun h => ⟨h.filled, h.apart⟩⟩

variable {tree n m part : Node} {parts : List Node}

theorem InOrder.of_mem (h : tree.InOrder) (hn : n ∈ tree.nodes) : n.InOrder :=
  ⟨fun m hm => h.filled m (nodes_subset_of_mem hn hm),
    fun m hm => h.apart m (nodes_subset_of_mem hn hm)⟩

theorem mem_nodes_of_mem_parts (hpart : part ∈ n.children) : part ∈ n.nodes :=
  mem_nodes_of_mem_children hpart part.mem_nodes_self

/-- Parts in order lie between the start of the first and the end of the last. -/
theorem bounds_of_mem (hfilled : ∀ part ∈ parts, part.start < part.stop)
    (hapart : parts.Pairwise fun a b => a.stop ≤ b.start) (hpart : part ∈ parts) :
    startOfFirst parts ≤ part.start ∧ part.stop ≤ stopOfLast parts := by
  induction parts generalizing part with
  | nil => exact absurd hpart List.not_mem_nil
  | cons first rest ih =>
    obtain ⟨hbehind, hrest⟩ := List.pairwise_cons.mp hapart
    have hrestFilled : ∀ part ∈ rest, part.start < part.stop := fun part hpart =>
      hfilled part (List.mem_cons_of_mem _ hpart)
    have hfirst := hfilled first List.mem_cons_self
    show first.start ≤ part.start ∧ _
    cases rest with
    | nil =>
      obtain rfl := List.mem_singleton.mp hpart
      exact ⟨Nat.le_refl _, Nat.le_refl _⟩
    | cons next more =>
      show first.start ≤ part.start ∧ part.stop ≤ stopOfLast (next :: more)
      rcases List.mem_cons.mp hpart with rfl | hmem
      · -- the first part ends before the next one starts, and that one ends in time
        have hnext := hfilled next (List.mem_cons_of_mem _ List.mem_cons_self)
        have hle := hbehind next List.mem_cons_self
        have hlast := (ih hrestFilled hrest List.mem_cons_self).2
        omega
      · have hle := hbehind part hmem
        have hlast := (ih hrestFilled hrest hmem).2
        omega

/-- The nodes of a tree lie within it. -/
theorem InOrder.bounds (h : tree.InOrder) (hn : n ∈ tree.nodes) :
    tree.start ≤ n.start ∧ n.stop ≤ tree.stop := by
  induction tree using inductionOnParts with
  | leaf kind start text =>
    rw [List.mem_singleton.mp hn]
    exact ⟨Nat.le_refl _, Nat.le_refl _⟩
  | branch kind children ih =>
    rcases List.mem_cons.mp hn with rfl | hinner
    · exact ⟨Nat.le_refl _, Nat.le_refl _⟩
    · obtain ⟨part, hpart, hmem⟩ := mem_nodesOfAll.mp hinner
      have hself := mem_nodes_self (branch kind children)
      obtain ⟨hstart, hstop⟩ : startOfFirst children ≤ part.start ∧ part.stop ≤ stopOfLast children :=
        bounds_of_mem (h.filled _ hself) (h.apart _ hself) hpart
      -- a node lies within the part that holds it, and the part within the whole
      have hwithin := ih part hpart (h.of_mem (mem_nodes_of_mem_parts hpart)) hmem
      show startOfFirst children ≤ n.start ∧ n.stop ≤ stopOfLast children
      omega

/-- Different parts of a node have no place in common. -/
theorem InOrder.apart_of_ne (h : n.InOrder) {a b : Node} (ha : a ∈ n.children) (hb : b ∈ n.children)
    (hne : a ≠ b) : a.stop ≤ b.start ∨ b.stop ≤ a.start := by
  have hpairs : n.children.Pairwise fun a b => a.stop ≤ b.start ∨ b.stop ≤ a.start :=
    (h.apart n n.mem_nodes_self).imp Or.inl
  have hsymm : Std.Symm fun a b : Node => a.stop ≤ b.start ∨ b.stop ≤ a.start :=
    ⟨fun _ _ hab => hab.symm⟩
  exact hpairs.forall ha hb hne

/-- What lies in different parts does not end at the same place. -/
theorem InOrder.stop_ne (h : n.InOrder) {a b x y : Node} (ha : a ∈ n.children) (hb : b ∈ n.children)
    (hne : a ≠ b) (hx : x ∈ a.nodes) (hy : y ∈ b.nodes) (hxfilled : x.start < x.stop)
    (hyfilled : y.start < y.stop) : x.stop ≠ y.stop := by
  have hxbounds := (h.of_mem (mem_nodes_of_mem_parts ha)).bounds hx
  have hybounds := (h.of_mem (mem_nodes_of_mem_parts hb)).bounds hy
  have hapart := h.apart_of_ne ha hb hne
  omega

end Syntax.Node

namespace Annotate

open Syntax.Node

/-! ## The bodies of called functions -/

/-- Whether a call calls a function with a block for its body. -/
def HasBody (call body : Node) : Prop :=
  ∃ f, (callee? call).map (stripParentheses (depthBound call)) = some f ∧
    f.kind = .functionExpression ∧ f.part? .statementBlock = some body

variable {tree call other body body' f n : Node}

/-- The body of a called function is a node of the call. -/
theorem HasBody.mem_nodes (h : HasBody call body) : body ∈ call.nodes := by
  obtain ⟨f, hf, -, hbody⟩ := h
  exact nodes_subset_of_mem (function_mem_nodes hf) (part?_mem_nodes hbody).1

theorem HasBody.filled (h : HasBody call body) (horder : call.InOrder) : body.start < body.stop := by
  obtain ⟨f, hf, -, hbody⟩ := h
  exact horder.filled f (function_mem_nodes hf) body (List.mem_of_find?_eq_some hbody)

/-- A call that fills an enum calls a function with a body. -/
theorem Fills.hasBody {code : List UInt8} {t : Declaring} {parameter : List Char}
    (h : Fills code call t parameter body) : HasBody call body := by
  obtain ⟨f, hf, hkind, -, hbody⟩ := h.function
  exact ⟨f, hf, hkind, hbody⟩

/-- Within a function nothing is visited. -/
theorem visitedCalls_function (h : f.kind = .functionExpression) : visitedCalls f = [] := by
  cases f with
  | leaf kind start text => rw [visitedCalls]
  | branch kind children =>
    obtain rfl : kind = .functionExpression := h
    rw [visitedCalls]
    rfl

/-- Around a function in parentheses nothing runs at once that has a body ending where the function's
does. -/
theorem stop_ne_of_stripParentheses {fuel : Nat} (horder : n.InOrder)
    (hf : stripParentheses fuel n = f) (hkind : f.kind = .functionExpression)
    (hbody : f.part? .statementBlock = some body) (hcall : call ∈ visitedCalls n)
    (hbody' : HasBody call body') : body.stop ≠ body'.stop := by
  induction fuel generalizing n with
  | zero =>
    obtain rfl : n = f := hf
    rw [visitedCalls_function hkind] at hcall
    exact absurd hcall List.not_mem_nil
  | succ fuel ih =>
    rw [stripParentheses] at hf
    split at hf
    · rename_i inner hparenthesized hnamed
      have hinner : inner ∈ n.children :=
        (List.mem_filter.mp (show inner ∈ n.named by rw [hnamed]; exact List.mem_cons_self)).1
      cases n with
      | leaf kind start text => exact absurd hinner List.not_mem_nil
      | branch kind children =>
        obtain rfl : kind = .parenthesized := hparenthesized
        obtain ⟨-, ⟨-, hnocall⟩ | ⟨part, hpart, -, hvisited⟩⟩ := mem_visitedCalls_branch.mp hcall
        · exact absurd hnocall (by decide)
        · by_cases heq : part = inner
          · exact ih (horder.of_mem (mem_nodes_of_mem_parts hinner)) hf (heq ▸ hvisited)
          · -- the call stands beside what is in the parentheses
            have hfmem : f ∈ inner.nodes := hf ▸ stripParentheses_mem_nodes fuel inner
            have hpartOrder := horder.of_mem (mem_nodes_of_mem_parts hpart)
            have hcallmem := (mem_nodes_of_mem_visitedCalls hvisited).1
            exact horder.stop_ne hinner hpart (Ne.symm heq)
              (nodes_subset_of_mem hfmem (part?_mem_nodes hbody).1)
              (nodes_subset_of_mem hcallmem hbody'.mem_nodes)
              ((horder.of_mem (mem_nodes_of_mem_parts hinner)).filled f hfmem body
                (List.mem_of_find?_eq_some hbody))
              (hbody'.filled (hpartOrder.of_mem hcallmem))
    · obtain rfl : n = f := hf
      rw [visitedCalls_function hkind] at hcall
      exact absurd hcall List.not_mem_nil

/-- What runs at once in a part of a call has no body that ends where that of the call does. -/
theorem stop_ne_of_mem_part (horder : call.InOrder) (hbody : HasBody call body) {part : Node}
    (hpart : part ∈ call.children) (hother : other ∈ visitedCalls part)
    (hbody' : HasBody other body') : body.stop ≠ body'.stop := by
  obtain ⟨f, hf, hkind, hblock⟩ := hbody
  obtain ⟨callee, hcallee, hstripped⟩ := Option.map_eq_some_iff.mp hf
  have hmem : callee ∈ call.children := by
    unfold callee? at hcallee
    split at hcallee
    · exact List.mem_of_mem_head? hcallee
    · exact absurd hcallee (by simp)
  have hpartOrder := horder.of_mem (mem_nodes_of_mem_parts hpart)
  -- a call within the callee is in its parentheses; any other part lies apart from the callee
  by_cases heq : part = callee
  · exact stop_ne_of_stripParentheses hpartOrder (heq ▸ hstripped) hkind hblock hother hbody'
  · have hfmem : f ∈ callee.nodes := hstripped ▸ stripParentheses_mem_nodes _ callee
    have hothermem := (mem_nodes_of_mem_visitedCalls hother).1
    exact horder.stop_ne hmem hpart (Ne.symm heq)
      (nodes_subset_of_mem hfmem (part?_mem_nodes hblock).1)
      (nodes_subset_of_mem hothermem hbody'.mem_nodes)
      ((horder.of_mem (mem_nodes_of_mem_parts hmem)).filled f hfmem body
        (List.mem_of_find?_eq_some hblock))
      (hbody'.filled (hpartOrder.of_mem hothermem))

/-- **A body ends where only one call has it.** -/
theorem eq_of_body_stop (horder : tree.InOrder) (hcall : call ∈ visitedCalls tree)
    (hother : other ∈ visitedCalls tree) (hbody : HasBody call body) (hbody' : HasBody other body')
    (hstop : body.stop = body'.stop) : call = other := by
  induction tree using Node.inductionOnParts with
  | leaf kind start text =>
    rw [visitedCalls] at hcall
    exact absurd hcall List.not_mem_nil
  | branch kind children ih =>
    obtain ⟨-, ⟨rfl, -⟩ | ⟨part, hpart, -, hvisited⟩⟩ := mem_visitedCalls_branch.mp hcall
    · obtain ⟨-, ⟨rfl, -⟩ | ⟨part', hpart', -, hvisited'⟩⟩ := mem_visitedCalls_branch.mp hother
      · rfl
      · exact absurd hstop (stop_ne_of_mem_part horder hbody hpart' hvisited' hbody')
    · obtain ⟨-, ⟨rfl, -⟩ | ⟨part', hpart', -, hvisited'⟩⟩ := mem_visitedCalls_branch.mp hother
      · exact absurd hstop.symm (stop_ne_of_mem_part horder hbody' hpart hvisited hbody)
      · have hpartOrder := horder.of_mem (mem_nodes_of_mem_parts hpart)
        have hpartOrder' := horder.of_mem (mem_nodes_of_mem_parts hpart')
        -- two calls in one part are settled by induction; two parts do not share an end
        by_cases heq : part = part'
        · exact ih part hpart hpartOrder hvisited (heq ▸ hvisited')
        · have hmem := (mem_nodes_of_mem_visitedCalls hvisited).1
          have hmem' := (mem_nodes_of_mem_visitedCalls hvisited').1
          exact absurd hstop (horder.stop_ne hpart hpart' heq
            (nodes_subset_of_mem hmem hbody.mem_nodes) (nodes_subset_of_mem hmem' hbody'.mem_nodes)
            (hbody.filled (hpartOrder.of_mem hmem)) (hbody'.filled (hpartOrder'.of_mem hmem')))

/-! ## What starts where -/

/-- Whether a call fills a variable only one way. -/
theorem Fills.parameter_unique {code : List UInt8} {t t' : Declaring} {parameter parameter' : List Char}
    (h : Fills code call t parameter body) (h' : Fills code call t' parameter' body') :
    parameter = parameter' ∧ body = body' := by
  obtain ⟨f, hf, -, hparameter, hbody⟩ := h.function
  obtain ⟨f', hf', -, hparameter', hbody'⟩ := h'.function
  obtain rfl : f = f' := Option.some.inj (hf.symm.trans hf')
  exact ⟨Option.some.inj (hparameter.symm.trans hparameter'),
    Option.some.inj (hbody.symm.trans hbody')⟩

/-- The patches of a tree, by what they do: they mark a call, they put a sign behind the variable that
a call fills, or they return the variable from the function that is called. -/
inductive Puts (code : List UInt8) (tree : Node) : Patch → Prop
  | mark {call : Node} (hcall : call ∈ visitedCalls tree) (hmarked : isMarked call = true) :
    Puts code tree (Patch.insertion call.start marker)
  | sign {call body : Node} {t : Declaring} {parameter : List Char} (hcall : call ∈ visitedCalls tree)
      (hfills : Fills code call t parameter body) :
    Puts code tree (Patch.replacement t.semicolon (t.semicolon + 1) " =")
  | result {call body : Node} {t : Declaring} {parameter : List Char}
      (hcall : call ∈ visitedCalls tree) (hfills : Fills code call t parameter body) :
    Puts code tree (Patch.insertion (body.stop - 1) (returning parameter))

/-- **A patch of an annotation is one of three things**: a marker, a sign or a return. -/
theorem puts_of_mem_patches {code : List UInt8} {p : Patch} (hp : p ∈ patches code tree) :
    Puts code tree p := by
  obtain ⟨call, hcall, hof⟩ := List.mem_flatMap.mp hp
  unfold callPatches at hof
  split at hof
  · -- a marked call puts its marker last, behind the two patches that an enum adds
    rename_i hmarked
    rcases List.mem_append.mp hof with henum | hmark
    · obtain ⟨t, parameter, body, hfills⟩ := exists_fills (List.ne_nil_of_mem henum)
      rw [enumPatches_of_fills hfills, fusing] at henum
      rcases List.mem_cons.mp henum with rfl | hlast
      · exact .sign hcall hfills
      · rw [List.mem_singleton.mp hlast]
        exact .result hcall hfills
    · rw [List.mem_singleton.mp hmark]
      exact .mark hcall hmarked
  · exact absurd hof List.not_mem_nil

/-- The brace that closes a body is where the tree says. -/
theorem Punctuated.body_byte {code : List UInt8} {t : Declaring} {parameter : List Char}
    (h : Punctuated code tree) (hcall : call ∈ visitedCalls tree)
    (hfills : Fills code call t parameter body) : code[body.stop - 1]? = some 0x7d := by
  obtain ⟨hbody, hkind⟩ := hfills.body_mem_nodes
  exact h.blocks body (nodes_subset_of_mem (mem_nodes_of_mem_visitedCalls hcall).1 hbody) hkind

/-- At a semicolon only a sign can start. -/
theorem eq_sign_of_semicolon {code : List UInt8} {place : Nat} {p : Patch} (h : Punctuated code tree)
    (hp : p ∈ patches code tree) (hstart : p.start = place) (hbyte : code[place]? = some 0x3b) :
    p = Patch.replacement place (place + 1) " =" := by
  cases puts_of_mem_patches hp with
  | @mark call hcall _ =>
    obtain ⟨hmem, hkind⟩ := mem_nodes_of_mem_visitedCalls hcall
    obtain rfl : call.start = place := Int.ofNat_inj.mp hstart
    -- no call starts with a semicolon
    exact absurd hbyte (h.calls call hmem hkind).1
  | @sign call body t parameter hcall hfills =>
    obtain rfl : t.semicolon = place := Int.ofNat_inj.mp hstart
    rfl
  | @result call body t parameter hcall hfills =>
    obtain rfl : body.stop - 1 = place := Int.ofNat_inj.mp hstart
    rw [h.body_byte hcall hfills] at hbyte
    exact absurd hbyte (by decide)

/-- At a closing brace only a return can. -/
theorem exists_fills_of_brace {code : List UInt8} {place : Nat} {p : Patch} (h : Punctuated code tree)
    (hp : p ∈ patches code tree) (hstart : p.start = place) (hbyte : code[place]? = some 0x7d) :
    ∃ call ∈ visitedCalls tree, ∃ t parameter body, Fills code call t parameter body ∧
      body.stop - 1 = place ∧ p = Patch.insertion (body.stop - 1) (returning parameter) := by
  cases puts_of_mem_patches hp with
  | @mark call hcall _ =>
    obtain ⟨hmem, hkind⟩ := mem_nodes_of_mem_visitedCalls hcall
    obtain rfl : call.start = place := Int.ofNat_inj.mp hstart
    exact absurd hbyte (h.calls call hmem hkind).2
  | @sign call body t parameter hcall hfills =>
    obtain rfl : t.semicolon = place := Int.ofNat_inj.mp hstart
    rw [hfills.semicolon_byte] at hbyte
    exact absurd hbyte (by decide)
  | @result call body t parameter hcall hfills =>
    exact ⟨call, hcall, t, parameter, body, hfills, Int.ofNat_inj.mp hstart, rfl⟩

/-- Patches that start together are the same patch, if no two calls have functions that end together. -/
theorem eq_of_start_eq_of_stops {code : List UInt8} (h : Punctuated code tree)
    (hstops : ∀ {call other body body' : Node} {t t' : Declaring} {parameter parameter' : List Char},
      call ∈ visitedCalls tree → other ∈ visitedCalls tree → Fills code call t parameter body →
      Fills code other t' parameter' body' → body.stop - 1 = body'.stop - 1 → call = other)
    {p q : Patch} (hp : p ∈ patches code tree) (hq : q ∈ patches code tree)
    (hstart : p.start = q.start) : p = q := by
  cases puts_of_mem_patches hp with
  | @mark call hcall hmarked =>
    exact (eq_marker_of_mem_patches h (calledAt_iff.mpr ⟨call, hcall, hmarked, rfl⟩) hq hstart.symm).symm
  | @sign call body t parameter hcall hfills =>
    exact (eq_sign_of_semicolon h hq hstart.symm hfills.semicolon_byte).symm
  | @result call body t parameter hcall hfills =>
    obtain ⟨other, hother, t', parameter', body', hfills', hstop, rfl⟩ :=
      exists_fills_of_brace h hq hstart.symm (h.body_byte hcall hfills)
    obtain rfl : call = other := hstops hcall hother hfills hfills' hstop.symm
    obtain ⟨rfl, rfl⟩ := hfills.parameter_unique hfills'
    rfl

/-- **Patches of a tree that start together are the same patch.** -/
theorem eq_of_start_eq {code : List UInt8} (h : Punctuated code tree) (horder : tree.InOrder)
    {p q : Patch} (hp : p ∈ patches code tree) (hq : q ∈ patches code tree)
    (hstart : p.start = q.start) : p = q := by
  refine eq_of_start_eq_of_stops h (fun hcall hother hfills hfills' hstop => ?_) hp hq hstart
  -- the bodies are not empty, so it is where they end that is the same
  have hcallOrder := horder.of_mem (mem_nodes_of_mem_visitedCalls hcall).1
  have hotherOrder := horder.of_mem (mem_nodes_of_mem_visitedCalls hother).1
  have hfilled := hfills.hasBody.filled hcallOrder
  have hfilled' := hfills'.hasBody.filled hotherOrder
  exact eq_of_body_stop horder hcall hother hfills.hasBody hfills'.hasBody (by omega)

/-! ## Patches in any order -/

/-- What is done with patches is done with the sorted ones. -/
theorem apply_congr {ps qs : List Patch} (h : Patch.sortPatches ps = Patch.sortPatches qs) :
    (∀ source : String, Patch.applyToText source ps = Patch.applyToText source qs) ∧
      (∀ source : List UInt8, Patch.applyToBytes source ps = Patch.applyToBytes source qs) ∧
      ∀ document code : String,
        SourceMap.shiftText document code ps = SourceMap.shiftText document code qs := by
  refine ⟨fun source => ?_, fun source => ?_, fun document code => ?_⟩
  · simp only [Patch.applyToText, Patch.applyPatches, h]
  · simp only [Patch.applyToBytes, Patch.applyPatches, h]
  · simp only [SourceMap.shiftText, SourceMap.shift, SourceMap.shiftsByLine, h]

/-- **Patches are sorted, and the order in which they were found cannot be told from what they do.**
Sorting leaves a part of the patches in the order of their starts, in which no neighbours repeat each
other, and what is missing repeats the last patch before it that was kept; sorting again changes
nothing. Where patches that start together are the same, any two orders of them make the same of a
text and of its bytes, or fail alike. This is so for the patches of a tree, whose annotated code and
source map would come out of a walk in any other order. -/
theorem patches_sorted_in_any_order :
    (∀ ps : List Patch,
      (∃ sorted, Patch.StablySorted ps sorted ∧ (Patch.sortPatches ps).Sublist sorted ∧
        Patch.Thins none sorted (Patch.sortPatches ps)) ∧
      (Patch.sortPatches ps).IsChain Patch.Differ ∧
      Patch.sortPatches (Patch.sortPatches ps) = Patch.sortPatches ps) ∧
    (∀ list ps qs : List Patch, (∀ p ∈ list, ∀ q ∈ list, p.start = q.start → p = q) →
      ps.Perm list → qs.Perm list →
      (∀ source : String, Patch.applyToText source ps = Patch.applyToText source qs) ∧
      ∀ source : List UInt8, Patch.applyToBytes source ps = Patch.applyToBytes source qs) ∧
    ∀ (code : String) (tree : Node), Punctuated (Utf8.encode code) tree → tree.InOrder →
      ∀ ps : List Patch, ps.Perm (patches (Utf8.encode code) tree) →
        applyToCode code ps = applyToCode code (patches (Utf8.encode code) tree) ∧
        ∀ document : String, SourceMap.shiftText document code ps =
          SourceMap.shiftText document code (patches (Utf8.encode code) tree) := by
  refine ⟨fun ps => ⟨Patch.exists_sorted ps, Patch.isChain_sortPatches ps, Patch.sortPatches_idem ps⟩,
    fun list ps qs hsame hps hqs => ?_, fun code tree hpunctuated horder ps hperm => ?_⟩
  · have hsorted : Patch.sortPatches ps = Patch.sortPatches qs :=
      (Patch.sortPatches_congr hps.symm hsame).symm.trans (Patch.sortPatches_congr hqs.symm hsame)
    exact ⟨(apply_congr hsorted).1, (apply_congr hsorted).2.1⟩
  · have hsorted : Patch.sortPatches ps = Patch.sortPatches (patches (Utf8.encode code) tree) :=
      (Patch.sortPatches_congr hperm.symm fun p hp q hq =>
        eq_of_start_eq hpunctuated horder hp hq).symm
    obtain ⟨-, hbytes, hmaps⟩ := apply_congr hsorted
    refine ⟨?_, fun document => hmaps document code⟩
    simp only [applyToCode, hbytes]

/-- A variable that is filled by a call, with a call inside and one behind. -/
def callsInsideAndBehind : String := "let E;(function(E){f()})(E=g()||{});h()(i())"

/-- Patches that are found twice, and the patches of some code backwards. -/
theorem patches_sorted_in_any_order_reversed :
    (∀ source : String,
      Patch.applyToText source [Patch.insertion 2 marker, Patch.replacement 0 1 "",
          Patch.insertion 2 marker] =
        Patch.applyToText source [Patch.replacement 0 1 "", Patch.insertion 2 marker,
          Patch.insertion 2 marker]) ∧
    ∃ tree, parse? callsInsideAndBehind.toList = some tree ∧
      Punctuated (Utf8.encode callsInsideAndBehind) tree ∧
      tree.InOrder ∧ (visitedCalls tree).map Node.start = [6, 27, 36, 36, 40] ∧
      applyToCode callsInsideAndBehind (patches (Utf8.encode callsInsideAndBehind) tree).reverse =
        applyToCode callsInsideAndBehind (patches (Utf8.encode callsInsideAndBehind) tree) := by
  obtain ⟨-, hlists, htrees⟩ := patches_sorted_in_any_order
  refine ⟨?_, ?_⟩
  · refine (hlists [Patch.insertion 2 marker, Patch.insertion 2 marker, Patch.replacement 0 1 ""] _ _
      ?_ ?_ ?_).1 <;> decide
  · have hchecked : ((parse? callsInsideAndBehind.toList).any fun tree =>
        decide (Punctuated (Utf8.encode callsInsideAndBehind) tree ∧ tree.InOrder) &&
        (visitedCalls tree).map Node.start == [6, 27, 36, 36, 40]) = true := by
      decide +kernel
    obtain ⟨tree, hread, hchecks⟩ := (Option.any_eq_true _ _).mp hchecked
    rw [Bool.and_eq_true, decide_eq_true_eq, beq_iff_eq] at hchecks
    obtain ⟨⟨hpunctuated, horder⟩, hstarts⟩ := hchecks
    exact ⟨tree, hread, hpunctuated, horder, hstarts,
      (htrees callsInsideAndBehind tree hpunctuated horder _ (List.reverse_perm _)).1⟩

end Annotate

end Packwright
