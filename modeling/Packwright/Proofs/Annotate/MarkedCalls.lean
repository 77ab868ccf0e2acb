import Packwright.Proofs.Annotate.Fusing

/-!
# Which calls are marked

The walk of a tree stops at functions and at the bodies of classes, and the patches that it yields are
sorted and rid of neighbours that repeat each other. What is left of the markers can be said without
the walk: there is one at each place where a call starts that has no function and no body of a class
above it, however many such calls start there, and none anywhere else.

* `Node.Lies` tells a node of a tree together with what stands above it.
* `mem_visitedCalls_iff`: the walk finds the calls above which nothing is put off.
* `sortPatches_filter_eq`: of patches at one place that are all the same, sorting leaves one.
* `Punctuated` is what is asked of the tree: no call starts at a semicolon or a closing brace, where
  the patches of a fused declaration go.
-/

namespace Packwright

open Packwright.Syntax
open Packwright.Text

/-! ## The nodes of a tree -/

namespace Syntax.Node

/-- What holds of the leaves, and of every construct if it holds of its parts, holds of all nodes. -/
@[elab_as_elim]
theorem inductionOnParts {motive : Node → Prop}
    (leaf : ∀ kind start text, motive (leaf kind start text))
    (branch : ∀ kind children, (∀ child ∈ children, motive child) → motive (branch kind children))
    (n : Node) : motive n := by
  cases n with
  | leaf kind start text => exact leaf kind start text
  | branch kind children =>
    exact branch kind children fun child _hchild => inductionOnParts leaf branch child
termination_by sizeOf n
decreasing_by
  have := List.sizeOf_lt_of_mem _hchild
  simp only [Node.branch.sizeOf_spec]
  omega

mutual

def nodes : Node → List Node
  | leaf kind start text => [leaf kind start text]
  | branch kind children => branch kind children :: nodesOfAll children

def nodesOfAll : List Node → List Node
  | [] => []
  | n :: rest => nodes n ++ nodesOfAll rest

end

/-- A node of a tree and what stands above it, from the root down to what it is a part of. -/
inductive Lies : Node → List Node → Node → Prop
  | root (n : Node) : Lies n [] n
  | inPart {kind : Kind} {children above : List Node} {child n : Node} (mem : child ∈ children)
      (lies : Lies child above n) : Lies (branch kind children) (branch kind children :: above) n

theorem mem_nodes_self (n : Node) : n ∈ n.nodes := by
  cases n <;> exact List.mem_cons_self

/-- The nodes of a list of trees are those of its members. -/
theorem mem_nodesOfAll {ns : List Node} {n : Node} : n ∈ nodesOfAll ns ↔ ∃ m ∈ ns, n ∈ m.nodes := by
  induction ns with
  | nil => simp [nodesOfAll]
  | cons m rest ih => simp [nodesOfAll, ih]

/-- The nodes of a child are nodes of the parent. -/
theorem mem_nodes_of_mem_children {n child m : Node} (hchild : child ∈ n.children)
    (h : m ∈ child.nodes) : m ∈ n.nodes := by
  cases n with
  | leaf kind start text => exact absurd hchild List.not_mem_nil
  | branch kind children => exact List.mem_cons_of_mem _ (mem_nodesOfAll.mpr ⟨child, hchild, h⟩)

/-- The nodes of a node are nodes of the tree. -/
theorem nodes_subset_of_mem {tree n : Node} (h : n ∈ tree.nodes) : n.nodes ⊆ tree.nodes := by
  induction tree using inductionOnParts with
  | leaf kind start text =>
    rw [List.mem_singleton.mp h]
    exact List.Subset.refl _
  | branch kind children ih =>
    rcases List.mem_cons.mp h with rfl | hinner
    · exact List.Subset.refl _
    · obtain ⟨child, hchild, hn⟩ := mem_nodesOfAll.mp hinner
      have hparent : child ∈ (branch kind children).children := hchild
      exact fun m hm => mem_nodes_of_mem_children hparent (ih child hchild hn hm)

/-- What lies in a tree is a node of it. -/
theorem Lies.mem_nodes {tree n : Node} {above : List Node} (h : tree.Lies above n) :
    n ∈ tree.nodes := by
  induction h with
  | root n => exact n.mem_nodes_self
  | inPart hmem _ ih => exact mem_nodes_of_mem_children hmem ih

end Syntax.Node

namespace Annotate

/-! ## What the walk finds -/

/-- Whether something is a call or a construction, made of parts. -/
def IsCallOf (n : Node) : Prop :=
  ∃ kind children, n = .branch kind children ∧ isCall kind = true

/-- Whether what stands below these nodes runs at once: none of them is a function or a method, and
none is the body of a class that stands right above it. -/
structure RunsAtOnce (above : List Node) : Prop where
  called : ∀ a ∈ above, isDeferred a.kind = false
  outside : ∀ front c body behind, above = front ++ c :: body :: behind → isClass c.kind = true →
    body.kind ≠ .classBody

theorem runsAtOnce_nil : RunsAtOnce [] :=
  ⟨fun a ha => absurd ha List.not_mem_nil, fun front c body behind h => absurd h.symm (by simp)⟩

/-- One step further down: the node above must not defer its parts, and a class runs its parts
except its body. -/
theorem runsAtOnce_cons {a : Node} {above : List Node} : RunsAtOnce (a :: above) ↔
    isDeferred a.kind = false ∧
      (isClass a.kind = true → ∀ body ∈ above.head?, body.kind ≠ .classBody) ∧ RunsAtOnce above := by
  constructor
  · intro h
    refine ⟨h.called a List.mem_cons_self, ?_, fun b hb => h.called b (List.mem_cons_of_mem _ hb), ?_⟩
    · intro hclass body hbody
      obtain ⟨behind, rfl⟩ := List.head?_eq_some_iff.mp hbody
      exact h.outside [] a body behind rfl hclass
    · rintro front c body behind rfl
      exact h.outside (a :: front) c body behind rfl
  · rintro ⟨ha, hbody, h⟩
    refine ⟨List.forall_mem_cons.mpr ⟨ha, h.called⟩, fun front c body behind heq hclass => ?_⟩
    -- the class is the node itself, or one further down
    cases front with
    | nil =>
      obtain ⟨rfl, rfl⟩ := List.cons.inj heq
      exact hbody hclass body rfl
    | cons b front =>
      obtain ⟨-, hrest⟩ := List.cons.inj heq
      exact h.outside front c body behind hrest hclass

/-- The walk over a list visits what it visits in each member. -/
theorem mem_visitedInAll {ns : List Node} {call : Node} :
    call ∈ visitedInAll ns ↔ ∃ n ∈ ns, call ∈ visitedCalls n := by
  induction ns with
  | nil => simp [visitedInAll]
  | cons n rest ih => simp [visitedInAll, ih]

/-- And within a class it passes over the body. -/
theorem mem_visitedOutsideBody {ns : List Node} {call : Node} :
    call ∈ visitedOutsideBody ns ↔ ∃ n ∈ ns, n.kind ≠ .classBody ∧ call ∈ visitedCalls n := by
  induction ns with
  | nil => simp [visitedOutsideBody]
  | cons n rest ih =>
    rw [visitedOutsideBody]
    split
    · rename_i hbody
      have hkind : n.kind = .classBody := by simpa using hbody
      simp [ih, hkind]
    · rename_i hbody
      have hkind : n.kind ≠ .classBody := by simpa using hbody
      simp [ih, hkind]

/-- One level of the walk: the construct itself, if it is a call, and what is found in its parts,
unless that is put off. -/
theorem mem_visitedCalls_branch {kind : Kind} {children : List Node} {call : Node} :
    call ∈ visitedCalls (.branch kind children) ↔
      isDeferred kind = false ∧ (call = .branch kind children ∧ isCall kind = true ∨
        ∃ child ∈ children, (isClass kind = true → child.kind ≠ .classBody) ∧
          call ∈ visitedCalls child) := by
  rw [visitedCalls]
  by_cases hdeferred : isDeferred kind = true
  · simp [hdeferred]
  · by_cases hclass : isClass kind = true
    · have hcall : isCall kind = false := by cases kind <;> first | rfl | exact absurd hclass (by decide)
      simp [hdeferred, hclass, hcall, mem_visitedOutsideBody]
    · by_cases hcall : isCall kind = true <;>
        simp [hdeferred, hclass, hcall, mem_visitedInAll]

/-- What stands above a part of a construct, seen from the construct: the first of it is the part
itself, or nothing stands above. -/
theorem head?_of_lies {tree n : Node} {above : List Node} (h : tree.Lies above n) :
    above = [] ∧ n = tree ∨ above.head? = some tree := by
  cases h with
  | root n => exact Or.inl ⟨rfl, rfl⟩
  | inPart => exact Or.inr rfl

/-- **The walk finds the calls that run at once**, and no others. -/
theorem mem_visitedCalls_iff {tree call : Node} : call ∈ visitedCalls tree ↔
    IsCallOf call ∧ ∃ above, tree.Lies above call ∧ RunsAtOnce above := by
  induction tree using Node.inductionOnParts with
  | leaf kind start text =>
    refine iff_of_false (by simp [visitedCalls]) ?_
    rintro ⟨⟨kind', children, rfl, -⟩, above, hlies, -⟩
    cases hlies
  | branch kind children ih =>
    rw [mem_visitedCalls_branch]
    constructor
    · rintro ⟨hdeferred, ⟨rfl, hcall⟩ | ⟨child, hchild, hbody, hvisited⟩⟩
      · exact ⟨⟨kind, children, rfl, hcall⟩, [], .root _, runsAtOnce_nil⟩
      · obtain ⟨hcall, above, hlies, hruns⟩ := (ih child hchild).mp hvisited
        refine ⟨hcall, _, .inPart hchild hlies, runsAtOnce_cons.mpr ⟨hdeferred, ?_, hruns⟩⟩
        -- only what stands right below a class can be its body
        intro hclass body hhead
        rcases head?_of_lies hlies with ⟨rfl, -⟩ | hchildHead
        · exact absurd hhead (by simp)
        · rw [Option.mem_unique hhead hchildHead]
          exact hbody hclass
    · rintro ⟨hcall, above, hlies, hruns⟩
      cases hlies with
      | root =>
        obtain ⟨kind', children', heq, hkind⟩ := hcall
        obtain ⟨rfl, rfl⟩ := Node.branch.inj heq
        have hdeferred : isDeferred kind = false := by
          cases kind <;> first | rfl | exact absurd hkind (by decide)
        exact ⟨hdeferred, Or.inl ⟨rfl, hkind⟩⟩
      | @inPart _ _ above child _ hchild hlies =>
        obtain ⟨hdeferred, hbody, hruns⟩ := runsAtOnce_cons.mp hruns
        refine ⟨hdeferred, Or.inr ⟨child, hchild, fun hclass => ?_,
          (ih child hchild).mpr ⟨hcall, above, hlies, hruns⟩⟩⟩
        rcases head?_of_lies hlies with ⟨rfl, rfl⟩ | hhead
        · -- the part is the call itself, which is no body of a class
          obtain ⟨kind', children', rfl, hkind⟩ := hcall
          intro heq
          rw [show kind' = .classBody from heq] at hkind
          exact absurd hkind (by decide)
        · exact hbody hclass child hhead

end Annotate

/-! ## What sorting leaves of patches at one place -/

namespace Patch

/-- Dropping repeats leaves one of the patches at a place, if all of them there are the same. -/
theorem dropRepeats_filter_eq {q : Patch} {ps : List Patch}
    (hsorted : ps.Pairwise fun p r => p.start ≤ r.start)
    (hsame : ∀ p ∈ ps, p.start = q.start → p = q) :
    (dropRepeats ps).filter (fun p => p.start = q.start) = if q ∈ ps then [q] else [] := by
  induction ps using dropRepeats.induct with
  | case1 => simp [dropRepeats]
  | case2 p =>
    have hp := hsame p List.mem_cons_self
    by_cases hplace : p.start = q.start
    · simp [dropRepeats, hp hplace]
    · have hne : q ≠ p := fun heq => hplace (by rw [heq])
      simp [dropRepeats, hplace, hne]
  | case3 p r rest hrepeat ih =>
    -- the patch that goes is the one that is asked for only if the one that stays is
    rw [dropRepeats, if_pos hrepeat]
    have hstart : p.start = r.start := by
      rw [sameInsertion, Bool.and_eq_true, beq_iff_eq] at hrepeat
      exact hrepeat.1
    have hr : q = r → q = p := fun heq =>
      (hsame p List.mem_cons_self (by rw [hstart, heq])).symm
    rw [ih (hsorted.sublist ((List.sublist_cons_self r rest).cons_cons p)) fun s hs =>
      hsame s (by simp only [List.mem_cons] at hs ⊢; exact hs.imp_right Or.inr)]
    refine if_congr ?_ rfl rfl
    simp only [List.mem_cons]
    exact ⟨Or.imp_right Or.inr, fun h => h.elim Or.inl fun h => h.elim (Or.inl ∘ hr) Or.inr⟩
  | case4 p r rest hdiffer ih =>
    obtain ⟨hfirst, hmore⟩ := List.pairwise_cons.mp hsorted
    rw [dropRepeats, if_neg hdiffer, List.filter_cons,
      ih hmore fun s hs => hsame s (List.mem_cons_of_mem _ hs)]
    by_cases hplace : p.start = q.start
    · -- behind the patch that is asked for, the next one starts later, and so do all others
      obtain rfl := hsame p List.mem_cons_self hplace
      have hgone : p ∉ r :: rest := by
        intro hmem
        have hle : p.start ≤ r.start := hfirst r List.mem_cons_self
        have hge : r.start ≤ p.start := by
          rcases List.mem_cons.mp hmem with rfl | hin
          · exact Int.le_refl _
          · exact (List.pairwise_cons.mp hmore).1 p hin
        have hr := hsame r (List.mem_cons_of_mem _ List.mem_cons_self) (Int.le_antisymm hge hle)
        exact hdiffer (by rw [hr]; simp [sameInsertion])
      simp [hgone]
    · have hne : q ≠ p := fun heq => hplace (by rw [heq])
      simp [hplace, hne]

/-- **Of patches that are all the same at their place, sorting leaves one.** -/
theorem sortPatches_filter_eq {q : Patch} {ps : List Patch}
    (hsame : ∀ p ∈ ps, p.start = q.start → p = q) :
    (sortPatches ps).filter (fun p => p.start = q.start) = if q ∈ ps then [q] else [] := by
  unfold sortPatches
  rw [dropRepeats_filter_eq (pairwise_mergeSort ps) fun p hp => hsame p (List.mem_mergeSort.mp hp)]
  exact if_congr List.mem_mergeSort rfl rfl

end Patch

/-! ## Where the markers are -/

namespace Annotate

/-- What the reader of a program promises about the bytes at the edges of its constructs: a call does
not start at a semicolon or a closing brace, and a block ends with a closing brace. -/
structure Punctuated (code : List UInt8) (tree : Node) : Prop where
  calls : ∀ n ∈ tree.nodes, isCall n.kind = true →
    code[n.start]? ≠ some 0x3b ∧ code[n.start]? ≠ some 0x7d
  blocks : ∀ n ∈ tree.nodes, n.kind = .statementBlock → code[n.stop - 1]? = some 0x7d

instance (code : List UInt8) (tree : Node) : Decidable (Punctuated code tree) :=
  decidable_of_iff
    ((∀ n ∈ tree.nodes, isCall n.kind = true → code[n.start]? ≠ some 0x3b ∧ code[n.start]? ≠ some 0x7d) ∧
      ∀ n ∈ tree.nodes, n.kind = .statementBlock → code[n.stop - 1]? = some 0x7d)
    ⟨fun h => ⟨h.1, h.2⟩, fun h => ⟨h.calls, h.blocks⟩⟩

/-- Whether a call or a construction that runs at once starts at a place; loading a module is not
meant. -/
def CalledAt (tree : Node) (place : Nat) : Prop :=
  ∃ kind children above, tree.Lies above (.branch kind children) ∧ RunsAtOnce above ∧
    (kind = .newExpression ∨
      kind = .callExpression ∧ ∀ callee ∈ children.head?, callee.kind ≠ .importKeyword) ∧
    (Node.branch kind children).start = place

/-- Every `new` is marked, and every call but an `import`. -/
theorem isMarked_branch {kind : Kind} {children : List Node} :
    isCall kind = true ∧ isMarked (.branch kind children) = true ↔
      kind = .newExpression ∨
        kind = .callExpression ∧ ∀ callee ∈ children.head?, callee.kind ≠ .importKeyword := by
  unfold isMarked callee?
  show _ ∧ ((if kind == .callExpression then children.head? else none).map Node.kind !=
    some .importKeyword) = true ↔ _
  cases children <;> cases kind <;> simp [isCall]

/-- A marked call is visited where one runs at once. -/
theorem calledAt_iff {tree : Node} {place : Nat} : CalledAt tree place ↔
    ∃ call ∈ visitedCalls tree, isMarked call = true ∧ call.start = place := by
  constructor
  · rintro ⟨kind, children, above, hlies, hruns, hkind, hstart⟩
    obtain ⟨hcall, hmarked⟩ := isMarked_branch.mpr hkind
    exact ⟨_, mem_visitedCalls_iff.mpr ⟨⟨kind, children, rfl, hcall⟩, above, hlies, hruns⟩, hmarked,
      hstart⟩
  · rintro ⟨call, hvisited, hmarked, hstart⟩
    obtain ⟨⟨kind, children, rfl, hcall⟩, above, hlies, hruns⟩ := mem_visitedCalls_iff.mp hvisited
    exact ⟨kind, children, above, hlies, hruns, isMarked_branch.mp ⟨hcall, hmarked⟩, hstart⟩

/-- What is found within parentheses is a node. -/
theorem stripParentheses_mem_nodes (fuel : Nat) (n : Node) : stripParentheses fuel n ∈ n.nodes := by
  induction fuel generalizing n with
  | zero => exact n.mem_nodes_self
  | succ fuel ih =>
    rw [stripParentheses]
    split
    · rename_i inner _ hnamed
      have hinner : inner ∈ n.children :=
        (List.mem_filter.mp (show inner ∈ n.named by rw [hnamed]; exact List.mem_cons_self)).1
      exact Node.mem_nodes_of_mem_children hinner (ih inner)
    · exact n.mem_nodes_self

theorem part?_mem_nodes {n m : Node} {kind : Kind} (h : n.part? kind = some m) :
    m ∈ n.nodes ∧ m.kind = kind :=
  ⟨Node.mem_nodes_of_mem_children (List.mem_of_find?_eq_some h) m.mem_nodes_self, by
    simpa using List.find?_some h⟩

/-- The function that a call calls is a part of it. -/
theorem function_mem_nodes {call f : Node}
    (h : (callee? call).map (stripParentheses (depthBound call)) = some f) : f ∈ call.nodes := by
  obtain ⟨callee, hcallee, rfl⟩ := Option.map_eq_some_iff.mp h
  unfold callee? at hcallee
  split at hcallee
  · exact Node.mem_nodes_of_mem_children (List.mem_of_mem_head? hcallee)
      (stripParentheses_mem_nodes _ callee)
  · exact absurd hcallee (by simp)

/-- The body that fills an enum is a block within the call. -/
theorem Fills.body_mem_nodes {code : List UInt8} {call body : Node} {t : Declaring}
    {parameter : List Char} (h : Fills code call t parameter body) :
    body ∈ call.nodes ∧ body.kind = .statementBlock := by
  obtain ⟨f, hf, -, -, hbody⟩ := h.function
  obtain ⟨hmem, hkind⟩ := part?_mem_nodes hbody
  exact ⟨Node.nodes_subset_of_mem (function_mem_nodes hf) hmem, hkind⟩

/-- The parameter of a call that is fused is a name in it. -/
theorem Fills.exists_parameter {code : List UInt8} {call body : Node} {t : Declaring}
    {parameter : List Char} (h : Fills code call t parameter body) :
    ∃ n ∈ call.nodes, n.kind = .identifier ∧ n.leafText = parameter := by
  obtain ⟨f, hf, -, hparameter, -⟩ := h.function
  unfold singleParameter? at hparameter
  obtain ⟨list, hlist, hone⟩ := Option.bind_eq_some_iff.mp hparameter
  -- the list has one part with a name, and that part is the name
  split at hone
  · rename_i n hnamed
    split at hone
    · rename_i hkind
      have hn : n ∈ list.children :=
        (List.mem_filter.mp (show n ∈ list.named by rw [hnamed]; exact List.mem_cons_self)).1
      have hinList := Node.mem_nodes_of_mem_children hn n.mem_nodes_self
      have hinCall := Node.nodes_subset_of_mem (function_mem_nodes hf)
        (Node.nodes_subset_of_mem (part?_mem_nodes hlist).1 hinList)
      exact ⟨n, hinCall, by simpa using hkind, Option.some.inj hone⟩
    · exact absurd hone (by simp)
  · exact absurd hone (by simp)

/-- The semicolon of the declaration is where the tree says. -/
theorem Fills.semicolon_byte {code : List UInt8} {call body : Node} {t : Declaring}
    {parameter : List Char} (h : Fills code call t parameter body) :
    code[t.semicolon]? = some 0x3b := by
  have htext : (code.take call.start)[t.semicolon]? = some 0x3b := by
    rw [h.text_eq, Declaring.text, Declaring.semicolon,
      List.getElem?_append_right (Nat.le_refl _), Nat.sub_self]
    rfl
  rw [List.getElem?_take] at htext
  split at htext
  · exact htext
  · exact absurd htext (by simp)

/-- The walk visits nodes of the tree, and calls only. -/
theorem mem_nodes_of_mem_visitedCalls {tree call : Node} (h : call ∈ visitedCalls tree) :
    call ∈ tree.nodes ∧ isCall call.kind = true := by
  obtain ⟨⟨kind, children, rfl, hcall⟩, above, hlies, -⟩ := mem_visitedCalls_iff.mp h
  exact ⟨hlies.mem_nodes, hcall⟩

/-- The patches that fuse a declaration go in at a semicolon and at a closing brace. -/
theorem byte_of_mem_enumPatches {code : List UInt8} {tree call : Node} (h : Punctuated code tree)
    (hcall : call ∈ tree.nodes) {p : Patch} (hp : p ∈ enumPatches code call) :
    ∃ place : Nat, p.start = place ∧
      (code[place]? = some 0x3b ∨ code[place]? = some 0x7d) := by
  obtain ⟨t, parameter, body, hfills⟩ := exists_fills (List.ne_nil_of_mem hp)
  rw [enumPatches_of_fills hfills, fusing] at hp
  rcases List.mem_cons.mp hp with rfl | hlast
  · exact ⟨t.semicolon, rfl, Or.inl hfills.semicolon_byte⟩
  · rw [List.mem_singleton.mp hlast]
    obtain ⟨hbody, hkind⟩ := hfills.body_mem_nodes
    exact ⟨body.stop - 1, rfl,
      Or.inr (h.blocks body (Node.nodes_subset_of_mem hcall hbody) hkind)⟩

/-- Where a call starts that is marked, all patches are markers. -/
theorem eq_marker_of_mem_patches {code : List UInt8} {tree : Node} (h : Punctuated code tree)
    {place : Nat} (hcalled : CalledAt tree place) {p : Patch} (hp : p ∈ patches code tree)
    (hstart : p.start = place) : p = Patch.insertion place marker := by
  obtain ⟨call, hcall, hcallPatch⟩ := List.mem_flatMap.mp hp
  unfold callPatches at hcallPatch
  split at hcallPatch
  · rcases List.mem_append.mp hcallPatch with henum | hmark
    · obtain ⟨other, hother, -, rfl⟩ := calledAt_iff.mp hcalled
      obtain ⟨hmem, hkind⟩ := mem_nodes_of_mem_visitedCalls hother
      obtain ⟨place', hplace, hbyte⟩ :=
        byte_of_mem_enumPatches h (mem_nodes_of_mem_visitedCalls hcall).1 henum
      obtain ⟨hsemicolon, hbrace⟩ := h.calls other hmem hkind
      -- a semicolon or a brace stands there, and no call starts with either
      rw [← Int.ofNat_inj.mp (hstart.symm.trans hplace)] at hbyte
      exact (hbyte.elim hsemicolon hbrace).elim
    · obtain rfl := List.mem_singleton.mp hmark
      have heq : call.start = place := Int.ofNat_inj.mp hstart
      rw [heq]
  · exact absurd hcallPatch List.not_mem_nil

/-- Neither patch of a declaration looks like a marker, so counting the markers counts the marked
calls. -/
theorem text_ne_marker_of_mem_enumPatches {code : List UInt8} {call : Node} {p : Patch}
    (hp : p ∈ enumPatches code call) : p.text ≠ marker := by
  obtain ⟨t, parameter, body, hfills⟩ := exists_fills (List.ne_nil_of_mem hp)
  rw [enumPatches_of_fills hfills, fusing] at hp
  rcases List.mem_cons.mp hp with rfl | hlast
  · show " =" ≠ marker
    decide
  · rw [List.mem_singleton.mp hlast]
    intro heq
    have hhead : (returning parameter).toList.head? = marker.toList.head? :=
      congrArg (fun s => s.toList.head?) heq
    simp [returning, marker] at hhead

/-- Every marker stands where a call starts that is marked. -/
theorem exists_calledAt_of_marker {code : List UInt8} {tree : Node} {p : Patch}
    (hp : p ∈ patches code tree) (htext : p.text = marker) :
    ∃ place : Nat, CalledAt tree place ∧ p.start = place := by
  obtain ⟨call, hcall, hcallPatch⟩ := List.mem_flatMap.mp hp
  unfold callPatches at hcallPatch
  split at hcallPatch
  · rename_i hmarked
    rcases List.mem_append.mp hcallPatch with henum | hmark
    · exact absurd htext (text_ne_marker_of_mem_enumPatches henum)
    · rw [List.mem_singleton.mp hmark]
      exact ⟨call.start, calledAt_iff.mpr ⟨call, hcall, hmarked, rfl⟩, rfl⟩
  · exact absurd hcallPatch List.not_mem_nil

/-- A call that runs at once gets its marker. -/
theorem marker_mem_patches {code : List UInt8} {tree : Node} {place : Nat}
    (h : CalledAt tree place) : Patch.insertion place marker ∈ patches code tree := by
  obtain ⟨call, hcall, hmarked, rfl⟩ := calledAt_iff.mp h
  refine List.mem_flatMap.mpr ⟨call, hcall, ?_⟩
  rw [callPatches, if_pos hmarked]
  exact List.mem_append_right _ List.mem_cons_self

def markersAt (place : Nat) (ps : List Patch) : List Patch :=
  ps.filter fun p : Patch => p.start = place ∧ p.text = marker

/-- **There is one marker where a call runs at once, and none elsewhere.** At each place, the sorted
patches of some code hold the marker exactly once if a call or a construction starts there that has
neither a function nor the body of a class above it, and they do not hold it otherwise. -/
theorem marked_once_where_called {code : String} {tree : Node}
    (h : Punctuated (Utf8.encode code) tree) :
    (parse? code.toList = some tree →
      patchesOfCode code = .ok (patches (Utf8.encode code) tree)) ∧
    ∀ place : Nat,
      (CalledAt tree place → markersAt place (Patch.sortPatches (patches (Utf8.encode code) tree)) =
        [Patch.insertion place marker]) ∧
      (¬ CalledAt tree place →
        markersAt place (Patch.sortPatches (patches (Utf8.encode code) tree)) = []) := by
  refine ⟨fun hread => by rw [patchesOfCode, hread], fun place => ⟨fun hcalled => ?_, fun hcalled => ?_⟩⟩
  · have hsame : ∀ p ∈ patches (Utf8.encode code) tree, p.start = place →
        p = Patch.insertion place marker := fun p hp => eq_marker_of_mem_patches h hcalled hp
    have hone := Patch.sortPatches_filter_eq (q := Patch.insertion place marker) hsame
    rw [if_pos (marker_mem_patches hcalled)] at hone
    -- what starts there is the marker, so asking for its text as well changes nothing
    rw [← hone]
    refine List.filter_congr fun p hp => decide_eq_decide.mpr ⟨And.left, fun hplace => ⟨hplace, ?_⟩⟩
    rw [hsame p (Patch.mem_of_mem_sortPatches hp) hplace]
    rfl
  · refine List.filter_eq_nil_iff.mpr fun p hp hboth => ?_
    obtain ⟨hplace, htext⟩ := of_decide_eq_true hboth
    obtain ⟨place', hcalled', hstart⟩ :=
      exists_calledAt_of_marker (Patch.mem_of_mem_sortPatches hp) htext
    rw [Int.ofNat_inj.mp (hplace.symm.trans hstart)] at hcalled
    exact hcalled hcalled'

/-- A variable that is filled by a call, a call of what a call yields, and a class. -/
def nestedCalls : String := "var E;(function(E){f()})(E);g()(h());class C extends k(){m=n()}"

/-- Two calls start at the second statement, which has one marker; the call inside the first function
has none. -/
theorem marked_once_where_called_nestedCalls :
    ∃ tree, parse? nestedCalls.toList = some tree ∧ Punctuated (Utf8.encode nestedCalls) tree ∧
      patchesOfCode nestedCalls = .ok (patches (Utf8.encode nestedCalls) tree) ∧
      CalledAt tree 28 ∧
      markersAt 28 (Patch.sortPatches (patches (Utf8.encode nestedCalls) tree)) =
        [Patch.insertion 28 marker] ∧
      ¬ CalledAt tree 19 ∧
      markersAt 19 (Patch.sortPatches (patches (Utf8.encode nestedCalls) tree)) = [] := by
  -- one reading of the program decides all that is asked of its tree
  have hchecked : ((parse? nestedCalls.toList).any fun tree =>
      decide (Punctuated (Utf8.encode nestedCalls) tree) &&
      ((visitedCalls tree).any fun call => isMarked call && call.start == 28) &&
      (visitedCalls tree).all fun call => call.start != 19) = true := by
    decide +kernel
  obtain ⟨tree, hread, hchecks⟩ := (Option.any_eq_true _ _).mp hchecked
  simp only [Bool.and_eq_true, List.all_eq_true, List.any_eq_true, bne_iff_ne, beq_iff_eq,
    decide_eq_true_eq] at hchecks
  obtain ⟨⟨hpunctuated, hcall⟩, hnone⟩ := hchecks
  have hcalled : CalledAt tree 28 := calledAt_iff.mpr hcall
  have huncalled : ¬ CalledAt tree 19 := by
    intro h
    obtain ⟨call, hvisited, -, hstart⟩ := calledAt_iff.mp h
    exact hnone call hvisited hstart
  obtain ⟨hpatches, hmarkers⟩ := marked_once_where_called hpunctuated
  exact ⟨tree, hread, hpunctuated, hpatches hread, hcalled, (hmarkers 28).1 hcalled, huncalled,
    (hmarkers 19).2 huncalled⟩

end Annotate

end Packwright
