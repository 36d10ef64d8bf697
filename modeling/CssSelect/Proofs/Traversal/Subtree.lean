import CssSelect.Proofs.Document.Loaded
import CssSelect.Proofs.Document.Order
import CssSelect.Table

/-!
A traversal gives what the recursion over children gives. The recursion needs no stack, but it
needs that the way down from the root comes to an end everywhere; this is what it recurses on.
The stack of a traversal stands at all times for the subtrees of its entries, from the top down,
and taking a node replaces its subtree by those of its children.
-/
namespace CssSelect

namespace View

variable {ν : Type}

/-- The first node is among the children of the second. -/
def ChildOf (view : View ν) (child above : ν) : Prop :=
  child ∈ view.children above

/-- A node, and behind it the subtrees of its children in their order. -/
def subtree (view : View ν) (root : ν) (ends : Acc view.ChildOf root) : List ν :=
  root :: (view.children root).attach.flatMap fun child =>
    view.subtree child.1 (ends.inv child.2)
termination_by (⟨root, ends⟩ : { node // Acc view.ChildOf node })
decreasing_by exact child.2

/-- The subtrees of the entries of a stack, from the top down. -/
def forest (view : View ν) (stack : List ν) (ends : ∀ node ∈ stack, Acc view.ChildOf node) :
    List ν :=
  (stack.pmap view.subtree ends).flatten

/-- The nodes, if the view can be asked about each of them. -/
def askAll (view : View ν) (nodes : List ν) : Except Halt (List ν) :=
  if nodes.all view.knows then .ok nodes else .error .unknownNode

/-- Nodes taken from a stack one after the other, and the stack that is left. -/
inductive Takes (view : View ν) : List ν → List ν → List ν → Prop
  | nothing (stack : List ν) : Takes view stack [] stack
  | more {stack behind nodes rest : List ν} {node : ν}
      (taken : view.next stack = .ok (some (node, behind))) (later : Takes view behind nodes rest) :
      Takes view stack (node :: nodes) rest

variable {view : View ν} {root : ν}

theorem subtree_eq (ends : Acc view.ChildOf root) :
    view.subtree root ends =
      root :: view.forest (view.children root) fun _ member => ends.inv member := by
  rw [subtree, forest, List.pmap_eq_map_attach, List.flatMap_def]

/-- The top of a stack stands for itself and for what its children stand for in its place. -/
theorem forest_cons {node : ν} {stack : List ν}
    (ends : ∀ other ∈ node :: stack, Acc view.ChildOf other)
    (further : ∀ other ∈ view.children node ++ stack, Acc view.ChildOf other) :
    view.forest (node :: stack) ends = node :: view.forest (view.children node ++ stack) further := by
  rw [forest, List.pmap_cons, List.flatten_cons, subtree_eq, forest, forest, List.pmap_append,
    List.flatten_append, List.cons_append]

/-- What is pushed has an end below it as well. -/
theorem acc_of_push {node : ν} {stack : List ν}
    (ends : ∀ other ∈ node :: stack, Acc view.ChildOf other) :
    ∀ other ∈ view.children node ++ stack, Acc view.ChildOf other := by
  intro other member
  rcases List.mem_append.mp member with child | entry
  · exact (ends node List.mem_cons_self).inv child
  · exact ends other (List.mem_cons_of_mem _ entry)

theorem next_cons (node : ν) (stack : List ν) :
    view.next (node :: stack) =
      view.ask node (some (node, view.children node ++ stack)) := by
  rw [next, ask, ask]
  by_cases known : view.knows node = true
  · simp only [if_pos known]
  · simp only [if_neg known]

theorem askAll_cons (node : ν) (nodes : List ν) :
    view.askAll (node :: nodes) =
      if view.knows node then (view.askAll nodes).map (node :: ·) else .error .unknownNode := by
  by_cases known : view.knows node = true
  · by_cases rest : nodes.all view.knows = true <;> simp [askAll, known, rest, Except.map]
  · simp [askAll, known]

/-- What is visited from a stack is what it stands for. The induction is on the limit, for the
stack has no measure of its own: a push can make it longer. -/
theorem visit_eq_forest (limit : Nat) (stack : List ν)
    (ends : ∀ node ∈ stack, Acc view.ChildOf node) (visited : Array ν) :
    (view.visit limit stack visited).map Array.toList =
      (view.askAll ((view.forest stack ends).take limit)).map (visited.toList ++ ·) := by
  induction limit generalizing stack visited with
  | zero => simp [visit, askAll, Except.map]
  | succ limit ih =>
    cases stack with
    | nil => simp [visit, next, forest, askAll, Except.map]
    | cons node stack =>
      rw [visit, next_cons, ask, forest_cons ends (acc_of_push ends), List.take_succ_cons, askAll_cons]
      by_cases known : view.knows node = true
      · simp only [if_pos known]
        rw [ih _ (acc_of_push ends), Array.toList_push]
        cases view.askAll ((view.forest _ (acc_of_push ends)).take limit) with
        | error halt => rfl
        | ok nodes => simp [Except.map]
      · simp only [if_neg known]
        rfl

/-- Whatever was taken, the stack that is left stands for all that is still to come. -/
theorem Takes.forest_eq {start nodes stack : List ν} (takes : view.Takes start nodes stack)
    (ends : ∀ node ∈ start, Acc view.ChildOf node) :
    ∃ left : ∀ node ∈ stack, Acc view.ChildOf node,
      view.forest start ends = nodes ++ view.forest stack left := by
  induction takes with
  | nothing stack => exact ⟨ends, rfl⟩
  | @more stack behind nodes rest node taken _ ih =>
    cases stack with
    | nil => cases taken
    | cons top stack =>
      rw [next_cons, ask] at taken
      split at taken
      · cases taken
        obtain ⟨left, same⟩ := ih (acc_of_push ends)
        exact ⟨left, by rw [forest_cons ends (acc_of_push ends), same, List.cons_append]⟩
      · cases taken

/-- Where the preorder of a forest exists, it is what the recursion gives. -/
theorem Preorder.eq_forest {stack nodes : List ν} (all : Preorder view stack nodes)
    (ends : ∀ node ∈ stack, Acc view.ChildOf node) : nodes = view.forest stack ends := by
  induction all with
  | nil => rfl
  | @cons node others below behind _ _ _ ihInner ihRest =>
    have innerEnds : ∀ child ∈ view.children node, Acc view.ChildOf child :=
      fun _ member => (ends node List.mem_cons_self).inv member
    have restEnds : ∀ other ∈ others, Acc view.ChildOf other :=
      fun other member => ends other (List.mem_cons_of_mem _ member)
    rw [ihInner innerEnds, ihRest restEnds, forest, forest, forest,
      List.pmap_cons, List.flatten_cons, subtree_eq, forest, List.cons_append]

/-- What the traversal of a root is to visit: its subtree, with or without the root. -/
def toVisit (view : View ν) (root : ν) (includeRoot : Bool) (ends : Acc view.ChildOf root) :
    List ν :=
  if includeRoot then view.subtree root ends else (view.subtree root ends).tail

/-- The stack at the start stands for all that is to be visited. -/
theorem forest_startAt {includeRoot : Bool} {start : List ν} (ends : Acc view.ChildOf root)
    (started : view.startAt root includeRoot = .ok start) :
    ∃ left : ∀ node ∈ start, Acc view.ChildOf node,
      view.toVisit root includeRoot ends = view.forest start left := by
  cases includeRoot with
  | true =>
    cases started
    refine ⟨fun node member => List.mem_singleton.mp member ▸ ends, ?_⟩
    exact (List.append_nil _).symm
  | false =>
    by_cases known : view.knows root = true
    · simp only [startAt, ask, if_pos known, Bool.false_eq_true, if_false] at started
      cases started
      refine ⟨fun _ member => ends.inv member, ?_⟩
      rw [toVisit, subtree_eq]
      rfl
    · simp only [startAt, ask, if_neg known, Bool.false_eq_true, if_false] at started
      cases started

/-- What it means that the traversals of a root are its recursive preorder. -/
structure TraversedInPreorder (view : View ν) (root : ν) (ends : Acc view.ChildOf root) : Prop where
  /-- A traversal gives the nodes of the preorder, if the view can be asked about them; that of
  the nodes below the root asks about the root first. -/
  visited : ∀ includeRoot limit, view.traverse root includeRoot limit =
    (view.startAt root includeRoot).bind fun _ =>
      view.askAll ((view.toVisit root includeRoot ends).take limit)
  /-- At all times the subtrees of the stack, from the top down, are the rest of the preorder, and
  they are what the traversal still gives. -/
  remaining : ∀ includeRoot start nodes stack, view.startAt root includeRoot = .ok start →
    view.Takes start nodes stack → ∃ left : ∀ node ∈ stack, Acc view.ChildOf node,
      view.toVisit root includeRoot ends = nodes ++ view.forest stack left ∧
      ∀ limit, (view.visit limit stack #[]).map Array.toList =
        view.askAll ((view.forest stack left).take limit)

theorem visit_empty_eq_forest (limit : Nat) (stack : List ν)
    (ends : ∀ node ∈ stack, Acc view.ChildOf node) :
    (view.visit limit stack #[]).map Array.toList =
      view.askAll ((view.forest stack ends).take limit) := by
  rw [visit_eq_forest limit stack ends]
  cases view.askAll ((view.forest stack ends).take limit) <;> rfl

theorem traversedInPreorder (view : View ν) (root : ν) (ends : Acc view.ChildOf root) :
    view.TraversedInPreorder root ends where
  visited includeRoot limit := by
    rw [traverse]
    cases started : view.startAt root includeRoot with
    | error halt => rfl
    | ok start =>
      obtain ⟨left, same⟩ := forest_startAt ends started
      rw [Except.bind, same, ← visit_empty_eq_forest limit start left]
      cases run : view.visit limit start #[] <;> simp only [run, Except.map]
  remaining includeRoot start nodes stack started takes := by
    obtain ⟨startEnds, same⟩ := forest_startAt ends started
    obtain ⟨left, split⟩ := takes.forest_eq startEnds
    exact ⟨left, same.trans split, fun limit => visit_empty_eq_forest limit stack left⟩

end View

namespace Tree

open View (Leads Preorder)

variable {tree : Tree}

/-- Each node stands in the list once, before what is below it and behind the subtrees of the
siblings that precede it. -/
structure InTreeOrder (tree : Tree) (items : List NodeId) : Prop where
  nodup : items.Nodup
  below_behind : ∀ before id behind, items = before ++ id :: behind →
    ∀ other ∈ items, Leads tree.parent? other id → other ∈ behind
  siblings_before : ∀ before id behind, items = before ++ id :: behind →
    ∀ above sibling, [sibling, id].Sublist (tree.children above) →
      ∀ other ∈ items, tree.Within sibling other → other ∈ before

/-- In a list in document order the nodes that come before one stand before it, and those that
come after it stand behind it. -/
theorem WellLinked.place_of_precedes (linked : tree.WellLinked) {before behind : List NodeId}
    {id other : NodeId} (ordered : (before ++ id :: behind).Pairwise tree.Precedes)
    (member : other ∈ before ++ id :: behind) :
    (tree.Precedes other id → other ∈ before) ∧ (tree.Precedes id other → other ∈ behind) := by
  obtain ⟨_, fromId, toId⟩ := List.pairwise_append.mp ordered
  rcases List.mem_append.mp member with early | late
  · have first := toId other early id List.mem_cons_self
    exact ⟨fun _ => early, fun second => absurd second (linked.precedes_asymm first)⟩
  rcases List.mem_cons.mp late with rfl | late
  · exact ⟨fun circle => absurd circle (linked.not_precedes_self other),
      fun circle => absurd circle (linked.not_precedes_self other)⟩
  · have first := (List.pairwise_cons.mp fromId).1 other late
    exact ⟨fun second => absurd second (linked.precedes_asymm first), fun _ => late⟩

theorem WellLinked.inTreeOrder (linked : tree.WellLinked) {items : List NodeId}
    (ordered : items.Pairwise tree.Precedes) : tree.InTreeOrder items where
  nodup := linked.nodup_of_ordered ordered
  below_behind := by
    rintro before id behind rfl other member below
    exact (linked.place_of_precedes ordered member).2 (.inl below)
  siblings_before := by
    rintro before id behind rfl above sibling inOrder other member inSibling
    exact (linked.place_of_precedes ordered member).1
      (.inr ⟨above, sibling, id, inOrder, inSibling, .refl⟩)

theorem WellLinked.acc_childOf (linked : tree.WellLinked) (root : NodeId) :
    Acc tree.view.ChildOf root := by
  refine Subrelation.wf ?_ linked.wellFounded_children |>.apply root
  intro child above member
  exact ((mem_childElements_iff linked).mp member).2

/-- The traversals of a tree whose links agree visit its elements in document order. -/
theorem WellLinked.toVisit_ordered (linked : tree.WellLinked) (root : NodeId) (includeRoot : Bool) :
    (tree.view.toVisit root includeRoot (linked.acc_childOf root)).Pairwise tree.Precedes ∧
      ∀ id, id ∈ tree.view.toVisit root includeRoot (linked.acc_childOf root) ↔
        includeRoot = true ∧ id = root ∨ tree.ElementBelow root id := by
  obtain ⟨nodes, all⟩ := linked.exists_preorder root
  have whole : tree.view.subtree root (linked.acc_childOf root) = root :: nodes := by
    rw [View.subtree_eq]
    exact congrArg _ (all.eq_forest _).symm
  have ordered := linked.precedes_preorder all
  have members : ∀ id, id ∈ nodes ↔ tree.ElementBelow root id :=
    fun _ => linked.mem_preorder_iff all
  cases includeRoot with
  | false => simpa [View.toVisit, whole] using ⟨ordered, members⟩
  | true =>
    rw [View.toVisit, if_pos rfl, whole]
    refine ⟨List.pairwise_cons.mpr ⟨fun id member => ?_, ordered⟩, fun id => ?_⟩
    · exact .inl ((members id).mp member).leads
    · rw [List.mem_cons, members]
      simp

end Tree

/-- The traversals of a root are its recursive preorder in every view in which the way down from
the root comes to an end. In a tree that was built step by step, as loaded trees are, it always
does, and the elements below the root are visited, each once, before what is below them and
behind the subtrees of the siblings that precede them. -/
theorem traversals_in_preorder :
    (∀ (ν : Type) (view : View ν) (root : ν) (ends : Acc view.ChildOf root),
      view.TraversedInPreorder root ends) ∧
    (∀ tree : Tree, tree.WellBuilt → ∀ root includeRoot, ∃ ends : Acc tree.view.ChildOf root,
      (∀ limit, tree.view.traverse root includeRoot limit =
        .ok ((tree.view.toVisit root includeRoot ends).take limit)) ∧
      tree.InTreeOrder (tree.view.toVisit root includeRoot ends) ∧
      ∀ id, id ∈ tree.view.toVisit root includeRoot ends ↔
        includeRoot = true ∧ id = root ∨ tree.ElementBelow root id) ∧
    ∀ text tree, Tree.load text = .ok tree → tree.WellBuilt := by
  refine ⟨fun ν view root ends => View.traversedInPreorder view root ends,
    fun tree built root includeRoot => ?_, fun text tree loaded => Tree.wellBuilt_of_load loaded⟩
  have linked := built.wellLinked
  obtain ⟨ordered, members⟩ := linked.toVisit_ordered root includeRoot
  refine ⟨linked.acc_childOf root, fun limit => ?_, linked.inTreeOrder ordered, members⟩
  rw [(View.traversedInPreorder tree.view root (linked.acc_childOf root)).visited]
  cases includeRoot <;> simp [View.startAt, View.ask, View.askAll, Tree.view, Except.bind]

/-- Three nodes, the last of which is a child of both others. -/
def sharedChild : Table where
  rows := #[
    { tag := some "a", content := none, id := none, classes := [], attributes := [],
      parent := none, previous := none, next := none, children := [1, 2] },
    { tag := some "b", content := none, id := none, classes := [], attributes := [],
      parent := some 0, previous := none, next := none, children := [2] },
    { tag := some "c", content := none, id := none, classes := [], attributes := [],
      parent := some 0, previous := none, next := none, children := [] }]

theorem acc_sharedChild : Acc sharedChild.view.ChildOf 0 := by
  have last : Acc sharedChild.view.ChildOf 2 :=
    .intro 2 fun child member => absurd (show child ∈ [] from member) List.not_mem_nil
  have middle : Acc sharedChild.view.ChildOf 1 := by
    refine .intro 1 fun child member => ?_
    rwa [List.mem_singleton.mp (show child ∈ [2] from member)]
  refine .intro 0 fun child member => ?_
  rcases List.mem_pair.mp (show child ∈ [1, 2] from member) with rfl | rfl
  · exact middle
  · exact last

/-- An element with a child of its own, and a sibling behind it. -/
def branching : Tree :=
  (((Tree.empty.append Tree.root (.element ⟨"a", .empty⟩)).2.append 1
    (.element ⟨"b", .empty⟩)).2.append Tree.root (.element ⟨"c", .empty⟩)).2

/-- A shared child is visited once for each node that has it; in a built tree there is none. -/
theorem traversals_sharedChild_branching :
    sharedChild.view.toVisit 0 true acc_sharedChild = [0, 1, 2, 2] ∧
      branching.WellBuilt ∧ branching.InTreeOrder [1, 2, 3] := by
  have taken : sharedChild.view.Takes [0] [0, 1, 2, 2] [] :=
    .more rfl (.more rfl (.more rfl (.more rfl (.nothing []))))
  obtain ⟨left, whole, _⟩ := (traversals_in_preorder.1 Nat sharedChild.view 0
    acc_sharedChild).remaining true [0] [0, 1, 2, 2] [] rfl taken
  have built : branching.WellBuilt := by
    refine Tree.WellBuilt.append (Tree.WellBuilt.append (.append .empty ?_ _) ?_ _) ?_ _
    all_goals decide
  obtain ⟨ends, visited, ordered, _⟩ :=
    traversals_in_preorder.2.1 branching built Tree.root false
  generalize branching.view.toVisit Tree.root false ends = items at visited ordered
  have firstFour : items.take 4 = [1, 2, 3] := Except.ok.inj ((visited 4).symm.trans (by rfl))
  have size : items.length = 3 := by
    have sizes := congrArg List.length firstFour
    rw [List.length_take] at sizes
    simp only [List.length_cons, List.length_nil] at sizes
    omega
  rw [List.take_of_length_le (by omega)] at firstFour
  exact ⟨whole, built, firstFour ▸ ordered⟩

end CssSelect
