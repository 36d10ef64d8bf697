import CssSelect.Proofs.Document.Elements
import CssSelect.Proofs.Document.Loaded
import CssSelect.Proofs.Document.Places

/-!
The walks from a node along its links. A walk asks for one link after the other and keeps no record
of where it has been, so it ends only because of how the links were set. In a tree that is built
step by step each walk ends, meets no node twice and passes what the children lists say: the
parents up to the top, and the siblings before and after the node's place.
-/
namespace CssSelect.Tree

open View (Leads)

variable {tree : Tree}

/-- However far a walk may go, it passes these nodes, one after the other, and ends behind them. -/
def Passes (walk : Nat → List NodeId) (nodes : List NodeId) : Prop :=
  ∀ limit, walk limit = nodes.take limit

/-- A walk that stops before it has to has passed all there is. -/
theorem Passes.eq_of_length_lt {walk : Nat → List NodeId} {nodes : List NodeId}
    (passes : Passes walk nodes) {limit : Nat} (short : (walk limit).length < limit) :
    nodes = walk limit := by
  rw [passes limit, List.length_take] at short
  rw [passes limit, List.take_of_length_le (by omega)]

/-- The parents of a node, nearest first, up to one that has no parent. -/
structure ParentLine (tree : Tree) (id : NodeId) (parents : List NodeId) : Prop where
  first : parents.head? = tree.parent? id
  next : ∀ place above, parents[place]? = some above → tree.parent? above = parents[place + 1]?

/-- What the walks along the three links of a node pass. -/
structure LinkWalks (tree : Tree) (id : NodeId) : Prop where
  upwards : ∃ parents, Passes (tree.ancestors id) parents ∧ tree.ParentLine id parents ∧
    (id :: parents).Nodup ∧ ∀ above, above ∈ parents ↔ Leads tree.parent? id above
  exists_place : ∀ parent, tree.parent? id = some parent →
    ∃ place : Nat, (tree.children parent)[place]? = some id
  sideways : ∀ parent place, (tree.children parent)[place]? = some id →
    Passes (tree.precedingSiblings id) ((tree.children parent).take place).reverse ∧
      Passes (tree.followingSiblings id) ((tree.children parent).drop (place + 1))
  alone : tree.parent? id = none →
    Passes (tree.precedingSiblings id) [] ∧ Passes (tree.followingSiblings id) []

section Follow

variable {step : NodeId → Option NodeId} {start : Option NodeId} {id : NodeId} {nodes : List NodeId}

theorem passes_none : Passes (fun limit => follow step limit none) [] := by
  intro limit
  cases limit <;> rfl

theorem Passes.behind (rest : Passes (fun limit => follow step limit (step id)) nodes) :
    Passes (fun limit => follow step limit (some id)) (id :: nodes) := by
  intro limit
  cases limit with
  | zero => rfl
  | succ limit => exact congrArg (id :: ·) (rest limit)

/-- Nodes each of which has a link to the one behind it, and the last to none, are passed by a walk
that starts at the first. -/
theorem passes_of_links (first : start = nodes.head?)
    (each : ∀ place id, nodes[place]? = some id → step id = nodes[place + 1]?) :
    Passes (fun limit => follow step limit start) nodes := by
  induction nodes generalizing start with
  | nil =>
    subst first
    exact passes_none
  | cons id nodes ih =>
    subst first
    have next : step id = nodes.head? := by
      rw [each 0 id rfl, List.head?_eq_getElem?]
      rfl
    exact Passes.behind (ih next fun place other found => each (place + 1) other found)

end Follow

/-! ## Upwards -/

/-- The way up ends at a node without a parent. -/
theorem WellLinked.exists_parentLine (linked : tree.WellLinked) (id : NodeId) :
    ∃ parents, tree.ParentLine id parents := by
  induction id using linked.wellFounded_parent.induction with
  | h id ih =>
    cases up : tree.parent? id with
    | none => exact ⟨[], up.symm, fun place above found => by cases found⟩
    | some parent =>
      obtain ⟨parents, first, next⟩ := ih parent up
      refine ⟨parent :: parents, up.symm, fun place above found => ?_⟩
      cases place with
      | zero =>
        cases found
        rw [← first, List.head?_eq_getElem?]
        rfl
      | succ place => exact next place above found

section Upwards

variable {id : NodeId} {parents : List NodeId}

theorem ParentLine.mem_of_leads {above : NodeId} (upTo : tree.ParentLine id parents)
    (path : Leads tree.parent? id above) : above ∈ parents := by
  induction path with
  | single taken => exact List.mem_of_head? (upTo.first.trans taken)
  | tail _ taken ih =>
    obtain ⟨place, found⟩ := List.mem_iff_getElem?.mp ih
    exact List.mem_of_getElem? ((upTo.next place _ found).symm.trans taken)

theorem ParentLine.passes (upTo : tree.ParentLine id parents) :
    Passes (tree.ancestors id) parents :=
  passes_of_links upTo.first.symm upTo.next

theorem ParentLine.ancestors_length (upTo : tree.ParentLine id parents) :
    tree.ancestors id parents.length = parents :=
  (upTo.passes _).trans List.take_length

theorem ParentLine.mem_iff (upTo : tree.ParentLine id parents) (above : NodeId) :
    above ∈ parents ↔ Leads tree.parent? id above := by
  refine ⟨fun member => ?_, upTo.mem_of_leads⟩
  rw [← upTo.ancestors_length] at member
  exact leads_of_mem_follow member

theorem WellLinked.nodup_parentLine (linked : tree.WellLinked) (upTo : tree.ParentLine id parents) :
    (id :: parents).Nodup := by
  rw [List.nodup_cons, upTo.mem_iff]
  refine ⟨linked.acyclic id, ?_⟩
  rw [← upTo.ancestors_length]
  exact nodup_follow linked.acyclic _ _

end Upwards

/-! ## Sideways -/

section Siblings

variable {parent id : NodeId} {place : Nat}

/-- The induction is on the place: the walk comes to the child before, and goes on as from there. -/
theorem WellLinked.passes_preceding (linked : tree.WellLinked)
    (found : (tree.children parent)[place]? = some id) :
    Passes (tree.precedingSiblings id) ((tree.children parent).take place).reverse := by
  induction place generalizing id with
  | zero =>
    have first := linked.previous_first parent id found
    intro limit
    rw [precedingSiblings, first]
    exact passes_none limit
  | succ place ih =>
    have inside : place < (tree.children parent).length :=
      Nat.lt_of_succ_lt (List.getElem?_eq_some_iff.mp found).1
    have before := List.getElem?_eq_getElem inside
    intro limit
    rw [precedingSiblings, linked.previous_later parent place id found, before,
      List.take_succ_eq_append_getElem inside, List.reverse_concat]
    exact Passes.behind (ih before) limit

theorem WellLinked.passes_following (linked : tree.WellLinked)
    (found : (tree.children parent)[place]? = some id) :
    Passes (tree.followingSiblings id) ((tree.children parent).drop (place + 1)) := by
  refine passes_of_links ?_ fun later other there => ?_
  · rw [linked.next parent place id found, List.head?_drop]
  · rw [List.getElem?_drop] at there
    rw [linked.next parent _ other there, List.getElem?_drop]
    rfl

end Siblings

theorem WellLinked.linkWalks (linked : tree.WellLinked) (id : NodeId) : tree.LinkWalks id where
  upwards := by
    obtain ⟨parents, upTo⟩ := linked.exists_parentLine id
    exact ⟨parents, upTo.passes, upTo, linked.nodup_parentLine upTo, upTo.mem_iff⟩
  exists_place _ up := linked.consistent.exists_place up
  sideways _ _ found := ⟨linked.passes_preceding found, linked.passes_following found⟩
  alone noParent := by
    obtain ⟨previous, next⟩ := linked.orphan id noParent
    constructor
    · intro limit
      rw [precedingSiblings, previous]
      exact passes_none limit
    · intro limit
      rw [followingSiblings, next]
      exact passes_none limit

/-- In a tree that is built step by step the walks along the links of any node end, and pass exactly
what the children lists say. Loaded trees are built so, and may be built on. -/
theorem linkWalks_of_built_or_loaded :
    (∀ tree : Tree, tree.WellBuilt → ∀ id, tree.LinkWalks id) ∧
      ∀ text tree, load text = .ok tree → tree.WellBuilt ∧ ∀ id, tree.LinkWalks id :=
  ⟨fun _ built => built.wellLinked.linkWalks,
    fun _ _ loaded => ⟨wellBuilt_of_load loaded, (wellBuilt_of_load loaded).wellLinked.linkWalks⟩⟩

/-- An element between two texts, inside another element. -/
def betweenTexts : Tree :=
  ((((empty.append root (.element ⟨"a", .empty⟩)).2.append 1 (.text "x")).2.append 1
    (.element ⟨"b", .empty⟩)).2.append 1 (.text "y")).2

theorem linkWalks_betweenTexts :
    betweenTexts.WellBuilt ∧ betweenTexts.LinkWalks 3 ∧
      Passes (betweenTexts.ancestors 3) [1, root] ∧
      Passes (betweenTexts.precedingSiblings 3) [2] ∧
      Passes (betweenTexts.followingSiblings 3) [4] := by
  have built : betweenTexts.WellBuilt :=
    (((WellBuilt.empty.append (by decide) _).append (by decide) _).append (by decide) _).append
      (by decide) _
  have walks := linkWalks_of_built_or_loaded.1 betweenTexts built 3
  obtain ⟨parents, passes, _⟩ := walks.upwards
  have whole : parents = [1, root] := passes.eq_of_length_lt (by decide : _ < 3)
  rw [whole] at passes
  obtain ⟨before, after⟩ := walks.sideways 1 1 rfl
  exact ⟨built, walks, passes, before, after⟩

end CssSelect.Tree
