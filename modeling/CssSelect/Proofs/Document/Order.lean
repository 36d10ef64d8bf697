import CssSelect.Proofs.Document.Elements

/-!
The order of a document. A node comes before its descendants, and before the siblings behind it
with all below these. A traversal visits its nodes in this order, each of them once, and they
are the elements that only elements separate from the root.
-/
namespace CssSelect.Tree

open View (Leads Preorder)

variable {tree : Tree}

/-- The node `id` is `top` or stands below it. -/
def Within (tree : Tree) (top id : NodeId) : Prop :=
  Relation.ReflTransGen (fun node above => tree.parent? node = some above) id top

/-- Document order: an ancestor comes before its descendants, and otherwise the order is that
of the two siblings in whose subtrees the nodes stand. -/
def Precedes (tree : Tree) (earlier later : NodeId) : Prop :=
  Leads tree.parent? later earlier ∨
    ∃ above left right, [left, right].Sublist (tree.children above) ∧
      tree.Within left earlier ∧ tree.Within right later

/-- An element and its parent, whatever that is. -/
def ElementChild (tree : Tree) (id above : NodeId) : Prop :=
  tree.isElement id = true ∧ tree.parent? id = some above

/-- An element below `root` such that all nodes between the two are elements. -/
def ElementBelow (tree : Tree) (root id : NodeId) : Prop :=
  Relation.TransGen tree.ElementChild id root

theorem ElementBelow.leads {root id : NodeId} (below : tree.ElementBelow root id) :
    Leads tree.parent? id root :=
  Relation.TransGen.mono (fun _ _ (child : tree.ElementChild _ _) => child.2) _ _ below

theorem ElementBelow.isElement {root id : NodeId} (below : tree.ElementBelow root id) :
    tree.isElement id = true := by
  obtain ⟨_, ⟨element, _⟩, _⟩ := Relation.TransGen.head'_iff.mp below
  exact element

/-! ## Siblings and their subtrees -/

theorem rightUnique_parent? (tree : Tree) :
    Relator.RightUnique fun node above => tree.parent? node = some above := by
  intro node first second isFirst isSecond
  exact Option.some.inj (isFirst.symm.trans isSecond)

/-- The ancestors of a node stand above each other, so two siblings have no subtree in common. -/
theorem WellLinked.eq_of_within (linked : tree.WellLinked) {above left right id : NodeId}
    (leftParent : tree.parent? left = some above) (rightParent : tree.parent? right = some above)
    (inLeft : tree.Within left id) (inRight : tree.Within right id) : left = right := by
  have apart : ∀ {first second : NodeId}, tree.parent? first = some above →
      tree.parent? second = some above → tree.Within second first → first = second := by
    intro first second firstParent secondParent path
    rcases Relation.ReflTransGen.cases_head_iff.mp path with same | ⟨next, up, rest⟩
    · exact same
    · obtain rfl := Option.some.inj (firstParent.symm.trans up)
      exact absurd (Relation.TransGen.tail' rest secondParent) (linked.acyclic _)
  -- Two ancestors of one node: the walk up from the node meets one of them first.
  rcases Relation.ReflTransGen.total_of_right_unique tree.rightUnique_parent? inLeft inRight with
    path | path
  · exact apart leftParent rightParent path
  · exact (apart rightParent leftParent path).symm

theorem WellLinked.parents_of_siblings (linked : tree.WellLinked) {above left right : NodeId}
    (ordered : [left, right].Sublist (tree.children above)) :
    tree.parent? left = some above ∧ tree.parent? right = some above := by
  have members := ordered.subset
  exact ⟨(linked.mem_children_iff above left).mp (members (by simp)),
    (linked.mem_children_iff above right).mp (members (by simp))⟩

theorem WellLinked.not_within_siblings (linked : tree.WellLinked) {above left right id : NodeId}
    (ordered : [left, right].Sublist (tree.children above)) (inLeft : tree.Within left id) :
    ¬ tree.Within right id := by
  intro inRight
  obtain ⟨leftParent, rightParent⟩ := linked.parents_of_siblings ordered
  have same := linked.eq_of_within leftParent rightParent inLeft inRight
  have different := ordered.nodup (linked.nodup_children above)
  rw [same] at different
  simp at different

theorem not_sublist_swap {left right : NodeId} {nodes : List NodeId} (different : nodes.Nodup)
    (ordered : [left, right].Sublist nodes) : ¬ [right, left].Sublist nodes := by
  intro swapped
  induction nodes with
  | nil => cases ordered
  | cons node nodes ih =>
    obtain ⟨absent, different⟩ := List.nodup_cons.mp different
    rcases List.cons_sublist_cons'.mp ordered with behind | ⟨rfl, behind⟩
    · rcases List.cons_sublist_cons'.mp swapped with behind' | ⟨rfl, _⟩
      · exact ih different behind behind'
      · exact absent (behind.subset (by simp))
    · rcases List.cons_sublist_cons'.mp swapped with behind' | ⟨rfl, behind'⟩
      · exact absent (behind'.subset (by simp))
      · exact absent (behind'.subset (by simp))

/-- Of two nodes in different subtrees of siblings only one comes before the other, at whatever
level the siblings stand: the siblings on one side have the other side's in their subtree. -/
theorem WellLinked.not_siblings_crossed (linked : tree.WellLinked)
    {above above' left left' right right' earlier later : NodeId}
    (ordered : [left, right].Sublist (tree.children above)) (inLeft : tree.Within left earlier)
    (inRight : tree.Within right later)
    (ordered' : [left', right'].Sublist (tree.children above'))
    (inLeft' : tree.Within left' later) (inRight' : tree.Within right' earlier) : False := by
  obtain ⟨leftParent, rightParent⟩ := linked.parents_of_siblings ordered
  obtain ⟨leftParent', rightParent'⟩ := linked.parents_of_siblings ordered'
  have apart : left ≠ right' := by
    rintro rfl
    obtain rfl := Option.some.inj (leftParent.symm.trans rightParent')
    obtain rfl := linked.eq_of_within rightParent leftParent' inRight inLeft'
    exact not_sublist_swap (linked.nodup_children above) ordered ordered'
  rcases Relation.ReflTransGen.total_of_right_unique tree.rightUnique_parent? inLeft inRight' with
    path | path
  · obtain same | ⟨next, up, rest⟩ := Relation.ReflTransGen.cases_head_iff.mp path
    · exact apart same
    · obtain rfl := Option.some.inj (leftParent.symm.trans up)
      exact linked.not_within_siblings ordered' inLeft' (inRight.trans (.head rightParent rest))
  · obtain same | ⟨next, up, rest⟩ := Relation.ReflTransGen.cases_head_iff.mp path
    · exact apart same.symm
    · obtain rfl := Option.some.inj (rightParent'.symm.trans up)
      exact linked.not_within_siblings ordered (inLeft'.trans (.head leftParent' rest)) inRight

/-- Of two nodes at most one comes before the other. -/
theorem WellLinked.precedes_asymm (linked : tree.WellLinked) {earlier later : NodeId}
    (first : tree.Precedes earlier later) : ¬ tree.Precedes later earlier := by
  rcases first with below | ⟨above, left, right, ordered, inLeft, inRight⟩
  · rintro (circle | ⟨above, left, right, ordered, inLeft, inRight⟩)
    · exact linked.acyclic _ (below.trans circle)
    · exact linked.not_within_siblings ordered inLeft (below.to_reflTransGen.trans inRight)
  · rintro (below | ⟨above', left', right', ordered', inLeft', inRight'⟩)
    · exact linked.not_within_siblings ordered inLeft (below.to_reflTransGen.trans inRight)
    · exact linked.not_siblings_crossed ordered inLeft inRight ordered' inLeft' inRight'

/-- No node comes before itself. -/
theorem WellLinked.not_precedes_self (linked : tree.WellLinked) (id : NodeId) :
    ¬ tree.Precedes id id :=
  fun circle => linked.precedes_asymm circle circle

theorem WellLinked.nodup_of_ordered (linked : tree.WellLinked) {nodes : List NodeId}
    (ordered : nodes.Pairwise tree.Precedes) : nodes.Nodup := by
  refine ordered.imp ?_
  rintro earlier later before rfl
  exact linked.not_precedes_self earlier before

/-! ## Traversals -/

/-- Children and all below them are visited in document order, each in the subtree of a child, in
every view that shows no more children than the tree has. The induction is on the forest; at each
node its subtree comes in between. -/
theorem WellLinked.preorder_ordered (linked : tree.WellLinked) {view : View NodeId}
    (narrow : ∀ id, (view.children id).Sublist (tree.children id)) {forest nodes : List NodeId}
    (all : Preorder view forest nodes) {above : NodeId}
    (siblings : forest.Sublist (tree.children above)) :
    nodes.Pairwise tree.Precedes ∧ ∀ id ∈ nodes, ∃ top ∈ forest, tree.Within top id := by
  induction all generalizing above with
  | nil => exact ⟨.nil, fun _ member => absurd member List.not_mem_nil⟩
  | @cons node others below behind _ _ _ ihInner ihRest =>
    obtain ⟨innerOrdered, innerWithin⟩ := ihInner (narrow node)
    obtain ⟨restOrdered, restWithin⟩ := ihRest ((List.sublist_cons_self node others).trans siblings)
    have inner : ∀ id ∈ below, Leads tree.parent? id node := by
      intro id member
      obtain ⟨top, child, path⟩ := innerWithin id member
      exact Relation.TransGen.tail' path
        ((linked.mem_children_iff node top).mp ((narrow node).subset child))
    have rest : ∀ id ∈ behind, ∀ earlier, tree.Within node earlier → tree.Precedes earlier id := by
      intro id member earlier inNode
      obtain ⟨top, sibling, path⟩ := restWithin id member
      have ordered : [node, top].Sublist (node :: others) :=
        List.Sublist.cons_cons node (List.singleton_sublist.mpr sibling)
      exact Or.inr ⟨above, node, top, ordered.trans siblings, inNode, path⟩
    constructor
    -- The node comes first, then all below it, then what is below the siblings behind it.
    · rw [List.pairwise_cons, List.pairwise_append]
      refine ⟨fun id member => ?_, innerOrdered, restOrdered, fun earlier inside id member => ?_⟩
      · rcases List.mem_append.mp member with member | member
        · exact Or.inl (inner id member)
        · exact rest id member node .refl
      · exact rest id member earlier (inner earlier inside).to_reflTransGen
    · intro id member
      rcases List.mem_cons.mp member with rfl | member
      · exact ⟨id, List.mem_cons_self, .refl⟩
      · rcases List.mem_append.mp member with member | member
        · exact ⟨node, List.mem_cons_self, (inner id member).to_reflTransGen⟩
        · obtain ⟨top, sibling, path⟩ := restWithin id member
          exact ⟨top, List.mem_cons_of_mem _ sibling, path⟩

/-- A traversal visits exactly the elements that only elements separate from its root. -/
theorem WellLinked.mem_preorder_iff (linked : tree.WellLinked) {root id : NodeId}
    {nodes : List NodeId} (all : Preorder tree.view (tree.childElements root) nodes) :
    id ∈ nodes ↔ tree.ElementBelow root id := by
  have child_iff : ∀ above child, child ∈ tree.view.children above ↔ tree.ElementChild child above :=
    fun _ _ => mem_childElements_iff linked
  rw [all.mem_iff, ElementBelow, ← Relation.transGen_swap, Relation.TransGen.head'_iff]
  simp only [mem_childElements_iff linked, child_iff]
  rfl

/-- A traversal goes in document order. -/
theorem WellLinked.precedes_preorder (linked : tree.WellLinked) {root : NodeId}
    {nodes : List NodeId} (all : Preorder tree.view (tree.childElements root) nodes) :
    nodes.Pairwise tree.Precedes :=
  (linked.preorder_ordered (fun _ => List.filter_sublist) all List.filter_sublist).1

/-- No node is visited twice. -/
theorem WellLinked.nodup_preorder (linked : tree.WellLinked) {root : NodeId} {nodes : List NodeId}
    (all : Preorder tree.view (tree.childElements root) nodes) : nodes.Nodup :=
  linked.nodup_of_ordered (linked.precedes_preorder all)

/-- A traversal of a tree whose links agree: it ends, in document order and without a
repetition, with the elements that only elements separate from its root. -/
theorem WellLinked.exists_traversal (linked : tree.WellLinked) (root : NodeId) :
    ∃ nodes, tree.view.Traversal root nodes ∧ nodes.Pairwise tree.Precedes ∧ nodes.Nodup ∧
      root ∉ nodes ∧ ∀ id, id ∈ nodes ↔ tree.ElementBelow root id := by
  obtain ⟨nodes, all⟩ := linked.exists_preorder root
  refine ⟨nodes, View.traversal_iff.mpr ⟨rfl, all⟩, linked.precedes_preorder all,
    linked.nodup_preorder all, ?_, fun id => linked.mem_preorder_iff all⟩
  intro member
  exact linked.acyclic root ((linked.mem_preorder_iff all).mp member).leads

/-! ## Traversals inside others -/

/-- What stands below a visited node and is visited itself has only elements between it and that
node. The induction follows the way up from the lower node. -/
theorem WellLinked.elementBelow_of_leads (linked : tree.WellLinked) {root inner id : NodeId}
    (outer : tree.ElementBelow root inner) (below : tree.ElementBelow root id)
    (path : Leads tree.parent? id inner) : tree.ElementBelow inner id := by
  induction below using Relation.TransGen.head_induction_on with
  | single taken =>
    -- The way up from `id` is at the root at once, and `inner` is not above that.
    rcases (View.leads_iff_of_some taken.2 inner).mp path with rfl | up
    · exact absurd outer.leads (linked.acyclic _)
    · exact absurd (up.trans outer.leads) (linked.acyclic root)
  | head taken _ ih =>
    rcases (View.leads_iff_of_some taken.2 inner).mp path with rfl | up
    · exact .single taken
    · exact .head taken (ih up)

/-- The traversal of a visited node is a block of the traversal that visits it, right behind that
node: the nodes that have it as an ancestor. -/
theorem WellLinked.exists_block (linked : tree.WellLinked) {root inner : NodeId}
    {nodes : List NodeId} (visited : tree.view.Traversal root nodes) (member : inner ∈ nodes) :
    ∃ before block behind, nodes = before ++ block ++ behind ∧ tree.view.Traversal inner block ∧
      ∀ id ∈ nodes, Leads tree.parent? id inner ↔ id ∈ block := by
  obtain ⟨_, all⟩ := View.traversal_iff.mp visited
  obtain ⟨before, block, behind, rfl, inside⟩ := all.exists_below member
  have outer := (linked.mem_preorder_iff all).mp member
  refine ⟨before ++ [inner], block, behind, by simp, View.traversal_iff.mpr ⟨rfl, inside⟩, ?_⟩
  intro id there
  rw [linked.mem_preorder_iff inside]
  have below := (linked.mem_preorder_iff all).mp there
  exact ⟨linked.elementBelow_of_leads outer below, ElementBelow.leads⟩

end CssSelect.Tree
