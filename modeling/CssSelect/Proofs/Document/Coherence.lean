import CssSelect.Proofs.Document.Elements
import CssSelect.Proofs.Document.Loaded

/-!
The elements of a tree as matching and traversals are shown them. Texts, comments and the document
are skipped among parents, in children lists and on the way to either neighbour, each time on its
own; in a tree that is built step by step the four still describe one and the same forest of
elements, and every way up in it comes to an end.
-/
namespace CssSelect.Tree

variable {tree : Tree}

/-- The view leads to elements only, and what it says of parents, children and neighbours fits
together. -/
structure CoherentElements (tree : Tree) : Prop where
  parent_isElement : ∀ id above, tree.view.parent id = some above → tree.isElement above = true
  child_isElement : ∀ id, ∀ child ∈ tree.view.children id, tree.isElement child = true
  previous_isElement : ∀ id before, tree.view.previousSibling id = some before →
    tree.isElement before = true
  next_isElement : ∀ id after, tree.view.nextSibling id = some after → tree.isElement after = true
  parent_iff : ∀ child above, tree.isElement child = true → tree.isElement above = true →
    (tree.view.parent child = some above ↔ child ∈ tree.view.children above)
  children_sublist : ∀ id, (tree.view.children id).Sublist (tree.children id)
  mem_children_iff : ∀ id child,
    child ∈ tree.view.children id ↔ child ∈ tree.children id ∧ tree.isElement child = true
  nodup_children : ∀ id, (tree.view.children id).Nodup
  previous_first : ∀ id child, (tree.view.children id)[0]? = some child →
    tree.view.previousSibling child = none
  previous_later : ∀ id place child, (tree.view.children id)[place + 1]? = some child →
    tree.view.previousSibling child = (tree.view.children id)[place]?
  next : ∀ id place child, (tree.view.children id)[place]? = some child →
    tree.view.nextSibling child = (tree.view.children id)[place + 1]?
  parent_ends : WellFounded fun above id => tree.view.parent id = some above

/-- The view's parent is the parent, where that is an element. -/
theorem parentElement?_eq_some_iff {id above : NodeId} :
    tree.parentElement? id = some above ↔
      tree.parent? id = some above ∧ tree.isElement above = true :=
  Option.filter_eq_some_iff

theorem isElement_of_mem_childElements {id child : NodeId}
    (member : child ∈ tree.childElements id) : tree.isElement child = true :=
  (List.mem_filter.mp member).2

/-- Trees that are built step by step show their elements coherently, whatever texts and comments
stand among them and above them. Loaded trees are built so (`wellBuilt_of_load`), and stay so when
they are built on. -/
theorem coherentElements_of_wellBuilt (built : tree.WellBuilt) : tree.CoherentElements := by
  have linked := built.wellLinked
  constructor
  case parent_isElement => exact fun id above up => (parentElement?_eq_some_iff.mp up).2
  case child_isElement => exact fun id child member => isElement_of_mem_childElements member
  case previous_isElement =>
    intro id before left
    obtain ⟨above, _, member⟩ := linked.mem_childElements_of_previousElement? left
    exact isElement_of_mem_childElements member
  case next_isElement =>
    intro id after right
    obtain ⟨above, _, member⟩ := linked.mem_childElements_of_nextElement? right
    exact isElement_of_mem_childElements member
  case parent_iff =>
    intro child above element elementAbove
    change tree.parentElement? child = some above ↔ child ∈ tree.childElements above
    rw [parentElement?_eq_some_iff, mem_childElements_iff linked]
    exact ⟨fun up => ⟨element, up.1⟩, fun down => ⟨down.2, elementAbove⟩⟩
  case children_sublist => exact fun id => List.filter_sublist
  case mem_children_iff => exact fun id child => List.mem_filter
  case nodup_children => exact fun id => (linked.nodup_children id).filter _
  case previous_first =>
    intro id child first
    change tree.previousElement? child = none
    rw [linked.previousElement?_of_childElement first]
    rfl
  case previous_later =>
    intro id place child later
    obtain ⟨before, there, left⟩ := linked.exists_previousElement later
    exact left.trans there.symm
  case next => exact fun id place child found => linked.nextElement?_of_childElement found
  case parent_ends =>
    exact Subrelation.wf (fun up => (parentElement?_eq_some_iff.mp up).1) linked.wellFounded_parent

/-- Two elements with a text before the first and a comment between them; the comment has an
element below it. -/
def interspersed : Tree :=
  (((((empty.append root (.text "x")).2.append root (.element ⟨"a", .empty⟩)).2.append root
    (.comment "y")).2.append root (.element ⟨"b", .empty⟩)).2.append 3 (.element ⟨"c", .empty⟩)).2

/-- The comment is skipped between the two elements, and it is not shown as a parent. -/
theorem coherentElements_interspersed :
    interspersed.WellBuilt ∧ interspersed.CoherentElements ∧
      interspersed.view.children root = [2, 4] ∧
      interspersed.view.previousSibling 4 = some 2 ∧ interspersed.view.nextSibling 2 = some 4 ∧
      interspersed.view.children 3 = [5] ∧ interspersed.view.parent 5 = none := by
  have built : interspersed.WellBuilt := by
    refine WellBuilt.append (WellBuilt.append (WellBuilt.append (WellBuilt.append
      (WellBuilt.append .empty ?_ _) ?_ _) ?_ _) ?_ _) ?_ _
    all_goals decide
  have coherent := coherentElements_of_wellBuilt built
  exact ⟨built, coherent, rfl, coherent.previous_later root 0 4 rfl, coherent.next root 0 2 rfl,
    rfl, rfl⟩

end CssSelect.Tree
