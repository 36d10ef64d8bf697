import CssSelect.Proofs.Document.Append
import CssSelect.Proofs.Query.Agreement

/-!
Queries before and after a new child. The verdict on a node that was there before does not change,
as matching looks at ancestors and at siblings before a node only; so a search finds what it found
before, and the new node if that is matched. A node that is no element changes nothing at all.
-/
namespace CssSelect.Tree

open View (Preorder)

variable {tree : Tree} {parent root id : NodeId} {kind : NodeKind} {selectors : String}

/-- What queries give in a tree and in the one that it has grown to by the node `new`. -/
structure AnswersKept (tree grown : Tree) (new : NodeId) (kind : NodeKind) : Prop where
  verdict : ∀ id < tree.size, ∀ list : SelectorList,
    list.test grown.view id = list.test tree.view id
  found : ∀ root < tree.size, ∀ selectors found, grown.view.selectAll root selectors = .ok found →
    tree.view.selectAll root selectors = .ok (found.filter (· ≠ new))
  noElement : (∀ element, kind ≠ .element element) → ∀ root < tree.size, ∀ selectors,
    grown.view.selectAll root selectors = tree.view.selectAll root selectors

theorem WellLinked.test_append (linked : tree.WellLinked) (allocated : parent < tree.size)
    (old : id < tree.size) (list : SelectorList) :
    list.test (tree.append parent kind).2.view id = list.test tree.view id := by
  have grownLinked := linked.append allocated kind
  have grownOld : id < (tree.append parent kind).2.size := by
    rw [size_append]
    exact Nat.lt_succ_of_lt old
  rw [← SelectorList.test_childless, ← SelectorList.test_childless tree.view]
  exact ((linked.alike_append allocated kind).listTest linked.covers.childless
    grownLinked.covers.childless (List.mem_range.mpr old) (List.mem_range.mpr grownOld)
    ⟨old, rfl⟩ list).symm

theorem WellLinked.isMatch_append (linked : tree.WellLinked) (allocated : parent < tree.size)
    (old : id < tree.size) (selectors : String) :
    (tree.append parent kind).2.view.isMatch id selectors = tree.view.isMatch id selectors :=
  congrArg (View.query selectors) (funext fun list => linked.test_append allocated old list)

/-! ## Searches -/

/-- A new node is visited only if it is an element. -/
theorem exists_element_of_isElement_append
    (visible : (tree.append parent kind).2.isElement tree.size = true) :
    ∃ element, kind = .element element := by
  rw [isElement, element?_eq_bind, kind_append_new] at visible
  cases kind with
  | element element => exact ⟨element, rfl⟩
  | document | text _ | comment _ => cases visible

/-- A traversal visits elements, and these were allocated. -/
theorem WellLinked.isElement_of_mem (linked : tree.WellLinked) {nodes : List NodeId}
    (visited : tree.view.Traversal root nodes) (member : id ∈ nodes) : tree.isElement id = true :=
  ((linked.mem_preorder_iff (View.traversal_iff.mp visited).2).mp member).isElement

theorem WellLinked.isMatch_append_of_mem (linked : tree.WellLinked) (allocated : parent < tree.size)
    {nodes : List NodeId} (visited : tree.view.Traversal root nodes) :
    ∀ id ∈ nodes, (tree.append parent kind).2.view.isMatch id selectors =
      tree.view.isMatch id selectors := fun _ member =>
  linked.isMatch_append allocated (lt_size_of_isElement (linked.isElement_of_mem visited member))
    selectors

/-- What a search finds in the grown tree is, without the new node, what it found before. -/
theorem WellLinked.selectAll_of_append (linked : tree.WellLinked) (allocated : parent < tree.size)
    {list : SelectorList} (read : SelectorList.parse selectors = .ok list) {found : List NodeId}
    (run : (tree.append parent kind).2.view.selectAll root selectors = .ok found) :
    tree.view.selectAll root selectors = .ok (found.filter (· ≠ tree.size)) := by
  obtain ⟨nodes, grown, visited, grownVisited, left⟩ :=
    linked.exists_traversal_append allocated kind root
  have agree := visited.searchesAgree read
  have grownAgree := grownVisited.searchesAgree read
  have answers : ∀ id ∈ nodes, (tree.append parent kind).2.view.isMatch id selectors =
      tree.view.isMatch id selectors := linked.isMatch_append_of_mem allocated visited
  have decided : ∀ id ∈ nodes, ∃ matched, tree.view.isMatch id selectors = .ok matched := by
    intro id member
    rw [← answers id member]
    rw [← left] at member
    exact grownAgree.decided_of_selectAll run id (List.mem_of_mem_filter member)
  rw [(agree.decided decided).1, grownAgree.eq_filter run, List.filter_comm, left]
  congr 1
  refine List.filter_congr fun id member => ?_
  rw [answers id member]

/-- A traversal does not see what is no element, so it visits the same nodes as before. -/
theorem WellLinked.selectAll_append_of_noElement (linked : tree.WellLinked)
    (allocated : parent < tree.size) (noElement : ∀ element, kind ≠ .element element)
    {list : SelectorList} (read : SelectorList.parse selectors = .ok list) :
    (tree.append parent kind).2.view.selectAll root selectors =
      tree.view.selectAll root selectors := by
  obtain ⟨nodes, grown, visited, grownVisited, left⟩ :=
    linked.exists_traversal_append allocated kind root
  have same : grown = nodes := by
    rw [← left, eq_comm, List.filter_eq_self]
    intro id member
    rw [decide_eq_true_iff]
    rintro rfl
    obtain ⟨element, isElement⟩ := exists_element_of_isElement_append
      ((linked.append allocated kind).isElement_of_mem grownVisited member)
    exact noElement element isElement
  subst same
  exact (grownVisited.searchesAgree read).selectAll_congr (visited.searchesAgree read)
    (linked.isMatch_append_of_mem allocated visited)

/-- A new child leaves the answers about all others as they were. In a tree that is built step by
step, matching gives the same verdict or the same error on every node that was there before. A
search below such a node finds the same ones in the same order, once the new one is left out; if
the new one is no element, the searches have the same outcome. -/
theorem selectAll_append (built : tree.WellBuilt) (allocated : parent < tree.size)
    (kind : NodeKind) :
    ∃ grown, tree.append? parent kind = some (tree.size, grown) ∧
      tree.AnswersKept grown tree.size kind := by
  have linked := built.wellLinked
  refine ⟨_, append?_eq allocated kind, ?_⟩
  constructor
  case verdict => exact fun id old list => linked.test_append allocated old list
  case found =>
    intro root _ selectors found run
    cases read : SelectorList.parse selectors with
    | error error =>
      rw [View.selectAll, View.query_of_unreadable read] at run
      cases run
    | ok list => exact linked.selectAll_of_append allocated read run
  case noElement =>
    intro noElement root _ selectors
    cases read : SelectorList.parse selectors with
    | error error =>
      rw [View.selectAll, View.selectAll, View.query_of_unreadable read,
        View.query_of_unreadable read]
    | ok list => exact linked.selectAll_append_of_noElement allocated noElement read

/-- Two elements next to each other. -/
def siblings : Tree :=
  ((empty.append Tree.root (.element ⟨"a", .empty⟩)).2.append Tree.root (.element ⟨"b", .empty⟩)).2

/-- The same with a new element below the first one. -/
def siblingsGrown : Tree :=
  (siblings.append 1 (.element ⟨"c", .empty⟩)).2

/-- The new element comes between the two, and these are found as before. -/
theorem selectAll_append_siblings :
    siblings.WellBuilt ∧ 1 < siblings.size ∧
      siblings.append? 1 (.element ⟨"c", .empty⟩) = some (3, siblingsGrown) ∧
      siblings.AnswersKept siblingsGrown 3 (.element ⟨"c", .empty⟩) ∧
      siblingsGrown.view.selectAll Tree.root "a, b, c" = .ok [1, 3, 2] ∧
      siblings.view.selectAll Tree.root "a, b, c" = .ok [1, 2] := by
  have built : siblings.WellBuilt := (WellBuilt.empty.append (by decide) _).append (by decide) _
  have allocated : 1 < siblings.size := by decide
  obtain ⟨grown, added, kept⟩ := selectAll_append built allocated (.element ⟨"c", .empty⟩)
  have same : grown = siblingsGrown := by
    rw [append?_eq allocated] at added
    exact (congrArg Prod.snd (Option.some.inj added)).symm
  subst same
  have read : SelectorList.parse "a, b, c" = .ok ⟨[⟨⟨some (.tag "a"), []⟩, []⟩,
      ⟨⟨some (.tag "b"), []⟩, []⟩, ⟨⟨some (.tag "c"), []⟩, []⟩]⟩ := by decide +kernel
  have last : Preorder siblingsGrown.view [2] (2 :: ([] ++ [])) := .cons rfl Preorder.nil .nil
  have below : Preorder siblingsGrown.view [3] (3 :: ([] ++ [])) := .cons rfl Preorder.nil .nil
  have all : Preorder siblingsGrown.view [1, 2] (1 :: ([3] ++ [2])) := .cons rfl below last
  have visited : siblingsGrown.view.Traversal Tree.root [1, 3, 2] :=
    View.traversal_iff.mpr ⟨rfl, all⟩
  have matched : ∀ id ∈ [1, 3, 2], siblingsGrown.view.isMatch id "a, b, c" = .ok true := by
    decide +kernel
  have run : siblingsGrown.view.selectAll Tree.root "a, b, c" = .ok [1, 3, 2] := by
    rw [((visited.searchesAgree read).decided fun id member => ⟨true, matched id member⟩).1]
    simp [matched]
  exact ⟨built, allocated, added, kept, run, kept.found _ (by decide) _ _ run⟩

end CssSelect.Tree
