import CssSelect.Proofs.Query.Union

/-!
Searches inside the subtree of a node. The verdict on a node has nothing to do with the root of the
search, and the nodes below a visited one are visited right behind it; so a search from there has a
result whenever the wider one has, and its result is cut out of the wider one in one piece.
-/
namespace CssSelect.Tree

open View (Leads Preorder)

variable {tree : Tree} {root inner : NodeId} {nodes found : List NodeId} {selectors : String}

/-- A test that holds of one piece of a list and nowhere else picks that piece. -/
theorem filter_eq_block {α : Type} {front block back : List α} {keep : α → Bool}
    (nodup : (front ++ block ++ back).Nodup)
    (kept : ∀ item ∈ front ++ block ++ back, keep item = true ↔ item ∈ block) :
    (front ++ block ++ back).filter keep = block := by
  obtain ⟨nodupFront, _, apartBack⟩ := List.nodup_append.mp nodup
  obtain ⟨_, _, apartFront⟩ := List.nodup_append.mp nodupFront
  have noneBefore : front.filter keep = [] := by
    rw [List.filter_eq_nil_iff]
    intro item there
    rw [kept item (by simp [there])]
    exact fun inside => apartFront item there item inside rfl
  have noneBehind : back.filter keep = [] := by
    rw [List.filter_eq_nil_iff]
    intro item there
    rw [kept item (by simp [there])]
    exact fun inside => apartBack item (List.mem_append_right front inside) item there rfl
  have whole : block.filter keep = block := by
    rw [List.filter_eq_self]
    exact fun item inside => (kept item (by simp [inside])).mpr inside
  rw [List.filter_append, List.filter_append, noneBefore, noneBehind, whole, List.nil_append,
    List.append_nil]

open scoped Classical in
/-- A scoped search is a cut of the wider one. In a tree that is built step by step, as loaded trees
are (`wellBuilt_of_load`), let a search below `root` have a result. Then the search below any node
that is visited has one too: the piece of the wider result that consists of the nodes with this node
above them. It is decided by the verdicts on the single nodes, which are the same for every root. -/
theorem selectAll_scoped (built : tree.WellBuilt) (visited : tree.view.Traversal root nodes)
    (member : inner ∈ nodes) (run : tree.view.selectAll root selectors = .ok found) :
    ∃ cut, tree.view.selectAll inner selectors = .ok cut ∧ cut <:+: found ∧
      cut = found.filter (fun id => Leads tree.parent? id inner) ∧
      ∀ id, id ∈ cut ↔ tree.ElementBelow inner id ∧ tree.view.isMatch id selectors = .ok true := by
  have linked := built.wellLinked
  obtain ⟨list, read, _⟩ := View.exists_read_of_query run
  have agree := visited.searchesAgree read
  have decided := agree.decided_of_selectAll run
  have nodup := linked.nodup_preorder (View.traversal_iff.mp visited).2
  obtain ⟨before, block, behind, rfl, inside, below_iff⟩ := linked.exists_block visited member
  have blockDecided : ∀ id ∈ block, ∃ matched, tree.view.isMatch id selectors = .ok matched :=
    fun id there => decided id (by simp [there])
  have innerRun := ((inside.searchesAgree read).decided blockDecided).1
  refine ⟨_, innerRun, ?_, ?_, ((linked.searchesBelow read inner).result _ innerRun).2.2⟩
  · rw [agree.eq_filter run]
    exact List.IsInfix.filter _ ⟨before, behind, rfl⟩
  · have picked : (before ++ block ++ behind).filter
        (fun id => decide (Leads tree.parent? id inner)) = block :=
      filter_eq_block nodup fun id there => decide_eq_true_iff.trans (below_iff id there)
    rw [agree.eq_filter run, List.filter_comm, picked]

/-- An element with two others below it, the first of which has one of its own. -/
def layered : Tree :=
  ((((empty.append Tree.root (.element ⟨"a", .empty⟩)).2.append 1
    (.element ⟨"b", .empty⟩)).2.append 2 (.element ⟨"c", .empty⟩)).2.append 1
    (.element ⟨"d", .empty⟩)).2

theorem wellBuilt_layered : layered.WellBuilt :=
  (((WellBuilt.empty.append (by decide) _).append (by decide) _).append (by decide) _).append
    (by decide) _

/-- What `a > b > c, a > d` stands for. -/
def pathOrChild : SelectorList :=
  ⟨[⟨⟨some (.tag "a"), []⟩, [(.child, ⟨some (.tag "b"), []⟩), (.child, ⟨some (.tag "c"), []⟩)]⟩,
    ⟨⟨some (.tag "a"), []⟩, [(.child, ⟨some (.tag "d"), []⟩)]⟩]⟩

theorem traversal_layered : layered.view.Traversal Tree.root [1, 2, 3, 4] := by
  have leaf : Preorder layered.view (layered.view.children 3) [] := .nil
  have otherLeaf : Preorder layered.view (layered.view.children 4) [] := .nil
  have inside : Preorder layered.view (layered.view.children 2) (3 :: ([] ++ [])) :=
    .cons rfl leaf .nil
  have below : Preorder layered.view (layered.view.children 1) (2 :: ([3] ++ 4 :: ([] ++ []))) :=
    .cons rfl inside (.cons rfl otherLeaf .nil)
  have all : Preorder layered.view (layered.view.children Tree.root) (1 :: ([2, 3, 4] ++ [])) :=
    .cons rfl below .nil
  exact View.traversal_iff.mpr ⟨rfl, all⟩

theorem selectAll_layered :
    layered.view.selectAll Tree.root "a > b > c, a > d" = .ok [3, 4] := by
  have read : SelectorList.parse "a > b > c, a > d" = .ok pathOrChild := by decide +kernel
  have matched : ∀ id ∈ List.range layered.size,
      (∃ member ∈ pathOrChild.members, member.Chain layered.view id) →
      layered.view.isMatch id "a > b > c, a > d" = .ok true := by
    intro id allocated chain
    obtain ⟨verdict, answered, verdict_iff⟩ :=
      View.isMatch_columnFree wellBuilt_layered.wellLinked.covers allocated read (by decide)
    rwa [verdict_iff.mpr chain] at answered
  have upper : layered.view.Related .child 1 2 := rfl
  have lower : layered.view.Related .child 2 3 := rfl
  have other : layered.view.Related .child 1 4 := rfl
  have first : layered.view.isMatch 1 "a > b > c, a > d" = .ok false := by decide +kernel
  have second : layered.view.isMatch 2 "a > b > c, a > d" = .ok false := by decide +kernel
  have third : layered.view.isMatch 3 "a > b > c, a > d" = .ok true := by
    refine matched 3 (by decide) ⟨_, List.mem_cons_self, 1, by decide, ?_⟩
    exact .join upper (by decide) (.join lower (by decide) (.done 3))
  have fourth : layered.view.isMatch 4 "a > b > c, a > d" = .ok true := by
    refine matched 4 (by decide) ⟨_, List.mem_cons_of_mem _ List.mem_cons_self, 1, by decide, ?_⟩
    exact .join other (by decide) (.done 4)
  have agree := traversal_layered.searchesAgree read
  rw [(agree.decided (by simp [first, second, third, fourth])).1]
  simp [first, second, third, fourth]

/-- In the search from the middle the outermost element is still met. -/
theorem selectAll_scoped_layered :
    (layered.WellBuilt ∧ layered.view.Traversal Tree.root [1, 2, 3, 4] ∧ 2 ∈ [1, 2, 3, 4] ∧
      layered.view.selectAll Tree.root "a > b > c, a > d" = .ok [3, 4]) ∧
    layered.view.selectAll 2 "a > b > c, a > d" = .ok [3] ∧ [3] <:+: [3, 4] ∧
      ∀ id, id ∈ [3] ↔
        layered.ElementBelow 2 id ∧ layered.view.isMatch id "a > b > c, a > d" = .ok true := by
  have member : 2 ∈ [1, 2, 3, 4] := by decide
  have inside : Leads layered.parent? 3 2 := .single rfl
  have outside : ¬ Leads layered.parent? 4 2 := by
    rw [View.leads_iff_of_some (rfl : layered.parent? 4 = some 1)]
    rintro (same | circle)
    · cases same
    · exact wellBuilt_layered.wellLinked.acyclic 1 (circle.tail rfl)
  obtain ⟨cut, run, piece, kept, cut_iff⟩ :=
    selectAll_scoped wellBuilt_layered traversal_layered member selectAll_layered
  obtain rfl : cut = [3] := by
    rw [kept]
    simp [inside, outside]
  exact ⟨⟨wellBuilt_layered, traversal_layered, member, selectAll_layered⟩, run, piece, cut_iff⟩

end CssSelect.Tree
