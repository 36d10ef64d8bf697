import CssSelect.Proofs.Query.Scope

/-!
Looser selectors. A selector gets looser when a parent may be any ancestor, when the sibling right
before may be any sibling before, or when a compound loses a condition, wherever in the selector
that is. Each such change keeps every chain of the selector, so no node is lost by any number of
them, and a search finds at least what it found before, in the same order.
-/
namespace CssSelect

variable {ν : Type}

/-- Many steps are allowed where a single one was asked for. -/
inductive Combinator.Loosened : Combinator → Combinator → Prop
  | child : Loosened .child .descendant
  | nextSibling : Loosened .nextSibling .subsequentSibling

/-- A condition is taken out of a compound. -/
inductive CompoundSelector.Loosened : CompoundSelector → CompoundSelector → Prop
  | type (type : TypeSelector) (subclasses : List SubclassSelector) :
      Loosened ⟨some type, subclasses⟩ ⟨none, subclasses⟩
  | subclass (type : Option TypeSelector) (before : List SubclassSelector)
      (removed : SubclassSelector) (behind : List SubclassSelector) :
      Loosened ⟨type, before ++ removed :: behind⟩ ⟨type, before ++ behind⟩

/-- One combinator or one compound of a selector is loosened. -/
inductive ComplexSelector.Loosened : ComplexSelector → ComplexSelector → Prop
  | head {head looser : CompoundSelector} (tail : List (Combinator × CompoundSelector))
      (changed : head.Loosened looser) : Loosened ⟨head, tail⟩ ⟨looser, tail⟩
  | combinator (head : CompoundSelector) (before : List (Combinator × CompoundSelector))
      {combinator looser : Combinator} (compound : CompoundSelector)
      (behind : List (Combinator × CompoundSelector)) (changed : combinator.Loosened looser) :
      Loosened ⟨head, before ++ (combinator, compound) :: behind⟩
        ⟨head, before ++ (looser, compound) :: behind⟩
  | compound (head : CompoundSelector) (before : List (Combinator × CompoundSelector))
      (combinator : Combinator) {compound looser : CompoundSelector}
      (behind : List (Combinator × CompoundSelector)) (changed : compound.Loosened looser) :
      Loosened ⟨head, before ++ (combinator, compound) :: behind⟩
        ⟨head, before ++ (combinator, looser) :: behind⟩

/-! ## One change -/

theorem Combinator.Loosened.related {combinator looser : Combinator}
    (changed : combinator.Loosened looser) {view : View ν} {left right : ν}
    (related : view.Related combinator left right) : view.Related looser left right := by
  cases changed with
  | child | nextSibling => exact .single related

theorem Combinator.Loosened.ne_column {combinator looser : Combinator}
    (changed : combinator.Loosened looser) : looser ≠ .column := by
  cases changed <;> decide

theorem CompoundSelector.Loosened.meets {compound looser : CompoundSelector}
    (changed : compound.Loosened looser) {view : View ν} {node : ν}
    (meets : compound.Meets view node) : looser.Meets view node := by
  obtain ⟨type, conditions⟩ := meets_iff_forall.mp meets
  cases changed with
  | type => exact meets_iff_forall.mpr ⟨rfl, conditions⟩
  | subclass _ before removed behind =>
    refine meets_iff_forall.mpr ⟨type, fun subclass member => conditions subclass ?_⟩
    exact ((List.sublist_cons_self removed behind).append_left before).subset member

/-- A link of a chain may be replaced by one that asks for no more. The induction goes along the
links in front of it. -/
theorem Linked.replace {view : View ν} {first last : ν} {combinator looser : Combinator}
    {compound other : CompoundSelector} {before behind : List (Combinator × CompoundSelector)}
    (related : ∀ left right, view.Related combinator left right → view.Related looser left right)
    (meets : ∀ node, compound.Meets view node → other.Meets view node)
    (chain : Linked view first (before ++ (combinator, compound) :: behind) last) :
    Linked view first (before ++ (looser, other) :: behind) last := by
  induction before generalizing first with
  | nil =>
    obtain ⟨right, step, met, rest⟩ := linked_cons_iff.mp chain
    exact linked_cons_iff.mpr ⟨right, related first right step, meets right met, rest⟩
  | cons link before ih =>
    obtain ⟨right, step, met, rest⟩ := linked_cons_iff.mp chain
    exact linked_cons_iff.mpr ⟨right, step, met, ih rest⟩

namespace ComplexSelector

variable {selector looser : ComplexSelector}

/-- What one change keeps. -/
theorem Loosened.chain (changed : selector.Loosened looser) {view : View ν} {node : ν}
    (chain : selector.Chain view node) : looser.Chain view node := by
  obtain ⟨first, meets, linked⟩ := chain
  cases changed with
  | head _ changed => exact ⟨first, changed.meets meets, linked⟩
  | combinator _ _ _ _ changed =>
    exact ⟨first, meets, linked.replace (fun _ _ => changed.related) fun _ => id⟩
  | compound _ _ _ _ changed =>
    exact ⟨first, meets, linked.replace (fun _ _ => id) fun _ => changed.meets⟩

theorem Loosened.columnFree (changed : selector.Loosened looser) (free : selector.ColumnFree) :
    looser.ColumnFree := by
  cases changed with
  | head => exact free
  | combinator _ _ _ _ changed =>
    obtain ⟨inFront, here⟩ := List.forall_mem_append.mp free
    obtain ⟨_, behind⟩ := List.forall_mem_cons.mp here
    exact List.forall_mem_append.mpr ⟨inFront, List.forall_mem_cons.mpr ⟨changed.ne_column, behind⟩⟩
  | compound _ _ _ _ changed =>
    obtain ⟨inFront, here⟩ := List.forall_mem_append.mp free
    obtain ⟨here, behind⟩ := List.forall_mem_cons.mp here
    exact List.forall_mem_append.mpr ⟨inFront, List.forall_mem_cons.mpr ⟨here, behind⟩⟩

/-! ## Any number of changes -/

/-- What every number of changes keeps. -/
theorem chain_of_loosened (loosened : Relation.ReflTransGen Loosened selector looser)
    {view : View ν} {node : ν} (chain : selector.Chain view node) : looser.Chain view node := by
  induction loosened with
  | refl => exact chain
  | tail _ changed ih => exact changed.chain ih

theorem columnFree_of_loosened (loosened : Relation.ReflTransGen Loosened selector looser)
    (free : selector.ColumnFree) : looser.ColumnFree := by
  induction loosened with
  | refl => exact free
  | tail _ changed ih => exact changed.columnFree ih

end ComplexSelector

variable [BEq ν] [Hashable ν] [LawfulBEq ν] [LawfulHashable ν] {view : View ν} {region : List ν}

theorem ComplexSelector.test_of_loosened {selector looser : ComplexSelector}
    (covers : view.Covers region) (free : selector.ColumnFree)
    (loosened : Relation.ReflTransGen Loosened selector looser) {node : ν} (start : node ∈ region)
    (matched : selector.test view node = .ok true) : looser.test view node = .ok true := by
  obtain ⟨before, tested, before_iff⟩ := selector.test_decides covers start free
  obtain ⟨after, testedLooser, after_iff⟩ :=
    looser.test_decides covers start (columnFree_of_loosened loosened free)
  have chain := before_iff.mp (Except.ok.inj (tested.symm.trans matched))
  rw [testedLooser, after_iff.mpr (chain_of_loosened loosened chain)]

/-- The search for a single selector without column combinators finds the visited nodes that the
selector matches. -/
theorem View.Traversal.allMatches_singleton {root : ν} {nodes : List ν}
    (visited : view.Traversal root nodes) (covers : view.Covers region) (inside : nodes ⊆ region)
    {selector : ComplexSelector} (free : selector.ColumnFree) :
    view.allMatches root ⟨[selector]⟩ =
      .ok (nodes.filter fun node => selector.test view node = .ok true) := by
  rw [visited.allMatches_eq_filter]
  · simp only [SelectorList.test_singleton]
  · intro node member
    obtain ⟨matched, tested, _⟩ := selector.test_decides covers (inside member) free
    exact ⟨matched, (SelectorList.test_singleton selector).trans tested⟩

/-- A test that lets more of the items pass picks the same items and others among them. -/
theorem filter_sublist_filter {α : Type} {items : List α} {keep keepMore : α → Bool}
    (kept : ∀ item ∈ items, keep item = true → keepMore item = true) :
    (items.filter keep).Sublist (items.filter keepMore) := by
  have again : items.filter keep = (items.filter keepMore).filter keep := by
    rw [List.filter_filter]
    refine List.filter_congr fun item member => ?_
    cases passes : keep item with
    | true => rw [kept item member passes, Bool.and_self]
    | false => rw [Bool.false_and]
  rw [again]
  exact List.filter_sublist

/-- A looser selector loses no match: it matches every node that the selector matches, and what a
search with the selector finds is a part of what a search with the looser one finds, in the same
order. Both searches have a result. -/
theorem test_and_search_of_loosened (covers : view.Covers region)
    {selector looser : ComplexSelector} (free : selector.ColumnFree)
    (loosened : Relation.ReflTransGen ComplexSelector.Loosened selector looser) :
    (∀ node ∈ region, selector.test view node = .ok true → looser.test view node = .ok true) ∧
    ∀ root nodes, view.Traversal root nodes → nodes ⊆ region →
      ∃ found more, view.allMatches root ⟨[selector]⟩ = .ok found ∧
        view.allMatches root ⟨[looser]⟩ = .ok more ∧ found.Sublist more ∧
        found = nodes.filter (fun node => selector.test view node = .ok true) ∧
        more = nodes.filter fun node => looser.test view node = .ok true := by
  have kept : ∀ node ∈ region,
      selector.test view node = .ok true → looser.test view node = .ok true :=
    fun node start => ComplexSelector.test_of_loosened covers free loosened start
  refine ⟨kept, fun root nodes visited inside => ?_⟩
  have freeLooser := ComplexSelector.columnFree_of_loosened loosened free
  refine ⟨_, _, visited.allMatches_singleton covers inside free,
    visited.allMatches_singleton covers inside freeLooser, ?_, rfl, rfl⟩
  refine filter_sublist_filter fun node member matched => ?_
  rw [decide_eq_true_eq] at matched ⊢
  exact kept node (inside member) matched

/-- `a > b`. -/
def directlyInside : ComplexSelector where
  head := ⟨some (.tag "a"), []⟩
  tail := [(.child, ⟨some (.tag "b"), []⟩)]

/-- `a *`. -/
def anywhereInside : ComplexSelector where
  head := ⟨some (.tag "a"), []⟩
  tail := [(.descendant, ⟨none, []⟩)]

/-- The combinator is loosened first, and the compound behind it afterwards. -/
theorem loosened_layered :
    (Tree.layered.view.Covers (List.range Tree.layered.size) ∧ directlyInside.ColumnFree ∧
      Relation.ReflTransGen ComplexSelector.Loosened directlyInside anywhereInside ∧
      Tree.layered.view.Traversal Tree.root [1, 2, 3, 4]) ∧
    anywhereInside.test Tree.layered.view 2 = .ok true ∧
    Tree.layered.view.allMatches Tree.root ⟨[directlyInside]⟩ = .ok [2] ∧
    ∃ more, Tree.layered.view.allMatches Tree.root ⟨[anywhereInside]⟩ = .ok more ∧
      [2].Sublist more := by
  have covers := Tree.wellBuilt_layered.wellLinked.covers
  have free : directlyInside.ColumnFree := by decide
  have loosened : Relation.ReflTransGen ComplexSelector.Loosened directlyInside anywhereInside :=
    .tail (.single (.combinator _ [] _ [] .child)) (.compound _ [] _ [] (.type _ _))
  have first : directlyInside.test Tree.layered.view 1 = .ok false := by decide +kernel
  have second : directlyInside.test Tree.layered.view 2 = .ok true := by
    have step : Tree.layered.view.Related .child 1 2 := rfl
    have chain : directlyInside.Chain Tree.layered.view 2 :=
      ⟨1, by decide, .join step (by decide) (.done 2)⟩
    obtain ⟨matched, tested, matched_iff⟩ := directlyInside.test_decides covers
      (by decide : 2 ∈ List.range Tree.layered.size) free
    rw [tested, matched_iff.mpr chain]
  have third : directlyInside.test Tree.layered.view 3 = .ok false := by decide +kernel
  have fourth : directlyInside.test Tree.layered.view 4 = .ok false := by decide +kernel
  obtain ⟨kept, searches⟩ := test_and_search_of_loosened covers free loosened
  obtain ⟨found, more, run, runLooser, part, found_eq, _⟩ :=
    searches Tree.root [1, 2, 3, 4] Tree.traversal_layered (by decide)
  obtain rfl : found = [2] := by
    rw [found_eq]
    simp [first, second, third, fourth]
  exact ⟨⟨covers, free, loosened, Tree.traversal_layered⟩, kept 2 (by decide) second, run, more,
    runLooser, part⟩

end CssSelect
