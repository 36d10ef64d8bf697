import CssSelect.Proofs.Matching.Chain

/-!
Selectors without pseudo-classes and pseudo-elements. The first are met by every node and the second
by none, so both can be taken out of a list before it is matched: a member with a pseudo-element
anywhere is dropped, and from the other members the pseudo-classes are dropped. What is left matches
the same nodes.
-/
namespace CssSelect

variable {ν : Type}

namespace SubclassSelector

def isPseudoClass : SubclassSelector → Bool
  | pseudoClass _ => true
  | _ => false

def isPseudoElement : SubclassSelector → Bool
  | pseudoElement _ => true
  | _ => false

/-- A condition holds if it is no pseudo-element, and holds unless it is a pseudo-class. -/
theorem test_eq_true_iff {view : View ν} {node : ν} {subclass : SubclassSelector} :
    subclass.test view node = .ok true ↔ subclass.isPseudoElement = false ∧
      (subclass.isPseudoClass = false → subclass.test view node = .ok true) := by
  cases subclass <;> simp [isPseudoElement, isPseudoClass, test]

end SubclassSelector

namespace CompoundSelector

/-- Whether one of the conditions is a pseudo-element. -/
def hasPseudoElement (compound : CompoundSelector) : Bool :=
  compound.subclasses.any SubclassSelector.isPseudoElement

/-- The compound without its pseudo-classes. There may be no condition left. -/
def withoutPseudoClasses (compound : CompoundSelector) : CompoundSelector :=
  ⟨compound.type, compound.subclasses.filter fun subclass => !subclass.isPseudoClass⟩

theorem meets_iff_withoutPseudoClasses {view : View ν} {node : ν} {compound : CompoundSelector} :
    compound.Meets view node ↔
      compound.hasPseudoElement = false ∧ compound.withoutPseudoClasses.Meets view node := by
  have conditions : (∀ subclass ∈ compound.subclasses, subclass.test view node = .ok true) ↔
      (∀ subclass ∈ compound.subclasses, subclass.isPseudoElement = false) ∧
        ∀ subclass ∈ compound.subclasses, subclass.isPseudoClass = false →
          subclass.test view node = .ok true := by
    rw [← forall₂_and]
    exact forall₂_congr fun subclass _ => SubclassSelector.test_eq_true_iff
  rw [meets_iff_forall, meets_iff_forall, conditions, hasPseudoElement, withoutPseudoClasses]
  simp only [List.any_eq_false, Bool.not_eq_true, List.mem_filter, Bool.not_eq_true', and_imp]
  exact and_left_comm

end CompoundSelector

namespace ComplexSelector

/-- All compounds, from left to right. -/
def compounds (selector : ComplexSelector) : List CompoundSelector :=
  selector.head :: selector.tail.map Prod.snd

/-- Whether a pseudo-element stands anywhere in the selector. -/
def hasPseudoElement (selector : ComplexSelector) : Bool :=
  selector.compounds.any CompoundSelector.hasPseudoElement

/-- The selector without its pseudo-classes, with all its compounds and combinators. -/
def withoutPseudoClasses (selector : ComplexSelector) : ComplexSelector :=
  ⟨selector.head.withoutPseudoClasses,
    selector.tail.map fun link => (link.1, link.2.withoutPseudoClasses)⟩

end ComplexSelector

/-- The members without a pseudo-element, each without its pseudo-classes. -/
def SelectorList.withoutPseudos (list : SelectorList) : SelectorList :=
  ⟨(list.members.filter fun member => !member.hasPseudoElement).map
    ComplexSelector.withoutPseudoClasses⟩

theorem linked_iff_withoutPseudoClasses {view : View ν} {first last : ν}
    {tail : List (Combinator × CompoundSelector)} :
    Linked view first tail last ↔ (∀ link ∈ tail, link.2.hasPseudoElement = false) ∧
      Linked view first (tail.map fun link => (link.1, link.2.withoutPseudoClasses)) last := by
  induction tail generalizing first with
  | nil => simp
  | cons link tail ih =>
    obtain ⟨combinator, compound⟩ := link
    rw [List.map_cons, linked_cons_iff, linked_cons_iff, List.forall_mem_cons]
    have meets_iff : ∀ right, compound.Meets view right ↔
        compound.hasPseudoElement = false ∧ compound.withoutPseudoClasses.Meets view right :=
      fun _ => CompoundSelector.meets_iff_withoutPseudoClasses
    simp only [ih, meets_iff]
    constructor
    · rintro ⟨right, related, ⟨absent, meets⟩, others, rest⟩
      exact ⟨⟨absent, others⟩, right, related, meets, rest⟩
    · rintro ⟨⟨absent, others⟩, right, related, meets, rest⟩
      exact ⟨right, related, ⟨absent, meets⟩, others, rest⟩

namespace ComplexSelector

theorem hasPseudoElement_eq_false_iff {selector : ComplexSelector} :
    selector.hasPseudoElement = false ↔ selector.head.hasPseudoElement = false ∧
      ∀ link ∈ selector.tail, link.2.hasPseudoElement = false := by
  simp [hasPseudoElement, compounds]

/-- A chain needs compounds without pseudo-elements, and nothing of the pseudo-classes. -/
theorem chain_iff_withoutPseudoClasses {view : View ν} {node : ν} {selector : ComplexSelector} :
    selector.Chain view node ↔
      selector.hasPseudoElement = false ∧ selector.withoutPseudoClasses.Chain view node := by
  rw [hasPseudoElement_eq_false_iff]
  constructor
  · rintro ⟨first, meets, linked⟩
    obtain ⟨absent, meets⟩ := CompoundSelector.meets_iff_withoutPseudoClasses.mp meets
    obtain ⟨others, linked⟩ := linked_iff_withoutPseudoClasses.mp linked
    exact ⟨⟨absent, others⟩, first, meets, linked⟩
  · rintro ⟨⟨absent, others⟩, first, meets, linked⟩
    exact ⟨first, CompoundSelector.meets_iff_withoutPseudoClasses.mpr ⟨absent, meets⟩,
      linked_iff_withoutPseudoClasses.mpr ⟨others, linked⟩⟩

theorem ColumnFree.withoutPseudoClasses {selector : ComplexSelector} (free : selector.ColumnFree) :
    selector.withoutPseudoClasses.ColumnFree :=
  List.forall_mem_map.mpr free

end ComplexSelector

namespace SelectorList

variable {list : SelectorList}

theorem exists_chain_withoutPseudos_iff {view : View ν} {node : ν} :
    (∃ member ∈ list.withoutPseudos.members, member.Chain view node) ↔
      ∃ member ∈ list.members, member.Chain view node := by
  simp only [withoutPseudos, List.mem_map, List.mem_filter, Bool.not_eq_true']
  constructor
  · rintro ⟨_, ⟨member, ⟨inside, absent⟩, rfl⟩, chain⟩
    exact ⟨member, inside, ComplexSelector.chain_iff_withoutPseudoClasses.mpr ⟨absent, chain⟩⟩
  · rintro ⟨member, inside, chain⟩
    obtain ⟨absent, chain⟩ := ComplexSelector.chain_iff_withoutPseudoClasses.mp chain
    exact ⟨_, ⟨member, ⟨inside, absent⟩, rfl⟩, chain⟩

theorem columnFree_withoutPseudos (free : ∀ member ∈ list.members, member.ColumnFree) :
    ∀ member ∈ list.withoutPseudos.members, member.ColumnFree := by
  refine List.forall_mem_map.mpr fun member kept => ?_
  exact (free member (List.mem_of_mem_filter kept)).withoutPseudoClasses

/-- No member is left with a pseudo-class or a pseudo-element. -/
theorem noPseudo_withoutPseudos : ∀ member ∈ list.withoutPseudos.members,
    ∀ compound ∈ member.compounds, ∀ subclass ∈ compound.subclasses,
      subclass.isPseudoClass = false ∧ subclass.isPseudoElement = false := by
  refine List.forall_mem_map.mpr fun member kept compound inside subclass there => ?_
  have compounds : member.withoutPseudoClasses.compounds =
      member.compounds.map CompoundSelector.withoutPseudoClasses := by
    simp [ComplexSelector.compounds, ComplexSelector.withoutPseudoClasses]
  rw [compounds] at inside
  obtain ⟨original, original_mem, rfl⟩ := List.mem_map.mp inside
  obtain ⟨subclass_mem, noPseudoClass⟩ := List.mem_filter.mp there
  have absent : member.hasPseudoElement = false := by simpa using (List.mem_filter.mp kept).2
  have noPseudoElement := List.any_eq_false.mp absent original original_mem
  rw [Bool.not_eq_true, CompoundSelector.hasPseudoElement, List.any_eq_false] at noPseudoElement
  exact ⟨by simpa using noPseudoClass, by simpa using noPseudoElement subclass subclass_mem⟩

end SelectorList

/-- Pseudo-classes and pseudo-elements can be taken out before matching. In a list without column
combinators, drop the members that have a pseudo-element anywhere and drop the pseudo-classes from
the others: neither is left, and the answer at every node is the same. -/
theorem test_withoutPseudos [BEq ν] [Hashable ν] [LawfulBEq ν] [LawfulHashable ν] {view : View ν}
    {region : List ν} (covers : view.Covers region) {node : ν} (start : node ∈ region)
    {list : SelectorList} (free : ∀ member ∈ list.members, member.ColumnFree) :
    (∃ matched, list.test view node = .ok matched ∧
      list.withoutPseudos.test view node = .ok matched) ∧
    ∀ member ∈ list.withoutPseudos.members, ∀ compound ∈ member.compounds,
      ∀ subclass ∈ compound.subclasses,
        subclass.isPseudoClass = false ∧ subclass.isPseudoElement = false := by
  refine ⟨?_, SelectorList.noPseudo_withoutPseudos⟩
  obtain ⟨matched, tested, matched_iff⟩ :=
    SelectorList.walkMembers_outcome covers start list.members free
  obtain ⟨met, testedWithout, met_iff⟩ :=
    SelectorList.walkMembers_outcome covers start list.withoutPseudos.members
      (SelectorList.columnFree_withoutPseudos free)
  have same : met = matched := by
    rw [Bool.eq_iff_iff, met_iff, matched_iff, SelectorList.exists_chain_withoutPseudos_iff]
  exact ⟨matched, tested, same ▸ testedWithout⟩

/-- `a::before > b, :hover > b:not(a)`. -/
def pseudoList : SelectorList where
  members := [
    ⟨⟨some (.tag "a"), [.pseudoElement ⟨"before", none⟩]⟩, [(.child, ⟨some (.tag "b"), []⟩)]⟩,
    ⟨⟨none, [.pseudoClass ⟨"hover", none⟩]⟩,
      [(.child, ⟨some (.tag "b"), [.pseudoClass ⟨"not", some "a"⟩]⟩)]⟩]

/-- `* > b` is left. -/
theorem test_withoutPseudos_circle :
    (circle.view.Covers [0, 1] ∧ 1 ∈ [0, 1] ∧ ∀ member ∈ pseudoList.members, member.ColumnFree) ∧
      pseudoList.withoutPseudos = ⟨[⟨⟨none, []⟩, [(.child, ⟨some (.tag "b"), []⟩)]⟩]⟩ ∧
      pseudoList.test circle.view 1 = .ok true ∧
      pseudoList.withoutPseudos.test circle.view 1 = .ok true := by
  have start : 1 ∈ [0, 1] := by decide
  have free : ∀ member ∈ pseudoList.members, member.ColumnFree := by decide
  have tested : pseudoList.test circle.view 1 = .ok true := by decide +kernel
  obtain ⟨⟨matched, whole, without⟩, _⟩ := test_withoutPseudos circle_covers start free
  obtain rfl := Except.ok.inj (whole.symm.trans tested)
  exact ⟨⟨circle_covers, start, free⟩, rfl, tested, without⟩

end CssSelect
