import CssSelect.Matching.Complex
import CssSelect.Proofs.Matching.Reach
import CssSelect.Table

/-!
What it means that a complex selector matches a node, said without candidate sets:
there are nodes, one for each compound, that meet the compounds and are related by
the combinators between them, and the last is the node in question. Matching from
right to left agrees with it: the candidates at a combinator are exactly the nodes
from which the compounds to its right can be completed.
-/
namespace CssSelect

variable {ν : Type}

/-- The node meets the compound. -/
def CompoundSelector.Meets (compound : CompoundSelector) (view : View ν) (node : ν) : Prop :=
  compound.test view node = .ok true

instance (compound : CompoundSelector) (view : View ν) (node : ν) :
    Decidable (compound.Meets view node) :=
  inferInstanceAs (Decidable (compound.test view node = .ok true))

/-- Nodes for the compounds of a tail: each meets its compound and is related to the node
before it, from `first`, which stands before the tail, to the last one. -/
inductive Linked (view : View ν) : ν → List (Combinator × CompoundSelector) → ν → Prop
  | done (node : ν) : Linked view node [] node
  | join {left right last : ν} {combinator : Combinator} {compound : CompoundSelector}
      {tail : List (Combinator × CompoundSelector)}
      (related : view.Related combinator left right) (meets : compound.Meets view right)
      (rest : Linked view right tail last) : Linked view left ((combinator, compound) :: tail) last

namespace ComplexSelector

/-- No column combinator joins the compounds. -/
def ColumnFree (selector : ComplexSelector) : Prop :=
  ∀ link ∈ selector.tail, link.1 ≠ .column

instance (selector : ComplexSelector) : Decidable selector.ColumnFree :=
  inferInstanceAs (Decidable (∀ link ∈ selector.tail, link.1 ≠ .column))

/-- There is a chain of nodes for the compounds that starts at the head and ends at `node`. -/
def Chain (selector : ComplexSelector) (view : View ν) (node : ν) : Prop :=
  ∃ first, selector.head.Meets view first ∧ Linked view first selector.tail node

end ComplexSelector

theorem linked_cons_iff {view : View ν} {first last : ν} {combinator : Combinator}
    {compound : CompoundSelector} {tail : List (Combinator × CompoundSelector)} :
    Linked view first ((combinator, compound) :: tail) last ↔
      ∃ right, view.Related combinator first right ∧ compound.Meets view right ∧
        Linked view right tail last := by
  constructor
  · intro chain
    cases chain with
    | join related meets rest => exact ⟨_, related, meets, rest⟩
  · rintro ⟨right, related, meets, rest⟩
    exact .join related meets rest

theorem linked_append_iff {view : View ν} {first last : ν} {combinator : Combinator}
    {compound : CompoundSelector} {tail : List (Combinator × CompoundSelector)} :
    Linked view first (tail ++ [(combinator, compound)]) last ↔
      compound.Meets view last ∧
        ∃ left, view.Related combinator left last ∧ Linked view first tail left := by
  induction tail generalizing first with
  | nil =>
    constructor
    · rintro (_ | ⟨related, meets, ⟨_⟩⟩)
      exact ⟨meets, first, related, .done first⟩
    · rintro ⟨meets, left, related, ⟨_⟩⟩
      exact .join related meets (.done last)
  | cons link tail ih =>
    constructor
    · rintro (_ | ⟨related, meets, rest⟩)
      obtain ⟨lastMeets, left, lastRelated, between⟩ := ih.mp rest
      exact ⟨lastMeets, left, lastRelated, .join related meets between⟩
    · rintro ⟨lastMeets, left, lastRelated, ⟨_⟩ | ⟨related, meets, between⟩⟩
      exact .join related meets (ih.mpr ⟨lastMeets, left, lastRelated, between⟩)

/-- A chain with one more compound behind it. -/
theorem ComplexSelector.chain_concat_iff {view : View ν} {node : ν} {head : CompoundSelector}
    {combinator : Combinator} {compound : CompoundSelector}
    {tail : List (Combinator × CompoundSelector)} :
    Chain ⟨head, tail ++ [(combinator, compound)]⟩ view node ↔
      compound.Meets view node ∧
        ∃ left, view.Related combinator left node ∧ Chain ⟨head, tail⟩ view left := by
  simp only [Chain, linked_append_iff]
  constructor
  · rintro ⟨first, headMeets, meets, left, related, between⟩
    exact ⟨meets, left, related, first, headMeets, between⟩
  · rintro ⟨meets, left, related, first, headMeets, between⟩
    exact ⟨first, headMeets, meets, left, related, between⟩

namespace CompoundSelector

theorem testAll_total {view : View ν} {node : ν} (known : view.knows node = true)
    (subclasses : List SubclassSelector) : ∃ met, testAll view node subclasses = .ok met := by
  induction subclasses with
  | nil => exact ⟨true, rfl⟩
  | cons subclass others ih =>
    have first : ∃ met, subclass.test view node = .ok met := by
      cases subclass <;> simp [SubclassSelector.test, View.ask_of_knows known]
    obtain ⟨met, first⟩ := first
    cases met with
    | false => exact ⟨false, by simp only [testAll, first]⟩
    | true =>
      obtain ⟨met, rest⟩ := ih
      exact ⟨met, by simp only [testAll, first, rest]⟩

/-- A compound can be decided at every node that the view can be asked about. -/
theorem test_total {view : View ν} {node : ν} (known : view.knows node = true)
    (compound : CompoundSelector) : ∃ met, compound.test view node = .ok met := by
  have first : ∃ met, testType view node compound.type = .ok met := by
    unfold testType
    split
    · exact ⟨true, rfl⟩
    · exact ⟨true, rfl⟩
    · exact ⟨_, View.ask_of_knows known _⟩
  obtain ⟨met, first⟩ := first
  cases met with
  | false => exact ⟨false, by simp only [test, first]⟩
  | true =>
    obtain ⟨met, rest⟩ := testAll_total known compound.subclasses
    exact ⟨met, by simp only [test, first, rest]⟩

theorem testAll_eq_true_iff {view : View ν} {node : ν} {subclasses : List SubclassSelector} :
    testAll view node subclasses = .ok true ↔
      ∀ subclass ∈ subclasses, subclass.test view node = .ok true := by
  induction subclasses with
  | nil => simp [testAll]
  | cons subclass others ih =>
    rw [testAll, List.forall_mem_cons, ← ih]
    cases subclass.test view node with
    | error halt => simp
    | ok met => cases met <;> simp

/-- A compound is met by the nodes that meet each of its conditions. -/
theorem meets_iff_forall {view : View ν} {node : ν} {compound : CompoundSelector} :
    compound.Meets view node ↔ testType view node compound.type = .ok true ∧
      ∀ subclass ∈ compound.subclasses, subclass.test view node = .ok true := by
  rw [Meets, test, ← testAll_eq_true_iff]
  cases testType view node compound.type with
  | error halt => simp
  | ok met => cases met <;> simp

variable {view : View ν} (compound : CompoundSelector)

theorem keep_eq_filter {nodes : List ν} (known : ∀ node ∈ nodes, view.knows node = true) :
    compound.keep view nodes = .ok (nodes.filter fun node => compound.Meets view node) := by
  induction nodes with
  | nil => rfl
  | cons node nodes ih =>
    obtain ⟨met, first⟩ := compound.test_total (known node List.mem_cons_self)
    have rest := ih fun other inside => known other (List.mem_cons_of_mem _ inside)
    cases met with
    | false =>
      have fails : ¬ compound.Meets view node := by
        rw [Meets, first]
        decide
      simp only [keep, first, rest, List.filter_cons, fails, decide_false, Bool.false_eq_true, if_false]
    | true =>
      have meets : compound.Meets view node := first
      simp only [keep, first, rest, List.filter_cons, meets, decide_true, if_true]

theorem testAny_iff {nodes : List ν} (known : ∀ node ∈ nodes, view.knows node = true) :
    ∃ met, compound.testAny view nodes = .ok met ∧
      (met = true ↔ ∃ node ∈ nodes, compound.Meets view node) := by
  induction nodes with
  | nil => exact ⟨false, rfl, by simp⟩
  | cons node nodes ih =>
    obtain ⟨met, first⟩ := compound.test_total (known node List.mem_cons_self)
    obtain ⟨later, rest, later_iff⟩ :=
      ih fun other inside => known other (List.mem_cons_of_mem _ inside)
    cases met with
    | true =>
      have meets : compound.Meets view node := first
      exact ⟨true, by simp only [testAny, first], by simp [meets]⟩
    | false =>
      have fails : ¬ compound.Meets view node := by
        rw [Meets, first]
        decide
      exact ⟨later, by simp only [testAny, first, rest], by simp [later_iff, fails]⟩

end CompoundSelector

variable [BEq ν] [Hashable ν] [LawfulBEq ν] [LawfulHashable ν] {view : View ν} {region : List ν}

namespace ComplexSelector

/-- A step across a combinator, whatever stands further left. It finds each node once that is
related to a candidate which meets the compound; without such a candidate the walk is over. -/
theorem walkLeft_step (covers : view.Covers region) {combinator : Combinator}
    (meaning : combinator ≠ .column) (compound : CompoundSelector) {candidates : List ν}
    (inside : candidates ⊆ region) :
    ∃ kept found, kept = candidates.filter (fun node => compound.Meets view node) ∧
      found.Nodup ∧ found ⊆ region ∧
      (∀ left, left ∈ found ↔ ∃ right ∈ kept, view.Related combinator left right) ∧
      ∀ head joined, walkLeft view head ((combinator, compound) :: joined) candidates =
        if kept = [] then .ending (.ok false)
        else (walkLeft view head joined found).after
          ⟨compound, combinator, kept.length, found.length⟩ := by
  have kept := compound.keep_eq_filter fun node member => covers.knows node (inside member)
  have keptInside : (candidates.filter fun node => compound.Meets view node) ⊆ region :=
    fun node member => inside (List.mem_of_mem_filter member)
  obtain ⟨found, collected, nodup, foundInside, found_iff⟩ :=
    View.collect_finds covers keptInside meaning
  refine ⟨_, found, rfl, nodup, foundInside, found_iff, fun head joined => ?_⟩
  cases survivors : candidates.filter fun node => compound.Meets view node with
  | nil =>
    simp only [walkLeft, kept, survivors]
    rfl
  | cons survivor others =>
    rw [survivors] at collected
    simp only [walkLeft, kept, survivors, collected, List.cons_ne_nil, if_false]

/-- The candidates in front of the compounds in `joined` end in a match exactly if one of them
ends a chain for these compounds. The induction goes from the subject to the head. -/
theorem walkLeft_outcome (covers : view.Covers region) (head : CompoundSelector)
    (joined : List (Combinator × CompoundSelector)) (free : ∀ link ∈ joined, link.1 ≠ .column)
    {candidates : List ν} (inside : candidates ⊆ region) :
    ∃ matched, (walkLeft view head joined candidates).outcome = .ok matched ∧
      (matched = true ↔ ∃ node ∈ candidates, Chain ⟨head, joined.reverse⟩ view node) := by
  induction joined generalizing candidates with
  | nil =>
    obtain ⟨met, tested, met_iff⟩ :=
      head.testAny_iff fun node member => covers.knows node (inside member)
    refine ⟨met, tested, ?_⟩
    rw [met_iff]
    constructor
    · rintro ⟨node, member, meets⟩
      exact ⟨node, member, node, meets, .done node⟩
    · rintro ⟨node, member, first, meets, ⟨_⟩⟩
      exact ⟨node, member, meets⟩
  | cons link joined ih =>
    obtain ⟨combinator, compound⟩ := link
    obtain ⟨meaning, laterFree⟩ := List.forall_mem_cons.mp free
    obtain ⟨kept, found, isKept, _, foundInside, found_iff, step⟩ :=
      walkLeft_step covers meaning compound inside
    obtain ⟨matched, outcome, matched_iff⟩ := ih laterFree foundInside
    have kept_iff : ∀ node, node ∈ kept ↔ node ∈ candidates ∧ compound.Meets view node := by
      simp only [isKept, List.mem_filter, decide_eq_true_eq, implies_true]
    have chain_iff : matched = true ↔
        ∃ node ∈ candidates, Chain ⟨head, ((combinator, compound) :: joined).reverse⟩ view node := by
      simp only [matched_iff, found_iff, kept_iff, List.reverse_cons, chain_concat_iff]
      constructor
      · rintro ⟨left, ⟨right, ⟨member, meets⟩, related⟩, chain⟩
        exact ⟨right, member, meets, left, related, chain⟩
      · rintro ⟨right, member, meets, left, related, chain⟩
        exact ⟨left, ⟨right, ⟨member, meets⟩, related⟩, chain⟩
    refine ⟨matched, ?_, chain_iff⟩
    rw [step]
    split
    · next none =>
      have noMatch : matched = false := by
        rw [← Bool.not_eq_true, matched_iff]
        rintro ⟨left, member, _⟩
        obtain ⟨right, survived, _⟩ := (found_iff left).mp member
        rw [none] at survived
        cases survived
      rw [noMatch]
      rfl
    · exact outcome

/-- A selector without column combinators is decided at every node of a finite region. -/
theorem test_decides (covers : view.Covers region) {node : ν} (start : node ∈ region)
    (selector : ComplexSelector) (free : selector.ColumnFree) :
    ∃ matched, selector.test view node = .ok matched ∧
      (matched = true ↔ selector.Chain view node) := by
  have freeReversed : ∀ link ∈ selector.tail.reverse, link.1 ≠ .column :=
    fun link member => free link (List.mem_reverse.mp member)
  have inside : [node] ⊆ region := by simpa using start
  obtain ⟨matched, outcome, matched_iff⟩ :=
    walkLeft_outcome covers selector.head selector.tail.reverse freeReversed inside
  refine ⟨matched, outcome, ?_⟩
  rw [matched_iff, List.reverse_reverse]
  simp only [List.mem_singleton, exists_eq_left]

end ComplexSelector

namespace SelectorList

/-- Members are tried in order; as none of them fails to answer, some member decides. -/
theorem walkMembers_outcome (covers : view.Covers region) {node : ν} (start : node ∈ region)
    (members : List ComplexSelector) (free : ∀ member ∈ members, member.ColumnFree) :
    ∃ matched, (walkMembers view node members).outcome = .ok matched ∧
      (matched = true ↔ ∃ member ∈ members, member.Chain view node) := by
  induction members with
  | nil => exact ⟨false, rfl, by simp⟩
  | cons selector others ih =>
    obtain ⟨matched, tested, matched_iff⟩ :=
      selector.test_decides covers start (free _ List.mem_cons_self)
    have outcome : (selector.walk view node).outcome = .ok matched := tested
    cases matched with
    | true =>
      have chain : selector.Chain view node := matched_iff.mp rfl
      exact ⟨true, by simp only [walkMembers, outcome], by simp [chain]⟩
    | false =>
      have noChain : ¬ selector.Chain view node := by
        rw [← matched_iff]
        decide
      obtain ⟨later, rest, later_iff⟩ :=
        ih fun member inside => free member (List.mem_cons_of_mem _ inside)
      exact ⟨later, by simp only [walkMembers, outcome, rest], by simp [later_iff, noChain]⟩

end SelectorList

/-- Matching means that there is a chain. In a finite region every selector without column
combinators gets an answer, whatever circles the links run in, and the answer is `true`
exactly if a chain of nodes for its compounds ends at the node; a list is matched exactly
if one of its members is. -/
theorem test_iff_chain (covers : view.Covers region) {node : ν} (start : node ∈ region) :
    (∀ selector : ComplexSelector, selector.ColumnFree →
      ∃ matched, selector.test view node = .ok matched ∧
        (matched = true ↔ selector.Chain view node)) ∧
    ∀ list : SelectorList, (∀ member ∈ list.members, member.ColumnFree) →
      ∃ matched, list.test view node = .ok matched ∧
        (matched = true ↔ ∃ member ∈ list.members, member.Chain view node) :=
  ⟨fun selector free => selector.test_decides covers start free,
    fun list free => SelectorList.walkMembers_outcome covers start list.members free⟩

/-- Two nodes, each of which is the parent of the other. -/
def circle : Table where
  rows := #[
    { tag := some "a", content := none, id := none, classes := [], attributes := [],
      parent := some 1, previous := none, next := none, children := [] },
    { tag := some "b", content := none, id := none, classes := [], attributes := [],
      parent := some 0, previous := none, next := none, children := [] }]

theorem circle_covers : circle.view.Covers [0, 1] where
  knows := by decide
  parent := by simp [circle, Table.view]
  previousSibling := by simp [circle, Table.view]

/-- `a b a`, which a node of a circle can meet at both of its ends. -/
def aroundCircle : ComplexSelector where
  head := ⟨some (.tag "a"), []⟩
  tail := [(.child, ⟨some (.tag "b"), []⟩), (.descendant, ⟨some (.tag "a"), []⟩)]

theorem test_aroundCircle :
    (circle.view.Covers [0, 1] ∧ 0 ∈ [0, 1] ∧ aroundCircle.ColumnFree) ∧
      aroundCircle.test circle.view 0 = .ok true := by
  have start : 0 ∈ [0, 1] := by decide
  have free : aroundCircle.ColumnFree := by decide
  obtain ⟨matched, tested, matched_iff⟩ := (test_iff_chain circle_covers start).1 aroundCircle free
  have upwards : Linked circle.view 1 [(.descendant, ⟨some (.tag "a"), []⟩)] 0 :=
    .join (.single rfl) (by decide) (.done 0)
  have step : circle.view.Related .child 0 1 := rfl
  have chain : aroundCircle.Chain circle.view 0 := ⟨0, by decide, .join step (by decide) upwards⟩
  rw [tested, matched_iff.mpr chain]
  exact ⟨⟨circle_covers, start, free⟩, rfl⟩

end CssSelect
