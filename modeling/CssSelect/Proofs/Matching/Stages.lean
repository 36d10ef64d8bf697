import Mathlib.Data.Set.Card
import CssSelect.Proofs.Matching.Chain

/-!
What a match trace counts. Matching goes from the last combinator of a selector to the first, and
each stage of it says how many candidates were taken across a combinator and how many nodes that
gave. The candidates are the nodes from which what stands behind the combinator can be completed to
the node in question, each of them once; so a stage is taken exactly as long as what stands behind
the combinator, as a selector of its own, matches the node.
-/
namespace CssSelect

variable {ν : Type}

/-- Each combinator of a tail with what stands behind it as a selector of its own, from the last
combinator to the first. -/
def joints : List (Combinator × CompoundSelector) → List (Combinator × ComplexSelector)
  | [] => []
  | (combinator, compound) :: tail => joints tail ++ [(combinator, ⟨compound, tail⟩)]

/-- The same for the combinators in front of `behind`, of which the last comes first in `joined`. -/
def jointsBefore (behind : List (Combinator × CompoundSelector)) :
    List (Combinator × CompoundSelector) → List (Combinator × ComplexSelector)
  | [] => []
  | (combinator, compound) :: joined =>
    (combinator, ⟨compound, behind⟩) :: jointsBefore ((combinator, compound) :: behind) joined

theorem joints_append (joined behind : List (Combinator × CompoundSelector)) :
    joints (joined.reverse ++ behind) = joints behind ++ jointsBefore behind joined := by
  induction joined generalizing behind with
  | nil => exact (List.append_nil _).symm
  | cons link joined ih =>
    obtain ⟨combinator, compound⟩ := link
    rw [List.reverse_cons, List.append_assoc, List.singleton_append, ih, joints, jointsBefore,
      List.append_assoc, List.singleton_append]

/-- The nodes that start a chain for the selector that ends at `node`. -/
def ComplexSelector.chainStarts (selector : ComplexSelector) (view : View ν) (node : ν) : Set ν :=
  { first | selector.head.Meets view first ∧ Linked view first selector.tail node }

/-- The nodes that can stand on the left of a combinator when one of the given stands on its
right. -/
def View.leftOf (view : View ν) (combinator : Combinator) (rights : Set ν) : Set ν :=
  { left | ∃ right ∈ rights, view.Related combinator left right }

/-- The stage at a combinator: how many nodes start a chain for what stands behind it, and how many
the combinator relates to one of these. -/
noncomputable def View.stageAt (view : View ν) (node : ν)
    (joint : Combinator × ComplexSelector) : Stage where
  compound := joint.2.head
  combinator := joint.1
  before := (joint.2.chainStarts view node).ncard
  after := (view.leftOf joint.1 (joint.2.chainStarts view node)).ncard

/-- A set is as large as a list that has its members, each of them once. -/
theorem ncard_eq_length {nodes : List ν} {set : Set ν} (nodup : nodes.Nodup)
    (mem_iff : ∀ node, node ∈ nodes ↔ node ∈ set) : set.ncard = nodes.length := by
  classical
  have same : set = nodes.toFinset := by
    ext node
    rw [List.coe_toFinset]
    exact (mem_iff node).symm
  rw [same, Set.ncard_coe_finset, List.toFinset_card_of_nodup nodup]

variable {view : View ν} {region : List ν} {node : ν}

variable [BEq ν] [Hashable ν] [LawfulBEq ν] [LawfulHashable ν]

/-- No combinator leads out of a region that the view covers. -/
theorem View.Covers.mem_of_related (covers : view.Covers region) {combinator : Combinator}
    {left right : ν} (related : view.Related combinator left right) (inside : right ∈ region) :
    left ∈ region := by
  have meaning : combinator ≠ .column := by
    rintro rfl
    exact related
  have single : [right] ⊆ region := by simpa using inside
  obtain ⟨found, _, _, foundInside, found_iff⟩ := View.collect_finds covers single meaning
  exact foundInside ((found_iff left).mpr ⟨right, List.mem_singleton_self right, related⟩)

theorem Linked.mem_region (covers : view.Covers region) {first : ν}
    {tail : List (Combinator × CompoundSelector)} (linked : Linked view first tail node)
    (start : node ∈ region) : first ∈ region := by
  induction linked with
  | done => exact start
  | join related _ _ ih => exact covers.mem_of_related related (ih start)

namespace ComplexSelector

/-- The stages in front of `behind`. The candidates are the nodes to which a chain through `behind`
leads; the induction goes from the subject to the head and moves one compound after the other
there. -/
theorem walkLeft_stages (covers : view.Covers region) (start : node ∈ region)
    (head : CompoundSelector) (joined : List (Combinator × CompoundSelector))
    (joinedFree : ∀ link ∈ joined, link.1 ≠ .column)
    {behind : List (Combinator × CompoundSelector)} (behindFree : ∀ link ∈ behind, link.1 ≠ .column)
    {candidates : List ν} (inside : candidates ⊆ region) (nodup : candidates.Nodup)
    (mem_iff : ∀ first, first ∈ candidates ↔ Linked view first behind node) :
    (walkLeft view head joined candidates).stages =
      ((jointsBefore behind joined).takeWhile fun joint =>
        joint.2.test view node = .ok true).map (view.stageAt node) := by
  induction joined generalizing behind candidates with
  | nil => rfl
  | cons link joined ih =>
    obtain ⟨combinator, compound⟩ := link
    obtain ⟨meaning, laterFree⟩ := List.forall_mem_cons.mp joinedFree
    obtain ⟨kept, found, isKept, foundNodup, foundInside, found_iff, step⟩ :=
      walkLeft_step covers meaning compound inside
    have keptNodup : kept.Nodup := isKept ▸ nodup.filter _
    have kept_iff : ∀ first, first ∈ kept ↔
        first ∈ chainStarts ⟨compound, behind⟩ view node := by
      intro first
      rw [isKept, List.mem_filter, decide_eq_true_eq, mem_iff, and_comm]
      rfl
    have foundSet : ∀ left, left ∈ found ↔
        left ∈ view.leftOf combinator (chainStarts ⟨compound, behind⟩ view node) := by
      intro left
      simp only [found_iff, kept_iff]
      rfl
    have passes : test ⟨compound, behind⟩ view node = .ok true ↔ kept ≠ [] := by
      obtain ⟨matched, tested, matched_iff⟩ :=
        test_decides covers start ⟨compound, behind⟩ behindFree
      rw [tested, Except.ok.injEq, matched_iff, ne_eq, List.eq_nil_iff_forall_not_mem, not_forall_not]
      exact exists_congr fun first => (kept_iff first).symm
    have next := ih laterFree (List.forall_mem_cons.mpr ⟨meaning, behindFree⟩) foundInside
      foundNodup fun left => by
        rw [foundSet, linked_cons_iff]
        exact exists_congr fun right => and_comm
    rw [step, jointsBefore, List.takeWhile_cons]
    by_cases none : kept = []
    · have fails : ¬ test ⟨compound, behind⟩ view node = .ok true := fun passed =>
        passes.mp passed none
      rw [if_pos none, if_neg (by simpa using fails)]
      rfl
    · rw [if_neg none, if_pos (by simpa using passes.mpr none), List.map_cons, Walk.after, next,
        View.stageAt, ncard_eq_length keptNodup kept_iff, ncard_eq_length foundNodup foundSet]

omit [LawfulBEq ν] [LawfulHashable ν] in
/-- Where the subject is not met, no stage is taken. -/
theorem stages_of_not_subject (known : view.knows node = true) {selector : ComplexSelector}
    (fails : ¬ selector.subject.Meets view node) : (selector.walk view node).stages = [] := by
  have last : selector.tail.reverse.head? = selector.tail.getLast? := List.head?_reverse
  rw [walk]
  cases joined : selector.tail.reverse with
  | nil => rfl
  | cons link others =>
    rw [joined, List.head?_cons] at last
    have subject : selector.subject = link.2 := by
      rw [ComplexSelector.subject, ← last]
    have kept : selector.subject.keep view [node] = .ok [] := by
      have alone : ∀ other ∈ [node], view.knows other = true := by simpa using known
      rw [selector.subject.keep_eq_filter alone, List.filter_singleton, decide_eq_false fails]
      rfl
    rw [walkLeft, ← subject, kept]
    rfl

/-- What is written while a node is matched. From the last combinator of a selector to the first the
two records of a stage are written for each, as long as what stands behind it matches the node by
itself, and nothing afterwards. The records give the number of nodes that start a chain for what
stands behind the combinator, and the number of nodes that the combinator relates to one of them;
the second one shows the compound as it is written, with its line feeds if it has any. A node that
does not meet the subject leaves no trace. -/
theorem trace_counts_chains (covers : view.Covers region) (start : node ∈ region)
    (selector : ComplexSelector) (free : selector.ColumnFree) :
    (∃ passed, passed = (joints selector.tail).takeWhile (fun joint =>
        joint.2.test view node = .ok true) ∧
      (selector.walk view node).stages = passed.map (view.stageAt node) ∧
      (selector.walk view node).trace =
        String.join (passed.map fun joint => (view.stageAt node joint).lines)) ∧
    (∀ joint ∈ joints selector.tail, (joint.2.chainStarts view node).Finite ∧
      (view.leftOf joint.1 (joint.2.chainStarts view node)).Finite) ∧
    (¬ selector.subject.Meets view node → (selector.walk view node).trace = "") := by
  refine ⟨⟨_, rfl, ?_⟩, fun joint _ => ?_, fun fails => ?_⟩
  · have whole : joints selector.tail = jointsBefore [] selector.tail.reverse := by
      rw [← List.append_nil selector.tail, ← List.reverse_reverse selector.tail, joints_append]
      simp [joints]
    have stages : (selector.walk view node).stages = ((joints selector.tail).takeWhile fun joint =>
        joint.2.test view node = .ok true).map (view.stageAt node) := by
      rw [whole, walk]
      refine walkLeft_stages covers start selector.head selector.tail.reverse ?_ ?_ ?_ ?_ ?_
      · exact fun link member => free link (List.mem_reverse.mp member)
      · exact fun link member => absurd member List.not_mem_nil
      · simpa using start
      · exact List.nodup_singleton node
      · intro first
        rw [List.mem_singleton]
        constructor
        · rintro rfl
          exact .done first
        · rintro ⟨_⟩
          rfl
    refine ⟨stages, ?_⟩
    rw [Walk.trace, stages, List.map_map]
    rfl
  · have startsInside : ∀ first ∈ joint.2.chainStarts view node, first ∈ region :=
      fun first chain => chain.2.mem_region covers start
    refine ⟨region.finite_toSet.subset startsInside, region.finite_toSet.subset ?_⟩
    rintro left ⟨right, chain, related⟩
    exact covers.mem_of_related related (startsInside right chain)
  · rw [Walk.trace, stages_of_not_subject (covers.knows node start) fails]
    rfl

/-- The subject of `a b a` at the node of the circle that has the tag `a`. Both nodes are its
ancestors. -/
theorem stageAt_subject :
    circle.view.stageAt 0 (.descendant, ⟨⟨some (.tag "a"), []⟩, []⟩) =
      ⟨⟨some (.tag "a"), []⟩, .descendant, 1, 2⟩ := by
  have starts : ∀ first, first ∈ [0] ↔
      first ∈ chainStarts ⟨⟨some (.tag "a"), []⟩, []⟩ circle.view 0 := by
    intro first
    rw [List.mem_singleton]
    constructor
    · rintro rfl
      exact ⟨by decide, .done 0⟩
    · rintro ⟨_, ⟨_⟩⟩
      rfl
  have ancestors : ∀ left, left ∈ [1, 0] ↔ left ∈ circle.view.leftOf .descendant
      (chainStarts ⟨⟨some (.tag "a"), []⟩, []⟩ circle.view 0) := by
    intro left
    have up : View.Leads circle.view.parent 0 1 := .single rfl
    have round : View.Leads circle.view.parent 0 0 := .tail up rfl
    constructor
    · intro member
      have same : left = 1 ∨ left = 0 := by simpa using member
      rcases same with rfl | rfl
      · exact ⟨0, (starts 0).mp (List.mem_singleton_self 0), up⟩
      · exact ⟨0, (starts 0).mp (List.mem_singleton_self 0), round⟩
    · rintro ⟨right, chain, related⟩
      obtain rfl := List.mem_singleton.mp ((starts right).mpr chain)
      have inside := circle_covers.mem_of_related related (by decide)
      exact (List.Perm.swap 0 1 []).mem_iff.mpr inside
  rw [View.stageAt, ncard_eq_length (by decide) starts, ncard_eq_length (by decide) ancestors]
  rfl

/-- The other node of the circle is the one that `b a` starts with. -/
theorem stageAt_inner :
    circle.view.stageAt 0 (.child, ⟨⟨some (.tag "b"), []⟩, [(.descendant, ⟨some (.tag "a"), []⟩)]⟩) =
      ⟨⟨some (.tag "b"), []⟩, .child, 1, 1⟩ := by
  have starts : ∀ first, first ∈ [1] ↔ first ∈ chainStarts
      ⟨⟨some (.tag "b"), []⟩, [(.descendant, ⟨some (.tag "a"), []⟩)]⟩ circle.view 0 := by
    intro first
    rw [List.mem_singleton]
    constructor
    · rintro rfl
      exact ⟨by decide, .join (.single rfl) (by decide) (.done 0)⟩
    · rintro ⟨meets, chain⟩
      have inside : first = 0 ∨ first = 1 := by
        simpa using chain.mem_region circle_covers (by decide)
      rcases inside with rfl | rfl
      · exact absurd meets (by decide)
      · rfl
  have parents : ∀ left, left ∈ [0] ↔ left ∈ circle.view.leftOf .child (chainStarts
      ⟨⟨some (.tag "b"), []⟩, [(.descendant, ⟨some (.tag "a"), []⟩)]⟩ circle.view 0) := by
    intro left
    rw [List.mem_singleton]
    constructor
    · rintro rfl
      exact ⟨1, (starts 1).mp (List.mem_singleton_self 1), rfl⟩
    · rintro ⟨right, chain, related⟩
      obtain rfl := List.mem_singleton.mp ((starts right).mpr chain)
      exact (Option.some.inj related).symm
  rw [View.stageAt, ncard_eq_length (by decide) starts, ncard_eq_length (by decide) parents]
  rfl

theorem trace_aroundCircle :
    (circle.view.Covers [0, 1] ∧ 0 ∈ [0, 1] ∧ aroundCircle.ColumnFree) ∧
      (aroundCircle.walk circle.view 0).trace =
        "[MATCH] collect Descendant: 1 candidates -> 2 nodes\n" ++
        "[MATCH] 'a' then Descendant: 2 candidates\n" ++
        "[MATCH] collect Child: 1 candidates -> 1 nodes\n" ++
        "[MATCH] 'b' then Child: 1 candidates\n" := by
  have start : 0 ∈ [0, 1] := by decide
  have free : aroundCircle.ColumnFree := by decide
  obtain ⟨⟨passed, isPassed, _, trace⟩, _⟩ :=
    trace_counts_chains circle_covers start aroundCircle free
  have subject : test ⟨⟨some (.tag "a"), []⟩, []⟩ circle.view 0 = .ok true := by decide
  have inner : test ⟨⟨some (.tag "b"), []⟩, [(.descendant, ⟨some (.tag "a"), []⟩)]⟩ circle.view 0 =
      .ok true := by
    obtain ⟨matched, tested, matched_iff⟩ := test_decides circle_covers start
      ⟨⟨some (.tag "b"), []⟩, [(.descendant, ⟨some (.tag "a"), []⟩)]⟩ (by decide)
    rw [tested, matched_iff.mpr ⟨1, by decide, .join (.single rfl) (by decide) (.done 0)⟩]
  have both : passed = joints aroundCircle.tail := by
    rw [isPassed]
    simp [joints, aroundCircle, subject, inner]
  refine ⟨⟨circle_covers, start, free⟩, ?_⟩
  rw [trace, both]
  simp only [joints, aroundCircle, List.nil_append, List.cons_append, List.map_cons, List.map_nil,
    stageAt_subject, stageAt_inner]
  decide +kernel

end ComplexSelector

end CssSelect
