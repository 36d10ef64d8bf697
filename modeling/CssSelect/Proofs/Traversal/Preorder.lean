import Mathlib.Data.List.Forall2
import Mathlib.Logic.Relation
import CssSelect.Traversal

/-!
What a traversal visits. `Preorder` says it without a stack: a node, then all below it, then
what comes behind it. The stack of a traversal stands for such a forest at all times, so the
nodes still to come are the preorder of the stack. A traversal that ends before its limit has
visited a whole forest.
-/
namespace CssSelect.View

variable {ν : Type} {view : View ν}

/-- The nodes of a forest in preorder. There is no such list for a forest without an end. -/
inductive Preorder (view : View ν) : List ν → List ν → Prop
  | nil : Preorder view [] []
  | cons {node : ν} {others below behind : List ν} (known : view.knows node = true)
      (inner : Preorder view (view.children node) below) (rest : Preorder view others behind) :
      Preorder view (node :: others) (node :: (below ++ behind))

namespace Preorder

theorem append {front back before behind : List ν} (first : Preorder view front before)
    (second : Preorder view back behind) : Preorder view (front ++ back) (before ++ behind) := by
  induction first with
  | nil => exact second
  | cons known inner _ _ ih =>
    rw [List.cons_append, List.cons_append, List.append_assoc]
    exact .cons known inner ih

theorem of_append {front back nodes : List ν} (all : Preorder view (front ++ back) nodes) :
    ∃ before behind, nodes = before ++ behind ∧ Preorder view front before ∧
      Preorder view back behind := by
  induction front generalizing nodes with
  | nil => exact ⟨[], nodes, rfl, .nil, all⟩
  | cons node front ih =>
    obtain _ | ⟨known, inner, rest⟩ := all
    obtain ⟨before, behind, rfl, first, second⟩ := ih rest
    exact ⟨_, behind, by rw [List.cons_append, List.append_assoc], .cons known inner first, second⟩

/-- A forest has one preorder. -/
theorem unique {forest nodes others : List ν} (first : Preorder view forest nodes)
    (second : Preorder view forest others) : nodes = others := by
  induction first generalizing others with
  | nil =>
    cases second
    rfl
  | cons _ _ _ ihInner ihRest =>
    obtain _ | ⟨_, inner, rest⟩ := second
    rw [ihInner inner, ihRest rest]

theorem next_nil {stack : List ν} (all : Preorder view stack []) : view.next stack = .ok none := by
  cases all
  rfl

/-- The next node of a traversal is the first of the preorder, and the stack behind it has the
rest of the preorder. -/
theorem next_cons {stack : List ν} {node : ν} {nodes : List ν}
    (all : Preorder view stack (node :: nodes)) :
    ∃ rest, view.next stack = .ok (some (node, rest)) ∧ Preorder view rest nodes := by
  obtain _ | ⟨known, inner, rest⟩ := all
  refine ⟨_, ?_, inner.append rest⟩
  simp only [next, ask, known, if_true]

theorem exists_of_each {forest : List ν} (known : ∀ node ∈ forest, view.knows node = true)
    (each : ∀ node ∈ forest, ∃ below, Preorder view (view.children node) below) :
    ∃ nodes, Preorder view forest nodes := by
  induction forest with
  | nil => exact ⟨[], .nil⟩
  | cons node forest ih =>
    obtain ⟨below, inner⟩ := each node List.mem_cons_self
    obtain ⟨behind, rest⟩ := ih (fun other member => known other (List.mem_cons_of_mem _ member))
      fun other member => each other (List.mem_cons_of_mem _ member)
    exact ⟨_, .cons (known node List.mem_cons_self) inner rest⟩

/-- The preorder of a forest consists of what its roots lead to by way of children. -/
theorem mem_iff {forest nodes : List ν} (all : Preorder view forest nodes) (node : ν) :
    node ∈ nodes ↔ ∃ top ∈ forest,
      Relation.ReflTransGen (fun above child => child ∈ view.children above) top node := by
  induction all with
  | nil => simp
  | @cons root others below behind _ _ _ ihInner ihRest =>
    rw [List.mem_cons, List.mem_append, ihInner, ihRest, List.exists_mem_cons_iff,
      Relation.ReflTransGen.cases_head_iff, or_assoc, eq_comm]

/-- In the preorder of a forest a node is followed by all below it. The induction is on the forest:
the node is the first root, or stands below it, or in the rest. -/
theorem exists_below {forest nodes : List ν} (all : Preorder view forest nodes) {node : ν}
    (member : node ∈ nodes) :
    ∃ before below behind, nodes = before ++ node :: (below ++ behind) ∧
      Preorder view (view.children node) below := by
  induction all with
  | nil => exact absurd member List.not_mem_nil
  | @cons root others inside after _ inner _ ihInner ihRest =>
    rcases List.mem_cons.mp member with rfl | member
    · exact ⟨[], inside, after, rfl, inner⟩
    rcases List.mem_append.mp member with member | member
    · obtain ⟨before, below, behind, rfl, whole⟩ := ihInner member
      exact ⟨root :: before, below, behind ++ after, by simp, whole⟩
    · obtain ⟨before, below, behind, rfl, whole⟩ := ihRest member
      exact ⟨root :: (inside ++ before), below, behind, by simp, whole⟩

end Preorder

/-! ## The stack -/

theorem visit_of_preorder {stack nodes : List ν} (all : Preorder view stack nodes) (limit : Nat)
    (visited : Array ν) :
    view.visit limit stack visited = .ok (visited ++ (nodes.take limit).toArray) := by
  induction limit generalizing stack nodes visited with
  | zero => simp [visit]
  | succ limit ih =>
    cases nodes with
    | nil => simp [visit, all.next_nil]
    | cons node nodes =>
      obtain ⟨rest, taken, behind⟩ := all.next_cons
      simp [visit, taken, ih behind]

/-- A traversal that ends before its limit has visited all of its stack. -/
theorem preorder_of_visit {limit : Nat} {stack : List ν} {visited found : Array ν}
    (run : view.visit limit stack visited = .ok found) (ended : found.size < visited.size + limit) :
    ∃ nodes, found = visited ++ nodes.toArray ∧ Preorder view stack nodes := by
  induction limit generalizing stack visited with
  | zero =>
    cases run
    exact absurd ended (Nat.lt_irrefl _)
  | succ limit ih =>
    cases stack with
    | nil =>
      cases run
      exact ⟨[], by simp, .nil⟩
    | cons node stack =>
      rw [visit, next, ask] at run
      by_cases known : view.knows node = true
      · rw [if_pos known] at run
        obtain ⟨nodes, rfl, all⟩ := ih run (by rw [Array.size_push]; omega)
        obtain ⟨below, behind, rfl, inner, rest⟩ := all.of_append
        exact ⟨node :: (below ++ behind), by simp, .cons known inner rest⟩
      · rw [if_neg known] at run
        cases run

/-- The traversal of `root` comes to an end, and visits these nodes. -/
def Traversal (view : View ν) (root : ν) (nodes : List ν) : Prop :=
  ∃ limit, view.traverse root false limit = .ok nodes ∧ nodes.length < limit

theorem traversal_iff {root : ν} {nodes : List ν} :
    view.Traversal root nodes ↔
      view.knows root = true ∧ Preorder view (view.children root) nodes := by
  constructor
  · rintro ⟨limit, run, ended⟩
    rw [traverse, startAt, ask] at run
    by_cases known : view.knows root = true
    · simp only [Bool.false_eq_true, if_false, if_pos known] at run
      split at run
      · cases run
      · next found visited =>
        cases run
        obtain ⟨nodes, rfl, all⟩ := preorder_of_visit visited (by simpa using ended)
        exact ⟨known, by simpa using all⟩
    · simp only [Bool.false_eq_true, if_false, if_neg known] at run
      cases run
  · rintro ⟨known, all⟩
    refine ⟨nodes.length + 1, ?_, Nat.lt_succ_self _⟩
    have whole : nodes.take (nodes.length + 1) = nodes := List.take_of_length_le (Nat.le_succ _)
    simp [traverse, startAt, ask, known, visit_of_preorder all, whole]

end CssSelect.View
