import CssSelect.Proofs.Loop
import CssSelect.Proofs.Traversal.Preorder
import CssSelect.Query

/-!
The two searches below a root. Both test the nodes of the preorder one after the other; what
they find is said in terms of the tests of single nodes. A search that has to test a node
without an answer ends there.
-/
namespace CssSelect

/-- Every test has an answer, or there is a first one that has none. -/
theorem decided_or_first_error {ε α : Type} (test : α → Except ε Bool) (nodes : List α) :
    (∀ node ∈ nodes, ∃ matched, test node = .ok matched) ∨
      ∃ before node after error, nodes = before ++ node :: after ∧
        (∀ earlier ∈ before, ∃ matched, test earlier = .ok matched) ∧ test node = .error error := by
  induction nodes with
  | nil => exact Or.inl fun _ member => absurd member List.not_mem_nil
  | cons first nodes ih =>
    cases tested : test first with
    | error error =>
      exact Or.inr ⟨[], first, nodes, error, rfl, fun _ member => absurd member List.not_mem_nil,
        tested⟩
    | ok matched =>
      rcases ih with decided | ⟨before, node, after, error, rfl, decided, failed⟩
      · exact Or.inl (List.forall_mem_cons.mpr ⟨⟨matched, tested⟩, decided⟩)
      · exact Or.inr ⟨first :: before, node, after, error, rfl,
          List.forall_mem_cons.mpr ⟨⟨matched, tested⟩, decided⟩, failed⟩

namespace View

variable {ν : Type} [BEq ν] [Hashable ν] {view : View ν} {list : SelectorList} {stack : List ν}

section Steps

variable {rest : List ν} {node : ν} {found : Array ν}

theorem findAll_done (none : view.next stack = .ok .none) :
    view.findAll list stack found = .ok found := by
  apply repeatM_of_result
  simp only [seekAll, none]

theorem findAll_tested {matched : Bool} (next : view.next stack = .ok (some (node, rest)))
    (tested : list.test view node = .ok matched) :
    view.findAll list stack found =
      view.findAll list rest (if matched then found.push node else found) := by
  apply repeatM_of_next
  simp only [seekAll, next, tested]
  cases matched <;> rfl

theorem findAll_failed {halt : Halt} (next : view.next stack = .ok (some (node, rest)))
    (failed : list.test view node = .error halt) :
    view.findAll list stack found = .error halt := by
  apply repeatM_of_error
  simp only [seekAll, next, failed]

theorem findFirst_done (none : view.next stack = .ok .none) :
    view.findFirst list stack = .ok .none := by
  apply repeatM_of_result
  simp only [seekFirst, none]

theorem findFirst_matched (next : view.next stack = .ok (some (node, rest)))
    (tested : list.test view node = .ok true) : view.findFirst list stack = .ok (some node) := by
  apply repeatM_of_result
  simp only [seekFirst, next, tested]

theorem findFirst_passed (next : view.next stack = .ok (some (node, rest)))
    (tested : list.test view node = .ok false) :
    view.findFirst list stack = view.findFirst list rest := by
  apply repeatM_of_next
  simp only [seekFirst, next, tested]

theorem findFirst_failed {halt : Halt} (next : view.next stack = .ok (some (node, rest)))
    (failed : list.test view node = .error halt) : view.findFirst list stack = .error halt := by
  apply repeatM_of_error
  simp only [seekFirst, next, failed]

end Steps

/-- Behind nodes whose tests have answers a search for all matches goes on with what it has
found among them. -/
theorem findAll_append {before after : List ν} (all : Preorder view stack (before ++ after))
    (decided : ∀ node ∈ before, ∃ matched, list.test view node = .ok matched) (found : Array ν) :
    ∃ rest, Preorder view rest after ∧ view.findAll list stack found =
      view.findAll list rest
        (found ++ (before.filter fun node => list.test view node = .ok true).toArray) := by
  induction before generalizing stack found with
  | nil => exact ⟨stack, all, by simp⟩
  | cons node before ih =>
    obtain ⟨rest, next, behind⟩ := all.next_cons
    obtain ⟨⟨matched, tested⟩, decidedRest⟩ := List.forall_mem_cons.mp decided
    -- The array grows at the end, so the invariant has to hold for whatever it starts with.
    obtain ⟨last, preorder, goesOn⟩ :=
      ih behind decidedRest (if matched then found.push node else found)
    refine ⟨last, preorder, ?_⟩
    rw [findAll_tested next tested, goesOn]
    cases matched <;> simp [tested]

/-- Behind nodes whose tests have answers a search for the first match has found the first
match among them, and goes on if there is none. -/
theorem findFirst_append {before after : List ν} (all : Preorder view stack (before ++ after))
    (decided : ∀ node ∈ before, ∃ matched, list.test view node = .ok matched) :
    ∃ rest, Preorder view rest after ∧ view.findFirst list stack =
      match before.find? fun node => list.test view node = .ok true with
      | some node => .ok (some node)
      | none => view.findFirst list rest := by
  induction before generalizing stack with
  | nil => exact ⟨stack, all, rfl⟩
  | cons node before ih =>
    obtain ⟨rest, next, behind⟩ := all.next_cons
    obtain ⟨⟨matched, tested⟩, decidedRest⟩ := List.forall_mem_cons.mp decided
    obtain ⟨last, preorder, goesOn⟩ := ih behind decidedRest
    refine ⟨last, preorder, ?_⟩
    cases matched with
    | true => simp [findFirst_matched next tested, tested]
    | false => simp [findFirst_passed next tested, tested, goesOn]

theorem findAll_of_decided {nodes : List ν} (all : Preorder view stack nodes)
    (decided : ∀ node ∈ nodes, ∃ matched, list.test view node = .ok matched) :
    view.findAll list stack #[] =
      .ok (nodes.filter fun node => list.test view node = .ok true).toArray := by
  rw [← List.append_nil nodes] at all
  obtain ⟨rest, none, goesOn⟩ := findAll_append all decided #[]
  rw [goesOn, findAll_done none.next_nil, Array.empty_append]

theorem findAll_of_failed {before after : List ν} {node : ν} {halt : Halt}
    (all : Preorder view stack (before ++ node :: after))
    (decided : ∀ earlier ∈ before, ∃ matched, list.test view earlier = .ok matched)
    (failed : list.test view node = .error halt) : view.findAll list stack #[] = .error halt := by
  obtain ⟨rest, behind, goesOn⟩ := findAll_append all decided #[]
  obtain ⟨_, next, _⟩ := behind.next_cons
  rw [goesOn, findAll_failed next failed]

theorem findFirst_of_decided {nodes : List ν} (all : Preorder view stack nodes)
    (decided : ∀ node ∈ nodes, ∃ matched, list.test view node = .ok matched) :
    view.findFirst list stack = .ok (nodes.find? fun node => list.test view node = .ok true) := by
  rw [← List.append_nil nodes] at all
  obtain ⟨rest, none, goesOn⟩ := findFirst_append all decided
  rw [goesOn, findFirst_done none.next_nil]
  cases nodes.find? fun node => list.test view node = .ok true <;> rfl

theorem findFirst_of_failed {before after : List ν} {node : ν} {halt : Halt}
    (all : Preorder view stack (before ++ node :: after))
    (decided : ∀ earlier ∈ before, ∃ matched, list.test view earlier = .ok matched)
    (failed : list.test view node = .error halt) :
    view.findFirst list stack =
      match before.find? fun node => list.test view node = .ok true with
      | some found => .ok (some found)
      | none => .error halt := by
  obtain ⟨rest, behind, goesOn⟩ := findFirst_append all decided
  obtain ⟨_, next, _⟩ := behind.next_cons
  rw [goesOn, findFirst_failed next failed]

end View

end CssSelect
