import Mathlib.Data.List.Forall2
import CssSelect.Proofs.Matching.Column
import CssSelect.Query

/-!
Matching by answers. A compound sees no more of a condition than its answer, a walk no more of a
compound, and a list no more of its members. So what gives the same answers, in one view or in two,
leads to the same outcome, and searches that test alike find the same.
-/
namespace CssSelect

variable {ν μ : Type}

namespace CompoundSelector

theorem testAll_congr {view : View ν} {node : ν} {other : View μ} {twin : μ}
    {subclasses others : List SubclassSelector}
    (same : List.Forall₂ (fun subclass replaced => subclass.test view node = replaced.test other twin)
      subclasses others) : testAll view node subclasses = testAll other twin others := by
  induction same with
  | nil => rfl
  | cons first _ ih => rw [testAll, testAll, first, ih]

variable {view other : View ν} {compound replaced : CompoundSelector}

theorem keep_congr (same : compound.test view = replaced.test other) (nodes : List ν) :
    compound.keep view nodes = replaced.keep other nodes := by
  induction nodes with
  | nil => rfl
  | cons node nodes ih => rw [keep, keep, same, ih]

theorem testAny_congr (same : compound.test view = replaced.test other) (nodes : List ν) :
    compound.testAny view nodes = replaced.testAny other nodes := by
  induction nodes with
  | nil => rfl
  | cons node nodes ih => rw [testAny, testAny, same, ih]

end CompoundSelector

variable [BEq ν] [Hashable ν]

/-- The outcome of a walk does not change if its compounds are replaced by others with the same
answers, and its view by another with the same steps. The induction goes from the subject to the
head. -/
theorem ComplexSelector.walkLeft_congr {view other : View ν} {head otherHead : CompoundSelector}
    (steps : view.collect = other.collect) (sameHead : head.test view = otherHead.test other)
    {joined others : List (Combinator × CompoundSelector)}
    (same : List.Forall₂
      (fun link replaced => link.1 = replaced.1 ∧ link.2.test view = replaced.2.test other)
      joined others) (candidates : List ν) :
    (walkLeft view head joined candidates).outcome =
      (walkLeft other otherHead others candidates).outcome := by
  induction same generalizing candidates with
  | nil => exact CompoundSelector.testAny_congr sameHead candidates
  | @cons link replaced _ _ here _ ih =>
    obtain ⟨combinator, compound⟩ := link
    obtain ⟨_, otherCompound⟩ := replaced
    obtain ⟨rfl, sameCompound⟩ : combinator = _ ∧ compound.test view = otherCompound.test other := here
    have sameKept := CompoundSelector.keep_congr sameCompound candidates
    cases kept : otherCompound.keep other candidates with
    | error halt => simp only [walkLeft, sameKept, kept]
    | ok survivors =>
      cases survivors with
      | nil => simp only [walkLeft, sameKept, kept]
      | cons survivor rest =>
        cases collected : other.collect combinator (survivor :: rest) with
        | error halt => simp only [walkLeft, sameKept, kept, steps, collected]
        | ok next =>
          simp only [walkLeft, sameKept, kept, steps, collected]
          exact ih next

namespace SelectorList

variable [BEq μ] [Hashable μ] {view : View ν} {node : ν} {other : View μ} {twin : μ}

theorem walkMembers_congr {members others : List ComplexSelector}
    (same : List.Forall₂ (fun member replaced => member.test view node = replaced.test other twin)
      members others) :
    (walkMembers view node members).outcome = (walkMembers other twin others).outcome := by
  induction same with
  | nil => rfl
  | @cons member replaced _ _ first _ ih =>
    by_cases passed : member.test view node = .ok false
    · rw [walkMembers_of_passed passed, walkMembers_of_passed (first.symm.trans passed), ih]
    · rw [walkMembers_of_decided passed, walkMembers_of_decided (first ▸ passed), first]

/-- A list has the same outcome where each of its members has. -/
theorem test_congr {list : SelectorList}
    (same : ∀ member ∈ list.members, member.test view node = member.test other twin) :
    list.test view node = list.test other twin :=
  walkMembers_congr (List.forall₂_same.mpr same)

end SelectorList

/-! ## Searches -/

namespace View

variable {view : View ν} {list other : SelectorList}

theorem firstMatch_congr (same : list.test view = other.test view) (root : ν) :
    view.firstMatch root list = view.firstMatch root other := by
  have step : view.seekFirst list = view.seekFirst other := by
    funext stack
    rw [seekFirst, seekFirst, same]
  simp only [firstMatch, findFirst, step]

theorem allMatches_congr (same : list.test view = other.test view) (root : ν) :
    view.allMatches root list = view.allMatches root other := by
  have step : view.seekAll list = view.seekAll other := by
    funext ⟨stack, found⟩
    rw [seekAll, seekAll, same]
  simp only [allMatches, findAll, step]

theorem closestMatch_congr (same : list.test view = other.test view) (node : ν) :
    view.closestMatch node list = view.closestMatch node other := by
  have step : view.seekUp list = view.seekUp other := by
    funext node
    rw [seekUp, seekUp, same]
  simp only [closestMatch, findUp, step]

end View

end CssSelect
