import Mathlib.Data.List.Perm.Subperm
import Mathlib.Logic.Relation
import CssSelect.Matching.Collect
import CssSelect.Proofs.Loop

/-!
What collecting across a combinator finds. A walk stops at a node that was
collected before, so its result is the set of reachable nodes only because of an
invariant: the harvest is closed under the step, except at the node where a walk
stands. Links may run in circles; nothing is asked of them beyond a finite region
that they do not leave.
-/
namespace CssSelect

variable {ν : Type}

namespace View

/-- Nodes that the view can be asked about and that its links do not lead out of. -/
structure Covers (view : View ν) (region : List ν) : Prop where
  knows : ∀ node ∈ region, view.knows node = true
  parent : ∀ node ∈ region, ∀ next, view.parent node = some next → next ∈ region
  previousSibling : ∀ node ∈ region, ∀ next, view.previousSibling node = some next → next ∈ region

/-- One or more steps lead from the first node to the second. -/
def Leads (step : ν → Option ν) : ν → ν → Prop :=
  Relation.TransGen fun node next => step node = some next

/-- The node `left` stands on the left of the combinator when `right` stands on its right. -/
def Related (view : View ν) : Combinator → ν → ν → Prop
  | .descendant, left, right => Leads view.parent right left
  | .child, left, right => view.parent right = some left
  | .nextSibling, left, right => view.previousSibling right = some left
  | .subsequentSibling, left, right => Leads view.previousSibling right left
  | .column, _, _ => False

/-- Links are functions, so a path starts with the one step there is. -/
theorem leads_iff_of_some {step : ν → Option ν} {node next : ν} (first : step node = some next)
    (other : ν) : Leads step node other ↔ other = next ∨ Leads step next other := by
  constructor
  · intro path
    obtain ⟨between, taken, rest⟩ := Relation.TransGen.head'_iff.mp path
    rw [first] at taken
    cases taken
    exact (Relation.reflTransGen_iff_eq_or_transGen.mp rest)
  · rintro (rfl | rest)
    · exact .single first
    · exact .head first rest

/-- Nothing is reached from a node without a next one. -/
theorem not_leads_of_none {step : ν → Option ν} {node : ν} (last : step node = none) (other : ν) :
    ¬ Leads step node other := by
  intro path
  obtain ⟨_, taken, _⟩ := Relation.TransGen.head'_iff.mp path
  exact absurd (taken.symm.trans last) (Option.some_ne_none _)

/-- A set that is closed under a step holds all that a path from one of its members leads to. -/
theorem mem_of_leads {step : ν → Option ν} {nodes : Array ν}
    (closed : ∀ node ∈ nodes, ∀ next, step node = some next → next ∈ nodes) {node other : ν}
    (path : Leads step node other) : node ∈ nodes → other ∈ nodes := by
  induction path with
  | single taken => exact fun member => closed _ member _ taken
  | tail _ taken ih => exact fun member => closed _ (ih member) _ taken

theorem ask_of_knows {α : Type} {view : View ν} {node : ν} (known : view.knows node = true)
    (answer : α) : view.ask node answer = .ok answer := by
  rw [View.ask, if_pos known]

end View

variable [BEq ν] [Hashable ν]

/-- What holds of a harvest at all times: the set and the list agree, nothing was
collected twice or from outside the region. -/
structure Harvest.Sound (harvest : Harvest ν) (region : List ν) : Prop where
  seen_iff : ∀ node, harvest.seen.contains node = true ↔ node ∈ harvest.found
  unique : harvest.found.toList.Nodup
  inside : ∀ node ∈ harvest.found, node ∈ region

/-- Between two walks a harvest holds all that its nodes lead to. -/
structure Harvest.Closed (harvest : Harvest ν) (region : List ν) (step : ν → Option ν) : Prop
    extends harvest.Sound region where
  closed : ∀ node ∈ harvest.found, ∀ next, step node = some next → next ∈ harvest.found

namespace Harvest

theorem mem_found_add {harvest : Harvest ν} {added node : ν} :
    node ∈ (harvest.add added).found ↔ node ∈ harvest.found ∨ node = added := by
  simp [add]

theorem closed_empty (region : List ν) (step : ν → Option ν) :
    (empty : Harvest ν).Closed region step where
  seen_iff := by simp [empty]
  unique := by simp [empty]
  inside := by simp [empty]
  closed := by simp [empty]

theorem Sound.not_mem {harvest : Harvest ν} {region : List ν} (sound : harvest.Sound region)
    {node : ν} : node ∉ harvest.found ↔ harvest.seen.contains node = false := by
  rw [← sound.seen_iff, Bool.not_eq_true]

theorem Sound.add [LawfulBEq ν] [LawfulHashable ν] {harvest : Harvest ν} {region : List ν}
    (sound : harvest.Sound region) {node : ν} (fresh : node ∉ harvest.found)
    (inside : node ∈ region) : (harvest.add node).Sound region where
  seen_iff other := by
    rw [mem_found_add, ← sound.seen_iff, Harvest.add, Std.HashSet.contains_insert,
      Bool.or_eq_true, beq_iff_eq, or_comm, eq_comm (a := node)]
  unique := by
    have absent : ∀ other ∈ harvest.found, other ≠ node := by
      rintro other member rfl
      exact fresh member
    simpa [Harvest.add, List.nodup_append, sound.unique] using absent
  inside other member := by
    rcases mem_found_add.mp member with old | rfl
    · exact sound.inside other old
    · exact inside

/-- A harvest is no larger than its region. -/
theorem Sound.size_le {harvest : Harvest ν} {region : List ν} (sound : harvest.Sound region) :
    harvest.found.size ≤ region.length := by
  have covered : harvest.found.toList ⊆ region :=
    fun node member => sound.inside node (Array.mem_toList_iff.mp member)
  exact (sound.unique.subperm covered).length_le

end Harvest

namespace View

section Walks

variable {view : View ν} {step : ν → Option ν} {region : List ν} {harvest : Harvest ν} {node : ν}

theorem walkOn_of_stop (known : view.knows node = true)
    (stop : ∀ next, step node = some next → harvest.seen.contains next = true) :
    view.walkOn step (harvest, node) = .ok (.inr harvest) := by
  rw [walkOn, ask_of_knows known]
  cases taken : step node with
  | none => rfl
  | some next => simp only [stop next taken, if_true]

theorem walkOn_of_fresh {next : ν} (known : view.knows node = true)
    (taken : step node = some next) (fresh : harvest.seen.contains next = false) :
    view.walkOn step (harvest, node) = .ok (.inl (harvest.add next, next)) := by
  rw [walkOn, ask_of_knows known, taken]
  simp only [fresh, Bool.false_eq_true, if_false]

/-- While a walk stands at a node, the harvest is closed everywhere else, and `goal` holds of
what was collected and of what the node still leads to. -/
structure Underway (region : List ν) (step : ν → Option ν) (goal : ν → Prop)
    (walk : Harvest ν × ν) : Prop where
  inside : walk.2 ∈ region
  sound : walk.1.Sound region
  closedElsewhere : ∀ other ∈ walk.1.found, other ≠ walk.2 →
    ∀ next, step other = some next → next ∈ walk.1.found
  goal_iff : ∀ other, goal other ↔ other ∈ walk.1.found ∨ Leads step walk.2 other

/-- A walk that cannot go on leaves a harvest that is closed at its start too. -/
theorem Underway.finish {goal : ν → Prop} (underway : Underway region step goal (harvest, node))
    (stop : ∀ next, step node = some next → next ∈ harvest.found) :
    harvest.Closed region step ∧ ∀ other, goal other ↔ other ∈ harvest.found := by
  obtain ⟨_, sound, closedElsewhere, goal_iff⟩ := underway
  have closed : ∀ other ∈ harvest.found, ∀ next, step other = some next → next ∈ harvest.found := by
    intro other member next taken
    by_cases equal : other = node
    · subst equal
      exact stop next taken
    · exact closedElsewhere other member equal next taken
  refine ⟨⟨sound, closed⟩, fun other => ?_⟩
  rw [goal_iff]
  constructor
  · rintro (old | path)
    · exact old
    · obtain ⟨next, taken, rest⟩ := Relation.TransGen.head'_iff.mp path
      rcases Relation.reflTransGen_iff_eq_or_transGen.mp rest with rfl | rest
      · exact stop _ taken
      · exact mem_of_leads closed rest (stop next taken)
  · exact Or.inl

/-- Candidates are dealt with one after the other, so what each of them adds is added up. -/
theorem collectEach_adds {collect : Harvest ν → ν → Except Halt (Harvest ν)}
    {kept : Harvest ν → Prop} {reaches : ν → ν → Prop}
    (each : ∀ harvest node, kept harvest → node ∈ region → ∃ after,
      collect harvest node = .ok after ∧ kept after ∧
        ∀ other, other ∈ after.found ↔ other ∈ harvest.found ∨ reaches node other)
    (candidates : List ν) (inside : candidates ⊆ region) (start : kept harvest) :
    ∃ after, collectEach collect harvest candidates = .ok after ∧ kept after ∧
      ∀ other, other ∈ after.found ↔
        other ∈ harvest.found ∨ ∃ node ∈ candidates, reaches node other := by
  induction candidates generalizing harvest with
  | nil => exact ⟨harvest, rfl, start, by simp⟩
  | cons node nodes ih =>
    obtain ⟨between, first, keptBetween, gained⟩ :=
      each harvest node start (inside List.mem_cons_self)
    obtain ⟨after, rest, keptAfter, gainedAfter⟩ :=
      ih (fun other member => inside (List.mem_cons_of_mem _ member)) keptBetween
    refine ⟨after, ?_, keptAfter, fun other => ?_⟩
    · simp only [collectEach, first, rest]
    · rw [gainedAfter, gained, or_assoc]
      simp only [List.mem_cons, exists_eq_or_imp]

variable [LawfulBEq ν] [LawfulHashable ν]

/-- A single step adds the node that it leads to. -/
theorem collectNext_adds (known : view.knows node = true)
    (stays : ∀ next, step node = some next → next ∈ region) (sound : harvest.Sound region) :
    ∃ after, view.collectNext step harvest node = .ok after ∧ after.Sound region ∧
      ∀ other, other ∈ after.found ↔ other ∈ harvest.found ∨ step node = some other := by
  rw [collectNext, ask_of_knows known]
  cases taken : step node with
  | none => exact ⟨harvest, rfl, sound, by simp⟩
  | some next =>
    by_cases old : next ∈ harvest.found
    · refine ⟨harvest, by simp [(sound.seen_iff next).mpr old], sound, fun other => ?_⟩
      constructor
      · exact Or.inl
      · rintro (member | equal)
        · exact member
        · cases equal
          exact old
    · refine ⟨harvest.add next, by simp [sound.not_mem.mp old], sound.add old (stays next taken),
        fun other => ?_⟩
      rw [Harvest.mem_found_add, Option.some.injEq, eq_comm (a := other)]

/-- The next node is collected, and the walk stands there. -/
theorem Underway.goOn {goal : ν → Prop} {next : ν}
    (underway : Underway region step goal (harvest, node)) (taken : step node = some next)
    (fresh : next ∉ harvest.found) (inside : next ∈ region) :
    Underway region step goal (harvest.add next, next) where
  inside := inside
  sound := underway.sound.add fresh inside
  closedElsewhere other member different further along := by
    rw [Harvest.mem_found_add] at member ⊢
    have old := member.resolve_right different
    by_cases equal : other = node
    · subst equal
      rw [taken, Option.some.injEq] at along
      exact Or.inr along.symm
    · exact Or.inl (underway.closedElsewhere other old equal further along)
  goal_iff other := by
    rw [underway.goal_iff, leads_iff_of_some taken, Harvest.mem_found_add, or_assoc]

/-- A step ends the walk with all that it was to collect, or collects one more node of the
region. -/
theorem walkOn_underway (known : ∀ node ∈ region, view.knows node = true)
    (stays : ∀ node ∈ region, ∀ next, step node = some next → next ∈ region) {goal : ν → Prop}
    {walk : Harvest ν × ν} (underway : Underway region step goal walk) :
    (∃ after, view.walkOn step walk = .ok (.inr after) ∧
      after.Closed region step ∧ ∀ other, goal other ↔ other ∈ after.found) ∨
    ∃ next, view.walkOn step walk = .ok (.inl next) ∧ Underway region step goal next ∧
      region.length - next.1.found.size < region.length - walk.1.found.size := by
  obtain ⟨harvest, node⟩ := walk
  have start := known node underway.inside
  by_cases stop : ∀ next, step node = some next → next ∈ harvest.found
  · left
    refine ⟨harvest, ?_, underway.finish stop⟩
    apply walkOn_of_stop start
    exact fun next taken => (underway.sound.seen_iff next).mpr (stop next taken)
  · right
    obtain ⟨next, taken, fresh⟩ : ∃ next, step node = some next ∧ next ∉ harvest.found := by
      simpa only [not_forall, exists_prop] using stop
    have inside := stays node underway.inside next taken
    have after := underway.goOn taken fresh inside
    refine ⟨(harvest.add next, next), ?_, after, ?_⟩
    · exact walkOn_of_fresh start taken (underway.sound.not_mem.mp fresh)
    · have larger := after.sound.size_le
      simp only [Harvest.add, Array.size_push] at larger ⊢
      omega

/-- A walk adds all that its start leads to, although it stops at a collected node. -/
theorem collectAlong_adds (known : ∀ node ∈ region, view.knows node = true)
    (stays : ∀ node ∈ region, ∀ next, step node = some next → next ∈ region)
    (start : node ∈ region) (closed : harvest.Closed region step) :
    ∃ after, view.collectAlong step harvest node = .ok after ∧ after.Closed region step ∧
      ∀ other, other ∈ after.found ↔ other ∈ harvest.found ∨ Leads step node other := by
  have elsewhere : ∀ other ∈ harvest.found, other ≠ node →
      ∀ next, step other = some next → next ∈ harvest.found :=
    fun other member _ => closed.closed other member
  have underway : Underway region step
      (fun other => other ∈ harvest.found ∨ Leads step node other) (harvest, node) :=
    ⟨start, closed.toSound, elsewhere, fun _ => Iff.rfl⟩
  obtain ⟨after, collected, closedAfter, gained⟩ :=
    repeatM_total (fun walk => region.length - walk.1.found.size)
      (fun _ => walkOn_underway known stays) underway
  exact ⟨after, collected, closedAfter, fun other => (gained other).symm⟩

/-- Steps from all candidates find what one step leads to. -/
theorem collectEach_collectNext {candidates : List ν}
    (known : ∀ node ∈ region, view.knows node = true)
    (stays : ∀ node ∈ region, ∀ next, step node = some next → next ∈ region)
    (inside : candidates ⊆ region) :
    ∃ after, collectEach (view.collectNext step) .empty candidates = .ok after ∧
      after.Sound region ∧ ∀ other, other ∈ after.found ↔ ∃ node ∈ candidates, step node = some other := by
  have each : ∀ (harvest : Harvest ν) node, harvest.Sound region → node ∈ region → ∃ after,
      view.collectNext step harvest node = .ok after ∧ after.Sound region ∧
        ∀ other, other ∈ after.found ↔ other ∈ harvest.found ∨ step node = some other :=
    fun harvest node sound start => collectNext_adds (known node start) (stays node start) sound
  obtain ⟨after, collected, sound, gained⟩ :=
    collectEach_adds each candidates inside (Harvest.closed_empty region step).toSound
  refine ⟨after, collected, sound, fun other => ?_⟩
  rw [gained]
  simp [Harvest.empty]

/-- Walks from all candidates find all that one or more steps lead to. -/
theorem collectEach_collectAlong {candidates : List ν}
    (known : ∀ node ∈ region, view.knows node = true)
    (stays : ∀ node ∈ region, ∀ next, step node = some next → next ∈ region)
    (inside : candidates ⊆ region) :
    ∃ after, collectEach (view.collectAlong step) .empty candidates = .ok after ∧
      after.Sound region ∧ ∀ other, other ∈ after.found ↔ ∃ node ∈ candidates, Leads step node other := by
  have each : ∀ (harvest : Harvest ν) node, harvest.Closed region step → node ∈ region → ∃ after,
      view.collectAlong step harvest node = .ok after ∧ after.Closed region step ∧
        ∀ other, other ∈ after.found ↔ other ∈ harvest.found ∨ Leads step node other :=
    fun harvest node closed start => collectAlong_adds known stays start closed
  obtain ⟨after, collected, closed, gained⟩ :=
    collectEach_adds each candidates inside (Harvest.closed_empty region step)
  refine ⟨after, collected, closed.toSound, fun other => ?_⟩
  rw [gained]
  simp [Harvest.empty]

end Walks

variable [LawfulBEq ν] [LawfulHashable ν]

/-- Collecting from candidates in a finite region comes to an end, finds each node once,
and finds exactly the nodes that are related to some candidate. -/
theorem collect_finds {view : View ν} {region candidates : List ν} (covers : view.Covers region)
    (inside : candidates ⊆ region) {combinator : Combinator} (meaning : combinator ≠ .column) :
    ∃ found, view.collect combinator candidates = .ok found ∧ found.Nodup ∧ found ⊆ region ∧
      ∀ left, left ∈ found ↔ ∃ right ∈ candidates, view.Related combinator left right := by
  suffices gathered : ∃ after, view.harvest candidates combinator = .ok after ∧
      after.Sound region ∧
      ∀ left, left ∈ after.found ↔ ∃ right ∈ candidates, view.Related combinator left right by
    obtain ⟨after, collected, sound, gained⟩ := gathered
    refine ⟨after.found.toList, by rw [collect, collected], sound.unique, ?_, fun left => ?_⟩
    · exact fun node member => sound.inside node (Array.mem_toList_iff.mp member)
    · rw [Array.mem_toList_iff, gained]
  cases combinator with
  | descendant => exact collectEach_collectAlong covers.knows covers.parent inside
  | child => exact collectEach_collectNext covers.knows covers.parent inside
  | nextSibling => exact collectEach_collectNext covers.knows covers.previousSibling inside
  | subsequentSibling => exact collectEach_collectAlong covers.knows covers.previousSibling inside
  | column => exact absurd rfl meaning

end View

end CssSelect
