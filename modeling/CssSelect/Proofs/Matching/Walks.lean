import Mathlib.Tactic.Choose
import CssSelect.Proofs.Matching.Chain

/-!
The order in which nodes are collected. A plain walk knows only what it has passed itself and
goes on until there is no next node or it comes round to one of its own. Collecting cuts walks
short at nodes that other walks have met, and this loses nothing: the result is the list of
first occurrences in the plain walks of the candidates, put one behind the other.

The invariant of a walk is that what was collected before is closed under the step. So where
a walk is cut short, the rest of the plain walk was collected before.
-/
namespace CssSelect

variable {ν : Type}

/-- Steps from `node` on until there is no next node, or the next one was passed before; the
last list holds the nodes that are still passed. -/
inductive Roams (step : ν → Option ν) : List ν → ν → List ν → Prop
  | stop {passed : List ν} {node : ν} (last : step node = none) : Roams step passed node []
  | round {passed : List ν} {node next : ν} (taken : step node = some next)
      (again : next ∈ passed) : Roams step passed node []
  | goOn {passed : List ν} {node next : ν} {rest : List ν} (taken : step node = some next)
      (fresh : next ∉ passed) (behind : Roams step (next :: passed) next rest) :
      Roams step passed node (next :: rest)

namespace Roams

variable {step : ν → Option ν} {passed rest : List ν} {node : ν}

/-- There is one walk from a node. -/
theorem unique {others : List ν} (roams : Roams step passed node rest)
    (same : Roams step passed node others) : rest = others := by
  induction roams generalizing others with
  | stop last =>
    cases same with
    | stop _ => rfl
    | round taken _ | goOn taken _ _ => exact absurd (taken.symm.trans last) (Option.some_ne_none _)
  | round taken again =>
    cases same with
    | stop _ | round _ _ => rfl
    | goOn taken' fresh _ =>
      obtain rfl := Option.some.inj (taken.symm.trans taken')
      exact absurd again fresh
  | goOn taken fresh _ ih =>
    cases same with
    | stop last => exact absurd (taken.symm.trans last) (Option.some_ne_none _)
    | round taken' again =>
      obtain rfl := Option.some.inj (taken.symm.trans taken')
      exact absurd again fresh
    | goOn taken' _ behind =>
      obtain rfl := Option.some.inj (taken.symm.trans taken')
      rw [ih behind]

/-- A walk passes no node twice. -/
theorem nodup (roams : Roams step passed node rest) :
    rest.Nodup ∧ ∀ other ∈ rest, other ∉ passed := by
  induction roams with
  | stop _ | round _ _ => exact ⟨.nil, fun _ member => absurd member List.not_mem_nil⟩
  | @goOn passed node next rest taken fresh behind ih =>
    obtain ⟨different, apart⟩ := ih
    refine ⟨List.nodup_cons.mpr ⟨fun member => apart next member List.mem_cons_self, different⟩, ?_⟩
    refine List.forall_mem_cons.mpr ⟨fresh, fun other member old => ?_⟩
    exact apart other member (List.mem_cons_of_mem _ old)

/-- A walk does not leave a set that is closed under the step. -/
theorem subset_of_closed {nodes : List ν}
    (closed : ∀ other ∈ nodes, ∀ next, step other = some next → next ∈ nodes)
    (roams : Roams step passed node rest) (first : ∀ next, step node = some next → next ∈ nodes) :
    rest ⊆ nodes := by
  induction roams with
  | stop _ | round _ _ => exact List.nil_subset _
  | goOn taken _ _ ih =>
    have next := first _ taken
    exact List.cons_subset.mpr ⟨next, ih (closed _ next)⟩

/-- In a finite region every walk comes to an end: each step passes one more of its nodes. -/
theorem exists_of_stays {region : List ν}
    (stays : ∀ other ∈ region, ∀ next, step other = some next → next ∈ region)
    (start : node ∈ region) (inside : passed ⊆ region) (different : passed.Nodup) :
    ∃ rest, Roams step passed node rest := by
  induction size : region.length - passed.length generalizing passed node with
  | zero =>
    cases taken : step node with
    | none => exact ⟨[], .stop taken⟩
    | some next =>
      -- All nodes of the region are passed, so the walk comes round.
      have whole : passed.Perm region := (different.subperm inside).perm_of_length_le (by omega)
      exact ⟨[], .round taken (whole.symm.subset (stays node start next taken))⟩
  | succ left ih =>
    cases taken : step node with
    | none => exact ⟨[], .stop taken⟩
    | some next =>
      by_cases again : next ∈ passed
      · exact ⟨[], .round taken again⟩
      · have next_mem := stays node start next taken
        have more : (next :: passed) ⊆ region := List.cons_subset.mpr ⟨next_mem, inside⟩
        have fewer : region.length - (next :: passed).length = left := by
          rw [List.length_cons]
          omega
        obtain ⟨rest, behind⟩ := ih next_mem more (List.nodup_cons.mpr ⟨again, different⟩) fewer
        exact ⟨next :: rest, .goOn taken again behind⟩

end Roams

namespace View

/-- The walk that a combinator asks for: a single step, or steps as long as there are new nodes. -/
def PlainWalk (view : View ν) : Combinator → ν → List ν → Prop
  | .descendant, node, walk => Roams view.parent [] node walk
  | .child, node, walk => walk = (view.parent node).toList
  | .nextSibling, node, walk => walk = (view.previousSibling node).toList
  | .subsequentSibling, node, walk => Roams view.previousSibling [] node walk
  | .column, _, _ => False

variable {view : View ν} {region : List ν}

theorem PlainWalk.unique {combinator : Combinator} {node : ν} {walk other : List ν}
    (first : view.PlainWalk combinator node walk) (second : view.PlainWalk combinator node other) :
    walk = other := by
  cases combinator with
  | descendant | subsequentSibling => exact Roams.unique first second
  | child | nextSibling => exact first.trans second.symm
  | column => exact first.elim

theorem Covers.exists_plainWalk (covers : view.Covers region) {combinator : Combinator}
    (meaning : combinator ≠ .column) {node : ν} (start : node ∈ region) :
    ∃ walk, view.PlainWalk combinator node walk := by
  cases combinator with
  | descendant => exact Roams.exists_of_stays covers.parent start (List.nil_subset _) .nil
  | child | nextSibling => exact ⟨_, rfl⟩
  | subsequentSibling =>
    exact Roams.exists_of_stays covers.previousSibling start (List.nil_subset _) .nil
  | column => exact absurd rfl meaning

end View

namespace Combinator

/-- The combinator whose steps are repeated in the walk of this one. -/
def single? : Combinator → Option Combinator
  | .descendant => some .child
  | .subsequentSibling => some .nextSibling
  | .child | .nextSibling | .column => none

theorem ne_column_of_single {combinator single : Combinator}
    (repeated : combinator.single? = some single) : single ≠ .column := by
  cases combinator <;> simp only [single?, Option.some.injEq, reduceCtorEq] at repeated
  all_goals
    subst repeated
    exact Combinator.noConfusion

end Combinator

namespace View

/-- What walks along many links relates is what one or more single steps relate. -/
theorem related_iff_of_single {view : View ν} {combinator single : Combinator}
    (repeated : combinator.single? = some single) (left right : ν) :
    view.Related combinator left right ↔
      Relation.TransGen (fun node next => view.Related single next node) right left := by
  cases combinator <;> simp only [Combinator.single?, Option.some.injEq, reduceCtorEq] at repeated
  all_goals
    subst repeated
    exact Iff.rfl

end View

section FirstSeen

variable [BEq ν] [LawfulBEq ν]

theorem eraseDups_of_nodup {nodes : List ν} (different : nodes.Nodup) : nodes.eraseDups = nodes := by
  induction nodes with
  | nil => rfl
  | cons node nodes ih =>
    obtain ⟨absent, different⟩ := List.nodup_cons.mp different
    have kept : nodes.filter (fun other => !other == node) = nodes := by
      refine List.filter_eq_self.mpr fun other member => ?_
      rw [Bool.not_eq_true', beq_eq_false_iff_ne]
      exact fun same => absent (same ▸ member)
    rw [List.eraseDups_cons, kept, ih different]

/-- Nodes behind others are first seen where they are first seen among themselves, unless they
were seen before. -/
theorem eraseDups_append_of_nodup {before nodes : List ν} (different : nodes.Nodup) :
    (before ++ nodes).eraseDups = before.eraseDups ++ nodes.removeAll before.eraseDups := by
  have fresh : nodes.removeAll before.eraseDups = nodes.removeAll before := by
    refine List.filter_congr fun node _ => ?_
    rw [List.elem_eq_mem, List.elem_eq_mem, decide_eq_decide.mpr List.mem_eraseDups]
  have unseen : (nodes.removeAll before).Nodup := different.filter _
  rw [List.eraseDups_append, fresh, eraseDups_of_nodup unseen]

end FirstSeen

namespace View

variable [BEq ν] [Hashable ν] {view : View ν} {step : ν → Option ν} {region : List ν}
  {harvest : Harvest ν} {node : ν}

/-- When each candidate adds what is new in its walk, all of them together add the first
occurrences in their walks. -/
theorem collectEach_firstSeen [LawfulBEq ν] {collect : Harvest ν → ν → Except Halt (Harvest ν)}
    (kept : Harvest ν → Prop) {walk : ν → List ν}
    (each : ∀ harvest node, kept harvest → node ∈ region → ∃ after,
      collect harvest node = .ok after ∧ kept after ∧
        after.found.toList = harvest.found.toList ++ (walk node).removeAll harvest.found.toList)
    (different : ∀ node ∈ region, (walk node).Nodup) {candidates : List ν}
    (inside : candidates ⊆ region) (start : kept harvest) (before : List ν)
    (held : harvest.found.toList = before.eraseDups) :
    ∃ after, collectEach collect harvest candidates = .ok after ∧
      after.found.toList = (before ++ candidates.flatMap walk).eraseDups := by
  induction candidates generalizing harvest before with
  | nil => exact ⟨harvest, rfl, by rw [List.flatMap_nil, List.append_nil, held]⟩
  | cons node nodes ih =>
    obtain ⟨node_mem, nodes_sub⟩ := List.cons_subset.mp inside
    obtain ⟨between, first, keptBetween, gained⟩ := each harvest node start node_mem
    have heldBetween : between.found.toList = (before ++ walk node).eraseDups := by
      rw [gained, held, eraseDups_append_of_nodup (different node node_mem)]
    obtain ⟨after, rest, gainedAfter⟩ := ih nodes_sub keptBetween (before ++ walk node) heldBetween
    refine ⟨after, by simp only [collectEach, first, rest], ?_⟩
    rw [gainedAfter, List.flatMap_cons, List.append_assoc]

/-- A single step adds its node if that is new. -/
theorem collectNext_appends [LawfulBEq ν] (known : view.knows node = true)
    (sound : harvest.Sound region) {after : Harvest ν}
    (collected : view.collectNext step harvest node = .ok after) :
    after.found.toList =
      harvest.found.toList ++ (step node).toList.removeAll harvest.found.toList := by
  rw [collectNext, ask_of_knows known] at collected
  cases taken : step node with
  | none =>
    rw [taken] at collected
    cases collected
    rw [Option.toList_none, List.nil_removeAll, List.append_nil]
  | some next =>
    rw [taken] at collected
    cases collected
    rw [Option.toList_some, List.cons_removeAll, List.nil_removeAll]
    by_cases old : next ∈ harvest.found
    · simp [(sound.seen_iff next).mpr old, old]
    · simp [sound.not_mem.mp old, old, Harvest.add]

theorem collectAlong_of_stop (known : view.knows node = true) (sound : harvest.Sound region)
    (stop : ∀ next, step node = some next → next ∈ harvest.found) :
    view.collectAlong step harvest node = .ok harvest := by
  apply repeatM_of_result
  apply walkOn_of_stop known
  exact fun next taken => (sound.seen_iff next).mpr (stop next taken)

variable [LawfulBEq ν] [LawfulHashable ν]

/-- A walk that is cut short at the nodes collected before it adds what the plain walk has
beyond them. `old` stays as it was at the start, and the walk itself has passed the rest. -/
theorem collectAlong_appends (known : ∀ node ∈ region, view.knows node = true)
    (stays : ∀ node ∈ region, ∀ next, step node = some next → next ∈ region) (old : List ν)
    (closed : ∀ other ∈ old, ∀ next, step other = some next → next ∈ old)
    {passed rest : List ν} (roams : Roams step passed node rest) (start : node ∈ region)
    (sound : harvest.Sound region)
    (held : ∀ other, other ∈ harvest.found ↔ other ∈ old ∨ other ∈ passed) :
    ∃ after, view.collectAlong step harvest node = .ok after ∧
      after.found.toList = harvest.found.toList ++ rest.removeAll old := by
  induction roams generalizing harvest with
  | stop last =>
    refine ⟨harvest, collectAlong_of_stop (known _ start) sound fun next taken => ?_, by simp⟩
    exact absurd (taken.symm.trans last) (Option.some_ne_none _)
  | round taken again =>
    refine ⟨harvest, collectAlong_of_stop (known _ start) sound fun next taken' => ?_, by simp⟩
    obtain rfl := Option.some.inj (taken.symm.trans taken')
    exact (held _).mpr (.inr again)
  | @goOn passed node next rest taken fresh behind ih =>
    by_cases before : next ∈ old
    · -- The plain walk goes on, but among the nodes that were collected before it.
      have inside : next :: rest ⊆ old :=
        List.cons_subset.mpr ⟨before, behind.subset_of_closed closed (closed next before)⟩
      have nothing : (next :: rest).removeAll old = [] := by
        refine List.filter_eq_nil_iff.mpr fun other member => ?_
        simp [inside member]
      rw [nothing, List.append_nil]
      refine ⟨harvest, collectAlong_of_stop (known _ start) sound fun next' taken' => ?_, rfl⟩
      obtain rfl := Option.some.inj (taken.symm.trans taken')
      exact (held _).mpr (.inl before)
    · have absent : next ∉ harvest.found := fun member =>
        ((held next).mp member).elim before fresh
      have inside := stays node start next taken
      obtain ⟨after, collected, gained⟩ := ih inside (sound.add absent inside) fun other => by
        rw [Harvest.mem_found_add, held, List.mem_cons, or_assoc, or_comm (a := other = next)]
      refine ⟨after, ?_, ?_⟩
      · rw [collectAlong, repeatM_of_next
          (walkOn_of_fresh (known node start) taken (sound.not_mem.mp absent))]
        exact collected
      · rw [gained, List.cons_removeAll, if_pos (by simpa using before)]
        simp [Harvest.add]

/-- Walks from all candidates collect the first occurrences in the plain walks. -/
theorem collectEach_collectAlong_firstSeen (known : ∀ node ∈ region, view.knows node = true)
    (stays : ∀ node ∈ region, ∀ next, step node = some next → next ∈ region)
    {walk : ν → List ν} (plain : ∀ node ∈ region, Roams step [] node (walk node))
    {candidates : List ν} (inside : candidates ⊆ region) :
    ∃ after, collectEach (view.collectAlong step) .empty candidates = .ok after ∧
      after.found.toList = (candidates.flatMap walk).eraseDups := by
  refine collectEach_firstSeen (fun harvest => harvest.Closed region step) ?_
    (fun node start => (plain node start).nodup.1) inside (Harvest.closed_empty region step) [] rfl
  intro harvest node closed start
  obtain ⟨after, collected, closedAfter, _⟩ := collectAlong_adds known stays start closed
  refine ⟨after, collected, closedAfter, ?_⟩
  obtain ⟨after', collected', gained⟩ := collectAlong_appends known stays harvest.found.toList
    (by simpa using closed.closed) (plain node start) start closed.toSound (by simp)
  obtain rfl := Except.ok.inj (collected.symm.trans collected')
  exact gained

/-- Single steps from all candidates collect the first occurrences of their nodes. -/
theorem collectEach_collectNext_firstSeen (known : ∀ node ∈ region, view.knows node = true)
    (stays : ∀ node ∈ region, ∀ next, step node = some next → next ∈ region)
    {walk : ν → List ν} (plain : ∀ node ∈ region, walk node = (step node).toList)
    {candidates : List ν} (inside : candidates ⊆ region) :
    ∃ after, collectEach (view.collectNext step) .empty candidates = .ok after ∧
      after.found.toList = (candidates.flatMap walk).eraseDups := by
  refine collectEach_firstSeen (fun harvest => harvest.Sound region) ?_ ?_ inside
    (Harvest.closed_empty region step).toSound [] rfl
  · intro harvest node sound start
    obtain ⟨after, collected, soundAfter, _⟩ :=
      collectNext_adds (known node start) (stays node start) sound
    refine ⟨after, collected, soundAfter, ?_⟩
    rw [plain node start]
    exact collectNext_appends (known node start) sound collected
  · intro node start
    rw [plain node start]
    cases step node <;> simp

/-- Collects across the combinator, and again from the nodes found, as often as is said. -/
def collectTimes (view : View ν) (combinator : Combinator) : Nat → List ν → Except Halt (List ν)
  | 0, candidates => .ok candidates
  | times + 1, candidates =>
    match view.collect combinator candidates with
    | .error halt => .error halt
    | .ok found => view.collectTimes combinator times found

section Times

variable {combinator : Combinator} {candidates : List ν}

omit [LawfulBEq ν] [LawfulHashable ν] in
theorem collectTimes_succ {found : List ν} (times : Nat)
    (collected : view.collect combinator candidates = .ok found) :
    view.collectTimes combinator (times + 1) candidates =
      view.collectTimes combinator times found := by
  rw [collectTimes, collected]

/-- Collecting again and again from candidates in a region finds nodes that one step after the
other leads to. -/
theorem collectTimes_sound (covers : view.Covers region) (meaning : combinator ≠ .column)
    (inside : candidates ⊆ region) (times : Nat) :
    ∃ reached, view.collectTimes combinator times candidates = .ok reached ∧
      ∀ left ∈ reached, ∃ right ∈ candidates,
        Relation.ReflTransGen (fun node next => view.Related combinator next node) right left := by
  induction times generalizing candidates with
  | zero => exact ⟨candidates, rfl, fun left member => ⟨left, member, .refl⟩⟩
  | succ times ih =>
    obtain ⟨found, collected, _, found_sub, related⟩ := collect_finds covers inside meaning
    obtain ⟨reached, again, sound⟩ := ih found_sub
    refine ⟨reached, (collectTimes_succ times collected).trans again, fun left member => ?_⟩
    obtain ⟨between, between_mem, path⟩ := sound left member
    obtain ⟨right, right_mem, first⟩ := (related between).mp between_mem
    exact ⟨right, right_mem, .head first path⟩

/-- What one or more steps lead to is found by collecting that often. -/
theorem exists_collectTimes (covers : view.Covers region) (meaning : combinator ≠ .column)
    {left right : ν}
    (path : Relation.TransGen (fun node next => view.Related combinator next node) right left)
    (inside : candidates ⊆ region) (member : right ∈ candidates) :
    ∃ times reached, view.collectTimes combinator (times + 1) candidates = .ok reached ∧
      left ∈ reached := by
  induction path using Relation.TransGen.head_induction_on generalizing candidates with
  | @single right related =>
    obtain ⟨found, collected, _, _, found_iff⟩ := collect_finds covers inside meaning
    exact ⟨0, found, collectTimes_succ 0 collected, (found_iff left).mpr ⟨right, member, related⟩⟩
  | @head right between related _ ih =>
    obtain ⟨found, collected, _, found_sub, found_iff⟩ := collect_finds covers inside meaning
    obtain ⟨times, reached, again, left_mem⟩ :=
      ih found_sub ((found_iff between).mpr ⟨right, member, related⟩)
    exact ⟨times + 1, reached, (collectTimes_succ _ collected).trans again, left_mem⟩

/-- Collecting once, twice and so on finds together what one or more steps lead to. -/
theorem mem_collectTimes_iff (covers : view.Covers region) (meaning : combinator ≠ .column)
    (inside : candidates ⊆ region) (left : ν) :
    (∃ times reached, view.collectTimes combinator (times + 1) candidates = .ok reached ∧
        left ∈ reached) ↔
      ∃ right ∈ candidates,
        Relation.TransGen (fun node next => view.Related combinator next node) right left := by
  constructor
  · rintro ⟨times, reached, taken, left_mem⟩
    obtain ⟨found, collected, _, found_sub, found_iff⟩ := collect_finds covers inside meaning
    rw [collectTimes_succ times collected] at taken
    obtain ⟨reached', again, sound⟩ := collectTimes_sound covers meaning found_sub times
    obtain rfl := Except.ok.inj (taken.symm.trans again)
    obtain ⟨between, between_mem, path⟩ := sound left left_mem
    obtain ⟨right, right_mem, first⟩ := (found_iff between).mp between_mem
    exact ⟨right, right_mem, .head' first path⟩
  · rintro ⟨right, member, path⟩
    exact exists_collectTimes covers meaning path inside member

end Times

/-- Collecting comes to an end with the first occurrences in the plain walks. -/
theorem collect_eq_firstSeen (covers : view.Covers region) {candidates : List ν}
    (inside : candidates ⊆ region) {combinator : Combinator} (meaning : combinator ≠ .column)
    {walk : ν → List ν} (plain : ∀ node ∈ region, view.PlainWalk combinator node (walk node)) :
    view.collect combinator candidates = .ok (candidates.flatMap walk).eraseDups := by
  suffices gathered : ∃ after, view.harvest candidates combinator = .ok after ∧
      after.found.toList = (candidates.flatMap walk).eraseDups by
    obtain ⟨after, collected, found⟩ := gathered
    rw [collect, collected, ← found]
  cases combinator with
  | descendant =>
    exact collectEach_collectAlong_firstSeen covers.knows covers.parent plain inside
  | child => exact collectEach_collectNext_firstSeen covers.knows covers.parent plain inside
  | nextSibling =>
    exact collectEach_collectNext_firstSeen covers.knows covers.previousSibling plain inside
  | subsequentSibling =>
    exact collectEach_collectAlong_firstSeen covers.knows covers.previousSibling plain inside
  | column => exact absurd rfl meaning

/-- Each candidate has one plain walk, and collecting gives the first occurrences in these
walks, candidate by candidate, each node once. Across a combinator that walks along many links
these are the nodes that single steps find when they are taken one or more times. -/
theorem collect_firstSeen_in_plainWalks (covers : view.Covers region) {candidates : List ν}
    (inside : candidates ⊆ region) {combinator : Combinator} (meaning : combinator ≠ .column) :
    ∃ (walk : ν → List ν) (found : List ν),
      (∀ node ∈ candidates, ∀ nodes, view.PlainWalk combinator node nodes ↔ nodes = walk node) ∧
      view.collect combinator candidates = .ok found ∧
      found = (candidates.flatMap walk).eraseDups ∧ found.Nodup ∧
      ∀ single, combinator.single? = some single →
        (∀ times, ∃ reached, view.collectTimes single times candidates = .ok reached) ∧
        ∀ node, node ∈ found ↔ ∃ times reached,
          view.collectTimes single (times + 1) candidates = .ok reached ∧ node ∈ reached := by
  obtain ⟨found, collected, different, found_sub, found_iff⟩ := collect_finds covers inside meaning
  choose! walk plain using fun node (start : node ∈ region) =>
    covers.exists_plainWalk meaning start
  have firstSeen := collect_eq_firstSeen covers inside meaning plain
  refine ⟨walk, found, fun node member nodes => ⟨fun other => ?_, fun same => ?_⟩, collected,
    Except.ok.inj (collected.symm.trans firstSeen), different, fun single repeated => ⟨?_, ?_⟩⟩
  · exact other.unique (plain node (inside member))
  · rw [same]
    exact plain node (inside member)
  · intro times
    obtain ⟨reached, taken, _⟩ :=
      collectTimes_sound covers (Combinator.ne_column_of_single repeated) inside times
    exact ⟨reached, taken⟩
  · intro node
    rw [found_iff, mem_collectTimes_iff covers (Combinator.ne_column_of_single repeated) inside]
    simp only [related_iff_of_single repeated]

/-- The walks of both nodes come round to where they began; the second candidate adds nothing. -/
theorem collect_aroundCircle :
    (circle.view.Covers [0, 1] ∧ [1, 0, 1] ⊆ [0, 1] ∧ Combinator.descendant ≠ .column) ∧
      circle.view.collect .descendant [1, 0, 1] = .ok [0, 1] := by
  have inside : [1, 0, 1] ⊆ [0, 1] := by decide
  have meaning : Combinator.descendant ≠ .column := by decide
  obtain ⟨walk, found, plain, collected, firstSeen, _⟩ :=
    collect_firstSeen_in_plainWalks circle_covers inside meaning
  have fromZero : circle.view.PlainWalk .descendant 0 [1, 0] :=
    .goOn rfl (by decide) (.goOn rfl (by decide) (.round rfl (by decide)))
  have fromOne : circle.view.PlainWalk .descendant 1 [0, 1] :=
    .goOn rfl (by decide) (.goOn rfl (by decide) (.round rfl (by decide)))
  refine ⟨⟨circle_covers, inside, meaning⟩, ?_⟩
  rw [collected, firstSeen]
  simp only [List.flatMap_cons, List.flatMap_nil, ← (plain 0 (by decide) _).mp fromZero,
    ← (plain 1 (by decide) _).mp fromOne]
  rfl

end View

end CssSelect
