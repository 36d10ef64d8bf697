import CssSelect.Document.Printer
import CssSelect.Proofs.Document.Order
import CssSelect.Proofs.Document.Places
import CssSelect.Proofs.Text.Lines

/-!
A tree as it is printed: the nodes of a subtree in document order, each with a line feed behind it
and behind two blanks for each level. Texts keep to their line, as their line feeds are written as
escapes. Tags, attributes and comments are written as they are, so a node takes more than one line
as soon as one of these holds a line feed.
-/
namespace CssSelect

/-- No name and no value has a line feed. -/
def Attributes.OnOneLine (attributes : Attributes) : Prop :=
  ∀ entry ∈ attributes.entries, '\n' ∉ entry.1.toList ∧ '\n' ∉ entry.2.toList

instance decidableOnOneLine (attributes : Attributes) : Decidable attributes.OnOneLine :=
  inferInstanceAs (Decidable (∀ entry ∈ attributes.entries, _ ∧ _))

namespace NodeKind

/-- No line feed is written for a node as it is. Those of a text are never. -/
def OnOneLine : NodeKind → Prop
  | .document | .text _ => True
  | .element data => '\n' ∉ data.tag.toList ∧ data.attributes.OnOneLine
  | .comment content => '\n' ∉ content.toList

theorem feed_not_mem_replaceChar (text : List Char) :
    '\n' ∉ Text.replaceChar '\n' ['\\', 'n'] text := by
  rw [Text.replaceChar, List.mem_flatMap]
  rintro ⟨c, _, written⟩
  split at written
  · exact absurd written (by decide)
  · next other =>
    rw [List.mem_singleton] at written
    exact other (beq_iff_eq.mpr written.symm)

end NodeKind

theorem Attributes.feed_not_mem_write_iff (attributes : Attributes) :
    '\n' ∉ attributes.write.toList ↔ attributes.OnOneLine := by
  rw [Attributes.write, Text.feed_not_mem_join_iff]
  refine forall₂_congr fun entry _ => ?_
  by_cases empty : entry.2 = ""
  · simp [empty, toString]
  · simp [String.isEmpty_iff, empty, toString]

/-- What a node is written as stays on one line exactly if it has no line feed in it but those of a
text. -/
theorem NodeKind.feed_not_mem_write_iff (kind : NodeKind) :
    '\n' ∉ kind.write.toList ↔ kind.OnOneLine := by
  cases kind with
  | document => simp [write, OnOneLine]
  | element data =>
    rw [OnOneLine, ← data.attributes.feed_not_mem_write_iff]
    simp [write, toString]
  | text content =>
    have escaped := feed_not_mem_replaceChar content.toList
    simp [write, OnOneLine, toString, escaped]
  | comment content => simp [write, OnOneLine, toString]

namespace Tree

open View (Preorder)
open Text (joinEnded)

/-- All nodes of the tree, and not only its elements. -/
def allNodes (tree : Tree) : View NodeId :=
  { tree.view with children := tree.children }

/-- How many ancestors a node has. -/
def depth (tree : Tree) (id : NodeId) : Nat :=
  (tree.ancestors id tree.size).length

/-- What is printed for a node `indent` levels deep, up to the line feed behind it. -/
def printedNode (tree : Tree) (indent : Nat) (id : NodeId) : String :=
  String.ofList (List.replicate (2 * indent) ' ') ++
    ((tree.get? id).map fun node => node.kind.write).getD ""

variable {tree : Tree} {id : NodeId}

/-! ## Subtrees -/

theorem WellLinked.depth_child (linked : tree.WellLinked) {above : NodeId}
    (member : id ∈ tree.children above) : tree.depth id = tree.depth above + 1 := by
  rw [depth, linked.ancestors_child ((linked.mem_children_iff above id).mp member)]
  rfl

/-- The nodes of a subtree in document order. -/
theorem WellLinked.exists_subtree (linked : tree.WellLinked) (id : NodeId) :
    ∃ nodes, Preorder tree.allNodes [id] nodes ∧ nodes.Pairwise tree.Precedes ∧
      ∀ other, other ∈ nodes ↔ tree.Within id other := by
  obtain ⟨below, inner⟩ : ∃ below, Preorder tree.allNodes (tree.allNodes.children id) below :=
    linked.exists_preorder_of_sublist (fun _ => rfl) (fun _ => List.Sublist.refl _) id
  have all : Preorder tree.allNodes [id] (id :: (below ++ [])) := .cons rfl inner .nil
  have within : ∀ other, other ∈ id :: (below ++ []) ↔ tree.Within id other := by
    have child_iff : ∀ above child, child ∈ tree.allNodes.children above ↔
        tree.parent? child = some above := linked.mem_children_iff
    intro other
    rw [all.mem_iff, Within, ← Relation.reflTransGen_swap]
    simp only [List.mem_singleton, exists_eq_left, child_iff]
  obtain ⟨ordered, inside⟩ :=
    linked.preorder_ordered (fun _ => List.Sublist.refl _) inner (List.Sublist.refl _)
  refine ⟨_, all, ?_, within⟩
  rw [List.append_nil, List.pairwise_cons]
  refine ⟨fun other member => .inl ?_, ordered⟩
  obtain ⟨top, child, path⟩ := inside other member
  exact Relation.TransGen.tail' path ((linked.mem_children_iff id top).mp child)

theorem WellLinked.lt_size_of_within (linked : tree.WellLinked) (allocated : id < tree.size)
    {other : NodeId} (within : tree.Within id other) : other < tree.size := by
  rcases Relation.ReflTransGen.cases_head_iff.mp within with rfl | ⟨next, up, _⟩
  · exact allocated
  · exact linked.child_lt next other ((linked.mem_children_iff next other).mpr up)

/-- A subtree has no more nodes than the tree. -/
theorem WellLinked.length_le_size (linked : tree.WellLinked) {nodes : List NodeId}
    (ordered : nodes.Pairwise tree.Precedes) (allocated : ∀ other ∈ nodes, other < tree.size) :
    nodes.length ≤ tree.size := by
  have inside : nodes ⊆ List.range tree.size :=
    fun other member => List.mem_range.mpr (allocated other member)
  have short := ((linked.nodup_of_ordered ordered).subperm inside).length_le
  rwa [List.length_range] at short

/-! ## Printing -/

theorem printFrom_succ (allocated : id < tree.size) (levels indent : Nat) (printed : String) :
    tree.printFrom (levels + 1) id indent printed =
      (tree.children id).foldl
        (fun printed child => tree.printFrom levels child (indent + 1) printed)
        (printed ++ tree.printedNode indent id ++ "\n") := by
  obtain ⟨node, found⟩ := exists_get? allocated
  simp only [printFrom, children, printedNode, found, Option.map_some, Option.getD_some,
    String.append_assoc, Array.foldl_toList]

/-- Printing a forest adds its nodes in their order. As many levels as the forest has nodes are
enough; the induction is on the forest, and each node is a level for all below it. -/
theorem WellLinked.foldl_printFrom (linked : tree.WellLinked) {forest nodes : List NodeId}
    (all : Preorder tree.allNodes forest nodes) {base above : Nat}
    (level : ∀ node ∈ forest, tree.depth node = base + above)
    (allocated : ∀ node ∈ forest, node < tree.size) {levels : Nat}
    (enough : nodes.length ≤ levels) (indent : Nat) (printed : String) :
    forest.foldl (fun printed node => tree.printFrom levels node (indent + above) printed) printed =
      printed ++ joinEnded (nodes.map fun node =>
        tree.printedNode (indent + (tree.depth node - base)) node) := by
  induction all generalizing above levels printed with
  | nil => simp [joinEnded]
  | @cons node others below behind _ _ _ ihInner ihRest =>
    obtain ⟨here, later⟩ := List.forall_mem_cons.mp level
    obtain ⟨exists_node, exists_others⟩ := List.forall_mem_cons.mp allocated
    simp only [List.length_cons, List.length_append] at enough
    obtain ⟨fewer, rfl⟩ := Nat.exists_eq_succ_of_ne_zero (Nat.ne_zero_of_lt enough)
    have children : ∀ child ∈ tree.children node, tree.depth child = base + (above + 1) := by
      intro child member
      rw [linked.depth_child member, here, Nat.add_assoc]
    have inside : ∀ printed, (tree.children node).foldl
        (fun printed child => tree.printFrom fewer child (indent + (above + 1)) printed) printed =
          printed ++ joinEnded (below.map fun node =>
            tree.printedNode (indent + (tree.depth node - base)) node) :=
      ihInner children (linked.child_lt node) (by omega)
    have rest := ihRest later exists_others (by omega : behind.length ≤ fewer + 1)
    have margin : indent + (tree.depth node - base) = indent + above := by omega
    rw [List.foldl_cons, printFrom_succ exists_node, Nat.add_assoc, inside, rest, List.map_cons,
      List.map_append, Text.joinEnded_cons, Text.joinEnded_append, margin]
    simp only [String.append_assoc]

/-- What is printed for a subtree: its nodes in document order, and nothing else. -/
theorem WellLinked.print_eq (linked : tree.WellLinked) (allocated : id < tree.size)
    {nodes : List NodeId} (all : Preorder tree.allNodes [id] nodes)
    (enough : nodes.length ≤ tree.size) (indent : Nat) :
    tree.print id indent = joinEnded (nodes.map fun node =>
      tree.printedNode (indent + (tree.depth node - tree.depth id)) node) := by
  have top : ∀ node ∈ [id], tree.depth node = tree.depth id + 0 := by simp
  have whole := linked.foldl_printFrom all top (by simpa using allocated) enough indent ""
  rw [print]
  simpa using whole

/-- No line feed is written for a node as it is. -/
def OnOneLine (tree : Tree) (id : NodeId) : Prop :=
  ∀ node, tree.get? id = some node → node.kind.OnOneLine

theorem onOneLine_iff {kind : NodeKind} (shown : (tree.get? id).map Node.kind = some kind) :
    tree.OnOneLine id ↔ kind.OnOneLine := by
  obtain ⟨node, found, rfl⟩ := Option.map_eq_some_iff.mp shown
  simp [OnOneLine, found]

theorem feed_not_mem_printedNode_iff (allocated : id < tree.size) (indent : Nat) :
    '\n' ∉ (tree.printedNode indent id).toList ↔ tree.OnOneLine id := by
  obtain ⟨node, found⟩ := exists_get? allocated
  have shown : (tree.get? id).map Node.kind = some node.kind := by rw [found, Option.map_some]
  rw [onOneLine_iff shown, ← node.kind.feed_not_mem_write_iff, printedNode, found]
  simp

/-- What a subtree is printed as: for each of its nodes in document order two blanks for each level,
the node itself, and a line feed. The first node has the level `indent`. -/
structure PrintedAs (tree : Tree) (id : NodeId) (indent : Nat) (nodes : List NodeId)
    (printed : String) : Prop where
  ordered : nodes.Pairwise tree.Precedes
  mem_iff : ∀ other, other ∈ nodes ↔ tree.Within id other
  text : printed = joinEnded (nodes.map fun node =>
    tree.printedNode (indent + (tree.depth node - tree.depth id)) node)
  as_many_lines_iff : (Text.lines printed.toList).length = nodes.length ↔
    ∀ node ∈ nodes, tree.OnOneLine node
  lines : (∀ node ∈ nodes, tree.OnOneLine node) → Text.lines printed.toList = nodes.map fun node =>
    (tree.printedNode (indent + (tree.depth node - tree.depth id)) node).toList

/-- A subtree is printed node by node, if there is room for the blanks in front of its first node.
There are as many lines as nodes exactly if no tag, no attribute and no comment in the subtree has a
line feed, and then the lines are what was printed for the nodes. -/
theorem print_by_lines (built : tree.WellBuilt) (allocated : id < tree.size) {indent : Nat}
    (fits : 2 * indent ≤ marginLimit) :
    ∃ nodes printed, tree.print? id indent = some printed ∧
      tree.PrintedAs id indent nodes printed := by
  have linked := built.wellLinked
  obtain ⟨nodes, all, ordered, within⟩ := linked.exists_subtree id
  have inside : ∀ other ∈ nodes, other < tree.size :=
    fun other member => linked.lt_size_of_within allocated ((within other).mp member)
  have text := linked.print_eq allocated all (linked.length_le_size ordered inside) indent
  obtain ⟨asMany, lines⟩ := Text.joinEnded_by_lines fun node member =>
    feed_not_mem_printedNode_iff (inside node member) (indent + (tree.depth node - tree.depth id))
  rw [← text] at asMany lines
  exact ⟨nodes, tree.print id indent, if_pos fits, ordered, within, text, asMany, lines⟩

/-- An element with an attribute, and a text of two lines in it. -/
def twoLineText : Tree :=
  ((empty.append root (.element ⟨"p", .ofList [("id", "x")]⟩)).2.append 1 (.text "x\ny")).2

theorem print_twoLineText :
    (twoLineText.WellBuilt ∧ root < twoLineText.size ∧ 2 * 1 ≤ marginLimit) ∧
      ∃ nodes, twoLineText.PrintedAs root 1 nodes
        "  #document\n    <p id=\"x\">\n      \"x\\ny\"\n" ∧ nodes.length = 3 := by
  have built : twoLineText.WellBuilt := by
    refine Tree.WellBuilt.append (.append .empty ?_ _) ?_ _
    all_goals decide
  have allocated : root < twoLineText.size := by decide
  have fits : 2 * 1 ≤ marginLimit := by decide
  obtain ⟨nodes, printed, prints, as⟩ := print_by_lines built allocated fits
  have text : printed = "  #document\n    <p id=\"x\">\n      \"x\\ny\"\n" :=
    Option.some.inj (prints.symm.trans (by decide +kernel))
  have oneLine : ∀ node ∈ nodes, twoLineText.OnOneLine node := by
    have document : (twoLineText.get? 0).map Node.kind = some .document := rfl
    have element : (twoLineText.get? 1).map Node.kind =
      some (.element ⟨"p", .ofList [("id", "x")]⟩) := rfl
    have content : (twoLineText.get? 2).map Node.kind = some (.text "x\ny") := rfl
    have few : ∀ node : Nat, node < 3 → node = 0 ∨ node = 1 ∨ node = 2 := by omega
    intro node member
    have inside := built.wellLinked.lt_size_of_within allocated ((as.mem_iff node).mp member)
    rcases few node inside with rfl | rfl | rfl
    · exact (onOneLine_iff document).mpr trivial
    · exact (onOneLine_iff element).mpr ⟨by decide, by decide⟩
    · exact (onOneLine_iff content).mpr trivial
  refine ⟨⟨built, allocated, fits⟩, nodes, text ▸ as, ?_⟩
  rw [← as.as_many_lines_iff.mpr oneLine, text]
  decide

/-- A comment of two lines. -/
def commented : Tree :=
  (empty.alloc (.comment "a\nb")).2

/-- The subtree is a single node, and is printed on two lines. -/
theorem print_commented :
    (commented.WellBuilt ∧ 1 < commented.size ∧ ∀ other, commented.Within 1 other ↔ other = 1) ∧
      commented.print? 1 0 = some "<!-- a\nb -->\n" ∧
      Text.lines "<!-- a\nb -->\n".toList = ["<!-- a".toList, "b -->".toList] := by
  have orphans : ∀ id, commented.parent? id = none := by
    rintro (_ | _ | id) <;> rfl
  refine ⟨⟨.step .empty (.alloc _), by decide, fun other => ⟨fun within => ?_, ?_⟩⟩,
    by decide +kernel, by decide⟩
  · rcases Relation.ReflTransGen.cases_head_iff.mp within with same | ⟨above, up, _⟩
    · exact same
    · rw [orphans] at up
      cases up
  · rintro rfl
    exact .refl

end Tree

end CssSelect
