import CssSelect.Document.Tree

/-!
What building does to the links of a tree, one law for each kind of link. A new node changes no
link of another. Putting a child behind the others changes four: the parent of the child, the
children of the parent, and the two links between the child and the one before it.
-/
namespace CssSelect.Tree

variable {tree : Tree} {id parent child : NodeId}

theorem get?_eq_none (outside : tree.size ≤ id) : tree.get? id = none :=
  Array.getElem?_eq_none outside

theorem exists_get? (inside : id < tree.size) : ∃ node, tree.get? id = some node :=
  ⟨tree.nodes[id], Array.getElem?_eq_getElem inside⟩

theorem children_eq_getD (tree : Tree) (id : NodeId) :
    tree.children id = ((tree.get? id).map fun node => node.children.toList).getD [] := by
  unfold children
  cases tree.get? id <;> rfl

/-- The kind of a node decides whether it is an element, and which. -/
theorem element?_eq_bind (tree : Tree) (id : NodeId) :
    tree.element? id = ((tree.get? id).map Node.kind).bind fun kind =>
      match kind with
      | .element element => some element
      | _ => none := by
  unfold element?
  rcases tree.get? id with _ | ⟨kind, _, _, _, _⟩
  · rfl
  · cases kind <;> rfl

theorem element?_congr {other : Tree} {otherId : NodeId}
    (same : (tree.get? id).map Node.kind = (other.get? otherId).map Node.kind) :
    tree.element? id = other.element? otherId := by
  rw [element?_eq_bind, element?_eq_bind, same]

/-! ## A new node -/

section Alloc

variable (tree : Tree) (kind : NodeKind) (id : NodeId)

@[simp] theorem size_alloc : (tree.alloc kind).2.size = tree.size + 1 :=
  Array.size_push _

theorem get?_alloc : (tree.alloc kind).2.get? id =
    if id = tree.size then some (.detached kind) else tree.get? id :=
  Array.getElem?_push

/-- A link that a new node does not have is the same everywhere. -/
theorem bind_get?_alloc {α : Type} {field : Node → Option α}
    (blank : field (.detached kind) = none) :
    ((tree.alloc kind).2.get? id).bind field = (tree.get? id).bind field := by
  rw [get?_alloc]
  split
  · next fresh =>
    rw [get?_eq_none (Nat.le_of_eq fresh.symm)]
    exact blank
  · rfl

@[simp] theorem parent?_alloc : (tree.alloc kind).2.parent? id = tree.parent? id :=
  bind_get?_alloc tree kind id rfl

@[simp] theorem previous?_alloc : (tree.alloc kind).2.previous? id = tree.previous? id :=
  bind_get?_alloc tree kind id rfl

@[simp] theorem next?_alloc : (tree.alloc kind).2.next? id = tree.next? id :=
  bind_get?_alloc tree kind id rfl

@[simp] theorem children_alloc : (tree.alloc kind).2.children id = tree.children id := by
  rw [children_eq_getD, children_eq_getD, get?_alloc]
  split
  · next fresh =>
    rw [get?_eq_none (Nat.le_of_eq fresh.symm)]
    rfl
  · rfl

end Alloc

/-! ## A change of one node -/

section Update

variable {changed : NodeId} {change : Node → Node}

theorem get?_update (tree : Tree) (changed : NodeId) (change : Node → Node) (id : NodeId) :
    (tree.update changed change).get? id =
      if changed = id then (tree.get? id).map change else tree.get? id :=
  Array.getElem?_modify

@[simp] theorem size_update (tree : Tree) (changed : NodeId) (change : Node → Node) :
    (tree.update changed change).size = tree.size :=
  Array.size_modify

/-- A field that a change keeps is the same everywhere. -/
theorem map_get?_update {α : Type} {field : Node → α}
    (kept : ∀ node, field (change node) = field node) :
    ((tree.update changed change).get? id).map field = (tree.get? id).map field := by
  rw [get?_update]
  split
  · rw [Option.map_map]
    congr 1
    exact funext kept
  · rfl

theorem bind_get?_update {α : Type} {field : Node → Option α}
    (kept : ∀ node, field (change node) = field node) :
    ((tree.update changed change).get? id).bind field = (tree.get? id).bind field := by
  have same : ∀ node : Option Node, node.bind field = (node.map field).join := by
    intro node
    cases node <;> rfl
  rw [same, map_get?_update kept, same]

/-- A link that a change sets is different at one node only. -/
theorem bind_get?_update_of_set {α : Type} {field : Node → Option α} {value : α}
    (set : ∀ node, field (change node) = some value) (inside : changed < tree.size) :
    ((tree.update changed change).get? id).bind field =
      if id = changed then some value else (tree.get? id).bind field := by
  rw [get?_update]
  by_cases here : id = changed
  · obtain ⟨node, found⟩ := exists_get? inside
    rw [if_pos here.symm, if_pos here, here, found]
    exact set node
  · rw [if_neg (Ne.symm here), if_neg here]

end Update

/-! ## A child behind the others -/

section Link

/-- A child with its parent and a parent with its children, whatever their siblings are. -/
def adopt (tree : Tree) (parent child : NodeId) : Tree :=
  (tree.update parent fun node => { node with children := node.children.push child }).update
    child fun node => { node with parent := some parent }

/-- The two steps of putting a child behind the others. -/
theorem link_eq (tree : Tree) (parent child : NodeId) :
    tree.link parent child =
      match (tree.children parent).getLast? with
      | none => tree.adopt parent child
      | some before => (tree.adopt parent child).linkSiblings before child := by
  have last : (tree.get? parent).bind (fun node => node.children.back?) =
      (tree.children parent).getLast? := by
    unfold children
    cases tree.get? parent with
    | none => rfl
    | some node => exact (Array.getLast?_toList _).symm
  rw [← last]
  rfl

/-- A field that has nothing to do with siblings is settled by the first step. -/
theorem map_get?_link {α : Type} {field : Node → α}
    (next : ∀ node link, field { node with next := link } = field node)
    (previous : ∀ node link, field { node with previous := link } = field node) :
    ((tree.link parent child).get? id).map field =
      ((tree.adopt parent child).get? id).map field := by
  rw [link_eq]
  split
  · rfl
  · simp only [linkSiblings, map_get?_update, next, previous, implies_true]

/-- What a node is does not depend on where it is put. -/
theorem kind_link : ((tree.link parent child).get? id).map Node.kind =
    (tree.get? id).map Node.kind := by
  rw [map_get?_link (fun _ _ => rfl) (fun _ _ => rfl)]
  simp only [adopt, map_get?_update, implies_true]

@[simp] theorem size_adopt : (tree.adopt parent child).size = tree.size := by
  rw [adopt, size_update, size_update]

@[simp] theorem size_link : (tree.link parent child).size = tree.size := by
  rw [link_eq]
  split
  · exact size_adopt
  · rw [linkSiblings, size_update, size_update, size_adopt]

theorem children_link (exists_parent : parent < tree.size) (id : NodeId) :
    (tree.link parent child).children id =
      if id = parent then tree.children parent ++ [child] else tree.children id := by
  rw [children_eq_getD, map_get?_link (fun _ _ => rfl) (fun _ _ => rfl)]
  simp only [adopt, map_get?_update, implies_true]
  rw [get?_update]
  by_cases here : id = parent
  · obtain ⟨node, found⟩ := exists_get? exists_parent
    rw [if_pos here.symm, if_pos here, children_eq_getD, here, found]
    exact Array.toList_push
  · rw [if_neg (Ne.symm here), if_neg here, children_eq_getD]

theorem parent?_adopt (exists_child : child < tree.size) (id : NodeId) :
    (tree.adopt parent child).parent? id = if id = child then some parent else tree.parent? id := by
  refine Eq.trans (bind_get?_update_of_set (fun _ => rfl) (by rwa [size_update])) ?_
  simp only [bind_get?_update, implies_true]
  rfl

theorem parent?_link (exists_child : child < tree.size) (id : NodeId) :
    (tree.link parent child).parent? id = if id = child then some parent else tree.parent? id := by
  rw [← parent?_adopt exists_child, link_eq]
  split
  · rfl
  · simp only [linkSiblings, parent?, bind_get?_update, implies_true]

theorem previous?_adopt : (tree.adopt parent child).previous? id = tree.previous? id := by
  simp only [adopt, previous?, bind_get?_update, implies_true]

theorem previous?_link (exists_child : child < tree.size) (id : NodeId) :
    (tree.link parent child).previous? id =
      if id = child then (tree.children parent).getLast?.or (tree.previous? child)
      else tree.previous? id := by
  rw [link_eq]
  cases (tree.children parent).getLast? with
  | none =>
    rw [Option.none_or, previous?_adopt]
    split
    · next here => rw [here]
    · rfl
  | some before =>
    refine Eq.trans (bind_get?_update_of_set (fun _ => rfl) (by simpa using exists_child)) ?_
    simp only [bind_get?_update, implies_true, Option.some_or]
    exact ite_congr rfl (fun _ => rfl) fun _ => previous?_adopt

theorem next?_adopt : (tree.adopt parent child).next? id = tree.next? id := by
  simp only [adopt, next?, bind_get?_update, implies_true]

theorem next?_link (inside : ∀ before ∈ tree.children parent, before < tree.size) (id : NodeId) :
    (tree.link parent child).next? id =
      if (tree.children parent).getLast? = some id then some child else tree.next? id := by
  rw [link_eq]
  cases last : (tree.children parent).getLast? with
  | none => exact next?_adopt
  | some before =>
    have exists_before := inside before (List.mem_of_getLast? last)
    simp only [linkSiblings, next?, bind_get?_update, implies_true]
    refine Eq.trans (bind_get?_update_of_set (fun _ => rfl) (by simpa using exists_before)) ?_
    exact ite_congr (by rw [Option.some.injEq, eq_comm (a := id)]) (fun _ => rfl) fun _ => next?_adopt

end Link

/-! ## A new child -/

section Append

variable {kind : NodeKind}

@[simp] theorem size_append : (tree.append parent kind).2.size = tree.size + 1 := by
  rw [append, size_link, size_alloc]

theorem children_append (allocated : parent < tree.size) (id : NodeId) :
    (tree.append parent kind).2.children id =
      if id = parent then tree.children parent ++ [tree.size] else tree.children id := by
  rw [append, children_link (by rw [size_alloc]; exact Nat.lt_succ_of_lt allocated), children_alloc,
    children_alloc]
  rfl

theorem kind_append_new : ((tree.append parent kind).2.get? tree.size).map Node.kind = some kind := by
  rw [append, kind_link, get?_alloc, if_pos rfl]
  rfl

theorem kind_append (old : id < tree.size) :
    ((tree.append parent kind).2.get? id).map Node.kind = (tree.get? id).map Node.kind := by
  rw [append, kind_link, get?_alloc, if_neg (Nat.ne_of_lt old)]

end Append

end CssSelect.Tree
