import Std.Data.String.ToNat
import CssSelect.Proofs.Document.Places

/-!
Paths name nodes. A path is taken apart at its slashes, and its numbers say from the document
downwards which child comes next; what is found there is the node that the path was written for.
Only the nodes below the document have such a path: a subtree that has not been put in yet begins
again at a lone slash.
-/
namespace CssSelect.Tree

open View (Leads)

variable {tree : Tree}

/-- The numbers between the slashes of a path. -/
def readPlaces? (path : String) : Option (List Nat) :=
  (((path.split '/').toList.map (·.copy)).filter (· != "")).mapM String.toNat?

/-- The node that is met by going from a node to the child at the first place, from there to the
child at the second, and so on. -/
def descend? (tree : Tree) (id : NodeId) : List Nat → Option NodeId
  | [] => some id
  | place :: places => (tree.children id)[place]?.bind fun child => tree.descend? child places

/-- The node that a path leads to, from the document on. -/
def find? (tree : Tree) (path : String) : Option NodeId :=
  (readPlaces? path).bind (tree.descend? root)

/-- The document and the nodes that have it among their ancestors. -/
def Attached (tree : Tree) (id : NodeId) : Prop :=
  id = root ∨ Leads tree.parent? id root

/-- A path can be followed back to its node, so no two nodes have the same one; the path of a child
is that of its parent and one number. -/
structure Navigable (tree : Tree) : Prop where
  find?_path : ∀ id, tree.Attached id → tree.find? (tree.path id) = some id
  path_injective : ∀ id other, tree.Attached id → tree.Attached other →
    tree.path id = tree.path other → id = other
  path_eq_slash_iff : ∀ id, tree.Attached id → (tree.path id = "/" ↔ id = root)
  path_child : ∀ parent child, tree.parent? child = some parent →
    ∃ place : Nat, (tree.children parent)[place]? = some child ∧
      readPlaces? (tree.path child) = (readPlaces? (tree.path parent)).map (· ++ [place]) ∧
      tree.path child =
        (if tree.path parent = "/" then "" else tree.path parent) ++ "/" ++ toString place

/-! ## Reading a path -/

theorem toNat?_toString (place : Nat) : (toString place).toNat? = some place :=
  Nat.toNat?_repr place

theorem isDigit_of_mem_toString {place : Nat} {c : Char} (member : c ∈ (toString place).toList) :
    c.isDigit = true := by
  rw [Nat.toString_eq_repr, Nat.toList_repr] at member
  exact Nat.isDigit_of_mem_toDigits (by decide) (by decide) member

theorem slash_not_mem_toString (place : Nat) : '/' ∉ (toString place).toList :=
  fun member => absurd (isDigit_of_mem_toString member) (by decide)

theorem mapM_toNat?_toString (places : List Nat) :
    (places.map toString).mapM String.toNat? = some places := by
  induction places with
  | nil => rfl
  | cons place places ih =>
    rw [List.map_cons, List.mapM_cons, toNat?_toString, ih]
    rfl

theorem filter_toString (places : List Nat) :
    (places.map toString).filter (· != "") = places.map toString := by
  rw [List.filter_eq_self]
  intro piece member
  obtain ⟨place, _, rfl⟩ := List.mem_map.mp member
  simp

/-- A path is made of pieces with slashes between them; in front of the first slash stands nothing,
and nothing stands behind the only slash of the document's path. -/
theorem exists_pieces (places : List Nat) :
    ∃ pieces, "/" ++ "/".intercalate (places.map toString) = "/".intercalate pieces ∧
      pieces ≠ [] ∧ (∀ piece ∈ pieces, '/' ∉ piece.toList) ∧
      pieces.filter (· != "") = places.map toString := by
  cases places with
  | nil => exact ⟨["", ""], rfl, List.cons_ne_nil _ _, by simp, rfl⟩
  | cons place places =>
    refine ⟨"" :: (place :: places).map toString, ?_, List.cons_ne_nil _ _, ?_, ?_⟩
    · rw [List.map_cons, String.intercalate_cons_cons, String.empty_append]
    · rw [List.forall_mem_cons, List.forall_mem_map]
      exact ⟨List.not_mem_nil, fun place _ => slash_not_mem_toString place⟩
    · rw [List.filter_cons_of_neg (by simp), filter_toString]

theorem readPlaces?_path (tree : Tree) (id : NodeId) :
    readPlaces? (tree.path id) = some (tree.places id) := by
  obtain ⟨pieces, joined, nonempty, plain, named⟩ := exists_pieces (tree.places id)
  have split := String.toList_split_intercalate plain
  rw [if_neg nonempty] at split
  rw [readPlaces?, path_eq, joined]
  change ((((String.singleton '/').intercalate pieces).split '/').toList.map _ |>.filter _).mapM _ = _
  rw [split, named, mapM_toNat?_toString]

/-! ## Following a path -/

theorem descend?_append (tree : Tree) (id : NodeId) (places behind : List Nat) :
    tree.descend? id (places ++ behind) =
      (tree.descend? id places).bind fun other => tree.descend? other behind := by
  induction places generalizing id with
  | nil => rfl
  | cons place places ih =>
    rw [List.cons_append, descend?, descend?, Option.bind_assoc]
    exact congrArg (Option.bind _) (funext ih)

/-- The induction is on the way up to the document: a node is found through its parent. -/
theorem WellLinked.descend?_places (linked : tree.WellLinked) {id : NodeId}
    (attached : tree.Attached id) : tree.descend? root (tree.places id) = some id := by
  have top : tree.descend? root (tree.places root) = some root := by
    rw [places_of_orphan linked.root_parent, descend?]
  have step : ∀ child parent, tree.parent? child = some parent →
      tree.descend? root (tree.places parent) = some parent →
      tree.descend? root (tree.places child) = some child := by
    intro child parent up found
    obtain ⟨place, here⟩ := linked.consistent.exists_place up
    rw [linked.places_child here, descend?_append, found, Option.bind_some, descend?, here,
      Option.bind_some, descend?]
  rcases attached with rfl | path
  · exact top
  · induction path using Relation.TransGen.head_induction_on with
    | single up => exact step _ _ up top
    | head up _ found => exact step _ _ up found

theorem WellLinked.find?_path (linked : tree.WellLinked) {id : NodeId}
    (attached : tree.Attached id) : tree.find? (tree.path id) = some id := by
  rw [find?, readPlaces?_path, Option.bind_some, linked.descend?_places attached]

/-- The lone slash is the path of a node without places, and of no other. -/
theorem path_eq_slash_iff_places (tree : Tree) (id : NodeId) :
    tree.path id = "/" ↔ tree.places id = [] := by
  constructor
  · intro slash
    have alone : readPlaces? "/" = some [] := readPlaces?_path empty root
    have read := readPlaces?_path tree id
    rw [slash, alone] at read
    exact (Option.some.inj read).symm
  · intro nowhere
    rw [path, nowhere]

theorem writePlaces_concat (places : List Nat) (place : Nat) :
    writePlaces (places ++ [place]) = writePlaces places ++ "/" ++ toString place := by
  induction places with
  | nil => rfl
  | cons first places ih =>
    rw [List.cons_append, writePlaces_cons, ih, writePlaces_cons]
    simp only [String.append_assoc]

theorem path_of_places_concat {id other : NodeId} {place : Nat}
    (places : tree.places id = tree.places other ++ [place]) :
    tree.path id =
      (if tree.path other = "/" then "" else tree.path other) ++ "/" ++ toString place := by
  cases above : tree.places other with
  | nil =>
    rw [if_pos ((path_eq_slash_iff_places tree other).mpr above), path, places, above]
    rfl
  | cons first others =>
    have notSlash : tree.path other ≠ "/" := by
      rw [Ne, path_eq_slash_iff_places, above]
      exact List.cons_ne_nil _ _
    rw [if_neg notSlash, path, places, path, above]
    exact writePlaces_concat (first :: others) place

theorem WellLinked.path_child (linked : tree.WellLinked) {parent child : NodeId}
    (up : tree.parent? child = some parent) :
    ∃ place : Nat, (tree.children parent)[place]? = some child ∧
      readPlaces? (tree.path child) = (readPlaces? (tree.path parent)).map (· ++ [place]) ∧
      tree.path child =
        (if tree.path parent = "/" then "" else tree.path parent) ++ "/" ++ toString place := by
  obtain ⟨place, here⟩ := linked.consistent.exists_place up
  have places := linked.places_child here
  refine ⟨place, here, ?_, path_of_places_concat places⟩
  rw [readPlaces?_path, readPlaces?_path, places, Option.map_some]

/-- In every tree that is built step by step the path of an attached node leads to this node and to no
other. Loading builds trees so too (`wellBuilt_of_load`), and they may be built on. -/
theorem navigable_of_wellBuilt (built : tree.WellBuilt) : tree.Navigable := by
  have linked := built.wellLinked
  have injective : ∀ id other, tree.Attached id → tree.Attached other →
      tree.path id = tree.path other → id = other := by
    intro id other attached attachedOther same
    have found := linked.find?_path attached
    rw [same, linked.find?_path attachedOther] at found
    exact (Option.some.inj found).symm
  constructor
  case find?_path => exact fun id attached => linked.find?_path attached
  case path_injective => exact injective
  case path_eq_slash_iff =>
    intro id attached
    have top : tree.path root = "/" :=
      (path_eq_slash_iff_places tree root).mpr (places_of_orphan linked.root_parent)
    constructor
    · exact fun slash => injective id root attached (.inl rfl) (slash.trans top.symm)
    · rintro rfl
      exact top
  case path_child => exact fun parent child up => linked.path_child up

/-- An element with so many texts below it. -/
def withTexts : Nat → Tree
  | 0 => (empty.append root (.element ⟨"a", .empty⟩)).2
  | count + 1 => ((withTexts count).append 1 (.text "x")).2

theorem size_withTexts (count : Nat) : (withTexts count).size = count + 2 := by
  induction count with
  | zero => rfl
  | succ count ih => rw [withTexts, size_append, ih]

theorem wellBuilt_withTexts (count : Nat) : (withTexts count).WellBuilt := by
  induction count with
  | zero => exact WellBuilt.empty.append (by decide) _
  | succ count ih =>
    have allocated : 1 < (withTexts count).size := by
      rw [size_withTexts]
      omega
    exact ih.append allocated _

/-- The eleventh text, whose place has two digits, and the element above it. -/
theorem navigable_withTexts :
    (withTexts 11).WellBuilt ∧ (withTexts 11).Navigable ∧ (withTexts 11).Attached 12 ∧
      (withTexts 11).path 12 = "/0/10" ∧ (withTexts 11).find? "/0/10" = some 12 := by
  have built := wellBuilt_withTexts 11
  have attached : (withTexts 11).Attached 12 := .inr (.head (b := 1) rfl (.single rfl))
  have navigable := navigable_of_wellBuilt built
  have path : (withTexts 11).path 12 = "/0/10" := rfl
  have found := navigable.find?_path 12 attached
  rw [path] at found
  exact ⟨built, navigable, attached, path, found⟩

end CssSelect.Tree
