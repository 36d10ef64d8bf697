import Mathlib.Data.List.Sort
import CssSelect.Document.Tree
import CssSelect.Proofs.Document.Attributes

/-!
Attributes as a map lists them that keeps no order: each name once, in any order. The attributes
are found by their names, so a listing has all that they are. Whichever order it has, sorting it by
names and values gives the one list of entries that the attributes have.
-/
namespace CssSelect

instance irrefl_nameLt : Std.Irrefl fun entry other : String × String => entry.1 < other.1 where
  irrefl entry := String.lt_irrefl entry.1

instance antisymm_nameLt : Std.Antisymm fun entry other : String × String => entry.1 < other.1 where
  antisymm entry _ before after := absurd (String.lt_trans before after) (String.lt_irrefl entry.1)

namespace Attributes

/-- In a sorted list each entry is the one that is found for its name. -/
theorem mem_iff_lookup {entries : List (String × String)}
    (sorted : entries.Pairwise fun entry other => entry.1 < other.1) (name value : String) :
    (name, value) ∈ entries ↔ entries.lookup name = some value := by
  induction entries with
  | nil => simp
  | cons first entries ih =>
    obtain ⟨least, sortedRest⟩ := List.pairwise_cons.mp sorted
    rw [lookup_entry_cons, List.mem_cons]
    by_cases same : name = first.1
    · have alone : (name, value) ∉ entries := by
        intro later
        exact absurd (least _ later) (same ▸ String.lt_irrefl name)
      rw [if_pos same, Option.some.injEq, or_iff_left alone, Prod.ext_iff]
      exact ⟨fun here => here.2.symm, fun here => ⟨same, here.symm⟩⟩
    · rw [if_neg same, ← ih sortedRest, or_iff_right]
      rintro rfl
      exact same rfl

theorem mem_entries_iff {attributes : Attributes} {entry : String × String} :
    entry ∈ attributes.entries ↔ attributes.get? entry.1 = some entry.2 :=
  mem_iff_lookup attributes.sorted entry.1 entry.2

theorem eq_of_mem_iff {attributes others : Attributes}
    (same : ∀ entry, entry ∈ attributes.entries ↔ entry ∈ others.entries) :
    attributes = others := by
  have entries : attributes.entries = others.entries :=
    attributes.sorted.eq_of_mem_iff others.sorted same
  cases attributes
  cases others
  cases entries
  rfl

/-- Attributes are what is found for their names. -/
theorem ext_get? {attributes others : Attributes}
    (same : ∀ name, attributes.get? name = others.get? name) : attributes = others :=
  eq_of_mem_iff fun entry => by rw [mem_entries_iff, mem_entries_iff, same]

end Attributes

/-- Entries in any order, each name once. -/
structure Listing where
  entries : List (String × String)
  distinct : entries.Pairwise fun entry other => entry.1 ≠ other.1

namespace Listing

/-- Entries are sorted by their names, and by their values where the names are the same. -/
def before (entry other : String × String) : Bool :=
  entry.1 < other.1 || (entry.1 == other.1 && entry.2 ≤ other.2)

theorem before_iff {entry other : String × String} :
    before entry other = true ↔ entry.1 < other.1 ∨ entry.1 = other.1 ∧ entry.2 ≤ other.2 := by
  simp [before]

theorem before_trans (first second third : String × String)
    (left : before first second = true) (right : before second third = true) :
    before first third = true := by
  rw [before_iff] at left right ⊢
  rcases left with earlier | ⟨same, valueLe⟩
  · rcases right with later | ⟨same, _⟩
    · exact .inl (String.lt_trans earlier later)
    · exact .inl (same ▸ earlier)
  · rw [same]
    exact right.imp_right fun later => ⟨later.1, String.le_trans valueLe later.2⟩

theorem before_total (entry other : String × String) :
    (before entry other || before other entry) = true := by
  rw [Bool.or_eq_true, before_iff, before_iff]
  by_cases below : entry.1 < other.1
  · exact .inl (.inl below)
  · by_cases above : other.1 < entry.1
    · exact .inr (.inl above)
    · have same : entry.1 = other.1 :=
        String.le_antisymm (String.not_lt.mp above) (String.not_lt.mp below)
      rcases String.le_total entry.2 other.2 with valueLe | valueLe
      · exact .inl (.inr ⟨same, valueLe⟩)
      · exact .inr (.inr ⟨same.symm, valueLe⟩)

/-- As no name comes twice, the names alone are in order once the entries are sorted. -/
theorem sorted_mergeSort (listing : Listing) :
    (listing.entries.mergeSort before).Pairwise fun entry other => entry.1 < other.1 := by
  have ordered := List.pairwise_mergeSort before_trans before_total listing.entries
  have perm := List.mergeSort_perm listing.entries before
  have distinct : (listing.entries.mergeSort before).Pairwise fun entry other =>
      entry.1 ≠ other.1 := (perm.pairwise_iff Ne.symm).mpr listing.distinct
  refine (ordered.and distinct).imp fun both => ?_
  exact (before_iff.mp both.1).resolve_right fun same => both.2 same.1

/-- The attributes that the sorted entries make. -/
def sort (listing : Listing) : Attributes :=
  ⟨listing.entries.mergeSort before, listing.sorted_mergeSort⟩

/-- The entries are those of the attributes. -/
def Of (listing : Listing) (attributes : Attributes) : Prop :=
  ∀ entry, entry ∈ listing.entries ↔ attributes.get? entry.1 = some entry.2

/-- Sorting leaves nothing of the order in which attributes are listed. -/
theorem sort_eq {listing : Listing} {attributes : Attributes} (lists : listing.Of attributes) :
    listing.sort = attributes :=
  Attributes.eq_of_mem_iff fun entry => by
    rw [sort, List.mem_mergeSort, lists, Attributes.mem_entries_iff]

theorem of_iff_perm {listing : Listing} {attributes : Attributes} :
    listing.Of attributes ↔ listing.entries.Perm attributes.entries := by
  constructor
  · intro lists
    rw [← sort_eq lists]
    exact (List.mergeSort_perm _ _).symm
  · intro perm entry
    rw [perm.mem_iff, Attributes.mem_entries_iff]

end Listing

/-! ## Trees -/

/-- What a node is, with its attributes taken from a listing and sorted. -/
def NodeKind.relist (listing : Listing) : NodeKind → NodeKind
  | .element data => .element { data with attributes := listing.sort }
  | kind => kind

namespace Tree

/-- The tree that is read where the attributes of each element come as they are listed for it, and
are sorted then. -/
def relist (tree : Tree) (listing : NodeId → Listing) : Tree :=
  ⟨tree.nodes.mapIdx fun id node => { node with kind := node.kind.relist (listing id) }⟩

/-- For each element its attributes are listed. -/
def ListedBy (tree : Tree) (listing : NodeId → Listing) : Prop :=
  ∀ id element, tree.element? id = some element → (listing id).Of element.attributes

theorem relist_eq {tree : Tree} {listing : NodeId → Listing} (listed : tree.ListedBy listing) :
    tree.relist listing = tree := by
  refine congrArg Tree.mk (Array.mapIdx_eq_iff.mpr fun id => ?_)
  cases found : tree.nodes[id]? with
  | none => rfl
  | some node =>
    obtain ⟨kind, parent, children, previous, next⟩ := node
    cases kind with
    | element data =>
      have shown : tree.element? id = some data := by rw [element?, get?, found]
      rw [Option.map_some, NodeKind.relist, Listing.sort_eq (listed id data shown)]
    | document => rfl
    | text content => rfl
    | comment content => rfl

end Tree

end CssSelect
