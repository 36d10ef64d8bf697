/-!
Attributes: values by name, sorted by name. The sorted list is the only one with
its entries, so the order in which attributes were given, and values that were
replaced, leave no trace.
-/
namespace CssSelect

/-- Puts an entry at its place among sorted entries, in place of one with the same name. -/
def insertEntry (name value : String) : List (String × String) → List (String × String)
  | [] => [(name, value)]
  | (other, held) :: rest =>
    if name < other then (name, value) :: (other, held) :: rest
    else if other < name then (other, held) :: insertEntry name value rest
    else (name, value) :: rest

theorem mem_insertEntry {name value : String} {entry : String × String} :
    ∀ {entries : List (String × String)}, entry ∈ insertEntry name value entries →
      entry = (name, value) ∨ entry ∈ entries
  | [], h => by simpa [insertEntry] using h
  | (other, held) :: rest, h => by
    unfold insertEntry at h
    split at h
    · simpa using h
    · split at h
      · rcases List.mem_cons.1 h with first | later
        · exact .inr (first ▸ List.mem_cons_self)
        · exact (mem_insertEntry later).imp id (List.mem_cons_of_mem _)
      · rcases List.mem_cons.1 h with first | later
        · exact .inl first
        · exact .inr (List.mem_cons_of_mem _ later)

theorem sorted_insertEntry (name value : String) :
    ∀ {entries : List (String × String)}, entries.Pairwise (fun a b => a.1 < b.1) →
      (insertEntry name value entries).Pairwise (fun a b => a.1 < b.1)
  | [], _ => by simp [insertEntry]
  | (other, held) :: rest, sorted => by
    obtain ⟨least, sortedRest⟩ := List.pairwise_cons.1 sorted
    unfold insertEntry
    split
    · next before =>
      refine List.pairwise_cons.2 ⟨fun entry member => ?_, sorted⟩
      rcases List.mem_cons.1 member with first | later
      · exact first ▸ before
      · exact String.lt_trans before (least entry later)
    · next notBefore =>
      split
      · next after =>
        refine List.pairwise_cons.2 ⟨fun entry member => ?_, sorted_insertEntry name value sortedRest⟩
        rcases mem_insertEntry member with new | later
        · exact new ▸ after
        · exact least entry later
      · next notAfter =>
        have same : other = name :=
          String.le_antisymm (String.not_lt.1 notBefore) (String.not_lt.1 notAfter)
        exact List.pairwise_cons.2 ⟨fun entry member => same ▸ least entry member, sortedRest⟩

/-- Values by name. -/
structure Attributes where
  entries : List (String × String)
  sorted : entries.Pairwise (fun a b => a.1 < b.1)

namespace Attributes

/-- No attributes. -/
def empty : Attributes :=
  ⟨[], .nil⟩

/-- Gives a name a value, in place of an earlier one. -/
def insert (attributes : Attributes) (name value : String) : Attributes :=
  ⟨insertEntry name value attributes.entries, sorted_insertEntry name value attributes.sorted⟩

/-- The attributes that are given one after the other. -/
def ofList (entries : List (String × String)) : Attributes :=
  entries.foldl (fun attributes entry => attributes.insert entry.1 entry.2) empty

/-- The value of a name. -/
def get? (attributes : Attributes) (name : String) : Option String :=
  attributes.entries.lookup name

end Attributes

end CssSelect
