import Mathlib.Data.List.Induction
import CssSelect.Document.Attributes

/-!
Values by name. Giving a name a value changes what is found for this name only, so of the values
that one name is given the last one is found.
-/
namespace CssSelect

theorem lookup_entry_cons (name value other : String) (entries : List (String × String)) :
    ((name, value) :: entries).lookup other =
      if other = name then some value else entries.lookup other := by
  rw [List.lookup_cons]
  by_cases same : other = name
  · rw [if_pos same, beq_iff_eq.mpr same]
  · rw [if_neg same, beq_eq_false_iff_ne.mpr same]

theorem lookup_insertEntry (name value other : String) (entries : List (String × String)) :
    (insertEntry name value entries).lookup other =
      if other = name then some value else entries.lookup other := by
  induction entries with
  | nil => exact lookup_entry_cons name value other []
  | cons first entries ih =>
    obtain ⟨held, old⟩ := first
    rw [insertEntry]
    split
    · exact lookup_entry_cons name value other _
    · next notBefore =>
      split
      · next after =>
        have different : held ≠ name := String.ne_of_lt after
        rw [lookup_entry_cons, lookup_entry_cons, ih]
        by_cases here : other = held
        · rw [if_pos here, if_neg (here ▸ different), if_pos here]
        · rw [if_neg here, if_neg here]
      · next notAfter =>
        -- The two names are equal, so the old value is the one that is not found any more.
        have same : held = name :=
          String.le_antisymm (String.not_lt.mp notBefore) (String.not_lt.mp notAfter)
        rw [lookup_entry_cons, lookup_entry_cons, same]
        by_cases here : other = name
        · rw [if_pos here, if_pos here]
        · rw [if_neg here, if_neg here, if_neg here]

namespace Attributes

theorem get?_insert (attributes : Attributes) (name value other : String) :
    (attributes.insert name value).get? other =
      if other = name then some value else attributes.get? other :=
  lookup_insertEntry name value other attributes.entries

/-- The last value that a name is given is found. -/
theorem get?_ofList (entries : List (String × String)) (name : String) :
    (ofList entries).get? name = entries.reverse.lookup name := by
  induction entries using List.reverseRecOn with
  | nil => rfl
  | append_singleton entries last ih =>
    rw [ofList, List.foldl_append, ← ofList, List.reverse_append]
    refine (get?_insert _ _ _ _).trans ?_
    rw [ih]
    exact (lookup_entry_cons _ _ _ _).symm

end Attributes

end CssSelect
