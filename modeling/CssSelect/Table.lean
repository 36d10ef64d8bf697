import CssSelect.View

/-!
A view answered from a table. Rows are numbered from zero and say of a node what
a view can be asked; nothing in them has to agree. The view knows the numbers of
its rows and no others.
-/
namespace CssSelect

/-- The answers about one node. -/
structure Row where
  tag : Option String
  content : Option String
  id : Option String
  classes : List String
  attributes : List (String × String)
  parent : Option Nat
  previous : Option Nat
  next : Option Nat
  children : List Nat

/-- Answers by number. -/
structure Table where
  rows : Array Row

namespace Table

/-- The table as a view. Of several attributes with one name the first counts. -/
def view (table : Table) : View Nat where
  knows n := n < table.rows.size
  tagName n := table.rows[n]?.bind Row.tag
  content n := table.rows[n]?.bind Row.content
  id n := table.rows[n]?.bind Row.id
  hasClass n name := table.rows[n]?.any fun row => row.classes.contains name
  attributeValue n name := table.rows[n]?.bind fun row => row.attributes.lookup name
  parent n := table.rows[n]?.bind Row.parent
  children n := (table.rows[n]?.map Row.children).getD []
  previousSibling n := table.rows[n]?.bind Row.previous
  nextSibling n := table.rows[n]?.bind Row.next

end Table

end CssSelect
