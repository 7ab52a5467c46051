import SoftDelete.Sql.Token

namespace SoftDelete

structure Catalog where
  names : List Text
  deriving Repr

namespace Catalog

/-- Names are compared exactly, with the quotation marks of the asked name left out. A name with a
schema in front of it is a name of its own. -/
def contains (r : Catalog) (name : Text) : Bool :=
  r.names.contains (name.filter fun c => (Quote.ofMark? c).isNone)

def tables (r : Catalog) : List Text :=
  r.names.eraseDups.mergeSort Text.le

theorem mem_tables {r : Catalog} {name : Text} : name ∈ r.tables ↔ name ∈ r.names := by
  simp [tables]

theorem tables_pairwise (r : Catalog) : r.tables.Pairwise fun a b => Text.le a b = true := by
  apply List.pairwise_mergeSort
  · intro a b c hab hbc
    exact Text.le_trans hab hbc
  · exact Text.le_total

theorem contains_iff {r : Catalog} {name : Text} :
    r.contains name = true ↔ name.filter (fun c => (Quote.ofMark? c).isNone) ∈ r.names := by
  simp [contains]

end Catalog

end SoftDelete
