import SoftDelete.Failure
import SoftDelete.Join.Carry
import SoftDelete.Sql.Edit
import SoftDelete.Text.Blank

namespace SoftDelete

def filterCondition (column target : Text) : Text :=
  let field := target ++ '.' :: column
  '(' :: (field ++ (" = 0 OR ".toList ++ (field ++ " IS NULL)".toList)))

namespace Join

def ownCondition (l : Level) (j : Join) : Except Failure (List Text) :=
  match j.clause with
  | some (.on _ items) => .ok ['(' :: (outputOf (l.itemsIn items.start items.stop) ++ [')'])]
  | some (.using _) => .error (.joinWithoutOn (j.kind.keyword ++ " ... USING"))
  | none =>
      if j.kind.isNatural then .error (.joinWithoutOn j.kind.keyword) else .ok []

def keywordText (l : Level) (j : Join) : Text :=
  match j.kind with
  | .comma => "INNER JOIN".toList
  | _ => outputOf (l.itemsIn j.keywordItems.start j.keywordItems.stop)

/-- A comma usually stands right behind a table, and the keywords in its place must not. -/
def leadingSpace (l : Level) (j : Join) : Text :=
  match (l.before j.items.start).getLast? with
  | some c => if isBlank c then [] else [' ']
  | none => []

def edit (l : Level) (column : Text) (j : Join) (targets : List Text) :
    Except Failure Edit := do
  let own ← j.ownCondition l
  let conditions := targets.map (filterCondition column) ++ own
  let table := outputOf (l.itemsIn j.table.items.start j.table.items.stop)
  .ok ⟨l.startOf j.items.start, l.stopOf j.items.stop,
    j.leadingSpace l ++ (j.keywordText l ++ ' ' ::
      (table ++ (" ON ".toList ++ Text.joined " AND " conditions)))⟩

theorem filtered_cons {targets : List Text} (h : targets ≠ []) (j : Join)
    (pairs : List (Join × List Text)) :
    ((j, targets) :: pairs).filter (fun pair => !pair.2.isEmpty) =
      (j, targets) :: pairs.filter fun pair => !pair.2.isEmpty :=
  List.filter_cons_of_pos (by simpa using h)

end Join

def References.edits (l : Level) (column : Text) (r : References) (plan : FilterPlan) :
    Except Failure (List Edit) :=
  ((r.joins.zip plan.joins).filter fun pair => !pair.2.isEmpty).mapM fun pair =>
    pair.1.edit l column pair.2

end SoftDelete
