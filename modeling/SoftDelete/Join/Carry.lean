import SoftDelete.Catalog
import SoftDelete.Join.References

/-!
Where the filter of each table among joined ones goes. A filter on the side whose rows an outer join
keeps cannot stand in the `ON` of that join, which would keep the row anyway. The table is carried
on: to the `ON` of a later join that can filter it or, if none follows, to the `WHERE`.
-/

namespace SoftDelete

inductive CarryChange where
  | keep
  | first
  | joined
  deriving DecidableEq, Repr

namespace Join.Shape

def takesCarry (previous : Option Join.Shape) : Join.Shape → Bool
  | .left => false
  | .inner | .right => previous = some .left || previous = some .right

def carryChange (previous : Option Join.Shape) : Join.Shape → CarryChange
  | .left => if previous = none then .first else .keep
  | .right => .joined
  | .inner => .keep

end Join.Shape

def Reference.target (catalog : Catalog) (r : Reference) : Option Text :=
  if r.name.any catalog.contains then r.visibleName else none

structure Walk where
  previous : Option Join.Shape
  carry : Option Text
  deriving DecidableEq, Repr

namespace Walk

def start : Walk :=
  ⟨none, none⟩

def here (w : Walk) (first joined : Option Text) (join : Join.Shape) : List Text :=
  let change := join.carryChange w.previous
  (if w.previous = none ∧ change ≠ .first then first.toList else []) ++
    (if change ≠ .joined then joined.toList else []) ++
    (if join.takesCarry w.previous then w.carry.toList else [])

def next (w : Walk) (first joined : Option Text) (join : Join.Shape) : Walk where
  previous := some join
  carry :=
    match join.carryChange w.previous with
    | .keep => if join.takesCarry w.previous then none else w.carry
    | .first => first
    | .joined => joined

def run (catalog : Catalog) (first : Option Text) (w : Walk) :
    List Join → List (List Text) × Option Text
  | [] => ([], w.carry)
  | join :: joins =>
      let joined := join.table.target catalog
      let (later, last) := run catalog first (w.next first joined join.kind.shape) joins
      (w.here first joined join.kind.shape :: later, last)

theorem run_length (catalog : Catalog) (first : Option Text) (w : Walk) (joins : List Join) :
    (run catalog first w joins).1.length = joins.length := by
  induction joins generalizing w with
  | nil => rfl
  | cons join joins ih => simp [run, ih]

end Walk

structure FilterPlan where
  joins : List (List Text)
  carried : Option Text
  deriving DecidableEq, Repr

def FilterPlan.constrained (plan : FilterPlan) : List Text :=
  plan.joins.flatten ++ plan.carried.toList

def References.plan (catalog : Catalog) (r : References) : FilterPlan :=
  let first := r.first.target catalog
  match r.joins with
  | [] => ⟨[], first⟩
  | joins =>
      let (placed, last) := Walk.run catalog first .start joins
      ⟨placed, last⟩

theorem References.plan_joins_length (catalog : Catalog) (r : References) :
    (r.plan catalog).joins.length = r.joins.length := by
  cases r with
  | mk first joins =>
      cases joins with
      | nil => rfl
      | cons join joins => simp [References.plan, Walk.run_length]

end SoftDelete
