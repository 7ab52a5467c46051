import SoftDelete.Filtering

namespace SoftDelete

structure Notes where
  constrained : List Text
  problems : List Problem
  deriving DecidableEq, Repr

namespace Notes

def empty : Notes :=
  ⟨[], []⟩

instance : Append Notes where
  append a b := ⟨a.constrained ++ b.constrained, a.problems ++ b.problems⟩

theorem append_def (a b : Notes) :
    a ++ b = ⟨a.constrained ++ b.constrained, a.problems ++ b.problems⟩ := rfl

@[simp] theorem empty_append (a : Notes) : empty ++ a = a := rfl

@[simp] theorem append_empty (a : Notes) : a ++ empty = a := by
  simp [append_def, empty]

theorem append_assoc (a b c : Notes) : a ++ b ++ c = a ++ (b ++ c) := by
  simp [append_def]

end Notes

structure Attempt (α : Type) where
  result : Except Failure α
  notes : Notes

namespace Attempt

variable {α β : Type}

def done (a : α) : Attempt α :=
  ⟨.ok a, .empty⟩

def ofExcept (result : Except Failure α) : Attempt α :=
  ⟨result, .empty⟩

def note (failure : Failure) (depth : Nat) : Attempt Unit :=
  ⟨.ok (), ⟨[], [⟨failure, depth⟩]⟩⟩

def constrain (tables : List Text) : Attempt Unit :=
  ⟨.ok (), ⟨tables, []⟩⟩

def bind (x : Attempt α) (f : α → Attempt β) : Attempt β :=
  match x.result with
  | .ok a =>
      let y := f a
      ⟨y.result, x.notes ++ y.notes⟩
  | .error e => ⟨.error e, x.notes⟩

instance : Monad Attempt where
  pure := done
  bind := bind

@[simp] theorem result_pure (a : α) : (pure a : Attempt α).result = .ok a := rfl

@[simp] theorem notes_pure (a : α) : (pure a : Attempt α).notes = .empty := rfl

theorem bind_of_ok {x : Attempt α} {a : α} (h : x.result = .ok a) (f : α → Attempt β) :
    x >>= f = ⟨(f a).result, x.notes ++ (f a).notes⟩ := by
  change bind x f = _
  simp only [bind, h]

theorem bind_of_error {x : Attempt α} {e : Failure} (h : x.result = .error e)
    (f : α → Attempt β) : x >>= f = ⟨.error e, x.notes⟩ := by
  change bind x f = _
  simp only [bind, h]

end Attempt

end SoftDelete
