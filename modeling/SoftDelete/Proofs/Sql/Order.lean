import SoftDelete.Proofs.Sql.Rendering

namespace SoftDelete

inductive InOrder : List Text → Text → Prop where
  | nil (s : Text) : InOrder [] s
  | cons (front part : Text) {parts : List Text} {rest : Text} (h : InOrder parts rest) :
      InOrder (part :: parts) (front ++ (part ++ rest))

namespace InOrder

variable {parts more : List Text} {s t : Text}

theorem one (part : Text) : InOrder [part] part := by
  simpa using cons [] part (nil [])

theorem behind (h : InOrder parts s) (front : Text) : InOrder parts (front ++ s) := by
  cases h with
  | nil => exact .nil _
  | cons lead part h =>
      rw [← List.append_assoc]
      exact .cons (front ++ lead) part h

theorem append (h : InOrder parts s) (h' : InOrder more t) : InOrder (parts ++ more) (s ++ t) := by
  induction h with
  | nil s => exact h'.behind s
  | cons front part _ ih => simpa using cons front part ih

theorem before (h : InOrder parts s) (back : Text) : InOrder parts (s ++ back) := by
  simpa using h.append (nil back)

theorem exists_append (h : InOrder (parts ++ more) s) :
    ∃ front back, s = front ++ back ∧ InOrder parts front ∧ InOrder more back := by
  induction parts generalizing s with
  | nil => exact ⟨[], s, rfl, .nil _, h⟩
  | cons part parts ih =>
      cases h with
      | cons lead _ h =>
          obtain ⟨front, back, rfl, hfront, hback⟩ := ih h
          exact ⟨lead ++ (part ++ front), back, by simp, .cons lead part hfront, hback⟩

theorem flatMap {α : Type} {xs : List α} {parts : α → List Text} {text : α → Text}
    (h : ∀ x ∈ xs, InOrder (parts x) (text x)) : InOrder (xs.flatMap parts) (xs.flatMap text) := by
  induction xs with
  | nil => exact .nil []
  | cons x xs ih => exact (h x (by simp)).append (ih fun y hy => h y (by simp [hy]))

theorem joined (h : InOrder parts s) (separator : String) (texts : List Text) :
    InOrder parts (Text.joined separator (texts ++ [s])) := by
  induction texts with
  | nil => simpa [Text.joined] using h
  | cons text texts ih =>
      have hne : texts ++ [s] ≠ [] := by simp
      rw [Text.joined, List.cons_append, List.intercalate_cons_of_ne_nil hne]
      exact ih.behind (text ++ separator.toList)

end InOrder

def Within (parts whole : List Text) : Prop :=
  ∀ s, InOrder whole s → InOrder parts s

namespace Within

variable {parts whole parts' whole' : List Text}

theorem nil : Within [] whole := fun s _ => .nil s

theorem one {part : Text} (h : InOrder parts part) : Within parts [part] := by
  intro s hs
  cases hs with
  | cons front _ hrest => exact (h.before _).behind front

theorem append (h : Within parts whole) (h' : Within parts' whole') :
    Within (parts ++ parts') (whole ++ whole') := by
  intro s hs
  obtain ⟨front, back, rfl, hfront, hback⟩ := hs.exists_append
  exact (h front hfront).append (h' back hback)

end Within

end SoftDelete
