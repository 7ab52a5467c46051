namespace SoftDelete

abbrev Text := List Char

namespace Text

def byteSize : Text → Nat
  | [] => 0
  | c :: s => c.utf8Size + byteSize s

@[simp] theorem byteSize_nil : byteSize [] = 0 := rfl

@[simp] theorem byteSize_cons (c : Char) (s : Text) :
    byteSize (c :: s) = c.utf8Size + byteSize s := rfl

@[simp] theorem byteSize_append (s t : Text) : byteSize (s ++ t) = byteSize s + byteSize t := by
  induction s with
  | nil => simp
  | cons c s ih => simp [ih, Nat.add_assoc]

def takeBytes (n : Nat) : Text → Text
  | [] => []
  | c :: s => if c.utf8Size ≤ n then c :: takeBytes (n - c.utf8Size) s else []

def dropBytes (n : Nat) : Text → Text
  | [] => []
  | c :: s => if c.utf8Size ≤ n then dropBytes (n - c.utf8Size) s else c :: s

@[simp] theorem takeBytes_zero (s : Text) : takeBytes 0 s = [] := by
  cases s with
  | nil => rfl
  | cons c s =>
      have h : ¬ c.utf8Size ≤ 0 := Nat.not_le.2 c.utf8Size_pos
      simp [takeBytes, h]

@[simp] theorem dropBytes_zero (s : Text) : dropBytes 0 s = s := by
  cases s with
  | nil => rfl
  | cons c s =>
      have h : ¬ c.utf8Size ≤ 0 := Nat.not_le.2 c.utf8Size_pos
      simp [dropBytes, h]

@[simp] theorem takeBytes_append_byteSize (s t : Text) : takeBytes (byteSize s) (s ++ t) = s := by
  induction s with
  | nil => simp
  | cons c s ih =>
      rw [List.cons_append, byteSize_cons, takeBytes, if_pos (Nat.le_add_right ..),
        Nat.add_sub_cancel_left, ih]

@[simp] theorem dropBytes_append_byteSize (s t : Text) : dropBytes (byteSize s) (s ++ t) = t := by
  induction s with
  | nil => simp
  | cons c s ih =>
      rw [List.cons_append, byteSize_cons, dropBytes, if_pos (Nat.le_add_right ..),
        Nat.add_sub_cancel_left, ih]

theorem takeBytes_append_dropBytes (n : Nat) (s : Text) : takeBytes n s ++ dropBytes n s = s := by
  induction s generalizing n with
  | nil => rfl
  | cons c s ih =>
      by_cases h : c.utf8Size ≤ n
      · simp [takeBytes, dropBytes, h, ih]
      · simp [takeBytes, dropBytes, h]

def slice (s : Text) (start stop : Nat) : Text :=
  takeBytes (stop - start) (dropBytes start s)

theorem slice_append (a b c : Text) :
    slice (a ++ (b ++ c)) (byteSize a) (byteSize a + byteSize b) = b := by
  rw [slice, dropBytes_append_byteSize, Nat.add_sub_cancel_left, takeBytes_append_byteSize]

def sameWord (s t : Text) : Bool :=
  s.map Char.toLower == t.map Char.toLower

theorem sameWord_refl (s : Text) : sameWord s s = true := by
  simp [sameWord]

def le : Text → Text → Bool
  | [], _ => true
  | _ :: _, [] => false
  | c :: s, d :: t => c.toNat < d.toNat || (c == d && le s t)

theorem le_trans {s t u : Text} (hst : le s t = true) (htu : le t u = true) : le s u = true := by
  induction s generalizing t u with
  | nil => rfl
  | cons c s ih =>
      cases t with
      | nil => simp [le] at hst
      | cons d t =>
          cases u with
          | nil => simp [le] at htu
          | cons e u =>
              simp only [le, Bool.or_eq_true, Bool.and_eq_true, decide_eq_true_eq,
                beq_iff_eq] at hst htu ⊢
              rcases hst with hcd | ⟨rfl, hst⟩
              · rcases htu with hde | ⟨rfl, _⟩
                · exact .inl (Nat.lt_trans hcd hde)
                · exact .inl hcd
              · rcases htu with hde | ⟨rfl, htu⟩
                · exact .inl hde
                · exact .inr ⟨rfl, ih hst htu⟩

theorem le_total (s t : Text) : (le s t || le t s) = true := by
  induction s generalizing t with
  | nil => rfl
  | cons c s ih =>
      cases t with
      | nil => rfl
      | cons d t =>
          simp only [le, Bool.or_eq_true, Bool.and_eq_true, decide_eq_true_eq, beq_iff_eq]
          rcases Nat.lt_trichotomy c.toNat d.toNat with h | h | h
          · exact .inl (.inl h)
          · have hcd : c = d := Char.toNat_inj.1 h
            subst hcd
            have := ih t
            simp only [Bool.or_eq_true] at this
            rcases this with h | h
            · exact .inl (.inr ⟨rfl, h⟩)
            · exact .inr (.inr ⟨rfl, h⟩)
          · exact .inr (.inl h)

def joined (separator : String) (parts : List Text) : Text :=
  separator.toList.intercalate parts

end Text

end SoftDelete
