import SoftDelete.Proofs.Join.FilterTokens
import SoftDelete.Proofs.Join.Grammar

namespace SoftDelete

open Reading

variable {g : Text}

def Item.withGap (g : Text) : Item → Item
  | .token t => .token ⟨g, t.kind, t.text⟩
  | .subselect _ text body => .subselect g text body

namespace Item

@[simp] theorem text_withGap (i : Item) : (i.withGap g).text = i.text := by
  cases i <;> rfl

@[simp] theorem spells_withGap (i : Item) (word : String) :
    (i.withGap g).spells word = i.spells word := by
  cases i <;> rfl

@[simp] theorem hasKind_withGap (i : Item) (kind : Token.Kind) :
    (i.withGap g).hasKind kind = i.hasKind kind := by
  cases i <;> rfl

@[simp] theorem freeName?_withGap (i : Item) : (i.withGap g).freeName? = i.freeName? := by
  cases i <;> rfl

@[simp] theorem isCallee_withGap (i : Item) : (i.withGap g).isCallee = i.isCallee := by
  cases i <;> rfl

end Item

def regapItems (g : Text) : List Item → List Item
  | [] => []
  | i :: items => i.withGap g :: items

theorem map_regap (g : Text) (ts : List Token) :
    (regap g ts).map Item.token = regapItems g (ts.map Item.token) := by
  cases ts <;> rfl

theorem regapItems_append {items : List Item} (h : items ≠ []) (g : Text) (more : List Item) :
    regapItems g (items ++ more) = regapItems g items ++ more := by
  cases items with
  | nil => exact absurd rfl h
  | cons i items => rfl

@[simp] theorem length_regapItems (g : Text) (items : List Item) :
    (regapItems g items).length = items.length := by
  cases items <;> rfl

theorem SpelledBy.regap {words : List String} {items : List Item} (h : SpelledBy words items)
    (g : Text) : SpelledBy words (regapItems g items) := by
  obtain ⟨hstarts, hlength⟩ := h
  refine ⟨?_, by simpa using hlength⟩
  cases items with
  | nil => exact hstarts
  | cons i items => cases words <;> simp_all [regapItems, startsWithWords]

theorem NamesBy.regap {mark : Token.Kind} {texts : List Text} {items : List Item}
    (h : NamesBy mark texts items) (g : Text) : NamesBy mark texts (regapItems g items) := by
  obtain ⟨i, text, xs, rest, rfl, rfl, hi, hrest⟩ := h
  exact ⟨_, text, xs, rest, rfl, rfl, by simpa using hi, hrest⟩

theorem Derives.regap {p : ConditionPart} {items : List Item} (h : Derives p items) (g : Text) :
    Derives p (regapItems g items) := by
  induction h with
  | subselect => exact .subselect
  | @number i hi =>
      rw [← i.text_withGap]
      exact .number (by simpa using hi)
  | @quoted i q hq hi =>
      rw [← i.text_withGap]
      exact .quoted hq (by simpa using hi)
  | @constant i hi hword =>
      rw [← i.text_withGap] at hword ⊢
      exact .constant (by simpa using hi) hword
  | param hi => exact .param (by simpa using hi)
  | @signed i j hi hsign hj =>
      rw [← i.text_withGap] at hsign ⊢
      exact .signed (by simpa using hi) hsign hj
  | column h => exact .column (h.regap g)
  | call hi hcallee hopening hargs =>
      exact .call (by simpa using hi) (by simpa using hcallee) hopening hargs
  | list hopening hvalues hclosing _ => exact .list (by simpa using hopening) hvalues hclosing
  | one _ ih => exact .one ih
  | more h hcomma hrest ih _ =>
      rw [regapItems_append h.settles.ne_nil]
      exact .more ih hcomma hrest
  | compare hlhs hop hrhs ih _ =>
      rw [regapItems_append hlhs.settles.ne_nil]
      exact .compare ih hop hrhs
  | not hi h _ => exact .not (by simpa using hi) h
  | group hopening h hclosing _ => exact .group (by simpa using hopening) h hclosing
  | single _ ih => exact .single ih
  | connect h hi hrest ih _ =>
      rw [regapItems_append h.settles.ne_nil]
      exact .connect ih hi hrest

theorem TableName.regap {name : Option Text} {items : List Item} (h : TableName name items)
    (g : Text) : TableName name (regapItems g items) := by
  cases h with
  | subselect => exact .subselect
  | named h => exact .named (h.regap g)

theorem Reference.Spans.regap {r : Reference} {start : Nat} {items : List Item}
    (h : r.Spans start items) (g : Text) : r.Spans start (regapItems g items) := by
  obtain ⟨table, tail, rfl, htable, htail⟩ := h.derives
  refine ⟨by simpa using h.range, regapItems g table, tail, ?_, htable.regap g, htail⟩
  exact regapItems_append htable.settles.ne_nil g tail

theorem Join.Kind.Spans.regap {kind : Join.Kind} {items : List Item} (h : kind.Spans items)
    (g : Text) : kind.Spans (regapItems g items) := by
  rcases h with ⟨hkind, t, rfl, ht⟩ | ⟨hkind, words, hform, hwords⟩
  · exact .inl ⟨hkind, ⟨g, t.kind, t.text⟩, rfl, ht⟩
  · exact .inr ⟨hkind, words, hform, hwords.regap g⟩

end SoftDelete
