import SoftDelete.Proofs.Bounds.Splices
import SoftDelete.Proofs.Select.Nesting
import SoftDelete.Proofs.Sql.Readable

namespace SoftDelete

inductive Collapses : List Token → List Item → Prop where
  | nil : Collapses [] []
  | token {t : Token} {ts : List Token} {items : List Item} (hlater : Collapses ts items) :
      Collapses (t :: ts) (.token t :: items)
  | subselect {opening closing : Token} {inner rest : List Token} {items : List Item} (body : Text)
      (hopens : opensSubselect opening (inner ++ closing :: rest) = true)
      (hclosed : enclosed? (fun t => some t.kind) 0 (inner ++ closing :: rest) =
        some (inner, closing, rest)) (hlater : Collapses rest items) :
      Collapses (opening :: (inner ++ closing :: rest))
        (.subselect opening.gap (opening.text ++ (sourceOf inner ++ closing.source)) body :: items)

namespace Collapses

variable {ts : List Token} {items : List Item}

theorem source_eq (h : Collapses ts items) : items.flatMap Item.source = sourceOf ts := by
  induction h with
  | nil => rfl
  | token _ ih => simp [Item.source, Item.gap, Item.text, Token.source, ih]
  | subselect _ _ _ _ ih => simp [Item.source, Item.gap, Item.text, Token.source, ih]

theorem solid (h : Collapses ts items) (htext : ∀ t ∈ ts, t.text ≠ []) : ∀ i ∈ items, i.text ≠ [] := by
  induction h with
  | nil => simp
  | token _ ih => simpa [Item.text, htext] using ih fun t ht => htext t (by simp [ht])
  | @subselect opening closing inner rest items body _ _ _ ih =>
      have hopening : opening.text ≠ [] := htext opening (by simp)
      simpa [Item.text, hopening] using ih fun t ht => htext t (by simp [ht])

theorem closing_text (h : Collapses ts items)
    (htext : ∀ t ∈ ts, t.kind = .rparen → t.text = [')']) {gap text body : Text}
    (hmem : .subselect gap text body ∈ items) : ∃ inner, text = inner ++ [')'] := by
  induction h with
  | nil => cases hmem
  | token _ ih => exact ih (fun t ht => htext t (by simp [ht])) (by simpa using hmem)
  | @subselect opening closing inner rest items own _ hclosed _ ih =>
      rcases List.mem_cons.1 hmem with heq | hmem
      · cases heq
        have hkind : closing.kind = .rparen := by simpa using kind_of_enclosed? hclosed
        refine ⟨opening.text ++ (sourceOf inner ++ closing.gap), ?_⟩
        simp [Token.source, htext closing (by simp) hkind]
      · exact ih (fun t ht => htext t (by simp [ht])) hmem

theorem of_itemsOf {nested : Nat → Text → Attempt Text} {offset : Nat}
    (h : (itemsOf nested offset (segments ts).1).result = .ok items) (hclosed : (segments ts).2 = []) :
    Collapses ts items := by
  fun_induction segments ts generalizing offset items with
  | case1 =>
      cases h
      exact .nil
  | case2 => cases hclosed
  | case3 t ts hopens inner closing rest hsub later unclosed hs ih =>
      obtain ⟨_, _, body, items, -, hlater, rfl, -⟩ := itemsOf_subselect h
      rw [hs] at ih
      obtain rfl := append_of_enclosed? hsub
      exact .subselect body hopens hsub (ih hlater hclosed)
  | case4 t ts _ later unclosed hs ih =>
      obtain ⟨items, hlater, rfl, -⟩ := itemsOf_token h
      rw [hs] at ih
      exact .token (ih hlater hclosed)

end Collapses

def FrameOf (sql : Text) (l : Level) : Prop :=
  ∃ tokens, lex sql = .ok ⟨tokens, l.tail⟩ ∧ Collapses tokens l.items

namespace FrameOf

variable {sql : Text} {l : Level}

theorem source_eq (h : FrameOf sql l) : l.source = sql := by
  obtain ⟨tokens, hlex, hitems⟩ := h
  rw [Level.source, hitems.source_eq]
  exact source_of_lex hlex

theorem solid (h : FrameOf sql l) : ∀ i ∈ l.items, i.text ≠ [] := by
  obtain ⟨tokens, hlex, hitems⟩ := h
  refine hitems.solid fun t ht => ?_
  obtain ⟨r, hr⟩ := (readable_of_lex hlex).1.stands ht
  exact hr.lexeme.text_ne_nil

theorem closing_text (h : FrameOf sql l) {gap text body : Text}
    (hmem : .subselect gap text body ∈ l.items) : ∃ inner, text = inner ++ [')'] := by
  obtain ⟨tokens, hlex, hitems⟩ := h
  refine hitems.closing_text (fun t ht hkind => ?_) hmem
  obtain ⟨r, hr⟩ := (readable_of_lex hlex).1.stands ht
  exact (hkind ▸ hr.lexeme).rparen_text

/-- What is done to a level by numbers and places stays within bounds and comes to what is done to its
items: no index, no part of the text and no difference is out of range. The edits of a level lie one
behind the other between its items. The level with the edits is its source with their texts in the
places of their bytes and each sub-select outside them with its body, and every sub-select of the level
is written once. -/
theorem filterEdit_within_bounds (h : FrameOf sql l) (catalog : Catalog) (options : Options) :
    l.source = sql ∧
    (∀ maxJoins first stop, stop ≤ l.items.length →
      Run.ComesTo 0 (Cursor.parse ⟨l, stop⟩ maxJoins first)
        (References.parse Reading.maxNesting maxJoins first (l.itemsIn first stop) l.items[stop]?)) ∧
    Run.ComesTo 0 (l.filterEdit? catalog options) (l.filterEdit catalog options) ∧
    (∀ edits, l.Splices edits → l.outputWith? edits = some (l.outputWith edits)) ∧
    ∀ edit, l.filterEdit catalog options = .ok edit →
      l.Splices edit.edits ∧
      (∃ chunks, chunks.flatMap Chunk.atoms = l.items.flatMap Item.atoms ∧
        Chunk.edits 0 chunks = edit.edits ∧
        l.outputWith edit.edits = chunks.flatMap Chunk.output ++ l.tail) ∧
      ∀ n i, l.items[n]? = some i → i.isSubselect = true →
        ∃ front back, ∀ body, ∃ edit',
          (l.withBody n body).filterEdit catalog options = .ok edit' ∧
          (l.withBody n body).outputWith edit'.edits = front ++ '(' :: (body ++ ')' :: back) := by
  have hsolid := h.solid
  refine ⟨h.source_eq, fun maxJoins first stop hstop => ?_,
    Level.filterEdit_comes catalog options hsolid, fun edits hedits => hedits.outputWith?_eq,
    fun edit hedit => ⟨Level.filterEdit_splices hedit, ?_, ?_⟩⟩
  · exact Cursor.parse_comes (c := ⟨l, stop⟩) hstop hsolid maxJoins first
  · obtain ⟨chunks, hatoms, -, hedits⟩ := Level.filterEdit_cuts hedit
    exact ⟨chunks, hatoms, hedits, hedits ▸ Level.outputWith_edits hsolid hatoms⟩
  · intro n i hi hsub
    obtain ⟨pre, post, hsplit, rfl⟩ := Level.exists_split hi
    cases i with
    | token t => cases hsub
    | subselect gap text own =>
        obtain ⟨inner, rfl⟩ := h.closing_text (List.mem_of_getElem? hi)
        exact Level.filterEdit_emits_once hsplit hsolid hedit

theorem filterEdit_within_bounds_union :
    let catalog : Catalog := ⟨["hist_a".toList, "hist_b".toList]⟩
    let options : Options := ⟨"gelöscht".toList, 8, 8, false⟩
    let sql := ("SELECT (SELECT 1) FROM hist_a ä LEFT JOIN hist_b ON ä.x IN (SELECT 2) " ++
      "WHERE y = 3 UNION SELECT 4 FROM hist_a, (SELECT 5) b").toList
    let tokens := ((lex sql).toOption.map Lexed.tokens).getD []
    let items := (itemsOf (fun _ _ => pure "SELECT 0".toList) 0 (segments tokens).1).result.toOption
    let l : Level := ⟨items.getD [], []⟩
    FrameOf sql l ∧
      (l.filterEdit catalog options).map (fun edit => edit.edits.map fun e => (e.start, e.stop)) =
        .ok [(33, 71), (78, 78), (83, 83), (110, 124)] ∧
      ∀ edit, l.filterEdit catalog options = .ok edit →
        l.Splices edit.edits ∧ l.outputWith? edit.edits = some (l.outputWith edit.edits) := by
  intro catalog options sql tokens items l
  have hitems : (itemsOf (fun _ _ => pure "SELECT 0".toList) 0 (segments tokens).1).result =
      .ok l.items := by
    have hok : items.isSome = true := by decide +kernel
    revert hok
    simp only [items, l]
    cases (itemsOf (fun _ _ => pure "SELECT 0".toList) 0 (segments tokens).1).result with
    | ok items => exact fun _ => rfl
    | error e => exact nofun
  have hlex : lex sql = .ok ⟨tokens, []⟩ := by decide +kernel
  have hclosed : (segments tokens).2 = [] := by decide +kernel
  have hframe : FrameOf sql l := ⟨tokens, hlex, .of_itemsOf hitems hclosed⟩
  obtain ⟨-, -, -, hwrites, hedits⟩ := hframe.filterEdit_within_bounds catalog options
  refine ⟨hframe, by decide +kernel, fun edit hedit => ?_⟩
  have hsplices := (hedits edit hedit).1
  exact ⟨hsplices, hwrites _ hsplices⟩

end FrameOf

end SoftDelete
