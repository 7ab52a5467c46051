import SoftDelete.Proofs.Isolation.Body
import SoftDelete.Proofs.Isolation.Subselect

namespace SoftDelete

namespace Attempt

variable {α β : Type}

def yield (x : Attempt α) : Except Failure (α × List Text) :=
  x.result.map (·, x.notes.constrained)

theorem yield_eq_ok {x : Attempt α} {a : α} {names : List Text} :
    x.yield = .ok (a, names) ↔ x.result = .ok a ∧ x.notes.constrained = names := by
  obtain ⟨result, notes⟩ := x
  cases result <;> simp [yield, Except.map]

theorem yield_eq_error {x : Attempt α} {e : Failure} : x.yield = .error e ↔ x.result = .error e := by
  obtain ⟨result, notes⟩ := x
  cases result <;> simp [yield, Except.map]

theorem yield_bind (x : Attempt α) (u : α → Attempt β) :
    (x >>= u).yield = x.yield >>= fun p => (u p.1).yield.map fun q => (q.1, p.2 ++ q.2) := by
  obtain ⟨result, notes⟩ := x
  cases result with
  | error e => rfl
  | ok a =>
      rw [bind_of_ok (x := ⟨.ok a, notes⟩) rfl]
      change Except.map _ (u a).result = Except.map _ (Except.map _ (u a).result)
      cases (u a).result <;> rfl

end Attempt

namespace Agree

variable {α β γ δ : Type} {R : α × List Text → β × List Text → Prop}
  {S : γ × List Text → δ × List Text → Prop}

theorem self {α : Type} (x : Except Failure α) : Agree (fun a b => a = b ∧ x = .ok a) x x := by
  cases x with
  | ok a => exact .ok ⟨rfl, rfl⟩
  | error e => exact .error rfl

theorem yield_bind {x : Attempt α} {y : Attempt β} {u : α → Attempt γ} {v : β → Attempt δ}
    (h : Agree R x.yield y.yield)
    (hnext : ∀ a names b names', R (a, names) (b, names') →
      Agree (fun p q => S (p.1, names ++ p.2) (q.1, names' ++ q.2)) (u a).yield (v b).yield) :
    Agree S (x >>= u).yield (y >>= v).yield := by
  rw [Attempt.yield_bind, Attempt.yield_bind]
  refine h.bind ?_
  rintro ⟨a, names⟩ ⟨b, names'⟩ hab
  have hlater := hnext a names b names' hab
  generalize (u a).yield = c at hlater ⊢
  generalize (v b).yield = d at hlater ⊢
  cases hlater with
  | ok h => exact .ok h
  | error h => exact .error h

end Agree

section Places

variable {nested nested' : Nat → Text → Attempt Text}

theorem itemsOf_yield (h : ∀ start start' t, (nested start t).yield = (nested' start' t).yield)
    (segs : List Segment) (offset offset' : Nat) :
    (itemsOf nested offset segs).yield = (itemsOf nested' offset' segs).yield := by
  induction segs generalizing offset offset' with
  | nil => rfl
  | cons s segs ih =>
      cases s with
      | token t => rw [itemsOf, itemsOf, Attempt.yield_bind, Attempt.yield_bind, ih]
      | subselect opening inner closing =>
          simp only [itemsOf, Attempt.yield_bind]
          rw [h, ih]

variable (catalog : Catalog) (options : Options)

theorem closeLevel_yield (depth depth' start start' : Nat) (items : List Item)
    (unclosed : List Token) (tail : Text) :
    (closeLevel catalog options depth start items unclosed tail).yield =
      (closeLevel catalog options depth' start' items unclosed tail).yield := by
  cases unclosed <;> rfl

theorem filterLevel_yield_step {room depth depth' : Nat}
    (h : ∀ start start' t, (nestedFilter catalog options room depth start t).yield =
      (nestedFilter catalog options room depth' start' t).yield) (offset offset' : Nat) (sql : Text) :
    (filterLevel catalog options room depth offset sql).yield =
      (filterLevel catalog options room depth' offset' sql).yield := by
  have hclose : ∀ segs items unclosed tail,
      (closeLevel catalog options depth (unclosedAt offset segs unclosed) items unclosed tail).yield =
        (closeLevel catalog options depth' (unclosedAt offset' segs unclosed) items unclosed
          tail).yield :=
    fun _ _ _ _ => closeLevel_yield ..
  simp only [filterLevel_eq, Attempt.yield_bind, itemsOf_yield h _ offset offset', hclose]

theorem filterLevel_yield (room depth depth' offset offset' : Nat) (sql : Text) :
    (filterLevel catalog options room depth offset sql).yield =
      (filterLevel catalog options room depth' offset' sql).yield := by
  induction room generalizing depth depth' offset offset' sql with
  | zero => exact filterLevel_yield_step catalog options (fun _ _ _ => rfl) offset offset' sql
  | succ room ih =>
      refine filterLevel_yield_step catalog options ?_ offset offset' sql
      exact fun _ _ _ => ih ..

theorem nestedFilter_yield (room depth start start' : Nat) (sql : Text) :
    (nestedFilter catalog options room depth start sql).yield =
      (nestedFilter catalog options room depth start' sql).yield := by
  cases room with
  | zero => rfl
  | succ room => exact filterLevel_yield ..

end Places

theorem itemsOf_solid {nested : Nat → Text → Attempt Text} {offset : Nat} {segs : List Segment}
    {items : List Item} (h : (itemsOf nested offset segs).result = .ok items)
    (hsegs : ∀ t ∈ segs.flatMap Segment.tokens, t.text ≠ []) : ∀ i ∈ items, i.text ≠ [] := by
  induction segs generalizing offset items with
  | nil =>
      cases h
      simp
  | cons s segs ih =>
      have hlater := fun t ht => hsegs t (List.mem_append_right s.tokens ht)
      cases s with
      | token t =>
          obtain ⟨later, hrest, rfl, -⟩ := itemsOf_token h
          have htext : t.text ≠ [] := hsegs t (by simp [Segment.tokens])
          simpa [Item.text, htext] using ih hrest hlater
      | subselect opening inner closing =>
          obtain ⟨start, stop, body, later, -, hrest, rfl, -⟩ := itemsOf_subselect h
          have htext : opening.text ≠ [] := hsegs opening (by simp [Segment.tokens])
          simpa [Item.text, htext] using ih hrest hlater

namespace CutInto

variable {sql tail : Text} {segs : List Segment} {unclosed : List Token}

theorem filterLevel_eq (h : CutInto sql segs unclosed tail) (catalog : Catalog) (options : Options)
    (room depth offset : Nat) :
    filterLevel catalog options room depth offset sql =
      itemsOf (nestedFilter catalog options room depth) offset segs >>= fun items =>
        closeLevel catalog options depth (unclosedAt offset segs unclosed) items unclosed tail := by
  obtain ⟨tokens, hlex, hsegs⟩ := h.lexed
  rw [filterLevel_of_lex hlex]
  simp only [hsegs]

theorem filterLevel_around {before after : List Segment} {s : Segment}
    (h : CutInto sql (before ++ s :: after) unclosed tail) (catalog : Catalog) (options : Options)
    (room depth offset : Nat) :
    ∃ start stop close, filterLevel catalog options room depth offset sql =
      itemsOf (nestedFilter catalog options room depth) offset before >>= fun items =>
        itemsOf (nestedFilter catalog options room depth) start [s] >>= fun hole =>
          itemsOf (nestedFilter catalog options room depth) stop after >>= fun more =>
            closeLevel catalog options depth close (items ++ (hole ++ more)) unclosed tail := by
  have heq := h.filterLevel_eq catalog options room depth offset
  rw [← List.singleton_append, itemsOf_append, itemsOf_append _ _ [s]] at heq
  simp only [bind_assoc, pure_bind] at heq
  exact ⟨_, _, _, heq⟩

end CutInto

structure Swap (catalog : Catalog) (gap : Text) (P : Pattern Item → Prop) (f g : Item) : Prop where
  fits : Fits gap f ∧ Fits gap g
  cuts : f.SameCuts g
  namesTable : f.namesTable catalog = g.namesTable catalog
  keeps : KeepsOut f g P

section Swaps

variable (catalog : Catalog) (options : Options) {gap : Text} {P : Pattern Item → Prop}

theorem closeLevel_alike {f g : Item} (h : Swap catalog gap P f g) {slots : Pattern Item}
    (hP : P slots) (hopen : holes slots = 1) (hsolid : Solid slots) (depth close close' : Nat)
    (unclosed : List Token) (tail : Text) :
    Agree (fun p q => ∃ left right, p.1 = left ++ (f.output ++ right) ∧
        q.1 = left ++ (g.output ++ right) ∧ p.2 = q.2)
      (closeLevel catalog options depth close (fill f slots) unclosed tail).yield
      (closeLevel catalog options depth close' (fill g slots) unclosed tail).yield := by
  have hout : ∀ {es es' : List Edit} (names : List Text) (tail : Text),
      Laid gap f g [] slots es es' → Agree (fun p q => ∃ left right,
        p.1 = left ++ (f.output ++ right) ∧ q.1 = left ++ (g.output ++ right) ∧ p.2 = q.2)
        (.ok (Level.outputWith ⟨fill f slots, tail⟩ es, names))
        (.ok (Level.outputWith ⟨fill g slots, tail⟩ es', names)) := by
    intro es es' names tail hlaid
    obtain ⟨left, right, hleft, hright⟩ :=
      hlaid.exists_output hopen hsolid h.fits.1 h.fits.2 tail
    exact .ok ⟨left, right, hleft, hright, rfl⟩
  cases unclosed with
  | cons u us => exact hout [] _ (.kept gap f g [] slots)
  | nil =>
      have hnames : (Level.mk (fill f slots) tail).namesTable catalog =
          (Level.mk (fill g slots) tail).namesTable catalog := namesTable_fill h.namesTable slots
      have hedit : Agree (LevelEdit.Alike gap f g [] slots)
          ((Level.mk (fill f slots) tail).filterEdit catalog options)
          ((Level.mk (fill g slots) tail).filterEdit catalog options) :=
        filterEdit_alike catalog options h.cuts h.namesTable h.keeps hP
          ⟨rfl, rfl, hsolid, h.fits⟩
      simp only [closeLevel, hnames]
      split
      · generalize (Level.mk (fill f slots) tail).filterEdit catalog options = edit at hedit ⊢
        generalize (Level.mk (fill g slots) tail).filterEdit catalog options = edit' at hedit ⊢
        cases hedit with
        | error hkind => exact .error hkind
        | @ok e e' halike =>
            obtain ⟨es, names⟩ := e
            obtain ⟨es', names'⟩ := e'
            obtain ⟨hlaid, rfl⟩ := halike
            exact hout ([] ++ (names ++ [])) tail hlaid
      · exact hout [] tail (.kept gap f g [] slots)

def Around (R : Text × List Text → Text × List Text → Prop) (p q : Text × List Text) : Prop :=
  ∃ left right earlier later x y, R x y ∧ p = (left ++ (x.1 ++ right), earlier ++ (x.2 ++ later)) ∧
    q = (left ++ (y.1 ++ right), earlier ++ (y.2 ++ later))

theorem filterLevel_swap {sql sql' tail : Text} {before after : List Segment} {s s' : Segment}
    {unclosed : List Token} (h : CutInto sql (before ++ s :: after) unclosed tail)
    (h' : CutInto sql' (before ++ s' :: after) unclosed tail) (gap : Text) (room depth offset : Nat)
    (hP : ∀ {items more : List Item},
      (itemsOf (nestedFilter catalog options room depth) offset before).result = .ok items →
        P (items.map some ++ none :: more.map some))
    {R : Text × List Text → Text × List Text → Prop}
    (hhole : ∀ start start', Agree
      (fun p q => ∃ f g, p.1 = [f] ∧ q.1 = [g] ∧ Swap catalog gap P f g ∧
        R (f.output, p.2) (g.output, q.2))
      (itemsOf (nestedFilter catalog options room depth) start [s]).yield
      (itemsOf (nestedFilter catalog options room depth) start' [s']).yield) :
    Agree (Around R) (filterLevel catalog options room depth offset sql).yield
      (filterLevel catalog options room depth offset sql').yield := by
  obtain ⟨start, stop, close, hone⟩ := h.filterLevel_around catalog options room depth offset
  obtain ⟨start', stop', close', hother⟩ := h'.filterLevel_around catalog options room depth offset
  -- The two segments differ in length, so what stands behind them begins at different bytes.
  have hrest := itemsOf_yield (nestedFilter_yield catalog options room depth) after stop' stop
  have hsolid : ∀ {items more : List Item},
      (itemsOf (nestedFilter catalog options room depth) offset before).result = .ok items →
      (itemsOf (nestedFilter catalog options room depth) stop after).result = .ok more →
        Solid (items.map some ++ none :: more.map some) := by
    intro items more hitems hmore i hi
    have hstands : ∀ t ∈ before.flatMap Segment.tokens ++ after.flatMap Segment.tokens,
        t.text ≠ [] := by
      intro t ht
      obtain ⟨r, hr⟩ := h.stands (t := t) (by
        rcases List.mem_append.1 ht with ht | ht <;> simp [ht])
      exact hr.lexeme.text_ne_nil
    rcases List.mem_append.1 hi with hi | hi
    · exact itemsOf_solid hitems (fun t ht => hstands t (List.mem_append_left _ ht)) i
        (by simpa using hi)
    · exact itemsOf_solid hmore (fun t ht => hstands t (List.mem_append_right _ ht)) i
        (by simpa using hi)
  rw [hone, hother]
  refine (Agree.self _).yield_bind ?_
  rintro items earlier _ _ ⟨⟨rfl, rfl⟩, hitems⟩
  obtain ⟨hitems, -⟩ := Attempt.yield_eq_ok.1 hitems
  refine (hhole start start').yield_bind ?_
  rintro _ names _ names' ⟨f, g, rfl, rfl, hswap, hR⟩
  have hafter : Agree (fun p q => p = q ∧
        (itemsOf (nestedFilter catalog options room depth) stop after).yield = .ok p)
      (itemsOf (nestedFilter catalog options room depth) stop after).yield
      (itemsOf (nestedFilter catalog options room depth) stop' after).yield := by
    rw [hrest]
    exact .self _
  refine hafter.yield_bind ?_
  rintro more later _ _ ⟨⟨rfl, rfl⟩, hmore⟩
  obtain ⟨hmore, -⟩ := Attempt.yield_eq_ok.1 hmore
  have hclose := closeLevel_alike catalog options hswap (hP hitems) (by simp) (hsolid hitems hmore)
    depth close close' unclosed tail
  simp only [fill_append, fill_cons, fill_map_some, Option.getD_none] at hclose
  refine hclose.mono ?_
  rintro ⟨_, last⟩ ⟨_, _⟩ ⟨left, right, rfl, rfl, rfl⟩
  exact ⟨left, right, earlier, later ++ last, (f.output, names), (g.output, names'), hR, by simp,
    by simp⟩

theorem keepsOut_of_subselect {f g : Item} (h : f.Alike g) (hf : f.isSubselect = true) :
    KeepsOut f g fun _ => True where
  body _ _ := .inl ⟨h, hf⟩
  later _ _ := trivial

theorem fits_subselect (gap front body : Text) : Fits gap (.subselect gap (front ++ [')']) body) where
  gap_eq := rfl
  text_ne_nil := by simp [Item.text]
  last c hc := by
    obtain rfl : ')' = c := by simpa [Item.text] using hc
    decide

theorem filterLevel_swap_subselect {sql sql' tail : Text} {before after : List Segment}
    {opening closing closing' : Token} {ts ts' unclosed : List Token}
    (h : CutInto sql (before ++ .subselect opening ts closing :: after) unclosed tail)
    (h' : CutInto sql' (before ++ .subselect opening ts' closing' :: after) unclosed tail)
    (room depth offset start : Nat) {R : Text × List Text → Text × List Text → Prop}
    (hnested : Agree R
      (nestedFilter catalog options room depth start (sourceOf ts ++ closing.gap)).yield
      (nestedFilter catalog options room depth start (sourceOf ts' ++ closing'.gap)).yield) :
    Agree (Around fun x y => ∃ p q, R p q ∧ x = ('(' :: (p.1 ++ [')']), p.2) ∧
        y = ('(' :: (q.1 ++ [')']), q.2))
      (filterLevel catalog options room depth offset sql).yield
      (filterLevel catalog options room depth offset sql').yield := by
  obtain ⟨-, -, hclosing⟩ := h.parentheses
  obtain ⟨-, -, hclosing'⟩ := h'.parentheses
  refine filterLevel_swap catalog options (P := fun _ => True) h h' opening.gap room depth offset
    (fun _ => trivial) fun start₁ start₂ => ?_
  have hbodies : Agree R
      (nestedFilter catalog options room depth (start₁ + Text.byteSize opening.source)
        (sourceOf ts ++ closing.gap)).yield
      (nestedFilter catalog options room depth (start₂ + Text.byteSize opening.source)
        (sourceOf ts' ++ closing'.gap)).yield := by
    rwa [nestedFilter_yield catalog options room depth (start₁ + _) start,
      nestedFilter_yield catalog options room depth (start₂ + _) start]
  rw [itemsOf, itemsOf]
  refine hbodies.yield_bind fun body names body' names' hR => ?_
  change Agree _ (.ok ([_], [])) (.ok ([_], []))
  have hitem : ∀ {c : Token}, c.text = [')'] → ∀ us, opening.text ++ (sourceOf us ++ c.source) =
      opening.text ++ (sourceOf us ++ c.gap) ++ [')'] := by
    intro c hc us
    simp [Token.source, hc]
  rw [hitem hclosing, hitem hclosing']
  refine .ok ⟨_, _, rfl, rfl, ⟨⟨fits_subselect .., fits_subselect ..⟩, .of_alike .subselects, rfl,
    keepsOut_of_subselect .subselects rfl⟩, (body, names), (body', names'), hR, ?_⟩
  simp [Item.output]

end Swaps

end SoftDelete
