import SoftDelete.Proofs.Sql.Lexeme

namespace SoftDelete

theorem mapError_eq_ok {α ε ε' : Type} {x : Except ε α} {f : ε → ε'} {a : α}
    (h : x.mapError f = .ok a) : x = .ok a := by
  cases x with
  | error e => cases h
  | ok b =>
      cases h
      rfl

structure Token.StandsBefore (t : Token) (r : Text) : Prop where
  gap : ClosedGap t.gap
  lexeme : Lexeme t.kind t.text r

def Readable : List Token → Text → Prop
  | [], _ => True
  | t :: ts, r => t.StandsBefore (sourceOf ts ++ r) ∧ Readable ts r

theorem readable_append {ts us : List Token} {r : Text} :
    Readable (ts ++ us) r ↔ Readable ts (sourceOf us ++ r) ∧ Readable us r := by
  induction ts with
  | nil => simp [Readable]
  | cons t ts ih => simp [Readable, ih, and_assoc]

theorem behind_gap {s : Text} {c : Char} {r : Text}
    (h : s.drop (gapLength .between s) = c :: r) :
    ClosedGap (s.take (gapLength .between s)) ∧ gapLength .between (c :: r) = 0 := by
  have hsplit := List.take_append_drop (gapLength .between s) s
  rw [h] at hsplit
  have hlen : (s.take (gapLength .between s)).length = gapLength .between s := by
    have := congrArg List.length h
    simp only [List.length_drop, List.length_cons] at this
    rw [List.length_take]
    omega
  have hclosed : ClosedGap (s.take (gapLength .between s)) :=
    closedGap_of_length (c := c) (s := r) (by rw [hsplit, hlen])
  have hscan := hclosed (c :: r)
  rw [hsplit, hlen] at hscan
  exact ⟨hclosed, by omega⟩

theorem gapLength_le (st : GapState) (s : Text) : gapLength st s ≤ s.length := by
  induction s generalizing st with
  | nil => simp [gapLength]
  | cons c s ih =>
      rw [gapLength_cons, List.length_cons]
      split
      · exact Nat.add_le_add_right (ih _) 1
      · exact Nat.zero_le _

theorem Readable.stands {ts : List Token} {r : Text} (h : Readable ts r) {t : Token} (ht : t ∈ ts) :
    ∃ s, t.StandsBefore s := by
  induction ts with
  | nil => cases ht
  | cons u ts ih =>
      rcases List.mem_cons.1 ht with rfl | ht
      · exact ⟨_, h.1⟩
      · exact ih h.2 ht

theorem readable_of_lex {s : Text} {l : Lexed} (h : lex s = .ok l) :
    Readable l.tokens l.tail ∧ gapLength .between l.tail = l.tail.length := by
  fun_induction lex s generalizing l with
  | case1 s hs =>
      cases h
      have hle := gapLength_le .between s
      have hlen := congrArg List.length hs
      simp only [List.length_drop, List.length_nil] at hlen
      have hge : s.length ≤ gapLength .between s := by omega
      exact ⟨trivial, Nat.le_antisymm hle hge⟩
  | case2 => cases h
  | case3 s c r hs gap kind n hlexeme token rest hrest =>
      rename_i ih
      cases h
      obtain ⟨hread, htail⟩ := ih hrest
      obtain ⟨hclosed, hstart⟩ := behind_gap hs
      have hr : r.take n ++ (sourceOf rest.tokens ++ rest.tail) = r := by
        rw [show sourceOf rest.tokens ++ rest.tail = r.drop n from source_of_lex hrest,
          List.take_append_drop]
      have hlen : (r.take n).length = n := List.length_take_of_le (lexeme?_le hlexeme)
      refine ⟨⟨⟨hclosed, .intro ?_ ?_⟩, hread⟩, htail⟩
      · rw [hr, hstart]
      · rw [hr, hlen, hlexeme]
  | case4 => cases h

theorem lex_of_ofText {s : Text} {l : Lexed} (h : Lexed.ofText s = .ok l) : lex s = .ok l :=
  mapError_eq_ok h

theorem ofText_of_lex {s : Text} {l : Lexed} (h : lex s = .ok l) : Lexed.ofText s = .ok l := by
  rw [Lexed.ofText, h]
  rfl

theorem lex_of_readable {ts : List Token} {r : Text} (h : Readable ts r)
    (hr : gapLength .between r = r.length) : lex (sourceOf ts ++ r) = .ok ⟨ts, r⟩ := by
  induction ts with
  | nil =>
      rw [sourceOf_nil, List.nil_append, lex]
      split
      · rfl
      · rename_i hdrop
        simp [hr] at hdrop
  | cons t ts ih =>
      obtain ⟨gap, kind, text⟩ := t
      obtain ⟨⟨hclosed, hlexeme⟩, hread⟩ := h
      obtain @⟨c, x, _, hstart, hx⟩ := hlexeme
      have hsource : sourceOf (⟨gap, kind, c :: x⟩ :: ts) ++ r =
          gap ++ c :: (x ++ (sourceOf ts ++ r)) := by simp [Token.source]
      have hgap : gapLength .between (gap ++ c :: (x ++ (sourceOf ts ++ r))) = gap.length := by
        rw [hclosed, hstart, Nat.add_zero]
      rw [hsource, lex]
      split
      · rename_i hdrop
        simp [hgap] at hdrop
      · rename_i d s hdrop
        obtain ⟨rfl, rfl⟩ : c = d ∧ x ++ (sourceOf ts ++ r) = s := by simpa [hgap] using hdrop
        simp only [hx, hgap, List.take_left, List.drop_left, ih hread]

def Apart (_ _ : Text) : Prop := True

/-- Where what follows changes as `P` says, the written tokens can be read if the given ones can,
and together they change as `Q` says. -/
structure Flows (P Q : Text → Text → Prop) (given written : List Token) : Prop where
  readable : ∀ {r r'}, P r r' → Readable given r → Readable written r'
  front : ∀ {r r'}, P r r' → Readable given r → Q (sourceOf given ++ r) (sourceOf written ++ r')

namespace Flows

variable {P Q R : Text → Text → Prop} {given written given' written' : List Token}

theorem nil : Flows P P [] [] where
  readable _ _ := trivial
  front h _ := h

theorem append (h : Flows Q R given written) (h' : Flows P Q given' written') :
    Flows P R (given ++ given') (written ++ written') where
  readable hr hread := by
    rw [readable_append] at hread ⊢
    exact ⟨h.readable (h'.front hr hread.2) hread.1, h'.readable hr hread.2⟩
  front hr hread := by
    rw [readable_append] at hread
    simpa using h.front (h'.front hr hread.2) hread.1

theorem mono {P' Q' : Text → Text → Prop} (h : Flows P Q given written)
    (hP : ∀ r r', P' r r' → P r r') (hQ : ∀ r r', Q r r' → Q' r r') :
    Flows P' Q' given written where
  readable hr hread := h.readable (hP _ _ hr) hread
  front hr hread := hQ _ _ (h.front (hP _ _ hr) hread)

theorem of_apart (h : Flows Apart Q given written) : Flows P Q given written :=
  h.mono (fun _ _ _ => trivial) fun _ _ hr => hr

theorem token {t u : Token} (hkind : u.kind = t.kind) (htext : u.text = t.text)
    (hgap : ClosedGap t.gap → ClosedGap u.gap)
    (hlexeme : ∀ {r r'}, P r r' → Lexeme t.kind t.text r → Lexeme t.kind t.text r')
    (hfront : ∀ {r r'}, P r r' → t.StandsBefore r → Q (t.source ++ r) (u.source ++ r')) :
    Flows P Q [t] [u] where
  readable hr hread := by
    obtain ⟨⟨hclosed, hread⟩, -⟩ := hread
    refine ⟨⟨hgap hclosed, ?_⟩, trivial⟩
    rw [hkind, htext]
    exact hlexeme hr hread
  front hr hread := by simpa using hfront hr (by simpa using hread.1)

end Flows

theorem Lexeme.text_ne_nil {kind : Token.Kind} {x r : Text} (h : Lexeme kind x r) : x ≠ [] := by
  obtain ⟨-, -⟩ := h
  simp

theorem Lexeme.kind_of_dash {kind : Token.Kind} {r : Text} (h : Lexeme kind ['-'] r) :
    kind = .operator := by
  obtain ⟨-, hread⟩ := h
  have hfind : operators.find? (·.isPrefixOf ('-' :: r)) = some ['-'] := by
    simp [operators]
  have hmark : Quote.ofMark? '-' = none ∧ isNamePart '-' = false := by decide
  simp [lexeme?, hmark, hfind] at hread
  exact hread.symm

theorem Safe.of_blank {c : Char} (h : isBlank c = true) (r r' : Text) : Safe (c :: r) (c :: r') where
  head _ hd := .inl hd
  operator d y op hop hprefix := by
    have hc : c ∉ op := by
      intro hmem
      simp [isBlank_of_mem_operators op hop c hmem] at h
    exact (prefix_of_not_mem hprefix hc).trans (List.prefix_append _ _)
  fraction _ := by
    refine fractionLength_cons ?_ r'
    rintro rfl
    exact absurd h (by decide)
  dash hopens := by
    have hc : c ≠ '-' := by
      rintro rfl
      exact absurd h (by decide)
    rw [opensLineComment_cons hc] at hopens
    cases hopens
  dashes hopens := hopens

theorem Safe.of_gap {g : Text} (h : ClosedGap g) (hne : g ≠ []) (r r' : Text) :
    Safe (g ++ r) (g ++ r') := by
  match g with
  | [] => exact absurd rfl hne
  | [c] => exact .of_blank h.blank r r'
  | c :: d :: g => exact .cons_cons c d _ _

theorem Lexeme.calmer {kind : Token.Kind} {x r r' : Text} (h : Lexeme kind x r)
    (hr : Calmer r r') : Lexeme kind x r' :=
  h.change hr.toTamer (fun _ => hr.fraction) fun _ => hr.dash

theorem Token.StandsBefore.front {t : Token} {r r' : Text} (h : t.StandsBefore r)
    (hr : Tamer r r') (hdash : t.text ≠ ['-'] ∨ t.gap ≠ []) :
    Safe (t.source ++ r) (t.source ++ r') := by
  rw [Token.source, List.append_assoc, List.append_assoc]
  rcases hdash with htext | hgap
  · exact (hr.append h.lexeme.text_ne_nil htext).append t.gap
  · exact .of_gap h.gap hgap _ _

namespace Flows

theorem own (t : Token) : Flows Safe Safe [t] [t] :=
  token rfl rfl id (fun hr hread => hread.calmer hr.toCalmer) fun hr _ => hr.append t.source

theorem list (ts : List Token) : Flows Safe Safe ts ts := by
  induction ts with
  | nil => exact nil
  | cons t ts ih => exact (own t).append ih

theorem calmer_own {t : Token}
    (h : ∀ {r}, t.StandsBefore r → t.text ≠ ['-'] ∨ t.gap ≠ []) : Flows Calmer Safe [t] [t] :=
  token rfl rfl id (fun hr hread => hread.calmer hr) fun hr ht => ht.front hr.toTamer (h ht)

theorem settled {t : Token} (h : t.kind ≠ .operator) : Flows Calmer Safe [t] [t] :=
  calmer_own fun ht => .inl fun htext => h (Lexeme.kind_of_dash (htext ▸ ht.lexeme))

end Flows

namespace Lexeme

theorem of_punctuation {c : Char} {kind : Token.Kind} {x r : Text}
    (hkind : kind = .lparen ∨ kind = .rparen ∨ kind = .comma) (h : Lexeme kind (c :: x) r) :
    x = [] ∧ kind = punctuation c := by
  obtain ⟨-, hread⟩ := h
  unfold lexeme? at hread
  split at hread
  · obtain ⟨n, -, hn⟩ := Option.map_eq_some_iff.1 hread
    cases hn
    simp at hkind
  · split at hread
    · simp only [wordLexeme, Option.some.injEq] at hread
      split at hread <;> simp [← (Prod.mk.inj hread).1] at hkind
    · split at hread
      · simp [← (Prod.mk.inj (Option.some.inj hread)).1] at hkind
      · simp only [Option.some.injEq, Prod.mk.injEq] at hread
        exact ⟨List.eq_nil_of_length_eq_zero hread.2.symm, hread.1.symm⟩

theorem punctuation_text {kind : Token.Kind} {d : Char} {x r : Text}
    (hkind : kind = .lparen ∨ kind = .rparen ∨ kind = .comma) (h : Lexeme kind x r)
    (hd : ∀ c, kind = punctuation c → c = d) : x = [d] := by
  cases x with
  | nil => exact absurd rfl h.text_ne_nil
  | cons c x =>
      obtain ⟨rfl, hc⟩ := of_punctuation hkind h
      rw [hd c hc]

theorem lparen_text {x r : Text} (h : Lexeme .lparen x r) : x = ['('] :=
  h.punctuation_text (.inl rfl) fun c hc => by
    unfold punctuation at hc
    split at hc <;> simp_all

theorem rparen_text {x r : Text} (h : Lexeme .rparen x r) : x = [')'] :=
  h.punctuation_text (.inr (.inl rfl)) fun c hc => by
    unfold punctuation at hc
    split at hc <;> simp_all

theorem comma_text {x r : Text} (h : Lexeme .comma x r) : x = [','] :=
  h.punctuation_text (.inr (.inr rfl)) fun c hc => by
    unfold punctuation at hc
    split at hc <;> simp_all

theorem lparen (r : Text) : Lexeme .lparen ['('] r := by
  have hpart : isNamePart '(' = false := by decide
  refine .intro (gapLength_eq_zero_iff.2 ⟨by decide, rfl, by simp⟩) ?_
  simp [lexeme?, Quote.ofMark?, hpart, operators, punctuation]

theorem rparen (r : Text) : Lexeme .rparen [')'] r := by
  have hpart : isNamePart ')' = false := by decide
  refine .intro (gapLength_eq_zero_iff.2 ⟨by decide, rfl, by simp⟩) ?_
  simp [lexeme?, Quote.ofMark?, hpart, operators, punctuation]

end Lexeme

theorem Flows.parenthesis {t : Token} (h : t.kind = .lparen ∨ t.kind = .rparen) :
    Flows Apart Safe [t] [t] := by
  have htext : ∀ {r}, t.StandsBefore r → ∃ c, (c = '(' ∨ c = ')') ∧ t.text = [c] := by
    intro r ht
    rcases h with hkind | hkind
    · exact ⟨_, .inl rfl, Lexeme.lparen_text (hkind ▸ ht.lexeme)⟩
    · exact ⟨_, .inr rfl, Lexeme.rparen_text (hkind ▸ ht.lexeme)⟩
  apply token rfl rfl id
  · intro r r' _ hread
    rcases h with hkind | hkind
    · rw [hkind] at hread ⊢
      rw [hread.lparen_text]
      exact .lparen r'
    · rw [hkind] at hread ⊢
      rw [hread.rparen_text]
      exact .rparen r'
  · intro r r' _ ht
    obtain ⟨c, hc, htext⟩ := htext ht
    rw [Token.source, htext, List.append_assoc, List.append_assoc]
    exact (Safe.of_parenthesis hc _ _).append t.gap

def Parted (_ r' : Text) : Prop :=
  ∃ s, r' = ' ' :: s

theorem Parted.calmer {r r' : Text} (h : Parted r r') : Calmer r r' := by
  obtain ⟨s, rfl⟩ := h
  exact .of_neutral rfl (by decide) r s

structure Spaced (ts : List Token) : Prop where
  solid : ∀ r, Readable ts r
  space : ∃ s, sourceOf ts = ' ' :: s

theorem Spaced.flows {ts : List Token} (h : Spaced ts) (given : List Token) :
    Flows Apart Parted given ts where
  readable _ _ := h.solid _
  front _ _ := by
    obtain ⟨s, hs⟩ := h.space
    exact ⟨_, by rw [hs]; rfl⟩

theorem Spaced.calmer {ts : List Token} (h : Spaced ts) (given : List Token) :
    Flows Apart Calmer given ts :=
  (h.flows given).mono (fun _ _ hr => hr) fun _ _ hr => hr.calmer

theorem Spaced.append {ts us : List Token} (ht : Spaced ts) (hu : Spaced us) :
    Spaced (ts ++ us) where
  solid r := readable_append.2 ⟨ht.solid _, hu.solid r⟩
  space := by
    obtain ⟨s, hs⟩ := ht.space
    exact ⟨s ++ sourceOf us, by rw [sourceOf_append, hs]; rfl⟩

theorem Flows.dash_behind {t u : Token} (ht : t.text ≠ ['-']) (hu : u.text = ['-'])
    (hgap : u.gap = []) : Flows Calmer Safe [t, u] [t, u] := by
  have hsource : ∀ r, sourceOf [t, u] ++ r = t.gap ++ (t.text ++ '-' :: r) := by
    simp [Token.source, hu, hgap]
  constructor
  · intro r r' hr hread
    obtain ⟨hfirst, hsecond, -⟩ := hread
    have hchange : Lexeme t.kind t.text ('-' :: r) → Lexeme t.kind t.text ('-' :: r') := fun h =>
      h.change (hr.toTamer.push '-') (fun _ _ => fractionLength_cons (by decide) r')
        fun htext => absurd htext ht
    have hlexeme := hfirst.lexeme
    refine ⟨⟨hfirst.gap, ?_⟩, ⟨hsecond.gap, hsecond.lexeme.calmer hr⟩, trivial⟩
    simp only [sourceOf_cons, sourceOf_nil, Token.source, hu, hgap] at hlexeme ⊢
    exact hchange hlexeme
  · intro r r' _ hread
    rw [hsource, hsource]
    refine Safe.append ?_ t.gap
    cases htext : t.text with
    | nil => exact absurd htext hread.1.lexeme.text_ne_nil
    | cons c x =>
        cases x with
        | nil => exact .cons_cons c '-' r r'
        | cons d x => exact .cons_cons c d _ _

def EndsInDashes (inner : List Token) (gap : Text) : Prop :=
  ∃ front t u, inner = front ++ [t, u] ∧ t.text = ['-'] ∧ u.text = ['-'] ∧ u.gap = [] ∧ gap = []

theorem lex_inner_same {inner : List Token} {gap r : Text} (h : Readable inner (gap ++ r))
    (hgap : ClosedGap gap) (hend : ¬ EndsInDashes inner gap) :
    lex (sourceOf inner ++ gap) = .ok ⟨inner, gap⟩ := by
  have hscan : gapLength .between gap = gap.length := by simpa [gapLength] using hgap []
  refine lex_of_readable ?_ hscan
  by_cases hne : gap = []
  · subst hne
    have hlast : ∀ {front last}, inner = front ++ last → Flows Calmer Safe last last →
        Readable inner [] := by
      rintro front last rfl hlast
      exact ((Flows.list front).append hlast).readable (Calmer.nil _) h
    rcases List.eq_nil_or_concat inner with rfl | ⟨front, u, hu⟩
    · trivial
    rw [List.concat_eq_append] at hu
    by_cases hdash : u.text = ['-'] ∧ u.gap = []
    · rcases List.eq_nil_or_concat front with rfl | ⟨front, t, rfl⟩
      · subst hu
        exact ⟨⟨h.1.gap, h.1.lexeme.calmer (.nil _)⟩, trivial⟩
      rw [List.concat_eq_append, List.append_assoc, List.singleton_append] at hu
      have ht : t.text ≠ ['-'] := fun ht => hend ⟨front, t, u, hu, ht, hdash.1, hdash.2, rfl⟩
      exact hlast hu (.dash_behind ht hdash.1 hdash.2)
    · exact hlast hu (.calmer_own fun _ => not_and_or.1 hdash)
  · have hsafe : Safe (gap ++ r) gap := by
      simpa using Safe.of_gap hgap hne r []
    exact (Flows.list inner).readable hsafe h

theorem lex_inner_dashes {front : List Token} {t u : Token} {r : Text}
    (h : Readable (front ++ [t, u]) r) (ht : t.text = ['-']) (hu : u.text = ['-'])
    (hgap : u.gap = []) :
    lex (sourceOf (front ++ [t, u])) = .ok ⟨front, sourceOf [t, u]⟩ := by
  have hsource : ∀ s, sourceOf [t, u] ++ s = t.gap ++ '-' :: '-' :: s := by
    simp [Token.source, ht, hu, hgap]
  rw [readable_append] at h
  have htail : gapLength .between (sourceOf [t, u] ++ []) = (sourceOf [t, u] ++ []).length := by
    have hclosed : ClosedGap t.gap := h.2.1.gap
    have hend : gapLength .between ['-', '-'] = 2 := rfl
    rw [hsource, hclosed, hend]
    simp
  have hread : Readable front (sourceOf [t, u] ++ []) := by
    refine (Flows.list front).readable ?_ h.1
    rw [hsource, hsource]
    exact Safe.append (.cons_cons '-' '-' _ _) t.gap
  rw [sourceOf_append, ← List.append_nil (sourceOf [t, u])]
  exact lex_of_readable hread htail

theorem lex_inner_cases {inner : List Token} {gap r : Text} (h : Readable inner (gap ++ r))
    (hgap : ClosedGap gap) :
    ∃ front dashes, inner = front ++ dashes ∧
      lex (sourceOf inner ++ gap) = .ok ⟨front, sourceOf dashes ++ gap⟩ ∧
      (dashes = [] ∧ ¬ EndsInDashes inner gap ∨
        ∃ t u, dashes = [t, u] ∧ t.text = ['-'] ∧ u.text = ['-'] ∧ u.gap = [] ∧ gap = []) := by
  by_cases hend : EndsInDashes inner gap
  · obtain ⟨front, t, u, rfl, ht, hu, hnone, rfl⟩ := hend
    refine ⟨front, [t, u], rfl, ?_, .inr ⟨t, u, rfl, ht, hu, hnone, rfl⟩⟩
    rw [List.append_nil, List.append_nil]
    exact lex_inner_dashes h ht hu hnone
  · exact ⟨inner, [], by simp, lex_inner_same h hgap hend, .inl ⟨rfl, hend⟩⟩

theorem lex_inner {inner : List Token} {gap r : Text} (h : Readable inner (gap ++ r))
    (hgap : ClosedGap gap) :
    ∃ front dashes, inner = front ++ dashes ∧ (∀ t ∈ dashes, t.text = ['-']) ∧
      lex (sourceOf inner ++ gap) = .ok ⟨front, sourceOf dashes ++ gap⟩ := by
  obtain ⟨front, dashes, hinner, hlex, hdashes⟩ := lex_inner_cases h hgap
  refine ⟨front, dashes, hinner, ?_, hlex⟩
  rcases hdashes with ⟨rfl, -⟩ | ⟨t, u, rfl, ht, hu, -⟩
  · simp
  · simp [ht, hu]

end SoftDelete
