import SoftDelete.Proofs.Coverage.Scan
import SoftDelete.Proofs.Join.Grammar

namespace SoftDelete

open Reading

def scannedWords : List String :=
  ["UNION", "FROM", "JOIN", "STRAIGHT_JOIN"]

structure Item.Inert (i : Item) : Prop where
  spells : ∀ word ∈ scannedWords, i.spells word = false
  comma : i.hasKind .comma = false

structure Item.Flat (i : Item) : Prop extends i.Inert where
  depthAfter : ∀ depth, i.depthAfter depth = depth

theorem Item.depthAfter_of_lparen {i : Item} (h : i.hasKind .lparen = true) (depth : Nat) :
    i.depthAfter depth = depth + 1 := by
  rw [depthAfter, kind?_of_hasKind h]

theorem Item.depthAfter_of_rparen {i : Item} (h : i.hasKind .rparen = true) (depth : Nat) :
    i.depthAfter depth = depth - 1 := by
  rw [depthAfter, kind?_of_hasKind h]

namespace Item.Inert

variable {i : Item}

theorem of_hasKind {kind : Token.Kind} (h : i.hasKind kind = true)
    (hkind : kind ∉ [Token.Kind.word, .comma]) : i.Inert := by
  have hi := kind?_of_hasKind h
  constructor
  · intro word _
    apply spells_eq_false
    rintro hword
    simp_all
  · rw [hasKind, hi]
    simp_all

theorem of_word (h : i.kind? = some .word)
    (hspells : ∀ word ∈ scannedWords, i.spells word = false) : i.Inert where
  spells := hspells
  comma := by simp [hasKind, h]

theorem opensTable (h : i.Inert) : i.opensTable = false := by
  have hjoin := h.spells "JOIN" (by simp [scannedWords])
  have hstraight := h.spells "STRAIGHT_JOIN" (by simp [scannedWords])
  simp [Item.opensTable, h.comma, hjoin, hstraight]

theorem heads (h : i.Inert) : i.spells "UNION" = false ∧ i.spells "FROM" = false :=
  ⟨h.spells "UNION" (by simp [scannedWords]), h.spells "FROM" (by simp [scannedWords])⟩

end Item.Inert

namespace Item.Flat

variable {i : Item}

theorem of_hasKind {kind : Token.Kind} (h : i.hasKind kind = true)
    (hkind : kind ∉ [Token.Kind.word, .comma, .lparen, .rparen]) : i.Flat where
  toInert := .of_hasKind h (by simp_all)
  depthAfter := by
    rw [List.mem_cons, List.mem_cons, List.mem_cons, List.mem_singleton] at hkind
    apply depthAfter_of_kind <;> simp_all [kind?_of_hasKind h]

theorem of_word (h : i.kind? = some .word)
    (hspells : ∀ word ∈ scannedWords, i.spells word = false) : i.Flat where
  toInert := .of_word h hspells
  depthAfter := depthAfter_of_kind (by simp [h]) (by simp [h])

theorem of_spells {word : String} (h : i.spells word = true)
    (hword : ∀ scanned ∈ scannedWords, Text.sameWord word.toList scanned.toList = false) :
    i.Flat :=
  .of_word (kind?_of_spells h) fun scanned hscanned =>
    (spells_eq h scanned).trans (hword scanned hscanned)

theorem of_freeName? {name : Text} (h : i.freeName? = some name) : i.Flat := by
  obtain ⟨t, rfl, hname, -⟩ := freeName?_eq_some h
  unfold Token.canName at hname
  split at hname
  · rename_i hkind
    -- The scanned words are reserved.
    have hreserved : ∀ word ∈ scannedWords, word.toList ∈ reservedWords := by decide
    refine .of_word (congrArg some hkind) fun word hword => Bool.eq_false_iff.2 fun hspells => ?_
    have hsame : Text.sameWord t.text word.toList = true := by
      simpa [spells, Token.spells, hkind] using hspells
    have hreads : isReservedWord (Item.token t).text = true :=
      List.any_eq_true.2 ⟨_, hreserved word hword, hsame⟩
    simp [freeName?, kind?, hkind, hreads] at h
  · rename_i q hkind
    exact .of_hasKind (by simp [hasKind, kind?, hkind]) (show Token.Kind.quoted q ∉ _ by simp)
  · cases hname

theorem subselect {gap text body : Text} : (Item.subselect gap text body).Flat where
  spells _ _ := rfl
  comma := rfl
  depthAfter _ := rfl

end Item.Flat

namespace Scan

structure Behind (s : Scan) (depth : Nat) : Prop where
  place : s.place = .joined ∨ s.place = .past
  depth : s.depth = depth
  base : s.base = 0

variable {catalog : Catalog} {every : Bool} {s : Scan} {i : Item} {depth : Nat}

theorem demand_eq_nil (h : s.place ≠ .table) (rest : List Item) :
    s.demand catalog every i rest = [] := by
  simp [demand, h]

theorem placeAfter_eq (h : s.depth = 0 → i.spells "UNION" = false ∧ i.spells "FROM" = false)
    (rest : List Item) : s.placeAfter every i rest = s.placeInBody i rest := by
  have hunion : ¬ (s.depth = 0 ∧ i.spells "UNION" = true) := by
    rintro ⟨hdepth, hspells⟩
    simp [(h hdepth).1] at hspells
  have hfrom : ¬ (s.depth = 0 ∧ i.spells "FROM" = true ∧ (every = true ∨ s.place = .select)) := by
    rintro ⟨hdepth, hspells, -⟩
    simp [(h hdepth).2] at hspells
  rw [placeAfter, if_neg hunion, if_neg hfrom]

namespace Behind

theorem not_table (h : s.Behind depth) : s.place ≠ .table := by
  rcases h.place with hplace | hplace <;> simp [hplace]

theorem opensGroup (h : s.Behind depth) : s.opensGroup i = false := by
  rcases h.place with hplace | hplace <;> simp [Scan.opensGroup, hplace]

theorem placeAfter (h : s.Behind depth) (hi : depth = 0 → i.Inert) (rest : List Item) :
    s.placeAfter every i rest = .joined ∨ s.placeAfter every i rest = .past := by
  have hgroup := h.opensGroup (i := i)
  obtain ⟨hplace, rfl, hbase⟩ := h
  rw [placeAfter_eq (fun hdepth => (hi hdepth).heads) rest, placeInBody]
  have hopens : ¬ ((s.depth = s.base ∧ i.opensTable = true) ∨ s.opensGroup i = true) := by
    rw [hbase, hgroup]
    rintro (⟨hdepth, hopens⟩ | hopens)
    · simp [(hi hdepth).opensTable] at hopens
    · cases hopens
  rcases hplace with hplace | hplace
  · simp only [hplace, if_neg hopens]
    split
    · exact .inr rfl
    · exact .inl rfl
  · exact .inr (by simp [hplace])

theorem next (h : s.Behind depth) (hi : depth = 0 → i.Inert) (rest : List Item) :
    (s.next every i rest).Behind (i.depthAfter depth) where
  place := h.placeAfter hi rest
  depth := by rw [Scan.next, h.depth]
  base := by simp [Scan.next, h.opensGroup, h.base]

theorem demands_cons (h : s.Behind depth) (rest : List Item) :
    s.demands catalog every (i :: rest) = (s.next every i rest).demands catalog every rest := by
  rw [demands, demand_eq_nil h.not_table, List.nil_append]

end Behind

end Scan

def Silent (catalog : Catalog) (every : Bool) (before after : Nat) (items : List Item) : Prop :=
  ∀ (s : Scan) (rest : List Item), s.Behind before → ∃ s' : Scan, s'.Behind after ∧
    s.demands catalog every (items ++ rest) = s'.demands catalog every rest

namespace Silent

variable {catalog : Catalog} {every : Bool} {depth before middle after : Nat}
  {items more : List Item} {i : Item}

theorem nil : Silent catalog every depth depth [] :=
  fun s _ hs => ⟨s, hs, rfl⟩

theorem append (h : Silent catalog every before middle items)
    (hmore : Silent catalog every middle after more) :
    Silent catalog every before after (items ++ more) := by
  intro s rest hs
  obtain ⟨s', hs', hdemands⟩ := h s (more ++ rest) hs
  obtain ⟨s'', hs'', hdemands'⟩ := hmore s' rest hs'
  exact ⟨s'', hs'', by rw [List.append_assoc, hdemands, hdemands']⟩

theorem one (hi : depth = 0 → i.Inert) : Silent catalog every depth (i.depthAfter depth) [i] := by
  intro s rest hs
  exact ⟨s.next every i rest, hs.next hi rest, hs.demands_cons rest⟩

theorem flat (hi : i.Flat) : Silent catalog every depth depth [i] := by
  have h : Silent catalog every depth (i.depthAfter depth) [i] := one fun _ => hi.toInert
  rwa [hi.depthAfter] at h

theorem cons (hi : i.Flat) (h : Silent catalog every depth after items) :
    Silent catalog every depth after (i :: items) :=
  (flat hi).append h

theorem opening (hi : i.hasKind .lparen = true)
    (h : Silent catalog every (depth + 1) after items) :
    Silent catalog every depth after (i :: items) := by
  have hone : Silent catalog every depth (i.depthAfter depth) [i] :=
    one fun _ => .of_hasKind hi (by simp)
  rw [Item.depthAfter_of_lparen hi] at hone
  exact hone.append h

theorem closing (hi : i.hasKind .rparen = true) : Silent catalog every (depth + 1) depth [i] := by
  have h : Silent catalog every (depth + 1) (i.depthAfter (depth + 1)) [i] :=
    one fun _ => .of_hasKind hi (by simp)
  rwa [Item.depthAfter_of_rparen hi] at h

theorem enclosed {close : Item} {xs inner rest : List Item} {further : Nat}
    (h : enclosed? Item.kind? further xs = some (inner, close, rest)) :
    Silent catalog every (depth + further + 1) depth (inner ++ [close]) := by
  induction xs generalizing further inner with
  | nil => cases h
  | cons x xs ih =>
      have hstep : ∀ {deeper : Nat} {later : List Item},
          x.depthAfter (depth + further + 1) = depth + deeper + 1 →
          enclosed? Item.kind? deeper xs = some (later, close, rest) →
          Silent catalog every (depth + further + 1) depth (x :: (later ++ [close])) := by
        intro deeper later hdepth hlater
        have hone : Silent catalog every (depth + further + 1)
            (x.depthAfter (depth + further + 1)) [x] := one nofun
        rw [hdepth] at hone
        exact hone.append (ih hlater)
      simp only [enclosed?] at h
      split at h
      · rename_i hkind
        obtain ⟨⟨later, close, rest⟩, hlater, heq⟩ := Option.map_eq_some_iff.1 h
        cases heq
        exact hstep (by simp [Item.depthAfter, hkind, Nat.add_assoc]) hlater
      · rename_i hkind
        cases h
        exact closing (by simp [Item.hasKind, hkind])
      · rename_i d hkind
        obtain ⟨⟨later, close, rest⟩, hlater, heq⟩ := Option.map_eq_some_iff.1 h
        cases heq
        exact hstep (by simp [Item.depthAfter, hkind, Nat.add_assoc]) hlater
      · rename_i further _ _ hl hr hdown
        obtain ⟨⟨later, close, rest⟩, hlater, heq⟩ := Option.map_eq_some_iff.1 h
        cases heq
        have hrparen : x.kind? ≠ some .rparen := by
          intro hkind
          cases further with
          | zero => exact hr hkind rfl
          | succ d => exact hdown d hkind rfl
        exact hstep (Item.depthAfter_of_kind hl hrparen _) hlater

theorem comma (hi : i.hasKind .comma = true) (hdepth : depth ≠ 0) :
    Silent catalog every depth depth [i] := by
  have h : Silent catalog every depth (i.depthAfter depth) [i] :=
    one fun hzero => absurd hzero hdepth
  have hkind := Item.kind?_of_hasKind hi
  rwa [Item.depthAfter_of_kind (by simp [hkind]) (by simp [hkind])] at h

theorem words {spelled : List String} (h : SpelledBy spelled items)
    (hspelled : ∀ word ∈ spelled, ∀ scanned ∈ scannedWords,
      Text.sameWord word.toList scanned.toList = false) :
    Silent catalog every depth depth items := by
  induction spelled generalizing items with
  | nil =>
      obtain rfl := List.eq_nil_of_length_eq_zero h.2
      exact nil
  | cons word spelled ih =>
      obtain ⟨hstarts, hlen⟩ := h
      cases items with
      | nil => cases hlen
      | cons i items =>
          obtain ⟨hword, hlater⟩ := Bool.and_eq_true_iff.1 hstarts
          have hmore := ih ⟨hlater, Nat.succ.inj hlen⟩ fun w hw => hspelled w (by simp [hw])
          exact hmore.cons (.of_spells hword (hspelled word (by simp)))

end Silent

section Reading

variable {catalog : Catalog} {every : Bool} {depth : Nat} {items : List Item}

theorem Linked.silent {α β : Type} {P : α → List Item → Prop} {link? : Item → Option β}
    {xs : List (β × α)} (h : Linked P link? xs items)
    (hlink : ∀ {i b}, link? i = some b → Silent catalog every depth depth [i])
    (hP : ∀ {a items}, P a items → Silent catalog every depth depth items) :
    Silent catalog every depth depth items := by
  induction h with
  | nil => exact .nil
  | cons hi helement _ ih => exact (hlink hi).append ((hP helement).append ih)

theorem Named.silent {text : Text} (h : Named text items) :
    Silent catalog every depth depth items := by
  obtain ⟨i, rfl, hi⟩ := h
  exact .flat (.of_freeName? hi)

theorem NamesBy.silent {mark : Token.Kind} {texts : List Text} (h : NamesBy mark texts items)
    (hmark : ∀ {i : Item}, i.hasKind mark = true → Silent catalog every depth depth [i]) :
    Silent catalog every depth depth items := by
  obtain ⟨i, text, xs, rest, rfl, -, hi, hrest⟩ := h
  have hlater := hrest.silent (fun hlink => hmark (hasKind_of_mark? hlink)) Named.silent
  exact hlater.cons (.of_freeName? hi)

theorem Silent.dot {i : Item} (hi : i.hasKind .dot = true) :
    Silent catalog every depth depth [i] :=
  .flat (.of_hasKind hi (by simp))

theorem Compares.silent {op : Comparator} (h : Compares op items) :
    Silent catalog every depth depth items := by
  rcases h with ⟨i, rfl, hi, -⟩ | ⟨form, hform, -, hspelled⟩
  · exact .flat (.of_hasKind hi (by simp))
  · have hforms : ∀ form ∈ Comparator.forms, ∀ word ∈ form.1, ∀ scanned ∈ scannedWords,
        Text.sameWord word.toList scanned.toList = false := by decide
    exact .words hspelled (hforms form hform)

theorem Connective.flat {i : Item} {k : Connective} (h : Connective.ofItem? i = some k) :
    i.Flat := by
  unfold ofItem? at h
  split at h
  · rename_i hand
    rcases Bool.or_eq_true_iff.1 hand with hword | hoperator
    · exact .of_spells hword (by decide)
    · exact .of_hasKind (Bool.and_eq_true_iff.1 hoperator).1 (by simp)
  · split at h
    · rename_i hor
      rcases Bool.or_eq_true_iff.1 hor with hword | hoperator
      · exact .of_spells hword (by decide)
      · exact .of_hasKind (Bool.and_eq_true_iff.1 hoperator).1 (by simp)
    · cases h

theorem flat_of_constant {i : Item} (hi : i.hasKind .word = true)
    (hword : constantWords.any (Text.sameWord i.text) = true) : i.Flat := by
  obtain ⟨word, hmem, hspells⟩ := Item.spells_of_constant hi hword
  have hwords : ∀ word ∈ ["NULL", "TRUE", "FALSE", "UNKNOWN"], ∀ scanned ∈ scannedWords,
      Text.sameWord word.toList scanned.toList = false := by decide
  exact .of_spells hspells (hwords word hmem)

theorem Derives.silent {p : ConditionPart} (h : Derives p items)
    (hdepth : ∀ values, p = .operands values → depth ≠ 0) :
    Silent catalog every depth depth items := by
  induction h generalizing depth with
  | subselect => exact .flat .subselect
  | number hi | quoted _ hi | param hi => exact .flat (.of_hasKind hi (by simp))
  | constant hi hword => exact .flat (flat_of_constant hi hword)
  | signed hi _ hj =>
      exact (Silent.flat (.of_hasKind hj (by simp))).cons (.of_hasKind hi (by simp))
  | column h => exact h.silent .dot
  | call hi _ hopening hargs =>
      exact ((Silent.enclosed hargs).opening hopening).cons (.of_freeName? hi)
  | list hopening _ hclosing ih | group hopening _ hclosing ih =>
      exact ((ih fun _ _ => Nat.succ_ne_zero _).append (.closing hclosing)).opening hopening
  | one _ ih => exact ih nofun
  | single _ ih => exact ih nofun
  | more _ hcomma _ ih ihrest =>
      -- Outside all parentheses the comma would bring in a table.
      have hnested := hdepth _ rfl
      exact (ih nofun).append ((Silent.comma hcomma hnested).append (ihrest fun _ _ => hnested))
  | compare _ hop _ ihlhs ihrhs => exact (ihlhs nofun).append (hop.silent.append (ihrhs nofun))
  | not hi _ ih => exact (ih nofun).cons (.of_spells hi (by decide))
  | connect _ hi _ ih ihrest => exact (ih nofun).append ((ihrest nofun).cons (Connective.flat hi))

theorem AliasName.silent {aliasName : Option Text} (h : AliasName aliasName items) :
    Silent catalog every depth depth items := by
  cases h with
  | none => exact .nil
  | bare hi => exact .flat (.of_freeName? hi)
  | as hkeyword hi => exact (Silent.flat (.of_freeName? hi)).cons (.of_spells hkeyword (by decide))

theorem Join.Clause.Spans.silent {start : Nat} {clause : Option Join.Clause}
    (h : Join.Clause.Spans start items clause) : Silent catalog every depth depth items := by
  cases h with
  | none => exact .nil
  | on hon hcond => exact (hcond.silent nofun).cons (.of_spells hon (by decide))
  | «using» husing hopening hnames hclosing =>
      have hcolumns : Silent catalog every (depth + 1) (depth + 1) _ :=
        hnames.silent fun hi => .comma hi (Nat.succ_ne_zero depth)
      have hgroup := (hcolumns.append (.closing hclosing)).opening hopening
      exact hgroup.cons (.of_spells husing (by decide))

end Reading

end SoftDelete
