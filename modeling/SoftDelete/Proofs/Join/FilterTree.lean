import SoftDelete.Proofs.Conservation.Join
import SoftDelete.Proofs.Join.Printing
import SoftDelete.Proofs.Join.Spacing

namespace SoftDelete

open Reading

def partsOf (name : Text) : List Text :=
  ((tokensOf name).filter Token.canName).map Token.text

def filterTree (field target : Text) : Condition :=
  let column := Operand.column (partsOf target ++ [field])
  .group (.or (.compare column .eq (.literal "0".toList))
    (.compare column .is (.literal "NULL".toList)))

def conjunctionTree : List Condition → Option Condition
  | [] => none
  | c :: cs => some (cs.foldl .and c)

def rebuiltTree (field : Text) (targets : List Text) (own : Option Condition) : Option Condition :=
  conjunctionTree (targets.map (filterTree field) ++ own.toList.map .group)

def IsFreeTarget (target : Text) : Prop :=
  ∃ names, Names names ∧ (∀ t ∈ names, t.IsFreeName) ∧
    target = Text.joined "." (names.map Token.text)

def beginsWithConstant (text : Text) : Bool :=
  (tokensOf text).head?.any fun t =>
    t.kind == .word && constantWords.any (Text.sameWord t.text)

theorem map_bare_dotted (ts : List Token) : (dotted ts).map Token.bare = dotted ts := by
  fun_induction dotted ts with
  | case1 => rfl
  | case2 t => rfl
  | case3 t ts _ ih =>
      rw [List.map_cons, List.map_cons, ih]
      rfl

theorem canName_dotted {ts : List Token} (h : ∀ t ∈ ts, t.canName = true) :
    (dotted ts).filter Token.canName = ts.map Token.bare := by
  fun_induction dotted ts with
  | case1 => rfl
  | case2 t =>
      have ht : t.bare.canName = true := h t (by simp)
      simp [ht]
  | case3 t ts _ ih =>
      have ht : t.bare.canName = true := h t (by simp)
      have hdot : Token.dot.canName = false := rfl
      simp [ht, hdot, ih fun u hu => h u (by simp [hu])]

section Names

variable {names : List Token}

theorem Names.tokensOf_joined (h : Names names) :
    tokensOf (Text.joined "." (names.map Token.text)) = dotted names := by
  have hread : Readable (dotted names) [] := by
    refine readable_dotted h.canName h.read fun t ht => ?_
    obtain ⟨r, hr⟩ := h.read t ht
    exact hr.calmer (.nil r)
  have hlex := lex_of_readable hread rfl
  rw [List.append_nil, sourceOf_dotted] at hlex
  simp only [tokensOf, hlex, map_bare_dotted]

theorem Names.canNames_joined (h : Names names) :
    (tokensOf (Text.joined "." (names.map Token.text))).filter Token.canName =
      names.map Token.bare := by
  rw [h.tokensOf_joined, canName_dotted h.canName]

theorem Names.partsOf_joined (h : Names names) :
    partsOf (Text.joined "." (names.map Token.text)) = names.map Token.text := by
  rw [partsOf, h.canNames_joined, List.map_map]
  rfl

theorem Names.isFreeName (h : Names names)
    (hfree : IsFreeTarget (Text.joined "." (names.map Token.text))) :
    ∀ t ∈ names, t.IsFreeName := by
  obtain ⟨others, hothers, hall, hsame⟩ := hfree
  have hbare := h.canNames_joined
  rw [hsame, hothers.canNames_joined] at hbare
  intro t ht
  have hmem : t.bare ∈ others.map Token.bare := hbare ▸ List.mem_map_of_mem ht
  obtain ⟨u, hu, heq⟩ := List.mem_map.1 hmem
  have hu : u.bare.IsFreeName := hall u hu
  rw [heq] at hu
  exact hu

end Names

theorem NamesBy.snoc {mark : Token.Kind} {texts : List Text} {items : List Item} {i j : Item}
    {text : Text} (h : NamesBy mark texts items) (hi : mark? mark i = some ())
    (hj : j.freeName? = some text) : NamesBy mark (texts ++ [text]) (items ++ [i, j]) := by
  obtain ⟨first, head, xs, rest, rfl, rfl, hfirst, hrest⟩ := h
  exact ⟨first, head, xs ++ [((), text)], rest ++ [i, j], rfl, by simp, hfirst,
    hrest.snoc hi ⟨j, rfl, hj⟩⟩

section Derive

variable {column target : Text} {w : Token} {tail : Text}

theorem namesBy_fieldTokens {names : List Token} (hne : names ≠ [])
    (hfree : ∀ t ∈ names, t.IsFreeName) (hw : w.IsFreeName) (g : Text) :
    NamesBy .dot (names.map Token.text ++ [w.text]) ((fieldTokens g names w).map Item.token) := by
  rw [fieldTokens, List.map_append]
  exact (namesBy_dotted hne hfree g).snoc rfl (hw.freeName? w.gap)

theorem IsFilter.derives {ts : List Token} (h : IsFilter column target ts)
    (hlex : lex column = .ok ⟨[w], tail⟩) (hw : w.IsFreeName) (htarget : IsFreeTarget target) :
    Derives (.term (filterTree w.text target)) (ts.map Item.token) := by
  obtain @⟨names, w', tail', hnames, hlex', -⟩ := h
  rw [hlex] at hlex'
  cases hlex'
  have hfield : ∀ g, Derives (.operand (.column (names.map Token.text ++ [w.text])))
      ((fieldTokens g names w).map Item.token) := fun g =>
    .column (namesBy_fieldTokens hnames.nonempty (hnames.isFreeName htarget) hw g)
  have hzero : Derives (.operand (.literal "0".toList)) [.token ⟨[' '], .number, ['0']⟩] :=
    .number (i := .token ⟨[' '], .number, ['0']⟩) rfl
  have hnull : Derives (.operand (.literal "NULL".toList)) [.token (Token.spaced "NULL")] :=
    .constant (i := .token (Token.spaced "NULL")) rfl (by decide)
  have heq : Compares .eq [.token ⟨tail ++ [' '], .operator, ['=']⟩] :=
    .inl ⟨_, rfl, rfl, rfl⟩
  have his : Compares .is [.token ⟨tail ++ [' '], .word, "IS".toList⟩] :=
    .inr ⟨(["IS"], .is), by decide, rfl, rfl, rfl⟩
  have hor : Connective.ofItem? (.token (Token.spaced "OR")) = some .or := rfl
  have hinner := Derives.connect (.single (.compare (hfield []) heq hzero)) hor
    (.compare (hfield [' ']) his hnull)
  have hopening : (Item.token ⟨[' '], .lparen, ['(']⟩).hasKind .lparen = true := rfl
  have hclosing : (Item.token ⟨[], .rparen, [')']⟩).hasKind .rparen = true := rfl
  have hgroup := Derives.group hopening hinner hclosing
  rw [filterTree, hnames.partsOf_joined]
  simpa [filterTokens, Connective.join] using hgroup

variable {targets : List Text} {ts : List Token}

theorem Conjoins.derives_behind (h : Conjoins column targets ts)
    (hlex : lex column = .ok ⟨[w], tail⟩) (hw : w.IsFreeName)
    (htargets : ∀ target ∈ targets, IsFreeTarget target) {c : Condition} {front : List Item}
    (hfront : Derives (.condition c) front) :
    Derives (.condition ((targets.map (filterTree w.text)).foldl .and c))
      (front ++ .token (Token.spaced "AND") :: ts.map Item.token) := by
  have hand : Connective.ofItem? (.token (Token.spaced "AND")) = some .and := rfl
  induction h generalizing c front with
  | one h => exact .connect hfront hand (h.derives hlex hw (htargets _ (by simp)))
  | @more target targets ts us h _ ih =>
      have hfirst := Derives.connect hfront hand (h.derives hlex hw (htargets target (by simp)))
      have hall := ih (fun u hu => htargets u (by simp [hu])) hfirst
      simpa [Connective.join] using hall

theorem Conjoins.derives (h : Conjoins column targets ts)
    (hlex : lex column = .ok ⟨[w], tail⟩) (hw : w.IsFreeName)
    (htargets : ∀ target ∈ targets, IsFreeTarget target) :
    ∃ tree, rebuiltTree w.text targets none = some tree ∧
      Derives (.condition tree) (ts.map Item.token) := by
  cases h with
  | one h => exact ⟨_, rfl, .single (h.derives hlex hw (htargets _ (by simp)))⟩
  | more h hmore =>
      have hfirst := Derives.single (h.derives hlex hw (htargets _ (by simp)))
      have hall := hmore.derives_behind hlex hw (fun u hu => htargets u (by simp [hu])) hfirst
      exact ⟨_, rfl, by simpa using hall⟩

theorem rebuiltTree_some {field : Text} {tree : Condition}
    (h : rebuiltTree field targets none = some tree) (own : Condition) :
    rebuiltTree field targets (some own) = some (.and tree (.group own)) := by
  cases targets with
  | nil => cases h
  | cons target targets =>
      obtain rfl : _ = tree := by simpa [rebuiltTree, conjunctionTree] using h
      simp [rebuiltTree, conjunctionTree]

end Derive

section Steady

def Condition.Steady (room : Nat) (c : Condition) : Prop :=
  (c.isPlain = true ∧ c.nesting ≤ room) ∧ c.isClear = true

variable {room : Nat} {c d : Condition}

theorem Condition.steady_and :
    (Condition.and c d).Steady room ↔ c.Steady room ∧ d.Steady room := by
  simp only [Steady, isPlain, nesting, isClear, Bool.and_eq_true, Nat.max_le]
  tauto

theorem Condition.Steady.group (h : c.Steady room) : (Condition.group c).Steady (room + 1) :=
  ⟨⟨h.1.1, Nat.succ_le_succ h.1.2⟩, h.2⟩

theorem steady_conjunctionTree {cs : List Condition} (hall : ∀ c ∈ cs, c.Steady room)
    {tree : Condition} (htree : conjunctionTree cs = some tree) : tree.Steady room := by
  cases cs with
  | nil => cases htree
  | cons c cs =>
      cases htree
      induction cs generalizing c with
      | nil => exact hall c (by simp)
      | cons d cs ih =>
          refine ih (.and c d) ?_
          simp only [List.forall_mem_cons] at hall ⊢
          exact ⟨Condition.steady_and.2 ⟨hall.1, hall.2.1⟩, hall.2.2⟩

theorem Names.not_constant {t : Token} {names : List Token} (h : Names (t :: names))
    (hbegins : beginsWithConstant (Text.joined "." ((t :: names).map Token.text)) = false) :
    constantWords.any (Text.sameWord t.text) = false := by
  obtain ⟨r, hread⟩ := h.read t (by simp)
  have hname := h.canName t (by simp)
  rw [beginsWithConstant, h.tokensOf_joined, dotted_cons] at hbegins
  cases hkind : t.kind with
  | word => simpa [Token.bare, hkind] using hbegins
  | quoted q => exact not_constant_of_mark ((hread.quoted_iff q).1 hkind)
  | _ => simp [Token.canName, hkind] at hname

theorem steady_filterTree {target : Text} (field : Text) (htarget : IsFreeTarget target)
    (hbegins : beginsWithConstant target = false) :
    (filterTree field target).Steady (room + 1) := by
  obtain ⟨names, hnames, -, rfl⟩ := htarget
  obtain ⟨t, names, rfl⟩ := List.exists_cons_of_ne_nil hnames.nonempty
  have hfirst := hnames.not_constant hbegins
  obtain ⟨second, more, hparts⟩ :
      ∃ second more, names.map Token.text ++ [field] = second :: more :=
    List.exists_cons_of_ne_nil (by simp)
  rw [filterTree, hnames.partsOf_joined, List.map_cons, List.cons_append, hparts]
  refine ⟨⟨?_, ?_⟩, ?_⟩
  · simp [Condition.isPlain, Operand.isPlain, Operand.isList, hfirst]
  · simp [Condition.nesting, Operand.nesting]
  · simp [Condition.isClear, Operand.isClear]

end Steady

end SoftDelete
