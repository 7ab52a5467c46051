import Mathlib.Data.List.Perm.Basic
import SoftDelete.Proofs.Join.FilterTokens

namespace SoftDelete

namespace Token

def word (text : String) : Token :=
  ⟨[], .word, text.toList⟩

def opening : Token :=
  ⟨[], .lparen, ['(']⟩

def closing : Token :=
  ⟨[], .rparen, [')']⟩

def comma : Token :=
  ⟨[], .comma, [',']⟩

end Token

inductive Mark where
  | own (t : Token)
  | comma
  | on (t : Token)
  | keyword (word : String)
  | opening
  | closing
  | filter (target : Text)

namespace Mark

def given : Mark → List Token
  | own t => [t.bare]
  | comma => [Token.comma]
  | on t => [t.bare]
  | keyword _ | opening | closing | filter _ => []

def added (column : Text) : Mark → List Token
  | own _ | comma | on _ => []
  | keyword word => [Token.word word]
  | opening => [Token.opening]
  | closing => [Token.closing]
  | filter target => tokensOf (filterCondition column target)

def written (column : Text) : Mark → List Token
  | own t => [t.bare]
  | comma => [Token.word "INNER", Token.word "JOIN"]
  | on _ => [Token.word "ON"]
  | m => m.added column

@[simp] def target? : Mark → Option Text
  | filter target => some target
  | _ => none

end Mark

def targetsOf (marks : List Mark) : List Text :=
  marks.filterMap Mark.target?

def conjunction : List Text → List Mark
  | [] => []
  | [target] => [.filter target]
  | target :: targets => .filter target :: .keyword "AND" :: conjunction targets

def IsHead (marks : List Mark) : Prop :=
  marks = [.comma] ∨ ∃ ts : List Token, marks = ts.map .own

inductive Attached : List Mark → Prop where
  | nil : Attached []
  | own (t : Token) : Attached [.own t]
  | append {xs ys : List Mark} (hx : Attached xs) (hy : Attached ys) : Attached (xs ++ ys)
  | join {head table : List Mark} {targets : List Text} (hhead : IsHead head)
      (htable : Attached table) (hne : targets ≠ []) :
      Attached (head ++ (table ++ .keyword "ON" :: conjunction targets))
  | joinOn {head table own : List Mark} {targets : List Text} {on : Token} (hhead : IsHead head)
      (htable : Attached table) (hne : targets ≠ []) (hon : on.spells "ON")
      (hown : Attached own) :
      Attached (head ++ (table ++ .on on :: (conjunction targets ++
        (.keyword "AND" :: .opening :: (own ++ [.closing])))))
  | newWhere (target : Text) : Attached [.keyword "WHERE", .filter target]
  | emptyWhere {t : Token} (ht : t.spells "WHERE") (target : Text) :
      Attached [.own t, .filter target]
  | ownWhere {t : Token} {own : List Mark} (ht : t.spells "WHERE") (hown : Attached own)
      (target : Text) :
      Attached (.own t :: .opening :: (own ++ [.closing, .keyword "AND", .filter target]))

theorem Attached.ofTokens (ts : List Token) : Attached (ts.map .own) := by
  induction ts with
  | nil => exact .nil
  | cons t ts ih => exact .append (.own t) ih

theorem Attached.spells_on {marks : List Mark} {t : Token} (h : Attached marks)
    (ht : .on t ∈ marks) : t.spells "ON" := by
  have hconjunction : ∀ targets, Mark.on t ∉ conjunction targets := fun targets => by
    fun_induction conjunction targets with
    | case1 => simp
    | case2 => simp
    | case3 target targets hne ih => simpa using ih
  have hhead : ∀ {head}, IsHead head → Mark.on t ∉ head := by
    rintro head (rfl | ⟨ts, rfl⟩) <;> simp
  induction h with
  | nil | own | newWhere | emptyWhere => simp at ht
  | append hx hy ihx ihy => exact (List.mem_append.1 ht).elim ihx ihy
  | @join head table targets h _ _ ih =>
      exact ih (by simpa [hhead h, hconjunction] using ht)
  | @joinOn head table own targets on h _ _ hon _ iht iho =>
      have ht : .on t ∈ table ∨ t = on ∨ .on t ∈ own := by
        simpa [hhead h, hconjunction] using ht
      rcases ht with ht | rfl | ht
      · exact iht ht
      · exact hon
      · exact iho ht
  | ownWhere _ _ target ih => exact ih (by simpa using ht)

theorem Attached.mem_written {marks : List Mark} {t : Token} (h : Attached marks)
    (ht : t ∈ marks.flatMap Mark.given) (hcomma : t ≠ Token.comma) (hon : t.spells "ON" = false)
    (column : Text) : t ∈ marks.flatMap (Mark.written column) := by
  obtain ⟨m, hm, ht⟩ := List.mem_flatMap.1 ht
  refine List.mem_flatMap.2 ⟨m, hm, ?_⟩
  cases m with
  | own u => exact ht
  | comma => exact absurd (List.mem_singleton.1 ht) hcomma
  | on u =>
      obtain rfl := List.mem_singleton.1 ht
      have hspells := h.spells_on hm
      change u.spells "ON" = false at hon
      rw [hon] at hspells
      cases hspells
  | keyword | opening | closing | filter => cases ht

def depthThrough : Nat → List Token → Option Nat
  | d, [] => some d
  | d, t :: ts =>
      match t.kind, d with
      | .lparen, d => depthThrough (d + 1) ts
      | .rparen, 0 => none
      | .rparen, d + 1 => depthThrough d ts
      | _, d => depthThrough d ts

def Balanced (ts : List Token) : Prop :=
  ∀ d, depthThrough d ts = some d

namespace Balanced

variable {ts us : List Token}

theorem nil : Balanced [] := fun _ => rfl

theorem depthThrough_append (d : Nat) (ts us : List Token) :
    depthThrough d (ts ++ us) = (depthThrough d ts).bind fun e => depthThrough e us := by
  induction ts generalizing d with
  | nil => rfl
  | cons t ts ih =>
      simp only [List.cons_append, depthThrough]
      split
      · exact ih _
      · rfl
      · exact ih _
      · exact ih _

theorem append (ht : Balanced ts) (hu : Balanced us) : Balanced (ts ++ us) := fun d => by
  rw [depthThrough_append, ht d]
  exact hu d

theorem enclosed (h : Balanced ts) : Balanced (Token.opening :: (ts ++ [Token.closing])) := by
  intro d
  change depthThrough (d + 1) (ts ++ [Token.closing]) = some d
  rw [depthThrough_append, h (d + 1)]
  rfl

theorem of_flat (h : ∀ t ∈ ts, t.kind ≠ .lparen ∧ t.kind ≠ .rparen) : Balanced ts := by
  induction ts with
  | nil => exact nil
  | cons t ts ih =>
      intro d
      have ht := h t (by simp)
      have hlater := ih (fun u hu => h u (by simp [hu])) d
      simp only [depthThrough]
      split
      · exact absurd ‹_› ht.1
      · exact absurd ‹_› ht.2
      · exact absurd ‹_› ht.2
      · exact hlater

end Balanced

theorem flat_dotted {names : List Token} (h : ∀ t ∈ names, t.canName = true) :
    ∀ t ∈ dotted names, t.kind ≠ .lparen ∧ t.kind ≠ .rparen := by
  have hname : ∀ {t : Token}, t.canName = true → t.kind ≠ .lparen ∧ t.kind ≠ .rparen := by
    intro t ht
    constructor <;> intro hkind <;> simp [Token.canName, hkind] at ht
  fun_induction dotted names with
  | case1 => simp
  | case2 t =>
      have ht := hname (h t (by simp))
      simpa [Token.bare] using ht
  | case3 t ts hne ih =>
      have ht := hname (h t (by simp))
      have hlater := ih fun u hu => h u (by simp [hu])
      simpa [Token.bare, Token.dot] using ⟨ht, hlater⟩

theorem balanced_filterCondition {column target : Text} (hcolumn : IsFlagWord column)
    (htarget : IsTarget target) : Balanced (tokensOf (filterCondition column target)) := by
  obtain ⟨w, tail, hlex, hw, htail⟩ := hcolumn
  obtain ⟨names, hnames, rfl⟩ := htarget
  have hstands : w.StandsBefore tail := by simpa [Readable] using (readable_of_lex hlex).1
  obtain rfl : w.source ++ tail = column := by simpa [Lexed.source] using source_of_lex hlex
  rw [tokensOf_filterCondition hnames hstands htail]
  have hfield : ∀ g, Balanced ((fieldTokens g names w).map Token.bare) := by
    intro g
    rw [fieldTokens, List.map_append, map_bare_regap]
    apply Balanced.of_flat
    intro t ht
    rcases List.mem_append.1 ht with ht | ht
    · obtain ⟨u, hu, rfl⟩ := List.mem_map.1 ht
      exact flat_dotted hnames.canName u hu
    · simp only [List.map_cons, List.map_nil, List.mem_cons, List.not_mem_nil, or_false] at ht
      rcases ht with rfl | rfl
      · simp [Token.bare, Token.dot]
      · simp [Token.bare, hw]
  have hmiddle : Balanced ([⟨[], .operator, ['=']⟩, ⟨[], .number, ['0']⟩, Token.word "OR"]) :=
    .of_flat (by simp [Token.word])
  have hend : Balanced [Token.word "IS", Token.word "NULL"] := .of_flat (by simp [Token.word])
  have h := ((hfield []).append (hmiddle.append ((hfield [' ']).append hend))).enclosed
  simpa [filterTokens, Token.bare, Token.opening, Token.closing, Token.word, Token.spaced] using h

section Marks

variable {column : Text}

@[simp] theorem targetsOf_nil : targetsOf [] = [] := rfl

@[simp] theorem targetsOf_append (xs ys : List Mark) :
    targetsOf (xs ++ ys) = targetsOf xs ++ targetsOf ys := by
  simp [targetsOf]

@[simp] theorem targetsOf_cons (m : Mark) (ms : List Mark) :
    targetsOf (m :: ms) = m.target?.toList ++ targetsOf ms := by
  cases m <;> rfl

@[simp] theorem targetsOf_own (ts : List Token) : targetsOf (ts.map .own) = [] := by
  simp [targetsOf, List.filterMap_map, Function.comp_def, Mark.target?]

@[simp] theorem targetsOf_conjunction (targets : List Text) :
    targetsOf (conjunction targets) = targets := by
  fun_induction conjunction targets with
  | case1 => rfl
  | case2 target => rfl
  | case3 target targets hne ih =>
      change target :: targetsOf (conjunction targets) = _
      rw [ih]

theorem mem_targetsOf {marks : List Mark} {target : Text} (h : target ∈ targetsOf marks) :
    .filter target ∈ marks := by
  obtain ⟨m, hm, htarget⟩ := List.mem_filterMap.1 h
  cases m with
  | filter u =>
      obtain rfl : u = target := Option.some.inj htarget
      exact hm
  | own | comma | on | keyword | opening | closing => cases htarget

theorem given_conjunction (targets : List Text) :
    (conjunction targets).flatMap Mark.given = [] := by
  fun_induction conjunction targets with
  | case1 => rfl
  | case2 target => rfl
  | case3 target targets hne ih => simpa [Mark.given] using ih

theorem balanced_conjunction {targets : List Text}
    (h : ∀ target ∈ targets, Balanced (tokensOf (filterCondition column target))) :
    Balanced ((conjunction targets).flatMap (Mark.added column)) := by
  have hand : Balanced [Token.word "AND"] := .of_flat (by simp [Token.word])
  fun_induction conjunction targets with
  | case1 => exact .nil
  | case2 target => simpa [Mark.added] using h target (by simp)
  | case3 target targets hne ih =>
      have hlater := ih fun u hu => h u (by simp [hu])
      simpa [Mark.added] using (h target (by simp)).append (hand.append hlater)

theorem IsHead.added {marks : List Mark} (h : IsHead marks) :
    marks.flatMap (Mark.added column) = [] := by
  rcases h with rfl | ⟨ts, rfl⟩
  · rfl
  · simp [List.flatMap_map, Mark.added]

theorem IsHead.targets {marks : List Mark} (h : IsHead marks) : targetsOf marks = [] := by
  rcases h with rfl | ⟨ts, rfl⟩
  · rfl
  · exact targetsOf_own ts

theorem Attached.balanced {marks : List Mark} (h : Attached marks)
    (hfilter : ∀ target ∈ targetsOf marks,
      Balanced (tokensOf (filterCondition column target))) :
    Balanced (marks.flatMap (Mark.added column)) := by
  have hword : ∀ word, Balanced [Token.word word] := fun word => .of_flat (by simp [Token.word])
  induction h with
  | nil => exact .nil
  | own t => exact .nil
  | append hx hy ihx ihy =>
      rw [List.flatMap_append]
      refine (ihx fun t ht => hfilter t ?_).append (ihy fun t ht => hfilter t ?_)
      · simp [ht]
      · simp [ht]
  | @join head table targets hhead htable hne ih =>
      have htables := ih fun t ht => hfilter t (by simp [ht])
      have hfilters := balanced_conjunction fun t (ht : t ∈ targets) => hfilter t (by simp [ht])
      simpa [Mark.added, hhead.added] using htables.append ((hword "ON").append hfilters)
  | @joinOn head table own targets on hhead htable hne hon hown iht iho =>
      have htables := iht fun t ht => hfilter t (by simp [ht])
      have hfilters := balanced_conjunction fun t (ht : t ∈ targets) => hfilter t (by simp [ht])
      have howns := (iho fun t ht => hfilter t (by simp [ht])).enclosed
      simpa [Mark.added, hhead.added] using
        htables.append (hfilters.append ((hword "AND").append howns))
  | newWhere target => simpa [Mark.added] using (hword "WHERE").append (hfilter target (by simp))
  | emptyWhere ht target => simpa [Mark.added] using hfilter target (by simp)
  | ownWhere ht hown target ih =>
      have howns := (ih fun t ht => hfilter t (by simp [ht])).enclosed
      have hfilters := (hword "AND").append (hfilter target (by simp))
      simpa [Mark.added] using howns.append hfilters

structure Made (column : Text) (given written : List Token) (marks : List Mark) : Prop where
  givens : given.map Token.bare = marks.flatMap Mark.given
  writtens : written.map Token.bare = marks.flatMap (Mark.written column)
  attached : Attached marks
  named : ∀ target ∈ targetsOf marks, IsTarget target
  same : targetsOf marks = [] → written = given

namespace Made

variable {given written given' written' : List Token} {marks marks' : List Mark}

theorem own (ts : List Token) : Made column ts ts (ts.map .own) where
  givens := by induction ts <;> simp_all [Mark.given]
  writtens := by induction ts <;> simp_all [Mark.written]
  attached := .ofTokens ts
  named := by simp
  same _ := rfl

theorem append (h : Made column given written marks) (h' : Made column given' written' marks') :
    Made column (given ++ given') (written ++ written') (marks ++ marks') where
  givens := by simp [h.givens, h'.givens]
  writtens := by simp [h.writtens, h'.writtens]
  attached := .append h.attached h'.attached
  named target htarget := by
    rcases List.mem_append.1 (targetsOf_append marks marks' ▸ htarget) with htarget | htarget
    · exact h.named target htarget
    · exact h'.named target htarget
  same hnone := by
    rw [targetsOf_append, List.append_eq_nil_iff] at hnone
    rw [h.same hnone.1, h'.same hnone.2]

theorem balanced (h : Made column given written marks) (hcolumn : IsFlagWord column) :
    Balanced (marks.flatMap (Mark.added column)) :=
  h.attached.balanced fun target htarget =>
    balanced_filterCondition hcolumn (h.named target htarget)

end Made

end Marks

end SoftDelete
