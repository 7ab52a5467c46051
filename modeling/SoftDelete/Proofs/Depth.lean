import SoftDelete.Proofs.Containment
import SoftDelete.Proofs.Isolation.Swap
import SoftDelete.Proofs.Select.Chunks

namespace SoftDelete

def Problem.tooDeep (q : Problem) : Bool :=
  q.failure.kind == "nesting_too_deep"

namespace Attempt

variable {α β : Type} {x y : Attempt α} {f g : α → Attempt β}

def Shallow (x : Attempt α) : Prop :=
  ∀ q ∈ x.notes.problems, q.tooDeep = false

theorem Shallow.of_bind (h : (x >>= f).Shallow) :
    x.Shallow ∧ ∀ a, x.result = .ok a → (f a).Shallow := by
  cases hx : x.result with
  | error e =>
      rw [bind_of_error hx] at h
      exact ⟨h, nofun⟩
  | ok a =>
      rw [bind_of_ok hx] at h
      refine ⟨fun q hq => h q (List.mem_append_left _ hq), fun b hb => ?_⟩
      cases hb
      exact fun q hq => h q (List.mem_append_right _ hq)

def Deepens (x y : Attempt α) : Prop :=
  x.Shallow → y = x

theorem mem_problems {x : Attempt Text} {q : Problem} (h : q ∈ x.notes.problems) :
    q ∈ x.problems := by
  unfold problems
  split
  · exact h
  · exact List.mem_append_left _ h

theorem Deepens.refl (x : Attempt α) : x.Deepens x :=
  fun _ => rfl

theorem Deepens.bind (h : x.Deepens y) (hnext : ∀ a, (f a).Deepens (g a)) :
    (x >>= f).Deepens (y >>= g) := by
  intro hshallow
  obtain ⟨hx, hf⟩ := hshallow.of_bind
  rw [h hx]
  cases hresult : x.result with
  | error e => rw [bind_of_error hresult, bind_of_error hresult]
  | ok a => rw [bind_of_ok hresult, bind_of_ok hresult, hnext a (hf a hresult)]

end Attempt

section Room

variable (catalog : Catalog) (options : Options)

def Options.withDepth (options : Options) (limit : Nat) : Options :=
  { options with maxDepth := limit }

theorem bodyEdits_withDepth (limit : Nat) (l : Level) (start : Nat) (bs : List (List Item)) :
    bodyEdits catalog (options.withDepth limit) l start bs = bodyEdits catalog options l start bs := by
  induction bs generalizing start with
  | nil => rfl
  | cons body bs ih =>
      rw [bodyEdits, bodyEdits, ih]
      rfl

theorem closeLevel_withDepth (limit depth start : Nat) (items : List Item) (unclosed : List Token)
    (tail : Text) :
    closeLevel catalog (options.withDepth limit) depth start items unclosed tail =
      closeLevel catalog options depth start items unclosed tail := by
  cases unclosed with
  | cons t ts => rfl
  | nil => rw [closeLevel, closeLevel, Level.filterEdit, Level.filterEdit, bodyEdits_withDepth]

theorem itemsOf_deepens {nested nested' : Nat → Text → Attempt Text}
    (h : ∀ start s, (nested start s).Deepens (nested' start s)) (offset : Nat) (segs : List Segment) :
    (itemsOf nested offset segs).Deepens (itemsOf nested' offset segs) := by
  induction segs generalizing offset with
  | nil => exact .refl _
  | cons s segs ih =>
      cases s with
      | token t => exact (ih _).bind fun _ => .refl _
      | subselect opening inner closing =>
          exact (h _ _).bind fun _ => (ih _).bind fun _ => .refl _

theorem filterLevel_deepens_step {room room' limit depth : Nat}
    (h : ∀ start s, (nestedFilter catalog options room depth start s).Deepens
      (nestedFilter catalog (options.withDepth limit) room' depth start s)) (offset : Nat) (sql : Text) :
    (filterLevel catalog options room depth offset sql).Deepens
      (filterLevel catalog (options.withDepth limit) room' depth offset sql) := by
  rw [filterLevel_eq, filterLevel_eq]
  refine (Attempt.Deepens.refl _).bind fun l => (itemsOf_deepens h _ _).bind fun items => ?_
  rw [closeLevel_withDepth]
  exact .refl _

theorem filterLevel_deepens {room room' : Nat} (hroom : room ≤ room') (limit depth offset : Nat)
    (sql : Text) :
    (filterLevel catalog options room depth offset sql).Deepens
      (filterLevel catalog (options.withDepth limit) room' depth offset sql) := by
  induction room generalizing room' depth offset sql with
  | zero =>
      -- Without room every body is noted, so a shallow run has none to compare.
      refine filterLevel_deepens_step catalog options (fun start s hshallow => ?_) offset sql
      have hnoted := hshallow ⟨.nestedTooDeep options.maxDepth, depth + 1⟩ (by
        simp [nestedFilter, Attempt.note, Attempt.bind_of_ok, Notes.append_def])
      cases hnoted
  | succ room ih =>
      obtain ⟨room', rfl⟩ : ∃ more, room' = more + 1 := ⟨room' - 1, by omega⟩
      refine filterLevel_deepens_step catalog options (fun start s => ?_) offset sql
      exact ih (by omega) (depth + 1) start s

end Room

section Limit

def bodiesAt : Nat → Text → List Text
  | 0, sql => [sql]
  | n + 1, sql => (isolated sql).flatMap fun part => bodiesAt n part.2

def parenthesized (body : Text) : Text :=
  enclose [] body []

variable {nested : Nat → Text → Attempt Text} {bodies : Text → List Text} {q : Problem}
  {offset : Nat} {segs : List Segment} {items : List Item}

theorem itemsOf_within
    (hnested : ∀ start s out, (nested start s).result = .ok out →
      InOrder ((bodies s).map parenthesized) (parenthesized out))
    (h : (itemsOf nested offset segs).result = .ok items) (front : Text) :
    Within (((partsFrom front segs).flatMap fun part => bodies part.2).map parenthesized)
      (items.flatMap Item.held) := by
  induction segs generalizing offset items front with
  | nil => exact .nil
  | cons s segs ih =>
      cases s with
      | token t =>
          obtain ⟨later, hlater, rfl, -⟩ := itemsOf_token h
          exact ih hlater _
      | subselect opening inner closing =>
          obtain ⟨start, stop, body, later, hbody, hlater, rfl, -⟩ := itemsOf_subselect h
          rw [partsFrom, List.flatMap_cons, List.map_append, List.flatMap_cons]
          exact (Within.one (hnested _ _ _ hbody)).append (ih hlater _)

theorem itemsOf_tooDeep
    (hnested : ∀ start s out, (nested start s).result = .ok out →
      (nested start s).notes.problems.filter Problem.tooDeep = List.replicate (bodies s).length q)
    (h : (itemsOf nested offset segs).result = .ok items) (front : Text) :
    (itemsOf nested offset segs).notes.problems.filter Problem.tooDeep =
      List.replicate ((partsFrom front segs).flatMap fun part => bodies part.2).length q := by
  induction segs generalizing offset items front with
  | nil => rfl
  | cons s segs ih =>
      cases s with
      | token t =>
          obtain ⟨later, hlater, rfl, hnotes⟩ := itemsOf_token h
          rw [hnotes]
          exact ih hlater _
      | subselect opening inner closing =>
          obtain ⟨start, stop, body, later, hbody, hlater, rfl, hnotes⟩ := itemsOf_subselect h
          rw [hnotes, Notes.append_def, List.filter_append, hnested _ _ _ hbody, ih hlater _, partsFrom,
            List.flatMap_cons, List.length_append, List.replicate_append_replicate]

variable {catalog : Catalog} {options : Options}

theorem LevelEnds.inOrder {tail out : Text} {unclosed : List Token} {notes : Notes}
    (h : LevelEnds catalog options items tail unclosed out notes)
    (hsolid : ∀ i ∈ items, i.text ≠ []) : InOrder (items.flatMap Item.held) out := by
  have hkept : ∀ tail, InOrder (items.flatMap Item.held) (Level.outputWith ⟨items, tail⟩ []) :=
    fun tail => Cuts.inOrder (l := ⟨items, tail⟩) (.kept 0 _) hsolid
  cases h with
  | unclosed => exact hkept _
  | untouched => exact hkept tail
  | filtered _ hedit => exact (Level.filterEdit_cuts hedit).inOrder hsolid

theorem closeLevel_tooDeep (catalog : Catalog) (options : Options) (depth start : Nat)
    (items : List Item) (unclosed : List Token) (tail : Text) :
    (closeLevel catalog options depth start items unclosed tail).notes.problems.filter
      Problem.tooDeep = [] := by
  unfold closeLevel
  cases unclosed with
  | cons t ts => rfl
  | nil =>
      dsimp only
      split
      · cases hedit : (Level.mk items tail).filterEdit catalog options with
        | error e => rfl
        | ok edit => rfl
      · rfl

theorem filterLevel_limit_step {room depth : Nat} {sql out : Text}
    (hnested : ∀ start s out, (nestedFilter catalog options room depth start s).result = .ok out →
      InOrder ((bodies s).map parenthesized) (parenthesized out) ∧
        (nestedFilter catalog options room depth start s).notes.problems.filter Problem.tooDeep =
          List.replicate (bodies s).length q)
    (h : (filterLevel catalog options room depth offset sql).result = .ok out) :
    InOrder (((isolated sql).flatMap fun part => bodies part.2).map parenthesized) out ∧
      (filterLevel catalog options room depth offset sql).notes.problems.filter Problem.tooDeep =
        List.replicate ((isolated sql).flatMap fun part => bodies part.2).length q := by
  rw [SoftDelete.filterLevel_eq] at h ⊢
  obtain ⟨l, hl, h, hnotes⟩ := Attempt.exists_of_bind h
  rw [hnotes]
  obtain ⟨items, hitems, h, hnotes⟩ := Attempt.exists_of_bind h
  have hlex := lex_of_ofText hl
  have hsolid : ∀ i ∈ items, i.text ≠ [] := itemsOf_solid hitems fun t ht => by
    obtain ⟨r, hr⟩ := (CutInto.of_lex hlex).stands ht
    exact hr.lexeme.text_ne_nil
  have hparts : isolated sql = partsFrom [] (segments l.tokens).1 := by rw [isolated, hlex]
  rw [hnotes, hparts]
  constructor
  · have hwithin := itemsOf_within (fun start s out hbody => (hnested start s out hbody).1) hitems []
    exact hwithin out ((closeLevel_ends h).inOrder hsolid)
  · have hfilter := itemsOf_tooDeep (fun start s out hbody => (hnested start s out hbody).2) hitems []
    simp [Attempt.ofExcept, Notes.append_def, Notes.empty, hfilter, closeLevel_tooDeep]

theorem filterLevel_limit {room depth : Nat} {sql out : Text}
    (h : (filterLevel catalog options room depth offset sql).result = .ok out) :
    InOrder ((bodiesAt (room + 1) sql).map parenthesized) out ∧
      (filterLevel catalog options room depth offset sql).notes.problems.filter Problem.tooDeep =
        List.replicate (bodiesAt (room + 1) sql).length
          ⟨.nestedTooDeep options.maxDepth, depth + room + 1⟩ := by
  induction room generalizing depth offset sql out with
  | zero =>
      refine filterLevel_limit_step (fun start s out hbody => ?_) h
      cases hbody
      exact ⟨.one _, rfl⟩
  | succ room ih =>
      refine filterLevel_limit_step (fun start s out hbody => ?_) h
      obtain ⟨hout, hnoted⟩ := ih hbody
      refine ⟨(hout.before [')']).behind ['('], ?_⟩
      rw [show depth + (room + 1) + 1 = depth + 1 + room + 1 by omega]
      exact hnoted

end Limit

namespace Policy

def withDepth (p : Policy) (limit : Nat) : Policy :=
  ⟨p.catalog, p.options.withDepth limit⟩

theorem attempt_deepens (parse : Text → Except String Unit) (p : Policy) {limit : Nat}
    (h : p.options.maxDepth ≤ limit) (sql : Text) :
    (p.attempt parse sql).Deepens ((p.withDepth limit).attempt parse sql) :=
  (filterLevel_deepens p.catalog p.options h limit 0 0 sql).bind fun _ => .refl _

theorem filterWith_deepens (parse : Text → Except String Unit) (p : Policy) {limit : Nat}
    (h : p.options.maxDepth ≤ limit) (sql : Text)
    (hshallow : ∀ q ∈ (p.filterWith parse sql).problems, q.tooDeep = false) :
    (p.withDepth limit).filterWith parse sql = p.filterWith parse sql := by
  have hcolumn : (p.withDepth limit).options.column = p.options.column := rfl
  unfold filterWith at hshallow ⊢
  rw [hcolumn]
  split
  · rfl
  · rename_i hopens
    rw [if_neg hopens] at hshallow
    split
    · rfl
    · rename_i hcompares
      rw [if_neg hcompares, outcomeOf_problems] at hshallow
      rw [p.attempt_deepens parse h sql fun q hq => hshallow q (Attempt.mem_problems hq)]

theorem filterWith_depthLimit (parse : Text → Except String Unit) (p : Policy) (sql : Text) :
    (∀ limit, p.options.maxDepth ≤ limit →
        (∀ q ∈ (p.filterWith parse sql).problems, q.tooDeep = false) →
          (p.withDepth limit).filterWith parse sql = p.filterWith parse sql) ∧
      ∀ out, (p.filterWhole sql).result = .ok out →
        InOrder ((bodiesAt (p.options.maxDepth + 1) sql).map parenthesized) out ∧
          (p.filterWhole sql).notes.problems.filter Problem.tooDeep =
            List.replicate (bodiesAt (p.options.maxDepth + 1) sql).length
              ⟨.nestedTooDeep p.options.maxDepth, p.options.maxDepth + 1⟩ := by
  refine ⟨fun limit h => p.filterWith_deepens parse h sql, fun out h => ?_⟩
  have hlimit := filterLevel_limit h
  rwa [Nat.zero_add] at hlimit

theorem filterWith_depthLimit_one :
    let parse : Text → Except String Unit := fun _ => .ok ()
    let p : Policy := ⟨⟨["hist_a".toList]⟩, ⟨"deleted".toList, 1, 8, true⟩⟩
    let flat := "SELECT * FROM (SELECT x FROM hist_a) q".toList
    let nested := "SELECT 1 FROM (SELECT x FROM hist_a a, (SELECT y) b, (SELECT z) c) q".toList
    let out := ("SELECT 1 FROM (SELECT x FROM hist_a a INNER JOIN (SELECT y) b " ++
      "ON (a.deleted = 0 OR a.deleted IS NULL), (SELECT z) c) q").toList
    ((p.filterWith parse flat).outcome = .filtered ∧
      (p.withDepth 5).filterWith parse flat = p.filterWith parse flat) ∧
      (p.filterWhole nested).result = .ok out ∧
      InOrder ["(SELECT y)".toList, "(SELECT z)".toList] out ∧
      (p.filterWhole nested).notes.problems.filter Problem.tooDeep =
        [⟨.nestedTooDeep 1, 2⟩, ⟨.nestedTooDeep 1, 2⟩] := by
  intro parse p flat nested out
  have hshallow : ∀ q ∈ (p.filterWith parse flat).problems, q.tooDeep = false := by decide +kernel
  have hout : (p.filterWhole nested).result = .ok out := by decide +kernel
  have hbodies : bodiesAt 2 nested = ["SELECT y".toList, "SELECT z".toList] := by
    decide +kernel
  have hflat := (p.filterWith_depthLimit parse flat).1 5 (by decide) hshallow
  obtain ⟨hinside, hnoted⟩ := (p.filterWith_depthLimit parse nested).2 out hout
  change InOrder ((bodiesAt 2 nested).map parenthesized) out at hinside
  change _ = List.replicate (bodiesAt 2 nested).length _ at hnoted
  rw [hbodies] at hinside hnoted
  exact ⟨⟨by decide +kernel, hflat⟩, hout, hinside, hnoted⟩

end Policy

end SoftDelete
