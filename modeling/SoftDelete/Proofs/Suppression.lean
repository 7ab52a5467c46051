import Mathlib.Logic.Relation
import SoftDelete.Proofs.Guard
import SoftDelete.Proofs.Isolation.Subselect
import SoftDelete.Proofs.Select.Visit

namespace SoftDelete

section Tokens

variable {column : Text} {segs : List Segment} {opening closing : Token} {inner : List Token}

theorem comparedIn_of_subselect (hmem : .subselect opening inner closing ∈ segs)
    (h : comparedIn column inner = true) : comparedIn column (segs.flatMap Segment.tokens) = true := by
  obtain ⟨before, after, rfl⟩ := List.append_of_mem hmem
  rw [List.flatMap_append, List.flatMap_cons, Segment.tokens]
  refine comparedIn_append_right _ (comparedIn_append_left ?_ _)
  rw [← List.singleton_append]
  exact comparedIn_append_right [opening] (comparedIn_append_left h [closing])

end Tokens

def HandsDown (sql body : Text) : Prop :=
  ∃ front, (front, body) ∈ isolated sql

def Encloses : Text → Text → Prop :=
  Relation.TransGen HandsDown

section Texts

variable {sql body column : Text} {l : Lexed} {opening closing : Token} {inner : List Token}

theorem HandsDown.exists_subselect (h : HandsDown sql body) : ∃ l opening inner closing,
    lex sql = .ok l ∧ .subselect opening inner closing ∈ (segments l.tokens).1 ∧
      body = sourceOf inner ++ closing.gap := by
  obtain ⟨front, h⟩ := h
  unfold isolated at h
  split at h
  · rename_i l hlex
    obtain ⟨before, opening, inner, closing, after, hsegs, -, hbody⟩ := mem_partsFrom h
    exact ⟨l, opening, inner, closing, hlex, by simp [hsegs], hbody⟩
  · cases h

theorem partsFrom_of_subselect {segs : List Segment} (front : Text)
    (hmem : .subselect opening inner closing ∈ segs) :
    ∃ text, (text, sourceOf inner ++ closing.gap) ∈ partsFrom front segs := by
  induction segs generalizing front with
  | nil => cases hmem
  | cons s segs ih =>
      rcases List.mem_cons.1 hmem with rfl | hlater
      · exact ⟨_, List.mem_cons_self ..⟩
      · cases s with
        | token t => exact ih _ hlater
        | subselect opening' inner' closing' =>
            obtain ⟨text, htext⟩ := ih _ hlater
            exact ⟨text, List.mem_cons_of_mem _ htext⟩

theorem HandsDown.of_subselect (hlex : lex sql = .ok l)
    (hmem : .subselect opening inner closing ∈ (segments l.tokens).1) :
    HandsDown sql (sourceOf inner ++ closing.gap) := by
  obtain ⟨text, htext⟩ := partsFrom_of_subselect [] hmem
  refine ⟨text, ?_⟩
  unfold isolated
  rw [hlex]
  exact htext

theorem HandsDown.compares (h : HandsDown sql body) (hbody : comparesFlag body column = true) :
    comparesFlag sql column = true := by
  obtain ⟨l, opening, inner, closing, hlex, hmem, rfl⟩ := h.exists_subselect
  obtain ⟨front, dashes, rfl, -, hinner⟩ := (CutInto.of_lex hlex).lex_body hmem
  rw [comparesFlag_of_lex hinner] at hbody
  rw [comparesFlag_of_lex hlex, ← segments_append l.tokens]
  exact comparedIn_append_left (comparedIn_of_subselect hmem (comparedIn_append_left hbody dashes)) _

theorem Encloses.compares (h : Encloses sql body) (hbody : comparesFlag body column = true) :
    comparesFlag sql column = true := by
  induction h with
  | single h => exact h.compares hbody
  | tail _ h ih => exact ih (h.compares hbody)

end Texts

theorem Visits.eq_or_encloses {catalog : Catalog} {options : Options} {v w : Visit} {before : Notes}
    (h : Visits catalog options v before w) : w.sql = v.sql ∨ Encloses v.sql w.sql := by
  induction h with
  | here v => exact .inl rfl
  | @inside v w room l front later opening closing inner items notes hroom hlex hsegs hfront h ih =>
      have hmem : .subselect opening inner closing ∈ (segments l.tokens).1 := by simp [hsegs]
      have hdown : HandsDown v.sql (v.inside room front opening inner closing).sql :=
        .of_subselect hlex hmem
      rcases ih with heq | hdeeper
      · exact .inr (.single (heq ▸ hdown))
      · exact .inr (.head hdown hdeeper)

namespace Policy

structure Runs (p : Policy) (sql : Text) (v : Visit) : Prop where
  opens : opensWithSelect sql = true
  uncompared : comparesFlag sql p.options.column = false
  visits : ∃ before, Visits p.catalog p.options (p.whole sql) before v

theorem Runs.level_uncompared {p : Policy} {sql : Text} {v : Visit} (h : p.Runs sql v) :
    comparesFlag v.sql p.options.column = false := by
  obtain ⟨before, hvisits⟩ := h.visits
  rcases hvisits.eq_or_encloses with heq | hencloses
  · rw [heq]
    exact h.uncompared
  · rw [Bool.eq_false_iff]
    intro hcompares
    exact Bool.false_ne_true (h.uncompared.symm.trans (hencloses.compares hcompares))

theorem filterWith_suppressed (parse : Text → Except String Unit) (p : Policy) (sql : Text) :
    (∀ body, Encloses sql body → comparesFlag body p.options.column = true →
      comparesFlag sql p.options.column = true ∧
        p.filterWith parse sql =
          .untouched sql (if opensWithSelect sql then .explicitCondition else .notSelect) ∧
        ∀ v, ¬ p.Runs sql v) ∧
    ∀ v, p.Runs sql v → comparesFlag v.sql p.options.column = false := by
  refine ⟨fun body hbody hcompares => ?_, fun v hv => hv.level_uncompared⟩
  have hwhole : comparesFlag sql p.options.column = true := hbody.compares hcompares
  refine ⟨hwhole, ?_, fun v hv => Bool.false_ne_true (hv.uncompared.symm.trans hwhole)⟩
  cases hopens : opensWithSelect sql <;> simp [filterWith, hopens, hwhole]

theorem filterWith_suppressed_deep :
    let p : Policy := ⟨⟨["hist_a".toList]⟩, ⟨"deleted".toList, 1, 8, false⟩⟩
    let inner := "SELECT y FROM c WHERE c.deleted = 1".toList
    let sql := "SELECT * FROM hist_a, (SELECT x FROM (SELECT y FROM c WHERE c.deleted = 1) q) b".toList
    (Encloses sql inner ∧ comparesFlag inner p.options.column = true) ∧
      comparesFlag sql p.options.column = true ∧
      p.filterWith (fun _ => .ok ()) sql = .untouched sql .explicitCondition ∧
      ∀ v, ¬ p.Runs sql v := by
  intro p inner sql
  have hmiddle : HandsDown sql ("SELECT x FROM (".toList ++ inner ++ ") q".toList) :=
    ⟨"SELECT * FROM hist_a, ".toList, by decide +kernel⟩
  have hinner : HandsDown ("SELECT x FROM (".toList ++ inner ++ ") q".toList) inner :=
    ⟨"SELECT x FROM ".toList, by decide +kernel⟩
  have hencloses : Encloses sql inner := .tail (.single hmiddle) hinner
  have hcompares : comparesFlag inner p.options.column = true := by decide +kernel
  have hopens : opensWithSelect sql = true := by decide +kernel
  obtain ⟨hwhole, hkept, hruns⟩ :=
    (p.filterWith_suppressed (fun _ => .ok ()) sql).1 inner hencloses hcompares
  rw [if_pos hopens] at hkept
  exact ⟨⟨hencloses, hcompares⟩, hwhole, hkept, hruns⟩

end Policy

end SoftDelete
