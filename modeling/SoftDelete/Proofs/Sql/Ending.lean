import SoftDelete.Proofs.Sql.Readable

namespace SoftDelete

def blankCodes : List Nat :=
  [9, 10, 11, 12, 13, 0x20, 0x85, 0xA0, 0x1680, 0x2000, 0x2001, 0x2002, 0x2003, 0x2004, 0x2005,
    0x2006, 0x2007, 0x2008, 0x2009, 0x200A, 0x2028, 0x2029, 0x202F, 0x205F, 0x3000]

theorem isNamePart_of_isBlank {c : Char} (h : isBlank c = true) : isNamePart c = false := by
  have hcode : c.toNat ∈ blankCodes := by
    simp only [isBlank, Bool.or_eq_true, Bool.and_eq_true, decide_eq_true_eq, beq_iff_eq] at h
    simp only [blankCodes, List.mem_cons, List.not_mem_nil, or_false]
    omega
  have hall : ∀ n ∈ blankCodes, isNamePart (Char.ofNat n) = false := by decide +kernel
  rw [← Char.ofNat_toNat c]
  exact hall _ hcode

theorem isBlank_of_isNamePart {c : Char} (h : isNamePart c = true) : isBlank c = false := by
  cases hc : isBlank c with
  | false => rfl
  | true =>
      rw [isNamePart_of_isBlank hc] at h
      cases h

theorem isBlank_of_isDigit {c : Char} (h : c.isDigit = true) : isBlank c = false := by
  simp only [Char.isDigit, Bool.and_eq_true, decide_eq_true_eq] at h
  have hlow : 48 ≤ c.toNat := h.1
  have hhigh : c.toNat ≤ 57 := h.2
  simp only [isBlank, Bool.or_eq_false_iff, Bool.and_eq_false_iff, decide_eq_false_iff_not,
    beq_eq_false_iff_ne]
  omega

theorem getLast?_of_quotedLength? {q : Quote} {x r : Text}
    (h : quotedLength? q (x ++ r) = some x.length) : x.getLast? = some q.mark := by
  match x with
  | [] => exact absurd (quotedLength?_pos h) (Nat.lt_irrefl 0)
  | [c] =>
      obtain ⟨rfl, -⟩ := quotedLength?_single h
      rfl
  | c :: d :: x =>
      simp only [List.cons_append, quotedLength?, List.length_cons] at h
      split at h
      · obtain ⟨m, hm, hlen⟩ := Option.map_eq_some_iff.1 h
        obtain rfl : m = x.length := by omega
        have hlast := getLast?_of_quotedLength? hm
        cases x with
        | nil => cases hlast
        | cons e x => simpa using hlast
      · split at h
        · cases h
        · obtain ⟨m, hm, hlen⟩ := Option.map_eq_some_iff.1 h
          obtain rfl : m = (d :: x).length := by simpa using hlen
          have hlast := getLast?_of_quotedLength? (x := d :: x) hm
          simpa using hlast

theorem Lexeme.quoted_text {q : Quote} {x r : Text} (h : Lexeme (.quoted q) x r) :
    ∃ body, x = q.mark :: (body ++ [q.mark]) := by
  obtain @⟨c, x, _, -, hread⟩ := h
  unfold lexeme? at hread
  split at hread
  · rename_i p hp
    obtain ⟨n, hn, hpair⟩ := Option.map_eq_some_iff.1 hread
    obtain ⟨hkind, rfl⟩ := Prod.mk.inj hpair
    obtain rfl : p = q := Token.Kind.quoted.inj hkind
    obtain ⟨body, hbody⟩ := List.getLast?_eq_some_iff.1 (getLast?_of_quotedLength? hn)
    exact ⟨body, by rw [Quote.eq_mark_of_ofMark? hp, hbody]⟩
  · split at hread
    · simp only [wordLexeme, Option.some.injEq] at hread
      split at hread <;> cases (Prod.mk.inj hread).1
    · split at hread
      · cases (Prod.mk.inj (Option.some.inj hread)).1
      · have hkind := (Prod.mk.inj (Option.some.inj hread)).1
        unfold punctuation at hkind
        split at hkind <;> cases hkind

theorem Lexeme.quoted_iff {kind : Token.Kind} {x r : Text} (h : Lexeme kind x r) (q : Quote) :
    kind = .quoted q ↔ x.head? = some q.mark := by
  constructor
  · rintro rfl
    obtain ⟨body, rfl⟩ := h.quoted_text
    rfl
  · intro hhead
    obtain @⟨c, x, _, -, hread⟩ := h
    obtain rfl : c = q.mark := by simpa using hhead
    simp only [lexeme?, Quote.ofMark?_mark] at hread
    obtain ⟨n, -, hpair⟩ := Option.map_eq_some_iff.1 hread
    exact (Prod.mk.inj hpair).1.symm

theorem isBlank_of_mem_wordLexeme {kind : Token.Kind} {c : Char} {x r : Text}
    (h : wordLexeme c (x ++ r) = (kind, x.length)) : ∀ d ∈ x, isBlank d = false := by
  have hwhole : ((x ++ r).takeWhile isNamePart).length = x.length →
      ∀ d ∈ x, isBlank d = false := by
    intro hlen d hd
    rw [← (takeWhile_append_eq hlen).1] at hd
    exact isBlank_of_isNamePart (List.mem_takeWhile_imp hd)
  simp only [wordLexeme] at h
  split at h
  · simp only [Prod.mk.injEq] at h
    rcases fractionLength_eq_zero_or (s := (x ++ r).drop ((x ++ r).takeWhile isNamePart).length)
      with hzero | ⟨d, t, hdrop, hd, hpoint⟩
    · rw [hzero] at h
      exact hwhole h.2
    · rw [hpoint] at h
      obtain ⟨w, ds, rfl, hw, hds, -⟩ := exists_fraction hdrop h.2
      intro e he
      rcases List.mem_append.1 he with he | he
      · rw [← hw] at he
        exact isBlank_of_isNamePart (List.mem_takeWhile_imp he)
      · rcases List.mem_cons.1 he with rfl | he
        · rfl
        · rcases List.mem_cons.1 he with rfl | he
          · exact isBlank_of_isDigit hd
          · rw [← hds] at he
            exact isBlank_of_isDigit (List.mem_takeWhile_imp he)
  · simp only [Prod.mk.injEq] at h
    exact hwhole h.2

theorem Lexeme.last_not_blank {kind : Token.Kind} {x r : Text} (h : Lexeme kind x r) {d : Char}
    (hd : x.getLast? = some d) : isBlank d = false := by
  obtain @⟨c, x, _, hgap, hread⟩ := h
  have hc : isBlank c = false := (gapLength_eq_zero_iff.1 hgap).1
  have hall : (∀ e ∈ x, isBlank e = false) → isBlank d = false := by
    intro hx
    rcases List.mem_cons.1 (List.mem_of_getLast? hd) with rfl | hmem
    · exact hc
    · exact hx d hmem
  unfold lexeme? at hread
  split at hread
  · rename_i q hq
    obtain ⟨n, hn, hpair⟩ := Option.map_eq_some_iff.1 hread
    obtain rfl : n = x.length := (Prod.mk.inj hpair).2
    have hlast := getLast?_of_quotedLength? hn
    cases x with
    | nil => cases hlast
    | cons e x =>
        rw [List.getLast?_cons_cons, hlast] at hd
        cases hd
        cases q <;> rfl
  · split at hread
    · exact hall (isBlank_of_mem_wordLexeme (Option.some.inj hread))
    · split at hread
      · rename_i op hfind
        have hlen := (Prod.mk.inj (Option.some.inj hread)).2
        obtain ⟨-, rfl⟩ := operator_change (Safe.refl r).toTamer hfind hlen
        have hop := List.mem_of_find?_eq_some hfind
        exact hall fun e he => isBlank_of_mem_operators _ hop e (by simp [he])
      · have hlen := (Prod.mk.inj (Option.some.inj hread)).2
        obtain rfl : x = [] := List.eq_nil_of_length_eq_zero hlen.symm
        exact hall (by simp)

theorem sourceOf_last_not_blank {ts : List Token} (h : ∀ t ∈ ts, ∃ r, t.StandsBefore r) {c : Char}
    (hc : (sourceOf ts).getLast? = some c) : isBlank c = false := by
  rcases List.eq_nil_or_concat ts with rfl | ⟨front, t, rfl⟩
  · cases hc
  · obtain ⟨r, hr⟩ := h t (by simp)
    have hlast : (t.text.getLast?).isSome = true := by
      simpa using hr.lexeme.text_ne_nil
    obtain ⟨d, hd⟩ := Option.isSome_iff_exists.1 hlast
    have hcd : c = d := by
      simpa [List.concat_eq_append, Token.source, List.getLast?_append, hd] using hc.symm
    exact hr.lexeme.last_not_blank (hcd ▸ hd)

end SoftDelete
