import SoftDelete.Proofs.Isolation.Reading
import SoftDelete.Proofs.Select.Body

namespace SoftDelete

def slotGap (gap : Text) (o : Option Item) : Text :=
  (o.map Item.gap).getD gap

theorem slotAtoms_eq (gap : Text) (o : Option Item) :
    slotAtoms gap o = [some (.plain (slotGap gap o)), o.map Item.core] := by
  cases o <;> simp [slotAtoms, slotGap, Item.atoms_eq]

section Places

variable {gap : Text} {x : Item} {l : Level} (hx : Fits gap x)

include hx

theorem gap_getD (o : Option Item) : (o.getD x).gap = slotGap gap o := by
  cases o with
  | none => exact hx.gap_eq
  | some i => rfl

theorem Level.stopOf_fill (pre post : Pattern Item) (h : l.items = fill x (pre ++ post)) :
    l.stopOf pre.length = sizeOf (fill x.core (atomsOf gap pre)) := by
  have hstop := Level.stopOf_length (fill x pre) (fill x post) (by simpa using h)
  rwa [fill_length, ← fill_atomsOf hx.gap_eq] at hstop

theorem Level.startOf_fill (pre post : Pattern Item) (o : Option Item)
    (h : l.items = fill x (pre ++ o :: post)) :
    l.startOf pre.length =
      sizeOf (fill x.core (atomsOf gap pre)) + Text.byteSize (slotGap gap o) := by
  have hstart := Level.startOf_length (fill x pre) (fill x post) (by simpa using h)
  rwa [fill_length, ← fill_atomsOf hx.gap_eq, gap_getD hx] at hstart

omit hx in
theorem Level.itemsIn_fill (pre mid post : Pattern Item)
    (h : l.items = fill x (pre ++ (mid ++ post))) :
    l.itemsIn pre.length (pre.length + mid.length) = fill x mid := by
  have hin := Level.itemsIn_length (fill x pre) (fill x mid) (fill x post) (by simpa using h)
  rwa [fill_length, fill_length] at hin

theorem Level.before_last (pre post : Pattern Item) (o p : Option Item) (hsolid : Solid (pre ++ [p]))
    (h : l.items = fill x (pre ++ [p] ++ o :: post)) :
    (l.before (pre ++ [p]).length).getLast? =
      (slotGap gap o).getLast?.or (p.getD x).text.getLast? := by
  have hbefore := Level.before_length (fill x (pre ++ [p])) (fill x post) (by simpa using h)
  have htext : (p.getD x).text ≠ [] := hsolid.fill hx _ (by simp)
  obtain ⟨c, hc⟩ : ∃ c, (p.getD x).text.getLast? = some c := ⟨_, List.getLast?_eq_some_getLast htext⟩
  rw [fill_length, gap_getD hx] at hbefore
  rw [hbefore, List.getLast?_append]
  congr 1
  simp [Item.atoms_eq, Item.core_source, List.getLast?_append, hc]

end Places

structure Twins (gap : Text) (f g : Item) (l m : Level) (slots : Pattern Item) : Prop where
  left : l.items = fill f slots
  right : m.items = fill g slots
  solid : Solid slots
  fits : Fits gap f ∧ Fits gap g

namespace Twins

variable {gap : Text} {f g : Item} {l m : Level} (pre used post : Pattern Item) (o : Option Item)

theorem laid_edit (t : Twins gap f g l m (pre ++ (o :: used ++ post))) {text : Pattern Char}
    (h : holes text = holes (o :: used)) :
    Laid gap f g pre (o :: used)
      [⟨l.startOf pre.length, l.stopOf (pre ++ o :: used).length, write f.output text⟩]
      [⟨m.startOf pre.length, m.stopOf (pre ++ o :: used).length, write g.output text⟩] := by
  have hedit : ∀ {x : Item} {k : Level}, Fits gap x → k.items = fill x (pre ++ (o :: used ++ post)) →
      [⟨k.startOf pre.length, k.stopOf (pre ++ o :: used).length, write x.output text⟩] =
        editsOf gap x pre [.kept [some (.plain (slotGap gap o))],
          .put (o.map Item.core :: atomsOf gap used) text] := by
    intro x k hx hk
    have hstart := Level.startOf_fill hx pre (used ++ post) o (by simpa using hk)
    have hstop := Level.stopOf_fill hx (pre ++ o :: used) post (by simpa using hk)
    rw [hstart, hstop]
    simp [editsOf, OpenChunk.close, Chunk.edits, atomsOf, slotAtoms_eq, x.core_output,
      Nat.add_assoc]
  refine ⟨_, ⟨?_, ?_⟩, hedit t.fits.1 t.left, hedit t.fits.2 t.right⟩
  · simp [OpenChunk.atoms, atomsOf, slotAtoms_eq]
  · have hholes := holes_atomsOf gap (o :: used)
    simp only [List.mem_cons, List.not_mem_nil, or_false, forall_eq_or_imp, forall_eq]
    refine ⟨trivial, h.trans (hholes.symm.trans ?_)⟩
    simp [atomsOf, slotAtoms_eq]

theorem laid_insert (t : Twins gap f g l m (pre ++ post)) (text : Text) :
    Laid gap f g pre [] [.insert (l.stopOf pre.length) text]
      [.insert (m.stopOf pre.length) text] := by
  refine ⟨[.put [] (text.map some)], ⟨rfl, by simp [OpenChunk.Keeps]⟩, ?_, ?_⟩
  · rw [Level.stopOf_fill t.fits.1 pre post t.left]
    simp [editsOf, OpenChunk.close, Chunk.edits, Edit.insert]
  · rw [Level.stopOf_fill t.fits.2 pre post t.right]
    simp [editsOf, OpenChunk.close, Chunk.edits, Edit.insert]

theorem laid_enclose (t : Twins gap f g l m (pre ++ (o :: used ++ post))) (opening closing : Text) :
    Laid gap f g pre (o :: used)
      [.insert (l.startOf pre.length) opening, .insert (l.stopOf (pre ++ o :: used).length) closing]
      [.insert (m.startOf pre.length) opening,
        .insert (m.stopOf (pre ++ o :: used).length) closing] := by
  have hedit : ∀ {x : Item} {k : Level}, Fits gap x → k.items = fill x (pre ++ (o :: used ++ post)) →
      [.insert (k.startOf pre.length) opening, .insert (k.stopOf (pre ++ o :: used).length) closing] =
        editsOf gap x pre [.kept [some (.plain (slotGap gap o))], .put [] (opening.map some),
          .kept (o.map Item.core :: atomsOf gap used), .put [] (closing.map some)] := by
    intro x k hx hk
    have hstart := Level.startOf_fill hx pre (used ++ post) o (by simpa using hk)
    have hstop := Level.stopOf_fill hx (pre ++ o :: used) post (by simpa using hk)
    rw [hstart, hstop]
    simp [editsOf, OpenChunk.close, Chunk.edits, atomsOf, slotAtoms_eq, Edit.insert, Nat.add_assoc]
  refine ⟨_, ⟨?_, ?_⟩, hedit t.fits.1 t.left, hedit t.fits.2 t.right⟩
  · simp [OpenChunk.atoms, atomsOf, slotAtoms_eq]
  · simp [OpenChunk.Keeps]

theorem leadingSpace_eq (t : Twins gap f g l m (pre ++ o :: post)) (hpre : pre ≠ []) {j k : Join}
    (h : j.Alike k) (hj : j.items.start = pre.length) : j.leadingSpace l = k.leadingSpace m := by
  obtain ⟨pre, p, rfl⟩ := (List.eq_nil_or_concat' pre).resolve_left hpre
  have hsolid : Solid (pre ++ [p]) := fun i hi => t.solid i (List.mem_append_left _ hi)
  rw [Join.leadingSpace, Join.leadingSpace, ← h.items, hj,
    Level.before_last t.fits.1 pre post o p hsolid t.left,
    Level.before_last t.fits.2 pre post o p hsolid t.right]
  -- Only the last character in front of the join counts, and nothing that fits ends with a blank.
  cases p with
  | some i => rfl
  | none =>
      cases (slotGap gap o).getLast? with
      | some c => rfl
      | none =>
          obtain ⟨c, hc, hblank⟩ := t.fits.1.exists_last
          obtain ⟨d, hd, hblank'⟩ := t.fits.2.exists_last
          simp [hc, hd, hblank, hblank']

end Twins

def Unread (f g : Item) (slots : Pattern Item) : Prop :=
  (f.Alike g ∧ f.isSubselect = true) ∨ holes slots = 0

namespace Unread

variable {f g : Item} {slots more : Pattern Item}

theorem of_append (h : Unread f g (slots ++ more)) : Unread f g slots ∧ Unread f g more := by
  rcases h with h | h
  · exact ⟨.inl h, .inl h⟩
  · rw [holes_append] at h
    exact ⟨.inr (Nat.eq_zero_of_add_eq_zero_right h), .inr (Nat.eq_zero_of_add_eq_zero_left h)⟩

theorem holes_of_tokens (h : Unread f g slots)
    (htokens : ∀ i ∈ fill f slots, i.isSubselect = false) : holes slots = 0 := by
  rcases h with ⟨-, hf⟩ | hnone
  · induction slots with
    | nil => rfl
    | cons o slots ih =>
        cases o with
        | none => simp [hf] at htokens
        | some i => simpa using ih fun i hi => htokens i (by simp [hi])
  · exact hnone

theorem parse_alike (h : Unread f g slots) {after after' : Option Item}
    (hafter : after.any (Item.hasKind · .dot) = after'.any (Item.hasKind · .dot))
    (room maxJoins start : Nat) :
    Agree References.Alike (References.parse room maxJoins start (fill f slots) after)
      (References.parse room maxJoins start (fill g slots) after') := by
  rcases h with ⟨halike, -⟩ | hnone
  · exact References.parse_alike halike hafter room maxJoins start slots
  · rw [← fill_eq_of_holes f slots g hnone]
    exact References.parse_alike (.same f) hafter room maxJoins start slots

end Unread

namespace Join

def editPattern (gap lead keyword column : Text) (targets : List Text) (ts : Pattern Item)
    (own : List (Pattern Char)) : Pattern Char :=
  lead.map some ++ (keyword.map some ++ some ' ' :: (outputPattern gap ts ++
    (" ON ".toList.map some ++
      joinedPattern " AND " (targets.map (fun u => (filterCondition column u).map some) ++ own))))

theorem holes_editPattern (gap lead keyword column : Text) (targets : List Text) (ts : Pattern Item)
    (own : List (Pattern Char)) :
    holes (editPattern gap lead keyword column targets ts own) = holes ts + holes own.flatten := by
  have hfilters : holes (targets.map fun u => (filterCondition column u).map some).flatten = 0 := by
    induction targets with
    | nil => rfl
    | cons u targets ih => simpa using ih
  simp [editPattern, holes_outputPattern, holes_joinedPattern, hfilters]

theorem write_editPattern {gap : Text} {x : Item} (hx : Fits gap x) (lead keyword column : Text)
    (targets : List Text) (ts : Pattern Item) (own : List (Pattern Char)) :
    write x.output (editPattern gap lead keyword column targets ts own) =
      lead ++ (keyword ++ ' ' :: (outputOf (fill x ts) ++ (" ON ".toList ++
        Text.joined " AND "
          (targets.map (filterCondition column) ++ own.map (write x.output))))) := by
  simp [editPattern, write_joinedPattern, write_outputPattern hx.gap_eq, Function.comp_def]

variable {gap : Text} {f g : Item} {l m : Level} (pre ps post : Pattern Item) {j k : Join}

theorem keywordText_eq (t : Twins gap f g l m (pre ++ (ps ++ post))) (hclosed : holes ps = 0)
    (h : j.Alike k) (hj : j.keywordItems = ⟨pre.length, pre.length + ps.length⟩) :
    j.keywordText l = k.keywordText m := by
  have hleft := Level.itemsIn_fill pre ps post t.left
  have hright := Level.itemsIn_fill pre ps post t.right
  rw [keywordText, keywordText, ← h.kind, ← h.keywordItems, hj, hleft, hright,
    fill_eq_of_holes f ps g hclosed]

theorem ownCondition_alike (t : Twins gap f g l m (pre ++ (ps ++ post))) (hps : Unread f g ps)
    (hspans : Join.Clause.Spans pre.length (fill f ps) j.clause) (h : j.Alike k) :
    Agree (fun own own' => ∃ qs : List (Pattern Char), own = qs.map (write f.output) ∧
      own' = qs.map (write g.output) ∧ holes qs.flatten = holes ps)
      (j.ownCondition l) (k.ownCondition m) := by
  rw [ownCondition, ownCondition, ← h.kind]
  have hclause := h.clause
  generalize j.clause = own at hspans hclause
  generalize k.clause = own' at hclause
  generalize hitems : fill f ps = items at hspans
  cases hclause with
  | none =>
      cases hspans
      obtain rfl : ps = [] := by simpa [fill] using hitems
      dsimp only
      split
      · exact .error rfl
      · exact .ok ⟨[], rfl, rfl, rfl⟩
  | «using» => exact .error rfl
  | @on c d range =>
      obtain ⟨i, cond, rfl, hon, hrange⟩ : ∃ i cond, items = i :: cond ∧ i.spells "ON" = true ∧
          range = ⟨pre.length + 1, pre.length + 1 + cond.length⟩ := by
        cases hspans with
        | on hon => exact ⟨_, _, rfl, hon, rfl⟩
      obtain ⟨o, cs, rfl, rfl, rfl⟩ := List.map_eq_cons_iff.1 hitems
      have hword : holes [o] = 0 := by
        have hsplit : Unread f g ([o] ++ cs) := hps
        refine hsplit.of_append.1.holes_of_tokens ?_
        simpa using Item.isSubselect_of_spells hon
      have hin : ∀ {x : Item} {n : Level}, Fits gap x → n.items = fill x (pre ++ (o :: cs ++ post)) →
          ['(' :: (outputOf (n.itemsIn range.start range.stop) ++ [')'])] =
            [some '(' :: (outputPattern gap cs ++ [some ')'])].map (write x.output) := by
        intro x n hx hn
        have hin := Level.itemsIn_fill (pre ++ [o]) cs post (by simpa using hn)
        rw [List.length_append, List.length_singleton] at hin
        rw [hrange, List.length_map, hin, ← write_outputPattern hx.gap_eq]
        simp
      refine .ok ⟨_, hin t.fits.1 t.left, hin t.fits.2 t.right, ?_⟩
      have hsplit := holes_append [o] cs
      rw [hword, Nat.zero_add] at hsplit
      simpa [holes_outputPattern] using hsplit.symm

theorem edit_alike (column : Text) (targets : List Text) (hpre : pre ≠ [])
    (t : Twins gap f g l m (pre ++ (ps ++ post))) (hps : Unread f g ps)
    (hspans : j.Spans pre.length (fill f ps)) (h : j.Alike k) :
    Agree (fun e e' => Laid gap f g pre ps [e] [e']) (j.edit l column targets)
      (k.edit m column targets) := by
  generalize hitems : fill f ps = items at hspans
  obtain @⟨keyword, tables, owns, _, hkind, hkeywords, htable, hown, hrange⟩ := hspans
  obtain ⟨front, os, rfl, hfront, rfl⟩ := List.map_eq_append_iff.1 hitems
  obtain ⟨ks, ts, rfl, rfl, rfl⟩ := List.map_eq_append_iff.1 hfront
  obtain ⟨o, ks, rfl⟩ : ∃ o ks', ks = o :: ks' := by
    cases ks with
    | nil => exact absurd rfl hkind.ne_nil
    | cons o ks => exact ⟨o, ks, rfl⟩
  simp only [List.length_map] at hkeywords htable hown
  have hclosed : holes (o :: ks) = 0 :=
    hps.of_append.1.of_append.1.holes_of_tokens hkind.tokens
  have hlead := Twins.leadingSpace_eq pre (ks ++ (ts ++ (os ++ post))) o (by simpa using t) hpre h
    (by rw [hrange])
  have hword := keywordText_eq pre (o :: ks) (ts ++ (os ++ post)) (by simpa using t) hclosed h
    hkeywords
  refine (ownCondition_alike (pre ++ (o :: ks ++ ts)) os post (by simpa using t)
    hps.of_append.2 (by rwa [List.length_append, List.length_append]) h).bind ?_
  rintro _ _ ⟨qs, rfl, rfl, hqs⟩
  let text := editPattern gap (j.leadingSpace l) (j.keywordText l) column targets ts qs
  have htext : holes text = holes (o :: (ks ++ ts ++ os)) := by
    have hsplit : holes (o :: (ks ++ ts ++ os)) = holes (o :: ks) + holes ts + holes os := by
      rw [← holes_append, ← holes_append]
      rfl
    rw [hsplit, hclosed, ← hqs, Nat.zero_add]
    exact holes_editPattern ..
  have hwrite : ∀ {x : Item} {n : Level}, Fits gap x →
      n.items = fill x (pre ++ (o :: (ks ++ ts ++ os) ++ post)) →
      (⟨n.startOf j.items.start, n.stopOf j.items.stop, j.leadingSpace l ++ (j.keywordText l ++
        ' ' :: (outputOf (n.itemsIn j.table.items.start j.table.items.stop) ++
          (" ON ".toList ++ Text.joined " AND "
            (targets.map (filterCondition column) ++ qs.map (write x.output)))))⟩ : Edit) =
        ⟨n.startOf pre.length, n.stopOf (pre ++ o :: (ks ++ ts ++ os)).length,
          write x.output text⟩ := by
    intro x n hx hn
    have htables := Level.itemsIn_fill (pre ++ o :: ks) ts (os ++ post) (by simpa using hn)
    rw [List.length_append] at htables
    rw [write_editPattern hx, htable.range, List.length_map, htables, hrange]
    simp [Nat.add_assoc]
  have hlaid := Twins.laid_edit pre (ks ++ ts ++ os) post o (by simpa using t) htext
  rw [← hwrite t.fits.1 (by simpa using t.left), ← hwrite t.fits.2 (by simpa using t.right)] at hlaid
  refine .ok ?_
  rw [← hlead, ← hword, ← h.items, ← h.table]
  simpa using hlaid

theorem edits_alike (column : Text) (hpre : pre ≠ [])
    (t : Twins gap f g l m (pre ++ (ps ++ post))) (hps : Unread f g ps) {js ks : List Join}
    (plan : List (List Text)) (hspans : ListSpans pre.length (fill f ps) js)
    (h : List.Forall₂ Join.Alike js ks) :
    Agree (Laid gap f g pre ps)
      (((js.zip plan).filter fun pair => !pair.2.isEmpty).mapM fun pair =>
        pair.1.edit l column pair.2)
      (((ks.zip plan).filter fun pair => !pair.2.isEmpty).mapM fun pair =>
        pair.1.edit m column pair.2) := by
  induction h generalizing pre ps plan with
  | nil => exact .ok (.kept gap f g pre ps)
  | @cons j k js ks hjoin hrest ih =>
      cases plan with
      | nil => exact .ok (.kept gap f g pre ps)
      | cons targets plan =>
          generalize hitems : fill f ps = items at hspans
          obtain _ | @⟨_, used, rest, _, _, hfirst, hlater⟩ := hspans
          obtain ⟨qs, rs, rfl, rfl, rfl⟩ := List.map_eq_append_iff.1 hitems
          have hmore := ih (pre ++ qs) rs (by simp [hpre]) (by simpa using t) hps.of_append.2 plan
            (by simpa [fill] using hlater)
          by_cases hnone : targets = []
          · subst hnone
            exact hmore.mono fun es es' hes => (Laid.kept gap f g pre qs).append hes
          · rw [List.zip_cons_cons, List.zip_cons_cons, filtered_cons hnone, filtered_cons hnone,
              List.mapM_cons, List.mapM_cons]
            refine (edit_alike pre qs (rs ++ post) column targets hpre (by simpa using t)
              hps.of_append.1 hfirst hjoin).bind fun e e' he => ?_
            exact hmore.bind fun es es' hes => .ok (he.append hes)

end Join

end SoftDelete
