import SoftDelete.Proofs.Bounds.Body
import SoftDelete.Proofs.Isolation.Swap
import SoftDelete.Proofs.Select.Chunks
import SoftDelete.Proofs.Union.Level

namespace SoftDelete

theorem Chunk.edits_ordered (offset : Nat) (cs : List Chunk) :
    (edits offset cs).Pairwise fun e f => e.stop ≤ f.start := by
  induction cs generalizing offset with
  | nil => exact .nil
  | cons c cs ih =>
      cases c with
      | kept atoms => exact ih _
      | put atoms text => exact List.pairwise_cons.2 ⟨fun e he => (le_of_mem_edits he).1, ih _⟩

namespace Level

variable {l : Level} {n : Nat}

def IsBorder (l : Level) (n : Nat) : Prop :=
  ∃ i < l.items.length, n = l.startOf i ∨ n = l.stopOf (i + 1)

def IsOutside (l : Level) (n : Nat) : Prop :=
  ∀ i < l.items.length, n ≤ l.startOf i ∨ l.stopOf (i + 1) ≤ n

theorem isBorder_startOf (h : n < l.items.length) : l.IsBorder (l.startOf n) :=
  ⟨n, h, .inl rfl⟩

theorem isBorder_stopOf {m : Nat} (h : m < n) (hn : n ≤ l.items.length) : l.IsBorder (l.stopOf n) := by
  obtain ⟨k, rfl⟩ := Nat.exists_eq_add_one_of_ne_zero (Nat.ne_zero_of_lt h)
  exact ⟨k, hn, .inr rfl⟩

theorem IsBorder.isBoundary (h : l.IsBorder n) : l.source.isBoundary n = true := by
  obtain ⟨i, hi, rfl | rfl⟩ := h
  · exact isBoundary_startOf hi
  · exact isBoundary_stopOf l _

theorem IsBorder.isOutside (h : l.IsBorder n) : l.IsOutside n := by
  have hbefore : ∀ {i k}, k < i → l.stopOf (k + 1) ≤ l.startOf i := fun hk =>
    Nat.le_trans (stopOf_mono hk) (l.stopOf_le_startOf _)
  intro i hi
  obtain ⟨k, hk, rfl | rfl⟩ := h
  · rcases Nat.lt_trichotomy k i with hlt | rfl | hlt
    · exact .inl (Nat.le_trans (startOf_le_stopOf hk (Nat.lt_succ_self k)) (hbefore hlt))
    · exact .inl (Nat.le_refl _)
    · exact .inr (hbefore hlt)
  · rcases Nat.lt_or_ge k i with hlt | hle
    · exact .inl (hbefore hlt)
    · exact .inr (stopOf_mono (Nat.succ_le_succ hle))

structure Splices (l : Level) (edits : List Edit) : Prop where
  ordered : edits.Pairwise fun e f => e.stop ≤ f.start
  forward : ∀ e ∈ edits, e.start ≤ e.stop
  border : ∀ e ∈ edits, l.IsBorder e.start ∧ l.IsBorder e.stop
  outside : ∀ e ∈ edits, l.IsOutside e.start ∧ l.IsOutside e.stop

theorem Splices.outputWith?_eq {edits : List Edit} (h : l.Splices edits) :
    l.outputWith? edits = some (l.outputWith edits) := by
  have hsorted : edits.Pairwise fun e f => Edit.le e f = true := by
    refine h.ordered.imp_of_mem fun {e f} he hf hef => ?_
    have := h.forward e he
    have := h.forward f hf
    simp only [Edit.le, Bool.or_eq_true, Bool.and_eq_true, decide_eq_true_eq, beq_iff_eq]
    omega
  have hzero : l.source.isBoundary 0 = true := isBoundary_stopOf l 0
  rw [outputWith?, outputWith, List.mergeSort_of_pairwise hsorted]
  refine outputFrom?_eq hzero (fun _ _ => Nat.zero_le _) (fun e he => ?_) h.ordered
  obtain ⟨hstart, hstop⟩ := h.border e he
  exact ⟨h.forward e he, hstart.isBoundary, hstop.isBoundary⟩

end Level

def Bordered (l : Level) (edits : List Edit) : Prop :=
  ∀ e ∈ edits, l.IsBorder e.start ∧ l.IsBorder e.stop

section Borders

variable {l : Level}

theorem Bordered.append {es fs : List Edit} (h : Bordered l es) (h' : Bordered l fs) :
    Bordered l (es ++ fs) :=
  fun e he => (List.mem_append.1 he).elim (h e) (h' e)

theorem bordered_insert {n : Nat} (h : l.IsBorder n) (text : Text) :
    Bordered l [.insert n text] := by
  rintro e he
  obtain rfl := List.mem_singleton.1 he
  exact ⟨h, h⟩

theorem Join.edit_bordered {j : Join} (hj : j.Within l.items.length) {column : Text}
    {targets : List Text} {e : Edit} (h : j.edit l column targets = .ok e) :
    l.IsBorder e.start ∧ l.IsBorder e.stop := by
  obtain ⟨own, -, h⟩ := exists_of_bind_ok h
  cases h
  have hbound := hj.items.bounded
  exact ⟨Level.isBorder_startOf (Nat.lt_of_lt_of_le hj.items.inhabited hbound),
    Level.isBorder_stopOf hj.items.inhabited hbound⟩

theorem References.edits_bordered {r : References} (hjoins : ∀ j ∈ r.joins, j.Within l.items.length)
    {column : Text} {plan : FilterPlan} {edits : List Edit} (h : r.edits l column plan = .ok edits) :
    Bordered l edits := by
  intro e he
  obtain ⟨pair, hpair, hedit⟩ := exists_of_mem_mapM h he
  have hmem := (List.of_mem_zip (List.mem_of_mem_filter hpair)).1
  exact Join.edit_bordered (hjoins _ hmem) hedit

theorem seekWhereEdits_bordered {first stop bodyStop : Nat} (hfirst : first < stop)
    (hstop : stop ≤ l.items.length) (hbody : bodyStop ≤ l.items.length) (condition : Text) :
    Bordered l (seekWhereEdits l stop bodyStop condition) := by
  unfold seekWhereEdits
  split
  · rename_i hwhere
    have hown : stop + 1 ≤ l.seek opensClause (stop + 1) bodyStop := l.le_seek opensClause hwhere.1
    have hend := l.seek_le opensClause (stop + 1) bodyStop
    dsimp only
    split
    · exact bordered_insert (Level.isBorder_stopOf (Nat.lt_succ_self stop) (by omega)) _
    · rename_i hne
      have hstart : l.IsBorder (l.startOf (stop + 1)) := Level.isBorder_startOf (by omega)
      have hborder : l.IsBorder (l.stopOf (l.seek opensClause (stop + 1) bodyStop)) :=
        Level.isBorder_stopOf (Nat.lt_of_succ_le hown) (Nat.le_trans hend hbody)
      exact (bordered_insert hstart ['(']).append (bordered_insert hborder _)
  · exact bordered_insert (Level.isBorder_stopOf hfirst hstop) _

theorem seekBodyEdit_bordered {catalog : Catalog} {options : Options} {body : ItemRange}
    {edit : LevelEdit} (hbody : body.stop ≤ l.items.length)
    (h : seekBodyEdit catalog options l body = .ok edit) : Bordered l edit.edits := by
  unfold seekBodyEdit at h
  dsimp only at h
  split at h
  · obtain ⟨r, hr, h⟩ := exists_of_bind_ok h
    obtain ⟨edits, hedits, h⟩ := exists_of_bind_ok h
    cases h
    have hstop := fun start => Nat.le_trans (l.seek_le endsReferences start body.stop) hbody
    obtain ⟨hfirst, hjoins⟩ := References.parse_within (hstop _) hr
    refine (References.edits_bordered hjoins hedits).append ?_
    cases (r.plan catalog).carried with
    | none => exact fun _ he => absurd he (by simp)
    | some target =>
        rw [Option.toList_some, List.flatMap_singleton]
        exact seekWhereEdits_bordered hfirst (hstop _) hbody _
  · cases h
    exact fun _ he => absurd he (by simp)

theorem Level.filterEdit_bordered {catalog : Catalog} {options : Options} {edit : LevelEdit}
    (h : l.filterEdit catalog options = .ok edit) : Bordered l edit.edits := by
  rw [filterEdit_eq_seek, map_eq_pure_bind] at h
  obtain ⟨parts, hparts, h⟩ := exists_of_bind_ok h
  cases h
  intro e he
  obtain ⟨part, hpart, he⟩ := List.mem_flatMap.1 he
  obtain ⟨body, hmem, hedit⟩ := exists_of_mem_mapM hparts hpart
  exact seekBodyEdit_bordered (bounds_of_mem_bodyRanges hmem).2 hedit e he

theorem Level.filterEdit_splices {catalog : Catalog} {options : Options} {edit : LevelEdit}
    (h : l.filterEdit catalog options = .ok edit) : l.Splices edit.edits := by
  have hborder := filterEdit_bordered h
  obtain ⟨chunks, -, -, hedits⟩ := filterEdit_cuts h
  refine ⟨hedits ▸ Chunk.edits_ordered 0 chunks, fun e he => ?_, hborder, fun e he => ?_⟩
  · rw [← hedits] at he
    exact (Chunk.le_of_mem_edits he).2
  · obtain ⟨hstart, hstop⟩ := hborder e he
    exact ⟨hstart.isOutside, hstop.isOutside⟩

end Borders

def Item.withBody (body : Text) : Item → Item
  | .token t => .token t
  | .subselect gap text _ => .subselect gap text body

def Level.withBody (l : Level) (n : Nat) (body : Text) : Level :=
  ⟨l.items.modify n (Item.withBody body), l.tail⟩

section Emission

theorem length_le_of_enclose {front front' back back' : Text} {count : Nat}
    (hcount : front'.length ≤ count)
    (h : front ++ '(' :: (List.replicate count 'x' ++ ')' :: back) =
      front' ++ '(' :: (List.replicate count 'x' ++ ')' :: back')) :
    front'.length ≤ front.length := by
  refine Nat.le_of_not_lt fun hlt => ?_
  obtain ⟨k, hk⟩ := Nat.exists_eq_add_of_lt hlt
  have hat := congrArg (fun s : Text => s[front'.length]?) h
  rw [List.getElem?_append_right (Nat.le_of_lt hlt), List.getElem?_append_right (Nat.le_refl _),
    Nat.sub_self, hk, show front.length + k + 1 - front.length = k + 1 by omega,
    List.getElem?_cons_succ, List.getElem?_append_left (by simp; omega),
    List.getElem?_replicate_of_lt (by omega)] at hat
  simp at hat

/-- A text that depends on a stretch in parentheses as any two of its values show holds the stretch once,
in one and the same place. -/
theorem exists_around {out : Text → Text}
    (h : ∀ s t, ∃ front back, out s = front ++ '(' :: (s ++ ')' :: back) ∧
      out t = front ++ '(' :: (t ++ ')' :: back)) :
    ∃ front back, ∀ s, out s = front ++ '(' :: (s ++ ')' :: back) := by
  let count := (out []).length
  let long : Text := List.replicate count 'x'
  have hshort : ∀ {front back}, out long = front ++ '(' :: (long ++ ')' :: back) →
      front.length ≤ count := by
    intro front back hlong
    obtain ⟨front', back', hnil, hlong'⟩ := h [] long
    have hcount : count = (front' ++ '(' :: ([] ++ ')' :: back')).length := congrArg List.length hnil
    have hlen := congrArg List.length (hlong.symm.trans hlong')
    have hrep : long.length = count := List.length_replicate
    simp only [List.length_append, List.length_cons, List.length_nil, hrep] at hcount hlen
    omega
  obtain ⟨front, back, -, hlong⟩ := h [] long
  refine ⟨front, back, fun s => ?_⟩
  obtain ⟨front', back', hs, hlong'⟩ := h s long
  have hsame := hlong'.symm.trans hlong
  have hlength := Nat.le_antisymm (length_le_of_enclose (hshort hlong') hsame.symm)
    (length_le_of_enclose (hshort hlong) hsame)
  obtain ⟨rfl, hback⟩ := List.append_inj hsame hlength
  have hback : back' = back := by simpa using hback
  rw [hs, hback]

variable {l : Level} {pre post : List Item} {gap inner own : Text} {catalog : Catalog}
  {options : Options}

theorem Level.withBody_eq {i : Item} (h : l.items = pre ++ i :: post) (body : Text) :
    l.withBody pre.length body = ⟨pre ++ i.withBody body :: post, l.tail⟩ := by
  simp [withBody, h, List.modify_eq_take_cons_drop, List.drop_append]

theorem Level.filterEdit_emits
    (hitems : l.items = pre ++ .subselect gap (inner ++ [')']) own :: post)
    (hsolid : ∀ i ∈ l.items, i.text ≠ []) {s : Text} {edit : LevelEdit}
    (h : (l.withBody pre.length s).filterEdit catalog options = .ok edit) (t : Text) :
    ∃ edit' front back, (l.withBody pre.length t).filterEdit catalog options = .ok edit' ∧
      (l.withBody pre.length s).outputWith edit.edits = front ++ '(' :: (s ++ ')' :: back) ∧
      (l.withBody pre.length t).outputWith edit'.edits = front ++ '(' :: (t ++ ')' :: back) := by
  let slots : Pattern Item := pre.map some ++ none :: post.map some
  let item (u : Text) := Item.subselect gap (inner ++ [')']) u
  have hfill : ∀ u, l.withBody pre.length u = ⟨fill (item u) slots, l.tail⟩ := fun u => by
    rw [withBody_eq hitems]
    simp [slots, item, Item.withBody]
  have hslots : Solid slots := fun i hi => hsolid i (by
    rw [hitems]
    rcases List.mem_append.1 hi with hi | hi
    · exact List.mem_append_left _ (by simpa using hi)
    · exact List.mem_append_right _ (List.mem_cons_of_mem _ (by simpa using hi)))
  have hfits : ∀ u, Fits gap (item u) := fun u => fits_subselect ..
  have halike : (item s).Alike (item t) := .subselects
  have hagree := filterEdit_alike catalog options (.of_alike halike) (halike.looks.namesTable catalog)
    (keepsOut_of_subselect halike rfl) trivial
    ⟨congrArg Level.items (hfill s), congrArg Level.items (hfill t), hslots, hfits s, hfits t⟩
  rw [h] at hagree
  generalize (l.withBody pre.length t).filterEdit catalog options = result at hagree ⊢
  cases hagree with
  | ok hedits =>
      obtain ⟨front, back, hleft, hright⟩ :=
        hedits.1.exists_output (by simp [slots]) hslots (hfits s) (hfits t) l.tail
      rw [← hfill] at hleft hright
      exact ⟨_, front, back, rfl, by simpa [item, Item.output] using hleft,
        by simpa [item, Item.output] using hright⟩

theorem Level.filterEdit_emits_once
    (hitems : l.items = pre ++ .subselect gap (inner ++ [')']) own :: post)
    (hsolid : ∀ i ∈ l.items, i.text ≠ []) {edit : LevelEdit}
    (h : l.filterEdit catalog options = .ok edit) :
    ∃ front back, ∀ body, ∃ edit', (l.withBody pre.length body).filterEdit catalog options = .ok edit' ∧
      (l.withBody pre.length body).outputWith edit'.edits = front ++ '(' :: (body ++ ')' :: back) := by
  have hown : l.withBody pre.length own = l := by
    rw [withBody_eq hitems, Item.withBody, ← hitems]
  have hall : ∀ s, ∃ edit', (l.withBody pre.length s).filterEdit catalog options = .ok edit' := by
    intro s
    obtain ⟨edit', -, -, hedit', -⟩ := filterEdit_emits hitems hsolid (s := own) (hown.symm ▸ h) s
    exact ⟨edit', hedit'⟩
  choose edits hedits using hall
  obtain ⟨front, back, hout⟩ : ∃ front back, ∀ s,
      (l.withBody pre.length s).outputWith (edits s).edits = front ++ '(' :: (s ++ ')' :: back) :=
    exists_around fun s t => by
      obtain ⟨edit', front, back, hedit', hs, ht⟩ := filterEdit_emits hitems hsolid (hedits s) t
      obtain rfl := Except.ok.inj ((hedits t).symm.trans hedit')
      exact ⟨front, back, hs, ht⟩
  exact ⟨front, back, fun s => ⟨edits s, hedits s, hout s⟩⟩

end Emission

end SoftDelete
