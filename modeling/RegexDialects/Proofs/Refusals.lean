import RegexDialects.Proofs.Limits

/-!
# What is refused

The limits are checked on the way to a list, on products and powers that are not finished and on
branches one after the other. As long as nothing on the way is empty, what is checked is no larger
than the list in the end (`WithinLimits.left_of_cross`, `WithinLimits.left_of_append`), so a list
that is within the limits is put together without a refusal.

A set is an exception. It is counted before it is listed, and what counts is how many code points
its ranges span: surrogates as well, of which none is listed, and one for a range that holds nothing
because its ends are in the wrong order (`rangeSpan_eq`). So a tree whose list is within the limits
is refused if one of its sets is counted for too many strings, and in no other case
(`enumerate_iff_counted`).
-/

set_option autoImplicit false

namespace RegexDialects

namespace Enumeration

variable {body start l m : List String}

/-! ## Parts of a list within the limits -/

theorem cross_ne_nil (hl : l ≠ []) (hm : m ≠ []) : cross l m ≠ [] := by
  obtain ⟨s, hs⟩ := List.exists_mem_of_ne_nil l hl
  obtain ⟨t, ht⟩ := List.exists_mem_of_ne_nil m hm
  exact List.ne_nil_of_mem (List.mem_flatMap.2 ⟨s, hs, List.mem_map.2 ⟨t, ht, rfl⟩⟩)

theorem rows_ne_nil (hb : body ≠ []) (n : Nat) : rows body n ≠ [] := by
  induction n with
  | zero => exact List.cons_ne_nil _ _
  | succ n ih => exact cross_ne_nil hb ih

/-- A product is as large as its factors, if these are not empty. -/
theorem WithinLimits.left_of_cross (h : WithinLimits (cross l m)) (hm : m ≠ []) :
    WithinLimits l := by
  obtain ⟨hcount, hbytes⟩ := h
  have hpos : 0 < m.length := List.length_pos_iff.2 hm
  rw [length_cross] at hcount
  rw [totalBytes_cross] at hbytes
  exact ⟨Nat.le_trans (Nat.le_mul_of_pos_right _ hpos) hcount,
    Nat.le_trans (Nat.le_mul_of_pos_right _ hpos) (Nat.le_of_add_right_le hbytes)⟩

theorem WithinLimits.right_of_cross (h : WithinLimits (cross l m)) (hl : l ≠ []) :
    WithinLimits m := by
  obtain ⟨hcount, hbytes⟩ := h
  have hpos : 0 < l.length := List.length_pos_iff.2 hl
  rw [length_cross] at hcount
  rw [totalBytes_cross] at hbytes
  exact ⟨Nat.le_trans (Nat.le_mul_of_pos_left _ hpos) hcount,
    Nat.le_trans (Nat.le_mul_of_pos_right _ hpos) (Nat.le_of_add_left_le hbytes)⟩

theorem WithinLimits.left_of_append (h : WithinLimits (l ++ m)) : WithinLimits l := by
  obtain ⟨hcount, hbytes⟩ := h
  rw [List.length_append] at hcount
  rw [totalBytes_append] at hbytes
  exact ⟨Nat.le_of_add_right_le hcount, Nat.le_of_add_right_le hbytes⟩

theorem WithinLimits.right_of_append (h : WithinLimits (l ++ m)) : WithinLimits m := by
  obtain ⟨hcount, hbytes⟩ := h
  rw [List.length_append] at hcount
  rw [totalBytes_append] at hbytes
  exact ⟨Nat.le_of_add_left_le hcount, Nat.le_of_add_left_le hbytes⟩

/-! ## Powers -/

theorem rowsFrom_succ (body : List String) (least count : Nat) :
    rowsFrom body least (count + 1) = rows body least ++ rowsFrom body (least + 1) count := by
  rw [rowsFrom, List.range'_succ, List.flatMap_cons, rowsFrom]

theorem rowsFrom_concat (body : List String) (least count : Nat) :
    rowsFrom body least (count + 1) = rowsFrom body least count ++ rows body (least + count) := by
  rw [rowsFrom, List.range'_concat, List.flatMap_append, List.flatMap_singleton, Nat.one_mul,
    rowsFrom]

theorem power_eq_ok (hb : body ≠ []) {n : Nat} (hs : start ≠ [])
    (hw : WithinLimits (cross start (rows body n))) :
    power body n start = .ok (cross start (rows body n)) := by
  induction n generalizing start with
  | zero =>
    rw [power, rows, cross_singleton]
    simp only [String.append_empty, List.map_id']
  | succ n ih =>
    rw [rows, ← cross_assoc] at hw ⊢
    have hproduct : product start body = .ok (cross start body) :=
      product_eq_ok_iff.2 ⟨hw.left_of_cross (rows_ne_nil hb n), rfl⟩
    rw [power, if_neg (by simpa using hs), hproduct]
    exact ih (cross_ne_nil hs hb) hw

/-- Powers are added as long as there is room for them. -/
theorem exists_powersFrom (hb : body ≠ []) (found : List (List String)) {n k count bytes : Nat}
    (hcount : count + (rowsFrom body (k + 1) n).length ≤ maxStrings)
    (hbytes : bytes + totalBytes (rowsFrom body (k + 1) n) ≤ maxBytes) :
    ∃ all, powersFrom body n (rows body k) count bytes found = .ok all := by
  induction n generalizing k count bytes found with
  | zero => exact ⟨_, rfl⟩
  | succ n ih =>
    rw [rowsFrom_succ, List.length_append, ← Nat.add_assoc] at hcount
    rw [rowsFrom_succ, totalBytes_append, ← Nat.add_assoc] at hbytes
    have hnext : product (rows body k) body = .ok (rows body (k + 1)) := by
      refine product_eq_ok_iff.2 ⟨⟨?_, ?_⟩, rows_succ body k⟩
      · exact Nat.le_of_add_left_le (Nat.le_of_add_right_le hcount)
      · exact Nat.le_of_add_left_le (Nat.le_of_add_right_le hbytes)
    obtain ⟨all, hall⟩ := ih (rows body k :: found) hcount hbytes
    refine ⟨all, ?_⟩
    rw [powersFrom, if_neg (by simpa using rows_ne_nil hb k)]
    simp only [bind_eq_ok_iff, checkCount_eq_ok_iff, checkBytes_eq_ok_iff]
    exact ⟨_, hnext, (), Nat.le_of_add_right_le hcount, (), Nat.le_of_add_right_le hbytes, hall⟩

theorem repetition_eq_ok {least most : Nat} (hle : least ≤ most) (hb : body ≠ [])
    (hw : WithinLimits (rowsFrom body least (most + 1 - least))) :
    repetition least most body = .ok (rowsFrom body least (most + 1 - least)) := by
  obtain ⟨k, rfl⟩ := Nat.exists_eq_add_of_le hle
  have hcount : least + k + 1 - least = k + 1 := by omega
  rw [hcount] at hw
  have hw' := hw
  rw [rowsFrom_succ] at hw'
  have hfirst : power body least [""] = .ok (rows body least) := by
    have hcross : cross [""] (rows body least) = rows body least := cross_empty_string _
    rw [power_eq_ok hb (List.cons_ne_nil _ _) (hcross.symm ▸ hw'.left_of_append), hcross]
  obtain ⟨all, hall⟩ : ∃ all, powersFrom body k (rows body least) (rows body least).length
      (totalBytes (rows body least)) [] = .ok all := by
    obtain ⟨hlength, htotal⟩ := hw'
    rw [List.length_append] at hlength
    rw [totalBytes_append] at htotal
    exact exists_powersFrom hb [] hlength htotal
  have hok : repetition least (least + k) body = .ok all.reverse.flatten := by
    simp only [repetition, Nat.add_sub_cancel_left, bind_eq_ok_iff]
    exact ⟨_, hfirst, all, hall, rfl⟩
  rw [hok, ← eq_rowsFrom_of_repetition hle hok]

/-- Where there may be a copy, the powers are as large as what is repeated. -/
theorem WithinLimits.body_of_rowsFrom {least most : Nat} (hle : least ≤ most) (hmost : most ≠ 0)
    (hb : body ≠ []) (hw : WithinLimits (rowsFrom body least (most + 1 - least))) :
    WithinLimits body := by
  rw [Nat.succ_sub hle, rowsFrom_concat, Nat.add_sub_cancel' hle] at hw
  obtain ⟨n, rfl⟩ := Nat.exists_eq_succ_of_ne_zero hmost
  exact hw.right_of_append.left_of_cross (rows_ne_nil hb n)

/-! ## Sets -/

/-- How many strings a set is counted for. -/
def counted (s : CharSet) : Nat :=
  s.chars.length + totalSpan s.ranges

/-- What a range is counted for beyond its characters: the surrogates, which are all in it or all
    outside, and one if its ends are in the wrong order. -/
def overcount (r : Char × Char) : Nat :=
  (if r.1.toNat < 0xD800 ∧ 0xDFFF < r.2.toNat then 0x800 else 0) + if r.2 < r.1 then 1 else 0

/-- Of the code points below `up` and not below `lo`, all are characters but the surrogates. -/
theorem length_filter_isValidChar (lo : Nat) {up : Nat} (hup : up ≤ 0x110000) :
    ((List.range up).filter fun n => lo ≤ n ∧ n.isValidChar).length +
      (min up 0xE000 - max lo 0xD800) = up - lo := by
  induction up with
  | zero => simp
  | succ up ih =>
    have ih := ih (Nat.le_of_succ_le hup)
    rw [List.range_succ, List.filter_append, List.length_append]
    by_cases h : lo ≤ up ∧ up.isValidChar
    · have hvalid : up < 0xD800 ∨ (0xDFFF < up ∧ up < 0x110000) := h.2
      rw [List.filter_singleton, decide_eq_true h, cond_true, List.length_singleton]
      omega
    · have hsurrogate : ¬ (lo ≤ up ∧ (up < 0xD800 ∨ (0xDFFF < up ∧ up < 0x110000))) := h
      rw [List.filter_singleton, decide_eq_false h, cond_false, List.length_nil]
      omega

/-- A range is counted for the characters in it and for what it is counted for beyond them. -/
theorem rangeSpan_eq (r : Char × Char) :
    rangeSpan r = (charsBetween r.1 r.2).length + overcount r := by
  have hlo : r.1.toNat < 0xD800 ∨ (0xDFFF < r.1.toNat ∧ r.1.toNat < 0x110000) := r.1.valid
  have hhi : r.2.toNat < 0xD800 ∨ (0xDFFF < r.2.toNat ∧ r.2.toNat < 0x110000) := r.2.valid
  have hlt : r.2 < r.1 ↔ r.2.toNat < r.1.toNat := Iff.rfl
  have hcount := length_filter_isValidChar r.1.toNat (by omega : r.2.toNat + 1 ≤ 0x110000)
  rw [charsBetween, List.length_map]
  unfold rangeSpan overcount
  simp only [hlt]
  split <;> split <;> omega

/-- What ranges are counted for beyond their characters together. -/
def totalOvercount : List (Char × Char) → Nat
  | [] => 0
  | r :: l => overcount r + totalOvercount l

theorem totalSpan_eq (ranges : List (Char × Char)) :
    totalSpan ranges =
      (ranges.flatMap fun r => charsBetween r.1 r.2).length + totalOvercount ranges := by
  induction ranges with
  | nil => rfl
  | cons r ranges ih =>
    rw [totalSpan, rangeSpan_eq, ih, List.flatMap_cons, List.length_append, totalOvercount]
    omega

/-- A set is counted for its strings and for what its ranges are counted for beyond them. -/
theorem counted_eq (s : CharSet) :
    counted s = (Regex.listing (.set s)).length + totalOvercount s.ranges := by
  rw [counted, totalSpan_eq, Regex.listing, List.length_map, List.length_append, Nat.add_assoc]

theorem charSet_eq_error {s : CharSet} (hk : s.classes = []) (h : maxStrings < counted s) :
    charSet s = .error .tooMany := by
  unfold charSet
  rw [hk]
  have hcheck : checkCount (s.chars.length + totalSpan s.ranges) = .error .tooMany := if_pos h
  rw [hcheck]
  rfl

theorem charSet_eq_listing {s : CharSet} (hk : s.classes = []) (h : counted s ≤ maxStrings) :
    charSet s = .ok (Regex.listing (.set s)) := by
  have hcheck : checkCount (s.chars.length + totalSpan s.ranges) = .ok () :=
    checkCount_eq_ok_iff.2 h
  unfold charSet
  rw [hk, Regex.listing, ← funext rangeChars_eq]
  simp only [hcheck]
  rfl

end Enumeration

namespace Regex

open Enumeration

/-! ## Parts of a tree whose list is within the limits -/

theorem foldr_cross_ne_nil {es : List Regex} (hne : ∀ e ∈ es, e.listing ≠ []) :
    (listings es).foldr cross [""] ≠ [] := by
  induction es with
  | nil => exact List.cons_ne_nil _ _
  | cons e es ih =>
    obtain ⟨he, hes⟩ := List.forall_mem_cons.1 hne
    exact cross_ne_nil he (ih hes)

theorem withinLimits_of_mem_sequence {es : List Regex} (hne : ∀ e ∈ es, e.listing ≠ [])
    (hw : WithinLimits ((listings es).foldr cross [""])) : ∀ e ∈ es, WithinLimits e.listing := by
  induction es with
  | nil => exact nofun
  | cons e es ih =>
    obtain ⟨he, hes⟩ := List.forall_mem_cons.1 hne
    rw [listings, List.foldr_cons] at hw
    exact List.forall_mem_cons.2
      ⟨hw.left_of_cross (foldr_cross_ne_nil hes), ih hes (hw.right_of_cross he)⟩

theorem withinLimits_of_mem_choice {es : List Regex} (hw : WithinLimits (listings es).flatten) :
    ∀ e ∈ es, WithinLimits e.listing := by
  induction es with
  | nil => exact nofun
  | cons e es ih =>
    rw [listings, List.flatten_cons] at hw
    exact List.forall_mem_cons.2 ⟨hw.left_of_append, ih hw.right_of_append⟩

/-- What a node holds has a list within the limits if the node has. -/
theorem withinLimits_of_mem_children {e c : Regex} (he : e.Normal) (hlist : e.IsListable)
    (hne : e.Everywhere fun x => x.listing ≠ []) (hw : WithinLimits e.listing)
    (hc : c ∈ e.children) : WithinLimits c.listing := by
  have hcne : ∀ c ∈ e.children, c.listing ≠ [] := fun c hc => (hne.of_mem_children hc).self
  cases e with
  | sequence l => exact withinLimits_of_mem_sequence hcne hw c hc
  | choice l => exact withinLimits_of_mem_choice hw c hc
  | repetition n m g body =>
    cases List.mem_singleton.1 hc
    cases m with
    | none => cases hlist
    | some m =>
      obtain ⟨hle, hmost⟩ := (everywhere_repetition.1 he).1 m rfl
      exact hw.body_of_rowsFrom hle hmost (hcne _ hc)
  | group body =>
    cases List.mem_singleton.1 hc
    exact hw
  | complement body => exact hlist.elim
  | intersection l => exact hlist.elim
  | _ => cases hc

/-! ## Trees -/

/-- Whether a node is no set that is counted for too many strings. -/
def IsCounted : Regex → Prop
  | .set s => counted s ≤ maxStrings
  | _ => True

/-- What is proved about a tree whose list is within the limits: it is listed, unless a set in it is
    counted for too many strings. -/
def ListsCounted (e : Regex) : Prop :=
  (e.Everywhere IsCounted ∧ strings e = .ok e.listing) ∨
    (¬ e.Everywhere IsCounted ∧ strings e = .error .tooMany)

theorem sequenceFrom_cons {start found next : List String} {e : Regex} (es : List Regex)
    (he : strings e = .ok found) (hnext : product start found = .ok next) :
    sequenceFrom start (e :: es) = sequenceFrom next es := by
  rw [sequenceFrom, he]
  show (product start found >>= fun next => sequenceFrom next es) = _
  rw [hnext]
  rfl

theorem choiceFrom_cons {found : List String} {count bytes : Nat} {e : Regex} (es : List Regex)
    (he : strings e = .ok found) (hcount : count + found.length ≤ maxStrings)
    (hbytes : bytes + totalBytes found ≤ maxBytes) :
    choiceFrom count bytes (e :: es) =
      (choiceFrom (count + found.length) (bytes + totalBytes found) es).map (found ++ ·) := by
  have hcheck : checkCount (count + found.length) = .ok () := checkCount_eq_ok_iff.2 hcount
  have hcheck' : checkBytes (bytes + totalBytes found) = .ok () := checkBytes_eq_ok_iff.2 hbytes
  rw [choiceFrom, he]
  simp only [bind, Except.bind, hcheck, hcheck']
  cases choiceFrom (count + found.length) (bytes + totalBytes found) es <;> rfl

/-- The same for one tree after the other. -/
theorem listsCounted_of_sequenceFrom {es : List Regex} (hne : ∀ e ∈ es, e.listing ≠ [])
    (he : ∀ e ∈ es, e.ListsCounted) {start : List String} (hs : start ≠ [])
    (hw : WithinLimits (cross start ((listings es).foldr cross [""]))) :
    ((∀ e ∈ es, e.Everywhere IsCounted) ∧
        sequenceFrom start es = .ok (cross start ((listings es).foldr cross [""]))) ∨
      ((¬ ∀ e ∈ es, e.Everywhere IsCounted) ∧ sequenceFrom start es = .error .tooMany) := by
  induction es generalizing start with
  | nil =>
    refine Or.inl ⟨nofun, ?_⟩
    rw [sequenceFrom, listings, List.foldr_nil, cross_singleton]
    simp only [String.append_empty, List.map_id']
  | cons e es ih =>
    obtain ⟨hfirst, hothers⟩ := List.forall_mem_cons.1 hne
    rw [listings, List.foldr_cons, ← cross_assoc] at hw ⊢
    rcases he e List.mem_cons_self with ⟨hcounted, hok⟩ | ⟨hnot, herror⟩
    · have hproduct : product start e.listing = .ok (cross start e.listing) :=
        product_eq_ok_iff.2 ⟨hw.left_of_cross (foldr_cross_ne_nil hothers), rfl⟩
      rw [sequenceFrom_cons es hok hproduct]
      rcases ih hothers (fun x hx => he x (List.mem_cons_of_mem _ hx))
        (cross_ne_nil hs hfirst) hw with ⟨hall, heq⟩ | ⟨hall, heq⟩
      · exact Or.inl ⟨List.forall_mem_cons.2 ⟨hcounted, hall⟩, heq⟩
      · exact Or.inr ⟨fun h => hall (List.forall_mem_cons.1 h).2, heq⟩
    · refine Or.inr ⟨fun h => hnot (h e List.mem_cons_self), ?_⟩
      rw [sequenceFrom, herror]
      rfl

theorem listsCounted_of_choiceFrom {es : List Regex}
    (he : ∀ e ∈ es, e.ListsCounted) (count bytes : Nat)
    (hcount : count + (listings es).flatten.length ≤ maxStrings)
    (hbytes : bytes + totalBytes (listings es).flatten ≤ maxBytes) :
    ((∀ e ∈ es, e.Everywhere IsCounted) ∧
        choiceFrom count bytes es = .ok (listings es).flatten) ∨
      ((¬ ∀ e ∈ es, e.Everywhere IsCounted) ∧ choiceFrom count bytes es = .error .tooMany) := by
  induction es generalizing count bytes with
  | nil => exact Or.inl ⟨nofun, rfl⟩
  | cons e es ih =>
    rw [listings, List.flatten_cons, List.length_append, ← Nat.add_assoc] at hcount
    rw [listings, List.flatten_cons, totalBytes_append, ← Nat.add_assoc] at hbytes
    have hcount' := Nat.le_of_add_right_le hcount
    have hbytes' := Nat.le_of_add_right_le hbytes
    rcases he e List.mem_cons_self with ⟨hcounted, hok⟩ | ⟨hnot, herror⟩
    · rw [choiceFrom_cons es hok hcount' hbytes']
      rcases ih (fun x hx => he x (List.mem_cons_of_mem _ hx)) _ _ hcount hbytes with
        ⟨hall, heq⟩ | ⟨hall, heq⟩
      · exact Or.inl ⟨List.forall_mem_cons.2 ⟨hcounted, hall⟩, map_eq_ok_iff.2 ⟨_, heq, rfl⟩⟩
      · exact Or.inr ⟨fun h => hall (List.forall_mem_cons.1 h).2, map_eq_error_iff.2 heq⟩
    · refine Or.inr ⟨fun h => hnot (h e List.mem_cons_self), ?_⟩
      rw [choiceFrom, herror]
      rfl

/-- A node whose children are listed as they are counted is so itself. -/
theorem listsCounted_of_children {e : Regex} (he : e.Normal) (hlist : e.IsListable)
    (hne : e.Everywhere fun x => x.listing ≠ []) (hw : WithinLimits e.listing)
    (hc : ∀ c ∈ e.children, c.ListsCounted) : e.ListsCounted := by
  have hcne : ∀ c ∈ e.children, c.listing ≠ [] := fun c hc => (hne.of_mem_children hc).self
  unfold ListsCounted
  cases e with
  | empty => exact Or.inl ⟨everywhere_empty.2 trivial, rfl⟩
  | literal t => exact Or.inl ⟨everywhere_literal.2 trivial, rfl⟩
  | primitive p =>
    have hp : p.isZeroWidth = true := hlist
    refine Or.inl ⟨everywhere_primitive.2 trivial, ?_⟩
    rw [strings, if_pos hp, listing]
  | sequence l =>
    have hcross : cross [""] ((listings l).foldr cross [""]) = listing (.sequence l) :=
      cross_empty_string _
    have hl : ∀ e ∈ l, e.listing ≠ [] := hcne
    have hsequence := listsCounted_of_sequenceFrom hl hc (List.cons_ne_nil "" [])
      (hcross.symm ▸ hw)
    rw [hcross] at hsequence
    rw [everywhere_sequence]
    exact hsequence.imp (fun h => ⟨⟨trivial, h.1⟩, h.2⟩) fun h => ⟨fun hall => h.1 hall.2, h.2⟩
  | choice l =>
    have hchoice := listsCounted_of_choiceFrom hc 0 0
      ((Nat.zero_add _).trans_le hw.1) ((Nat.zero_add _).trans_le hw.2)
    rw [everywhere_choice]
    exact hchoice.imp (fun h => ⟨⟨trivial, h.1⟩, h.2⟩) fun h => ⟨fun hall => h.1 hall.2, h.2⟩
  | repetition n m g body =>
    cases m with
    | none => cases hlist
    | some m =>
      rw [everywhere_repetition]
      rcases hc body List.mem_cons_self with ⟨hcounted, hok⟩ | ⟨hnot, herror⟩
      · refine Or.inl ⟨⟨trivial, hcounted⟩, ?_⟩
        rw [strings, hok]
        exact repetition_eq_ok ((everywhere_repetition.1 he).1 m rfl).1
          (hcne body List.mem_cons_self) hw
      · refine Or.inr ⟨fun h => hnot h.2, ?_⟩
        rw [strings, herror]
        rfl
  | group body =>
    rw [everywhere_group]
    exact (hc body List.mem_cons_self).imp (fun h => ⟨⟨trivial, h.1⟩, h.2⟩)
      fun h => ⟨fun hall => h.1 hall.2, h.2⟩
  | set s =>
    rw [everywhere_set]
    rcases Nat.lt_or_ge maxStrings (counted s) with hlt | hle
    · exact Or.inr ⟨Nat.not_le.2 hlt, charSet_eq_error hlist hlt⟩
    · exact Or.inl ⟨hle, charSet_eq_listing hlist hle⟩
  | _ => exact hlist.elim

/-- A tree whose list is within the limits is refused because of its sets only. -/
theorem Normal.listsCounted {e : Regex} (he : e.Normal) (hlist : e.Everywhere IsListable)
    (hne : e.Everywhere fun x => x.listing ≠ []) (hw : WithinLimits e.listing) :
    e.ListsCounted := by
  induction e using inductionOnChildren with
  | step e ih =>
    refine listsCounted_of_children he hlist.self hne hw ?_
    intro c hc
    exact ih c hc (he.of_mem_children hc) (hlist.of_mem_children hc) (hne.of_mem_children hc)
      (withinLimits_of_mem_children he hlist.self hne hw hc)

/-- **What is refused**: where every node of a tree has strings that are known, and any, and the
    list of the tree is within the limits, that list is returned if and only if no set in the tree
    is counted for too many strings, which is for its own and for what its ranges are counted for
    beyond them; or else the refusal says that there are too many. -/
theorem enumerate_iff_counted {e : Regex} (he : e.Built) (hlist : ∀ x ∈ e.nodes, x.IsListable)
    (hne : ∀ x ∈ e.nodes, x.listing ≠ []) (hw : WithinLimits e.listing) :
    (e.enumerate = .ok e.listing ↔ ∀ s, .set s ∈ e.nodes →
      (Regex.listing (.set s)).length + totalOvercount s.ranges ≤ maxStrings) ∧
      (e.enumerate ≠ .ok e.listing → e.enumerate = .error .tooMany) := by
  have hsets : e.Everywhere IsCounted ↔ ∀ s, .set s ∈ e.nodes →
      (Regex.listing (.set s)).length + totalOvercount s.ranges ≤ maxStrings := by
    constructor
    · intro h s hs
      exact (counted_eq s).symm.trans_le (h _ hs)
    · intro h x hx
      cases x with
      | set s => exact (counted_eq s).trans_le (h s hx)
      | _ => trivial
  rw [← hsets]
  rcases he.fit.normal.listsCounted hlist hne hw with ⟨hall, heq⟩ | ⟨hall, heq⟩
  · exact ⟨⟨fun _ => hall, fun _ => heq⟩, fun h => absurd heq h⟩
  · refine ⟨⟨fun h => ?_, fun h => absurd h hall⟩, fun _ => heq⟩
    exact absurd (heq.symm.trans h) nofun

/-- A set of `x` and of a range with its ends in the wrong order, no more than twice: the range
    holds no character and is counted for one. -/
theorem enumerate_iff_counted_reversed :
    (Regex.repetition 0 (some 2) true (.set ⟨['x'], [('c', 'a')], []⟩)).enumerate =
      .ok ["", "x", "xx"] := by
  have hset : Built (.set ⟨['x'], [('c', 'a')], []⟩) :=
    .set (s := (CharSet.of (.char 'x')).adjoin (.range 'c' 'a'))
      (.adjoin (.adjoin .empty nofun) nofun)
  have hrepeated : repeated 0 (some 2) true (.set ⟨['x'], [('c', 'a')], []⟩) =
      .ok (.repetition 0 (some 2) true (.set ⟨['x'], [('c', 'a')], []⟩)) := rfl
  have hbody : (Regex.set ⟨['x'], [('c', 'a')], []⟩).listing = ["x"] := by decide +kernel
  have hlisting : (Regex.repetition 0 (some 2) true (.set ⟨['x'], [('c', 'a')], []⟩)).listing =
      ["", "x", "xx"] := by
    rw [listing, hbody]
    decide
  have hlistable : ∀ x ∈ (Regex.repetition 0 (some 2) true
      (.set ⟨['x'], [('c', 'a')], []⟩)).nodes, x.IsListable :=
    List.forall_mem_cons.2 ⟨rfl, List.forall_mem_singleton.2 rfl⟩
  have hne : ∀ x ∈ (Regex.repetition 0 (some 2) true
      (.set ⟨['x'], [('c', 'a')], []⟩)).nodes, x.listing ≠ [] :=
    List.forall_mem_cons.2 ⟨hlisting ▸ List.cons_ne_nil _ _,
      List.forall_mem_singleton.2 (hbody ▸ List.cons_ne_nil _ _)⟩
  have hw : WithinLimits (Regex.repetition 0 (some 2) true
      (.set ⟨['x'], [('c', 'a')], []⟩)).listing := by
    rw [hlisting]
    exact ⟨by decide, by decide⟩
  rw [← hlisting]
  refine (enumerate_iff_counted (.repeated hset ⟨by decide, by decide⟩ hrepeated) hlistable hne
    hw).1.2 ?_
  intro s hs
  cases List.mem_singleton.1 ((List.mem_cons.1 hs).resolve_left nofun)
  rw [hbody]
  decide

/-- **A refusal may be wrong**: `[a-\x{f42a1}]` has 997953 strings of one character each, which is
    within the limits, and is refused for having more than a million. The surrogates are counted. -/
theorem tooMany_of_surrogates :
    Regex.parse .pcre "[a-\\x\x7bf42a1\x7d]" =
        .ok (.set ⟨[], [('a', Char.ofNat 0xF42A1)], []⟩) ∧
      Built (.set ⟨[], [('a', Char.ofNat 0xF42A1)], []⟩) ∧
      (∀ x ∈ (Regex.set ⟨[], [('a', Char.ofNat 0xF42A1)], []⟩).nodes, x.IsListable) ∧
      (∀ x ∈ (Regex.set ⟨[], [('a', Char.ofNat 0xF42A1)], []⟩).nodes, x.listing ≠ []) ∧
      WithinLimits (Regex.set ⟨[], [('a', Char.ofNat 0xF42A1)], []⟩).listing ∧
      (Regex.set ⟨[], [('a', Char.ofNat 0xF42A1)], []⟩).enumerate = .error .tooMany := by
  have hspan : counted ⟨[], [('a', Char.ofNat 0xF42A1)], []⟩ = 1000001 := by decide
  have hlength : (Regex.set ⟨[], [('a', Char.ofNat 0xF42A1)], []⟩).listing.length = 997953 := by
    have hover : totalOvercount [('a', Char.ofNat 0xF42A1)] = 0x800 := by decide
    have hcounted : 997953 + 0x800 = _ + 0x800 :=
      hspan.symm.trans ((counted_eq _).trans (congrArg _ hover))
    exact (Nat.add_right_cancel hcounted).symm
  refine ⟨parse_eq_of_toOption (by decide +kernel), ?_, ?_, ?_, ?_, ?_⟩
  · exact .set (s := CharSet.empty.adjoin (.range 'a' (Char.ofNat 0xF42A1))) (.adjoin .empty nofun)
  · exact List.forall_mem_singleton.2 rfl
  · refine List.forall_mem_singleton.2 (List.ne_nil_of_length_pos ?_)
    rw [hlength]
    decide
  · rw [listing, List.length_map] at hlength
    rw [listing]
    exact withinLimits_singletons (hlength ▸ by decide)
  · exact charSet_eq_error (s := ⟨[], [('a', Char.ofNat 0xF42A1)], []⟩) rfl (hspan ▸ by decide)

end Regex

end RegexDialects
