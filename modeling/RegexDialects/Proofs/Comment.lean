import RegexDialects.Proofs.Alongside
import RegexDialects.Proofs.Invariant
import RegexDialects.Proofs.ReadBackShape

/-!
# Comments

A comment is an empty piece (`LastPiece.read_comment`). At the end of a pattern that makes no
difference, but a quantifier behind it applies to the comment and not to the piece in front. So a
comment is not transparent there, unless that piece is as empty as the comment (`parse_comment`).

The two trees are told apart by their widths: the piece that no quantifier applies to is there in
addition to one that a quantifier applies to. A choice does not hide the difference, since branches
fold into a set only if all of them are one character wide (`eq_or_isPlain_of_alt`).
-/

set_option autoImplicit false

namespace RegexDialects.Regex

open Pattern Pattern.Pcre

variable {e x y : Regex} {l m n : List Regex}

/-! ## Widths -/

theorem totalWidth_append (l m : List Regex) :
    totalWidth (l ++ m) = totalWidth l + totalWidth m := by
  induction l with
  | nil => exact (Nat.zero_add _).symm
  | cons e l ih => rw [List.cons_append, totalWidth, totalWidth, ih, Nat.add_assoc]

/-- What is not empty has a part. -/
theorem totalWidth_parts_pos {D : Demands} (h : e.Fit D) (hne : e ≠ .empty) :
    1 ≤ totalWidth e.parts := by
  cases hp : e.isPart with
  | true =>
    rw [parts_of_isPart hp]
    exact width_pos h.isNormal
  | false =>
    cases e with
    | empty => exact absurd rfl hne
    | sequence l =>
      obtain ⟨hnormal, hl⟩ := fit_sequence.1 h
      rw [parts, partsAll_of_isPart fun x hx => hnormal.isPart_of_mem hx]
      calc 1 ≤ l.length := Nat.le_of_succ_le hnormal.1
        _ ≤ totalWidth l := length_le_totalWidth fun x hx => (hl x hx).isNormal
    | _ => cases hp

theorem totalWidth_parts_of_isPlain (h : e.isPlain = true) : totalWidth e.parts = 1 := by
  rcases isPlain_iff.1 h with ⟨s, rfl⟩ | ⟨c, rfl⟩ <;> rfl

theorem totalWidth_parts_seq (l : List Regex) :
    totalWidth (seq l).parts = totalWidth (partsAll l) := by
  rw [parts_seq, totalWidth_joinText]

/-! ## Branches -/

/-- A tree is plain if all of its branches are. -/
theorem isPlain_ofBranches (l : List Regex) :
    (ofBranches l).isPlain = true ↔ ∀ e ∈ l, e.isPlain = true := by
  match l with
  | [] => exact ⟨fun _ => nofun, fun _ => rfl⟩
  | [e] => simp only [ofBranches, List.mem_singleton, forall_eq]
  | e :: f :: l =>
    cases hm : (e :: f :: l).mapM plainSet? with
    | none =>
      rw [ofBranches_of_not_plain hm]
      obtain ⟨x, hx, hplain⟩ := mapM_plainSet?_eq_none.1 hm
      exact ⟨fun h => Bool.noConfusion h, fun h => absurd (h x hx) (by simp [hplain])⟩
    | some sets =>
      rw [ofBranches_of_plain hm]
      refine ⟨fun _ x hx => ?_, fun _ => rfl⟩
      obtain ⟨s, -, hs⟩ := exists_plainSet?_of_mapM hm hx
      exact Option.isSome_of_eq_some hs

/-- Branches that do not fold are those of the tree they make. -/
theorem branches_ofBranches (hl : ∀ e ∈ l, e.isChoice = false ∧ e ≠ fail)
    (h : (ofBranches l).isPlain = false) : (ofBranches l).branches = l := by
  match l with
  | [] => cases h
  | [e] =>
    obtain ⟨hc, hf⟩ := hl e List.mem_cons_self
    exact branches_of_ne hc hf
  | e :: f :: l =>
    cases hm : (e :: f :: l).mapM plainSet? with
    | none => rw [ofBranches_of_not_plain hm, branches]
    | some sets =>
      rw [ofBranches_of_plain hm] at h
      cases h

theorem ofBranches_branches (h : e.IsNormal) : ofBranches e.branches = e := by
  have halt := alt_singleton h
  rwa [alt_eq_ofBranches, List.flatMap_singleton] at halt

/-- What a tree contributes to a choice can stand in one. -/
theorem isBranch_of_mem_flatMap (hl : ∀ e ∈ l, e.IsNormal) (hx : x ∈ l.flatMap branches) :
    x.isChoice = false ∧ x ≠ fail := by
  obtain ⟨e, he, hx⟩ := List.mem_flatMap.1 hx
  rcases mem_branches hx with ⟨k, rfl, hx⟩ | ⟨rfl, hbranch⟩
  · exact (hl _ he).2.1 x hx
  · exact hbranch

/-- One branch can be told from a choice if the others are known, unless it is plain. -/
theorem eq_or_isPlain_of_alt (hx : ∀ e ∈ l ++ x :: m, e.IsNormal)
    (hy : ∀ e ∈ l ++ y :: m, e.IsNormal) (h : alt (l ++ x :: m) = alt (l ++ y :: m)) :
    x = y ∨ (x.isPlain = true ∧ y.isPlain = true) := by
  have hmem : ∀ z : Regex, z ∈ l ++ z :: m := fun z => List.mem_append_right l List.mem_cons_self
  have hxx := ofBranches_branches (hx x (hmem x))
  have hyy := ofBranches_branches (hy y (hmem y))
  rw [alt_eq_ofBranches, alt_eq_ofBranches] at h
  cases hp : (ofBranches ((l ++ x :: m).flatMap branches)).isPlain with
  | true =>
    refine Or.inr ⟨?_, ?_⟩
    · rw [← hxx, isPlain_ofBranches]
      intro b hb
      exact (isPlain_ofBranches _).1 hp b (List.mem_flatMap.2 ⟨x, hmem x, hb⟩)
    · rw [← hyy, isPlain_ofBranches]
      intro b hb
      exact (isPlain_ofBranches _).1 (h ▸ hp) b (List.mem_flatMap.2 ⟨y, hmem y, hb⟩)
  | false =>
    have hbranches : (l ++ x :: m).flatMap branches = (l ++ y :: m).flatMap branches := by
      rw [← branches_ofBranches (fun _ hb => isBranch_of_mem_flatMap hx hb) hp, h,
        branches_ofBranches (fun _ hb => isBranch_of_mem_flatMap hy hb) (h ▸ hp)]
    simp only [List.flatMap_append, List.flatMap_cons, List.append_cancel_left_eq,
      List.append_cancel_right_eq] at hbranches
    exact Or.inl (by rw [← hxx, ← hyy, hbranches])

end RegexDialects.Regex

namespace RegexDialects.Pattern.Pcre

open Regex

variable {e : Regex} {l m n : List Regex}

/-! ## An empty piece with quantifiers -/

theorem Twins.totalWidth_eq {x y : Regex} (h : Twins e x y) :
    totalWidth x.parts = totalWidth y.parts := by
  obtain ⟨qs, hne, rfl, rfl⟩ := h
  -- After a quantifier a tree is empty or a repetition, whatever it was before.
  obtain ⟨qs', q, rfl⟩ := (List.eq_nil_or_concat qs).resolve_left hne
  rw [List.concat_eq_append, applyAll_append, applyAll_append]
  show totalWidth (q.apply _).parts = totalWidth (q.apply _).parts
  unfold Quantifier.apply
  split <;> rfl

theorem Beside.partsAll_eq (h : Beside .empty l m n) :
    partsAll n.reverse = partsAll m.reverse := by
  induction h with
  | twins ht =>
    obtain ⟨qs, -, rfl, rfl⟩ := ht
    simp [partsAll_append, partsAll, parts]
  | cons z _ ih => rw [List.reverse_cons, List.reverse_cons, partsAll_append, partsAll_append, ih]

theorem Beside.totalWidth_eq (h : Beside e l m n) :
    totalWidth (partsAll n.reverse) = totalWidth (partsAll m.reverse) + totalWidth e.parts := by
  induction h with
  | twins ht =>
    have heq := ht.totalWidth_eq
    simp only [List.reverse_cons, partsAll_append, partsAll, totalWidth_append, List.append_nil]
    omega
  | cons z _ ih =>
    simp only [List.reverse_cons, partsAll_append, totalWidth_append, ih]
    omega

/-- The trees of the two readings are the same only if the piece in front is empty. -/
theorem BesideIn.alt_eq_iff {before a b : List Regex} (h : BesideIn e l before a b)
    (he : e.Fit readDemands) (ha : ∀ x ∈ a, x.Fit readDemands) (hb : ∀ x ∈ b, x.Fit readDemands) :
    alt b = alt a ↔ e = .empty := by
  obtain ⟨m, n, after, hmn, rfl, rfl⟩ := h
  constructor
  · intro heq
    by_contra hne
    have hpos := totalWidth_parts_pos he hne
    have hwidth := hmn.totalWidth_eq
    rw [← totalWidth_parts_seq, ← totalWidth_parts_seq] at hwidth
    rcases eq_or_isPlain_of_alt (fun x hx => (hb x hx).isNormal) (fun x hx => (ha x hx).isNormal)
      heq with hsame | ⟨hn, hm⟩
    · rw [hsame] at hwidth
      omega
    · rw [totalWidth_parts_of_isPlain hn, totalWidth_parts_of_isPlain hm] at hwidth
      omega
  · rintro rfl
    rw [seq_eq_ofParts, hmn.partsAll_eq, ← seq_eq_ofParts]

/-! ## Reading a comment -/

/-- A comment. -/
def comment (text : List Char) : List Char :=
  '(' :: '?' :: '#' :: (text ++ [')'])

theorem commentEnd_append (whole : List Char) {text : List Char} (h : ')' ∉ text)
    (rest : List Char) :
    Opening.commentEnd whole (text ++ ')' :: rest) = .ok (.comment, rest) := by
  induction text with
  | nil => rfl
  | cons c text ih =>
    rw [List.mem_cons, not_or] at h
    rw [List.cons_append, Opening.commentEnd, if_neg (Ne.symm h.1), ih h.2]

theorem atom_comment (levels : Nat) (flags : Flags) {text : List Char} (h : ')' ∉ text)
    (rest : List Char) (groups : Nat) :
    atom (below (levels + 1)) flags ⟨comment text ++ rest, groups⟩ =
      .ok (.piece .empty, ⟨rest, groups⟩) := by
  have hopen : ∀ whole, Opening.read whole flags ('?' :: '#' :: (text ++ [')'] ++ rest)) =
      .ok (.comment, rest) := by
    intro whole
    rw [List.append_assoc]
    exact commentEnd_append whole h rest
  show group (some (expression levels)) flags ⟨'?' :: '#' :: (text ++ [')'] ++ rest), groups⟩ = _
  simp only [group, hopen]

section

variable {text c : List Char}

/-- Behind a comment the pattern goes on with an empty piece, and quantifiers there apply to it. -/
theorem LastPiece.read_comment (p : LastPiece text e) (hp : Plain text) (hc : ')' ∉ c)
    (after : List Char) :
    branches (below maxDepth) maxDepth noFlags ⟨text ++ (comment c ++ after), 0⟩ =
      addPiece maxDepth p.done.flags (e :: p.done.pieces) .empty ⟨after, p.groups⟩ >>= fun r =>
        Place.readOn maxDepth ⟨p.before, r.1, r.2⟩ := by
  have hends : EndsBounds (comment c ++ after) := endsBounds_cons rfl _
  have hskip : skip p.done.flags (comment c ++ after) = comment c ++ after :=
    skip_cons p.done.flags rfl (by decide) _
  have hpiece := addPiece_of_skip maxDepth p.done.pieces e p.groups hskip
    (readQuantifier?_of_ne (by decide) rfl _)
  have hcur := skip_cursor p.groups hskip
  rw [p.read_append hp hends, hpiece]
  refine Place.readOn_of_piece ⟨p.before, _, _⟩ ?_ ?_
  · rw [hcur]
    rfl
  · rw [hcur]
    exact atom_comment _ p.done.flags hc after p.groups

/-- What a quantifier can begin with. -/
theorem head_of_readQuantifier? {after : List Char} (hq : readQuantifier? after ≠ .ok none) :
    ∃ d rest, after = d :: rest ∧ (d = '*' ∨ d = '+' ∨ d = '?' ∨ d = '{') := by
  cases after with
  | nil => exact absurd rfl hq
  | cons d rest =>
    refine ⟨d, rest, rfl, ?_⟩
    by_contra hd
    rw [not_or, not_or, not_or] at hd
    obtain ⟨hstar, hplus, hmark, hbrace⟩ := hd
    refine hq (readQuantifier?_of_ne hbrace ?_ rest)
    unfold operatorBounds?
    rw [if_neg hstar, if_neg hplus, if_neg hmark]

/-- In front of a quantifier the pattern is read as it is with a comment there, except that the
    quantifiers apply to the comment. -/
theorem LastPiece.alongside_comment (p : LastPiece text e) (hp : Plain text) (hc : ')' ∉ c)
    {after : List Char} (hq : readQuantifier? after ≠ .ok none) :
    Alongside (BesideIn e p.done.pieces p.before)
      (branches (below maxDepth) maxDepth noFlags ⟨text ++ after, 0⟩)
      (branches (below maxDepth) maxDepth noFlags ⟨text ++ (comment c ++ after), 0⟩) := by
  obtain ⟨d, rest, rfl, hd⟩ := head_of_readQuantifier? hq
  have hends : EndsBounds (d :: rest) := by
    rcases hd with rfl | rfl | rfl | rfl <;> exact endsBounds_cons rfl rest
  have hskip : skip p.done.flags (d :: rest) = d :: rest := by
    rcases hd with rfl | rfl | rfl | rfl <;> exact skip_cons p.done.flags rfl (by decide) rest
  rw [p.read_append hp hends, p.read_comment hp hc]
  refine Alongside.bind (R := Abreast e p.done.pieces) ?_ ?_
  · apply alongside_addPiece maxDepth (Nat.zero_le _)
    intro qs rest' hrow
    have hread : (quantifiers p.done.flags).read? ((quantifiers p.done.flags).skip (d :: rest)) ≠
        .ok none := by
      show readQuantifier? (skip p.done.flags (d :: rest)) ≠ .ok none
      rwa [hskip]
    exact ⟨.twins ⟨qs, readRow_ne_nil hread hrow, rfl, rfl⟩, rfl⟩
  · rintro a b cur - hab
    exact alongside_readOn maxDepth p.before hab cur

/-- At the end of a pattern a comment is one more piece, which is empty. -/
theorem LastPiece.branches_comment (p : LastPiece text e) (hp : Plain text) (hc : ')' ∉ c) :
    ∃ l, branches (below maxDepth) maxDepth noFlags ⟨text, 0⟩ = .ok (l, ⟨[], p.groups⟩) ∧
      branches (below maxDepth) maxDepth noFlags ⟨text ++ comment c, 0⟩ =
        .ok (l, ⟨[], p.groups⟩) := by
  have hskip : skip p.done.flags [] = [] := List.suffix_nil.1 (skip_suffix p.done.flags [])
  have hpiece := fun pieces x => addPiece_of_skip maxDepth pieces x p.groups hskip rfl
  have hend : ∀ pieces, Place.readOn maxDepth ⟨p.before, ⟨pieces, p.done.flags⟩, ⟨[], p.groups⟩⟩ =
      .ok (p.before ++ [.seq pieces.reverse], ⟨[], p.groups⟩) := by
    intro pieces
    have hcur := skip_cursor p.groups hskip
    unfold Place.readOn
    rw [steps_eq_ok _ (by rw [hcur]; rfl), hcur]
    rfl
  have hread := p.read_append hp endsBounds_nil
  have hcomment := p.read_comment hp hc []
  rw [List.append_nil, hpiece] at hread hcomment
  have hseq : seq (.empty :: e :: p.done.pieces).reverse = seq (e :: p.done.pieces).reverse := by
    rw [List.reverse_cons, seq_eq_ofParts, partsAll_append, seq_eq_ofParts]
    simp [partsAll, parts]
  refine ⟨_, hread.trans (hend (e :: p.done.pieces)), hcomment.trans ?_⟩
  rw [← hseq]
  exact hend (.empty :: e :: p.done.pieces)

end

/-! ## Patterns -/

theorem ascent_readDemands :
    Ascent (fun _ => Fit readDemands) (fun _ => Fit readDemands) (fun _ => Fit readDemands) :=
  .of_assembly assembly_readDemands.toAssembly

theorem fit_branches {cur next : Cursor} {flags : Flags} {levels : Nat}
    (h : branches (below levels) levels flags cur = .ok (l, next)) :
    ∀ x ∈ l, x.Fit readDemands :=
  (keeps_branches ascent_readDemands (fun n _ => ascent_readDemands.expression n) h).2

theorem LastPiece.fit {text : List Char} (p : LastPiece text e) : e.Fit readDemands :=
  keeps_atom ascent_readDemands (fun n _ => ascent_readDemands.expression n) p.atom

/-- What a pattern is read as, if its branches are read as `r`. -/
def conclude (pattern : List Char) (r : Except Fault (List Regex × Cursor)) :
    Except ParseError Regex :=
  match r with
  | .error f => .error (f.report pattern)
  | .ok (l, ⟨[], _⟩) => .ok (.alt l)
  | .ok (_, ⟨rest, _⟩) => .error (Fault.report pattern ⟨.unmatchedParen, rest, rest⟩)

theorem parse_eq_conclude (pattern : List Char) :
    parse pattern =
      conclude pattern (branches (below maxDepth) maxDepth noFlags ⟨pattern, 0⟩) := by
  have hread : (expression maxDepth).read noFlags ⟨pattern, 0⟩ =
      alternation (below maxDepth) maxDepth noFlags ⟨pattern, 0⟩ := by
    rw [expression_eq]
    rfl
  unfold parse conclude
  rw [hread, alternation]
  cases branches (below maxDepth) maxDepth noFlags ⟨pattern, 0⟩ with
  | error f => rfl
  | ok r =>
    obtain ⟨l, rest, groups⟩ := r
    cases rest <;> rfl

/-- What two readings side by side amount to: trees that are the same only if the piece in front is
    empty, or refusals for the same cause. -/
theorem Alongside.conclude {before : List Regex} {r r' : Except Fault (List Regex × Cursor)}
    (h : Alongside (BesideIn e l before) r r') (he : e.Fit readDemands)
    (hr : ∀ {a next}, r = .ok (a, next) → ∀ x ∈ a, x.Fit readDemands)
    (hr' : ∀ {b next}, r' = .ok (b, next) → ∀ x ∈ b, x.Fit readDemands)
    (pattern pattern' : List Char) :
    (∀ t, Pcre.conclude pattern r = .ok t →
        ∃ t', Pcre.conclude pattern' r' = .ok t' ∧ (t' = t ↔ e = .empty)) ∧
      ∀ f, Pcre.conclude pattern r = .error f → f.kind ≠ .tooDeep →
        ∃ f', Pcre.conclude pattern' r' = .error f' ∧ f'.kind = f.kind ∧
          f'.fragment = f.fragment := by
  match r with
  | .error f =>
    refine ⟨nofun, ?_⟩
    rintro _ ⟨⟩ hk
    rw [Or.resolve_left h hk]
    exact ⟨_, rfl, rfl, rfl⟩
  | .ok (a, ⟨rest, groups⟩) =>
    obtain ⟨b, rfl, hab⟩ := h
    cases rest with
    | nil =>
      refine ⟨?_, nofun⟩
      rintro _ ⟨⟩
      exact ⟨_, rfl, hab.alt_eq_iff he (hr rfl) (hr' rfl)⟩
    | cons d rest =>
      refine ⟨nofun, ?_⟩
      rintro _ ⟨⟩ -
      exact ⟨_, rfl, rfl, rfl⟩

end RegexDialects.Pattern.Pcre

namespace RegexDialects.Regex

open Pattern Pattern.Pcre

/-- **A comment keeps a quantifier from the piece in front of it.** A pattern with a last piece `e`
    is accepted, and a comment at its end changes nothing. In front of a quantifier the pattern is
    still accepted if it was without the comment, and refused for the same cause if it was not,
    unless for its depth; but the tree is another one, unless `e` is empty. -/
theorem parse_comment {u c : String} {e : Regex} (p : LastPiece u.toList e)
    (hp : Plain u.toList) (hc : ')' ∉ c.toList) :
    (∃ t, Regex.parse .pcre u = .ok t ∧ Regex.parse .pcre (u ++ "(?#" ++ c ++ ")") = .ok t) ∧
      ∀ v : String, readQuantifier? v.toList ≠ .ok none →
        (∀ t, Regex.parse .pcre (u ++ v) = .ok t →
          ∃ t', Regex.parse .pcre (u ++ "(?#" ++ c ++ ")" ++ v) = .ok t' ∧ (t' = t ↔ e = .empty)) ∧
        ∀ f, Regex.parse .pcre (u ++ v) = .error f → f.kind ≠ .tooDeep →
          ∃ f', Regex.parse .pcre (u ++ "(?#" ++ c ++ ")" ++ v) = .error f' ∧
            f'.kind = f.kind ∧ f'.fragment = f.fragment := by
  have hread : ∀ {pattern : String} {text : List Char}, pattern.toList = text →
      Regex.parse .pcre pattern =
        conclude text (Pcre.branches (below maxDepth) maxDepth noFlags ⟨text, 0⟩) := by
    rintro pattern text rfl
    exact parse_eq_conclude _
  have hcomment : (u ++ "(?#" ++ c ++ ")").toList = u.toList ++ comment c.toList := by
    simp [comment]
  refine ⟨?_, ?_⟩
  · obtain ⟨l, hu, huc⟩ := p.branches_comment hp hc
    rw [hread hcomment, hread rfl, hu, huc]
    exact ⟨alt l, rfl, rfl⟩
  · intro v hq
    have huv : (u ++ v).toList = u.toList ++ v.toList := String.toList_append
    have hucv : (u ++ "(?#" ++ c ++ ")" ++ v).toList =
        u.toList ++ (comment c.toList ++ v.toList) := by
      rw [String.toList_append, hcomment, List.append_assoc]
    rw [hread huv, hread hucv]
    exact (p.alongside_comment hp hc hq).conclude p.fit fit_branches fit_branches _ _

/-- The last piece of `b|a`: the `a`, behind a step and a bar. -/
def lastPiece_branch : LastPiece "b|a".toList (.literal ['a']) where
  before := [.literal ['b']]
  done := ⟨[], noFlags⟩
  cur := ⟨['a'], 0⟩
  groups := 0
  reaches := .step rfl rfl (.bar rfl (.refl _))
  not_ends := rfl
  not_escape := by decide
  atom := rfl

/-- A comment behind `b|a`, at the end and in front of a star. -/
theorem parse_comment_branch :
    Plain "b|a".toList ∧ ')' ∉ "c".toList ∧ readQuantifier? "*".toList ≠ .ok none ∧
      (∃ t, Regex.parse .pcre "b|a" = .ok t ∧ Regex.parse .pcre "b|a(?#c)" = .ok t) ∧
      ∃ t t', Regex.parse .pcre "b|a*" = .ok t ∧ Regex.parse .pcre "b|a(?#c)*" = .ok t' ∧
        t' ≠ t := by
  have hp : Plain "b|a".toList := ⟨by decide, by decide⟩
  have hc : ')' ∉ "c".toList := by decide
  have hq : readQuantifier? "*".toList ≠ .ok none := by decide
  have hstar : Regex.parse .pcre "b|a*" =
      .ok (.choice [.literal ['b'], .repetition 0 none true (.literal ['a'])]) :=
    parse_eq_of_toOption (by decide +kernel)
  obtain ⟨hend, hquantified⟩ := parse_comment lastPiece_branch hp hc
  obtain ⟨t', ht', hiff⟩ := (hquantified "*" hq).1 _ hstar
  refine ⟨hp, hc, hq, hend, _, t', hstar, ht', ?_⟩
  rw [ne_eq, hiff]
  nofun

/-- In `a(?#c)*` the star repeats the comment; in `a*` it repeats the character. -/
theorem parse_comment_star :
    Nonempty (LastPiece "a".toList (.literal ['a'])) ∧ Plain "a".toList ∧ ')' ∉ "c".toList ∧
      Regex.parse .pcre "a(?#c)*" =
        .ok (.sequence [.literal ['a'], .repetition 0 none true .empty]) ∧
      Regex.parse .pcre "a*" = .ok (.repetition 0 none true (.literal ['a'])) ∧
      Regex.parse .pcre "a(?#c)*" ≠ Regex.parse .pcre "a*" := by
  have hcomment : Regex.parse .pcre "a(?#c)*" =
      .ok (.sequence [.literal ['a'], .repetition 0 none true .empty]) :=
    parse_eq_of_toOption (by decide +kernel)
  have hstar : Regex.parse .pcre "a*" = .ok (.repetition 0 none true (.literal ['a'])) :=
    parse_eq_of_toOption (by decide +kernel)
  have hlast : LastPiece "a".toList (.literal ['a']) :=
    ⟨.start ['a'], 0, .refl _, rfl, by decide, rfl⟩
  refine ⟨⟨hlast⟩, ⟨by decide, by decide⟩, by decide, hcomment, hstar, ?_⟩
  rw [hcomment, hstar]
  nofun

end RegexDialects.Regex
