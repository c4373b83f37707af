import RegexDialects.Enumeration
import RegexDialects.Proofs.ReadBackShape
import RegexDialects.Proofs.RoundTrip
import RegexDialects.Proofs.Writable

/-!
# Writing and reading keep the list of strings

A tree whose strings can be listed comes back as a tree with the same list: the same strings in the
same order, each as often as before. The limits are checked on the way to the list, at every node,
so it is part of the statement that no check fails that did not fail before.

What decides about a check is the list that it lets through (`product_eq_ok_iff`). Of a tree that is
read back, only sequences are taken together in another way, where texts merge; their products pass
through fewer lists then, and through none that was not there (`sequenceFrom_joinText`).
-/

set_option autoImplicit false

namespace RegexDialects

namespace Enumeration

/-! ## Limits -/

theorem checkCount_eq_ok_iff {n : Nat} {u : Unit} : checkCount n = .ok u ↔ n ≤ maxStrings := by
  unfold checkCount
  split <;> simp_all

theorem checkBytes_eq_ok_iff {n : Nat} {u : Unit} : checkBytes n = .ok u ↔ n ≤ maxBytes := by
  unfold checkBytes
  split <;> simp_all

/-- Whether a list of strings is within the limits. -/
def WithinLimits (l : List String) : Prop :=
  l.length ≤ maxStrings ∧ totalBytes l ≤ maxBytes

/-! ## Products -/

/-- Every string of `left` before every string of `right`, without limits. -/
def cross (left right : List String) : List String :=
  left.flatMap fun s => right.map (s ++ ·)

theorem length_cross (left right : List String) :
    (cross left right).length = left.length * right.length := by
  induction left with
  | nil => simp [cross]
  | cons s left ih =>
    have ih : (left.flatMap fun s => right.map (s ++ ·)).length = left.length * right.length := ih
    rw [cross, List.flatMap_cons, List.length_append, ih, List.length_map, List.length_cons,
      Nat.succ_mul, Nat.add_comm]

theorem totalBytes_append (l m : List String) :
    totalBytes (l ++ m) = totalBytes l + totalBytes m := by
  induction l with
  | nil => rw [List.nil_append, totalBytes, Nat.zero_add]
  | cons s l ih => rw [List.cons_append, totalBytes, totalBytes, ih, Nat.add_assoc]

theorem totalBytes_map_append (s : String) (l : List String) :
    totalBytes (l.map (s ++ ·)) = s.utf8ByteSize * l.length + totalBytes l := by
  induction l with
  | nil => rfl
  | cons t l ih =>
    rw [List.map_cons, totalBytes, totalBytes, ih, List.length_cons, String.utf8ByteSize_append,
      Nat.mul_succ]
    omega

theorem totalBytes_cross (left right : List String) :
    totalBytes (cross left right) =
      totalBytes left * right.length + totalBytes right * left.length := by
  induction left with
  | nil => simp [cross, totalBytes]
  | cons s left ih =>
    have hcross : cross (s :: left) right = right.map (s ++ ·) ++ cross left right :=
      List.flatMap_cons
    rw [hcross, totalBytes_append, totalBytes_map_append, ih, totalBytes, List.length_cons,
      Nat.add_mul, Nat.mul_succ]
    omega

/-- A product is there if it is within the limits. -/
theorem product_eq_ok_iff {left right l : List String} :
    product left right = .ok l ↔ WithinLimits l ∧ l = cross left right := by
  have hproduct : product left right =
      (checkCount (cross left right).length >>= fun _ =>
        checkBytes (totalBytes (cross left right)) >>= fun _ => .ok (cross left right)) := by
    rw [length_cross, totalBytes_cross]
    rfl
  rw [hproduct]
  simp only [bind_eq_ok_iff, checkCount_eq_ok_iff, checkBytes_eq_ok_iff]
  constructor
  · rintro ⟨-, hcount, -, hbytes, hl⟩
    cases hl
    exact ⟨⟨hcount, hbytes⟩, rfl⟩
  · rintro ⟨⟨hcount, hbytes⟩, rfl⟩
    exact ⟨(), hcount, (), hbytes, rfl⟩

theorem cross_singleton (l : List String) (s : String) : cross l [s] = l.map (· ++ s) := by
  rw [cross, List.map_eq_flatMap]
  rfl

/-- Two texts in a row are as good as their concatenation. -/
theorem product_product_text {start l m : List String} {t u : List Char}
    (ht : product start [String.ofList t] = .ok l) (hu : product l [String.ofList u] = .ok m) :
    product start [String.ofList (t ++ u)] = .ok m := by
  obtain ⟨-, rfl⟩ := product_eq_ok_iff.1 ht
  obtain ⟨hm, rfl⟩ := product_eq_ok_iff.1 hu
  refine product_eq_ok_iff.2 ⟨hm, ?_⟩
  rw [cross_singleton, cross_singleton, cross_singleton, List.map_map]
  apply List.map_congr_left
  intro s _
  rw [Function.comp_apply, String.ofList_append, String.append_assoc]

/-! ## Sequences and choices -/

theorem sequenceFrom_cons_eq_ok_iff {start l : List String} {e : Regex} {rest : List Regex} :
    sequenceFrom start (e :: rest) = .ok l ↔
      ∃ found, strings e = .ok found ∧
        ∃ next, product start found = .ok next ∧ sequenceFrom next rest = .ok l := by
  simp only [sequenceFrom, bind_eq_ok_iff]

theorem choiceFrom_cons_eq_ok_iff {count bytes : Nat} {l : List String} {e : Regex}
    {rest : List Regex} :
    choiceFrom count bytes (e :: rest) = .ok l ↔
      ∃ found, strings e = .ok found ∧ count + found.length ≤ maxStrings ∧
        bytes + totalBytes found ≤ maxBytes ∧
        ∃ others, choiceFrom (count + found.length) (bytes + totalBytes found) rest = .ok others ∧
          l = found ++ others := by
  simp only [choiceFrom, bind_eq_ok_iff, checkCount_eq_ok_iff, checkBytes_eq_ok_iff, pure,
    Except.pure, Except.ok.injEq]
  constructor
  · rintro ⟨found, hfound, -, hcount, -, hbytes, others, hothers, rfl⟩
    exact ⟨found, hfound, hcount, hbytes, others, hothers, rfl⟩
  · rintro ⟨found, hfound, hcount, hbytes, others, hothers, rfl⟩
    exact ⟨found, hfound, (), hcount, (), hbytes, others, hothers, rfl⟩

/-- A sequence whose texts are merged has the same strings. -/
theorem sequenceFrom_joinText {start l : List String} {es : List Regex}
    (h : sequenceFrom start es = .ok l) : sequenceFrom start (Regex.joinText es) = .ok l := by
  induction es generalizing start with
  | nil => exact h
  | cons e es ih =>
    obtain ⟨found, hfound, next, hnext, hrest⟩ := sequenceFrom_cons_eq_ok_iff.1 h
    have hrest := ih hrest
    rw [Regex.joinText_cons]
    rcases Regex.glue_cases e (Regex.joinText es) with ⟨t, u, m, rfl, hes, hglue⟩ | ⟨hglue, -⟩
    · -- The text meets another one, whose strings come next.
      rw [hes] at hrest
      obtain ⟨found', hfound', next', hnext', hrest'⟩ := sequenceFrom_cons_eq_ok_iff.1 hrest
      cases hfound
      cases hfound'
      rw [hglue]
      exact sequenceFrom_cons_eq_ok_iff.2
        ⟨_, rfl, next', product_product_text hnext hnext', hrest'⟩
    · rw [hglue]
      exact sequenceFrom_cons_eq_ok_iff.2 ⟨found, hfound, next, hnext, hrest⟩

section Map

variable {f : Regex → Regex}

/-- Parts may be replaced by parts with the same strings. -/
theorem sequenceFrom_map {start l : List String} {es : List Regex}
    (hf : ∀ e ∈ es, ∀ found, strings e = .ok found → strings (f e) = .ok found)
    (h : sequenceFrom start es = .ok l) : sequenceFrom start (es.map f) = .ok l := by
  induction es generalizing start with
  | nil => exact h
  | cons e es ih =>
    obtain ⟨found, hfound, next, hnext, hrest⟩ := sequenceFrom_cons_eq_ok_iff.1 h
    have hf' : ∀ x ∈ es, ∀ found, strings x = .ok found → strings (f x) = .ok found := by
      intro x hx
      exact hf x (List.mem_cons_of_mem _ hx)
    exact sequenceFrom_cons_eq_ok_iff.2
      ⟨found, hf e List.mem_cons_self found hfound, next, hnext, ih hf' hrest⟩

/-- Branches may be replaced by branches with the same strings. -/
theorem choiceFrom_map {count bytes : Nat} {l : List String} {es : List Regex}
    (hf : ∀ e ∈ es, ∀ found, strings e = .ok found → strings (f e) = .ok found)
    (h : choiceFrom count bytes es = .ok l) : choiceFrom count bytes (es.map f) = .ok l := by
  induction es generalizing count bytes l with
  | nil => exact h
  | cons e es ih =>
    obtain ⟨found, hfound, hcount, hbytes, others, hothers, rfl⟩ := choiceFrom_cons_eq_ok_iff.1 h
    have hf' : ∀ x ∈ es, ∀ found, strings x = .ok found → strings (f x) = .ok found := by
      intro x hx
      exact hf x (List.mem_cons_of_mem _ hx)
    exact choiceFrom_cons_eq_ok_iff.2
      ⟨found, hf e List.mem_cons_self found hfound, hcount, hbytes, others, ih hf' hothers, rfl⟩

end Map

theorem exists_strings_of_mem_choice {count bytes : Nat} {l : List String} {es : List Regex}
    (h : choiceFrom count bytes es = .ok l) {e : Regex} (he : e ∈ es) :
    ∃ found, strings e = .ok found := by
  induction es generalizing count bytes l with
  | nil => exact absurd he List.not_mem_nil
  | cons x es ih =>
    obtain ⟨found, hfound, -, -, others, hothers, -⟩ := choiceFrom_cons_eq_ok_iff.1 h
    rcases List.mem_cons.1 he with rfl | he
    · exact ⟨found, hfound⟩
    · exact ih hothers he

end Enumeration

namespace Regex

open Enumeration Form.Pcre

/-! ## What is listed -/

/-- What is listed and has a place in a bracket expression is plain. -/
theorem isPlain_of_bracketItem {e : Regex} {found : List String} (hl : strings e = .ok found)
    {t : List Char} (hb : bracketItem false e = some (.ok t)) : e.isPlain = true := by
  cases e with
  | set s => rfl
  | literal t =>
    match t with
    | [c] => rfl
    | [] => simp [bracketItem] at hb
    | _ :: _ :: _ => simp [bracketItem] at hb
  | primitive p => cases p <;> simp [bracketItem, strings, Primitive.isZeroWidth] at hb hl
  | syntaxClass k => simp [strings] at hl
  | complement e => simp [strings] at hl
  | _ => simp [bracketItem] at hb

/-- A choice that is listed is written branch by branch. -/
theorem writable_branches_of_strings {l : List Regex} {found : List String}
    (he : (choice l).IsNormal) (hw : (choice l).Writable)
    (hl : strings (choice l) = .ok found) :
    isBracketed l = false ∧ ∀ e ∈ l, e.Writable := by
  rcases writable_choice.1 hw with ⟨-, text, hb⟩ | h
  · -- In brackets all branches would be plain, and there would be no choice.
    obtain ⟨e, hel, hplain⟩ := he.2.2
    obtain ⟨t, ht⟩ := bracketItem_of_bracketItems hb hel
    obtain ⟨m, hm⟩ := exists_strings_of_mem_choice hl hel
    rw [isPlain_of_bracketItem hm ht] at hplain
    exact Bool.noConfusion hplain
  · exact h

/-- What is listed and is not plain does not become plain, unless it is a choice. -/
theorem isPlain_readBack_eq_false {e : Regex} {found : List String} (he : e.Fit orderedDemands)
    (hl : strings e = .ok found) (hc : e.isChoice = false) (hp : e.isPlain = false) :
    e.readBack.isPlain = false := by
  cases e with
  | set s => exact Bool.noConfusion hp
  | choice l => exact Bool.noConfusion hc
  | sequence l =>
    rcases readBack_sequence he with ⟨h, -⟩ | ⟨t, -, h, ht⟩
    · rw [h]
      rfl
    · rw [h]
      match t, ht with
      | _ :: _ :: _, _ => rfl
  | syntaxClass k => simp [strings] at hl
  | complement e => simp [strings] at hl
  | intersection l => simp [strings] at hl
  | _ => exact hp

theorem strings_readBackSet {s : CharSet} {found : List String} (hn : s ≠ .empty)
    (hl : charSet s = .ok found) : strings (readBackSet s) = .ok found := by
  rw [readBackSet, if_neg hn]
  cases hc : s.singleChar? with
  | some c =>
    rw [CharSet.singleChar?_eq_some_iff.1 hc] at hl
    obtain ⟨-, -, hl⟩ := bind_eq_ok_iff.1 hl
    cases hl
    rfl
  | none =>
    -- The characters of a named class are not listed.
    have hword : s ≠ .of (.posix .word) := by
      rintro rfl
      simp [charSet, CharSet.of, CharSet.adjoin, CharSet.empty, addNew] at hl
    simp only [if_neg hword]
    exact hl

/-! ## Reading back -/

/-- **Reading back keeps the strings of a tree**, with their order and number, and no limit is hit
    on the way that was not hit before. -/
theorem strings_readBack {e : Regex} {found : List String} (he : e.Fit orderedDemands)
    (hw : e.Writable) (hn : fail ∉ e.nodes) (hl : strings e = .ok found) :
    strings e.readBack = .ok found := by
  induction e using inductionOn generalizing found with
  | sequence l ih =>
    have hfit := (fit_sequence.1 he).2
    have hall := writable_sequence.1 hw
    have hnodes : ∀ e ∈ l, fail ∉ e.nodes := by
      intro e he hf
      exact hn (List.mem_cons_of_mem _ (mem_nodesAll.2 ⟨e, he, hf⟩))
    have hparts : sequenceFrom [""] (l.map readBack) = .ok found := by
      refine sequenceFrom_map ?_ hl
      intro e he m hm
      exact ih e he (hfit e he) (hall e he) (hnodes e he) hm
    have hjoin := sequenceFrom_joinText hparts
    rcases readBack_sequence he with ⟨h, -⟩ | ⟨t, htext, h, -⟩
    · rw [h]
      exact hjoin
    · -- All parts have merged into one text.
      rw [htext, sequenceFrom_cons_eq_ok_iff] at hjoin
      obtain ⟨m, hm, next, hnext, hfound⟩ := hjoin
      cases hm
      cases hfound
      rw [h, (product_eq_ok_iff.1 hnext).2, cross_singleton, List.map_singleton, String.empty_append]
      rfl
  | choice l ih =>
    obtain ⟨hnormal, hfit⟩ := fit_choice.1 he
    obtain ⟨hb, hall⟩ := writable_branches_of_strings hnormal hw hl
    have hnodes : ∀ e ∈ l, fail ∉ e.nodes := by
      intro e he hf
      exact hn (List.mem_cons_of_mem _ (mem_nodesAll.2 ⟨e, he, hf⟩))
    rcases readBack_choice he hb with h | ⟨sets, hsets, -⟩
    · rw [h]
      refine choiceFrom_map ?_ hl
      intro e he m hm
      exact ih e he (hfit e he) (hall e he) (hnodes e he) hm
    · -- Some branch is not plain, and does not become plain.
      obtain ⟨e, hel, hplain⟩ := hnormal.2.2
      obtain ⟨m, hm⟩ := exists_strings_of_mem_choice hl hel
      have hplain' := isPlain_readBack_eq_false (hfit e hel) hm (hnormal.2.1 e hel).1 hplain
      have hnone := mapM_plainSet?_eq_none.2 ⟨_, List.mem_map_of_mem hel, hplain'⟩
      rw [hnone] at hsets
      cases hsets
  | repetition n m g e ih =>
    have he' := (fit_repetition.1 he).2
    have hw' := writable_repetition.1 hw
    have hn' : fail ∉ e.nodes := by
      intro hf
      exact hn (List.mem_cons_of_mem _ hf)
    cases m with
    | none => exact absurd hl (by simp [strings])
    | some m =>
      -- The powers of the body are those of the same list.
      simp only [strings, bind_eq_ok_iff] at hl
      obtain ⟨body, hbody, hl⟩ := hl
      simp only [readBack, strings, bind_eq_ok_iff]
      exact ⟨body, ih he' hw' hn' hbody, hl⟩
  | group e ih =>
    exact ih (fit_group.1 he) (writable_group.1 hw) (fun hf => hn (List.mem_cons_of_mem _ hf)) hl
  | set s => exact strings_readBackSet (fun hs => hn (by simp [nodes, fail, hs])) hl
  | syntaxClass k => simp [strings] at hl
  | complement e _ => simp [strings] at hl
  | intersection l _ => simp [strings] at hl
  | _ => exact hl

/-! ## The round trip -/

/-- **A tree that is written in the notation of PCRE and read again keeps its list of strings**: its
    text is read as a tree with the same list, unless groups and repetitions nest too deep for the
    reader. The set of no character is excluded: its complement is written in its place. -/
theorem enumerate_of_parse_render {e : Regex} (he : e.Built)
    (hr : ∀ s, .set s ∈ e.nodes → ∀ r ∈ s.ranges, r.1 ≤ r.2) (hn : fail ∉ e.nodes)
    {found : List String} (hl : e.enumerate = .ok found) {text : String}
    (h : e.render .pcre = .ok text) :
    (∃ f, Regex.parse .pcre text = .error f ∧ f.kind = .tooDeep) ∨
      ∃ e', Regex.parse .pcre text = .ok e' ∧ e'.enumerate = .ok found := by
  have hfit := fit_orderedDemands he hr
  rcases parse_of_render hfit h with hdeep | hparse
  · exact Or.inl hdeep
  · exact Or.inr ⟨_, hparse, strings_readBack hfit (writable_of_render h) hn hl⟩

/-- A set of one character merges with the text in front of it, and a string is listed twice. -/
theorem enumerate_of_parse_render_merging :
    (seq [.text ['a'], .set (.of (.char 'b')), alt [.text ['x', 'y'], .set (.of (.range 'p' 'q')),
        .text ['x', 'y']]]).enumerate = .ok ["abxy", "abp", "abq", "abxy"] ∧
      ((∃ f, Regex.parse .pcre "ab(?:xy|[p-q]|xy)" = .error f ∧ f.kind = .tooDeep) ∨
        ∃ e', Regex.parse .pcre "ab(?:xy|[p-q]|xy)" = .ok e' ∧
          e'.enumerate = .ok ["abxy", "abp", "abq", "abxy"]) := by
  have hchoice : Built (alt [.text ['x', 'y'], .set (.of (.range 'p' 'q')), .text ['x', 'y']]) := by
    refine .alt ?_
    intro e he
    simp only [List.mem_cons, List.not_mem_nil, or_false] at he
    rcases he with rfl | rfl | rfl
    · exact .text _
    · exact .set (.adjoin .empty nofun)
    · exact .text _
  have hbuilt : Built (seq [.text ['a'], .set (.of (.char 'b')),
      alt [.text ['x', 'y'], .set (.of (.range 'p' 'q')), .text ['x', 'y']]]) := by
    refine .seq ?_
    intro e he
    simp only [List.mem_cons, List.not_mem_nil, or_false] at he
    rcases he with rfl | rfl | rfl
    · exact .text _
    · exact .set (.adjoin .empty nofun)
    · exact hchoice
  have hnodes : (seq [.text ['a'], .set (.of (.char 'b')),
      alt [.text ['x', 'y'], .set (.of (.range 'p' 'q')), .text ['x', 'y']]]).nodes =
      [.sequence [.literal ['a'], .set ⟨['b'], [], []⟩,
        .choice [.literal ['x', 'y'], .set ⟨[], [('p', 'q')], []⟩, .literal ['x', 'y']]],
        .literal ['a'], .set ⟨['b'], [], []⟩,
        .choice [.literal ['x', 'y'], .set ⟨[], [('p', 'q')], []⟩, .literal ['x', 'y']],
        .literal ['x', 'y'], .set ⟨[], [('p', 'q')], []⟩, .literal ['x', 'y']] := by
    rfl
  have hlist : (seq [.text ['a'], .set (.of (.char 'b')), alt [.text ['x', 'y'],
      .set (.of (.range 'p' 'q')), .text ['x', 'y']]]).enumerate =
        .ok ["abxy", "abp", "abq", "abxy"] := by
    rfl
  refine ⟨hlist, enumerate_of_parse_render hbuilt ?_ ?_ hlist rfl⟩
  · intro s hs
    rw [hnodes] at hs
    simp only [List.mem_cons, List.not_mem_nil, or_false, reduceCtorEq, false_or, Regex.set.injEq]
      at hs
    rcases hs with rfl | rfl
    · exact fun _ hr => absurd hr List.not_mem_nil
    · decide
  · rw [hnodes]
    decide

end Regex

end RegexDialects
