import RegexDialects.Proofs.BracketSpelling
import RegexDialects.Proofs.Captures
import RegexDialects.Proofs.PcreAssembly
import RegexDialects.Proofs.QuantifierSpelling

/-!
# Pieces of text that are read

What the reader of PCRE makes of a piece of text, whatever stands behind it and at whatever level of
nesting: an atom (`ReadsAtom`), pieces of a branch (`ReadsPieces`), a whole expression
(`ReadsExpression`). Each is a statement about the reader, and says how many levels the text needs:
with fewer the reader gives up because groups and repetitions nest too deep, with as many or more it
returns what it should (`Settles`). A reading opens as many groups as the tree has. The rules that
follow combine them as the notation combines texts: pieces stand side by side, branches have bars
between them, an expression in parentheses is an atom, and an atom with a quantifier is a piece.

Two texts side by side could be taken for something else in two ways, and what may follow a text
says that they are not (`Follows`): a quantifier behind a piece would apply to it, and a digit
behind a back reference would be part of its number.
-/

set_option autoImplicit false

namespace RegexDialects.Pattern.Pcre

open Regex

/-! ## Readings that may nest too deep -/

/-- Whether a reading gave up because of nesting. -/
def IsTooDeep {α : Type} (r : Except Fault α) : Prop :=
  ∃ f, r = .error f ∧ f.kind = .tooDeep

/-- What becomes of a reading that needs `need` levels when `levels` are left: it gives up because
    of nesting if these are too few, and is `v` if they are not. -/
def Settles {α : Type} (need levels : Nat) (r v : Except Fault α) : Prop :=
  (levels < need ∧ IsTooDeep r) ∨ (need ≤ levels ∧ r = v)

section Settles

variable {α β : Type} {need need' levels : Nat} {r v w : Except Fault α} {r' v' : Except Fault β}

theorem settles_of_le (hle : need ≤ levels) (h : r = v) : Settles need levels r v :=
  Or.inr ⟨hle, h⟩

theorem Settles.outcome (h : Settles need levels r v) : IsTooDeep r ∨ r = v :=
  h.imp And.right And.right

theorem Settles.imp (h : Settles need levels r v) (hdeep : IsTooDeep r → IsTooDeep r')
    (heq : r = v → r' = v') : Settles need levels r' v' :=
  Or.imp (And.imp_right hdeep) (And.imp_right heq) h

/-- A group takes a level. -/
theorem Settles.succ (h : Settles need levels r v) : Settles (need + 1) (levels + 1) r v :=
  Or.imp (And.imp_left Nat.succ_lt_succ) (And.imp_left Nat.succ_le_succ) h

/-- A reading that goes on needs as many levels as the more demanding of its two parts. -/
theorem Settles.trans (h : Settles need levels r v) (h' : Settles need' levels v w) :
    Settles (max need need') levels r w := by
  rcases h with ⟨hlt, hdeep⟩ | ⟨hle, rfl⟩
  · exact Or.inl ⟨Nat.lt_of_lt_of_le hlt (Nat.le_max_left _ _), hdeep⟩
  · rcases h' with ⟨hlt, hdeep⟩ | ⟨hle', rfl⟩
    · exact Or.inl ⟨Nat.lt_of_lt_of_le hlt (Nat.le_max_right _ _), hdeep⟩
    · exact Or.inr ⟨Nat.max_le.2 ⟨hle, hle'⟩, rfl⟩

end Settles

/-! ## What may follow -/

/-- Whether `text` begins like a piece: with a character that is no operator. -/
def Starts (text : List Char) : Prop :=
  ∃ c l, text = c :: l ∧ quantifies c = false ∧ c ≠ '|' ∧ c ≠ ')'

theorem starts_cons {c : Char} (h : (quantifies c || c == '|' || c == ')') = false)
    (text : List Char) : Starts (c :: text) := by
  simp only [Bool.or_eq_false_iff, beq_eq_false_iff_ne] at h
  exact ⟨c, text, rfl, h.1.1, h.1.2, h.2⟩

theorem Starts.append {text : List Char} (h : Starts text) (rest : List Char) :
    Starts (text ++ rest) := by
  obtain ⟨c, l, rfl, hq, hb⟩ := h
  exact ⟨c, l ++ rest, rfl, hq, hb⟩

theorem Starts.not_ends {text : List Char} (h : Starts text) : branchEnds text = false := by
  obtain ⟨c, l, rfl, -, hbar, hparen⟩ := h
  simp [branchEnds, hbar, hparen]

theorem Starts.follows {text : List Char} (h : Starts text) : Follows false text := by
  obtain ⟨c, l, rfl, hq, -⟩ := h
  intro d hd
  cases hd
  refine ⟨hq, ?_⟩
  intro h
  cases h

theorem Starts.quantifies {text : List Char} (h : Starts text) :
    ∀ c ∈ text.head?, quantifies c = false := by
  intro c hc
  exact (h.follows c hc).1

/-- The end of a branch may stand behind anything. -/
theorem follows_of_branchEnds {rest : List Char} (h : branchEnds rest = true) (isRef : Bool) :
    Follows isRef rest := by
  intro c hc
  cases rest with
  | nil => cases hc
  | cons d l =>
    cases hc
    simp only [branchEnds, Bool.or_eq_true, beq_iff_eq] at h
    rcases h with rfl | rfl <;> exact ⟨rfl, fun _ => rfl⟩

/-! ## Readings of texts -/

/-- `text` needs `need` levels and is read as the atom `e`, unless it is a back reference and a
    digit follows. -/
structure ReadsAtom (isRef : Bool) (need : Nat) (text : List Char) (e : Regex) : Prop where
  starts : Starts text
  read : ∀ levels groups rest, (isRef = true → ∀ c ∈ rest.head?, c.isDigit = false) →
    Settles need levels (atom (below levels) noFlags ⟨text ++ rest, groups⟩)
      (.ok (.piece e, ⟨rest, groups + e.captures.length⟩))

/-- `text` needs `need` levels and is read as the pieces `l`: a branch that goes on with it goes on
    behind it with these pieces added. `isRef` says whether the last of them is a back reference. -/
def ReadsPieces (isRef : Bool) (need : Nat) (text : List Char) (l : List Regex) : Prop :=
  ∀ levels pieces groups rest, Follows isRef rest →
    Settles need levels (steps (below levels) levels ⟨pieces, noFlags⟩ ⟨text ++ rest, groups⟩)
      (steps (below levels) levels ⟨l.reverse ++ pieces, noFlags⟩
        ⟨rest, groups + (l.flatMap captures).length⟩)

/-- `text` needs `need` levels and is read as the branches `l`. -/
def ReadsBranches (need : Nat) (text : List Char) (l : List Regex) : Prop :=
  ∀ levels groups rest, (∀ c ∈ rest.head?, c = ')') →
    Settles need levels (branches (below levels) levels noFlags ⟨text ++ rest, groups⟩)
      (.ok (l, ⟨rest, groups + (l.flatMap captures).length⟩))

/-- `text` needs `need` levels and is read as the expression `e`; it cannot be taken for the opening
    of a special group. -/
structure ReadsExpression (need : Nat) (text : List Char) (e : Regex) : Prop where
  head : ∀ c ∈ text.head?, quantifies c = false
  read : ∀ levels groups rest, (∀ c ∈ rest.head?, c = ')') →
    Settles need levels ((expression levels).read noFlags ⟨text ++ rest, groups⟩)
      (.ok (e, ⟨rest, groups + e.captures.length⟩))

theorem ReadsAtom.strengthen {isRef : Bool} {need : Nat} {text : List Char} {e : Regex}
    (h : ReadsAtom false need text e) : ReadsAtom isRef need text e := by
  refine ⟨h.starts, ?_⟩
  intro levels groups rest _
  exact h.read levels groups rest nofun

/-! ## Pieces side by side -/

theorem readsPieces_nil (isRef : Bool) : ReadsPieces isRef 0 [] [] := by
  intro levels pieces groups rest _
  exact settles_of_le (Nat.zero_le levels) rfl

theorem ReadsPieces.strengthen {isRef : Bool} {need : Nat} {text : List Char} {l : List Regex}
    (h : ReadsPieces false need text l) : ReadsPieces isRef need text l := by
  intro levels pieces groups rest hrest
  exact h levels pieces groups rest hrest.weaken

theorem ReadsPieces.append {isRef isRef' : Bool} {need need' : Nat} {text text' : List Char}
    {l l' : List Regex} (h : ReadsPieces isRef need text l) (h' : ReadsPieces isRef' need' text' l')
    (hf : ∀ rest, Follows isRef' rest → Follows isRef (text' ++ rest)) :
    ReadsPieces isRef' (max need need') (text ++ text') (l ++ l') := by
  intro levels pieces groups rest hrest
  -- The pieces are kept in reverse, so those of the second text come first.
  rw [List.append_assoc, List.reverse_append, List.append_assoc, List.flatMap_append,
    List.length_append, ← Nat.add_assoc]
  exact (h levels pieces groups _ (hf rest hrest)).trans (h' levels _ _ rest hrest)

theorem skip_eq (dotAll : Bool) (cur : Cursor) : cur.skip ⟨false, dotAll⟩ = cur := rfl

theorem steps_eq_ok {deeper : Option Inside} {levels : Nat} (done : Progress) {cur : Cursor}
    (h : branchEnds (cur.skip done.flags).rest = true) :
    steps deeper levels done cur = .ok (done, cur.skip done.flags) := by
  unfold steps
  exact if_pos h

/-- A branch that does not end goes on behind its next step. -/
theorem steps_eq_bind {deeper : Option Inside} {levels : Nat} (done : Progress) {cur : Cursor}
    (hn : branchEnds (cur.skip done.flags).rest = false) :
    steps deeper levels done cur =
      step deeper levels done (cur.skip done.flags) >>= fun r => steps deeper levels r.1 r.2 := by
  conv_lhs => unfold steps
  rw [hn, if_neg Bool.false_ne_true]
  split
  · next heq =>
    simp only [heq]
    rfl
  · next heq =>
    simp only [heq]
    rfl

theorem steps_eq_error {deeper : Option Inside} {levels : Nat} (done : Progress) {cur : Cursor}
    (hn : branchEnds (cur.skip done.flags).rest = false) {f : Fault}
    (h : step deeper levels done (cur.skip done.flags) = .error f) :
    steps deeper levels done cur = .error f := by
  rw [steps_eq_bind done hn, h]
  rfl

/-- Nothing is skipped in front of a character that is neither blank nor begins a comment. -/
theorem skip_cons (flags : Flags) {c : Char} (hb : isBlank c = false) (hc : c ≠ '#')
    (text : List Char) : skip flags (c :: text) = c :: text := by
  unfold skip
  split
  · simp [dropIgnored, hb, hc]
  · rfl

theorem skip_cursor {flags : Flags} {text : List Char} (groups : Nat)
    (h : skip flags text = text) : Cursor.skip flags ⟨text, groups⟩ = ⟨text, groups⟩ :=
  congrArg (Cursor.mk · groups) h

/-- A branch that does not end, and where nothing is skipped, goes on behind its next piece. -/
theorem steps_of_piece {deeper : Option Inside} (levels : Nat) (done : Progress) {text : List Char}
    {groups : Nat} {e : Regex} {next : Cursor} (hskip : skip done.flags text = text)
    (hn : branchEnds text = false)
    (h : atom deeper done.flags ⟨text, groups⟩ = .ok (.piece e, next)) :
    steps deeper levels done ⟨text, groups⟩ =
      addPiece levels done.flags done.pieces e next >>= fun r => steps deeper levels r.1 r.2 := by
  have hcur := skip_cursor groups hskip
  rw [steps_eq_bind done (by rw [hcur]; exact hn), hcur]
  unfold step
  rw [h]
  rfl

theorem steps_of_ends {deeper : Option Inside} {levels : Nat} {pieces : List Regex} {dotAll : Bool}
    {cur : Cursor} (h : branchEnds cur.rest = true) :
    steps deeper levels ⟨pieces, ⟨false, dotAll⟩⟩ cur = .ok (⟨pieces, ⟨false, dotAll⟩⟩, cur) :=
  steps_eq_ok ⟨pieces, ⟨false, dotAll⟩⟩ h

theorem steps_of_step_error {deeper : Option Inside} {levels : Nat} {pieces : List Regex}
    {cur : Cursor} (hn : branchEnds cur.rest = false) {f : Fault}
    (h : step deeper levels ⟨pieces, noFlags⟩ cur = .error f) :
    steps deeper levels ⟨pieces, noFlags⟩ cur = .error f :=
  steps_eq_error ⟨pieces, noFlags⟩ hn h

theorem steps_of_step_ok {deeper : Option Inside} {levels : Nat} {pieces : List Regex}
    {dotAll : Bool} {cur cur' : Cursor} (hn : branchEnds cur.rest = false) {done : Progress}
    (h : step deeper levels ⟨pieces, ⟨false, dotAll⟩⟩ cur = .ok (done, cur')) :
    steps deeper levels ⟨pieces, ⟨false, dotAll⟩⟩ cur = steps deeper levels done cur' := by
  rw [steps_eq_bind ⟨pieces, ⟨false, dotAll⟩⟩ hn, skip_eq, h]
  rfl

/-! ## Atoms and their quantifiers -/

/-- What a branch does with an atom that is followed by `rest`, and by the quantifiers there. -/
theorem step_of_atom {deeper : Option Inside} (levels : Nat) (pieces : List Regex) {dotAll : Bool}
    {groups : Nat} {cur : Cursor} {e : Regex} {rest : List Char}
    (h : atom deeper ⟨false, dotAll⟩ cur = .ok (.piece e, ⟨rest, groups⟩)) :
    step deeper levels ⟨pieces, ⟨false, dotAll⟩⟩ cur =
      match quantified (quantifiers ⟨false, dotAll⟩) (levels - e.repeatDepth) e rest with
      | .error f => .error f
      | .ok (e, rest) => .ok (⟨e :: pieces, ⟨false, dotAll⟩⟩, ⟨rest, groups⟩) := by
  unfold step
  rw [h]
  rfl

theorem step_of_atom_tooDeep {deeper : Option Inside} {levels : Nat} {pieces : List Regex}
    {cur : Cursor} (h : IsTooDeep (atom deeper noFlags cur)) :
    IsTooDeep (step deeper levels ⟨pieces, noFlags⟩ cur) := by
  obtain ⟨f, heq, hk⟩ := h
  refine ⟨f, ?_, hk⟩
  unfold step
  rw [heq]

theorem quantified_of_skip {flags : Flags} {budget : Nat} {e : Regex} {rest : List Char}
    (hskip : skip flags rest = rest) (h : readQuantifier? rest = .ok none) :
    quantified (quantifiers flags) budget e rest = .ok (e, rest) := by
  have hread : (quantifiers flags).skip rest = rest := hskip
  unfold quantified
  rw [hread, show (quantifiers flags).read? rest = .ok none from h]

/-- In front of no quantifier a piece stays what it is. -/
theorem addPiece_of_skip (levels : Nat) {flags : Flags} (pieces : List Regex) (e : Regex)
    {rest : List Char} (groups : Nat) (hskip : skip flags rest = rest)
    (h : readQuantifier? rest = .ok none) :
    addPiece levels flags pieces e ⟨rest, groups⟩ =
      .ok (⟨e :: pieces, flags⟩, ⟨rest, groups⟩) := by
  unfold addPiece
  rw [quantified_of_skip hskip h]

theorem quantified_of_none {dotAll : Bool} {budget : Nat} {e : Regex} {rest : List Char}
    (h : readQuantifier? rest = .ok none) :
    quantified (quantifiers ⟨false, dotAll⟩) budget e rest = .ok (e, rest) :=
  quantified_of_skip rfl h

theorem not_isInverted {q : Quantifier} (h : ∀ m ∈ q.most, q.least ≤ m) : q.isInverted = false := by
  unfold Quantifier.isInverted
  split
  · next m heq =>
    rw [decide_eq_false_iff_not]
    exact Nat.not_lt.2 (h m heq)
  · rfl

/-- Where no level is left for a repetition, a quantifier is too many. -/
theorem quantified_tooDeep (e : Regex) {text rest : List Char} {q : Quantifier}
    (hq : ∀ m ∈ q.most, q.least ≤ m) (h : readQuantifier? text = .ok (some (q, rest))) :
    IsTooDeep (quantified (quantifiers noFlags) 0 e text) := by
  have hread : (quantifiers noFlags).read? ((quantifiers noFlags).skip text) =
      .ok (some (q, rest)) := h
  unfold quantified
  rw [hread]
  simp only [not_isInverted hq, Bool.false_eq_true, if_false]
  exact ⟨_, rfl, rfl⟩

/-- One quantifier behind a tree makes it a repetition. -/
theorem quantified_of_some (budget : Nat) (e : Regex) {text rest : List Char} {q : Quantifier}
    (hq : ∀ m ∈ q.most, q.least ≤ m ∧ m ≠ 0)
    (h : readQuantifier? text = .ok (some (q, rest))) (hrest : readQuantifier? rest = .ok none) :
    quantified (quantifiers noFlags) (budget + 1) e text =
      .ok (.repetition q.least q.most q.greedy e, rest) := by
  have hread : (quantifiers noFlags).read? ((quantifiers noFlags).skip text) =
      .ok (some (q, rest)) := h
  -- The bounds are those of a repetition already, so nothing is simplified.
  have hrep : repeated q.least q.most q.greedy e =
      .ok (.repetition q.least q.most q.greedy e) := by
    unfold repeated
    cases hm : q.most with
    | none => rfl
    | some m =>
      obtain ⟨hle, h0⟩ := hq m hm
      simp only [Nat.not_lt.2 hle, h0, if_false]
  unfold quantified
  rw [hread]
  simp only [not_isInverted fun m hm => (hq m hm).1, Bool.false_eq_true, if_false, hrep,
    quantified_of_none hrest]

theorem steps_of_tooDeep {deeper : Option Inside} {levels : Nat} {pieces : List Regex}
    {cur : Cursor} (hn : branchEnds cur.rest = false)
    (h : IsTooDeep (step deeper levels ⟨pieces, noFlags⟩ cur)) :
    IsTooDeep (steps deeper levels ⟨pieces, noFlags⟩ cur) := by
  obtain ⟨f, heq, hk⟩ := h
  exact ⟨f, steps_of_step_error hn heq, hk⟩

theorem steps_of_atom_tooDeep {deeper : Option Inside} {levels : Nat} {pieces : List Regex}
    {cur : Cursor} (hn : branchEnds cur.rest = false) (h : IsTooDeep (atom deeper noFlags cur)) :
    IsTooDeep (steps deeper levels ⟨pieces, noFlags⟩ cur) :=
  steps_of_tooDeep hn (step_of_atom_tooDeep h)

/-- A branch that begins with an atom goes on behind it, if no quantifier is there. -/
theorem steps_of_atom_ok {deeper : Option Inside} (levels : Nat) (pieces : List Regex)
    {cur : Cursor} {e : Regex} {isRef : Bool} {rest : List Char} {groups : Nat}
    (hn : branchEnds cur.rest = false) (hrest : Follows isRef rest)
    (h : atom deeper noFlags cur = .ok (.piece e, ⟨rest, groups⟩)) :
    steps deeper levels ⟨pieces, noFlags⟩ cur =
      steps deeper levels ⟨e :: pieces, noFlags⟩ ⟨rest, groups⟩ := by
  apply steps_of_step_ok hn
  rw [step_of_atom levels pieces h, quantified_of_none (readQuantifier?_of_follows hrest)]

theorem steps_of_atom {deeper : Option Inside} (levels : Nat) (pieces : List Regex) {cur : Cursor}
    {e : Regex} {isRef : Bool} {rest : List Char} {groups : Nat}
    (hn : branchEnds cur.rest = false) (hrest : Follows isRef rest)
    (h : IsTooDeep (atom deeper noFlags cur) ∨
      atom deeper noFlags cur = .ok (.piece e, ⟨rest, groups⟩)) :
    IsTooDeep (steps deeper levels ⟨pieces, noFlags⟩ cur) ∨
      steps deeper levels ⟨pieces, noFlags⟩ cur =
        steps deeper levels ⟨e :: pieces, noFlags⟩ ⟨rest, groups⟩ :=
  h.imp (steps_of_atom_tooDeep hn) (steps_of_atom_ok levels pieces hn hrest)

/-- An atom is a piece. -/
theorem ReadsAtom.pieces {isRef : Bool} {need : Nat} {text : List Char} {e : Regex}
    (h : ReadsAtom isRef need text e) : ReadsPieces isRef need text [e] := by
  intro levels pieces groups rest hrest
  rw [List.flatMap_singleton]
  have hn := (h.starts.append rest).not_ends
  refine (h.read levels groups rest ?_).imp (steps_of_atom_tooDeep hn)
    (steps_of_atom_ok levels pieces hn hrest)
  intro hr c hc
  exact (hrest c hc).2 hr

/-- A branch that begins with an atom and one quantifier goes on behind them, if a level is left for
    the repetition. -/
theorem settles_quantified_atom {deeper : Option Inside} (levels : Nat) (pieces : List Regex)
    {cur : Cursor} {e : Regex} {text rest : List Char} {groups : Nat} {q : Quantifier}
    (hn : branchEnds cur.rest = false) (hq : ∀ m ∈ q.most, q.least ≤ m ∧ m ≠ 0)
    (hread : readQuantifier? text = .ok (some (q, rest)))
    (hrest : readQuantifier? rest = .ok none)
    (h : atom deeper noFlags cur = .ok (.piece e, ⟨text, groups⟩)) :
    Settles (e.repeatDepth + 1) levels (steps deeper levels ⟨pieces, noFlags⟩ cur)
      (steps deeper levels ⟨.repetition q.least q.most q.greedy e :: pieces, noFlags⟩
        ⟨rest, groups⟩) := by
  have hstep := step_of_atom levels pieces h
  by_cases hlt : e.repeatDepth < levels
  · obtain ⟨budget, hbudget⟩ := Nat.exists_eq_succ_of_ne_zero (Nat.sub_ne_zero_of_lt hlt)
    rw [hbudget, quantified_of_some budget e hq hread hrest] at hstep
    exact Or.inr ⟨hlt, steps_of_step_ok hn hstep⟩
  · obtain ⟨f, hdeep, hk⟩ := quantified_tooDeep e (fun m hm => (hq m hm).1) hread
    rw [Nat.sub_eq_zero_of_le (Nat.le_of_not_lt hlt), hdeep] at hstep
    exact Or.inl ⟨Nat.lt_succ_of_le (Nat.le_of_not_lt hlt), steps_of_tooDeep hn ⟨f, hstep, hk⟩⟩

theorem steps_of_quantified_atom {deeper : Option Inside} (levels : Nat) (pieces : List Regex)
    {cur : Cursor} {e : Regex} {text rest : List Char} {groups : Nat} {q : Quantifier}
    (hn : branchEnds cur.rest = false) (hq : ∀ m ∈ q.most, q.least ≤ m ∧ m ≠ 0)
    (hread : readQuantifier? text = .ok (some (q, rest)))
    (hrest : readQuantifier? rest = .ok none)
    (h : IsTooDeep (atom deeper noFlags cur) ∨
      atom deeper noFlags cur = .ok (.piece e, ⟨text, groups⟩)) :
    IsTooDeep (steps deeper levels ⟨pieces, noFlags⟩ cur) ∨
      steps deeper levels ⟨pieces, noFlags⟩ cur =
        steps deeper levels ⟨.repetition q.least q.most q.greedy e :: pieces, noFlags⟩
          ⟨rest, groups⟩ := by
  rcases h with hdeep | hatom
  · exact Or.inl (steps_of_atom_tooDeep hn hdeep)
  · exact (settles_quantified_atom levels pieces hn hq hread hrest hatom).outcome

open Form.Pcre in
/-- An atom with a quantifier is a piece. -/
theorem ReadsAtom.quantified {isRef : Bool} {need : Nat} {text : List Char} {e : Regex}
    (h : ReadsAtom isRef need text e) {least : Nat} {most : Option Nat} (greedy : Bool)
    (hb : BoundsFit least most) (hm : ∀ m ∈ most, least ≤ m ∧ m ≠ 0) :
    ReadsPieces false (max need (e.repeatDepth + 1))
      (text ++ quantifier least most ++ if greedy then [] else ['?'])
      [.repetition least most greedy e] := by
  intro levels pieces groups rest hrest
  have hq := readQuantifier?_quantifier greedy hb hrest
  rw [List.append_assoc, List.append_assoc, List.flatMap_singleton, captures_repetition]
  have hn := (h.starts.append
    (quantifier least most ++ ((if greedy then [] else ['?']) ++ rest))).not_ends
  rcases h.read levels groups _ (fun _ c hc => isDigit_head_quantifier hc) with
    ⟨hlt, hdeep⟩ | ⟨hle, hatom⟩
  · exact Or.inl ⟨Nat.lt_of_lt_of_le hlt (Nat.le_max_left _ _), steps_of_atom_tooDeep hn hdeep⟩
  · exact (settles_of_le hle rfl).trans (settles_quantified_atom levels pieces hn hm hq
      (readQuantifier?_of_follows hrest) hatom)

/-! ## Branches and expressions -/

theorem branch_of_steps {deeper : Option Inside} {levels groups : Nat} {dotAll : Bool}
    {cur : Cursor} {l : List Regex} {rest : List Char}
    (h : steps deeper levels ⟨[], ⟨false, dotAll⟩⟩ cur =
      steps deeper levels ⟨l.reverse, ⟨false, dotAll⟩⟩ ⟨rest, groups⟩)
    (hrest : branchEnds rest = true) :
    branch deeper levels ⟨false, dotAll⟩ cur = .ok ((seq l, ⟨false, dotAll⟩), ⟨rest, groups⟩) := by
  rw [steps_of_ends (show branchEnds (Cursor.mk rest groups).rest = true from hrest)] at h
  unfold branch
  rw [h]
  simp only [List.reverse_reverse]

theorem branch_of_tooDeep {deeper : Option Inside} {levels : Nat} {cur : Cursor}
    (h : IsTooDeep (steps deeper levels ⟨[], noFlags⟩ cur)) :
    IsTooDeep (branch deeper levels noFlags cur) := by
  obtain ⟨f, heq, hk⟩ := h
  refine ⟨f, ?_, hk⟩
  unfold branch
  rw [heq]

/-- A branch that was read to its end. -/
theorem branch_of_outcome {deeper : Option Inside} {levels : Nat} {cur : Cursor}
    {l : List Regex} {rest : List Char} {groups : Nat} (hrest : branchEnds rest = true)
    (h : IsTooDeep (steps deeper levels ⟨[], noFlags⟩ cur) ∨
      steps deeper levels ⟨[], noFlags⟩ cur =
        steps deeper levels ⟨l.reverse, noFlags⟩ ⟨rest, groups⟩) :
    IsTooDeep (branch deeper levels noFlags cur) ∨
      branch deeper levels noFlags cur = .ok ((seq l, noFlags), ⟨rest, groups⟩) :=
  h.imp branch_of_tooDeep fun heq => branch_of_steps heq hrest

theorem ReadsPieces.branch {isRef : Bool} {need : Nat} {text : List Char} {l : List Regex}
    (h : ReadsPieces isRef need text l) (levels groups : Nat) (rest : List Char)
    (hrest : branchEnds rest = true) :
    Settles need levels (branch (below levels) levels noFlags ⟨text ++ rest, groups⟩)
      (.ok ((seq l, noFlags), ⟨rest, groups + (l.flatMap captures).length⟩)) := by
  have hsteps := h levels [] groups rest (follows_of_branchEnds hrest isRef)
  rw [List.append_nil] at hsteps
  exact hsteps.imp branch_of_tooDeep fun heq => branch_of_steps heq hrest

theorem branches_of_error {deeper : Option Inside} {levels : Nat} {flags : Flags} {cur : Cursor}
    {f : Fault} (h : branch deeper levels flags cur = .error f) :
    branches deeper levels flags cur = .error f := by
  unfold branches
  split
  · next heq =>
    rw [h] at heq
    cases heq
    rfl
  · next heq =>
    rw [h] at heq
    cases heq
  · next heq =>
    rw [h] at heq
    cases heq

theorem bar_ne_paren : '|' ≠ ')' := by
  decide

theorem branches_of_not_bar {deeper : Option Inside} {levels groups : Nat} {flags flags' : Flags}
    {cur : Cursor} {e : Regex} {rest : List Char}
    (h : branch deeper levels flags cur = .ok ((e, flags'), ⟨rest, groups⟩))
    (hrest : ∀ l, rest ≠ '|' :: l) :
    branches deeper levels flags cur = .ok ([e], ⟨rest, groups⟩) := by
  unfold branches
  split
  · next heq =>
    rw [h] at heq
    cases heq
  · next heq =>
    rw [h] at heq
    cases heq
    exact absurd rfl (hrest _)
  · next heq =>
    rw [h] at heq
    cases heq
    rfl

theorem branches_of_last {deeper : Option Inside} {levels groups : Nat} {flags flags' : Flags}
    {cur : Cursor} {e : Regex} {rest : List Char}
    (h : branch deeper levels flags cur = .ok ((e, flags'), ⟨rest, groups⟩))
    (hrest : ∀ c ∈ rest.head?, c = ')') :
    branches deeper levels flags cur = .ok ([e], ⟨rest, groups⟩) := by
  apply branches_of_not_bar h
  rintro l rfl
  exact bar_ne_paren (hrest _ rfl)

theorem branches_of_bar {deeper : Option Inside} {levels groups : Nat} {flags flags' : Flags}
    {cur : Cursor} {e : Regex} {rest : List Char}
    (h : branch deeper levels flags cur = .ok ((e, flags'), ⟨'|' :: rest, groups⟩)) :
    branches deeper levels flags cur =
      match branches deeper levels flags' ⟨rest, groups⟩ with
      | .error f => .error f
      | .ok (l, last) => .ok (e :: l, last) := by
  conv_lhs => unfold branches
  split
  · next heq =>
    rw [h] at heq
    cases heq
  · next heq =>
    rw [h] at heq
    cases heq
    rfl
  · next hbar heq =>
    rw [h] at heq
    cases heq
    exact (hbar _ _ rfl).elim

theorem branchEnds_of_paren {rest : List Char} (h : ∀ c ∈ rest.head?, c = ')') :
    branchEnds rest = true := by
  cases rest with
  | nil => rfl
  | cons c l =>
    rw [h c rfl]
    rfl

theorem branches_of_tooDeep {deeper : Option Inside} {levels : Nat} {flags : Flags} {cur : Cursor}
    (h : IsTooDeep (branch deeper levels flags cur)) :
    IsTooDeep (branches deeper levels flags cur) := by
  obtain ⟨f, heq, hk⟩ := h
  exact ⟨f, branches_of_error heq, hk⟩

theorem ReadsPieces.last {isRef : Bool} {need : Nat} {text : List Char} {l : List Regex}
    (h : ReadsPieces isRef need text l) : ReadsBranches need text [seq l] := by
  intro levels groups rest hrest
  rw [List.flatMap_singleton, captures_seq]
  exact (h.branch levels groups rest (branchEnds_of_paren hrest)).imp branches_of_tooDeep
    fun heq => branches_of_last heq hrest

/-- A bar stands between branches. -/
theorem ReadsPieces.bar {isRef : Bool} {need need' : Nat} {text text' : List Char}
    {l l' : List Regex} (h : ReadsPieces isRef need text l) (h' : ReadsBranches need' text' l') :
    ReadsBranches (max need need') (text ++ '|' :: text') (seq l :: l') := by
  intro levels groups rest hrest
  rw [List.append_assoc, List.cons_append, List.flatMap_cons, captures_seq, List.length_append,
    ← Nat.add_assoc]
  have hfirst := (h.branch levels groups ('|' :: (text' ++ rest)) rfl).imp branches_of_tooDeep
    branches_of_bar
  refine hfirst.trans ((h' levels (groups + (l.flatMap captures).length) rest hrest).imp ?_ ?_)
  · rintro ⟨f, heq, hk⟩
    rw [heq]
    exact ⟨f, rfl, hk⟩
  · intro heq
    rw [heq]

theorem ReadsBranches.expression {need : Nat} {text : List Char} {l : List Regex}
    (h : ReadsBranches need text l) (hhead : ∀ c ∈ text.head?, quantifies c = false) :
    ReadsExpression need text (alt l) := by
  refine ⟨hhead, ?_⟩
  intro levels groups rest hrest
  rw [expression_eq, captures_alt]
  show Settles need levels (alternation (below levels) levels noFlags ⟨text ++ rest, groups⟩) _
  unfold alternation
  refine (h levels groups rest hrest).imp ?_ ?_
  · rintro ⟨f, heq, hk⟩
    rw [heq]
    exact ⟨f, rfl, hk⟩
  · intro heq
    rw [heq]

/-! ## Groups -/

theorem groupBody_of_ok {inside : Inside} {whole : List Char} {flags : Flags} {cur : Cursor}
    {e : Regex} {rest : List Char} {groups : Nat}
    (h : inside.read flags cur = .ok (e, ⟨')' :: rest, groups⟩)) :
    groupBody inside whole flags cur = .ok (e, ⟨rest, groups⟩) := by
  unfold groupBody
  rw [h]
  rfl

theorem groupBody_of_tooDeep (whole : List Char) {inside : Inside} {flags : Flags} {cur : Cursor}
    (h : IsTooDeep (inside.read flags cur)) : IsTooDeep (groupBody inside whole flags cur) := by
  obtain ⟨f, heq, hk⟩ := h
  refine ⟨f, ?_, hk⟩
  unfold groupBody
  rw [heq]

theorem starts_paren (text : List Char) : Starts ('(' :: text) :=
  starts_cons rfl text

theorem head_paren (rest : List Char) : ∀ c ∈ (')' :: rest).head?, c = ')' := by
  intro c hc
  cases hc
  rfl

/-- Where no level is left for it, a group nests too deep. -/
theorem group_tooDeep (flags : Flags) (text : List Char) (groups : Nat) :
    IsTooDeep (atom none flags ⟨'(' :: text, groups⟩) :=
  ⟨_, rfl, rfl⟩

section Shy

variable {inside : Inside} {flags inner : Flags} {text rest : List Char} {groups : Nat}

theorem shy_tooDeep (hopen : ∀ whole, Opening.read whole flags text = .ok (.shy inner, rest))
    (h : IsTooDeep (inside.read inner ⟨rest, groups⟩)) :
    IsTooDeep (atom (some inside) flags ⟨'(' :: text, groups⟩) := by
  show IsTooDeep (group (some inside) flags ⟨text, groups⟩)
  obtain ⟨f, hf, hk⟩ := groupBody_of_tooDeep ('(' :: text) h
  simp only [group, hopen, hf]
  exact ⟨f, rfl, hk⟩

/-- The body of a group is read one level down. -/
theorem shy_ok (hopen : ∀ whole, Opening.read whole flags text = .ok (.shy inner, rest))
    {e : Regex} {after : List Char} {last : Nat}
    (h : inside.read inner ⟨rest, groups⟩ = .ok (e, ⟨')' :: after, last⟩)) :
    atom (some inside) flags ⟨'(' :: text, groups⟩ = .ok (.piece e, ⟨after, last⟩) := by
  show group (some inside) flags ⟨text, groups⟩ = _
  simp only [group, hopen, groupBody_of_ok h]

end Shy

/-- The body of a group is read one level down, or no level is left for it. -/
theorem group_of_shy {levels groups last : Nat} {flags : Flags} (inner : Flags)
    {text rest : List Char} {e : Regex}
    (hopen : ∀ whole, Opening.read whole flags text = .ok (.shy inner, rest)) {after : List Char}
    (hbody : ∀ i ∈ below levels, IsTooDeep (i.read inner ⟨rest, groups⟩) ∨
      i.read inner ⟨rest, groups⟩ = .ok (e, ⟨')' :: after, last⟩)) :
    IsTooDeep (atom (below levels) flags ⟨'(' :: text, groups⟩) ∨
      atom (below levels) flags ⟨'(' :: text, groups⟩ = .ok (.piece e, ⟨after, last⟩) := by
  cases hl : below levels with
  | none => exact Or.inl (group_tooDeep flags text groups)
  | some inside => exact (hbody inside hl).imp (shy_tooDeep hopen) (shy_ok hopen)

/-- A group of another sort would begin with a question mark or an asterisk. -/
theorem read_capture {text : List Char} (h : ∀ c ∈ text.head?, c ≠ '*' ∧ c ≠ '?')
    (whole : List Char) (flags : Flags) :
    Opening.read whole flags text = .ok (.capture, text) := by
  unfold Opening.read
  split
  · exact absurd rfl (h _ rfl).1
  · exact absurd rfl (h _ rfl).2
  · rfl

section Capture

variable {inside : Inside} {flags : Flags} {text : List Char} {groups : Nat}

theorem capture_tooDeep (hopen : ∀ c ∈ text.head?, c ≠ '*' ∧ c ≠ '?')
    (h : IsTooDeep (inside.read flags ⟨text, groups + 1⟩)) :
    IsTooDeep (atom (some inside) flags ⟨'(' :: text, groups⟩) := by
  show IsTooDeep (group (some inside) flags ⟨text, groups⟩)
  obtain ⟨f, hf, hk⟩ := groupBody_of_tooDeep ('(' :: text) h
  simp only [group, read_capture hopen, hf]
  exact ⟨f, rfl, hk⟩

theorem capture_ok (hopen : ∀ c ∈ text.head?, c ≠ '*' ∧ c ≠ '?') {e : Regex}
    {after : List Char} {last : Nat}
    (h : inside.read flags ⟨text, groups + 1⟩ = .ok (e, ⟨')' :: after, last⟩)) :
    atom (some inside) flags ⟨'(' :: text, groups⟩ = .ok (.piece (.group e), ⟨after, last⟩) := by
  show group (some inside) flags ⟨text, groups⟩ = _
  simp only [group, read_capture hopen, groupBody_of_ok h]

end Capture

theorem group_of_capture {levels groups last : Nat} {flags : Flags} {text : List Char} {e : Regex}
    (hopen : ∀ c ∈ text.head?, c ≠ '*' ∧ c ≠ '?') {after : List Char}
    (hbody : ∀ i ∈ below levels, IsTooDeep (i.read flags ⟨text, groups + 1⟩) ∨
      i.read flags ⟨text, groups + 1⟩ = .ok (e, ⟨')' :: after, last⟩)) :
    IsTooDeep (atom (below levels) flags ⟨'(' :: text, groups⟩) ∨
      atom (below levels) flags ⟨'(' :: text, groups⟩ = .ok (.piece (.group e), ⟨after, last⟩) := by
  cases hl : below levels with
  | none => exact Or.inl (group_tooDeep flags text groups)
  | some inside => exact (hbody inside hl).imp (capture_tooDeep hopen) (capture_ok hopen)

/-- An expression in a group that captures nothing is an atom. -/
theorem ReadsExpression.shy {need : Nat} {text : List Char} {e : Regex}
    (h : ReadsExpression need text e) : ReadsAtom false (need + 1) (shyGroup text) e := by
  refine ⟨starts_paren _, ?_⟩
  intro levels groups rest _
  have htext : shyGroup text ++ rest = '(' :: '?' :: ':' :: (text ++ ')' :: rest) := by
    simp [shyGroup]
  rw [htext]
  cases levels with
  | zero => exact Or.inl ⟨Nat.succ_pos need, group_tooDeep _ _ _⟩
  | succ levels =>
    have hopen : ∀ whole, Opening.read whole noFlags ('?' :: ':' :: (text ++ ')' :: rest)) =
        .ok (.shy noFlags, text ++ ')' :: rest) := fun _ => rfl
    exact ((h.read levels groups _ (head_paren rest)).imp (shy_tooDeep hopen)
      (shy_ok hopen)).succ

/-- An expression in parentheses is an atom that captures. -/
theorem ReadsExpression.group {need : Nat} {text : List Char} {e : Regex}
    (h : ReadsExpression need text e) :
    ReadsAtom false (need + 1) ('(' :: text ++ [')']) (.group e) := by
  refine ⟨starts_paren _, ?_⟩
  intro levels groups rest _
  have htext : '(' :: text ++ [')'] ++ rest = '(' :: (text ++ ')' :: rest) := by
    simp
  have hopen : ∀ c ∈ (text ++ ')' :: rest).head?, c ≠ '*' ∧ c ≠ '?' := by
    intro c hc
    cases text with
    | nil =>
      cases hc
      decide
    | cons d l =>
      have hq := h.head c hc
      refine ⟨?_, ?_⟩ <;> rintro rfl <;> cases hq
  have hcount : groups + (Regex.group e).captures.length = groups + 1 + e.captures.length := by
    rw [captures_group, List.length_cons]
    omega
  rw [htext, hcount]
  cases levels with
  | zero => exact Or.inl ⟨Nat.succ_pos need, group_tooDeep _ _ _⟩
  | succ levels =>
    exact ((h.read levels (groups + 1) _ (head_paren rest)).imp (capture_tooDeep hopen)
      (capture_ok hopen)).succ

/-! ## Leaves -/

section Leaves

open Form.Pcre

/-- An atom that takes in no group. -/
theorem readsAtom_of_ok {text : List Char} {e : Regex} (hstarts : Starts text)
    (hc : e.captures = [])
    (h : ∀ deeper groups rest, atom deeper noFlags ⟨text ++ rest, groups⟩ =
      .ok (.piece e, ⟨rest, groups⟩)) : ReadsAtom false 0 text e := by
  refine ⟨hstarts, ?_⟩
  intro levels groups rest _
  rw [hc]
  exact settles_of_le (Nat.zero_le levels) (h (below levels) groups rest)

theorem starts_backslash (text : List Char) : Starts ('\\' :: text) :=
  starts_cons rfl text

theorem starts_plain {c : Char} (h : isSpecial c = false) (text : List Char) :
    Starts (c :: text) := by
  simp only [isSpecial, List.contains_eq_mem, List.mem_cons, List.not_mem_nil, or_false,
    decide_eq_false_iff_not, not_or] at h
  exact ⟨c, text, rfl, by simp [quantifies, h], by simp [h], by simp [h]⟩

theorem starts_escaped (c : Char) : Starts (escaped c) := by
  unfold escaped
  split
  · exact starts_backslash _
  · next h =>
    split
    · obtain ⟨body, hbody, -⟩ := exists_hexEscape c
      rw [hbody]
      exact starts_backslash _
    · exact starts_plain (Bool.eq_false_iff.2 h) []

theorem readsAtom_escaped (c : Char) : ReadsAtom false 0 (escaped c) (.literal [c]) :=
  readsAtom_of_ok (starts_escaped c) rfl fun deeper groups rest =>
    atom_escaped deeper _ groups c rest

theorem readsAtom_escape {c : Char} {e : Regex} (hc : e.captures = [])
    (h : ∀ groups rest, escape groups (c :: rest) = .ok (.piece e, rest)) :
    ReadsAtom false 0 ['\\', c] e :=
  readsAtom_of_ok (starts_backslash _) hc fun _ groups rest => atom_backslash (h groups rest)

theorem atom_bracket {deeper : Option Inside} {flags : Flags} {groups : Nat}
    {text rest : List Char} {e : Regex} (h : brackets.read text = .ok (e, rest)) :
    atom deeper flags ⟨'[' :: text, groups⟩ = .ok (.piece e, ⟨rest, groups⟩) := by
  have heq : atom deeper flags ⟨'[' :: text, groups⟩ =
      match brackets.read text with
      | .error f => .error f
      | .ok (e, rest) => .ok (.piece e, ⟨rest, groups⟩) := rfl
  rw [heq, h]

theorem starts_bracket (text : List Char) : Starts ('[' :: text) :=
  starts_cons rfl text

theorem readsAtom_bracket {text : List Char} {ms : List Member} (h : SpellsAll text ms)
    (hn : ms ≠ []) : ReadsAtom false 0 (bracket text).text (union (ms.map Member.tree)) := by
  refine readsAtom_of_ok (starts_bracket _) (captures_of_marks (marks_union_members ms)) ?_
  intro deeper groups rest
  have htext : (bracket text).text ++ rest = '[' :: (text ++ ']' :: rest) := by
    simp [bracket]
  rw [htext]
  exact atom_bracket (bracket_of_spellsAll h hn rest)

theorem readsAtom_negatedBracket {text : List Char} {ms : List Member} (h : SpellsAll text ms)
    (hn : ms ≠ []) :
    ReadsAtom false 0 (negatedBracket text).text (conjunction (ms.map Member.opposite)) := by
  refine readsAtom_of_ok (starts_bracket _) (captures_of_marks (marks_conjunction_members ms)) ?_
  intro deeper groups rest
  have htext : (negatedBracket text).text ++ rest = '[' :: ('^' :: text ++ ']' :: rest) := by
    simp [negatedBracket, bracket]
  rw [htext]
  exact atom_bracket (negatedBracket_of_spellsAll h hn rest)

/-- A reference of one digit is read as what it refers to, unless a digit follows. -/
theorem escape_digit {groups n : Nat} (h1 : 1 ≤ n) (h9 : n ≤ 9) {rest : List Char}
    (hrest : ∀ c ∈ rest.head?, c.isDigit = false) :
    escape groups (decimal n ++ rest) = .ok (.piece (.backref n), rest) := by
  have hdigit : decimal n = [n.digitChar] := Nat.toDigits_of_lt_base (by omega)
  have hval : n.digitChar.toNat - '0'.toNat = n ∧ n.digitChar.isDigit = true ∧
      n.digitChar ≠ '0' := by
    have hall : ∀ k ≤ 9, 1 ≤ k → k.digitChar.toNat - '0'.toNat = k ∧ k.digitChar.isDigit = true ∧
        k.digitChar ≠ '0' := by decide
    exact hall n h9 h1
  have hrun := digitRun_decimal n hrest
  have hafter := afterDigits_decimal n hrest
  rw [hdigit, List.singleton_append] at hrun hafter ⊢
  -- Whether there is such a group or not, the digit alone is the number.
  have hread : digitEscape groups n.digitChar rest = (.backref n, rest) := by
    unfold digitEscape
    simp only [hrun, hafter, ← hdigit, decimalValue_decimal, hval.2.2, hval.1, if_false]
    split <;> rfl
  simp only [escape, hval.2.1, if_true, hread]

theorem readsAtom_backref {n : Nat} (h1 : 1 ≤ n) (h9 : n ≤ 9) :
    ReadsAtom true 0 ('\\' :: decimal n) (.backref n) := by
  refine ⟨starts_backslash _, ?_⟩
  intro levels groups rest hrest
  exact settles_of_le (Nat.zero_le levels) (atom_backslash (escape_digit h1 h9 (hrest rfl)))

theorem expression_dot (levels groups : Nat) (rest : List Char) :
    (expression levels).read ⟨false, true⟩ ⟨'.' :: ')' :: rest, groups⟩ =
      .ok (.primitive .anything, ⟨')' :: rest, groups⟩) := by
  have hatom : atom (below levels) ⟨false, true⟩ ⟨'.' :: ')' :: rest, groups⟩ =
      .ok (.piece (.primitive .anything), ⟨')' :: rest, groups⟩) := rfl
  have hstep := step_of_atom levels [] hatom
  rw [quantified_of_none rfl] at hstep
  have hbranch := branch_of_steps (l := [.primitive .anything]) (steps_of_step_ok rfl hstep) rfl
  rw [expression_eq]
  show alternation (below levels) levels ⟨false, true⟩ ⟨'.' :: ')' :: rest, groups⟩ = _
  unfold alternation
  rw [branches_of_last hbranch (head_paren rest)]
  rfl

/-- A dot for any character stands in a group with a flag of its own. -/
theorem readsAtom_anything :
    ReadsAtom false 1 ['(', '?', 's', ':', '.', ')'] (.primitive .anything) := by
  refine ⟨starts_paren _, ?_⟩
  intro levels groups rest _
  cases levels with
  | zero => exact Or.inl ⟨Nat.succ_pos 0, group_tooDeep _ _ _⟩
  | succ levels =>
    exact settles_of_le (Nat.succ_pos levels)
      (shy_ok (fun _ => rfl) (expression_dot levels groups rest))

end Leaves

end RegexDialects.Pattern.Pcre
