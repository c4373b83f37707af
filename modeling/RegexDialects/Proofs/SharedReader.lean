import RegexDialects.Proofs.SharedNotation

/-!
# Readers of the shared notation

What it takes to read the shared notation, said once for both dialects. A reader that stands in the
middle of a branch reads on to the end of the expression; `Reader` asks for one law for each thing
that may stand in front of it, and `Reader.run_text` is the induction over expressions.

Both dialects number groups as they go, in their own way. In the shared notation no group has a
number of its own, so a place of either reader is known by the text that is left and by how many
groups have captured so far.
-/

set_option autoImplicit false

namespace RegexDialects.Pattern.Shared

variable {d : Dialect}

/-- A reader that goes on with a branch of which it has read some pieces, through all branches. Of a
    fault only the kind is kept, since places differ between dialects. -/
structure Reader (d : Dialect) where
  Place : Type
  /-- Where so many groups have captured, and `text` is left. -/
  place : Nat → List Char → Place
  /-- Reads on, at the start of the branch or not. -/
  run : Nat → Bool → List Regex → Place → Except ParseErrorKind (List Regex × Place)
  closed : ∀ levels atStart pieces n {text}, Closes d text →
    run levels atStart pieces (place n text) = .ok ([.seq pieces], place n text)
  bar : ∀ levels atStart pieces n text,
    run levels atStart pieces (place n (mark d ++ '|' :: text)) =
      (run levels true [] (place n text)).map fun r => (.seq pieces :: r.1, r.2)
  leaf : ∀ levels atStart pieces n (a : Leaf) q {text}, NoQuantifier text →
    run levels atStart pieces (place n (a.text ++ (quantityText d q ++ text))) = do
      let e ← quantify (levels - a.tree.repeatDepth) a.tree q
      run levels false (pieces ++ [e]) (place n text)
  tooDeep : ∀ atStart pieces n capturing text,
    run 0 atStart pieces (place n (opening d capturing ++ text)) = .error .tooDeep
  /-- What stands in a group is read to the place where the group closes, if at all. -/
  group : ∀ levels atStart pieces n m capturing q {inner text}
    {l : Except ParseErrorKind (List Regex)}, NoQuantifier inner → NoQuantifier text →
    (run levels true [] (place (n + capturing.toNat) inner) =
      l.map fun l => (l, place m (mark d ++ ')' :: (quantityText d q ++ text)))) →
    run (levels + 1) atStart pieces (place n (opening d capturing ++ inner)) = do
      let l ← l
      let e ← quantify (levels + 1 - (wrap capturing (.alt l)).repeatDepth)
        (wrap capturing (.alt l)) q
      run (levels + 1) false (pieces ++ [e]) (place m text)

/-- A reader finds the branches of an expression, and stops where the expression ends. -/
theorem Reader.run_text (r : Reader d) (x : Expression) (levels : Nat) (atStart : Bool)
    (pieces : List Regex) (n : Nat) {rest : List Char} (h : Closes d rest) :
    r.run levels atStart pieces (r.place n (x.text d ++ rest)) =
      (x.branches levels pieces).map fun l => (l, r.place (n + x.captures) rest) := by
  induction x generalizing levels atStart pieces n rest with
  | done => exact r.closed levels atStart pieces n h
  | bar x ih =>
    rw [Expression.text, List.append_assoc, List.cons_append, r.bar, ih levels true [] n h,
      Expression.branches]
    cases x.branches levels [] <;> rfl
  | leaf a q x ih =>
    simp only [Expression.text, List.append_assoc]
    rw [r.leaf levels atStart pieces n a q (x.noQuantifier h), Expression.branches]
    simp only [ih levels false _ n h]
    cases quantify (levels - a.tree.repeatDepth) a.tree q <;> rfl
  | group capturing body q x ihBody ih =>
    simp only [Expression.text, List.append_assoc, List.cons_append]
    cases levels with
    | zero => exact r.tooDeep atStart pieces n capturing _
    | succ levels =>
      have hcloses : Closes d (mark d ++ ')' :: (quantityText d q ++ (x.text d ++ rest))) :=
        Or.inr ⟨_, rfl⟩
      rw [r.group levels atStart pieces n _ capturing q (body.noQuantifier hcloses)
        (x.noQuantifier h) (ihBody levels true [] _ hcloses), Expression.branches]
      simp only [ih (levels + 1) false _ _ h, Expression.captures, Nat.add_assoc]
      cases body.branches levels [] with
      | error kind => rfl
      | ok l =>
        simp only [bind, Except.bind]
        cases quantify (levels + 1 - (wrap capturing (.alt l)).repeatDepth)
          (wrap capturing (.alt l)) q <;> rfl

end RegexDialects.Pattern.Shared
