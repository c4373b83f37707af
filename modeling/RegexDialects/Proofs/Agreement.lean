import RegexDialects.Proofs.SharedEmacs
import RegexDialects.Proofs.SharedPcre

/-!
# The dialects agree on the notation they share

An expression of the shared notation, written in either dialect, is read as its tree, or refused for
the reason that the notation gives (`Dialect.read_text`). So the dialects agree on it: they return
the same tree, or refuse it with the same kind of error (`Regex.parse_shared`). The place and the
fragment of an error may differ, as the texts do.
-/

set_option autoImplicit false

namespace RegexDialects

open Pattern Pattern.Shared

/-- What the reader of a dialect makes of a whole pattern that is all one expression. -/
theorem Dialect.read_text (d : Dialect) (x : Expression) :
    (d.read (x.text d)).mapError ParseError.kind = x.tree := by
  cases d with
  | emacs => exact Emacs.parse_text x
  | pcre => exact Pcre.parse_text x

namespace Regex

/-- Both dialects read an expression of the shared notation as the same tree, or refuse it with an
    error of the same kind. -/
theorem parse_shared (x : Expression) :
    (parse .emacs (String.ofList (x.text .emacs))).mapError ParseError.kind =
      (parse .pcre (String.ofList (x.text .pcre))).mapError ParseError.kind := by
  unfold parse
  rw [String.toList_ofList, String.toList_ofList, Dialect.read_text, Dialect.read_text]

/-- One expression in both dialects, with a bracket expression, an empty branch, a quantifier in
    braces that leaves out its lower bound, and a lazy one. -/
example :
    let b : Bracket :=
      ⟨[']', 'a', '-', 'c', ']'], ⟨by decide, by decide⟩, .set ⟨[']'], [('a', 'c')], []⟩, by cbv⟩
    let two : Numeral := ⟨['2'], by decide, List.forall_mem_singleton.2 rfl⟩
    let upTo2 : Interval := ⟨none, true, some two, by decide, by decide⟩
    let x : Expression :=
      .group false (.leaf (.bracket b) none (.bar .done)) (some (.interval upTo2))
        (.leaf (.letter 'x' rfl) (some (.operator '*' 0 none rfl false)) .done)
    x.text .emacs = "\\(?:[]a-c]\\|\\)\\\x7b,2\\\x7dx*?".toList ∧
      x.text .pcre = "(?:[]a-c]|)\x7b,2\x7dx*?".toList ∧
      x.tree = .ok (.sequence
        [.repetition 0 (some 2) true (.choice [b.tree, .empty]),
          .repetition 0 none false (.literal ['x'])]) := by
  exact ⟨by decide, by decide, by rfl⟩

end Regex

end RegexDialects
