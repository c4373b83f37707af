import RegexDialects.Text.Blank

/-!
# Flags

Two flags change how a PCRE pattern is read: `x` skips white space and comments, `s` lets `.` match
a newline. This module holds the flags and the skipping.
-/

set_option autoImplicit false

namespace RegexDialects.Pattern.Pcre

/-- The flags under which a pattern is read. -/
structure Flags where
  /-- White space and comments are skipped. -/
  extended : Bool
  /-- A dot matches newlines too. -/
  singleLine : Bool
  deriving DecidableEq, Repr, Inhabited

/-- Drops white space and comments; `inComment` says whether a comment is open. -/
def dropIgnored (inComment : Bool) : List Char → List Char
  | [] => []
  | c :: rest =>
    if inComment then dropIgnored (c != '\n') rest
    else if isBlank c then dropIgnored false rest
    else if c = '#' then dropIgnored true rest
    else c :: rest

/-- Drops what the flags say is ignored. -/
def skip (flags : Flags) (text : List Char) : List Char :=
  if flags.extended then dropIgnored false text else text

theorem dropIgnored_suffix (inComment : Bool) (text : List Char) :
    dropIgnored inComment text <:+ text := by
  induction text generalizing inComment with
  | nil => exact List.suffix_refl _
  | cons c rest ih =>
    unfold dropIgnored
    split
    · exact (ih _).trans (List.suffix_cons _ _)
    · split
      · exact (ih _).trans (List.suffix_cons _ _)
      · split
        · exact (ih _).trans (List.suffix_cons _ _)
        · exact List.suffix_refl _

theorem skip_suffix (flags : Flags) (text : List Char) : skip flags text <:+ text := by
  unfold skip
  split
  · exact dropIgnored_suffix _ _
  · exact List.suffix_refl _

end RegexDialects.Pattern.Pcre
