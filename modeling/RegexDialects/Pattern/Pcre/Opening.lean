import RegexDialects.Pattern.Fault
import RegexDialects.Pattern.Pcre.Flags
import RegexDialects.Text.Alphanumeric

/-!
# Openings of groups

What follows an opening parenthesis and decides about the sort of the group: nothing, a name, flags,
or a comment, which is complete in itself. Groups of other sorts (lookaround, recursion, conditions)
are refused.
-/

set_option autoImplicit false

namespace RegexDialects.Pattern.Pcre

/-- What an opening parenthesis and the characters after it begin. -/
inductive Opening where
  /-- A capturing group. -/
  | capture
  /-- A group that captures nothing and is read under its own flags. -/
  | shy (inner : Flags)
  /-- New flags for the rest of the group around. -/
  | setFlags (f : Flags)
  /-- A comment, already complete. -/
  | comment
  deriving DecidableEq, Repr

namespace Opening

/-- Reads the text of a comment and its closing parenthesis. -/
def commentEnd (whole : List Char) : List Char → Reading Opening
  | [] => .error ⟨.unexpectedEnd, whole, []⟩
  | c :: rest => if c = ')' then .ok (.comment, rest) else commentEnd whole rest

/-- Reads the name of a group and the character that closes it. Names are dropped: such a group is
    one that captures. -/
def nameEnd (whole : List Char) (close : Char) : List Char → Reading Opening
  | [] => .error ⟨.unexpectedEnd, whole, []⟩
  | c :: rest =>
    if c = close then .ok (.capture, rest)
    else if isAlphanumeric c ∨ c = '_' then nameEnd whole close rest
    else .error ⟨.unsupportedGroup, whole, rest⟩

/-- Reads flags and the character that ends them. Behind a dash, of which there is one at most,
    flags are switched off. -/
def flagsEnd (whole : List Char) (on : Bool) (f : Flags) : List Char → Reading Opening
  | [] => .error ⟨.unexpectedEnd, whole, []⟩
  | c :: rest =>
    if c = '-' ∧ on then flagsEnd whole false f rest
    else if c = 'x' then flagsEnd whole on { f with extended := on } rest
    else if c = 's' then flagsEnd whole on { f with singleLine := on } rest
    else if c = ')' then .ok (.setFlags f, rest)
    else if c = ':' then .ok (.shy f, rest)
    else .error ⟨.unknownModifier, whole, rest⟩

/-- Reads what follows `(?`. -/
def special (whole : List Char) (f : Flags) (text : List Char) : Reading Opening :=
  match text with
  | '#' :: rest => commentEnd whole rest
  | ':' :: rest => .ok (.shy f, rest)
  -- Lookbehind, which starts like a name.
  | '<' :: '=' :: _ => .error ⟨.unsupportedGroup, whole, text⟩
  | '<' :: '!' :: _ => .error ⟨.unsupportedGroup, whole, text⟩
  | '<' :: rest => nameEnd whole '>' rest
  | '\x27' :: rest => nameEnd whole '\x27' rest
  | 'P' :: '<' :: rest => nameEnd whole '>' rest
  | 'P' :: _ => .error ⟨.unsupportedGroup, whole, text⟩
  | 'R' :: _ => .error ⟨.unsupportedGroup, whole, text⟩
  | c :: _ =>
    if c.isAlpha ∨ c = '-' then flagsEnd whole true f text
    else .error ⟨.unsupportedGroup, whole, text⟩
  | [] => .error ⟨.unsupportedGroup, whole, text⟩

/-- Reads what follows an opening parenthesis. -/
def read (whole : List Char) (f : Flags) (text : List Char) : Reading Opening :=
  match text with
  | '*' :: _ => .error ⟨.unsupportedGroup, whole, text⟩
  | '?' :: rest => special whole f rest
  | _ => .ok (.capture, text)

theorem commentEnd_suffix {whole text rest : List Char} {o : Opening}
    (h : commentEnd whole text = .ok (o, rest)) : rest <:+ text := by
  induction text with
  | nil => simp [commentEnd] at h
  | cons c text ih =>
    unfold commentEnd at h
    split at h
    · cases h
      exact List.suffix_cons _ _
    · exact (ih h).trans (List.suffix_cons _ _)

theorem nameEnd_suffix {whole text rest : List Char} {close : Char} {o : Opening}
    (h : nameEnd whole close text = .ok (o, rest)) : rest <:+ text := by
  induction text with
  | nil => simp [nameEnd] at h
  | cons c text ih =>
    unfold nameEnd at h
    split at h
    · cases h
      exact List.suffix_cons _ _
    · split at h
      · exact (ih h).trans (List.suffix_cons _ _)
      · simp at h

theorem flagsEnd_suffix {whole text rest : List Char} {on : Bool} {f : Flags} {o : Opening}
    (h : flagsEnd whole on f text = .ok (o, rest)) : rest <:+ text := by
  induction text generalizing on f with
  | nil => simp [flagsEnd] at h
  | cons c text ih =>
    unfold flagsEnd at h
    split at h
    · exact (ih h).trans (List.suffix_cons _ _)
    · split at h
      · exact (ih h).trans (List.suffix_cons _ _)
      · split at h
        · exact (ih h).trans (List.suffix_cons _ _)
        · split at h
          · cases h
            exact List.suffix_cons _ _
          · split at h
            · cases h
              exact List.suffix_cons _ _
            · simp at h

theorem special_suffix {whole text rest : List Char} {f : Flags} {o : Opening}
    (h : special whole f text = .ok (o, rest)) : rest <:+ text := by
  unfold special at h
  split at h
  · exact (commentEnd_suffix h).trans (List.suffix_cons _ _)
  · cases h
    exact List.suffix_cons _ _
  · simp at h
  · simp at h
  · exact (nameEnd_suffix h).trans (List.suffix_cons _ _)
  · exact (nameEnd_suffix h).trans (List.suffix_cons _ _)
  · exact (nameEnd_suffix h).trans ((List.suffix_cons _ _).trans (List.suffix_cons _ _))
  · simp at h
  · simp at h
  · split at h
    · exact flagsEnd_suffix h
    · simp at h
  · simp at h

theorem read_suffix {whole text rest : List Char} {f : Flags} {o : Opening}
    (h : read whole f text = .ok (o, rest)) : rest <:+ text := by
  unfold read at h
  split at h
  · simp at h
  · exact (special_suffix h).trans (List.suffix_cons _ _)
  · cases h
    exact List.suffix_refl _

end Opening

end RegexDialects.Pattern.Pcre
