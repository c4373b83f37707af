import RegexDialects.Proofs.NestingLimit
import RegexDialects.Proofs.ReferenceList

/-!
# Lists within the limits

Every function that puts a list together checks the limits, so what it returns is within them if
what it started from was (`WithinLimits`). Sets are counted before they are listed, and a character
takes four bytes at most. That leaves the lists which are not put together: a text is its own list,
and what stands in a group is handed on. A tree therefore passes the limit on bytes if it is one
long text, in groups or not, and in no other case (`limits_of_enumerate`).
-/

set_option autoImplicit false

namespace RegexDialects

namespace Enumeration

variable {body start l : List String}

/-! ## Products and powers -/

theorem withinLimits_empty_string : WithinLimits [""] :=
  ⟨by decide, by decide⟩

theorem withinLimits_of_product {left right : List String} (h : product left right = .ok l) :
    WithinLimits l :=
  (product_eq_ok_iff.1 h).1

theorem withinLimits_of_power {n : Nat} (hs : WithinLimits start)
    (h : power body n start = .ok l) : WithinLimits l := by
  induction n generalizing start with
  | zero =>
    cases h
    exact hs
  | succ n ih =>
    unfold power at h
    split at h
    · cases h
      exact ⟨Nat.zero_le _, Nat.zero_le _⟩
    · obtain ⟨next, hnext, h⟩ := bind_eq_ok_iff.1 h
      exact ih (withinLimits_of_product hnext) h

/-- The lists that are there are counted, so each one that is added is within what is left. -/
theorem withinLimits_of_powersFrom {n : Nat} {last : List String} {count bytes : Nat}
    {found all : List (List String)} (hcount : count = (last :: found).flatten.length)
    (hbytes : bytes = totalBytes (last :: found).flatten)
    (hw : WithinLimits (last :: found).flatten)
    (h : powersFrom body n last count bytes found = .ok all) : WithinLimits all.flatten := by
  induction n generalizing last count bytes found with
  | zero =>
    cases h
    exact hw
  | succ n ih =>
    unfold powersFrom at h
    split at h
    · cases h
      exact hw
    · simp only [bind_eq_ok_iff, checkCount_eq_ok_iff, checkBytes_eq_ok_iff] at h
      obtain ⟨next, -, -, hle, -, hle', h⟩ := h
      have hcount' : count + next.length = (next :: last :: found).flatten.length := by
        rw [List.flatten_cons, List.length_append, hcount, Nat.add_comm]
      have hbytes' : bytes + totalBytes next = totalBytes (next :: last :: found).flatten := by
        rw [List.flatten_cons, totalBytes_append, hbytes, Nat.add_comm]
      exact ih hcount' hbytes' ⟨hcount' ▸ hle, hbytes' ▸ hle'⟩ h

theorem totalBytes_flatten_reverse (all : List (List String)) :
    totalBytes all.reverse.flatten = totalBytes all.flatten := by
  induction all with
  | nil => rfl
  | cons found all ih =>
    rw [List.reverse_cons, List.flatten_append, List.flatten_singleton, totalBytes_append, ih,
      List.flatten_cons, totalBytes_append, Nat.add_comm]

theorem withinLimits_of_repetition {least most : Nat} (h : repetition least most body = .ok l) :
    WithinLimits l := by
  simp only [repetition, bind_eq_ok_iff] at h
  obtain ⟨first, hfirst, all, hall, h⟩ := h
  cases h
  have hw := withinLimits_of_power withinLimits_empty_string hfirst
  have hsingle : [first].flatten = first := List.flatten_singleton
  obtain ⟨hcount, hbytes⟩ := withinLimits_of_powersFrom (by rw [hsingle]) (by rw [hsingle])
    (hsingle.symm ▸ hw) hall
  refine ⟨?_, ?_⟩
  · rwa [List.length_flatten, List.map_reverse, List.sum_reverse, ← List.length_flatten]
  · rwa [totalBytes_flatten_reverse]

/-! ## Sets -/

theorem totalBytes_singletons_le (cs : List Char) :
    totalBytes (cs.map String.singleton) ≤ 4 * cs.length := by
  induction cs with
  | nil => exact Nat.le_refl 0
  | cons c cs ih =>
    have hc : (String.singleton c).utf8ByteSize ≤ 4 := by
      rw [String.utf8ByteSize_singleton]
      exact c.utf8Size_le_four
    rw [List.map_cons, totalBytes, List.length_cons]
    omega

/-- As many strings of one character as may be listed are within the limit on bytes. -/
theorem withinLimits_singletons {cs : List Char} (h : cs.length ≤ maxStrings) :
    WithinLimits (cs.map String.singleton) := by
  refine ⟨by rwa [List.length_map], Nat.le_trans (totalBytes_singletons_le cs) ?_⟩
  exact Nat.le_trans (Nat.mul_le_mul_left 4 h) (by decide)

/-- No range holds more characters than it is counted for. -/
theorem length_rangeChars_le (r : Char × Char) : (rangeChars r).length ≤ rangeSpan r := by
  calc (rangeChars r).length ≤ r.2.toNat + 1 - r.1.toNat := by
        simpa [rangeChars] using List.length_filterMap_le charOfNat?
          (List.range' r.1.toNat (r.2.toNat + 1 - r.1.toNat))
    _ ≤ rangeSpan r := by
        unfold rangeSpan
        omega

theorem length_flatMap_rangeChars_le (ranges : List (Char × Char)) :
    (ranges.flatMap rangeChars).length ≤ totalSpan ranges := by
  induction ranges with
  | nil => exact Nat.le_refl 0
  | cons r ranges ih =>
    rw [List.flatMap_cons, List.length_append, totalSpan]
    exact Nat.add_le_add (length_rangeChars_le r) ih

theorem withinLimits_of_charSet {s : CharSet} (h : charSet s = .ok l) : WithinLimits l := by
  unfold charSet at h
  split at h
  · cases h
  · simp only [bind_eq_ok_iff, checkCount_eq_ok_iff] at h
    obtain ⟨-, hcount, h⟩ := h
    cases h
    refine withinLimits_singletons ?_
    rw [List.length_append]
    exact Nat.le_trans (Nat.add_le_add_left (length_flatMap_rangeChars_le _) _) hcount

/-! ## Sequences and choices -/

theorem withinLimits_of_sequenceFrom {es : List Regex} (hs : WithinLimits start)
    (h : sequenceFrom start es = .ok l) : WithinLimits l := by
  induction es generalizing start with
  | nil =>
    cases h
    exact hs
  | cons e es ih =>
    obtain ⟨_, -, next, hnext, h⟩ := sequenceFrom_cons_eq_ok_iff.1 h
    exact ih (withinLimits_of_product hnext) h

/-- A list of branches is within what is left beside those before. -/
theorem limits_of_choiceFrom {es : List Regex} {count bytes : Nat} (hc : count ≤ maxStrings)
    (hb : bytes ≤ maxBytes) (h : choiceFrom count bytes es = .ok l) :
    count + l.length ≤ maxStrings ∧ bytes + totalBytes l ≤ maxBytes := by
  induction es generalizing count bytes l with
  | nil =>
    cases h
    exact ⟨hc, hb⟩
  | cons e es ih =>
    obtain ⟨found, -, hcount, hbytes, others, hothers, rfl⟩ := choiceFrom_cons_eq_ok_iff.1 h
    obtain ⟨hlength, htotal⟩ := ih hcount hbytes hothers
    rw [List.length_append, totalBytes_append, ← Nat.add_assoc, ← Nat.add_assoc]
    exact ⟨hlength, htotal⟩

end Enumeration

namespace Regex

open Enumeration

/-! ## Trees -/

theorem strings_inGroups (n : Nat) (e : Regex) : strings (inGroups n e) = strings e := by
  induction n with
  | zero => rfl
  | succ n ih => exact ih

/-- Only a text may be too long, in groups or not. -/
theorem withinLimits_of_strings {e : Regex} {l : List String} (h : strings e = .ok l) :
    WithinLimits l ∨ ∃ n t, e = inGroups n (.literal t) := by
  induction e using inductionOn generalizing l with
  | empty =>
    cases h
    exact Or.inl withinLimits_empty_string
  | literal t => exact Or.inr ⟨0, t, rfl⟩
  | primitive p =>
    unfold strings at h
    split at h
    · cases h
      exact Or.inl withinLimits_empty_string
    · cases h
  | sequence es _ => exact Or.inl (withinLimits_of_sequenceFrom withinLimits_empty_string h)
  | choice es _ =>
    obtain ⟨hcount, hbytes⟩ := limits_of_choiceFrom (Nat.zero_le _) (Nat.zero_le _) h
    rw [Nat.zero_add] at hcount hbytes
    exact Or.inl ⟨hcount, hbytes⟩
  | repetition n m g body _ =>
    cases m with
    | none => cases h
    | some m =>
      obtain ⟨_, -, h⟩ := bind_eq_ok_iff.1 h
      exact Or.inl (withinLimits_of_repetition h)
  | group body ih =>
    rcases ih h with hw | ⟨n, t, rfl⟩
    · exact Or.inl hw
    · exact Or.inr ⟨n + 1, t, rfl⟩
  | set s => exact Or.inl (withinLimits_of_charSet h)
  | _ => cases h

/-- **Lists are within the limits**, but for a text that is too long by itself: no list has too many
    strings, and one has too many bytes if and only if the tree is such a text, in groups or not. -/
theorem limits_of_enumerate {e : Regex} {found : List String} (h : e.enumerate = .ok found) :
    found.length ≤ maxStrings ∧
      (maxBytes < totalBytes found ↔
        ∃ n t, e = inGroups n (.literal t) ∧ maxBytes < (String.ofList t).utf8ByteSize) := by
  have htext : ∀ n t, e = inGroups n (.literal t) → found = [String.ofList t] := by
    rintro n t rfl
    have hstrings : strings (.literal t) = .ok found := (strings_inGroups n _).symm.trans h
    cases hstrings
    rfl
  have hlong : (∃ n t, e = inGroups n (.literal t) ∧
      maxBytes < (String.ofList t).utf8ByteSize) → maxBytes < totalBytes found := by
    rintro ⟨n, t, he, hlt⟩
    rw [htext n t he]
    exact hlt
  rcases withinLimits_of_strings h with ⟨hcount, hbytes⟩ | ⟨n, t, he⟩
  · refine ⟨hcount, fun hlt => absurd hbytes (Nat.not_le.2 hlt), hlong⟩
  · refine ⟨?_, ?_, hlong⟩
    · rw [htext n t he]
      exact (by decide : 1 ≤ maxStrings)
    · intro hlt
      rw [htext n t he] at hlt
      exact ⟨n, t, he, hlt⟩

/-- `a|bc` is no text, so its list is within the limits. -/
theorem limits_of_enumerate_choice :
    (Regex.choice [.literal ['a'], .literal ['b', 'c']]).enumerate = .ok ["a", "bc"] ∧
      (["a", "bc"].length ≤ maxStrings ∧
        (maxBytes < totalBytes ["a", "bc"] ↔ ∃ n t, Regex.choice [.literal ['a'],
          .literal ['b', 'c']] = inGroups n (.literal t) ∧
            maxBytes < (String.ofList t).utf8ByteSize)) := by
  have hlist : (Regex.choice [.literal ['a'], .literal ['b', 'c']]).enumerate =
      .ok ["a", "bc"] := by decide
  exact ⟨hlist, limits_of_enumerate hlist⟩

theorem utf8ByteSize_replicate (n : Nat) (c : Char) :
    (String.ofList (List.replicate n c)).utf8ByteSize = n * c.utf8Size := by
  induction n with
  | zero => rw [Nat.zero_mul, List.replicate_zero, String.ofList_nil, String.utf8ByteSize_empty]
  | succ n ih =>
    have hcons : List.replicate (n + 1) c = [c] ++ List.replicate n c := List.replicate_succ
    rw [hcons, String.ofList_append, String.utf8ByteSize_append, ih, ← String.singleton_eq_ofList,
      String.utf8ByteSize_singleton, Nat.succ_mul, Nat.add_comm]

theorem enumerate_text_cons (c : Char) (t : List Char) :
    (text (c :: t)).enumerate = .ok [String.ofList (c :: t)] := rfl

/-- **The limit on bytes can be passed**: a text of one byte more than that is listed. -/
theorem exceeds_of_enumerate_text :
    (text (List.replicate (maxBytes + 1) 'a')).Built ∧
      (text (List.replicate (maxBytes + 1) 'a')).enumerate =
        .ok [String.ofList (List.replicate (maxBytes + 1) 'a')] ∧
      maxBytes < totalBytes [String.ofList (List.replicate (maxBytes + 1) 'a')] := by
  have hsize : 'a'.utf8Size = 1 := rfl
  refine ⟨.text _, ?_, ?_⟩
  · rw [List.replicate_succ]
    exact enumerate_text_cons 'a' _
  · rw [totalBytes, totalBytes, utf8ByteSize_replicate, hsize, Nat.mul_one, Nat.add_zero]
    exact Nat.lt_succ_self maxBytes

end Regex

end RegexDialects
