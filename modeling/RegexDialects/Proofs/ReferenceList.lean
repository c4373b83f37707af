import RegexDialects.Proofs.Built
import RegexDialects.Proofs.Listing

/-!
# Listing is exact

What the strings of a tree should be, in which order and how often, is said without limits and
without accumulators by `listing`: a sequence is a product, a choice a concatenation, a repetition
the concatenation of powers, a set its characters. A list of strings, where there is one, is that
list, and then no node of the tree is of a sort whose strings are not known (`IsListable`).

The functions of `Enumeration.lean` work their way from the left and carry what they have found. So
the lemma for each of them says what it makes of any start: the start, times the product or the
powers that are still to come.
-/

set_option autoImplicit false

namespace RegexDialects

namespace Enumeration

variable {body start l : List String}

/-! ## Products -/

theorem cross_cons (s : String) (left right : List String) :
    cross (s :: left) right = right.map (s ++ ·) ++ cross left right :=
  List.flatMap_cons

theorem cross_append (left left' right : List String) :
    cross (left ++ left') right = cross left right ++ cross left' right :=
  List.flatMap_append

theorem cross_empty_string (l : List String) : cross [""] l = l := by
  rw [cross_cons, cross, List.flatMap_nil, List.append_nil]
  simp only [String.empty_append, List.map_id']

theorem cross_map_append (s : String) (left right : List String) :
    cross (left.map (s ++ ·)) right = (cross left right).map (s ++ ·) := by
  rw [cross, cross, List.flatMap_map, List.map_flatMap]
  congr 1
  funext t
  rw [List.map_map]
  apply List.map_congr_left
  intro u _
  exact String.append_assoc

theorem cross_assoc (l m k : List String) : cross (cross l m) k = cross l (cross m k) := by
  induction l with
  | nil => rfl
  | cons s l ih => rw [cross_cons, cross_cons, cross_append, cross_map_append, ih]

/-! ## Powers -/

/-- `n` strings of `body` in a row, the leftmost varying slowest. -/
def rows (body : List String) : Nat → List String
  | 0 => [""]
  | n + 1 => cross body (rows body n)

/-- `count` powers of `body`, from `least` strings in a row on. -/
def rowsFrom (body : List String) (least count : Nat) : List String :=
  (List.range' least count).flatMap (rows body)

theorem rows_add (body : List String) (n k : Nat) :
    rows body (n + k) = cross (rows body n) (rows body k) := by
  induction n with
  | zero => rw [Nat.zero_add, rows, cross_empty_string]
  | succ n ih => rw [Nat.succ_add, rows, ih, rows, cross_assoc]

theorem rows_one (body : List String) : rows body 1 = body := by
  rw [rows, rows, cross_singleton]
  simp only [String.append_empty, List.map_id']

theorem rows_succ (body : List String) (n : Nat) :
    rows body (n + 1) = cross (rows body n) body := by
  rw [rows_add, rows_one]

/-- What `power` returns is the start, times a power. -/
theorem eq_cross_of_power {n : Nat} (h : power body n start = .ok l) :
    l = cross start (rows body n) := by
  induction n generalizing start with
  | zero =>
    cases h
    rw [rows, cross_singleton]
    simp only [String.append_empty, List.map_id']
  | succ n ih =>
    unfold power at h
    split at h
    · next hs =>
      cases h
      rw [List.isEmpty_iff.1 hs]
      rfl
    · obtain ⟨next, hnext, h⟩ := bind_eq_ok_iff.1 h
      obtain ⟨-, rfl⟩ := product_eq_ok_iff.1 hnext
      rw [ih h, cross_assoc, rows]

/-- Powers that start from nothing are nothing. -/
theorem rowsFrom_of_rows_eq_nil {least : Nat} (h : rows body least = []) (count : Nat) :
    rowsFrom body least count = [] := by
  apply List.flatMap_eq_nil_iff.2
  intro n hn
  obtain ⟨k, -, rfl⟩ := List.mem_range'.1 hn
  rw [rows_add, h]
  rfl

/-- What `powersFrom` adds to a power that is there are the powers that follow it, fewest strings
    first. -/
theorem eq_rowsFrom_of_powersFrom {n k count bytes : Nat} {found all : List (List String)}
    (h : powersFrom body n (rows body k) count bytes found = .ok all) :
    all.reverse.flatten = found.reverse.flatten ++ rowsFrom body k (n + 1) := by
  induction n generalizing k count bytes found with
  | zero =>
    cases h
    simp [rowsFrom]
  | succ n ih =>
    unfold powersFrom at h
    split at h
    · next hk =>
      cases h
      rw [rowsFrom_of_rows_eq_nil (List.isEmpty_iff.1 hk), List.isEmpty_iff.1 hk]
      simp
    · simp only [bind_eq_ok_iff] at h
      obtain ⟨next, hnext, -, -, -, -, h⟩ := h
      obtain ⟨-, rfl⟩ := product_eq_ok_iff.1 hnext
      rw [← rows_succ] at h
      rw [ih h, rowsFrom, rowsFrom, List.range'_succ (n := n + 1), List.flatMap_cons]
      simp

theorem eq_rowsFrom_of_repetition {least most : Nat} (hle : least ≤ most)
    (h : repetition least most body = .ok l) : l = rowsFrom body least (most + 1 - least) := by
  simp only [repetition, bind_eq_ok_iff] at h
  obtain ⟨first, hfirst, all, hall, h⟩ := h
  cases h
  rw [eq_cross_of_power hfirst, cross_empty_string] at hall
  rw [eq_rowsFrom_of_powersFrom hall, Nat.succ_sub hle]
  rfl

/-! ## Sets -/

/-- The characters from `lo` to `hi` in ascending order: the code points between them that are no
    surrogates. -/
def charsBetween (lo hi : Char) : List Char :=
  ((List.range (hi.toNat + 1)).filter fun n => lo.toNat ≤ n ∧ n.isValidChar).map Char.ofNat

theorem filterMap_charOfNat? (l : List Nat) :
    l.filterMap charOfNat? = (l.filter fun n => n.isValidChar).map Char.ofNat := by
  induction l with
  | nil => rfl
  | cons n l ih =>
    by_cases hn : n.isValidChar
    · have hc : charOfNat? n = some (Char.ofNat n) := by
        rw [charOfNat?, dif_pos hn, Char.ofNat, dif_pos hn]
      rw [List.filterMap_cons_some hc, List.filter_cons_of_pos (by simpa using hn), List.map_cons,
        ih]
    · have hc : charOfNat? n = none := dif_neg hn
      rw [List.filterMap_cons_none hc, List.filter_cons_of_neg (by simpa using hn), ih]

theorem range'_eq_filter (lo up : Nat) :
    List.range' lo (up - lo) = (List.range up).filter fun n => lo ≤ n := by
  induction up with
  | zero => simp
  | succ up ih =>
    rw [List.range_succ, List.filter_append, ← ih]
    by_cases hle : lo ≤ up
    · rw [Nat.succ_sub hle, List.range'_concat, List.filter_singleton]
      simp [hle]
    · rw [Nat.sub_eq_zero_of_le (Nat.lt_of_not_le hle),
        Nat.sub_eq_zero_of_le (Nat.le_of_not_le hle), List.filter_singleton]
      simp [hle]

/-- A range is listed character by character. -/
theorem rangeChars_eq (r : Char × Char) : rangeChars r = charsBetween r.1 r.2 := by
  rw [rangeChars, filterMap_charOfNat?, range'_eq_filter, List.filter_filter, charsBetween]
  congr 2
  funext n
  rw [Bool.decide_and, Bool.and_comm]

/-- A set is listed as its characters and then its ranges, and holds no named class. -/
theorem charSet_eq_ok {s : CharSet} (h : charSet s = .ok l) :
    s.classes = [] ∧
      l = (s.chars ++ s.ranges.flatMap fun r => charsBetween r.1 r.2).map String.singleton := by
  unfold charSet at h
  split at h
  · simp at h
  · next hk =>
    simp only [bind_eq_ok_iff] at h
    obtain ⟨-, -, h⟩ := h
    cases h
    refine ⟨hk, ?_⟩
    rw [funext rangeChars_eq]

end Enumeration

namespace Regex

open Enumeration

/-! ## Trees -/

mutual

/-- The strings that a tree should be listed with. Where that is not known, the list is empty and
    means nothing. -/
def listing : Regex → List String
  | .empty => [""]
  | .literal t => [String.ofList t]
  | .primitive _ => [""]
  | .sequence parts => (listings parts).foldr cross [""]
  | .choice branches => (listings branches).flatten
  | .repetition least (some most) _ body => rowsFrom (listing body) least (most + 1 - least)
  | .group body => listing body
  | .set s => (s.chars ++ s.ranges.flatMap fun r => charsBetween r.1 r.2).map String.singleton
  | _ => []

/-- The strings of each of `l`. -/
def listings : List Regex → List (List String)
  | [] => []
  | e :: l => listing e :: listings l

end

/-- Whether a node is of a sort whose strings are known: it consumes no character, or it says which
    ones, and how often. -/
def IsListable : Regex → Prop
  | .empty | .literal _ | .sequence _ | .choice _ | .group _ => True
  | .primitive p => p.isZeroWidth = true
  | .repetition _ most _ _ => most.isSome = true
  | .set s => s.classes = []
  | .backref _ | .syntaxClass _ | .category _ | .complement _ | .intersection _ => False

/-- What is proved about a tree with a list: it is listed as it should be. -/
def ListedWell (e : Regex) : Prop :=
  ∀ found, strings e = .ok found → e.Everywhere IsListable ∧ found = e.listing

/-- The parts of a sequence are looked at, every one. -/
theorem listedWell_of_sequenceFrom {es : List Regex} (he : ∀ e ∈ es, e.ListedWell)
    {start found : List String} (h : sequenceFrom start es = .ok found) :
    (∀ e ∈ es, e.Everywhere IsListable) ∧
      found = cross start ((listings es).foldr cross [""]) := by
  induction es generalizing start with
  | nil =>
    cases h
    refine ⟨nofun, ?_⟩
    rw [listings, List.foldr_nil, cross_singleton]
    simp only [String.append_empty, List.map_id']
  | cons e es ih =>
    obtain ⟨l, hl, next, hnext, hrest⟩ := sequenceFrom_cons_eq_ok_iff.1 h
    obtain ⟨-, rfl⟩ := product_eq_ok_iff.1 hnext
    obtain ⟨hlistable, rfl⟩ := he e List.mem_cons_self l hl
    obtain ⟨hall, rfl⟩ := ih (fun x hx => he x (List.mem_cons_of_mem _ hx)) hrest
    refine ⟨List.forall_mem_cons.2 ⟨hlistable, hall⟩, ?_⟩
    rw [listings, List.foldr_cons, cross_assoc]

/-- So are the branches of a choice. -/
theorem listedWell_of_choiceFrom {es : List Regex} (he : ∀ e ∈ es, e.ListedWell)
    {count bytes : Nat} {found : List String} (h : choiceFrom count bytes es = .ok found) :
    (∀ e ∈ es, e.Everywhere IsListable) ∧ found = (listings es).flatten := by
  induction es generalizing count bytes found with
  | nil =>
    cases h
    exact ⟨nofun, rfl⟩
  | cons e es ih =>
    obtain ⟨l, hl, -, -, others, hothers, rfl⟩ := choiceFrom_cons_eq_ok_iff.1 h
    obtain ⟨hlistable, rfl⟩ := he e List.mem_cons_self l hl
    obtain ⟨hall, rfl⟩ := ih (fun x hx => he x (List.mem_cons_of_mem _ hx)) hothers
    refine ⟨List.forall_mem_cons.2 ⟨hlistable, hall⟩, ?_⟩
    rw [listings, List.flatten_cons]

/-- Every tree in normal form is listed as it should be. Of normal form only the order of bounds
    matters. -/
theorem Normal.listedWell {e : Regex} (he : e.Normal) : e.ListedWell := by
  induction e using inductionOn with
  | empty =>
    intro found h
    cases h
    exact ⟨everywhere_empty.2 trivial, rfl⟩
  | literal t =>
    intro found h
    cases h
    exact ⟨everywhere_literal.2 trivial, rfl⟩
  | primitive p =>
    intro found h
    unfold strings at h
    split at h
    · next hp =>
      cases h
      exact ⟨everywhere_primitive.2 hp, rfl⟩
    · simp at h
  | sequence l ih =>
    intro found h
    have hl := (everywhere_sequence.1 he).2
    obtain ⟨hall, rfl⟩ := listedWell_of_sequenceFrom (fun x hx => ih x hx (hl x hx)) h
    exact ⟨everywhere_sequence.2 ⟨trivial, hall⟩, cross_empty_string _⟩
  | choice l ih =>
    intro found h
    have hl := (everywhere_choice.1 he).2
    obtain ⟨hall, rfl⟩ := listedWell_of_choiceFrom (fun x hx => ih x hx (hl x hx)) h
    exact ⟨everywhere_choice.2 ⟨trivial, hall⟩, rfl⟩
  | repetition n m g e ih =>
    intro found h
    obtain ⟨hbounds, hbody⟩ := everywhere_repetition.1 he
    cases m with
    | none => simp [strings] at h
    | some m =>
      obtain ⟨body, hb, hrep⟩ := bind_eq_ok_iff.1 h
      obtain ⟨hall, rfl⟩ := ih hbody body hb
      refine ⟨everywhere_repetition.2 ⟨rfl, hall⟩, ?_⟩
      exact eq_rowsFrom_of_repetition (hbounds m rfl).1 hrep
  | group e ih =>
    intro found h
    obtain ⟨hall, rfl⟩ := ih (everywhere_group.1 he).2 found h
    exact ⟨everywhere_group.2 ⟨trivial, hall⟩, rfl⟩
  | set s =>
    intro found h
    obtain ⟨hk, rfl⟩ := charSet_eq_ok h
    exact ⟨everywhere_set.2 hk, rfl⟩
  | _ =>
    intro found h
    simp [strings] at h

/-- **Listing is exact, and never partial**: where a tree that was built has a list of strings,
    every node is of a sort whose strings are known, and the list is the one that it should be, in
    order and with repetitions. -/
theorem listing_of_enumerate {e : Regex} (he : e.Built) {found : List String}
    (h : e.enumerate = .ok found) :
    (∀ x ∈ e.nodes, x.IsListable) ∧ found = e.listing :=
  he.fit.normal.listedWell found h

/-- A tree with an unbounded repetition anywhere has no list, whatever stands beside it. -/
theorem enumerate_ne_ok_of_unbounded {e : Regex} (he : e.Built) {least : Nat} {greedy : Bool}
    {body : Regex} (hx : .repetition least none greedy body ∈ e.nodes) (found : List String) :
    e.enumerate ≠ .ok found := by
  intro h
  exact Bool.noConfusion ((he.fit.normal.listedWell found h).1 _ hx)

/-- `(?:b|[\uD7FF-\uE000]){1,2}\b`: the two ends of the range are all that it holds, and the powers
    come one after the other. -/
theorem listing_of_enumerate_powers :
    (∀ x ∈ (Regex.sequence [.repetition 1 (some 2) true
        (.set ⟨['b'], [('\uD7FF', '\uE000')], []⟩), .primitive .wordBoundary]).nodes,
      x.IsListable) ∧
      ["b", "\uD7FF", "\uE000", "bb", "b\uD7FF", "b\uE000", "\uD7FFb", "\uD7FF\uD7FF",
        "\uD7FF\uE000", "\uE000b", "\uE000\uD7FF", "\uE000\uE000"] =
        (Regex.sequence [.repetition 1 (some 2) true
          (.set ⟨['b'], [('\uD7FF', '\uE000')], []⟩), .primitive .wordBoundary]).listing := by
  have hset : Built (.set ⟨['b'], [('\uD7FF', '\uE000')], []⟩) := by
    refine .set (s := (CharSet.of (.char 'b')).adjoin (.range '\uD7FF' '\uE000')) ?_
    exact .adjoin (.adjoin .empty nofun) nofun
  have hrepeated : repeated 1 (some 2) true (.set ⟨['b'], [('\uD7FF', '\uE000')], []⟩) =
      .ok (.repetition 1 (some 2) true (.set ⟨['b'], [('\uD7FF', '\uE000')], []⟩)) := rfl
  have hbuilt : Built (seq [.repetition 1 (some 2) true
      (.set ⟨['b'], [('\uD7FF', '\uE000')], []⟩), .primitive .wordBoundary]) := by
    refine .seq ?_
    intro e he
    simp only [List.mem_cons, List.not_mem_nil, or_false] at he
    rcases he with rfl | rfl
    · exact .repeated hset ⟨by decide, by decide⟩ hrepeated
    · exact .primitive _
  exact listing_of_enumerate hbuilt (by decide +kernel)

end Regex

end RegexDialects
