import Mathlib.Algebra.BigOperators.Group.List.Basic
import Mathlib.Data.List.Count

/-!
# Quoted literals with doubled quotes

A reader of literals in which several characters are quotes: any of them ends the literal unless
another one follows, and the two then stand for one. A writer encloses a text in one fixed quote
and doubles that quote inside. What is written reads back exactly when the text has no other
quote (`literal_write_iff`), since a literal is as long as its value and the value's quotes
together (`length_of_scan`). The same holds for a list of literals (`elems_write_iff`).
-/

/-- A set of quotes, and what two of them in a row stand for. -/
structure Quotes (α : Type*) where
  isQuote : α → Bool
  pair : α → α → α
  isQuote_pair : ∀ {c d}, isQuote c → isQuote d → isQuote (pair c d)
  pair_self : ∀ {c}, isQuote c → pair c c = c

namespace Quotes

variable {α : Type*} (q : Quotes α)

/-! ## Reading -/

/-- Reads a literal from behind its opening quote: the value and what follows the literal. -/
def scan : List α → Option (List α × List α)
  | [] => none
  | [c] => if q.isQuote c then some ([], []) else none
  | c :: d :: text =>
    if q.isQuote c then
      if q.isQuote d then (scan text).map fun r => (q.pair c d :: r.1, r.2)
      else some ([], d :: text)
    else (scan (d :: text)).map fun r => (c :: r.1, r.2)

/-- Reads a literal. -/
def literal : List α → Option (List α × List α)
  | [] => none
  | c :: text => if q.isQuote c then q.scan text else none

/-- What a literal with this value adds to its text, without the enclosing quotes. -/
def width (value : List α) : Nat := value.length + value.countP q.isQuote

variable {q}

/-- A quote in the value is written twice. -/
private theorem width_cons_quote {c : α} (h : q.isQuote c) (value : List α) :
    q.width (c :: value) = q.width value + 2 := by
  simp only [width, List.length_cons, List.countP_cons_of_pos h]
  omega

private theorem width_cons_other {c : α} (h : ¬q.isQuote c) (value : List α) :
    q.width (c :: value) = q.width value + 1 := by
  simp only [width, List.length_cons, List.countP_cons_of_neg h]
  omega

/-- **The text of a literal is as long as its value says.** -/
theorem length_of_scan {text value rest : List α} (h : q.scan text = some (value, rest)) :
    text.length = q.width value + 1 + rest.length := by
  -- on the scan: the cases are the end, a quote at the end, and a pair of characters
  induction text using scan.induct q generalizing value rest with
  | case1 => cases h
  | case2 c hc =>
    rw [scan, if_pos hc] at h
    cases h
    rfl
  | case3 c hc =>
    rw [scan, if_neg hc] at h
    cases h
  -- two quotes stand for one
  | case4 c d text hc hd ih =>
    rw [scan, if_pos hc, if_pos hd] at h
    obtain ⟨r, hr, heq⟩ := Option.map_eq_some_iff.mp h
    cases heq
    rw [width_cons_quote (q.isQuote_pair hc hd), List.length_cons, List.length_cons, ih hr]
    omega
  -- one quote closes the literal
  | case5 c d text hc hd =>
    rw [scan, if_pos hc, if_neg hd] at h
    cases h
    simp only [width, List.length_nil, List.countP_nil, List.length_cons]
    omega
  | case6 c d text hc ih =>
    rw [scan, if_neg hc] at h
    obtain ⟨r, hr, heq⟩ := Option.map_eq_some_iff.mp h
    cases heq
    rw [width_cons_other hc, List.length_cons, ih hr]
    omega

/-- A literal takes its value's width and the two quotes around it. -/
private theorem length_of_literal {text value rest : List α}
    (h : q.literal text = some (value, rest)) :
    text.length = q.width value + 2 + rest.length := by
  cases text with
  | nil => cases h
  | cons c text =>
    rw [literal] at h
    split at h
    · rw [List.length_cons, length_of_scan h]
      omega
    · cases h

/-! ## Writing -/

variable [DecidableEq α]

/-- The text with every `mark` doubled. -/
def double (mark : α) (value : List α) : List α :=
  value.flatMap fun c => if c = mark then [mark, mark] else [c]

/-- The text enclosed in `mark`, with every `mark` in it doubled. -/
def write (mark : α) (value : List α) : List α := mark :: double mark value ++ [mark]

/-- Doubling, by the first character. -/
private theorem double_cons (mark c : α) (value : List α) :
    double mark (c :: value) =
      (if c = mark then [mark, mark] else [c]) ++ double mark value := by
  rw [double, List.flatMap_cons]
  rfl

/-- Each mark adds a character. -/
private theorem length_double (mark : α) (value : List α) :
    (double mark value).length = value.length + value.count mark := by
  induction value with
  | nil => rfl
  | cons c value ih =>
    rw [double_cons, List.length_append, ih, List.count_cons, List.length_cons]
    by_cases hc : c = mark
    · simp only [hc, if_true, beq_self_eq_true, List.length_cons, List.length_nil]
      omega
    · simp only [hc, if_false, beq_iff_eq, List.length_cons, List.length_nil]
      omega

/-- The length of what is written: the value, its marks once more, and the two around it. -/
private theorem length_write (mark : α) (value : List α) :
    (write mark value).length = value.length + value.count mark + 2 := by
  simp only [write, List.length_append, List.length_cons, length_double, List.length_nil]

/-- The only quote in the text is `mark`. -/
def OnlyQuote (q : Quotes α) (mark : α) (value : List α) : Prop :=
  ∀ c ∈ value, q.isQuote c → c = mark

/-- What follows a literal does not go on with a quote. -/
def Stops (q : Quotes α) (rest : List α) : Prop := ∀ c ∈ rest.head?, ¬q.isQuote c

variable {mark : α}

/-- The marks of a value are among its quotes. -/
private theorem count_le_countP (hmark : q.isQuote mark) (value : List α) :
    value.count mark ≤ value.countP q.isQuote := by
  refine List.countP_mono_left fun c _ hc => ?_
  rw [beq_iff_eq.mp hc]
  exact hmark

/-- As many quotes as marks: every quote is a mark. -/
private theorem onlyQuote_of_countP_le {value : List α} (hmark : q.isQuote mark)
    (h : value.countP q.isQuote ≤ value.count mark) : OnlyQuote q mark value := by
  induction value with
  | nil => exact fun c hc => absurd hc List.not_mem_nil
  | cons c value ih =>
    have hle : value.count mark ≤ value.countP q.isQuote := count_le_countP hmark value
    rw [List.countP_cons, List.count_cons] at h
    by_cases hc : c = mark
    · subst hc
      have htail : OnlyQuote q c value := ih (by simpa [hmark] using h)
      exact List.forall_mem_cons.mpr ⟨fun _ => rfl, htail⟩
    · -- a quote that is no mark would be one too many
      have hno : ¬q.isQuote c := fun hq => by
        simp only [hq, hc, beq_iff_eq, if_true, if_false] at h
        omega
      have htail : OnlyQuote q mark value := ih (by simpa [hno, hc] using h)
      exact List.forall_mem_cons.mpr ⟨fun hq => absurd hq hno, htail⟩

omit [DecidableEq α] in
/-- A mark that is followed by no quote closes the literal. -/
private theorem scan_close {rest : List α} (hmark : q.isQuote mark) (hrest : Stops q rest) :
    q.scan (mark :: rest) = some ([], rest) := by
  cases rest with
  | nil => rw [scan, if_pos hmark]
  | cons d rest => rw [scan, if_pos hmark, if_neg (hrest d rfl)]

/-- Behind the opening quote, what was doubled reads back. -/
private theorem scan_double {value rest : List α} (hmark : q.isQuote mark) (hrest : Stops q rest)
    (hvalue : OnlyQuote q mark value) :
    q.scan (double mark value ++ mark :: rest) = some (value, rest) := by
  induction value with
  | nil => exact scan_close hmark hrest
  | cons c value ih =>
    have ih' := ih fun c hc => hvalue c (List.mem_cons_of_mem _ hc)
    rw [double_cons]
    by_cases hc : c = mark
    · subst hc
      rw [if_pos rfl]
      show q.scan (c :: c :: (double c value ++ c :: rest)) = _
      rw [scan, if_pos hmark, if_pos hmark, ih', q.pair_self hmark]
      rfl
    · have hno : ¬q.isQuote c := fun h => hc (hvalue c List.mem_cons_self h)
      rw [if_neg hc]
      show q.scan (c :: (double mark value ++ mark :: rest)) = _
      -- the text goes on: at least the closing quote follows
      cases htail : double mark value ++ mark :: rest with
      | nil => exact absurd htail (by simp)
      | cons d text =>
        rw [scan, if_neg hno, ← htail, ih']
        rfl

/-- **A text that was quoted reads back** exactly when its only quote is the one that was
    doubled. -/
theorem literal_write_iff {value rest : List α} (hmark : q.isQuote mark)
    (hrest : Stops q rest) :
    q.literal (write mark value ++ rest) = some (value, rest) ↔ OnlyQuote q mark value := by
  constructor
  · intro h
    have hread := length_of_literal h
    rw [List.length_append, length_write, width] at hread
    exact onlyQuote_of_countP_le hmark (by omega)
  · intro h
    have htext : write mark value ++ rest = mark :: (double mark value ++ mark :: rest) := by
      simp [write]
    rw [htext, literal, if_pos hmark]
    exact scan_double hmark hrest h

/-! ## Lists of literals -/

section Lists

variable (q) (sep close : α)

/-- Reads literals, each behind a separator, to the end of the list. -/
def more : List α → Option (List (List α) × List α)
  | [] => none
  | c :: text =>
    if c = close then some ([], text)
    else if c = sep then
      match _hread : q.literal text with
      | none => none
      | some (value, rest) => (more rest).map fun r => (value :: r.1, r.2)
    else none
termination_by text => text.length
decreasing_by
  have hlen := length_of_literal _hread
  rw [List.length_cons]
  omega

/-- Reads a list; before its first literal stands no separator. -/
def elems : List α → Option (List (List α) × List α)
  | [] => none
  | c :: text => if c = close then some ([], text) else q.more sep close (sep :: c :: text)

variable {q sep close}

omit [DecidableEq α] in
private theorem width_append (value value' : List α) :
    q.width (value ++ value') = q.width value + q.width value' := by
  simp only [width, List.length_append, List.countP_append]
  omega

/-- A list of literals is as long as its values, their quotes, and three characters for each. -/
private theorem length_of_more {text rest : List α} {values : List (List α)}
    (h : q.more sep close text = some (values, rest)) :
    text.length = q.width values.flatten + 3 * values.length + 1 + rest.length := by
  -- on the text: the list is closed, goes on with a literal, or is broken
  induction text using more.induct q sep close generalizing values rest with
  | case1 =>
    rw [more] at h
    cases h
  | case2 text =>
    rw [more, if_pos rfl] at h
    cases h
    simp only [width, List.length_cons, List.flatten_nil, List.length_nil, List.countP_nil]
    omega
  | case3 text hread hclose =>
    rw [more, if_neg hclose, if_pos rfl] at h
    split at h
    · cases h
    · rename_i heq
      rw [hread] at heq
      cases heq
  | case4 text value tail hread hclose ih =>
    rw [more, if_neg hclose, if_pos rfl] at h
    split at h
    · cases h
    · rename_i heq
      rw [hread] at heq
      cases heq
      obtain ⟨r, hr, heq⟩ := Option.map_eq_some_iff.mp h
      cases heq
      -- a separator, the literal, and what the rest takes
      have hlen := length_of_literal hread
      rw [List.length_cons, hlen, ih hr, List.flatten_cons, width_append, List.length_cons]
      omega
  | case5 c text hclose hsep =>
    rw [more, if_neg hclose, if_neg hsep] at h
    cases h

/-- A step of `more` over a literal that was read. -/
private theorem more_cons {text rest value : List α} (hne : sep ≠ close)
    (h : q.literal text = some (value, rest)) :
    q.more sep close (sep :: text) =
      (q.more sep close rest).map fun r => (value :: r.1, r.2) := by
  rw [more, if_neg hne, if_pos rfl]
  split
  · rename_i heq
    rw [h] at heq
    cases heq
  · rename_i heq
    rw [h] at heq
    cases heq
    rfl

/-- The literals of these texts, each behind a separator. -/
def writeMore (sep mark : α) (values : List (List α)) : List α :=
  values.flatMap fun value => sep :: write mark value

/-- The length of the literals that follow the first one, each with its separator. -/
private theorem length_writeMore (values : List (List α)) :
    (writeMore sep mark values).length =
      values.flatten.length + values.flatten.count mark + 3 * values.length := by
  induction values with
  | nil => rfl
  | cons value values ih =>
    have hcons : writeMore sep mark (value :: values) =
        sep :: (write mark value ++ writeMore sep mark values) := rfl
    rw [hcons, List.length_cons, List.length_append, length_write, ih, List.flatten_cons,
      List.length_append, List.count_append, List.length_cons]
    omega

omit [DecidableEq α] in
/-- Values have no quote but the mark when their concatenation has none. -/
private theorem onlyQuote_flatten_iff {values : List (List α)} :
    OnlyQuote q mark values.flatten ↔ ∀ value ∈ values, OnlyQuote q mark value := by
  constructor
  · intro h value hvalue c hc
    exact h c (List.mem_flatten_of_mem hvalue hc)
  · intro h c hc
    obtain ⟨value, hvalue, hc⟩ := List.mem_flatten.mp hc
    exact h value hvalue c hc

/-- A separator before a separated list is one before each literal. -/
private theorem cons_intercalate (sep mark : α) (value : List α) (values : List (List α)) :
    sep :: [sep].intercalate ((value :: values).map (write mark)) =
      writeMore sep mark (value :: values) := by
  induction values generalizing value with
  | nil => simp [writeMore]
  | cons value' values ih =>
    rw [List.map_cons, List.map_cons, List.intercalate_cons_cons, ← List.map_cons,
      List.append_assoc, List.singleton_append, ih value']
    rfl

section Readable

variable (hmark : q.isQuote mark) (hsep : ¬q.isQuote sep) (hclose : ¬q.isQuote close)
  (hne : sep ≠ close) (values : List (List α)) (rest : List α)

include hsep hclose in
/-- Neither a separator nor the end of the list is a quote. -/
private theorem stops_writeMore : Stops q (writeMore sep mark values ++ close :: rest) := by
  intro c hc
  cases values with
  | nil =>
    obtain rfl : close = c := Option.some.inj hc
    exact hclose
  | cons value values =>
    obtain rfl : sep = c := Option.some.inj hc
    exact hsep

include hmark hsep hclose hne in
/-- What is written after the first literal is read back. -/
private theorem more_writeMore (h : ∀ value ∈ values, OnlyQuote q mark value) :
    q.more sep close (writeMore sep mark values ++ close :: rest) = some (values, rest) := by
  induction values with
  | nil =>
    show q.more sep close (close :: rest) = _
    rw [more, if_pos rfl]
  | cons value values ih =>
    have htext : writeMore sep mark (value :: values) ++ close :: rest =
        sep :: (write mark value ++ (writeMore sep mark values ++ close :: rest)) := by
      simp [writeMore]
    -- what follows a literal is a separator or the end, so its mark closes it
    have hstops : Stops q (writeMore sep mark values ++ close :: rest) :=
      stops_writeMore hsep hclose values rest
    have hread := (literal_write_iff hmark hstops).mpr (h value List.mem_cons_self)
    rw [htext, more_cons hne hread, ih fun v hv => h v (List.mem_cons_of_mem _ hv)]
    rfl

include hmark hsep hclose hne in
/-- **A list that was quoted reads back** exactly when the texts have no quote but the one that
    was doubled. -/
theorem elems_write_iff :
    q.elems sep close ([sep].intercalate (values.map (write mark)) ++ close :: rest) =
      some (values, rest) ↔ ∀ value ∈ values, OnlyQuote q mark value := by
  cases values with
  | nil =>
    refine iff_of_true ?_ fun v hv => absurd hv List.not_mem_nil
    show q.elems sep close (close :: rest) = _
    rw [elems, if_pos rfl]
  | cons value values =>
    -- a list with a literal reads as one with a separator before it
    have hfirst : mark ≠ close := fun h => hclose (h ▸ hmark)
    have htext : [sep].intercalate ((value :: values).map (write mark)) =
        mark :: (double mark value ++ [mark] ++ writeMore sep mark values) :=
      (List.cons.inj (cons_intercalate sep mark value values)).2
    have helems : q.elems sep close
        ([sep].intercalate ((value :: values).map (write mark)) ++ close :: rest) =
        q.more sep close (writeMore sep mark (value :: values) ++ close :: rest) := by
      rw [← cons_intercalate, htext, List.cons_append, elems, if_neg hfirst]
      rfl
    rw [helems]
    constructor
    · intro h
      have hread := length_of_more h
      simp only [List.length_append, length_writeMore, List.length_cons, width] at hread
      exact onlyQuote_flatten_iff.mp (onlyQuote_of_countP_le hmark (by omega))
    · exact more_writeMore hmark hsep hclose hne _ rest

end Readable

end Lists

end Quotes
