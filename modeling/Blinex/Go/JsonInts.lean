import Mathlib.Algebra.GroupWithZero.Nat
import Mathlib.Algebra.Ring.Int.Defs
import Blinex.Go.JsonCorrect
import Blinex.Go.Netip

/-!
# Integers in Go's `encoding/json`

An integer is decoded from the text of a value, so the members of an object are read with the texts
of their values. `strconv.FormatInt` writes what is read back.
-/

namespace Blinex.Go.Strconv

/-- `FormatInt` to base 10. -/
def formatInt (n : Int) : List Char :=
  if n < 0 then '-' :: Nat.toDigits 10 n.natAbs else Nat.toDigits 10 n.natAbs

/-- `ParseInt` to base 10, for 64 bits. -/
def parseInt : List Char → Option Int
  | '-' :: s => (Netip.decNumber s).bind fun n => if n ≤ 2 ^ 63 then some (-n) else none
  | '+' :: s => (Netip.decNumber s).bind fun n => if n < 2 ^ 63 then some n else none
  | s => (Netip.decNumber s).bind fun n => if n < 2 ^ 63 then some n else none

private theorem toDigits_isDigit {n : Nat} {c : Char} (hc : c ∈ Nat.toDigits 10 n) :
    c.isDigit = true :=
  Nat.isDigit_of_mem_toDigits (by decide) (by decide) hc

private theorem decNumber_toDigits (n : Nat) : Netip.decNumber (Nat.toDigits 10 n) = some n := by
  rw [← Nat.toList_repr, Netip.decNumber_repr]

/-- There is no leading zero. -/
private theorem head_toDigits_ne {n : Nat} (h : 0 < n) : (Nat.toDigits 10 n).head? ≠ some '0' := by
  induction n using Nat.strongRecOn with
  | ind n ih =>
    rw [Nat.toDigits_eq_if (by decide)]
    split
    · rename_i hn
      have hall : ∀ n < 10, 0 < n → [n.digitChar].head? ≠ some '0' := by decide
      exact hall n hn h
    · rw [List.head?_append_of_ne_nil _ Nat.toDigits_ne_nil]
      exact ih (n / 10) (by omega) (by omega)

/-- `strconv.ParseInt` reads back what `strconv.FormatInt` writes, within 64 bits. -/
private theorem parseInt_formatInt {n : Int} (hlow : -2 ^ 63 ≤ n) (hhigh : n < 2 ^ 63) :
    parseInt (formatInt n) = some n := by
  by_cases hneg : n < 0
  · rw [formatInt, if_pos hneg, parseInt, decNumber_toDigits, Option.bind_some,
      if_pos (by omega)]
    congr 1
    omega
  · -- the first character is a digit and neither of the signs
    obtain ⟨c, cs, hdigits⟩ :=
      List.exists_cons_of_ne_nil (Nat.toDigits_ne_nil (n := n.natAbs) (b := 10))
    have hc : c.isDigit = true := toDigits_isDigit (hdigits ▸ List.mem_cons_self)
    have hminus : c ≠ '-' := by
      intro heq
      rw [heq] at hc
      exact absurd hc (by decide)
    have hplus : c ≠ '+' := by
      intro heq
      rw [heq] at hc
      exact absurd hc (by decide)
    rw [formatInt, if_neg hneg, hdigits, parseInt.eq_3 _ (by simp [hminus]) (by simp [hplus]),
      ← hdigits, decNumber_toDigits, Option.bind_some, if_pos (by omega)]
    congr 1
    omega

end Blinex.Go.Strconv

namespace Blinex.Go.Json

/-! ## Members with the texts of their values -/

/-- A member with the text of its value. -/
def textMember (val : Reader Value) : Reader (List UInt8 × Value × List UInt8) := fun data => do
  let rest ← expect (ch '"') data
  let (key, rest) ← scanString .plain rest
  let start ← expect (ch ':') rest
  let (v, rest) ← val start
  -- The white space before a value is no part of it.
  return ((key, v, (start.take (start.length - rest.length)).dropWhile isSpace), rest)

/-- An object, as `value` reads it, with the texts of its members' values. -/
def textObject : Reader (List (List UInt8 × Value × List UInt8)) := fun data => do
  let start ← expect (ch '{') data
  match expect (ch '}') start with
  | some rest => return ([], rest)
  | none => sequence (ch '}') (textMember (value (maxNestingDepth - 1))) start.length start

/-- The characters of an ASCII text. -/
def chars (text : List UInt8) : List Char := text.map fun b => Char.ofNat b.toNat

/-- A value for an `int64`: `null` leaves it as it is. -/
def setInt64 (v : Value) (text : List UInt8) (old : Int) : Option Int :=
  match v with
  | .num => Strconv.parseInt (chars text)
  | .null => some old
  | _ => none

/-- An integer, as `Marshal` writes it. -/
def int (n : Int) : List UInt8 := (Strconv.formatInt n).map ch

/-! ## What is written is read -/

private theorem toNat_ch {c : Char} (h : c.toNat < 256) : (ch c).toNat = c.toNat := by
  rw [ch, UInt8.toNat_ofNat', Nat.mod_eq_of_lt h]

private theorem toNat_of_isDigit {c : Char} (h : c.isDigit = true) :
    48 ≤ c.toNat ∧ c.toNat ≤ 57 := by
  simp only [Char.isDigit, Bool.and_eq_true, decide_eq_true_eq] at h
  exact h

/-- The byte of a digit is a digit. -/
private theorem isDigit_ch {c : Char} (h : c.isDigit = true) : isDigit (ch c) = true := by
  obtain ⟨hlow, hhigh⟩ := toNat_of_isDigit h
  have hch : (ch c).toNat = c.toNat := toNat_ch (by omega)
  rw [isDigit, Bool.and_eq_true, decide_eq_true_eq, decide_eq_true_eq, UInt8.le_iff_toNat_le,
    UInt8.le_iff_toNat_le, hch]
  exact ⟨hlow, hhigh⟩

/-- Characters below 256 survive as bytes. -/
private theorem chars_map_ch {s : List Char} (h : ∀ c ∈ s, c.toNat < 256) :
    chars (s.map ch) = s := by
  have hid : s.map (fun c => Char.ofNat (ch c).toNat) = s.map id := by
    refine List.map_congr_left fun c hc => ?_
    rw [toNat_ch (h c hc), Char.ofNat_toNat, id]
  rw [chars, List.map_map]
  exact hid.trans (List.map_id s)

/-- Digits are scanned up to a byte that cannot continue the number. -/
private theorem scanNumber_digits {digits : List Char} (hdigits : ∀ c ∈ digits, c.isDigit = true)
    {b : UInt8} (hb : NumState.int.next b = none) (rest : List UInt8) :
    scanNumber .int (digits.map ch ++ b :: rest) = some (b :: rest) := by
  induction digits with
  | nil =>
    simp only [List.map_nil, List.nil_append, scanNumber, hb]
    rfl
  | cons c digits ih =>
    obtain ⟨hc, hdigits⟩ := List.forall_mem_cons.mp hdigits
    have hnext : NumState.int.next (ch c) = some .int := by
      rw [NumState.next, if_pos (isDigit_ch hc)]
    simp only [List.map_cons, List.cons_append, scanNumber, hnext]
    exact ih hdigits

/-- A natural number, at the start of a number or after its sign. -/
private theorem scanNumber_toDigits {st : NumState} (hst : st = .begin ∨ st = .neg) (n : Nat)
    {b : UInt8}
    (hint : NumState.int.next b = none) (hzero : NumState.zero.next b = none) (rest : List UInt8) :
    scanNumber st ((Nat.toDigits 10 n).map ch ++ b :: rest) = some (b :: rest) := by
  by_cases hn : n = 0
  · -- zero is one digit, after which the scanner accepts no other
    subst hn
    have hnext : st.next (ch '0') = some .zero := by
      rcases hst with rfl | rfl <;> decide
    have hdigits : Nat.toDigits 10 0 = ['0'] := by decide
    rw [hdigits]
    simp only [List.map_cons, List.map_nil, List.cons_append, List.nil_append, scanNumber, hnext,
      hzero]
    rfl
  · -- another number has a first digit that is not zero
    obtain ⟨c, cs, hdigits⟩ :=
      List.exists_cons_of_ne_nil (Nat.toDigits_ne_nil (n := n) (b := 10))
    have hall (d : Char) (hd : d ∈ c :: cs) : d.isDigit = true :=
      Strconv.toDigits_isDigit (hdigits ▸ hd)
    obtain ⟨hc, hcs⟩ := List.forall_mem_cons.mp hall
    have hne : c ≠ '0' := by
      intro heq
      refine Strconv.head_toDigits_ne (Nat.pos_of_ne_zero hn) ?_
      rw [hdigits, heq, List.head?_cons]
    have hnext : st.next (ch c) = some .int := by
      obtain ⟨hlow, hhigh⟩ := toNat_of_isDigit hc
      have hzero' : ch c ≠ ch '0' := by
        intro heq
        have hnat := congrArg UInt8.toNat heq
        rw [toNat_ch (by omega)] at hnat
        exact hne (Char.toNat_inj.mp hnat)
      have hminus : ch c ≠ ch '-' := by
        intro heq
        have hnat := congrArg UInt8.toNat heq
        rw [toNat_ch (by omega)] at hnat
        exact absurd (hnat.symm.trans_ge hlow) (by decide)
      rcases hst with rfl | rfl
      · rw [NumState.next, if_neg hminus, if_neg hzero', if_pos (isDigit_ch hc)]
      · rw [NumState.next, if_neg hzero', if_pos (isDigit_ch hc)]
    rw [hdigits]
    simp only [List.map_cons, List.cons_append, scanNumber, hnext]
    exact scanNumber_digits hcs hint rest

/-- The byte starts a number. -/
def startsNumber (b : UInt8) : Bool := b = ch '-' || isDigit b

section StartsNumber

variable {b : UInt8} (hb : startsNumber b = true)
include hb

/-- A byte that can start a number differs from one that cannot. -/
private theorem startsNumber_ne {b' : UInt8} (hb' : startsNumber b' = false) : b ≠ b' := by
  intro heq
  rw [heq, hb'] at hb
  cases hb

/-- A number starts with no white space. -/
private theorem isSpace_of_startsNumber : isSpace b = false := by
  rw [isSpace, decide_eq_false_iff_not]
  intro hmem
  have hnone : [ch ' ', ch '\t', ch '\r', ch '\n'].all (!startsNumber ·) = true := by decide
  have hb' := List.all_eq_true.mp hnone b hmem
  rw [hb] at hb'
  cases hb'

/-- What starts a number starts nothing else. -/
private theorem value_number (depth : Nat) (data : List UInt8) :
    value depth (b :: data) = (scanNumber .begin (b :: data)).map fun rest => (.num, rest) := by
  have hother (b' : UInt8) (hb' : startsNumber b' = false) : b ≠ b' := startsNumber_ne hb hb'
  have hspace : isSpace b = false := isSpace_of_startsNumber hb
  -- of the bytes a value can start with, those of a number are tried last
  have hread : ∀ obj arr : Reader Value, valueWith obj arr (b :: data)
      = (scanNumber .begin (b :: data)).map fun rest => (.num, rest) := by
    intro obj arr
    rw [valueWith, List.dropWhile_cons_of_neg (by simp [hspace])]
    simp only [if_neg (hother (ch '{') (by decide)), if_neg (hother (ch '[') (by decide)),
      if_neg (hother (ch '"') (by decide)), if_neg (hother (ch 't') (by decide)),
      if_neg (hother (ch 'f') (by decide)), if_neg (hother (ch 'n') (by decide))]
  cases depth with
  | zero => exact hread _ _
  | succ depth => exact hread _ _

end StartsNumber

/-- The text of a member's value. -/
structure MemberText (text : List UInt8) (v : Value) : Prop where
  read : ReadsItem (ch '}') (value (maxNestingDepth - 1)) text v
  trimmed : text.dropWhile isSpace = text

/-- A string as the value of a member. -/
theorem memberText_quote (s : String) : MemberText (quote s) (.str (quoteLit s)) where
  read b rest _ := value_quote _ s (b :: rest)
  trimmed := List.dropWhile_cons_of_neg (by decide)

/-- An integer is written with a first byte that can start a number. -/
private theorem exists_int_eq (n : Int) : ∃ b text, int n = b :: text ∧ startsNumber b = true := by
  rw [int, Strconv.formatInt]
  split
  · exact ⟨_, _, rfl, by decide⟩
  · obtain ⟨c, cs, hdigits⟩ :=
      List.exists_cons_of_ne_nil (Nat.toDigits_ne_nil (n := n.natAbs) (b := 10))
    have hc : c.isDigit = true := Strconv.toDigits_isDigit (hdigits ▸ List.mem_cons_self)
    refine ⟨ch c, cs.map ch, by rw [hdigits, List.map_cons], ?_⟩
    rw [startsNumber, isDigit_ch hc, Bool.or_true]

/-- An integer is scanned up to the brace or comma behind it. -/
private theorem scanNumber_int (n : Int) {b : UInt8} (hb : b = ch '}' ∨ b = ch ',')
    (rest : List UInt8) :
    scanNumber .begin (int n ++ b :: rest) = some (b :: rest) := by
  have hint : NumState.int.next b = none := by
    rcases hb with rfl | rfl <;> decide
  have hzero : NumState.zero.next b = none := by
    rcases hb with rfl | rfl <;> decide
  rw [int, Strconv.formatInt]
  split
  · have hminus : NumState.begin.next (ch '-') = some .neg := by decide
    simp only [List.map_cons, List.cons_append, scanNumber, hminus]
    exact scanNumber_toDigits (.inr rfl) _ hint hzero rest
  · exact scanNumber_toDigits (.inl rfl) _ hint hzero rest

/-- An integer as the value of a member. -/
theorem memberText_int (n : Int) : MemberText (int n) .num := by
  obtain ⟨b, text, htext, hb⟩ := exists_int_eq n
  constructor
  · intro b' rest hb'
    have hscan := scanNumber_int n hb' rest
    rw [htext, List.cons_append] at hscan ⊢
    rw [value_number hb, hscan, Option.map_some]
  · rw [htext, List.dropWhile_cons_of_neg (by simp [isSpace_of_startsNumber hb])]

/-- An integer of 64 bits that was written is stored in the field. -/
theorem setInt64_int {n : Int} (hlow : -2 ^ 63 ≤ n) (hhigh : n < 2 ^ 63) (old : Int) :
    setInt64 .num (int n) old = some n := by
  have hascii : ∀ c ∈ Strconv.formatInt n, c.toNat < 256 := by
    have hdigits (m : Nat) (c : Char) (hc : c ∈ Nat.toDigits 10 m) : c.toNat < 256 := by
      have hrange := toNat_of_isDigit (Strconv.toDigits_isDigit hc)
      omega
    rw [Strconv.formatInt]
    split
    · exact List.forall_mem_cons.mpr ⟨by decide, hdigits _⟩
    · exact hdigits _
  rw [setInt64, int, chars_map_ch hascii, Strconv.parseInt_formatInt hlow hhigh]

/-- A member that was written is read with the text of its value. -/
private theorem textMember_written {key : String} {text : List UInt8} {v : Value}
    (h : MemberText text v) :
    ReadsItem (ch '}') (textMember (value (maxNestingDepth - 1))) (quote key ++ ch ':' :: text)
      (quoteLit key, v, text) := by
  intro b rest hb
  have hquote : isSpace (ch '"') = false := by decide
  have hcolon : isSpace (ch ':') = false := by decide
  have htake : (text ++ b :: rest).take ((text ++ b :: rest).length - (b :: rest).length) = text :=
    List.take_left' (by simp)
  simp only [textMember, quote, List.cons_append, List.append_assoc, List.nil_append,
    expect_cons hquote, scanString_quoteLit, expect_cons hcolon, h.read b rest hb,
    Option.bind_eq_bind, Option.bind_some, Option.pure_def, htake, h.trimmed]

/-- An object is read with the texts it was written from. -/
theorem textObject_written (items : List (String × List UInt8 × Value)) (hne : items ≠ [])
    (h : ∀ it ∈ items, MemberText it.2.1 it.2.2) :
    Reads textObject (object (items.map fun it => (it.1, it.2.1)))
      (items.map fun it => (quoteLit it.1, it.2.2, it.2.1)) := by
  intro rest
  have hspace : isSpace (ch '{') = false := by decide
  have hclose : isSpace (ch '}') = false := by decide
  -- The members with their texts, as the loop reads them.
  obtain ⟨ms, hms⟩ : ∃ ms, ms = items.map fun it =>
      (quote it.1 ++ ch ':' :: it.2.1, (quoteLit it.1, it.2.2, it.2.1)) := ⟨_, rfl⟩
  have htexts : (items.map fun it => (it.1, it.2.1)).map (fun m => quote m.1 ++ ch ':' :: m.2)
      = ms.map Prod.fst := by simp [hms]
  have hvalues : items.map (fun it => (quoteLit it.1, it.2.2, it.2.1)) = ms.map Prod.snd := by
    simp [hms]
  have hreads : ∀ m ∈ ms,
      ReadsItem (ch '}') (textMember (value (maxNestingDepth - 1))) m.1 m.2 := by
    rw [hms]
    intro m hm
    obtain ⟨it, hit, rfl⟩ := List.mem_map.mp hm
    exact textMember_written (h it hit)
  have hmsne : ms ≠ [] := by simpa [hms] using hne
  -- the first member starts with a quote, so the object is not taken for an empty one
  have hopen : expect (ch '}') ([ch ','].intercalate (ms.map Prod.fst) ++ ch '}' :: rest)
      = none := by
    obtain ⟨text, htext⟩ : ∃ text, [ch ','].intercalate (ms.map Prod.fst) = ch '"' :: text := by
      rw [hms]
      obtain ⟨it, items, rfl⟩ := List.exists_cons_of_ne_nil hne
      cases items <;> simp [quote]
    rw [htext, List.cons_append, expect_other (by decide) (by decide)]
  rw [object, htexts, hvalues, List.cons_append, List.append_assoc, List.singleton_append]
  simp only [textObject, expect_cons hspace, hopen, Option.bind_eq_bind, Option.bind_some,
    sequence_items hclose (by decide) ms hmsne hreads rest _ (Nat.le_refl _)]

end Blinex.Go.Json
