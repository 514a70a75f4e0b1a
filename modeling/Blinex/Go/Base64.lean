import Mathlib.Data.List.Basic

/-!
# Go's `base64.StdEncoding`, `base64.RawURLEncoding` and `hex.EncodeToString`

Decoding follows `encoding/base64`: carriage returns and newlines are skipped,
padding is required and nothing may follow it, and the bits the padding leaves
unused are not looked at, so several texts can decode to the same bytes. `RawURLEncoding` has
another alphabet and no padding.
-/

namespace Blinex.Go.Base64

/-- The character for a six-bit value. -/
def encodeDigit (n : Nat) : Char :=
  if n < 26 then Char.ofNat (n + 65)
  else if n < 52 then Char.ofNat (n - 26 + 97)
  else if n < 62 then Char.ofNat (n - 52 + 48)
  else if n = 62 then '+' else '/'

/-- The six-bit value of a character. -/
def decodeDigit (c : Char) : Option Nat :=
  if 'A' ≤ c ∧ c ≤ 'Z' then some (c.toNat - 65)
  else if 'a' ≤ c ∧ c ≤ 'z' then some (c.toNat - 97 + 26)
  else if '0' ≤ c ∧ c ≤ '9' then some (c.toNat - 48 + 52)
  else if c = '+' then some 62
  else if c = '/' then some 63
  else none

/-- `StdEncoding.EncodeToString`, as characters. -/
def encodeChars : List UInt8 → List Char
  | [] => []
  | [a] =>
    [encodeDigit (a.toNat / 4), encodeDigit (a.toNat % 4 * 16), '=', '=']
  | [a, b] =>
    [encodeDigit (a.toNat / 4), encodeDigit (a.toNat % 4 * 16 + b.toNat / 16),
      encodeDigit (b.toNat % 16 * 4), '=']
  | a :: b :: c :: rest =>
    encodeDigit (a.toNat / 4) :: encodeDigit (a.toNat % 4 * 16 + b.toNat / 16) ::
      encodeDigit (b.toNat % 16 * 4 + c.toNat / 64) :: encodeDigit (c.toNat % 64) ::
      encodeChars rest

/-- `StdEncoding.EncodeToString`. -/
def encodeToString (b : List UInt8) : String := String.ofList (encodeChars b)

/-- `decodeQuantum` in a loop, on text without line ends. -/
def decodeChars : List Char → Option (List UInt8)
  | [] => some []
  | c₀ :: c₁ :: c₂ :: c₃ :: rest =>
    match decodeDigit c₀, decodeDigit c₁ with
    | some d₀, some d₁ =>
      let b₀ := UInt8.ofNat (d₀ * 4 + d₁ / 16)
      -- padding ends the text: one byte when there are two characters of it, two when there is one
      if c₂ = '=' then if c₃ = '=' ∧ rest = [] then some [b₀] else none
      else
        match decodeDigit c₂ with
        | none => none
        | some d₂ =>
          let b₁ := UInt8.ofNat (d₁ % 16 * 16 + d₂ / 4)
          if c₃ = '=' then if rest = [] then some [b₀, b₁] else none
          else
            match decodeDigit c₃ with
            | none => none
            | some d₃ =>
              (decodeChars rest).map fun bs => b₀ :: b₁ :: UInt8.ofNat (d₂ % 4 * 64 + d₃) :: bs
    | _, _ => none
  | _ => none

/-- `StdEncoding.DecodeString`. -/
def decodeString (s : String) : Option (List UInt8) :=
  decodeChars (s.toList.filter fun c => c ≠ '\r' ∧ c ≠ '\n')

example : encodeToString [0x4d, 0x61] = "TWE=" := by decide

example : decodeString "TWE=" = some [0x4d, 0x61] := by decide

-- The last digit of `TWF=` has bits the decoder ignores.
example : decodeString "TWF=" = decodeString "TWE=" := by decide

/-! ## `RawURLEncoding` -/

namespace RawURL

/-- The character for a six-bit value. -/
def encodeDigit (n : Nat) : Char :=
  if n < 62 then Base64.encodeDigit n else if n = 62 then '-' else '_'

/-- The six-bit value of a character. -/
def decodeDigit (c : Char) : Option Nat :=
  if c = '-' then some 62
  else if c = '_' then some 63
  else if c = '+' ∨ c = '/' then none
  else Base64.decodeDigit c

/-- `RawURLEncoding.EncodeToString`, as characters. -/
def encodeChars : List UInt8 → List Char
  | [] => []
  | [a] => [encodeDigit (a.toNat / 4), encodeDigit (a.toNat % 4 * 16)]
  | [a, b] =>
    [encodeDigit (a.toNat / 4), encodeDigit (a.toNat % 4 * 16 + b.toNat / 16),
      encodeDigit (b.toNat % 16 * 4)]
  | a :: b :: c :: rest =>
    encodeDigit (a.toNat / 4) :: encodeDigit (a.toNat % 4 * 16 + b.toNat / 16) ::
      encodeDigit (b.toNat % 16 * 4 + c.toNat / 64) :: encodeDigit (c.toNat % 64) ::
      encodeChars rest

/-- `RawURLEncoding.EncodeToString`. -/
def encodeToString (b : List UInt8) : String := String.ofList (encodeChars b)

/-- `decodeQuantum` in a loop, on text without line ends: the last quantum may be short, but not
    of one character. -/
def decodeChars : List Char → Option (List UInt8)
  | [] => some []
  -- a single character cannot hold a byte
  | [_] => none
  | [c₀, c₁] => do
    let d₀ ← decodeDigit c₀
    let d₁ ← decodeDigit c₁
    return [UInt8.ofNat (d₀ * 4 + d₁ / 16)]
  | [c₀, c₁, c₂] => do
    let d₀ ← decodeDigit c₀
    let d₁ ← decodeDigit c₁
    let d₂ ← decodeDigit c₂
    return [UInt8.ofNat (d₀ * 4 + d₁ / 16), UInt8.ofNat (d₁ % 16 * 16 + d₂ / 4)]
  | c₀ :: c₁ :: c₂ :: c₃ :: rest => do
    let d₀ ← decodeDigit c₀
    let d₁ ← decodeDigit c₁
    let d₂ ← decodeDigit c₂
    let d₃ ← decodeDigit c₃
    let bs ← decodeChars rest
    return UInt8.ofNat (d₀ * 4 + d₁ / 16) :: UInt8.ofNat (d₁ % 16 * 16 + d₂ / 4) ::
      UInt8.ofNat (d₂ % 4 * 64 + d₃) :: bs

/-- `RawURLEncoding.DecodeString`. -/
def decodeString (s : String) : Option (List UInt8) :=
  decodeChars (s.toList.filter fun c => c ≠ '\r' ∧ c ≠ '\n')

/-- Each of the 64 digits is read back. -/
private theorem decodeDigit_encodeDigit {n : Nat} (h : n < 64) :
    decodeDigit (encodeDigit n) = some n := by
  have hall : ∀ n < 64, decodeDigit (encodeDigit n) = some n := by decide +kernel
  exact hall n h

private theorem ofNat_eq {n : Nat} {b : UInt8} (h : n = b.toNat) : UInt8.ofNat n = b := by
  rw [h, UInt8.ofNat_toNat]

/-- What is encoded is decoded to the same bytes. -/
private theorem decodeChars_encodeChars (b : List UInt8) :
    decodeChars (encodeChars b) = some b := by
  -- on the encoder: nothing left, one byte, two bytes, or a group of three
  fun_induction encodeChars b with
  | case1 => rfl
  | case2 a =>
    have ha := a.toNat_lt
    simp only [decodeChars, decodeDigit_encodeDigit (show a.toNat / 4 < 64 by omega),
      decodeDigit_encodeDigit (show a.toNat % 4 * 16 < 64 by omega), Option.bind_eq_bind,
      Option.bind_some, Option.pure_def]
    rw [ofNat_eq (show _ = a.toNat by omega)]
  | case3 a b =>
    have ha := a.toNat_lt
    have hb := b.toNat_lt
    simp only [decodeChars, decodeDigit_encodeDigit (show a.toNat / 4 < 64 by omega),
      decodeDigit_encodeDigit (show a.toNat % 4 * 16 + b.toNat / 16 < 64 by omega),
      decodeDigit_encodeDigit (show b.toNat % 16 * 4 < 64 by omega), Option.bind_eq_bind,
      Option.bind_some, Option.pure_def]
    rw [ofNat_eq (show _ = a.toNat by omega), ofNat_eq (show _ = b.toNat by omega)]
  | case4 a b c rest ih =>
    have ha := a.toNat_lt
    have hb := b.toNat_lt
    have hc := c.toNat_lt
    simp only [decodeChars, decodeDigit_encodeDigit (show a.toNat / 4 < 64 by omega),
      decodeDigit_encodeDigit (show a.toNat % 4 * 16 + b.toNat / 16 < 64 by omega),
      decodeDigit_encodeDigit (show b.toNat % 16 * 4 + c.toNat / 64 < 64 by omega),
      decodeDigit_encodeDigit (show c.toNat % 64 < 64 by omega), ih, Option.bind_eq_bind,
      Option.bind_some, Option.pure_def]
    rw [ofNat_eq (show _ = a.toNat by omega), ofNat_eq (show _ = b.toNat by omega),
      ofNat_eq (show _ = c.toNat by omega)]

/-- Only characters of the alphabet are written. -/
private theorem isSome_decodeDigit_of_mem {b : List UInt8} {x : Char} (hx : x ∈ encodeChars b) :
    (decodeDigit x).isSome = true := by
  have hdigit (n : Nat) (h : n < 64) : (decodeDigit (encodeDigit n)).isSome = true := by
    rw [decodeDigit_encodeDigit h, Option.isSome_some]
  -- the same cases: every digit written is below 64
  fun_induction encodeChars b with
  | case1 => exact absurd hx List.not_mem_nil
  | case2 a =>
    have ha := a.toNat_lt
    simp only [List.mem_cons, List.not_mem_nil, or_false] at hx
    rcases hx with rfl | rfl <;> exact hdigit _ (by omega)
  | case3 a b =>
    have ha := a.toNat_lt
    have hb := b.toNat_lt
    simp only [List.mem_cons, List.not_mem_nil, or_false] at hx
    rcases hx with rfl | rfl | rfl <;> exact hdigit _ (by omega)
  | case4 a b c rest ih =>
    have ha := a.toNat_lt
    have hb := b.toNat_lt
    have hc := c.toNat_lt
    simp only [List.mem_cons] at hx
    rcases hx with rfl | rfl | rfl | rfl | hx
    · exact hdigit _ (by omega)
    · exact hdigit _ (by omega)
    · exact hdigit _ (by omega)
    · exact hdigit _ (by omega)
    · exact ih hx

/-- What `EncodeToString` writes, `DecodeString` reads back. -/
theorem decodeString_encodeToString (b : List UInt8) :
    decodeString (encodeToString b) = some b := by
  -- the decoder skips line breaks, and none is written
  have hlines : (encodeChars b).filter (fun c => c ≠ '\r' ∧ c ≠ '\n') = encodeChars b := by
    refine List.filter_eq_self.mpr fun c hc => ?_
    have hsome := isSome_decodeDigit_of_mem hc
    refine decide_eq_true ⟨?_, ?_⟩
    · intro heq
      rw [heq] at hsome
      exact absurd hsome (by decide)
    · intro heq
      rw [heq] at hsome
      exact absurd hsome (by decide)
  rw [decodeString, encodeToString, String.toList_ofList, hlines, decodeChars_encodeChars]

/-- An encoded text has no dot. -/
theorem dot_notMem_encodeToString (b : List UInt8) : '.' ∉ (encodeToString b).toList := by
  rw [encodeToString, String.toList_ofList]
  intro hdot
  exact absurd (isSome_decodeDigit_of_mem hdot) (by decide)

end RawURL

end Blinex.Go.Base64

namespace Blinex.Go.Hex

/-- The character for a four-bit value. -/
def digit (n : Nat) : Char := Char.ofNat (if n < 10 then n + 48 else n - 10 + 97)

/-- `hex.EncodeToString`. -/
def encodeToString (b : List UInt8) : String :=
  String.ofList (b.flatMap fun x => [digit (x.toNat / 16), digit (x.toNat % 16)])

private theorem digit_inj {m n : Nat} (hm : m < 16) (hn : n < 16) (h : digit m = digit n) :
    m = n := by
  have hall : ∀ m < 16, ∀ n < 16, digit m = digit n → m = n := by decide
  exact hall m hm n hn h

/-- Different bytes have different hexadecimal texts. -/
theorem encodeToString_inj {a b : List UInt8} (h : encodeToString a = encodeToString b) :
    a = b := by
  have hl := String.ofList_injective h
  clear h
  induction a generalizing b with
  | nil =>
    cases b with
    | nil => rfl
    | cons y b => simp at hl
  | cons x a ih =>
    cases b with
    | nil => simp at hl
    | cons y b =>
      simp only [List.flatMap_cons, List.cons_append, List.nil_append, List.cons.injEq] at hl
      -- two digits determine the byte
      have hx := x.toNat_lt
      have hy := y.toNat_lt
      have hhigh := digit_inj (by omega) (by omega) hl.1
      have hlow := digit_inj (by omega) (by omega) hl.2.1
      rw [ih hl.2.2, UInt8.toNat_inj.mp (show x.toNat = y.toNat by omega)]

end Blinex.Go.Hex
