import Blinex.Go.Base64

/-!
# Go's `encoding/json`

What `Unmarshal` accepts, and how `Marshal` writes strings and objects, over bytes. A value keeps
the text of its string literals; `unquote` decodes them. The digits of a number are not kept.

Reading a literal is stepwise, as in the scanner of the package, and arrays and objects are one
loop with different items.
-/

namespace Blinex.Go.Json

/-- The byte of an ASCII character. -/
def ch (c : Char) : UInt8 := UInt8.ofNat c.toNat

/-- A JSON value. -/
inductive Value where
  | null
  | bool (b : Bool)
  | num
  | str (lit : List UInt8)
  | arr (elems : List Value)
  | obj (members : List (List UInt8 × Value))

/-- Reads something off a text, and returns the rest. -/
abbrev Reader (α : Type) := List UInt8 → Option (α × List UInt8)

/-! ## Literals -/

/-- White space. -/
def isSpace (b : UInt8) : Bool := b ∈ [ch ' ', ch '\t', ch '\r', ch '\n']

/-- The next byte that is not white space has to be `b`. -/
def expect (b : UInt8) (data : List UInt8) : Option (List UInt8) :=
  match data.dropWhile isSpace with
  | [] => none
  | b' :: rest => if b' = b then some rest else none

/-- The value of a hexadecimal digit. -/
def hexVal (b : UInt8) : Option Nat :=
  if ch '0' ≤ b ∧ b ≤ ch '9' then some (b.toNat - 48)
  else if ch 'a' ≤ b ∧ b ≤ ch 'f' then some (b.toNat - 97 + 10)
  else if ch 'A' ≤ b ∧ b ≤ ch 'F' then some (b.toNat - 65 + 10)
  else none

/-- `stateInString`, `stateInStringEsc`, and `stateInStringEscU` and those after it, with the
    number of digits that are to come after the next one. -/
inductive StringState where
  | plain
  | esc
  | hex (left : Nat)
deriving DecidableEq

/-- One byte of a string literal other than the closing quote. -/
def StringState.next : StringState → UInt8 → Option StringState
  | plain, b => if b = ch '\\' then some esc else if b < 0x20 then none else some plain
  | esc, b =>
    if b ∈ [ch 'b', ch 'f', ch 'n', ch 'r', ch 't', ch '\\', ch '/', ch '"'] then some plain
    else if b = ch 'u' then some (hex 3)
    else none
  | hex left, b =>
    if (hexVal b).isSome then some (if left = 0 then plain else hex (left - 1)) else none

/-- The rest of a string literal. -/
def scanString : StringState → Reader (List UInt8)
  | _, [] => none
  | st, b :: rest =>
    if st = .plain ∧ b = ch '"' then some ([], rest)
    else
      match st.next b with
      | none => none
      | some st' => (scanString st' rest).map fun (lit, rest) => (b :: lit, rest)

/-- `stateBeginValue` as far as it starts a number, and `stateNeg`, `state0`, `state1`,
    `stateDot`, `stateDot0`, `stateE`, `stateESign`, `stateE0`. -/
inductive NumState where
  | begin | neg | zero | int | dot | frac | exp | expSign | expInt
deriving DecidableEq

/-- A decimal digit. -/
def isDigit (b : UInt8) : Bool := ch '0' ≤ b && b ≤ ch '9'

/-- One byte of a number. -/
def NumState.next : NumState → UInt8 → Option NumState
  | begin, b =>
    -- a leading zero ends the integer part
    if b = ch '-' then some neg else if b = ch '0' then some zero
    else if isDigit b then some int else none
  | neg, b => if b = ch '0' then some zero else if isDigit b then some int else none
  | zero, b => if b = ch '.' then some dot else if b ∈ [ch 'e', ch 'E'] then some exp else none
  | int, b =>
    if isDigit b then some int
    else if b = ch '.' then some dot else if b ∈ [ch 'e', ch 'E'] then some exp else none
  | dot, b => if isDigit b then some frac else none
  | frac, b => if isDigit b then some frac else if b ∈ [ch 'e', ch 'E'] then some exp else none
  | exp, b =>
    if b ∈ [ch '+', ch '-'] then some expSign else if isDigit b then some expInt else none
  | expSign, b => if isDigit b then some expInt else none
  | expInt, b => if isDigit b then some expInt else none

/-- A number may end here. -/
def NumState.accepts (st : NumState) : Bool := st ∈ [zero, int, frac, expInt]

/-- The rest of a number. -/
def scanNumber : NumState → List UInt8 → Option (List UInt8)
  | st, [] => if st.accepts then some [] else none
  | st, b :: rest =>
    match st.next b with
    | some st' => scanNumber st' rest
    | none => if st.accepts then some (b :: rest) else none

/-- `true`, `false` or `null`. -/
def word (w : String) (v : Value) : Reader Value := fun data =>
  if (w.toList.map ch).isPrefixOf data then some (v, data.drop (w.toList.map ch).length) else none

/-! ## Values -/

/-- The items of an array or object up to its closing bracket, separated by commas. -/
def sequence {α : Type} (close : UInt8) (item : Reader α) : Nat → Reader (List α)
  | 0, _ => none
  | fuel + 1, data => do
    let (x, rest) ← item data
    match expect close rest with
    | some rest => return ([x], rest)
    | none =>
      -- After a comma there has to be another item.
      let rest ← expect (ch ',') rest
      let (xs, rest) ← sequence close item fuel rest
      return (x :: xs, rest)

/-- An array or object after its opening bracket. -/
def container {α : Type} (close : UInt8) (item : Reader α) (wrap : List α → Value) :
    Reader Value := fun data =>
  match expect close data with
  | some rest => some (wrap [], rest)
  -- An item takes a byte at least, so the length of the text bounds the rounds.
  | none => (sequence close item data.length data).map fun (xs, rest) => (wrap xs, rest)

/-- A key, a colon and a value. -/
def member (val : Reader Value) : Reader (List UInt8 × Value) := fun data => do
  let rest ← expect (ch '"') data
  let (key, rest) ← scanString .plain rest
  let rest ← expect (ch ':') rest
  let (v, rest) ← val rest
  return ((key, v), rest)

/-- A value, with the readers for what follows `{` and `[`. -/
def valueWith (obj arr : Reader Value) : Reader Value := fun data =>
  match data.dropWhile isSpace with
  | [] => none
  | b :: rest =>
    if b = ch '{' then obj rest
    else if b = ch '[' then arr rest
    else if b = ch '"' then (scanString .plain rest).map fun (lit, rest) => (.str lit, rest)
    else if b = ch 't' then word "true" (.bool true) (b :: rest)
    else if b = ch 'f' then word "false" (.bool false) (b :: rest)
    else if b = ch 'n' then word "null" .null (b :: rest)
    -- A byte that starts nothing is refused by `begin`.
    else (scanNumber .begin (b :: rest)).map fun rest => (.num, rest)

/-- A value in which at most `depth` arrays and objects are nested. -/
def value : (depth : Nat) → Reader Value
  | 0 => valueWith (fun _ => none) (fun _ => none)
  | depth + 1 =>
    valueWith (container (ch '}') (member (value depth)) .obj)
      (container (ch ']') (value depth) .arr)

/-- `maxNestingDepth`. -/
def maxNestingDepth : Nat := 10000

/-- The value of a whole text; `none` is a `SyntaxError`. -/
def parse (data : List UInt8) : Option Value :=
  match value maxNestingDepth data with
  | some (v, rest) => if rest.all isSpace then some v else none
  | none => none

example : (parse ("[1, -2.5e3, \x7b\x7d] ".toList.map ch)).isSome = true := by decide +kernel

-- A trailing comma, and a number with a leading zero.
example : (parse ("[1,]".toList.map ch)).isNone = true := by decide +kernel

example : (parse ("01".toList.map ch)).isNone = true := by decide +kernel

/-! ## The text of a string literal -/

/-- The next rune of a text: a byte that does not start one is read as U+FFFD. -/
def decodeRune (data : List UInt8) : Char × List UInt8 :=
  match data.toByteArray.utf8DecodeChar? 0 with
  | some c => (c, data.drop c.utf8Size)
  | none => ('\uFFFD', data.drop 1)

/-- `getu4` after its `\u`. -/
def getu4 : Reader Nat
  | b₃ :: b₂ :: b₁ :: b₀ :: rest => do
    let h₃ ← hexVal b₃
    let h₂ ← hexVal b₂
    let h₁ ← hexVal b₁
    let h₀ ← hexVal b₀
    return (h₃ * 4096 + h₂ * 256 + h₁ * 16 + h₀, rest)
  | _ => none

/-- The second half of a surrogate pair, and what follows it. -/
def lowSurrogate : Reader Nat
  | b₁ :: b₀ :: rest =>
    if b₁ = ch '\\' ∧ b₀ = ch 'u' then
      (getu4 rest).filter fun (n, _) => 0xDC00 ≤ n ∧ n < 0xE000
    else none
  | _ => none

/-- The rune of a `\u` escape. A surrogate that is not the first half of a pair stands for
    U+FFFD. -/
def unicodeEscape (data : List UInt8) : Option (Char × List UInt8) :=
  match getu4 data with
  | none => none
  | some (n, rest) =>
    -- a high half joined with the low half after it; a half alone becomes the replacement character
    if 0xD800 ≤ n ∧ n < 0xE000 then
      match lowSurrogate rest with
      | some (n', rest') =>
        if n < 0xDC00 then
          some (Char.ofNat ((n - 0xD800) * 1024 + (n' - 0xDC00) + 0x10000), rest')
        else some ('\uFFFD', rest)
      | none => some ('\uFFFD', rest)
    else some (Char.ofNat n, rest)

/-- The escapes of one character. -/
def escapes : List (UInt8 × Char) :=
  [(ch '"', '"'), (ch '\\', '\\'), (ch '/', '/'), (ch 'b', '\x08'), (ch 'f', '\x0C'),
    (ch 'n', '\n'), (ch 'r', '\r'), (ch 't', '\t')]

/-- One round of the loop of `unquoteBytes`. -/
def unquoteChar : Reader Char
  | [] => none
  | b :: rest =>
    if b = ch '\\' then
      match rest with
      | [] => none
      | e :: rest =>
        if e = ch 'u' then unicodeEscape rest else (escapes.lookup e).map fun c => (c, rest)
    else some (decodeRune (b :: rest))

/-- `unquoteBytes`, without the quotes. -/
def unquoteChars : Nat → List UInt8 → Option (List Char)
  | _, [] => some []
  | 0, _ :: _ => none
  | fuel + 1, b :: rest => do
    let (c, rest) ← unquoteChar (b :: rest)
    let cs ← unquoteChars fuel rest
    return c :: cs

/-- `unquote`. -/
def unquote (lit : List UInt8) : Option String :=
  (unquoteChars lit.length lit).map String.ofList

-- A surrogate pair, and half of one.
example : unquote ("\\ud83d\\ude00\\ud83d\\n".toList.map ch)
    = some (String.ofList [Char.ofNat 0x1F600, '\uFFFD', '\n']) := by decide +kernel

/-- What `appendString` writes for one rune; HTML is escaped. -/
def quoteChar (c : Char) : List UInt8 :=
  if c = '\\' ∨ c = '"' then [ch '\\', ch c]
  else if c = '\x08' then [ch '\\', ch 'b']
  else if c = '\x0C' then [ch '\\', ch 'f']
  else if c = '\n' then [ch '\\', ch 'n']
  else if c = '\r' then [ch '\\', ch 'r']
  else if c = '\t' then [ch '\\', ch 't']
  -- Control characters without a short form, and what a browser could read as HTML.
  else if c.toNat < 0x20 ∨ c = '<' ∨ c = '>' ∨ c = '&' then
    [ch '\\', ch 'u', ch '0', ch '0', ch (Hex.digit (c.toNat / 16)), ch (Hex.digit (c.toNat % 16))]
  -- Line ends for JavaScript, but not for JSON.
  else if c = '\u2028' ∨ c = '\u2029' then
    [ch '\\', ch 'u', ch '2', ch '0', ch '2', ch (Hex.digit (c.toNat % 16))]
  else String.utf8EncodeChar c

/-- `appendString` between its quotes. -/
def quoteLit (s : String) : List UInt8 := s.toList.flatMap quoteChar

/-- `appendString`. -/
def quote (s : String) : List UInt8 := ch '"' :: (quoteLit s ++ [ch '"'])

/-- An object of encoded members. -/
def object (members : List (String × List UInt8)) : List UInt8 :=
  ch '{' ::
    ([ch ','].intercalate (members.map fun m => quote m.1 ++ ch ':' :: m.2) ++ [ch '}'])

end Blinex.Go.Json
