import Mathlib.Algebra.GroupWithZero.Nat
import Mathlib.Data.List.Basic

/-!
# Go's `strings`, `unicode` and `bufio.Scanner`

The string functions the repository calls, on `String`. Go strings are byte
strings; every string that reaches these functions comes out of a protobuf or
JSON string field, so it is valid UTF-8 and a `String` is the same data. All
functions go through `toList`, which the kernel can evaluate.

`unicode.ToLower` is the simple lower-case mapping of the Unicode database
(version 15, the one Go 1.25 ships), run-length encoded.
-/

namespace Blinex.Go

/-- A run of upper-case code points `lo, lo + stride, …, hi`, each `delta` away
    from its lower-case form. -/
structure CaseRange where
  lo : Nat
  hi : Nat
  stride : Nat
  delta : Int

/-- The non-ASCII upper- and title-case code points. -/
def caseRanges : List CaseRange :=
  [⟨0xC0, 0xD6, 1, 32⟩, ⟨0xD8, 0xDE, 1, 32⟩, ⟨0x100, 0x12E, 2, 1⟩, ⟨0x130, 0x130, 1, -199⟩,
   ⟨0x132, 0x136, 2, 1⟩, ⟨0x139, 0x147, 2, 1⟩, ⟨0x14A, 0x176, 2, 1⟩, ⟨0x178, 0x178, 1, -121⟩,
   ⟨0x179, 0x17D, 2, 1⟩, ⟨0x181, 0x181, 1, 210⟩, ⟨0x182, 0x184, 2, 1⟩, ⟨0x186, 0x186, 1, 206⟩,
   ⟨0x187, 0x187, 1, 1⟩, ⟨0x189, 0x18A, 1, 205⟩, ⟨0x18B, 0x18B, 1, 1⟩, ⟨0x18E, 0x18E, 1, 79⟩,
   ⟨0x18F, 0x18F, 1, 202⟩, ⟨0x190, 0x190, 1, 203⟩, ⟨0x191, 0x191, 1, 1⟩, ⟨0x193, 0x193, 1, 205⟩,
   ⟨0x194, 0x194, 1, 207⟩, ⟨0x196, 0x196, 1, 211⟩, ⟨0x197, 0x197, 1, 209⟩, ⟨0x198, 0x198, 1, 1⟩,
   ⟨0x19C, 0x19C, 1, 211⟩, ⟨0x19D, 0x19D, 1, 213⟩, ⟨0x19F, 0x19F, 1, 214⟩, ⟨0x1A0, 0x1A4, 2, 1⟩,
   ⟨0x1A6, 0x1A6, 1, 218⟩, ⟨0x1A7, 0x1A7, 1, 1⟩, ⟨0x1A9, 0x1A9, 1, 218⟩, ⟨0x1AC, 0x1AC, 1, 1⟩,
   ⟨0x1AE, 0x1AE, 1, 218⟩, ⟨0x1AF, 0x1AF, 1, 1⟩, ⟨0x1B1, 0x1B2, 1, 217⟩, ⟨0x1B3, 0x1B5, 2, 1⟩,
   ⟨0x1B7, 0x1B7, 1, 219⟩, ⟨0x1B8, 0x1B8, 1, 1⟩, ⟨0x1BC, 0x1BC, 1, 1⟩, ⟨0x1C4, 0x1C4, 1, 2⟩,
   ⟨0x1C5, 0x1C5, 1, 1⟩, ⟨0x1C7, 0x1C7, 1, 2⟩, ⟨0x1C8, 0x1C8, 1, 1⟩, ⟨0x1CA, 0x1CA, 1, 2⟩,
   ⟨0x1CB, 0x1DB, 2, 1⟩, ⟨0x1DE, 0x1EE, 2, 1⟩, ⟨0x1F1, 0x1F1, 1, 2⟩, ⟨0x1F2, 0x1F4, 2, 1⟩,
   ⟨0x1F6, 0x1F6, 1, -97⟩, ⟨0x1F7, 0x1F7, 1, -56⟩, ⟨0x1F8, 0x21E, 2, 1⟩, ⟨0x220, 0x220, 1, -130⟩,
   ⟨0x222, 0x232, 2, 1⟩, ⟨0x23A, 0x23A, 1, 10795⟩, ⟨0x23B, 0x23B, 1, 1⟩, ⟨0x23D, 0x23D, 1, -163⟩,
   ⟨0x23E, 0x23E, 1, 10792⟩, ⟨0x241, 0x241, 1, 1⟩, ⟨0x243, 0x243, 1, -195⟩,
   ⟨0x244, 0x244, 1, 69⟩, ⟨0x245, 0x245, 1, 71⟩, ⟨0x246, 0x24E, 2, 1⟩, ⟨0x370, 0x372, 2, 1⟩,
   ⟨0x376, 0x376, 1, 1⟩, ⟨0x37F, 0x37F, 1, 116⟩, ⟨0x386, 0x386, 1, 38⟩, ⟨0x388, 0x38A, 1, 37⟩,
   ⟨0x38C, 0x38C, 1, 64⟩, ⟨0x38E, 0x38F, 1, 63⟩, ⟨0x391, 0x3A1, 1, 32⟩, ⟨0x3A3, 0x3AB, 1, 32⟩,
   ⟨0x3CF, 0x3CF, 1, 8⟩, ⟨0x3D8, 0x3EE, 2, 1⟩, ⟨0x3F4, 0x3F4, 1, -60⟩, ⟨0x3F7, 0x3F7, 1, 1⟩,
   ⟨0x3F9, 0x3F9, 1, -7⟩, ⟨0x3FA, 0x3FA, 1, 1⟩, ⟨0x3FD, 0x3FF, 1, -130⟩, ⟨0x400, 0x40F, 1, 80⟩,
   ⟨0x410, 0x42F, 1, 32⟩, ⟨0x460, 0x480, 2, 1⟩, ⟨0x48A, 0x4BE, 2, 1⟩, ⟨0x4C0, 0x4C0, 1, 15⟩,
   ⟨0x4C1, 0x4CD, 2, 1⟩, ⟨0x4D0, 0x52E, 2, 1⟩, ⟨0x531, 0x556, 1, 48⟩, ⟨0x10A0, 0x10C5, 1, 7264⟩,
   ⟨0x10C7, 0x10C7, 1, 7264⟩, ⟨0x10CD, 0x10CD, 1, 7264⟩, ⟨0x13A0, 0x13EF, 1, 38864⟩,
   ⟨0x13F0, 0x13F5, 1, 8⟩, ⟨0x1C90, 0x1CBA, 1, -3008⟩, ⟨0x1CBD, 0x1CBF, 1, -3008⟩,
   ⟨0x1E00, 0x1E94, 2, 1⟩, ⟨0x1E9E, 0x1E9E, 1, -7615⟩, ⟨0x1EA0, 0x1EFE, 2, 1⟩,
   ⟨0x1F08, 0x1F0F, 1, -8⟩, ⟨0x1F18, 0x1F1D, 1, -8⟩, ⟨0x1F28, 0x1F2F, 1, -8⟩,
   ⟨0x1F38, 0x1F3F, 1, -8⟩, ⟨0x1F48, 0x1F4D, 1, -8⟩, ⟨0x1F59, 0x1F5F, 2, -8⟩,
   ⟨0x1F68, 0x1F6F, 1, -8⟩, ⟨0x1F88, 0x1F8F, 1, -8⟩, ⟨0x1F98, 0x1F9F, 1, -8⟩,
   ⟨0x1FA8, 0x1FAF, 1, -8⟩, ⟨0x1FB8, 0x1FB9, 1, -8⟩, ⟨0x1FBA, 0x1FBB, 1, -74⟩,
   ⟨0x1FBC, 0x1FBC, 1, -9⟩, ⟨0x1FC8, 0x1FCB, 1, -86⟩, ⟨0x1FCC, 0x1FCC, 1, -9⟩,
   ⟨0x1FD8, 0x1FD9, 1, -8⟩, ⟨0x1FDA, 0x1FDB, 1, -100⟩, ⟨0x1FE8, 0x1FE9, 1, -8⟩,
   ⟨0x1FEA, 0x1FEB, 1, -112⟩, ⟨0x1FEC, 0x1FEC, 1, -7⟩, ⟨0x1FF8, 0x1FF9, 1, -128⟩,
   ⟨0x1FFA, 0x1FFB, 1, -126⟩, ⟨0x1FFC, 0x1FFC, 1, -9⟩, ⟨0x2126, 0x2126, 1, -7517⟩,
   ⟨0x212A, 0x212A, 1, -8383⟩, ⟨0x212B, 0x212B, 1, -8262⟩, ⟨0x2132, 0x2132, 1, 28⟩,
   ⟨0x2160, 0x216F, 1, 16⟩, ⟨0x2183, 0x2183, 1, 1⟩, ⟨0x24B6, 0x24CF, 1, 26⟩,
   ⟨0x2C00, 0x2C2F, 1, 48⟩, ⟨0x2C60, 0x2C60, 1, 1⟩, ⟨0x2C62, 0x2C62, 1, -10743⟩,
   ⟨0x2C63, 0x2C63, 1, -3814⟩, ⟨0x2C64, 0x2C64, 1, -10727⟩, ⟨0x2C67, 0x2C6B, 2, 1⟩,
   ⟨0x2C6D, 0x2C6D, 1, -10780⟩, ⟨0x2C6E, 0x2C6E, 1, -10749⟩, ⟨0x2C6F, 0x2C6F, 1, -10783⟩,
   ⟨0x2C70, 0x2C70, 1, -10782⟩, ⟨0x2C72, 0x2C72, 1, 1⟩, ⟨0x2C75, 0x2C75, 1, 1⟩,
   ⟨0x2C7E, 0x2C7F, 1, -10815⟩, ⟨0x2C80, 0x2CE2, 2, 1⟩, ⟨0x2CEB, 0x2CED, 2, 1⟩,
   ⟨0x2CF2, 0x2CF2, 1, 1⟩, ⟨0xA640, 0xA66C, 2, 1⟩, ⟨0xA680, 0xA69A, 2, 1⟩,
   ⟨0xA722, 0xA72E, 2, 1⟩, ⟨0xA732, 0xA76E, 2, 1⟩, ⟨0xA779, 0xA77B, 2, 1⟩,
   ⟨0xA77D, 0xA77D, 1, -35332⟩, ⟨0xA77E, 0xA786, 2, 1⟩, ⟨0xA78B, 0xA78B, 1, 1⟩,
   ⟨0xA78D, 0xA78D, 1, -42280⟩, ⟨0xA790, 0xA792, 2, 1⟩, ⟨0xA796, 0xA7A8, 2, 1⟩,
   ⟨0xA7AA, 0xA7AA, 1, -42308⟩, ⟨0xA7AB, 0xA7AB, 1, -42319⟩, ⟨0xA7AC, 0xA7AC, 1, -42315⟩,
   ⟨0xA7AD, 0xA7AD, 1, -42305⟩, ⟨0xA7AE, 0xA7AE, 1, -42308⟩, ⟨0xA7B0, 0xA7B0, 1, -42258⟩,
   ⟨0xA7B1, 0xA7B1, 1, -42282⟩, ⟨0xA7B2, 0xA7B2, 1, -42261⟩, ⟨0xA7B3, 0xA7B3, 1, 928⟩,
   ⟨0xA7B4, 0xA7C2, 2, 1⟩, ⟨0xA7C4, 0xA7C4, 1, -48⟩, ⟨0xA7C5, 0xA7C5, 1, -42307⟩,
   ⟨0xA7C6, 0xA7C6, 1, -35384⟩, ⟨0xA7C7, 0xA7C9, 2, 1⟩, ⟨0xA7D0, 0xA7D0, 1, 1⟩,
   ⟨0xA7D6, 0xA7D8, 2, 1⟩, ⟨0xA7F5, 0xA7F5, 1, 1⟩, ⟨0xFF21, 0xFF3A, 1, 32⟩,
   ⟨0x10400, 0x10427, 1, 40⟩, ⟨0x104B0, 0x104D3, 1, 40⟩, ⟨0x10570, 0x1057A, 1, 39⟩,
   ⟨0x1057C, 0x1058A, 1, 39⟩, ⟨0x1058C, 0x10592, 1, 39⟩, ⟨0x10594, 0x10595, 1, 39⟩,
   ⟨0x10C80, 0x10CB2, 1, 64⟩, ⟨0x118A0, 0x118BF, 1, 32⟩, ⟨0x16E40, 0x16E5F, 1, 32⟩,
   ⟨0x1E900, 0x1E921, 1, 34⟩]

/-- The code point lies in the run. -/
def CaseRange.covers (r : CaseRange) (n : Nat) : Bool :=
  r.lo ≤ n && n ≤ r.hi && (n - r.lo) % r.stride == 0

/-- `unicode.ToLower`: ASCII by arithmetic, the rest by table. -/
def unicodeToLower (c : Char) : Char :=
  if c.toNat < 0x80 then
    if 'A' ≤ c ∧ c ≤ 'Z' then Char.ofNat (c.toNat + 32) else c
  else
    match caseRanges.find? (·.covers c.toNat) with
    | some r => Char.ofNat (c.toNat + r.delta).toNat
    | none => c

namespace Strings

/-- `strings.ToLower`. -/
def toLower (s : String) : String := String.ofList (s.toList.map unicodeToLower)

/-- `strings.HasPrefix`. -/
def hasPrefix (s pre : String) : Bool := pre.toList.isPrefixOf s.toList

/-- `strings.TrimPrefix`. -/
def trimPrefix (s pre : String) : String :=
  if hasPrefix s pre then String.ofList (s.toList.drop pre.toList.length) else s

/-- `strings.Trim(s, cutset)` for a cutset of one character. -/
def trim (s : String) (c : Char) : String :=
  String.ofList (((s.toList.dropWhile (· == c)).reverse.dropWhile (· == c)).reverse)

/-- `unicode.IsSpace`. -/
def isSpace (c : Char) : Bool :=
  [0x09, 0x0A, 0x0B, 0x0C, 0x0D, 0x20, 0x85, 0xA0, 0x1680, 0x2028, 0x2029, 0x202F, 0x205F,
    0x3000].contains c.toNat || (0x2000 ≤ c.toNat && c.toNat ≤ 0x200A)

/-- `strings.TrimSpace`. -/
def trimSpace (s : String) : String :=
  String.ofList (((s.toList.dropWhile isSpace).reverse.dropWhile isSpace).reverse)

/-- `len(s)`, in bytes. -/
def byteLen (s : String) : Nat := (s.toList.map Char.utf8Size).sum

/-- `strings.TrimSuffix`. -/
def trimSuffix (s suf : String) : String :=
  if suf.toList.isSuffixOf s.toList then
    String.ofList (s.toList.take (s.toList.length - suf.toList.length))
  else s

/-- `strings.Split` for a separator of one character. -/
def split (s : String) (sep : Char) : List String := (s.toList.splitOn sep).map String.ofList

/-- `strings.Join`. -/
def join (elems : List String) (sep : String) : String :=
  String.ofList (sep.toList.intercalate (elems.map String.toList))

/-- `strings.ReplaceAll` for an `old` of one character. -/
def replaceAll (s : String) (old : Char) (new : String) : String :=
  String.ofList (s.toList.flatMap fun c => if c = old then new.toList else [c])

/-- `strings.Fields`: the maximal runs of characters that are not white space. -/
def fields (s : String) : List String :=
  ((s.toList.splitOnP isSpace).filter (· ≠ [])).map String.ofList

/-- Lower-casing goes character by character. -/
@[simp] theorem toList_toLower (s : String) :
    (toLower s).toList = s.toList.map unicodeToLower := by
  simp only [toLower, String.toList_ofList]

/-- Lowering is done rune by rune, so it distributes over concatenation. -/
theorem toLower_append (s t : String) : toLower (s ++ t) = toLower s ++ toLower t := by
  apply String.toList_injective
  simp only [toList_toLower, String.toList_append, List.map_append]

example : toLower "ICMP" = "icmp" := by decide

example : trimPrefix "group:web" "group:" = "web" := by decide

end Strings

/-! ## Lower-case forms are fixed points -/

/-- The code point in the run's image of `n`. -/
def CaseRange.lower (r : CaseRange) (n : Nat) : Nat := ((n : Int) + r.delta).toNat

/-- No lower-case form of `r` is an upper-case one of `r'`: the two runs do not
    overlap, or they interleave. -/
def CaseRange.apart (r r' : CaseRange) : Bool :=
  Nat.blt (r.lower r.hi) r'.lo || Nat.blt r'.hi (r.lower r.lo) ||
    (Nat.beq r'.stride 2 && (Nat.beq r.stride 2 || Nat.beq r.lo r.hi) &&
      Nat.beq ((r.lower r.lo + r'.lo) % 2) 1)

/-- No range of the table covers what another one produces. -/
private theorem caseRanges_apart :
    caseRanges.all (fun r => caseRanges.all r.apart) = true := by
  decide +kernel

/-- What the ranges produce are valid characters, neither ASCII capitals nor white space. -/
private theorem caseRanges_image : ∀ r ∈ caseRanges,
    0 ≤ r.lo + r.delta ∧ 0x5A < r.lower r.lo ∧
    (r.lower r.hi < 0xD800 ∨ 0xDFFF < r.lower r.lo ∧ r.lower r.hi < 0x110000) ∧
    (r.lower r.hi < 0x2000 ∨ 0x200A < r.lower r.lo) ∧
    ∀ n ∈ [0x85, 0xA0, 0x1680, 0x2028, 0x2029, 0x202F, 0x205F, 0x3000],
      r.lower r.hi < n ∨ n < r.lower r.lo := by
  decide +kernel

/-- What it means that a range covers a code. -/
private theorem covers_bounds {r : CaseRange} {n : Nat} (h : r.covers n = true) :
    r.lo ≤ n ∧ n ≤ r.hi ∧ (n - r.lo) % r.stride = 0 := by
  simpa only [CaseRange.covers, Bool.and_eq_true, decide_eq_true_eq, beq_iff_eq, and_assoc] using h

/-- A lower-case form is not covered by the table. -/
private theorem not_covers_lower {r r' : CaseRange} {n : Nat} (hr : r ∈ caseRanges)
    (hr' : r' ∈ caseRanges) (hn : r.covers n = true) : r'.covers (r.lower n) = false := by
  have hapart : r.apart r' = true :=
    List.all_eq_true.mp (List.all_eq_true.mp caseRanges_apart r hr) r' hr'
  have hpos := (caseRanges_image r hr).1
  obtain ⟨hlo, hhi, hstride⟩ := covers_bounds hn
  by_contra h
  obtain ⟨hlo', hhi', hstride'⟩ := covers_bounds (Bool.not_eq_false _ ▸ h)
  simp only [CaseRange.apart, CaseRange.lower, Bool.or_eq_true, Bool.and_eq_true, Nat.blt_eq,
    Nat.beq_eq] at hapart hlo' hhi' hstride'
  -- the image lies below the range or above it, or between the codes that it covers
  rcases hapart with (hlt | hlt) | ⟨⟨h2, hr2⟩, hodd⟩
  · omega
  · omega
  · rw [h2] at hstride'
    rcases hr2 with hr2 | hr2
    · rw [hr2] at hstride
      omega
    · omega

/-- A valid code is that of its character. -/
private theorem toNat_ofNat_valid {n : Nat} (h : n.isValidChar) : (Char.ofNat n).toNat = n := by
  rw [Char.ofNat, dif_pos h]
  rfl

/-- A form from the table is no upper-case letter itself, and no white space. -/
private theorem image_fixed {r : CaseRange} {n : Nat} (hr : r ∈ caseRanges)
    (hn : r.covers n = true) :
    unicodeToLower (Char.ofNat (r.lower n)) = Char.ofNat (r.lower n) ∧
      Strings.isSpace (Char.ofNat (r.lower n)) = false := by
  obtain ⟨hpos, hupper, hvalid, hblock, hspaces⟩ := caseRanges_image r hr
  obtain ⟨hlo, hhi, -⟩ := covers_bounds hn
  have hlo' : r.lower r.lo ≤ r.lower n := by simp only [CaseRange.lower]; omega
  have hhi' : r.lower n ≤ r.lower r.hi := by simp only [CaseRange.lower]; omega
  have htoNat : (Char.ofNat (r.lower n)).toNat = r.lower n := by
    apply toNat_ofNat_valid
    simp only [Nat.isValidChar]
    omega
  constructor
  · -- no other range covers it, and it is no ASCII capital
    have hnot : ¬('A' ≤ Char.ofNat (r.lower n) ∧ Char.ofNat (r.lower n) ≤ 'Z') := by
      intro h
      have : (Char.ofNat (r.lower n)).toNat ≤ 0x5A := h.2
      omega
    have hnone : caseRanges.find? (·.covers (r.lower n)) = none := by
      rw [List.find?_eq_none]
      intro r' hr'
      rw [not_covers_lower hr hr' hn]
      decide
    simp only [unicodeToLower, htoNat, if_neg hnot, hnone, ite_self]
  · simp only [List.forall_mem_cons] at hspaces
    simp only [Strings.isSpace, htoNat, Bool.or_eq_false_iff, List.contains_cons,
      beq_eq_false_iff_ne, List.contains_nil, Bool.and_eq_false_iff, decide_eq_false_iff_not,
      and_true]
    omega

/-- The same of an ASCII letter. -/
private theorem ascii_fixed {c : Char} (h : 'A' ≤ c ∧ c ≤ 'Z') :
    unicodeToLower (Char.ofNat (c.toNat + 32)) = Char.ofNat (c.toNat + 32) ∧
      Strings.isSpace (Char.ofNat (c.toNat + 32)) = false := by
  have hletters : ∀ n ∈ List.range 26,
      unicodeToLower (Char.ofNat (n + 0x41 + 32)) = Char.ofNat (n + 0x41 + 32) ∧
        Strings.isSpace (Char.ofNat (n + 0x41 + 32)) = false := by decide
  have hlo : 0x41 ≤ c.toNat := h.1
  have hhi : c.toNat ≤ 0x5A := h.2
  have hc : c.toNat - 0x41 + 0x41 = c.toNat := by omega
  have hletter := hletters (c.toNat - 0x41) (List.mem_range.mpr (by omega))
  rwa [hc] at hletter

/-- A character is its own lower-case form, or has one that is a fixed point and
    no white space. -/
private theorem unicodeToLower_spec (c : Char) :
    unicodeToLower c = c ∨
      unicodeToLower (unicodeToLower c) = unicodeToLower c ∧
        Strings.isSpace (unicodeToLower c) = false := by
  by_cases hascii : c.toNat < 0x80
  · -- an ASCII character is changed only when it is a capital
    by_cases hupper : 'A' ≤ c ∧ c ≤ 'Z'
    · have hval : unicodeToLower c = Char.ofNat (c.toNat + 32) := by
        rw [unicodeToLower, if_pos hascii, if_pos hupper]
      rw [hval]
      exact .inr (ascii_fixed hupper)
    · left
      rw [unicodeToLower, if_pos hascii, if_neg hupper]
  · -- the others are changed when a range of the table covers them
    cases hfind : caseRanges.find? (·.covers c.toNat) with
    | none =>
      left
      simp only [unicodeToLower, if_neg hascii, hfind]
    | some r =>
      have hval : unicodeToLower c = Char.ofNat (r.lower c.toNat) := by
        simp only [unicodeToLower, if_neg hascii, hfind, CaseRange.lower]
      have hcovers : r.covers c.toNat = true := by simpa using List.find?_some hfind
      rw [hval]
      exact .inr (image_fixed (List.mem_of_find?_eq_some hfind) hcovers)

/-- Lower-casing a character twice is lower-casing it once. -/
@[simp] theorem unicodeToLower_idem (c : Char) :
    unicodeToLower (unicodeToLower c) = unicodeToLower c := by
  rcases unicodeToLower_spec c with h | h
  · rw [h, h]
  · exact h.1

theorem isSpace_unicodeToLower {c : Char} (h : Strings.isSpace c = false) :
    Strings.isSpace (unicodeToLower c) = false := by
  rcases unicodeToLower_spec c with hc | hc
  · rw [hc, h]
  · exact hc.2

namespace Strings

/-- A text is in lower case when each of its characters is. -/
theorem toLower_eq_self_iff {s : String} :
    toLower s = s ↔ ∀ c ∈ s.toList, unicodeToLower c = c := by
  rw [← String.toList_inj, toList_toLower]
  nth_rewrite 2 [← List.map_id s.toList]
  exact List.map_inj_left

/-- Lower-casing a text twice is lower-casing it once. -/
theorem toLower_toLower (s : String) : toLower (toLower s) = toLower s := by
  rw [toLower_eq_self_iff, toList_toLower]
  intro c hc
  obtain ⟨c', -, rfl⟩ := List.mem_map.mp hc
  exact unicodeToLower_idem c'

/-- Without the suffix the string stays as it is. -/
theorem trimSuffix_cases (s suf : String) :
    s = trimSuffix s suf ++ suf ∨ trimSuffix s suf = s := by
  by_cases h : suf.toList.isSuffixOf s.toList = true
  · obtain ⟨pre, hpre⟩ := List.isSuffixOf_iff_suffix.mp h
    left
    rw [trimSuffix, if_pos h, ← String.toList_inj, String.toList_append, String.toList_ofList,
      ← hpre]
    simp
  · exact .inr (if_neg h)

/-- A suffix that was added is taken off. -/
@[simp] theorem trimSuffix_append (s suf : String) : trimSuffix (s ++ suf) suf = s := by
  have h : suf.toList.isSuffixOf (s ++ suf).toList = true :=
    List.isSuffixOf_iff_suffix.mpr ⟨s.toList, String.toList_append.symm⟩
  rw [trimSuffix, if_pos h, ← String.toList_inj]
  simp

/-- No character is new in a trimmed string. -/
theorem mem_of_mem_trimSuffix {s suf : String} {c : Char} (h : c ∈ (trimSuffix s suf).toList) :
    c ∈ s.toList := by
  rcases trimSuffix_cases s suf with hs | hs
  · rw [hs, String.toList_append]
    exact List.mem_append_left _ h
  · rwa [hs] at h

/-- A text without white space has none to trim. -/
theorem trimSpace_eq_self {s : String} (h : ∀ c ∈ s.toList, isSpace c = false) :
    trimSpace s = s := by
  have hdrop : ∀ l : List Char, (∀ c ∈ l, isSpace c = false) → l.dropWhile isSpace = l := by
    intro l hl
    cases l with
    | nil => rfl
    | cons c l => rw [List.dropWhile_cons_of_neg (by simp [hl c List.mem_cons_self])]
  rw [trimSpace, hdrop _ h, hdrop _ (by simpa using h), List.reverse_reverse, String.ofList_toList]

/-! ## Fields -/

/-- No separator is left in a piece. -/
private theorem forall_mem_splitOnP (p : Char → Bool) (l : List Char) :
    ∀ piece ∈ l.splitOnP p, ∀ c ∈ piece, p c = false := by
  induction l with
  | nil => simp [List.splitOnP_nil]
  | cons c l ih =>
    rw [List.splitOnP_cons_eq_if_modifyHead]
    split
    · simpa using ih
    · rename_i hc
      obtain ⟨piece, pieces, h⟩ := List.exists_cons_of_ne_nil (List.splitOnP_ne_nil p l)
      rw [h, List.forall_mem_cons] at ih
      rw [h, List.modifyHead_cons, List.forall_mem_cons, List.forall_mem_cons]
      exact ⟨⟨by simpa using hc, ih.1⟩, ih.2⟩

/-- A field has no white space in it. -/
theorem isSpace_of_mem_fields {s field : String} {c : Char} (h : field ∈ fields s)
    (hc : c ∈ field.toList) : isSpace c = false := by
  obtain ⟨piece, hpiece, rfl⟩ := List.mem_map.mp h
  rw [String.toList_ofList] at hc
  exact forall_mem_splitOnP isSpace s.toList piece (List.mem_filter.mp hpiece).1 c hc

/-- White space in front adds no field. -/
private theorem fields_dropWhile (l : List Char) :
    fields (String.ofList (l.dropWhile isSpace)) = fields (String.ofList l) := by
  induction l with
  | nil => rfl
  | cons c l ih =>
    by_cases hc : isSpace c = true
    · rw [List.dropWhile_cons_of_pos hc, ih]
      simp [fields, List.splitOnP_cons_eq_if_modifyHead, hc]
    · rw [List.dropWhile_cons_of_neg hc]

/-- White space at the end adds no field. -/
private theorem fields_rdropWhile (l : List Char) :
    fields (String.ofList (l.dropWhile isSpace).reverse) = fields (String.ofList l.reverse) := by
  induction l with
  | nil => rfl
  | cons c l ih =>
    by_cases hc : isSpace c = true
    · rw [List.dropWhile_cons_of_pos hc, ih]
      simp [fields, List.splitOnP_append_cons _ _ hc]
    · rw [List.dropWhile_cons_of_neg hc]

/-- White space at the ends separates nothing. -/
theorem fields_trimSpace (s : String) : fields (trimSpace s) = fields s := by
  rw [trimSpace, fields_rdropWhile, List.reverse_reverse, fields_dropWhile, String.ofList_toList]

/-- A trimmed text starts with no white space. -/
private theorem isSpace_head_trimSpace {s : String} {c : Char} {t : List Char}
    (h : (trimSpace s).toList = c :: t) : isSpace c = false := by
  have hpre : (trimSpace s).toList <+: s.toList.dropWhile isSpace := by
    rw [trimSpace, String.toList_ofList, ← List.reverse_suffix, List.reverse_reverse]
    exact List.dropWhile_suffix isSpace
  obtain ⟨rest, hrest⟩ := hpre
  have hhead := List.head?_dropWhile_not isSpace s.toList
  rw [← hrest, h] at hhead
  simpa using hhead

/-- A string has no field, and trims to nothing, or it trims to one that starts
    as its first field does. -/
theorem fields_cases (s : String) :
    trimSpace s = "" ∧ fields s = [] ∨
      ∃ c t field rest, (trimSpace s).toList = c :: t ∧
        fields s = String.ofList (c :: field) :: rest := by
  rw [← fields_trimSpace]
  cases h : (trimSpace s).toList with
  | nil =>
    left
    rw [String.toList_eq_nil_iff.mp h]
    exact ⟨rfl, rfl⟩
  | cons c t =>
    -- the first character opens the first field
    obtain ⟨piece, pieces, hsplit⟩ := List.exists_cons_of_ne_nil (List.splitOnP_ne_nil isSpace t)
    refine .inr ⟨c, t, piece, (pieces.filter (· ≠ [])).map String.ofList, rfl, ?_⟩
    simp [fields, h, List.splitOnP_cons_eq_if_modifyHead, isSpace_head_trimSpace h, hsplit]

/-! ## Split and join -/

/-- Joining the pieces with the separator gives the text back. -/
theorem join_split (s : String) (sep : Char) : join (split s sep) (String.singleton sep) = s := by
  rw [← String.toList_inj, join, String.toList_ofList, split, List.map_map]
  simp [Function.comp_def, List.intercalate_splitOn]

/-- No piece has the separator in it. -/
theorem notMem_of_mem_split {s p : String} {sep : Char} (hp : p ∈ split s sep) :
    sep ∉ p.toList := by
  obtain ⟨piece, hpiece, rfl⟩ := List.mem_map.mp hp
  rw [String.toList_ofList]
  intro hmem
  have hsep := forall_mem_splitOnP (· == sep) s.toList piece hpiece sep hmem
  rw [beq_self_eq_true] at hsep
  cases hsep

/-- Pieces without the separator are found again. -/
theorem split_join {pieces : List String} {sep : Char} (hne : pieces ≠ [])
    (h : ∀ p ∈ pieces, sep ∉ p.toList) :
    split (join pieces (String.singleton sep)) sep = pieces := by
  have hsplit : (([sep].intercalate (pieces.map String.toList)).splitOn sep)
      = pieces.map String.toList :=
    List.splitOn_intercalate sep (List.forall_mem_map.mpr h) (by simpa using hne)
  rw [split, join, String.toList_ofList, String.toList_singleton, hsplit, List.map_map]
  simp [Function.comp_def]

/-- The pieces from a later one on, joined again, are what follows some separator. -/
private theorem intercalate_drop_splitOn (sep : Char) (l d : List Char) :
    (∃ i, i + 1 < (l.splitOn sep).length ∧ [sep].intercalate ((l.splitOn sep).drop (i + 1)) = d) ↔
      ∃ sub, l = sub ++ sep :: d := by
  induction l with
  | nil => simp
  | cons c l ih =>
    by_cases hc : c = sep
    · -- The separator starts a piece: the whole of `l`, or what follows one of its own.
      have hpieces : (c :: l).splitOn sep = [] :: l.splitOn sep := by
        simp [List.splitOn_cons_eq_if_modifyHead, hc]
      rw [hpieces, hc]
      constructor
      · rintro ⟨i, hi, hd⟩
        rw [List.drop_succ_cons] at hd
        cases i with
        | zero =>
          rw [List.drop_zero, List.intercalate_splitOn] at hd
          exact ⟨[], by rw [hd]; rfl⟩
        | succ i =>
          obtain ⟨sub, rfl⟩ := ih.mp ⟨i, Nat.lt_of_succ_lt_succ hi, hd⟩
          exact ⟨sep :: sub, rfl⟩
      · rintro ⟨sub, hsub⟩
        cases sub with
        | nil =>
          refine ⟨0, ?_, ?_⟩
          · simp [List.length_pos_iff]
          · rw [List.drop_succ_cons, List.drop_zero, List.intercalate_splitOn]
            exact (List.cons.inj hsub).2
        | cons c' sub =>
          obtain ⟨i, hi, hd⟩ := ih.mpr ⟨sub, (List.cons.inj hsub).2⟩
          exact ⟨i + 1, Nat.succ_lt_succ hi, hd⟩
    · -- The character joins the first piece, which is not among the later ones.
      obtain ⟨piece, pieces, hsplit⟩ := List.exists_cons_of_ne_nil (List.splitOn_ne_nil sep l)
      have hpieces : (c :: l).splitOn sep = (c :: piece) :: pieces := by
        simp [List.splitOn_cons_eq_if_modifyHead, hc, hsplit]
      rw [hsplit] at ih
      rw [hpieces]
      refine Iff.trans ih ⟨fun ⟨sub, h⟩ => ⟨c :: sub, by rw [h]; rfl⟩, fun ⟨sub, h⟩ => ?_⟩
      cases sub with
      | nil => exact absurd (List.cons.inj h).1 hc
      | cons c' sub => exact ⟨sub, (List.cons.inj h).2⟩

/-- What the pieces from some piece on make, joined again: the whole string, or
    what follows a separator. -/
theorem join_drop_split (s d : String) (sep : Char) :
    (∃ i < (split s sep).length, join ((split s sep).drop i) (String.singleton sep) = d) ↔
      s = d ∨ ∃ sub, s = sub ++ String.singleton sep ++ d := by
  have hjoin : ∀ i, join ((split s sep).drop i) (String.singleton sep) = d ↔
      [sep].intercalate ((s.toList.splitOn sep).drop i) = d.toList := by
    intro i
    rw [← String.toList_inj, join, String.toList_ofList, split, ← List.map_drop, List.map_map]
    simp [Function.comp_def]
  have hsub : (∃ sub, s = sub ++ String.singleton sep ++ d) ↔
      ∃ sub, s.toList = sub ++ sep :: d.toList := by
    constructor
    · rintro ⟨sub, rfl⟩
      exact ⟨sub.toList, by simp⟩
    · rintro ⟨sub, h⟩
      exact ⟨String.ofList sub, by rw [← String.toList_inj, h]; simp⟩
  have hlen : (split s sep).length = (s.toList.splitOn sep).length := List.length_map _
  rw [hsub, ← intercalate_drop_splitOn, hlen]
  simp only [hjoin]
  constructor
  · -- dropping no piece leaves the text; dropping one or more leaves what follows a separator
    rintro ⟨i, hi, h⟩
    cases i with
    | zero =>
      rw [List.drop_zero, List.intercalate_splitOn] at h
      exact .inl (String.toList_inj.mp h)
    | succ i => exact .inr ⟨i, hi, h⟩
  · rintro (rfl | ⟨i, hi, h⟩)
    · exact ⟨0, List.length_pos_iff.mpr (List.splitOn_ne_nil sep _), by
        rw [List.drop_zero, List.intercalate_splitOn]⟩
    · exact ⟨i + 1, hi, h⟩

end Strings

namespace Bufio

/-- What `bufio.ScanLines` cuts a text into, before it drops a `\r`: a text that
    ends in a newline has no empty last line. -/
def rawLines (text : String) : List String :=
  let pieces := text.toList.splitOn '\n'
  (if pieces.getLast? = some [] then pieces.dropLast else pieces).map String.ofList

/-- The lines that a `Scanner` with a buffer of `limit` bytes yields. `none` is
    `ErrTooLong`: the newline of a line, or the end of the text, must fit beside it. (A
    reader that reports the end together with the last bytes could let a last line of
    exactly `limit` bytes pass.) -/
def scanLines (limit : Nat) (text : String) : Option (List String) :=
  if (rawLines text).all (Strings.byteLen · < limit) then
    some ((rawLines text).map (Strings.trimSuffix · "\r"))
  else none

example : scanLines 4 "a\r\n\nbcd" = some ["a", "", "bcd"] := by decide

example : scanLines 3 "a\r\n\nbcd" = none := by decide

end Bufio

end Blinex.Go
