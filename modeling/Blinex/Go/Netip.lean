import Mathlib.Data.List.TakeDrop
import Mathlib.Data.List.TakeWhile

/-!
# Go's `net/netip` and the parts of `net` built on it

Addresses, prefixes and their parsers, following the Go 1.25 sources. Parsers
return `none` where Go returns an error; the error texts are never inspected by
the repository. Go scans bytes and this model scans characters. The two agree:
every byte the parsers accept is ASCII, except inside an IPv6 zone, which is
carried verbatim.

- `Netip.parseAddr`, `Netip.parsePrefix`, `Prefix.contains`, `Prefix.masked`
- `Net.parseIP`, `Net.parseCIDR`
-/

namespace Blinex.Go

/-- `netip.Addr`: the zero value, an IPv4 address, or an IPv6 address with an
    optional zone (`""` for none). An IPv4-mapped IPv6 address is a `v6`. -/
inductive Addr where
  | invalid
  | v4 (a : BitVec 32)
  | v6 (a : BitVec 128) (zone : String)
deriving DecidableEq, Repr

namespace Addr

/-- `Addr.BitLen`. -/
def bitLen : Addr → Nat
  | invalid => 0
  | v4 _ => 32
  | v6 _ _ => 128

/-- `Addr.Is4`. -/
def is4 : Addr → Bool
  | v4 _ => true
  | _ => false

/-- `Addr.Zone`. -/
def zone : Addr → String
  | v6 _ z => z
  | _ => ""

/-- `Addr.As16`: IPv4 addresses in their mapped form. -/
def as16 : Addr → BitVec 128
  | invalid => 0
  | v4 a => (0xffff#96) ++ a
  | v6 a _ => a

/-- `Addr.IsValid`. -/
def isValid : Addr → Bool
  | invalid => false
  | _ => true

/-- `Addr.Is4In6`. -/
def is4In6 : Addr → Bool
  | v6 a _ => a >>> 32 == 0xffff
  | _ => false

/-- `Addr.Unmap`; the zone goes with the mapping. -/
def unmap : Addr → Addr
  | v6 a z => if a >>> 32 == 0xffff then v4 (a.setWidth 32) else v6 a z
  | ip => ip

/-- `Addr.IsLoopback`. -/
def isLoopback (ip : Addr) : Bool :=
  match ip.unmap with
  | v4 a => a >>> 24 == 127
  | v6 a _ => a == 1
  | invalid => false

/-- `Addr.IsLinkLocalUnicast`. -/
def isLinkLocalUnicast (ip : Addr) : Bool :=
  match ip.unmap with
  | v4 a => a >>> 16 == 0xa9fe
  | v6 a _ => a >>> 118 == 0x3fa
  | invalid => false

/-- `Addr.IsMulticast`. -/
def isMulticast (ip : Addr) : Bool :=
  match ip.unmap with
  | v4 a => a >>> 28 == 0xe
  | v6 a _ => a >>> 120 == 0xff
  | invalid => false

/-- `Addr.IsPrivate`. -/
def isPrivate (ip : Addr) : Bool :=
  match ip.unmap with
  | v4 a => a >>> 24 == 10 || a >>> 20 == 0xac1 || a >>> 16 == 0xc0a8
  | v6 a _ => a >>> 121 == 0x7e
  | invalid => false

/-- `Addr.IsUnspecified`, which does not look through a mapping. -/
def isUnspecified (ip : Addr) : Bool := ip == v4 0 || ip == v6 0 ""

theorem unmap_of_not_is4In6 {ip : Addr} (h : ip.is4In6 = false) : ip.unmap = ip := by
  cases ip with
  | invalid => rfl
  | v4 a => rfl
  | v6 a z => exact if_neg (by simpa [is4In6] using h)

theorem unmap_of_is4In6 {ip : Addr} (h : ip.is4In6 = true) : ∃ a, ip.unmap = v4 a := by
  cases ip with
  | invalid => cases h
  | v4 a => cases h
  | v6 a z => exact ⟨a.setWidth 32, if_pos h⟩

/-- Unmapping twice is unmapping once. -/
@[simp] theorem unmap_unmap (ip : Addr) : ip.unmap.unmap = ip.unmap := by
  cases h : ip.is4In6 with
  | true =>
    obtain ⟨a, ha⟩ := unmap_of_is4In6 h
    rw [ha]
    rfl
  | false => rw [unmap_of_not_is4In6 h, unmap_of_not_is4In6 h]

end Addr

/-- `netip.AddrFrom4` on the four bytes of a packet field. -/
def addrFrom4 (a b c d : UInt8) : Addr :=
  .v4 (a.toBitVec ++ b.toBitVec ++ c.toBitVec ++ d.toBitVec)

namespace Netip

/-! ## Addresses -/

/-- The value of a decimal digit. -/
def decDigit (c : Char) : Option Nat :=
  if '0' ≤ c ∧ c ≤ '9' then some (c.toNat - '0'.toNat) else none

/-- The loop of `parseIPv4Fields`. `val` and `digLen` describe the field being
    read, `pos` counts the finished fields and `acc` holds them in base 256. Go
    tests `i == 0 || s[i-1] == '.'` where this tests `digLen == 0`. -/
def parseIPv4FieldsLoop (val digLen pos acc : Nat) : List Char → Option (BitVec 32)
  | [] => if pos < 3 then none else some (BitVec.ofNat 32 (acc * 256 + val))
  | c :: rest =>
    match decDigit c with
    | some d =>
      if digLen = 1 ∧ val = 0 then none  -- leading zero
      else
        let val := val * 10 + d
        if 255 < val then none
        else parseIPv4FieldsLoop val (digLen + 1) pos acc rest
    | none =>
      if c = '.' then
        if digLen = 0 ∨ rest = [] then none  -- empty field
        else if pos = 3 then none  -- too many fields
        else parseIPv4FieldsLoop 0 0 (pos + 1) (acc * 256 + val) rest
      else none

/-- `parseIPv4Fields`, on the text of the fields alone. -/
def parseIPv4Fields (s : List Char) : Option (BitVec 32) :=
  parseIPv4FieldsLoop 0 0 0 0 s

/-- The value of a hexadecimal digit. -/
def hexDigit (c : Char) : Option Nat :=
  if '0' ≤ c ∧ c ≤ '9' then some (c.toNat - '0'.toNat)
  else if 'a' ≤ c ∧ c ≤ 'f' then some (c.toNat - 'a'.toNat + 10)
  else if 'A' ≤ c ∧ c ≤ 'F' then some (c.toNat - 'A'.toNat + 10)
  else none

/-- The inner loop of `parseIPv6`: the value of the leading hex field, how many
    digits it has and what follows. More than four digits is an error. -/
def hexField (off acc : Nat) : List Char → Option (Nat × Nat × List Char)
  | [] => some (acc, off, [])
  | c :: rest =>
    match hexDigit c with
    | some d => if 3 < off then none else hexField (off + 1) (acc * 16 + d) rest
    | none => some (acc, off, c :: rest)

/-- The outer loop of `parseIPv6`, at most `n` more fields. `fields` are the
    16-bit fields read so far and `ellipsis` the index of `::` among them; the
    result adds the text left over when the loop ends. -/
def parseIPv6Loop : Nat → List Char → List Nat → Option Nat →
    Option (List Nat × Option Nat × List Char)
  | 0, s, fields, ellipsis => some (fields, ellipsis, s)
  | n + 1, s, fields, ellipsis =>
    match hexField 0 0 s with
    | none => none
    | some (acc, off, rest) =>
      if off = 0 then none
      else if rest.head? = some '.' then
        -- trailing dotted quad: the whole of `s` again, as IPv4
        if ellipsis = none ∧ fields.length ≠ 6 then none
        else if 8 < fields.length + 2 then none
        else
          match parseIPv4Fields s with
          | none => none
          | some a => some (fields ++ [a.toNat / 65536, a.toNat % 65536], ellipsis, [])
      else
        let fields := fields ++ [acc]
        match rest with
        | [] => some (fields, ellipsis, [])
        | [_] => none
        | c :: d :: rest' =>
          if c ≠ ':' then none
          else if d = ':' then
            if ellipsis ≠ none then none
            else if rest' = [] then some (fields, some fields.length, [])
            else parseIPv6Loop n rest' fields (some fields.length)
          else parseIPv6Loop n (d :: rest') fields ellipsis

/-- The end of `parseIPv6`: expands the ellipsis to eight fields. -/
def expandEllipsis (fields : List Nat) : Option Nat → Option (List Nat)
  | none => if fields.length < 8 then none else some fields
  | some i =>
    if fields.length < 8 then
      some (fields.take i ++ List.replicate (8 - fields.length) 0 ++ fields.drop i)
    else none

/-- Big-endian value of the eight fields. -/
def fieldsToBits (fields : List Nat) : BitVec 128 :=
  BitVec.ofNat 128 (fields.foldl (fun acc f => acc * 65536 + f) 0)

/-- `parseIPv6` after the zone has been split off. -/
def parseIPv6NoZone (s : List Char) : Option (BitVec 128) :=
  let (s, ellipsis) : List Char × Option Nat :=
    match s with
    | ':' :: ':' :: rest => (rest, some 0)
    | s => (s, none)
  if ellipsis = some 0 ∧ s = [] then some 0
  else
    match parseIPv6Loop 8 s [] ellipsis with
    | none => none
    | some (fields, ellipsis, rest) =>
      if rest ≠ [] then none else (expandEllipsis fields ellipsis).map fieldsToBits

/-- `parseIPv6`. -/
def parseIPv6 (s : List Char) : Option Addr :=
  match s.span (· ≠ '%') with
  | (s, []) => (parseIPv6NoZone s).map (.v6 · "")
  | (s, _ :: zone) =>
    if zone = [] then none else (parseIPv6NoZone s).map (.v6 · (String.ofList zone))

/-- `netip.ParseAddr`: the first of `.`, `:` and `%` picks the family. -/
def parseAddr (s : String) : Option Addr :=
  match s.toList.find? (fun c => c = '.' ∨ c = ':' ∨ c = '%') with
  | some '.' => (parseIPv4Fields s.toList).map .v4
  | some ':' => parseIPv6 s.toList
  | _ => none

end Netip

/-! ## Prefixes -/

/-- `netip.Prefix`, valid by construction. -/
structure Prefix where
  addr : Addr
  bits : Nat
  bits_le : bits ≤ addr.bitLen
deriving DecidableEq

namespace Prefix

/-- `Prefix.Contains`: same family, no zone, and the leading `bits` bits equal. -/
def contains (p : Prefix) (ip : Addr) : Bool :=
  match p.addr, ip with
  | .v4 a, .v4 b => (b ^^^ a) >>> (32 - p.bits) == 0
  | .v6 a _, .v6 b z => z == "" && (b ^^^ a) >>> (128 - p.bits) == 0
  | _, _ => false

/-- Only an IPv4 prefix contains IPv4 addresses. -/
theorem contains_v4_of_not_is4 {p : Prefix} (h : p.addr.is4 = false) (a : BitVec 32) :
    p.contains (.v4 a) = false := by
  obtain ⟨addr, bits, hbits⟩ := p
  cases addr with
  | v4 b => exact nomatch h
  | invalid => rfl
  | v6 b z => rfl

/-- `Addr` with all but the leading `n` bits cleared. -/
def maskAddr (n : Nat) : Addr → Addr
  | .invalid => .invalid
  | .v4 a => .v4 (a >>> (32 - n) <<< (32 - n))
  | .v6 a z => .v6 (a >>> (128 - n) <<< (128 - n)) z

private theorem bitLen_maskAddr (n : Nat) (a : Addr) : (maskAddr n a).bitLen = a.bitLen := by
  cases a <;> rfl

/-- `Prefix.Masked`. -/
def masked (p : Prefix) : Prefix :=
  ⟨maskAddr p.bits p.addr, p.bits, by rw [bitLen_maskAddr]; exact p.bits_le⟩

/-- The prefix of length `n` around an IPv4 address. -/
def around (n : Nat) (h : n ≤ 32) (a : BitVec 32) : Prefix :=
  ⟨maskAddr n (.v4 a), n, by rw [bitLen_maskAddr]; exact h⟩

/-- `0.0.0.0/0`. -/
def default4 : Prefix := ⟨.v4 0, 0, Nat.zero_le _⟩

/-- The prefix of length zero is the default route. -/
theorem around_zero (a : BitVec 32) : around 0 (Nat.zero_le _) a = default4 := by
  have h : (a >>> 32) <<< 32 = 0#32 := by
    rw [BitVec.ushiftRight_eq_zero (Nat.le_refl _)]
    rfl
  simp only [around, maskAddr, Nat.sub_zero, h]
  rfl

end Prefix

namespace Netip

/-- Value of a non-empty string of decimal digits. -/
def decNumber (s : List Char) : Option Nat :=
  if s = [] then none
  else s.foldl (fun acc c => acc.bind fun n => (decDigit c).map (n * 10 + ·)) (some 0)

/-- `netip.ParsePrefix`: splits at the last slash; no zone, no sign and no
    leading zero in the length. -/
def parsePrefix (s : String) : Option Prefix :=
  -- the last slash separates the length
  match s.toList.reverse.span (· ≠ '/') with
  | (_, []) => none
  | (revBits, _ :: revAddr) =>
    match parseAddr (String.ofList revAddr.reverse) with
    | none => none
    | some ip =>
      -- no zone, and a length without sign or leading zero
      if ip.zone ≠ "" then none
      else
        let bitsStr := revBits.reverse
        if 1 < bitsStr.length ∧ bitsStr.head? = some '0' then none
        else
          match decNumber bitsStr with
          | none => none
          | some bits => if h : bits ≤ ip.bitLen then some ⟨ip, bits, h⟩ else none

end Netip

namespace Netip

/-- The loop over decimal digits computes their number. -/
private theorem foldl_decDigit (l : List Char) (hl : ∀ c ∈ l, c.isDigit = true) (n : Nat) :
    l.foldl (fun acc c => acc.bind fun n => (decDigit c).map (n * 10 + ·)) (some n) =
      some (Nat.ofDigitChars 10 l n) := by
  induction l generalizing n with
  | nil => rfl
  | cons c l ih =>
    have hc : decDigit c = some (c.toNat - '0'.toNat) := by
      have hd := hl c List.mem_cons_self
      simp only [Char.isDigit, Bool.and_eq_true, decide_eq_true_eq] at hd
      exact if_pos hd
    rw [List.foldl_cons, Nat.ofDigitChars_cons, Option.bind_some, hc, Option.map_some,
      ih (fun d hd => hl d (List.mem_cons_of_mem _ hd)), Nat.mul_comm]

/-- What `%d` prints is read back. -/
theorem decNumber_repr (n : Nat) : decNumber n.repr.toList = some n := by
  rw [Nat.toList_repr, decNumber, if_neg Nat.toDigits_ne_nil,
    foldl_decDigit _ fun c hc => Nat.isDigit_of_mem_toDigits (by decide) (by decide) hc,
    Nat.ofDigitChars_ten_toDigits]

end Netip

/-! ## Package `net` -/

namespace Net

/-- `net.ParseIP`: 16 bytes, IPv4 in its mapped form; zones are refused. -/
def parseIP (s : String) : Option (BitVec 128) :=
  match Netip.parseAddr s with
  | some ip => if ip.zone ≠ "" then none else some ip.as16
  | none => none

/-- `net.ParseCIDR`, the network only: splits at the first slash, allows leading
    zeros in the length and clears the host bits. -/
def parseCIDR (s : String) : Option Prefix :=
  -- the first slash separates the length, unlike in `netip.ParsePrefix`
  match s.toList.span (· ≠ '/') with
  | (_, []) => none
  | (addr, _ :: mask) =>
    match Netip.parseAddr (String.ofList addr) with
    | none => none
    | some ip =>
      if ip.zone ≠ "" then none
      else
        match Netip.decNumber mask with
        | none => none
        | some n =>
          if h : n ≤ ip.bitLen then some (Prefix.masked ⟨ip, n, h⟩) else none

/-- `IP.To4`. -/
def to4 (ip : BitVec 128) : Option (BitVec 32) :=
  if ip >>> 32 = 0xffff then some (ip.setWidth 32) else none

/-- `IPNet.Contains` for a network that `ParseCIDR` returned. A network of mapped
    addresses counts as IPv4, with the last 32 bits of its mask. -/
def contains (n : Prefix) (ip : BitVec 128) : Bool :=
  match to4 n.addr.as16, to4 ip with
  | some nn, some x =>
    let bits := if n.addr.is4 then n.bits else n.bits - 96
    nn >>> (32 - bits) == x >>> (32 - bits)
  | none, none => n.addr.as16 >>> (128 - n.bits) == ip >>> (128 - n.bits)
  | _, _ => false

/-- `IP.IsPrivate`: RFC 1918 and unique local addresses. -/
def isPrivate (ip : BitVec 128) : Bool :=
  match to4 ip with
  | some a => a >>> 24 == 10 || a >>> 20 == 0xac1 || a >>> 16 == 0xc0a8
  | none => ip >>> 121 == 0x7e

/-- `IP.IsLoopback`. -/
def isLoopback (ip : BitVec 128) : Bool :=
  match to4 ip with
  | some a => a >>> 24 == 127
  | none => ip == 1

/-- `IP.IsUnspecified`. -/
def isUnspecified (ip : BitVec 128) : Bool :=
  match to4 ip with
  | some a => a == 0
  | none => ip == 0

end Net

/-! ## Dotted quads are read back -/

namespace Netip

/-- How `%d` prints a byte. -/
private theorem toDigits_byte (n : Nat) (h : n < 256) :
    (n < 10 ∧ Nat.toDigits 10 n = [n.digitChar]) ∨
    (10 ≤ n ∧ n < 100 ∧ Nat.toDigits 10 n = [(n / 10).digitChar, (n % 10).digitChar]) ∨
    (100 ≤ n ∧ Nat.toDigits 10 n =
      [(n / 100).digitChar, (n / 10 % 10).digitChar, (n % 10).digitChar]) := by
  revert n
  decide +kernel

private theorem decDigit_digitChar (d : Nat) (h : d < 10) : decDigit d.digitChar = some d := by
  revert d
  decide +kernel

/-- The loop reads a printed byte as one field. -/
private theorem parseIPv4FieldsLoop_byte {n : Nat} (h : n < 256) (pos acc : Nat)
    (rest : List Char) :
    ∃ len, 0 < len ∧ parseIPv4FieldsLoop 0 0 pos acc (Nat.toDigits 10 n ++ rest) =
      parseIPv4FieldsLoop n len pos acc rest := by
  have hle : ¬255 < n := by omega
  -- a byte has one, two or three digits, and the first of several is not zero
  rcases toDigits_byte n h with ⟨hn, hd⟩ | ⟨hn, hn', hd⟩ | ⟨hn, hd⟩
  · refine ⟨1, by omega, ?_⟩
    simp [hd, parseIPv4FieldsLoop, decDigit_digitChar n hn, hle]
  · have hval : n / 10 * 10 + n % 10 = n := by omega
    have hfirst : ¬255 < n / 10 := by omega
    have hnz : n / 10 ≠ 0 := by omega
    refine ⟨2, by omega, ?_⟩
    simp [hd, parseIPv4FieldsLoop, decDigit_digitChar (n / 10) (by omega),
      decDigit_digitChar (n % 10) (by omega), hfirst, hnz, hval, hle]
  · have hval₂ : n / 100 * 10 + n / 10 % 10 = n / 10 := by omega
    have hval : n / 10 * 10 + n % 10 = n := by omega
    have hfirst : ¬255 < n / 100 := by omega
    have hsecond : ¬255 < n / 10 := by omega
    have hnz : n / 100 ≠ 0 := by omega
    refine ⟨3, by omega, ?_⟩
    simp [hd, parseIPv4FieldsLoop, decDigit_digitChar (n / 100) (by omega),
      decDigit_digitChar (n / 10 % 10) (by omega),
      decDigit_digitChar (n % 10) (by omega), hfirst, hnz, hval₂, hval, hsecond, hle]

/-- A dot ends a field that has digits, and the next one begins. -/
private theorem parseIPv4FieldsLoop_dot {val len pos acc : Nat} {rest : List Char}
    (hlen : 0 < len) (hrest : rest ≠ []) (hpos : pos < 3) :
    parseIPv4FieldsLoop val len pos acc ('.' :: rest) =
      parseIPv4FieldsLoop 0 0 (pos + 1) (acc * 256 + val) rest := by
  have hdot : decDigit '.' = none := by decide
  have hlen' : len ≠ 0 := by omega
  have hpos' : pos ≠ 3 := by omega
  simp [parseIPv4FieldsLoop, hdot, hlen', hrest, hpos']

/-- A byte and the dot after it. -/
private theorem parseIPv4FieldsLoop_field {n : Nat} (h : n < 256) {pos acc : Nat}
    {rest : List Char} (hrest : rest ≠ []) (hpos : pos < 3) :
    parseIPv4FieldsLoop 0 0 pos acc (Nat.toDigits 10 n ++ '.' :: rest) =
      parseIPv4FieldsLoop 0 0 (pos + 1) (acc * 256 + n) rest := by
  obtain ⟨len, hlen, heq⟩ := parseIPv4FieldsLoop_byte h pos acc ('.' :: rest)
  rw [heq, parseIPv4FieldsLoop_dot hlen hrest hpos]

/-- After a number the dot decides that the text is IPv4. -/
private theorem find?_toDigits_dot (n : Nat) (rest : List Char) :
    (Nat.toDigits 10 n ++ '.' :: rest).find? (fun c => c = '.' ∨ c = ':' ∨ c = '%') =
      some '.' := by
  rw [List.find?_append, List.find?_eq_none.mpr, Option.none_or, List.find?_cons_of_pos]
  · simp
  · intro x hx
    have hdig := Nat.isDigit_of_mem_toDigits (by decide) (by decide) hx
    simp only [decide_eq_true_eq]
    rintro (rfl | rfl | rfl) <;> exact absurd hdig (by decide)

/-- A dotted quad is read back. -/
theorem parseAddr_dotted {a b c d : Nat} (ha : a < 256) (hb : b < 256) (hc : c < 256)
    (hd : d < 256) :
    parseAddr (toString a ++ "." ++ toString b ++ "." ++ toString c ++ "." ++ toString d) =
      some (.v4 (BitVec.ofNat 32 (((a * 256 + b) * 256 + c) * 256 + d))) := by
  have htext : (toString a ++ "." ++ toString b ++ "." ++ toString c ++ "." ++ toString d).toList =
      Nat.toDigits 10 a ++ '.' :: (Nat.toDigits 10 b ++ '.' :: (Nat.toDigits 10 c ++
        '.' :: Nat.toDigits 10 d)) := by
    simp [← Nat.toList_repr, toString]
  simp only [parseAddr, htext, find?_toDigits_dot, parseIPv4Fields]
  -- three fields with a dot, then the last one
  rw [parseIPv4FieldsLoop_field ha (by simp) (by decide),
    parseIPv4FieldsLoop_field hb (by simp) (by decide),
    parseIPv4FieldsLoop_field hc Nat.toDigits_ne_nil (by decide)]
  obtain ⟨len, _, heq⟩ := parseIPv4FieldsLoop_byte hd 3 (((0 * 256 + a) * 256 + b) * 256 + c) []
  rw [List.append_nil] at heq
  rw [heq]
  simp [parseIPv4FieldsLoop]

end Netip

namespace Net

theorem toNat_mapped (a : BitVec 32) : ((0xffff#96) ++ a).toNat = 65535 * 4294967296 + a.toNat := by
  rw [BitVec.toNat_append, ← Nat.shiftLeft_add_eq_or_of_lt a.isLt, Nat.shiftLeft_eq]
  rfl

/-- `To4` accepts the mapped addresses only. -/
theorem to4_eq_some {ip : BitVec 128} {a : BitVec 32} (h : to4 ip = some a) :
    ip = (0xffff#96) ++ a := by
  unfold to4 at h
  split at h
  · rename_i hmapped
    have hhigh := congrArg BitVec.toNat hmapped
    rw [BitVec.toNat_ushiftRight, Nat.shiftRight_eq_div_pow] at hhigh
    change ip.toNat / 2 ^ 32 = 65535 at hhigh
    rw [← Option.some.inj h]
    apply BitVec.eq_of_toNat_eq
    rw [toNat_mapped, BitVec.toNat_setWidth]
    omega
  · cases h

/-- A mapped address has the IPv4 address it was made from. -/
theorem to4_mapped (a : BitVec 32) : to4 ((0xffff#96) ++ a) = some a := by
  have hlt := a.isLt
  unfold to4
  rw [if_pos]
  · congr 1
    apply BitVec.eq_of_toNat_eq
    rw [BitVec.toNat_setWidth, toNat_mapped]
    omega
  · apply BitVec.eq_of_toNat_eq
    rw [BitVec.toNat_ushiftRight, Nat.shiftRight_eq_div_pow, toNat_mapped]
    show (65535 * 4294967296 + a.toNat) / 4294967296 = 65535
    omega

/-- Different addresses stay different when they are mapped. -/
theorem mapped_inj {a b : BitVec 32} (h : (0xffff#96) ++ a = (0xffff#96) ++ b) : a = b := by
  have hto4 := congrArg to4 h
  rw [to4_mapped, to4_mapped] at hto4
  exact Option.some.inj hto4

end Net

/-! ## The characters of accepted texts -/

namespace Netip

section

variable {x : Char} (hdigit : decDigit x = none) (hdot : x ≠ '.')

include hdigit hdot

/-- The text of a dotted quad has only digits and dots in it. -/
private theorem not_mem_of_ipv4 (s : List Char) (val digLen pos acc : Nat) (a : BitVec 32)
    (h : parseIPv4FieldsLoop val digLen pos acc s = some a) : x ∉ s := by
  induction s generalizing val digLen pos acc with
  | nil => exact List.not_mem_nil
  | cons c rest ih =>
    simp only [parseIPv4FieldsLoop] at h
    -- a character that gets past the loop is a digit or a dot
    cases hd : decDigit c with
    | some d =>
      simp only [hd] at h
      split at h
      · exact nomatch h
      · split at h
        · exact nomatch h
        · rintro (_ | ⟨_, hmem⟩)
          · exact nomatch hdigit.symm.trans hd
          · exact ih _ _ _ _ h hmem
    | none =>
      simp only [hd] at h
      split at h
      · rename_i hc
        split at h
        · exact nomatch h
        · split at h
          · exact nomatch h
          · rintro (_ | ⟨_, hmem⟩)
            · exact hdot hc
            · exact ih _ _ _ _ h hmem
      · exact nomatch h

end

/-- What is no hex digit is left over by the hex field before it. -/
private theorem mem_hexField {x : Char} (hx : hexDigit x = none) {s rest : List Char}
    {off acc acc' off' : Nat} (h : hexField off acc s = some (acc', off', rest))
    (hmem : x ∈ s) : x ∈ rest := by
  induction s generalizing off acc with
  | nil => cases hmem
  | cons c s ih =>
    simp only [hexField] at h
    split at h
    · -- a digit is taken, and `x` is none
      rename_i d hd
      split at h
      · cases h
      · rcases List.mem_cons.mp hmem with rfl | hmem
        · rw [hx] at hd
          cases hd
        · exact ih h hmem
    · obtain ⟨-, -, rfl⟩ := Option.some.inj h
      exact hmem

/-- The loop over the fields never passes over a character that no address has. -/
private theorem mem_parseIPv6Loop {x : Char} (hhex : hexDigit x = none)
    (hdigit : decDigit x = none) (hdot : x ≠ '.') (hcolon : x ≠ ':') {n : Nat}
    {s rest : List Char} {fields fields' : List Nat} {ellipsis ellipsis' : Option Nat}
    (h : parseIPv6Loop n s fields ellipsis = some (fields', ellipsis', rest))
    (hmem : x ∈ s) : x ∈ rest := by
  -- on the number of fields that may still come
  induction n generalizing s fields ellipsis with
  | zero =>
    obtain ⟨-, -, rfl⟩ := Option.some.inj h
    exact hmem
  | succ n ih =>
    simp only [parseIPv6Loop] at h
    split at h
    · cases h
    · rename_i acc off left hfield
      have hleft := mem_hexField hhex hfield hmem
      split at h
      · cases h
      · split at h
        · -- the rest is a dotted quad
          split at h
          · cases h
          · split at h
            · cases h
            · split at h
              · cases h
              · rename_i a ha
                exact absurd hmem (not_mem_of_ipv4 hdigit hdot _ _ _ _ _ _ ha)
        · split at h
          · cases hleft
          · cases h
          · rename_i c d left' _
            split at h
            · cases h
            · rename_i hc
              -- `x` is behind the colon
              have htail : x ∈ d :: left' := by
                rcases List.mem_cons.mp hleft with rfl | htail
                · exact absurd hcolon hc
                · exact htail
              split at h
              · rename_i hd
                have hleft' : x ∈ left' := by
                  rcases List.mem_cons.mp htail with rfl | hleft'
                  · exact absurd hd hcolon
                  · exact hleft'
                split at h
                · cases h
                · split at h
                  · rename_i hnil
                    rw [hnil] at hleft'
                    cases hleft'
                  · exact ih h hleft'
              · exact ih h htail

/-- An IPv6 address without a zone has no other characters than those of the syntax. -/
private theorem not_mem_of_ipv6 {x : Char} (hhex : hexDigit x = none)
    (hdigit : decDigit x = none) (hdot : x ≠ '.') (hcolon : x ≠ ':') {s : List Char}
    {b : BitVec 128} (h : parseIPv6NoZone s = some b) : x ∉ s := by
  intro hmem
  -- a leading `::` is no more than two colons
  have hloop : ∃ s' ellipsis, x ∈ s' ∧
      (if ellipsis = some 0 ∧ s' = [] then some 0
       else match parseIPv6Loop 8 s' [] ellipsis with
        | none => none
        | some (fields, ellipsis, rest) =>
          if rest ≠ [] then none else (expandEllipsis fields ellipsis).map fieldsToBits) =
        some b := by
    unfold parseIPv6NoZone at h
    split at h
    rename_i s' ellipsis hsplit
    refine ⟨s', ellipsis, ?_, h⟩
    split at hsplit
    · obtain ⟨rfl, -⟩ := hsplit
      simpa [hcolon] using hmem
    · obtain ⟨rfl, -⟩ := hsplit
      exact hmem
  obtain ⟨s', ellipsis, hmem', hres⟩ := hloop
  rw [if_neg fun hnil => List.ne_nil_of_mem hmem' hnil.2] at hres
  split at hres
  · cases hres
  · rename_i rest hrun
    rw [if_pos (List.ne_nil_of_mem (mem_parseIPv6Loop hhex hdigit hdot hcolon hrun hmem'))] at hres
    cases hres

/-- Both sides of a split; the second starts with the separator. -/
private theorem span_eq {p : Char → Bool} {l a b : List Char} (h : l.span p = (a, b)) :
    l = a ++ b ∧ ∀ c ∈ b.head?, p c = false := by
  rw [List.span_eq_takeWhile_dropWhile, Prod.mk.injEq] at h
  obtain ⟨rfl, rfl⟩ := h
  refine ⟨List.takeWhile_append_dropWhile.symm, ?_⟩
  intro c hc
  have hnot := List.head?_dropWhile_not p l
  rw [hc] at hnot
  exact hnot

/-- An address without a zone has only hex digits, dots and colons in it. -/
private theorem not_mem_of_parseAddr {x : Char} (hhex : hexDigit x = none)
    (hdigit : decDigit x = none) (hdot : x ≠ '.') (hcolon : x ≠ ':') {s : String} {ip : Addr}
    (h : parseAddr s = some ip) (hzone : ip.zone = "") : x ∉ s.toList := by
  unfold parseAddr at h
  split at h
  · -- the first dot or colon of the text decides the family
    obtain ⟨a, ha, -⟩ := Option.map_eq_some_iff.mp h
    exact not_mem_of_ipv4 hdigit hdot _ _ _ _ _ _ ha
  · unfold parseIPv6 at h
    split at h
    · rename_i text hspan
      obtain ⟨b, hb, -⟩ := Option.map_eq_some_iff.mp h
      rw [(span_eq hspan).1, List.append_nil]
      exact not_mem_of_ipv6 hhex hdigit hdot hcolon hb
    · -- with a percent sign there is a zone
      split at h
      · cases h
      · rename_i zone hne
        obtain ⟨b, -, rfl⟩ := Option.map_eq_some_iff.mp h
        exact absurd (String.ofList_eq_empty_iff.mp hzone) hne
  · cases h

/-- No address without a zone has a comma in it. -/
theorem comma_not_mem_of_parseAddr {s : String} {ip : Addr} (h : parseAddr s = some ip)
    (hzone : ip.zone = "") : ',' ∉ s.toList :=
  not_mem_of_parseAddr (by decide) (by decide) (by decide) (by decide) h hzone

/-- Nor a slash. -/
theorem slash_not_mem_of_parseAddr {s : String} {ip : Addr} (h : parseAddr s = some ip)
    (hzone : ip.zone = "") : '/' ∉ s.toList :=
  not_mem_of_parseAddr (by decide) (by decide) (by decide) (by decide) h hzone

/-- A zone comes after a percent sign. -/
private theorem percent_mem_of_zone {s : String} {ip : Addr} (h : parseAddr s = some ip)
    (hzone : ip.zone ≠ "") : '%' ∈ s.toList := by
  unfold parseAddr at h
  split at h
  · obtain ⟨a, -, rfl⟩ := Option.map_eq_some_iff.mp h
    exact absurd rfl hzone
  · unfold parseIPv6 at h
    -- without a percent sign there is no zone
    split at h
    · obtain ⟨b, -, rfl⟩ := Option.map_eq_some_iff.mp h
      exact absurd rfl hzone
    · rename_i text percent zone hspan
      obtain ⟨htext, hpercent⟩ := span_eq hspan
      have hpercent' : percent = '%' := by simpa using hpercent percent rfl
      rw [htext, hpercent']
      exact List.mem_append_right _ List.mem_cons_self
  · cases h

/-- The zero value is not parsed. -/
theorem ne_invalid_of_parseAddr {s : String} {ip : Addr} (h : parseAddr s = some ip) :
    ip ≠ .invalid := by
  rintro rfl
  unfold parseAddr at h
  split at h
  · simp at h
  · unfold parseIPv6 at h
    split at h
    · simp at h
    · split at h
      · cases h
      · simp at h
  · cases h

/-- The colon tells the families apart. -/
theorem colon_mem_iff {s : String} {ip : Addr} (h : parseAddr s = some ip) :
    ':' ∈ s.toList ↔ ip.is4 = false := by
  unfold parseAddr at h
  split at h
  · -- a dot came first, and a dotted quad has no colon
    obtain ⟨a, ha, rfl⟩ := Option.map_eq_some_iff.mp h
    exact iff_of_false (not_mem_of_ipv4 (by decide) (by decide) _ _ _ _ _ _ ha) (by simp [Addr.is4])
  · rename_i hfind
    refine iff_of_true (List.mem_of_find?_eq_some hfind) ?_
    unfold parseIPv6 at h
    split at h
    · obtain ⟨b, -, rfl⟩ := Option.map_eq_some_iff.mp h
      rfl
    · split at h
      · cases h
      · obtain ⟨b, -, rfl⟩ := Option.map_eq_some_iff.mp h
        rfl
  · cases h

/-- The loop over decimal digits fails at any other character. -/
private theorem foldl_decDigit_of_mem {x : Char} (hx : decDigit x = none) {s : List Char}
    (acc : Option Nat) (h : acc = none ∨ x ∈ s) :
    s.foldl (fun acc c => acc.bind fun n => (decDigit c).map (n * 10 + ·)) acc = none := by
  induction s generalizing acc with
  | nil =>
    rcases h with rfl | hmem
    · rfl
    · cases hmem
  | cons c s ih =>
    rw [List.foldl_cons]
    apply ih
    rcases h with rfl | hmem
    · exact .inl rfl
    · -- the loop fails at `x` and stays failed
      rcases List.mem_cons.mp hmem with rfl | hmem
      · left
        cases acc <;> simp [hx]
      · exact .inr hmem

/-- A number has only digits in it. -/
private theorem not_mem_of_decNumber {x : Char} (hx : decDigit x = none) {s : List Char} {n : Nat}
    (h : decNumber s = some n) : x ∉ s := by
  intro hmem
  unfold decNumber at h
  split at h
  · cases h
  · rw [foldl_decDigit_of_mem hx _ (.inr hmem)] at h
    cases h

/-- A text is split at its first separator. -/
private theorem span_append {x : Char} {a b : List Char} (h : x ∉ a) :
    (a ++ x :: b).span (· ≠ x) = (a, x :: b) := by
  have hall : ∀ c ∈ a, decide (c ≠ x) = true := by
    intro c hc
    rw [decide_eq_true_eq]
    rintro rfl
    exact h hc
  rw [List.span_eq_takeWhile_dropWhile, Prod.mk.injEq]
  constructor
  · rw [List.takeWhile_append_of_pos hall, List.takeWhile_cons_of_neg (by simp), List.append_nil]
  · rw [List.dropWhile_append_of_pos hall, List.dropWhile_cons_of_neg (by simp)]

/-! ## CIDR notation -/

/-- A text in CIDR notation: an address, a slash and a length in decimal digits. -/
structure CIDRText (s : String) (ip : Addr) (bits : Nat) where
  addr : String
  mask : List Char
  text : s.toList = addr.toList ++ '/' :: mask
  parse : parseAddr addr = some ip
  zone : ip.zone = ""
  number : decNumber mask = some bits
  bits_le : bits ≤ ip.bitLen

/-- What `ParseCIDR` accepts is a text in CIDR notation. -/
theorem exists_cidrText {s : String} {n : Prefix} (h : Net.parseCIDR s = some n) :
    ∃ ip bits, ∃ t : CIDRText s ip bits, n = Prefix.masked ⟨ip, bits, t.bits_le⟩ := by
  unfold Net.parseCIDR at h
  split at h
  · cases h
  · rename_i addr slash mask hspan
    obtain ⟨htext, hslash⟩ := span_eq hspan
    have hslash' : slash = '/' := by simpa using hslash slash rfl
    -- the parts that were accepted, one after the other: address, zone, length
    split at h
    · cases h
    · rename_i ip hip
      split at h
      · cases h
      · rename_i hzone
        split at h
        · cases h
        · rename_i bits hbits
          split at h
          · rename_i hle
            refine ⟨ip, bits, ⟨String.ofList addr, mask, ?_, hip, not_not.mp hzone, hbits, hle⟩,
              (Option.some.inj h).symm⟩
            rw [String.toList_ofList, htext, hslash']
          · cases h

/-- `ParseCIDR` accepts every such text, and clears the host bits. -/
theorem CIDRText.parseCIDR {s : String} {ip : Addr} {bits : Nat} (t : CIDRText s ip bits) :
    Net.parseCIDR s = some (Prefix.masked ⟨ip, bits, t.bits_le⟩) := by
  have hslash := slash_not_mem_of_parseAddr t.parse t.zone
  simp only [Net.parseCIDR, t.text, span_append hslash, String.ofList_toList, t.parse, t.zone,
    ne_eq, not_true_eq_false, ↓reduceIte, t.number, t.bits_le, ↓reduceDIte]

/-- The length has a zero in front. -/
def CIDRText.padded {s : String} {ip : Addr} {bits : Nat} (t : CIDRText s ip bits) : Prop :=
  1 < t.mask.length ∧ t.mask.head? = some '0'

/-- `ParsePrefix` accepts it unless the length has a zero in front, and keeps the host bits. -/
theorem CIDRText.parsePrefix {s : String} {ip : Addr} {bits : Nat} (t : CIDRText s ip bits)
    [Decidable t.padded] :
    Netip.parsePrefix s = if t.padded then none else some ⟨ip, bits, t.bits_le⟩ := by
  have hslash : '/' ∉ t.mask.reverse := by
    rw [List.mem_reverse]
    exact not_mem_of_decNumber (by decide) t.number
  -- the last slash is the only one
  have hrev : s.toList.reverse = t.mask.reverse ++ '/' :: t.addr.toList.reverse := by
    rw [t.text, List.reverse_append, List.reverse_cons, List.append_assoc, List.singleton_append]
  simp only [Netip.parsePrefix, hrev, span_append hslash, List.reverse_reverse,
    String.ofList_toList, t.parse, t.zone, ne_eq, not_true_eq_false, ↓reduceIte, t.number,
    t.bits_le, ↓reduceDIte]
  congr

/-- It is no address. -/
theorem CIDRText.parseAddr {s : String} {ip : Addr} {bits : Nat} (t : CIDRText s ip bits) :
    Netip.parseAddr s = none := by
  cases hip : Netip.parseAddr s with
  | none => rfl
  | some ip' =>
    exfalso
    by_cases hzone : ip'.zone = ""
    · apply slash_not_mem_of_parseAddr hip hzone
      rw [t.text]
      exact List.mem_append_right _ List.mem_cons_self
    · -- the percent sign of a zone would be in the address or in the length
      have hpercent := percent_mem_of_zone hip hzone
      have haddr := not_mem_of_parseAddr (x := '%') (by decide) (by decide) (by decide)
        (by decide) t.parse t.zone
      have hmask := not_mem_of_decNumber (x := '%') (by decide) t.number
      rw [t.text] at hpercent
      simp [haddr, hmask] at hpercent

/-- The colon tells the families apart here too. -/
theorem CIDRText.colon_mem_iff {s : String} {ip : Addr} {bits : Nat} (t : CIDRText s ip bits) :
    ':' ∈ s.toList ↔ ip.is4 = false := by
  have hmask := not_mem_of_decNumber (x := ':') (by decide) t.number
  rw [t.text, ← Netip.colon_mem_iff t.parse]
  simp [hmask]

/-- No network in CIDR notation has a comma in it. -/
theorem comma_not_mem_of_parseCIDR {s : String} {n : Prefix} (h : Net.parseCIDR s = some n) :
    ',' ∉ s.toList := by
  obtain ⟨ip, bits, t, -⟩ := exists_cidrText h
  rw [t.text]
  simp only [List.mem_append, List.mem_cons, not_or]
  exact ⟨comma_not_mem_of_parseAddr t.parse t.zone, by decide,
    not_mem_of_decNumber (by decide) t.number⟩

/-- Without a slash there is no prefix length. -/
theorem parsePrefix_of_no_slash {s : String} (h : '/' ∉ s.toList) :
    parsePrefix s = none := by
  have hspan : s.toList.reverse.span (· ≠ '/') = (s.toList.reverse, []) := by
    rw [List.span_eq_takeWhile_dropWhile, Prod.mk.injEq]
    have hall : ∀ c ∈ s.toList.reverse, decide (c ≠ '/') = true := by
      intro c hc
      rw [decide_eq_true_eq]
      rintro rfl
      exact h (List.mem_reverse.mp hc)
    exact ⟨List.takeWhile_eq_self_iff.mpr hall, List.dropWhile_eq_nil_iff.mpr hall⟩
  simp only [parsePrefix, hspan]

/-- What `ParseAddr` reads as IPv4, `ParsePrefix` refuses. -/
theorem parsePrefix_eq_none_of_parseAddr {s : String} {a : BitVec 32}
    (h : parseAddr s = some (.v4 a)) : parsePrefix s = none :=
  parsePrefix_of_no_slash (slash_not_mem_of_parseAddr h rfl)

end Netip

end Blinex.Go
