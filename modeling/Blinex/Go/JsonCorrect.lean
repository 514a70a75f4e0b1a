import Blinex.Go.Json

/-!
# What `encoding/json` reads

A value that something follows is read in the same way when the text goes on (`Stable`). So a text
that is one object is not accepted when its end is missing (`parse_eq_none_of_cut`). What
`appendString` and the object encoder write is read back (`value_quote`, `object_written`,
`unquote_quoteLit`).
-/

namespace Blinex.Go.Json

/-! ## When the text goes on -/

/-- White space in front ends at the same byte when the text goes on. -/
private theorem dropWhile_isSpace_append {p rest : List UInt8} {b : UInt8}
    (h : p.dropWhile isSpace = b :: rest) (q : List UInt8) :
    (p ++ q).dropWhile isSpace = b :: (rest ++ q) := by
  rw [List.dropWhile_append, h]
  rfl

/-- The byte that `expect` takes is the first one after white space. -/
theorem expect_eq_some {b : UInt8} {p r : List UInt8} :
    expect b p = some r ↔ p.dropWhile isSpace = b :: r := by
  rw [expect]
  split
  · rename_i h
    simp [h]
  · rename_i b' rest h
    rw [h]
    by_cases hb : b' = b
    · simp [hb]
    · simp [hb]

/-- A byte that is there is there when the text goes on. -/
private theorem expect_append {b : UInt8} {p r : List UInt8} (h : expect b p = some r)
    (q : List UInt8) :
    expect b (p ++ q) = some (r ++ q) := by
  rw [expect_eq_some] at h ⊢
  exact dropWhile_isSpace_append h q

/-- Another byte than the expected one comes first, and still does. -/
private theorem expect_append_none {b b' : UInt8} {p r : List UInt8} (h : expect b p = none)
    (hb' : p.dropWhile isSpace = b' :: r) (q : List UInt8) : expect b (p ++ q) = none := by
  rw [expect, hb'] at h
  rw [expect, dropWhile_isSpace_append hb' q]
  by_cases hb : b' = b
  · simp [hb] at h
  · simp [hb]

/-- A literal that has been closed stays so when the text goes on. -/
private theorem scanString_append {st : StringState} {p lit r : List UInt8}
    (h : scanString st p = some (lit, r)) (q : List UInt8) :
    scanString st (p ++ q) = some (lit, r ++ q) := by
  -- on the text, from any state of the scanner
  induction p generalizing st lit r with
  | nil => cases h
  | cons b p ih =>
    rw [scanString] at h
    rw [List.cons_append, scanString]
    split at h
    · rename_i hend
      cases h
      rw [if_pos hend]
    · rename_i hend
      rw [if_neg hend]
      cases hnext : st.next b with
      | none => rw [hnext] at h; cases h
      | some st' =>
        simp only [hnext, Option.map_eq_some_iff, Prod.mk.injEq, Prod.exists] at h
        obtain ⟨lit', r', hscan, rfl, rfl⟩ := h
        simp only [ih hscan, Option.map_some]

/-- A number that something follows ends there. -/
private theorem scanNumber_append {st : NumState} {p r : List UInt8} (h : scanNumber st p = some r)
    (hr : r ≠ []) (q : List UInt8) : scanNumber st (p ++ q) = some (r ++ q) := by
  induction p generalizing st with
  | nil =>
    rw [scanNumber] at h
    split at h
    · -- the number would have ended with the text
      exact absurd (Option.some.inj h).symm hr
    · cases h
  | cons b p ih =>
    rw [scanNumber] at h
    rw [List.cons_append, scanNumber]
    cases hnext : st.next b with
    | some st' =>
      rw [hnext] at h
      exact ih h
    -- a byte that cannot continue the number ends it, in an accepting state
    | none =>
      simp only [hnext] at h ⊢
      split at h
      · rename_i haccepts
        rw [if_pos haccepts, ← Option.some.inj h]
        rfl
      · cases h

/-- A word is read whether or not the text goes on. -/
private theorem word_append {w : String} {v v' : Value} {p r : List UInt8}
    (h : word w v p = some (v', r))
    (q : List UInt8) : word w v (p ++ q) = some (v', r ++ q) := by
  rw [word] at h
  split at h
  · rename_i hpre
    obtain ⟨rest, rfl⟩ := List.isPrefixOf_iff_prefix.mp hpre
    cases h
    have hpre' : (w.toList.map ch).isPrefixOf (w.toList.map ch ++ rest ++ q) = true :=
      List.isPrefixOf_iff_prefix.mpr ⟨rest ++ q, (List.append_assoc ..).symm⟩
    rw [word, if_pos hpre']
    simp [List.append_assoc]
  · cases h

/-- What is read off a text is not white space, and is read again when the text goes on, if
    something followed it already. -/
def Stable {α : Type} (read : Reader α) : Prop :=
  ∀ p x r, read p = some (x, r) →
    p.dropWhile isSpace ≠ [] ∧ (r ≠ [] → ∀ q, read (p ++ q) = some (x, r ++ q))

/-- A byte is taken from a text that has one. -/
private theorem ne_nil_of_expect {b : UInt8} {p r : List UInt8} (h : expect b p = some r) :
    p ≠ [] := by
  rintro rfl
  cases h

/-- The items of a list are read alike when the text goes on, and with more fuel. -/
private theorem sequence_append {α : Type} {close : UInt8} {item : Reader α}
    (hitem : Stable item) {fuel fuel' : Nat} (hfuel : fuel ≤ fuel') {p r : List UInt8}
    {xs : List α} (h : sequence close item fuel p = some (xs, r)) (q : List UInt8) :
    sequence close item fuel' (p ++ q) = some (xs, r ++ q) := by
  induction fuel generalizing fuel' p xs with
  | zero => cases h
  | succ fuel ih =>
    obtain ⟨fuel', rfl⟩ : ∃ n, fuel' = n + 1 := ⟨fuel' - 1, by omega⟩
    simp only [sequence, Option.bind_eq_bind, Option.bind_eq_some_iff, Prod.exists] at h ⊢
    obtain ⟨x, rest, hx, h⟩ := h
    obtain ⟨-, hstable⟩ := hitem p x rest hx
    -- the list ends after the item, or a comma leads to the next one
    cases hend : expect close rest with
    | some rest' =>
      simp only [hend, Option.pure_def, Option.some.injEq, Prod.mk.injEq] at h
      obtain ⟨rfl, rfl⟩ := h
      refine ⟨x, rest ++ q, hstable (ne_nil_of_expect hend) q, ?_⟩
      rw [expect_append hend q]
      rfl
    | none =>
      simp only [hend, Option.bind_eq_some_iff, Prod.exists, Option.pure_def, Option.some.injEq,
        Prod.mk.injEq] at h
      obtain ⟨rest', hcomma, xs', rest'', hrec, rfl, rfl⟩ := h
      refine ⟨x, rest ++ q, hstable (ne_nil_of_expect hcomma) q, ?_⟩
      rw [expect_append_none hend (expect_eq_some.mp hcomma) q]
      simp only [expect_append hcomma q, ih (Nat.le_of_succ_le_succ hfuel) hrec,
        Option.bind_some, Option.pure_def]

/-- The closing bracket ends an array or object, whatever follows. -/
private theorem container_append {α : Type} {close : UInt8} {item : Reader α}
    {wrap : List α → Value}
    (hitem : Stable item) {p r : List UInt8} {v : Value}
    (h : container close item wrap p = some (v, r)) (q : List UInt8) :
    container close item wrap (p ++ q) = some (v, r ++ q) := by
  rw [container] at h ⊢
  cases hend : expect close p with
  | some rest =>
    simp only [hend, Option.some.injEq, Prod.mk.injEq] at h
    obtain ⟨rfl, rfl⟩ := h
    rw [expect_append hend q]
  | none =>
    simp only [hend, Option.map_eq_some_iff, Prod.exists, Prod.mk.injEq] at h
    obtain ⟨xs, r', hseq, rfl, rfl⟩ := h
    -- The first item starts with a byte that is not the closing bracket.
    have hfirst : p.dropWhile isSpace ≠ [] := by
      cases hfuel : p.length with
      | zero => rw [hfuel] at hseq; cases hseq
      | succ fuel =>
        simp only [hfuel, sequence, Option.bind_eq_bind, Option.bind_eq_some_iff,
          Prod.exists] at hseq
        obtain ⟨x, rest, hx, -⟩ := hseq
        exact (hitem p x rest hx).1
    obtain ⟨b, rest, hb⟩ := List.exists_cons_of_ne_nil hfirst
    have hlen : p.length ≤ (p ++ q).length := by simp
    rw [expect_append_none hend hb q]
    simp only [sequence_append hitem hlen hseq q, Option.map_some]

/-- A member of an object reads alike when the text goes on, if its value does. -/
private theorem member_stable {val : Reader Value} (hval : Stable val) : Stable (member val) := by
  intro p x r h
  simp only [member, Option.bind_eq_bind, Option.bind_eq_some_iff, Prod.exists, Option.pure_def,
    Option.some.injEq, Prod.mk.injEq] at h
  obtain ⟨rest, hquote, key, rest', hkey, rest'', hcolon, v, r', hv, rfl, rfl⟩ := h
  refine ⟨by rw [expect_eq_some.mp hquote]; exact List.cons_ne_nil _ _, ?_⟩
  intro hr q
  simp only [member, expect_append hquote q, scanString_append hkey q, expect_append hcolon q,
    (hval _ _ _ hv).2 hr q, Option.bind_eq_bind, Option.bind_some, Option.pure_def]

/-- A value reads alike when the text goes on, if objects and arrays do. -/
private theorem valueWith_stable {obj arr : Reader Value}
    (hobj : ∀ p v r, obj p = some (v, r) → ∀ q, obj (p ++ q) = some (v, r ++ q))
    (harr : ∀ p v r, arr p = some (v, r) → ∀ q, arr (p ++ q) = some (v, r ++ q)) :
    Stable (valueWith obj arr) := by
  intro p v r h
  rw [valueWith] at h
  split at h
  · cases h
  rename_i b rest hb
  refine ⟨by rw [hb]; exact List.cons_ne_nil _ _, ?_⟩
  intro hr q
  rw [valueWith, dropWhile_isSpace_append hb q]
  dsimp only
  -- One case for each byte that a value can start with, and the numbers.
  by_cases h₁ : b = ch '{'
  · rw [if_pos h₁] at h ⊢
    exact hobj _ _ _ h q
  rw [if_neg h₁] at h ⊢
  by_cases h₂ : b = ch '['
  · rw [if_pos h₂] at h ⊢
    exact harr _ _ _ h q
  rw [if_neg h₂] at h ⊢
  by_cases h₃ : b = ch '"'
  · rw [if_pos h₃] at h ⊢
    simp only [Option.map_eq_some_iff, Prod.exists, Prod.mk.injEq] at h
    obtain ⟨lit, r', hlit, rfl, rfl⟩ := h
    simp only [scanString_append hlit q, Option.map_some]
  rw [if_neg h₃] at h ⊢
  by_cases h₄ : b = ch 't'
  · rw [if_pos h₄] at h ⊢
    exact word_append h q
  rw [if_neg h₄] at h ⊢
  by_cases h₅ : b = ch 'f'
  · rw [if_pos h₅] at h ⊢
    exact word_append h q
  rw [if_neg h₅] at h ⊢
  by_cases h₆ : b = ch 'n'
  · rw [if_pos h₆] at h ⊢
    exact word_append h q
  rw [if_neg h₆] at h ⊢
  -- a number is the one value whose end only the next byte shows
  simp only [Option.map_eq_some_iff, Prod.mk.injEq] at h
  obtain ⟨r', hnum, rfl, rfl⟩ := h
  have hnum' := scanNumber_append hnum hr q
  rw [List.cons_append] at hnum'
  simp only [hnum', Option.map_some]

/-- Values of every depth read alike when the text goes on. -/
private theorem value_stable (depth : Nat) : Stable (value depth) := by
  induction depth with
  | zero =>
    refine valueWith_stable ?_ ?_
    · intro p v r h
      cases h
    · intro p v r h
      cases h
  | succ depth ih =>
    exact valueWith_stable (fun _ _ _ h q => container_append (member_stable ih) h q)
      (fun _ _ _ h q => container_append ih h q)

/-- A text that is one object is not accepted when its end is missing. -/
theorem parse_eq_none_of_cut {p q : List UInt8} {v : Value} (hq : q ≠ [])
    (hobj : (p ++ q).head? = some (ch '{'))
    (hread : value maxNestingDepth (p ++ q) = some (v, [])) : parse p = none := by
  rw [parse]
  cases hp : value maxNestingDepth p with
  | none => rfl
  | some res =>
    exfalso
    obtain ⟨v', r⟩ := res
    cases p with
    | nil => cases hp
    | cons b p =>
      obtain rfl : b = ch '{' := Option.some.inj hobj
      -- Read on to the end of `q`, the object ends where it did.
      have hp' : value maxNestingDepth (ch '{' :: p ++ q) = some (v', r ++ q) :=
        container_append (member_stable (value_stable _)) hp q
      rw [hread] at hp'
      simp only [Option.some.injEq, Prod.mk.injEq] at hp'
      exact hq (List.append_eq_nil_iff.mp hp'.2.symm).2

/-! ## Reading what was written -/

/-- A rune is written in one of three ways: as a short escape, as a `\u` escape, or as itself. -/
inductive Written : Char → List UInt8 → Prop where
  | short {c : Char} {e : UInt8} : (e, c) ∈ escapes → Written c [ch '\\', e]
  | unicode {c : Char} (h₃ h₂ h₁ h₀ : Nat) : h₃ < 0xD → h₂ < 16 → h₁ < 16 → h₀ < 16 →
      c.toNat = h₃ * 4096 + h₂ * 256 + h₁ * 16 + h₀ →
      Written c [ch '\\', ch 'u', ch (Hex.digit h₃), ch (Hex.digit h₂), ch (Hex.digit h₁),
        ch (Hex.digit h₀)]
  | plain {c : Char} : c ≠ '"' → c ≠ '\\' → 0x20 ≤ c.toNat → Written c (String.utf8EncodeChar c)

/-- Each character is written in one of the three forms. -/
private theorem quoteChar_written (c : Char) : Written c (quoteChar c) := by
  rw [quoteChar]
  split
  · rename_i h
    rcases h with rfl | rfl
    · exact .short (by decide)
    · exact .short (by decide)
  rename_i hplain
  split
  · rename_i h
    exact .short (by rw [h]; decide)
  split
  · rename_i h
    exact .short (by rw [h]; decide)
  split
  · rename_i h
    exact .short (by rw [h]; decide)
  split
  · rename_i h
    exact .short (by rw [h]; decide)
  split
  · rename_i h
    exact .short (by rw [h]; decide)
  split
  · -- control characters and the three that HTML needs escaped
    rename_i h
    have hlt : c.toNat < 256 := by
      rcases h with h | rfl | rfl | rfl
      · omega
      · decide
      · decide
      · decide
    exact .unicode 0 0 _ _ (by decide) (by decide) (by omega) (by omega) (by omega)
  rename_i hctl
  split
  · -- the two line separators of JavaScript
    rename_i h
    have hval : c.toNat = 2 * 4096 + 0 * 256 + 2 * 16 + c.toNat % 16 := by
      rcases h with rfl | rfl <;> decide
    exact .unicode 2 0 2 _ (by decide) (by decide) (by decide) (by omega) hval
  · exact .plain (fun h => hplain (.inr h)) (fun h => hplain (.inl h)) (by omega)

/-- A hexadecimal digit that was written is read back. -/
private theorem hexVal_digit {n : Nat} (h : n < 16) : hexVal (ch (Hex.digit n)) = some n := by
  have hall : ∀ n < 16, hexVal (ch (Hex.digit n)) = some n := by decide
  exact hall n h

/-! ### Scanning -/

/-- Bytes that need no escape are scanned one by one. -/
private theorem scanString_plain {bs : List UInt8}
    (h : ∀ b ∈ bs, b ≠ ch '"' ∧ b ≠ ch '\\' ∧ ¬b < 0x20) (rest : List UInt8) :
    scanString .plain (bs ++ rest)
      = (scanString .plain rest).map fun (lit, rest) => (bs ++ lit, rest) := by
  induction bs with
  | nil => simp
  | cons b bs ih =>
    obtain ⟨⟨hquote, hesc, hctl⟩, hbs⟩ := List.forall_mem_cons.mp h
    have hnext : StringState.plain.next b = some .plain := by
      simp only [StringState.next, hesc, hctl, if_false]
    simp only [List.cons_append, scanString, hquote, and_false, if_false, hnext, ih hbs,
      Option.map_map, Function.comp_def]

/-- The bytes of a rune that is no quote, backslash or control character are none either. -/
private theorem utf8EncodeChar_plain {c : Char} (hquote : c ≠ '"') (hesc : c ≠ '\\')
    (hctl : 0x20 ≤ c.toNat) :
    ∀ b ∈ String.utf8EncodeChar c, b ≠ ch '"' ∧ b ≠ ch '\\' ∧ ¬b < 0x20 := by
  -- a byte whose value is none of the special ones
  have hbyte : ∀ n < 256, n ≠ 0x22 ∧ n ≠ 0x5C ∧ 0x20 ≤ n →
      UInt8.ofNat n ≠ ch '"' ∧ UInt8.ofNat n ≠ ch '\\' ∧ ¬UInt8.ofNat n < 0x20 := by
    rintro n hn ⟨hquote, hesc, hctl⟩
    have htoNat : (UInt8.ofNat n).toNat = n := UInt8.toNat_ofNat_of_lt' hn
    refine ⟨fun h => hquote ?_, fun h => hesc ?_, fun h => ?_⟩
    · rw [← htoNat, h]
      rfl
    · rw [← htoNat, h]
      rfl
    · have hlt : (UInt8.ofNat n).toNat < 0x20 := h
      omega
  have hq : c.val.toNat ≠ 0x22 := fun h => hquote (Char.ext (UInt32.toNat_inj.mp h))
  have he : c.val.toNat ≠ 0x5C := fun h => hesc (Char.ext (UInt32.toNat_inj.mp h))
  have hc : 0x20 ≤ c.val.toNat := hctl
  simp only [String.utf8EncodeChar]
  intro b hb
  split_ifs at hb <;> simp only [List.mem_cons, List.not_mem_nil, or_false] at hb
  · -- one byte is the character itself; the bytes of a longer encoding are at least 0x80
    rw [hb]
    exact hbyte _ (by omega) ⟨hq, he, hc⟩
  all_goals
    rcases hb with rfl | rfl | rfl | rfl <;> exact hbyte _ (by omega) (by omega)

private theorem scanString_cons {st st' : StringState} {b : UInt8} (hnext : st.next b = some st')
    (hend : st ≠ .plain ∨ b ≠ ch '"') (rest : List UInt8) :
    scanString st (b :: rest)
      = (scanString st' rest).map fun (lit, rest) => (b :: lit, rest) := by
  rw [scanString, if_neg (by tauto), hnext]

/-- A written rune is scanned as a whole. -/
private theorem scanString_written {c : Char} {bs : List UInt8} (h : Written c bs)
    (rest : List UInt8) :
    scanString .plain (bs ++ rest)
      = (scanString .plain rest).map fun (lit, rest) => (bs ++ lit, rest) := by
  have hbackslash : StringState.plain.next (ch '\\') = some .esc := by decide
  cases h with
  -- a backslash and the letter of the escape
  | short he =>
    have hescape : ∀ p ∈ escapes, StringState.esc.next p.1 = some .plain := by decide
    simp only [List.cons_append, List.nil_append]
    rw [scanString_cons hbackslash (by decide), scanString_cons (hescape _ he) (.inl (by decide))]
    simp only [Option.map_map, Function.comp_def]
  -- a backslash, the letter and four digits
  | unicode h₃ h₂ h₁ h₀ l₃ l₂ l₁ l₀ hc =>
    have hu : StringState.esc.next (ch 'u') = some (.hex 3) := by decide
    have hdigit : ∀ left n, n < 16 →
        (StringState.hex (left + 1)).next (ch (Hex.digit n)) = some (.hex left) := by
      intro left n hn
      simp [StringState.next, hexVal_digit hn]
    have hlast : (StringState.hex 0).next (ch (Hex.digit h₀)) = some .plain := by
      simp [StringState.next, hexVal_digit l₀]
    have hhex : ∀ left, StringState.hex left ≠ .plain := by
      intro left h
      cases h
    simp only [List.cons_append, List.nil_append]
    rw [scanString_cons hbackslash (by decide), scanString_cons hu (by decide),
      scanString_cons (hdigit 2 h₃ (by omega)) (.inl (hhex 3)),
      scanString_cons (hdigit 1 h₂ l₂) (.inl (hhex 2)),
      scanString_cons (hdigit 0 h₁ l₁) (.inl (hhex 1)), scanString_cons hlast (.inl (hhex 0))]
    simp only [Option.map_map, Function.comp_def]
  | plain hquote hesc hctl => exact scanString_plain (utf8EncodeChar_plain hquote hesc hctl) rest

/-- A written rune is read back. -/
private theorem unquoteChar_written {c : Char} {bs : List UInt8} (h : Written c bs)
    (rest : List UInt8) :
    unquoteChar (bs ++ rest) = some (c, rest) := by
  cases h with
  | short he =>
    have hlookup : ∀ p ∈ escapes, p.1 ≠ ch 'u' ∧ escapes.lookup p.1 = some p.2 := by decide
    simp [unquoteChar, (hlookup _ he).1, (hlookup _ he).2]
  | unicode h₃ h₂ h₁ h₀ l₃ l₂ l₁ l₀ hc =>
    -- no half of a surrogate pair is written this way
    have hsurrogate : ¬(0xD800 ≤ c.toNat ∧ c.toNat < 0xE000) := by omega
    simp [unquoteChar, unicodeEscape, getu4, hexVal_digit l₂, hexVal_digit l₁, hexVal_digit l₀,
      hexVal_digit (show h₃ < 16 by omega), ← hc, hsurrogate]
  | plain hquote hesc hctl =>
    obtain ⟨b, bs, hbs⟩ := List.exists_cons_of_ne_nil (String.utf8EncodeChar_ne_nil (c := c))
    have hb : b ≠ ch '\\' := (utf8EncodeChar_plain hquote hesc hctl b (by simp [hbs])).2.1
    -- the character is decoded from the bytes that encode it
    have hrune : decodeRune (String.utf8EncodeChar c ++ rest) = (c, rest) := by
      rw [decodeRune, List.toByteArray_append, ByteArray.utf8DecodeChar?_utf8EncodeChar_append]
      simp [← String.length_utf8EncodeChar]
    rw [hbs] at hrune ⊢
    rw [List.cons_append] at hrune ⊢
    simp only [unquoteChar, if_neg hb, hrune]

/-- A literal that was written is scanned to its closing quote. -/
theorem scanString_quoteLit (s : String) (rest : List UInt8) :
    scanString .plain (quoteLit s ++ ch '"' :: rest) = some (quoteLit s, rest) := by
  rw [quoteLit]
  induction s.toList with
  | nil => simp [scanString]
  | cons c cs ih =>
    rw [List.flatMap_cons, List.append_assoc, scanString_written (quoteChar_written c), ih]
    rfl

private theorem quoteChar_ne_nil (c : Char) : quoteChar c ≠ [] := by
  intro h
  have hread := unquoteChar_written (quoteChar_written c) []
  rw [h] at hread
  cases hread

/-- The characters of a literal are read back, given fuel for its bytes. -/
private theorem unquoteChars_quote (cs : List Char) (fuel : Nat)
    (hfuel : (cs.flatMap quoteChar).length ≤ fuel) :
    unquoteChars fuel (cs.flatMap quoteChar) = some cs := by
  induction cs generalizing fuel with
  | nil => cases fuel <;> rfl
  | cons c cs ih =>
    have hread := unquoteChar_written (quoteChar_written c) (cs.flatMap quoteChar)
    -- a character is written with at least one byte, which pays for the fuel
    have hne := List.length_pos_iff.mpr (quoteChar_ne_nil c)
    rw [List.flatMap_cons, List.length_append] at hfuel
    obtain ⟨fuel, rfl⟩ : ∃ n, fuel = n + 1 := ⟨fuel - 1, by omega⟩
    rw [List.flatMap_cons]
    cases htext : quoteChar c ++ cs.flatMap quoteChar with
    | nil => exact absurd (List.append_eq_nil_iff.mp htext).1 (quoteChar_ne_nil c)
    | cons b rest =>
      rw [htext] at hread
      simp only [unquoteChars, hread, ih fuel (by omega), Option.bind_eq_bind, Option.bind_some,
        Option.pure_def]

/-- The text of a literal that was written is the string. -/
theorem unquote_quoteLit (s : String) : unquote (quoteLit s) = some s := by
  have hread : unquoteChars (quoteLit s).length (quoteLit s) = some s.toList :=
    unquoteChars_quote s.toList _ (Nat.le_refl _)
  rw [unquote, hread, Option.map_some, String.ofList_toList]

/-! ### Values -/

/-- The text is read as `x`, whatever follows it. -/
def Reads {α : Type} (read : Reader α) (text : List UInt8) (x : α) : Prop :=
  ∀ rest, read (text ++ rest) = some (x, rest)

/-- A byte that is no white space is taken at once. -/
theorem expect_cons {b : UInt8} (hb : isSpace b = false) (rest : List UInt8) :
    expect b (b :: rest) = some rest := by
  rw [expect_eq_some, List.dropWhile_cons_of_neg (by simp [hb])]

/-- A string that was written is read as its literal. -/
theorem value_quote (depth : Nat) (s : String) :
    Reads (value depth) (quote s) (.str (quoteLit s)) := by
  intro rest
  have hread : ∀ obj arr : Reader Value,
      valueWith obj arr (quote s ++ rest) = some (.str (quoteLit s), rest) := by
    intro obj arr
    -- a quote is neither space nor the start of a container
    have hspace : isSpace (ch '"') = false := by decide
    have hobj : ¬ch '"' = ch '{' := by decide
    have harr : ¬ch '"' = ch '[' := by decide
    rw [quote, List.cons_append, List.append_assoc, List.singleton_append, valueWith,
      List.dropWhile_cons_of_neg (by simp [hspace])]
    simp only [if_neg hobj, if_neg harr, if_true, scanString_quoteLit, Option.map_some]
  cases depth with
  | zero => exact hread _ _
  | succ depth => exact hread _ _

/-- A member that was written is read, if its value is. -/
private theorem member_written {val : Reader Value} {key : String} {text : List UInt8} {v : Value}
    (h : Reads val text v) :
    Reads (member val) (quote key ++ ch ':' :: text) (quoteLit key, v) := by
  intro rest
  have hquote : isSpace (ch '"') = false := by decide
  have hcolon : isSpace (ch ':') = false := by decide
  simp only [member, quote, List.cons_append, List.append_assoc, List.nil_append,
    expect_cons hquote, scanString_quoteLit, expect_cons hcolon, h rest, Option.bind_eq_bind,
    Option.bind_some, Option.pure_def]

theorem expect_other {b b' : UInt8} (hb' : isSpace b' = false) (hne : b' ≠ b) (rest : List UInt8) :
    expect b (b' :: rest) = none := by
  rw [expect, List.dropWhile_cons_of_neg (by simp [hb'])]
  simp [hne]

/-- The text is read as `x` where an item ends. -/
def ReadsItem {α : Type} (close : UInt8) (read : Reader α) (text : List UInt8) (x : α) : Prop :=
  ∀ b rest, b = close ∨ b = ch ',' → read (text ++ b :: rest) = some (x, b :: rest)

/-- Items that were written with commas between them are read in their order. -/
theorem sequence_items {α : Type} {close : UInt8} {item : Reader α}
    (hclose : isSpace close = false) (hcomma : ch ',' ≠ close) (items : List (List UInt8 × α))
    (hne : items ≠ []) (hitems : ∀ it ∈ items, ReadsItem close item it.1 it.2) (rest : List UInt8)
    (fuel : Nat)
    (hfuel : ([ch ','].intercalate (items.map Prod.fst) ++ close :: rest).length ≤ fuel) :
    sequence close item fuel ([ch ','].intercalate (items.map Prod.fst) ++ close :: rest)
      = some (items.map Prod.snd, rest) := by
  induction items generalizing fuel with
  | nil => exact absurd rfl hne
  | cons it items ih =>
    obtain ⟨hit, hitems⟩ := List.forall_mem_cons.mp hitems
    obtain ⟨fuel, rfl⟩ : ∃ n, fuel = n + 1 := ⟨fuel - 1, by simp at hfuel; omega⟩
    -- the last item is followed by the closing byte, the others by a comma
    cases items with
    | nil =>
      simp only [List.map_cons, List.map_nil, List.intercalate_singleton, sequence,
        hit _ _ (.inl rfl), expect_cons hclose, Option.bind_eq_bind, Option.bind_some,
        Option.pure_def]
    | cons it' items =>
      have hspace : isSpace (ch ',') = false := by decide
      have htext : [ch ','].intercalate ((it :: it' :: items).map Prod.fst) ++ close :: rest
          = it.1 ++ ch ',' ::
            ([ch ','].intercalate ((it' :: items).map Prod.fst) ++ close :: rest) := by
        rw [List.map_cons, List.map_cons, List.intercalate_cons_cons]
        simp
      rw [htext] at hfuel ⊢
      have hrest := ih (List.cons_ne_nil _ _) hitems fuel (by simp at hfuel ⊢; omega)
      simp only [sequence, hit _ _ (.inr rfl), expect_other hspace hcomma, expect_cons hspace,
        hrest, Option.bind_eq_bind, Option.bind_some, Option.pure_def]
      rfl

/-- The same for items that are read whatever follows them. -/
private theorem sequence_written {α : Type} {close : UInt8} {item : Reader α}
    (hclose : isSpace close = false) (hcomma : ch ',' ≠ close) (items : List (List UInt8 × α))
    (hne : items ≠ []) (hitems : ∀ it ∈ items, Reads item it.1 it.2) (rest : List UInt8)
    (fuel : Nat)
    (hfuel : ([ch ','].intercalate (items.map Prod.fst) ++ close :: rest).length ≤ fuel) :
    sequence close item fuel ([ch ','].intercalate (items.map Prod.fst) ++ close :: rest)
      = some (items.map Prod.snd, rest) :=
  sequence_items hclose hcomma items hne (fun it hit b rest _ => hitems it hit (b :: rest)) rest
    fuel hfuel

/-- An object is read from what is read of its members. -/
theorem object_written {depth : Nat} (items : List (String × List UInt8 × Value))
    (h : ∀ it ∈ items, Reads (value depth) it.2.1 it.2.2) :
    Reads (value (depth + 1)) (object (items.map fun it => (it.1, it.2.1)))
      (.obj (items.map fun it => (quoteLit it.1, it.2.2))) := by
  intro rest
  have hspace : isSpace (ch '{') = false := by decide
  have hclose : isSpace (ch '}') = false := by decide
  rw [object, List.cons_append, List.append_assoc, List.singleton_append, value, valueWith,
    List.dropWhile_cons_of_neg (by simp [hspace])]
  simp only [if_true, container]
  -- The members with their texts, as the loop reads them.
  obtain ⟨ms, hms⟩ : ∃ ms, ms = items.map fun it =>
      (quote it.1 ++ ch ':' :: it.2.1, (quoteLit it.1, it.2.2)) := ⟨_, rfl⟩
  have htexts : (items.map fun it => (it.1, it.2.1)).map (fun m => quote m.1 ++ ch ':' :: m.2)
      = ms.map Prod.fst := by simp [hms]
  have hvalues : items.map (fun it => (quoteLit it.1, it.2.2)) = ms.map Prod.snd := by simp [hms]
  have hreads : ∀ m ∈ ms, Reads (member (value depth)) m.1 m.2 := by
    rw [hms]
    intro m hm
    obtain ⟨it, hit, rfl⟩ := List.mem_map.mp hm
    exact member_written (h it hit)
  rw [htexts, hvalues]
  cases items with
  | nil =>
    rw [hms]
    simp [expect_cons hclose]
  | cons it items =>
    -- the first member starts with a quote, so the object is not taken for an empty one
    have hfirst : ∃ text, [ch ','].intercalate (ms.map Prod.fst) = ch '"' :: text := by
      rw [hms]
      cases items <;> simp [quote]
    obtain ⟨text, htext⟩ := hfirst
    have hopen : expect (ch '}') ([ch ','].intercalate (ms.map Prod.fst) ++ ch '}' :: rest)
        = none := by
      rw [htext, List.cons_append, expect_other (by decide) (by decide)]
    have hne : ms ≠ [] := by simp [hms]
    simp only [hopen, sequence_written hclose (by decide) ms hne hreads rest _ (Nat.le_refl _),
      Option.map_some]

end Blinex.Go.Json
