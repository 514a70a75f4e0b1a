import Blinex.Go.JsonCorrect

/-!
# The loops of `encoding/json` have the fuel they need

The loop over the items of an array or object and the loop over the runes of a literal are given
the length of their text as fuel. Every round takes a byte at least (`Shrinks`), so more fuel does
not change what is read (`loop_fuel`, `unquoteChars_fuel`).
-/

namespace Blinex.Go.Json

/-- What is read takes a byte at least. -/
def Shrinks {α : Type} (read : Reader α) : Prop :=
  ∀ p x r, read p = some (x, r) → r.length < p.length

private theorem expect_shrinks {b : UInt8} {p r : List UInt8} (h : expect b p = some r) :
    r.length < p.length := by
  have hle := (List.dropWhile_suffix isSpace (l := p)).length_le
  rw [expect_eq_some.mp h, List.length_cons] at hle
  omega

/-- A string literal takes at least its closing quote. -/
private theorem scanString_shrinks (st : StringState) : Shrinks (scanString st) := by
  intro p lit r h
  induction p generalizing st lit with
  | nil => cases h
  | cons b p ih =>
    rw [scanString] at h
    split at h
    · cases h
      simp
    · -- any other byte is part of the literal
      cases hnext : st.next b with
      | none => rw [hnext] at h; cases h
      | some st' =>
        simp only [hnext, Option.map_eq_some_iff, Prod.mk.injEq, Prod.exists] at h
        obtain ⟨lit', r', hscan, -, rfl⟩ := h
        have := ih st' lit' hscan
        simp only [List.length_cons]
        omega

/-- A number never gives text back, and takes some unless it may end at once. -/
private theorem scanNumber_length {st : NumState} {p r : List UInt8}
    (h : scanNumber st p = some r) :
    r.length ≤ p.length ∧ (st.accepts = false → r.length < p.length) := by
  induction p generalizing st with
  | nil =>
    rw [scanNumber] at h
    split at h
    · rename_i haccepts
      cases h
      simp [haccepts]
    · cases h
  | cons b p ih =>
    rw [scanNumber] at h
    cases hnext : st.next b with
    -- the byte belongs to the number
    | some st' =>
      rw [hnext] at h
      have := (ih h).1
      simp only [List.length_cons]
      omega
    -- the number ends before the byte
    | none =>
      simp only [hnext] at h
      split at h
      · rename_i haccepts
        cases h
        simp [haccepts]
      · cases h

/-- The items of a list take text, since each item does. -/
private theorem sequence_shrinks {α : Type} {close : UInt8} {item : Reader α} (hitem : Shrinks item)
    (fuel : Nat) : Shrinks (sequence close item fuel) := by
  induction fuel with
  | zero =>
    intro p xs r h
    cases h
  | succ fuel ih =>
    intro p xs r h
    simp only [sequence, Option.bind_eq_bind, Option.bind_eq_some_iff, Prod.exists] at h
    obtain ⟨x, rest, hx, h⟩ := h
    have hrest := hitem p x rest hx
    -- the list ends here, or goes on after a comma
    cases hend : expect close rest with
    | some rest' =>
      simp only [hend, Option.pure_def, Option.some.injEq, Prod.mk.injEq] at h
      have := expect_shrinks hend
      rw [← h.2]
      omega
    | none =>
      simp only [hend, Option.bind_eq_some_iff, Prod.exists, Option.pure_def, Option.some.injEq,
        Prod.mk.injEq] at h
      obtain ⟨rest', hcomma, xs', rest'', hrec, -, rfl⟩ := h
      have := expect_shrinks hcomma
      have := ih rest' xs' rest'' hrec
      omega

/-- The length of the text bounds the rounds: more fuel reads nothing else. -/
private theorem sequence_fuel {α : Type} {close : UInt8} {item : Reader α} (hitem : Shrinks item)
    {n m : Nat} {p : List UInt8} (hn : p.length ≤ n) (hm : p.length ≤ m) :
    sequence close item n p = sequence close item m p := by
  have hempty : ∀ fuel, sequence close item fuel [] = none := by
    intro fuel
    cases hseq : sequence close item fuel [] with
    | none => rfl
    | some res => exact absurd (sequence_shrinks hitem fuel [] res.1 res.2 hseq) (by simp)
  -- on the fuel; an item and its comma take at least one byte each time around
  induction n generalizing m p with
  | zero =>
    rw [List.length_eq_zero_iff.mp (Nat.le_zero.mp hn), hempty, hempty]
  | succ n ih =>
    cases m with
    | zero => rw [List.length_eq_zero_iff.mp (Nat.le_zero.mp hm), hempty, hempty]
    | succ m =>
      -- Behind the comma both have fuel for what is left.
      simp only [sequence]
      cases hx : item p with
      | none => rfl
      | some res =>
        obtain ⟨x, rest⟩ := res
        have hrest := hitem p x rest hx
        cases hend : expect close rest with
        | some rest' => simp only [Option.bind_eq_bind, Option.bind_some, hend]
        | none =>
          cases hcomma : expect (ch ',') rest with
          | none =>
            simp only [Option.bind_eq_bind, Option.bind_some, Option.bind_none, hend, hcomma]
          | some rest' =>
            have hshort := expect_shrinks hcomma
            have hrec := ih (m := m) (p := rest') (by omega) (by omega)
            simp only [Option.bind_eq_bind, Option.bind_some, hend, hcomma, hrec]

/-- A container takes text, whether or not it has items. -/
private theorem container_shrinks {α : Type} {close : UInt8} {item : Reader α}
    {wrap : List α → Value}
    (hitem : Shrinks item) : Shrinks (container close item wrap) := by
  intro p v r h
  rw [container] at h
  -- empty, or with items
  cases hend : expect close p with
  | some rest =>
    simp only [hend, Option.some.injEq, Prod.mk.injEq] at h
    rw [← h.2]
    exact expect_shrinks hend
  | none =>
    simp only [hend, Option.map_eq_some_iff, Prod.exists, Prod.mk.injEq] at h
    obtain ⟨xs, r', hseq, -, rfl⟩ := h
    exact sequence_shrinks hitem _ p xs r' hseq

/-- A member of an object takes text. -/
private theorem member_shrinks {val : Reader Value} (hval : Shrinks val) :
    Shrinks (member val) := by
  intro p x r h
  simp only [member, Option.bind_eq_bind, Option.bind_eq_some_iff, Prod.exists, Option.pure_def,
    Option.some.injEq, Prod.mk.injEq] at h
  obtain ⟨rest, hquote, key, rest', hkey, rest'', hcolon, v, r', hv, -, rfl⟩ := h
  have := expect_shrinks hquote
  have := scanString_shrinks .plain rest key rest' hkey
  have := expect_shrinks hcolon
  have := hval rest'' v r' hv
  omega

/-- A value takes text, if objects and arrays do. -/
private theorem valueWith_shrinks {obj arr : Reader Value} (hobj : Shrinks obj)
    (harr : Shrinks arr) :
    Shrinks (valueWith obj arr) := by
  intro p v r h
  rw [valueWith] at h
  split at h
  · cases h
  rename_i b rest hb
  have hle := (List.dropWhile_suffix isSpace (l := p)).length_le
  rw [hb, List.length_cons] at hle
  suffices hrest : r.length < (b :: rest).length by
    rw [List.length_cons] at hrest
    omega
  -- the three words are not empty
  have hword : ∀ w v', w ≠ "" → word w v' (b :: rest) = some (v, r) →
      r.length < (b :: rest).length := by
    intro w v' hw hread
    rw [word] at hread
    split at hread
    · cases hread
      have hpos : 0 < w.toList.length := List.length_pos_iff.mpr (by simpa using hw)
      rw [List.length_drop, List.length_map, List.length_cons]
      omega
    · cases hread
  split at h
  · have := hobj rest v r h
    rw [List.length_cons]
    omega
  split at h
  · have := harr rest v r h
    rw [List.length_cons]
    omega
  split at h
  · simp only [Option.map_eq_some_iff, Prod.exists, Prod.mk.injEq] at h
    obtain ⟨lit, r', hlit, -, rfl⟩ := h
    have := scanString_shrinks .plain rest lit r' hlit
    rw [List.length_cons]
    omega
  split at h
  · exact hword _ _ (by decide) h
  split at h
  · exact hword _ _ (by decide) h
  split at h
  · exact hword _ _ (by decide) h
  · -- a number does not accept before its first byte
    simp only [Option.map_eq_some_iff, Prod.mk.injEq] at h
    obtain ⟨r', hnum, -, rfl⟩ := h
    exact (scanNumber_length hnum).2 rfl

/-- Values of every depth take text. -/
private theorem value_shrinks (depth : Nat) : Shrinks (value depth) := by
  induction depth with
  | zero =>
    refine valueWith_shrinks ?_ ?_
    · intro p v r h
      cases h
    · intro p v r h
      cases h
  | succ depth ih =>
    exact valueWith_shrinks (container_shrinks (member_shrinks ih)) (container_shrinks ih)

/-- The loops of arrays and objects never end for want of fuel. -/
theorem loop_fuel (depth : Nat) {p : List UInt8} {n : Nat} (hn : p.length ≤ n) :
    sequence (ch ']') (value depth) n p = sequence (ch ']') (value depth) p.length p ∧
      sequence (ch '}') (member (value depth)) n p
        = sequence (ch '}') (member (value depth)) p.length p :=
  ⟨sequence_fuel (value_shrinks depth) hn (Nat.le_refl _),
    sequence_fuel (member_shrinks (value_shrinks depth)) hn (Nat.le_refl _)⟩

/-! ## String literals -/

/-- Four hexadecimal digits are taken. -/
private theorem getu4_shrinks : Shrinks getu4 := by
  intro p n r h
  unfold getu4 at h
  split at h
  · simp only [Option.bind_eq_bind, Option.bind_eq_some_iff, Option.pure_def, Option.some.injEq,
      Prod.mk.injEq] at h
    obtain ⟨_, _, _, _, _, _, _, _, _, rfl⟩ := h
    simp only [List.length_cons]
    omega
  · cases h

/-- The second half of a pair takes its escape. -/
private theorem lowSurrogate_shrinks : Shrinks lowSurrogate := by
  intro p n r h
  unfold lowSurrogate at h
  split at h
  · split at h
    · have := getu4_shrinks _ n r (Option.filter_eq_some_iff.mp h).1
      simp only [List.length_cons]
      omega
    · cases h
  · cases h

/-- An escape takes its digits, and those of the second half if there is one. -/
private theorem unicodeEscape_shrinks : Shrinks unicodeEscape := by
  intro p c r h
  unfold unicodeEscape at h
  split at h
  · cases h
  rename_i n rest hn
  have hrest := getu4_shrinks p n rest hn
  -- a surrogate may be followed by its second half
  split at h
  · split at h
    · rename_i n' rest' hn'
      have hrest' := lowSurrogate_shrinks rest n' rest' hn'
      split at h
      · rw [← (Prod.mk.inj (Option.some.inj h)).2]
        omega
      · rwa [← (Prod.mk.inj (Option.some.inj h)).2]
    · rwa [← (Prod.mk.inj (Option.some.inj h)).2]
  · rwa [← (Prod.mk.inj (Option.some.inj h)).2]

/-- Decoding a character takes at least one byte, also from an invalid encoding. -/
private theorem decodeRune_length {b : UInt8} {rest : List UInt8} :
    (decodeRune (b :: rest)).2.length < (b :: rest).length := by
  unfold decodeRune
  split
  · rename_i c _
    have := c.utf8Size_pos
    simp only [List.length_drop, List.length_cons]
    omega
  · simp

/-- Each character of a literal takes text. -/
private theorem unquoteChar_shrinks : Shrinks unquoteChar := by
  intro p c r h
  unfold unquoteChar at h
  split at h
  · cases h
  rename_i b rest
  -- an escape, or a character as it stands
  split at h
  · split at h
    · cases h
    rename_i e rest'
    split at h
    · have := unicodeEscape_shrinks rest' c r h
      simp only [List.length_cons]
      omega
    · simp only [Option.map_eq_some_iff, Prod.mk.injEq] at h
      obtain ⟨_, _, _, rfl⟩ := h
      simp only [List.length_cons]
      omega
  · have hr : (decodeRune (b :: rest)).2 = r := congrArg Prod.snd (Option.some.inj h)
    rw [← hr]
    exact decodeRune_length

/-- Fuel for the length of the literal is enough: more of it changes nothing. -/
theorem unquoteChars_fuel {n m : Nat} {p : List UInt8} (hn : p.length ≤ n) (hm : p.length ≤ m) :
    unquoteChars n p = unquoteChars m p := by
  induction n generalizing m p with
  | zero =>
    rw [List.length_eq_zero_iff.mp (Nat.le_zero.mp hn)]
    cases m <;> rfl
  | succ n ih =>
    cases p with
    | nil => cases m <;> rfl
    | cons b rest =>
      obtain ⟨m, rfl⟩ : ∃ k, m = k + 1 := ⟨m - 1, by simp at hm; omega⟩
      simp only [unquoteChars]
      -- both go on behind the character with fuel for what is left
      cases hc : unquoteChar (b :: rest) with
      | none => rfl
      | some res =>
        have hshort := unquoteChar_shrinks (b :: rest) res.1 res.2 hc
        have hrec := ih (m := m) (p := res.2) (by omega) (by omega)
        simp only [Option.bind_eq_bind, Option.bind_some, hrec]

end Blinex.Go.Json
