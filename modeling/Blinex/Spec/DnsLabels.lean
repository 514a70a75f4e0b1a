import Mathlib.Data.List.DropRight
import Blinex.Native.Messages

/-!
# Magic DNS labels

`ToDNSLabel` maps a hostname character by character and trims hyphens, so its result has the
shape of a label and is a fixed point of the function; but nothing bounds its length. It is as
long as the part of the hostname from the first to the last character that stays
(`dns_label_valid_iff`).
-/

namespace Blinex.Native.Domain

open Blinex.Go

/-! ## UUIDs -/

/-- The digits of a UUID. -/
def uuidDigits (u : BitVec 128) : List Char :=
  (List.range 32).map fun i => Nat.digitChar ((u >>> (124 - 4 * i)).toNat % 16)

/-- `UUID.String`. -/
def uuidString (u : BitVec 128) : String :=
  let d := uuidDigits u
  String.ofList (d.take 8 ++ '-' :: (d.drop 8).take 4 ++ '-' :: (d.drop 12).take 4 ++
    '-' :: (d.drop 16).take 4 ++ '-' :: d.drop 20)

/-! ## Labels -/

/-- A character that `ToDNSLabel` keeps, other than the hyphen. -/
def isLetterDigit (c : Char) : Bool := ('a' ≤ c && c ≤ 'z') || ('0' ≤ c && c ≤ '9')

/-- A DNS label of any length. -/
structure LabelShape (label : String) : Prop where
  nonempty : label.toList ≠ []
  chars : ∀ c ∈ label.toList, isLetterDigit c ∨ c = '-'
  first : label.toList.head? ≠ some '-'
  last : label.toList.getLast? ≠ some '-'

/-- A DNS label. -/
structure ValidLabel (label : String) : Prop extends LabelShape label where
  length_le : label.toList.length ≤ 63

/-- The lower-case form of the character is no letter or digit. -/
def becomesHyphen (c : Char) : Bool := !isLetterDigit (unicodeToLower c)

/-- The part of a hostname from the first to the last character that stays. -/
def labelCore (hostname : String) : List Char :=
  (hostname.toList.dropWhile becomesHyphen).rdropWhile becomesHyphen

/-- What a character of the hostname becomes. -/
def labelChar (c : Char) : Char := if becomesHyphen c then '-' else unicodeToLower c

/-- The characters of a label besides the hyphen. -/
private theorem isLetterDigit_iff (c : Char) :
    isLetterDigit c = true ↔ ('a' ≤ c ∧ c ≤ 'z') ∨ ('0' ≤ c ∧ c ≤ '9') := by
  simp [isLetterDigit]

/-- A character is kept when it is a letter or a digit in lower case. -/
private theorem becomesHyphen_eq_false (c : Char) :
    becomesHyphen c = false ↔ isLetterDigit (unicodeToLower c) = true := by
  simp [becomesHyphen]

/-- A hyphen stands for exactly the characters that are replaced. -/
private theorem labelChar_eq_hyphen (c : Char) : (labelChar c == '-') = becomesHyphen c := by
  unfold labelChar
  cases h : becomesHyphen c with
  | true => rfl
  | false =>
    have hne : unicodeToLower c ≠ '-' := by
      intro heq
      rw [becomesHyphen_eq_false, heq] at h
      exact absurd h (by decide)
    simp [hne]

/-- Trimming hyphens from the mapped text is trimming the text before it is mapped. -/
private theorem trim_map_labelChar (hostname : String) :
    Strings.trim (String.ofList (hostname.toList.map labelChar)) '-' =
      String.ofList ((labelCore hostname).map labelChar) := by
  have hyphen : (fun c => c == '-') ∘ labelChar = becomesHyphen := funext labelChar_eq_hyphen
  rw [Strings.trim, String.toList_ofList, List.dropWhile_map, hyphen, ← List.map_reverse,
    List.dropWhile_map, hyphen, ← List.map_reverse]
  rfl

/-- The label is the core of the hostname, or drawn at random if there is none. -/
private theorem toDNSLabel_eq (uuid hostname : String) :
    toDNSLabel uuid hostname =
      if labelCore hostname = [] then "peer-" ++ String.ofList (uuid.toList.take 8)
      else String.ofList ((labelCore hostname).map labelChar) := by
  have hmap : (Strings.toLower hostname).toList.map (fun r =>
      if ('a' ≤ r ∧ r ≤ 'z') ∨ ('0' ≤ r ∧ r ≤ '9') ∨ r = '-' then r else '-') =
      hostname.toList.map labelChar := by
    rw [Strings.toList_toLower, List.map_map]
    refine List.map_congr_left fun c _ => ?_
    simp only [Function.comp_apply, labelChar, becomesHyphen, ← or_assoc, ← isLetterDigit_iff]
    -- a hyphen stays a hyphen either way
    by_cases hc : unicodeToLower c = '-'
    · simp [hc]
    · by_cases hl : isLetterDigit (unicodeToLower c) = true
      · simp [hl]
      · simp [hl, hc]
  have hempty : String.ofList ((labelCore hostname).map labelChar) = "" ↔
      labelCore hostname = [] := by
    rw [← String.toList_inj, String.toList_ofList, String.toList_empty, List.map_eq_nil_iff]
  simp only [toDNSLabel, hmap, trim_map_labelChar, hempty]

/-! ## The shape of a label -/

/-- The ends of the core are characters that stay. -/
private theorem labelCore_ends {hostname : String} {c : Char}
    (h : (labelCore hostname).head? = some c ∨ (labelCore hostname).getLast? = some c) :
    becomesHyphen c = false := by
  rcases h with hhead | hlast
  · -- the core begins where the leading characters end
    obtain ⟨tail, htail⟩ :=
      List.rdropWhile_prefix becomesHyphen (hostname.toList.dropWhile becomesHyphen)
    have hfirst : (hostname.toList.dropWhile becomesHyphen).head? = some c := by
      rw [← htail, List.head?_append]
      exact congrArg (Option.or · _) hhead
    have hnot := List.head?_dropWhile_not becomesHyphen hostname.toList
    rw [hfirst] at hnot
    exact hnot
  · have hne : labelCore hostname ≠ [] := List.ne_nil_of_mem (List.mem_of_getLast? hlast)
    rw [List.getLast?_eq_some_getLast hne] at hlast
    rw [← Option.some.inj hlast]
    exact eq_false_of_ne_true (List.rdropWhile_last_not _ _ hne)

/-- A text that came out of `labelCore` has the shape of a label. -/
private theorem labelShape_core {hostname : String} (h : labelCore hostname ≠ []) :
    LabelShape (String.ofList ((labelCore hostname).map labelChar)) := by
  -- an end of the core does not become a hyphen
  have hends : ∀ c, (labelCore hostname).head? = some c ∨ (labelCore hostname).getLast? = some c →
      labelChar c ≠ '-' := by
    intro c hc
    have hkeep := labelChar_eq_hyphen c
    rw [labelCore_ends hc] at hkeep
    simpa using hkeep
  constructor
  · rw [String.toList_ofList, ne_eq, List.map_eq_nil_iff]
    exact h
  · intro c hc
    rw [String.toList_ofList] at hc
    obtain ⟨c, _, rfl⟩ := List.mem_map.mp hc
    unfold labelChar
    cases hc : becomesHyphen c with
    | true => exact .inr rfl
    | false => exact .inl ((becomesHyphen_eq_false c).mp hc)
  · rw [String.toList_ofList, List.head?_map]
    intro hhead
    obtain ⟨c, hc, hyphen⟩ := Option.map_eq_some_iff.mp hhead
    exact hends c (.inl hc) hyphen
  · rw [String.toList_ofList, List.getLast?_map]
    intro hlast
    obtain ⟨c, hc, hyphen⟩ := Option.map_eq_some_iff.mp hlast
    exact hends c (.inr hc) hyphen

/-- The digits of a UUID are letters and digits. -/
private theorem isLetterDigit_uuidDigits {u : BitVec 128} {c : Char} (h : c ∈ uuidDigits u) :
    isLetterDigit c = true := by
  have hdigit : ∀ n < 16, isLetterDigit (Nat.digitChar n) = true := by decide
  obtain ⟨i, _, rfl⟩ := List.mem_map.mp h
  exact hdigit _ (Nat.mod_lt _ (by decide))

/-- The first eight characters of a UUID are digits. -/
private theorem uuidString_take (u : BitVec 128) :
    (uuidString u).toList.take 8 = (uuidDigits u).take 8 := by
  have hlen : ((uuidDigits u).take 8).length = 8 := by simp [uuidDigits]
  rw [uuidString, String.toList_ofList]
  simp only [List.append_assoc, List.cons_append]
  rw [List.take_left' hlen]

/-- The label of a hostname that leaves nothing. -/
private theorem labelShape_random (u : BitVec 128) :
    LabelShape ("peer-" ++ String.ofList ((uuidString u).toList.take 8)) ∧
      ("peer-" ++ String.ofList ((uuidString u).toList.take 8)).toList.length = 13 := by
  have hlen : ((uuidDigits u).take 8).length = 8 := by simp [uuidDigits]
  have hdigits : ∀ c ∈ (uuidDigits u).take 8, isLetterDigit c = true := fun c hc =>
    isLetterDigit_uuidDigits (List.mem_of_mem_take hc)
  -- five fixed characters and eight digits of the UUID
  have htext : ("peer-" ++ String.ofList ((uuidString u).toList.take 8)).toList =
      ['p', 'e', 'e', 'r', '-'] ++ (uuidDigits u).take 8 := by
    rw [uuidString_take, String.toList_append, String.toList_ofList (l := (uuidDigits u).take 8)]
    rfl
  refine ⟨⟨?_, ?_, ?_, ?_⟩, ?_⟩
  · rw [htext]
    exact List.cons_ne_nil _ _
  · rw [htext]
    intro c hc
    rcases List.mem_append.mp hc with hc | hc
    · simp only [List.mem_cons, List.not_mem_nil, or_false] at hc
      rcases hc with rfl | rfl | rfl | rfl | rfl <;> decide
    · exact .inl (hdigits c hc)
  · rw [htext]
    exact fun h => absurd (Option.some.inj h) (by decide)
  · -- the last character is a digit of the UUID
    have hne : (uuidDigits u).take 8 ≠ [] := List.ne_nil_of_length_pos (by rw [hlen]; decide)
    rw [htext, List.getLast?_append_of_ne_nil _ hne]
    intro h
    exact absurd (hdigits _ (List.mem_of_getLast? h)) (by decide)
  · rw [htext, List.length_append, hlen]
    rfl

/-- Every label has the shape. -/
private theorem toDNSLabel_shape (u : BitVec 128) (hostname : String) :
    LabelShape (toDNSLabel (uuidString u) hostname) := by
  rw [toDNSLabel_eq]
  split
  · exact (labelShape_random u).1
  · rename_i h
    exact labelShape_core h

/-- A label is as long as the core of the hostname, unless it was drawn at random. -/
private theorem length_toDNSLabel (u : BitVec 128) (hostname : String) :
    (toDNSLabel (uuidString u) hostname).toList.length =
      if labelCore hostname = [] then 13 else (labelCore hostname).length := by
  rw [toDNSLabel_eq]
  split
  · exact (labelShape_random u).2
  · rw [String.toList_ofList, List.length_map]

/-- The characters of a label are their own lower-case forms. -/
private theorem unicodeToLower_label {c : Char} (h : isLetterDigit c ∨ c = '-') :
    unicodeToLower c = c := by
  rw [isLetterDigit_iff] at h
  -- an ASCII character that is no capital
  have hbounds : c.toNat < 0x80 ∧ ¬('A' ≤ c ∧ c ≤ 'Z') := by
    rcases h with (⟨hlo, hhi⟩ | ⟨hlo, hhi⟩) | rfl
    · have hlo' : 0x61 ≤ c.toNat := hlo
      have hhi' : c.toNat ≤ 0x7A := hhi
      refine ⟨by omega, fun hupper => ?_⟩
      have : c.toNat ≤ 0x5A := hupper.2
      omega
    · have hhi' : c.toNat ≤ 0x39 := hhi
      refine ⟨by omega, fun hupper => ?_⟩
      have : 0x41 ≤ c.toNat := hupper.1
      omega
    · decide
  rw [unicodeToLower, if_pos hbounds.1, if_neg hbounds.2]

/-- What has the shape of a label is left alone. -/
private theorem toDNSLabel_of_shape {label : String} (h : LabelShape label) (uuid : String) :
    toDNSLabel uuid label = label := by
  have hlower : ∀ c ∈ label.toList, unicodeToLower c = c := fun c hc =>
    unicodeToLower_label (h.chars c hc)
  -- the ends are letters or digits, so nothing is trimmed
  have hstays : ∀ c ∈ label.toList, c ≠ '-' → ¬becomesHyphen c = true := by
    intro c hc hne
    rw [becomesHyphen, hlower c hc, (h.chars c hc).resolve_right hne]
    decide
  have hfirst : label.toList.dropWhile becomesHyphen = label.toList := by
    refine List.dropWhile_eq_self_iff.mpr fun hl => hstays _ (List.getElem_mem hl) fun heq => ?_
    exact h.first (by rw [List.head?_eq_getElem?, List.getElem?_eq_getElem hl, heq])
  have hcore : labelCore label = label.toList := by
    rw [labelCore, hfirst]
    refine List.rdropWhile_eq_self_iff.mpr fun hl => hstays _ (List.getLast_mem hl) fun heq => ?_
    exact h.last (by rw [List.getLast?_eq_some_getLast hl, heq])
  have hchars : label.toList.map labelChar = label.toList := by
    refine (List.map_congr_left fun c hc => ?_).trans (List.map_id _)
    rw [labelChar, hlower c hc, id]
    split
    · rename_i hyphen
      exact (not_imp_comm.mp (hstays c hc) (not_not.mpr hyphen)).symm
    · rfl
  rw [toDNSLabel_eq, hcore, if_neg h.nonempty, hchars, String.ofList_toList]

/-- A label is valid when what is kept of the hostname is short enough. -/
private theorem validLabel_iff (u : BitVec 128) (hostname : String) :
    ValidLabel (toDNSLabel (uuidString u) hostname) ↔ (labelCore hostname).length ≤ 63 := by
  have hlength := length_toDNSLabel u hostname
  constructor
  · intro hvalid
    have hle := hvalid.length_le
    rw [hlength] at hle
    -- the random label has thirteen characters
    split at hle
    · rename_i hnil
      rw [hnil]
      exact Nat.zero_le _
    · exact hle
  · intro hle
    refine ⟨toDNSLabel_shape u hostname, ?_⟩
    rw [hlength]
    split
    · decide
    · exact hle

/-- **When a device name becomes a valid label.** For every hostname, the label is a valid DNS
    label and a fixed point exactly when the part of the hostname from the first to the last
    letter or digit has at most 63 characters. -/
theorem dns_label_valid_iff (u : BitVec 128) (hostname : String) :
    (ValidLabel (toDNSLabel (uuidString u) hostname) ∧
      ∀ u', toDNSLabel (uuidString u') (toDNSLabel (uuidString u) hostname) =
        toDNSLabel (uuidString u) hostname) ↔
      (labelCore hostname).length ≤ 63 := by
  rw [← validLabel_iff u]
  -- the label is a fixed point in any case
  exact and_iff_left fun u' => toDNSLabel_of_shape (toDNSLabel_shape u hostname) _

/-- A hostname of 64 letters becomes a label of 64 characters. -/
theorem long_hostname_label :
    (toDNSLabel (uuidString 0) (String.ofList (List.replicate 64 'a'))).toList.length = 64 ∧
      ¬ValidLabel (toDNSLabel (uuidString 0) (String.ofList (List.replicate 64 'a'))) := by
  have hcore : labelCore (String.ofList (List.replicate 64 'a')) = List.replicate 64 'a' := by
    rw [labelCore, String.toList_ofList]
    decide +kernel
  have hlen : (toDNSLabel (uuidString 0) (String.ofList (List.replicate 64 'a'))).toList.length =
      64 := by
    rw [length_toDNSLabel, hcore]
    rfl
  exact ⟨hlen, fun h => absurd (hlen ▸ h.length_le) (by decide)⟩

/-! ## The callers -/

/-- A text has no more characters than bytes. -/
private theorem length_le_byteLen (s : String) : s.toList.length ≤ Strings.byteLen s := by
  unfold Strings.byteLen
  induction s.toList with
  | nil => exact Nat.le_refl _
  | cons c l ih =>
    have hc : 0 < c.utf8Size := c.utf8Size_pos
    rw [List.length_cons, List.map_cons, List.sum_cons]
    omega

/-- What is kept of a hostname is no longer than it. -/
private theorem length_labelCore_le (hostname : String) :
    (labelCore hostname).length ≤ hostname.toList.length :=
  (List.rdropWhile_prefix _ _).length_le.trans (List.length_dropWhile_le _ _)

/-- A name that `updatePeer` takes gives a valid label, as it has at most 63 bytes. -/
theorem validLabel_of_byteLen_le {name : String} (h : Strings.byteLen name ≤ 63)
    (u : BitVec 128) : ValidLabel (toDNSLabel (uuidString u) name) := by
  have hcore := length_labelCore_le name
  have hbytes := length_le_byteLen name
  exact (validLabel_iff u name).mpr (by omega)

end Blinex.Native.Domain
