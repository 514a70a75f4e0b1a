import Blinex.ForStd.Quoting
import Blinex.Native.DnsConfig

/-!
# Names and addresses in PowerShell commands

The commands carry adapter names and addresses as single-quoted literals. PowerShell takes five
characters for a single quote and `psQuote` doubles one of them, so a text survives exactly when
it has none of the other four (`psQuote_reads_back_iff`). An adapter name that has one ends its
literal early, and the rest of the name is read as part of the command.
-/

namespace Blinex.Native.DnsConfig

open Blinex.Go

/-! ## What PowerShell reads -/

/-- The characters PowerShell takes for a single quote. -/
def isSingleQuote (c : Char) : Bool :=
  [0x27, 0x2018, 0x2019, 0x201A, 0x201B].contains c.toNat

/-- A reader of single-quoted literals. Which quote a pair of two different ones stands for is
    left open. -/
structure Tokenizer extends Quotes Char where
  isQuote_eq : isQuote = isSingleQuote

/-- The tokenizer that keeps the second quote of a pair. -/
def powerShell : Tokenizer where
  isQuote := isSingleQuote
  pair _ d := d
  isQuote_pair _ hd := hd
  pair_self _ := rfl
  isQuote_eq := rfl

namespace Tokenizer

variable (t : Tokenizer)

/-- Reads one literal: its value and the text behind it. -/
def readLiteral (text : String) : Option (String × String) :=
  (t.literal text.toList).map fun r => (String.ofList r.1, String.ofList r.2)

/-- Reads an array of literals `@(…,…)`: its values and the text behind it. -/
def readArray (text : String) : Option (List String × String) :=
  match text.toList with
  | '@' :: '(' :: list =>
    (t.elems ',' ')' list).map fun r => (r.1.map String.ofList, String.ofList r.2)
  | _ => none

/-- Before a space, the quoted text is one literal with the text as its value. -/
def ReadsBack (v : String) : Prop :=
  ∀ rest, t.readLiteral (psQuote v ++ " " ++ rest) = some (v, " " ++ rest)

/-- The quoted list is the array of its texts. -/
def ArrayReadsBack (vs : List String) : Prop :=
  ∀ rest, t.readArray (psStringArray vs ++ rest) = some (vs, rest)

end Tokenizer

/-- The text has none of the single quotes U+2018 to U+201B. -/
def NoCurlyQuote (v : String) : Prop :=
  ∀ c ∈ v.toList, c.toNat ∉ [0x2018, 0x2019, 0x201A, 0x201B]

instance (v : String) : Decidable (NoCurlyQuote v) :=
  List.decidableBAll (fun c : Char => c.toNat ∉ [0x2018, 0x2019, 0x201A, 0x201B]) v.toList

/-! ## What is written -/

/-- `psQuote` doubles the mark and puts the text between two of it. -/
private theorem toList_psQuote (v : String) :
    (psQuote v).toList = Quotes.write '\x27' v.toList := by
  simp [psQuote, Strings.replaceAll, Quotes.write, Quotes.double]

/-- Written out in the source, the quoting of an array is that of `psQuote`. -/
private theorem psStringArray_eq (vs : List String) :
    psStringArray vs = "@(" ++ Strings.join (vs.map psQuote) "," ++ ")" := rfl

/-- An array is written element by element. -/
private theorem toList_psStringArray (vs : List String) :
    (psStringArray vs).toList =
      '@' :: '(' :: ([','].intercalate ((vs.map String.toList).map (Quotes.write '\x27')) ++
        [')']) := by
  have hquoted : (vs.map psQuote).map String.toList =
      (vs.map String.toList).map (Quotes.write '\x27') := by
    rw [List.map_map, List.map_map]
    exact List.map_congr_left fun v _ => toList_psQuote v
  simp [psStringArray_eq, Strings.join, ← hquoted]

namespace Tokenizer

variable {t : Tokenizer}

/-- The characters that PowerShell takes for a single quote. -/
private theorem isQuote_iff {c : Char} :
    t.isQuote c ↔ c = '\x27' ∨ c.toNat ∈ [0x2018, 0x2019, 0x201A, 0x201B] := by
  rw [t.isQuote_eq, isSingleQuote, List.contains_cons, Bool.or_eq_true, beq_iff_eq,
    List.contains_iff_mem]
  refine or_congr_left ?_
  rw [← Char.toNat_inj]
  rfl

/-- Without a curly quote, the mark is the only one in a text. -/
private theorem onlyQuote_iff {v : String} : t.OnlyQuote '\x27' v.toList ↔ NoCurlyQuote v := by
  refine forall₂_congr fun c _ => ?_
  rw [isQuote_iff]
  constructor
  · intro h hcurly
    rw [h (.inr hcurly)] at hcurly
    exact absurd hcurly (by decide)
  · rintro h (hc | hcurly)
    · exact hc
    · exact absurd hcurly h

/-- Reading a literal, over the characters. -/
private theorem readLiteral_eq_some {text v rest : String} :
    t.readLiteral text = some (v, rest) ↔
      t.literal text.toList = some (v.toList, rest.toList) := by
  rw [readLiteral, Option.map_eq_some_iff]
  constructor
  · rintro ⟨r, hr, heq⟩
    cases heq
    rw [hr, String.toList_ofList, String.toList_ofList]
  · intro h
    exact ⟨_, h, by rw [String.ofList_toList, String.ofList_toList]⟩

/-- Reading an array, over the characters. -/
private theorem readArray_eq_some {list : List Char} {text rest : String} {vs : List String}
    (htext : text.toList = '@' :: '(' :: list) :
    t.readArray text = some (vs, rest) ↔
      t.elems ',' ')' list = some (vs.map String.toList, rest.toList) := by
  rw [readArray, htext]
  show Option.map _ (t.elems ',' ')' list) = _ ↔ _
  rw [Option.map_eq_some_iff]
  constructor
  · rintro ⟨r, hr, heq⟩
    cases heq
    simp [hr]
  · intro h
    exact ⟨_, h, by simp⟩

/-- The space behind a literal does not prolong it. -/
private theorem stops_space (rest : List Char) : t.Stops (' ' :: rest) := by
  intro c hc
  obtain rfl : ' ' = c := Option.some.inj hc
  rw [isQuote_iff]
  decide

private theorem isQuote_mark : t.isQuote '\x27' := isQuote_iff.mpr (.inl rfl)

/-- A literal is read back exactly if it has no curly quote. -/
private theorem readLiteral_psQuote_iff (v rest : String) :
    t.readLiteral (psQuote v ++ " " ++ rest) = some (v, " " ++ rest) ↔ NoCurlyQuote v := by
  have htext : (psQuote v ++ " " ++ rest).toList =
      Quotes.write '\x27' v.toList ++ (" " ++ rest).toList := by
    simp [toList_psQuote]
  have hrest : (" " ++ rest).toList = ' ' :: rest.toList := by simp
  rw [readLiteral_eq_some, htext, hrest, Quotes.literal_write_iff isQuote_mark (stops_space _),
    onlyQuote_iff]

/-- An array is read back exactly if none of its elements has one. -/
private theorem readArray_psStringArray_iff (vs : List String) (rest : String) :
    t.readArray (psStringArray vs ++ rest) = some (vs, rest) ↔ ∀ v ∈ vs, NoCurlyQuote v := by
  have htext : (psStringArray vs ++ rest).toList = '@' :: '(' ::
      ([','].intercalate ((vs.map String.toList).map (Quotes.write '\x27')) ++
        ')' :: rest.toList) := by
    rw [String.toList_append, toList_psStringArray]
    simp
  -- the comma and the bracket end an element, as they are no quotes
  have hsep : ¬t.isQuote ',' := by
    rw [isQuote_iff]
    decide
  have hclose : ¬t.isQuote ')' := by
    rw [isQuote_iff]
    decide
  rw [readArray_eq_some htext, Quotes.elems_write_iff isQuote_mark hsep hclose (by decide),
    List.forall_mem_map]
  exact forall₂_congr fun v _ => onlyQuote_iff

end Tokenizer

/-- **Which texts survive the quoting.** A text reads back from its literal, and a list of texts
    from its array, exactly when none of them has a quote from U+2018 to U+201B. -/
theorem psQuote_reads_back_iff (t : Tokenizer) (v : String) (vs : List String) :
    t.ReadsBack v ∧ t.ArrayReadsBack vs ↔ ∀ w ∈ v :: vs, NoCurlyQuote w := by
  rw [List.forall_mem_cons]
  refine and_congr ?_ ?_
  · exact ⟨fun h => (Tokenizer.readLiteral_psQuote_iff v "").mp (h ""),
      fun h rest => (Tokenizer.readLiteral_psQuote_iff v rest).mpr h⟩
  · exact ⟨fun h => (Tokenizer.readArray_psStringArray_iff vs "").mp (h ""),
      fun h rest => (Tokenizer.readArray_psStringArray_iff vs rest).mpr h⟩

/-- The literal of an adapter name with a U+2019 ends there; behind it the name goes on as
    command text. An array with the name is no array. -/
theorem curlyQuote_ends_literal :
    powerShell.readLiteral (psQuote "x\u2019; calc; " ++ " ") = some ("x", "; calc; ' ") ∧
    ¬powerShell.ReadsBack "x\u2019; calc; " ∧
    ¬powerShell.ArrayReadsBack ["x\u2019; calc; "] := by
  have hread : powerShell.readLiteral (psQuote "x\u2019; calc; " ++ " ") =
      some ("x", "; calc; ' ") := by decide
  have hcurly : ¬NoCurlyQuote "x\u2019; calc; " := by decide
  refine ⟨hread, fun h => ?_, fun h => ?_⟩
  · exact hcurly ((Tokenizer.readLiteral_psQuote_iff _ "").mp (h ""))
  · have hall := (Tokenizer.readArray_psStringArray_iff _ "").mp (h "")
    exact hcurly (hall _ List.mem_cons_self)

/-! ## The commands -/

/-- The command that looks up an adapter names just that adapter. -/
theorem resolveAdapterIndexScript_name (t : Tokenizer) {adapter : String}
    (h : NoCurlyQuote adapter) :
    ∃ args, resolveAdapterIndexScript adapter = "(Get-NetAdapter -Name " ++ args ∧
      t.readLiteral args =
        some (adapter, " -ErrorAction SilentlyContinue).InterfaceIndex") := by
  have hspace : " -ErrorAction SilentlyContinue).InterfaceIndex" =
      " " ++ "-ErrorAction SilentlyContinue).InterfaceIndex" := by decide
  refine ⟨psQuote adapter ++ " -ErrorAction SilentlyContinue).InterfaceIndex",
    String.append_assoc, ?_⟩
  rw [hspace, ← String.append_assoc]
  exact (Tokenizer.readLiteral_psQuote_iff adapter _).mpr h

/-- The command that sets the servers of an adapter sets just these. -/
theorem setAdapterDNSScript_servers (t : Tokenizer) (interfaceIndex : Nat) {servers : List String}
    (h : ∀ server ∈ servers, NoCurlyQuote server) :
    ∃ args, setAdapterDNSScript interfaceIndex servers =
        "Set-DnsClientServerAddress -InterfaceIndex " ++ toString interfaceIndex ++
          " -ServerAddresses " ++ args ∧
      t.readArray args = some (servers, "") := by
  refine ⟨psStringArray servers, rfl, ?_⟩
  have hread : t.readArray (psStringArray servers ++ "") = some (servers, "") :=
    (Tokenizer.readArray_psStringArray_iff servers "").mpr h
  rw [String.append_empty] at hread
  exact hread

end Blinex.Native.DnsConfig
