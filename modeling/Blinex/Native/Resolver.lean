import Blinex.ForStd.PMap
import Blinex.Go.Netip
import Blinex.Go.Strings
import Mathlib.Data.Finset.Basic

/-!
# `client/internal/dns`: Magic DNS records and the blocklist

The record table of `Resolver`. A record is keyed by the lowered name with its
trailing dot; its value is what `net.ParseIP` returns, nil included. The blocked
domains are a set of such names.
-/

namespace Blinex.Native

open Blinex.Go

/-- `Resolver.records`; the value `none` is a nil `net.IP`. -/
abbrev Records := PMap String (Option (BitVec 128))

/-- The key of a label's record. -/
def fqdn (suffix label : String) : String := Strings.toLower (label ++ "." ++ suffix) ++ "."

/-- `Resolver.Upsert`. -/
def Records.upsert (suffix label ip : String) (r : Records) : Records :=
  PMap.set r (fqdn suffix label) (Net.parseIP ip)

/-- `Resolver.Remove`. -/
def Records.remove (suffix label : String) (r : Records) : Records :=
  PMap.delete r (fqdn suffix label)

/-- Two labels share a record exactly when they agree up to case. -/
theorem fqdn_eq_iff (suffix a b : String) :
    fqdn suffix a = fqdn suffix b ↔ Strings.toLower a = Strings.toLower b := by
  constructor
  · intro h
    have hl := congrArg String.toList h
    simp only [fqdn, Strings.toLower_append, String.toList_append] at hl
    rw [List.append_left_inj, List.append_left_inj, List.append_left_inj] at hl
    exact String.toList_injective hl
  · intro h
    simp only [fqdn, Strings.toLower_append, h]

/-! ## The blocklist -/

/-- What `SetBlocklist` makes of one domain before it adds the trailing dot. -/
def blockName (d : String) : String :=
  Strings.toLower (Strings.trimSuffix (Strings.trimSpace d) ".")

/-- `Resolver.SetBlocklist`: the new `Resolver.blocked`. -/
def setBlocklist (domains : List String) : Finset String :=
  domains.foldl (fun blocked d =>
    if blockName d = "" then blocked else insert (blockName d ++ ".") blocked) ∅

/-- `Resolver.isBlocked`. -/
def isBlocked (blocked : Finset String) (name : String) : Bool :=
  if blocked = ∅ then false
  else
    let labels := Strings.split (Strings.trimSuffix name ".") '.'
    (List.range labels.length).any fun i => Strings.join (labels.drop i) "." ++ "." ∈ blocked

/-- The names in the blocklist are the non-empty lines, in lower case and closed by a dot. -/
theorem mem_setBlocklist (domains : List String) (name : String) :
    name ∈ setBlocklist domains ↔ ∃ d ∈ domains, blockName d ≠ "" ∧ name = blockName d ++ "." := by
  -- The loop adds to the set it starts from.
  suffices h : ∀ blocked : Finset String,
      name ∈ domains.foldl (fun blocked d =>
        if blockName d = "" then blocked else insert (blockName d ++ ".") blocked) blocked ↔
      name ∈ blocked ∨ ∃ d ∈ domains, blockName d ≠ "" ∧ name = blockName d ++ "." by
    simpa [setBlocklist] using h ∅
  induction domains with
  | nil => simp
  | cons d domains ih =>
    intro blocked
    rw [List.foldl_cons, ih, List.exists_mem_cons_iff]
    by_cases hd : blockName d = ""
    · simp [hd]
    · simp only [hd, if_false, Finset.mem_insert, ne_eq, not_false_eq_true, true_and]
      rw [or_assoc, or_left_comm]

/-- A name is blocked exactly if it, or what follows one of its dots, is in the set. -/
theorem isBlocked_iff (blocked : Finset String) (name : String) :
    isBlocked blocked (name ++ ".") = true ↔
      ∃ d, d ++ "." ∈ blocked ∧ (name = d ∨ ∃ sub, name = sub ++ "." ++ d) := by
  -- the loop tries each tail of the labels, which is the domain or a parent of it
  have hsearch : (∃ d, d ++ "." ∈ blocked ∧ (name = d ∨ ∃ sub, name = sub ++ "." ++ d)) ↔
      ∃ i < (Strings.split name '.').length,
        Strings.join ((Strings.split name '.').drop i) "." ++ "." ∈ blocked := by
    constructor
    · rintro ⟨d, hd, hname⟩
      obtain ⟨i, hi, rfl⟩ := (Strings.join_drop_split name d '.').mpr hname
      exact ⟨i, hi, hd⟩
    · rintro ⟨i, hi, h⟩
      exact ⟨_, h, (Strings.join_drop_split name _ '.').mp ⟨i, hi, rfl⟩⟩
  rw [hsearch, isBlocked]
  split
  · rename_i hempty
    simp [hempty]
  · simp [Strings.trimSuffix_append]

end Blinex.Native
