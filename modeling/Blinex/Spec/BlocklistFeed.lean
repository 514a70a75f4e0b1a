import Blinex.Native.Blocklist
import Mathlib.Data.Finset.Dedup

/-!
# What a feed blocks

A feed passes through two services: `parse` on the server picks and normalises
one domain per line, `SetBlocklist` on the agent normalises it once more, and
`isBlocked` searches the parents of a name label by label. Together they block
the domains that the lines list, and what lies below these.
-/

namespace Blinex.Native.Blocklist

open Blinex.Go

/-- The field of a line that names its domain. A line without a field is blank;
    one whose first field starts with `#` is a comment. -/
def namedField (line : String) : Option String :=
  match Strings.fields line with
  | [] => none
  | first :: rest =>
    if Strings.hasPrefix first "#" = true then none
    else if first = "0.0.0.0" ∨ first = "127.0.0.1" then some (rest.headD first)
    else some first

/-- The domain that a field names: `localhost` and the root are not listed. -/
def namedDomain (field : String) : Option String :=
  if Strings.toLower (Strings.trimSuffix field ".") ∈ ["", "localhost"] then none
  else some (Strings.toLower (Strings.trimSuffix field "."))

/-- The domain that a line puts on the blocklist, without a second dot at its end. -/
def listedDomain (line : String) : Option String :=
  match (namedField line).bind namedDomain with
  | none => none
  | some domain =>
    if Strings.trimSuffix domain "." = "" then none else some (Strings.trimSuffix domain ".")

/-- The domain itself, or a name below it. -/
def Under (name d : String) : Prop := name = d ∨ ∃ sub, name = sub ++ "." ++ d

instance (name d : String) : Decidable (Under name d) :=
  decidable_of_iff (name = d ∨ '.' :: d.toList <:+ name.toList) <| by
    apply or_congr_right
    constructor
    · rintro ⟨sub, h⟩
      exact ⟨String.ofList sub, by rw [← String.toList_inj, ← h]; simp⟩
    · rintro ⟨sub, rfl⟩
      exact ⟨sub.toList, by simp⟩

/-! ## `parse` -/

/-- One line of `parse`: the field, then the domain that it names. -/
private theorem parseLine_eq (line : String) :
    parseLine line = (namedField line).bind namedDomain := by
  rcases Strings.fields_cases line with ⟨htrim, hfields⟩ | ⟨c, t, field, rest, htrim, hfields⟩
  · simp [parseLine, namedField, htrim, hfields]
  · have hne : Strings.trimSpace line ≠ "" := by
      intro h
      simp [h] at htrim
    have hprefix : Strings.hasPrefix (Strings.trimSpace line) "#"
        = Strings.hasPrefix (String.ofList (c :: field)) "#" := by
      simp only [Strings.hasPrefix, htrim, String.toList_ofList]
      exact (Bool.and_true _).trans (Bool.and_true _).symm
    simp only [parseLine, namedField, hne, hprefix, false_or, Strings.fields_trimSpace, hfields]
    -- A comment, then a field with an address before it, then a plain field.
    split
    · rfl
    · cases rest with
      | nil => simp [namedDomain]
      | cons second rest =>
        simp only [List.headD_cons]
        split <;> simp [namedDomain]

/-- The field that names a domain has no white space. -/
private theorem isSpace_of_mem_namedField {line field : String} {c : Char}
    (h : namedField line = some field) (hc : c ∈ field.toList) : Strings.isSpace c = false := by
  suffices hmem : field ∈ Strings.fields line from Strings.isSpace_of_mem_fields hmem hc
  -- the first field, or the second one behind an address
  simp only [namedField] at h
  split at h
  · cases h
  · rename_i first rest hfields
    rw [hfields]
    split at h
    · cases h
    · split at h
      · cases rest with
        | nil => exact List.mem_cons.mpr (.inl (Option.some.inj h).symm)
        | cons second rest =>
          rw [← Option.some.inj h]
          exact List.mem_cons_of_mem _ List.mem_cons_self
      · exact List.mem_cons.mpr (.inl (Option.some.inj h).symm)

/-- What a line contributes: its field in lower case without the final dot, unless it is skipped. -/
private theorem parseLine_eq_some_iff {line domain : String} :
    parseLine line = some domain ↔ ∃ field, namedField line = some field ∧
      domain = Strings.toLower (Strings.trimSuffix field ".") ∧ domain ∉ ["", "localhost"] := by
  rw [parseLine_eq, Option.bind_eq_some_iff]
  refine exists_congr fun field => and_congr_right fun _ => ?_
  rw [namedDomain]
  -- either side rules the skipped names out
  split
  · rename_i hskip
    constructor
    · intro h
      cases h
    · rintro ⟨rfl, hkept⟩
      exact absurd hskip hkept
  · rename_i hkept
    constructor
    · intro h
      obtain rfl := Option.some.inj h
      exact ⟨rfl, hkept⟩
    · rintro ⟨rfl, -⟩
      rfl

/-- A parsed domain is in lower case and has no white space. -/
theorem parseLine_normal {line domain : String} (h : parseLine line = some domain) :
    Strings.toLower domain = domain ∧ ∀ c ∈ domain.toList, Strings.isSpace c = false := by
  obtain ⟨field, hfield, rfl, -⟩ := parseLine_eq_some_iff.mp h
  refine ⟨Strings.toLower_toLower _, ?_⟩
  intro c hc
  -- A character of the domain is the lower-case form of one of the field.
  rw [Strings.toList_toLower] at hc
  obtain ⟨c', hc', rfl⟩ := List.mem_map.mp hc
  exact isSpace_unicodeToLower
    (isSpace_of_mem_namedField hfield (Strings.mem_of_mem_trimSuffix hc'))

theorem parseLine_ne_empty {line domain : String} (h : parseLine line = some domain) :
    domain ≠ "" := by
  obtain ⟨field, -, -, hkept⟩ := parseLine_eq_some_iff.mp h
  rintro rfl
  exact hkept List.mem_cons_self

/-- What `parse` returns, and which domains are in it. -/
private theorem parse_mem {feed : String} {lines : List String}
    (hlines : Bufio.scanLines maxLine feed = some lines) (order : MapOrder) :
    ∃ domains, parse order feed = .ok domains ∧
      ∀ domain, domain ∈ domains ↔ ∃ line ∈ lines, parseLine line = some domain := by
  refine ⟨order.keys (lines.filterMap parseLine).toFinset, ?_, ?_⟩
  · simp only [parse, hlines]
  · simp [order.mem_keys]

/-- A feed of one domain has no order. -/
theorem parse_single {feed domain : String} {lines : List String}
    (hlines : Bufio.scanLines maxLine feed = some lines)
    (hline : lines.filterMap parseLine = [domain]) (order : MapOrder) :
    parse order feed = .ok [domain] := by
  have hkeys : (order.keys {domain}).Perm [domain] := by
    rw [List.perm_ext_iff_of_nodup (order.nodup _) (List.nodup_singleton _)]
    simp [order.mem_keys]
  simp only [parse, hlines, hline, List.toFinset_cons, List.toFinset_nil, insert_empty_eq,
    List.perm_singleton.mp hkeys]

/-! ## `SetBlocklist` -/

/-- On a domain that `parse` returns, `SetBlocklist` only drops another dot. -/
theorem blockName_of_parseLine {line domain : String} (h : parseLine line = some domain) :
    blockName domain = Strings.trimSuffix domain "." := by
  obtain ⟨hlower, hspace⟩ := parseLine_normal h
  rw [blockName, Strings.trimSpace_eq_self hspace, Strings.toLower_eq_self_iff]
  intro c hc
  exact Strings.toLower_eq_self_iff.mp hlower c (Strings.mem_of_mem_trimSuffix hc)

/-- The two normalisations together. -/
private theorem listedDomain_eq_some_iff (line d : String) :
    listedDomain line = some d ↔
      ∃ domain, parseLine line = some domain ∧ blockName domain ≠ "" ∧ d = blockName domain := by
  rw [listedDomain, ← parseLine_eq]
  cases hdomain : parseLine line with
  | none => simp
  | some domain =>
    simp only [Option.some.injEq, exists_eq_left', blockName_of_parseLine hdomain]
    split
    · rename_i hempty
      simp [hempty]
    · rename_i hempty
      simp [hempty, eq_comm]

/-! ## The whole path -/

/-- A feed whose lines fit the scanner is parsed, and once its domains are set a
    name is blocked exactly if it is a listed domain or lies below one. -/
theorem feed_blocks_listed {feed : String} {lines : List String}
    (hlines : Bufio.scanLines maxLine feed = some lines) (order : MapOrder) (name : String) :
    ∃ domains, parse order feed = .ok domains ∧
      (isBlocked (setBlocklist domains) (name ++ ".") = true ↔
        ∃ d ∈ lines.filterMap listedDomain, Under name d) := by
  obtain ⟨domains, hparse, hmem⟩ := parse_mem hlines order
  refine ⟨domains, hparse, ?_⟩
  simp only [isBlocked_iff, mem_setBlocklist, hmem, List.mem_filterMap, listedDomain_eq_some_iff]
  constructor
  · rintro ⟨d, ⟨domain, ⟨line, hline, hdomain⟩, hne, hd⟩, hunder⟩
    exact ⟨d, ⟨line, hline, domain, hdomain, hne, (String.append_left_inj _).mp hd⟩, hunder⟩
  · rintro ⟨d, ⟨line, hline, domain, hdomain, hne, rfl⟩, hunder⟩
    exact ⟨_, ⟨domain, ⟨line, hline, hdomain⟩, hne, rfl⟩, hunder⟩

/-- Some order. -/
noncomputable def MapOrder.some : MapOrder where
  keys := Finset.toList
  nodup := Finset.nodup_toList
  mem_keys _ _ := Finset.mem_toList

/-- A hosts file blocks a name below its domain, and not one that only ends in
    the same characters. -/
theorem hostsFile_blocks :
    ∃ domains, parse .some "# hosts\n0.0.0.0 Evil.Example.\r\n127.0.0.1 localhost" = .ok domains ∧
      isBlocked (setBlocklist domains) "a.evil.example." = true ∧
      isBlocked (setBlocklist domains) "notevil.example." = false := by
  have hlines : Bufio.scanLines maxLine "# hosts\n0.0.0.0 Evil.Example.\r\n127.0.0.1 localhost"
      = some ["# hosts", "0.0.0.0 Evil.Example.", "127.0.0.1 localhost"] := by decide
  obtain ⟨domains, hparse, hbelow⟩ := feed_blocks_listed hlines .some "a.evil.example"
  obtain ⟨domains', hparse', hbeside⟩ := feed_blocks_listed hlines .some "notevil.example"
  obtain rfl := Except.ok.inj (hparse.symm.trans hparse')
  refine ⟨domains, hparse, hbelow.mpr (by decide +kernel), ?_⟩
  exact Bool.eq_false_iff.mpr (mt hbeside.mp (by decide +kernel))

end Blinex.Native.Blocklist
