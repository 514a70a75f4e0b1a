import Blinex.Go.Networks
import Blinex.Native.Acl
import Blinex.Native.HttpServer

/-!
# The host field of a rule, on the server and on the agents

The server validates `src` and `dst` with `net`, the agents read them with `netip`. The two
packages take the same texts apart in the same way and differ in two points: `net` accepts a
prefix length with zeros in front, and it counts IPv4-mapped IPv6 addresses as IPv4. A field
that meets neither is read alike.
-/

namespace Blinex.Spec

open Blinex.Go Blinex.Native
open Management (validateHost validateRuleFields)

/-- The IPv4 addresses that the server's parsers give a field: a single address, or those of the
    masked network. -/
def serverAddrs (field : String) : Set (BitVec 32) :=
  match Net.parseIP field with
  | some ip => {a | ip = (0xffff#96) ++ a}
  | none =>
    match Net.parseCIDR field with
    | some n => Net.v4Addrs n
    | none => ∅

/-- An agent matches exactly the addresses that the server gave the field. -/
def ReadAlike (field : String) : Prop :=
  ∀ a, aclHostMatch field (.v4 a) = true ↔ a ∈ serverAddrs field

/-- The text has a colon in it and names IPv4 addresses all the same. -/
def mappedField (field : String) : Bool :=
  field.toList.contains ':' &&
    match Net.parseIP field with
    | some ip => (Net.to4 ip).isSome
    | none => (Net.parseCIDR field).any fun n => (Net.to4 n.addr.as16).isSome

/-- The text is an IPv4 network whose length has a zero in front. -/
def paddedField (field : String) : Bool :=
  !field.toList.contains ':' &&
    match field.toList.dropWhile (· ≠ '/') with
    | _ :: '0' :: _ :: _ => true
    | _ => false

/-! ## The two readings of a text -/

/-- A single address on the agent. -/
private theorem aclHostMatch_of_parseAddr {field : String} {ip : Addr}
    (h : Netip.parseAddr field = some ip) (hzone : ip.zone = "") (hstar : field ≠ "*")
    (a : BitVec 32) : aclHostMatch field (.v4 a) = true ↔ ip = .v4 a := by
  have hne : field ≠ "" := by
    rintro rfl
    exact absurd h (by simp [show Netip.parseAddr "" = none by decide])
  have hprefix := Netip.parsePrefix_of_no_slash (Netip.slash_not_mem_of_parseAddr h hzone)
  simp only [aclHostMatch, hne, hstar, or_self, if_false, hprefix, h, beq_iff_eq]

/-- A network on the agent. -/
private theorem aclHostMatch_of_cidrText {field : String} {ip : Addr} {bits : Nat}
    (t : Netip.CIDRText field ip bits) (a : BitVec 32) :
    aclHostMatch field (.v4 a) = true ↔
      ¬ t.padded ∧ Prefix.contains ⟨ip, bits, t.bits_le⟩ (.v4 a) = true := by
  classical
  -- a slash rules out the two texts that match everything
  have hslash : '/' ∈ field.toList := by
    rw [t.text]
    exact List.mem_append_right _ List.mem_cons_self
  have hne : ¬ (field = "" ∨ field = "*") := by
    rintro (rfl | rfl) <;> exact absurd hslash (by decide)
  simp only [aclHostMatch, hne, if_false, t.parsePrefix, t.parseAddr]
  by_cases hpad : t.padded
  · simp [hpad]
  · simp [hpad]

/-- An address has no length to pad. -/
private theorem paddedField_of_parseAddr {field : String} {ip : Addr}
    (h : Netip.parseAddr field = some ip) (hzone : ip.zone = "") : paddedField field = false := by
  have hslash := Netip.slash_not_mem_of_parseAddr h hzone
  have hdrop : field.toList.dropWhile (· ≠ '/') = [] := by
    rw [List.dropWhile_eq_nil_iff]
    intro c hc
    rw [decide_eq_true_eq]
    rintro rfl
    exact hslash hc
  simp only [paddedField, hdrop, Bool.and_false]

/-- A field is padded when it is an IPv4 network whose length has a leading zero. -/
private theorem paddedField_of_cidrText {field : String} {ip : Addr} {bits : Nat}
    (t : Netip.CIDRText field ip bits) :
    paddedField field = true ↔ ip.is4 = true ∧ t.padded := by
  have hslash := Netip.slash_not_mem_of_parseAddr t.parse t.zone
  -- what follows the first slash is the length
  have hdrop : field.toList.dropWhile (· ≠ '/') = '/' :: t.mask := by
    have hall : ∀ c ∈ t.addr.toList, decide (c ≠ '/') = true := by
      intro c hc
      rw [decide_eq_true_eq]
      rintro rfl
      exact hslash hc
    rw [t.text, List.dropWhile_append_of_pos hall, List.dropWhile_cons_of_neg (by simp)]
  have hfamily : (!field.toList.contains ':') = true ↔ ip.is4 = true := by
    rw [Bool.not_eq_true', ← Bool.not_eq_true, List.contains_iff_mem, t.colon_mem_iff,
      Bool.not_eq_false]
  simp only [paddedField, hdrop, Bool.and_eq_true, hfamily, Netip.CIDRText.padded]
  refine and_congr_right fun _ => ?_
  split
  · rename_i heq
    rw [(List.cons.inj heq).2]
    simp
  · rename_i hother
    -- a length of one digit has no leading zero
    refine iff_of_false (by simp) ?_
    rintro ⟨hlen, hhead⟩
    obtain ⟨rest, hrest⟩ := List.head?_eq_some_iff.mp hhead
    rw [hrest, List.length_cons] at hlen
    cases rest with
    | nil => simp at hlen
    | cons d rest => exact hother '/' d rest (by rw [hrest])

/-! ## Agreement -/

/-- A field that names a single address is read alike unless it is a mapped one. -/
private theorem readAlike_of_parseIP {field : String} {ip : BitVec 128}
    (h : Net.parseIP field = some ip) (hstar : field ≠ "*") :
    ReadAlike field ↔ mappedField field = false ∧ paddedField field = false := by
  -- the server reads the address as the agent does, zones aside
  obtain ⟨addr, haddr, hzone, rfl⟩ : ∃ addr, Netip.parseAddr field = some addr ∧
      addr.zone = "" ∧ addr.as16 = ip := by
    unfold Net.parseIP at h
    split at h
    · rename_i addr haddr
      split at h
      · cases h
      · rename_i hzone
        exact ⟨addr, haddr, not_not.mp hzone, Option.some.inj h⟩
    · cases h
  have hcolon := Netip.colon_mem_iff haddr
  simp only [ReadAlike, serverAddrs, h, aclHostMatch_of_parseAddr haddr hzone hstar,
    paddedField_of_parseAddr haddr hzone, and_true, mappedField, Set.mem_ofPred_eq]
  cases addr with
  | invalid => exact absurd rfl (Netip.ne_invalid_of_parseAddr haddr)
  | v4 b =>
    have hno : field.toList.contains ':' = false := by
      rw [← Bool.not_eq_true, List.contains_iff_mem, hcolon]
      simp [Addr.is4]
    refine iff_of_true (fun a => ?_) (by rw [hno, Bool.false_and])
    rw [Addr.v4.injEq]
    exact ⟨fun heq => by rw [heq]; rfl, fun heq => Net.mapped_inj heq⟩
  | v6 b zone =>
    have hyes : field.toList.contains ':' = true := by
      rw [List.contains_iff_mem, hcolon]
      rfl
    rw [hyes, Bool.true_and]
    constructor
    · intro h'
      cases hto4 : Net.to4 b with
      | none => simp [Addr.as16, hto4]
      | some a =>
        -- the server matches `a`, the agent nothing
        have hmatch := (h' a).mpr (Net.to4_eq_some hto4)
        cases hmatch
    · intro hnone a
      refine iff_of_false (by simp) fun heq => ?_
      rw [heq, Net.to4_mapped] at hnone
      cases hnone

/-- A field that names a network is read alike unless it is a mapped one or has a padded
    length. -/
private theorem readAlike_of_parseCIDR {field : String} {n : Prefix}
    (hip : Net.parseIP field = none)
    (h : Net.parseCIDR field = some n) :
    ReadAlike field ↔ mappedField field = false ∧ paddedField field = false := by
  obtain ⟨ip, bits, t, rfl⟩ := Netip.exists_cidrText h
  have hpadded := paddedField_of_cidrText t
  simp only [ReadAlike, serverAddrs, hip, h, aclHostMatch_of_cidrText t, mappedField,
    Option.any_some]
  -- an IPv4 network differs by its padding, an IPv6 one by the IPv4 addresses it maps
  cases ip with
  | invalid => exact absurd rfl (Netip.ne_invalid_of_parseAddr t.parse)
  | v4 b =>
    have hno : field.toList.contains ':' = false := by
      rw [← Bool.not_eq_true, List.contains_iff_mem, t.colon_mem_iff]
      simp [Addr.is4]
    have hbits : bits ≤ 32 := t.bits_le
    have hserver := Net.v4Addrs_masked b bits hbits
    have hagent (a : BitVec 32) := Prefix.contains_v4_iff b a bits hbits
    rw [hno, Bool.false_and, ← Bool.not_eq_true (paddedField field), hpadded]
    simp only [hserver, hagent, Addr.is4, true_and]
    constructor
    · intro h' hpad
      exact ((h' b).mpr Block.mem_self).1 hpad
    · intro hplain a
      exact and_iff_right hplain
  | v6 b zone =>
    have hyes : field.toList.contains ':' = true := by
      rw [List.contains_iff_mem, t.colon_mem_iff]
      rfl
    have hplain : paddedField field = false := by
      rw [← Bool.not_eq_true, hpadded]
      simp [Addr.is4]
    have hagent (a : BitVec 32) := Prefix.contains_v4_of_not_is4
      (p := ⟨.v6 b zone, bits, t.bits_le⟩) rfl a
    rw [hyes, Bool.true_and, hplain]
    simp only [hagent, Bool.false_eq_true, and_false, false_iff, and_true]
    rw [Option.isSome_eq_false_iff, Option.isNone_iff_eq_none, ← Net.v4Addrs_eq_empty_iff,
      Set.eq_empty_iff_forall_notMem]

/-- Valid fields: both hosts pass their check, whichever is checked first. -/
private theorem validateHost_of_validateRuleFields {srcFirst : Bool} {src dst protocol : String}
    {port : Int} (h : validateRuleFields srcFirst src dst protocol port = none) :
    validateHost "src" src = none ∧ validateHost "dst" dst = none := by
  unfold validateRuleFields at h
  dsimp only at h
  split at h
  · cases h
  · rename_i hfields
    rw [List.findSome?_eq_none_iff] at hfields
    cases srcFirst with
    | true => exact ⟨hfields ("src", src) (by simp), hfields ("dst", dst) (by simp)⟩
    | false => exact ⟨hfields ("src", src) (by simp), hfields ("dst", dst) (by simp)⟩

/-- **Server and agents read a host field alike**, for every accepted `src` or `dst` other than
    "*" and groups, exactly when it is no IPv6 spelling of IPv4 addresses and no IPv4 network
    with zeros in front of its length. -/
theorem host_field_read_alike_iff {srcFirst : Bool} {src dst protocol : String} {port : Int}
    (hvalid : validateRuleFields srcFirst src dst protocol port = none) {field : String}
    (hfield : field = src ∨ field = dst) (hstar : field ≠ "*")
    (hgroup : Strings.hasPrefix field "group:" = false) :
    ReadAlike field ↔ mappedField field = false ∧ paddedField field = false := by
  obtain ⟨hsrc, hdst⟩ := validateHost_of_validateRuleFields hvalid
  obtain ⟨label, hhost⟩ : ∃ label, validateHost label field = none := by
    rcases hfield with rfl | rfl
    · exact ⟨"src", hsrc⟩
    · exact ⟨"dst", hdst⟩
  simp only [validateHost, hstar, hgroup, if_false, Bool.false_eq_true] at hhost
  split at hhost
  · cases hhost
  · -- what passed the check is an address or a network
    rename_i hparsed
    cases hip : Net.parseIP field with
    | some ip => exact readAlike_of_parseIP hip hstar
    | none =>
      cases hcidr : Net.parseCIDR field with
      | some n => exact readAlike_of_parseCIDR hip hcidr
      | none => simp [hip, hcidr] at hparsed

/-- A plain network with host bits, as an operator would type it. -/
theorem plain_network_read_alike :
    validateRuleFields true "10.1.2.3/8" "*" "tcp" 443 = none ∧ ReadAlike "10.1.2.3/8" := by
  have hvalid : validateRuleFields true "10.1.2.3/8" "*" "tcp" 443 = none := by decide +kernel
  exact ⟨hvalid, (host_field_read_alike_iff hvalid (.inl rfl) (by decide) (by decide)).mpr
    (by decide +kernel)⟩

/-- Rules for 10.0.0.0/08 and for ::ffff:10.0.0.1 are accepted, the server takes 10.0.0.1 to be
    in both, and no agent ever matches it. -/
theorem padded_and_mapped_match_nothing :
    validateRuleFields true "10.0.0.0/08" "::ffff:10.0.0.1" "all" 0 = none ∧
    0x0a000001#32 ∈ serverAddrs "10.0.0.0/08" ∧
    aclHostMatch "10.0.0.0/08" (.v4 0x0a000001#32) = false ∧ ¬ ReadAlike "10.0.0.0/08" ∧
    0x0a000001#32 ∈ serverAddrs "::ffff:10.0.0.1" ∧
    aclHostMatch "::ffff:10.0.0.1" (.v4 0x0a000001#32) = false ∧
    ¬ ReadAlike "::ffff:10.0.0.1" := by
  -- the server reads the length as eight
  have hnet : 0x0a000001#32 ∈ serverAddrs "10.0.0.0/08" := by
    have hip : Net.parseIP "10.0.0.0/08" = none := by decide +kernel
    have hcidr : Net.parseCIDR "10.0.0.0/08" = some ⟨.v4 0x0a000000#32, 8, by decide⟩ := by
      decide +kernel
    simp only [serverAddrs, hip, hcidr]
    show Net.contains _ _ = true
    decide +kernel
  -- the server takes the mapped address for the IPv4 one
  have hone : 0x0a000001#32 ∈ serverAddrs "::ffff:10.0.0.1" := by
    have hip : Net.parseIP "::ffff:10.0.0.1" = some ((0xffff#96) ++ 0x0a000001#32) := by
      decide +kernel
    simp only [serverAddrs, hip]
    rfl
  have hagent : aclHostMatch "10.0.0.0/08" (.v4 0x0a000001#32) = false := by decide +kernel
  have hagent' : aclHostMatch "::ffff:10.0.0.1" (.v4 0x0a000001#32) = false := by decide +kernel
  refine ⟨by decide +kernel, hnet, hagent, fun h => ?_, hone, hagent', fun h => ?_⟩
  · rw [(h _).mpr hnet] at hagent
    cases hagent
  · rw [(h _).mpr hone] at hagent'
    cases hagent'

end Blinex.Spec
