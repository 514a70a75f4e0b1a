import Blinex.Spec.DefaultGroup

/-!
# Records through their rows

The lists of a record are columns of comma-separated text. A list comes back unchanged if its
items are not empty and have no comma in them, and every validator in front of the store lets
only such items through.
-/

namespace Blinex.Native.Management

open Blinex.Go

/-- Comes back from a column as it is. -/
def ColumnItem (x : String) : Prop := x ≠ "" ∧ ',' ∉ x.toList

/-! ## Columns -/

/-- An item of a column is not split. -/
private theorem ColumnItem.splitIPs_eq {x : String} (h : ColumnItem x) : splitIPs x = [x] := by
  have hne : [] ++ x.toList ≠ [] := by
    rw [List.nil_append]
    exact fun hnil => h.1 (String.toList_eq_nil_iff.mp hnil)
  rw [splitIPs, splitIPsLoop_of_no_comma h.2 hne, List.nil_append, String.ofList_toList]

private theorem splitIPs_joinIPs_of_items {xs : List String} (h : ∀ x ∈ xs, ColumnItem x) :
    splitIPs (joinIPs xs) = xs := by
  rw [splitIPs_joinIPs, List.flatMap_congr fun x hx => (h x hx).splitIPs_eq]
  simp

/-! ## What the validators let through -/

/-- A valid group name can be an item. -/
private theorem ColumnItem.of_group {g : String} (h : isValidGroupName g = true) :
    ColumnItem g := by
  have hcomma : ',' ∉ g.toList := by
    intro hmem
    unfold isValidGroupName at h
    rw [Bool.and_eq_true] at h
    -- no character of a name is a comma
    cases hg : g.toList with
    | nil =>
      rw [hg] at hmem
      cases hmem
    | cons c cs =>
      rw [hg] at hmem h
      have hchars := h.2
      simp only [Bool.and_eq_true, List.all_eq_true] at hchars
      rcases List.mem_cons.mp hmem with rfl | hmem
      · exact absurd hchars.1 (by decide)
      · exact absurd (hchars.2 _ hmem) (by decide)
  refine ⟨?_, hcomma⟩
  rintro rfl
  exact absurd h (by decide)

/-- The route of an address can be an item. -/
private theorem ColumnItem.of_hostRoute {ip : String} {a : BitVec 32}
    (h : Netip.parseAddr ip = some (.v4 a)) : ColumnItem (ip ++ "/32") := by
  have hcomma := Netip.comma_not_mem_of_parseAddr h rfl
  constructor
  · intro hempty
    have hlen := congrArg (fun s => s.toList.length) hempty
    simp at hlen
  · rw [String.toList_append, List.mem_append]
    rintro (hmem | hmem)
    · exact hcomma hmem
    · exact absurd hmem (by decide)

/-- A valid route can be an item. -/
private theorem ColumnItem.of_route {r : String} (h : validateRoute r = none) : ColumnItem r := by
  unfold validateRoute at h
  split at h
  · -- the default routes
    rename_i hdefault
    rcases hdefault with rfl | rfl <;> exact ⟨by decide, by decide⟩
  · split at h
    · cases h
    · rename_i cidr hcidr
      refine ⟨?_, Netip.comma_not_mem_of_parseCIDR hcidr⟩
      rintro rfl
      exact absurd hcidr (by simp [show Net.parseCIDR "" = none by decide])

/-! ## Records -/

/-- A peer as the API accepts it. -/
structure AcceptedPeer (p : Domain.Peer) : Prop where
  groups : ∀ g ∈ p.groups, isValidGroupName g = true
  allowedIPs : ∀ x ∈ p.allowedIPs, ∃ ip a, Netip.parseAddr ip = some (.v4 a) ∧ x = ip ++ "/32"
  routes : ∀ r ∈ p.advertisedRoutes, validateRoute r = none

/-- A peer that was accepted is read back from its row. -/
private theorem toDomainPeer_peerRow {p : Domain.Peer} (h : AcceptedPeer p) :
    toDomainPeer (peerRow p) = p := by
  have hgroups := splitIPs_joinIPs_of_items fun g hg => ColumnItem.of_group (h.groups g hg)
  have hroutes := splitIPs_joinIPs_of_items fun r hr => ColumnItem.of_route (h.routes r hr)
  have hallowed : splitIPs (joinIPs p.allowedIPs) = p.allowedIPs := by
    apply splitIPs_joinIPs_of_items
    intro x hx
    obtain ⟨ip, a, hip, rfl⟩ := h.allowedIPs x hx
    exact .of_hostRoute hip
  simp only [toDomainPeer, peerRow, hgroups, hroutes, hallowed]

/-- A setup key is read back, its count of uses apart. -/
private theorem toDomainSetupKey_setupKeyRow {sk : Domain.SetupKey}
    (h : ∀ g ∈ sk.autoGroups, isValidGroupName g = true) :
    toDomainSetupKey (setupKeyRow sk) = { sk with usedCount := 0 } := by
  have hgroups := splitIPs_joinIPs_of_items fun g hg => ColumnItem.of_group (h g hg)
  simp only [toDomainSetupKey, setupKeyRow, hgroups]

/-- **Persistence loses nothing.** Peers and setup keys that the API accepts come back from
    their rows, the initial use count of a key aside; so does every list of non-empty names
    without a comma; and what was read from any column is stable. -/
theorem stored_records_kept :
    (∀ p, AcceptedPeer p → toDomainPeer (peerRow p) = p) ∧
    (∀ sk : Domain.SetupKey, (∀ g ∈ sk.autoGroups, isValidGroupName g = true) →
      { toDomainSetupKey (setupKeyRow sk) with usedCount := sk.usedCount } = sk) ∧
    (∀ xs : List String, (∀ x ∈ xs, x ≠ "" ∧ ',' ∉ x.toList) → splitIPs (joinIPs xs) = xs) ∧
    ∀ s, joinIPs (splitIPs (joinIPs (splitIPs s))) = joinIPs (splitIPs s) := by
  refine ⟨fun p => toDomainPeer_peerRow, ?_, fun xs => splitIPs_joinIPs_of_items, ?_⟩
  · intro sk hsk
    rw [toDomainSetupKey_setupKeyRow hsk]
  · intro s
    rw [splitIPs_joinIPs_splitIPs]

/-- A peer with all lists in use. -/
def gatewayPeer : Domain.Peer :=
  { wgPubKey := "G", groups := ["Default", "gateways"], allowedIPs := ["100.64.0.7/32"],
    advertisedRoutes := ["192.168.0.0/16", "::/0"] }

/-- The peer with all lists in use comes back from its row. -/
theorem gatewayPeer_stored : AcceptedPeer gatewayPeer ∧
    toDomainPeer (peerRow gatewayPeer) = gatewayPeer := by
  have haccepted : AcceptedPeer gatewayPeer := by
    refine ⟨by decide, ?_, by decide +kernel⟩
    intro x hx
    obtain rfl := List.mem_singleton.mp hx
    exact ⟨"100.64.0.7", 0x64400007#32, by decide +kernel, rfl⟩
  exact ⟨haccepted, stored_records_kept.1 gatewayPeer haccepted⟩

end Blinex.Native.Management
