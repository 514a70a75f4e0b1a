import Blinex.Native.PeerManager

/-!
# What a diff of the peers reports

`applySync` installs the address, hostname, allowed IPs and DNS label of every peer that
`Diff` reports. `Diff` looks at the first three of them. So the keys that come and go are
reported as they should be, and of the peers that stay only those are missed that change
their DNS label alone.
-/

namespace Blinex.Spec

open Blinex.Native
open Commonv1 (Peer)

/-- The fields that `applySync` installs from a peer. -/
def installed (p : Peer) : String × String × List String × String :=
  (p.ip, p.hostname, p.allowedIps, p.dnsLabel)

/-- The keys of the peers that a diff reports. -/
def reportedKeys (r : Reports) : List String :=
  r.added.map Peer.wgPubKey ++ r.updated.map (fun u => u.new.wgPubKey) ++
    r.removed.map Peer.wgPubKey

/-- A diff from `old` to `new` reports what its consumer has to apply: keys that come and
    keys that go, each once, and of the keys that stay at least those with a change. -/
structure ReportsChanges (order : List String) (old new : List Peer) : Prop where
  added : ∀ key, ((diff (incomingMap old) order new).1.added.map Peer.wgPubKey).count key =
    if key ∈ new.map Peer.wgPubKey ∧ key ∉ old.map Peer.wgPubKey then 1 else 0
  removed : ∀ key, ((diff (incomingMap old) order new).1.removed.map Peer.wgPubKey).count key =
    if key ∈ old.map Peer.wgPubKey ∧ key ∉ new.map Peer.wgPubKey then 1 else 0
  silent : ∀ p ∈ old, ∀ q ∈ new, p.wgPubKey = q.wgPubKey →
    q.wgPubKey ∉ reportedKeys (diff (incomingMap old) order new).1 → installed p = installed q
  committed : ∀ key p, (diff (incomingMap old) order new).2 key = some p ↔
    p ∈ new ∧ p.wgPubKey = key

/-- No peer that stays changes its DNS label alone. -/
def LabelsFollow (old new : List Peer) : Prop :=
  ∀ p ∈ old, ∀ q ∈ new, p.wgPubKey = q.wgPubKey → p.ip = q.ip → p.hostname = q.hostname →
    p.allowedIps = q.allowedIps → p.dnsLabel = q.dnsLabel

private theorem peerChanged_eq_false_iff (p q : Peer) :
    peerChanged p q = false ↔
      p.ip = q.ip ∧ p.hostname = q.hostname ∧ p.allowedIps = q.allowedIps := by
  simp only [peerChanged, Bool.or_eq_false_iff, bne_eq_false_iff_eq, Bool.not_eq_false',
    allowedIPsEqual_iff, and_assoc]

section

variable {old new : List Peer} {order : List String}

/-- The index has the keys of the list. -/
private theorem incomingMap_eq_none_iff (l : List Peer) (key : String) :
    incomingMap l key = none ↔ key ∉ l.map Peer.wgPubKey := by
  rw [incomingMap, PMap.index_eq_none_iff]
  simp only [List.mem_map, not_exists, not_and, ne_eq]

/-- A key is reported as added once if it is new, and else never. -/
private theorem count_added (hnew : (new.map Peer.wgPubKey).Nodup) (key : String) :
    ((diffAddedPeers (incomingMap old) new).map Peer.wgPubKey).count key =
      if key ∈ new.map Peer.wgPubKey ∧ key ∉ old.map Peer.wgPubKey then 1 else 0 := by
  -- no key twice: the count is one or zero
  have hnodup : ((diffAddedPeers (incomingMap old) new).map Peer.wgPubKey).Nodup :=
    hnew.sublist (List.filter_sublist.map _)
  rw [hnodup.count]
  congr 1
  rw [← incomingMap_eq_none_iff, eq_iff_iff, List.mem_map, List.mem_map]
  constructor
  · rintro ⟨p, hp, rfl⟩
    obtain ⟨hmem, hnone⟩ := mem_diffAddedPeers.mp hp
    exact ⟨⟨p, hmem, rfl⟩, hnone⟩
  · rintro ⟨⟨p, hmem, rfl⟩, hnone⟩
    exact ⟨p, mem_diffAddedPeers.mpr ⟨hmem, hnone⟩, rfl⟩

/-- A key is reported as removed once if it is gone, and else never. -/
private theorem count_removed (horder : PMap.RangeOrder (incomingMap old) order) (key : String) :
    ((diffRemovedPeers (incomingMap old) order new).map Peer.wgPubKey).count key =
      if key ∈ old.map Peer.wgPubKey ∧ key ∉ new.map Peer.wgPubKey then 1 else 0 := by
  -- the map has every peer under its own key
  have hkeyed : ∀ k p, incomingMap old k = some p → p.wgPubKey = k := fun k p h =>
    (PMap.index_eq_some Peer.wgPubKey old h).2
  have hnodup : ((diffRemovedPeers (incomingMap old) order new).map Peer.wgPubKey).Nodup :=
    horder.nodup.sublist (diffRemovedPeers_key_sublist hkeyed order new)
  rw [hnodup.count]
  congr 1
  rw [eq_iff_iff, List.mem_map]
  constructor
  · rintro ⟨p, hp, rfl⟩
    obtain ⟨k, hk, hnot⟩ := (mem_diffRemovedPeers horder).mp hp
    -- a removed peer was one of the old ones
    obtain ⟨hmem, rfl⟩ := PMap.index_eq_some Peer.wgPubKey old hk
    refine ⟨List.mem_map_of_mem hmem, ?_⟩
    rw [← incomingMap_eq_none_iff, incomingMap, PMap.index_eq_none_iff]
    exact hnot
  · rintro ⟨hmem, hnot⟩
    rw [← incomingMap_eq_none_iff, incomingMap, PMap.index_eq_none_iff] at hnot
    obtain ⟨p, hp⟩ := Option.ne_none_iff_exists'.mp
      (fun hnone => (incomingMap_eq_none_iff old key).mp hnone hmem)
    exact ⟨p, (mem_diffRemovedPeers horder).mpr ⟨key, hp, hnot⟩, hkeyed key p hp⟩

/-- A peer that stays is not reported exactly when the diff sees no change in it. -/
private theorem not_reported_iff (hold : (old.map Peer.wgPubKey).Nodup)
    (hnew : (new.map Peer.wgPubKey).Nodup) (horder : PMap.RangeOrder (incomingMap old) order)
    {p q : Peer} (hp : p ∈ old) (hq : q ∈ new) (hkey : p.wgPubKey = q.wgPubKey) :
    q.wgPubKey ∉ reportedKeys (diff (incomingMap old) order new).1 ↔ peerChanged p q = false := by
  have hknown : incomingMap old q.wgPubKey = some p :=
    (PMap.index_eq_some_iff Peer.wgPubKey hold).mpr ⟨hp, hkey⟩
  have hstays : q.wgPubKey ∈ new.map Peer.wgPubKey := List.mem_map_of_mem hq
  have hstayed : q.wgPubKey ∈ old.map Peer.wgPubKey := hkey ▸ List.mem_map_of_mem hp
  have hadded : q.wgPubKey ∉ (diffAddedPeers (incomingMap old) new).map Peer.wgPubKey := by
    rw [← List.count_eq_zero, count_added hnew, if_neg fun h => h.2 hstayed]
  have hremoved :
      q.wgPubKey ∉ (diffRemovedPeers (incomingMap old) order new).map Peer.wgPubKey := by
    rw [← List.count_eq_zero, count_removed horder, if_neg fun h => h.2 hstays]
  -- a key that stays is reported among the updates or not at all
  rw [reportedKeys, List.mem_append, List.mem_append]
  simp only [diff, hadded, hremoved, false_or, or_false]
  rw [← Bool.not_eq_true, not_iff_not, List.mem_map]
  constructor
  · rintro ⟨u, hu, hukey⟩
    obtain ⟨hmem, holdu, hch⟩ := mem_diffUpdatedPeers.mp hu
    obtain rfl : u.new = q := List.inj_on_of_nodup_map hnew hmem hq hukey
    rw [hknown] at holdu
    rw [Option.some.inj holdu]
    exact hch
  · intro hch
    exact ⟨⟨p, q⟩, mem_diffUpdatedPeers.mpr ⟨hq, hknown, hch⟩, rfl⟩

end

/-- **Diff reports what changed**, for lists with distinct keys and any order of its visits,
    exactly when no peer changes its DNS label alone. -/
theorem diff_reports_changes_iff (old new : List Peer) (order : List String)
    (hold : (old.map Peer.wgPubKey).Nodup) (hnew : (new.map Peer.wgPubKey).Nodup)
    (horder : PMap.RangeOrder (incomingMap old) order) :
    ReportsChanges order old new ↔ LabelsFollow old new := by
  constructor
  · -- nothing compares the labels, so a label that changes alone is not reported
    intro h p hp q hq hkey hip hhost hallowed
    have hquiet := (not_reported_iff hold hnew horder hp hq hkey).mpr
      ((peerChanged_eq_false_iff p q).mpr ⟨hip, hhost, hallowed⟩)
    have hsame := h.silent p hp q hq hkey hquiet
    simp only [installed, Prod.mk.injEq] at hsame
    exact hsame.2.2.2
  · intro h
    refine ⟨count_added hnew, count_removed horder, ?_, fun key p =>
      PMap.index_eq_some_iff Peer.wgPubKey hnew⟩
    intro p hp q hq hkey hquiet
    obtain ⟨hip, hhost, hallowed⟩ := (peerChanged_eq_false_iff p q).mp
      ((not_reported_iff hold hnew horder hp hq hkey).mp hquiet)
    simp only [installed, hip, hhost, hallowed, h p hp q hq hkey hip hhost hallowed]

/-- A peer whose label is its name. -/
def namedPeer (key ip name : String) : Peer :=
  { wgPubKey := key, ip, hostname := name, dnsLabel := name }

/-- A rename with the hostname is reported, beside a peer that leaves and one that comes. -/
theorem renamed_with_hostname_reported :
    ReportsChanges ["k1", "k2"]
      [namedPeer "k1" "100.64.0.1" "laptop", namedPeer "k2" "100.64.0.2" "desk"]
      [namedPeer "k1" "100.64.0.1" "work", namedPeer "k3" "100.64.0.3" "phone"] :=
  (diff_reports_changes_iff _ _ _ (by decide) (by decide) (PMap.RangeOrder.index Peer.wgPubKey
    (l := [namedPeer "k1" "100.64.0.1" "laptop", namedPeer "k2" "100.64.0.2" "desk"])
    (by decide))).mpr
    (by unfold LabelsFollow; decide)

/-- A laptop that gets a new DNS label under its old hostname. -/
def relabelled : Peer := { namedPeer "k1" "100.64.0.1" "laptop" with dnsLabel := "work" }

/-- The diff is empty, and the new label is never installed. -/
theorem relabelled_not_reported :
    (diff (incomingMap [namedPeer "k1" "100.64.0.1" "laptop"]) ["k1"] [relabelled]).1 =
      ⟨[], [], []⟩ ∧
    ¬ ReportsChanges ["k1"] [namedPeer "k1" "100.64.0.1" "laptop"] [relabelled] := by
  refine ⟨by decide, fun h => ?_⟩
  have hsame := h.silent _ List.mem_cons_self relabelled List.mem_cons_self rfl (by decide)
  exact absurd hsame (by decide)

end Blinex.Spec
