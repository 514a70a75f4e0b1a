import Blinex.ForStd.PMap
import Blinex.Native.Messages

/-!
# `client/internal/peer`: the known peers

`Diff` compares a sync with the peers of the previous one. It reports peers by
key; a peer is reported as updated when its address, hostname or allowed IPs
change, and on nothing else.
-/

namespace Blinex.Native

open Commonv1 (Peer)

/-- `peer.Update`. -/
structure Update where
  old : Peer
  new : Peer
deriving DecidableEq

/-- `allowedIPsEqual`. -/
def allowedIPsEqual (a b : List String) : Bool :=
  a.length == b.length && (a.zip b).all fun x => x.1 == x.2

/-- The test of `Diff` on a peer it already knows. -/
def peerChanged (existing p : Peer) : Bool :=
  existing.ip != p.ip || existing.hostname != p.hostname ||
    !allowedIPsEqual existing.allowedIps p.allowedIps

/-- `added` of `Manager.Diff`. -/
def diffAddedPeers (peers : PMap String Peer) (incoming : List Peer) : List Peer :=
  incoming.filter fun p => (peers p.wgPubKey).isNone

/-- `updated` of `Manager.Diff`. -/
def diffUpdatedPeers (peers : PMap String Peer) (incoming : List Peer) : List Update :=
  incoming.filterMap fun p =>
    match peers p.wgPubKey with
    | none => none
    | some existing => if peerChanged existing p then some ⟨existing, p⟩ else none

/-- `incomingMap` of `Manager.Diff`, the state it commits. -/
def incomingMap (incoming : List Peer) : PMap String Peer := PMap.index Peer.wgPubKey incoming

/-- `removed` of `Manager.Diff`; `order` is the order in which the map is visited. -/
def diffRemovedPeers (peers : PMap String Peer) (order : List String) (incoming : List Peer) :
    List Peer :=
  order.filterMap fun key =>
    match incomingMap incoming key with
    | some _ => none
    | none => peers key

/-- The results of `Manager.Diff`. -/
structure Reports where
  added : List Peer
  updated : List Update
  removed : List Peer
deriving DecidableEq

/-- `Manager.Diff`, with the state it commits. -/
def diff (peers : PMap String Peer) (order : List String) (incoming : List Peer) :
    Reports × PMap String Peer :=
  (⟨diffAddedPeers peers incoming, diffUpdatedPeers peers incoming,
    diffRemovedPeers peers order incoming⟩, incomingMap incoming)

/-- The comparison by length and position is equality of lists. -/
theorem allowedIPsEqual_iff (a b : List String) : allowedIPsEqual a b = true ↔ a = b := by
  unfold allowedIPsEqual
  constructor
  · intro h
    induction a generalizing b with
    | nil =>
      cases b with
      | nil => rfl
      | cons y b => simp at h
    | cons x a ih =>
      cases b with
      | nil => simp at h
      | cons y b =>
        simp only [List.length_cons, List.zip_cons_cons, List.all_cons, Bool.and_eq_true,
          beq_iff_eq, Nat.add_right_cancel_iff] at h
        -- equal lengths make the zip cover both lists
        obtain ⟨hlen, rfl, hall⟩ := h
        rw [ih b (by simp [hlen, hall])]
  · rintro rfl
    simp only [beq_self_eq_true, Bool.true_and, List.all_eq_true, beq_iff_eq]
    intro x hx
    obtain ⟨i, hi, rfl⟩ := List.mem_iff_getElem.mp hx
    simp

/-! ## What is reported -/

section Diff

variable {peers : PMap String Peer} {incoming : List Peer} {order : List String}

theorem mem_diffAddedPeers {p : Peer} :
    p ∈ diffAddedPeers peers incoming ↔ p ∈ incoming ∧ peers p.wgPubKey = none := by
  simp only [diffAddedPeers, List.mem_filter, Option.isNone_iff_eq_none]

/-- Known peers that changed are updated. -/
theorem mem_diffUpdatedPeers {u : Update} :
    u ∈ diffUpdatedPeers peers incoming ↔
      u.new ∈ incoming ∧ peers u.new.wgPubKey = some u.old ∧ peerChanged u.old u.new = true := by
  simp only [diffUpdatedPeers, List.mem_filterMap]
  constructor
  · rintro ⟨p, hp, h⟩
    split at h
    · exact nomatch h
    · rename_i existing hex
      -- an unchanged peer gives no update
      split at h
      · rename_i hch
        obtain rfl := Option.some.inj h
        exact ⟨hp, hex, hch⟩
      · exact nomatch h
  · rintro ⟨hp, hex, hch⟩
    exact ⟨u.new, hp, by rw [hex]; simp [hch]⟩

/-- Known peers that are no longer listed are removed. -/
theorem mem_diffRemovedPeers (horder : PMap.RangeOrder peers order) {p : Peer} :
    p ∈ diffRemovedPeers peers order incoming ↔
      ∃ key, peers key = some p ∧ ∀ q ∈ incoming, q.wgPubKey ≠ key := by
  simp only [diffRemovedPeers, List.mem_filterMap]
  constructor
  · rintro ⟨key, _, h⟩
    split at h
    · exact nomatch h
    · rename_i hnone
      exact ⟨key, h, (PMap.index_eq_none_iff _ _ _).mp hnone⟩
  · rintro ⟨key, hp, hnot⟩
    -- the range visits every key of the map
    refine ⟨key, (horder.mem_iff key).mpr (by rw [hp]; exact nofun), ?_⟩
    rw [incomingMap, (PMap.index_eq_none_iff _ _ _).mpr hnot]
    exact hp

/-- Every peer is updated at most once. -/
theorem diffUpdatedPeers_new_sublist (peers : PMap String Peer) (incoming : List Peer) :
    ((diffUpdatedPeers peers incoming).map Update.new).Sublist incoming := by
  unfold diffUpdatedPeers
  induction incoming with
  | nil => exact .slnil
  | cons p incoming ih =>
    rw [List.filterMap_cons]
    split
    · exact ih.cons p
    · rename_i u hu
      -- an update carries the peer that was received
      have hnew : u.new = p := by
        split at hu
        · exact nomatch hu
        · split at hu
          · obtain rfl := Option.some.inj hu
            rfl
          · exact nomatch hu
      rw [List.map_cons, hnew]
      exact ih.cons_cons p

/-- Every peer that is known under its own key is removed at most once. -/
theorem diffRemovedPeers_key_sublist (hkeyed : ∀ k p, peers k = some p → p.wgPubKey = k)
    (order : List String) (incoming : List Peer) :
    ((diffRemovedPeers peers order incoming).map Peer.wgPubKey).Sublist order := by
  unfold diffRemovedPeers
  induction order with
  | nil => exact .slnil
  | cons k order ih =>
    rw [List.filterMap_cons]
    split
    · exact ih.cons k
    · rename_i p hp
      -- a removed peer is the one that stood under `k`
      have hk : p.wgPubKey = k := by
        split at hp
        · exact nomatch hp
        · exact hkeyed k p hp
      rw [List.map_cons, hk]
      exact ih.cons_cons k

end Diff

end Blinex.Native
