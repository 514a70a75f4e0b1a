import Blinex.Go.Sha256
import Blinex.Spec.BlocklistFeed
import Mathlib.Data.Finset.Max

/-!
# Agent and server agree on the blocklist

The server refreshes its list from the feed or fails to, and loses it at a
restart; the agent polls. The two compare lists by a version alone: the hash of
the sorted domains. `SetBlocklist` takes a dot off every domain once more, so what
the agent holds is a function of the server's set, and is that set exactly if no
domain in it ends in a dot.

The only assumption is that SHA-256 does not collide on the texts the server
hashed.
-/

namespace Blinex.Native.Blocklist

open Blinex.Go
open Blinex.Native.Management (Ctx Status)

/-! ## The protocol -/

/-- What can happen: a refresh with what the request to the feed came to, a
    restart of the server, and a poll, whose call may fail on the way. -/
inductive Event where
  | refresh (order : MapOrder) (resp : Except String (Nat × String))
  | restart
  | poll (ctx : Ctx) (wgPubKey : String) (lost : Bool)

/-- Both sides, and every value that the server's store has had. -/
structure World where
  store : Store := {}
  poller : Poller := {}
  snapshots : List Store := [{}]

/-- What the agent's call returns; `none` is an error of the connection. -/
def World.answer (w : World) (ctx : Ctx) (wgPubKey : String) (lost : Bool) :
    Except (Option Status) GetBlocklistResponse :=
  if lost then .error none
  else (getBlocklist (some w.store) ctx wgPubKey w.poller.knownVersion).mapError some

/-- The server's store changes. -/
def World.setStore (w : World) (s : Store) : World :=
  { w with store := s, snapshots := s :: w.snapshots }

/-- One event. -/
def World.step (sha256 : String → Vector UInt8 32) (w : World) : Event → World
  | .refresh order resp => w.setStore (w.store.refresh sha256 order resp)
  | .restart => w.setStore {}
  | .poll ctx wgPubKey lost => { w with poller := w.poller.fetch (w.answer ctx wgPubKey lost) }

/-- No two texts that the server hashed have the same hash. -/
def NoCollision (sha256 : String → Vector UInt8 32) (w : World) : Prop :=
  ∀ s ∈ w.snapshots, ∀ s' ∈ w.snapshots, s.version ≠ "" → s'.version ≠ "" →
    sha256 (hashInput s.domains) = sha256 (hashInput s'.domains) →
      hashInput s.domains = hashInput s'.domains

/-- The domains in a resolver: its names without the trailing dot. -/
def resolverDomains (blocked : Finset String) : Finset String :=
  blocked.image (Strings.trimSuffix · ".")

/-- What an agent makes of a list of domains: a dot less at their ends. -/
def installed (domains : List String) : Finset String :=
  ((domains.map (Strings.trimSuffix · ".")).filter (· ≠ "")).toFinset

/-- The agent has the list of a snapshot, and knows its version. -/
def Agrees (p : Poller) (s : Store) : Prop :=
  p.knownVersion = s.version ∧ resolverDomains p.blocked = installed s.domains

/-- A run from a new server and a new agent. -/
def World.run (sha256 : String → Vector UInt8 32) (events : List Event) : World :=
  events.foldl (World.step sha256) {}

/-! ## The version -/

/-- A newline ends every domain, so the text of a list without newlines gives it back. -/
private theorem splitOn_hashInput {domains : List String} (h : ∀ d ∈ domains, '\n' ∉ d.toList) :
    (domains.flatMap fun d => d.toList ++ ['\n']).splitOn '\n'
      = domains.map String.toList ++ [[]] := by
  induction domains with
  | nil => rfl
  | cons d domains ih =>
    obtain ⟨hd, hdomains⟩ := List.forall_mem_cons.mp h
    rw [List.flatMap_cons, List.append_assoc, List.singleton_append,
      List.splitOn_append_cons_self_of_not_mem hd, ih hdomains]
    rfl

/-- The hash input tells the domains apart, up to their order. -/
private theorem perm_of_hashInput_eq {domains domains' : List String}
    (h : ∀ d ∈ domains, '\n' ∉ d.toList) (h' : ∀ d ∈ domains', '\n' ∉ d.toList)
    (heq : hashInput domains = hashInput domains') : domains.Perm domains' := by
  have hsplit := congrArg (List.splitOn '\n') (String.ofList_injective heq)
  rw [splitOn_hashInput (fun d hd => h d (List.mem_mergeSort.mp hd)),
    splitOn_hashInput (fun d hd => h' d (List.mem_mergeSort.mp hd)), List.append_left_inj] at hsplit
  have hsorted := List.map_injective_iff.mpr (fun _ _ h => String.toList_injective h) hsplit
  have hperm := (List.mergeSort_perm domains fun a b => a ≤ b).symm
  rw [hsorted] at hperm
  exact hperm.trans (List.mergeSort_perm domains' _)

/-- A version that was computed is not the empty one a poller starts with. -/
private theorem hashDomains_ne_empty (sha256 : String → Vector UInt8 32) (domains : List String) :
    hashDomains sha256 domains ≠ "" := by
  intro h
  have hnil : (sha256 (hashInput domains)).toList = [] := Hex.encodeToString_inj (b := []) h
  have hlen := (sha256 (hashInput domains)).length_toList
  rw [hnil] at hlen
  cases hlen

/-- The order of the domains does not matter to the resolver. -/
private theorem setBlocklist_perm {domains domains' : List String} (h : domains.Perm domains') :
    setBlocklist domains = setBlocklist domains' := by
  ext name
  simp only [mem_setBlocklist, h.mem_iff]

/-! ## What a snapshot holds -/

/-- A value of the store: the empty one, or a parsed feed with its hash. -/
def Compiled (sha256 : String → Vector UInt8 32) (s : Store) : Prop :=
  s = {} ∨ s.version = hashDomains sha256 s.domains ∧
    ∀ d ∈ s.domains, ∃ line, parseLine line = some d

/-- The domains of a snapshot come from lines of a feed. -/
theorem Compiled.named {sha256 : String → Vector UInt8 32} {s : Store} (h : Compiled sha256 s) :
    ∀ d ∈ s.domains, ∃ line, parseLine line = some d := by
  rcases h with rfl | h
  · simp
  · exact h.2

/-- The version of a snapshot, once there is one, is the hash of its domains. -/
private theorem Compiled.version_eq {sha256 : String → Vector UInt8 32} {s : Store}
    (h : Compiled sha256 s) (hv : s.version ≠ "") : s.version = hashDomains sha256 s.domains := by
  rcases h with rfl | h
  · exact absurd rfl hv
  · exact h.1

/-- A domain from a feed has no newline: it has no white space at all. -/
private theorem Compiled.newline_not_mem {sha256 : String → Vector UInt8 32} {s : Store}
    (h : Compiled sha256 s) : ∀ d ∈ s.domains, '\n' ∉ d.toList := by
  intro d hd hmem
  obtain ⟨line, hline⟩ := h.named d hd
  exact absurd ((parseLine_normal hline).2 _ hmem) (by decide)

/-- A refresh leaves the store as it was or compiles the feed. -/
private theorem refresh_cases (sha256 : String → Vector UInt8 32) (order : MapOrder)
    (resp : Except String (Nat × String)) (s : Store) :
    s.refresh sha256 order resp = s ∨ Compiled sha256 (s.refresh sha256 order resp) := by
  rw [Store.refresh]
  cases hfetch : fetch order resp with
  -- a failed fetch keeps the snapshot; otherwise every domain comes from a line
  | error err => exact .inl rfl
  | ok domains =>
    refine .inr (.inr ⟨rfl, ?_⟩)
    simp only [fetch] at hfetch
    split at hfetch
    · cases hfetch
    · split at hfetch
      · cases hfetch
      · rename_i body _
        rw [parse] at hfetch
        split at hfetch
        · cases hfetch
        · rename_i lines _
          obtain rfl := Except.ok.inj hfetch
          intro d hd
          obtain ⟨line, -, hline⟩ : ∃ line ∈ lines, parseLine line = some d := by
            simpa [order.mem_keys] using hd
          exact ⟨line, hline⟩

/-- The domains of a resolver that was given a parsed list. -/
private theorem resolverDomains_setBlocklist {domains : List String}
    (h : ∀ d ∈ domains, ∃ line, parseLine line = some d) :
    resolverDomains (setBlocklist domains) = installed domains := by
  -- of a parsed domain only a final dot is taken off
  have hblock : ∀ d ∈ domains, blockName d = Strings.trimSuffix d "." := by
    intro d hd
    obtain ⟨line, hline⟩ := h d hd
    exact blockName_of_parseLine hline
  ext name
  simp only [resolverDomains, installed, Finset.mem_image, mem_setBlocklist, List.mem_toFinset,
    List.mem_filter, List.mem_map, decide_eq_true_eq]
  constructor
  · rintro ⟨-, ⟨d, hd, hne, rfl⟩, rfl⟩
    -- the set has the names with a dot at the end
    rw [Strings.trimSuffix_append]
    exact ⟨⟨d, hd, (hblock d hd).symm⟩, hne⟩
  · rintro ⟨⟨d, hd, rfl⟩, hne⟩
    rw [← hblock d hd] at hne ⊢
    exact ⟨_, ⟨d, hd, hne, rfl⟩, Strings.trimSuffix_append _ _⟩

/-- The agent holds the server's set itself exactly if no domain ends in a dot. -/
private theorem installed_eq_iff {domains : List String} (h : ∀ d ∈ domains, d ≠ "") :
    installed domains = domains.toFinset ↔ ∀ d ∈ domains, Strings.trimSuffix d "." = d := by
  -- if the sets are equal, no domain can end in a dot
  constructor
  · intro heq d hd
    by_contra hdot
    -- The longest domain that ends in a dot comes from no domain of the list.
    obtain ⟨long, hlong, hmax⟩ :=
      (domains.toFinset.filter (fun d => Strings.trimSuffix d "." ≠ d)).exists_max_image
        (fun d => d.toList.length) ⟨d, by simp [hd, hdot]⟩
    simp only [Finset.mem_filter, List.mem_toFinset] at hlong hmax
    have hfrom : long ∈ installed domains := by rw [heq]; simpa using hlong.1
    obtain ⟨d', hd', htrim⟩ : ∃ d' ∈ domains, Strings.trimSuffix d' "." = long := by
      simp only [installed, List.mem_toFinset, List.mem_filter, List.mem_map] at hfrom
      exact hfrom.1
    rcases Strings.trimSuffix_cases d' "." with hd'' | hd''
    · have hlen : d'.toList.length = long.toList.length + 1 := by
        rw [hd'', htrim, String.toList_append, List.length_append]
        rfl
      have hdot' : Strings.trimSuffix d' "." ≠ d' := by
        rw [htrim]
        rintro rfl
        omega
      have := hmax d' ⟨hd', hdot'⟩
      omega
    · rw [hd''] at htrim
      rw [htrim] at hd''
      exact hlong.2 hd''
  · -- a domain without a final dot is installed as it is
    intro hfix
    ext d
    simp only [installed, List.mem_toFinset, List.mem_filter, List.mem_map, decide_eq_true_eq]
    constructor
    · rintro ⟨⟨d', hd', rfl⟩, -⟩
      rwa [hfix d' hd']
    · intro hd
      exact ⟨⟨d, hd, hfix d hd⟩, h d hd⟩

/-! ## A poll -/

/-- What an answered poll does: nothing if the server has no list or the agent
    knows its version, and else it installs the list. -/
private theorem fetch_getBlocklist {ε : Type} {s : Store} {p : Poller} {ctx : Ctx}
    {wgPubKey : String}
    {resp : GetBlocklistResponse}
    (h : getBlocklist (some s) ctx wgPubKey p.knownVersion = .ok resp) :
    p.fetch (.ok resp : Except ε _) =
      if s.version = "" ∨ p.knownVersion = s.version then p
      else { knownVersion := s.version, blocked := setBlocklist s.domains } := by
  simp only [getBlocklist] at h
  split at h
  · cases h
  split at h
  · cases h
  -- The three answers of the handler: no list, the list that is known, a new list.
  by_cases hv : s.version = ""
  · rw [if_pos hv] at h
    obtain rfl := Except.ok.inj h
    simp [Poller.fetch, hv]
  · rw [if_neg hv] at h
    by_cases hknown : p.knownVersion = s.version
    · rw [if_pos ⟨by rwa [hknown], hknown⟩] at h
      obtain rfl := Except.ok.inj h
      simp [Poller.fetch, hknown]
    · rw [if_neg (fun hk => hknown hk.2)] at h
      obtain rfl := Except.ok.inj h
      simp [Poller.fetch, hv, hknown]

/-- An answer is that of the server. -/
private theorem World.answer_eq_ok {w : World} {ctx : Ctx} {wgPubKey : String} {lost : Bool}
    {resp : GetBlocklistResponse} (h : w.answer ctx wgPubKey lost = .ok resp) :
    getBlocklist (some w.store) ctx wgPubKey w.poller.knownVersion = .ok resp := by
  rw [World.answer] at h
  split at h
  · cases h
  · cases hget : getBlocklist (some w.store) ctx wgPubKey w.poller.knownVersion with
    | error status => rw [hget] at h; cases h
    | ok resp' => rw [hget] at h; exact congrArg _ (Except.ok.inj h)

/-! ## Runs -/

/-- What holds in every state: the store is one of its snapshots, each of which is
    compiled, and the agent's version is that of the snapshot it installed. -/
structure World.Inv (sha256 : String → Vector UInt8 32) (w : World) : Prop where
  current : w.store ∈ w.snapshots
  compiled : ∀ s ∈ w.snapshots, Compiled sha256 s
  known : w.poller.knownVersion ≠ "" → ∃ s ∈ w.snapshots,
    s.version = w.poller.knownVersion ∧ w.poller.blocked = setBlocklist s.domains

theorem World.Inv.init (sha256 : String → Vector UInt8 32) : World.Inv sha256 {} where
  current := List.mem_singleton.mpr rfl
  compiled _ hs := .inl (List.mem_singleton.mp hs)
  known h := absurd rfl h

/-- A compiled snapshot keeps the invariant. -/
private theorem World.Inv.setStore {sha256 : String → Vector UInt8 32} {w : World}
    (h : w.Inv sha256)
    {s : Store} (hs : Compiled sha256 s) : (w.setStore s).Inv sha256 where
  current := List.mem_cons_self
  compiled := List.forall_mem_cons.mpr ⟨hs, h.compiled⟩
  known hv := by
    obtain ⟨s', hs', hknown⟩ := h.known hv
    exact ⟨s', List.mem_cons_of_mem _ hs', hknown⟩

/-- Every event keeps the invariant. -/
theorem World.Inv.step {sha256 : String → Vector UInt8 32} {w : World} (h : w.Inv sha256)
    (e : Event) : (w.step sha256 e).Inv sha256 := by
  cases e with
  | refresh order resp =>
    refine h.setStore ?_
    rcases refresh_cases sha256 order resp w.store with hsame | hcompiled
    · rw [hsame]
      exact h.compiled _ h.current
    · exact hcompiled
  | restart => exact h.setStore (.inl rfl)
  | poll ctx wgPubKey lost =>
    refine ⟨h.current, h.compiled, ?_⟩
    simp only [World.step]
    -- a poll that fails or brings nothing new leaves the poller, one that does brings the snapshot
    cases hanswer : w.answer ctx wgPubKey lost with
    | error err => exact h.known
    | ok resp =>
      rw [fetch_getBlocklist (World.answer_eq_ok hanswer)]
      split
      · exact h.known
      · intro _
        exact ⟨w.store, h.current, rfl, rfl⟩

/-- The invariant holds after every run. -/
theorem World.Inv.run (sha256 : String → Vector UInt8 32) (events : List Event) :
    (World.run sha256 events).Inv sha256 := by
  suffices hfold : ∀ w : World, w.Inv sha256 → (events.foldl (World.step sha256) w).Inv sha256 from
    hfold {} (World.Inv.init sha256)
  induction events with
  | nil => exact fun w h => h
  | cons e events ih => exact fun w h => ih _ (h.step e)

/-- Two snapshots of one version have the same domains. -/
private theorem World.Inv.perm_of_version_eq {sha256 : String → Vector UInt8 32} {w : World}
    (h : w.Inv sha256) (hsha : NoCollision sha256 w) {s s' : Store} (hs : s ∈ w.snapshots)
    (hs' : s' ∈ w.snapshots) (hv : s'.version ≠ "") (heq : s.version = s'.version) :
    s.domains.Perm s'.domains := by
  have hcompiled := h.compiled s hs
  have hcompiled' := h.compiled s' hs'
  have hv' : s.version ≠ "" := by rwa [heq]
  -- equal versions are equal hashes, so without a collision the same text was hashed
  have hhash : sha256 (hashInput s.domains) = sha256 (hashInput s'.domains) := by
    apply Vector.toList_inj.mp
    apply Hex.encodeToString_inj
    have heq' := heq
    rwa [hcompiled.version_eq hv', hcompiled'.version_eq hv] at heq'
  exact perm_of_hashInput_eq hcompiled.newline_not_mem hcompiled'.newline_not_mem
    (hsha s hs s' hs' hv' hv hhash)

/-- After a poll that a server with a list answered, the agent has this list. -/
private theorem World.Inv.agrees_poll {sha256 : String → Vector UInt8 32} {w : World}
    (h : w.Inv sha256) (hsha : NoCollision sha256 w) {ctx : Ctx} {wgPubKey : String} {lost : Bool}
    {resp : GetBlocklistResponse} (hanswer : w.answer ctx wgPubKey lost = .ok resp)
    (hv : w.store.version ≠ "") :
    Agrees (w.step sha256 (.poll ctx wgPubKey lost)).poller w.store := by
  have hnamed := (h.compiled _ h.current).named
  simp only [World.step, hanswer, fetch_getBlocklist (World.answer_eq_ok hanswer), hv, false_or]
  split
  · -- The version is known: it is that of an older snapshot with the same domains.
    rename_i hknown
    obtain ⟨s, hs, hversion, hblocked⟩ := h.known (by rwa [hknown])
    have hperm := h.perm_of_version_eq hsha hs h.current hv (hversion.trans hknown)
    refine ⟨hknown, ?_⟩
    rw [hblocked, setBlocklist_perm hperm, resolverDomains_setBlocklist hnamed]
  · exact ⟨rfl, resolverDomains_setBlocklist hnamed⟩

/-- In every run, if SHA-256 does not collide on what was hashed: an agent that
    knows a version has the list of a snapshot with it; a refresh or a poll that fails
    changes neither side; and after a poll that a server with a list answered the
    agent has the server's list. What it has of a list is the list itself exactly if
    no domain in it ends in a dot. -/
theorem polls_keep_agreement (sha256 : String → Vector UInt8 32) (events : List Event)
    (hsha : NoCollision sha256 (World.run sha256 events)) :
    let w := World.run sha256 events
    (w.poller.knownVersion ≠ "" → ∃ s ∈ w.snapshots, Agrees w.poller s) ∧
    (∀ order resp err, fetch order resp = .error err →
      (w.step sha256 (.refresh order resp)).store = w.store ∧
      (w.step sha256 (.refresh order resp)).poller = w.poller) ∧
    (∀ ctx wgPubKey lost err, w.answer ctx wgPubKey lost = .error err →
      w.step sha256 (.poll ctx wgPubKey lost) = w) ∧
    (∀ ctx wgPubKey lost resp, w.answer ctx wgPubKey lost = .ok resp → w.store.version ≠ "" →
      Agrees (w.step sha256 (.poll ctx wgPubKey lost)).poller w.store) ∧
    ∀ s ∈ w.snapshots, installed s.domains = s.domains.toFinset ↔
      ∀ d ∈ s.domains, Strings.trimSuffix d "." = d := by
  intro w
  have hinv : w.Inv sha256 := World.Inv.run sha256 events
  refine ⟨?_, ?_, ?_, ?_, ?_⟩
  · -- what was installed last was the snapshot of some refresh
    intro hv
    obtain ⟨s, hs, hversion, hblocked⟩ := hinv.known hv
    refine ⟨s, hs, hversion.symm, ?_⟩
    rw [hblocked, resolverDomains_setBlocklist (hinv.compiled s hs).named]
  · intro order resp err hfetch
    simp only [World.step, World.setStore, Store.refresh, hfetch, and_self]
  · intro ctx wgPubKey lost err hanswer
    simp only [World.step, hanswer, Poller.fetch]
  · intro ctx wgPubKey lost resp hanswer hv
    exact hinv.agrees_poll hsha hanswer hv
  · intro s hs
    -- the equivalence about final dots needs that no domain is empty
    apply installed_eq_iff
    rintro d hd rfl
    obtain ⟨line, hline⟩ := (hinv.compiled s hs).named "" hd
    exact parseLine_ne_empty hline rfl

/-- A server's refresh with a feed, and a poll of the agent. -/
noncomputable def refreshAndPoll (feed : String) : List Event :=
  [.refresh .some (.ok (200, feed)), .poll {} "agent" false]

/-- A refresh with a feed of one domain, and a poll by an agent that has another version. -/
private theorem foldl_refreshAndPoll (sha256 : String → Vector UInt8 32) {feed d : String}
    (hparse : ∀ order, parse order feed = .ok [d]) (w : World)
    (hnew : w.poller.knownVersion ≠ hashDomains sha256 [d]) :
    (refreshAndPoll feed).foldl (World.step sha256) w =
      { store := ⟨[d], hashDomains sha256 [d]⟩
        poller := ⟨hashDomains sha256 [d], setBlocklist [d]⟩
        snapshots := ⟨[d], hashDomains sha256 [d]⟩ :: w.snapshots } := by
  have hne := hashDomains_ne_empty sha256 [d]
  simp [refreshAndPoll, World.step, World.setStore, Store.refresh, fetch, hparse, World.answer,
    getBlocklist, Ctx.matches, Except.mapError, Poller.fetch, hne, hnew]

/-- The first refresh and the first poll. -/
private theorem run_refreshAndPoll (sha256 : String → Vector UInt8 32) {feed d : String}
    (hparse : ∀ order, parse order feed = .ok [d]) :
    World.run sha256 (refreshAndPoll feed) =
      { store := ⟨[d], hashDomains sha256 [d]⟩
        poller := ⟨hashDomains sha256 [d], setBlocklist [d]⟩
        snapshots := [⟨[d], hashDomains sha256 [d]⟩, {}] } :=
  foldl_refreshAndPoll sha256 hparse {} (hashDomains_ne_empty sha256 [d]).symm

/-- Two feeds whose lists have different hashes: after the second poll the agent has the second
    list, and no longer the first one. -/
theorem firstPoll_agrees :
    let w := World.run Sha256.ofString
      (refreshAndPoll "evil.example" ++ refreshAndPoll "worse.example")
    NoCollision Sha256.ofString w ∧ w.poller.knownVersion ≠ "" ∧
      w.poller.blocked = setBlocklist ["worse.example"] ∧ ∃ s ∈ w.snapshots, Agrees w.poller s := by
  have hfirst : ∀ order, parse order "evil.example" = .ok ["evil.example"] :=
    parse_single (show Bufio.scanLines maxLine "evil.example" = some ["evil.example"] by decide)
      (by decide)
  have hsecond : ∀ order, parse order "worse.example" = .ok ["worse.example"] :=
    parse_single (show Bufio.scanLines maxLine "worse.example" = some ["worse.example"] by decide)
      (by decide)
  -- the two feeds have different hashes and different versions
  have hhash : Sha256.ofString (hashInput ["evil.example"]) ≠
      Sha256.ofString (hashInput ["worse.example"]) := by
    decide +kernel
  have hversion : hashDomains Sha256.ofString ["evil.example"] ≠
      hashDomains Sha256.ofString ["worse.example"] := by
    decide +kernel
  have hrun : World.run Sha256.ofString
      (refreshAndPoll "evil.example" ++ refreshAndPoll "worse.example") =
      { store := ⟨["worse.example"], hashDomains Sha256.ofString ["worse.example"]⟩
        poller := ⟨hashDomains Sha256.ofString ["worse.example"], setBlocklist ["worse.example"]⟩
        snapshots := [⟨["worse.example"], hashDomains Sha256.ofString ["worse.example"]⟩,
          ⟨["evil.example"], hashDomains Sha256.ofString ["evil.example"]⟩, {}] } := by
    rw [World.run, List.foldl_append, ← World.run, run_refreshAndPoll _ hfirst,
      foldl_refreshAndPoll _ hsecond _ hversion]
  -- of the three snapshots only the two that were computed have a version
  have hsha : NoCollision Sha256.ofString (World.run Sha256.ofString
      (refreshAndPoll "evil.example" ++ refreshAndPoll "worse.example")) := by
    rw [hrun]
    intro s hs s' hs' hv hv' heq
    simp only [List.mem_cons, List.not_mem_nil, or_false] at hs hs'
    rcases hs with rfl | rfl | rfl
    · rcases hs' with rfl | rfl | rfl
      · rfl
      · exact absurd heq.symm hhash
      · exact absurd rfl hv'
    · rcases hs' with rfl | rfl | rfl
      · exact absurd heq hhash
      · rfl
      · exact absurd rfl hv'
    · exact absurd rfl hv
  have hknown : (World.run Sha256.ofString (refreshAndPoll "evil.example" ++
      refreshAndPoll "worse.example")).poller.knownVersion ≠ "" := by
    rw [hrun]
    exact hashDomains_ne_empty _ _
  exact ⟨hsha, hknown, by rw [hrun], (polls_keep_agreement _ _ hsha).1 hknown⟩

/-- From the feed `..` the server takes the domain `.`, and the agent none. -/
theorem root_feed_disagrees :
    let w := World.run Sha256.ofString (refreshAndPoll "..")
    NoCollision Sha256.ofString w ∧ w.poller.knownVersion ≠ "" ∧
      w.poller.knownVersion = w.store.version ∧
      resolverDomains w.poller.blocked = ∅ ∧ w.store.domains.toFinset = {"."} ∧
      ¬∃ s ∈ w.snapshots, s.version = w.poller.knownVersion ∧
        resolverDomains w.poller.blocked = s.domains.toFinset := by
  -- the line of two dots is a domain of one dot, and that names nothing to block
  have hlines : Bufio.scanLines maxLine ".." = some [".."] := by decide
  have hparse : ∀ order, parse order ".." = .ok ["."] := parse_single hlines (by decide)
  have hempty : setBlocklist ["."] = ∅ := by decide
  simp only [run_refreshAndPoll _ hparse, hempty]
  refine ⟨fun s hs s' hs' hv hv' _ => ?_, hashDomains_ne_empty _ _, trivial, rfl, rfl, ?_⟩
  · -- there is one list with a version
    simp only [List.mem_cons, List.not_mem_nil, or_false] at hs hs'
    rcases hs with rfl | rfl
    · rcases hs' with rfl | rfl
      · rfl
      · exact absurd rfl hv'
    · exact absurd rfl hv
  rintro ⟨s, hs, hversion, hdomains⟩
  -- neither snapshot agrees: one has the domain, the other has no version
  simp only [List.mem_cons, List.not_mem_nil, or_false] at hs
  rcases hs with rfl | rfl
  · exact absurd hdomains (by decide)
  · exact hashDomains_ne_empty _ _ hversion.symm

end Blinex.Native.Blocklist
