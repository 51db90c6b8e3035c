import DnsResolver.Recursor.Bailiwick

/-!
# The local root zone (`root_zone.rs`)

`install_to_cache` brings a parsed root zone into the delegation cache: it drops every entry an
earlier zone left there and then inserts one entry per delegation.  Learned entries share the map
and its keys, and the insertion does not look whether one of them is in the way.

* `installToCache`          retain, then one insert per delegation with servers;
* `installToCache_of_mem`, `installToCache_of_ne`   the cache afterwards, key by key;
* `Refreshed`               what a refresh should do: learned entries stay, and the entries of the
                            zone are there wherever no learned one is;
* `installToCache_refreshed_iff`   it does so exactly if no delegation of the zone meets a learned
                            entry.
-/

namespace DnsResolver

def rootZoneTtlCapSecs : Nat := 7 * 86400

/-- `u64::saturating_add` -/
def saturatingAdd (a b : Nat) : Nat := min (a + b) 18446744073709551615

structure RootZoneDelegation where
  servers : List IpAddr
  ttl : UInt32

/-- a parsed root zone: a map keyed by name, its entries in the order of iteration -/
structure RootZoneData where
  delegations : List (Name × RootZoneDelegation)
  distinct : delegations.Pairwise fun a b => a.1.fold ≠ b.1.fold

def RootZoneDelegation.entry (now : Nat) (del : RootZoneDelegation) : DelegationEntry where
  servers := del.servers
  expiresAt := saturatingAdd now (min del.ttl.toNat rootZoneTtlCapSecs)
  source := .RootZone

/-- `DashMap::retain` -/
def DelegationCache.retain (keep : DelegationEntry → Bool) (cache : DelegationCache) :
    DelegationCache := fun key => (cache key).filter keep

/-- one round of the loop of `install_to_cache` -/
def insertDelegation (now : Nat) (cache : DelegationCache) (d : Name × RootZoneDelegation) :
    DelegationCache :=
  if d.2.servers.isEmpty then cache
  else Function.update cache d.1.fold (some (d.2.entry now))

/-- `install_to_cache` -/
def installToCache (now : Nat) (data : RootZoneData) (cache : DelegationCache) :
    DelegationCache :=
  data.delegations.foldl (insertDelegation now)
    (cache.retain fun entry => decide (entry.source ≠ .RootZone))

/-! ## the cache afterwards -/

section
variable {now : Nat} {cache : DelegationCache} {key : ZoneKey}

theorem insertDelegation_of_ne {d : Name × RootZoneDelegation}
    (h : d.2.servers = [] ∨ d.1.fold ≠ key) : insertDelegation now cache d key = cache key := by
  unfold insertDelegation
  split
  · rfl
  · rename_i hs
    rcases h with h | h
    · exact absurd (List.isEmpty_iff.mpr h) hs
    · exact Function.update_of_ne h.symm _ _

theorem insertDelegation_self {d : Name × RootZoneDelegation} (hs : d.2.servers ≠ []) :
    insertDelegation now cache d d.1.fold = some (d.2.entry now) := by
  unfold insertDelegation
  rw [if_neg (fun h => hs (List.isEmpty_iff.mp h)), Function.update_self]

theorem foldl_insertDelegation_of_ne {ds : List (Name × RootZoneDelegation)}
    (h : ∀ d ∈ ds, d.2.servers = [] ∨ d.1.fold ≠ key) :
    ds.foldl (insertDelegation now) cache key = cache key := by
  induction ds generalizing cache with
  | nil => rfl
  | cons d ds ih =>
    rw [List.foldl_cons, ih fun d' hd' => h d' (List.mem_cons_of_mem _ hd'),
      insertDelegation_of_ne (h d List.mem_cons_self)]

/-- no later delegation has the key of an earlier one, so the order of iteration is no matter -/
theorem foldl_insertDelegation_of_mem {ds : List (Name × RootZoneDelegation)}
    (hdist : ds.Pairwise fun a b => a.1.fold ≠ b.1.fold) {d : Name × RootZoneDelegation}
    (hd : d ∈ ds) (hs : d.2.servers ≠ []) :
    ds.foldl (insertDelegation now) cache d.1.fold = some (d.2.entry now) := by
  induction ds generalizing cache with
  | nil => exact absurd hd List.not_mem_nil
  | cons c ds ih =>
    obtain ⟨hc, htail⟩ := List.pairwise_cons.mp hdist
    rw [List.foldl_cons]
    rcases List.mem_cons.mp hd with rfl | hd
    · rw [foldl_insertDelegation_of_ne fun d' hd' => Or.inr (hc d' hd').symm,
        insertDelegation_self hs]
    · exact ih htail hd

theorem installToCache_of_mem {data : RootZoneData} {d : Name × RootZoneDelegation}
    (hd : d ∈ data.delegations) (hs : d.2.servers ≠ []) :
    installToCache now data cache d.1.fold = some (d.2.entry now) :=
  foldl_insertDelegation_of_mem data.distinct hd hs

theorem installToCache_of_ne {data : RootZoneData}
    (h : ∀ d ∈ data.delegations, d.2.servers ≠ [] → d.1.fold ≠ key) :
    installToCache now data cache key =
      (cache key).filter fun entry => decide (entry.source ≠ .RootZone) := by
  refine foldl_insertDelegation_of_ne fun d hd => ?_
  by_cases hs : d.2.servers = []
  · exact Or.inl hs
  · exact Or.inr (h d hd hs)

/-! ## what a refresh should do -/

/-- a learned entry is under the key -/
def Learned (cache : DelegationCache) (key : ZoneKey) : Prop :=
  ∃ entry, cache key = some entry ∧ entry.source = .Dynamic

/-- learned entries are as before; the entries of a zone are those of the new one that do not
clash with a learned entry -/
structure Refreshed (now : Nat) (data : RootZoneData) (before after : DelegationCache) : Prop where
  learned : ∀ key entry, before key = some entry → entry.source = .Dynamic →
    after key = some entry
  rootZone : ∀ key entry, (after key = some entry ∧ entry.source = .RootZone) ↔
    ∃ d ∈ data.delegations, d.2.servers ≠ [] ∧ d.1.fold = key ∧ d.2.entry now = entry ∧
      ¬ Learned before key

theorem installToCache_rootZone {data : RootZoneData} {entry : DelegationEntry}
    (h : installToCache now data cache key = some entry) (hs : entry.source = .RootZone) :
    ∃ d ∈ data.delegations, d.2.servers ≠ [] ∧ d.1.fold = key ∧ d.2.entry now = entry := by
  by_contra hno
  have hkeep : installToCache now data cache key =
      (cache key).filter fun entry => decide (entry.source ≠ .RootZone) := by
    refine installToCache_of_ne fun d hd hne hk => hno ⟨d, hd, hne, hk, ?_⟩
    have hi : installToCache now data cache d.1.fold = _ := installToCache_of_mem hd hne
    rw [hk, h] at hi
    exact (Option.some.inj hi).symm
  rw [h] at hkeep
  have hkept := (Option.filter_eq_some_iff.mp hkeep.symm).2
  exact of_decide_eq_true hkept hs

theorem installToCache_refreshed {data : RootZoneData}
    (hfree : ∀ d ∈ data.delegations, d.2.servers ≠ [] → ¬ Learned cache d.1.fold) :
    Refreshed now data cache (installToCache now data cache) where
  learned := by
    intro key entry he hs
    have hkey : ∀ d ∈ data.delegations, d.2.servers ≠ [] → d.1.fold ≠ key := by
      intro d hd hne hk
      exact hfree d hd hne ⟨entry, hk ▸ he, hs⟩
    rw [installToCache_of_ne hkey, he]
    exact Option.filter_eq_some_iff.mpr ⟨rfl, by rw [hs]; decide⟩
  rootZone := by
    intro key entry
    constructor
    · rintro ⟨he, hs⟩
      obtain ⟨d, hd, hne, hk, hent⟩ := installToCache_rootZone he hs
      exact ⟨d, hd, hne, hk, hent, hk ▸ hfree d hd hne⟩
    · rintro ⟨d, hd, hne, rfl, rfl, _⟩
      exact ⟨installToCache_of_mem hd hne, rfl⟩

end

/-- **A refresh leaves learned delegations alone exactly if none is in its way**: no delegation of
the new zone that has servers is under the key of a learned entry. -/
theorem installToCache_refreshed_iff (now : Nat) (data : RootZoneData) (cache : DelegationCache) :
    Refreshed now data cache (installToCache now data cache) ↔
      ∀ d ∈ data.delegations, d.2.servers ≠ [] → ¬ Learned cache d.1.fold := by
  constructor
  · rintro hr d hd hne ⟨entry, he, hs⟩
    have hnew : installToCache now data cache d.1.fold = _ := installToCache_of_mem hd hne
    have hold := hr.learned d.1.fold entry he hs
    obtain rfl := Option.some.inj (hnew.symm.trans hold)
    exact absurd hs (by rintro ⟨⟩)
  · exact installToCache_refreshed

/-! ## a learned top-level domain -/

/-- `com.` learned from a referral -/
def learnedCom : DelegationCache :=
  Function.update (fun _ => none) comName.fold (some ⟨[.V4 exampleServer], 1000, .Dynamic⟩)

/-- a zone with `com.` in it -/
def comZone : RootZoneData where
  delegations := [(comName, ⟨[.V4 comServer], 172800⟩)]
  distinct := List.pairwise_singleton _ _

/-- the refresh overwrites the learned entry -/
theorem comZone_overwrites :
    Learned learnedCom comName.fold ∧
      installToCache 500 comZone learnedCom comName.fold =
        some ⟨[.V4 comServer], 173300, .RootZone⟩ ∧
      ¬ Refreshed 500 comZone learnedCom (installToCache 500 comZone learnedCom) := by
  have hl : Learned learnedCom comName.fold := ⟨_, Function.update_self .., rfl⟩
  have hnew : installToCache 500 comZone learnedCom comName.fold =
      some ⟨[.V4 comServer], 173300, .RootZone⟩ := by decide +kernel
  refine ⟨hl, hnew, fun hr => ?_⟩
  have hold := hr.learned comName.fold _ (Function.update_self ..) rfl
  rw [hnew] at hold
  exact absurd hold (by decide +kernel)

end DnsResolver
