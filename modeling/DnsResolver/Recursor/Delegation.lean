import DnsResolver.Data.Record

/-!
# Delegations (`delegation.rs`)

* `findCachedStart`    the closest enclosing zone with a live entry;
* `purgeDelegation`    the entry of the closest enclosing zone is removed, live or not;
* `Removes`            one entry is gone and the others are as they were.
-/

namespace DnsResolver

def minDelegationTtl : Nat := 300
def maxDelegationTtl : Nat := 172800

inductive DelegationSource where
  | Dynamic
  | RootZone
  deriving DecidableEq

structure DelegationEntry where
  servers : List IpAddr
  expiresAt : Nat
  source : DelegationSource
  deriving DecidableEq

abbrev DelegationCache := ZoneKey → Option DelegationEntry

/-- `delegation_ttl` -/
def delegationTtl (msg : Message) : Nat :=
  let minTtl := (msg.nameServers ++ msg.additionals).foldl
    (fun m r => if r.ttl < m then r.ttl else m) 0xFFFFFFFF
  if minTtl = 0xFFFFFFFF then minDelegationTtl else min minTtl.toNat maxDelegationTtl

/-- where the search for a delegation begins: DS is a matter of the parent -/
def delegationSearch (name : Name) (rtype : RecordType) : Name :=
  if rtype = .DS then name.baseName else name

/-- `find_cached_start`: the closest enclosing zone with a live entry, and that entry; the source
returns only its servers -/
def findCachedStart (cache : DelegationCache) (now : Nat) (name : Name) (rtype : RecordType) :
    Option (Name × DelegationEntry) :=
  (delegationSearch name rtype).ancestors.findSome? fun current =>
    match cache current.fold with
    | some entry => if now < entry.expiresAt then some (current, entry) else none
    | none => none

/-- `purge_delegation` -/
def purgeDelegation (cache : DelegationCache) (name : Name) (rtype : RecordType) :
    DelegationCache :=
  match (delegationSearch name rtype).ancestors.find? fun current => (cache current.fold).isSome with
  | some current => Function.update cache current.fold none
  | none => cache

section
variable {cache : DelegationCache} {name : Name} {rtype : RecordType}

theorem delegationSearch_zoneOf (name : Name) (rtype : RecordType) :
    (delegationSearch name rtype).zoneOf name = true := by
  unfold delegationSearch
  split
  · exact Name.zoneOf_baseName name
  · exact Name.zoneOf_refl name

theorem findCachedStart_search {now : Nat} {zone : Name} {entry : DelegationEntry}
    (h : findCachedStart cache now name rtype = some (zone, entry)) :
    zone.zoneOf (delegationSearch name rtype) = true ∧ cache zone.fold = some entry ∧
      now < entry.expiresAt := by
  obtain ⟨current, hmem, hc⟩ := List.exists_of_findSome?_eq_some h
  have hzone := Name.zoneOf_of_mem_ancestors hmem
  cases he : cache current.fold with
  | none => simp [he] at hc
  | some entry' =>
    rw [he] at hc
    by_cases hlive : now < entry'.expiresAt
    · simp only [hlive, if_true, Option.some.injEq, Prod.mk.injEq] at hc
      obtain ⟨rfl, rfl⟩ := hc
      exact ⟨hzone, he, hlive⟩
    · simp [hlive] at hc

theorem findCachedStart_spec {now : Nat} {zone : Name} {entry : DelegationEntry}
    (h : findCachedStart cache now name rtype = some (zone, entry)) :
    zone.zoneOf name = true ∧ cache zone.fold = some entry ∧ now < entry.expiresAt := by
  obtain ⟨hzone, hrest⟩ := findCachedStart_search h
  exact ⟨Name.zoneOf_trans hzone (delegationSearch_zoneOf name rtype), hrest⟩

theorem purgeDelegation_le {key : ZoneKey} {entry : DelegationEntry}
    (h : purgeDelegation cache name rtype key = some entry) : cache key = some entry := by
  unfold purgeDelegation at h
  cases hf : (delegationSearch name rtype).ancestors.find? fun current =>
      (cache current.fold).isSome with
  | none =>
    rw [hf] at h
    exact h
  | some current =>
    rw [hf] at h
    by_cases hk : key = current.fold
    · rw [hk] at h
      simp at h
    · simpa only [Function.update_of_ne hk] using h

/-! ## what a purge after a failed cached start removes -/

/-- `cache'` is `cache` without its entry under `key` -/
def Removes (cache cache' : DelegationCache) (key : ZoneKey) : Prop :=
  cache key ≠ none ∧ cache' key = none ∧ ∀ other, other ≠ key → cache' other = cache other

theorem purgeDelegation_removes {zone : Name} {closer above : List Name}
    (hsplit : (delegationSearch name rtype).ancestors = closer ++ zone :: above)
    (hnone : ∀ current ∈ closer, cache current.fold = none) (hentry : cache zone.fold ≠ none) :
    Removes cache (purgeDelegation cache name rtype) zone.fold := by
  have hfind : ((delegationSearch name rtype).ancestors.find? fun current =>
      (cache current.fold).isSome) = some zone := by
    rw [List.find?_eq_some_iff_append]
    refine ⟨Option.isSome_iff_ne_none.mpr hentry, closer, above, hsplit, fun current hc => ?_⟩
    rw [hnone current hc]
    rfl
  unfold purgeDelegation
  rw [hfind]
  exact ⟨hentry, Function.update_self .., fun other ho => Function.update_of_ne ho _ _⟩

/-- the entry of a closer zone goes in the place of that of `zone` -/
theorem purgeDelegation_closer {zone : Name} {closer above : List Name}
    (hsplit : (delegationSearch name rtype).ancestors = closer ++ zone :: above)
    {current : Name} (hmem : current ∈ closer) (hcur : cache current.fold ≠ none) :
    purgeDelegation cache name rtype zone.fold = cache zone.fold := by
  obtain ⟨first, hfirst⟩ : ∃ first, (closer.find? fun c => (cache c.fold).isSome) = some first := by
    rw [← Option.isSome_iff_exists, List.find?_isSome]
    exact ⟨current, hmem, Option.isSome_iff_ne_none.mpr hcur⟩
  have hfind : ((delegationSearch name rtype).ancestors.find? fun c => (cache c.fold).isSome) =
      some first := by
    rw [hsplit, List.find?_append, hfirst]
    rfl
  have hne : zone.fold ≠ first.fold := by
    intro he
    have hpair := Name.ancestors_pairwise (delegationSearch name rtype)
    rw [hsplit, List.pairwise_append] at hpair
    have hz := (hpair.2.2 first (List.mem_of_find?_eq_some hfirst) zone List.mem_cons_self).2
    rw [Name.zoneOf_of_nameEq (Name.nameEq_iff.mpr he.symm)] at hz
    exact Bool.noConfusion hz
  unfold purgeDelegation
  rw [hfind]
  exact Function.update_of_ne hne _ _

/-- **What a purge removes.**  After a cached start from `zone`, a purge removes the entry of
`zone` and nothing else exactly when no closer zone on the search path has an entry, which would be
an expired one. -/
theorem purgeDelegation_removes_iff {now : Nat} {zone : Name} {entry : DelegationEntry}
    (h : findCachedStart cache now name rtype = some (zone, entry)) :
    Removes cache (purgeDelegation cache name rtype) zone.fold ↔
      ∀ current ∈ (delegationSearch name rtype).ancestors, current.zoneOf zone = false →
        cache current.fold = none := by
  obtain ⟨-, hentry, -⟩ := findCachedStart_spec h
  have hsome : cache zone.fold ≠ none := by simp [hentry]
  obtain ⟨closer, current, above, hsplit, hcur, -⟩ := List.findSome?_eq_some_iff.mp h
  have hz : current = zone := by
    split at hcur
    · split at hcur
      · exact (Prod.mk.inj (Option.some.inj hcur)).1
      · exact absurd hcur (by simp)
    · exact absurd hcur (by simp)
  subst hz
  have hpair := Name.ancestors_pairwise (delegationSearch name rtype)
  rw [hsplit, List.pairwise_append, List.pairwise_cons] at hpair
  obtain ⟨-, ⟨habove, -⟩, hbelow⟩ := hpair
  constructor
  · intro hrem c hc hzone
    by_contra hne
    rw [hsplit] at hc
    rcases List.mem_append.mp hc with hc | hc
    · have hkept := purgeDelegation_closer hsplit hc hne
      exact hsome (hkept.symm.trans hrem.2.1)
    · rcases List.mem_cons.mp hc with rfl | hc
      · rw [Name.zoneOf_refl] at hzone
        exact Bool.noConfusion hzone
      · rw [(habove c hc).1] at hzone
        exact Bool.noConfusion hzone
  · intro hnone
    refine purgeDelegation_removes hsplit (fun c hc => hnone c ?_ ?_) hsome
    · rw [hsplit]
      exact List.mem_append_left _ hc
    · exact (hbelow c hc current List.mem_cons_self).2

end

/-! ## an expired entry below a live one -/

/-- `a.b.` -/
def lowerZone : Name := ⟨[[97], [98]], by decide⟩

def upperZone : Name := lowerZone.baseName

def upperEntry : DelegationEntry where
  servers := [.V4 ⟨#v[192, 12, 94, 30]⟩]
  expiresAt := 1000
  source := .Dynamic

/-- a live entry of `b.`, and one of `a.b.` that runs to `lowerExpires` if there is one -/
def upperCache (lowerExpires : Option Nat) : DelegationCache := fun key =>
  if key = upperZone.fold then some upperEntry
  else if key = lowerZone.fold then
    lowerExpires.map fun expires => { upperEntry with expiresAt := expires }
  else none

theorem upperCache_removes :
    findCachedStart (upperCache none) 500 lowerZone .A = some (upperZone, upperEntry) ∧
      Removes (upperCache none) (purgeDelegation (upperCache none) lowerZone .A)
        upperZone.fold := by
  have hstart : findCachedStart (upperCache none) 500 lowerZone .A =
      some (upperZone, upperEntry) := by decide
  refine ⟨hstart, (purgeDelegation_removes_iff hstart).mpr ?_⟩
  decide

/-- the servers of `b.` fail, and the expired entry of `a.b.` is purged -/
theorem upperCache_not_removes :
    findCachedStart (upperCache (some 400)) 500 lowerZone .A = some (upperZone, upperEntry) ∧
      purgeDelegation (upperCache (some 400)) lowerZone .A upperZone.fold = some upperEntry ∧
      purgeDelegation (upperCache (some 400)) lowerZone .A lowerZone.fold = none ∧
      ¬ Removes (upperCache (some 400)) (purgeDelegation (upperCache (some 400)) lowerZone .A)
        upperZone.fold := by
  have hkept : purgeDelegation (upperCache (some 400)) lowerZone .A upperZone.fold =
      some upperEntry := by decide
  refine ⟨by decide, hkept, by decide, fun h => ?_⟩
  rw [h.2.1] at hkept
  exact absurd hkept (by simp)

end DnsResolver
