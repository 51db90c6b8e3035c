import DnsResolver.Engine.Lifetime
import DnsResolver.Engine.Tasks

/-!
# Lifetimes of negative answers

RFC 2308 bounds the lifetime of a negative answer by the TTL of its SOA record and by the MINIMUM
field of that record.  `calculateCacheTtl` reads TTLs and signatures only.

* `calculateCacheTtl_le_iff`   when a lifetime is within a given bound;
* `negativeTtl_le_iff`         the TTL of the SOA record is always respected, the MINIMUM field
                               exactly if something else in the message is as small.
-/

namespace DnsResolver

section
variable {x : UInt32}

theorem foldl_ttl_le (records : List Record) (m : UInt32) :
    records.foldl (fun m r => if r.ttl < m then r.ttl else m) m ≤ x ↔
      m ≤ x ∨ ∃ r ∈ records, r.ttl ≤ x := by
  induction records generalizing m with
  | nil => simp
  | cons r records ih =>
    have hstep : (if r.ttl < m then r.ttl else m) ≤ x ↔ m ≤ x ∨ r.ttl ≤ x := by
      simp only [UInt32.le_iff_toNat_le, UInt32.lt_iff_toNat_lt]
      split <;> omega
    rw [List.foldl_cons, ih, hstep, or_assoc]
    simp only [List.mem_cons, exists_eq_or_imp]

theorem maxTtl_le {t : UInt32} : 0xFFFFFFFF ≤ t ↔ t = 0xFFFFFFFF :=
  ⟨fun h => UInt32.le_antisymm (le_maxTtl t) h, fun h => h ▸ UInt32.le_refl _⟩

/-- the default takes effect when there is no TTL below `u32::MAX`, the cap of a day otherwise -/
theorem calculateMinTtl_le_iff {msg : Message} :
    calculateMinTtl msg ≤ x ↔ (∃ r ∈ msg.records, r.ttl ≤ x) ∨ 86400 ≤ x ∨
      ((∀ r ∈ msg.records, r.ttl = 0xFFFFFFFF) ∧ defaultTtl ≤ x) := by
  obtain ⟨m, hm⟩ : ∃ m, msg.records.foldl (fun m r => if r.ttl < m then r.ttl else m)
      0xFFFFFFFF = m := ⟨_, rfl⟩
  have hdef : calculateMinTtl msg =
      if m = 0xFFFFFFFF then defaultTtl else if 86400 < m then 86400 else m := by
    rw [← hm]
    rfl
  have hle : m ≤ x ↔ 0xFFFFFFFF ≤ x ∨ ∃ r ∈ msg.records, r.ttl ≤ x := by
    rw [← hm]
    exact foldl_ttl_le msg.records 0xFFFFFFFF
  have hmax : m = 0xFFFFFFFF ↔ ∀ r ∈ msg.records, r.ttl = 0xFFFFFFFF := by
    rw [← maxTtl_le, ← hm, le_foldl_ttl, and_iff_right (UInt32.le_refl _)]
    simp only [maxTtl_le]
  rw [hdef, ← hmax]
  by_cases h : m = 0xFFFFFFFF
  · rw [if_pos h, and_iff_right h]
    refine ⟨fun hx => Or.inr (Or.inr hx), ?_⟩
    rintro (hr | hx | hx)
    · exact UInt32.le_trans (by decide) (h ▸ hle.mpr (Or.inr hr))
    · exact UInt32.le_trans (by decide) hx
    · exact hx
  · rw [if_neg h]
    have hno : ¬ (m = 0xFFFFFFFF ∧ defaultTtl ≤ x) := fun hd => h hd.1
    rw [or_iff_left hno]
    by_cases hday : 86400 < m
    · rw [if_pos hday]
      refine ⟨Or.inr, fun hx => hx.elim (fun hr => ?_) id⟩
      exact UInt32.le_trans (UInt32.le_of_lt hday) (hle.mpr (Or.inr hr))
    · rw [if_neg hday, hle]
      constructor
      · rintro (hx | hr)
        · exact Or.inr (UInt32.le_trans (by decide) hx)
        · exact Or.inl hr
      · rintro (hr | hx)
        · exact Or.inr hr
        · exact hle.mp (UInt32.le_trans (UInt32.not_lt.mp hday) hx)

/-- a signature with no validity left, in the serial arithmetic of its 32-bit clock -/
def rrsigExpired (now32 : UInt32) (sig : Rrsig) : Bool :=
  !(decide (0 < sig.sigExpiration - now32) && decide (sig.sigExpiration - now32 < 0x80000000))

/-- a signature in `records` that has expired, or that has not longer than `x` to go -/
def RrsigWithin (now32 x : UInt32) (records : List Record) : Prop :=
  ∃ r ∈ records, ∃ sig, r.data = .rrsig sig ∧
    (rrsigExpired now32 sig = true ∨ sig.sigExpiration - now32 ≤ x)

theorem minRrsigValidity_none {now32 least : UInt32} {records : List Record}
    (h : minRrsigValidity now32 records least = none) : RrsigWithin now32 x records := by
  induction records generalizing least with
  | nil => exact absurd h (by simp [minRrsigValidity])
  | cons r records ih =>
    have hrec : RrsigWithin now32 x records → RrsigWithin now32 x (r :: records) := by
      intro hw
      obtain ⟨r', hr', hsig⟩ := hw
      exact ⟨r', List.mem_cons_of_mem _ hr', hsig⟩
    simp only [minRrsigValidity] at h
    split at h
    · rename_i sig hsig
      split at h
      · exact hrec (ih h)
      · rename_i hexp
        refine ⟨r, List.mem_cons_self, sig, hsig, Or.inl ?_⟩
        rw [rrsigExpired, Bool.not_eq_true', ← Bool.not_eq_true, Bool.and_eq_true,
          decide_eq_true_eq, decide_eq_true_eq]
        exact hexp
    · exact hrec (ih h)

theorem minRrsigValidity_le {now32 least v : UInt32} {records : List Record}
    (h : minRrsigValidity now32 records least = some v) :
    v ≤ x ↔ least ≤ x ∨ RrsigWithin now32 x records := by
  induction records generalizing least with
  | nil =>
    obtain rfl := Option.some.inj h
    simp [RrsigWithin]
  | cons r records ih =>
    have hcons : RrsigWithin now32 x (r :: records) ↔ (∃ sig, r.data = .rrsig sig ∧
        (rrsigExpired now32 sig = true ∨ sig.sigExpiration - now32 ≤ x)) ∨
          RrsigWithin now32 x records := by
      simp only [RrsigWithin, List.mem_cons, exists_eq_or_imp]
    rw [hcons]
    simp only [minRrsigValidity] at h
    split at h
    · rename_i sig hsig
      split at h
      · rename_i hlive
        have hexp : rrsigExpired now32 sig = false := by simp [rrsigExpired, hlive.1, hlive.2]
        have hstep : (if sig.sigExpiration - now32 < least then sig.sigExpiration - now32
            else least) ≤ x ↔ least ≤ x ∨ sig.sigExpiration - now32 ≤ x := by
          simp only [UInt32.le_iff_toNat_le, UInt32.lt_iff_toNat_lt]
          split <;> omega
        rw [ih h, hstep, or_assoc]
        simp [hsig, hexp]
      · exact absurd h (by simp)
    · rename_i hno
      rw [ih h]
      have hnone : ¬ ∃ sig, r.data = .rrsig sig ∧
          (rrsigExpired now32 sig = true ∨ sig.sigExpiration - now32 ≤ x) := by
        intro hex
        obtain ⟨sig, hsig, _⟩ := hex
        exact hno sig hsig
      rw [or_iff_right hnone]

/-- when a lifetime is within `x` -/
theorem calculateCacheTtl_le_iff {msg : Message} {status : DnssecStatus} {now : Nat} :
    calculateCacheTtl msg status now ≤ x ↔ calculateMinTtl msg ≤ x ∨
      (status = .Secure ∧
        RrsigWithin (UInt32.ofNat now) x (msg.answers ++ msg.nameServers)) := by
  simp only [calculateCacheTtl]
  by_cases hs : status = .Secure
  · rw [if_pos hs, and_iff_right hs]
    cases hv : minRrsigValidity (UInt32.ofNat now) (msg.answers ++ msg.nameServers) 0xFFFFFFFF with
    | none =>
      have hzero : (0 : UInt32) ≤ x := UInt32.le_iff_toNat_le.mpr (Nat.zero_le _)
      exact iff_of_true hzero (Or.inr (minRrsigValidity_none hv))
    | some least =>
      have hle := minRrsigValidity_le (x := x) hv
      dsimp only
      by_cases hleast : least ≠ 0xFFFFFFFF ∧ least < calculateMinTtl msg
      · rw [if_pos hleast, hle]
        constructor
        · rintro (hx | hsig)
          · exact Or.inl (UInt32.le_trans (le_maxTtl _) hx)
          · exact Or.inr hsig
        · rintro (hx | hsig)
          · exact hle.mp (UInt32.le_trans (UInt32.le_of_lt hleast.2) hx)
          · exact Or.inr hsig
      · rw [if_neg hleast]
        refine ⟨Or.inl, fun hx => hx.elim id fun hsig => ?_⟩
        have hlx : least ≤ x := hle.mpr (Or.inr hsig)
        by_cases hmax : least = 0xFFFFFFFF
        · exact UInt32.le_trans (le_maxTtl _) (hmax ▸ hlx)
        · have hge : ¬ least < calculateMinTtl msg := fun hlt => hleast ⟨hmax, hlt⟩
          exact UInt32.le_trans (UInt32.not_lt.mp hge) hlx
  · rw [if_neg hs, or_iff_left (fun h => hs h.1)]

/-- no record outlives its entry -/
theorem calculateCacheTtl_le_ttl {msg : Message} {status : DnssecStatus} {now : Nat} {r : Record}
    (hr : r ∈ msg.records) : calculateCacheTtl msg status now ≤ r.ttl :=
  calculateCacheTtl_le_iff.mpr
    (Or.inl (calculateMinTtl_le_iff.mpr (Or.inl ⟨r, hr, UInt32.le_refl _⟩)))

theorem newEntry_lifetime {srv : Server} {msg : Message} {status : DnssecStatus} {now : Nat}
    {entry : CacheEntry} (h : newEntry srv msg status now = some entry) :
    entry.kind = entryKind msg ∧ entry.minTtl = calculateCacheTtl msg status now := by
  unfold newEntry at h
  split at h
  · exact absurd h (by simp)
  · dsimp only at h
    split at h
    · rw [← Option.some.inj h]
      exact ⟨rfl, rfl⟩
    · exact absurd h (by simp)

end

/-! ## negative answers -/

/-- what keeps the lifetime of a message within `minimum` -/
def BoundedWithin (msg : Message) (status : DnssecStatus) (now : Nat) (minimum : UInt32) : Prop :=
  (∃ r ∈ msg.records, r.ttl ≤ minimum) ∨ 86400 ≤ minimum ∨
    ((∀ r ∈ msg.records, r.ttl = 0xFFFFFFFF) ∧ defaultTtl ≤ minimum) ∨
    (status = .Secure ∧
      RrsigWithin (UInt32.ofNat now) minimum (msg.answers ++ msg.nameServers))

/-- **The SOA minimum.**  A negative message with an SOA record in its authority section is stored
as a negative entry for the lifetime `calculateCacheTtl` gives.  That is within the TTL of the SOA
record and its MINIMUM field exactly if a TTL of the message, the cap of a day, the default or a
signature is within MINIMUM: the field itself is not read. -/
theorem negativeTtl_le_iff {msg : Message} {status : DnssecStatus} {now : Nat}
    (hneg : entryKind msg = .Negative) :
    (∀ r ∈ msg.nameServers, ∀ soa, r.data = .soa soa →
      ((calculateCacheTtl msg status now ≤ r.ttl ∧
        calculateCacheTtl msg status now ≤ soa.minimum) ↔
          BoundedWithin msg status now soa.minimum)) ∧
      ∀ srv entry, newEntry srv msg status now = some entry →
        entry.kind = .Negative ∧ entry.minTtl = calculateCacheTtl msg status now := by
  refine ⟨fun r hr soa _ => ?_, fun srv entry h => ?_⟩
  · have hmem : r ∈ msg.records := List.mem_append_left _ (List.mem_append_right _ hr)
    rw [and_iff_right (calculateCacheTtl_le_ttl hmem), calculateCacheTtl_le_iff,
      calculateMinTtl_le_iff]
    simp only [BoundedWithin, or_assoc]
  · obtain ⟨hkind, httl⟩ := newEntry_lifetime h
    exact ⟨hkind.trans hneg, httl⟩

/-- the SOA record of `w.` -/
def minimumSoa (ttl minimum : UInt32) : Record where
  name := (hourRecord 0).name
  ttl := ttl
  data := .soa
    { mname := .root, rname := .root, serial := 1, refresh := 7200, retry := 3600,
      expire := 1209600, minimum := minimum }

/-- no data at `w.` -/
def noDataMsg (ttl minimum : UInt32) : Message where
  messageType := .Response
  nameServers := [minimumSoa ttl minimum]

theorem noDataMsg_within :
    calculateCacheTtl (noDataMsg 60 300) .InsecureUnsigned 1000 ≤ 60 ∧
      calculateCacheTtl (noDataMsg 60 300) .InsecureUnsigned 1000 ≤ 300 := by
  have hneg : entryKind (noDataMsg 60 300) = .Negative := by decide
  have hmem : minimumSoa 60 300 ∈ (noDataMsg 60 300).nameServers := List.mem_singleton.mpr rfl
  refine ((negativeTtl_le_iff hneg).1 (minimumSoa 60 300) hmem _ rfl).mpr ?_
  exact Or.inl ⟨minimumSoa 60 300, by decide, by decide⟩

/-- a TTL of an hour and a MINIMUM of a minute: the entry lives for an hour -/
theorem noDataMsg_not_within :
    entryKind (noDataMsg 3600 60) = .Negative ∧
      calculateCacheTtl (noDataMsg 3600 60) .InsecureUnsigned 1000 = 3600 ∧
      ¬ calculateCacheTtl (noDataMsg 3600 60) .InsecureUnsigned 1000 ≤ 60 := by
  decide

end DnsResolver
