import DnsResolver.Engine.Response

/-!
# Lifetimes

How long a message is fresh, and what a client may conclude from the TTLs it is given.

* `le_calculateCacheTtl_iff`   the lifetime of an entry: no longer than any TTL of the message, a
                               day, and the validity of any RRSIG of `Secure` data;
* `fresh_rrsig_live`           the signatures of fresh secure data are valid;
* `servedTtl_le_iff`           the TTLs in a fresh response stay within the lifetime of the entry
                               exactly if the shown records are those with the smallest TTL.
-/

namespace DnsResolver

/-! ## minima -/

theorem le_ite_lt {a b x : UInt32} : x ≤ (if a < b then a else b) ↔ x ≤ b ∧ x ≤ a := by
  simp only [UInt32.le_iff_toNat_le, UInt32.lt_iff_toNat_lt]
  split <;> omega

theorem le_maxTtl (x : UInt32) : x ≤ 0xFFFFFFFF :=
  UInt32.le_iff_toNat_le.mpr (Nat.le_of_lt_succ x.toNat_lt)

def Message.records (msg : Message) : List Record :=
  msg.answers ++ msg.nameServers ++ msg.additionals

theorem le_foldl_ttl {x : UInt32} (records : List Record) (m : UInt32) :
    x ≤ records.foldl (fun m r => if r.ttl < m then r.ttl else m) m ↔
      x ≤ m ∧ ∀ r ∈ records, x ≤ r.ttl := by
  induction records generalizing m with
  | nil => simp
  | cons r records ih =>
    rw [List.foldl_cons, ih, le_ite_lt]
    simp only [List.forall_mem_cons, and_assoc]

theorem le_calculateMinTtl_iff {msg : Message} {r : Record} (hr : r ∈ msg.records) :
    r.ttl ≤ calculateMinTtl msg ↔ r.ttl ≤ 86400 ∧ ∀ r' ∈ msg.records, r.ttl ≤ r'.ttl := by
  obtain ⟨m, hm⟩ : ∃ m, msg.records.foldl (fun m r => if r.ttl < m then r.ttl else m)
      0xFFFFFFFF = m := ⟨_, rfl⟩
  have hdef : calculateMinTtl msg =
      if m = 0xFFFFFFFF then defaultTtl else if 86400 < m then 86400 else m := by
    rw [← hm]
    rfl
  have hfold := le_foldl_ttl (x := r.ttl) msg.records 0xFFFFFFFF
  rw [hm, and_iff_right (le_maxTtl _)] at hfold
  rw [hdef, ← hfold]
  by_cases hmax : m = 0xFFFFFFFF
  · -- every TTL is `u32::MAX`, and the lifetime falls back to the default
    have hself := ((le_foldl_ttl msg.records 0xFFFFFFFF).mp (UInt32.le_refl _)).2 r hr
    rw [hm, hmax] at hself
    rw [UInt32.le_antisymm (le_maxTtl _) hself, if_pos hmax, hmax]
    decide
  · rw [if_neg hmax]
    by_cases hday : 86400 < m
    · rw [if_pos hday]
      exact ⟨fun h => ⟨h, UInt32.le_trans h (UInt32.le_of_lt hday)⟩, fun h => h.1⟩
    · rw [if_neg hday]
      exact ⟨fun h => ⟨UInt32.le_trans h (UInt32.not_lt.mp hday), h⟩, fun h => h.2⟩

/-- what is left of the validity of the RRSIGs in `records` -/
theorem le_minRrsigValidity {now32 x least v : UInt32} {records : List Record}
    (h : minRrsigValidity now32 records least = some v) :
    x ≤ v ↔ x ≤ least ∧ ∀ r ∈ records, ∀ sig, r.data = .rrsig sig →
      x ≤ sig.sigExpiration - now32 := by
  induction records generalizing least with
  | nil =>
    obtain rfl := Option.some.inj h
    simp
  | cons r records ih =>
    rw [List.forall_mem_cons]
    simp only [minRrsigValidity] at h
    split at h
    · rename_i sig hsig
      split at h
      · rw [ih h, le_ite_lt, and_assoc]
        simp only [hsig, RData.rrsig.injEq, forall_eq']
      · exact absurd h (by simp)
    · rename_i hno
      rw [ih h]
      have hnone : (∀ sig, r.data = .rrsig sig → x ≤ sig.sigExpiration - now32) ↔ True :=
        iff_true_intro fun sig hsig => absurd hsig (hno sig)
      rw [hnone, true_and]

/-- **The lifetime of an entry.**  It is not longer than the validity of any RRSIG of secure data,
and a number within it is within every bound it is made from. -/
theorem le_calculateCacheTtl_iff {msg : Message} {status : DnssecStatus} {now : Nat} {x : UInt32}
    (hpos : 0 < calculateCacheTtl msg status now) :
    x ≤ calculateCacheTtl msg status now ↔ x ≤ calculateMinTtl msg ∧
      (status = .Secure → ∀ r ∈ msg.answers ++ msg.nameServers, ∀ sig, r.data = .rrsig sig →
        x ≤ sig.sigExpiration - UInt32.ofNat now) := by
  simp only [calculateCacheTtl] at hpos ⊢
  split
  · rename_i hs
    rw [if_pos hs] at hpos
    cases hv : minRrsigValidity (UInt32.ofNat now) (msg.answers ++ msg.nameServers) 0xFFFFFFFF with
    | none =>
      rw [hv] at hpos
      exact absurd hpos (UInt32.lt_irrefl 0)
    | some least =>
      have hle := le_minRrsigValidity (x := x) hv
      rw [and_iff_right (le_maxTtl _)] at hle
      rw [← hle, imp_iff_right hs]
      dsimp only
      by_cases hl : least = 0xFFFFFFFF
      · rw [if_neg (fun h => h.1 hl), hl, and_iff_left (le_maxTtl _)]
      · simp only [ne_eq, hl, not_false_eq_true, true_and]
        exact le_ite_lt
  · rename_i hs
    simp [hs]

/-! ## signatures of fresh data -/

theorem freshnessAt_fresh {entry : CacheEntry} {now maxStale : Nat} :
    entry.freshnessAt now maxStale = .Fresh ↔ now - entry.cachedAt < entry.minTtl.toNat := by
  simp only [CacheEntry.freshnessAt]
  split
  · rename_i h
    simp [h]
  · rename_i h
    split <;> simp [h]

/-- **Fresh secure data has live signatures.**  Whatever was valid when the entry was made is
valid as long as the entry is fresh. -/
theorem fresh_rrsig_live {msg : Message} {entry : CacheEntry} {t maxStale : Nat}
    (httl : entry.minTtl = calculateCacheTtl msg .Secure entry.cachedAt)
    (ht : entry.cachedAt ≤ t) (hfresh : entry.freshnessAt t maxStale = .Fresh) :
    ∀ r ∈ msg.answers ++ msg.nameServers, ∀ sig, r.data = .rrsig sig →
      rrsigTimeValid sig entry.cachedAt = true → rrsigTimeValid sig t = true := by
  intro r hr sig hsig hvalid
  rw [freshnessAt_fresh] at hfresh
  have hpos : 0 < calculateCacheTtl msg .Secure entry.cachedAt := by
    rw [← httl, UInt32.lt_iff_toNat_lt]
    exact Nat.zero_lt_of_lt hfresh
  have hbound := ((le_calculateCacheTtl_iff hpos).mp (UInt32.le_refl _)).2 rfl r hr sig hsig
  rw [← httl, UInt32.le_iff_toNat_le] at hbound
  exact rrsigTimeValid_later hvalid ht (le_trans (Nat.le_of_lt hfresh) hbound)

/-- an address of `w.` -/
def hourRecord (ttl : UInt32) : Record where
  name := ⟨[[119]], by decide⟩
  ttl := ttl
  data := .a ⟨#v[198, 51, 100, 9]⟩

/-- a signature over it, from 96 seconds before the clock rolls over to 1000 seconds after -/
def rolloverRrsig (ttl : UInt32) : Record where
  name := ⟨[[119]], by decide⟩
  ttl := ttl
  data := .rrsig
    { typeCovered := .A, algorithm := 8, numLabels := 1, originalTtl := 3600,
      sigExpiration := 1000, sigInception := 4294967200, keyTag := 1, signerName := .root,
      sig := [] }

def rolloverMsg (ttl ttl' : UInt32) : Message where
  messageType := .Response
  answers := [hourRecord ttl, rolloverRrsig ttl']

/-- cached ten seconds before the clock rolls over -/
def rolloverEntry (ttl ttl' : UInt32) : CacheEntry where
  rawWire := []
  minTtl := calculateCacheTtl (rolloverMsg ttl ttl') .Secure 4294967286
  cachedAt := 4294967286
  lastRevalidatedAt := 4294967286
  dnssecStatus := .Secure
  kind := .Positive

theorem rolloverEntry_live :
    (rolloverEntry 3600 3600).minTtl = 1010 ∧
      ∀ sig, (rolloverRrsig 3600).data = .rrsig sig → rrsigTimeValid sig 4294968295 = true := by
  refine ⟨by decide, fun sig hsig => ?_⟩
  obtain rfl := RData.rrsig.inj hsig
  exact @fresh_rrsig_live (rolloverMsg 3600 3600) (rolloverEntry 3600 3600) 4294968295 0 rfl
    (by decide) (by decide) (rolloverRrsig 3600) (by simp [rolloverMsg]) _ rfl (by decide)

/-! ## TTLs in responses -/

/-- the records of a message that a client is shown -/
def shownRecords (qtype : RecordType) (dnssecOk : Bool) (msg : Message) : List Record :=
  (msg.answers ++ msg.nameServers ++
    msg.additionals.filter fun r => decide (r.recordType ≠ .OPT)).filter fun r =>
      !(!dnssecOk && isDnssecRecord r.recordType && decide (r.recordType ≠ qtype))

theorem mem_records_of_shown {qtype : RecordType} {dnssecOk : Bool} {msg : Message} {r : Record}
    (h : r ∈ shownRecords qtype dnssecOk msg) : r ∈ msg.records := by
  have hm := (List.mem_filter.mp h).1
  rcases List.mem_append.mp hm with hm | hm
  · exact List.mem_append_left _ hm
  · exact List.mem_append_right _ (List.mem_filter.mp hm).1

theorem clientResponse_records (msg : Message) (qtype : RecordType) (status : DnssecStatus)
    (freshness : CacheFreshness) (cachedAt : Nat) (client : ClientView) (now : Nat) :
    (clientResponse msg qtype status freshness cachedAt client now).records =
      (shownRecords qtype client.dnssecOk msg).map fun r =>
        { r with ttl := computeTtl freshness (UInt32.ofNat (now - cachedAt)) r.ttl } := by
  simp only [Message.records, clientResponse, presentSection, shownRecords, List.filter_append,
    List.map_append]

/-- in a fresh response an aged TTL is within the rest of the lifetime if the TTL was within the
lifetime -/
theorem computeTtl_fresh_le {age : Nat} {origTtl minTtl : UInt32} (h : age < minTtl.toNat) :
    (computeTtl .Fresh (UInt32.ofNat age) origTtl).toNat ≤ minTtl.toNat - age ↔
      origTtl ≤ minTtl := by
  have hm := minTtl.toNat_lt
  have hage : (UInt32.ofNat age).toNat = age := UInt32.toNat_ofNat_of_lt' (Nat.lt_trans h hm)
  simp only [computeTtl]
  rw [UInt32.le_iff_toNat_le]
  split
  · rename_i hlt
    rw [UInt32.toNat_sub_of_le _ _ (UInt32.le_of_lt hlt), hage]
    rw [UInt32.lt_iff_toNat_lt, hage] at hlt
    omega
  · rename_i hlt
    rw [UInt32.lt_iff_toNat_lt, hage] at hlt
    show 0 ≤ _ ↔ _
    omega

/-- **TTLs of a fresh response.**  They stay within what is left of the lifetime of the entry
exactly if no shown record has a TTL above a day, above that of another record, or above the
validity of an RRSIG of secure data. -/
theorem servedTtl_le_iff {msg : Message} {status : DnssecStatus} {entry : CacheEntry}
    {qtype : RecordType} {client : ClientView} {now maxStale : Nat}
    (httl : entry.minTtl = calculateCacheTtl msg status entry.cachedAt)
    (hfresh : entry.freshnessAt now maxStale = .Fresh) :
    (∀ r ∈ (clientResponse msg qtype status .Fresh entry.cachedAt client now).records,
        r.ttl.toNat ≤ entry.minTtl.toNat - (now - entry.cachedAt)) ↔
      ∀ r ∈ shownRecords qtype client.dnssecOk msg, r.ttl ≤ 86400 ∧
        (∀ r' ∈ msg.records, r.ttl ≤ r'.ttl) ∧
        (status = .Secure → ∀ r' ∈ msg.answers ++ msg.nameServers, ∀ sig, r'.data = .rrsig sig →
          r.ttl ≤ sig.sigExpiration - UInt32.ofNat entry.cachedAt) := by
  rw [freshnessAt_fresh] at hfresh
  have hpos : 0 < calculateCacheTtl msg status entry.cachedAt := by
    rw [← httl, UInt32.lt_iff_toNat_lt]
    exact Nat.zero_lt_of_lt hfresh
  rw [clientResponse_records, List.forall_mem_map]
  refine forall₂_congr fun r hr => ?_
  rw [computeTtl_fresh_le hfresh, httl, le_calculateCacheTtl_iff hpos,
    le_calculateMinTtl_iff (mem_records_of_shown hr), and_assoc]

def plainClient : ClientView where
  reqMsg := { id := 1, queries := [{ name := ⟨[[119]], by decide⟩, queryType := .A }] }
  maxPayload := 1232
  dnssecOk := true

theorem rolloverEntry_within :
    (rolloverEntry 600 600).freshnessAt 4294967386 0 = .Fresh ∧
      ∀ r ∈ (clientResponse (rolloverMsg 600 600) .A .Secure .Fresh 4294967286 plainClient
        4294967386).records, r.ttl.toNat ≤ 500 := by
  have hfresh : (rolloverEntry 600 600).freshnessAt 4294967386 0 = .Fresh := by decide
  have hshown : ∀ r ∈ shownRecords .A true (rolloverMsg 600 600), r.ttl = 600 := by decide
  have hall : ∀ r ∈ (rolloverMsg 600 600).records, 600 ≤ r.ttl := by decide
  refine ⟨hfresh, (@servedTtl_le_iff (rolloverMsg 600 600) .Secure (rolloverEntry 600 600) .A
    plainClient 4294967386 0 rfl hfresh).mpr fun r hr => ?_⟩
  rw [hshown r hr]
  refine ⟨by decide, hall, fun _ r' hr' sig hsig => ?_⟩
  rcases List.mem_cons.mp hr' with rfl | hr'
  · exact absurd hsig (by simp [hourRecord])
  · obtain rfl := List.mem_singleton.mp hr'
    obtain rfl := RData.rrsig.inj hsig
    decide

/-- the signature is valid for 1010 seconds, and a client may keep the address for an hour -/
theorem rolloverEntry_beyond :
    (rolloverEntry 3600 3600).minTtl = 1010 ∧
      (rolloverEntry 3600 3600).freshnessAt 4294967286 0 = .Fresh ∧
      hourRecord 3600 ∈ (clientResponse (rolloverMsg 3600 3600) .A .Secure .Fresh 4294967286
        plainClient 4294967286).records ∧
      ¬ (hourRecord 3600).ttl.toNat ≤ 1010 - (4294967286 - 4294967286) := by
  refine ⟨by decide, by decide, by decide, by decide⟩

end DnsResolver
