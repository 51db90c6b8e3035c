import DnsResolver.Dnssec.Unsigned

/-!
# How long cached zone keys are trusted

An entry of the key cache lives as long as the TTLs of the DS and DNSKEY responses say.  The
RRSIGs that authenticated them have a time window of their own, which the insertion does not look
at.

* `WalkRound`, `zoneRounds`     the rounds of `build_trust_chain` in a sequence of calls;
* `WalkRound.Inserts`           a round that fetched keys and cached them;
* `zoneRun_inserted`            every entry of the cache was inserted by a round of the run;
* `zoneRun_keys_live_iff`       the signatures behind the inserted keys stay valid exactly if every
                                one of them expires after the entry does.
-/

namespace DnsResolver
open Trace

/-! ## rounds -/

/-- one round of the loop: the name, what the loop brought along and the state before -/
structure WalkRound where
  zone : Name
  parentKeys : Option (List Dnskey)
  lastTtl : UInt32
  before : State

def WalkRound.after (env : Env) (r : WalkRound) : State :=
  (zoneStep env r.zone r.parentKeys r.lastTtl r.before).2

def walkRounds (env : Env) : List Name → Option (List Dnskey) → UInt32 → State → List WalkRound
  | [], _, _, _ => []
  | zone :: rest, keys, ttl, st =>
    ⟨zone, keys, ttl, st⟩ ::
      match zoneStep env zone keys ttl st with
      | (.done _, _) => []
      | (.go keys ttl, st) => walkRounds env rest keys ttl st

def zoneCallRounds (env : Env) (call : ZoneCall) (st : State) : List WalkRound :=
  match call with
  | .buildTrustChain targetZone => walkRounds env targetZone.ancestors.reverse none 300 st
  | .isZoneSigned name =>
    match signedLookup env name name.ancestors st with
    | (some _, _) => []
    | (none, st) =>
      let (apex, st) := findZoneApex env name st
      let zone := apex.getD (if name.isRoot then .root else name.baseName)
      walkRounds env zone.ancestors.reverse none 300 st

/-- the rounds of a sequence of calls -/
def zoneRounds (env : Env) : List (ZoneCall × ValidationBudget) → State → List WalkRound
  | [], _ => []
  | (call, budget) :: calls, st =>
    zoneCallRounds env call { st with budget := budget } ++
      zoneRounds env calls (zoneCall env call { st with budget := budget }).2

/-- `effective_ttl` -/
def keyLifetime (zone : Name) (parentDsTtl : UInt32) (dnskeyMsg : Message) : UInt32 :=
  if zone.isRoot then calculateMinTtl dnskeyMsg
  else if parentDsTtl < calculateMinTtl dnskeyMsg then parentDsTtl else calculateMinTtl dnskeyMsg

/-- the round fetched the keys of its zone with the response `msg`, after a DS response with the
TTL `dsTtl`, and cached them at the time `t₀` -/
def WalkRound.Inserts (env : Env) (r : WalkRound) (t₀ : Nat) (dsTtl : UInt32) (msg : Message)
    (entry : CachedZoneKeys) : Prop :=
  ∃ st₁ st₂ anchors, cachedKeys env r.zone r.before = (none, st₁) ∧
    trustedDs env r.zone r.parentKeys st₁ = (.anchors anchors dsTtl, st₂) ∧
    env.resolve st₂.tick r.zone .DNSKEY = .ok msg ∧
    zoneKeys env r.zone anchors dsTtl st₂ =
      (some (entry.keys, keyLifetime r.zone dsTtl msg), r.after env) ∧
    (∃ tick, (r.after env).tick = tick + 1 ∧ env.nowSecs tick = t₀) ∧
    entry.expiresAt = t₀ + (keyLifetime r.zone dsTtl msg).toNat

/-- `verify_rrsig` returned true for `sig` in the round -/
def WalkRound.Verified (env : Env) (r : WalkRound) (sig : Rrsig) : Prop :=
  ∃ key rec records, Added r.before.log (r.after env).log (.sigCheck sig key rec records true)

section
variable {env : Env} {zone : Name} {st st' : State}

theorem calculateMinTtl_le (msg : Message) : (calculateMinTtl msg).toNat ≤ 86400 := by
  have h : calculateMinTtl msg ≤ 86400 := by
    simp only [calculateMinTtl]
    split
    · decide
    · split
      · exact UInt32.le_refl _
      · rename_i hle
        exact UInt32.not_lt.mp hle
  exact UInt32.le_iff_toNat_le.mp h

theorem keyLifetime_le (zone : Name) (dsTtl : UInt32) (msg : Message) :
    (keyLifetime zone dsTtl msg).toNat ≤ 86400 := by
  have hmin := calculateMinTtl_le msg
  simp only [keyLifetime]
  split
  · exact hmin
  · split
    · rename_i hlt
      have := UInt32.lt_iff_toNat_lt.mp hlt
      omega
    · exact hmin

theorem dnskeyResponse_some {anchors : List Anchor} {dsTtl ttl : UInt32} {msg : Message}
    {keys : List Dnskey}
    (h : dnskeyResponse env zone anchors dsTtl msg st = (some (keys, ttl), st')) :
    ttl = keyLifetime zone dsTtl msg ∧ ∃ st₁ rec sig key,
      rrsigLoop env .DNSKEY (msg.answers.filter (Record.isRrsigOver zone .DNSKEY))
        (matchedKeys env.crypto zone anchors (dnskeysAt zone msg.answers))
        (msg.answers.filter (Record.isAt zone .DNSKEY)) st = (.hit (rec, sig, key), st₁) ∧
      st' = st₁.setKeys env zone keys ttl := by
  cases dnskeyResponse_end h with
  | @keys x st₁ _ _ hl _ httl =>
    obtain ⟨rec, sig, key⟩ := x
    exact ⟨httl, st₁, rec, sig, key, hl, rfl⟩

theorem zoneKeys_some {anchors : List Anchor} {dsTtl ttl : UInt32} {keys : List Dnskey}
    (h : zoneKeys env zone anchors dsTtl st = (some (keys, ttl), st')) :
    ∃ msg, env.resolve st.tick zone .DNSKEY = .ok msg ∧
      dnskeyResponse env zone anchors dsTtl msg (st.next.push (.dnskeyLookup zone anchors msg)) =
        (some (keys, ttl), st') := by
  cases zoneKeys_end h with
  | response hres hresp => exact ⟨_, hres, hresp⟩

theorem trustedDs_keyTrustCache {keys : Option (List Dnskey)} {o : DsOutcome}
    (h : trustedDs env zone keys st = (o, st')) : st'.keyTrustCache = st.keyTrustCache := by
  rcases trustedDs_round h with ⟨_, rfl, _⟩ | ⟨_, _, rfl, _⟩ | ⟨_, ks, _, hround⟩
  · rfl
  · rfl
  · cases hround with
    | bogus hs => exact hs.keyTrustCache
    | unsigned _ hk _ _ => exact hk
    | skip hs _ => exact hs.keyTrustCache
    | anchors hs _ => exact hs.keyTrustCache

theorem WalkRound.cache (env : Env) (r : WalkRound) :
    (r.after env).keyTrustCache = r.before.keyTrustCache ∨
      ∃ t₀ dsTtl msg entry, r.Inserts env t₀ dsTtl msg entry ∧
        (r.after env).keyTrustCache =
          Function.update r.before.keyTrustCache (env.zoneKey r.zone) (some entry) := by
  cases hstep : zoneStep env r.zone r.parentKeys r.lastTtl r.before with
  | mk o st' =>
    have hafter : r.after env = st' := congrArg Prod.snd hstep
    rw [hafter]
    cases zoneStep_end hstep with
    | cached hc => exact Or.inl (cachedKeys_cases hc).1.keyTrustCache
    | ret hc hd =>
      exact Or.inl ((trustedDs_keyTrustCache hd).trans (cachedKeys_cases hc).1.keyTrustCache)
    | skip hc hd =>
      exact Or.inl ((trustedDs_keyTrustCache hd).trans (cachedKeys_cases hc).1.keyTrustCache)
    | noKeys hc hd hz =>
      have hs₂ := (trustedDs_keyTrustCache hd).trans (cachedKeys_cases hc).1.keyTrustCache
      cases zoneKeys_round hz with
      | bogus hs₃ => exact Or.inl (hs₃.keyTrustCache.trans hs₂)
    | @keys anchors dsTtl _ keys st₁ st₂ _ hc hd hz =>
      have hs₂ := (trustedDs_keyTrustCache hd).trans (cachedKeys_cases hc).1.keyTrustCache
      obtain ⟨msg, hmsg, hresp⟩ := zoneKeys_some hz
      obtain ⟨rfl, st₄, rec, sig, key, hloop, rfl⟩ := dnskeyResponse_some hresp
      have hkeep := responseLoop_sigOnly hloop
      refine Or.inr ⟨_, dsTtl, msg, ⟨keys, _⟩, ⟨st₁, st₂, anchors, hc, hd, hmsg, ?_,
        ⟨st₄.tick, ?_, rfl⟩, rfl⟩, ?_⟩
      · rw [hz, hafter]
      · rw [hafter]
        rfl
      · show Function.update st₄.keyTrustCache _ _ = _
        rw [hkeep.keyTrustCache]
        exact congrArg (fun c => Function.update c (env.zoneKey r.zone) _) hs₂

theorem WalkRound.Inserts.verified {r : WalkRound} {t₀ : Nat} {dsTtl : UInt32} {msg : Message}
    {entry : CachedZoneKeys} (h : r.Inserts env t₀ dsTtl msg entry) :
    ∃ rec ∈ msg.answers, ∃ sig, rec.data = .rrsig sig ∧ r.Verified env sig := by
  obtain ⟨st₁, st₂, anchors, hc, hd, hmsg, hz, _, _⟩ := h
  obtain ⟨msg', hmsg', hresp⟩ := zoneKeys_some hz
  obtain rfl := Except.ok.inj (hmsg'.symm.trans hmsg)
  obtain ⟨_, st₄, rec, sig, key, hloop, hafter⟩ := dnskeyResponse_some hresp
  obtain ⟨hmem, hdata, _, _, _, hadd, _⟩ := rrsigLoop_hit hloop
  refine ⟨rec, (List.mem_filter.mp hmem).1, sig, hdata, key, rec,
    msg'.answers.filter (Record.isAt r.zone .DNSKEY), ?_⟩
  have hgrew : Grew (fun _ => True) r.before.log st₂.log := by
    have hds : Grew (fun _ => True) st₁.log st₂.log :=
      (trustedDs_anchors hd).1.log.mono fun _ _ => trivial
    exact ((cachedKeys_cases hc).1.log.mono fun _ _ => trivial).trans hds
  rw [hafter]
  exact (hadd.after (Grew.push (P := fun _ => True) trivial)).after hgrew

end

/-! ## every sequence of calls -/

section
variable {env : Env}

/-- what the cache holds after a walk was there before or was inserted on the way -/
theorem walkPath_inserted (path : List Name) {keys : Option (List Dnskey)} {ttl : UInt32}
    {st : State} {k : ZoneKey} {entry : CachedZoneKeys}
    (h : (walkPath env path keys ttl st).2.keyTrustCache k = some entry) :
    st.keyTrustCache k = some entry ∨ ∃ r ∈ walkRounds env path keys ttl st,
      env.zoneKey r.zone = k ∧ ∃ t₀ dsTtl msg, r.Inserts env t₀ dsTtl msg entry := by
  induction path generalizing keys ttl st with
  | nil => cases keys <;> exact Or.inl h
  | cons zone rest ih =>
    have hhead : ∀ s, (zoneStep env zone keys ttl st).2 = s → s.keyTrustCache k = some entry →
        st.keyTrustCache k = some entry ∨ (env.zoneKey (⟨zone, keys, ttl, st⟩ : WalkRound).zone = k ∧
          ∃ t₀ dsTtl msg, WalkRound.Inserts env ⟨zone, keys, ttl, st⟩ t₀ dsTtl msg entry) := by
      intro s hs he
      subst hs
      rcases WalkRound.cache env ⟨zone, keys, ttl, st⟩ with hsame | ⟨t₀, dsTtl, msg, e, hins, hupd⟩
      · exact Or.inl (by rw [← he]; exact congrFun hsame.symm k)
      · have he' := (congrFun hupd k).symm.trans he
        by_cases hk : k = env.zoneKey zone
        · subst hk
          rw [Function.update_self] at he'
          obtain rfl := Option.some.inj he'
          exact Or.inr ⟨rfl, t₀, dsTtl, msg, hins⟩
        · rw [Function.update_of_ne hk] at he'
          exact Or.inl he'
    cases hz : zoneStep env zone keys ttl st with
    | mk o s =>
      rw [hz] at hhead
      simp only [walkRounds, hz]
      cases o with
      | done res =>
        simp only [walkPath, hz] at h
        rcases hhead s rfl h with hold | hins
        · exact Or.inl hold
        · exact Or.inr ⟨_, List.mem_cons_self .., hins⟩
      | go keys' ttl' =>
        simp only [walkPath, hz] at h
        rcases ih h with hold | ⟨r, hr, hins⟩
        · rcases hhead s rfl hold with hold | hins
          · exact Or.inl hold
          · exact Or.inr ⟨_, List.mem_cons_self .., hins⟩
        · exact Or.inr ⟨r, List.mem_cons_of_mem _ hr, hins⟩

theorem zoneCall_inserted (call : ZoneCall) {st : State} {k : ZoneKey} {entry : CachedZoneKeys}
    (h : (zoneCall env call st).2.keyTrustCache k = some entry) :
    st.keyTrustCache k = some entry ∨ ∃ r ∈ zoneCallRounds env call st,
      env.zoneKey r.zone = k ∧ ∃ t₀ dsTtl msg, r.Inserts env t₀ dsTtl msg entry := by
  cases call with
  | buildTrustChain targetZone => exact walkPath_inserted _ h
  | isZoneSigned name =>
    have hpath := fun a (ha : a ∈ name.ancestors) => Name.zoneOf_of_mem_ancestors ha
    simp only [zoneCall, isZoneSigned] at h
    simp only [zoneCallRounds]
    cases hl : signedLookup env name name.ancestors st with
    | mk o st₁ =>
      obtain ⟨hs, _⟩ := signedLookup_ok (P := fun _ => True) _ hpath hl
      rw [hl] at h
      cases o with
      | some s =>
        have hcache := congrFun hs.keyTrustCache k
        exact Or.inl (hcache.symm.trans h)
      | none =>
        cases ha : findZoneApex env name st₁ with
        | mk apex st₂ =>
          obtain ⟨hs₂, _⟩ := findZoneApexLoop_ok (P := fun _ => True) _ hpath ha
          have hcache := congrFun (hs.trans hs₂).keyTrustCache k
          simp only [ha] at h ⊢
          rw [← hcache]
          refine walkPath_inserted _ (Eq.trans ?_ h)
          -- writing the zone cache leaves the key cache alone
          cases hb : buildTrustChain env
              (apex.getD (if name.isRoot then .root else name.baseName)) st₂ with
          | mk res st₃ =>
            have hw : (walkPath env (apex.getD (if name.isRoot then .root else
              name.baseName)).ancestors.reverse none 300 st₂).2 = st₃ := congrArg Prod.snd hb
            rw [hw]
            cases res <;> rfl

theorem zoneRun_inserted (calls : List (ZoneCall × ValidationBudget)) {st : State} {k : ZoneKey}
    {entry : CachedZoneKeys} (h : (zoneRun env calls st).keyTrustCache k = some entry) :
    st.keyTrustCache k = some entry ∨ ∃ r ∈ zoneRounds env calls st,
      env.zoneKey r.zone = k ∧ ∃ t₀ dsTtl msg, r.Inserts env t₀ dsTtl msg entry := by
  induction calls generalizing st with
  | nil => exact Or.inl h
  | cons call calls ih =>
    obtain ⟨call, budget⟩ := call
    simp only [zoneRounds]
    rcases ih h with hold | ⟨r, hr, hins⟩
    · rcases zoneCall_inserted call hold with hold | ⟨r, hr, hins⟩
      · exact Or.inl hold
      · exact Or.inr ⟨r, List.mem_append_left _ hr, hins⟩
    · exact Or.inr ⟨r, List.mem_append_right _ hr, hins⟩

/-- **How long cached keys may be trusted.**  In every sequence of calls that starts with empty
caches, every entry was inserted by a round of the run; and the RRSIGs that verified in the
inserting rounds are valid from the insertion until the entry expires exactly if every one of them
is in its window at the insertion and does not expire within the lifetime given by the TTLs. -/
theorem zoneRun_keys_live_iff (env : Env) (calls : List (ZoneCall × ValidationBudget))
    (st : State) :
    (∀ k entry, (zoneRun env calls st.emptied).keyTrustCache k = some entry →
      ∃ r ∈ zoneRounds env calls st.emptied, env.zoneKey r.zone = k ∧
        ∃ t₀ dsTtl msg, r.Inserts env t₀ dsTtl msg entry) ∧
    ((∀ r ∈ zoneRounds env calls st.emptied, ∀ t₀ dsTtl msg entry,
        r.Inserts env t₀ dsTtl msg entry → ∀ sig, r.Verified env sig →
          ∀ t, t₀ ≤ t → t < entry.expiresAt → rrsigTimeValid sig t = true) ↔
      ∀ r ∈ zoneRounds env calls st.emptied, ∀ t₀ dsTtl msg entry,
        r.Inserts env t₀ dsTtl msg entry → ∀ sig, r.Verified env sig →
          keyLifetime r.zone dsTtl msg = 0 ∨ (rrsigTimeValid sig t₀ = true ∧
            (keyLifetime r.zone dsTtl msg).toNat ≤
              (sig.sigExpiration - UInt32.ofNat t₀).toNat + 1)) := by
  refine ⟨fun k entry he => ?_, ?_⟩
  · rcases zoneRun_inserted calls he with hold | hins
    · exact absurd hold (by simp [State.emptied])
    · exact hins
  · refine forall₂_congr fun r _ => forall₄_congr fun t₀ dsTtl msg entry =>
      forall_congr' fun hins => forall₂_congr fun sig _ => ?_
    obtain ⟨_, _, _, _, _, _, _, _, hexp⟩ := id hins
    have hzero : keyLifetime r.zone dsTtl msg = 0 ↔ (keyLifetime r.zone dsTtl msg).toNat = 0 :=
      UInt32.toNat_inj.symm
    rw [hexp, hzero]
    exact rrsigTimeValid_throughout (keyLifetime_le r.zone dsTtl msg)

end

/-! ## a signature about to expire -/

/-- the RRSIG of the root over its keys, with a minute left at the time 1000 -/
def lastMinuteRrsig : Record where
  name := .root
  ttl := 3600
  data := .rrsig
    { typeCovered := .DNSKEY
      algorithm := 8
      numLabels := 0
      originalTtl := 3600
      sigExpiration := 1060
      sigInception := 0
      keyTag := 20326
      signerName := .root
      sig := [1] }

def lastMinuteMessage : Message := { answers := [rootKskRecord, lastMinuteRrsig] }

/-- the root answers with its key and that signature -/
def lastMinuteEnv : Env where
  crypto := signedOnly [buildTbsManual lastMinuteRrsig [rootKskRecord]]
  text := noText
  nowSecs := fun _ => 1000
  resolve := fun _ n t =>
    if n.isRoot && decide (t = .DNSKEY) then .ok lastMinuteMessage
    else .error .AllNameserversFailed

def lastMinuteCalls : List (ZoneCall × ValidationBudget) := [(.buildTrustChain .root, {})]

theorem lastMinuteRun_entry :
    (((zoneRun lastMinuteEnv lastMinuteCalls ({} : State).emptied).keyTrustCache
      Name.root.fold).map CachedZoneKeys.expiresAt) = some 4600 := by
  decide +kernel

/-- Half an hour later the cached keys of the root are still trusted and their signature has long
expired. -/
theorem lastMinuteRun_expired :
    ¬ ∀ r ∈ zoneRounds lastMinuteEnv lastMinuteCalls ({} : State).emptied,
      ∀ t₀ dsTtl msg entry, r.Inserts lastMinuteEnv t₀ dsTtl msg entry →
        ∀ sig, r.Verified lastMinuteEnv sig →
          ∀ t, t₀ ≤ t → t < entry.expiresAt → rrsigTimeValid sig t = true := by
  intro hall
  obtain ⟨entry, he, hexp⟩ := Option.map_eq_some_iff.mp lastMinuteRun_entry
  rcases zoneRun_inserted _ he with hold | ⟨r, hr, hz, t₀, dsTtl, msg, hins⟩
  · exact absurd hold (by simp [State.emptied])
  · obtain ⟨rec, hmem, sig, hdata, hver⟩ := hins.verified
    obtain ⟨_, st₂, _, _, _, hmsg, _, ⟨tick, _, rfl⟩, _⟩ := id hins
    have hroot : r.zone.isRoot = true := Name.isRoot_iff.mpr hz
    have hm : lastMinuteEnv.resolve st₂.tick r.zone .DNSKEY = .ok lastMinuteMessage := by
      show (if r.zone.isRoot && _ then _ else _) = _
      rw [hroot]
      rfl
    obtain rfl := Except.ok.inj (hm.symm.trans hmsg)
    have hnow : lastMinuteEnv.nowSecs tick ≤ 2800 := by
      show 1000 ≤ 2800
      decide
    have hlive := hall r hr _ _ _ _ hins sig hver 2800 hnow (by rw [hexp]; decide)
    rcases List.mem_cons.mp hmem with rfl | hmem
    · exact absurd hdata (by simp [rootKskRecord])
    · obtain rfl := List.mem_singleton.mp hmem
      obtain rfl := RData.rrsig.inj hdata
      exact absurd hlive (by decide)

end DnsResolver
