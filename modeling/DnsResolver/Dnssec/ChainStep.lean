import DnsResolver.Dnssec.Chain

/-!
# What one round of `build_trust_chain` can do

* `ChainOnly cr s s'` chain events and nothing else: every new anchor comes from a verified DS
                      response, every signature checked is over a type of `chainTypes`;
* `zoneStep_round`    the five ways a round can end, each with the checks it rests on;
* `walkPath_rule`     the invariant rule of the loop;
* `chainRun_rule`     the invariant rule of a sequence of calls.
-/

namespace DnsResolver
open Trace

/-! ## what the checks establish -/

/-- `verify_rrsig` returned true for an RRSIG of a response over its records of type `t` at
`zone` -/
structure Checked (cr : Crypto) (log : List Event) (zone : Name) (t : RecordType)
    (answers : List Record) (sig : Rrsig) (key : Dnskey) (rec : Record) : Prop where
  event : .sigCheck sig key rec (answers.filter (Record.isAt zone t)) true ∈ log
  mem : rec ∈ answers
  rrsig : rec.isRrsigOver zone t = true
  data : rec.data = .rrsig sig
  valid : signatureValid cr sig key rec (answers.filter (Record.isAt zone t)) = true

/-- the DS records of `zone` in a response verified under a key of its parent -/
def DsVerified (cr : Crypto) (log : List Event) (zone : Name) (parentKeys : List Dnskey)
    (answers : List Record) : Prop :=
  ∃ sig key rec, Checked cr log zone .DS answers sig key rec ∧ key ∈ parentKeys

/-- one of the anchors has the tag, the algorithm and the digest of `key` -/
def NamedBy (cr : Crypto) (zone : Name) (anchors : List Anchor) (key : Dnskey) : Prop :=
  ∃ tag alg digestType digest, (tag, alg, digestType, digest) ∈ anchors ∧
    keyTagOf cr key = tag ∧ key.algorithm = alg ∧
    computeDsDigest cr zone key digestType = some digest

/-- the DNSKEY records of `zone` in a response verified under one of them that an anchor names -/
def KeysVerified (cr : Crypto) (log : List Event) (zone : Name) (anchors : List Anchor)
    (answers : List Record) : Prop :=
  ∃ sig key rec, Checked cr log zone .DNSKEY answers sig key rec ∧
    key ∈ dnskeysAt zone answers ∧ NamedBy cr zone anchors key

/-- the authenticated keys of a verified DNSKEY response -/
def zoneKeysAt (zone : Name) (answers : List Record) : List Dnskey :=
  (dnskeysAt zone answers).filter Dnskey.isZoneKey

/-- the anchors in a verified DS response -/
def dsAnchorsAt (zone : Name) (answers : List Record) : List Anchor :=
  (dsRecordsAt zone answers).filterMap dsAnchor

/-- a denial validator returned `status` for the DS of `zone` under `keys` -/
def DsDenied (log : List Event) (keys : List Dnskey) (zone : Name) (status : DnssecStatus) :
    Prop :=
  ∃ kind authority, .denialVerdict kind keys zone .DS authority status ∈ log

/-- zone `zone` is proven unsigned by its parent: the DS is denied at a delegation, or the DS
RRset verifies and none of its members is usable -/
def ProvenUnsignedBy (cr : Crypto) (log : List Event) (parentKeys : List Dnskey) (zone : Name) :
    Prop :=
  DsDenied log parentKeys zone .InsecureUnsigned ∨
    ∃ answers, DsVerified cr log zone parentKeys answers ∧ dsAnchorsAt zone answers = []

/-- `d` became an anchor for `zone` because of a verified DS response -/
def DsTrusted (cr : Crypto) (log : List Event) (zone : Name) (d : Ds) : Prop :=
  ∃ parentKeys msg, .dsLookup zone parentKeys msg ∈ log ∧
    DsVerified cr log zone parentKeys msg.answers ∧ d ∈ dsRecordsAt zone msg.answers ∧
    (dsAnchor d).isSome = true

section
variable {cr : Crypto} {log log' : List Event} {zone : Name} {keys : List Dnskey}
  {answers : List Record} {anchors : List Anchor} {status : DnssecStatus}

theorem Checked.mono {t : RecordType} {sig : Rrsig} {key : Dnskey} {rec : Record}
    (h : Checked cr log zone t answers sig key rec) (hl : log ⊆ log') :
    Checked cr log' zone t answers sig key rec :=
  { h with event := hl h.event }

theorem DsVerified.mono (h : DsVerified cr log zone keys answers) (hl : log ⊆ log') :
    DsVerified cr log' zone keys answers := by
  obtain ⟨sig, key, rec, h1, h2⟩ := h
  exact ⟨sig, key, rec, h1.mono hl, h2⟩

theorem KeysVerified.mono (h : KeysVerified cr log zone anchors answers) (hl : log ⊆ log') :
    KeysVerified cr log' zone anchors answers := by
  obtain ⟨sig, key, rec, h1, h2⟩ := h
  exact ⟨sig, key, rec, h1.mono hl, h2⟩

theorem DsDenied.mono (h : DsDenied log keys zone status) (hl : log ⊆ log') :
    DsDenied log' keys zone status := by
  obtain ⟨kind, authority, h1⟩ := h
  exact ⟨kind, authority, hl h1⟩

theorem ProvenUnsignedBy.mono (h : ProvenUnsignedBy cr log keys zone) (hl : log ⊆ log') :
    ProvenUnsignedBy cr log' keys zone := by
  rcases h with h | ⟨answers, h1, h2⟩
  · exact Or.inl (h.mono hl)
  · exact Or.inr ⟨answers, h1.mono hl, h2⟩

theorem DsTrusted.mono {d : Ds} (h : DsTrusted cr log zone d) (hl : log ⊆ log') :
    DsTrusted cr log' zone d := by
  obtain ⟨parentKeys, msg, h1, h2, h3⟩ := h
  exact ⟨parentKeys, msg, hl h1, h2.mono hl, h3⟩

end

/-! ## events -/

/-- the record types whose signatures the chain builder checks -/
def chainTypes : List RecordType := [.DS, .DNSKEY, .NSEC, .NSEC3]

/-- an event the chain builder may leave; anchors satisfy `T` -/
def IsChainEvent (T : Name → Ds → Prop) : Event → Prop
  | .sigCheck _ _ _ records _ => ∀ r ∈ records, r.recordType ∈ chainTypes
  | .denialCall _ _ _ qtype _ => qtype = .DS
  | .denialVerdict _ _ _ qtype _ _ => qtype = .DS
  | .trustedDs zone d => T zone d
  | _ => True

section
variable {T T' : Name → Ds → Prop} {e : Event}

theorem IsChainEvent.mono (h : IsChainEvent T e) (hT : ∀ zone d, T zone d → T' zone d) :
    IsChainEvent T' e := by
  cases e with
  | trustedDs zone d => exact hT zone d h
  | _ => exact h

theorem isChainEvent_of_check {records : List Record} {t : RecordType} (ht : t ∈ chainTypes)
    (hr : ∀ r ∈ records, r.recordType = t) (h : IsCheckOf records e) : IsChainEvent T e := by
  obtain ⟨sig, key, rec, ok, rfl⟩ := h
  intro r hm
  rw [hr r hm]
  exact ht

theorem isChainEvent_of_denial {kind : DenialKind} {t : RecordType} (ht : t ∈ chainTypes)
    {keys : List Dnskey} {zone : Name} {authority : List Record}
    (h : IsDenialEvent kind t keys zone .DS authority e) : IsChainEvent T e := by
  rcases h with ⟨rec, hrec, hc⟩ | rfl | ⟨status, rfl⟩
  · refine isChainEvent_of_check ht (fun r hm => ?_) hc
    have hat := (List.mem_filter.mp hm).2
    rw [← (mem_denialRecords hrec).2]
    exact (Record.isAt_iff.mp hat).2
  · rfl
  · rfl

end

/-- the trace of `s'` extends that of `s` by chain events; new anchors are justified in `s'` -/
def ChainGrew (cr : Crypto) (s s' : State) : Prop :=
  Grew (IsChainEvent (DsTrusted cr s'.log)) s.log s'.log

def ChainOnly (cr : Crypto) (s s' : State) : Prop :=
  SigOnly (IsChainEvent (DsTrusted cr s'.log)) s s'

section
variable {cr : Crypto} {s s₁ s₂ : State}

theorem ChainGrew.trans (h : ChainGrew cr s s₁) (h' : ChainGrew cr s₁ s₂) : ChainGrew cr s s₂ :=
  Grew.trans (Grew.mono h fun _ he => he.mono fun _ _ hd => hd.mono (Grew.subset h')) h'

theorem ChainOnly.grew (h : ChainOnly cr s s₁) : ChainGrew cr s s₁ := h.log

theorem ChainOnly.trans (h : ChainOnly cr s s₁) (h' : ChainOnly cr s₁ s₂) : ChainOnly cr s s₂ :=
  ⟨h.grew.trans h'.grew, h'.keyTrustCache.trans h.keyTrustCache,
    h'.signedZoneCache.trans h.signedZoneCache⟩

theorem ChainOnly.refl (s : State) : ChainOnly cr s s := SigOnly.refl s

theorem ChainOnly.next : ChainOnly cr s s.next := SigOnly.next

end

/-! ## the DS step -/

section
variable {env : Env} {zone : Name} {parentKeys : List Dnskey} {dsMsg : Message} {st st' : State}

theorem responseLoop_sigOnly {t : RecordType} {keys : List Dnskey} {msg : Message}
    {r : Result (Record × Rrsig × Dnskey)} (h : responseLoop env zone t keys msg st = (r, st')) :
    SigOnly (IsCheckOf (msg.answers.filter (Record.isAt zone t))) st st' := by
  have hs := rrsigLoop_sigOnly env t (msg.answers.filter (Record.isRrsigOver zone t)) keys
    (msg.answers.filter (Record.isAt zone t)) st
  rwa [show rrsigLoop .. = _ from h] at hs

/-- the events of a check of the RRset of type `t` at `zone` are chain events -/
theorem responseLoop_chain {t : RecordType} (ht : t ∈ chainTypes) {keys : List Dnskey}
    {msg : Message} {r : Result (Record × Rrsig × Dnskey)}
    (h : responseLoop env zone t keys msg st = (r, st')) : ChainOnly env.crypto st st' := by
  refine (responseLoop_sigOnly h).mono fun e he => isChainEvent_of_check ht ?_ he
  intro r hm
  exact (Record.isAt_iff.mp (List.mem_filter.mp hm).2).2

theorem responseLoop_checked {t : RecordType} {keys : List Dnskey} {msg : Message}
    {rec : Record} {sig : Rrsig} {key : Dnskey}
    (h : responseLoop env zone t keys msg st = (.hit (rec, sig, key), st')) :
    Checked env.crypto st'.log zone t msg.answers sig key rec ∧ key ∈ keys := by
  obtain ⟨hmem, hdata, _, hkey, _, hlog, hvalid⟩ := rrsigLoop_hit h
  obtain ⟨hm, ho⟩ := List.mem_filter.mp hmem
  exact ⟨⟨hlog.mem, hm, ho, hdata, hvalid⟩, hkey⟩

/-- what the DS step can come to, and what it then rests on -/
inductive DsRound (env : Env) (zone : Name) (parentKeys : List Dnskey) (st st' : State) :
    DsOutcome → Prop
  | bogus : ChainOnly env.crypto st st' → DsRound env zone parentKeys st st' (.ret .Bogus)
  | unsigned {t : UInt32} : ChainGrew env.crypto st st' → st'.keyTrustCache = st.keyTrustCache →
      (∃ exp, st'.signedZoneCache = Function.update st.signedZoneCache (env.zoneKey zone)
        (some ⟨.ProvenUnsigned, exp⟩)) →
      ProvenUnsignedBy env.crypto st'.log parentKeys zone →
      DsRound env zone parentKeys st st' (.ret (.Unsigned t))
  | skip : ChainOnly env.crypto st st' → DsDenied st'.log parentKeys zone .Secure →
      DsRound env zone parentKeys st st' .skip
  | anchors {answers : List Record} {t : UInt32} : ChainOnly env.crypto st st' →
      DsVerified env.crypto st'.log zone parentKeys answers →
      DsRound env zone parentKeys st st' (.anchors (dsAnchorsAt zone answers) t)

/-- the verdict on a denial leaves chain events, and is among them if it is not `Bogus` -/
theorem DsVerdict.chain {status : DnssecStatus}
    (h : DsVerdict env zone parentKeys dsMsg st status st') :
    ChainOnly env.crypto st st' ∧
      (status ≠ .Bogus → DsDenied st'.log parentKeys zone status) := by
  cases h with
  | nsec3 hv =>
    obtain ⟨rfl, rfl⟩ := Prod.mk.inj hv
    refine ⟨(validateNsec3_sigOnly st).mono fun e he => isChainEvent_of_denial (by decide) he,
      fun _ => ⟨.nsec3, dsMsg.nameServers, ?_⟩⟩
    exact List.mem_append_right _ (List.mem_singleton.mpr rfl)
  | nsec hv =>
    obtain ⟨rfl, rfl⟩ := Prod.mk.inj hv
    refine ⟨(validateNsec_sigOnly st).mono fun e he => isChainEvent_of_denial (by decide) he,
      fun _ => ⟨.nsec, dsMsg.nameServers, ?_⟩⟩
    exact List.mem_append_right _ (List.mem_singleton.mpr rfl)
  | absent => exact ⟨ChainOnly.refl _, fun hne => absurd rfl hne⟩

theorem dsDenial_round {o : DsOutcome} (h : dsDenial env zone parentKeys dsMsg st = (o, st')) :
    DsRound env zone parentKeys st st' o := by
  cases dsDenial_end h with
  | unsigned hv =>
    obtain ⟨hs, hden⟩ := hv.chain
    refine .unsigned hs.grew hs.keyTrustCache ?_ (Or.inl (hden (by decide)))
    rw [← hs.signedZoneCache]
    exact State.setSigned_signedZoneCache ..
  | skip hv =>
    obtain ⟨hs, hden⟩ := hv.chain
    exact .skip hs (hden (by decide))
  | bogus hv => exact .bogus hv.chain.1

theorem dsResponse_round {o : DsOutcome} (hlook : .dsLookup zone parentKeys dsMsg ∈ st.log)
    (h : dsResponse env zone parentKeys dsMsg st = (o, st')) :
    DsRound env zone parentKeys st st' o := by
  cases dsResponse_end h with
  | denial hd => exact dsDenial_round hd
  | unsealed => exact .bogus (ChainOnly.refl _)
  | bogus hl => exact .bogus (responseLoop_chain (by decide) hl)
  | @unsigned x st₁ hl _ hemp =>
    obtain ⟨rec, sig, key⟩ := x
    have hloop : ChainOnly env.crypto st st₁ := responseLoop_chain (by decide) hl
    obtain ⟨hcheck, hkey⟩ := responseLoop_checked hl
    have hver : DsVerified env.crypto st₁.log zone parentKeys dsMsg.answers :=
      ⟨sig, key, rec, hcheck, hkey⟩
    refine .unsigned (hloop.grew.trans (Grew.push trivial)) hloop.keyTrustCache ?_
      (Or.inr ⟨_, hver.mono (List.subset_append_left _ _), hemp⟩)
    rw [← hloop.signedZoneCache]
    exact State.setSigned_signedZoneCache ..
  | @anchors x st₁ hl =>
    obtain ⟨rec, sig, key⟩ := x
    have hloop : ChainOnly env.crypto st st₁ := responseLoop_chain (by decide) hl
    obtain ⟨hcheck, hkey⟩ := responseLoop_checked hl
    have hver : DsVerified env.crypto st₁.log zone parentKeys dsMsg.answers :=
      ⟨sig, key, rec, hcheck, hkey⟩
    have hsub := List.subset_append_left st₁.log
      (((dsRecordsAt zone dsMsg.answers).filter fun d => (dsAnchor d).isSome).map
        (.trustedDs zone))
    refine .anchors (hloop.trans ⟨⟨_, rfl, ?_⟩, rfl, rfl⟩) (hver.mono hsub)
    intro e he
    obtain ⟨d, hd, rfl⟩ := List.mem_map.mp he
    obtain ⟨hd1, hd2⟩ := List.mem_filter.mp hd
    exact ⟨parentKeys, dsMsg, hsub (hloop.log.subset hlook), hver.mono hsub, hd1, hd2⟩

end

/-! ## the DNSKEY step -/

theorem mem_matchedKeys {cr : Crypto} {zone : Name} {anchors : List Anchor}
    {candidates : List Dnskey} {key : Dnskey} (h : key ∈ matchedKeys cr zone anchors candidates) :
    key ∈ candidates ∧ NamedBy cr zone anchors key := by
  obtain ⟨cand, hcand, hm⟩ := List.mem_flatMap.mp h
  obtain ⟨⟨tag, alg, digestType, digest⟩, ha, rfl⟩ := List.mem_map.mp hm
  obtain ⟨hmem, hp⟩ := List.mem_filter.mp ha
  simp only [Bool.and_eq_true, decide_eq_true_eq] at hp
  exact ⟨hcand, tag, alg, digestType, digest, hmem, hp.1.1.symm, hp.1.2.symm, hp.2⟩

section
variable {env : Env} {zone : Name} {anchors : List Anchor} {ttl : UInt32} {st st' : State}

/-- the DNSKEY step ends without keys, or caches the keys of a verified RRset -/
inductive KeyRound (env : Env) (zone : Name) (anchors : List Anchor) (st st' : State) :
    Option (List Dnskey × UInt32) → Prop
  | bogus : ChainOnly env.crypto st st' → KeyRound env zone anchors st st' none
  | keys {msg : Message} {t : UInt32} : ChainGrew env.crypto st st' →
      (∃ exp, st'.keyTrustCache = Function.update st.keyTrustCache (env.zoneKey zone)
        (some ⟨zoneKeysAt zone msg.answers, exp⟩)) →
      st'.signedZoneCache = st.signedZoneCache →
      .dnskeyLookup zone anchors msg ∈ st'.log →
      KeysVerified env.crypto st'.log zone anchors msg.answers →
      KeyRound env zone anchors st st' (some (zoneKeysAt zone msg.answers, t))

theorem dnskeyResponse_round {msg : Message} {o : Option (List Dnskey × UInt32)}
    (hlook : .dnskeyLookup zone anchors msg ∈ st.log)
    (h : dnskeyResponse env zone anchors ttl msg st = (o, st')) :
    KeyRound env zone anchors st st' o := by
  cases dnskeyResponse_end h with
  | unusable => exact .bogus (ChainOnly.refl _)
  | bogus hl => exact .bogus (responseLoop_chain (by decide) hl)
  | @keys x st₁ keys ttl hl hkeys _ =>
    obtain ⟨rec, sig, key⟩ := x
    have hloop : ChainOnly env.crypto st st₁ := responseLoop_chain (by decide) hl
    obtain ⟨hcheck, hkey⟩ := responseLoop_checked hl
    subst hkeys
    refine .keys hloop.grew ?_ hloop.signedZoneCache (hloop.log.subset hlook)
      ⟨sig, key, rec, hcheck, mem_matchedKeys hkey⟩
    rw [← hloop.keyTrustCache]
    exact State.setKeys_keyTrustCache ..

theorem zoneKeys_round {o : Option (List Dnskey × UInt32)}
    (h : zoneKeys env zone anchors ttl st = (o, st')) :
    KeyRound env zone anchors st st' o := by
  cases zoneKeys_end h with
  | failed => exact .bogus ChainOnly.next
  | @response msg _ _ _ hresp =>
    have hpre : ChainOnly env.crypto st (st.next.push (.dnskeyLookup zone anchors msg)) :=
      ChainOnly.next.trans (SigOnly.push trivial)
    cases dnskeyResponse_round (List.mem_append_right _ (List.mem_singleton.mpr rfl)) hresp with
    | bogus hs => exact .bogus (hpre.trans hs)
    | keys hg hkeys hsigned hlook hver => exact .keys (hpre.grew.trans hg) hkeys hsigned hlook hver

end

/-! ## one round -/

/-- where the anchors of a zone come from: built in for the root, else from the verified DS
records of its parent -/
def AnchorsFrom (cr : Crypto) (log : List Event) (zone : Name)
    (parentKeys : Option (List Dnskey)) (anchors : List Anchor) : Prop :=
  (zone.isRoot = true ∧ anchors = rootAnchors) ∨
    (zone.isRoot = false ∧ ∃ keys answers, parentKeys = some keys ∧
      DsVerified cr log zone keys answers ∧ anchors = dsAnchorsAt zone answers)

/-- the ways a round can end -/
inductive Round (env : Env) (zone : Name) (parentKeys : Option (List Dnskey)) (ttl : UInt32)
    (st st' : State) : ZoneStep → Prop
  | cached {entry : CachedZoneKeys} : st.keyTrustCache (env.zoneKey zone) = some entry →
      ChainOnly env.crypto st st' →
      Round env zone parentKeys ttl st st' (.go (some entry.keys) ttl)
  | bogus : ChainOnly env.crypto st st' → Round env zone parentKeys ttl st st' (.done .Bogus)
  | unsigned {keys : List Dnskey} {t : UInt32} : zone.isRoot = false → parentKeys = some keys →
      ChainGrew env.crypto st st' → st'.keyTrustCache = st.keyTrustCache →
      (∃ exp, st'.signedZoneCache = Function.update st.signedZoneCache (env.zoneKey zone)
        (some ⟨.ProvenUnsigned, exp⟩)) →
      ProvenUnsignedBy env.crypto st'.log keys zone →
      Round env zone parentKeys ttl st st' (.done (.Unsigned t))
  | skip {keys : List Dnskey} : zone.isRoot = false → parentKeys = some keys →
      ChainOnly env.crypto st st' → DsDenied st'.log keys zone .Secure →
      Round env zone parentKeys ttl st st' (.go (some keys) ttl)
  | keys {anchors : List Anchor} {msg : Message} {t : UInt32} :
      ChainGrew env.crypto st st' →
      (∃ exp, st'.keyTrustCache = Function.update st.keyTrustCache (env.zoneKey zone)
        (some ⟨zoneKeysAt zone msg.answers, exp⟩)) →
      st'.signedZoneCache = st.signedZoneCache →
      .dnskeyLookup zone anchors msg ∈ st'.log →
      AnchorsFrom env.crypto st'.log zone parentKeys anchors →
      KeysVerified env.crypto st'.log zone anchors msg.answers →
      Round env zone parentKeys ttl st st' (.go (some (zoneKeysAt zone msg.answers)) t)

section
variable {env : Env} {zone : Name} {parentKeys : Option (List Dnskey)} {ttl : UInt32}
  {st st' : State}

theorem trustedDs_round {o : DsOutcome} (h : trustedDs env zone parentKeys st = (o, st')) :
    (zone.isRoot = true ∧ st' = st ∧ o = .anchors rootAnchors 300) ∨
      (zone.isRoot = false ∧ parentKeys = none ∧ st' = st ∧ o = .ret .Bogus) ∨
      (zone.isRoot = false ∧ ∃ keys, parentKeys = some keys ∧
        DsRound env zone keys st st' o) := by
  cases trustedDs_end h with
  | root hr => exact Or.inl ⟨hr, rfl, rfl⟩
  | noParent hr hp => exact Or.inr (Or.inl ⟨hr, hp, rfl, rfl⟩)
  | failed hr hp => exact Or.inr (Or.inr ⟨hr, _, hp, .bogus ChainOnly.next⟩)
  | @response keys msg _ _ hr hp _ hresp =>
    refine Or.inr (Or.inr ⟨hr, keys, hp, ?_⟩)
    have hpre : ChainOnly env.crypto st (st.next.push (.dsLookup zone keys msg)) :=
      ChainOnly.next.trans (SigOnly.push trivial)
    cases dsResponse_round (List.mem_append_right _ (List.mem_singleton.mpr rfl)) hresp with
    | bogus hs => exact .bogus (hpre.trans hs)
    | unsigned hg hk hz hp => exact .unsigned (hpre.grew.trans hg) hk hz hp
    | skip hs hd => exact .skip (hpre.trans hs) hd
    | anchors hs hv => exact .anchors (hpre.trans hs) hv

theorem cachedKeys_cases {o : Option (List Dnskey)} (h : cachedKeys env zone st = (o, st')) :
    ChainOnly env.crypto st st' ∧
      ∀ keys, o = some keys → ∃ entry, st.keyTrustCache (env.zoneKey zone) = some entry ∧
        keys = entry.keys := by
  unfold cachedKeys at h
  split at h
  · obtain ⟨rfl, rfl⟩ := Prod.mk.inj h
    exact ⟨ChainOnly.refl _, fun _ he => absurd he (by simp)⟩
  · rename_i entry hentry
    split at h
    · obtain ⟨rfl, rfl⟩ := Prod.mk.inj h
      exact ⟨ChainOnly.next, fun keys he => ⟨entry, hentry, (Option.some.inj he).symm⟩⟩
    · obtain ⟨rfl, rfl⟩ := Prod.mk.inj h
      exact ⟨ChainOnly.next, fun _ he => absurd he (by simp)⟩

theorem trustedDs_anchors {anchors : List Anchor} {dsTtl : UInt32}
    (h : trustedDs env zone parentKeys st = (.anchors anchors dsTtl, st')) :
    ChainOnly env.crypto st st' ∧ AnchorsFrom env.crypto st'.log zone parentKeys anchors := by
  rcases trustedDs_round h with ⟨hr, rfl, ho⟩ | ⟨_, _, _, ho⟩ | ⟨hr, keys, hp, hround⟩
  · exact ⟨ChainOnly.refl _, Or.inl ⟨hr, (DsOutcome.anchors.inj ho).1⟩⟩
  · exact absurd ho (by simp)
  · cases hround with
    | anchors hs hv => exact ⟨hs, Or.inr ⟨hr, keys, _, hp, hv, rfl⟩⟩

/-- **What one round does**, with everything the outcome rests on. -/
theorem zoneStep_round {o : ZoneStep} (h : zoneStep env zone parentKeys ttl st = (o, st')) :
    Round env zone parentKeys ttl st st' o := by
  cases zoneStep_end h with
  | cached hc =>
    obtain ⟨hs, hk⟩ := cachedKeys_cases hc
    obtain ⟨entry, hentry, rfl⟩ := hk _ rfl
    exact .cached hentry hs
  | ret hc hd =>
    obtain ⟨hs, _⟩ := cachedKeys_cases hc
    rcases trustedDs_round hd with ⟨_, _, ho⟩ | ⟨_, _, rfl, ho⟩ | ⟨hr, keys, hp, hround⟩
    · exact absurd ho (by simp)
    · obtain rfl := DsOutcome.ret.inj ho
      exact .bogus hs
    · cases hround with
      | bogus hs' => exact .bogus (hs.trans hs')
      | unsigned hg hk hz hu =>
        refine .unsigned hr hp (hs.grew.trans hg) (hk.trans hs.keyTrustCache) ?_ hu
        rwa [← hs.signedZoneCache]
  | skip hc hd =>
    obtain ⟨hs, _⟩ := cachedKeys_cases hc
    rcases trustedDs_round hd with ⟨_, _, ho⟩ | ⟨_, _, _, ho⟩ | ⟨hr, keys, hp, hround⟩
    · exact absurd ho (by simp)
    · exact absurd ho (by simp)
    · cases hround with
      | skip hs' hden =>
        rw [hp]
        exact .skip hr rfl (hs.trans hs') hden
  | noKeys hc hd hz =>
    have hs := (cachedKeys_cases hc).1.trans (trustedDs_anchors hd).1
    cases zoneKeys_round hz with
    | bogus hs' => exact .bogus (hs.trans hs')
  | keys hc hd hz =>
    obtain ⟨hs₂, hanchors⟩ := trustedDs_anchors hd
    have hs := (cachedKeys_cases hc).1.trans hs₂
    cases zoneKeys_round hz with
    | keys hg hk hsig hlook hver =>
      refine .keys (hs.grew.trans hg) ?_ (hsig.trans hs.signedZoneCache) hlook ?_ hver
      · rwa [← hs.keyTrustCache]
      · rcases hanchors with hroot | ⟨hr, pk, answers, hp, hds, ha⟩
        · exact Or.inl hroot
        · exact Or.inr ⟨hr, pk, answers, hp, hds.mono (Grew.subset hg), ha⟩

theorem Round.grew {o : ZoneStep} (h : Round env zone parentKeys ttl st st' o) :
    ChainGrew env.crypto st st' := by
  cases h with
  | cached _ hs => exact hs.grew
  | bogus hs => exact hs.grew
  | unsigned _ _ hg _ _ _ => exact hg
  | skip _ _ hs _ => exact hs.grew
  | keys hg _ _ _ _ _ => exact hg

end

/-! ## the loop and sequences of calls -/

/-- the result when the loop has run through its list -/
def walkEnd (keys : Option (List Dnskey)) (ttl : UInt32) : ChainResult :=
  match keys with
  | some keys => .Trusted keys ttl
  | none => .Unsigned ttl

section
variable {env : Env} {J : Option (List Dnskey) → List Name → State → Prop}
  {Q : ChainResult → State → Prop}

def RoundKeeps (J : Option (List Dnskey) → List Name → State → Prop)
    (Q : ChainResult → State → Prop) (rest : List Name) (st' : State) : ZoneStep → Prop
  | .done r => Q r st'
  | .go keys _ => J keys rest st'

/-- **The invariant rule of the loop.**  `J keys rest st` holds before the round at the head of
`rest`; every round keeps it or returns a result that satisfies `Q`. -/
theorem walkPath_rule
    (hstep : ∀ zone rest keys ttl st o st', J keys (zone :: rest) st →
      zoneStep env zone keys ttl st = (o, st') → RoundKeeps J Q rest st' o)
    (hend : ∀ keys ttl st, J keys [] st → Q (walkEnd keys ttl) st)
    (path : List Name) (keys : Option (List Dnskey)) (ttl : UInt32) (st : State)
    (h : J keys path st) : Q (walkPath env path keys ttl st).1 (walkPath env path keys ttl st).2 := by
  induction path generalizing keys ttl st with
  | nil =>
    have := hend keys ttl st h
    cases keys <;> exact this
  | cons zone rest ih =>
    cases hz : zoneStep env zone keys ttl st with
    | mk o st₁ =>
      have hk := hstep zone rest keys ttl st o st₁ h hz
      cases o with
      | done r =>
        simp only [walkPath, hz]
        exact hk
      | go keys' ttl' =>
        simp only [walkPath, hz]
        exact ih keys' ttl' st₁ hk

theorem walkPath_grew (path : List Name) (keys : Option (List Dnskey)) (ttl : UInt32)
    (st : State) : ChainGrew env.crypto st (walkPath env path keys ttl st).2 := by
  refine walkPath_rule (J := fun _ _ s => ChainGrew env.crypto st s)
    (Q := fun _ s => ChainGrew env.crypto st s) ?_ (fun _ _ _ h => h) path keys ttl st
    (Grew.refl _)
  intro zone rest keys ttl s o s' h hz
  have hg := ChainGrew.trans h (zoneStep_round hz).grew
  cases o <;> exact hg

/-- `build_trust_chain` leaves chain events only -/
theorem buildTrustChain_grew (env : Env) (targetZone : Name) (st : State) :
    ChainGrew env.crypto st (buildTrustChain env targetZone st).2 :=
  walkPath_grew _ _ _ _

end

section
variable {env : Env} {I : State → Prop} {Q : Name → ChainResult → List Event → Prop}

/-- **The invariant rule of a sequence of calls.**  Every call keeps `I` and returns a result
that satisfies `Q`, which only gets easier as the trace grows. -/
theorem chainRun_rule
    (hbudget : ∀ st budget, I st → I { st with budget := budget })
    (hcall : ∀ targetZone st r st', I st → buildTrustChain env targetZone st = (r, st') →
      I st' ∧ Q targetZone r st'.log)
    (hmono : ∀ targetZone r log log', Q targetZone r log → log ⊆ log' → Q targetZone r log')
    {calls : List (Name × ValidationBudget)} {st st' : State} {results : List (Name × ChainResult)}
    (h : I st) (hrun : chainRun env calls st = (results, st')) :
    I st' ∧ (∀ x ∈ results, Q x.1 x.2 st'.log) ∧ ChainGrew env.crypto st st' := by
  induction calls generalizing st results with
  | nil =>
    obtain ⟨rfl, rfl⟩ := Prod.mk.inj hrun
    exact ⟨h, by simp, Grew.refl _⟩
  | cons call calls ih =>
    obtain ⟨targetZone, budget⟩ := call
    have hg := buildTrustChain_grew env targetZone { st with budget := budget }
    cases hb : buildTrustChain env targetZone { st with budget := budget } with
    | mk r st₁ =>
      cases hr : chainRun env calls st₁ with
      | mk rs st₂ =>
        simp only [chainRun, hb, hr, Prod.mk.injEq] at hrun
        obtain ⟨rfl, rfl⟩ := hrun
        rw [hb] at hg
        obtain ⟨h₁, hq⟩ := hcall targetZone _ r st₁ (hbudget st budget h) hb
        obtain ⟨h₂, hqs, hg'⟩ := ih h₁ hr
        refine ⟨h₂, ?_, ChainGrew.trans hg hg'⟩
        intro x hx
        rcases List.mem_cons.mp hx with rfl | hx
        · exact hmono _ _ _ _ hq (Grew.subset hg')
        · exact hqs x hx

end
end DnsResolver
