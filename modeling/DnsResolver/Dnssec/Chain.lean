import DnsResolver.Dnssec.Negative

/-!
# The trust chain (`chain.rs`)

`build_trust_chain` walks the names from the root down to the target zone.  At each name it takes
the keys from the cache, or asks for the DS RRset (the root has built-in anchors instead) and then
for the DNSKEY RRset.  A name is left behind in one of four ways:

* its keys were cached (`cachedKeys`);
* the parent denies the DS and the name is no delegation: the walk goes on with the parent's
  keys (`DsOutcome.skip`);
* DS and DNSKEY RRset verify: the walk goes on with the zone's own keys (`zoneKeys`);
* the walk ends (`DsOutcome.ret`).

Below the definitions stands one inversion lemma for each (`dsDenial_end` to `zoneStep_end`,
`isZoneSigned_cases`); what the rest of the development says about a round starts from these.
-/

namespace DnsResolver
open Trace

/-- `ROOT_TRUST_ANCHORS` -/
def rootTrustAnchors : List (UInt16 × UInt8 × UInt8 × String) :=
  [(20326, 8, 2, "E06D44B80B8F1D39A95C0B0D7C65D08458E880409BBC683457104237C7F8EC8D"),
   (38696, 8, 2, "683D2D0ACB8C9B712A1948B27F741219298D0A450D612C483AF444A4C0FB2B16")]

/-- the built-in anchors with their digests decoded -/
def rootAnchors : List Anchor :=
  rootTrustAnchors.filterMap fun (tag, alg, digestType, hex) =>
    (hexDecode (ascii hex)).map fun bytes => (tag, alg, digestType, bytes)

inductive ChainResult where
  | Trusted (keys : List Dnskey) (ttl : UInt32)
  | Unsigned (ttl : UInt32)
  | Bogus
  deriving DecidableEq

/-- algorithms a DS may name to count as an anchor -/
def algSupported (alg : UInt8) : Bool :=
  decide (alg ∈ ([5, 7, 8, 10, 13, 14, 15, 18] : List UInt8))

/-- a DS as an anchor, if its digest type and algorithm are supported -/
def dsAnchor (d : Ds) : Option Anchor :=
  if (d.digestType = 1 ∨ d.digestType = 2 ∨ d.digestType = 4) ∧ algSupported d.algorithm = true
  then some (d.keyTag, d.algorithm, d.digestType, d.digest)
  else none

/-- DS data at the owner `zone`, of any class -/
def dsRecordsAt (zone : Name) (answers : List Record) : List Ds :=
  (answers.filter fun r => r.name.nameEq zone).filterMap Record.ds?

/-- DNSKEY data at the owner `zone`, of any class -/
def dnskeysAt (zone : Name) (answers : List Record) : List Dnskey :=
  (answers.filter fun r => r.name.nameEq zone).filterMap Record.dnskey?

/-- the candidate keys an anchor vouches for, once per anchor -/
def matchedKeys (cr : Crypto) (zone : Name) (anchors : List Anchor) (candidates : List Dnskey) :
    List Dnskey :=
  candidates.flatMap fun cand =>
    (anchors.filter fun (tag, alg, digestType, digest) =>
      decide (tag = keyTagOf cr cand) && decide (alg = cand.algorithm) &&
        decide (computeDsDigest cr zone cand digestType = some digest)).map fun _ => cand

def Dnskey.isZoneKey (k : Dnskey) : Bool := decide (k.flags &&& 0x0100 ≠ 0)

namespace State

def pushAll (st : State) (es : List Event) : State := { st with log := st.log ++ es }

/-- `signed_zone_cache().insert(zone, ..)` with a lifetime of at most a day from now on -/
def setSigned (env : Env) (zone : Name) (s : ZoneSignedness) (ttl : UInt32) (st : State) : State :=
  { st with
    signedZoneCache := Function.update st.signedZoneCache (env.zoneKey zone)
      (some ⟨s, env.nowSecs st.tick + (min ttl.toNat 86400)⟩)
    tick := st.tick + 1 }

/-- `key_trust_cache().insert(zone, ..)` -/
def setKeys (env : Env) (zone : Name) (keys : List Dnskey) (ttl : UInt32) (st : State) : State :=
  { st with
    keyTrustCache := Function.update st.keyTrustCache (env.zoneKey zone)
      (some ⟨keys, env.nowSecs st.tick + ttl.toNat⟩)
    tick := st.tick + 1 }

theorem setSigned_signedZoneCache (env : Env) (zone : Name) (s : ZoneSignedness) (ttl : UInt32)
    (st : State) : ∃ exp, (st.setSigned env zone s ttl).signedZoneCache =
      Function.update st.signedZoneCache (env.zoneKey zone) (some ⟨s, exp⟩) := ⟨_, rfl⟩

theorem setKeys_keyTrustCache (env : Env) (zone : Name) (keys : List Dnskey) (ttl : UInt32)
    (st : State) : ∃ exp, (st.setKeys env zone keys ttl).keyTrustCache =
      Function.update st.keyTrustCache (env.zoneKey zone) (some ⟨keys, exp⟩) := ⟨_, rfl⟩

end State

/-- what the DS step of one zone comes to -/
inductive DsOutcome where
  /-- `build_trust_chain` returns -/
  | ret (r : ChainResult)
  /-- no delegation here -/
  | skip
  /-- anchors for the zone's keys, and the TTL of the DS response -/
  | anchors (as : List Anchor) (ttl : UInt32)

/-- the DS response has no DS: ask the denial validators -/
def dsDenial (env : Env) (zone : Name) (parentKeys : List Dnskey) (dsMsg : Message) (st : State) :
    DsOutcome × State :=
  let authority := dsMsg.nameServers
  let (denialStatus, st) :=
    if authority.any fun r => decide (r.recordType = .NSEC3) then
      validateNsec3 env parentKeys zone .DS authority st
    else if authority.any fun r => decide (r.recordType = .NSEC) then
      validateNsec env parentKeys zone .DS authority st
    else (.Bogus, st)
  match denialStatus with
  | .InsecureUnsigned =>
    let ttl := calculateMinTtl dsMsg
    (.ret (.Unsigned ttl), st.setSigned env zone .ProvenUnsigned ttl)
  | .Secure => (.skip, st)
  | _ => (.ret .Bogus, st)

/-- the DS response of a zone other than the root -/
def dsResponse (env : Env) (zone : Name) (parentKeys : List Dnskey) (dsMsg : Message)
    (st : State) : DsOutcome × State :=
  let dsRecords := dsRecordsAt zone dsMsg.answers
  if dsRecords.isEmpty then dsDenial env zone parentKeys dsMsg st
  else
    let dsRrsigRecords := dsMsg.answers.filter (Record.isRrsigOver zone .DS)
    if dsRrsigRecords.isEmpty then (.ret .Bogus, st)
    else
      let dsFullRecords := dsMsg.answers.filter (Record.isAt zone .DS)
      match rrsigLoop env .DS dsRrsigRecords parentKeys dsFullRecords st with
      | (.hit _, st) =>
        let anchors := dsRecords.filterMap dsAnchor
        let ttl := calculateMinTtl dsMsg
        if anchors.isEmpty then
          (.ret (.Unsigned ttl),
            (st.push (.noAnchors zone dsRecords)).setSigned env zone .ProvenUnsigned ttl)
        else
          (.anchors anchors ttl,
            st.pushAll ((dsRecords.filter fun d => (dsAnchor d).isSome).map (.trustedDs zone)))
      | (_, st) => (.ret .Bogus, st)

/-- the anchors for the keys of `zone` -/
def trustedDs (env : Env) (zone : Name) (parentKeys : Option (List Dnskey)) (st : State) :
    DsOutcome × State :=
  if zone.isRoot then (.anchors rootAnchors 300, st)
  else
    match parentKeys with
    | none => (.ret .Bogus, st)
    | some parentKeys =>
      match env.resolve st.tick zone .DS with
      | .error _ => (.ret .Bogus, st.next)
      | .ok dsMsg =>
        dsResponse env zone parentKeys dsMsg (st.next.push (.dsLookup zone parentKeys dsMsg))

/-- the DNSKEY response of a zone: its keys and their lifetime, or nothing -/
def dnskeyResponse (env : Env) (zone : Name) (anchors : List Anchor) (parentDsTtl : UInt32)
    (dnskeyMsg : Message) (st : State) : Option (List Dnskey × UInt32) × State :=
  let candidates := dnskeysAt zone dnskeyMsg.answers
  if candidates.isEmpty then (none, st)
  else
    let dnskeyRrsigRecords := dnskeyMsg.answers.filter (Record.isRrsigOver zone .DNSKEY)
    if dnskeyRrsigRecords.isEmpty then (none, st)
    else
      let matched := matchedKeys env.crypto zone anchors candidates
      if matched.isEmpty then (none, st)
      else
        let dnskeyFullRecords := dnskeyMsg.answers.filter (Record.isAt zone .DNSKEY)
        match rrsigLoop env .DNSKEY dnskeyRrsigRecords matched dnskeyFullRecords st with
        | (.hit _, st) =>
          let dnskeyTtl := calculateMinTtl dnskeyMsg
          let effectiveTtl :=
            if zone.isRoot then dnskeyTtl
            else if parentDsTtl < dnskeyTtl then parentDsTtl else dnskeyTtl
          let authenticatedZoneKeys := candidates.filter Dnskey.isZoneKey
          (some (authenticatedZoneKeys, effectiveTtl),
            st.setKeys env zone authenticatedZoneKeys effectiveTtl)
        | (_, st) => (none, st)

/-- fetch and check the keys of `zone` -/
def zoneKeys (env : Env) (zone : Name) (anchors : List Anchor) (parentDsTtl : UInt32)
    (st : State) : Option (List Dnskey × UInt32) × State :=
  match env.resolve st.tick zone .DNSKEY with
  | .error _ => (none, st.next)
  | .ok dnskeyMsg =>
    dnskeyResponse env zone anchors parentDsTtl dnskeyMsg
      (st.next.push (.dnskeyLookup zone anchors dnskeyMsg))

/-- the keys of `zone`, if cached and not expired -/
def cachedKeys (env : Env) (zone : Name) (st : State) : Option (List Dnskey) × State :=
  match st.keyTrustCache (env.zoneKey zone) with
  | none => (none, st)
  | some cached =>
    if env.nowSecs st.tick < cached.expiresAt then (some cached.keys, st.next) else (none, st.next)

/-- how one round of the loop of `build_trust_chain` ends -/
inductive ZoneStep where
  /-- `build_trust_chain` returns -/
  | done (r : ChainResult)
  /-- the loop goes on with these keys -/
  | go (parentKeys : Option (List Dnskey)) (lastTtl : UInt32)

def zoneStep (env : Env) (zone : Name) (parentKeys : Option (List Dnskey)) (lastTtl : UInt32)
    (st : State) : ZoneStep × State :=
  match cachedKeys env zone st with
  | (some keys, st) => (.go (some keys) lastTtl, st)
  | (none, st) =>
    match trustedDs env zone parentKeys st with
    | (.ret r, st) => (.done r, st)
    | (.skip, st) => (.go parentKeys lastTtl, st)
    | (.anchors anchors parentDsTtl, st) =>
      match zoneKeys env zone anchors parentDsTtl st with
      | (none, st) => (.done .Bogus, st)
      | (some (keys, ttl), st) => (.go (some keys) ttl, st)

/-- the loop of `build_trust_chain` over the names from the root down -/
def walkPath (env : Env) : List Name → Option (List Dnskey) → UInt32 → State → ChainResult × State
  | [], some keys, lastTtl, st => (.Trusted keys lastTtl, st)
  | [], none, lastTtl, st => (.Unsigned lastTtl, st)
  | zone :: rest, parentKeys, lastTtl, st =>
    match zoneStep env zone parentKeys lastTtl st with
    | (.done r, st) => (r, st)
    | (.go parentKeys lastTtl, st) => walkPath env rest parentKeys lastTtl st

/-- `build_trust_chain` -/
def buildTrustChain (env : Env) (targetZone : Name) (st : State) : ChainResult × State :=
  walkPath env targetZone.ancestors.reverse none 300 st

/-- a sequence of calls of `build_trust_chain`, each with a signature budget of its own -/
def chainRun (env : Env) : List (Name × ValidationBudget) → State →
    List (Name × ChainResult) × State
  | [], st => ([], st)
  | (targetZone, budget) :: calls, st =>
    let (r, st) := buildTrustChain env targetZone { st with budget := budget }
    let (rs, st) := chainRun env calls st
    ((targetZone, r) :: rs, st)

/-!
## how a round ends

One inversion lemma for each function of a round, with what the branch taken knows.
-/

section
variable {env : Env} {zone : Name} {st st' : State}

/-- the verdict on the denial in a DS response: a validator's, or `Bogus` without one -/
inductive DsVerdict (env : Env) (zone : Name) (parentKeys : List Dnskey) (dsMsg : Message)
    (st : State) : DnssecStatus → State → Prop
  | nsec3 {status : DnssecStatus} {st' : State} :
      validateNsec3 env parentKeys zone .DS dsMsg.nameServers st = (status, st') →
      DsVerdict env zone parentKeys dsMsg st status st'
  | nsec {status : DnssecStatus} {st' : State} :
      validateNsec env parentKeys zone .DS dsMsg.nameServers st = (status, st') →
      DsVerdict env zone parentKeys dsMsg st status st'
  | absent : DsVerdict env zone parentKeys dsMsg st .Bogus st

inductive DsDenialEnd (env : Env) (zone : Name) (parentKeys : List Dnskey) (dsMsg : Message)
    (st : State) : DsOutcome → State → Prop
  | unsigned {st₁ : State} : DsVerdict env zone parentKeys dsMsg st .InsecureUnsigned st₁ →
      DsDenialEnd env zone parentKeys dsMsg st (.ret (.Unsigned (calculateMinTtl dsMsg)))
        (st₁.setSigned env zone .ProvenUnsigned (calculateMinTtl dsMsg))
  | skip {st₁ : State} : DsVerdict env zone parentKeys dsMsg st .Secure st₁ →
      DsDenialEnd env zone parentKeys dsMsg st .skip st₁
  | bogus {status : DnssecStatus} {st₁ : State} :
      DsVerdict env zone parentKeys dsMsg st status st₁ →
      DsDenialEnd env zone parentKeys dsMsg st (.ret .Bogus) st₁

theorem dsDenial_end {parentKeys : List Dnskey} {dsMsg : Message} {o : DsOutcome}
    (h : dsDenial env zone parentKeys dsMsg st = (o, st')) :
    DsDenialEnd env zone parentKeys dsMsg st o st' := by
  obtain ⟨status, st₁, hv, hverdict⟩ : ∃ status st₁,
      (if dsMsg.nameServers.any fun r => decide (r.recordType = .NSEC3) then
        validateNsec3 env parentKeys zone .DS dsMsg.nameServers st
      else if dsMsg.nameServers.any fun r => decide (r.recordType = .NSEC) then
        validateNsec env parentKeys zone .DS dsMsg.nameServers st
      else (.Bogus, st)) = (status, st₁) ∧ DsVerdict env zone parentKeys dsMsg st status st₁ := by
    split
    · exact ⟨_, _, rfl, .nsec3 rfl⟩
    · split
      · exact ⟨_, _, rfl, .nsec rfl⟩
      · exact ⟨_, _, rfl, .absent⟩
  simp only [dsDenial, hv] at h
  cases status with
  | Secure =>
    obtain ⟨rfl, rfl⟩ := Prod.mk.inj h
    exact .skip hverdict
  | InsecureUnsigned =>
    obtain ⟨rfl, rfl⟩ := Prod.mk.inj h
    exact .unsigned hverdict
  | InsecureUnknown =>
    obtain ⟨rfl, rfl⟩ := Prod.mk.inj h
    exact .bogus hverdict
  | Bogus =>
    obtain ⟨rfl, rfl⟩ := Prod.mk.inj h
    exact .bogus hverdict

/-- the signature loop over the RRset of type `t` in a response -/
def responseLoop (env : Env) (zone : Name) (t : RecordType) (keys : List Dnskey) (msg : Message)
    (st : State) : Result (Record × Rrsig × Dnskey) × State :=
  rrsigLoop env t (msg.answers.filter (Record.isRrsigOver zone t)) keys
    (msg.answers.filter (Record.isAt zone t)) st

inductive DsResponseEnd (env : Env) (zone : Name) (parentKeys : List Dnskey) (dsMsg : Message)
    (st : State) : DsOutcome → State → Prop
  | denial {o : DsOutcome} {st₁ : State} : dsDenial env zone parentKeys dsMsg st = (o, st₁) →
      DsResponseEnd env zone parentKeys dsMsg st o st₁
  -- no RRSIG, or none that verifies
  | unsealed : DsResponseEnd env zone parentKeys dsMsg st (.ret .Bogus) st
  | bogus {r : Result (Record × Rrsig × Dnskey)} {st₁ : State} :
      responseLoop env zone .DS parentKeys dsMsg st = (r, st₁) →
      DsResponseEnd env zone parentKeys dsMsg st (.ret .Bogus) st₁
  | unsigned {x : Record × Rrsig × Dnskey} {st₁ : State} :
      responseLoop env zone .DS parentKeys dsMsg st = (.hit x, st₁) →
      dsRecordsAt zone dsMsg.answers ≠ [] →
      (dsRecordsAt zone dsMsg.answers).filterMap dsAnchor = [] →
      DsResponseEnd env zone parentKeys dsMsg st (.ret (.Unsigned (calculateMinTtl dsMsg)))
        ((st₁.push (.noAnchors zone (dsRecordsAt zone dsMsg.answers))).setSigned env zone
          .ProvenUnsigned (calculateMinTtl dsMsg))
  | anchors {x : Record × Rrsig × Dnskey} {st₁ : State} :
      responseLoop env zone .DS parentKeys dsMsg st = (.hit x, st₁) →
      DsResponseEnd env zone parentKeys dsMsg st
        (.anchors ((dsRecordsAt zone dsMsg.answers).filterMap dsAnchor) (calculateMinTtl dsMsg))
        (st₁.pushAll (((dsRecordsAt zone dsMsg.answers).filter fun d => (dsAnchor d).isSome).map
          (.trustedDs zone)))

theorem dsResponse_end {parentKeys : List Dnskey} {dsMsg : Message} {o : DsOutcome}
    (h : dsResponse env zone parentKeys dsMsg st = (o, st')) :
    DsResponseEnd env zone parentKeys dsMsg st o st' := by
  simp only [dsResponse] at h
  split at h
  · exact .denial h
  · rename_i hne
    split at h
    · obtain ⟨rfl, rfl⟩ := Prod.mk.inj h
      exact .unsealed
    · split at h
      · rename_i x st₁ hl
        split at h
        · rename_i hemp
          obtain ⟨rfl, rfl⟩ := Prod.mk.inj h
          exact .unsigned hl (fun he => hne (List.isEmpty_iff.mpr he)) (List.isEmpty_iff.mp hemp)
        · obtain ⟨rfl, rfl⟩ := Prod.mk.inj h
          exact .anchors hl
      · rename_i st₁ hl
        obtain ⟨rfl, rfl⟩ := Prod.mk.inj h
        exact .bogus hl

inductive TrustedDsEnd (env : Env) (zone : Name) (parentKeys : Option (List Dnskey)) (st : State) :
    DsOutcome → State → Prop
  | root : zone.isRoot = true →
      TrustedDsEnd env zone parentKeys st (.anchors rootAnchors 300) st
  | noParent : zone.isRoot = false → parentKeys = none →
      TrustedDsEnd env zone parentKeys st (.ret .Bogus) st
  | failed {keys : List Dnskey} : zone.isRoot = false → parentKeys = some keys →
      TrustedDsEnd env zone parentKeys st (.ret .Bogus) st.next
  | response {keys : List Dnskey} {dsMsg : Message} {o : DsOutcome} {st₁ : State} :
      zone.isRoot = false → parentKeys = some keys →
      env.resolve st.tick zone .DS = .ok dsMsg →
      dsResponse env zone keys dsMsg (st.next.push (.dsLookup zone keys dsMsg)) = (o, st₁) →
      TrustedDsEnd env zone parentKeys st o st₁

theorem trustedDs_end {parentKeys : Option (List Dnskey)} {o : DsOutcome}
    (h : trustedDs env zone parentKeys st = (o, st')) :
    TrustedDsEnd env zone parentKeys st o st' := by
  simp only [trustedDs] at h
  split at h
  · rename_i hroot
    obtain ⟨rfl, rfl⟩ := Prod.mk.inj h
    exact .root hroot
  · rename_i hroot
    have hroot' : zone.isRoot = false := Bool.eq_false_iff.mpr hroot
    split at h
    · obtain ⟨rfl, rfl⟩ := Prod.mk.inj h
      exact .noParent hroot' rfl
    · split at h
      · obtain ⟨rfl, rfl⟩ := Prod.mk.inj h
        exact .failed hroot' rfl
      · rename_i dsMsg hres
        exact .response hroot' rfl hres h

inductive DnskeyResponseEnd (env : Env) (zone : Name) (anchors : List Anchor)
    (parentDsTtl : UInt32) (msg : Message) (st : State) :
    Option (List Dnskey × UInt32) → State → Prop
  -- no key, no RRSIG or no anchor for a key
  | unusable : DnskeyResponseEnd env zone anchors parentDsTtl msg st none st
  | bogus {r : Result (Record × Rrsig × Dnskey)} {st₁ : State} :
      responseLoop env zone .DNSKEY
        (matchedKeys env.crypto zone anchors (dnskeysAt zone msg.answers)) msg st = (r, st₁) →
      DnskeyResponseEnd env zone anchors parentDsTtl msg st none st₁
  | keys {x : Record × Rrsig × Dnskey} {st₁ : State} {keys : List Dnskey} {ttl : UInt32} :
      responseLoop env zone .DNSKEY
        (matchedKeys env.crypto zone anchors (dnskeysAt zone msg.answers)) msg st = (.hit x, st₁) →
      keys = (dnskeysAt zone msg.answers).filter Dnskey.isZoneKey →
      ttl = (if zone.isRoot then calculateMinTtl msg
        else if parentDsTtl < calculateMinTtl msg then parentDsTtl else calculateMinTtl msg) →
      DnskeyResponseEnd env zone anchors parentDsTtl msg st (some (keys, ttl))
        (st₁.setKeys env zone keys ttl)

theorem dnskeyResponse_end {anchors : List Anchor} {parentDsTtl : UInt32} {msg : Message}
    {o : Option (List Dnskey × UInt32)}
    (h : dnskeyResponse env zone anchors parentDsTtl msg st = (o, st')) :
    DnskeyResponseEnd env zone anchors parentDsTtl msg st o st' := by
  have hnone : (none, st) = (o, st') →
      DnskeyResponseEnd env zone anchors parentDsTtl msg st o st' := by
    intro he
    obtain ⟨rfl, rfl⟩ := Prod.mk.inj he
    exact .unusable
  simp only [dnskeyResponse] at h
  split at h
  · exact hnone h
  · split at h
    · exact hnone h
    · split at h
      · exact hnone h
      · split at h
        · rename_i x st₁ hl
          obtain ⟨rfl, rfl⟩ := Prod.mk.inj h
          exact .keys hl rfl rfl
        · rename_i st₁ hl
          obtain ⟨rfl, rfl⟩ := Prod.mk.inj h
          exact .bogus hl

inductive ZoneKeysEnd (env : Env) (zone : Name) (anchors : List Anchor) (parentDsTtl : UInt32)
    (st : State) : Option (List Dnskey × UInt32) → State → Prop
  | failed : ZoneKeysEnd env zone anchors parentDsTtl st none st.next
  | response {msg : Message} {o : Option (List Dnskey × UInt32)} {st₁ : State} :
      env.resolve st.tick zone .DNSKEY = .ok msg →
      dnskeyResponse env zone anchors parentDsTtl msg
        (st.next.push (.dnskeyLookup zone anchors msg)) = (o, st₁) →
      ZoneKeysEnd env zone anchors parentDsTtl st o st₁

theorem zoneKeys_end {anchors : List Anchor} {parentDsTtl : UInt32}
    {o : Option (List Dnskey × UInt32)} (h : zoneKeys env zone anchors parentDsTtl st = (o, st')) :
    ZoneKeysEnd env zone anchors parentDsTtl st o st' := by
  simp only [zoneKeys] at h
  split at h
  · obtain ⟨rfl, rfl⟩ := Prod.mk.inj h
    exact .failed
  · rename_i msg hres
    exact .response hres h

inductive ZoneStepEnd (env : Env) (zone : Name) (parentKeys : Option (List Dnskey))
    (lastTtl : UInt32) (st : State) : ZoneStep → State → Prop
  | cached {keys : List Dnskey} {st₁ : State} : cachedKeys env zone st = (some keys, st₁) →
      ZoneStepEnd env zone parentKeys lastTtl st (.go (some keys) lastTtl) st₁
  | ret {r : ChainResult} {st₁ st₂ : State} : cachedKeys env zone st = (none, st₁) →
      trustedDs env zone parentKeys st₁ = (.ret r, st₂) →
      ZoneStepEnd env zone parentKeys lastTtl st (.done r) st₂
  | skip {st₁ st₂ : State} : cachedKeys env zone st = (none, st₁) →
      trustedDs env zone parentKeys st₁ = (.skip, st₂) →
      ZoneStepEnd env zone parentKeys lastTtl st (.go parentKeys lastTtl) st₂
  | noKeys {anchors : List Anchor} {dsTtl : UInt32} {st₁ st₂ st₃ : State} :
      cachedKeys env zone st = (none, st₁) →
      trustedDs env zone parentKeys st₁ = (.anchors anchors dsTtl, st₂) →
      zoneKeys env zone anchors dsTtl st₂ = (none, st₃) →
      ZoneStepEnd env zone parentKeys lastTtl st (.done .Bogus) st₃
  | keys {anchors : List Anchor} {dsTtl ttl : UInt32} {keys : List Dnskey} {st₁ st₂ st₃ : State} :
      cachedKeys env zone st = (none, st₁) →
      trustedDs env zone parentKeys st₁ = (.anchors anchors dsTtl, st₂) →
      zoneKeys env zone anchors dsTtl st₂ = (some (keys, ttl), st₃) →
      ZoneStepEnd env zone parentKeys lastTtl st (.go (some keys) ttl) st₃

theorem zoneStep_end {parentKeys : Option (List Dnskey)} {lastTtl : UInt32} {o : ZoneStep}
    (h : zoneStep env zone parentKeys lastTtl st = (o, st')) :
    ZoneStepEnd env zone parentKeys lastTtl st o st' := by
  simp only [zoneStep] at h
  split at h
  · rename_i keys st₁ hc
    obtain ⟨rfl, rfl⟩ := Prod.mk.inj h
    exact .cached hc
  · rename_i st₁ hc
    split at h
    · rename_i r st₂ hd
      obtain ⟨rfl, rfl⟩ := Prod.mk.inj h
      exact .ret hc hd
    · rename_i st₂ hd
      obtain ⟨rfl, rfl⟩ := Prod.mk.inj h
      exact .skip hc hd
    · rename_i anchors dsTtl st₂ hd
      split at h
      · rename_i st₃ hz
        obtain ⟨rfl, rfl⟩ := Prod.mk.inj h
        exact .noKeys hc hd hz
      · rename_i keys ttl st₃ hz
        obtain ⟨rfl, rfl⟩ := Prod.mk.inj h
        exact .keys hc hd hz

end

/-! ## is a zone signed? -/

/-- the deepest SOA owner among `records` that is `name` or above it -/
def bestSoa (name : Name) (records : List Record) : Option Name :=
  records.foldl (fun best rec =>
    if rec.isSoa && (rec.name.nameEq name || rec.name.zoneOf name) then
      match best with
      | some current => if current.numLabels < rec.name.numLabels then some rec.name else best
      | none => some rec.name
    else best) none

/-- what one SOA response says about the apex -/
def apexOf (name candidate : Name) (msg : Message) : Option Name :=
  if msg.answers.any (Record.isAt candidate .SOA) then some candidate
  else if msg.answers.any (Record.isAt candidate .CNAME) then none
  else bestSoa name (msg.answers ++ msg.nameServers)

def findZoneApexLoop (env : Env) (name : Name) : List Name → State → Option Name × State
  | [], st => (none, st)
  | candidate :: rest, st =>
    match env.resolve st.tick candidate .SOA with
    | .error _ => findZoneApexLoop env name rest st.next
    | .ok msg =>
      match apexOf name candidate msg with
      | some zone => (some zone, st.next)
      | none => findZoneApexLoop env name rest st.next

/-- `find_zone_apex` -/
def findZoneApex (env : Env) (name : Name) (st : State) : Option Name × State :=
  findZoneApexLoop env name name.ancestors st

/-- the cache lookup of `is_zone_signed`, from the name up to the root -/
def signedLookup (env : Env) (name : Name) : List Name → State → Option ZoneSignedness × State
  | [], st => (none, st)
  | cur :: rest, st =>
    match st.signedZoneCache (env.zoneKey cur) with
    | none => signedLookup env name rest st
    | some entry =>
      if env.nowSecs st.tick < entry.expiresAt then
        match entry.signedness with
        | .ProvenUnsigned => (some .ProvenUnsigned, st.next)
        | .Signed =>
          if cur.nameEq name then (some .Signed, st.next) else signedLookup env name rest st.next
        | .Unknown => signedLookup env name rest st.next
      else signedLookup env name rest st.next

/-- `is_zone_signed` -/
def isZoneSigned (env : Env) (name : Name) (st : State) : ZoneSignedness × State :=
  match signedLookup env name name.ancestors st with
  | (some s, st) => (s, st)
  | (none, st) =>
    let (apex, st) := findZoneApex env name st
    let zone := apex.getD (if name.isRoot then .root else name.baseName)
    match buildTrustChain env zone st with
    | (.Trusted _ ttl, st) => (.Signed, st.setSigned env zone .Signed ttl)
    | (.Unsigned ttl, st) => (.ProvenUnsigned, st.setSigned env zone .ProvenUnsigned ttl)
    | (.Bogus, st) => (.Unknown, st.push (.chainBroken name zone))

/-- **How `is_zone_signed` ends**: with what the cache says, or with the chain to the apex found
(without one, to the parent). -/
theorem isZoneSigned_cases {env : Env} {name : Name} {s : ZoneSignedness} {st st' : State}
    (h : isZoneSigned env name st = (s, st')) :
    signedLookup env name name.ancestors st = (some s, st') ∨
      ∃ st₁ apex st₂ zone st₃, signedLookup env name name.ancestors st = (none, st₁) ∧
        findZoneApex env name st₁ = (apex, st₂) ∧
        apex.getD (if name.isRoot then .root else name.baseName) = zone ∧
        ((∃ keys ttl, buildTrustChain env zone st₂ = (.Trusted keys ttl, st₃) ∧
            .Signed = s ∧ st₃.setSigned env zone .Signed ttl = st') ∨
          (∃ ttl, buildTrustChain env zone st₂ = (.Unsigned ttl, st₃) ∧
            .ProvenUnsigned = s ∧ st₃.setSigned env zone .ProvenUnsigned ttl = st') ∨
          (buildTrustChain env zone st₂ = (.Bogus, st₃) ∧
            .Unknown = s ∧ st₃.push (.chainBroken name zone) = st')) := by
  unfold isZoneSigned at h
  split at h
  · rename_i s₁ st₁ hl
    obtain ⟨rfl, rfl⟩ := Prod.mk.inj h
    exact Or.inl hl
  · rename_i st₁ hl
    right
    cases ha : findZoneApex env name st₁ with
    | mk apex st₂ =>
      rw [ha] at h
      dsimp only at h
      split at h
      · rename_i keys ttl st₃ hb
        exact ⟨st₁, apex, st₂, _, st₃, hl, ha, rfl, Or.inl ⟨keys, ttl, hb, Prod.mk.inj h⟩⟩
      · rename_i ttl st₃ hb
        exact ⟨st₁, apex, st₂, _, st₃, hl, ha, rfl, Or.inr (Or.inl ⟨ttl, hb, Prod.mk.inj h⟩)⟩
      · rename_i st₃ hb
        exact ⟨st₁, apex, st₂, _, st₃, hl, ha, rfl, Or.inr (Or.inr ⟨hb, Prod.mk.inj h⟩)⟩

end DnsResolver
