import DnsResolver.Geo.Heartbeats

/-!
# The two heartbeat receivers side by side

What a request to either receiver does to the registry, against the rules of the mesh with times
compared as integers.

* `PeerRules`              a request that may change the registry, and the heartbeat in it;
* `skewSecs_spec`          the skew test against the distance of the two times;
* `receivers_follow_iff`   when both receivers follow the rules.
-/

namespace DnsResolver

variable {codec : PeerCodec} {config : GeoConfig} {geo : GeoState} {sourceIp : IpAddr}
  {signature : Option Bytes} {body : Bytes} {now : Nat} {p : HeartbeatPayload}

/-! ## requests -/

/-- `X-Peer-Signature` -/
def HeaderMap.peerSignature (headers : HeaderMap) : Option Bytes :=
  (headers.getStr .XPeerSignature).map utf8

/-- a request to the DoH router: `DefaultBodyLimit` comes before the handler -/
def dohPeerHeartbeat (codec : PeerCodec) (config : GeoConfig) (headers : HeaderMap)
    (peer : IpAddr) (body : Bytes) (now : Nat) : Option (Except StatusCode HeartbeatPayload) :=
  if maxDohPayload < body.length then some (.error .PayloadTooLarge)
  else
    handlePeerHeartbeat codec config (extractClientIp headers peer) headers.peerSignature body now

def h3PeerHeartbeat (codec : PeerCodec) (config : GeoConfig) (headers : HeaderMap)
    (clientIp : IpAddr) (chunks : List Bytes) (now : Nat) :
    Option (Except StatusCode HeartbeatPayload) :=
  handleH3PeerHeartbeat codec config clientIp headers.peerSignature chunks now

/-- the answer to the request and the state it leaves -/
def GeoState.answered (geo : GeoState) (appliedAt : Nat)
    (r : Option (Except StatusCode HeartbeatPayload)) : Option (StatusCode × GeoState) :=
  r.map fun
    | .error status => (status, geo)
    | .ok payload => (.NoContent, geo.applyPeerHeartbeat payload appliedAt)

/-! ## the rules -/

/-- the distance of the two times is more than a minute -/
def Stale (now : Nat) (timestamp : UInt64) : Prop := 60 < ((now : Int) - timestamp.toNat).natAbs

/-- the body carries this heartbeat, signed by a node of the mesh -/
structure SignedBy (codec : PeerCodec) (config : GeoConfig) (sourceIp : IpAddr)
    (signature : Option Bytes) (body : Bytes) (p : HeartbeatPayload) : Prop where
  allowed : sourceIp ∈ config.peerAllowedIps
  verified : ∃ sig, signature = some sig ∧ codec.verify config.peerSecret body sig = true
  parsed : codec.fromSlice body = some p

/-- the request may change the registry, and this is the heartbeat in it -/
structure PeerRules (codec : PeerCodec) (config : GeoConfig) (sourceIp : IpAddr)
    (signature : Option Bytes) (body : Bytes) (now : Nat) (p : HeartbeatPayload) : Prop where
  configured : config.peerSecret ≠ []
  signed : SignedBy codec config sourceIp signature body p
  short : body.length ≤ 4096
  timely : ¬ Stale now p.timestamp

/-- the process goes on, a heartbeat is stored and answered with 204 if the rules admit it, and
otherwise the registry stays as it is and the answer says so -/
def FollowsRules (geo : GeoState) (appliedAt : Nat) (out : Option (StatusCode × GeoState))
    (rules : HeartbeatPayload → Prop) : Prop :=
  ∃ status geo', out = some (status, geo') ∧
    (∀ p, rules p → status = .NoContent ∧ geo' = geo.applyPeerHeartbeat p appliedAt) ∧
    ((∀ p, ¬ rules p) → status ≠ .NoContent ∧ geo' = geo)

/-! ## the skew test -/

/-- the `u64` does not come out of `as i64` as a time near the clock or too far before it -/
def FarFromWrap (now : Nat) (timestamp : UInt64) : Prop :=
  timestamp.toNat < 2 ^ 63 ∨ 2 ^ 63 + now < timestamp.toNat ∧ timestamp.toNat + 60 < 2 ^ 64 + now

theorem skewSecs_spec {ts : UInt64} (hnow : now < 2 ^ 63) (h : FarFromWrap now ts) :
    ∃ skew, skewSecs now ts = some skew ∧ (60 < skew ↔ Stale now ts) := by
  have hts := ts.toNat_lt
  unfold FarFromWrap at h
  unfold skewSecs asI64 Stale
  rw [if_pos hnow]
  dsimp only
  by_cases hsmall : ts.toNat < 2 ^ 63
  · rw [if_pos hsmall, if_pos (by omega)]
    exact ⟨_, rfl, by omega⟩
  · rw [if_neg hsmall, if_pos (by omega)]
    exact ⟨_, rfl, by omega⟩

/-- near the wrap the process aborts, or takes a time from the far future for the present -/
theorem skewSecs_near {ts : UInt64} {skew : Nat} (hnow : now < 2 ^ 63)
    (h : ¬ FarFromWrap now ts) (hskew : skewSecs now ts = some skew) :
    skew ≤ 60 ∧ Stale now ts := by
  have hts := ts.toNat_lt
  unfold FarFromWrap at h
  unfold skewSecs asI64 at hskew
  have hbig : ¬ ts.toNat < 2 ^ 63 := by omega
  rw [if_pos hnow, if_neg hbig] at hskew
  dsimp only at hskew
  unfold Stale
  split at hskew
  · have := Option.some.inj hskew
    omega
  · cases hskew

-- a signed timestamp of `2 ^ 63` takes the process down
example : skewSecs 1001 (2 ^ 63) = none := by decide +kernel

/-! ## answers -/

section
variable {appliedAt : Nat} {rules : HeartbeatPayload → Prop} {status : StatusCode}

theorem follows_error (hs : status ≠ .NoContent) :
    FollowsRules geo appliedAt (geo.answered appliedAt (some (.error status))) rules ↔
      ∀ p, ¬ rules p := by
  constructor
  · rintro ⟨status', geo', hout, hrules, -⟩ p hp
    obtain ⟨rfl, rfl⟩ := Prod.mk.inj (Option.some.inj hout)
    exact hs (hrules p hp).1
  · intro h
    exact ⟨status, geo, rfl, fun p hp => absurd hp (h p), fun _ => ⟨hs, rfl⟩⟩

theorem follows_ok (hone : ∀ q, rules q → q = p) :
    FollowsRules geo appliedAt (geo.answered appliedAt (some (.ok p))) rules ↔ rules p := by
  constructor
  · rintro ⟨status', geo', hout, -, hno⟩
    obtain ⟨rfl, rfl⟩ := Prod.mk.inj (Option.some.inj hout)
    by_contra hp
    refine (hno fun q hq => hp ?_).1 rfl
    rwa [hone q hq] at hq
  · intro hp
    refine ⟨_, _, rfl, fun q hq => ?_, fun hno => absurd hp (hno p)⟩
    rw [hone q hq]
    exact ⟨rfl, rfl⟩

theorem not_follows_none : ¬ FollowsRules geo appliedAt (geo.answered appliedAt none) rules := by
  rintro ⟨status', geo', hout, -⟩
  cases hout

/-- the end of both receivers, for rules that admit the heartbeat in the body if it is not stale
and `G` holds -/
theorem follows_checkPayload {G : Prop} (hnow : now < 2 ^ 63) (hp : codec.fromSlice body = some p)
    (hrules : ∀ q, rules q ↔ q = p ∧ G ∧ ¬ Stale now p.timestamp) :
    FollowsRules geo appliedAt (geo.answered appliedAt (checkPayload codec body now)) rules ↔
      FarFromWrap now p.timestamp ∧ (¬ G → Stale now p.timestamp) := by
  have hone : ∀ q, rules q → q = p := fun q hq => ((hrules q).mp hq).1
  have hself : rules p ↔ G ∧ ¬ Stale now p.timestamp := by
    rw [hrules p]
    exact and_iff_right rfl
  unfold checkPayload
  rw [hp]
  dsimp only
  by_cases hwrap : FarFromWrap now p.timestamp
  · obtain ⟨skew, hskew, hstale⟩ := skewSecs_spec hnow hwrap
    rw [hskew, Option.map_some, and_iff_right hwrap]
    by_cases hold : 60 < skew
    · rw [if_pos hold, follows_error (by decide)]
      have hs := hstale.mp hold
      exact ⟨fun _ _ => hs, fun _ q hq => ((hrules q).mp hq).2.2 hs⟩
    · rw [if_neg hold, follows_ok hone, hself]
      have hs : ¬ Stale now p.timestamp := fun h => hold (hstale.mpr h)
      exact ⟨fun h hG => absurd h.1 hG, fun h => ⟨not_not.mp fun hG => hs (h hG), hs⟩⟩
  · refine iff_of_false ?_ fun h => hwrap h.1
    cases hskew : skewSecs now p.timestamp with
    | none => exact not_follows_none
    | some skew =>
      obtain ⟨hle, hs⟩ := skewSecs_near hnow hwrap hskew
      rw [Option.map_some, if_neg (by omega), follows_ok hone, hself]
      exact fun h => h.2 hs

end

/-! ## the receivers -/

def checkSigned (codec : PeerCodec) (config : GeoConfig) (sig body : Bytes) (now : Nat) :
    Option (Except StatusCode HeartbeatPayload) :=
  if !codec.verify config.peerSecret body sig then some (.error .Unauthorized)
  else checkPayload codec body now

theorem checkSigned_cases (hallow : sourceIp ∈ config.peerAllowedIps) (sig body : Bytes)
    (now : Nat) :
    (∃ p, SignedBy codec config sourceIp (some sig) body p ∧
        checkSigned codec config sig body now = checkPayload codec body now) ∨
      (∀ p, ¬ SignedBy codec config sourceIp (some sig) body p) ∧
        ∃ status, status ≠ .NoContent ∧
          checkSigned codec config sig body now = some (.error status) := by
  unfold checkSigned
  by_cases hv : codec.verify config.peerSecret body sig = true
  · rw [hv]
    cases hp : codec.fromSlice body with
    | none =>
      refine .inr ⟨fun p h => ?_, .BadRequest, by decide, ?_⟩
      · have hsome := h.parsed
        rw [hp] at hsome
        cases hsome
      · unfold checkPayload
        rw [hp]
        rfl
    | some p => exact .inl ⟨p, ⟨hallow, ⟨sig, rfl, hv⟩, hp⟩, rfl⟩
  · refine .inr ⟨fun p h => ?_, .Unauthorized, by decide, ?_⟩
    · obtain ⟨sig', hsig, hv'⟩ := h.verified
      obtain rfl := Option.some.inj hsig
      exact hv hv'
    · rw [Bool.not_eq_true] at hv
      rw [hv]
      rfl

theorem handlePeerHeartbeat_cases (codec : PeerCodec) (config : GeoConfig) (sourceIp : IpAddr)
    (signature : Option Bytes) (body : Bytes) (now : Nat) :
    (∃ p, SignedBy codec config sourceIp signature body p ∧
        handlePeerHeartbeat codec config sourceIp signature body now =
          checkPayload codec body now) ∨
      (∀ p, ¬ SignedBy codec config sourceIp signature body p) ∧
        ∃ status, status ≠ .NoContent ∧
          handlePeerHeartbeat codec config sourceIp signature body now = some (.error status) := by
  unfold handlePeerHeartbeat
  by_cases hallow : sourceIp ∈ config.peerAllowedIps
  · rw [List.contains_iff_mem.mpr hallow]
    cases signature with
    | none =>
      refine .inr ⟨fun p h => ?_, .Unauthorized, by decide, rfl⟩
      obtain ⟨sig, hsig, -⟩ := h.verified
      cases hsig
    | some sig => exact checkSigned_cases hallow sig body now
  · refine .inr ⟨fun p h => hallow h.allowed, .NotFound, by decide, ?_⟩
    rw [Bool.eq_false_iff.mpr fun h => hallow (List.contains_iff_mem.mp h)]
    rfl

theorem handleH3PeerHeartbeat_eq (hsecret : config.peerSecret ≠ []) (chunks : List Bytes) :
    handleH3PeerHeartbeat codec config sourceIp signature chunks now =
      handlePeerHeartbeat codec config sourceIp signature (recvBody chunks []) now := by
  unfold handleH3PeerHeartbeat handlePeerHeartbeat
  rw [List.isEmpty_eq_false_iff.mpr hsecret]
  cases signature <;> rfl

theorem handleH3PeerHeartbeat_unset (hsecret : config.peerSecret = []) (chunks : List Bytes) :
    handleH3PeerHeartbeat codec config sourceIp signature chunks now =
      some (.error .NotFound) := by
  unfold handleH3PeerHeartbeat
  rw [hsecret]
  split
  · rfl
  · cases signature <;> rfl

theorem recvBody_eq (chunks : List Bytes) (body : Bytes)
    (h : (body ++ chunks.flatten).length ≤ 4096) :
    recvBody chunks body = body ++ chunks.flatten := by
  induction chunks generalizing body with
  | nil =>
    rw [List.flatten_nil, List.append_nil]
    rfl
  | cons chunk chunks ih =>
    rw [List.flatten_cons, ← List.append_assoc] at h ⊢
    have hlen : ¬ 4096 < (body ++ chunk).length := by
      rw [List.length_append] at h
      omega
    rw [recvBody, if_neg hlen, ih _ h]

theorem SignedBy.unique {q : HeartbeatPayload}
    (hp : SignedBy codec config sourceIp signature body p)
    (hq : SignedBy codec config sourceIp signature body q) : q = p := by
  have h := hp.parsed
  rw [hq.parsed] at h
  exact Option.some.inj h

/-- the receivers behind their guards, for rules that admit a signed heartbeat if it is not stale
and `G` holds -/
theorem handlePeerHeartbeat_follows {appliedAt : Nat} {rules : HeartbeatPayload → Prop} {G : Prop}
    (hnow : now < 2 ^ 63)
    (hrules : ∀ q, rules q ↔
      SignedBy codec config sourceIp signature body q ∧ G ∧ ¬ Stale now q.timestamp) :
    FollowsRules geo appliedAt
        (geo.answered appliedAt
          (handlePeerHeartbeat codec config sourceIp signature body now)) rules ↔
      ∀ p, SignedBy codec config sourceIp signature body p →
        FarFromWrap now p.timestamp ∧ (¬ G → Stale now p.timestamp) := by
  rcases handlePeerHeartbeat_cases codec config sourceIp signature body now with
    ⟨p, hp, hr⟩ | ⟨hno, status, hs, hr⟩
  · have hone : ∀ q, rules q ↔ q = p ∧ G ∧ ¬ Stale now p.timestamp := by
      intro q
      rw [hrules q]
      constructor
      · rintro ⟨hq, h⟩
        obtain rfl := hp.unique hq
        exact ⟨rfl, h⟩
      · rintro ⟨rfl, h⟩
        exact ⟨hp, h⟩
    rw [hr, follows_checkPayload hnow hp.parsed hone]
    constructor
    · intro h q hq
      rw [hp.unique hq]
      exact h
    · exact fun h => h p hp
  · rw [hr, follows_error hs]
    constructor
    · exact fun _ p h => absurd h (hno p)
    · exact fun _ p h => hno p ((hrules p).mp h).1

section
variable {headers : HeaderMap} {peer clientIp : IpAddr} {chunks : List Bytes} {appliedAt : Nat}

theorem doh_follows_iff (hnow : now < 2 ^ 63) :
    FollowsRules geo appliedAt
        (geo.answered appliedAt (dohPeerHeartbeat codec config headers peer body now))
        (PeerRules codec config (extractClientIp headers peer) headers.peerSignature body now) ↔
      ∀ p, body.length ≤ 4096 →
        SignedBy codec config (extractClientIp headers peer) headers.peerSignature body p →
        FarFromWrap now p.timestamp ∧ (config.peerSecret = [] → Stale now p.timestamp) := by
  unfold dohPeerHeartbeat
  by_cases hlen : maxDohPayload < body.length
  · rw [if_pos hlen, follows_error (by decide)]
    have hlong : ¬ body.length ≤ 4096 := Nat.not_le.mpr hlen
    exact ⟨fun _ p h => absurd h hlong, fun _ p h => hlong h.short⟩
  · have hshort : body.length ≤ 4096 := Nat.not_lt.mp hlen
    rw [if_neg hlen, handlePeerHeartbeat_follows (G := config.peerSecret ≠ []) hnow fun q => by
      exact ⟨fun h => ⟨h.signed, h.configured, h.timely⟩,
        fun ⟨hs, hG, ht⟩ => ⟨hG, hs, hshort, ht⟩⟩]
    constructor
    · intro h p _ hp
      obtain ⟨hwrap, hstale⟩ := h p hp
      exact ⟨hwrap, fun hG => hstale (not_not.mpr hG)⟩
    · intro h p hp
      obtain ⟨hwrap, hstale⟩ := h p hshort hp
      exact ⟨hwrap, fun hG => hstale (not_not.mp hG)⟩

theorem h3_follows_iff (hnow : now < 2 ^ 63) :
    FollowsRules geo appliedAt
        (geo.answered appliedAt (h3PeerHeartbeat codec config headers clientIp chunks now))
        (PeerRules codec config clientIp headers.peerSignature chunks.flatten now) ↔
      ∀ p, config.peerSecret ≠ [] →
        SignedBy codec config clientIp headers.peerSignature (recvBody chunks []) p →
        FarFromWrap now p.timestamp ∧ (4096 < chunks.flatten.length → Stale now p.timestamp) := by
  unfold h3PeerHeartbeat
  by_cases hsecret : config.peerSecret = []
  · rw [handleH3PeerHeartbeat_unset hsecret, follows_error (by decide)]
    exact ⟨fun _ p h => absurd hsecret h, fun _ p h => h.configured hsecret⟩
  · have hwhole : chunks.flatten.length ≤ 4096 → recvBody chunks [] = chunks.flatten :=
      recvBody_eq chunks []
    rw [handleH3PeerHeartbeat_eq hsecret,
      handlePeerHeartbeat_follows (G := chunks.flatten.length ≤ 4096) hnow fun q => ?_]
    · constructor
      · intro h p _ hp
        obtain ⟨hwrap, hstale⟩ := h p hp
        exact ⟨hwrap, fun hlong => hstale (Nat.not_le.mpr hlong)⟩
      · intro h p hp
        obtain ⟨hwrap, hstale⟩ := h p hsecret hp
        exact ⟨hwrap, fun hlong => hstale (Nat.not_le.mp hlong)⟩
    · constructor
      · intro h
        rw [hwhole h.short]
        exact ⟨h.signed, h.short, h.timely⟩
      · rintro ⟨hs, hshort, ht⟩
        rw [hwhole hshort] at hs
        exact ⟨hsecret, hs, hshort, ht⟩

/-! ## both receivers -/

/-- where both receivers follow the rules of one source address, they agree on the registry -/
theorem FollowsRules.agree {rules : HeartbeatPayload → Prop} {a b : Option (StatusCode × GeoState)}
    (ha : FollowsRules geo appliedAt a rules) (hb : FollowsRules geo appliedAt b rules) :
    a.map Prod.snd = b.map Prod.snd := by
  obtain ⟨sa, ga, rfl, hyes, hno⟩ := ha
  obtain ⟨sb, gb, rfl, hyes', hno'⟩ := hb
  show some ga = some gb
  by_cases h : ∃ p, rules p
  · obtain ⟨p, hp⟩ := h
    rw [(hyes p hp).2, (hyes' p hp).2]
  · have hnone : ∀ p, ¬ rules p := fun p hp => h ⟨p, hp⟩
    rw [(hno hnone).2, (hno' hnone).2]

end

/-- **The two receivers.**  Both change the registry exactly as the rules say, without an abort,
and agree on it for one source address, if and only if each signed heartbeat they read has a
timestamp away from the wrap, and is stale where only its age can keep it out: over DoH without a
secret, over HTTP/3 in a body that is too long. -/
theorem receivers_follow_iff (codec : PeerCodec) (geo : GeoState) (headers : HeaderMap)
    (peer clientIp : IpAddr) (chunks : List Bytes) (now appliedAt : Nat) (hnow : now < 2 ^ 63) :
    (FollowsRules geo appliedAt
        (geo.answered appliedAt
          (dohPeerHeartbeat codec geo.config headers peer chunks.flatten now))
        (PeerRules codec geo.config (extractClientIp headers peer) headers.peerSignature
          chunks.flatten now) ∧
      FollowsRules geo appliedAt
        (geo.answered appliedAt (h3PeerHeartbeat codec geo.config headers clientIp chunks now))
        (PeerRules codec geo.config clientIp headers.peerSignature chunks.flatten now) ∧
      (extractClientIp headers peer = clientIp →
        (geo.answered appliedAt
            (dohPeerHeartbeat codec geo.config headers peer chunks.flatten now)).map Prod.snd =
          (geo.answered appliedAt
            (h3PeerHeartbeat codec geo.config headers clientIp chunks now)).map Prod.snd)) ↔
    (∀ p, chunks.flatten.length ≤ 4096 →
      SignedBy codec geo.config (extractClientIp headers peer) headers.peerSignature
        chunks.flatten p →
      FarFromWrap now p.timestamp ∧ (geo.config.peerSecret = [] → Stale now p.timestamp)) ∧
    ∀ p, geo.config.peerSecret ≠ [] →
      SignedBy codec geo.config clientIp headers.peerSignature (recvBody chunks []) p →
      FarFromWrap now p.timestamp ∧
        (4096 < chunks.flatten.length → Stale now p.timestamp) := by
  rw [doh_follows_iff hnow, h3_follows_iff hnow]
  constructor
  · exact fun h => ⟨h.1, h.2.1⟩
  · rintro ⟨hdoh, hh3⟩
    refine ⟨hdoh, hh3, fun hip => ?_⟩
    have h : FollowsRules geo appliedAt _ _ := (doh_follows_iff hnow).mpr hdoh
    have h' : FollowsRules geo appliedAt _ _ := (h3_follows_iff hnow).mpr hh3
    rw [← hip] at h'
    rw [← hip]
    exact h.agree h'

/-- the heartbeat of a node behind a proxy on this host -/
def signedHeaders (sigHex : Bytes) : HeaderMap :=
  [(.XRealIp, ascii "203.0.113.11"), (.XPeerSignature, sigHex)]

theorem receivers_follow_up :
    FollowsRules meshState 1001
        (meshState.answered 1001 (dohPeerHeartbeat (codecOf [upBody]) meshConfig
          (signedHeaders upBody.sigHex) (ipv4 127 0 0 1) [upBody.body].flatten 1001))
        (PeerRules (codecOf [upBody]) meshConfig (ipv4 203 0 113 11)
          (signedHeaders upBody.sigHex).peerSignature [upBody.body].flatten 1001) ∧
      FollowsRules meshState 1001
        (meshState.answered 1001 (h3PeerHeartbeat (codecOf [upBody]) meshConfig
          (signedHeaders upBody.sigHex) (ipv4 203 0 113 11) [upBody.body] 1001))
        (PeerRules (codecOf [upBody]) meshConfig (ipv4 203 0 113 11)
          (signedHeaders upBody.sigHex).peerSignature [upBody.body].flatten 1001) ∧
      PeerRules (codecOf [upBody]) meshConfig (ipv4 203 0 113 11)
        (signedHeaders upBody.sigHex).peerSignature [upBody.body].flatten 1001 upBody.payload := by
  have hip : extractClientIp (signedHeaders upBody.sigHex) (ipv4 127 0 0 1) =
      ipv4 203 0 113 11 := by decide +kernel
  have hsecret : meshConfig.peerSecret ≠ [] := by decide +kernel
  have hearly : ∀ p, (codecOf [upBody]).fromSlice [upBody.body].flatten = some p →
      FarFromWrap 1001 p.timestamp := by
    intro p hp
    have := codecOf_up hp
    exact .inl (by omega)
  have hboth := (receivers_follow_iff (codecOf [upBody]) meshState (signedHeaders upBody.sigHex)
    (ipv4 127 0 0 1) (ipv4 203 0 113 11) [upBody.body] 1001 1001 (by decide)).mpr
    ⟨fun p _ hp => ⟨hearly p hp.parsed, fun h => absurd h hsecret⟩,
      fun p _ hp => ⟨hearly p hp.parsed, fun h => absurd h (by decide +kernel)⟩⟩
  rw [hip] at hboth
  refine ⟨hboth.1, hboth.2.1, hsecret, ⟨?_, ⟨upBody.sigHex, ?_, ?_⟩, ?_⟩, ?_, ?_⟩
  · decide +kernel
  · decide +kernel
  · decide +kernel
  · decide +kernel
  · decide +kernel
  · unfold Stale
    decide +kernel

/-! ### no secret -/

/-- the same heartbeat, signed with the empty key -/
def unkeyedSig : Bytes := ascii "882c931924330400979b2dc3edaa6e209c3ef43c3a5686d9239d6811ce59f3b0"

/-- HMAC with the empty key and JSON, on this body -/
def unkeyedCodec : PeerCodec where
  hmacVerify secret payload tag :=
    decide (secret = []) && decide (payload = upBody.body) &&
      decide (hexDecode unkeyedSig = some tag)
  fromSlice body := if body = upBody.body then some upBody.payload else none

/-- a node whose operator has not set `GEO_PEER_SECRET` -/
def unkeyedState : GeoState := { meshState with config := { meshConfig with peerSecret := [] } }

/-- without a secret the DoH receiver takes a heartbeat that is signed with the empty key -/
theorem unkeyed_heartbeat_stored :
    ¬ (FollowsRules unkeyedState 1001
        (unkeyedState.answered 1001 (dohPeerHeartbeat unkeyedCodec unkeyedState.config
          (signedHeaders unkeyedSig) (ipv4 127 0 0 1) [upBody.body].flatten 1001))
        (PeerRules unkeyedCodec unkeyedState.config
          (extractClientIp (signedHeaders unkeyedSig) (ipv4 127 0 0 1))
          (signedHeaders unkeyedSig).peerSignature [upBody.body].flatten 1001) ∧
      FollowsRules unkeyedState 1001
        (unkeyedState.answered 1001 (h3PeerHeartbeat unkeyedCodec unkeyedState.config
          (signedHeaders unkeyedSig) (ipv4 203 0 113 11) [upBody.body] 1001))
        (PeerRules unkeyedCodec unkeyedState.config (ipv4 203 0 113 11)
          (signedHeaders unkeyedSig).peerSignature [upBody.body].flatten 1001)) := by
  rintro ⟨hdoh, -⟩
  have hsigned : SignedBy unkeyedCodec unkeyedState.config
      (extractClientIp (signedHeaders unkeyedSig) (ipv4 127 0 0 1))
      (signedHeaders unkeyedSig).peerSignature [upBody.body].flatten upBody.payload := by
    refine ⟨?_, ⟨unkeyedSig, ?_, ?_⟩, ?_⟩
    · decide +kernel
    · decide +kernel
    · decide +kernel
    · decide +kernel
  have hstale := ((doh_follows_iff (by decide)).mp hdoh upBody.payload (by decide +kernel)
    hsigned).2 rfl
  unfold Stale at hstale
  exact absurd hstale (by decide)

end DnsResolver
