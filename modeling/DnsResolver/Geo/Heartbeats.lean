import DnsResolver.Geo.Peer

/-!
# Sequences of heartbeats

What the registry knows of a node after any sequence of requests to the receivers: losses,
duplicates, replays, any order.

* `newest`                    the delivered heartbeat with the greatest timestamp;
* `heartbeat_order_iff`       when the stored flag is that of the newest heartbeat;
* `silent_peer_excluded`      a node that has stopped signing is excluded after a bounded time.
-/

namespace DnsResolver

variable {codec : PeerCodec} {geo geo' : GeoState} {name : String} {d : Delivery}
  {p n : HeartbeatPayload}

/-! ## one delivery -/

theorem checkPayload_ok {body : Bytes} {now : Nat}
    (h : checkPayload codec body now = some (.ok p)) :
    codec.fromSlice body = some p ∧ ∃ skew, skewSecs now p.timestamp = some skew ∧ skew ≤ 60 := by
  unfold checkPayload at h
  split at h
  · cases h
  · rename_i payload hp
    obtain ⟨skew, hskew, h⟩ := Option.map_eq_some_iff.mp h
    split at h
    · cases h
    · rename_i hle
      obtain rfl := Except.ok.inj h
      exact ⟨hp, skew, hskew, by omega⟩

theorem Delivery.received_ok (h : d.received codec geo.config = some (.ok p)) :
    ∃ body sig, codec.verify geo.config.peerSecret body sig = true ∧
      codec.fromSlice body = some p ∧
      ∃ skew, skewSecs d.checkedAt p.timestamp = some skew ∧ skew ≤ 60 := by
  have hverified : ∀ body sig, (if !codec.verify geo.config.peerSecret body sig then
      some (.error .Unauthorized) else checkPayload codec body d.checkedAt) = some (.ok p) →
      ∃ body sig, codec.verify geo.config.peerSecret body sig = true ∧
        codec.fromSlice body = some p ∧
        ∃ skew, skewSecs d.checkedAt p.timestamp = some skew ∧ skew ≤ 60 := by
    intro body sig h
    split at h
    · cases h
    · rename_i hv
      refine ⟨body, sig, ?_, checkPayload_ok h⟩
      simpa using hv
  unfold received at h
  split at h
  · unfold handlePeerHeartbeat at h
    split at h
    · cases h
    · split at h
      · cases h
      · exact hverified _ _ h
  · unfold handleH3PeerHeartbeat at h
    split at h
    · cases h
    · dsimp only at h
      split at h
      · cases h
      · cases h
      · exact hverified _ _ h

/-- the skew test bounds the clock by the timestamp, also for timestamps `as i64` makes negative -/
theorem skewSecs_le {now skew : Nat} {ts : UInt64} (hnow : now < 2 ^ 63)
    (h : skewSecs now ts = some skew) : now ≤ ts.toNat + skew := by
  unfold skewSecs at h
  dsimp only at h
  split at h
  · have hskew := Option.some.inj h
    unfold asI64 at hskew
    rw [if_pos hnow] at hskew
    split at hskew <;> omega
  · cases h

theorem deliver_config {status : StatusCode} (h : deliver codec geo d = some (status, geo')) :
    geo'.config = geo.config := by
  obtain ⟨r, -, hr⟩ := Option.map_eq_some_iff.mp h
  cases r with
  | error s => rw [← (Prod.mk.inj hr).2]
  | ok p => rw [← (Prod.mk.inj hr).2]; rfl

theorem get_applyPeerHeartbeat (geo : GeoState) (p : HeartbeatPayload) (now : Nat)
    (name : String) :
    (geo.applyPeerHeartbeat p now).health.get name =
      if name = p.node then
        (geo.health.get p.node).map fun h => h.applyPeerHeartbeat p.healthy p.timestamp now
      else geo.health.get name :=
  HealthRegistry.get_update _ _ _ _

/-! ## sequences -/

theorem deliverAll_nil : deliverAll codec [] geo = some geo := rfl

theorem deliverAll_append {ds es : List Delivery} :
    deliverAll codec (ds ++ es) geo =
      (deliverAll codec ds geo).bind fun geo' => deliverAll codec es geo' := by
  unfold deliverAll
  rw [List.foldlM_append]
  rfl

theorem deliverAll_cons {ds : List Delivery} :
    deliverAll codec (d :: ds) geo =
      ((deliver codec geo d).map Prod.snd).bind fun geo' => deliverAll codec ds geo' := rfl

/-- **The invariant rule.**  What every delivery keeps holds after a sequence of them. -/
theorem deliverAll_invariant {I : GeoState → Prop} {ds : List Delivery}
    (hstep : ∀ geo d status geo', d ∈ ds → I geo → deliver codec geo d = some (status, geo') →
      I geo') (h : I geo) (hrun : deliverAll codec ds geo = some geo') : I geo' := by
  induction ds generalizing geo with
  | nil =>
    rw [deliverAll_nil] at hrun
    rw [← Option.some.inj hrun]
    exact h
  | cons d ds ih =>
    rw [deliverAll_cons] at hrun
    obtain ⟨geo1, h1, hrun⟩ := Option.bind_eq_some_iff.mp hrun
    obtain ⟨⟨status, geo2⟩, h2, rfl⟩ := Option.map_eq_some_iff.mp h1
    refine ih (fun geo d' status geo' hd => ?_) ?_ hrun
    · exact hstep geo d' status geo' (List.mem_cons_of_mem _ hd)
    · exact hstep geo d status geo2 List.mem_cons_self h h2

/-! ## the order of heartbeats -/

def newer (best : Option HeartbeatPayload) (p : HeartbeatPayload) : Option HeartbeatPayload :=
  match best with
  | none => some p
  | some n => if n.timestamp < p.timestamp then some p else some n

def newest (ps : List HeartbeatPayload) : Option HeartbeatPayload := ps.foldl newer none

theorem newest_concat (ps : List HeartbeatPayload) (p : HeartbeatPayload) :
    newest (ps ++ [p]) = newer (newest ps) p := by
  unfold newest
  rw [List.foldl_append, List.foldl_cons, List.foldl_nil]

/-- the registry holds the flag for the node after these deliveries -/
def FlagAfter (codec : PeerCodec) (geo : GeoState) (name : String) (ds : List Delivery)
    (flag : Bool) : Prop :=
  ∃ geo' h, deliverAll codec ds geo = some geo' ∧ geo'.health.get name = some h ∧
    h.peerReportedHealthy = flag

theorem FlagAfter.unique {ds : List Delivery} {a b : Bool} (ha : FlagAfter codec geo name ds a)
    (hb : FlagAfter codec geo name ds b) : a = b := by
  obtain ⟨geo1, h1, hrun1, hget1, rfl⟩ := ha
  obtain ⟨geo2, h2, hrun2, hget2, rfl⟩ := hb
  rw [hrun1] at hrun2
  obtain rfl := Option.some.inj hrun2
  rw [hget1] at hget2
  rw [Option.some.inj hget2]

theorem deliver_accepted (h : d.received codec geo.config = some (.ok p)) :
    deliver codec geo d = some (.NoContent, geo.applyPeerHeartbeat p d.appliedAt) := by
  unfold deliver
  rw [h]
  rfl

theorem deliverAll_accepted {config : GeoConfig} {ds : List Delivery}
    {ps : List HeartbeatPayload}
    (hacc : List.Forall₂ (fun d p => d.received codec config = some (.ok p)) ds ps) :
    ∀ geo : GeoState, geo.config = config → (geo.health.get name).isSome →
      ∃ geo', deliverAll codec ds geo = some geo' ∧ geo'.config = config ∧
        (geo'.health.get name).isSome := by
  induction hacc with
  | nil => exact fun geo hconfig hreg => ⟨geo, rfl, hconfig, hreg⟩
  | @cons d p ds ps hd _ ih =>
    intro geo hconfig hreg
    rw [← hconfig] at hd
    rw [deliverAll_cons, deliver_accepted hd]
    refine ih _ hconfig ?_
    rw [get_applyPeerHeartbeat]
    split
    · rename_i hname
      rw [Option.isSome_map, ← hname]
      exact hreg
    · exact hreg

theorem flagAfter_concat {ds : List Delivery} {ps : List HeartbeatPayload}
    (hreg : (geo.health.get name).isSome)
    (hacc : List.Forall₂ (fun d p => d.received codec geo.config = some (.ok p)) ds ps)
    (hd : d.received codec geo.config = some (.ok p)) (hp : p.node = name) :
    FlagAfter codec geo name (ds ++ [d]) p.healthy := by
  obtain ⟨geo1, hrun, hconfig, hreg1⟩ := deliverAll_accepted hacc geo rfl hreg
  obtain ⟨h, hget⟩ := Option.isSome_iff_exists.mp hreg1
  rw [← hconfig] at hd
  refine ⟨geo1.applyPeerHeartbeat p d.appliedAt,
    h.applyPeerHeartbeat p.healthy p.timestamp d.appliedAt, ?_, ?_, rfl⟩
  · rw [deliverAll_append, hrun, Option.bind_some, deliverAll_cons, deliver_accepted hd]
    rfl
  · rw [get_applyPeerHeartbeat, if_pos hp.symm, hp, hget]
    rfl

/-- **The order of heartbeats.**  After each delivery the stored flag is that of the newest
heartbeat delivered so far exactly if no heartbeat that comes behind a newer one differs from
it. -/
theorem heartbeat_order_iff {ds : List Delivery} {ps : List HeartbeatPayload}
    (hreg : (geo.health.get name).isSome)
    (hacc : List.Forall₂ (fun d p => d.received codec geo.config = some (.ok p)) ds ps)
    (hnode : ∀ p ∈ ps, p.node = name) :
    (∀ k < ps.length, ∀ n, newest (ps.take (k + 1)) = some n →
        FlagAfter codec geo name (ds.take (k + 1)) n.healthy) ↔
      ∀ k p n, ps[k]? = some p → newest (ps.take k) = some n → p.timestamp ≤ n.timestamp →
        p.healthy = n.healthy := by
  have hlast : ∀ k p, ps[k]? = some p → FlagAfter codec geo name (ds.take (k + 1)) p.healthy := by
    intro k p hp
    have hk : k < ps.length := (List.getElem?_eq_some_iff.mp hp).1
    have hk' : k < ds.length := by rw [hacc.length_eq]; exact hk
    obtain ⟨d, hd⟩ : ∃ d, ds[k]? = some d := ⟨_, List.getElem?_eq_getElem hk'⟩
    have hrec : d.received codec geo.config = some (.ok p) := by
      have := hacc.get (i := k) hk' hk
      rw [List.getElem?_eq_getElem hk] at hp
      rw [List.getElem?_eq_getElem hk'] at hd
      rw [← Option.some.inj hp, ← Option.some.inj hd]
      exact this
    rw [List.take_add_one, hd]
    exact flagAfter_concat hreg (List.forall₂_take k hacc) hrec
      (hnode p (List.mem_of_getElem? hp))
  constructor
  · intro h k p n hp hn hle
    refine (hlast k p hp).unique (h k (List.getElem?_eq_some_iff.mp hp).1 n ?_)
    rw [List.take_add_one, hp]
    show newest (ps.take k ++ [p]) = some n
    rw [newest_concat, hn]
    exact if_neg (UInt64.not_lt.mpr hle)
  · intro h k hk n hn
    have hp := List.getElem?_eq_getElem hk
    have hflag := hlast k _ hp
    rw [List.take_add_one, hp] at hn
    replace hn : newest (ps.take k ++ [ps[k]]) = some n := hn
    rw [newest_concat] at hn
    cases hbest : newest (ps.take k) with
    | none =>
      rw [hbest] at hn
      rw [← Option.some.inj hn]
      exact hflag
    | some best =>
      rw [hbest] at hn
      unfold newer at hn
      dsimp only at hn
      split at hn
      · rw [← Option.some.inj hn]
        exact hflag
      · rename_i hle
        rw [← Option.some.inj hn, ← h k _ best hp hbest (UInt64.not_lt.mp hle)]
        exact hflag

/-! ### two heartbeats -/

/-- a signed body, with its tag in hexadecimal -/
structure SignedBody where
  body : Bytes
  sigHex : Bytes
  payload : HeartbeatPayload

def meshSecret : Bytes :=
  (hexDecode (ascii "00112233445566778899aabbccddeeff")).getD []

/-- HMAC and JSON on these bodies, all under one secret -/
def codecOf (table : List SignedBody) : PeerCodec where
  hmacVerify secret payload tag :=
    decide (secret = meshSecret) &&
      table.any fun e => decide (e.body = payload) && decide (hexDecode e.sigHex = some tag)
  fromSlice body := (table.find? fun e => decide (e.body = body)).map SignedBody.payload

def upBody : SignedBody where
  body := ascii "\x7b\"node\":\"asia-1\",\"timestamp\":1000,\"healthy\":true\x7d"
  sigHex := ascii "2baf0d375cba45fddb01e12250088867d2ed7422a52a4bced5799967a896e2f5"
  payload := ⟨"asia-1", 1000, true⟩

def downBody : SignedBody where
  body := ascii "\x7b\"node\":\"asia-1\",\"timestamp\":1010,\"healthy\":false\x7d"
  sigHex := ascii "3aab4f002a3f68c9cb5af159ad93a37680551900d4e8b536d84834fb9dc016d7"
  payload := ⟨"asia-1", 1010, false⟩

def meshConfig : GeoConfig :=
  { GeoConfig.unset with
    nodes := [{ name := "asia-1", ipv4 := some ⟨#v[203, 0, 113, 11]⟩ },
      { name := "europe-1", ipv4 := some ⟨#v[203, 0, 113, 12]⟩ }]
    selfNode := some "europe-1"
    peerSecret := meshSecret
    peerAllowedIps := [.V4 ⟨#v[203, 0, 113, 11]⟩, .V4 ⟨#v[203, 0, 113, 12]⟩] }

def meshState : GeoState := ⟨meshConfig, HealthRegistry.new meshConfig.nodes 900, fun _ _ _ => 0⟩

/-- a request of the node to the DoH receiver -/
def post (e : SignedBody) (checkedAt appliedAt : Nat) (h : checkedAt < 2 ^ 63) : Delivery where
  sourceIp := .V4 ⟨#v[203, 0, 113, 11]⟩
  signature := some e.sigHex
  endpoint := .doh e.body
  checkedAt := checkedAt
  appliedAt := appliedAt
  checked_lt := h

theorem codecOf_verify {table : List SignedBody} {e : SignedBody} (he : e ∈ table)
    (hsig : (hexDecode e.sigHex).isSome) :
    (codecOf table).verify meshSecret e.body e.sigHex = true := by
  obtain ⟨tag, htag⟩ := Option.isSome_iff_exists.mp hsig
  unfold PeerCodec.verify
  rw [htag]
  show (decide (meshSecret = meshSecret) && table.any fun e' =>
    decide (e'.body = e.body) && decide (hexDecode e'.sigHex = some tag)) = true
  rw [decide_eq_true rfl, Bool.true_and, List.any_eq_true]
  exact ⟨e, he, by rw [decide_eq_true rfl, decide_eq_true htag]; rfl⟩

theorem post_received {table : List SignedBody} {e : SignedBody} {geo : GeoState}
    (appliedAt : Nat) {checkedAt skew : Nat} (hgeo : geo.config = meshConfig)
    (hfind : (table.find? fun e' => decide (e'.body = e.body)) = some e)
    (hsig : (hexDecode e.sigHex).isSome) (h : checkedAt < 2 ^ 63)
    (hskew : skewSecs checkedAt e.payload.timestamp = some skew) (hle : skew ≤ 60) :
    (post e checkedAt appliedAt h).received (codecOf table) geo.config = some (.ok e.payload) := by
  have hallowed : meshConfig.peerAllowedIps.contains (.V4 ⟨#v[203, 0, 113, 11]⟩) = true := by
    decide
  have hverify := codecOf_verify (List.mem_of_find?_eq_some hfind) hsig
  have hparse : (codecOf table).fromSlice e.body = some e.payload := by
    show (table.find? fun e' => decide (e'.body = e.body)).map SignedBody.payload = _
    rw [hfind]
    rfl
  rw [hgeo]
  show handlePeerHeartbeat (codecOf table) meshConfig (.V4 ⟨#v[203, 0, 113, 11]⟩)
    (some e.sigHex) e.body checkedAt = _
  unfold handlePeerHeartbeat checkPayload
  rw [hallowed, hparse]
  dsimp only
  rw [show meshConfig.peerSecret = meshSecret from rfl, hverify, hskew, Option.map_some,
    if_neg (Nat.not_lt.mpr hle)]
  rfl

theorem find_first (e : SignedBody) (table : List SignedBody) :
    ((e :: table).find? fun e' => decide (e'.body = e.body)) = some e :=
  List.find?_cons_of_pos (decide_eq_true rfl)

theorem find_second {e e₂ : SignedBody} (h : e.body ≠ e₂.body) :
    ([e, e₂].find? fun e' => decide (e'.body = e₂.body)) = some e₂ := by
  rw [List.find?_cons_of_neg (by simpa using h), find_first]

theorem upBody_signed : (hexDecode upBody.sigHex).isSome := by decide

theorem downBody_signed : (hexDecode downBody.sigHex).isSome := by decide

/-- the heartbeats arrive in the order of their times -/
def inTime : List Delivery :=
  [post upBody 1001 1001 (by decide), post downBody 1011 1011 (by decide)]

theorem inTime_accepted :
    List.Forall₂ (fun d p => d.received (codecOf [upBody, downBody]) meshState.config =
      some (.ok p)) inTime [upBody.payload, downBody.payload] := by
  have hup : skewSecs 1001 upBody.payload.timestamp = some 1 := by decide
  have hdown : skewSecs 1011 downBody.payload.timestamp = some 1 := by decide
  have hother : upBody.body ≠ downBody.body := by decide
  exact .cons (post_received 1001 rfl (find_first upBody [downBody]) upBody_signed (by decide) hup
    (by decide)) (.cons (post_received 1011 rfl (find_second hother) downBody_signed
      (by decide) hdown (by decide)) .nil)

theorem meshState_registered : (meshState.health.get "asia-1").isSome := by decide

theorem heartbeat_order_in_time :
    List.Forall₂ (fun d p => d.received (codecOf [upBody, downBody]) meshState.config =
        some (.ok p)) inTime [upBody.payload, downBody.payload] ∧
    ∀ k < 2, ∀ n, newest ([upBody.payload, downBody.payload].take (k + 1)) = some n →
      FlagAfter (codecOf [upBody, downBody]) meshState "asia-1" (inTime.take (k + 1))
        n.healthy := by
  refine ⟨inTime_accepted, ?_⟩
  refine (heartbeat_order_iff meshState_registered inTime_accepted (by decide +kernel)).mpr ?_
  rintro (_ | _ | k) p n hp hn hle
  · cases hn
  · obtain rfl := Option.some.inj hp
    obtain rfl := Option.some.inj hn
    exact absurd hle (by decide)
  · cases hp

/-- the first heartbeat comes again after the second one, and its flag is stored again -/
theorem replayed_heartbeat_stored :
    List.Forall₂ (fun d p => d.received (codecOf [upBody, downBody]) meshState.config =
        some (.ok p)) (inTime ++ [post upBody 1012 1012 (by decide)])
      [upBody.payload, downBody.payload, upBody.payload] ∧
    ¬ ∀ k < 3, ∀ n,
      newest ([upBody.payload, downBody.payload, upBody.payload].take (k + 1)) = some n →
      FlagAfter (codecOf [upBody, downBody]) meshState "asia-1"
        ((inTime ++ [post upBody 1012 1012 (by decide)]).take (k + 1)) n.healthy := by
  have hskew : skewSecs 1012 upBody.payload.timestamp = some 12 := by decide
  have hagain : (post upBody 1012 1012 (by decide)).received (codecOf [upBody, downBody])
      meshState.config = some (.ok upBody.payload) :=
    post_received 1012 rfl (find_first upBody [downBody]) upBody_signed (by decide) hskew
      (by decide)
  refine ⟨List.rel_append inTime_accepted (.cons hagain .nil), fun hall => ?_⟩
  have hclaim := hall 2 (by decide) downBody.payload rfl
  have hstored := flagAfter_concat meshState_registered inTime_accepted hagain rfl
  exact absurd (hstored.unique hclaim) (by decide)

/-! ## silence -/

/-- the last heartbeat the registry knows of the node came by then -/
def HeardBy (name : String) (limit : Nat) (geo : GeoState) : Prop :=
  ∀ h, geo.health.get name = some h → h.peerLastHeartbeatAt ≤ limit

theorem heardBy_new (config : GeoConfig) (score : IpAddr → GeoNode → NodeHealth → ℚ)
    (start limit : Nat) :
    HeardBy name limit ⟨config, HealthRegistry.new config.nodes start, score⟩ := by
  intro h hget
  obtain ⟨e, he, rfl⟩ := Option.map_eq_some_iff.mp hget
  obtain ⟨n, -, rfl⟩ := List.mem_map.mp (List.mem_of_find?_eq_some he)
  exact Nat.zero_le _

/-- a delivery is stored at the latest `lag` after its skew test -/
theorem HeardBy.deliver {T lag : Nat} {status : StatusCode} (h : HeardBy name (T + 60 + lag) geo)
    (hsigned : ∀ body sig p, codec.verify geo.config.peerSecret body sig = true →
      codec.fromSlice body = some p → p.node = name → p.timestamp.toNat ≤ T)
    (hlag : d.appliedAt ≤ d.checkedAt + lag)
    (hd : deliver codec geo d = some (status, geo')) : HeardBy name (T + 60 + lag) geo' := by
  obtain ⟨r, hr, heq⟩ := Option.map_eq_some_iff.mp hd
  cases r with
  | error s =>
    rw [← (Prod.mk.inj heq).2]
    exact h
  | ok p =>
    rw [← (Prod.mk.inj heq).2]
    intro e he
    rw [get_applyPeerHeartbeat] at he
    split at he
    · rename_i hname
      obtain ⟨e', -, rfl⟩ := Option.map_eq_some_iff.mp he
      obtain ⟨body, sig, hv, hparse, skew, hskew, hle⟩ := Delivery.received_ok hr
      have hT := hsigned body sig p hv hparse hname.symm
      have hnow := skewSecs_le d.checked_lt hskew
      show d.appliedAt ≤ T + 60 + lag
      omega
    · exact h e he

theorem excludedByPeerMesh_of_silent {h : NodeHealth} {t interval limit : Nat}
    (hlast : h.peerLastHeartbeatAt ≤ limit) (ht : limit + 5 * interval < t)
    (hr : h.registeredAt + 5 * interval < t) : h.excludedByPeerMesh t interval = true := by
  unfold NodeHealth.excludedByPeerMesh
  dsimp only
  split
  · rw [decide_eq_true_eq]
    omega
  · rw [if_pos]
    omega

/-- **Silence.**  If no heartbeat signed for a node carries a timestamp after `T`, the node is
excluded from `T + 60 + 5 · interval` on, and the time between the two clock readings of a
delivery, whatever was delivered. -/
theorem silent_peer_excluded (config : GeoConfig) (score : IpAddr → GeoNode → NodeHealth → ℚ)
    (start T lag : Nat) (signed : Bytes → Prop) {t : Nat} {ds : List Delivery} {h : NodeHealth}
    (hmac : ∀ body sig, codec.verify config.peerSecret body sig = true → signed body)
    (hsilent : ∀ body p, signed body → codec.fromSlice body = some p → p.node = name →
      p.timestamp.toNat ≤ T)
    (hmesh : config.selfNode.isSome ∧ config.peerSecret ≠ [])
    (hself : config.selfNode ≠ some name)
    (hlag : ∀ d ∈ ds, d.appliedAt ≤ d.checkedAt + lag)
    (hrun : deliverAll codec ds ⟨config, HealthRegistry.new config.nodes start, score⟩ = some geo)
    (hget : geo.health.get name = some h)
    (ht : T + 60 + lag + 5 * config.peerHeartbeatIntervalSecs < t)
    (hr : h.registeredAt + 5 * config.peerHeartbeatIntervalSecs < t) :
    h.excludedByPeerMesh t config.peerHeartbeatIntervalSecs = true ∧
      ∀ client needIpv6, ∀ s ∈ geo.scoreAll client needIpv6 t, s.nodeName ≠ name := by
  obtain ⟨hconfig, hheard⟩ := deliverAll_invariant
    (I := fun geo => geo.config = config ∧ HeardBy name (T + 60 + lag) geo)
    (fun geo d status geo' hd ⟨hc, hheard⟩ hdel => by
      refine ⟨(deliver_config hdel).trans hc, hheard.deliver (fun body sig p hv hp hn => ?_)
        (hlag d hd) hdel⟩
      rw [hc] at hv
      exact hsilent body p (hmac body sig hv) hp hn)
    ⟨rfl, heardBy_new config score start _⟩ hrun
  have hex := excludedByPeerMesh_of_silent (hheard h hget) ht hr
  refine ⟨hex, fun client needIpv6 s hs => ?_⟩
  refine GeoState.not_mem_scoreAll ?_ (hconfig ▸ hself) hget (hconfig ▸ hex) client needIpv6 hs
  unfold GeoState.peerMeshEnabled
  rw [hconfig, hmesh.1]
  cases hsecret : config.peerSecret with
  | nil => exact absurd hsecret hmesh.2
  | cons b bs => rfl

theorem codecOf_signed {table : List SignedBody} {secret body sig : Bytes}
    (h : (codecOf table).verify secret body sig = true) : ∃ e ∈ table, e.body = body := by
  unfold PeerCodec.verify at h
  split at h
  · cases h
  · obtain ⟨-, hany⟩ := Bool.and_eq_true_iff.mp h
    obtain ⟨e, he, hbody⟩ := List.any_eq_true.mp hany
    exact ⟨e, he, of_decide_eq_true (Bool.and_eq_true_iff.mp hbody).1⟩

theorem codecOf_up {body : Bytes} {p : HeartbeatPayload}
    (h : (codecOf [upBody]).fromSlice body = some p) : p.timestamp.toNat ≤ 1000 := by
  obtain ⟨e, he, rfl⟩ := Option.map_eq_some_iff.mp h
  rw [List.mem_singleton.mp (List.mem_of_find?_eq_some he)]
  decide

theorem silent_peer_after_replay : ∃ geo h,
    deliverAll (codecOf [upBody]) [post upBody 1001 1001 (by decide),
      post upBody 1060 1060 (by decide)] meshState = some geo ∧
    geo.health.get "asia-1" = some h ∧ h.excludedByPeerMesh 1111 10 = true ∧
    ∀ client needIpv6, ∀ s ∈ geo.scoreAll client needIpv6 1111, s.nodeName ≠ "asia-1" := by
  have hget : ((deliverAll (codecOf [upBody]) [post upBody 1001 1001 (by decide),
      post upBody 1060 1060 (by decide)] meshState).bind fun geo =>
        geo.health.get "asia-1") =
      some { peerLastHeartbeatAt := 1060, registeredAt := 900 } := by
    have hfirst : skewSecs 1001 upBody.payload.timestamp = some 1 := by decide
    have hagain : skewSecs 1060 upBody.payload.timestamp = some 60 := by decide
    rw [deliverAll_cons, deliver_accepted (post_received 1001 rfl (find_first upBody [])
      upBody_signed (by decide) hfirst (by decide)), Option.map_some, Option.bind_some,
      deliverAll_cons, deliver_accepted (post_received 1060 rfl (find_first upBody [])
        upBody_signed (by decide) hagain (by decide))]
    rfl
  obtain ⟨geo, hrun, hget⟩ := Option.bind_eq_some_iff.mp hget
  refine ⟨geo, _, hrun, hget, silent_peer_excluded meshConfig (fun _ _ _ => 0) 900 1000 0
    (fun body => body = upBody.body) ?_ (fun body p _ hp _ => codecOf_up hp)
    (by decide +kernel) (by decide +kernel) (by decide +kernel) hrun hget (by decide +kernel)
    (by decide +kernel)⟩
  intro body sig hv
  obtain ⟨e, he, rfl⟩ := codecOf_signed hv
  rw [List.mem_singleton.mp he]

/-- the clock goes on by a second between the skew test and the store -/
theorem stored_later_not_excluded : ∃ geo h,
    deliverAll (codecOf [upBody]) [post upBody 1060 1061 (by decide)] meshState = some geo ∧
    (∀ body p, (codecOf [upBody]).fromSlice body = some p → p.timestamp.toNat ≤ 1000) ∧
    geo.health.get "asia-1" = some h ∧ 1000 + 60 + 5 * 10 < 1111 ∧
    h.registeredAt + 5 * 10 < 1111 ∧ h.excludedByPeerMesh 1111 10 = false ∧
    ∃ s ∈ geo.scoreAll (.V4 ⟨#v[198, 51, 100, 9]⟩) false 1111, s.nodeName = "asia-1" := by
  have hgeo : deliverAll (codecOf [upBody]) [post upBody 1060 1061 (by decide)] meshState =
      some { meshState with health := ⟨[
        ("asia-1", { peerLastHeartbeatAt := 1061, registeredAt := 900 }),
        ("europe-1", { registeredAt := 900 })]⟩ } := by
    have hskew : skewSecs 1060 upBody.payload.timestamp = some 60 := by decide
    rw [deliverAll_cons, deliver_accepted (post_received 1061 rfl (find_first upBody [])
      upBody_signed (by decide) hskew (by decide))]
    rfl
  refine ⟨_, { peerLastHeartbeatAt := 1061, registeredAt := 900 }, hgeo,
    fun body p hp => codecOf_up hp, by decide +kernel, by decide, by decide, by decide,
    ⟨"asia-1", 0⟩, ?_, rfl⟩
  unfold GeoState.scoreAll
  rw [List.mem_mergeSort]
  refine List.mem_filterMap.mpr ⟨{ name := "asia-1", ipv4 := some ⟨#v[203, 0, 113, 11]⟩ }, ?_, ?_⟩
  · decide +kernel
  · decide +kernel

end DnsResolver
