import DnsResolver.Geo.Mesh

/-!
# Runs of the mesh

What holds in every run of a fleet, whatever is lost, comes twice, late or from others.

* `Mesh.Run.inv`       the invariant;
* `step_ne_none`       no request takes a node down;
* `stored_was_sent`    a heartbeat that is stored was posted by its node, in time;
* `posted_admitted`    a posted heartbeat that comes in time is taken;
* `ranked_iff_heard`   which nodes are ranked.
-/

namespace DnsResolver

section
variable {codec : MeshCodec} {start m m' : Mesh} {e : MeshEvent} {log log' : List MeshLog}
  {nameOf : Text → Option Name} {vars : Vars}

/-! ## the invariant in a run -/

theorem MeshInv.secret (hfleet : Fleet nameOf vars start) (hinv : MeshInv codec start log m)
    {i : Nat} {a : Member} (ha : m.members[i]? = some a) :
    a.settings.toGeoConfig.peerSecret ≠ [] := by
  obtain ⟨a₀, ha₀, hsettings, -⟩ := hinv.same i a ha
  rw [hsettings]
  exact hfleet.secret a₀ (List.mem_of_getElem? ha₀)

theorem MeshInv.signed (hinv : MeshInv codec start log m) {i : Nat} {a : Member} {r : PeerRequest}
    {p : HeartbeatPayload} (ha : m.members[i]? = some a) (hallow : m.Allows codec (.arrive i r))
    (hsigned : SignedBy codec.toPeerCodec a.settings.toGeoConfig r.sourceIp
      r.headers.peerSignature r.body p) : ∃ j, .sent j p ∈ log := by
  obtain ⟨sig, hsig, hverify⟩ := hsigned.verified
  obtain ⟨post, hpost, hbody⟩ := hallow a sig ha hsig hverify
  obtain ⟨j, q, hq, hvec⟩ := hinv.posted post hpost
  have hparsed := hsigned.parsed
  rw [← hbody, hvec, codec.fromSlice_toVec] at hparsed
  rw [← Option.some.inj hparsed]
  exact ⟨j, hq⟩

theorem MeshInv.skew (hinv : MeshInv codec start log m) {i j : Nat} {a : Member}
    {p : HeartbeatPayload} (ha : m.members[i]? = some a) (hp : .sent j p ∈ log) :
    ∃ skew, skewSecs (m.reading i) p.timestamp = some skew ∧
      (60 < skew ↔ Stale (m.reading i) p.timestamp) :=
  skewSecs_spec (hinv.reading_lt ha) (.inl (hinv.backed.sent j p hp).2.1)

/-- **One step.** -/
theorem MeshInv.step (hfleet : Fleet nameOf vars start) (hinv : MeshInv codec start log m)
    (hallow : m.Allows codec e) (hstep : m.step codec e = some (m', log')) :
    MeshInv codec start (log ++ log') m' := by
  rcases Mesh.step_cases hstep with ⟨rfl, rfl⟩ | ⟨i, a, p, rfl, ha, hp, rfl, rfl⟩ |
    ⟨i, r, a, p, rfl, ha, hr, rfl, rfl⟩ | ⟨k, i, p, rfl, hk, rfl, rfl⟩ | ⟨secs, rfl, rfl, rfl⟩
  · rw [List.append_nil]
    exact hinv
  · exact hinv.tick ha hp
  · obtain ⟨hsigned, skew, hskew, hle⟩ := PeerRequest.received_ok (hinv.secret hfleet ha) hr
    obtain ⟨j, hj⟩ := hinv.signed ha hallow hsigned
    obtain ⟨skew', hskew', hstale⟩ := hinv.skew ha hj
    rw [hskew] at hskew'
    obtain rfl := Option.some.inj hskew'
    exact hinv.arrive ha ⟨j, hj⟩ fun h => absurd (hstale.mpr h) (Nat.not_lt.mpr hle)
  · exact hinv.store hfleet.clock_pos hk
  · rw [List.append_nil]
    exact hinv.wait hallow

variable {es : List MeshEvent}

theorem Mesh.Run.inv (hfleet : Fleet nameOf vars start) (hrun : Mesh.Run codec start es log m) :
    MeshInv codec start log m := by
  induction hrun with
  | nil => exact hfleet.meshInv codec
  | concat _ hallow hstep ih => exact ih.step hfleet hallow hstep

/-- **No request takes a node down.**  Whatever comes, a signature that verifies is that of a
heartbeat some node has sent, and its time does not overflow. -/
theorem step_ne_none (hfleet : Fleet nameOf vars start) (hrun : Mesh.Run codec start es log m)
    (hallow : m.Allows codec e) : m.step codec e ≠ none := by
  have hinv := hrun.inv hfleet
  intro hnone
  cases e with
  | tick i =>
    unfold Mesh.step at hnone
    dsimp only at hnone
    split at hnone <;> cases hnone
  | arrive i r =>
    replace hnone := Option.map_eq_none_iff.mp hnone
    unfold Mesh.answer at hnone
    cases ha : m.members[i]? with
    | none =>
      rw [ha] at hnone
      cases hnone
    | some a =>
      rw [ha] at hnone
      obtain ⟨p, hsigned, hskew⟩ := PeerRequest.received_none (hinv.secret hfleet ha) hnone
      obtain ⟨j, hj⟩ := hinv.signed ha hallow hsigned
      obtain ⟨skew, hskew', -⟩ := hinv.skew ha hj
      rw [Mesh.reading_eq ha, hskew] at hskew'
      cases hskew'
  | store k =>
    unfold Mesh.step at hnone
    dsimp only at hnone
    split at hnone <;> cases hnone
  | wait secs => cases hnone

/-- **What is stored was sent.**  A heartbeat that a node stores was posted by the node it names,
which called itself healthy, and was taken within a minute of its time on the clocks of the two. -/
theorem stored_was_sent (hfleet : Fleet nameOf vars start)
    (hrun : Mesh.Run codec start es log m) {i now : Nat} {p : HeartbeatPayload}
    (hp : .stored i p now ∈ log) :
    ∃ j a checked, .sent j p ∈ log ∧ start.members[j]? = some a ∧
      a.settings.selfNode = some p.node ∧ p.healthy = true ∧ .taken i p checked ∈ log ∧
      checked ≤ now ∧ ((checked : Int) - p.timestamp.toNat).natAbs ≤ 60 := by
  have hlog := (hrun.inv hfleet).backed
  obtain ⟨checked, htaken, hle⟩ := hlog.stored i p now hp
  obtain ⟨⟨j, hj⟩, -, htimely⟩ := hlog.taken i p checked htaken
  obtain ⟨hhealthy, -, a, ha, hself⟩ := hlog.sent j p hj
  exact ⟨j, a, checked, hj, ha, hself, hhealthy, htaken, hle, Nat.not_lt.mp htimely⟩

/-! ### delivery -/

theorem Fleet.same (hfleet : Fleet nameOf vars start) {a b : Member} (ha : a ∈ start.members)
    (hb : b ∈ start.members) :
    b.settings = { a.settings with selfNode := b.settings.selfNode } := by
  obtain ⟨name, hname⟩ := hfleet.settings a ha
  obtain ⟨other, hother⟩ := hfleet.settings b hb
  rw [Vars.fromEnv_selfNode] at hname hother
  obtain ⟨s, hs, hsa⟩ := Option.map_eq_some_iff.mp hname
  obtain ⟨s', hs', hsb⟩ := Option.map_eq_some_iff.mp hother
  rw [hs] at hs'
  obtain rfl := Option.some.inj hs'
  rw [← hsa, ← hsb]

theorem sign_verifies (codec : MeshCodec) (secret payload : Bytes) :
    codec.verify secret payload (utf8 (codec.sign secret payload)) = true := by
  have hencoded : Readable (codec.sign secret payload) :=
    (hexSpells_iff.mp ⟨_, hexSpells_hexEncode _⟩).1
  have hverify := verifyText_eq codec.toPeerMac secret payload (not_straddling hencoded)
  rw [verifyText_sign] at hverify
  exact (Option.some.inj hverify).symm

/-- a heartbeat of the log that comes in time -/
theorem MeshInv.answer_eq (hfleet : Fleet nameOf vars start) (hinv : MeshInv codec start log m)
    {i j : Nat} {b : Member} {p : HeartbeatPayload} {r : PeerRequest} (hsent : .sent j p ∈ log)
    (hb : m.members[i]? = some b)
    (hsigned : SignedBy codec.toPeerCodec b.settings.toGeoConfig r.sourceIp
      r.headers.peerSignature r.body p) (hshort : r.body.length ≤ 4096)
    (htime : ¬ Stale (m.reading i) p.timestamp) : m.answer codec i r = some (.ok p) := by
  obtain ⟨skew, hskew, hstale⟩ := hinv.skew hb hsent
  have hle : skew ≤ 60 := Nat.not_lt.mp fun hlt => htime (hstale.mp hlt)
  unfold Mesh.answer
  rw [hb]
  rw [Mesh.reading_eq hb] at hskew
  exact PeerRequest.received_signed (hinv.secret hfleet hb) hsigned hshort hskew hle

/-- **A heartbeat that comes is taken.**  The request a node has posted is answered with 204 by
every node it comes to from an address of its sender, over either endpoint, if its body has no more
than 4096 bytes and the two clocks are within a minute. -/
theorem posted_admitted (hfleet : Fleet nameOf vars start)
    (hrun : Mesh.Run codec start es log m) {i j : Nat} {a b : Member} {p : HeartbeatPayload}
    {target : PeerTarget} {r : PeerRequest} (hsent : .sent j p ∈ log)
    (ha : start.members[j]? = some a) (hb : m.members[i]? = some b)
    (hbody : r.body = (a.settings.post codec p target).body)
    (hsig : r.headers.peerSignature = some (utf8 (a.settings.post codec p target).signature))
    (hsource : ∃ n ∈ a.settings.nodes, n.name = p.node ∧ r.sourceIp ∈ n.addresses)
    (hshort : r.body.length ≤ 4096)
    (htime : ((m.reading i : Int) - p.timestamp.toNat).natAbs ≤ 60) :
    m.answer codec i r = some (.ok p) := by
  have hinv := hrun.inv hfleet
  obtain ⟨b₀, hb₀, hsettings, -⟩ := hinv.same i b hb
  have hsame := hfleet.same (List.mem_of_getElem? ha) (List.mem_of_getElem? hb₀)
  rw [← hsettings] at hsame
  obtain ⟨n, hn, -, haddr⟩ := hsource
  have hsigned : SignedBy codec.toPeerCodec b.settings.toGeoConfig r.sourceIp
      r.headers.peerSignature r.body p := by
    refine ⟨?_, ⟨_, hsig, ?_⟩, ?_⟩
    · show r.sourceIp ∈ b.settings.peerAllowedIps
      rw [hsame]
      exact a.settings.allowed n hn _ haddr
    · show codec.verify b.settings.peerSecret.1 r.body _ = true
      rw [hbody, hsame]
      exact sign_verifies codec a.settings.peerSecret.1 (codec.toVec p)
    · rw [hbody]
      exact codec.fromSlice_toVec p
  exact hinv.answer_eq hfleet hsent hb hsigned hshort (Nat.not_lt.mpr htime)

/-! ### ranking -/

theorem HealthRegistry.new_isSome {nodes : List GeoNode} {n : GeoNode} (hn : n ∈ nodes)
    (now : Nat) : ((HealthRegistry.new nodes now).get n.name).isSome := by
  unfold HealthRegistry.new HealthRegistry.get
  rw [Option.isSome_map, List.find?_isSome]
  exact ⟨_, List.mem_map_of_mem hn, beq_self_eq_true n.name⟩

theorem GeoState.ranked_iff {geo : GeoState} {n : GeoNode} {h : NodeHealth} {t : Nat}
    {needIpv6 : Bool} (hmesh : geo.peerMeshEnabled = true) (hn : n ∈ geo.config.nodes)
    (henabled : n.enabled = true) (hipv6 : needIpv6 = true → n.ipv6.isSome)
    (hself : geo.config.selfNode ≠ some n.name) (hget : geo.health.get n.name = some h)
    (client : IpAddr) :
    (∃ s ∈ geo.scoreAll client needIpv6 t, s.nodeName = n.name) ↔
      h.excludedByPeerMesh t geo.config.peerHeartbeatIntervalSecs = false := by
  constructor
  · rintro ⟨s, hs, hname⟩
    by_contra hex
    rw [Bool.not_eq_false] at hex
    exact not_mem_scoreAll hmesh hself hget hex client needIpv6 hs hname
  · intro hex
    have hother : (geo.config.selfNode == some n.name) = false := beq_eq_false_iff_ne.mpr hself
    have hrank : geo.rank client t n = some ⟨n.name, geo.score client n h⟩ := by
      unfold rank excludes
      rw [hget, Option.bind_some, hmesh, hother]
      show (if h.excludedByPeerMesh t geo.config.peerHeartbeatIntervalSecs = true then none
        else some _) = _
      rw [hex]
      rfl
    refine ⟨⟨n.name, geo.score client n h⟩, ?_, rfl⟩
    unfold scoreAll
    rw [List.mem_mergeSort]
    refine List.mem_filterMap.mpr ⟨n, ?_, hrank⟩
    refine List.mem_filter.mpr ⟨List.mem_filter.mpr ⟨hn, henabled⟩, ?_⟩
    cases needIpv6 with
    | false => rfl
    | true => exact hipv6 rfl

theorem HealthInv.excluded_iff {i : Nat} {name : String} {started interval t : Nat}
    {h : NodeHealth} (hinv : HealthInv log i name started h) (ht : t < 2 ^ 64) :
    h.excludedByPeerMesh t interval = false ↔ t ≤ started + 5 * interval ∨
      ∃ p now, .stored i p now ∈ log ∧ p.node = name ∧ t ≤ now + 5 * interval := by
  have hgrace : ∀ since, min (interval * 5) (2 ^ 64 - 1) < t - since ↔
      ¬ t ≤ since + 5 * interval := by
    intro since
    omega
  unfold NodeHealth.excludedByPeerMesh
  dsimp only
  by_cases hzero : h.peerLastHeartbeatAt = 0
  · rw [if_pos hzero, hinv.registered, decide_eq_false_iff_not, hgrace, not_not]
    constructor
    · exact fun hle => .inl hle
    · rintro (hle | ⟨p, now, hmem, hnode, -⟩)
      · exact hle
      · exact absurd hnode (hinv.silent hzero p now hmem)
  · obtain ⟨hstarted, p, hp, hnode⟩ := hinv.heard hzero
    rw [if_neg hzero, hinv.healthy]
    by_cases hlate : min (interval * 5) (2 ^ 64 - 1) < t - h.peerLastHeartbeatAt
    · rw [if_pos hlate]
      have hlong := (hgrace _).mp hlate
      refine iff_of_false (by decide) ?_
      rintro (hle | ⟨q, now, hmem, hq, hle⟩)
      · omega
      · have hnow := hinv.latest q now hmem hq
        omega
    · rw [if_neg hlate]
      exact iff_of_true rfl
        (.inr ⟨p, _, hp, hnode, not_not.mp fun hno => hlate ((hgrace _).mpr hno)⟩)

/-- **The nodes that are ranked.**  In every run of a fleet a node ranks another one exactly in the
first five intervals after its own start and for five intervals after each heartbeat of that node
it has stored: no request of anyone else, no duplicate and no order of the handlers changes that. -/
theorem ranked_iff_heard (hfleet : Fleet nameOf vars start)
    (hrun : Mesh.Run codec start es log m) {i t : Nat} {a : Member} {n : NodeSlot}
    {selfName : String} {needIpv6 : Bool} (ha : m.members[i]? = some a)
    (hself : a.settings.selfNode = some selfName) (hn : n ∈ a.settings.nodes)
    (henabled : n.enabled = true) (hipv6 : needIpv6 = true → n.ipv6.isSome)
    (hother : n.name ≠ selfName) (ht : t < 2 ^ 64) (client : IpAddr) :
    (∃ s ∈ a.state.scoreAll client needIpv6 t, s.nodeName = n.name) ↔
      t ≤ start.reading i + 5 * a.settings.peerHeartbeatIntervalSecs ∨
      ∃ p now, .stored i p now ∈ log ∧ p.node = n.name ∧
        t ≤ now + 5 * a.settings.peerHeartbeatIntervalSecs := by
  have hinv := hrun.inv hfleet
  have hsecret := hinv.secret hfleet ha
  have hmem : n.toGeoNode ∈ a.state.config.nodes := by
    rw [a.config_eq]
    exact List.mem_map_of_mem hn
  have hmesh : a.state.peerMeshEnabled = true := by
    unfold GeoState.peerMeshEnabled
    rw [a.config_eq, List.isEmpty_eq_false_iff.mpr hsecret,
      show a.settings.toGeoConfig.selfNode = some selfName from hself]
    rfl
  have hentry : (a.state.health.get n.name).isSome := by
    obtain ⟨a₀, ha₀, hsettings, -, hnames⟩ := hinv.same i a ha
    rw [hnames, hfleet.fresh a₀ (List.mem_of_getElem? ha₀), ← hsettings]
    exact HealthRegistry.new_isSome (List.mem_map_of_mem hn) _
  obtain ⟨h, hget⟩ := Option.isSome_iff_exists.mp hentry
  rw [GeoState.ranked_iff hmesh hmem henabled hipv6 ?_ hget client,
    (hinv.health i a _ h ha hget).excluded_iff ht, a.config_eq]
  · rfl
  · rw [a.config_eq, show a.settings.toGeoConfig.selfNode = some selfName from hself]
    exact fun heq => hother (Option.some.inj heq).symm

end

/-! ## a fleet of two -/

def fleetVars : Vars := ⟨[
  ("GEO_ROUTING_ENABLED".toList, "1".toList),
  ("GEO_PEER_SECRET".toList, "00112233445566778899aabbccddeeff".toList),
  ("NODE1_NAME".toList, "asia-1".toList),
  ("NODE1_IPV4".toList, "203.0.113.11".toList),
  ("NODE1_DOH_URL".toList, "https://doh-asia.example/".toList),
  ("NODE2_NAME".toList, "europe-1".toList),
  ("NODE2_IPV4".toList, "203.0.113.12".toList),
  ("NODE2_DOH_URL".toList, "https://doh-europe.example".toList)]⟩

def fleetBase : GeoSettings :=
  (Vars.fromEnv (fun _ => none) fleetVars).get (by decide +kernel)

def fleetSettings (name : Text) : GeoSettings :=
  { fleetBase with selfNode := if name = [] then none else some (String.ofList name) }

theorem fleetSettings_fromEnv (name : Text) :
    Vars.fromEnv (fun _ => none) (fleetVars.set Vars.selfKey name) =
      some (fleetSettings name) := by
  have hbase : Vars.fromEnv (fun _ => none) fleetVars = some fleetBase := (Option.some_get _).symm
  rw [Vars.fromEnv_selfNode, hbase]
  rfl

def fleetMember (name : Text) : Member where
  settings := fleetSettings name
  enabled := show fleetBase.enabled = true by decide +kernel
  state := ⟨(fleetSettings name).toGeoConfig,
    HealthRegistry.new (fleetSettings name).toGeoConfig.nodes 990, fun _ _ _ => 0⟩
  config_eq := rfl
  ahead := 0

/-- the two nodes, ten seconds before the first heartbeat -/
def fleetStart : Mesh :=
  ⟨990, [fleetMember "asia-1".toList, fleetMember "europe-1".toList], [], []⟩

theorem fleetStart_fleet : Fleet (fun _ => none) fleetVars fleetStart := by
  have hall : ∀ a ∈ fleetStart.members, ∃ name, a = fleetMember name := by
    intro a ha
    rcases List.mem_cons.mp ha with rfl | ha
    · exact ⟨_, rfl⟩
    · exact ⟨_, List.mem_singleton.mp ha⟩
  refine ⟨?_, ?_, ?_, by decide, ?_, rfl, rfl⟩
  · intro a ha
    obtain ⟨name, rfl⟩ := hall a ha
    exact ⟨name, fleetSettings_fromEnv name⟩
  · intro a ha
    obtain ⟨name, rfl⟩ := hall a ha
    show fleetBase.peerSecret.1 ≠ []
    decide +kernel
  · intro a ha
    obtain ⟨name, rfl⟩ := hall a ha
    rfl
  · intro a ha
    obtain ⟨name, rfl⟩ := hall a ha
    show 990 + 0 < 2 ^ 63
    decide

/-! ### its bodies -/

/-- every payload that is not the one below, by numbers in the unary system -/
def unaryVec (p : HeartbeatPayload) : Bytes :=
  (if p.healthy then 1 else 0) :: [0].intercalate
    ((p.timestamp.toNat :: p.node.toList.map Char.toNat).map fun n => List.replicate n 1)

def unarySlice : Bytes → Option HeartbeatPayload
  | [] => none
  | flag :: rest =>
    match (rest.splitOn 0).map List.length with
    | [] => none
    | timestamp :: node =>
      some ⟨String.ofList (node.map Char.ofNat), UInt64.ofNat timestamp, flag = 1⟩

theorem unarySlice_unaryVec (p : HeartbeatPayload) : unarySlice (unaryVec p) = some p := by
  have hsplit : ∀ ns : List Nat, ns ≠ [] →
      (([0].intercalate (ns.map fun n => List.replicate n (1 : UInt8))).splitOn 0).map
        List.length = ns := by
    intro ns hne
    rw [List.splitOn_intercalate]
    · rw [List.map_map]
      conv_rhs => rw [← List.map_id ns]
      exact List.map_congr_left fun n _ => List.length_replicate
    · intro l hl
      obtain ⟨n, -, rfl⟩ := List.mem_map.mp hl
      exact fun hmem => absurd (List.eq_of_mem_replicate hmem) (by decide)
    · exact fun hnil => hne (List.map_eq_nil_iff.mp hnil)
  unfold unarySlice unaryVec
  dsimp only
  rw [hsplit _ (List.cons_ne_nil _ _)]
  dsimp only
  have hchars : (p.node.toList.map Char.toNat).map Char.ofNat = p.node.toList := by
    rw [List.map_map]
    conv_rhs => rw [← List.map_id p.node.toList]
    exact List.map_congr_left fun c _ => Char.ofNat_toNat c
  rw [hchars, String.ofList_toList, UInt64.ofNat_toNat]
  cases p with
  | mk node timestamp healthy =>
    cases healthy <;> rfl

/-- JSON on the payload of `upBody` -/
def meshCodec : MeshCodec where
  hmacSign := meshMac.hmacSign
  hmacVerify := meshMac.hmacVerify
  hmacVerify_iff := meshMac.hmacVerify_iff
  fromSlice body := if body = upBody.body then some upBody.payload else unarySlice body
  toVec p := if p = upBody.payload then upBody.body else unaryVec p
  fromSlice_toVec := by
    intro p
    by_cases hp : p = upBody.payload
    · rw [if_pos hp, if_pos rfl, hp]
    · have hne : unaryVec p ≠ upBody.body := by
        intro heq
        have hhead := congrArg List.head? heq
        replace hhead : (if p.healthy then (1 : UInt8) else 0) = 123 := Option.some.inj hhead
        revert hhead
        cases p.healthy <;> decide
      rw [if_neg hp, if_neg hne, unarySlice_unaryVec]

/-! ### the runs of it -/

/-- the request of the first node, over HTTP/3 -/
def fleetRequest : PeerRequest where
  headers := [(.XPeerSignature, utf8 (meshCodec.sign meshSecret upBody.body))]
  peer := ipv4 203 0 113 11
  endpoint := .h3 [upBody.body]

theorem fleetBase_secret : fleetBase.peerSecret.1 = meshSecret := by decide +kernel

theorem fleetMember_heartbeat (clock : Nat) :
    (fleetMember "asia-1".toList).heartbeat clock =
      some ⟨"asia-1", UInt64.ofNat clock, true⟩ := by
  have htargets : (fleetSettings "asia-1".toList).peerTargets ≠ [] := by decide +kernel
  have hsecret : (fleetSettings "asia-1".toList).peerSecret.1 ≠ [] := by decide +kernel
  unfold Member.heartbeat
  show (if (fleetSettings "asia-1".toList).peerSecret.1 = [] then none
    else if (fleetSettings "asia-1".toList).peerTargets = [] then none else some _) = _
  rw [if_neg hsecret, if_neg htargets]
  rfl

def fleetPosted (clock : Nat) : Mesh :=
  { fleetStart with
    clock := clock
    posted := (fleetMember "asia-1".toList).posts meshCodec upBody.payload }

theorem fleetStart_wait {m : Mesh} {secs : Nat} (hmembers : m.members = fleetStart.members)
    (hclock : m.clock + secs < 2 ^ 62) : m.Allows meshCodec (.wait secs) := by
  intro a ha
  rw [hmembers] at ha
  have hahead : a.ahead = 0 := by
    rcases List.mem_cons.mp ha with rfl | ha
    · rfl
    · rw [List.mem_singleton.mp ha]
      rfl
  show m.clock + secs + a.ahead < 2 ^ 63
  omega

theorem fleetPosted_run : Mesh.Run meshCodec fleetStart [.wait 10, .tick 0, .wait 1]
    [.sent 0 upBody.payload] (fleetPosted 1001) := by
  have hfirst : Mesh.Run meshCodec fleetStart [.wait 10] [] { fleetStart with clock := 1000 } :=
    Mesh.Run.nil.concat (fleetStart_wait rfl (by decide)) rfl
  have htick : Mesh.step meshCodec { fleetStart with clock := 1000 } (.tick 0) =
      some (fleetPosted 1000, [.sent 0 upBody.payload]) :=
    Mesh.step_tick (a := fleetMember "asia-1".toList) (p := upBody.payload) rfl
      (fleetMember_heartbeat 1000)
  have hsecond : Mesh.Run meshCodec fleetStart [.wait 10, .tick 0] [.sent 0 upBody.payload]
      (fleetPosted 1000) :=
    hfirst.concat (show Mesh.Allows meshCodec _ (.tick 0) from trivial) htick
  exact hsecond.concat (fleetStart_wait rfl (by decide)) rfl

theorem fleetRequest_signed : SignedBy meshCodec.toPeerCodec
    (fleetSettings "europe-1".toList).toGeoConfig fleetRequest.sourceIp
    fleetRequest.headers.peerSignature fleetRequest.body upBody.payload := by
  have hbody : fleetRequest.body = meshCodec.toVec upBody.payload := by decide +kernel
  refine ⟨?_, ⟨utf8 (meshCodec.sign meshSecret upBody.body), ?_, ?_⟩, ?_⟩
  · decide +kernel
  · decide +kernel
  · show meshCodec.verify fleetBase.peerSecret.1 _ _ = true
    rw [fleetBase_secret]
    exact sign_verifies meshCodec meshSecret upBody.body
  · rw [hbody]
    exact meshCodec.fromSlice_toVec upBody.payload

theorem fleetRequest_allowed : (fleetPosted 1001).Allows meshCodec (.arrive 1 fleetRequest) := by
  intro a sig _ _ _
  have htargets : (fleetSettings "asia-1".toList).peerTargets ≠ [] := by decide +kernel
  obtain ⟨target, htarget⟩ := List.exists_mem_of_ne_nil _ htargets
  refine ⟨_, List.mem_map_of_mem htarget, ?_⟩
  show meshCodec.toVec upBody.payload = fleetRequest.body
  decide +kernel

theorem posted_admitted_fleet :
    (fleetPosted 1001).answer meshCodec 1 fleetRequest = some (.ok upBody.payload) := by
  have hbody : fleetRequest.body = ((fleetSettings "asia-1".toList).post meshCodec upBody.payload
    ⟨"europe-1", []⟩).body := by decide +kernel
  exact posted_admitted fleetStart_fleet fleetPosted_run (j := 0)
    (a := fleetMember "asia-1".toList) (b := fleetMember "europe-1".toList) List.mem_cons_self
    rfl rfl hbody (by decide +kernel) (by decide +kernel) (by decide +kernel) (by decide +kernel)

theorem step_ne_none_fleet :
    (fleetPosted 1001).step meshCodec (.arrive 1 fleetRequest) ≠ none :=
  step_ne_none fleetStart_fleet fleetPosted_run fleetRequest_allowed

def fleetStored : Mesh :=
  Mesh.storeAt { fleetPosted 1002 with pending := [(1, upBody.payload)] } 0 1 upBody.payload

def fleetLog : List MeshLog :=
  [.sent 0 upBody.payload, .taken 1 upBody.payload 1001, .stored 1 upBody.payload 1002]

theorem fleetStored_run : Mesh.Run meshCodec fleetStart
    [.wait 10, .tick 0, .wait 1, .arrive 1 fleetRequest, .wait 1, .store 0] fleetLog
    fleetStored := by
  have hinv := fleetPosted_run.inv fleetStart_fleet
  have hanswer : (fleetPosted 1001).answer meshCodec 1 fleetRequest = some (.ok upBody.payload) :=
    hinv.answer_eq fleetStart_fleet (j := 0) (b := fleetMember "europe-1".toList)
      List.mem_cons_self rfl fleetRequest_signed (by decide +kernel) (by
        unfold Stale
        decide +kernel)
  have harrive : Mesh.Run meshCodec fleetStart
      [.wait 10, .tick 0, .wait 1, .arrive 1 fleetRequest]
      [.sent 0 upBody.payload, .taken 1 upBody.payload 1001]
      { fleetPosted 1001 with pending := [(1, upBody.payload)] } :=
    fleetPosted_run.concat fleetRequest_allowed (Mesh.step_arrive hanswer)
  have hwait : Mesh.Run meshCodec fleetStart
      [.wait 10, .tick 0, .wait 1, .arrive 1 fleetRequest, .wait 1]
      [.sent 0 upBody.payload, .taken 1 upBody.payload 1001]
      { fleetPosted 1002 with pending := [(1, upBody.payload)] } :=
    harrive.concat (fleetStart_wait rfl (by decide)) rfl
  exact hwait.concat (show Mesh.Allows meshCodec _ (.store 0) from trivial) rfl

theorem stored_was_sent_fleet :
    ∃ (j : Nat) (a : Member) (checked : Nat), .sent j upBody.payload ∈ fleetLog ∧
      fleetStart.members[j]? = some a ∧ a.settings.selfNode = some upBody.payload.node ∧
      upBody.payload.healthy = true ∧ .taken 1 upBody.payload checked ∈ fleetLog ∧
      checked ≤ 1002 ∧ ((checked : Int) - upBody.payload.timestamp.toNat).natAbs ≤ 60 :=
  stored_was_sent fleetStart_fleet fleetStored_run
    (List.mem_cons_of_mem _ (List.mem_cons_of_mem _ List.mem_cons_self))

/-- the second node ranks the first one for five intervals more -/
theorem ranked_iff_heard_fleet : ∃ a, fleetStored.members[1]? = some a ∧
    (∃ s ∈ a.state.scoreAll (ipv4 198 51 100 9) false 1052, s.nodeName = "asia-1") ∧
    ¬ ∃ s ∈ a.state.scoreAll (ipv4 198 51 100 9) false 1053, s.nodeName = "asia-1" := by
  obtain ⟨n, hn, hname, henabled⟩ : ∃ n ∈ (fleetSettings "europe-1".toList).nodes,
      n.name = "asia-1" ∧ n.enabled = true := by decide +kernel
  have hranked := fun t (ht : t < 2 ^ 64) => ranked_iff_heard fleetStart_fleet fleetStored_run
    (i := 1) (a := (fleetMember "europe-1".toList).stored upBody.payload 1002) rfl
    (rfl : _ = some "europe-1") hn henabled
    (fun h : false = true => absurd h (by decide)) (hname ▸ by decide) ht (ipv4 198 51 100 9)
  have hinterval : (fleetSettings "europe-1".toList).peerHeartbeatIntervalSecs = 10 := by
    decide +kernel
  refine ⟨_, rfl, ?_, ?_⟩
  · rw [← hname]
    refine (hranked 1052 (by decide)).mpr (.inr ⟨upBody.payload, 1002, ?_, hname.symm, ?_⟩)
    · exact List.mem_cons_of_mem _ (List.mem_cons_of_mem _ List.mem_cons_self)
    · show 1052 ≤ 1002 + 5 * (fleetSettings "europe-1".toList).peerHeartbeatIntervalSecs
      rw [hinterval]
  · rw [← hname]
    intro h
    rcases (hranked 1053 (by decide)).mp h with hle | ⟨p, now, hmem, -, hle⟩
    · replace hle : 1053 ≤ 990 + 5 * (fleetSettings "europe-1".toList).peerHeartbeatIntervalSecs :=
        hle
      rw [hinterval] at hle
      omega
    · replace hle : 1053 ≤
          now + 5 * (fleetSettings "europe-1".toList).peerHeartbeatIntervalSecs := hle
      rw [hinterval] at hle
      have hnow : now = 1002 := by
        rcases List.mem_cons.mp hmem with heq | hmem
        · cases heq
        · rcases List.mem_cons.mp hmem with heq | hmem
          · cases heq
          · exact (MeshLog.stored.inj (List.mem_singleton.mp hmem)).2.2
      omega

end DnsResolver
