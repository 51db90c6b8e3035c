import DnsResolver.Geo.Config
import DnsResolver.Geo.Receivers

/-!
# The mesh of nodes (`peer.rs`, the start of it in `main.rs`, the receivers)

Nodes with one set of settings post heartbeats to each other.  Requests come in any order, twice or
not at all, and anyone may send one; only a node can sign.  A handler checks a request and stores
the heartbeat later, and in between other handlers run.

* `PeerRequest.received_ok`, `PeerRequest.received_signed`   what a receiver takes;
* `Mesh.step`          one turn of a heartbeat loop, one request, one store, or time that passes;
* `Mesh.step_cases`    what a step can do;
* `Mesh.Run`           a run of the mesh and the log of it;
* `MeshInv`            what a run keeps, and a lemma for each kind of step.
-/

namespace DnsResolver

/-! ## heartbeats -/

structure MeshCodec extends PeerMac where
  /-- `serde_json::to_vec` -/
  toVec : HeartbeatPayload → Bytes
  fromSlice_toVec : ∀ p, fromSlice (toVec p) = some p

/-- a request of the heartbeat loop -/
structure Post where
  url : Text
  signature : Text
  body : Bytes

def computeSelfHealth (_health : HealthRegistry) (_selfName : String) : Bool := true

def GeoSettings.post (codec : MeshCodec) (s : GeoSettings) (p : HeartbeatPayload)
    (target : PeerTarget) : Post :=
  let body := codec.toVec p
  { url := target.baseUrl.rdropWhile (· = '/') ++ "/internal/peer-heartbeat".toList
    signature := codec.sign s.peerSecret.1 body
    body := body }

/-- a process with the geo layer -/
structure Member where
  settings : GeoSettings
  enabled : settings.enabled = true
  state : GeoState
  config_eq : state.config = settings.toGeoConfig
  /-- how far its clock is ahead -/
  ahead : Nat

namespace Member

def reading (a : Member) (clock : Nat) : Nat := clock + a.ahead

/-- one turn of `run_heartbeat_loop`, if `main` has started it -/
def heartbeat (a : Member) (now : Nat) : Option HeartbeatPayload :=
  match a.settings.selfNode with
  | none => none
  | some selfName =>
    if a.settings.peerSecret.1 = [] then none
    else if a.settings.peerTargets = [] then none
    else some ⟨selfName, UInt64.ofNat now, computeSelfHealth a.state.health selfName⟩

def posts (codec : MeshCodec) (a : Member) (p : HeartbeatPayload) : List Post :=
  a.settings.peerTargets.map (a.settings.post codec p)

def stored (a : Member) (p : HeartbeatPayload) (now : Nat) : Member :=
  { a with state := a.state.applyPeerHeartbeat p now, config_eq := a.config_eq }

theorem heartbeat_eq_some {a : Member} {now : Nat} {p : HeartbeatPayload}
    (h : a.heartbeat now = some p) :
    a.settings.selfNode = some p.node ∧ p.timestamp = UInt64.ofNat now ∧ p.healthy = true := by
  unfold heartbeat at h
  cases hself : a.settings.selfNode with
  | none =>
    rw [hself] at h
    exact absurd h.symm (Option.some_ne_none p)
  | some selfName =>
    rw [hself] at h
    dsimp only at h
    split_ifs at h
    rw [← Option.some.inj h]
    exact ⟨rfl, rfl, rfl⟩

end Member

/-! ## requests -/

structure PeerRequest where
  headers : HeaderMap
  peer : IpAddr
  endpoint : Endpoint

namespace PeerRequest

/-- the part of the body that is read -/
def body (r : PeerRequest) : Bytes :=
  match r.endpoint with
  | .doh body => body
  | .h3 chunks => recvBody chunks []

def sourceIp (r : PeerRequest) : IpAddr :=
  match r.endpoint with
  | .doh _ => extractClientIp r.headers r.peer
  | .h3 _ => r.peer

def received (codec : PeerCodec) (config : GeoConfig) (r : PeerRequest) (now : Nat) :
    Option (Except StatusCode HeartbeatPayload) :=
  match r.endpoint with
  | .doh body => dohPeerHeartbeat codec config r.headers r.peer body now
  | .h3 chunks => h3PeerHeartbeat codec config r.headers r.peer chunks now

variable {codec : PeerCodec} {config : GeoConfig} {r : PeerRequest} {now : Nat}
  {p : HeartbeatPayload}

/-- with a secret the two receivers are one, but for the limit on the body -/
theorem received_eq (hsecret : config.peerSecret ≠ []) :
    r.received codec config now = some (.error .PayloadTooLarge) ∧ 4096 < r.body.length ∨
      r.received codec config now =
        handlePeerHeartbeat codec config r.sourceIp r.headers.peerSignature r.body now := by
  unfold received body sourceIp
  cases r.endpoint with
  | doh body =>
    dsimp only
    unfold dohPeerHeartbeat
    by_cases hlen : maxDohPayload < body.length
    · rw [if_pos hlen]
      exact .inl ⟨rfl, hlen⟩
    · rw [if_neg hlen]
      exact .inr rfl
  | h3 chunks => exact .inr (handleH3PeerHeartbeat_eq hsecret chunks)

theorem received_ok (hsecret : config.peerSecret ≠ [])
    (h : r.received codec config now = some (.ok p)) :
    SignedBy codec config r.sourceIp r.headers.peerSignature r.body p ∧
      ∃ skew, skewSecs now p.timestamp = some skew ∧ skew ≤ 60 := by
  rcases received_eq hsecret with ⟨hlarge, -⟩ | hhandle
  · rw [hlarge] at h
    cases Option.some.inj h
  · rw [hhandle] at h
    rcases handlePeerHeartbeat_cases codec config r.sourceIp r.headers.peerSignature r.body now with
      ⟨q, hq, hcheck⟩ | ⟨-, status, -, herror⟩
    · rw [hcheck] at h
      obtain ⟨hparsed, hskew⟩ := checkPayload_ok h
      have hqp := hq.parsed
      rw [hparsed] at hqp
      obtain rfl := Option.some.inj hqp
      exact ⟨hq, hskew⟩
    · rw [herror] at h
      cases Option.some.inj h

theorem received_none (hsecret : config.peerSecret ≠ [])
    (h : r.received codec config now = none) :
    ∃ p, SignedBy codec config r.sourceIp r.headers.peerSignature r.body p ∧
      skewSecs now p.timestamp = none := by
  rcases received_eq hsecret with ⟨hlarge, -⟩ | hhandle
  · rw [hlarge] at h
    cases h
  · rw [hhandle] at h
    rcases handlePeerHeartbeat_cases codec config r.sourceIp r.headers.peerSignature r.body now with
      ⟨q, hq, hcheck⟩ | ⟨-, status, -, herror⟩
    · rw [hcheck] at h
      refine ⟨q, hq, ?_⟩
      unfold checkPayload at h
      rw [hq.parsed] at h
      exact Option.map_eq_none_iff.mp h
    · rw [herror] at h
      cases h

/-- **A signed heartbeat is taken** if it comes from an address of the mesh, whole and in time. -/
theorem received_signed {skew : Nat} (hsecret : config.peerSecret ≠ [])
    (hsigned : SignedBy codec config r.sourceIp r.headers.peerSignature r.body p)
    (hshort : r.body.length ≤ 4096) (hskew : skewSecs now p.timestamp = some skew)
    (hle : skew ≤ 60) : r.received codec config now = some (.ok p) := by
  have hreceived : r.received codec config now = some (.error .PayloadTooLarge) ∧
        4096 < r.body.length ∨ r.received codec config now =
        handlePeerHeartbeat codec config r.sourceIp r.headers.peerSignature r.body now :=
    received_eq hsecret
  rcases hreceived with ⟨-, hlong⟩ | hhandle
  · omega
  · rw [hhandle]
    rcases handlePeerHeartbeat_cases codec config r.sourceIp r.headers.peerSignature r.body now with
      ⟨q, hq, hcheck⟩ | ⟨hno, -⟩
    · rw [hcheck]
      unfold checkPayload
      rw [hsigned.parsed]
      dsimp only
      rw [hskew, Option.map_some, if_neg (Nat.not_lt.mpr hle)]
    · exact absurd hsigned (hno p)

end PeerRequest

/-! ## runs -/

structure Mesh where
  clock : Nat
  members : List Member
  /-- everything that was posted -/
  posted : List Post
  /-- the heartbeats that were taken and are to be stored, with the node that took them -/
  pending : List (Nat × HeartbeatPayload)

inductive MeshEvent where
  | tick (i : Nat)
  | arrive (i : Nat) (r : PeerRequest)
  | store (k : Nat)
  | wait (secs : Nat)

/-- what the log of a run tells of a node, with its clock -/
inductive MeshLog where
  | sent (i : Nat) (p : HeartbeatPayload)
  | taken (i : Nat) (p : HeartbeatPayload) (now : Nat)
  | stored (i : Nat) (p : HeartbeatPayload) (now : Nat)

namespace Mesh
variable (codec : MeshCodec)

/-- the clock of node `i` -/
def reading (m : Mesh) (i : Nat) : Nat := m.clock + (m.members[i]?.map Member.ahead).getD 0

/-- the heartbeat node `i` posts now -/
def heartbeat (m : Mesh) (i : Nat) : Option (Member × HeartbeatPayload) :=
  m.members[i]?.bind fun a => (a.heartbeat (a.reading m.clock)).map fun p => (a, p)

/-- the answer of node `i`; `none` if it goes down -/
def answer (m : Mesh) (i : Nat) (r : PeerRequest) : Option (Except StatusCode HeartbeatPayload) :=
  match m.members[i]? with
  | none => some (.error .NotFound)
  | some a => r.received codec.toPeerCodec a.settings.toGeoConfig (a.reading m.clock)

/-- node `i` stores the heartbeat at `k` -/
def storeAt (m : Mesh) (k i : Nat) (p : HeartbeatPayload) : Mesh :=
  { m with
    members := m.members.modify i fun a => a.stored p (m.reading i)
    pending := m.pending.eraseIdx k }

/-- what happens and what is logged; `none` if a process aborts -/
def step (m : Mesh) : MeshEvent → Option (Mesh × List MeshLog)
  | .tick i =>
    match m.heartbeat i with
    | none => some (m, [])
    | some (a, p) => some ({ m with posted := m.posted ++ a.posts codec p }, [.sent i p])
  | .arrive i r =>
    (m.answer codec i r).map fun
      | .error _ => (m, [])
      | .ok p =>
        ({ m with pending := m.pending ++ [(i, p)] },
          [.taken i p (m.reading i)])
  | .store k =>
    match m.pending[k]? with
    | none => some (m, [])
    | some (i, p) => some (m.storeAt k i p, [.stored i p (m.reading i)])
  | .wait secs => some ({ m with clock := m.clock + secs }, [])

/-- what the surroundings can do: a signature that verifies is one of a node, and `SystemTime`
counts seconds in an `i64` -/
def Allows (m : Mesh) : MeshEvent → Prop
  | .arrive i r => ∀ a sig, m.members[i]? = some a → r.headers.peerSignature = some sig →
      codec.verify a.settings.peerSecret.1 r.body sig = true → ∃ post ∈ m.posted, post.body = r.body
  | .wait secs => ∀ a ∈ m.members, a.reading (m.clock + secs) < 2 ^ 63
  | _ => True

/-- a run and its log -/
inductive Run (start : Mesh) : List MeshEvent → List MeshLog → Mesh → Prop where
  | nil : Run start [] [] start
  | concat {es : List MeshEvent} {log log' : List MeshLog} {m m' : Mesh} {e : MeshEvent} :
      Run start es log m → m.Allows codec e → m.step codec e = some (m', log') →
      Run start (es ++ [e]) (log ++ log') m'

variable {codec : MeshCodec} {m m' : Mesh} {e : MeshEvent} {log' : List MeshLog}

theorem reading_eq {i : Nat} {a : Member} (h : m.members[i]? = some a) :
    m.reading i = a.reading m.clock := by
  unfold reading Member.reading
  rw [h]
  rfl

theorem step_tick {i : Nat} {a : Member} {p : HeartbeatPayload} (ha : m.members[i]? = some a)
    (hp : a.heartbeat (m.reading i) = some p) :
    m.step codec (.tick i) =
      some ({ m with posted := m.posted ++ a.posts codec p }, [.sent i p]) := by
  unfold step heartbeat
  dsimp only
  rw [reading_eq ha] at hp
  rw [ha, Option.bind_some, hp]
  rfl

theorem step_arrive {i : Nat} {r : PeerRequest} {p : HeartbeatPayload}
    (h : m.answer codec i r = some (.ok p)) :
    m.step codec (.arrive i r) =
      some ({ m with pending := m.pending ++ [(i, p)] }, [.taken i p (m.reading i)]) := by
  unfold step
  dsimp only
  rw [h]
  rfl

theorem storeAt_at {i j k : Nat} {p : HeartbeatPayload} {b : Member}
    (hb : (m.storeAt k i p).members[j]? = some b) :
    ∃ a, m.members[j]? = some a ∧ b = if i = j then a.stored p (m.reading i) else a := by
  replace hb : (m.members.modify i fun a => a.stored p (m.reading i))[j]? = some b := hb
  rw [List.getElem?_modify] at hb
  obtain ⟨a, ha, rfl⟩ := Option.map_eq_some_iff.mp hb
  exact ⟨a, ha, rfl⟩

theorem storeAt_reading (i j k : Nat) (p : HeartbeatPayload) :
    (m.storeAt k i p).reading j = m.reading j := by
  show m.clock + (Option.map Member.ahead
    (m.members.modify i fun a => a.stored p (m.reading i))[j]?).getD 0 =
      m.clock + (m.members[j]?.map Member.ahead).getD 0
  rw [List.getElem?_modify]
  cases m.members[j]? with
  | none => rfl
  | some a =>
    by_cases hij : i = j
    · subst hij
      show m.clock + (some (if i = i then a.stored p (m.reading i) else a).ahead).getD 0 = _
      rw [if_pos rfl]
      rfl
    · show m.clock + (some (if i = j then a.stored p (m.reading i) else a).ahead).getD 0 = _
      rw [if_neg hij]
      rfl

/-- **What a step can do.** -/
theorem step_cases (h : m.step codec e = some (m', log')) :
    (m' = m ∧ log' = []) ∨
    (∃ i a p, e = .tick i ∧ m.members[i]? = some a ∧ a.heartbeat (m.reading i) = some p ∧
      m' = { m with posted := m.posted ++ a.posts codec p } ∧ log' = [.sent i p]) ∨
    (∃ i r a p, e = .arrive i r ∧ m.members[i]? = some a ∧
      r.received codec.toPeerCodec a.settings.toGeoConfig (m.reading i) = some (.ok p) ∧
      m' = { m with pending := m.pending ++ [(i, p)] } ∧ log' = [.taken i p (m.reading i)]) ∨
    (∃ k i p, e = .store k ∧ m.pending[k]? = some (i, p) ∧ m' = m.storeAt k i p ∧
      log' = [.stored i p (m.reading i)]) ∨
    (∃ secs, e = .wait secs ∧ m' = { m with clock := m.clock + secs } ∧ log' = []) := by
  cases e with
  | tick i =>
    unfold step heartbeat at h
    dsimp only at h
    cases ha : m.members[i]? with
    | none =>
      rw [ha] at h
      obtain ⟨rfl, rfl⟩ := Prod.mk.inj (Option.some.inj h)
      exact .inl ⟨rfl, rfl⟩
    | some a =>
      rw [ha] at h
      cases hp : a.heartbeat (a.reading m.clock) with
      | none =>
        rw [Option.bind_some, hp] at h
        obtain ⟨rfl, rfl⟩ := Prod.mk.inj (Option.some.inj h)
        exact .inl ⟨rfl, rfl⟩
      | some p =>
        rw [Option.bind_some, hp] at h
        obtain ⟨rfl, rfl⟩ := Prod.mk.inj (Option.some.inj h)
        exact .inr (.inl ⟨i, a, p, rfl, ha, by rw [reading_eq ha]; exact hp, rfl, rfl⟩)
  | arrive i r =>
    obtain ⟨x, hx, hm⟩ := Option.map_eq_some_iff.mp h
    unfold answer at hx
    cases ha : m.members[i]? with
    | none =>
      rw [ha] at hx
      obtain rfl := Option.some.inj hx
      obtain ⟨rfl, rfl⟩ := Prod.mk.inj hm
      exact .inl ⟨rfl, rfl⟩
    | some a =>
      rw [ha] at hx
      cases x with
      | error status =>
        obtain ⟨rfl, rfl⟩ := Prod.mk.inj hm
        exact .inl ⟨rfl, rfl⟩
      | ok p =>
        obtain ⟨rfl, rfl⟩ := Prod.mk.inj hm
        exact .inr (.inr (.inl ⟨i, r, a, p, rfl, ha, by rw [reading_eq ha]; exact hx, rfl, rfl⟩))
  | store k =>
    unfold step at h
    dsimp only at h
    cases hk : m.pending[k]? with
    | none =>
      rw [hk] at h
      obtain ⟨rfl, rfl⟩ := Prod.mk.inj (Option.some.inj h)
      exact .inl ⟨rfl, rfl⟩
    | some x =>
      obtain ⟨i, p⟩ := x
      rw [hk] at h
      obtain ⟨rfl, rfl⟩ := Prod.mk.inj (Option.some.inj h)
      exact .inr (.inr (.inr (.inl ⟨k, i, p, rfl, hk, rfl, rfl⟩)))
  | wait secs =>
    obtain ⟨rfl, rfl⟩ := Prod.mk.inj (Option.some.inj h)
    exact .inr (.inr (.inr (.inr ⟨secs, rfl, rfl, rfl⟩)))

end Mesh

/-! ## the invariant -/

/-- nodes that have just started with one set of settings, and with a secret -/
structure Fleet (nameOf : Text → Option Name) (vars : Vars) (m : Mesh) : Prop where
  settings : ∀ a ∈ m.members, ∃ name,
    Vars.fromEnv nameOf (vars.set Vars.selfKey name) = some a.settings
  secret : ∀ a ∈ m.members, a.settings.peerSecret.1 ≠ []
  fresh : ∀ a ∈ m.members,
    a.state.health = HealthRegistry.new a.settings.toGeoConfig.nodes (a.reading m.clock)
  clock_pos : 0 < m.clock
  clocks : ∀ a ∈ m.members, a.reading m.clock < 2 ^ 63
  posted : m.posted = []
  pending : m.pending = []

/-- what the registry of node `i` knows of a node -/
structure HealthInv (log : List MeshLog) (i : Nat) (name : String) (started : Nat)
    (h : NodeHealth) : Prop where
  registered : h.registeredAt = started
  healthy : h.peerReportedHealthy = true
  silent : h.peerLastHeartbeatAt = 0 → ∀ p now, .stored i p now ∈ log → p.node ≠ name
  heard : h.peerLastHeartbeatAt ≠ 0 → started ≤ h.peerLastHeartbeatAt ∧
    ∃ p, .stored i p h.peerLastHeartbeatAt ∈ log ∧ p.node = name
  latest : ∀ p now, .stored i p now ∈ log → p.node = name → now ≤ h.peerLastHeartbeatAt

/-- what the log tells of heartbeats -/
structure LogInv (start : Mesh) (log : List MeshLog) : Prop where
  sent : ∀ j p, .sent j p ∈ log → p.healthy = true ∧ p.timestamp.toNat < 2 ^ 63 ∧
    ∃ a, start.members[j]? = some a ∧ a.settings.selfNode = some p.node
  taken : ∀ i p now, .taken i p now ∈ log →
    (∃ j, .sent j p ∈ log) ∧ now < 2 ^ 63 ∧ ¬ Stale now p.timestamp
  stored : ∀ i p now, .stored i p now ∈ log → ∃ checked, .taken i p checked ∈ log ∧ checked ≤ now

/-- what a run keeps -/
structure MeshInv (codec : MeshCodec) (start : Mesh) (log : List MeshLog) (m : Mesh) : Prop where
  later : start.clock ≤ m.clock
  clocks : ∀ a ∈ m.members, a.reading m.clock < 2 ^ 63
  same : ∀ (i : Nat) (a : Member), m.members[i]? = some a → ∃ a₀, start.members[i]? = some a₀ ∧
    a.settings = a₀.settings ∧ a.ahead = a₀.ahead ∧
    ∀ name, (a.state.health.get name).isSome = (a₀.state.health.get name).isSome
  posted : ∀ post ∈ m.posted, ∃ j p, .sent j p ∈ log ∧ post.body = codec.toVec p
  pending : ∀ i p, (i, p) ∈ m.pending → ∃ now, .taken i p now ∈ log ∧ now ≤ m.reading i
  backed : LogInv start log
  stored : ∀ i p now, .stored i p now ∈ log → now ≤ m.reading i
  health : ∀ (i : Nat) (a : Member) name h, m.members[i]? = some a →
    a.state.health.get name = some h → HealthInv log i name (start.reading i) h

section
variable {codec : MeshCodec} {start m m' : Mesh} {e : MeshEvent} {log log' : List MeshLog}
  {x y : MeshLog} {nameOf : Text → Option Name} {vars : Vars}

theorem mem_concat : y ∈ log ++ [x] ↔ y ∈ log ∨ y = x := by
  rw [List.mem_append, List.mem_singleton]

theorem LogInv.concat (h : LogInv start log)
    (hsent : ∀ j p, x = .sent j p → p.healthy = true ∧ p.timestamp.toNat < 2 ^ 63 ∧
      ∃ a, start.members[j]? = some a ∧ a.settings.selfNode = some p.node)
    (htaken : ∀ i p now, x = .taken i p now →
      (∃ j, .sent j p ∈ log) ∧ now < 2 ^ 63 ∧ ¬ Stale now p.timestamp)
    (hstored : ∀ i p now, x = .stored i p now →
      ∃ checked, .taken i p checked ∈ log ∧ checked ≤ now) : LogInv start (log ++ [x]) where
  sent := by
    intro j p hmem
    rcases mem_concat.mp hmem with hmem | rfl
    · exact h.sent j p hmem
    · exact hsent j p rfl
  taken := by
    intro i p now hmem
    have hold : (∃ j, .sent j p ∈ log) ∧ now < 2 ^ 63 ∧ ¬ Stale now p.timestamp := by
      rcases mem_concat.mp hmem with hmem | rfl
      · exact h.taken i p now hmem
      · exact htaken i p now rfl
    obtain ⟨⟨j, hj⟩, hrest⟩ := hold
    exact ⟨⟨j, mem_concat.mpr (.inl hj)⟩, hrest⟩
  stored := by
    intro i p now hmem
    have hold : ∃ checked, .taken i p checked ∈ log ∧ checked ≤ now := by
      rcases mem_concat.mp hmem with hmem | rfl
      · exact h.stored i p now hmem
      · exact hstored i p now rfl
    obtain ⟨checked, hchecked, hle⟩ := hold
    exact ⟨checked, mem_concat.mpr (.inl hchecked), hle⟩

theorem HealthInv.concat {i : Nat} {name : String} {started : Nat} {h : NodeHealth}
    (hinv : HealthInv log i name started h)
    (hx : ∀ p now, x = .stored i p now → p.node ≠ name) :
    HealthInv (log ++ [x]) i name started h where
  registered := hinv.registered
  healthy := hinv.healthy
  silent := by
    intro hzero p now hmem
    rcases mem_concat.mp hmem with hmem | rfl
    · exact hinv.silent hzero p now hmem
    · exact hx p now rfl
  heard := by
    intro hne
    obtain ⟨hle, p, hp, hnode⟩ := hinv.heard hne
    exact ⟨hle, p, mem_concat.mpr (.inl hp), hnode⟩
  latest := by
    intro p now hmem hnode
    rcases mem_concat.mp hmem with hmem | rfl
    · exact hinv.latest p now hmem hnode
    · exact absurd hnode (hx p now rfl)

theorem HealthInv.store {i now : Nat} {p : HeartbeatPayload} {started : Nat} {h : NodeHealth}
    (hinv : HealthInv log i p.node started h) (hhealthy : p.healthy = true)
    (hpos : 0 < started) (hstarted : started ≤ now)
    (hlatest : ∀ q t, .stored i q t ∈ log → t ≤ now) :
    HealthInv (log ++ [.stored i p now]) i p.node started
      (h.applyPeerHeartbeat p.healthy p.timestamp now) where
  registered := hinv.registered
  healthy := hhealthy
  silent := by
    intro hzero
    have hnow : now = 0 := hzero
    omega
  heard := fun _ => ⟨hstarted, p, mem_concat.mpr (.inr rfl), rfl⟩
  latest := by
    intro q t hmem _
    rcases mem_concat.mp hmem with hmem | heq
    · exact hlatest q t hmem
    · obtain ⟨-, -, rfl⟩ := MeshLog.stored.inj heq
      exact Nat.le_refl _

/-! ### the start -/

theorem Fleet.healthInv (h : Fleet nameOf vars start) {i : Nat} {a : Member}
    (ha : start.members[i]? = some a) {name : String} {e : NodeHealth}
    (he : a.state.health.get name = some e) : HealthInv [] i name (start.reading i) e := by
  rw [h.fresh a (List.mem_of_getElem? ha)] at he
  obtain ⟨entry, hentry, rfl⟩ := Option.map_eq_some_iff.mp he
  obtain ⟨n, -, rfl⟩ := List.mem_map.mp (List.mem_of_find?_eq_some hentry)
  refine ⟨(Mesh.reading_eq ha).symm, rfl, ?_, ?_, ?_⟩
  · exact fun _ p now hmem => absurd hmem List.not_mem_nil
  · exact fun hne => absurd rfl hne
  · exact fun p now hmem => absurd hmem List.not_mem_nil

theorem Fleet.meshInv (codec : MeshCodec) (h : Fleet nameOf vars start) :
    MeshInv codec start [] start where
  later := Nat.le_refl _
  clocks := h.clocks
  same := fun i a ha => ⟨a, ha, rfl, rfl, fun _ => rfl⟩
  posted := by
    intro post hpost
    rw [h.posted] at hpost
    exact absurd hpost List.not_mem_nil
  pending := by
    intro i p hp
    rw [h.pending] at hp
    exact absurd hp List.not_mem_nil
  backed := ⟨fun _ _ hmem => absurd hmem List.not_mem_nil,
    fun _ _ _ hmem => absurd hmem List.not_mem_nil, fun _ _ _ hmem => absurd hmem List.not_mem_nil⟩
  stored := fun i p now hmem => absurd hmem List.not_mem_nil
  health := fun i a name e ha he => h.healthInv ha he

/-! ### the steps -/

theorem MeshInv.reading_lt (hinv : MeshInv codec start log m) {i : Nat} {a : Member}
    (ha : m.members[i]? = some a) : m.reading i < 2 ^ 63 := by
  rw [Mesh.reading_eq ha]
  exact hinv.clocks a (List.mem_of_getElem? ha)

/-- the heartbeats that are taken are stored by nodes that were there at the start -/
theorem MeshInv.started_le (hinv : MeshInv codec start log m) {i : Nat} {a : Member}
    (ha : m.members[i]? = some a) : start.reading i ≤ m.reading i := by
  obtain ⟨a₀, ha₀, -, hahead, -⟩ := hinv.same i a ha
  rw [Mesh.reading_eq ha, Mesh.reading_eq ha₀]
  unfold Member.reading
  have hlater := hinv.later
  omega

theorem MeshInv.tick (hinv : MeshInv codec start log m) {i : Nat} {a : Member}
    {p : HeartbeatPayload} (ha : m.members[i]? = some a)
    (hp : a.heartbeat (m.reading i) = some p) :
    MeshInv codec start (log ++ [.sent i p]) { m with posted := m.posted ++ a.posts codec p } := by
  obtain ⟨hself, htime, hhealthy⟩ := Member.heartbeat_eq_some hp
  have hnow := hinv.reading_lt ha
  have hts : p.timestamp.toNat = m.reading i := by
    rw [htime]
    exact UInt64.toNat_ofNat_of_lt' (Nat.lt_trans hnow (by decide))
  refine ⟨hinv.later, hinv.clocks, hinv.same, ?_, ?_, hinv.backed.concat ?_ ?_ ?_, ?_, ?_⟩
  · intro post hpost
    rcases List.mem_append.mp hpost with hold | hnew
    · obtain ⟨j, q, hq, hbody⟩ := hinv.posted post hold
      exact ⟨j, q, mem_concat.mpr (.inl hq), hbody⟩
    · obtain ⟨target, -, rfl⟩ := List.mem_map.mp hnew
      exact ⟨i, p, mem_concat.mpr (.inr rfl), rfl⟩
  · intro j q hq
    obtain ⟨now, hnow, hle⟩ := hinv.pending j q hq
    exact ⟨now, mem_concat.mpr (.inl hnow), hle⟩
  · intro j q heq
    obtain ⟨rfl, rfl⟩ := MeshLog.sent.inj heq
    obtain ⟨a₀, ha₀, hsettings, -⟩ := hinv.same i a ha
    exact ⟨hhealthy, hts ▸ hnow, a₀, ha₀, hsettings ▸ hself⟩
  · exact fun j q now heq => MeshLog.noConfusion heq
  · exact fun j q now heq => MeshLog.noConfusion heq
  · intro j q now hmem
    rcases mem_concat.mp hmem with hmem | heq
    · exact hinv.stored j q now hmem
    · exact MeshLog.noConfusion heq
  · exact fun j b name e hb he =>
      (hinv.health j b name e hb he).concat fun q now heq => MeshLog.noConfusion heq

theorem MeshInv.arrive (hinv : MeshInv codec start log m) {i : Nat} {a : Member}
    {p : HeartbeatPayload} (ha : m.members[i]? = some a) (hsent : ∃ j, .sent j p ∈ log)
    (htimely : ¬ Stale (m.reading i) p.timestamp) :
    MeshInv codec start (log ++ [.taken i p (m.reading i)])
      { m with pending := m.pending ++ [(i, p)] } := by
  refine ⟨hinv.later, hinv.clocks, hinv.same, ?_, ?_, hinv.backed.concat ?_ ?_ ?_, ?_, ?_⟩
  · intro post hpost
    obtain ⟨j, q, hq, hbody⟩ := hinv.posted post hpost
    exact ⟨j, q, mem_concat.mpr (.inl hq), hbody⟩
  · intro j q hq
    rcases List.mem_append.mp hq with hold | hnew
    · obtain ⟨now, hnow, hle⟩ := hinv.pending j q hold
      exact ⟨now, mem_concat.mpr (.inl hnow), hle⟩
    · obtain ⟨rfl, rfl⟩ := Prod.mk.inj (List.mem_singleton.mp hnew)
      exact ⟨m.reading j, mem_concat.mpr (.inr rfl), Nat.le_refl _⟩
  · exact fun j q heq => MeshLog.noConfusion heq
  · intro j q now heq
    obtain ⟨rfl, rfl, rfl⟩ := MeshLog.taken.inj heq
    exact ⟨hsent, hinv.reading_lt ha, htimely⟩
  · exact fun j q now heq => MeshLog.noConfusion heq
  · intro j q now hmem
    rcases mem_concat.mp hmem with hmem | heq
    · exact hinv.stored j q now hmem
    · exact MeshLog.noConfusion heq
  · exact fun j b name e hb he =>
      (hinv.health j b name e hb he).concat fun q now heq => MeshLog.noConfusion heq

theorem MeshInv.wait (hinv : MeshInv codec start log m) {secs : Nat}
    (hclocks : ∀ a ∈ m.members, a.reading (m.clock + secs) < 2 ^ 63) :
    MeshInv codec start log { m with clock := m.clock + secs } := by
  have hlater : ∀ j, m.reading j ≤ Mesh.reading { m with clock := m.clock + secs } j := by
    intro j
    unfold Mesh.reading
    dsimp only
    omega
  refine ⟨Nat.le_trans hinv.later (Nat.le_add_right _ _), hclocks, hinv.same, hinv.posted, ?_,
    hinv.backed, ?_, hinv.health⟩
  · intro j q hq
    obtain ⟨now, hnow, hle⟩ := hinv.pending j q hq
    exact ⟨now, hnow, Nat.le_trans hle (hlater j)⟩
  · exact fun j q now hmem => Nat.le_trans (hinv.stored j q now hmem) (hlater j)

/-- node `i` stores a heartbeat it has taken -/
theorem MeshInv.store (hinv : MeshInv codec start log m) (hpos : 0 < start.clock) {i k : Nat}
    {p : HeartbeatPayload} (hk : m.pending[k]? = some (i, p)) :
    MeshInv codec start (log ++ [.stored i p (m.reading i)]) (m.storeAt k i p) := by
  obtain ⟨checked, htaken, hchecked⟩ := hinv.pending i p (List.mem_of_getElem? hk)
  obtain ⟨⟨j, hj⟩, -⟩ := hinv.backed.taken i p checked htaken
  have hhealthy := (hinv.backed.sent j p hj).1
  refine ⟨hinv.later, ?_, ?_, ?_, ?_, hinv.backed.concat ?_ ?_ ?_, ?_, ?_⟩
  · intro b hb
    obtain ⟨j, hj⟩ := List.mem_iff_getElem?.mp hb
    obtain ⟨a, ha, rfl⟩ := Mesh.storeAt_at hj
    have hclock := hinv.clocks a (List.mem_of_getElem? ha)
    by_cases hij : i = j
    · rw [if_pos hij]
      exact hclock
    · rw [if_neg hij]
      exact hclock
  · intro j b hb
    obtain ⟨a, ha, rfl⟩ := Mesh.storeAt_at hb
    obtain ⟨a₀, ha₀, hsettings, hahead, hnames⟩ := hinv.same j a ha
    refine ⟨a₀, ha₀, ?_⟩
    by_cases hij : i = j
    · rw [if_pos hij]
      refine ⟨hsettings, hahead, fun name => ?_⟩
      rw [← hnames name]
      show ((a.state.applyPeerHeartbeat p (m.reading i)).health.get name).isSome = _
      rw [get_applyPeerHeartbeat]
      split
      · rename_i hname
        rw [Option.isSome_map, hname]
      · rfl
    · rw [if_neg hij]
      exact ⟨hsettings, hahead, hnames⟩
  · intro post hpost
    obtain ⟨j, q, hq, hbody⟩ := hinv.posted post hpost
    exact ⟨j, q, mem_concat.mpr (.inl hq), hbody⟩
  · intro j q hq
    obtain ⟨now, hnow, hle⟩ := hinv.pending j q (List.mem_of_mem_eraseIdx hq)
    rw [Mesh.storeAt_reading]
    exact ⟨now, mem_concat.mpr (.inl hnow), hle⟩
  · exact fun j q heq => MeshLog.noConfusion heq
  · exact fun j q now heq => MeshLog.noConfusion heq
  · intro j q now heq
    obtain ⟨rfl, rfl, rfl⟩ := MeshLog.stored.inj heq
    exact ⟨checked, htaken, hchecked⟩
  · intro j q now hmem
    rw [Mesh.storeAt_reading]
    rcases mem_concat.mp hmem with hmem | heq
    · exact hinv.stored j q now hmem
    · obtain ⟨rfl, rfl, rfl⟩ := MeshLog.stored.inj heq
      exact Nat.le_refl _
  · intro j b name e hb he
    obtain ⟨a, ha, rfl⟩ := Mesh.storeAt_at hb
    by_cases hij : i = j
    · subst hij
      rw [if_pos rfl] at he
      replace he : (a.state.applyPeerHeartbeat p (m.reading i)).health.get name = some e := he
      rw [get_applyPeerHeartbeat] at he
      by_cases hname : name = p.node
      · subst hname
        rw [if_pos rfl] at he
        obtain ⟨e₀, he₀, rfl⟩ := Option.map_eq_some_iff.mp he
        refine (hinv.health i a _ e₀ ha he₀).store hhealthy ?_ (hinv.started_le ha)
          fun q t hmem => hinv.stored i q t hmem
        unfold Mesh.reading
        omega
      · rw [if_neg hname] at he
        refine (hinv.health i a name e ha he).concat fun q now heq hnode => ?_
        obtain ⟨-, rfl, -⟩ := MeshLog.stored.inj heq
        exact hname hnode.symm
    · rw [if_neg hij] at he
      refine (hinv.health j a name e ha he).concat fun q now heq => ?_
      exact absurd (MeshLog.stored.inj heq).1 hij

end

end DnsResolver
