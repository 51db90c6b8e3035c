import Mathlib
import DnsResolver.Data.Record

/-!
# Nodes, their health and their ranking (`geo/config.rs`, `geo/health.rs`, `geo/router.rs`)

The score of a node is a floating point formula of the distance, the round trip time and the
health; only its order matters here, and it is the field `score` of `GeoState`.

* `NodeHealth.excludedByPeerMesh`   the verdict of the peer mesh on a node;
* `scoreAll`                        the nodes that are not excluded, best first.
-/

namespace DnsResolver

/-! ## configuration -/

structure GeoNode where
  name : String
  ipv4 : Option Ipv4Addr := none
  ipv6 : Option Ipv6Addr := none
  enabled : Bool := true
  deriving DecidableEq

/-- `from_env` clamps `response_ip_count` -/
structure GeoConfig where
  authoritativeNames : List Name := []
  nodes : List GeoNode := []
  routingTtl : UInt32 := 30
  defaultNode : Option String := none
  responseIpCount : Nat := 1
  count_range : 1 ≤ responseIpCount ∧ responseIpCount ≤ 16 := by decide
  selfNode : Option String := none
  peerSecret : Bytes := []
  peerHeartbeatIntervalSecs : Nat := 10
  peerAllowedIps : List IpAddr := []

def GeoConfig.unset : GeoConfig := {}

def GeoConfig.findNode (config : GeoConfig) (name : String) : Option GeoNode :=
  config.nodes.find? fun n => n.name == name

/-! ## health -/

inductive HealthState where
  | Unknown
  | Healthy
  | Degraded
  | Unhealthy
  deriving DecidableEq

structure NodeHealth where
  state : HealthState := .Unknown
  consecutiveSuccess : Nat := 0
  consecutiveFailure : Nat := 0
  lastRttUs : Nat := 0
  lastCheckAt : Nat := 0
  totalSuccess : Nat := 0
  totalFailure : Nat := 0
  /-- `0` if there was no heartbeat -/
  peerLastHeartbeatAt : Nat := 0
  registeredAt : Nat
  peerReportedHealthy : Bool := true
  deriving DecidableEq

namespace NodeHealth

/-- `NodeHealth::apply_peer_heartbeat`; the clock is read again here -/
def applyPeerHeartbeat (h : NodeHealth) (reportedHealthy : Bool) (_reportedAt : UInt64)
    (now : Nat) : NodeHealth :=
  { h with peerLastHeartbeatAt := now, peerReportedHealthy := reportedHealthy }

def excludedByPeerMesh (h : NodeHealth) (now heartbeatIntervalSecs : Nat) : Bool :=
  let grace := min (heartbeatIntervalSecs * 5) (2 ^ 64 - 1)
  let last := h.peerLastHeartbeatAt
  if last = 0 then decide (grace < now - h.registeredAt)
  else if grace < now - last then true
  else !h.peerReportedHealthy

end NodeHealth

/-- the entries are in the order of the nodes; a name finds its first entry -/
structure HealthRegistry where
  nodes : List (String × NodeHealth)

namespace HealthRegistry

/-- every node gets an entry, registered now -/
def new (nodes : List GeoNode) (now : Nat) : HealthRegistry :=
  ⟨nodes.map fun n => (n.name, { registeredAt := now })⟩

def get (r : HealthRegistry) (name : String) : Option NodeHealth :=
  (r.nodes.find? fun e => e.1 == name).map Prod.snd

/-- a change of the entry that `get` finds -/
def update (r : HealthRegistry) (name : String) (f : NodeHealth → NodeHealth) : HealthRegistry :=
  ⟨go r.nodes⟩
where
  go : List (String × NodeHealth) → List (String × NodeHealth)
    | [] => []
    | e :: rest => if e.1 == name then (e.1, f e.2) :: rest else e :: go rest

end HealthRegistry

/-! ## ranking -/

structure GeoState where
  config : GeoConfig
  health : HealthRegistry
  /-- `score` of `score_node`, for the location of the client -/
  score : IpAddr → GeoNode → NodeHealth → ℚ

structure ScoreBreakdown where
  nodeName : String
  score : ℚ
  deriving DecidableEq

namespace GeoState
variable (geo : GeoState)

def peerMeshEnabled : Bool := geo.config.selfNode.isSome && !geo.config.peerSecret.isEmpty

/-- `is_authoritative_for` -/
def isAuthoritativeFor (qname : Name) : Bool :=
  geo.config.authoritativeNames.any fun n => n.nameEq qname

/-- the mesh decides about the other nodes, and without a mesh the local probe -/
def excludes (now : Nat) (n : GeoNode) (h : NodeHealth) : Bool :=
  let isSelf := geo.config.selfNode == some n.name
  if geo.peerMeshEnabled && !isSelf then
    h.excludedByPeerMesh now geo.config.peerHeartbeatIntervalSecs
  else !isSelf && h.state == .Unhealthy

/-- one node in `score_all` -/
def rank (client : IpAddr) (now : Nat) (n : GeoNode) : Option ScoreBreakdown :=
  (geo.health.get n.name).bind fun h =>
    if geo.excludes now n h then none else some ⟨n.name, geo.score client n h⟩

/-- `score_all` -/
def scoreAll (client : IpAddr) (needIpv6 : Bool) (now : Nat) : List ScoreBreakdown :=
  let scores := ((geo.config.nodes.filter fun n => n.enabled).filter
    fun n => !needIpv6 || n.ipv6.isSome).filterMap (geo.rank client now)
  scores.mergeSort fun a b => decide (b.score ≤ a.score)

end GeoState

/-! ## the entries of the registry -/

theorem HealthRegistry.get_update (r : HealthRegistry) (name other : String)
    (f : NodeHealth → NodeHealth) :
    (r.update name f).get other =
      if other = name then (r.get name).map f else r.get other := by
  unfold update get
  induction r.nodes with
  | nil => simp [update.go]
  | cons e rest ih =>
    unfold update.go
    by_cases he : e.1 = name
    · by_cases ho : other = name
      · simp [he, ho]
      · simp [he, ho, Ne.symm ho]
    · by_cases ho : other = name
      · subst ho
        simpa [he] using ih
      · by_cases heo : e.1 = other
        · simp [ho, heo]
        · simpa [he, ho, heo] using ih

theorem GeoState.rank_eq_some {geo : GeoState} {client : IpAddr} {now : Nat} {n : GeoNode}
    {s : ScoreBreakdown} (h : geo.rank client now n = some s) :
    s.nodeName = n.name ∧ ∃ e, geo.health.get n.name = some e ∧ geo.excludes now n e = false := by
  obtain ⟨e, he, hs⟩ := Option.bind_eq_some_iff.mp h
  split at hs
  · cases hs
  · rename_i hex
    rw [← Option.some.inj hs]
    exact ⟨rfl, e, he, Bool.eq_false_iff.mpr hex⟩

theorem GeoState.not_mem_scoreAll {geo : GeoState} {name : String} {e : NodeHealth} {t : Nat}
    (hmesh : geo.peerMeshEnabled = true) (hself : geo.config.selfNode ≠ some name)
    (hget : geo.health.get name = some e)
    (hex : e.excludedByPeerMesh t geo.config.peerHeartbeatIntervalSecs = true)
    (client : IpAddr) (needIpv6 : Bool) {s : ScoreBreakdown}
    (hs : s ∈ geo.scoreAll client needIpv6 t) : s.nodeName ≠ name := by
  intro hname
  unfold scoreAll at hs
  rw [List.mem_mergeSort] at hs
  obtain ⟨n, -, hn⟩ := List.mem_filterMap.mp hs
  obtain ⟨hsn, e', he', hnot⟩ := rank_eq_some hn
  have hnn : n.name = name := hsn.symm.trans hname
  have hne : (geo.config.selfNode == some n.name) = false := by
    rw [beq_eq_false_iff_ne, hnn]
    exact hself
  rw [hnn, hget] at he'
  obtain rfl := Option.some.inj he'
  unfold excludes at hnot
  rw [hmesh, hne] at hnot
  replace hnot : e.excludedByPeerMesh t geo.config.peerHeartbeatIntervalSecs = false := hnot
  rw [hex] at hnot
  cases hnot

end DnsResolver
