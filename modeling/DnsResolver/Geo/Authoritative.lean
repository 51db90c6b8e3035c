import DnsResolver.Engine.Process
import DnsResolver.Geo.Router

/-!
# Authoritative answers (`geo/authoritative.rs`)

A name the geo layer is authoritative for is answered with the addresses of nodes and never
reaches the resolver.

* `GeoState.select`       the nodes of an answer: ranked ones, else all enabled ones, else the
                          default;
* `GeoState.answer`       the response;
* `addressCount`          how many addresses it has, from the configuration and the health alone;
* `Server.withGeo`        a server with a geo layer.
-/

namespace DnsResolver

/-- the node has an address of the queried family -/
def familyMatches (qtype : RecordType) (n : GeoNode) : Bool :=
  if qtype = .A then n.ipv4.isSome
  else if qtype = .AAAA then n.ipv6.isSome
  else false

namespace GeoState
variable (geo : GeoState)

/-! ## selection -/

/-- ranked nodes of the family, best first -/
def ranked (client : IpAddr) (qtype : RecordType) (now : Nat) : List GeoNode :=
  (((geo.scoreAll client (decide (qtype = .AAAA)) now).filterMap fun s =>
    geo.config.findNode s.nodeName).filter (familyMatches qtype)).take geo.config.responseIpCount

def configured (qtype : RecordType) : List GeoNode :=
  ((geo.config.nodes.filter fun n => n.enabled).filter (familyMatches qtype)).take
    geo.config.responseIpCount

/-- the default node, if it is of the family -/
def defaultNodes (qtype : RecordType) : List GeoNode :=
  ((geo.config.defaultNode.bind geo.config.findNode).filter (familyMatches qtype)).toList

def select (client : IpAddr) (qtype : RecordType) (now : Nat) : List GeoNode :=
  let selected := geo.ranked client qtype now
  let selected := if selected.isEmpty then geo.configured qtype else selected
  if selected.isEmpty then geo.defaultNodes qtype else selected

/-! ## how many nodes -/

/-- the entry of a node stands for an address of the family in the ranking -/
def ranks (qtype : RecordType) (now : Nat) (n : GeoNode) : Bool :=
  n.enabled && (!decide (qtype = .AAAA) || n.ipv6.isSome) &&
    (geo.health.get n.name).any (fun h => !geo.excludes now n h) &&
    (geo.config.findNode n.name).any (familyMatches qtype)

/-- the number of addresses the configuration and the health of the nodes leave for a family -/
def addressCount (qtype : RecordType) (now : Nat) : Nat :=
  let ranked := geo.config.nodes.countP (geo.ranks qtype now)
  let enabled := geo.config.nodes.countP fun n => n.enabled && familyMatches qtype n
  if ranked ≠ 0 then min geo.config.responseIpCount ranked
  else if enabled ≠ 0 then min geo.config.responseIpCount enabled
  else if (geo.config.defaultNode.bind geo.config.findNode).any (familyMatches qtype) then 1
  else 0

/-! ## the response -/

def addressRecords (qname : Name) (qtype : RecordType) (selected : List GeoNode) : List Record :=
  let ttl := geo.config.routingTtl
  if qtype = .A then
    selected.filterMap fun n =>
      n.ipv4.map fun v4 => { name := qname, ttl := ttl, data := .a v4 }
  else if qtype = .AAAA then
    selected.filterMap fun n =>
      n.ipv6.map fun v6 => { name := qname, ttl := ttl, data := .aaaa v6 }
  else []

end GeoState

/-- the message of `answer` and of `build_nodata` -/
def geoResponse (reqMsg : Message) (clientDnssecOk : Bool) (answers : List Record) : Message :=
  { id := reqMsg.id
    messageType := .Response
    opCode := 0
    authoritative := true
    recursionDesired := reqMsg.recursionDesired
    recursionAvailable := false
    checkingDisabled := reqMsg.checkingDisabled
    responseCode := .NoError
    queries := reqMsg.queries
    answers := answers
    edns := reqMsg.edns.map fun _ =>
      { maxPayload := 1232, dnssecOk := clientDnssecOk, version := 0 } }

/-- SERVFAIL for the first question of the request -/
def geoServFail (codec : Codec) (reqMsg : Message) : ProcessOutcome :=
  .ServFail (makeServfailWire codec reqMsg.id (reqMsg.queries.take 1))

def encodeGeo (codec : Codec) (reqMsg resp : Message) : ProcessOutcome :=
  match codec.toBytes resp with
  | some wire => .Success wire
  | none => geoServFail codec reqMsg

/-- `answer` -/
def GeoState.answer (geo : GeoState) (codec : Codec) (qname : Name) (qtype : RecordType)
    (clientIp : IpAddr) (reqMsg : Message) (clientDnssecOk : Bool) (now : Nat) : ProcessOutcome :=
  let selected := geo.select clientIp qtype now
  if selected.isEmpty then
    if qtype = .AAAA then encodeGeo codec reqMsg (geoResponse reqMsg clientDnssecOk [])
    else geoServFail codec reqMsg
  else
    encodeGeo codec reqMsg
      (geoResponse reqMsg clientDnssecOk (geo.addressRecords qname qtype selected))

/-! ## the size of a selection -/

section
variable (geo : GeoState) (client : IpAddr) (qtype : RecordType) (now : Nat)

/-- a pipeline of `filter` and `filterMap` counts the entries that pass -/
theorem length_filter_filterMap {α β γ : Type} (p : γ → Bool) (f : α → Option β)
    (g : β → Option γ) (l : List α) :
    (((l.filterMap f).filterMap g).filter p).length =
      l.countP fun a => ((f a).bind g).any p := by
  rw [List.filterMap_filterMap, ← List.countP_eq_length_filter, List.countP_filterMap]
  refine List.countP_congr fun a _ => ?_
  cases (f a).bind g <;> simp

theorem length_ranked :
    (geo.ranked client qtype now).length =
      min geo.config.responseIpCount (geo.config.nodes.countP (geo.ranks qtype now)) := by
  unfold GeoState.ranked GeoState.scoreAll
  dsimp only
  rw [List.length_take, (((List.mergeSort_perm _ _).filterMap _).filter _).length_eq,
    length_filter_filterMap, List.countP_filter, List.countP_filter]
  refine congrArg (min _) (List.countP_congr fun n _ => ?_)
  unfold GeoState.ranks GeoState.rank
  cases geo.health.get n.name with
  | none => simp
  | some h =>
    cases hex : geo.excludes now n h with
    | true => simp [hex]
    | false => simp [hex, and_assoc, and_comm]

theorem length_configured :
    (geo.configured qtype).length = min geo.config.responseIpCount
      (geo.config.nodes.countP fun n => n.enabled && familyMatches qtype n) := by
  unfold GeoState.configured
  rw [List.length_take, ← List.countP_eq_length_filter, List.countP_filter]
  refine congrArg (min _) (List.countP_congr fun n _ => ?_)
  rw [Bool.and_comm]

theorem length_defaultNodes :
    (geo.defaultNodes qtype).length =
      if (geo.config.defaultNode.bind geo.config.findNode).any (familyMatches qtype) then 1
      else 0 := by
  unfold GeoState.defaultNodes
  cases geo.config.defaultNode.bind geo.config.findNode with
  | none => rfl
  | some n => cases h : familyMatches qtype n <;> simp [h]

/-- the selection has `addressCount` nodes, whoever asks -/
theorem length_select :
    (geo.select client qtype now).length = geo.addressCount qtype now := by
  have hcount := geo.config.count_range.1
  have hranked := length_ranked geo client qtype now
  have hconfigured := length_configured geo qtype
  unfold GeoState.select GeoState.addressCount
  dsimp only
  cases h1 : geo.ranked client qtype now with
  | cons n l =>
    rw [h1, List.length_cons] at hranked
    show (n :: l).length = _
    rw [if_pos (by omega), ← hranked, List.length_cons]
  | nil =>
    rw [h1, List.length_nil] at hranked
    show (if (geo.configured qtype).isEmpty then geo.defaultNodes qtype
      else geo.configured qtype).length = _
    cases h2 : geo.configured qtype with
    | cons n l =>
      rw [h2, List.length_cons] at hconfigured
      show (n :: l).length = _
      rw [if_neg (by omega), if_pos (by omega), ← hconfigured, List.length_cons]
    | nil =>
      rw [h2, List.length_nil] at hconfigured
      show (geo.defaultNodes qtype).length = _
      rw [if_neg (by omega), if_neg (by omega)]
      exact length_defaultNodes geo qtype

theorem familyMatches_of_select {n : GeoNode} (h : n ∈ geo.select client qtype now) :
    familyMatches qtype n = true := by
  have hranked : n ∈ geo.ranked client qtype now → familyMatches qtype n = true := fun h =>
    (List.mem_filter.mp (List.mem_of_mem_take h)).2
  have hconfigured : n ∈ geo.configured qtype → familyMatches qtype n = true := fun h =>
    (List.mem_filter.mp (List.mem_of_mem_take h)).2
  have hdefault : n ∈ geo.defaultNodes qtype → familyMatches qtype n = true := fun h =>
    (Option.filter_eq_some_iff.mp (Option.mem_toList.mp h)).2
  unfold GeoState.select at h
  dsimp only at h
  split at h
  · split at h
    · exact hdefault h
    · exact hconfigured h
  · exact hranked h

theorem length_filterMap_of_isSome {α β : Type} {f : α → Option β} {l : List α}
    (h : ∀ a ∈ l, (f a).isSome) : (l.filterMap f).length = l.length := by
  induction l with
  | nil => rfl
  | cons a l ih =>
    obtain ⟨b, hb⟩ := Option.isSome_iff_exists.mp (h a List.mem_cons_self)
    rw [List.filterMap_cons_some hb, List.length_cons, List.length_cons,
      ih fun a ha => h a (List.mem_cons_of_mem _ ha)]

theorem length_addressRecords_of {qtype : RecordType} (hq : qtype = .A ∨ qtype = .AAAA)
    (qname : Name) {nodes : List GeoNode} (h : ∀ n ∈ nodes, familyMatches qtype n = true) :
    (geo.addressRecords qname qtype nodes).length = nodes.length := by
  unfold GeoState.addressRecords
  dsimp only
  unfold familyMatches at h
  rcases hq with rfl | rfl
  · refine length_filterMap_of_isSome fun n hn => ?_
    rw [Option.isSome_map]
    exact h n hn
  · refine length_filterMap_of_isSome fun n hn => ?_
    rw [Option.isSome_map]
    exact h n hn

theorem length_addressRecords {qtype : RecordType} (hq : qtype = .A ∨ qtype = .AAAA)
    (qname : Name) :
    (geo.addressRecords qname qtype (geo.select client qtype now)).length =
      geo.addressCount qtype now := by
  rw [← length_select geo client qtype now]
  exact length_addressRecords_of geo hq qname fun n hn =>
    familyMatches_of_select geo client qtype now hn

end

/-! ## a server with a geo layer -/

/-- the configuration, and the health of the nodes at the ticks of the server -/
structure GeoLayer where
  config : GeoConfig
  health : Nat → HealthRegistry
  score : IpAddr → GeoNode → NodeHealth → ℚ

def GeoLayer.atTick (g : GeoLayer) (tick : Nat) : GeoState := ⟨g.config, g.health tick, g.score⟩

def Server.withGeo (srv : Server) (g : GeoLayer) : Server :=
  { srv with
    geoAuthoritative := fun qname => (g.atTick 0).isAuthoritativeFor qname
    geoAnswer := fun tick qname qtype clientIp reqMsg clientDnssecOk =>
      (g.atTick tick).answer srv.codec qname qtype clientIp reqMsg clientDnssecOk
        (srv.env.nowSecs tick) }

end DnsResolver
