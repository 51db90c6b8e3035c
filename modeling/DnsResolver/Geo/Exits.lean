import DnsResolver.Geo.Authoritative
import DnsResolver.Engine.Enforce
import DnsResolver.Data.Wire

/-!
# What leaves the server (`process_dns_query`)

Every message the server emits echoes the question of the request, and leaves through one of a
few exits: a built response that passed the size test, SERVFAIL, `TC=1`, or the geo layer.

* `Exit`                    the exits of the resolver;
* `echoed_dropped_iff`      what the server does with a message a server has emitted;
* `udp_size_iff`            when a response over UDP keeps to the size limit of the client.
-/

namespace DnsResolver

def ProcessOutcome.wire? : ProcessOutcome → Option Bytes
  | .Success wire => some wire
  | .ServFail wire => some wire
  | .Truncated wire => some wire
  | .Dropped => none
  | .Malformed => none

/-! ## the exits -/

section
variable {srv : Server} {protocol : Protocol} {clientIp : IpAddr} {p : ParsedDnsQuery}
  {reqWire : Bytes} {st : AppState}

theorem parse_queries {codec : Codec} (h : parseAndValidateQuery codec reqWire = .ok p) :
    p.client.reqMsg.queries = [p.query] := by
  unfold parseAndValidateQuery at h
  split at h
  · cases h
  · split at h
    · rename_i query hq
      dsimp only at h
      split at h <;> (obtain rfl := Except.ok.inj h; exact hq)
    · cases h

theorem parse_maxPayload {codec : Codec} (h : parseAndValidateQuery codec reqWire = .ok p) :
    512 ≤ p.client.maxPayload := by
  unfold parseAndValidateQuery at h
  split at h
  · cases h
  · split at h
    · dsimp only at h
      split at h
      · obtain rfl := Except.ok.inj h
        exact le_max_left _ _
      · obtain rfl := Except.ok.inj h
        exact le_refl _
    · cases h

/-- how a query that reaches the resolver ends -/
inductive Exit (srv : Server) (protocol : Protocol) (clientIp : IpAddr) (p : ParsedDnsQuery) :
    ProcessOutcome → Prop
  | success {m : Message} {wire : Bytes} : srv.codec.toBytes m = some wire →
      m.queries = p.client.reqMsg.queries →
      shouldChallengeLargeResponse protocol clientIp wire.length p.client.maxPayload = false →
      Exit srv protocol clientIp p (.Success wire)
  | truncated : Exit srv protocol clientIp p
      (.Truncated (makeTruncatedWire srv.codec p.client.reqMsg.id [p.query]))
  | servFail : Exit srv protocol clientIp p (servFail srv p)

theorem exit_respond {source : Source} {response : Message} {wire : Bytes}
    (hwire : srv.codec.toBytes response = some wire)
    (hq : response.queries = p.client.reqMsg.queries) (st : AppState) :
    Exit srv protocol clientIp p (respond srv protocol clientIp p source response wire st).1 := by
  unfold respond
  split
  · exact .truncated
  · rename_i hsize
    exact .success hwire hq (Bool.eq_false_iff.mpr hsize)

theorem exit_serveCached {now : Nat} {outcome : ProcessOutcome} {st' : AppState}
    (h : serveCached srv protocol clientIp p now st = (some outcome, st')) :
    Exit srv protocol clientIp p outcome := by
  unfold serveCached at h
  split at h
  · cases h
  · split at h
    · cases h
    · dsimp only at h
      split at h
      · cases h
      · split at h
        · cases h
        · split at h
          · cases h
          · rename_i wire hwire
            obtain rfl := Option.some.inj (Prod.mk.inj h).1
            exact exit_respond hwire rfl _

theorem exit_serveResolved {now : Nat} :
    Exit srv protocol clientIp p (serveResolved srv protocol clientIp p now st).1 := by
  unfold serveResolved
  split
  · exact .servFail
  · split
    · exact .servFail
    · dsimp only
      split
      · exact .servFail
      · rename_i wire hwire
        exact exit_respond hwire rfl _

theorem process_cases (srv : Server) (protocol : Protocol) (clientIp : IpAddr) (st : AppState)
    (hp : parseAndValidateQuery srv.codec reqWire = .ok p) :
    (srv.checkQuery st.dns.tick protocol clientIp p.query.name p.query.queryType = .Drop ∧
      (processDnsQuery srv reqWire protocol clientIp st).1 = .Dropped) ∨
    (srv.checkQuery st.dns.tick protocol clientIp p.query.name p.query.queryType = .Truncate ∧
      Exit srv protocol clientIp p (processDnsQuery srv reqWire protocol clientIp st).1) ∨
    (srv.checkQuery st.dns.tick protocol clientIp p.query.name p.query.queryType = .Allow ∧
      srv.geoAuthoritative p.query.name = true ∧
      (processDnsQuery srv reqWire protocol clientIp st).1 =
        srv.geoAnswer (st.dns.tick + 1) p.query.name p.query.queryType (p.ecsNet.getD clientIp)
          p.client.reqMsg p.client.dnssecOk) ∨
    (srv.checkQuery st.dns.tick protocol clientIp p.query.name p.query.queryType = .Allow ∧
      srv.geoAuthoritative p.query.name = false ∧
      Exit srv protocol clientIp p (processDnsQuery srv reqWire protocol clientIp st).1) := by
  unfold processDnsQuery
  rw [hp]
  dsimp only
  cases srv.checkQuery st.dns.tick protocol clientIp p.query.name p.query.queryType with
  | Drop => exact Or.inl ⟨rfl, rfl⟩
  | Truncate => exact Or.inr (Or.inl ⟨rfl, .truncated⟩)
  | Allow =>
    dsimp only
    cases hgeo : srv.geoAuthoritative p.query.name with
    | true => exact Or.inr (Or.inr (Or.inl ⟨rfl, rfl, rfl⟩))
    | false =>
      refine Or.inr (Or.inr (Or.inr ⟨rfl, rfl, ?_⟩))
      rw [if_neg Bool.false_ne_true]
      split
      · rename_i outcome st' hcached
        exact exit_serveCached hcached
      · exact exit_serveResolved

end

/-! ## the question is echoed -/

/-- a message with this question, or nothing if the encoder has failed -/
def Echoes (codec : Codec) (q : Query) (wire : Bytes) : Prop :=
  wire = [] ∨ ∃ m, codec.toBytes m = some wire ∧ m.queries = [q]

section
variable {srv : Server} {protocol : Protocol} {clientIp : IpAddr} {p : ParsedDnsQuery}
  {codec : Codec} {q : Query} {wire : Bytes}

theorem echoes_getD {m : Message} (hq : m.queries = [q]) :
    Echoes codec q ((codec.toBytes m).getD []) := by
  cases hm : codec.toBytes m with
  | none => exact Or.inl rfl
  | some w => exact Or.inr ⟨m, hm, hq⟩

theorem Exit.echoes {outcome : ProcessOutcome} (h : Exit srv protocol clientIp p outcome)
    (hq : p.client.reqMsg.queries = [p.query]) (hw : outcome.wire? = some wire) :
    Echoes srv.codec p.query wire := by
  cases h with
  | success hm hmq hsize =>
    obtain rfl := Option.some.inj hw
    exact Or.inr ⟨_, hm, hmq.trans hq⟩
  | truncated =>
    obtain rfl := Option.some.inj hw
    exact echoes_getD rfl
  | servFail =>
    obtain rfl := Option.some.inj hw
    exact echoes_getD rfl

theorem geoServFail_echoes {reqMsg : Message} (hq : reqMsg.queries = [q])
    (hw : (geoServFail codec reqMsg).wire? = some wire) : Echoes codec q wire := by
  obtain rfl := Option.some.inj hw
  refine echoes_getD ?_
  rw [hq]
  rfl

theorem encodeGeo_echoes {reqMsg : Message} {dnssecOk : Bool} {answers : List Record}
    (hq : reqMsg.queries = [q])
    (hw : (encodeGeo codec reqMsg (geoResponse reqMsg dnssecOk answers)).wire? = some wire) :
    Echoes codec q wire := by
  unfold encodeGeo at hw
  split at hw
  · rename_i w hm
    obtain rfl := Option.some.inj hw
    exact Or.inr ⟨_, hm, hq⟩
  · exact geoServFail_echoes hq hw

theorem answer_echoes {geo : GeoState} {qname : Name} {qtype : RecordType} {reqMsg : Message}
    {dnssecOk : Bool} {now : Nat} (hq : reqMsg.queries = [q])
    (hw : (geo.answer codec qname qtype clientIp reqMsg dnssecOk now).wire? = some wire) :
    Echoes codec q wire := by
  unfold GeoState.answer at hw
  dsimp only at hw
  split at hw
  · split at hw
    · exact encodeGeo_echoes hq hw
    · exact geoServFail_echoes hq hw
  · exact encodeGeo_echoes hq hw

theorem answer_wire (geo : GeoState) (codec : Codec) (qname : Name) (qtype : RecordType)
    (clientIp : IpAddr) (reqMsg : Message) (dnssecOk : Bool) (now : Nat) :
    (geo.answer codec qname qtype clientIp reqMsg dnssecOk now).wire? ≠ none := by
  have hencode : ∀ resp, (encodeGeo codec reqMsg resp).wire? ≠ none := by
    intro resp
    unfold encodeGeo
    split <;> exact Option.some_ne_none _
  unfold GeoState.answer
  dsimp only
  split
  · split
    · exact hencode _
    · exact Option.some_ne_none _
  · exact hencode _

theorem Exit.answered {outcome : ProcessOutcome} (h : Exit srv protocol clientIp p outcome) :
    outcome.wire? ≠ none := by
  cases h <;> exact Option.some_ne_none _

theorem wire?_eq_none {outcome : ProcessOutcome} :
    outcome.wire? = none ↔ outcome = .Malformed ∨ outcome = .Dropped := by
  cases outcome <;> simp [ProcessOutcome.wire?]

theorem process_echoes {g : GeoLayer} {reqWire : Bytes} {st : AppState}
    (hp : parseAndValidateQuery srv.codec reqWire = .ok p)
    (hw : (processDnsQuery (srv.withGeo g) reqWire protocol clientIp st).1.wire? = some wire) :
    Echoes srv.codec p.query wire := by
  have hq := parse_queries hp
  rcases process_cases (srv.withGeo g) protocol clientIp st hp with
    ⟨-, h⟩ | ⟨-, h⟩ | ⟨-, -, h⟩ | ⟨-, -, h⟩
  · rw [h] at hw
    cases hw
  · exact h.echoes hq hw
  · rw [h] at hw
    exact answer_echoes hq hw
  · exact h.echoes hq hw

theorem process_silent_iff {g : GeoLayer} {reqWire : Bytes} {st : AppState}
    (hp : parseAndValidateQuery srv.codec reqWire = .ok p) :
    (processDnsQuery (srv.withGeo g) reqWire protocol clientIp st).1.wire? = none ↔
      srv.checkQuery st.dns.tick protocol clientIp p.query.name p.query.queryType = .Drop := by
  rcases process_cases (srv.withGeo g) protocol clientIp st hp with
    ⟨hc, h⟩ | ⟨hc, h⟩ | ⟨hc, -, h⟩ | ⟨hc, -, h⟩
  · rw [h]
    exact ⟨fun _ => hc, fun _ => rfl⟩
  · refine ⟨fun h0 => absurd h0 h.answered, fun h0 => ?_⟩
    exact absurd (hc.symm.trans h0) (by decide)
  · rw [h]
    refine ⟨fun h0 => absurd h0 (answer_wire _ _ _ _ _ _ _ _), fun h0 => ?_⟩
    exact absurd (hc.symm.trans h0) (by decide)
  · refine ⟨fun h0 => absurd h0 h.answered, fun h0 => ?_⟩
    exact absurd (hc.symm.trans h0) (by decide)

/-- what the server uses of hickory's decoder: it reads what the encoder has written, with the
same questions, and nothing of an empty message -/
structure ReadsBack (codec : Codec) : Prop where
  queries : ∀ m w, codec.toBytes m = some w → ∃ m', codec.read w = some m' ∧
    m'.queries = m.queries
  empty : codec.read [] = none

theorem ReadsBack.parse (h : ReadsBack codec) {m : Message} (hm : codec.toBytes m = some wire)
    (hq : m.queries = [q]) :
    ∃ p', parseAndValidateQuery codec wire = .ok p' ∧ p'.query = q := by
  obtain ⟨m', hread, hm'⟩ := h.queries m wire hm
  unfold parseAndValidateQuery
  rw [hread]
  dsimp only
  rw [hm', hq]
  dsimp only
  cases m'.edns with
  | none => exact ⟨_, rfl, rfl⟩
  | some e => exact ⟨_, rfl, rfl⟩

/-- **Echoes.**  A message a server has emitted, sent to a server over UDP, is left without an
answer exactly if it is empty or the rate limiter drops its question: the `QR` bit is not looked
at. -/
theorem echoed_dropped_iff (srv srv' : Server) (hcodec : srv'.codec = srv.codec)
    (hread : ReadsBack srv.codec) {g g' : GeoLayer} {reqWire : Bytes} {st : AppState}
    (hp : parseAndValidateQuery srv.codec reqWire = .ok p)
    (hw : (processDnsQuery (srv.withGeo g) reqWire protocol clientIp st).1.wire? = some wire)
    (clientIp' : IpAddr) (st' : AppState) :
    (processDnsQuery (srv'.withGeo g') wire .UDP clientIp' st').1 = .Malformed ∨
        (processDnsQuery (srv'.withGeo g') wire .UDP clientIp' st').1 = .Dropped ↔
      wire = [] ∨
        srv'.checkQuery st'.dns.tick .UDP clientIp' p.query.name p.query.queryType = .Drop := by
  rw [← wire?_eq_none]
  by_cases hempty : wire = []
  · refine ⟨fun _ => Or.inl hempty, fun _ => ?_⟩
    have hnone : parseAndValidateQuery srv'.codec wire = .error .Malformed := by
      unfold parseAndValidateQuery
      rw [hempty, hcodec, hread.empty]
    have hnone' : parseAndValidateQuery (srv'.withGeo g').codec wire = .error .Malformed := hnone
    unfold processDnsQuery
    rw [hnone']
    rfl
  · rcases process_echoes hp hw with h0 | ⟨m, hm, hmq⟩
    · exact absurd h0 hempty
    · obtain ⟨p', hp', hq⟩ := hread.parse hm hmq
      rw [← hcodec] at hp'
      rw [process_silent_iff hp', hq]
      exact ⟨Or.inr, fun h0 => h0.resolve_left hempty⟩

end

/-! ### an endless exchange -/

def noGeo : GeoLayer := ⟨.unset, fun _ => ⟨[]⟩, fun _ _ _ => 0⟩

/-- the name error of `bareServer` as a message -/
def nameErrorMessage : Message where
  id := 7
  messageType := .Response
  recursionDesired := true
  recursionAvailable := true
  responseCode := .NXDomain
  queries := [{ name := victimName, queryType := .A }]

/-- `bareServer` with a codec that knows the query and the name error -/
def echoServer : Server :=
  { bareServer with
    codec :=
      { toBytes := fun m => if m = nameErrorMessage then some bareResponse else none
        read := fun w =>
          if w = victimWire then some victimRequest
          else if w = bareResponse then some nameErrorMessage
          else none
        typeText := bareServer.codec.typeText } }

theorem echoServer_readsBack : ReadsBack echoServer.codec where
  queries m w h := by
    replace h : (if m = nameErrorMessage then some bareResponse else none) = some w := h
    split at h
    · rename_i hm
      obtain rfl := Option.some.inj h
      refine ⟨nameErrorMessage, ?_, by rw [hm]⟩
      decide +kernel
    · cases h
  empty := by decide +kernel

/-- the name error, sent to a server, is answered with itself -/
theorem name_error_echoed :
    (processDnsQuery (echoServer.withGeo noGeo) victimWire .UDP (.V4 ⟨#v[192, 0, 2, 1]⟩) {}).1 =
      .Success bareResponse ∧
    (processDnsQuery (echoServer.withGeo noGeo) bareResponse .UDP (.V4 ⟨#v[192, 0, 2, 2]⟩) {}).1 =
      .Success bareResponse := by
  constructor <;> decide +kernel

def droppingServer : Server := { echoServer with checkQuery := fun _ _ _ _ _ => .Drop }

theorem name_error_dropped :
    (processDnsQuery (droppingServer.withGeo noGeo) bareResponse .UDP (.V4 ⟨#v[192, 0, 2, 2]⟩)
        {}).1 = .Malformed ∨
      (processDnsQuery (droppingServer.withGeo noGeo) bareResponse .UDP (.V4 ⟨#v[192, 0, 2, 2]⟩)
        {}).1 = .Dropped := by
  have hp : parseAndValidateQuery echoServer.codec victimWire =
      .ok ⟨⟨victimRequest, 512, false⟩, { name := victimName, queryType := .A },
        canonicalCacheKey echoServer.codec victimName .A, none⟩ := rfl
  have hw : (processDnsQuery (echoServer.withGeo noGeo) victimWire .UDP (.V4 ⟨#v[192, 0, 2, 1]⟩)
      {}).1.wire? = some bareResponse := by
    decide +kernel
  exact (echoed_dropped_iff echoServer droppingServer rfl echoServer_readsBack hp hw _ _).mpr
    (Or.inr rfl)

/-! ## the size limit -/

/-- an `A` or `AAAA` record -/
def IsAddress (r : Record) : Prop := (∃ v4, r.data = .a v4) ∨ ∃ v6, r.data = .aaaa v6

/-- one question, address records of its name, perhaps an OPT record -/
structure AddressAnswer (q : Query) (m : Message) : Prop where
  queries : m.queries = [q]
  answers : ∀ r ∈ m.answers, r.name = q.name ∧ IsAddress r
  nameServers : m.nameServers = []
  additionals : m.additionals = []
  edns : ∀ e, m.edns = some e → e.subnet = none

/-- an owner that is the name of the question is a pointer, except for the root -/
def ownerLen (n : Name) : Nat := if n.isRoot then 1 else 2

def addressLen (t : RecordType) : Nat := if t = .A then 4 else 16

/-- a record: owner, type, class, TTL, length and address -/
def recordLen (n : Name) (t : RecordType) : Nat := ownerLen n + 10 + addressLen t

/-- header, question, `count` addresses, and an OPT record -/
def addressAnswerLen (q : Query) (t : RecordType) (count : Nat) (edns : Bool) : Nat :=
  12 + (wireLen q.name.labels + 4) + count * recordLen q.name t + if edns then 11 else 0

/-- what the server uses of hickory's encoder: the wire format with compressed owner names -/
def EncodesAddresses (codec : Codec) : Prop :=
  ∀ q m, AddressAnswer q m → ∃ w, codec.toBytes m = some w ∧
    w.length = 12 + (wireLen q.name.labels + 4) +
      (m.answers.map fun r => recordLen q.name r.recordType).sum + if m.edns.isSome then 11 else 0

section
variable {srv : Server} {clientIp : IpAddr} {p : ParsedDnsQuery} {codec : Codec} {q : Query}
  {reqWire wire : Bytes}

theorem wireLen_le (n : Name) : wireLen n.labels ≤ 255 := n.valid.2

/-- SERVFAIL and `TC=1` are small -/
theorem length_plain (h : EncodesAddresses codec) {m : Message} (hq : m.queries = [q])
    (ha : m.answers = []) (hn : m.nameServers = []) (hadd : m.additionals = [])
    (he : m.edns = none) : ((codec.toBytes m).getD []).length ≤ 512 := by
  obtain ⟨w, hw, hlen⟩ := h q m ⟨hq, by simp [ha], hn, hadd, by simp [he]⟩
  have hname := wireLen_le q.name
  rw [hw, Option.getD_some, hlen, ha, he]
  show 12 + (wireLen q.name.labels + 4) + 0 + 0 ≤ 512
  omega

theorem Exit.length_le (h : EncodesAddresses srv.codec) {outcome : ProcessOutcome}
    (he : Exit srv .UDP clientIp p outcome) (hip : clientIp.isLoopback = false)
    (hmax : 512 ≤ p.client.maxPayload) (hw : outcome.wire? = some wire) :
    wire.length ≤ p.client.maxPayload := by
  cases he with
  | success hm hmq hsize =>
    obtain rfl := Option.some.inj hw
    unfold shouldChallengeLargeResponse at hsize
    rw [hip] at hsize
    replace hsize := of_decide_eq_false hsize
    omega
  | truncated =>
    obtain rfl := Option.some.inj hw
    exact le_trans (length_plain h rfl rfl rfl rfl rfl) hmax
  | servFail =>
    obtain rfl := Option.some.inj hw
    exact le_trans (length_plain h rfl rfl rfl rfl rfl) hmax

/-- the records of an answer are addresses of the name -/
theorem mem_addressRecords {geo : GeoState} {qname : Name} {qtype : RecordType}
    {selected : List GeoNode} {r : Record}
    (hr : r ∈ geo.addressRecords qname qtype selected) :
    r.name = qname ∧ r.recordType = qtype ∧ IsAddress r := by
  unfold GeoState.addressRecords at hr
  dsimp only at hr
  split at hr
  · rename_i hq
    obtain ⟨n, -, hn⟩ := List.mem_filterMap.mp hr
    obtain ⟨v4, -, rfl⟩ := Option.map_eq_some_iff.mp hn
    exact ⟨rfl, hq.symm, Or.inl ⟨v4, rfl⟩⟩
  · split at hr
    · rename_i hq
      obtain ⟨n, -, hn⟩ := List.mem_filterMap.mp hr
      obtain ⟨v6, -, rfl⟩ := Option.map_eq_some_iff.mp hn
      exact ⟨rfl, hq.symm, Or.inr ⟨v6, rfl⟩⟩
    · cases hr

theorem encodeGeo_length (h : EncodesAddresses codec) {reqMsg : Message} (dnssecOk : Bool)
    (answers : List Record) (qtype : RecordType) (hq : reqMsg.queries = [q])
    (ha : ∀ r ∈ answers, r.name = q.name ∧ r.recordType = qtype ∧ IsAddress r) :
    ∃ w, encodeGeo codec reqMsg (geoResponse reqMsg dnssecOk answers) = .Success w ∧
      w.length = addressAnswerLen q qtype answers.length reqMsg.edns.isSome := by
  obtain ⟨w, hw, hlen⟩ := h q (geoResponse reqMsg dnssecOk answers) {
    queries := hq
    answers := fun r hr => ⟨(ha r hr).1, (ha r hr).2.2⟩
    nameServers := rfl
    additionals := rfl
    edns := fun e he => by
      obtain ⟨e', -, rfl⟩ := Option.map_eq_some_iff.mp he
      rfl }
  refine ⟨w, ?_, ?_⟩
  · unfold encodeGeo
    rw [hw]
  · have hsum : (answers.map fun r => recordLen q.name r.recordType).sum =
        answers.length * recordLen q.name qtype := by
      rw [List.map_congr_left fun r hr => by rw [(ha r hr).2.1], List.map_const',
        List.sum_replicate_nat]
    have hedns : (geoResponse reqMsg dnssecOk answers).edns.isSome = reqMsg.edns.isSome :=
      Option.isSome_map
    rw [hlen, hedns]
    unfold addressAnswerLen
    rw [← hsum]
    rfl

theorem select_of_other (geo : GeoState) (client : IpAddr) {qtype : RecordType} (now : Nat)
    (hq : ¬ (qtype = .A ∨ qtype = .AAAA)) : geo.select client qtype now = [] := by
  refine List.eq_nil_iff_forall_not_mem.mpr fun n hn => ?_
  have h := familyMatches_of_select geo client qtype now hn
  unfold familyMatches at h
  rw [if_neg fun h0 => hq (Or.inl h0), if_neg fun h0 => hq (Or.inr h0)] at h
  cases h

/-- the geo exit fits exactly if the addresses do -/
theorem answer_fits_iff (h : EncodesAddresses codec) {geo : GeoState} {qtype : RecordType}
    {reqMsg : Message} {dnssecOk : Bool} {now max : Nat} (hq : reqMsg.queries = [q])
    (hmax : 512 ≤ max) :
    (∀ wire, (geo.answer codec q.name qtype clientIp reqMsg dnssecOk now).wire? = some wire →
      wire.length ≤ max) ↔
    (qtype = .A ∨ qtype = .AAAA →
      addressAnswerLen q qtype (geo.addressCount qtype now) reqMsg.edns.isSome ≤ max) := by
  have hservfail : ∀ wire, (geoServFail codec reqMsg).wire? = some wire → wire.length ≤ max := by
    intro wire hw
    obtain rfl := Option.some.inj hw
    refine le_trans (length_plain (q := q) h ?_ rfl rfl rfl rfl) hmax
    rw [hq]
    rfl
  have hcount := length_select geo clientIp qtype now
  have hsmall : addressAnswerLen q qtype 0 reqMsg.edns.isSome ≤ max := by
    have hname := wireLen_le q.name
    unfold addressAnswerLen
    split <;> omega
  unfold GeoState.answer
  dsimp only
  split
  · rename_i hnone
    rw [List.isEmpty_iff] at hnone
    rw [hnone] at hcount
    rw [← hcount]
    refine iff_of_true (fun wire hw => ?_) fun _ => hsmall
    split at hw
    · obtain ⟨w, hw', hlen⟩ := encodeGeo_length h dnssecOk [] qtype hq (by simp)
      rw [hw'] at hw
      obtain rfl := Option.some.inj hw
      rw [hlen]
      exact hsmall
    · exact hservfail wire hw
  · rename_i hsome
    have hfamily : qtype = .A ∨ qtype = .AAAA := by
      by_contra hno
      rw [select_of_other geo clientIp now hno] at hsome
      exact hsome rfl
    obtain ⟨w, hw, hlen⟩ := encodeGeo_length h dnssecOk
      (geo.addressRecords q.name qtype (geo.select clientIp qtype now)) qtype hq
      fun r hr => mem_addressRecords hr
    rw [length_addressRecords geo clientIp now hfamily] at hlen
    rw [hw, ← hlen]
    constructor
    · intro hall _
      exact hall w rfl
    · rintro hle wire hwire
      obtain rfl := Option.some.inj hwire
      exact hle hfamily

/-- **The size limit.**  Over UDP, to a client that is not on the loopback, every message keeps to
the limit of the client, exactly unless the geo layer answers and its addresses do not fit: that
exit makes no size test. -/
theorem udp_size_iff (h : EncodesAddresses srv.codec) {g : GeoLayer} {st : AppState}
    (hp : parseAndValidateQuery srv.codec reqWire = .ok p) (hip : clientIp.isLoopback = false) :
    (∀ wire, (processDnsQuery (srv.withGeo g) reqWire .UDP clientIp st).1.wire? = some wire →
      wire.length ≤ p.client.maxPayload) ↔
    (srv.checkQuery st.dns.tick .UDP clientIp p.query.name p.query.queryType = .Allow →
      (g.atTick 0).isAuthoritativeFor p.query.name = true →
      p.query.queryType = .A ∨ p.query.queryType = .AAAA →
      addressAnswerLen p.query p.query.queryType
        ((g.atTick (st.dns.tick + 1)).addressCount p.query.queryType
          (srv.env.nowSecs (st.dns.tick + 1)))
        p.client.reqMsg.edns.isSome ≤ p.client.maxPayload) := by
  have hmax := parse_maxPayload hp
  have hcodec : EncodesAddresses (srv.withGeo g).codec := h
  rcases process_cases (srv.withGeo g) .UDP clientIp st hp with
    ⟨hc, hout⟩ | ⟨hc, hout⟩ | ⟨hc, hgeo, hout⟩ | ⟨-, hgeo, hout⟩
  · refine iff_of_true (fun wire hw => ?_) fun hallow => ?_
    · rw [hout] at hw
      cases hw
    · exact absurd (hc.symm.trans hallow) (by decide)
  · refine iff_of_true (fun wire hw => hout.length_le hcodec hip hmax hw) fun hallow => ?_
    exact absurd (hc.symm.trans hallow) (by decide)
  · rw [hout]
    refine (answer_fits_iff h (parse_queries hp) hmax).trans ?_
    exact ⟨fun hfits _ _ => hfits, fun hfits => hfits hc hgeo⟩
  · refine iff_of_true (fun wire hw => hout.length_le hcodec hip hmax hw) fun _ hauth => ?_
    exact absurd (hgeo.symm.trans hauth) (by decide)

end

/-! ### sixteen nodes -/

def headerWire (m : Message) : Bytes :=
  let flag := fun (b : Bool) (n : UInt8) => if b then n else 0
  be16 m.id ++
    [flag (decide (m.messageType = .Response)) 0x80 + m.opCode * 8 +
        flag m.authoritative 4 + flag m.truncated 2 + flag m.recursionDesired 1,
      flag m.recursionAvailable 0x80 + flag m.authenticData 0x20 +
        flag m.checkingDisabled 0x10 + m.responseCode.code] ++
    be16 1 ++ be16 m.answers.length.toUInt16 ++ be16 0 ++ be16 (if m.edns.isSome then 1 else 0)

/-- the owner is a pointer to the question, except for the root -/
def addressRecordWire (qname : Name) (r : Record) : Bytes :=
  (if qname.isRoot then [0] else [0xC0, 0x0C]) ++
    (be16 r.recordType.code ++ be16 r.dnsClass.code ++ be32 r.ttl ++
      be16 r.data.emit.length.toUInt16) ++ r.data.emit

def optWire : Option Edns → Bytes
  | none => []
  | some e =>
    0 :: be16 41 ++ be16 e.maxPayload ++
      [0, e.version, if e.dnssecOk then 0x80 else 0, 0, 0, 0]

/-- the wire form of a message with one question and address records -/
def addressWire (m : Message) : Option Bytes :=
  match m.queries with
  | [q] =>
    some (headerWire m ++ (q.name.wire ++ (be16 q.queryType.code ++ be16 q.queryClass.code)) ++
      m.answers.flatMap (addressRecordWire q.name) ++ optWire m.edns)
  | _ => none

theorem length_emit {r : Record} (h : IsAddress r) :
    r.data.emit.length = addressLen r.recordType := by
  unfold Record.recordType addressLen
  rcases h with ⟨v4, hr⟩ | ⟨v6, hr⟩
  · rw [hr]
    exact v4.octets.size_toArray
  · rw [hr]
    show (v6.segments.toList.flatMap be16).length = 16
    rw [List.length_flatMap, List.map_congr_left fun _ _ => show (be16 _).length = 2 from rfl,
      List.map_const', List.sum_replicate_nat, Vector.length_toList]

theorem length_addressRecordWire (qname : Name) {r : Record} (h : IsAddress r) :
    (addressRecordWire qname r).length = recordLen qname r.recordType := by
  unfold addressRecordWire recordLen ownerLen
  rw [List.length_append, List.length_append, length_emit h]
  split <;> rfl

theorem length_optWire (e : Option Edns) :
    (optWire e).length = if e.isSome then 11 else 0 := by
  cases e <;> rfl

theorem addressWire_encodes (read : Bytes → Option Message) (typeText : RecordType → Bytes) :
    EncodesAddresses ⟨addressWire, read, typeText⟩ := by
  intro q m h
  have hanswers : (m.answers.flatMap (addressRecordWire q.name)).length =
      (m.answers.map fun r => recordLen q.name r.recordType).sum := by
    rw [List.length_flatMap, List.map_congr_left fun r hr =>
      length_addressRecordWire q.name (h.answers r hr).2]
  have hname : q.name.wire.length = wireLen q.name.labels := length_wireLabels _
  show ∃ w, addressWire m = some w ∧ _
  unfold addressWire
  rw [h.queries]
  refine ⟨_, rfl, ?_⟩
  rw [List.length_append, List.length_append, List.length_append, hanswers, length_optWire,
    List.length_append, hname]
  rfl

def longName : Name := ⟨[List.replicate 47 97], by decide +kernel⟩

/-- a query for its IPv6 addresses, without EDNS -/
def longQuery : Message where
  id := 21
  recursionDesired := true
  queries := [{ name := longName, queryType := .AAAA }]

def longQueryWire : Bytes := (addressWire longQuery).getD []

/-- nodes with one IPv6 address each, all of them returned -/
def nodesLayer (n : Nat) (h : 1 ≤ n ∧ n ≤ 16) : GeoLayer where
  config :=
    { authoritativeNames := [longName]
      nodes := (List.range n).map fun i =>
        { name := toString i
          ipv6 := some ⟨#v[0x2001, 0xdb8, 0, 0, 0, 0, 0, i.toUInt16]⟩ }
      responseIpCount := n
      count_range := h }
  health _ := HealthRegistry.new ((List.range n).map fun i => { name := toString i }) 900
  score _ _ _ := 0

def geoServer : Server :=
  { bareServer with
    codec :=
      { toBytes := addressWire
        read := fun w => if w = longQueryWire then some longQuery else none
        typeText := bareServer.codec.typeText } }

def longParsed : ParsedDnsQuery where
  client := ⟨longQuery, 512, false⟩
  query := { name := longName, queryType := .AAAA }
  cacheKey := canonicalCacheKey geoServer.codec longName .AAAA
  ecsNet := none

theorem longQuery_parsed :
    parseAndValidateQuery geoServer.codec longQueryWire = .ok longParsed := rfl

theorem four_nodes_fit :
    parseAndValidateQuery geoServer.codec longQueryWire = .ok longParsed ∧
      longParsed.client.maxPayload = 512 ∧
      ∀ wire, (processDnsQuery (geoServer.withGeo (nodesLayer 4 (by decide))) longQueryWire .UDP
        (.V4 ⟨#v[192, 0, 2, 33]⟩) {}).1.wire? = some wire → wire.length ≤ 512 := by
  refine ⟨longQuery_parsed, rfl, ?_⟩
  refine (udp_size_iff (addressWire_encodes _ _) longQuery_parsed (by decide +kernel)).mpr ?_
  intro _ _ _
  decide +kernel

/-- sixteen addresses and a name of 49 octets make 513 octets -/
theorem sixteen_nodes_too_long :
    parseAndValidateQuery geoServer.codec longQueryWire = .ok longParsed ∧
      longParsed.client.maxPayload = 512 ∧
      ¬ ∀ wire, (processDnsQuery (geoServer.withGeo (nodesLayer 16 (by decide))) longQueryWire
        .UDP (.V4 ⟨#v[192, 0, 2, 33]⟩) {}).1.wire? = some wire → wire.length ≤ 512 := by
  refine ⟨longQuery_parsed, rfl, fun hall => ?_⟩
  have hfits := (answer_fits_iff (addressWire_encodes _ _) (parse_queries longQuery_parsed)
    (le_refl 512)).mp hall (Or.inr rfl)
  exact absurd hfits (by decide +kernel)

end DnsResolver
