import DnsResolver.Engine.Host

/-!
# Tasks of alike requests

Two requests that differ in id, flags and EDNS contents only lead to tasks that go through the same
stages and do the same to the shared data.

* `SameQuestion`       such requests;
* `Codec.Reencodes`    what is asked of the encoder: else a hit could be a miss for one client;
* `Task.Alike`         the same stage, for such requests;
* `taskStep_frame`     a step adds tasks and replies and reads neither;
* `Task.Alike.step`    alike tasks do the same and stay alike.
-/

namespace DnsResolver

/-! ## requests -/

/-- the same message up to id, `RD`, `AD`, `CD` and EDNS -/
def SameQuestion (m m' : Message) : Prop :=
  m' = { m with
    id := m'.id
    recursionDesired := m'.recursionDesired
    authenticData := m'.authenticData
    checkingDisabled := m'.checkingDisabled
    edns := m'.edns }

instance (m m' : Message) : Decidable (SameQuestion m m') :=
  inferInstanceAs (Decidable (m' = _))

/-- the records of a section, some left out and with other TTLs -/
def SectionOf (records shown : List Record) : Prop :=
  ∀ r ∈ shown, ∃ r₀ ∈ records, r = { r₀ with ttl := r.ttl }

/-- a question and records that were read can be written again, whatever the header and EDNS:
`to_bytes` leaves out what does not fit, and that is no error -/
def Codec.Reencodes (codec : Codec) : Prop :=
  ∀ reqWire req wire base, codec.read reqWire = some req → codec.read wire = some base →
    ∀ msg : Message, msg.queries = req.queries → msg.responseCode = base.responseCode →
      SectionOf base.answers msg.answers → SectionOf base.nameServers msg.nameServers →
      SectionOf base.additionals msg.additionals → (codec.toBytes msg).isSome = true

theorem sectionOf_present (qtype : RecordType) (dnssecOk : Bool) (freshness : CacheFreshness)
    (age : UInt32) (records : List Record) :
    SectionOf records (presentSection qtype dnssecOk freshness age records) := by
  intro r hr
  obtain ⟨r₀, hr₀, rfl⟩ := List.mem_map.mp hr
  exact ⟨r₀, List.mem_of_mem_filter hr₀, rfl⟩

theorem SectionOf.of_subset {records records' shown : List Record} (h : SectionOf records shown)
    (hsub : ∀ r ∈ records, r ∈ records') : SectionOf records' shown := by
  intro r hr
  obtain ⟨r₀, hr₀, he⟩ := h r hr
  exact ⟨r₀, hsub r₀ hr₀, he⟩

theorem constructClientResponse_isSome {codec : Codec} (hcodec : codec.Reencodes)
    {client : ClientView} {reqWire wire : Bytes} {base : Message}
    (hreq : codec.read reqWire = some client.reqMsg) (hbase : codec.read wire = some base)
    (qtype : RecordType) (status : DnssecStatus) (freshness : CacheFreshness)
    (cachedAt now : Nat) :
    (constructClientResponse codec base qtype status freshness cachedAt client now).isSome =
      true := by
  refine hcodec reqWire client.reqMsg wire base hreq hbase _ rfl rfl ?_ ?_ ?_
  · exact sectionOf_present _ _ _ _ _
  · exact sectionOf_present _ _ _ _ _
  · exact (sectionOf_present _ _ _ _ _).of_subset fun r hr => List.mem_of_mem_filter hr

/-! ## alike tasks -/

/-- the request was read from some bytes -/
def Admitted.WasRead (srv : Server) (q : Admitted) : Prop :=
  ∃ wire, srv.codec.read wire = some q.parsed.client.reqMsg

/-- the same query from the same client, asked in another way -/
inductive Admitted.Alike (srv : Server) (q : Admitted) : Admitted → Prop
  | intro (client : ClientView) (ecsNet : Option IpAddr) (read : q.WasRead srv)
      (read' : ∃ wire, srv.codec.read wire = some client.reqMsg) :
    Alike srv q { q with parsed := { q.parsed with client := client, ecsNet := ecsNet } }

inductive Task.Alike (srv : Server) : Task → Task → Prop
  | arrived {reqWire reqWire' : Bytes} {m m' : Message} {protocol : Protocol} {clientIp : IpAddr}
      (read : srv.codec.read reqWire = some m) (read' : srv.codec.read reqWire' = some m')
      (question : SameQuestion m m') :
    Alike srv (.arrived reqWire protocol clientIp) (.arrived reqWire' protocol clientIp)
  | lookup {q q' : Admitted} (h : q.Alike srv q') : Alike srv (.lookup q) (.lookup q')
  | hit {q q' : Admitted} (h : q.Alike srv q') (entry : CacheEntry) :
    Alike srv (.hit q entry) (.hit q' entry)
  | answering {q q' : Admitted} (h : q.Alike srv q') (entry : CacheEntry) :
    Alike srv (.answering q entry) (.answering q' entry)
  | missed {q q' : Admitted} (h : q.Alike srv q') : Alike srv (.missed q) (.missed q')
  | direct {q q' : Admitted} (h : q.Alike srv q') (work : Work) :
    Alike srv (.direct q work) (.direct q' work)
  | flying {q q' : Admitted} (h : q.Alike srv q') (call : Nat) (work : Option Work) :
    Alike srv (.flying (.query q) call work) (.flying (.query q') call work)
  | resolved {q q' : Admitted} (h : q.Alike srv q') (result : Option Validated) :
    Alike srv (.resolved q result) (.resolved q' result)
  | ended : Alike srv .ended .ended

/-- the inputs of alike tasks: the geo layer sees the client subnet -/
inductive Input.Alike : Input → Input → Prop
  | same (x : Input) : Alike x x
  | admitted (action : RrlAction) (geo geo' : ProcessOutcome) :
    Alike (.admitted action geo) (.admitted action geo')

section
variable {srv : Server}

theorem parse_alike {reqWire reqWire' : Bytes} {m m' : Message}
    (read : srv.codec.read reqWire = some m) (read' : srv.codec.read reqWire' = some m')
    (question : SameQuestion m m') :
    (∃ outcome, parseAndValidateQuery srv.codec reqWire = .error outcome ∧
      parseAndValidateQuery srv.codec reqWire' = .error outcome) ∨
    ∃ p client ecsNet, parseAndValidateQuery srv.codec reqWire = .ok p ∧ p.client.reqMsg = m ∧
      parseAndValidateQuery srv.codec reqWire' =
        .ok { p with client := client, ecsNet := ecsNet } ∧ client.reqMsg = m' := by
  have hq : m'.queries = m.queries := by rw [question]
  unfold parseAndValidateQuery
  rw [read, read']
  dsimp only
  rw [hq]
  split
  · refine Or.inr ?_
    cases m.edns with
    | none =>
      cases m'.edns with
      | none => exact ⟨_, ⟨m', 512, false⟩, none, rfl, rfl, rfl, rfl⟩
      | some e' => exact ⟨_, ⟨m', _, _⟩, _, rfl, rfl, rfl, rfl⟩
    | some e =>
      cases m'.edns with
      | none => exact ⟨_, ⟨m', 512, false⟩, none, rfl, rfl, rfl, rfl⟩
      | some e' => exact ⟨_, ⟨m', _, _⟩, _, rfl, rfl, rfl, rfl⟩
  · exact Or.inl ⟨_, rfl, rfl⟩

theorem Task.Alike.request {t t' : Task} (h : t.Alike srv t') : t.request srv = t'.request srv := by
  cases h with
  | arrived read read' question =>
    rcases parse_alike read read' question with ⟨_, hp, hp'⟩ | ⟨p, _, _, hp, _, hp', _⟩
    · simp only [Task.request, hp, hp']
    · simp only [Task.request, hp, hp']
  | lookup h => cases h; rfl
  | hit h => rfl
  | answering h => rfl
  | missed h => rfl
  | direct h => cases h; rfl
  | flying h call work => cases h; cases work <;> rfl
  | resolved h => rfl
  | ended => rfl

end

/-! ## one step of a task -/

def World.bare (w : World) : World := { w with tasks := [], replies := [] }

/-- `w₁` with the tasks and replies of `w` before its own -/
def World.over (w₁ w : World) : World :=
  { w₁ with tasks := w.tasks ++ w₁.tasks, replies := w.replies ++ w₁.replies }

section
variable {srv : Server}

theorem over_bare (w : World) : w.bare.over w = w := by
  simp only [World.over, World.bare, List.append_nil]

theorem respond_frame (w : World) (q : Admitted) (source : Source) (wire : Bytes) :
    w.respond srv q source wire = (w.bare.respond srv q source wire).over w := by
  unfold World.respond
  split <;> simp [World.reply, World.over, World.bare]

theorem serveResult_frame (w : World) (q : Admitted) (result : Option Validated) :
    w.serveResult srv q result = (w.bare.serveResult srv q result).over w := by
  unfold World.serveResult
  split
  · simp [World.reply, World.over, World.bare]
  · split
    · simp [World.reply, World.over, World.bare]
    · split
      · simp [World.reply, World.over, World.bare]
      · exact respond_frame w q _ _

theorem letIn_frame (w : World) (p : ParsedDnsQuery) (protocol : Protocol) (clientIp : IpAddr)
    (geo : ProcessOutcome) (action : RrlAction) :
    w.letIn srv p protocol clientIp geo action =
      ((w.bare.letIn srv p protocol clientIp geo action).1.over w,
        (w.bare.letIn srv p protocol clientIp geo action).2) := by
  cases action with
  | Truncate => simp [World.letIn, World.reply, World.over, World.bare]
  | Drop => simp [World.letIn, World.reply, World.over, World.bare]
  | Allow =>
    simp only [World.letIn]
    split
    · simp [World.reply, World.over, World.bare]
    · simp [World.over, World.bare]

theorem spawnRefresh_frame (w : World) (q : Admitted) (entry : CacheEntry) :
    w.spawnRefresh srv q entry = (w.bare.spawnRefresh srv q entry).over w := by
  by_cases hc : (decide (entry.freshnessAt q.now srv.maxStaleSecs = .Stale) &&
      !decide (q.parsed.cacheKey ∈ w.inFlight)) = true
  · have hc' : (decide (entry.freshnessAt q.now srv.maxStaleSecs = .Stale) &&
      !decide (q.parsed.cacheKey ∈ w.bare.inFlight)) = true := hc
    simp only [World.spawnRefresh, if_pos hc, if_pos hc']
    simp [World.over, World.bare]
  · have hc' : ¬ (decide (entry.freshnessAt q.now srv.maxStaleSecs = .Stale) &&
      !decide (q.parsed.cacheKey ∈ w.bare.inFlight)) = true := hc
    simp only [World.spawnRefresh, if_neg hc, if_neg hc']
    exact (over_bare w).symm

theorem over_with (w : World) (cache : AnswerCache) (inFlight : List CacheKey)
    (sf : SingleFlight CacheKey (Option Validated)) (disk : AnswerCache) :
    { w with cache := cache, inFlight := inFlight, singleflight := sf, disk := disk } =
      { w.bare with
        cache := cache, inFlight := inFlight, singleflight := sf, disk := disk }.over w := by
  simp [World.over, World.bare]

theorem fly_frame (w : World) (who : Flier) (call : Nat) (x : Input) (work : Option Work) :
    w.fly srv who call x work =
      (w.bare.fly srv who call x work).map fun r => (r.1.over w, r.2) := by
  have hsf : ∀ sf, { w with singleflight := sf } = { w.bare with singleflight := sf }.over w :=
    fun sf => over_with w w.cache w.inFlight sf w.disk
  have hcache : ∀ cache, { w with cache := cache } = { w.bare with cache := cache }.over w :=
    fun cache => over_with w cache w.inFlight w.singleflight w.disk
  cases work with
  | none =>
    cases x with
    | none =>
      simp only [World.fly, World.land, World.board]
      rw [show w.bare.singleflight = w.singleflight from rfl]
      cases w.singleflight.leave call with
      | some r => simp only [hsf, Option.map_some]
      | none =>
        cases w.singleflight.observe call with
        | some sf => simp only [hsf, Option.map_some]
        | none =>
          cases w.singleflight.acquire call with
          | some sf => simp only [hsf, Option.map_some]
          | none => rfl
    | _ => rfl
  | some work =>
    by_cases hfin : ∃ result, work = .finished result
    · obtain ⟨result, rfl⟩ := hfin
      cases x with
      | none =>
        simp only [World.fly]
        rw [show w.bare.singleflight = w.singleflight from rfl]
        cases w.singleflight.finish call result.toOption with
        | some sf => simp only [hsf, Option.map_some]
        | none => rfl
      | _ => rfl
    · have hne : ∀ result, work ≠ .finished result := fun result he => hfin ⟨result, he⟩
      simp only [World.fly]
      rw [show work.step srv w.bare.clock who.name who.qtype w.bare.cache x =
        work.step srv w.clock who.name who.qtype w.cache x from rfl]
      cases work.step srv w.clock who.name who.qtype w.cache x with
      | some r => simp only [hcache, Option.map_some]
      | none => rfl

/-- **A step adds to the tasks and the replies**, and reads neither. -/
theorem taskStep_frame (w : World) (t : Task) (x : Input) :
    w.taskStep srv t x = (w.bare.taskStep srv t x).map fun r => (r.1.over w, r.2) := by
  have hsf : ∀ sf, { w with singleflight := sf } = { w.bare with singleflight := sf }.over w :=
    fun sf => over_with w w.cache w.inFlight sf w.disk
  have hcache : ∀ cache, { w with cache := cache } = { w.bare with cache := cache }.over w :=
    fun cache => over_with w cache w.inFlight w.singleflight w.disk
  have hdisk : ∀ disk, { w with disk := disk } = { w.bare with disk := disk }.over w :=
    fun disk => over_with w w.cache w.inFlight w.singleflight disk
  have hinFlight : ∀ l, { w with inFlight := l } = { w.bare with inFlight := l }.over w :=
    fun l => over_with w w.cache l w.singleflight w.disk
  unfold World.taskStep
  split
  · split
    · simp only [Option.map_some, over_bare]
    · simp only [Option.map_some, ← letIn_frame]
  · simp only [Option.map_some, over_bare]
    rfl
  · simp only [Option.map_some, ← spawnRefresh_frame]
  · split
    · simp only [Option.map_some, over_bare]
    · simp only [Option.map_some, ← respond_frame]
  · split
    · simp only [World.takeOff, hsf, Option.map_some]
      rfl
    · simp only [Option.map_some, over_bare]
  · simp only [Option.map_some, over_bare]
  · rename_i q work _
    rw [show work.step srv w.bare.clock q.parsed.query.name q.parsed.query.queryType
      w.bare.cache x =
      work.step srv w.clock q.parsed.query.name q.parsed.query.queryType w.cache x from rfl]
    split
    · simp only [hcache, Option.map_some]
    · rfl
  · exact fly_frame w _ _ _ _
  · simp only [Option.map_some, ← serveResult_frame]
  · simp only [World.takeOff, hsf, Option.map_some]
    rfl
  · simp only [hinFlight, Option.map_some]
    rfl
  · rename_i t stage _
    rw [show stage.step srv w.bare.clock t.key w.bare.cache x =
      stage.step srv w.clock t.key w.cache x from rfl]
    split
    · simp only [hcache, Option.map_some]
    · rfl
  · rename_i name qtype stage
    rw [show stage.step srv w.bare.clock name qtype w.bare.cache x =
      stage.step srv w.clock name qtype w.cache x from rfl]
    split
    · simp only [hcache, Option.map_some]
    · rfl
  · simp only [Option.map_some, over_bare]
    rfl
  · split
    · simp only [hdisk, Option.map_some]
    · simp only [Option.map_some, over_bare]
  · rfl

/-! ## alike tasks do the same -/

/-- the same shared data and spawned tasks, and alike tasks -/
def StepAlike (srv : Server) (r r' : World × Task) : Prop :=
  r.1.quiet = r'.1.quiet ∧ r.2.Alike srv r'.2

theorem cachedWire_alike (hcodec : srv.codec.Reencodes) {q q' : Admitted} (h : q.Alike srv q')
    (entry : CacheEntry) : (cachedWire srv q entry).isSome = (cachedWire srv q' entry).isSome := by
  cases h with
  | intro client ecsNet read read' =>
    obtain ⟨wire, hread⟩ := read
    obtain ⟨wire', hread'⟩ := read'
    unfold cachedWire
    cases hbase : srv.codec.read entry.rawWire with
    | none => rfl
    | some base =>
      dsimp only
      rw [constructClientResponse_isSome hcodec hread hbase,
        constructClientResponse_isSome hcodec hread' hbase]

theorem letIn_alike (b : World) {p : ParsedDnsQuery} {client : ClientView}
    {ecsNet : Option IpAddr} (hread : ∃ wire, srv.codec.read wire = some p.client.reqMsg)
    (hread' : ∃ wire, srv.codec.read wire = some client.reqMsg) (protocol : Protocol)
    (clientIp : IpAddr) (geo geo' : ProcessOutcome) (action : RrlAction) :
    StepAlike srv (b.letIn srv p protocol clientIp geo action)
      (b.letIn srv { p with client := client, ecsNet := ecsNet } protocol clientIp geo'
        action) := by
  cases action with
  | Truncate => exact ⟨rfl, .ended⟩
  | Drop => exact ⟨rfl, .ended⟩
  | Allow =>
    simp only [World.letIn]
    split
    · exact ⟨rfl, .ended⟩
    · refine ⟨rfl, .lookup ?_⟩
      exact .intro (q := ⟨p, protocol, clientIp, b.clock⟩) client ecsNet hread hread'

theorem look_alike (b : World) {q q' : Admitted} (h : q.Alike srv q') :
    (b.look srv q).Alike srv (b.look srv q') := by
  have h₀ := h
  cases h with
  | intro client ecsNet read read' =>
    simp only [World.look]
    split
    · split
      · exact .missed h₀
      · split
        · exact .missed h₀
        · exact .hit h₀ _
    · exact .missed h₀

theorem fly_alike (b : World) {q q' : Admitted} (h : q.Alike srv q') (call : Nat) (x : Input)
    (work : Option Work) :
    Option.Rel (StepAlike srv) (b.fly srv (.query q) call x work)
      (b.fly srv (.query q') call x work) := by
  have h₀ := h
  cases h with
  | intro client ecsNet read read' =>
    unfold World.fly
    split
    · split
      · simp only [World.land, World.board]
        cases b.singleflight.leave call with
        | some r => exact .some ⟨rfl, .resolved h₀ _⟩
        | none =>
          cases b.singleflight.observe call with
          | some sf => exact .some ⟨rfl, .flying h₀ _ _⟩
          | none =>
            cases b.singleflight.acquire call with
            | some sf => exact .some ⟨rfl, .flying h₀ _ _⟩
            | none => exact .none
      · exact .none
    · split
      · exact .some ⟨rfl, .flying h₀ _ _⟩
      · exact .none
    · rename_i work _
      dsimp only [Flier.name, Flier.qtype]
      cases work.step srv b.clock q.parsed.query.name q.parsed.query.queryType b.cache x with
      | some r => exact .some ⟨rfl, .flying h₀ _ _⟩
      | none => exact .none

theorem taskStep_direct (b : World) (q : Admitted) {work : Work}
    (hne : ∀ result, work ≠ .finished result) (x : Input) :
    b.taskStep srv (.direct q work) x =
      (work.step srv b.clock q.parsed.query.name q.parsed.query.queryType b.cache x).map
        fun r => ({ b with cache := r.2 }, .direct q r.1) := by
  cases work with
  | finished result => exact absurd rfl (hne result)
  | _ =>
    simp only [World.taskStep]
    split
    · rename_i h
      rw [h]
      rfl
    · rename_i h
      rw [h]
      rfl

theorem direct_alike (b : World) {q q' : Admitted} (h : q.Alike srv q') (work : Work) (x : Input) :
    Option.Rel (StepAlike srv) (b.taskStep srv (.direct q work) x)
      (b.taskStep srv (.direct q' work) x) := by
  have h₀ := h
  cases h with
  | intro client ecsNet read read' =>
    by_cases hfin : ∃ result, work = .finished result
    · obtain ⟨result, rfl⟩ := hfin
      cases x with
      | none => exact .some ⟨rfl, .resolved h₀ _⟩
      | _ => exact .none
    · have hne : ∀ result, work ≠ .finished result := fun result he => hfin ⟨result, he⟩
      rw [taskStep_direct b q hne, taskStep_direct b _ hne]
      cases work.step srv b.clock q.parsed.query.name q.parsed.query.queryType b.cache x with
      | some r => exact .some ⟨rfl, .direct h₀ _⟩
      | none => exact .none

theorem arrived_alike (b : World) {reqWire reqWire' : Bytes} {m m' : Message}
    (read : srv.codec.read reqWire = some m) (read' : srv.codec.read reqWire' = some m')
    (question : SameQuestion m m') (protocol : Protocol) (clientIp : IpAddr) (action : RrlAction)
    (geo geo' : ProcessOutcome) :
    Option.Rel (StepAlike srv)
      (b.taskStep srv (.arrived reqWire protocol clientIp) (.admitted action geo))
      (b.taskStep srv (.arrived reqWire' protocol clientIp) (.admitted action geo')) := by
  rcases parse_alike read read' question with ⟨_, hp, hp'⟩ | ⟨p, client, ecsNet, hp, hm, hp', hm'⟩
  · simp only [World.taskStep, hp, hp']
    exact .some ⟨rfl, .ended⟩
  · rw [← hm] at read
    rw [← hm'] at read'
    simp only [World.taskStep, hp, hp']
    exact .some (letIn_alike b ⟨_, read⟩ ⟨_, read'⟩ protocol clientIp geo geo' action)

theorem answering_alike (hcodec : srv.codec.Reencodes) (b : World) {q q' : Admitted}
    (h : q.Alike srv q') (entry : CacheEntry) :
    Option.Rel (StepAlike srv) (b.taskStep srv (.answering q entry) .none)
      (b.taskStep srv (.answering q' entry) .none) := by
  have hwire := cachedWire_alike hcodec h entry
  simp only [World.taskStep]
  cases hc : cachedWire srv q entry with
  | none =>
    rw [hc, eq_comm, Option.isSome_none, Option.isSome_eq_false_iff, Option.isNone_iff_eq_none]
      at hwire
    rw [hwire]
    exact .some ⟨rfl, .missed h⟩
  | some wire =>
    rw [hc, eq_comm, Option.isSome_some, Option.isSome_iff_exists] at hwire
    obtain ⟨wire', hc'⟩ := hwire
    rw [hc']
    refine .some ⟨?_, .ended⟩
    rw [respond_quiet, respond_quiet]

/-- **Alike tasks do the same** to the shared data, and stay alike. -/
theorem Task.Alike.step (hcodec : srv.codec.Reencodes) (b : World) {t t' : Task}
    (h : t.Alike srv t') {x x' : Input} (hx : x.Alike x') :
    Option.Rel (StepAlike srv) (b.taskStep srv t x) (b.taskStep srv t' x') := by
  cases h with
  | arrived read read' question =>
    cases hx with
    | same x =>
      cases x with
      | admitted action geo => exact arrived_alike b read read' question _ _ action geo geo
      | _ => exact .none
    | admitted action geo geo' =>
      exact arrived_alike b read read' question _ _ action geo geo'
  | lookup h =>
    cases hx with
    | same x =>
      cases x with
      | none => exact .some ⟨rfl, look_alike b h⟩
      | _ => exact .none
    | admitted => exact .none
  | hit h entry =>
    cases hx with
    | same x =>
      cases x with
      | none =>
        have h₀ := h
        cases h with
        | intro client ecsNet => exact .some ⟨rfl, .answering h₀ entry⟩
      | _ => exact .none
    | admitted => exact .none
  | answering h entry =>
    cases hx with
    | same x =>
      cases x with
      | none => exact answering_alike hcodec b h entry
      | _ => exact .none
    | admitted => exact .none
  | missed h =>
    cases hx with
    | same x =>
      cases x with
      | none =>
        have h₀ := h
        cases h with
        | intro client ecsNet =>
          simp only [World.taskStep]
          split
          · exact .some ⟨rfl, .flying h₀ _ _⟩
          · exact .some ⟨rfl, .direct h₀ _⟩
      | _ => exact .none
    | admitted => exact .none
  | direct h work =>
    cases hx with
    | same x => exact direct_alike b h work x
    | admitted => cases work <;> exact .none
  | flying h call work =>
    cases hx with
    | same x => exact fly_alike b h call x work
    | admitted =>
      cases work with
      | none => exact .none
      | some work => cases work <;> exact .none
  | resolved h result =>
    cases hx with
    | same x =>
      cases x with
      | none =>
        refine .some ⟨?_, .ended⟩
        rw [serveResult_quiet, serveResult_quiet]
      | _ => exact .none
    | admitted => exact .none
  | ended =>
    cases hx with
    | same x => cases x <;> exact .none
    | admitted => exact .none

end

end DnsResolver
