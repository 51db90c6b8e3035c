import DnsResolver.Engine.Enforce
import DnsResolver.Engine.Tasks

/-!
# What is in the cache, and what is served, in every interleaving

The hit path serves whatever the cache holds, whatever its status.  So every place where an entry
can get into the cache (the miss path, a revalidation that stores a new entry or puts the old one
back, a pre-warm, a load of the cache file) has to keep what `Servable` says, and so do the tasks
that hold an entry between two of their steps.

* `Servable`             an entry that may be served without another look at its status;
* `TaskOk`, `WorldOk`    the entries in the hands of a task, and everywhere;
* `taskStep_ok`          one step of a task keeps this;
* `run_servable`         so every run does, and no reply under enforcement is made from a bogus
                         message.
-/

namespace DnsResolver

/-! ## entries -/

structure Servable (srv : Server) (entry : CacheEntry) : Prop where
  status : entry.dnssecStatus = .Secure ∨ entry.dnssecStatus = .InsecureUnsigned
  minTtl : 0 < entry.minTtl
  responseCode : ∃ msg, srv.codec.toBytes msg = some entry.rawWire ∧
    (msg.responseCode = .NoError ∨ msg.responseCode = .NXDomain)

def AllServable (srv : Server) (cache : AnswerCache) : Prop :=
  ∀ key entry, cache key = some entry → Servable srv entry

theorem allServable_empty (srv : Server) : AllServable srv fun _ => none :=
  fun _ _ he => absurd he (by simp)

theorem isCacheable_iff {msg : Message} :
    isCacheable msg = true ↔ msg.responseCode = .NoError ∨ msg.responseCode = .NXDomain := by
  simp only [isCacheable, Bool.or_eq_true, decide_eq_true_eq]

theorem isCacheableDnssec_iff {status : DnssecStatus} :
    isCacheableDnssec status = true ↔ status = .Secure ∨ status = .InsecureUnsigned := by
  simp only [isCacheableDnssec, Bool.or_eq_true, decide_eq_true_eq]

section
variable {srv : Server} {cache cache' : AnswerCache}

theorem newEntry_servable {msg : Message} {status : DnssecStatus} {now : Nat} {entry : CacheEntry}
    (hm : isCacheable msg = true) (hs : isCacheableDnssec status = true)
    (h : newEntry srv msg status now = some entry) : Servable srv entry := by
  unfold newEntry at h
  cases hw : srv.codec.toBytes msg with
  | none => rw [hw] at h; exact absurd h (by simp)
  | some wire =>
    rw [hw] at h
    dsimp only at h
    split at h
    · rename_i httl
      obtain rfl := Option.some.inj h
      exact ⟨isCacheableDnssec_iff.mp hs, httl, msg, hw, isCacheable_iff.mp hm⟩
    · exact absurd h (by simp)

theorem AllServable.put (h : AllServable srv cache) (key : CacheKey) {o : Option CacheEntry}
    (ho : ∀ entry, o = some entry → Servable srv entry) : AllServable srv (cache.put key o) := by
  cases o with
  | none => exact h
  | some entry =>
    intro k e hk
    rw [AnswerCache.put] at hk
    by_cases hkey : k = key
    · rw [hkey, Function.update_self] at hk
      exact ho e hk
    · rw [Function.update_of_ne hkey] at hk
      exact h k e hk

theorem AllServable.drop (h : AllServable srv cache) (key : CacheKey) :
    AllServable srv (Function.update cache key none) := by
  intro k e hk
  by_cases hkey : k = key
  · rw [hkey, Function.update_self] at hk
    exact absurd hk (by simp)
  · rw [Function.update_of_ne hkey] at hk
    exact h k e hk

theorem AllServable.live (h : AllServable srv cache) (now : Nat) (key : CacheKey) :
    ∀ entry, liveEntries srv now cache key = some entry → Servable srv entry :=
  fun entry he => h key entry (Option.eq_some_of_filter_eq_some he)

/-! ## the background work -/

/-- `resolve_and_validate` tests before it stores -/
theorem workStep_ok {clock : Nat} {name : Name} {qtype : RecordType} {work work' : Work}
    {x : Input} (hcache : AllServable srv cache)
    (h : work.step srv clock name qtype cache x = some (work', cache')) :
    AllServable srv cache' := by
  cases Work.step_moves h with
  | stored r hc =>
    simp only [Bool.and_eq_true] at hc
    exact hcache.put _ fun _ he => newEntry_servable hc.1.2 hc.2 he
  | _ => exact hcache

/-- a revalidation has tested what it is about to store, and took what it puts back from the
cache -/
def RefreshOk (srv : Server) : Refresh → Prop
  | .storing msg status _ => isCacheable msg = true ∧ isCacheableDnssec status = true
  | .touching existing => Servable srv existing
  | _ => True

theorem refreshStep_ok {clock : Nat} {key : CacheKey} {stage stage' : Refresh} {x : Input}
    (hcache : AllServable srv cache) (hstage : RefreshOk srv stage)
    (h : stage.step srv clock key cache x = some (stage', cache')) :
    RefreshOk srv stage' ∧ AllServable srv cache' := by
  cases Refresh.step_moves h with
  | timed hc =>
    rw [Bool.and_eq_true] at hc
    exact ⟨hc, hcache⟩
  | stored msg status now =>
    exact ⟨trivial, hcache.put _ fun _ he => newEntry_servable hstage.1 hstage.2 he⟩
  | found he => exact ⟨hcache _ _ he, hcache⟩
  | touched existing =>
    refine ⟨trivial, hcache.put _ fun entry he => ?_⟩
    obtain rfl := Option.some.inj he
    exact ⟨hstage.status, hstage.minTtl, hstage.responseCode⟩
  | _ => exact ⟨trivial, hcache⟩

/-- a pre-warm tests the response code before it asks for the verdict -/
def PreloadOk : Preload → Prop
  | .validating msg => isCacheable msg = true
  | .stamped msg status => isCacheable msg = true ∧ isCacheableDnssec status = true
  | .storing msg status _ => isCacheable msg = true ∧ isCacheableDnssec status = true
  | _ => True

theorem preloadStep_ok {clock : Nat} {name : Name} {qtype : RecordType} {stage stage' : Preload}
    {x : Input} (hcache : AllServable srv cache) (hstage : PreloadOk stage)
    (h : stage.step srv clock name qtype cache x = some (stage', cache')) :
    PreloadOk stage' ∧ AllServable srv cache' := by
  cases Preload.step_moves h with
  | resolved hm => exact ⟨hm, hcache⟩
  | @validated msg status hs =>
    refine ⟨⟨hstage, ?_⟩, hcache⟩
    -- neither bogus nor unknown
    cases status <;> simp [isCacheableDnssec] at hs ⊢
  | timed msg status => exact ⟨hstage, hcache⟩
  | stored msg status now =>
    exact ⟨trivial, hcache.put _ fun _ he => newEntry_servable hstage.1 hstage.2 he⟩
  | _ => exact ⟨trivial, hcache⟩

end

/-! ## replies -/

/-- `wire` is a response to the query made from the message that `source` holds -/
def Source.Yields (srv : Server) (p : ParsedDnsQuery) (wire : Bytes) : Source → Prop
  | .cached entry => ∃ now msg, srv.codec.read entry.rawWire = some msg ∧
      constructClientResponse srv.codec msg p.query.queryType entry.dnssecStatus
        (entry.freshnessAt now srv.maxStaleSecs) entry.cachedAt p.client now = some wire
  | .resolved r => ∃ now, constructClientResponse srv.codec r.msg p.query.queryType r.status .Fresh
      r.cachedAt p.client now = some wire

/-- a response is the geo layer's, or it was made from a message; under enforcement the message is
not bogus unless the client asked for it unchecked -/
def ReplyOk (srv : Server) (r : QueryReply) : Prop :=
  ∀ wire, r.outcome = .Success wire →
    srv.geoAuthoritative r.query.query.name = true ∨
      ∃ source, r.source = some source ∧ source.Yields srv r.query wire ∧
        (source.status = .Bogus → srv.dnssecEnforce = true →
          r.query.client.reqMsg.checkingDisabled = true)

/-! ## the invariant -/

/-- the entries in the hands of a task -/
def TaskOk (srv : Server) : Task → Prop
  | .hit _ entry => Servable srv entry
  | .answering _ entry => Servable srv entry
  | .refreshing _ stage => RefreshOk srv stage
  | .preloading _ _ stage => PreloadOk stage
  | .saving _ entries => AllServable srv entries
  | _ => True

structure WorldOk (srv : Server) (w : World) : Prop where
  cache : AllServable srv w.cache
  disk : AllServable srv w.disk
  tasks : ∀ t ∈ w.tasks, TaskOk srv t
  replies : ∀ r ∈ w.replies, ReplyOk srv r

section
variable {srv : Server} {w w' : World}

theorem WorldOk.reply (h : WorldOk srv w) {p : ParsedDnsQuery} {outcome : ProcessOutcome}
    {source : Option Source} (hr : ReplyOk srv ⟨p, outcome, source⟩) :
    WorldOk srv (w.reply p outcome source) := by
  refine ⟨h.cache, h.disk, h.tasks, fun r hm => ?_⟩
  rcases List.mem_append.mp hm with hm | hm
  · exact h.replies r hm
  · rw [List.mem_singleton.mp hm]
    exact hr

/-- a reply that is no `Success` needs no reason -/
theorem WorldOk.reply_other (h : WorldOk srv w) {p : ParsedDnsQuery} {outcome : ProcessOutcome}
    (hne : ∀ wire, outcome ≠ .Success wire) : WorldOk srv (w.reply p outcome none) :=
  h.reply fun wire he => absurd he (hne wire)

theorem WorldOk.respond (h : WorldOk srv w) {q : Admitted} {source : Source} {wire : Bytes}
    (hy : source.Yields srv q.parsed wire)
    (hb : source.status = .Bogus → srv.dnssecEnforce = true →
      q.parsed.client.reqMsg.checkingDisabled = true) :
    WorldOk srv (w.respond srv q source wire) := by
  unfold World.respond
  split
  · exact h.reply_other (by simp)
  · refine h.reply fun wire' he => Or.inr ⟨source, rfl, ?_, hb⟩
    rwa [← ProcessOutcome.Success.inj he]

theorem WorldOk.spawn (h : WorldOk srv w) {t : Task} (ht : TaskOk srv t) :
    WorldOk srv (w.spawn t) := by
  refine ⟨h.cache, h.disk, fun t' hm => ?_, h.replies⟩
  rcases List.mem_append.mp hm with hm | hm
  · exact h.tasks t' hm
  · rw [List.mem_singleton.mp hm]
    exact ht

theorem WorldOk.setTask (h : WorldOk srv w) (i : Nat) {t : Task} (ht : TaskOk srv t) :
    WorldOk srv (w.setTask i t) := by
  refine ⟨h.cache, h.disk, fun t' hm => ?_, h.replies⟩
  rcases List.mem_or_eq_of_mem_set hm with hm | rfl
  · exact h.tasks t' hm
  · exact ht

/-! ## the stages of a client query -/

theorem cachedWire_yields {q : Admitted} {entry : CacheEntry} {wire : Bytes}
    (h : cachedWire srv q entry = some wire) :
    (Source.cached entry).Yields srv q.parsed wire := by
  unfold cachedWire at h
  split at h
  · exact absurd h (by simp)
  · rename_i msg hread
    exact ⟨q.now, msg, hread, h⟩

theorem serveResult_ok (h : WorldOk srv w) (q : Admitted) (result : Option Validated) :
    WorldOk srv (w.serveResult srv q result) := by
  have hfail : ∀ wire, servFail srv q.parsed ≠ .Success wire := by simp [servFail]
  unfold World.serveResult
  split
  · exact h.reply_other hfail
  · rename_i r
    split
    · exact h.reply_other hfail
    · rename_i henf
      split
      · exact h.reply_other hfail
      · rename_i wire hwire
        refine h.respond ⟨q.now, hwire⟩ fun hb hen => ?_
        have hb' : r.status = .Bogus := hb
        by_contra hcd
        rw [Bool.not_eq_true] at hcd
        exact henf (by rw [hb', hen, hcd]; rfl)

theorem letIn_ok (h : WorldOk srv w) (p : ParsedDnsQuery) (protocol : Protocol) (clientIp : IpAddr)
    (geo : ProcessOutcome) (action : RrlAction) :
    WorldOk srv (w.letIn srv p protocol clientIp geo action).1 ∧
      TaskOk srv (w.letIn srv p protocol clientIp geo action).2 := by
  cases action with
  | Truncate => exact ⟨h.reply_other (by simp), trivial⟩
  | Drop => exact ⟨h.reply_other (by simp), trivial⟩
  | Allow =>
    unfold World.letIn
    by_cases hgeo : srv.geoAuthoritative p.query.name = true
    · rw [if_pos hgeo]
      exact ⟨h.reply fun _ _ => Or.inl hgeo, trivial⟩
    · rw [if_neg hgeo]
      exact ⟨h, trivial⟩

theorem look_ok (h : WorldOk srv w) (q : Admitted) : TaskOk srv (w.look srv q) := by
  unfold World.look
  split
  · split
    · exact trivial
    · rename_i entry he
      split
      · exact trivial
      · exact h.cache _ _ he
  · exact trivial

theorem spawnRefresh_ok (h : WorldOk srv w) (q : Admitted) (entry : CacheEntry) :
    WorldOk srv (w.spawnRefresh srv q entry) := by
  unfold World.spawnRefresh
  split
  · exact ⟨h.cache, h.disk, (h.spawn (t := .refreshing _ .resolving) trivial).tasks, h.replies⟩
  · exact h

theorem fly_ok (h : WorldOk srv w) {who : Flier} {call : Nat} {x : Input} {work : Option Work}
    {t : Task} (hf : w.fly srv who call x work = some (w', t)) : WorldOk srv w' ∧ TaskOk srv t := by
  cases World.fly_flies hf with
  | land hleave =>
    refine ⟨⟨h.cache, h.disk, h.tasks, h.replies⟩, ?_⟩
    cases who <;> exact trivial
  | works hwork => exact ⟨⟨workStep_ok h.cache hwork, h.disk, h.tasks, h.replies⟩, trivial⟩
  | _ => exact ⟨⟨h.cache, h.disk, h.tasks, h.replies⟩, trivial⟩

/-! ## steps and runs -/

/-- **One step of a task.** -/
theorem taskStep_ok (h : WorldOk srv w) {t t' : Task} (ht : TaskOk srv t) {x : Input}
    (hs : w.taskStep srv t x = some (w', t')) : WorldOk srv w' ∧ TaskOk srv t' := by
  have hcache : ∀ {cache : AnswerCache}, AllServable srv cache →
      WorldOk srv { w with cache := cache } := fun hc => ⟨hc, h.disk, h.tasks, h.replies⟩
  have hnext : ∀ {w₁ t₁}, some (w₁, t₁) = some (w', t') → WorldOk srv w₁ → TaskOk srv t₁ →
      WorldOk srv w' ∧ TaskOk srv t' := by
    intro w₁ t₁ he hw₁ ht₁
    obtain ⟨rfl, rfl⟩ := Prod.mk.inj (Option.some.inj he)
    exact ⟨hw₁, ht₁⟩
  unfold World.taskStep at hs
  split at hs
  · -- a query arrives
    split at hs
    · exact hnext hs h trivial
    · rename_i protocol clientIp action geo _ p _
      have hok := letIn_ok h p protocol clientIp geo action
      exact hnext hs hok.1 hok.2
  · exact hnext hs h (look_ok h _)
  · exact hnext hs (spawnRefresh_ok h _ _) ht
  · -- the response from an entry; its status is not bogus
    split at hs
    · exact hnext hs h trivial
    · rename_i q entry _ wire hwire
      refine hnext hs (h.respond (cachedWire_yields hwire) fun hb => ?_) trivial
      have hb' : entry.dnssecStatus = .Bogus := hb
      have hst : Servable srv entry := ht
      rcases hst.status with he | he <;> rw [he] at hb' <;> exact absurd hb' (by decide)
  · split at hs
    · exact hnext hs ⟨h.cache, h.disk, h.tasks, h.replies⟩ trivial
    · exact hnext hs h trivial
  · exact hnext hs h trivial
  · split at hs
    · rename_i hwork
      exact hnext hs (hcache (workStep_ok h.cache hwork)) trivial
    · exact absurd hs (by simp)
  · exact fly_ok h hs
  · exact hnext hs (serveResult_ok h _ _) trivial
  · exact hnext hs ⟨h.cache, h.disk, h.tasks, h.replies⟩ trivial
  · exact hnext hs ⟨h.cache, h.disk, h.tasks, h.replies⟩ trivial
  · split at hs
    · rename_i hstage
      have hok := refreshStep_ok h.cache ht hstage
      exact hnext hs (hcache hok.2) hok.1
    · exact absurd hs (by simp)
  · split at hs
    · rename_i hstage
      have hok := preloadStep_ok h.cache ht hstage
      exact hnext hs (hcache hok.2) hok.1
    · exact absurd hs (by simp)
  · -- the file gets entries of the cache only
    have hentries : AllServable srv _ := ht
    exact hnext hs h (hentries.put _ (h.cache.live _ _))
  · rename_i ok
    cases ok with
    | true => exact hnext hs ⟨h.cache, ht, h.tasks, h.replies⟩ trivial
    | false => exact hnext hs h trivial
  · exact absurd hs (by simp)

theorem cancelTask_ok (h : WorldOk srv w) {t : Task} (hc : w.cancelTask t = some w') :
    WorldOk srv w' := by
  obtain ⟨sf, rfl⟩ := cancelTask_eq hc
  exact ⟨h.cache, h.disk, h.tasks, h.replies⟩

theorem step_servable (h : WorldOk srv w) (a : Action) : WorldOk srv (w.step srv a) := by
  cases a with
  | clock now => exact ⟨h.cache, h.disk, h.tasks, h.replies⟩
  | query reqWire protocol clientIp => exact h.spawn trivial
  | prefetch key name qtype => exact h.spawn trivial
  | preload name qtype => exact h.spawn trivial
  | save => exact h.spawn (allServable_empty srv)
  | load key => exact ⟨h.cache.put key (h.disk.live _ _), h.disk, h.tasks, h.replies⟩
  | evict key => exact ⟨h.cache.drop key, h.disk, h.tasks, h.replies⟩
  | restart => exact ⟨allServable_empty srv, h.disk, List.forall_mem_nil _, h.replies⟩
  | task i x =>
    simp only [World.step]
    split
    · exact h
    · rename_i t ht
      split
      · exact h
      · rename_i w' t' hs
        obtain ⟨hw', ht'⟩ := taskStep_ok h (h.tasks t (List.mem_of_getElem? ht)) hs
        exact hw'.setTask i ht'
  | cancel i =>
    simp only [World.step]
    split
    · exact h
    · split
      · exact h
      · rename_i w' hc
        exact (cancelTask_ok h hc).setTask i trivial

end

theorem worldOk_start (srv : Server) : WorldOk srv {} :=
  ⟨allServable_empty srv, allServable_empty srv, List.forall_mem_nil _, List.forall_mem_nil _⟩

theorem run_worldOk {srv : Server} {w : World} (h : WorldOk srv w) (actions : List Action) :
    WorldOk srv (w.run srv actions) :=
  List.foldlRecOn actions (World.step srv) h fun _ hw a _ => step_servable hw a

/-- **No bogus data under enforcement.**  In every interleaving of client queries, single-flight,
revalidations, prefetches, pre-warms and saves and loads of the cache file, whatever the verdicts,
every entry of the cache is `Secure` or `InsecureUnsigned`, has a lifetime and holds a message with
a response code that may be cached; and no response to a client that wants checking is made from a
bogus message. -/
theorem run_servable (srv : Server) (henf : srv.dnssecEnforce = true) (actions : List Action) :
    (∀ key entry, (World.run srv actions {}).cache key = some entry →
      (entry.dnssecStatus = .Secure ∨ entry.dnssecStatus = .InsecureUnsigned) ∧
        0 < entry.minTtl ∧ ∃ msg, srv.codec.toBytes msg = some entry.rawWire ∧
          (msg.responseCode = .NoError ∨ msg.responseCode = .NXDomain)) ∧
    ∀ r ∈ (World.run srv actions {}).replies, ∀ wire, r.outcome = .Success wire →
      r.query.client.reqMsg.checkingDisabled = false →
      srv.geoAuthoritative r.query.query.name = true ∨
        ∃ source, r.source = some source ∧ source.Yields srv r.query wire ∧
          source.status ≠ .Bogus := by
  have hok := run_worldOk (worldOk_start srv) actions
  refine ⟨fun key entry he => ?_, fun r hr wire hsucc hcd => ?_⟩
  · have hs := hok.cache key entry he
    exact ⟨hs.status, hs.minTtl, hs.responseCode⟩
  · rcases hok.replies r hr wire hsucc with hgeo | ⟨source, hsource, hy, hb⟩
    · exact Or.inl hgeo
    · refine Or.inr ⟨source, hsource, hy, fun he => ?_⟩
      have hcd' := hb he henf
      rw [hcd] at hcd'
      exact absurd hcd' (by decide)

/-! ## two clients and one bogus answer -/

/-- a query of one client, up to its miss -/
def missSteps (i : Nat) : List Action :=
  [.query victimWire .TCP (.V4 ⟨#v[198, 51, 100, 77]⟩), .task i (.admitted .Allow .Dropped),
    .task i .none, .task i .none]

/-- its own closure runs, with this verdict on a name error -/
def workSteps (i : Nat) (status : DnssecStatus) : List Action :=
  [.task i .none, .task i (.message (.ok { responseCode := .NXDomain })),
    .task i (.verdict status), .task i .none, .task i .none, .task i .none]

/-- out of `run`, and the reply -/
def replySteps (i : Nat) : List Action := [.task i .none, .task i .none]

/-- the first client leads and the second waits for the same bogus answer; a third one asks again
and gets a secure one -/
def bogusActions : List Action :=
  missSteps 0 ++ missSteps 1 ++ workSteps 0 .Bogus ++ [.task 1 .none] ++ replySteps 0 ++
    replySteps 1 ++ missSteps 2 ++ workSteps 2 .Secure ++ replySteps 2

def bogusWorld : World := World.run bareServer bogusActions {}

theorem bogusWorld_servable :
    bogusWorld.replies.map (fun r => decide (r.outcome = servFail bareServer r.query)) =
        [true, true, false] ∧
      bogusWorld.cache (canonicalCacheKey bareServer.codec victimName .A) ≠ none ∧
      ∀ r ∈ bogusWorld.replies, ∀ wire, r.outcome = .Success wire →
        r.query.client.reqMsg.checkingDisabled = false →
        ∃ source, r.source = some source ∧ source.status ≠ .Bogus := by
  refine ⟨by decide +kernel, ?_, fun r hr wire hsucc hcd => ?_⟩
  · have hsome : (bogusWorld.cache (canonicalCacheKey bareServer.codec victimName .A)).isSome =
        true := by decide +kernel
    exact Option.isSome_iff_ne_none.mp hsome
  · rcases (run_servable bareServer rfl bogusActions).2 r hr wire hsucc hcd with hgeo | hsource
    · exact absurd hgeo (by simp [bareServer])
    · obtain ⟨source, hs, _, hne⟩ := hsource
      exact ⟨source, hs, hne⟩

end DnsResolver
