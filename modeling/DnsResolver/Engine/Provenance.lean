import DnsResolver.Engine.FlightLeader
import DnsResolver.Engine.Host
import DnsResolver.Engine.KeyText

/-!
# What a reply is made from

An answer of the recursor passes through many hands before a client sees it: the task that asked for
it, the validator, the cell of a flight, the answer cache, a revalidation, the cache file.  Every
one of them hands it on under a key, and the keys are where the question of another client could
come in.  A prefetch reads its question off the text of a key: `R` says which questions these may be.

* `Finding`               an answer or a verdict from outside, with the key of its question;
* `SingleFlight.Valued`   the values of flights are values for their keys;
* `WorldTraced`           whatever the server holds under a key was found for that key;
* `run_traced`            so it is in every run whose prefetches are for such questions.

`World.found` is a trace.
-/

set_option linter.unusedSectionVars false

namespace DnsResolver

/-! ## the values of flights -/

namespace SingleFlight
variable {κ τ : Type} [DecidableEq κ] {P Q : κ → τ → Prop} {sf : SingleFlight κ τ}

/-- the calls of a cell have one key, and its value is one for this key -/
structure Valued (P : κ → τ → Prop) (sf : SingleFlight κ τ) : Prop where
  ok : sf.FlightsOk
  one_key : ∀ c ∈ sf.calls, ∀ d ∈ sf.calls, c.cell = d.cell → c.key = d.key
  value : ∀ c ∈ sf.calls, ∀ v, sf.value c.cell = some v → P c.key v

theorem Valued.mono (h : sf.Valued P) (hPQ : ∀ key v, P key v → Q key v) : sf.Valued Q :=
  ⟨h.ok, h.one_key, fun c hc v hv => hPQ _ _ (h.value c hc v hv)⟩

theorem valued_empty : ({} : SingleFlight κ τ).Valued P :=
  ⟨flightsOk_empty, fun _ hc => absurd hc List.not_mem_nil,
    fun _ hc => absurd hc List.not_mem_nil⟩

theorem mem_advance {i : Nat} {c d : FlightCall κ τ} {stage : CallStage τ}
    {cells : List (Option τ)} {flights : κ → Option Nat} (hc : sf.calls[i]? = some c)
    (hd : d ∈ (sf.advance i c stage cells flights).calls) :
    ∃ d₀ ∈ sf.calls, d₀.key = d.key ∧ d₀.cell = d.cell := by
  rcases List.mem_or_eq_of_mem_set hd with hd | rfl
  · exact ⟨d, hd, rfl, rfl⟩
  · exact ⟨c, List.mem_of_getElem? hc, rfl, rfl⟩

theorem Valued.advance {i : Nat} {c : FlightCall κ τ} {stage : CallStage τ}
    {cells : List (Option τ)} {flights : κ → Option Nat} (h : sf.Valued P)
    (hc : sf.calls[i]? = some c) (hok : (sf.advance i c stage cells flights).FlightsOk)
    (hcells : ∀ cell v, (cells[cell]?).join = some v →
      sf.value cell = some v ∨ cell = c.cell ∧ P c.key v) :
    (sf.advance i c stage cells flights).Valued P := by
  refine ⟨hok, fun d hd e he hcell => ?_, fun d hd v hv => ?_⟩
  · obtain ⟨d₀, hd₀, hdk, hdc⟩ := mem_advance hc hd
    obtain ⟨e₀, he₀, hek, hec⟩ := mem_advance hc he
    rw [← hdk, ← hek]
    exact h.one_key d₀ hd₀ e₀ he₀ (by rw [hdc, hec, hcell])
  · obtain ⟨d₀, hd₀, hdk, hdc⟩ := mem_advance hc hd
    rw [← hdk]
    rcases hcells d.cell v hv with hold | ⟨hcell, hnew⟩
    · exact h.value d₀ hd₀ v (by rw [hdc]; exact hold)
    · rw [h.one_key d₀ hd₀ c (List.mem_of_getElem? hc) (by rw [hdc, hcell])]
      exact hnew

theorem Valued.join {key : κ} {cell : Nat} (h : sf.Valued P) (hk : sf.flights key = some cell) :
    Valued P { sf with
      calls := sf.calls ++ [{ key := key, cell := cell, isLeader := false }] } := by
  obtain ⟨i, g, hg, -, -, hgk, hgc⟩ := (h.ok.guarded key cell).mp hk
  have hnew : ∀ d ∈ sf.calls ++ [{ key := key, cell := cell, isLeader := false }],
      ∃ d₀ ∈ sf.calls, d₀.key = d.key ∧ d₀.cell = d.cell := by
    intro d hd
    rcases List.mem_append.mp hd with hd | hd
    · exact ⟨d, hd, rfl, rfl⟩
    · rw [List.mem_singleton.mp hd]
      exact ⟨g, List.mem_of_getElem? hg, hgk, hgc⟩
  refine ⟨h.ok.join hk, fun d hd e he hcell => ?_, fun d hd v hv => ?_⟩
  · obtain ⟨d₀, hd₀, hdk, hdc⟩ := hnew d hd
    obtain ⟨e₀, he₀, hek, hec⟩ := hnew e he
    rw [← hdk, ← hek]
    exact h.one_key d₀ hd₀ e₀ he₀ (by rw [hdc, hec, hcell])
  · obtain ⟨d₀, hd₀, hdk, hdc⟩ := hnew d hd
    rw [← hdk]
    exact h.value d₀ hd₀ v (by rw [hdc]; exact hv)

theorem Valued.lead {key : κ} (h : sf.Valued P) (hk : sf.flights key = none) :
    Valued P
      { flights := Function.update sf.flights key (some sf.cells.length)
        cells := sf.cells ++ [none]
        calls := sf.calls ++ [{ key := key, cell := sf.cells.length, isLeader := true }] } := by
  have hlt : ∀ d ∈ sf.calls, d.cell < sf.cells.length := by
    intro d hd
    obtain ⟨i, hi⟩ := List.mem_iff_getElem?.mp hd
    exact h.ok.cell_lt i d hi
  refine ⟨h.ok.lead hk, fun d hd e he hcell => ?_, fun d hd v hv => ?_⟩
  · rcases List.mem_append.mp hd with hd | hd <;> rcases List.mem_append.mp he with he | he
    · exact h.one_key d hd e he hcell
    · rw [List.mem_singleton.mp he] at hcell
      exact absurd hcell (Nat.ne_of_lt (hlt d hd))
    · rw [List.mem_singleton.mp hd] at hcell
      exact absurd hcell.symm (Nat.ne_of_lt (hlt e he))
    · rw [List.mem_singleton.mp hd, List.mem_singleton.mp he]
  · rcases List.mem_append.mp hd with hd | hd
    · rw [value_append_open (hlt d hd)] at hv
      exact h.value d hd v hv
    · rw [List.mem_singleton.mp hd] at hv
      replace hv : ((sf.cells ++ [none])[sf.cells.length]?).join = some v := hv
      rw [List.getElem?_concat_length] at hv
      cases hv

/-- **One operation.**  It is enough that a closure finishes with a value for the key of its
call. -/
theorem Valued.step (h : sf.Valued P) (op : FlightOp κ τ)
    (hfin : ∀ i v c, op = .finish i v → sf.calls[i]? = some c → P c.key v) :
    (sf.step op).Valued P := by
  have hok := h.ok.step op
  have hmoves := sf.step_moves op
  revert hmoves hok
  generalize sf.step op = sf'
  intro hok hmoves
  cases hmoves with
  | idle => exact h
  | join hk => exact h.join hk
  | lead hk => exact h.lead hk
  | acquire hc _ _ _ => exact h.advance hc hok fun _ _ hv => Or.inl hv
  | @finish i c v hc hs =>
    refine h.advance hc hok fun cell w hw => ?_
    rw [join_set (h.ok.cell_lt i c hc)] at hw
    by_cases hcell : cell = c.cell
    · rw [if_pos hcell] at hw
      rw [← Option.some.inj hw]
      exact Or.inr ⟨hcell, hfin i v c rfl hc⟩
    · rw [if_neg hcell] at hw
      exact Or.inl hw
  | observe hc _ _ => exact h.advance hc hok fun _ _ hv => Or.inl hv
  | leave hc _ => exact h.advance hc hok fun _ _ hv => Or.inl hv
  | cancel hc _ => exact h.advance hc hok fun _ _ hv => Or.inl hv

/-- the value `run` returns is one for the key of the call -/
theorem Valued.leave {i : Nat} {c : FlightCall κ τ} {v : τ} {sf' : SingleFlight κ τ}
    (h : sf.Valued P) (hc : sf.calls[i]? = some c) (hl : sf.leave i = some (v, sf')) :
    P c.key v := by
  unfold SingleFlight.leave at hl
  rw [hc] at hl
  dsimp only at hl
  split at hl
  · rename_i w hs
    obtain ⟨rfl, -⟩ := Prod.mk.inj (Option.some.inj hl)
    exact h.value c (List.mem_of_getElem? hc) _ (h.ok.value_of i c _ hc (Or.inl hs))
  · cases hl

end SingleFlight

/-! ## what was found -/

inductive Finding where
  -- the recursor's answer to a question with this key
  | answer (key : CacheKey) (msg : Message)
  -- and the validator's verdict on it
  | verdict (key : CacheKey) (msg : Message) (status : DnssecStatus)

/-- what the answer to a request says -/
def Request.findings (srv : Server) : Request → Input → List Finding
  | .resolve name qtype, .message (.ok msg) =>
    [.answer (canonicalCacheKey srv.codec name qtype) msg]
  | .validate msg name qtype, .verdict status =>
    [.verdict (canonicalCacheKey srv.codec name qtype) msg status]
  | _, _ => []

def World.findings (srv : Server) (w : World) : Action → List Finding
  | .task i x => (((w.tasks[i]?).bind (Task.request srv)).map fun r => r.findings srv x).getD []
  | _ => []

def World.found (srv : Server) : List Action → World → List Finding
  | [], _ => []
  | a :: rest, w => w.findings srv a ++ World.found srv rest (w.step srv a)

theorem World.found_concat (srv : Server) (actions : List Action) (a : Action) (w : World) :
    World.found srv (actions ++ [a]) w =
      World.found srv actions w ++ (World.run srv actions w).findings srv a := by
  induction actions generalizing w with
  | nil => exact List.append_nil _
  | cons b rest ih =>
    show w.findings srv b ++ World.found srv (rest ++ [a]) (w.step srv b) = _
    rw [ih, ← List.append_assoc]
    rfl

/-! ## what it was found for -/

/-- a message as the tasks pass it on, and as a pre-warm stores it -/
def Message.PassedOn (msg : Message) (status : DnssecStatus) (out : Message) : Prop :=
  out = stamp status msg ∨
    out = { stamp status msg with
      id := 0
      recursionDesired := false
      checkingDisabled := false }

/-- the recursor gave the message for this key, and the validator gave it this status -/
def Stamped (log : List Finding) (key : CacheKey) (out : Message) (status : DnssecStatus) : Prop :=
  ∃ msg, .answer key msg ∈ log ∧ .verdict key msg status ∈ log ∧ msg.PassedOn status out

/-- what a flight for this key hands out was found for a key that may stand for it -/
def ValueTraced (R : CacheKey → CacheKey → Prop) (log : List Finding) (key : CacheKey) :
    Option Validated → Prop
  | some r => ∃ found, R key found ∧ Stamped log found r.msg r.status
  | none => True

def EntryTraced (srv : Server) (log : List Finding) (key : CacheKey) (entry : CacheEntry) : Prop :=
  ∃ out, srv.codec.toBytes out = some entry.rawWire ∧ Stamped log key out entry.dnssecStatus

def CacheTraced (srv : Server) (log : List Finding) (cache : AnswerCache) : Prop :=
  ∀ key entry, cache key = some entry → EntryTraced srv log key entry

section
variable {srv : Server} {R : CacheKey → CacheKey → Prop} {log log' : List Finding} {key : CacheKey}
  {cache cache' : AnswerCache}

theorem Stamped.mono {out : Message} {status : DnssecStatus} (h : Stamped log key out status)
    (hl : log ⊆ log') : Stamped log' key out status := by
  obtain ⟨msg, ha, hv, hp⟩ := h
  exact ⟨msg, hl ha, hl hv, hp⟩

theorem ValueTraced.mono {v : Option Validated} (h : ValueTraced R log key v) (hl : log ⊆ log') :
    ValueTraced R log' key v := by
  cases v with
  | none => exact trivial
  | some r =>
    obtain ⟨found, hR, hs⟩ := h
    exact ⟨found, hR, hs.mono hl⟩

theorem EntryTraced.mono {entry : CacheEntry} (h : EntryTraced srv log key entry)
    (hl : log ⊆ log') : EntryTraced srv log' key entry := by
  obtain ⟨out, hw, hs⟩ := h
  exact ⟨out, hw, hs.mono hl⟩

theorem CacheTraced.mono (h : CacheTraced srv log cache) (hl : log ⊆ log') :
    CacheTraced srv log' cache := fun key entry he => (h key entry he).mono hl

theorem cacheTraced_empty : CacheTraced srv log fun _ => none := fun _ _ he => by cases he

theorem CacheTraced.put (h : CacheTraced srv log cache) {o : Option CacheEntry}
    (ho : ∀ entry, o = some entry → EntryTraced srv log key entry) :
    CacheTraced srv log (cache.put key o) := by
  cases o with
  | none => exact h
  | some entry =>
    intro k e hk
    rw [AnswerCache.put] at hk
    by_cases hkey : k = key
    · rw [hkey, Function.update_self] at hk
      rw [hkey]
      exact ho e hk
    · rw [Function.update_of_ne hkey] at hk
      exact h k e hk

theorem CacheTraced.drop (h : CacheTraced srv log cache) (key : CacheKey) :
    CacheTraced srv log (Function.update cache key none) := by
  intro k e hk
  by_cases hkey : k = key
  · rw [hkey, Function.update_self] at hk
    cases hk
  · rw [Function.update_of_ne hkey] at hk
    exact h k e hk

theorem CacheTraced.live (h : CacheTraced srv log cache) (now : Nat) (key : CacheKey) :
    ∀ entry, liveEntries srv now cache key = some entry → EntryTraced srv log key entry :=
  fun entry he => h key entry (Option.eq_some_of_filter_eq_some he)

theorem newEntry_traced {out : Message} {status : DnssecStatus} {now : Nat}
    (h : Stamped log key out status) :
    ∀ entry, newEntry srv out status now = some entry → EntryTraced srv log key entry := by
  intro entry he
  unfold newEntry at he
  split at he
  · cases he
  · rename_i wire hwire
    dsimp only at he
    split at he
    · obtain rfl := Option.some.inj he
      exact ⟨out, hwire, h⟩
    · cases he

/-! ## the background work -/

def Work.Traced (log : List Finding) (key : CacheKey) : Work → Prop
  | .resolving => True
  | .validating msg => .answer key msg ∈ log
  | .stamped out status => Stamped log key out status
  | .storing r => Stamped log key r.msg r.status
  | .finished (.ok r) => Stamped log key r.msg r.status
  | .finished (.error _) => True

def Refresh.Traced (srv : Server) (log : List Finding) (key : CacheKey) : Refresh → Prop
  | .validating msg => .answer key msg ∈ log
  | .stamped out status => Stamped log key out status
  | .storing out status _ => Stamped log key out status
  | .touching existing => EntryTraced srv log key existing
  | _ => True

def Preload.Traced (log : List Finding) (key : CacheKey) : Preload → Prop
  | .validating msg => .answer key msg ∈ log
  | .stamped out status => Stamped log key out status
  | .storing out status _ => Stamped log key out status
  | _ => True

theorem Work.Traced.mono {work : Work} (h : work.Traced log key) (hl : log ⊆ log') :
    work.Traced log' key := by
  cases work with
  | resolving => exact trivial
  | validating msg => exact hl h
  | stamped out status => exact Stamped.mono h hl
  | storing r => exact Stamped.mono h hl
  | finished result =>
    cases result with
    | ok r => exact Stamped.mono h hl
    | error e => exact trivial

theorem Refresh.Traced.mono {stage : Refresh} (h : stage.Traced srv log key) (hl : log ⊆ log') :
    stage.Traced srv log' key := by
  cases stage with
  | validating msg => exact hl h
  | stamped out status => exact Stamped.mono h hl
  | storing out status now => exact Stamped.mono h hl
  | touching existing => exact EntryTraced.mono h hl
  | _ => exact trivial

theorem Preload.Traced.mono {stage : Preload} (h : stage.Traced log key) (hl : log ⊆ log') :
    stage.Traced log' key := by
  cases stage with
  | validating msg => exact hl h
  | stamped out status => exact Stamped.mono h hl
  | storing out status now => exact Stamped.mono h hl
  | _ => exact trivial

/-- the answer to the request of a stage is in the log -/
def AnswerLogged (srv : Server) (log : List Finding) (request : Option Request) (x : Input) :
    Prop :=
  ∀ r, request = some r → r.findings srv x ⊆ log

variable {clock : Nat} {name : Name} {qtype : RecordType} {x : Input}

theorem workStep_traced {work work' : Work} (hcache : CacheTraced srv log cache)
    (hwork : work.Traced log (canonicalCacheKey srv.codec name qtype))
    (hx : AnswerLogged srv log (work.request name qtype) x)
    (h : work.step srv clock name qtype cache x = some (work', cache')) :
    work'.Traced log (canonicalCacheKey srv.codec name qtype) ∧ CacheTraced srv log cache' := by
  cases Work.step_moves h with
  | failed e => exact ⟨trivial, hcache⟩
  | resolved msg => exact ⟨hx _ rfl List.mem_cons_self, hcache⟩
  | validated msg status =>
    exact ⟨⟨msg, hwork, hx _ rfl List.mem_cons_self, Or.inl rfl⟩, hcache⟩
  | timed msg status => exact ⟨hwork, hcache⟩
  | stored r hc => exact ⟨hwork, hcache.put (newEntry_traced hwork)⟩
  | skipped r hc => exact ⟨hwork, hcache⟩

theorem refreshStep_traced {t : Revalidation} {stage stage' : Refresh}
    (hcache : CacheTraced srv log cache) (hkey : t.key = canonicalCacheKey srv.codec t.name t.qtype)
    (hstage : stage.Traced srv log t.key) (hx : AnswerLogged srv log (stage.request t) x)
    (h : stage.step srv clock t.key cache x = some (stage', cache')) :
    stage'.Traced srv log t.key ∧ CacheTraced srv log cache' := by
  cases Refresh.step_moves h with
  | resolved msg =>
    refine ⟨?_, hcache⟩
    show .answer t.key msg ∈ log
    rw [hkey]
    exact hx _ rfl List.mem_cons_self
  | @validated msg status hs =>
    refine ⟨⟨msg, hstage, ?_, Or.inl rfl⟩, hcache⟩
    rw [hkey]
    exact hx _ rfl List.mem_cons_self
  | timed hc => exact ⟨hstage, hcache⟩
  | stored out status now => exact ⟨trivial, hcache.put (newEntry_traced hstage)⟩
  | found he => exact ⟨hcache _ _ he, hcache⟩
  | touched existing =>
    refine ⟨trivial, hcache.put fun entry he => ?_⟩
    obtain rfl := Option.some.inj he
    exact hstage
  | _ => exact ⟨trivial, hcache⟩

theorem preloadStep_traced {stage stage' : Preload} (hcache : CacheTraced srv log cache)
    (hstage : stage.Traced log (canonicalCacheKey srv.codec name qtype))
    (hx : AnswerLogged srv log (stage.request name qtype) x)
    (h : stage.step srv clock name qtype cache x = some (stage', cache')) :
    stage'.Traced log (canonicalCacheKey srv.codec name qtype) ∧ CacheTraced srv log cache' := by
  cases Preload.step_moves h with
  | resolved hm => exact ⟨hx _ rfl List.mem_cons_self, hcache⟩
  | @validated msg status hs =>
    exact ⟨⟨msg, hstage, hx _ rfl List.mem_cons_self, Or.inr rfl⟩, hcache⟩
  | timed msg status => exact ⟨hstage, hcache⟩
  | stored msg status now => exact ⟨trivial, hcache.put (newEntry_traced hstage)⟩
  | _ => exact ⟨trivial, hcache⟩

end

/-! ## tasks -/

def Admitted.questionKey (srv : Server) (q : Admitted) : CacheKey :=
  canonicalCacheKey srv.codec q.parsed.query.name q.parsed.query.queryType

def Flier.questionKey (srv : Server) (who : Flier) : CacheKey :=
  canonicalCacheKey srv.codec who.name who.qtype

/-- the key of the query is the key of its question -/
def Admitted.Keyed (srv : Server) (q : Admitted) : Prop := q.parsed.cacheKey = q.questionKey srv

def Flier.Fits (srv : Server) (R : CacheKey → CacheKey → Prop) (key : CacheKey) : Flier → Prop
  | .query q => key = q.questionKey srv
  | .prefetch name qtype => R key (canonicalCacheKey srv.codec name qtype)

/-- the call of a flier is for its key -/
def Boarded (srv : Server) (R : CacheKey → CacheKey → Prop)
    (sf : SingleFlight CacheKey (Option Validated)) (call : Nat) (who : Flier) : Prop :=
  ∃ c, sf.calls[call]? = some c ∧ who.Fits srv R c.key

/-- the message a response is made from -/
def Source.MadeOf (srv : Server) (out : Message) : Source → Prop
  | .cached entry => srv.codec.toBytes out = some entry.rawWire
  | .resolved r => out = r.msg

/-- what a client is told is for its question -/
def Source.Traced (srv : Server) (log : List Finding) (key : CacheKey) : Source → Prop
  | .cached entry => EntryTraced srv log key entry
  | .resolved r => Stamped log key r.msg r.status

def ReplyTraced (srv : Server) (R : CacheKey → CacheKey → Prop) (log : List Finding)
    (r : QueryReply) : Prop :=
  ∀ source, r.source = some source →
    ∃ found, R (canonicalCacheKey srv.codec r.query.query.name r.query.query.queryType) found ∧
      source.Traced srv log found

def Task.Traced (srv : Server) (R : CacheKey → CacheKey → Prop) (log : List Finding)
    (sf : SingleFlight CacheKey (Option Validated)) : Task → Prop
  | .arrived _ _ _ => True
  | .lookup q => q.Keyed srv
  | .hit q entry => q.Keyed srv ∧ EntryTraced srv log (q.questionKey srv) entry
  | .answering q entry => q.Keyed srv ∧ EntryTraced srv log (q.questionKey srv) entry
  | .missed q => q.Keyed srv
  | .direct q work => work.Traced log (q.questionKey srv)
  | .flying who call work => Boarded srv R sf call who ∧
      ∀ w, work = some w → w.Traced log (who.questionKey srv)
  | .resolved q result => ValueTraced R log (q.questionKey srv) result
  | .prefetching key name qtype => R key (canonicalCacheKey srv.codec name qtype)
  | .refreshing t stage =>
    t.key = canonicalCacheKey srv.codec t.name t.qtype ∧ stage.Traced srv log t.key
  | .preloading name qtype stage => stage.Traced log (canonicalCacheKey srv.codec name qtype)
  | .saving _ entries => CacheTraced srv log entries
  | .ended => True

/-- whatever the server holds under a key was found for that key -/
structure WorldTraced (srv : Server) (R : CacheKey → CacheKey → Prop) (log : List Finding)
    (w : World) : Prop where
  cache : CacheTraced srv log w.cache
  disk : CacheTraced srv log w.disk
  flights : w.singleflight.Valued (ValueTraced R log)
  tasks : ∀ t ∈ w.tasks, t.Traced srv R log w.singleflight
  replies : ∀ r ∈ w.replies, ReplyTraced srv R log r

section
variable {srv : Server} {R : CacheKey → CacheKey → Prop} {log log' : List Finding} {w w' : World}
  {sf sf' : SingleFlight CacheKey (Option Validated)} {t t' : Task}

theorem Flier.Fits.related (hR : ∀ key, R key key) {key : CacheKey} {who : Flier}
    (h : who.Fits srv R key) : R key (who.questionKey srv) := by
  cases who with
  | query q =>
    have hkey : key = (Flier.query q).questionKey srv := h
    rw [← hkey]
    exact hR key
  | prefetch name qtype => exact h

theorem Boarded.step {call : Nat} {who : Flier} (h : Boarded srv R sf call who)
    (op : FlightOp CacheKey (Option Validated)) : Boarded srv R (sf.step op) call who := by
  obtain ⟨c, hc, hk⟩ := h
  obtain ⟨d, hd, hm⟩ := SingleFlight.step_keeps hc op
  refine ⟨d, hd, ?_⟩
  rw [hm.same.1]
  exact hk

theorem Task.Traced.mono (h : t.Traced srv R log sf) (hl : log ⊆ log')
    (hsf : ∀ call who, Boarded srv R sf call who → Boarded srv R sf' call who) :
    t.Traced srv R log' sf' := by
  cases t with
  | hit q entry => exact ⟨h.1, h.2.mono hl⟩
  | answering q entry => exact ⟨h.1, h.2.mono hl⟩
  | direct q work => exact Work.Traced.mono h hl
  | flying who call work => exact ⟨hsf _ _ h.1, fun v hv => (h.2 v hv).mono hl⟩
  | resolved q result => exact ValueTraced.mono h hl
  | refreshing t stage => exact ⟨h.1, h.2.mono hl⟩
  | preloading name qtype stage => exact Preload.Traced.mono h hl
  | saving now entries => exact CacheTraced.mono h hl
  | _ => exact h

theorem WorldTraced.mono (h : WorldTraced srv R log w) (hl : log ⊆ log') :
    WorldTraced srv R log' w where
  cache := h.cache.mono hl
  disk := h.disk.mono hl
  flights := h.flights.mono fun _ _ hv => hv.mono hl
  tasks t ht := (h.tasks t ht).mono hl fun _ _ hb => hb
  replies r hr source hs := by
    obtain ⟨found, hR, hr⟩ := h.replies r hr source hs
    refine ⟨found, hR, ?_⟩
    cases source with
    | cached entry => exact EntryTraced.mono hr hl
    | resolved r => exact Stamped.mono hr hl

theorem WorldTraced.withCache (h : WorldTraced srv R log w) {cache : AnswerCache}
    (hc : CacheTraced srv log cache) : WorldTraced srv R log { w with cache := cache } :=
  ⟨hc, h.disk, h.flights, h.tasks, h.replies⟩

theorem WorldTraced.spawn (h : WorldTraced srv R log w) (ht : t.Traced srv R log w.singleflight) :
    WorldTraced srv R log (w.spawn t) := by
  refine ⟨h.cache, h.disk, h.flights, fun u hu => ?_, h.replies⟩
  rcases List.mem_append.mp hu with hu | hu
  · exact h.tasks u hu
  · rw [List.mem_singleton.mp hu]
    exact ht

theorem WorldTraced.setTask (h : WorldTraced srv R log w) (i : Nat)
    (ht : t.Traced srv R log w.singleflight) : WorldTraced srv R log (w.setTask i t) := by
  refine ⟨h.cache, h.disk, h.flights, fun u hu => ?_, h.replies⟩
  rcases List.mem_or_eq_of_mem_set hu with hu | rfl
  · exact h.tasks u hu
  · exact ht

theorem WorldTraced.reply (h : WorldTraced srv R log w) {p : ParsedDnsQuery}
    (outcome : ProcessOutcome) {source : Option Source} (hr : ReplyTraced srv R log ⟨p, outcome, source⟩) :
    WorldTraced srv R log (w.reply p outcome source) := by
  refine ⟨h.cache, h.disk, h.flights, h.tasks, fun r hm => ?_⟩
  rcases List.mem_append.mp hm with hm | hm
  · exact h.replies r hm
  · rw [List.mem_singleton.mp hm]
    exact hr

theorem WorldTraced.reply_none (h : WorldTraced srv R log w) (p : ParsedDnsQuery)
    (outcome : ProcessOutcome) : WorldTraced srv R log (w.reply p outcome none) :=
  h.reply outcome fun _ hs => by cases hs

theorem WorldTraced.respond (h : WorldTraced srv R log w) {q : Admitted} {source : Source}
    {found : CacheKey} (hR : R (q.questionKey srv) found) (hs : source.Traced srv log found)
    (wire : Bytes) : WorldTraced srv R log (w.respond srv q source wire) := by
  unfold World.respond
  split
  · exact h.reply_none _ _
  · refine h.reply _ fun source' he => ?_
    rw [← Option.some.inj he]
    exact ⟨found, hR, hs⟩

theorem WorldTraced.flightOp (h : WorldTraced srv R log w)
    (op : FlightOp CacheKey (Option Validated))
    (hfin : ∀ i v c, op = .finish i v → w.singleflight.calls[i]? = some c →
      ValueTraced R log c.key v) :
    WorldTraced srv R log { w with singleflight := w.singleflight.step op } :=
  ⟨h.cache, h.disk, h.flights.step op hfin,
    fun t ht => (h.tasks t ht).mono (List.Subset.refl _) fun _ _ hb => hb.step op, h.replies⟩

/-! ### the stages of a query -/

theorem serveResult_traced (h : WorldTraced srv R log w) (q : Admitted) {result : Option Validated}
    (hr : ValueTraced R log (q.questionKey srv) result) :
    WorldTraced srv R log (w.serveResult srv q result) := by
  unfold World.serveResult
  split
  · exact h.reply_none _ _
  · rename_i r
    split
    · exact h.reply_none _ _
    · split
      · exact h.reply_none _ _
      · obtain ⟨found, hR, hs⟩ := hr
        have hsource : (Source.resolved r).Traced srv log found := hs
        exact h.respond hR hsource _

theorem letIn_traced (h : WorldTraced srv R log w) {p : ParsedDnsQuery} {reqWire : Bytes}
    (hp : parseAndValidateQuery srv.codec reqWire = .ok p) (protocol : Protocol)
    (clientIp : IpAddr) (geo : ProcessOutcome) (action : RrlAction) :
    WorldTraced srv R log (w.letIn srv p protocol clientIp geo action).1 ∧
      (w.letIn srv p protocol clientIp geo action).2.Traced srv R log
        (w.letIn srv p protocol clientIp geo action).1.singleflight := by
  cases action with
  | Truncate => exact ⟨h.reply_none _ _, trivial⟩
  | Drop => exact ⟨h.reply_none _ _, trivial⟩
  | Allow =>
    unfold World.letIn
    by_cases hgeo : srv.geoAuthoritative p.query.name = true
    · rw [if_pos hgeo]
      exact ⟨h.reply_none _ _, trivial⟩
    · rw [if_neg hgeo]
      exact ⟨h, parseAndValidateQuery_key hp⟩

theorem look_traced (h : WorldTraced srv R log w) {q : Admitted} (hq : q.Keyed srv) :
    (w.look srv q).Traced srv R log w.singleflight := by
  unfold World.look
  split
  · split
    · exact hq
    · rename_i entry he
      split
      · exact hq
      · refine ⟨hq, ?_⟩
        rw [← hq]
        exact h.cache _ _ he
  · exact hq

theorem spawnRefresh_traced (h : WorldTraced srv R log w) {q : Admitted} (hq : q.Keyed srv)
    (entry : CacheEntry) : WorldTraced srv R log (w.spawnRefresh srv q entry) ∧
      (w.spawnRefresh srv q entry).singleflight = w.singleflight := by
  unfold World.spawnRefresh
  split
  · have ht : (Task.refreshing ⟨q.parsed.cacheKey, q.parsed.query.name, q.parsed.query.queryType⟩
        .resolving).Traced srv R log w.singleflight := ⟨hq, trivial⟩
    have hspawn := h.spawn ht
    exact ⟨⟨hspawn.cache, hspawn.disk, hspawn.flights, hspawn.tasks, hspawn.replies⟩, rfl⟩
  · exact ⟨h, rfl⟩

/-- into `run`, with the key of the question -/
theorem takeOff_traced (h : WorldTraced srv R log w) {key : CacheKey} {who : Flier}
    (hkey : who.Fits srv R key) :
    WorldTraced srv R log (w.takeOff key who).1 ∧
      (w.takeOff key who).2.Traced srv R log (w.takeOff key who).1.singleflight := by
  refine ⟨h.flightOp (.enter key) fun _ _ _ he => ?_, ?_, fun _ hw => ?_⟩
  · cases he
  · show Boarded srv R (w.singleflight.enter key) w.singleflight.calls.length who
    unfold SingleFlight.enter Boarded
    split
    · exact ⟨_, List.getElem?_concat_length, hkey⟩
    · exact ⟨_, List.getElem?_concat_length, hkey⟩
  · cases hw

theorem fly_traced (hR : ∀ key, R key key) (h : WorldTraced srv R log w) {who : Flier}
    {call : Nat} {x : Input} {work : Option Work}
    (ht : (Task.flying who call work).Traced srv R log w.singleflight)
    (hx : AnswerLogged srv log ((Task.flying who call work).request srv) x)
    (hf : w.fly srv who call x work = some (w', t')) :
    WorldTraced srv R log w' ∧ t'.Traced srv R log w'.singleflight := by
  obtain ⟨hboard, hwork⟩ := ht
  obtain ⟨c, hc, hkey⟩ := hboard
  have hop : ∀ {sf : SingleFlight CacheKey (Option Validated)}
      (op : FlightOp CacheKey (Option Validated)), w.singleflight.step op = sf →
      (∀ i v c, op = .finish i v → w.singleflight.calls[i]? = some c → ValueTraced R log c.key v) →
      WorldTraced srv R log { w with singleflight := sf } ∧
        Boarded srv R sf call who := by
    rintro _ op rfl hfin
    exact ⟨h.flightOp op hfin, Boarded.step ⟨c, hc, hkey⟩ op⟩
  cases World.fly_flies hf with
  | @land result sf hleave =>
    have hstep : w.singleflight.step (.leave call) = sf := by simp only [SingleFlight.step, hleave]
    obtain ⟨hw, -⟩ := hop (.leave call) hstep fun _ _ _ he => by cases he
    refine ⟨hw, ?_⟩
    cases who with
    | query q =>
      have hown : c.key = q.questionKey srv := hkey
      show ValueTraced R log (q.questionKey srv) result
      rw [← hown]
      exact h.flights.leave hc hleave
    | prefetch name qtype => exact trivial
  | @observe sf hobserve =>
    have hstep : w.singleflight.step (.observe call) = sf := by
      simp only [SingleFlight.step, hobserve, Option.getD_some]
    obtain ⟨hw, hb⟩ := hop (.observe call) hstep fun _ _ _ he => by cases he
    exact ⟨hw, hb, fun _ hn => by cases hn⟩
  | @acquire sf hacquire =>
    have hstep : w.singleflight.step (.acquire call) = sf := by
      simp only [SingleFlight.step, hacquire, Option.getD_some]
    obtain ⟨hw, hb⟩ := hop (.acquire call) hstep fun _ _ _ he => by cases he
    refine ⟨hw, hb, fun v hv => ?_⟩
    rw [← Option.some.inj hv]
    exact trivial
  | @finish result sf hfinish =>
    have hstep : w.singleflight.step (.finish call result.toOption) = sf := by
      simp only [SingleFlight.step, hfinish, Option.getD_some]
    obtain ⟨hw, hb⟩ := hop (.finish call result.toOption) hstep fun i v d he hd => by
      obtain ⟨rfl, rfl⟩ := FlightOp.finish.inj he
      rw [hc] at hd
      rw [← Option.some.inj hd]
      have hres := hwork _ rfl
      cases result with
      | ok r => exact ⟨_, hkey.related hR, hres⟩
      | error e => exact trivial
    exact ⟨hw, hb, fun _ hn => by cases hn⟩
  | works hstep =>
    obtain ⟨hnext, hcache⟩ := workStep_traced h.cache (hwork _ rfl) hx hstep
    refine ⟨h.withCache hcache, ⟨c, hc, hkey⟩, fun v hv => ?_⟩
    rw [← Option.some.inj hv]
    exact hnext

/-! ### steps and runs -/

/-- **One step of a task.**  What it hands on it was given for the same question. -/
theorem taskStep_traced (hR : ∀ key, R key key) (h : WorldTraced srv R log w)
    (ht : t.Traced srv R log w.singleflight)
    {x : Input} (hx : AnswerLogged srv log (t.request srv) x)
    (hs : w.taskStep srv t x = some (w', t')) :
    WorldTraced srv R log w' ∧ t'.Traced srv R log w'.singleflight := by
  have hnext : ∀ {w₁ t₁}, some (w₁, t₁) = some (w', t') → WorldTraced srv R log w₁ →
      t₁.Traced srv R log w₁.singleflight →
      WorldTraced srv R log w' ∧ t'.Traced srv R log w'.singleflight := by
    intro w₁ t₁ he hw₁ ht₁
    obtain ⟨rfl, rfl⟩ := Prod.mk.inj (Option.some.inj he)
    exact ⟨hw₁, ht₁⟩
  unfold World.taskStep at hs
  split at hs
  · -- a query arrives
    split at hs
    · exact hnext hs h trivial
    · rename_i protocol clientIp action geo _ p hp
      have hok := letIn_traced h hp protocol clientIp geo action
      exact hnext hs hok.1 hok.2
  · exact hnext hs h (look_traced h ht)
  · rename_i q entry
    obtain ⟨hw, hsf⟩ := spawnRefresh_traced h ht.1 entry
    exact hnext hs hw ht
  · -- the response from an entry
    split at hs
    · exact hnext hs h ht.1
    · rename_i q entry _ wire _
      have hsource : (Source.cached entry).Traced srv log (q.questionKey srv) := ht.2
      exact hnext hs (h.respond (hR _) hsource _) trivial
  · rename_i q
    split at hs
    · have hkey : (Flier.query q).Fits srv R q.parsed.cacheKey := ht
      have hok := takeOff_traced h hkey
      exact hnext hs hok.1 hok.2
    · exact hnext hs h trivial
  · -- without a cache
    rename_i q result
    refine hnext hs h ?_
    cases result with
    | ok r => exact ⟨_, hR _, ht⟩
    | error e => exact trivial
  · split at hs
    · rename_i hwork
      obtain ⟨hstage, hcache⟩ := workStep_traced h.cache ht hx hwork
      exact hnext hs (h.withCache hcache) hstage
    · cases hs
  · exact fly_traced hR h ht hx hs
  · exact hnext hs (serveResult_traced h _ ht) trivial
  · rename_i key name qtype
    have hkey : (Flier.prefetch name qtype).Fits srv R key := ht
    have hok := takeOff_traced h hkey
    exact hnext hs hok.1 hok.2
  · exact hnext hs ⟨h.cache, h.disk, h.flights, h.tasks, h.replies⟩ trivial
  · split at hs
    · rename_i hstep
      obtain ⟨hstage, hcache⟩ := refreshStep_traced h.cache ht.1 ht.2 hx hstep
      exact hnext hs (h.withCache hcache) ⟨ht.1, hstage⟩
    · cases hs
  · split at hs
    · rename_i hstep
      obtain ⟨hstage, hcache⟩ := preloadStep_traced h.cache ht hx hstep
      exact hnext hs (h.withCache hcache) hstage
    · cases hs
  · -- the file gets entries of the cache only
    have hentries : CacheTraced srv log _ := ht
    exact hnext hs h (hentries.put (h.cache.live _ _))
  · rename_i ok
    cases ok with
    | true => exact hnext hs ⟨h.cache, ht, h.flights, h.tasks, h.replies⟩ trivial
    | false => exact hnext hs h trivial
  · cases hs

theorem cancelTask_traced (h : WorldTraced srv R log w) (hc : w.cancelTask t = some w') :
    WorldTraced srv R log w' := by
  have hcancel : ∀ {call : Nat}, (w.singleflight.cancel call).map
      (fun sf => { w with singleflight := sf }) = some w' → WorldTraced srv R log w' := by
    intro call he
    obtain ⟨sf, hsf, rfl⟩ := Option.map_eq_some_iff.mp he
    have hstep : w.singleflight.step (.cancel call) = sf := by
      simp only [SingleFlight.step, hsf, Option.getD_some]
    rw [← hstep]
    exact h.flightOp (.cancel call) fun _ _ _ he => by cases he
  unfold World.cancelTask at hc
  split at hc
  · rw [← Option.some.inj hc]
    exact h
  · rw [← Option.some.inj hc]
    exact h
  · exact hcancel hc
  · exact hcancel hc
  · exact hcancel hc
  · cases hc

/-- a prefetch is for a question that may stand for its key -/
def Action.Keyed (srv : Server) (R : CacheKey → CacheKey → Prop) : Action → Prop
  | .prefetch key name qtype => R key (canonicalCacheKey srv.codec name qtype)
  | _ => True

theorem step_traced (hR : ∀ key, R key key) (h : WorldTraced srv R log w) {a : Action}
    (ha : a.Keyed srv R)
    (hx : w.findings srv a ⊆ log) : WorldTraced srv R log (w.step srv a) := by
  cases a with
  | clock now => exact ⟨h.cache, h.disk, h.flights, h.tasks, h.replies⟩
  | query reqWire protocol clientIp => exact h.spawn trivial
  | prefetch key name qtype => exact h.spawn ha
  | preload name qtype => exact h.spawn trivial
  | save => exact h.spawn cacheTraced_empty
  | load key => exact h.withCache (h.cache.put (h.disk.live _ _))
  | evict key => exact h.withCache (h.cache.drop key)
  | restart =>
    exact ⟨cacheTraced_empty, h.disk, SingleFlight.valued_empty, List.forall_mem_nil _, h.replies⟩
  | task i x =>
    simp only [World.step]
    split
    · exact h
    · rename_i t ht
      split
      · exact h
      · rename_i w' t' hs
        have hans : AnswerLogged srv log (t.request srv) x := by
          intro r hr f hf
          refine hx ?_
          show f ∈ (((w.tasks[i]?).bind (Task.request srv)).map fun r => r.findings srv x).getD []
          rw [ht, Option.bind_some, hr]
          exact hf
        obtain ⟨hw', ht'⟩ := taskStep_traced hR h (h.tasks t (List.mem_of_getElem? ht)) hans hs
        exact hw'.setTask i ht'
  | cancel i =>
    simp only [World.step]
    split
    · exact h
    · split
      · exact h
      · rename_i w' hc
        exact (cancelTask_traced h hc).setTask i trivial

end

theorem worldTraced_start (srv : Server) (R : CacheKey → CacheKey → Prop) :
    WorldTraced srv R [] {} where
  cache := cacheTraced_empty
  disk := cacheTraced_empty
  flights := SingleFlight.valued_empty
  tasks := List.forall_mem_nil _
  replies := List.forall_mem_nil _

/-- **Runs.** -/
theorem run_traced {srv : Server} {R : CacheKey → CacheKey → Prop} (hR : ∀ key, R key key)
    {actions : List Action} (ha : ∀ a ∈ actions, a.Keyed srv R) :
    WorldTraced srv R (World.found srv actions {}) (World.run srv actions {}) := by
  induction actions using List.reverseRecOn with
  | nil => exact worldTraced_start srv R
  | append_singleton actions a ih =>
    have hrun : World.run srv (actions ++ [a]) {} = (World.run srv actions {}).step srv a :=
      List.foldl_append
    rw [hrun, World.found_concat]
    have hw := (ih fun b hb => ha b (List.mem_append_left _ hb)).mono
      (List.subset_append_left _ ((World.run srv actions {}).findings srv a))
    exact step_traced hR hw (ha a (List.mem_append_right _ List.mem_cons_self))
      (List.subset_append_right _ _)

end DnsResolver
