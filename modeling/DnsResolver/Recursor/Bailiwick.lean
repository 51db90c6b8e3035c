import DnsResolver.Recursor.Resolve

/-!
# Who may make a delegation entry

An entry is made because of a referral by the servers in use.  These are the servers of some zone,
`Walk.origin`; the test a referral has to pass looks at `Walk.bailiwick` instead.  The two agree
except while the walk is on the servers of a cached entry: there the bailiwick is still the root.

* `Provenance`              the servers that made an entry are those of its zone or an ancestor;
* `upwardReferral`          servers of a cached entry refer to a proper ancestor of its owner;
* `resolveRun_provenance`   without such a referral, every entry of a run has its provenance;
* `upwardRun`               a run in which the servers of `example.com.` replace those of `com.`.
-/

namespace DnsResolver
open Trace

/-- the servers that sent the referral for `zone` are known for `zone` or an ancestor -/
def Provenance (w : Walk) (zone : Name) : Prop := w.origin.zone.zoneOf zone = true

/-- a response that is neither an answer nor the end of the walk, read as a referral: its owner -/
def referralOwner (w : Walk) (name : Name) (rtype : RecordType) (response : Message) :
    Option Name :=
  if ignoresAnswers name rtype response && !isTerminal name rtype response then
    match readReferral response with
    | .delegation zone _ => if acceptsReferral w name zone then some zone else none
    | .ret _ => none
  else none

/-- the servers of a cached entry send a referral for a proper ancestor of its owner, which passes
the tests -/
def upwardReferral : WalkEvent → Bool
  | .reply w name rtype (some response) =>
    match w.origin, referralOwner w name rtype response with
    | .cachedEntry owner, some zone => zone.zoneOf owner && !zone.nameEq owner
    | _, _ => false
  | _ => false

/-! ## the bailiwick of a walk -/

/-- the bailiwick is the zone of the servers in use, or these are the servers of a cached entry
for an ancestor of the name -/
def BailiwickOk (name : Name) (w : Walk) : Prop :=
  (∃ owner, w.origin = .cachedEntry owner ∧ owner.zoneOf name = true) ∨
    w.bailiwick = w.origin.zone

theorem startWalk_bailiwick (net : Net) (name : Name) (rtype : RecordType) (st : RecursorState) :
    BailiwickOk name (startWalk net name rtype st).1 := by
  unfold startWalk
  cases h : findCachedStart st.delegationCache (net.nowSecs st.tick) name rtype with
  | none => exact Or.inr rfl
  | some start =>
    obtain ⟨zone, entry⟩ := start
    dsimp only
    by_cases he : entry.servers.isEmpty
    · rw [if_pos he]
      exact Or.inr rfl
    · rw [if_neg he]
      exact Or.inl ⟨zone, rfl, (findCachedStart_spec h).1⟩

theorem startWalk_log (net : Net) (name : Name) (rtype : RecordType) (st : RecursorState) :
    (startWalk net name rtype st).2.log = st.log ∧
      (startWalk net name rtype st).2.delegationCache = st.delegationCache := by
  unfold startWalk
  cases h : findCachedStart st.delegationCache (net.nowSecs st.tick) name rtype with
  | none => exact ⟨rfl, rfl⟩
  | some start =>
    dsimp only
    split <;> exact ⟨rfl, rfl⟩

theorem referralOwner_accepted {w : Walk} {name zone : Name} {rtype : RecordType}
    {response : Message} (h : referralOwner w name rtype response = some zone) :
    acceptsReferral w name zone = true := by
  unfold referralOwner at h
  split at h
  · split at h
    · split at h
      · rename_i hacc
        obtain rfl := Option.some.inj h
        exact hacc
      · exact absurd h (by simp)
    · exact absurd h (by simp)
  · exact absurd h (by simp)

/-- a referral that passes the tests is for the zone of the servers in use or below, or it is an
upward one -/
theorem acceptsReferral_provenance {w : Walk} {name zone : Name} {rtype : RecordType}
    {response : Message} (hw : BailiwickOk name w)
    (href : referralOwner w name rtype response = some zone)
    (hup : upwardReferral (.reply w name rtype (some response)) = false) : Provenance w zone := by
  have hacc := referralOwner_accepted href
  simp only [acceptsReferral, Bool.and_eq_true, Bool.or_eq_true] at hacc
  obtain ⟨⟨_, hchild⟩, hin⟩ := hacc
  have hzone : zone.zoneOf name = true := hchild.elim id Name.zoneOf_of_nameEq
  rcases hw with ⟨owner, ho, hown⟩ | hb
  · have hz : w.origin.zone = owner := by rw [ho]; rfl
    rw [Provenance, hz]
    rcases Name.zoneOf_total hown hzone with h | h
    · exact h
    · simp only [upwardReferral, ho, href, h, Bool.true_and, Bool.not_eq_false'] at hup
      exact Name.zoneOf_of_nameEq (Name.nameEq_symm hup)
  · rw [Provenance, ← hb]
    rcases hin with (h | h) | h
    · rw [Name.zoneOf_iff, Name.isRoot_iff.mp h]
      exact List.nil_suffix
    · exact h
    · exact Name.zoneOf_of_nameEq h

/-! ## runs -/

/-- an entry of the trace follows from a reply of the trace -/
def Justified (log : List WalkEvent) : WalkEvent → Prop
  | .insert w zone _ => ∃ name rtype response,
      .reply w name rtype (some response) ∈ log ∧
      referralOwner w name rtype response = some zone ∧ BailiwickOk name w
  | _ => True

theorem Justified.mono {log log' : List WalkEvent} {e : WalkEvent} (h : Justified log e)
    (hl : log ⊆ log') : Justified log' e := by
  cases e with
  | reply => trivial
  | insert w zone entry =>
    obtain ⟨name, rtype, response, hmem, hrest⟩ := h
    exact ⟨name, rtype, response, hl hmem, hrest⟩

/-- an entry of the cache was made in the course of `log` -/
def MadeBy (log : List WalkEvent) (key : ZoneKey) (entry : DelegationEntry) : Prop :=
  ∃ w zone, zone.fold = key ∧ .insert w zone entry ∈ log

/-- what every piece of a run does to the trace and to the cache -/
structure Delegates (st st' : RecursorState) : Prop where
  log : Grew (Justified st'.log) st.log st'.log
  cache : ∀ key entry, st'.delegationCache key = some entry →
    st.delegationCache key = some entry ∨ MadeBy st'.log key entry

section
variable {st st₁ st₂ : RecursorState}

theorem Delegates.same (hl : st₁.log = st.log)
    (hc : ∀ key entry, st₁.delegationCache key = some entry →
      st.delegationCache key = some entry) : Delegates st st₁ :=
  ⟨hl ▸ Grew.refl _, fun key entry h => Or.inl (hc key entry h)⟩

theorem Delegates.trans (h : Delegates st st₁) (h' : Delegates st₁ st₂) : Delegates st st₂ := by
  have hsub := h'.log.subset
  refine ⟨(h.log.mono fun _ he => he.mono hsub).trans h'.log, fun key entry he => ?_⟩
  rcases h'.cache key entry he with he | he
  · rcases h.cache key entry he with he | ⟨w, zone, hz, hmem⟩
    · exact Or.inl he
    · exact Or.inr ⟨w, zone, hz, hsub hmem⟩
  · exact Or.inr he

theorem delegates_asked (net : Net) (w : Walk) (name : Name) (rtype : RecordType) :
    Delegates st (st.asked net w name rtype) :=
  ⟨Grew.push trivial, fun _ _ h => Or.inl h⟩

theorem delegates_insert {net : Net} {w : Walk} {zone : Name} {ips : List IpAddr}
    {response : Message}
    (h : ∀ log, st.log ⊆ log → Justified log (.insert w zone (st.referralEntry net ips response))) :
    Delegates st (st.insertDelegation net w zone ips response) := by
  refine ⟨Grew.push (h _ (List.subset_append_left _ _)), fun key entry he => ?_⟩
  by_cases hk : key = zone.fold
  · subst hk
    simp only [RecursorState.insertDelegation, Function.update_self, Option.some.injEq] at he
    subst he
    exact Or.inr ⟨w, zone, rfl, List.mem_append_right _ (List.mem_singleton.mpr rfl)⟩
  · simp only [RecursorState.insertDelegation, Function.update_of_ne hk] at he
    exact Or.inl he

end

theorem delegates_rule (net : Net) : WalkRule net Delegates fun name _ w => BailiwickOk name w where
  refl := fun st => Delegates.same rfl fun _ _ h => h
  trans := fun _ _ _ h h' => h.trans h'
  visit := fun st visited => Delegates.same rfl fun _ _ h => h
  start := fun name rtype st => by
    obtain ⟨hl, hc⟩ := startWalk_log net name rtype st
    exact ⟨Delegates.same hl fun key entry h => by rwa [hc] at h, startWalk_bailiwick net name rtype st⟩
  round := fun name rtype w st st' o hw hround => by
    have hask : Delegates st (st.asked net w name rtype) := delegates_asked net w name rtype
    cases hround with
    | done h => exact ⟨hask.trans h, fun w' hw' => absurd hw' (by simp)⟩
    | restart hc hst =>
      subst hst
      refine ⟨hask.trans (Delegates.same rfl fun key entry h => purgeDelegation_le h), ?_⟩
      intro w' hw'
      obtain rfl := WalkStep.go.inj hw'
      exact Or.inr rfl
    | @referral response owner nsNames ips mid hq hign hterm href hacc hmid hst =>
      subst hst
      have hreply : .reply w name rtype (some response) ∈ mid.log := by
        refine hmid.log.subset (List.mem_append_right _ ?_)
        rw [hq]
        exact List.mem_singleton.mpr rfl
      refine ⟨(hask.trans hmid).trans (delegates_insert fun log hlog => ?_), ?_⟩
      · refine ⟨name, rtype, response, hlog hreply, ?_, hw⟩
        simp only [referralOwner, hign, hterm, href, hacc, Bool.not_false, Bool.and_true, if_true]
      · intro w' hw'
        obtain rfl := WalkStep.go.inj hw'
        exact Or.inr rfl

/-- **Provenance of delegations.**  In a run of resolutions from any cache in which the servers of
a cached entry never send a referral for a proper ancestor of its owner, every entry is made by
servers of its zone or an ancestor, and the cache holds nothing but such entries and old ones. -/
theorem resolveRun_provenance {net : Net} {tx : Presentation} {cache : DelegationCache}
    {calls : List (Name × RecordType)} {results : List Resolved} {st' : RecursorState}
    (hrun : resolveRun net tx calls { delegationCache := cache } = (results, st'))
    (hup : ∀ e ∈ st'.log, upwardReferral e = false) :
    (∀ w zone entry, .insert w zone entry ∈ st'.log → Provenance w zone) ∧
      ∀ key entry, st'.delegationCache key = some entry → cache key = some entry ∨
        ∃ w zone, zone.fold = key ∧ .insert w zone entry ∈ st'.log ∧ Provenance w zone := by
  have hd : Delegates _ (resolveRun net tx calls { delegationCache := cache }).2 :=
    resolveRun_rule (delegates_rule net) calls _
  rw [hrun] at hd
  have hall : ∀ w zone entry, .insert w zone entry ∈ st'.log → Provenance w zone := by
    intro w zone entry hmem
    rcases hd.log.mem hmem with h | ⟨name, rtype, response, hreply, href, hw⟩
    · exact absurd h (by simp)
    · exact acceptsReferral_provenance hw href (hup _ hreply)
  refine ⟨hall, fun key entry he => ?_⟩
  rcases hd.cache key entry he with h | ⟨w, zone, hz, hmem⟩
  · exact Or.inl h
  · exact Or.inr ⟨w, zone, hz, hmem, hall w zone entry hmem⟩

/-! ## the servers of `example.com.` -/

def comName : Name := ⟨[[99, 111, 109]], by decide⟩

/-- `example.com.` -/
def exampleName : Name := ⟨[[101, 120, 97, 109, 112, 108, 101], [99, 111, 109]], by decide⟩

/-- `www.example.com.` -/
def wwwName : Name := ⟨[119, 119, 119] :: exampleName.labels, by decide⟩

/-- `up.example.com.` -/
def upName : Name := ⟨[117, 112] :: exampleName.labels, by decide⟩

def comServer : Ipv4Addr := ⟨#v[192, 5, 6, 30]⟩
def exampleServer : Ipv4Addr := ⟨#v[93, 184, 216, 34]⟩

/-- a referral to one nameserver with its address -/
def referralTo (zone nsName : Name) (addr : Ipv4Addr) (name : Name) (rtype : RecordType) :
    Message where
  messageType := .Response
  queries := [{ name := name, queryType := rtype }]
  nameServers := [{ name := zone, ttl := 3600, data := .ns nsName }]
  additionals := [{ name := nsName, ttl := 3600, data := .a addr }]

def answerTo (addr : Ipv4Addr) (name : Name) (rtype : RecordType) : Message where
  messageType := .Response
  authoritative := true
  queries := [{ name := name, queryType := rtype }]
  answers := [{ name := name, ttl := 3600, data := .a addr }]

/-- the root and `com.` refer on; the server of `example.com.` answers for `www` and sends every
other query to itself, as the server of `com.` -/
def upwardNet : Net where
  nowSecs := fun _ => 1000
  shuffle := fun _ l => l
  arrival := fun _ l => l
  txid := fun _ _ => 0
  udp := fun _ addr _ name rtype =>
    if addr = .V4 exampleServer then
      if name = wwwName then .message (answerTo exampleServer name rtype)
      else .message (referralTo comName wwwName exampleServer name rtype)
    else if addr = .V4 comServer then
      .message (referralTo exampleName wwwName exampleServer name rtype)
    else .message (referralTo comName comName comServer name rtype)
  tcpRetry := fun _ _ _ _ _ => none
  tcpTruncated := fun _ _ _ _ _ => none
  shuffle_perm := fun _ _ => List.Perm.refl _
  arrival_perm := fun _ _ => List.Perm.refl _

/-- two resolutions below `example.com.`, the first from an empty cache -/
def upwardRun (second : Name) : List Resolved × RecursorState :=
  resolveRun upwardNet noText [(wwwName, .A), (second, .A)] {}

theorem upwardRun_www_provenance :
    ((upwardRun wwwName).2.log.all fun e => !upwardReferral e) = true ∧
      ∀ w zone entry, .insert w zone entry ∈ (upwardRun wwwName).2.log → Provenance w zone := by
  have hup : ((upwardRun wwwName).2.log.all fun e => !upwardReferral e) = true := by
    decide +kernel
  refine ⟨hup, (resolveRun_provenance (Prod.eta (upwardRun wwwName)).symm fun e he => ?_).1⟩
  simpa using List.all_eq_true.mp hup e he

/-- the second resolution starts from the entry of `example.com.` and overwrites that of `com.` -/
theorem upwardRun_not_provenance :
    (∃ w entry, .insert w comName entry ∈ (upwardRun upName).2.log ∧
        w.origin = .cachedEntry exampleName ∧ ¬ Provenance w comName) ∧
      ((upwardRun wwwName).2.delegationCache comName.fold).map DelegationEntry.servers =
        some [.V4 comServer] ∧
      ((upwardRun upName).2.delegationCache comName.fold).map DelegationEntry.servers =
        some [.V4 exampleServer] := by
  refine ⟨?_, by decide +kernel, by decide +kernel⟩
  have h : (upwardRun upName).2.log.any fun e => match e with
      | .insert w zone _ => decide (w.origin = .cachedEntry exampleName) && decide (zone = comName)
      | _ => false := by decide +kernel
  obtain ⟨e, he, hp⟩ := List.any_eq_true.mp h
  cases e with
  | reply => exact absurd hp (by simp)
  | insert w zone entry =>
    simp only [Bool.and_eq_true, decide_eq_true_eq] at hp
    obtain ⟨ho, rfl⟩ := hp
    refine ⟨w, entry, he, ho, ?_⟩
    rw [Provenance, ho]
    decide

end DnsResolver
