import DnsResolver.Lib.Trace
import DnsResolver.Recursor.Delegation
import DnsResolver.Recursor.Redirection
import DnsResolver.Recursor.Upstream

/-!
# Iterative resolution (`recursor/mod.rs`)

`resolveInternal` walks down from the root or from a cached delegation: at most `maxSteps` queries,
each answered, referred on, or ended.  Aliases and nameserver addresses are resolved by the same
function one level deeper; `resolveAt` counts the levels that are left.

A `Walk` is the local state of the loop.  Its field `origin` is not in the source: it says what
the servers in use are the servers of.  `RecursorState.log` is a trace, for the proofs only.

* `walkStep`         one round of the loop, over the recursive call it may make;
* `walkStep_cases`   the three things a round can do to the cache;
* `resolveAt_rule`   the invariant rule of the recursion.
-/

namespace DnsResolver
open Trace

def maxDepth : Nat := 16
def maxSteps : Nat := 16

/-! ## state -/

/-- the strings in `visited` -/
inductive VisitKey where
  | cname (key : ZoneKey)
  | dname (key : ZoneKey)
  | nsResolve (key : ZoneKey)
  deriving DecidableEq

/-- where the servers in use come from -/
inductive Origin where
  | rootServers
  /-- the cached entry of `owner` -/
  | cachedEntry (owner : Name)
  /-- the last accepted referral -/
  | referral (owner : Name)
  deriving DecidableEq

/-- the zone the servers in use are known for -/
def Origin.zone : Origin → Name
  | .rootServers => .root
  | .cachedEntry owner => owner
  | .referral owner => owner

structure Walk where
  usingCached : Bool
  currentServers : List IpAddr
  lastZone : Option Name
  bailiwick : Name
  origin : Origin

inductive WalkEvent where
  /-- a query to the servers in use and what came of it -/
  | reply (walk : Walk) (name : Name) (rtype : RecordType) (response : Option Message)
  /-- an entry made because of a referral by the servers in use -/
  | insert (walk : Walk) (zone : Name) (entry : DelegationEntry)

structure RecursorState where
  delegationCache : DelegationCache := fun _ => none
  visited : List VisitKey := []
  tick : Nat := 0
  log : List WalkEvent := []

namespace RecursorState

def visit (st : RecursorState) (key : VisitKey) : RecursorState :=
  { st with visited := key :: st.visited }

def purgeDelegationFor (st : RecursorState) (name : Name) (rtype : RecordType) : RecursorState :=
  { st with delegationCache := purgeDelegation st.delegationCache name rtype }

def asked (st : RecursorState) (net : Net) (w : Walk) (name : Name) (rtype : RecordType) :
    RecursorState :=
  { st with
    tick := st.tick + 1
    log := st.log ++
      [.reply w name rtype (queryServersWithFallback net st.tick w.currentServers name rtype)] }

def referralEntry (st : RecursorState) (net : Net) (ips : List IpAddr) (response : Message) :
    DelegationEntry where
  servers := ips
  expiresAt := net.nowSecs st.tick + delegationTtl response
  source := .Dynamic

def insertDelegation (st : RecursorState) (net : Net) (w : Walk) (zone : Name)
    (ips : List IpAddr) (response : Message) : RecursorState :=
  { st with
    delegationCache :=
      Function.update st.delegationCache zone.fold (some (st.referralEntry net ips response))
    tick := st.tick + 1
    log := st.log ++ [.insert w zone (st.referralEntry net ips response)] }

end RecursorState

abbrev Resolved := Except RecursorError Message

/-- a resolution that may be run in the course of another -/
abbrev Resolver := Name → RecordType → RecursorState → Resolved × RecursorState

/-! ## the start of a walk -/

def rootWalk : Walk where
  usingCached := false
  currentServers := rootServers
  lastZone := none
  bailiwick := .root
  origin := .rootServers

/-- the walk before its first round; the bailiwick is the root in any case -/
def startWalk (net : Net) (name : Name) (rtype : RecordType) (st : RecursorState) :
    Walk × RecursorState :=
  let st' := { st with tick := st.tick + 1 }
  match findCachedStart st.delegationCache (net.nowSecs st.tick) name rtype with
  | some (zone, entry) =>
    if entry.servers.isEmpty then (rootWalk, st')
    else
      ({ rootWalk with
          usingCached := true
          currentServers := entry.servers
          origin := .cachedEntry zone }, st')
  | none => (rootWalk, st')

/-! ## answers -/

/-- where the CNAME records of an answer section lead -/
inductive CnameWalk where
  | loop
  /-- the section has a record of the queried type at the target -/
  | found
  | target (name : Name)

/-- the loop over the CNAME records of `answers`.  Every round but the last sees a new target of
one of them, so one round more than there are records is enough. -/
def cnameLoop (rtype : RecordType) (answers : List Record) :
    Nat → List ZoneKey → Name → CnameWalk
  | 0, _, _ => .loop
  | k + 1, seen, current =>
    if current.fold ∈ seen then .loop
    else if answers.any (Record.isAt current rtype) then .found
    else
      match answers.findSome? (extractCnameTarget current) with
      | some next => cnameLoop rtype answers k (current.fold :: seen) next
      | none => .target current

/-- the first DNAME record above `name` with a readable target: owner, target and TTL -/
def dnameMatch (name : Name) (answers : List Record) : Option (Name × Name × UInt32) :=
  answers.findSome? fun r =>
    if decide (r.recordType = .DNAME) && r.name.zoneOf name && !r.name.nameEq name then
      (extractDnameTarget r).map fun target => (r.name, target, r.ttl)
    else none

/-- the alias `response` leads to is resolved and merged, unless `key` was seen before -/
def followAlias (resolve : Resolver) (key : VisitKey) (target name : Name) (rtype : RecordType)
    (response : Message) (st : RecursorState) : Resolved × RecursorState :=
  if key ∈ st.visited then (.error .NoProgress, st)
  else
    match resolve target rtype (st.visit key) with
    | (.ok resp, st) => (.ok (mergeRedirectionResponse name rtype response resp), st)
    | (.error e, st) => (.error e, st)

def cnameRedirect (resolve : Resolver) (name : Name) (rtype : RecordType) (response : Message)
    (firstTarget : Name) (st : RecursorState) : Resolved × RecursorState :=
  match cnameLoop rtype response.answers (response.answers.length + 1) [name.fold] firstTarget with
  | .loop => (.error .NoProgress, st)
  | .found => (.ok response, st)
  | .target target => followAlias resolve (.cname target.fold) target name rtype response st

/-- the response with the CNAME record a DNAME stands for -/
def withSynthCname (name substituted : Name) (ttl : UInt32) (response : Message) : Message :=
  if response.answers.any (Record.isAt name .CNAME) then response
  else
    { response with
      answers := response.answers ++ [{ name := name, ttl := ttl, data := .cname substituted }] }

def dnameRedirect (tx : Presentation) (resolve : Resolver) (name : Name) (rtype : RecordType)
    (response : Message) (dname : Name × Name × UInt32) (st : RecursorState) :
    Resolved × RecursorState :=
  match dnameSubstitute tx name dname.1 dname.2.1 with
  | .ok substituted =>
    let workingResponse := withSynthCname name substituted dname.2.2 response
    if workingResponse.answers.any (Record.isAt substituted rtype) then (.ok workingResponse, st)
    else followAlias resolve (.dname substituted.fold) substituted name rtype workingResponse st
  | .error .YXDomain => (.ok { response with responseCode := .YXDomain }, st)
  | .error _ => (.error .NoProgress, st)

/-- what an answer section comes to; `none` if it does not matter -/
def answerStep (tx : Presentation) (resolve : Resolver) (name : Name) (rtype : RecordType)
    (response : Message) (st : RecursorState) : Option Resolved × RecursorState :=
  if response.answers.isEmpty then (none, st)
  else if response.answers.any (Record.isAt name rtype) then (some (.ok response), st)
  else
    match response.answers.findSome? (extractCnameTarget name) with
    | some firstTarget =>
      let (r, st) := cnameRedirect resolve name rtype response firstTarget st
      (some r, st)
    | none =>
      match dnameMatch name response.answers with
      | some dname =>
        let (r, st) := dnameRedirect tx resolve name rtype response dname st
        (some r, st)
      | none => (none, st)

/-- an answer section without a record for `name`, an alias of it or a DNAME above it -/
def ignoresAnswers (name : Name) (rtype : RecordType) (response : Message) : Bool :=
  response.answers.isEmpty ||
    (!response.answers.any (Record.isAt name rtype) &&
      (response.answers.findSome? (extractCnameTarget name)).isNone &&
      (dnameMatch name response.answers).isNone)

/-! ## terminal responses and referrals -/

/-- an SOA record of a zone that can answer for `name` -/
def isSoaAuthoritative (name : Name) (rtype : RecordType) (response : Message) : Bool :=
  match response.nameServers.find? Record.isSoa with
  | some soa =>
    soa.name.zoneOf name || soa.name.nameEq name ||
      (decide (rtype = .DS) && (name.zoneOf soa.name || soa.name.zoneOf name))
  | none => false

def isTerminal (name : Name) (rtype : RecordType) (response : Message) : Bool :=
  isSoaAuthoritative name rtype response ||
    (response.authoritative &&
      (decide (response.responseCode = .NXDomain) || decide (response.responseCode = .NoError)))

/-- an authority section read as a referral -/
inductive Referral where
  /-- it is none -/
  | ret (r : Resolved)
  | delegation (owner : Name) (nsNames : List Name)

/-- the owner and the nameservers of a referral -/
def readReferral (response : Message) : Referral :=
  if response.nameServers.isEmpty then .ret (.error .NoProgress)
  else
    match response.nameServers.find? fun r => decide (r.recordType = .NS) with
    | none => .ret (.ok response)
    | some firstNs =>
      let nsRecords := response.nameServers.filter fun r => decide (r.recordType = .NS)
      if nsRecords.any fun r => !r.name.nameEq firstNs.name then .ret (.error .NoProgress)
      else
        let nsNames := nsRecords.filterMap Record.ns?
        if nsNames.isEmpty then .ret (.ok response) else .delegation firstNs.name nsNames

/-- the tests a referral has to pass -/
def acceptsReferral (w : Walk) (name owner : Name) : Bool :=
  !(w.lastZone.any fun z => z.nameEq owner) &&
    (owner.zoneOf name || owner.nameEq name) &&
    (w.bailiwick.isRoot || w.bailiwick.zoneOf owner || w.bailiwick.nameEq owner)

/-- the addresses of nameservers in the additional section, as far as they are in bailiwick -/
def glueIps (bailiwick owner : Name) (nsNames : List Name) (additionals : List Record) :
    List IpAddr :=
  additionals.filterMap fun add =>
    if !nsNames.any fun n => n.nameEq add.name then none
    else if !(bailiwick.isRoot || bailiwick.zoneOf add.name || bailiwick.nameEq add.name ||
        owner.zoneOf add.name || owner.nameEq add.name) then none
    else
      match add.data with
      | .a addr => some (.V4 addr)
      | .aaaa addr => some (.V6 addr)
      | _ => none

/-- the safe IPv4 addresses in a response -/
def safeIpv4 : Resolved → List IpAddr
  | .ok resp => resp.answers.filterMap fun ans =>
      match ans.data with
      | .a addr => if isSafeUpstreamIp (.V4 addr) then some (.V4 addr) else none
      | _ => none
  | .error _ => []

def safeIpv6 : Resolved → List IpAddr
  | .ok resp => resp.answers.filterMap fun ans =>
      match ans.data with
      | .aaaa addr => if isSafeUpstreamIp (.V6 addr) then some (.V6 addr) else none
      | _ => none
  | .error _ => []

/-- the addresses of one nameserver, unless it was visited before -/
def nsAddresses (resolve : Resolver) (nsName : Name) (st : RecursorState) :
    List IpAddr × RecursorState :=
  if .nsResolve nsName.fold ∈ st.visited then ([], st)
  else
    let (respA, st) := resolve nsName .A (st.visit (.nsResolve nsName.fold))
    let (respAaaa, st) := resolve nsName .AAAA st
    (safeIpv4 respA ++ safeIpv6 respAaaa, st)

/-- the loop over the nameservers of a referral without glue -/
def nsLoop (resolve : Resolver) : List Name → List IpAddr → RecursorState →
    List IpAddr × RecursorState
  | [], ips, st => (ips, st)
  | nsName :: rest, ips, st =>
    match nsAddresses resolve nsName st with
    | (new, st) =>
      if 4 ≤ (ips ++ new).length then (ips ++ new, st) else nsLoop resolve rest (ips ++ new) st

/-- the addresses a referral leads to: its glue, else those its nameservers resolve to -/
def referralIps (resolve : Resolver) (w : Walk) (owner : Name) (nsNames : List Name)
    (response : Message) (st : RecursorState) : List IpAddr × RecursorState :=
  let glue := filterSafeIps (glueIps w.bailiwick owner nsNames response.additionals)
  if glue.isEmpty then
    let (ips, st) := nsLoop resolve (nsNames.take 4) [] st
    (ips.eraseDups, st)
  else (glue, st)

def referredWalk (owner : Name) (ips : List IpAddr) : Walk where
  usingCached := false
  currentServers := ips
  lastZone := some owner
  bailiwick := owner
  origin := .referral owner

/-! ## the loop -/

inductive WalkStep where
  | done (r : Resolved)
  | go (w : Walk)

/-- a response that is not an answer -/
def referralStep (net : Net) (resolve : Resolver) (name : Name) (rtype : RecordType) (w : Walk)
    (response : Message) (st : RecursorState) : WalkStep × RecursorState :=
  if isTerminal name rtype response then (.done (.ok response), st)
  else
    match readReferral response with
    | .ret r => (.done r, st)
    | .delegation owner nsNames =>
      if !acceptsReferral w name owner then (.done (.error .NoProgress), st)
      else
        match referralIps resolve w owner nsNames response st with
        | (ips, st) =>
          if ips.isEmpty then (.done (.error .GlueResolutionFailed), st)
          else (.go (referredWalk owner ips), st.insertDelegation net w owner ips response)

def walkStep (net : Net) (tx : Presentation) (resolve : Resolver) (name : Name)
    (rtype : RecordType) (w : Walk) (st : RecursorState) : WalkStep × RecursorState :=
  match queryServersWithFallback net st.tick w.currentServers name rtype with
  | none =>
    if w.usingCached then (.go rootWalk, (st.asked net w name rtype).purgeDelegationFor name rtype)
    else (.done (.error .AllNameserversFailed), st.asked net w name rtype)
  | some response =>
    match answerStep tx resolve name rtype response (st.asked net w name rtype) with
    | (some r, st) => (.done r, st)
    | (none, st) => referralStep net resolve name rtype w response st

/-- the loop with `k` rounds left -/
def walk (net : Net) (tx : Presentation) (resolve : Resolver) (name : Name) (rtype : RecordType) :
    Nat → Walk → RecursorState → Resolved × RecursorState
  | 0, _, st => (.error .StepLimitExceeded, st)
  | k + 1, w, st =>
    match walkStep net tx resolve name rtype w st with
    | (.done r, st) => (r, st)
    | (.go w', st) => walk net tx resolve name rtype k w' st

/-- `resolve_internal` with `k` levels left -/
def resolveAt (net : Net) (tx : Presentation) : Nat → Resolver
  | 0 => fun _ _ st => (.error .DepthExceeded, st)
  | k + 1 => fun name rtype st =>
    match startWalk net name rtype st with
    | (w, st) => walk net tx (resolveAt net tx k) name rtype maxSteps w st

/-- `resolve_internal` -/
def resolveInternal (net : Net) (tx : Presentation) (name : Name) (rtype : RecordType)
    (depth : Nat) (st : RecursorState) : Resolved × RecursorState :=
  resolveAt net tx (maxDepth + 1 - depth) name rtype st

/-- `RecursiveResolver::resolve` -/
def resolve (net : Net) (tx : Presentation) (name : Name) (rtype : RecordType)
    (st : RecursorState) : Resolved × RecursorState :=
  resolveInternal net tx name rtype 0 { st with visited := [] }

def resolveRun (net : Net) (tx : Presentation) :
    List (Name × RecordType) → RecursorState → List Resolved × RecursorState
  | [], st => ([], st)
  | (name, rtype) :: calls, st =>
    match resolve net tx name rtype st with
    | (r, st) =>
      match resolveRun net tx calls st with
      | (rs, st) => (r :: rs, st)

/-! ## what a round can do -/

/-- a reflexive and transitive relation on states that recursive calls and visits keep -/
structure Kept (resolve : Resolver) (R : RecursorState → RecursorState → Prop) : Prop where
  refl : ∀ st, R st st
  trans : ∀ st₁ st₂ st₃, R st₁ st₂ → R st₂ st₃ → R st₁ st₃
  visit : ∀ st key, R st (st.visit key)
  call : ∀ name rtype st, R st (resolve name rtype st).2

section
variable {net : Net} {tx : Presentation} {resolve : Resolver}
  {R : RecursorState → RecursorState → Prop} {name : Name} {rtype : RecordType}

theorem followAlias_keeps (hk : Kept resolve R) (key : VisitKey) (target name : Name)
    (rtype : RecordType) (response : Message) (st : RecursorState) :
    R st (followAlias resolve key target name rtype response st).2 := by
  unfold followAlias
  split
  · exact hk.refl st
  · have hcall := hk.trans _ _ _ (hk.visit st key) (hk.call target rtype (st.visit key))
    cases h : resolve target rtype (st.visit key) with
    | mk r st' =>
      rw [h] at hcall
      cases r <;> exact hcall

theorem answerStep_keeps (hk : Kept resolve R) (name : Name) (rtype : RecordType)
    (response : Message) (st : RecursorState) :
    R st (answerStep tx resolve name rtype response st).2 := by
  unfold answerStep
  split
  · exact hk.refl st
  · split
    · exact hk.refl st
    · split
      · -- an alias
        show R st (cnameRedirect resolve name rtype response _ st).2
        unfold cnameRedirect
        split
        · exact hk.refl st
        · exact hk.refl st
        · exact followAlias_keeps hk ..
      · split
        · show R st (dnameRedirect tx resolve name rtype response _ st).2
          unfold dnameRedirect
          split
          · dsimp only
            split
            · exact hk.refl st
            · exact followAlias_keeps hk ..
          · exact hk.refl st
          · exact hk.refl st
        · exact hk.refl st

theorem answerStep_none {response : Message} {st st' : RecursorState}
    (h : answerStep tx resolve name rtype response st = (none, st')) :
    ignoresAnswers name rtype response = true := by
  unfold answerStep at h
  unfold ignoresAnswers
  by_cases he : response.answers.isEmpty = true
  · rw [he, Bool.true_or]
  · rw [if_neg he] at h
    by_cases hat : response.answers.any (Record.isAt name rtype) = true
    · rw [if_pos hat] at h
      exact absurd (Prod.mk.inj h).1 (by simp)
    · rw [if_neg hat] at h
      cases hc : response.answers.findSome? (extractCnameTarget name) with
      | some target => simp [hc] at h
      | none =>
        cases hd : dnameMatch name response.answers with
        | some dname => simp [hc, hd] at h
        | none => simp [hat]

theorem nsAddresses_keeps (hk : Kept resolve R) (nsName : Name) (st : RecursorState) :
    R st (nsAddresses resolve nsName st).2 := by
  unfold nsAddresses
  split
  · exact hk.refl st
  · have h1 := hk.trans _ _ _ (hk.visit st (.nsResolve nsName.fold)) (hk.call nsName .A _)
    exact hk.trans _ _ _ h1 (hk.call nsName .AAAA _)

theorem nsLoop_keeps (hk : Kept resolve R) (nsNames : List Name) (ips : List IpAddr)
    (st : RecursorState) : R st (nsLoop resolve nsNames ips st).2 := by
  induction nsNames generalizing ips st with
  | nil => exact hk.refl st
  | cons nsName rest ih =>
    have h := nsAddresses_keeps hk nsName st
    cases hn : nsAddresses resolve nsName st with
    | mk new st' =>
      rw [hn] at h
      simp only [nsLoop, hn]
      split
      · exact h
      · exact hk.trans _ _ _ h (ih _ _)

theorem referralIps_keeps (hk : Kept resolve R) (w : Walk) (owner : Name) (nsNames : List Name)
    (response : Message) (st : RecursorState) :
    R st (referralIps resolve w owner nsNames response st).2 := by
  unfold referralIps
  dsimp only
  split
  · exact nsLoop_keeps hk ..
  · exact hk.refl st

/-- how a round ends: with a result, with a restart from the root after the cached servers failed,
or with a referral that became an entry -/
inductive RoundCase (net : Net) (R : RecursorState → RecursorState → Prop) (name : Name)
    (rtype : RecordType) (w : Walk) (st st' : RecursorState) : WalkStep → Prop
  | done {r : Resolved} : R (st.asked net w name rtype) st' →
      RoundCase net R name rtype w st st' (.done r)
  | restart : w.usingCached = true →
      st' = (st.asked net w name rtype).purgeDelegationFor name rtype →
      RoundCase net R name rtype w st st' (.go rootWalk)
  | referral {response : Message} {owner : Name} {nsNames : List Name} {ips : List IpAddr}
      {mid : RecursorState} :
      queryServersWithFallback net st.tick w.currentServers name rtype = some response →
      ignoresAnswers name rtype response = true → isTerminal name rtype response = false →
      readReferral response = .delegation owner nsNames → acceptsReferral w name owner = true →
      R (st.asked net w name rtype) mid → st' = mid.insertDelegation net w owner ips response →
      RoundCase net R name rtype w st st' (.go (referredWalk owner ips))

theorem walkStep_cases (hk : Kept resolve R) {w : Walk} {st st' : RecursorState} {o : WalkStep}
    (h : walkStep net tx resolve name rtype w st = (o, st')) :
    RoundCase net R name rtype w st st' o := by
  unfold walkStep at h
  split at h
  · split at h
    · rename_i hc
      obtain ⟨rfl, rfl⟩ := Prod.mk.inj h
      exact .restart hc rfl
    · obtain ⟨rfl, rfl⟩ := Prod.mk.inj h
      exact .done (hk.refl _)
  · rename_i response hq
    have hans : R _ (answerStep tx resolve name rtype response (st.asked net w name rtype)).2 :=
      answerStep_keeps hk name rtype response _
    split at h
    · rename_i r mid ha
      obtain ⟨rfl, rfl⟩ := Prod.mk.inj h
      rw [ha] at hans
      exact .done hans
    · rename_i mid ha
      rw [ha] at hans
      unfold referralStep at h
      split at h
      · obtain ⟨rfl, rfl⟩ := Prod.mk.inj h
        exact .done hans
      · rename_i hterm
        split at h
        · obtain ⟨rfl, rfl⟩ := Prod.mk.inj h
          exact .done hans
        · rename_i owner nsNames href
          split at h
          · obtain ⟨rfl, rfl⟩ := Prod.mk.inj h
            exact .done hans
          · rename_i hacc
            have hips := hk.trans _ _ _ hans
              (referralIps_keeps hk w owner nsNames response mid)
            cases hr : referralIps resolve w owner nsNames response mid with
            | mk ips st₂ =>
              rw [hr] at hips
              simp only [hr] at h
              split at h
              · obtain ⟨rfl, rfl⟩ := Prod.mk.inj h
                exact .done hips
              · obtain ⟨rfl, rfl⟩ := Prod.mk.inj h
                exact .referral hq (answerStep_none ha) (by simpa using hterm) href
                  (by simpa using hacc) hips rfl

end

/-! ## invariant rules -/

section
variable {net : Net} {tx : Presentation} {R : RecursorState → RecursorState → Prop}
  {J : Name → RecordType → Walk → Prop}

/-- what has to be shown of a relation on states and an invariant of the loop -/
structure WalkRule (net : Net) (R : RecursorState → RecursorState → Prop)
    (J : Name → RecordType → Walk → Prop) : Prop where
  refl : ∀ st, R st st
  trans : ∀ st₁ st₂ st₃, R st₁ st₂ → R st₂ st₃ → R st₁ st₃
  visit : ∀ st visited, R st { st with visited := visited }
  start : ∀ name rtype st, R st (startWalk net name rtype st).2 ∧
    J name rtype (startWalk net name rtype st).1
  round : ∀ name rtype w st st' o, J name rtype w → RoundCase net R name rtype w st st' o →
    R st st' ∧ ∀ w', o = .go w' → J name rtype w'

theorem walk_rule (h : WalkRule net R J) {resolve : Resolver}
    (hcall : ∀ name rtype st, R st (resolve name rtype st).2) (name : Name) (rtype : RecordType)
    (k : Nat) (w : Walk) (st : RecursorState) (hw : J name rtype w) :
    R st (walk net tx resolve name rtype k w st).2 := by
  have hk : Kept resolve R := ⟨h.refl, h.trans, fun st key => h.visit st _, hcall⟩
  induction k generalizing w st with
  | zero => exact h.refl st
  | succ k ih =>
    cases hs : walkStep net tx resolve name rtype w st with
    | mk o st' =>
      obtain ⟨hR, hgo⟩ := h.round name rtype w st st' o hw (walkStep_cases hk hs)
      simp only [walk, hs]
      cases o with
      | done r => exact hR
      | go w' => exact h.trans _ _ _ hR (ih w' st' (hgo w' rfl))

/-- **The invariant rule of the recursion.**  A relation that starting a walk and every round keep,
recursive calls counted as steps of it, relates the states before and after a resolution. -/
theorem resolveAt_rule (h : WalkRule net R J) (k : Nat) (name : Name) (rtype : RecordType)
    (st : RecursorState) : R st (resolveAt net tx k name rtype st).2 := by
  induction k generalizing name rtype st with
  | zero => exact h.refl st
  | succ k ih =>
    obtain ⟨hR, hJ⟩ := h.start name rtype st
    exact h.trans _ _ _ hR (walk_rule h ih name rtype maxSteps _ _ hJ)

theorem resolveRun_rule (h : WalkRule net R J) (calls : List (Name × RecordType))
    (st : RecursorState) : R st (resolveRun net tx calls st).2 := by
  induction calls generalizing st with
  | nil => exact h.refl st
  | cons call calls ih =>
    obtain ⟨name, rtype⟩ := call
    have hcall : R st (resolve net tx name rtype st).2 :=
      h.trans _ _ _ (h.visit st []) (resolveAt_rule h _ name rtype _)
    exact h.trans _ _ _ hcall (ih _)

end
end DnsResolver
