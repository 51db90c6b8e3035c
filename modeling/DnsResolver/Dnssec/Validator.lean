import DnsResolver.Dnssec.Chain
import DnsResolver.Recursor.Redirection

/-!
# The validator (`validator.rs`, `validate_negative` of `negative.rs`)

* `collectRedirectionChain`     the CNAME and DNAME steps from the queried name on;
* `validateRrset`               one RRset: its RRSIGs, the chain of each signer, the signature;
* `validateAnswer`              every step of the chain, then the RRset at its end;
* `validateNegative`            a negative response: SOA, then NSEC3 or NSEC;
* `validateMessageWithBudget`   which of the two applies.
-/

namespace DnsResolver
open Trace

def maxCnameChain : Nat := 16

/-! ## redirections -/

inductive RedirectionStep where
  | Cname (owner target : Name)
  | Dname (dnameOwner target inputName redirectedName : Name)
  deriving DecidableEq

inductive RedirectionChainResult where
  | Complete (chain : List RedirectionStep)
  | Loop
  | TooLong
  deriving DecidableEq

def RedirectionStep.next : RedirectionStep → Name
  | .Cname _ target => target
  | .Dname _ _ _ redirectedName => redirectedName

/-- target of the first CNAME record at `current` -/
def cnameTarget (current : Name) (records : List Record) : Option Name :=
  records.findSome? fun r =>
    if r.name.nameEq current && decide (r.recordType = .CNAME) then r.cname? else none

/-- the first DNAME record above `current` that can be applied: owner, target, new name -/
def dnameStep (tx : Presentation) (current : Name) (records : List Record) :
    Option (Name × Name × Name) :=
  records.findSome? fun r =>
    if decide (r.recordType = .DNAME) && r.name.zoneOf current && !r.name.nameEq current then
      match extractDnameTarget r with
      | none => none
      | some target =>
        match dnameSubstitute tx current r.name target with
        | .ok sub => some (r.name, target, sub)
        | .error _ => none
    else none

/-- the step from `current`, a CNAME before a DNAME -/
def redirection (tx : Presentation) (current : Name) (records : List Record) :
    Option RedirectionStep :=
  match cnameTarget current records with
  | some target => some (.Cname current target)
  | none =>
    match dnameStep tx current records with
    | some (dnameOwner, target, sub) => some (.Dname dnameOwner target current sub)
    | none => none

/-- the loop of `collect_redirection_chain` with `k` steps left -/
def redirectionLoop (tx : Presentation) (records : List Record) :
    Nat → List (List Label) → List RedirectionStep → Name → RedirectionChainResult
  | 0, seen, _, current => if current.fold ∈ seen then .Loop else .TooLong
  | k + 1, seen, chain, current =>
    if current.fold ∈ seen then .Loop
    else
      match redirection tx current records with
      | some step =>
        redirectionLoop tx records k (current.fold :: seen) (chain ++ [step]) step.next
      | none => .Complete chain

/-- `collect_redirection_chain` -/
def collectRedirectionChain (tx : Presentation) (name : Name) (records : List Record) :
    RedirectionChainResult :=
  redirectionLoop tx records maxCnameChain [] [] name

/-! ## one RRset -/

/-- an RRSIG worth trying: in time, by a zone at or above the owner, with no label too many -/
def isCandidate (now : Nat) (owner : Name) (r : Record) : Bool :=
  match r.data with
  | .rrsig sig => rrsigTimeValid sig now &&
      (sig.signerName.zoneOf owner || sig.signerName.nameEq owner) &&
      decide (sig.numLabels.toNat ≤ owner.numLabels)
  | _ => false

/-- the loop of `validate_rrset` over its candidates -/
def candidateLoop (env : Env) (targetRecords : List Record) :
    List Record → Bool → State → DnssecStatus × State
  | [], anyTrustedChain, st => (if anyTrustedChain then .Bogus else .InsecureUnsigned, st)
  | rrsigRecord :: rest, anyTrustedChain, st =>
    match rrsigRecord.data with
    | .rrsig sig =>
      match buildTrustChain env sig.signerName st with
      | (.Trusted keys _, st) =>
        match search (checkKey env targetRecords rrsigRecord sig) keys st with
        | (.hit _, st) => (.Secure, st)
        | (.stop, st) => (.Bogus, st)
        | (.miss, st) => candidateLoop env targetRecords rest true st
      | (.Unsigned _, st) => candidateLoop env targetRecords rest anyTrustedChain st
      | (.Bogus, st) => (.Bogus, st)
    | _ => candidateLoop env targetRecords rest anyTrustedChain st

/-- the verdict on an RRset without RRSIG -/
def unsignedStatus : ZoneSignedness → DnssecStatus
  | .Signed => .Bogus
  | .ProvenUnsigned => .InsecureUnsigned
  | .Unknown => .InsecureUnknown

/-- `validate_rrset` -/
def validateRrset (env : Env) (owner : Name) (rtype : RecordType)
    (targetRecords allRecords : List Record) (st : State) : DnssecStatus × State :=
  let rrsigRecords := allRecords.filter (Record.isRrsigOver owner rtype)
  if rrsigRecords.isEmpty then
    let (s, st) := isZoneSigned env owner st
    (unsignedStatus s, st)
  else
    let candidates := rrsigRecords.filter (isCandidate (env.nowSecs st.tick) owner)
    if candidates.isEmpty then (.Bogus, st.next)
    else candidateLoop env targetRecords candidates false st.next

/-! ## answers -/

/-- the RRset of type `t` at `owner`, checked if there is one -/
def validateAt (env : Env) (owner : Name) (t : RecordType) (allRecords : List Record)
    (st : State) : DnssecStatus × State :=
  let records := allRecords.filter (Record.isAt owner t)
  if records.isEmpty then (.Bogus, st) else validateRrset env owner t records allRecords st

def validateStep (env : Env) (allRecords : List Record) (step : RedirectionStep) (st : State) :
    DnssecStatus × State :=
  match step with
  | .Cname owner _ => validateAt env owner .CNAME allRecords st
  | .Dname dnameOwner _ inputName _ =>
    match validateAt env dnameOwner .DNAME allRecords st with
    | (.Secure, st) =>
      let synthCnameRecords := allRecords.filter (Record.isAt inputName .CNAME)
      let hasRrsig := allRecords.any (Record.isRrsigOver inputName .CNAME)
      if !synthCnameRecords.isEmpty && hasRrsig then
        validateRrset env inputName .CNAME synthCnameRecords allRecords st
      else (.Secure, st)
    | (other, st) => (other, st)

/-- all steps of the chain; `Secure` if every one is -/
def validateSteps (env : Env) (allRecords : List Record) :
    List RedirectionStep → State → DnssecStatus × State
  | [], st => (.Secure, st)
  | step :: rest, st =>
    match validateStep env allRecords step st with
    | (.Secure, st) => validateSteps env allRecords rest st
    | (other, st) => (other, st)

def finalOwner (name : Name) (chain : List RedirectionStep) : Name :=
  match chain.getLast? with
  | some step => step.next
  | none => name

/-- the RRset at the end of the chain -/
def validateFinal (env : Env) (name : Name) (rtype : RecordType) (chain : List RedirectionStep)
    (allRecords : List Record) (st : State) : DnssecStatus × State :=
  match validateSteps env allRecords chain st with
  | (.Secure, st) =>
    let owner := finalOwner name chain
    let targetRecords := allRecords.filter (Record.isAt owner rtype)
    if targetRecords.isEmpty then (.InsecureUnknown, st)
    else validateRrset env owner rtype targetRecords allRecords st
  | (other, st) => (other, st)

/-- `validate_answer` -/
def validateAnswer (env : Env) (name : Name) (rtype : RecordType) (allRecords : List Record)
    (st : State) : DnssecStatus × State :=
  if rtype = .CNAME then validateFinal env name rtype [] allRecords st
  else
    match collectRedirectionChain env.text name allRecords with
    | .Complete chain => validateFinal env name rtype chain allRecords st
    | .Loop => (.Bogus, st)
    | .TooLong => (.Bogus, st)

/-- an RRSIG over fewer labels than its owner has -/
def isWildcardRrsig (r : Record) : Bool :=
  match r.data with
  | .rrsig sig => decide (sig.numLabels < r.name.labels.length.toUInt8)
  | _ => false

/-- `wildcard_optout_check`: with or without opt-out, a wildcard answer is downgraded -/
def wildcardOptoutCheck (msg : Message) (answers : List Record) : Option DnssecStatus :=
  if !answers.any isWildcardRrsig then none
  else if !msg.nameServers.any fun r => decide (r.recordType = .NSEC3) then none
  else if msg.nameServers.any nsec3OptOut then some .InsecureUnknown
  else some .InsecureUnknown

/-! ## negative responses -/

/-- the name a negative response is about: the target of the last CNAME of the answer section -/
def negativeTarget (msg : Message) (qname : Name) : Name :=
  match msg.answers.reverse.find? fun r => decide (r.recordType = .CNAME) with
  | some r => r.cname?.getD qname
  | none => qname

/-- the denial proof of a negative response -/
def negativeProof (env : Env) (keys : List Dnskey) (target : Name) (qtype : RecordType)
    (authority : List Record) (st : State) : DnssecStatus × State :=
  if authority.any fun r => decide (r.recordType = .NSEC3) then
    validateNsec3 env keys target qtype authority st
  else if authority.any fun r => decide (r.recordType = .NSEC) then
    validateNsec env keys target qtype authority st
  else (.Bogus, st)

/-- `validate_negative` -/
def validateNegative (env : Env) (msg : Message) (qname : Name) (qtype : RecordType)
    (st : State) : DnssecStatus × State :=
  match msg.nameServers.find? Record.isSoa with
  | none => (.InsecureUnknown, st)
  | some soa =>
    let zone := soa.name
    let target := negativeTarget msg qname
    if !zone.zoneOf target && !zone.nameEq target && !zone.zoneOf qname && !zone.nameEq qname then
      (.Bogus, st)
    else
      match buildTrustChain env zone st with
      | (.Unsigned _, st) => (.InsecureUnsigned, st)
      | (.Bogus, st) => (.Bogus, st)
      | (.Trusted keys _, st) =>
        match verifyNegativeRrset env soa msg.nameServers keys st with
        | (false, st) => (.Bogus, st)
        | (true, st) => negativeProof env keys target qtype msg.nameServers st

/-! ## messages -/

/-- `validate_message_with_budget` -/
def validateMessageWithBudget (env : Env) (msg : Message) (qname : Name) (qtype : RecordType)
    (st : State) : DnssecStatus × State :=
  match msg.responseCode with
  | .NXDomain => validateNegative env msg qname qtype st
  | .NoError =>
    if msg.answers.isEmpty then validateNegative env msg qname qtype st
    else
      match validateAnswer env qname qtype msg.answers st with
      | (.Secure, st) => ((wildcardOptoutCheck msg msg.answers).getD .Secure, st)
      | (status, st) => (status, st)
  | _ => (.InsecureUnknown, st)

/-- `validate_message`: a budget of its own -/
def validateMessage (env : Env) (msg : Message) (qname : Name) (qtype : RecordType)
    (st : State) : DnssecStatus × State :=
  validateMessageWithBudget env msg qname qtype { st with budget := {} }

end DnsResolver
