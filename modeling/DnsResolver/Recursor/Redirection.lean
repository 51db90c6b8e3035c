import DnsResolver.Data.Record

/-!
# Redirections (`dname.rs`, `cname.rs`)

hickory does not know DNAME: its target is read from the RDATA octets, and the substitution works
on presentation text.  `Name::to_string`, `to_lowercase` on it, `Name::to_ascii` and
`Name::from_str` are the fields of `Presentation`; what the repository does between them is defined
where it does it.

* `readName`                   `Name::read` on a buffer that holds nothing but the RDATA: every
                               compression pointer there points forward and is refused;
* `dnameSubstitute`            the part of the name below the owner, followed by the target;
* `mergeRedirectionResponse`   the response to an alias: the hop, then what its target gave.
-/

namespace DnsResolver

/-- presentation text of names, as UTF-8 octets -/
structure Presentation where
  /-- `to_string()` -/
  text : Name → Bytes
  /-- `to_string().to_lowercase()` -/
  lowerText : Name → Bytes
  /-- `to_ascii()` -/
  toAscii : Name → Bytes
  /-- `Name::from_str` -/
  fromStr : Bytes → Option Name

def trimDots (s : Bytes) : Bytes := (s.reverse.dropWhile (· == 46)).reverse

/-- presentation text of names whose labels have no character to escape -/
def plainText : Presentation where
  text := fun n => if n.isRoot then [46] else n.labels.flatMap fun l => l ++ [46]
  lowerText := fun n => if n.isRoot then [46] else n.fold.flatMap fun l => l ++ [46]
  toAscii := fun n => if n.isRoot then [46] else n.labels.flatMap fun l => l ++ [46]
  fromStr := fun s =>
    if s = [46] then some .root else Name.fromLabels ((trimDots s).splitOn 46)

/-- for runs in which presentation text plays no part -/
def noText : Presentation where
  text := fun _ => []
  lowerText := fun _ => []
  toAscii := fun _ => []
  fromStr := fun _ => none

/-- the labels of an uncompressed wire name at the front of a buffer -/
def readLabels : Nat → Bytes → Option (List Label)
  | 0, _ => none
  | _, [] => none
  | k + 1, n :: rest =>
    if n = 0 then some []
    else if 63 < n then none
    else if rest.length < n.toNat then none
    else (readLabels k (rest.drop n.toNat)).map (rest.take n.toNat :: ·)

/-- `Name::read` -/
def readName (buf : Bytes) : Option Name :=
  match readLabels (buf.length + 1) buf with
  | none => none
  | some ls => Name.fromLabels ls

/-- `extract_dname_target` -/
def extractDnameTarget (r : Record) : Option Name :=
  if r.recordType = .DNAME then readName r.data.emit else none

/-- `dname_substitute` -/
def dnameSubstitute (tx : Presentation) (name dnameOwner target : Name) :
    Except ResponseCode Name :=
  if !dnameOwner.zoneOf name || dnameOwner.nameEq name then .error .FormErr
  else if !(tx.lowerText dnameOwner).isSuffixOf (tx.lowerText name) then .error .FormErr
  else
    let newName := (tx.lowerText name).take
      ((tx.lowerText name).length - (tx.lowerText dnameOwner).length) ++ tx.text target
    if 255 < newName.length then .error .YXDomain
    else if ((trimDots newName).splitOn 46).any fun label => decide (63 < label.length) then
      .error .YXDomain
    else
      match tx.fromStr newName with
      | some n => .ok n
      | none => .error .YXDomain

/-! ## CNAME -/

/-- `extract_cname_target` -/
def extractCnameTarget (name : Name) (r : Record) : Option Name :=
  if r.name.nameEq name && decide (r.recordType = .CNAME) then r.cname? else none

/-- `==` on RDATA: embedded names are compared without case, bitmaps by the types they list -/
def RData.same : RData → RData → Bool
  | .ns n, .ns n' => n.nameEq n'
  | .cname n, .cname n' => n.nameEq n'
  | .ptr n, .ptr n' => n.nameEq n'
  | .mx p n, .mx p' n' => decide (p = p') && n.nameEq n'
  | .srv p w port n, .srv p' w' port' n' =>
      decide (p = p' ∧ w = w' ∧ port = port') && n.nameEq n'
  | .soa s, .soa s' => s.mname.nameEq s'.mname && s.rname.nameEq s'.rname &&
      decide ({ s with mname := s'.mname, rname := s'.rname } = s')
  | .rrsig s, .rrsig s' => s.signerName.nameEq s'.signerName &&
      decide ({ s with signerName := s'.signerName } = s')
  | .nsec n, .nsec n' => n.nextDomainName.nameEq n'.nextDomainName &&
      decide (n.typeBitMaps = n'.typeBitMaps)
  | .nsec3 n, .nsec3 n' => decide ({ n with bitMap := n'.bitMap } = n')
  | d, d' => decide (d = d')

/-- `==` on records: the TTL does not count -/
def Record.same (r r' : Record) : Bool :=
  r.name.nameEq r'.name && decide (r.dnsClass = r'.dnsClass) && r.data.same r'.data

/-- the records of `new` that pass `keep` and are not there yet, added one by one -/
def addMissing (keep : Record → Bool) (new acc : List Record) : List Record :=
  new.foldl (fun acc r => if keep r && !acc.any fun e => e.same r then acc ++ [r] else acc) acc

/-- `merge_redirection_response` -/
def mergeRedirectionResponse (origName : Name) (origType : RecordType)
    (firstHopMsg finalMsg : Message) : Message where
  id := finalMsg.id
  messageType := .Response
  opCode := finalMsg.opCode
  authoritative := finalMsg.authoritative
  truncated := finalMsg.truncated
  recursionDesired := finalMsg.recursionDesired
  recursionAvailable := finalMsg.recursionAvailable
  authenticData := finalMsg.authenticData
  checkingDisabled := finalMsg.checkingDisabled
  responseCode := finalMsg.responseCode
  queries := [{ name := origName, queryType := origType }]
  answers := addMissing (fun _ => true) finalMsg.answers firstHopMsg.answers
  nameServers := addMissing (fun r => decide (r.recordType ∈ [.NSEC, .NSEC3, .RRSIG]))
    firstHopMsg.nameServers finalMsg.nameServers
  additionals := addMissing (fun r => decide (r.recordType ∈ [.RRSIG, .DNSKEY]))
    firstHopMsg.additionals (finalMsg.additionals.filter fun r => decide (r.recordType ≠ .OPT))
  edns := finalMsg.edns

end DnsResolver
