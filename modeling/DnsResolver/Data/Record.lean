import DnsResolver.Data.Name

/-!
# Records and messages

The part of hickory's data model the resolver works on.  A record type, a class and an algorithm
number are their wire codes.  `RData` has one constructor per type whose fields the resolver
reads; every other type keeps its RDATA octets (`other`), as does type 39, which hickory does not
know as DNAME.  A record with RDLENGTH 0 is `update0`: it has a type but no data.

`RData.emit` is the uncompressed wire form with names in their stored case.
-/

namespace DnsResolver

abbrev Bytes := List UInt8

/-! ## codes -/

/-- a record type by its wire code -/
structure RecordType where
  code : UInt16
  deriving DecidableEq, Repr

namespace RecordType
def A : RecordType := ⟨1⟩
def NS : RecordType := ⟨2⟩
def CNAME : RecordType := ⟨5⟩
def SOA : RecordType := ⟨6⟩
def PTR : RecordType := ⟨12⟩
def MX : RecordType := ⟨15⟩
def TXT : RecordType := ⟨16⟩
def AAAA : RecordType := ⟨28⟩
def SRV : RecordType := ⟨33⟩
/-- `DNAME_RECORD_TYPE`, `RecordType::Unknown(39)` -/
def DNAME : RecordType := ⟨39⟩
def OPT : RecordType := ⟨41⟩
def DS : RecordType := ⟨43⟩
def RRSIG : RecordType := ⟨46⟩
def NSEC : RecordType := ⟨47⟩
def DNSKEY : RecordType := ⟨48⟩
def NSEC3 : RecordType := ⟨50⟩
def ANY : RecordType := ⟨255⟩
end RecordType

structure DnsClass where
  code : UInt16
  deriving DecidableEq, Repr

namespace DnsClass
def IN : DnsClass := ⟨1⟩
def CH : DnsClass := ⟨3⟩
end DnsClass

inductive ResponseCode where
  | NoError
  | FormErr
  | ServFail
  | NXDomain
  | YXDomain
  | other (code : UInt16)
  deriving DecidableEq, Repr

inductive Nsec3HashAlgorithm where
  | SHA1
  | other (code : UInt8)
  deriving DecidableEq, Repr

structure Ipv4Addr where
  octets : Vector UInt8 4
  deriving DecidableEq

structure Ipv6Addr where
  segments : Vector UInt16 8
  deriving DecidableEq

inductive IpAddr where
  | V4 (addr : Ipv4Addr)
  | V6 (addr : Ipv6Addr)
  deriving DecidableEq

/-! ## RDATA -/

structure Soa where
  mname : Name
  rname : Name
  serial : UInt32
  refresh : UInt32
  retry : UInt32
  expire : UInt32
  minimum : UInt32
  deriving DecidableEq

structure Ds where
  keyTag : UInt16
  algorithm : UInt8
  digestType : UInt8
  digest : Bytes
  deriving DecidableEq

structure Dnskey where
  flags : UInt16
  algorithm : UInt8
  publicKey : Bytes
  deriving DecidableEq

structure Rrsig where
  typeCovered : RecordType
  algorithm : UInt8
  numLabels : UInt8
  originalTtl : UInt32
  sigExpiration : UInt32
  sigInception : UInt32
  keyTag : UInt16
  signerName : Name
  sig : Bytes
  deriving DecidableEq

/-- `bitMap` is the type bitmap as it came off the wire, `typeBitMaps` the types it lists -/
structure Nsec where
  nextDomainName : Name
  typeBitMaps : List RecordType
  bitMap : Bytes := []
  deriving DecidableEq

structure Nsec3 where
  hashAlgorithm : Nsec3HashAlgorithm := .SHA1
  flags : UInt8 := 0
  iterations : UInt16 := 0
  salt : Bytes := []
  nextHashedOwnerName : Bytes
  typeBitMaps : List RecordType
  bitMap : Bytes := []
  deriving DecidableEq

inductive RData where
  | a (addr : Ipv4Addr)
  | aaaa (addr : Ipv6Addr)
  | ns (n : Name)
  | cname (n : Name)
  | ptr (n : Name)
  | mx (preference : UInt16) (exchange : Name)
  | srv (priority weight port : UInt16) (target : Name)
  | soa (s : Soa)
  | ds (d : Ds)
  | dnskey (k : Dnskey)
  | rrsig (s : Rrsig)
  | nsec (n : Nsec)
  | nsec3 (n : Nsec3)
  | other (rtype : RecordType) (rdata : Bytes)
  | update0 (rtype : RecordType)
  deriving DecidableEq

def RData.recordType : RData → RecordType
  | .a _ => .A
  | .aaaa _ => .AAAA
  | .ns _ => .NS
  | .cname _ => .CNAME
  | .ptr _ => .PTR
  | .mx _ _ => .MX
  | .srv _ _ _ _ => .SRV
  | .soa _ => .SOA
  | .ds _ => .DS
  | .dnskey _ => .DNSKEY
  | .rrsig _ => .RRSIG
  | .nsec _ => .NSEC
  | .nsec3 _ => .NSEC3
  | .other t _ => t
  | .update0 t => t

structure Record where
  name : Name
  dnsClass : DnsClass := .IN
  ttl : UInt32
  data : RData
  deriving DecidableEq

def Record.recordType (r : Record) : RecordType := r.data.recordType

/-- the DS data of a record, if it is one -/
def Record.ds? (r : Record) : Option Ds :=
  match r.data with
  | .ds d => some d
  | _ => none

def Record.dnskey? (r : Record) : Option Dnskey :=
  match r.data with
  | .dnskey k => some k
  | _ => none

def Record.cname? (r : Record) : Option Name :=
  match r.data with
  | .cname n => some n
  | _ => none

def Record.ns? (r : Record) : Option Name :=
  match r.data with
  | .ns n => some n
  | _ => none

def Record.nsec3? (r : Record) : Option Nsec3 :=
  match r.data with
  | .nsec3 n => some n
  | _ => none

def Record.isSoa (r : Record) : Bool :=
  match r.data with
  | .soa _ => true
  | _ => false

/-- an RRSIG over the type `t` at the owner `n` -/
def Record.isRrsigOver (n : Name) (t : RecordType) (r : Record) : Bool :=
  match r.data with
  | .rrsig s => r.name.nameEq n && decide (s.typeCovered = t)
  | _ => false

/-- a record of type `t` at the owner `n`, of any class -/
def Record.isAt (n : Name) (t : RecordType) (r : Record) : Bool :=
  r.name.nameEq n && decide (r.recordType = t)

section
variable {r : Record} {n : Name} {t : RecordType}

theorem Record.dnskey?_eq_some {k : Dnskey} : r.dnskey? = some k ↔ r.data = .dnskey k := by
  unfold Record.dnskey?
  cases hd : r.data <;> simp

theorem Record.ds?_eq_some {d : Ds} : r.ds? = some d ↔ r.data = .ds d := by
  unfold Record.ds?
  cases hd : r.data <;> simp

theorem Record.cname?_eq_some {c : Name} : r.cname? = some c ↔ r.data = .cname c := by
  unfold Record.cname?
  cases hd : r.data <;> simp

theorem Record.nsec3?_eq_some {d : Nsec3} : r.nsec3? = some d ↔ r.data = .nsec3 d := by
  unfold Record.nsec3?
  cases hd : r.data <;> simp

theorem Record.isAt_iff : r.isAt n t = true ↔ r.name.nameEq n = true ∧ r.recordType = t := by
  simp only [Record.isAt, Bool.and_eq_true, decide_eq_true_eq]

theorem Record.isRrsigOver_iff : r.isRrsigOver n t = true ↔
    ∃ s, r.data = .rrsig s ∧ r.name.nameEq n = true ∧ s.typeCovered = t := by
  unfold Record.isRrsigOver
  cases hd : r.data <;> simp

end

/-! ## messages -/

inductive MessageType where
  | Query
  | Response
  deriving DecidableEq, Repr

structure Query where
  name : Name
  queryType : RecordType
  queryClass : DnsClass := .IN
  deriving DecidableEq

structure Edns where
  maxPayload : UInt16 := 0
  dnssecOk : Bool := false
  version : UInt8 := 0
  /-- client subnet option: address and source prefix -/
  subnet : Option (IpAddr × UInt8) := none
  deriving DecidableEq

/-- the defaults are those of `Message::new` -/
structure Message where
  id : UInt16 := 0
  messageType : MessageType := .Query
  opCode : UInt8 := 0
  authoritative : Bool := false
  truncated : Bool := false
  recursionDesired : Bool := false
  recursionAvailable : Bool := false
  authenticData : Bool := false
  checkingDisabled : Bool := false
  responseCode : ResponseCode := .NoError
  queries : List Query := []
  answers : List Record := []
  nameServers : List Record := []
  additionals : List Record := []
  edns : Option Edns := none
  deriving DecidableEq

/-- TTL used when a message has no record -/
def defaultTtl : UInt32 := 300

/-- `calculate_min_ttl`: the smallest TTL of the message, at most a day -/
def calculateMinTtl (msg : Message) : UInt32 :=
  let all := msg.answers ++ msg.nameServers ++ msg.additionals
  let minTtl := all.foldl (fun m r => if r.ttl < m then r.ttl else m) 0xFFFFFFFF
  if minTtl = 0xFFFFFFFF then defaultTtl else if 86400 < minTtl then 86400 else minTtl

/-- how a resolution fails -/
inductive RecursorError where
  | DepthExceeded
  | StepLimitExceeded
  | AllNameserversFailed
  | GlueResolutionFailed
  | NoProgress
  | Io
  | Proto
  | Decode
  deriving DecidableEq, Repr

/-! ## wire form -/

def be16 (n : UInt16) : Bytes := [(n >>> 8).toUInt8, n.toUInt8]

def be32 (n : UInt32) : Bytes :=
  [(n >>> 24).toUInt8, (n >>> 16).toUInt8, (n >>> 8).toUInt8, n.toUInt8]

/-- uncompressed wire form of a label list -/
def wireLabels (ls : List Label) : Bytes := (ls.flatMap fun l => l.length.toUInt8 :: l) ++ [0]

def Name.wire (n : Name) : Bytes := wireLabels n.labels

def Name.wireLower (n : Name) : Bytes := wireLabels n.fold

def Nsec3HashAlgorithm.code : Nsec3HashAlgorithm → UInt8
  | .SHA1 => 1
  | .other c => c

def Dnskey.emit (k : Dnskey) : Bytes := be16 k.flags ++ [3, k.algorithm] ++ k.publicKey

/-- `RData::emit` -/
def RData.emit : RData → Bytes
  | .a addr => addr.octets.toList
  | .aaaa addr => addr.segments.toList.flatMap be16
  | .ns n => n.wire
  | .cname n => n.wire
  | .ptr n => n.wire
  | .mx p n => be16 p ++ n.wire
  | .srv p w port n => be16 p ++ be16 w ++ be16 port ++ n.wire
  | .soa s => s.mname.wire ++ s.rname.wire ++ be32 s.serial ++ be32 s.refresh ++ be32 s.retry ++
      be32 s.expire ++ be32 s.minimum
  | .ds d => be16 d.keyTag ++ [d.algorithm, d.digestType] ++ d.digest
  | .dnskey k => k.emit
  | .rrsig s => be16 s.typeCovered.code ++ [s.algorithm, s.numLabels] ++ be32 s.originalTtl ++
      be32 s.sigExpiration ++ be32 s.sigInception ++ be16 s.keyTag ++ s.signerName.wire ++ s.sig
  | .nsec n => n.nextDomainName.wire ++ n.bitMap
  | .nsec3 n => [n.hashAlgorithm.code, n.flags] ++ be16 n.iterations ++
      n.salt.length.toUInt8 :: n.salt ++
      n.nextHashedOwnerName.length.toUInt8 :: n.nextHashedOwnerName ++ n.bitMap
  | .other _ bytes => bytes
  | .update0 _ => []

end DnsResolver
