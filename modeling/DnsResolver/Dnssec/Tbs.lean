import DnsResolver.Data.Record
import Mathlib.Data.List.Sort

/-!
# The octets an RRSIG signs (`manual_tbs.rs`)

`buildTbsManual rrsigRecord records` keeps those of `records` that have the owner, the covered
type and the class of the RRSIG record (`tbsRrset`), sorts them by canonical RDATA and writes the
RRSIG prefix followed by one canonical record each.  Names are written in lower case; an owner
with more labels than the RRSIG says is replaced by its wildcard.

An encoder buffer holds at most 65535 octets; whatever does not fit makes the result `none`.
-/

namespace DnsResolver

/-- largest buffer of a `BinEncoder` -/
def maxEncoded : Nat := 65535

/-- an encoder result, if it fits the buffer -/
def fits (b : Bytes) : Option Bytes := if b.length ≤ maxEncoded then some b else none

/-- `canonical_rdata`: RDATA with the embedded names the source knows about in lower case -/
def canonicalRdata (r : Record) : Option Bytes :=
  fits <| match r.data with
    | .soa s => s.mname.wireLower ++ s.rname.wireLower ++ be32 s.serial ++ be32 s.refresh ++
        be32 s.retry ++ be32 s.expire ++ be32 s.minimum
    | .cname n => n.wireLower
    | .ns n => n.wireLower
    | .ptr n => n.wireLower
    | .mx p n => be16 p ++ n.wireLower
    | .srv p w port n => be16 p ++ be16 w ++ be16 port ++ n.wireLower
    | d => d.emit

/-- `reconstruct_wildcard_name`: the owner the signer saw -/
def reconstructWildcardName (owner : Name) (numLabels : UInt8) : Option Name :=
  if owner.labels.length ≤ numLabels.toNat then some owner
  else Name.fromLabels (Name.star :: owner.labels.drop (owner.labels.length - numLabels.toNat))

/-- the records of `records` that `sig`, carried by `rrsigRecord`, covers -/
def tbsRrset (rrsigRecord : Record) (sig : Rrsig) (records : List Record) : List Record :=
  records.filter fun r =>
    r.name.nameEq rrsigRecord.name && decide (r.recordType = sig.typeCovered) &&
      decide (r.dnsClass = rrsigRecord.dnsClass)

def tbsHeader (sig : Rrsig) : Bytes :=
  be16 sig.typeCovered.code ++ [sig.algorithm, sig.numLabels] ++ be32 sig.originalTtl ++
    be32 sig.sigExpiration ++ be32 sig.sigInception ++ be16 sig.keyTag ++ sig.signerName.wireLower

def tbsRecord (owner : Name) (cls : DnsClass) (sig : Rrsig) (rdata : Bytes) : Bytes :=
  owner.wireLower ++ be16 sig.typeCovered.code ++ be16 cls.code ++ be32 sig.originalTtl ++
    be16 rdata.length.toUInt16 ++ rdata

/-- `build_tbs_manual` -/
def buildTbsManual (rrsigRecord : Record) (records : List Record) : Option Bytes :=
  match rrsigRecord.data with
  | .rrsig sig =>
    if records.isEmpty then none
    else if rrsigRecord.name.labels.length < sig.numLabels.toNat then none
    else
      match reconstructWildcardName rrsigRecord.name sig.numLabels with
      | none => none
      | some canonicalOwner =>
        let rrset := tbsRrset rrsigRecord sig records
        if rrset.isEmpty then none
        else
          match rrset.mapM canonicalRdata with
          | none => none
          | some rdatas =>
            fits (tbsHeader sig ++ (rdatas.insertionSort (· ≤ ·)).flatMap
              (tbsRecord canonicalOwner rrsigRecord.dnsClass sig))
  | _ => none

theorem buildTbsManual_nonempty {rrsigRecord : Record} {sig : Rrsig} {records : List Record}
    {tbs : Bytes} (hd : rrsigRecord.data = .rrsig sig)
    (h : buildTbsManual rrsigRecord records = some tbs) :
    ∃ r, r ∈ tbsRrset rrsigRecord sig records := by
  refine List.exists_mem_of_ne_nil _ fun hnil => ?_
  simp only [buildTbsManual, hd, hnil, List.isEmpty_nil, if_true] at h
  split at h
  · exact absurd h (by simp)
  · split at h
    · exact absurd h (by simp)
    · split at h <;> exact absurd h (by simp)

theorem mem_tbsRrset {rrsigRecord r : Record} {sig : Rrsig} {records : List Record} :
    r ∈ tbsRrset rrsigRecord sig records ↔ r ∈ records ∧ r.name.nameEq rrsigRecord.name = true ∧
      r.recordType = sig.typeCovered ∧ r.dnsClass = rrsigRecord.dnsClass := by
  simp only [tbsRrset, List.mem_filter, Bool.and_eq_true, decide_eq_true_eq, and_assoc]

end DnsResolver
