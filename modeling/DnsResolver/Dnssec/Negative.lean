import DnsResolver.Dnssec.State

/-!
# Denial of existence (`negative.rs`)

`validate_nsec` and `validate_nsec3` first check the signature of every denial record they use
(`verifyDenial`) and then read a verdict off the records.  That second part is pure and has its
own names here: `nsecDenial` and `nsec3Denial`.  The NSEC3 functions take `H`, which stands for
`nsec3_hash(·, salt, iterations)`.  The wildcard of a name is written and parsed as text, so that
it need not be `*.c`: `from_str` may refuse the labels of `c`, and then it is the root.

* `validateNsec_cases`, `validateNsec3_cases`   a verdict other than `Bogus` (and, for NSEC3,
                       other than the early `InsecureUnknown`) is the pure verdict, reached with
                       every record verified;
* `validateNsec_sigOnly`, `validateNsec3_sigOnly`   what the validators do to the state.
-/

namespace DnsResolver
open Trace

def maxNegativeRecords : Nat := 8
def maxNsec3Iterations : UInt16 := 150
def maxClosestEncloserSteps : Nat := 16

/-! ## signatures of denial records -/

/-- `verify_negative_rrset` -/
def verifyNegativeRrset (env : Env) (rec : Record) (authority : List Record)
    (keys : List Dnskey) (st : State) : Bool × State :=
  let rrsigRecords := authority.filter (Record.isRrsigOver rec.name rec.recordType)
  if rrsigRecords.isEmpty then (false, st)
  else
    let fullRrset := authority.filter (Record.isAt rec.name rec.recordType)
    if fullRrset.isEmpty then (false, st)
    else
      match rrsigLoop env rec.recordType rrsigRecords keys fullRrset st with
      | (.hit _, st) => (true, st)
      | (_, st) => (false, st)

/-- the loop of both validators over their records: true if every one verifies -/
def verifyDenial (env : Env) (authority : List Record) (keys : List Dnskey)
    (records : List Record) (st : State) : Bool × State :=
  let step (rec : Record) (st : State) : Result Unit × State :=
    match verifyNegativeRrset env rec authority keys st with
    | (true, st) => (.miss, st)
    | (false, st) => (.stop, st)
  match search step records st with
  | (.miss, st) => (true, st)
  | (_, st) => (false, st)

/-- the first records of type `t` that a validator looks at -/
def denialRecords (t : RecordType) (authority : List Record) : List Record :=
  (authority.filter fun r => decide (r.recordType = t)).take maxNegativeRecords

/-! ## NSEC -/

/-- the text of the wildcard below `closest` -/
def wildcardText (tx : Presentation) (closest : Name) : Bytes :=
  if closest.isRoot then ascii "*."
  else ascii "*." ++ trimDots (tx.toAscii closest) ++ ascii "."

/-- `wildcard_name` -/
def wildcardName (tx : Presentation) (closest : Name) : Name :=
  (tx.fromStr (wildcardText tx closest)).getD .root

/-- climb from `cur` towards the root until `p` holds, for at most `k` names -/
def climb (p : Name → Bool) : Nat → Name → Option Name
  | 0, _ => none
  | k + 1, cur => if p cur then some cur else if cur.isRoot then none else climb p k cur.baseName

/-- the verdict of a record that matches the name, from its type bitmap -/
def nodataVerdict (qtype : RecordType) (types : List RecordType) : Option DnssecStatus :=
  let hasType := decide (qtype ∈ types)
  let hasCname := decide (RecordType.CNAME ∈ types)
  let hasSoa := decide (RecordType.SOA ∈ types)
  let hasNs := decide (RecordType.NS ∈ types)
  if decide (qtype = .DS) && hasSoa then some .Bogus
  else if !hasType && !hasCname then
    if decide (qtype = .DS) && hasNs then some .InsecureUnsigned else some .Secure
  else none

/-- neither the queried type nor CNAME is in the bitmap -/
def lacks (qtype : RecordType) (types : List RecordType) : Bool :=
  !decide (qtype ∈ types) && !decide (RecordType.CNAME ∈ types)

/-- `nsec_covers` -/
def nsecCovers (owner next target : Name) : Bool :=
  decide (Ring.Inside owner.canon next.canon target.canon)

def nsecCovered (records : List Record) (target : Name) : Bool :=
  records.any fun rec =>
    match rec.data with
    | .nsec n => nsecCovers rec.name n.nextDomainName target
    | _ => false

/-- `find_nsec_closest_encloser` -/
def findNsecClosestEncloser (qname : Name) (records : List Record) : Option Name :=
  climb (fun cur => records.any fun r => r.name.nameEq cur) maxClosestEncloserSteps
    (if qname.isRoot then qname else qname.baseName)

/-- `check_nsec_nodata` -/
def checkNsecNodata (qname : Name) (qtype : RecordType) (records : List Record) :
    Option DnssecStatus :=
  records.findSome? fun rec =>
    if rec.name.nameEq qname then
      match rec.data with
      | .nsec n => nodataVerdict qtype n.typeBitMaps
      | _ => none
    else none

/-- `check_nsec_wildcard_nodata` -/
def checkNsecWildcardNodata (tx : Presentation) (qname : Name) (qtype : RecordType)
    (closest : Name) (records : List Record) : Option DnssecStatus :=
  match records.find? fun r => r.name.nameEq (wildcardName tx closest) with
  | none => none
  | some wildcardNsec =>
    match wildcardNsec.data with
    | .nsec n =>
      if !lacks qtype n.typeBitMaps then none
      else if nsecCovered records qname then some .Secure
      else none
    | _ => none

/-- `check_nsec_nxdomain` -/
def checkNsecNxdomain (tx : Presentation) (qname closest : Name) (records : List Record) :
    Option DnssecStatus :=
  if !nsecCovered records qname then none
  else if !nsecCovered records (wildcardName tx closest) then none
  else some .Secure

/-- `validate_nsec` after the signatures -/
def nsecDenial (tx : Presentation) (qname : Name) (qtype : RecordType) (records : List Record) :
    DnssecStatus :=
  match checkNsecNodata qname qtype records with
  | some status => status
  | none =>
    match findNsecClosestEncloser qname records with
    | none => .Bogus
    | some closest =>
      match checkNsecWildcardNodata tx qname qtype closest records with
      | some status => status
      | none =>
        match checkNsecNxdomain tx qname closest records with
        | some status => status
        | none => .Bogus

/-- the body of `validate_nsec` -/
def nsecBody (env : Env) (keys : List Dnskey) (qname : Name) (qtype : RecordType)
    (authority : List Record) (st : State) : DnssecStatus × State :=
  let records := denialRecords .NSEC authority
  if records.isEmpty then (.Bogus, st)
  else
    match verifyDenial env authority keys records st with
    | (false, st) => (.Bogus, st)
    | (true, st) => (nsecDenial env.text qname qtype records, st)

/-- `validate_nsec` -/
def validateNsec (env : Env) (keys : List Dnskey) (qname : Name) (qtype : RecordType)
    (authority : List Record) (st : State) : DnssecStatus × State :=
  let (status, st) := nsecBody env keys qname qtype authority
    (st.push (.denialCall .nsec keys qname qtype authority))
  (status, st.push (.denialVerdict .nsec keys qname qtype authority status))

/-! ## NSEC3 -/

/-- position in the base32hex alphabet, either case -/
def base32Val (c : UInt8) : Option UInt64 :=
  if 48 ≤ c ∧ c ≤ 57 then some (c - 48).toUInt64
  else if 65 ≤ c ∧ c ≤ 86 then some (c - 55).toUInt64
  else if 97 ≤ c ∧ c ≤ 118 then some (c - 87).toUInt64
  else none

theorem base32Val_lower (c : UInt8) : base32Val (lowerByte c) = base32Val c := by
  have h : ∀ n : Fin 256, base32Val (lowerByte (UInt8.ofFin n)) = base32Val (UInt8.ofFin n) := by
    decide +kernel
  exact h c.toFin

/-- the loop of `base32hex_decode`: accumulator, number of pending bits, output -/
def base32Loop : Bytes → UInt64 → Nat → Bytes → Option Bytes
  | [], _, _, out => some out
  | c :: cs, bits, bitCount, out =>
    match base32Val c with
    | none => none
    | some val =>
      let bits := (bits <<< 5) ||| val
      let bitCount := bitCount + 5
      if 8 ≤ bitCount then
        base32Loop cs bits (bitCount - 8) (out ++ [(bits >>> UInt64.ofNat (bitCount - 8)).toUInt8])
      else base32Loop cs bits bitCount out

/-- `base32hex_decode` -/
def base32hexDecode (s : Bytes) : Option Bytes := base32Loop s 0 0 []

/-- `nsec3_owner_hash`: the first label as a 20-octet hash -/
def nsec3OwnerHash (rec : Record) : Option Bytes :=
  match base32hexDecode (rec.name.labels.headD []) with
  | none => none
  | some hash => if hash.length = 20 then some hash else none

/-- `nsec3_hash` -/
def nsec3Hash (cr : Crypto) (salt : Bytes) (iterations : UInt16) (n : Name) : Bytes :=
  (fun h => cr.sha1 (h ++ salt))^[iterations.toNat] (cr.sha1 (n.wireLower ++ salt))

/-- `nsec3_covers` -/
def nsec3Covers (rec : Record) (targetHash : Bytes) : Bool :=
  match nsec3OwnerHash rec with
  | none => false
  | some ownerHash =>
    match rec.data with
    | .nsec3 n => decide (Ring.HalfOpen ownerHash n.nextHashedOwnerName targetHash)
    | _ => false

/-- the record's owner is the hash `h` -/
def nsec3Matches (h : Bytes) (rec : Record) : Bool := nsec3OwnerHash rec == some h

section
variable (H : Name → Bytes) (tx : Presentation)

/-- `find_nsec3_closest_provable_encloser` -/
def findNsec3ClosestProvableEncloser (qname : Name) (records : List Record) : Option Name :=
  climb (fun cur => records.any (nsec3Matches (H cur))) maxClosestEncloserSteps qname

/-- `check_nsec3_nodata` -/
def checkNsec3Nodata (qname : Name) (qtype : RecordType) (records : List Record) :
    Option DnssecStatus :=
  records.findSome? fun rec =>
    if nsec3Matches (H qname) rec then
      match rec.data with
      | .nsec3 n => nodataVerdict qtype n.typeBitMaps
      | _ => none
    else none

/-- `check_nsec3_wildcard_nodata` -/
def checkNsec3WildcardNodata (closest : Name) (qtype : RecordType) (records : List Record) :
    Option DnssecStatus :=
  match records.find? (nsec3Matches (H (wildcardName tx closest))) with
  | none => none
  | some wildcardRec =>
    match wildcardRec.data with
    | .nsec3 n => if !lacks qtype n.typeBitMaps then none else some .Secure
    | _ => none

/-- the loop of `check_nsec3_nxdomain`: climb to the child of `closest` -/
def nextCloser (closest : Name) : Nat → Name → Option Name
  | 0, _ => none
  | k + 1, cur =>
    if cur.baseName.nameEq closest then some cur
    else if cur.baseName.nameEq cur then none
    else nextCloser closest k cur.baseName

def nsec3OptOut (rec : Record) : Bool :=
  match rec.data with
  | .nsec3 n => decide (n.flags &&& 0x01 ≠ 0)
  | _ => false

/-- `check_nsec3_nxdomain` -/
def checkNsec3Nxdomain (qname closest : Name) (records : List Record) : Option DnssecStatus :=
  match nextCloser closest (qname.labels.length + 1) qname with
  | none => some .Bogus
  | some next =>
    match records.find? fun r => nsec3Covers r (H next) with
    | none => none
    | some coveringRec =>
      if nsec3OptOut coveringRec then some .InsecureUnsigned
      else if records.any fun r => nsec3Covers r (H (wildcardName tx closest)) then some .Secure
      else some .Bogus

/-- `validate_nsec3` after the signatures -/
def nsec3Denial (qname : Name) (qtype : RecordType) (records : List Record) : DnssecStatus :=
  match checkNsec3Nodata H qname qtype records with
  | some status => status
  | none =>
    let closest :=
      match findNsec3ClosestProvableEncloser H qname records with
      | some c => some c
      | none => if qtype = RecordType.DS then some qname.baseName else none
    match closest with
    | none => .Bogus
    | some closest =>
      if closest.nameEq qname then if qtype = RecordType.DS then .Secure else .Bogus
      else
        match checkNsec3WildcardNodata H tx closest qtype records with
        | some status => status
        | none =>
          match checkNsec3Nxdomain H tx qname closest records with
          | some status => status
          | none => .Bogus

end

/-- hash algorithm, iterations and salt agree with `first` -/
def sameNsec3Params (first : Nsec3) (rec : Record) : Bool :=
  match rec.data with
  | .nsec3 n => decide (n.hashAlgorithm = first.hashAlgorithm) &&
      decide (n.iterations = first.iterations) && decide (n.salt = first.salt)
  | _ => false

/-- the body of `validate_nsec3` -/
def nsec3Body (env : Env) (keys : List Dnskey) (qname : Name) (qtype : RecordType)
    (authority : List Record) (st : State) : DnssecStatus × State :=
  let records := denialRecords .NSEC3 authority
  match records with
  | [] => (.Bogus, st)
  | r :: _ =>
    match r.data with
    | .nsec3 first =>
      if first.hashAlgorithm ≠ .SHA1 then (.InsecureUnknown, st)
      else if maxNsec3Iterations < first.iterations then (.InsecureUnknown, st)
      else if !records.all (sameNsec3Params first) then (.Bogus, st)
      else
        match verifyDenial env authority keys records st with
        | (false, st) => (.Bogus, st)
        | (true, st) =>
          (nsec3Denial (nsec3Hash env.crypto first.salt first.iterations) env.text qname qtype records,
            st)
    | _ => (.Bogus, st)

/-- `validate_nsec3` -/
def validateNsec3 (env : Env) (keys : List Dnskey) (qname : Name) (qtype : RecordType)
    (authority : List Record) (st : State) : DnssecStatus × State :=
  let (status, st) := nsec3Body env keys qname qtype authority
    (st.push (.denialCall .nsec3 keys qname qtype authority))
  (status, st.push (.denialVerdict .nsec3 keys qname qtype authority status))

/-! ## what the validators do to the state -/

section
variable {env : Env} {authority : List Record} {keys : List Dnskey} {records : List Record}

/-- `f` verifies the RRset of a record and goes on if that succeeded -/
def IsVerifyStep (env : Env) (authority : List Record) (keys : List Dnskey)
    (f : Record → State → Result Unit × State) : Prop :=
  ∀ rec st b st', verifyNegativeRrset env rec authority keys st = (b, st') →
    f rec st = (if b then .miss else .stop, st')

/-- `verifyDenial` is a search with such a step -/
theorem verifyDenial_search (env : Env) (authority : List Record) (keys : List Dnskey)
    (records : List Record) : ∃ f, IsVerifyStep env authority keys f ∧
      ∀ st r st', search f records st = (r, st') →
        ∃ b, (b = true ↔ r = .miss) ∧ verifyDenial env authority keys records st = (b, st') := by
  refine ⟨fun rec st =>
    match verifyNegativeRrset env rec authority keys st with
    | (true, st) => (.miss, st)
    | (false, st) => (.stop, st), fun rec st b st' hv => ?_, fun st r st' hs => ?_⟩
  · cases b with
    | true => simp only [hv, if_true]
    | false => simp only [hv, Bool.false_eq_true, if_false]
  · cases r with
    | hit x => exact ⟨false, by simp, by simp only [verifyDenial, hs]⟩
    | stop => exact ⟨false, by simp, by simp only [verifyDenial, hs]⟩
    | miss => exact ⟨true, by simp, by simp only [verifyDenial, hs]⟩

theorem verifyDenial_all {st st' : State}
    (h : verifyDenial env authority keys records st = (true, st')) :
    ∃ f, IsVerifyStep env authority keys f ∧ search f records st = (.miss, st') := by
  obtain ⟨f, hf, hend⟩ := verifyDenial_search env authority keys records
  cases hs : search f records st with
  | mk r st₁ =>
    obtain ⟨b, hb, hd⟩ := hend st r st₁ hs
    obtain ⟨rfl, rfl⟩ := Prod.mk.inj (hd.symm.trans h)
    rw [hb.mp rfl] at hs
    exact ⟨f, hf, hs⟩

theorem IsVerifyStep.miss {f : Record → State → Result Unit × State}
    (hf : IsVerifyStep env authority keys f) {rec : Record} {s s' : State}
    (h : f rec s = (.miss, s')) : verifyNegativeRrset env rec authority keys s = (true, s') := by
  cases hv : verifyNegativeRrset env rec authority keys s with
  | mk b s₁ =>
    rw [hf rec s b s₁ hv] at h
    obtain ⟨hb, rfl⟩ := Prod.mk.inj h
    cases b with
    | true => rfl
    | false => exact absurd hb (by simp)

end

/-- the RRset of `authority` at the owner and of the type of `rec` -/
def rrsetOf (authority : List Record) (rec : Record) : List Record :=
  authority.filter (Record.isAt rec.name rec.recordType)

/-- checks of the RRsets of the records of type `t` that a validator looks at -/
def IsDenialCheck (authority : List Record) (t : RecordType) (e : Event) : Prop :=
  ∃ rec ∈ denialRecords t authority, IsCheckOf (rrsetOf authority rec) e

/-- an RRSIG over the RRset of `rec` verified, by one of `events` -/
def DenialVerified (authority : List Record) (keys : List Dnskey) (rec : Record)
    (events : List Event) : Prop :=
  ∃ sigRec sig key, sigRec ∈ authority ∧ sigRec.data = .rrsig sig ∧
    sigRec.name.nameEq rec.name = true ∧ sig.typeCovered = rec.recordType ∧ key ∈ keys ∧
    .sigCheck sig key sigRec (rrsetOf authority rec) true ∈ events

section
variable {env : Env} {keys : List Dnskey} {qname : Name} {qtype t : RecordType}
  {authority records : List Record} {st st' : State}

theorem mem_denialRecords {rec : Record} (h : rec ∈ denialRecords t authority) :
    rec ∈ authority ∧ rec.recordType = t := by
  have hm := List.mem_of_mem_take h
  obtain ⟨h1, h2⟩ := List.mem_filter.mp hm
  exact ⟨h1, by simpa using h2⟩

theorem verifyNegativeRrset_sigOnly (env : Env) (authority : List Record) (keys : List Dnskey)
    (rec : Record) (st : State) :
    SigOnly (IsCheckOf (rrsetOf authority rec)) st
      (verifyNegativeRrset env rec authority keys st).2 := by
  simp only [verifyNegativeRrset]
  split
  · exact SigOnly.refl _
  · split
    · exact SigOnly.refl _
    · have h := rrsigLoop_sigOnly env rec.recordType
        (authority.filter (Record.isRrsigOver rec.name rec.recordType)) keys
        (rrsetOf authority rec) st
      unfold rrsetOf at h ⊢
      split
      · rename_i hl
        rwa [hl] at h
      · rename_i hl
        rwa [hl] at h

theorem verifyNegativeRrset_true {rec : Record} {es : List Event}
    (h : verifyNegativeRrset env rec authority keys st = (true, st'))
    (hes : st'.log = st.log ++ es) : DenialVerified authority keys rec es := by
  simp only [verifyNegativeRrset] at h
  split at h
  · simp at h
  · split at h
    · simp at h
    · split at h
      · rename_i x st₁ hl
        obtain ⟨sigRec, sig, key⟩ := x
        simp only [Prod.mk.injEq, true_and] at h
        subst h
        obtain ⟨hmem, hd, ht, hkey, _, hlog, _⟩ := rrsigLoop_hit hl
        obtain ⟨hm, ho⟩ := List.mem_filter.mp hmem
        obtain ⟨_, _, hn, _⟩ := Record.isRrsigOver_iff.mp ho
        exact ⟨sigRec, sig, key, hm, hd, hn, ht, hkey, hlog.mem_of_eq hes⟩
      · simp at h

theorem verifyDenial_sigOnly (env : Env) (authority : List Record) (keys : List Dnskey)
    (hr : ∀ rec ∈ records, rec ∈ denialRecords t authority) (st : State) :
    SigOnly (IsDenialCheck authority t) st (verifyDenial env authority keys records st).2 := by
  obtain ⟨f, hf, hend⟩ := verifyDenial_search env authority keys records
  have h := search_keeps (R := SigOnly (IsDenialCheck authority t)) (f := f) SigOnly.refl
    (fun _ _ _ => SigOnly.trans) records (fun rec hrec st => by
      have hv := (verifyNegativeRrset_sigOnly env authority keys rec st).mono
        fun e he => (⟨rec, hr rec hrec, he⟩ : IsDenialCheck authority t e)
      rw [hf rec st _ _ rfl]
      exact hv) st
  obtain ⟨b, _, hd⟩ := hend st _ _ rfl
  rw [hd]
  exact h

theorem verifyDenial_true {es : List Event}
    (h : verifyDenial env authority keys records st = (true, st'))
    (hes : st'.log = st.log ++ es) :
    ∀ rec ∈ records, DenialVerified authority keys rec es := by
  obtain ⟨f, hf, hs⟩ := verifyDenial_all h
  intro rec hrec
  -- every try extends the trace, and a miss is a verified RRset
  obtain ⟨s₁, s₂, hg₁, hg₂, h3⟩ := search_miss (R := SigOnly (fun _ => True))
    SigOnly.refl (fun _ _ _ => SigOnly.trans) records (fun rec _ st => by
      rw [hf rec st _ _ rfl]
      exact (verifyNegativeRrset_sigOnly env authority keys rec st).mono fun _ _ => trivial)
    hs rec hrec
  have hv := hf.miss h3
  obtain ⟨es₁, he₁, _⟩ := hg₁.log
  obtain ⟨es₃, he₃, _⟩ := hg₂.log
  obtain ⟨es₂, he₂, _⟩ := (verifyNegativeRrset_sigOnly env authority keys rec s₁).log
  rw [hv] at he₂
  obtain ⟨sigRec, sig, key, h4, h5, h6, h7, h8, h9⟩ := verifyNegativeRrset_true hv he₂
  have hall : es = es₁ ++ es₂ ++ es₃ := by
    have hlog : st.log ++ es = st.log ++ (es₁ ++ es₂ ++ es₃) := by
      rw [← hes, he₃, he₂, he₁]
      simp only [List.append_assoc]
    exact List.append_cancel_left hlog
  refine ⟨sigRec, sig, key, h4, h5, h6, h7, h8, ?_⟩
  rw [hall]
  exact List.mem_append_left _ (List.mem_append_right _ h9)

def IsDenialEvent (kind : DenialKind) (t : RecordType) (keys : List Dnskey) (qname : Name)
    (qtype : RecordType) (authority : List Record) (e : Event) : Prop :=
  IsDenialCheck authority t e ∨ e = .denialCall kind keys qname qtype authority ∨
    ∃ status, e = .denialVerdict kind keys qname qtype authority status

theorem nsecBody_sigOnly (st : State) :
    SigOnly (IsDenialCheck authority .NSEC) st (nsecBody env keys qname qtype authority st).2 := by
  simp only [nsecBody]
  split
  · exact SigOnly.refl _
  · have h := verifyDenial_sigOnly env authority keys
      (fun rec (hr : rec ∈ denialRecords .NSEC authority) => hr) st
    split <;> rename_i hl <;> rwa [hl] at h

theorem nsec3Body_sigOnly (st : State) :
    SigOnly (IsDenialCheck authority .NSEC3) st
      (nsec3Body env keys qname qtype authority st).2 := by
  have h := verifyDenial_sigOnly env authority keys
    (fun rec (hr : rec ∈ denialRecords .NSEC3 authority) => hr) st
  simp only [nsec3Body]
  split
  · exact SigOnly.refl _
  · split
    · split
      · exact SigOnly.refl _
      · split
        · exact SigOnly.refl _
        · split
          · exact SigOnly.refl _
          · split <;> rename_i hl <;> rwa [hl] at h
    · exact SigOnly.refl _

theorem validateNsec_sigOnly (st : State) :
    SigOnly (IsDenialEvent .nsec .NSEC keys qname qtype authority) st
      (validateNsec env keys qname qtype authority st).2 := by
  simp only [validateNsec]
  exact (SigOnly.push (Or.inr (Or.inl rfl))).trans
    (((nsecBody_sigOnly _).mono fun _ he => Or.inl he).trans
      (SigOnly.push (Or.inr (Or.inr ⟨_, rfl⟩))))

theorem validateNsec3_sigOnly (st : State) :
    SigOnly (IsDenialEvent .nsec3 .NSEC3 keys qname qtype authority) st
      (validateNsec3 env keys qname qtype authority st).2 := by
  simp only [validateNsec3]
  exact (SigOnly.push (Or.inr (Or.inl rfl))).trans
    (((nsec3Body_sigOnly _).mono fun _ he => Or.inl he).trans
      (SigOnly.push (Or.inr (Or.inr ⟨_, rfl⟩))))

/-! ## what a verdict rests on -/

/-- the trace of a validator that checked every record it uses: its call, its checks, its
verdict -/
def ProofTrace (kind : DenialKind) (t : RecordType) (keys : List Dnskey) (qname : Name)
    (qtype : RecordType) (authority : List Record) (status : DnssecStatus)
    (log log' : List Event) : Prop :=
  ∃ checks, log' = log ++ .denialCall kind keys qname qtype authority ::
      (checks ++ [.denialVerdict kind keys qname qtype authority status]) ∧
    (∀ e ∈ checks, IsDenialCheck authority t e) ∧
    ∀ rec ∈ denialRecords t authority, DenialVerified authority keys rec checks

theorem proofTrace_of_verified {kind : DenialKind} {t : RecordType} {status : DnssecStatus}
    {s : State} (hv : verifyDenial env authority keys (denialRecords t authority)
      (st.push (.denialCall kind keys qname qtype authority)) = (true, s)) :
    ProofTrace kind t keys qname qtype authority status st.log
      (s.push (.denialVerdict kind keys qname qtype authority status)).log := by
  obtain ⟨checks, hlog, hcheck⟩ := (verifyDenial_sigOnly env authority keys
    (fun rec (hr : rec ∈ denialRecords t authority) => hr)
    (st.push (.denialCall kind keys qname qtype authority))).log
  rw [hv] at hlog
  refine ⟨checks, ?_, hcheck, verifyDenial_true hv hlog⟩
  show s.log ++ [_] = _
  rw [hlog]
  simp only [State.push_log, List.append_assoc, List.cons_append, List.nil_append]

/-- `validate_nsec` ends as `Bogus` or reads its verdict off records that all verified -/
theorem validateNsec_verified {status : DnssecStatus}
    (h : validateNsec env keys qname qtype authority st = (status, st')) (hne : status ≠ .Bogus) :
    nsecDenial env.text qname qtype (denialRecords .NSEC authority) = status ∧
      ∃ s, verifyDenial env authority keys (denialRecords .NSEC authority)
          (st.push (.denialCall .nsec keys qname qtype authority)) = (true, s) ∧
        st' = s.push (.denialVerdict .nsec keys qname qtype authority status) := by
  simp only [validateNsec, nsecBody, Prod.mk.injEq] at h
  obtain ⟨hs, rfl⟩ := h
  split at hs
  · exact absurd hs.symm hne
  · rename_i hemp
    split at hs
    · exact absurd hs.symm hne
    · rename_i s hv
      have hs' : nsecDenial env.text qname qtype (denialRecords .NSEC authority) = status := hs
      rw [if_neg hemp]
      exact ⟨hs', s, hv, by simp only [hs']⟩

/-- **A verdict of `validate_nsec` other than `Bogus`** is the pure verdict on the first NSEC
records of the section, and every one of them is in an RRset that verified. -/
theorem validateNsec_cases {status : DnssecStatus}
    (h : validateNsec env keys qname qtype authority st = (status, st')) (hne : status ≠ .Bogus) :
    nsecDenial env.text qname qtype (denialRecords .NSEC authority) = status ∧
      ProofTrace .nsec .NSEC keys qname qtype authority status st.log st'.log := by
  obtain ⟨hden, s, hv, rfl⟩ := validateNsec_verified h hne
  exact ⟨hden, proofTrace_of_verified hv⟩

/-- the parameters a set of NSEC3 records agrees on -/
def Nsec3Params (records : List Record) (first : Nsec3) : Prop :=
  first.hashAlgorithm = .SHA1 ∧ first.iterations ≤ maxNsec3Iterations ∧
    ∀ rec ∈ records, sameNsec3Params first rec = true

/-- past its parameter checks, `validate_nsec3` ends as `Bogus` or reads its verdict off records
that all verified -/
theorem validateNsec3_verified {status : DnssecStatus}
    (h : validateNsec3 env keys qname qtype authority st = (status, st'))
    (hne : status ≠ .Bogus) (hne' : status ≠ .InsecureUnknown) :
    (∃ first, (denialRecords .NSEC3 authority).head?.bind Record.nsec3? = some first ∧
      Nsec3Params (denialRecords .NSEC3 authority) first ∧
      nsec3Denial (nsec3Hash env.crypto first.salt first.iterations) env.text qname qtype
        (denialRecords .NSEC3 authority) = status) ∧
      ∃ s, verifyDenial env authority keys (denialRecords .NSEC3 authority)
          (st.push (.denialCall .nsec3 keys qname qtype authority)) = (true, s) ∧
        st' = s.push (.denialVerdict .nsec3 keys qname qtype authority status) := by
  simp only [validateNsec3, nsec3Body, Prod.mk.injEq] at h
  obtain ⟨hs, rfl⟩ := h
  cases hrec : denialRecords .NSEC3 authority with
  | nil =>
    simp only [hrec] at hs
    exact absurd hs.symm hne
  | cons r rest =>
    simp only [hrec] at hs ⊢
    cases hd : r.data with
    | nsec3 first =>
      simp only [hd] at hs ⊢
      split at hs
      · exact absurd hs.symm hne'
      · rename_i halg
        split at hs
        · exact absurd hs.symm hne'
        · rename_i hit
          split at hs
          · exact absurd hs.symm hne
          · rename_i hall
            split at hs
            · exact absurd hs.symm hne
            · rename_i s hv
              have hs' : nsec3Denial (nsec3Hash env.crypto first.salt first.iterations)
                  env.text qname qtype (r :: rest) = status := hs
              rw [if_neg halg, if_neg hit, if_neg hall]
              refine ⟨⟨first, by simp [Record.nsec3?, hd], ⟨by simpa using halg, ?_, ?_⟩, hs'⟩,
                s, hv, by simp only [hs']⟩
              · exact UInt16.not_lt.mp hit
              · simpa using hall
    | _ =>
      simp only [hd] at hs
      exact absurd hs.symm hne

/-- **A verdict of `validate_nsec3` other than `Bogus` and `InsecureUnknown`** is the pure
verdict on the first NSEC3 records of the section; they agree on their parameters and every one
of them is in an RRset that verified. -/
theorem validateNsec3_cases {status : DnssecStatus}
    (h : validateNsec3 env keys qname qtype authority st = (status, st'))
    (hne : status ≠ .Bogus) (hne' : status ≠ .InsecureUnknown) :
    (∃ first, (denialRecords .NSEC3 authority).head?.bind Record.nsec3? = some first ∧
      Nsec3Params (denialRecords .NSEC3 authority) first ∧
      nsec3Denial (nsec3Hash env.crypto first.salt first.iterations) env.text qname qtype
        (denialRecords .NSEC3 authority) = status) ∧
      ProofTrace .nsec3 .NSEC3 keys qname qtype authority status st.log st'.log := by
  obtain ⟨hden, s, hv, rfl⟩ := validateNsec3_verified h hne hne'
  exact ⟨hden, proofTrace_of_verified hv⟩

end
end DnsResolver
