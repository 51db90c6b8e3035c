import DnsResolver.Dnssec.TbsCanonical

/-!
# The signed octets read back

The octets `build_tbs_manual` writes are an RRSIG prefix of fixed-width fields and a name, then one
record after the other: a name, fixed-width fields, the length of the RDATA and the RDATA.  Every
part delimits itself, so what was written can be read off them.

* `framed_tbsHeader`, `framed_tbsRecord`   the parts;
* `SameSigned`                             what two RRSIG records with their RRsets have in common;
* `buildTbsManual_unambiguous`             the same octets are of the same RRset, so a signature
                                           that is good for one message is good for one RRset.
-/

namespace DnsResolver
open Framing

/-! ## the parts -/

theorem framed_tbsHeader : Framed (fun _ : Rrsig => True) tbsHeader fun sig =>
    ((((((sig.typeCovered.code, sig.algorithm, sig.numLabels), sig.originalTtl),
      sig.sigExpiration), sig.sigInception), sig.keyTag), sig.signerName.fold) :=
  ((((((framed_be16 fun sig : Rrsig => sig.typeCovered.code).append
    (framed_octets Rrsig.algorithm Rrsig.numLabels)).append
    (framed_be32 Rrsig.originalTtl)).append
    (framed_be32 Rrsig.sigExpiration)).append
    (framed_be32 Rrsig.sigInception)).append
    (framed_be16 Rrsig.keyTag)).append
    (Name.framed_wireLower Rrsig.signerName)

theorem toUInt16_inj {m n : Nat} (hm : m ≤ maxEncoded) (hn : n ≤ maxEncoded)
    (h : m.toUInt16 = n.toUInt16) : m = n := by
  have := congrArg UInt16.toNat h
  rw [Nat.toUInt16_eq, Nat.toUInt16_eq, UInt16.toNat_ofNat', UInt16.toNat_ofNat'] at this
  unfold maxEncoded at hm hn
  omega

/-- all that a record is written from -/
structure TbsInput where
  owner : Name
  cls : DnsClass
  sig : Rrsig
  rdata : Bytes

def TbsInput.octets (x : TbsInput) : Bytes := tbsRecord x.owner x.cls x.sig x.rdata

def TbsInput.shown (x : TbsInput) :
    ((((List Label × UInt16) × UInt16) × UInt32) × UInt16) × Bytes :=
  (((((x.owner.fold, x.sig.typeCovered.code), x.cls.code), x.sig.originalTtl),
    x.rdata.length.toUInt16), x.rdata)

theorem framed_tbsFields {ok : TbsInput → Prop} : Framed ok
    (fun x => x.owner.wireLower ++ be16 x.sig.typeCovered.code ++ be16 x.cls.code ++
      be32 x.sig.originalTtl ++ be16 x.rdata.length.toUInt16)
    fun x => ((((x.owner.fold, x.sig.typeCovered.code), x.cls.code), x.sig.originalTtl),
      x.rdata.length.toUInt16) :=
  ((((Name.framed_wireLower TbsInput.owner).append
    (framed_be16 fun x : TbsInput => x.sig.typeCovered.code)).append
    (framed_be16 fun x : TbsInput => x.cls.code)).append
    (framed_be32 fun x : TbsInput => x.sig.originalTtl)).append
    (framed_be16 fun x : TbsInput => x.rdata.length.toUInt16)

theorem framed_tbsRecord :
    Framed (fun x : TbsInput => x.rdata.length ≤ maxEncoded) TbsInput.octets TbsInput.shown :=
  framed_tbsFields.body TbsInput.rdata fun _ _ hx hy hv =>
    toUInt16_inj hx hy (congrArg Prod.snd hv)

theorem wireLower_ne_nil (n : Name) : n.wireLower ≠ [] := by
  unfold Name.wireLower wireLabels
  exact List.append_ne_nil_of_right_ne_nil _ (List.cons_ne_nil _ _)

theorem TbsInput.octets_ne_nil (x : TbsInput) : x.octets ≠ [] := by
  unfold TbsInput.octets tbsRecord
  simp only [List.append_assoc]
  exact List.append_ne_nil_of_left_ne_nil (wireLower_ne_nil _) _

/-! ## the whole -/

/-- RRSIGs that agree but for the signature and the case of names, over RRsets of one class, one
owner as the signer saw it and one multiset of canonical RDATA -/
structure SameSigned (rr : Record) (sig : Rrsig) (records : List Record) (rr' : Record)
    (sig' : Rrsig) (records' : List Record) : Prop where
  typeCovered : sig.typeCovered = sig'.typeCovered
  algorithm : sig.algorithm = sig'.algorithm
  numLabels : sig.numLabels = sig'.numLabels
  originalTtl : sig.originalTtl = sig'.originalTtl
  sigExpiration : sig.sigExpiration = sig'.sigExpiration
  sigInception : sig.sigInception = sig'.sigInception
  keyTag : sig.keyTag = sig'.keyTag
  signerName : sig.signerName.fold = sig'.signerName.fold
  dnsClass : rr.dnsClass = rr'.dnsClass
  owner : ∃ owner owner', reconstructWildcardName rr.name sig.numLabels = some owner ∧
    reconstructWildcardName rr'.name sig'.numLabels = some owner' ∧ owner.fold = owner'.fold
  rdata : ((tbsRrset rr sig records).map canonicalRdata).Perm
    ((tbsRrset rr' sig' records').map canonicalRdata)

theorem flatMap_tbsRecord (owner : Name) (cls : DnsClass) (sig : Rrsig) (rdatas : List Bytes) :
    rdatas.flatMap (tbsRecord owner cls sig) =
      (rdatas.map fun rdata => ⟨owner, cls, sig, rdata⟩).flatMap TbsInput.octets := by
  rw [List.flatMap_map]
  rfl

theorem length_canonicalRdata {records : List Record} {rdatas : List Bytes}
    (h : records.map canonicalRdata = rdatas.map some) {rdata : Bytes} (hr : rdata ∈ rdatas) :
    rdata.length ≤ maxEncoded := by
  have hmem : some rdata ∈ records.map canonicalRdata := by
    rw [h]
    exact List.mem_map_of_mem hr
  obtain ⟨r, _, hrd⟩ := List.mem_map.mp hmem
  obtain ⟨hlen, rfl⟩ := fits_eq_some.mp hrd
  exact hlen

theorem tbsBody_inj {owner owner' : Name} {cls cls' : DnsClass} {sig sig' : Rrsig}
    {rdatas rdatas' : List Bytes} (hne : rdatas ≠ [])
    (hl : ∀ rdata ∈ rdatas, rdata.length ≤ maxEncoded)
    (hl' : ∀ rdata ∈ rdatas', rdata.length ≤ maxEncoded)
    (h : rdatas.flatMap (tbsRecord owner cls sig) = rdatas'.flatMap (tbsRecord owner' cls' sig')) :
    owner.fold = owner'.fold ∧ cls = cls' ∧ rdatas = rdatas' := by
  rw [flatMap_tbsRecord, flatMap_tbsRecord] at h
  have hviews := framed_tbsRecord.flatMap TbsInput.octets_ne_nil
    (by
      intro x hx
      obtain ⟨rdata, hr, rfl⟩ := List.mem_map.mp hx
      exact hl rdata hr)
    (by
      intro x hx
      obtain ⟨rdata, hr, rfl⟩ := List.mem_map.mp hx
      exact hl' rdata hr) h
  rw [List.map_map, List.map_map] at hviews
  have hrd := congrArg (List.map Prod.snd) hviews
  rw [List.map_map, List.map_map] at hrd
  have heq : rdatas = rdatas' := by
    have hid : ∀ l : List Bytes, l.map (fun rdata => rdata) = l := List.map_id
    rw [← hid rdatas, ← hid rdatas']
    exact hrd
  cases rdatas with
  | nil => exact absurd rfl hne
  | cons rdata rest =>
    subst heq
    have hfirst := (List.cons.inj hviews).1
    simp only [Function.comp_apply, TbsInput.shown, Prod.mk.injEq] at hfirst
    obtain ⟨⟨⟨⟨⟨hown, _⟩, hcls⟩, _⟩, _⟩, _⟩ := hfirst
    refine ⟨hown, ?_, rfl⟩
    cases cls
    cases cls'
    exact congrArg DnsClass.mk hcls

section
variable {rr rr' : Record} {records records' : List Record}

/-- **The octets determine the RRset.** -/
theorem sameSigned_of_tbs {tbs : Bytes} (h : buildTbsManual rr records = some tbs)
    (h' : buildTbsManual rr' records' = some tbs) :
    ∃ sig sig', rr.data = .rrsig sig ∧ rr'.data = .rrsig sig' ∧
      SameSigned rr sig records rr' sig' records' := by
  obtain ⟨sig, owner, rdatas, hd, _, ho, hne, hmap, hf⟩ := buildTbsManual_some_iff.mp h
  obtain ⟨sig', owner', rdatas', hd', _, ho', _, hmap', hf'⟩ := buildTbsManual_some_iff.mp h'
  have heq := (fits_eq_some.mp hf).2.trans (fits_eq_some.mp hf').2.symm
  obtain ⟨hhead, hbody⟩ := framed_tbsHeader sig sig' trivial trivial _ _ heq
  simp only [Prod.mk.injEq] at hhead
  obtain ⟨⟨⟨⟨⟨⟨htype, halg, hnum⟩, httl⟩, hexp⟩, hinc⟩, htag⟩, hsigner⟩ := hhead
  have hsort : ∀ l : List Bytes, (l.insertionSort (· ≤ ·)).Perm l := List.perm_insertionSort _
  obtain ⟨hown, hcls, hrd⟩ := tbsBody_inj
    (by
      intro hnil
      exact hne ((hsort rdatas).symm.trans (List.Perm.of_eq hnil)).eq_nil)
    (fun rdata hr => length_canonicalRdata hmap ((hsort rdatas).subset hr))
    (fun rdata hr => length_canonicalRdata hmap' ((hsort rdatas').subset hr)) hbody
  have hperm : rdatas.Perm rdatas' :=
    (hsort rdatas).symm.trans ((List.Perm.of_eq hrd).trans (hsort rdatas'))
  refine ⟨sig, sig', hd, hd', ?_, halg, hnum, httl, hexp, hinc, htag, hsigner, hcls,
    ⟨owner, owner', ho, ho', hown⟩, ?_⟩
  · cases hc : sig.typeCovered
    cases hc' : sig'.typeCovered
    rw [hc, hc'] at htype
    exact congrArg RecordType.mk htype
  · rw [hmap, hmap']
    exact hperm.map some

end

/-! ## one signature, one RRset -/

/-- `key` takes `signature` for a signature of `message` -/
def TakesFor (cr : Crypto) (key : Dnskey) (message signature : Bytes) : Prop :=
  verifySignature cr key.algorithm key.publicKey message signature = true ∨
    cr.publicKeyVerify key message signature = true

theorem signatureValid_takesFor {cr : Crypto} {sig : Rrsig} {key : Dnskey} {rr : Record}
    {records : List Record} (h : signatureValid cr sig key rr records = true) :
    ∃ tbs, buildTbsManual rr records = some tbs ∧ TakesFor cr key tbs sig.sig := by
  obtain ⟨tbs, ht, hacc⟩ := signatureValid_tbs h
  unfold signatureValid at h
  rw [Bool.and_eq_true, decide_eq_true_eq] at h
  rw [h.1] at hacc
  exact ⟨tbs, ht, hacc⟩

/-- **The encoding is unambiguous.**  The same octets are of the same RRset; hence an octet string
that a key takes for a signature of one message at most is valid for one RRset. -/
theorem buildTbsManual_unambiguous (rr rr' : Record) (records records' : List Record) :
    (∀ tbs, buildTbsManual rr records = some tbs → buildTbsManual rr' records' = some tbs →
      ∃ sig sig', rr.data = .rrsig sig ∧ rr'.data = .rrsig sig' ∧
        SameSigned rr sig records rr' sig' records') ∧
    ∀ (cr : Crypto) (key : Dnskey) (sig sig' : Rrsig), rr.data = .rrsig sig →
      rr'.data = .rrsig sig' → sig.sig = sig'.sig →
      (∀ m m', TakesFor cr key m sig.sig → TakesFor cr key m' sig.sig → m = m') →
      signatureValid cr sig key rr records = true →
      signatureValid cr sig' key rr' records' = true →
        SameSigned rr sig records rr' sig' records' := by
  refine ⟨fun tbs h h' => sameSigned_of_tbs h h', ?_⟩
  intro cr key sig sig' hd hd' hsame hone hv hv'
  obtain ⟨tbs, ht, hacc⟩ := signatureValid_takesFor hv
  obtain ⟨tbs', ht', hacc'⟩ := signatureValid_takesFor hv'
  rw [← hsame] at hacc'
  obtain rfl := hone tbs tbs' hacc hacc'
  obtain ⟨sig₁, sig₁', hd₁, hd₁', hsigned⟩ := sameSigned_of_tbs ht ht'
  obtain rfl := RData.rrsig.inj (hd.symm.trans hd₁)
  obtain rfl := RData.rrsig.inj (hd'.symm.trans hd₁')
  exact hsigned

def echoCrypto : Crypto where
  calculateKeyTag := fun _ => some 1
  sha1 := id
  sha256 := id
  sha384 := id
  ringRsa := fun _ _ _ _ _ => false
  rsaCrate := fun _ _ _ _ _ => false
  ecdsaP256 := fun _ _ _ => false
  ecdsaP384 := fun _ _ _ => false
  ed25519 := fun _ message signature => message == signature
  mldsa44 := fun _ _ _ => false
  publicKeyVerify := fun _ _ _ => false

def echoKey : Dnskey := ⟨257, 15, []⟩

theorem echoKey_takesFor {message signature : Bytes}
    (h : TakesFor echoCrypto echoKey message signature) : message = signature := by
  rcases h with h | h
  · exact beq_iff_eq.mp h
  · exact absurd h Bool.false_ne_true

def textTbs : Bytes :=
  (buildTbsManual (textRrsig lowerA [])
    [textRecord lowerA 3600 [1, 98], textRecord lowerA 3600 [1, 97]]).getD []

/-- two presentations of the text records under one signature -/
theorem textRrset_sameSigned :
    signatureValid echoCrypto (textSig textTbs) echoKey (textRrsig lowerA textTbs)
        [textRecord lowerA 3600 [1, 98], textRecord lowerA 3600 [1, 97]] = true ∧
      SameSigned (textRrsig lowerA textTbs) (textSig textTbs)
        [textRecord lowerA 3600 [1, 98], textRecord lowerA 3600 [1, 97]]
        (textRrsig upperA textTbs) (textSig textTbs)
        [textRecord upperA 7 [1, 97], textRecord lowerA 8 [1, 98]] := by
  have hvalid : signatureValid echoCrypto (textSig textTbs) echoKey (textRrsig lowerA textTbs)
      [textRecord lowerA 3600 [1, 98], textRecord lowerA 3600 [1, 97]] = true := by decide +kernel
  refine ⟨hvalid, (buildTbsManual_unambiguous _ _ _ _).2 echoCrypto echoKey _ _ rfl rfl rfl ?_
    hvalid (by decide +kernel)⟩
  intro m m' hm hm'
  exact (echoKey_takesFor hm).trans (echoKey_takesFor hm').symm

end DnsResolver
