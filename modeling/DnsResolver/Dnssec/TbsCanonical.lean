import DnsResolver.Dnssec.Crypto
import DnsResolver.Data.Wire
import Mathlib.Data.List.Sort
import Mathlib.Logic.Relation

/-!
# The signed octets depend on the RRset alone

`build_tbs_manual` sees a record list in some order, with TTLs that were counted down and names in
whatever case a server used.  None of this is in the octets.

* `buildTbsManual_some_iff`   when there are octets, and which;
* `TbsAlike`                  what the octets depend on: the RRSIG with its signer in lower case,
                              the owner in lower case, the class and the canonical RDATA of the
                              covered records, as a multiset;
* `Restated`                  one change of presentation;
* `buildTbsManual_restated`   no sequence of such changes shows in the octets.
-/

namespace DnsResolver

/-! ## the octets -/

theorem mapM_eq_some_iff {α β : Type} {f : α → Option β} {l : List α} {bs : List β} :
    l.mapM f = some bs ↔ l.map f = bs.map some := by
  induction l generalizing bs with
  | nil => cases bs <;> simp
  | cons a l ih =>
    simp only [List.mapM_cons, Option.bind_eq_bind, Option.bind_eq_some_iff, Option.pure_def,
      Option.some.injEq, List.map_cons, ih]
    constructor
    · rintro ⟨b, hb, cs, hcs, rfl⟩
      rw [hb, hcs, List.map_cons]
    · intro h
      cases bs with
      | nil => exact absurd h (by simp)
      | cons b bs =>
        obtain ⟨hb, hbs⟩ := List.cons.inj h
        exact ⟨b, hb, bs, hbs, rfl⟩

theorem mapM_eq_none {α β : Type} {f : α → Option β} {l : List α} {a : α} (ha : a ∈ l)
    (h : f a = none) : l.mapM f = none := by
  by_contra hne
  obtain ⟨bs, hbs⟩ := Option.ne_none_iff_exists'.mp hne
  have hmem : f a ∈ bs.map some := by
    rw [← mapM_eq_some_iff.mp hbs]
    exact List.mem_map.mpr ⟨a, ha, rfl⟩
  rw [h] at hmem
  obtain ⟨b, _, hb⟩ := List.mem_map.mp hmem
  exact Option.some_ne_none b hb

theorem fits_eq_some {b c : Bytes} : fits b = some c ↔ b.length ≤ maxEncoded ∧ b = c := by
  unfold fits
  split
  · rename_i h
    simp [h]
  · rename_i h
    simp [h]

/-- **When there are signed octets, and which.** -/
theorem buildTbsManual_some_iff {rr : Record} {records : List Record} {tbs : Bytes} :
    buildTbsManual rr records = some tbs ↔ ∃ sig owner rdatas, rr.data = .rrsig sig ∧
      sig.numLabels.toNat ≤ rr.name.labels.length ∧
      reconstructWildcardName rr.name sig.numLabels = some owner ∧ rdatas ≠ [] ∧
      (tbsRrset rr sig records).map canonicalRdata = rdatas.map some ∧
      fits (tbsHeader sig ++ (rdatas.insertionSort (· ≤ ·)).flatMap
        (tbsRecord owner rr.dnsClass sig)) = some tbs := by
  constructor
  · intro h
    unfold buildTbsManual at h
    split at h
    · rename_i sig hd
      split at h
      · exact absurd h (by simp)
      · split at h
        · exact absurd h (by simp)
        · rename_i hl
          split at h
          · exact absurd h (by simp)
          · rename_i owner ho
            dsimp only at h
            split at h
            · exact absurd h (by simp)
            · rename_i hne
              split at h
              · exact absurd h (by simp)
              · rename_i rdatas hm
                have hmap := mapM_eq_some_iff.mp hm
                refine ⟨sig, owner, rdatas, hd, by omega, ho, ?_, hmap, h⟩
                rintro rfl
                exact hne (List.isEmpty_iff.mpr (List.map_eq_nil_iff.mp hmap))
    · exact absurd h (by simp)
  · rintro ⟨sig, owner, rdatas, hd, hl, ho, hne, hmap, hf⟩
    have hset : tbsRrset rr sig records ≠ [] := by
      intro hnil
      rw [hnil, List.map_nil] at hmap
      exact hne (List.map_eq_nil_iff.mp hmap.symm)
    have hrec : records ≠ [] := by
      rintro rfl
      exact hset rfl
    simp only [buildTbsManual, hd, ho, mapM_eq_some_iff.mpr hmap,
      mt List.isEmpty_iff.mp hset, mt List.isEmpty_iff.mp hrec, if_false,
      show ¬ rr.name.labels.length < sig.numLabels.toNat by omega]
    exact hf

/-! ## what they depend on -/

theorem reconstructWildcardName_congr {a b : Name} (h : a.fold = b.fold) {k : UInt8} {owner : Name}
    (ho : reconstructWildcardName a k = some owner) :
    ∃ owner', reconstructWildcardName b k = some owner' ∧ owner.fold = owner'.fold := by
  have hlen : a.labels.length = b.labels.length := by
    rw [← Name.length_fold, ← Name.length_fold, h]
  unfold reconstructWildcardName at ho ⊢
  rw [hlen] at ho
  split at ho
  · rename_i hk
    obtain rfl := Option.some.inj ho
    rw [if_pos hk]
    exact ⟨b, rfl, h⟩
  · rename_i hk
    rw [if_neg hk]
    have htail : ((Name.star :: a.labels.drop (b.labels.length - k.toNat)).map foldLabel) =
        (Name.star :: b.labels.drop (b.labels.length - k.toNat)).map foldLabel := by
      rw [List.map_cons, List.map_cons, List.map_drop, List.map_drop]
      exact congrArg (fun ls => foldLabel Name.star :: ls.drop (b.labels.length - k.toNat)) h
    unfold Name.fromLabels at ho ⊢
    split at ho
    · rename_i hv
      obtain rfl := Option.some.inj ho
      have hv' : ValidLabels (Name.star :: b.labels.drop (b.labels.length - k.toNat)) := by
        rw [← validLabels_fold, ← htail, validLabels_fold]
        exact hv
      rw [dif_pos hv']
      exact ⟨_, rfl, htail⟩
    · exact absurd ho (by simp)

/-- the same RRSIG up to the case of its signer, the same owner up to case, the same class, and
covered records with the same canonical RDATA in any order -/
structure TbsAlike (rr : Record) (sig : Rrsig) (records : List Record) (rr' : Record)
    (sig' : Rrsig) (records' : List Record) : Prop where
  owner : rr.name.fold = rr'.name.fold
  dnsClass : rr.dnsClass = rr'.dnsClass
  rrsig : { sig with signerName := sig'.signerName } = sig'
  signer : sig.signerName.fold = sig'.signerName.fold
  rdata : ((tbsRrset rr sig records).map canonicalRdata).Perm
    ((tbsRrset rr' sig' records').map canonicalRdata)

section
variable {rr rr' : Record} {sig sig' : Rrsig} {records records' : List Record}

theorem TbsAlike.symm (h : TbsAlike rr sig records rr' sig' records') :
    TbsAlike rr' sig' records' rr sig records where
  owner := h.owner.symm
  dnsClass := h.dnsClass.symm
  rrsig := by
    rw [← h.rrsig]
  signer := h.signer.symm
  rdata := h.rdata.symm

theorem TbsAlike.tbsHeader (h : TbsAlike rr sig records rr' sig' records') :
    tbsHeader sig = tbsHeader sig' := by
  rw [← h.rrsig]
  simp only [DnsResolver.tbsHeader, Name.wireLower, h.signer]

theorem TbsAlike.tbsRecord (h : TbsAlike rr sig records rr' sig' records') {owner owner' : Name}
    (ho : owner.fold = owner'.fold) :
    tbsRecord owner rr.dnsClass sig = tbsRecord owner' rr'.dnsClass sig' := by
  funext rdata
  rw [← h.rrsig, h.dnsClass]
  simp only [DnsResolver.tbsRecord, Name.wireLower, ho]

theorem insertionSort_congr {l m : List Bytes} (h : l.Perm m) :
    l.insertionSort (· ≤ ·) = m.insertionSort (· ≤ ·) := by
  refine List.Perm.eq_of_pairwise' (r := (· ≤ ·)) (List.pairwise_insertionSort _ _)
    (List.pairwise_insertionSort _ _) ?_
  exact ((List.perm_insertionSort _ l).trans h).trans (List.perm_insertionSort _ m).symm

theorem TbsAlike.forward (h : TbsAlike rr sig records rr' sig' records') (hd : rr.data = .rrsig sig)
    (hd' : rr'.data = .rrsig sig') {tbs : Bytes} (ht : buildTbsManual rr records = some tbs) :
    buildTbsManual rr' records' = some tbs := by
  obtain ⟨sig₁, owner, rdatas, hd₁, hl, ho, hne, hmap, hf⟩ := buildTbsManual_some_iff.mp ht
  obtain rfl := RData.rrsig.inj (hd.symm.trans hd₁)
  have hnum : sig.numLabels = sig'.numLabels := by rw [← h.rrsig]
  have hlen : rr.name.labels.length = rr'.name.labels.length := by
    rw [← Name.length_fold, ← Name.length_fold, h.owner]
  obtain ⟨owner', ho', hfold⟩ := reconstructWildcardName_congr h.owner ho
  have hperm := h.rdata
  rw [hmap] at hperm
  obtain ⟨rdatas', hmap'⟩ : ∃ rdatas' : List Bytes,
      (tbsRrset rr' sig' records').map canonicalRdata = rdatas'.map some := by
    refine ⟨((tbsRrset rr' sig' records').map canonicalRdata).filterMap id, ?_⟩
    rw [List.map_filterMap_some_eq_filter_map_isSome, List.map_id, eq_comm]
    refine List.filter_eq_self.mpr fun x hx => ?_
    obtain ⟨b, _, rfl⟩ := List.mem_map.mp (hperm.symm.subset hx)
    rfl
  have hperm' : rdatas.Perm rdatas' := by
    rw [hmap'] at hperm
    have := hperm.filterMap id
    rwa [List.filterMap_map, List.filterMap_map, Function.id_comp, List.filterMap_some,
      List.filterMap_some] at this
  refine buildTbsManual_some_iff.mpr ⟨sig', owner', rdatas', hd', by rw [← hnum]; omega,
    hnum ▸ ho', ?_, hmap', ?_⟩
  · rintro rfl
    exact hne hperm'.eq_nil
  · rw [← h.tbsHeader, ← insertionSort_congr hperm', ← h.tbsRecord hfold]
    exact hf

/-- **The octets depend on nothing else.** -/
theorem TbsAlike.eq (h : TbsAlike rr sig records rr' sig' records') (hd : rr.data = .rrsig sig)
    (hd' : rr'.data = .rrsig sig') : buildTbsManual rr records = buildTbsManual rr' records' :=
  Option.ext fun _ => ⟨h.forward hd hd', h.symm.forward hd' hd⟩

end

/-! ## changes of presentation -/

/-- the owner, the covered type and the class of the RRSIG record -/
def Covers (rr : Record) (sig : Rrsig) (r : Record) : Prop :=
  r.name.nameEq rr.name = true ∧ r.recordType = sig.typeCovered ∧ r.dnsClass = rr.dnsClass

/-- one change of an RRSIG record and a record list that leaves the RRset as it is -/
inductive Restated : Record × List Record → Record × List Record → Prop
  /-- the records in another order -/
  | order {rr : Record} {records records' : List Record} : records.Perm records' →
      Restated (rr, records) (rr, records')
  /-- other TTLs, and owners in another case -/
  | records {rr : Record} {records records' : List Record} :
      List.Forall₂ (fun r r' => r.name.fold = r'.name.fold ∧ r.dnsClass = r'.dnsClass ∧
        r.data = r'.data) records records' → Restated (rr, records) (rr, records')
  /-- the owner of the RRSIG record in another case -/
  | owner {rr : Record} {records : List Record} {n : Name} : n.fold = rr.name.fold →
      Restated (rr, records) ({ rr with name := n }, records)
  /-- the signer in another case -/
  | signer {rr : Record} {records : List Record} {sig : Rrsig} {n : Name} :
      rr.data = .rrsig sig → n.fold = sig.signerName.fold →
      Restated (rr, records) ({ rr with data := .rrsig { sig with signerName := n } }, records)
  /-- a record of another owner, type or class more -/
  | insert {rr r : Record} {sig : Rrsig} {front back : List Record} : rr.data = .rrsig sig →
      ¬ Covers rr sig r → Restated (rr, front ++ back) (rr, front ++ r :: back)
  /-- a record of another owner, type or class less -/
  | remove {rr r : Record} {sig : Rrsig} {front back : List Record} : rr.data = .rrsig sig →
      ¬ Covers rr sig r → Restated (rr, front ++ r :: back) (rr, front ++ back)

section
variable {rr : Record} {sig : Rrsig} {records records' : List Record}

theorem buildTbsManual_congr {rr' : Record} (hdata : rr'.data = rr.data)
    (h : ∀ sig, rr.data = .rrsig sig → TbsAlike rr sig records rr' sig records') :
    buildTbsManual rr records = buildTbsManual rr' records' := by
  cases hd : rr.data with
  | rrsig sig => exact (h sig hd).eq hd (hdata.trans hd)
  | _ => simp only [buildTbsManual, hdata, hd]

theorem buildTbsManual_of_perm (h : ∀ sig, rr.data = .rrsig sig →
    ((tbsRrset rr sig records).map canonicalRdata).Perm
      ((tbsRrset rr sig records').map canonicalRdata)) :
    buildTbsManual rr records = buildTbsManual rr records' :=
  buildTbsManual_congr rfl fun sig hd => ⟨rfl, rfl, rfl, rfl, h sig hd⟩

theorem tbsRrset_cons_of_covers {r : Record} (h : Covers rr sig r) :
    tbsRrset rr sig (r :: records) = r :: tbsRrset rr sig records := by
  obtain ⟨hn, ht, hc⟩ := h
  exact List.filter_cons_of_pos (by simp only [hn, ht, hc, decide_true, Bool.and_self])

theorem tbsRrset_cons_of_not_covers {r : Record} (h : ¬ Covers rr sig r) :
    tbsRrset rr sig (r :: records) = tbsRrset rr sig records := by
  refine List.filter_cons_of_neg ?_
  rw [Bool.and_eq_true, Bool.and_eq_true, decide_eq_true_eq, decide_eq_true_eq, and_assoc]
  exact h

theorem map_canonicalRdata_congr (h : List.Forall₂ (fun r r' : Record =>
      r.name.fold = r'.name.fold ∧ r.dnsClass = r'.dnsClass ∧ r.data = r'.data) records records') :
    (tbsRrset rr sig records).map canonicalRdata =
      (tbsRrset rr sig records').map canonicalRdata := by
  induction h with
  | nil => rfl
  | @cons r r' l l' hr _ ih =>
    obtain ⟨hn, hc, hd⟩ := hr
    have hrdata : canonicalRdata r = canonicalRdata r' := by simp only [canonicalRdata, hd]
    have hcov : Covers rr sig r ↔ Covers rr sig r' := by
      rw [Covers, Covers, Name.nameEq, Name.nameEq, hn, hc, Record.recordType, Record.recordType,
        hd]
    by_cases h' : Covers rr sig r'
    · rw [tbsRrset_cons_of_covers (hcov.mpr h'), tbsRrset_cons_of_covers h', List.map_cons,
        List.map_cons, hrdata, ih]
    · rw [tbsRrset_cons_of_not_covers (mt hcov.mp h'), tbsRrset_cons_of_not_covers h', ih]

theorem tbsRrset_append (front back : List Record) :
    tbsRrset rr sig (front ++ back) = tbsRrset rr sig front ++ tbsRrset rr sig back :=
  List.filter_append ..

theorem tbsRrset_insert {r : Record} (h : ¬ Covers rr sig r) (front back : List Record) :
    tbsRrset rr sig (front ++ r :: back) = tbsRrset rr sig (front ++ back) := by
  rw [tbsRrset_append, tbsRrset_append, tbsRrset_cons_of_not_covers h]

end

theorem Restated.eq {x y : Record × List Record} (h : Restated x y) :
    buildTbsManual x.1 x.2 = buildTbsManual y.1 y.2 := by
  cases h with
  | order hp => exact buildTbsManual_of_perm fun sig _ => (hp.filter _).map _
  | records hf =>
    refine buildTbsManual_of_perm fun sig _ => ?_
    rw [map_canonicalRdata_congr hf]
  | @owner rr records n hn =>
    refine buildTbsManual_congr rfl fun sig _ => ⟨hn.symm, rfl, rfl, rfl, ?_⟩
    rw [tbsRrset, tbsRrset]
    simp only [Name.nameEq, hn]
    exact List.Perm.refl _
  | @signer rr records sig n hd hn =>
    have halike : TbsAlike rr sig records
        { rr with data := .rrsig { sig with signerName := n } } { sig with signerName := n }
        records := ⟨rfl, rfl, rfl, hn.symm, List.Perm.refl _⟩
    exact halike.eq hd rfl
  | insert hd hc =>
    refine buildTbsManual_of_perm fun sig' hd' => ?_
    obtain rfl := RData.rrsig.inj (hd.symm.trans hd')
    rw [tbsRrset_insert hc]
  | remove hd hc =>
    refine buildTbsManual_of_perm fun sig' hd' => ?_
    obtain rfl := RData.rrsig.inj (hd.symm.trans hd')
    rw [tbsRrset_insert hc]

/-- **The signed octets depend only on the RRset, not on its presentation.** -/
theorem buildTbsManual_restated {x y : Record × List Record}
    (h : Relation.ReflTransGen Restated x y) :
    buildTbsManual x.1 x.2 = buildTbsManual y.1 y.2 := by
  induction h with
  | refl => rfl
  | tail _ hstep ih => exact ih.trans hstep.eq

/-! ## an RRset in two presentations -/

/-- `a.` and `A.` -/
def lowerA : Name := ⟨[[97]], by decide⟩
def upperA : Name := ⟨[[65]], by decide⟩

def textSig (signature : Bytes) : Rrsig where
  typeCovered := .TXT
  algorithm := 15
  numLabels := 1
  originalTtl := 3600
  sigExpiration := 2000
  sigInception := 0
  keyTag := 1
  signerName := lowerA
  sig := signature

def textRrsig (owner : Name) (signature : Bytes) : Record where
  name := owner
  ttl := 60
  data := .rrsig (textSig signature)

def textRecord (owner : Name) (ttl : UInt32) (rdata : Bytes) : Record where
  name := owner
  ttl := ttl
  data := .other .TXT rdata

/-- the same two records in another order, counted down and in upper case, next to a stray one -/
theorem textRrset_restated :
    buildTbsManual (textRrsig lowerA [])
        [textRecord lowerA 3600 [1, 98], textRecord lowerA 3600 [1, 97]] =
      buildTbsManual (textRrsig upperA [])
        [textRecord .root 3600 [1, 99], textRecord upperA 7 [1, 97], textRecord lowerA 8 [1, 98]] ∧
    (buildTbsManual (textRrsig lowerA [])
        [textRecord lowerA 3600 [1, 98], textRecord lowerA 3600 [1, 97]]).isSome = true := by
  have hswap : Restated
      (textRrsig lowerA [], [textRecord lowerA 3600 [1, 98], textRecord lowerA 3600 [1, 97]])
      (textRrsig lowerA [], [textRecord lowerA 3600 [1, 97], textRecord lowerA 3600 [1, 98]]) :=
    .order (List.Perm.swap ..)
  have hrecords : Restated
      (textRrsig lowerA [], [textRecord lowerA 3600 [1, 97], textRecord lowerA 3600 [1, 98]])
      (textRrsig lowerA [], [textRecord upperA 7 [1, 97], textRecord lowerA 8 [1, 98]]) :=
    .records (.cons ⟨by decide, rfl, rfl⟩ (.cons ⟨rfl, rfl, rfl⟩ .nil))
  have howner : Restated
      (textRrsig lowerA [], [textRecord upperA 7 [1, 97], textRecord lowerA 8 [1, 98]])
      (textRrsig upperA [], [textRecord upperA 7 [1, 97], textRecord lowerA 8 [1, 98]]) :=
    .owner (n := upperA) (by decide)
  have hstray : Restated
      (textRrsig upperA [], [] ++ [textRecord upperA 7 [1, 97], textRecord lowerA 8 [1, 98]])
      (textRrsig upperA [], [] ++ textRecord .root 3600 [1, 99] ::
        [textRecord upperA 7 [1, 97], textRecord lowerA 8 [1, 98]]) := by
    refine .insert rfl ?_
    rintro ⟨hn, _⟩
    exact absurd hn (by decide)
  exact ⟨buildTbsManual_restated (.tail (.tail (.tail (.single hswap) hrecords) howner) hstray),
    by decide +kernel⟩

end DnsResolver
