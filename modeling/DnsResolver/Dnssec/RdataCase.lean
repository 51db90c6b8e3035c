import DnsResolver.Dnssec.TbsInjective
import DnsResolver.Dnssec.State

/-!
# The case of names inside RDATA

`canonical_rdata` has an arm for each of six types with names in their RDATA and writes the names in
lower case.  NAPTR and type 39, DNAME, fall to the last arm, which writes the RDATA as it is.

* `Naptr`              NAPTR RDATA, as the catch-all arm sees it;
* `CaseVariant`        two RDATA values that differ in the case of embedded names only;
* `TreatedAlike`       the two give the same canonical RDATA, the same signed octets and the same
                       verdict on a signature;
* `treatedAlike_iff`   they are treated alike unless they are NAPTR or DNAME data and differ.
-/

namespace DnsResolver

def RecordType.NAPTR : RecordType := ⟨35⟩

/-- a `<character-string>` -/
abbrev CharString := { s : Bytes // s.length ≤ 255 }

def CharString.wire (s : CharString) : Bytes := s.val.length.toUInt8 :: s.val

/-- the fields of NAPTR RDATA before the replacement -/
structure Naptr where
  order : UInt16
  preference : UInt16
  flags : CharString
  services : CharString
  regexp : CharString

def Naptr.fields (x : Naptr) : Bytes :=
  be16 x.order ++ be16 x.preference ++ x.flags.wire ++ x.services.wire ++ x.regexp.wire

def Naptr.rdata (x : Naptr) (replacement : Name) : RData :=
  .other .NAPTR (x.fields ++ replacement.wire)

def dnameRdata (target : Name) : RData := .other .DNAME target.wire

/-- two RDATA values that differ in the case of embedded names only -/
inductive CaseVariant : RData → RData → Prop
  | ns {n n' : Name} : n.fold = n'.fold → CaseVariant (.ns n) (.ns n')
  | cname {n n' : Name} : n.fold = n'.fold → CaseVariant (.cname n) (.cname n')
  | soa {s s' : Soa} : s.mname.fold = s'.mname.fold → s.rname.fold = s'.rname.fold →
      { s with mname := s'.mname, rname := s'.rname } = s' → CaseVariant (.soa s) (.soa s')
  | ptr {n n' : Name} : n.fold = n'.fold → CaseVariant (.ptr n) (.ptr n')
  | mx {p : UInt16} {n n' : Name} : n.fold = n'.fold → CaseVariant (.mx p n) (.mx p n')
  | srv {p w port : UInt16} {n n' : Name} : n.fold = n'.fold →
      CaseVariant (.srv p w port n) (.srv p w port n')
  | naptr {x : Naptr} {n n' : Name} : n.fold = n'.fold → CaseVariant (x.rdata n) (x.rdata n')
  | dname {n n' : Name} : n.fold = n'.fold → CaseVariant (dnameRdata n) (dnameRdata n')

/-- the same octets for the record, for every RRset it is in, and the same verdict on every
signature over such an RRset -/
structure TreatedAlike (r r' : Record) : Prop where
  rdata : canonicalRdata r = canonicalRdata r'
  tbs : ∀ rr front back,
    buildTbsManual rr (front ++ r :: back) = buildTbsManual rr (front ++ r' :: back)
  verified : ∀ env sig key rr front back st,
    (verifyRrsig env sig key rr (front ++ r :: back) st).1 =
      (verifyRrsig env sig key rr (front ++ r' :: back) st).1

/-! ## from the canonical RDATA to the signature -/

section
variable {r : Record} {d' : RData}

theorem CaseVariant.recordType {d : RData} (h : CaseVariant d d') :
    d.recordType = d'.recordType := by
  cases h <;> rfl

theorem buildTbsManual_swap (ht : r.data.recordType = d'.recordType)
    (hr : canonicalRdata r = canonicalRdata { r with data := d' }) (rr : Record)
    (front back : List Record) : buildTbsManual rr (front ++ r :: back) =
      buildTbsManual rr (front ++ { r with data := d' } :: back) := by
  refine buildTbsManual_of_perm fun sig _ => List.Perm.of_eq ?_
  rw [tbsRrset_append, tbsRrset_append, List.map_append, List.map_append]
  refine congrArg (_ ++ ·) ?_
  have hcov : Covers rr sig r ↔ Covers rr sig { r with data := d' } := by
    rw [Covers, Covers, Record.recordType, Record.recordType, ht]
  by_cases h : Covers rr sig r
  · rw [tbsRrset_cons_of_covers h, tbsRrset_cons_of_covers (hcov.mp h), List.map_cons,
      List.map_cons, hr]
  · rw [tbsRrset_cons_of_not_covers h, tbsRrset_cons_of_not_covers (mt hcov.mpr h)]

theorem treatedAlike_of_rdata (ht : r.data.recordType = d'.recordType)
    (hr : canonicalRdata r = canonicalRdata { r with data := d' }) :
    TreatedAlike r { r with data := d' } where
  rdata := hr
  tbs := buildTbsManual_swap ht hr
  verified := by
    intro env sig key rr front back st
    simp only [verifyRrsig, signatureValid, buildTbsManual_swap ht hr]

end

/-! ## the catch-all arm -/

section
variable {r : Record}

theorem wireLower_congr {n n' : Name} (h : n.fold = n'.fold) : n.wireLower = n'.wireLower := by
  rw [Name.wireLower, Name.wireLower, h]

theorem CharString.length_wire (s : CharString) : s.wire.length ≤ 256 := by
  have := s.property
  rw [CharString.wire, List.length_cons]
  omega

theorem Naptr.length_fields (x : Naptr) : x.fields.length ≤ 772 := by
  have hf := x.flags.length_wire
  have hs := x.services.length_wire
  have hr := x.regexp.length_wire
  simp only [Naptr.fields, List.length_append, be16, List.length_cons, List.length_nil]
  omega

theorem canonicalRdata_other {t : RecordType} {rdata : Bytes} (hd : r.data = .other t rdata)
    (hl : rdata.length ≤ maxEncoded) : canonicalRdata r = some rdata := by
  simp only [canonicalRdata, hd]
  exact fits_eq_some.mpr ⟨hl, rfl⟩

theorem wire_inj_of_canonicalRdata {t : RecordType} {fields : Bytes} {n n' : Name}
    (hl : fields.length ≤ 772) (hd : r.data = .other t (fields ++ n.wire))
    (h : canonicalRdata r =
      canonicalRdata { r with data := .other t (fields ++ n'.wire) }) : n = n' := by
  have hlen : ∀ m : Name, (fields ++ m.wire).length ≤ maxEncoded := by
    intro m
    have := m.length_wire_le
    rw [List.length_append, maxEncoded]
    omega
  rw [canonicalRdata_other hd (hlen n), canonicalRdata_other rfl (hlen n')] at h
  exact Name.wire_inj (List.append_cancel_left (Option.some.inj h))

/-- **Names inside RDATA are folded, but for NAPTR and DNAME.** -/
theorem treatedAlike_iff (r : Record) (d' : RData) (h : CaseVariant r.data d') :
    TreatedAlike r { r with data := d' } ↔
      (r.recordType ≠ .NAPTR ∧ r.recordType ≠ .DNAME) ∨ r.data = d' := by
  constructor
  · intro halike
    have hr := halike.rdata
    rw [Record.recordType]
    generalize hd : r.data = d at h
    cases h with
    | @naptr x n n' _ =>
      right
      rw [wire_inj_of_canonicalRdata x.length_fields hd hr]
    | @dname n n' _ =>
      right
      have hd₀ : r.data = .other .DNAME ([] ++ n.wire) := hd
      rw [wire_inj_of_canonicalRdata (Nat.zero_le _) hd₀ hr]
    | _ =>
      left
      simp only [RData.recordType]
      exact ⟨by decide, by decide⟩
  · intro hcond
    refine treatedAlike_of_rdata h.recordType ?_
    rcases hcond with ⟨hnaptr, hdname⟩ | hsame
    · rw [Record.recordType] at hnaptr hdname
      unfold canonicalRdata
      generalize r.data = d at h hnaptr hdname
      cases h with
      | naptr _ => exact absurd rfl hnaptr
      | dname _ => exact absurd rfl hdname
      | soa hm hr hs =>
        rw [← hs]
        simp only [wireLower_congr hm, wireLower_congr hr]
      | ns hn | cname hn | ptr hn | mx hn | srv hn => simp only [wireLower_congr hn]
    · rw [← hsame]

end

/-- an NS record whose server is spelled in two ways -/
theorem nsRecord_treatedAlike :
    CaseVariant (.ns lowerA) (.ns upperA) ∧
      TreatedAlike { name := .root, ttl := 60, data := .ns lowerA }
        { name := .root, ttl := 60, data := .ns upperA } := by
  have hcase : CaseVariant (.ns lowerA) (.ns upperA) := .ns (by decide)
  exact ⟨hcase, (treatedAlike_iff { name := .root, ttl := 60, data := .ns lowerA } _ hcase).mpr
    (Or.inl ⟨by decide, by decide⟩)⟩

/-- a DNAME whose target is spelled in two ways -/
theorem dnameRecord_not_treatedAlike :
    CaseVariant (dnameRdata lowerA) (dnameRdata upperA) ∧
      canonicalRdata { name := .root, ttl := 60, data := dnameRdata lowerA } = some [1, 97, 0] ∧
      canonicalRdata { name := .root, ttl := 60, data := dnameRdata upperA } = some [1, 65, 0] ∧
      ¬ TreatedAlike { name := .root, ttl := 60, data := dnameRdata lowerA }
        { name := .root, ttl := 60, data := dnameRdata upperA } := by
  refine ⟨.dname (by decide), by decide, by decide, fun h => ?_⟩
  exact absurd h.rdata (by decide)

end DnsResolver
