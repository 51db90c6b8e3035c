import DnsResolver.Dnssec.Crypto
import DnsResolver.Recursor.Redirection
import DnsResolver.Lib.Trace

/-!
# The state of a validation

A validation reads the clock and asks the recursor; both are functions of a counter `tick`, so
every behaviour of the clock and of the upstream servers is one `Env`.  What it changes is
`State`: its signature budget, the two process-wide caches and, for the proofs only, a trace
`log` of what was checked.

* `verifyRrsig`   one call of `verify_rrsig`; it leaves one `sigCheck` event;
* `rrsigLoop`     the loop over RRSIG records and keys that the source writes out in
                  `verify_negative_rrset` and twice in `build_trust_chain`;
* `SigOnly P`     what such a loop may do to the state: events that satisfy `P`, nothing else.
-/

namespace DnsResolver
open Trace

inductive DnssecStatus where
  | Secure
  | InsecureUnsigned
  | InsecureUnknown
  | Bogus
  deriving DecidableEq, Repr

/-- which of the two denial validators ran -/
inductive DenialKind where
  | nsec
  | nsec3
  deriving DecidableEq, Repr

/-- key tag, algorithm, digest type and digest -/
abbrev Anchor := UInt16 × UInt8 × UInt8 × Bytes

/-- one event of the trace -/
inductive Event where
  /-- a call of `verify_rrsig` and its result -/
  | sigCheck (sig : Rrsig) (key : Dnskey) (rrsigRecord : Record) (records : List Record)
      (ok : Bool)
  /-- a call of `validate_nsec` or `validate_nsec3` -/
  | denialCall (kind : DenialKind) (keys : List Dnskey) (qname : Name) (qtype : RecordType)
      (authority : List Record)
  /-- its verdict -/
  | denialVerdict (kind : DenialKind) (keys : List Dnskey) (qname : Name) (qtype : RecordType)
      (authority : List Record) (status : DnssecStatus)
  /-- a DS response for `zone` is about to be checked under the keys of its parent -/
  | dsLookup (zone : Name) (parentKeys : List Dnskey) (msg : Message)
  /-- a DNSKEY response for `zone` is about to be checked against the anchors -/
  | dnskeyLookup (zone : Name) (anchors : List Anchor) (msg : Message)
  /-- a DS of the parent became an anchor for `zone` -/
  | trustedDs (zone : Name) (ds : Ds)
  /-- a verified DS RRset of `zone` without a usable member -/
  | noAnchors (zone : Name) (ds : List Ds)
  /-- `is_zone_signed` asked for `name` and could not build the chain to `zone` -/
  | chainBroken (name zone : Name)

/-- the records of a call of `verify_rrsig` that returned true -/
def Event.verifiedRecords : Event → List Record
  | .sigCheck _ _ _ records true => records
  | _ => []

structure ValidationBudget where
  sigChecks : Nat := 0
  maxSigChecks : Nat := perValidationMaxSigChecks
  /-- for the proofs only: `can_check_sig` has returned false -/
  refused : Bool := false

inductive ZoneSignedness where
  | Signed
  | ProvenUnsigned
  | Unknown
  deriving DecidableEq, Repr

structure CachedZoneKeys where
  keys : List Dnskey
  expiresAt : Nat

structure SignedZoneEntry where
  signedness : ZoneSignedness
  expiresAt : Nat

structure State where
  budget : ValidationBudget := {}
  keyTrustCache : ZoneKey → Option CachedZoneKeys := fun _ => none
  signedZoneCache : ZoneKey → Option SignedZoneEntry := fun _ => none
  tick : Nat := 0
  log : List Event := []

/-- `to_string().to_lowercase()` as the key of a cache.  Names with one key are one name; the
converse fails for a label in IDNA form, which `Display` decodes if it is spelled `xn--`. -/
structure LowerKey where
  key : Name → ZoneKey
  inj : ∀ a b, key a = key b → a.fold = b.fold

def LowerKey.folded : LowerKey := ⟨Name.fold, fun _ _ h => h⟩

/-- what a validation depends on but does not change -/
structure Env where
  crypto : Crypto
  text : Presentation
  lowerKey : LowerKey := .folded
  /-- `now_secs()` at a given tick -/
  nowSecs : Nat → Nat
  /-- `recursor.resolve` at a given tick -/
  resolve : Nat → Name → RecordType → Except RecursorError Message

/-- `zone_key` -/
def Env.zoneKey (env : Env) (zone : Name) : ZoneKey := env.lowerKey.key zone

namespace State

def push (st : State) (e : Event) : State := { st with log := st.log ++ [e] }

def next (st : State) : State := { st with tick := st.tick + 1 }

@[simp] theorem push_log (st : State) (e : Event) : (st.push e).log = st.log ++ [e] := rfl

end State

/-- `ValidationBudget::can_check_sig` -/
def canCheckSig (st : State) : Bool × State :=
  if st.budget.maxSigChecks ≤ st.budget.sigChecks then
    (false, { st with budget := { st.budget with refused := true } })
  else (true, { st with budget := { st.budget with sigChecks := st.budget.sigChecks + 1 } })

/-- `verify_rrsig` -/
def verifyRrsig (env : Env) (sig : Rrsig) (key : Dnskey) (rrsigRecord : Record)
    (records : List Record) (st : State) : Bool × State :=
  let ok := rrsigTimeValid sig (env.nowSecs st.tick) &&
    signatureValid env.crypto sig key rrsigRecord records
  (ok, st.next.push (.sigCheck sig key rrsigRecord records ok))

/-- one key against one RRSIG: skipped unless the key tag matches, cut short without budget -/
def checkKey (env : Env) (records : List Record) (rrsigRecord : Record) (sig : Rrsig)
    (key : Dnskey) (st : State) : Result (Record × Rrsig × Dnskey) × State :=
  if keyTagMatches env.crypto key sig.keyTag then
    match canCheckSig st with
    | (false, st) => (.stop, st)
    | (true, st) =>
      match verifyRrsig env sig key rrsigRecord records st with
      | (true, st) => (.hit (rrsigRecord, sig, key), st)
      | (false, st) => (.miss, st)
  else (.miss, st)

/-- all keys against one RRSIG record that covers the type `t` -/
def checkRrsig (env : Env) (t : RecordType) (keys : List Dnskey) (records : List Record)
    (rrsigRecord : Record) (st : State) : Result (Record × Rrsig × Dnskey) × State :=
  match rrsigRecord.data with
  | .rrsig sig =>
    if sig.typeCovered = t then search (checkKey env records rrsigRecord sig) keys st
    else (.miss, st)
  | _ => (.miss, st)

def rrsigLoop (env : Env) (t : RecordType) (rrsigs : List Record) (keys : List Dnskey)
    (records : List Record) (st : State) : Result (Record × Rrsig × Dnskey) × State :=
  search (checkRrsig env t keys records) rrsigs st

/-! ## what a signature loop does to the state -/

/-- only the budget, the clock and the trace changed, the trace by events that satisfy `P` -/
structure SigOnly (P : Event → Prop) (s s' : State) : Prop where
  log : Grew P s.log s'.log
  keyTrustCache : s'.keyTrustCache = s.keyTrustCache
  signedZoneCache : s'.signedZoneCache = s.signedZoneCache

section
variable {P Q : Event → Prop} {s s₁ s₂ s₃ : State}

theorem SigOnly.refl (s : State) : SigOnly P s s := ⟨Grew.refl _, rfl, rfl⟩

theorem SigOnly.trans (h : SigOnly P s₁ s₂) (h' : SigOnly P s₂ s₃) : SigOnly P s₁ s₃ :=
  ⟨h.log.trans h'.log, h'.keyTrustCache.trans h.keyTrustCache,
    h'.signedZoneCache.trans h.signedZoneCache⟩

theorem SigOnly.mono (h : SigOnly P s₁ s₂) (hPQ : ∀ e, P e → Q e) : SigOnly Q s₁ s₂ :=
  ⟨h.log.mono hPQ, h.keyTrustCache, h.signedZoneCache⟩

theorem SigOnly.push {e : Event} (h : P e) : SigOnly P s (s.push e) := ⟨Grew.push h, rfl, rfl⟩

theorem SigOnly.next : SigOnly P s s.next := ⟨Grew.refl _, rfl, rfl⟩

end

/-- events of `verify_rrsig` on the records `records` -/
def IsCheckOf (records : List Record) (e : Event) : Prop :=
  ∃ sig key rec ok, e = .sigCheck sig key rec records ok

section
variable {env : Env} {P : Event → Prop} {records : List Record}

theorem canCheckSig_sigOnly (st : State) : SigOnly P st (canCheckSig st).2 := by
  unfold canCheckSig
  split
  · exact ⟨Grew.refl _, rfl, rfl⟩
  · exact ⟨Grew.refl _, rfl, rfl⟩

theorem verifyRrsig_sigOnly (env : Env) (sig : Rrsig) (key : Dnskey) (rec : Record)
    (records : List Record) (st : State) :
    SigOnly (IsCheckOf records) st (verifyRrsig env sig key rec records st).2 :=
  SigOnly.next.trans (SigOnly.push ⟨sig, key, rec, _, rfl⟩)

theorem verifyRrsig_true {sig : Rrsig} {key : Dnskey} {rec : Record} {st st' : State}
    (h : verifyRrsig env sig key rec records st = (true, st')) :
    Added st.log st'.log (.sigCheck sig key rec records true) ∧
      signatureValid env.crypto sig key rec records = true ∧
      rrsigTimeValid sig (env.nowSecs st.tick) = true := by
  simp only [verifyRrsig, Prod.mk.injEq] at h
  obtain ⟨hok, rfl⟩ := h
  rw [hok]
  rw [Bool.and_eq_true] at hok
  exact ⟨Added.push, hok.2, hok.1⟩

theorem checkKey_sigOnly (env : Env) (records : List Record) (rec : Record) (sig : Rrsig)
    (key : Dnskey) (st : State) :
    SigOnly (IsCheckOf records) st (checkKey env records rec sig key st).2 := by
  unfold checkKey
  split
  · have hb := canCheckSig_sigOnly (P := IsCheckOf records) st
    cases hc : canCheckSig st with
    | mk b st₁ =>
      rw [hc] at hb
      cases b with
      | false => exact hb
      | true =>
        have hv := verifyRrsig_sigOnly env sig key rec records st₁
        cases hr : verifyRrsig env sig key rec records st₁ with
        | mk ok st₂ =>
          rw [hr] at hv
          simp only [hr]
          cases ok <;> exact hb.trans hv
  · exact SigOnly.refl _

theorem checkKey_hit {rec : Record} {sig : Rrsig} {key : Dnskey} {st st' : State}
    {x : Record × Rrsig × Dnskey} (h : checkKey env records rec sig key st = (.hit x, st')) :
    x = (rec, sig, key) ∧ Added st.log st'.log (.sigCheck sig key rec records true) ∧
      signatureValid env.crypto sig key rec records = true ∧
      keyTagMatches env.crypto key sig.keyTag = true := by
  have hg := canCheckSig_sigOnly (P := fun _ => True) st
  unfold checkKey at h
  split at h
  · rename_i htag
    cases hc : canCheckSig st with
    | mk b st₁ =>
      cases b with
      | false => simp [hc] at h
      | true =>
        cases hr : verifyRrsig env sig key rec records st₁ with
        | mk ok st₂ =>
          cases ok with
          | false => simp [hc, hr] at h
          | true =>
            simp only [hc, hr, Prod.mk.injEq, Result.hit.injEq] at h
            obtain ⟨rfl, rfl⟩ := h
            obtain ⟨h1, h2, _⟩ := verifyRrsig_true hr
            rw [hc] at hg
            exact ⟨rfl, h1.after hg.log, h2, htag⟩
  · simp at h

theorem keySearch_sigOnly (env : Env) (records : List Record) (rec : Record) (sig : Rrsig)
    (keys : List Dnskey) (st : State) :
    SigOnly (IsCheckOf records) st (search (checkKey env records rec sig) keys st).2 :=
  search_keeps SigOnly.refl (fun _ _ _ => SigOnly.trans) keys
    (fun key _ st => checkKey_sigOnly env records rec sig key st) st

theorem keySearch_hit {rec : Record} {sig : Rrsig} {keys : List Dnskey} {st st' : State}
    {x : Record × Rrsig × Dnskey}
    (h : search (checkKey env records rec sig) keys st = (.hit x, st')) :
    ∃ key ∈ keys, x = (rec, sig, key) ∧
      Added st.log st'.log (.sigCheck sig key rec records true) ∧
      signatureValid env.crypto sig key rec records = true ∧
      keyTagMatches env.crypto key sig.keyTag = true := by
  obtain ⟨key, hkey, st₁, hs₁, hk⟩ := search_hit SigOnly.refl (fun _ _ _ => SigOnly.trans) keys
    (fun key _ st => checkKey_sigOnly env records rec sig key st) h
  obtain ⟨hx, hlog, hval, htag⟩ := checkKey_hit hk
  exact ⟨key, hkey, hx, hlog.after hs₁.log, hval, htag⟩

theorem checkRrsig_sigOnly (env : Env) (t : RecordType) (keys : List Dnskey)
    (records : List Record) (rec : Record) (st : State) :
    SigOnly (IsCheckOf records) st (checkRrsig env t keys records rec st).2 := by
  unfold checkRrsig
  split
  · split
    · exact keySearch_sigOnly env records rec _ keys st
    · exact SigOnly.refl _
  · exact SigOnly.refl _

theorem rrsigLoop_sigOnly (env : Env) (t : RecordType) (rrsigs : List Record)
    (keys : List Dnskey) (records : List Record) (st : State) :
    SigOnly (IsCheckOf records) st (rrsigLoop env t rrsigs keys records st).2 :=
  search_keeps SigOnly.refl (fun _ _ _ => SigOnly.trans) rrsigs
    (fun rec _ st => checkRrsig_sigOnly env t keys records rec st) st

/-- **What a successful loop found**: an RRSIG record of the list over the type `t` and a key of
the list whose tag it names, on which `verify_rrsig` returned true. -/
theorem rrsigLoop_hit {t : RecordType} {rrsigs : List Record} {keys : List Dnskey}
    {st st' : State} {rec : Record} {sig : Rrsig} {key : Dnskey}
    (h : rrsigLoop env t rrsigs keys records st = (.hit (rec, sig, key), st')) :
    rec ∈ rrsigs ∧ rec.data = .rrsig sig ∧ sig.typeCovered = t ∧ key ∈ keys ∧
      keyTagMatches env.crypto key sig.keyTag = true ∧
      Added st.log st'.log (.sigCheck sig key rec records true) ∧
      signatureValid env.crypto sig key rec records = true := by
  obtain ⟨rec', hmem, st₁, hs₁, hc⟩ := search_hit SigOnly.refl (fun _ _ _ => SigOnly.trans) rrsigs
    (fun rec _ st => checkRrsig_sigOnly env t keys records rec st) h
  unfold checkRrsig at hc
  split at hc
  · rename_i sig' hd
    split at hc
    · rename_i ht
      obtain ⟨key', hkey, hx, hlog, hval, htag⟩ := keySearch_hit hc
      simp only [Prod.mk.injEq] at hx
      obtain ⟨rfl, rfl, rfl⟩ := hx
      exact ⟨hmem, hd, ht, hkey, htag, hlog.after hs₁.log, hval⟩
    · simp at hc
  · simp at hc

end
end DnsResolver
