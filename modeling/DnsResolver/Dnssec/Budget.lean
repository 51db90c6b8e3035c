import DnsResolver.Dnssec.Validator

/-!
# The signature budget

One counter is threaded through every loop of a validation.  `Spends ok s s'` says what a piece of
the validation may do to it: every new `sigCheck` event was paid for, the counter stays within its
maximum, and if the piece came out well (`ok`) then `can_check_sig` was not refused on the way.
There is one lemma for each function; the loops are inductions over their lists.

* `validateMessageWithBudget_spends`   the whole validation;
* `validateMessage_budget`             at most `PER_VALIDATION_MAX_SIG_CHECKS` calls of
                                       `verify_rrsig`, and a refusal is never followed by a
                                       verdict that the response may be used.
-/

namespace DnsResolver
open Trace

def Event.isSigCheck : Event → Bool
  | .sigCheck .. => true
  | _ => false

/-- the number of calls of `verify_rrsig` so far -/
def State.checks (st : State) : Nat := st.log.countP Event.isSigCheck

/-- a verdict that says where the data stands -/
def DnssecStatus.settled : DnssecStatus → Prop
  | .Secure => True
  | .InsecureUnsigned => True
  | _ => False

structure Spends (ok : Prop) (s s' : State) : Prop where
  max : s'.budget.maxSigChecks = s.budget.maxSigChecks
  paid : s'.checks + s.budget.sigChecks = s.checks + s'.budget.sigChecks
  within : s.budget.sigChecks ≤ s.budget.maxSigChecks →
    s'.budget.sigChecks ≤ s'.budget.maxSigChecks
  closed : ok → s'.budget.refused = s.budget.refused

section
variable {ok ok' p q : Prop} {s s₁ s₂ : State}

theorem Spends.frame (hb : s₁.budget = s.budget) (hc : s₁.checks = s.checks) :
    Spends ok s s₁ := by
  refine ⟨by rw [hb], by rw [hb, hc], fun h => ?_, fun _ => by rw [hb]⟩
  rwa [hb]

theorem Spends.refl (s : State) : Spends ok s s := Spends.frame rfl rfl

theorem Spends.next : Spends ok s s.next := Spends.frame rfl rfl

theorem Spends.push {e : Event} (he : e.isSigCheck = false) : Spends ok s (s.push e) := by
  refine Spends.frame rfl ?_
  show (s.log ++ [e]).countP _ = _
  rw [List.countP_append, List.countP_singleton, he]
  rfl

theorem Spends.mono (h : Spends ok s s₁) (hok : ok' → ok) : Spends ok' s s₁ :=
  ⟨h.max, h.paid, h.within, fun hp => h.closed (hok hp)⟩

theorem Spends.trans (h : Spends p s s₁) (h' : Spends q s₁ s₂) (hp : ok → p) (hq : ok → q) :
    Spends ok s s₂ := by
  refine ⟨h'.max.trans h.max, ?_, fun hw => h'.within (h.within hw), fun hok => ?_⟩
  · have h1 := h.paid
    have h2 := h'.paid
    omega
  · rw [h'.closed (hq hok), h.closed (hp hok)]

theorem Spends.after (h' : Spends ok s₁ s₂) (h : Spends ok s s₁) : Spends ok s s₂ :=
  h.trans h' id id

end

/-! ## signature loops -/

section
variable {env : Env} {records : List Record} {st st' : State}

theorem canCheckSig_spends {b : Bool} (h : canCheckSig st = (b, st')) :
    (b = true → st'.checks = st.checks ∧ st'.budget.maxSigChecks = st.budget.maxSigChecks ∧
      st'.budget.sigChecks = st.budget.sigChecks + 1 ∧
      st'.budget.sigChecks ≤ st'.budget.maxSigChecks ∧
      st'.budget.refused = st.budget.refused) ∧
    (b = false → Spends False st st') := by
  unfold canCheckSig at h
  split at h
  · obtain ⟨rfl, rfl⟩ := Prod.mk.inj h
    exact ⟨fun hb => absurd hb (by decide), fun _ => ⟨rfl, rfl, id, False.elim⟩⟩
  · rename_i hlt
    obtain ⟨rfl, rfl⟩ := Prod.mk.inj h
    refine ⟨fun _ => ⟨rfl, rfl, rfl, ?_, rfl⟩, fun hb => absurd hb (by decide)⟩
    show st.budget.sigChecks + 1 ≤ st.budget.maxSigChecks
    omega

/-- a permission is used for exactly one check -/
theorem checkedOnce_spends {st₁ : State} (h : canCheckSig st = (true, st₁)) (sig : Rrsig)
    (key : Dnskey) (rec : Record) : Spends True st (verifyRrsig env sig key rec records st₁).2 := by
  obtain ⟨hc, hm, hn, hw, hr⟩ := (canCheckSig_spends h).1 rfl
  have hlog : (verifyRrsig env sig key rec records st₁).2.checks = st₁.checks + 1 := by
    show (st₁.log ++ [_]).countP _ = _
    rw [List.countP_append, List.countP_singleton]
    rfl
  refine ⟨hm, ?_, fun _ => hw, fun _ => hr⟩
  show _ + _ = _ + st₁.budget.sigChecks
  omega

theorem checkKey_spends {rec : Record} {sig : Rrsig} {key : Dnskey}
    {r : Result (Record × Rrsig × Dnskey)} (h : checkKey env records rec sig key st = (r, st')) :
    Spends (r ≠ .stop) st st' := by
  unfold checkKey at h
  split at h
  · cases hc : canCheckSig st with
    | mk b st₁ =>
      cases b with
      | false =>
        simp only [hc, Prod.mk.injEq] at h
        obtain ⟨rfl, rfl⟩ := h
        exact ((canCheckSig_spends hc).2 rfl).mono fun hne => hne rfl
      | true =>
        have hs : Spends True st (verifyRrsig env sig key rec records st₁).2 :=
          checkedOnce_spends hc sig key rec
        cases hv : verifyRrsig env sig key rec records st₁ with
        | mk b st₂ =>
          rw [hv] at hs
          cases b with
          | true =>
            simp only [hc, hv, Prod.mk.injEq] at h
            obtain ⟨rfl, rfl⟩ := h
            exact hs.mono fun _ => trivial
          | false =>
            simp only [hc, hv, Prod.mk.injEq] at h
            obtain ⟨rfl, rfl⟩ := h
            exact hs.mono fun _ => trivial
  · obtain ⟨rfl, rfl⟩ := Prod.mk.inj h
    exact Spends.refl _

theorem search_spends {α β : Type} {f : α → State → Result β × State}
    (hf : ∀ a s r s', f a s = (r, s') → Spends (r ≠ .stop) s s') (l : List α) {st st' : State}
    {r : Result β} (h : search f l st = (r, st')) : Spends (r ≠ .stop) st st' := by
  induction l generalizing st with
  | nil =>
    obtain ⟨rfl, rfl⟩ := Prod.mk.inj h
    exact Spends.refl _
  | cons a l ih =>
    cases ha : f a st with
    | mk r₁ st₁ =>
      have hs := hf a st r₁ st₁ ha
      cases r₁ with
      | hit b =>
        simp only [search, ha, Prod.mk.injEq] at h
        obtain ⟨rfl, rfl⟩ := h
        exact hs
      | stop =>
        simp only [search, ha, Prod.mk.injEq] at h
        obtain ⟨rfl, rfl⟩ := h
        exact hs
      | miss =>
        rw [search_cons_miss ha] at h
        exact hs.trans (ih h) (fun _ => by simp) id

theorem checkRrsig_spends {t : RecordType} {keys : List Dnskey} {rec : Record}
    {r : Result (Record × Rrsig × Dnskey)}
    (h : checkRrsig env t keys records rec st = (r, st')) : Spends (r ≠ .stop) st st' := by
  unfold checkRrsig at h
  split at h
  · split at h
    · exact search_spends (fun _ _ _ _ hk => checkKey_spends hk) keys h
    · obtain ⟨rfl, rfl⟩ := Prod.mk.inj h
      exact Spends.refl _
  · obtain ⟨rfl, rfl⟩ := Prod.mk.inj h
    exact Spends.refl _

theorem rrsigLoop_spends {t : RecordType} {rrsigs : List Record} {keys : List Dnskey}
    {r : Result (Record × Rrsig × Dnskey)}
    (h : rrsigLoop env t rrsigs keys records st = (r, st')) : Spends (r ≠ .stop) st st' :=
  search_spends (fun _ _ _ _ hc => checkRrsig_spends hc) rrsigs h

end

/-! ## denial -/

section
variable {env : Env} {keys : List Dnskey} {authority records : List Record} {qname : Name}
  {qtype : RecordType} {status : DnssecStatus} {st st' : State}

theorem verifyNegativeRrset_spends {rec : Record} {b : Bool}
    (h : verifyNegativeRrset env rec authority keys st = (b, st')) :
    Spends (b = true) st st' := by
  simp only [verifyNegativeRrset] at h
  split at h
  · obtain ⟨rfl, rfl⟩ := Prod.mk.inj h
    exact Spends.refl _
  · split at h
    · obtain ⟨rfl, rfl⟩ := Prod.mk.inj h
      exact Spends.refl _
    · split at h
      · rename_i st₁ hl
        obtain ⟨rfl, rfl⟩ := Prod.mk.inj h
        exact (rrsigLoop_spends hl).mono fun _ => by simp
      · rename_i st₁ hl
        obtain ⟨rfl, rfl⟩ := Prod.mk.inj h
        exact (rrsigLoop_spends hl).mono fun hb => absurd hb (by decide)

theorem IsVerifyStep.spends {f : Record → State → Result Unit × State}
    (hf : IsVerifyStep env authority keys f)
    (rec : Record) (s : State) (r : Result Unit) (s' : State) (h : f rec s = (r, s')) :
    Spends (r ≠ .stop) s s' := by
  cases hv : verifyNegativeRrset env rec authority keys s with
  | mk b s₁ =>
    rw [hf rec s b s₁ hv] at h
    obtain ⟨rfl, rfl⟩ := Prod.mk.inj h
    refine (verifyNegativeRrset_spends hv).mono fun hne => ?_
    cases b with
    | true => rfl
    | false => exact absurd rfl hne

theorem verifyDenial_spends {b : Bool}
    (h : verifyDenial env authority keys records st = (b, st')) : Spends (b = true) st st' := by
  obtain ⟨f, hf, hend⟩ := verifyDenial_search env authority keys records
  cases hs : search f records st with
  | mk r st₁ =>
    obtain ⟨b', hb, hd⟩ := hend st r st₁ hs
    obtain ⟨rfl, rfl⟩ := Prod.mk.inj (hd.symm.trans h)
    refine (search_spends hf.spends records hs).mono fun ht => ?_
    rw [hb.mp ht]
    simp

theorem nsecBody_spends (h : nsecBody env keys qname qtype authority st = (status, st')) :
    Spends (status ≠ .Bogus) st st' := by
  simp only [nsecBody] at h
  split at h
  · obtain ⟨rfl, rfl⟩ := Prod.mk.inj h
    exact Spends.refl _
  · split at h
    · rename_i st₁ hv
      obtain ⟨rfl, rfl⟩ := Prod.mk.inj h
      exact (verifyDenial_spends hv).mono fun hne => absurd rfl hne
    · rename_i st₁ hv
      obtain ⟨rfl, rfl⟩ := Prod.mk.inj h
      exact (verifyDenial_spends hv).mono fun _ => rfl

theorem nsec3Body_spends (h : nsec3Body env keys qname qtype authority st = (status, st')) :
    Spends (status ≠ .Bogus) st st' := by
  have hskip : ∀ status', (status', st) = (status, st') → Spends (status ≠ .Bogus) st st' := by
    intro status' he
    obtain ⟨rfl, rfl⟩ := Prod.mk.inj he
    exact Spends.refl _
  simp only [nsec3Body] at h
  split at h
  · exact hskip _ h
  · split at h
    · split at h
      · exact hskip _ h
      · split at h
        · exact hskip _ h
        · split at h
          · exact hskip _ h
          · split at h
            · rename_i st₁ hv
              obtain ⟨rfl, rfl⟩ := Prod.mk.inj h
              exact (verifyDenial_spends hv).mono fun hne => absurd rfl hne
            · rename_i st₁ hv
              obtain ⟨rfl, rfl⟩ := Prod.mk.inj h
              exact (verifyDenial_spends hv).mono fun _ => rfl
    · exact hskip _ h

theorem validateNsec_spends (h : validateNsec env keys qname qtype authority st = (status, st')) :
    Spends (status ≠ .Bogus) st st' := by
  obtain ⟨rfl, rfl⟩ := Prod.mk.inj h
  have hb := nsecBody_spends (Prod.eta (nsecBody env keys qname qtype authority
    (st.push (.denialCall .nsec keys qname qtype authority)))).symm
  exact (Spends.push rfl).after (hb.after (Spends.push rfl))

theorem validateNsec3_spends
    (h : validateNsec3 env keys qname qtype authority st = (status, st')) :
    Spends (status ≠ .Bogus) st st' := by
  obtain ⟨rfl, rfl⟩ := Prod.mk.inj h
  have hb := nsec3Body_spends (Prod.eta (nsec3Body env keys qname qtype authority
    (st.push (.denialCall .nsec3 keys qname qtype authority)))).symm
  exact (Spends.push rfl).after (hb.after (Spends.push rfl))

end

/-! ## the trust chain -/

section
variable {env : Env} {zone : Name} {st st' : State}

theorem Spends.setSigned {ok : Prop} {s s' : State} (h : Spends ok s s') (env : Env) (zone : Name)
    (x : ZoneSignedness) (ttl : UInt32) : Spends ok s (s'.setSigned env zone x ttl) :=
  h.trans (q := ok) (Spends.frame rfl rfl) id id

theorem Spends.setKeys {ok : Prop} {s s' : State} (h : Spends ok s s') (env : Env) (zone : Name)
    (keys : List Dnskey) (ttl : UInt32) : Spends ok s (s'.setKeys env zone keys ttl) :=
  h.trans (q := ok) (Spends.frame rfl rfl) id id

theorem DsVerdict.spends {parentKeys : List Dnskey} {dsMsg : Message} {status : DnssecStatus}
    (h : DsVerdict env zone parentKeys dsMsg st status st') : Spends (status ≠ .Bogus) st st' := by
  cases h with
  | nsec3 hv => exact validateNsec3_spends hv
  | nsec hv => exact validateNsec_spends hv
  | absent => exact Spends.refl _

theorem dsDenial_spends {parentKeys : List Dnskey} {dsMsg : Message} {o : DsOutcome}
    (h : dsDenial env zone parentKeys dsMsg st = (o, st')) :
    Spends (o ≠ .ret .Bogus) st st' := by
  cases dsDenial_end h with
  | unsigned hv => exact (hv.spends.mono fun _ => by decide).setSigned env zone .ProvenUnsigned _
  | skip hv => exact hv.spends.mono fun _ => by decide
  | bogus hv => exact hv.spends.mono fun hne => absurd rfl hne

theorem Spends.pushAnchors {ok : Prop} {s : State} (zone : Name) (ds : List Ds) :
    Spends ok s (s.pushAll (ds.map (Event.trustedDs zone))) := by
  refine Spends.frame rfl ?_
  show (s.log ++ ds.map (Event.trustedDs zone)).countP Event.isSigCheck = _
  have hz : (ds.map (Event.trustedDs zone)).countP Event.isSigCheck = 0 := by
    rw [List.countP_eq_zero]
    intro e he
    obtain ⟨d, _, rfl⟩ := List.mem_map.mp he
    exact Bool.false_ne_true
  rw [List.countP_append, hz]
  rfl

theorem dsResponse_spends {parentKeys : List Dnskey} {dsMsg : Message} {o : DsOutcome}
    (h : dsResponse env zone parentKeys dsMsg st = (o, st')) :
    Spends (o ≠ .ret .Bogus) st st' := by
  cases dsResponse_end h with
  | denial hd => exact dsDenial_spends hd
  | unsealed => exact Spends.refl _
  | bogus hl => exact (rrsigLoop_spends hl).mono fun hne => absurd rfl hne
  | unsigned hl _ _ =>
    exact ((Spends.push rfl).after ((rrsigLoop_spends hl).mono fun _ => by simp)).setSigned env zone
      .ProvenUnsigned _
  | anchors hl =>
    exact (Spends.pushAnchors zone _).after ((rrsigLoop_spends hl).mono fun _ => by simp)

theorem trustedDs_spends {parentKeys : Option (List Dnskey)} {o : DsOutcome}
    (h : trustedDs env zone parentKeys st = (o, st')) : Spends (o ≠ .ret .Bogus) st st' := by
  cases trustedDs_end h with
  | root => exact Spends.refl _
  | noParent => exact Spends.refl _
  | failed => exact Spends.next
  | response _ _ _ hresp =>
    exact (dsResponse_spends hresp).after ((Spends.push rfl).after Spends.next)

theorem dnskeyResponse_spends {anchors : List Anchor} {ttl : UInt32} {msg : Message}
    {o : Option (List Dnskey × UInt32)}
    (h : dnskeyResponse env zone anchors ttl msg st = (o, st')) : Spends (o ≠ none) st st' := by
  cases dnskeyResponse_end h with
  | unusable => exact Spends.refl _
  | bogus hl => exact (rrsigLoop_spends hl).mono fun hne => absurd rfl hne
  | keys hl _ _ => exact ((rrsigLoop_spends hl).mono fun _ => by simp).setKeys env zone _ _

theorem zoneKeys_spends {anchors : List Anchor} {ttl : UInt32}
    {o : Option (List Dnskey × UInt32)} (h : zoneKeys env zone anchors ttl st = (o, st')) :
    Spends (o ≠ none) st st' := by
  cases zoneKeys_end h with
  | failed => exact Spends.next
  | response _ hresp =>
    exact (dnskeyResponse_spends hresp).after ((Spends.push rfl).after Spends.next)

theorem cachedKeys_spends {ok : Prop} {o : Option (List Dnskey)}
    (h : cachedKeys env zone st = (o, st')) : Spends ok st st' := by
  unfold cachedKeys at h
  split at h
  · obtain ⟨rfl, rfl⟩ := Prod.mk.inj h
    exact Spends.refl _
  · split at h
    · obtain ⟨rfl, rfl⟩ := Prod.mk.inj h
      exact Spends.next
    · obtain ⟨rfl, rfl⟩ := Prod.mk.inj h
      exact Spends.next

theorem zoneStep_spends {keys : Option (List Dnskey)} {ttl : UInt32} {o : ZoneStep}
    (h : zoneStep env zone keys ttl st = (o, st')) : Spends (o ≠ .done .Bogus) st st' := by
  cases zoneStep_end h with
  | cached hc => exact cachedKeys_spends hc
  | @ret r _ _ hc hd =>
    have hs := (trustedDs_spends hd).mono fun (hne : ZoneStep.done r ≠ .done .Bogus) he =>
      hne (by rw [DsOutcome.ret.inj he])
    exact hs.after (cachedKeys_spends hc)
  | skip hc hd => exact ((trustedDs_spends hd).mono fun _ => by simp).after (cachedKeys_spends hc)
  | noKeys hc hd hz =>
    refine ((zoneKeys_spends hz).mono fun hne => absurd rfl hne).after ?_
    exact ((trustedDs_spends hd).mono fun _ => by simp).after (cachedKeys_spends hc)
  | keys hc hd hz =>
    refine ((zoneKeys_spends hz).mono fun _ => by simp).after ?_
    exact ((trustedDs_spends hd).mono fun _ => by simp).after (cachedKeys_spends hc)

theorem walkPath_spends (path : List Name) {keys : Option (List Dnskey)} {ttl : UInt32}
    {r : ChainResult} (h : walkPath env path keys ttl st = (r, st')) :
    Spends (r ≠ .Bogus) st st' := by
  induction path generalizing keys ttl st with
  | nil =>
    cases keys with
    | none =>
      obtain ⟨rfl, rfl⟩ := Prod.mk.inj h
      exact Spends.refl _
    | some keys =>
      obtain ⟨rfl, rfl⟩ := Prod.mk.inj h
      exact Spends.refl _
  | cons zone rest ih =>
    cases hz : zoneStep env zone keys ttl st with
    | mk o st₁ =>
      have hs := zoneStep_spends hz
      cases o with
      | done r₁ =>
        simp only [walkPath, hz, Prod.mk.injEq] at h
        obtain ⟨rfl, rfl⟩ := h
        exact hs.mono fun hne he => hne (ZoneStep.done.inj he)
      | go keys' ttl' =>
        simp only [walkPath, hz] at h
        exact (ih h).after (hs.mono fun _ => by simp)

theorem buildTrustChain_spends {r : ChainResult} (h : buildTrustChain env zone st = (r, st')) :
    Spends (r ≠ .Bogus) st st' :=
  walkPath_spends _ h

/-! ## is a zone signed? -/

theorem signedLookup_spends {ok : Prop} (name : Name) (path : List Name)
    {o : Option ZoneSignedness} (h : signedLookup env name path st = (o, st')) :
    Spends ok st st' := by
  induction path generalizing st with
  | nil =>
    obtain ⟨rfl, rfl⟩ := Prod.mk.inj h
    exact Spends.refl _
  | cons cur rest ih =>
    unfold signedLookup at h
    split at h
    · exact ih h
    · split at h
      · split at h
        · obtain ⟨rfl, rfl⟩ := Prod.mk.inj h
          exact Spends.next
        · split at h
          · obtain ⟨rfl, rfl⟩ := Prod.mk.inj h
            exact Spends.next
          · exact (ih h).after Spends.next
        · exact (ih h).after Spends.next
      · exact (ih h).after Spends.next

theorem findZoneApexLoop_spends {ok : Prop} (name : Name) (path : List Name) {o : Option Name}
    (h : findZoneApexLoop env name path st = (o, st')) : Spends ok st st' := by
  induction path generalizing st with
  | nil =>
    obtain ⟨rfl, rfl⟩ := Prod.mk.inj h
    exact Spends.refl _
  | cons candidate rest ih =>
    unfold findZoneApexLoop at h
    split at h
    · exact (ih h).after Spends.next
    · split at h
      · obtain ⟨rfl, rfl⟩ := Prod.mk.inj h
        exact Spends.next
      · exact (ih h).after Spends.next

theorem isZoneSigned_spends {name : Name} {s : ZoneSignedness}
    (h : isZoneSigned env name st = (s, st')) : Spends (s ≠ .Unknown) st st' := by
  rcases isZoneSigned_cases h with hl | ⟨st₁, apex, st₂, zone, st₃, hl, ha, _, hend⟩
  · exact signedLookup_spends name _ hl
  · have hpre : ∀ {ok}, Spends ok st st₂ :=
      (findZoneApexLoop_spends name _ ha).after (signedLookup_spends name _ hl)
    rcases hend with ⟨keys, ttl, hb, rfl, rfl⟩ | ⟨ttl, hb, rfl, rfl⟩ | ⟨hb, rfl, rfl⟩
    · exact (((buildTrustChain_spends hb).mono fun _ => by simp).after hpre).setSigned env _
        .Signed _
    · exact (((buildTrustChain_spends hb).mono fun _ => by simp).after hpre).setSigned env _
        .ProvenUnsigned _
    · have hs := ((buildTrustChain_spends hb).mono
        fun (hne : ZoneSignedness.Unknown ≠ .Unknown) => absurd rfl hne).after hpre
      exact (Spends.push rfl).after hs

end

/-! ## answers -/

section
variable {env : Env} {owner : Name} {t : RecordType} {records answers : List Record}
  {status : DnssecStatus} {st st' : State}

theorem candidateLoop_spends (candidates : List Record) {anyTrusted : Bool}
    (h : candidateLoop env records candidates anyTrusted st = (status, st')) :
    Spends (status ≠ .Bogus) st st' := by
  induction candidates generalizing anyTrusted st with
  | nil =>
    obtain ⟨rfl, rfl⟩ := Prod.mk.inj h
    exact Spends.refl _
  | cons rec rest ih =>
    unfold candidateLoop at h
    split at h
    · split at h
      · rename_i hb
        have hchain := buildTrustChain_spends hb
        split at h
        · rename_i hs
          obtain ⟨rfl, rfl⟩ := Prod.mk.inj h
          exact hchain.trans (search_spends (fun _ _ _ _ hk => checkKey_spends hk) _ hs)
            (fun _ => by simp) fun _ => by simp
        · rename_i hs
          obtain ⟨rfl, rfl⟩ := Prod.mk.inj h
          exact hchain.trans (search_spends (fun _ _ _ _ hk => checkKey_spends hk) _ hs)
            (fun _ => by simp) fun hne => absurd rfl hne
        · rename_i hs
          have hkeys : Spends (status ≠ .Bogus) st _ :=
            hchain.trans (search_spends (fun _ _ _ _ hk => checkKey_spends hk) _ hs)
              (fun _ => by simp) fun _ => by simp
          exact (ih h).after hkeys
      · rename_i hb
        exact (ih h).after ((buildTrustChain_spends hb).mono fun _ => by simp)
      · rename_i hb
        obtain ⟨rfl, rfl⟩ := Prod.mk.inj h
        exact (buildTrustChain_spends hb).mono fun hne => absurd rfl hne
    · exact ih h

theorem validateRrset_spends (h : validateRrset env owner t records answers st = (status, st')) :
    Spends status.settled st st' := by
  simp only [validateRrset] at h
  split at h
  · obtain ⟨rfl, rfl⟩ := Prod.mk.inj h
    refine (isZoneSigned_spends (Prod.eta (isZoneSigned env owner st)).symm).mono fun hs he => ?_
    rw [he] at hs
    exact hs
  · split at h
    · obtain ⟨rfl, rfl⟩ := Prod.mk.inj h
      exact Spends.next
    · refine ((candidateLoop_spends _ h).mono fun hs he => ?_).after Spends.next
      rw [he] at hs
      exact hs

theorem validateAt_spends (h : validateAt env owner t answers st = (status, st')) :
    Spends status.settled st st' := by
  simp only [validateAt] at h
  split at h
  · obtain ⟨rfl, rfl⟩ := Prod.mk.inj h
    exact Spends.refl _
  · exact validateRrset_spends h

theorem validateStep_spends {step : RedirectionStep}
    (h : validateStep env answers step st = (status, st')) : Spends status.settled st st' := by
  cases step with
  | Cname owner target => exact validateAt_spends h
  | Dname dnameOwner target inputName redirectedName =>
    simp only [validateStep] at h
    split at h
    · rename_i st₁ hd
      have hs := validateAt_spends hd
      split at h
      · exact (validateRrset_spends h).after (hs.mono fun _ => trivial)
      · obtain ⟨rfl, rfl⟩ := Prod.mk.inj h
        exact hs
    · rename_i hd
      obtain ⟨rfl, rfl⟩ := Prod.mk.inj h
      exact validateAt_spends hd

theorem validateSteps_spends (chain : List RedirectionStep)
    (h : validateSteps env answers chain st = (status, st')) : Spends status.settled st st' := by
  induction chain generalizing st with
  | nil =>
    obtain ⟨rfl, rfl⟩ := Prod.mk.inj h
    exact Spends.refl _
  | cons step rest ih =>
    unfold validateSteps at h
    split at h
    · rename_i hs
      exact (ih h).after ((validateStep_spends hs).mono fun _ => trivial)
    · rename_i hs
      obtain ⟨rfl, rfl⟩ := Prod.mk.inj h
      exact validateStep_spends hs

theorem validateFinal_spends {chain : List RedirectionStep}
    (h : validateFinal env owner t chain answers st = (status, st')) :
    Spends status.settled st st' := by
  simp only [validateFinal] at h
  split at h
  · rename_i hs
    have hsteps := (validateSteps_spends chain hs).mono fun (_ : status.settled) => trivial
    split at h
    · obtain ⟨rfl, rfl⟩ := Prod.mk.inj h
      exact hsteps
    · exact (validateRrset_spends h).after hsteps
  · rename_i hs
    obtain ⟨rfl, rfl⟩ := Prod.mk.inj h
    exact validateSteps_spends chain hs

theorem validateAnswer_spends (h : validateAnswer env owner t answers st = (status, st')) :
    Spends status.settled st st' := by
  simp only [validateAnswer] at h
  split at h
  · exact validateFinal_spends h
  · split at h
    · exact validateFinal_spends h
    · obtain ⟨rfl, rfl⟩ := Prod.mk.inj h
      exact Spends.refl _
    · obtain ⟨rfl, rfl⟩ := Prod.mk.inj h
      exact Spends.refl _

end

/-! ## messages -/

section
variable {env : Env} {msg : Message} {qname : Name} {qtype : RecordType} {status : DnssecStatus}
  {st st' : State}

/-- a settled verdict is not `Bogus` -/
theorem DnssecStatus.settled.ne_bogus (h : status.settled) : status ≠ .Bogus := by
  intro he
  rw [he] at h
  exact h

theorem negativeProof_spends {keys : List Dnskey} {authority : List Record}
    (h : negativeProof env keys qname qtype authority st = (status, st')) :
    Spends status.settled st st' := by
  simp only [negativeProof] at h
  split at h
  · exact (validateNsec3_spends h).mono DnssecStatus.settled.ne_bogus
  · split at h
    · exact (validateNsec_spends h).mono DnssecStatus.settled.ne_bogus
    · obtain ⟨rfl, rfl⟩ := Prod.mk.inj h
      exact Spends.refl _

theorem validateNegative_spends (h : validateNegative env msg qname qtype st = (status, st')) :
    Spends status.settled st st' := by
  simp only [validateNegative] at h
  split at h
  · obtain ⟨rfl, rfl⟩ := Prod.mk.inj h
    exact Spends.refl _
  · split at h
    · obtain ⟨rfl, rfl⟩ := Prod.mk.inj h
      exact Spends.refl _
    · split at h
      · rename_i hb
        obtain ⟨rfl, rfl⟩ := Prod.mk.inj h
        exact (buildTrustChain_spends hb).mono fun _ => by simp
      · rename_i hb
        obtain ⟨rfl, rfl⟩ := Prod.mk.inj h
        exact (buildTrustChain_spends hb).mono fun hs => absurd hs id
      · rename_i hb
        have hchain := (buildTrustChain_spends hb).mono fun (_ : status.settled) => by simp
        split at h
        · rename_i hv
          obtain ⟨rfl, rfl⟩ := Prod.mk.inj h
          exact ((verifyNegativeRrset_spends hv).mono fun hs => absurd hs id).after hchain
        · rename_i hv
          exact (negativeProof_spends h).after
            (((verifyNegativeRrset_spends hv).mono fun _ => rfl).after hchain)

theorem validateMessageWithBudget_spends
    (h : validateMessageWithBudget env msg qname qtype st = (status, st')) :
    Spends status.settled st st' := by
  simp only [validateMessageWithBudget] at h
  split at h
  · exact validateNegative_spends h
  · split at h
    · exact validateNegative_spends h
    · split at h
      · rename_i ha
        obtain ⟨rfl, rfl⟩ := Prod.mk.inj h
        exact (validateAnswer_spends ha).mono fun _ => trivial
      · rename_i ha
        obtain ⟨rfl, rfl⟩ := Prod.mk.inj h
        exact validateAnswer_spends ha
  · obtain ⟨rfl, rfl⟩ := Prod.mk.inj h
    exact Spends.refl _

/-- **The signature budget is global and fails closed.**  One validation calls `verify_rrsig` at
most `PER_VALIDATION_MAX_SIG_CHECKS` times; if `can_check_sig` was refused anywhere on the way,
the verdict is `Bogus` or `InsecureUnknown`. -/
theorem validateMessage_budget (env : Env) (msg : Message) (qname : Name) (qtype : RecordType)
    (st : State) :
    (validateMessage env msg qname qtype st).2.log.countP Event.isSigCheck ≤
        st.log.countP Event.isSigCheck + 24 ∧
      ((validateMessage env msg qname qtype st).2.budget.refused = true →
        (validateMessage env msg qname qtype st).1 = .Bogus ∨
          (validateMessage env msg qname qtype st).1 = .InsecureUnknown) := by
  have hs := validateMessageWithBudget_spends
    (Prod.eta (validateMessageWithBudget env msg qname qtype { st with budget := {} })).symm
  change Spends (validateMessage env msg qname qtype st).1.settled { st with budget := {} }
    (validateMessage env msg qname qtype st).2 at hs
  have hpaid := hs.paid
  have hmax := hs.max
  have hwithin := hs.within (Nat.zero_le _)
  refine ⟨?_, fun href => ?_⟩
  · -- the counter started at zero
    change (validateMessage env msg qname qtype st).2.checks + 0 = st.checks + _ at hpaid
    change _ = perValidationMaxSigChecks at hmax
    rw [hmax] at hwithin
    show State.checks _ ≤ State.checks _ + perValidationMaxSigChecks
    omega
  · have hclosed := hs.closed
    rw [href] at hclosed
    cases hv : (validateMessage env msg qname qtype st).1 with
    | Bogus => exact Or.inl rfl
    | InsecureUnknown => exact Or.inr rfl
    | Secure =>
      rw [hv] at hclosed
      exact absurd (hclosed trivial).symm Bool.false_ne_true
    | InsecureUnsigned =>
      rw [hv] at hclosed
      exact absurd (hclosed trivial).symm Bool.false_ne_true

end
end DnsResolver
