import DnsResolver.Dnssec.DnameAnswer

/-!
# Bogus RRsets of an answer

`validate_answer` hands the RRsets of an answer to `validate_rrset` one after the other and returns
at the first verdict that is not Secure.  An insecure alias in front hides whatever comes behind
it, also an RRset that would be Bogus.

* `passedPairs`            the RRsets in the order of the calls;
* `verdictRun`             the verdict on every one of them, each reached with the caches and the
                           budget the ones before left, and with nothing cut short;
* `validateAnswer_eq`      the verdict on the answer is the first one that is not Secure;
* `bogus_dominates_iff`    a Bogus RRset makes the answer Bogus exactly if no insecure one stands
                           in front of it;
* `hiddenBogus_run`        an answer in which one does.
-/

namespace DnsResolver
open Trace

/-- the RRset at the end of the chain, if there is one -/
def finalPairs (name : Name) (rtype : RecordType) (chain : List RedirectionStep)
    (answers : List Record) : List (Name × RecordType) :=
  if (answers.filter (Record.isAt (finalOwner name chain) rtype)).isEmpty then []
  else [(finalOwner name chain, rtype)]

/-- the RRsets along a chain that `validate_answer` hands to `validate_rrset` -/
def chainPairs (name : Name) (rtype : RecordType) (chain : List RedirectionStep)
    (answers : List Record) : List (Name × RecordType) :=
  chain.flatMap (stepPairs answers) ++ finalPairs name rtype chain answers

/-- every RRset `validate_answer` hands to `validate_rrset` -/
def passedPairs (tx : Presentation) (name : Name) (rtype : RecordType) (answers : List Record) :
    List (Name × RecordType) :=
  if rtype = .CNAME then chainPairs name rtype [] answers
  else
    match collectRedirectionChain tx name answers with
    | .Complete chain => chainPairs name rtype chain answers
    | _ => []

section
variable (env : Env) (answers : List Record)

/-- the RRset `p` of the section -/
def pairRrset (p : Name × RecordType) : List Record := answers.filter (Record.isAt p.1 p.2)

/-- the verdicts on the RRsets and the states they leave, one after the other -/
def verdictRun : List (Name × RecordType) → State → List (DnssecStatus × State)
  | [], _ => []
  | p :: rest, st =>
    let v := validateRrset env p.1 p.2 (pairRrset answers p) answers st
    v :: verdictRun rest v.2

end

/-- the first verdict other than `Secure` -/
def firstOther (vs : List (DnssecStatus × State)) : Option DnssecStatus :=
  (vs.map Prod.fst).find? fun s => decide (s ≠ .Secure)

/-- Bogus, and not for want of budget -/
def genuinelyBogus (v : DnssecStatus × State) : Prop :=
  v.1 = .Bogus ∧ v.2.budget.refused = false

/-! ## the RRsets are there -/

section
variable {tx : Presentation} {answers : List Record} {name : Name} {step : RedirectionStep}

theorem pairRrset_ne_nil {p : Name × RecordType} {r : Record} (hr : r ∈ answers)
    (h : r.isAt p.1 p.2 = true) : pairRrset answers p ≠ [] := by
  intro hnil
  have hm : r ∈ pairRrset answers p := List.mem_filter.mpr ⟨hr, h⟩
  rw [hnil] at hm
  exact absurd hm List.not_mem_nil

theorem cnameTarget_some {target : Name} (h : cnameTarget name answers = some target) :
    ∃ r ∈ answers, r.isAt name .CNAME = true := by
  obtain ⟨r, hr, hs⟩ := List.exists_of_findSome?_eq_some h
  split at hs
  · rename_i hc
    exact ⟨r, hr, hc⟩
  · exact absurd hs (by simp)

theorem dnameStep_some {owner target sub : Name}
    (h : dnameStep tx name answers = some (owner, target, sub)) :
    ∃ r ∈ answers, r.isAt owner .DNAME = true := by
  obtain ⟨r, hr, hs⟩ := List.exists_of_findSome?_eq_some h
  split at hs
  · rename_i hc
    rw [Bool.and_eq_true, Bool.and_eq_true, decide_eq_true_eq] at hc
    split at hs
    · exact absurd hs (by simp)
    · split at hs
      · simp only [Option.some.injEq, Prod.mk.injEq] at hs
        refine ⟨r, hr, Record.isAt_iff.mpr ⟨?_, hc.1.1⟩⟩
        rw [hs.1]
        exact Name.nameEq_refl _
      · exact absurd hs (by simp)
  · exact absurd hs (by simp)

theorem stepPairs_ne_nil (h : redirection tx name answers = some step) :
    ∀ p ∈ stepPairs answers step, pairRrset answers p ≠ [] := by
  intro p hp
  unfold redirection at h
  split at h
  · rename_i target ht
    obtain rfl := Option.some.inj h
    obtain rfl := List.mem_singleton.mp hp
    obtain ⟨r, hr, hat⟩ := cnameTarget_some ht
    exact pairRrset_ne_nil hr hat
  · split at h
    · rename_i owner target sub hd
      obtain rfl := Option.some.inj h
      rcases List.mem_cons.mp hp with rfl | hp
      · obtain ⟨r, hr, hat⟩ := dnameStep_some hd
        exact pairRrset_ne_nil hr hat
      · split at hp
        · rename_i hc
          obtain rfl := List.mem_singleton.mp hp
          rw [Bool.and_eq_true, Bool.not_eq_true'] at hc
          exact fun hnil => by
            have hemp := List.isEmpty_iff.mpr hnil
            exact absurd (hc.1.symm.trans hemp) (by decide)
        · exact absurd hp List.not_mem_nil
    · exact absurd h (by simp)

theorem chainSteps_ne_nil {chain : List RedirectionStep}
    (h : collectRedirectionChain tx name answers = .Complete chain) :
    ∀ p ∈ chain.flatMap (stepPairs answers), pairRrset answers p ≠ [] := by
  obtain ⟨last, hp, _⟩ := collectRedirectionChain_complete.mp h
  intro p hm
  obtain ⟨step, hs, hp'⟩ := List.mem_flatMap.mp hm
  obtain ⟨n, hn⟩ := hp.step_mem step hs
  exact stepPairs_ne_nil hn p hp'

end

/-! ## the verdict is the first that is not Secure -/

section
variable {env : Env} {answers : List Record}

theorem validateAt_eq {p : Name × RecordType} (h : pairRrset answers p ≠ []) (st : State) :
    validateAt env p.1 p.2 answers st =
      validateRrset env p.1 p.2 (pairRrset answers p) answers st := by
  rw [validateAt, if_neg]
  · rfl
  · exact fun hemp => h (List.isEmpty_iff.mp hemp)

theorem firstOther_cons_secure {v : DnssecStatus × State} (h : v.1 = .Secure)
    (vs : List (DnssecStatus × State)) : firstOther (v :: vs) = firstOther vs := by
  simp only [firstOther, List.map_cons, h, ne_eq, not_true_eq_false, decide_false,
    Bool.false_eq_true, not_false_eq_true, List.find?_cons_of_neg]

theorem firstOther_cons_other {v : DnssecStatus × State} (h : v.1 ≠ .Secure)
    (vs : List (DnssecStatus × State)) : firstOther (v :: vs) = some v.1 := by
  simp only [firstOther, List.map_cons, ne_eq, h, not_false_eq_true, decide_true,
    List.find?_cons_of_pos]

theorem search_verdictRun (env : Env) {pairs : List (Name × RecordType)}
    (hne : ∀ p ∈ pairs, pairRrset answers p ≠ []) (more : List (Name × RecordType)) (st : State) :
    (∀ status s, search (checkPair env answers) pairs st = (.hit status, s) →
      firstOther (verdictRun env answers (pairs ++ more) st) = some status) ∧
    (∀ s, search (checkPair env answers) pairs st = (.miss, s) →
      firstOther (verdictRun env answers (pairs ++ more) st) =
        firstOther (verdictRun env answers more s)) := by
  induction pairs generalizing st with
  | nil =>
    constructor
    · intro status s h
      exact absurd (Prod.mk.inj h).1 (by simp)
    · intro s h
      obtain rfl := (Prod.mk.inj h).2
      rfl
  | cons p rest ih =>
    have ih' := ih fun q hq => hne q (List.mem_cons_of_mem _ hq)
    have hat : validateAt env p.1 p.2 answers st = _ := validateAt_eq (hne p List.mem_cons_self) st
    rw [List.cons_append, verdictRun]
    by_cases hs : (validateRrset env p.1 p.2 (pairRrset answers p) answers st).1 = .Secure
    · have hmiss : checkPair env answers p st =
          (.miss, (validateRrset env p.1 p.2 (pairRrset answers p) answers st).2) :=
        checkPair_secure (by rw [hat, ← hs])
      rw [search_cons_miss hmiss, firstOther_cons_secure hs]
      exact ih' _
    · have hhit : checkPair env answers p st =
          (.hit (validateRrset env p.1 p.2 (pairRrset answers p) answers st).1,
            (validateRrset env p.1 p.2 (pairRrset answers p) answers st).2) :=
        checkPair_other hs (by rw [hat])
      rw [search, hhit, firstOther_cons_other hs]
      constructor
      · intro status s h
        rw [Result.hit.inj (Prod.mk.inj h).1]
      · intro s h
        exact absurd (Prod.mk.inj h).1 (by simp)

theorem validateFinal_eq {name : Name} {rtype : RecordType} {chain : List RedirectionStep}
    (hne : ∀ p ∈ chain.flatMap (stepPairs answers), pairRrset answers p ≠ []) (st : State) :
    (validateFinal env name rtype chain answers st).1 =
      (firstOther (verdictRun env answers (chainPairs name rtype chain answers) st)).getD
        (if (finalPairs name rtype chain answers).isEmpty then .InsecureUnknown else .Secure) := by
  obtain ⟨hhit, hmiss⟩ := search_verdictRun env hne (finalPairs name rtype chain answers) st
  simp only [validateFinal, validateSteps_eq, chainPairs]
  cases hs : search (checkPair env answers) (chain.flatMap (stepPairs answers)) st with
  | mk r s =>
    cases r with
    | hit status =>
      rw [hhit status s hs]
      obtain ⟨p, _, s₁, _, hp⟩ := search_hit (R := fun _ _ => True) (fun _ => trivial)
        (fun _ _ _ _ _ => trivial) _ (fun _ _ _ => trivial) hs
      have hother := (checkPair_hit hp).1
      cases status <;> first | rfl | exact absurd rfl hother
    | stop => exact (searchPairs_ne_stop _ hs).elim
    | miss =>
      rw [hmiss s hs]
      simp only [searchStatus, finalPairs]
      split
      · rfl
      · simp only [verdictRun, pairRrset, List.isEmpty_cons, Bool.false_eq_true, if_false]
        by_cases hsec : (validateRrset env (finalOwner name chain) rtype
            (answers.filter (Record.isAt (finalOwner name chain) rtype)) answers s).1 = .Secure
        · rw [firstOther_cons_secure hsec, hsec]
          rfl
        · rw [firstOther_cons_other hsec]
          rfl

theorem validateAnswer_eq {name : Name} {rtype : RecordType} {st : State} {status : DnssecStatus}
    (h : firstOther (verdictRun env answers (passedPairs env.text name rtype answers) st) =
      some status) : (validateAnswer env name rtype answers st).1 = status := by
  unfold passedPairs at h
  unfold validateAnswer
  by_cases hr : rtype = .CNAME
  · rw [if_pos hr] at h ⊢
    rw [validateFinal_eq (fun p hp => absurd hp List.not_mem_nil), h]
    rfl
  · rw [if_neg hr] at h ⊢
    cases hc : collectRedirectionChain env.text name answers with
    | Complete chain =>
      rw [hc] at h
      show (validateFinal env name rtype chain answers st).1 = status
      rw [validateFinal_eq (chainSteps_ne_nil hc), h]
      rfl
    | Loop =>
      rw [hc] at h
      exact absurd h (by simp [verdictRun, firstOther])
    | TooLong =>
      rw [hc] at h
      exact absurd h (by simp [verdictRun, firstOther])

end

/-! ## what hides a Bogus RRset -/

/-- an insecure verdict comes after Secure ones only, and a Bogus one behind it -/
def HiddenBogus (vs : List (DnssecStatus × State)) : Prop :=
  ∃ front v back, vs = front ++ v :: back ∧ (∀ w ∈ front, w.1 = .Secure) ∧
    (v.1 = .InsecureUnsigned ∨ v.1 = .InsecureUnknown) ∧ ∃ w ∈ back, genuinelyBogus w

theorem firstOther_split {vs : List (DnssecStatus × State)} {w : DnssecStatus × State}
    (hw : w ∈ vs) (hne : w.1 ≠ .Secure) :
    ∃ front v back, vs = front ++ v :: back ∧ (∀ u ∈ front, u.1 = .Secure) ∧ v.1 ≠ .Secure ∧
      firstOther vs = some v.1 ∧ (w = v ∨ w ∈ back) := by
  induction vs with
  | nil => exact absurd hw List.not_mem_nil
  | cons u rest ih =>
    by_cases hu : u.1 = .Secure
    · have hrest : w ∈ rest := by
        rcases List.mem_cons.mp hw with rfl | h
        · exact absurd hu hne
        · exact h
      obtain ⟨front, v, back, rfl, hf, hv, hfirst, hmem⟩ := ih hrest
      refine ⟨u :: front, v, back, rfl, ?_, hv, ?_, hmem⟩
      · intro x hx
        rcases List.mem_cons.mp hx with rfl | hx
        · exact hu
        · exact hf x hx
      · rw [firstOther_cons_secure hu, hfirst]
    · exact ⟨[], u, rest, rfl, fun x hx => absurd hx List.not_mem_nil, hu,
        firstOther_cons_other hu rest, List.mem_cons.mp hw⟩

theorem firstOther_append {front : List (DnssecStatus × State)} {v : DnssecStatus × State}
    (hf : ∀ w ∈ front, w.1 = .Secure) (hv : v.1 ≠ .Secure) (back : List (DnssecStatus × State)) :
    firstOther (front ++ v :: back) = some v.1 := by
  induction front with
  | nil => exact firstOther_cons_other hv back
  | cons u rest ih =>
    rw [List.cons_append, firstOther_cons_secure (hf u List.mem_cons_self)]
    exact ih fun w hw => hf w (List.mem_cons_of_mem _ hw)

/-- **A Bogus RRset makes the answer Bogus exactly if it is not hidden** behind an insecure one. -/
theorem bogus_dominates_iff (env : Env) (name : Name) (rtype : RecordType)
    (answers : List Record) (st : State) :
    ((∃ w ∈ verdictRun env answers (passedPairs env.text name rtype answers) st,
        genuinelyBogus w) → (validateAnswer env name rtype answers st).1 = .Bogus) ↔
      ¬ HiddenBogus (verdictRun env answers (passedPairs env.text name rtype answers) st) := by
  constructor
  · rintro hdom ⟨front, v, back, hvs, hf, hv, w, hw, hb⟩
    have hbogus := hdom ⟨w, by rw [hvs]; exact List.mem_append_right _ (List.mem_cons_of_mem _ hw),
      hb⟩
    have hne : v.1 ≠ .Secure := by rcases hv with h | h <;> rw [h] <;> decide
    have hfirst := firstOther_append hf hne back
    rw [← hvs] at hfirst
    rw [validateAnswer_eq hfirst] at hbogus
    rcases hv with h | h <;> rw [h] at hbogus <;> exact absurd hbogus (by decide)
  · rintro hno ⟨w, hw, hb⟩
    obtain ⟨front, v, back, hvs, hf, hne, hfirst, hmem⟩ :=
      firstOther_split hw (by rw [hb.1]; decide)
    rw [validateAnswer_eq hfirst]
    cases hs : v.1 with
    | Bogus => rfl
    | Secure => exact absurd hs hne
    | InsecureUnsigned =>
      rcases hmem with rfl | hmem
      · exact absurd (hb.1.symm.trans hs) (by decide)
      · exact absurd ⟨front, v, back, hvs, hf, Or.inl hs, w, hmem, hb⟩ hno
    | InsecureUnknown =>
      rcases hmem with rfl | hmem
      · exact absurd (hb.1.symm.trans hs) (by decide)
      · exact absurd ⟨front, v, back, hvs, hf, Or.inr hs, w, hmem, hb⟩ hno

/-! ## an insecure alias of a forged address -/

/-- `a.u.`, in a zone without signatures -/
def aliasName : Name := ⟨[[97], [117]], by decide⟩

/-- the alias leads to `t.`, whose address nobody signed -/
def hiddenAnswers : List Record :=
  [{ name := aliasName, ttl := 300, data := .cname targetName },
    { name := targetName, ttl := 300, data := .a ⟨#v[192, 0, 2, 82]⟩ },
    rootRrsig targetName .A .IN]

/-- `u.` is known to be unsigned -/
def hiddenState : State where
  signedZoneCache := fun key => if key = [[117]] then some ⟨.ProvenUnsigned, 2000⟩ else none

/-- the address of `t.` is Bogus, the answer is InsecureUnsigned -/
theorem hiddenBogus_run :
    (∃ w ∈ verdictRun rootEnv hiddenAnswers (passedPairs noText aliasName .A hiddenAnswers)
        hiddenState, genuinelyBogus w) ∧
      (validateAnswer rootEnv aliasName .A hiddenAnswers hiddenState).1 = .InsecureUnsigned := by
  refine ⟨⟨(verdictRun rootEnv hiddenAnswers [(aliasName, .CNAME), (targetName, .A)]
    hiddenState)[1], ?_, by decide +kernel, by decide +kernel⟩, by decide +kernel⟩
  have hpairs : passedPairs noText aliasName .A hiddenAnswers =
      [(aliasName, .CNAME), (targetName, .A)] := by decide +kernel
  rw [hpairs]
  exact List.getElem_mem _

end DnsResolver
