import DnsResolver.Dnssec.RrsetCheck

/-!
# Which RRsets of an answer are checked

`validate_answer` checks a list of RRsets, given by owner and type, one after the other.

* `answerPairs`         that list: one or two entries per redirection step, then the RRset at the
                        end of the chain;
* `validateAnswer_ok`   what each verdict on an answer says about the list;
* `redirectionNames`    the queried name and the names its redirections lead to; every owner of
                        the list is one of them or above one.
-/

namespace DnsResolver
open Trace

/-! ## the list -/

/-- the RRsets a redirection step is checked by; a CNAME next to a DNAME only if it is signed -/
def stepPairs (answers : List Record) : RedirectionStep → List (Name × RecordType)
  | .Cname owner _ => [(owner, .CNAME)]
  | .Dname dnameOwner _ inputName _ =>
    (dnameOwner, .DNAME) ::
      if !(answers.filter (Record.isAt inputName .CNAME)).isEmpty &&
          answers.any (Record.isRrsigOver inputName .CNAME) then [(inputName, .CNAME)]
      else []

def answerChain (tx : Presentation) (name : Name) (rtype : RecordType) (answers : List Record) :
    List RedirectionStep :=
  if rtype = .CNAME then []
  else
    match collectRedirectionChain tx name answers with
    | .Complete chain => chain
    | .Loop => []
    | .TooLong => []

/-- the RRset at the end of the chain -/
def finalPair (tx : Presentation) (name : Name) (rtype : RecordType) (answers : List Record) :
    Name × RecordType :=
  (finalOwner name (answerChain tx name rtype answers), rtype)

def answerPairs (tx : Presentation) (name : Name) (rtype : RecordType) (answers : List Record) :
    List (Name × RecordType) :=
  (answerChain tx name rtype answers).flatMap (stepPairs answers) ++
    [finalPair tx name rtype answers]

/-! ## the checks, one after the other -/

/-- one RRset as a try of a search for a verdict other than `Secure` -/
def checkPair (env : Env) (answers : List Record) (p : Name × RecordType) (st : State) :
    Result DnssecStatus × State :=
  match validateAt env p.1 p.2 answers st with
  | (.Secure, st) => (.miss, st)
  | (status, st) => (.hit status, st)

/-- `Secure` if the search found nothing else -/
def searchStatus : Result DnssecStatus × State → DnssecStatus × State
  | (.hit status, st) => (status, st)
  | (.stop, st) => (.Secure, st)
  | (.miss, st) => (.Secure, st)

section
variable {env : Env} {answers : List Record}

theorem checkPair_secure {p : Name × RecordType} {st st' : State}
    (h : validateAt env p.1 p.2 answers st = (.Secure, st')) :
    checkPair env answers p st = (.miss, st') := by
  rw [checkPair, h]

theorem checkPair_other {p : Name × RecordType} {st st' : State} {status : DnssecStatus}
    (hne : status ≠ .Secure) (h : validateAt env p.1 p.2 answers st = (status, st')) :
    checkPair env answers p st = (.hit status, st') := by
  rw [checkPair, h]
  cases status <;> first | rfl | exact absurd rfl hne

theorem checkPair_hit {p : Name × RecordType} {st st' : State} {status : DnssecStatus}
    (h : checkPair env answers p st = (.hit status, st')) :
    status ≠ .Secure ∧ validateAt env p.1 p.2 answers st = (status, st') := by
  cases hv : validateAt env p.1 p.2 answers st with
  | mk s s' =>
    cases s with
    | Secure => rw [checkPair_secure hv] at h; exact absurd (Prod.mk.inj h).1 (by simp)
    | _ =>
      rw [checkPair_other (by decide) hv] at h
      obtain ⟨hs, rfl⟩ := Prod.mk.inj h
      obtain rfl := Result.hit.inj hs
      exact ⟨by decide, rfl⟩

theorem checkPair_miss {p : Name × RecordType} {st st' : State}
    (h : checkPair env answers p st = (.miss, st')) :
    validateAt env p.1 p.2 answers st = (.Secure, st') := by
  cases hv : validateAt env p.1 p.2 answers st with
  | mk s s' =>
    cases s with
    | Secure =>
      rw [checkPair_secure hv] at h
      rw [(Prod.mk.inj h).2]
    | _ => rw [checkPair_other (by decide) hv] at h; exact absurd (Prod.mk.inj h).1 (by simp)

theorem searchPairs_ne_stop (pairs : List (Name × RecordType)) {st st' : State}
    (h : search (checkPair env answers) pairs st = (.stop, st')) : False := by
  obtain ⟨p, _, s₁, hp⟩ := search_stop _ h
  cases hv : validateAt env p.1 p.2 answers s₁ with
  | mk s s' =>
    cases s with
    | Secure => rw [checkPair_secure hv] at hp; exact absurd (Prod.mk.inj hp).1 (by simp)
    | _ =>
      rw [checkPair_other (by decide) hv] at hp
      exact absurd (Prod.mk.inj hp).1 (by simp)

theorem searchStatus_other (p : Name × RecordType) (rest : List (Name × RecordType))
    {st st' : State} {status : DnssecStatus} (hne : status ≠ .Secure)
    (h : validateAt env p.1 p.2 answers st = (status, st')) :
    searchStatus (search (checkPair env answers) (p :: rest) st) = (status, st') := by
  rw [search, checkPair_other hne h]
  rfl

theorem searchStatus_secure (p : Name × RecordType) (rest : List (Name × RecordType))
    {st st' : State} (h : validateAt env p.1 p.2 answers st = (.Secure, st')) :
    searchStatus (search (checkPair env answers) (p :: rest) st) =
      searchStatus (search (checkPair env answers) rest st') := by
  rw [search_cons_miss (checkPair_secure h)]

theorem validateStep_eq (step : RedirectionStep) (st : State) :
    validateStep env answers step st =
      searchStatus (search (checkPair env answers) (stepPairs answers step) st) := by
  cases step with
  | Cname owner target =>
    show validateAt env owner .CNAME answers st = _
    cases hv : validateAt env owner .CNAME answers st with
    | mk s s' =>
      cases s with
      | Secure => exact (searchStatus_secure (owner, .CNAME) [] hv).symm
      | _ => exact (searchStatus_other (owner, .CNAME) [] (by decide) hv).symm
  | Dname dnameOwner target inputName redirectedName =>
    cases hv : validateAt env dnameOwner .DNAME answers st with
    | mk s s' =>
      cases s with
      | Secure =>
        simp only [validateStep, hv, stepPairs]
        rw [searchStatus_secure (dnameOwner, .DNAME) _ hv]
        split
        · rename_i hc
          have hat : validateRrset env inputName .CNAME
              (answers.filter (Record.isAt inputName .CNAME)) answers s' =
              validateAt env inputName .CNAME answers s' := by
            rw [Bool.and_eq_true, Bool.not_eq_true'] at hc
            simp only [validateAt, hc.1, Bool.false_eq_true, if_false]
          rw [hat]
          cases hv' : validateAt env inputName .CNAME answers s' with
          | mk s₁ s₁' =>
            cases s₁ with
            | Secure => exact (searchStatus_secure (inputName, .CNAME) [] hv').symm
            | _ => exact (searchStatus_other (inputName, .CNAME) [] (by decide) hv').symm
        · rfl
      | _ =>
        simp only [validateStep, hv, stepPairs]
        exact (searchStatus_other (dnameOwner, .DNAME) _ (by decide) hv).symm

theorem validateSteps_eq (chain : List RedirectionStep) (st : State) :
    validateSteps env answers chain st =
      searchStatus (search (checkPair env answers) (chain.flatMap (stepPairs answers)) st) := by
  induction chain generalizing st with
  | nil => rfl
  | cons step rest ih =>
    rw [List.flatMap_cons, search_append]
    simp only [validateSteps, validateStep_eq]
    cases hs : search (checkPair env answers) (stepPairs answers step) st with
    | mk r s' =>
      cases r with
      | hit status =>
        obtain ⟨p, _, s₁, _, hp⟩ := search_hit (R := fun _ _ => True) (fun _ => trivial)
          (fun _ _ _ _ _ => trivial) _ (fun _ _ _ => trivial) hs
        have hne := (checkPair_hit hp).1
        cases status <;> first | rfl | exact absurd rfl hne
      | stop => exact (searchPairs_ne_stop _ hs).elim
      | miss => exact ih s'

end

/-! ## what a verdict on an answer rests on -/

/-- a check of one of the RRsets `pairs` -/
def IsPairCheck (answers : List Record) (pairs : List (Name × RecordType)) (e : Event) : Prop :=
  ∃ p ∈ pairs, IsCheckOf (answers.filter (Record.isAt p.1 p.2)) e

structure AnswerOk (env : Env) (pairs : List (Name × RecordType)) (final : Name × RecordType)
    (answers : List Record) (st : State) (status : DnssecStatus) (st' : State) : Prop where
  run : Validates env (IsPairCheck answers pairs) st st'
  secure : status = .Secure → ∀ p ∈ pairs, ∃ sig key rec,
    Checked env.crypto st'.log p.1 p.2 answers sig key rec
  unsigned : status = .InsecureUnsigned → CachesOk env st →
    ∃ p ∈ pairs, ProvenUnsigned env.crypto st'.log p.1
  unknown : status = .InsecureUnknown →
    answers.any (Record.isAt final.1 final.2) = false ∨
      ∃ p ∈ pairs, answers.any (Record.isRrsigOver p.1 p.2) = false ∧
        ChainBroken st.log st'.log p.1

section
variable {env : Env} {answers : List Record}

theorem validateAt_ok {owner : Name} {t : RecordType} {st st' : State} {status : DnssecStatus}
    (h : validateAt env owner t answers st = (status, st')) :
    RrsetOk env owner t answers st status st' := by
  simp only [validateAt] at h
  split at h
  · obtain ⟨rfl, rfl⟩ := Prod.mk.inj h
    exact RrsetOk.bogus (Validates.refl _)
  · exact validateRrset_ok h

theorem checkPair_validates {pairs : List (Name × RecordType)} {p : Name × RecordType}
    (hp : p ∈ pairs) (st : State) :
    Validates env (IsPairCheck answers pairs) st (checkPair env answers p st).2 := by
  cases hv : validateAt env p.1 p.2 answers st with
  | mk s s' =>
    have hrun := (validateAt_ok hv).run.mono (Q := IsPairCheck answers pairs)
      fun e he => ⟨p, hp, he⟩
    cases s with
    | Secure => rw [checkPair_secure hv]; exact hrun
    | _ => rw [checkPair_other (by decide) hv]; exact hrun

section
variable {pairs checked : List (Name × RecordType)} (hsub : ∀ p ∈ checked, p ∈ pairs)
include hsub

theorem searchPairs_validates (st : State) : Validates env (IsPairCheck answers pairs) st
    (search (checkPair env answers) checked st).2 :=
  search_keeps Validates.refl (fun _ _ _ => Validates.trans) checked
    (fun p hp s => checkPair_validates (hsub p hp) s) st

theorem searchPairs_miss {st st' : State}
    (h : search (checkPair env answers) checked st = (.miss, st')) :
    ∀ p ∈ checked, ∃ sig key rec, Checked env.crypto st'.log p.1 p.2 answers sig key rec := by
  intro p hp
  obtain ⟨s₁, s₂, _, hs₂, hm⟩ := search_miss
    (R := Validates env (IsPairCheck answers pairs)) Validates.refl
    (fun _ _ _ => Validates.trans) checked (fun p hp s => checkPair_validates (hsub p hp) s) h p hp
  obtain ⟨sig, key, rec, hc⟩ := (validateAt_ok (checkPair_miss hm)).secure rfl
  exact ⟨sig, key, rec, hc.mono hs₂.log.subset⟩

theorem searchPairs_hit {st st' : State} {status : DnssecStatus} (final : Name × RecordType)
    (h : search (checkPair env answers) checked st = (.hit status, st')) :
    status ≠ .Secure ∧ AnswerOk env pairs final answers st status st' := by
  obtain ⟨p, hp, s₁, hs₁, hhit⟩ := search_hit
    (R := Validates env (IsPairCheck answers pairs)) Validates.refl
    (fun _ _ _ => Validates.trans) checked (fun p hp s => checkPair_validates (hsub p hp) s) h
  obtain ⟨hne, hv⟩ := checkPair_hit hhit
  have hok := validateAt_ok hv
  have hrun : Validates env (IsPairCheck answers pairs) st
      (search (checkPair env answers) checked st).2 := searchPairs_validates hsub st
  rw [h] at hrun
  refine ⟨hne, hrun, fun he => absurd he hne,
    fun he hc => ⟨p, hsub p hp, hok.unsigned he (hs₁.caches hc)⟩, fun he => ?_⟩
  obtain ⟨hsig, hbroken⟩ := hok.unknown he
  exact Or.inr ⟨p, hsub p hp, hsig, hbroken.after hs₁.log⟩

end

theorem validateFinal_ok {name : Name} {rtype : RecordType} {chain : List RedirectionStep}
    {st st' : State} {status : DnssecStatus}
    (h : validateFinal env name rtype chain answers st = (status, st')) :
    AnswerOk env (chain.flatMap (stepPairs answers) ++ [(finalOwner name chain, rtype)])
      (finalOwner name chain, rtype) answers st status st' := by
  have hsub : ∀ p ∈ chain.flatMap (stepPairs answers),
      p ∈ chain.flatMap (stepPairs answers) ++ [(finalOwner name chain, rtype)] :=
    fun p hp => List.mem_append_left _ hp
  have hrun : Validates env _ st
      (search (checkPair env answers) (chain.flatMap (stepPairs answers)) st).2 :=
    searchPairs_validates hsub st
  simp only [validateFinal, validateSteps_eq] at h
  cases hs : search (checkPair env answers) (chain.flatMap (stepPairs answers)) st with
  | mk r s₁ =>
    rw [hs] at h hrun
    cases r with
    | hit s =>
      obtain ⟨hne, hok⟩ := searchPairs_hit hsub (finalOwner name chain, rtype) hs
      have hst : (s, s₁) = (status, st') := by
        cases s <;> first | exact absurd rfl hne | exact h
      obtain ⟨rfl, rfl⟩ := Prod.mk.inj hst
      exact hok
    | stop => exact (searchPairs_ne_stop _ hs).elim
    | miss =>
      simp only [searchStatus] at h
      split at h
      · rename_i hemp
        obtain ⟨rfl, rfl⟩ := Prod.mk.inj h
        refine ⟨hrun, fun he => absurd he (by decide), fun he => absurd he (by decide),
          fun _ => Or.inl ?_⟩
        simpa [List.filter_eq_nil_iff] using hemp
      · -- the RRset at the end
        have hlast : (finalOwner name chain, rtype) ∈
            chain.flatMap (stepPairs answers) ++ [(finalOwner name chain, rtype)] :=
          List.mem_append_right _ (List.mem_singleton.mpr rfl)
        have hok := validateRrset_ok h
        have hrun' := hok.run.mono (Q := IsPairCheck answers (chain.flatMap (stepPairs answers) ++
          [(finalOwner name chain, rtype)])) fun e he => ⟨_, hlast, he⟩
        refine ⟨hrun.trans hrun', fun he p hp => ?_, fun he hc => ⟨_, hlast, ?_⟩,
          fun he => Or.inr ⟨_, hlast, (hok.unknown he).1, (hok.unknown he).2.after hrun.log⟩⟩
        · rcases List.mem_append.mp hp with hp | hp
          · obtain ⟨sig, key, rec, hcheck⟩ := searchPairs_miss hsub hs p hp
            exact ⟨sig, key, rec, hcheck.mono hrun'.log.subset⟩
          · rw [List.mem_singleton.mp hp]
            exact hok.secure he
        · exact hok.unsigned he (hrun.caches hc)

/-- **An answer.** -/
theorem validateAnswer_ok {name : Name} {rtype : RecordType} {st st' : State}
    {status : DnssecStatus} (h : validateAnswer env name rtype answers st = (status, st')) :
    AnswerOk env (answerPairs env.text name rtype answers)
      (finalPair env.text name rtype answers) answers st status st' := by
  have hbogus : (.Bogus, st) = (status, st') → AnswerOk env
      (answerPairs env.text name rtype answers) (finalPair env.text name rtype answers) answers st
      status st' := by
    intro he
    obtain ⟨rfl, rfl⟩ := Prod.mk.inj he
    exact ⟨Validates.refl _, fun he => absurd he (by decide), fun he => absurd he (by decide),
      fun he => absurd he (by decide)⟩
  unfold validateAnswer at h
  by_cases hr : rtype = .CNAME
  · have hchain : answerChain env.text name rtype answers = [] := if_pos hr
    rw [if_pos hr] at h
    rw [answerPairs, finalPair, hchain]
    exact validateFinal_ok h
  · rw [if_neg hr] at h
    cases hc : collectRedirectionChain env.text name answers with
    | Loop => rw [hc] at h; exact hbogus h
    | TooLong => rw [hc] at h; exact hbogus h
    | Complete chain =>
      have hchain : answerChain env.text name rtype answers = chain := by
        rw [answerChain, if_neg hr, hc]
      rw [hc] at h
      rw [answerPairs, finalPair, hchain]
      exact validateFinal_ok h

end

/-! ## the names on the way -/

/-- `chain` follows the redirections from a name as far as they go -/
inductive Follows (tx : Presentation) (answers : List Record) : Name → List RedirectionStep → Prop
  | nil {n : Name} : redirection tx n answers = none → Follows tx answers n []
  | cons {n : Name} {step : RedirectionStep} {rest : List RedirectionStep} :
      redirection tx n answers = some step → Follows tx answers step.next rest →
      Follows tx answers n (step :: rest)

/-- the queried name and the names it is redirected to -/
def redirectionNames (tx : Presentation) (name : Name) (answers : List Record) : List Name :=
  name ::
    match collectRedirectionChain tx name answers with
    | .Complete chain => chain.map RedirectionStep.next
    | .Loop => []
    | .TooLong => []

section
variable {tx : Presentation} {answers : List Record}

theorem redirectionLoop_follows (k : Nat) {seen : List (List Label)}
    {chain chain' : List RedirectionStep} {current : Name}
    (h : redirectionLoop tx answers k seen chain current = .Complete chain') :
    ∃ rest, chain' = chain ++ rest ∧ Follows tx answers current rest := by
  induction k generalizing seen chain current with
  | zero =>
    unfold redirectionLoop at h
    split at h <;> exact absurd h (by simp)
  | succ k ih =>
    unfold redirectionLoop at h
    split at h
    · exact absurd h (by simp)
    · split at h
      · rename_i step hstep
        obtain ⟨rest, rfl, hrest⟩ := ih h
        exact ⟨step :: rest, by simp, .cons hstep hrest⟩
      · rename_i hnone
        obtain rfl := RedirectionChainResult.Complete.inj h
        exact ⟨[], by simp, .nil hnone⟩

/-- a step from `n` is at `n` or at an ancestor of it -/
theorem stepPairs_above {n : Name} {step : RedirectionStep}
    (h : redirection tx n answers = some step) {p : Name × RecordType}
    (hp : p ∈ stepPairs answers step) : p.1.zoneOf n = true := by
  unfold redirection at h
  split at h
  · obtain rfl := Option.some.inj h
    rw [List.mem_singleton.mp hp]
    exact Name.zoneOf_refl n
  · split at h
    · rename_i owner target sub hd
      obtain rfl := Option.some.inj h
      rcases List.mem_cons.mp hp with rfl | hp
      · obtain ⟨r, _, hr⟩ := List.exists_of_findSome?_eq_some hd
        split at hr
        · rename_i hc
          simp only [Bool.and_eq_true] at hc
          split at hr
          · exact absurd hr (by simp)
          · split at hr
            · obtain ⟨rfl, _⟩ := Prod.mk.inj (Option.some.inj hr)
              exact hc.1.2
            · exact absurd hr (by simp)
        · exact absurd hr (by simp)
      · split at hp
        · rw [List.mem_singleton.mp hp]
          exact Name.zoneOf_refl n
        · exact absurd hp (by simp)
    · exact absurd h (by simp)

theorem Follows.above {n : Name} {chain : List RedirectionStep} (h : Follows tx answers n chain)
    {p : Name × RecordType} (hp : p ∈ chain.flatMap (stepPairs answers)) :
    ∃ m ∈ n :: chain.map RedirectionStep.next, p.1.zoneOf m = true := by
  induction h with
  | nil => exact absurd hp (by simp)
  | @cons n step rest hstep _ ih =>
    rw [List.flatMap_cons] at hp
    rcases List.mem_append.mp hp with hp | hp
    · exact ⟨n, List.mem_cons_self .., stepPairs_above hstep hp⟩
    · obtain ⟨m, hm, hz⟩ := ih hp
      exact ⟨m, List.mem_cons_of_mem _ hm, hz⟩

theorem finalOwner_mem (name : Name) (chain : List RedirectionStep) :
    finalOwner name chain ∈ name :: chain.map RedirectionStep.next := by
  unfold finalOwner
  cases hl : chain.getLast? with
  | none => exact List.mem_cons_self ..
  | some step =>
    exact List.mem_cons_of_mem _ (List.mem_map.mpr ⟨step, List.mem_of_getLast? hl, rfl⟩)

/-- every owner that is checked is on the way from the queried name or above a name on it -/
theorem answerPairs_above {name : Name} {rtype : RecordType} {p : Name × RecordType}
    (hp : p ∈ answerPairs tx name rtype answers) :
    ∃ m ∈ redirectionNames tx name answers, p.1.zoneOf m = true := by
  unfold answerPairs finalPair at hp
  cases hc : collectRedirectionChain tx name answers with
  | Complete chain =>
    have hn : redirectionNames tx name answers = name :: chain.map RedirectionStep.next := by
      rw [redirectionNames, hc]
    have hf : Follows tx answers name chain := by
      obtain ⟨rest, rfl, hrest⟩ := redirectionLoop_follows _ hc
      exact hrest
    by_cases hr : rtype = .CNAME
    · have hchain : answerChain tx name rtype answers = [] := if_pos hr
      rw [hchain] at hp
      obtain rfl := List.mem_singleton.mp hp
      exact ⟨name, List.mem_cons_self .., Name.zoneOf_refl _⟩
    · have hchain : answerChain tx name rtype answers = chain := by
        rw [answerChain, if_neg hr, hc]
      rw [hchain] at hp
      rw [hn]
      rcases List.mem_append.mp hp with hp | hp
      · exact hf.above hp
      · rw [List.mem_singleton.mp hp]
        exact ⟨_, finalOwner_mem name chain, Name.zoneOf_refl _⟩
  | Loop =>
    have hchain : answerChain tx name rtype answers = [] := by simp [answerChain, hc]
    rw [hchain] at hp
    obtain rfl := List.mem_singleton.mp hp
    exact ⟨name, List.mem_cons_self .., Name.zoneOf_refl _⟩
  | TooLong =>
    have hchain : answerChain tx name rtype answers = [] := by simp [answerChain, hc]
    rw [hchain] at hp
    obtain rfl := List.mem_singleton.mp hp
    exact ⟨name, List.mem_cons_self .., Name.zoneOf_refl _⟩

end
end DnsResolver
