import DnsResolver.Recursor.Bailiwick
import DnsResolver.Recursor.Merge

/-!
# What comes out of a resolution

Whatever the servers send, a message that `resolve` returns is a response to the question that was
asked, also at the end of a chain of aliases, and a delegation that is learned on the way can be
used: it has servers, no query is refused for their addresses, and it lives two days at most.

* `DnameFailed`           an answer section with a DNAME that could not be applied;
* `AnswersTo`             a response to one question;
* `resolveAt_answers`     what `resolve_internal` returns is one, by induction on the levels;
* `Usable`, `LearnedIn`   what an accepted referral leaves behind;
* `resolveRun_learns`     the entries of the cache after a run.
-/

namespace DnsResolver
open Trace Dedup

/-! ## the answer -/

/-- a DNAME among the records, up to the case of its owner, whose substitution ended in YXDOMAIN -/
def DnameFailed (tx : Presentation) (answers : List Record) : Prop :=
  ∃ r ∈ answers, ∃ owner target name, owner.nameEq r.name = true ∧
    extractDnameTarget r = some target ∧
    dnameSubstitute tx name owner target = .error .YXDomain

/-- a response to a question, up to the case of its name -/
structure AnswersTo (tx : Presentation) (name : Name) (rtype : RecordType) (m : Message) :
    Prop where
  response : m.messageType = .Response
  query : m.opCode = 0
  question : ∃ q, m.queries = [q] ∧ q.queryType = rtype ∧ q.queryClass = .IN ∧
    q.name.nameEq name = true
  code : m.responseCode = .NoError ∨ m.responseCode = .NXDomain ∨
    m.responseCode = .YXDomain ∧ DnameFailed tx m.answers

section
variable {tx : Presentation}

theorem RData.eq_of_same_dname {d d' : RData} (h : d.same d' = true)
    (ht : d'.recordType = .DNAME) : d = d' := by
  unfold RData.same at h
  split at h
  case h_10 => exact of_decide_eq_true h
  all_goals cases ht

theorem extractDnameTarget_same {r r' : Record} (h : r.same r' = true) {target : Name}
    (ht : extractDnameTarget r' = some target) : extractDnameTarget r = some target := by
  have hdname : r'.recordType = .DNAME := by
    unfold extractDnameTarget at ht
    split at ht
    · assumption
    · cases ht
  have hdata : r.data = r'.data := RData.eq_of_same_dname (Record.same_iff.mp h).2.2 hdname
  have htype : r.recordType = r'.recordType := congrArg RData.recordType hdata
  unfold extractDnameTarget at ht ⊢
  rw [htype, hdata]
  exact ht

theorem DnameFailed.mono {answers answers' : List Record} (h : DnameFailed tx answers)
    (hsub : answers ⊆ answers') : DnameFailed tx answers' := by
  obtain ⟨r, hr, hfail⟩ := h
  exact ⟨r, hsub hr, hfail⟩

/-- a merge keeps the record or one like it -/
theorem DnameFailed.merged {final : Message} (h : DnameFailed tx final.answers) (name : Name)
    (rtype : RecordType) (response : Message) :
    DnameFailed tx (mergeRedirectionResponse name rtype response final).answers := by
  obtain ⟨r, hr, owner, target, n, howner, htarget, hfail⟩ := h
  have hmerged : (mergeRedirectionResponse name rtype response final).answers =
      addNew Record.same final.answers response.answers := by
    have heq := addMissing_eq_addNew (fun _ => true) final.answers response.answers
    rw [List.filter_true] at heq
    exact heq
  obtain ⟨e, he, hsame⟩ := addNew_covers Record.same_equivalence hr
  rw [hmerged]
  exact ⟨e, he, owner, target, n,
    Name.nameEq_trans howner (Name.nameEq_symm (Record.same_iff.mp hsame).1),
    extractDnameTarget_same hsame htarget, hfail⟩

theorem dnameFailed_of_match {name : Name} {answers : List Record} {dname : Name × Name × UInt32}
    (h : dnameMatch name answers = some dname)
    (hfail : dnameSubstitute tx name dname.1 dname.2.1 = .error .YXDomain) :
    DnameFailed tx answers := by
  obtain ⟨r, hr, hmatch⟩ := List.exists_of_findSome?_eq_some h
  split at hmatch
  · obtain ⟨target, htarget, rfl⟩ := Option.map_eq_some_iff.mp hmatch
    exact ⟨r, hr, r.name, target, name, Name.nameEq_refl _, htarget, hfail⟩
  · cases hmatch

end

theorem answersTo_of_matches {tx : Presentation} {response : Message} {txid : UInt16} {name : Name}
    {rtype : RecordType} (h : responseMatches response txid name rtype = true)
    (hu : isUsable response = true) : AnswersTo tx name rtype response := by
  unfold responseMatches at h
  simp only [Bool.and_eq_true, decide_eq_true_eq] at h
  obtain ⟨⟨⟨-, hresp⟩, hop⟩, hq⟩ := h
  refine ⟨hresp, hop, ?_, ?_⟩
  · split at hq
    · rename_i q hqueries
      simp only [Bool.and_eq_true, decide_eq_true_eq] at hq
      exact ⟨q, hqueries, hq.1.1, hq.1.2, hq.2⟩
    · cases hq
  · unfold isUsable at hu
    rcases Bool.or_eq_true_iff.mp hu with hu | hu
    · exact .inl (of_decide_eq_true hu)
    · exact .inr (.inl (of_decide_eq_true hu))

section
variable {net : Net} {tx : Presentation} {tick : Nat} {addr : IpAddr} {servers : List IpAddr}
  {name : Name} {rtype : RecordType} {response : Message}

theorem querySocket_matches (h : querySocket net tick addr name rtype = some response) :
    isSafeUpstreamIp addr = true ∧
      responseMatches response (net.txid tick addr) name rtype = true := by
  unfold querySocket at h
  cases hsafe : isSafeUpstreamIp addr with
  | false =>
    rw [hsafe] at h
    cases h
  | true =>
    rw [hsafe, if_neg (by decide)] at h
    refine ⟨rfl, ?_⟩
    dsimp only at h
    split at h
    · cases h
    · split at h
      · cases h
      · rename_i hmatch
        rw [Bool.not_eq_true, Bool.not_eq_false'] at hmatch
        split at h
        · split at h
          · cases h
          · split at h
            · rename_i hmatch'
              rw [← Option.some.inj h]
              exact hmatch'
            · cases h
        · rw [← Option.some.inj h]
          exact hmatch

theorem queryServersWithFallback_answers
    (h : queryServersWithFallback net tick servers name rtype = some response) :
    AnswersTo tx name rtype response := by
  unfold queryServersWithFallback at h
  split at h
  · cases h
  · dsimp only at h
    obtain ⟨chunk, -, hchunk⟩ := List.exists_of_findSome?_eq_some h
    obtain ⟨addr, -, haddr⟩ := List.exists_of_findSome?_eq_some hchunk
    obtain ⟨hq, hu⟩ := Option.filter_eq_some_iff.mp haddr
    exact answersTo_of_matches (querySocket_matches hq).2 hu

end

/-- a resolver whose results are responses to its questions -/
def Answers (tx : Presentation) (resolve : Resolver) : Prop :=
  ∀ name rtype st m, (resolve name rtype st).1 = .ok m → AnswersTo tx name rtype m

section
variable {net : Net} {tx : Presentation} {resolve : Resolver} {name : Name} {rtype : RecordType}
  {response : Message} {m : Message}

theorem merge_answers {target : Name} {final : Message} (h : AnswersTo tx target rtype final) :
    AnswersTo tx name rtype (mergeRedirectionResponse name rtype response final) :=
  ⟨rfl, h.query, ⟨_, rfl, rfl, rfl, Name.nameEq_refl name⟩,
    h.code.imp_right (Or.imp_right fun hyx => ⟨hyx.1, hyx.2.merged name rtype response⟩)⟩

theorem followAlias_answers (hr : Answers tx resolve) {key : VisitKey} {target : Name}
    {st : RecursorState}
    (h : (followAlias resolve key target name rtype response st).1 = .ok m) :
    AnswersTo tx name rtype m := by
  unfold followAlias at h
  split at h
  · cases h
  · have hcall := hr target rtype (st.visit key)
    cases hres : resolve target rtype (st.visit key) with
    | mk r st' =>
      rw [hres] at h hcall
      cases r with
      | error e => cases h
      | ok final =>
        rw [← Except.ok.inj h]
        exact merge_answers (hcall final rfl)

theorem withSynthCname_answers (h : AnswersTo tx name rtype response) (substituted : Name)
    (ttl : UInt32) : AnswersTo tx name rtype (withSynthCname name substituted ttl response) := by
  unfold withSynthCname
  split
  · exact h
  · exact ⟨h.response, h.query, h.question, h.code.imp_right (Or.imp_right fun hyx =>
      ⟨hyx.1, hyx.2.mono (List.subset_append_left _ _)⟩)⟩

theorem answerStep_answers (hr : Answers tx resolve) (h : AnswersTo tx name rtype response)
    {st : RecursorState}
    (hs : (answerStep tx resolve name rtype response st).1 = some (.ok m)) :
    AnswersTo tx name rtype m := by
  unfold answerStep at hs
  split at hs
  · cases hs
  · split at hs
    · rw [← Except.ok.inj (Option.some.inj hs)]
      exact h
    · split at hs
      · -- an alias
        rename_i firstTarget _
        replace hs := Option.some.inj hs
        unfold cnameRedirect at hs
        split at hs
        · cases hs
        · rw [← Except.ok.inj hs]
          exact h
        · exact followAlias_answers hr hs
      · split at hs
        · rename_i dname hdname
          replace hs := Option.some.inj hs
          unfold dnameRedirect at hs
          split at hs
          · dsimp only at hs
            split at hs
            · rw [← Except.ok.inj hs]
              exact withSynthCname_answers h _ _
            · exact followAlias_answers hr hs
          · rename_i hfail
            rw [← Except.ok.inj hs]
            exact ⟨h.response, h.query, h.question,
              .inr (.inr ⟨rfl, dnameFailed_of_match hdname hfail⟩)⟩
          · cases hs
        · cases hs

theorem readReferral_ret {r : Resolved} (h : readReferral response = .ret r)
    (hr : r = .ok m) : m = response := by
  rw [hr] at h
  unfold readReferral at h
  split at h
  · cases h
  · split at h
    · exact (Except.ok.inj (Referral.ret.inj h)).symm
    · dsimp only at h
      split at h
      · cases h
      · split at h
        · exact (Except.ok.inj (Referral.ret.inj h)).symm
        · cases h

theorem referralStep_answers (h : AnswersTo tx name rtype response) {w : Walk} {st : RecursorState}
    (hs : (referralStep net resolve name rtype w response st).1 = .done (.ok m)) :
    AnswersTo tx name rtype m := by
  unfold referralStep at hs
  split at hs
  · rw [← Except.ok.inj (WalkStep.done.inj hs)]
    exact h
  · split at hs
    · rename_i r href
      rw [readReferral_ret href (WalkStep.done.inj hs)]
      exact h
    · split at hs
      · cases hs
      · cases hips : referralIps resolve w _ _ response st with
        | mk ips st' =>
          rw [hips] at hs
          dsimp only at hs
          split at hs
          · cases hs
          · cases hs

theorem walkStep_answers (hr : Answers tx resolve) {w : Walk} {st : RecursorState}
    (hs : (walkStep net tx resolve name rtype w st).1 = .done (.ok m)) :
    AnswersTo tx name rtype m := by
  unfold walkStep at hs
  split at hs
  · split at hs
    · cases hs
    · cases hs
  · rename_i response hq
    have h : AnswersTo tx name rtype response := queryServersWithFallback_answers hq
    cases hstep : answerStep tx resolve name rtype response (st.asked net w name rtype) with
    | mk o mid =>
      rw [hstep] at hs
      cases o with
      | some r =>
        have hans : (answerStep tx resolve name rtype response (st.asked net w name rtype)).1 =
            some (.ok m) → AnswersTo tx name rtype m := answerStep_answers hr h
        rw [hstep] at hans
        exact hans (congrArg some (WalkStep.done.inj hs))
      | none => exact referralStep_answers h hs

theorem walk_answers (hr : Answers tx resolve) (k : Nat) (w : Walk) (st : RecursorState)
    (h : (walk net tx resolve name rtype k w st).1 = .ok m) : AnswersTo tx name rtype m := by
  induction k generalizing w st with
  | zero => cases h
  | succ k ih =>
    rw [walk] at h
    cases hs : walkStep net tx resolve name rtype w st with
    | mk o st' =>
      rw [hs] at h
      cases o with
      | done r =>
        replace h : r = .ok m := h
        have hdone : (walkStep net tx resolve name rtype w st).1 = .done (.ok m) := by
          rw [hs, h]
        exact walkStep_answers hr hdone
      | go w' => exact ih w' st' h

end

/-- one level deeper, the answers are to other questions, and the merge puts that right -/
theorem resolveAt_answers (net : Net) (tx : Presentation) (k : Nat) :
    Answers tx (resolveAt net tx k) := by
  induction k with
  | zero =>
    intro name rtype st m h
    cases h
  | succ k ih =>
    intro name rtype st m h
    exact walk_answers ih maxSteps _ _ h

/-- **The answer is to the question.**  Whatever the servers send and whatever is in the delegation
cache, a message that `resolve` returns is a response to a standard query, its only question is the
one that was asked, and its code is NOERROR, NXDOMAIN or, with a DNAME in its answer section that
`dname_substitute` could not apply, YXDOMAIN. -/
theorem resolve_answers (net : Net) (tx : Presentation) (name : Name) (rtype : RecordType)
    (st : RecursorState) {m : Message} (h : (resolve net tx name rtype st).1 = .ok m) :
    AnswersTo tx name rtype m :=
  resolveAt_answers net tx _ name rtype _ m h

theorem upwardNet_www_answers :
    ∃ m, (resolve upwardNet noText wwwName .A {}).1 = .ok m ∧ AnswersTo noText wwwName .A m := by
  have h : (resolve upwardNet noText wwwName .A {}).1 =
      .ok (answerTo exampleServer wwwName .A) := by
    decide +kernel
  exact ⟨_, h, resolve_answers upwardNet noText wwwName .A {} h⟩

/-! ## what is learned -/

/-- an entry that can be used, made between two ticks -/
structure Usable (net : Net) (start stop : Nat) (entry : DelegationEntry) : Prop where
  source : entry.source = .Dynamic
  servers : entry.servers ≠ []
  safe : ∀ addr ∈ entry.servers, isSafeUpstreamIp addr = true
  expires : ∃ tick, start ≤ tick ∧ tick < stop ∧ net.nowSecs tick ≤ entry.expiresAt ∧
    entry.expiresAt ≤ net.nowSecs tick + maxDelegationTtl

/-- the entry of an event can be used -/
def LearnedIn (net : Net) (start stop : Nat) : WalkEvent → Prop
  | .insert _ _ entry => Usable net start stop entry
  | .reply .. => True

theorem LearnedIn.mono {net : Net} {start start' stop stop' : Nat} {e : WalkEvent}
    (h : LearnedIn net start stop e) (hstart : start' ≤ start) (hstop : stop ≤ stop') :
    LearnedIn net start' stop' e := by
  cases e with
  | reply => trivial
  | insert w zone entry =>
    obtain ⟨tick, h1, h2, h3⟩ := h.expires
    exact ⟨h.source, h.servers, h.safe, tick, by omega, by omega, h3⟩

/-- what every piece of a run does to the clock and to the trace -/
structure Learns (net : Net) (st st' : RecursorState) : Prop where
  tick : st.tick ≤ st'.tick
  log : Grew (LearnedIn net st.tick st'.tick) st.log st'.log

section
variable {net : Net} {tx : Presentation} {resolve : Resolver} {name : Name} {rtype : RecordType}
  {st st₁ st₂ : RecursorState}

theorem Learns.same (ht : st.tick ≤ st₁.tick) (hl : st₁.log = st.log) : Learns net st st₁ :=
  ⟨ht, hl ▸ Grew.refl _⟩

theorem Learns.trans (h : Learns net st st₁) (h' : Learns net st₁ st₂) : Learns net st st₂ :=
  ⟨h.tick.trans h'.tick, (h.log.mono fun _ he => he.mono le_rfl h'.tick).trans
    (h'.log.mono fun _ he => he.mono h.tick le_rfl)⟩

theorem delegationTtl_le (msg : Message) : delegationTtl msg ≤ maxDelegationTtl := by
  unfold delegationTtl
  dsimp only
  split
  · decide
  · exact Nat.min_le_right _ _

theorem safeIpv4_safe (r : Resolved) : ∀ addr ∈ safeIpv4 r, isSafeUpstreamIp addr = true := by
  intro addr h
  cases r with
  | error e => cases h
  | ok resp =>
    obtain ⟨ans, -, hans⟩ := List.mem_filterMap.mp h
    split at hans
    · split at hans
      · rename_i hsafe
        rw [← Option.some.inj hans]
        exact hsafe
      · cases hans
    · cases hans

theorem safeIpv6_safe (r : Resolved) : ∀ addr ∈ safeIpv6 r, isSafeUpstreamIp addr = true := by
  intro addr h
  cases r with
  | error e => cases h
  | ok resp =>
    obtain ⟨ans, -, hans⟩ := List.mem_filterMap.mp h
    split at hans
    · split at hans
      · rename_i hsafe
        rw [← Option.some.inj hans]
        exact hsafe
      · cases hans
    · cases hans

theorem nsAddresses_safe (resolve : Resolver) (nsName : Name) (st : RecursorState) :
    ∀ addr ∈ (nsAddresses resolve nsName st).1, isSafeUpstreamIp addr = true := by
  unfold nsAddresses
  intro addr h
  split at h
  · cases h
  · rcases List.mem_append.mp h with h | h
    · exact safeIpv4_safe _ addr h
    · exact safeIpv6_safe _ addr h

theorem nsLoop_safe (resolve : Resolver) (nsNames : List Name) (ips : List IpAddr)
    (st : RecursorState) (h : ∀ addr ∈ ips, isSafeUpstreamIp addr = true) :
    ∀ addr ∈ (nsLoop resolve nsNames ips st).1, isSafeUpstreamIp addr = true := by
  induction nsNames generalizing ips st with
  | nil => exact h
  | cons nsName rest ih =>
    have hnew := nsAddresses_safe resolve nsName st
    cases hn : nsAddresses resolve nsName st with
    | mk new st' =>
      rw [hn] at hnew
      have hall : ∀ addr ∈ ips ++ new, isSafeUpstreamIp addr = true := by
        intro addr hm
        rcases List.mem_append.mp hm with hm | hm
        · exact h addr hm
        · exact hnew addr hm
      simp only [nsLoop, hn]
      split
      · exact hall
      · exact ih _ _ hall

theorem referralIps_safe (resolve : Resolver) (w : Walk) (owner : Name) (nsNames : List Name)
    (response : Message) (st : RecursorState) :
    ∀ addr ∈ (referralIps resolve w owner nsNames response st).1,
      isSafeUpstreamIp addr = true := by
  unfold referralIps
  dsimp only
  intro addr h
  split at h
  · have hnil : ∀ addr ∈ ([] : List IpAddr), isSafeUpstreamIp addr = true := by simp
    exact nsLoop_safe resolve _ _ _ hnil addr (List.mem_eraseDups.mp h)
  · exact (List.mem_filter.mp h).2

theorem walkStep_servers {w w' : Walk}
    (h : walkStep net tx resolve name rtype w st = (.go w', st₁)) :
    w' = rootWalk ∨
      w'.currentServers ≠ [] ∧ ∀ addr ∈ w'.currentServers, isSafeUpstreamIp addr = true := by
  unfold walkStep at h
  split at h
  · split at h
    · exact .inl (WalkStep.go.inj (Prod.mk.inj h).1).symm
    · cases h
  · rename_i response _
    split at h
    · cases h
    · rename_i mid _
      unfold referralStep at h
      split at h
      · cases h
      · split at h
        · cases h
        · rename_i owner nsNames _
          split at h
          · cases h
          · have hsafe := referralIps_safe resolve w owner nsNames response mid
            cases hips : referralIps resolve w owner nsNames response mid with
            | mk ips st' =>
              rw [hips] at h hsafe
              dsimp only at h
              split at h
              · cases h
              · rename_i hne
                obtain rfl := WalkStep.go.inj (Prod.mk.inj h).1
                exact .inr ⟨fun hnil => hne (List.isEmpty_iff.mpr hnil), hsafe⟩

theorem usable_referralEntry (net : Net) (st : RecursorState) {ips : List IpAddr}
    (response : Message) (hne : ips ≠ [])
    (hsafe : ∀ addr ∈ ips, isSafeUpstreamIp addr = true) :
    Usable net st.tick (st.tick + 1) (st.referralEntry net ips response) :=
  ⟨rfl, hne, hsafe, st.tick, le_rfl, Nat.lt_succ_self _, Nat.le_add_right _ _,
    Nat.add_le_add_left (delegationTtl_le response) _⟩

/-- one round, recursive calls counted as steps of it -/
theorem walkStep_learns (hk : Kept resolve (Learns net)) (w : Walk) (st : RecursorState) :
    Learns net st (walkStep net tx resolve name rtype w st).2 := by
  cases hs : walkStep net tx resolve name rtype w st with
  | mk o st' =>
    have hask : Learns net st (st.asked net w name rtype) :=
      ⟨Nat.le_succ _, Grew.push trivial⟩
    cases walkStep_cases hk hs with
    | done h => exact hask.trans h
    | restart _ hst =>
      subst hst
      exact hask.trans (Learns.same le_rfl rfl)
    | @referral response owner _ ips mid _ _ _ _ _ hmid hst =>
      subst hst
      rcases walkStep_servers hs with hroot | ⟨hne, hsafe⟩
      · cases congrArg Walk.origin hroot
      · have hinsert : Learns net mid (mid.insertDelegation net w owner ips response) :=
          ⟨Nat.le_succ _, Grew.push (usable_referralEntry net mid response hne hsafe)⟩
        exact (hask.trans hmid).trans hinsert

theorem walk_learns (hk : Kept resolve (Learns net)) (k : Nat) (w : Walk) (st : RecursorState) :
    Learns net st (walk net tx resolve name rtype k w st).2 := by
  induction k generalizing w st with
  | zero => exact hk.refl st
  | succ k ih =>
    have hstep : Learns net st (walkStep net tx resolve name rtype w st).2 :=
      walkStep_learns hk w st
    cases hs : walkStep net tx resolve name rtype w st with
    | mk o st' =>
      rw [hs] at hstep
      simp only [walk, hs]
      cases o with
      | done r => exact hstep
      | go w' => exact hstep.trans (ih w' st')

end

section
variable (net : Net) (tx : Presentation)

theorem startWalk_learns (name : Name) (rtype : RecordType) (st : RecursorState) :
    Learns net st (startWalk net name rtype st).2 := by
  refine Learns.same ?_ (startWalk_log net name rtype st).1
  unfold startWalk
  cases h : findCachedStart st.delegationCache (net.nowSecs st.tick) name rtype with
  | none => exact Nat.le_succ _
  | some start =>
    dsimp only
    split <;> exact Nat.le_succ _

theorem resolveAt_learned (k : Nat) (name : Name) (rtype : RecordType) (st : RecursorState) :
    Learns net st (resolveAt net tx k name rtype st).2 := by
  induction k generalizing name rtype st with
  | zero => exact Learns.same le_rfl rfl
  | succ k ih =>
    have hk : Kept (resolveAt net tx k) (Learns net) :=
      ⟨fun st => Learns.same le_rfl rfl, fun _ _ _ h h' => h.trans h',
        fun st key => Learns.same le_rfl rfl, ih⟩
    exact (startWalk_learns net name rtype st).trans (walk_learns hk maxSteps _ _)

theorem resolveRun_learned (calls : List (Name × RecordType)) (st : RecursorState) :
    Learns net st (resolveRun net tx calls st).2 := by
  induction calls generalizing st with
  | nil => exact Learns.same le_rfl rfl
  | cons call calls ih =>
    obtain ⟨name, rtype⟩ := call
    have hvisited : Learns net st { st with visited := [] } := Learns.same le_rfl rfl
    have hcall : Learns net st (resolve net tx name rtype st).2 :=
      hvisited.trans (resolveAt_learned net tx _ name rtype _)
    exact hcall.trans (ih _)

end

/-- **What is learned can be used.**  Whatever the servers send, after any run of resolutions an
entry of the delegation cache was there before, or it was learned in the run: it has servers, all of
them at addresses that a query may go to, and it expires no later than two days after a moment of
the run. -/
theorem resolveRun_learns (net : Net) (tx : Presentation) (cache : DelegationCache) (tick : Nat)
    (calls : List (Name × RecordType)) {key : ZoneKey} {entry : DelegationEntry}
    (he : (resolveRun net tx calls { delegationCache := cache, tick := tick }).2.delegationCache
      key = some entry) :
    cache key = some entry ∨
      Usable net tick
        (resolveRun net tx calls { delegationCache := cache, tick := tick }).2.tick entry := by
  have hd : Delegates { delegationCache := cache, tick := tick }
      (resolveRun net tx calls { delegationCache := cache, tick := tick }).2 :=
    resolveRun_rule (delegates_rule net) calls _
  have hl := (resolveRun_learned net tx calls { delegationCache := cache, tick := tick }).log
  rcases hd.cache key entry he with hold | ⟨w, zone, -, hmem⟩
  · exact .inl hold
  · rcases hl.mem hmem with hnil | hlearned
    · cases hnil
    · exact .inr hlearned

theorem upwardRun_com_learned :
    ∃ entry, (upwardRun upName).2.delegationCache comName.fold = some entry ∧
      Usable upwardNet 0 (upwardRun upName).2.tick entry := by
  have h : ((upwardRun upName).2.delegationCache comName.fold).isSome = true := by decide +kernel
  obtain ⟨entry, he⟩ := Option.isSome_iff_exists.mp h
  refine ⟨entry, he, ?_⟩
  rcases resolveRun_learns upwardNet noText (fun _ => none) 0 [(wwwName, .A), (upName, .A)] he with
    hold | husable
  · cases hold
  · exact husable

end DnsResolver
