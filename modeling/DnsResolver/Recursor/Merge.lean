import DnsResolver.Lib.Dedup
import DnsResolver.Recursor.Resolve

/-!
# Merged alias chains

Every alias adds one merge around the response to its target, so the response to a name with
aliases is a fold of merges around the last message.

* `Record.same_equivalence`   `==` on records is an equivalence;
* `mergeHops`                 the merges of an alias chain;
* `mergeHops_evidence`        what the merged sections hold, and in which order;
* `resolveInternal_merged`    every response of the resolver is such a fold.
-/

namespace DnsResolver
open Dedup

/-! ## equality of records -/

namespace RData

theorem same_refl (d : RData) : d.same d = true := by
  cases d <;> simp [RData.same, Name.nameEq_refl]

theorem same_symm {d d' : RData} (h : d.same d' = true) : d'.same d = true := by
  unfold RData.same at h
  split at h
  case h_1 | h_2 | h_3 => exact Name.nameEq_symm h
  case h_4 | h_5 | h_8 =>
    simp only [RData.same, Bool.and_eq_true, decide_eq_true_eq, Name.nameEq_iff] at h ⊢
    grind
  case h_6 s s' =>
    obtain ⟨⟩ := s
    obtain ⟨⟩ := s'
    simp only [RData.same, Bool.and_eq_true, decide_eq_true_eq, Name.nameEq_iff,
      Soa.mk.injEq] at h ⊢
    grind
  case h_7 s s' =>
    obtain ⟨⟩ := s
    obtain ⟨⟩ := s'
    simp only [RData.same, Bool.and_eq_true, decide_eq_true_eq, Name.nameEq_iff,
      Rrsig.mk.injEq] at h ⊢
    grind
  case h_9 n n' =>
    obtain ⟨⟩ := n
    obtain ⟨⟩ := n'
    simp only [RData.same, decide_eq_true_eq, Nsec3.mk.injEq] at h ⊢
    grind
  case h_10 =>
    rw [of_decide_eq_true h]
    exact same_refl d'

/-- the cases are those of `RData.same` on the last two; the first is of the same kind -/
theorem same_trans {d₁ d₂ d₃ : RData} (h : d₁.same d₂ = true) (h' : d₂.same d₃ = true) :
    d₁.same d₃ = true := by
  unfold RData.same at h'
  split at h'
  case h_1 | h_2 | h_3 =>
    cases d₁
    case ns | cname | ptr => first | exact Name.nameEq_trans h h' | exact Bool.noConfusion h
    all_goals exact Bool.noConfusion h
  case h_4 =>
    cases d₁
    case mx =>
      simp only [RData.same, Bool.and_eq_true, decide_eq_true_eq, Name.nameEq_iff] at h h' ⊢
      exact ⟨h.1.trans h'.1, h.2.trans h'.2⟩
    all_goals exact Bool.noConfusion h
  case h_5 =>
    cases d₁
    case srv =>
      simp only [RData.same, Bool.and_eq_true, decide_eq_true_eq, Name.nameEq_iff] at h h' ⊢
      grind
    all_goals exact Bool.noConfusion h
  case h_6 s s' =>
    cases d₁
    case soa s₁ =>
      obtain ⟨⟩ := s₁
      obtain ⟨⟩ := s
      obtain ⟨⟩ := s'
      simp only [RData.same, Bool.and_eq_true, decide_eq_true_eq, Name.nameEq_iff,
        Soa.mk.injEq] at h h' ⊢
      grind
    all_goals exact Bool.noConfusion h
  case h_7 s s' =>
    cases d₁
    case rrsig s₁ =>
      obtain ⟨⟩ := s₁
      obtain ⟨⟩ := s
      obtain ⟨⟩ := s'
      simp only [RData.same, Bool.and_eq_true, decide_eq_true_eq, Name.nameEq_iff,
        Rrsig.mk.injEq] at h h' ⊢
      grind
    all_goals exact Bool.noConfusion h
  case h_8 =>
    cases d₁
    case nsec =>
      simp only [RData.same, Bool.and_eq_true, decide_eq_true_eq, Name.nameEq_iff] at h h' ⊢
      exact ⟨h.1.trans h'.1, h.2.trans h'.2⟩
    all_goals exact Bool.noConfusion h
  case h_9 n n' =>
    cases d₁
    case nsec3 n₁ =>
      obtain ⟨⟩ := n₁
      obtain ⟨⟩ := n
      obtain ⟨⟩ := n'
      simp only [RData.same, decide_eq_true_eq, Nsec3.mk.injEq] at h h' ⊢
      grind
    all_goals exact Bool.noConfusion h
  case h_10 =>
    rw [← of_decide_eq_true h']
    exact h

end RData

theorem Record.same_iff {r r' : Record} : r.same r' = true ↔
    r.name.nameEq r'.name = true ∧ r.dnsClass = r'.dnsClass ∧ r.data.same r'.data = true := by
  simp only [Record.same, Bool.and_eq_true, decide_eq_true_eq, and_assoc]

theorem Record.same_equivalence : Equivalence fun r r' : Record => r.same r' = true where
  refl := fun r => Record.same_iff.mpr ⟨Name.nameEq_refl _, rfl, RData.same_refl _⟩
  symm := fun h => by
    obtain ⟨hn, hc, hd⟩ := Record.same_iff.mp h
    exact Record.same_iff.mpr ⟨Name.nameEq_symm hn, hc.symm, RData.same_symm hd⟩
  trans := fun h h' => by
    obtain ⟨hn, hc, hd⟩ := Record.same_iff.mp h
    obtain ⟨hn', hc', hd'⟩ := Record.same_iff.mp h'
    exact Record.same_iff.mpr
      ⟨Name.nameEq_trans hn hn', hc.trans hc', RData.same_trans hd hd'⟩

theorem addMissing_eq_addNew (keep : Record → Bool) (new acc : List Record) :
    addMissing keep new acc = addNew Record.same (new.filter keep) acc := by
  unfold addMissing addNew
  rw [List.foldl_filter]
  congr 1
  funext acc r
  cases keep r with
  | false => rfl
  | true =>
    cases acc.any fun e => e.same r with
    | false => rfl
    | true => rfl

/-! ## the merges of an alias chain -/

/-- an alias: the name that was asked for and the response with the alias -/
structure AliasHop where
  name : Name
  response : Message

/-- the merges around the response `final` to the last target, the first hop outermost -/
def mergeHops (rtype : RecordType) (hops : List AliasHop) (final : Message) : Message :=
  hops.foldr (fun hop rest => mergeRedirectionResponse hop.name rtype hop.response rest) final

/-- the answer records of a chain in hop order -/
def hopAnswers (hops : List AliasHop) (final : Message) : List Record :=
  hops.flatMap (fun hop => hop.response.answers) ++ final.answers

/-- the proofs that are kept of the authority section of a hop -/
def isProof (r : Record) : Bool := decide (r.recordType ∈ [.NSEC, .NSEC3, .RRSIG])

/-- the authority records of a chain: those of the last message, and the proofs of the hops -/
def hopAuthority (hops : List AliasHop) (final : Message) : List Record :=
  final.nameServers ++ hops.flatMap fun hop => hop.response.nameServers.filter isProof

def Message.flags (msg : Message) : List Bool :=
  [msg.authoritative, msg.truncated, msg.recursionDesired, msg.recursionAvailable,
    msg.authenticData, msg.checkingDisabled]

section
variable (rtype : RecordType) (hop : AliasHop) (hops : List AliasHop) (final : Message)

theorem hopAnswers_cons : hopAnswers (hop :: hops) final =
    hop.response.answers ++ hopAnswers hops final := by
  simp only [hopAnswers, List.flatMap_cons, List.append_assoc]

theorem mergeHops_answers_cons : (mergeHops rtype (hop :: hops) final).answers =
    addNew Record.same (mergeHops rtype hops final).answers hop.response.answers := by
  have h := addMissing_eq_addNew (fun _ => true) (mergeHops rtype hops final).answers
    hop.response.answers
  rw [List.filter_true] at h
  exact h

theorem mergeHops_nameServers_cons : (mergeHops rtype (hop :: hops) final).nameServers =
    addNew Record.same (hop.response.nameServers.filter isProof)
      (mergeHops rtype hops final).nameServers := by
  exact addMissing_eq_addNew isProof hop.response.nameServers _

theorem mergeHops_answers_subset :
    (mergeHops rtype hops final).answers ⊆ hopAnswers hops final := by
  induction hops with
  | nil => exact List.Subset.refl _
  | cons hop hops ih =>
    intro r hr
    rw [mergeHops_answers_cons] at hr
    rw [hopAnswers_cons, List.mem_append]
    exact (mem_addNew hr).imp id fun h => ih h

theorem mergeHops_answers_dedup :
    (mergeHops rtype hops final).answers.eraseDupsBy Record.same =
      (hopAnswers hops final).eraseDupsBy Record.same := by
  induction hops with
  | nil => rfl
  | cons hop hops ih =>
    rw [mergeHops_answers_cons, hopAnswers_cons, eraseDupsBy_addNew Record.same_equivalence]
    exact eraseDupsBy_append_congr Record.same_equivalence _ ih

theorem mergeHops_answers_covers {r : Record} (hr : r ∈ hopAnswers hops final) :
    ∃ e ∈ (mergeHops rtype hops final).answers, e.same r = true := by
  induction hops with
  | nil => exact ⟨r, hr, Record.same_equivalence.refl r⟩
  | cons hop hops ih =>
    rw [mergeHops_answers_cons]
    rw [hopAnswers_cons, List.mem_append] at hr
    rcases hr with hr | hr
    · exact ⟨r, subset_addNew _ _ hr, Record.same_equivalence.refl r⟩
    · obtain ⟨e, he, her⟩ := ih hr
      obtain ⟨e', he', hee⟩ := addNew_covers Record.same_equivalence he
      exact ⟨e', he', Record.same_equivalence.trans hee her⟩

theorem mergeHops_nameServers_subset :
    (mergeHops rtype hops final).nameServers ⊆ hopAuthority hops final := by
  induction hops with
  | nil => exact List.subset_append_left _ _
  | cons hop hops ih =>
    intro r hr
    rw [mergeHops_nameServers_cons] at hr
    rw [hopAuthority, List.flatMap_cons, List.mem_append, List.mem_append]
    rcases mem_addNew hr with h | h
    · rcases List.mem_append.mp (ih h) with h | h
      · exact Or.inl h
      · exact Or.inr (Or.inr h)
    · exact Or.inr (Or.inl h)

theorem mergeHops_nameServers_covers {r : Record} (hr : r ∈ hopAuthority hops final) :
    ∃ e ∈ (mergeHops rtype hops final).nameServers, e.same r = true := by
  induction hops with
  | nil =>
    rw [hopAuthority, List.flatMap_nil, List.append_nil] at hr
    exact ⟨r, hr, Record.same_equivalence.refl r⟩
  | cons hop hops ih =>
    rw [mergeHops_nameServers_cons]
    rw [hopAuthority, List.flatMap_cons, List.mem_append, List.mem_append] at hr
    have hrest : r ∈ hopAuthority hops final →
        ∃ e ∈ addNew Record.same (hop.response.nameServers.filter isProof)
          (mergeHops rtype hops final).nameServers, e.same r = true := by
      intro h
      obtain ⟨e, he, her⟩ := ih h
      exact ⟨e, subset_addNew _ _ he, her⟩
    rcases hr with h | h | h
    · exact hrest (List.mem_append_left _ h)
    · exact addNew_covers Record.same_equivalence h
    · exact hrest (List.mem_append_right _ h)

theorem mergeHops_header :
    (mergeHops rtype hops final).responseCode = final.responseCode ∧
      (mergeHops rtype hops final).flags = final.flags ∧
      (final.messageType = .Response →
        (mergeHops rtype hops final).messageType = .Response) := by
  induction hops with
  | nil => exact ⟨rfl, rfl, id⟩
  | cons hop hops ih => exact ⟨ih.1, ih.2.1, fun _ => rfl⟩

end

/-- **Merged aliases keep all evidence.**  Up to `==` on records, the answer section of the merged
response holds the answer records of all hops and of the last message, its first occurrences in hop
order; its authority section holds that of the last message and the NSEC, NSEC3 and RRSIG records
of the hops.  Neither holds anything else, and the header is that of the last message. -/
theorem mergeHops_evidence (rtype : RecordType) (hops : List AliasHop) (final : Message) :
    (∀ r ∈ hopAnswers hops final, ∃ e ∈ (mergeHops rtype hops final).answers, e.same r = true) ∧
      (mergeHops rtype hops final).answers ⊆ hopAnswers hops final ∧
      (mergeHops rtype hops final).answers.eraseDupsBy Record.same =
        (hopAnswers hops final).eraseDupsBy Record.same ∧
      (∀ r ∈ hopAuthority hops final, ∃ e ∈ (mergeHops rtype hops final).nameServers,
        e.same r = true) ∧
      (mergeHops rtype hops final).nameServers ⊆ hopAuthority hops final ∧
      (mergeHops rtype hops final).responseCode = final.responseCode ∧
      (mergeHops rtype hops final).flags = final.flags ∧
      (final.messageType = .Response → (mergeHops rtype hops final).messageType = .Response) :=
  ⟨fun _ hr => mergeHops_answers_covers rtype hops final hr,
    mergeHops_answers_subset rtype hops final, mergeHops_answers_dedup rtype hops final,
    fun _ hr => mergeHops_nameServers_covers rtype hops final hr,
    mergeHops_nameServers_subset rtype hops final, mergeHops_header rtype hops final⟩

/-! ## the responses of the resolver -/

/-- a response put together along an alias chain -/
def Chained (rtype : RecordType) (msg : Message) : Prop :=
  ∃ hops final, msg = mergeHops rtype hops final ∧ final.messageType = .Response

theorem Chained.single {rtype : RecordType} {msg : Message} (h : msg.messageType = .Response) :
    Chained rtype msg := ⟨[], msg, rfl, h⟩

theorem Chained.merge {rtype : RecordType} {msg : Message} (h : Chained rtype msg) (name : Name)
    (response : Message) : Chained rtype (mergeRedirectionResponse name rtype response msg) := by
  obtain ⟨hops, final, rfl, hfinal⟩ := h
  exact ⟨⟨name, response⟩ :: hops, final, rfl, hfinal⟩

section
variable {net : Net} {tx : Presentation} {resolve : Resolver} {name : Name} {rtype : RecordType}
  {st : RecursorState} {response msg : Message}

theorem querySocket_response {tick : Nat} {addr : IpAddr}
    (h : querySocket net tick addr name rtype = some msg) : msg.messageType = .Response := by
  have hmatch : ∀ m txid, responseMatches m txid name rtype = true → m.messageType = .Response := by
    intro m txid hm
    simp only [responseMatches, Bool.and_eq_true, decide_eq_true_eq] at hm
    exact hm.1.1.2
  unfold querySocket at h
  split at h
  · exact absurd h (by simp)
  · dsimp only at h
    split at h
    · exact absurd h (by simp)
    · split at h
      · exact absurd h (by simp)
      · rename_i hm
        split at h
        · split at h
          · exact absurd h (by simp)
          · split at h
            · rename_i ht
              rw [← Option.some.inj h]
              exact hmatch _ _ ht
            · exact absurd h (by simp)
        · rw [← Option.some.inj h]
          exact hmatch _ _ (by simpa using hm)

theorem queryServersWithFallback_response {tick : Nat} {servers : List IpAddr}
    (h : queryServersWithFallback net tick servers name rtype = some msg) :
    msg.messageType = .Response := by
  unfold queryServersWithFallback at h
  split at h
  · exact absurd h (by simp)
  · obtain ⟨chunk, -, hchunk⟩ := List.exists_of_findSome?_eq_some h
    obtain ⟨addr, -, haddr⟩ := List.exists_of_findSome?_eq_some hchunk
    exact querySocket_response (Option.filter_eq_some_iff.mp haddr).1

variable (hcall : ∀ target st msg, (resolve target rtype st).1 = .ok msg → Chained rtype msg)
include hcall

theorem followAlias_chained {key : VisitKey} {target : Name}
    (h : (followAlias resolve key target name rtype response st).1 = .ok msg) :
    Chained rtype msg := by
  unfold followAlias at h
  split at h
  · exact absurd h (by simp)
  · cases hr : resolve target rtype (st.visit key) with
    | mk r st' =>
      rw [hr] at h
      cases r with
      | error e => exact absurd h (by simp)
      | ok resp =>
        obtain rfl := Except.ok.inj h
        have hresp : (resolve target rtype (st.visit key)).1 = .ok resp := by rw [hr]
        exact (hcall target _ resp hresp).merge name response

theorem answerStep_chained (hresponse : response.messageType = .Response)
    (h : (answerStep tx resolve name rtype response st).1 = some (.ok msg)) :
    Chained rtype msg := by
  unfold answerStep at h
  split at h
  · exact absurd h (by simp)
  · split at h
    · obtain rfl := Except.ok.inj (Option.some.inj h)
      exact Chained.single hresponse
    · split at h
      · -- an alias
        replace h := Option.some.inj h
        unfold cnameRedirect at h
        split at h
        · exact absurd h (by simp)
        · obtain rfl := Except.ok.inj h
          exact Chained.single hresponse
        · exact followAlias_chained hcall h
      · split at h
        · replace h := Option.some.inj h
          unfold dnameRedirect at h
          split at h
          · dsimp only at h
            split at h
            · obtain rfl := Except.ok.inj h
              refine Chained.single ?_
              unfold withSynthCname
              split <;> exact hresponse
            · exact followAlias_chained hcall h
          · obtain rfl := Except.ok.inj h
            exact Chained.single hresponse
          · exact absurd h (by simp)
        · exact absurd h (by simp)

omit hcall in
theorem readReferral_ok (h : readReferral response = .ret (.ok msg)) : msg = response := by
  unfold readReferral at h
  split at h
  · exact absurd (Referral.ret.inj h) (by simp)
  · split at h
    · exact (Except.ok.inj (Referral.ret.inj h)).symm
    · dsimp only at h
      split at h
      · exact absurd (Referral.ret.inj h) (by simp)
      · split at h
        · exact (Except.ok.inj (Referral.ret.inj h)).symm
        · exact absurd h (by simp)

theorem walkStep_chained {w : Walk}
    (h : (walkStep net tx resolve name rtype w st).1 = .done (.ok msg)) : Chained rtype msg := by
  unfold walkStep at h
  split at h
  · split at h
    · exact absurd h (by simp)
    · exact absurd h (by simp)
  · rename_i response hq
    have hresponse := queryServersWithFallback_response hq
    cases ha : answerStep tx resolve name rtype response (st.asked net w name rtype) with
    | mk r mid =>
      rw [ha] at h
      cases r with
      | some r =>
        have hr : (answerStep tx resolve name rtype response (st.asked net w name rtype)).1 =
            some (.ok msg) := by
          rw [ha, WalkStep.done.inj h]
        exact answerStep_chained hcall hresponse hr
      | none =>
        dsimp only at h
        unfold referralStep at h
        split at h
        · obtain rfl := Except.ok.inj (WalkStep.done.inj h)
          exact Chained.single hresponse
        · split at h
          · rename_i r hret
            rw [WalkStep.done.inj h] at hret
            rw [readReferral_ok hret]
            exact Chained.single hresponse
          · split at h
            · exact absurd h (by simp)
            · dsimp only at h
              split at h
              · exact absurd h (by simp)
              · exact absurd h (by simp)

theorem walk_chained {k : Nat} {w : Walk}
    (h : (walk net tx resolve name rtype k w st).1 = .ok msg) : Chained rtype msg := by
  induction k generalizing w st with
  | zero => exact absurd h (by simp [walk])
  | succ k ih =>
    cases hs : walkStep net tx resolve name rtype w st with
    | mk o st' =>
      simp only [walk, hs] at h
      cases o with
      | done r =>
        have hdone : (walkStep net tx resolve name rtype w st).1 = .done (.ok msg) := by
          rw [hs]
          exact congrArg WalkStep.done h
        exact walkStep_chained hcall hdone
      | go w' => exact ih h

end

theorem resolveAt_chained {net : Net} {tx : Presentation} (k : Nat) {name : Name}
    {rtype : RecordType} {st : RecursorState} {msg : Message}
    (h : (resolveAt net tx k name rtype st).1 = .ok msg) : Chained rtype msg := by
  induction k generalizing name st msg with
  | zero => exact absurd h (by simp [resolveAt])
  | succ k ih => exact walk_chained (fun _ _ _ hm => ih hm) h

/-- **What the resolver returns** is a chain of merges around a response of some server, whose
response code only a DNAME substitution may have changed. -/
theorem resolveInternal_merged {net : Net} {tx : Presentation} {name : Name} {rtype : RecordType}
    {depth : Nat} {st : RecursorState} {msg : Message}
    (h : (resolveInternal net tx name rtype depth st).1 = .ok msg) : Chained rtype msg :=
  resolveAt_chained _ h

end DnsResolver
