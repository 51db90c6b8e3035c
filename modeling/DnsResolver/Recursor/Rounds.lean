import Mathlib.Data.List.Chain
import Mathlib.Data.List.Perm.Subperm
import DnsResolver.Recursor.Bailiwick

/-!
# The rounds of one call

A call of `resolveInternal` is a sequence of rounds, each a query to the servers in use and the
reply.  A round that is not the last ends in one of two ways: the cached servers failed and the
walk starts again from the root, or the reply was a referral that passed the tests.

* `internalRounds`            the rounds of a call, in order; `internalRounds_log` finds them in the
                              trace of the resolver;
* `NextRound`                 how a round leads to the next one;
* `acceptedOwners`            the owners of the referrals that passed the tests;
* `internalRounds_descend`    they are ancestors of the name, each strictly below the one before;
* `internalRounds_ds_iff`     when DS is only asked of servers other than those of the name itself.
-/

namespace DnsResolver
open Trace

/-- the walk at the start of a round, and what came back from its servers -/
structure QueryRound where
  walk : Walk
  response : Option Message

namespace QueryRound

def restarts (r : QueryRound) : Bool := r.walk.usingCached && r.response.isNone

/-- the owner of the referral the round accepted -/
def accepted (name : Name) (rtype : RecordType) (r : QueryRound) : Option Name :=
  r.response.bind (referralOwner r.walk name rtype)

/-- the servers in use are taken from a delegation of `name` itself -/
def askedOwn (name : Name) (r : QueryRound) : Bool :=
  match r.walk.origin with
  | .rootServers => false
  | .cachedEntry owner => owner.nameEq name
  | .referral owner => owner.nameEq name

end QueryRound

/-- the rounds of the loop, as `walk` runs them -/
def loopRounds (net : Net) (tx : Presentation) (resolve : Resolver) (name : Name)
    (rtype : RecordType) : Nat → Walk → RecursorState → List QueryRound
  | 0, _, _ => []
  | k + 1, w, st =>
    ⟨w, queryServersWithFallback net st.tick w.currentServers name rtype⟩ ::
      match walkStep net tx resolve name rtype w st with
      | (.done _, _) => []
      | (.go w', st') => loopRounds net tx resolve name rtype k w' st'

/-- the rounds of `resolveAt` -/
def roundsAt (net : Net) (tx : Presentation) (name : Name) (rtype : RecordType) :
    Nat → RecursorState → List QueryRound
  | 0, _ => []
  | k + 1, st =>
    match startWalk net name rtype st with
    | (w, st) => loopRounds net tx (resolveAt net tx k) name rtype maxSteps w st

/-- the rounds of `resolveInternal` -/
def internalRounds (net : Net) (tx : Presentation) (name : Name) (rtype : RecordType)
    (depth : Nat) (st : RecursorState) : List QueryRound :=
  roundsAt net tx name rtype (maxDepth + 1 - depth) st

/-- the owners of the referrals that passed the tests, in order -/
def acceptedOwners (name : Name) (rtype : RecordType) (rounds : List QueryRound) : List Name :=
  rounds.filterMap (QueryRound.accepted name rtype)

/-! ## the rounds in the trace -/

section
variable {net : Net} {tx : Presentation} {resolve : Resolver} {name : Name} {rtype : RecordType}

/-- `new` is `old` and then a trace in which the queries of `rounds` occur in order -/
def Logs (name : Name) (rtype : RecordType) (rounds : List QueryRound) (old new : List WalkEvent) :
    Prop :=
  ∃ es, new = old ++ es ∧
    (rounds.map fun r => WalkEvent.reply r.walk name rtype r.response).Sublist es

theorem Logs.cons {r : QueryRound} {rounds : List QueryRound} {old mid new : List WalkEvent}
    (hfirst : Grew (fun _ => True) (old ++ [.reply r.walk name rtype r.response]) mid)
    (h : Logs name rtype rounds mid new) : Logs name rtype (r :: rounds) old new := by
  obtain ⟨es, rfl, -⟩ := hfirst
  obtain ⟨es', rfl, hsub⟩ := h
  refine ⟨.reply r.walk name rtype r.response :: (es ++ es'), by simp, ?_⟩
  rw [List.map_cons]
  exact List.Sublist.cons_cons _ (hsub.trans (List.sublist_append_right es es'))

theorem Logs.nil {old new : List WalkEvent} (h : Grew (fun _ => True) old new) :
    Logs name rtype [] old new := by
  obtain ⟨es, rfl, -⟩ := h
  exact ⟨es, rfl, List.nil_sublist _⟩

/-- a resolution only adds to the trace -/
theorem resolveAt_grew (net : Net) (tx : Presentation) (k : Nat) (name : Name)
    (rtype : RecordType) (st : RecursorState) :
    Grew (fun _ => True) st.log (resolveAt net tx k name rtype st).2.log :=
  (resolveAt_rule (delegates_rule net) k name rtype st).log.mono fun _ _ => trivial

theorem kept_grew (net : Net) (tx : Presentation) (k : Nat) :
    Kept (resolveAt net tx k) fun st st' => Grew (fun _ => True) st.log st'.log where
  refl := fun _ => Grew.refl _
  trans := fun _ _ _ h h' => h.trans h'
  visit := fun _ _ => Grew.refl _
  call := fun name rtype st => resolveAt_grew net tx k name rtype st

theorem loopRounds_log (net : Net) (tx : Presentation) (name : Name) (rtype : RecordType)
    (k levels : Nat) (w : Walk) (st : RecursorState) :
    Logs name rtype (loopRounds net tx (resolveAt net tx levels) name rtype k w st) st.log
      (walk net tx (resolveAt net tx levels) name rtype k w st).2.log := by
  induction k generalizing w st with
  | zero => exact Logs.nil (Grew.refl _)
  | succ k ih =>
    cases hs : walkStep net tx (resolveAt net tx levels) name rtype w st with
    | mk o st' =>
      have hgrew : Grew (fun _ => True) (st.asked net w name rtype).log st'.log := by
        cases walkStep_cases (kept_grew net tx levels) hs with
        | done h => exact h
        | restart _ hst =>
          subst hst
          exact Grew.refl _
        | referral _ _ _ _ _ hmid hst =>
          subst hst
          exact hmid.trans (Grew.push trivial)
      simp only [loopRounds, walk, hs]
      cases o with
      | done r => exact Logs.cons hgrew (Logs.nil (Grew.refl _))
      | go w' => exact Logs.cons hgrew (ih w' st')

theorem internalRounds_log (net : Net) (tx : Presentation) (name : Name) (rtype : RecordType)
    (depth : Nat) (st : RecursorState) :
    Logs name rtype (internalRounds net tx name rtype depth st) st.log
      (resolveInternal net tx name rtype depth st).2.log := by
  unfold internalRounds resolveInternal
  cases maxDepth + 1 - depth with
  | zero => exact Logs.nil (Grew.refl _)
  | succ levels =>
    have h := loopRounds_log net tx name rtype maxSteps levels
      (startWalk net name rtype st).1 (startWalk net name rtype st).2
    rw [(startWalk_log net name rtype st).1] at h
    exact h

end

/-! ## from one round to the next -/

/-- a round that is not the last: a restart from the root, or an accepted referral -/
def NextRound (name : Name) (rtype : RecordType) (r next : QueryRound) : Prop :=
  (r.restarts = true ∧ next.walk = rootWalk) ∨
    ∃ owner ips, r.accepted name rtype = some owner ∧ next.walk = referredWalk owner ips

section
variable {net : Net} {tx : Presentation} {resolve : Resolver} {name : Name} {rtype : RecordType}

theorem QueryRound.accepted_of_restarts {r : QueryRound} (h : r.restarts = true) :
    r.accepted name rtype = none := by
  unfold QueryRound.restarts at h
  rw [Bool.and_eq_true, Option.isNone_iff_eq_none] at h
  unfold QueryRound.accepted
  rw [h.2]
  rfl

theorem NextRound.referred {r next : QueryRound} {owner : Name} (h : NextRound name rtype r next)
    (hacc : r.accepted name rtype = some owner) : ∃ ips, next.walk = referredWalk owner ips := by
  rcases h with ⟨hre, -⟩ | ⟨owner', ips, hown, hwalk⟩
  · rw [QueryRound.accepted_of_restarts hre] at hacc
    exact absurd hacc (by simp)
  · rw [hacc] at hown
    obtain rfl := Option.some.inj hown
    exact ⟨ips, hwalk⟩

theorem NextRound.restarted {r next : QueryRound} (h : NextRound name rtype r next)
    (hacc : r.accepted name rtype = none) : r.restarts = true ∧ next.walk = rootWalk := by
  rcases h with hre | ⟨owner, ips, hown, -⟩
  · exact hre
  · rw [hacc] at hown
    exact absurd hown (by simp)

/-- cached servers are only in use in the first round -/
theorem NextRound.not_cached {r next : QueryRound} (h : NextRound name rtype r next) :
    next.walk.usingCached = false := by
  rcases h with ⟨-, hwalk⟩ | ⟨owner, ips, -, hwalk⟩
  · rw [hwalk]
    rfl
  · rw [hwalk]
    rfl

theorem walkStep_referral {w w' : Walk} {st st' : RecursorState} {response : Message}
    (h : walkStep net tx resolve name rtype w st = (.go w', st'))
    (hq : queryServersWithFallback net st.tick w.currentServers name rtype = some response) :
    ∃ owner ips, referralOwner w name rtype response = some owner ∧
      w' = referredWalk owner ips := by
  simp only [walkStep, hq] at h
  cases ha : answerStep tx resolve name rtype response (st.asked net w name rtype) with
  | mk r mid =>
    rw [ha] at h
    cases r with
    | some r => exact absurd (Prod.mk.inj h).1 (by simp)
    | none =>
      have hign := answerStep_none ha
      dsimp only at h
      unfold referralStep at h
      split at h
      · exact absurd (Prod.mk.inj h).1 (by simp)
      · rename_i hterm
        split at h
        · exact absurd (Prod.mk.inj h).1 (by simp)
        · rename_i owner nsNames href
          split at h
          · exact absurd (Prod.mk.inj h).1 (by simp)
          · rename_i hacc
            split at h
            · rename_i ips mid' hips
              split at h
              · exact absurd (Prod.mk.inj h).1 (by simp)
              · refine ⟨owner, ips, ?_, (WalkStep.go.inj (Prod.mk.inj h).1).symm⟩
                rw [Bool.not_eq_true, Bool.not_eq_false'] at hacc
                simp [referralOwner, hign, hterm, href, hacc]

theorem walkStep_nextRound {w w' : Walk} {st st' : RecursorState} {next : QueryRound}
    (h : walkStep net tx resolve name rtype w st = (.go w', st')) (hnext : next.walk = w') :
    NextRound name rtype ⟨w, queryServersWithFallback net st.tick w.currentServers name rtype⟩
      next := by
  cases hq : queryServersWithFallback net st.tick w.currentServers name rtype with
  | some response =>
    obtain ⟨owner, ips, hown, rfl⟩ := walkStep_referral h hq
    exact Or.inr ⟨owner, ips, hown, hnext⟩
  | none =>
    simp only [walkStep, hq] at h
    by_cases hc : w.usingCached = true
    · rw [if_pos hc] at h
      obtain rfl := WalkStep.go.inj (Prod.mk.inj h).1
      exact Or.inl ⟨by simp [QueryRound.restarts, hc], hnext⟩
    · rw [if_neg hc] at h
      exact absurd (Prod.mk.inj h).1 (by simp)

theorem loopRounds_head {k : Nat} {w : Walk} {st : RecursorState} {r : QueryRound}
    (h : r ∈ (loopRounds net tx resolve name rtype k w st).head?) : r.walk = w := by
  cases k with
  | zero => exact absurd h (by simp [loopRounds])
  | succ k =>
    simp only [loopRounds, List.head?_cons, Option.mem_some_iff] at h
    rw [← h]

theorem loopRounds_chain (k : Nat) (w : Walk) (st : RecursorState) :
    (loopRounds net tx resolve name rtype k w st).IsChain (NextRound name rtype) := by
  induction k generalizing w st with
  | zero => exact List.isChain_nil
  | succ k ih =>
    rw [loopRounds]
    cases hs : walkStep net tx resolve name rtype w st with
    | mk o st' =>
      cases o with
      | done r => exact List.isChain_singleton _
      | go w' =>
        refine List.isChain_cons.mpr ⟨fun next hnext => ?_, ih w' st'⟩
        exact walkStep_nextRound hs (loopRounds_head hnext)

theorem internalRounds_chain (net : Net) (tx : Presentation) (name : Name) (rtype : RecordType)
    (depth : Nat) (st : RecursorState) :
    (internalRounds net tx name rtype depth st).IsChain (NextRound name rtype) := by
  unfold internalRounds
  cases maxDepth + 1 - depth with
  | zero => exact List.isChain_nil
  | succ levels => exact loopRounds_chain maxSteps _ _

theorem internalRounds_head {depth : Nat} {st : RecursorState} {r : QueryRound}
    (h : r ∈ (internalRounds net tx name rtype depth st).head?) :
    r.walk = (startWalk net name rtype st).1 := by
  unfold internalRounds at h
  cases hk : maxDepth + 1 - depth with
  | zero =>
    rw [hk] at h
    exact absurd h (by simp [roundsAt])
  | succ levels =>
    rw [hk] at h
    exact loopRounds_head h

end

/-! ## referrals descend -/

/-- `below` is a proper descendant of `above` -/
def StrictlyBelow (above below : Name) : Prop :=
  above.zoneOf below = true ∧ above.nameEq below = false

section
variable {name : Name} {rtype : RecordType} {rounds : List QueryRound}

theorem StrictlyBelow.trans {a b c : Name} (h : StrictlyBelow a b) (h' : StrictlyBelow b c) :
    StrictlyBelow a c := by
  refine ⟨Name.zoneOf_trans h.1 h'.1, ?_⟩
  rw [Name.nameEq_eq_false]
  intro he
  -- then `b` is between two spellings of one name
  have hcb : c.zoneOf b = true := by
    rw [Name.zoneOf_iff, ← he]
    exact Name.zoneOf_iff.mp h.1
  have hbc := Name.nameEq_of_zoneOf h'.1 hcb
  rw [h'.2] at hbc
  exact Bool.noConfusion hbc

theorem StrictlyBelow.length_lt {a b : Name} (h : StrictlyBelow a b) :
    a.labels.length < b.labels.length := by
  have hsuf := Name.zoneOf_iff.mp h.1
  have hle := hsuf.length_le
  rw [Name.length_fold, Name.length_fold] at hle
  rcases Nat.lt_or_eq_of_le hle with hlt | heq
  · exact hlt
  · have hne := Name.nameEq_eq_false.mp h.2
    refine absurd (hsuf.eq_of_length ?_) hne
    rw [Name.length_fold, Name.length_fold, heq]

theorem QueryRound.accepted_zoneOf {r : QueryRound} {owner : Name}
    (h : r.accepted name rtype = some owner) : owner.zoneOf name = true := by
  obtain ⟨response, -, href⟩ := Option.bind_eq_some_iff.mp h
  have hacc := referralOwner_accepted href
  simp only [acceptsReferral, Bool.and_eq_true, Bool.or_eq_true] at hacc
  exact hacc.1.2.elim id Name.zoneOf_of_nameEq

theorem head_referred {r : QueryRound} {owner : Name}
    (hnext : ∀ next ∈ rounds.head?, NextRound name rtype r next)
    (hacc : r.accepted name rtype = some owner) :
    ∃ ips, ∀ next ∈ rounds.head?, next.walk = referredWalk owner ips := by
  cases rounds with
  | nil => exact ⟨[], by simp⟩
  | cons next rest =>
    obtain ⟨ips, hwalk⟩ := (hnext next rfl).referred hacc
    refine ⟨ips, fun next' h => ?_⟩
    rw [← Option.some.inj h]
    exact hwalk

/-- after a referral to `zone` only a referral to a zone strictly below is accepted -/
theorem QueryRound.accepted_strictlyBelow {r : QueryRound} {zone owner : Name} {ips : List IpAddr}
    (hw : r.walk = referredWalk zone ips) (h : r.accepted name rtype = some owner) :
    StrictlyBelow zone owner := by
  obtain ⟨response, -, href⟩ := Option.bind_eq_some_iff.mp h
  have hacc := referralOwner_accepted href
  rw [hw] at hacc
  simp only [acceptsReferral, referredWalk, Option.any_some, Bool.and_eq_true, Bool.or_eq_true,
    Bool.not_eq_true'] at hacc
  obtain ⟨⟨hne, -⟩, hin⟩ := hacc
  refine ⟨?_, hne⟩
  rcases hin with (hroot | hzone) | heq
  · rw [Name.zoneOf_iff, Name.isRoot_iff.mp hroot]
    exact List.nil_suffix
  · exact hzone
  · exact Name.zoneOf_of_nameEq heq

theorem acceptedOwners_zoneOf {owner : Name} (h : owner ∈ acceptedOwners name rtype rounds) :
    owner.zoneOf name = true := by
  obtain ⟨r, -, hr⟩ := List.mem_filterMap.mp h
  exact QueryRound.accepted_zoneOf hr

/-- the rounds after a referral to `zone` descend from `zone` -/
theorem acceptedOwners_below {zone : Name} {ips : List IpAddr}
    (hchain : rounds.IsChain (NextRound name rtype))
    (hhead : ∀ r ∈ rounds.head?, r.walk = referredWalk zone ips) :
    (zone :: acceptedOwners name rtype rounds).Pairwise StrictlyBelow := by
  induction rounds generalizing zone ips with
  | nil => exact List.pairwise_singleton _ _
  | cons r rest ih =>
    have hw : r.walk = referredWalk zone ips := hhead r rfl
    obtain ⟨hnext, htail⟩ := List.isChain_cons.mp hchain
    cases hacc : r.accepted name rtype with
    | none =>
      rw [acceptedOwners, List.filterMap_cons_none hacc]
      cases rest with
      | nil => exact List.pairwise_singleton _ _
      | cons next rest =>
        have hre := ((hnext next rfl).restarted hacc).1
        rw [QueryRound.restarts, hw] at hre
        exact absurd hre (by simp [referredWalk])
    | some owner =>
      have hbelow := QueryRound.accepted_strictlyBelow hw hacc
      obtain ⟨ips', hhead'⟩ := head_referred hnext hacc
      have hrec := ih htail hhead'
      rw [acceptedOwners, List.filterMap_cons_some hacc]
      refine List.pairwise_cons.mpr ⟨fun d hd => ?_, hrec⟩
      rcases List.mem_cons.mp hd with rfl | hd
      · exact hbelow
      · exact hbelow.trans ((List.pairwise_cons.mp hrec).1 d hd)

theorem acceptedOwners_pairwise (hchain : rounds.IsChain (NextRound name rtype)) :
    (acceptedOwners name rtype rounds).Pairwise StrictlyBelow := by
  induction rounds with
  | nil => exact List.Pairwise.nil
  | cons r rest ih =>
    obtain ⟨hnext, htail⟩ := List.isChain_cons.mp hchain
    cases hacc : r.accepted name rtype with
    | none =>
      rw [acceptedOwners, List.filterMap_cons_none hacc]
      exact ih htail
    | some owner =>
      obtain ⟨ips, hhead⟩ := head_referred hnext hacc
      rw [acceptedOwners, List.filterMap_cons_some hacc]
      exact acceptedOwners_below htail hhead

theorem length_le_of_strictlyBelow {owners : List Name} (hpair : owners.Pairwise StrictlyBelow)
    (hzone : ∀ owner ∈ owners, owner.zoneOf name = true) :
    owners.length ≤ name.labels.length + 1 := by
  have hnodup : (owners.map fun owner => owner.labels.length).Nodup := by
    refine List.pairwise_map.mpr (hpair.imp fun h => ?_)
    exact Nat.ne_of_lt h.length_lt
  have hsub : (owners.map fun owner => owner.labels.length) ⊆
      List.range (name.labels.length + 1) := by
    intro n hn
    obtain ⟨owner, hmem, rfl⟩ := List.mem_map.mp hn
    have hle := (Name.zoneOf_iff.mp (hzone owner hmem)).length_le
    rw [Name.length_fold, Name.length_fold] at hle
    exact List.mem_range.mpr (Nat.lt_succ_of_le hle)
  have hlen := (List.subperm_of_subset hnodup hsub).length_le
  rw [List.length_map, List.length_range] at hlen
  exact hlen

theorem restarts_tail (hchain : rounds.IsChain (NextRound name rtype)) {r : QueryRound}
    (hr : r ∈ rounds.tail) : r.restarts = false := by
  induction rounds with
  | nil => exact absurd hr (by simp)
  | cons first rest ih =>
    obtain ⟨hnext, htail⟩ := List.isChain_cons.mp hchain
    cases rest with
    | nil => exact absurd hr (by simp)
    | cons next rest =>
      rcases List.mem_cons.mp hr with rfl | hr
      · rw [QueryRound.restarts, (hnext _ rfl).not_cached]
        rfl
      · exact ih htail hr

end

/-- **Referrals descend.**  In a call of `resolveInternal`, whatever the servers do, only the first
round can give up cached servers and start again from the root; the owners of the referrals
accepted before and after are ancestors of the name or the name itself, each a proper descendant of
those before it.  So none is accepted twice, and there are at most as many as the name has labels
and one more. -/
theorem internalRounds_descend (net : Net) (tx : Presentation) (name : Name) (rtype : RecordType)
    (depth : Nat) (st : RecursorState) :
    let rounds := internalRounds net tx name rtype depth st
    let owners := acceptedOwners name rtype rounds
    (∀ r ∈ rounds.tail, r.restarts = false) ∧
      (∀ owner ∈ owners, owner.zoneOf name = true) ∧
      owners.Pairwise StrictlyBelow ∧ (owners.map Name.fold).Nodup ∧
      owners.length ≤ name.labels.length + 1 := by
  intro rounds owners
  have hchain : rounds.IsChain (NextRound name rtype) :=
    internalRounds_chain net tx name rtype depth st
  have hzone : ∀ owner ∈ owners, owner.zoneOf name = true := fun owner h =>
    acceptedOwners_zoneOf h
  have hpair : owners.Pairwise StrictlyBelow := acceptedOwners_pairwise hchain
  refine ⟨fun r hr => restarts_tail hchain hr, hzone, hpair, ?_,
    length_le_of_strictlyBelow hpair hzone⟩
  refine List.pairwise_map.mpr (hpair.imp fun h => ?_)
  exact Name.nameEq_eq_false.mp h.2

/-! ## DS is asked of the parent -/

section
variable {net : Net} {tx : Presentation} {name : Name} {rounds : List QueryRound}

theorem askedOwn_rootWalk {r : QueryRound} (h : r.walk = rootWalk) : r.askedOwn name = false := by
  rw [QueryRound.askedOwn, h]
  rfl

theorem askedOwn_referredWalk {r : QueryRound} {owner : Name} {ips : List IpAddr}
    (h : r.walk = referredWalk owner ips) : r.askedOwn name = owner.nameEq name := by
  rw [QueryRound.askedOwn, h]
  rfl

/-- the search for a cached start leaves the name itself out -/
theorem askedOwn_startWalk {st : RecursorState} {r : QueryRound} (hname : name.isRoot = false)
    (h : r.walk = (startWalk net name .DS st).1) : r.askedOwn name = false := by
  unfold startWalk at h
  cases hf : findCachedStart st.delegationCache (net.nowSecs st.tick) name .DS with
  | none =>
    rw [hf] at h
    exact askedOwn_rootWalk h
  | some start =>
    obtain ⟨zone, entry⟩ := start
    rw [hf] at h
    dsimp only at h
    by_cases he : entry.servers.isEmpty
    · rw [if_pos he] at h
      exact askedOwn_rootWalk h
    · rw [if_neg he] at h
      rw [QueryRound.askedOwn, h]
      exact Name.nameEq_of_zoneOf_baseName (findCachedStart_search hf).1 hname

/-- from servers of another zone, the name's own servers are asked exactly if a referral to the
name itself is followed -/
theorem askedOwn_iff {rtype : RecordType} (hchain : rounds.IsChain (NextRound name rtype))
    (hhead : ∀ r ∈ rounds.head?, r.askedOwn name = false) :
    (∀ r ∈ rounds, r.askedOwn name = false) ↔
      ∀ r ∈ rounds.dropLast, ∀ owner, r.accepted name rtype = some owner →
        owner.nameEq name = false := by
  induction rounds with
  | nil => simp
  | cons r rest ih =>
    have hr : r.askedOwn name = false := hhead r rfl
    cases rest with
    | nil => simp [hr]
    | cons next rest =>
      obtain ⟨hnext, htail⟩ := List.isChain_cons.mp hchain
      have hfollow := hnext next rfl
      have hrec : next.askedOwn name = false →
          ((∀ x ∈ next :: rest, x.askedOwn name = false) ↔
            ∀ x ∈ (next :: rest).dropLast, ∀ owner, x.accepted name rtype = some owner →
              owner.nameEq name = false) := fun hn =>
        ih htail fun x hx => by
          rw [← Option.some.inj hx]
          exact hn
      rw [List.dropLast_cons_cons, List.forall_mem_cons (a := r), List.forall_mem_cons (a := r)]
      cases hacc : r.accepted name rtype with
      | none =>
        have hn : next.askedOwn name = false := askedOwn_rootWalk (hfollow.restarted hacc).2
        rw [hrec hn]
        simp [hr]
      | some owner =>
        obtain ⟨ips, hwalk⟩ := hfollow.referred hacc
        have hn : next.askedOwn name = owner.nameEq name := askedOwn_referredWalk hwalk
        cases hz : owner.nameEq name with
        | false =>
          rw [hz] at hn
          rw [hrec hn]
          simp [hr, hz]
        | true =>
          rw [hz] at hn
          constructor
          · rintro ⟨-, hall⟩
            rw [hall next List.mem_cons_self] at hn
            exact Bool.noConfusion hn
          · rintro ⟨hfirst, -⟩
            have := hfirst owner rfl
            rw [hz] at this
            exact Bool.noConfusion this

/-- **DS at the parent.**  While DS of a name other than the root is resolved, the servers of the
name itself are never asked exactly if no reply that another round follows is a referral to the
name itself that passed the tests. -/
theorem internalRounds_ds_iff (depth : Nat) (st : RecursorState) (hname : name.isRoot = false) :
    (∀ r ∈ internalRounds net tx name .DS depth st, r.askedOwn name = false) ↔
      ∀ r ∈ (internalRounds net tx name .DS depth st).dropLast, ∀ owner,
        r.accepted name .DS = some owner → owner.nameEq name = false :=
  askedOwn_iff (internalRounds_chain net tx name .DS depth st) fun _ hr =>
    askedOwn_startWalk hname (internalRounds_head hr)

end

/-- `www.example.com.`: three rounds, the last at the servers of `example.com.` -/
theorem wwwName_ds_asked_above :
    (internalRounds upwardNet noText wwwName .DS 0 {}).length = 3 ∧
      ∀ r ∈ internalRounds upwardNet noText wwwName .DS 0 {}, r.askedOwn wwwName = false := by
  refine ⟨by decide +kernel, (internalRounds_ds_iff 0 {} (by decide)).mpr ?_⟩
  have h : ((internalRounds upwardNet noText wwwName .DS 0 {}).dropLast.all fun r =>
      (r.accepted wwwName .DS).all fun owner => !owner.nameEq wwwName) = true := by decide +kernel
  intro r hr owner hown
  have hall := List.all_eq_true.mp h r hr
  rw [hown] at hall
  simpa using hall

/-- the servers of `com.` refer DS of `example.com.` to `example.com.`, and are followed -/
theorem exampleName_ds_asked_own :
    ∃ r ∈ internalRounds upwardNet noText exampleName .DS 0 {},
      r.walk.origin = .referral exampleName ∧ r.walk.currentServers = [.V4 exampleServer] ∧
        r.askedOwn exampleName = true := by
  have h : ((internalRounds upwardNet noText exampleName .DS 0 {}).any fun r =>
      decide (r.walk.origin = .referral exampleName) &&
        decide (r.walk.currentServers = [.V4 exampleServer])) = true := by decide +kernel
  obtain ⟨r, hr, hp⟩ := List.any_eq_true.mp h
  rw [Bool.and_eq_true, decide_eq_true_eq, decide_eq_true_eq] at hp
  refine ⟨r, hr, hp.1, hp.2, ?_⟩
  rw [QueryRound.askedOwn, hp.1]
  decide

end DnsResolver
