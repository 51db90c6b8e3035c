import DnsResolver.Dnssec.Validator
import DnsResolver.Lib.Walk

/-!
# The redirection chain

`collect_redirection_chain` is a bounded walk over the records of an answer (`Lib.Walk`): a hop is
a `RedirectionStep`, and two spellings of a name are one place.  The hops are counted before the
records are looked at again, so a chain that ends after exactly sixteen hops is reported as too
long.

* `Hops`                        a stretch of the chain;
* `redirectionLoop_eq`          the loop is `Walk.explore`;
* `FollowedExactly`             the chain is followed as documented;
* `collectRedirectionChain_exact_iff`   it is, exactly if it does not end after sixteen hops;
* `sixteenHops_tooLong`         a chain that does.
-/

namespace DnsResolver

def RedirectionStep.start : RedirectionStep → Name
  | .Cname owner _ => owner
  | .Dname _ _ inputName _ => inputName

section
variable (tx : Presentation) (records : List Record)

/-- following the records from `name` takes the hops `chain` and leads to `last` -/
abbrev Hops (name : Name) (chain : List RedirectionStep) (last : Name) : Prop :=
  Walk.Path (fun current => redirection tx current records) RedirectionStep.next name chain last

/-- the names of the chain, in lower case -/
def visitedNames (name : Name) (chain : List RedirectionStep) : List (List Label) :=
  Walk.places RedirectionStep.next Name.fold name chain

/-- what the outcome of a walk is called here -/
def chainResult : Walk.Outcome RedirectionStep → RedirectionChainResult
  | .complete chain => .Complete chain
  | .loop => .Loop
  | .tooLong => .TooLong

/-- the result describes the walk from `name`: complete if it ends within sixteen hops and visits
no name twice, a loop if a name repeats within sixteen hops, and too long if there are more than
sixteen hops from different names -/
structure FollowedExactly (name : Name) (result : RedirectionChainResult) : Prop where
  complete : ∀ chain, result = .Complete chain ↔ ∃ last, Hops tx records name chain last ∧
    redirection tx last records = none ∧ chain.length ≤ maxCnameChain ∧
    (visitedNames name chain).Nodup
  linked : ∀ chain, result = .Complete chain →
    chain.map RedirectionStep.start = (name :: chain.map RedirectionStep.next).dropLast
  loop : (∃ chain last, Hops tx records name chain last ∧ chain.length ≤ maxCnameChain ∧
    ¬ (visitedNames name chain).Nodup) → result = .Loop
  tooLong : (∃ chain last, Hops tx records name chain last ∧ maxCnameChain < chain.length ∧
    (visitedNames name chain).dropLast.Nodup) → result = .TooLong

end

section
variable {tx : Presentation} {records : List Record} {name last : Name}
  {chain : List RedirectionStep}

theorem redirectionLoop_eq (k : Nat) (seen : List (List Label)) (acc : List RedirectionStep)
    (current : Name) :
    redirectionLoop tx records k seen acc current = chainResult
      (Walk.explore (fun current => redirection tx current records) RedirectionStep.next
        Name.fold k seen acc current) := by
  induction k generalizing seen acc current with
  | zero =>
    simp only [redirectionLoop, Walk.explore]
    split <;> rfl
  | succ k ih =>
    simp only [redirectionLoop, Walk.explore]
    split
    · rfl
    · cases hr : redirection tx current records with
      | none => rfl
      | some step => exact ih _ _ _

theorem collectRedirectionChain_eq (name : Name) :
    collectRedirectionChain tx name records = chainResult
      (Walk.explore (fun current => redirection tx current records) RedirectionStep.next
        Name.fold maxCnameChain [] [] name) :=
  redirectionLoop_eq maxCnameChain [] [] name

theorem chainResult_complete {o : Walk.Outcome RedirectionStep} :
    chainResult o = .Complete chain ↔ o = .complete chain := by
  cases o <;> simp [chainResult]

theorem chainResult_loop {o : Walk.Outcome RedirectionStep} :
    chainResult o = .Loop ↔ o = .loop := by
  cases o <;> simp [chainResult]

theorem chainResult_tooLong {o : Walk.Outcome RedirectionStep} :
    chainResult o = .TooLong ↔ o = .tooLong := by
  cases o <;> simp [chainResult]

/-! ## the three results -/

/-- a complete chain has fewer than sixteen hops -/
theorem collectRedirectionChain_complete : collectRedirectionChain tx name records =
    .Complete chain ↔ ∃ last, Hops tx records name chain last ∧
      redirection tx last records = none ∧ chain.length < maxCnameChain ∧
      (visitedNames name chain).Nodup := by
  rw [collectRedirectionChain_eq, chainResult_complete, Walk.explore_complete_iff]
  rfl

theorem collectRedirectionChain_loop : collectRedirectionChain tx name records = .Loop ↔
    ∃ chain last, Hops tx records name chain last ∧ chain.length ≤ maxCnameChain ∧
      ¬ (visitedNames name chain).Nodup := by
  rw [collectRedirectionChain_eq, chainResult_loop, Walk.explore_loop_iff]
  rfl

/-- sixteen hops are too long, whether there is another one or not -/
theorem collectRedirectionChain_tooLong : collectRedirectionChain tx name records = .TooLong ↔
    ∃ chain last, Hops tx records name chain last ∧ chain.length = maxCnameChain ∧
      (visitedNames name chain).Nodup := by
  rw [collectRedirectionChain_eq, chainResult_tooLong, Walk.explore_tooLong_iff]
  rfl

theorem redirection_start {step : RedirectionStep} (h : redirection tx name records = some step) :
    step.start = name := by
  unfold redirection at h
  split at h
  · obtain rfl := Option.some.inj h
    rfl
  · split at h
    · obtain rfl := Option.some.inj h
      rfl
    · exact absurd h (by simp)

theorem hops_linked (h : Hops tx records name chain last) :
    chain.map RedirectionStep.start = (name :: chain.map RedirectionStep.next).dropLast := by
  induction h with
  | nil a => rfl
  | @cons a b s l hs _ ih =>
    rw [List.map_cons, List.map_cons, ih, redirection_start hs]
    rfl

/-- seventeen names before the last hop are the names of the first sixteen hops -/
theorem nodup_take_of_dropLast (hl : maxCnameChain < chain.length)
    (hn : (visitedNames name chain).dropLast.Nodup) :
    (visitedNames name (chain.take maxCnameChain)).Nodup := by
  refine hn.sublist (List.IsPrefix.sublist ?_)
  rw [List.dropLast_eq_take]
  have htake : visitedNames name (chain.take maxCnameChain) =
      (visitedNames name chain).take (maxCnameChain + 1) := by
    simp only [visitedNames, Walk.places, List.map_take, List.take_succ_cons]
  rw [htake]
  refine List.take_prefix_take_left ?_
  simp only [visitedNames, Walk.places, List.length_cons, List.length_map]
  omega

end

/-- **The redirection chain is followed exactly unless it ends after sixteen hops.** -/
theorem collectRedirectionChain_exact_iff (tx : Presentation) (records : List Record)
    (name : Name) :
    FollowedExactly tx records name (collectRedirectionChain tx name records) ↔
      ¬ ∃ chain last, Hops tx records name chain last ∧ redirection tx last records = none ∧
        chain.length = maxCnameChain ∧ (visitedNames name chain).Nodup := by
  constructor
  · rintro hx ⟨chain, last, hp, hstop, hlen, hn⟩
    have hc := (hx.complete chain).mpr ⟨last, hp, hstop, hlen.le, hn⟩
    have ht := collectRedirectionChain_tooLong.mpr ⟨chain, last, hp, hlen, hn⟩
    exact absurd (hc.symm.trans ht) (by simp)
  · intro hno
    constructor
    · intro chain
      rw [collectRedirectionChain_complete]
      constructor
      · rintro ⟨last, hp, hstop, hlen, hn⟩
        exact ⟨last, hp, hstop, hlen.le, hn⟩
      · rintro ⟨last, hp, hstop, hlen, hn⟩
        refine ⟨last, hp, hstop, lt_of_le_of_ne hlen fun he => ?_, hn⟩
        exact hno ⟨chain, last, hp, hstop, he, hn⟩
    · intro chain hc
      obtain ⟨last, hp, _⟩ := collectRedirectionChain_complete.mp hc
      exact hops_linked hp
    · exact collectRedirectionChain_loop.mpr
    · rintro ⟨chain, last, hp, hlen, hn⟩
      obtain ⟨c, hc⟩ := hp.take maxCnameChain
      refine collectRedirectionChain_tooLong.mpr ⟨_, c, hc, ?_, nodup_take_of_dropLast hlen hn⟩
      rw [List.length_take]
      omega

/-! ## sixteen aliases -/

theorem validLabels_letter (b : UInt8) : ValidLabels [[b]] := by
  refine ⟨fun l hl => ?_, ?_⟩
  · rw [List.mem_singleton.mp hl, List.length_singleton]
    omega
  · simp only [List.length_singleton, wireLen]
    omega

def hopName (i : Nat) : Name := ⟨[[UInt8.ofNat (97 + i)]], validLabels_letter _⟩

def hopStep (i : Nat) : RedirectionStep := .Cname (hopName i) (hopName (i + 1))

/-- each of the first sixteen letters is an alias of the next -/
def sixteenHops : List Record :=
  (List.range 16).map fun i => { name := hopName i, ttl := 300, data := .cname (hopName (i + 1)) }

theorem redirection_sixteenHops : ∀ i ∈ List.range 16,
    redirection noText (hopName i) sixteenHops = some (hopStep i) := by
  decide +kernel

theorem hops_sixteenHops (n i : Nat) (h : i + n = 16) :
    Hops noText sixteenHops (hopName i) ((List.range' i n).map hopStep) (hopName 16) := by
  induction n generalizing i with
  | zero =>
    rw [show i = 16 by omega]
    exact .nil _
  | succ n ih =>
    rw [List.range'_succ, List.map_cons]
    exact .cons (redirection_sixteenHops i (List.mem_range.mpr (by omega))) (ih (i + 1) (by omega))

/-- the chain ends after its sixteenth hop and visits seventeen names, but is too long -/
theorem sixteenHops_tooLong :
    collectRedirectionChain noText (hopName 0) sixteenHops = .TooLong ∧
      redirection noText (hopName 16) sixteenHops = none ∧
      ¬ FollowedExactly noText sixteenHops (hopName 0)
        (collectRedirectionChain noText (hopName 0) sixteenHops) := by
  have hres : collectRedirectionChain noText (hopName 0) sixteenHops = .TooLong := by
    decide +kernel
  have hstop : redirection noText (hopName 16) sixteenHops = none := by decide +kernel
  refine ⟨hres, hstop, fun hx => ?_⟩
  have hc := (hx.complete ((List.range' 0 16).map hopStep)).mpr
    ⟨hopName 16, hops_sixteenHops 16 0 rfl, hstop, by decide, by decide +kernel⟩
  exact absurd (hres.symm.trans hc) (by simp)

end DnsResolver
