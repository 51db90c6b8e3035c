import DnsResolver.Engine.Flights
import Mathlib.Data.List.Induction

/-!
# Who did the work (the `was_leader` of `SingleFlight::run`)

A call is the leader if it put the cell into the map.  Its closure is executed if it is the first
to get to `get_or_init`.  These are two steps, and a call that found the cell can be first.

* `Worked`              the closure of the call was executed in the course of the run;
* `Traced`              what a run leaves behind: every value was made by some closure;
* `InTurn`              no call gets to `get_or_init` before the leader of its cell;
* `flags_name_workers`  then, and only then, the flags of the calls that returned name the workers.
-/

set_option linter.unusedSectionVars false

namespace DnsResolver
namespace SingleFlight
variable {κ τ : Type} [DecidableEq κ] {sf : SingleFlight κ τ} {ops : List (FlightOp κ τ)}
  {op : FlightOp κ τ} {i j : Nat} {c d : FlightCall κ τ}

/-- the closure of the `i`-th call was executing at some moment of the run -/
def Worked (ops : List (FlightOp κ τ)) (i : Nat) : Prop :=
  ∃ before key, before <+: ops ∧ (runOps before {}).Executes i key

/-- of the calls that have returned, those whose flag is set are those that did the work -/
def FlagsNameWorkers (ops : List (FlightOp κ τ)) : Prop :=
  ∀ (i : Nat) c v, (runOps ops {}).calls[i]? = some c → c.stage = .returned v →
    (c.isLeader = true ↔ Worked ops i)

/-- a call does not get to `get_or_init` while the call that put its cell into the map is still on
the way there -/
def InTurn (sf : SingleFlight κ τ) : FlightOp κ τ → Prop
  | .acquire i => ∀ c, sf.calls[i]? = some c → c.stage = .waiting → c.isLeader = false →
      ∀ (j : Nat) d, sf.calls[j]? = some d → d.isLeader = true → d.cell = c.cell →
        d.stage ≠ .waiting
  | _ => True

theorem runOps_concat (ops : List (FlightOp κ τ)) (op : FlightOp κ τ) :
    runOps (ops ++ [op]) ({} : SingleFlight κ τ) = (runOps ops {}).step op := by
  unfold runOps
  rw [List.foldl_append]
  rfl

theorem worked_concat : Worked (ops ++ [op]) i ↔
    Worked ops i ∨ ∃ key, ((runOps ops {}).step op).Executes i key := by
  constructor
  · rintro ⟨before, key, hp, he⟩
    rcases List.prefix_concat_iff.mp hp with rfl | hp
    · rw [runOps_concat] at he
      exact Or.inr ⟨key, he⟩
    · exact Or.inl ⟨before, key, hp, he⟩
  · rintro (⟨before, key, hp, he⟩ | ⟨key, he⟩)
    · exact ⟨before, key, hp.trans (List.prefix_append _ _), he⟩
    · refine ⟨ops ++ [op], key, List.prefix_refl _, ?_⟩
      rw [runOps_concat]
      exact he

theorem not_worked_nil : ¬ Worked ([] : List (FlightOp κ τ)) i := by
  rintro ⟨before, key, hp, c, hc, _⟩
  obtain rfl := List.prefix_nil.mp hp
  cases hc

/-! ## one call in one step -/

/-- what a step makes of the `i`-th call -/
inductive CallMoves (sf : SingleFlight κ τ) (op : FlightOp κ τ) (i : Nat) (c : FlightCall κ τ) :
    FlightCall κ τ → Prop
  | stays : CallMoves sf op i c c
  | starts : op = .acquire i → c.stage = .waiting → sf.value c.cell = none →
      (∀ (j : Nat) d, sf.calls[j]? = some d → d.stage = .working → d.cell ≠ c.cell) →
      CallMoves sf op i c { c with stage := .working }
  | finishes (v : τ) : c.stage = .working → CallMoves sf op i c { c with stage := .got v }
  | observes (v : τ) : c.stage = .waiting → sf.value c.cell = some v →
      CallMoves sf op i c { c with stage := .got v }
  | returns (v : τ) : c.stage = .got v → CallMoves sf op i c { c with stage := .returned v }
  | drops : op = .cancel i → CallMoves sf op i c { c with stage := .dropped }

theorem CallMoves.same (h : CallMoves sf op i c d) :
    d.key = c.key ∧ d.cell = c.cell ∧ d.isLeader = c.isLeader := by
  cases h <;> exact ⟨rfl, rfl, rfl⟩

/-- a call that is past `waiting` stays past it -/
theorem CallMoves.past (h : CallMoves sf op i c d) (hc : c.stage ≠ .waiting) :
    d.stage ≠ .waiting := by
  cases h with
  | stays => exact hc
  | _ =>
    intro hs
    cases hs

theorem step_call (hd : (sf.step op).calls[i]? = some d) :
    (∃ c, sf.calls[i]? = some c ∧ CallMoves sf op i c d) ∨
    sf.calls[i]? = none ∧ d.stage = .waiting ∧
      (d.isLeader = true ∨ sf.flights d.key = some d.cell) := by
  have hmoves := sf.step_moves op
  revert hmoves hd
  generalize sf.step op = sf'
  intro hd hmoves
  have hadv : ∀ {j : Nat} {e : FlightCall κ τ} {stage : CallStage τ} {cells : List (Option τ)}
      {flights : κ → Option Nat}, sf.calls[j]? = some e →
      (sf.advance j e stage cells flights).calls[i]? = some d →
      (i = j → CallMoves sf op i e { e with stage := stage }) →
      ∃ c, sf.calls[i]? = some c ∧ CallMoves sf op i c d := by
    intro j e stage cells flights he hd hm
    rcases (getElem?_advance he).mp hd with ⟨rfl, rfl⟩ | ⟨_, hd⟩
    · exact ⟨e, he, hm rfl⟩
    · exact ⟨d, hd, .stays⟩
  cases hmoves with
  | idle => exact Or.inl ⟨d, hd, .stays⟩
  | join hk =>
    rcases getElem?_calls_append.mp hd with hd | ⟨rfl, rfl⟩
    · exact Or.inl ⟨d, hd, .stays⟩
    · exact Or.inr ⟨List.getElem?_eq_none (Nat.le_refl _), rfl, Or.inr hk⟩
  | lead _ =>
    rcases getElem?_calls_append.mp hd with hd | ⟨rfl, rfl⟩
    · exact Or.inl ⟨d, hd, .stays⟩
    · exact Or.inr ⟨List.getElem?_eq_none (Nat.le_refl _), rfl, Or.inl rfl⟩
  | acquire he hs hv hfree =>
    refine Or.inl (hadv he hd ?_)
    rintro rfl
    exact .starts rfl hs hv hfree
  | finish v he hs => exact Or.inl (hadv he hd fun _ => .finishes v hs)
  | observe he hs hv => exact Or.inl (hadv he hd fun _ => .observes _ hs hv)
  | leave he hs => exact Or.inl (hadv he hd fun _ => .returns _ hs)
  | cancel he _ =>
    refine Or.inl (hadv he hd ?_)
    rintro rfl
    exact .drops rfl

/-- every call that was there is there afterwards -/
theorem step_keeps (hc : sf.calls[i]? = some c) (op : FlightOp κ τ) :
    ∃ d, (sf.step op).calls[i]? = some d ∧ CallMoves sf op i c d := by
  have hlen : i < (sf.step op).calls.length := by
    refine Nat.lt_of_lt_of_le (List.getElem?_eq_some_iff.mp hc).1 ?_
    have hmoves := sf.step_moves op
    revert hmoves
    generalize sf.step op = sf'
    intro hmoves
    cases hmoves <;> simp [advance]
  refine ⟨_, List.getElem?_eq_getElem hlen, ?_⟩
  rcases step_call (List.getElem?_eq_getElem hlen) with ⟨e, he, hm⟩ | ⟨hnone, _⟩
  · rw [hc] at he
    rw [Option.some.inj he]
    exact hm
  · rw [hc] at hnone
    cases hnone

theorem step_value {cell : Nat} {v : τ} (hok : sf.FlightsOk)
    (h : (sf.step op).value cell = some v) :
    sf.value cell = some v ∨ ∃ (i : Nat) (c : FlightCall κ τ), sf.calls[i]? = some c ∧
      c.stage = .working ∧ c.cell = cell := by
  have hmoves := sf.step_moves op
  revert hmoves h
  generalize sf.step op = sf'
  intro h hmoves
  cases hmoves with
  | idle => exact Or.inl h
  | join _ => exact Or.inl h
  | lead _ =>
    left
    unfold value at h ⊢
    rw [List.getElem?_append] at h
    split at h
    · exact h
    · rw [List.getElem?_singleton] at h
      split at h <;> cases h
  | acquire _ _ _ _ => exact Or.inl h
  | @finish i c w hc hs =>
    have hset : ((sf.cells.set c.cell (some w))[cell]?).join = some v := h
    rw [join_set (hok.cell_lt i c hc)] at hset
    split at hset
    · rename_i hcell
      exact Or.inr ⟨i, c, hc, hs, hcell.symm⟩
    · exact Or.inl hset
  | observe _ _ _ => exact Or.inl h
  | leave _ _ => exact Or.inl h
  | cancel _ _ => exact Or.inl h

/-! ## what a run leaves behind -/

theorem Worked.call (h : Worked ops i) :
    ∃ c, (runOps ops {}).calls[i]? = some c ∧ c.stage ≠ .waiting := by
  induction ops using List.reverseRecOn with
  | nil => exact absurd h not_worked_nil
  | append_singleton ops op ih =>
    rw [runOps_concat]
    rcases worked_concat.mp h with h | ⟨key, c, hc, hs, _⟩
    · obtain ⟨c, hc, hpast⟩ := ih h
      obtain ⟨d, hd, hm⟩ := step_keeps hc op
      exact ⟨d, hd, hm.past hpast⟩
    · refine ⟨c, hc, ?_⟩
      rw [hs]
      intro h
      cases h

theorem worked_of_working (hc : (runOps ops {}).calls[i]? = some c) (hs : c.stage = .working) :
    Worked ops i :=
  ⟨ops, c.key, List.prefix_refl _, c, hc, hs, rfl⟩

theorem value_made {cell : Nat} {v : τ} (h : (runOps ops {}).value cell = some v) :
    ∃ j d, (runOps ops {}).calls[j]? = some d ∧ d.cell = cell ∧ Worked ops j := by
  induction ops using List.reverseRecOn generalizing v with
  | nil => cases h
  | append_singleton ops op ih =>
    rw [runOps_concat] at h ⊢
    have hmade : ∃ j d, (runOps ops {}).calls[j]? = some d ∧ d.cell = cell ∧ Worked ops j := by
      rcases step_value (flightsOk_runOps ops) h with h | ⟨i, c, hc, hs, hcell⟩
      · exact ih h
      · exact ⟨i, c, hc, hcell, worked_of_working hc hs⟩
    obtain ⟨j, c, hc, hcell, hw⟩ := hmade
    obtain ⟨d, hd, hm⟩ := step_keeps hc op
    exact ⟨j, d, hd, hm.same.2.1.trans hcell, worked_concat.mpr (Or.inl hw)⟩

theorem cell_led (hc : (runOps ops {}).calls[i]? = some c) :
    ∃ (j : Nat) (d : FlightCall κ τ), (runOps ops {}).calls[j]? = some d ∧ d.isLeader = true ∧
      d.cell = c.cell := by
  induction ops using List.reverseRecOn generalizing i c with
  | nil => cases hc
  | append_singleton ops op ih =>
    rw [runOps_concat] at hc ⊢
    have hkeep : ∀ {j : Nat} {e : FlightCall κ τ}, (runOps ops {}).calls[j]? = some e →
        e.isLeader = true → e.cell = c.cell →
        ∃ (j : Nat) (d : FlightCall κ τ), ((runOps ops {}).step op).calls[j]? = some d ∧
          d.isLeader = true ∧ d.cell = c.cell := by
      intro j e he hl hcell
      obtain ⟨d, hd, hm⟩ := step_keeps he op
      exact ⟨j, d, hd, hm.same.2.2.trans hl, hm.same.2.1.trans hcell⟩
    rcases step_call hc with ⟨b, hb, hm⟩ | ⟨_, _, hl | hmap⟩
    · obtain ⟨j, e, he, hl, hcell⟩ := ih hb
      exact hkeep he hl (hcell.trans hm.same.2.1.symm)
    · exact ⟨i, c, hc, hl, rfl⟩
    · obtain ⟨j, e, he, hl, _, _, hcell⟩ := ((flightsOk_runOps ops).guarded _ _).mp hmap
      exact hkeep he hl hcell

/-! ## calls in turn -/

/-- in a run without cancellations in which the calls come in turn: a worker is a leader, a leader
that is past `waiting` has worked, and nobody is dropped -/
structure Led (ops : List (FlightOp κ τ)) : Prop where
  workers : ∀ (i : Nat) c, (runOps ops {}).calls[i]? = some c → Worked ops i → c.isLeader = true
  leaders : ∀ (i : Nat) c, (runOps ops {}).calls[i]? = some c → c.isLeader = true →
    c.stage ≠ .waiting → Worked ops i
  kept : ∀ (i : Nat) c, (runOps ops {}).calls[i]? = some c → c.stage ≠ .dropped

/-- the call that starts its closure is the leader of its cell: a leader before it would still
be working, or would have left a value -/
theorem Led.starter (h : Led ops) (hc : (runOps ops {}).calls[i]? = some c)
    (hturn : InTurn (runOps ops {}) (.acquire i)) (hs : c.stage = .waiting)
    (hv : (runOps ops {}).value c.cell = none)
    (hfree : ∀ (j : Nat) d, (runOps ops {}).calls[j]? = some d → d.stage = .working →
      d.cell ≠ c.cell) : c.isLeader = true := by
  by_contra hl
  rw [Bool.not_eq_true] at hl
  obtain ⟨j, d, hd, hlead, hcell⟩ := cell_led hc
  have hnot := hturn c hc hs hl j d hd hlead hcell
  have hvalue : ∀ w, d.stage = .got w ∨ d.stage = .returned w → False := by
    intro w hw
    have := (flightsOk_runOps ops).value_of j d w hd hw
    rw [hcell, hv] at this
    cases this
  cases hst : d.stage with
  | waiting => exact hnot hst
  | working => exact hfree j d hd hst hcell
  | got w => exact hvalue w (Or.inl hst)
  | returned w => exact hvalue w (Or.inr hst)
  | dropped => exact h.kept j d hd hst

theorem Led.step (h : Led ops) (hturn : InTurn (runOps ops {}) op)
    (hcancel : ∀ i, op ≠ .cancel i) : Led (ops ++ [op]) where
  workers := by
    intro i d hd hw
    rw [runOps_concat] at hd
    rcases worked_concat.mp hw with hw | ⟨key, e, he, hs, _⟩
    · obtain ⟨c, hc, _⟩ := hw.call
      obtain ⟨e, he, hm⟩ := step_keeps hc op
      rw [hd] at he
      rw [Option.some.inj he, hm.same.2.2]
      exact h.workers i c hc hw
    · rw [hd] at he
      obtain rfl := Option.some.inj he
      rcases step_call hd with ⟨c, hc, hm⟩ | ⟨_, hwait, _⟩
      · rw [hm.same.2.2]
        cases hm with
        | stays => exact h.workers i d hc (worked_of_working hc hs)
        | starts hop hwait hv hfree =>
          rw [hop] at hturn
          exact h.starter hc hturn hwait hv hfree
        | _ => cases hs
      · rw [hs] at hwait
        cases hwait
  leaders := by
    intro i d hd hl hpast
    rw [runOps_concat] at hd
    rcases step_call hd with ⟨c, hc, hm⟩ | ⟨_, hwait, _⟩
    · have hlc : c.isLeader = true := hm.same.2.2.symm.trans hl
      rw [worked_concat]
      by_cases hcw : c.stage = .waiting
      · cases hm with
        | stays => exact absurd hcw hpast
        | starts _ _ _ _ => exact Or.inr ⟨c.key, _, hd, rfl, rfl⟩
        | finishes v hs =>
          rw [hs] at hcw
          cases hcw
        | observes v _ hv =>
          -- the value is the work of a leader of this cell
          obtain ⟨j, e, he, hcell, hw⟩ := value_made hv
          have hij := (flightsOk_runOps ops).leader_unique j i e c he hc (h.workers j e he hw)
            hlc hcell
          rw [← hij]
          exact Or.inl hw
        | returns v hs =>
          rw [hs] at hcw
          cases hcw
        | drops hop => exact absurd hop (hcancel i)
      · exact Or.inl (h.leaders i c hc hlc hcw)
    · exact absurd hwait hpast
  kept := by
    intro i d hd
    rw [runOps_concat] at hd
    rcases step_call hd with ⟨c, hc, hm⟩ | ⟨_, hwait, _⟩
    · cases hm with
      | stays => exact h.kept i d hc
      | drops hop => exact absurd hop (hcancel i)
      | _ =>
        intro hs
        cases hs
    · rw [hwait]
      intro hs
      cases hs

theorem led_nil : Led ([] : List (FlightOp κ τ)) where
  workers := fun i c hc _ => by cases hc
  leaders := fun i c hc _ _ => by cases hc
  kept := fun i c hc => by cases hc

theorem led_of_inTurn (hcancel : ∀ i, FlightOp.cancel i ∉ ops)
    (h : Run.Meets step InTurn ops ({} : SingleFlight κ τ)) : Led ops := by
  induction ops using List.reverseRecOn with
  | nil => exact led_nil
  | append_singleton ops op ih =>
    obtain ⟨hops, hop, _⟩ := Run.Meets.append.mp h
    refine (ih (fun i hi => hcancel i (List.mem_append_left _ hi)) hops).step hop fun i hi => ?_
    exact hcancel i (List.mem_append_right _ (List.mem_singleton.mpr hi.symm))

theorem Led.flags (h : Led ops) : FlagsNameWorkers ops := by
  intro i c v hc hs
  constructor
  · intro hl
    refine h.leaders i c hc hl ?_
    rw [hs]
    intro hw
    cases hw
  · exact h.workers i c hc

/-! ## and out of turn -/

theorem call_later (more : List (FlightOp κ τ)) (hc : (runOps ops {}).calls[i]? = some c) :
    ∃ d, (runOps (ops ++ more) {}).calls[i]? = some d ∧ d.isLeader = c.isLeader := by
  induction more using List.reverseRecOn with
  | nil =>
    rw [List.append_nil]
    exact ⟨c, hc, rfl⟩
  | append_singleton more op ih =>
    obtain ⟨d, hd, hl⟩ := ih
    obtain ⟨e, he, hm⟩ := step_keeps hd op
    rw [← List.append_assoc, runOps_concat]
    exact ⟨e, he, hm.same.2.2.trans hl⟩

theorem Worked.later {more : List (FlightOp κ τ)} (h : Worked ops i) :
    Worked (ops ++ more) i := by
  obtain ⟨before, key, hp, he⟩ := h
  exact ⟨before, key, hp.trans (List.prefix_append _ _), he⟩

/-- a call that gets to `get_or_init` before its leader: it, or another call of the cell that is
not its leader, works -/
theorem overtaker (hc : (runOps ops {}).calls[i]? = some c) (hs : c.stage = .waiting)
    (hl : c.isLeader = false) (hd : (runOps ops {}).calls[j]? = some d) (hlead : d.isLeader = true)
    (hcell : d.cell = c.cell) (hwait : d.stage = .waiting) :
    ∃ (k : Nat) (e : FlightCall κ τ), (runOps (ops ++ [.acquire i]) {}).calls[k]? = some e ∧
      e.isLeader = false ∧ Worked (ops ++ [.acquire i]) k := by
  have hok := flightsOk_runOps ops
  have hother : ∀ (k : Nat) (e : FlightCall κ τ), (runOps ops {}).calls[k]? = some e →
      e.cell = c.cell → Worked ops k →
      ∃ (k : Nat) (e : FlightCall κ τ), (runOps (ops ++ [.acquire i]) {}).calls[k]? = some e ∧
        e.isLeader = false ∧ Worked (ops ++ [.acquire i]) k := by
    intro k e he hek hw
    have hle : e.isLeader = false := by
      by_contra hle
      rw [Bool.not_eq_false] at hle
      obtain rfl := hok.leader_unique k j e d he hd hle hlead (hek.trans hcell.symm)
      obtain ⟨b, hb, hpast⟩ := hw.call
      rw [hd] at hb
      rw [← Option.some.inj hb] at hpast
      exact hpast hwait
    obtain ⟨b, hb, hlb⟩ := call_later [.acquire i] he
    exact ⟨k, b, hb, hlb.trans hle, hw.later⟩
  cases hv : (runOps ops {}).value c.cell with
  | some v =>
    obtain ⟨k, e, he, hek, hw⟩ := value_made hv
    exact hother k e he hek hw
  | none =>
    by_cases hany : (runOps ops {}).calls.any (FlightCall.worksOn c.cell) = true
    · obtain ⟨e, hmem, hwork⟩ := List.any_eq_true.mp hany
      obtain ⟨k, he⟩ := List.mem_iff_getElem?.mp hmem
      obtain ⟨hse, hek⟩ := FlightCall.worksOn_iff.mp hwork
      exact hother k e he hek (worked_of_working he hse)
    · -- the call itself starts
      have hstep : (runOps ops {}).step (.acquire i) = (runOps ops {}).setStage i c .working := by
        show ((runOps ops {}).acquire i).getD (runOps ops {}) = _
        unfold acquire
        rw [hc]
        dsimp only
        rw [hs, hv]
        dsimp only
        rw [if_neg hany]
        rfl
      have hcall : (runOps (ops ++ [.acquire i]) {}).calls[i]? =
          some { c with stage := .working } := by
        rw [runOps_concat, hstep]
        unfold setStage
        exact (getElem?_advance hc).mpr (Or.inl ⟨rfl, rfl⟩)
      exact ⟨i, _, hcall, hl, worked_of_working hcall rfl⟩

theorem inTurn_of_flags (hdone : ∀ c ∈ (runOps ops ({} : SingleFlight κ τ)).calls,
    ∃ v, c.stage = .returned v) (h : FlagsNameWorkers ops) :
    Run.Meets step InTurn ops ({} : SingleFlight κ τ) := by
  rw [Run.meets_iff]
  rintro before op after rfl
  cases op with
  | acquire i =>
    intro c hc hs hl j d hd hlead hcell hwait
    obtain ⟨k, e, he, hle, hw⟩ := overtaker hc hs hl hd hlead hcell hwait
    rw [List.append_cons] at hdone h
    obtain ⟨b, hb, hlb⟩ := call_later after he
    obtain ⟨v, hv⟩ := hdone b (List.mem_of_getElem? hb)
    have hflag := (h k b v hb hv).mpr hw.later
    rw [hlb, hle] at hflag
    cases hflag
  | _ => exact trivial

/-- **When the leader flag names the worker.**  In a run without cancellations whose calls get to
`get_or_init` in turn, the flags name the workers at every moment; and if every call has returned
and the flags name the workers, the calls were in turn. -/
theorem flags_name_workers (hcancel : ∀ i, FlightOp.cancel i ∉ ops) :
    (Run.Meets step InTurn ops ({} : SingleFlight κ τ) →
      ∀ before : List (FlightOp κ τ), before <+: ops → FlagsNameWorkers before) ∧
    ((∀ c ∈ (runOps ops ({} : SingleFlight κ τ)).calls, ∃ v, c.stage = .returned v) →
      FlagsNameWorkers ops → Run.Meets step InTurn ops ({} : SingleFlight κ τ)) := by
  refine ⟨fun h before hp => ?_, inTurn_of_flags⟩
  refine (led_of_inTurn (fun i hi => hcancel i ?_) (h.initial hp)).flags
  exact hp.subset hi

/-- the leader works, and a call that joined it gets the value -/
def inTurnRun : List (FlightOp String Nat) :=
  [.enter "example.com.:A:IN", .enter "example.com.:A:IN", .acquire 0, .finish 0 7, .observe 1,
    .leave 0, .leave 1]

theorem flags_name_workers_inTurn : FlagsNameWorkers inTurnRun := by
  have hcancel : ∀ i, FlightOp.cancel i ∉ inTurnRun := by
    intro i hi
    simp [inTurnRun] at hi
  refine (flags_name_workers hcancel).1 ?_ inTurnRun (List.prefix_refl _)
  refine ⟨trivial, trivial, ?_, trivial, trivial, trivial, trivial, trivial⟩
  intro c hc _ hl
  cases hc
  cases hl

/-- the call that joined gets to `get_or_init` first -/
def overtakenRun : List (FlightOp String Nat) :=
  [.enter "example.com.:A:IN", .enter "example.com.:A:IN", .acquire 1, .finish 1 7, .observe 0,
    .leave 0, .leave 1]

/-- it does the work and is told that it did not -/
theorem overtaken_flag :
    (∀ i, FlightOp.cancel i ∉ overtakenRun) ∧ Worked overtakenRun 1 ∧
      (runOps overtakenRun {}).calls[1]? =
        some ⟨"example.com.:A:IN", 0, false, .returned 7⟩ ∧
      (runOps overtakenRun {}).calls[0]? =
        some ⟨"example.com.:A:IN", 0, true, .returned 7⟩ ∧
      ¬ FlagsNameWorkers overtakenRun := by
  have hworked : Worked overtakenRun 1 :=
    ⟨overtakenRun.take 3, "example.com.:A:IN", List.take_prefix _ _, _, rfl, rfl, rfl⟩
  refine ⟨fun i hi => by simp [overtakenRun] at hi, hworked, rfl, rfl, fun h => ?_⟩
  have hflag := (h 1 _ 7 rfl rfl).mpr hworked
  cases hflag

end SingleFlight
end DnsResolver
