import DnsResolver.Engine.SingleFlight
import DnsResolver.Lib.Run

/-!
# Interleavings of single-flight calls

A run is a list of operations of `SingleFlight`, in any order and on any keys; an operation that
does not apply does nothing.

* `Moves`           what one operation can do;
* `FlightsOk`       the invariant of the map, the guards and the cells;
* `KeepsFollowers`  a leader is not dropped while another call depends on its cell;
* `Gathered`        while that is so, the calls that may still run a closure are all in the cell
                    the map holds for their key.
-/

set_option linter.unusedSectionVars false

namespace DnsResolver

/-- one operation on behalf of one call -/
inductive FlightOp (κ τ : Type) where
  | enter (key : κ)
  | acquire (i : Nat)
  | finish (i : Nat) (v : τ)
  | observe (i : Nat)
  | leave (i : Nat)
  | cancel (i : Nat)

namespace FlightCall
variable {κ τ : Type}

/-- `run` has neither returned nor been dropped -/
def Live (c : FlightCall κ τ) : Prop :=
  c.stage = .waiting ∨ c.stage = .working ∨ ∃ v, c.stage = .got v

/-- in `get_or_init`, without a value -/
def Pending (c : FlightCall κ τ) : Prop := c.stage = .waiting ∨ c.stage = .working

theorem Pending.live {c : FlightCall κ τ} (h : c.Pending) : c.Live := by
  rcases h with h | h
  · exact Or.inl h
  · exact Or.inr (Or.inl h)

theorem not_live_returned {c : FlightCall κ τ} {v : τ} :
    ¬ ({ c with stage := .returned v } : FlightCall κ τ).Live := by
  rintro (h | h | ⟨w, h⟩) <;> cases h

theorem not_live_dropped {c : FlightCall κ τ} :
    ¬ ({ c with stage := .dropped } : FlightCall κ τ).Live := by
  rintro (h | h | ⟨w, h⟩) <;> cases h

theorem worksOn_iff {cell : Nat} {c : FlightCall κ τ} :
    c.worksOn cell = true ↔ c.stage = .working ∧ c.cell = cell := by
  unfold worksOn
  cases c.stage <;> simp

end FlightCall

namespace SingleFlight
variable {κ τ : Type} [DecidableEq κ] {sf : SingleFlight κ τ}

def step (sf : SingleFlight κ τ) : FlightOp κ τ → SingleFlight κ τ
  | .enter key => sf.enter key
  | .acquire i => (sf.acquire i).getD sf
  | .finish i v => (sf.finish i v).getD sf
  | .observe i => (sf.observe i).getD sf
  | .leave i =>
    match sf.leave i with
    | some (_, sf') => sf'
    | none => sf
  | .cancel i => (sf.cancel i).getD sf

def runOps (ops : List (FlightOp κ τ)) (sf : SingleFlight κ τ) : SingleFlight κ τ :=
  ops.foldl step sf

/-- the `i`-th call put `cell` into the map for `key`, and its guard is not dropped yet -/
def HoldsGuard (sf : SingleFlight κ τ) (i : Nat) (key : κ) (cell : Nat) : Prop :=
  ∃ c, sf.calls[i]? = some c ∧ c.isLeader = true ∧ c.Live ∧ c.key = key ∧ c.cell = cell

/-- the closure of the `i`-th call is executing, for `key` -/
def Executes (sf : SingleFlight κ τ) (i : Nat) (key : κ) : Prop :=
  ∃ c, sf.calls[i]? = some c ∧ c.stage = .working ∧ c.key = key

/-! ## what one operation can do -/

/-- the state after a stage change of the call `c` -/
def advance (sf : SingleFlight κ τ) (i : Nat) (c : FlightCall κ τ) (stage : CallStage τ)
    (cells : List (Option τ)) (flights : κ → Option Nat) : SingleFlight κ τ :=
  { flights := flights, cells := cells, calls := sf.calls.set i { c with stage := stage } }

/-- `flights` after the guard of `c` is dropped, if it has one -/
def released (sf : SingleFlight κ τ) (c : FlightCall κ τ) : κ → Option Nat :=
  if c.isLeader then Function.update sf.flights c.key none else sf.flights

inductive Moves (sf : SingleFlight κ τ) : FlightOp κ τ → SingleFlight κ τ → Prop
  | idle (op : FlightOp κ τ) : Moves sf op sf
  | join {key : κ} {cell : Nat} : sf.flights key = some cell →
      Moves sf (.enter key)
        { sf with calls := sf.calls ++ [{ key := key, cell := cell, isLeader := false }] }
  | lead {key : κ} : sf.flights key = none →
      Moves sf (.enter key)
        { flights := Function.update sf.flights key (some sf.cells.length)
          cells := sf.cells ++ [none]
          calls := sf.calls ++ [{ key := key, cell := sf.cells.length, isLeader := true }] }
  | acquire {i : Nat} {c : FlightCall κ τ} : sf.calls[i]? = some c → c.stage = .waiting →
      sf.value c.cell = none →
      (∀ (j : Nat) d, sf.calls[j]? = some d → d.stage = .working → d.cell ≠ c.cell) →
      Moves sf (.acquire i) (sf.advance i c .working sf.cells sf.flights)
  | finish {i : Nat} {c : FlightCall κ τ} (v : τ) : sf.calls[i]? = some c → c.stage = .working →
      Moves sf (.finish i v) (sf.advance i c (.got v) (sf.cells.set c.cell (some v)) sf.flights)
  | observe {i : Nat} {c : FlightCall κ τ} {v : τ} : sf.calls[i]? = some c → c.stage = .waiting →
      sf.value c.cell = some v → Moves sf (.observe i) (sf.advance i c (.got v) sf.cells sf.flights)
  | leave {i : Nat} {c : FlightCall κ τ} {v : τ} : sf.calls[i]? = some c → c.stage = .got v →
      Moves sf (.leave i) (sf.advance i c (.returned v) sf.cells (sf.released c))
  | cancel {i : Nat} {c : FlightCall κ τ} : sf.calls[i]? = some c → c.Pending →
      Moves sf (.cancel i) (sf.advance i c .dropped sf.cells (sf.released c))

theorem release_setStage (sf : SingleFlight κ τ) (i : Nat) (c : FlightCall κ τ)
    (stage : CallStage τ) :
    (sf.setStage i c stage).release c = sf.advance i c stage sf.cells (sf.released c) := by
  unfold release released
  split <;> rfl

theorem step_moves (sf : SingleFlight κ τ) (op : FlightOp κ τ) : Moves sf op (sf.step op) := by
  cases op with
  | enter key =>
    show Moves sf (.enter key) (sf.enter key)
    unfold enter
    split
    · rename_i cell h
      exact .join h
    · rename_i h
      exact .lead h
  | acquire i =>
    show Moves sf (.acquire i) ((sf.acquire i).getD sf)
    unfold acquire
    split
    · rename_i c hc
      split
      · rename_i hs hv
        split
        · exact .idle _
        · rename_i hany
          refine .acquire hc hs hv fun j d hd hw hcell => hany ?_
          rw [List.any_eq_true]
          exact ⟨d, List.mem_of_getElem? hd, FlightCall.worksOn_iff.mpr ⟨hw, hcell⟩⟩
      · exact .idle _
    · exact .idle _
  | finish i v =>
    show Moves sf (.finish i v) ((sf.finish i v).getD sf)
    unfold finish
    split
    · rename_i c hc
      split
      · rename_i hs
        exact .finish v hc hs
      · exact .idle _
    · exact .idle _
  | observe i =>
    show Moves sf (.observe i) ((sf.observe i).getD sf)
    unfold observe
    split
    · rename_i c hc
      split
      · rename_i v hs hv
        exact .observe hc hs hv
      · exact .idle _
    · exact .idle _
  | leave i =>
    simp only [step, leave]
    cases hc : sf.calls[i]? with
    | none => exact .idle _
    | some c =>
      dsimp only
      cases hs : c.stage with
      | got v =>
        dsimp only
        rw [release_setStage]
        exact .leave hc hs
      | _ => exact .idle _
  | cancel i =>
    show Moves sf (.cancel i) ((sf.cancel i).getD sf)
    unfold cancel
    split
    · rename_i c hc
      split
      · rename_i hs
        rw [Option.getD_some, release_setStage]
        exact .cancel hc (Or.inl hs)
      · rename_i hs
        rw [Option.getD_some, release_setStage]
        exact .cancel hc (Or.inr hs)
      · exact .idle _
    · exact .idle _

/-! ## the invariant -/

/-- what holds between the map, the guards, the cells and the stages of the calls -/
structure FlightsOk (sf : SingleFlight κ τ) : Prop where
  cell_lt : ∀ (i : Nat) c, sf.calls[i]? = some c → c.cell < sf.cells.length
  guarded : ∀ key cell, sf.flights key = some cell ↔ ∃ i, sf.HoldsGuard i key cell
  leader_unique : ∀ (i j : Nat) c d, sf.calls[i]? = some c → sf.calls[j]? = some d →
    c.isLeader = true → d.isLeader = true → c.cell = d.cell → i = j
  value_of : ∀ (i : Nat) c v, sf.calls[i]? = some c → c.stage = .got v ∨ c.stage = .returned v →
    sf.value c.cell = some v
  working_open : ∀ (i : Nat) c, sf.calls[i]? = some c → c.stage = .working →
    sf.value c.cell = none
  one_worker : ∀ (i j : Nat) c d, sf.calls[i]? = some c → sf.calls[j]? = some d →
    c.stage = .working → d.stage = .working → c.cell = d.cell → i = j

section
variable {i j : Nat} {c d : FlightCall κ τ} {stage : CallStage τ} {cells : List (Option τ)}
  {flights : κ → Option Nat} {key : κ} {cell : Nat}

theorem getElem?_advance (hc : sf.calls[i]? = some c) :
    (sf.advance i c stage cells flights).calls[j]? = some d ↔
      (j = i ∧ d = { c with stage := stage }) ∨ (j ≠ i ∧ sf.calls[j]? = some d) := by
  unfold advance
  grind

theorem holdsGuard_advance_live (hc : sf.calls[i]? = some c) (hl : c.Live)
    (hs : ({ c with stage := stage } : FlightCall κ τ).Live) :
    (sf.advance i c stage cells flights).HoldsGuard j key cell ↔ sf.HoldsGuard j key cell := by
  unfold HoldsGuard
  simp only [getElem?_advance hc]
  constructor
  · rintro ⟨d, ⟨rfl, rfl⟩ | ⟨-, hd⟩, hlead, hlive, hk, hcell⟩
    · exact ⟨c, hc, hlead, hl, hk, hcell⟩
    · exact ⟨d, hd, hlead, hlive, hk, hcell⟩
  · rintro ⟨d, hd, hlead, hlive, hk, hcell⟩
    by_cases hj : j = i
    · subst hj
      obtain rfl : c = d := by rw [hc] at hd; exact Option.some.inj hd
      exact ⟨_, Or.inl ⟨rfl, rfl⟩, hlead, hs, hk, hcell⟩
    · exact ⟨d, Or.inr ⟨hj, hd⟩, hlead, hlive, hk, hcell⟩

theorem holdsGuard_advance_end (hc : sf.calls[i]? = some c)
    (hs : ¬ ({ c with stage := stage } : FlightCall κ τ).Live) :
    (sf.advance i c stage cells flights).HoldsGuard j key cell ↔
      j ≠ i ∧ sf.HoldsGuard j key cell := by
  unfold HoldsGuard
  simp only [getElem?_advance hc]
  constructor
  · rintro ⟨d, ⟨rfl, rfl⟩ | ⟨hj, hd⟩, hlead, hlive, hk, hcell⟩
    · exact absurd hlive hs
    · exact ⟨hj, d, hd, hlead, hlive, hk, hcell⟩
  · rintro ⟨hj, d, hd, hlead, hlive, hk, hcell⟩
    exact ⟨d, Or.inr ⟨hj, hd⟩, hlead, hlive, hk, hcell⟩

theorem holdsGuard_self (hc : sf.calls[i]? = some c) (hlead : c.isLeader = true) (hl : c.Live) :
    sf.HoldsGuard i c.key c.cell :=
  ⟨c, hc, hlead, hl, rfl, rfl⟩

theorem FlightsOk.guard_unique (h : sf.FlightsOk) {cell' : Nat}
    (hi : sf.HoldsGuard i key cell) (hj : sf.HoldsGuard j key cell') : i = j := by
  have hcell : cell = cell' := by
    have h1 := (h.guarded key cell).mpr ⟨i, hi⟩
    have h2 := (h.guarded key cell').mpr ⟨j, hj⟩
    rw [h1] at h2
    exact Option.some.inj h2
  obtain ⟨c, hc, hlc, -, -, rfl⟩ := hi
  obtain ⟨d, hd, hld, -, -, rfl⟩ := hj
  exact h.leader_unique i j c d hc hd hlc hld hcell

/-- the map and the guards after a call has ended -/
theorem FlightsOk.guarded_end (h : sf.FlightsOk) (hc : sf.calls[i]? = some c) (hl : c.Live) :
    sf.released c key = some cell ↔ ∃ j, j ≠ i ∧ sf.HoldsGuard j key cell := by
  unfold released
  split
  · rename_i hlead
    have hself := holdsGuard_self hc hlead hl
    by_cases hk : key = c.key
    · subst hk
      rw [Function.update_self]
      constructor
      · intro h0
        cases h0
      · rintro ⟨j, hj, hg⟩
        exact absurd (h.guard_unique hg hself) hj
    · rw [Function.update_of_ne hk, h.guarded]
      constructor
      · rintro ⟨j, hg⟩
        refine ⟨j, fun hj => hk ?_, hg⟩
        obtain ⟨d, hd, -, -, hdk, -⟩ := hg
        rw [hj, hc] at hd
        rw [← hdk, Option.some.inj hd]
      · rintro ⟨j, -, hg⟩
        exact ⟨j, hg⟩
  · rename_i hlead
    rw [h.guarded]
    constructor
    · rintro ⟨j, hg⟩
      refine ⟨j, fun hj => hlead ?_, hg⟩
      obtain ⟨d, hd, hld, -, -, -⟩ := hg
      rw [hj, hc] at hd
      rw [Option.some.inj hd]
      exact hld
    · rintro ⟨j, -, hg⟩
      exact ⟨j, hg⟩

theorem FlightsOk.advance (h : sf.FlightsOk) (hc : sf.calls[i]? = some c)
    (hlen : cells.length = sf.cells.length)
    (hmap : ∀ key cell, flights key = some cell ↔
      ∃ j, (sf.advance i c stage cells flights).HoldsGuard j key cell)
    (hother : ∀ cell, cell ≠ c.cell → (cells[cell]?).join = sf.value cell)
    (hown : (cells[c.cell]?).join = sf.value c.cell ∨ c.stage = .working)
    (hgot : ∀ v, stage = .got v ∨ stage = .returned v → (cells[c.cell]?).join = some v)
    (hwork : stage = .working → (cells[c.cell]?).join = none ∧
      ∀ (j : Nat) d, sf.calls[j]? = some d → d.stage = .working → d.cell ≠ c.cell) :
    (sf.advance i c stage cells flights).FlightsOk where
  cell_lt j d hd := by
    rw [getElem?_advance hc] at hd
    show d.cell < cells.length
    rw [hlen]
    obtain ⟨-, rfl⟩ | ⟨-, hd⟩ := hd
    · exact h.cell_lt i c hc
    · exact h.cell_lt j d hd
  guarded := hmap
  leader_unique j k d e hd he hld hle hcell := by
    rw [getElem?_advance hc] at hd he
    obtain ⟨rfl, rfl⟩ | ⟨hj, hd⟩ := hd <;> obtain ⟨rfl, rfl⟩ | ⟨hk, he⟩ := he
    · rfl
    · exact h.leader_unique _ _ _ _ hc he hld hle hcell
    · exact h.leader_unique _ _ _ _ hd hc hld hle hcell
    · exact h.leader_unique _ _ _ _ hd he hld hle hcell
  value_of j d v hd hv := by
    rw [getElem?_advance hc] at hd
    show (cells[d.cell]?).join = some v
    obtain ⟨-, rfl⟩ | ⟨-, hd⟩ := hd
    · exact hgot v hv
    · have hval := h.value_of j d v hd hv
      by_cases hcell : d.cell = c.cell
      · rcases hown with ho | ho
        · rw [hcell, ho, ← hcell, hval]
        · rw [hcell, h.working_open i c hc ho] at hval
          cases hval
      · rw [hother _ hcell, hval]
  working_open j d hd hs := by
    rw [getElem?_advance hc] at hd
    show (cells[d.cell]?).join = none
    obtain ⟨-, rfl⟩ | ⟨hj, hd⟩ := hd
    · exact (hwork hs).1
    · have hval := h.working_open j d hd hs
      by_cases hcell : d.cell = c.cell
      · rcases hown with ho | ho
        · rw [hcell, ho, ← hcell, hval]
        · exact absurd (h.one_worker j i d c hd hc hs ho hcell) hj
      · rw [hother _ hcell, hval]
  one_worker j k d e hd he hsd hse hcell := by
    rw [getElem?_advance hc] at hd he
    obtain ⟨rfl, rfl⟩ | ⟨hj, hd⟩ := hd <;> obtain ⟨rfl, rfl⟩ | ⟨hk, he⟩ := he
    · rfl
    · exact absurd hcell.symm ((hwork hsd).2 k e he hse)
    · exact absurd hcell ((hwork hse).2 j d hd hsd)
    · exact h.one_worker _ _ _ _ hd he hsd hse hcell

end

/-! ## one operation keeps the invariant -/

section
variable {i j : Nat} {c d : FlightCall κ τ} {key : κ} {cell : Nat}

theorem getElem?_calls_append {l : List (FlightCall κ τ)} :
    (l ++ [c])[j]? = some d ↔ l[j]? = some d ∨ (j = l.length ∧ d = c) := by
  grind

theorem FlightsOk.join (h : sf.FlightsOk) (hk : sf.flights key = some cell) :
    FlightsOk { sf with
      calls := sf.calls ++ [{ key := key, cell := cell, isLeader := false }] } where
  cell_lt i c hc := by
    rcases getElem?_calls_append.mp hc with hc | ⟨-, rfl⟩
    · exact h.cell_lt i c hc
    · obtain ⟨j, d, hd, -, -, -, rfl⟩ := (h.guarded key cell).mp hk
      exact h.cell_lt j d hd
  guarded key' cell' := by
    refine (h.guarded key' cell').trans (exists_congr fun i => ?_)
    unfold HoldsGuard
    constructor
    · rintro ⟨c, hc, hrest⟩
      exact ⟨c, getElem?_calls_append.mpr (Or.inl hc), hrest⟩
    · rintro ⟨c, hc, hlead, hrest⟩
      rcases getElem?_calls_append.mp hc with hc | ⟨-, rfl⟩
      · exact ⟨c, hc, hlead, hrest⟩
      · cases hlead
  leader_unique i j c d hc hd hlc hld hcell := by
    rcases getElem?_calls_append.mp hc with hc | ⟨-, rfl⟩
    · rcases getElem?_calls_append.mp hd with hd | ⟨-, rfl⟩
      · exact h.leader_unique i j c d hc hd hlc hld hcell
      · cases hld
    · cases hlc
  value_of i c v hc hv := by
    rcases getElem?_calls_append.mp hc with hc | ⟨-, rfl⟩
    · exact h.value_of i c v hc hv
    · rcases hv with hv | hv <;> cases hv
  working_open i c hc hs := by
    rcases getElem?_calls_append.mp hc with hc | ⟨-, rfl⟩
    · exact h.working_open i c hc hs
    · cases hs
  one_worker i j c d hc hd hsc hsd hcell := by
    rcases getElem?_calls_append.mp hc with hc | ⟨-, rfl⟩
    · rcases getElem?_calls_append.mp hd with hd | ⟨-, rfl⟩
      · exact h.one_worker i j c d hc hd hsc hsd hcell
      · cases hsd
    · cases hsc

theorem value_append_open (h : cell < sf.cells.length) (calls : List (FlightCall κ τ))
    (flights : κ → Option Nat) :
    value { flights := flights, cells := sf.cells ++ [none], calls := calls } cell =
      sf.value cell := by
  unfold value
  rw [List.getElem?_append_left h]

theorem FlightsOk.lead (h : sf.FlightsOk) (hk : sf.flights key = none) :
    FlightsOk
      { flights := Function.update sf.flights key (some sf.cells.length)
        cells := sf.cells ++ [none]
        calls := sf.calls ++ [{ key := key, cell := sf.cells.length, isLeader := true }] } where
  cell_lt i c hc := by
    show c.cell < (sf.cells ++ [none]).length
    rw [List.length_append, List.length_singleton]
    rcases getElem?_calls_append.mp hc with hc | ⟨-, rfl⟩
    · have := h.cell_lt i c hc
      omega
    · exact Nat.lt_succ_self _
  guarded key' cell' := by
    show Function.update sf.flights key (some sf.cells.length) key' = some cell' ↔ _
    unfold HoldsGuard
    simp only [getElem?_calls_append]
    by_cases hkey : key' = key
    · subst hkey
      rw [Function.update_self]
      constructor
      · intro hcell
        refine ⟨_, _, Or.inr ⟨rfl, rfl⟩, rfl, Or.inl rfl, rfl, ?_⟩
        exact Option.some.inj hcell
      · rintro ⟨i, c, hc | ⟨-, rfl⟩, hlead, hlive, hck, hcell⟩
        · -- an earlier guard of the key would be in the map
          have := (h.guarded key' cell').mpr ⟨i, c, hc, hlead, hlive, hck, hcell⟩
          rw [hk] at this
          cases this
        · rw [← hcell]
    · rw [Function.update_of_ne hkey, h.guarded]
      constructor
      · rintro ⟨i, c, hc, hrest⟩
        exact ⟨i, c, Or.inl hc, hrest⟩
      · rintro ⟨i, c, hc | ⟨-, rfl⟩, hlead, hlive, hck, hcell⟩
        · exact ⟨i, c, hc, hlead, hlive, hck, hcell⟩
        · exact absurd hck.symm hkey
  leader_unique i j c d hc hd hlc hld hcell := by
    rcases getElem?_calls_append.mp hc with hc | ⟨hi, rfl⟩ <;>
      rcases getElem?_calls_append.mp hd with hd | ⟨hj, rfl⟩
    · exact h.leader_unique i j c d hc hd hlc hld hcell
    · exact absurd (h.cell_lt i c hc) (by rw [hcell]; exact Nat.lt_irrefl _)
    · exact absurd (h.cell_lt j d hd) (by rw [← hcell]; exact Nat.lt_irrefl _)
    · rw [hi, hj]
  value_of i c v hc hv := by
    rcases getElem?_calls_append.mp hc with hc | ⟨-, rfl⟩
    · rw [value_append_open (h.cell_lt i c hc)]
      exact h.value_of i c v hc hv
    · rcases hv with hv | hv <;> cases hv
  working_open i c hc hs := by
    rcases getElem?_calls_append.mp hc with hc | ⟨-, rfl⟩
    · rw [value_append_open (h.cell_lt i c hc)]
      exact h.working_open i c hc hs
    · cases hs
  one_worker i j c d hc hd hsc hsd hcell := by
    rcases getElem?_calls_append.mp hc with hc | ⟨-, rfl⟩
    · rcases getElem?_calls_append.mp hd with hd | ⟨-, rfl⟩
      · exact h.one_worker i j c d hc hd hsc hsd hcell
      · cases hsd
    · cases hsc

theorem join_set {cells : List (Option τ)} {n m : Nat} {v : τ} (hn : n < cells.length) :
    ((cells.set n (some v))[m]?).join = if m = n then some v else (cells[m]?).join := by
  grind

/-- **The step lemma.** -/
theorem FlightsOk.step (h : sf.FlightsOk) (op : FlightOp κ τ) : (sf.step op).FlightsOk := by
  have hmoves := sf.step_moves op
  revert hmoves
  generalize sf.step op = sf'
  intro hmoves
  cases hmoves with
  | idle => exact h
  | join hk => exact h.join hk
  | lead hk => exact h.lead hk
  | @acquire i c hc hs hv hfree =>
    refine h.advance hc rfl (fun key cell => ?_) (fun _ _ => rfl) (Or.inl rfl) ?_
      fun _ => ⟨hv, hfree⟩
    · simp only [holdsGuard_advance_live hc (Or.inl hs) (Or.inr (Or.inl rfl)), h.guarded]
    · rintro v (hv | hv) <;> cases hv
  | @finish i c v hc hs =>
    have hlt := h.cell_lt i c hc
    refine h.advance hc List.length_set (fun key cell => ?_) (fun cell hcell => ?_)
      (Or.inr hs) (fun w hw => ?_) ?_
    · simp only [holdsGuard_advance_live hc (Or.inr (Or.inl hs)) (Or.inr (Or.inr ⟨v, rfl⟩)),
        h.guarded]
    · rw [join_set hlt, if_neg hcell]
      rfl
    · rw [join_set hlt, if_pos rfl]
      rcases hw with hw | hw
      · rw [CallStage.got.inj hw]
      · cases hw
    · intro hw
      cases hw
  | @observe i c v hc hs hv =>
    refine h.advance hc rfl (fun key cell => ?_) (fun _ _ => rfl) (Or.inl rfl) (fun w hw => ?_) ?_
    · simp only [holdsGuard_advance_live hc (Or.inl hs) (Or.inr (Or.inr ⟨v, rfl⟩)), h.guarded]
    · rcases hw with hw | hw
      · rw [← CallStage.got.inj hw]
        exact hv
      · cases hw
    · intro hw
      cases hw
  | @leave i c v hc hs =>
    have hl : c.Live := Or.inr (Or.inr ⟨v, hs⟩)
    refine h.advance hc rfl (fun key cell => ?_) (fun _ _ => rfl) (Or.inl rfl) (fun w hw => ?_) ?_
    · rw [h.guarded_end hc hl]
      simp only [holdsGuard_advance_end hc FlightCall.not_live_returned]
    · rcases hw with hw | hw
      · cases hw
      · rw [← CallStage.returned.inj hw]
        exact h.value_of i c v hc (Or.inl hs)
    · intro hw
      cases hw
  | @cancel i c hc hp =>
    refine h.advance hc rfl (fun key cell => ?_) (fun _ _ => rfl) (Or.inl rfl) (fun w hw => ?_) ?_
    · rw [h.guarded_end hc hp.live]
      simp only [holdsGuard_advance_end hc FlightCall.not_live_dropped]
    · rcases hw with hw | hw <;> cases hw
    · intro hw
      cases hw

theorem flightsOk_empty : (({} : SingleFlight κ τ)).FlightsOk := by
  constructor
  case guarded =>
    intro key cell
    constructor
    · intro h
      cases h
    · rintro ⟨i, c, hc, -⟩
      cases hc
  all_goals
    intros
    contradiction

theorem flightsOk_runOps (ops : List (FlightOp κ τ)) : (runOps ops {}).FlightsOk :=
  List.foldlRecOn ops step flightsOk_empty fun _ h op _ => h.step op

end

/-! ## bookkeeping and agreement -/

/-- the step that takes a guard away takes the cell of that guard out of the map, and nothing
else -/
theorem FlightsOk.drop_own {op : FlightOp κ τ} {i : Nat} {key : κ} {cell : Nat}
    (h : sf.FlightsOk) (hg : sf.HoldsGuard i key cell)
    (hd : ¬ (sf.step op).HoldsGuard i key cell) :
    sf.flights key = some cell ∧ (sf.step op).flights = Function.update sf.flights key none := by
  refine ⟨(h.guarded key cell).mpr ⟨i, hg⟩, ?_⟩
  have hmoves := sf.step_moves op
  revert hmoves hd
  generalize sf.step op = sf'
  intro hd hmoves
  -- the guard of a call that ends is the one that is gone
  have hend : ∀ {j : Nat} {c : FlightCall κ τ} {stage : CallStage τ}, sf.calls[j]? = some c →
      ¬ ({ c with stage := stage } : FlightCall κ τ).Live →
      ¬ (sf.advance j c stage sf.cells (sf.released c)).HoldsGuard i key cell →
      sf.released c = Function.update sf.flights key none := by
    intro j c stage hc hs hno
    rw [holdsGuard_advance_end hc hs] at hno
    have hij : i = j := by
      by_contra hne
      exact hno ⟨hne, hg⟩
    obtain ⟨d, hd, hlead, -, hk, -⟩ := hg
    rw [hij, hc] at hd
    obtain rfl := Option.some.inj hd
    unfold released
    rw [if_pos hlead, hk]
  cases hmoves with
  | idle => exact absurd hg hd
  | join _ =>
    obtain ⟨c, hc, hrest⟩ := hg
    exact absurd ⟨c, getElem?_calls_append.mpr (Or.inl hc), hrest⟩ hd
  | lead _ =>
    obtain ⟨c, hc, hrest⟩ := hg
    exact absurd ⟨c, getElem?_calls_append.mpr (Or.inl hc), hrest⟩ hd
  | acquire hc hs _ _ =>
    exact absurd ((holdsGuard_advance_live hc (Or.inl hs) (Or.inr (Or.inl rfl))).mpr hg) hd
  | finish v hc hs =>
    exact absurd ((holdsGuard_advance_live hc (Or.inr (Or.inl hs))
      (Or.inr (Or.inr ⟨v, rfl⟩))).mpr hg) hd
  | @observe _ _ v hc hs _ =>
    exact absurd ((holdsGuard_advance_live hc (Or.inl hs) (Or.inr (Or.inr ⟨v, rfl⟩))).mpr hg) hd
  | leave hc _ => exact hend hc FlightCall.not_live_returned hd
  | cancel hc _ => exact hend hc FlightCall.not_live_dropped hd

/-- **Bookkeeping and agreement.**  In every interleaving a key is in the map exactly while one
live leader holds its guard, a guard that is dropped takes out the cell its call put in, the map
is empty once no call is live, and the calls of one cell that return agree. -/
theorem flights_agree (ops : List (FlightOp κ τ)) :
    (∀ key cell, (runOps ops {}).flights key = some cell ↔
      ∃ i, (runOps ops {}).HoldsGuard i key cell) ∧
    (∀ i j key cell cell', (runOps ops {}).HoldsGuard i key cell →
      (runOps ops {}).HoldsGuard j key cell' → i = j) ∧
    (∀ op i key cell, (runOps ops {}).HoldsGuard i key cell →
      ¬ ((runOps ops {}).step op).HoldsGuard i key cell →
      (runOps ops {}).flights key = some cell ∧
        ((runOps ops {}).step op).flights =
          Function.update (runOps ops {}).flights key none) ∧
    ((∀ c ∈ (runOps ops {}).calls, ¬ c.Live) → ∀ key, (runOps ops {}).flights key = none) ∧
    (∀ c ∈ (runOps ops {}).calls, ∀ d ∈ (runOps ops {}).calls, ∀ v w, c.cell = d.cell →
      c.stage = .returned v → d.stage = .returned w → v = w) := by
  have h := flightsOk_runOps ops
  refine ⟨h.guarded, fun i j key cell cell' hi hj => h.guard_unique hi hj,
    fun op i key cell hg hd => h.drop_own hg hd, fun hdead key => ?_, ?_⟩
  · cases hk : (runOps ops {}).flights key with
    | none => rfl
    | some cell =>
      obtain ⟨i, c, hc, -, hlive, -, -⟩ := (h.guarded key cell).mp hk
      exact absurd hlive (hdead c (List.mem_of_getElem? hc))
  · intro c hc d hd v w hcell hv hw
    obtain ⟨i, hi⟩ := List.mem_iff_getElem?.mp hc
    obtain ⟨j, hj⟩ := List.mem_iff_getElem?.mp hd
    have h1 := h.value_of i c v hi (Or.inr hv)
    have h2 := h.value_of j d w hj (Or.inr hw)
    rw [hcell, h2] at h1
    exact (Option.some.inj h1).symm

/-! ## one closure per key -/

/-- a leader is not dropped while another call still needs a value from its cell -/
def KeepsFollowers (sf : SingleFlight κ τ) : FlightOp κ τ → Prop
  | .cancel i => ∀ c, sf.calls[i]? = some c → c.isLeader = true → sf.value c.cell = none →
      ∀ (j : Nat) d, j ≠ i → sf.calls[j]? = some d → d.Pending → d.cell ≠ c.cell
  | _ => True

/-- the calls that may still run a closure are in the cell the map holds for their key -/
def Gathered (sf : SingleFlight κ τ) : Prop :=
  ∀ (i : Nat) c, sf.calls[i]? = some c → c.Pending → sf.value c.cell = none →
    sf.flights c.key = some c.cell

theorem FlightsOk.released_eq {i cell : Nat} {c : FlightCall κ τ} {key : κ} (hok : sf.FlightsOk)
    (hc : sf.calls[i]? = some c) (hlive : c.Live) (hmap : sf.flights key = some cell)
    (hne : c.isLeader = true → cell ≠ c.cell) : sf.released c key = some cell := by
  obtain ⟨j, hg⟩ := (hok.guarded key cell).mp hmap
  refine (hok.guarded_end hc hlive).mpr ⟨j, fun hji => ?_, hg⟩
  obtain ⟨d, hd, hlead, _, _, hcell⟩ := hg
  rw [hji, hc] at hd
  obtain rfl := Option.some.inj hd
  exact hne hlead hcell.symm

theorem Gathered.step {op : FlightOp κ τ} (hok : sf.FlightsOk) (hg : sf.Gathered)
    (hkeep : sf.KeepsFollowers op) : (sf.step op).Gathered := by
  have hmoves := sf.step_moves op
  revert hmoves
  generalize sf.step op = sf'
  intro hmoves
  cases hmoves with
  | idle => exact hg
  | join hk =>
    intro i c hc hp hv
    rcases getElem?_calls_append.mp hc with hc | ⟨-, rfl⟩
    · exact hg i c hc hp hv
    · exact hk
  | @lead key hk =>
    intro i c hc hp hv
    rcases getElem?_calls_append.mp hc with hc | ⟨-, rfl⟩
    · rw [value_append_open (hok.cell_lt i c hc)] at hv
      have hmap := hg i c hc hp hv
      have hne : c.key ≠ key := by
        intro heq
        rw [heq, hk] at hmap
        cases hmap
      exact (Function.update_of_ne hne _ _).trans hmap
    · exact Function.update_self _ _ _
  | @acquire i c hc hs hv _ =>
    intro j d hd hp hvd
    rcases (getElem?_advance hc).mp hd with ⟨-, rfl⟩ | ⟨-, hd⟩
    · exact hg i c hc (Or.inl hs) hv
    · exact hg j d hd hp hvd
  | @finish i c v hc hs =>
    intro j d hd hp hvd
    replace hvd : ((sf.cells.set c.cell (some v))[d.cell]?).join = none := hvd
    rw [join_set (hok.cell_lt i c hc)] at hvd
    rcases (getElem?_advance hc).mp hd with ⟨-, rfl⟩ | ⟨-, hd⟩
    · rw [if_pos rfl] at hvd
      cases hvd
    · split at hvd
      · cases hvd
      · exact hg j d hd hp hvd
  | @observe i c v hc hs hv =>
    intro j d hd hp hvd
    rcases (getElem?_advance hc).mp hd with ⟨-, rfl⟩ | ⟨-, hd⟩
    · rcases hp with hp | hp <;> cases hp
    · exact hg j d hd hp hvd
  | @leave i c v hc hs =>
    intro j d hd hp hvd
    rcases (getElem?_advance hc).mp hd with ⟨-, rfl⟩ | ⟨-, hd⟩
    · rcases hp with hp | hp <;> cases hp
    · -- the cell of the returning leader has its value
      refine hok.released_eq hc (Or.inr (Or.inr ⟨v, hs⟩)) (hg j d hd hp hvd) fun _ hcell => ?_
      have hval := hok.value_of i c v hc (Or.inl hs)
      rw [← hcell] at hval
      rw [show sf.value d.cell = none from hvd] at hval
      cases hval
  | @cancel i c hc hpc =>
    intro j d hd hp hvd
    rcases (getElem?_advance hc).mp hd with ⟨-, rfl⟩ | ⟨hj, hd⟩
    · rcases hp with hp | hp <;> cases hp
    · refine hok.released_eq hc hpc.live (hg j d hd hp hvd) fun hlead hcell => ?_
      have hvc : sf.value c.cell = none := by
        rw [← hcell]
        exact hvd
      exact hkeep c hc hlead hvc j d hj hd hp hcell

theorem gathered_runOps {ops : List (FlightOp κ τ)}
    (h : Run.Meets step KeepsFollowers ops ({} : SingleFlight κ τ)) :
    (runOps ops {}).FlightsOk ∧ (runOps ops {}).Gathered := by
  refine Run.Meets.invariant (I := fun sf => sf.FlightsOk ∧ sf.Gathered) ?_ ?_ h
  · rintro sf op ⟨hok, hg⟩ hkeep
    exact ⟨hok.step op, hg.step hok hkeep⟩
  · refine ⟨flightsOk_empty, ?_⟩
    intro i c hc
    cases hc

/-- **One closure per key.**  In a run that never drops a leader whose cell others still wait on,
at every moment at most one closure executes for a key. -/
theorem one_closure_per_key {ops : List (FlightOp κ τ)}
    (h : Run.Meets step KeepsFollowers ops ({} : SingleFlight κ τ))
    {before : List (FlightOp κ τ)} (hp : before <+: ops) {i j : Nat} {key : κ}
    (hi : (runOps before {}).Executes i key) (hj : (runOps before {}).Executes j key) : i = j := by
  obtain ⟨hok, hg⟩ := gathered_runOps (h.initial hp)
  obtain ⟨c, hc, hsc, rfl⟩ := hi
  obtain ⟨d, hd, hsd, hk⟩ := hj
  have h1 := hg i c hc (Or.inr hsc) (hok.working_open i c hc hsc)
  have h2 := hg j d hd (Or.inr hsd) (hok.working_open j d hd hsd)
  rw [hk, h1] at h2
  exact hok.one_worker i j c d hc hd hsc hsd (Option.some.inj h2)

/-- a leader drops out before anyone has joined it, the next call leads, and a third one joins -/
def handoverRun : List (FlightOp String Nat) :=
  [.enter "example.com.:A:IN", .acquire 0, .cancel 0, .enter "example.com.:A:IN", .acquire 1,
    .enter "example.com.:A:IN", .acquire 2]

theorem one_closure_handover :
    Run.Meets step KeepsFollowers handoverRun {} ∧
      (runOps handoverRun {}).Executes 1 "example.com.:A:IN" ∧
      ∀ j, (runOps handoverRun {}).Executes j "example.com.:A:IN" → 1 = j := by
  have hmeets : Run.Meets step KeepsFollowers handoverRun {} := by
    refine ⟨trivial, trivial, ?_, trivial, trivial, trivial, trivial, trivial⟩
    rintro c - - - (_ | j) d hj hd
    · exact absurd rfl hj
    · cases hd
  have hexec : (runOps handoverRun {}).Executes 1 "example.com.:A:IN" := ⟨_, rfl, rfl, rfl⟩
  exact ⟨hmeets, hexec, fun j hj => one_closure_per_key hmeets (List.prefix_refl _) hexec hj⟩

/-- the leader is dropped while another call waits in its cell: that call starts its closure, and
the next arrival leads again -/
theorem dropped_leader_two_closures :
    ¬ ∀ (ops : List (FlightOp String Nat)) (i j : Nat) (key : String),
      (runOps ops {}).Executes i key → (runOps ops {}).Executes j key → i = j := by
  intro h
  have h12 := h [.enter "example.com.:A:IN", .acquire 0, .enter "example.com.:A:IN", .cancel 0,
    .acquire 1, .enter "example.com.:A:IN", .acquire 2] 1 2 "example.com.:A:IN"
    ⟨_, rfl, rfl, rfl⟩ ⟨_, rfl, rfl, rfl⟩
  cases h12

end SingleFlight
end DnsResolver
