import Mathlib.Logic.Function.Basic

/-!
# Single-flight (`singleflight.rs`)

`SingleFlight::run` lets concurrent callers with one key share one execution of their closures.
A call goes through the stages of `CallStage`; the operations below are the points where other
calls may come in between, so an interleaving of calls is a sequence of them.

Of tokio's `OnceCell` this uses that `get_or_init` runs one closure at a time, and that another
caller's closure runs if that one is dropped.

* `enter`     the lookup in `flights`; a call that finds no cell puts one in and is the leader;
* `acquire`   a call without a value starts its own closure, if no other one runs for its cell;
* `finish`    the closure is done and its value is in the cell;
* `observe`   the cell has a value already;
* `leave`     `run` returns; the guard of a leader takes the key out of `flights`;
* `cancel`    the future of the call is dropped.
-/

namespace DnsResolver

inductive CallStage (τ : Type) where
  -- in `get_or_init`, without a value
  | waiting
  -- in `get_or_init`, its own closure running
  | working
  -- `get_or_init` gave a value
  | got (value : τ)
  -- `run` has returned
  | returned (value : τ)
  | dropped

/-- one call of `run` -/
structure FlightCall (κ τ : Type) where
  key : κ
  cell : Nat
  isLeader : Bool
  stage : CallStage τ := .waiting

structure SingleFlight (κ τ : Type) where
  flights : κ → Option Nat := fun _ => none
  -- the `OnceCell`s, by number
  cells : List (Option τ) := []
  calls : List (FlightCall κ τ) := []

/-- the call runs its own closure for the cell -/
def FlightCall.worksOn {κ τ : Type} (cell : Nat) (c : FlightCall κ τ) : Bool :=
  match c.stage with
  | .working => decide (c.cell = cell)
  | _ => false

namespace SingleFlight
variable {κ τ : Type} [DecidableEq κ]

def enter (sf : SingleFlight κ τ) (key : κ) : SingleFlight κ τ :=
  match sf.flights key with
  | some cell => { sf with calls := sf.calls ++ [{ key := key, cell := cell, isLeader := false }] }
  | none =>
    { flights := Function.update sf.flights key (some sf.cells.length)
      cells := sf.cells ++ [none]
      calls := sf.calls ++ [{ key := key, cell := sf.cells.length, isLeader := true }] }

/-- the value of a cell, once it has one -/
def value (sf : SingleFlight κ τ) (cell : Nat) : Option τ := (sf.cells[cell]?).join

def setStage (sf : SingleFlight κ τ) (i : Nat) (c : FlightCall κ τ) (stage : CallStage τ) :
    SingleFlight κ τ :=
  { sf with calls := sf.calls.set i { c with stage := stage } }

/-- the guard is dropped, if the call has one -/
def release (sf : SingleFlight κ τ) (c : FlightCall κ τ) : SingleFlight κ τ :=
  if c.isLeader then { sf with flights := Function.update sf.flights c.key none } else sf

def acquire (sf : SingleFlight κ τ) (i : Nat) : Option (SingleFlight κ τ) :=
  match sf.calls[i]? with
  | some c =>
    match c.stage, sf.value c.cell with
    | .waiting, none =>
      if sf.calls.any (FlightCall.worksOn c.cell) then none else some (sf.setStage i c .working)
    | _, _ => none
  | none => none

def finish (sf : SingleFlight κ τ) (i : Nat) (v : τ) : Option (SingleFlight κ τ) :=
  match sf.calls[i]? with
  | some c =>
    match c.stage with
    | .working => some { sf.setStage i c (.got v) with cells := sf.cells.set c.cell (some v) }
    | _ => none
  | none => none

def observe (sf : SingleFlight κ τ) (i : Nat) : Option (SingleFlight κ τ) :=
  match sf.calls[i]? with
  | some c =>
    match c.stage, sf.value c.cell with
    | .waiting, some v => some (sf.setStage i c (.got v))
    | _, _ => none
  | none => none

def leave (sf : SingleFlight κ τ) (i : Nat) : Option (τ × SingleFlight κ τ) :=
  match sf.calls[i]? with
  | some c =>
    match c.stage with
    | .got v => some (v, (sf.setStage i c (.returned v)).release c)
    | _ => none
  | none => none

def cancel (sf : SingleFlight κ τ) (i : Nat) : Option (SingleFlight κ τ) :=
  match sf.calls[i]? with
  | some c =>
    match c.stage with
    | .waiting => some ((sf.setStage i c .dropped).release c)
    | .working => some ((sf.setStage i c .dropped).release c)
    | _ => none
  | none => none

end SingleFlight
end DnsResolver
