import DnsResolver.Geo.Router
import DnsResolver.Lib.History

/-!
# Local probes and the health of a node (`NodeHealth` in `geo/health.rs`)

A probe is recorded as a success or as a failure.  Two counters hold the run at the end of the
history, and the state moves on them with hysteresis.

* `recordSuccess`, `recordFailure`   one result;
* `Fits`                             what a state says about the history, kept by `Fits.success`
                                     and `Fits.failure`;
* `probe_hysteresis`                 the state after a whole history.
-/

namespace DnsResolver
open History

/-! ## recording -/

/-- the match of `record_success` -/
def HealthState.afterSuccess (current : HealthState) (succ : Nat) : HealthState :=
  match current with
  | .Unknown | .Degraded => if 2 ≤ succ then .Healthy else current
  | .Unhealthy => if 3 ≤ succ then .Degraded else current
  | other => other

/-- the match of `record_failure`; its third arm is behind the first -/
def HealthState.afterFailure (current : HealthState) (fail : Nat) : HealthState :=
  match current with
  | .Unknown => if 3 ≤ fail then .Degraded else if 5 ≤ fail then .Unhealthy else current
  | .Healthy => if 3 ≤ fail then .Degraded else current
  | .Degraded => if 5 ≤ fail then .Unhealthy else current
  | other => other

namespace NodeHealth

/-- `record_success`; `none` if the process aborts, since the `+ 1` after `fetch_add` is checked -/
def recordSuccess (h : NodeHealth) (rttUs now : Nat) : Option NodeHealth :=
  let succ := h.consecutiveSuccess + 1
  if succ < 2 ^ 32 then
    some { h with
      state := h.state.afterSuccess succ
      consecutiveSuccess := succ
      consecutiveFailure := 0
      lastRttUs := rttUs % 2 ^ 64
      lastCheckAt := now
      totalSuccess := (h.totalSuccess + 1) % 2 ^ 64 }
  else none

/-- `record_failure`, with the same check -/
def recordFailure (h : NodeHealth) (now : Nat) : Option NodeHealth :=
  let fail := h.consecutiveFailure + 1
  if fail < 2 ^ 32 then
    some { h with
      state := h.state.afterFailure fail
      consecutiveSuccess := 0
      consecutiveFailure := fail
      lastCheckAt := now
      totalFailure := (h.totalFailure + 1) % 2 ^ 64 }
  else none

end NodeHealth

/-- what `run_loop` records of one probe -/
inductive Probe where
  | success (rttUs now : Nat)
  | failure (now : Nat)

def Probe.ok : Probe → Bool
  | .success _ _ => true
  | .failure _ => false

def NodeHealth.record (h : NodeHealth) : Probe → Option NodeHealth
  | .success rttUs now => h.recordSuccess rttUs now
  | .failure now => h.recordFailure now

def NodeHealth.recordAll (h : NodeHealth) (probes : List Probe) : Option NodeHealth :=
  probes.foldlM NodeHealth.record h

/-! ## the history -/

/-- five failures in a row, and not three successes in a row since then -/
def Failed (w : List Bool) : Prop := Broke 5 false 3 true w

/-- two successes in a row, and not three failures in a row since then -/
def Recovered (w : List Bool) : Prop := Broke 2 true 3 false w

section
variable (w : List Bool)

theorem run_success : run true (w ++ [true]) = run true w + 1 := run_concat true true w
theorem run_failure : run false (w ++ [false]) = run false w + 1 := run_concat false false w
theorem run_success_false : run false (w ++ [true]) = 0 := run_concat false true w
theorem run_failure_true : run true (w ++ [false]) = 0 := run_concat true false w

theorem failed_success : Failed (w ++ [true]) ↔ Failed w ∧ run true w + 1 < 3 := by
  rw [Failed, broke_concat (by decide) (by omega) (by omega), ended_iff, ended_iff,
    run_success, run_success_false, or_iff_right (by omega), Nat.not_le]
  rfl

theorem failed_failure : Failed (w ++ [false]) ↔ 5 ≤ run false w + 1 ∨ Failed w := by
  rw [Failed, broke_concat (by decide) (by omega) (by omega), ended_iff, ended_iff,
    run_failure, run_failure_true, and_iff_left (by omega)]
  rfl

theorem recovered_success : Recovered (w ++ [true]) ↔ 2 ≤ run true w + 1 ∨ Recovered w := by
  rw [Recovered, broke_concat (by decide) (by omega) (by omega), ended_iff, ended_iff,
    run_success, run_success_false, and_iff_left (by omega)]
  rfl

theorem recovered_failure : Recovered (w ++ [false]) ↔ Recovered w ∧ run false w + 1 < 3 := by
  rw [Recovered, broke_concat (by decide) (by omega) (by omega), ended_iff, ended_iff,
    run_failure, run_failure_true, or_iff_right (by omega), Nat.not_le]
  rfl

end

/-- what a state says about the history: how long the runs at its end can be, whether it has
failed and, if the node is healthy, that it has recovered -/
def Fits (w : List Bool) : HealthState → Prop
  | .Unknown => run true w < 2 ∧ run false w < 3 ∧ ¬ Failed w
  | .Healthy => Recovered w ∧ run false w < 3 ∧ ¬ Failed w
  | .Degraded => (run true w < 2 ∨ run true w = 3) ∧ run false w < 5 ∧ ¬ Failed w
  | .Unhealthy => run true w < 3 ∧ Failed w

theorem fits_nil : Fits [] .Unknown := by
  refine ⟨by decide, by decide, ?_⟩
  rintro ⟨p, q, heq, hend, _⟩
  obtain ⟨rfl, _⟩ := List.append_eq_nil_iff.mp heq.symm
  exact absurd (ended_nil.mp hend) (by omega)

section
variable {w : List Bool} {s : HealthState}

/-- **One success.** -/
theorem Fits.success (h : Fits w s) :
    Fits (w ++ [true]) (s.afterSuccess (run true w + 1)) := by
  have hrun := run_success w
  have hother := run_success_false w
  have hlost : Failed (w ++ [true]) → Failed w := fun hf => ((failed_success w).mp hf).1
  cases s with
  | Unknown =>
    obtain ⟨_, _, hnf⟩ := h
    show Fits _ (if 2 ≤ run true w + 1 then .Healthy else .Unknown)
    split
    · rename_i h2
      exact ⟨(recovered_success w).mpr (Or.inl h2), by omega, mt hlost hnf⟩
    · exact ⟨by omega, by omega, mt hlost hnf⟩
  | Healthy =>
    obtain ⟨hs, _, hnf⟩ := h
    exact ⟨(recovered_success w).mpr (Or.inr hs), by omega, mt hlost hnf⟩
  | Degraded =>
    obtain ⟨_, _, hnf⟩ := h
    show Fits _ (if 2 ≤ run true w + 1 then .Healthy else .Degraded)
    split
    · rename_i h2
      exact ⟨(recovered_success w).mpr (Or.inl h2), by omega, mt hlost hnf⟩
    · exact ⟨by omega, by omega, mt hlost hnf⟩
  | Unhealthy =>
    obtain ⟨_, hf⟩ := h
    show Fits _ (if 3 ≤ run true w + 1 then .Degraded else .Unhealthy)
    split
    · -- the third success in a row: no longer failed
      refine ⟨by omega, by omega, fun hf' => ?_⟩
      have := ((failed_success w).mp hf').2
      omega
    · exact ⟨by omega, (failed_success w).mpr ⟨hf, by omega⟩⟩

/-- **One failure.**  A node that is not degraded is degraded by the third one, so the fifth finds
it degraded or unhealthy. -/
theorem Fits.failure (h : Fits w s) :
    Fits (w ++ [false]) (s.afterFailure (run false w + 1)) := by
  have hrun := run_failure w
  have hother := run_failure_true w
  have hnew : run false w + 1 < 5 → ¬ Failed w → ¬ Failed (w ++ [false]) := by
    intro h5 hnf hf
    rcases (failed_failure w).mp hf with h | h
    · omega
    · exact hnf h
  cases s with
  | Unknown =>
    obtain ⟨_, _, hnf⟩ := h
    show Fits _ (if 3 ≤ run false w + 1 then .Degraded
      else if 5 ≤ run false w + 1 then .Unhealthy else .Unknown)
    split
    · exact ⟨by omega, by omega, hnew (by omega) hnf⟩
    · rw [if_neg (by omega)]
      exact ⟨by omega, by omega, hnew (by omega) hnf⟩
  | Healthy =>
    obtain ⟨hs, _, hnf⟩ := h
    show Fits _ (if 3 ≤ run false w + 1 then .Degraded else .Healthy)
    split
    · exact ⟨by omega, by omega, hnew (by omega) hnf⟩
    · exact ⟨(recovered_failure w).mpr ⟨hs, by omega⟩, by omega, hnew (by omega) hnf⟩
  | Degraded =>
    obtain ⟨_, _, hnf⟩ := h
    show Fits _ (if 5 ≤ run false w + 1 then .Unhealthy else .Degraded)
    split
    · rename_i h5
      exact ⟨by omega, (failed_failure w).mpr (Or.inl h5)⟩
    · exact ⟨by omega, by omega, hnew (by omega) hnf⟩
  | Unhealthy =>
    obtain ⟨_, hf⟩ := h
    exact ⟨by omega, (failed_failure w).mpr (Or.inr hf)⟩

theorem Fits.unhealthy_iff (h : Fits w s) : s = .Unhealthy ↔ Failed w := by
  cases s with
  | Unknown => exact ⟨fun he => HealthState.noConfusion he, fun hf => absurd hf h.2.2⟩
  | Healthy => exact ⟨fun he => HealthState.noConfusion he, fun hf => absurd hf h.2.2⟩
  | Degraded => exact ⟨fun he => HealthState.noConfusion he, fun hf => absurd hf h.2.2⟩
  | Unhealthy => exact ⟨fun _ => h.2, fun _ => rfl⟩

theorem Fits.healthy_of_run (h : Fits w s) (h4 : 4 ≤ run true w) : s = .Healthy := by
  cases s with
  | Unknown => exact absurd h.1 (by omega)
  | Healthy => rfl
  | Degraded => exact absurd h.1 (by omega)
  | Unhealthy => exact absurd h.1 (by omega)

end

/-- the counters hold the runs at the end of the history, and the state fits it -/
structure Tracks (w : List Bool) (h : NodeHealth) : Prop where
  succ : h.consecutiveSuccess = run true w
  fail : h.consecutiveFailure = run false w
  fits : Fits w h.state

theorem tracks_fresh (registeredAt : Nat) : Tracks [] { registeredAt := registeredAt } :=
  ⟨rfl, rfl, fits_nil⟩

theorem Tracks.record {w : List Bool} {h : NodeHealth} (ht : Tracks w h)
    (hlen : w.length + 1 < 2 ^ 32) (p : Probe) :
    ∃ h', h.record p = some h' ∧ Tracks (w ++ [p.ok]) h' := by
  cases p with
  | success rttUs now =>
    have hle := run_le_length true w
    refine ⟨_, if_pos (by rw [ht.succ]; omega), ?_, ?_, ?_⟩
    · rw [ht.succ]
      exact (run_success w).symm
    · exact (run_success_false w).symm
    · rw [ht.succ]
      exact ht.fits.success
  | failure now =>
    have hle := run_le_length false w
    refine ⟨_, if_pos (by rw [ht.fail]; omega), ?_, ?_, ?_⟩
    · exact (run_failure_true w).symm
    · rw [ht.fail]
      exact (run_failure w).symm
    · rw [ht.fail]
      exact ht.fits.failure

/-- **A whole history.** -/
theorem Tracks.recordAll {w : List Bool} {h : NodeHealth} (ht : Tracks w h) (probes : List Probe)
    (hlen : w.length + probes.length < 2 ^ 32) :
    ∃ h', h.recordAll probes = some h' ∧ Tracks (w ++ probes.map Probe.ok) h' := by
  induction probes generalizing w h with
  | nil => exact ⟨h, rfl, by rwa [List.map_nil, List.append_nil]⟩
  | cons p probes ih =>
    rw [List.length_cons] at hlen
    obtain ⟨h₁, hr, ht₁⟩ := ht.record (by omega) p
    obtain ⟨h₂, hrs, ht₂⟩ := ih ht₁ (by
      rw [List.length_append, List.length_singleton]
      omega)
    refine ⟨h₂, ?_, ?_⟩
    · show (h.record p).bind (fun h => h.recordAll probes) = some h₂
      rw [hr]
      exact hrs
    · rwa [List.append_assoc, List.singleton_append] at ht₂

/-- **Health hysteresis over whole probe histories.** -/
theorem probe_hysteresis (registeredAt : Nat) (probes : List Probe)
    (hlen : probes.length < 2 ^ 32) :
    ∃ h : NodeHealth,
      NodeHealth.recordAll { registeredAt := registeredAt } probes = some h ∧
      (List.replicate 5 false <:+ probes.map Probe.ok → h.state = .Unhealthy) ∧
      (List.replicate 4 true <:+ probes.map Probe.ok → h.state = .Healthy) ∧
      (h.state = .Unhealthy ↔ ∃ before since : List Bool,
        probes.map Probe.ok = before ++ since ∧ List.replicate 5 false <:+ before ∧
        (∀ before' since' : List Bool, probes.map Probe.ok = before' ++ since' →
          List.replicate 5 false <:+ before' → before'.length ≤ before.length) ∧
        ¬ List.replicate 3 true <:+: since) ∧
      (h.state = .Healthy → ∃ before since : List Bool,
        probes.map Probe.ok = before ++ since ∧ List.replicate 2 true <:+ before ∧
        ¬ List.replicate 3 false <:+: since) := by
  obtain ⟨h, hrun, ht⟩ := (tracks_fresh registeredAt).recordAll probes (by simpa using hlen)
  rw [List.nil_append] at ht
  refine ⟨h, hrun, ?_, ?_, ?_, ?_⟩
  · intro h5
    exact ht.fits.unhealthy_iff.mpr (broke_of_ended h5 (by omega))
  · intro h4
    exact ht.fits.healthy_of_run (ended_iff.mp h4)
  · rw [ht.fits.unhealthy_iff, Failed, broke_iff_last]
    constructor
    · rintro ⟨p, q, hs, hlast⟩
      exact ⟨p, q, hs.eq, hs.ended, hlast, hs.quiet⟩
    · rintro ⟨p, q, heq, hend, hlast, hquiet⟩
      exact ⟨p, q, ⟨heq, hend, hquiet⟩, hlast⟩
  · intro hh
    have hfits := ht.fits
    rw [hh] at hfits
    obtain ⟨p, q, hs⟩ := hfits.1
    exact ⟨p, q, hs.eq, hs.ended, hs.quiet⟩

theorem probe_hysteresis_recovered :
    ∃ h : NodeHealth, NodeHealth.recordAll { registeredAt := 0 }
        (List.replicate 5 (.failure 10) ++ List.replicate 4 (.success 100 20)) = some h ∧
      h.state = .Healthy := by
  obtain ⟨h, hrun, _, h4, _⟩ := probe_hysteresis 0
    (List.replicate 5 (.failure 10) ++ List.replicate 4 (.success 100 20)) (by decide)
  exact ⟨h, hrun, h4 (by decide)⟩

end DnsResolver
