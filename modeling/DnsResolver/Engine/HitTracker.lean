import DnsResolver.Lib.History
import DnsResolver.Lib.KeyedMap
import DnsResolver.Lib.Run

/-!
# How often a key is asked for (`hit_tracker.rs`)

The tracker keeps atomics for each key, and its methods may run at the same time: a call is a
sequence of accesses, and others may come in between any two of them.

* `Access`                    one access to the atomics of an entry;
* `HitTracker.stepCall`       the next access of a call;
* `HitInfo.of_marks`          what the atomics say about what happened to the entry;
* `tracker_bounded`           how far calls at the same time can get past `max_entries`.

`HitTracker.marks` is a trace: the accesses to the entry of a key since it was made.
-/

namespace DnsResolver

/-! ## entries -/

def u32Max : Nat := 4294967295

/-- times are seconds; `0` is no attempt -/
structure HitInfo where
  count : Nat := 0
  lastSeen : Nat := 0
  lastPrefetchAttempt : Nat := 0
  consecutiveFailures : Nat := 0
  deriving DecidableEq

inductive Access where
  | hit
  | seen (now : Nat)
  | zero
  | attempt (now : Nat)
  | cleared
  | failed
  deriving DecidableEq

/-- `fetch_update` that stops at `u32::MAX` -/
def saturatingSucc (v : Nat) : Nat := if v = u32Max then v else v + 1

def Access.apply (h : HitInfo) : Access → HitInfo
  | .hit => { h with count := saturatingSucc h.count }
  | .seen now => { h with lastSeen := now }
  | .zero => { h with count := 0 }
  | .attempt now => { h with lastPrefetchAttempt := now }
  | .cleared => { h with consecutiveFailures := 0 }
  | .failed => { h with consecutiveFailures := saturatingSucc h.consecutiveFailures }

def HitInfo.ofMarks (marks : List Access) : HitInfo := marks.foldl Access.apply {}

theorem HitInfo.ofMarks_concat (marks : List Access) (a : Access) :
    HitInfo.ofMarks (marks ++ [a]) = a.apply (HitInfo.ofMarks marks) := by
  unfold ofMarks
  rw [List.foldl_append]
  rfl

/-! ### what the atomics say -/

/-- an access to `count` -/
def Access.counts (a : Access) : Bool := decide (a = .hit) || decide (a = .zero)

/-- an access to `consecutive_failures` -/
def Access.judges (a : Access) : Bool := decide (a = .failed) || decide (a = .cleared)

def Access.attempt? : Access → Option Nat
  | .attempt now => some now
  | _ => none

def hitsSince (marks : List Access) : Nat := History.run .hit (marks.filter Access.counts)

def failuresInRow (marks : List Access) : Nat := History.run .failed (marks.filter Access.judges)

def lastAttempt (marks : List Access) : Option Nat := (marks.filterMap Access.attempt?).getLast?

theorem saturatingSucc_min (n : Nat) : saturatingSucc (min u32Max n) = min u32Max (n + 1) := by
  unfold saturatingSucc
  split <;> omega

theorem hitsSince_concat (marks : List Access) (a : Access) :
    hitsSince (marks ++ [a]) =
      if a = .hit then hitsSince marks + 1 else if a = .zero then 0 else hitsSince marks := by
  unfold hitsSince
  cases a with
  | hit => rw [List.filter_append]; exact History.run_concat _ _ _
  | zero => rw [List.filter_append]; exact History.run_concat _ _ _
  | seen now => rw [List.filter_append]; exact congrArg _ (List.append_nil _)
  | attempt now => rw [List.filter_append]; exact congrArg _ (List.append_nil _)
  | cleared => rw [List.filter_append]; exact congrArg _ (List.append_nil _)
  | failed => rw [List.filter_append]; exact congrArg _ (List.append_nil _)

theorem failuresInRow_concat (marks : List Access) (a : Access) :
    failuresInRow (marks ++ [a]) =
      if a = .failed then failuresInRow marks + 1
      else if a = .cleared then 0 else failuresInRow marks := by
  unfold failuresInRow
  cases a with
  | failed => rw [List.filter_append]; exact History.run_concat _ _ _
  | cleared => rw [List.filter_append]; exact History.run_concat _ _ _
  | seen now => rw [List.filter_append]; exact congrArg _ (List.append_nil _)
  | attempt now => rw [List.filter_append]; exact congrArg _ (List.append_nil _)
  | hit => rw [List.filter_append]; exact congrArg _ (List.append_nil _)
  | zero => rw [List.filter_append]; exact congrArg _ (List.append_nil _)

theorem lastAttempt_concat (marks : List Access) (a : Access) :
    lastAttempt (marks ++ [a]) = if a.attempt?.isSome then a.attempt? else lastAttempt marks := by
  unfold lastAttempt
  rw [List.filterMap_append]
  cases a with
  | attempt now => exact List.getLast?_concat
  | hit => exact congrArg _ (List.append_nil _)
  | zero => exact congrArg _ (List.append_nil _)
  | seen now => exact congrArg _ (List.append_nil _)
  | cleared => exact congrArg _ (List.append_nil _)
  | failed => exact congrArg _ (List.append_nil _)

/-- **The atomics of an entry** say how often it was hit since the last reset, how many attempts
failed in a row and when the last one was -/
theorem HitInfo.of_marks (marks : List Access) :
    (HitInfo.ofMarks marks).count = min u32Max (hitsSince marks) ∧
      (HitInfo.ofMarks marks).consecutiveFailures = min u32Max (failuresInRow marks) ∧
      (HitInfo.ofMarks marks).lastPrefetchAttempt = (lastAttempt marks).getD 0 := by
  induction marks using List.reverseRecOn with
  | nil => exact ⟨rfl, rfl, rfl⟩
  | append_singleton marks a ih =>
    obtain ⟨hcount, hfail, hlast⟩ := ih
    rw [HitInfo.ofMarks_concat, hitsSince_concat, failuresInRow_concat, lastAttempt_concat]
    cases a with
    | hit =>
      refine ⟨?_, hfail, hlast⟩
      show saturatingSucc (HitInfo.ofMarks marks).count = min u32Max (hitsSince marks + 1)
      rw [hcount, saturatingSucc_min]
    | failed =>
      refine ⟨hcount, ?_, hlast⟩
      show saturatingSucc (HitInfo.ofMarks marks).consecutiveFailures =
        min u32Max (failuresInRow marks + 1)
      rw [hfail, saturatingSucc_min]
    | zero => exact ⟨rfl, hfail, hlast⟩
    | cleared => exact ⟨hcount, rfl, hlast⟩
    | attempt now => exact ⟨hcount, hfail, rfl⟩
    | seen now => exact ⟨hcount, hfail, hlast⟩

/-! ## calls -/

inductive TrackerOp where
  -- `record`, with the time it has read
  | record (now : Nat)
  | resetCount
  | prefetchSuccess
  | prefetchFailure
  deriving DecidableEq

/-- what a call does to an entry it has found; `now` is read behind the lookup -/
def TrackerOp.accesses (now : Nat) : TrackerOp → List Access
  | .record seenAt => [.hit, .seen seenAt]
  | .resetCount => [.zero]
  | .prefetchSuccess => [.attempt now, .cleared, .zero]
  | .prefetchFailure => [.attempt now, .failed]

inductive TrackerStage where
  -- `entries.get`
  | looking (op : TrackerOp)
  -- an entry is there; the clock is read
  | timing (op : TrackerOp)
  | doing (rest : List Access)
  -- no entry is there: `entries.len()`, then `entries.insert`
  | checking (now : Nat)
  | inserting (now : Nat)
  deriving DecidableEq

structure TrackerCall (κ : Type) where
  key : κ
  stage : TrackerStage

structure HitTracker (κ : Type) where
  entries : KeyedMap (id : κ → κ) HitInfo := KeyedMap.empty
  maxEntries : Nat
  calls : List (TrackerCall κ) := []
  marks : κ → List Access := fun _ => []

namespace HitTracker
variable {κ : Type} [DecidableEq κ]

def start (t : HitTracker κ) (key : κ) (op : TrackerOp) : HitTracker κ :=
  { t with calls := t.calls ++ [⟨key, .looking op⟩] }

def lookedUp (t : HitTracker κ) (key : κ) (op : TrackerOp) : TrackerStage :=
  match t.entries.get key, op with
  | some _, op => .timing op
  | none, .record now => .checking now
  | none, _ => .doing []

/-- one access to the entry of a key -/
def touch (t : HitTracker κ) (key : κ) (a : Access) : HitTracker κ :=
  { t with
    entries := t.entries.modify key fun h => a.apply h
    marks := Function.update t.marks key (t.marks key ++ [a]) }

/-- a new entry, over an old one if another call has put one in -/
def insert (t : HitTracker κ) (key : κ) (now : Nat) : HitTracker κ :=
  { t with
    entries := t.entries.entryOr key {} fun _ => { count := 1, lastSeen := now }
    marks := Function.update t.marks key [.hit, .seen now] }

def setStage (t : HitTracker κ) (i : Nat) (c : TrackerCall κ) (stage : TrackerStage) :
    HitTracker κ :=
  { t with calls := t.calls.set i { c with stage := stage } }

def stepStage (t : HitTracker κ) (clock : Nat) (key : κ) :
    TrackerStage → HitTracker κ × TrackerStage
  | .looking op => (t, t.lookedUp key op)
  | .timing op => (t, .doing (op.accesses clock))
  | .doing [] => (t, .doing [])
  | .doing (a :: rest) => (t.touch key a, .doing rest)
  | .checking now =>
    (t, if t.maxEntries ≤ t.entries.entries.length then .doing [] else .inserting now)
  | .inserting now => (t.insert key now, .doing [])

/-- the next step of the `i`-th call -/
def stepCall (t : HitTracker κ) (clock i : Nat) : HitTracker κ :=
  match t.calls[i]? with
  | some c =>
    (t.stepStage clock c.key c.stage).1.setStage i c (t.stepStage clock c.key c.stage).2
  | none => t

/-- `prune` -/
def prune (t : HitTracker κ) (now maxIdleSecs : Nat) : HitTracker κ :=
  { t with entries := t.entries.retain fun h => decide (now - h.lastSeen < maxIdleSecs) }

/-- `keys_snapshot` -/
def keysSnapshot (t : HitTracker κ) : List κ := t.entries.entries.map Prod.fst

/-- `backoff_secs` -/
def backoffSecs (failures : Nat) : Nat := min (60 <<< min failures 6) 3600

/-! ## entries and what happened to them -/

/-- the entries are what the accesses have made of them -/
def Marked (t : HitTracker κ) : Prop :=
  ∀ k h, t.entries.get k = some h → h = HitInfo.ofMarks (t.marks k)

variable {t : HitTracker κ}

theorem Marked.touch (hm : t.Marked) (key : κ) (a : Access) : (t.touch key a).Marked := by
  intro k h hk
  replace hk : (t.entries.modify key fun h => a.apply h).get k = some h := hk
  show h = HitInfo.ofMarks (Function.update t.marks key (t.marks key ++ [a]) k)
  rw [KeyedMap.get_modify] at hk
  by_cases hkey : key = k
  · rw [if_pos hkey] at hk
    obtain ⟨old, hold, rfl⟩ := Option.map_eq_some_iff.mp hk
    rw [← hkey, Function.update_self, HitInfo.ofMarks_concat, hkey, ← hm k old hold]
  · rw [if_neg hkey] at hk
    rw [Function.update_of_ne (Ne.symm hkey)]
    exact hm k h hk

theorem Marked.insert (hm : t.Marked) (key : κ) (now : Nat) : (t.insert key now).Marked := by
  intro k h hk
  replace hk : (t.entries.entryOr key {} fun _ => { count := 1, lastSeen := now }).get k =
    some h := hk
  show h = HitInfo.ofMarks (Function.update t.marks key [.hit, .seen now] k)
  rw [KeyedMap.get_entryOr, id_eq] at hk
  by_cases hkey : key = k
  · rw [if_pos hkey] at hk
    rw [← hkey, Function.update_self, ← Option.some.inj hk]
    rfl
  · rw [if_neg hkey] at hk
    rw [Function.update_of_ne (Ne.symm hkey)]
    exact hm k h hk

theorem Marked.prune (hm : t.Marked) (now maxIdleSecs : Nat) :
    (t.prune now maxIdleSecs).Marked := by
  intro k h hk
  replace hk : (t.entries.retain fun h => decide (now - h.lastSeen < maxIdleSecs)).get k =
    some h := hk
  rw [KeyedMap.get_retain] at hk
  exact hm k h (Option.eq_some_of_filter_eq_some hk)

theorem Marked.stepStage (hm : t.Marked) (clock : Nat) (key : κ) (stage : TrackerStage) :
    (t.stepStage clock key stage).1.Marked := by
  cases stage with
  | looking op => exact hm
  | timing op => exact hm
  | doing rest =>
    cases rest with
    | nil => exact hm
    | cons a rest => exact hm.touch key a
  | checking now => exact hm
  | inserting now => exact hm.insert key now

theorem Marked.stepCall (hm : t.Marked) (clock i : Nat) : (t.stepCall clock i).Marked := by
  unfold HitTracker.stepCall
  split
  · rename_i c _
    exact hm.stepStage clock c.key c.stage
  · exact hm

theorem stepCall_isSome (clock i : Nat) {k : κ} (hk : (t.entries.get k).isSome = true) :
    ((t.stepCall clock i).entries.get k).isSome = true := by
  have hstage : ∀ key stage, ((t.stepStage clock key stage).1.entries.get k).isSome = true := by
    intro key stage
    cases stage with
    | doing rest =>
      cases rest with
      | nil => exact hk
      | cons a rest =>
        show ((t.entries.modify key fun h => a.apply h).get k).isSome = true
        rw [KeyedMap.get_modify]
        split
        · rw [Option.isSome_map]
          exact hk
        · exact hk
    | inserting now =>
      show ((t.entries.entryOr key {} fun _ => _).get k).isSome = true
      rw [KeyedMap.get_entryOr]
      split
      · rfl
      · exact hk
    | looking op => exact hk
    | timing op => exact hk
    | checking now => exact hk
  unfold stepCall
  split
  · exact hstage _ _
  · exact hk

def new (maxEntries : Nat) : HitTracker κ := { maxEntries := maxEntries }

theorem marked_new (maxEntries : Nat) : (new maxEntries : HitTracker κ).Marked := by
  intro k h hk
  cases hk

/-! ## the number of entries -/

end HitTracker

/-- a call that has found no entry and may make one -/
def TrackerStage.entering : TrackerStage → Bool
  | .checking _ => true
  | .inserting _ => true
  | _ => false

def TrackerStage.inserts : TrackerStage → Bool
  | .inserting _ => true
  | _ => false

namespace HitTracker
variable {κ : Type} [DecidableEq κ] {t : HitTracker κ}

/-- how many calls are at such a stage -/
def callsAt (p : TrackerStage → Bool) (t : HitTracker κ) : Nat := t.calls.countP fun c => p c.stage

inductive Event (κ : Type) where
  | call (key : κ) (op : TrackerOp)
  | step (clock i : Nat)
  | prune (now maxIdleSecs : Nat)

def stepEvent (t : HitTracker κ) : Event κ → HitTracker κ
  | .call key op => t.start key op
  | .step clock i => t.stepCall clock i
  | .prune now maxIdleSecs => t.prune now maxIdleSecs

def run (events : List (Event κ)) (t : HitTracker κ) : HitTracker κ := events.foldl stepEvent t

omit [DecidableEq κ] in
theorem callsAt_setStage (p : TrackerStage → Bool) {t' : HitTracker κ} {i : Nat} {c : TrackerCall κ}
    (hc : t'.calls[i]? = some c) (stage : TrackerStage) :
    (t'.setStage i c stage).callsAt p + (p c.stage).toNat =
      t'.callsAt p + (p stage).toNat := by
  obtain ⟨hi, hget⟩ := List.getElem?_eq_some_iff.mp hc
  have hset := List.countP_set (p := fun c : TrackerCall κ => p c.stage) (a := ⟨c.key, stage⟩) hi
  have hpos : (p c.stage).toNat ≤ t'.callsAt p := by
    cases hp : p c.stage with
    | false => exact Nat.zero_le _
    | true => exact List.countP_pos_iff.mpr ⟨c, List.mem_of_getElem? hc, hp⟩
  have hnat : ∀ b : Bool, (if b = true then 1 else 0) = b.toNat := by decide
  rw [hget, hnat, hnat] at hset
  unfold callsAt at hpos ⊢
  show (t'.calls.set i ⟨c.key, stage⟩).countP (fun c => p c.stage) + _ = _
  rw [hset]
  show _ - _ + (p stage).toNat + _ = _
  omega

theorem stepStage_calls (clock : Nat) (key : κ) (stage : TrackerStage) :
    (t.stepStage clock key stage).1.calls = t.calls ∧
      (t.stepStage clock key stage).1.maxEntries = t.maxEntries := by
  cases stage with
  | doing rest => cases rest <;> exact ⟨rfl, rfl⟩
  | _ => exact ⟨rfl, rfl⟩

omit [DecidableEq κ] in
theorem callsAt_le (t : HitTracker κ) :
    t.callsAt TrackerStage.inserts ≤ t.callsAt TrackerStage.entering := by
  refine List.countP_mono_left fun c _ h => ?_
  cases hs : c.stage with
  | inserting now => rfl
  | checking now => rfl
  | looking op => rw [hs] at h; cases h
  | timing op => rw [hs] at h; cases h
  | doing rest => rw [hs] at h; cases h

/-- room for the entries that the calls under way will make, if at most `n` of them enter at the
same time -/
def Roomy (n : Nat) (t : HitTracker κ) : Prop :=
  t.entries.entries.length + t.callsAt TrackerStage.inserts + 1 ≤ t.maxEntries + n

theorem roomy_stepCall {n : Nat} (hr : t.Roomy n) (hn : t.callsAt TrackerStage.entering ≤ n)
    (clock i : Nat) : (t.stepCall clock i).Roomy n := by
  unfold HitTracker.stepCall
  split
  · rename_i c hc
    obtain ⟨hcalls, hmax⟩ := stepStage_calls (t := t) clock c.key c.stage
    have hc' : (t.stepStage clock c.key c.stage).1.calls[i]? = some c := by
      rw [hcalls]
      exact hc
    have hcount := callsAt_setStage TrackerStage.inserts hc'
      (t.stepStage clock c.key c.stage).2
    have hsame : (t.stepStage clock c.key c.stage).1.callsAt TrackerStage.inserts =
        t.callsAt TrackerStage.inserts := by
      unfold callsAt
      rw [hcalls]
    have hbound : (t.stepStage clock c.key c.stage).1.entries.entries.length +
        ((t.stepStage clock c.key c.stage).2.inserts).toNat +
        t.callsAt TrackerStage.inserts + 1 ≤ t.maxEntries + n + (c.stage.inserts).toNat := by
      unfold Roomy at hr
      cases hs : c.stage with
      | looking op =>
        have hlook : (t.lookedUp c.key op).inserts = false := by
          unfold lookedUp
          split <;> rfl
        show t.entries.entries.length + (t.lookedUp c.key op).inserts.toNat + _ + 1 ≤ _ + 0
        rw [hlook]
        exact hr
      | timing op => exact hr
      | doing rest =>
        cases rest with
        | nil => exact hr
        | cons a rest =>
          show (KeyedMap.change id c.key _ t.entries.entries).length + 0 + _ + 1 ≤ _ + 0
          rw [KeyedMap.length_change]
          exact hr
      | checking now =>
        -- a call that goes on saw room for one more, and it is one of those that enter
        have henter : t.callsAt TrackerStage.inserts + 1 ≤ t.callsAt TrackerStage.entering := by
          have hflip := callsAt_setStage TrackerStage.inserts hc (.inserting now)
          have hkeep := callsAt_setStage TrackerStage.entering hc (.inserting now)
          have hle := callsAt_le (t.setStage i c (.inserting now))
          rw [hs] at hflip hkeep
          simp only [TrackerStage.inserts, TrackerStage.entering, Bool.toNat_true,
            Bool.toNat_false] at hflip hkeep
          omega
        by_cases hfull : t.maxEntries ≤ t.entries.entries.length
        · show t.entries.entries.length + (if t.maxEntries ≤ t.entries.entries.length then
            TrackerStage.doing [] else .inserting now).inserts.toNat + _ + 1 ≤ _ + 0
          rw [if_pos hfull]
          exact hr
        · show t.entries.entries.length + (if t.maxEntries ≤ t.entries.entries.length then
            TrackerStage.doing [] else .inserting now).inserts.toNat + _ + 1 ≤ _ + 0
          rw [if_neg hfull]
          show t.entries.entries.length + 1 + _ + 1 ≤ _ + 0
          omega
      | inserting now =>
        have hlen : (KeyedMap.put id c.key {} (fun _ => { count := 1, lastSeen := now })
            t.entries.entries).length ≤ t.entries.entries.length + 1 :=
          KeyedMap.length_put_le _ _ _ _
        show (KeyedMap.put id c.key _ _ t.entries.entries).length + 0 + _ + 1 ≤ _ + 1
        omega
    rw [hsame] at hcount
    show (t.stepStage clock c.key c.stage).1.entries.entries.length + _ + 1 ≤
      (t.stepStage clock c.key c.stage).1.maxEntries + n
    rw [hmax]
    omega
  · exact hr

theorem roomy_stepEvent {n : Nat} (hr : t.Roomy n) (hn : t.callsAt TrackerStage.entering ≤ n)
    (e : Event κ) : (t.stepEvent e).Roomy n := by
  cases e with
  | call key op =>
    have hcount : (t.start key op).callsAt TrackerStage.inserts =
        t.callsAt TrackerStage.inserts := by
      unfold callsAt start
      rw [List.countP_append]
      rfl
    show t.entries.entries.length + (t.start key op).callsAt TrackerStage.inserts + 1 ≤ _
    rw [hcount]
    exact hr
  | step clock i => exact roomy_stepCall hr hn clock i
  | prune now maxIdleSecs =>
    have hlen := List.length_filter_le
      (fun e : κ × HitInfo => decide (now - e.2.lastSeen < maxIdleSecs)) t.entries.entries
    unfold Roomy at hr
    show (t.entries.entries.filter fun e => decide (now - e.2.lastSeen < maxIdleSecs)).length +
      t.callsAt TrackerStage.inserts + 1 ≤ t.maxEntries + n
    omega

theorem run_maxEntries (events : List (Event κ)) (t : HitTracker κ) :
    (run events t).maxEntries = t.maxEntries := by
  induction events generalizing t with
  | nil => rfl
  | cons e events ih =>
    show (run events (t.stepEvent e)).maxEntries = t.maxEntries
    rw [ih]
    cases e with
    | call key op => rfl
    | step clock i =>
      show (t.stepCall clock i).maxEntries = t.maxEntries
      unfold stepCall
      split
      · exact (stepStage_calls _ _ _).2
      · rfl
    | prune now maxIdleSecs => rfl

/-- **The bound.**  If at most `n` calls at a time are between a lookup that found nothing and the
end of their insertion, the tracker has at most `n - 1` entries more than it is made for. -/
theorem tracker_bounded {n maxEntries : Nat} (hn : 1 ≤ n) {events : List (Event κ)}
    (hfew : Run.Meets stepEvent (fun t _ => t.callsAt TrackerStage.entering ≤ n) events
      (new maxEntries)) :
    (run events (new maxEntries)).entries.entries.length + 1 ≤ maxEntries + n := by
  have hstart : (new maxEntries : HitTracker κ).Roomy n := by
    show 0 + 0 + 1 ≤ maxEntries + n
    omega
  have hroom : (run events (new maxEntries)).Roomy n :=
    Run.Meets.invariant (I := Roomy n) (fun _ e hr he => roomy_stepEvent hr he e) hstart hfew
  unfold Roomy at hroom
  rw [run_maxEntries] at hroom
  have : (new maxEntries : HitTracker κ).maxEntries = maxEntries := rfl
  omega

/-! ### two calls at once -/

/-- both find no entry, both see room for one, both make one -/
def twoAtOnce : List (Event Nat) :=
  [.call 1 (.record 5), .call 2 (.record 5), .step 5 0, .step 5 1, .step 5 0, .step 5 1, .step 5 0,
    .step 5 1]

theorem twoAtOnce_overfull :
    (run twoAtOnce (new 1)).entries.entries.length = 2 ∧
      (run twoAtOnce (new 1)).entries.entries.length + 1 ≤ 1 + 2 := by
  have hfew : Run.Meets stepEvent (fun t _ => t.callsAt TrackerStage.entering ≤ 2) twoAtOnce
      (new 1) := by decide
  exact ⟨by decide, tracker_bounded (by decide) hfew⟩

end HitTracker
end DnsResolver
