import DnsResolver.Engine.Prefetch
import DnsResolver.Engine.Provenance

/-!
# Prefetches among the tasks of the server

The loop of `Prefetch` drives the server of `Tasks`.  It may spawn a prefetch at any time, under a
key that it has from the tracker and for the question that it has read off the text of the key.

* `prefetches_at_once`     the permits bound the prefetches that are under way;
* `Prefetcher.actions`     what the loop makes the server do;
* `answers_own_question`   what a client is told was found for its own question, or for the one
                           that a prefetch has read off its key.
-/

set_option linter.unusedSectionVars false

namespace DnsResolver

/-! ## prefetches under way -/

def Task.isPrefetch : Task → Bool
  | .prefetching _ _ _ => true
  | .flying (.prefetch _ _) _ _ => true
  | _ => false

/-- a step of `t` leads to `t'`, and the new tasks are no prefetches -/
structure Succeeds (w : World) (t : Task) (w' : World) (t' : Task) : Prop where
  tasks : ∃ new, w'.tasks = w.tasks ++ new ∧ ∀ u ∈ new, u.isPrefetch = false
  prefetch : t'.isPrefetch = true → t.isPrefetch = true

section
variable {srv : Server} {w w' : World} {t t' : Task}

theorem Succeeds.same (htasks : w'.tasks = w.tasks)
    (hp : t'.isPrefetch = true → t.isPrefetch = true) : Succeeds w t w' t' :=
  ⟨⟨[], by rw [htasks, List.append_nil], List.forall_mem_nil _⟩, hp⟩

theorem Succeeds.over (htasks : w'.tasks = w.tasks) (hp : t'.isPrefetch = false) :
    Succeeds w t w' t' := by
  refine .same htasks fun h => ?_
  rw [hp] at h
  cases h

theorem letIn_succeeds (p : ParsedDnsQuery) (protocol : Protocol) (clientIp : IpAddr)
    (geo : ProcessOutcome) (action : RrlAction) :
    Succeeds w t (w.letIn srv p protocol clientIp geo action).1
      (w.letIn srv p protocol clientIp geo action).2 := by
  cases action with
  | Truncate => exact .over rfl rfl
  | Drop => exact .over rfl rfl
  | Allow =>
    unfold World.letIn
    dsimp only
    split
    · exact .over rfl rfl
    · exact .over rfl rfl

theorem look_isPrefetch (srv : Server) (w : World) (q : Admitted) :
    (w.look srv q).isPrefetch = false := by
  unfold World.look
  split
  · split
    · rfl
    · split <;> rfl
  · rfl

theorem spawnRefresh_succeeds (srv : Server) (w : World) (q : Admitted) (entry : CacheEntry) :
    Succeeds w (.hit q entry) (w.spawnRefresh srv q entry) (.answering q entry) := by
  unfold World.spawnRefresh
  split
  · refine ⟨⟨_, rfl, List.forall_mem_singleton.mpr rfl⟩, fun h => ?_⟩
    cases h
  · exact .over rfl rfl

theorem fly_succeeds {who : Flier} {call : Nat} {x : Input} {work : Option Work}
    (hf : w.fly srv who call x work = some (w', t')) :
    Succeeds w (.flying who call work) w' t' := by
  have hwho : ∀ work', (Task.flying who call work').isPrefetch = true →
      (Task.flying who call work).isPrefetch = true := by
    intro work' h
    cases who with
    | query q => exact h
    | prefetch name qtype => exact h
  cases World.fly_flies hf with
  | land hleave =>
    cases who with
    | query q => exact .over rfl rfl
    | prefetch name qtype => exact .over rfl rfl
  | works hwork => exact .same rfl (hwho _)
  | _ => exact .same rfl (hwho _)

theorem tasks_of_quiet (h : w'.quiet = w.quiet) : w'.tasks = w.tasks := by
  have htasks := congrArg World.tasks h
  exact htasks

/-- **One step of a task.**  Only a prefetch goes on as a prefetch. -/
theorem taskStep_succeeds {x : Input} (hs : w.taskStep srv t x = some (w', t')) :
    Succeeds w t w' t' := by
  have hnext : ∀ {w₁ : World} {t₁ : Task}, some (w₁, t₁) = some (w', t') →
      Succeeds w t w₁ t₁ → Succeeds w t w' t' := by
    intro w₁ t₁ he h
    obtain ⟨rfl, rfl⟩ := Prod.mk.inj (Option.some.inj he)
    exact h
  unfold World.taskStep at hs
  split at hs
  · split at hs
    · exact hnext hs (.over rfl rfl)
    · exact hnext hs (letIn_succeeds _ _ _ _ _)
  · exact hnext hs (.over rfl (look_isPrefetch srv w _))
  · exact hnext hs (spawnRefresh_succeeds srv w _ _)
  · split at hs
    · exact hnext hs (.over rfl rfl)
    · exact hnext hs (.over (tasks_of_quiet (respond_quiet srv w _ _ _)) rfl)
  · split at hs
    · exact hnext hs (.over rfl rfl)
    · exact hnext hs (.over rfl rfl)
  · exact hnext hs (.over rfl rfl)
  · split at hs
    · exact hnext hs (.over rfl rfl)
    · cases hs
  · exact fly_succeeds hs
  · exact hnext hs (.over (tasks_of_quiet (serveResult_quiet srv w _ _)) rfl)
  · exact hnext hs (.same rfl fun h => h)
  · exact hnext hs (.over rfl rfl)
  · split at hs
    · exact hnext hs (.over rfl rfl)
    · cases hs
  · split at hs
    · exact hnext hs (.over rfl rfl)
    · cases hs
  · exact hnext hs (.over rfl rfl)
  · rename_i ok
    cases ok with
    | true => exact hnext hs (.over rfl rfl)
    | false => exact hnext hs (.over rfl rfl)
  · cases hs

end

/-! ## permits -/

/-- `found` is the key of the question itself, or of the one a prefetch reads off its key -/
def PrefetchConfig.Stands (cfg : PrefetchConfig) (srv : Server) (key found : CacheKey) : Prop :=
  found = key ∨ ∃ name qtype, cfg.readKey key = some (name, qtype) ∧
    found = canonicalCacheKey srv.codec name qtype

namespace Prefetcher
variable {srv : Server} {cfg : PrefetchConfig} {s : Prefetcher}

/-- every prefetch of these tasks holds a permit -/
def Held (permits : List Permit) (tasks : List Task) : Prop :=
  ∀ (i : Nat) t, tasks[i]? = some t → t.isPrefetch = true → .task i ∈ permits

/-- as many permits as the semaphore has, and every prefetch holds one -/
structure PermitsOk (s : Prefetcher) : Prop where
  few : s.permits.length ≤ maxConcurrentPrefetch
  held : Held s.permits s.world.tasks

theorem Held.append {permits : List Permit} {tasks new : List Task} (h : Held permits tasks)
    (hnew : ∀ u ∈ new, u.isPrefetch = false) : Held permits (tasks ++ new) := by
  intro i t ht hp
  rw [List.getElem?_append] at ht
  split at ht
  · exact h i t ht hp
  · rw [hnew t (List.mem_of_getElem? ht)] at hp
    cases hp

theorem Held.set {permits permits' : List Permit} {tasks : List Task} {i : Nat} {t : Task}
    (h : Held permits tasks) (hself : t.isPrefetch = true → .task i ∈ permits')
    (hothers : ∀ j, j ≠ i → .task j ∈ permits → .task j ∈ permits') :
    Held permits' (tasks.set i t) := by
  intro j u hu hp
  rw [List.getElem?_set] at hu
  by_cases hij : i = j
  · rw [if_pos hij] at hu
    split at hu
    · obtain rfl := Option.some.inj hu
      rw [← hij]
      exact hself hp
    · cases hu
  · rw [if_neg hij] at hu
    exact hothers j (Ne.symm hij) (h j u hu hp)

/-- what `landed` does to the permits: the one of the task goes, or a call of the tracker has it -/
theorem landed_permits (s : Prefetcher) (i call : Nat) (result : Option Validated) :
    (s.landed i call result).permits.length ≤ s.permits.length ∧
      ∀ j, j ≠ i → .task j ∈ s.permits → .task j ∈ (s.landed i call result).permits := by
  unfold Prefetcher.landed
  split
  · split
    · refine ⟨Nat.le_of_eq (List.length_map _), fun j hj hmem => ?_⟩
      refine List.mem_map.mpr ⟨.task j, hmem, if_neg fun he => hj ?_⟩
      exact Permit.task.inj he
    · refine ⟨List.length_filter_le _ _, fun j hj hmem => ?_⟩
      refine List.mem_filter.mpr ⟨hmem, decide_eq_true fun he => hj ?_⟩
      exact Permit.task.inj he
  · exact ⟨Nat.le_refl _, fun _ _ h => h⟩

/-- the permit of a task goes only when the step ends it -/
theorem observe_permits (srv : Server) (s : Prefetcher) (i : Nat) (x : Input) :
    (s.observe i x).permits.length ≤ s.permits.length ∧
      (∀ j, j ≠ i → .task j ∈ s.permits → .task j ∈ (s.observe i x).permits) ∧
      ((s.observe i x).permits = s.permits ∨
        ∃ t w', s.world.tasks[i]? = some t ∧ s.world.taskStep srv t x = some (w', .ended)) := by
  unfold Prefetcher.observe
  split
  · exact ⟨Nat.le_refl _, fun _ _ h => h, Or.inl rfl⟩
  · rename_i name qtype call ht
    split
    · rename_i result sf hleave
      obtain ⟨hlen, hothers⟩ := landed_permits s i call result
      refine ⟨hlen, hothers, Or.inr ⟨_, { s.world with singleflight := sf }, ht, ?_⟩⟩
      show s.world.fly srv (.prefetch name qtype) call .none none = _
      simp only [World.fly, World.land, hleave]
    · exact ⟨Nat.le_refl _, fun _ _ h => h, Or.inl rfl⟩
  · exact ⟨Nat.le_refl _, fun _ _ h => h, Or.inl rfl⟩

theorem PermitsOk.task (h : s.PermitsOk) (i : Nat) (x : Input) :
    (s.stepWorld srv (.task i x)).PermitsOk := by
  obtain ⟨hlen, hothers, hcase⟩ := observe_permits srv s i x
  refine ⟨Nat.le_trans hlen h.few, ?_⟩
  show Held (s.observe i x).permits (s.world.step srv (.task i x)).tasks
  simp only [World.step]
  cases ht : s.world.tasks[i]? with
  | none =>
    rcases hcase with heq | ⟨t, w', ht', -⟩
    · rw [heq]
      exact h.held
    · rw [ht] at ht'
      cases ht'
  | some t =>
    dsimp only
    cases hs : s.world.taskStep srv t x with
    | none =>
      rcases hcase with heq | ⟨t', w', ht', hs'⟩
      · rw [heq]
        exact h.held
      · rw [ht] at ht'
        rw [← Option.some.inj ht', hs] at hs'
        cases hs'
    | some r =>
      obtain ⟨w', t'⟩ := r
      have hsucc := taskStep_succeeds hs
      obtain ⟨new, htasks, hnew⟩ := hsucc.tasks
      show Held (s.observe i x).permits (w'.tasks.set i t')
      rw [htasks]
      refine (h.held.append hnew).set (fun hp => ?_) hothers
      rcases hcase with heq | ⟨t'', w'', ht'', hs''⟩
      · rw [heq]
        exact h.held i t ht (hsucc.prefetch hp)
      · -- the task has ended
        rw [ht] at ht''
        rw [← Option.some.inj ht'', hs] at hs''
        obtain ⟨-, rfl⟩ := Prod.mk.inj (Option.some.inj hs'')
        cases hp

theorem PermitsOk.stepWorld (h : s.PermitsOk) (a : Action) : (s.stepWorld srv a).PermitsOk := by
  have hspawn : ∀ t : Task, t.isPrefetch = false → Held s.permits (s.world.tasks ++ [t]) :=
    fun t ht => h.held.append (List.forall_mem_singleton.mpr ht)
  cases a with
  | prefetch key name qtype => exact h
  | task i x => exact h.task i x
  | restart => exact ⟨Nat.zero_le _, fun i t ht => by cases ht⟩
  | clock now => exact ⟨h.few, h.held⟩
  | query reqWire protocol clientIp => exact ⟨h.few, hspawn _ rfl⟩
  | preload name qtype => exact ⟨h.few, hspawn _ rfl⟩
  | save => exact ⟨h.few, hspawn _ rfl⟩
  | load key => exact ⟨h.few, h.held⟩
  | evict key => exact ⟨h.few, h.held⟩
  | cancel i =>
    refine ⟨h.few, ?_⟩
    show Held s.permits (s.world.step srv (.cancel i)).tasks
    simp only [World.step]
    split
    · exact h.held
    · split
      · exact h.held
      · rename_i w' hc
        obtain ⟨sf, rfl⟩ := cancelTask_eq hc
        refine h.held.set (fun hp => ?_) fun _ _ hmem => hmem
        cases hp

theorem PermitsOk.stepCall (h : s.PermitsOk) (i : Nat) : (s.stepCall i).PermitsOk := by
  unfold Prefetcher.stepCall
  dsimp only
  split
  · refine ⟨Nat.le_trans (List.length_filter_le _ _) h.few, fun j t ht hp => ?_⟩
    refine List.mem_filter.mpr ⟨h.held j t ht hp, decide_eq_true fun he => ?_⟩
    cases he
  · exact ⟨h.few, h.held⟩

theorem PermitsOk.spawn (h : s.PermitsOk) (c : Candidate) (rest : List Candidate) :
    (s.spawn srv cfg c rest).PermitsOk := by
  unfold Prefetcher.spawn
  split
  · exact ⟨h.few, h.held⟩
  · split
    · exact ⟨h.few, h.held⟩
    · rename_i name qtype _ hroom
      refine ⟨?_, fun i t ht hp => ?_⟩
      · show (s.permits ++ [Permit.task s.world.tasks.length]).length ≤ maxConcurrentPrefetch
        rw [List.length_append, List.length_singleton]
        omega
      · show Permit.task i ∈ s.permits ++ [.task s.world.tasks.length]
        replace ht : (s.world.tasks ++ [.prefetching c.key name qtype])[i]? = some t := ht
        rw [List.getElem?_append] at ht
        split at ht
        · exact List.mem_append_left _ (h.held i t ht hp)
        · -- the new task
          rename_i hge
          have hi := (List.getElem?_eq_some_iff.mp ht).1
          rw [List.length_singleton] at hi
          have hlast : i = s.world.tasks.length := by omega
          rw [hlast]
          exact List.mem_append_right _ List.mem_cons_self

theorem PermitsOk.stepLoop (h : s.PermitsOk) (coin : Bool) :
    (s.stepLoop srv cfg coin).PermitsOk := by
  unfold Prefetcher.stepLoop
  split
  · exact h
  · exact ⟨h.few, h.held⟩
  · exact ⟨h.few, h.held⟩
  · exact ⟨h.few, h.held⟩
  · unfold Prefetcher.scan
    split
    · exact ⟨h.few, h.held⟩
    · split
      · exact ⟨h.few, h.held⟩
      · exact ⟨h.few, h.held⟩
  · exact ⟨h.few, h.held⟩
  · exact ⟨h.few, h.held⟩
  · exact ⟨h.few, h.held⟩
  · exact ⟨h.few, h.held⟩
  · exact h.spawn _ _

theorem PermitsOk.step (h : s.PermitsOk) (e : PrefetchEvent) : (s.step srv cfg e).PermitsOk := by
  cases e with
  | world a => exact h.stepWorld a
  | call i => exact h.stepCall i
  | tick =>
    unfold Prefetcher.step
    dsimp only
    split
    · exact ⟨h.few, h.held⟩
    · exact h
  | loop coin => exact h.stepLoop coin

theorem Held.countP_le {permits : List Permit} {tasks : List Task} (h : Held permits tasks) :
    tasks.countP Task.isPrefetch ≤ permits.length := by
  have hsub : (tasks.findIdxs Task.isPrefetch).map Permit.task ⊆ permits := by
    intro p hp
    obtain ⟨i, hi, rfl⟩ := List.mem_map.mp hp
    obtain ⟨hlt, hpre⟩ := List.mem_findIdxs_iff_exists_getElem_pos.mp hi
    exact h i _ (List.getElem?_eq_getElem hlt) hpre
  have hnodup : ((tasks.findIdxs Task.isPrefetch).map Permit.task).Nodup :=
    List.nodup_findIdxs.map fun _ _ he => Permit.task.inj he
  have hle := (List.subperm_of_subset hnodup hsub).length_le
  rw [List.length_map, List.length_findIdxs] at hle
  exact hle

/-- **Prefetches at once.**  In every state of every run at most sixteen prefetches are under way,
from the moment they are spawned to the end of their flight. -/
theorem prefetches_at_once (srv : Server) (cfg : PrefetchConfig) (events : List PrefetchEvent)
    (maxEntries : Nat) :
    (run srv cfg events (start maxEntries)).world.tasks.countP Task.isPrefetch ≤ 16 := by
  have hstart : (start maxEntries).PermitsOk := ⟨Nat.zero_le _, fun i t ht => by cases ht⟩
  have hok : (run srv cfg events (start maxEntries)).PermitsOk :=
    List.foldlRecOn events (step srv cfg) hstart fun _ h e _ => h.step e
  exact Nat.le_trans hok.held.countP_le hok.few

/-! ## what the server does -/

/-- what a step makes the server do -/
def action (cfg : PrefetchConfig) (s : Prefetcher) : PrefetchEvent → List Action
  | .world (.prefetch _ _ _) => []
  | .world a => [a]
  | .loop _ =>
    match s.stage with
    | .spawning (c :: _) =>
      match cfg.readKey c.key with
      | some (name, qtype) =>
        if maxConcurrentPrefetch ≤ s.permits.length then [] else [.prefetch c.key name qtype]
      | none => []
    | _ => []
  | _ => []

/-- what a run makes the server do -/
def actions (srv : Server) (cfg : PrefetchConfig) : List PrefetchEvent → Prefetcher → List Action
  | [], _ => []
  | e :: rest, s => s.action cfg e ++ actions srv cfg rest (s.step srv cfg e)

theorem step_world (s : Prefetcher) (e : PrefetchEvent) :
    (s.step srv cfg e).world = World.run srv (s.action cfg e) s.world := by
  cases e with
  | world a => cases a <;> rfl
  | call i => rfl
  | tick =>
    show (s.step srv cfg .tick).world = s.world
    unfold Prefetcher.step
    dsimp only
    split <;> rfl
  | loop coin =>
    show (s.stepLoop srv cfg coin).world = World.run srv (s.action cfg (.loop coin)) s.world
    unfold Prefetcher.stepLoop Prefetcher.action
    cases hstage : s.stage with
    | scanning now keys candidates =>
      cases keys with
      | nil => rfl
      | cons key rest =>
        show (s.scan srv cfg now key rest candidates).world = s.world
        unfold Prefetcher.scan
        split
        · rfl
        · split <;> rfl
    | spawning candidates =>
      cases candidates with
      | nil => rfl
      | cons c rest =>
        show (s.spawn srv cfg c rest).world = _
        unfold Prefetcher.spawn
        dsimp only
        split
        · rename_i hread
          rw [hread]
          rfl
        · rename_i hread
          rw [hread]
          dsimp only
          split <;> rfl
    | _ => rfl

theorem run_world (events : List PrefetchEvent) (s : Prefetcher) :
    (run srv cfg events s).world = World.run srv (actions srv cfg events s) s.world := by
  induction events generalizing s with
  | nil => rfl
  | cons e rest ih =>
    show (run srv cfg rest (s.step srv cfg e)).world = _
    rw [ih, step_world]
    exact List.foldl_append.symm

theorem action_keyed (s : Prefetcher) (e : PrefetchEvent) :
    ∀ a ∈ s.action cfg e, a.Keyed srv (cfg.Stands srv) := by
  intro a ha
  unfold Prefetcher.action at ha
  split at ha
  · cases ha
  · rename_i b hnot
    rw [List.mem_singleton.mp ha]
    cases b with
    | prefetch key name qtype => exact absurd rfl (hnot key name qtype)
    | _ => trivial
  · split at ha
    · rename_i c rest hstage
      split at ha
      · rename_i name qtype hkey
        split at ha
        · cases ha
        · rw [List.mem_singleton.mp ha]
          exact Or.inr ⟨name, qtype, hkey, rfl⟩
      · cases ha
    · cases ha
  · cases ha

theorem actions_keyed (srv : Server) (cfg : PrefetchConfig) (events : List PrefetchEvent)
    (s : Prefetcher) :
    ∀ a ∈ actions srv cfg events s, a.Keyed srv (cfg.Stands srv) := by
  induction events generalizing s with
  | nil => exact List.forall_mem_nil _
  | cons e rest ih =>
    intro a ha
    rcases List.mem_append.mp ha with ha | ha
    · exact action_keyed s e a ha
    · exact ih _ a ha

/-- what the run found: the recursor's answers and the validator's verdicts, by question -/
def found (srv : Server) (cfg : PrefetchConfig) (events : List PrefetchEvent) (maxEntries : Nat) :
    List Finding := World.found srv (actions srv cfg events (start maxEntries)) {}

/-- **Every client gets an answer to its own question.**  Whatever the interleaving of queries,
flights, revalidations, prefetches, pre-warms and saves and loads of the cache file: a response is
made from a message that the recursor gave for a question with the key of the client's question, or
for the question that a prefetch has read off this key, and the status that goes with it is the
validator's verdict on this message. -/
theorem answers_own_question (srv : Server) (cfg : PrefetchConfig) (events : List PrefetchEvent)
    (maxEntries : Nat) :
    ∀ r ∈ (run srv cfg events (start maxEntries)).world.replies, ∀ source,
      r.source = some source → ∃ key msg out,
        cfg.Stands srv
          (canonicalCacheKey srv.codec r.query.query.name r.query.query.queryType) key ∧
        .answer key msg ∈ found srv cfg events maxEntries ∧
        .verdict key msg source.status ∈ found srv cfg events maxEntries ∧
        msg.PassedOn source.status out ∧ source.MadeOf srv out := by
  intro r hr source hs
  have hw := run_traced (fun key => Or.inl rfl : ∀ key, cfg.Stands srv key key)
    (actions_keyed srv cfg events (start maxEntries))
  rw [run_world] at hr
  obtain ⟨key, hstands, htraced⟩ := hw.replies r hr source hs
  cases source with
  | cached entry =>
    obtain ⟨out, hwire, msg, ha, hv, hp⟩ := htraced
    exact ⟨key, msg, out, hstands, ha, hv, hp, hwire⟩
  | resolved v =>
    obtain ⟨msg, ha, hv, hp⟩ := htraced
    exact ⟨key, msg, v.msg, hstands, ha, hv, hp, rfl⟩

theorem hitSteps_answered :
    ∃ r ∈ (run bareServer eagerConfig hitSteps (start 10)).world.replies, ∃ source,
      r.source = some source ∧ ∃ key msg out,
        eagerConfig.Stands bareServer
          (canonicalCacheKey bareServer.codec r.query.query.name r.query.query.queryType) key ∧
        .answer key msg ∈ found bareServer eagerConfig hitSteps 10 ∧
        .verdict key msg source.status ∈ found bareServer eagerConfig hitSteps 10 ∧
        msg.PassedOn source.status out ∧ source.MadeOf bareServer out := by
  have hany : (run bareServer eagerConfig hitSteps (start 10)).world.replies.any
      fun r => r.source.isSome := by decide +kernel
  obtain ⟨r, hr, hsome⟩ := List.any_eq_true.mp hany
  obtain ⟨source, hs⟩ := Option.isSome_iff_exists.mp hsome
  exact ⟨r, hr, source, hs, answers_own_question bareServer eagerConfig hitSteps 10 r hr source hs⟩

end Prefetcher

end DnsResolver
