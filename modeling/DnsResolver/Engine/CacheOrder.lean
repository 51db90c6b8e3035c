import DnsResolver.Engine.Servable
import DnsResolver.Lib.Run

/-!
# The age of what is cached

A task that writes to the answer cache holds the entry it writes from some moment on: a miss, a
prefetch, a pre-warm and a revalidation with a new message have read the clock, a revalidation
without one has read the old entry.  Other tasks may write under the same key before it does.

* `Task.inHand`         the entry that the next step of a task writes, and its key;
* `taskStep_inHand`     what a step does to the cache and to the entry in hand;
* `InOrder`             of the tasks with an entry in hand for one key the oldest one writes first;
* `cachedAt_forward`    in such runs `cached_at` never decreases;
* `cachedAt_overtaken`  a step that is not in order lets it decrease.
-/

namespace DnsResolver

/-! ## entries in hand -/

def Work.inHand (srv : Server) : Work → Option CacheEntry
  | .storing r =>
    if srv.cacheEnabled && isCacheable r.msg && isCacheableDnssec r.status then
      newEntry srv r.msg r.status r.cachedAt
    else none
  | _ => none

def Refresh.inHand (srv : Server) : Refresh → Option CacheEntry
  | .storing msg status now => newEntry srv msg status now
  | .touching existing => some existing
  | _ => none

def Preload.inHand (srv : Server) : Preload → Option CacheEntry
  | .storing msg status now => newEntry srv msg status now
  | _ => none

/-- the key under which the next step of the task writes, and the entry it has read or made -/
def Task.inHand (srv : Server) : Task → Option (CacheKey × CacheEntry)
  | .direct q work =>
    (work.inHand srv).map
      (Prod.mk (canonicalCacheKey srv.codec q.parsed.query.name q.parsed.query.queryType))
  | .flying who _ (some work) =>
    (work.inHand srv).map (Prod.mk (canonicalCacheKey srv.codec who.name who.qtype))
  | .refreshing t stage => (stage.inHand srv).map (Prod.mk t.key)
  | .preloading name qtype stage =>
    (stage.inHand srv).map (Prod.mk (canonicalCacheKey srv.codec name qtype))
  | _ => none

theorem newEntry_cachedAt {srv : Server} {msg : Message} {status : DnssecStatus} {now : Nat}
    {entry : CacheEntry} (h : newEntry srv msg status now = some entry) : entry.cachedAt = now := by
  unfold newEntry at h
  split at h
  · cases h
  · dsimp only at h
    split at h
    · rw [← Option.some.inj h]
    · cases h

/-- what a step with the entry `hand` in hand does under `key`: it writes the entry, up to the time
of its revalidation, or it leaves the cache alone and may take an entry of now or the stored one -/
inductive Handled (clock : Nat) (key : CacheKey) (cache : AnswerCache) :
    Option CacheEntry → AnswerCache → Option CacheEntry → Prop
  | wrote {entry entry' : CacheEntry} (same : entry'.cachedAt = entry.cachedAt) :
    Handled clock key cache (some entry) (Function.update cache key (some entry')) none
  | kept {hand' : Option CacheEntry}
      (taken : ∀ e, hand' = some e → e.cachedAt = clock ∨ cache key = some e) :
    Handled clock key cache none cache hand'

section
variable {srv : Server} {clock : Nat} {key : CacheKey} {cache cache' : AnswerCache}

theorem Handled.idle : Handled clock key cache none cache none :=
  .kept fun _ he => nomatch he

theorem Handled.put (hand : Option CacheEntry) :
    Handled clock key cache hand (cache.put key hand) none := by
  cases hand with
  | none => exact .idle
  | some entry => exact .wrote rfl

theorem Handled.stamp (msg : Message) (status : DnssecStatus) :
    Handled clock key cache none cache (newEntry srv msg status clock) :=
  .kept fun _ he => Or.inl (newEntry_cachedAt he)

theorem workStep_handled {name : Name} {qtype : RecordType} {work work' : Work} {x : Input}
    (h : work.step srv clock name qtype cache x = some (work', cache')) :
    Handled clock (canonicalCacheKey srv.codec name qtype) cache (work.inHand srv) cache'
      (work'.inHand srv) := by
  cases Work.step_moves h with
  | timed msg status =>
    simp only [Work.inHand]
    split
    · exact .stamp _ _
    · exact .idle
  | stored r hc =>
    simp only [Work.inHand, if_pos hc]
    exact .put _
  | skipped r hc =>
    simp only [Work.inHand, if_neg hc]
    exact .idle
  | _ => exact .idle

theorem refreshStep_handled {stage stage' : Refresh} {x : Input}
    (h : stage.step srv clock key cache x = some (stage', cache')) :
    Handled clock key cache (stage.inHand srv) cache' (stage'.inHand srv) := by
  cases Refresh.step_moves h with
  | timed => exact .stamp _ _
  | stored msg status now => exact .put _
  | found he =>
    refine .kept fun e hhand => Or.inr ?_
    rw [he]
    exact hhand
  | touched existing => exact .wrote rfl
  | _ => exact .idle

theorem preloadStep_handled {name : Name} {qtype : RecordType} {stage stage' : Preload} {x : Input}
    (h : stage.step srv clock name qtype cache x = some (stage', cache')) :
    Handled clock (canonicalCacheKey srv.codec name qtype) cache (stage.inHand srv) cache'
      (stage'.inHand srv) := by
  cases Preload.step_moves h with
  | timed msg status => exact .stamp _ _
  | stored msg status now => exact .put _
  | _ => exact .idle

end

/-! ## one step of a task -/

/-- what a step may do to the cache and to the entry in hand -/
inductive TaskHandled (srv : Server) (w : World) (t : Task) : AnswerCache → Task → Prop
  | wrote {t' : Task} {key : CacheKey} {entry entry' : CacheEntry}
      (hand : t.inHand srv = some (key, entry)) (same : entry'.cachedAt = entry.cachedAt)
      (free : t'.inHand srv = none) :
    TaskHandled srv w t (Function.update w.cache key (some entry')) t'
  | kept {t' : Task} (hand : t.inHand srv = none)
      (taken : ∀ key e, t'.inHand srv = some (key, e) →
        e.cachedAt = w.clock ∨ w.cache key = some e) :
    TaskHandled srv w t w.cache t'

/-- what a step does to the rest: the clock stands, and what is spawned has nothing in hand -/
structure Framed (srv : Server) (w w' : World) : Prop where
  clock : w'.clock = w.clock
  tasks : ∃ new, w'.tasks = w.tasks ++ new ∧ ∀ u ∈ new, Task.inHand srv u = none

section
variable {srv : Server} {w w' : World} {t t' : Task}

theorem TaskHandled.idle (h : t.inHand srv = none) (h' : t'.inHand srv = none) :
    TaskHandled srv w t w.cache t' :=
  .kept h fun key e he => by
    rw [h'] at he
    cases he

theorem Handled.task {key : CacheKey} {cache' : AnswerCache} {hand hand' : Option CacheEntry}
    (h : Handled w.clock key w.cache hand cache' hand')
    (ht : t.inHand srv = hand.map (Prod.mk key)) (ht' : t'.inHand srv = hand'.map (Prod.mk key)) :
    TaskHandled srv w t cache' t' := by
  cases h with
  | wrote same => exact .wrote ht same ht'
  | kept taken =>
    refine .kept ht fun key' e he => ?_
    rw [ht'] at he
    obtain ⟨e', he', heq⟩ := Option.map_eq_some_iff.mp he
    obtain ⟨rfl, rfl⟩ := Prod.mk.inj heq
    exact taken e' he'

theorem Framed.same (hc : w'.clock = w.clock) (ht : w'.tasks = w.tasks) : Framed srv w w' :=
  ⟨hc, [], by rw [ht, List.append_nil], List.forall_mem_nil _⟩

theorem Framed.of_quiet (h : w'.quiet = w.quiet) : Framed srv w w' ∧ w'.cache = w.cache :=
  ⟨.same (congrArg World.clock h :) (congrArg World.tasks h :), (congrArg World.cache h :)⟩

theorem letIn_same (srv : Server) (w : World) (p : ParsedDnsQuery) (protocol : Protocol)
    (clientIp : IpAddr) (geo : ProcessOutcome) (action : RrlAction) :
    Framed srv w (w.letIn srv p protocol clientIp geo action).1 ∧
      (w.letIn srv p protocol clientIp geo action).1.cache = w.cache ∧
      (w.letIn srv p protocol clientIp geo action).2.inHand srv = none := by
  cases action with
  | Truncate => exact ⟨.same rfl rfl, rfl, rfl⟩
  | Drop => exact ⟨.same rfl rfl, rfl, rfl⟩
  | Allow =>
    simp only [World.letIn]
    split
    · exact ⟨.same rfl rfl, rfl, rfl⟩
    · exact ⟨.same rfl rfl, rfl, rfl⟩

theorem look_inHand (q : Admitted) : (w.look srv q).inHand srv = none := by
  unfold World.look
  split
  · split
    · rfl
    · split <;> rfl
  · rfl

theorem spawnRefresh_framed (srv : Server) (w : World) (q : Admitted) (entry : CacheEntry) :
    Framed srv w (w.spawnRefresh srv q entry) ∧ (w.spawnRefresh srv q entry).cache = w.cache := by
  unfold World.spawnRefresh
  split
  · exact ⟨⟨rfl, _, rfl, List.forall_mem_singleton.mpr rfl⟩, rfl⟩
  · exact ⟨.same rfl rfl, rfl⟩

theorem fly_inHand {who : Flier} {call : Nat} {x : Input} {work : Option Work}
    (hf : w.fly srv who call x work = some (w', t')) :
    Framed srv w w' ∧ TaskHandled srv w (.flying who call work) w'.cache t' := by
  cases World.fly_flies hf with
  | land hleave =>
    refine ⟨.same rfl rfl, .idle rfl ?_⟩
    cases who <;> rfl
  | works hwork => exact ⟨.same rfl rfl, (workStep_handled hwork).task rfl rfl⟩
  | _ => exact ⟨.same rfl rfl, .idle rfl rfl⟩

/-- **One step of a task.**  A task with an entry in hand writes it and has none any more; another
one leaves the cache alone and takes at most an entry of now or the stored one. -/
theorem taskStep_inHand {x : Input} (hs : w.taskStep srv t x = some (w', t')) :
    Framed srv w w' ∧ TaskHandled srv w t w'.cache t' := by
  have hnext : ∀ {w₁ : World} {t₁ : Task}, some (w₁, t₁) = some (w', t') →
      Framed srv w w₁ ∧ TaskHandled srv w t w₁.cache t₁ →
      Framed srv w w' ∧ TaskHandled srv w t w'.cache t' := by
    intro w₁ t₁ he h
    obtain ⟨rfl, rfl⟩ := Prod.mk.inj (Option.some.inj he)
    exact h
  have hidle : ∀ {w₁ : World} {t₁ : Task}, Framed srv w w₁ → w₁.cache = w.cache →
      t.inHand srv = none → t₁.inHand srv = none →
      Framed srv w w₁ ∧ TaskHandled srv w t w₁.cache t₁ := by
    intro w₁ t₁ hfr hc h h'
    rw [hc]
    exact ⟨hfr, .idle h h'⟩
  unfold World.taskStep at hs
  split at hs
  · split at hs
    · exact hnext hs (hidle (.same rfl rfl) rfl rfl rfl)
    · rename_i protocol clientIp action geo _ p _
      obtain ⟨hfr, hc, hhand⟩ := letIn_same srv w p protocol clientIp geo action
      exact hnext hs (hidle hfr hc rfl hhand)
  · exact hnext hs (hidle (.same rfl rfl) rfl rfl (look_inHand _))
  · obtain ⟨hfr, hc⟩ := spawnRefresh_framed srv w _ _
    exact hnext hs (hidle hfr hc rfl rfl)
  · split at hs
    · exact hnext hs (hidle (.same rfl rfl) rfl rfl rfl)
    · obtain ⟨hfr, hc⟩ := Framed.of_quiet (respond_quiet srv w _ _ _)
      exact hnext hs (hidle hfr hc rfl rfl)
  · split at hs
    · exact hnext hs (hidle (.same rfl rfl) rfl rfl rfl)
    · exact hnext hs (hidle (.same rfl rfl) rfl rfl rfl)
  · exact hnext hs (hidle (.same rfl rfl) rfl rfl rfl)
  · split at hs
    · rename_i hwork
      exact hnext hs ⟨.same rfl rfl, (workStep_handled hwork).task rfl rfl⟩
    · cases hs
  · exact fly_inHand hs
  · obtain ⟨hfr, hc⟩ := Framed.of_quiet (serveResult_quiet srv w _ _)
    exact hnext hs (hidle hfr hc rfl rfl)
  · exact hnext hs (hidle (.same rfl rfl) rfl rfl rfl)
  · exact hnext hs (hidle (.same rfl rfl) rfl rfl rfl)
  · split at hs
    · rename_i hstage
      exact hnext hs ⟨.same rfl rfl, (refreshStep_handled hstage).task rfl rfl⟩
    · cases hs
  · split at hs
    · rename_i hstage
      exact hnext hs ⟨.same rfl rfl, (preloadStep_handled hstage).task rfl rfl⟩
    · cases hs
  · exact hnext hs (hidle (.same rfl rfl) rfl rfl rfl)
  · rename_i ok
    cases ok with
    | true => exact hnext hs (hidle (.same rfl rfl) rfl rfl rfl)
    | false => exact hnext hs (hidle (.same rfl rfl) rfl rfl rfl)
  · cases hs

end

/-! ## runs forward in time -/

/-- the clock does not go back, and nothing is evicted or loaded -/
def Forward (w : World) : Action → Prop
  | .clock now => w.clock ≤ now
  | .load _ => False
  | .evict _ => False
  | .restart => False
  | _ => True

/-- a task that writes under a key has the oldest entry of all those in hand for this key -/
def InOrder (srv : Server) (w : World) : Action → Prop
  | .task i _ => ∀ t ∈ w.tasks[i]?, ∀ p ∈ t.inHand srv, ∀ u ∈ w.tasks, ∀ p' ∈ u.inHand srv,
      p'.1 = p.1 → p.2.cachedAt ≤ p'.2.cachedAt
  | _ => True

instance (w : World) : (a : Action) → Decidable (Forward w a)
  | .clock now => inferInstanceAs (Decidable (w.clock ≤ now))
  | .load _ => instDecidableFalse
  | .evict _ => instDecidableFalse
  | .restart => instDecidableFalse
  | .query _ _ _ => instDecidableTrue
  | .prefetch _ _ _ => instDecidableTrue
  | .preload _ _ => instDecidableTrue
  | .save => instDecidableTrue
  | .task _ _ => instDecidableTrue
  | .cancel _ => instDecidableTrue

instance (srv : Server) (w : World) : (a : Action) → Decidable (InOrder srv w a)
  | .task i _ => inferInstanceAs (Decidable (∀ t ∈ w.tasks[i]?, ∀ p ∈ t.inHand srv,
      ∀ u ∈ w.tasks, ∀ p' ∈ u.inHand srv, p'.1 = p.1 → p.2.cachedAt ≤ p'.2.cachedAt))
  | .clock _ => instDecidableTrue
  | .load _ => instDecidableTrue
  | .evict _ => instDecidableTrue
  | .restart => instDecidableTrue
  | .query _ _ _ => instDecidableTrue
  | .prefetch _ _ _ => instDecidableTrue
  | .preload _ _ => instDecidableTrue
  | .save => instDecidableTrue
  | .cancel _ => instDecidableTrue

/-- nothing is from the future, and no entry in hand is older than the stored one -/
structure Timely (srv : Server) (w : World) : Prop where
  past : ∀ key e, w.cache key = some e → e.cachedAt ≤ w.clock
  hands : ∀ u ∈ w.tasks, ∀ key e, u.inHand srv = some (key, e) →
    e.cachedAt ≤ w.clock ∧ ∀ e', w.cache key = some e' → e'.cachedAt ≤ e.cachedAt

/-- every entry is still there or has made room for one that is not older -/
def Later (w w' : World) : Prop :=
  ∀ key e, w.cache key = some e → ∃ e', w'.cache key = some e' ∧ e.cachedAt ≤ e'.cachedAt

theorem Later.refl (w : World) : Later w w := fun _ e he => ⟨e, he, le_rfl⟩

theorem Later.trans {w w' w'' : World} (h : Later w w') (h' : Later w' w'') : Later w w'' := by
  intro key e he
  obtain ⟨e', he', hle⟩ := h key e he
  obtain ⟨e'', he'', hle'⟩ := h' key e' he'
  exact ⟨e'', he'', hle.trans hle'⟩

section
variable {srv : Server} {w w' : World} {t t' : Task}

theorem Timely.spawn (h : Timely srv w) (ht : t.inHand srv = none) : Timely srv (w.spawn t) := by
  refine ⟨h.past, fun u hu key e he => ?_⟩
  rcases List.mem_append.mp hu with hu | hu
  · exact h.hands u hu key e he
  · rw [List.mem_singleton.mp hu, ht] at he
    cases he

theorem Timely.wrote (h : Timely srv w) {key : CacheKey} {entry entry' : CacheEntry}
    (ht : t ∈ w.tasks) (hand : t.inHand srv = some (key, entry))
    (same : entry'.cachedAt = entry.cachedAt)
    (hfirst : ∀ u ∈ w.tasks, ∀ e, u.inHand srv = some (key, e) → entry.cachedAt ≤ e.cachedAt)
    (hclock : w'.clock = w.clock) (hcache : w'.cache = Function.update w.cache key (some entry'))
    (hmem : ∀ u ∈ w'.tasks, u ∈ w.tasks ∨ u.inHand srv = none) :
    Timely srv w' ∧ Later w w' := by
  obtain ⟨hpast, hstored⟩ := h.hands t ht key entry hand
  refine ⟨⟨fun key' e he => ?_, fun u hu key' e he => ?_⟩, fun key' e he => ?_⟩
  · rw [hclock]
    rw [hcache] at he
    by_cases hk : key' = key
    · rw [hk, Function.update_self] at he
      rw [← Option.some.inj he, same]
      exact hpast
    · rw [Function.update_of_ne hk] at he
      exact h.past key' e he
  · rw [hclock, hcache]
    rcases hmem u hu with hu | hu
    · obtain ⟨hle, hold⟩ := h.hands u hu key' e he
      refine ⟨hle, fun e' he' => ?_⟩
      by_cases hk : key' = key
      · rw [hk, Function.update_self] at he'
        rw [hk] at he
        rw [← Option.some.inj he', same]
        exact hfirst u hu e he
      · rw [Function.update_of_ne hk] at he'
        exact hold e' he'
    · rw [hu] at he
      cases he
  · rw [hcache]
    by_cases hk : key' = key
    · rw [hk] at he ⊢
      rw [Function.update_self]
      refine ⟨entry', rfl, ?_⟩
      rw [same]
      exact hstored e he
    · rw [Function.update_of_ne hk]
      exact ⟨e, he, le_rfl⟩

theorem Timely.kept (h : Timely srv w) (hclock : w'.clock = w.clock) (hcache : w'.cache = w.cache)
    (hmem : ∀ u ∈ w'.tasks, u ∈ w.tasks ∨ ∀ key e, u.inHand srv = some (key, e) →
      e.cachedAt = w.clock ∨ w.cache key = some e) :
    Timely srv w' ∧ Later w w' := by
  refine ⟨⟨fun key e he => ?_, fun u hu key e he => ?_⟩, fun key e he => ?_⟩
  · rw [hclock]
    rw [hcache] at he
    exact h.past key e he
  · rw [hclock, hcache]
    rcases hmem u hu with hu | taken
    · exact h.hands u hu key e he
    · rcases taken key e he with hnow | hstored
      · rw [hnow]
        exact ⟨le_rfl, fun e' he' => h.past key e' he'⟩
      · refine ⟨h.past key e hstored, fun e' he' => ?_⟩
        rw [hstored] at he'
        rw [Option.some.inj he']
  · rw [hcache]
    exact ⟨e, he, le_rfl⟩

/-- a task steps: `w'` may have new tasks, `t'` has taken the place of the one that stepped -/
theorem mem_setTask {i : Nat} {u : Task} (hnew : ∃ new, w'.tasks = w.tasks ++ new ∧
    ∀ u ∈ new, Task.inHand srv u = none) (hu : u ∈ (w'.setTask i t').tasks) :
    u ∈ w.tasks ∨ u.inHand srv = none ∨ u = t' := by
  obtain ⟨new, htasks, hnone⟩ := hnew
  rcases List.mem_or_eq_of_mem_set hu with hu | rfl
  · rw [htasks] at hu
    rcases List.mem_append.mp hu with hu | hu
    · exact Or.inl hu
    · exact Or.inr (Or.inl (hnone u hu))
  · exact Or.inr (Or.inr rfl)

theorem Timely.taskStep (h : Timely srv w) {i : Nat} (hi : w.tasks[i]? = some t) {x : Input}
    (hs : w.taskStep srv t x = some (w', t')) (ho : InOrder srv w (.task i x)) :
    Timely srv (w'.setTask i t') ∧ Later w (w'.setTask i t') := by
  obtain ⟨⟨hclock, hnew⟩, hh⟩ := taskStep_inHand hs
  generalize hcache : w'.cache = cache' at hh
  cases hh with
  | @wrote _ key entry entry' hand same free =>
    refine h.wrote (List.mem_of_getElem? hi) hand same
      (fun u hu e he => ho t hi (key, entry) hand u hu (key, e) he rfl) hclock hcache ?_
    intro u hu
    rcases mem_setTask hnew hu with hu | hu | rfl
    · exact Or.inl hu
    · exact Or.inr hu
    · exact Or.inr free
  | kept hand taken =>
    refine h.kept hclock hcache ?_
    intro u hu
    rcases mem_setTask hnew hu with hu | hu | rfl
    · exact Or.inl hu
    · refine Or.inr fun key e he => ?_
      rw [hu] at he
      cases he
    · exact Or.inr taken

theorem Timely.cancel (h : Timely srv w) (i : Nat) (hc : w.cancelTask t = some w') :
    Timely srv (w'.setTask i .ended) ∧ Later w (w'.setTask i .ended) := by
  obtain ⟨sf, rfl⟩ := cancelTask_eq hc
  refine h.kept rfl rfl fun u hu => ?_
  rcases List.mem_or_eq_of_mem_set hu with hu | rfl
  · exact Or.inl hu
  · exact Or.inr fun key e he => nomatch he

/-- **One step forward.** -/
theorem Timely.step (h : Timely srv w) {a : Action} (hf : Forward w a) (ho : InOrder srv w a) :
    Timely srv (w.step srv a) ∧ Later w (w.step srv a) := by
  cases a with
  | clock now =>
    have hle : w.clock ≤ now := hf
    refine ⟨⟨fun key e he => (h.past key e he).trans hle, fun u hu key e he => ?_⟩, Later.refl w⟩
    obtain ⟨hpast, hstored⟩ := h.hands u hu key e he
    exact ⟨hpast.trans hle, hstored⟩
  | query reqWire protocol clientIp => exact ⟨h.spawn rfl, Later.refl w⟩
  | prefetch key name qtype => exact ⟨h.spawn rfl, Later.refl w⟩
  | preload name qtype => exact ⟨h.spawn rfl, Later.refl w⟩
  | save => exact ⟨h.spawn rfl, Later.refl w⟩
  | load key => exact False.elim hf
  | evict key => exact False.elim hf
  | restart => exact False.elim hf
  | task i x =>
    simp only [World.step]
    split
    · exact ⟨h, Later.refl w⟩
    · rename_i t ht
      split
      · exact ⟨h, Later.refl w⟩
      · rename_i w' t' hs
        exact h.taskStep ht hs ho
  | cancel i =>
    simp only [World.step]
    split
    · exact ⟨h, Later.refl w⟩
    · split
      · exact ⟨h, Later.refl w⟩
      · rename_i w' hc
        exact h.cancel i hc

theorem Timely.run {actions : List Action} (h : Timely srv w)
    (hm : Run.Meets (World.step srv) (fun w a => Forward w a ∧ InOrder srv w a) actions w) :
    Timely srv (w.run srv actions) ∧ Later w (w.run srv actions) := by
  refine Run.Meets.invariant (I := fun w' => Timely srv w' ∧ Later w w') ?_ ⟨h, Later.refl w⟩ hm
  rintro w' a ⟨hw', hl⟩ ⟨hf, ho⟩
  obtain ⟨hstep, hlater⟩ := hw'.step hf ho
  exact ⟨hstep, hl.trans hlater⟩

theorem task_writes {i : Nat} (hi : w.tasks[i]? = some t) {key : CacheKey} {e : CacheEntry}
    (hand : t.inHand srv = some (key, e)) :
    ∃ e', (w.step srv (.task i .none)).cache key = some e' ∧ e'.cachedAt = e.cachedAt := by
  have hsome : ∃ w' t', w.taskStep srv t .none = some (w', t') := by
    cases t with
    | direct q work => cases work <;> first | exact ⟨_, _, rfl⟩ | cases hand
    | flying who call work =>
      cases work with
      | none => cases hand
      | some work => cases work <;> first | exact ⟨_, _, rfl⟩ | cases hand
    | refreshing t stage => cases stage <;> first | exact ⟨_, _, rfl⟩ | cases hand
    | preloading name qtype stage => cases stage <;> first | exact ⟨_, _, rfl⟩ | cases hand
    | _ => cases hand
  obtain ⟨w', t', hs⟩ := hsome
  have hstep : w.step srv (.task i .none) = w'.setTask i t' := by
    simp only [World.step, hi, hs]
  rw [hstep]
  show ∃ e', w'.cache key = some e' ∧ e'.cachedAt = e.cachedAt
  obtain ⟨-, hh⟩ := taskStep_inHand hs
  generalize w'.cache = cache' at hh
  cases hh with
  | wrote hand' same free =>
    rw [hand] at hand'
    obtain ⟨rfl, rfl⟩ := Prod.mk.inj (Option.some.inj hand')
    exact ⟨_, Function.update_self _ _ _, same⟩
  | kept hand' _ =>
    rw [hand] at hand'
    cases hand'

/-- the step of one task leaves the others where they are -/
theorem step_other {i j : Nat} (hij : i ≠ j) {x : Input} (hj : w.tasks[j]? = some t) :
    (w.step srv (.task i x)).tasks[j]? = some t := by
  simp only [World.step]
  split
  · exact hj
  · split
    · exact hj
    · rename_i w' t' hs
      obtain ⟨⟨-, new, htasks, -⟩, -⟩ := taskStep_inHand hs
      show (w'.tasks.set i t')[j]? = some t
      rw [List.getElem?_set_ne hij, htasks]
      exact List.getElem?_append_left (List.getElem?_eq_some_iff.mp hj).1 |>.trans hj

/-- **A step out of order.**  If a task writes while another one has an older entry in hand for the
same key, the next step of that one takes the cache back in time. -/
theorem cachedAt_overtaken {u : Task} {i j : Nat} (hij : i ≠ j) (hi : w.tasks[i]? = some t)
    (hj : w.tasks[j]? = some u) {key : CacheKey} {e e' : CacheEntry}
    (hand : t.inHand srv = some (key, e)) (hand' : u.inHand srv = some (key, e'))
    (hlt : e'.cachedAt < e.cachedAt) :
    ∃ a b, (w.run srv [.task i .none]).cache key = some a ∧
      (w.run srv [.task i .none, .task j .none]).cache key = some b ∧
      b.cachedAt < a.cachedAt := by
  obtain ⟨a, ha, hae⟩ := task_writes hi hand
  have hj' : (w.step srv (.task i .none)).tasks[j]? = some u := step_other hij hj
  obtain ⟨b, hb, hbe⟩ := task_writes hj' hand'
  refine ⟨a, b, ha, hb, ?_⟩
  rw [hae, hbe]
  exact hlt

/-- **The cache does not go back in time.**  From the start of a process, with a clock that does
not go back and without eviction, if of the tasks with an entry in hand for one key the oldest one
writes first, then under no key an entry is ever replaced by an older one. -/
theorem cachedAt_forward (hstart : w.tasks = [])
    (hpast : ∀ key e, w.cache key = some e → e.cachedAt ≤ w.clock) {actions : List Action}
    (hf : Run.Meets (World.step srv) Forward actions w)
    (ho : Run.Meets (World.step srv) (InOrder srv) actions w) {before later : List Action}
    (hp : before <+: later) (hp' : later <+: actions) {key : CacheKey} {e : CacheEntry}
    (he : (w.run srv before).cache key = some e) :
    ∃ e', (w.run srv later).cache key = some e' ∧ e.cachedAt ≤ e'.cachedAt := by
  have htimely : Timely srv w := by
    refine ⟨hpast, fun u hu => ?_⟩
    rw [hstart] at hu
    cases hu
  obtain ⟨rest, rfl⟩ := hp
  have hm := (hf.and ho).initial hp'
  rw [Run.Meets.append] at hm
  have hmid := (htimely.run hm.1).1
  have hrest := (hmid.run hm.2).2
  have hrun : w.run srv (before ++ rest) = (w.run srv before).run srv rest :=
    List.foldl_append
  rw [hrun]
  exact hrest key e he

end

/-! ## a revalidation and a miss -/

/-- pre-warmed at 1000 and stale at 1590, when a hit starts a revalidation; its new message is
unusable and it has read the old entry; at 1600 that entry has expired for another client, whose
miss has read the clock -/
def raceActions : List Action :=
  [.clock 1000, .preload victimName .A, .task 0 .none,
    .task 0 (.message (.ok { responseCode := .NXDomain })), .task 0 (.verdict .Secure),
    .task 0 .none, .task 0 .none, .clock 1590] ++ missSteps 1 ++
  [.task 2 (.message (.ok { responseCode := .NXDomain })), .task 2 (.verdict .InsecureUnknown),
    .task 2 .none, .task 2 .none, .clock 1600] ++ missSteps 3 ++
  [.task 3 .none, .task 3 (.message (.ok { responseCode := .NXDomain })),
    .task 3 (.verdict .Secure), .task 3 .none]

/-- the times of the entry of the name -/
def victimTimes (actions : List Action) : Option (Nat × Nat) :=
  ((World.run bareServer actions {}).cache (canonicalCacheKey bareServer.codec victimName .A)).map
    fun e => (e.cachedAt, e.lastRevalidatedAt)

/-- the revalidation puts the old entry back first, then the miss writes its own -/
theorem race_forward :
    Run.Meets (World.step bareServer) Forward (raceActions ++ [.task 2 .none, .task 3 .none]) {} ∧
      Run.Meets (World.step bareServer) (InOrder bareServer)
        (raceActions ++ [.task 2 .none, .task 3 .none]) {} ∧
      victimTimes raceActions = some (1000, 1000) ∧
      ∀ e, (World.run bareServer raceActions {}).cache
          (canonicalCacheKey bareServer.codec victimName .A) = some e →
        ∃ e', (World.run bareServer (raceActions ++ [.task 2 .none, .task 3 .none]) {}).cache
          (canonicalCacheKey bareServer.codec victimName .A) = some e' ∧
          e.cachedAt ≤ e'.cachedAt := by
  have hf : Run.Meets (World.step bareServer) Forward
      (raceActions ++ [.task 2 .none, .task 3 .none]) {} := by decide +kernel
  have ho : Run.Meets (World.step bareServer) (InOrder bareServer)
      (raceActions ++ [.task 2 .none, .task 3 .none]) {} := by decide +kernel
  have hpast : ∀ key e, ({} : World).cache key = some e → e.cachedAt ≤ ({} : World).clock := by
    intro key e he
    cases he
  refine ⟨hf, ho, by decide +kernel, fun e he => ?_⟩
  exact cachedAt_forward rfl hpast hf ho (List.prefix_append _ _) (List.prefix_refl _) he

/-- the miss writes first: the revalidation puts the entry of 1000 over the one of 1600 -/
theorem race_goes_back :
    ¬ ∀ (srv : Server) (actions before later : List Action) (key : CacheKey) (e e' : CacheEntry),
      Run.Meets (World.step srv) Forward actions {} → before <+: later → later <+: actions →
      (World.run srv before {}).cache key = some e → (World.run srv later {}).cache key = some e' →
      e.cachedAt ≤ e'.cachedAt := by
  intro h
  have hmiss : victimTimes (raceActions ++ [.task 3 .none]) = some (1600, 1600) := by
    decide +kernel
  have hback : victimTimes (raceActions ++ [.task 3 .none, .task 2 .none]) = some (1000, 1600) := by
    decide +kernel
  obtain ⟨e, he, heq⟩ := Option.map_eq_some_iff.mp hmiss
  obtain ⟨e', he', heq'⟩ := Option.map_eq_some_iff.mp hback
  have hle := h bareServer (raceActions ++ [.task 3 .none, .task 2 .none]) _ _ _ e e'
    (by decide +kernel) ⟨[.task 2 .none], List.append_assoc _ _ _⟩ (List.prefix_refl _) he he'
  rw [(Prod.mk.inj heq).1, (Prod.mk.inj heq').1] at hle
  omega

end DnsResolver
