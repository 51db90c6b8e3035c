import DnsResolver.Engine.Alike
import DnsResolver.Engine.Enforce
import DnsResolver.Lib.Run
import DnsResolver.Recursor.Delegation

/-!
# The flags of a client

Two runs of a server with the same surroundings, the same schedule and the same requests, up to one:
that one has another id, other flags or other EDNS contents.  The two runs go in lockstep, and the
task of that request is the only difference.

* `WorldAlike`         two worlds that are the same up to one task and its replies;
* `Host.Alike.step`    a step of both keeps this;
* `flags_do_not_leak`  the two runs.
-/

namespace DnsResolver

/-! ## two servers -/

/-- the same tasks, up to alike ones at the places `P` -/
structure TasksAlike (srv : Server) (P : Nat → Prop) (ts ts' : List Task) : Prop where
  length : ts.length = ts'.length
  alike : ∀ j t t', ts[j]? = some t → ts'[j]? = some t' → t = t' ∨ P j ∧ t.Alike srv t'

/-- the same shared data, and such tasks -/
structure WorldAlike (srv : Server) (P : Nat → Prop) (w w' : World) : Prop where
  bare : w.bare = w'.bare
  tasks : TasksAlike srv P w.tasks w'.tasks

section
variable {srv : Server} {P : Nat → Prop}

theorem TasksAlike.refl (ts : List Task) : TasksAlike srv P ts ts := by
  refine ⟨rfl, fun j t t' ht ht' => Or.inl ?_⟩
  rw [ht] at ht'
  exact Option.some.inj ht'

theorem TasksAlike.append {ts ts' : List Task} (h : TasksAlike srv P ts ts') {new new' : List Task}
    (hlen : new.length = new'.length)
    (hnew : ∀ j t t', new[j]? = some t → new'[j]? = some t' →
      t = t' ∨ P (ts.length + j) ∧ t.Alike srv t') :
    TasksAlike srv P (ts ++ new) (ts' ++ new') := by
  refine ⟨by rw [List.length_append, List.length_append, h.length, hlen], ?_⟩
  intro j t t' ht ht'
  by_cases hj : j < ts.length
  · rw [List.getElem?_append_left hj] at ht
    rw [List.getElem?_append_left (h.length ▸ hj)] at ht'
    exact h.alike j t t' ht ht'
  · have hle : ts.length ≤ j := Nat.le_of_not_lt hj
    rw [List.getElem?_append_right hle] at ht
    rw [List.getElem?_append_right (h.length ▸ hle), ← h.length] at ht'
    have hj' := hnew (j - ts.length) t t' ht ht'
    rwa [Nat.add_sub_cancel' hle] at hj'

theorem TasksAlike.set {ts ts' : List Task} (h : TasksAlike srv P ts ts') {i : Nat} {u u' : Task}
    (hu : u = u' ∨ P i ∧ u.Alike srv u') : TasksAlike srv P (ts.set i u) (ts'.set i u') := by
  refine ⟨by rw [List.length_set, List.length_set, h.length], ?_⟩
  intro j t t' ht ht'
  rw [List.getElem?_set] at ht ht'
  by_cases hij : i = j
  · subst hij
    rw [if_pos rfl] at ht ht'
    split at ht
    · rename_i hlt
      rw [if_pos (h.length ▸ hlt)] at ht'
      rw [← Option.some.inj ht, ← Option.some.inj ht']
      exact hu
    · cases ht
  · rw [if_neg hij] at ht ht'
    exact h.alike j t t' ht ht'

theorem TasksAlike.get {ts ts' : List Task} (h : TasksAlike srv P ts ts') (j : Nat) :
    (ts[j]? = none ∧ ts'[j]? = none) ∨
      ∃ t t', ts[j]? = some t ∧ ts'[j]? = some t' ∧ (t = t' ∨ P j ∧ t.Alike srv t') := by
  by_cases hj : j < ts.length
  · have ht := List.getElem?_eq_getElem hj
    have ht' := List.getElem?_eq_getElem (h.length ▸ hj)
    exact Or.inr ⟨_, _, ht, ht', h.alike j _ _ ht ht'⟩
  · have hle : ts.length ≤ j := Nat.le_of_not_lt hj
    exact Or.inl ⟨List.getElem?_eq_none hle, List.getElem?_eq_none (h.length ▸ hle)⟩

theorem WorldAlike.view {w w' : World} (h : WorldAlike srv P w w') : w.view srv = w'.view srv := by
  have hwaiting : w.tasks.map (Task.request srv) = w'.tasks.map (Task.request srv) := by
    refine List.ext_getElem? fun j => ?_
    rw [List.getElem?_map, List.getElem?_map]
    rcases h.tasks.get j with ⟨ht, ht'⟩ | ⟨t, t', ht, ht', heq | ⟨-, ha⟩⟩
    · rw [ht, ht']
    · rw [ht, ht', heq]
    · rw [ht, ht', Option.map_some, Option.map_some, ha.request]
  show { w.bare.view srv with waiting := w.tasks.map (Task.request srv) } =
    { w'.bare.view srv with waiting := w'.tasks.map (Task.request srv) }
  rw [h.bare, hwaiting]

theorem WorldAlike.over {w w' w₁ w₁' : World} (h : WorldAlike srv P w w')
    (hq : w₁.quiet = w₁'.quiet) {i : Nat} {u u' : Task} (hu : u = u' ∨ P i ∧ u.Alike srv u') :
    WorldAlike srv P ((w₁.over w).setTask i u) ((w₁'.over w').setTask i u') := by
  have htasks : w₁.tasks = w₁'.tasks := (congrArg World.tasks hq :)
  refine ⟨?_, ?_⟩
  · show w₁.quiet.bare = w₁'.quiet.bare
    rw [hq]
  · refine TasksAlike.set ?_ hu
    refine h.tasks.append (by rw [htasks]) fun j t t' ht ht' => Or.inl ?_
    rw [htasks, ht'] at ht
    exact (Option.some.inj ht).symm

theorem step_task_frame {w : World} {i : Nat} {t : Task} (hi : w.tasks[i]? = some t) (x : Input) :
    w.step srv (.task i x) =
      ((w.bare.taskStep srv t x).map fun r => (r.1.over w).setTask i r.2).getD w := by
  simp only [World.step, hi]
  rw [taskStep_frame]
  cases w.bare.taskStep srv t x <;> rfl

theorem WorldAlike.step_same {w w' : World} (h : WorldAlike srv P w w') {i : Nat} {t : Task}
    (hi : w.tasks[i]? = some t) (hi' : w'.tasks[i]? = some t) (x : Input) :
    WorldAlike srv P (w.step srv (.task i x)) (w'.step srv (.task i x)) ∧
      (w.step srv (.task i x)).replies.drop w.replies.length =
        (w'.step srv (.task i x)).replies.drop w'.replies.length := by
  rw [step_task_frame hi, step_task_frame hi', h.bare]
  cases w'.bare.taskStep srv t x with
  | none =>
    refine ⟨h, ?_⟩
    show w.replies.drop w.replies.length = w'.replies.drop w'.replies.length
    rw [List.drop_length, List.drop_length]
  | some r =>
    refine ⟨h.over rfl (Or.inl rfl), ?_⟩
    show (w.replies ++ r.1.replies).drop w.replies.length =
      (w'.replies ++ r.1.replies).drop w'.replies.length
    rw [List.drop_left, List.drop_left]

theorem WorldAlike.step_alike (hcodec : srv.codec.Reencodes) {w w' : World}
    (h : WorldAlike srv P w w') {i : Nat} {t t' : Task} (hi : w.tasks[i]? = some t)
    (hi' : w'.tasks[i]? = some t') (hP : P i) (ht : t.Alike srv t') {x x' : Input}
    (hx : x.Alike x') :
    WorldAlike srv P (w.step srv (.task i x)) (w'.step srv (.task i x')) := by
  rw [step_task_frame hi, step_task_frame hi', h.bare]
  have hrel := ht.step hcodec w'.bare hx
  revert hrel
  generalize w'.bare.taskStep srv t x = r
  generalize w'.bare.taskStep srv t' x' = r'
  intro hrel
  cases hrel with
  | none => exact h
  | some hr => exact h.over hr.1 (Or.inr ⟨hP, hr.2⟩)

theorem WorldAlike.spawn {w w' : World} (h : WorldAlike srv P w w') {t t' : Task}
    (ht : t = t' ∨ P w.tasks.length ∧ t.Alike srv t') :
    WorldAlike srv P (w.spawn t) (w'.spawn t') := by
  refine ⟨h.bare, h.tasks.append rfl fun j u u' hu hu' => ?_⟩
  cases j with
  | zero =>
    rw [← Option.some.inj hu, ← Option.some.inj hu']
    exact ht
  | succ j => cases hu

theorem cancelTask_frame (w : World) (t : Task) :
    w.cancelTask t = (w.bare.cancelTask t).map fun w₁ => w₁.over w := by
  have hsf : ∀ call, (w.singleflight.cancel call).map (fun sf => { w with singleflight := sf }) =
      ((w.bare.singleflight.cancel call).map fun sf => { w.bare with singleflight := sf }).map
        fun w₁ => w₁.over w := by
    intro call
    rw [Option.map_map]
    refine congrArg (Option.map · (w.singleflight.cancel call)) (funext fun sf => ?_)
    exact over_with w w.cache w.inFlight sf w.disk
  unfold World.cancelTask
  split
  · rw [Option.map_some, over_bare]
  · rw [Option.map_some, over_bare]
  · exact hsf _
  · exact hsf _
  · exact hsf _
  · rfl

theorem Task.Alike.cancel {t t' : Task} (h : t.Alike srv t') (b : World) :
    b.cancelTask t = b.cancelTask t' := by
  cases h with
  | direct h work => cases work <;> rfl
  | flying h call work =>
    cases work with
    | none => rfl
    | some work => cases work <;> rfl
  | _ => rfl

theorem WorldAlike.cancel {w w' : World} (h : WorldAlike srv P w w') (i : Nat) :
    WorldAlike srv P (w.step srv (.cancel i)) (w'.step srv (.cancel i)) := by
  simp only [World.step]
  rcases h.tasks.get i with ⟨hi, hi'⟩ | ⟨t, t', hi, hi', ht⟩
  · rw [hi, hi']
    exact h
  · have hc : w'.bare.cancelTask t = w'.bare.cancelTask t' := by
      rcases ht with heq | ⟨-, ha⟩
      · rw [heq]
      · exact ha.cancel w'.bare
    rw [hi, hi']
    dsimp only
    rw [cancelTask_frame w, cancelTask_frame w', h.bare, hc]
    cases w'.bare.cancelTask t' with
    | none => exact h
    | some w₁ => exact h.over rfl (Or.inl rfl)

theorem WorldAlike.effect {w w' : World} (h : WorldAlike srv P w w') {effect : Effect}
    (hne : effect ≠ .restart) :
    WorldAlike srv P (w.step srv effect.action) (w'.step srv effect.action) := by
  have hwith : ∀ f : World → World, (∀ v : World, (f v).tasks = v.tasks) →
      (∀ v : World, (f v).bare = (f v.bare).bare) → WorldAlike srv P (f w) (f w') := by
    intro f htasks hbare
    refine ⟨?_, ?_⟩
    · rw [hbare w, hbare w', h.bare]
    · rw [htasks, htasks]
      exact h.tasks
  have hclock : w.clock = w'.clock := (congrArg World.clock h.bare :)
  cases effect with
  | clock now => exact hwith (fun v => { v with clock := now }) (fun _ => rfl) fun _ => rfl
  | prefetch key name qtype => exact h.spawn (Or.inl rfl)
  | preload name qtype => exact h.spawn (Or.inl rfl)
  | save =>
    refine h.spawn (Or.inl ?_)
    rw [hclock]
  | load key =>
    exact hwith
      (fun v => { v with cache := v.cache.put key (liveEntries srv v.clock v.disk key) })
      (fun _ => rfl) fun _ => rfl
  | evict key =>
    exact hwith (fun v => { v with cache := Function.update v.cache key none }) (fun _ => rfl)
      fun _ => rfl
  | restart => exact absurd rfl hne

end

/-- what was returned to all requests but one -/
def others (id : Nat × Nat) (outcomes : List ((Nat × Nat) × ProcessOutcome)) :
    List ((Nat × Nat) × ProcessOutcome) :=
  outcomes.filter fun r => decide (r.1 ≠ id)

/-- the two runs: all the same, up to the task `id` and what was returned to it -/
structure Host.Alike {ε : Type} (srv : Server) (id : Nat × Nat) (s s' : Host ε) : Prop where
  world : WorldAlike srv (fun j => (s.boots, j) = id) s.world s'.world
  outside : s.outside = s'.outside
  limiter : s.limiter = s'.limiter
  checks : s.checks = s'.checks
  boots : s.boots = s'.boots
  outcomes : others id s.outcomes = others id s'.outcomes

namespace Host
variable {ε χ : Type} {srv : Server} {o : Outside ε χ} {id : Nat × Nat} {s s' : Host ε}

theorem Alike.refl (srv : Server) (id : Nat × Nat) (s : Host ε) : s.Alike srv id s :=
  ⟨⟨rfl, .refl _⟩, rfl, rfl, rfl, rfl, rfl⟩

theorem Alike.input_same (h : s.Alike srv id s') (i : Nat) (t : Task) :
    s.input srv o i t = s'.input srv o i t := by
  have hverdict : s.verdict i = s'.verdict i := by
    unfold verdict
    rw [h.checks, h.limiter]
  unfold input
  split
  · rw [h.outside, hverdict]
  · rw [h.outside, h.world.view]

theorem Alike.input_alike (h : s.Alike srv id s') (i : Nat) {t t' : Task} (ht : t.Alike srv t') :
    Option.Rel (fun r r' => r.1.Alike r'.1 ∧ r.2 = r'.2) (s.input srv o i t)
      (s'.input srv o i t') := by
  have hsame : ∀ u : Option (Input × ε),
      Option.Rel (fun r r' => r.1.Alike r'.1 ∧ r.2 = r'.2) u u := by
    intro u
    cases u with
    | none => exact .none
    | some r => exact .some ⟨.same _, rfl⟩
  rw [h.input_same i t]
  cases ht with
  | arrived read read' question =>
    rcases parse_alike read read' question with ⟨_, hp, hp'⟩ | ⟨p, client, ecsNet, hp, _, hp', _⟩
    · simp only [input, hp, hp']
      exact .some ⟨.same _, rfl⟩
    · simp only [input, hp, hp']
      cases s'.verdict i with
      | none => exact .none
      | some action => exact .some ⟨.admitted _ _ _, rfl⟩
  | lookup h => cases h; exact hsame _
  | hit h => cases h; exact hsame _
  | answering h => cases h; exact hsame _
  | missed h => cases h; exact hsame _
  | direct h => cases h; exact hsame _
  | flying h call work => cases h; cases work <;> exact hsame _
  | resolved h => cases h; exact hsame _
  | ended => exact hsame _

theorem others_append (id : Nat × Nat) (l l' : List ((Nat × Nat) × ProcessOutcome)) :
    others id (l ++ l') = others id l ++ others id l' :=
  List.filter_append l l'

theorem others_own (id : Nat × Nat) (l : List ProcessOutcome) :
    others id (l.map (Prod.mk id)) = [] := by
  refine List.filter_eq_nil_iff.mpr fun r hr => ?_
  obtain ⟨outcome, -, rfl⟩ := List.mem_map.mp hr
  simp

theorem Alike.advance_same (h : s.Alike srv id s') {i : Nat} {t : Task}
    (hi : s.world.tasks[i]? = some t) (hi' : s'.world.tasks[i]? = some t) (x : Input) (e : ε) :
    (s.advance srv i t x e).Alike srv id (s'.advance srv i t x e) := by
  obtain ⟨hworld, hreplies⟩ := h.world.step_same hi hi' x
  refine ⟨hworld, rfl, h.limiter, h.checks, h.boots, ?_⟩
  show others id (s.outcomes ++ _) = others id (s'.outcomes ++ _)
  rw [others_append, others_append, h.outcomes, hreplies, h.boots]

theorem Alike.advance_alike (hcodec : srv.codec.Reencodes) (h : s.Alike srv id s') {i : Nat}
    {t t' : Task} (hi : s.world.tasks[i]? = some t) (hi' : s'.world.tasks[i]? = some t')
    (hid : (s.boots, i) = id) (ht : t.Alike srv t') {x x' : Input} (hx : x.Alike x') (e : ε) :
    (s.advance srv i t x e).Alike srv id (s'.advance srv i t' x' e) := by
  refine ⟨h.world.step_alike hcodec hi hi' hid ht hx, rfl, h.limiter, h.checks, h.boots, ?_⟩
  have hid' : (s'.boots, i) = id := h.boots ▸ hid
  show others id (s.outcomes ++ List.map (Prod.mk (s.boots, i)) _) =
    others id (s'.outcomes ++ List.map (Prod.mk (s'.boots, i)) _)
  rw [others_append, others_append, hid, hid', others_own, others_own, h.outcomes]

theorem Alike.stepTask_waiting (h : s.Alike srv id s') {i : Nat} {t t' : Task}
    (ht : t.request srv = t'.request srv) (hin : s.input srv o i t = none)
    (hin' : s'.input srv o i t' = none) :
    (s.stepTask srv o i t).Alike srv id (s'.stepTask srv o i t') := by
  unfold stepTask
  rw [hin, hin', ht, h.checks]
  dsimp only
  split
  · refine ⟨h.world, h.outside, ?_, ?_, h.boots, h.outcomes⟩
    · simp only [callLimiter, h.limiter]
    · simp only [callLimiter, h.limiter, h.checks]
  · exact h

theorem Alike.stepTask (hcodec : srv.codec.Reencodes) (h : s.Alike srv id s') {i : Nat}
    {t t' : Task} (hi : s.world.tasks[i]? = some t) (hi' : s'.world.tasks[i]? = some t')
    (ht : t = t' ∨ (s.boots, i) = id ∧ t.Alike srv t') :
    (s.stepTask srv o i t).Alike srv id (s'.stepTask srv o i t') := by
  rcases ht with rfl | ⟨hid, ha⟩
  · cases hin : s.input srv o i t with
    | none => exact h.stepTask_waiting rfl hin (h.input_same i t ▸ hin)
    | some r =>
      have hin' : s'.input srv o i t = some r := h.input_same i t ▸ hin
      simp only [Host.stepTask, hin, hin']
      exact h.advance_same hi hi' r.1 r.2
  · have hrel := h.input_alike (o := o) i ha
    cases hin : s.input srv o i t with
    | none =>
      cases hin' : s'.input srv o i t' with
      | none => exact h.stepTask_waiting ha.request hin hin'
      | some r' =>
        rw [hin, hin'] at hrel
        cases hrel
    | some r =>
      cases hin' : s'.input srv o i t' with
      | none =>
        rw [hin, hin'] at hrel
        cases hrel
      | some r' =>
        rw [hin, hin'] at hrel
        cases hrel with
        | some hr =>
          simp only [Host.stepTask, hin, hin']
          rw [hr.2]
          exact h.advance_alike hcodec hi hi' hid ha hr.1 r'.2

theorem Alike.affect (h : s.Alike srv id s') (effect : Effect) :
    (s.affect srv effect).Alike srv id (s'.affect srv effect) := by
  unfold Host.affect
  by_cases he : effect = .restart
  · rw [if_pos he, if_pos he]
    refine ⟨⟨?_, .refl []⟩, h.outside, ?_, rfl, ?_, h.outcomes⟩
    · have hclock : s.world.clock = s'.world.clock := (congrArg World.clock h.world.bare :)
      have hdisk : s.world.disk = s'.world.disk := (congrArg World.disk h.world.bare :)
      simp only [World.step, World.bare, hclock, hdisk]
    · rw [h.limiter]
    · show s.boots + 1 = s'.boots + 1
      rw [h.boots]
  · rw [if_neg he, if_neg he]
    exact ⟨h.world.effect he, h.outside, h.limiter, h.checks, h.boots, h.outcomes⟩

/-- **One step of both.** -/
theorem Alike.step (hcodec : srv.codec.Reencodes) (h : s.Alike srv id s') (event : HostEvent χ) :
    (s.step srv o event).Alike srv id (s'.step srv o event) := by
  unfold Host.step
  by_cases hab : s.limiter.aborted = true
  · rw [if_pos hab, if_pos (h.limiter ▸ hab)]
    exact h
  · rw [if_neg hab, if_neg (h.limiter ▸ hab)]
    cases event with
    | query reqWire protocol clientIp =>
      exact ⟨h.world.spawn (Or.inl rfl), h.outside, h.limiter, h.checks, h.boots, h.outcomes⟩
    | task i =>
      dsimp only
      rcases h.world.tasks.get i with ⟨hi, hi'⟩ | ⟨t, t', hi, hi', ht⟩
      · rw [hi, hi']
        exact h
      · rw [hi, hi']
        exact h.stepTask hcodec hi hi' ht
    | cancel i => exact ⟨h.world.cancel i, h.outside, h.limiter, h.checks, h.boots, h.outcomes⟩
    | limiter op =>
      have hop : Limiter.step s.limiter op = Limiter.step s'.limiter op := by rw [h.limiter]
      dsimp only
      split
      · exact h
      · exact ⟨h.world, h.outside, hop, h.checks, h.boots, h.outcomes⟩
    | outside c =>
      have hout : ∀ e, ({ s with outside := e } : Host ε).Alike srv id { s' with outside := e } :=
        fun e => ⟨h.world, rfl, h.limiter, h.checks, h.boots, h.outcomes⟩
      dsimp only
      rw [h.outside, h.world.view]
      split
      · exact (hout _).affect _
      · exact hout _

/-- a run in which a client sends `reqWire` after `before` -/
def runWith (srv : Server) (o : Outside ε χ) (s : Host ε) (before : List (HostEvent χ))
    (reqWire : Bytes) (protocol : Protocol) (clientIp : IpAddr) (after : List (HostEvent χ)) :
    Host ε :=
  s.run srv o (before ++ .query reqWire protocol clientIp :: after)

/-- the task that the next request becomes -/
def nextTask (s : Host ε) : Nat × Nat := (s.boots, s.world.tasks.length)

theorem Alike.runWith (hcodec : srv.codec.Reencodes) {reqWire reqWire' : Bytes} {m m' : Message}
    (read : srv.codec.read reqWire = some m) (read' : srv.codec.read reqWire' = some m')
    (question : SameQuestion m m') (protocol : Protocol) (clientIp : IpAddr)
    (before after : List (HostEvent χ)) (s : Host ε) :
    (s.runWith srv o before reqWire protocol clientIp after).Alike srv
      (s.run srv o before).nextTask (s.runWith srv o before reqWire' protocol clientIp after) := by
  simp only [Host.runWith, run, List.foldl_append, List.foldl_cons]
  refine Run.lockstep (fun s s' event h => h.step hcodec event) ?_ after
  generalize before.foldl (Host.step srv o) s = s₁
  unfold Host.step
  split
  · exact .refl srv _ s₁
  · refine ⟨?_, rfl, rfl, rfl, rfl, rfl⟩
    exact WorldAlike.spawn ⟨rfl, .refl _⟩ (Or.inr ⟨rfl, .arrived read read' question⟩)

/-- nothing but the request `id` can tell two runs apart -/
structure SameForOthers (id : Nat × Nat) (one two : Host ε) : Prop where
  outcomes : others id one.outcomes = others id two.outcomes
  cache : one.world.cache = two.world.cache
  inFlight : one.world.inFlight = two.world.inFlight
  singleflight : one.world.singleflight = two.world.singleflight
  disk : one.world.disk = two.world.disk
  limiter : one.limiter = two.limiter
  /-- delegations included -/
  outside : one.outside = two.outside

/-- **The flags of one client do not reach another one.**  Two runs with the same surroundings and
schedule and the same requests, up to the id, `RD`, `AD`, `CD` and EDNS contents of one: every other
request gets the same outcome, and the answer cache, the rate limiter and everything outside are
the same. -/
theorem flags_do_not_leak (hcodec : srv.codec.Reencodes) (o : Outside ε χ) (s : Host ε)
    {reqWire reqWire' : Bytes} {m m' : Message} (read : srv.codec.read reqWire = some m)
    (read' : srv.codec.read reqWire' = some m') (question : SameQuestion m m')
    (protocol : Protocol) (clientIp : IpAddr) (before after : List (HostEvent χ)) :
    SameForOthers (s.run srv o before).nextTask
      (s.runWith srv o before reqWire protocol clientIp after)
      (s.runWith srv o before reqWire' protocol clientIp after) := by
  have h := Alike.runWith (o := o) hcodec read read' question protocol clientIp before after s
  exact
    { outcomes := h.outcomes
      cache := (congrArg World.cache h.world.bare :)
      inFlight := (congrArg World.inFlight h.world.bare :)
      singleflight := (congrArg World.singleflight h.world.bare :)
      disk := (congrArg World.disk h.world.bare :)
      limiter := h.limiter
      outside := h.outside }

end Host

/-! ## a client that sets all flags -/

/-- the client subnet option, with the octets its length needs -/
def subnetWire (addr : IpAddr) (sourceLen : UInt8) : Bytes :=
  let (family, all) : UInt16 × Bytes := match addr with
    | .V4 v4 => (1, v4.octets.toList)
    | .V6 v6 => (2, v6.segments.toList.flatMap be16)
  let octets := all.take ((sourceLen.toNat + 7) / 8)
  be16 8 ++ be16 (octets.length + 4).toUInt16 ++ be16 family ++ [sourceLen, 0] ++ octets

def ednsRecordWire (e : Edns) : Bytes :=
  let options := match e.subnet with
    | none => []
    | some (addr, sourceLen) => subnetWire addr sourceLen
  [0] ++ be16 41 ++ be16 e.maxPayload ++ [0, e.version, if e.dnssecOk then 0x80 else 0, 0] ++
    be16 options.length.toUInt16 ++ options

/-- a message that has no record but `OPT` -/
def ednsWire (msg : Message) : Option Bytes :=
  (plainWire { msg with edns := none }).map fun wire =>
    match msg.edns with
    | none => wire
    | some e => wire.take 10 ++ [0, 1] ++ wire.drop 12 ++ ednsRecordWire e

/-- the same question, asked with all flags, a large buffer and a client subnet -/
def curiousRequest : Message :=
  { victimRequest with
    id := 9
    authenticData := true
    checkingDisabled := true
    edns := some
      { maxPayload := 4096
        dnssecOk := true
        subnet := some (.V4 ⟨#v[203, 0, 113, 0]⟩, 24) } }

/-- what the resolution of the name gives -/
def nameError : Message := { responseCode := .NXDomain }

def readable : List Message := [victimRequest, curiousRequest, stamp .Secure nameError]

def flagServer : Server :=
  { bareServer with
    codec :=
      { toBytes := ednsWire
        read := fun wire => readable.find? fun m => decide (ednsWire m = some wire)
        typeText := bareServer.codec.typeText } }

theorem ednsWire_isSome {msg : Message} (ha : msg.answers = []) (hn : msg.nameServers = [])
    (hd : msg.additionals = []) : (ednsWire msg).isSome = true := by
  simp [ednsWire, plainWire, ha, hn, hd]

theorem SectionOf.nil {shown : List Record} (h : SectionOf [] shown) : shown = [] := by
  refine List.eq_nil_iff_forall_not_mem.mpr fun r hr => ?_
  obtain ⟨r₀, hr₀, -⟩ := h r hr
  cases hr₀

theorem flagServer_reencodes : flagServer.codec.Reencodes := by
  intro reqWire req wire base _ hbase msg _ _ ha hn hd
  have hfind : readable.find? (fun m => decide (ednsWire m = some wire)) = some base := hbase
  have hmem : base ∈ readable := List.mem_of_find?_eq_some hfind
  have hempty : ∀ m ∈ readable, m.answers = [] ∧ m.nameServers = [] ∧ m.additionals = [] := by
    decide
  obtain ⟨ha₀, hn₀, hd₀⟩ := hempty base hmem
  rw [ha₀] at ha
  rw [hn₀] at hn
  rw [hd₀] at hd
  exact ednsWire_isSome ha.nil hn.nil hd.nil

/-- a recursor that finds a delegation for every name, and then a signed name error -/
def surroundings : Outside DelegationCache Nat where
  work := fun delegations _ now => (delegations, some (.clock now))
  reply := fun delegations view i =>
    match view.waiting[i]?.join with
    | some (.resolve name _) =>
      some (.message (.ok nameError), Function.update delegations name.fold
        (some ⟨[.V4 ⟨#v[198, 51, 100, 1]⟩], view.clock + minDelegationTtl, .Dynamic⟩))
    | some (.validate _ _ _) => some (.verdict .Secure, delegations)
    | some (.lookup _) => some (.none, delegations)
    | _ => none
  geo := fun _ _ _ _ _ _ => .Dropped

def emptyHost : Host DelegationCache where
  outside := fun _ => none
  limiter := Limiter.start 100 50 .dotted addressMnemonic

/-- the `i`-th task calls the rate limiter, which lets it in, and looks into the cache -/
def enterEvents (i : Nat) : List (HostEvent Nat) :=
  [.task i, .limiter (.step i 1000000), .limiter (.step i 1000000), .limiter (.step i 1000000),
    .limiter (.step i 1000000), .limiter (.step i 1000000), .task i, .task i]

def askEvent (n : UInt8) : HostEvent Nat :=
  .query victimWire .TCP (.V4 ⟨#v[203, 0, 113, n]⟩)

/-- a second client waits for the answer of the first, the third one gets a hit and the fourth one a
stale answer, which starts a revalidation -/
def afterEvents : List (HostEvent Nat) :=
  List.flatten
    [enterEvents 0, [.task 0, .task 0, askEvent 2], enterEvents 1, [.task 1],
      List.replicate 7 (.task 0), [.task 1, .task 1, .task 1, askEvent 3], enterEvents 2,
      [.task 2, .task 2, .outside 1400, askEvent 4], enterEvents 3, [.task 3, .task 3],
      List.replicate 5 (.task 4)]

def flagRun (reqWire : Bytes) : Host DelegationCache :=
  emptyHost.runWith flagServer surroundings [.outside 1000] reqWire .TCP
    (.V4 ⟨#v[203, 0, 113, 1]⟩) afterEvents

def curiousWire : Bytes := (ednsWire curiousRequest).getD []

/-- the first client gets another response, the other three do not -/
theorem flagRun_same :
    (flagRun victimWire).outcomes.map Prod.fst = [(0, 0), (0, 1), (0, 2), (0, 3)] ∧
      (flagRun victimWire).outcomes.head? ≠ (flagRun curiousWire).outcomes.head? ∧
      Host.SameForOthers (0, 0) (flagRun victimWire) (flagRun curiousWire) := by
  have hread : flagServer.codec.read victimWire = some victimRequest := by decide +kernel
  have hread' : flagServer.codec.read curiousWire = some curiousRequest := by decide +kernel
  have hid : (emptyHost.run flagServer surroundings [.outside 1000]).nextTask = (0, 0) := by
    decide +kernel
  have hsame := Host.flags_do_not_leak flagServer_reencodes surroundings emptyHost hread hread'
    (by decide) .TCP (.V4 ⟨#v[203, 0, 113, 1]⟩) [.outside 1000] afterEvents
  rw [hid] at hsame
  exact ⟨by decide +kernel, by decide +kernel, hsame⟩

end DnsResolver
