import DnsResolver.Lib.Run
import DnsResolver.Lib.StrSlice
import DnsResolver.Recursor.AddressText
import DnsResolver.Recursor.ZoneStart
import Mathlib.Algebra.Group.Nat.Defs

/-!
# The life of the root zone (`RootZoneManager`)

A zone is downloaded from time to time, put into the delegation cache and stored as text and as
JSON.  The resolver changes the cache in between, downloads and writes fail, and the process starts
again with what is in the files.

* `downloadAndRefresh`, `saveJson`   the code;
* `ZoneProcess.step`                 one event in the life of the process;
* `one_zone`                         the entries of a zone in the cache are of one zone, and the
                                     status is about it.
-/

namespace DnsResolver

/-! ## files -/

/-- what the manager uses from outside; `nameText` is `Name::to_string` -/
structure ZoneStore where
  config : RootZoneConfig
  /-- `json_path.with_extension("tmp")` -/
  tmpPath : Text
  fromJson : Text → Except String RootZoneCacheJson
  toJson : RootZoneCacheJson → Text
  fromStr : Text → Option Name
  nameText : Name → Text

abbrev Disk := Text → Option Text

/-- `fs::write`; one that fails leaves anything -/
inductive WriteResult where
  | ok
  | failed (left : Option Text)

def Disk.write (disk : Disk) (path content : Text) : WriteResult → Disk
  | .ok => Function.update disk path (some content)
  | .failed left => Function.update disk path left

/-- `fs::rename` of a file that is there -/
def Disk.rename (disk : Disk) (src dst : Text) : Disk :=
  Function.update (Function.update disk src none) dst (disk src)

/-- how the writes of a refresh end -/
structure SaveOutcome where
  text : WriteResult
  tmp : WriteResult
  renamed : Bool

/-- `now_secs` where a refresh reads it -/
structure RefreshTimes where
  parsed : Nat
  install : Nat
  attempt : Nat
  success : Nat

namespace ZoneStore
variable (s : ZoneStore)

/-- the manager of a process that starts with these files -/
def on (disk : Disk) : RootZoneManager where
  config := s.config
  readToString path :=
    match disk path with
    | some content => .ok content
    | none => .error "No such file or directory"
  fromJson := s.fromJson
  fromStr := s.fromStr

def zoneNames : ZoneNames Name ZoneKey := ⟨s.fromStr, Name.fold, Name.isRoot⟩

def cacheEntry (e : Name × RootZoneDelegation) : RootZoneCacheEntry :=
  ⟨s.nameText e.1, e.2.ttl, e.2.servers.map IpAddr.display⟩

def cacheJson (data : ParsedZone s.zoneNames) : RootZoneCacheJson where
  serial := data.serial
  loadedAt := data.loadedAt
  sourceUrl := data.sourceUrl
  delegations := data.delegations.entries.map s.cacheEntry

/-- `save_json` -/
def saveJson (data : ParsedZone s.zoneNames) (o : SaveOutcome) (disk : Disk) : Disk :=
  match o.tmp with
  | .failed left => disk.write s.tmpPath (s.toJson (s.cacheJson data)) (.failed left)
  | .ok =>
    let disk := disk.write s.tmpPath (s.toJson (s.cacheJson data)) .ok
    if o.renamed then disk.rename s.tmpPath s.config.jsonPath else disk

/-- `download`, from the answer of the server on -/
def download (resp : Except String Text) : Except String Text :=
  match resp with
  | .error e => .error e
  | .ok content =>
    if StrSlice.size content < 100000 then
      .error s!"suspiciously small payload ({StrSlice.size content} bytes)"
    else .ok content

/-- what `download_and_refresh` gets -/
def refreshData (resp : Except String Text) (t : RefreshTimes) :
    Except String (Text × ParsedZone s.zoneNames) :=
  match download resp with
  | .error e => .error e
  | .ok content =>
    match parseRootZone s.zoneNames t.parsed content s.config.url with
    | .error e => .error e
    | .ok data =>
      if data.delegations.entries.length < 100 then
        .error (s!"root zone parsed to only {data.delegations.entries.length} delegations; " ++
          "refusing to install")
      else .ok (content, data)

end ZoneStore

/-! ## the process -/

/-- a zone in the cache, and when it got there -/
structure ZoneLoad (s : ZoneStore) where
  data : ParsedZone s.zoneNames
  installedAt : Nat

/-- the cache, the status and the files; `loaded` is not in the source -/
structure ZoneProcess (s : ZoneStore) where
  cache : DelegationCache
  status : RootZoneStatus
  disk : Disk
  loaded : Option (ZoneLoad s)

/-- the part of a zone that goes into the cache -/
def ZoneStore.zoneData {s : ZoneStore} (data : ParsedZone s.zoneNames) : RootZoneData :=
  ⟨data.delegations.entries, data.delegations.distinct⟩

inductive ZoneEvent where
  /-- a turn of `refresh_loop`; the last time is that of a failure -/
  | scheduled (resp : Except String Text) (t : RefreshTimes) (o : SaveOutcome) (failedAt : Nat)
  /-- the download that `start` spawns -/
  | initial (resp : Except String Text) (t : RefreshTimes) (o : SaveOutcome)
  /-- a resolution -/
  | resolve (net : Net) (tx : Presentation) (name : Name) (rtype : RecordType) (tick : Nat)
  | restart (t : StartTimes)

namespace ZoneProcess
variable {s : ZoneStore}

/-- a process that starts with these files -/
def start (s : ZoneStore) (disk : Disk) (t : StartTimes) : ZoneProcess s where
  cache := ((s.on disk).start t fun _ => none).1
  status := ((s.on disk).start t fun _ => none).2
  disk := disk
  loaded := ((s.on disk).initialZone t.parsed).map fun data => ⟨data, t.install⟩

/-- a zone that has been downloaded is put into the cache and stored -/
def install (p : ZoneProcess s) (content : Text) (data : ParsedZone s.zoneNames) (t : RefreshTimes)
    (o : SaveOutcome) : ZoneProcess s where
  cache := installToCache t.install (ZoneStore.zoneData data) p.cache
  status :=
    { state := .Valid
      serial := some data.serial
      loadedAt := some data.loadedAt
      sourcePath := some data.sourcePath
      sourceUrl := some data.sourceUrl
      tldCount := data.delegations.entries.length
      fileAgeDays := some 0
      lastRefreshAttempt := some t.attempt
      lastRefreshSuccess := some t.success
      consecutiveFailures := 0 }
  disk := s.saveJson data o (p.disk.write s.config.textPath content o.text)
  loaded := some ⟨data, t.install⟩

/-- `download_and_refresh` -/
def downloadAndRefresh (p : ZoneProcess s) (resp : Except String Text) (t : RefreshTimes)
    (o : SaveOutcome) : Except String (ZoneProcess s) :=
  match s.refreshData resp t with
  | .error e => .error e
  | .ok (content, data) => .ok (p.install content data t o)

/-- the failure of a scheduled refresh, counted in a `u32` -/
def failed (p : ZoneProcess s) (now : Nat) : ZoneProcess s :=
  { p with status := { p.status with
      lastRefreshAttempt := some now
      consecutiveFailures := min (p.status.consecutiveFailures + 1) (2 ^ 32 - 1) } }

def step (p : ZoneProcess s) : ZoneEvent → ZoneProcess s
  | .scheduled resp t o failedAt =>
    match p.downloadAndRefresh resp t o with
    | .ok p' => p'
    | .error _ => p.failed failedAt
  | .initial resp t o =>
    match p.downloadAndRefresh resp t o with
    | .ok p' => p'
    | .error _ => p
  | .resolve net tx name rtype tick =>
    { p with cache :=
        (DnsResolver.resolve net tx name rtype
          { delegationCache := p.cache, tick := tick }).2.delegationCache }
  | .restart t => start s p.disk t

def run (p : ZoneProcess s) (events : List ZoneEvent) : ZoneProcess s := events.foldl step p

theorem step_cases (p : ZoneProcess s) (e : ZoneEvent) :
    (∃ resp t o content data, s.refreshData resp t = .ok (content, data) ∧
      (e = .initial resp t o ∨ ∃ failedAt, e = .scheduled resp t o failedAt) ∧
      p.step e = p.install content data t o) ∨
    (∃ now, p.step e = p.failed now) ∨ p.step e = p ∨
    (∃ net tx name rtype tick, e = .resolve net tx name rtype tick ∧
      p.step e = { p with cache := (DnsResolver.resolve net tx name rtype
        { delegationCache := p.cache, tick := tick }).2.delegationCache }) ∨
    ∃ t, e = .restart t ∧ p.step e = start s p.disk t := by
  cases e with
  | scheduled resp t o failedAt =>
    unfold step downloadAndRefresh
    dsimp only
    cases hdata : s.refreshData resp t with
    | error e => exact .inr (.inl ⟨failedAt, rfl⟩)
    | ok r => exact .inl ⟨resp, t, o, r.1, r.2, hdata, .inr ⟨failedAt, rfl⟩, rfl⟩
  | initial resp t o =>
    unfold step downloadAndRefresh
    dsimp only
    cases hdata : s.refreshData resp t with
    | error e => exact .inr (.inr (.inl rfl))
    | ok r => exact .inl ⟨resp, t, o, r.1, r.2, hdata, .inl rfl, rfl⟩
  | resolve net tx name rtype tick =>
    exact .inr (.inr (.inr (.inl ⟨net, tx, name, rtype, tick, rfl, rfl⟩)))
  | restart t => exact .inr (.inr (.inr (.inr ⟨t, rfl, rfl⟩)))

end ZoneProcess

/-! ## one zone -/

theorem resolve_rootZone {net : Net} {tx : Presentation} {name : Name} {rtype : RecordType}
    {st : RecursorState} {key : ZoneKey} {entry : DelegationEntry}
    (he : (resolve net tx name rtype st).2.delegationCache key = some entry)
    (hsource : entry.source = .RootZone) : st.delegationCache key = some entry := by
  let R : RecursorState → RecursorState → Prop := fun st st' => ∀ key entry,
    st'.delegationCache key = some entry → entry.source = .RootZone →
      st.delegationCache key = some entry
  have hrule : WalkRule net R fun _ _ _ => True := by
    refine ⟨fun st key entry h _ => h, fun st₁ st₂ st₃ h₁ h₂ key entry h hs => ?_,
      fun st visited key entry h _ => h, fun name rtype st => ⟨?_, trivial⟩,
      fun name rtype w st st' o _ hcase => ⟨?_, fun _ _ => trivial⟩⟩
    · exact h₁ key entry (h₂ key entry h hs) hs
    · intro key entry h _
      unfold startWalk at h
      dsimp only at h
      split at h
      · split at h
        · exact h
        · exact h
      · exact h
    · intro key entry h hs
      cases hcase with
      | done hR => exact hR key entry h hs
      | restart _ hst =>
        rw [hst] at h
        exact purgeDelegation_le h
      | @referral response owner nsNames ips mid _ _ _ _ _ hR hst =>
        rw [hst] at h
        replace h : Function.update mid.delegationCache owner.fold
          (some (mid.referralEntry net ips response)) key = some entry := h
        by_cases hk : key = owner.fold
        · rw [hk, Function.update_self] at h
          rw [← Option.some.inj h] at hs
          cases hs
        · rw [Function.update_of_ne hk] at h
          exact hR key entry h hs
  unfold resolve resolveInternal at he
  exact resolveAt_rule hrule _ name rtype { st with visited := [] } key entry he hsource

namespace ZoneProcess
variable {s : ZoneStore}

/-- the entries of a zone are those of the last zone that was put into the cache -/
structure OneZone (p : ZoneProcess s) : Prop where
  cached : ∀ key entry, p.cache key = some entry → entry.source = .RootZone →
    ∃ z, p.loaded = some z ∧
      (z.data.delegations.get key).map (fun del => del.entry z.installedAt) = some entry
  serial : p.status.serial = p.loaded.map fun z => z.data.serial
  loadedAt : p.status.loadedAt = p.loaded.map fun z => z.data.loadedAt
  tldCount : p.status.tldCount =
    (p.loaded.map fun z => z.data.delegations.entries.length).getD 0
  missing : p.status.state = .Missing ↔ p.loaded = none

theorem classifyAge_ne_missing (ageDays maxAgeDays : Nat) :
    classifyAge ageDays maxAgeDays ≠ .Missing := by
  unfold classifyAge
  split
  · rintro ⟨⟩
  · split
    · rintro ⟨⟩
    · rintro ⟨⟩

/-- what a zone leaves in the cache -/
theorem installed_cached {data : ParsedZone s.zoneNames} {now : Nat} {cache : DelegationCache}
    {key : ZoneKey} {entry : DelegationEntry}
    (he : installToCache now (ZoneStore.zoneData data) cache key = some entry)
    (hs : entry.source = .RootZone) :
    (data.delegations.get key).map (fun del => del.entry now) = some entry := by
  obtain ⟨d, hd, -, hkey, hentry⟩ := installToCache_rootZone he hs
  have hget := KeyedMap.get_of_mem data.delegations hd
  replace hget : data.delegations.get d.1.fold = some d.2 := hget
  rw [← hkey, hget, ← hentry]
  rfl

theorem start_oneZone (s : ZoneStore) (disk : Disk) (t : StartTimes) :
    OneZone (start s disk t) := by
  unfold start RootZoneManager.start
  cases hzone : (s.on disk).initialZone t.parsed with
  | none =>
    refine ⟨fun key entry h _ => ?_, rfl, rfl, rfl, iff_of_true rfl rfl⟩
    cases h
  | some data =>
    refine ⟨fun key entry h hs => ?_, rfl, rfl, rfl, ?_⟩
    · exact ⟨_, rfl, installed_cached h hs⟩
    · exact iff_of_false (classifyAge_ne_missing _ _) (Option.some_ne_none _)

theorem step_oneZone (p : ZoneProcess s) (e : ZoneEvent) (h : OneZone p) : OneZone (p.step e) := by
  rcases step_cases p e with ⟨resp, t, o, content, data, -, -, hp⟩ | ⟨now, hp⟩ | hp |
    ⟨net, tx, name, rtype, tick, -, hp⟩ | ⟨t, -, hp⟩
  · rw [hp]
    refine ⟨fun key entry he hs => ⟨_, rfl, installed_cached he hs⟩, rfl, rfl, rfl, ?_⟩
    exact iff_of_false (by rintro ⟨⟩) (Option.some_ne_none _)
  · rw [hp]
    exact ⟨h.cached, h.serial, h.loadedAt, h.tldCount, h.missing⟩
  · rw [hp]
    exact h
  · rw [hp]
    refine ⟨fun key entry he hs => ?_, h.serial, h.loadedAt, h.tldCount, h.missing⟩
    exact h.cached key entry (resolve_rootZone he hs) hs
  · rw [hp]
    exact start_oneZone s p.disk t

/-- **One zone at a time.**  In every life of the process, with refreshes that succeed or fail
anywhere, resolutions in between and restarts, each root-zone entry in the delegation cache is that
of the last zone that was installed, counted from its installation, and the status is about that
zone. -/
theorem one_zone (s : ZoneStore) (disk : Disk) (t : StartTimes) (events : List ZoneEvent) :
    OneZone ((start s disk t).run events) := by
  unfold run
  exact List.foldlRecOn (motive := OneZone) events _ (start_oneZone s disk t)
    fun p h e _ => step_oneZone p e h

end ZoneProcess

end DnsResolver
