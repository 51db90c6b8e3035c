import DnsResolver.Recursor.ZoneFile

/-!
# The root zone at start-up (`RootZoneManager::start`)

The zone is taken from the JSON cache, or else from the text file, and goes into the delegation
cache.  Its age is looked at for the status only.

* `tryLoadJson`, `tryLoadText`, `start`   the code;
* `RefusesTooOld`          what the age is for: a zone that is too old does not get into the cache;
* `start_entry`            every delegation of the zone gets its entry, whatever the age, and the
                           entry is good from the moment of installation on;
* `start_refuses_iff`      so nothing is refused but what is not there.
-/

namespace DnsResolver

inductive RootZoneState where
  | Valid
  | StaleButUsable
  | TooOld
  | Missing
  deriving DecidableEq

structure RootZoneStatus where
  state : RootZoneState := .Missing
  serial : Option UInt32 := none
  loadedAt : Option Nat := none
  sourcePath : Option Text := none
  sourceUrl : Option Text := none
  tldCount : Nat := 0
  fileAgeDays : Option Nat := none
  lastRefreshAttempt : Option Nat := none
  lastRefreshSuccess : Option Nat := none
  consecutiveFailures : Nat := 0

structure RootZoneCacheEntry where
  name : Text
  ttl : UInt32
  servers : List Text

/-- the delegation of an entry, with the addresses that can be read -/
def RootZoneCacheEntry.delegation (entry : RootZoneCacheEntry) : RootZoneDelegation :=
  ⟨entry.servers.filterMap parseIpAddr, entry.ttl⟩

structure RootZoneCacheJson where
  serial : UInt32
  loadedAt : Nat
  sourceUrl : Text
  delegations : List RootZoneCacheEntry

structure RootZoneConfig where
  textPath : Text
  jsonPath : Text
  url : Text
  maxAgeDays : Nat

/-- the manager, and what it finds outside: files, `serde_json` and `Name::from_str` -/
structure RootZoneManager where
  config : RootZoneConfig
  readToString : Text → Except String Text
  fromJson : Text → Except String RootZoneCacheJson
  fromStr : Text → Option Name

/-- `now_secs` where start-up reads it: when a text file has been parsed, for the age, and for the
installation -/
structure StartTimes where
  parsed : Nat
  age : Nat
  install : Nat

/-- `classify_age` -/
def classifyAge (ageDays maxAgeDays : Nat) : RootZoneState :=
  if maxAgeDays < ageDays then .TooOld
  else if maxAgeDays / 2 < ageDays then .StaleButUsable
  else .Valid

namespace RootZoneManager
variable (m : RootZoneManager)

def zoneNames : ZoneNames Name ZoneKey := ⟨m.fromStr, Name.fold, Name.isRoot⟩

/-- one round of the loop of `try_load_json` -/
def insertCached (dels : KeyedMap Name.fold RootZoneDelegation) (entry : RootZoneCacheEntry) :
    KeyedMap Name.fold RootZoneDelegation :=
  match m.fromStr entry.name with
  | none => dels
  | some name =>
    if entry.delegation.servers = [] then dels
    else dels.entryOr name entry.delegation fun _ => entry.delegation

def cachedDelegations (cached : RootZoneCacheJson) : KeyedMap Name.fold RootZoneDelegation :=
  cached.delegations.foldl m.insertCached .empty

/-- `try_load_json` -/
def tryLoadJson : Except String (ParsedZone m.zoneNames) :=
  match m.readToString m.config.jsonPath with
  | .error e => .error s!"read json: {e}"
  | .ok content =>
    match m.fromJson content with
    | .error e => .error s!"parse json: {e}"
    | .ok cached =>
      if (m.cachedDelegations cached).entries.length < 100 then
        .error s!"JSON cache has only {(m.cachedDelegations cached).entries.length} delegations"
      else .ok ⟨m.cachedDelegations cached, cached.serial, cached.loadedAt, m.config.jsonPath,
        cached.sourceUrl⟩

/-- `try_load_text` -/
def tryLoadText (now : Nat) : Except String (ParsedZone m.zoneNames) :=
  match m.readToString m.config.textPath with
  | .error e => .error s!"read text: {e}"
  | .ok content => parseRootZone m.zoneNames now content m.config.url

/-- `initial` -/
def initialZone (now : Nat) : Option (ParsedZone m.zoneNames) :=
  match m.tryLoadJson with
  | .ok data => some data
  | .error _ =>
    match m.tryLoadText now with
    | .ok data => some data
    | .error _ => none

variable {m}

/-- the part of a zone that goes into the cache -/
def zoneData (data : ParsedZone m.zoneNames) : RootZoneData :=
  ⟨data.delegations.entries, data.delegations.distinct⟩

def ageDays (now : Nat) (data : ParsedZone m.zoneNames) : Nat := (now - data.loadedAt) / 86400

/-- `set_status_loaded` -/
def setStatusLoaded (status : RootZoneStatus) (data : ParsedZone m.zoneNames)
    (ageDays : Option Nat) (state : RootZoneState) : RootZoneStatus :=
  { status with
    state := state
    serial := some data.serial
    loadedAt := some data.loadedAt
    sourcePath := some data.sourcePath
    sourceUrl := some data.sourceUrl
    tldCount := data.delegations.entries.length
    fileAgeDays := ageDays }

variable (m)

/-- `start`: the delegation cache and the status when it returns.  Without a local zone a download
is spawned; it is not waited for. -/
def start (t : StartTimes) (cache : DelegationCache) : DelegationCache × RootZoneStatus :=
  match m.initialZone t.parsed with
  | some data =>
    let state := classifyAge (ageDays t.age data) m.config.maxAgeDays
    (installToCache t.install (zoneData data) cache,
      setStatusLoaded {} data (some (ageDays t.age data)) state)
  | none => (cache, {})

/-! ## what is loaded -/

variable {m}

def HasServers (dels : KeyedMap Name.fold RootZoneDelegation) : Prop :=
  ∀ k del, dels.get k = some del → del.servers ≠ []

theorem insertCached_servers {dels : KeyedMap Name.fold RootZoneDelegation} (h : HasServers dels)
    (entry : RootZoneCacheEntry) : HasServers (m.insertCached dels entry) := by
  intro k del hdel
  unfold insertCached at hdel
  split at hdel
  · exact h k del hdel
  · split at hdel
    · exact h k del hdel
    · rename_i hne
      rw [KeyedMap.get_entryOr] at hdel
      split at hdel
      · obtain rfl := Option.some.inj hdel
        exact hne
      · exact h k del hdel

theorem cachedDelegations_servers (cached : RootZoneCacheJson) :
    ∀ e ∈ (m.cachedDelegations cached).entries, e.2.servers ≠ [] := by
  have hrun : HasServers (m.cachedDelegations cached) :=
    List.foldlRecOn (motive := HasServers) cached.delegations _ (fun k del h => by cases h)
      fun _ h entry _ => insertCached_servers h entry
  intro e he
  exact hrun _ _ (KeyedMap.get_of_mem _ he)

theorem tryLoadJson_servers {data : ParsedZone m.zoneNames} (h : m.tryLoadJson = .ok data) :
    data.delegations.entries ≠ [] ∧ ∀ e ∈ data.delegations.entries, e.2.servers ≠ [] := by
  unfold tryLoadJson at h
  split at h
  · cases h
  · split at h
    · cases h
    · rename_i cached _
      split at h
      · cases h
      · rename_i hlen
        obtain rfl := Except.ok.inj h
        refine ⟨fun hnil => hlen ?_, cachedDelegations_servers cached⟩
        rw [hnil]
        decide

theorem tryLoadText_servers {now : Nat} {data : ParsedZone m.zoneNames}
    (h : m.tryLoadText now = .ok data) :
    data.delegations.entries ≠ [] ∧ ∀ e ∈ data.delegations.entries, e.2.servers ≠ [] := by
  unfold tryLoadText at h
  split at h
  · cases h
  · unfold parseRootZone parseLines at h
    split at h
    · cases h
    · rename_i hne
      obtain rfl := Except.ok.inj h
      refine ⟨hne, fun e he hs => ?_⟩
      have hkept : (!e.2.servers.isEmpty) = true := (List.mem_filter.mp he).2
      rw [hs] at hkept
      exact absurd hkept (by decide)

theorem initialZone_servers {now : Nat} {data : ParsedZone m.zoneNames}
    (h : m.initialZone now = some data) :
    data.delegations.entries ≠ [] ∧ ∀ e ∈ data.delegations.entries, e.2.servers ≠ [] := by
  unfold initialZone at h
  split at h
  · rename_i hj
    obtain rfl := Option.some.inj h
    exact tryLoadJson_servers hj
  · split at h
    · rename_i ht
      obtain rfl := Option.some.inj h
      exact tryLoadText_servers ht
    · cases h

/-! ## what start-up does with it -/

theorem classifyAge_tooOld {ageDays maxAgeDays : Nat} :
    classifyAge ageDays maxAgeDays = .TooOld ↔ maxAgeDays < ageDays := by
  unfold classifyAge
  split
  · rename_i h
    exact iff_of_true rfl h
  · rename_i h
    refine iff_of_false ?_ h
    split
    · rintro ⟨⟩
    · rintro ⟨⟩

theorem start_of_some {t : StartTimes} {cache : DelegationCache} {data : ParsedZone m.zoneNames}
    (h : m.initialZone t.parsed = some data) :
    (m.start t cache).1 = installToCache t.install (zoneData data) cache := by
  unfold start
  rw [h]

theorem start_state {t : StartTimes} {cache : DelegationCache} {data : ParsedZone m.zoneNames}
    (h : m.initialZone t.parsed = some data) :
    (m.start t cache).2.state = classifyAge (ageDays t.age data) m.config.maxAgeDays := by
  unfold start
  rw [h]
  rfl

theorem start_entry {t : StartTimes} {cache : DelegationCache} {data : ParsedZone m.zoneNames}
    (h : m.initialZone t.parsed = some data) {d : Name × RootZoneDelegation}
    (hd : d ∈ data.delegations.entries) :
    (m.start t cache).1 d.1.fold = some (d.2.entry t.install) := by
  rw [start_of_some h]
  exact installToCache_of_mem hd ((initialZone_servers h).2 d hd)

theorem start_findCachedStart {t : StartTimes} {cache : DelegationCache}
    {data : ParsedZone m.zoneNames} (h : m.initialZone t.parsed = some data)
    {d : Name × RootZoneDelegation} (hd : d ∈ data.delegations.entries) {now : Nat}
    (hlive : now < (d.2.entry t.install).expiresAt) {rtype : RecordType} (hds : rtype ≠ .DS) :
    findCachedStart (m.start t cache).1 now d.1 rtype = some (d.1, d.2.entry t.install) := by
  obtain ⟨above, hab⟩ : ∃ above, d.1.ancestors = d.1 :: above := by
    unfold Name.ancestors
    cases d.1.labels.length with
    | zero => exact ⟨[], rfl⟩
    | succ k => exact ⟨_, rfl⟩
  unfold findCachedStart delegationSearch
  rw [if_neg hds, hab, List.findSome?_cons, start_entry h hd]
  simp only [hlive, if_true]

end RootZoneManager

/-- nothing of a zone is in the cache, so that without a learned entry at the name or above it
resolution begins at the root servers -/
structure WithoutZone (cache : DelegationCache) : Prop where
  noEntry : ∀ key entry, cache key = some entry → entry.source ≠ .RootZone
  noStart : ∀ now name rtype, (∀ zone ∈ name.ancestors, ¬ Learned cache zone.fold) →
    findCachedStart cache now name rtype = none
  rootServers : ∀ (net : Net) (st : RecursorState) name rtype, st.delegationCache = cache →
    (∀ zone ∈ name.ancestors, ¬ Learned cache zone.fold) →
    (startWalk net name rtype st).1 = rootWalk

/-- a local zone that is too old is not used -/
def RootZoneManager.RefusesTooOld (m : RootZoneManager) (t : StartTimes) (cache : DelegationCache) :
    Prop :=
  ∀ data, m.initialZone t.parsed = some data →
    classifyAge (RootZoneManager.ageDays t.age data) m.config.maxAgeDays = .TooOld →
    WithoutZone (m.start t cache).1

theorem RootZoneManager.not_withoutZone {m : RootZoneManager} {t : StartTimes}
    {cache : DelegationCache} {data : ParsedZone m.zoneNames}
    (h : m.initialZone t.parsed = some data) : ¬ WithoutZone (m.start t cache).1 := by
  intro hwithout
  obtain ⟨d, hd⟩ := List.exists_mem_of_ne_nil _ (initialZone_servers h).1
  exact hwithout.noEntry _ _ (start_entry h hd) rfl

/-- **The age of a local zone keeps nothing out.**  A zone that is too old is refused exactly if
there is none: whatever is loaded has delegations, each has its entry after start-up, and until the
entry expires, counted from the installation, resolution of its name begins there. -/
theorem start_refuses_iff (m : RootZoneManager) (t : StartTimes) (cache : DelegationCache) :
    (m.RefusesTooOld t cache ↔ ∀ data, m.initialZone t.parsed = some data →
      RootZoneManager.ageDays t.age data ≤ m.config.maxAgeDays) ∧
    ∀ data, m.initialZone t.parsed = some data → data.delegations.entries ≠ [] ∧
      ∀ d ∈ data.delegations.entries,
        (m.start t cache).1 d.1.fold = some (d.2.entry t.install) ∧
        ∀ now rtype, now < (d.2.entry t.install).expiresAt → rtype ≠ .DS →
          findCachedStart (m.start t cache).1 now d.1 rtype = some (d.1, d.2.entry t.install) := by
  refine ⟨⟨fun hr data h => ?_, fun hage data h hold => ?_⟩,
    fun data h => ⟨?_, fun d hd => ⟨?_, ?_⟩⟩⟩
  · by_contra hold
    have htooOld := RootZoneManager.classifyAge_tooOld.mpr (Nat.not_le.mp hold)
    exact RootZoneManager.not_withoutZone h (hr data h htooOld)
  · exact absurd (RootZoneManager.classifyAge_tooOld.mp hold) (Nat.not_lt.mpr (hage data h))
  · exact (RootZoneManager.initialZone_servers h).1
  · exact RootZoneManager.start_entry h hd
  · exact fun now rtype hlive hds => RootZoneManager.start_findCachedStart h hd hlive hds

/-! ## a JSON cache of forty days -/

/-- a label of ASCII letters and the final dot -/
def tldFromStr (s : Text) : Option Name :=
  Name.fromLabels [s.dropLast.map fun c => UInt8.ofNat c.toNat]

/-- a hundred delegations, `aa.` to `jj.` -/
def storedZone : RootZoneCacheJson where
  serial := 2023111500
  loadedAt := 1700000000
  sourceUrl := "https://www.internic.net/domain/root.zone".toList
  delegations := (List.range 100).map fun i =>
    ⟨[Char.ofNat (97 + i / 10), Char.ofNat (97 + i % 10), '.'], 172800, ["192.5.6.30".toList]⟩

def quoted (s : Text) : Text := ['"'] ++ s ++ ['"']

/-- `serde_json::to_string` of an entry -/
def RootZoneCacheEntry.toJson (entry : RootZoneCacheEntry) : Text :=
  "\x7b\"name\":".toList ++ quoted entry.name ++ ",\"ttl\":".toList ++
    (toString entry.ttl).toList ++ ",\"servers\":[".toList ++
    [','].intercalate (entry.servers.map quoted) ++ "]\x7d".toList

/-- `serde_json::to_string` of a stored zone -/
def RootZoneCacheJson.toJson (cached : RootZoneCacheJson) : Text :=
  "\x7b\"serial\":".toList ++ (toString cached.serial).toList ++ ",\"loaded_at\":".toList ++
    (toString cached.loadedAt).toList ++ ",\"source_url\":".toList ++ quoted cached.sourceUrl ++
    ",\"delegations\":[".toList ++
    [','].intercalate (cached.delegations.map RootZoneCacheEntry.toJson) ++ "]\x7d".toList

/-- `cached` is in the file `path` as the text `json`, and there is no other file -/
def managerOf (path json : Text) (cached : RootZoneCacheJson) : RootZoneManager where
  config := ⟨"root.zone".toList, path, cached.sourceUrl, 30⟩
  readToString := fun p => if p = path then .ok json else .error "No such file or directory"
  fromJson := fun s => if s = json then .ok cached else .error "expected value"
  fromStr := tldFromStr

theorem managerOf_initialZone (path json : Text) (cached : RootZoneCacheJson) (now : Nat)
    (hlen : ¬ ((managerOf path json cached).cachedDelegations cached).entries.length < 100) :
    ∃ data, (managerOf path json cached).initialZone now = some data ∧
      data.loadedAt = cached.loadedAt := by
  have hread : (managerOf path json cached).readToString
      (managerOf path json cached).config.jsonPath = .ok json := if_pos rfl
  have hfrom : (managerOf path json cached).fromJson json = .ok cached := if_pos rfl
  unfold RootZoneManager.initialZone RootZoneManager.tryLoadJson
  rw [hread]
  simp only [hfrom]
  rw [if_neg hlen]
  exact ⟨_, rfl, rfl⟩

def storedManager : RootZoneManager :=
  managerOf "root.json".toList storedZone.toJson storedZone

def fortyDays : StartTimes := ⟨1703456000, 1703456000, 1703456000⟩

/-- the status says that the zone is too old, and resolution begins with it -/
theorem storedZone_used :
    (storedManager.start fortyDays fun _ => none).2.state = .TooOld ∧
      ¬ storedManager.RefusesTooOld fortyDays fun _ => none := by
  obtain ⟨data, hdata, hloaded⟩ := managerOf_initialZone "root.json".toList storedZone.toJson
    storedZone fortyDays.parsed (by decide +kernel)
  have hage : classifyAge (RootZoneManager.ageDays fortyDays.age data) 30 = .TooOld := by
    unfold RootZoneManager.ageDays
    rw [hloaded]
    decide
  unfold storedManager
  constructor
  · rw [RootZoneManager.start_state hdata]
    exact hage
  · intro hr
    exact RootZoneManager.not_withoutZone hdata (hr data hdata hage)

end DnsResolver
