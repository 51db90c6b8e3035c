import DnsResolver.Recursor.ZoneRefresh

/-!
# The stored root zone (`save_json`, `try_load_json`)

A zone is written beside the JSON cache and then renamed into its place, so that a write that fails
half way does not touch what is there.

* `namesRead_parsed`            the names of a parsed zone were read by `Name::from_str`;
* `cachedDelegations_saved`    what is stored is read back;
* `lastStored`, `run_jsonPath` the file is that of the last zone that was stored, through failures
                               and restarts;
* `restart_restores`           and a restart brings this zone back.
-/

namespace DnsResolver

/-! ## the names of a parsed zone -/

section
variable {ν κ : Type} [DecidableEq κ] {zn : ZoneNames ν κ} {β : Type}

/-- `Name::from_str` has read every name of the map -/
def NamesRead (m : KeyedMap zn.key β) : Prop := ∀ e ∈ m.entries, ∃ text, zn.fromStr text = some e.1

theorem NamesRead.entryOr {m : KeyedMap zn.key β} (h : NamesRead m) {text : Text} {n : ν}
    (hn : zn.fromStr text = some n) (v : β) (f : β → β) : NamesRead (m.entryOr n v f) := by
  intro e he
  rcases KeyedMap.fst_of_mem_put he with ⟨e', he', hk⟩ | hk
  · rw [← hk]
    exact h e' he'
  · rw [hk]
    exact ⟨text, hn⟩

theorem NamesRead.modify {m : KeyedMap zn.key β} (h : NamesRead m) (k : κ) (f : β → β) :
    NamesRead (m.modify k f) := by
  intro e he
  have hfst : e.1 ∈ (m.modify k f).entries.map Prod.fst := List.mem_map_of_mem he
  have hsame : (m.modify k f).entries.map Prod.fst = m.entries.map Prod.fst :=
    KeyedMap.map_fst_change k f m.entries
  have hold : e.1 ∈ m.entries.map Prod.fst := hsame ▸ hfst
  obtain ⟨e', he', hk⟩ := List.mem_map.mp hold
  rw [← hk]
  exact h e' he'

omit [DecidableEq κ] in
theorem NamesRead.retain {m : KeyedMap zn.key β} (h : NamesRead m) (p : β → Bool) :
    NamesRead (m.retain p) := by
  intro e he
  exact h e (List.mem_of_mem_filter he)

theorem namesRead_ns {p : FirstPass zn} (h : NamesRead p.delegations) {text : Text} {owner : ν}
    (hown : zn.fromStr text = some owner) (ttl : UInt32) (rdata : List Text) :
    NamesRead (p.ns owner ttl rdata).delegations := by
  unfold FirstPass.ns
  split
  · exact h
  · split
    · exact h
    · split
      · exact h
      · exact h.entryOr hown _ _

theorem namesRead_line {p : FirstPass zn} (h : NamesRead p.delegations) (line : Text) :
    NamesRead (p.line line).delegations := by
  unfold FirstPass.line
  split
  · split
    · exact h
    · rename_i hown
      split_ifs
      · rw [(soa_maps p _).1]
        exact h
      · exact namesRead_ns h hown _ _
      · rw [address_delegations]
        exact h
      · exact h
  · exact h

theorem namesRead_first (lines : List Text) : NamesRead (firstPass zn lines).delegations :=
  List.foldlRecOn (motive := fun p : FirstPass zn => NamesRead p.delegations) lines _
    (fun _ he => absurd he List.not_mem_nil) fun _ h line _ => namesRead_line h line

theorem namesRead_parsed (lines : List Text) : NamesRead (parsedDelegations zn lines) := by
  unfold parsedDelegations joinServers
  refine NamesRead.retain ?_ _
  exact List.foldlRecOn (motive := fun m : KeyedMap zn.key RootZoneDelegation => NamesRead m) _ _
    (namesRead_first lines) fun _ h _ _ => h.modify _ _

end

/-! ## what is stored is read back -/

namespace ZoneStore
variable {s : ZoneStore}

/-- `Name::from_str` reads what `Name::to_string` writes of a name it has read -/
def NamesReadBack (s : ZoneStore) : Prop :=
  ∀ text n, s.fromStr text = some n → ∃ n', s.fromStr (s.nameText n) = some n' ∧ n'.fold = n.fold

/-- the name that is read for a stored name -/
def reread (s : ZoneStore) (n : Name) : Name := (s.fromStr (s.nameText n)).getD n

/-- an entry that is not skipped when it is read back -/
structure Loadable (s : ZoneStore) (e : Name × RootZoneDelegation) : Prop where
  name : s.fromStr (s.nameText e.1) = some (s.reread e.1)
  key : (s.reread e.1).fold = e.1.fold
  servers : e.2.servers ≠ []

theorem cacheEntry_delegation (e : Name × RootZoneDelegation) :
    (s.cacheEntry e).delegation = e.2 := by
  obtain ⟨n, servers, ttl⟩ := e
  show RootZoneDelegation.mk ((servers.map IpAddr.display).filterMap parseIpAddr) ttl =
    ⟨servers, ttl⟩
  have hall : ∀ ips : List IpAddr, (ips.map IpAddr.display).filterMap parseIpAddr = ips := by
    intro ips
    induction ips with
    | nil => rfl
    | cons ip ips ih => rw [List.map_cons, List.filterMap_cons_some (parseIpAddr_display ip), ih]
  rw [hall]

theorem insertCached_saved {e : Name × RootZoneDelegation} (h : s.Loadable e) (disk : Disk)
    {m : KeyedMap Name.fold RootZoneDelegation}
    (hnew : ∀ e' ∈ m.entries, e'.1.fold ≠ (s.reread e.1).fold) :
    ((s.on disk).insertCached m (s.cacheEntry e)).entries =
      m.entries ++ [(s.reread e.1, e.2)] := by
  unfold RootZoneManager.insertCached
  have hname : (s.on disk).fromStr (s.cacheEntry e).name = some (s.reread e.1) := h.name
  rw [hname]
  dsimp only
  rw [cacheEntry_delegation, if_neg h.servers]
  exact KeyedMap.put_of_absent _ _ _ hnew

theorem foldl_insertCached_saved (disk : Disk) {es : List (Name × RootZoneDelegation)}
    (h : ∀ e ∈ es, s.Loadable e) (m : KeyedMap Name.fold RootZoneDelegation)
    (hd : es.Pairwise fun a b => a.1.fold ≠ b.1.fold)
    (hm : ∀ e ∈ es, ∀ e' ∈ m.entries, e'.1.fold ≠ e.1.fold) :
    ((es.map s.cacheEntry).foldl (s.on disk).insertCached m).entries =
      m.entries ++ es.map fun e => (s.reread e.1, e.2) := by
  induction es generalizing m with
  | nil => exact (List.append_nil _).symm
  | cons e es ih =>
    obtain ⟨hhead, htail⟩ := List.pairwise_cons.mp hd
    have he := h e List.mem_cons_self
    have hfirst : ((s.on disk).insertCached m (s.cacheEntry e)).entries =
        m.entries ++ [(s.reread e.1, e.2)] := by
      refine insertCached_saved he disk fun e' he' => ?_
      rw [he.key]
      exact hm e List.mem_cons_self e' he'
    rw [List.map_cons, List.foldl_cons,
      ih (fun e' he' => h e' (List.mem_cons_of_mem e he')) _ htail, hfirst, List.map_cons,
      List.append_assoc]
    · rfl
    · intro a ha e' he'
      rw [hfirst] at he'
      rcases List.mem_append.mp he' with he' | he'
      · exact hm a (List.mem_cons_of_mem e ha) e' he'
      · rw [List.mem_singleton.mp he']
        show (s.reread e.1).fold ≠ a.1.fold
        rw [he.key]
        exact hhead a ha

/-- what is stored of a zone is read back, under names that are equal -/
theorem cachedDelegations_saved (disk : Disk) {data : ParsedZone s.zoneNames}
    (h : ∀ e ∈ data.delegations.entries, s.Loadable e) :
    ((s.on disk).cachedDelegations (s.cacheJson data)).entries =
      data.delegations.entries.map fun e => (s.reread e.1, e.2) := by
  exact foldl_insertCached_saved disk h .empty data.delegations.distinct
    fun _ _ e' he' => absurd he' List.not_mem_nil

theorem get_cachedDelegations_saved (disk : Disk) {data : ParsedZone s.zoneNames}
    (h : ∀ e ∈ data.delegations.entries, s.Loadable e) (key : ZoneKey) :
    ((s.on disk).cachedDelegations (s.cacheJson data)).get key = data.delegations.get key := by
  show KeyedMap.find Name.fold key ((s.on disk).cachedDelegations (s.cacheJson data)).entries = _
  rw [cachedDelegations_saved disk h]
  exact KeyedMap.find_map_fst (fun e he => (h e he).key) key

/-! ## a zone that was downloaded -/

theorem refreshData_ok {resp : Except String Text} {t : RefreshTimes} {content : Text}
    {data : ParsedZone s.zoneNames} (h : s.refreshData resp t = .ok (content, data)) :
    parseRootZone s.zoneNames t.parsed content s.config.url = .ok data ∧
      ¬ data.delegations.entries.length < 100 := by
  unfold refreshData at h
  cases hdown : download resp with
  | error e =>
    rw [hdown] at h
    cases h
  | ok text =>
    rw [hdown] at h
    dsimp only at h
    cases hparse : parseRootZone s.zoneNames t.parsed text s.config.url with
    | error e =>
      rw [hparse] at h
      cases h
    | ok zone =>
      rw [hparse] at h
      dsimp only at h
      split at h
      · cases h
      · rename_i hlen
        obtain ⟨rfl, rfl⟩ := Prod.mk.inj (Except.ok.inj h)
        exact ⟨hparse, hlen⟩

theorem refreshData_of_parsed {t : RefreshTimes} {content : Text} {data : ParsedZone s.zoneNames}
    (hsize : ¬ StrSlice.size content < 100000)
    (hparse : parseRootZone s.zoneNames t.parsed content s.config.url = .ok data)
    (hlen : ¬ data.delegations.entries.length < 100) :
    s.refreshData (.ok content) t = .ok (content, data) := by
  have hdown : download (.ok content) = .ok content := if_neg hsize
  unfold refreshData
  rw [hdown]
  dsimp only
  rw [hparse]
  dsimp only
  rw [if_neg hlen]

theorem parsed_loadable (hnames : s.NamesReadBack) {now : Nat} {content url : Text}
    {data : ParsedZone s.zoneNames} (h : parseRootZone s.zoneNames now content url = .ok data) :
    ∀ e ∈ data.delegations.entries, s.Loadable e := by
  intro e he
  unfold parseRootZone at h
  have hdels := parseLines_eq_ok h
  rw [hdels] at he
  obtain ⟨text, htext⟩ : ∃ text, s.fromStr text = some e.1 :=
    namesRead_parsed (logicalLines content) e he
  obtain ⟨n', hread, hkey⟩ := hnames text e.1 htext
  have hre : s.reread e.1 = n' := by
    unfold reread
    rw [hread]
    rfl
  refine ⟨hre ▸ hread, hre ▸ hkey, fun hnil => ?_⟩
  have hkept : (!e.2.servers.isEmpty) = true := (List.mem_filter.mp he).2
  rw [hnil] at hkept
  exact absurd hkept (by decide)

end ZoneStore

/-! ## the file -/

/-- the new file is in its place -/
def SaveOutcome.saved (o : SaveOutcome) : Bool :=
  match o.tmp with
  | .ok => o.renamed
  | .failed _ => false

theorem Disk.write_of_ne {disk : Disk} {path path' content : Text} {w : WriteResult}
    (h : path' ≠ path) : disk.write path content w path' = disk path' := by
  cases w with
  | ok => exact Function.update_of_ne h _ _
  | failed left => exact Function.update_of_ne h _ _

/-- the JSON file after `save_json` -/
theorem ZoneStore.saveJson_jsonPath {s : ZoneStore} (htmp : s.tmpPath ≠ s.config.jsonPath)
    (data : ParsedZone s.zoneNames) (o : SaveOutcome) (disk : Disk) :
    s.saveJson data o disk s.config.jsonPath =
      if o.saved then some (s.toJson (s.cacheJson data)) else disk s.config.jsonPath := by
  unfold ZoneStore.saveJson SaveOutcome.saved
  cases o.tmp with
  | failed left =>
    rw [if_neg Bool.false_ne_true]
    exact Disk.write_of_ne htmp.symm
  | ok =>
    dsimp only
    cases o.renamed with
    | true =>
      rw [if_pos rfl, if_pos rfl]
      unfold Disk.rename
      rw [Function.update_self]
      exact Function.update_self ..
    | false =>
      rw [if_neg Bool.false_ne_true, if_neg Bool.false_ne_true]
      exact Disk.write_of_ne htmp.symm

def ZoneEvent.stores (s : ZoneStore) : ZoneEvent → Option (ParsedZone s.zoneNames)
  | .scheduled resp t o _ | .initial resp t o =>
    if o.saved then (s.refreshData resp t).toOption.map Prod.snd else none
  | .resolve .. | .restart _ => none

def lastStored (s : ZoneStore) : List ZoneEvent → Option (ParsedZone s.zoneNames)
  | [] => none
  | e :: events => (lastStored s events).or (e.stores s)

namespace ZoneProcess
variable {s : ZoneStore}

theorem install_jsonPath (htmp : s.tmpPath ≠ s.config.jsonPath)
    (htext : s.config.textPath ≠ s.config.jsonPath) (p : ZoneProcess s) (content : Text)
    (data : ParsedZone s.zoneNames) (t : RefreshTimes) (o : SaveOutcome) :
    (p.install content data t o).disk s.config.jsonPath =
      if o.saved then some (s.toJson (s.cacheJson data)) else p.disk s.config.jsonPath := by
  unfold install
  dsimp only
  rw [ZoneStore.saveJson_jsonPath htmp, Disk.write_of_ne htext.symm]

theorem downloadAndRefresh_jsonPath (htmp : s.tmpPath ≠ s.config.jsonPath)
    (htext : s.config.textPath ≠ s.config.jsonPath) {p q : ZoneProcess s}
    {resp : Except String Text} {t : RefreshTimes} {o : SaveOutcome}
    (h : p.downloadAndRefresh resp t o = .ok q) :
    q.disk s.config.jsonPath =
      ((if o.saved then (s.refreshData resp t).toOption.map Prod.snd else none).map
        fun data => s.toJson (s.cacheJson data)).or (p.disk s.config.jsonPath) := by
  unfold downloadAndRefresh at h
  cases hd : s.refreshData resp t with
  | error e =>
    rw [hd] at h
    cases h
  | ok r =>
    rw [hd] at h
    obtain rfl := Except.ok.inj h
    rw [install_jsonPath htmp htext]
    cases o.saved with
    | true => rfl
    | false => rfl

theorem downloadAndRefresh_error {p : ZoneProcess s} {resp : Except String Text}
    {t : RefreshTimes} {o : SaveOutcome} {e : String}
    (h : p.downloadAndRefresh resp t o = .error e) :
    p.disk s.config.jsonPath =
      ((if o.saved then (s.refreshData resp t).toOption.map Prod.snd else none).map
        fun data => s.toJson (s.cacheJson data)).or (p.disk s.config.jsonPath) := by
  unfold downloadAndRefresh at h
  cases hd : s.refreshData resp t with
  | error e' =>
    cases o.saved with
    | true => rfl
    | false => rfl
  | ok r =>
    rw [hd] at h
    cases h

theorem step_jsonPath (htmp : s.tmpPath ≠ s.config.jsonPath)
    (htext : s.config.textPath ≠ s.config.jsonPath) (p : ZoneProcess s) (e : ZoneEvent) :
    (p.step e).disk s.config.jsonPath =
      ((e.stores s).map fun data => s.toJson (s.cacheJson data)).or
        (p.disk s.config.jsonPath) := by
  cases e with
  | scheduled resp t o failedAt =>
    unfold step
    dsimp only
    split
    · rename_i hd
      exact downloadAndRefresh_jsonPath htmp htext hd
    · rename_i hd
      have hkept := downloadAndRefresh_error hd
      exact hkept
  | initial resp t o =>
    unfold step
    dsimp only
    split
    · rename_i hd
      exact downloadAndRefresh_jsonPath htmp htext hd
    · rename_i hd
      have hkept := downloadAndRefresh_error hd
      exact hkept
  | resolve net tx name rtype tick => rfl
  | restart t => rfl

theorem run_jsonPath (htmp : s.tmpPath ≠ s.config.jsonPath)
    (htext : s.config.textPath ≠ s.config.jsonPath) (events : List ZoneEvent) (p : ZoneProcess s) :
    (p.run events).disk s.config.jsonPath =
      ((lastStored s events).map fun data => s.toJson (s.cacheJson data)).or
        (p.disk s.config.jsonPath) := by
  induction events generalizing p with
  | nil => rfl
  | cons e events ih =>
    show ((p.step e).run events).disk s.config.jsonPath = _
    rw [ih, step_jsonPath htmp htext, lastStored, Option.map_or, Option.or_assoc]

end ZoneProcess

theorem lastStored_downloaded {s : ZoneStore} {events : List ZoneEvent}
    {data : ParsedZone s.zoneNames} (h : lastStored s events = some data) :
    ∃ resp t content, s.refreshData resp t = .ok (content, data) := by
  induction events with
  | nil => cases h
  | cons e events ih =>
    rw [lastStored] at h
    rcases Option.or_eq_some_iff.mp h with h | ⟨-, h⟩
    · exact ih h
    · have hdata : ∀ (o : SaveOutcome) resp t,
          (if o.saved then (s.refreshData resp t).toOption.map Prod.snd else none) = some data →
          ∃ content, s.refreshData resp t = .ok (content, data) := by
        intro o resp t h
        split at h
        · obtain ⟨r, hr, rfl⟩ := Option.map_eq_some_iff.mp h
          cases hd : s.refreshData resp t with
          | error e =>
            rw [hd] at hr
            cases hr
          | ok r' =>
            rw [hd] at hr
            obtain rfl := Option.some.inj hr
            exact ⟨r'.1, rfl⟩
        · cases h
      cases e with
      | scheduled resp t o failedAt => exact ⟨resp, t, hdata o resp t h⟩
      | initial resp t o => exact ⟨resp, t, hdata o resp t h⟩
      | resolve net tx name rtype tick => cases h
      | restart t => cases h

/-! ## a restart -/

/-- the process has begun with the zone `data` -/
structure BegunWith {s : ZoneStore} (p : ZoneProcess s) (data : ParsedZone s.zoneNames)
    (now : Nat) : Prop where
  serial : p.status.serial = some data.serial
  loadedAt : p.status.loadedAt = some data.loadedAt
  sourceUrl : p.status.sourceUrl = some data.sourceUrl
  tldCount : p.status.tldCount = data.delegations.entries.length
  cache : ∀ key, p.cache key = (data.delegations.get key).map fun del => del.entry now

theorem installToCache_fresh {s : ZoneStore} {data : ParsedZone s.zoneNames} (now : Nat)
    (h : ∀ e ∈ data.delegations.entries, e.2.servers ≠ []) (key : ZoneKey) :
    installToCache now (ZoneStore.zoneData data) (fun _ => none) key =
      (data.delegations.get key).map fun del => del.entry now := by
  cases hget : data.delegations.get key with
  | none =>
    refine installToCache_of_ne fun d hd _ hk => ?_
    have hd' : data.delegations.get d.1.fold = some d.2 := KeyedMap.get_of_mem _ hd
    rw [hk, hget] at hd'
    cases hd'
  | some del =>
    obtain ⟨d, hd, rfl, rfl⟩ := KeyedMap.mem_of_get hget
    have hmem : d ∈ (ZoneStore.zoneData data).delegations := hd
    exact installToCache_of_mem hmem (h d hd)

theorem start_begunWith {s : ZoneStore} (hnames : s.NamesReadBack) {disk : Disk}
    {data : ParsedZone s.zoneNames} {resp : Except String Text} {tr : RefreshTimes} {content : Text}
    (hdown : s.refreshData resp tr = .ok (content, data))
    (hjson : s.fromJson (s.toJson (s.cacheJson data)) = .ok (s.cacheJson data))
    (hdisk : disk s.config.jsonPath = some (s.toJson (s.cacheJson data))) (t : StartTimes) :
    BegunWith (ZoneProcess.start s disk t) data t.install := by
  obtain ⟨hparse, hlen⟩ := ZoneStore.refreshData_ok hdown
  have hload := ZoneStore.parsed_loadable hnames hparse
  have hentries := ZoneStore.cachedDelegations_saved disk hload
  have hcount : ((s.on disk).cachedDelegations (s.cacheJson data)).entries.length =
      data.delegations.entries.length := by
    rw [hentries, List.length_map]
  have hread : (s.on disk).tryLoadJson = .ok ⟨(s.on disk).cachedDelegations (s.cacheJson data),
      data.serial, data.loadedAt, s.config.jsonPath, data.sourceUrl⟩ := by
    unfold RootZoneManager.tryLoadJson
    have hfile : (s.on disk).readToString (s.on disk).config.jsonPath =
        .ok (s.toJson (s.cacheJson data)) := by
      show (s.on disk).readToString s.config.jsonPath = _
      unfold ZoneStore.on
      dsimp only
      rw [hdisk]
    have hfrom : (s.on disk).fromJson (s.toJson (s.cacheJson data)) = .ok (s.cacheJson data) :=
      hjson
    rw [hfile]
    dsimp only
    rw [hfrom]
    dsimp only
    rw [if_neg (hcount ▸ hlen)]
    rfl
  have hzone : (s.on disk).initialZone t.parsed =
      some ⟨(s.on disk).cachedDelegations (s.cacheJson data), data.serial, data.loadedAt,
        s.config.jsonPath, data.sourceUrl⟩ := by
    unfold RootZoneManager.initialZone
    rw [hread]
  unfold ZoneProcess.start RootZoneManager.start
  rw [hzone]
  refine ⟨rfl, rfl, rfl, hcount, fun key => ?_⟩
  rw [← ZoneStore.get_cachedDelegations_saved disk hload key]
  refine installToCache_fresh t.install (fun e he => ?_) key
  have hmem : e ∈ data.delegations.entries.map fun e => (s.reread e.1, e.2) := hentries ▸ he
  obtain ⟨e', he', rfl⟩ := List.mem_map.mp hmem
  exact (hload e' he').servers

/-- **A restart brings back the last zone that was stored.**  Downloads and writes may fail
anywhere, a write may leave anything behind, and the process may have been restarted before: with
the files of the manager apart, a restart begins with the last zone whose JSON was put into its
place, under every name, and the JSON file of the first start is kept until then. -/
theorem restart_restores (s : ZoneStore) (htmp : s.tmpPath ≠ s.config.jsonPath)
    (htext : s.config.textPath ≠ s.config.jsonPath) (hnames : s.NamesReadBack) (disk : Disk)
    (t : StartTimes) (events : List ZoneEvent)
    (hjson : ∀ data, lastStored s events = some data →
      s.fromJson (s.toJson (s.cacheJson data)) = .ok (s.cacheJson data)) (t' : StartTimes) :
    (∀ data, lastStored s events = some data →
      BegunWith ((ZoneProcess.start s disk t).run (events ++ [.restart t'])) data t'.install) ∧
    (lastStored s events = none →
      ((ZoneProcess.start s disk t).run (events ++ [.restart t'])).disk s.config.jsonPath =
        disk s.config.jsonPath) := by
  have hfile := ZoneProcess.run_jsonPath htmp htext events (ZoneProcess.start s disk t)
  have hrun : (ZoneProcess.start s disk t).run (events ++ [.restart t']) =
      ZoneProcess.start s ((ZoneProcess.start s disk t).run events).disk t' := by
    unfold ZoneProcess.run
    rw [List.foldl_append]
    rfl
  rw [hrun]
  constructor
  · intro data hlast
    obtain ⟨resp, tr, content, hdown⟩ := lastStored_downloaded hlast
    rw [hlast] at hfile
    exact start_begunWith hnames hdown (hjson data hlast) hfile t'
  · intro hlast
    rw [hlast] at hfile
    exact hfile

/-! ## a zone of a hundred delegations -/

/-- a label of ASCII letters and the final dot, or the root -/
def zoneFromStr (text : Text) : Option Name := if text = ['.'] then some .root else tldFromStr text

def zoneNameText (n : Name) : Text :=
  match n.labels with
  | [] => ['.']
  | l :: _ => l.map (fun b => Char.ofNat b.toNat) ++ ['.']

theorem byteOfChar (b : UInt8) : UInt8.ofNat (Char.ofNat b.toNat).toNat = b := by
  have hall : ∀ n : Fin 256, (Char.ofNat n.val).toNat = n.val := by decide +kernel
  have hchar : (Char.ofNat b.toNat).toNat = b.toNat := hall ⟨b.toNat, b.toNat_lt⟩
  rw [hchar, UInt8.ofNat_toNat]

theorem map_byteOfChar (l : Label) :
    ((l.map fun b => Char.ofNat b.toNat).map fun c => UInt8.ofNat c.toNat) = l := by
  rw [List.map_map]
  exact (List.map_congr_left fun b _ => byteOfChar b).trans (List.map_id l)

theorem tldFromStr_zoneNameText {text : Text} {n : Name} (h : tldFromStr text = some n) :
    zoneFromStr (zoneNameText n) = some n := by
  unfold tldFromStr Name.fromLabels at h
  split at h
  · rename_i hvalid
    obtain rfl := Option.some.inj h
    have hlabel := (hvalid.1 _ (List.mem_singleton_self _)).1
    set l : Label := text.dropLast.map fun c => UInt8.ofNat c.toNat
    show zoneFromStr (l.map (fun b => Char.ofNat b.toNat) ++ ['.']) = _
    have hroot : l.map (fun b => Char.ofNat b.toNat) ++ ['.'] ≠ ['.'] := by
      intro he
      have hlen := congrArg List.length he
      rw [List.length_append, List.length_map, List.length_singleton] at hlen
      omega
    unfold zoneFromStr tldFromStr Name.fromLabels
    rw [if_neg hroot, List.dropLast_concat, map_byteOfChar, dif_pos hvalid]
  · cases h

/-- the zone as it is published: a comment, the SOA record, a hundred delegations to one server -/
def zoneBody : Text :=
  (". 86400 IN SOA a.root-servers.net. nstld.verisign-grs.com. " ++
    "2023111500 1800 900 604800 86400\n").toList ++ (List.range 100).flatMap (fun i =>
      [Char.ofNat (97 + i / 10), Char.ofNat (97 + i % 10)] ++ ". 172800 IN NS ns.\n".toList) ++
    "ns. 172800 IN A 192.5.6.30\n".toList

def zoneComment : Text := ';' :: List.replicate 100000 ' '

def publishedZone : Text := zoneComment ++ '\n' :: zoneBody

theorem logicalLines_comment {comment content : Text} (h : '\n' ∉ comment) :
    logicalLines ((';' :: comment) ++ '\n' :: content) = logicalLines content := by
  have hpieces : ((';' :: comment) ++ '\n' :: content).splitOn '\n' =
      (';' :: comment) :: content.splitOn '\n' := by
    rw [List.splitOn_eq_splitOnP, List.splitOn_eq_splitOnP]
    refine List.splitOnP_append_cons_of_forall_mem (fun c hc => ?_) '\n' rfl content
    rcases List.mem_cons.mp hc with rfl | hc
    · rfl
    · exact beq_eq_false_iff_ne.mpr fun he => h (he ▸ hc)
  obtain ⟨piece, pieces, hcons⟩ := List.exists_cons_of_ne_nil (List.splitOn_ne_nil '\n' content)
  obtain ⟨rest, hlines⟩ : ∃ rest, lines ((';' :: comment) ++ '\n' :: content) =
      (';' :: rest) :: lines content := by
    unfold lines
    dsimp only
    rw [hpieces, hcons, List.dropLast_cons_cons, List.getLast?_cons_cons, List.map_cons]
    split
    · rename_i hlast
      cases comment with
      | nil => cases hlast
      | cons c comment => exact ⟨_, rfl⟩
    · exact ⟨_, rfl⟩
  unfold logicalLines
  rw [hlines, List.foldl_cons]
  rfl

theorem logicalLines_publishedZone : logicalLines publishedZone = logicalLines zoneBody := by
  refine logicalLines_comment fun h => ?_
  have hspace := List.eq_of_mem_replicate h
  revert hspace
  decide

deriving instance DecidableEq for RootZoneCacheEntry

/-- `serde_json::from_str`, on the text of `storedZone` -/
def storedFromJson (text : Text) : Except String RootZoneCacheJson :=
  if text = storedZone.toJson then .ok storedZone else .error "expected value"

theorem storedFromJson_toJson : storedFromJson storedZone.toJson = .ok storedZone := by
  unfold storedFromJson
  rw [if_pos rfl]

def internic : ZoneStore where
  config := ⟨"root.zone".toList, "root.json".toList, storedZone.sourceUrl, 30⟩
  tmpPath := "root.tmp".toList
  fromJson := storedFromJson
  toJson := RootZoneCacheJson.toJson
  fromStr := zoneFromStr
  nameText := zoneNameText

theorem internic_parsed : (parsedDelegations internic.zoneNames (logicalLines zoneBody)).entries.map
    internic.cacheEntry = storedZone.delegations := by
  decide +kernel

theorem internic_serial :
    (firstPass internic.zoneNames (logicalLines zoneBody)).serial = storedZone.serial := by
  decide +kernel

def published : RefreshTimes := ⟨1700000000, 1700000001, 1700000002, 1700000002⟩

def publishedData : ParsedZone internic.zoneNames :=
  ⟨parsedDelegations internic.zoneNames (logicalLines zoneBody),
    (firstPass internic.zoneNames (logicalLines zoneBody)).serial, published.parsed, [],
    internic.config.url⟩

theorem publishedData_stored : internic.cacheJson publishedData = storedZone := by
  unfold ZoneStore.cacheJson publishedData
  rw [internic_parsed, internic_serial]
  rfl

theorem size_comment (n : Nat) (rest : Text) :
    n ≤ StrSlice.size ((';' :: List.replicate n ' ') ++ rest) := by
  have hspaces : StrSlice.size (List.replicate n ' ') = n := by
    induction n with
    | zero => rfl
    | succ n ih =>
      rw [List.replicate_succ, StrSlice.size_cons, ih, Nat.add_comm]
      rfl
  rw [List.cons_append, StrSlice.size_cons, StrSlice.size_append, hspaces]
  omega

theorem publishedZone_size : ¬ StrSlice.size publishedZone < 100000 := by
  unfold publishedZone zoneComment
  exact Nat.not_lt.mpr (size_comment 100000 _)

theorem publishedData_length : publishedData.delegations.entries.length = 100 := by
  show (parsedDelegations internic.zoneNames (logicalLines zoneBody)).entries.length = 100
  rw [← List.length_map (f := internic.cacheEntry), internic_parsed]
  rfl

theorem publishedZone_parsed : parseRootZone internic.zoneNames published.parsed publishedZone
    internic.config.url = .ok publishedData := by
  unfold parseRootZone parseLines
  rw [logicalLines_publishedZone, if_neg]
  · rfl
  · intro hnil
    have hlen := publishedData_length
    unfold publishedData at hlen
    dsimp only at hlen
    rw [hnil] at hlen
    cases hlen

theorem internic_download :
    internic.refreshData (.ok publishedZone) published = .ok (publishedZone, publishedData) := by
  refine ZoneStore.refreshData_of_parsed publishedZone_size publishedZone_parsed ?_
  rw [publishedData_length]
  exact Nat.lt_irrefl 100

theorem internic_json : internic.fromJson (internic.toJson storedZone) = .ok storedZone := by
  have hfrom : internic.fromJson = storedFromJson := rfl
  have hto : internic.toJson = RootZoneCacheJson.toJson := rfl
  rw [hfrom, hto, storedFromJson_toJson]

theorem internic_names : internic.NamesReadBack := by
  intro text n h
  replace h : zoneFromStr text = some n := h
  refine ⟨n, ?_, rfl⟩
  unfold zoneFromStr at h
  split at h
  · obtain rfl := Option.some.inj h
    rfl
  · exact tldFromStr_zoneNameText h

/-- the zone is downloaded and stored; later it is downloaded again, but the writes fail half way,
and the next download fails -/
def internicLife : List ZoneEvent :=
  [.initial (.ok publishedZone) published ⟨.ok, .ok, true⟩,
    .scheduled (.ok publishedZone) published ⟨.failed none, .failed (some ['\x7b']), false⟩
      1700604800,
    .scheduled (.error "request: timed out") published ⟨.ok, .ok, true⟩ 1701209600]

theorem internic_restored :
    BegunWith ((ZoneProcess.start internic (fun _ => none) fortyDays).run
      (internicLife ++ [.restart fortyDays])) publishedData fortyDays.install := by
  have hlast : lastStored internic internicLife = some publishedData := by
    unfold internicLife
    rw [lastStored, lastStored, lastStored, lastStored, ZoneEvent.stores, ZoneEvent.stores,
      ZoneEvent.stores, internic_download]
    rfl
  refine (restart_restores internic (by decide) (by decide) internic_names (fun _ => none) fortyDays
    internicLife (fun data h => ?_) fortyDays).1 publishedData hlast
  obtain rfl := Option.some.inj (hlast.symm.trans h)
  rw [publishedData_stored]
  exact internic_json

end DnsResolver
