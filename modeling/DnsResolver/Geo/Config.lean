import DnsResolver.Geo.HexText

/-!
# The settings of the geo layer (`geo/config.rs`)

`from_env` reads the environment once, at the start.  The nodes are in numbered slots, `NODE1_NAME`,
`NODE2_NAME` and so on, up to the first slot without a name.  `Name::from_str` is a parameter.

* `Vars`               the variables, and what an unreadable one is taken for;
* `parseNodes`         the walk over the slots;
* `parseNodes_slots`   it ends, at the first slot without a name;
* `GeoSettings`        what `from_env` makes, with what can be relied on;
* `fromEnv_selfNode`   two nodes with one set of variables differ in their own name only.
-/

namespace DnsResolver
open Digit

/-! ## variables -/

/-- the variables of the process that are text -/
structure Vars where
  entries : List (Text × Text)

/-- `str::parse` of an unsigned number below `bound` -/
def parseUint (bound : Nat) (s : Text) : Option Nat :=
  let digits := if s.head? = some '+' then s.tail else s
  if digits = [] then none
  else
    match digits.mapM (toDigit 10) with
    | none => none
    | some ds =>
      let n := ds.foldl (fun n d => 10 * n + d) 0
      if n < bound then some n else none

theorem parseUint_lt {bound n : Nat} {s : Text} (h : parseUint bound s = some n) : n < bound := by
  unfold parseUint at h
  dsimp only at h
  generalize (if s.head? = some '+' then s.tail else s) = digits at h
  by_cases hnil : digits = []
  · rw [if_pos hnil] at h
    exact absurd h.symm (Option.some_ne_none n)
  · rw [if_neg hnil] at h
    cases hds : digits.mapM (toDigit 10) with
    | none =>
      rw [hds] at h
      exact absurd h.symm (Option.some_ne_none n)
    | some ds =>
      rw [hds] at h
      dsimp only at h
      split_ifs at h with hlt
      rw [← Option.some.inj h]
      exact hlt

namespace Vars

/-- `std::env::var` -/
def var (vars : Vars) (k : Text) : Option Text :=
  (vars.entries.find? fun e => decide (e.1 = k)).map Prod.snd

def nonEmpty (vars : Vars) (k : Text) : Option Text := (vars.var k).filter fun v => decide (v ≠ [])

def envBool (vars : Vars) (k : Text) (default : Bool) : Bool :=
  ((vars.var k).map fun v => !decide (v ∈ ["0".toList, "false".toList, "no".toList, "off".toList,
    []])).getD default

def envStr (vars : Vars) (k default : Text) : Text := (vars.var k).getD default

/-- a number that cannot be read is the default -/
def envUint (vars : Vars) (bound : Nat) (k : Text) (default : Nat) : Nat :=
  ((vars.var k).bind (parseUint bound)).getD default

def envU32 (vars : Vars) : Text → Nat → Nat := vars.envUint (2 ^ 32)

def envU64 (vars : Vars) : Text → Nat → Nat := vars.envUint (2 ^ 64)

def envU8 (vars : Vars) : Text → Nat → Nat := vars.envUint (2 ^ 8)

/-- the entries of a text with commas -/
def envList (vars : Vars) (k : Text) : List Text :=
  (((vars.envStr k []).splitOn ',').map trim).filter fun s => decide (s ≠ [])

/-- another value in front of the old one -/
def set (vars : Vars) (k v : Text) : Vars := ⟨(k, v) :: vars.entries⟩

variable {vars : Vars}

theorem var_set_self (k v : Text) : (vars.set k v).var k = some v := by
  unfold var set
  rw [List.find?_cons_of_pos]
  · rfl
  · exact decide_eq_true rfl

theorem var_set_of_ne {k k' : Text} (h : k ≠ k') (v : Text) :
    (vars.set k v).var k' = vars.var k' := by
  unfold var set
  rw [List.find?_cons_of_neg (by rw [decide_eq_true_iff]; exact h)]

theorem envUint_lt {bound default : Nat} (hd : default < bound) (k : Text) :
    vars.envUint bound k default < bound := by
  unfold envUint
  cases hv : (vars.var k).bind (parseUint bound) with
  | none => exact hd
  | some n =>
    obtain ⟨v, -, hn⟩ := Option.bind_eq_some_iff.mp hv
    exact parseUint_lt hn

end Vars

/-! ## slots -/

/-- `format!("NODE{}_", i)` and what comes behind it -/
def nodeVar (i : Nat) (suffix : String) : Text :=
  "NODE".toList ++ Nat.toDigits 10 i ++ '_' :: suffix.toList

/-- a node as it is set, with an address -/
structure NodeSlot extends GeoNode where
  location : Option Text
  dohUrl : Option Text
  addressed : ¬ (ipv4.isNone && ipv6.isNone)

def GeoNode.addresses (n : GeoNode) : List IpAddr :=
  (n.ipv4.map IpAddr.V4).toList ++ (n.ipv6.map IpAddr.V6).toList

/-- `Ipv4Addr::from_str` -/
def parseIpv4Addr (s : Text) : Option Ipv4Addr :=
  match readIpv4Addr s with
  | some (a, []) => some a
  | _ => none

/-- `Ipv6Addr::from_str` -/
def parseIpv6Addr (s : Text) : Option Ipv6Addr :=
  match readIpv6Addr s with
  | some (a, []) => some a
  | _ => none

namespace Vars

/-- one slot: `none` where the walk ends, and no node without an address -/
def slot (vars : Vars) (i : Nat) : Option (Option NodeSlot) :=
  match vars.nonEmpty (nodeVar i "NAME") with
  | none => none
  | some name =>
    let ipv4 := (vars.nonEmpty (nodeVar i "IPV4")).bind parseIpv4Addr
    let ipv6 := (vars.nonEmpty (nodeVar i "IPV6")).bind parseIpv6Addr
    if h : ipv4.isNone && ipv6.isNone then some none
    else
      some (some
        { name := String.ofList name
          ipv4 := ipv4
          ipv6 := ipv6
          enabled := vars.envBool (nodeVar i "ENABLED") true
          location := vars.nonEmpty (nodeVar i "LOCATION")
          dohUrl := vars.nonEmpty (nodeVar i "DOH_URL")
          addressed := h })

/-- the loop from slot `i` on -/
def parseSlots (vars : Vars) : Nat → Nat → List NodeSlot
  | 0, _ => []
  | k + 1, i =>
    match vars.slot i with
    | none => []
    | some none => parseSlots vars k (i + 1)
    | some (some n) => n :: parseSlots vars k (i + 1)

/-- `parse_nodes`; a walk over named slots is no longer than there are variables -/
def parseNodes (vars : Vars) : List NodeSlot := vars.parseSlots (vars.entries.length + 1) 1

/-! ### the walk ends -/

theorem nodeVar_inj {i j : Nat} {s t : String} (h : nodeVar i s = nodeVar j t) :
    i = j ∧ s.toList = t.toList := by
  unfold nodeVar at h
  rw [List.append_assoc, List.append_assoc] at h
  replace h := List.append_cancel_left h
  have hkey : ∀ {a b : Text} {c d : Text}, '_' ∉ a → '_' ∉ b → a ++ '_' :: c = b ++ '_' :: d →
      a = b ∧ c = d := by
    intro a b c d ha hb he
    induction a generalizing b with
    | nil =>
      cases b with
      | nil => exact ⟨rfl, (List.cons.inj he).2⟩
      | cons x b => exact absurd (by rw [← (List.cons.inj he).1]; exact List.mem_cons_self) hb
    | cons y a ih =>
      cases b with
      | nil => exact absurd (by rw [(List.cons.inj he).1]; exact List.mem_cons_self) ha
      | cons x b =>
        rw [List.cons_append, List.cons_append] at he
        obtain ⟨rfl, hrest⟩ := List.cons.inj he
        obtain ⟨rfl, hcd⟩ := ih (fun hm => ha (List.mem_cons_of_mem _ hm))
          (fun hm => hb (List.mem_cons_of_mem _ hm)) hrest
        exact ⟨rfl, hcd⟩
  obtain ⟨hdigits, hsuffix⟩ := hkey Nat.underscore_not_in_toDigits Nat.underscore_not_in_toDigits h
  refine ⟨?_, hsuffix⟩
  rw [← Nat.ofDigitChars_ten_toDigits (n := i), hdigits, Nat.ofDigitChars_ten_toDigits]

variable {vars : Vars}

theorem mem_of_slot {i : Nat} (h : vars.slot i ≠ none) :
    nodeVar i "NAME" ∈ vars.entries.map Prod.fst := by
  have hvar : vars.var (nodeVar i "NAME") ≠ none := by
    intro hnone
    unfold slot nonEmpty at h
    rw [hnone] at h
    exact h rfl
  obtain ⟨v, hv⟩ := Option.ne_none_iff_exists'.mp hvar
  obtain ⟨e, he, -⟩ := Option.map_eq_some_iff.mp hv
  have hkey := List.find?_some he
  rw [← of_decide_eq_true hkey]
  exact List.mem_map_of_mem (List.mem_of_find?_eq_some he)

theorem exists_slot_none (vars : Vars) :
    ∃ i, 1 ≤ i ∧ i ≤ vars.entries.length + 1 ∧ vars.slot i = none := by
  by_contra hall
  have hsub : (List.range' 1 (vars.entries.length + 1)).map (fun i => nodeVar i "NAME") ⊆
      vars.entries.map Prod.fst := by
    intro k hk
    obtain ⟨i, hi, rfl⟩ := List.mem_map.mp hk
    rw [List.mem_range'_1] at hi
    exact mem_of_slot fun hnone => hall ⟨i, hi.1, by omega, hnone⟩
  have hnodup : ((List.range' 1 (vars.entries.length + 1)).map fun i => nodeVar i "NAME").Nodup :=
    (List.nodup_range' 1 Nat.one_pos).map fun i j he => (nodeVar_inj he).1
  have hle := (List.subperm_of_subset hnodup hsub).length_le
  rw [List.length_map, List.length_map, List.length_range'] at hle
  omega

/-- the nodes of the slots from `i` on, if the first one without a name is `n` slots away -/
theorem parseSlots_eq {i n k : Nat} (hend : vars.slot (i + n) = none)
    (hnamed : ∀ j, i ≤ j → j < i + n → vars.slot j ≠ none) (hk : n < k) :
    vars.parseSlots k i = (List.range' i n).filterMap fun j => (vars.slot j).join := by
  induction n generalizing i k with
  | zero =>
    obtain ⟨k, rfl⟩ := Nat.exists_eq_succ_of_ne_zero (Nat.ne_of_gt hk)
    rw [parseSlots, show vars.slot i = none from hend]
    rfl
  | succ n ih =>
    obtain ⟨k, rfl⟩ := Nat.exists_eq_succ_of_ne_zero (show k ≠ 0 by omega)
    have hrest : vars.parseSlots k (i + 1) =
        (List.range' (i + 1) n).filterMap fun j => (vars.slot j).join := by
      refine ih ?_ (fun j hj hlt => hnamed j (by omega) (by omega)) (by omega)
      rw [← hend]
      congr 1
      omega
    rw [List.range'_succ, List.filterMap_cons, parseSlots]
    cases hs : vars.slot i with
    | none => exact absurd hs (hnamed i (Nat.le_refl _) (by omega))
    | some o =>
      cases o with
      | none => exact hrest
      | some slot => exact congrArg (slot :: ·) hrest

/-- **The slots.**  The walk ends at the first slot without a name, whatever is set behind it, and
gives the nodes of the slots before it that have an address, in their order. -/
theorem parseNodes_slots (vars : Vars) :
    ∃ n, vars.slot (n + 1) = none ∧ (∀ i, 1 ≤ i → i ≤ n → vars.slot i ≠ none) ∧
      vars.parseNodes = (List.range' 1 n).filterMap fun i => (vars.slot i).join := by
  have hex : ∃ n, vars.slot (n + 1) = none := by
    obtain ⟨i, hi, -, hnone⟩ := exists_slot_none vars
    exact ⟨i - 1, by rw [Nat.sub_add_cancel hi]; exact hnone⟩
  have hmin : ∀ i, 1 ≤ i → i ≤ Nat.find hex → vars.slot i ≠ none := by
    intro i hi hle hnone
    exact Nat.find_min hex (m := i - 1) (by omega) (by rw [Nat.sub_add_cancel hi]; exact hnone)
  refine ⟨Nat.find hex, Nat.find_spec hex, hmin, parseSlots_eq ?_ (fun j hj hlt => ?_) ?_⟩
  · rw [Nat.add_comm]
    exact Nat.find_spec hex
  · exact hmin j hj (by omega)
  · obtain ⟨i, hi, hle, hnone⟩ := exists_slot_none vars
    have hfind : Nat.find hex ≤ i - 1 :=
      Nat.find_le (by rw [Nat.sub_add_cancel hi]; exact hnone)
    omega

-- the third slot comes after a gap, and its node is unknown
example : (Vars.mk [("NODE1_NAME".toList, "asia".toList), ("NODE1_IPV4".toList, "9.9.9.9".toList),
    ("NODE3_NAME".toList, "late".toList), ("NODE3_IPV4".toList, "9.9.9.8".toList)]).parseNodes.map
      (fun n => n.name) = ["asia"] := by
  decide +kernel

theorem parseNodes_congr {vars' : Vars} (h : ∀ i, vars'.slot i = vars.slot i) :
    vars'.parseNodes = vars.parseNodes := by
  obtain ⟨n, hend, hnamed, heq⟩ := parseNodes_slots vars
  obtain ⟨n', hend', hnamed', heq'⟩ := parseNodes_slots vars'
  have hn : n' = n := by
    by_contra hne
    rcases Nat.lt_or_gt_of_ne hne with hlt | hlt
    · exact hnamed (n' + 1) (by omega) (by omega) (h _ ▸ hend')
    · exact hnamed' (n + 1) (by omega) (by omega) ((h _).trans hend)
  rw [heq, heq', hn]
  congr 1
  funext i
  rw [h]

theorem slot_congr {vars' : Vars} {i : Nat}
    (h : ∀ suffix, vars'.var (nodeVar i suffix) = vars.var (nodeVar i suffix)) :
    vars'.slot i = vars.slot i := by
  unfold slot nonEmpty envBool
  simp only [h]

end Vars

/-! ## the settings -/

theorem fromEnvPeerSecret_long {s : Text} {b : Bytes} (h : fromEnvPeerSecret s = some b) :
    b = [] ∨ 16 ≤ b.length := by
  unfold fromEnvPeerSecret at h
  by_cases hs : s = []
  · rw [if_pos hs] at h
    exact .inl (Option.some.inj h).symm
  · rw [if_neg hs] at h
    obtain ⟨r, -, rfl⟩ := Option.map_eq_some_iff.mp h
    cases r with
    | none => exact .inl rfl
    | some b =>
      dsimp only
      by_cases hlen : 16 ≤ b.length
      · rw [if_pos hlen]
        exact .inr hlen
      · rw [if_neg hlen]
        exact .inl rfl

abbrev PeerSecret := { b : Bytes // b = [] ∨ 16 ≤ b.length }

def readPeerSecret (peerSecretHex : Text) : Option PeerSecret :=
  (fromEnvPeerSecret peerSecretHex).pmap Subtype.mk fun _ => fromEnvPeerSecret_long

/-- `GeoConfig` as `from_env` makes it -/
@[ext]
structure GeoSettings where
  enabled : Bool
  authoritativeNames : List Name
  nodes : List NodeSlot
  geoipDatabase : Option Text
  routingTtl : UInt32
  healthInterval : Nat
  defaultNode : Option String
  hysteresisPct : Nat
  hysteresis_le : hysteresisPct ≤ 50
  responseIpCount : Nat
  count_range : 1 ≤ responseIpCount ∧ responseIpCount ≤ 16
  selfNode : Option String
  peerSecret : PeerSecret
  peerHeartbeatIntervalSecs : Nat
  two_le_interval : 2 ≤ peerHeartbeatIntervalSecs
  interval_lt : peerHeartbeatIntervalSecs < 2 ^ 64
  peerAllowedIps : List IpAddr
  allowed : ∀ n ∈ nodes, ∀ a ∈ n.addresses, a ∈ peerAllowedIps

/-- `PeerTarget` -/
structure PeerTarget where
  name : String
  baseUrl : Text
  deriving DecidableEq

namespace GeoSettings

/-- what the other parts read of it -/
def toGeoConfig (s : GeoSettings) : GeoConfig where
  authoritativeNames := s.authoritativeNames
  nodes := s.nodes.map NodeSlot.toGeoNode
  routingTtl := s.routingTtl
  defaultNode := s.defaultNode
  responseIpCount := s.responseIpCount
  count_range := s.count_range
  selfNode := s.selfNode
  peerSecret := s.peerSecret.1
  peerHeartbeatIntervalSecs := s.peerHeartbeatIntervalSecs
  peerAllowedIps := s.peerAllowedIps

/-- the other nodes that are switched on and have a DoH endpoint -/
def peerTargets (s : GeoSettings) : List PeerTarget :=
  match s.selfNode with
  | none => []
  | some selfName =>
    ((s.nodes.filter fun n => n.enabled).filter fun n => n.name ≠ selfName).filterMap fun n =>
      n.dohUrl.map fun url => ⟨n.name, url⟩

theorem mem_peerTargets {s : GeoSettings} {t : PeerTarget} :
    t ∈ s.peerTargets ↔ ∃ selfName, s.selfNode = some selfName ∧ t.name ≠ selfName ∧
      ∃ n ∈ s.nodes, n.enabled = true ∧ n.name = t.name ∧ n.dohUrl = some t.baseUrl := by
  unfold peerTargets
  cases hself : s.selfNode with
  | none =>
    refine iff_of_false List.not_mem_nil ?_
    rintro ⟨selfName, h, -⟩
    exact absurd h.symm (Option.some_ne_none selfName)
  | some selfName =>
    rw [List.mem_filterMap]
    constructor
    · rintro ⟨n, hn, ht⟩
      obtain ⟨url, hurl, rfl⟩ := Option.map_eq_some_iff.mp ht
      obtain ⟨hn, hother⟩ := List.mem_filter.mp hn
      obtain ⟨hn, henabled⟩ := List.mem_filter.mp hn
      exact ⟨selfName, rfl, of_decide_eq_true hother, n, hn, henabled, rfl, hurl⟩
    · rintro ⟨name, hname, hother, n, hn, henabled, hnt, hurl⟩
      obtain rfl := Option.some.inj hname
      refine ⟨n, List.mem_filter.mpr ⟨List.mem_filter.mpr ⟨hn, henabled⟩, ?_⟩, ?_⟩
      · rw [hnt]
        exact decide_eq_true hother
      · rw [hurl, Option.map_some, hnt]

end GeoSettings

namespace Vars

/-- the entry of a name, made absolute -/
def absolute (s : Text) : Text := if s.getLast? = some '.' then s else s ++ ['.']

/-- an empty text counts as none here too -/
def envOpt (vars : Vars) (k : Text) : Option Text :=
  let v := vars.envStr k []
  if v = [] then none else some v

/-- `none` if the process aborts -/
def envSecret (vars : Vars) : Option PeerSecret :=
  readPeerSecret (vars.envStr "GEO_PEER_SECRET".toList [])

def selfKey : Text := "GEO_SELF_NODE".toList

/-- everything else of `from_env` -/
def settings (nameOf : Text → Option Name) (vars : Vars) (secret : PeerSecret) : GeoSettings :=
  let nodes := vars.parseNodes
  { enabled := vars.envBool "GEO_ROUTING_ENABLED".toList false
    authoritativeNames :=
      (vars.envList "GEO_AUTHORITATIVE_NAMES".toList).filterMap fun s => nameOf (absolute s)
    nodes := nodes
    geoipDatabase := vars.envOpt "GEOIP_DATABASE".toList
    routingTtl := UInt32.ofNat (vars.envU32 "GEO_ROUTING_TTL".toList 30)
    healthInterval := vars.envU64 "GEO_HEALTH_INTERVAL".toList 30
    defaultNode := (vars.envOpt "GEO_DEFAULT_NODE".toList).map String.ofList
    hysteresisPct := min (vars.envU8 "GEO_HYSTERESIS_PCT".toList 15) 50
    hysteresis_le := Nat.min_le_right _ _
    responseIpCount := min (max 1 (vars.envU8 "GEO_IP_FAILOVER_IP".toList 1)) 16
    count_range := ⟨Nat.le_min.mpr ⟨Nat.le_max_left _ _, by decide⟩, Nat.min_le_right _ _⟩
    selfNode := (vars.envOpt selfKey).map String.ofList
    peerSecret := secret
    peerHeartbeatIntervalSecs := max (vars.envU64 "GEO_PEER_HEARTBEAT_INTERVAL".toList 10) 2
    two_le_interval := Nat.le_max_right _ _
    interval_lt := Nat.max_lt.mpr ⟨envUint_lt (by decide) _, by decide⟩
    peerAllowedIps := (nodes.flatMap fun n => n.addresses) ++
      (vars.envList "GEO_PEER_EXTRA_ALLOWED_IPS".toList).filterMap parseIpAddr
    allowed := fun n hn a ha => List.mem_append_left _ (List.mem_flatMap.mpr ⟨n, hn, ha⟩) }

/-- `GeoConfig::from_env`; `none` if the process aborts -/
def fromEnv (nameOf : Text → Option Name) (vars : Vars) : Option GeoSettings :=
  vars.envSecret.map (vars.settings nameOf)

/-! ### one environment for all nodes -/

theorem settings_congr {vars vars' : Vars} (nameOf : Text → Option Name)
    (h : ∀ k, k ≠ selfKey → vars'.var k = vars.var k) (secret : PeerSecret) :
    vars'.settings nameOf secret = { vars.settings nameOf secret with
      selfNode := (vars'.envOpt selfKey).map String.ofList } := by
  have hbool : ∀ k d, k ≠ selfKey → vars'.envBool k d = vars.envBool k d := by
    intro k d hk
    unfold envBool
    rw [h k hk]
  have hstr : ∀ k d, k ≠ selfKey → vars'.envStr k d = vars.envStr k d := by
    intro k d hk
    unfold envStr
    rw [h k hk]
  have huint : ∀ bound k d, k ≠ selfKey → vars'.envUint bound k d = vars.envUint bound k d := by
    intro bound k d hk
    unfold envUint
    rw [h k hk]
  have hlist : ∀ k, k ≠ selfKey → vars'.envList k = vars.envList k := by
    intro k hk
    unfold envList
    rw [hstr k [] hk]
  have hopt : ∀ k, k ≠ selfKey → vars'.envOpt k = vars.envOpt k := by
    intro k hk
    unfold envOpt
    rw [hstr k [] hk]
  have hnodes : vars'.parseNodes = vars.parseNodes :=
    parseNodes_congr fun i => slot_congr fun suffix => h _ fun he =>
      absurd (List.cons.inj he).1 (by decide)
  unfold settings envU8 envU32 envU64
  dsimp only
  ext1
  · exact hbool _ _ (by decide)
  · show List.filterMap _ _ = List.filterMap _ _
    rw [hlist _ (by decide)]
  · exact hnodes
  · exact hopt _ (by decide)
  · show UInt32.ofNat _ = UInt32.ofNat _
    rw [huint _ _ _ (by decide)]
  · exact huint _ _ _ (by decide)
  · show Option.map _ _ = Option.map _ _
    rw [hopt _ (by decide)]
  · show min _ 50 = min _ 50
    rw [huint _ _ _ (by decide)]
  · show min _ 16 = min _ 16
    rw [huint _ _ _ (by decide)]
  · rfl
  · rfl
  · show max _ 2 = max _ 2
    rw [huint _ _ _ (by decide)]
  · show _ ++ _ = _ ++ _
    rw [hnodes, hlist _ (by decide)]

/-- **One environment.**  Nodes that differ in `GEO_SELF_NODE` only have the same settings but for
their own name. -/
theorem fromEnv_selfNode (nameOf : Text → Option Name) (vars : Vars) (name : Text) :
    fromEnv nameOf (vars.set selfKey name) = (fromEnv nameOf vars).map fun s =>
      { s with selfNode := if name = [] then none else some (String.ofList name) } := by
  have hvar : ∀ k, k ≠ selfKey → (vars.set selfKey name).var k = vars.var k :=
    fun k hk => var_set_of_ne (Ne.symm hk) name
  have hsecret : (vars.set selfKey name).envSecret = vars.envSecret := by
    unfold envSecret envStr
    rw [hvar _ (by decide)]
  have hself : ((vars.set selfKey name).envOpt selfKey).map String.ofList =
      if name = [] then none else some (String.ofList name) := by
    unfold envOpt envStr
    rw [var_set_self, Option.getD_some]
    by_cases hname : name = []
    · rw [if_pos hname, if_pos hname]
      rfl
    · rw [if_neg hname, if_neg hname]
      rfl
  unfold fromEnv
  rw [hsecret, Option.map_map]
  congr 1
  funext secret
  rw [settings_congr nameOf hvar, hself]
  rfl

end Vars

end DnsResolver
