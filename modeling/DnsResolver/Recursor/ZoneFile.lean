import DnsResolver.Lib.KeyedMap
import DnsResolver.Lib.Run
import DnsResolver.Recursor.ZoneText

/-!
# The root zone file (`parse_root_zone`)

The file is cut into logical lines, and the lines are read twice: once for the delegations and the
addresses, once more for the targets of the NS lines.  The maps are joined afterwards, so a line
may come before or after the lines it belongs to.

`Name::from_str`, `is_root` and `==` are hickory's: `ZoneNames` has names of any type `ν`, equal if
they have the same key.

* `logicalLines`, `FirstPass.line`, `nsOwnersLine`, `joinServers`, `parseLines`   the code;
* `NsLine`, `AddressLine`   the lines that count, as the zone file format has them;
* `ServedBy`                the address of a server of a zone, by an NS line and an address line;
* `parseLines_joins`        what is parsed is exactly what `ServedBy` says, and so does not depend
                            on the order of the lines.
-/

namespace DnsResolver

/-- names as the parser sees them -/
structure ZoneNames (ν κ : Type) where
  /-- `Name::from_str` -/
  fromStr : Text → Option ν
  /-- what `==` compares -/
  key : ν → κ
  isRoot : ν → Bool

/-! ## logical lines -/

/-- the state of the loop of `logical_lines` -/
structure LineJoin where
  out : List Text
  current : Text
  depth : Int

/-- how many more parentheses a line opens than it closes -/
def parens (s : Text) : Int := s.count '(' - s.count ')'

/-- one round of the loop of `logical_lines` -/
def LineJoin.raw (j : LineJoin) (raw : Text) : LineJoin :=
  let trimmed := trim (raw.takeWhile (· ≠ ';'))
  if trimmed = [] ∧ j.depth = 0 then j
  else
    let depth := max 0 (j.depth + parens trimmed)
    let current := (if j.current = [] then [] else j.current ++ [' ']) ++ trimmed
    if depth = 0 then ⟨j.out ++ [trim current], [], 0⟩ else ⟨j.out, current, depth⟩

/-- `logical_lines` -/
def logicalLines (content : Text) : List Text :=
  let j := (lines content).foldl LineJoin.raw ⟨[], [], 0⟩
  if trim j.current = [] then j.out else j.out ++ [trim j.current]

/-! ## the two passes -/

section
variable {ν κ : Type} [DecidableEq κ] (zn : ZoneNames ν κ)

/-- the variables of the first loop of `parse_root_zone` -/
structure FirstPass where
  delegations : KeyedMap zn.key RootZoneDelegation
  glue : KeyedMap zn.key (List IpAddr)
  serial : UInt32
  seenSoa : Bool

def FirstPass.new : FirstPass zn := ⟨.empty, .empty, 0, false⟩

variable {zn}

/-- an SOA line: the serial of the first one that has a number there -/
def FirstPass.soa (p : FirstPass zn) (rdata : List Text) : FirstPass zn :=
  if p.seenSoa then p
  else
    match rdata[2]?.bind parseU32 with
    | some s => { p with serial := s, seenSoa := true }
    | none => p

/-- an NS line: the delegation is there, with no servers yet -/
def FirstPass.ns (p : FirstPass zn) (owner : ν) (ttl : UInt32) (rdata : List Text) :
    FirstPass zn :=
  match rdata with
  | [] => p
  | target :: _ =>
    if zn.isRoot owner then p
    else
      match zn.fromStr target with
      | none => p
      | some nsName => { p with
          delegations := p.delegations.entryOr owner ⟨[], ttl⟩ id
          glue := p.glue.entryOr nsName [] (· ++ []) }

def FirstPass.address (p : FirstPass zn) (owner : ν) (rdata : List Text) : FirstPass zn :=
  match rdata with
  | [] => p
  | addr :: _ =>
    match parseIpAddr addr with
    | none => p
    | some ip => { p with glue := p.glue.entryOr owner [] (· ++ [ip]) }

def FirstPass.line (p : FirstPass zn) (line : Text) : FirstPass zn :=
  match splitWhitespace line with
  | ownerStr :: ttlStr :: _ :: rtype :: rdata =>
    match zn.fromStr ownerStr with
    | none => p
    | some owner =>
      if rtype = ['S', 'O', 'A'] then p.soa rdata
      else if rtype = ['N', 'S'] then p.ns owner ((parseU32 ttlStr).getD 0) rdata
      else if rtype = ['A'] ∨ rtype = ['A', 'A', 'A', 'A'] then p.address owner rdata
      else p
  | _ => p

variable (zn)

/-- one round of the second loop: the targets of the NS lines, by owner -/
def nsOwnersLine (nsOwners : KeyedMap zn.key (List ν)) (line : Text) : KeyedMap zn.key (List ν) :=
  match splitWhitespace line with
  | ownerStr :: _ :: _ :: rtype :: target :: _ =>
    if rtype ≠ ['N', 'S'] then nsOwners
    else
      match zn.fromStr ownerStr with
      | none => nsOwners
      | some owner =>
        if zn.isRoot owner then nsOwners
        else
          match zn.fromStr target with
          | none => nsOwners
          | some nsName => nsOwners.entryOr owner [] (· ++ [nsName])
  | _ => nsOwners

variable {zn}

/-- the inner loop of the join: what the targets have in the glue map goes to the servers -/
def addServers (glue : KeyedMap zn.key (List IpAddr)) (nsNames : List ν)
    (del : RootZoneDelegation) : RootZoneDelegation :=
  nsNames.foldl (fun del ns =>
    match glue.get (zn.key ns) with
    | none => del
    | some ips => { del with servers := del.servers ++ ips }) del

def joinServers (glue : KeyedMap zn.key (List IpAddr)) (nsOwners : KeyedMap zn.key (List ν))
    (delegations : KeyedMap zn.key RootZoneDelegation) : KeyedMap zn.key RootZoneDelegation :=
  nsOwners.entries.foldl (fun dels e => dels.modify (zn.key e.1) (addServers glue e.2)) delegations

variable (zn)

/-- `RootZoneData` as the parser builds it -/
structure ParsedZone where
  delegations : KeyedMap zn.key RootZoneDelegation
  serial : UInt32
  loadedAt : Nat
  sourcePath : Text
  sourceUrl : Text

def firstPass (lines : List Text) : FirstPass zn := lines.foldl FirstPass.line (FirstPass.new zn)

def nsOwners (lines : List Text) : KeyedMap zn.key (List ν) := lines.foldl (nsOwnersLine zn) .empty

def parsedDelegations (lines : List Text) : KeyedMap zn.key RootZoneDelegation :=
  let first := firstPass zn lines
  (joinServers first.glue (nsOwners zn lines) first.delegations).retain
    fun del => !del.servers.isEmpty

/-- `parse_root_zone` from the logical lines on -/
def parseLines (now : Nat) (sourceUrl : Text) (lines : List Text) :
    Except String (ParsedZone zn) :=
  if (parsedDelegations zn lines).entries = [] then .error "no usable TLD delegations parsed"
  else .ok ⟨parsedDelegations zn lines, (firstPass zn lines).serial, now, [], sourceUrl⟩

/-- `parse_root_zone` -/
def parseRootZone (now : Nat) (content sourceUrl : Text) : Except String (ParsedZone zn) :=
  parseLines zn now sourceUrl (logicalLines content)

/-! ## the lines that count -/

/-- an NS record of a zone other than the root -/
def NsLine (line : Text) (owner target : ν) : Prop :=
  ∃ ownerStr ttlStr dnsClass targetStr rest, splitWhitespace line =
      ownerStr :: ttlStr :: dnsClass :: ['N', 'S'] :: targetStr :: rest ∧
    zn.fromStr ownerStr = some owner ∧ zn.isRoot owner = false ∧ zn.fromStr targetStr = some target

/-- an A or AAAA record with an address that can be read -/
def AddressLine (line : Text) (owner : ν) (ip : IpAddr) : Prop :=
  ∃ ownerStr ttlStr dnsClass rtype addr rest, splitWhitespace line =
      ownerStr :: ttlStr :: dnsClass :: rtype :: addr :: rest ∧
    (rtype = ['A'] ∨ rtype = ['A', 'A', 'A', 'A']) ∧ zn.fromStr ownerStr = some owner ∧
    parseIpAddr addr = some ip

/-- `ip` is the address of a server of the zone under `z` -/
def ServedBy (lines : List Text) (z : κ) (ip : IpAddr) : Prop :=
  ∃ line ∈ lines, ∃ owner target, NsLine zn line owner target ∧ zn.key owner = z ∧
    ∃ line' ∈ lines, ∃ host, AddressLine zn line' host ip ∧ zn.key host = zn.key target

/-! ## what one line adds -/

variable {zn}

omit [DecidableEq κ] in
theorem soa_maps (p : FirstPass zn) (rdata : List Text) :
    (p.soa rdata).delegations = p.delegations ∧ (p.soa rdata).glue = p.glue := by
  unfold FirstPass.soa
  split
  · exact ⟨rfl, rfl⟩
  · split
    · exact ⟨rfl, rfl⟩
    · exact ⟨rfl, rfl⟩

theorem ns_glue (p : FirstPass zn) (owner : ν) (ttl : UInt32) (rdata : List Text) (k : κ) :
    (p.ns owner ttl rdata).glue.values k = p.glue.values k := by
  unfold FirstPass.ns
  split
  · rfl
  · split
    · rfl
    · split
      · rfl
      · show (p.glue.entryOr _ [] (· ++ [])).values k = p.glue.values k
        rw [KeyedMap.values_entryOr_append, ite_self, List.append_nil]

theorem address_delegations (p : FirstPass zn) (owner : ν) (rdata : List Text) :
    (p.address owner rdata).delegations = p.delegations := by
  unfold FirstPass.address
  split
  · rfl
  · split
    · rfl
    · rfl

theorem mem_address_glue (p : FirstPass zn) (owner : ν) (rdata : List Text) (k : κ) (ip : IpAddr) :
    ip ∈ (p.address owner rdata).glue.values k ↔ ip ∈ p.glue.values k ∨
      (∃ addr rest, rdata = addr :: rest ∧ parseIpAddr addr = some ip) ∧ zn.key owner = k := by
  unfold FirstPass.address
  cases rdata with
  | nil => simp
  | cons addr rest =>
    cases hip : parseIpAddr addr with
    | none => simp [hip]
    | some ip' =>
      simp only [hip]
      rw [KeyedMap.values_entryOr_append, List.mem_append]
      by_cases hk : zn.key owner = k
      · simp [hip, hk, eq_comm]
      · simp [hk]

theorem get_ns_delegations (p : FirstPass zn) (owner : ν) (ttl : UInt32) (rdata : List Text)
    (k : κ) :
    ((p.ns owner ttl rdata).delegations.get k).isSome ↔ (p.delegations.get k).isSome ∨
      (∃ target, zn.isRoot owner = false ∧ ∃ targetStr rest, rdata = targetStr :: rest ∧
        zn.fromStr targetStr = some target) ∧ zn.key owner = k := by
  unfold FirstPass.ns
  cases rdata with
  | nil => simp
  | cons targetStr rest =>
    cases hroot : zn.isRoot owner with
    | true => simp
    | false =>
      cases ht : zn.fromStr targetStr with
      | none => simp [ht]
      | some target =>
        simp only [ht]
        rw [if_neg (by decide)]
        show ((p.delegations.entryOr owner ⟨[], ttl⟩ id).get k).isSome ↔ _
        rw [KeyedMap.get_entryOr]
        by_cases hk : zn.key owner = k
        · simp [hk, ht]
        · simp [hk]

/-- no delegation has servers before the join -/
def NoServers (dels : KeyedMap zn.key RootZoneDelegation) : Prop :=
  ∀ k del, dels.get k = some del → del.servers = []

theorem noServers_new : NoServers (FirstPass.new zn).delegations := by
  intro k del h
  cases h

theorem noServers_ns {p : FirstPass zn} (owner : ν) (ttl : UInt32) (rdata : List Text)
    (h : NoServers p.delegations) : NoServers (p.ns owner ttl rdata).delegations := by
  unfold FirstPass.ns
  split
  · exact h
  · split
    · exact h
    · split
      · exact h
      · intro k del hdel
        replace hdel : (p.delegations.entryOr owner ⟨[], ttl⟩ id).get k = some del := hdel
        rw [KeyedMap.get_entryOr] at hdel
        split at hdel
        · obtain rfl := Option.some.inj hdel
          cases hp : p.delegations.get k with
          | none => rfl
          | some del => exact h k del hp
        · exact h k del hdel

section
variable {line ownerStr ttlStr dnsClass rtype : Text} {rdata : List Text}
  (hf : splitWhitespace line = ownerStr :: ttlStr :: dnsClass :: rtype :: rdata)
include hf

omit [DecidableEq κ]

theorem addressLine_iff {owner : ν} {ip : IpAddr} : AddressLine zn line owner ip ↔
    (rtype = ['A'] ∨ rtype = ['A', 'A', 'A', 'A']) ∧ zn.fromStr ownerStr = some owner ∧
      ∃ addr rest, rdata = addr :: rest ∧ parseIpAddr addr = some ip := by
  unfold AddressLine
  rw [hf]
  constructor
  · rintro ⟨_, _, _, _, addr, rest, h, hr, ho, hip⟩
    simp only [List.cons.injEq] at h
    obtain ⟨rfl, rfl, rfl, rfl, rfl⟩ := h
    exact ⟨hr, ho, addr, rest, rfl, hip⟩
  · rintro ⟨hr, ho, addr, rest, rfl, hip⟩
    exact ⟨_, _, _, _, addr, rest, rfl, hr, ho, hip⟩

theorem nsLine_iff {owner target : ν} : NsLine zn line owner target ↔
    rtype = ['N', 'S'] ∧ zn.fromStr ownerStr = some owner ∧ zn.isRoot owner = false ∧
      ∃ targetStr rest, rdata = targetStr :: rest ∧ zn.fromStr targetStr = some target := by
  unfold NsLine
  rw [hf]
  constructor
  · rintro ⟨_, _, _, targetStr, rest, h, ho, hroot, ht⟩
    simp only [List.cons.injEq] at h
    obtain ⟨rfl, rfl, rfl, rfl, rfl⟩ := h
    exact ⟨rfl, ho, hroot, targetStr, rest, rfl, ht⟩
  · rintro ⟨rfl, ho, hroot, targetStr, rest, rfl, ht⟩
    exact ⟨_, _, _, targetStr, rest, rfl, ho, hroot, ht⟩

end

theorem mem_line_glue (p : FirstPass zn) (line : Text) (k : κ) (ip : IpAddr) :
    ip ∈ (p.line line).glue.values k ↔ ip ∈ p.glue.values k ∨
      ∃ owner, AddressLine zn line owner ip ∧ zn.key owner = k := by
  unfold FirstPass.line
  split
  · rename_i ownerStr ttlStr dnsClass rtype rdata hf
    simp only [addressLine_iff hf]
    cases hown : zn.fromStr ownerStr with
    | none => simp
    | some owner =>
      split_ifs with hsoa hns ha
      · rw [(soa_maps p rdata).2]
        simp [hsoa]
      · rw [ns_glue]
        simp [hns]
      · rw [mem_address_glue]
        simp [ha]
      · simp [ha]
  · rename_i hf
    refine (or_iff_left ?_).symm
    rintro ⟨owner, ⟨_, _, _, _, _, _, h, -⟩, -⟩
    exact hf _ _ _ _ _ h

theorem get_line_delegations (p : FirstPass zn) (line : Text) (k : κ) :
    ((p.line line).delegations.get k).isSome ↔ (p.delegations.get k).isSome ∨
      ∃ owner target, NsLine zn line owner target ∧ zn.key owner = k := by
  unfold FirstPass.line
  split
  · rename_i ownerStr ttlStr dnsClass rtype rdata hf
    simp only [nsLine_iff hf]
    cases hown : zn.fromStr ownerStr with
    | none => simp
    | some owner =>
      split_ifs with hsoa hns ha
      · rw [(soa_maps p rdata).1]
        simp [hsoa]
      · rw [get_ns_delegations]
        simp [hns]
      · rw [address_delegations]
        simp [hns]
      · simp [hns]
  · rename_i hf
    refine (or_iff_left ?_).symm
    rintro ⟨owner, target, ⟨_, _, _, _, _, h, -⟩, -⟩
    exact hf _ _ _ _ _ h

theorem noServers_line {p : FirstPass zn} (line : Text) (h : NoServers p.delegations) :
    NoServers (p.line line).delegations := by
  unfold FirstPass.line
  split
  · split
    · exact h
    · split_ifs
      · rw [(soa_maps p _).1]
        exact h
      · exact noServers_ns _ _ _ h
      · rw [address_delegations]
        exact h
      · exact h
  · exact h

theorem mem_nsOwnersLine (nsOwners : KeyedMap zn.key (List ν)) (line : Text) (k : κ) (target : ν) :
    target ∈ (nsOwnersLine zn nsOwners line).values k ↔ target ∈ nsOwners.values k ∨
      ∃ owner, NsLine zn line owner target ∧ zn.key owner = k := by
  unfold nsOwnersLine
  split
  · rename_i ownerStr ttlStr dnsClass rtype targetStr rest hf
    simp only [nsLine_iff hf]
    by_cases hns : rtype = ['N', 'S']
    · rw [if_neg (not_not.mpr hns)]
      cases hown : zn.fromStr ownerStr with
      | none => simp
      | some owner =>
        cases hroot : zn.isRoot owner with
        | true => simp [hroot]
        | false =>
          cases ht : zn.fromStr targetStr with
          | none => simp [ht]
          | some t =>
            simp only [hroot, Bool.false_eq_true, if_false]
            rw [KeyedMap.values_entryOr_append, List.mem_append]
            by_cases hk : zn.key owner = k
            · simp [hns, hk, hroot, ht, @eq_comm _ t]
            · simp [hk]
    · simp [hns]
  · rename_i hf
    refine (or_iff_left ?_).symm
    rintro ⟨owner, ⟨_, _, _, _, _, h, -⟩, -⟩
    exact hf _ _ _ _ _ _ h

/-! ## what all lines add -/

section
variable (lines : List Text) (k : κ)

theorem mem_glue_iff (ip : IpAddr) :
    ip ∈ (firstPass zn lines).glue.values k ↔
      ∃ line ∈ lines, ∃ owner, AddressLine zn line owner ip ∧ zn.key owner = k := by
  have hrun := Run.foldl_iff_exists (I := fun p : FirstPass zn => ip ∈ p.glue.values k)
    (fun p line => mem_line_glue p line k ip) lines (FirstPass.new zn)
  exact hrun.trans (or_iff_right List.not_mem_nil)

theorem get_delegations_iff :
    ((firstPass zn lines).delegations.get k).isSome ↔
      ∃ line ∈ lines, ∃ owner target, NsLine zn line owner target ∧ zn.key owner = k := by
  have hrun := Run.foldl_iff_exists (I := fun p : FirstPass zn => (p.delegations.get k).isSome = true)
    (fun p line => get_line_delegations p line k) lines (FirstPass.new zn)
  exact hrun.trans (or_iff_right Bool.false_ne_true)

theorem mem_nsOwners_iff (target : ν) :
    target ∈ (nsOwners zn lines).values k ↔
      ∃ line ∈ lines, ∃ owner, NsLine zn line owner target ∧ zn.key owner = k := by
  have hrun := Run.foldl_iff_exists (I := fun m : KeyedMap zn.key (List ν) => target ∈ m.values k)
    (fun m line => mem_nsOwnersLine m line k target) lines .empty
  exact hrun.trans (or_iff_right List.not_mem_nil)

end

theorem noServers_first (lines : List Text) : NoServers (firstPass zn lines).delegations :=
  List.foldlRecOn (motive := fun p : FirstPass zn => NoServers p.delegations) lines _ noServers_new
    fun _ h line _ => noServers_line line h

/-! ## the join -/

theorem mem_addServers (glue : KeyedMap zn.key (List IpAddr)) (nsNames : List ν)
    (del : RootZoneDelegation) (ip : IpAddr) :
    ip ∈ (addServers glue nsNames del).servers ↔
      ip ∈ del.servers ∨ ∃ ns ∈ nsNames, ip ∈ glue.values (zn.key ns) := by
  refine Run.foldl_iff_exists (I := fun del : RootZoneDelegation => ip ∈ del.servers)
    (fun del ns => ?_) nsNames del
  unfold KeyedMap.values
  cases glue.get (zn.key ns) with
  | none => simp
  | some ips => exact List.mem_append

theorem get_joinServers (glue : KeyedMap zn.key (List IpAddr))
    (nsOwners : KeyedMap zn.key (List ν)) (dels : KeyedMap zn.key RootZoneDelegation) (k : κ) :
    (joinServers glue nsOwners dels).get k =
      (dels.get k).map (addServers glue (nsOwners.values k)) := by
  unfold joinServers KeyedMap.values
  rw [KeyedMap.get_foldl_modify]
  cases nsOwners.get k with
  | none => exact Option.map_id'.symm
  | some nsNames => rfl

theorem mem_joined_servers {lines : List Text} {z : κ} {del : RootZoneDelegation}
    (h : (firstPass zn lines).delegations.get z = some del) (ip : IpAddr) :
    ip ∈ (addServers (firstPass zn lines).glue ((nsOwners zn lines).values z) del).servers ↔
      ServedBy zn lines z ip := by
  have hnone := noServers_first lines z del h
  rw [mem_addServers, hnone, or_iff_right List.not_mem_nil]
  simp only [mem_nsOwners_iff, mem_glue_iff]
  constructor
  · rintro ⟨target, ⟨line, hl, owner, hns, ho⟩, haddr⟩
    exact ⟨line, hl, owner, target, hns, ho, haddr⟩
  · rintro ⟨line, hl, owner, target, hns, ho, haddr⟩
    exact ⟨target, ⟨line, hl, owner, hns, ho⟩, haddr⟩

theorem get_parsedDelegations (lines : List Text) (z : κ) :
    (∀ del, (parsedDelegations zn lines).get z = some del →
      ∀ ip, ip ∈ del.servers ↔ ServedBy zn lines z ip) ∧
    (((parsedDelegations zn lines).get z).isSome ↔ ∃ ip, ServedBy zn lines z ip) := by
  unfold parsedDelegations
  rw [KeyedMap.get_retain, get_joinServers]
  cases hdel : (firstPass zn lines).delegations.get z with
  | none =>
    refine ⟨fun _ h => (by cases h), iff_of_false Bool.false_ne_true ?_⟩
    rintro ⟨ip, line, hl, owner, target, hns, ho, -⟩
    have hsome := (get_delegations_iff lines z).mpr ⟨line, hl, owner, target, hns, ho⟩
    rw [hdel] at hsome
    exact absurd hsome Bool.false_ne_true
  | some del =>
    have hmem := mem_joined_servers hdel
    rw [Option.map_some]
    constructor
    · intro del' h
      obtain ⟨hdel', -⟩ := Option.filter_eq_some_iff.mp h
      obtain rfl := Option.some.inj hdel'
      exact hmem
    · rw [exists_congr fun ip => (hmem ip).symm, ← List.isEmpty_eq_false_iff_exists_mem,
        Option.isSome_filter, Option.any_some, Bool.not_eq_true']

/-! ## what is parsed -/

def ParsedZone.owners (data : ParsedZone zn) : Set κ :=
  {z | ∃ e ∈ data.delegations.entries, zn.key e.1 = z}

def ParsedZone.serversOf (data : ParsedZone zn) (z : κ) : Set IpAddr :=
  {ip | ∃ e ∈ data.delegations.entries, zn.key e.1 = z ∧ ip ∈ e.2.servers}

theorem parseLines_eq_ok {now : Nat} {sourceUrl : Text} {lines : List Text} {data : ParsedZone zn}
    (h : parseLines zn now sourceUrl lines = .ok data) :
    data.delegations = parsedDelegations zn lines := by
  unfold parseLines at h
  split at h
  · cases h
  · obtain rfl := Except.ok.inj h
    rfl

theorem parseLines_ok_iff (now : Nat) (sourceUrl : Text) (lines : List Text) :
    (∃ data, parseLines zn now sourceUrl lines = .ok data) ↔ ∃ z ip, ServedBy zn lines z ip := by
  have hex : (∃ z ip, ServedBy zn lines z ip) ↔ (parsedDelegations zn lines).entries ≠ [] := by
    constructor
    · rintro ⟨z, ip, hs⟩ hnil
      have hsome := (get_parsedDelegations lines z).2.mpr ⟨ip, hs⟩
      obtain ⟨del, hdel⟩ := Option.isSome_iff_exists.mp hsome
      obtain ⟨e, he, -⟩ := KeyedMap.mem_of_get hdel
      rw [hnil] at he
      exact absurd he List.not_mem_nil
    · intro hne
      obtain ⟨e, he⟩ := List.exists_mem_of_ne_nil _ hne
      have hget := KeyedMap.get_of_mem _ he
      exact ⟨_, (get_parsedDelegations lines _).2.mp (by rw [hget]; rfl)⟩
  rw [hex]
  unfold parseLines
  split
  · rename_i hnil
    refine iff_of_false ?_ (not_not.mpr hnil)
    rintro ⟨_, h⟩
    cases h
  · rename_i hne
    exact iff_of_true ⟨_, rfl⟩ hne

section
variable {now : Nat} {sourceUrl : Text} {lines : List Text} {data : ParsedZone zn}
  (h : parseLines zn now sourceUrl lines = .ok data)
include h

theorem parseLines_owners : data.owners = {z | ∃ ip, ServedBy zn lines z ip} := by
  ext z
  show (∃ e ∈ data.delegations.entries, zn.key e.1 = z) ↔ ∃ ip, ServedBy zn lines z ip
  rw [parseLines_eq_ok h, ← (get_parsedDelegations lines z).2]
  constructor
  · rintro ⟨e, he, rfl⟩
    rw [KeyedMap.get_of_mem _ he]
    rfl
  · intro hsome
    obtain ⟨del, hdel⟩ := Option.isSome_iff_exists.mp hsome
    obtain ⟨e, he, hk, -⟩ := KeyedMap.mem_of_get hdel
    exact ⟨e, he, hk⟩

theorem parseLines_serversOf (z : κ) : data.serversOf z = {ip | ServedBy zn lines z ip} := by
  ext ip
  show (∃ e ∈ data.delegations.entries, zn.key e.1 = z ∧ ip ∈ e.2.servers) ↔ ServedBy zn lines z ip
  rw [parseLines_eq_ok h]
  constructor
  · rintro ⟨e, he, rfl, hip⟩
    exact ((get_parsedDelegations lines _).1 _ (KeyedMap.get_of_mem _ he) ip).mp hip
  · intro hs
    have hsome := (get_parsedDelegations lines z).2.mpr ⟨ip, hs⟩
    obtain ⟨del, hdel⟩ := Option.isSome_iff_exists.mp hsome
    have hip := ((get_parsedDelegations lines z).1 del hdel ip).mpr hs
    obtain ⟨e, he, hk, rfl⟩ := KeyedMap.mem_of_get hdel
    exact ⟨e, he, hk, hip⟩

end

omit [DecidableEq κ] in
theorem servedBy_perm {lines lines' : List Text} (hperm : lines.Perm lines') (z : κ) (ip : IpAddr) :
    ServedBy zn lines z ip ↔ ServedBy zn lines' z ip := by
  unfold ServedBy
  simp only [hperm.mem_iff]

end

/-- **The parser joins NS and address lines in whatever order they come.**  It succeeds exactly if
a zone other than the root has an NS line whose target has an address line; the zones it keeps are
exactly these, and the servers of a zone exactly the addresses of the targets of its NS lines.  So
a permutation of the lines makes no difference. -/
theorem parseLines_joins {ν κ : Type} [DecidableEq κ] (zn : ZoneNames ν κ) (now : Nat)
    (sourceUrl : Text) (lines : List Text) :
    ((∃ data, parseLines zn now sourceUrl lines = .ok data) ↔ ∃ z ip, ServedBy zn lines z ip) ∧
    (∀ data, parseLines zn now sourceUrl lines = .ok data →
      data.owners = {z | ∃ ip, ServedBy zn lines z ip} ∧
      ∀ z, data.serversOf z = {ip | ServedBy zn lines z ip}) ∧
    ∀ lines', lines.Perm lines' →
      ((∃ data, parseLines zn now sourceUrl lines = .ok data) ↔
        ∃ data, parseLines zn now sourceUrl lines' = .ok data) ∧
      ∀ data data', parseLines zn now sourceUrl lines = .ok data →
        parseLines zn now sourceUrl lines' = .ok data' →
        data.owners = data'.owners ∧ ∀ z, data.serversOf z = data'.serversOf z := by
  refine ⟨parseLines_ok_iff now sourceUrl lines,
    fun data h => ⟨parseLines_owners h, parseLines_serversOf h⟩, fun lines' hperm => ⟨?_, ?_⟩⟩
  · rw [parseLines_ok_iff, parseLines_ok_iff]
    simp only [servedBy_perm hperm]
  · intro data data' h h'
    refine ⟨?_, fun z => ?_⟩
    · rw [parseLines_owners h, parseLines_owners h']
      simp only [servedBy_perm hperm]
    · rw [parseLines_serversOf h, parseLines_serversOf h']
      simp only [servedBy_perm hperm]

-- glue before the delegation, which comes twice
example : ((parseRootZone ⟨some, List.map Char.toLower, (· == ['.'])⟩ 0
    "a.gtld. 1 IN A 192.5.6.30 ; glue\nCOM. 1 IN NS A.gtld.\ncom. 1 IN NS a.gtld.\n".toList
    []).toOption.map fun data => data.delegations.entries.map fun e => e.2.servers) =
    some [[.V4 ⟨#v[192, 5, 6, 30]⟩, .V4 ⟨#v[192, 5, 6, 30]⟩]] := by decide +kernel

end DnsResolver
