import Mathlib.Data.Char
import PbsGui.Lib.Selection
import PbsGui.Lib.Text
import PbsGui.Lib.Utf8

/-!
# Discovery of SQL Server instances

The registry of the host lists its own instances, and the SQL Server Browser of other
hosts answers with theirs (`discover.rs`, `ssrp.rs`).  An answer is one flat text of keys
and values between semicolons, where a doubled semicolon ends an instance.  As long as no field
is empty the two splits cannot be mistaken for each other.

All instances are sorted by server, and what the list had first for a server is left of it.
-/

namespace PbsGui.Engine.Discovery

open Lib List

/-- How an instance was found during discovery. -/
inductive SqlDiscoverySource
  | localRegistry
  | browser
  | networkScan
  | activeDirectory
  deriving DecidableEq

/-- Which login types an instance accepts. -/
inductive SqlAuthMode
  | windowsOnly
  | mixed
  | unknown
  deriving DecidableEq

/-- One discovered instance; `Probe` is what connecting to one gives. -/
structure SqlInstance (Probe : Type) where
  /-- The host for the default instance, otherwise `HOST\NAME`. -/
  server : List Char
  instanceName : List Char
  host : List Char
  port : Option UInt16
  source : SqlDiscoverySource
  running : Option Bool
  serviceAccount : Option (List Char)
  authMode : SqlAuthMode
  clustered : Option Bool
  tcpEnabled : Option Bool
  probe : Option Probe
  probeError : Option (List Char)
  deriving DecidableEq

variable {Probe : Type}

/-- What `parse_response` has read of one instance. -/
structure BrowserFields where
  serverName : List Char
  instanceName : List Char
  port : Option UInt16
  clustered : Option Bool

def BrowserFields.empty : BrowserFields := ⟨[], [], none, none⟩

def parsePortField (value : List Char) : Option UInt16 :=
  (fromStrRadix 10 (2 ^ 16) (Lib.trim value)).map UInt16.ofNat

/-- Whether a value says yes, in any letter case. -/
def saysYes (value : List Char) : Bool := value.map Char.toLower == "yes".toList

/-- One key with its value; keys are compared in lower case, and the last value of a key
counts. -/
def BrowserFields.readPair (fields : BrowserFields) (key value : List Char) : BrowserFields :=
  let key := key.map Char.toLower
  if key = "servername".toList then { fields with serverName := value }
  else if key = "instancename".toList then { fields with instanceName := value }
  else if key = "tcp".toList then { fields with port := parsePortField value }
  else if key = "isclustered".toList then { fields with clustered := some (saysYes value) }
  else fields

/-- The fields of an instance two by two; a last one alone is not read. -/
def BrowserFields.readPairs (fields : BrowserFields) : List (List Char) → BrowserFields
  | key :: value :: rest => (fields.readPair key value).readPairs rest
  | _ => fields

/-- The name an instance connects by: the default instance has its host's. -/
def serverOf (host instanceName : List Char) : List Char :=
  if instanceName.map Char.toLower = "mssqlserver".toList then host
  else host ++ '\\' :: instanceName

/-- What was read of an instance that named its server. -/
def BrowserFields.toInstance (fields : BrowserFields) (source : SqlDiscoverySource) :
    Option (SqlInstance Probe) :=
  if fields.serverName.isEmpty then none
  else
    let instanceName :=
      if fields.instanceName.isEmpty then "MSSQLSERVER".toList else fields.instanceName
    some
      { server := serverOf fields.serverName instanceName
        instanceName := instanceName
        host := fields.serverName
        port := fields.port
        source := source
        -- it answered the browser
        running := some true
        serviceAccount := none
        authMode := .unknown
        clustered := fields.clustered
        -- a port is advertised only if TCP/IP is enabled
        tcpEnabled := fields.port.map fun _ => true
        probe := none
        probeError := none }

/-- The instances of a response `0x05 len_lo len_hi <text>`. -/
def parseResponse (packet : Bytes) (source : SqlDiscoverySource) : List (SqlInstance Probe) :=
  match packet with
  | kind :: _ :: _ :: text =>
    if kind = 0x05 then
      (splitText [';', ';'] (fromUtf8Lossy text)).filterMap fun chunk =>
        (BrowserFields.empty.readPairs (chunk.splitOn ';')).toInstance source
    else []
  | _ => []

/-- The instances of all answers that came before the deadline. -/
def collect (packets : List Bytes) (source : SqlDiscoverySource) : List (SqlInstance Probe) :=
  packets.flatMap fun packet => parseResponse packet source

/-- A field of an answer: ASCII, not empty and without a semicolon. -/
def IsBrowserField (field : List Char) : Prop :=
  field ≠ [] ∧ ∀ c ∈ field, c.toNat < 0x80 ∧ c ≠ ';'

instance (field : List Char) : Decidable (IsBrowserField field) :=
  @instDecidableAnd _ _ _ (List.decidableBAll _ field)

/-- The values that a list of keys and values has for a key, in lower case. -/
def valuesOf (key : String) (pairs : List (List Char × List Char)) : List (List Char) :=
  (pairs.filter fun pair => pair.1.map Char.toLower = key.toList).map (·.2)

/-- An instance as a server announces it, and the keys and values it is announced by: the
known keys in any letter case and any order, among any others. -/
structure Announcement where
  host : List Char
  instanceName : List Char
  port : Option UInt16
  clustered : Option Bool
  pairs : List (List Char × List Char)
  isField : ∀ pair ∈ pairs, IsBrowserField pair.1 ∧ IsBrowserField pair.2
  host_values : valuesOf "servername" pairs = [host]
  instanceName_values : valuesOf "instancename" pairs = [instanceName]
  port_values : valuesOf "tcp" pairs = port.toList.map fun port => Nat.toDigits 10 port.toNat
  clustered_values : (valuesOf "isclustered" pairs).map saysYes = clustered.toList

namespace Announcement

def fields (announced : Announcement) : List (List Char) :=
  announced.pairs.flatMap fun pair => [pair.1, pair.2]

/-- The text of an instance, ended by a doubled semicolon. -/
def text (announced : Announcement) : List Char :=
  [';'].intercalate announced.fields ++ [';', ';']

def reported (announced : Announcement) (source : SqlDiscoverySource) : SqlInstance Probe where
  server := serverOf announced.host announced.instanceName
  instanceName := announced.instanceName
  host := announced.host
  port := announced.port
  source := source
  running := some true
  serviceAccount := none
  authMode := .unknown
  clustered := announced.clustered
  tcpEnabled := announced.port.map fun _ => true
  probe := none
  probeError := none

end Announcement

def asciiBytes (text : List Char) : Bytes := text.map fun c => UInt8.ofNat c.toNat

theorem fromUtf8Lossy_asciiBytes {text : List Char} (h : ∀ c ∈ text, c.toNat < 0x80) :
    fromUtf8Lossy (asciiBytes text) = text := by
  have hbyte : ∀ c ∈ text, (UInt8.ofNat c.toNat).toNat = c.toNat := fun c hc =>
    UInt8.toNat_ofNat_of_lt' (Nat.lt_trans (h c hc) (by decide))
  have hlow : ∀ byte ∈ asciiBytes text, byte.toNat < 0x80 := by
    intro byte hmem
    obtain ⟨c, hc, rfl⟩ := mem_map.mp hmem
    rw [hbyte c hc]
    exact h c hc
  have hread := fromUtf8Lossy_front hlow []
  rw [append_nil, fromUtf8Lossy_nil, append_nil] at hread
  rw [hread, asciiBytes, map_map]
  refine (map_congr_left fun c hc => ?_).trans (map_id text)
  simp [byteChar, hbyte c hc]

theorem splitText_fields {fields : List (List Char)} (hsome : fields ≠ [])
    (hfield : ∀ field ∈ fields, IsBrowserField field) (rest : List Char) :
    splitText [';', ';'] ([';'].intercalate fields ++ [';', ';'] ++ rest) =
      [';'].intercalate fields :: splitText [';', ';'] rest := by
  induction fields with
  | nil => exact absurd rfl hsome
  | cons field later ih =>
    have hfree : ';' ∉ field := fun h => ((hfield field mem_cons_self).2 ';' h).2 rfl
    cases later with
    | nil =>
      rw [intercalate_singleton, append_assoc, splitText_append_of_not_mem hfree,
        splitText_needle_append (by decide), modifyHead_cons, append_nil]
    | cons next later =>
      have hnext := hfield next (mem_cons_of_mem _ mem_cons_self)
      -- the next field begins with another character, so one semicolon stands alone
      have halone : ¬ [';', ';'] <+:
          ';' :: ([';'].intercalate (next :: later) ++ [';', ';'] ++ rest) := by
        obtain ⟨c, tail, rfl⟩ := exists_cons_of_ne_nil hnext.1
        intro hpref
        have hsnd := (cons_prefix_cons.mp hpref).2
        have hfront := (prefix_intercalate [';'] (c :: tail) later).trans
          ((prefix_append _ [';', ';']).trans (prefix_append _ rest))
        have hbegins : [';'] <+: c :: tail :=
          prefix_of_prefix_length_le hsnd hfront (Nat.succ_le_succ (Nat.zero_le _))
        exact (hnext.2 c mem_cons_self).2 (cons_prefix_cons.mp hbegins).1.symm
      have hlater := ih (cons_ne_nil _ _) fun other hother =>
        hfield other (mem_cons_of_mem _ hother)
      rw [intercalate_cons_cons, append_assoc, append_assoc, append_assoc,
        splitText_append_of_not_mem hfree, singleton_append,
        splitText_cons_of_not_prefix (by simpa using halone), ← append_assoc, hlater]
      simp

/-! ### The pairs of an instance -/

namespace BrowserFields

theorem readPairs_eq (fields : BrowserFields) (pairs : List (List Char × List Char)) :
    fields.readPairs (pairs.flatMap fun pair => [pair.1, pair.2]) =
      ⟨(valuesOf "servername" pairs).getLastD fields.serverName,
        (valuesOf "instancename" pairs).getLastD fields.instanceName,
        ((valuesOf "tcp" pairs).map parsePortField).getLastD fields.port,
        ((valuesOf "isclustered" pairs).map fun value => some (saysYes value)).getLastD
          fields.clustered⟩ := by
  induction pairs generalizing fields with
  | nil => rfl
  | cons pair pairs ih =>
    rw [flatMap_cons, cons_append, cons_append, nil_append, readPairs, ih]
    have hvals : ∀ key, valuesOf key (pair :: pairs) =
        if pair.1.map Char.toLower = key.toList then pair.2 :: valuesOf key pairs
        else valuesOf key pairs := by
      intro key
      rw [valuesOf, filter_cons]
      split <;> simp_all [valuesOf]
    rw [hvals, hvals, hvals, hvals, readPair]
    -- which of the known keys it is, if any
    by_cases hserver : pair.1.map Char.toLower = "servername".toList
    · simp [hserver, getLastD_cons, -getLastD_eq_getLast?]
    by_cases hinstance : pair.1.map Char.toLower = "instancename".toList
    · simp [hinstance, getLastD_cons, -getLastD_eq_getLast?]
    by_cases htcp : pair.1.map Char.toLower = "tcp".toList
    · simp [htcp, getLastD_cons, -getLastD_eq_getLast?]
    by_cases hclustered : pair.1.map Char.toLower = "isclustered".toList
    · simp [hclustered, getLastD_cons, -getLastD_eq_getLast?]
    · simp only [hserver, hinstance, htcp, hclustered, if_false]

end BrowserFields

namespace Announcement

variable (announced : Announcement)

theorem toInstance_readPairs (source : SqlDiscoverySource) :
    (BrowserFields.empty.readPairs announced.fields).toInstance source =
      some (announced.reported source : SqlInstance Probe) := by
  have hhost : IsBrowserField announced.host ∧ IsBrowserField announced.instanceName := by
    have hvalue : ∀ key value, value ∈ valuesOf key announced.pairs → IsBrowserField value := by
      intro key value hmem
      obtain ⟨pair, hpair, rfl⟩ := mem_map.mp hmem
      exact (announced.isField pair (mem_of_mem_filter hpair)).2
    exact ⟨hvalue "servername" _ (announced.host_values ▸ mem_singleton_self _),
      hvalue "instancename" _ (announced.instanceName_values ▸ mem_singleton_self _)⟩
  have hport : (announced.port.toList.map fun port =>
      parsePortField (Nat.toDigits 10 port.toNat)).getLastD none = announced.port := by
    cases announced.port with
    | none => rfl
    | some port =>
      have htrim : Lib.trim (Nat.toDigits 10 port.toNat) = Nat.toDigits 10 port.toNat := by
        have hdigit : ∀ c ∈ Nat.toDigits 10 port.toNat, Lib.isWhiteSpace c = false := fun c hc =>
          @isWhiteSpace_digit 10 _ (by rw [digitValue_of_mem_toDigits hc]; rfl)
        exact trim_eq_self (fun c hc => hdigit c (mem_of_mem_head? hc))
          fun c hc => hdigit c (mem_of_getLast? hc)
      simp [parsePortField, htrim, fromStrRadix_toDigits port.toNat_lt]
  have hclustered : ((valuesOf "isclustered" announced.pairs).map fun value =>
      some (saysYes value)).getLastD none = announced.clustered := by
    have hmap := congrArg (map some) announced.clustered_values
    rw [map_map] at hmap
    refine (congrArg (getLastD · none) hmap).trans ?_
    cases announced.clustered <;> rfl
  rw [fields, BrowserFields.readPairs_eq, announced.host_values, announced.instanceName_values,
    announced.port_values, map_map]
  simp only [BrowserFields.empty, getLastD_cons, getLastD_nil]
  rw [hclustered]
  refine Eq.trans (congrArg (BrowserFields.toInstance · source)
    (congrArg (BrowserFields.mk announced.host announced.instanceName · announced.clustered)
      hport)) ?_
  simp [BrowserFields.toInstance, reported, hhost.1.1, hhost.2.1]

theorem fields_ne_nil : announced.fields ≠ [] := by
  have hsome : announced.pairs ≠ [] := by
    intro hnil
    have hhost := announced.host_values
    rw [hnil] at hhost
    cases hhost
  obtain ⟨pair, pairs, hpairs⟩ := exists_cons_of_ne_nil hsome
  rw [fields, hpairs]
  exact cons_ne_nil _ _

theorem isBrowserField_of_mem {field : List Char} (h : field ∈ announced.fields) :
    IsBrowserField field := by
  obtain ⟨pair, hpair, hfield⟩ := mem_flatMap.mp h
  have hboth := announced.isField pair hpair
  rcases mem_cons.mp hfield with rfl | hvalue
  · exact hboth.1
  · rw [mem_singleton.mp hvalue]
    exact hboth.2

theorem text_ascii : ∀ c ∈ announced.text, c.toNat < 0x80 := by
  intro c hc
  have hsemicolon : c = ';' → c.toNat < 0x80 := fun h => h ▸ by decide
  rcases mem_append.mp hc with hfields | hend
  · rcases mem_of_mem_intercalate hfields with hsep | ⟨field, hfield, hmem⟩
    · exact hsemicolon (mem_singleton.mp hsep)
    · exact ((announced.isBrowserField_of_mem hfield).2 c hmem).1
  · exact hsemicolon (by simpa using hend)

end Announcement

/-- An answer of announced instances is parsed as these instances. -/
theorem parseResponse_announced (lenLo lenHi : UInt8) (source : SqlDiscoverySource)
    (announced : List Announcement) :
    parseResponse (0x05 :: lenLo :: lenHi :: asciiBytes (announced.flatMap Announcement.text))
        source =
      announced.map fun one => (one.reported source : SqlInstance Probe) := by
  have hascii : ∀ c ∈ announced.flatMap Announcement.text, c.toNat < 0x80 := by
    intro c hc
    obtain ⟨one, -, hone⟩ := mem_flatMap.mp hc
    exact one.text_ascii c hone
  rw [parseResponse, if_pos rfl, fromUtf8Lossy_asciiBytes hascii]
  clear hascii
  induction announced with
  | nil => rfl
  | cons one later ih =>
    have hfree : ∀ field ∈ one.fields, ';' ∉ field := fun field hfield hmem =>
      ((one.isBrowserField_of_mem hfield).2 ';' hmem).2 rfl
    rw [flatMap_cons, Announcement.text,
      splitText_fields one.fields_ne_nil fun field => one.isBrowserField_of_mem,
      filterMap_cons, splitOn_intercalate ';' hfree one.fields_ne_nil,
      one.toInstance_readPairs, ih, map_cons]

/-- The default instance of a host and a clustered one beside it; keys differ in case and
order, and a version is mixed in. -/
theorem twoInstances_parsed :
    parseResponse (0x05 :: 0 :: 0 :: asciiBytes
        ("ServerName;S;InstanceName;MSSQLSERVER;tcp;1433;;".toList ++
          "TCP;80;V;1;instancename;X;IsClustered;Yes;SERVERNAME;S;;".toList)) .browser =
      [({ server := ['S'], instanceName := "MSSQLSERVER".toList, host := ['S'],
          port := some 1433, source := .browser, running := some true, serviceAccount := none,
          authMode := .unknown, clustered := none, tcpEnabled := some true, probe := none,
          probeError := none } : SqlInstance Unit),
        { server := ['S', '\\', 'X'], instanceName := ['X'], host := ['S'], port := some 80,
          source := .browser, running := some true, serviceAccount := none,
          authMode := .unknown, clustered := some true, tcpEnabled := some true, probe := none,
          probeError := none }] :=
  parseResponse_announced 0 0 .browser
    [{ host := ['S'], instanceName := "MSSQLSERVER".toList, port := some 1433, clustered := none
       pairs := [("ServerName".toList, ['S']), ("InstanceName".toList, "MSSQLSERVER".toList),
        ("tcp".toList, "1433".toList)]
       isField := by decide
       host_values := by decide
       instanceName_values := by decide
       port_values := by decide
       clustered_values := by decide },
      { host := ['S'], instanceName := ['X'], port := some 80, clustered := some true
        pairs := [("TCP".toList, "80".toList), (['V'], ['1']), ("instancename".toList, ['X']),
          ("IsClustered".toList, "Yes".toList), ("SERVERNAME".toList, ['S'])]
        isField := by decide
        host_values := by decide
        instanceName_values := by decide
        port_values := by decide
        clustered_values := by decide }]

/-- An octet of an IPv4 address: at most three digits, without a leading zero. -/
def parseOctet (text : List Char) : Option Nat :=
  if text.all Char.isDigit ∧ text.length ≤ 3 ∧ (text.head? = some '0' → text.length = 1) then
    fromStrRadix 10 256 text
  else none

def parseIpv4Addr (text : List Char) : Option UInt32 :=
  match text.splitOn '.' with
  | [first, second, third, fourth] => do
    let first ← parseOctet first
    let second ← parseOctet second
    let third ← parseOctet third
    let fourth ← parseOctet fourth
    some (UInt32.ofNat (((first * 256 + second) * 256 + third) * 256 + fourth))
  | _ => none

def ipv4Text (ip : UInt32) : List Char :=
  ['.'].intercalate (([24, 16, 8, 0] : List UInt32).map fun shift =>
    Nat.toDigits 10 ((ip >>> shift) &&& 0xFF).toNat)

/-- The addresses of a subnet whose first `length` bits are those of `ip`; the network
and the broadcast address of an ordinary subnet are skipped. -/
def expandSubnet (ip : UInt32) (length : Nat) : List UInt32 :=
  if 22 ≤ length ∧ length ≤ 32 then
    let bits := 32 - length
    -- fewer than 32 bits are shifted out, so `checked_shl` always shifts
    let base := ip &&& (0xFFFFFFFF <<< UInt32.ofNat bits)
    let count := 1 <<< bits
    let (start, stop) := if length ≤ 30 then (1, count - 1) else (0, count)
    (List.range' start (stop - start)).map fun i => base + UInt32.ofNat i
  else []

/-- The hosts a target stands for: one host as it is, or those of an IPv4 subnet of at
most 1024 addresses. -/
def expandTarget (target : List Char) : List (List Char) :=
  let target := Lib.trim target
  match splitOnce '/' target with
  | none => if target.isEmpty then [] else [target]
  | some (net, length) =>
    match parseIpv4Addr (Lib.trim net), fromStrRadix 10 (2 ^ 32) (Lib.trim length) with
    | some ip, some length => (expandSubnet ip length).map ipv4Text
    | _, _ => []

def serverKey (found : SqlInstance Probe) : List Char := found.server.map Char.toLower

/-- Whether two instances have one server, compared without case. -/
def sameServer (found other : SqlInstance Probe) : Bool := serverKey found == serverKey other

/-- The instances of the host, and with `includeNetwork` also those that answered the
broadcast and the queries to the targets' hosts. -/
def discover (localInstances broadcast : List (SqlInstance Probe))
    (scan : List (List Char) → List (SqlInstance Probe)) (includeNetwork : Bool)
    (targets : List (List Char)) : List (SqlInstance Probe) :=
  let instances := localInstances ++
    if includeNetwork then broadcast ++ scan (targets.flatMap expandTarget) else []
  dedupBy sameServer (sortByKey serverKey instances)

theorem sameServer_iff (found other : SqlInstance Probe) :
    sameServer found other = true ↔ serverKey found = serverKey other :=
  beq_iff_eq

end PbsGui.Engine.Discovery
