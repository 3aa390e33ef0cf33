import PbsGui.Client.Primitives
import PbsGui.Lib.EventRuns
import PbsGui.Lib.Text

/-!
# Repository strings

A repository is written as `[[auth-id@]host[:port]:]datastore[/namespace]`
(`repository.rs`).  The auth id ends at the last `@`, a host in brackets at the first
closing one, and the namespace begins at the first slash of the store field.

A string that is accepted is displayed as one that parses to the same repository.  The
datastore of an accepted string has no slash, except that a store field with nothing
behind its only slash keeps the slash in the datastore.
-/

namespace PbsGui.Client

open Lib List

abbrev Text := List Char

/-- A parsed PBS repository reference. -/
structure Repository where
  /-- Auth id (`user@realm`, optionally with a token). -/
  authId : Option Text
  /-- Server host or IP. -/
  host : Option Text
  /-- TCP port. -/
  port : Option UInt16
  /-- Datastore name. -/
  datastore : Text
  /-- Optional namespace path within the datastore. -/
  nsPath : Option Text
  deriving DecidableEq

section Parser

-- How a text is shown in an error (`{:?}`).
variable (debug : Text → String)

def parsePort (s ctx : Text) : Except PbsError UInt16 :=
  match fromStrRadix 10 (2 ^ 16) s with
  | some port => .ok (UInt16.ofNat port)
  | none => .error (.invalidRepository ("invalid port " ++ debug s ++ " in " ++ debug ctx))

/-- Parse the tail after an IPv6 host: either `port:datastore` or `datastore`. -/
def splitPortDatastore (tail ctx : Text) : Except PbsError (Option UInt16 × Text) :=
  match splitOnce ':' tail with
  | some (port, datastore) => do
    let port ← parsePort debug port ctx
    .ok (some port, datastore)
  | none => .ok (none, tail)

/-- Parse `host[:port]:datastore`, `host:datastore` or `datastore`, with an optional
bracketed IPv6 host. -/
def parseHostPart (rest : Text) : Except PbsError (Option Text × Option UInt16 × Text) :=
  match rest with
  | '[' :: afterBracket =>
    match splitOnce ']' afterBracket with
    | none => .error (.invalidRepository ("unclosed '[' in " ++ debug rest))
    | some (host, ':' :: tail) => do
      let (port, datastore) ← splitPortDatastore debug tail rest
      .ok (some ('[' :: (host ++ [']'])), port, datastore)
    | some (_, _) => .error (.invalidRepository ("expected ':' after ']' in " ++ debug rest))
  | _ =>
    match rest.splitOn ':' with
    | [datastore] => .ok (none, none, datastore)
    | [host, datastore] => .ok (some host, none, datastore)
    | [host, port, datastore] => do
      let port ← parsePort debug port rest
      .ok (some host, some port, datastore)
    | _ => .error (.invalidRepository ("too many ':' separated fields in " ++ debug rest))

/-- Split the auth id, which may contain `@`, from the host part, which never does. -/
def splitAuth (s : Text) : Option Text × Text :=
  match rsplitOnce '@' s with
  | some (auth, rest) => (some auth, rest)
  | none => (none, s)

/-- Split an optional namespace path off the store field. -/
def splitNamespace (storeAndNs : Text) : Text × Option Text :=
  match splitOnce '/' storeAndNs with
  | some (datastore, nsPath) => if nsPath ≠ [] then (datastore, some nsPath) else (storeAndNs, none)
  | none => (storeAndNs, none)

/-- `Repository::from_str`. -/
def fromStr (s : Text) : Except PbsError Repository :=
  let s := trim s
  if s = [] then .error (.invalidRepository "empty string")
  else
    let (authId, rest) := splitAuth s
    match parseHostPart debug rest with
    | .error error => .error error
    | .ok (host, port, storeAndNs) =>
      let (datastore, nsPath) := splitNamespace storeAndNs
      if datastore = [] then
        .error (.invalidRepository ("missing datastore in " ++ debug s))
      else
        .ok { authId := authId, host := host, port := port, datastore := datastore,
              nsPath := nsPath }

end Parser

def portText (port : UInt16) : Text := Nat.toDigits 10 port.toNat

def displayHost (host : Option Text) (port : Option UInt16) : Text :=
  match host with
  | none => []
  | some host => host ++ port.elim [] (fun port => ':' :: portText port) ++ [':']

def displayAuth (authId : Option Text) : Text := authId.elim [] (· ++ ['@'])

/-- `Display` of a repository. -/
def Repository.display (repository : Repository) : Text :=
  displayAuth repository.authId ++ displayHost repository.host repository.port ++
    repository.datastore ++ repository.nsPath.elim [] ('/' :: ·)

/-! ### What each route reads -/

/-- The host part of an accepted string, its host, its port and its store field. -/
inductive HostRoute : Text → Option Text → Option UInt16 → Text → Prop
  | bare {store : Text} (hbracket : store.head? ≠ some '[') (hstore : ':' ∉ store) :
      HostRoute store none none store
  | host {host store : Text} (hbracket : host.head? ≠ some '[') (hhost : ':' ∉ host)
      (hstore : ':' ∉ store) : HostRoute (host ++ ':' :: store) (some host) none store
  | hostPort {host spelled store : Text} {port : UInt16} (hbracket : host.head? ≠ some '[')
      (hhost : ':' ∉ host) (hspelled : ':' ∉ spelled)
      (hport : fromStrRadix 10 (2 ^ 16) spelled = some port.toNat) (hstore : ':' ∉ store) :
      HostRoute (host ++ ':' :: (spelled ++ ':' :: store)) (some host) (some port) store
  | bracket {host store : Text} (hhost : ']' ∉ host) (hstore : ':' ∉ store) :
      HostRoute ('[' :: (host ++ ']' :: ':' :: store)) (some ('[' :: (host ++ [']']))) none store
  -- behind a bracketed host and a port, the store field may have colons
  | bracketPort {host spelled store : Text} {port : UInt16} (hhost : ']' ∉ host)
      (hspelled : ':' ∉ spelled) (hport : fromStrRadix 10 (2 ^ 16) spelled = some port.toNat) :
      HostRoute ('[' :: (host ++ ']' :: ':' :: (spelled ++ ':' :: store)))
        (some ('[' :: (host ++ [']']))) (some port) store

section Routes

variable {debug : Text → String} {rest store spelled ctx : Text} {host : Option Text}
  {port : Option UInt16}

theorem parsePort_ok_iff {port : UInt16} :
    parsePort debug spelled ctx = .ok port ↔
      fromStrRadix 10 (2 ^ 16) spelled = some port.toNat := by
  unfold parsePort
  cases hread : fromStrRadix 10 (2 ^ 16) spelled with
  | none => simp
  | some value =>
    have hvalue : (UInt16.ofNat value).toNat = value :=
      UInt16.toNat_ofNat_of_lt' (fromStrRadix_lt hread)
    simp only [Except.ok.injEq, Option.some.injEq]
    constructor
    · rintro rfl
      exact hvalue.symm
    · rintro rfl
      exact UInt16.ofNat_toNat

theorem splitPortDatastore_ok_iff {tail : Text} :
    splitPortDatastore debug tail ctx = .ok (port, store) ↔
      (port = none ∧ tail = store ∧ ':' ∉ store) ∨
        ∃ spelled value, port = some value ∧ tail = spelled ++ ':' :: store ∧ ':' ∉ spelled ∧
          fromStrRadix 10 (2 ^ 16) spelled = some value.toNat := by
  unfold splitPortDatastore
  cases hsplit : splitOnce ':' tail with
  | none =>
    have hno := splitOnce_eq_none_iff.mp hsplit
    simp only [Except.ok.injEq, Prod.mk.injEq]
    constructor
    · rintro ⟨rfl, rfl⟩
      exact .inl ⟨rfl, rfl, hno⟩
    · rintro (⟨rfl, rfl, -⟩ | ⟨spelled, value, -, rfl, -, -⟩)
      · exact ⟨rfl, rfl⟩
      · exact absurd (mem_append_right _ mem_cons_self) hno
  | some pair =>
    obtain ⟨spelled, later⟩ := pair
    obtain ⟨hspell, rfl⟩ := splitOnce_eq_some_iff.mp hsplit
    constructor
    · intro h
      obtain ⟨value, hvalue, hok⟩ := except_bind_eq_ok.mp h
      cases hok
      exact .inr ⟨spelled, value, rfl, rfl, hspell, parsePort_ok_iff.mp hvalue⟩
    · rintro (⟨-, rfl, hno⟩ | ⟨other, value, rfl, heq, hother, hvalue⟩)
      · exact absurd (mem_append_right _ mem_cons_self) hno
      · obtain ⟨rfl, rfl⟩ := append_separator_inj hspell hother heq
        exact except_bind_eq_ok.mpr ⟨value, parsePort_ok_iff.mpr hvalue, rfl⟩

theorem parseHostPart_plain (h : rest.head? ≠ some '[') :
    parseHostPart debug rest =
      match rest.splitOn ':' with
      | [datastore] => .ok (none, none, datastore)
      | [host, datastore] => .ok (some host, none, datastore)
      | [host, port, datastore] => do
        let port ← parsePort debug port rest
        .ok (some host, some port, datastore)
      | _ => .error (.invalidRepository ("too many ':' separated fields in " ++ debug rest)) := by
  unfold parseHostPart
  split
  · exact absurd rfl h
  · rfl

theorem portText_plain (port : UInt16) : ':' ∉ portText port ∧ '@' ∉ portText port := by
  have hdigit : ∀ c ∈ portText port, c.isDigit = true :=
    fun c hc => Nat.isDigit_of_mem_toDigits (by decide) (by decide) hc
  exact ⟨fun h => absurd (hdigit _ h) (by decide), fun h => absurd (hdigit _ h) (by decide)⟩

theorem head?_host_iff {host later : Text} :
    (host ++ ':' :: later).head? = some '[' ↔ host.head? = some '[' := by
  cases host with
  | nil => simp
  | cons => exact Iff.rfl

theorem parseHostPart_bracket {name : Text} (hname : ']' ∉ name) (tail : Text) :
    parseHostPart debug ('[' :: (name ++ ']' :: ':' :: tail)) =
      (do
        let (port, datastore) ←
          splitPortDatastore debug tail ('[' :: (name ++ ']' :: ':' :: tail))
        .ok (some ('[' :: (name ++ [']'])), port, datastore)) := by
  have hclose : splitOnce ']' (name ++ ']' :: ':' :: tail) = some (name, ':' :: tail) :=
    splitOnce_eq_some_iff.mpr ⟨hname, rfl⟩
  simp only [parseHostPart, hclose]

theorem parseHostPart_of_route (h : HostRoute rest host port store) :
    parseHostPart debug rest = .ok (host, port, store) := by
  cases h with
  | bare hbracket hstore => rw [parseHostPart_plain hbracket, splitOn_eq_singleton hstore]
  | host hbracket hhost hstore =>
    rw [parseHostPart_plain (mt head?_host_iff.mp hbracket),
      splitOn_append_cons_self_of_not_mem hhost, splitOn_eq_singleton hstore]
  | hostPort hbracket hhost hspell hport hstore =>
    rw [parseHostPart_plain (mt head?_host_iff.mp hbracket),
      splitOn_append_cons_self_of_not_mem hhost,
      splitOn_append_cons_self_of_not_mem hspell, splitOn_eq_singleton hstore]
    exact except_bind_eq_ok.mpr ⟨_, parsePort_ok_iff.mpr hport, rfl⟩
  | bracket hhost hstore =>
    rw [parseHostPart_bracket hhost]
    exact except_bind_eq_ok.mpr
      ⟨_, splitPortDatastore_ok_iff.mpr (.inl ⟨rfl, rfl, hstore⟩), rfl⟩
  | bracketPort hhost hspell hport =>
    rw [parseHostPart_bracket hhost]
    exact except_bind_eq_ok.mpr
      ⟨_, splitPortDatastore_ok_iff.mpr (.inr ⟨_, _, rfl, rfl, hspell, hport⟩), rfl⟩

theorem route_of_bracketed {afterBracket : Text}
    (h : parseHostPart debug ('[' :: afterBracket) = .ok (host, port, store)) :
    HostRoute ('[' :: afterBracket) host port store := by
  simp only [parseHostPart] at h
  split at h
  case h_1 | h_3 => cases h
  case h_2 name tail hclose =>
    obtain ⟨hname, rfl⟩ := splitOnce_eq_some_iff.mp hclose
    obtain ⟨⟨value, field⟩, hfields, hok⟩ := except_bind_eq_ok.mp h
    cases hok
    rcases splitPortDatastore_ok_iff.mp hfields with
      ⟨rfl, rfl, hstore⟩ | ⟨spelled, value, rfl, rfl, hspell, hport⟩
    · exact .bracket hname hstore
    · exact .bracketPort hname hspell hport

theorem route_of_plain (hbracket : rest.head? ≠ some '[')
    (h : parseHostPart debug rest = .ok (host, port, store)) : HostRoute rest host port store := by
  have hjoin := @intercalate_splitOn _ rest _ _ ':'
  have hfree : ∀ part ∈ rest.splitOn ':', ':' ∉ part := fun part => not_mem_of_mem_splitOn
  rw [parseHostPart_plain hbracket] at h
  split at h
  case h_1 datastore hfields =>
    rw [hfields] at hjoin hfree
    obtain rfl : datastore = rest := by simpa using hjoin
    cases h
    exact .bare hbracket (hfree _ mem_cons_self)
  case h_2 name datastore hfields =>
    rw [hfields] at hjoin hfree
    obtain rfl : name ++ ':' :: datastore = rest := by simpa using hjoin
    cases h
    exact .host (mt head?_host_iff.mpr hbracket) (hfree name (by simp)) (hfree store (by simp))
  case h_3 name spelled datastore hfields =>
    rw [hfields] at hjoin hfree
    obtain rfl : name ++ ':' :: (spelled ++ ':' :: datastore) = rest := by simpa using hjoin
    obtain ⟨value, hport, hok⟩ := except_bind_eq_ok.mp h
    cases hok
    exact .hostPort (mt head?_host_iff.mpr hbracket) (hfree name (by simp))
      (hfree spelled (by simp)) (parsePort_ok_iff.mp hport) (hfree store (by simp))
  case h_4 => cases h

theorem route_of_parseHostPart (h : parseHostPart debug rest = .ok (host, port, store)) :
    HostRoute rest host port store := by
  by_cases hbracket : rest.head? = some '['
  · cases rest with
    | nil => cases hbracket
    | cons =>
      cases hbracket
      exact route_of_bracketed h
  · exact route_of_plain hbracket h

theorem HostRoute.display (h : HostRoute rest host port store) :
    HostRoute (displayHost host port ++ store) host port store := by
  have hdigits : ∀ value : UInt16,
      fromStrRadix 10 (2 ^ 16) (portText value) = some value.toNat :=
    fun value => fromStrRadix_toDigits value.toNat_lt
  cases h with
  | bare hbracket hstore => exact .bare hbracket hstore
  | @host name _ hbracket hhost hstore =>
    have hroute := HostRoute.host hbracket hhost hstore
    simpa [displayHost] using hroute
  | @hostPort name _ _ value hbracket hhost _ _ hstore =>
    have hroute := HostRoute.hostPort hbracket hhost (portText_plain value).1 (hdigits value) hstore
    simpa [displayHost] using hroute
  | @bracket name _ hhost hstore =>
    have hroute := HostRoute.bracket hhost hstore
    simpa [displayHost] using hroute
  | @bracketPort name _ _ value hhost _ _ =>
    have hroute := @HostRoute.bracketPort _ _ store _ hhost (portText_plain value).1 (hdigits value)
    simpa [displayHost] using hroute

theorem HostRoute.display_at (h : HostRoute rest host port store) (hat : '@' ∉ rest) :
    '@' ∉ displayHost host port ++ store := by
  cases h with
  | bare => exact hat
  | host | bracket =>
    simp only [displayHost, mem_append, mem_cons, Option.elim_none, not_or] at hat ⊢
    simp_all
  | @hostPort _ _ _ value | @bracketPort _ _ _ value =>
    have hport := (portText_plain value).2
    simp only [displayHost, mem_append, mem_cons, Option.elim_some, not_or] at hat ⊢
    simp_all

theorem HostRoute.display_head (h : HostRoute rest host port store) :
    (displayHost host port ++ store).head? = rest.head? := by
  cases h with
  | bare => rfl
  | @host name | @hostPort name => cases name <;> simp [displayHost]
  | bracket | bracketPort => simp [displayHost]

theorem HostRoute.store_suffix (h : HostRoute rest host port store) : store <:+ rest := by
  cases h with
  | bare => exact suffix_refl _
  | host => exact (suffix_cons _ _).trans (suffix_append _ _)
  | hostPort =>
    exact (((suffix_cons _ _).trans (suffix_append _ _)).trans
      (suffix_cons _ _)).trans (suffix_append _ _)
  | bracket =>
    exact ((((suffix_cons _ _).trans (suffix_cons _ _)).trans
      (suffix_append _ _))).trans (suffix_cons _ _)
  | bracketPort =>
    exact ((((((suffix_cons _ _).trans (suffix_append _ _)).trans
      (suffix_cons _ _)).trans (suffix_cons _ _)).trans
      (suffix_append _ _))).trans (suffix_cons _ _)

end Routes

section StoreField

variable {store name path : Text}

theorem splitNamespace_none (h : '/' ∉ store) : splitNamespace store = (store, none) := by
  rw [splitNamespace, splitOnce_eq_none_iff.mpr h]

theorem splitNamespace_path (hname : '/' ∉ name) (hpath : path ≠ []) :
    splitNamespace (name ++ '/' :: path) = (name, some path) := by
  simp only [splitNamespace, splitOnce_eq_some_iff.mpr ⟨hname, rfl⟩, if_pos hpath]

theorem splitNamespace_slash (hname : '/' ∉ name) :
    splitNamespace (name ++ ['/']) = (name ++ ['/'], none) := by
  simp only [splitNamespace, splitOnce_eq_some_iff.mpr ⟨hname, rfl⟩, ne_eq, not_true, if_false]

theorem store_cases (store : Text) :
    '/' ∉ store ∨ (∃ name, '/' ∉ name ∧ store = name ++ ['/']) ∨
      ∃ name path, '/' ∉ name ∧ path ≠ [] ∧ store = name ++ '/' :: path := by
  cases hsplit : splitOnce '/' store with
  | none => exact .inl (splitOnce_eq_none_iff.mp hsplit)
  | some pair =>
    obtain ⟨name, path⟩ := pair
    obtain ⟨hname, hstore⟩ := splitOnce_eq_some_iff.mp hsplit
    by_cases hpath : path = []
    · exact .inr (.inl ⟨name, hname, by rw [hstore, hpath]⟩)
    · exact .inr (.inr ⟨name, path, hname, hpath, hstore⟩)

theorem splitNamespace_join (store : Text) :
    (splitNamespace store).1 ++ (splitNamespace store).2.elim [] ('/' :: ·) = store := by
  rcases store_cases store with hno | ⟨name, hname, rfl⟩ | ⟨name, path, hname, hpath, rfl⟩
  · rw [splitNamespace_none hno, Option.elim_none, append_nil]
  · rw [splitNamespace_slash hname, Option.elim_none, append_nil]
  · rw [splitNamespace_path hname hpath, Option.elim_some]

end StoreField

/-! ### Accepted strings -/

section Accepted

variable {debug : Text → String} {s : Text} {repository : Repository}

/-- How an accepted string is written, up to white space around it. -/
def Written (s : Text) (authId host : Option Text) (port : Option UInt16) (store : Text) : Prop :=
  ∃ rest, trim s = displayAuth authId ++ rest ∧ '@' ∉ rest ∧ HostRoute rest host port store

theorem splitAuth_eq_iff {t rest : Text} {authId : Option Text} :
    splitAuth t = (authId, rest) ↔ t = displayAuth authId ++ rest ∧ '@' ∉ rest := by
  constructor
  · intro h
    unfold splitAuth at h
    split at h
    case h_1 auth later hsplit =>
      obtain ⟨hlater, rfl⟩ := rsplitOnce_eq_some_iff.mp hsplit
      cases h
      exact ⟨by simp [displayAuth], hlater⟩
    case h_2 hsplit =>
      cases h
      exact ⟨rfl, rsplitOnce_eq_none_iff.mp hsplit⟩
  · rintro ⟨rfl, hrest⟩
    cases authId with
    | none =>
      have hsplit : rsplitOnce '@' (displayAuth none ++ rest) = none :=
        rsplitOnce_eq_none_iff.mpr hrest
      rw [splitAuth, hsplit]
      rfl
    | some auth =>
      have hsplit : rsplitOnce '@' (displayAuth (some auth) ++ rest) = some (auth, rest) :=
        rsplitOnce_eq_some_iff.mpr ⟨hrest, by simp [displayAuth]⟩
      rw [splitAuth, hsplit]

theorem fromStr_ok_iff :
    fromStr debug s = .ok repository ↔
      ∃ store, Written s repository.authId repository.host repository.port store ∧
        splitNamespace store = (repository.datastore, repository.nsPath) ∧
        repository.datastore ≠ [] := by
  constructor
  · intro h
    unfold fromStr at h
    dsimp only at h
    split at h
    case isTrue => cases h
    case isFalse =>
      obtain ⟨htrim, hat⟩ := splitAuth_eq_iff.mp (Prod.eta (splitAuth (trim s))).symm
      split at h
      case h_1 => cases h
      case h_2 host port store hhost =>
        split at h
        case isTrue => cases h
        case isFalse hds =>
          cases h
          exact ⟨store, ⟨_, htrim, hat, route_of_parseHostPart hhost⟩, rfl, hds⟩
  · rintro ⟨store, ⟨rest, htrim, hat, hroute⟩, hsplit, hds⟩
    have hstore : store ≠ [] := by
      rintro rfl
      exact hds (congrArg Prod.fst hsplit).symm
    have hsome : trim s ≠ [] := by
      intro hnil
      rw [htrim, append_eq_nil_iff] at hnil
      exact hstore (suffix_nil.mp (hnil.2 ▸ hroute.store_suffix))
    have hauth : splitAuth (trim s) = (repository.authId, rest) := splitAuth_eq_iff.mpr ⟨htrim, hat⟩
    unfold fromStr
    simp only [if_neg hsome, hauth, parseHostPart_of_route hroute, hsplit, if_neg hds]

/-- A repository that was parsed is displayed as a string that parses to it. -/
theorem fromStr_display (h : fromStr debug s = .ok repository) :
    fromStr debug repository.display = .ok repository := by
  obtain ⟨store, ⟨rest, htrim, hat, hroute⟩, hsplit, hdatastore⟩ := fromStr_ok_iff.mp h
  have hjoin := splitNamespace_join store
  rw [hsplit] at hjoin
  have hdisplay : repository.display = displayAuth repository.authId ++
      (displayHost repository.host repository.port ++ store) := by
    rw [Repository.display, ← hjoin]
    simp only [append_assoc]
  have hstore : store ≠ [] := by
    rintro rfl
    exact hdatastore (congrArg Prod.fst hsplit).symm
  refine fromStr_ok_iff.mpr ⟨store, ⟨_, ?_, hroute.display_at hat, hroute.display⟩, hsplit, hdatastore⟩
  rw [hdisplay]
  refine trim_eq_self (fun c hc => ?_) (fun c hc => ?_)
  · -- it begins with the character the string begins with
    rw [head?_append, hroute.display_head, ← head?_append, ← htrim] at hc
    exact trim_head hc
  · -- and ends with that at the end of the store field
    obtain ⟨front, rfl⟩ := hroute.store_suffix
    have hlast : ∀ before : Text, (before ++ store).getLast? = store.getLast? := fun before => by
      rw [getLast?_append, getLast?_eq_some_getLast hstore, Option.some_or]
    rw [← append_assoc, hlast, ← hlast (displayAuth repository.authId ++ front),
      append_assoc, ← htrim] at hc
    exact trim_last hc

/-- An auth id with two `@`, a bracketed host, a port with a sign and leading zeros, and a
nested namespace. -/
def sampleText : Text := "root@pam@[2001:db8::1]:+08007:backups/team/project".toList

def sampleRepository : Repository where
  authId := some "root@pam".toList
  host := some "[2001:db8::1]".toList
  port := some 8007
  datastore := "backups".toList
  nsPath := some "team/project".toList

theorem fromStr_sampleText : fromStr (fun _ => "") sampleText = .ok sampleRepository := by decide

theorem sampleRepository_display :
    fromStr (fun _ => "") sampleText = .ok sampleRepository ∧
      sampleRepository.display = "root@pam@[2001:db8::1]:8007:backups/team/project".toList ∧
      fromStr (fun _ => "") sampleRepository.display = .ok sampleRepository :=
  ⟨fromStr_sampleText, by decide, fromStr_display fromStr_sampleText⟩

theorem Written.store_unique {authId authId' host host' : Option Text} {port port' : Option UInt16}
    {store store' : Text} (h : Written s authId host port store)
    (h' : Written s authId' host' port' store') : store = store' := by
  obtain ⟨rest, htrim, hat, hroute⟩ := h
  obtain ⟨rest', htrim', hat', hroute'⟩ := h'
  have hauth := splitAuth_eq_iff.mpr ⟨htrim, hat⟩
  rw [splitAuth_eq_iff.mpr ⟨htrim', hat'⟩] at hauth
  obtain ⟨-, rfl⟩ := Prod.mk.inj hauth
  have hhost : parseHostPart (fun _ => "") rest' = .ok (host, port, store) :=
    parseHostPart_of_route hroute
  rw [parseHostPart_of_route hroute'] at hhost
  cases hhost
  rfl

/-- The only slash of the store field is its last character. -/
def TrailingSlash (s : Text) : Prop :=
  ∃ authId host port name, Written s authId host port (name ++ ['/']) ∧ '/' ∉ name

/-- The datastore of an accepted string is a name without a slash and its namespace a path
that a slash separated from it, unless the string has a trailing slash and no namespace. -/
theorem datastore_separated_iff (h : fromStr debug s = .ok repository) :
    (repository.datastore ≠ [] ∧ '/' ∉ repository.datastore ∧
      ∀ path, repository.nsPath = some path →
        path ≠ [] ∧ Written s repository.authId repository.host repository.port
          (repository.datastore ++ '/' :: path)) ↔
      ¬ TrailingSlash s := by
  obtain ⟨store, hwritten, hsplit, hdatastore⟩ := fromStr_ok_iff.mp h
  rcases store_cases store with hno | ⟨name, hname, rfl⟩ | ⟨name, path, hname, hpath, rfl⟩
  · rw [splitNamespace_none hno] at hsplit
    obtain ⟨rfl, hns⟩ := Prod.mk.inj hsplit
    refine iff_of_true ⟨hdatastore, hno, fun path hsome => ?_⟩ ?_
    · rw [← hns] at hsome
      cases hsome
    · rintro ⟨authId, host, port, other, hother, -⟩
      rw [hwritten.store_unique hother] at hno
      exact hno (mem_append_right _ mem_cons_self)
  · rw [splitNamespace_slash hname] at hsplit
    obtain ⟨hstore, -⟩ := Prod.mk.inj hsplit
    refine iff_of_false (fun hclean => hclean.2.1 ?_) (fun hnot => hnot ?_)
    · rw [← hstore]
      exact mem_append_right _ mem_cons_self
    · exact ⟨_, _, _, name, hwritten, hname⟩
  · rw [splitNamespace_path hname hpath] at hsplit
    obtain ⟨rfl, hns⟩ := Prod.mk.inj hsplit
    refine iff_of_true ⟨hdatastore, hname, fun found hsome => ?_⟩ ?_
    · rw [← hns] at hsome
      cases hsome
      exact ⟨hpath, hwritten⟩
    · rintro ⟨authId, host, port, other, hother, hslash⟩
      -- the first slash of the store field would be its last character
      have hstore := hwritten.store_unique hother
      exact hpath (append_separator_inj hname hslash hstore).2

/-- A string with a namespace. -/
theorem sampleText_separated :
    fromStr (fun _ => "") sampleText = .ok sampleRepository ∧ '/' ∉ sampleRepository.datastore ∧
      ¬ TrailingSlash sampleText := by
  refine ⟨fromStr_sampleText, by decide,
    (datastore_separated_iff fromStr_sampleText).mp ⟨by decide, by decide, ?_⟩⟩
  intro path hpath
  cases hpath
  exact ⟨by decide, '[' :: ("2001:db8::1".toList ++ ']' :: ':' :: ("+08007".toList ++
      ':' :: (sampleRepository.datastore ++ '/' :: "team/project".toList))),
    by decide, by decide, .bracketPort (by decide) (by decide) (by decide)⟩

/-- The datastore of `pbs.example.com:backups/` is `backups/`. -/
theorem trailingSlash_kept :
    fromStr (fun _ => "") "pbs.example.com:backups/".toList =
        .ok { authId := none, host := some "pbs.example.com".toList, port := none,
              datastore := "backups/".toList, nsPath := none } ∧
      '/' ∈ "backups/".toList := by
  decide

end Accepted

end PbsGui.Client
