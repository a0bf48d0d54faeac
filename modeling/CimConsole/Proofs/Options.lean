import CimConsole.Options
import CimConsole.Proofs.Answer

/-!
Options against the environment. An option that is not given is taken from its variable, each one
for itself, and only then is it asked which target the options name. A target that the command line
names is therefore used as long as no variable names one that it cannot stand beside: a server and
mock files exclude each other, and either counts more than the name of a saved connection. Of the
variables that can stand in the way of a target none, all or some are set, and each of the three has
its own answer.
-/
namespace CimConsole

open Text

/-- A way of naming a target. -/
inductive NamedTarget where
  | server (url : String)
  | mock (paths : List String)
  | saved (name : String)

namespace Options

/-- What the environment has for a variable, unless it is blank. -/
def fromEnvironment (env : String → Option String) (v : String) : Option String :=
  (env v).filter fun s => trim s ≠ ""

/-- The options name this target and in no other way another one. -/
def Names (o : Options) : NamedTarget → Prop
  | .server url => o.server = some url ∧ o.mockServer = [] ∧ o.name = none
  | .mock paths => o.server = none ∧ o.mockServer = paths ∧ paths ≠ [] ∧ o.name = none
  | .saved name => o.server = none ∧ o.mockServer = [] ∧ o.name = some name

/-- A connection to this target, and what else the options say of it. -/
def connectionTo (o : Options) (server : Option String) (mockServer : List String) :
    Connection where
  server
  mockServer
  defaultNamespace := o.defaultNamespace
  user := o.user
  timeout := o.timeout
  noVerify := o.noVerify

/-- The connection to a server or mock files if one of them is named. -/
def direct (o : Options) : Option String → List String → Except Failure (Option Connection)
  | none, [] => .ok none
  | some _, _ :: _ => .error .twoTargets
  | server, mockServer => .ok (some (o.connectionTo server mockServer))

/-- The connection to the server or the mock files that the environment names. -/
def connectionOfEnvironment (o : Options) (env : String → Option String) : Connection :=
  o.connectionTo (fromEnvironment env "WBEMCLI_SERVER")
    (fromEnvironment env "WBEMCLI_MOCK_SERVER").toList

/-- The saved connection of this name and no other one. -/
def lookUp (o : Options) (files : Files) (name : String) :
    Except Failure (Option (ConnectionSource × Connection)) := do
  let saved ← o.loadConnections files
  let c ← (saved.get name).mapError Failure.connections
  pure (some (.named name,
    { c with defaultNamespace := o.defaultNamespace.or c.defaultNamespace }))

end Options

namespace NamedTarget

/-- The connection that options give directly if they name this target. -/
def connection? (o : Options) : NamedTarget → Option Connection
  | server url => some (o.connectionTo (some url) [])
  | mock paths => some (o.connectionTo none paths)
  | saved _ => none

/-- The connection of the target, with where it comes from. -/
def resolved (o : Options) (files : Files) :
    NamedTarget → Except Failure (Option (ConnectionSource × Connection))
  | server url => .ok (some (.options, o.connectionTo (some url) []))
  | mock paths => .ok (some (.options, o.connectionTo none paths))
  | saved name => o.lookUp files name

/-- The variables that name targets which exclude this one or count more. -/
def rivals : NamedTarget → List String
  | server _ => ["WBEMCLI_MOCK_SERVER"]
  | mock _ => ["WBEMCLI_SERVER"]
  | saved _ => ["WBEMCLI_SERVER", "WBEMCLI_MOCK_SERVER"]

end NamedTarget

namespace Options

variable {o : Options} {t : NamedTarget}

theorem connection?_eq_direct (o : Options) : o.connection? = o.direct o.server o.mockServer := by
  unfold connection?
  cases hserver : o.server with
  | none =>
    cases hmock : o.mockServer with
    | nil => rfl
    | cons path rest => simp [direct, connectionTo]
  | some url =>
    cases hmock : o.mockServer with
    | nil => simp [direct, connectionTo]
    | cons path rest => rfl

theorem resolve_of_connection {c : Connection} (h : o.connection? = .ok (some c)) (files : Files) :
    o.resolve files = .ok (some (.options, c)) := by
  rw [resolve, h]
  rfl

theorem resolve_of_error {e : Failure} (h : o.connection? = .error e) (files : Files) :
    o.resolve files = .error e := by
  rw [resolve, h]
  rfl

theorem resolve_of_name {name : String} (h : o.connection? = .ok none) (hname : o.name = some name)
    (files : Files) : o.resolve files = o.lookUp files name := by
  rw [resolve, h, ok_bind, lookUp, hname]

/-- A saved connection is found under its name or something about the connections is wrong. -/
theorem lookUp_cases (o : Options) (files : Files) (name : String) :
    (∃ e, o.lookUp files name = .error (.connections e)) ∨
      ∃ c, o.lookUp files name = .ok (some (.named name, c)) := by
  rw [lookUp, loadConnections]
  cases hload : Connections.load files o.connectionsPath with
  | error e => exact .inl ⟨e, rfl⟩
  | ok saved =>
    rw [ok_mapError, ok_bind]
    cases saved.get name with
    | error e => exact .inl ⟨e, rfl⟩
    | ok c => exact .inr ⟨_, rfl⟩

theorem resolved_ne_twoTargets (o : Options) (files : Files) (t : NamedTarget) :
    t.resolved o files ≠ .error .twoTargets := by
  cases t with
  | server | mock => nofun
  | saved name =>
    intro htwo
    rw [NamedTarget.resolved] at htwo
    rcases o.lookUp_cases files name with ⟨e, h⟩ | ⟨c, h⟩
    · rw [h] at htwo
      cases htwo
    · rw [h] at htwo
      cases htwo

section Filled

variable (env : String → Option String)

theorem name_withEnvironment {name : String} (hname : o.name = some name) :
    (o.withEnvironment env).name = some name := by
  simp [withEnvironment, hname]

/-- What is not given counts as the environment has it. -/
theorem connection?_withEnvironment (o : Options) :
    (o.withEnvironment env).connection? =
      o.direct (o.server.or (fromEnvironment env "WBEMCLI_SERVER"))
        (if o.mockServer.isEmpty then (fromEnvironment env "WBEMCLI_MOCK_SERVER").toList
          else o.mockServer) :=
  connection?_eq_direct _

theorem connection?_of_server {url : String} (h : o.Names (.server url)) :
    (o.withEnvironment env).connection? =
      o.direct (some url) (fromEnvironment env "WBEMCLI_MOCK_SERVER").toList := by
  obtain ⟨hserver, hmock, -⟩ := h
  rw [connection?_withEnvironment, hserver, hmock]
  rfl

theorem connection?_of_mock {paths : List String} (h : o.Names (.mock paths)) :
    (o.withEnvironment env).connection? =
      o.direct (fromEnvironment env "WBEMCLI_SERVER") paths := by
  obtain ⟨hserver, hmock, hpaths, -⟩ := h
  rw [connection?_withEnvironment, hserver, hmock, if_neg (by simpa using hpaths), Option.none_or]

theorem connection?_of_saved {name : String} (h : o.Names (.saved name)) :
    (o.withEnvironment env).connection? = o.direct (fromEnvironment env "WBEMCLI_SERVER")
      (fromEnvironment env "WBEMCLI_MOCK_SERVER").toList := by
  obtain ⟨hserver, hmock, -⟩ := h
  rw [connection?_withEnvironment, hserver, hmock]
  rfl

/-- The target that is named is the one that the options give, unless a rival variable is set. -/
theorem connection?_eq_own_iff (h : o.Names t) :
    (o.withEnvironment env).connection? = .ok (t.connection? o) ↔
      ∀ v ∈ t.rivals, fromEnvironment env v = none := by
  cases t with
  | server url =>
    rw [connection?_of_server env h]
    cases hmock : fromEnvironment env "WBEMCLI_MOCK_SERVER" <;>
      simp [direct, NamedTarget.connection?, NamedTarget.rivals, hmock]
  | mock paths =>
    rw [connection?_of_mock env h]
    obtain ⟨first, rest, rfl⟩ := List.exists_cons_of_ne_nil h.2.2.1
    cases hserver : fromEnvironment env "WBEMCLI_SERVER" <;>
      simp [direct, NamedTarget.connection?, NamedTarget.rivals, hserver]
  | saved name =>
    rw [connection?_of_saved env h]
    cases hserver : fromEnvironment env "WBEMCLI_SERVER" <;>
      cases hmock : fromEnvironment env "WBEMCLI_MOCK_SERVER" <;>
        simp [direct, NamedTarget.connection?, NamedTarget.rivals, hserver, hmock]

/-- Two targets are complained of if all rival variables are set. -/
theorem connection?_eq_twoTargets_iff (h : o.Names t) :
    (o.withEnvironment env).connection? = .error .twoTargets ↔
      ∀ v ∈ t.rivals, fromEnvironment env v ≠ none := by
  cases t with
  | server url =>
    rw [connection?_of_server env h]
    cases hmock : fromEnvironment env "WBEMCLI_MOCK_SERVER" <;>
      simp [direct, NamedTarget.rivals, hmock]
  | mock paths =>
    rw [connection?_of_mock env h]
    obtain ⟨first, rest, rfl⟩ := List.exists_cons_of_ne_nil h.2.2.1
    cases hserver : fromEnvironment env "WBEMCLI_SERVER" <;>
      simp [direct, NamedTarget.rivals, hserver]
  | saved name =>
    rw [connection?_of_saved env h]
    cases hserver : fromEnvironment env "WBEMCLI_SERVER" <;>
      cases hmock : fromEnvironment env "WBEMCLI_MOCK_SERVER" <;>
        simp [direct, NamedTarget.rivals, hserver, hmock]

/-- Only a name has more than one rival, and with one of them set the environment decides. -/
theorem connection?_of_mixed (h : o.Names t) (hunset : ∃ v ∈ t.rivals, fromEnvironment env v = none)
    (hset : ∃ v ∈ t.rivals, fromEnvironment env v ≠ none) :
    (∃ name, t = .saved name) ∧
      (o.withEnvironment env).connection? = .ok (some (o.connectionOfEnvironment env)) := by
  cases t with
  | server url =>
    simp only [NamedTarget.rivals, List.mem_singleton, exists_eq_left] at hunset hset
    exact absurd hunset hset
  | mock paths =>
    simp only [NamedTarget.rivals, List.mem_singleton, exists_eq_left] at hunset hset
    exact absurd hunset hset
  | saved name =>
    refine ⟨⟨name, rfl⟩, ?_⟩
    rw [connection?_of_saved env h, connectionOfEnvironment]
    cases hserver : fromEnvironment env "WBEMCLI_SERVER" <;>
      cases hmock : fromEnvironment env "WBEMCLI_MOCK_SERVER" <;>
        simp [direct, NamedTarget.rivals, hserver, hmock] at hunset hset ⊢

end Filled

/-- Once the options give what they name and nothing else, this is also what is resolved. -/
theorem resolve_of_names (h : o.Names t) {env : String → Option String}
    (hown : (o.withEnvironment env).connection? = .ok (t.connection? o)) (files : Files) :
    (o.withEnvironment env).resolve files = t.resolved (o.withEnvironment env) files := by
  cases t with
  | server url => exact resolve_of_connection hown files
  | mock paths => exact resolve_of_connection hown files
  | saved name => exact resolve_of_name hown (name_withEnvironment env h.2.2) files

/-- Of the rivals none is set, or all are, or some are and others are not. -/
theorem rivals_cases (env : String → Option String) (t : NamedTarget) :
    (∀ v ∈ t.rivals, fromEnvironment env v = none) ∨
      (∀ v ∈ t.rivals, fromEnvironment env v ≠ none) ∨
      (∃ v ∈ t.rivals, fromEnvironment env v = none) ∧
        ∃ v ∈ t.rivals, fromEnvironment env v ≠ none := by
  by_cases hnone : ∀ v ∈ t.rivals, fromEnvironment env v = none
  · exact .inl hnone
  · by_cases hall : ∀ v ∈ t.rivals, fromEnvironment env v ≠ none
    · exact .inr (.inl hall)
    · exact .inr (.inr ⟨by simpa using hall, by simpa using hnone⟩)

/-- A target that the options name in one way is what the options give and what is resolved,
whatever the environment, if and only if no rival variable is set. Two targets are complained of if
and only if all rivals are set, which are one for a server or mock files. A name with one rival set
and the other not is put aside for what the environment names. -/
theorem named_target_used (h : o.Names t) (env : String → Option String) :
    ((o.withEnvironment env).connection? = .ok (t.connection? o) ↔
      ∀ v ∈ t.rivals, fromEnvironment env v = none) ∧
    (∀ files, (o.withEnvironment env).resolve files = t.resolved (o.withEnvironment env) files ↔
      ∀ v ∈ t.rivals, fromEnvironment env v = none) ∧
    ((o.withEnvironment env).connection? = .error .twoTargets ↔
      ∀ v ∈ t.rivals, fromEnvironment env v ≠ none) ∧
    (∀ files, (o.withEnvironment env).resolve files = .error .twoTargets ↔
      ∀ v ∈ t.rivals, fromEnvironment env v ≠ none) ∧
    ((∃ v ∈ t.rivals, fromEnvironment env v = none) →
      (∃ v ∈ t.rivals, fromEnvironment env v ≠ none) →
        (o.withEnvironment env).connection? = .ok (some (o.connectionOfEnvironment env)) ∧
        ∀ files, (o.withEnvironment env).resolve files =
          .ok (some (.options, o.connectionOfEnvironment env))) := by
  have hown := connection?_eq_own_iff env h
  have htwo := connection?_eq_twoTargets_iff env h
  have hnamed (hnone : ∀ v ∈ t.rivals, fromEnvironment env v = none) (files : Files) :
      (o.withEnvironment env).resolve files = t.resolved (o.withEnvironment env) files :=
    resolve_of_names h (hown.2 hnone) files
  have hrefused (hall : ∀ v ∈ t.rivals, fromEnvironment env v ≠ none) (files : Files) :
      (o.withEnvironment env).resolve files = .error .twoTargets :=
    resolve_of_error (htwo.2 hall) files
  have hmixed (hunset : ∃ v ∈ t.rivals, fromEnvironment env v = none)
      (hset : ∃ v ∈ t.rivals, fromEnvironment env v ≠ none) (files : Files) :
      (o.withEnvironment env).resolve files =
        .ok (some (.options, o.connectionOfEnvironment env)) :=
    resolve_of_connection (connection?_of_mixed env h hunset hset).2 files
  refine ⟨hown, fun files => ⟨fun hresolved => ?used, fun hnone => hnamed hnone files⟩, htwo,
    fun files => ⟨fun hresolved => ?complained, fun hall => hrefused hall files⟩,
    fun hunset hset => ⟨(connection?_of_mixed env h hunset hset).2, hmixed hunset hset⟩⟩
  case used =>
    rcases rivals_cases env t with hnone | hall | ⟨hunset, hset⟩
    · exact hnone
    · rw [hrefused hall] at hresolved
      exact absurd hresolved.symm (resolved_ne_twoTargets _ _ _)
    · -- what is looked up by a name is not taken for a target of the options
      obtain ⟨name, rfl⟩ := (connection?_of_mixed env h hunset hset).1
      rw [hmixed hunset hset, NamedTarget.resolved] at hresolved
      rcases (o.withEnvironment env).lookUp_cases files name with ⟨e, hfound⟩ | ⟨c, hfound⟩
      · rw [hfound] at hresolved
        cases hresolved
      · rw [hfound] at hresolved
        cases hresolved
  case complained =>
    rcases rivals_cases env t with hnone | hall | ⟨hunset, hset⟩
    · rw [hnamed hnone] at hresolved
      exact absurd hresolved (resolved_ne_twoTargets _ _ _)
    · exact hall
    · rw [hmixed hunset hset] at hresolved
      cases hresolved

/-- An environment with these variables. -/
def settings (given : List (String × String)) : String → Option String := fun v => given.lookup v

/-- A server that is named is used beside a name in the environment and a blank variable, and a
name is put aside for the server of the environment. -/
theorem named_target_used_beside_name :
    (withEnvironment { server := some "https://flag" }
      (settings [("WBEMCLI_MOCK_SERVER", " "), ("WBEMCLI_NAME", "dev")])).resolve {} =
        .ok (some (.options, { server := some "https://flag" })) ∧
    (withEnvironment { name := some "dev" }
      (settings [("WBEMCLI_SERVER", "https://env")])).resolve {} =
        .ok (some (.options, { server := some "https://env" })) := by
  have hserver : Names { server := some "https://flag" } (.server "https://flag") :=
    ⟨rfl, rfl, rfl⟩
  have hsaved : Names { name := some "dev" } (.saved "dev") := ⟨rfl, rfl, rfl⟩
  obtain ⟨-, hresolved, -⟩ := named_target_used hserver
    (settings [("WBEMCLI_MOCK_SERVER", " "), ("WBEMCLI_NAME", "dev")])
  obtain ⟨-, -, -, -, haside⟩ := named_target_used hsaved
    (settings [("WBEMCLI_SERVER", "https://env")])
  exact ⟨(hresolved {}).2 (by decide), (haside (by decide) (by decide)).2 {}⟩

/-- With mock files in the environment a server that is named is refused, and with a server there a
name is put aside. -/
theorem named_target_not_used :
    Names { server := some "https://flag" } (.server "https://flag") ∧
    (withEnvironment { server := some "https://flag" }
      (settings [("WBEMCLI_MOCK_SERVER", "repo.yaml")])).connection? = .error .twoTargets ∧
    Names { name := some "dev" } (.saved "dev") ∧
    (withEnvironment { name := some "dev" }
      (settings [("WBEMCLI_SERVER", "https://env")])).connection? =
        .ok (some { server := some "https://env" }) :=
  ⟨⟨rfl, rfl, rfl⟩, rfl, ⟨rfl, rfl, rfl⟩, rfl⟩

end Options

end CimConsole
