import CimConsole.Connections
import CimConsole.Proofs.Document.Equality
import CimConsole.Proofs.Document.Meaning
import CimConsole.Proofs.Files
import CimConsole.Proofs.Text.Cut
import Mathlib.Data.List.TakeWhile

/-!
The saved connections over a run of operations. Only what is in order is stored, and the default is
cleared when its connection is deleted, so both stay as a file had them, whatever is asked for. The
operations are also given as they change a repository in place, where a deletion removes before it
fails; still one that fails has changed nothing. What is saved is loaded again as it was if the YAML
text that was written is read as the document that was written.
-/
namespace CimConsole

open Text Document

namespace Connection

theorem seesMeaning : SeesMeaning ofDocument? := by
  intro d c h
  simp only [ofDocument?, Option.bind_eq_bind, Option.bind_eq_some_iff] at h ⊢
  obtain ⟨fields, hfields, server, hserver, mock, hmock, space, hspace, user, huser, timeout,
    htimeout, lax, hlax, hc⟩ := h
  obtain ⟨own, hown, rfl⟩ := fields?_of_meaning hfields
  exact ⟨own, hown, server, seesMeaning_text.optional hserver, mock,
    seesMeaning_text.list.defaulted hmock, space, seesMeaning_text.optional hspace, user,
    seesMeaning_text.optional huser, timeout, (seesMeaning_natural _).optional htimeout, lax,
    seesMeaning_boolean.defaulted hlax, hc⟩

theorem names_fields_sublist (c : Connection) : (c.fields.map (·.1)).Sublist fieldNames := by
  simp only [fields, List.map_append]
  exact (((((names_present_sublist _ _ _).append (names_shownIf_sublist _ _ _)).append
    (names_present_sublist _ _ _)).append (names_present_sublist _ _ _)).append
    (names_present_sublist _ _ _)).append (names_shownIf_sublist _ _ _)

/-- Each field is found under its name, if it was written. -/
theorem lookup_fields (c : Connection) :
    c.fields.lookup "server" = c.server.map .text ∧
    c.fields.lookup "mock_server" =
      (if c.mockServer.isEmpty then none else some (.list (c.mockServer.map .text))) ∧
    c.fields.lookup "default_namespace" = c.defaultNamespace.map .text ∧
    c.fields.lookup "user" = c.user.map .text ∧
    c.fields.lookup "timeout" = (c.timeout.map UInt32.toNat).map (fun n => .whole n) ∧
    c.fields.lookup "no_verify" = (if c.noVerify then some (.boolean true) else none) := by
  simp [fields, List.lookup_append, lookup_present_of_ne, lookup_shownIf_of_ne,
    Function.comp_def]

/-- A connection is read as it was written, fields that are left out included. -/
theorem ofDocument?_document (c : Connection) : ofDocument? c.document = some c := by
  obtain ⟨hserver, hmock, hspace, huser, htimeout, hlax⟩ := lookup_fields c
  have hfields : c.document.fields? fieldNames = some c.fields :=
    fields?_record (by decide) c.names_fields_sublist
  have hmocks : defaulted (list? text?) [] "mock_server" c.fields = some c.mockServer := by
    rw [defaulted, hmock]
    cases c.mockServer with
    | nil => rfl
    | cons file rest => exact list?_texts (file :: rest)
  have hseconds : optional (natural? (Nat.pow 2 32)) "timeout" c.fields =
      some (c.timeout.map UInt32.toNat) := by
    refine optional_of_lookup htimeout (fun _ => rfl) fun n hn => ?_
    obtain ⟨seconds, -, rfl⟩ := Option.map_eq_some_iff.1 hn
    have hlt : seconds.toNat < Nat.pow 2 32 := seconds.toNat_lt
    simp [natural?, settled, hlt]
  simp [ofDocument?, hfields, optional_text hserver, hmocks, optional_text hspace,
    optional_text huser, hseconds, defaulted_flag hlax, Function.comp_def]

end Connection

namespace Connections

variable {cs next : Connections} {name : String} {c : Connection}

theorem seesMeaning : SeesMeaning ofDocument? := by
  intro d cs h
  simp only [ofDocument?, Option.bind_eq_bind, Option.bind_eq_some_iff] at h ⊢
  obtain ⟨fields, hfields, definitions, hdefinitions, default, hdefault, hcs⟩ := h
  obtain ⟨own, hown, rfl⟩ := fields?_of_meaning hfields
  exact ⟨own, hown, definitions, Connection.seesMeaning.table.defaulted hdefinitions, default,
    seesMeaning_text.optional hdefault, hcs⟩

theorem document_eq (cs : Connections) :
    cs.document = .record (("connection_definitions", ofTable Connection.document cs.definitions) ::
      present "default_connection" .text cs.default) := rfl

/-- The connections are read as they were written. -/
theorem ofDocument?_document (cs : Connections) : ofDocument? cs.document = some cs := by
  have hnames : ((("connection_definitions", ofTable Connection.document cs.definitions) ::
      present "default_connection" .text cs.default).map (·.1)).Sublist
      ["connection_definitions", "default_connection"] :=
    (names_present_sublist "default_connection" .text cs.default).cons_cons _
  have hlookup : (("connection_definitions", ofTable Connection.document cs.definitions) ::
      present "default_connection" .text cs.default).lookup "default_connection" =
      cs.default.map .text := by
    simp [List.lookup_cons]
  rw [ofDocument?, document_eq, fields?_record (by decide) hnames]
  simp [defaulted, table?_ofTable Connection.ofDocument?_document, optional_text hlookup]

/-- A text that starts with a character that is not blank is not blank. -/
theorem trim_ne_empty {s : String} {ch : Char} {rest : List Char} (hs : s.toList = ch :: rest)
    (hch : isBlank ch = false) : trim s ≠ "" := by
  intro hblank
  have hdrop : dropBothWhile isBlank s.toList = [] := by
    simpa [trim] using congrArg String.toList hblank
  rw [hs, dropBothWhile, List.dropWhile_cons_of_neg (Bool.eq_false_iff.1 hch), dropEndWhile,
    List.reverse_eq_nil_iff, List.dropWhile_eq_nil_iff] at hdrop
  have hdropped := hdrop ch (List.mem_reverse.2 List.mem_cons_self)
  rw [hch] at hdropped
  cases hdropped

/-- The text that is written for the connections starts with the name of the first field. -/
theorem toYaml_document (cs : Connections) :
    ∃ more, cs.document.toYaml = "connection_definitions" ++ more := by
  have hkey : trimEndMark '\n' (Yaml.scalarText "connection_definitions") =
      "connection_definitions" := by
    decide +kernel
  have hsimple : Yaml.isSimpleKey "connection_definitions" = true := by decide +kernel
  have hlines : ∃ mark lines,
      cs.document.yamlLines = ("connection_definitions" ++ mark) :: lines := by
    rw [document_eq, yamlLines, yamlFields, yamlField, if_pos hsimple, hkey, ofTable]
    · cases cs.definitions.entries with
      | nil =>
        exact ⟨": \x7b\x7d\n", yamlFields (present "default_connection" .text cs.default), rfl⟩
      | cons e rest => exact ⟨":\n", _, rfl⟩
    · intro h
      cases h
  obtain ⟨mark, lines, hlines⟩ := hlines
  have hjoin : cs.document.toYaml = join "" cs.document.yamlLines := rfl
  rw [hjoin, hlines]
  cases lines with
  | nil => exact ⟨mark, rfl⟩
  | cons line rest =>
    exact ⟨mark ++ ("" ++ join "" (line :: rest)), by simp [join, String.append_assoc]⟩

section Changes

/-- What can be asked for to change the connections. -/
inductive Step where
  | add (name : String) (c : Connection)
  | delete (name : String)
  | setDefault (name : Option String)
deriving DecidableEq, Repr

/-- The connections after an operation that succeeds. -/
def perform (cs : Connections) : Step → Except ConnectionError Connections
  | .add name c => (cs.add name c).map (·.2)
  | .delete name => (cs.delete name).map (·.2)
  | .setDefault name => cs.setDefault name

/-- The operation as it changes a repository in place: its answer, and the repository that it leaves
behind whatever the answer is. A deletion removes first and finds out afterwards whether there was
anything to remove. -/
def Step.run (s : Step) (cs : Connections) : Except ConnectionError Unit × Connections :=
  match s with
  | .add name c =>
    match check name c with
    | .error e => (.error e, cs)
    | .ok () => (.ok (), { cs with definitions := cs.definitions.insert name c })
  | .delete name =>
    let left := { cs with definitions := cs.definitions.erase name }
    match cs.definitions.get? name with
    | none => (.error (.notFound name), left)
    | some _ => (.ok (), if left.default = some name then { left with default := none } else left)
  | .setDefault none => (.ok (), { cs with default := none })
  | .setDefault (some name) =>
    match cs.get name with
    | .error e => (.error e, cs)
    | .ok _ => (.ok (), { cs with default := some name })

/-- The repository after a run of operations, whether or not they fail. -/
def afterAll (cs : Connections) (steps : List Step) : Connections :=
  steps.foldl (fun cs s => (s.run cs).2) cs

/-- Every connection is in order under its name. -/
def Valid (cs : Connections) : Prop := ∀ e ∈ cs.definitions.entries, check e.1 e.2 = .ok ()

/-- The default, if there is one, is the name of a stored connection. -/
def DefaultStored (cs : Connections) : Prop :=
  ∀ name, cs.default = some name → cs.definitions.contains name = true

theorem get_eq_ok : cs.get name = .ok c ↔ cs.definitions.get? name = some c := by
  rw [get]
  cases cs.definitions.get? name <;> simp

theorem perform_add_eq_ok :
    cs.perform (.add name c) = .ok next ↔
      check name c = .ok () ∧ { cs with definitions := cs.definitions.insert name c } = next := by
  rw [perform, map_eq_ok]
  constructor
  · rintro ⟨made, hmade, rfl⟩
    obtain ⟨_, hcheck, hmade⟩ := bind_eq_ok.1 hmade
    exact ⟨hcheck, by rw [← Except.ok.inj hmade]⟩
  · rintro ⟨hcheck, rfl⟩
    exact ⟨_, bind_eq_ok.2 ⟨(), hcheck, rfl⟩, rfl⟩

theorem perform_delete_eq_ok :
    cs.perform (.delete name) = .ok next ↔
      cs.definitions.contains name = true ∧
        { definitions := cs.definitions.erase name
          default := if cs.default = some name then none else cs.default } = next := by
  rw [perform, map_eq_ok]
  constructor
  · rintro ⟨made, hmade, rfl⟩
    obtain ⟨c, hget, hmade⟩ := bind_eq_ok.1 hmade
    refine ⟨?_, by rw [← Except.ok.inj hmade]⟩
    rw [NameTable.contains, get_eq_ok.1 hget, Option.isSome_some]
  · rintro ⟨hstored, rfl⟩
    obtain ⟨c, hget⟩ := Option.isSome_iff_exists.1 hstored
    exact ⟨_, bind_eq_ok.2 ⟨c, get_eq_ok.2 hget, rfl⟩, rfl⟩

theorem perform_setDefault_eq_ok {marker : Option String} :
    cs.perform (.setDefault marker) = .ok next ↔
      (∀ name, marker = some name → cs.definitions.contains name = true) ∧
        { cs with default := marker } = next := by
  rw [perform]
  unfold setDefault
  cases marker with
  | none => simp [pure, Except.pure]
  | some name =>
    simp only [bind_eq_ok, get_eq_ok, Option.some.injEq, forall_eq']
    rw [NameTable.contains, Option.isSome_iff_exists]
    simp [pure, Except.pure]

/-- In place an operation gives the same answer, and what it leaves is what the operation gives, or
what there was if it fails. -/
theorem run_eq (cs : Connections) (s : Step) :
    s.run cs = ((cs.perform s).map fun _ => (), (cs.perform s).toOption.getD cs) := by
  cases s with
  | add name c =>
    rw [perform, add, Step.run]
    cases check name c <;> rfl
  | delete name =>
    rw [perform, delete, get, Step.run]
    cases hget : cs.definitions.get? name with
    | none =>
      -- nothing is stored under the name, so what was removed was nothing
      rw [NameTable.erase_eq_self hget]
      rfl
    | some c =>
      by_cases hmarker : cs.default = some name
      · simp [hmarker, pure, Except.pure, Except.map, Except.toOption]
      · simp [hmarker, pure, Except.pure, Except.map, Except.toOption]
  | setDefault marker =>
    rw [perform]
    unfold setDefault
    cases marker with
    | none => rfl
    | some name =>
      dsimp only [Step.run]
      cases cs.get name <;> rfl

theorem Valid.perform {s : Step} (h : cs.Valid) (hnext : cs.perform s = .ok next) :
    next.Valid := by
  cases s with
  | add name c =>
    obtain ⟨hcheck, rfl⟩ := perform_add_eq_ok.1 hnext
    intro e he
    rcases Entries.mem_put he with hnew | hold
    · obtain ⟨rfl, rfl⟩ := Prod.mk.inj hnew
      exact hcheck
    · exact h e hold
  | delete name =>
    obtain ⟨-, rfl⟩ := perform_delete_eq_ok.1 hnext
    exact fun e he => h e (List.mem_of_mem_filter he)
  | setDefault marker =>
    obtain ⟨-, rfl⟩ := perform_setDefault_eq_ok.1 hnext
    exact h

theorem DefaultStored.perform {s : Step} (h : cs.DefaultStored)
    (hnext : cs.perform s = .ok next) : next.DefaultStored := by
  intro marked hmarked
  cases s with
  | add name c =>
    obtain ⟨-, rfl⟩ := perform_add_eq_ok.1 hnext
    rw [NameTable.contains]
    by_cases hname : name = marked
    · rw [hname, NameTable.get?_insert_self, Option.isSome_some]
    · rw [NameTable.get?_insert_of_ne hname]
      exact h marked hmarked
  | delete name =>
    obtain ⟨-, rfl⟩ := perform_delete_eq_ok.1 hnext
    obtain ⟨hother, hmarked⟩ := Option.ite_none_left_eq_some.1 hmarked
    have hname : name ≠ marked := by
      rintro rfl
      exact hother hmarked
    rw [NameTable.contains, NameTable.get?_erase_of_ne hname]
    exact h marked hmarked
  | setDefault marker =>
    obtain ⟨hstored, rfl⟩ := perform_setDefault_eq_ok.1 hnext
    exact hstored marked hmarked

/-- What every operation that succeeds preserves holds after every operation. -/
theorem run_preserves {P : Connections → Prop}
    (hstep : ∀ {cs next : Connections} {s : Step}, P cs → cs.perform s = .ok next → P next)
    (h : P cs) (s : Step) : P (s.run cs).2 := by
  rw [run_eq]
  cases hperform : cs.perform s with
  | error e => exact h
  | ok next => exact hstep h hperform

/-- And so after a run of operations. -/
theorem afterAll_preserves {P : Connections → Prop}
    (hstep : ∀ {cs next : Connections} {s : Step}, P cs → cs.perform s = .ok next → P next)
    (h : P cs) (steps : List Step) : P (cs.afterAll steps) := by
  induction steps generalizing cs with
  | nil => exact h
  | cons s rest ih => exact ih (run_preserves hstep h s)

end Changes

section Saving

variable {files written : Files} {path : String}

theorem checkAll_eq_ok {entries : List (String × Connection)} :
    checkAll entries = .ok () ↔ ∀ e ∈ entries, check e.1 e.2 = .ok () := by
  induction entries with
  | nil => simp [checkAll]
  | cons e rest ih =>
    rw [checkAll, bind_eq_ok, List.forall_mem_cons, ← ih]
    exact ⟨fun ⟨_, hfirst, hrest⟩ => ⟨hfirst, hrest⟩, fun ⟨hfirst, hrest⟩ => ⟨(), hfirst, hrest⟩⟩

/-- A repository is empty because there is no file, or it is what the text of the file holds. -/
theorem load_eq_ok :
    load files path = .ok cs ↔
      files.has path = false ∧ cs = {} ∨
      files.has path = true ∧
        ∃ content, files.read path = .ok content ∧ ofText? content = some cs ∧ cs.Valid := by
  unfold load
  cases hhas : files.has path with
  | false => simp [pure, Except.pure, eq_comm]
  | true =>
    cases hread : files.read path with
    | error cause => simp
    | ok content =>
      cases htext : ofText? content with
      | none => simp [htext]
      | some held =>
        have hchecked : (do checkAll held.definitions.entries; pure held) = .ok cs ↔
            held = cs ∧ held.Valid := by
          rw [bind_eq_ok]
          constructor
          · rintro ⟨_, hall, hheld⟩
            exact ⟨Except.ok.inj hheld, checkAll_eq_ok.1 hall⟩
          · rintro ⟨rfl, hvalid⟩
            exact ⟨(), checkAll_eq_ok.2 hvalid, rfl⟩
        simp only [htext, Bool.not_true, Bool.false_eq_true, if_false]
        rw [hchecked]
        constructor
        · rintro ⟨rfl, hvalid⟩
          exact Or.inr ⟨trivial, content, rfl, htext, hvalid⟩
        · rintro (⟨hno, -⟩ | ⟨-, found, hfound, hcs, hvalid⟩)
          · cases hno
          · obtain rfl : content = found := Except.ok.inj hfound
            obtain rfl : held = cs := Option.some.inj (htext.symm.trans hcs)
            exact ⟨rfl, hvalid⟩

theorem valid_of_load (h : load files path = .ok cs) : cs.Valid := by
  rcases load_eq_ok.1 h with ⟨-, rfl⟩ | ⟨-, content, -, -, hvalid⟩
  · exact fun e he => absurd he List.not_mem_nil
  · exact hvalid

/-- The text that was written holds the connections if it is read as the document that was
written. -/
theorem ofText?_toYaml
    (hreads : (ofYaml? cs.document.toYaml).map meaning = some cs.document) :
    ofText? cs.document.toYaml = some cs := by
  obtain ⟨d, hd, hmeaning⟩ := Option.map_eq_some_iff.1 hreads
  obtain ⟨more, htext⟩ := toYaml_document cs
  have hblank : trim cs.document.toYaml ≠ "" := by
    rw [htext]
    exact trim_ne_empty (String.toList_append ..) (by decide)
  rw [ofText?, if_neg (by simpa using hblank), hd, Option.bind_some]
  exact seesMeaning d cs (by rw [hmeaning, ofDocument?_document])

theorem save_eq_ok :
    cs.save files path = .ok written ↔
      ∃ made, files.makeParents path = .ok made ∧
        made.write path cs.document.toYaml = .ok written := by
  rw [save]
  cases hmade : files.makeParents path with
  | error e => simp
  | ok made =>
    cases hwrite : made.write path cs.document.toYaml <;> simp [hwrite]

/-- What was saved is loaded again. -/
theorem load_of_save (hvalid : cs.Valid)
    (hreads : (ofYaml? cs.document.toYaml).map meaning = some cs.document)
    (hsave : cs.save files path = .ok written) : load written path = .ok cs := by
  obtain ⟨made, -, hwrite⟩ := save_eq_ok.1 hsave
  obtain ⟨hhas, hread⟩ := Files.read_of_write hwrite
  exact load_eq_ok.2 (Or.inr ⟨hhas, _, hread, ofText?_toYaml hreads, hvalid⟩)

/-- What was loaded from a file can be saved there. -/
theorem save_of_has {loaded : Connections} (hload : load files path = .ok loaded)
    (hhas : files.has path = true) (cs : Connections) :
    ∃ written, cs.save files path = .ok written := by
  rcases load_eq_ok.1 hload with ⟨hmissing, -⟩ | ⟨-, content, hread, -⟩
  · rw [hhas] at hmissing
    cases hmissing
  · obtain ⟨hmade, written, hwrite⟩ := Files.write_of_read hread cs.document.toYaml
    exact ⟨written, save_eq_ok.2 ⟨files, hmade, hwrite⟩⟩

/-- Over all runs of operations on a repository that was loaded, failing ones included: every stored
connection stays in order, and the default stays the name of one that is stored if it was so at the
start. An operation that fails leaves the repository as it was. What is saved after the run is
loaded as it is, provided that its YAML text is read as the document that was written, whatever
plain scalars stand for; and it can be saved where it came from. -/
theorem repository_after_load (hload : load files path = .ok cs) (steps : List Step) :
    (cs.afterAll steps).Valid ∧
    (cs.DefaultStored → (cs.afterAll steps).DefaultStored) ∧
    (∀ (s : Step) (e : ConnectionError), (s.run (cs.afterAll steps)).1 = .error e →
      (cs.afterAll steps).perform s = .error e ∧
        (s.run (cs.afterAll steps)).2 = cs.afterAll steps) ∧
    (∀ s : Step, (s.run (cs.afterAll steps)).1 = .ok () →
      (cs.afterAll steps).perform s = .ok (s.run (cs.afterAll steps)).2) ∧
    ((ofYaml? (cs.afterAll steps).document.toYaml).map meaning =
        some (cs.afterAll steps).document →
      ∀ (before written : Files) (target : String),
        (cs.afterAll steps).save before target = .ok written →
        load written target = .ok (cs.afterAll steps)) ∧
    (files.has path = true → ∃ written, (cs.afterAll steps).save files path = .ok written) := by
  have hvalid : (cs.afterAll steps).Valid :=
    afterAll_preserves Valid.perform (valid_of_load hload) steps
  refine ⟨hvalid, fun hstored => afterAll_preserves DefaultStored.perform hstored steps,
    fun s e he => ?_, fun s hs => ?_, fun hreads before written target hsave =>
      load_of_save hvalid hreads hsave, fun hhas => save_of_has hload hhas _⟩
  · rw [run_eq] at he ⊢
    cases hperform : (cs.afterAll steps).perform s with
    | ok next => simp [hperform, Except.map] at he
    | error cause =>
      obtain rfl : cause = e := by simpa [hperform, Except.map] using he
      exact ⟨rfl, rfl⟩
  · rw [run_eq] at hs ⊢
    cases hperform : (cs.afterAll steps).perform s with
    | error cause => simp [hperform, Except.map] at hs
    | ok next => rfl

/-- A file with one connection that only mocks a server and is the default. -/
def mockFile : Files where
  entries := NameTable.empty.insert "c.yaml"
    (.text "connection_definitions:\n  a:\n    mock_server: [m]\ndefault_connection: a\n")

def mockConnections : Connections where
  definitions := NameTable.empty.insert "a" { mockServer := ["m"] }
  default := some "a"

/-- A connection is added and made the default, one is not found, and the old default is deleted. -/
def replacement : List Step :=
  [.add "b" { server := some "h", timeout := some 30, noVerify := true }, .setDefault (some "b"),
    .delete "c", .delete "a"]

theorem repository_after_load_of_replacement :
    (mockConnections.afterAll replacement).names = ["b"] ∧
    (mockConnections.afterAll replacement).Valid ∧
    (mockConnections.afterAll replacement).DefaultStored ∧
    (Step.run (.delete "a") (mockConnections.afterAll replacement)).2 =
      mockConnections.afterAll replacement ∧
    ∃ written, (mockConnections.afterAll replacement).save mockFile "c.yaml" = .ok written ∧
      load written "c.yaml" = .ok (mockConnections.afterAll replacement) := by
  have hload : load mockFile "c.yaml" = .ok mockConnections := by decide +kernel
  obtain ⟨hvalid, hdefault, herror, -, hagain, hsaved⟩ := repository_after_load hload replacement
  have hstored : mockConnections.DefaultStored := by
    intro name hname
    obtain rfl : "a" = name := Option.some.inj hname
    decide
  obtain ⟨written, hwritten⟩ := hsaved (by decide)
  refine ⟨by decide, hvalid, hdefault hstored, (herror (.delete "a") (.notFound "a") (by decide)).2,
    written, hwritten, hagain (by decide +kernel) mockFile written "c.yaml" hwritten⟩

end Saving

end Connections

end CimConsole
