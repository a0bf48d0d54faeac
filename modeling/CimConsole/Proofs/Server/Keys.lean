import CimConsole.Proofs.Model.Equality
import CimConsole.Proofs.Server.Store
import CimConsole.Server.Repository

/-!
Keys of stored instances. In every namespace of a server each instance belongs to a declared
class and stands at the path that its key properties give, and no path equals that of a later
instance. Loading a repository establishes this and creating and deleting preserve it, so it
holds behind every sequence of calls. It is what makes the first match of a path the only one
that counts.
-/
namespace CimConsole

open Text

namespace Namespace

section OtherInstances

variable (ns : Namespace) (xs : List Instance)

@[simp] theorem class?_instances (name : String) :
    class? { ns with instances := xs } name = ns.class? name := rfl

theorem superclassChain_instances (name : String) :
    superclassChain { ns with instances := xs } name = ns.superclassChain name := by
  have hwalk : ∀ steps c, walk { ns with instances := xs } steps c = ns.walk steps c := by
    intro steps
    induction steps with
    | zero => intro c; rfl
    | succ steps ih =>
      intro c
      cases c with
      | none => rfl
      | some c =>
        rw [walk, walk, ih]
        rfl
  exact hwalk _ _

@[simp] theorem isWithin_instances (name ancestor : String) :
    isWithin { ns with instances := xs } name ancestor = ns.isWithin name ancestor := by
  rw [isWithin, isWithin, superclassChain_instances]

@[simp] theorem pathFor_instances (space : String) (x : Instance) :
    pathFor { ns with instances := xs } space x = ns.pathFor space x := by
  simp only [pathFor, keyNames, resolve?, superclassChain_instances, class?_instances]

end OtherInstances

variable {ns : Namespace} {own space : String}

theorem of_bindKeys {className : String} {x : Instance} {keys : List String} {p path : ObjectPath}
    (h : bindKeys className x keys p = .ok path) :
    path.nameSpace = p.nameSpace ∧ path.className = p.className ∧
      (Ordered p.keys → Ordered path.keys) ∧
      ∀ e ∈ path.keys, e ∈ p.keys ∨ x.get? e.1 = some e.2 := by
  induction keys generalizing p with
  | nil =>
    obtain rfl : p = path := Except.ok.inj h
    exact ⟨rfl, rfl, id, fun e he => Or.inl he⟩
  | cons key rest ih =>
    rw [bindKeys] at h
    cases hget : x.get? key with
    | none => simp [hget] at h
    | some v =>
      simp only [hget] at h
      obtain ⟨hspace, hname, hordered, hkeys⟩ := ih h
      refine ⟨hspace, hname, fun hp => hordered (Entries.ordered_put key v hp), fun e he => ?_⟩
      rcases hkeys e he with hput | hfound
      · rcases Entries.mem_put hput with heq | hmem
        · obtain rfl : e = (key, v) := heq
          exact Or.inr hget
        · exact Or.inl hmem
      · exact Or.inr hfound

/-- What a path says that the keys of an instance give. -/
theorem of_pathFor {x : Instance} {path : ObjectPath} (h : ns.pathFor space x = .ok path) :
    ∃ cls, ns.class? x.className = some cls ∧ path.nameSpace = some space ∧
      path.className = cls.name ∧ Ordered path.keys ∧
      ∀ e ∈ path.keys, x.get? e.1 = some e.2 := by
  unfold pathFor at h
  cases hclass : ns.class? x.className with
  | none => simp [hclass] at h
  | some cls =>
    simp only [hclass] at h
    split at h
    · cases h
    · obtain ⟨hspace, hname, hordered, hkeys⟩ := of_bindKeys h
      refine ⟨cls, rfl, hspace, hname, hordered List.Pairwise.nil, fun e he => ?_⟩
      rcases hkeys e he with hnil | hget
      · exact absurd hnil List.not_mem_nil
      · exact hget

/-- The path of an instance does not depend on where it stands. -/
@[simp] theorem pathFor_placed (ns : Namespace) (space : String) (x : Instance)
    (path : Option ObjectPath) : ns.pathFor space { x with path } = ns.pathFor space x := by
  have hbind : ∀ name keys p, bindKeys name { x with path } keys p = bindKeys name x keys p := by
    intro name keys
    induction keys with
    | nil => intro p; rfl
    | cons key rest ih =>
      intro p
      have hget : Instance.get? { x with path } key = x.get? key := rfl
      simp only [bindKeys, hget, ih]
  simp only [pathFor, hbind]

/-- A class that was found is found again by its own name. -/
theorem class?_self {name : String} {cls : ClassDecl} (h : ns.class? name = some cls) :
    ∃ c, ns.class? cls.name = some c ∧ sameName c.name cls.name = true := by
  have hmem := List.mem_of_find?_eq_some h
  cases hfound : ns.class? cls.name with
  | none =>
    have hnone := List.find?_eq_none.1 hfound cls hmem
    simp [sameName_refl] at hnone
  | some c => exact ⟨c, rfl, by simpa using List.find?_some hfound⟩

/-- Every instance belongs to a declared class and stands at the path of its keys, and no path
equals that of a later instance. -/
structure Keyed (own : String) (ns : Namespace) : Prop where
  classed : ∀ x ∈ ns.instances, (ns.class? x.className).isSome
  placed : ∀ x ∈ ns.instances, ∃ p, x.path = some p ∧ ns.pathFor own x = .ok p
  distinct : ns.instances.Pairwise fun x y =>
    ∀ p q, x.path = some p → y.path = some q → p.same q = false

theorem isAt_of_path {path p : ObjectPath} {x : Instance} (h : x.path = some p) :
    isAt path x = p.same path := by
  rw [isAt, h]

/-- An instance at a path that was free is the last one of a namespace that is still keyed. -/
theorem Keyed.add (h : ns.Keyed own) {x : Instance} {path : ObjectPath}
    (hpath : ns.pathFor own x = .ok path) (hfree : ns.find? path = none) :
    Keyed own { ns with instances := ns.instances ++ [{ x with path := some path }] } := by
  have hnone : ∀ y ∈ ns.instances, isAt path y = false := by
    simpa [Namespace.find?] using hfree
  constructor
  case classed =>
    intro y hy
    rcases List.mem_append.1 hy with hy | hy
    · exact h.classed y hy
    · obtain rfl := List.mem_singleton.1 hy
      obtain ⟨cls, hclass, -⟩ := of_pathFor hpath
      exact Option.isSome_iff_exists.2 ⟨cls, hclass⟩
  case placed =>
    intro y hy
    rcases List.mem_append.1 hy with hy | hy
    · obtain ⟨p, hp, hfor⟩ := h.placed y hy
      exact ⟨p, hp, by rwa [pathFor_instances]⟩
    · obtain rfl := List.mem_singleton.1 hy
      exact ⟨path, rfl, by rwa [pathFor_instances, pathFor_placed]⟩
  case distinct =>
    refine List.pairwise_append.2 ⟨h.distinct, List.pairwise_singleton _ _, ?_⟩
    intro y hy z hz p q hp hq
    obtain rfl := List.mem_singleton.1 hz
    obtain rfl := Option.some.inj hq
    rw [← isAt_of_path hp]
    exact hnone y hy

/-- With fewer instances a namespace is still keyed. -/
theorem Keyed.sublist (h : ns.Keyed own) {kept : List Instance} (hsub : kept.Sublist ns.instances) :
    Keyed own { ns with instances := kept } := by
  constructor
  case classed => exact fun x hx => h.classed x (hsub.mem hx)
  case placed =>
    intro x hx
    obtain ⟨p, hp, hfor⟩ := h.placed x (hsub.mem hx)
    exact ⟨p, hp, by rwa [pathFor_instances]⟩
  case distinct => exact h.distinct.sublist hsub

/-- An instance is found under another path that the stored paths equal as they equal its own. -/
theorem Keyed.find?_of_same_iff (h : ns.Keyed own) {x : Instance} {p q : ObjectPath}
    (hx : x ∈ ns.instances) (hp : x.path = some p) (hself : p.same p = true)
    (hq : ∀ y ∈ ns.instances, ∀ u, y.path = some u → u.same q = u.same p) :
    ns.find? q = some x := by
  obtain ⟨before, after, hsplit⟩ := List.append_of_mem hx
  refine List.find?_eq_some_iff_append.2 ⟨?_, before, after, hsplit, fun y hy => ?_⟩
  · rw [isAt_of_path hp, hq x hx p hp, hself]
  · have hmem : y ∈ ns.instances := hsplit ▸ List.mem_append_left _ hy
    have hdistinct := h.distinct
    rw [hsplit, List.pairwise_append] at hdistinct
    obtain ⟨u, hu, -⟩ := h.placed y hmem
    have hother := hdistinct.2.2 y hy x List.mem_cons_self u p hu hp
    rw [isAt_of_path hu, hq y hmem u hu, hother]
    rfl

/-- The instance at a path that equals itself is the one that is found there. -/
theorem Keyed.find?_path (h : ns.Keyed own) {x : Instance} {p : ObjectPath}
    (hx : x ∈ ns.instances) (hp : x.path = some p) (hself : p.same p = true) :
    ns.find? p = some x :=
  h.find?_of_same_iff hx hp hself fun _ _ _ _ => rfl

/-- Loading puts each instance at its path, and no path equals one that came before. -/
theorem of_placeInstances {before : List ObjectPath} {xs placed : List Instance}
    (h : ns.placeInstances space before xs = .ok placed) :
    (∀ y ∈ placed, ∃ p, y.path = some p ∧ ns.pathFor space y = .ok p ∧
      ∀ b ∈ before, b.same p = false) ∧
    placed.Pairwise fun x y => ∀ p q, x.path = some p → y.path = some q → p.same q = false := by
  induction xs generalizing before placed with
  | nil =>
    obtain rfl := Except.ok.inj h
    exact ⟨fun y hy => absurd hy List.not_mem_nil, List.Pairwise.nil⟩
  | cons x rest ih =>
    rw [placeInstances] at h
    cases hpath : ns.pathFor space x with
    | error e => simp [hpath] at h
    | ok path =>
      simp only [hpath] at h
      split at h
      · cases h
      · next hnew =>
        obtain ⟨others, hothers, h⟩ := bind_eq_ok.1 h
        obtain rfl := Except.ok.inj h
        obtain ⟨hplaced, hdistinct⟩ := ih hothers
        constructor
        · intro y hy
          rcases List.mem_cons.1 hy with rfl | hy
          · refine ⟨path, rfl, by rwa [pathFor_placed], fun b hb => ?_⟩
            cases hsame : b.same path with
            | false => rfl
            | true => exact absurd (List.any_eq_true.2 ⟨b, hb, hsame⟩) hnew
          · obtain ⟨p, hp, hfor, hbefore⟩ := hplaced y hy
            exact ⟨p, hp, hfor, fun b hb => hbefore b (List.mem_append_left _ hb)⟩
        · refine List.pairwise_cons.2 ⟨fun y hy p q hp hq => ?_, hdistinct⟩
          obtain ⟨q', hq', -, hbefore⟩ := hplaced y hy
          obtain rfl := Option.some.inj (hq'.symm.trans hq)
          obtain rfl := Option.some.inj hp
          exact hbefore path (List.mem_append_right _ (List.mem_singleton_self _))

theorem keyed_of_load {loaded : Namespace} (h : load own ns = .ok loaded) : loaded.Keyed own := by
  obtain ⟨-, -, h⟩ := bind_eq_ok.1 h
  obtain ⟨placed, hplaced, h⟩ := bind_eq_ok.1 h
  obtain rfl := Except.ok.inj h
  obtain ⟨hall, hdistinct⟩ := of_placeInstances hplaced
  constructor
  case classed =>
    intro x hx
    obtain ⟨p, -, hfor, -⟩ := hall x hx
    obtain ⟨cls, hclass, -⟩ := of_pathFor hfor
    exact Option.isSome_iff_exists.2 ⟨cls, hclass⟩
  case placed =>
    intro x hx
    obtain ⟨p, hp, hfor, -⟩ := hall x hx
    exact ⟨p, hp, by rwa [pathFor_instances]⟩
  case distinct => exact hdistinct

end Namespace

namespace Repository

theorem of_loadAll {named loaded : List (String × Namespace)} (h : loadAll named = .ok loaded)
    {e : String × Namespace} (he : e ∈ loaded) : ∃ given, Namespace.load e.1 given = .ok e.2 := by
  induction named generalizing loaded with
  | nil =>
    obtain rfl := Except.ok.inj h
    exact absurd he List.not_mem_nil
  | cons d rest ih =>
    obtain ⟨first, hfirst, h⟩ := bind_eq_ok.1 h
    obtain ⟨others, hothers, h⟩ := bind_eq_ok.1 h
    obtain rfl := Except.ok.inj h
    rcases List.mem_cons.1 he with rfl | he
    · exact ⟨d.2, hfirst⟩
    · exact ih hothers he

/-- Every namespace of the server of a repository was loaded. -/
theorem of_server {r : Repository} {default : Option String} {url : String} {s : Server}
    (h : r.server default url = .ok s) {e : String × Namespace} (he : e ∈ s.namespaces) :
    ∃ given, Namespace.load e.1 given = .ok e.2 := by
  obtain ⟨named, -, h⟩ := bind_eq_ok.1 h
  obtain ⟨loaded, hloaded, h⟩ := bind_eq_ok.1 h
  obtain rfl := Except.ok.inj h
  exact of_loadAll hloaded he

end Repository

namespace Server

/-- Every namespace of a server is keyed under the name that it is stored under. -/
def Keyed (s : Server) : Prop := ∀ e ∈ s.namespaces, e.2.Keyed e.1

variable {s t : Server}

theorem keyed_of_repository {r : Repository} {default : Option String} {url : String}
    (h : r.server default url = .ok s) : s.Keyed := by
  intro e he
  obtain ⟨given, hload⟩ := Repository.of_server h he
  exact Namespace.keyed_of_load hload

theorem Keyed.of_holds (h : s.Keyed) {name own : String} {ns : Namespace}
    (hns : s.Holds name own ns) : ns.Keyed own :=
  h _ (List.mem_of_find?_eq_some hns.1)

theorem Keyed.withNamespace (h : s.Keyed) {name own : String} {ns ns' : Namespace}
    (hns : s.Holds name own ns) (hns' : ns'.Keyed own) : (s.withNamespace name ns').Keyed := by
  intro e he
  rcases hns.mem_withNamespace he with rfl | he
  · exact hns'
  · exact h e he

theorem Keyed.create (h : s.Keyed) {name : String} {x : Instance} {path : ObjectPath}
    (hc : s.create name x = .ok (path, t)) : t.Keyed := by
  obtain ⟨own, ns, hns, hpath, hfree, rfl⟩ := create_eq_ok.1 hc
  exact h.withNamespace hns ((h.of_holds hns).add hpath hfree)

theorem Keyed.delete (h : s.Keyed) {name : String} {path : ObjectPath}
    (hd : s.delete name path = .ok t) : t.Keyed := by
  obtain ⟨own, ns, x, hns, -, -, rfl⟩ := delete_eq_ok.1 hd
  exact h.withNamespace hns ((h.of_holds hns).sublist (removeFirst_sublist _ _))

/-- Deleting the path of a stored instance, if that path equals itself, removes this instance and
leaves the others in their order. -/
theorem delete_stored {name own : String} {ns : Namespace} (hns : s.Holds name own ns)
    (hkeyed : ns.Keyed own) {before after : List Instance} {x : Instance} {path : ObjectPath}
    (hsplit : ns.instances = before ++ x :: after) (hpath : x.path = some path)
    (hself : path.same path = true) :
    s.delete name path = .ok (s.withNamespace name { ns with instances := before ++ after }) := by
  have hmem : x ∈ ns.instances := hsplit ▸ List.mem_append_right _ List.mem_cons_self
  have hbefore : ∀ y ∈ before, Namespace.isAt path y = false := by
    intro y hy
    obtain ⟨q, hq, -⟩ := hkeyed.placed y (hsplit ▸ List.mem_append_left _ hy)
    have hdistinct := hkeyed.distinct
    rw [hsplit, List.pairwise_append] at hdistinct
    rw [Namespace.isAt_of_path hq]
    exact hdistinct.2.2 y hy x List.mem_cons_self q path hq hpath
  have hat : Namespace.isAt path x = true := by rwa [Namespace.isAt_of_path hpath]
  obtain ⟨p, hp, hfor⟩ := hkeyed.placed x hmem
  obtain rfl := Option.some.inj (hp.symm.trans hpath)
  obtain ⟨cls, hclass, -, hname, -, -⟩ := Namespace.of_pathFor hfor
  obtain ⟨c, hclass, -⟩ := Namespace.class?_self hclass
  refine delete_eq_ok.2 ⟨own, ns, x, hns, ?_, ?_, ?_⟩
  · rw [hname, hclass]
    rfl
  · exact List.find?_eq_some_iff_append.2 ⟨hat, before, after, hsplit,
      fun y hy => by simp [hbefore y hy]⟩
  · rw [hsplit, removeFirst_append after hbefore hat]

/-- What is created is found under the path that comes back, if that path equals itself. -/
theorem get_created {name : String} {x : Instance} {path : ObjectPath}
    (hc : s.create name x = .ok (path, t)) (hself : path.same path = true) :
    t.get name path none = .ok { x with path := some path } := by
  obtain ⟨own, ns, hns, hpath, hfree, rfl⟩ := create_eq_ok.1 hc
  obtain ⟨cls, hclass, -, hname, -, -⟩ := Namespace.of_pathFor hpath
  obtain ⟨c, hself', -⟩ := Namespace.class?_self hclass
  refine get_eq_ok.2 ⟨own, _, hns.withNamespace hns.2, ?_, ?_⟩
  · rw [Namespace.class?_instances, hname, hself']
    rfl
  · have hnone : ns.instances.find? (Namespace.isAt path) = none := hfree
    have hlast : Namespace.isAt path { x with path := some path } = true := hself
    rw [Namespace.find?, List.find?_append, hnone, Option.none_or]
    simp [hlast]

/-- Deleting what was just created brings the former server back. -/
theorem delete_created {name : String} {x : Instance} {path : ObjectPath}
    (hc : s.create name x = .ok (path, t)) (hself : path.same path = true) :
    t.delete name path = .ok s := by
  have hget := get_created hc hself
  obtain ⟨own, ns, hns, -, hfree, rfl⟩ := create_eq_ok.1 hc
  obtain ⟨own', ns', hns', hclass, hfound⟩ := get_eq_ok.1 hget
  have hlater : Holds (s.withNamespace name
      { ns with instances := ns.instances ++ [{ x with path := some path }] }) name own
      { ns with instances := ns.instances ++ [{ x with path := some path }] } :=
    hns.withNamespace hns.2
  obtain ⟨rfl, rfl⟩ := hlater.unique hns'
  refine delete_eq_ok.2 ⟨own, _, _, hns', hclass, hfound, ?_⟩
  have hnone : ∀ y ∈ ns.instances, Namespace.isAt path y = false := by
    simpa [Namespace.find?] using hfree
  have hlast : Namespace.isAt path { x with path := some path } = true := hself
  have hremove := removeFirst_append [] hnone hlast
  rw [List.append_nil] at hremove
  simp only [hremove]
  exact (hns.withNamespace_back _).symm

end Server

/-- The calls that change a server. -/
inductive StoreCall where
  | create (space : String) (x : Instance)
  | delete (space : String) (path : ObjectPath)

namespace StoreCall

/-- The answer to a call, with the path of what was created, and the server that comes out. -/
def answer (s : Server) : StoreCall → Except ServerError (Option ObjectPath × Server)
  | .create space x => (s.create space x).map fun made => (some made.1, made.2)
  | .delete space path => (s.delete space path).map fun t => (none, t)

/-- The server behind a call; one that fails leaves it as it was. -/
def after (s : Server) (c : StoreCall) : Server :=
  match c.answer s with
  | .ok (_, t) => t
  | .error _ => s

theorem after_create {s t : Server} {name : String} {x : Instance} {path : ObjectPath}
    (h : s.create name x = .ok (path, t)) : (StoreCall.create name x).after s = t := by
  simp [after, answer, h, Except.map]

theorem after_delete {s t : Server} {name : String} {path : ObjectPath}
    (h : s.delete name path = .ok t) : (StoreCall.delete name path).after s = t := by
  simp [after, answer, h, Except.map]

/-- Behind a call everything is as before or as creating or deleting left it. -/
theorem after_cases (s : Server) (c : StoreCall) : c.after s = s ∨
    (∃ name x path, s.create name x = .ok (path, c.after s)) ∨
      ∃ name path, s.delete name path = .ok (c.after s) := by
  cases c with
  | create name x =>
    cases hc : s.create name x with
    | error e => exact Or.inl (by simp [after, answer, hc, Except.map])
    | ok made => exact Or.inr (Or.inl ⟨name, x, made.1, by rw [hc, after_create hc]⟩)
  | delete name path =>
    cases hd : s.delete name path with
    | error e => exact Or.inl (by simp [after, answer, hd, Except.map])
    | ok t => exact Or.inr (Or.inr ⟨name, path, by rw [hd, after_delete hd]⟩)

end StoreCall

namespace Server

variable {s t : Server}

def afterCalls (s : Server) (calls : List StoreCall) : Server := calls.foldl StoreCall.after s

theorem Keyed.after (h : s.Keyed) (c : StoreCall) : (c.after s).Keyed := by
  rcases StoreCall.after_cases s c with hsame | ⟨name, x, path, hc⟩ | ⟨name, path, hd⟩
  · rwa [hsame]
  · exact h.create hc
  · exact h.delete hd

theorem Keyed.afterCalls (h : s.Keyed) (calls : List StoreCall) : (s.afterCalls calls).Keyed := by
  induction calls generalizing s with
  | nil => exact h
  | cons c rest ih => exact ih (h.after c)

/-- The keys of stored instances behind every sequence of calls. Each namespace stays keyed, and
a call that fails changes nothing. What is created is one more instance at the end of one
namespace; without a NaN in its path it is found under the path that came back, and deleting
that path restores the server. What is deleted is the instance that would have been found. -/
theorem keys_after_calls {r : Repository} {default : Option String} {url : String}
    (hload : r.server default url = .ok s) (calls : List StoreCall)
    (ht : s.afterCalls calls = t) :
    (∀ e ∈ t.namespaces, e.2.Keyed e.1) ∧
    (∀ (c : StoreCall) (e : ServerError), c.answer t = .error e → c.after t = t) ∧
    (∀ (name : String) (x : Instance) (path : ObjectPath) (t' : Server),
      t.create name x = .ok (path, t') →
        (∃ own ns, t.Holds name own ns ∧ t.DifferIn t' own ns
          { ns with instances := ns.instances ++ [{ x with path := some path }] }) ∧
        (path.Tabled → path.anyReal Number.Binary64.isNaN = false →
          t'.get name path none = .ok { x with path := some path } ∧
          t'.delete name path = .ok t)) ∧
    ∀ (name : String) (path : ObjectPath) (t' : Server), t.delete name path = .ok t' →
      ∃ own ns before x after, t.Holds name own ns ∧ t.get name path none = .ok x ∧
        ns.instances = before ++ x :: after ∧
        t.DifferIn t' own ns { ns with instances := before ++ after } := by
  have hkeyed : t.Keyed := ht ▸ (keyed_of_repository hload).afterCalls calls
  refine ⟨hkeyed, ?_, ?_, ?_⟩
  · intro c e he
    rw [StoreCall.after, he]
  · intro name x path t' hc
    obtain ⟨own, ns, hns, -, -, ht'⟩ := create_eq_ok.1 hc
    refine ⟨⟨own, ns, hns, ht' ▸ hns.differIn _⟩, fun htabled hreal => ?_⟩
    have hself := ObjectPath.same_self htabled hreal
    exact ⟨get_created hc hself, delete_created hc hself⟩
  · intro name path t' hd
    obtain ⟨own, ns, x, hns, hclass, hfound, ht'⟩ := delete_eq_ok.1 hd
    obtain ⟨before, after, hsplit, hremove, -, -⟩ := removeFirst_split hfound
    refine ⟨own, ns, before, x, after, hns, get_eq_ok.2 ⟨own, ns, hns, hclass, hfound⟩, hsplit, ?_⟩
    rw [ht', hremove]
    exact hns.differIn _

/-- A class whose instances are told apart by their names. -/
def diskClass : ClassDecl where
  name := "TST_Disk"
  properties := [{ name := "Name", qualifiers := .ofList [("Key", .boolean true)] }]

def disk (name : String) : Instance :=
  ({ className := "tst_disk" } : Instance).withProperty "name" (.text name)

def diskPath (name : String) : ObjectPath :=
  ⟨some "root/cimv2", "TST_Disk", [("Name", .text name)]⟩

/-- A repository with one disk. -/
def diskRepository : Repository where
  namespaces := .ofList
    [("/root/cimv2/", { classes := [diskClass], instances := [disk "sda"] })]

/-- The server with these disks, each at its path. -/
def diskServer (names : List String) : Server where
  url := "mock"
  defaultNamespace := "root/cimv2"
  namespaces := [("root/cimv2", {
    classes := [diskClass]
    instances := names.map fun name =>
      { disk name with path := some ⟨some "root/cimv2", "TST_Disk", [("Name", .text name)]⟩ } })]

/-- A disk is added to the repository and the first one removed under a path in other letters; a
third one is then created and deleted. -/
theorem keys_after_calls_of_disks :
    diskRepository.server none "mock" = .ok (diskServer ["sda"]) ∧
    (diskServer ["sda"]).afterCalls [.create "ROOT/CIMV2" (disk "sdb"),
      .delete "root/cimv2" ⟨none, "TST_DISK", [("NAME", .text "sda")]⟩] = diskServer ["sdb"] ∧
    (∀ e ∈ (diskServer ["sdb"]).namespaces, e.2.Keyed e.1) ∧
    (diskServer ["sdb"]).create "root/cimv2/" (disk "sdc") =
      .ok (diskPath "sdc", diskServer ["sdb", "sdc"]) ∧
    (diskServer ["sdb", "sdc"]).delete "root/cimv2/" (diskPath "sdc") =
      .ok (diskServer ["sdb"]) := by
  have hload : diskRepository.server none "mock" = .ok (diskServer ["sda"]) := rfl
  have hadd : StoreCall.after (diskServer ["sda"]) (.create "ROOT/CIMV2" (disk "sdb")) =
      diskServer ["sda", "sdb"] := rfl
  have hremove : StoreCall.after (diskServer ["sda", "sdb"])
      (.delete "root/cimv2" ⟨none, "TST_DISK", [("NAME", .text "sda")]⟩) = diskServer ["sdb"] := rfl
  have hcalls : (diskServer ["sda"]).afterCalls [.create "ROOT/CIMV2" (disk "sdb"),
      .delete "root/cimv2" ⟨none, "TST_DISK", [("NAME", .text "sda")]⟩] = diskServer ["sdb"] := by
    rw [afterCalls, List.foldl_cons, List.foldl_cons, List.foldl_nil, hadd, hremove]
  have hcreate : (diskServer ["sdb"]).create "root/cimv2/" (disk "sdc") =
      .ok (diskPath "sdc", diskServer ["sdb", "sdc"]) := rfl
  obtain ⟨hkeyed, -, hcreated, -⟩ := keys_after_calls hload _ hcalls
  have htabled : (diskPath "sdc").Tabled := by
    simp [diskPath, ObjectPath.Tabled, Ordered, Value.Tabled]
  exact ⟨hload, hcalls, hkeyed, hcreate, ((hcreated _ _ _ _ hcreate).2 htabled rfl).2⟩

end Server

end CimConsole
