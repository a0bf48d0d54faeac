import CimConsole.Proofs.Command.Assignments
import CimConsole.Proofs.Command.KeyTexts
import CimConsole.Proofs.Command.Rules
import CimConsole.Proofs.Server.Binding
import CimConsole.Proofs.Server.Reachable

/-!
Keys that are given twice: to create an instance, where the class says of what type they are, and to
get it, where the type is guessed from the text. The instance is found under the same assignments if
and only if every key was given by one spelling of its name and a text that both readings take alike.
-/
namespace CimConsole

open Text

namespace InstanceCommand

variable {c : ClassDecl} {x : Instance} {pairs : List (String × String)} {name : String}

/-- No key is given by two spellings of its name. -/
def KeysSpelledOnce (c : ClassDecl) (items : List String) : Prop :=
  ∀ a ∈ keyPairs c items, ∀ b ∈ keyPairs c items, sameName a.1 b.1 = true → a.1 = b.1

/-- For each key the text that is given last reads alike with the type and without it. -/
def KeysReadAlike (c : ClassDecl) (items : List String) : Prop :=
  ∀ p ∈ c.properties, p.isKey = true →
    ∀ raw ∈ lastText? (sameName · p.name) (keyPairs c items), ReadsAlike p.type raw

instance (c : ClassDecl) (items : List String) : Decidable (KeysSpelledOnce c items) :=
  inferInstanceAs (Decidable (∀ a ∈ keyPairs c items, ∀ b ∈ keyPairs c items, _))

instance (c : ClassDecl) (items : List String) : Decidable (KeysReadAlike c items) :=
  inferInstanceAs (Decidable (∀ p ∈ c.properties, p.isKey = true → ∀ raw ∈ lastText? _ _, _))

/-- A name that keys are spelled by once stands for all spellings of it. -/
theorem KeysSpelledOnce.lastText?_eq {items : List String} (h : KeysSpelledOnce c items)
    {b : String × String} (hb : b ∈ keyPairs c items) (hname : sameName b.1 name = true) :
    lastText? (· == b.1) (keyPairs c items) = lastText? (sameName · name) (keyPairs c items) := by
  refine lastText?_congr fun a ha => Bool.eq_iff_iff.2 ⟨fun heq => ?_, fun hsame => ?_⟩
  · rw [beq_iff_eq.1 heq, hname]
  · exact beq_iff_eq.2 (h a ha b hb (sameName_trans hsame (sameName_symm hname)))

section Created

variable {ns : Namespace} {own className : String} {items : List String} {path : ObjectPath}
  (hc : ns.resolve? {} c.name = some c)

include hc

theorem property?_of_mem {p : PropertyDecl} (hp : p ∈ c.properties)
    (hname : sameName p.name name = true) : c.property? name = some p := by
  cases hfound : c.property? name with
  | none =>
    have hnone := List.find?_eq_none.1 hfound p hp
    exact absurd hname hnone
  | some q =>
    have hq : sameName q.name name = true := by simpa using List.find?_some hfound
    have hfolded := (sameName_iff _ _).1 (sameName_trans hq (sameName_symm hname))
    exact congrArg some (List.inj_on_of_nodup_map (Namespace.nodup_properties hc)
      (List.mem_of_find?_eq_some hfound) hp hfolded)

/-- The assignments to keys are those whose name is the name of a key. -/
theorem mem_keyPairs_iff (hpairs : readAssignments items = .ok pairs) {a : String × String} :
    a ∈ keyPairs c items ↔
      a ∈ pairs ∧ ∃ p ∈ c.properties, p.isKey = true ∧ sameName p.name a.1 = true := by
  rw [(readAssignments_keyItems hpairs).2, List.mem_filter, Option.any_eq_true]
  refine and_congr_right fun _ => ⟨?_, ?_⟩
  · rintro ⟨p, hp, hkey⟩
    exact ⟨p, List.mem_of_find?_eq_some hp, hkey, by simpa using List.find?_some hp⟩
  · rintro ⟨p, hp, hkey, hname⟩
    exact ⟨p, property?_of_mem hc hp hname, hkey⟩

variable (hx : assigned c items = .ok x) (hpath : ns.pathFor own x = .ok path)

include hx hpath

/-- Every key of the class was given a text, and is bound to what its type makes of the last one. -/
theorem exists_text_of_key {p : PropertyDecl} (hp : p ∈ c.properties) (hkey : p.isKey = true)
    (hplain : p.IsPlain) :
    ∃ raw v, lastText? (sameName · p.name) (keyPairs c items) = some raw ∧
      (p.name, v) ∈ path.keys ∧ v.Flat ∧
      ((InstanceName.keyValue raw).same v = true ↔ ReadsAlike p.type raw) := by
  obtain ⟨pairs, hpairs, hclass, hget⟩ := of_assigned hx
  have hname : p.name ∈ ns.keyNames x.className := by
    rw [hclass, Namespace.keyNames, hc]
    exact List.mem_map_of_mem (List.mem_filter.2 ⟨hp, hkey⟩)
  obtain ⟨v, hv, hmem⟩ := Namespace.mem_of_pathFor hpath hname
  rw [hget] at hv
  obtain ⟨raw, hraw, hv⟩ := Option.bind_eq_some_iff.1 hv
  have hread : Value.readTyped raw p.type p.isArray = .ok v := by
    rw [typedValue?, property?_of_mem hc hp (sameName_refl _), Option.bind_some, hplain.2.1] at hv
    exact toOption_eq_some.1 hv
  obtain ⟨hflat, hsame⟩ := same_keyValue_iff hplain hread
  refine ⟨raw, v, ?_, hmem, hflat, hsame⟩
  rw [← hraw, (readAssignments_keyItems hpairs).2]
  refine lastText?_filter fun a _ hother => ?_
  rw [property?_of_mem hc hp (sameName_symm hother)]
  exact hkey

omit hx in
/-- The keys of the path are those of the class. -/
theorem exists_key_of_mem (hclass : x.className = c.name) {e : String × Value}
    (he : e ∈ path.keys) : ∃ p ∈ c.properties, p.isKey = true ∧ p.name = e.1 := by
  have hname := Namespace.of_mem_pathFor hpath he
  rw [hclass, Namespace.keyNames, hc] at hname
  obtain ⟨p, hp, hpname⟩ := List.mem_map.1 hname
  exact ⟨p, (List.mem_filter.1 hp).1, (List.mem_filter.1 hp).2, hpname⟩

variable (hplain : ∀ p ∈ c.properties, p.isKey = true → p.IsPlain)

include hplain

theorem flat_of_mem {e : String × Value} (he : e ∈ path.keys) : e.2.Flat := by
  obtain ⟨pairs, -, hclass, -⟩ := of_assigned hx
  obtain ⟨p, hp, hkey, hname⟩ := exists_key_of_mem hc hpath hclass he
  obtain ⟨raw, v, -, hmem, hflat, -⟩ := exists_text_of_key hc hx hpath hp hkey (hplain p hp hkey)
  have hsame : sameName p.name e.1 = true := hname ▸ sameName_refl _
  rw [← (Namespace.caseDistinct_of_pathFor hpath).eq_of_sameName hmem he hsame]
  exact hflat

theorem keyItems_ne_nil : keyItems c items ≠ [] := by
  obtain ⟨pairs, -, hclass, -⟩ := of_assigned hx
  obtain ⟨e, he⟩ := List.exists_mem_of_ne_nil _ (Namespace.keys_ne_nil_of_pathFor hpath)
  obtain ⟨p, hp, hkey, -⟩ := exists_key_of_mem hc hpath hclass he
  obtain ⟨raw, -, hraw, -⟩ := exists_text_of_key hc hx hpath hp hkey (hplain p hp hkey)
  obtain ⟨n, hn, -⟩ := exists_mem_of_lastText? hraw
  intro hnil
  rw [keyPairs, hnil] at hn
  cases hn

/-- The path of the new instance equals the one of the same assignments to keys exactly if these are
spelled once and read alike. -/
theorem same_boundKeys_iff (hname : sameName path.className name = true) :
    path.same ⟨none, name, InstanceName.boundKeys (keyPairs c items)⟩ = true ↔
      KeysSpelledOnce c items ∧ KeysReadAlike c items := by
  obtain ⟨pairs, hpairs, hclass, -⟩ := of_assigned hx
  have hdistinct := Namespace.caseDistinct_of_pathFor hpath
  constructor
  · intro hsame
    have hbound : CaseDistinct (InstanceName.boundKeys (keyPairs c items)) :=
      ObjectPath.caseDistinct_of_same hsame hdistinct
    have hspelled : KeysSpelledOnce c items := by
      intro a ha b hb hab
      obtain ⟨v, hv⟩ := InstanceName.exists_mem_boundKeys_iff.2 ⟨a.2, ha⟩
      obtain ⟨w, hw⟩ := InstanceName.exists_mem_boundKeys_iff.2 ⟨b.2, hb⟩
      exact (Prod.mk.inj (hbound.eq_of_sameName hv hw hab)).1
    refine ⟨hspelled, fun p hp hkey raw hraw => ?_⟩
    obtain ⟨raw', v, hraw', hmem, -, hreads⟩ :=
      exists_text_of_key hc hx hpath hp hkey (hplain p hp hkey)
    obtain rfl : raw' = raw := Option.some.inj (hraw'.symm.trans hraw)
    obtain ⟨w, hw, hvalue⟩ := (ObjectPath.of_same hsame).2 _ hmem
    obtain ⟨k, hk, hkname⟩ := Entries.exists_mem_of_find? hw
    obtain ⟨text, htext⟩ := InstanceName.exists_mem_boundKeys_iff.1 ⟨w, hk⟩
    obtain ⟨given, hgiven, rfl⟩ := InstanceName.mem_boundKeys_iff.1 hk
    rw [hspelled.lastText?_eq htext hkname, hraw'] at hgiven
    obtain rfl := Option.some.inj hgiven
    exact hreads.1 hvalue
  · rintro ⟨hspelled, halike⟩
    have hbound : CaseDistinct (InstanceName.boundKeys (keyPairs c items)) := by
      refine Entries.caseDistinct_of_ordered (InstanceName.ordered_boundKeys _) ?_
      rintro ⟨k, v⟩ ha ⟨k', w⟩ hb hab
      obtain ⟨raw, hraw⟩ := InstanceName.exists_mem_boundKeys_iff.1 ⟨v, ha⟩
      obtain ⟨raw', hraw'⟩ := InstanceName.exists_mem_boundKeys_iff.1 ⟨w, hb⟩
      exact hspelled _ hraw _ hraw' hab
    refine ObjectPath.same_of_partners hdistinct hbound ?_ hname ?_ ?_
    · cases path.nameSpace <;> rfl
    · intro e he
      obtain ⟨p, hp, hkey, hpe⟩ := exists_key_of_mem hc hpath hclass he
      obtain ⟨raw, v, hraw, hmem, -, hreads⟩ :=
        exists_text_of_key hc hx hpath hp hkey (hplain p hp hkey)
      obtain rfl := hdistinct.eq_of_sameName hmem he (hpe ▸ sameName_refl _)
      obtain ⟨n, hn, hname⟩ := exists_mem_of_lastText? hraw
      refine ⟨(n, InstanceName.keyValue raw), InstanceName.mem_boundKeys_iff.2 ⟨raw, ?_, rfl⟩,
        hname, hreads.2 (halike p hp hkey raw hraw)⟩
      exact (hspelled.lastText?_eq hn hname).trans hraw
    · intro f hf
      obtain ⟨raw, hraw⟩ := InstanceName.exists_mem_boundKeys_iff.1 ⟨f.2, hf⟩
      obtain ⟨-, p, hp, hkey, hpf⟩ := (mem_keyPairs_iff hc hpairs).1 hraw
      obtain ⟨-, v, -, hmem, -⟩ := exists_text_of_key hc hx hpath hp hkey (hplain p hp hkey)
      exact ⟨_, hmem, hpf⟩

end Created

end InstanceCommand

namespace Namespace

variable {ns : Namespace} {own : String} {x : Instance} {path q : ObjectPath}

/-- A new instance with flat keys is found under a path exactly if its own path equals that: a stored
instance that was in the way would have been in the way of the new one. -/
theorem Keyed.find?_added_iff (h : ns.Keyed own) (hpath : ns.pathFor own x = .ok path)
    (hfree : ns.find? path = none) (hflat : ∀ e ∈ path.keys, e.2.Flat) :
    Namespace.find? { ns with instances := ns.instances ++ [{ x with path := some path }] } q =
      some { x with path := some path } ↔ path.same q = true := by
  constructor
  · intro hfound
    have hat := List.find?_some hfound
    rwa [isAt_of_path rfl] at hat
  · intro hsame
    have hdistinct := caseDistinct_of_pathFor hpath
    have hback : q.same path = true := ObjectPath.same_symm_of_values hdistinct
      (fun e he f _ hvalue => by rw [← (hflat e he).same_comm, hvalue]) hsame
    refine List.find?_eq_some_iff_append.2 ⟨by rwa [isAt_of_path rfl], ns.instances, [], rfl, ?_⟩
    intro y hy
    obtain ⟨u, hu, hfor⟩ := h.placed y hy
    rw [isAt_of_path hu, Bool.not_eq_true', Bool.eq_false_iff]
    intro hother
    have hspaces : agreeingSpaces u.nameSpace path.nameSpace = true := by
      obtain ⟨-, -, hspace, -⟩ := of_pathFor hfor
      obtain ⟨-, -, hspace', -⟩ := of_pathFor hpath
      rw [hspace, hspace']
      exact agreeingSpaces_self _
    have hequal : u.same path = true := ObjectPath.same_trans hother hback hspaces
      (fun e he => (hflat e he).exact)
      fun a b v hname hv => (Entries.find?_congr hdistinct hname).symm.trans hv
    have hnone := List.find?_eq_none.1 hfree y hy
    rw [isAt_of_path hu, hequal] at hnone
    exact hnone rfl

end Namespace

namespace Server

open InstanceCommand

variable {s t : Server} {space className name : String} {c : ClassDecl} {items : List String}
  {x : Instance} {path : ObjectPath}

/-- When the keys that an instance was created with find it. Let the keys of a class be single
texts, truth values or whole numbers, and let assignments create an instance of it on a server that
a loaded one becomes by calls. Then the assignments to keys, given with a name of the class that
leaves no question open, make a path without asking, and this path gets the new instance if and only
if no key is given by two spellings of its name and the last text of every key reads alike with its
type and without it. -/
theorem created_found_iff (hs : s.Reachable) (hc : s.classNamed space className {} = .ok c)
    (hplain : ∀ p ∈ c.properties, p.isKey = true → p.IsPlain)
    (hx : assigned c items = .ok x) (hcreate : s.create space x = .ok (path, t))
    (hname : sameName (trim name) c.name = true) (hclosed : dropEnd? ".?" (trim name) = none) :
    ∃ q, (InstanceName.mk name (keyItems c items)).resolve t space = pure q ∧
      (t.get space q none = .ok { x with path := some path } ↔
        KeysSpelledOnce c items ∧ KeysReadAlike c items) := by
  obtain ⟨own, ns, hns, hpath, hfree, rfl⟩ := create_eq_ok.1 hcreate
  have hresolved : ns.resolve? {} c.name = some c := by
    rw [classNamed, readable_eq_ok.2 ⟨own, hns⟩, ok_bind] at hc
    split at hc
    · next d hd =>
      obtain rfl := Except.ok.inj hc
      exact Namespace.resolve?_self hd
    · cases hc
  obtain ⟨pairs, hpairs, hclass, -⟩ := of_assigned hx
  obtain ⟨cls, hcls, -, hpclass, -, -⟩ := Namespace.of_pathFor hpath
  have hsame : sameName path.className (trim name) = true := by
    rw [hpclass]
    rw [hclass] at hcls
    exact sameName_trans (Namespace.mem_of_class? hcls).2 (sameName_symm hname)
  refine ⟨⟨none, trim name, InstanceName.boundKeys (keyPairs c items)⟩, ?_, ?_⟩
  · exact InstanceName.resolve_of_keys hclosed (keyItems_ne_nil hresolved hx hpath hplain)
      (readAssignments_keyItems hpairs).1 _ space
  · rw [← same_boundKeys_iff hresolved hx hpath hplain hsame,
      ← (hs.keyed.of_holds hns).find?_added_iff hpath hfree
        fun e he => flat_of_mem hresolved hx hpath hplain he, get_eq_ok]
    have hfault : ({ ns with instances := ns.instances ++ [{ x with path := some path }] } :
        Namespace).fault = none := hns.2
    have hlater := hns.withNamespace hfault
    constructor
    · rintro ⟨own', ns', hns', -, hfound⟩
      obtain ⟨-, rfl⟩ := hlater.unique hns'
      exact hfound
    · intro hfound
      refine ⟨own, _, hlater, ?_, hfound⟩
      rw [Namespace.class?_instances, ← Namespace.class?_congr hsame, hpclass,
        Namespace.class?_name hcls]
      rfl

/-- A class with a key of each of three types. -/
def partClass (className : String) : ClassDecl where
  name := className
  properties :=
    [{ name := "Name", qualifiers := .ofList [("Key", .boolean true)] },
      { name := "Spare", type := "boolean", qualifiers := .ofList [("Key", .boolean true)] },
      { name := "Slot", type := "uint8", qualifiers := .ofList [("Key", .boolean true)] },
      { name := "Note" }]

def partRepository (className : String) : Repository where
  namespaces := .ofList [("root/cimv2", { classes := [partClass className] })]

/-- A signed number, a capital spelling of a truth value, a text, and a text that is no key. -/
def partItems : List String := ["Name=disk 1", "spare=TRUE", "Slot=+07", "Note=5"]

/-- A part is created and found again. -/
theorem created_found_of_part :
    ∃ s, (partRepository "TST_Part").server none "mock" = .ok s ∧
      ∃ c, s.classNamed "root/cimv2" "TST_Part" {} = .ok c ∧
        ∃ x, assigned c partItems = .ok x ∧ ∃ made, s.create "root/cimv2" x = .ok made ∧
          ∃ q, (InstanceName.mk "tst_part" (keyItems c partItems)).resolve made.2 "root/cimv2" =
              pure q ∧
            made.2.get "root/cimv2" q none = .ok { x with path := some made.1 } := by
  have hrepository : ∃ s, (partRepository "TST_Part").server none "mock" = .ok s ∧
      ((s.classNamed "root/cimv2" "TST_Part" {}).toOption.any fun c =>
        decide ((∀ p ∈ c.properties, p.isKey = true → p.IsPlain) ∧
          sameName (trim "tst_part") c.name = true ∧ KeysSpelledOnce c partItems ∧
          KeysReadAlike c partItems ∧ ((assigned c partItems).toOption.any fun x =>
            decide ((s.create "root/cimv2" x).toOption.isSome = true)) = true)) = true :=
    exists_ok_of_any (by decide +kernel)
  obtain ⟨s, hload, hclass⟩ := hrepository
  obtain ⟨c, hc, hplain, hname, hspelled, halike, hcreated⟩ := exists_ok_of_any hclass
  obtain ⟨x, hx, hcreated⟩ := exists_ok_of_any hcreated
  obtain ⟨⟨path, t⟩, hcreate⟩ := Option.isSome_iff_exists.1 hcreated
  have hcreate := toOption_eq_some.1 hcreate
  obtain ⟨q, hresolve, hfound⟩ := created_found_iff (reachable_of_repository hload) hc hplain hx
    hcreate hname (by decide)
  exact ⟨s, hload, c, hc, x, hx, (path, t), hcreate, q, hresolve, hfound.2 ⟨hspelled, halike⟩⟩

/-- What comes of creating an instance by assignments and getting it by those to keys, in a session
in which nobody answers. -/
def createdAndGot (s : Server) (className : String) (items : List String) :
    Option (Option Instance) := do
  let c ← (s.classNamed "root/cimv2" className {}).toOption
  let x ← (assigned c items).toOption
  let made ← (s.create "root/cimv2" x).toOption
  let asked := InstanceName.resolve ⟨className, keyItems c items⟩ made.2 "root/cimv2"
  pure do
    let q ← (Run.outcome asked { options := {} }).1.toOption
    (made.2.get "root/cimv2" q none).toOption

/-- A part is created and not found under the same assignments to keys. -/
def CreatedNotFound (className : String) (items : List String) : Prop :=
  ∃ s, (partRepository className).server none "mock" = .ok s ∧
    (createdAndGot s className items).map Option.isSome = some false

/-- It is not with a number for a text, a truth value in another spelling or blanks around a number,
nor with a key that is given by two spellings of its name, nor in a class whose name is no name of an
instance. -/
theorem created_not_found :
    (∀ p ∈ (partClass "TST_Part").properties, p.isKey = true → p.IsPlain) ∧
      CreatedNotFound "TST_Part" ["Name=5", "Spare=true", "Slot=1"] ∧
      CreatedNotFound "TST_Part" ["Name=disk", "Spare=yes", "Slot=1"] ∧
      CreatedNotFound "TST_Part" ["Name=disk", "Spare=true", "Slot= 1"] ∧
      CreatedNotFound "TST_Part" ["Name=disk", "Spare=true", "Slot=1", "SLOT=2"] ∧
      CreatedNotFound " TST_Part" ["Name=disk", "Spare=true", "Slot=1"] ∧
      CreatedNotFound "TST_Part.?" ["Name=disk", "Spare=true", "Slot=1"] := by
  refine ⟨by decide +kernel, ?_, ?_, ?_, ?_, ?_, ?_⟩ <;> exact exists_ok_of_any (by decide +kernel)

end Server

end CimConsole
