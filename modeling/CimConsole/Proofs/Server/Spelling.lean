import CimConsole.Proofs.Model.Spelling
import CimConsole.Proofs.Server.Lineage

/-!
Spellings of a call. Two calls of one operation whose arguments differ in letter case, or in the
slashes around a namespace, have the same outcome on every server: equal results in the same
order, or errors of one kind. The texts of errors may differ, as they quote the arguments.
-/
namespace CimConsole

open Text

/-- What an error is apart from its text. -/
inductive ErrorKind where
  | status (status : Status)
  | model
  | connection
  | authentication
  | timeout
deriving DecidableEq, Repr

def ServerError.kind : ServerError → ErrorKind
  | .status s _ => .status s
  | .model _ => .model
  | .connection _ => .connection
  | .authentication _ => .authentication
  | .timeout _ => .timeout

/-- The result, or the kind of the error. -/
def withoutText {α : Type} (x : Except ServerError α) : Except ErrorKind α :=
  x.mapError ServerError.kind

/-- The operations that leave a server as it is, with their arguments. -/
inductive Reading where
  | classes (space : String) (start : Option String) (deep : Bool) (detail : ClassDetail)
  | classNames (space : String) (start : Option String) (deep : Bool)
  | classNamed (space name : String) (detail : ClassDetail)
  | classReferences (space name : String) (filter : AssociationFilter)
  | classAssociators (space name : String) (filter : AssociationFilter)
  | instances (space name : String) (properties : Option (List String))
  | instanceNames (space name : String)
  | get (space : String) (path : ObjectPath) (properties : Option (List String))
  | references (space : String) (path : ObjectPath) (filter : AssociationFilter)
  | associators (space : String) (path : ObjectPath) (filter : AssociationFilter)
  | qualifiers (space : String)
  | qualifier (space name : String)

inductive Reply where
  | classes (found : List ClassDecl)
  | names (found : List String)
  | instances (found : List Instance)
  | paths (found : List ObjectPath)
  | qualifiers (found : List QualifierDecl)

/-- What a server answers; one class, instance or qualifier is a list of one. -/
def Reading.answer (s : Server) : Reading → Except ServerError Reply
  | classes space start deep detail => (s.classes space start deep detail).map .classes
  | classNames space start deep => (s.classNames space start deep).map .names
  | classNamed space name detail => (s.classNamed space name detail).map fun c => .classes [c]
  | classReferences space name filter => (s.classReferences space name filter).map .classes
  | classAssociators space name filter => (s.classAssociators space name filter).map .classes
  | instances space name properties => (s.instances space name properties).map .instances
  | instanceNames space name => (s.instanceNames space name).map .paths
  | get space path properties => (s.get space path properties).map fun x => .instances [x]
  | references space path filter => (s.references space path filter).map .instances
  | associators space path filter => (s.associators space path filter).map .instances
  | qualifiers space => (s.qualifiers space).map .qualifiers
  | qualifier space name => (s.qualifier space name).map fun q => .qualifiers [q]

/-- Names that may be absent: absent both, or the same up to letter case. -/
abbrev SameIfGiven : Option String → Option String → Prop :=
  Option.Rel fun a b => sameName a b = true

structure AssociationFilter.Respelled (f g : AssociationFilter) : Prop where
  associationClass : SameIfGiven f.associationClass g.associationClass
  resultClass : SameIfGiven f.resultClass g.resultClass
  role : SameIfGiven f.role g.role
  resultRole : SameIfGiven f.resultRole g.resultRole

/-- Lists of properties that may be absent, name by name the same up to letter case. -/
abbrev SamePropertiesIfGiven : Option (List String) → Option (List String) → Prop :=
  Option.Rel (List.Forall₂ fun a b => sameName a b = true)

/-- Two calls of one operation that differ in the spelling of their arguments only. -/
inductive Reading.Respelled : Reading → Reading → Prop
  | classes {a b : String} {start start' : Option String} (deep : Bool) (detail : ClassDetail)
      (space : sameSpace a b = true) (name : SameIfGiven start start') :
      Respelled (.classes a start deep detail) (.classes b start' deep detail)
  | classNames {a b : String} {start start' : Option String} (deep : Bool)
      (space : sameSpace a b = true) (name : SameIfGiven start start') :
      Respelled (.classNames a start deep) (.classNames b start' deep)
  | classNamed {a b m n : String} (detail : ClassDetail)
      (space : sameSpace a b = true) (name : sameName m n = true) :
      Respelled (.classNamed a m detail) (.classNamed b n detail)
  | classReferences {a b m n : String} {f g : AssociationFilter}
      (space : sameSpace a b = true) (name : sameName m n = true) (filter : f.Respelled g) :
      Respelled (.classReferences a m f) (.classReferences b n g)
  | classAssociators {a b m n : String} {f g : AssociationFilter}
      (space : sameSpace a b = true) (name : sameName m n = true) (filter : f.Respelled g) :
      Respelled (.classAssociators a m f) (.classAssociators b n g)
  | instances {a b m n : String} {ps qs : Option (List String)}
      (space : sameSpace a b = true) (name : sameName m n = true)
      (properties : SamePropertiesIfGiven ps qs) :
      Respelled (.instances a m ps) (.instances b n qs)
  | instanceNames {a b m n : String}
      (space : sameSpace a b = true) (name : sameName m n = true) :
      Respelled (.instanceNames a m) (.instanceNames b n)
  | get {a b : String} {p q : ObjectPath} {ps qs : Option (List String)}
      (space : sameSpace a b = true) (path : p.Respelled q)
      (properties : SamePropertiesIfGiven ps qs) :
      Respelled (.get a p ps) (.get b q qs)
  | references {a b : String} {p q : ObjectPath} {f g : AssociationFilter}
      (space : sameSpace a b = true) (path : p.Respelled q) (filter : f.Respelled g) :
      Respelled (.references a p f) (.references b q g)
  | associators {a b : String} {p q : ObjectPath} {f g : AssociationFilter}
      (space : sameSpace a b = true) (path : p.Respelled q) (filter : f.Respelled g) :
      Respelled (.associators a p f) (.associators b q g)
  | qualifiers {a b : String} (space : sameSpace a b = true) :
      Respelled (.qualifiers a) (.qualifiers b)
  | qualifier {a b m n : String}
      (space : sameSpace a b = true) (name : sameName m n = true) :
      Respelled (.qualifier a m) (.qualifier b n)

section Chains

variable {α β : Type}

theorem withoutText_bind (x : Except ServerError α) (f : α → Except ServerError β) :
    withoutText (x >>= f) = withoutText x >>= fun a => withoutText (f a) := by
  cases x <;> rfl

theorem withoutText_map (x : Except ServerError α) (f : α → β) :
    withoutText (x.map f) = (withoutText x).map f := by
  cases x <;> rfl

/-- Chains have the same outcome if their first links have, and the rest behind every value. -/
theorem withoutText_bind_congr {x y : Except ServerError α} {f g : α → Except ServerError β}
    (hfirst : withoutText x = withoutText y) (hrest : ∀ a, withoutText (f a) = withoutText (g a)) :
    withoutText (x >>= f) = withoutText (y >>= g) := by
  rw [withoutText_bind, withoutText_bind, hfirst]
  exact bind_congr hrest

end Chains

section Names

variable {a b : String}

theorem passes_congr {f g : Option String} (h : SameIfGiven f g) (name : String) :
    passes f name = passes g name := by
  cases h with
  | none => rfl
  | some hab => exact sameName_congr_left hab name

theorem any_sameName_congr {ps qs : List String}
    (h : List.Forall₂ (fun a b => sameName a b = true) ps qs) (name : String) :
    (ps.any fun n => sameName n name) = qs.any fun n => sameName n name := by
  induction h with
  | nil => rfl
  | cons hab _ ih => rw [List.any_cons, List.any_cons, sameName_congr_left hab, ih]

end Names

namespace Namespace

variable {ns : Namespace} {a b : String}

theorem superclassChain_congr (h : sameName a b = true) :
    ns.superclassChain a = ns.superclassChain b := by
  rw [superclassChain, superclassChain, class?_congr h]

theorem resolve?_congr (h : sameName a b = true) (detail : ClassDetail) :
    ns.resolve? detail a = ns.resolve? detail b := by
  rw [resolve?, resolve?, superclassChain_congr h]

theorem isWithin_congr_ancestor (h : sameName a b = true) (name : String) :
    ns.isWithin name a = ns.isWithin name b := by
  rw [isWithin, isWithin]
  exact congrArg _ (funext fun c => sameName_congr_right h c.name)

theorem withoutText_classesBelow {space space' : String} {start start' : Option String}
    (h : SameIfGiven start start') (deep : Bool) :
    withoutText (ns.classesBelow space start deep) =
      withoutText (ns.classesBelow space' start' deep) := by
  cases h with
  | none => rfl
  | some hab =>
    rename_i a b
    rw [classesBelow, classesBelow, class?_congr hab]
    by_cases hnone : (ns.class? b).isNone = true
    · rw [if_pos hnone, if_pos hnone]
      rfl
    · rw [if_neg hnone, if_neg hnone]
      simp only [sameName_congr_right hab, isWithin_congr_ancestor hab]

section Path

variable {p q : ObjectPath}

theorem isAt_congr (h : p.Alike q) : isAt p = isAt q := by
  funext x
  rw [isAt, isAt]
  cases x.path with
  | none => rfl
  | some r => exact (h r).2

theorem find?_congr (h : p.Alike q) : ns.find? p = ns.find? q := by
  rw [find?, find?, isAt_congr h]

theorem nearRole?_congr (h : p.Alike q) {role role' : Option String}
    (hrole : SameIfGiven role role') :
    nearRole? p role = nearRole? q role' := by
  funext x
  rw [nearRole?, nearRole?]
  simp only [passes_congr hrole, (h _).2]

theorem referring_congr (h : p.Alike q) {cls cls' role role' : Option String}
    (hclass : SameIfGiven cls cls') (hrole : SameIfGiven role role') :
    ns.referring p cls role = ns.referring q cls' role' := by
  rw [referring, referring, nearRole?_congr h hrole]
  cases hclass with
  | none => rfl
  | some hab => simp only [isWithin_congr_ancestor hab]

end Path

end Namespace

namespace Server

variable {s : Server} {ns : Namespace} {a b m n : String} {p q : ObjectPath}
  {f g : AssociationFilter}

theorem entry?_congr (h : sameSpace a b = true) : s.entry? a = s.entry? b := by
  rw [ entry?, entry?]
  exact congrArg (List.find? · _) (funext fun e => sameName_congr_right h e.1)

theorem withoutText_readable (h : sameSpace a b = true) :
    withoutText (s.readable a) = withoutText (s.readable b) := by
  rw [readable, readable, entry?_congr h]
  cases s.entry? b with
  | none => rfl
  | some entry =>
    obtain ⟨own, ns⟩ := entry
    cases hfault : ns.fault with
    | none => simp only [hfault]
    | some fault => cases fault <;> simp only [hfault] <;> rfl

theorem withoutText_writable (h : sameSpace a b = true) :
    withoutText (s.writable a) = withoutText (s.writable b) := by
  rw [writable, writable, entry?_congr h]
  cases s.entry? b with
  | none => rfl
  | some entry => rfl

theorem withNamespace_congr (h : sameSpace a b = true) (ns : Namespace) :
    s.withNamespace a ns = s.withNamespace b ns := by
  rw [withNamespace, withNamespace]
  simp only [sameName_congr_right h]

theorem withoutText_lineage (h : sameName m n = true) :
    withoutText (lineage ns m) = withoutText (lineage ns n) := by
  rw [lineage, lineage, Namespace.superclassChain_congr h]
  cases (ns.superclassChain n).map ClassDecl.name with
  | nil => rfl
  | cons name names => rfl

theorem associationClasses_congr {within within' : Option String}
    (h : SameIfGiven within within') :
    associationClasses ns within = associationClasses ns within' := by
  cases h with
  | none => rfl
  | some hab => simp only [associationClasses, Namespace.isWithin_congr_ancestor hab]

theorem pointsInto_congr {role role' : Option String} (h : SameIfGiven role role')
    (names : List String) : pointsInto names role = pointsInto names role' := by
  funext p
  rw [pointsInto, pointsInto, passes_congr h]

theorem all_isWithin_congr {within within' : Option String} (h : SameIfGiven within within')
    (name : String) :
    (within.all fun c => ns.isWithin name c) = within'.all fun c => ns.isWithin name c := by
  cases h with
  | none => rfl
  | some hab => exact Namespace.isWithin_congr_ancestor hab name

theorem farClass?_congr (h : f.Respelled g) : farClass? ns f = farClass? ns g := by
  funext near far
  simp only [farClass?, passes_congr h.resultRole, all_isWithin_congr h.resultClass]

theorem farInstance?_congr (h : f.Respelled g) : farInstance? ns f = farInstance? ns g := by
  funext near entry
  simp only [farInstance?, passes_congr h.resultRole, all_isWithin_congr h.resultClass]

theorem shown_congr {ps qs : Option (List String)} (h : SamePropertiesIfGiven ps qs) :
    shown ps = shown qs := by
  funext x
  cases h with
  | none => rfl
  | some hnames => simp only [shown, Instance.retain, any_sameName_congr hnames]

section Classes

theorem withoutText_classes {start start' : Option String} (hspace : sameSpace a b = true)
    (hstart : SameIfGiven start start') (deep : Bool) (detail : ClassDetail) :
    withoutText (s.classes a start deep detail) = withoutText (s.classes b start' deep detail) := by
  apply withoutText_bind_congr (withoutText_readable hspace)
  intro ns
  apply withoutText_bind_congr (Namespace.withoutText_classesBelow hstart deep)
  intro found
  rfl

theorem withoutText_classNames {start start' : Option String} (hspace : sameSpace a b = true)
    (hstart : SameIfGiven start start') (deep : Bool) :
    withoutText (s.classNames a start deep) = withoutText (s.classNames b start' deep) := by
  apply withoutText_bind_congr (withoutText_readable hspace)
  intro ns
  apply withoutText_bind_congr (Namespace.withoutText_classesBelow hstart deep)
  intro found
  rfl

theorem withoutText_classNamed (hspace : sameSpace a b = true) (hname : sameName m n = true)
    (detail : ClassDetail) :
    withoutText (s.classNamed a m detail) = withoutText (s.classNamed b n detail) := by
  apply withoutText_bind_congr (withoutText_readable hspace)
  intro ns
  rw [Namespace.resolve?_congr hname]
  cases ns.resolve? detail n with
  | none => rfl
  | some c => rfl

theorem withoutText_classReferences (hspace : sameSpace a b = true)
    (hname : sameName m n = true) (hfilter : f.Respelled g) :
    withoutText (s.classReferences a m f) = withoutText (s.classReferences b n g) := by
  apply withoutText_bind_congr (withoutText_readable hspace)
  intro ns
  apply withoutText_bind_congr (withoutText_lineage hname)
  intro names
  rw [associationClasses_congr hfilter.resultClass, pointsInto_congr hfilter.role]

theorem withoutText_classAssociators (hspace : sameSpace a b = true)
    (hname : sameName m n = true) (hfilter : f.Respelled g) :
    withoutText (s.classAssociators a m f) = withoutText (s.classAssociators b n g) := by
  apply withoutText_bind_congr (withoutText_readable hspace)
  intro ns
  apply withoutText_bind_congr (withoutText_lineage hname)
  intro names
  rw [associationClasses_congr hfilter.associationClass, pointsInto_congr hfilter.role,
    farClass?_congr hfilter]

end Classes

section Instances

theorem withoutText_instances {ps qs : Option (List String)} (hspace : sameSpace a b = true)
    (hname : sameName m n = true) (hproperties : SamePropertiesIfGiven ps qs) :
    withoutText (s.instances a m ps) = withoutText (s.instances b n qs) := by
  apply withoutText_bind_congr (withoutText_readable hspace)
  intro ns
  rw [Namespace.class?_congr hname, shown_congr hproperties]
  by_cases hnone : (ns.class? n).isNone = true
  · rw [if_pos hnone, if_pos hnone]
    rfl
  · rw [if_neg hnone, if_neg hnone]
    simp only [Namespace.isWithin_congr_ancestor hname]

theorem withoutText_get {ps qs : Option (List String)} (hspace : sameSpace a b = true)
    (hpath : p.Respelled q) (hproperties : SamePropertiesIfGiven ps qs) :
    withoutText (s.get a p ps) = withoutText (s.get b q qs) := by
  have halike := hpath.alike
  apply withoutText_bind_congr (withoutText_readable hspace)
  intro ns
  rw [Namespace.class?_congr hpath.sameName_className, Namespace.find?_congr halike,
    shown_congr hproperties]
  by_cases hnone : (ns.class? q.className).isNone = true
  · rw [if_pos hnone, if_pos hnone]
    rfl
  · rw [if_neg hnone, if_neg hnone]
    cases ns.find? q with
    | none => rfl
    | some x => rfl

theorem withoutText_references (hspace : sameSpace a b = true) (hpath : p.Respelled q)
    (hfilter : f.Respelled g) :
    withoutText (s.references a p f) = withoutText (s.references b q g) := by
  have halike := hpath.alike
  apply withoutText_bind_congr (withoutText_readable hspace)
  intro ns
  rw [Namespace.find?_congr halike,
    Namespace.referring_congr halike hfilter.resultClass hfilter.role]
  cases ns.find? q with
  | none => rfl
  | some x => rfl

theorem withoutText_associators (hspace : sameSpace a b = true) (hpath : p.Respelled q)
    (hfilter : f.Respelled g) :
    withoutText (s.associators a p f) = withoutText (s.associators b q g) := by
  have halike := hpath.alike
  apply withoutText_bind_congr (withoutText_readable hspace)
  intro ns
  rw [Namespace.find?_congr halike,
    Namespace.referring_congr halike hfilter.associationClass hfilter.role,
    farInstance?_congr hfilter]
  cases ns.find? q with
  | none => rfl
  | some x => rfl

theorem withoutText_delete (hspace : sameSpace a b = true) (hpath : p.Respelled q) :
    withoutText (s.delete a p) = withoutText (s.delete b q) := by
  have halike := hpath.alike
  apply withoutText_bind_congr (withoutText_writable hspace)
  intro (own, ns)
  dsimp only
  rw [Namespace.class?_congr hpath.sameName_className, Namespace.find?_congr halike,
    Namespace.isAt_congr halike]
  by_cases hnone : (ns.class? q.className).isNone = true
  · rw [if_pos hnone, if_pos hnone]
    rfl
  · rw [if_neg hnone, if_neg hnone]
    cases ns.find? q with
    | none => rfl
    | some x => exact congrArg _ (congrArg _ (withNamespace_congr hspace _))

end Instances

theorem withoutText_qualifier (hspace : sameSpace a b = true) (hname : sameName m n = true) :
    withoutText (s.qualifier a m) = withoutText (s.qualifier b n) := by
  apply withoutText_bind_congr (withoutText_readable hspace)
  intro ns
  simp only [sameName_congr_right hname]
  cases ns.qualifierDecls.find? fun q => sameName q.name n with
  | none => rfl
  | some q => rfl

/-- The spelling of names does not matter to a server. Whatever it holds, two readings that
differ in it give equal results in the same order or fail alike, and two deletions leave the
same server or fail alike. -/
theorem spelling_does_not_matter (s : Server) :
    (∀ call call' : Reading, call.Respelled call' →
      withoutText (call.answer s) = withoutText (call'.answer s)) ∧
    ∀ (a b : String) (p q : ObjectPath), sameSpace a b = true → p.Respelled q →
      withoutText (s.delete a p) = withoutText (s.delete b q) := by
  refine ⟨fun call call' h => ?_, fun a b p q => withoutText_delete⟩
  cases h <;> simp only [Reading.answer, withoutText_map]
  case classes hspace hstart => rw [withoutText_classes hspace hstart]
  case classNames hspace hstart => rw [withoutText_classNames hspace hstart]
  case classNamed hspace hname => rw [withoutText_classNamed hspace hname]
  case classReferences hspace hname hfilter =>
    rw [withoutText_classReferences hspace hname hfilter]
  case classAssociators hspace hname hfilter =>
    rw [withoutText_classAssociators hspace hname hfilter]
  case instances hspace hname hproperties => rw [withoutText_instances hspace hname hproperties]
  case instanceNames hspace hname =>
    rw [instanceNames, instanceNames,
      withoutText_bind_congr (withoutText_instances hspace hname .none)]
    exact fun _ => rfl
  case get hspace hpath hproperties => rw [withoutText_get hspace hpath hproperties]
  case references hspace hpath hfilter => rw [withoutText_references hspace hpath hfilter]
  case associators hspace hpath hfilter => rw [withoutText_associators hspace hpath hfilter]
  case qualifiers hspace =>
    rw [qualifiers, qualifiers, withoutText_bind_congr (withoutText_readable hspace)]
    exact fun _ => rfl
  case qualifier hspace hname => rw [withoutText_qualifier hspace hname]

/-- A disk is read and deleted in capitals, with slashes around both namespaces. -/
theorem spelling_does_not_matter_to_disks :
    withoutText ((Reading.get "/ROOT/cimv2/"
        ⟨some "//Root/CIMV2", "tst_disk", [("NAME", .text "sda")]⟩ (some ["NAME"])).answer
        (diskServer ["sda", "sdb"])) =
      .ok (.instances [{ disk "sda" with
        path := some ⟨some "root/cimv2", "TST_Disk", [("Name", .text "sda")]⟩ }]) ∧
    withoutText ((diskServer ["sda", "sdb"]).delete "/ROOT/cimv2/"
        ⟨some "//Root/CIMV2", "tst_disk", [("NAME", .text "sda")]⟩) =
      .ok (diskServer ["sdb"]) := by
  have hspace : sameSpace "root/cimv2" "/ROOT/cimv2/" = true := by decide +kernel
  have hpath : ObjectPath.Respelled ⟨some "root/cimv2", "TST_Disk", [("Name", .text "sda")]⟩
      ⟨some "//Root/CIMV2", "tst_disk", [("NAME", .text "sda")]⟩ := by
    have hkeys : KeysRespelled [("Name", .text "sda")] [("NAME", .text "sda")] :=
      .cons (by decide +kernel) (.refl _) .nil
    exact .intro (.some (by decide +kernel)) (by decide +kernel) (by decide +kernel) hkeys
      (List.Perm.refl _)
  have hproperties : SamePropertiesIfGiven (some ["Name"]) (some ["NAME"]) := by
    refine .some (.cons ?_ .nil)
    decide +kernel
  obtain ⟨hread, hdelete⟩ := spelling_does_not_matter (diskServer ["sda", "sdb"])
  constructor
  · rw [← hread _ _ (.get hspace hpath hproperties)]
    rfl
  · rw [← hdelete _ _ _ _ hspace hpath]
    rfl

end Server

end CimConsole
