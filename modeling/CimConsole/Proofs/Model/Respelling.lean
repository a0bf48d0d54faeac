import CimConsole.Model.Instance
import CimConsole.Model.Schema
import CimConsole.Proofs.Model.Equality

/-!
Equality of classes, instances and qualifier declarations. They are compared field by field, values
and paths in the way that these are compared, everything else letter by letter. The namespaces of
the paths inside may be respelled: if the values stay equal to what they were, so does what holds
them.
-/
namespace CimConsole

section Parts

variable {α : Type}

def sameOption (same : α → α → Bool) : Option α → Option α → Bool
  | none, none => true
  | some a, some b => same a b
  | _, _ => false

def sameList (same : α → α → Bool) : List α → List α → Bool
  | [], [] => true
  | a :: as, b :: bs => same a b && sameList same as bs
  | _, _ => false

/-- Tables are equal if they have the same names with equal values. -/
def NameTable.same (same : α → α → Bool) (s t : NameTable α) : Bool :=
  sameList (fun d e => d.1 == e.1 && same d.2 e.2) s.entries t.entries

/-- The change leaves `a` equal to what it was, whichever of the two stands on the left. -/
structure KeptBy (same : α → α → Bool) (change : α → α) (a : α) : Prop where
  left : same a (change a) = true
  right : same (change a) a = true

variable {same : α → α → Bool} {change : α → α}

theorem KeptBy.option {a : Option α} (h : ∀ v ∈ a, KeptBy same change v) :
    KeptBy (sameOption same) (Option.map change) a := by
  cases a with
  | none => exact ⟨rfl, rfl⟩
  | some v => exact ⟨(h v rfl).left, (h v rfl).right⟩

theorem KeptBy.list {as : List α} (h : ∀ a ∈ as, KeptBy same change a) :
    KeptBy (sameList same) (List.map change) as := by
  induction as with
  | nil => exact ⟨rfl, rfl⟩
  | cons a as ih =>
    have ha := h a List.mem_cons_self
    have has := ih fun b hb => h b (List.mem_cons_of_mem a hb)
    constructor
    · rw [List.map_cons, sameList, ha.left, has.left, Bool.and_true]
    · rw [List.map_cons, sameList, ha.right, has.right, Bool.and_true]

theorem KeptBy.table {t : NameTable α} (h : ∀ e ∈ t.entries, KeptBy same change e.2) :
    KeptBy (NameTable.same same) (NameTable.map change) t := by
  have hentries : KeptBy (sameList fun d e : String × α => d.1 == e.1 && same d.2 e.2)
      (List.map fun e => (e.1, change e.2)) t.entries := by
    refine KeptBy.list fun e he => ?_
    constructor
    · rw [beq_self_eq_true, Bool.true_and, (h e he).left]
    · rw [beq_self_eq_true, Bool.true_and, (h e he).right]
  exact ⟨hentries.left, hentries.right⟩

end Parts

namespace Qualifiers

def same (qs rs : Qualifiers) : Bool := NameTable.same Value.same qs rs

def mapSpaces (g : Option String → Option String) (qs : Qualifiers) : Qualifiers :=
  NameTable.map (Value.mapSpaces g) qs

end Qualifiers

namespace PropertyDecl

def same (p q : PropertyDecl) : Bool :=
  p.name == q.name && p.type == q.type && p.isArray == q.isArray &&
    p.referenceClass == q.referenceClass && sameOption Value.same p.value q.value &&
    p.qualifiers.same q.qualifiers && p.origin == q.origin && p.propagated == q.propagated

def mapSpaces (g : Option String → Option String) (p : PropertyDecl) : PropertyDecl :=
  { p with value := p.value.map (Value.mapSpaces g), qualifiers := p.qualifiers.mapSpaces g }

end PropertyDecl

namespace ParameterDecl

def same (p q : ParameterDecl) : Bool :=
  p.name == q.name && p.type == q.type && p.isArray == q.isArray &&
    p.referenceClass == q.referenceClass && p.qualifiers.same q.qualifiers

def mapSpaces (g : Option String → Option String) (p : ParameterDecl) : ParameterDecl :=
  { p with qualifiers := p.qualifiers.mapSpaces g }

end ParameterDecl

namespace MethodDecl

def same (m n : MethodDecl) : Bool :=
  m.name == n.name && m.returnType == n.returnType &&
    sameList ParameterDecl.same m.parameters n.parameters && m.qualifiers.same n.qualifiers &&
    m.origin == n.origin && m.propagated == n.propagated

def mapSpaces (g : Option String → Option String) (m : MethodDecl) : MethodDecl :=
  { m with
    parameters := m.parameters.map (ParameterDecl.mapSpaces g)
    qualifiers := m.qualifiers.mapSpaces g }

end MethodDecl

namespace ClassDecl

def same (c d : ClassDecl) : Bool :=
  c.name == d.name && c.superclass == d.superclass && c.qualifiers.same d.qualifiers &&
    sameList PropertyDecl.same c.properties d.properties &&
    sameList MethodDecl.same c.methods d.methods

def mapSpaces (g : Option String → Option String) (c : ClassDecl) : ClassDecl :=
  { c with
    qualifiers := c.qualifiers.mapSpaces g
    properties := c.properties.map (PropertyDecl.mapSpaces g)
    methods := c.methods.map (MethodDecl.mapSpaces g) }

end ClassDecl

namespace Instance

def same (x y : Instance) : Bool :=
  x.className == y.className && sameOption ObjectPath.same x.path y.path &&
    NameTable.same (sameOption Value.same) x.properties y.properties

def mapSpaces (g : Option String → Option String) (x : Instance) : Instance :=
  { x with
    path := x.path.map (ObjectPath.mapSpaces g)
    properties := x.properties.map (Option.map (Value.mapSpaces g)) }

end Instance

namespace QualifierDecl

def same (q r : QualifierDecl) : Bool :=
  q.name == r.name && q.type == r.type && q.isArray == r.isArray &&
    sameOption Value.same q.value r.value && q.scopes == r.scopes &&
    q.overridable == r.overridable && q.toSubclass == r.toSubclass &&
    q.translatable == r.translatable

def mapSpaces (g : Option String → Option String) (q : QualifierDecl) : QualifierDecl :=
  { q with value := q.value.map (Value.mapSpaces g) }

end QualifierDecl

section Kept

variable {g : Option String → Option String}

theorem Qualifiers.kept {qs : Qualifiers}
    (h : ∀ e ∈ qs.entries, KeptBy Value.same (Value.mapSpaces g) e.2) :
    KeptBy Qualifiers.same (Qualifiers.mapSpaces g) qs :=
  ⟨(KeptBy.table h).left, (KeptBy.table h).right⟩

theorem PropertyDecl.kept {p : PropertyDecl}
    (hvalue : ∀ v ∈ p.value, KeptBy Value.same (Value.mapSpaces g) v)
    (hqualifiers : KeptBy Qualifiers.same (Qualifiers.mapSpaces g) p.qualifiers) :
    KeptBy PropertyDecl.same (PropertyDecl.mapSpaces g) p := by
  have hvalues := KeptBy.option hvalue
  constructor
  · simp [PropertyDecl.same, PropertyDecl.mapSpaces, hvalues.left, hqualifiers.left]
  · simp [PropertyDecl.same, PropertyDecl.mapSpaces, hvalues.right, hqualifiers.right]

theorem ParameterDecl.kept {p : ParameterDecl}
    (hqualifiers : KeptBy Qualifiers.same (Qualifiers.mapSpaces g) p.qualifiers) :
    KeptBy ParameterDecl.same (ParameterDecl.mapSpaces g) p := by
  constructor
  · simp [ParameterDecl.same, ParameterDecl.mapSpaces, hqualifiers.left]
  · simp [ParameterDecl.same, ParameterDecl.mapSpaces, hqualifiers.right]

theorem MethodDecl.kept {m : MethodDecl}
    (hparameters : ∀ p ∈ m.parameters, KeptBy ParameterDecl.same (ParameterDecl.mapSpaces g) p)
    (hqualifiers : KeptBy Qualifiers.same (Qualifiers.mapSpaces g) m.qualifiers) :
    KeptBy MethodDecl.same (MethodDecl.mapSpaces g) m := by
  have hlist := KeptBy.list hparameters
  constructor
  · simp [MethodDecl.same, MethodDecl.mapSpaces, hlist.left, hqualifiers.left]
  · simp [MethodDecl.same, MethodDecl.mapSpaces, hlist.right, hqualifiers.right]

theorem ClassDecl.kept {c : ClassDecl}
    (hqualifiers : KeptBy Qualifiers.same (Qualifiers.mapSpaces g) c.qualifiers)
    (hproperties : ∀ p ∈ c.properties, KeptBy PropertyDecl.same (PropertyDecl.mapSpaces g) p)
    (hmethods : ∀ m ∈ c.methods, KeptBy MethodDecl.same (MethodDecl.mapSpaces g) m) :
    KeptBy ClassDecl.same (ClassDecl.mapSpaces g) c := by
  have hps := KeptBy.list hproperties
  have hms := KeptBy.list hmethods
  constructor
  · simp [ClassDecl.same, ClassDecl.mapSpaces, hqualifiers.left, hps.left, hms.left]
  · simp [ClassDecl.same, ClassDecl.mapSpaces, hqualifiers.right, hps.right, hms.right]

theorem Instance.kept {x : Instance}
    (hpath : ∀ p ∈ x.path, KeptBy ObjectPath.same (ObjectPath.mapSpaces g) p)
    (hproperties : ∀ e ∈ x.properties.entries, ∀ v ∈ e.2,
      KeptBy Value.same (Value.mapSpaces g) v) :
    KeptBy Instance.same (Instance.mapSpaces g) x := by
  have hpaths := KeptBy.option hpath
  have htable := KeptBy.table fun e he => KeptBy.option (hproperties e he)
  constructor
  · simp [Instance.same, Instance.mapSpaces, hpaths.left, htable.left]
  · simp [Instance.same, Instance.mapSpaces, hpaths.right, htable.right]

theorem QualifierDecl.kept {q : QualifierDecl}
    (hvalue : ∀ v ∈ q.value, KeptBy Value.same (Value.mapSpaces g) v) :
    KeptBy QualifierDecl.same (QualifierDecl.mapSpaces g) q := by
  have hvalues := KeptBy.option hvalue
  constructor
  · simp [QualifierDecl.same, QualifierDecl.mapSpaces, hvalues.left]
  · simp [QualifierDecl.same, QualifierDecl.mapSpaces, hvalues.right]

end Kept

end CimConsole
