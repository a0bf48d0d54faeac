import CimConsole.Proofs.Model.KeyNames
import CimConsole.Proofs.Model.Properties
import CimConsole.Proofs.Server.Keys
import CimConsole.Subscription.Store

/-!
The instances that a manager makes. Destinations and filters hold texts, whole numbers and
truth values only, so their paths equal themselves in whatever classes they are stored. A
subscription refers to the two paths that it was made from.
-/
namespace CimConsole

open Text

/-- No NaN at any depth, and the keys of paths are tables. -/
def Value.Plain (v : Value) : Prop := v.Tabled ∧ v.anyReal Number.Binary64.isNaN = false

theorem Value.Flat.plain {v : Value} (h : v.Flat) : v.Plain := by
  induction h with
  | boolean | integer | text => exact ⟨trivial, rfl⟩
  | array _ ih =>
    simp only [Value.Plain, Value.Tabled, Value.anyReal, allTabled_iff, anyRealOf_eq_false]
    exact ⟨fun v hv => (ih v hv).1, fun v hv => (ih v hv).2⟩

namespace Instance

/-- All values of the properties of an instance satisfy `φ`. -/
def All (φ : Value → Prop) (x : Instance) : Prop :=
  ∀ e ∈ x.properties.entries, ∀ v, e.2 = some v → φ v

def Plain (x : Instance) : Prop := x.All Value.Plain

theorem className_placed (x : Instance) (path : Option ObjectPath) :
    ({ x with path } : Instance).className = x.className := rfl

theorem path?_placed (x : Instance) (path : Option ObjectPath) (name : String) :
    ({ x with path } : Instance).path? name = x.path? name := rfl

variable {φ ψ : Value → Prop} {x : Instance}

theorem All.mono (h : x.All φ) (hφ : ∀ v, φ v → ψ v) : x.All ψ :=
  fun e he v hv => hφ v (h e he v hv)

theorem all_bare (className : String) : All φ { className } :=
  fun _ he => absurd he List.not_mem_nil

theorem All.withProperty (h : x.All φ) (name : String) {v : Value} (hv : φ v) :
    (x.withProperty name v).All φ := by
  intro e he w hw
  rcases Entries.mem_put he with heq | hmem
  · obtain rfl : e = _ := heq
    obtain rfl := Option.some.inj hw
    exact hv
  · exact h e hmem w hw

variable {ns : Namespace} {own : String} {p : ObjectPath}

/-- The path of an instance has values of its properties only. -/
theorem All.of_pathFor (h : x.All φ) (hp : ns.pathFor own x = .ok p) : ∀ e ∈ p.keys, φ e.2 := by
  obtain ⟨cls, -, -, -, -, hkeys⟩ := Namespace.of_pathFor hp
  intro e he
  have hget := hkeys e he
  rw [Instance.get?, Option.join_eq_some_iff] at hget
  obtain ⟨name, hmem⟩ := Entries.mem_of_find? hget
  exact h _ hmem e.2 rfl

theorem Plain.reference_path (h : x.Plain) (hp : ns.pathFor own x = .ok p) :
    (Value.reference p).Plain := by
  obtain ⟨cls, -, -, -, hordered, -⟩ := Namespace.of_pathFor hp
  have hvalues : ∀ e ∈ p.keys, e.2.Plain := All.of_pathFor h hp
  obtain ⟨space, name, keys⟩ := p
  constructor
  · simp only [Value.Tabled, ObjectPath.Tabled, keysTabled_iff]
    exact ⟨hordered, fun e he => (hvalues e he).1⟩
  · simp only [Value.anyReal, ObjectPath.anyReal, anyRealUnder_eq_false]
    exact fun e he => (hvalues e he).2

/-- The path of a plain instance equals itself. -/
theorem Plain.same_path (h : x.Plain) (hp : ns.pathFor own x = .ok p) : p.same p = true :=
  ObjectPath.same_self (h.reference_path hp).1 (h.reference_path hp).2

/-- In the path of an instance whose properties are spelled in one way each, all spellings of a key
have one value. -/
theorem Spelled.key?_pathFor (h : x.Spelled) (hp : ns.pathFor own x = .ok p) (a b : String)
    (v : Value) (hname : sameName a b = true) (ha : p.key? a = some v) : p.key? b = some v := by
  obtain ⟨cls, -, -, -, -, hkeys⟩ := Namespace.of_pathFor hp
  obtain ⟨k, hmem, hk⟩ := Entries.exists_mem_of_find? ha
  obtain ⟨w, hb⟩ := Entries.exists_find?_of_mem hmem (sameName_trans hk hname)
  obtain ⟨k', hmem', hk'⟩ := Entries.exists_mem_of_find? hb
  have hsame : sameName k k' = true := sameName_trans (sameName_trans hk hname) (sameName_symm hk')
  have hget : x.get? k = x.get? k' := congrArg Option.join (Entries.find?_congr h hsame)
  obtain rfl : v = w := Option.some.inj
    ((hkeys _ hmem).symm.trans (hget.trans (hkeys _ hmem')))
  exact hb

end Instance

namespace Manager

section Induction

/-! What a bare instance has and setting a property keeps, the endpoints that are made have. -/

variable {C : Instance → Prop} {φ : Value → Prop} (hbare : ∀ className, C { className })
  (hset : ∀ x name v, C x → φ v → C (x.withProperty name v))
  (hboolean : ∀ b, φ (.boolean b)) (hinteger : ∀ i, φ (.integer i)) (htext : ∀ s, φ (.text s))
  (harray : ∀ items : List Value, (∀ v ∈ items, φ v) → φ (.array items))

include hbare hset htext

theorem systemInstance_induction (mgr : Manager) (className : String) :
    C (mgr.systemInstance className) := by
  rw [systemInstance]
  apply hset _ _ _ _ (htext _)
  apply hset _ _ _ _ (htext _)
  exact hset _ _ _ (hbare className) (htext _)

include hinteger

theorem destination_induction (mgr : Manager) (name url : String) (owned : Bool) :
    C (mgr.destination name url owned) := by
  rw [destination]
  apply hset _ _ _ _ (hinteger _)
  apply hset _ _ _ _ (hinteger _)
  apply hset _ _ _ _ (htext _)
  exact hset _ _ _ (systemInstance_induction hbare hset htext mgr _) (htext _)

omit hinteger

include hboolean harray

theorem filter_induction (mgr : Manager) (name : String) (query : Query) :
    C (mgr.filter name query) := by
  have hsources : φ (.array (query.namespaces.map .text)) := by
    apply harray
    intro v hv
    obtain ⟨text, -, rfl⟩ := List.mem_map.1 hv
    exact htext text
  rw [filter]
  apply hset _ _ _ _ (hboolean _)
  apply hset _ _ _ _ hsources
  apply hset _ _ _ _ (htext _)
  apply hset _ _ _ _ (htext _)
  exact hset _ _ _ (systemInstance_induction hbare hset htext mgr _) (htext _)

end Induction

theorem flat_destination (mgr : Manager) (name url : String) (owned : Bool) :
    (mgr.destination name url owned).All Value.Flat :=
  destination_induction Instance.all_bare (fun _ name _ h hv => h.withProperty name hv)
    Value.Flat.integer Value.Flat.text mgr name url owned

theorem flat_filter (mgr : Manager) (name : String) (query : Query) :
    (mgr.filter name query).All Value.Flat :=
  filter_induction Instance.all_bare (fun _ name _ h hv => h.withProperty name hv)
    Value.Flat.boolean Value.Flat.text (fun _ => Value.Flat.array) mgr name query

theorem plain_destination (mgr : Manager) (name url : String) (owned : Bool) :
    (mgr.destination name url owned).Plain :=
  (mgr.flat_destination name url owned).mono fun _ => Value.Flat.plain

theorem plain_filter (mgr : Manager) (name : String) (query : Query) :
    (mgr.filter name query).Plain :=
  (mgr.flat_filter name query).mono fun _ => Value.Flat.plain

theorem spelled_destination (mgr : Manager) (name url : String) (owned : Bool) :
    (mgr.destination name url owned).Spelled :=
  destination_induction Instance.spelled_bare (fun _ name v h (_ : True) => h.withProperty name v)
    (fun _ => trivial) (fun _ => trivial) mgr name url owned

theorem spelled_filter (mgr : Manager) (name : String) (query : Query) :
    (mgr.filter name query).Spelled :=
  filter_induction Instance.spelled_bare (fun _ name v h (_ : True) => h.withProperty name v)
    (fun _ => trivial) (fun _ => trivial) (fun _ _ => trivial) mgr name query

theorem className_subscription (dp fp : ObjectPath) :
    (subscription dp fp).className = subscriptionClass := rfl

theorem path?_handler (dp fp : ObjectPath) :
    (subscription dp fp).path? EndpointKind.destination.role = some dp := by
  have hget : (subscription dp fp).get? "Handler" = some (.reference dp) := by
    rw [subscription]
    iterate 4 rw [Instance.get?_withProperty_of_not_sameName _ _ (by decide)]
    apply Instance.get?_withProperty_self
    rw [Instance.find?_withProperty_of_not_sameName _ _ (by decide)]
    rfl
  exact congrArg (Option.bind · Value.path?) hget

theorem path?_filter (dp fp : ObjectPath) :
    (subscription dp fp).path? EndpointKind.filter.role = some fp := by
  have hget : (subscription dp fp).get? "Filter" = some (.reference fp) := by
    rw [subscription]
    iterate 5 rw [Instance.get?_withProperty_of_not_sameName _ _ (by decide)]
    exact Instance.get?_withProperty_self _ _ rfl
  exact congrArg (Option.bind · Value.path?) hget

end Manager

end CimConsole
