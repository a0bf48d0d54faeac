import CimConsole.Model.Documents
import CimConsole.Output.Console
import CimConsole.Proofs.Document.JsonText
import CimConsole.Proofs.Document.Meaning
import CimConsole.Proofs.Model.PathText
import CimConsole.Proofs.Model.Respelling

/-!
Classes, instances and qualifier declarations read back from their documents. A value has no mark
of its kind there, but each kind is written as something that no kind before it is read from, so a
value without reals comes back as one of its kind, and a path as the reader of paths finds it. A
field that is left out comes back as its default. The documents have JSON texts that read back, so
what a console writes can be loaded again.
-/
namespace CimConsole

open Text Document

namespace Document

theorem exact_present {α : Type} {name : String} {encode : α → Document} {a : Option α}
    (h : ∀ v ∈ a, (encode v).Exact) : ∀ f ∈ present name encode a, f.2.Exact := by
  cases a with
  | none => exact fun f hf => absurd hf List.not_mem_nil
  | some v => exact List.forall_mem_singleton.2 (h v rfl)

theorem exact_shownIf {shown : Bool} {name : String} {d : Document} (h : d.Exact) :
    ∀ f ∈ shownIf shown name d, f.2.Exact := by
  cases shown with
  | false => exact fun f hf => absurd hf List.not_mem_nil
  | true => exact List.forall_mem_singleton.2 h

end Document

/-- Values without reals whose paths read back from their texts. -/
inductive Value.Portable : Value → Prop where
  | boolean (b : Bool) : Portable (.boolean b)
  | integer (i : Int64) : Portable (.integer i)
  | text (s : String) : Portable (.text s)
  | reference {p : ObjectPath} (h : p.Writable) : Portable (.reference p)
  | array {items : List Value} (h : ∀ v ∈ items, Portable v) : Portable (.array items)

theorem valueDocuments_eq_map (items : List Value) :
    valueDocuments items = items.map Value.document := by
  induction items with
  | nil => rfl
  | cons v rest ih => rw [valueDocuments, ih, List.map_cons]

theorem valuesOfDocuments?_map {change : Value → Value} {items : List Value}
    (h : ∀ v ∈ items, Value.ofDocument? v.document = some (change v)) :
    valuesOfDocuments? (items.map Value.document) = some (items.map change) := by
  induction items with
  | nil => rfl
  | cons v rest ih =>
    rw [List.map_cons, valuesOfDocuments?, h v List.mem_cons_self,
      ih fun w hw => h w (List.mem_cons_of_mem v hw)]
    rfl

theorem ObjectPath.ofDocument?_document {p : ObjectPath} (h : p.Writable) :
    ofDocument? p.document = some (p.mapSpaces bareSpace) := by
  change (ObjectPath.read p.display).toOption = _
  rw [ObjectPath.read_display_bare h]
  rfl

namespace Value.Portable

variable {v : Value}

/-- No value is read as one of another kind, at any depth. -/
theorem ofDocument?_document (h : v.Portable) :
    Value.ofDocument? v.document = some (v.mapSpaces bareSpace) := by
  induction h with
  | boolean b => rfl
  | integer i =>
    -- whole numbers are taken for reals from the end of this range on
    have hlow : -(Int.pow 2 63) ≤ i.toInt := Int64.le_toInt i
    have hhigh : i.toInt < Int.pow 2 63 := Int64.toInt_lt i
    change Value.ofWhole? i.toInt = _
    rw [Value.ofWhole?, if_pos ⟨hlow, hhigh⟩, Int64.ofInt_toInt]
    rfl
  | text s => rfl
  | reference hp =>
    change (ObjectPath.ofDocument? (ObjectPath.document _)).map Value.reference = _
    rw [ObjectPath.ofDocument?_document hp]
    rfl
  | array _ ih =>
    rw [Value.document, valueDocuments_eq_map, Value.ofDocument?, valuesOfDocuments?_map ih,
      Value.mapSpaces, mapSpacesOf_eq_map]
    rfl

theorem isNull_document (h : v.Portable) : v.document.isNull = false := by
  cases h <;> rfl

theorem exact (h : v.Portable) : v.document.Exact := by
  induction h with
  | boolean b => exact .boolean b
  | integer i =>
    have hlow : -(Int.pow 2 63) ≤ i.toInt := Int64.le_toInt i
    have hhigh : i.toInt < Int.pow 2 63 := Int64.toInt_lt i
    exact .whole hlow (Int.lt_trans hhigh (by decide))
  | text s => exact .text s
  | reference _ => exact .record (List.forall_mem_singleton.2 (.text _))
  | array _ ih =>
    rw [Value.document, valueDocuments_eq_map]
    exact .list (List.forall_mem_map.2 ih)

theorem kept (h : v.Portable) : KeptBy Value.same (Value.mapSpaces bareSpace) v := by
  have htabled : v.Tabled ∧ v.anyReal Number.Binary64.isNaN = false := by
    induction h with
    | boolean | integer | text => exact ⟨trivial, rfl⟩
    | reference hp => exact hp.tabled
    | array _ ih =>
      simp only [Value.Tabled, allTabled_iff, Value.anyReal, anyRealOf_eq_false]
      exact ⟨fun v hv => (ih v hv).1, fun v hv => (ih v hv).2⟩
  obtain ⟨hleft, hright⟩ :=
    (isLeftOf_mapSpaces ObjectPath.agreeingSpaces_bareSpace).1 v htabled.1 htabled.2
  exact ⟨hleft, hright⟩

end Value.Portable

theorem optional_value {v : Option Value} {name : String} {fs : List (String × Document)}
    (hfield : fs.lookup name = v.map Value.document) (h : ∀ w ∈ v, w.Portable) :
    optional Value.ofDocument? name fs = some (v.map (Value.mapSpaces bareSpace)) :=
  optional_of_lookup_map hfield (fun w hw => (h w hw).isNull_document) fun w hw =>
    (h w hw).ofDocument?_document

/-- Every qualifier has a portable value. -/
def Qualifiers.Portable (qs : Qualifiers) : Prop := ∀ e ∈ qs.entries, e.2.Portable

namespace Qualifiers.Portable

variable {qs : Qualifiers}

theorem inFields?_of_lookup (h : qs.Portable) {fs : List (String × Document)}
    (hfield : fs.lookup "qualifiers" = if !qs.isEmpty then some qs.document else none) :
    Qualifiers.inFields? fs = some (qs.mapSpaces bareSpace) := by
  refine defaulted_of_lookup hfield (fun hshown => ?_) (table?_ofTable_map fun e he =>
    (h e he).ofDocument?_document)
  have hnil : qs.entries = [] := by simpa [NameTable.isEmpty] using hshown
  exact NameTable.ext (by simp [Qualifiers.mapSpaces, NameTable.map, NameTable.empty, hnil])

theorem exact (h : qs.Portable) : qs.document.Exact :=
  .record (List.forall_mem_map.2 fun e he => (h e he).exact)

theorem kept (h : qs.Portable) : KeptBy Qualifiers.same (Qualifiers.mapSpaces bareSpace) qs :=
  Qualifiers.kept fun e he => (h e he).kept

end Qualifiers.Portable

namespace PropertyDecl

/-- The default value and the qualifiers are portable. -/
structure Portable (p : PropertyDecl) : Prop where
  value : ∀ v ∈ p.value, v.Portable
  qualifiers : p.qualifiers.Portable

variable {p : PropertyDecl}

/-- What is found under each name in the document. -/
theorem fields_document (p : PropertyDecl) :
    ∃ fs, p.document.fields? fieldNames = some fs ∧
      fs.lookup "name" = some (.text p.name) ∧ fs.lookup "type" = some (.text p.type) ∧
      fs.lookup "is_array" = (if p.isArray then some (.boolean true) else none) ∧
      fs.lookup "reference_class" = p.referenceClass.map .text ∧
      fs.lookup "value" = p.value.map Value.document ∧
      fs.lookup "qualifiers" =
        (if !p.qualifiers.isEmpty then some p.qualifiers.document else none) ∧
      fs.lookup "class_origin" = p.origin.map .text ∧
      fs.lookup "propagated" = (if p.propagated then some (.boolean true) else none) := by
  refine ⟨_, fields?_record (by decide) ?_, ?_⟩
  · simp only [List.map_append]
    exact ((((((List.Sublist.refl ["name", "type"]).append (names_shownIf_sublist _ _ _)).append
      (names_present_sublist _ _ _)).append (names_present_sublist _ _ _)).append
      (names_shownIf_sublist _ _ _)).append (names_present_sublist _ _ _)).append
      (names_shownIf_sublist _ _ _)
  · simp [Qualifiers.fields, List.lookup_append, List.lookup_cons, lookup_present_of_ne,
      lookup_shownIf_of_ne]

theorem Portable.ofDocument?_document (h : p.Portable) :
    PropertyDecl.ofDocument? p.document = some (p.mapSpaces bareSpace) := by
  obtain ⟨fs, hfields, hname, htype, harray, hclass, hvalue, hqualifiers, horigin, hpropagated⟩ :=
    p.fields_document
  simp [PropertyDecl.ofDocument?, hfields, required_text hname, defaulted_text htype,
    defaulted_flag harray, optional_text hclass, optional_value hvalue h.value,
    h.qualifiers.inFields?_of_lookup hqualifiers, optional_text horigin, defaulted_flag hpropagated]
  rfl

theorem Portable.exact (h : p.Portable) : p.document.Exact := by
  refine .record ?_
  simp only [Qualifiers.fields, List.forall_mem_append, and_assoc]
  exact ⟨by simp [Exact.text], exact_shownIf (.boolean true), exact_present fun _ _ => .text _,
    exact_present fun v hv => (h.value v hv).exact, exact_shownIf h.qualifiers.exact,
    exact_present fun _ _ => .text _, exact_shownIf (.boolean true)⟩

theorem Portable.kept (h : p.Portable) :
    KeptBy PropertyDecl.same (PropertyDecl.mapSpaces bareSpace) p :=
  PropertyDecl.kept (fun v hv => (h.value v hv).kept) h.qualifiers.kept

end PropertyDecl

namespace ParameterDecl

/-- The qualifiers are portable. -/
def Portable (p : ParameterDecl) : Prop := p.qualifiers.Portable

variable {p : ParameterDecl}

theorem fields_document (p : ParameterDecl) :
    ∃ fs, p.document.fields? fieldNames = some fs ∧
      fs.lookup "name" = some (.text p.name) ∧ fs.lookup "type" = some (.text p.type) ∧
      fs.lookup "is_array" = (if p.isArray then some (.boolean true) else none) ∧
      fs.lookup "reference_class" = p.referenceClass.map .text ∧
      fs.lookup "qualifiers" =
        (if !p.qualifiers.isEmpty then some p.qualifiers.document else none) := by
  refine ⟨_, fields?_record (by decide) ?_, ?_⟩
  · simp only [List.map_append]
    exact (((List.Sublist.refl ["name", "type"]).append (names_shownIf_sublist _ _ _)).append
      (names_present_sublist _ _ _)).append (names_shownIf_sublist _ _ _)
  · simp [Qualifiers.fields, List.lookup_append, List.lookup_cons, lookup_present_of_ne,
      lookup_shownIf_of_ne]

theorem Portable.ofDocument?_document (h : p.Portable) :
    ParameterDecl.ofDocument? p.document = some (p.mapSpaces bareSpace) := by
  obtain ⟨fs, hfields, hname, htype, harray, hclass, hqualifiers⟩ := p.fields_document
  have hqs := Qualifiers.Portable.inFields?_of_lookup h hqualifiers
  simp [ParameterDecl.ofDocument?, hfields, required_text hname, defaulted_text htype,
    defaulted_flag harray, optional_text hclass, hqs]
  rfl

theorem Portable.exact (h : p.Portable) : p.document.Exact := by
  refine .record ?_
  simp only [Qualifiers.fields, List.forall_mem_append, and_assoc]
  exact ⟨by simp [Exact.text], exact_shownIf (.boolean true), exact_present fun _ _ => .text _,
    exact_shownIf (Qualifiers.Portable.exact h)⟩

theorem Portable.kept (h : p.Portable) :
    KeptBy ParameterDecl.same (ParameterDecl.mapSpaces bareSpace) p :=
  ParameterDecl.kept (Qualifiers.Portable.kept h)

end ParameterDecl

/-- A list that is left out when it is empty is read as it was written, up to what reading changes
in its items. -/
theorem items_of_lookup {α : Type} {decode : Document → Option α} {encode : α → Document}
    {change : α → α} {xs : List α} {name : String} {fs : List (String × Document)}
    (hfield : fs.lookup name = if !xs.isEmpty then some (.list (xs.map encode)) else none)
    (hread : ∀ x ∈ xs, decode (encode x) = some (change x)) :
    defaulted (list? decode) [] name fs = some (xs.map change) := by
  refine defaulted_of_lookup hfield (fun hshown => ?_) (list?_map hread)
  have hnil : xs = [] := by simpa using hshown
  rw [hnil, List.map_nil]

namespace MethodDecl

/-- The qualifiers of the method and of its parameters are portable. -/
structure Portable (m : MethodDecl) : Prop where
  parameters : ∀ p ∈ m.parameters, p.Portable
  qualifiers : m.qualifiers.Portable

variable {m : MethodDecl}

theorem fields_document (m : MethodDecl) :
    ∃ fs, m.document.fields? fieldNames = some fs ∧
      fs.lookup "name" = some (.text m.name) ∧ fs.lookup "type" = some (.text m.returnType) ∧
      fs.lookup "parameters" = (if !m.parameters.isEmpty then
        some (.list (m.parameters.map ParameterDecl.document)) else none) ∧
      fs.lookup "qualifiers" =
        (if !m.qualifiers.isEmpty then some m.qualifiers.document else none) ∧
      fs.lookup "class_origin" = m.origin.map .text ∧
      fs.lookup "propagated" = (if m.propagated then some (.boolean true) else none) := by
  refine ⟨_, fields?_record (by decide) ?_, ?_⟩
  · simp only [List.map_append]
    exact ((((List.Sublist.refl ["name", "type"]).append (names_shownIf_sublist _ _ _)).append
      (names_shownIf_sublist _ _ _)).append (names_present_sublist _ _ _)).append
      (names_shownIf_sublist _ _ _)
  · simp [Qualifiers.fields, List.lookup_append, List.lookup_cons, lookup_present_of_ne,
      lookup_shownIf_of_ne]

theorem Portable.ofDocument?_document (h : m.Portable) :
    MethodDecl.ofDocument? m.document = some (m.mapSpaces bareSpace) := by
  obtain ⟨fs, hfields, hname, htype, hparameters, hqualifiers, horigin, hpropagated⟩ :=
    m.fields_document
  have hps := items_of_lookup hparameters fun p hp => (h.parameters p hp).ofDocument?_document
  simp [MethodDecl.ofDocument?, hfields, required_text hname, defaulted_text htype, hps,
    h.qualifiers.inFields?_of_lookup hqualifiers, optional_text horigin, defaulted_flag hpropagated]
  rfl

theorem Portable.exact (h : m.Portable) : m.document.Exact := by
  refine .record ?_
  simp only [Qualifiers.fields, List.forall_mem_append, and_assoc]
  exact ⟨by simp [Exact.text],
    exact_shownIf (.list (List.forall_mem_map.2 fun p hp => (h.parameters p hp).exact)),
    exact_shownIf h.qualifiers.exact, exact_present fun _ _ => .text _,
    exact_shownIf (.boolean true)⟩

theorem Portable.kept (h : m.Portable) :
    KeptBy MethodDecl.same (MethodDecl.mapSpaces bareSpace) m :=
  MethodDecl.kept (fun p hp => (h.parameters p hp).kept) h.qualifiers.kept

end MethodDecl

namespace ClassDecl

/-- Every value in the class is portable. -/
structure Portable (c : ClassDecl) : Prop where
  qualifiers : c.qualifiers.Portable
  properties : ∀ p ∈ c.properties, p.Portable
  methods : ∀ m ∈ c.methods, m.Portable

variable {c : ClassDecl}

theorem fields_document (c : ClassDecl) :
    ∃ fs, c.document.fields? fieldNames = some fs ∧
      fs.lookup "classname" = some (.text c.name) ∧
      fs.lookup "superclass" = c.superclass.map .text ∧
      fs.lookup "qualifiers" =
        (if !c.qualifiers.isEmpty then some c.qualifiers.document else none) ∧
      fs.lookup "properties" = (if !c.properties.isEmpty then
        some (.list (c.properties.map PropertyDecl.document)) else none) ∧
      fs.lookup "methods" = (if !c.methods.isEmpty then
        some (.list (c.methods.map MethodDecl.document)) else none) := by
  refine ⟨_, fields?_record (by decide) ?_, ?_⟩
  · simp only [List.map_append]
    exact ((((List.Sublist.refl ["classname"]).append (names_present_sublist _ _ _)).append
      (names_shownIf_sublist _ _ _)).append (names_shownIf_sublist _ _ _)).append
      (names_shownIf_sublist _ _ _)
  · simp [Qualifiers.fields, List.lookup_append, List.lookup_cons, lookup_present_of_ne,
      lookup_shownIf_of_ne]

theorem Portable.ofDocument?_document (h : c.Portable) :
    ClassDecl.ofDocument? c.document = some (c.mapSpaces bareSpace) := by
  obtain ⟨fs, hfields, hname, hsuper, hqualifiers, hproperties, hmethods⟩ := c.fields_document
  have hps := items_of_lookup hproperties fun p hp => (h.properties p hp).ofDocument?_document
  have hms := items_of_lookup hmethods fun m hm => (h.methods m hm).ofDocument?_document
  simp [ClassDecl.ofDocument?, hfields, required_text hname, optional_text hsuper,
    h.qualifiers.inFields?_of_lookup hqualifiers, hps, hms]
  rfl

theorem Portable.exact (h : c.Portable) : c.document.Exact := by
  refine .record ?_
  simp only [Qualifiers.fields, List.forall_mem_append, and_assoc]
  exact ⟨by simp [Exact.text], exact_present fun _ _ => .text _, exact_shownIf h.qualifiers.exact,
    exact_shownIf (.list (List.forall_mem_map.2 fun p hp => (h.properties p hp).exact)),
    exact_shownIf (.list (List.forall_mem_map.2 fun m hm => (h.methods m hm).exact))⟩

theorem Portable.kept (h : c.Portable) :
    KeptBy ClassDecl.same (ClassDecl.mapSpaces bareSpace) c :=
  ClassDecl.kept h.qualifiers.kept (fun p hp => (h.properties p hp).kept) fun m hm =>
    (h.methods m hm).kept

end ClassDecl

namespace Instance

/-- The path reads back from its text, and every value is portable. -/
structure Portable (x : Instance) : Prop where
  path : ∀ p ∈ x.path, p.Writable
  properties : ∀ e ∈ x.properties.entries, ∀ v ∈ e.2, v.Portable

variable {x : Instance}

theorem fields_document (x : Instance) :
    ∃ fs, x.document.fields? fieldNames = some fs ∧
      fs.lookup "classname" = some (.text x.className) ∧
      fs.lookup "path" = x.path.map ObjectPath.document ∧
      fs.lookup "properties" =
        some (Document.ofTable (Document.ofOption Value.document) x.properties) := by
  refine ⟨_, fields?_record (by decide) ?_, ?_⟩
  · simp only [List.map_append]
    exact ((List.Sublist.refl ["classname"]).append (names_present_sublist _ _ _)).append
      (List.Sublist.refl ["properties"])
  · simp [List.lookup_append, List.lookup_cons, lookup_present_of_ne]

theorem Portable.ofDocument?_document (h : x.Portable) :
    Instance.ofDocument? x.document = some (x.mapSpaces bareSpace) := by
  obtain ⟨fs, hfields, hname, hpath, hproperties⟩ := x.fields_document
  have hpaths : optional ObjectPath.ofDocument? "path" fs =
      some (x.path.map (ObjectPath.mapSpaces bareSpace)) :=
    optional_of_lookup_map hpath (fun _ _ => rfl) fun p hp =>
      ObjectPath.ofDocument?_document (h.path p hp)
  have htable : defaulted (table? (option? Value.ofDocument?)) .empty "properties" fs =
      some (x.properties.map (Option.map (Value.mapSpaces bareSpace))) := by
    rw [defaulted, hproperties]
    refine table?_ofTable_map fun e he => ?_
    -- a property without value is written as null, which no value is
    cases hvalue : e.2 with
    | none => rfl
    | some v =>
      have hv := h.properties e he v hvalue
      rw [Document.ofOption, option?, hv.isNull_document, hv.ofDocument?_document]
      rfl
  simp [Instance.ofDocument?, hfields, required_text hname, hpaths, htable]
  rfl

theorem Portable.exact (h : x.Portable) : x.document.Exact := by
  refine .record ?_
  simp only [List.forall_mem_append, List.forall_mem_singleton, and_assoc]
  refine ⟨.text _, exact_present fun _ _ => .text _, .record (List.forall_mem_map.2 fun e he => ?_)⟩
  cases hvalue : e.2 with
  | none => exact .null
  | some v => exact (h.properties e he v hvalue).exact

theorem Portable.kept (h : x.Portable) :
    KeptBy Instance.same (Instance.mapSpaces bareSpace) x := by
  refine Instance.kept (fun p hp => ?_) fun e he v hv => (h.properties e he v hv).kept
  obtain ⟨htabled, hreal⟩ := (h.path p hp).tabled
  obtain ⟨hleft, hright⟩ :=
    (isLeftOf_mapSpaces ObjectPath.agreeingSpaces_bareSpace).2 p htabled hreal
  exact ⟨hleft, hright⟩

end Instance

theorem Scope.ofDocument?_capitals (s : Scope) : Scope.ofDocument? (.text s.capitals) = some s := by
  cases s <;> decide

namespace QualifierDecl

/-- The default value is portable. -/
def Portable (q : QualifierDecl) : Prop := ∀ v ∈ q.value, v.Portable

variable {q : QualifierDecl}

theorem fields_document (q : QualifierDecl) :
    ∃ fs, q.document.fields? fieldNames = some fs ∧
      fs.lookup "name" = some (.text q.name) ∧ fs.lookup "type" = some (.text q.type) ∧
      fs.lookup "is_array" = (if q.isArray then some (.boolean true) else none) ∧
      fs.lookup "value" = q.value.map Value.document ∧
      fs.lookup "scopes" = some (.list (q.scopes.map fun s => .text s.capitals)) ∧
      fs.lookup "overridable" = q.overridable.map .boolean ∧
      fs.lookup "tosubclass" = q.toSubclass.map .boolean ∧
      fs.lookup "translatable" = q.translatable.map .boolean := by
  refine ⟨_, fields?_record (by decide) ?_, ?_⟩
  · simp only [List.map_append]
    exact ((((((List.Sublist.refl ["name", "type"]).append (names_shownIf_sublist _ _ _)).append
      (names_present_sublist _ _ _)).append (List.Sublist.refl ["scopes"])).append
      (names_present_sublist _ _ _)).append (names_present_sublist _ _ _)).append
      (names_present_sublist _ _ _)
  · simp [List.lookup_append, List.lookup_cons, lookup_present_of_ne, lookup_shownIf_of_ne]

theorem Portable.ofDocument?_document (h : q.Portable) :
    QualifierDecl.ofDocument? q.document = some (q.mapSpaces bareSpace) := by
  obtain ⟨fs, hfields, hname, htype, harray, hvalue, hscopes, hoverridable, hsubclass,
    htranslatable⟩ := q.fields_document
  have hall : defaulted (list? Scope.ofDocument?) [] "scopes" fs = some q.scopes := by
    have hread : list? Scope.ofDocument? (.list (q.scopes.map fun s => .text s.capitals)) =
        some (q.scopes.map id) :=
      list?_map fun s _ => Scope.ofDocument?_capitals s
    rw [List.map_id] at hread
    rw [defaulted, hscopes]
    exact hread
  simp [QualifierDecl.ofDocument?, hfields, required_text hname, defaulted_text htype,
    defaulted_flag harray, optional_value hvalue h, hall, optional_boolean hoverridable,
    optional_boolean hsubclass, optional_boolean htranslatable]
  rfl

theorem Portable.exact (h : q.Portable) : q.document.Exact := by
  refine .record ?_
  simp only [List.forall_mem_append, List.forall_mem_singleton, and_assoc]
  exact ⟨by simp [Exact.text], exact_shownIf (.boolean true),
    exact_present fun v hv => (h v hv).exact, .list (List.forall_mem_map.2 fun _ _ => .text _),
    exact_present fun _ _ => .boolean _, exact_present fun _ _ => .boolean _,
    exact_present fun _ _ => .boolean _⟩

theorem Portable.kept (h : q.Portable) :
    KeptBy QualifierDecl.same (QualifierDecl.mapSpaces bareSpace) q :=
  QualifierDecl.kept fun v hv => (h v hv).kept

end QualifierDecl

section Output

variable {α : Type} {decode : Document → Option α} {d : Document} {a : α}

/-- The document is read as `a`, and so is the text that a console writes for it in JSON, if it does
not nest deeper than the reader goes. -/
structure Document.LoadsAs (decode : Document → Option α) (d : Document) (a : α) : Prop where
  document : decode d = some a
  text : ∀ c : Console, c.format = .json → d.nesting ≤ 127 →
    (ofJson? (c.value d)).bind decode = some a

/-- The text of a record ends with its brace. -/
theorem Document.trimEnd_record (fields : List (String × Document)) (depth : Nat) :
    trimEnd ((record fields).toPrettyJson depth) = (record fields).toPrettyJson depth := by
  obtain ⟨before, hbefore⟩ : ∃ before, (record fields).toPrettyJson depth = before ++ "\x7d" := by
    cases fields with
    | nil => exact ⟨"\x7b", by rw [toPrettyJson]; rfl⟩
    | cons f fs => exact ⟨_, by rw [toPrettyJson]⟩
  have hend : (before ++ "\x7d").toList.reverse = '\x7d' :: before.toList.reverse := by simp
  rw [hbefore, trimEnd, dropEndWhile, hend, List.dropWhile_cons_of_neg (by decide), ← hend,
    List.reverse_reverse, String.ofList_toList]

theorem Document.loadsAs_record {fields : List (String × Document)} (h : (record fields).Exact)
    (hread : decode (record fields) = some a) : LoadsAs decode (record fields) a := by
  refine ⟨hread, fun c hformat hnesting => ?_⟩
  have hvalue : c.value (record fields) = (record fields).toPrettyJson 0 ++ "\n" := by
    rw [Console.value, hformat, trimEnd_record, Console.line]
  have hblank : ∀ ch ∈ "\n".toList, isJsonBlank ch = true := by
    intro ch hch
    obtain rfl : ch = '\n' := by simpa using hch
    rfl
  rw [hvalue, h.ofJson?_toPrettyJson hnesting hblank, Option.bind_some, hread]

end Output

/-- What is written in JSON can be loaded again. A class, an instance or a qualifier declaration
without reals, whose paths read back from their texts, is loaded as an equal one: at most the
slashes at the start of namespaces are gone. -/
theorem loads_written :
    (∀ c : ClassDecl, c.Portable →
      LoadsAs ClassDecl.ofDocument? c.document (c.mapSpaces bareSpace) ∧
        c.same (c.mapSpaces bareSpace) = true ∧ (c.mapSpaces bareSpace).same c = true) ∧
    (∀ x : Instance, x.Portable →
      LoadsAs Instance.ofDocument? x.document (x.mapSpaces bareSpace) ∧
        x.same (x.mapSpaces bareSpace) = true ∧ (x.mapSpaces bareSpace).same x = true) ∧
    ∀ q : QualifierDecl, q.Portable →
      LoadsAs QualifierDecl.ofDocument? q.document (q.mapSpaces bareSpace) ∧
        q.same (q.mapSpaces bareSpace) = true ∧ (q.mapSpaces bareSpace).same q = true := by
  refine ⟨fun c h => ?_, fun x h => ?_, fun q h => ?_⟩
  · exact ⟨loadsAs_record h.exact h.ofDocument?_document, h.kept.left, h.kept.right⟩
  · exact ⟨loadsAs_record h.exact h.ofDocument?_document, h.kept.left, h.kept.right⟩
  · exact ⟨loadsAs_record h.exact h.ofDocument?_document, h.kept.left, h.kept.right⟩

/-- A disk of a host, under a namespace with slashes in front. -/
def diskOfHost : ObjectPath :=
  ⟨some "//root/b", "TST_Disk",
    [("Id", .text "5"), ("On", .reference ⟨none, "TST_Host", [("Id", .integer 5)]⟩)]⟩

theorem diskOfHost_writable : diskOfHost.Writable := by
  have hhost : (ObjectPath.mk none "TST_Host" [("Id", .integer 5)]).Writable :=
    .mk (fun s hs => nomatch hs) (by decide) (by simp [Ordered]) (by decide)
      (List.forall_mem_singleton.2 (.integer 5))
  have htext : ∀ p, ObjectPath.read "5" = .ok p → p.keys = [] := by
    intro p hp
    cases hp
  have hordered : "Id" < "On" := by decide +kernel
  refine .mk (fun s hs => ?_) (by decide) (List.pairwise_pair.2 hordered) (by decide) ?_
  · obtain rfl := Option.some.inj hs
    decide
  · simp only [List.forall_mem_cons, List.not_mem_nil, false_implies, implies_true, and_true]
    exact ⟨.text "5" htext, .reference _ hhost (List.cons_ne_nil _ _)⟩

/-- A link with a property that has no value, and with truth values, texts of digits and references
in nested arrays. -/
def linkToDisks : Instance where
  className := "TST_Link"
  path := some ⟨some "/root/a", "TST_Link", [("Id", .integer (-7))]⟩
  properties := ⟨[("Note", none),
    ("Parts", some (.array [.array [.text "1", .boolean true], .reference diskOfHost, .array []]))],
    List.pairwise_pair.2 (by decide +kernel)⟩

theorem linkToDisks_portable : linkToDisks.Portable := by
  have hpath : (ObjectPath.mk (some "/root/a") "TST_Link" [("Id", .integer (-7))]).Writable := by
    refine .mk (fun s hs => ?_) (by decide) (by simp [Ordered]) (by decide)
      (List.forall_mem_singleton.2 (.integer (-7)))
    obtain rfl := Option.some.inj hs
    decide
  have hparts : (Value.array [.array [.text "1", .boolean true], .reference diskOfHost,
      .array []]).Portable := by
    refine .array ?_
    simp only [List.forall_mem_cons, List.not_mem_nil, false_implies, implies_true, and_true]
    refine ⟨.array ?_, .reference diskOfHost_writable,
      .array fun v hv => absurd hv List.not_mem_nil⟩
    simp only [List.forall_mem_cons, List.not_mem_nil, false_implies, implies_true, and_true]
    exact ⟨.text "1", .boolean true⟩
  refine ⟨fun p hp => ?_, List.forall_mem_cons.2 ⟨fun v hv => (nomatch hv), ?_⟩⟩
  · obtain rfl := Option.some.inj hp
    exact hpath
  · refine List.forall_mem_singleton.2 fun v hv => ?_
    obtain rfl := Option.some.inj hv
    exact hparts

/-- The class of the link: nearly every field of its elements has its default. -/
def classOfLinks : ClassDecl where
  name := "TST_Link"
  qualifiers := ⟨[("Association", .boolean true)], List.pairwise_singleton _ _⟩
  properties := [{ name := "Parts", value := some (.reference diskOfHost) }]
  methods := [{ name := "Reset", parameters := [{ name := "Force", type := "boolean" }] }]

/-- A declaration without most of what may be declared. -/
def keyQualifier : QualifierDecl where
  name := "Key"
  scopes := [.property, .reference]
  overridable := some false

theorem classOfLinks_portable : classOfLinks.Portable := by
  have hempty : Qualifiers.Portable .empty := fun e he => absurd he List.not_mem_nil
  refine ⟨List.forall_mem_singleton.2 (.boolean true), List.forall_mem_singleton.2 ⟨?_, hempty⟩,
    List.forall_mem_singleton.2 ⟨List.forall_mem_singleton.2 hempty, hempty⟩⟩
  intro v hv
  obtain rfl := Option.some.inj hv
  exact .reference diskOfHost_writable

theorem loads_written_of_link :
    LoadsAs ClassDecl.ofDocument? classOfLinks.document (classOfLinks.mapSpaces bareSpace) ∧
      classOfLinks.document.nesting ≤ 127 ∧
      LoadsAs Instance.ofDocument? linkToDisks.document (linkToDisks.mapSpaces bareSpace) ∧
      linkToDisks.document.nesting ≤ 127 ∧
      linkToDisks.same (linkToDisks.mapSpaces bareSpace) = true ∧
      LoadsAs QualifierDecl.ofDocument? keyQualifier.document keyQualifier := by
  obtain ⟨hclass, -⟩ := loads_written.1 classOfLinks classOfLinks_portable
  obtain ⟨hlink, hsame, -⟩ := loads_written.2.1 linkToDisks linkToDisks_portable
  obtain ⟨hqualifier, -⟩ := loads_written.2.2 keyQualifier fun v hv => nomatch hv
  exact ⟨hclass, by decide, hlink, by decide, hsame, hqualifier⟩

end CimConsole
