import CimConsole.Output.ClassTree
import CimConsole.Proofs.Server.Ascent
import Mathlib.Data.List.Forall2
import Mathlib.Data.List.Sort

/-!
The tree of classes as a forest. What is drawn below a class is a forest, cut off at some depth. A
forest that is cut off nowhere is determined by its roots; where no class lies on a cycle it is met
after at most as many levels as there are classes. In such a forest a class stands once, as many
levels below the root as its way up has classes.
-/
namespace CimConsole

open Text

/-- To be sorted without ties is to be sorted strictly. -/
theorem pairwise_lt_mergeSort {α : Type} (key : α → String) {xs : List α}
    (h : xs.Pairwise fun a b => key a ≠ key b) :
    (xs.mergeSort fun a b => key a ≤ key b).Pairwise fun a b => key a < key b := by
  have hle := @List.pairwise_mergeSort _ (fun a b => decide (key a ≤ key b))
    (fun _ _ _ hab hbc => decide_eq_true <|
      String.le_trans (of_decide_eq_true hab) (of_decide_eq_true hbc))
    (fun a b => by simpa using String.le_total (key a) (key b)) xs
  have hne : (xs.mergeSort fun a b => key a ≤ key b).Pairwise fun a b => key a ≠ key b :=
    (List.mergeSort_perm _ _).symm.pairwise h fun hne heq => hne heq.symm
  refine hle.imp₂ (fun a b hab hne => ?_) hne
  exact String.not_le.1 fun hba => hne (String.le_antisymm (of_decide_eq_true hab) hba)

namespace ClassDecl

/-- The superclass has this name. -/
def IsUnder (c : ClassDecl) (name : String) : Prop :=
  ∃ parent, c.superclass = some parent ∧ sameName parent name = true

/-- The names of the classes that pass a test, in the order of their small letters. -/
structure Lists (classes : List ClassDecl) (test : ClassDecl → Prop) (names : List String) :
    Prop where
  ordered : names.Pairwise fun a b => foldCase a < foldCase b
  mem_iff : ∀ n, n ∈ names ↔ ∃ c ∈ classes, test c ∧ c.name = n

variable {classes : List ClassDecl} {names others : List String} {test : ClassDecl → Prop}

theorem Lists.nodup (h : Lists classes test names) : names.Nodup := by
  refine h.ordered.imp fun hlt => ?_
  rintro rfl
  exact String.lt_irrefl _ hlt

theorem Lists.eq (h : Lists classes test names) (h' : Lists classes test others) :
    names = others := by
  have hperm : names.Perm others := by
    rw [List.perm_ext_iff_of_nodup h.nodup h'.nodup]
    exact fun n => (h.mem_iff n).trans (h'.mem_iff n).symm
  refine hperm.eq_of_pairwise (fun a b _ _ hab hba => ?_) h.ordered h'.ordered
  exact absurd (String.lt_trans hab hba) (String.lt_irrefl _)

theorem Lists.exists_mem (h : Lists classes test names) :
    ∀ n ∈ names, ∃ c ∈ classes, c.name = n := fun n hn =>
  ((h.mem_iff n).1 hn).imp fun _ hc => ⟨hc.1, hc.2.2⟩

theorem Lists.of_mem {c : ClassDecl} (h : Lists classes test names)
    (hdistinct : DistinctNames classes) (hc : c ∈ classes) (hmem : c.name ∈ names) : test c := by
  obtain ⟨d, hd, htest, hname⟩ := (h.mem_iff _).1 hmem
  obtain rfl := hdistinct.eq_of_sameName hd hc (hname ▸ sameName_refl _)
  exact htest

/-- Names that differ in more than letter case are sorted without a tie. -/
theorem lists_sortedByCase (hdistinct : DistinctNames classes) (test : ClassDecl → Bool) :
    Lists classes (test · = true)
      (ClassTree.sortedByCase ((classes.filter test).map ClassDecl.name)) := by
  constructor
  · refine pairwise_lt_mergeSort foldCase (List.pairwise_map.2 ?_)
    refine (hdistinct.sublist List.filter_sublist).imp fun hname heq => ?_
    exact absurd ((sameName_iff _ _).2 heq) (by simp [hname])
  · intro n
    rw [ClassTree.sortedByCase, (List.mergeSort_perm _ _).mem_iff]
    simp only [List.mem_map, List.mem_filter, and_assoc]

theorem lists_children (hdistinct : DistinctNames classes) (name : String) :
    Lists classes (·.IsUnder name) (ClassTree.children classes name) := by
  have h := lists_sortedByCase hdistinct fun c => c.superclass.any fun s => sameName s name
  refine ⟨h.ordered, fun n => (h.mem_iff n).trans ?_⟩
  simp only [Option.any_eq_true, IsUnder]

theorem lists_roots (hdistinct : DistinctNames classes) :
    Lists classes (·.superclass = none) (ClassTree.roots classes) := by
  have h := lists_sortedByCase hdistinct fun c => c.superclass.isNone
  refine ⟨h.ordered, fun n => (h.mem_iff n).trans ?_⟩
  simp only [Option.isNone_iff_eq_none]

end ClassDecl

/-- Trees side by side: the name at the top of the first one, what is below it, and the others. -/
inductive Forest where
  | empty
  | grown (name : String) (below beside : Forest)

namespace Forest

def roots : Forest → List String
  | empty => []
  | grown name _ beside => name :: beside.roots

/-- The names in preorder, each with its level. -/
def rows : Forest → Nat → List (Nat × String)
  | empty, _ => []
  | grown name below beside, level =>
    (level, name) :: (below.rows (level + 1) ++ beside.rows level)

/-- The lines of a forest below something. -/
def draw : Forest → String → List String
  | empty, _ => []
  | grown name below beside, indent =>
    let isLast := beside.roots.isEmpty
    (indent ++ (if isLast then "└── " else "├── ") ++ name) ::
      (below.draw (indent ++ if isLast then "    " else "│   ") ++ beside.draw indent)

/-- The lines of a forest at the margin. -/
def lines : Forest → List String
  | empty => []
  | grown name below beside => name :: (below.draw "" ++ beside.lines)

/-- Below every name stand all the classes with this superclass. -/
def Full (classes : List ClassDecl) : Forest → Prop
  | empty => True
  | grown name below beside =>
    ClassDecl.Lists classes (·.IsUnder name) below.roots ∧ below.Full classes ∧ beside.Full classes

/-- Some trees side by side, given by what is below their roots. -/
def ofRoots (below : String → Forest) (names : List String) : Forest :=
  names.foldr (fun name beside => grown name (below name) beside) empty

/-- What is below a class, to a depth. -/
def grow (classes : List ClassDecl) : (depth : Nat) → (name : String) → Forest
  | 0, _ => empty
  | depth + 1, name => ofRoots (grow classes depth) (ClassTree.children classes name)

/-- The line has the name of the row behind four characters for each level. -/
def Indented (line : String) (row : Nat × String) : Prop :=
  ∃ indent : String, line = indent ++ row.2 ∧ indent.length = 4 * row.1

section Drawing

variable {below : String → Forest} {classes : List ClassDecl} {names : List String}

@[simp] theorem roots_ofRoots (below : String → Forest) (names : List String) :
    (ofRoots below names).roots = names := by
  induction names with
  | nil => rfl
  | cons name rest ih => exact congrArg (name :: ·) ih

theorem full_ofRoots (h : ∀ n ∈ names,
      (below n).Full classes ∧ ClassDecl.Lists classes (·.IsUnder n) (below n).roots) :
    (ofRoots below names).Full classes := by
  induction names with
  | nil => exact trivial
  | cons name rest ih =>
    obtain ⟨hfull, hlists⟩ := h name List.mem_cons_self
    exact ⟨hlists, hfull, ih fun n hn => h n (List.mem_cons_of_mem _ hn)⟩

theorem draw_indented (f : Forest) {indent : String} {level : Nat}
    (h : indent.length = 4 * level) :
    List.Forall₂ Indented (f.draw indent) (f.rows (level + 1)) := by
  induction f generalizing indent level with
  | empty => exact .nil
  | grown name below beside ihbelow ihbeside =>
    refine .cons ⟨_, rfl, ?_⟩ (List.rel_append (ihbelow ?_) (ihbeside h))
    · rw [String.length_append, h]
      split <;> rfl
    · rw [String.length_append, h]
      split <;> rfl

/-- The lines of a forest are its rows, indented. -/
theorem lines_indented (f : Forest) : List.Forall₂ Indented f.lines (f.rows 0) := by
  induction f with
  | empty => exact .nil
  | grown name below beside _ ihbeside =>
    exact .cons ⟨"", (String.empty_append).symm, rfl⟩
      (List.rel_append (below.draw_indented rfl) ihbeside)

/-- The drawing of siblings counts them to find the last one. -/
theorem draw_ofRoots (below : String → Forest) (indent : String) (names : List String) (i : Nat) :
    (ofRoots below names).draw indent =
      (names.zipIdx i).flatMap fun (name, j) =>
        let isLast := j + 1 == i + names.length
        (indent ++ (if isLast then "└── " else "├── ") ++ name)
          :: (below name).draw (indent ++ if isLast then "    " else "│   ") := by
  induction names generalizing i with
  | nil => rfl
  | cons name rest ih =>
    have hlast : (ofRoots below rest).roots.isEmpty = (i + 1 == i + (rest.length + 1)) := by
      rw [roots_ofRoots]
      cases rest <;> simp
    rw [List.zipIdx_cons, List.flatMap_cons, List.length_cons]
    rw [ofRoots, List.foldr_cons, draw, ← ofRoots, ih (i + 1), hlast, List.cons_append,
      Nat.add_right_comm, Nat.add_assoc i rest.length 1]

/-- What is drawn below a class is a forest. -/
theorem branches_eq (classes : List ClassDecl) (depth : Nat) (indent name : String) :
    ClassTree.branches classes depth indent name = (grow classes depth name).draw indent := by
  induction depth generalizing indent name with
  | zero => rfl
  | succ depth ih =>
    rw [ClassTree.branches, grow, draw_ofRoots _ _ _ 0]
    simp only [ih, Nat.zero_add]

theorem lines_ofRoots (below : String → Forest) (names : List String) :
    (ofRoots below names).lines = names.flatMap fun name => name :: (below name).draw "" := by
  induction names with
  | nil => rfl
  | cons name rest ih =>
    rw [List.flatMap_cons, ← ih]
    rfl

theorem classTree_lines_eq (classes : List ClassDecl) (starts : List String) :
    ClassTree.lines classes starts = (ofRoots (grow classes classes.length) starts).lines := by
  rw [ClassTree.lines, lines_ofRoots]
  simp only [branches_eq]

end Drawing

end Forest

namespace Namespace

variable {ns : Namespace} {top c d : ClassDecl} {name : String} {names : List String}
  {way : List ClassDecl}

/-- A way up that is not at its end yet comes through a class right below the end. -/
theorem Ascent.exists_child (h : ns.Ascent top c way) (hc : c ∈ ns.classes) :
    (c = top ∧ way = []) ∨
      ∃ d ∈ ns.classes, d.IsUnder top.name ∧ ∃ rest, ns.Ascent d c rest ∧ way = rest ++ [d] := by
  induction h with
  | here => exact Or.inl ⟨rfl, rfl⟩
  | @up c d parent way hparent hd hname _ ih =>
    rcases ih hd with ⟨rfl, rfl⟩ | ⟨e, he, hunder, rest, hrest, rfl⟩
    · exact Or.inr ⟨c, hc, ⟨parent, hparent, sameName_symm hname⟩, [], .here, rfl⟩
    · exact Or.inr ⟨e, he, hunder, c :: rest, .up hparent hd hname hrest, rfl⟩

theorem Ascent.of_isUnder (htop : top ∈ ns.classes) (hunder : d.IsUnder top.name) :
    ns.Ascent top d [d] := by
  obtain ⟨parent, hparent, hname⟩ := hunder
  exact .up hparent htop (sameName_symm hname) .here

/-- Names of classes none of which is below another one or itself. -/
structure Antichain (ns : Namespace) (names : List String) : Prop where
  nodup : names.Nodup
  declared : ∀ n ∈ names, ∃ c ∈ ns.classes, c.name = n
  apart : ∀ c ∈ ns.classes, ∀ d ∈ ns.classes, c.name ∈ names → d.name ∈ names →
    ¬ DescendsFrom ns.classes c.name d

theorem Antichain.tail (h : ns.Antichain (name :: names)) : ns.Antichain names where
  nodup := (List.nodup_cons.1 h.nodup).2
  declared n hn := h.declared n (List.mem_cons_of_mem _ hn)
  apart c hc d hd hroot hroot' :=
    h.apart c hc d hd (List.mem_cons_of_mem _ hroot) (List.mem_cons_of_mem _ hroot')

/-- Nothing is below two of such classes. -/
theorem Antichain.eq_of_ascent (hapart : ns.Antichain names) (h : ns.Validated)
    (hc : c ∈ ns.classes) (hd : d ∈ ns.classes) (hcroot : c.name ∈ names)
    (hdroot : d.name ∈ names) {e : ClassDecl} {back : List ClassDecl}
    (hway : ns.Ascent c e way) (hback : ns.Ascent d e back) : c = d := by
  rcases hway.linear h hback with ⟨rest, hrest, -⟩ | ⟨rest, hrest, -⟩
  · exact hrest.eq_or_descendsFrom.resolve_right (hapart.apart d hd c hc hdroot hcroot)
  · exact (hrest.eq_or_descendsFrom.resolve_right (hapart.apart c hc d hd hcroot hdroot)).symm

/-- The classes right below one that is on no cycle are such classes. -/
theorem Antichain.of_children (h : ns.Validated) (hc : c ∈ ns.classes)
    (hself : ¬ DescendsFrom ns.classes c.name c)
    (hlists : ClassDecl.Lists ns.classes (·.IsUnder c.name) names) : ns.Antichain names where
  nodup := hlists.nodup
  declared := hlists.exists_mem
  apart d hd e he hroot hroot' hdescends := by
    obtain ⟨way, hne, hway⟩ := (descendsFrom_iff_ascent hd).1 hdescends
    have hlong := hway.trans (.of_isUnder hc (hlists.of_mem h.distinct hd hroot))
    have hshort := Ascent.of_isUnder hc (hlists.of_mem h.distinct he hroot')
    have hsame := hlong.unique h hself hshort
    rw [List.append_eq_singleton_iff] at hsame
    simp [hne] at hsame

end Namespace

namespace Forest

section Hierarchy

variable {ns : Namespace} {f g : Forest} {c : ClassDecl} {level depth : Nat}
  {names : List String} {test : ClassDecl → Prop}

/-- A full forest is determined by its roots. -/
theorem Full.eq_of_roots {classes : List ClassDecl} (hf : f.Full classes) (hg : g.Full classes)
    (h : f.roots = g.roots) : f = g := by
  induction f generalizing g with
  | empty =>
    cases g with
    | empty => rfl
    | grown => cases h
  | grown name below beside ihbelow ihbeside =>
    cases g with
    | empty => cases h
    | grown other below' beside' =>
      obtain ⟨hname, hroots⟩ := List.cons.inj h
      obtain ⟨hlists, hbelow, hbeside⟩ := hf
      obtain ⟨hlists', hbelow', hbeside'⟩ := hg
      subst hname
      rw [ihbelow hbelow hbelow' (hlists.eq hlists'), ihbeside hbeside hbeside' hroots]

/-- What is below a class is not cut off if it has no more levels than are allowed. -/
theorem full_grow (h : ns.Validated) (hc : c ∈ ns.classes)
    (hdepth : ∀ d ∈ ns.classes, ∀ way, ns.Ascent c d way → way.length ≤ depth) :
    (grow ns.classes depth c.name).Full ns.classes ∧
      ClassDecl.Lists ns.classes (·.IsUnder c.name) (grow ns.classes depth c.name).roots := by
  induction depth generalizing c with
  | zero =>
    refine ⟨trivial, .nil, fun n => ⟨fun hn => absurd hn List.not_mem_nil, ?_⟩⟩
    rintro ⟨d, hd, hunder, -⟩
    exact absurd (hdepth d hd _ (.of_isUnder hc hunder)) (by simp)
  | succ depth ih =>
    have hlists := ClassDecl.lists_children h.distinct c.name
    rw [grow, roots_ofRoots]
    refine ⟨full_ofRoots fun n hn => ?_, hlists⟩
    obtain ⟨d, hd, hunder, rfl⟩ := (hlists.mem_iff n).1 hn
    refine ih hd fun e he way hway => ?_
    have hlong := hdepth e he _ (hway.trans (.of_isUnder hc hunder))
    rw [List.length_append, List.length_singleton] at hlong
    omega

/-- In a full forest a class stands as many levels below a root as there are classes on its way up
to this root. -/
theorem mem_rows_iff (h : ns.Validated) (hfull : f.Full ns.classes)
    (hroots : ∀ n ∈ f.roots, ∃ c ∈ ns.classes, c.name = n) {k : Nat} {n : String} :
    (k, n) ∈ f.rows level ↔ ∃ c ∈ ns.classes, c.name ∈ f.roots ∧
      ∃ d ∈ ns.classes, d.name = n ∧ ∃ way, ns.Ascent c d way ∧ k = level + way.length := by
  induction f generalizing level with
  | empty => simp [rows, roots]
  | grown name below beside ihbelow ihbeside =>
    obtain ⟨hlists, hbelow, hbeside⟩ := hfull
    obtain ⟨c, hc, rfl⟩ := hroots name List.mem_cons_self
    have hbesideRoots : ∀ n ∈ beside.roots, ∃ c ∈ ns.classes, c.name = n := fun n hn =>
      hroots n (List.mem_cons_of_mem _ hn)
    rw [rows, List.mem_cons, List.mem_append, ihbelow hbelow hlists.exists_mem,
      ihbeside hbeside hbesideRoots]
    constructor
    · rintro (hrow | ⟨d, hd, hroot, e, he, rfl, way, hway, rfl⟩ | ⟨d, hd, hroot, hrest⟩)
      · obtain ⟨rfl, rfl⟩ := Prod.mk.inj hrow
        exact ⟨c, hc, List.mem_cons_self, c, hc, rfl, [], .here, rfl⟩
      · have hunder := hlists.of_mem h.distinct hd hroot
        refine ⟨c, hc, List.mem_cons_self, e, he, rfl, _, hway.trans (.of_isUnder hc hunder), ?_⟩
        rw [List.length_append, List.length_singleton]
        omega
      · exact ⟨d, hd, List.mem_cons_of_mem _ hroot, hrest⟩
    · rintro ⟨d, hd, hroot, e, he, rfl, way, hway, rfl⟩
      rcases List.mem_cons.1 hroot with hname | hroot
      · obtain rfl := h.distinct.eq_of_sameName hd hc (hname ▸ sameName_refl _)
        rcases hway.exists_child he with ⟨rfl, rfl⟩ | ⟨b, hb, hunder, rest, hrest, rfl⟩
        · exact Or.inl rfl
        · refine Or.inr (Or.inl ⟨b, hb, (hlists.mem_iff _).2 ⟨b, hb, hunder, rfl⟩, e, he, rfl,
            rest, hrest, ?_⟩)
          rw [List.length_append, List.length_singleton]
          omega
      · exact Or.inr (Or.inr ⟨d, hd, hroot, e, he, rfl, way, hway, rfl⟩)

/-- The names in a full forest are those of the classes with a way up to a root. -/
theorem mem_map_rows_iff (h : ns.Validated) (hfull : f.Full ns.classes)
    (hroots : ∀ n ∈ f.roots, ∃ c ∈ ns.classes, c.name = n) {n : String} :
    n ∈ (f.rows level).map Prod.snd ↔ ∃ c ∈ ns.classes, c.name ∈ f.roots ∧
      ∃ d ∈ ns.classes, d.name = n ∧ ∃ way, ns.Ascent c d way := by
  constructor
  · intro hn
    obtain ⟨⟨k, n⟩, hrow, rfl⟩ := List.mem_map.1 hn
    obtain ⟨c, hc, hroot, d, hd, hname, way, hway, -⟩ := (mem_rows_iff h hfull hroots).1 hrow
    exact ⟨c, hc, hroot, d, hd, hname, way, hway⟩
  · rintro ⟨c, hc, hroot, d, hd, hname, way, hway⟩
    have hrow : (level + way.length, n) ∈ f.rows level :=
      (mem_rows_iff h hfull hroots).2 ⟨c, hc, hroot, d, hd, hname, way, hway, rfl⟩
    exact List.mem_map_of_mem hrow

/-- Where no root is below a root no class stands twice. -/
theorem nodup_rows (h : ns.Validated) (hfull : f.Full ns.classes) (hapart : ns.Antichain f.roots) :
    ((f.rows level).map Prod.snd).Nodup := by
  induction f generalizing level with
  | empty => exact List.nodup_nil
  | grown name below beside ihbelow ihbeside =>
    obtain ⟨hlists, hbelow, hbeside⟩ := hfull
    obtain ⟨c, hc, rfl⟩ := hapart.declared name List.mem_cons_self
    have hself := hapart.apart c hc c hc List.mem_cons_self List.mem_cons_self
    -- what is below the first root is not below the others
    have hfirst : ∀ e ∈ ns.classes, ∀ way, ns.Ascent c e way →
        e.name ∉ (beside.rows level).map Prod.snd := by
      intro e he way hway hmem
      obtain ⟨d, hd, hroot, e', he', hname, back, hback⟩ :=
        (mem_map_rows_iff h hbeside hapart.tail.declared).1 hmem
      obtain rfl := h.distinct.eq_of_sameName he' he (hname ▸ sameName_refl _)
      obtain rfl := hapart.eq_of_ascent h hc hd List.mem_cons_self (List.mem_cons_of_mem _ hroot)
        hway hback
      exact (List.nodup_cons.1 hapart.nodup).1 hroot
    have hunder : ∀ n ∈ (below.rows (level + 1)).map Prod.snd,
        ∃ e ∈ ns.classes, e.name = n ∧ ∃ way, way ≠ [] ∧ ns.Ascent c e way := by
      intro n hn
      obtain ⟨d, hd, hroot, e, he, hname, way, hway⟩ :=
        (mem_map_rows_iff h hbelow hlists.exists_mem).1 hn
      have hdirect := Namespace.Ascent.of_isUnder hc (hlists.of_mem h.distinct hd hroot)
      exact ⟨e, he, hname, way ++ [d], List.append_ne_nil_of_right_ne_nil _ (List.cons_ne_nil _ _),
        hway.trans hdirect⟩
    rw [rows, List.map_cons, List.map_append, List.nodup_cons, List.mem_append]
    refine ⟨?_, List.nodup_append'.2 ⟨?_, ihbeside hbeside hapart.tail, ?_⟩⟩
    · rintro (hmem | hmem)
      · obtain ⟨e, he, hname, way, hne, hway⟩ := hunder _ hmem
        obtain rfl := h.distinct.eq_of_sameName he hc (hname ▸ sameName_refl _)
        exact hne (hway.eq_nil hself)
      · exact hfirst c hc [] .here hmem
    · exact ihbelow hbelow (.of_children h hc hself hlists)
    · intro n hn hn'
      obtain ⟨e, he, rfl, way, -, hway⟩ := hunder n hn
      exact hfirst e he way hway hn'

/-- A class that is no root stands after its superclass. -/
theorem superclass_before {classes : List ClassDecl} (hfull : f.Full classes)
    {before after : List (Nat × String)} {k : Nat} {n : String}
    (hrows : f.rows level = before ++ (k, n) :: after) : (k = level ∧ n ∈ f.roots) ∨
      ∃ j m, k = j + 1 ∧ (j, m) ∈ before ∧ ∃ c ∈ classes, c.IsUnder m ∧ c.name = n := by
  induction f generalizing level before after with
  | empty => simp [rows] at hrows
  | grown name below beside ihbelow ihbeside =>
    obtain ⟨hlists, hbelow, hbeside⟩ := hfull
    rw [rows] at hrows
    rcases before with _ | ⟨first, before⟩
    · obtain ⟨hrow, -⟩ := List.cons.inj hrows
      obtain ⟨rfl, rfl⟩ := Prod.mk.inj hrow
      exact Or.inl ⟨rfl, List.mem_cons_self⟩
    rw [List.cons_append] at hrows
    obtain ⟨rfl, htail⟩ := List.cons.inj hrows
    rcases List.append_eq_append_iff.1 htail with
      ⟨more, rfl, hbesideRows⟩ | ⟨more, hbelowRows, hmore⟩
    · rcases ihbeside hbeside hbesideRows with ⟨rfl, hroot⟩ | ⟨j, m, rfl, hbefore, hclass⟩
      · exact Or.inl ⟨rfl, List.mem_cons_of_mem _ hroot⟩
      · exact Or.inr ⟨j, m, rfl, List.mem_cons_of_mem _ (List.mem_append_right _ hbefore), hclass⟩
    · rcases more with _ | ⟨row, more⟩
      · rw [List.nil_append] at hmore
        rcases ihbeside hbeside (hmore.symm.trans (List.nil_append _).symm) with
          ⟨rfl, hroot⟩ | ⟨j, m, -, hbefore, -⟩
        · exact Or.inl ⟨rfl, List.mem_cons_of_mem _ hroot⟩
        · exact absurd hbefore List.not_mem_nil
      · obtain ⟨rfl, -⟩ := List.cons.inj hmore
        rcases ihbelow hbelow hbelowRows with ⟨rfl, hroot⟩ | ⟨j, m, rfl, hbefore, hclass⟩
        · exact Or.inr ⟨level, name, rfl, List.mem_cons_self, (hlists.mem_iff n).1 hroot⟩
        · exact Or.inr ⟨j, m, rfl, List.mem_cons_of_mem _ hbefore, hclass⟩

/-- What a forest shows of a namespace: at the margin stand the classes that pass a test, below
every class all its subclasses, both in the order of the small letters. No class stands twice, each
stands behind its superclass, and to be drawn to a greater depth changes nothing. -/
structure Shows (f : Forest) (ns : Namespace) (atMargin : ClassDecl → Prop)
    (drawn : List String) : Prop where
  roots : ClassDecl.Lists ns.classes atMargin f.roots
  full : f.Full ns.classes
  drawn_eq : drawn = f.lines
  indented : List.Forall₂ Indented drawn (f.rows 0)
  once : ((f.rows 0).map Prod.snd).Nodup
  superclass_before : ∀ before after k n, f.rows 0 = before ++ (k + 1, n) :: after →
    ∃ m, (k, m) ∈ before ∧ ∃ c ∈ ns.classes, c.IsUnder m ∧ c.name = n
  mem_iff : ∀ k n, (k, n) ∈ f.rows 0 ↔ ∃ c ∈ ns.classes, atMargin c ∧
    ∃ d ∈ ns.classes, d.name = n ∧ ∃ way, ns.Ascent c d way ∧ way.length = k
  ends : ∀ depth, ns.classes.length ≤ depth →
    drawn = f.roots.flatMap fun name => name :: ClassTree.branches ns.classes depth "" name

/-- Classes none of which is below another one or itself are drawn with all that is below them. -/
theorem exists_shows (h : ns.Validated) (hnames : ClassDecl.Lists ns.classes test names)
    (hapart : ∀ c ∈ ns.classes, ∀ d ∈ ns.classes, test c → test d →
      ¬ DescendsFrom ns.classes c.name d) :
    ∃ f : Forest, f.Shows ns test (ClassTree.lines ns.classes names) := by
  have hgrown : ∀ depth, ns.classes.length ≤ depth → ∀ n ∈ names,
      (grow ns.classes depth n).Full ns.classes ∧
        ClassDecl.Lists ns.classes (·.IsUnder n) (grow ns.classes depth n).roots := by
    intro depth hdepth n hn
    obtain ⟨c, hc, htest, rfl⟩ := (hnames.mem_iff n).1 hn
    refine full_grow h hc fun d hd way hway => ?_
    exact ((hway.length_lt h (hapart c hc c hc htest htest) hd).trans_le hdepth).le
  have hfull := full_ofRoots (hgrown _ (Nat.le_refl _))
  refine ⟨ofRoots (grow ns.classes ns.classes.length) names, ?_⟩
  refine ⟨?roots, hfull, classTree_lines_eq _ _, ?indented, ?once, ?before, ?mem, ?ends⟩
  case roots => rwa [roots_ofRoots]
  case indented =>
    rw [classTree_lines_eq]
    exact lines_indented _
  case once =>
    refine nodup_rows h hfull ?_
    rw [roots_ofRoots]
    exact ⟨hnames.nodup, hnames.exists_mem, fun c hc d hd hroot hroot' => hapart c hc d hd
      (hnames.of_mem h.distinct hc hroot) (hnames.of_mem h.distinct hd hroot')⟩
  case before =>
    intro before after k n hrows
    rcases superclass_before hfull hrows with ⟨hmargin, -⟩ | ⟨j, m, hlevel, hbefore, hclass⟩
    · exact absurd hmargin (Nat.succ_ne_zero k)
    · obtain rfl := Nat.succ.inj hlevel
      exact ⟨m, hbefore, hclass⟩
  case mem =>
    intro k n
    rw [mem_rows_iff h hfull (by rw [roots_ofRoots]; exact hnames.exists_mem), roots_ofRoots]
    simp only [Nat.zero_add, @eq_comm _ k]
    constructor
    · rintro ⟨c, hc, hroot, hbelow⟩
      exact ⟨c, hc, hnames.of_mem h.distinct hc hroot, hbelow⟩
    · rintro ⟨c, hc, htest, hbelow⟩
      exact ⟨c, hc, (hnames.mem_iff _).2 ⟨c, hc, htest, rfl⟩, hbelow⟩
  case ends =>
    intro depth hdepth
    have hsame := Full.eq_of_roots hfull (full_ofRoots (hgrown depth hdepth)) (by simp)
    rw [classTree_lines_eq, hsame, lines_ofRoots, roots_ofRoots]
    simp only [branches_eq]

end Hierarchy

end Forest

end CimConsole
