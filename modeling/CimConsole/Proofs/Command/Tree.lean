import CimConsole.Proofs.Filter.Retrieval
import CimConsole.Proofs.Output.Forest

/-!
The command that draws the tree of classes. The classes it retrieves have the names and superclasses
of the declared ones, so the tree is that of the namespace. Without a class it shows the classes
whose way up ends, and those on cycles or below them are left out; with a class on no cycle it shows
this class and the classes below it.
-/
namespace CimConsole

open Text

namespace ClassTree

variable {classes : List ClassDecl} {shown : ClassDecl → ClassDecl}
  (hshown : ∀ c ∈ classes, (shown c).name = c.name ∧ (shown c).superclass = c.superclass)

include hshown

theorem map_name_filter_map (test : Option String → Bool) :
    ((classes.map shown).filter fun c => test c.superclass).map ClassDecl.name =
      (classes.filter fun c => test c.superclass).map ClassDecl.name := by
  induction classes with
  | nil => rfl
  | cons c rest ih =>
    obtain ⟨hname, hsuper⟩ := hshown c List.mem_cons_self
    have hrest := ih fun d hd => hshown d (List.mem_cons_of_mem _ hd)
    rw [List.map_cons, List.filter_cons, List.filter_cons, hsuper]
    split
    · rw [List.map_cons, List.map_cons, hname, hrest]
    · exact hrest

theorem find?_map (name : String) : (classes.map shown).find? (fun c => sameName c.name name) =
      (classes.find? fun c => sameName c.name name).map shown := by
  induction classes with
  | nil => rfl
  | cons c rest ih =>
    rw [List.map_cons, List.find?_cons, List.find?_cons, (hshown c List.mem_cons_self).1,
      ih fun d hd => hshown d (List.mem_cons_of_mem _ hd)]
    cases sameName c.name name <;> rfl

theorem lines_map (names : List String) :
    lines (classes.map shown) names = lines classes names := by
  have hchildren (name : String) : children (classes.map shown) name = children classes name :=
    congrArg sortedByCase (map_name_filter_map hshown (·.any fun s => sameName s name))
  have hbranches (depth : Nat) : ∀ indent name,
      branches (classes.map shown) depth indent name = branches classes depth indent name := by
    induction depth with
    | zero => exact fun _ _ => rfl
    | succ depth ih =>
      intro indent name
      simp only [branches, hchildren, ih]
  simp only [lines, hbranches, List.length_map]

end ClassTree

namespace ClassCommand

variable {s : Server} {space own : String} {ns : Namespace}

/-- The tree of the retrieved classes is that of the declared ones. -/
theorem treeLines_eq (h : s.Holds space own ns) (hvalid : ns.Validated) :
    treeLines s space none = .ok (ClassTree.lines ns.classes (ClassTree.roots ns.classes)) ∧
    ∀ name c, ns.class? name = some c →
      treeLines s space (some name) = .ok (ClassTree.lines ns.classes [c.name]) := by
  let detail : ClassDetail := { qualifiers := false }
  have hshown : ∀ c ∈ ns.classes, (ns.shownAs detail c).name = c.name ∧
      (ns.shownAs detail c).superclass = c.superclass := fun c hc => hvalid.shownAs_eq detail hc
  have hretrieved : s.classes space none true detail =
      .ok (ns.classes.map (ns.shownAs detail)) := by
    have hall : ns.classesBelow space none true = .ok ns.classes := by
      simp [Namespace.classesBelow]
    rw [h.classes_eq, hall]
    exact congrArg Except.ok (hvalid.retrieve_eq_map detail fun c hc => hc)
  constructor
  · have hroots : ClassTree.roots (ns.classes.map (ns.shownAs detail)) =
        ClassTree.roots ns.classes :=
      congrArg ClassTree.sortedByCase (ClassTree.map_name_filter_map hshown Option.isNone)
    rw [treeLines, hretrieved, ← ClassTree.lines_map hshown, ← hroots]
    rfl
  · intro name c hc
    have hfound : (ns.classes.map (ns.shownAs detail)).find? (fun c => sameName c.name name) =
        some (ns.shownAs detail c) := by
      rw [ClassTree.find?_map hshown]
      exact congrArg (Option.map _) hc
    rw [treeLines, hretrieved, ← ClassTree.lines_map hshown,
      ← (hshown c (Namespace.mem_of_class? hc).1).1]
    simp only [Except.mapError, bind, Except.bind, hfound]
    rfl

/-- Without a class the tree shows every class whose way up ends at a class without superclass, with
as many levels above it as it has ancestors. With a class that is not below itself it shows this
class and all classes below it. -/
theorem tree_shows (h : s.Holds space own ns)
    (hchecked : ns.checkClasses own [] ns.classes = .ok ()) :
    (∃ (f : Forest) (drawn : List String), treeLines s space none = .ok drawn ∧
      f.Shows ns (·.superclass = none) drawn ∧
      ∀ k n, (k, n) ∈ f.rows 0 ↔ ∃ c ∈ ns.classes, c.name = n ∧
        ns.Ancestry c (ns.superclassChain n) ∧ (ns.superclassChain n).length = k + 1) ∧
    ∀ name c, ns.class? name = some c → ¬ DescendsFrom ns.classes c.name c →
      ∃ (f : Forest) (drawn : List String), treeLines s space (some name) = .ok drawn ∧
        f.Shows ns (· = c) drawn ∧
        ∀ n, n ∈ (f.rows 0).map Prod.snd ↔
          n = c.name ∨ ∃ d ∈ ns.classes, d.name = n ∧ DescendsFrom ns.classes c.name d := by
  have hvalid := Namespace.validated_of_checkClasses hchecked
  obtain ⟨hall, hone⟩ := treeLines_eq h hvalid
  constructor
  · obtain ⟨f, hshows⟩ := Forest.exists_shows hvalid (ClassDecl.lists_roots hvalid.distinct)
      fun _ _ _ _ _ htop => Namespace.not_descendsFrom_of_top htop
    refine ⟨f, _, hall, hshows, fun k n => (hshows.mem_iff k n).trans ?_⟩
    constructor
    · rintro ⟨top, -, htop, c, hc, rfl, way, hway, rfl⟩
      have hchain := hway.ancestry (.top htop)
      rw [hvalid.superclassChain_eq hc hchain]
      exact ⟨c, hc, rfl, hchain, by rw [List.length_append, List.length_singleton]⟩
    · rintro ⟨c, hc, rfl, hchain, hlength⟩
      obtain ⟨top, way, hway, htop, heq⟩ := hchain.exists_ascent
      refine ⟨top, hway.top_mem hc, htop, c, hc, rfl, way, hway, ?_⟩
      rw [heq, List.length_append, List.length_singleton] at hlength
      exact Nat.succ.inj hlength
  · intro name c hfound hself
    have hc := (Namespace.mem_of_class? hfound).1
    have hlists : ClassDecl.Lists ns.classes (· = c) [c.name] :=
      ⟨List.pairwise_singleton _ _, fun n => by simp [hc, eq_comm]⟩
    obtain ⟨f, hshows⟩ := Forest.exists_shows hvalid hlists (by
      rintro _ - _ - rfl rfl
      exact hself)
    refine ⟨f, _, hone name c hfound, hshows, fun n => ?_⟩
    rw [Forest.mem_map_rows_iff hvalid hshows.full hshows.roots.exists_mem]
    have hroot : c.name ∈ f.roots := (hshows.roots.mem_iff _).2 ⟨c, hc, rfl, rfl⟩
    constructor
    · rintro ⟨top, htop, hmargin, d, hd, rfl, way, hway⟩
      obtain rfl := hshows.roots.of_mem hvalid.distinct htop hmargin
      rcases hway.eq_or_descendsFrom with rfl | hdescends
      · exact Or.inl rfl
      · exact Or.inr ⟨d, hd, rfl, hdescends⟩
    · rintro (rfl | ⟨d, hd, rfl, hdescends⟩)
      · exact ⟨c, hc, hroot, c, hc, rfl, [], .here⟩
      · obtain ⟨way, -, hway⟩ := (Namespace.descendsFrom_iff_ascent hc).1 hdescends
        exact ⟨c, hc, hroot, d, hd, rfl, way, hway⟩

/-- Two classes that are each other's superclass, two below them, and two trees without cycles. -/
def tangled : Namespace where
  classes := [
    { name := "TST_Egg", superclass := some "TST_HEN" },
    { name := "TST_Hen", superclass := some "TST_Egg" },
    { name := "TST_Leaf", superclass := some "TST_CHICK" },
    { name := "TST_Chick", superclass := some "tst_egg" },
    { name := "TST_Right", superclass := some "TST_Base" },
    { name := "TST_Base" },
    { name := "TST_Apart" }]

def ofTangled : Server where
  namespaces := [("root/farm", tangled)]
  defaultNamespace := "root/farm"
  url := "http://farm:5988"

/-- Without a class only what is off the cycle is shown; a class below it can be asked for. -/
theorem tree_shows_tangled :
    (∃ (f : Forest) (drawn : List String), treeLines ofTangled "root/farm" none = .ok drawn ∧
      f.Shows tangled (·.superclass = none) drawn ∧ (1, "TST_Right") ∈ f.rows 0) ∧
    ∃ (f : Forest) (drawn : List String),
      treeLines ofTangled "root/farm" (some "tst_chick") = .ok drawn ∧
      f.Shows tangled (· = { name := "TST_Chick", superclass := some "tst_egg" }) drawn ∧
      "TST_Leaf" ∈ (f.rows 0).map Prod.snd := by
  have hholds : ofTangled.Holds "root/farm" "root/farm" tangled := ⟨rfl, rfl⟩
  have hchecked : tangled.checkClasses "root/farm" [] tangled.classes = .ok () := rfl
  have hchick : tangled.class? "tst_chick" =
      some { name := "TST_Chick", superclass := some "tst_egg" } := rfl
  obtain ⟨⟨f, drawn, hdrawn, hshows, hrows⟩, hone⟩ := tree_shows hholds hchecked
  have hself : ¬ DescendsFrom tangled.classes "TST_Chick"
      { name := "TST_Chick", superclass := some "tst_egg" } := by
    rw [← descends_iff (by decide +kernel) (Namespace.mem_of_class? hchick).1]
    decide +kernel
  obtain ⟨g, below, hbelow, hbelowShows, hnames⟩ := hone _ _ hchick hself
  refine ⟨⟨f, drawn, hdrawn, hshows, (hrows 1 _).2 ?_⟩, g, below, hbelow, hbelowShows, ?_⟩
  · have hbase : ({ name := "TST_Base" } : ClassDecl) ∈ tangled.classes := by simp [tangled]
    refine ⟨{ name := "TST_Right", superclass := some "TST_Base" }, by simp [tangled], rfl, ?_, rfl⟩
    exact .under rfl hbase (by decide +kernel) (.top rfl)
  · have hleaf : DescendsFrom tangled.classes "TST_Chick"
        { name := "TST_Leaf", superclass := some "TST_CHICK" } := .direct rfl (by decide +kernel)
    exact (hnames _).2 (Or.inr ⟨_, by simp [tangled], rfl, hleaf⟩)

end ClassCommand

end CimConsole
