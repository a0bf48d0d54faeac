import CimConsole.Proofs.Server.Hierarchy
import Mathlib.Data.List.Induction
import Mathlib.Data.List.Nodup
import Mathlib.Data.List.Perm.Subperm

/-!
What a class inherits. A reader gets a class with the elements that its ancestors declare merged
into its own, from the farthest ancestor down to the class itself: an element replaces the one of
its name and stays in its place, or comes last. So the order tells where a name was introduced, and
the contents come from the nearest class that declares it. Properties and methods are merged alike,
and what a reader did not ask for is taken off behind the merge.
-/
namespace CimConsole

open Text

section Putting

variable {α : Type} (name : α → String)

/-- The names of elements without their letter case. -/
def foldedNames (xs : List α) : List String := xs.map fun x => foldCase (name x)

/-- Elements put one after another, each in the place of the one of its name. -/
def putAll (xs : List α) : List α := xs.foldl (fun ys x => putByName name x ys) []

variable {name} {x y : α} {xs : List α}

theorem mem_foldedNames {n : String} :
    foldCase n ∈ foldedNames name xs ↔ ∃ x ∈ xs, sameName (name x) n = true := by
  simp [foldedNames, sameName_iff]

theorem putAll_concat : putAll name (xs ++ [x]) = putByName name x (putAll name xs) := by
  rw [putAll, putAll, List.foldl_append, List.foldl_cons, List.foldl_nil]

/-- Putting an element brings its name in at the end if it is new, and no other one. -/
theorem foldedNames_putByName (x : α) (xs : List α) : foldedNames name (putByName name x xs) =
    if foldCase (name x) ∈ foldedNames name xs then foldedNames name xs
    else foldedNames name xs ++ [foldCase (name x)] := by
  induction xs with
  | nil => rfl
  | cons z rest ih =>
    have hcons : ∀ ys, foldedNames name (z :: ys) = foldCase (name z) :: foldedNames name ys :=
      fun ys => rfl
    rw [putByName]
    split
    · next hsame =>
      have hfolded : foldCase (name z) = foldCase (name x) := (sameName_iff _ _).1 hsame
      rw [hcons, hfolded, if_pos List.mem_cons_self]
      rfl
    · next hother =>
      have hfolded : foldCase (name x) ≠ foldCase (name z) := fun heq =>
        hother ((sameName_iff _ _).2 heq.symm)
      rw [hcons, hcons, ih]
      by_cases hmem : foldCase (name x) ∈ foldedNames name rest
      · rw [if_pos hmem, if_pos (List.mem_cons_of_mem _ hmem)]
      · rw [if_neg hmem, if_neg fun h => (List.mem_cons.1 h).elim hfolded hmem, List.cons_append]

theorem nodup_foldedNames_putByName (h : (foldedNames name xs).Nodup) (x : α) :
    (foldedNames name (putByName name x xs)).Nodup := by
  rw [foldedNames_putByName]
  split
  · exact h
  · next hnew => exact List.nodup_append'.2 ⟨h, List.nodup_singleton _, by simpa using hnew⟩

/-- Putting an element keeps the elements of other names and no others. -/
theorem mem_putByName (h : (foldedNames name xs).Nodup) :
    y ∈ putByName name x xs ↔ y = x ∨ y ∈ xs ∧ sameName (name y) (name x) = false := by
  induction xs with
  | nil => simp [putByName]
  | cons z rest ih =>
    obtain ⟨hz, hrest⟩ := List.nodup_cons.1 h
    rw [putByName]
    split
    · next hsame =>
      have hothers : ∀ w ∈ rest, sameName (name w) (name x) = false := fun w hw =>
        Bool.eq_false_iff.2 fun hwx =>
          hz (mem_foldedNames.2 ⟨w, hw, sameName_trans hwx (sameName_symm hsame)⟩)
      simp only [List.mem_cons]
      constructor
      · exact Or.imp_right fun hy => ⟨Or.inr hy, hothers y hy⟩
      · rintro (rfl | ⟨rfl | hy, hother⟩)
        · exact Or.inl rfl
        · rw [hsame] at hother
          cases hother
        · exact Or.inr hy
    · next hother =>
      rw [List.mem_cons, ih hrest, List.mem_cons]
      constructor
      · rintro (rfl | rfl | ⟨hy, hyx⟩)
        · exact Or.inr ⟨Or.inl rfl, Bool.eq_false_iff.2 hother⟩
        · exact Or.inl rfl
        · exact Or.inr ⟨Or.inr hy, hyx⟩
      · rintro (rfl | ⟨rfl | hy, hyx⟩)
        · exact Or.inr (Or.inl rfl)
        · exact Or.inl rfl
        · exact Or.inr (Or.inr ⟨hy, hyx⟩)

variable (name) in
theorem nodup_foldedNames_putAll (xs : List α) : (foldedNames name (putAll name xs)).Nodup := by
  induction xs using List.reverseRecOn with
  | nil => exact List.nodup_nil
  | append_singleton xs x ih =>
    rw [putAll_concat]
    exact nodup_foldedNames_putByName ih x

variable (name) in
/-- The names stand in the order in which they came first. -/
theorem foldedNames_putAll (xs : List α) :
    foldedNames name (putAll name xs) = (foldedNames name xs).eraseDups := by
  induction xs using List.reverseRecOn with
  | nil => rfl
  | append_singleton xs x ih =>
    have hconcat : foldedNames name (xs ++ [x]) = foldedNames name xs ++ [foldCase (name x)] :=
      List.map_append
    rw [putAll_concat, foldedNames_putByName, ih, hconcat, List.eraseDups_append]
    by_cases hmem : foldCase (name x) ∈ foldedNames name xs
    · rw [if_pos (List.mem_eraseDups.2 hmem)]
      simp [List.removeAll, hmem]
    · rw [if_neg (mt List.mem_eraseDups.1 hmem)]
      simp [List.removeAll, hmem, List.eraseDups_cons]

/-- Of the elements of one name the last one stays. -/
theorem mem_putAll : y ∈ putAll name xs ↔
    ∃ before after, xs = before ++ y :: after ∧
      ∀ z ∈ after, sameName (name z) (name y) = false := by
  induction xs using List.reverseRecOn with
  | nil => simp [putAll]
  | append_singleton xs x ih =>
    rw [putAll_concat, mem_putByName (nodup_foldedNames_putAll name xs), ih]
    constructor
    · rintro (rfl | ⟨⟨before, after, rfl, hafter⟩, hyx⟩)
      · exact ⟨xs, [], rfl, fun z hz => absurd hz List.not_mem_nil⟩
      · refine ⟨before, after ++ [x], by simp, fun z hz => ?_⟩
        rcases List.mem_append.1 hz with hz | hz
        · exact hafter z hz
        · obtain rfl := List.mem_singleton.1 hz
          rwa [sameName_comm]
    · rintro ⟨before, after, hsplit, hafter⟩
      rcases List.eq_nil_or_concat after with rfl | ⟨inner, last, rfl⟩
      · exact Or.inl (List.singleton_inj.1 (List.append_inj_right' hsplit rfl)).symm
      · rw [List.concat_eq_append, ← List.cons_append, ← List.append_assoc] at hsplit
        rw [List.concat_eq_append] at hafter
        obtain ⟨rfl, hlast⟩ := List.append_inj' hsplit rfl
        obtain rfl := List.singleton_inj.1 hlast
        have hyx := hafter x (List.mem_append_right _ (List.mem_singleton_self x))
        refine Or.inr ⟨⟨before, inner, rfl, fun z hz => hafter z (List.mem_append_left _ hz)⟩, ?_⟩
        rwa [sameName_comm]

/-- A change that leaves names as they are can be made before or after. -/
theorem map_putAll {f : α → α} (hf : ∀ x, name (f x) = name x) (xs : List α) :
    (putAll name xs).map f = putAll name (xs.map f) := by
  have hput : ∀ x ys, (putByName name x ys).map f = putByName name (f x) (ys.map f) := by
    intro x ys
    induction ys with
    | nil => rfl
    | cons y rest ih =>
      simp only [putByName, List.map_cons, hf]
      split
      · rfl
      · rw [List.map_cons, ih]
  induction xs using List.reverseRecOn with
  | nil => rfl
  | append_singleton xs x ih =>
    rw [putAll_concat, hput, ih, List.map_append, List.map_singleton, putAll_concat]

end Putting

/-- The elements of a class as a reader gets them, where the sources are the class itself and those
of its ancestors that count, the nearest first. -/
structure Inherits {α : Type} (name : α → String) (declared : ClassDecl → List α)
    (shownFrom : ClassDecl → α → α) (sources : List ClassDecl) (shown : List α) : Prop where
  distinct : shown.Pairwise fun a b => sameName (name a) (name b) = false
  named : ∀ n, (∃ a ∈ shown, sameName (name a) n = true) ↔
    ∃ source ∈ sources, ∃ d ∈ declared source, sameName (name d) n = true
  /-- An element is the last of its name in the nearest source that declares the name. -/
  nearest : ∀ a ∈ shown, ∃ nearer source farther before d after,
    sources = nearer ++ source :: farther ∧ declared source = before ++ d :: after ∧
      a = shownFrom source d ∧
      (∀ s ∈ nearer, ∀ e ∈ declared s, sameName (name e) (name d) = false) ∧
      ∀ e ∈ after, sameName (name e) (name d) = false
  /-- Names stand in the order of their first declaration, from the farthest source on. -/
  order : foldedNames name shown = (foldedNames name (sources.reverse.flatMap declared)).eraseDups

section Merging

variable {α : Type} {name : α → String} {declared : ClassDecl → List α}
  {shownFrom : ClassDecl → α → α} {sources : List ClassDecl}

/-- Where an element that no later one has the name of was declared. -/
theorem nearest_of_split {P : α → Prop} {before after : List α} {a : α}
    (hsplit : sources.reverse.flatMap (fun s => (declared s).map (shownFrom s)) =
      before ++ a :: after)
    (hafter : ∀ e ∈ after, P e) :
    ∃ nearer source farther front d back, sources = nearer ++ source :: farther ∧
      declared source = front ++ d :: back ∧ a = shownFrom source d ∧
      (∀ s ∈ nearer, ∀ e ∈ declared s, P (shownFrom s e)) ∧ ∀ e ∈ back, P (shownFrom source e) := by
  -- the elements of the nearest source stand last: the one looked for is among them, or they all
  -- come behind it
  induction sources generalizing after with
  | nil => exact absurd hsplit.symm (by simp)
  | cons s rest ih =>
    rw [List.reverse_cons, List.flatMap_append, List.flatMap_singleton] at hsplit
    rcases List.append_eq_append_iff.1 hsplit with ⟨lead, rfl, hown⟩ | ⟨tail, hfar, htail⟩
    · obtain ⟨front, more, hdeclared, -, hmore⟩ := List.map_eq_append_iff.1 hown
      obtain ⟨d, back, rfl, rfl, rfl⟩ := List.map_eq_cons_iff.1 hmore
      exact ⟨[], s, rest, front, d, back, rfl, hdeclared, rfl,
        fun t ht => absurd ht List.not_mem_nil,
        fun e he => hafter _ (List.mem_map_of_mem he)⟩
    · cases tail with
      | nil =>
        obtain ⟨d, back, hdeclared, rfl, rfl⟩ := List.map_eq_cons_iff.1 htail.symm
        exact ⟨[], s, rest, [], d, back, rfl, hdeclared, rfl,
          fun t ht => absurd ht List.not_mem_nil,
          fun e he => hafter _ (List.mem_map_of_mem he)⟩
      | cons b tail =>
        obtain ⟨rfl, rfl⟩ := List.cons.inj htail
        obtain ⟨nearer, source, farther, front, d, back, rfl, hdeclared, rfl, hnearer, hback⟩ :=
          ih hfar fun e he => hafter e (List.mem_append_left _ he)
        refine ⟨s :: nearer, source, farther, front, d, back, rfl, hdeclared, rfl, ?_, hback⟩
        intro t ht e he
        rcases List.mem_cons.1 ht with rfl | ht
        · exact hafter _ (List.mem_append_right _ (List.mem_map_of_mem he))
        · exact hnearer t ht e he

/-- Putting the elements of all sources, from the farthest on, is inheriting them. -/
theorem inherits_putAll (hname : ∀ s d, name (shownFrom s d) = name d) (sources : List ClassDecl) :
    Inherits name declared shownFrom sources
      (putAll name (sources.reverse.flatMap fun s => (declared s).map (shownFrom s))) := by
  have hnames : foldedNames name (sources.reverse.flatMap fun s => (declared s).map (shownFrom s)) =
      foldedNames name (sources.reverse.flatMap declared) := by
    simp only [foldedNames, List.map_flatMap, List.map_map, Function.comp_def, hname]
  have horder := foldedNames_putAll name
    (sources.reverse.flatMap fun s => (declared s).map (shownFrom s))
  rw [hnames] at horder
  constructor
  case distinct =>
    have hnodup := nodup_foldedNames_putAll name
      (sources.reverse.flatMap fun s => (declared s).map (shownFrom s))
    refine (List.pairwise_map.1 hnodup).imp fun hne => Bool.eq_false_iff.2 fun hsame => ?_
    exact hne ((sameName_iff _ _).1 hsame)
  case named =>
    intro n
    rw [← mem_foldedNames, horder, List.mem_eraseDups, mem_foldedNames]
    simp only [List.mem_flatMap, List.mem_reverse]
    constructor
    · rintro ⟨d, ⟨source, hsource, hd⟩, hn⟩
      exact ⟨source, hsource, d, hd, hn⟩
    · rintro ⟨source, hsource, d, hd, hn⟩
      exact ⟨d, ⟨source, hsource, hd⟩, hn⟩
  case nearest =>
    intro a ha
    obtain ⟨before, after, hsplit, hafter⟩ := mem_putAll.1 ha
    obtain ⟨nearer, source, farther, front, d, back, hsources, hdeclared, rfl, hnearer, hback⟩ :=
      nearest_of_split hsplit hafter
    simp only [hname] at hnearer hback
    exact ⟨nearer, source, farther, front, d, back, hsources, hdeclared, rfl, hnearer, hback⟩
  case order => exact horder

end Merging

/-- A property that one class declares, as a reader of another one gets it. -/
def PropertyDecl.shownFrom (detail : ClassDetail) (cls source : ClassDecl) (p : PropertyDecl) :
    PropertyDecl :=
  { p with
    origin := if detail.origins then some source.name else none
    propagated := !sameName source.name cls.name
    qualifiers := if detail.qualifiers then p.qualifiers else .empty }

/-- A method that one class declares, as a reader of another one gets it. -/
def MethodDecl.shownFrom (detail : ClassDetail) (cls source : ClassDecl) (m : MethodDecl) :
    MethodDecl :=
  { m with
    origin := if detail.origins then some source.name else none
    propagated := !sameName source.name cls.name
    qualifiers := if detail.qualifiers then m.qualifiers else .empty
    parameters := if detail.qualifiers then m.parameters
      else m.parameters.map fun p => { p with qualifiers := .empty } }

theorem PropertyDecl.name_shownFrom (detail : ClassDetail) (cls source : ClassDecl)
    (p : PropertyDecl) : (p.shownFrom detail cls source).name = p.name := rfl

theorem MethodDecl.name_shownFrom (detail : ClassDetail) (cls source : ClassDecl)
    (m : MethodDecl) : (m.shownFrom detail cls source).name = m.name := rfl

/-- All that a reader can ask of a class. -/
def everything : ClassDetail where
  origins := true

/-- A property without what a reader did not ask for. -/
def PropertyDecl.shown (detail : ClassDetail) (p : PropertyDecl) : PropertyDecl :=
  { p with
    origin := if detail.origins then p.origin else none
    qualifiers := if detail.qualifiers then p.qualifiers else .empty }

/-- A method without what a reader did not ask for. -/
def MethodDecl.shown (detail : ClassDetail) (m : MethodDecl) : MethodDecl :=
  { m with
    origin := if detail.origins then m.origin else none
    qualifiers := if detail.qualifiers then m.qualifiers else .empty
    parameters := if detail.qualifiers then m.parameters
      else m.parameters.map fun p => { p with qualifiers := .empty } }

/-- A class without what a reader did not ask for. -/
def ClassDecl.shown (detail : ClassDetail) (c : ClassDecl) : ClassDecl :=
  let c := if detail.qualifiers then c else c.withoutQualifiers
  if detail.origins then c else c.withoutOrigins

theorem PropertyDecl.name_shown (detail : ClassDetail) (p : PropertyDecl) :
    (p.shown detail).name = p.name := rfl

theorem MethodDecl.name_shown (detail : ClassDetail) (m : MethodDecl) :
    (m.shown detail).name = m.name := rfl

theorem PropertyDecl.shown_shownFrom (detail : ClassDetail) (cls source : ClassDecl)
    (p : PropertyDecl) :
    (p.shownFrom everything cls source).shown detail = p.shownFrom detail cls source := rfl

theorem MethodDecl.shown_shownFrom (detail : ClassDetail) (cls source : ClassDecl)
    (m : MethodDecl) :
    (m.shownFrom everything cls source).shown detail = m.shownFrom detail cls source := rfl

theorem ClassDecl.properties_shown (detail : ClassDetail) (c : ClassDecl) :
    (c.shown detail).properties = c.properties.map (PropertyDecl.shown detail) := by
  cases hq : detail.qualifiers <;> cases ho : detail.origins <;>
    simp +unfoldPartialApp [ClassDecl.shown, PropertyDecl.shown, withoutQualifiers,
      withoutOrigins, hq, ho, Function.comp_def]

theorem ClassDecl.methods_shown (detail : ClassDetail) (c : ClassDecl) :
    (c.shown detail).methods = c.methods.map (MethodDecl.shown detail) := by
  cases hq : detail.qualifiers <;> cases ho : detail.origins <;>
    simp +unfoldPartialApp [ClassDecl.shown, MethodDecl.shown, withoutQualifiers,
      withoutOrigins, hq, ho, Function.comp_def]

namespace Namespace

variable {ns : Namespace} {own name : String} {c d : ClassDecl} {chain : List ClassDecl}

/-- The classes from a class up to one without superclass, each the superclass of the one before. -/
inductive Ancestry (ns : Namespace) : ClassDecl → List ClassDecl → Prop where
  | top {c : ClassDecl} (htop : c.superclass = none) : Ancestry ns c [c]
  | under {c d : ClassDecl} {parent : String} {rest : List ClassDecl}
      (hparent : c.superclass = some parent) (hd : d ∈ ns.classes)
      (hname : sameName d.name parent = true) (h : Ancestry ns d rest) : Ancestry ns c (c :: rest)

/-- A class descends from every class that a walk from it meets behind it. -/
theorem descendsFrom_of_mem_walk {n : Nat} (h : d ∈ ns.walk n (c.superclass.bind ns.class?)) :
    DescendsFrom ns.classes d.name c := by
  induction n generalizing c with
  | zero => exact absurd h List.not_mem_nil
  | succ n ih =>
    cases hparent : c.superclass with
    | none =>
      rw [hparent] at h
      exact absurd h List.not_mem_nil
    | some parent =>
      rw [hparent, Option.bind_some] at h
      cases hfound : ns.class? parent with
      | none =>
        rw [hfound] at h
        exact absurd h List.not_mem_nil
      | some e =>
        obtain ⟨he, hname⟩ := mem_of_class? hfound
        rw [hfound, walk] at h
        rcases List.mem_cons.1 h with rfl | h
        · exact .direct hparent (sameName_symm hname)
        · exact .further hparent he hname (ih h)

theorem mem_classes_of_mem_walk {n : Nat} {start : Option ClassDecl}
    (hstart : ∀ e ∈ start, e ∈ ns.classes) (h : d ∈ ns.walk n start) : d ∈ ns.classes := by
  induction n generalizing start with
  | zero => exact absurd h List.not_mem_nil
  | succ n ih =>
    cases start with
    | none => exact absurd h List.not_mem_nil
    | some e =>
      rw [walk] at h
      rcases List.mem_cons.1 h with rfl | h
      · exact hstart d rfl
      · refine ih (fun f hf => ?_) h
        obtain ⟨parent, -, hfound⟩ := Option.bind_eq_some_iff.1 hf
        exact (mem_of_class? hfound).1

/-- The chain of a class has the class and those that it descends from. -/
theorem Validated.mem_superclassChain_iff (h : ns.Validated) (hc : c ∈ ns.classes) :
    d ∈ ns.superclassChain c.name ↔
      d ∈ ns.classes ∧ (d = c ∨ DescendsFrom ns.classes d.name c) := by
  have hchain : ns.superclassChain c.name = ns.walk (ns.classes.length + 1) (some c) := by
    rw [superclassChain, h.class?_eq hc (sameName_refl _)]
  have hdeclared : ∀ {e}, e ∈ ns.superclassChain c.name → e ∈ ns.classes := fun he =>
    mem_classes_of_mem_walk (fun e he => Option.some.inj he ▸ hc) (hchain ▸ he)
  constructor
  · intro hd
    refine ⟨hdeclared hd, ?_⟩
    rw [hchain, walk] at hd
    exact (List.mem_cons.1 hd).imp_right descendsFrom_of_mem_walk
  · rintro ⟨hd, hway⟩
    -- a class of the name of `d` is met, and there is only one
    have hwithin : ns.isWithin c.name d.name = true := by
      refine (h.isWithin_iff hc).2 (hway.imp_left ?_)
      rintro rfl
      exact sameName_refl _
    obtain ⟨e, he, hname⟩ := Namespace.isWithin_iff.1 hwithin
    exact h.distinct.eq_of_sameName (hdeclared he) hd hname ▸ he

/-- Without cycles no class is met twice. -/
theorem nodup_walk (hacyclic : Acyclic ns.classes) {n : Nat} {start : Option ClassDecl}
    (hstart : ∀ e ∈ start, e ∈ ns.classes) : (ns.walk n start).Nodup := by
  induction n generalizing start with
  | zero => exact List.nodup_nil
  | succ n ih =>
    cases start with
    | none => exact List.nodup_nil
    | some e =>
      rw [walk]
      refine List.nodup_cons.2 ⟨fun hmem => ?_, ih fun f hf => ?_⟩
      · exact hacyclic e (hstart e rfl) (descendsFrom_of_mem_walk hmem)
      · obtain ⟨parent, -, hfound⟩ := Option.bind_eq_some_iff.1 hf
        exact (mem_of_class? hfound).1

/-- A walk that is shorter than it may be ends at a class without superclass. -/
theorem Validated.ancestry_walk (h : ns.Validated) (hc : c ∈ ns.classes) {n : Nat}
    (hlength : (ns.walk n (some c)).length < n) : ns.Ancestry c (ns.walk n (some c)) := by
  induction n generalizing c with
  | zero => omega
  | succ n ih =>
    rw [walk] at hlength ⊢
    cases hparent : c.superclass with
    | none =>
      have hend : ns.walk n none = [] := by cases n <;> rfl
      rw [Option.bind_none, hend]
      exact .top hparent
    | some parent =>
      obtain ⟨d, hfound⟩ := Option.isSome_iff_exists.1 (h.declared c hc parent hparent)
      obtain ⟨hd, hname⟩ := mem_of_class? hfound
      rw [hparent, Option.bind_some, hfound, List.length_cons] at hlength
      rw [Option.bind_some, hfound]
      exact .under hparent hd hname (ih hd (by omega))

/-- Without cycles the chain of a class goes all the way up. -/
theorem Validated.ancestry (h : ns.Validated) (hacyclic : Acyclic ns.classes)
    (hc : ns.class? name = some c) : ns.Ancestry c (ns.superclassChain name) := by
  obtain ⟨hmem, -⟩ := mem_of_class? hc
  have hstart : ∀ e ∈ some c, e ∈ ns.classes := fun e he => Option.some.inj he ▸ hmem
  rw [superclassChain, hc]
  refine h.ancestry_walk hmem ?_
  have hsubset : ns.walk (ns.classes.length + 1) (some c) ⊆ ns.classes := fun d hd =>
    mem_classes_of_mem_walk hstart hd
  have hlength := ((nodup_walk hacyclic hstart).subperm hsubset).length_le
  omega

/-- The elements of the sources are put one after another, marked with where they come from. -/
theorem elements_foldl_inherit (sources : List ClassDecl) (cls : ClassDecl) :
    (sources.foldl inherit cls).properties =
      (sources.flatMap fun s => s.properties.map (PropertyDecl.shownFrom everything cls s)).foldl
        (fun ps p => putByName PropertyDecl.name p ps) cls.properties ∧
    (sources.foldl inherit cls).methods =
      (sources.flatMap fun s => s.methods.map (MethodDecl.shownFrom everything cls s)).foldl
        (fun ms m => putByName MethodDecl.name m ms) cls.methods := by
  induction sources generalizing cls with
  | nil => exact ⟨rfl, rfl⟩
  | cons s rest ih =>
    obtain ⟨hproperties, hmethods⟩ := ih (inherit cls s)
    rw [List.foldl_cons, hproperties, hmethods, List.flatMap_cons, List.flatMap_cons,
      List.foldl_append, List.foldl_append, List.foldl_map, List.foldl_map]
    exact ⟨rfl, rfl⟩

/-- What a reader of a class gets: the elements put together, without what was not asked for. -/
theorem exists_resolve?_elements (hc : ns.class? name = some c) (detail : ClassDetail) :
    ∃ r, ns.resolve? detail name = some r ∧
      r.properties = putAll PropertyDecl.name
        ((if detail.localOnly then [c] else ns.superclassChain name).reverse.flatMap fun s =>
          s.properties.map (PropertyDecl.shownFrom detail c s)) ∧
      r.methods = putAll MethodDecl.name
        ((if detail.localOnly then [c] else ns.superclassChain name).reverse.flatMap fun s =>
          s.methods.map (MethodDecl.shownFrom detail c s)) := by
  have hchain : ns.superclassChain name =
      c :: ns.walk ns.classes.length (c.superclass.bind ns.class?) := by
    rw [superclassChain, hc, walk]
  generalize hsources : (if detail.localOnly then [c] else ns.superclassChain name) = sources
  have hmerged : (if detail.localOnly then [c] else (ns.superclassChain name).reverse) =
      sources.reverse := by
    rw [← hsources]
    split <;> rfl
  obtain ⟨hproperties, hmethods⟩ :=
    elements_foldl_inherit sources.reverse { c with properties := [], methods := [] }
  refine ⟨((sources.reverse.foldl inherit { c with properties := [], methods := [] }).shown detail),
    ?_, ?_, ?_⟩
  · rw [resolve?, hchain]
    dsimp only
    rw [← hchain, hmerged]
    rfl
  · calc _ = (putAll PropertyDecl.name (sources.reverse.flatMap fun s =>
          s.properties.map (PropertyDecl.shownFrom everything c s))).map
            (PropertyDecl.shown detail) := by rw [ClassDecl.properties_shown, hproperties]; rfl
      _ = _ := by
        rw [map_putAll (PropertyDecl.name_shown detail), List.map_flatMap]
        simp only [List.map_map, Function.comp_def, PropertyDecl.shown_shownFrom]
  · calc _ = (putAll MethodDecl.name (sources.reverse.flatMap fun s =>
          s.methods.map (MethodDecl.shownFrom everything c s))).map
            (MethodDecl.shown detail) := by rw [ClassDecl.methods_shown, hmethods]; rfl
      _ = _ := by
        rw [map_putAll (MethodDecl.name_shown detail), List.map_flatMap]
        simp only [List.map_map, Function.comp_def, MethodDecl.shown_shownFrom]

/-- No two properties of a class that a reader gets have names that differ in letter case only. -/
theorem nodup_properties {r : ClassDecl} {detail : ClassDetail}
    (h : ns.resolve? detail name = some r) : (foldedNames PropertyDecl.name r.properties).Nodup := by
  cases hc : ns.class? name with
  | none => simp [resolve?, superclassChain, hc, walk] at h
  | some c =>
    obtain ⟨r', hr, hproperties, -⟩ := exists_resolve?_elements hc detail
    obtain rfl := Option.some.inj (h.symm.trans hr)
    rw [hproperties]
    exact nodup_foldedNames_putAll _ _

/-- A reader of a class without cycles above it gets the properties and methods that inheritance
gives it, from all of its ancestors or from the class alone, and those that come from an ancestor
are the ones that are marked as propagated. -/
theorem elements_inherited (hchecked : ns.checkClasses own [] ns.classes = .ok ())
    (hacyclic : Acyclic ns.classes) (hc : ns.class? name = some c) (detail : ClassDetail) :
    ns.Ancestry c (ns.superclassChain name) ∧
    (∀ source ∈ ns.superclassChain name, sameName source.name c.name = true ↔ source = c) ∧
    ∃ r, ns.resolve? detail name = some r ∧
      Inherits PropertyDecl.name ClassDecl.properties (PropertyDecl.shownFrom detail c)
        (if detail.localOnly then [c] else ns.superclassChain name) r.properties ∧
      Inherits MethodDecl.name ClassDecl.methods (MethodDecl.shownFrom detail c)
        (if detail.localOnly then [c] else ns.superclassChain name) r.methods := by
  have hvalid := validated_of_checkClasses hchecked
  obtain ⟨hmem, -⟩ := mem_of_class? hc
  obtain ⟨r, hr, hproperties, hmethods⟩ := exists_resolve?_elements hc detail
  refine ⟨hvalid.ancestry hacyclic hc, fun source hsource => ?_, r, hr, ?_, ?_⟩
  · rw [superclassChain, hc] at hsource
    have hstart : ∀ e ∈ some c, e ∈ ns.classes := fun e he => Option.some.inj he ▸ hmem
    have hdeclared := mem_classes_of_mem_walk hstart hsource
    exact ⟨hvalid.distinct.eq_of_sameName hdeclared hmem, fun heq => heq ▸ sameName_refl _⟩
  · rw [hproperties]
    exact inherits_putAll (PropertyDecl.name_shownFrom detail c) _
  · rw [hmethods]
    exact inherits_putAll (MethodDecl.name_shownFrom detail c) _

/-- Three classes one below the other. Each declares a property anew that was declared above it, in
other letters, and the lowest one declares a property twice. -/
def crate : Namespace where
  classes :=
    [{ name := "TST_Leaf", superclass := some "tst_middle"
       properties := [{ name := "Weight", type := "uint16" }, { name := "color" },
        { name := "WEIGHT", type := "uint32" }] },
      { name := "TST_Middle", superclass := some "TST_BASE"
        properties := [{ name := "Color" }, { name := "SIZE", type := "uint64" }] },
      { name := "TST_Base"
        properties := [{ name := "Id" }, { name := "Size", type := "uint32" }] }]

/-- The name of a property, its type and the class that it comes from, if not the class itself. -/
def provenance (p : PropertyDecl) : String × String × Option String :=
  (p.name, p.type, if p.propagated then p.origin else none)

theorem elements_inherited_by_leaf :
    ∃ r, crate.resolve? { origins := true } "tst_leaf" = some r ∧
      r.properties.map provenance = [("Id", "string", some "TST_Base"),
        ("SIZE", "uint64", some "TST_Middle"), ("color", "string", none),
        ("WEIGHT", "uint32", none)] ∧
      foldedNames PropertyDecl.name r.properties = ["id", "size", "color", "weight"] ∧
      ∀ n, (∃ p ∈ r.properties, sameName p.name n = true) ↔
        ∃ c ∈ crate.superclassChain "tst_leaf", ∃ p ∈ c.properties, sameName p.name n = true := by
  have hacyclic : Acyclic crate.classes := (acyclic_iff (by decide +kernel)).2 (by decide +kernel)
  have hchecked : crate.checkClasses "root" [] crate.classes = .ok () := rfl
  have hleaf : crate.class? "tst_leaf" = crate.classes.head? := rfl
  obtain ⟨-, -, r, hr, hproperties, -⟩ :=
    elements_inherited hchecked hacyclic hleaf { origins := true }
  have hshown : (crate.resolve? { origins := true } "tst_leaf").map (fun r =>
      r.properties.map provenance) = some [("Id", "string", some "TST_Base"),
        ("SIZE", "uint64", some "TST_Middle"), ("color", "string", none),
        ("WEIGHT", "uint32", none)] := rfl
  rw [hr] at hshown
  refine ⟨r, hr, Option.some.inj hshown, ?_, hproperties.named⟩
  rw [hproperties.order]
  decide +kernel

end Namespace

end CimConsole
