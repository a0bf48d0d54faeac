import CimConsole.Proofs.Server.Keys

/-!
The ancestors of a class. A walk along superclasses meets each class under the declaration that
its name finds, so from any class of a walk the rest of the walk is the walk from there. Two
classes above a third are therefore related to each other, whatever cycles there are.
-/
namespace CimConsole

open Text

namespace Namespace

variable {ns : Namespace} {name a b : String}

/-- Names that differ in letter case only find the same class. -/
theorem class?_congr (h : sameName a b = true) : ns.class? a = ns.class? b := by
  have hpred : (fun c : ClassDecl => sameName c.name a) = fun c => sameName c.name b := by
    funext c
    rw [Bool.eq_iff_iff]
    exact ⟨fun hc => sameName_trans hc h, fun hc => sameName_trans hc (sameName_symm h)⟩
  rw [class?, class?, hpred]

theorem class?_name {c : ClassDecl} (h : ns.class? name = some c) : ns.class? c.name = some c := by
  have hname : sameName c.name name = true := by simpa using List.find?_some h
  rw [class?_congr hname, h]

theorem isWithin_congr (h : sameName a b = true) (ancestor : String) :
    ns.isWithin a ancestor = ns.isWithin b ancestor := by
  rw [isWithin, isWithin, superclassChain, superclassChain, class?_congr h]

theorem mem_walk_succ {steps : Nat} {start : Option ClassDecl} {c : ClassDecl}
    (h : c ∈ ns.walk steps start) : c ∈ ns.walk (steps + 1) start := by
  induction steps generalizing start with
  | zero => exact absurd h List.not_mem_nil
  | succ steps ih =>
    cases start with
    | none => exact absurd h List.not_mem_nil
    | some d =>
      rw [walk, List.mem_cons] at h ⊢
      exact h.imp_right ih

/-- Every class of a walk is the one that its name finds. -/
theorem class?_of_mem_walk {steps : Nat} {start : Option ClassDecl} {c : ClassDecl}
    (hstart : ∀ d, start = some d → ns.class? d.name = some d) (h : c ∈ ns.walk steps start) :
    ns.class? c.name = some c := by
  induction steps generalizing start with
  | zero => exact absurd h List.not_mem_nil
  | succ steps ih =>
    cases start with
    | none => exact absurd h List.not_mem_nil
    | some d =>
      rw [walk, List.mem_cons] at h
      rcases h with rfl | h
      · exact hstart c rfl
      · refine ih (fun e he => ?_) h
        obtain ⟨parent, -, hparent⟩ := Option.bind_eq_some_iff.1 he
        exact class?_name hparent

/-- Of two classes of a walk one is met on the walk from the other. -/
theorem mem_walk_linear {steps : Nat} {start : Option ClassDecl} {c d : ClassDecl}
    (hc : c ∈ ns.walk steps start) (hd : d ∈ ns.walk steps start) :
    d ∈ ns.walk steps (some c) ∨ c ∈ ns.walk steps (some d) := by
  induction steps generalizing start with
  | zero => exact absurd hc List.not_mem_nil
  | succ steps ih =>
    cases start with
    | none => exact absurd hc List.not_mem_nil
    | some e =>
      by_cases hce : c = e
      · exact Or.inl (hce ▸ hd)
      by_cases hde : d = e
      · exact Or.inr (hde ▸ hc)
      · rw [walk, List.mem_cons] at hc hd
        rcases ih (hc.resolve_left hce) (hd.resolve_left hde) with h | h
        · exact Or.inl (mem_walk_succ h)
        · exact Or.inr (mem_walk_succ h)

theorem isWithin_iff {ancestor : String} :
    ns.isWithin name ancestor = true ↔
      ∃ c ∈ ns.superclassChain name, sameName c.name ancestor = true := by
  rw [isWithin, List.any_eq_true]

theorem isWithin_self (h : (ns.class? name).isSome = true) : ns.isWithin name name = true := by
  obtain ⟨c, hc⟩ := Option.isSome_iff_exists.1 h
  refine isWithin_iff.2 ⟨c, ?_, by simpa using List.find?_some hc⟩
  rw [superclassChain, hc, walk]
  exact List.mem_cons_self

/-- Two classes above a third one are related. -/
theorem isWithin_linear (ha : ns.isWithin name a = true) (hb : ns.isWithin name b = true) :
    ns.isWithin a b = true ∨ ns.isWithin b a = true := by
  obtain ⟨c, hc, hca⟩ := isWithin_iff.1 ha
  obtain ⟨d, hd, hdb⟩ := isWithin_iff.1 hb
  have hstart : ∀ e, ns.class? name = some e → ns.class? e.name = some e := fun e => class?_name
  have hchain : ∀ {n : String} {e : ClassDecl}, e ∈ ns.superclassChain name →
      sameName e.name n = true →
      ns.superclassChain n = ns.walk (ns.classes.length + 1) (some e) := by
    intro n e he hn
    rw [superclassChain, ← class?_congr hn, class?_of_mem_walk hstart he]
  rcases mem_walk_linear hc hd with h | h
  · exact Or.inl (isWithin_iff.2 ⟨d, by rwa [hchain hc hca], hdb⟩)
  · exact Or.inr (isWithin_iff.2 ⟨c, by rwa [hchain hd hdb], hca⟩)

end Namespace

end CimConsole
