import CimConsole.Options
import CimConsole.Proofs.Server.Enumeration
import CimConsole.Proofs.Server.Keys
import CimConsole.Target

/-!
Servers that can come about: a repository is loaded, and calls create and delete instances one
after another. Whatever connection options lead to a server, it is one of these, and it stays one.
-/
namespace CimConsole

namespace Server

/-- The classes of every namespace have names of their own and superclasses. -/
def Validated (s : Server) : Prop := ∀ e ∈ s.namespaces, e.2.Validated

section Validated

variable {s t : Server} {name : String}

theorem Validated.of_holds {own : String} {ns : Namespace} (h : s.Validated)
    (hns : s.Holds name own ns) : ns.Validated :=
  h _ (List.mem_of_find?_eq_some hns.1)

/-- Other instances leave the classes what they are. -/
theorem Validated.withInstances {own : String} {ns : Namespace} (h : s.Validated)
    (hns : s.Holds name own ns) (xs : List Instance) :
    (s.withNamespace name { ns with instances := xs }).Validated := by
  intro e he
  rcases hns.mem_withNamespace he with rfl | he
  · exact ⟨(h.of_holds hns).distinct, (h.of_holds hns).declared⟩
  · exact h e he

theorem Validated.after (h : s.Validated) (c : StoreCall) : (c.after s).Validated := by
  rcases StoreCall.after_cases s c with hsame | ⟨name, x, path, hc⟩ | ⟨name, path, hd⟩
  · rwa [hsame]
  · obtain ⟨own, ns, hns, -, -, ht⟩ := create_eq_ok.1 hc
    exact ht ▸ h.withInstances hns _
  · obtain ⟨own, ns, x, hns, -, -, ht⟩ := delete_eq_ok.1 hd
    exact ht ▸ h.withInstances hns _

end Validated

/-- A loaded server behind some calls. -/
def Reachable (s : Server) : Prop :=
  ∃ (r : Repository) (default : Option String) (url : String) (s₀ : Server)
    (calls : List StoreCall), r.server default url = .ok s₀ ∧ s₀.afterCalls calls = s

variable {s t : Server}

theorem Reachable.keyed (h : s.Reachable) : s.Keyed := by
  obtain ⟨r, default, url, s₀, calls, hload, rfl⟩ := h
  exact (keyed_of_repository hload).afterCalls calls

/-- Instances come and go, the classes stay. -/
theorem Reachable.validated (h : s.Reachable) : s.Validated := by
  obtain ⟨r, default, url, s₀, calls, hload, rfl⟩ := h
  have hloaded : s₀.Validated := fun e he => validated_of_repository hload he
  clear hload
  induction calls generalizing s₀ with
  | nil => exact hloaded
  | cons c rest ih => exact ih _ (hloaded.after c)

theorem reachable_of_repository {r : Repository} {default : Option String} {url : String}
    (h : r.server default url = .ok s) : s.Reachable :=
  ⟨r, default, url, s, [], h, rfl⟩

theorem Reachable.after (h : s.Reachable) (c : StoreCall) : (c.after s).Reachable := by
  obtain ⟨r, default, url, s₀, calls, hload, rfl⟩ := h
  exact ⟨r, default, url, s₀, calls ++ [c], hload, List.foldl_append⟩

theorem Reachable.create (h : s.Reachable) {name : String} {x : Instance} {path : ObjectPath}
    (hc : s.create name x = .ok (path, t)) : t.Reachable :=
  StoreCall.after_create hc ▸ h.after _

theorem Reachable.delete (h : s.Reachable) {name : String} {path : ObjectPath}
    (hd : s.delete name path = .ok t) : t.Reachable :=
  StoreCall.after_delete hd ▸ h.after _

/-- Only mock servers are reached, and these are loaded from their files. -/
theorem reachable_of_reach {target : Target} {files : Files} {default : Option String}
    (h : target.reach files default = .ok s) : s.Reachable := by
  cases target with
  | server given url => cases h
  | mock paths =>
    obtain ⟨r, -, hload⟩ := bind_eq_ok.1 (mapError_eq_ok.1 h)
    exact reachable_of_repository hload

end Server

theorem Options.reachable_of_connect {o : Options} {files : Files} {s : Server} {target : Target}
    (h : o.connect files = .ok (s, target)) : s.Reachable := by
  obtain ⟨resolved, -, h⟩ := bind_eq_ok.1 h
  cases resolved with
  | none => cases h
  | some found =>
    obtain ⟨target', -, h⟩ := bind_eq_ok.1 h
    obtain ⟨reached, hreached, h⟩ := bind_eq_ok.1 h
    obtain ⟨rfl, rfl⟩ := Prod.mk.inj (Except.ok.inj h)
    exact Server.reachable_of_reach (mapError_eq_ok.1 hreached)

end CimConsole
