import CimConsole.Proofs.Model.Symmetry
import CimConsole.Proofs.Server.Binding
import CimConsole.Proofs.Server.Reachable
import CimConsole.Proofs.Subscription.Additions
import CimConsole.Proofs.Subscription.Removal
import CimConsole.Proofs.Tally

/-!
References to endpoints. A listing shows for each endpoint how many subscriptions refer to it, and
an endpoint to which some do is not removed. Both count by equality of paths, in which a missing
namespace agrees with every other, so a path can equal two that differ. It cannot equal the paths of
two stored endpoints: these are in one namespace and have scalars for their keys, so they would
equal each other.
-/
namespace CimConsole

open Number

namespace Namespace

variable {ns : Namespace} {own : String} {kind : EndpointKind}

/-- All keys in the paths of the endpoints of a kind are scalars. -/
def ScalarKeys (ns : Namespace) (kind : EndpointKind) : Prop :=
  ∀ e ∈ ns.endpoints kind, ∀ p ∈ e.path, ∀ k ∈ p.keys, k.2.isScalar = true

/-- No subscription refers in this role by a path with two keys that differ in letter case only. -/
def DistinctReferences (ns : Namespace) (kind : EndpointKind) : Prop :=
  ∀ x ∈ ns.subscriptions, ∀ r ∈ x.path? kind.role, CaseDistinct r.keys

instance : Decidable (ns.ScalarKeys kind) :=
  inferInstanceAs (Decidable (∀ e ∈ ns.endpoints kind, ∀ p ∈ e.path, ∀ k ∈ p.keys, _))

instance : Decidable (ns.DistinctReferences kind) :=
  inferInstanceAs (Decidable (∀ x ∈ ns.subscriptions, ∀ r ∈ x.path? kind.role, _))

/-- A path with scalars for its keys that does not equal itself is no place where something is
stored. -/
theorem Keyed.find?_eq_none (h : ns.Keyed own) {p : ObjectPath}
    (hscalar : ∀ k ∈ p.keys, k.2.isScalar = true) (hself : p.same p = false) :
    ns.find? p = none := by
  refine List.find?_eq_none.2 fun x hx hat => ?_
  obtain ⟨q, hq, hfor⟩ := h.placed x hx
  rw [isAt_of_path hq] at hat
  have hsame : p.same p = true := ObjectPath.same_of_common (caseDistinct_of_pathFor hfor) hat hat
    (agreeingSpaces_self _) hscalar
  rw [hself] at hsame
  cases hsame

/-- No subscription refers to two endpoints. -/
theorem Keyed.pairwise_refersTo (h : ns.Keyed own) (hscalar : ns.ScalarKeys kind)
    (hdistinct : ns.DistinctReferences kind) :
    (ns.endpoints kind).Pairwise fun d e => ∀ x ∈ ns.subscriptions,
      refersTo kind d x = true → refersTo kind e x = false := by
  have hapart : (ns.endpoints kind).Pairwise fun d e =>
      ∀ p q, d.path = some p → e.path = some q → p.same q = false :=
    h.distinct.sublist List.filter_sublist
  refine hapart.imp_of_mem fun {d e} hd he hdiffer x hx hrefers => ?_
  rw [Bool.eq_false_iff]
  intro hother
  obtain ⟨r, p, hr, hp, hsame⟩ := refersTo_eq_true.1 hrefers
  obtain ⟨r', q, hr', hq, hsame'⟩ := refersTo_eq_true.1 hother
  obtain rfl := Option.some.inj (hr.symm.trans hr')
  have hspace : agreeingSpaces p.nameSpace q.nameSpace = true := by
    obtain ⟨p', hp', hfor⟩ := h.placed d (mem_endpoints.1 hd).1
    obtain ⟨q', hq', hfor'⟩ := h.placed e (mem_endpoints.1 he).1
    obtain rfl := Option.some.inj (hp.symm.trans hp')
    obtain rfl := Option.some.inj (hq.symm.trans hq')
    obtain ⟨-, -, hown, -⟩ := of_pathFor hfor
    obtain ⟨-, -, hown', -⟩ := of_pathFor hfor'
    rw [hown, hown']
    exact agreeingSpaces_self _
  have hequal : p.same q = true :=
    ObjectPath.same_of_common (hdistinct x hx r hr) hsame hsame' hspace (hscalar d hd p hp)
  rw [hdiffer p q hp hq] at hequal
  cases hequal

end Namespace

namespace Manager

open CimConsole.Action (outcome outcome_bind outcome_bind_ok outcome_query_ok)

variable {σ : Type} {mgr : Manager} {s : Server} {own : String} {ns : Namespace}
  {kind : EndpointKind}

/-- How many stored subscriptions refer to an endpoint. -/
def referenceCount (ns : Namespace) (kind : EndpointKind) (e : Instance) : Nat :=
  (ns.subscriptions.filter (refersTo kind e)).length

/-- Every endpoint is listed with the number of the subscriptions that refer to it. -/
theorem listEndpoints_eq (hns : s.Holds mgr.interop own ns)
    (hdeclared : ∀ name ∈ roleClasses, (ns.class? name).isSome = true) (kind : EndpointKind) :
    mgr.listEndpoints s kind = .ok ((ns.endpoints kind).map fun e =>
      { stored := e
        owned := (mgr.classify kind e.endpointName).isOwned
        identity := (mgr.classify kind e.endpointName).typed
        references := referenceCount ns kind e }) := by
  rw [listEndpoints, subscriptions_eq hns hdeclared, endpoints_eq hns hdeclared kind]
  rfl

section Removing

variable {chooser : Chooser (StateM σ)} {identity : String} {select : Bool} {user user' : σ}
  {e : Instance} {p : ObjectPath} {t : Server}

/-- What an identity is resolved to is stored, and the server is as before. -/
theorem of_outcome_resolveIdentity (hns : s.Holds mgr.interop own ns)
    (h : outcome (mgr.resolveIdentity chooser kind identity select) s user = ((.ok e, t), user')) :
    e ∈ ns.endpoints kind ∧ t = s := by
  have hensured : Action.Ensures (· = s) (mgr.resolveIdentity chooser kind identity select)
      (fun x u => u.Stores mgr.interop kind.className x ∧ u = s) (· = s) :=
    ensures_resolveIdentity fun _ hs => hs
  have hend := hensured s user rfl
  rw [h] at hend
  obtain ⟨hstored, rfl⟩ := hend
  exact ⟨Namespace.mem_endpoints.2 ((Server.stores_iff hns e).1 hstored), rfl⟩

variable (hns : s.Holds mgr.interop own ns)
  (hdeclared : ∀ name ∈ roleClasses, (ns.class? name).isSome = true)
  (h : outcome (mgr.resolveIdentity chooser kind identity select) s user = ((.ok e, s), user'))

include hns hdeclared h

/-- An endpoint that subscriptions refer to is refused with their number. -/
theorem outcome_removeEndpoint_inUse (hused : 0 < referenceCount ns kind e) :
    outcome (mgr.removeEndpoint chooser kind identity select) s user =
      ((.error (.inUse kind e.endpointName (referenceCount ns kind e)), s), user') := by
  rw [removeEndpoint, outcome_bind_ok h,
    outcome_bind_ok (outcome_query_ok (subscriptions_eq hns hdeclared))]
  dsimp only
  rw [referenceCount] at hused ⊢
  rw [if_pos hused]
  rfl

/-- Otherwise its path is deleted. -/
theorem outcome_removeEndpoint_unused (hp : e.path = some p)
    (hunused : referenceCount ns kind e = 0) :
    outcome (mgr.removeEndpoint chooser kind identity select) s user =
      outcome (do
        mgr.delete p
        pure p) s user' := by
  rw [removeEndpoint, outcome_bind_ok h,
    outcome_bind_ok (outcome_query_ok (subscriptions_eq hns hdeclared))]
  dsimp only
  rw [referenceCount] at hunused
  rw [if_neg (Nat.not_lt.2 (Nat.le_of_eq hunused)), hp]

end Removing

/-- Shown counts of references are the ones that keep an endpoint. On every server that a loaded one
becomes by calls, for every manager with the classes of subscriptions in its interop namespace, the
endpoints of a kind can be listed. Whichever of them an identity is resolved to, it is listed; if
the count that is shown for it is not zero, then it is not removed, and the refusal tells that
count; if it is zero and no key of the endpoint is a NaN, then this endpoint is removed and nothing
else; with a NaN it is not found where it stands. The counts of all listed endpoints add up to the
number of the subscriptions that refer to some of them. -/
theorem listed_references (hs : s.Reachable) (mgr : Manager) (hns : s.Holds mgr.interop own ns)
    (hdeclared : ∀ name ∈ roleClasses, (ns.class? name).isSome = true) (kind : EndpointKind)
    (hscalar : ns.ScalarKeys kind) (hdistinct : ns.DistinctReferences kind) :
    ∃ listed, mgr.listEndpoints s kind = .ok listed ∧
      (∀ (chooser : Chooser (StateM σ)) (identity : String) (select : Bool) (user user' : σ)
        (e : Instance) (t : Server),
        outcome (mgr.resolveIdentity chooser kind identity select) s user =
          ((.ok e, t), user') →
        ∃ path count, e.path = some path ∧
          (∃ l ∈ listed, l.stored = e) ∧ (∀ l ∈ listed, l.stored = e → l.references = count) ∧
          (0 < count → outcome (mgr.removeEndpoint chooser kind identity select) s user =
            ((.error (.inUse kind e.endpointName count), s), user')) ∧
          (count = 0 → path.anyReal Binary64.isNaN = false → ∃ before after t',
            ns.instances = before ++ e :: after ∧
            s.DifferIn t' own ns { ns with instances := before ++ after } ∧
            outcome (mgr.removeEndpoint chooser kind identity select) s user =
              ((.ok path, t'), user')) ∧
          (count = 0 → path.anyReal Binary64.isNaN = true →
            outcome (mgr.removeEndpoint chooser kind identity select) s user =
              ((.error (.server (Server.noSuchInstance path)), s), user'))) ∧
      (listed.map EndpointListing.references).foldr (· + ·) 0 =
        (ns.subscriptions.filter fun x => listed.any fun l => refersTo kind l.stored x).length := by
  have hkeyed : ns.Keyed own := hs.keyed.of_holds hns
  refine ⟨_, listEndpoints_eq hns hdeclared kind, ?removing, ?counting⟩
  case counting =>
    have hsum := foldr_length_filter (hkeyed.pairwise_refersTo hscalar hdistinct)
    simpa only [List.map_map, List.any_map, Function.comp_def, referenceCount] using hsum
  case removing =>
    intro chooser identity select user user' e t hresolved
    obtain ⟨he, rfl⟩ := of_outcome_resolveIdentity hns hresolved
    have hmem : e ∈ ns.instances := (Namespace.mem_endpoints.1 he).1
    obtain ⟨path, hpath, hfor⟩ := hkeyed.placed e hmem
    have hapart : path.KeysApart := ObjectPath.keysApart_of_isScalar
      (Namespace.caseDistinct_of_pathFor hfor) (hscalar e he path hpath)
    refine ⟨path, referenceCount ns kind e, hpath, ⟨_, List.mem_map_of_mem he, rfl⟩, ?_,
      outcome_removeEndpoint_inUse hns hdeclared hresolved, fun hunused hreal => ?removed,
      fun hunused hreal => ?missed⟩
    · intro l hl hstored
      obtain ⟨d, -, rfl⟩ := List.mem_map.1 hl
      obtain rfl : d = e := hstored
      rfl
    case removed =>
      obtain ⟨before, after, hsplit⟩ := List.append_of_mem hmem
      refine ⟨before, after, _, hsplit, hns.differIn _, ?_⟩
      rw [outcome_removeEndpoint_unused hns hdeclared hresolved hpath hunused,
        outcome_bind_ok (outcome_delete (Server.delete_stored hns hkeyed hsplit hpath
          (hapart.same_self_iff.2 hreal)))]
      rfl
    case missed =>
      have hself : path.same path = false := by
        rw [Bool.eq_false_iff, Ne, hapart.same_self_iff, hreal]
        decide
      obtain ⟨cls, hclass, -, hname, -, -⟩ := Namespace.of_pathFor hfor
      obtain ⟨c, hclass, -⟩ := Namespace.class?_self hclass
      have hmissing := Server.delete_missing hns (by rw [hname, hclass]; rfl)
        (hkeyed.find?_eq_none (hscalar e he path hpath) hself)
      rw [outcome_removeEndpoint_unused hns hdeclared hresolved hpath hunused, delete, outcome_bind,
        Action.outcome_change, hmissing]
      rfl

/-- The call that joins the destination and the permanent filter of a repository. -/
def joining : List StoreCall :=
  [.create "interop" (subscription (pathOn .destination "d") (pathOn .filter "f"))]

/-- What comes of resolving the identity of an endpoint when nobody is there to choose. -/
def resolved (mgr : Manager) (s : Server) (kind : EndpointKind) (identity : String) :
    (Except SubscriptionError Instance × Server) × Unit :=
  outcome (mgr.resolveIdentity (fun _ _ => pure none) kind identity false) s ()

/-- What comes of removing an endpoint when nobody is there to choose. -/
def removed (mgr : Manager) (s : Server) (kind : EndpointKind) (identity : String) :
    (Except SubscriptionError ObjectPath × Server) × Unit :=
  outcome (mgr.removeEndpoint (fun _ _ => pure none) kind identity false) s ()

/-- One of two filters has a subscription. It is refused, and the other one is removed. -/
theorem listed_references_of_filters :
    ∃ s₀, ownedRepository.server none "mock" = .ok s₀ ∧
      let s := s₀.afterCalls joining
      let mgr : Manager := ⟨"other", "interop", "mock"⟩
      mgr.removed s .filter "f" = ((.error (.inUse .filter "f" 1), s), ()) ∧
        ∃ path t, mgr.removed s .filter "pywbemfilter:manager:f" = ((.ok path, t), ()) := by
  have hrepository : ∃ s₀, ownedRepository.server none "mock" = .ok s₀ ∧
      let s := s₀.afterCalls joining
      let mgr : Manager := ⟨"other", "interop", "mock"⟩
      (s.At "interop" fun ns => ns.fault = none ∧
        (∀ name ∈ roleClasses, (ns.class? name).isSome = true) ∧ ns.ScalarKeys .filter ∧
        ns.DistinctReferences .filter) ∧
      ((mgr.resolved s .filter "f").1.1.toOption.any fun e => e.endpointName = "f") = true ∧
      ((mgr.resolved s .filter "pywbemfilter:manager:f").1.1.toOption.any fun e =>
        e.endpointName = "pywbemfilter:manager:f" ∧
          ∀ p ∈ e.path, p.anyReal Binary64.isNaN = false) = true ∧
      ((mgr.listEndpoints s .filter).toOption.all fun listed => ∀ l ∈ listed,
        l.references = if l.stored.endpointName = "f" then 1 else 0) = true :=
    exists_ok_of_any (by decide +kernel)
  obtain ⟨s₀, hload, ⟨own, ns, hentry, hfault, hdeclared, hscalar, hdistinct⟩, hused, hunused,
    hcounts⟩ := hrepository
  have hreachable : (s₀.afterCalls joining).Reachable :=
    ⟨ownedRepository, none, "mock", s₀, joining, hload, rfl⟩
  obtain ⟨e, he, hname⟩ := exists_ok_of_any hused
  obtain ⟨e', he', hname', hreal⟩ := exists_ok_of_any hunused
  obtain ⟨listed, hlisted, hremoves, -⟩ := listed_references hreachable
    ⟨"other", "interop", "mock"⟩ ⟨hentry, hfault⟩ hdeclared .filter hscalar hdistinct
  rw [hlisted, toOption_eq_some.2 rfl, Option.all_some, decide_eq_true_eq] at hcounts
  refine ⟨s₀, hload, ?_, ?_⟩
  · obtain ⟨path, count, -, ⟨l, hl, hstored⟩, hsame, hrefused, -⟩ :=
      hremoves (fun _ _ => pure none) "f" false () () e _ (Prod.ext (Prod.ext he rfl) rfl)
    have hcount : count = 1 := by
      rw [← hsame l hl hstored, hcounts l hl, hstored, if_pos hname]
    rw [hcount, hname] at hrefused
    exact hrefused (by decide)
  · obtain ⟨path, count, hpath, ⟨l, hl, hstored⟩, hsame, -, hgone, -⟩ :=
      hremoves (fun _ _ => pure none) "pywbemfilter:manager:f" false () () e' _
        (Prod.ext (Prod.ext he' rfl) rfl)
    have hcount : count = 0 := by
      rw [← hsame l hl hstored, hcounts l hl, hstored, hname']
      decide
    obtain ⟨-, -, t, -, -, hremoved⟩ := hgone hcount (hreal path hpath)
    exact ⟨path, t, hremoved⟩

/-- A destination with a NaN for a key is listed without references, and is not found when it is to
be removed. -/
theorem listed_unused_not_removed :
    ∃ s, (Server.indicationRepository (.real Binary64.nan)).server none "mock" = .ok s ∧
      let mgr : Manager := ⟨"manager", "interop", "mock"⟩
      (s.At "interop" fun ns => ns.fault = none ∧
        (∀ name ∈ roleClasses, (ns.class? name).isSome = true) ∧ ns.ScalarKeys .destination ∧
        ns.DistinctReferences .destination) ∧
      (mgr.resolved s .destination "d").1.1.toOption.isSome = true ∧
      (mgr.listEndpoints s .destination).toOption.map (fun listed =>
        listed.map EndpointListing.references) = some [0] ∧
      (mgr.removed s .destination "d").1.1.toOption = none :=
  exists_ok_of_any (by decide +kernel)

end Manager

end CimConsole
