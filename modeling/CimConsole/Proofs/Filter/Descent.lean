import CimConsole.Filter

/-!
Descent inside a batch of classes. A class descends from another one if superclass links lead
there through classes of the batch, at least one of them. The walk along the links is cut after
one step more than the batch has classes. That is never too early: the classes on a shortest way
have different distances to its end, so none is met twice, and on a cycle nothing is gained by
going round again.
-/
namespace CimConsole

open Text

/-- No two classes have the same name, whatever its letter case. -/
def DistinctNames (batch : List ClassDecl) : Prop :=
  batch.Pairwise fun c d => sameName c.name d.name = false

instance (batch : List ClassDecl) : Decidable (DistinctNames batch) :=
  inferInstanceAs (Decidable (batch.Pairwise _))

/-- The root is reached from a class by superclass links that are followed in the batch. -/
inductive DescendsFrom (batch : List ClassDecl) (root : String) : ClassDecl → Prop where
  | direct {c : ClassDecl} {parent : String} (hparent : c.superclass = some parent)
      (hroot : sameName parent root = true) : DescendsFrom batch root c
  | further {c d : ClassDecl} {parent : String} (hparent : c.superclass = some parent)
      (hd : d ∈ batch) (hname : sameName d.name parent = true) (h : DescendsFrom batch root d) :
      DescendsFrom batch root c

variable {batch : List ClassDecl} {root name other parent : String} {c d : ClassDecl} {n : Nat}

theorem DistinctNames.eq_of_sameName (h : DistinctNames batch) (hc : c ∈ batch) (hd : d ∈ batch)
    (hname : sameName c.name d.name = true) : c = d := by
  induction batch with
  | nil => cases hc
  | cons e rest ih =>
    obtain ⟨hhead, htail⟩ := List.pairwise_cons.1 h
    rcases List.mem_cons.1 hc with rfl | hcrest
    · rcases List.mem_cons.1 hd with rfl | hdrest
      · rfl
      · rw [hhead d hdrest] at hname
        cases hname
    · rcases List.mem_cons.1 hd with rfl | hdrest
      · have hback := hhead c hcrest
        rw [sameName_symm hname] at hback
        cases hback
      · exact ih htail hcrest hdrest

theorem parentIn_congr (h : sameName name other = true) :
    parentIn batch name = parentIn batch other := by
  simp only [parentIn, sameName_congr_right h]

/-- A name with a parent is the name of a class of the batch. -/
theorem exists_mem_of_parentIn (h : parentIn batch name = some parent) :
    ∃ c ∈ batch, sameName c.name name = true ∧ c.superclass = some parent := by
  obtain ⟨c, hfound, hparent⟩ := Option.bind_eq_some_iff.1 h
  have hname := List.find?_some hfound
  rw [Bool.and_eq_true] at hname
  exact ⟨c, List.mem_reverse.1 (List.mem_of_find?_eq_some hfound), hname.1, hparent⟩

/-- If names are distinct the parent of a class is its superclass. -/
theorem parentIn_eq (h : DistinctNames batch) (hc : c ∈ batch)
    (hname : sameName c.name name = true) : parentIn batch name = c.superclass := by
  cases hparent : parentIn batch name with
  | some parent =>
    obtain ⟨d, hd, hdname, hsuper⟩ := exists_mem_of_parentIn hparent
    rw [h.eq_of_sameName hc hd (sameName_trans hname (sameName_symm hdname)), hsuper]
  | none =>
    cases hsuper : c.superclass with
    | none => rfl
    | some parent =>
      cases hfound : batch.reverse.find? fun c => sameName c.name name && c.superclass.isSome with
      | none =>
        have hnone := List.find?_eq_none.1 hfound c (List.mem_reverse.2 hc)
        simp [hname, hsuper] at hnone
      | some d =>
        have hd := List.find?_some hfound
        rw [parentIn, hfound, Option.bind_some] at hparent
        simp [hparent] at hd

theorem descends_congr (h : sameName name other = true) :
    descends batch root n name = descends batch root n other := by
  cases n with
  | zero => rfl
  | succ n => rw [descends, descends, parentIn_congr h]

theorem descends_succ_iff :
    descends batch root (n + 1) name = true ↔ ∃ parent, parentIn batch name = some parent ∧
      (sameName parent root = true ∨ descends batch root n parent = true) := by
  rw [descends]
  cases parentIn batch name with
  | none => simp
  | some parent => simp

/-- More steps lead no less far. -/
theorem descends_mono {m : Nat} (h : descends batch root n name = true) (hle : n ≤ m) :
    descends batch root m name = true := by
  induction n generalizing m name with
  | zero => cases h
  | succ n ih =>
    obtain ⟨parent, hparent, hroot⟩ := descends_succ_iff.1 h
    cases m with
    | zero => omega
    | succ m =>
      exact descends_succ_iff.2 ⟨parent, hparent, hroot.imp_right fun h => ih h (by omega)⟩

/-- A name that is `n + 1` steps and no fewer away from the root has that many classes on its
way, all of them different. -/
theorem exists_way (h : descends batch root (n + 1) name = true)
    (hmin : descends batch root n name = false) :
    ∃ way : List ClassDecl, way.length = n + 1 ∧ DistinctNames way ∧
      ∀ c ∈ way, c ∈ batch ∧ descends batch root (n + 1) c.name = true := by
  induction n generalizing name with
  | zero =>
    obtain ⟨parent, hparent, -⟩ := descends_succ_iff.1 h
    obtain ⟨c, hc, hname, -⟩ := exists_mem_of_parentIn hparent
    refine ⟨[c], rfl, List.pairwise_singleton _ _, fun d hd => ?_⟩
    obtain rfl := List.mem_singleton.1 hd
    exact ⟨hc, by rwa [descends_congr hname]⟩
  | succ n ih =>
    obtain ⟨parent, hparent, hroot⟩ := descends_succ_iff.1 h
    obtain ⟨c, hc, hname, -⟩ := exists_mem_of_parentIn hparent
    have hnot : ¬ descends batch root (n + 1) name = true := by
      rw [hmin]
      nofun
    have hfar : descends batch root (n + 1) parent = true := by
      refine hroot.resolve_left fun hsame => hnot ?_
      exact descends_succ_iff.2 ⟨parent, hparent, Or.inl hsame⟩
    have hnear : descends batch root n parent = false := by
      rw [Bool.eq_false_iff]
      exact fun hless => hnot (descends_succ_iff.2 ⟨parent, hparent, Or.inr hless⟩)
    obtain ⟨way, hlength, hdistinct, hway⟩ := ih hfar hnear
    refine ⟨c :: way, by rw [List.length_cons, hlength], List.pairwise_cons.2 ⟨?_, hdistinct⟩, ?_⟩
    · -- every class behind `c` is nearer to the root than `c` is
      intro d hd
      rw [Bool.eq_false_iff]
      intro hsame
      rw [← descends_congr (sameName_trans (sameName_symm hsame) hname), (hway d hd).2] at hmin
      cases hmin
    · intro d hd
      rcases List.mem_cons.1 hd with rfl | hd
      · exact ⟨hc, by rwa [descends_congr hname]⟩
      · obtain ⟨hmem, hd⟩ := hway d hd
        exact ⟨hmem, descends_mono hd (by omega)⟩

theorem DistinctNames.length_le {way : List ClassDecl} (h : DistinctNames way)
    (hsub : ∀ c ∈ way, c ∈ batch) : way.length ≤ batch.length := by
  have hnodup : (way.map fun c => foldCase c.name).Nodup := by
    refine List.nodup_iff_pairwise_ne.2 (List.pairwise_map.2 (h.imp fun hname heq => ?_))
    rw [(sameName_iff _ _).2 heq] at hname
    cases hname
  have hkeys : way.map (fun c => foldCase c.name) ⊆ batch.map fun c => foldCase c.name := by
    intro k hk
    obtain ⟨c, hc, rfl⟩ := List.mem_map.1 hk
    exact List.mem_map_of_mem (hsub c hc)
  simpa using hnodup.length_le_of_subset hkeys

/-- What is reached at all is reached in as many steps as there are classes. -/
theorem descends_length (h : descends batch root n name = true) :
    descends batch root batch.length name = true := by
  induction n with
  | zero => cases h
  | succ n ih =>
    cases hmin : descends batch root n name with
    | true => exact ih hmin
    | false =>
      obtain ⟨way, hlength, hdistinct, hway⟩ := exists_way h hmin
      exact descends_mono h (hlength ▸ hdistinct.length_le fun c hc => (hway c hc).1)

theorem descendsFrom_of_descends (hdistinct : DistinctNames batch) (hc : c ∈ batch)
    (hname : sameName c.name name = true) (h : descends batch root n name = true) :
    DescendsFrom batch root c := by
  induction n generalizing c name with
  | zero => cases h
  | succ n ih =>
    obtain ⟨parent, hparent, hroot⟩ := descends_succ_iff.1 h
    rw [parentIn_eq hdistinct hc hname] at hparent
    rcases hroot with hroot | hmore
    · exact .direct hparent hroot
    · cases n with
      | zero => cases hmore
      | succ n =>
        obtain ⟨next, hnext, -⟩ := descends_succ_iff.1 hmore
        obtain ⟨d, hd, hdname, -⟩ := exists_mem_of_parentIn hnext
        exact .further hparent hd hdname (ih hd hdname hmore)

theorem exists_descends (hdistinct : DistinctNames batch) (hc : c ∈ batch)
    (h : DescendsFrom batch root c) : ∃ n, descends batch root n c.name = true := by
  induction h with
  | @direct c parent hparent hroot =>
    have hin := parentIn_eq hdistinct hc (sameName_refl _)
    exact ⟨1, descends_succ_iff.2 ⟨parent, hin.trans hparent, Or.inl hroot⟩⟩
  | @further c d parent hparent hd hname _ ih =>
    obtain ⟨n, hn⟩ := ih hd
    have hin := parentIn_eq hdistinct hc (sameName_refl _)
    refine ⟨n + 1, descends_succ_iff.2 ⟨parent, hin.trans hparent, Or.inr ?_⟩⟩
    rwa [← descends_congr hname]

/-- The cut walk finds exactly the classes that descend from the root. -/
theorem descends_iff (hdistinct : DistinctNames batch) (hc : c ∈ batch) :
    descends batch root (batch.length + 1) c.name = true ↔ DescendsFrom batch root c := by
  constructor
  · exact descendsFrom_of_descends hdistinct hc (sameName_refl _)
  · intro h
    obtain ⟨n, hn⟩ := exists_descends hdistinct hc h
    exact descends_mono (descends_length hn) (Nat.le_succ _)

end CimConsole
