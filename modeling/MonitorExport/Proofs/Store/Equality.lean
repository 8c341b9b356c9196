import Mathlib
import MonitorExport.Proofs.Schema.Subtyping
import MonitorExport.Proofs.Store.Operations

/-!
# Equality of entities

The equality of collections is symmetric. It is transitive but where the entity in the middle is of a base model of
two models that are not related to each other: both of the others are equal to it, and not to each other.
-/

namespace MonitorExport

namespace Value

variable {u v w : Value}

theorem looseEq_iff : v.looseEq w = true ↔
    (∃ x y, v.toNumber? = some x ∧ w.toNumber? = some y ∧ (x == y) = true) ∨ ∃ s, v = .text s ∧ w = .text s := by
  cases v <;> cases w <;> simp [looseEq, toNumber?]
  exact eq_comm

theorem looseEq_symm (h : v.looseEq w = true) : w.looseEq v = true := by
  rw [looseEq_iff] at h ⊢
  rcases h with ⟨x, y, hv, hw, hxy⟩ | ⟨s, hv, hw⟩
  · exact .inl ⟨y, x, hw, hv, BEq.symm hxy⟩
  · exact .inr ⟨s, hw, hv⟩

theorem looseEq_trans (huv : u.looseEq v = true) (hvw : v.looseEq w = true) : u.looseEq w = true := by
  rw [looseEq_iff] at huv hvw ⊢
  rcases huv with ⟨x, y, hu, hv, hxy⟩ | ⟨s, rfl, rfl⟩ <;> rcases hvw with ⟨y', z, hv', hw, hyz⟩ | ⟨s', hv', rfl⟩
  · cases hv.symm.trans hv'
    exact .inl ⟨x, z, hu, hw, BEq.trans hxy hyz⟩
  · rw [hv'] at hv
    cases hv
  · cases hv'
  · cases hv'
    exact .inr ⟨s, rfl, rfl⟩

end Value

namespace Store

variable {s : Store} {a b c e : EntityId} {m n p : ModelId} {field : String}

/-! ## Related models -/

/-- Whether all registries of a store are built from declarations. -/
def Built (s : Store) : Prop := ∀ r ∈ s.registries, ∃ decls, Registry.ofDecls decls = .ok r

/-- Whether one of two models is the other or a subtype of it. -/
def Related (s : Store) (m n : ModelId) : Prop := s.isA m n = true ∨ s.isA n m = true

/-- Whether a model is a base of two models that are not related. -/
def Forks (s : Store) (base m n : ModelId) : Prop := s.isA m base = true ∧ s.isA n base = true ∧ ¬ s.Related m n

theorem Related.symm (h : s.Related m n) : s.Related n m := h.elim .inr .inl

theorem isA_iff_schema : s.isA m n = true ↔ m.registry = n.registry ∧ n.index ∈ (s.schema m).lineage := by
  simp [isA]

namespace Built

/-- A model and a base model are there, and the lineage of the model ends with that of the base. -/
theorem lineages (h : s.Built) (hmn : s.isA m n = true) : m.index ∈ (s.schema m).lineage ∧
    n.index ∈ (s.schema n).lineage ∧ (s.schema n).lineage <:+ (s.schema m).lineage := by
  obtain ⟨k, i⟩ := m
  obtain ⟨l, j⟩ := n
  obtain ⟨rfl, _⟩ : k = l ∧ _ := isA_iff_schema.mp hmn
  obtain ⟨m, hm, hj⟩ := isA_iff.mp hmn
  obtain ⟨decls, hr⟩ := h _ (registry_mem_of_model hm)
  obtain ⟨n, hn, hsuffix⟩ := Registry.lineage_suffix hr hm hj
  rw [schema_eq hm, schema_eq hn]
  exact ⟨Registry.mem_lineage hr hm, Registry.mem_lineage hr hn, hsuffix⟩

theorem isA_self (h : s.Built) (hmn : s.isA m n = true) : s.isA m m = true :=
  isA_iff_schema.mpr ⟨rfl, (h.lineages hmn).1⟩

theorem isA_trans (h : s.Built) (hmn : s.isA m n = true) (hnp : s.isA n p = true) : s.isA m p = true := by
  obtain ⟨hreg, _⟩ := isA_iff_schema.mp hmn
  obtain ⟨hreg', hp⟩ := isA_iff_schema.mp hnp
  obtain ⟨_, _, hsuffix⟩ := h.lineages hmn
  exact isA_iff_schema.mpr ⟨hreg.trans hreg', hsuffix.subset hp⟩

/-- The base models of one model are related. -/
theorem related_of_isA (h : s.Built) (hmn : s.isA m n = true) (hmp : s.isA m p = true) : s.Related n p := by
  obtain ⟨hreg, _⟩ := isA_iff_schema.mp hmn
  obtain ⟨hreg', _⟩ := isA_iff_schema.mp hmp
  obtain ⟨_, hn, hnm⟩ := h.lineages hmn
  obtain ⟨_, hp, hpm⟩ := h.lineages hmp
  rcases List.suffix_or_suffix_of_suffix hnm hpm with hsuffix | hsuffix
  · exact .inr (isA_iff_schema.mpr ⟨hreg'.symm.trans hreg, hsuffix.subset hn⟩)
  · exact .inl (isA_iff_schema.mpr ⟨hreg.symm.trans hreg', hsuffix.subset hp⟩)

theorem related_iff_not_forks (h : s.Built) (hmn : s.Related m n) (hnp : s.Related n p) :
    s.Related m p ↔ ¬ s.Forks n m p := by
  refine ⟨fun hrel hfork => hfork.2.2 hrel, fun hnot => ?_⟩
  rcases hmn with hmn | hnm <;> rcases hnp with hnp | hpn
  · exact .inl (h.isA_trans hmn hnp)
  · exact not_not.mp fun hrel => hnot ⟨hmn, hpn, hrel⟩
  · exact h.related_of_isA hnm hnp
  · exact .inr (h.isA_trans hpn hnm)

end Built

/-! ## Agreement -/

theorem agree_iff : s.agree a b field = true ↔
    (∃ v w, s.get a field = .ok (some v) ∧ s.get b field = .ok (some w) ∧ v.looseEq w = true) ∨
      s.get a field = .ok none ∧ s.get b field = .ok none := by
  unfold agree
  rcases s.get a field with _ | _ | v <;> rcases s.get b field with _ | _ | w <;> simp

theorem agree_symm (h : s.agree a b field = true) : s.agree b a field = true := by
  rw [agree_iff] at h ⊢
  rcases h with ⟨v, w, ha, hb, hvw⟩ | ⟨ha, hb⟩
  · exact .inl ⟨w, v, hb, ha, Value.looseEq_symm hvw⟩
  · exact .inr ⟨hb, ha⟩

theorem agree_trans (hab : s.agree a b field = true) (hbc : s.agree b c field = true) :
    s.agree a c field = true := by
  rw [agree_iff] at hab hbc ⊢
  rcases hab with ⟨v, w, ha, hb, hvw⟩ | ⟨ha, hb⟩ <;> rcases hbc with ⟨w', u, hb', hc, hwu⟩ | ⟨hb', hc⟩ <;>
    cases hb.symm.trans hb'
  · exact .inl ⟨v, u, ha, hc, Value.looseEq_trans hvw hwu⟩
  · exact .inr ⟨ha, hc⟩

/-! ## Equality -/

theorem sameIdentity_iff : s.sameIdentity a b = true ↔ a = b ∨
    (s.schemaOf a).identity ≠ [] ∧ (s.schemaOf a).identity = (s.schemaOf b).identity ∧
      s.Related (s.model a) (s.model b) ∧ ∀ field ∈ (s.schemaOf a).identity, s.agree a b field = true := by
  simp [sameIdentity, Related, and_assoc]

theorem sameIdentity_symm (h : s.sameIdentity a b = true) : s.sameIdentity b a = true := by
  rw [sameIdentity_iff] at h ⊢
  rcases h with rfl | ⟨hne, hid, hrel, hagree⟩
  · exact .inl rfl
  · exact .inr ⟨hid ▸ hne, hid.symm, hrel.symm, fun field hf => agree_symm (hagree field (hid ▸ hf))⟩

/-- What two equal entities and an entity equal to the second miss to be equal: related models. -/
theorem sameIdentity_trans_iff (hab : s.sameIdentity a b = true) (hbc : s.sameIdentity b c = true) (hac : a ≠ c) :
    s.sameIdentity a c = true ↔ s.Related (s.model a) (s.model c) := by
  rcases sameIdentity_iff.mp hab with rfl | ⟨hne, hid, _, hagree⟩
  · rw [sameIdentity_iff] at hbc ⊢
    exact ⟨fun h => (h.resolve_left hac).2.2.1, fun _ => hbc⟩
  · rcases sameIdentity_iff.mp hbc with rfl | ⟨_, hid', _, hagree'⟩
    · exact ⟨fun h => ((sameIdentity_iff.mp h).resolve_left hac).2.2.1, fun _ => hab⟩
    · refine ⟨fun h => ((sameIdentity_iff.mp h).resolve_left hac).2.2.1, fun hrel => sameIdentity_iff.mpr <| .inr
        ⟨hne, hid.trans hid', hrel, fun field hf => agree_trans (hagree field hf) (hagree' field (hid ▸ hf))⟩⟩

/-- Over built registries, equality of entities is symmetric. An entity that equals a second one equals what the second
one equals, if and only if the models of the outer two are related or not both subtypes of that of the second. -/
theorem sameIdentity_symm_trans (hs : s.Built) (a b c : EntityId) :
    (s.sameIdentity a b = true → s.sameIdentity b a = true) ∧
      (s.sameIdentity a b = true → s.sameIdentity b c = true →
        (s.sameIdentity a c = true ↔ ¬ s.Forks (s.model b) (s.model a) (s.model c))) := by
  refine ⟨sameIdentity_symm, fun hab hbc => ?_⟩
  by_cases hac : a = c
  · subst hac
    have hself : s.sameIdentity a a = true := sameIdentity_iff.mpr (.inl rfl)
    exact ⟨fun _ hfork => hfork.2.2 (.inl (hs.isA_self hfork.1)), fun _ => hself⟩
  · rw [sameIdentity_trans_iff hab hbc hac]
    rcases sameIdentity_iff.mp hab with rfl | ⟨_, _, hrel, _⟩
    · have hrel := ((sameIdentity_iff.mp hbc).resolve_left hac).2.2.1
      exact ⟨fun _ hfork => hfork.2.2 hrel, fun _ => hrel⟩
    · rcases sameIdentity_iff.mp hbc with rfl | ⟨_, _, hrel', _⟩
      · exact ⟨fun _ hfork => hfork.2.2 hrel, fun _ => hrel⟩
      · exact hs.related_iff_not_forks hrel hrel'

/-! ## Tags -/

/-- Tags that are equal by name, and two kinds of them that are not related. -/
def tagDecls : List ModelDecl := ModelDecl.number [
  { name := "Tag", fields := [("name", .plain)], identity := some ["name"] },
  { name := "Left", extends? := some "Tag", fields := [] },
  { name := "Right", extends? := some "Tag", fields := [] }]

def tagRegistry : Registry := ⟨(Registry.resolveInOrder tagDecls 0 tagDecls).toOption.getD []⟩

theorem tagRegistry_eq : Registry.ofDecls tagDecls = .ok tagRegistry :=
  Registry.ofDecls_eq (by decide) (by decide) (by decide)

theorem tagRegistry_namesGiven : tagRegistry.NamesGiven :=
  Registry.namesGiven_of_unprepared tagRegistry_eq (by simp [tagDecls, ModelDecl.number, ModelDecl.numberFrom])

/-- Makes an entity named alpha of a model. -/
def makeAlpha (model : Nat) : Operation := .build ⟨0, model⟩ .null ⟨[("name", .text "alpha")]⟩

theorem makeAlpha_valid (model : Nat) (s : Store) : (makeAlpha model).Valid s := Operation.build_valid fun x hx => by
  simp [namedIn_iff, Input.text, not_names_value] at hx

/-- The store after making entities named alpha. -/
def alphas (models : List Nat) : Store :=
  models.foldl (fun s model => ((makeAlpha model).step s).2) (.ofRegistries [tagRegistry])

theorem alphas_reachable (models : List Nat) :
    Reachable (alphas models) ∧ (alphas models).registries = [tagRegistry] := by
  have hstart : Reachable (.ofRegistries [tagRegistry]) :=
    .start (List.forall_mem_singleton.mpr tagRegistry_namesGiven)
  refine List.foldlRecOn (motive := fun s => Reachable s ∧ s.registries = [tagRegistry]) models _ ⟨hstart, rfl⟩ ?_
  rintro s ⟨hs, hregistries⟩ model _
  have hv := makeAlpha_valid model s
  exact ⟨.step hs hv trivial, (hs.registries_step hv).trans hregistries⟩

theorem alphas_built (models : List Nat) : (alphas models).Built := fun r hr => by
  rw [(alphas_reachable models).2, List.mem_singleton] at hr
  exact ⟨tagDecls, hr ▸ tagRegistry_eq⟩

/-- Whether the identity of an entity can be read and has no float that is not a number. -/
def Comparable (s : Store) (e : EntityId) : Prop := ∀ field ∈ (s.schemaOf e).identity, s.agree e e field = true

instance : Decidable (s.Comparable e) := inferInstanceAs (Decidable (∀ field ∈ _, _ = _))

/-- A left and a right tag are equal to a tag between them, and not to each other. -/
theorem alphas_unequal : Reachable (alphas [1, 0, 2]) ∧ (alphas [1, 0, 2]).Built ∧
    (∀ e : EntityId, e.index < 3 → (alphas [1, 0, 2]).Comparable e) ∧
    (alphas [1, 0, 2]).sameIdentity ⟨0⟩ ⟨1⟩ = true ∧ (alphas [1, 0, 2]).sameIdentity ⟨1⟩ ⟨2⟩ = true ∧
    (alphas [1, 0, 2]).sameIdentity ⟨0⟩ ⟨2⟩ = false := by
  have hcomparable : ∀ i < 3, (alphas [1, 0, 2]).Comparable ⟨i⟩ := by decide
  refine ⟨(alphas_reachable _).1, alphas_built _, fun e he => hcomparable e.index he, ?_, ?_, ?_⟩ <;> decide

theorem alphas_symm_trans : (alphas [1, 0, 1]).Built ∧ (alphas [1, 0, 1]).sameIdentity ⟨1⟩ ⟨0⟩ = true ∧
    (alphas [1, 0, 1]).sameIdentity ⟨0⟩ ⟨2⟩ = true := by
  have hab : (alphas [1, 0, 1]).sameIdentity ⟨0⟩ ⟨1⟩ = true := by decide
  have hbc : (alphas [1, 0, 1]).sameIdentity ⟨1⟩ ⟨2⟩ = true := by decide
  have hfork : ¬ (alphas [1, 0, 1]).Forks ((alphas [1, 0, 1]).model ⟨1⟩) ((alphas [1, 0, 1]).model ⟨0⟩)
      ((alphas [1, 0, 1]).model ⟨2⟩) := fun h => h.2.2 (.inl (by decide))
  obtain ⟨hsymm, htrans⟩ := sameIdentity_symm_trans (alphas_built [1, 0, 1]) ⟨0⟩ ⟨1⟩ ⟨2⟩
  exact ⟨alphas_built _, hsymm hab, (htrans hab hbc).mpr hfork⟩

end Store

end MonitorExport
