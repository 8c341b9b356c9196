import MonitorExport.Proofs.Store.Appending
import MonitorExport.Proofs.Store.Effects
import MonitorExport.Proofs.Store.Reenacting

/-!
# What inputs become

What an input becomes for a collection does not depend on what was made or attached before: it is an entity in use, or
something new that comes behind what is there. So the candidates for many inputs can be told in advance.
-/

namespace MonitorExport.Store

open Edit

variable {limit : Input → List Registry → Nat} {s u : Store} {c : CollectionId} {input : Input}
  {inputs : List Input}

/-! ## What an input becomes -/

/-- What an input becomes for a collection: an entity in use, or the first entity of what is made for it. -/
inductive Blueprint where
  | given (e : EntityId)
  | made (b : Store)

namespace Blueprint

/-- The candidate that a store gets. -/
def candidate (s : Store) : Blueprint → Candidate
  | given e => ⟨e, false⟩
  | made _ => ⟨⟨s.entities.size⟩, true⟩

/-- The store with what is made for the candidate. -/
def laid (s : Store) : Blueprint → Store
  | given _ => s
  | made b => s.append b

/-- Whether an entity in use is there, and whether links and members agree in what is made. -/
def Sound (s : Store) : Blueprint → Prop
  | given e => s.Has e
  | made b => b.registries = s.registries ∧ b.Linked ∧ b.Has ⟨0⟩

end Blueprint

theorem Extends.append (h : s.Extends u) (b : Store) : s.Extends (u.append b) where
  registries := h.registries
  has hx := by
    rw [Has, size_append]
    exact Nat.lt_of_lt_of_le (h.has hx) (Nat.le_add_right ..)
  model hx := (congrArg Entity.model (entity_append_of_has (h.has hx))).trans (h.model hx)

theorem Extends.laid (h : s.Extends u) (p : Blueprint) : s.Extends (p.laid u) := by
  cases p with
  | given => exact h
  | made b => exact h.append b

/-- Building from inputs that name no entity puts behind a store what it makes anywhere. -/
theorem buildTo_eq (ha : u.AsksGiven) (hn : u.NamesGiven) (limit : List Registry → Nat) (m : ModelId)
    {positional : Input} {fields : Fields} (hp : positional.Nameless) (hf : (Input.mapping fields).Nameless) :
    buildTo limit m positional fields u =
      ((buildTo limit m positional fields (.ofRegistries u.registries)).1.map (.shift u.entities.size),
        u.append (buildTo limit m positional fields (.ofRegistries u.registries)).2) := by
  have horder : ∀ x y : EntityId, (x.shift u.entities.size).index < (y.shift u.entities.size).index ↔ x.index < y.index :=
    fun _ _ => Nat.add_lt_add_iff_left
  obtain ⟨t, ht, he⟩ := buildTo_portable horder ha hn limit m positional fields _ u hp hf (.empty u)
  rw [ht, he.eq_append]

theorem buildTo_made {rs : List Registry} (hn : ∀ r ∈ rs, r.NamesGiven) (limit : List Registry → Nat)
    (m : ModelId) {positional : Input} {fields : Fields} (hp : positional.Nameless) (hf : (Input.mapping fields).Nameless) :
    Ends (buildTo limit m positional fields)
      (fun e b => e = ⟨0⟩ ∧ Blueprint.Sound (.ofRegistries rs) (.made b)) (fun _ => True) (.ofRegistries rs) := by
  have hempty : (ofRegistries rs).Linked := .ofRegistries rs
  have hsound : Sound (fun _ => False) (buildTo limit) := buildTo_sound limit
  refine (hsound hempty hn (fun _ => False.elim) fun x hx => hx.elim (hp x) (hf x)).mono (fun e b h => ?_) fun _ _ => trivial
  obtain ⟨hrun, rfl, hhas, _⟩ := h
  exact ⟨rfl, hrun.registries, hrun.linked hempty, hhas⟩

/-- Whether a step does the same behind any store that comes from one: it fails, or makes the same for a candidate. -/
def Anywhere (s : Store) (step : Edit Candidate) : Prop :=
  ∃ (r : Except ConfigError Unit) (b : Store), (r = .ok () → Blueprint.Sound s (.made b)) ∧
    ∀ u, s.Extends u → step u = (r.map fun _ => ⟨⟨u.entities.size⟩, true⟩, u.append b)

theorem Anywhere.congr {step step' : Edit Candidate} (h : Anywhere s step)
    (heq : ∀ u, s.Extends u → step' u = step u) : Anywhere s step' := by
  obtain ⟨r, b, hsound, hstep⟩ := h
  exact ⟨r, b, hsound, fun u hu => (heq u hu).trans (hstep u hu)⟩

theorem anywhere_throw (s : Store) (err : ConfigError) : Anywhere s (throw err) :=
  ⟨.error err, .ofRegistries s.registries, by simp, fun u hu => by rw [← hu.registries, append_empty]; rfl⟩

theorem anywhere_built (ha : s.AsksGiven) (hn : s.NamesGiven) (limit : List Registry → Nat) (m : ModelId)
    {positional : Input} {fields : Fields} (reason : ConfigError → ConfigError) (hp : positional.Nameless)
    (hf : (Input.mapping fields).Nameless) :
    Anywhere s (do return ⟨← refusing reason (buildTo limit m positional fields), true⟩) := by
  have heq : ∀ u, s.Extends u → buildTo limit m positional fields u =
      ((buildTo limit m positional fields (.ofRegistries s.registries)).1.map (.shift u.entities.size),
        u.append (buildTo limit m positional fields (.ofRegistries s.registries)).2) := fun u hu => by
    rw [← hu.registries]
    exact buildTo_eq (by rwa [AsksGiven, hu.registries]) (by rwa [NamesGiven, hu.registries]) limit m hp hf
  have hends := buildTo_made hn limit m hp hf
  rcases hb : buildTo limit m positional fields (.ofRegistries s.registries) with ⟨err | e, b⟩ <;> rw [hb] at heq
  · refine ⟨.error (reason err), b, by simp, fun u hu => bind_error ?_⟩
    rw [refusing_eq, heq u hu]
    rfl
  · obtain ⟨rfl, hsound⟩ := hends.ok hb
    refine ⟨.ok (), b, fun _ => hsound, fun u hu => ?_⟩
    have hfirst : refusing reason (buildTo limit m positional fields) u = (.ok ⟨u.entities.size⟩, u.append b) := by
      rw [refusing_eq, heq u hu]
      rfl
    exact bind_ok hfirst

/-- What becomes of an input that is no entity is the same anywhere. -/
theorem coerceMember_anywhere (ha : s.AsksGiven) (hn : s.NamesGiven) (hc : s.Has c.owner) (he : ∀ e, input ≠ .entity e)
    (hm : ∀ fields, input = .mapping fields → input.Nameless) :
    Anywhere s (coerceMember (buildTo (limit input)) c input) := by
  have hmade : ∀ {positional : Input} {fields : Fields}, positional.Nameless → (Input.mapping fields).Nameless → Anywhere s
      (do return ⟨← refusing (.unfitElement (s.schema (s.target c.owner c.field)).name (s.describeInput input))
        (buildTo (limit input) (s.target c.owner c.field) positional fields), true⟩) := anywhere_built ha hn _ _ _
  have hnone : Anywhere s (throw (.noElement (s.schema (s.target c.owner c.field)).name (s.describeInput input))) :=
    anywhere_throw s _
  -- the model and the text of the input are the same in every store that comes from this one
  unfold coerceMember
  cases input with
  | entity e => exact absurd rfl (he e)
  | mapping fields =>
      exact (hmade nameless_null (hm fields rfl)).congr fun u hu => by rw [bind_store, hu.target hc, hu.schema]; rfl
  | value v =>
      exact (hmade (nameless_value v) nameless_empty).congr fun u hu => by rw [bind_store, hu.target hc, hu.schema]; rfl
  | null => exact hnone.congr fun u hu => by rw [bind_store, hu.target hc, hu.schema]; rfl
  | list items => exact hnone.congr fun u hu => by rw [bind_store, hu.target hc, hu.schema]; rfl

/-- An entity in use becomes a member if it is of the model. -/
theorem coerceMember_entity (build : Builder) (c : CollectionId) (e : EntityId) (u : Store) :
    coerceMember build c (.entity e) u =
      (if u.isA (u.model e) (u.target c.owner c.field) then .ok ⟨e, false⟩
        else .error (.wrongModel (u.schema (u.target c.owner c.field)).name (u.describe e) (u.schemaOf e).name), u) := by
  unfold coerceMember
  rw [bind_store]
  dsimp only
  split <;> rfl

/-! ## All inputs -/

/-- Whether an input becomes a candidate by a blueprint up to a limit, whatever was made or attached before. -/
structure Plans (limit : Input → List Registry → Nat) (s : Store) (c : CollectionId) (input : Input)
    (p : Blueprint) : Prop where
  sound : p.Sound s
  coerce : ∀ u, s.Extends u → coerceMember (buildTo (limit input)) c input u = (.ok (p.candidate u), p.laid u)

/-- Whether no candidate can be had from an input, whatever was made or attached before. The failure tells of the entities
that are there, so it is the same while they are as they were. -/
structure Refuses (limit : Input → List Registry → Nat) (s : Store) (c : CollectionId) (input : Input)
    (err : ConfigError) : Prop where
  never : ∀ u, s.Extends u → ∃ err' t, coerceMember (buildTo (limit input)) c input u = (.error err', t)
  same : ∀ u, s.Extends u → (∀ x, s.Has x → u.entity x = s.entity x) →
    ∃ t, coerceMember (buildTo (limit input)) c input u = (.error err, t)

theorem plans_or_refuses (ha : s.AsksGiven) (hn : s.NamesGiven) (hc : s.Has c.owner) (hi : ∀ x, input.Names x → s.Has x)
    (hm : ∀ fields, input = .mapping fields → input.Nameless) :
    (∃ p, Plans limit s c input p) ∨ ∃ err, Refuses limit s c input err := by
  by_cases he : ∃ e, input = .entity e
  · obtain ⟨e, rfl⟩ := he
    have hhas : s.Has e := hi e .entity
    have hisA : ∀ u, s.Extends u →
        u.isA (u.model e) (u.target c.owner c.field) = s.isA (s.model e) (s.target c.owner c.field) := fun u hu => by
      rw [hu.model hhas, hu.target hc, isA_congr hu.registries]
    cases h : s.isA (s.model e) (s.target c.owner c.field) with
    | true =>
        refine .inl ⟨.given e, hhas, fun u hu => ?_⟩
        rw [coerceMember_entity, hisA u hu, h]
        rfl
    | false =>
        have hfails : ∀ u, s.Extends u → coerceMember (buildTo (limit (.entity e))) c (.entity e) u =
            (.error (.wrongModel (u.schema (u.target c.owner c.field)).name (u.describe e) (u.schemaOf e).name), u) :=
          fun u hu => by rw [coerceMember_entity, hisA u hu, h]; rfl
        refine .inr ⟨.wrongModel (s.schema (s.target c.owner c.field)).name (s.describe e) (s.schemaOf e).name,
          fun u hu => ⟨_, u, hfails u hu⟩, fun u hu hk => ⟨u, ?_⟩⟩
        have hr : Resembles s u e e := ⟨hu.model hhas, fun i => by rw [slot, hk e hhas]; rfl⟩
        rw [hfails u hu, hr.describe hu.registries, hr.schemaOf hu.registries, hu.target hc, hu.schema]
  · obtain ⟨r, b, hsound, h⟩ := coerceMember_anywhere (c := c) ha hn hc (fun e hinput => he ⟨e, hinput⟩) hm
    cases r with
    | ok => exact .inl ⟨.made b, hsound rfl, h⟩
    | error err => exact .inr ⟨err, fun u hu => ⟨err, _, h u hu⟩, fun u hu _ => ⟨_, h u hu⟩⟩

/-- Either all inputs become candidates, or there is a first one that cannot. -/
theorem plans_or_first_refuses (h : ∀ i ∈ inputs, (∃ p, Plans limit s c i p) ∨ ∃ err, Refuses limit s c i err) :
    (∃ ps, List.Forall₂ (Plans limit s c) inputs ps) ∨ ∃ before input after ps err, inputs = before ++ input :: after ∧
      List.Forall₂ (Plans limit s c) before ps ∧ Refuses limit s c input err := by
  induction inputs with
  | nil => exact .inl ⟨[], .nil⟩
  | cons i inputs ih =>
      rcases h i (List.mem_cons_self ..) with ⟨p, hp⟩ | ⟨err, hr⟩
      · rcases ih fun j hj => h j (List.mem_cons_of_mem _ hj) with ⟨ps, hps⟩ | ⟨before, input, after, ps, err, rfl, hps, hr⟩
        · exact .inl ⟨p :: ps, .cons hp hps⟩
        · exact .inr ⟨i :: before, input, after, p :: ps, err, rfl, .cons hp hps, hr⟩
      · exact .inr ⟨[], i, inputs, [], err, rfl, .nil, hr⟩

/-- The store with all that is made by blueprints. -/
def laidAll (s : Store) (ps : List Blueprint) : Store := ps.foldl (fun s p => p.laid s) s

/-- The candidates that a store gets by blueprints. -/
def candidates (s : Store) : List Blueprint → List Candidate
  | [] => []
  | p :: ps => p.candidate s :: candidates (p.laid s) ps

theorem size_le_laid (s : Store) (p : Blueprint) : s.entities.size ≤ (p.laid s).entities.size := by
  cases p with
  | given => exact Nat.le_refl _
  | made b =>
      rw [Blueprint.laid, size_append]
      exact Nat.le_add_right ..

theorem entity_laid (p : Blueprint) {x : EntityId} (hx : s.Has x) : (p.laid s).entity x = s.entity x := by
  cases p with
  | given => rfl
  | made b => exact entity_append_of_has hx

theorem registries_laidAll (s : Store) (ps : List Blueprint) : (laidAll s ps).registries = s.registries := by
  induction ps generalizing s with
  | nil => rfl
  | cons p ps ih =>
      refine (ih (p.laid s)).trans ?_
      cases p <;> rfl

theorem size_le_laidAll (s : Store) (ps : List Blueprint) : s.entities.size ≤ (laidAll s ps).entities.size := by
  induction ps generalizing s with
  | nil => exact Nat.le_refl _
  | cons p ps ih => exact Nat.le_trans (size_le_laid s p) (ih (p.laid s))

theorem entity_laidAll (ps : List Blueprint) {x : EntityId} (hx : s.Has x) : (laidAll s ps).entity x = s.entity x := by
  induction ps generalizing s with
  | nil => rfl
  | cons p ps ih => exact (ih (Nat.lt_of_lt_of_le hx (size_le_laid s p))).trans (entity_laid p hx)

variable {ps : List Blueprint}

theorem coerceAll_eq (h : List.Forall₂ (Plans limit s c) inputs ps) (hu : s.Extends u) :
    inputs.mapM (fun i => coerceMember (buildTo (limit i)) c i) u = (.ok (candidates u ps), laidAll u ps) := by
  induction h generalizing u with
  | nil => rfl
  | @cons i p inputs ps hp _ ih =>
      rw [List.mapM_cons, bind_ok (hp.coerce u hu), bind_ok (ih (hu.laid p))]
      rfl

/-- Making candidates fails as the first input does that becomes none. -/
theorem coerceAll_error {before : List Input} (after : List Input) {err : ConfigError}
    (h : List.Forall₂ (Plans limit s c) before ps) (hr : Refuses limit s c input err) (hu : s.Extends u)
    (hk : ∀ x, s.Has x → u.entity x = s.entity x) :
    ∃ t, (before ++ input :: after).mapM (fun i => coerceMember (buildTo (limit i)) c i) u = (.error err, t) := by
  induction h generalizing u with
  | nil =>
      obtain ⟨t, ht⟩ := hr.same u hu hk
      exact ⟨t, by rw [List.nil_append, List.mapM_cons, bind_error ht]⟩
  | @cons i p before ps hp _ ih =>
      obtain ⟨t, ht⟩ := ih (hu.laid p) fun x hx => (entity_laid p (hu.has hx)).trans (hk x hx)
      exact ⟨t, by rw [List.cons_append, List.mapM_cons, bind_ok (hp.coerce u hu), bind_error ht]⟩

theorem extendTo_of_plans (h : List.Forall₂ (Plans limit s c) inputs ps) : extendTo limit c inputs s =
    (.ok ((laidAll s ps).insertAll c (candidates s ps)).2, ((laidAll s ps).insertAll c (candidates s ps)).1) := by
  rw [extendTo, orRelease, bind_ok (coerceAll_eq h (.refl s))]
  rfl

theorem extendTo_of_refuses {before : List Input} (after : List Input) {err : ConfigError}
    (h : List.Forall₂ (Plans limit s c) before ps) (hr : Refuses limit s c input err) :
    ∃ t, extendTo limit c (before ++ input :: after) s = (.error err, t) := by
  obtain ⟨t, ht⟩ := coerceAll_error after h hr (.refl s) fun _ _ => rfl
  exact ⟨_, by rw [extendTo, orRelease, bind_error ht]⟩

theorem addTo_of_plans {p : Blueprint} (h : Plans limit s c input p) (hu : s.Extends u) : addTo (limit input) c input u =
    (.ok ((p.laid u).insert c (p.candidate u)).2, ((p.laid u).insert c (p.candidate u)).1) := by
  rw [addTo, orRelease, bind_ok (h.coerce u hu)]
  rfl

theorem addTo_of_refuses {err : ConfigError} (h : Refuses limit s c input err) (hu : s.Extends u) :
    ∃ err' t, addTo (limit input) c input u = (.error err', t) := by
  obtain ⟨err', t, ht⟩ := h.never u hu
  exact ⟨err', _, by rw [addTo, orRelease, bind_error ht]⟩

end MonitorExport.Store
