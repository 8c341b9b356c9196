import MonitorExport.Proofs.Schema.Inheriting
import MonitorExport.Proofs.Store.Reenacting
import MonitorExport.Proofs.Store.Retyping

/-!
# Building an entity of another model

Two models that work alike are built alike from the same inputs: the builds succeed or fail together, with failures that
differ at most in the name of the model, and the stores that they leave differ in the model of the new entity alone.
While it is built the new entity stands apart, so nothing that is made for it looks at its model.
-/

namespace MonitorExport

/-- A failure without the name of the model at whose entity it arose. -/
def ConfigError.unnamed : ConfigError → ConfigError
  | .invalidValue _ field reason => .invalidValue "" field reason
  | .unknownField _ field => .unknownField "" field
  | .noPositional _ input => .noPositional "" input
  | .danglingReference _ field => .danglingReference "" field
  | .unreferenceable _ => .unreferenceable ""
  | .unnamedTarget _ field => .unnamedTarget "" field
  | .circularSize _ field => .circularSize "" field
  | err => err

namespace Except

variable {ε α β : Type} {told : ε → ε}

theorem mapError_bind (r : Except ε α) (k : α → Except ε β) :
    (r >>= k).mapError told = r.mapError told >>= fun a => (k a).mapError told := by
  cases r <;> rfl

theorem mapError_map (r : Except ε α) (f : α → β) : (r.map f).mapError told = (r.mapError told).map f := by
  cases r <;> rfl

theorem mapError_bind_congr {r r' : Except ε α} {k k' : α → Except ε β} (h : r'.mapError told = r.mapError told)
    (hk : ∀ a, (k' a).mapError told = (k a).mapError told) : (r' >>= k').mapError told = (r >>= k).mapError told := by
  rw [mapError_bind, mapError_bind, h, funext hk]

theorem mapError_map_congr {r r' : Except ε α} (h : r'.mapError told = r.mapError told) (f : α → β) :
    (r'.map f).mapError told = (r.map f).mapError told := by
  rw [mapError_map, mapError_map, h]

theorem mapError_eq_ok {r : Except ε α} {a : α} : r.mapError told = .ok a ↔ r = .ok a := by
  cases r <;> simp [Except.mapError]

theorem mapError_mapM_congr {f g : α → Except ε β} (h : ∀ a, (f a).mapError told = (g a).mapError told) (as : List α) :
    (as.mapM f).mapError told = (as.mapM g).mapError told := by
  induction as with
  | nil => rfl
  | cons a as ih => simp only [List.mapM_cons, mapError_bind, h, ih]

end Except

theorem ModelSchema.Akin.refl (m : ModelSchema) : m.Akin m := ⟨rfl, rfl, rfl, rfl, rfl, rfl, rfl, rfl⟩

namespace Store

variable {w s : Store} {m₀ m : ModelId} {x e : EntityId} {i : Nat} {told : ConfigError → ConfigError}

/-! ## Reading entities -/

section Reading

variable (hk : (w.schema m₀).Akin (w.schema m)) (h : Apart w m₀ x s)

include hk h

theorem schemaOf_retype_akin (e : EntityId) : (s.schemaOf e).Akin ((s.retype x m).schemaOf e) := by
  by_cases he : e = x
  · subst he
    rw [h.schemaOf, h.schemaOf_retype]
    exact hk
  · rw [(resembles_retype he).schemaOf rfl]
    exact .refl _

theorem field?_retype (e : EntityId) (i : Nat) : (s.retype x m).field? e i = s.field? e i := by
  rw [field?, (schemaOf_retype_akin hk h e).fields, field?]

theorem kind_retype (e : EntityId) (i : Nat) : (s.retype x m).kind e i = s.kind e i := by
  rw [kind, field?_retype hk h, kind]

theorem fieldName_retype (e : EntityId) (i : Nat) : (s.retype x m).fieldName e i = s.fieldName e i := by
  rw [fieldName, field?_retype hk h, fieldName]

theorem target_retype (hreg : m.registry = m₀.registry) (e : EntityId) (i : Nat) :
    (s.retype x m).target e i = s.target e i := by
  have hregistry : ((s.retype x m).model e).registry = (s.model e).registry := by
    by_cases he : e = x
    · subst he
      rw [model_retype_self h.has, h.model, hreg]
    · rw [(resembles_retype he).model]
  rw [target, field?_retype hk h, hregistry, target]

theorem fieldIndex_retype (hf : e = x → told = ConfigError.unnamed) (field : String) :
    ((s.retype x m).fieldIndex e field).mapError told = (s.fieldIndex e field).mapError told := by
  have hindex : ((s.retype x m).schemaOf e).fieldIndex? field = (s.schemaOf e).fieldIndex? field := by
    rw [ModelSchema.fieldIndex?, (schemaOf_retype_akin hk h e).fields, ModelSchema.fieldIndex?]
  unfold fieldIndex
  rw [hindex]
  cases (s.schemaOf e).fieldIndex? field with
  | some index => rfl
  | none =>
      by_cases he : e = x
      · rw [hf he]
        rfl
      · rw [(resembles_retype he).schemaOf rfl]

end Reading

/-- Failures tell the same of an entity, whatever its model is called. -/
theorem told_invalidValue (hf : e = x → told = ConfigError.unnamed) (field : String) (reason : ValidationError) :
    told (.invalidValue ((s.retype x m).schemaOf e).name field reason) =
      told (.invalidValue (s.schemaOf e).name field reason) := by
  by_cases he : e = x
  · rw [hf he]
    rfl
  · rw [(resembles_retype he).schemaOf rfl]

/-- Views tell the same of all other entities. -/
theorem view_retype : (s.retype x m).view.Agree s.view (· ≠ x) := fun e he => by
  have hr := resembles_retype (s := s) (m := m) he
  refine ⟨hr.describe rfl, ?_⟩
  show (s.retype x m).text? e "name" = s.text? e "name"
  rw [text?, hr.get rfl, text?]

theorem describeInput_retype {input : Input} (hi : ¬ input.Names x) :
    (s.retype x m).describeInput input = s.describeInput input :=
  EntityView.Agree.describeInput fun e he => view_retype e fun hx => hi (hx ▸ he)

theorem coerceScalar_retype (hk : (w.schema m₀).Akin (w.schema m)) (h : Apart w m₀ x s)
    (hf : e = x → told = ConfigError.unnamed) {input : Input} (hi : ¬ input.Names x) (i : Nat) :
    ((s.retype x m).coerceScalar e i input).mapError told = (s.coerceScalar e i input).mapError told := by
  have hrefused : ∀ reason, told (.invalidValue ((s.retype x m).schemaOf e).name (s.fieldName e i) reason) =
      told (.invalidValue (s.schemaOf e).name (s.fieldName e i) reason) := told_invalidValue hf _
  unfold coerceScalar
  rw [field?_retype hk h, fieldName_retype hk h]
  cases input with
  | null => rfl
  | value v =>
      dsimp only
      split
      · rfl
      · exact congrArg Except.error (hrefused _)
  | _ =>
      dsimp only
      rw [describeInput_retype hi]
      exact congrArg Except.error (hrefused _)

theorem coerceBinding_retype (hk : (w.schema m₀).Akin (w.schema m)) (hreg : m.registry = m₀.registry)
    (h : Apart w m₀ x s) (hf : e = x → told = ConfigError.unnamed) {input : Input} (hi : ¬ input.Names x) (i : Nat) :
    ((s.retype x m).coerceBinding e i input).mapError told = (s.coerceBinding e i input).mapError told := by
  have hrefused : ∀ described, told (.invalidValue ((s.retype x m).schemaOf e).name (s.fieldName e i)
      (.notReference described (s.schema (s.target e i)).name)) = told (.invalidValue (s.schemaOf e).name
        (s.fieldName e i) (.notReference described (s.schema (s.target e i)).name)) :=
    fun described => told_invalidValue hf _ _
  unfold coerceBinding
  rw [target_retype hk h hreg, fieldName_retype hk h, schema_retype]
  cases input with
  | null => rfl
  | value v => exact congrArg Except.error (hrefused _)
  | list items => exact congrArg Except.error (hrefused _)
  | entity y =>
      have hy : y ≠ x := fun hyx => hi (hyx ▸ .entity)
      dsimp only
      rw [(resembles_retype hy).model, isA_retype, (resembles_retype hy).describe rfl]
      split
      · rfl
      · exact congrArg Except.error (hrefused _)
  | mapping fields =>
      have hliteral := literal_congr (t := s.retype x m) (s := s) view_retype hrefused
        (fun pair hpair e he hex => hi (hex ▸ .field hpair he)) .empty
      exact Except.mapError_map_congr hliteral _

end Store

namespace Edit

open Store

variable {α β γ δ : Type} {w s : Store} {m₀ m : ModelId} {x : EntityId} {told : ConfigError → ConfigError}
  {good : α → Prop} {good' : β → Prop} {a a' : Edit α}

/-- Whether a step does from a store with another model for an entity what another step does from the store: the results
are the same, and good, or the failures are told the same, and the entity stands apart at the end as well. -/
structure Heedless (w : Store) (m₀ m : ModelId) (x : EntityId) (told : ConfigError → ConfigError) (good : α → Prop)
    (a' a : Edit α) (s : Store) : Prop where
  result : (a' (s.retype x m)).1.mapError told = (a s).1.mapError told
  store : (a' (s.retype x m)).2 = (a s).2.retype x m
  apart : Apart w m₀ x (a s).2
  good : ∀ r, (a s).1 = .ok r → good r

namespace Heedless

theorem mono {good₀ : α → Prop} (h : Heedless w m₀ m x told good₀ a' a s) (hg : ∀ r, good₀ r → good r) :
    Heedless w m₀ m x told good a' a s :=
  ⟨h.result, h.store, h.apart, fun r hr => hg r (h.good r hr)⟩

theorem pure (h : Apart w m₀ x s) {r : α} (hr : good r) :
    Heedless w m₀ m x told good (Pure.pure r) (Pure.pure r) s :=
  ⟨rfl, rfl, h, fun _ hr' => Except.ok.inj hr' ▸ hr⟩

theorem throw (h : Apart w m₀ x s) {err err' : ConfigError} (he : told err' = told err) :
    Heedless w m₀ m x told good (MonadExcept.throw err') (MonadExcept.throw err) s :=
  ⟨congrArg Except.error he, rfl, h, nofun⟩

theorem read (h : Apart w m₀ x s) {get : Store → Except ConfigError α}
    (hget : (get (s.retype x m)).mapError told = (get s).mapError told) :
    Heedless w m₀ m x told (fun r => get s = .ok r) (ofRead get) (ofRead get) s :=
  ⟨hget, rfl, h, fun _ hr => hr⟩

theorem change {c : Store → Store × α} (h : Ignores w m₀ x m c s) :
    Heedless w m₀ m x told (fun r => r = (c s).2) (ofChange c) (ofChange c) s := by
  refine ⟨?_, ?_, h.apart, fun r hr => (Except.ok.inj hr).symm⟩
  · rw [ofChange, h.eq]
    rfl
  · rw [ofChange, h.eq]
    rfl

theorem apply {c : Store → Store} (h : c (s.retype x m) = (c s).retype x m ∧ Apart w m₀ x (c s)) :
    Heedless w m₀ m x told (fun _ => True) (Edit.apply c) (Edit.apply c) s :=
  ⟨rfl, h.1, h.2, fun _ _ => trivial⟩

theorem store_bind {k' k : Store → Edit α} (h : Heedless w m₀ m x told good (k' (s.retype x m)) (k s) s) :
    Heedless w m₀ m x told good (Edit.store >>= k') (Edit.store >>= k) s := by
  constructor <;> simp only [bind_store]
  exacts [h.result, h.store, h.apart, h.good]

theorem bind {k' k : α → Edit β} (h : Heedless w m₀ m x told good a' a s)
    (hk : ∀ r t, good r → Apart w m₀ x t → Heedless w m₀ m x told good' (k' r) (k r) t) :
    Heedless w m₀ m x told good' (a' >>= k') (a >>= k) s := by
  obtain ⟨hresult, hstore, hapart, hgood⟩ := h
  rcases ha : a s with ⟨err | r, t⟩ <;> rcases ha' : a' (s.retype x m) with ⟨err' | r', t'⟩ <;>
    rw [ha, ha'] at hresult hstore <;> rw [ha] at hapart hgood <;> cases hstore
  · constructor <;> simp only [bind_error ha, bind_error ha']
    exacts [congrArg Except.error (Except.error.inj hresult), rfl, hapart, nofun]
  · cases hresult
  · cases hresult
  · cases hresult
    obtain ⟨hresult, hstore, hapart, hgood⟩ := hk r t (hgood r rfl) hapart
    constructor <;> simp only [bind_ok ha, bind_ok ha']
    exacts [hresult, hstore, hapart, hgood]

theorem mapM {ι : Type} {step : ι → Edit α} {items : List ι} (h : Apart w m₀ x s)
    (hstep : ∀ i ∈ items, ∀ t, Apart w m₀ x t → Heedless w m₀ m x told good (step i) (step i) t) :
    Heedless w m₀ m x told (fun rs => ∀ r ∈ rs, good r) (items.mapM step) (items.mapM step) s := by
  induction items generalizing s with
  | nil => exact .pure h (by simp)
  | cons i items ih =>
      rw [List.mapM_cons]
      refine (hstep i List.mem_cons_self s h).bind fun r t hr ht => ?_
      refine (ih ht fun j hj => hstep j (List.mem_cons_of_mem _ hj)).bind fun rs u hrs hu => ?_
      exact .pure hu (List.forall_mem_cons.mpr ⟨hr, hrs⟩)

/-- A step whose failures are the same tells them otherwise alike. -/
theorem refusing (h : Heedless w m₀ m x id good a' a s) (reason : ConfigError → ConfigError) :
    Heedless w m₀ m x told good (Store.refusing reason a') (Store.refusing reason a) s := by
  obtain ⟨hresult, hstore, hapart, hgood⟩ := h
  rw [Except.mapError_id, Except.mapError_id] at hresult
  refine ⟨?_, ?_, ?_, fun r hr => hgood r ?_⟩
  · rw [refusing_eq, refusing_eq, hresult]
  · rw [refusing_eq, refusing_eq]
    exact hstore
  · rw [refusing_eq]
    exact hapart
  · rw [refusing_eq] at hr
    exact Except.mapError_eq_ok.mp hr

end Heedless

end Edit

namespace Store

open Edit

variable {w s : Store} {m₀ m : ModelId} {x e : EntityId} {told : ConfigError → ConfigError} {input positional : Input}
  {fields : Fields}

/-! ## Building beside it -/

/-- Whether a builder that is not given an entity makes the same whatever its model. -/
def Oblivious (w : Store) (m₀ m : ModelId) (x : EntityId) (build : Builder) : Prop :=
  ∀ (model : ModelId) (positional : Input) (fields : Fields) (s : Store), ¬ positional.Names x → ¬ NamedIn fields x →
    Apart w m₀ x s → Heedless w m₀ m x id (· ≠ x) (build model positional fields) (build model positional fields) s

section Staging

variable {build : Builder} (hk : (w.schema m₀).Akin (w.schema m)) (hreg : m.registry = m₀.registry)
  (hb : Oblivious w m₀ m x build) (h : Apart w m₀ x s)

include hk hreg hb h

theorem coerceMember_heedless (hi : ¬ input.Names x) (c : CollectionId) :
    Heedless w m₀ m x told (·.entity ≠ x) (coerceMember build c input) (coerceMember build c input) s := by
  have hnew : ∀ {model : ModelId} {positional : Input} {fields : Fields} {reason : ConfigError → ConfigError},
      ¬ positional.Names x → ¬ NamedIn fields x → Heedless w m₀ m x told (·.entity ≠ x)
        (do return (⟨← refusing reason (build model positional fields), true⟩ : Candidate))
        (do return ⟨← refusing reason (build model positional fields), true⟩) s := fun hp hf =>
    ((hb _ _ _ s hp hf h).refusing _).bind fun e t he ht => .pure ht he
  unfold coerceMember
  refine .store_bind ?_
  dsimp only
  rw [target_retype hk h hreg, schema_retype]
  cases input with
  | entity e =>
      have he : e ≠ x := fun hex => hi (hex ▸ .entity)
      have hr := resembles_retype (s := s) (m := m) he
      dsimp only
      rw [describeInput_retype hi, hr.model, hr.schemaOf rfl, isA_retype]
      split
      · exact .pure h he
      · exact .throw h rfl
  | mapping fields =>
      rw [describeInput_retype hi]
      exact hnew nofun hi
  | value v => exact hnew hi fun hx => nameless_empty x hx
  | null => exact .throw h rfl
  | list items =>
      rw [describeInput_retype hi]
      exact .throw h rfl

theorem stage_heedless (hf : e = x → told = ConfigError.unnamed) (hi : ¬ input.Names x) (i : Nat) :
    Heedless w m₀ m x told (fun change => ∀ y ∈ change.candidates, y.entity ≠ x) (stage build e i input)
      (stage build e i input) s := by
  unfold stage
  refine .store_bind ?_
  rw [slot_retype]
  cases s.slot e i with
  | scalar stored =>
      exact (Heedless.read h (coerceScalar_retype hk h hf hi i)).bind fun _ _ _ ht => .pure ht nofun
  | binding bound =>
      exact (Heedless.read h (coerceBinding_retype hk hreg h hf hi i)).bind fun _ _ _ ht => .pure ht nofun
  | members es =>
      refine (Heedless.mapM h fun j hj t ht => ?_).bind fun xs t hxs ht => .pure ht hxs
      exact coerceMember_heedless hk hreg hb ht (fun hx => hi (memberInputs_names hj x hx)) ⟨e, i⟩

theorem updateWith_heedless (hf : e = x → told = ConfigError.unnamed) (hi : ¬ NamedIn fields x) :
    Heedless w m₀ m x told (fun _ => True) (updateWith build e fields) (updateWith build e fields) s := by
  unfold updateWith stageFields
  rw [bind_assoc]
  refine (Heedless.read h (Except.mapError_mapM_congr (fun key => fieldIndex_retype hk h hf key) _)).bind
    fun indices t _ ht => ?_
  have hitems : ∀ item ∈ indices.zip (fields.pairs.map (·.2)), ¬ item.2.Names x := fun item hitem hx =>
    hi (names_of_mem_zip (fun _ h => h) item hitem x hx)
  refine (Heedless.mapM ht fun item hitem t ht => ?_).bind fun changes t hchanges ht =>
    .apply (commitAll_retype ht hchanges e)
  exact stage_heedless hk hreg hb ht hf (hitems item hitem) item.1

end Staging

theorem prepare_retype (ha : w.AsksGiven) (hn : w.NamesGiven) (h : Apart w m₀ x s) (model : ModelId)
    (hp : ¬ positional.Names x) (hi : ¬ NamedIn fields x) :
    (s.retype x m).prepare model positional fields = s.prepare model positional fields := by
  have hasks : s.AsksGiven := by rwa [AsksGiven, h.registries]
  have hnames : s.NamesGiven := by rwa [NamesGiven, h.registries]
  refine prepare_congr registries_retype hasks hnames model view_retype fun e he hex => ?_
  subst hex
  exact he.elim hp hi

theorem create_ignores (h : Apart w m₀ x s) (model : ModelId) : Ignores w m₀ x m (·.create model) s := by
  constructor
  · rw [create_eq, create_eq, push_retype h.has, schema_retype, size_retype]
  · rw [create_eq]
    refine h.push fun slot hslot => ?_
    obtain ⟨field, _, rfl⟩ := List.mem_map.mp hslot
    exact slotMembers_freshSlot field

theorem buildWithin_oblivious (hk : (w.schema m₀).Akin (w.schema m)) (hreg : m.registry = m₀.registry)
    (ha : w.AsksGiven) (hn : w.NamesGiven) (fuel : Nat) : Oblivious w m₀ m x (buildWithin fuel) := by
  -- less fuel is left for the members of what is built
  induction fuel with
  | zero =>
      intro model positional fields s _ _ h
      exact .store_bind (.throw h rfl)
  | succ fuel ih =>
      intro model positional fields s hp hi h
      have hprepare : ((s.retype x m).prepare model positional fields).mapError id =
          (s.prepare model positional fields).mapError id :=
        congrArg (Except.mapError id) (prepare_retype ha hn h model hp hi)
      refine (Heedless.read h hprepare).bind fun prepared t hprepared ht => ?_
      have hnames : s.NamesGiven := by rwa [NamesGiven, h.registries]
      have hnot : ¬ NamedIn prepared x := fun hx => (prepare_names hnames hprepared x hx).elim hp hi
      refine (Heedless.change (create_ignores ht model)).bind fun e u he hu => ?_
      have hex : e ≠ x := fun hex => Nat.lt_irrefl _ (hex.symm.trans he ▸ ht.has)
      exact (updateWith_heedless hk hreg ih hu (fun hx => absurd hx hex) hnot).bind fun _ _ _ hv => .pure hv hex

/-! ## Building it -/

theorem retype_of_not_has (h : ¬ s.Has x) : s.retype x m = s := by
  have hsize : ¬ x.index < s.entities.size := h
  unfold retype modify
  refine congrArg (Store.mk s.registries) (Array.ext (by simp) fun j hj _ => ?_)
  rw [Array.size_modify] at hj
  rw [Array.getElem_modify, if_neg (by omega)]

theorem prepare_akin (hk : (s.schema m₀).Akin (s.schema m)) : (s.prepare m positional fields).mapError ConfigError.unnamed =
    (s.prepare m₀ positional fields).mapError ConfigError.unnamed := by
  have hplace : (s.withPositional m positional fields).mapError ConfigError.unnamed =
      (s.withPositional m₀ positional fields).mapError ConfigError.unnamed := by
    unfold withPositional
    rw [hk.positional]
    split
    · rfl
    · split <;> rfl
  unfold prepare
  rw [hk.preparations, Except.mapError_bind, Except.mapError_bind, hplace]

theorem create_akin (hk : (s.schema m₀).Akin (s.schema m)) :
    s.create m = ((s.create m₀).1.retype ⟨s.entities.size⟩ m, ⟨s.entities.size⟩) := by
  rw [create_eq, create_eq, hk.fields]
  refine congrArg (·, (⟨s.entities.size⟩ : EntityId)) ?_
  unfold push retype modify
  refine congrArg (Store.mk s.registries) (Array.ext (by simp) fun j _ _ => ?_)
  simp only [Array.getElem_modify, Array.getElem_push]
  grind

theorem apart_create (hs : s.Linked) (m₀ : ModelId) : Apart s m₀ ⟨s.entities.size⟩ (s.create m₀).1 := by
  have hslots : ∀ slot ∈ (s.schema m₀).fields.map freshSlot, slotMembers slot = [] := fun slot hslot => by
    obtain ⟨field, _, rfl⟩ := List.mem_map.mp hslot
    exact slotMembers_freshSlot field
  rw [create_eq]
  refine ⟨rfl, by simp [Has], ?_, fun c hc => ?_⟩
  · rw [model, entity_push, if_pos rfl]
  · rw [members_push hslots] at hc
    exact Nat.lt_irrefl _ (has_of_parent (hs.mem_iff.mp hc))

/-- Whether a build of an entity from one model does what the build of it from another does: it gives the same entity or a
failure that is told the same, and a store that differs in the model of the entity alone. -/
structure Recast (s : Store) (m₀ m : ModelId) (r' r : Except ConfigError EntityId × Store) : Prop where
  result : r'.1.mapError ConfigError.unnamed = r.1.mapError ConfigError.unnamed
  store : r'.2 = r.2.retype ⟨s.entities.size⟩ m
  built : ∀ e, r.1 = .ok e → e = ⟨s.entities.size⟩ ∧ Apart s m₀ ⟨s.entities.size⟩ r.2

theorem buildWithin_error {err : ConfigError} (h : s.prepare m positional fields = .error err) (fuel : Nat) :
    buildWithin (fuel + 1) m positional fields s = (.error err, s) :=
  bind_error (congrArg (·, s) h)

theorem buildWithin_ok {prepared : Fields} (h : s.prepare m positional fields = .ok prepared) (fuel : Nat) :
    buildWithin (fuel + 1) m positional fields s =
      (do updateWith (buildWithin fuel) ⟨s.entities.size⟩ prepared; return EntityId.mk s.entities.size) (s.create m).1 :=
  (bind_ok (congrArg (·, s) h)).trans (bind_ok rfl)

theorem buildWithin_recast (hk : (s.schema m₀).Akin (s.schema m)) (hreg : m.registry = m₀.registry) (hs : s.Linked)
    (ha : s.AsksGiven) (hn : s.NamesGiven) (hv : ∀ e, positional.Names e ∨ NamedIn fields e → s.Has e) (fuel : Nat) :
    Recast s m₀ m (buildWithin (fuel + 1) m positional fields s) (buildWithin (fuel + 1) m₀ positional fields s) := by
  have hprepare : (s.prepare m positional fields).mapError ConfigError.unnamed =
      (s.prepare m₀ positional fields).mapError ConfigError.unnamed := prepare_akin hk
  cases hp₀ : s.prepare m₀ positional fields with
  | error err₀ =>
      rw [hp₀] at hprepare
      cases hp : s.prepare m positional fields with
      | ok prepared =>
          rw [hp] at hprepare
          cases hprepare
      | error err =>
          -- nothing was made that could be given another model
          rw [hp] at hprepare
          rw [buildWithin_error hp, buildWithin_error hp₀]
          exact ⟨congrArg Except.error (Except.error.inj hprepare), (retype_of_not_has (Nat.lt_irrefl _)).symm,
            fun e he => by cases he⟩
  | ok prepared =>
      rw [hp₀] at hprepare
      have hp : s.prepare m positional fields = .ok prepared := Except.mapError_eq_ok.mp hprepare
      have hnot : ¬ NamedIn prepared ⟨s.entities.size⟩ := fun hx =>
        Nat.lt_irrefl _ (hv _ (prepare_names hn hp₀ _ hx))
      have hupdate := updateWith_heedless hk hreg (buildWithin_oblivious hk hreg ha hn fuel) (apart_create hs m₀)
        (e := ⟨s.entities.size⟩) (fun _ => rfl) hnot
      have hbuild : Heedless s m₀ m ⟨s.entities.size⟩ ConfigError.unnamed (· = EntityId.mk s.entities.size)
          (do updateWith (buildWithin fuel) ⟨s.entities.size⟩ prepared; return EntityId.mk s.entities.size)
          (do updateWith (buildWithin fuel) ⟨s.entities.size⟩ prepared; return EntityId.mk s.entities.size) (s.create m₀).1 :=
        hupdate.bind fun _ _ _ ht => .pure ht rfl
      obtain ⟨hresult, hstore, hapart, hgood⟩ := hbuild
      rw [buildWithin_ok hp, buildWithin_ok hp₀, create_akin hk]
      exact ⟨hresult, hstore, fun e he => ⟨hgood e he, hapart⟩⟩

/-- Models that work alike are built alike. -/
theorem build_recast (hk : (s.schema m₀).Akin (s.schema m)) (hreg : m.registry = m₀.registry) (hs : s.Linked)
    (ha : s.AsksGiven) (hn : s.NamesGiven) (hv : ∀ e, positional.Names e ∨ NamedIn fields e → s.Has e) :
    Recast s m₀ m (build m positional fields s) (build m₀ positional fields s) := by
  have hwithin : Recast s m₀ m (builderFor [positional, .mapping fields] m positional fields s)
      (builderFor [positional, .mapping fields] m₀ positional fields s) := by
    simp only [builderFor, buildTo, bind_store]
    exact buildWithin_recast hk hreg hs ha hn hv _
  obtain ⟨hresult, hstore, hbuilt⟩ := hwithin
  unfold build Edit.orRelease
  generalize builderFor _ m positional fields s = r' at hresult hstore
  generalize builderFor _ m₀ positional fields s = r at hresult hstore hbuilt
  obtain ⟨result', t'⟩ := r'
  obtain ⟨result, t⟩ := r
  cases hstore
  cases result with
  | ok e =>
      cases Except.mapError_eq_ok.mp hresult
      exact ⟨rfl, rfl, hbuilt⟩
  | error err =>
      cases result' with
      | ok e => cases hresult
      | error err' => exact ⟨hresult, releaseSince_retype _, nofun⟩

end Store

end MonitorExport
