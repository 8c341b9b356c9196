import MonitorExport.Proofs.Store.Building
import MonitorExport.Proofs.Store.Renaming

/-!
# Building in a part of a store

Building from inputs that name no entity asks nothing about the entities that are there. So it does in a part of a store
what it does in the whole: it gives the same under other names, or fails with the same error.
-/

namespace MonitorExport

theorem Except.mapError_id {ε α : Type} (r : Except ε α) : r.mapError id = r := by
  cases r <;> rfl

/-- Whether an input names no entity at any depth. -/
def Input.Nameless (i : Input) : Prop := ∀ e, ¬ i.Names e

theorem Input.Nameless.describe {i : Input} (hi : i.Nameless) (view view' : EntityView) :
    view.describeInput i = view'.describeInput i :=
  EntityView.Agree.describeInput fun e he => absurd he (hi e)

theorem Input.Nameless.item {i : Input} (hi : i.Nameless) : ∀ j ∈ Store.memberInputs i, j.Nameless :=
  fun _ hj e he => hi e (Store.memberInputs_names hj e he)

theorem Input.Nameless.field {fields : Fields} (h : (Input.mapping fields).Nameless) {pair : String × Input}
    (hpair : pair ∈ fields.pairs) : pair.2.Nameless :=
  fun e he => h e (.field hpair he)

namespace Edit

variable {α β γ δ : Type} {w : Store} {f : EntityId → EntityId} {s t : Store} {r : α → β} {r' : γ → δ}

/-- Whether a step in a part of a store is reenacted by one in the whole: this gives the same under other names, or fails
with the same error. -/
def Reenacts (w : Store) (f : EntityId → EntityId) (r : α → β) (a : Edit α) (b : Edit β) (s t : Store) : Prop :=
  ∃ t', b t = ((a s).1.map r, t') ∧ Store.Embeds w f (a s).2 t'

namespace Reenacts

variable {a : Edit α} {b : Edit β}

theorem pure (h : Store.Embeds w f s t) (x : α) : Reenacts w f r (Pure.pure x) (Pure.pure (r x)) s t := ⟨t, rfl, h⟩

theorem throw (h : Store.Embeds w f s t) (err : ConfigError) :
    Reenacts w f r (MonadExcept.throw err : Edit α) (MonadExcept.throw err) s t := ⟨t, rfl, h⟩

theorem read (h : Store.Embeds w f s t) {get : Store → Except ConfigError α} {get' : Store → Except ConfigError β}
    (hr : get' t = (get s).map r) : Reenacts w f r (ofRead get) (ofRead get') s t :=
  ⟨t, by rw [ofRead, ofRead, hr], h⟩

theorem change {c : Store → Store × α} {c' : Store → Store × β} (h : Store.Embeds w f (c s).1 (c' t).1)
    (hr : (c' t).2 = r (c s).2) : Reenacts w f r (ofChange c) (ofChange c') s t :=
  ⟨(c' t).1, Prod.ext (congrArg Except.ok hr) rfl, h⟩

theorem apply {c c' : Store → Store} (h : Store.Embeds w f (c s) (c' t)) :
    Reenacts w f id (Edit.apply c) (Edit.apply c') s t := ⟨c' t, rfl, h⟩

theorem bind {k : α → Edit γ} {k' : β → Edit δ} (h : Reenacts w f r a b s t)
    (hk : ∀ x s' t', a s = (.ok x, s') → Store.Embeds w f s' t' → Reenacts w f r' (k x) (k' (r x)) s' t') :
    Reenacts w f r' (a >>= k) (b >>= k') s t := by
  obtain ⟨t', hb, he⟩ := h
  rcases ha : a s with ⟨err | x, s'⟩
  · rw [ha] at hb he
    rw [Reenacts, bind_error ha, bind_error hb]
    exact ⟨t', rfl, he⟩
  · rw [ha] at hb he
    rw [Reenacts, bind_ok ha, bind_ok hb]
    exact hk x s' t' ha he

/-- Steps that look at the store before they do anything. -/
theorem store {k : Store → Edit α} {k' : Store → Edit β} (h : Reenacts w f r (k s) (k' t) s t) :
    Reenacts w f r (Edit.store >>= k) (Edit.store >>= k') s t := by
  rw [Reenacts, bind_store, bind_store]
  exact h

theorem mapM {ι : Type} {step : ι → Edit α} {step' : ι → Edit β} {items : List ι} (h : Store.Embeds w f s t)
    (hstep : ∀ i ∈ items, ∀ s t, Store.Embeds w f s t → Reenacts w f r (step i) (step' i) s t) :
    Reenacts w f (List.map r) (items.mapM step) (items.mapM step') s t := by
  induction items generalizing s t with
  | nil => exact .pure h []
  | cons i items ih =>
      rw [List.mapM_cons, List.mapM_cons]
      refine (hstep i (List.mem_cons_self ..) s t h).bind fun x s' t' _ h' => ?_
      exact (ih h' fun j hj => hstep j (List.mem_cons_of_mem _ hj)).bind fun xs s'' t'' _ h'' => .pure h'' (x :: xs)

end Reenacts

theorem Reenacts.refusing {a : Edit α} {b : Edit β} (h : Reenacts w f r a b s t) (reason : ConfigError → ConfigError) :
    Reenacts w f r (Store.refusing reason a) (Store.refusing reason b) s t := by
  obtain ⟨t', hb, he⟩ := h
  refine ⟨t', ?_, by rwa [refusing_eq]⟩
  rw [refusing_eq, refusing_eq, hb]
  cases (a s).1 <;> rfl

end Edit

namespace Store

open Edit

variable {w : Store} {f : EntityId → EntityId} {s t : Store} {e : EntityId} {i : Nat} {input : Input}

/-! ## Reading inputs -/

/-- A literal identity is read alike, or refused alike, from stores that tell the same of the entities that are named. -/
theorem literal_congr {given : EntityId → Prop} (hv : t.view.Agree s.view given) {told : ConfigError → ConfigError}
    {refused refused' : String → ConfigError} (hr : ∀ described, told (refused' described) = told (refused described))
    {pairs : List (String × Input)} (hp : ∀ pair ∈ pairs, ∀ e, pair.2.Names e → given e) (identity : Identity) :
    (literal refused' t pairs identity).mapError told = (literal refused s pairs identity).mapError told := by
  induction pairs generalizing identity with
  | nil => rfl
  | cons pair pairs ih =>
      obtain ⟨key, input⟩ := pair
      have hrest := ih fun pair hpair => hp pair (List.mem_cons_of_mem _ hpair)
      have hinput : t.describeInput input = s.describeInput input :=
        EntityView.Agree.describeInput fun e he => hv e (hp (key, input) (List.mem_cons_self ..) e he)
      cases input with
      | value v => exact hrest _
      | _ => exact congrArg Except.error (by rw [hinput]; exact hr _)

namespace Embeds

variable (h : Embeds w f s t)

include h

theorem fieldName (e : EntityId) (i : Nat) : t.fieldName (f e) i = s.fieldName e i :=
  (h.resembles e).fieldName h.registries i

theorem coerceScalar (hi : input.Nameless) (e : EntityId) (i : Nat) :
    t.coerceScalar (f e) i input = s.coerceScalar e i input := by
  unfold Store.coerceScalar
  rw [h.schemaOf, h.fieldName, h.field?]
  cases input with
  | entity x => exact absurd .entity (hi x)
  | _ => rfl

theorem coerceBinding (hi : input.Nameless) (e : EntityId) (i : Nat) :
    t.coerceBinding (f e) i input = (s.coerceBinding e i input).map (Binding.rename f) := by
  unfold Store.coerceBinding
  rw [h.schemaOf, h.fieldName, h.target, h.schema]
  cases input with
  | null => rfl
  | value v => rfl
  | list items => rfl
  | entity x => exact absurd .entity (hi x)
  | mapping fields =>
      have hliteral : ∀ refused, literal refused t fields.pairs .empty = literal refused s fields.pairs .empty :=
        fun refused => by
          have hview : t.view.Agree s.view fun _ => False := fun _ => False.elim
          rw [← Except.mapError_id (literal refused t _ _), ← Except.mapError_id (literal refused s _ _)]
          exact literal_congr hview (fun _ => rfl) (fun _ hpair => hi.field hpair) .empty
      dsimp only
      rw [hliteral]
      cases literal _ s fields.pairs .empty <;> rfl

end Embeds

/-! ## Building -/

/-- Whether a builder that gets no names of entities does the same in a part of a store as in the whole. -/
def Portable (w : Store) (f : EntityId → EntityId) (build : Builder) : Prop :=
  ∀ (m : ModelId) (positional : Input) (fields : Fields) (s t : Store), positional.Nameless →
    (Input.mapping fields).Nameless → Embeds w f s t →
    Reenacts w f f (build m positional fields) (build m positional fields) s t

theorem nameless_null : Input.null.Nameless := fun _ => nofun

theorem nameless_value (v : Value) : (Input.value v).Nameless := fun _ => not_names_value

theorem nameless_empty : (Input.mapping .empty).Nameless := fun e he => by
  simp [names_mapping_iff, Entries.empty] at he

variable {build : Builder}

theorem coerceMember_reenacts (hb : Portable w f build) (h : Embeds w f s t) (hi : input.Nameless) (c : CollectionId) :
    Reenacts w f (Candidate.rename f) (coerceMember build c input) (coerceMember build (c.rename f) input) s t := by
  have hnew : ∀ {positional : Input} {fields : Fields} {reason : ConfigError → ConfigError}, positional.Nameless →
      (Input.mapping fields).Nameless → Reenacts w f (Candidate.rename f)
        (do return ⟨← refusing reason (build (s.target c.owner c.field) positional fields), true⟩)
        (do return ⟨← refusing reason (build (s.target c.owner c.field) positional fields), true⟩) s t :=
    fun hp hf => ((hb _ _ _ s t hp hf h).refusing _).bind fun e s' t' _ h' => .pure h' (⟨e, true⟩ : Candidate)
  unfold coerceMember
  refine .store ?_
  have htarget : t.target (c.rename f).owner (c.rename f).field = s.target c.owner c.field := h.target c.owner c.field
  have hdescribed : t.describeInput input = s.describeInput input := hi.describe ..
  dsimp only
  rw [htarget, hdescribed, h.schema]
  cases input with
  | entity e => exact absurd .entity (hi e)
  | mapping fields => exact hnew nameless_null hi
  | value v => exact hnew hi nameless_empty
  | null => exact .throw h _
  | list items => exact .throw h _

theorem stage_reenacts (hb : Portable w f build) (h : Embeds w f s t) (hi : input.Nameless) (e : EntityId) (i : Nat) :
    Reenacts w f (Change.rename f) (stage build e i input) (stage build (f e) i input) s t := by
  unfold stage
  refine .store ?_
  rw [h.slot]
  cases s.slot e i with
  | scalar stored =>
      refine Reenacts.bind (.read (r := id) h ?_) fun stored s' t' _ h' => .pure h' (Change.scalar i stored)
      rw [h.coerceScalar hi]
      cases s.coerceScalar e i input <;> rfl
  | members es =>
      have hall := Reenacts.mapM h fun j hj s t h => coerceMember_reenacts hb h (hi.item j hj) ⟨e, i⟩
      exact hall.bind fun xs s' t' _ h' => .pure h' (Change.members i xs)
  | binding bound =>
      exact (Reenacts.read h (h.coerceBinding hi e i)).bind fun bound s' t' _ h' => .pure h' (Change.bind i bound)

/-- Whether no preparation of a store asks about an entity that it was not given. -/
def AsksGiven (s : Store) : Prop := ∀ r ∈ s.registries, r.AsksGiven

theorem AsksGiven.schema (h : s.AsksGiven) (m : ModelId) : ∀ p ∈ (s.schema m).preparations, p.AsksGiven := by
  have hr : (s.registry m.registry).AsksGiven := getD_mem h (fun _ hm => absurd hm List.not_mem_nil) _
  have hnone : ∀ p ∈ ModelSchema.blank.preparations, p.AsksGiven := fun _ hp => absurd hp List.not_mem_nil
  exact getD_mem (P := fun schema : ModelSchema => ∀ p ∈ schema.preparations, p.AsksGiven) hr hnone _

theorem foldlM_congr {view view' : EntityView} {given : EntityId → Prop} (hv : view.Agree view' given)
    {steps : List Preparation} {fields : Fields} (ha : ∀ p ∈ steps, p.AsksGiven) (hn : ∀ p ∈ steps, p.NamesGiven)
    (hi : ∀ e, NamedIn fields e → given e) : steps.foldlM (fun fields step => step view fields) fields =
      steps.foldlM (fun fields step => step view' fields) fields := by
  induction steps generalizing fields with
  | nil => rfl
  | cons p steps ih =>
      have hp : p view fields = p view' fields :=
        ha p (List.mem_cons_self ..) view view' fields fun e he => hv e (hi e he)
      rw [List.foldlM_cons, List.foldlM_cons, hp]
      cases hnext : p view' fields with
      | error err => rfl
      | ok next =>
          exact ih (fun q hq => ha q (List.mem_cons_of_mem _ hq)) (fun q hq => hn q (List.mem_cons_of_mem _ hq))
            fun e he => hi e (hn p (List.mem_cons_self ..) view' fields next hnext e he)

/-- Preparing fields gives the same in stores that tell the same of the entities that are named. -/
theorem prepare_congr (hr : t.registries = s.registries) (ha : s.AsksGiven) (hn : s.NamesGiven) (m : ModelId)
    {positional : Input} {fields : Fields} {given : EntityId → Prop} (hv : t.view.Agree s.view given)
    (hi : ∀ e, positional.Names e ∨ NamedIn fields e → given e) :
    t.prepare m positional fields = s.prepare m positional fields := by
  have hplace : t.withPositional m positional fields = s.withPositional m positional fields := by
    unfold withPositional
    have hdescribed : t.describeInput positional = s.describeInput positional :=
      EntityView.Agree.describeInput fun e he => hv e (hi e (.inl he))
    rw [schema_congr hr, hdescribed]
  unfold prepare
  rw [hplace, schema_congr hr]
  cases hplaced : s.withPositional m positional fields with
  | error err => rfl
  | ok placed => exact foldlM_congr hv (ha.schema m) (hn.schema m) fun e he => hi e (withPositional_names hplaced e he)

variable (hf : ∀ x y, (f x).index < (f y).index ↔ x.index < y.index)

include hf

theorem updateWith_reenacts {fields : Fields} (hb : Portable w f build) (h : Embeds w f s t)
    (hi : (Input.mapping fields).Nameless) (e : EntityId) :
    Reenacts w f id (updateWith build e fields) (updateWith build (f e) fields) s t := by
  have hindices : fields.keys.mapM (t.fieldIndex (f e)) = fields.keys.mapM (s.fieldIndex e) :=
    congrArg (List.mapM · fields.keys) (funext fun key => (h.resembles e).fieldIndex h.registries key)
  unfold updateWith stageFields
  rw [bind_assoc, bind_assoc]
  refine Reenacts.bind (.read (r := id) h ?_) fun indices s' t' _ h' => ?_
  · rw [hindices]
    cases fields.keys.mapM (s.fieldIndex e) <;> rfl
  · have hnameless : ∀ item ∈ indices.zip (fields.pairs.map (·.2)), item.2.Nameless := names_of_mem_zip hi
    refine (Reenacts.mapM h' fun item hitem s t h => ?_).bind fun changes s'' t'' _ h'' => .apply (h''.commitAll hf e changes)
    exact stage_reenacts hb h (hnameless item hitem) e item.1

theorem buildWithin_portable (ha : w.AsksGiven) (hn : w.NamesGiven) (fuel : Nat) :
    Portable w f (buildWithin fuel) := by
  induction fuel with
  | zero =>
      intro m positional fields s t _ _ h
      refine .store ?_
      rw [h.schema]
      exact .throw h _
  | succ fuel ih =>
      intro m positional fields s t hp hi h
      have hasks : s.AsksGiven := by rwa [AsksGiven, h.part]
      have hnames : s.NamesGiven := by rwa [NamesGiven, h.part]
      have hview : t.view.Agree s.view fun _ => False := fun _ => False.elim
      have hprepare : t.prepare m positional fields = (s.prepare m positional fields).map id := by
        rw [prepare_congr h.registries hasks hnames m hview fun e he => he.elim (hp e) (hi e)]
        cases s.prepare m positional fields <;> rfl
      refine (Reenacts.read h hprepare).bind fun prepared s' t' hread h' => ?_
      have hprepared : (Input.mapping prepared).Nameless := fun e he =>
        (prepare_names hnames (congrArg Prod.fst hread) e he).elim (hp e) (hi e)
      have hfresh : t'.create m =
          (t'.push (Entity.rename f ⟨m, (s'.schema m).fields.map freshSlot, none⟩), f ⟨s'.entities.size⟩) := by
        rw [create_eq, h'.schema, h'.size, Entity.rename, List.map_map]
        refine congrArg (fun slots => (t'.push ⟨m, slots, none⟩, _)) (List.map_congr_left fun field _ => ?_)
        exact (freshSlot_rename field).symm
      have hcreate : Reenacts w f f (Edit.ofChange fun s => s.create m) (Edit.ofChange fun s => s.create m) s' t' :=
        .change (by rw [hfresh]; exact h'.push _) (by rw [hfresh]; rfl)
      refine hcreate.bind fun e s'' t'' _ h'' => ?_
      exact (updateWith_reenacts hf ih h'' hprepared e).bind fun _ _ _ _ h''' => .pure h''' e

theorem buildTo_portable (ha : w.AsksGiven) (hn : w.NamesGiven) (limit : List Registry → Nat) :
    Portable w f (buildTo limit) := by
  intro m positional fields s t hp hi h
  refine .store ?_
  rw [h.registries]
  exact buildWithin_portable hf ha hn _ m positional fields s t hp hi h

end Store

end MonitorExport
