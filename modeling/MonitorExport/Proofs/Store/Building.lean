import MonitorExport.Proofs.Store.Inserting
import MonitorExport.Proofs.Store.Naming
import MonitorExport.Proofs.Store.Steps

/-!
# Building

Checking the inputs of a step makes new entities and writes those alone; older entities only become
members of new ones, and only if an input names them. A build that succeeds gives the first of the entities
that it made.
-/

namespace MonitorExport

namespace Store

open Edit

variable {s t : Store} {σ : Scope} {c : CollectionId} {e : EntityId} {given : EntityId → Prop}

/-! ## Preparing -/

/-- Whether no preparation of a store names an entity that it was not given. -/
def NamesGiven (s : Store) : Prop := ∀ r ∈ s.registries, r.NamesGiven

theorem NamesGiven.run (h : s.NamesGiven) (hrun : Run σ s t) : t.NamesGiven := by
  rw [NamesGiven, hrun.registries]
  exact h

theorem getD_mem {α : Type} {P : α → Prop} {l : List α} {d : α} (h : ∀ a ∈ l, P a) (hd : P d) (i : Nat) :
    P (l.getD i d) := by
  rw [List.getD_eq_getElem?_getD]
  cases hi : l[i]? with
  | none => exact hd
  | some a => exact h a (List.mem_of_getElem? hi)

theorem NamesGiven.schema (h : s.NamesGiven) (m : ModelId) :
    ∀ p ∈ (s.schema m).preparations, p.NamesGiven := by
  have hr : (s.registry m.registry).NamesGiven := getD_mem h (fun _ hm => absurd hm List.not_mem_nil) _
  have hnone : ∀ p ∈ ModelSchema.blank.preparations, p.NamesGiven := fun _ hp => absurd hp List.not_mem_nil
  exact getD_mem (P := fun schema : ModelSchema => ∀ p ∈ schema.preparations, p.NamesGiven) hr hnone _

theorem foldlM_names {view : EntityView} (steps : List Preparation) (h : ∀ p ∈ steps, p.NamesGiven)
    {fields fields' : Fields} (hf : steps.foldlM (fun fields step => step view fields) fields = .ok fields') :
    ∀ e, NamedIn fields' e → NamedIn fields e := by
  induction steps generalizing fields with
  | nil =>
      cases hf
      exact fun _ => id
  | cons p steps ih =>
      rw [List.foldlM_cons] at hf
      obtain ⟨next, hp, hf⟩ := bind_eq_ok hf
      exact fun e he => h p (by simp) _ _ _ hp e (ih (fun q hq => h q (by simp [hq])) hf e he)

/-- The fields with the bare value name no more than what was given. -/
theorem withPositional_names {m : ModelId} {positional : Input} {fields fields' : Fields}
    (h : s.withPositional m positional fields = .ok fields') (e : EntityId) (he : NamedIn fields' e) :
    positional.Names e ∨ NamedIn fields e := by
  unfold withPositional at h
  split at h
  · cases h
    exact .inr he
  · split at h
    · cases h
      exact he.insert
    · cases h

/-- Prepared fields name no more than what was given for the entity. -/
theorem prepare_names (h : s.NamesGiven) {m : ModelId} {positional : Input} {fields fields' : Fields}
    (hp : s.prepare m positional fields = .ok fields') (e : EntityId) (he : NamedIn fields' e) :
    positional.Names e ∨ NamedIn fields e := by
  unfold prepare at hp
  obtain ⟨placed, hw, hp⟩ := bind_eq_ok hp
  exact withPositional_names hw e (foldlM_names _ (h.schema m) hp e he)

/-! ## Staging -/

/-- What a builder guarantees that is given nothing but entities of the store: it writes only what it
makes, and what it gives is the first that it made. -/
def Sound (given : EntityId → Prop) (build : Builder) : Prop :=
  ∀ {s : Store} {m : ModelId} {positional : Input} {fields : Fields}, s.Linked → s.NamesGiven →
    (∀ x, given x → s.Has x) → (∀ x, positional.Names x ∨ NamedIn fields x → given x) →
    Ends (build m positional fields)
      (fun e t => Run (.since s.entities.size given) s t ∧ e = ⟨s.entities.size⟩ ∧ t.Has e ∧ t.model e = m)
      (Run (.since s.entities.size given) s) s

variable {build : Builder}

/-- An entity made in a run since it was the next one waits. -/
theorem Waiting.made (hg : ∀ x, given x → s.Has x) (hrun : Run (.since s.entities.size given) s t)
    (he : e = ⟨s.entities.size⟩) (hh : t.Has e) : Waiting t s.entities.size (Store.made [⟨e, true⟩]) := by
  have hn : ¬ s.Has e := by simp [he, Has]
  refine .singleton (by simp [he]) hh (hrun.parent_none ?_ (parent_of_not_has hn))
  exact Scope.not_moves_since (by simp [he]) fun h => hn (hg e h)

/-- What is known of the candidates for inputs so far, when those for later inputs are to come. -/
structure Gathered (given : EntityId → Prop) (s t : Store) (m : ModelId) (xs : List Candidate) : Prop where
  run : Run (.since s.entities.size given) s t
  admits : ∀ x ∈ xs, t.Admits m x.entity
  given : ∀ x ∈ xs, x.isNew = false → given x.entity
  waiting : Waiting t s.entities.size (made xs)

theorem Gathered.nil (m : ModelId) : Gathered given s s m [] := ⟨.refl, by simp, by simp, .nil ..⟩

/-- Turning an input into a candidate makes a new entity or takes one that is named. -/
theorem coerceMember_ends {input : Input} (hb : Sound given build) (hs : s.Linked) (hr : s.NamesGiven)
    (hg : ∀ x, given x → s.Has x) (hi : ∀ x, input.Names x → given x) :
    Ends (coerceMember build c input) (fun x t => Gathered given s t (s.target c.owner c.field) [x])
      (Run (.since s.entities.size given) s) s := by
  have hnew : ∀ {m positional fields reason}, (∀ x, positional.Names x ∨ NamedIn fields x → given x) →
      Ends (do return ⟨← refusing reason (build m positional fields), true⟩)
        (fun x t => Gathered given s t m [x]) (Run (.since s.entities.size given) s) s := by
    intro m positional fields reason hn
    refine ends_bind (ends_refusing (hb hs hr hg hn)) fun e t _ h => ends_pure ?_
    obtain ⟨hrun, hid, hhas, hmodel⟩ := h
    exact ⟨hrun, by simpa using ⟨hhas, .inl hmodel⟩, by simp, .made hg hrun hid hhas⟩
  unfold coerceMember
  refine ends_bind_store ?_
  cases input with
  | entity x =>
      dsimp only
      split
      · next hisA =>
        have hx : s.Has x := hg x (hi x .entity)
        exact ends_pure ⟨.refl, by simpa using ⟨hx, .inr hisA⟩, by simpa using hi x .entity, .nil ..⟩
      · exact ends_throw .refl
  | mapping fields => exact hnew fun x hx => hx.elim nofun (hi x)
  | value v =>
      refine hnew fun x hx => hx.elim nofun fun hx => ?_
      obtain ⟨_, hmem, _⟩ := namedIn_iff.mp hx
      cases hmem
  | null => exact ends_throw .refl
  | list items => exact ends_throw .refl

theorem Scope.since_within_old (hg : ∀ x, given x → s.Has x) (n : Nat) :
    (Scope.since n given).Within (.since n fun e => e.index < s.entities.size) :=
  ⟨fun _ h => h, fun x hx => hx.imp_right (hg x), fun _ h => h⟩

theorem made_append (xs ys : List Candidate) : made (xs ++ ys) = made xs ++ made ys := by simp [made]

theorem coerceAll_ends {inputs : List Input} {build : Input → Builder} (hb : ∀ i, Sound given (build i)) (hs : s.Linked)
    (hr : s.NamesGiven) (hg : ∀ x, given x → s.Has x) (hi : ∀ i ∈ inputs, ∀ x, i.Names x → given x) (hc : s.Has c.owner) :
    Ends (inputs.mapM fun i => coerceMember (build i) c i) (fun xs t => Gathered given s t (s.target c.owner c.field) xs)
      (Run (.since s.entities.size given) s) s := by
  refine ends_mapM inputs (fun i hmem xs t h => ?_) (.nil _)
  have hmono : ∀ {u}, Run (.since t.entities.size given) t u → Run (.since s.entities.size given) s u :=
    fun hu => h.run.trans (hu.mono (Scope.since_within h.run.size_le))
  refine (coerceMember_ends (hb i) (h.run.linked hs) (hr.run h.run) (fun x hx => h.run.has (hg x hx)) (hi i hmem)).mono
    (fun x u hx => ⟨hmono hx.run, fun y hy => ?_, fun y hy hn => ?_, ?_⟩) fun u hu => hmono hu
  · rcases List.mem_append.mp hy with hy | hy
    · exact hx.run.later.admits (h.admits y hy)
    · exact h.run.later.target hc c.field ▸ hx.admits y hy
  · rcases List.mem_append.mp hy with hy | hy
    · exact h.given y hy hn
    · exact hx.given y hy hn
  · rw [made_append]
    exact h.waiting.append (hx.run.mono (Scope.since_within_old hg _)) hx.waiting h.run.size_le

theorem memberInputs_names {input i : Input} (h : i ∈ memberInputs input) (x : EntityId) (hx : i.Names x) :
    input.Names x := by
  cases input with
  | null => cases h
  | list items => exact .item h hx
  | _ => exact List.mem_singleton.mp h ▸ hx

/-- A literal identity has the values of a mapping that holds nothing but values. -/
theorem literal_eq {refused : String → ConfigError} {l : List (String × Input)} {start identity : Identity}
    (h : literal refused s l start = .ok identity) :
    ∃ pairs : List (String × Value), l = pairs.map (fun pair => (pair.1, .value pair.2)) ∧
      identity = pairs.foldl (fun m pair => m.insert pair.1 pair.2) start := by
  induction l generalizing start with
  | nil =>
      cases h
      exact ⟨[], rfl, rfl⟩
  | cons pair l ih =>
      obtain ⟨key, input⟩ := pair
      cases input with
      | value v =>
          obtain ⟨pairs, rfl, rfl⟩ := ih h
          exact ⟨(key, v) :: pairs, rfl, rfl⟩
      | _ => cases h

/-- An input that passes as a reference binds an entity that it names and that is of the model, or a literal identity
with distinct keys. -/
theorem coerceBinding_fits {index : Nat} {input : Input} {bound : Binding} (hi : ∀ x, input.Names x → s.Has x)
    (hb : s.coerceBinding e index input = .ok bound) : Slot.Fits s (s.target e index) (.binding bound) := by
  cases input with
  | null =>
      cases hb
      trivial
  | entity x =>
      simp only [coerceBinding] at hb
      split at hb
      · next hisA =>
        cases hb
        exact ⟨hi x .entity, .inr hisA⟩
      · cases hb
  | mapping fields =>
      simp only [coerceBinding] at hb
      cases hlit : literal _ s fields.pairs .empty with
      | error reason =>
          rw [hlit] at hb
          cases hb
      | ok identity =>
          rw [hlit] at hb
          cases hb
          obtain ⟨pairs, _, rfl⟩ := literal_eq hlit
          exact Entries.nodup_keys_ofList pairs
  | value v => cases hb
  | list items => cases hb

/-- An input that passes as a value is stored as the validators of the field leave it. -/
theorem coerceScalar_valued {index : Nat} {input : Input} {stored : Option Value}
    (h : s.coerceScalar e index input = .ok stored) : Slot.Valued (s.field? e index) (.scalar stored) := by
  cases input with
  | null =>
      cases h
      trivial
  | value v =>
      simp only [coerceScalar] at h
      split at h
      · next w hw =>
        cases h
        intro field hfield
        rw [hfield] at hw
        exact .inr ⟨v, hw⟩
      · cases h
  | entity x => cases h
  | list items => cases h
  | mapping fields => cases h

/-- Checking an input for a field gives a change that suits the field. -/
theorem stage_ends {index : Nat} {input : Input} (hb : Sound given build) (hs : s.Linked) (hr : s.NamesGiven)
    (hg : ∀ x, given x → s.Has x) (hi : ∀ x, input.Names x → given x) :
    Ends (stage build e index input)
      (fun change t => Run (.since s.entities.size given) s t ∧ change.Suits t e given ∧ change.index = index ∧
        Waiting t s.entities.size change.made)
      (Run (.since s.entities.size given) s) s := by
  unfold stage
  refine ends_bind_store ?_
  split
  · next stored hslot =>
    refine ends_bind_read .refl fun stored' hstored => ends_pure ?_
    exact ⟨.refl, ⟨by simp [hslot, Slot.emptied], coerceScalar_valued hstored⟩, rfl, .nil ..⟩
  · next es hslot =>
    have hc : s.IsCollection ⟨e, index⟩ := by simp [IsCollection, hslot, Slot.emptied]
    refine ends_bind (coerceAll_ends (fun _ => hb) hs hr hg (fun i hmem x hx => hi x (memberInputs_names hmem x hx)) hc.has)
      fun xs t _ h => ends_pure ?_
    have hadmits : ∀ x ∈ xs, t.Admits (t.target e index) x.entity ∧ (x.isNew = false → given x.entity) :=
      fun x hx => ⟨h.run.later.target hc.has index ▸ h.admits x hx, h.given x hx⟩
    exact ⟨h.run, ⟨h.run.isCollection hs hc, hadmits⟩, rfl, h.waiting⟩
  · next bound hslot =>
    refine ends_bind_read .refl fun bound' hbound => ends_pure ?_
    have hfits := coerceBinding_fits (fun x hx => hg x (hi x hx)) hbound
    exact ⟨.refl, ⟨by simp [hslot, Slot.emptied], hfits⟩, rfl, .nil ..⟩

/-! ## Hydrating and building -/

/-- What is known of the changes for fields so far, when those for later fields are to come. -/
structure Staged (given : EntityId → Prop) (e : EntityId) (s t : Store) (indices : List Nat)
    (changes : List Change) : Prop where
  run : Run (.since s.entities.size given) s t
  suits : ∀ change ∈ changes, change.Suits t e given
  index : ∀ change ∈ changes, change.index ∈ indices
  waiting : Waiting t s.entities.size (changes.flatMap Change.made)

theorem stageAll_ends {items : List (Nat × Input)} (hb : Sound given build) (hs : s.Linked) (hr : s.NamesGiven)
    (hg : ∀ x, given x → s.Has x) (hi : ∀ i ∈ items, ∀ x, i.2.Names x → given x) (he : s.Has e) :
    Ends (items.mapM fun (index, input) => stage build e index input)
      (fun changes t => Staged given e s t (items.map (·.1)) changes) (Run (.since s.entities.size given) s) s := by
  refine ends_mapM items (fun i hmem changes t h => ?_) ⟨.refl, by simp, by simp, .nil ..⟩
  have hmono : ∀ {u}, Run (.since t.entities.size given) t u → Run (.since s.entities.size given) s u :=
    fun hu => h.run.trans (hu.mono (Scope.since_within h.run.size_le))
  refine (stage_ends hb (h.run.linked hs) (hr.run h.run) (fun x hx => h.run.has (hg x hx))
    (hi i hmem)).mono (fun change u hu => ⟨hmono hu.1, fun d hd => ?_, fun d hd => ?_, ?_⟩) fun u hu => hmono hu
  · rcases List.mem_append.mp hd with hd | hd
    · exact Change.Suits.run (h.suits d hd) (h.run.linked hs) hu.1 (h.run.has he)
    · exact List.mem_singleton.mp hd ▸ hu.2.1
  · rcases List.mem_append.mp hd with hd | hd
    · exact h.index d hd
    · cases List.mem_singleton.mp hd
      exact hu.2.2.1 ▸ List.mem_map.mpr ⟨i, hmem, rfl⟩
  · rw [List.flatMap_append]
    exact h.waiting.append (hu.1.mono (Scope.since_within_old hg _)) (by simpa using hu.2.2.2) h.run.size_le

theorem names_of_mem_zip {fields : Fields} {indices : List Nat} (hn : ∀ x, NamedIn fields x → given x) :
    ∀ i ∈ indices.zip (fields.pairs.map (·.2)), ∀ x, i.2.Names x → given x := by
  rintro ⟨index, input⟩ hmem x hx
  obtain ⟨pair, hpair, rfl⟩ := List.mem_map.mp (List.of_mem_zip hmem).2
  exact hn x (namedIn_iff.mpr ⟨pair, hpair, hx⟩)

/-- Checking the input for a field that is looked up gives a change that suits the field. -/
theorem stageField_ends {field : String} {input : Input} (hb : Sound given build) (hs : s.Linked) (hr : s.NamesGiven)
    (hg : ∀ x, given x → s.Has x) (hi : ∀ x, input.Names x → given x) :
    Ends (stageField build e field input)
      (fun change t => Run (.since s.entities.size given) s t ∧ change.Suits t e given ∧
        s.fieldIndex e field = .ok change.index ∧ Waiting t s.entities.size change.made)
      (Run (.since s.entities.size given) s) s := by
  refine ends_bind_read .refl fun i hindex => (stage_ends hb hs hr hg hi).mono (fun change t h => ?_) fun _ h => h
  obtain ⟨hrun, hsuits, rfl, hwait⟩ := h
  exact ⟨hrun, hsuits, hindex, hwait⟩

/-- Checking the inputs for fields that are looked up gives changes for these fields. -/
theorem stageFields_ends {fields : Fields} (hb : Sound given build) (hs : s.Linked) (hr : s.NamesGiven)
    (hg : ∀ x, given x → s.Has x) (hn : ∀ x, NamedIn fields x → given x) (he : s.Has e) :
    Ends (stageFields build e fields)
      (fun changes t => ∃ indices, fields.keys.mapM (s.fieldIndex e) = .ok indices ∧ Staged given e s t indices changes)
      (Run (.since s.entities.size given) s) s := by
  refine ends_bind_read .refl fun indices hindices =>
    (stageAll_ends hb hs hr hg (names_of_mem_zip hn) he).mono (fun changes t h => ⟨indices, hindices, ?_⟩) fun _ h => h
  refine ⟨h.run, h.suits, fun change hc => ?_, h.waiting⟩
  obtain ⟨i, hmem, hix⟩ := List.mem_map.mp (h.index change hc)
  exact hix ▸ (List.of_mem_zip hmem).1

/-- The slots of staged changes may be written if those of the fields may that are given. -/
theorem Staged.opens {fields : Fields} {indices : List Nat} {changes : List Change}
    (h : Staged given e s t indices changes) (hindices : fields.keys.mapM (s.fieldIndex e) = .ok indices)
    (hσ : (Scope.since s.entities.size given).Within σ)
    (ho : ∀ key ∈ fields.keys, ∀ i, s.fieldIndex e key = .ok i → σ.Opens s e i) :
    ∀ change ∈ changes, σ.Opens t e change.index := fun change hc => by
  obtain ⟨key, hkey, hf⟩ := mapM_ok_mem hindices _ (h.index change hc)
  exact (ho key hkey _ hf).run (h.run.mono hσ)

/-- Hydrating fails before it writes, or writes the slots of the fields that are given. -/
theorem updateWith_ends {fields : Fields} (hb : Sound given build) (hs : s.Linked) (hr : s.NamesGiven)
    (hg : ∀ x, given x → s.Has x ∧ σ.moves x) (hn : ∀ x, NamedIn fields x → given x) (he : s.Has e)
    (ho : ∀ key ∈ fields.keys, ∀ i, s.fieldIndex e key = .ok i → σ.Opens s e i)
    (hw : ∀ d, s.entities.size ≤ d.owner.index → σ.writes d) (hm : ∀ y, s.entities.size ≤ y.index → σ.moves y) :
    Ends (updateWith build e fields) (fun _ t => Run σ s t) (Run (.since s.entities.size given) s) s := by
  refine ends_bind (stageFields_ends hb hs hr (fun x hx => (hg x hx).1) hn he) fun changes t _ h => ends_apply ?_
  obtain ⟨indices, hindices, hstaged⟩ := h
  have hwithin : (Scope.since s.entities.size given).Within σ :=
    ⟨hw, fun y hy => hy.elim (fun h => hm y (Nat.le_of_lt h)) fun h => (hg y h).2, fun _ => False.elim⟩
  have hrun := hstaged.run
  exact (hrun.mono hwithin).trans (commitAll_run (hrun.linked hs) (hrun.has he) (hstaged.opens hindices hwithin ho)
    hstaged.suits hrun.size_le he (fun x hx => ⟨(hg x hx).2, (hg x hx).1⟩) hw hm hstaged.waiting)

theorem Scope.opens_since {n i : Nat} (hn : e.index = n) (hg : ¬ given e) (hp : s.parent e = none) :
    (Scope.since n given).Opens s e i :=
  ⟨Nat.le_of_eq hn.symm, .inr ⟨Scope.not_moves_since (Nat.le_of_eq hn) hg, hp⟩⟩

theorem freshSlot_fits (field : FieldSchema) (m : ModelId) : (freshSlot field).Fits s m := by
  unfold freshSlot
  split
  · exact fun e he => absurd he List.not_mem_nil
  · trivial
  · trivial

theorem freshSlot_valued (field : FieldSchema) : (freshSlot field).Valued (some field) := by
  unfold freshSlot
  split
  · trivial
  · trivial
  · cases hdefault : field.default? with
    | none => trivial
    | some v =>
        intro _ hfield
        cases hfield
        exact .inl hdefault

/-- A new entity has the slots of its model, and belongs to nothing. -/
theorem create_run (s : Store) (m : ModelId) : Run σ s (s.create m).1 := by
  have hfits : Entity.Fits s ⟨m, (s.schema m).fields.map freshSlot, none⟩ := by
    have hslot : ∀ i, ((s.schema m).fields.map freshSlot).getD i (.scalar none) =
        ((s.schema m).fields[i]?.map freshSlot).getD (.scalar none) := fun i => by
      rw [List.getD_eq_getElem?_getD, List.getElem?_map]
    refine ⟨by simp, fun i => ?_, fun i => ?_⟩
    · rw [hslot]
      cases (s.schema m).fields[i]? with
      | none => trivial
      | some field => exact freshSlot_fits field _
    · rw [hslot]
      cases (s.schema m).fields[i]? with
      | none => trivial
      | some field => exact freshSlot_valued field
  rw [create_eq]
  refine .single (.push rfl (fun slot hslot => ?_) hfits)
  obtain ⟨field, _, rfl⟩ := List.mem_map.mp hslot
  exact slotMembers_freshSlot field

/-- Building to any depth guarantees what a builder must. -/
theorem buildWithin_sound (fuel : Nat) : Sound given (buildWithin fuel) := by
  induction fuel with
  | zero =>
      intro s m positional fields _ _ _ _
      exact ends_bind_store (ends_throw .refl)
  | succ fuel ih =>
      intro s m positional fields hs hr hg hn
      refine ends_bind_read .refl fun prepared hp => ends_bind_change ?_
      have hcreate : Run (.since s.entities.size given) s (s.create m).1 := create_run s m
      have hsize : (s.create m).1.entities.size = s.entities.size + 1 := by simp [create]
      have hhas : (s.create m).1.Has ⟨s.entities.size⟩ := by simp [Has, hsize]
      have hnew : ¬ given ⟨s.entities.size⟩ := fun h => Nat.lt_irrefl _ (hg _ h)
      have hnone : (s.create m).1.parent ⟨s.entities.size⟩ = none :=
        hcreate.parent_none (Scope.not_moves_since (Nat.le_refl _) hnew) (parent_of_not_has (by simp [Has]))
      have hgiven : ∀ x, given x → (s.create m).1.Has x ∧ (Scope.since s.entities.size given).moves x :=
        fun x hx => ⟨hcreate.has (hg x hx), .inr hx⟩
      have hupdate : Ends (updateWith (buildWithin fuel) ⟨s.entities.size⟩ prepared)
          (fun _ t => Run (.since s.entities.size given) (s.create m).1 t)
          (Run (.since s.entities.size given) s) (s.create m).1 := by
        refine (updateWith_ends ih (hcreate.linked hs) (hr.run hcreate) hgiven
          (fun x hx => hn x (prepare_names hr hp x hx)) hhas (fun _ _ i _ => Scope.opens_since rfl hnew hnone)
          (fun d hd => ?_) fun y hy => ?_).mono (fun _ _ h => h) fun t ht => ?_
        · rw [hsize] at hd
          exact Nat.le_of_succ_le hd
        · rw [hsize] at hy
          exact .inl hy
        · exact hcreate.trans (ht.mono (Scope.since_within (by simp [hsize])))
      have hmodel : (s.create m).1.model ⟨s.entities.size⟩ = m := by simp [create, model, entity]
      exact ends_bind hupdate fun _ t _ ht =>
        ends_pure ⟨hcreate.trans ht, rfl, ht.has hhas, (ht.model hhas).trans hmodel⟩

theorem buildTo_sound (limit : List Registry → Nat) : Sound given (buildTo limit) :=
  fun hs hr hg hn => ends_bind_store (buildWithin_sound _ hs hr hg hn)

theorem builderFor_sound (inputs : List Input) : Sound given (builderFor inputs) := buildTo_sound _

end Store

end MonitorExport
