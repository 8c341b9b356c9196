import MonitorExport.Proofs.Store.Distinctness
import MonitorExport.Proofs.Store.Ownership
import MonitorExport.Proofs.Store.Values

/-!
# Hydrating

A field that is hydrated holds what its input asks for. The changes of a step are staged in one store and written in
later ones, each in the slot of its own field, so that none of them undoes another one, even if one entity is given for
several fields.
-/

namespace MonitorExport

/-- What is related to the keys of pairs, and to these together with the values, is related to the pairs. -/
theorem forall₂_of_zip {α β γ δ : Type} {R : α → γ → Prop} {S : γ × β → δ → Prop} {pairs : List (α × β)} {ks : List γ}
    {ds : List δ} (hk : List.Forall₂ R (pairs.map (·.1)) ks) (hd : List.Forall₂ S (ks.zip (pairs.map (·.2))) ds) :
    List.Forall₂ (fun pair d => ∃ k, R pair.1 k ∧ S (k, pair.2) d) pairs ds := by
  induction pairs generalizing ks ds with
  | nil =>
      cases hk
      cases hd
      exact .nil
  | cons pair pairs ih =>
      obtain _ | ⟨hr, hk⟩ := hk
      obtain _ | ⟨hs, hd⟩ := hd
      exact .cons ⟨_, hr, hs⟩ (ih hk hd)

/-- What the input for a scalar field has it store: nothing, or what its validators make of a value. -/
inductive FieldSchema.Coerces (field : FieldSchema) : Input → Option Value → Prop
  | null : Coerces field .null none
  | value {v w : Value} (h : Validator.runChain field.validators v = .ok w) : Coerces field (.value v) (some w)

/-- What the input for a reference to a model binds it to: nothing, an entity of the model, or a literal identity. -/
inductive Store.Binds (s : Store) (target : ModelId) : Input → Binding → Prop
  | null : Binds s target .null .unbound
  | entity {x : EntityId} (h : s.isA (s.model x) target = true) : Binds s target (.entity x) (.entity x)
  | literal (pairs : List (String × Value)) :
      Binds s target (.mapping ⟨pairs.map fun pair => (pair.1, .value pair.2)⟩) (.literal (.ofList pairs))

/-- Whether a change is for a field, and writes what an input asks for. -/
def Change.Answers (s : Store) (e : EntityId) (index : Nat) (input : Input) : Change → Prop
  | .scalar i stored => i = index ∧ ∀ field, s.field? e index = some field → field.Coerces input stored
  | .members i _ => i = index
  | .bind i bound => i = index ∧ s.Binds (s.target e index) input bound

theorem Change.Answers.index_eq {s : Store} {e : EntityId} {index : Nat} {input : Input} {change : Change}
    (h : change.Answers s e index input) : change.index = index := by
  cases change with
  | scalar => exact h.1
  | members => exact h
  | bind => exact h.1

/-- Whether a later store has what a change writes: a value or a binding, or more members behind those that were. -/
def Change.Done (s t : Store) (e : EntityId) : Change → Prop
  | .scalar i stored => t.slot e i = .scalar stored
  | .members i _ => ∃ old more, s.slot e i = .members old ∧ t.slot e i = .members (old ++ more)
  | .bind i bound => t.slot e i = .binding bound

theorem Change.Done.congr {s s' t t' : Store} {e : EntityId} {change : Change} (h : change.Done s t e)
    (hs : s'.slot e change.index = s.slot e change.index) (ht : t'.slot e change.index = t.slot e change.index) :
    change.Done s' t' e := by
  cases change with
  | scalar i stored => exact ht.trans h
  | members i xs =>
      obtain ⟨old, more, hold, hmore⟩ := h
      exact ⟨old, more, hs.trans hold, ht.trans hmore⟩
  | bind i bound => exact ht.trans h

namespace Store

open Edit

variable {s t u : Store} {e x : EntityId} {index n : Nat} {input : Input} {given : EntityId → Prop} {build : Builder}
  {fields : Fields} {change : Change} {changes : List Change} {ys : List EntityId}

/-! ## Inputs -/

theorem coerceScalar_coerces {field : FieldSchema} {stored : Option Value} (hf : s.field? e index = some field)
    (h : s.coerceScalar e index input = .ok stored) : field.Coerces input stored := by
  cases input with
  | null =>
      cases h
      exact .null
  | value v =>
      simp only [coerceScalar, hf, Option.map_some, Option.getD_some] at h
      split at h
      · next w hw =>
        cases h
        exact .value hw
      · cases h
  | entity x => cases h
  | list items => cases h
  | mapping fields => cases h

theorem coerceBinding_binds {bound : Binding} (h : s.coerceBinding e index input = .ok bound) :
    s.Binds (s.target e index) input bound := by
  cases input with
  | null =>
      cases h
      exact .null
  | entity x =>
      simp only [coerceBinding] at h
      split at h
      · next hisA =>
        cases h
        exact .entity hisA
      · cases h
  | mapping fields =>
      obtain ⟨l⟩ := fields
      simp only [coerceBinding] at h
      cases hlit : literal _ s l .empty with
      | error reason =>
          rw [hlit] at h
          cases h
      | ok identity =>
          rw [hlit] at h
          cases h
          obtain ⟨pairs, rfl, rfl⟩ := literal_eq hlit
          exact .literal pairs
  | value v => cases h
  | list items => cases h

/-! ## Staging -/

theorem stage_answers : Ends (stage build e index input) (fun change _ => change.Answers s e index input)
    (fun _ => True) s := by
  unfold stage
  refine ends_bind_store ?_
  split
  · exact ends_bind_read trivial fun stored h => ends_pure ⟨rfl, fun field hf => coerceScalar_coerces hf h⟩
  · exact ends_bind (ends_trivial _ s) fun xs t _ _ => ends_pure rfl
  · exact ends_bind_read trivial fun bound h => ends_pure ⟨rfl, coerceBinding_binds h⟩

/-- What answers an input in a later store answered it before. -/
theorem Extends.answers (h : s.Extends t) (he : s.Has e) (hn : ∀ x, input.Names x → s.Has x)
    (ha : change.Answers t e index input) : change.Answers s e index input := by
  cases change with
  | scalar i stored => exact ⟨ha.1, fun field hf => ha.2 field ((h.field? he index).trans hf)⟩
  | members i xs => exact ha
  | bind i bound =>
      obtain ⟨hi, hbinds⟩ := ha
      rw [h.target he] at hbinds
      refine ⟨hi, ?_⟩
      cases hbinds with
      | null => exact .null
      | @entity x hisA =>
          rw [isA, h.schema, h.model (hn x .entity), ← isA] at hisA
          exact .entity hisA
      | literal pairs => exact .literal pairs

theorem stageAll_answers {items : List (Nat × Input)} (hb : Sound given build) (hs : s.Linked) (hr : s.NamesGiven)
    (hg : ∀ x, given x → s.Has x) (hi : ∀ i ∈ items, ∀ x, i.2.Names x → given x) (he : s.Has e) :
    Ends (items.mapM fun (index, input) => stage build e index input)
      (fun changes t => Run (.since s.entities.size given) s t ∧
        List.Forall₂ (fun i change => change.Answers s e i.1 i.2) items changes)
      (Run (.since s.entities.size given) s) s := by
  refine ends_mapM_each items (fun i hmem t h => ?_) .refl
  have hmono : ∀ {u}, Run (.since t.entities.size given) t u → Run (.since s.entities.size given) s u :=
    fun hu => h.trans (hu.mono (Scope.since_within h.size_le))
  have hhas : ∀ x, given x → t.Has x := fun x hx => h.has (hg x hx)
  refine ((stage_ends hb (h.linked hs) (hr.run h) hhas (hi i hmem)).and stage_answers).mono
    (fun change u hu => ⟨hmono hu.1.1, ?_⟩) fun u hu => hmono hu
  exact h.later.answers he (fun x hx => hg x (hi i hmem x hx)) hu.2

/-! ## Writing -/

/-- The scope of hydrating an entity: the slots of some of its fields, and what is made from `n` on. -/
def Scope.hydrating (n : Nat) (given : EntityId → Prop) (e : EntityId) (indices : List Nat) : Scope where
  writes d := n ≤ d.owner.index ∨ d.owner = e ∧ d.field ∈ indices
  moves y := n ≤ y.index ∨ given y
  outer d := d.owner = e ∧ d.field ∈ indices

theorem Scope.hydrating_within {indices indices' : List Nat} (h : indices ⊆ indices') :
    (Scope.hydrating n given e indices).Within (.hydrating n given e indices') :=
  ⟨fun _ hd => hd.imp_right fun hd => ⟨hd.1, h hd.2⟩, fun _ => id, fun _ hd => ⟨hd.1, h hd.2⟩⟩

/-- Changes that wait to be written one after the other, each for another field. -/
structure Pending (given : EntityId → Prop) (n : Nat) (e : EntityId) (s : Store) (changes : List Change) : Prop where
  has : s.Has e
  suits : ∀ change ∈ changes, change.Suits s e given
  places : ∀ change ∈ changes, change.index < (s.schemaOf e).fields.length
  distinct : (changes.map Change.index).Nodup
  size : n ≤ s.entities.size
  older : e.index < n
  given : ∀ x, given x → x.index < n
  waiting : Waiting s n (changes.flatMap Change.made)

namespace Pending

/-- Writing the first change writes no other field, and leaves the other changes waiting. -/
theorem commit (hs : s.Linked) (h : Pending given n e s (change :: changes)) :
    Run (.hydrating n given e [change.index]) s (s.commit e false change) ∧ change.Done s (s.commit e false change) e ∧
      Pending given n e (s.commit e false change) changes := by
  have hopen : (Scope.hydrating n given e [change.index]).Opens s e change.index :=
    ⟨.inr ⟨rfl, List.mem_singleton_self _⟩, .inl ⟨rfl, List.mem_singleton_self _⟩⟩
  have hsuits := h.suits change (by simp)
  have hgiven : ∀ x, given x → (Scope.hydrating n given e [change.index]).moves x ∧ x.index < n :=
    fun x hx => ⟨.inr hx, h.given x hx⟩
  have hwaiting : Waiting s n (change.made ++ changes.flatMap Change.made) := by simpa using h.waiting
  obtain ⟨hrun, hwait⟩ : Run (.hydrating n given e [change.index]) s (s.commit e false change) ∧
      Waiting (s.commit e false change) n (changes.flatMap Change.made) :=
    commit_run hs hopen hsuits h.size h.older hgiven (fun _ => .inl) (fun _ => .inl) hwaiting
  have hschema := hrun.later.schemaOf h.has
  refine ⟨hrun, ?_, hrun.has h.has, fun d hd => ?_, fun d hd => ?_, ?_, Nat.le_trans h.size hrun.size_le, h.older,
    h.given, hwait⟩
  · have hlt : change.index < (s.entity e).slots.length := by
      rw [hs.typed.length_slots h.has]
      exact h.places change (by simp)
    cases change with
    | scalar i stored => exact slot_setSlot.trans (if_pos ⟨rfl, rfl, hlt⟩)
    | bind i bound => exact slot_setSlot.trans (if_pos ⟨rfl, rfl, hlt⟩)
    | members i xs =>
        obtain ⟨old, hold⟩ := Slot.exists_members hsuits.1
        obtain ⟨new, hnew⟩ := Slot.exists_members (hrun.isCollection hs hsuits.1)
        obtain ⟨_, hpre, _⟩ := insertStaged_run hs hopen hsuits h.size h.older hgiven (fun _ => .inl) (fun _ => .inl)
          hwaiting
        change s.members ⟨e, i⟩ <+: (s.commit e false (.members i xs)).members ⟨e, i⟩ at hpre
        rw [members_eq, members_eq, hold, hnew] at hpre
        obtain ⟨more, rfl⟩ := hpre
        exact ⟨old, more, hold, hnew⟩
  · exact Change.Suits.run (h.suits d (by simp [hd])) hs hrun h.has
  · rw [hschema]
    exact h.places d (by simp [hd])
  · exact (List.nodup_cons.mp h.distinct).2

/-- All changes are there in the end: each is written in a slot that no other one writes. -/
theorem commitAll (hs : s.Linked) (h : Pending given n e s changes) :
    Run (.hydrating n given e (changes.map Change.index)) s (s.commitAll e changes) ∧
      ∀ change ∈ changes, change.Done s (s.commitAll e changes) e := by
  induction changes generalizing s with
  | nil => exact ⟨.refl, by simp⟩
  | cons first rest ih =>
      obtain ⟨hrun, hdone, hrest⟩ := h.commit hs
      obtain ⟨hruns, hdones⟩ := ih (hrun.linked hs) hrest
      have hnot : first.index ∉ rest.map Change.index := (List.nodup_cons.mp h.distinct).1
      have hold : ∀ {i : Nat} {indices : List Nat}, i ∉ indices → ¬ (Scope.hydrating n given e indices).writes ⟨e, i⟩ :=
        fun hi => not_or.mpr ⟨Nat.not_le.mpr h.older, fun hd => hi hd.2⟩
      refine ⟨(hrun.mono (Scope.hydrating_within (by simp))).trans (hruns.mono (Scope.hydrating_within (by simp))),
        fun d hd => ?_⟩
      rcases List.mem_cons.mp hd with rfl | hd
      · exact hdone.congr rfl (hruns.slot hrest.has (hold hnot))
      · have hne : d.index ∉ [first.index] := fun he =>
          hnot (List.mem_singleton.mp he ▸ List.mem_map_of_mem hd)
        exact (hdones d hd).congr (hrun.slot h.has (hold hne)).symm rfl

end Pending

/-! ## Hydrating -/

/-- Whether a field holds in a later store what an input asks for: a value, more members behind those that it had, or a
binding. -/
def Hydrated (s t : Store) (e : EntityId) (index : Nat) (input : Input) : Prop :=
  match s.slot e index with
  | .scalar _ => ∃ field stored, s.field? e index = some field ∧ field.Coerces input stored ∧
      t.slot e index = .scalar stored
  | .members old => ∃ more, t.slot e index = .members (old ++ more)
  | .binding _ => ∃ bound, s.Binds (s.target e index) input bound ∧ t.slot e index = .binding bound

/-- A change that suits the slot that was there, answers an input and is done has the field hydrated. -/
theorem hydrated_of_done (hi : index < (s.schemaOf e).fields.length) (ha : change.Answers s e index input)
    (hslot : u.slot e index = s.slot e index) (hf : change.Suits u e given) (hd : change.Done s t e) :
    s.Hydrated t e index input := by
  unfold Hydrated
  cases change with
  | scalar i stored =>
      obtain ⟨rfl, hcoerces⟩ := ha
      obtain ⟨_, hold⟩ := Slot.exists_scalar hf.1
      have hfield : s.field? e i = some (s.schemaOf e).fields[i] := List.getElem?_eq_getElem hi
      rw [← hslot, hold]
      exact ⟨_, stored, hfield, hcoerces _ hfield, hd⟩
  | members i xs =>
      cases ha
      obtain ⟨old, more, hold, hmore⟩ := hd
      rw [hold]
      exact ⟨more, hmore⟩
  | bind i bound =>
      obtain ⟨rfl, hbinds⟩ := ha
      obtain ⟨_, hold⟩ := Slot.exists_binding hf.1
      rw [← hslot, hold]
      exact ⟨bound, hbinds, hd⟩

theorem updateWith_hydrates (hb : Sound given build) (hs : s.Linked) (hr : s.NamesGiven) (hg : ∀ x, given x → s.Has x)
    (hn : ∀ x, NamedIn fields x → given x) (he : s.Has e) (hkeys : fields.keys.Nodup) :
    Ends (updateWith build e fields)
      (fun _ t => ∀ pair ∈ fields.pairs, ∃ i, s.fieldIndex e pair.1 = .ok i ∧ s.Hydrated t e i pair.2)
      (fun _ => True) s := by
  unfold updateWith stageFields
  rw [bind_assoc]
  refine ends_bind_read trivial fun indices hindices => ?_
  have hi : ∀ i ∈ indices.zip (fields.pairs.map (·.2)), ∀ x, i.2.Names x → given x := names_of_mem_zip hn
  have hstage := (stageAll_ends hb hs hr hg hi he).and (stageAll_answers hb hs hr hg hi he)
  refine ends_bind (hstage.mono (fun _ _ h => h) fun _ _ => trivial) fun changes u _ ⟨hstaged, _, hanswers⟩ =>
    ends_apply ?_
  have hrun := hstaged.run
  have hanswered : List.Forall₂ (fun pair change => ∃ i, s.fieldIndex e pair.1 = .ok i ∧
      change.Answers s e i pair.2) fields.pairs changes := forall₂_of_zip (forall₂_of_mapM_ok hindices) hanswers
  have hlt : ∀ {key i}, s.fieldIndex e key = .ok i → i < (s.schemaOf e).fields.length :=
    fun h => ModelSchema.fieldIndex?_lt (fieldIndex_ok_iff.mp h)
  have hpending : Pending given s.entities.size e u changes := by
    refine ⟨hrun.has he, hstaged.suits, fun change hc => ?_, ?_, hrun.size_le, he, hg, hstaged.waiting⟩
    · obtain ⟨pair, _, i, hindex, ha⟩ := exists_of_forall₂ hanswered hc
      rw [hrun.later.schemaOf he, ha.index_eq]
      exact hlt hindex
    -- distinct keys are the names of distinct fields
    · have hnames : List.Forall₂ (· = ·) fields.keys ((changes.map Change.index).map (s.fieldName e)) := by
        rw [Entries.keys, List.map_map, List.forall₂_map_left_iff, List.forall₂_map_right_iff]
        refine hanswered.imp fun pair change h => ?_
        obtain ⟨i, hindex, ha⟩ := h
        rw [Function.comp_apply, ha.index_eq, fieldName_of_fieldIndex hindex]
      rw [List.forall₂_eq_eq_eq] at hnames
      exact List.Nodup.of_map _ (hnames ▸ hkeys)
  obtain ⟨_, hdones⟩ := hpending.commitAll (hrun.linked hs)
  intro pair hpair
  obtain ⟨change, hc, i, hindex, ha⟩ := exists_of_forall₂ hanswered.flip hpair
  have hslot : u.slot e i = s.slot e i := hrun.slot he (Nat.not_le.mpr he)
  refine ⟨i, hindex, hydrated_of_done (hlt hindex) ha hslot (hstaged.suits change hc) ?_⟩
  exact (hdones change hc).congr (by rw [ha.index_eq, hslot]) rfl

/-- Hydrating an entity has each field that is named hold what its input asks for, and changes no other field, neither
of that entity nor of any other one that was there, however deep the members are built that nest. -/
theorem update_hydrates (limit : List Registry → Nat) (h : Reachable s) (he : s.Has e) (hkeys : fields.keys.Nodup)
    (hn : ∀ x, NamedIn fields x → s.Has x) (hok : updateTo limit e fields s = (.ok (), t)) :
    (∀ pair ∈ fields.pairs, ∃ i, s.fieldIndex e pair.1 = .ok i ∧ s.Hydrated t e i pair.2) ∧
      (∀ i, (∀ key ∈ fields.keys, s.fieldIndex e key ≠ .ok i) → t.slot e i = s.slot e i) ∧
      ∀ x, s.Has x → x ≠ e → ∀ i, t.slot x i = s.slot x i := by
  have hs := h.linked
  have hr := h.namesGiven
  have hends := updateWith_hydrates (buildTo_sound limit) hs hr hn (fun _ => id) he hkeys
  have hv : (Operation.update e fields).Valid s := ⟨he, hn⟩
  have hrun : Run ((Operation.update e fields).scope s) s t :=
    (updateTo_ends hs hr (Operation.scope_hosts hv.names) (fun _ => id) he fun key hkey i hi =>
      Operation.scope_opens ⟨rfl, key, hkey, hi⟩).ok hok
  refine ⟨(ends_orRelease hends fun _ _ => trivial : Ends (updateTo limit e fields) _ (fun _ => True) s).ok hok,
    fun i hi => ?_, fun x hx hne i => ?_⟩
  · exact hrun.slot he (Operation.not_writes he fun ⟨_, key, hkey, hindex⟩ => hi key hkey hindex)
  · exact hrun.slot hx (Operation.not_writes hx fun ht => hne ht.1)

/-! ## A second shelf -/

/-- Makes a shelf with a new book. -/
def makeSecondShelf : Operation :=
  .build ⟨0, 0⟩ .null ⟨[("width", .text "4"), ("books", .mapping .empty)]⟩

def twoShelves : Store := (makeSecondShelf.step shelf).2

theorem twoShelves_reachable : Reachable twoShelves := by
  refine shelf_reachable.step (Operation.build_valid fun x hx => ?_) trivial
  simp [namedIn_iff, Input.text, not_names_value, names_mapping_iff, Entries.empty] at hx

/-- A width, and the novel of the first shelf as a book and as the favourite. -/
def novelTwice : Fields := .ofList [("favourite", .entity ⟨0⟩), ("books", .entity ⟨0⟩), ("width", .text "2")]

theorem twoShelves_hydrates : ∃ t, update ⟨2⟩ novelTwice twoShelves = (.ok (), t) ∧
    twoShelves.members ⟨⟨2⟩, 1⟩ = [⟨3⟩] ∧ t.members ⟨⟨2⟩, 1⟩ = [⟨3⟩, ⟨4⟩] ∧
    (∀ pair ∈ novelTwice.pairs, ∃ i, twoShelves.fieldIndex ⟨2⟩ pair.1 = .ok i ∧ twoShelves.Hydrated t ⟨2⟩ i pair.2) ∧
    (∀ i, (∀ key ∈ novelTwice.keys, twoShelves.fieldIndex ⟨2⟩ key ≠ .ok i) → t.slot ⟨2⟩ i = twoShelves.slot ⟨2⟩ i) ∧
    ∀ x, twoShelves.Has x → x ≠ ⟨2⟩ → ∀ i, t.slot x i = twoShelves.slot x i := by
  have hok : (update ⟨2⟩ novelTwice twoShelves).1.isOk = true := by decide
  have hmembers : (update ⟨2⟩ novelTwice twoShelves).2.members ⟨⟨2⟩, 1⟩ = [⟨3⟩, ⟨4⟩] := by decide
  have hn : ∀ x, NamedIn novelTwice x → twoShelves.Has x := fun x hx => by
    have hx : x = ⟨0⟩ := by
      simpa [novelTwice, Entries.ofList, Entries.insert, Entries.insertPair, Entries.empty, namedIn_iff, Input.text,
        not_names_value, names_entity_iff] using hx
    rw [hx]
    decide
  rcases hupdate : update ⟨2⟩ novelTwice twoShelves with ⟨_ | _, t⟩
  · rw [hupdate] at hok
    cases hok
  · rw [hupdate] at hmembers
    exact ⟨t, rfl, by decide, hmembers,
      update_hydrates _ twoShelves_reachable (by decide) (Entries.nodup_keys_ofList _) hn hupdate⟩

end Store

end MonitorExport
