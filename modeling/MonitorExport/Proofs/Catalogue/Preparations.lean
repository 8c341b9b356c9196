import MonitorExport.Catalogue.Standard
import MonitorExport.Proofs.Store.Naming

/-!
# Preparations of the catalogue

The preparations of the standard models fill in, rename and replace fields. They name no entity that is
not named in the fields that they get, and ask about no other.
-/

namespace MonitorExport

variable {fields fields' : Fields} {e : EntityId} {view view' : EntityView} {key : String} {input : Input}

theorem NamedIn.setDefault_value {key : String} {v : Value} (h : NamedIn (fields.setDefault key (.value v)) e) :
    NamedIn fields e :=
  h.setDefault.resolve_left not_names_value

theorem EntityView.Agree.of_get? (h : view.Agree view' (NamedIn fields)) (hget : fields.get? key = some input) :
    view.Agree view' input.Names := fun e he => h e (.of_get? hget he)

theorem Preparation.fillFrom_namesGiven (source target : String) : (fillFrom source target).NamesGiven := by
  intro view fields fields' h e he
  unfold fillFrom at h
  split at h
  · next input hget =>
    cases h
    exact he.setDefault.elim (NamedIn.of_get? hget) id
  · cases h
    exact he

theorem Preparation.fillFrom_asksGiven (source target : String) : (fillFrom source target).AsksGiven := fun _ _ _ _ => rfl

theorem Preparation.takeAlias_asksGiven (name field : String) : (takeAlias name field).AsksGiven := fun _ _ _ _ => rfl

theorem Preparation.takeAlias_namesGiven (name field : String) : (takeAlias name field).NamesGiven := by
  intro view fields fields' h e he
  unfold takeAlias at h
  split at h
  · cases h
    exact he
  · cases h
    exact he.erase
  · next input _ hget =>
    cases h
    exact he.insert.elim (NamedIn.of_get? hget) NamedIn.erase

namespace Address

theorem portInput_names {port : Option (List Char)} {input : Input} (h : portInput port = .ok input) :
    ¬ input.Names e := by
  unfold portInput at h
  split at h
  · cases h
    exact not_names_value
  · split at h
    · cases h
      exact not_names_value
    · cases h

theorem expandText_names {address : String} (h : expandText address fields = .ok fields') (he : NamedIn fields' e) :
    NamedIn fields e := by
  unfold expandText at h
  obtain ⟨port, hp, h⟩ := bind_eq_ok h
  cases h
  exact (he.setDefault_value.setDefault.resolve_left (portInput_names hp)).setDefault_value.setDefault_value

theorem expand_namesGiven : Preparation.NamesGiven expand := by
  intro view fields fields' h e he
  unfold expand at h
  dsimp only at h
  split at h
  · cases h
    exact he.erase
  · exact (expandText_names h he).erase
  · exact (expandText_names h he).erase
  · cases h

theorem expand_asksGiven : Preparation.AsksGiven expand := by
  intro view view' fields h
  unfold expand
  cases hget : fields.get? "ident" with
  | none => rfl
  | some input =>
      have hinput : view.describeInput input = view'.describeInput input := (h.of_get? hget).describeInput
      cases input with
      | entity e => exact congrArg (fun text => Except.error (failure (.notAddress text))) hinput
      | _ => rfl

end Address

namespace Aggregate

theorem buildKey_namesGiven : Preparation.NamesGiven buildKey := by
  intro view fields fields' h e he
  unfold buildKey at h
  obtain ⟨groups, _, h⟩ := bind_eq_ok h
  obtain ⟨groupFunction, _, h⟩ := bind_eq_ok h
  obtain ⟨itemFunction, _, h⟩ := bind_eq_ok h
  obtain ⟨period, _, h⟩ := bind_eq_ok h
  obtain ⟨key, _, h⟩ := bind_eq_ok h
  cases h
  have hin := he.setDefault_value.setDefault_value.insert.resolve_left not_names_value
  exact hin.erase.erase.erase.erase.erase

theorem textOf_congr (h : view.Agree view' (NamedIn fields)) (key : String) :
    textOf view fields key = textOf view' fields key := by
  unfold textOf
  cases hget : fields.get? key with
  | none => rfl
  | some input =>
      have hinput : view.describeInput input = view'.describeInput input := (h.of_get? hget).describeInput
      cases input with
      | entity e => exact congrArg (fun text => Except.error (failure key (.aggregateParameter "a value" text))) hinput
      | _ => rfl

theorem groupName_congr (h : view.Agree view' input.Names) : groupName view input = groupName view' input := by
  cases input with
  | entity e =>
      obtain ⟨hdescribe, hname⟩ := h e .entity
      unfold groupName
      dsimp only
      rw [hdescribe, hname]
  | value v => rfl
  | null => rfl
  | list items => rfl
  | mapping fields => rfl

theorem groupNames_congr {inputs : List Input} (h : ∀ i ∈ inputs, view.Agree view' i.Names) :
    inputs.mapM (groupName view) = inputs.mapM (groupName view') := by
  induction inputs with
  | nil => rfl
  | cons i inputs ih =>
      rw [List.mapM_cons, List.mapM_cons, groupName_congr (h i (List.mem_cons_self ..)),
        ih fun j hj => h j (List.mem_cons_of_mem _ hj)]

theorem groupsOf_congr (h : view.Agree view' (NamedIn fields)) : groupsOf view fields = groupsOf view' fields := by
  unfold groupsOf
  refine congrArg (Except.map _) (groupNames_congr fun i hi => ?_)
  cases hget : fields.get? "groups" with
  | none =>
      rw [hget] at hi
      exact absurd hi List.not_mem_nil
  | some input =>
      rw [hget] at hi
      have hinput := h.of_get? hget
      cases input with
      | null => exact absurd hi List.not_mem_nil
      | list items => exact fun e he => hinput e (.item hi he)
      | _ => exact List.mem_singleton.mp hi ▸ hinput

theorem periodOf_congr (h : view.Agree view' (NamedIn fields)) : periodOf view fields = periodOf view' fields := by
  unfold periodOf
  cases hget : fields.get? "timeperiod" with
  | none => rfl
  | some input =>
      have hinput : view.describeInput input = view'.describeInput input := (h.of_get? hget).describeInput
      cases input with
      | entity e =>
          exact congrArg (fun text => Except.error (failure "timeperiod" (.aggregateParameter "a period" text))) hinput
      | _ => rfl

theorem buildKey_asksGiven : Preparation.AsksGiven buildKey := by
  intro view view' fields h
  unfold buildKey
  rw [groupsOf_congr h, periodOf_congr h, textOf_congr h, textOf_congr h, textOf_congr h]

end Aggregate

namespace Catalogue

theorem numberFrom_preparation (start : Nat) (decls : List ModelDecl) :
    ∀ d ∈ ModelDecl.numberFrom start decls, ∃ d' ∈ decls, d.preparation = d'.preparation := by
  induction decls generalizing start with
  | nil => simp [ModelDecl.numberFrom]
  | cons decl rest ih =>
      intro d hd
      rcases List.mem_cons.mp hd with rfl | hd
      · exact ⟨decl, by simp, rfl⟩
      · obtain ⟨d', hmem, hp⟩ := ih _ d hd
        exact ⟨d', by simp [hmem], hp⟩

/-- What holds of the kinds of preparations that the standard models use holds of all their preparations. -/
theorem registry_prepared {P : Preparation → Prop} (hfill : ∀ source target, P (Preparation.fillFrom source target))
    (halias : ∀ name field, P (Preparation.takeAlias name field)) (hexpand : P Address.expand)
    (hkey : P Aggregate.buildKey) :
    ∀ m ∈ registry.models, ∀ p ∈ m.preparations, P p := by
  have without {d : ModelDecl} (h : d.preparation = none) : ∀ p, d.preparation = some p → P p := by
    simp [h]
  have having {d : ModelDecl} {q : Preparation} (h : d.preparation = some q) (hq : P q) :
      ∀ p, d.preparation = some p → P p := by
    intro p hp
    rw [h, Option.some.injEq] at hp
    exact hp ▸ hq
  have hdeclared : ∀ d ∈ declarations, ∀ p, d.preparation = some p → P p := by
    simp only [declarations, List.forall_mem_cons]
    exact ⟨without rfl, without rfl, without rfl, without rfl, having rfl (hfill _ _), having rfl (hfill _ _),
      having rfl hexpand, without rfl, without rfl, without rfl, having rfl hkey, without rfl, without rfl, without rfl,
      having rfl (halias _ _), without rfl, by simp⟩
  unfold registry
  cases h : standard with
  | error err => exact fun _ hm => absurd hm List.not_mem_nil
  | ok r =>
      refine Registry.ofDecls_prepared h fun d hd p hp => ?_
      obtain ⟨d', hmem, hpd⟩ := numberFrom_preparation 0 declarations d hd
      exact hdeclared d' hmem p (hpd ▸ hp)

/-- The preparations of the standard models name no entity that they are not given. -/
theorem registry_namesGiven : registry.NamesGiven :=
  registry_prepared Preparation.fillFrom_namesGiven Preparation.takeAlias_namesGiven Address.expand_namesGiven
    Aggregate.buildKey_namesGiven

/-- The preparations of the standard models ask about no entity that they are not given. -/
theorem registry_asksGiven : registry.AsksGiven :=
  registry_prepared Preparation.fillFrom_asksGiven Preparation.takeAlias_asksGiven Address.expand_asksGiven
    Aggregate.buildKey_asksGiven

end Catalogue

end MonitorExport
