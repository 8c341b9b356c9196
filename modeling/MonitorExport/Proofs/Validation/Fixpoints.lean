import MonitorExport.Proofs.Catalogue.Tables
import MonitorExport.Proofs.Decimal.Integers
import MonitorExport.Proofs.Store.Equality
import MonitorExport.Proofs.Store.Values

/-!
# Values that validation leaves alone

A table gives back the codes that it gives exactly if no label stands for a code that an earlier entry takes for its
own. Bounds give back every number that they let pass. A chain of tables and bounds gives back what it gave, if its
first table does and nothing in the chain turns the codes of that table into other values.
-/

namespace MonitorExport

/-- An integer below two to the 53 in magnitude. No other integer is loosely equal to it. -/
def Value.Exact : Value → Prop
  | .int n => n.natAbs < 2 ^ 53
  | _ => False

instance : DecidablePred Value.Exact
  | .int n => inferInstanceAs (Decidable (n.natAbs < 2 ^ 53))
  | .bool _ | .float _ | .text _ => isFalse id

theorem Value.Exact.eq_of_looseEq {code : Value} {n : Int} (h : code.Exact) (hn : (Value.int n).looseEq code = true) :
    code = .int n := by
  cases code with
  | int m => exact congrArg Value.int (Decimal.ofInt_inj_of_lt h (BEq.symm hn))
  | bool _ | float _ | text _ => exact h.elim

namespace Validator

variable {V : Validator} {choices : List Choice} {chain after : List Validator} {bounds : List Int} {u v w x code : Value}
  {c : Choice} {n : Int}

theorem runChain_cons (V : Validator) (chain : List Validator) (v : Value) :
    runChain (V :: chain) v = V.validate v >>= runChain chain := rfl

theorem runChain_append (before after : List Validator) (v : Value) :
    runChain (before ++ after) v = runChain before v >>= runChain after := List.foldlM_append

theorem runChain_singleton (V : Validator) (v : Value) : runChain [V] v = V.validate v := bind_pure _

/-- Whether a chain gives back all that it gives. -/
def Settles (chain : List Validator) : Prop := ∀ v w, runChain chain v = .ok w → runChain chain w = .ok w

/-! ## Tables -/

theorem accepts_congr (h : u.looseEq v = true) (c : Choice) : c.accepts u = c.accepts v := by
  rcases Value.looseEq_iff.mp h with ⟨_, _, hu, hv, _⟩ | ⟨s, rfl, rfl⟩
  · have hcode : u.looseEq c.code = v.looseEq c.code := Bool.eq_iff_iff.mpr
      ⟨fun hc => Value.looseEq_trans (Value.looseEq_symm h) hc, fun hc => Value.looseEq_trans h hc⟩
    have htext : ∀ {v : Value} {x : Float}, v.toNumber? = some x → v.text? = none := fun {v _} hx => by
      cases v <;> simp_all [Value.toNumber?, Value.text?]
    rw [Choice.accepts, Choice.accepts, hcode, htext hu, htext hv]
  · rfl

theorem validate_choice_eq_ok : (Validator.choice choices).validate v = .ok w ↔
    ∃ c, choices.find? (·.accepts v) = some c ∧ c.code = w := by
  rw [validate]
  cases choices.find? (·.accepts v) <;> simp

theorem validate_choice_congr (h : u.looseEq v = true) :
    (Validator.choice choices).validate u = .ok w ↔ (Validator.choice choices).validate v = .ok w := by
  have haccepts : (fun c : Choice => c.accepts u) = fun c => c.accepts v := funext (accepts_congr h)
  rw [validate_choice_eq_ok, validate_choice_eq_ok, haccepts]

theorem looseEq_or_label (h : choices.find? (·.accepts v) = some c) : v.looseEq c.code = true ∨ v = .text c.label := by
  have haccepts := List.find?_some h
  rw [Choice.accepts, Bool.or_eq_true] at haccepts
  refine haccepts.imp_right fun hlabel => ?_
  cases v <;> simp_all [Value.text?]

/-- The code that a label stands for stands for itself. -/
def Legible (choices : List Choice) : Prop :=
  ∀ c, choices.find? (·.accepts (.text c.label)) = some c → (Validator.choice choices).validate c.code = .ok c.code

theorem Legible.settled (h : Legible choices) (hv : (Validator.choice choices).validate v = .ok w) :
    (Validator.choice choices).validate w = .ok w := by
  obtain ⟨c, hc, rfl⟩ := validate_choice_eq_ok.mp hv
  rcases looseEq_or_label hc with hcode | rfl
  · exact (validate_choice_congr hcode).mp hv
  · exact h c hc

theorem settles_choice_iff : Settles [.choice choices] ↔ Legible choices := by
  unfold Settles
  simp only [runChain_singleton]
  exact ⟨fun h c hc => h _ _ (validate_choice_eq_ok.mpr ⟨c, hc, rfl⟩), fun h _ _ => h.settled⟩

/-! ## Bounds -/

theorem validate_min_int {bound : Int} :
    (Validator.min bound).validate (.int n) = .ok w ↔ w = .int n ∧ bound ≤ n := by
  rw [validate]
  by_cases hn : n < bound
  · simp [Value.toInt?, hn, Int.not_le.mpr hn]
  · simp [Value.toInt?, hn, Int.not_lt.mp hn, eq_comm]

theorem runChain_bounds_int :
    runChain (bounds.map .min) (.int n) = .ok w ↔ w = .int n ∧ ∀ bound ∈ bounds, bound ≤ n := by
  induction bounds with
  | nil =>
      show Except.ok (Value.int n) = .ok w ↔ _
      simp [eq_comm]
  | cons bound bounds ih =>
      rw [List.map_cons, runChain_cons, List.forall_mem_cons]
      constructor
      · intro h
        obtain ⟨x, hx, h⟩ := bind_eq_ok h
        obtain ⟨rfl, hn⟩ := validate_min_int.mp hx
        obtain ⟨rfl, hall⟩ := ih.mp h
        exact ⟨rfl, hn, hall⟩
      · rintro ⟨rfl, hn, hall⟩
        rw [validate_min_int.mpr ⟨rfl, hn⟩, ok_bind]
        exact ih.mpr ⟨rfl, hall⟩

theorem runChain_bounds (h : runChain (bounds.map .min) v = .ok w) :
    bounds = [] ∧ w = v ∨ ∃ n, w = .int n ∧ ∀ bound ∈ bounds, bound ≤ n := by
  cases bounds with
  | nil => exact .inl ⟨rfl, (Except.ok.inj h).symm⟩
  | cons bound bounds =>
      rw [List.map_cons, runChain_cons] at h
      obtain ⟨x, hx, h⟩ := bind_eq_ok h
      obtain ⟨n, rfl, hn⟩ := validate_min hx
      obtain ⟨rfl, hall⟩ := runChain_bounds_int.mp h
      exact .inr ⟨n, rfl, List.forall_mem_cons.mpr ⟨hn, hall⟩⟩

/-! ## Chains -/

/-- A table whose codes are no NaN, or a bound. -/
def Plain : Validator → Prop
  | .choice choices => ∀ c ∈ choices, c.code.looseEq c.code = true
  | .min _ => True
  | .custom _ _ => False

instance : DecidablePred Plain
  | .choice choices => inferInstanceAs (Decidable (∀ c ∈ choices, _ = true))
  | .min _ => isTrue trivial
  | .custom _ _ => isFalse id

/-- A validator takes all values loosely equal to a code to such values again, or refuses them all. -/
def Carries (V : Validator) (code : Value) : Prop :=
  (∀ u, u.looseEq code = true → ∃ w, V.validate u = .ok w ∧ w.looseEq code = true) ∨
    ∀ u, u.looseEq code = true → ∃ reason, V.validate u = .error reason

/-- The first table of a chain gives its own codes back, and the other validators keep the codes that it gives. -/
structure Coherent (chain : List Validator) : Prop where
  legible : ∀ choices after, chain = .choice choices :: after → Legible choices
  carried : ∀ (bounds : List Int) choices after, chain = bounds.map .min ++ .choice choices :: after → ∀ v x code,
    runChain (bounds.map .min) v = .ok x → (Validator.choice choices).validate x = .ok code →
      ∀ V ∈ bounds.map .min ++ after, V.Carries code

/-- A chain that starts with a legible table is coherent if the other validators keep its codes. -/
theorem coherent_cons (hlegible : Legible choices) (h : ∀ c ∈ choices, ∀ V ∈ after, V.Carries c.code) :
    Coherent (.choice choices :: after) where
  legible choices' after' he := by
    cases he
    exact hlegible
  carried bounds choices' after' he v x code _ hcode V hV := by
    cases bounds with
    | nil =>
        cases he
        obtain ⟨c, hc, rfl⟩ := validate_choice_eq_ok.mp hcode
        exact h c (List.mem_of_find?_eq_some hc) V hV
    | cons => cases he

/-- A table keeps a code if what it gives for the code is equal to it. -/
theorem carries_choice (h : ∀ w, (Validator.choice choices).validate code = .ok w → w.looseEq code = true) :
    (Validator.choice choices).Carries code := by
  cases hcode : (Validator.choice choices).validate code with
  | ok w => exact .inl fun u hu => ⟨w, (validate_choice_congr hu).mpr hcode, h w hcode⟩
  | error =>
      refine .inr fun u hu => ?_
      cases hv : (Validator.choice choices).validate u with
      | ok w =>
          rw [(validate_choice_congr hu).mp hv] at hcode
          cases hcode
      | error reason => exact ⟨reason, rfl⟩

theorem bounds_or_table (h : ∀ V ∈ chain, V.Plain) : (∃ bounds : List Int, chain = bounds.map .min) ∨
    ∃ (bounds : List Int) (choices : List Choice) (after : List Validator),
      chain = bounds.map .min ++ .choice choices :: after := by
  induction chain with
  | nil => exact .inl ⟨[], rfl⟩
  | cons V chain ih =>
      obtain ⟨hV, hchain⟩ := List.forall_mem_cons.mp h
      cases V with
      | choice choices => exact .inr ⟨[], choices, chain, rfl⟩
      | min bound =>
          rcases ih hchain with ⟨bounds, rfl⟩ | ⟨bounds, choices, after, rfl⟩
          · exact .inl ⟨bound :: bounds, rfl⟩
          · exact .inr ⟨bound :: bounds, choices, after, rfl⟩
      | custom => exact hV.elim

/-- A chain that keeps a code and accepts one value loosely equal to it takes every such value to such a value. -/
theorem runChain_carried (h : ∀ V ∈ chain, V.Carries code) (hu : u.looseEq code = true) (hw : runChain chain u = .ok w) :
    w.looseEq code = true ∧ ∀ v, v.looseEq code = true → ∃ x, runChain chain v = .ok x ∧ x.looseEq code = true := by
  induction chain generalizing u with
  | nil =>
      cases hw
      exact ⟨hu, fun v hv => ⟨v, rfl, hv⟩⟩
  | cons V chain ih =>
      obtain ⟨hV, hchain⟩ := List.forall_mem_cons.mp h
      rw [runChain_cons] at hw
      obtain ⟨y, hy, hw⟩ := bind_eq_ok hw
      rcases hV with htakes | hrefuses
      · obtain ⟨y', hy', hcode⟩ := htakes u hu
        cases hy.symm.trans hy'
        obtain ⟨hwcode, hall⟩ := ih hchain hcode hw
        refine ⟨hwcode, fun v hv => ?_⟩
        obtain ⟨z, hz, hzcode⟩ := htakes v hv
        obtain ⟨x, hx, hxcode⟩ := hall z hzcode
        exact ⟨x, by rw [runChain_cons, hz]; exact hx, hxcode⟩
      · obtain ⟨reason, hr⟩ := hrefuses u hu
        rw [hr] at hy
        cases hy

theorem Coherent.settles (h : Coherent chain) (hplain : ∀ V ∈ chain, V.Plain) : Settles chain := by
  intro v w hv
  rcases bounds_or_table hplain with ⟨bounds, rfl⟩ | ⟨bounds, choices, after, rfl⟩
  · rcases runChain_bounds hv with ⟨rfl, rfl⟩ | ⟨n, rfl, hn⟩
    · exact hv
    · exact runChain_bounds_int.mpr ⟨rfl, hn⟩
  · rw [runChain_append] at hv
    obtain ⟨x, hx, hv⟩ := bind_eq_ok hv
    rw [runChain_cons] at hv
    obtain ⟨code, hcode, hafter⟩ := bind_eq_ok hv
    have hcarried := h.carried bounds choices after rfl v x code hx hcode
    obtain ⟨hbounds, hcarries⟩ := List.forall_mem_append.mp hcarried
    obtain ⟨c, hc, rfl⟩ := validate_choice_eq_ok.mp hcode
    have hself : c.code.looseEq c.code = true :=
      hplain (.choice choices) (by simp) c (List.mem_of_find?_eq_some hc)
    have hw : w.looseEq c.code = true := (runChain_carried hcarries hself hafter).1
    -- Run on what it gave, the chain comes to its table with a value loosely equal to the code that the table gave.
    obtain ⟨y, hy, hycode⟩ : ∃ y, runChain (bounds.map .min) w = .ok y ∧
        (Validator.choice choices).validate y = .ok c.code := by
      rcases runChain_bounds hx with ⟨rfl, rfl⟩ | ⟨n, rfl, hn⟩
      · exact ⟨w, rfl, (validate_choice_congr hw).mpr ((h.legible choices after rfl).settled hcode)⟩
      · have hncode : (Value.int n).looseEq c.code = true := (looseEq_or_label hc).resolve_right nofun
        obtain ⟨y, hy, hycode⟩ := (runChain_carried hbounds hncode (runChain_bounds_int.mpr ⟨rfl, hn⟩)).2 w hw
        exact ⟨y, hy, (validate_choice_congr (Value.looseEq_trans hycode (Value.looseEq_symm hncode))).mpr hcode⟩
    rw [runChain_append, hy, ok_bind, runChain_cons, hycode]
    exact hafter

/-! ## Chains of exact codes -/

/-- A table of exact integers, or a bound. -/
def Exact : Validator → Prop
  | .choice choices => ∀ c ∈ choices, c.code.Exact
  | .min _ => True
  | .custom _ _ => False

instance : DecidablePred Exact
  | .choice choices => inferInstanceAs (Decidable (∀ c ∈ choices, c.code.Exact))
  | .min _ => isTrue trivial
  | .custom _ _ => isFalse id

theorem Exact.validate_int (h : V.Exact) (hw : V.validate (.int n) = .ok w) : w = .int n := by
  cases V with
  | choice choices =>
      obtain ⟨c, hc, rfl⟩ := validate_choice_eq_ok.mp hw
      have hcode := (looseEq_or_label hc).resolve_right nofun
      exact (h c (List.mem_of_find?_eq_some hc)).eq_of_looseEq hcode
  | min bound => exact (validate_min_int.mp hw).1
  | custom => exact h.elim

/-- Validators of exact codes give integers, and give them back. -/
theorem Exact.validate_validate (h : V.Exact) (hw : V.validate v = .ok w) :
    (∃ n, w = .int n) ∧ V.validate w = .ok w := by
  cases V with
  | choice choices =>
      obtain ⟨c, hc, rfl⟩ := validate_choice_eq_ok.mp hw
      have hmem := List.mem_of_find?_eq_some hc
      obtain ⟨n, hn⟩ : ∃ n, c.code = .int n := by
        have hexact := h c hmem
        cases hcode : c.code <;> rw [hcode] at hexact
        · exact hexact.elim
        · exact ⟨_, rfl⟩
        · exact hexact.elim
        · exact hexact.elim
      have haccepts : c.accepts (.int n) = true := by
        rw [Choice.accepts, hn]
        exact Bool.or_eq_true_iff.mpr (.inl (Decimal.ofInt_beq_self n))
      have hsome : (choices.find? (·.accepts (.int n))).isSome := List.find?_isSome.mpr ⟨c, hmem, haccepts⟩
      obtain ⟨c', hc'⟩ := Option.isSome_iff_exists.mp hsome
      have hpassed := validate_choice_eq_ok.mpr ⟨c', hc', rfl⟩
      rw [hn]
      exact ⟨⟨n, rfl⟩, Exact.validate_int h hpassed ▸ hpassed⟩
  | min bound =>
      obtain ⟨n, rfl, hn⟩ := validate_min hw
      exact ⟨⟨n, rfl⟩, validate_min_int.mpr ⟨rfl, hn⟩⟩
  | custom => exact h.elim

theorem runChain_int (h : ∀ V ∈ chain, V.Exact) (hw : runChain chain (.int n) = .ok w) : w = .int n := by
  induction chain with
  | nil => exact (Except.ok.inj hw).symm
  | cons V chain ih =>
      obtain ⟨hV, hchain⟩ := List.forall_mem_cons.mp h
      obtain ⟨x, hx, hw⟩ := bind_eq_ok hw
      obtain rfl := hV.validate_int hx
      exact ih hchain hw

theorem settles_of_exact (h : ∀ V ∈ chain, V.Exact) : Settles chain := by
  intro v w hw
  cases chain with
  | nil => rfl
  | cons V chain =>
      obtain ⟨hV, hchain⟩ := List.forall_mem_cons.mp h
      rw [runChain_cons] at hw ⊢
      obtain ⟨x, hx, hw⟩ := bind_eq_ok hw
      obtain ⟨⟨n, rfl⟩, hback⟩ := hV.validate_validate hx
      obtain rfl := runChain_int hchain hw
      rw [hback]
      exact hw

end Validator

namespace Store

open Edit

variable {s t : Store} {e : EntityId} {i : Nat} {name : String} {field : FieldSchema} {stored : Option Value}
  {v w : Value}

theorem setSlot_slot (s : Store) (e : EntityId) (i : Nat) : s.setSlot e i (s.slot e i) = s := by
  have hself : ∀ entity : Entity, s.entities[e.index]? = some entity →
      entity.slots.set i (s.slot e i) = entity.slots := fun entity hentity => by
    have hslots : (s.entity e).slots = entity.slots := by
      rw [Store.entity, Array.getD_eq_getD_getElem?, hentity, Option.getD_some]
    refine List.ext_getElem? fun j => ?_
    rw [List.getElem?_set, slot, hslots]
    grind
  have hentities : s.entities.modify e.index (fun entity => { entity with slots := entity.slots.set i (s.slot e i) }) =
      s.entities := by
    refine Array.ext_getElem? fun j => ?_
    rw [Array.getElem?_modify]
    split
    · next hj =>
      subst hj
      cases h : s.entities[e.index]? with
      | none => rfl
      | some entity => rw [Option.map_some, hself entity h]
    · rfl
  rw [setSlot, modify, hentities]

theorem stage_scalar (build : Builder) (hslot : s.slot e i = .scalar stored) (input : Input) :
    stage build e i input s = ((s.coerceScalar e i input).map (.scalar i), s) := by
  rw [stage, bind_store, hslot]
  cases h : s.coerceScalar e i input with
  | ok w => exact bind_ok (show ofRead _ s = (.ok w, s) by rw [ofRead, h])
  | error reason => exact bind_error (show ofRead _ s = (.error reason, s) by rw [ofRead, h])

/-- Assigning a value stores what the validators of the field give for it. -/
theorem assign_value (hi : s.fieldIndex e name = .ok i) (hf : s.field? e i = some field)
    (hslot : s.slot e i = .scalar stored) : assign e name (.value v) s = (.ok (), t) ↔
      ∃ w, Validator.runChain field.validators v = .ok w ∧ t = s.setSlot e i (.scalar (some w)) := by
  have hindex : ofRead (fun s => s.fieldIndex e name) s = (.ok i, s) := by rw [ofRead, hi]
  have hstage : stageField (builderFor [.value v]) e name (.value v) s = _ :=
    (bind_ok hindex).trans (stage_scalar _ hslot (.value v))
  unfold assign orRelease
  cases hrun : Validator.runChain field.validators v with
  | ok w =>
      have hcoerce : s.coerceScalar e i (.value v) = .ok (some w) := by
        simp only [coerceScalar, hf, Option.map_some, Option.getD_some, hrun]
      rw [hcoerce] at hstage
      rw [bind_ok hstage]
      constructor
      · intro h
        exact ⟨w, rfl, (Prod.mk.inj h).2.symm⟩
      · rintro ⟨w', hw', rfl⟩
        cases hw'
        rfl
  | error reason =>
      have hcoerce : s.coerceScalar e i (.value v) =
          .error (.invalidValue (s.schemaOf e).name (s.fieldName e i) reason) := by
        simp only [coerceScalar, hf, Option.map_some, Option.getD_some, hrun]
      rw [hcoerce] at hstage
      rw [bind_error hstage]
      constructor
      · intro h
        cases (Prod.mk.inj h).1
      · rintro ⟨w', hw', _⟩
        cases hw'

/-- Assigning what a field holds changes nothing if its validators give it back. -/
theorem assign_back (hi : s.fieldIndex e name = .ok i) (hf : s.field? e i = some field)
    (hslot : s.slot e i = .scalar (some w)) (hw : Validator.runChain field.validators w = .ok w) :
    assign e name (.value w) s = (.ok (), s) := by
  have hsame : s.setSlot e i (.scalar (some w)) = s := by
    rw [← hslot]
    exact setSlot_slot s e i
  exact (assign_value hi hf hslot).mpr ⟨w, hw, hsame.symm⟩

theorem assign_again (hi : s.fieldIndex e name = .ok i) (hf : s.field? e i = some field)
    (hslot : s.slot e i = .scalar stored) (hsettles : Validator.Settles field.validators)
    (hassign : assign e name (.value v) s = (.ok (), t)) (hw : t.slot e i = .scalar (some w)) :
    assign e name (.value w) t = (.ok (), t) := by
  obtain ⟨x, hx, rfl⟩ := (assign_value hi hf hslot).mp hassign
  have hback : Validator.runChain field.validators w = .ok w := by
    have hstored : (s.setSlot e i (.scalar (some x))).slot e i = .scalar (some w) := hw
    rw [slot_setSlot] at hstored
    split at hstored
    · cases hstored
      exact hsettles v w hx
    · next hshort =>
      have hlt : i < (s.entity e).slots.length := lt_of_slot_ne (by simp [hstored])
      exact absurd ⟨rfl, rfl, hlt⟩ hshort
  have hindex : (s.setSlot e i (.scalar (some x))).fieldIndex e name = .ok i := by
    rw [← hi]
    simp only [fieldIndex, schemaOf, model_setSlot, Extends.setSlot.schema]
  exact assign_back hindex (by rw [field?_setSlot, hf]) hw hback

end Store

/-- A default is what the validators of its field make of the declared one. -/
theorem Registry.default_passed {decls : List ModelDecl} {r : Registry} {m : ModelSchema} {field : FieldSchema} {w : Value}
    (hr : Registry.ofDecls decls = .ok r) (hm : m ∈ r.models) (hf : field ∈ m.fields) (hw : field.default? = some w) :
    ∃ v, Validator.runChain field.validators v = .ok w := by
  obtain ⟨decl, line, hresolved⟩ := Registry.mem_ofDecls hr m hm
  obtain ⟨name, declared, _, hfield⟩ := @Registry.mem_fields _ _ _ _ (fun _ _ => True) (fun _ _ _ _ _ => trivial)
    hresolved (fun _ _ _ _ => trivial) field hf
  exact hfield.validators ▸ hfield.default w hw

/-- What a field of a reachable store holds has passed its validators, so that those that settle give it back. -/
theorem Store.assign_held {s : Store} {e : EntityId} {name : String} {i : Nat} {field : FieldSchema} {w : Value}
    (hs : Reachable s) (hr : s.Built) (hi : s.fieldIndex e name = .ok i) (hf : s.field? e i = some field)
    (hsettles : Validator.Settles field.validators) (hslot : s.slot e i = .scalar (some w)) :
    assign e name (.value w) s = (.ok (), s) := by
  have hmem : field ∈ (s.schemaOf e).fields := List.mem_of_getElem? hf
  obtain ⟨hregistry, hmodel⟩ := schema_known hmem
  obtain ⟨decls, hdecls⟩ := hr _ hregistry
  obtain ⟨v, hv⟩ : ∃ v, Validator.runChain field.validators v = .ok w := by
    rcases hs.linked.typed.stores hf hslot with hdefault | hpassed
    · exact Registry.default_passed hdecls (List.mem_of_getElem? hmodel) hmem hdefault
    · exact hpassed
  exact assign_back hi hf hslot (hsettles v w hv)

theorem Catalogue.models_exact : ∀ m ∈ Catalogue.models, ∀ field ∈ m.fields, ∀ V ∈ field.validators, V.Plain → V.Exact := by
  decide +kernel

namespace Store

open Edit Validator

/-- A chain gives back what it gives if it is a single table and that is legible, a chain of bounds and of tables of
exact integers, as all tables of the standard models are, or coherent. Writing back what a field with such a chain holds
changes nothing; its default is such a value. -/
theorem validation_settles :
    (∀ choices, Settles [.choice choices] ↔ Legible choices) ∧
    (∀ chain, (∀ V ∈ chain, V.Plain) → Coherent chain → Settles chain) ∧
    (∀ chain, (∀ V ∈ chain, V.Exact) → Settles chain) ∧
    (∀ m ∈ Catalogue.registry.models, ∀ field ∈ m.fields, (∀ V ∈ field.validators, V.Plain) → Settles field.validators) ∧
    (∀ (s t : Store) e name i field stored v w, s.fieldIndex e name = .ok i → s.field? e i = some field →
      s.slot e i = .scalar stored → Settles field.validators → assign e name (.value v) s = (.ok (), t) →
        t.slot e i = .scalar (some w) → assign e name (.value w) t = (.ok (), t)) ∧
    (∀ (s : Store) e name i field w, Reachable s → s.Built → s.fieldIndex e name = .ok i → s.field? e i = some field →
      Settles field.validators → s.slot e i = .scalar (some w) → assign e name (.value w) s = (.ok (), s)) ∧
    ∀ decls r m (field : FieldSchema) w, Registry.ofDecls decls = .ok r → m ∈ r.models → field ∈ m.fields →
      Settles field.validators → field.default? = some w → runChain field.validators w = .ok w :=
  ⟨fun _ => settles_choice_iff, fun _ hplain h => h.settles hplain, fun _ => settles_of_exact,
    fun m hm field hf hplain => settles_of_exact fun V hV =>
      Catalogue.models_exact m (Catalogue.registry_models ▸ hm) field hf V hV (hplain V hV),
    fun _ _ _ _ _ _ _ _ _ => assign_again, fun _ _ _ _ _ _ => assign_held,
    fun _ _ _ _ w hr hm hf hsettles hw => (Registry.default_passed hr hm hf hw).elim fun v hv => hsettles v w hv⟩

/-! ## Cards -/

/-- Cards with a suit whose label is the code of another one. -/
def cardDecls : List ModelDecl := ModelDecl.number [
  { name := "Card"
    fields := [("suit", (Field.plain.withDefault (.text "b")).withChoices [⟨.text "x", "a"⟩, ⟨.text "a", "b"⟩])] }]

def cardRegistry : Registry := ⟨(Registry.resolveInOrder cardDecls 0 cardDecls).toOption.getD []⟩

theorem cardRegistry_eq : Registry.ofDecls cardDecls = .ok cardRegistry :=
  Registry.ofDecls_eq (by decide) (by decide) (by decide)

def card : Store := (build ⟨0, 0⟩ .null .empty (.ofRegistries [cardRegistry])).2

/-- The value that the first field of the first entity holds. -/
def held? (s : Store) : Option Value :=
  match s.slot ⟨0⟩ 0 with
  | .scalar stored => stored
  | _ => none

theorem slot_of_held? {s : Store} {w : Value} (h : held? s = some w) : s.slot ⟨0⟩ 0 = .scalar (some w) := by
  unfold held? at h
  split at h
  · next hslot => rw [hslot, h]
  · cases h

/-- The text that the suit of the card is. -/
def suit? (s : Store) : Option String := (held? s).bind Value.text?

def setSuit (text : String) (s : Store) : Store := (assign ⟨0⟩ "suit" (.text text) s).2

/-- The default of a card, written back, becomes another suit. A table with a text for a code refuses the integer that a
bound makes of it, and a second table the code that the first gives for what the second gave. -/
theorem validation_unsettled :
    (Registry.ofDecls cardDecls = .ok cardRegistry ∧
      ∀ m ∈ cardRegistry.models, ∀ field ∈ m.fields, ∀ V ∈ field.validators, V.Plain) ∧
    (suit? card = some "a" ∧ suit? (setSuit "b" card) = some "a" ∧ suit? (setSuit "a" (setSuit "b" card)) = some "x") ∧
    (∃ V, V.Plain ∧ runChain [V, .min 0] (.text "seven") = .ok (.int 7) ∧
      runChain [V, .min 0] (.int 7) = .error (.notAllowed (.int 7))) ∧
    ∃ V W, V.Plain ∧ W.Plain ∧ runChain [V, W] (.text "b") = .ok (.text "x") ∧
      runChain [V, W] (.text "x") = .error (.notAllowed (.text "x")) := by
  refine ⟨⟨cardRegistry_eq, by decide⟩, by decide,
    ⟨.choice [⟨.text "7", "seven"⟩], by decide, ?_, ?_⟩,
    ⟨.choice [⟨.text "a", "b"⟩], .choice [⟨.text "x", "a"⟩], by decide, by decide, ?_, ?_⟩⟩
  · rfl
  · rfl
  · rfl
  · rfl

theorem shelf_built : shelf.Built := fun r hr => by
  obtain ⟨decls, _, hdecls⟩ := shelf_declared r hr
  exact ⟨decls, hdecls⟩

/-- A switch that is up or down, and that may only be put up. -/
def switchChain : List Validator :=
  [.choice [⟨.text "up", "u"⟩, ⟨.text "down", "d"⟩], .choice [⟨.text "up", "on"⟩]]

theorem switchChain_coherent : Coherent switchChain := by
  refine coherent_cons (fun c hc => ?_) fun c hc V hV => ?_
  · have hmem := List.mem_of_find?_eq_some hc
    simp only [List.mem_cons, List.not_mem_nil, or_false] at hmem
    rcases hmem with rfl | rfl <;> rfl
  · obtain rfl := List.mem_singleton.mp hV
    simp only [List.mem_cons, List.not_mem_nil, or_false] at hc
    rcases hc with rfl | rfl <;> refine carries_choice fun w hw => ?_
    · cases hw
      decide
    · cases hw

theorem validation_settles_shelf : Settles switchChain ∧ ∃ w, shelf.slot ⟨0⟩ 0 = .scalar (some w) ∧
    assign ⟨0⟩ "cover" (.value w) shelf = (.ok (), shelf) := by
  obtain ⟨_, hcoherent, hexact, _, _, hheld, _⟩ := validation_settles
  have hthere : (shelf.field? ⟨0⟩ 0).isSome ∧ (held? shelf).isSome := by decide
  have hindex : shelf.fieldIndex ⟨0⟩ "cover" = .ok 0 := fieldIndex_ok_iff.mpr (by decide)
  have hchain : ∀ field ∈ shelf.field? ⟨0⟩ 0, ∀ V ∈ field.validators, V.Exact := by decide
  obtain ⟨field, hf⟩ := Option.isSome_iff_exists.mp hthere.1
  obtain ⟨w, hw⟩ := Option.isSome_iff_exists.mp hthere.2
  have hslot := slot_of_held? hw
  have hsettles : Settles field.validators := hexact _ (hchain field hf)
  exact ⟨hcoherent _ (by decide) switchChain_coherent, w, hslot,
    hheld _ _ _ _ _ _ shelf_reachable shelf_built hindex hf hsettles hslot⟩

end Store

end MonitorExport
