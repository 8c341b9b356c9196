import MonitorExport.Proofs.Chains
import MonitorExport.Proofs.Schema.Resolving

/-!
# Lines of declarations

A declaration names the one that it extends. Following these names always comes to an end within as many steps as
there are declarations: at a declaration that extends none, at a name that no declaration has, or at one that was
met before. Where names are distinct and resolve, and no declaration extends itself, directly or not, only the
first can happen, and each declaration has one line, which starts at its outermost ancestor.
-/

namespace MonitorExport

theorem Except.map_eq_ok {α β ε : Type} {r : Except ε α} {f : α → β} {b : β} (h : r.map f = .ok b) :
    ∃ a, r = .ok a ∧ f a = b := by
  cases r with
  | error err => cases h
  | ok a => exact ⟨a, rfl, Except.ok.inj h⟩

theorem Except.map_eq_error_iff {α β ε : Type} {r : Except ε α} {f : α → β} {e : ε} :
    r.map f = .error e ↔ r = .error e := by
  cases r <;> simp [Except.map]

namespace Registry

variable {decls : List ModelDecl} {d d' p : ModelDecl} {name parent start : String} {i index fuel : Nat}
  {seen l : List Nat} {r : Except SchemaError (List Nat)} {line : List ModelDecl}

abbrev DistinctNames (decls : List ModelDecl) : Prop := (decls.map (·.name)).Nodup

/-- Whether a name is declared to extend another. -/
def Extends (decls : List ModelDecl) (name parent : String) : Prop :=
  ∃ d ∈ decls, d.name = name ∧ d.extends? = some parent

/-- Whether every name that is extended is declared. -/
def ParentsDeclared (decls : List ModelDecl) : Prop :=
  ∀ d ∈ decls, ∀ parent, d.extends? = some parent → ∃ p ∈ decls, p.name = parent

/-- Whether no name extends itself, directly or not. -/
def Acyclic (decls : List ModelDecl) : Prop := ∀ name, ¬ Relation.TransGen (Extends decls) name name

/-- The declarations from the outermost ancestor of one down to itself. -/
inductive Line (decls : List ModelDecl) : ModelDecl → List ModelDecl → Prop
  | top {d : ModelDecl} (h : d.extends? = none) : Line decls d [d]
  | under {d p : ModelDecl} {line : List ModelDecl} (h : d.extends? = some p.name) (hp : p ∈ decls)
      (hl : Line decls p line) : Line decls d (line ++ [d])

/-! ## Names and places -/

theorem eq_of_name (h : DistinctNames decls) (hd : d ∈ decls) (hd' : d' ∈ decls) (heq : d.name = d'.name) : d = d' :=
  List.inj_on_of_nodup_map h hd hd' heq

theorem declIndex?_eq_some (h : declIndex? decls name = some i) : ∃ d, decls[i]? = some d ∧ d.name = name := by
  obtain ⟨hi, hname, _⟩ := List.findIdx?_eq_some_iff_getElem.mp h
  exact ⟨decls[i], List.getElem?_eq_getElem hi, by simpa using hname⟩

theorem declIndex?_eq_none : declIndex? decls name = none ↔ ∀ d ∈ decls, d.name ≠ name := by
  simp [declIndex?, List.findIdx?_eq_none_iff]

theorem exists_declIndex? : (∃ i, declIndex? decls name = some i) ↔ ∃ d ∈ decls, d.name = name := by
  constructor
  · rintro ⟨i, hi⟩
    obtain ⟨d, hd, hname⟩ := declIndex?_eq_some hi
    exact ⟨d, List.mem_of_getElem? hd, hname⟩
  · rintro ⟨d, hd, hname⟩
    cases hi : declIndex? decls name with
    | none => exact absurd hname (declIndex?_eq_none.mp hi d hd)
    | some i => exact ⟨i, rfl⟩

theorem duplicate?_eq_none (before : List String) : duplicate? before decls = none ↔
    DistinctNames decls ∧ ∀ d ∈ decls, d.name ∉ before := by
  induction decls generalizing before with
  | nil => simp [duplicate?, DistinctNames]
  | cons d decls ih =>
      rw [duplicate?]
      split
      · next hmem => simp [hmem]
      · next hmem =>
        rw [ih, DistinctNames, DistinctNames, List.map_cons, List.nodup_cons, List.forall_mem_cons]
        simp only [List.mem_cons, not_or, List.mem_map, not_exists, not_and]
        constructor
        · rintro ⟨hdistinct, hnot⟩
          exact ⟨⟨fun x hx => (hnot x hx).1, hdistinct⟩, hmem, fun x hx => (hnot x hx).2⟩
        · rintro ⟨⟨hne, hdistinct⟩, _, hnot⟩
          exact ⟨hdistinct, fun x hx => ⟨hne x hx, hnot x hx⟩⟩

/-! ## Climbing -/

/-- Following names outwards without a bound, from a declaration, where some places were met before. -/
inductive Climbs (decls : List ModelDecl) (start : String) :
    List Nat → ModelDecl → Except SchemaError (List Nat) → Prop
  | top {seen : List Nat} {d : ModelDecl} (h : d.extends? = none) : Climbs decls start seen d (.ok [])
  | unresolved {seen : List Nat} {d : ModelDecl} {parent : String} (h : d.extends? = some parent)
      (hi : declIndex? decls parent = none) : Climbs decls start seen d (.error (.unresolvedParent d.name parent))
  | circular {seen : List Nat} {d : ModelDecl} {parent : String} {i : Nat} (h : d.extends? = some parent)
      (hi : declIndex? decls parent = some i) (hseen : i ∈ seen) :
      Climbs decls start seen d (.error (.inheritanceCycle start))
  | up {seen : List Nat} {d p : ModelDecl} {parent : String} {i : Nat} {r : Except SchemaError (List Nat)}
      (h : d.extends? = some parent) (hi : declIndex? decls parent = some i) (hseen : i ∉ seen)
      (hp : decls[i]? = some p) (hr : Climbs decls start (i :: seen) p r) :
      Climbs decls start seen d (r.map (i :: ·))

/-- Places of declarations that differ are no more than there are declarations. -/
theorem length_le_of_places (hnodup : seen.Nodup) (hlt : ∀ i ∈ seen, i < decls.length) : seen.length ≤ decls.length :=
  length_le_of_nodup Function.injective_id hnodup hlt

/-- Climbing comes to an end: there is a step left for each declaration that was not met. -/
theorem ancestors_climbs (hnodup : seen.Nodup) (hlt : ∀ i ∈ seen, i < decls.length)
    (hfuel : decls.length < fuel + seen.length) : Climbs decls start seen d (ancestors decls start fuel seen d) := by
  induction fuel generalizing seen d with
  | zero =>
      have hle := length_le_of_places hnodup hlt
      omega
  | succ fuel ih =>
      unfold ancestors
      split
      · next hd => exact .top hd
      · next parent hd =>
        split
        · next hi => exact .unresolved hd hi
        · next i hi =>
          split
          · next hseen => exact .circular hd hi hseen
          · next hseen =>
            obtain ⟨p, hp, _⟩ := declIndex?_eq_some hi
            simp only [hp]
            refine .up hd hi hseen hp (ih (List.nodup_cons.mpr ⟨hseen, hnodup⟩) ?_ ?_)
            · exact List.forall_mem_cons.mpr ⟨declIndex?_lt hi, hlt⟩
            · rw [List.length_cons]
              omega

theorem climbs_lineage (h : decls[index]? = some d) :
    Climbs decls d.name [index] d (ancestors decls d.name decls.length [index] d) :=
  ancestors_climbs (List.nodup_singleton _) (by simpa using (List.getElem?_eq_some_iff.mp h).1) (by simp)

/-- The places of the ancestors of a declaration, the nearest first. -/
inductive Ascends (decls : List ModelDecl) : ModelDecl → List Nat → Prop
  | top {d : ModelDecl} (h : d.extends? = none) : Ascends decls d []
  | up {d p : ModelDecl} {i : Nat} {l : List Nat} (h : d.extends? = some p.name) (hi : declIndex? decls p.name = some i)
      (hp : decls[i]? = some p) (hl : Ascends decls p l) : Ascends decls d (i :: l)

theorem Climbs.ascends (h : Climbs decls start seen d r) : ∀ l, r = .ok l → Ascends decls d l := by
  induction h with
  | top h =>
      rintro _ ⟨⟩
      exact .top h
  | unresolved => nofun
  | circular => nofun
  | up h hi _ hp _ ih =>
      intro l hl
      obtain ⟨rest, rfl, rfl⟩ := Except.map_eq_ok hl
      obtain ⟨_, hp', hname⟩ := declIndex?_eq_some hi
      cases hp.symm.trans hp'
      exact .up (hname ▸ h) (hname ▸ hi) hp (ih rest rfl)

/-- Climbing fails neither at a name that is not declared nor in a circle, if there are none. -/
theorem Climbs.exists_ok (hparents : ParentsDeclared decls) (hacyclic : Acyclic decls)
    (h : Climbs decls start seen d r) (hd : d ∈ decls)
    (hseen : ∀ i ∈ seen, ∀ x, decls[i]? = some x → Relation.ReflTransGen (Extends decls) x.name d.name) :
    ∃ l, r = .ok l := by
  induction h with
  | top => exact ⟨[], rfl⟩
  | unresolved h hi =>
      obtain ⟨p, hp, hname⟩ := hparents _ hd _ h
      exact absurd hname (declIndex?_eq_none.mp hi p hp)
  | @circular _ d parent i h hi hmem =>
      obtain ⟨p, hp, hname⟩ := declIndex?_eq_some hi
      have hext : Extends decls d.name p.name := ⟨d, hd, rfl, hname ▸ h⟩
      exact absurd (Relation.TransGen.tail' (hseen i hmem p hp) hext) (hacyclic p.name)
  | @up _ d p parent i r h hi _ hp _ ih =>
      obtain ⟨_, hp', hname⟩ := declIndex?_eq_some hi
      cases hp.symm.trans hp'
      have hext : Extends decls d.name p.name := ⟨d, hd, rfl, hname ▸ h⟩
      obtain ⟨l, rfl⟩ := ih (List.mem_of_getElem? hp) (List.forall_mem_cons.mpr
        ⟨fun x hx => by cases hp.symm.trans hx; exact .refl, fun j hj x hx => (hseen j hj x hx).tail hext⟩)
      exact ⟨i :: l, rfl⟩

/-! ## Lines -/

theorem Ascends.unique (h : Ascends decls d l) : ∀ {l' : List Nat}, Ascends decls d l' → l = l' := by
  induction h with
  | top h =>
      intro l' h'
      cases h' with
      | top => rfl
      | up hn => simp [h] at hn
  | up h hi hp _ ih =>
      intro l' h'
      cases h' with
      | top hn => simp [h] at hn
      | up hn hi' hp' hl' =>
          rw [h, Option.some.injEq] at hn
          cases (hn ▸ hi).symm.trans hi'
          cases hp.symm.trans hp'
          rw [ih hl']

/-- What comes after an ancestor are its own ancestors. -/
theorem Ascends.of_mem (h : Ascends decls d l) (hi : i ∈ l) : ∃ p l', decls[i]? = some p ∧ Ascends decls p l' ∧
    i :: l' <:+ l := by
  induction h with
  | top => cases hi
  | @up d p j l _ _ hp hl ih =>
      rcases List.mem_cons.mp hi with rfl | hi
      · exact ⟨p, l, hp, hl, List.suffix_rfl⟩
      · obtain ⟨q, l', hq, hl', hs⟩ := ih hi
        exact ⟨q, l', hq, hl', hs.trans (List.suffix_cons _ _)⟩

theorem Ascends.toLine (h : Ascends decls d l) : Line decls d ((along decls l).reverse ++ [d]) := by
  induction h with
  | top h => exact .top h
  | @up d p i l h _ hp _ ih =>
      rw [along, List.filterMap_cons_some hp, List.reverse_cons]
      exact .under h (List.mem_of_getElem? hp) ih

theorem Line.unique (hdistinct : DistinctNames decls) (h : Line decls d line) :
    ∀ {line' : List ModelDecl}, Line decls d line' → line = line' := by
  induction h with
  | top h =>
      intro line' h'
      cases h' with
      | top => rfl
      | under hn => simp [h] at hn
  | under h hp _ ih =>
      intro line' h'
      cases h' with
      | top hn => simp [h] at hn
      | under hn hp' hl' =>
          rw [h, Option.some.injEq] at hn
          cases eq_of_name hdistinct hp hp' hn
          rw [ih hl']

theorem Line.mem (h : Line decls d line) (hd : d ∈ decls) : ∀ x ∈ line, x ∈ decls := by
  induction h with
  | top => simpa using hd
  | under _ hp _ ih => exact List.forall_mem_append.mpr ⟨ih hp, by simpa using hd⟩

theorem lineage_eq_ok (hd : decls[index]? = some d) (h : lineage decls index d = .ok l) :
    ∃ above, l = index :: above ∧ Ascends decls d above := by
  obtain ⟨above, habove, rfl⟩ := Except.map_eq_ok h
  exact ⟨above, rfl, (climbs_lineage hd).ascends above habove⟩

/-- The declarations at the places of a lineage are the line of the first one. -/
theorem lineage_line (hd : decls[index]? = some d) (h : lineage decls index d = .ok l) :
    Line decls d (along decls l).reverse := by
  obtain ⟨above, rfl, hasc⟩ := lineage_eq_ok hd h
  rw [along, List.filterMap_cons_some hd, List.reverse_cons]
  exact hasc.toLine

theorem exists_lineage (hparents : ParentsDeclared decls) (hacyclic : Acyclic decls) (hd : decls[index]? = some d) :
    ∃ l, lineage decls index d = .ok l := by
  obtain ⟨l, hl⟩ := (climbs_lineage hd).exists_ok hparents hacyclic (List.mem_of_getElem? hd) fun i hi x hx => by
    cases List.mem_singleton.mp hi
    cases hd.symm.trans hx
    exact .refl
  exact ⟨index :: l, by rw [lineage, hl]; rfl⟩

theorem parentsDeclared_of_ascends (h : ∀ d ∈ decls, ∃ l, Ascends decls d l) : ParentsDeclared decls := by
  intro d hd parent hparent
  obtain ⟨l, hl⟩ := h d hd
  cases hl with
  | top hn => simp [hparent] at hn
  | up hn hi hp _ =>
      rw [hparent, Option.some.injEq] at hn
      exact ⟨_, List.mem_of_getElem? hp, hn.symm⟩

/-- The name that the declaration of a name extends. -/
def parentName? (decls : List ModelDecl) (name : String) : Option String :=
  (decls.find? fun d => d.name = name).bind (·.extends?)

theorem parentName?_name (hdistinct : DistinctNames decls) (hd : d ∈ decls) :
    parentName? decls d.name = d.extends? := by
  cases hf : decls.find? fun x => x.name = d.name with
  | none => simpa using List.find?_eq_none.mp hf d hd
  | some x =>
      have hname : x.name = d.name := by simpa using List.find?_some hf
      rw [parentName?, hf, eq_of_name hdistinct (List.mem_of_find?_eq_some hf) hd hname]
      rfl

theorem Ascends.finishes (hdistinct : DistinctNames decls) (h : Ascends decls d l) (hd : d ∈ decls) :
    Finishes (parentName? decls) d.name := by
  induction h with
  | top h => exact .last (by rw [parentName?_name hdistinct hd, h])
  | up h _ hp _ ih => exact .step (by rw [parentName?_name hdistinct hd, h]) (ih (List.mem_of_getElem? hp))

theorem acyclic_of_ascends (hdistinct : DistinctNames decls) (h : ∀ d ∈ decls, ∃ l, Ascends decls d l) :
    Acyclic decls := by
  intro name hcycle
  have hnext : Extends decls ≤ fun a b => parentName? decls a = some b := by
    rintro _ b ⟨d, hd, rfl, hext⟩
    exact (parentName?_name hdistinct hd).trans hext
  have hafter : After (parentName? decls) name name := Relation.TransGen.mono hnext name name hcycle
  obtain ⟨_, ⟨d, hd, rfl, _⟩, _⟩ := Relation.TransGen.head'_iff.mp hcycle
  obtain ⟨l, hl⟩ := h d hd
  exact (hl.finishes hdistinct hd).not_after hafter

end Registry

end MonitorExport
