import MonitorExport.Proofs.Export.Mapping

/-!
# The parts of an element

The elements of an entity are those of its fields one after the other, the arranged collection last. What is to
be shown of the elements of all entities is shown for one entity, given that it holds of what its members have.
-/

namespace MonitorExport

theorem YieldsDrawing.mono {α : Type} {post post' : α → Prop} {fail : ConfigError → Prop} {d : Drawing α}
    (h : YieldsDrawing post fail d) (hp : ∀ a, post a → post' a) : YieldsDrawing post' fail d := by
  intro palette
  have hd := h palette
  cases hr : d palette with
  | error err => rwa [hr] at hd
  | ok p =>
      rw [hr] at hd
      exact hp p.1 hd

namespace Mapping

variable {s : Store} {post : Overrides → Subtree → List Node → Prop}

/-- The elements of members, the first of which is the `k`-th, with children as they are asked of their trees. -/
inductive Rows (s : Store) (post : Overrides → Subtree → List Node → Prop) (tag : Option String)
    (overrides : Nat → Overrides) : Nat → List Subtree → List Node → Prop
  | nil {k : Nat} : Rows s post tag overrides k [] []
  | cons {k : Nat} {t : Subtree} {ts : List Subtree} {children ns : List Node} (h : post (overrides k) t children)
      (hr : Rows s post tag overrides (k + 1) ts ns) :
      Rows s post tag overrides k (t :: ts) (Node.ofChildren (tag.getD (s.schemaOf t.root).tag) children :: ns)

/-- The elements of one field that is not arranged. -/
inductive Part (s : Store) (post : Overrides → Subtree → List Node → Prop) (e : EntityId) (overrides : Overrides)
    (index : Nat) (ts : List Subtree) : List Node → Prop
  | scalar {stored : Option Value} {ns : List Node} {palette palette' : Palette} (hslot : s.slot e index = .scalar stored)
      (h : scalarNodes s e index overrides palette = .ok (ns, palette')) : Part s post e overrides index ts ns
  | reference {bound : Binding} {n : Node} (hslot : s.slot e index = .binding bound)
      (h : referenceNode s e index = .ok n) : Part s post e overrides index ts [n]
  | members {es : List EntityId} {ms : List Node} (hslot : s.slot e index = .members es)
      (h : Rows s post (memberTag? s e index) (fun _ => []) 0 ts ms) :
      Part s post e overrides index ts (collectionNodes s e index ms)

/-- The elements of the fields from a place of the table on, without the arranged one. -/
inductive Parts (s : Store) (post : Overrides → Subtree → List Node → Prop) (e : EntityId) (overrides : Overrides)
    (arranged : Option Nat) : Nat → List (List Subtree) → List Node → Prop
  | nil {index : Nat} : Parts s post e overrides arranged index [] []
  | skip {index : Nat} {ts : List Subtree} {bs : List (List Subtree)} {rest : List Node} (h : arranged = some index)
      (hr : Parts s post e overrides arranged (index + 1) bs rest) :
      Parts s post e overrides arranged index (ts :: bs) rest
  | cons {index : Nat} {ts : List Subtree} {bs : List (List Subtree)} {here rest : List Node}
      (hn : arranged ≠ some index) (h : Part s post e overrides index ts here)
      (hr : Parts s post e overrides arranged (index + 1) bs rest) :
      Parts s post e overrides arranged index (ts :: bs) (here ++ rest)

/-- The elements of the arranged collection, if there is one. -/
inductive Last (s : Store) (post : Overrides → Subtree → List Node → Prop) (e : EntityId)
    (branches : List (List Subtree)) : List Node → Prop
  | none (h : ∀ index a, arrangedIndex? (s.schemaOf e) = some index → (s.schemaOf e).arrangement = some a →
      ∀ es, s.slot e index ≠ .members es) : Last s post e branches []
  | members {index : Nat} {a : Arrangement} {es : List EntityId} {width : Int} {ms : List Node}
      (hi : arrangedIndex? (s.schemaOf e) = some index) (ha : (s.schemaOf e).arrangement = some a)
      (hslot : s.slot e index = .members es) (hw : arrangementWidth s e a = .ok width)
      (h : Rows s post (memberTag? s e index) (placeMember width · a) 0 (branches.getD index []) ms) :
      Last s post e branches (collectionNodes s e index ms)

theorem yields_any {α : Type} (d : Drawing α) :
    YieldsDrawing (fun a => ∃ palette palette', d palette = .ok (a, palette')) (fun _ => True) d := by
  intro palette
  cases h : d palette with
  | error err => trivial
  | ok p => exact ⟨palette, p.2, h⟩

theorem yields_eq {α : Type} (r : Except ConfigError α) : Yields (fun a => r = .ok a) (fun _ => True) r := by
  cases r with
  | error err => trivial
  | ok a => rfl

/-- The elements of an entity: those of its fields, then those of the arranged collection. -/
inductive Assembled (s : Store) (post : Overrides → Subtree → List Node → Prop) (overrides : Overrides) :
    Subtree → List Node → Prop
  | node {e : EntityId} {branches : List (List Subtree)} {fields last : List Node}
      (h : Parts s post e overrides (arrangedIndex? (s.schemaOf e)) 0 branches fields)
      (hl : Last s post e branches last) : Assembled s post overrides (.node e branches) (fields ++ last)

/-- Whether what is asked of the elements of an entity holds when it holds of what its members have. -/
def Assembles (s : Store) (post : Overrides → Subtree → List Node → Prop) : Prop :=
  ∀ overrides t ns, Assembled s post overrides t ns → post overrides t ns

mutual

/-- The elements of an entity are put together from those of its members, of which holds what is asked. -/
theorem entityNodes_assembled (step : Assembles s post) (overrides : Overrides) :
    (t : Subtree) → YieldsDrawing (Assembled s post overrides t) (fun _ => True) (entityNodes s overrides t)
  | .node e branches => by
      unfold entityNodes
      refine YieldsDrawing.bind (fieldNodes_parts step e overrides _ 0 branches) fun fields hfields => ?_
      have hdone : (∀ index a, arrangedIndex? (s.schemaOf e) = some index → (s.schemaOf e).arrangement = some a →
          ∀ es, s.slot e index ≠ .members es) → Assembled s post overrides (.node e branches) fields := fun hnone => by
        have hlast : Assembled s post overrides (.node e branches) (fields ++ []) := .node hfields (.none hnone)
        rwa [List.append_nil] at hlast
      split
      · next index a hi ha =>
        split
        · next es hslot =>
          refine YieldsDrawing.bind (.lift (yields_eq _)) fun width hw => ?_
          refine YieldsDrawing.bind (branchNodes_parts step _ _ _ branches) fun ms hms => .pure ?_
          exact .node hfields (.members hi ha hslot hw hms)
        · next hno =>
          refine .pure (hdone fun index' a' hi' _ es => ?_)
          rw [hi, Option.some.injEq] at hi'
          exact hi' ▸ hno es
      · next hno => exact .pure (hdone fun index a hi ha => absurd ha (hno index a hi))

theorem fieldNodes_parts (step : Assembles s post) (e : EntityId) (overrides : Overrides) (arranged : Option Nat) (index : Nat) :
    (bs : List (List Subtree)) → YieldsDrawing (Parts s post e overrides arranged index bs) (fun _ => True)
      (fieldNodes s e overrides arranged index bs)
  | [] => .pure .nil
  | ts :: rest => by
      have hrest := fieldNodes_parts step e overrides arranged (index + 1) rest
      have hrows := memberNodes_parts step (memberTag? s e index) (fun _ => []) 0 ts
      have hpart : YieldsDrawing (Part s post e overrides index ts) (fun _ => True) (slotNodes s e index overrides
          (memberNodes s (memberTag? s e index) (fun _ => []) 0 ts)) := by
        unfold slotNodes
        split
        · next hslot => exact (yields_any _).mono fun ns ⟨_, _, h⟩ => .scalar hslot h
        · next hslot => exact (YieldsDrawing.lift (yields_eq _)).map fun n hn => .reference hslot hn
        · next hslot => exact hrows.map fun ms hms => .members hslot hms
      unfold fieldNodes
      dsimp only
      split
      · next h =>
        have hnil : YieldsDrawing (fun here => here = []) (fun _ => True) (pure [] : Drawing (List Node)) := .pure rfl
        exact hnil.bind fun here hhere => hrest.bind fun ns hns => .pure (by rw [hhere]; exact .skip h hns)
      · next h => exact hpart.bind fun here hhere => hrest.bind fun ns hns => .pure (.cons h hhere hns)

theorem branchNodes_parts (step : Assembles s post) (tag : Option String) (overrides : Nat → Overrides) :
    (index : Nat) → (bs : List (List Subtree)) →
      YieldsDrawing (Rows s post tag overrides 0 (bs.getD index [])) (fun _ => True)
        (branchNodes s tag overrides index bs)
  | 0, [] => .pure .nil
  | _ + 1, [] => .pure .nil
  | 0, members :: _ => memberNodes_parts step tag overrides 0 members
  | index + 1, _ :: rest => branchNodes_parts step tag overrides index rest

theorem memberNodes_parts (step : Assembles s post) (tag : Option String) (overrides : Nat → Overrides) (k : Nat) :
    (ts : List Subtree) → YieldsDrawing (Rows s post tag overrides k ts) (fun _ => True)
      (memberNodes s tag overrides k ts)
  | [] => .pure .nil
  | t :: rest => by
      unfold memberNodes
      refine YieldsDrawing.bind ((entityNodes_assembled step _ t).mono (step _ t)) fun children hchildren => ?_
      exact YieldsDrawing.bind (memberNodes_parts step tag overrides _ rest) fun ns hns => .pure (.cons hchildren hns)

end

/-! ## Tags of the parts -/

variable {e : EntityId} {overrides : Overrides} {arranged : Option Nat} {index : Nat} {ts : List Subtree}
  {bs : List (List Subtree)} {ns : List Node}

theorem scalarNodes_eq {palette palette' : Palette} (h : scalarNodes s e index overrides palette = .ok (ns, palette')) :
    ∃ v : Option Value, ns = (v.map fun v => Node.leaf (s.fieldName e index) v.render).toList := by
  unfold scalarNodes at h
  cases ho : overrides.find? fun o => o.1 = s.fieldName e index with
  | some o =>
      rw [ho] at h
      cases h
      exact ⟨some o.2, rfl⟩
  | none =>
      rw [ho] at h
      change (s.readDrawing e index palette >>= _) = _ at h
      cases hr : s.readDrawing e index palette with
      | error err =>
          rw [hr] at h
          cases h
      | ok p =>
          rw [hr] at h
          cases h
          exact ⟨p.1, rfl⟩

theorem referenceNode_eq {n : Node} (h : referenceNode s e index = .ok n) : n.tag = s.fieldName e index ∧
    ∀ c ∈ n.children, c.children = [] := by
  unfold referenceNode at h
  cases hr : s.resolve e index with
  | error err =>
      rw [hr] at h
      cases h
  | ok identity =>
      rw [hr] at h
      cases h
      refine ⟨rfl, fun c hc => ?_⟩
      obtain ⟨p, _, rfl⟩ := List.mem_map.mp hc
      rfl

/-- A collection is written as one element with all its members, or there are none. -/
theorem collectionNodes_cases (s : Store) (e : EntityId) (index : Nat) (ms : List Node) :
    collectionNodes s e index ms = [Node.ofChildren (s.fieldName e index) ms] ∨
      collectionNodes s e index ms = [] ∧ ms = [] := by
  unfold collectionNodes
  split
  · next h => exact .inr ⟨rfl, List.isEmpty_iff.mp (Bool.and_eq_true_iff.mp h).1⟩
  · exact .inl rfl

theorem map_tag_collectionNodes (ms : List Node) : (collectionNodes s e index ms).map (·.tag) = [] ∨
    (collectionNodes s e index ms).map (·.tag) = [s.fieldName e index] := by
  rcases collectionNodes_cases s e index ms with h | ⟨h, _⟩
  · exact .inr (by rw [h]; rfl)
  · exact .inl (by rw [h]; rfl)

theorem Part.map_tag (h : Part s post e overrides index ts ns) :
    ns.map (·.tag) = [] ∨ ns.map (·.tag) = [s.fieldName e index] := by
  cases h with
  | scalar _ h =>
      obtain ⟨v, rfl⟩ := scalarNodes_eq h
      cases v with
      | none => exact .inl rfl
      | some v => exact .inr rfl
  | reference _ h => exact .inr (by rw [List.map_singleton, (referenceNode_eq h).1])
  | members => exact map_tag_collectionNodes _

theorem Part.tag_eq (h : Part s post e overrides index ts ns) {n : Node} (hn : n ∈ ns) : n.tag = s.fieldName e index := by
  have ht : n.tag ∈ ns.map (·.tag) := List.mem_map_of_mem hn
  rcases h.map_tag with hm | hm
  · rw [hm] at ht
    cases ht
  · rw [hm] at ht
    exact List.mem_singleton.mp ht

theorem Part.scalarNodes (h : Part s post e overrides index ts ns) {stored : Option Value}
    (hslot : s.slot e index = .scalar stored) :
    ∃ palette palette', scalarNodes s e index overrides palette = .ok (ns, palette') := by
  cases h with
  | scalar _ h => exact ⟨_, _, h⟩
  | reference hno => rw [hslot] at hno; cases hno
  | members hno => rw [hslot] at hno; cases hno

namespace Parts

theorem sublist (h : Parts s post e overrides arranged index bs ns) :
    (ns.map (·.tag)).Sublist ((List.range' index bs.length).map (s.fieldName e)) := by
  induction h with
  | nil => exact .slnil
  | skip _ _ ih =>
      rw [List.length_cons, List.range'_succ, List.map_cons]
      exact ih.cons _
  | cons _ h _ ih =>
      rw [List.length_cons, List.range'_succ, List.map_cons, List.map_append]
      rcases h.map_tag with hm | hm
      · rw [hm]
        exact ih.cons _
      · rw [hm]
        exact ih.cons_cons _

theorem exists_part (h : Parts s post e overrides arranged index bs ns) {n : Node} (hn : n ∈ ns) :
    ∃ i ts here, bs[i]? = some ts ∧ arranged ≠ some (index + i) ∧ Part s post e overrides (index + i) ts here ∧
      n ∈ here := by
  induction h with
  | nil => cases hn
  | skip _ _ ih =>
      obtain ⟨i, ts, here, hi, ha, hpart, hn⟩ := ih hn
      rw [Nat.add_assoc, Nat.add_comm 1] at ha hpart
      exact ⟨i + 1, ts, here, hi, ha, hpart, hn⟩
  | cons ha h _ ih =>
      rcases List.mem_append.mp hn with hn | hn
      · exact ⟨0, _, _, rfl, ha, h, hn⟩
      · obtain ⟨i, ts, here, hi, ha, hpart, hn⟩ := ih hn
        rw [Nat.add_assoc, Nat.add_comm 1] at ha hpart
        exact ⟨i + 1, ts, here, hi, ha, hpart, hn⟩

theorem flatMap {β : Type} {φ : Node → List β} {ψ : List Subtree → List β}
    (h : Parts s post e overrides arranged index bs ns)
    (hpart : ∀ i ts here, bs[i]? = some ts → Part s post e overrides (index + i) ts here → here.flatMap φ = ψ ts)
    (hskip : ∀ i ts, bs[i]? = some ts → arranged = some (index + i) → ψ ts = []) : ns.flatMap φ = bs.flatMap ψ := by
  induction h with
  | nil => rfl
  | @skip index ts bs rest ha _ ih =>
      rw [List.flatMap_cons, hskip 0 ts rfl ha, List.nil_append]
      refine ih (fun i ts here hi hp => ?_) fun i ts hi ha => ?_
      · exact hpart (i + 1) ts here hi (by rwa [Nat.add_assoc, Nat.add_comm 1] at hp)
      · exact hskip (i + 1) ts hi (by rwa [Nat.add_assoc, Nat.add_comm 1] at ha)
  | @cons index ts bs here rest _ hp _ ih =>
      rw [List.flatMap_cons, List.flatMap_append, hpart 0 ts here rfl hp]
      refine congrArg _ (ih (fun i ts here hi hp => ?_) fun i ts hi ha => ?_)
      · exact hpart (i + 1) ts here hi (by rwa [Nat.add_assoc, Nat.add_comm 1] at hp)
      · exact hskip (i + 1) ts hi (by rwa [Nat.add_assoc, Nat.add_comm 1] at ha)

theorem filter_eq_nil (h : Parts s post e overrides arranged index bs ns) {tag : String}
    (hne : ∀ j, j < bs.length → s.fieldName e (index + j) ≠ tag) : ns.filter (fun n => n.tag = tag) = [] := by
  refine List.filter_eq_nil_iff.mpr fun n hn => ?_
  obtain ⟨j, ts, here, hj, _, hpart, hn⟩ := h.exists_part hn
  rw [hpart.tag_eq hn]
  simpa using hne j (List.getElem?_eq_some_iff.mp hj).1

/-- The elements of a tag are those of the field of that name, if no other field has it. -/
theorem filter_eq (h : Parts s post e overrides arranged index bs ns) {i : Nat} {tag : String} (hi : bs[i]? = some ts)
    (ha : arranged ≠ some (index + i)) (ht : s.fieldName e (index + i) = tag)
    (hne : ∀ j, j < bs.length → s.fieldName e (index + j) = tag → j = i) :
    Part s post e overrides (index + i) ts (ns.filter fun n => n.tag = tag) := by
  -- the fields are counted from `index`, so that each step moves the field looked for one place nearer
  have hadd : ∀ index j, index + 1 + j = index + (j + 1) := fun index j => by omega
  induction h generalizing i with
  | nil => cases hi
  | @skip index ts' bs rest hskip hr ih =>
      cases i with
      | zero => exact absurd hskip ha
      | succ i =>
          rw [← hadd] at ha ht ⊢
          refine ih hi ha ht fun j hj hjt => ?_
          rw [hadd] at hjt
          exact Nat.succ.inj (hne (j + 1) (by simpa using hj) hjt)
  | @cons index ts' bs here rest _ hp hr ih =>
      rw [List.filter_append]
      cases i with
      | zero =>
          cases hi
          have hrest : rest.filter (fun n => n.tag = tag) = [] := hr.filter_eq_nil fun j hj hjt => by
            rw [hadd] at hjt
            exact absurd (hne (j + 1) (by simpa using hj) hjt) (by omega)
          have hhere : here.filter (fun n => n.tag = tag) = here :=
            List.filter_eq_self.mpr fun n hn => by simpa [hp.tag_eq hn] using ht
          rw [hhere, hrest, List.append_nil]
          exact hp
      | succ i =>
          have hhere : here.filter (fun n => n.tag = tag) = [] := List.filter_eq_nil_iff.mpr fun n hn => by
            rw [hp.tag_eq hn]
            intro hc
            exact absurd (hne 0 (by simp) (by simpa using hc)) (by omega)
          rw [hhere, List.nil_append, ← hadd]
          rw [← hadd] at ha ht
          refine ih hi ha ht fun j hj hjt => ?_
          rw [hadd] at hjt
          exact Nat.succ.inj (hne (j + 1) (by simpa using hj) hjt)

end Parts

end Mapping

end MonitorExport
