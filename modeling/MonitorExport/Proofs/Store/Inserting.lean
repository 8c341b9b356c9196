import MonitorExport.Proofs.Store.Attaching
import MonitorExport.Store.Build

/-!
# Inserting candidates and writing changes

Candidates that were made for a change wait, each unowned, until they are inserted in order. Inserting one
of them leaves the others waiting, so that all changes of a step can be written one after the other.
-/

namespace MonitorExport

/-- The candidates that were made to become members, in order. -/
def Store.made (xs : List Store.Candidate) : List EntityId := (xs.filter (·.isNew)).map (·.entity)

/-- The entities that were made for a change. -/
def Change.made : Change → List EntityId
  | .members _ xs => Store.made xs
  | _ => []

def Change.index : Change → Nat
  | .scalar index _ | .members index _ | .bind index _ => index

/-- Whether a change suits the slot that it is for: it is of its kind, a value is one that the field stores,
what it holds or points at is of the model that the field names, and members besides new entities are given
ones. -/
def Change.Suits (s : Store) (e : EntityId) (given : EntityId → Prop) : Change → Prop
  | .scalar index stored => (s.slot e index).emptied = .scalar none ∧ Slot.Valued (s.field? e index) (.scalar stored)
  | .members index xs => s.IsCollection ⟨e, index⟩ ∧
    ∀ x ∈ xs, s.Admits (s.target e index) x.entity ∧ (x.isNew = false → given x.entity)
  | .bind index bound => (s.slot e index).emptied = .binding .unbound ∧
    Slot.Fits s (s.target e index) (.binding bound)

namespace Store

variable {s t : Store} {σ τ : Scope} {c : CollectionId} {e x : EntityId} {n : Nat}

/-! ## Waiting entities -/

/-- Entities from `n` on that wait to become members: they are distinct and belong to nothing. -/
structure Waiting (s : Store) (n : Nat) (ys : List EntityId) : Prop where
  nodup : ys.Nodup
  le : ∀ y ∈ ys, n ≤ y.index
  has : ∀ y ∈ ys, s.Has y
  unowned : ∀ y ∈ ys, s.parent y = none

namespace Waiting

variable {ys zs : List EntityId}

theorem nil (s : Store) (n : Nat) : Waiting s n [] := ⟨.nil, by simp, by simp, by simp⟩

theorem singleton (hn : n ≤ x.index) (hx : s.Has x) (hp : s.parent x = none) : Waiting s n [x] :=
  ⟨by simp, by simpa using hn, by simpa using hx, by simpa using hp⟩

theorem left (h : Waiting s n (ys ++ zs)) : Waiting s n ys :=
  ⟨(List.nodup_append.mp h.nodup).1, fun y hy => h.le y (by simp [hy]), fun y hy => h.has y (by simp [hy]),
    fun y hy => h.unowned y (by simp [hy])⟩

theorem right (h : Waiting s n (ys ++ zs)) : Waiting s n zs :=
  ⟨(List.nodup_append.mp h.nodup).2.1, fun y hy => h.le y (by simp [hy]), fun y hy => h.has y (by simp [hy]),
    fun y hy => h.unowned y (by simp [hy])⟩

theorem run (h : Waiting s n ys) (hrun : Run σ s t) (hv : ∀ y ∈ ys, ¬ σ.moves y) : Waiting t n ys :=
  ⟨h.nodup, h.le, fun y hy => hrun.has (h.has y hy), fun y hy => hrun.parent_none (hv y hy) (h.unowned y hy)⟩

theorem append (h : Waiting s n ys) (hrun : Run (.since s.entities.size fun e => e.index < n) s t)
    (h' : Waiting t s.entities.size zs) (hn : n ≤ s.entities.size) : Waiting t n (ys ++ zs) := by
  have hold := h.run hrun fun y hy => Scope.not_moves_since (Nat.le_of_lt (h.has y hy)) (Nat.not_lt.mpr (h.le y hy))
  refine ⟨List.nodup_append.mpr ⟨h.nodup, h'.nodup, fun y hy z hz he => ?_⟩, fun y hy => ?_, fun y hy => ?_,
    fun y hy => ?_⟩
  · subst he
    exact Nat.not_le.mpr (h.has y hy) (h'.le y hz)
  all_goals rcases List.mem_append.mp hy with hy | hy
  · exact h.le y hy
  · exact Nat.le_trans hn (h'.le y hy)
  · exact hold.has y hy
  · exact h'.has y hy
  · exact hold.unowned y hy
  · exact h'.unowned y hy

end Waiting

/-! ## Inserting -/

/-- Whether a collection takes members in a scope: it is an outer one, or its owner belongs to nothing and
cannot become a member. -/
structure Takes (σ : Scope) (s : Store) (c : CollectionId) : Prop where
  writes : σ.writes c
  isCollection : s.IsCollection c
  outer : σ.outer c ∨ ¬ σ.moves c.owner ∧ s.parent c.owner = none

theorem Takes.run (h : Takes σ s c) (hs : s.Linked) (hrun : Run σ s t) : Takes σ t c :=
  ⟨h.writes, hrun.isCollection hs h.isCollection, h.outer.imp_right fun h => ⟨h.1, hrun.parent_none h.1 h.2⟩⟩

theorem Takes.outer_or_ne (h : Takes σ s c) (hx : σ.moves x) :
    σ.outer c ∨ s.parent c.owner = none ∧ c.owner ≠ x :=
  h.outer.imp_right fun h => ⟨h.2, fun he => h.1 (he ▸ hx)⟩

/-- Placing a new entity links it, or gives it back; in both cases a member results. -/
theorem placeNew_run (hs : s.Linked) (hc : Takes σ s c) (hv : σ.moves e)
    (hf : s.Admits (s.target c.owner c.field) e) (hp : s.parent e = none) (hlt : c.owner.index < e.index)
    (hw : ∀ d, e.index ≤ d.owner.index → σ.writes d) :
    Run σ s (s.placeNew c e).1 ∧ Stores s c (s.placeNew c e).1 (s.placeNew c e).2 := by
  unfold placeNew
  split
  · next m hm =>
    -- the owner of the collection is older than the entity, so that giving back keeps the members
    have hrun : Run (.copying e.index) s (s.release e) := release_run fun _ hd => hd
    have hkept : (s.release e).members c = s.members c := hrun.members hs (Nat.not_le.mpr hlt)
    exact ⟨release_run hw, ⟨[], by simp [hkept]⟩, by rw [hkept]; exact List.mem_of_find?_eq_some hm⟩
  · next hm =>
    exact ⟨.single (.attach hc.writes hv hc.isCollection hf.1 hp (hc.outer_or_ne hv) hf (unequal_of_find? hm)),
      .link hc.isCollection⟩

/-- Inserting an entity in use places it, or a copy of it if it belongs to another collection. -/
theorem insertGiven_run (hs : s.Linked) (hc : Takes σ s c) (hv : σ.moves e)
    (hf : s.Admits (s.target c.owner c.field) e)
    (hw : ∀ d, s.entities.size ≤ d.owner.index → σ.writes d) (hm : ∀ y, s.entities.size ≤ y.index → σ.moves y) :
    Run σ s (s.insertGiven c e).1 ∧ Stores s c (s.insertGiven c e).1 (s.insertGiven c e).2 := by
  unfold insertGiven
  split
  · next hp => exact place_run hs hc.writes hv hc.isCollection hf.1 (by simp [hp]) (hc.outer_or_ne hv) hf
  · next p hp =>
    split
    · next hpc =>
      subst hpc
      exact place_run hs hc.writes hv hc.isCollection hf.1 (by simp [hp]) (hc.outer_or_ne hv) hf
    · obtain ⟨hcopy, hid, hhas, hnone, hmodel⟩ := duplicate_run hs hf.1
      have hrun : Run σ s (s.duplicate e).1 :=
        hcopy.mono ⟨hw, fun y hy => hm y (Nat.le_of_lt (Or.resolve_right hy id)), fun _ => False.elim⟩
      have hmove : σ.moves (s.duplicate e).2 := hm _ (by simp [hid])
      have hc' := hc.run hs hrun
      have hkept : (s.duplicate e).1.members c = s.members c :=
        hcopy.members hs (Nat.not_le.mpr hc.isCollection.has)
      have hfits : (s.duplicate e).1.Admits ((s.duplicate e).1.target c.owner c.field) (s.duplicate e).2 := by
        rw [hrun.later.target hc.isCollection.has]
        exact hf.congr hrun.registries hhas hmodel
      obtain ⟨hplace, hpre, hmem⟩ := place_run (hrun.linked hs) hc'.writes hmove hc'.isCollection hhas
        (by simp [hnone]) (hc'.outer_or_ne hmove) hfits
      exact ⟨hrun.trans hplace, hkept ▸ hpre, hmem⟩

/-- The scope of inserting a candidate within another scope: besides copies, the candidate alone moves. -/
def Scope.inserting (σ : Scope) (s : Store) (x : EntityId) : Scope where
  writes := σ.writes
  moves y := y = x ∨ s.entities.size ≤ y.index
  outer := σ.outer

theorem Takes.inserting (h : Takes σ s c) (hx : σ.moves x) : Takes (σ.inserting s x) s c :=
  ⟨h.writes, h.isCollection, h.outer.imp_right fun h' =>
    ⟨not_or.mpr ⟨fun he => h'.1 (he ▸ hx), Nat.not_le.mpr h.isCollection.has⟩, h'.2⟩⟩

theorem Scope.inserting_within (hx : σ.moves x) (hm : ∀ y, s.entities.size ≤ y.index → σ.moves y) :
    (σ.inserting s x).Within σ :=
  ⟨fun _ h => h, fun y hy => hy.elim (fun he => he ▸ hx) (hm y), fun _ h => h⟩

/-- What a candidate must meet to be inserted among others made from `n` on. -/
structure Candidate.Ready (σ : Scope) (n : Nat) (x : Candidate) : Prop where
  moves : σ.moves x.entity
  old : x.isNew = false → x.entity.index < n

/-- A candidate is ready if it waits for an owner or is an older entity that may become a member. -/
theorem Candidate.Ready.of_waiting {x : Candidate} {xs : List Candidate} (hq : Waiting s n (made xs)) (hx : x ∈ xs)
    (hg : x.isNew = false → σ.moves x.entity ∧ x.entity.index < n) (hm : ∀ y, n ≤ y.index → σ.moves y) :
    x.Ready σ n := by
  cases hnew : x.isNew with
  | true =>
      have hmem : x.entity ∈ made xs := List.mem_map.mpr ⟨x, List.mem_filter.mpr ⟨hx, hnew⟩, rfl⟩
      exact ⟨hm _ (hq.le _ hmem), by simp [hnew]⟩
  | false => exact ⟨(hg hnew).1, fun _ => (hg hnew).2⟩

theorem insert_run {x : Candidate} {ys : List EntityId} (hs : s.Linked) (hc : Takes σ s c)
    (hx : x.Ready σ n) (hf : s.Admits (s.target c.owner c.field) x.entity) (hn : n ≤ s.entities.size)
    (hlt : c.owner.index < n) (hw : ∀ d, n ≤ d.owner.index → σ.writes d) (hm : ∀ y, n ≤ y.index → σ.moves y)
    (hq : Waiting s n (made [x] ++ ys)) :
    Run σ s (s.insert c x).1 ∧ Stores s c (s.insert c x).1 (s.insert c x).2 ∧ Waiting (s.insert c x).1 n ys := by
  have hm' : ∀ y, s.entities.size ≤ y.index → σ.moves y := fun y hy => hm y (Nat.le_trans hn hy)
  have key : Run (σ.inserting s x.entity) s (s.insert c x).1 ∧ Stores s c (s.insert c x).1 (s.insert c x).2 := by
    unfold insert
    split
    · next hnew =>
      have hq' : Waiting s n [x.entity] := by simpa [made, hnew] using hq.left
      refine placeNew_run hs (hc.inserting hx.moves) (Or.inl rfl) hf (hq'.unowned _ (by simp))
        (Nat.lt_of_lt_of_le hlt (hq'.le _ (by simp))) fun d hd => hw d (Nat.le_trans (hq'.le _ (by simp)) hd)
    · next hnew =>
      exact insertGiven_run hs (hc.inserting hx.moves) (Or.inl rfl) hf (fun d hd => hw d (Nat.le_trans hn hd))
        fun y hy => Or.inr hy
  refine ⟨key.1.mono (Scope.inserting_within hx.moves hm'), key.2, hq.right.run key.1 fun y hy => ?_⟩
  rintro (rfl | hle)
  · cases hnew : x.isNew with
    | true => exact (List.nodup_append.mp hq.nodup).2.2 x.entity (by simp [made, hnew]) x.entity hy rfl
    | false => exact Nat.not_le.mpr (hx.old hnew) (hq.right.le _ hy)
  · exact Nat.not_le.mpr (hq.right.has y hy) hle

theorem made_cons (x : Candidate) (xs : List Candidate) : made (x :: xs) = made [x] ++ made xs := by
  cases h : x.isNew <;> simp [made, h]

/-- Candidates are inserted one after the other; what results for each is a member in the end. -/
theorem insertAll_run {xs : List Candidate} {ys : List EntityId} (hs : s.Linked) (hc : Takes σ s c)
    (hx : ∀ x ∈ xs, x.Ready σ n) (hf : ∀ x ∈ xs, s.Admits (s.target c.owner c.field) x.entity)
    (hn : n ≤ s.entities.size) (hlt : c.owner.index < n) (hw : ∀ d, n ≤ d.owner.index → σ.writes d)
    (hm : ∀ y, n ≤ y.index → σ.moves y) (hq : Waiting s n (made xs ++ ys)) :
    Run σ s (s.insertAll c xs).1 ∧ s.members c <+: (s.insertAll c xs).1.members c ∧
      (∀ m ∈ (s.insertAll c xs).2, m ∈ (s.insertAll c xs).1.members c) ∧ Waiting (s.insertAll c xs).1 n ys := by
  induction xs generalizing s with
  | nil => exact ⟨.refl, List.prefix_rfl, by simp [insertAll], hq⟩
  | cons x xs ih =>
      rw [made_cons, List.append_assoc] at hq
      obtain ⟨hrun, hst, hwait⟩ := insert_run hs hc (hx x (by simp)) (hf x (by simp)) hn hlt hw hm hq
      obtain ⟨hruns, hpre, hmem, hwaits⟩ := ih (hrun.linked hs) (hc.run hs hrun) (fun y hy => hx y (by simp [hy]))
        (fun y hy => hrun.later.admits_target hc.isCollection.has (hf y (by simp [hy])))
        (Nat.le_trans hn hrun.size_le) hwait
      refine ⟨hrun.trans hruns, hst.members_prefix.trans hpre, fun m hm => ?_, hwaits⟩
      rcases List.mem_cons.mp hm with rfl | hm
      · exact hpre.subset hst.mem
      · exact hmem m hm

/-! ## Writing changes -/

variable {given : EntityId → Prop}

theorem Change.Suits.run {change : Change} (h : change.Suits s e given) (hs : s.Linked) (hrun : Run σ s t)
    (he : s.Has e) : change.Suits t e given := by
  cases change with
  | scalar index _ => exact ⟨(hrun.emptied hs he).trans h.1, hrun.later.field? he index ▸ h.2⟩
  | members index _ =>
      exact ⟨hrun.isCollection hs h.1, fun x hx => ⟨hrun.later.admits_target he (h.2 x hx).1, (h.2 x hx).2⟩⟩
  | bind index _ => exact ⟨(hrun.emptied hs he).trans h.1, hrun.later.target he index ▸ hrun.later.slot_fits h.2⟩

/-- A slot that is not one of members can be replaced by one of its kind. -/
theorem setSlot_run {i : Nat} {slot : Slot} (hw : σ.writes ⟨e, i⟩) (hk : slot.emptied = (s.slot e i).emptied)
    (hm : slot.emptied ≠ .members []) (hf : slot.Fits s (s.target e i)) (hv : slot.Valued (s.field? e i))
    (ho : σ.outer ⟨e, i⟩ ∨ s.parent e = none) : Run σ s (s.setSlot e i slot) := by
  refine .single (.assign (c := ⟨e, i⟩) hw hk ?_ hf hv ho)
  rw [members_eq]
  cases slot <;> cases hslot : s.slot e i <;> simp_all [Slot.emptied, slotMembers]

theorem clear_run (hw : σ.writes c) (hc : s.IsCollection c) : Run σ s (s.clear c) := .single (.clear hw hc)

/-- Whether a scope lets the slot of an entity be changed: its owner takes members, if it is a collection. -/
def Scope.Opens (σ : Scope) (s : Store) (e : EntityId) (index : Nat) : Prop :=
  σ.writes ⟨e, index⟩ ∧ (σ.outer ⟨e, index⟩ ∨ ¬ σ.moves e ∧ s.parent e = none)

theorem Scope.Opens.run {i : Nat} (h : σ.Opens s e i) (hrun : Run σ s t) : σ.Opens t e i :=
  ⟨h.1, h.2.imp_right fun h => ⟨h.1, hrun.parent_none h.1 h.2⟩⟩

/-- Inserting the candidates of a staged change keeps the members that are there in their places. -/
theorem insertStaged_run {index : Nat} {xs : List Candidate} {ys : List EntityId} (hs : s.Linked)
    (ho : σ.Opens s e index) (hf : (Change.members index xs).Suits s e given) (hn : n ≤ s.entities.size)
    (hlt : e.index < n) (hg : ∀ x, given x → σ.moves x ∧ x.index < n) (hw : ∀ d, n ≤ d.owner.index → σ.writes d)
    (hm : ∀ y, n ≤ y.index → σ.moves y) (hq : Waiting s n (made xs ++ ys)) :
    Run σ s (s.insertAll ⟨e, index⟩ xs).1 ∧ s.members ⟨e, index⟩ <+: (s.insertAll ⟨e, index⟩ xs).1.members ⟨e, index⟩ ∧
      Waiting (s.insertAll ⟨e, index⟩ xs).1 n ys := by
  have hready : ∀ x ∈ xs, x.Ready σ n := fun x hx =>
    .of_waiting hq.left hx (fun hnew => hg _ ((hf.2 x hx).2 hnew)) hm
  obtain ⟨hrun, hpre, _, hwait⟩ := insertAll_run hs ⟨ho.1, hf.1, ho.2⟩ hready (fun x hx => (hf.2 x hx).1) hn hlt hw hm hq
  exact ⟨hrun, hpre, hwait⟩

/-- Writing a staged change is a run, in which what waits besides the change's own new members waits on. -/
theorem commit_run {change : Change} {replace : Bool} {ys : List EntityId} (hs : s.Linked)
    (ho : σ.Opens s e change.index) (hf : change.Suits s e given) (hn : n ≤ s.entities.size) (hlt : e.index < n)
    (hg : ∀ x, given x → σ.moves x ∧ x.index < n) (hw : ∀ d, n ≤ d.owner.index → σ.writes d)
    (hm : ∀ y, n ≤ y.index → σ.moves y) (hq : Waiting s n (change.made ++ ys)) :
    Run σ s (s.commit e replace change) ∧ Waiting (s.commit e replace change) n ys := by
  -- a run that moves nothing keeps all waiting
  let τ : Scope := ⟨σ.writes, fun _ => False, σ.outer⟩
  have hτ : τ.Within σ := ⟨fun _ h => h, fun _ => False.elim, fun _ h => h⟩
  cases change with
  | scalar index stored =>
      have hrun : Run τ s (s.commit e replace (.scalar index stored)) :=
        setSlot_run ho.1 (Eq.symm hf.1) (by simp [Slot.emptied]) trivial hf.2 (ho.2.imp_right (·.2))
      exact ⟨hrun.mono hτ, hq.right.run hrun fun _ _ => id⟩
  | bind index bound =>
      have hrun : Run τ s (s.commit e replace (.bind index bound)) :=
        setSlot_run ho.1 (Eq.symm hf.1) (by simp [Slot.emptied]) hf.2 trivial (ho.2.imp_right (·.2))
      exact ⟨hrun.mono hτ, hq.right.run hrun fun _ _ => id⟩
  | members index xs =>
      obtain ⟨t, ht, hrun⟩ : ∃ t, t = (if replace then s.clear ⟨e, index⟩ else s) ∧ Run τ s t := by
        cases replace with
        | true => exact ⟨_, rfl, clear_run ho.1 hf.1⟩
        | false => exact ⟨_, rfl, .refl⟩
      have hsuits : (Change.members index xs).Suits t e given := Change.Suits.run hf hs hrun hf.1.has
      obtain ⟨hall, _, hwait⟩ := insertStaged_run (hrun.linked hs) (ho.run (hrun.mono hτ)) hsuits
        (Nat.le_trans hn hrun.size_le) hlt hg hw hm (hq.run hrun fun _ _ => id)
      simp only [commit, ← ht]
      exact ⟨(hrun.mono hτ).trans hall, hwait⟩

theorem commitAll_run {changes : List Change} (hs : s.Linked) (he : s.Has e)
    (ho : ∀ change ∈ changes, σ.Opens s e change.index) (hf : ∀ change ∈ changes, change.Suits s e given)
    (hn : n ≤ s.entities.size) (hlt : e.index < n) (hg : ∀ x, given x → σ.moves x ∧ x.index < n)
    (hw : ∀ d, n ≤ d.owner.index → σ.writes d) (hm : ∀ y, n ≤ y.index → σ.moves y)
    (hq : Waiting s n (changes.flatMap Change.made)) : Run σ s (s.commitAll e changes) := by
  induction changes generalizing s with
  | nil => exact .refl
  | cons change changes ih =>
      have hcommit : Run σ s (s.commit e false change) ∧
          Waiting (s.commit e false change) n (changes.flatMap Change.made) :=
        commit_run hs (ho change (by simp)) (hf change (by simp)) hn hlt hg hw hm (by simpa using hq)
      obtain ⟨hrun, hwait⟩ := hcommit
      exact hrun.trans (ih (hrun.linked hs) (hrun.has he) (fun d hd => (ho d (by simp [hd])).run hrun)
        (fun d hd => Change.Suits.run (hf d (by simp [hd])) hs hrun he) (Nat.le_trans hn hrun.size_le) hwait)

end Store

end MonitorExport
