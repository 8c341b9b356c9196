import MonitorExport.Proofs.Chains
import MonitorExport.Proofs.Store.Ownership

/-!
# Owners end

Nothing forbids to attach an entity below itself, so following owners need not end. It does end as long as
no operation gives another owner to the entity that it works on or to an entity above that one. The run of an
operation keeps owners ended or tethered to that entity, above which there is nothing new.
-/

namespace MonitorExport

namespace Store

variable {s t : Store} {σ : Scope} {e x : EntityId} {anchor : EntityId → Prop}

/-- Whether following owners ends from every entity. -/
def Forest (s : Store) : Prop := ∀ e, Finishes s.owner e

/-- The entities that are an entity or own it, directly or not. -/
abbrev AtOrAbove (s : Store) : EntityId → EntityId → Prop :=
  Relation.ReflTransGen fun a b => s.owner a = some b

/-- Following owners from an entity ends or comes to an anchor. -/
inductive Tethered (anchor : EntityId → Prop) (s : Store) : EntityId → Prop
  | root {e : EntityId} (h : s.owner e = none) : Tethered anchor s e
  | anchor {e : EntityId} (h : anchor e) : Tethered anchor s e
  | owned {e o : EntityId} (h : s.owner e = some o) (ho : Tethered anchor s o) : Tethered anchor s e

namespace Tethered

theorem of_finishes (h : Finishes s.owner e) : Tethered anchor s e := by
  induction h with
  | last h => exact .root h
  | step h _ ih => exact .owned h ih

theorem finishes (h : Tethered anchor s e) (ha : ∀ x, anchor x → Finishes s.owner x) : Finishes s.owner e := by
  induction h with
  | root h => exact .last h
  | anchor h => exact ha _ h
  | owned h _ ih => exact .step h ih

/-- Taking owners away tethers no less. -/
theorem of_fewer (h : Tethered anchor s e) (hp : ∀ x, t.parent x = none ∨ t.parent x = s.parent x) :
    Tethered anchor t e := by
  induction h with
  | root h =>
      rw [owner_eq_none] at h
      exact .root (owner_eq_none.mpr ((hp _).elim id fun he => he.trans h))
  | anchor h => exact .anchor h
  | @owned e o h _ ih =>
      rcases hp e with hn | he
      · exact .root (owner_eq_none.mpr hn)
      · exact .owned (by rw [owner, he, ← owner, h]) ih

end Tethered

/-- A write keeps entities tethered to the owners of the outer collections. -/
theorem Write.tethered (ho : ∀ c, σ.outer c → anchor c.owner) (h : Write σ s t) (hall : ∀ x, Tethered anchor s x)
    (e : EntityId) : Tethered anchor t e := by
  cases h with
  | push hp => exact (hall e).of_fewer fun x => .inr (parent_push hp)
  | assign => exact (hall e).of_fewer fun x => .inr parent_setSlot
  | detach => exact (hall e).of_fewer fun x => by rw [parent_unlink]; split <;> simp
  | clear => exact (hall e).of_fewer fun x => by rw [parent_clear]; split <;> simp
  | @attach c m _ _ _ hh hp hc =>
      have howner : ∀ x, (s.link c m).owner x = if x = m then some c.owner else s.owner x := fun x => by
        rw [owner, parent_link hh]
        split <;> rfl
      -- the collection belongs to an anchor, or to an entity that belongs to nothing before and after
      have hroot : Tethered anchor (s.link c m) c.owner := by
        rcases hc with hc | ⟨hc, hne⟩
        · exact .anchor (ho c hc)
        · exact .root (by rw [howner, if_neg hne, owner_eq_none.mpr hc])
      have hm : Tethered anchor (s.link c m) m := .owned (by rw [howner, if_pos rfl]) hroot
      induction hall e with
      | @root x h =>
          by_cases hx : x = m
          · exact hx ▸ hm
          · exact .root (by rw [howner, if_neg hx, h])
      | anchor h => exact .anchor h
      | @owned x o h _ ih =>
          by_cases hx : x = m
          · exact hx ▸ hm
          · exact .owned (by rw [howner, if_neg hx, h]) ih

theorem Run.tethered (ho : ∀ c, σ.outer c → anchor c.owner) (h : Run σ s t) (hall : ∀ x, Tethered anchor s x) :
    ∀ e, Tethered anchor t e := by
  induction h with
  | refl => exact hall
  | tail _ hw ih => exact hw.tethered ho ih

theorem Linked.has_of_atOrAbove (hs : s.Linked) (h : s.AtOrAbove e x) (he : s.Has e) : s.Has x := by
  induction h with
  | refl => exact he
  | tail _ ho _ => exact hs.has_owner ho

end Store

namespace Operation

variable {s t : Store} {h : Handles} {op : Operation} {e : EntityId}

/-- Whether an operation from one store to another gives an owner that it did not have to the entity that the operation
works on, or to one that owned this entity, directly or not. -/
def Grafts (op : Operation) (s t : Store) : Prop :=
  ∃ e r o, op.subject? = some e ∧ s.AtOrAbove e r ∧ t.owner r = some o ∧ s.owner r ≠ some o

theorem has_subject (hv : op.Valid s) (he : op.subject? = some e) : s.Has e := by
  have hh := hv.handle
  cases op <;> simp only [subject?, Option.some.injEq, reduceCtorEq] at he <;> subst he
  case assign => exact hh
  case update => exact hh
  case bind e index _ =>
    have hne : s.slot e index ≠ .scalar none := fun h => by simp [Handle, h, Slot.emptied] at hh
    exact Store.has_of_slot_ne hne
  all_goals exact Store.IsCollection.has hh

/-- An operation that is given neither what it works on nor an owner of that does not graft. -/
theorem not_grafts (hs : s.Linked) (hr : s.NamesGiven) (hv : op.Valid s)
    (hn : ∀ e r, op.subject? = some e → s.AtOrAbove e r → ¬ op.Names r) : ¬ op.Grafts s (op.stepHolding h s).2 := by
  rintro ⟨e, r, o, he, hup, ho, hnot⟩
  obtain ⟨c, hc, rfl⟩ := Store.owner_eq_some.mp ho
  have hold : s.Has r := hs.has_of_atOrAbove hup (has_subject hv he)
  have hmoves : ¬ (op.scope s).everywhere.moves r := not_or.mpr ⟨Nat.not_le.mpr hold, hn e r he hup⟩
  exact hnot (Store.owner_of_parent ((op.retains_after hs hr hv h).run.parent_fewer hmoves hc))

/-- An operation that works on no entity does not graft. -/
theorem not_grafts_of_subject? (hn : op.subject? = none) : ¬ op.Grafts s t := by
  rintro ⟨e, _, _, he, _⟩
  rw [hn] at he
  cases he

/-- Where nothing at or above an entity has a new owner, following owners from it ends as before. -/
theorem finishes_subject (hf : Finishes s.owner e) (he : op.subject? = some e) (hg : ¬ op.Grafts s t) :
    Finishes t.owner e := by
  suffices key : ∀ x, Finishes s.owner x → s.AtOrAbove e x → Finishes t.owner x from key e hf .refl
  have hsame : ∀ x o, s.AtOrAbove e x → t.owner x = some o → s.owner x = some o := fun x o hup ho =>
    Decidable.byContradiction fun hne => hg ⟨e, x, o, he, hup, ho, hne⟩
  intro x hx
  induction hx with
  | @last r hr =>
      intro hup
      refine .last (Option.eq_none_iff_forall_ne_some.mpr fun o ho => ?_)
      cases hr.symm.trans (hsame r o hup ho)
  | @step x o hx _ ih =>
      intro hup
      cases ho : t.owner x with
      | none => exact .last ho
      | some p =>
          cases hx.symm.trans (hsame x p hup ho)
          exact .step ho (ih (hup.tail hx))

theorem forest_after (hs : s.Linked) (hr : s.NamesGiven) (hv : op.Valid s) (hf : s.Forest)
    (hg : ¬ op.Grafts s (op.stepHolding h s).2) : (op.stepHolding h s).2.Forest := by
  intro e
  have htethered : ∀ x, Store.Tethered (fun x => op.subject? = some x) (op.stepHolding h s).2 x :=
    (op.retains_after hs hr hv h).run.tethered (fun c hc => subject?_of_targets hc) fun x => .of_finishes (hf x)
  exact (htethered e).finishes fun x hx => finishes_subject (hf x) hx hg

end Operation

namespace Store

variable {s : Store} {h : Handles}

theorem forest_ofRegistries (registries : List Registry) : (Store.ofRegistries registries).Forest := fun e =>
  .last (owner_eq_none.mpr (parent_of_not_has (by simp [Has, ofRegistries])))

/-- Giving up takes owners away. -/
theorem Forest.sweep (hf : s.Forest) : (s.sweep h).Forest := fun e => by
  have htethered : Tethered (fun _ => False) (s.sweep h) e :=
    (sweep_run s h).tethered (fun _ => False.elim) (fun x => .of_finishes (hf x)) e
  exact htethered.finishes fun _ => False.elim

theorem forest_of_reaches (hr : ReachesBy (fun s h op => ¬ op.Grafts s (op.stepHolding h s).2) s h) : s.Forest := by
  induction hr with
  | start => exact forest_ofRegistries _
  | step hr hv _ hg ih => exact Operation.forest_after hr.linked hr.namesGiven hv ih hg
  | hold _ _ ih => exact ih.sweep

/-- A program that has a handle to everything and does not graft. -/
theorem reaches_of_ungrafted (hr : ReachableBy (fun s op => ¬ op.Grafts s (op.step s).2) s) :
    ReachesBy (fun s h op => ¬ op.Grafts s (op.stepHolding h s).2) s .all :=
  hr.reaches fun s op hg => by rwa [op.stepHolding_all]

end Store

end MonitorExport
