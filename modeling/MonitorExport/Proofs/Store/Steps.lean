import Mathlib.Data.List.Forall2
import MonitorExport.Store.Build

/-!
# Steps that may fail

What a step on the store guarantees is said by two conditions: one on its result and the store after a
success, one on the store after a failure. There is a rule for each way in which steps are put together.
-/

namespace MonitorExport.Edit

variable {α β : Type} {s : Store} {post : α → Store → Prop} {post' : β → Store → Prop} {fail : Store → Prop}

/-- A step from a store ends well in `post`, or ends with a failure in `fail`. -/
def Ends (step : Edit α) (post : α → Store → Prop) (fail : Store → Prop) (s : Store) : Prop :=
  match step s with
  | (.ok a, t) => post a t
  | (.error _, t) => fail t

/-- The condition after a success, for what a step gives. -/
theorem Ends.ok {step : Edit α} (h : Ends step post fail s) {a : α} {t : Store} (hs : step s = (.ok a, t)) :
    post a t := by
  rwa [Ends, hs] at h

theorem Ends.error {step : Edit α} (h : Ends step post fail s) {err : ConfigError} {t : Store}
    (hs : step s = (.error err, t)) : fail t := by
  rwa [Ends, hs] at h

theorem Ends.of_cases {step : Edit α} (hok : ∀ a t, step s = (.ok a, t) → post a t)
    (herr : ∀ err t, step s = (.error err, t) → fail t) : Ends step post fail s := by
  rcases hs : step s with ⟨_ | a, t⟩ <;> rw [Ends, hs]
  · exact herr _ t hs
  · exact hok a t hs

theorem Ends.mono {step : Edit α} {post₀ : α → Store → Prop} {fail₀ : Store → Prop}
    (h : Ends step post₀ fail₀ s) (hp : ∀ a t, post₀ a t → post a t) (hf : ∀ t, fail₀ t → fail t) :
    Ends step post fail s :=
  .of_cases (fun a t hs => hp a t (h.ok hs)) fun _ t hs => hf t (h.error hs)

theorem Ends.and {step : Edit α} {post₀ : α → Store → Prop} {fail₀ : Store → Prop} (h : Ends step post fail s)
    (h₀ : Ends step post₀ fail₀ s) : Ends step (fun a t => post a t ∧ post₀ a t) fail s :=
  .of_cases (fun _ _ hs => ⟨h.ok hs, h₀.ok hs⟩) fun _ _ hs => h.error hs

theorem ends_trivial (step : Edit α) (s : Store) : Ends step (fun _ _ => True) (fun _ => True) s :=
  .of_cases (fun _ _ _ => trivial) fun _ _ _ => trivial

/-- What holds of the store after any end. -/
theorem Ends.after {step : Edit α} (h : Ends step (fun _ => fail) fail s) : fail (step s).2 := by
  rcases hs : step s with ⟨_ | a, t⟩
  · exact h.error hs
  · exact h.ok hs

theorem ends_pure {a : α} (h : post a s) : Ends (pure a) post fail s := h

theorem ends_throw {err : ConfigError} (h : fail s) : Ends (throw err : Edit α) post fail s := h

theorem ends_ofChange {change : Store → Store × α} (h : post (change s).2 (change s).1) :
    Ends (ofChange change) post fail s := h

theorem ends_apply {change : Store → Store} {post : Unit → Store → Prop} (h : post () (change s)) :
    Ends (apply change) post fail s := h

theorem bind_ok {step : Edit α} {next : α → Edit β} {a : α} {t : Store} (h : step s = (.ok a, t)) :
    (step >>= next) s = next a t := by
  show ExceptT.bind step next s = _
  simp only [ExceptT.bind, ExceptT.mk, bind, StateT.bind, h, ExceptT.bindCont]

theorem bind_error {step : Edit α} {next : α → Edit β} {err : ConfigError} {t : Store}
    (h : step s = (.error err, t)) : (step >>= next) s = (.error err, t) := by
  show ExceptT.bind step next s = _
  simp only [ExceptT.bind, ExceptT.mk, bind, StateT.bind, h, ExceptT.bindCont]
  rfl

theorem ends_bind {step : Edit α} {next : α → Edit β} (h : Ends step post fail s)
    (hn : ∀ a t, step s = (.ok a, t) → post a t → Ends (next a) post' fail t) :
    Ends (step >>= next) post' fail s := by
  rcases hs : step s with ⟨_ | a, t⟩
  · rw [Ends, bind_error hs]
    exact h.error hs
  · rw [Ends, bind_ok hs]
    exact hn a t hs (h.ok hs)

theorem bind_store (next : Store → Edit β) (s : Store) : (Edit.store >>= next) s = next s s := bind_ok rfl

theorem ends_bind_store {next : Store → Edit β} (h : Ends (next s) post' fail s) :
    Ends (Edit.store >>= next) post' fail s := by
  rw [Ends, bind_store]
  exact h

theorem ends_bind_read {read : Store → Except ConfigError α} {next : α → Edit β} (herr : fail s)
    (hok : ∀ a, read s = .ok a → Ends (next a) post' fail s) : Ends (ofRead read >>= next) post' fail s := by
  cases hr : read s with
  | error err =>
      have hs : ofRead read s = (.error err, s) := by rw [ofRead, hr]
      rw [Ends, bind_error hs]
      exact herr
  | ok a =>
      have hs : ofRead read s = (.ok a, s) := by rw [ofRead, hr]
      rw [Ends, bind_ok hs]
      exact hok a hr

theorem ends_bind_change {change : Store → Store × α} {next : α → Edit β}
    (h : Ends (next (change s).2) post' fail (change s).1) : Ends (ofChange change >>= next) post' fail s := by
  have hs : ofChange change s = (.ok (change s).2, (change s).1) := rfl
  rw [Ends, bind_ok hs]
  exact h

theorem ends_bind_apply {change : Store → Store} {next : Unit → Edit β}
    (h : Ends (next ()) post' fail (change s)) : Ends (Edit.apply change >>= next) post' fail s := by
  have hs : Edit.apply change s = (.ok (), change s) := rfl
  rw [Ends, bind_ok hs]
  exact h

/-- A failure told otherwise. -/
theorem refusing_eq (reason : ConfigError → ConfigError) (step : Edit α) (s : Store) :
    Store.refusing reason step s = ((step s).1.mapError reason, (step s).2) := by
  show ExceptT.tryCatch step _ s = _
  simp only [ExceptT.tryCatch, ExceptT.mk, bind, StateT.bind]
  rcases step s with ⟨err | a, t⟩ <;> rfl

/-- A failure told otherwise is a failure at the same store. -/
theorem ends_refusing {reason : ConfigError → ConfigError} {step : Edit α} (h : Ends step post fail s) :
    Ends (Store.refusing reason step) post fail s := by
  rw [Ends, refusing_eq]
  rcases hs : step s with ⟨err | a, t⟩
  · exact h.error hs
  · exact h.ok hs

/-- Steps on the items of a list, one after the other, under a condition on the results so far. -/
theorem ends_mapM {f : α → Edit β} {inv : List β → Store → Prop} (items : List α)
    (hf : ∀ a ∈ items, ∀ bs t, inv bs t → Ends (f a) (fun b => inv (bs ++ [b])) fail t) (h : inv [] s) :
    Ends (items.mapM f) inv fail s := by
  suffices key : ∀ bs t, inv bs t → Ends (items.mapM f) (fun cs => inv (bs ++ cs)) fail t by simpa using key [] s h
  clear h
  induction items with
  | nil => exact fun bs t hi => ends_pure (by simpa using hi)
  | cons a items ih =>
      intro bs t hi
      rw [List.mapM_cons]
      refine ends_bind (hf a (by simp) bs t hi) fun b u _ hb => ?_
      refine ends_bind (ih (fun a' ha => hf a' (by simp [ha])) (bs ++ [b]) u hb) fun cs v _ hc => ?_
      exact ends_pure (by simpa using hc)

/-- Steps on the items of a list give what each of them gives from the stores that the others leave. -/
theorem ends_mapM_each {f : α → Edit β} {inv : Store → Prop} {R : α → β → Prop} (items : List α)
    (hf : ∀ a ∈ items, ∀ t, inv t → Ends (f a) (fun b u => inv u ∧ R a b) fail t) (h : inv s) :
    Ends (items.mapM f) (fun bs t => inv t ∧ List.Forall₂ R items bs) fail s := by
  induction items generalizing s with
  | nil => exact ends_pure ⟨h, .nil⟩
  | cons a items ih =>
      rw [List.mapM_cons]
      refine ends_bind (hf a (by simp) s h) fun b t _ hb => ?_
      refine ends_bind (ih (fun a' ha => hf a' (by simp [ha])) hb.1) fun bs u _ hbs => ?_
      exact ends_pure ⟨hbs.1, .cons hb.2 hbs.2⟩

/-- A step that gives up what it made after a failure. -/
theorem ends_orRelease {step : Edit α} {fail₀ : Store → Prop} (h : Ends step post fail₀ s)
    (hf : ∀ t, fail₀ t → fail (t.releaseSince s.entities.size)) : Ends (orRelease step) post fail s := by
  rcases hs : step s with ⟨err | a, t⟩
  · rw [Ends, orRelease, hs]
    exact hf t (h.error hs)
  · rw [Ends, orRelease, hs]
    exact h.ok hs

end MonitorExport.Edit
