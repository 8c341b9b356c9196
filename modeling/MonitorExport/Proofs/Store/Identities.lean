import MonitorExport.Proofs.Schema.Resolving
import MonitorExport.Proofs.Store.Typing
import MonitorExport.Store.Identity

/-!
# What references stand for

A reference stands for what it is bound to, completed by a host if it asks for one. An identity that was completed is
not completed again, and its keys are distinct.
-/

namespace MonitorExport.Store

variable {s : Store} {x a : EntityId} {i : Nat} {host : Option EntityId} {identity identity' : Identity}

/-- An identity, completed by the host of a reference that asks for it. -/
def completed (s : Store) (x : EntityId) (i : Nat) (identity : Identity) : Except ConfigError Identity :=
  if s.appendsHost x i && !identity.contains "host" then s.withHost identity (s.stampingHost x) else .ok identity

theorem resolve_literal (hb : s.binding x i = .literal identity) : s.resolve x i = s.completed x i identity := by
  rw [Store.resolve, hb]
  rfl

theorem resolve_entity (hb : s.binding x i = .entity a) : s.resolve x i = s.identity a >>= s.completed x i := by
  rw [Store.resolve, hb]
  rfl

theorem resolve_unbound (hb : s.binding x i = .unbound) :
    s.resolve x i = .error (.danglingReference (s.schemaOf x).name (s.fieldName x i)) := by
  rw [Store.resolve, hb]
  rfl

theorem withHost_eq_ok (h : s.withHost identity host = .ok identity') :
    identity' = identity ∧ (∀ a, host = some a → s.get a hostNameField = .ok none) ∨
      ∃ a v, host = some a ∧ s.get a hostNameField = .ok (some v) ∧ identity' = identity.insert "host" v := by
  cases host with
  | none =>
      cases h
      exact .inl ⟨rfl, nofun⟩
  | some a =>
      obtain ⟨v, hv, h⟩ := bind_eq_ok h
      cases v with
      | none =>
          cases h
          exact .inl ⟨rfl, fun b hb => Option.some.inj hb ▸ hv⟩
      | some v =>
          cases h
          exact .inr ⟨a, v, rfl, hv, rfl⟩

/-! ## Distinct keys -/

theorem nodup_withHost (hn : identity.keys.Nodup) (h : s.withHost identity host = .ok identity') :
    identity'.keys.Nodup := by
  rcases withHost_eq_ok h with ⟨rfl, _⟩ | ⟨_, v, _, _, rfl⟩
  · exact hn
  · exact Entries.nodup_keys_insert hn _ v

theorem nodup_completed (hn : identity.keys.Nodup) (h : s.completed x i identity = .ok identity') :
    identity'.keys.Nodup := by
  unfold completed at h
  split at h
  · exact nodup_withHost hn h
  · cases h
    exact hn

theorem nodup_identity (h : s.identity a = .ok identity) : identity.keys.Nodup := by
  unfold Store.identity at h
  dsimp only at h
  split at h
  · cases h
  · next shape _ =>
    obtain ⟨v, _, h⟩ := bind_eq_ok h
    split at h
    · cases h
    · have hempty : (Entries.empty : Identity).keys.Nodup := .nil
      exact nodup_withHost (Entries.nodup_keys_insert hempty shape.key _) h

/-- What a reference stands for has distinct keys. -/
theorem nodup_resolve (hs : s.Typed) (h : s.resolve x i = .ok identity) : identity.keys.Nodup := by
  cases hb : s.binding x i with
  | unbound =>
      rw [resolve_unbound hb] at h
      cases h
  | literal literal =>
      rw [resolve_literal hb] at h
      exact nodup_completed (hs.nodup_of_binding hb) h
  | entity a =>
      rw [resolve_entity hb] at h
      obtain ⟨found, hfound, h⟩ := bind_eq_ok h
      exact nodup_completed (nodup_identity hfound) h

/-! ## Completing again -/

/-- An identity that was completed has a host, or there is none that it could be given. -/
theorem completed_completed (h : s.completed x i identity = .ok identity') :
    s.completed x i identity' = .ok identity' := by
  unfold completed at h
  split at h
  · rcases withHost_eq_ok h with ⟨rfl, _⟩ | ⟨a, v, _, _, rfl⟩
    · next hif => rw [completed, if_pos hif, h]
    · have hhost : (identity.insert "host" v).contains "host" = true := Entries.contains_insert ..
      rw [completed, if_neg (by simp [hhost])]
  · next hif =>
    cases h
    rw [completed, if_neg hif]

theorem completed_of_resolve (h : s.resolve x i = .ok identity) : s.completed x i identity = .ok identity := by
  cases hb : s.binding x i with
  | unbound =>
      rw [resolve_unbound hb] at h
      cases h
  | literal literal =>
      rw [resolve_literal hb] at h
      exact completed_completed h
  | entity a =>
      rw [resolve_entity hb] at h
      obtain ⟨found, _, h⟩ := bind_eq_ok h
      exact completed_completed h

end MonitorExport.Store
