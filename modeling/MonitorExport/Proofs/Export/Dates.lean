import MonitorExport.Export.Compiler

/-!
# Dates

A document is dated when it is compiled, unless the time of its compiler is pinned. Nothing else of a tree depends on the
clock.
-/

namespace MonitorExport.Compiler

variable {c : Compiler} {s t : Store} {e x : EntityId} {now later : Timestamp}

/-- The elements of the fields of an entity before pruning. -/
def fieldNodes (c : Compiler) (s : Store) (e : EntityId) : Except ConfigError (List Node) :=
  ((Mapping.entityNodes s [] (s.subtree e)).run c.palette.reset).map (·.1)

/-- The tree of a document from the elements of its fields. Only the header in it is dated. -/
def document (c : Compiler) (nodes : List Node) : Node :=
  (c.rules.prune (.ofChildren rootTag (c.header ++ nodes))).gather

theorem mapRoot_eq_fieldNodes (c : Compiler) (s : Store) (e : EntityId) :
    c.mapRoot s e = (c.fieldNodes s e).map fun nodes =>
      if s.isDocument e then .ofChildren rootTag (c.header ++ nodes) else .ofChildren (s.schemaOf e).tag nodes := by
  unfold mapRoot fieldNodes
  cases (Mapping.entityNodes s [] (s.subtree e)).run c.palette.reset with
  | error err => rfl
  | ok drawn => cases hd : s.isDocument e <;> rfl

theorem compile_document (hd : s.isDocument e = true) : c.compile s e = (c.fieldNodes s e).map c.document := by
  rw [compile, mapRoot_eq_fieldNodes]
  simp only [hd, if_true]
  cases c.fieldNodes s e <;> rfl

/-- The clock is not looked at for a compiler with a pinned time, nor for an entity that is no document. -/
theorem compile_atClock (h : c.pinned.isSome = true ∨ s.isDocument e = false) :
    (c.atClock later).compile s e = (c.atClock now).compile s e := by
  have hheader : s.isDocument e = true → (c.atClock later).header = (c.atClock now).header := fun hd => by
    obtain ⟨pinned, hpinned⟩ := Option.isSome_iff_exists.mp (h.resolve_right (by simp [hd]))
    have htime : ∀ clock, (c.atClock clock).time = pinned := fun clock => by
      rw [time, atClock, hpinned, Option.getD_some]
    rw [header, header, htime, htime]
    rfl
  have hroot : (c.atClock later).mapRoot s e = (c.atClock now).mapRoot s e := by
    rw [mapRoot_eq_fieldNodes, mapRoot_eq_fieldNodes]
    refine congrArg (Except.map · (c.fieldNodes s e)) (funext fun nodes => ?_)
    cases hd : s.isDocument e with
    | true => simp only [if_true, hheader hd]
    | false => rfl
  rw [compile, compile, hroot]
  rfl

/-- Whether a compiler gives for one entity, whenever it is compiled, what it gives for another: the same tree or the same
failure, but for the date in the header of a document when the time is not pinned. -/
structure Repeats (c : Compiler) (s : Store) (e : EntityId) (t : Store) (x : EntityId) : Prop where
  same : ∀ now later, c.pinned.isSome = true ∨ s.isDocument e = false ∨ now = later →
    (c.atClock later).compile t x = (c.atClock now).compile s e
  dated : s.isDocument e = true → ∃ nodes : Except ConfigError (List Node), ∀ clock,
    (c.atClock clock).compile s e = nodes.map (c.atClock clock).document ∧
      (c.atClock clock).compile t x = nodes.map (c.atClock clock).document

/-- Entities that always compile alike at one time compile alike at any two, but for the date. -/
theorem Repeats.of_compile (h : ∀ c : Compiler, c.compile t x = c.compile s e) (c : Compiler) : c.Repeats s e t x where
  same now later htime := by
    rw [h]
    rcases htime with hpinned | hd | rfl
    · exact compile_atClock (.inl hpinned)
    · exact compile_atClock (.inr hd)
    · rfl
  dated hd := by
    have hdocument : ∀ clock, (c.atClock clock).compile s e = (c.fieldNodes s e).map (c.atClock clock).document :=
      fun _ => compile_document hd
    exact ⟨c.fieldNodes s e, fun clock => ⟨hdocument clock, (h _).trans (hdocument clock)⟩⟩

end MonitorExport.Compiler
