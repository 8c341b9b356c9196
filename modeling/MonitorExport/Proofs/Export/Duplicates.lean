import MonitorExport.Proofs.Catalogue.Exports
import MonitorExport.Proofs.Export.Dates
import MonitorExport.Proofs.Export.Matching
import MonitorExport.Proofs.Store.Counterparts

/-!
# Compiling a copy

An entity and its copy compile to the same tree, or fail alike: what each owns is matched by counterparts of the
other, in the same order, and the mapping reads nothing that counterparts do not share. Only the date of a document can
tell them apart, if its compiler takes that from the clock.
-/

namespace MonitorExport

/-! ## The copy -/

namespace Store

variable {s t : Store} {e : EntityId}

theorem duplicate_counterpart (hs : s.Linked) (he : s.Has e) {a : EntityId} (ha : s.Has a) (hf : Finishes s.owner a) :
    Counterpart s (s.duplicate e).1 a a := by
  obtain ⟨hrun, _⟩ := duplicate_run hs he
  refine .refl hs (fun b hb => ⟨hrun.same_copying hb, ?_⟩) hf ha
  rw [parent, entity_duplicate hs he hb]
  rfl

/-- Whether an entity has a counterpart in a later store, and what its references point at is as it was. -/
def Carried (s t : Store) (x y : EntityId) : Prop :=
  (∀ i a, s.binding x i = .entity a → Counterpart s t a a) ∧ Counterpart s t x y

theorem carried_alike (hr : t.registries = s.registries) (hs : s.Linked) (ht : t.Linked) :
    Mapping.Alike s t (Carried s t) :=
  ⟨hr, fun h => h.2.twin.resembles, fun h i => h.2.resolve hr hs ht (h.1 i)⟩

theorem duplicate_matched (hs : s.Linked) (he : s.Has e) (hp : s.parent e = none)
    (hf : ∀ x ∈ (s.subtree e).preorder, ∀ i a, s.binding x i = .entity a → Finishes s.owner a)
    (hd : ∀ c : CollectionId, c.owner ∈ (s.subtree e).preorder → s.Distinct c) :
    (s.subtree e).Matched (Carried s (s.duplicate e).1) ((s.duplicate e).1.subtree (s.duplicate e).2) := by
  obtain ⟨hrun, _, _, hunowned, _⟩ := duplicate_run hs he
  have ht := hrun.linked hs
  have hends : Finishes s.owner e := .last (owner_eq_none.mpr hp)
  have hends' : Finishes (s.duplicate e).1.owner (s.duplicate e).2 := .last (owner_eq_none.mpr hunowned)
  have hmirror := duplicate_mirrored hs he hends.not_after hd
  have htwin := hmirror.twin
  rw [Subtree.root_subtree] at htwin
  have hwhole := subtree_whole_of_finishes hs hends
  have hmatched : (s.subtree e).Matched (fun x y => s.AtOrAbove x e ∧ Counterpart s (s.duplicate e).1 x y)
      ((s.duplicate e).1.subtree (s.duplicate e).2) := by
    refine Subtree.Mirrored.matched hrun.registries hs ht (fun hxy hu hv _ htwin => ?_) (by rwa [Subtree.root_subtree])
      hwhole (subtree_whole_of_finishes ht hends') (by rwa [Subtree.root_subtree]) ?_
    · exact ⟨.head (owner_of_parent (hs.mem_iff.mp hu)) hxy.1, hxy.2.member hs ht hu hv htwin⟩
    -- the copy belongs to nothing either, so that both are outermost and thereby counterparts
    · rw [Subtree.root_subtree, Subtree.root_subtree]
      exact ⟨.refl, .outermost htwin (owner_eq_none.mpr hp) (owner_eq_none.mpr hunowned)⟩
  refine hmatched.imp fun x y hxy => ⟨fun i a hb => ?_, hxy.2⟩
  have hx : x ∈ (s.subtree e).preorder := by
    rw [mem_preorder_of_whole hs hwhole, Subtree.root_subtree]
    exact hxy.1
  exact duplicate_counterpart hs he (hs.typed.admits_of_binding hb).1 (hf x hx i a hb)

end Store

namespace Compiler

open Store Catalogue

variable {s : Store} {e : EntityId}

/-- The copy of an entity that belongs to nothing compiles at one time to the same tree, or fails alike. -/
theorem compile_copy (h : Reachable s) (he : s.Has e) (hp : s.parent e = none)
    (hf : ∀ x ∈ (s.subtree e).preorder, ∀ i a, s.binding x i = .entity a → Finishes s.owner a)
    (hd : ∀ c : CollectionId, c.owner ∈ (s.subtree e).preorder → s.Distinct c) (c : Compiler) :
    c.compile (s.duplicate e).1 (s.duplicate e).2 = c.compile s e := by
  obtain ⟨hrun, _⟩ := duplicate_run h.linked he
  exact compile_matched (carried_alike hrun.registries h.linked (hrun.linked h.linked))
    (duplicate_matched h.linked he hp hf hd) c

/-- The copy of an entity that belongs to nothing compiles to the same tree, or fails alike, if no collection at or
below the entity has two equal members; of a document, the tree of the copy has another date if the time is not pinned.
Owners end from the entity and all below it; they have to end from what references there point at as well, or the host
of that is never found. -/
theorem compile_duplicate (h : Reachable s) (he : s.Has e) (hp : s.parent e = none)
    (hf : ∀ x ∈ (s.subtree e).preorder, ∀ i a, s.binding x i = .entity a → Finishes s.owner a)
    (hd : ∀ c : CollectionId, c.owner ∈ (s.subtree e).preorder → s.Distinct c) (c : Compiler) :
    c.Repeats s e (s.duplicate e).1 (s.duplicate e).2 :=
  .of_compile (compile_copy h he hp hf hd) c

theorem web_forest : web.Forest :=
  forest_of_reaches (reaches_of_ungrafted (.step
    (.start fun r hr => by rw [List.mem_singleton.mp hr]; exact registry_namesGiven) makeWeb_valid
    (Operation.not_grafts_of_subject? rfl)))

theorem web_distinct : ∀ c : CollectionId, c.owner ∈ (web.subtree ⟨0⟩).preorder → web.Distinct c := by
  refine distinct_of_slots ?_
  rw [web, registry_eq]
  decide +kernel

theorem compile_duplicate_web : ∃ root, newYear.compile web ⟨0⟩ = .ok root ∧
    newYear.compile (web.duplicate ⟨0⟩).1 (web.duplicate ⟨0⟩).2 = .ok root := by
  obtain ⟨root, hc⟩ := web_compiles
  have hp := web_document.parent_eq_none web_reachable.linked
  have hrepeats := compile_duplicate web_reachable web_document.has hp (fun _ _ _ a _ => web_forest a) web_distinct
    newYear
  exact ⟨root, hc, (hrepeats.same newYear.clock newYear.clock (.inl rfl)).trans hc⟩

/-- The next day. -/
def nextDay : Timestamp := ⟨2024, 1, 2, 0, 0, 0, 0⟩

/-- A compiler that leaves nothing out and dates documents by the clock. -/
def unpruned (clock : Timestamp) : Compiler := { unpinned clock with rules := ⟨[]⟩ }

/-- The dates at the root of a tree. -/
def datesIn (root : Node) : List (Option String) := (root.childrenNamed "date").map (·.text)

/-- A document before what is at its root is put in order. -/
def unordered (c : Compiler) (nodes : List Node) : Node :=
  ((Node.hoist "triggers" (Node.hoist "graphs" (c.rules.prune (.ofChildren rootTag (c.header ++ nodes))))).rollupGroups
    ).rollupApplications

theorem document_eq (c : Compiler) (nodes : List Node) : c.document nodes = (c.unordered nodes).orderRoot := rfl

theorem datesIn_document (c : Compiler) (nodes : List Node) : datesIn (c.document nodes) =
    (((c.unordered nodes).childrenNamed "date").filter fun n => !n.isBareContainer).map (·.text) := by
  rw [document_eq, datesIn, Node.childrenNamed_orderRoot]

theorem web_dates {clock : Timestamp} (h : clock ∈ [newYear.clock, nextDay]) :
    ((unpruned clock).compile web ⟨0⟩).toOption.map datesIn = some [some clock.text] := by
  have hnodes : ∀ clock ∈ [newYear.clock, nextDay], ((unpruned clock).fieldNodes web ⟨0⟩).toOption.map (fun nodes =>
      ((((unpruned clock).unordered nodes).childrenNamed "date").filter fun n => !n.isBareContainer).map (·.text)) =
        some [some clock.text] := by
    rw [web, registry_eq]
    decide +kernel
  rw [compile_document web_document.table.2.1, ← hnodes clock h]
  cases (unpruned clock).fieldNodes web ⟨0⟩ with
  | error err => rfl
  | ok nodes => exact congrArg some (datesIn_document _ nodes)

theorem web_redated : (unpruned nextDay).compile web ⟨0⟩ ≠ (unpruned newYear.clock).compile web ⟨0⟩ := fun heq => by
  have hdates : ((unpruned nextDay).compile web ⟨0⟩).toOption.map datesIn = some [some nextDay.text] :=
    web_dates (by simp)
  rw [heq, web_dates (by simp)] at hdates
  exact absurd hdates (by decide)

/-- A document and its copy compile to different trees if the time is not pinned and the clock goes on between them. -/
theorem not_compile_duplicate_later : ¬ ∀ (s : Store) (e : EntityId) (c : Compiler) (now later : Timestamp),
    Reachable s → s.Has e → s.parent e = none → (∀ x, Finishes s.owner x) →
    (∀ c : CollectionId, c.owner ∈ (s.subtree e).preorder → s.Distinct c) →
    (c.atClock later).compile (s.duplicate e).1 (s.duplicate e).2 = (c.atClock now).compile s e := by
  intro hall
  have hp := web_document.parent_eq_none web_reachable.linked
  -- the copy is compiled on the next day as the document is then
  have hcopy : (unpruned nextDay).compile (web.duplicate ⟨0⟩).1 (web.duplicate ⟨0⟩).2 =
      (unpruned nextDay).compile web ⟨0⟩ :=
    compile_copy web_reachable web_document.has hp (fun _ _ _ a _ => web_forest a) web_distinct _
  have hlater : (unpruned nextDay).compile (web.duplicate ⟨0⟩).1 (web.duplicate ⟨0⟩).2 =
      (unpruned newYear.clock).compile web ⟨0⟩ :=
    hall web ⟨0⟩ (unpruned nextDay) newYear.clock nextDay web_reachable web_document.has hp web_forest web_distinct
  exact web_redated (hcopy.symm.trans hlater)

end Compiler

end MonitorExport
