import MonitorExport.Proofs.Catalogue.Documents
import MonitorExport.Proofs.Catalogue.Preparations
import MonitorExport.Proofs.Store.Operations

/-!
# Compiled documents

Whatever rules prune it, a compiled document has the children of an export in their order. With the standard rules
it is in normal form: pruning and gathering it again changes nothing.
-/

namespace MonitorExport.Catalogue

open Mapping Node

variable {s : Store} {e : EntityId} {c : Compiler} {root : Node}

theorem filled_of_not_bare {n : Node} (h : isBareContainer n = false) (ht : n.tag ∈ rootOrder.drop 2) : n.children ≠ [] := by
  intro hn
  have hcontains : (rootOrder.drop 2).contains n.tag = true := List.contains_iff_mem.mpr ht
  rw [isBareContainer, hcontains, hn] at h
  cases h

/-! ## A document with a host -/

def texts (names : List String) : Input := .list (names.map .text)

/-- A document with a host, which has groups, a trigger, a graph, and applications of its own and of an item. -/
def webFields : Fields := ⟨[("hosts", .list [.mapping ⟨[
  ("name", .text "web"),
  ("groups", texts ["Servers", "Linux"]),
  ("applications", texts ["Status"]),
  ("items", .list [.mapping ⟨[("name", .text "Load"), ("key", .text "system.cpu.load"),
    ("applications", texts ["CPU", "Status"])]⟩]),
  ("triggers", .list [.mapping ⟨[("name", .text "Down"), ("expression", .text "0=0")]⟩]),
  ("graphs", .list [.text "Load"])]⟩])]⟩

def makeWeb : Operation := .build ⟨0, 0⟩ .null webFields

def webFrom (r : Registry) : Store := (makeWeb.step (.ofRegistries [r])).2

def web : Store := webFrom registry

theorem not_names_texts (names : List String) (x : EntityId) : ¬ (texts names).Names x := by
  intro h
  obtain ⟨i, hi, hx⟩ := names_list_iff.mp h
  obtain ⟨name, _, rfl⟩ := List.mem_map.mp hi
  cases hx

theorem makeWeb_valid : makeWeb.Valid s := Operation.build_valid fun x hx => by
  rw [namedIn_iff] at hx
  simp [webFields, names_mapping_iff, names_list_iff, not_names_texts, Input.text, not_names_value] at hx

theorem start_reachable : Store.Reachable (.ofRegistries [registry]) := .start fun r hr => by
  rw [List.mem_singleton.mp hr]
  exact registry_namesGiven

theorem web_reachable : Store.Reachable web := .step start_reachable makeWeb_valid trivial

/-- A compiler at the start of a year. -/
def newYear : Compiler := .standard ⟨2024, 1, 1, 0, 0, 0, 0⟩

theorem web_made : web.Has ⟨0⟩ ∧ (web.model ⟨0⟩).registry = 0 ∧ (web.schemaOf ⟨0⟩).name = "Config" ∧
    (newYear.mapRoot web ⟨0⟩).toOption.isSome = true := by
  rw [web, registry_eq]
  decide +kernel

theorem web_document : Document web ⟨0⟩ := by
  refine ⟨web_made.1, ?_, web_made.2.2.1⟩
  have hregistries : web.registries = [registry] := start_reachable.registries_step makeWeb_valid
  rw [web_made.2.1, Store.registry, hregistries]
  rfl

theorem web_compiles : ∃ root, newYear.compile web ⟨0⟩ = .ok root := by
  have hok := web_made.2.2.2
  unfold Compiler.compile
  cases hm : newYear.mapRoot web ⟨0⟩ with
  | error err =>
      rw [hm] at hok
      cases hok
  | ok mapped => exact ⟨_, rfl⟩

namespace Document

/-- The root of a compiled document is that of an export: each of its children is there at most once and in
its place, no container is empty, and its hosts and templates have no graphs and no triggers. -/
theorem compile_shape (h : Store.Reachable s) (hd : Document s e) (hc : c.compile s e = .ok root) :
    root.tag = "zabbix_export" ∧
    (root.children.map (·.tag)).Sublist
      ["version", "date", "templates", "graphs", "hosts", "screens", "triggers", "groups"] ∧
    (∀ n ∈ root.children, n.tag ≠ "version" → n.tag ≠ "date" → n.children ≠ []) ∧
    ∀ scope ∈ root.scopes, scope.childrenNamed "graphs" = [] ∧ scope.childrenNamed "triggers" = [] := by
  obtain ⟨ns, hmapped, rfl⟩ := hd.mapped h.linked hc
  obtain ⟨horder, hfilled, hmoved⟩ := gather_shape (hmapped.laid h.linked hd (PruningRules.names c.rules.rules))
  refine ⟨?_, horder, fun n hn hversion hdate => ?_, fun scope hs => ⟨hmoved scope hs _ (by decide), hmoved scope hs _ (by decide)⟩⟩
  · rw [tag_gather, tag_cut]
    rfl
  · have hmem : n.tag ∈ rootOrder := horder.subset (List.mem_map_of_mem hn)
    refine filled_of_not_bare (hfilled n hn) ?_
    rcases List.mem_cons.mp hmem with hv | hmem
    · exact absurd hv hversion
    · rcases List.mem_cons.mp hmem with hd | hmem
      · exact absurd hd hdate
      · exact hmem

theorem compile_shape_web : ∃ root, newYear.compile web ⟨0⟩ = .ok root ∧ root.tag = "zabbix_export" ∧
    ∀ scope ∈ root.scopes, scope.childrenNamed "graphs" = [] ∧ scope.childrenNamed "triggers" = [] := by
  obtain ⟨root, hc⟩ := web_compiles
  obtain ⟨htag, _, _, hscopes⟩ := compile_shape web_reachable web_document hc
  exact ⟨root, hc, htag, hscopes⟩

/-- Pruning a compiled document again by the standard rules and gathering it again changes nothing. -/
theorem compile_normal (h : Store.Reachable s) (hd : Document s e) (hr : c.rules = .standard)
    (hc : c.compile s e = .ok root) :
    (hoist "triggers" (hoist "graphs" (PruningRules.standard.prune root))).rollupGroups.rollupApplications.orderRoot =
      root := by
  obtain ⟨ns, hmapped, rfl⟩ := hd.mapped h.linked hc
  rw [hr]
  have htame := PruningRules.standard_tame
  have hroot := PruningRules.standard_passes_root
  have hloose := hmapped.loose h.linked hd htame hroot
  have hspared := htame.spared_gather (by rw [tag_cut]; exact hroot) (spared_cut hmapped.plain htame.onLeaves [])
  rw [PruningRules.prune_of_spared hspared]
  exact hloose.gathered.gather

theorem compile_normal_web : ∃ root, newYear.compile web ⟨0⟩ = .ok root ∧
    (hoist "triggers" (hoist "graphs" (PruningRules.standard.prune root))).rollupGroups.rollupApplications.orderRoot =
      root := by
  obtain ⟨root, hc⟩ := web_compiles
  exact ⟨root, hc, compile_normal web_reachable web_document rfl hc⟩

end Document

end MonitorExport.Catalogue
