import Mathlib.Data.List.Forall2
import MonitorExport.Proofs.Export.Scopes
import MonitorExport.Proofs.Export.Splitting

/-!
# Moving members to the root

The members of all containers of a tag in hosts and templates come to the end of the first container of that tag at
the root, or to a new one. All else stays as it is and where it is.
-/

namespace MonitorExport.Node

variable {root n : Node} {f : Node → Node} {before after ns moved : List Node} {tag container : String}

/-! ## Changing the first element of a tag -/

theorem changeFirst_append (h : ∀ m ∈ before, m.tag ≠ tag) (hn : n.tag = tag) :
    changeFirst tag f (before ++ n :: after) = before ++ f n :: after := by
  induction before with
  | nil => exact if_pos hn
  | cons m before ih =>
      rw [List.cons_append, changeFirst, if_neg (h m (by simp)), ih fun k hk => h k (by simp [hk])]
      rfl

theorem addTo_nil (tag : String) (ns : List Node) : addTo tag [] ns = ns := rfl

theorem addTo_append (h : moved ≠ []) (hbefore : ∀ m ∈ before, m.tag ≠ tag) (hn : n.tag = tag) :
    addTo tag moved (before ++ n :: after) = before ++ { n with children := n.children ++ moved } :: after := by
  have hany : ((before ++ n :: after).any fun m => m.tag = tag) = true :=
    List.any_eq_true.mpr ⟨n, by simp, by simpa using hn⟩
  rw [addTo, if_neg (by simpa using h), if_pos hany, changeFirst_append hbefore hn]

theorem addTo_of_none (h : moved ≠ []) (hns : ∀ m ∈ ns, m.tag ≠ tag) :
    addTo tag moved ns = ns ++ [ofChildren tag moved] := by
  rw [addTo, if_neg (by simpa using h), if_neg (by simpa using hns)]

/-! ## What stays -/

/-- Whether a child of the root is as it was, but for the containers of a tag in the hosts or templates it holds. -/
structure Relieved (container : String) (n n' : Node) : Prop where
  tag : n'.tag = n.tag
  text : n'.text = n.text
  children : List.Forall₂
    (fun c c' => c' = if (n.tag, c.tag) ∈ scopeContainers then c.withoutChildren container else c)
    n.children n'.children

/-- What the children of the root become without the containers. -/
def relieve (container : String) (n : Node) : Node :=
  changeHeld (·.withoutChildren container) n

theorem relieve_relieved (container : String) (n : Node) : Relieved container n (relieve container n) where
  tag := rfl
  text := rfl
  children := List.forall₂_map_right_iff.mpr (List.forall₂_same.mpr fun _ _ => rfl)

theorem forall₂_relieve (container : String) (ns : List Node) :
    List.Forall₂ (Relieved container) ns (ns.map (relieve container)) :=
  List.forall₂_map_right_iff.mpr (List.forall₂_same.mpr fun n _ => relieve_relieved container n)

theorem relieve_tag_ne (h : ∀ n ∈ ns, n.tag ≠ tag) : ∀ n ∈ ns.map (relieve container), n.tag ≠ tag := fun n hn => by
  obtain ⟨m, hm, rfl⟩ := List.mem_map.mp hn
  exact h m hm

theorem changeScopes_eq_map (container : String) (root : Node) :
    (root.changeScopes (·.withoutChildren container)).children = root.children.map (relieve container) :=
  children_changeScopes_map root _

/-! ## What moves -/

/-- The members of all containers of a tag in hosts, then in templates, in the order of the document. -/
def nested (container : String) (root : Node) : List Node :=
  follow ["hosts", "host", container, "*"] [root] ++ follow ["templates", "template", container, "*"] [root]

theorem follow_star (ns : List Node) : follow ["*"] ns = ns.flatMap (·.children) := by
  simp [follow, segmentMatches]

theorem leaving_eq (hc : container ≠ "*") (root : Node) : leaving container root = nested container root := by
  rw [leaving, scopes_eq, List.flatMap_append, nested]
  simp only [follow_cons hc, follow_cons (by decide : "hosts" ≠ "*"), follow_cons (by decide : "host" ≠ "*"),
    follow_cons (by decide : "templates" ≠ "*"), follow_cons (by decide : "template" ≠ "*"), follow_star,
    List.flatMap_singleton, List.flatMap_assoc, held]

/-! ## What becomes of a document -/

/-- Whether a document comes from another one by moving the members of all containers of a tag to the root. -/
structure Hoisted (container : String) (root out : Node) : Prop where
  tag : out.tag = root.tag
  text : out.text = root.text
  /-- No host or template has such a container. -/
  emptied : follow ["hosts", "host", container] [out] = [] ∧ follow ["templates", "template", container] [out] = []
  /-- If these had no members, the children of the root are as they were but for them. -/
  kept : nested container root = [] → List.Forall₂ (Relieved container) root.children out.children
  /-- Their members come to the end of the first container at the root. -/
  appended : nested container root ≠ [] → ∀ before n after, root.children = before ++ n :: after →
    (∀ m ∈ before, m.tag ≠ container) → n.tag = container →
    ∃ before' after', List.Forall₂ (Relieved container) before before' ∧
      List.Forall₂ (Relieved container) after after' ∧
      out.children = before' ++ { n with children := n.children ++ nested container root } :: after'
  /-- If there was none at the root, there is one at the end. -/
  added : nested container root ≠ [] → (∀ m ∈ root.children, m.tag ≠ container) →
    ∃ ns', List.Forall₂ (Relieved container) root.children ns' ∧
      out.children = ns' ++ [⟨container, none, nested container root⟩]

section Root

variable (hc : container ∈ ["graphs", "triggers"])

include hc

theorem not_scope_container : container ∉ scopeContainers.map (·.1) ∧ container ≠ "*" := by
  simp only [List.mem_cons, List.not_mem_nil, or_false] at hc
  rcases hc with rfl | rfl <;> decide

theorem hoist_emptied (h : tag ≠ "*") {member : String} (hm : member ≠ "*") (hs : (tag, member) ∈ scopeContainers) :
    follow [tag, member, container] [hoist container root] = [] := by
  obtain ⟨hnot, hstar⟩ := not_scope_container hc
  have hheld : follow [tag, member, container] [hoist container root] =
      ((hoist container root).held tag member).flatMap (·.childrenNamed container) := by
    rw [follow_cons h, follow_cons hm, follow_cons hstar, List.flatMap_singleton]
    rfl
  rw [hheld, held_hoist hnot hs, List.flatMap_map]
  exact List.flatMap_eq_nil_iff.mpr fun scope _ => childrenNamed_withoutChildren_self scope container

/-- A container of members that move is itself as it was. -/
theorem relieve_container (hn : n.tag = container) : relieve container n = n := by
  have hnot : ∀ c : Node, (n.tag, c.tag) ∉ scopeContainers := fun c hmem =>
    (not_scope_container hc).1 (List.mem_map.mpr ⟨_, hmem, hn⟩)
  simpa [relieve, changeHeld, hnot] using with_children n

theorem children_hoist : (hoist container root).children =
    addTo container (nested container root) (root.children.map (relieve container)) := by
  rw [hoist_eq, changeScopes_eq_map, leaving_eq (not_scope_container hc).2]

theorem hoist_hoisted (root : Node) : Hoisted container root (hoist container root) where
  tag := tag_hoist container root
  text := by rw [hoist_eq]
  emptied := ⟨hoist_emptied hc (by decide) (by decide) (by decide), hoist_emptied hc (by decide) (by decide) (by decide)⟩
  kept h := by
    rw [children_hoist hc, h, addTo_nil]
    exact forall₂_relieve container root.children
  appended h before n after hsplit hbefore hn := by
    refine ⟨before.map (relieve container), after.map (relieve container), forall₂_relieve container before,
      forall₂_relieve container after, ?_⟩
    rw [children_hoist hc, hsplit, List.map_append, List.map_cons, relieve_container hc hn,
      addTo_append h (relieve_tag_ne hbefore) hn]
  added h hnone := by
    refine ⟨root.children.map (relieve container), forall₂_relieve container root.children, ?_⟩
    rw [children_hoist hc, addTo_of_none h (relieve_tag_ne hnone)]
    rfl

/-- Nothing is left to move. -/
theorem hoist_hoist (root : Node) : hoist container (hoist container root) = hoist container root :=
  hoist_of_none fun scope hs => by
    rw [scopes_hoist (not_scope_container hc).1] at hs
    obtain ⟨k, _, rfl⟩ := List.mem_map.mp hs
    exact childrenNamed_withoutChildren_self k container

/-- Members move to the root without a loss, and moving them again changes nothing. -/
theorem hoist_moves (root : Node) :
    Hoisted container root (hoist container root) ∧ hoist container (hoist container root) = hoist container root :=
  ⟨hoist_hoisted hc root, hoist_hoist hc root⟩

end Root

/-- A document with graphs at the root, in a host and in a template. -/
def scattered : Node := ofChildren "export" [
  ofChildren "graphs" [leaf "graph" "traffic"],
  ofChildren "hosts" [ofChildren "host" [
    ofChildren "graphs" [leaf "graph" "load"], leaf "name" "gateway", ofChildren "graphs" [leaf "graph" "memory"]]],
  ofChildren "templates" [ofChildren "template" [leaf "name" "system", ofChildren "graphs" [leaf "graph" "disks"]]]]

theorem scattered_hoist_moves : "graphs" ∈ ["graphs", "triggers"] ∧
    nested "graphs" scattered = [leaf "graph" "load", leaf "graph" "memory", leaf "graph" "disks"] ∧
    Hoisted "graphs" scattered (hoist "graphs" scattered) ∧
    hoist "graphs" (hoist "graphs" scattered) = hoist "graphs" scattered :=
  ⟨by decide, rfl, hoist_moves (by decide) scattered⟩

end MonitorExport.Node
