import Mathlib.Data.List.Basic
import MonitorExport.Export.Document

/-!
# Hosts and templates of a document

Changing the hosts and templates at a root leaves all else in its place. Moving the members of their
containers to the root takes these containers out of them, and touches one more child of the root at most.
-/

namespace MonitorExport.Node

variable {root n : Node} {f g : Node → Node} {ns moved : List Node} {tag other container member : String}

theorem with_children (n : Node) : (⟨n.tag, n.text, n.children⟩ : Node) = n := by
  cases n
  rfl

/-! ## Changing elements of a tag -/

theorem map_tag_changeAll (hf : ∀ n, (f n).tag = n.tag) : (changeAll tag f ns).map (·.tag) = ns.map (·.tag) := by
  rw [changeAll, List.map_map]
  refine List.map_congr_left fun n _ => ?_
  simp only [Function.comp_apply]
  split
  · exact hf n
  · rfl

theorem filter_changeAll_self (hf : ∀ n, (f n).tag = n.tag) :
    (changeAll tag f ns).filter (fun n => n.tag = tag) = (ns.filter fun n => n.tag = tag).map f := by
  induction ns with
  | nil => rfl
  | cons n ns ih =>
      simp only [changeAll, List.map_cons] at ih ⊢
      by_cases h : n.tag = tag
      · simp [h, hf, ih]
      · simp [h, ih]

theorem filter_changeAll_ne (hf : ∀ n, (f n).tag = n.tag) (h : other ≠ tag) :
    (changeAll tag f ns).filter (fun n => n.tag = other) = ns.filter fun n => n.tag = other := by
  induction ns with
  | nil => rfl
  | cons n ns ih =>
      simp only [changeAll, List.map_cons] at ih ⊢
      by_cases hn : n.tag = tag
      · simp [hn, hf, Ne.symm h, ih]
      · simp [hn, List.filter_cons, ih]

theorem changeAll_congr (h : ∀ n ∈ ns, n.tag = tag → f n = g n) : changeAll tag f ns = changeAll tag g ns := by
  refine List.map_congr_left fun n hn => ?_
  split
  · next ht => exact h n hn ht
  · rfl

theorem changeAll_id (ns : List Node) : changeAll tag (fun n => n) ns = ns := by simp [changeAll]

theorem mem_changeAll {m : Node} (h : m ∈ changeAll tag f ns) :
    (∃ n ∈ ns, n.tag = tag ∧ m = f n) ∨ m ∈ ns ∧ m.tag ≠ tag := by
  obtain ⟨n, hn, rfl⟩ := List.mem_map.mp h
  split
  · next ht => exact .inl ⟨n, hn, ht, rfl⟩
  · next ht => exact .inr ⟨hn, ht⟩

/-! ## Changing hosts and templates -/

/-- The members of a tag in all containers of a tag at the root. -/
def held (root : Node) (container member : String) : List Node :=
  (root.childrenNamed container).flatMap (·.childrenNamed member)

def changeMembers (member : String) (f : Node → Node) (n : Node) : Node :=
  { n with children := changeAll member f n.children }

theorem tag_changeMembers (n : Node) : (changeMembers member f n).tag = n.tag := rfl

theorem childrenNamed_changeMembers (hf : ∀ n, (f n).tag = n.tag) :
    (changeMembers member f n).childrenNamed member = (n.childrenNamed member).map f :=
  filter_changeAll_self hf

theorem scopes_eq (root : Node) : root.scopes = root.held "hosts" "host" ++ root.held "templates" "template" := by
  simp [scopes, scopeContainers, held]

theorem children_changeScopes (root : Node) (f : Node → Node) : (root.changeScopes f).children =
    changeAll "templates" (changeMembers "template" f) (changeAll "hosts" (changeMembers "host" f) root.children) :=
  rfl

/-- A child of the root with the hosts or templates that it holds changed. -/
def changeHeld (f : Node → Node) (n : Node) : Node :=
  { n with children := n.children.map fun c => if (n.tag, c.tag) ∈ scopeContainers then f c else c }

theorem children_changeScopes_map (root : Node) (f : Node → Node) :
    (root.changeScopes f).children = root.children.map (changeHeld f) := by
  have hother : ∀ n : Node, n.tag ≠ "hosts" → n.tag ≠ "templates" → changeHeld f n = n := fun n hh ht => by
    simpa [changeHeld, scopeContainers, hh, ht] using with_children n
  rw [children_changeScopes, changeAll, changeAll, List.map_map]
  refine List.map_congr_left fun n _ => ?_
  by_cases hh : n.tag = "hosts"
  · simp [hh, changeMembers, changeAll, changeHeld, scopeContainers]
  · by_cases ht : n.tag = "templates"
    · simp [ht, changeMembers, changeAll, changeHeld, scopeContainers]
    · simp [hh, ht, hother n hh ht]

theorem map_tag_changeScopes (root : Node) (f : Node → Node) :
    (root.changeScopes f).children.map (·.tag) = root.children.map (·.tag) := by
  rw [children_changeScopes, map_tag_changeAll tag_changeMembers, map_tag_changeAll tag_changeMembers]

theorem childrenNamed_changeScopes_of_ne (h : tag ∉ scopeContainers.map (·.1)) :
    (root.changeScopes f).childrenNamed tag = root.childrenNamed tag := by
  simp only [scopeContainers, List.map_cons, List.map_nil, List.mem_cons, List.not_mem_nil, or_false, not_or] at h
  rw [childrenNamed, children_changeScopes, filter_changeAll_ne tag_changeMembers h.2,
    filter_changeAll_ne tag_changeMembers h.1]
  rfl

/-- The hosts and the templates are changed one by one. -/
theorem held_changeScopes (hf : ∀ n, (f n).tag = n.tag) (h : (container, member) ∈ scopeContainers) :
    (root.changeScopes f).held container member = (root.held container member).map f := by
  have hmembers : ∀ member (ns : List Node), (ns.map (changeMembers member f)).flatMap (·.childrenNamed member) =
      (ns.flatMap (·.childrenNamed member)).map f := fun member ns => by
    rw [List.flatMap_map, List.map_flatMap]
    exact List.flatMap_congr fun n _ => childrenNamed_changeMembers hf
  simp only [scopeContainers, List.mem_cons, Prod.mk.injEq, List.not_mem_nil, or_false] at h
  rcases h with ⟨rfl, rfl⟩ | ⟨rfl, rfl⟩
  · rw [held, childrenNamed, children_changeScopes, filter_changeAll_ne tag_changeMembers (by decide),
      filter_changeAll_self tag_changeMembers, hmembers]
    rfl
  · rw [held, childrenNamed, children_changeScopes, filter_changeAll_self tag_changeMembers,
      filter_changeAll_ne tag_changeMembers (by decide), hmembers]
    rfl

theorem scopes_changeScopes (hf : ∀ n, (f n).tag = n.tag) : (root.changeScopes f).scopes = root.scopes.map f := by
  rw [scopes_eq, scopes_eq, held_changeScopes hf (by decide), held_changeScopes hf (by decide), List.map_append]

theorem changeScopes_id (h : ∀ scope ∈ root.scopes, f scope = scope) : root.changeScopes f = root := by
  have hmembers : ∀ {container member}, (∀ scope ∈ root.held container member, f scope = scope) →
      changeAll container (changeMembers member f) root.children = root.children := fun hheld => by
    refine (changeAll_congr (g := fun n => n) fun n hn ht => ?_).trans (changeAll_id _)
    have hn' : changeAll _ f n.children = n.children :=
      (changeAll_congr (g := fun n => n) fun m hm hmt => hheld m (List.mem_flatMap.mpr
        ⟨n, List.mem_filter.mpr ⟨hn, by simpa using ht⟩, List.mem_filter.mpr ⟨hm, by simpa using hmt⟩⟩)).trans
        (changeAll_id _)
    rw [changeMembers, hn', with_children]
  rw [scopes_eq, List.forall_mem_append] at h
  have hchildren : (root.changeScopes f).children = root.children := by
    rw [children_changeScopes, hmembers h.1, hmembers h.2]
  cases root
  simpa [changeScopes] using hchildren

/-- What holds of the children of a root holds of the changed ones, if it holds of each changed container. -/
theorem forall_changeScopes {good : Node → Prop} (h : ∀ n ∈ root.children, good n)
    (hf : ∀ n ∈ root.children, ∀ member, (n.tag, member) ∈ scopeContainers → good (changeMembers member f n)) :
    ∀ n ∈ (root.changeScopes f).children, good n := by
  intro n hn
  rw [children_changeScopes] at hn
  rcases mem_changeAll hn with ⟨m, hm, ht, rfl⟩ | ⟨hm, _⟩
  · rcases mem_changeAll hm with ⟨k, _, hk, rfl⟩ | ⟨hm, _⟩
    · exact absurd (hk.symm.trans ht) (by decide)
    · exact hf m hm _ (by simp [scopeContainers, ht])
  · rcases mem_changeAll hm with ⟨k, hk, hkt, rfl⟩ | ⟨hm, _⟩
    · exact hf k hk _ (by simp [scopeContainers, hkt])
    · exact h n hm

/-! ## Moving members to the root -/

/-- Children of a root with members added to the first container of a tag, or to a new one. -/
def addTo (tag : String) (moved ns : List Node) : List Node :=
  if moved.isEmpty then ns
  else if ns.any fun n => n.tag = tag then changeFirst tag (fun n => { n with children := n.children ++ moved }) ns
  else ns ++ [ofChildren tag moved]

/-- The members that leave hosts and templates. -/
def leaving (container : String) (root : Node) : List Node :=
  root.scopes.flatMap fun scope => (scope.childrenNamed container).flatMap (·.children)

theorem hoist_eq (container : String) (root : Node) : hoist container root =
    ⟨root.tag, root.text,
      addTo container (leaving container root) (root.changeScopes (·.withoutChildren container)).children⟩ := by
  have hany : ((root.changeScopes (·.withoutChildren container)).child? container).isSome =
      (root.changeScopes (·.withoutChildren container)).children.any fun n => n.tag = container := by
    rw [child?, Bool.eq_iff_iff, List.find?_isSome, List.any_eq_true]
  unfold hoist addTo leaving
  simp only [hany]
  split
  · exact (with_children _).symm
  · split <;> rfl

@[simp] theorem tag_hoist (container : String) (root : Node) : (hoist container root).tag = root.tag := by
  rw [hoist_eq]

theorem filter_changeFirst_ne (hf : ∀ n, (f n).tag = n.tag) (h : other ≠ tag) :
    (changeFirst tag f ns).filter (fun n => n.tag = other) = ns.filter fun n => n.tag = other := by
  induction ns with
  | nil => rfl
  | cons n ns ih =>
      rw [changeFirst]
      split
      · next hn => simp [hf, hn, Ne.symm h]
      · simp [List.filter_cons, ih]

theorem filter_addTo_ne (h : other ≠ tag) :
    (addTo tag moved ns).filter (fun n => n.tag = other) = ns.filter fun n => n.tag = other := by
  unfold addTo
  split
  · rfl
  · split
    · exact filter_changeFirst_ne (fun _ => rfl) h
    · simp [ofChildren, Ne.symm h]

theorem map_tag_changeFirst (hf : ∀ n, (f n).tag = n.tag) :
    (changeFirst tag f ns).map (·.tag) = ns.map (·.tag) := by
  induction ns with
  | nil => rfl
  | cons n ns ih =>
      rw [changeFirst]
      split
      · simp [hf]
      · simp [ih]

theorem map_tag_addTo (tag : String) (moved ns : List Node) :
    (addTo tag moved ns).map (·.tag) = ns.map (·.tag) ∨
      tag ∉ ns.map (·.tag) ∧ (addTo tag moved ns).map (·.tag) = ns.map (·.tag) ++ [tag] := by
  unfold addTo
  split
  · exact .inl rfl
  · split
    · exact .inl (map_tag_changeFirst fun _ => rfl)
    · next h => exact .inr ⟨by simpa using h, by simp [ofChildren]⟩

theorem mem_changeFirst {m : Node} (h : m ∈ changeFirst tag f ns) : m ∈ ns ∨ ∃ n ∈ ns, n.tag = tag ∧ m = f n := by
  induction ns with
  | nil => cases h
  | cons n ns ih =>
      rw [changeFirst] at h
      split at h
      · next ht =>
        rcases List.mem_cons.mp h with rfl | h
        · exact .inr ⟨n, by simp, ht, rfl⟩
        · exact .inl (by simp [h])
      · rcases List.mem_cons.mp h with rfl | h
        · exact .inl (by simp)
        · rcases ih h with h | ⟨k, hk, ht, rfl⟩
          · exact .inl (by simp [h])
          · exact .inr ⟨k, by simp [hk], ht, rfl⟩

/-- What holds of the children of a root holds after members were added, if it holds of their container. -/
theorem forall_addTo {good : Node → Prop} (h : ∀ n ∈ ns, good n)
    (hmore : ∀ n ∈ ns, n.tag = tag → good { n with children := n.children ++ moved })
    (hnew : good (ofChildren tag moved)) : ∀ n ∈ addTo tag moved ns, good n := by
  intro n hn
  unfold addTo at hn
  split at hn
  · exact h n hn
  · split at hn
    · rcases mem_changeFirst hn with hn | ⟨k, hk, ht, rfl⟩
      · exact h n hn
      · exact hmore k hk ht
    · rcases List.mem_append.mp hn with hn | hn
      · exact h n hn
      · exact List.mem_singleton.mp hn ▸ hnew

theorem flatMap_changeFirst {α : Type} {φ : Node → List α} (h : ∀ n ∈ ns, n.tag = tag → φ (f n) = φ n) :
    (changeFirst tag f ns).flatMap φ = ns.flatMap φ := by
  induction ns with
  | nil => rfl
  | cons n ns ih =>
      rw [changeFirst]
      split
      · next ht => simp [h n (by simp) ht]
      · simp [ih fun m hm => h m (by simp [hm])]

/-- What is found in the children of a root is found after members were added that have none of it. -/
theorem flatMap_addTo {α : Type} {φ : Node → List α} (hnew : φ (ofChildren tag moved) = [])
    (hmore : ∀ n ∈ ns, n.tag = tag → φ { n with children := n.children ++ moved } = φ n) :
    (addTo tag moved ns).flatMap φ = ns.flatMap φ := by
  unfold addTo
  split
  · rfl
  · split
    · exact flatMap_changeFirst hmore
    · simp [hnew]

variable (hc : container ∉ scopeContainers.map (·.1))

include hc

/-- Hosts and templates lose the containers whose members move, and nothing else. -/
theorem held_hoist (h : (tag, member) ∈ scopeContainers) :
    (hoist container root).held tag member = (root.held tag member).map (·.withoutChildren container) := by
  have hne : tag ≠ container := fun he => hc (List.mem_map.mpr ⟨_, h, he⟩)
  have hf : ∀ n : Node, (n.withoutChildren container).tag = n.tag := fun _ => rfl
  rw [← held_changeScopes hf h, hoist_eq, held, childrenNamed]
  dsimp only
  rw [filter_addTo_ne hne]
  rfl

theorem scopes_hoist : (hoist container root).scopes = root.scopes.map (·.withoutChildren container) := by
  rw [scopes_eq, scopes_eq, held_hoist hc (by decide), held_hoist hc (by decide), List.map_append]

omit hc

theorem map_tag_hoist (container : String) (root : Node) :
    (hoist container root).children.map (·.tag) = root.children.map (·.tag) ∨ container ∉ root.children.map (·.tag) ∧
      (hoist container root).children.map (·.tag) = root.children.map (·.tag) ++ [container] := by
  rw [hoist_eq, ← map_tag_changeScopes root (·.withoutChildren container)]
  exact map_tag_addTo ..

theorem withoutChildren_of_none (h : n.childrenNamed tag = []) : n.withoutChildren tag = n := by
  have hkeep : n.children.filter (fun c => c.tag ≠ tag) = n.children :=
    List.filter_eq_self.mpr fun c hc => by simpa using List.filter_eq_nil_iff.mp h c hc
  rw [withoutChildren, hkeep, with_children]

theorem childrenNamed_withoutChildren_self (n : Node) (tag : String) :
    (n.withoutChildren tag).childrenNamed tag = [] := by
  simp [childrenNamed, withoutChildren]

theorem childrenNamed_withoutChildren_ne (h : other ≠ tag) :
    (n.withoutChildren tag).childrenNamed other = n.childrenNamed other := by
  rw [childrenNamed, withoutChildren, List.filter_filter]
  refine List.filter_congr fun c _ => ?_
  by_cases hc : c.tag = other
  · simp [hc, h]
  · simp [hc]

theorem hoist_of_none (h : ∀ scope ∈ root.scopes, scope.childrenNamed container = []) :
    hoist container root = root := by
  have hnone : leaving container root = [] :=
    List.flatMap_eq_nil_iff.mpr fun scope hscope => by rw [h scope hscope]; rfl
  rw [hoist_eq, hnone, changeScopes_id fun scope hscope => withoutChildren_of_none (h scope hscope)]
  exact with_children root

end MonitorExport.Node
