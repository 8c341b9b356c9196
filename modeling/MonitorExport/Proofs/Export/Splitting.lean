import Mathlib.Data.List.Basic
import MonitorExport.Export.Fragment

/-!
# What fragments carry

The members of a document go to fragments: hosts and templates without what is carried apart from them, and what
is carried apart together with the names of its host or template. The main result is that nothing is lost or
repeated, whatever the document looks like, and that the fragments come in an order in which they can be imported.

A path is followed through a fragment in two steps, its container and the member in it; the header and the groups
that all fragments repeat are on no such path.
-/

namespace MonitorExport

/-! ## Following paths -/

namespace Node

variable {tag : String} {segments : List String}

theorem follow_nil (segments : List String) : follow segments [] = [] := by
  induction segments with
  | nil => rfl
  | cons segment segments ih => exact ih

theorem follow_cons (h : tag ≠ "*") (segments : List String) (ns : List Node) :
    follow (tag :: segments) ns = follow segments (ns.flatMap (·.childrenNamed tag)) := by
  have hmatch : segmentMatches tag = fun t => decide (t = tag) := by
    funext t
    simp [segmentMatches, h]
  rw [follow, List.foldl_cons, hmatch, List.filter_flatMap]
  rfl

theorem follow_append (segments : List String) (ns ms : List Node) :
    follow segments (ns ++ ms) = follow segments ns ++ follow segments ms := by
  induction segments generalizing ns ms with
  | nil => rfl
  | cons segment segments ih =>
      simp only [follow, List.foldl_cons, List.flatMap_append, List.filter_append] at ih ⊢
      exact ih _ _

/-- A path is followed from each element by itself. -/
theorem follow_eq_flatMap (segments : List String) (ns : List Node) :
    follow segments ns = ns.flatMap fun n => follow segments [n] := by
  induction ns with
  | nil => exact follow_nil segments
  | cons n ns ih => rw [List.flatMap_cons, ← ih, ← follow_append, List.singleton_append]

theorem tag_of_mem_childrenNamed {n c : Node} (h : c ∈ n.childrenNamed tag) : c.tag = tag :=
  of_decide_eq_true (List.mem_filter.mp h).2

end Node

/-! ## Documents of fragments -/

namespace Fragment

open Node

variable {root host scope n : Node} {kind : FragmentKind} {name container member c m : String}
  {segments : List String}

/-- The tags of what all fragments of a document repeat. -/
def repeatedTags : List String := ["version", "date", "groups"]

theorem filter_child (h : c ≠ m) (root : Node) : (root.child? c).toList.filter (·.tag = m) = [] := by
  refine List.filter_eq_nil_iff.mpr fun n hn => ?_
  have htag : n.tag = c := by simpa using List.find?_some (Option.mem_toList.mp hn)
  simp [htag, h]

/-- A container that is not repeated by all fragments is in a fragment only once, around its part. -/
theorem childrenNamed_wrap (h : c ∉ repeatedTags) (part : Node) :
    (wrap root kind name container part).document.childrenNamed c =
      if container = c then [ofChildren container [part]] else [] := by
  have hne : "version" ≠ c ∧ "date" ≠ c ∧ "groups" ≠ c := by
    simpa [repeatedTags, eq_comm] using h
  simp only [childrenNamed, wrap, ofChildren, List.filter_append, List.filter_cons, filter_child hne.1,
    filter_child hne.2.1, filter_child hne.2.2, List.nil_append, decide_eq_true_eq]

theorem follow_wrap (hc : c ∉ "*" :: repeatedTags) (hm : m ≠ "*") (segments : List String) (part : Node) :
    follow (c :: m :: segments) [(wrap root kind name container part).document] =
      if container = c ∧ part.tag = m then follow segments [part] else [] := by
  obtain ⟨hstar, hrep⟩ := not_or.mp (mt List.mem_cons.mpr hc)
  rw [follow_cons hstar, List.flatMap_singleton, childrenNamed_wrap hrep]
  by_cases h : container = c
  · rw [if_pos h, follow_cons hm, List.flatMap_singleton]
    by_cases h' : part.tag = m <;> simp [childrenNamed, ofChildren, h, h', follow_nil]
  · simp [h, follow_nil]

theorem membersOf_eq (hc : container ≠ "*") (hm : member ≠ "*") (root : Node) :
    membersOf root container member = (root.childrenNamed container).flatMap (·.childrenNamed member) := by
  rw [membersOf, follow_cons hc, List.flatMap_singleton, follow_cons hm]
  rfl

theorem tag_of_mem_membersOf (hc : container ≠ "*") (hm : member ≠ "*") (h : n ∈ membersOf root container member) :
    n.tag = member := by
  rw [membersOf_eq hc hm] at h
  obtain ⟨_, _, hn⟩ := List.mem_flatMap.mp h
  exact tag_of_mem_childrenNamed hn

theorem tag_of_mem_hosts (h : n ∈ membersOf root "hosts" "host") : n.tag = "host" :=
  tag_of_mem_membersOf (by decide) (by decide) h

theorem tag_of_mem_templates (h : n ∈ membersOf root "templates" "template") : n.tag = "template" :=
  tag_of_mem_membersOf (by decide) (by decide) h

/-- A path that starts with the container and the tag of members is followed from these. -/
theorem follow_root (hc : container ≠ "*") (hm : member ≠ "*") (segments : List String) (root : Node) :
    follow (container :: member :: segments) [root] =
      (membersOf root container member).flatMap fun n => follow segments [n] := by
  rw [← follow_eq_flatMap, membersOf, follow_cons hc, follow_cons hm, follow_cons hc, follow_cons hm]
  rfl

theorem childrenNamed_strip {tags : List String} (h : c ∈ tags) (n : Node) : (strip tags n).childrenNamed c = [] := by
  simp only [childrenNamed, strip, List.filter_filter]
  refine List.filter_eq_nil_iff.mpr fun n _ => ?_
  simp only [Bool.and_eq_true, decide_eq_true_eq, Bool.not_eq_true', not_and, Bool.not_eq_false]
  rintro rfl
  exact List.contains_iff_mem.mpr h

/-- Beside its names, the skeleton of a host or template has what is added to it. -/
theorem childrenNamed_skeleton_push (hn : c ≠ "name") (hm : c ≠ member) (scope : Node) (parts : List Node) :
    ((skeleton member scope).push (ofChildren m parts)).childrenNamed c =
      if m = c then [ofChildren m parts] else [] := by
  have hnone : (skeleton member scope).children.filter (·.tag = c) = [] := by
    simp only [skeleton, ofChildren, List.filter_filter]
    refine List.filter_eq_nil_iff.mpr fun n _ => ?_
    simp only [Bool.and_eq_true, Bool.or_eq_true, decide_eq_true_eq, not_and]
    rintro rfl
    simp [hn, hm]
  simp [childrenNamed, push, List.filter_append, hnone, List.filter_cons, ofChildren]

/-- The items of a host. -/
def items (host : Node) : List Node := follow ["items", "item"] [host]

/-- The screens of a host or template. -/
def screens (scope : Node) : List Node := follow ["screens", "screen"] [scope]

/-- The last tag of a path is that of all it leads to. -/
theorem tag_of_mem_follow (hc : c ≠ "*") (hm : m ≠ "*") {s : Node} (h : s ∈ follow [c, m] [n]) : s.tag = m :=
  tag_of_mem_membersOf hc hm h

/-- Of the parts that are added to a skeleton, all with the tag that is asked for are there. -/
theorem follow_skeleton_push (hn : c ≠ "name") (hm : c ≠ member) (hc : c ≠ "*") (hcm : m ≠ "*") (scope : Node)
    {parts : List Node} (hp : ∀ p ∈ parts, p.tag = m) :
    follow [c, m] [(skeleton member scope).push (ofChildren c parts)] = parts := by
  rw [follow_cons hc, List.flatMap_singleton, childrenNamed_skeleton_push hn hm, if_pos rfl, follow_cons hcm,
    List.flatMap_singleton]
  exact List.filter_eq_self.mpr fun p hp' => decide_eq_true (hp p hp')

/-- The fragment of a host without its items and screens. -/
def ofBareHost (root host : Node) : Fragment :=
  wrap root .host (nameOf host) "hosts" (strip ["screens", "items"] host)

/-- The fragment of the items of a host. -/
def ofItems (root host : Node) : Fragment :=
  wrap root .hostItems (nameOf host) "hosts" ((skeleton "host" host).push (ofChildren "items" (items host)))

theorem ofHost_of_isEmpty (h : (items host).isEmpty = true) (root : Node) : ofHost root host = [ofBareHost root host] :=
  if_pos h

theorem ofHost_of_items (h : (items host).isEmpty = false) (root : Node) :
    ofHost root host = [ofBareHost root host, ofItems root host] :=
  if_neg (Bool.not_eq_true _ ▸ h)

/-! ## Nothing is lost and nothing is repeated -/

/-- What the documents of fragments have at a path, one fragment after the other. -/
def carried (segments : List String) (fs : List Fragment) : List Node :=
  fs.flatMap fun f => follow segments [f.document]

theorem carried_append (segments : List String) (fs gs : List Fragment) :
    carried segments (fs ++ gs) = carried segments fs ++ carried segments gs :=
  List.flatMap_append

theorem carried_flatMap {α : Type} (segments : List String) (l : List α) (φ : α → List Fragment) :
    carried segments (l.flatMap φ) = l.flatMap fun a => carried segments (φ a) :=
  List.flatMap_assoc

section Members

variable (hc : c ∉ "*" :: repeatedTags) (hm : m ≠ "*")

include hc hm

/-- Fragments around parts of the members of a container carry what the parts have. -/
theorem carried_map {l : List Node} (ν : Node → String) (part : Node → Node) (hl : ∀ a ∈ l, (part a).tag = member)
    (segments : List String) :
    carried (c :: m :: segments) (l.map fun a => wrap root kind (ν a) container (part a)) =
      if container = c ∧ member = m then l.flatMap fun a => follow segments [part a] else [] := by
  rw [carried, List.flatMap_map]
  by_cases h : container = c ∧ member = m
  · rw [if_pos h]
    exact List.flatMap_congr fun a ha => by rw [follow_wrap hc hm, if_pos ⟨h.1, (hl a ha).trans h.2⟩]
  · rw [if_neg h, List.flatMap_eq_nil_iff]
    exact fun a ha => by rw [follow_wrap hc hm, if_neg fun h' => h ⟨h'.1, (hl a ha).symm.trans h'.2⟩]

theorem carried_ofMembers (hcontainer : container ≠ "*") (hmember : member ≠ "*") (segments : List String) :
    carried (c :: m :: segments) (ofMembers root container member kind) =
      if container = c ∧ member = m then follow (c :: m :: segments) [root] else [] := by
  rw [ofMembers, carried_map hc hm nameOf (fun n => n) fun n hn => tag_of_mem_membersOf hcontainer hmember hn]
  by_cases h : container = c ∧ member = m
  · rw [if_pos h, if_pos h, ← h.1, ← h.2, follow_root hcontainer hmember]
  · rw [if_neg h, if_neg h]

theorem carried_ofTemplate (segments : List String) :
    carried (c :: m :: segments) ((membersOf root "templates" "template").map (ofTemplate root)) =
      if "templates" = c ∧ "template" = m then
        (membersOf root "templates" "template").flatMap fun n => follow segments [strip ["screens"] n] else [] :=
  have htag : ∀ n ∈ membersOf root "templates" "template", (strip ["screens"] n).tag = "template" := fun _ hn =>
    (tag_of_mem_templates hn :)
  carried_map hc hm nameOf (strip ["screens"]) htag segments

theorem carried_ofScreens (hcontainer : container ≠ "*") (hmember : member ≠ "*") (segments : List String) :
    carried (c :: m :: segments) (ofScreens root container member kind) =
      if container = c ∧ member = m then
        (membersOf root container member).flatMap fun scope => (screens scope).flatMap fun screen =>
          follow segments [(skeleton member scope).push (ofChildren "screens" [screen])]
      else [] := by
  have hscope : ∀ scope ∈ membersOf root container member,
      carried (c :: m :: segments) ((screens scope).map fun screen => wrap root kind (nameOf screen) container
        ((skeleton member scope).push (ofChildren "screens" [screen]))) =
      if container = c ∧ member = m then (screens scope).flatMap fun screen =>
        follow segments [(skeleton member scope).push (ofChildren "screens" [screen])] else [] := fun scope hs =>
    carried_map hc hm nameOf (fun screen => (skeleton member scope).push (ofChildren "screens" [screen]))
      (fun _ _ => tag_of_mem_membersOf (n := scope) hcontainer hmember hs) segments
  rw [ofScreens, carried_flatMap]
  refine (List.flatMap_congr hscope).trans ?_
  by_cases h : container = c ∧ member = m <;> simp [h]

theorem carried_ofHost (h : host.tag = "host") (segments : List String) :
    carried (c :: m :: segments) (ofHost root host) =
      if "hosts" = c ∧ "host" = m then
        follow segments [strip ["screens", "items"] host] ++
          if (items host).isEmpty then []
          else follow segments [(skeleton "host" host).push (ofChildren "items" (items host))]
      else [] := by
  have hpart : ∀ (kind : FragmentKind) (part : Node), part.tag = "host" →
      follow (c :: m :: segments) [(wrap root kind (nameOf host) "hosts" part).document] =
        if "hosts" = c ∧ "host" = m then follow segments [part] else [] := fun kind part hp => by
    rw [follow_wrap hc hm, hp]
  have hbare : follow (c :: m :: segments) [(ofBareHost root host).document] = _ := hpart .host _ h
  have hitems : follow (c :: m :: segments) [(ofItems root host).document] = _ := hpart .hostItems _ h
  cases hempty : (items host).isEmpty with
  | true =>
      rw [ofHost_of_isEmpty hempty, carried, List.flatMap_singleton, hbare]
      simp
  | false =>
      rw [ofHost_of_items hempty, carried, List.flatMap_cons, List.flatMap_singleton, hbare, hitems]
      split <;> simp

/-- What the fragments of a document have at a path. -/
theorem carried_split (root : Node) (segments : List String) :
    carried (c :: m :: segments) (split root) =
      (if "hosts" = c ∧ "host" = m then (membersOf root "hosts" "host").flatMap fun host =>
        follow segments [strip ["screens", "items"] host] ++
          if (items host).isEmpty then []
          else follow segments [(skeleton "host" host).push (ofChildren "items" (items host))]
      else []) ++
      (if "templates" = c ∧ "template" = m then (membersOf root "templates" "template").flatMap fun template =>
        follow segments [strip ["screens"] template] else []) ++
      (if "graphs" = c ∧ "graph" = m then follow (c :: m :: segments) [root] else []) ++
      (if "screens" = c ∧ "screen" = m then follow (c :: m :: segments) [root] else []) ++
      (if "hosts" = c ∧ "host" = m then (membersOf root "hosts" "host").flatMap fun host =>
        (screens host).flatMap fun screen =>
          follow segments [(skeleton "host" host).push (ofChildren "screens" [screen])] else []) ++
      (if "templates" = c ∧ "template" = m then (membersOf root "templates" "template").flatMap fun template =>
        (screens template).flatMap fun screen =>
          follow segments [(skeleton "template" template).push (ofChildren "screens" [screen])] else []) ++
      if "triggers" = c ∧ "trigger" = m then follow (c :: m :: segments) [root] else [] := by
  have hhosts : ∀ host ∈ membersOf root "hosts" "host", carried (c :: m :: segments) (ofHost root host) =
      if "hosts" = c ∧ "host" = m then
        follow segments [strip ["screens", "items"] host] ++
          if (items host).isEmpty then []
          else follow segments [(skeleton "host" host).push (ofChildren "items" (items host))]
      else [] := fun host hh =>
    carried_ofHost hc hm (tag_of_mem_hosts hh) segments
  simp only [split, carried_append, carried_flatMap, List.flatMap_congr hhosts, carried_ofTemplate hc hm,
    carried_ofMembers hc hm (by decide : "graphs" ≠ "*") (by decide : "graph" ≠ "*"),
    carried_ofMembers hc hm (by decide : "screens" ≠ "*") (by decide : "screen" ≠ "*"),
    carried_ofMembers hc hm (by decide : "triggers" ≠ "*") (by decide : "trigger" ≠ "*"),
    carried_ofScreens hc hm (by decide : "hosts" ≠ "*") (by decide : "host" ≠ "*"),
    carried_ofScreens hc hm (by decide : "templates" ≠ "*") (by decide : "template" ≠ "*")]
  by_cases h : "hosts" = c ∧ "host" = m <;> simp [h]

end Members

/-- A path into the members of a root container that no fragment takes apart. -/
theorem carried_whole (h : (c, m) ∈ [("graphs", "graph"), ("screens", "screen"), ("triggers", "trigger")])
    (root : Node) (segments : List String) :
    carried (c :: m :: segments) (split root) = follow (c :: m :: segments) [root] := by
  simp only [List.mem_cons, Prod.mk.injEq, List.not_mem_nil, or_false] at h
  rcases h with ⟨rfl, rfl⟩ | ⟨rfl, rfl⟩ | ⟨rfl, rfl⟩ <;> rw [carried_split (by decide) (by decide)] <;> simp

theorem follow_strip {tags : List String} (h : c ∈ tags) (hc : c ≠ "*") (segments : List String) (n : Node) :
    follow (c :: segments) [strip tags n] = [] := by
  rw [follow_cons hc, List.flatMap_singleton, childrenNamed_strip h, follow_nil]

theorem follow_skeleton_push_of_ne {t : String} (hn : c ≠ "name") (hm : c ≠ member) (hc : c ≠ "*") (ht : t ≠ c)
    (segments : List String) (scope : Node) (parts : List Node) :
    follow (c :: segments) [(skeleton member scope).push (ofChildren t parts)] = [] := by
  rw [follow_cons hc, List.flatMap_singleton, childrenNamed_skeleton_push hn hm, if_neg ht, follow_nil]

theorem carried_items (root : Node) :
    carried ["hosts", "host", "items", "item"] (split root) = follow ["hosts", "host", "items", "item"] [root] := by
  have hitems (host : Node) : (if items host = [] then [] else
      follow ["items", "item"] [(skeleton "host" host).push (ofChildren "items" (items host))]) = items host := by
    split
    · next h => exact h.symm
    · exact follow_skeleton_push (by decide) (by decide) (by decide) (by decide) host fun _ =>
        tag_of_mem_follow (by decide) (by decide)
  rw [carried_split (by decide) (by decide), follow_root (by decide) (by decide)]
  change _ = (membersOf root "hosts" "host").flatMap items
  simp [hitems, follow_strip (c := "items"), follow_skeleton_push_of_ne (c := "items") (t := "screens")]

theorem follow_screen {screen : Node} (h : screen ∈ screens scope) (hm : "screens" ≠ member) (scope' : Node) :
    follow ["screens", "screen"] [(skeleton member scope').push (ofChildren "screens" [screen])] = [screen] :=
  follow_skeleton_push (by decide) hm (by decide) (by decide) scope' fun s hs =>
    List.mem_singleton.mp hs ▸ tag_of_mem_follow (by decide) (by decide) h

theorem carried_hostScreens (root : Node) : carried ["hosts", "host", "screens", "screen"] (split root) =
    follow ["hosts", "host", "screens", "screen"] [root] := by
  have hscreens (host : Node) : ((screens host).flatMap fun screen =>
      follow ["screens", "screen"] [(skeleton "host" host).push (ofChildren "screens" [screen])]) = screens host :=
    (List.flatMap_congr fun _ h => follow_screen h (by decide) host).trans (List.flatMap_singleton' _)
  rw [carried_split (by decide) (by decide), follow_root (by decide) (by decide)]
  change _ = (membersOf root "hosts" "host").flatMap screens
  simp [hscreens, follow_strip (c := "screens"), follow_skeleton_push_of_ne (c := "screens") (t := "items")]

theorem carried_templateScreens (root : Node) : carried ["templates", "template", "screens", "screen"] (split root) =
    follow ["templates", "template", "screens", "screen"] [root] := by
  have hscreens (template : Node) : ((screens template).flatMap fun screen =>
      follow ["screens", "screen"] [(skeleton "template" template).push (ofChildren "screens" [screen])]) =
        screens template :=
    (List.flatMap_congr fun _ h => follow_screen h (by decide) template).trans (List.flatMap_singleton' _)
  rw [carried_split (by decide) (by decide), follow_root (by decide) (by decide)]
  change _ = (membersOf root "templates" "template").flatMap screens
  simp [hscreens, follow_strip (c := "screens")]

/-! ## What each fragment is cut from -/

/-- The kinds of members that are carried as they are, with their containers and tags. -/
def wholeMembers : List (FragmentKind × String × String) :=
  [(.graph, "graphs", "graph"), (.screen, "screens", "screen"), (.trigger, "triggers", "trigger")]

/-- The kinds of screens of hosts and templates, with the containers and tags of these. -/
def screenScopes : List (FragmentKind × String × String) :=
  [(.hostScreen, "hosts", "host"), (.templateScreen, "templates", "template")]

/-- The parts of a document that are cut out, with the kinds of their fragments and their containers. -/
inductive Cut (root : Node) : FragmentKind → String → Node → Prop
  | host {host : Node} (h : host ∈ membersOf root "hosts" "host") :
      Cut root .host "hosts" (strip ["screens", "items"] host)
  | items {host : Node} (h : host ∈ membersOf root "hosts" "host") :
      Cut root .hostItems "hosts" ((skeleton "host" host).push (ofChildren "items" (items host)))
  | template {n : Node} (h : n ∈ membersOf root "templates" "template") :
      Cut root .template "templates" (strip ["screens"] n)
  | member {kind : FragmentKind} {container member : String} {n : Node} (hk : (kind, container, member) ∈ wholeMembers)
      (h : n ∈ membersOf root container member) : Cut root kind container n
  | screen {kind : FragmentKind} {container member : String} {scope s : Node}
      (hk : (kind, container, member) ∈ screenScopes) (h : scope ∈ membersOf root container member)
      (hs : s ∈ screens scope) : Cut root kind container ((skeleton member scope).push (ofChildren "screens" [s]))

/-- Whether a fragment is one around a part that is cut out. -/
def IsCut (root : Node) (f : Fragment) : Prop :=
  ∃ kind name container part, Cut root kind container part ∧ f = wrap root kind name container part

theorem isCut_of_mem_ofHost {f : Fragment} (hh : host ∈ membersOf root "hosts" "host") (h : f ∈ ofHost root host) :
    IsCut root f := by
  cases hempty : (items host).isEmpty with
  | true =>
      rw [ofHost_of_isEmpty hempty, List.mem_singleton] at h
      exact ⟨_, _, _, _, .host hh, h⟩
  | false =>
      rw [ofHost_of_items hempty, List.mem_cons, List.mem_singleton] at h
      rcases h with h | h
      · exact ⟨_, _, _, _, .host hh, h⟩
      · exact ⟨_, _, _, _, .items hh, h⟩

theorem isCut_of_mem_ofMembers {f : Fragment} (hk : (kind, container, member) ∈ wholeMembers)
    (h : f ∈ ofMembers root container member kind) : IsCut root f := by
  obtain ⟨n, hn, rfl⟩ := List.mem_map.mp h
  exact ⟨_, _, _, _, .member hk hn, rfl⟩

theorem isCut_of_mem_ofScreens {f : Fragment} (hk : (kind, container, member) ∈ screenScopes)
    (h : f ∈ ofScreens root container member kind) : IsCut root f := by
  obtain ⟨scope, hscope, h⟩ := List.mem_flatMap.mp h
  obtain ⟨s, hs, rfl⟩ := List.mem_map.mp h
  exact ⟨_, _, _, _, .screen hk hscope hs, rfl⟩

theorem isCut_of_mem_split {f : Fragment} (h : f ∈ split root) : IsCut root f := by
  simp only [split, List.mem_append] at h
  rcases h with (((((h | h) | h) | h) | h) | h) | h
  · obtain ⟨host, hh, h⟩ := List.mem_flatMap.mp h
    exact isCut_of_mem_ofHost hh h
  · obtain ⟨n, hn, rfl⟩ := List.mem_map.mp h
    exact ⟨_, _, _, _, .template hn, rfl⟩
  · exact isCut_of_mem_ofMembers (by decide) h
  · exact isCut_of_mem_ofMembers (by decide) h
  · exact isCut_of_mem_ofScreens (by decide) h
  · exact isCut_of_mem_ofScreens (by decide) h
  · exact isCut_of_mem_ofMembers (by decide) h

/-- The tags on the way to what a fragment of a kind carries. -/
def tagsOf (kind : FragmentKind) : List String := Text.segments (· = '/') kind.path

theorem tagsOf_of_wholeMembers : ∀ k ∈ wholeMembers, tagsOf k.1 = [k.2.1, k.2.2] := by decide

theorem tagsOf_of_screenScopes : ∀ k ∈ screenScopes, tagsOf k.1 = [k.2.1, k.2.2, "screens", "screen"] := by decide

/-- The containers and tags of members are no stars and nothing that all fragments repeat. -/
theorem admissible_of_mem : ∀ k ∈ wholeMembers ++ screenScopes, k.2.1 ∉ "*" :: repeatedTags ∧ k.2.1 ≠ "*" ∧
    k.2.2 ≠ "*" ∧ "screens" ≠ k.2.2 := by
  decide

namespace Cut

variable {part : Node}

theorem head?_tagsOf (h : Cut root kind container part) : (tagsOf kind).head? = some container := by
  cases h with
  | host | items | template => decide
  | member hk => rw [tagsOf_of_wholeMembers _ hk]; rfl
  | screen hk => rw [tagsOf_of_screenScopes _ hk]; rfl

/-- Each fragment carries one element. -/
theorem follow_tagsOf (h : Cut root kind container part) (name : String) :
    ∃ n, follow (tagsOf kind) [(wrap root kind name container part).document] = [n] := by
  have hstep {c m : String} {segments : List String} (hc : c ∉ "*" :: repeatedTags) (hm : m ≠ "*")
      (hkind : tagsOf kind = c :: m :: segments) (hcontainer : container = c) (hpart : part.tag = m) :
      follow (tagsOf kind) [(wrap root kind name container part).document] = follow segments [part] := by
    rw [hkind, follow_wrap hc hm, if_pos ⟨hcontainer, hpart⟩]
  cases h with
  | host h => exact ⟨_, hstep (by decide) (by decide) rfl rfl (tag_of_mem_hosts h :)⟩
  | @items host h =>
      refine ⟨ofChildren "items" (Fragment.items host), ?_⟩
      rw [hstep (by decide) (by decide) (rfl : _ = _ :: _ :: ["items"]) rfl (tag_of_mem_hosts h :),
        follow_cons (by decide), List.flatMap_singleton, childrenNamed_skeleton_push (by decide) (by decide)]
      rfl
  | template h => exact ⟨_, hstep (by decide) (by decide) rfl rfl (tag_of_mem_templates h :)⟩
  | member hk h =>
      obtain ⟨hc, hcontainer, hm, _⟩ := admissible_of_mem _ (List.mem_append_left _ hk)
      exact ⟨_, hstep hc hm (tagsOf_of_wholeMembers _ hk) rfl (tag_of_mem_membersOf hcontainer hm h)⟩
  | screen hk h hs =>
      obtain ⟨hc, hcontainer, hm, hscreens⟩ := admissible_of_mem _ (List.mem_append_right _ hk)
      have htag := tag_of_mem_membersOf hcontainer hm h
      exact ⟨_, (hstep hc hm (tagsOf_of_screenScopes _ hk) rfl htag).trans (follow_screen hs hscreens _)⟩

end Cut

/-! ## The order of the fragments -/

/-- The fragments of hosts and templates, which come first. -/
def ofScopes (root : Node) : List Fragment :=
  (membersOf root "hosts" "host").flatMap (ofHost root) ++ (membersOf root "templates" "template").map (ofTemplate root)

/-- The fragments that come after those of hosts and templates. -/
def ofOthers (root : Node) : List Fragment :=
  ofMembers root "graphs" "graph" .graph ++ ofMembers root "screens" "screen" .screen
    ++ ofScreens root "hosts" "host" .hostScreen ++ ofScreens root "templates" "template" .templateScreen
    ++ ofMembers root "triggers" "trigger" .trigger

theorem split_eq (root : Node) : split root = ofScopes root ++ ofOthers root := by
  simp only [split, ofScopes, ofOthers, List.append_assoc]

variable {f : Fragment}

theorem kind_of_mem_ofHost (h : f ∈ ofHost root host) : f.kind = .host ∨ f.kind = .hostItems := by
  cases hempty : (items host).isEmpty with
  | true =>
      rw [ofHost_of_isEmpty hempty, List.mem_singleton] at h
      exact .inl (h ▸ rfl)
  | false =>
      rw [ofHost_of_items hempty, List.mem_cons, List.mem_singleton] at h
      exact h.imp (congrArg Fragment.kind) (congrArg Fragment.kind)

theorem kind_of_mem_ofMembers (h : f ∈ ofMembers root container member kind) : f.kind = kind := by
  obtain ⟨_, _, rfl⟩ := List.mem_map.mp h
  rfl

theorem kind_of_mem_ofScreens (h : f ∈ ofScreens root container member kind) : f.kind = kind := by
  obtain ⟨_, _, h⟩ := List.mem_flatMap.mp h
  obtain ⟨_, _, rfl⟩ := List.mem_map.mp h
  rfl

theorem kind_of_mem_ofScopes (h : f ∈ ofScopes root) : f.kind ∈ [.host, .hostItems, .template] := by
  rcases List.mem_append.mp h with h | h
  · obtain ⟨host, _, h⟩ := List.mem_flatMap.mp h
    rcases kind_of_mem_ofHost h with h | h <;> rw [h] <;> decide
  · obtain ⟨_, _, rfl⟩ := List.mem_map.mp h
    exact List.mem_cons_of_mem _ (List.mem_cons_of_mem _ List.mem_cons_self)

theorem kind_of_mem_ofOthers (h : f ∈ ofOthers root) :
    f.kind ∈ [.graph, .screen, .hostScreen, .templateScreen, .trigger] := by
  simp only [ofOthers, List.mem_append] at h
  rcases h with (((h | h) | h) | h) | h
  · rw [kind_of_mem_ofMembers h]; decide
  · rw [kind_of_mem_ofMembers h]; decide
  · rw [kind_of_mem_ofScreens h]; decide
  · rw [kind_of_mem_ofScreens h]; decide
  · rw [kind_of_mem_ofMembers h]; decide

theorem kind_ne_of_mem_ofOthers (hk : kind ∈ [.host, .hostItems, .template]) (h : f ∈ ofOthers root) :
    f.kind ≠ kind := by
  have hf := kind_of_mem_ofOthers h
  rintro rfl
  generalize f.kind = k at hk hf
  cases k <;> revert hk hf <;> decide

/-- The fragments of a kind. -/
def ofKind (kind : FragmentKind) (fs : List Fragment) : List Fragment := fs.filter (·.kind = kind)

theorem ofKind_eq_nil {fs : List Fragment} (h : ∀ f ∈ fs, f.kind ≠ kind) : ofKind kind fs = [] :=
  List.filter_eq_nil_iff.mpr fun f hf => by simp [h f hf]

theorem ofKind_append (fs gs : List Fragment) : ofKind kind (fs ++ gs) = ofKind kind fs ++ ofKind kind gs :=
  List.filter_append ..

theorem ofKind_host (root : Node) :
    ofKind .host (split root) = (membersOf root "hosts" "host").map (ofBareHost root) := by
  have hothers : ofKind .host (ofOthers root) = [] := ofKind_eq_nil fun _ => kind_ne_of_mem_ofOthers (by decide)
  have htemplates : ofKind .host ((membersOf root "templates" "template").map (ofTemplate root)) = [] :=
    ofKind_eq_nil fun f hf => by
      obtain ⟨_, _, rfl⟩ := List.mem_map.mp hf
      exact (by decide : FragmentKind.template ≠ .host)
  have hhost (host : Node) : ofKind .host (ofHost root host) = [ofBareHost root host] := by
    cases hempty : (items host).isEmpty with
    | true => rw [ofHost_of_isEmpty hempty]; rfl
    | false => rw [ofHost_of_items hempty]; rfl
  rw [split_eq, ofKind_append, hothers, ofScopes, ofKind_append, htemplates, List.append_nil, List.append_nil, ofKind,
    List.filter_flatMap]
  exact (List.flatMap_congr fun host _ => hhost host).trans (List.flatMap_pure_eq_map ..)

theorem ofKind_template (root : Node) :
    ofKind .template (split root) = (membersOf root "templates" "template").map (ofTemplate root) := by
  have hothers : ofKind .template (ofOthers root) = [] := ofKind_eq_nil fun _ => kind_ne_of_mem_ofOthers (by decide)
  have hhosts : ofKind .template ((membersOf root "hosts" "host").flatMap (ofHost root)) = [] :=
    ofKind_eq_nil fun f hf h => by
      obtain ⟨_, _, hf⟩ := List.mem_flatMap.mp hf
      rcases kind_of_mem_ofHost hf with hk | hk <;> rw [h] at hk <;> exact absurd hk (by decide)
  rw [split_eq, ofKind_append, hothers, ofScopes, ofKind_append, hhosts, List.append_nil, List.nil_append]
  refine List.filter_eq_self.mpr fun f hf => ?_
  obtain ⟨_, _, rfl⟩ := List.mem_map.mp hf
  rfl

/-- The fragment of the items of a host comes directly after that of the host, which is as many hosts down as there are
fragments of hosts before it. -/
theorem ofItems_next (hosts : List Node) {before after : List Fragment}
    (h : hosts.flatMap (ofHost root) = before ++ f :: after) (hf : f.kind = .hostItems) :
    ∃ before' host, before = before' ++ [ofBareHost root host] ∧ f = ofItems root host ∧
      hosts[(ofKind .host before').length]? = some host := by
  induction hosts generalizing before with
  | nil => simp at h
  | cons host hosts ih =>
      have hrest (fs : List Fragment) {before₁ : List Fragment} (hk : (ofKind .host fs).length = 1)
          (h' : hosts.flatMap (ofHost root) = before₁ ++ f :: after) : ∃ before' host', fs ++ before₁ =
            before' ++ [ofBareHost root host'] ∧ f = ofItems root host' ∧
              (host :: hosts)[(ofKind .host before').length]? = some host' := by
        obtain ⟨before', host', rfl, hitems, hget⟩ := ih h'
        refine ⟨fs ++ before', host', by simp, hitems, ?_⟩
        rw [ofKind_append, List.length_append, hk, Nat.add_comm, List.getElem?_cons_succ, hget]
      rw [List.flatMap_cons] at h
      cases hempty : (items host).isEmpty with
      | true =>
          rw [ofHost_of_isEmpty hempty] at h
          rcases before with _ | ⟨g, before⟩ <;>
            simp only [List.cons_append, List.nil_append, List.cons.injEq] at h
          · cases h.1 ▸ hf
          · obtain ⟨rfl, h⟩ := h
            exact hrest [_] rfl h
      | false =>
          rw [ofHost_of_items hempty] at h
          rcases before with _ | ⟨g, _ | ⟨g', before⟩⟩ <;>
            simp only [List.cons_append, List.nil_append, List.cons.injEq] at h
          · cases h.1 ▸ hf
          · obtain ⟨rfl, rfl, _⟩ := h
            exact ⟨[], host, rfl, rfl, rfl⟩
          · obtain ⟨rfl, rfl, h⟩ := h
            exact hrest [_, _] rfl h

/-! ## Division -/

/-- The paths of what fragments carry as it is. -/
def carriedPaths : List String :=
  ["hosts/host/items/item", "hosts/host/screens/screen", "templates/template/screens/screen", "graphs/graph",
    "screens/screen", "triggers/trigger"]

/-- Whether fragments divide a document. -/
structure Divides (root : Node) (fs : List Fragment) : Prop where
  /-- One fragment after the other, they have what the document has. -/
  complete : ∀ path ∈ carriedPaths, (fs.flatMap fun f => f.document.findAll path) = root.findAll path
  /-- The hosts are there without their items and screens. -/
  hosts : ((ofKind .host fs).flatMap fun f => f.document.findAll "hosts/host") =
    (root.findAll "hosts/host").map fun h => (h.withoutChildren "items").withoutChildren "screens"
  /-- The templates are there without their screens. -/
  templates : ((ofKind .template fs).flatMap fun f => f.document.findAll "templates/template") =
    (root.findAll "templates/template").map fun t => t.withoutChildren "screens"
  /-- Each has one element at the path of its kind. -/
  single : ∀ f ∈ fs, (f.document.findAll f.kind.path).length = 1
  /-- Beside the container at the start of that path, each has the version, the date and the groups of the document. -/
  header : ∀ f ∈ fs, ∃ payload : Node, (tagsOf f.kind).head? = some payload.tag ∧
    f.document = ⟨root.tag, none, (root.child? "version").toList ++ (root.child? "date").toList ++
      payload :: (root.child? "groups").toList⟩
  /-- The items of a host, with its names, come directly after it. -/
  itemsNext : ∀ before f after, fs = before ++ f :: after → f.kind = .hostItems →
    ∃ before' g host, before = before' ++ [g] ∧ g.kind = .host ∧
      (root.findAll "hosts/host")[(ofKind .host before').length]? = some host ∧
      g.document.findAll "hosts/host" = [(host.withoutChildren "items").withoutChildren "screens"] ∧
      f.document.findAll "hosts/host/items/item" = host.findAll "items/item" ∧
      ∀ tag ∈ ["name", "host"], f.document.findAll ("hosts/host/" ++ tag) = host.childrenNamed tag
  /-- Hosts, their items and templates come before all else. -/
  scopesFirst : ∃ scopes others, fs = scopes ++ others ∧
    (∀ f ∈ scopes, f.kind ∈ [.host, .hostItems, .template]) ∧
    ∀ f ∈ others, f.kind ∈ [.graph, .screen, .hostScreen, .templateScreen, .trigger]

theorem strip_eq (n : Node) :
    strip ["screens", "items"] n = (n.withoutChildren "items").withoutChildren "screens" := by
  simp [strip, withoutChildren, List.filter_filter]

theorem strip_singleton (n : Node) (tag : String) : strip [tag] n = n.withoutChildren tag := by
  simp [strip, withoutChildren]

theorem follow_ofBareHost (h : host.tag = "host") : follow ["hosts", "host"] [(ofBareHost root host).document] =
    [(host.withoutChildren "items").withoutChildren "screens"] := by
  rw [ofBareHost, follow_wrap (by decide) (by decide), if_pos ⟨rfl, h⟩, strip_eq]
  rfl

theorem follow_ofItems (h : host.tag = "host") (segments : List String) :
    follow ("hosts" :: "host" :: segments) [(ofItems root host).document] =
      follow segments [(skeleton "host" host).push (ofChildren "items" (items host))] := by
  rw [ofItems, follow_wrap (by decide) (by decide), if_pos ⟨rfl, h⟩]

/-- A skeleton has the names of its host or template. -/
theorem follow_skeleton_push_name {t : String} (hc : c = "name" ∨ c = member) (ht : t ≠ c) (hstar : c ≠ "*")
    (scope : Node) (parts : List Node) :
    follow [c] [(skeleton member scope).push (ofChildren t parts)] = scope.childrenNamed c := by
  have hkeep : (fun n : Node => decide (n.tag = c) && (decide (n.tag = "name") || decide (n.tag = member))) =
      fun n => decide (n.tag = c) := by
    funext n
    rcases hc with rfl | rfl <;> cases decide (n.tag = _) <;> simp
  rw [follow_cons hstar, List.flatMap_singleton]
  simp [follow, childrenNamed, push, skeleton, ofChildren, List.filter_append, List.filter_filter, hkeep, ht]

/-- Only hosts have fragments of items. -/
theorem ofItems_next_split {before after : List Fragment} (h : split root = before ++ f :: after)
    (hf : f.kind = .hostItems) : ∃ before' host, before = before' ++ [ofBareHost root host] ∧ f = ofItems root host ∧
      (membersOf root "hosts" "host")[(ofKind .host before').length]? = some host := by
  have hnot : f ∉ (membersOf root "templates" "template").map (ofTemplate root) ++ ofOthers root := fun hmem => by
    rcases List.mem_append.mp hmem with hmem | hmem
    · obtain ⟨_, _, rfl⟩ := List.mem_map.mp hmem
      cases hf
    · exact kind_ne_of_mem_ofOthers (by decide) hmem hf
  rw [split_eq, ofScopes, List.append_assoc] at h
  rcases List.append_eq_append_iff.mp h with ⟨_, _, hrest⟩ | ⟨_ | ⟨g, more⟩, hhosts, hrest⟩
  · exact absurd (hrest ▸ List.mem_append_right _ List.mem_cons_self) hnot
  · exact absurd (hrest ▸ List.mem_cons_self) hnot
  · obtain ⟨rfl, _⟩ := List.cons.inj hrest
    exact ofItems_next _ hhosts hf

/-- Splitting a document divides it. -/
theorem split_divides (root : Node) : Divides root (split root) where
  complete path hpath := by
    simp only [carriedPaths, List.mem_cons, List.not_mem_nil, or_false] at hpath
    rcases hpath with rfl | rfl | rfl | rfl | rfl | rfl
    · exact carried_items root
    · exact carried_hostScreens root
    · exact carried_templateScreens root
    · exact carried_whole (by decide) root []
    · exact carried_whole (by decide) root []
    · exact carried_whole (by decide) root []
  hosts := by
    rw [ofKind_host, List.flatMap_map]
    refine (List.flatMap_congr fun host hh => ?_).trans (List.flatMap_pure_eq_map _ (membersOf root "hosts" "host"))
    exact follow_ofBareHost (tag_of_mem_hosts hh)
  templates := by
    rw [ofKind_template, List.flatMap_map]
    refine (List.flatMap_congr fun template ht => ?_).trans
      (List.flatMap_pure_eq_map _ (membersOf root "templates" "template"))
    exact (follow_wrap (by decide) (by decide) [] _).trans
      ((if_pos ⟨rfl, (tag_of_mem_templates ht :)⟩).trans (congrArg (fun n => [n]) (strip_singleton template "screens")))
  single f hf := by
    obtain ⟨kind, name, container, part, hcut, rfl⟩ := isCut_of_mem_split hf
    obtain ⟨n, hn⟩ := hcut.follow_tagsOf name
    exact congrArg List.length hn
  header f hf := by
    obtain ⟨kind, name, container, part, hcut, rfl⟩ := isCut_of_mem_split hf
    exact ⟨ofChildren container [part], hcut.head?_tagsOf, rfl⟩
  itemsNext before f after h hf := by
    obtain ⟨before', host, rfl, rfl, hget⟩ := ofItems_next_split h hf
    have htag : host.tag = "host" := tag_of_mem_hosts (List.mem_of_getElem? hget)
    refine ⟨before', _, host, rfl, rfl, hget, follow_ofBareHost htag, ?_, fun tag ht => ?_⟩
    · exact (follow_ofItems htag _).trans <| follow_skeleton_push (by decide) (by decide) (by decide) (by decide) host
        fun _ => tag_of_mem_follow (by decide) (by decide)
    · simp only [List.mem_cons, List.not_mem_nil, or_false] at ht
      rcases ht with rfl | rfl
      · exact (follow_ofItems htag ["name"]).trans <|
          follow_skeleton_push_name (.inl rfl) (by decide) (by decide) host _
      · exact (follow_ofItems htag ["host"]).trans <|
          follow_skeleton_push_name (.inr rfl) (by decide) (by decide) host _
  scopesFirst :=
    ⟨ofScopes root, ofOthers root, split_eq root, fun _ => kind_of_mem_ofScopes, fun _ => kind_of_mem_ofOthers⟩

end Fragment

end MonitorExport
