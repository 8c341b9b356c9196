import MonitorExport.Proofs.Catalogue.References

/-!
# The host of a reference

A resolved reference says what it is bound to, and at the end perhaps a host. The host is that of what it is bound to
or else, where the reference asks for it, one that stands above the reference itself. The latter need not be a host
or template: on a screen of a document it is the screen.
-/

namespace MonitorExport

namespace Catalogue

open Store

/-! ## Tables -/

/-- The models that screens and what owns them are of. -/
def screenOwners : List String := ["Screen", "Host", "Template", "Config", "DiscoveryRule"]

theorem appending_table : ∀ m ∈ models, ∀ field ∈ m.fields, (match field.kind with
    | .reference _ appendHost => appendHost
    | _ => false) = true → m.name = "ScreenItem" := by
  decide +kernel

theorem screenOwners_table : ∀ m ∈ models, ∀ field ∈ m.fields, ∀ p ∈ models.zipIdx, takes field p = true →
    p.1.name ∈ "ScreenItem" :: screenOwners → m.name ∈ screenOwners := by
  decide +kernel

theorem documents_hold : ∀ m ∈ models, m.document = true → ∀ field ∈ m.fields, ∀ p ∈ models.zipIdx,
    takes field p = true → p.1.name ∈ screenOwners → p.1.name ∈ "Screen" :: hostModels := by
  decide +kernel

/-! ## What stands above a reference -/

variable {s : Store} {x a o : EntityId} {i : Nat} {r : ReferenceField} {v : Value} {identity identity' : Identity}

theorem model_of_appendsHost (hs : s.Linked) (hx : Standard s x) (h : s.appendsHost x i = true)
    {b : Binding} (hslot : s.slot x i = .binding b) : (s.schemaOf x).name = "ScreenItem" := by
  obtain ⟨f, hf, _⟩ := isReference_of_slot hs hx hslot
  rw [appendsHost, kind_eq hf] at h
  exact appending_table _ hx.mem f (List.mem_of_getElem? hf) h

theorem screenOwners_of_owner (hs : s.Linked) (hx : Standard s x)
    (hm : (s.schemaOf x).name ∈ "ScreenItem" :: screenOwners) (ho : s.owner x = some o) :
    (s.schemaOf o).name ∈ screenOwners := by
  obtain ⟨c, hp, rfl⟩ := owner_eq_some.mp ho
  have howner := hx.of_parent hs hp
  obtain ⟨_, f, hholds⟩ := howner.holds hs (hs.mem_iff.mpr hp)
  exact screenOwners_table _ howner.mem f (List.mem_of_getElem? hholds.place) _ hx.mem_zipIdx hholds.admits hm

theorem screenOwners_of_after (hs : s.Linked) (hx : Standard s x) (hm : (s.schemaOf x).name = "ScreenItem")
    (ha : After s.owner x a) : (s.schemaOf a).name ∈ screenOwners := by
  induction ha with
  | single ho => exact screenOwners_of_owner hs hx (hm ▸ List.mem_cons_self) ho
  | tail hb ho ih => exact screenOwners_of_owner hs (hx.of_after hs hb) (List.mem_cons_of_mem _ ih) ho

theorem model_of_hostScope (hs : s.Linked) (hx : Standard s x) (ha : s.hostScope x = some a) :
    After s.owner x a ∧ (s.schemaOf a).name ∈ hostModels := by
  obtain ⟨hmem, hscope⟩ := hostScope_eq_some ha
  have hafter := after_of_mem_ancestors hmem
  exact ⟨hafter, (hosts_table _ (hx.of_after hs hafter).mem).1.mp hscope⟩

/-- What gives a screen item its host is a host, a template or a screen of a document. -/
theorem model_of_stampingHost (hs : s.Linked) (hx : Standard s x) (hm : (s.schemaOf x).name = "ScreenItem")
    (ha : s.stampingHost x = some a) : After s.owner x a ∧
      ((s.schemaOf a).name ∈ hostModels ∨ (s.schemaOf a).name = "Screen" ∧ InDocument s a) := by
  rcases stampingHost_eq_some ha with ha | ha
  · obtain ⟨hmem, hd⟩ := documentHost_eq_some ha
    have hafter := after_of_mem_ancestors hmem
    refine ⟨hafter, ?_⟩
    obtain ⟨o, ho, hdocument⟩ := hd
    obtain ⟨c, hp, rfl⟩ := owner_eq_some.mp ho
    have hstandard := hx.of_after hs hafter
    have howner := hstandard.of_parent hs hp
    obtain ⟨_, f, hholds⟩ := howner.holds hs (hs.mem_iff.mpr hp)
    have hname := documents_hold _ howner.mem hdocument f (List.mem_of_getElem? hholds.place) _ hstandard.mem_zipIdx
      hholds.admits (screenOwners_of_after hs hx hm hafter)
    rcases List.mem_cons.mp hname with hscreen | hhost
    · exact .inr ⟨hscreen, _, ho, hdocument⟩
    · exact .inl hhost
  · exact (model_of_hostScope hs hx ha).imp_right .inl

/-! ## Completing identities -/

/-- What a reference stands for apart from its host: a literal, or the field by which an entity is named. -/
inductive Given (s : Store) (x : EntityId) (i : Nat) : List (String × Value) → Prop
  | literal {identity : Identity} (h : s.binding x i = .literal identity) : Given s x i identity.pairs
  | entity {a : EntityId} {r : ReferenceField} {v : Value} (hr : IsReference s x i r) (h : s.binding x i = .entity a)
      (hv : s.get a r.key = .ok (some v)) : Given s x i [(r.key, v)]

/-- The names that a reference may be given as a host: that of a host or template above what it is bound to, or, where
there is none and the reference asks for it, that of a host, a template or a screen of a document above itself. -/
inductive HostName (s : Store) (x : EntityId) (i : Nat) : Value → Prop
  | target {a host : EntityId} {v : Value} (h : s.binding x i = .entity a) (ha : After s.owner a host)
      (hm : (s.schemaOf host).name ∈ hostModels) (hv : s.get host "name" = .ok (some v)) : HostName s x i v
  | holder {host : EntityId} {v : Value} (happend : s.appendsHost x i = true)
      (hnone : ∀ a, s.binding x i = .entity a → ∀ b, s.hostScope a = some b → s.get b "name" = .ok none)
      (ha : After s.owner x host)
      (hm : (s.schemaOf host).name ∈ hostModels ∨ (s.schemaOf host).name = "Screen" ∧ InDocument s host)
      (hv : s.get host "name" = .ok (some v)) : HostName s x i v

/-- A reference completes what it is given by the name of its own host, if at all. -/
theorem completed_eq_ok (hs : s.Linked) (hx : Standard s x) {b : Binding} (hslot : s.slot x i = .binding b)
    (h : completed s x i identity = .ok identity')
    (hnone : ∀ a, s.binding x i = .entity a → (∀ p ∈ identity.pairs, p.1 ≠ "host") →
      ∀ b, s.hostScope a = some b → s.get b "name" = .ok none) :
    identity' = identity ∨ (∀ p ∈ identity.pairs, p.1 ≠ "host") ∧
      ∃ v, identity'.pairs = identity.pairs ++ [("host", v)] ∧ HostName s x i v := by
  unfold completed at h
  split at h
  · next hif =>
    obtain ⟨happend, hfree⟩ := Bool.and_eq_true_iff.mp hif
    have hfree := Entries.contains_eq_false.mp (Bool.not_eq_true' _ ▸ hfree)
    rcases withHost_eq_ok h with ⟨rfl, _⟩ | ⟨a, v, ha, hv, rfl⟩
    · exact .inl rfl
    · obtain ⟨hafter, hmodel⟩ := model_of_stampingHost hs hx (model_of_appendsHost hs hx happend hslot) ha
      exact .inr ⟨hfree, v, Entries.insertPair_of_not_mem hfree,
        .holder happend (fun a hb => hnone a hb hfree) hafter hmodel hv⟩
  · cases h
    exact .inl rfl

theorem key_ne_host : ∀ r ∈ referenceFields, r.key ≠ "host" := by decide

/-- The identity of what a reference is bound to is the field by which that is named, and its host if that has a
name. -/
theorem identity_eq_ok (hs : s.Linked) (hx : Standard s x) (hr : IsReference s x i r) (hb : s.binding x i = .entity a)
    (h : s.identity a = .ok identity) : ∃ v, s.get a r.key = .ok (some v) ∧
      (identity.pairs = [(r.key, v)] ∧ (∀ b, s.hostScope a = some b → s.get b "name" = .ok none) ∨
        ∃ name, identity.pairs = [(r.key, v), ("host", name)] ∧ HostName s x i name) := by
  obtain ⟨ha, href, hplain⟩ := hr.pointed hs hx hb
  obtain ⟨v, hv⟩ := ha.get_of_hasPlain hs hplain
  unfold Store.identity at h
  dsimp only at h
  rw [href] at h
  simp only [hv, ok_bind] at h
  cases v with
  | none => cases h
  | some v =>
      refine ⟨v, hv, ?_⟩
      rcases withHost_eq_ok h with ⟨rfl, hnone⟩ | ⟨host, name, hhost, hname, rfl⟩
      · exact .inl ⟨rfl, hnone⟩
      · obtain ⟨hafter, hmodel⟩ := model_of_hostScope hs ha hhost
        refine .inr ⟨name, ?_, .target hb hafter hmodel hname⟩
        exact Entries.insertPair_of_not_mem fun p hp => List.mem_singleton.mp hp ▸ key_ne_host r hr.mem

/-- A resolved reference is what it is given, in its order, and perhaps at its end a host that it was not given: the
name of a host or template above what it is bound to or, failing that, of a host, a template or a screen of a document
above the reference. -/
theorem resolve_host (h : Reachable s) (hx : Standard s x) (hr : s.resolve x i = .ok identity) :
    ∃ given, Given s x i given ∧ (identity.pairs = given ∨ (∀ p ∈ given, p.1 ≠ "host") ∧
      ∃ v, identity.pairs = given ++ [("host", v)] ∧ HostName s x i v) := by
  have hs := h.linked
  cases hb : s.binding x i with
  | unbound =>
      rw [resolve_unbound hb] at hr
      cases hr
  | literal literal =>
      rw [resolve_literal hb] at hr
      refine ⟨_, .literal hb, ?_⟩
      have hdone := completed_eq_ok hs hx (slot_of_binding hb nofun) hr fun a ha => by rw [hb] at ha; cases ha
      exact hdone.imp_left (congrArg Entries.pairs)
  | entity a =>
      rw [resolve_entity hb] at hr
      obtain ⟨found, hfound, hr⟩ := bind_eq_ok hr
      obtain ⟨r, href⟩ := exists_isReference hs hx (slot_of_binding hb nofun)
      obtain ⟨v, hv, hidentity⟩ := identity_eq_ok hs hx href hb hfound
      refine ⟨_, .entity href hb hv, ?_⟩
      have hdone := completed_eq_ok hs hx (slot_of_binding hb nofun) hr
      rcases hidentity with ⟨hpairs, hnone⟩ | ⟨name, hpairs, hname⟩
      · rw [← hpairs]
        refine (hdone fun b hb' _ => ?_).imp_left (congrArg Entries.pairs)
        rw [hb] at hb'
        cases hb'
        exact hnone
      · have hkey : ∀ p ∈ [(r.key, v)], p.1 ≠ "host" := fun p hp =>
          List.mem_singleton.mp hp ▸ key_ne_host r href.mem
        have hgiven : ("host", name) ∈ found.pairs := by
          rw [hpairs]
          simp
        rcases hdone fun _ _ hfree => absurd rfl (hfree _ hgiven) with rfl | ⟨hfree, _⟩
        · exact .inr ⟨hkey, name, hpairs, hname⟩
        · exact absurd rfl (hfree _ hgiven)

/-! ## A screen of a document -/

/-- A document with a screen, an item of which shows a graph given by its name. -/
def boardFields : Fields := ⟨[("screens", .list [.mapping ⟨[("name", .text "Overview"),
  ("screen_items", .list [.mapping ⟨[("resource", .mapping ⟨[("name", .text "Load")]⟩)]⟩])]⟩])]⟩

def makeBoard : Operation := .build ⟨0, 0⟩ .null boardFields

def board : Store := (makeBoard.step (.ofRegistries [registry])).2

theorem makeBoard_valid : makeBoard.Valid s := Operation.build_valid fun x hx => by
  rw [namedIn_iff] at hx
  simp [boardFields, names_mapping_iff, names_list_iff, Input.text, not_names_value] at hx

theorem board_reachable : Reachable board := .step start_reachable makeBoard_valid trivial

theorem board_forest : board.Forest :=
  forest_of_reaches (reaches_of_ungrafted (.step
    (.start fun r hr => by rw [List.mem_singleton.mp hr]; exact registry_namesGiven) makeBoard_valid
    (Operation.not_grafts_of_subject? rfl)))

theorem board_made : board.Has ⟨2⟩ ∧ (board.model ⟨2⟩).registry = 0 ∧ (board.schemaOf ⟨2⟩).name = "ScreenItem" ∧
    board.entities.size = 3 ∧ ∀ n < 3, (board.schemaOf ⟨n⟩).name ∉ hostModels := by
  rw [board, registry_eq]
  decide +kernel

theorem board_check : (match board.binding ⟨2⟩ 7, board.resolve ⟨2⟩ 7 with
    | .literal ⟨[(key, .text name)]⟩, .ok ⟨[(key', .text name'), (host, .text screen)]⟩ =>
      decide ([key, name, key', name', host, screen] = ["name", "Load", "name", "Load", "host", "Overview"])
    | _, _ => false) = true := by
  rw [board, registry_eq]
  decide +kernel

theorem board_resolves : board.binding ⟨2⟩ 7 = .literal ⟨[("name", .text "Load")]⟩ ∧
    board.resolve ⟨2⟩ 7 = .ok ⟨[("name", .text "Load"), ("host", .text "Overview")]⟩ := by
  have hcheck := board_check
  split at hcheck
  · next hb hr =>
    simp only [decide_eq_true_eq, List.cons.injEq] at hcheck
    obtain ⟨rfl, rfl, rfl, rfl, rfl, rfl, _⟩ := hcheck
    exact ⟨hb, hr⟩
  · cases hcheck

theorem board_standard : Standard board ⟨2⟩ :=
  standard_of_step makeBoard_valid board_made.1 board_made.2.1 (by decide) board_made.2.2.1

theorem resolve_host_board : Reachable board ∧ Standard board ⟨2⟩ ∧ ∃ identity given v,
    board.resolve ⟨2⟩ 7 = .ok identity ∧ Given board ⟨2⟩ 7 given ∧ identity.pairs = given ++ [("host", v)] ∧
      HostName board ⟨2⟩ 7 v := by
  obtain ⟨hb, hr⟩ := board_resolves
  refine ⟨board_reachable, board_standard, ⟨[("name", .text "Load"), ("host", .text "Overview")]⟩, ?_⟩
  obtain ⟨given, hgiven, hpairs | ⟨_, v, hpairs, hname⟩⟩ := resolve_host board_reachable board_standard hr
  · -- the literal has one pair, and what it stands for has two
    cases hgiven with
    | literal h =>
        rw [hb] at h
        cases h
        cases hpairs
    | entity _ h _ =>
        rw [hb] at h
        cases h
  · exact ⟨given, v, hr, hgiven, hpairs, hname⟩

/-- Nothing on the board is a host or a template. -/
theorem board_hostless (e : EntityId) (he : board.Has e) : (board.schemaOf e).name ∉ hostModels := by
  obtain ⟨n⟩ := e
  have hlt : n < board.entities.size := he
  rw [board_made.2.2.2.1] at hlt
  exact board_made.2.2.2.2 n hlt

/-- A reference outside all hosts and templates can be given a host: the screen that holds it. -/
theorem host_without_hosts : ¬ ∀ (s : Store) (x : EntityId) (i : Nat) (identity : Identity) (v : Value),
    Reachable s → s.Forest → Standard s x → s.resolve x i = .ok identity → identity.get? "host" = some v →
    (∀ literal, s.binding x i = .literal literal → literal.contains "host" = false) →
    ∃ host, (s.schemaOf host).name ∈ hostModels ∧ s.get host "name" = .ok (some v) ∧
      (After s.owner x host ∨ ∃ a, s.binding x i = .entity a ∧ After s.owner a host) := by
  intro hall
  obtain ⟨hb, hr⟩ := board_resolves
  obtain ⟨host, hm, _, habove⟩ := hall board ⟨2⟩ 7 _ (.text "Overview") board_reachable board_forest board_standard hr rfl
    fun literal hl => by
      rw [hb] at hl
      cases hl
      decide
  have hhas : board.Has host := by
    rcases habove with h | ⟨_, _, h⟩
    · exact board_reachable.linked.has_of_after h
    · exact board_reachable.linked.has_of_after h
  exact board_hostless host hhas hm

end Catalogue

end MonitorExport
