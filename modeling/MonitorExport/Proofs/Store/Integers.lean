import MonitorExport.Proofs.Decimal.Integers
import MonitorExport.Proofs.Store.Distinctness
import MonitorExport.Proofs.Validation.Fixpoints

/-!
# Members and codes told apart by integers

Collections and tables compare integers as floats. Integers up to two to the 53 are told apart. Of two greater ones that
one float stands for, a collection takes but the first that is added, and a table but the code that comes first.
-/

namespace MonitorExport

/-- Whether one float stands for two integers. -/
def alike (m n : Int) : Bool := Float.ofInt m == Float.ofInt n

theorem alike_self (n : Int) : alike n n = true := Decimal.ofInt_beq_self n

/-! ## Codes -/

namespace Validator

variable {choices : List Choice} {codes before after : List Int} {m n : Int}

/-- Of the codes of a table of integers, the first that is like an integer is found for it. -/
theorem validate_int (h : choices.map (·.code) = codes.map .int) :
    (Validator.choice choices).validate (.int n) = .ok (.int m) ↔ codes.find? (alike n) = some m := by
  have hfind : (choices.find? (·.accepts (.int n))).map (·.code) = (codes.find? (alike n)).map .int := calc
    (choices.find? (·.accepts (.int n))).map (·.code)
      = (choices.find? ((Value.int n).looseEq ∘ (·.code))).map (·.code) := by
        congr 2
        exact funext fun c => Bool.or_false _
    _ = (choices.map (·.code)).find? (Value.int n).looseEq := List.find?_map.symm
    _ = (codes.map .int).find? (Value.int n).looseEq := by rw [h]
    _ = (codes.find? (alike n)).map .int := List.find?_map
  rw [validate_choice_eq_ok]
  constructor
  · rintro ⟨c, hc, hm⟩
    rw [hc, Option.map_some, hm] at hfind
    obtain ⟨k, hk, hkm⟩ := Option.map_eq_some_iff.mp hfind.symm
    cases hkm
    exact hk
  · intro hm
    rw [hm] at hfind
    exact Option.map_eq_some_iff.mp hfind

/-- A table gives back those of its codes that no code before is like. -/
theorem validate_int_self (h : choices.map (·.code) = (before ++ n :: after).map .int) (hn : n ∉ before) :
    (Validator.choice choices).validate (.int n) = .ok (.int n) ↔ ∀ m ∈ before, alike n m = false := by
  rw [validate_int h, List.find?_append, List.find?_cons_of_pos (alike_self n)]
  cases hfind : before.find? (alike n) with
  | none => simpa using hfind
  | some m =>
      have hm := List.mem_of_find?_eq_some hfind
      refine iff_of_false (fun he => ?_) fun hall => Bool.eq_false_iff.mp (hall m hm) (List.find?_some hfind)
      cases he
      exact hn hm

end Validator

/-! ## Members -/

namespace Store

variable {s t u : Store} {c : CollectionId} {a b e : EntityId} {x y : Candidate} {field : String} {m n : Int}

/-- The scope of linking an entity: the members of collections change, and no scalar. -/
def Scope.linking (s : Store) (x : EntityId) : Scope := ⟨s.IsCollection, (· = x), fun _ => True⟩

theorem Run.identified {x : EntityId} (hs : s.Linked) (h : Run (.linking s x) s t) (he : s.Has e) : Identified s t e where
  has := he
  stored i _ := by
    by_cases hscalar : (s.slot e i).emptied = .scalar none
    · have hslot : t.slot e i = s.slot e i := h.slot he fun hc => by
        have hmembers := hscalar.symm.trans hc
        cases hmembers
      obtain ⟨v, hv⟩ := Slot.exists_scalar hscalar
      rw [stored_of_slot hv, stored_of_slot (hslot.trans hv)]
    · exact h.later.stored he (h.emptied hs he) hscalar

theorem Identified.sameIdentity_eq (ha : Identified s t a) (hb : Identified s t b) (hst : s.Extends t)
    (hca : ¬ s.IdentifiedByCount a) (hcb : ¬ s.IdentifiedByCount b) : t.sameIdentity a b = s.sameIdentity a b := by
  refine Bool.eq_iff_iff.mpr ⟨ha.sameIdentity hb hst hca hcb, fun h => ?_⟩
  rw [sameIdentity_iff] at h ⊢
  rw [hst.schemaOf ha.has, hst.schemaOf hb.has, hst.model ha.has, hst.model hb.has]
  refine h.imp_right ?_
  rintro ⟨hne, hid, hrel, hagree⟩
  refine ⟨hne, hid, ?_, fun field hf => (ha.agree hb hst hca hcb hid hf).trans (hagree field hf)⟩
  simpa only [Related, isA, hst.schema] using hrel

/-- A candidate that belongs to nothing, and is identified by an integer alone. -/
structure Candidate.Numbered (s : Store) (c : CollectionId) (field : String) (n : Int) (x : Candidate) : Prop where
  has : s.Has x.entity
  isA : s.isA (s.model x.entity) (s.target c.owner c.field) = true
  unowned : s.parent x.entity = none
  later : x.isNew = true → c.owner.index < x.entity.index
  identity : (s.schemaOf x.entity).identity = [field]
  plain : ¬ s.IdentifiedByCount x.entity
  number : s.get x.entity field = .ok (some (.int n))

/-- Two candidates for a collection, each identified by an integer. -/
structure Offered (s : Store) (c : CollectionId) (field : String) (m n : Int) (x y : Candidate) : Prop where
  linked : s.Linked
  built : s.Built
  isCollection : s.IsCollection c
  plain : ∀ e ∈ s.members c, ¬ s.IdentifiedByCount e
  first : x.Numbered s c field m
  second : y.Numbered s c field n
  ne : x.entity ≠ y.entity

namespace Candidate.Numbered

theorem admits (h : x.Numbered s c field n) : s.Admits (s.target c.owner c.field) x.entity := ⟨h.has, .inr h.isA⟩

theorem insert_eq (h : x.Numbered s c field n) :
    (∃ e, (s.members c).find? (s.sameIdentity · x.entity) = some e ∧ (s.insert c x).2 = e) ∨
      (s.members c).find? (s.sameIdentity · x.entity) = none ∧ s.insert c x = (s.link c x.entity, x.entity) := by
  unfold insert insertGiven placeNew place
  rw [h.unowned]
  cases (s.members c).find? (s.sameIdentity · x.entity) <;> cases x.isNew <;> simp

theorem insert_linking (h : x.Numbered s c field n) (hs : s.Linked) (hc : s.IsCollection c) :
    Run (.linking s x.entity) s (s.insert c x).1 := by
  have hplace : Run (.linking s x.entity) s (s.place c x.entity).1 :=
    (place_run hs hc rfl hc h.has (by simp [h.unowned]) (.inl trivial) h.admits).1
  unfold insert insertGiven placeNew
  rw [h.unowned]
  split
  · split
    · exact foldl_unlink_run _ fun e _ d hd => hs.isCollection hd
    · next hnone => simpa only [place, hnone] using hplace
  · exact hplace

theorem insert_stores (h : x.Numbered s c field n) (hs : s.Linked) (hc : s.IsCollection c) :
    Stores s c (s.insert c x).1 (s.insert c x).2 := by
  have hplaceNew (hnew : x.isNew = true) : Run .all s (s.placeNew c x.entity).1 ∧ _ :=
    placeNew_run hs ⟨trivial, hc, .inl trivial⟩ trivial h.admits h.unowned (h.later hnew) fun _ _ => trivial
  have hplace : Run .all s (s.place c x.entity).1 ∧ _ :=
    place_run hs trivial trivial hc h.has (by simp [h.unowned]) (.inl trivial) h.admits
  unfold insert insertGiven
  rw [h.unowned]
  split
  · next hnew => exact (hplaceNew hnew).2
  · exact hplace.2

/-- The value that a member has in the field by which it and a candidate are equal. -/
theorem get_of_equal (h : x.Numbered s c field n) (he : s.sameIdentity e x.entity = true) :
    ∃ v, s.get e field = .ok (some v) ∧ v.looseEq (.int n) = true := by
  rcases sameIdentity_iff.mp he with rfl | ⟨_, hid, _, hagree⟩
  · exact ⟨_, h.number, alike_self n⟩
  · have hmem : field ∈ (s.schemaOf e).identity := by
      rw [hid, h.identity]
      exact List.mem_singleton.mpr rfl
    have hfield := hagree field hmem
    rcases agree_iff.mp hfield with ⟨v, w, hv, hw, hvw⟩ | ⟨_, hnone⟩
    · cases h.number.symm.trans hw
      exact ⟨v, hv, hvw⟩
    · cases h.number.symm.trans hnone

theorem run (h : x.Numbered s c field n) (hs : s.Linked) (hc : s.IsCollection c)
    (hrun : Run (.linking s e) s t) (hne : x.entity ≠ e) : x.Numbered t c field n where
  has := hrun.has h.has
  isA := by
    rw [hrun.model h.has, hrun.later.target hc.has]
    simpa only [Store.isA, hrun.later.schema] using h.isA
  unowned := hrun.parent_none hne h.unowned
  later := h.later
  identity := by rw [hrun.later.schemaOf h.has, h.identity]
  plain := mt ((hrun.identified hs h.has).count_iff hrun.later).mp h.plain
  number := by
    rw [(hrun.identified hs h.has).get hrun.later h.plain (by simp [h.identity]), h.number]

end Candidate.Numbered

namespace Offered

variable (h : Offered s c field m n x y)

include h

theorem ne_of_mem (he : e ∈ s.members c) : e ≠ x.entity ∧ e ≠ y.entity := by
  constructor <;> rintro rfl <;> rw [h.linked.mem_iff] at he
  · cases h.first.unowned.symm.trans he
  · cases h.second.unowned.symm.trans he

theorem alike_of_equal (hx : s.sameIdentity e x.entity = true) (hy : s.sameIdentity e y.entity = true) :
    alike m n = true := by
  obtain ⟨v, hv, hvm⟩ := h.first.get_of_equal hx
  obtain ⟨w, hw, hwn⟩ := h.second.get_of_equal hy
  cases hv.symm.trans hw
  exact Value.looseEq_trans (Value.looseEq_symm hvm) hwn

theorem equal_of_alike (hmodel : s.model x.entity = s.model y.entity) (hmn : alike m n = true) :
    s.sameIdentity x.entity y.entity = true := by
  have hloose : (Value.int m).looseEq (.int n) = true := hmn
  refine sameIdentity_iff.mpr (.inr ⟨?_, ?_, .inl (hmodel ▸ h.built.isA_self h.first.isA), fun f hf => ?_⟩)
  · simp [h.first.identity]
  · rw [h.first.identity, h.second.identity]
  · rw [h.first.identity, List.mem_singleton] at hf
    exact agree_iff.mpr (.inl ⟨_, _, hf ▸ h.first.number, hf ▸ h.second.number, hloose⟩)

/-- The members that are equal to two candidates of one model are the same if their integers are alike. -/
theorem equal_congr (hmodel : s.model x.entity = s.model y.entity) (hmn : alike m n = true) (he : e ∈ s.members c) :
    s.sameIdentity e x.entity = s.sameIdentity e y.entity := by
  have hxy := h.equal_of_alike hmodel hmn
  obtain ⟨hex, hey⟩ := h.ne_of_mem he
  refine Bool.eq_iff_iff.mpr ⟨fun heq => ?_, fun heq => ?_⟩
  · have hrel := ((sameIdentity_iff.mp heq).resolve_left hex).2.2.1
    exact (sameIdentity_trans_iff heq hxy hey).mpr (hmodel ▸ hrel)
  · have hrel := ((sameIdentity_iff.mp heq).resolve_left hey).2.2.1
    exact (sameIdentity_trans_iff heq (sameIdentity_symm hxy) hex).mpr (hmodel ▸ hrel)

/-! ### The second candidate -/

variable (ht : s.insert c x = (t, a))

include ht

theorem linking : Run (.linking s x.entity) s t := by
  simpa only [ht] using h.first.insert_linking h.linked h.isCollection

theorem stores : Stores s c t a := by
  simpa only [ht] using h.first.insert_stores h.linked h.isCollection

theorem second_later : y.Numbered t c field n :=
  h.second.run h.linked h.isCollection (h.linking ht) h.ne.symm

theorem equal_later (he : e ∈ s.members c ∨ e = x.entity) :
    t.sameIdentity e y.entity = s.sameIdentity e y.entity := by
  have hrun := h.linking ht
  have hhas : s.Has e := he.elim (fun hm => has_of_parent (h.linked.mem_iff.mp hm)) fun hex => hex ▸ h.first.has
  have hplain : ¬ s.IdentifiedByCount e := he.elim (h.plain e) fun hex => hex ▸ h.first.plain
  exact (hrun.identified h.linked hhas).sameIdentity_eq (hrun.identified h.linked h.second.has) hrun.later hplain
    h.second.plain

theorem first_cases : a = x.entity ∧ t.members c = s.members c ++ [x.entity] ∧
      (s.members c).find? (s.sameIdentity · x.entity) = none ∨
    a ∈ s.members c ∧ (s.members c).find? (s.sameIdentity · x.entity) = some a := by
  rcases h.first.insert_eq with ⟨e, he, hres⟩ | ⟨hnone, hres⟩
  · rw [ht] at hres
    cases hres
    exact .inr ⟨List.mem_of_find?_eq_some he, he⟩
  · rw [ht] at hres
    cases hres
    exact .inl ⟨rfl, by rw [members_link h.isCollection, if_pos rfl], hnone⟩

variable (hu : t.insert c y = (u, b))

include hu

theorem members : s.members c <+: u.members c ∧ a ∈ u.members c ∧ b ∈ u.members c := by
  have hrun := h.linking ht
  have hfirst := h.stores ht
  have hsecond : Stores t c u b := by
    simpa only [hu] using
      (h.second_later ht).insert_stores (hrun.linked h.linked) (hrun.isCollection h.linked h.isCollection)
  exact ⟨hfirst.members_prefix.trans hsecond.members_prefix, hsecond.members_prefix.subset hfirst.mem, hsecond.mem⟩

theorem alike_of_eq (hab : a = b) : alike m n = true := by
  have hax : s.sameIdentity a x.entity = true := by
    rcases h.first_cases ht with ⟨rfl, _⟩ | ⟨_, hfind⟩
    · exact sameIdentity_self s _
    · have hequal := List.find?_some hfind
      exact hequal
  have hcases : a ∈ s.members c ∨ a = x.entity := (h.first_cases ht).symm.imp And.left And.left
  rcases (h.second_later ht).insert_eq with ⟨e, he, hres⟩ | ⟨_, hres⟩
  · have hbe : b = e := by rw [← hres, hu]
    have hay : s.sameIdentity a y.entity = true := by
      have hequal := List.find?_some he
      rw [← h.equal_later ht hcases, hab, hbe]
      exact hequal
    exact h.alike_of_equal hax hay
  · have hby : b = y.entity := by rw [hu] at hres; exact (Prod.mk.inj hres).2
    rcases hcases with hm | hx
    · exact absurd (hab.trans hby) (h.ne_of_mem hm).2
    · exact absurd (hx.symm.trans (hab.trans hby)) h.ne

theorem eq_of_alike (hmodel : s.model x.entity = s.model y.entity) (hmn : alike m n = true) : a = b := by
  have hkept : (s.members c).find? (t.sameIdentity · y.entity) = (s.members c).find? (s.sameIdentity · x.entity) :=
    List.find?_congr fun e he => (h.equal_later ht (.inl he)).trans (h.equal_congr hmodel hmn he).symm
  have hfound : (t.members c).find? (t.sameIdentity · y.entity) = some a := by
    rcases h.first_cases ht with ⟨rfl, hmembers, hnone⟩ | ⟨_, hsome⟩
    · have hxy : t.sameIdentity x.entity y.entity = true := by
        rw [h.equal_later ht (.inr rfl), h.equal_of_alike hmodel hmn]
      rw [hmembers, List.find?_append, hkept, hnone, List.find?_singleton, if_pos hxy]
      rfl
    · have hstores := h.stores ht
      obtain ⟨rest, hrest⟩ := hstores.members_prefix
      rw [← hrest, List.find?_append, hkept, hsome]
      rfl
  rcases (h.second_later ht).insert_eq with ⟨e, he, hres⟩ | ⟨hnone, _⟩
  · rw [hu] at hres
    exact Option.some.inj (hfound.symm.trans (he.trans (congrArg some hres.symm)))
  · cases hfound.symm.trans hnone

/-- Two candidates that no member is equal to are added both if their integers are not alike. -/
theorem members_eq_append
    (hfresh : ∀ e ∈ s.members c, s.sameIdentity e x.entity = false ∧ s.sameIdentity e y.entity = false)
    (hmn : alike m n = false) : u.members c = s.members c ++ [x.entity, y.entity] := by
  have hnone : (s.members c).find? (s.sameIdentity · x.entity) = none :=
    List.find?_eq_none.mpr fun e he => Bool.eq_false_iff.mp (hfresh e he).1
  obtain ⟨_, hmembers, _⟩ := (h.first_cases ht).resolve_right fun hsome => by cases hnone.symm.trans hsome.2
  have hnone' : (t.members c).find? (t.sameIdentity · y.entity) = none := by
    refine List.find?_eq_none.mpr fun e he heq => ?_
    rw [hmembers, List.mem_append, List.mem_singleton] at he
    rw [h.equal_later ht he] at heq
    rcases he with he | rfl
    · exact Bool.eq_false_iff.mp (hfresh e he).2 heq
    · exact Bool.eq_false_iff.mp hmn (h.alike_of_equal (sameIdentity_self s _) heq)
  rcases (h.second_later ht).insert_eq with ⟨e, he, _⟩ | ⟨_, hres⟩
  · cases hnone'.symm.trans he
  · rw [hu] at hres
    cases hres
    have hc := (h.linking ht).isCollection h.linked h.isCollection
    rw [members_link hc, if_pos rfl, hmembers, List.append_assoc]
    rfl

end Offered

/-- Of two candidates that are identified by integers, a collection takes both, unless one float stands for the two; a
table gives back a code, unless one float stands for it and a code before. Integers up to two to the 53 have floats of
their own. -/
theorem integers_apart {m n : Int} (hne : m ≠ n) :
    (∀ (s t u : Store) c field x y a b, Offered s c field m n x y → s.insert c x = (t, a) → t.insert c y = (u, b) →
      (s.members c <+: u.members c ∧ a ∈ u.members c ∧ b ∈ u.members c) ∧
      (a = b → alike m n = true) ∧
      (s.model x.entity = s.model y.entity → alike m n = true → a = b) ∧
      ((∀ e ∈ s.members c, s.sameIdentity e x.entity = false ∧ s.sameIdentity e y.entity = false) →
        alike m n = false → u.members c = s.members c ++ [x.entity, y.entity])) ∧
    (∀ (choices : List Choice) before after, choices.map (·.code) = (before ++ n :: after).map .int → n ∉ before →
      ((Validator.choice choices).validate (.int n) = .ok (.int n) ↔ ∀ k ∈ before, alike n k = false)) ∧
    (m.natAbs ≤ 2 ^ 53 → n.natAbs ≤ 2 ^ 53 → alike m n = false) :=
  ⟨fun _ _ _ _ _ _ _ _ _ h ht hu =>
      ⟨h.members ht hu, h.alike_of_eq ht hu, h.eq_of_alike ht hu, h.members_eq_append ht hu⟩,
    fun _ _ _ h hn => Validator.validate_int_self h hn,
    fun hm hn => Bool.eq_false_iff.mpr fun h => hne (Decimal.ofInt_inj hm hn h)⟩

/-! ## A ledger -/

/-- Ledgers of entries that are equal by number. -/
def ledgerDecls : List ModelDecl := ModelDecl.number [
  { name := "Ledger", fields := [("entries", .set "Entry")] },
  { name := "Entry", fields := [("number", .plain)], identity := some ["number"] }]

def ledgerRegistry : Registry := ⟨(Registry.resolveInOrder ledgerDecls 0 ledgerDecls).toOption.getD []⟩

theorem ledgerRegistry_eq : Registry.ofDecls ledgerDecls = .ok ledgerRegistry :=
  Registry.ofDecls_eq (by decide) (by decide) (by decide)

def makeEntry (n : Int) : Operation := .build ⟨0, 1⟩ .null ⟨[("number", .value (.int n))]⟩

/-- A ledger without entries, and two entries apart from it. -/
def ledger (m n : Int) : Store :=
  ((makeEntry n).step ((makeEntry m).step ((makeEmpty 0).step (.ofRegistries [ledgerRegistry])).2).2).2

def ledgerEntries : CollectionId := ⟨⟨0⟩, 0⟩

/-- The entries of the ledger after the two are added. -/
def ledgerMembers (m n : Int) : List EntityId :=
  (((ledger m n).insert ledgerEntries ⟨⟨1⟩, false⟩).1.insert ledgerEntries ⟨⟨2⟩, false⟩).1.members ledgerEntries

theorem ledger_reachable (m n : Int) : Reachable (ledger m n) ∧ (ledger m n).registries = [ledgerRegistry] := by
  have hgiven : ledgerRegistry.NamesGiven :=
    Registry.namesGiven_of_unprepared ledgerRegistry_eq (by simp [ledgerDecls, ModelDecl.number, ModelDecl.numberFrom])
  have hstart : Reachable (.ofRegistries [ledgerRegistry]) := .start (List.forall_mem_singleton.mpr hgiven)
  have hempty : (makeEmpty 0).Valid (.ofRegistries [ledgerRegistry]) := Operation.build_valid fun x hx => by
    simp [namedIn_iff, Entries.empty] at hx
  have hentry (n : Int) (s : Store) : (makeEntry n).Valid s := Operation.build_valid fun x hx => by
    simp [namedIn_iff, not_names_value] at hx
  have hledger := hstart.step hempty trivial
  have hfirst := hledger.step (hentry m _) trivial
  refine ⟨hfirst.step (hentry n _) trivial, ?_⟩
  exact (hfirst.registries_step (hentry n _)).trans
    ((hledger.registries_step (hentry m _)).trans (hstart.registries_step hempty))

theorem ledger_built (m n : Int) : (ledger m n).Built := fun r hr => by
  rw [(ledger_reachable m n).2, List.mem_singleton] at hr
  exact ⟨ledgerDecls, hr ▸ ledgerRegistry_eq⟩

theorem ledger_numbered {k m n : Int} {e : EntityId} (h : (ledger m n).Has e ∧ (ledger m n).parent e = none ∧
      (ledger m n).isA ((ledger m n).model e) ((ledger m n).target ⟨0⟩ 0) = true ∧
      ((ledger m n).schemaOf e).identity = ["number"] ∧
      (∀ f ∈ ((ledger m n).schemaOf e).fields, f.kind.label ≠ "elastic") ∧
      (match (ledger m n).get e "number" with | .ok (some (.int l)) => l == k | _ => false) = true) :
    (⟨e, false⟩ : Candidate).Numbered (ledger m n) ledgerEntries "number" k := by
  obtain ⟨hhas, hunowned, hisA, hidentity, hfields, hnumber⟩ := h
  refine ⟨hhas, hisA, hunowned, nofun, hidentity, not_identifiedByCount hfields, ?_⟩
  split at hnumber
  · next l hl => rw [hl, beq_iff_eq.mp hnumber]
  · cases hnumber

theorem ledger_offered {m n : Int}
    (hmembers : (ledger m n).IsCollection ledgerEntries ∧ (ledger m n).members ledgerEntries = [])
    (hm : (⟨⟨1⟩, false⟩ : Candidate).Numbered (ledger m n) ledgerEntries "number" m)
    (hn : (⟨⟨2⟩, false⟩ : Candidate).Numbered (ledger m n) ledgerEntries "number" n) :
    Offered (ledger m n) ledgerEntries "number" m n ⟨⟨1⟩, false⟩ ⟨⟨2⟩, false⟩ where
  linked := (ledger_reachable m n).1.linked
  built := ledger_built m n
  isCollection := hmembers.1
  plain e he := by simp [hmembers.2] at he
  first := hm
  second := hn
  ne := by decide

/-- Of two entries whose numbers follow one another, a ledger takes one, and of two such codes a table gives back one. -/
theorem integers_merged :
    Offered (ledger (2 ^ 53) (2 ^ 53 + 1)) ledgerEntries "number" (2 ^ 53) (2 ^ 53 + 1) ⟨⟨1⟩, false⟩ ⟨⟨2⟩, false⟩ ∧
    ledgerMembers (2 ^ 53) (2 ^ 53 + 1) = [⟨1⟩] ∧
    (Validator.choice [⟨.int (2 ^ 53), "even"⟩, ⟨.int (2 ^ 53 + 1), "odd"⟩]).validate (.int (2 ^ 53 + 1)) =
      .ok (.int (2 ^ 53)) := by
  refine ⟨ledger_offered ?_ (ledger_numbered ?_) (ledger_numbered ?_), ?_, ?_⟩
  · decide
  · decide
  · decide
  · decide
  · exact (@Validator.validate_int _ [2 ^ 53, 2 ^ 53 + 1] _ _ rfl).mpr (by decide)

theorem integers_apart_ledger : ledgerMembers 1 2 = [⟨1⟩, ⟨2⟩] ∧
    (Validator.choice [⟨.int 1, "odd"⟩, ⟨.int 2, "even"⟩]).validate (.int 2) = .ok (.int 2) := by
  obtain ⟨hmembers, hcodes, hsmall⟩ := @integers_apart 1 2 (by decide)
  have hoffered := @ledger_offered 1 2 (by decide) (ledger_numbered (by decide))
    (ledger_numbered (by decide))
  have hempty : (ledger 1 2).members ledgerEntries = [] := by decide
  have hapart := hsmall (by decide) (by decide)
  obtain ⟨_, _, _, hboth⟩ := hmembers _ _ _ _ _ _ _ _ _ hoffered rfl rfl
  have happend := hboth (by simp [hempty]) hapart
  refine ⟨by rw [hempty] at happend; exact happend, (hcodes _ [1] [] rfl (by decide)).mpr fun k hk => ?_⟩
  rw [List.mem_singleton.mp hk]
  exact (@integers_apart 2 1 (by decide)).2.2 (by decide) (by decide)

end Store

end MonitorExport
