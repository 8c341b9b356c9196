import MonitorExport.Proofs.Store.Twins
import MonitorExport.Proofs.Store.Walks

/-!
# Copies

The copy of an entity owns twins of all that the entity owns, in the same order, if no collection there has
two members that are equal: members are equal to none of those copied before, so each copy is attached.
-/

namespace MonitorExport

theorem forall₂_imp_mem {α β : Type} {R S : α → β → Prop} {l : List α} {l' : List β} (h : List.Forall₂ R l l')
    (hs : ∀ a ∈ l, ∀ b ∈ l', R a b → S a b) : List.Forall₂ S l l' := by
  induction h with
  | nil => exact .nil
  | cons hr _ ih => exact .cons (hs _ (by simp) _ (by simp) hr) (ih fun a ha b hb => hs a (by simp [ha]) b (by simp [hb]))

theorem of_drop_eq_cons {α : Type} {l l' : List α} {a : α} {k : Nat} (h : l.drop k = a :: l') :
    l[k]? = some a ∧ l.drop (k + 1) = l' := by
  constructor
  · have hk := congrArg (·[0]?) h
    simpa using hk
  · rw [← List.tail_drop, h, List.tail_cons]

/-- Whether no member of a collection is equal to a later one. -/
def Store.Distinct (s : Store) (c : CollectionId) : Prop :=
  (s.members c).Pairwise fun a b => s.sameIdentity a b = false

namespace Subtree

open Store

/-- Whether a tree has all that its entities own, in collections of distinct members. -/
structure Spread (s : Store) (t : Subtree) : Prop where
  whole : t.Whole s
  distinct : ∀ c : CollectionId, c.owner ∈ t.preorder → s.Distinct c

/-- Whether an entity made after the first `n` is a twin of the root of a tree, and holds twins of what the tree
holds. -/
inductive Mirrored (s t : Store) (n : Nat) : Subtree → EntityId → Prop
  | node {x y : EntityId} {branches : List (List Subtree)} (hn : n ≤ y.index) (hy : t.Has y) (h : Twin s t x y)
      (hb : ∀ i ts, branches[i]? = some ts → List.Forall₂ (Mirrored s t n) ts (t.members ⟨y, i⟩)) :
      Mirrored s t n (.node x branches) y

variable {s t u : Store} {n m : Nat} {x y : EntityId} {T : Subtree} {branches : List (List Subtree)}

namespace Whole

theorem drawn (h : T.Whole s) : T.Drawn s := by
  induction h with
  | node h hb ih =>
      refine drawnBranches_iff.mpr fun i ts hi => drawnMembers_iff.mpr fun t ht => ?_
      refine ⟨?_, ih ts (List.mem_of_getElem? hi) t ht⟩
      rw [Nat.zero_add, ← roots_of_whole (.node h hb) hi]
      exact List.mem_map_of_mem ht

theorem drawn_drop (h : (Subtree.node x branches).Whole s) (field : Nat) :
    DrawnBranches s x field (branches.drop field) := by
  refine drawnBranches_iff.mpr fun i ts hi => ?_
  rw [List.getElem?_drop] at hi
  simpa using drawnBranches_iff.mp h.drawn (field + i) ts hi

end Whole

theorem Spread.member (h : (Subtree.node x branches).Spread s) {ts : List Subtree} (hts : ts ∈ branches)
    (hT : T ∈ ts) : T.Spread s :=
  ⟨h.whole.member hts hT, fun c hc => h.distinct c (mem_preorder.mpr (.inr ⟨ts, hts, T, hT, hc⟩))⟩

theorem Spread.members (h : (Subtree.node x branches).Spread s) {i : Nat} {ts : List Subtree}
    (hi : branches[i]? = some ts) : ∀ T ∈ ts, T.root ∈ s.members ⟨x, i⟩ ∧ T.Spread s := by
  intro T hT
  rw [← roots_of_whole h.whole hi]
  exact ⟨List.mem_map_of_mem hT, h.member (List.mem_of_getElem? hi) hT⟩

namespace Mirrored

theorem twin (h : T.Mirrored s t n y) : Twin s t T.root y := by
  cases h with
  | node _ _ h _ => exact h

/-- Copies that are left as they are mirror the tree in a later store. -/
theorem later (hm : m ≤ n) (hsame : ∀ z, n ≤ z.index → t.Has z → u.Has z ∧ Same t u z) (h : T.Mirrored s t n y) :
    T.Mirrored s u m y := by
  induction T using Subtree.induct generalizing y with
  | h x branches ih =>
      cases h with
      | node hn hy h hb =>
          obtain ⟨hy', hy''⟩ := hsame y hn hy
          refine .node (Nat.le_trans hm hn) hy' (h.later hy'') fun i ts hi => ?_
          rw [hy''.members]
          exact forall₂_imp_mem (hb i ts hi) fun t ht _ _ hz => ih ts (List.mem_of_getElem? hi) t ht hz

theorem mono (hm : m ≤ n) (h : T.Mirrored s t n y) : T.Mirrored s t m y :=
  h.later hm fun _ _ hz => ⟨hz, .refl t _⟩

end Mirrored

end Subtree

namespace Store

open Subtree

variable {s s₀ t u : Store} {c d : CollectionId} {e x y : EntityId} {i : Nat}

/-- Whether members of `d` are being copied into `c`, which belongs to a copy of the owner of `d`. -/
structure Filling (s t : Store) (c d : CollectionId) : Prop where
  run : Run .all s t
  same : ∀ x, s.Has x → Same s t x
  field : c.field = d.field
  source : s.Has d.owner
  has : t.Has c.owner
  fresh : ¬ s.Has c.owner
  model : t.model c.owner = s.model d.owner
  unowned : t.parent c.owner = none

namespace Filling

theorem later {w : CollectionId → Prop} (h : Filling s t c d) (hrun : Run (.filling t w) t u)
    (hw : ∀ d', w d' → d'.owner = c.owner) : Filling s u c d where
  run := h.run.trans (hrun.mono Scope.within_all)
  same x hx := by
    refine (h.same x hx).trans (hrun.same (h.run.has hx) fun i hi => ?_)
    rcases hi with hi | hi
    · exact h.fresh (hw _ hi.1 ▸ hx)
    · exact Nat.not_le.mpr (h.run.has hx) hi
  field := h.field
  source := h.source
  has := hrun.has h.has
  fresh := h.fresh
  model := (hrun.model h.has).trans h.model
  unowned := hrun.parent_none (Nat.not_le.mpr h.has) h.unowned

theorem isCollection (hs : s.Linked) (h : Filling s t c d) (hx : x ∈ s.members d) : t.IsCollection c := by
  have he := emptied_congr (i := d.field) hs.typed (h.run.linked hs).typed h.run.registries h.source h.has h.model
  rw [IsCollection, h.field, he]
  exact IsCollection.of_mem hx

theorem members_run (hs : s.Linked) (h : Filling s t c d) {ts : List Subtree}
    (hts : ∀ T ∈ ts, T.root ∈ s.members d ∧ T.Spread s) : Run (.filling t (· = c)) t (copyMembers t c ts) := by
  have hdrawn : DrawnMembers s d ts := drawnMembers_iff.mpr fun T hT => ⟨(hts T hT).1, (hts T hT).2.whole.drawn⟩
  exact copyMembers_run hs ts h.run hdrawn h.field h.source h.has h.model h.unowned

theorem branches_run (hs : s.Linked) {branches : List (List Subtree)} (hT : (Subtree.node x branches).Spread s)
    (h : Filling s t ⟨y, i⟩ ⟨x, i⟩) (field : Nat) :
    Run (.filling t fun d => d.owner = y ∧ field ≤ d.field) t (copyBranches t y field (branches.drop field)) :=
  copyBranches_run hs _ h.run (hT.whole.drawn_drop field) h.source h.has h.model h.unowned

end Filling

theorem same_link (h : x ≠ c.owner) : Same s (s.link c e) x where
  model := by rw [link, model_setSlot, model_setParent]
  slot i := slot_link_of_ne (by rintro rfl; exact h rfl)

theorem slot_copyAlone : (s.copyAlone e).1.slot ⟨s.entities.size⟩ i = copySlot (s.slot e i) := by
  rw [slot, entity_copyAlone]
  simp only [slot, List.getD_eq_getElem?_getD, List.getElem?_map]
  cases (s.entity e).slots[i]? <;> rfl

theorem copySlot_eq (h : ¬ s.IsCollection ⟨x, i⟩) : copySlot (s.slot x i) = s.slot x i := by
  cases hx : s.slot x i with
  | members es => exact absurd (by simp [IsCollection, hx, Slot.emptied]) h
  | scalar => rfl
  | binding => rfl

/-- A slot of the kind of another has its outline if both are equal, or have as many members. -/
theorem outline_eq (hkind : (t.slot y i).emptied = (s.slot x i).emptied)
    (hslot : ¬ s.IsCollection ⟨x, i⟩ → t.slot y i = s.slot x i)
    (hlength : s.IsCollection ⟨x, i⟩ → (t.members ⟨y, i⟩).length = (s.members ⟨x, i⟩).length) :
    (t.slot y i).outline = (s.slot x i).outline := by
  by_cases hc : s.IsCollection ⟨x, i⟩
  · have hlength := hlength hc
    rw [members_eq, members_eq] at hlength
    rw [IsCollection] at hc
    cases hx : s.slot x i with
    | scalar => simp [hx, Slot.emptied] at hc
    | binding => simp [hx, Slot.emptied] at hc
    | members es =>
        cases hy : t.slot y i with
        | scalar => simp [hx, hy, Slot.emptied] at hkind
        | binding => simp [hx, hy, Slot.emptied] at hkind
        | members es' =>
            rw [hx, hy] at hlength
            exact Slot.outline_members hlength
  · rw [hslot hc]

theorem filling_copyAlone (hs : s.Linked) (h₀ : Run .all s t) (hsame : ∀ z, s.Has z → Same s t z) (hx : s.Has x)
    (i : Nat) : Filling s (t.copyAlone x).1 ⟨⟨t.entities.size⟩, i⟩ ⟨x, i⟩ := by
  have hrun : Run (.copying t.entities.size) t (t.copyAlone x).1 := copyAlone_run (h₀.linked hs) (h₀.has hx)
  have hn : ¬ t.Has ⟨t.entities.size⟩ := Nat.lt_irrefl _
  exact {
    run := h₀.trans (hrun.mono Scope.within_all)
    same := fun z hz => (hsame z hz).trans (hrun.same_copying (h₀.has hz))
    field := rfl
    source := hx
    has := by simp [copyAlone_eq, Has]
    fresh := fun h => hn (h₀.has h)
    model := by
      rw [Store.model, entity_copyAlone]
      exact h₀.model hx
    unowned := hrun.parent_none (Scope.not_moves_since (Nat.le_refl _) id) (parent_of_not_has hn) }

/-- A bare copy becomes a twin when its collections are filled with as many members. -/
theorem twin_of_filled {w : CollectionId → Prop} (hs : s.Linked) (hf : ∀ i, Filling s t ⟨y, i⟩ ⟨x, i⟩)
    (hslot : ∀ i, t.slot y i = copySlot (s.slot x i)) (hrun : Run (.filling t w) t u)
    (hlength : ∀ i, s.IsCollection ⟨x, i⟩ → (u.members ⟨y, i⟩).length = (s.members ⟨x, i⟩).length) : Twin s u x y := by
  have hhas := (hf 0).has
  have hkind : ∀ i, (t.slot y i).emptied = (s.slot x i).emptied := fun i => by rw [hslot, emptied_copySlot]
  refine ⟨(hrun.model hhas).trans (hf 0).model, fun i => outline_eq ?_ (fun hc => ?_) (hlength i)⟩
  · exact (hrun.emptied ((hf 0).run.linked hs) hhas).trans (hkind i)
  · rw [← copySlot_eq hc, ← hslot]
    refine hrun.slot hhas fun hw => ?_
    rcases hw with ⟨_, hw⟩ | hw
    · exact hc ((hkind i).symm.trans hw)
    · exact Nat.not_le.mpr hhas hw

/-- Copies stay as they are while collections of an older entity are filled. -/
theorem mirrored_filled {w : CollectionId → Prop} {T : Subtree} (hrun : Run (.filling t w) t u)
    (hw : ∀ d, w d → d.owner = x) (h : T.Mirrored s t (x.index + 1) y) : T.Mirrored s u (x.index + 1) y := by
  refine h.later (Nat.le_refl _) fun z hz hh => ⟨hrun.has hh, hrun.same hh fun i hi => ?_⟩
  rcases hi with ⟨hi, _⟩ | hi
  · have hzx : z = x := hw _ hi
    exact Nat.not_succ_le_self _ (hzx ▸ hz)
  · exact Nat.not_le.mpr hh hi

/-- No copy of an entity is equal to one that is not equal to what was copied. -/
theorem find?_copy {l : List Subtree} {n : Nat} (hr : t.registries = s.registries)
    (hl : List.Forall₂ (Mirrored s t n) l (t.members c)) (htwin : Twin s t x y) (hy : y ∉ t.members c)
    (hd : ∀ D ∈ l, s.sameIdentity D.root x = false) : (t.members c).find? (t.sameIdentity · y) = none := by
  refine List.find?_eq_none.mpr fun z hz => ?_
  obtain ⟨D, hD, hDz⟩ := exists_of_forall₂ hl hz
  have hne : z ≠ y := fun he => hy (he ▸ hz)
  simp [hDz.twin.resembles.sameIdentity_eq_false hr htwin.resembles hne (hd D hD)]

mutual

theorem copyTree_mirrored (hs : s.Linked) : (T : Subtree) → {t : Store} → Run .all s t →
    (∀ x, s.Has x → Same s t x) → T.Spread s → s.Has T.root →
    T.Mirrored s (t.copyTree T).1 t.entities.size (t.copyTree T).2
  | .node x branches, t, h₀, hsame, hT, hx => by
      have hf := filling_copyAlone hs h₀ hsame hx
      -- a bare copy keeps what is no collection; its collections are empty until the branches fill them
      have hslot : ∀ i, (t.copyAlone x).1.slot ⟨t.entities.size⟩ i = copySlot (s.slot x i) := fun i => by
        rw [slot_copyAlone, (hsame x hx).slot]
      have hempty : ∀ i, (t.copyAlone x).1.members ⟨⟨t.entities.size⟩, i⟩ = [] := fun i => by
        rw [members_eq, hslot, slotMembers_copySlot]
      have hbranches := (hf 0).branches_run hs hT 0
      have hmembers := copyBranches_mirrored hs branches hT List.drop_zero hf fun i _ => hempty i
      simp only [Nat.zero_add] at hmembers
      refine .node (Nat.le_refl _) (hbranches.has (hf 0).has) ?_ fun i ts hi =>
        (hmembers i ts hi).imp fun _ _ h => h.mono (Nat.le_succ _)
      refine twin_of_filled hs hf hslot hbranches fun i hc => ?_
      have hlt : i < branches.length := hT.whole.length_slots ▸ lt_of_slot_ne hc.slot_ne
      have hi : branches[i]? = some branches[i] := List.getElem?_eq_getElem hlt
      rw [← roots_of_whole hT.whole hi, List.length_map]
      exact (hmembers i _ hi).length_eq.symm

theorem copyBranches_mirrored (hs : s.Linked) : (bs : List (List Subtree)) → {t : Store} → {x y : EntityId} →
    {field : Nat} → {branches : List (List Subtree)} → (Subtree.node x branches).Spread s → branches.drop field = bs →
    (∀ i, Filling s t ⟨y, i⟩ ⟨x, i⟩) → (∀ i, field ≤ i → t.members ⟨y, i⟩ = []) → ∀ i ts, bs[i]? = some ts →
    List.Forall₂ (Mirrored s (copyBranches t y field bs) (y.index + 1)) ts
      ((copyBranches t y field bs).members ⟨y, field + i⟩)
  | [], _, _, _, _, _, _, _, _, _ => by simp
  | ts :: bs, t, x, y, field, branches, hT, hdrop, hf, hempty => by
      obtain ⟨hfield, hdrop'⟩ := of_drop_eq_cons hdrop
      have hts := hT.members hfield
      have hrun := (hf field).members_run hs hts
      have hf' : ∀ i, Filling s (copyMembers t ⟨y, field⟩ ts) ⟨y, i⟩ ⟨x, i⟩ := fun i =>
        (hf i).later hrun (by rintro _ rfl; rfl)
      have hempty' : ∀ i, field + 1 ≤ i → (copyMembers t ⟨y, field⟩ ts).members ⟨y, i⟩ = [] := fun i hi => by
        rw [hrun.members ((hf i).run.linked hs), hempty i (Nat.le_of_succ_le hi)]
        rintro (⟨hw, _⟩ | hw)
        · cases hw
          exact Nat.not_succ_le_self _ hi
        · exact Nat.not_le.mpr (hf i).has hw
      -- filling the later fields leaves this one alone, as a run within its scope shows
      have hrest := (hf' 0).branches_run hs hT (field + 1)
      rw [hdrop'] at hrest
      intro i us hi
      cases i with
      | zero =>
          cases hi
          have hmirror := copyMembers_mirrored hs ts (l := []) (hf field) hts
            (by rw [List.nil_append, roots_of_whole hT.whole hfield]
                exact hT.distinct ⟨x, field⟩ (Subtree.mem_preorder.mpr (.inl rfl)))
            (by rw [hempty field (Nat.le_refl _)]; exact .nil)
          rw [copyBranches, Nat.add_zero, hrest.members ((hf' 0).run.linked hs)]
          · exact hmirror.imp fun _ _ h => mirrored_filled hrest (fun d hd => hd.1) h
          · rintro (⟨⟨_, hw⟩, _⟩ | hw)
            · exact Nat.not_succ_le_self _ hw
            · exact Nat.not_le.mpr (hf' 0).has hw
      | succ i =>
          have ih := copyBranches_mirrored hs bs hT hdrop' hf' hempty' i us (by simpa using hi)
          rwa [Nat.succ_add_eq_add_succ] at ih

/-- The copies of the members that were copied so far and of further ones mirror them. -/
theorem copyMembers_mirrored (hs : s.Linked) : (ts : List Subtree) → {t : Store} → {c d : CollectionId} →
    {l : List Subtree} → Filling s t c d → (∀ T ∈ ts, T.root ∈ s.members d ∧ T.Spread s) →
    ((l ++ ts).map Subtree.root).Pairwise (fun a b => s.sameIdentity a b = false) →
    List.Forall₂ (Mirrored s t (c.owner.index + 1)) l (t.members c) →
    List.Forall₂ (Mirrored s (copyMembers t c ts) (c.owner.index + 1)) (l ++ ts) ((copyMembers t c ts).members c)
  | [], t, c, _, _, _, _, _, hl => by simpa [copyMembers] using hl
  | T :: ts, t, c, d, l, hf, hts, hd, hl => by
      have ht : t.Linked := hf.run.linked hs
      obtain ⟨hmem, hT⟩ := hts T (by simp)
      have hroot : s.Has T.root := (hs.typed.admits_of_mem hmem).1
      have hmirror := copyTree_mirrored hs T hf.run hf.same hT hroot
      obtain ⟨htree, hcopy, _, _⟩ := copyTree_run hs T hf.run hT.whole.drawn hroot
      have hkept : (t.copyTree T).1.members c = t.members c := htree.members ht (Nat.not_le.mpr hf.has)
      have hl' : List.Forall₂ (Mirrored s (t.copyTree T).1 (c.owner.index + 1)) l ((t.copyTree T).1.members c) := by
        rw [hkept]
        exact hl.imp fun _ _ h => h.later (Nat.le_refl _) fun _ _ hz => ⟨htree.has hz, htree.same_copying hz⟩
      -- the copy is equal to none of the members before it, so it is linked
      have hnew : (t.copyTree T).2 ∉ (t.copyTree T).1.members c := by
        rw [hkept, hcopy]
        exact fun hm => Nat.lt_irrefl _ (has_of_parent (ht.mem_iff.mp hm))
      have hunequal : ∀ D ∈ l, s.sameIdentity D.root T.root = false := fun D hD => by
        rw [List.map_append, List.map_cons] at hd
        exact (List.pairwise_append.mp hd).2.2 D.root (List.mem_map_of_mem hD) T.root (by simp)
      have hfind := find?_copy (htree.registries.trans hf.run.registries) hl' hmirror.twin hnew hunequal
      have hplace : ((t.copyTree T).1.place c (t.copyTree T).2).1 = (t.copyTree T).1.link c (t.copyTree T).2 := by
        simp only [place, hfind]
      have hlink : Run (.filling t (· = c)) t ((t.copyTree T).1.link c (t.copyTree T).2) := by
        have hone : ∀ U ∈ [T], U.root ∈ s.members d ∧ U.Spread s := fun U hU => List.mem_singleton.mp hU ▸ ⟨hmem, hT⟩
        rw [← hplace]
        exact hf.members_run hs hone
      have hsame : ∀ z, c.owner.index + 1 ≤ z.index → (t.copyTree T).1.Has z →
          ((t.copyTree T).1.link c (t.copyTree T).2).Has z ∧
            Same (t.copyTree T).1 ((t.copyTree T).1.link c (t.copyTree T).2) z := fun z hz hh =>
        ⟨by simpa [Has] using hh, same_link (by rintro rfl; exact Nat.not_succ_le_self _ hz)⟩
      have hnext : List.Forall₂ (Mirrored s ((t.copyTree T).1.link c (t.copyTree T).2) (c.owner.index + 1)) (l ++ [T])
          (((t.copyTree T).1.link c (t.copyTree T).2).members c) := by
        rw [members_link (htree.isCollection ht (hf.isCollection hs hmem)), if_pos rfl]
        refine List.rel_append (hl'.imp fun _ _ h => h.later (Nat.le_refl _) hsame) (.cons ?_ .nil)
        exact hmirror.later hf.has fun z hz => hsame z (Nat.le_trans hf.has hz)
      have ih := copyMembers_mirrored hs ts (hf.later hlink (by rintro _ rfl; rfl)) (fun T' h => hts T' (by simp [h]))
        (by simpa using hd) hnext
      rw [List.append_assoc, List.singleton_append] at ih
      simpa only [copyMembers, hplace] using ih

end

/-- The copy of an entity mirrors what the entity owns, if no collection there has two equal members. -/
theorem duplicate_mirrored (hs : s.Linked) (he : s.Has e) (hn : ¬ After s.owner e e)
    (hd : ∀ c : CollectionId, c.owner ∈ (s.subtree e).preorder → s.Distinct c) :
    (s.subtree e).Mirrored s (s.duplicate e).1 s.entities.size (s.duplicate e).2 := by
  refine copyTree_mirrored hs (s.subtree e) .refl (fun x _ => .refl s x) ⟨subtree_whole_of_not_after hs hn, hd⟩ ?_
  rwa [root_subtree]

end Store

end MonitorExport
