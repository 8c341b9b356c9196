import MonitorExport.Proofs.Store.Atomicity
import MonitorExport.Proofs.Store.Blueprints

/-!
# Extending as adding

Extending a collection makes all new members before it attaches the first one, and adding inputs one after another makes
each of them right before it is attached. Both make the same, in another order: they end in the same store but for the
names of new entities.
-/

namespace MonitorExport.Store

open Edit

variable {limit : Input → List Registry → Nat} {w s t u : Store} {f : EntityId → EntityId} {c : CollectionId}
  {input : Input} {inputs : List Input}
  {ps : List Blueprint}

/-! ## One input after another -/

/-- Adds inputs to a collection one after another, each of them built up to its own limit. -/
def addEach (limit : Input → List Registry → Nat) (c : CollectionId) (inputs : List Input) : Edit (List EntityId) :=
  inputs.mapM fun input => addTo (limit input) c input

/-- Whether a store comes from one by steps that leave a collection open for inputs. -/
structure Continues (s : Store) (c : CollectionId) (t : Store) : Prop where
  later : s.Extends t
  linked : t.Linked
  namesGiven : t.NamesGiven
  isCollection : t.IsCollection c

theorem Continues.add (limit : Input → List Registry → Nat) (h : Continues s c t) (hi : ∀ x, input.Names x → s.Has x) :
    Ends (addTo (limit input) c input) (fun m u => Continues s c u ∧ u.Has m) (Continues s c) t := by
  have hσ := (Operation.add c input).scope_hosts (s := t) fun x hx => h.later.has (hi x hx)
  have hcontinues : ∀ {u}, Run ((Operation.add c input).scope t) t u → Continues s c u := fun hrun =>
    ⟨h.later.trans hrun.later, hrun.linked h.linked, h.namesGiven.run hrun, hrun.isCollection h.linked h.isCollection⟩
  refine (addTo_ends h.linked h.namesGiven hσ (fun _ => id) (Operation.scope_takes rfl h.isCollection)).mono
    (fun m u hu => ⟨hcontinues hu.1, ?_⟩) fun u hu => hcontinues (hu.run.mono hσ.within)
  exact ((hu.1.linked h.linked).typed.admits_of_mem hu.2).1

theorem addEach_cons (limit : Input → List Registry → Nat) (c : CollectionId) (i : Input) (inputs : List Input) :
    addEach limit c (i :: inputs) = (do
      let m ← addTo (limit i) c i
      let ms ← addEach limit c inputs
      return m :: ms) := List.mapM_cons

/-- No input that can be added is refused. -/
theorem addEach_ends (h : Continues s c t) (hi : ∀ i ∈ inputs, ∀ x, i.Names x → s.Has x) :
    Ends (addEach limit c inputs) (fun _ _ => ∀ i ∈ inputs, ∀ err, ¬ Refuses limit s c i err) (fun _ => True) t := by
  induction inputs generalizing t with
  | nil => exact ends_pure (by simp)
  | cons i inputs ih =>
      rw [addEach_cons]
      have hadd := (h.add limit (hi i (List.mem_cons_self ..))).mono (fun _ _ h => h) (fun _ _ => trivial)
      refine ends_bind hadd fun m t' ht hm => ?_
      refine ends_bind (ih hm.1 fun j hj => hi j (List.mem_cons_of_mem _ hj)) fun ms u _ hrest => ends_pure ?_
      refine List.forall_mem_cons.mpr ⟨fun err hr => ?_, hrest⟩
      obtain ⟨err', t'', hfail⟩ := addTo_of_refuses hr h.later
      rw [ht] at hfail
      cases hfail

/-! ## Both in step -/

theorem size_le_place (s : Store) (c : CollectionId) (e : EntityId) : s.entities.size ≤ (s.place c e).1.entities.size := by
  unfold place
  split
  · exact Nat.le_refl _
  · exact Nat.le_of_eq size_link.symm

mutual

theorem size_le_copyTree : (T : Subtree) → (s : Store) → s.entities.size ≤ (s.copyTree T).1.entities.size
  | .node e bs, s => by
      have halone : s.entities.size ≤ (s.copyAlone e).1.entities.size := by simp [copyAlone_eq]
      exact Nat.le_trans halone (size_le_copyBranches bs _ _ 0)
termination_by structural T => T

theorem size_le_copyBranches : (bs : List (List Subtree)) → (s : Store) → (copy : EntityId) → (field : Nat) →
    s.entities.size ≤ (s.copyBranches copy field bs).entities.size
  | [], _, _, _ => Nat.le_refl _
  | ts :: bs, s, copy, field =>
      Nat.le_trans (size_le_copyMembers ts s ⟨copy, field⟩) (size_le_copyBranches bs _ copy (field + 1))
termination_by structural bs => bs

theorem size_le_copyMembers : (ts : List Subtree) → (s : Store) → (c : CollectionId) →
    s.entities.size ≤ (s.copyMembers c ts).entities.size
  | [], _, _ => Nat.le_refl _
  | T :: ts, s, c => by
      have hplace := Nat.le_trans (size_le_copyTree T s) (size_le_place (s.copyTree T).1 c (s.copyTree T).2)
      exact Nat.le_trans hplace (size_le_copyMembers ts _ c)
termination_by structural ts => ts

end

/-- Inserting a candidate makes nothing but copies. -/
theorem size_le_insert (s : Store) (c : CollectionId) (x : Candidate) :
    s.entities.size ≤ (s.insert c x).1.entities.size := by
  unfold insert
  split
  · unfold placeNew
    split
    · exact (release_run (σ := .all) fun _ _ => trivial).size_le
    · exact Nat.le_of_eq size_link.symm
  · unfold insertGiven
    split
    · exact size_le_place s c x.entity
    · split
      · exact size_le_place s c x.entity
      · exact Nat.le_trans (size_le_copyTree _ s) (size_le_place _ c _)

/-- Nothing is lent to an entity that owns later ones alone. -/
theorem release_eq_self {e : EntityId} (h : ∀ x ∈ (s.subtree e).preorder, e.index ≤ x.index) : s.release e = s := by
  have hnone : (s.subtree e).preorder.filter (s.isLent e.index) = [] :=
    List.filter_eq_nil_iff.mpr fun x hx hlent => Nat.not_lt.mpr (h x hx) (isLent_iff.mp hlent).1
  rw [release, hnone]
  rfl

theorem Embeds.release_later {e : EntityId} (h : Embeds w f s t)
    (hle : ∀ x ∈ (s.subtree e).preorder, e.index ≤ x.index ∧ (f e).index ≤ (f x).index) :
    Embeds w f (s.release e) (t.release (f e)) := by
  rw [release_eq_self fun x hx => (hle x hx).1, release_eq_self fun y hy => ?_]
  · exact h
  · rw [(h.subtree e).preorder_eq_map] at hy
    obtain ⟨x, hx, rfl⟩ := List.mem_map.mp hy
    exact (hle x hx).2

/-- How far adding has come in the store `u` when extending has come as far in `t`. All candidates are made in `t`, those of
the blueprints `ps` behind the entities of `w`; these are still to be added, and all else of `t` has its name from `u`. -/
structure InStep (s : Store) (f : EntityId → EntityId) (ps : List Blueprint) (w u t : Store) : Prop where
  embeds : Embeds (laidAll w ps) f u t
  skips : Skips f w.entities.size (laidAll w ps).entities.size
  size_le : (laidAll w ps).entities.size ≤ t.entities.size
  fixed : ∀ x, s.Has x → f x = x

/-- What was made for the next input is taken over. -/
theorem InStep.laid {p : Blueprint} (h : InStep s f (p :: ps) w u t) (hu : s.Extends u) (hl : u.Linked) (hp : p.Sound s) :
    ∃ g, InStep s g ps (p.laid w) (p.laid u) t ∧ (∀ x, u.Has x → g x = f x) ∧
      (p.candidate u).rename g = p.candidate w ∧
      ((p.candidate u).isNew = true → Embeds (laidAll (p.laid w) ps) g ((p.laid u).release (p.candidate u).entity)
        (t.release (g (p.candidate u).entity))) := by
  cases p with
  | given e =>
      exact ⟨f, ⟨h.embeds, h.skips, h.size_le, h.fixed⟩, fun _ _ => rfl, congrArg (Candidate.mk · false) (h.fixed e hp),
        by simp [Blueprint.candidate]⟩
  | made b =>
      obtain ⟨hr, hlinked, hroot⟩ := hp
      have hb : w.entities.size + b.entities.size ≤ (laidAll (w.append b) ps).entities.size :=
        size_append (s := w) ▸ size_le_laidAll (w.append b) ps
      have hrow : ∀ y, b.Has y → (laidAll (w.append b) ps).entity (y.shift w.entities.size) =
          (b.entity y).rename (.shift w.entities.size) := fun y hy => by
        rw [← entity_append_shift]
        refine entity_laidAll ps ?_
        rw [Has, size_append]
        exact Nat.add_lt_add_left hy _
      have hjoin := h.embeds.join h.skips h.size_le hb hl hlinked hrow
      refine ⟨joined f u.entities.size b.entities.size w.entities.size t.entities.size, ⟨hjoin, ?_, h.size_le, fun x hx => ?_⟩,
        fun x hx => joined_first hx, ?_, fun _ => ?_⟩
      · rw [Blueprint.laid, size_append]
        exact h.embeds.joined_skips h.skips h.size_le
      · rw [joined_first (hu.has hx)]
        exact h.fixed x hx
      · exact congrArg (Candidate.mk · true) (joined_second (y := ⟨0⟩) hroot)
      · -- all that the new entity owns was made after it, in both stores
        refine hjoin.release_later fun x hx => ?_
        obtain ⟨y, _, rfl⟩ := List.mem_map.mp (preorder_append (hr.trans hu.registries.symm) ⟨0⟩ ▸ hx)
        have hfirst : joined f u.entities.size b.entities.size w.entities.size t.entities.size ⟨u.entities.size⟩ =
            ⟨w.entities.size⟩ := joined_second (y := ⟨0⟩) hroot
        refine ⟨Nat.le_add_right .., ?_⟩
        rw [Blueprint.candidate, hfirst]
        exact le_joined (Nat.le_trans (size_le_laidAll w (.made b :: ps)) h.size_le) y

/-- Inserting the candidates that were made before ends as adding one input after another does. -/
theorem InStep.addEach (hc : s.Has c.owner) (hplans : List.Forall₂ (Plans limit s c) inputs ps)
    (hi : ∀ i ∈ inputs, ∀ x, i.Names x → s.Has x) (hu : Continues s c u) (h : InStep s f ps w u t) :
    ∃ g ms u', addEach limit c inputs u = (.ok ms, u') ∧ InStep s g [] (laidAll w ps) u' (t.insertAll c (candidates w ps)).1 ∧
      (t.insertAll c (candidates w ps)).2 = ms.map g ∧ ∀ x, u.Has x → g x = f x := by
  -- the names of later inputs agree with those so far, so they are the same for the members that were returned
  induction hplans generalizing w u t f with
  | nil => exact ⟨f, [], u, rfl, h, rfl, fun _ _ => rfl⟩
  | @cons i p inputs ps hp _ ih =>
      obtain ⟨g, hg, hsame, hcandidate, hrelease⟩ := h.laid hu.later hu.linked hp.sound
      have hadd := addTo_of_plans hp hu.later
      obtain ⟨hnext, hhas⟩ := (hu.add limit (hi i (List.mem_cons_self ..))).ok hadd
      have hcollection : c.rename g = c := congrArg (CollectionId.mk · c.field) (hg.fixed c.owner hc)
      obtain ⟨hinsert, hmember⟩ := hg.embeds.insert c (p.candidate u) hrelease
      rw [hcandidate, hcollection] at hinsert hmember
      have hsize := Nat.le_trans hg.size_le (size_le_insert t c (p.candidate w))
      obtain ⟨g', ms, u', hrest, hend, hmembers, hsame'⟩ := ih (fun j hj => hi j (List.mem_cons_of_mem _ hj)) hnext
        ⟨hinsert, hg.skips, hsize, hg.fixed⟩
      refine ⟨g', ((p.laid u).insert c (p.candidate u)).2 :: ms, u', ?_, hend, ?_, fun x hx => ?_⟩
      · rw [addEach_cons, bind_ok hadd, bind_ok hrest]
        rfl
      · rw [List.map_cons, hsame' _ hhas, ← hmember, ← hmembers]
        rfl
      · have hkept : ((p.laid u).insert c (p.candidate u)).1.Has x :=
          Nat.lt_of_lt_of_le hx (Nat.le_trans (size_le_laid u p) (size_le_insert _ c _))
        rw [hsame' x hkept, hsame x hx]

/-- Adding starts where extending has made all candidates and attached none. -/
theorem InStep.start (hs : s.Linked) (ps : List Blueprint) : ∃ f, InStep s f ps s s (laidAll s ps) := by
  have hsize := size_le_laidAll s ps
  have hskips : Skips (EntityId.shift (laidAll s ps).entities.size) 0 (laidAll s ps).entities.size := fun y => by
    refine ⟨fun hx => ?_, fun hy => ?_⟩
    · obtain ⟨x, rfl⟩ := hx
      exact .inr (Nat.le_add_right ..)
    · obtain ⟨k, hk⟩ := Nat.exists_eq_add_of_le (hy.resolve_left (Nat.not_lt_zero _))
      exact ⟨⟨k⟩, index_injective hk.symm⟩
  have hempty := Embeds.empty (laidAll s ps)
  rw [registries_laidAll] at hempty
  have hbound : 0 + s.entities.size ≤ (laidAll s ps).entities.size := by rwa [Nat.zero_add]
  have hjoin := hempty.join hskips (Nat.le_refl _) hbound (.ofRegistries _) hs fun y hy => by
    rw [EntityId.shift_zero, Entity.rename_id]
    exact entity_laidAll ps hy
  have hskips' := hempty.joined_skips (b := s) hskips (Nat.le_refl _)
  rw [empty_append] at hjoin
  rw [Nat.zero_add] at hskips'
  refine ⟨_, hjoin, hskips', Nat.le_refl _, fun x hx => ?_⟩
  have hname := joined_second (f := EntityId.shift (laidAll s ps).entities.size) (m := 0) (n := 0)
    (l := (laidAll s ps).entities.size) (show x.index < s.entities.size from hx)
  rwa [EntityId.shift_zero] at hname

/-! ## Extending -/

/-- Whether a store is another one with other names for the entities that are new since an earlier store. -/
structure Renamed (s : Store) (f : EntityId → EntityId) (t t' : Store) : Prop where
  old : ∀ x, s.Has x → f x = x
  bijective : Function.Bijective f
  registries : t'.registries = t.registries
  has : ∀ x, t'.Has (f x) ↔ t.Has x
  entity : ∀ x, t'.entity (f x) = (t.entity x).rename f

theorem InStep.renamed (h : InStep s f [] w u t) : Renamed s f u t :=
  ⟨h.fixed, ⟨h.embeds.injective, h.skips.surjective⟩, h.embeds.registries, fun _ => h.embeds.has_iff, h.embeds.entity⟩

/-- If all inputs become candidates, then extending and adding both succeed, and end alike. -/
theorem extend_renamed (hu : Continues s c s) (hi : ∀ i ∈ inputs, ∀ x, i.Names x → s.Has x)
    (hplans : List.Forall₂ (Plans limit s c) inputs ps) :
    ∃ f ms t t', addEach limit c inputs s = (.ok ms, t) ∧ extendTo limit c inputs s = (.ok (ms.map f), t') ∧
      Renamed s f t t' := by
  obtain ⟨f, hstart⟩ := InStep.start hu.linked ps
  obtain ⟨g, ms, t, hadd, hend, hmembers, _⟩ := hstart.addEach hu.isCollection.has hplans hi hu
  refine ⟨g, ms, t, _, hadd, ?_, hend.renamed⟩
  rw [extendTo_of_plans hplans, hmembers]

/-- If an input becomes no candidate, then extending fails as the first such input does, and adding does not succeed. -/
theorem extend_refused (hu : Continues s c s) (hi : ∀ i ∈ inputs, ∀ x, i.Names x → s.Has x) {before after : List Input}
    {err : ConfigError} (hinputs : inputs = before ++ input :: after) (hplans : List.Forall₂ (Plans limit s c) before ps)
    (hr : Refuses limit s c input err) :
    (∃ t, extendTo limit c inputs s = (.error err, t)) ∧ (¬ ∃ ms t, addEach limit c inputs s = (.ok ms, t)) ∧
      (∀ i ∈ before, ∃ x t, coerceMember (buildTo (limit i)) c i s = (.ok x, t)) ∧
      ∃ t, coerceMember (buildTo (limit input)) c input s = (.error err, t) := by
  have hbefore : ∀ i ∈ before, ∃ p, Plans limit s c i p :=
    ((List.forall₂_and_left before ps).mp (hplans.imp fun i p hp => ⟨⟨p, hp⟩, hp⟩)).1
  refine ⟨hinputs ▸ extendTo_of_refuses after hplans hr, fun hok => ?_, fun i hmem => ?_,
    hr.same s (.refl s) fun _ _ => rfl⟩
  · obtain ⟨ms, t, hadd⟩ := hok
    exact (addEach_ends hu hi).ok hadd input (by simp [hinputs]) err hr
  · obtain ⟨p, hp⟩ := hbefore i hmem
    exact ⟨_, _, hp.coerce s (.refl s)⟩

/-- Extending a collection by inputs none of which is a mapping that names an entity succeeds if and only if they can be
added one after another. Then it gives the same members and leaves the same store, but for the names of new entities.
Otherwise it fails as the first input does that becomes no candidate, and no collection has lost or got a member. The
preparations of the models ask about no entities but those that are given, as those of the standard models do. How deep
members are built that nest does not matter, as long as both build the same input up to the same limit. -/
theorem reachable_extend (limit : Input → List Registry → Nat) (h : Reachable s) (ha : s.AsksGiven)
    (hv : (Operation.extend c inputs).Valid s) (hm : ∀ fields, .mapping fields ∈ inputs → (Input.mapping fields).Nameless) :
    ((∃ ms t, extendTo limit c inputs s = (.ok ms, t)) ↔ ∃ ms t, addEach limit c inputs s = (.ok ms, t)) ∧
      (∀ ms t ms' t', addEach limit c inputs s = (.ok ms, t) → extendTo limit c inputs s = (.ok ms', t') →
        ∃ f, Renamed s f t t' ∧ ms' = ms.map f) ∧
      ∀ err t, extendTo limit c inputs s = (.error err, t) →
        (∃ before input after, inputs = before ++ input :: after ∧
          (∀ i ∈ before, ∃ x u, coerceMember (buildTo (limit i)) c i s = (.ok x, u)) ∧
          ∃ u, coerceMember (buildTo (limit input)) c input s = (.error err, u)) ∧
        ∀ d : CollectionId, s.Has d.owner → t.members d = s.members d := by
  have hi : ∀ i ∈ inputs, ∀ x, i.Names x → s.Has x := fun i hmem x hx => hv.names x ⟨i, hmem, hx⟩
  have hu : Continues s c s := ⟨.refl s, h.linked, h.namesGiven, hv.handle⟩
  have hcases : ∀ i ∈ inputs, (∃ p, Plans limit s c i p) ∨ ∃ err, Refuses limit s c i err := fun i hmem =>
    plans_or_refuses ha h.namesGiven hu.isCollection.has (hi i hmem) fun fields hfields =>
      hfields ▸ hm fields (hfields ▸ hmem)
  have hends : Ends (extendTo limit c inputs) _ _ s := extendTo_ends h.linked h.namesGiven
    (Operation.scope_hosts hv.names) (fun i hmem x hx => ⟨i, hmem, hx⟩) (Operation.scope_takes rfl hv.handle)
  have hkept : ∀ err t, extendTo limit c inputs s = (.error err, t) → ∀ d : CollectionId, s.Has d.owner →
      t.members d = s.members d := fun err t herr d hd => by
    rw [members_eq, members_eq, slot, slot, (hends.error herr).entity d.owner hd]
  rcases plans_or_first_refuses hcases with ⟨ps, hplans⟩ | ⟨before, input, after, ps, err, hinputs, hplans, hr⟩
  · obtain ⟨f, ms, t, t', hadd, hextend, hrenamed⟩ := extend_renamed hu hi hplans
    refine ⟨⟨fun _ => ⟨ms, t, hadd⟩, fun _ => ⟨_, t', hextend⟩⟩, fun ms₁ t₁ ms₂ t₂ h₁ h₂ => ?_, fun err u herr => ?_⟩
    · rw [hadd] at h₁
      rw [hextend] at h₂
      cases h₁
      cases h₂
      exact ⟨f, hrenamed, rfl⟩
    · rw [hextend] at herr
      cases herr
  · obtain ⟨⟨t, hextend⟩, hnever, hbefore, hfirst⟩ := extend_refused hu hi hinputs hplans hr
    refine ⟨⟨fun hok => ?_, fun hok => absurd hok hnever⟩, fun ms u _ _ hadd _ => absurd ⟨ms, u, hadd⟩ hnever,
      fun err' t' herr => ⟨⟨before, input, after, hinputs, hbefore, ?_⟩, hkept err' t' herr⟩⟩
    · obtain ⟨ms, u, hok⟩ := hok
      rw [hextend] at hok
      cases hok
    · rw [hextend] at herr
      cases herr
      exact hfirst

/-! ## Cups for a tray -/

def redCup : Input := .mapping ⟨[("label", .text "red")]⟩

/-- A red cup, the blue cup of another tray, a second red cup, and the red cup of the other tray. -/
def moreCups : List Input := [redCup, .entity ⟨3⟩, redCup, .entity ⟨2⟩]

theorem redCup_nameless : redCup.Nameless := fun e he => by
  simp [redCup, names_mapping_iff, Input.text, not_names_value] at he

theorem moreCups_valid : (Operation.extend ⟨⟨4⟩, 3⟩ moreCups).Valid twoTrays := by
  refine ⟨(by decide : twoTrays.IsCollection ⟨⟨4⟩, 3⟩), fun x hx => ?_⟩
  have hcup : ∀ e, ¬ redCup.Names e := redCup_nameless
  have hx : x = ⟨3⟩ ∨ x = ⟨2⟩ := by
    simpa [Operation.Names, moreCups, hcup, names_entity_iff] using hx
  rcases hx with rfl | rfl <;> decide

theorem twoTrays_asksGiven : twoTrays.AsksGiven := by
  have hregistries : twoTrays.registries = [trayRegistry] := rfl
  rw [AsksGiven, hregistries]
  exact List.forall_mem_singleton.mpr (Registry.asksGiven_of_unprepared trayRegistry_eq
    (by simp [trayDecls, ModelDecl.number, ModelDecl.numberFrom]))

/-- The copy of the blue cup is made after both red ones or between them, and the tray gets the same cups. -/
theorem twoTrays_extend : Reachable twoTrays ∧ twoTrays.AsksGiven ∧ (Operation.extend ⟨⟨4⟩, 3⟩ moreCups).Valid twoTrays ∧
    (∀ fields, .mapping fields ∈ moreCups → (Input.mapping fields).Nameless) ∧
    (moreCups.mapM (add ⟨⟨4⟩, 3⟩) twoTrays).1.toOption = some [⟨5⟩, ⟨6⟩, ⟨5⟩, ⟨5⟩] ∧
    (extend ⟨⟨4⟩, 3⟩ moreCups twoTrays).1.toOption = some [⟨5⟩, ⟨7⟩, ⟨5⟩, ⟨5⟩] ∧
    ∃ f, Renamed twoTrays f (moreCups.mapM (add ⟨⟨4⟩, 3⟩) twoTrays).2 (extend ⟨⟨4⟩, 3⟩ moreCups twoTrays).2 := by
  have hreachable : Reachable twoTrays := twoTrays_reachable.mono fun _ _ _ => trivial
  have hnameless : ∀ fields, .mapping fields ∈ moreCups → (Input.mapping fields).Nameless := fun fields hmem => by
    have hfields : Input.mapping fields = redCup := by simpa [moreCups] using hmem
    exact hfields ▸ redCup_nameless
  have hadd : (moreCups.mapM (add ⟨⟨4⟩, 3⟩) twoTrays).1.toOption = some [⟨5⟩, ⟨6⟩, ⟨5⟩, ⟨5⟩] := by decide
  have hextend : (extend ⟨⟨4⟩, 3⟩ moreCups twoTrays).1.toOption = some [⟨5⟩, ⟨7⟩, ⟨5⟩, ⟨5⟩] := by decide
  refine ⟨hreachable, twoTrays_asksGiven, moreCups_valid, hnameless, hadd, hextend, ?_⟩
  rcases ha : moreCups.mapM (add ⟨⟨4⟩, 3⟩) twoTrays with ⟨err | ms, t⟩
  · rw [ha] at hadd
    cases hadd
  · rcases he : extend ⟨⟨4⟩, 3⟩ moreCups twoTrays with ⟨err | ms', t'⟩
    · rw [he] at hextend
      cases hextend
    · obtain ⟨f, hf, _⟩ := (reachable_extend (fun input => nestingLimit [input]) hreachable twoTrays_asksGiven
        moreCups_valid hnameless).2.1 ms t ms' t' ha he
      exact ⟨f, hf⟩

end MonitorExport.Store
