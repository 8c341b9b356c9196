import Mathlib.Order.Bounds.Defs
import MonitorExport.Proofs.Catalogue.References
import MonitorExport.Proofs.Store.Values

/-!
# Screens

The items of a screen are laid out row by row, and its rows are counted apart from that. Both agree: the rows that are
counted are those that the items fill.
-/

namespace MonitorExport

namespace Store

/-! ## Cells -/

/-- The column and the row of the `k`-th member of a grid. -/
def cell (width : Int) (k : Nat) : Int × Int := (k % width, k / width)

theorem cell_injective (width : Int) : Function.Injective (cell width) := by
  intro a b h
  obtain ⟨hcolumn, hrow⟩ := Prod.mk.inj h
  refine Int.ofNat.inj (?_ : (a : Int) = b)
  rw [← Int.emod_add_mul_ediv a width, hcolumn, hrow, Int.emod_add_mul_ediv]

theorem cell_column {width : Int} (h : 0 < width) (k : Nat) : 0 ≤ (cell width k).1 ∧ (cell width k).1 < width :=
  ⟨Int.emod_nonneg _ (Int.ne_of_gt h), Int.emod_lt_of_pos _ h⟩

theorem row_le {width : Int} (h : 0 < width) {j k : Nat} (hjk : j ≤ k) : (cell width j).2 ≤ (cell width k).2 :=
  Int.ediv_le_ediv h (Int.ofNat_le.mpr hjk)

theorem rowCount_zero {width : Int} (h : 0 < width) : rowCount 0 width = 1 := by
  have hdiv : (((0 : Nat) : Int) + width - 1) / width = 0 := Int.ediv_eq_zero_of_lt (by omega) (by omega)
  rw [rowCount, hdiv]
  rfl

/-- The rows that are counted end with the row of the last member. -/
theorem rowCount_succ {width : Int} (h : 0 < width) (k : Nat) : rowCount (k + 1) width = 1 + (cell width k).2 := by
  have hdiv : (((k + 1 : Nat) : Int) + width - 1) / width = k / width + 1 := by
    rw [show ((k + 1 : Nat) : Int) + width - 1 = k + 1 * width by omega, Int.add_mul_ediv_right _ _ (Int.ne_of_gt h)]
  have hnonneg : (0 : Int) ≤ k / width := Int.ediv_nonneg (Int.natCast_nonneg k) (Int.le_of_lt h)
  rw [rowCount, hdiv, cell]
  omega

theorem isGreatest_rowCount {width : Int} (h : 0 < width) (count : Nat) :
    IsGreatest {r | r = 1 ∨ ∃ k < count, r = 1 + (cell width k).2} (rowCount count width) := by
  cases count with
  | zero =>
      rw [rowCount_zero h]
      exact ⟨.inl rfl, fun r hr => hr.elim Int.le_of_eq fun ⟨k, hk, _⟩ => absurd hk (Nat.not_lt_zero k)⟩
  | succ last =>
      rw [rowCount_succ h]
      refine ⟨.inr ⟨last, Nat.lt_succ_self last, rfl⟩, ?_⟩
      rintro r (rfl | ⟨k, hk, rfl⟩)
      · have hnonneg : (0 : Int) ≤ (cell width last).2 := Int.ediv_nonneg (Int.natCast_nonneg last) (Int.le_of_lt h)
        omega
      · exact Int.add_le_add_left (row_le h (Nat.le_of_lt_succ hk)) 1

end Store

namespace Catalogue

open Store Mapping

variable {s : Store} {e x : EntityId} {i : Nat} {t : Subtree} {ts : List Subtree} {bs : List (List Subtree)}
  {overrides : Overrides} {ns ms : List Node}

/-! ## Overridden fields -/

/-- Whether an overridden plain field of an entity is written once, with the value that overrides it. -/
def Overridden (s : Store) (overrides : Overrides) (t : Subtree) (ns : List Node) : Prop :=
  t.Whole s → Standard s t.root → (s.schemaOf t.root).arrangement = none →
    ∀ name v, hasPlain (s.schemaOf t.root) name = true → overrides.find? (fun o => o.1 = name) = some (name, v) →
      ns.filter (fun n => n.tag = name) = [Node.leaf name v.render]

theorem scalarNodes_overridden {v : Value} {palette palette' : Palette}
    (ho : overrides.find? (fun o => o.1 = s.fieldName e i) = some (s.fieldName e i, v))
    (h : scalarNodes s e i overrides palette = .ok (ns, palette')) : ns = [Node.leaf (s.fieldName e i) v.render] := by
  unfold scalarNodes at h
  rw [ho] at h
  cases h
  rfl

/-- What overrides a field is written whatever the entity stores. -/
theorem overridden (hs : s.Linked) : Assembles s (Overridden s) := by
  intro overrides t ns ha hw h hnone name v hp ho
  cases ha with
  | @node e bs fields last hparts hlast =>
      rw [Subtree.root] at *
      obtain ⟨i, f, hf, rfl, hplain⟩ := exists_field hp
      obtain ⟨stored, hslot⟩ := slot_scalar hs h.has hf (isScalar_of_isPlain hplain)
      have hlength : bs.length = (s.schemaOf e).fields.length := hw.length_fields hs h.has
      have hi : i < bs.length := hlength ▸ (List.getElem?_eq_some_iff.mp hf).1
      have hname : s.fieldName e (0 + i) = f.name := by rw [Nat.zero_add, fieldName_eq hf]
      have harranged : arrangedIndex? (s.schemaOf e) ≠ some (0 + i) := fun hi =>
        arrangement_of_arrangedIndex hi hnone
      have hpart := hparts.filter_eq (List.getElem?_eq_getElem hi) harranged hname fun j hj hn =>
        eq_of_fieldName h hf (hlength ▸ hj) (by rwa [Nat.zero_add] at hn)
      rw [Nat.zero_add] at hpart hname
      rw [last_of_not_arranged hnone hlast, List.append_nil]
      rw [← hname] at ho hpart ⊢
      obtain ⟨palette, palette', hnodes⟩ := hpart.scalarNodes hslot
      exact scalarNodes_overridden ho hnodes

/-! ## Screens and their items -/

theorem screen_table : ∀ m ∈ models, m.name = "Screen" →
    m.arrangement = some (.grid "screen_items" "hsize" "x" "y") ∧ hasSet m "screen_items" = true ∧
      (∀ f ∈ m.fields, f.name = "hsize" → f.kind = .fixedSize 1 ∧ f.validators.length = 1) ∧
      hasPlain m "hsize" = true ∧ ∀ f ∈ m.fields, f.name = "vsize" → f.kind = .elastic "hsize" "screen_items" := by
  decide +kernel

theorem screenItem_table : ∀ m ∈ models, m.name = "ScreenItem" →
    m.arrangement = none ∧ hasPlain m "x" = true ∧ hasPlain m "y" = true := by
  decide +kernel

/-- Screens hold screen items, and these hold nothing. -/
theorem takes_screenItem : ∀ m ∈ models, ∀ field ∈ m.fields, ∀ p ∈ models.zipIdx, takes field p →
    m.name ≠ "ScreenItem" ∧ (m.name = "Screen" → p.1.name = "ScreenItem") := by
  decide +kernel

theorem screenItems_of_screen (hs : s.Linked) (h : Standard s e) (hm : (s.schemaOf e).name = "Screen")
    (hx : x ∈ s.members ⟨e, i⟩) : Standard s x ∧ (s.schemaOf x).name = "ScreenItem" := by
  obtain ⟨hx, f, hh⟩ := h.holds hs hx
  exact ⟨hx, (takes_screenItem _ h.mem f (List.mem_of_getElem? hh.place) _ hx.mem_zipIdx hh.admits).2 hm⟩

/-- A screen is not above itself: its items hold nothing. -/
theorem not_after_screen (hs : s.Linked) (h : Standard s e) (hm : (s.schemaOf e).name = "Screen") :
    ¬ After s.owner e e := by
  intro ha
  obtain ⟨x, hx, ho⟩ := Relation.TransGen.tail'_iff.mp ha
  obtain ⟨c, hp, rfl⟩ := owner_eq_some.mp ho
  obtain ⟨hitem, hname⟩ := screenItems_of_screen hs h hm (hs.mem_iff.mpr hp)
  rcases Relation.reflTransGen_iff_eq_or_transGen.mp hx with rfl | hx
  · simp [hm] at hname
  · obtain ⟨y, _, ho⟩ := Relation.TransGen.tail'_iff.mp hx
    obtain ⟨d, hq, rfl⟩ := owner_eq_some.mp ho
    obtain ⟨hy, f, hh⟩ := hitem.holds hs (hs.mem_iff.mpr hq)
    exact (takes_screenItem _ hitem.mem f (List.mem_of_getElem? hh.place) _ hy.mem_zipIdx hh.admits).1 hname

/-- The number of columns of a screen is an integer, if it is there, and read with any fuel. -/
theorem read_columns (hs : s.Linked) (h : Standard s e) (hm : (s.schemaOf e).name = "Screen") :
    ∃ columns : Option Int, ∃ j, s.fieldIndex e "hsize" = .ok j ∧
      ∀ fuel, s.readWithin e fuel j = .ok (columns.map .int) := by
  obtain ⟨_, _, hsizes, hplain, _⟩ := screen_table _ h.mem hm
  obtain ⟨i, f, hf, hname, hp⟩ := exists_field hplain
  obtain ⟨stored, hslot⟩ := slot_scalar hs h.has hf (isScalar_of_isPlain hp)
  obtain ⟨hkind, hlength⟩ := hsizes f (List.mem_of_getElem? hf) hname
  have hmem : s.schemaOf e ∈ registry.models := by
    rw [registry_models]
    exact h.mem
  have hsound : f.Sound := registry_declared.sound hmem (List.mem_of_getElem? hf)
  have hall : ∀ v ∈ f.validators, v = .min 1 := by
    obtain ⟨v, hv⟩ := List.length_eq_one_iff.mp hlength
    have hmin := hsound.bound 1 hkind
    rw [hv] at hmin ⊢
    simpa using (List.mem_singleton.mp hmin).symm
  have hi : s.fieldIndex e "hsize" = .ok i := hname ▸ fieldIndex_eq h hf
  cases stored with
  | none => exact ⟨none, i, hi, read_of_plain hf hp hslot⟩
  | some v =>
      obtain ⟨n, rfl, _⟩ := hsound.number (hs.typed.stores hf hslot) hkind hall
      exact ⟨some n, i, hi, read_of_plain hf hp hslot⟩

/-! ## The layout of a screen -/

/-- The elements of the column and the row of a cell. -/
def cellNodes (width : Int) (k : Nat) : List Node × List Node :=
  ([Node.leaf "x" (toString (cell width k).1)], [Node.leaf "y" (toString (cell width k).2)])

/-- The items of a screen in rows of a width: where they are placed and written, and the rows that are counted. -/
structure Layout (s : Store) (e : EntityId) (items : CollectionId) (width : Int) : Prop where
  collection : s.collection e "screen_items" = .ok items
  placed : ∃ a, (s.schemaOf e).arrangement = some a ∧ arrangementWidth s e a = .ok width ∧
    ∀ k, placeMember width k a = [("x", .int (cell width k).1), ("y", .int (cell width k).2)]
  whole : (s.subtree e).Whole s
  written : ∀ overrides t palette palette' ns, t.Whole s → t.root = e →
    entityNodes s overrides t palette = .ok (ns, palette') →
    (ns.filter fun n => n.tag = "screen_items").flatMap (fun container =>
      container.children.map fun n => (n.childrenNamed "x", n.childrenNamed "y")) =
        (List.range (s.members items).length).map (cellNodes width)
  distinct : Function.Injective (cell width)
  column : ∀ k, 0 ≤ (cell width k).1 ∧ (cell width k).1 < width
  rows : ∃ rows, s.get e "vsize" = .ok (some (.int rows)) ∧
    IsGreatest {r | r = 1 ∨ ∃ k < (s.members items).length, r = 1 + (cell width k).2} rows

/-- The items are written with the cells of their places, whatever they store. -/
theorem map_rows {tag? : Option String} {width : Int} {k : Nat}
    (hts : ∀ t ∈ ts, t.Whole s ∧ Standard s t.root ∧ (s.schemaOf t.root).name = "ScreenItem")
    (hrows : Rows s (Overridden s) tag? (placeMember width · (.grid "screen_items" "hsize" "x" "y")) k ts ms) :
    ms.map (fun n => (n.childrenNamed "x", n.childrenNamed "y")) = (List.range' k ts.length).map (cellNodes width) := by
  induction hrows with
  | nil => rfl
  | @cons k t ts children ns hpost _ ih =>
      obtain ⟨hw, hx, hname⟩ := hts t List.mem_cons_self
      obtain ⟨hnone, hcolumn, hrow⟩ := screenItem_table _ hx.mem hname
      rw [List.map_cons, ih fun t ht => hts t (List.mem_cons_of_mem _ ht), List.length_cons, List.range'_succ,
        List.map_cons]
      refine congrArg (· :: _) (Prod.ext ?_ ?_)
      · exact hpost hw hx hnone "x" (.int (k % width)) hcolumn rfl
      · exact hpost hw hx hnone "y" (.int (k / width)) hrow rfl

/-- The elements of the items stand in the arranged collection alone. -/
theorem filter_screenItems {post : Overrides → Subtree → List Node → Prop} (hs : s.Linked) (h : Standard s e)
    (hw : (Subtree.node e bs).Whole s) {f : FieldSchema} (hf : s.field? e i = some f)
    (harranged : arrangedIndex? (s.schemaOf e) = some i) (hset : ∃ es, s.slot e i = .members es)
    (ha : Assembled s post overrides (.node e bs) ns) : ∃ a width ms, (s.schemaOf e).arrangement = some a ∧
      arrangementWidth s e a = .ok width ∧
      Rows s post (memberTag? s e i) (placeMember width · a) 0 (bs.getD i []) ms ∧
      ns.filter (fun n => n.tag = f.name) = collectionNodes s e i ms := by
  have hlength := hw.length_fields hs h.has
  cases ha with
  | @node _ _ fields last hparts hlast =>
      have hfields : fields.filter (fun n => n.tag = f.name) = [] := List.filter_eq_nil_iff.mpr fun n hn hname => by
        obtain ⟨j, ts, here, hj, hne, hpart, hmem⟩ := hparts.exists_part hn
        rw [Nat.zero_add] at hne hpart
        have hj : j < (s.schemaOf e).fields.length := hlength ▸ (List.getElem?_eq_some_iff.mp hj).1
        rw [hpart.tag_eq hmem, decide_eq_true_eq] at hname
        exact hne (harranged.trans (congrArg some (eq_of_fieldName h hf hj hname).symm))
      rw [List.filter_append, hfields, List.nil_append]
      cases hlast with
      | none hno =>
          obtain ⟨es, hslot⟩ := hset
          obtain ⟨a, ha, _⟩ := Option.bind_eq_some_iff.mp harranged
          exact absurd hslot (hno i a harranged ha es)
      | @members j a es width ms hj ha _ hwidth hrows =>
          cases harranged.symm.trans hj
          refine ⟨a, width, ms, ha, hwidth, hrows, List.filter_eq_self.mpr fun n hn => ?_⟩
          rcases collectionNodes_cases s e i ms with hc | ⟨hc, _⟩
          · rw [hc] at hn
            rw [List.mem_singleton.mp hn, decide_eq_true_eq]
            exact fieldName_eq hf
          · rw [hc] at hn
            cases hn

theorem rowWidth_of_int (hsize : Option Int) : rowWidth (hsize.map .int) = max 1 (hsize.getD 1) := by
  cases hsize <;> rfl

/-- A screen with the place of its items and the number of its columns. -/
structure Screen (s : Store) (e : EntityId) (k : Nat) (columns : Option Int) : Prop where
  standard : Standard s e
  name : (s.schemaOf e).name = "Screen"
  index : s.fieldIndex e "screen_items" = .ok k
  members : ∃ es, s.slot e k = .members es
  columns : ∃ j, s.fieldIndex e "hsize" = .ok j ∧ ∀ fuel, s.readWithin e fuel j = .ok (columns.map .int)

theorem exists_screen (hs : s.Linked) (h : Standard s e) (hm : (s.schemaOf e).name = "Screen") :
    ∃ k columns, Screen s e k columns := by
  obtain ⟨k, hk, _, hmembers⟩ := h.collection_of_hasSet hs (screen_table _ h.mem hm).2.1
  obtain ⟨columns, hcolumns⟩ := read_columns hs h hm
  exact ⟨k, columns, h, hm, hk, hmembers, hcolumns⟩

namespace Screen

variable {k : Nat} {columns : Option Int}

theorem collection (h : Screen s e k columns) : s.collection e "screen_items" = .ok ⟨e, k⟩ := by
  obtain ⟨es, hslot⟩ := h.members
  simp only [Store.collection, h.index, ok_bind, hslot]
  rfl

theorem get_columns (h : Screen s e k columns) : s.get e "hsize" = .ok (columns.map .int) := by
  obtain ⟨j, hj, hread⟩ := h.columns
  rw [Store.get, hj]
  exact hread _

theorem arrangement (h : Screen s e k columns) :
    (s.schemaOf e).arrangement = some (.grid "screen_items" "hsize" "x" "y") :=
  (screen_table _ h.standard.mem h.name).1

theorem width (h : Screen s e k columns) :
    arrangementWidth s e (.grid "screen_items" "hsize" "x" "y") = .ok (max 1 (columns.getD 1)) := by
  rw [arrangementWidth, h.get_columns, ← rowWidth_of_int]
  rfl

theorem written (hs : s.Linked) (h : Screen s e k columns) {palette palette' : Palette}
    (hw : (Subtree.node e bs).Whole s) (hns : entityNodes s overrides (.node e bs) palette = .ok (ns, palette')) :
    (ns.filter fun n => n.tag = "screen_items").flatMap (fun container =>
      container.children.map fun n => (n.childrenNamed "x", n.childrenNamed "y")) =
        (List.range (s.members ⟨e, k⟩).length).map (cellNodes (max 1 (columns.getD 1))) := by
  have hassembled := entityNodes_assembled (overridden hs) overrides (.node e bs) palette
  rw [hns] at hassembled
  obtain ⟨f, hf, hname⟩ := ModelSchema.field_of_fieldIndex? (fieldIndex_ok_iff.mp h.index)
  have harranged : arrangedIndex? (s.schemaOf e) = some k := by
    rw [arrangedIndex?, h.arrangement]
    exact fieldIndex_ok_iff.mp h.index
  obtain ⟨a, width, ms, ha, hwidth, hrows, hfilter⟩ :=
    filter_screenItems hs h.standard hw hf harranged h.members hassembled
  cases h.arrangement.symm.trans ha
  cases h.width.symm.trans hwidth
  have hk : k < bs.length := by
    rw [hw.length_fields hs h.standard.has]
    exact (List.getElem?_eq_some_iff.mp hf).1
  have hts : bs[k]? = some (bs.getD k []) := by
    rw [List.getD_eq_getElem?_getD, List.getElem?_eq_getElem hk, Option.getD_some]
  have hitems : ∀ t ∈ bs.getD k [], t.Whole s ∧ Standard s t.root ∧ (s.schemaOf t.root).name = "ScreenItem" := by
    intro t ht
    have hmem : t.root ∈ s.members ⟨e, k⟩ := roots_of_whole hw hts ▸ List.mem_map_of_mem ht
    exact ⟨hw.member (List.mem_of_getElem? hts) ht, screenItems_of_screen hs h.standard h.name hmem⟩
  have hmap := map_rows hitems hrows
  rw [← roots_of_whole hw hts, List.length_map, List.range_eq_range', ← hmap, ← hname, hfilter]
  rcases collectionNodes_cases s e k ms with hc | ⟨hc, rfl⟩
  · rw [hc, List.flatMap_singleton]
    rfl
  · rw [hc]
    rfl

theorem get_rows (h : Screen s e k columns) {stored : Option Value} (hi : s.fieldIndex e "vsize" = .ok i)
    (hslot : s.slot e i = .scalar stored) (hsize : isSize stored = false) : s.get e "vsize" =
      .ok (some (.int (rowCount (s.members ⟨e, k⟩).length (max 1 (columns.getD 1))))) := by
  obtain ⟨f, hf, hname⟩ := ModelSchema.field_of_fieldIndex? (fieldIndex_ok_iff.mp hi)
  have hmem : f ∈ (s.schemaOf e).fields := List.mem_of_getElem? hf
  have hkind : s.kind e i = .elastic "hsize" "screen_items" :=
    (kind_eq hf).trans ((screen_table _ h.standard.mem h.name).2.2.2.2 f hmem hname)
  obtain ⟨j, hj, hread⟩ := h.columns
  obtain ⟨fuel, hfuel⟩ : ∃ fuel, (s.schemaOf e).fields.length = fuel + 1 :=
    Nat.exists_eq_succ_of_ne_zero (Nat.ne_of_gt (List.length_pos_of_mem hmem))
  rw [Store.get, hi, ok_bind, Store.read, hfuel, ← rowWidth_of_int]
  exact readWithin_rows hslot hkind hsize h.collection hj (hread fuel)

end Screen

/-- The items of a screen are laid out in as many columns as it gives, one if it gives none, and a size that it does not
give is read as the number of rows that they fill. -/
theorem screen_layout (h : Reachable s) (he : Standard s e) (hm : (s.schemaOf e).name = "Screen")
    {stored : Option Value} (hi : s.fieldIndex e "vsize" = .ok i) (hslot : s.slot e i = .scalar stored)
    (hsize : isSize stored = false) : ∃ (items : CollectionId) (columns : Option Int),
      s.get e "hsize" = .ok (columns.map .int) ∧ Layout s e items (max 1 (columns.getD 1)) := by
  obtain ⟨k, columns, hscreen⟩ := exists_screen h.linked he hm
  have hpos : 0 < max 1 (columns.getD 1) := Int.lt_of_lt_of_le Int.zero_lt_one (Int.le_max_left _ _)
  refine ⟨⟨e, k⟩, columns, hscreen.get_columns, ?_⟩
  exact {
    collection := hscreen.collection
    placed := ⟨_, hscreen.arrangement, hscreen.width, fun _ => rfl⟩
    whole := subtree_whole_of_not_after h.linked (not_after_screen h.linked he hm)
    written := by
      rintro overrides ⟨_, bs⟩ palette palette' ns hw rfl hns
      exact hscreen.written h.linked hw hns
    distinct := cell_injective _
    column := cell_column hpos
    rows := ⟨_, hscreen.get_rows hi hslot hsize, isGreatest_rowCount hpos _⟩ }

/-! ## A wall of graphs -/

/-- A screen item that shows a graph given by its name, and says where it stands. -/
def wallItem : Input := .mapping ⟨[("resource", .mapping ⟨[("name", .text "Load")]⟩), ("x", .text "9"), ("y", .text "9")]⟩

/-- A screen with three items in two columns, of a size that is no number. -/
def wallFields : Fields := ⟨[("name", .text "Wall"), ("screen_items", .list [wallItem, wallItem, wallItem]),
  ("hsize", .text "2"), ("vsize", .text "tall")]⟩

def makeWall : Operation := .build ⟨0, 13⟩ .null wallFields

def wall : Store := (makeWall.step (.ofRegistries [registry])).2

theorem makeWall_valid : makeWall.Valid s := Operation.build_valid fun x hx => by
  rw [namedIn_iff] at hx
  simp [wallFields, wallItem, names_mapping_iff, names_list_iff, Input.text, not_names_value] at hx

theorem wall_made : wall.Has ⟨0⟩ ∧ (wall.model ⟨0⟩).registry = 0 ∧ (wall.schemaOf ⟨0⟩).name = "Screen" ∧
    (wall.members ⟨⟨0⟩, 1⟩).length = 3 ∧
    (match wall.get ⟨0⟩ "hsize", wall.fieldIndex ⟨0⟩ "vsize", wall.slot ⟨0⟩ 3, wall.collection ⟨0⟩ "screen_items" with
    | .ok (some (.int 2)), .ok 3, .scalar stored, .ok ⟨⟨0⟩, 1⟩ => !isSize stored
    | _, _, _, _ => false) = true := by
  rw [wall, registry_eq]
  decide +kernel

theorem screen_layout_wall : Reachable wall ∧ ∃ items, (wall.members items).length = 3 ∧ Layout wall ⟨0⟩ items 2 := by
  have hreachable : Reachable wall := .step start_reachable makeWall_valid trivial
  obtain ⟨hhas, hregistry, hname, hcount, hcheck⟩ := wall_made
  have hstandard := standard_of_step makeWall_valid hhas hregistry (by decide) hname
  split at hcheck
  · next hcolumns hi hslot hitems =>
    obtain ⟨items, columns, hget, hlayout⟩ := screen_layout hreachable hstandard hname hi hslot (by simpa using hcheck)
    cases hitems.symm.trans hlayout.collection
    rw [hget] at hcolumns
    cases columns with
    | none => cases hcolumns
    | some n =>
        cases hcolumns
        exact ⟨hreachable, _, hcount, hlayout⟩
  · cases hcheck

end Catalogue

end MonitorExport
