import MonitorExport.Proofs.Schema.Resolving
import MonitorExport.Export.Compiler

/-!
# Sketches of a mapping

What is mapped of an entity before any colour is drawn: its elements, and for each of them what its text is taken from.
The mapping paints its sketch. It draws colours in the order of the document, one for each element whose colour is open,
and none for any other.
-/

namespace MonitorExport

namespace Store

variable {s : Store} {e : EntityId} {index : Nat}

/-- Whether a field is a colour that is not set. -/
def isUnsetColor (s : Store) (e : EntityId) (index : Nat) : Bool :=
  match s.kind e index, s.slot e index with
  | .color, .scalar none => true
  | _, _ => false

theorem isUnsetColor_iff : s.isUnsetColor e index = true ↔ s.kind e index = .color ∧ s.slot e index = .scalar none := by
  unfold isUnsetColor
  split
  · next hk hs => exact iff_of_true rfl ⟨hk, hs⟩
  · next hno => exact iff_of_false Bool.false_ne_true fun h => hno h.1 h.2

/-- Only an unset colour is drawn. -/
theorem readDrawing_eq (p : Palette) : s.readDrawing e index p =
    if s.isUnsetColor e index then .ok (some (.text p.draw.1), p.draw.2) else (s.read e index).map (·, p) := by
  unfold readDrawing
  split
  · next hk hs => rw [if_pos (isUnsetColor_iff.mpr ⟨hk, hs⟩)]
  · next hno => rw [if_neg fun h => hno (isUnsetColor_iff.mp h).1 (isUnsetColor_iff.mp h).2]

end Store

/-- What the text of a scalar field's element is taken from. -/
inductive Ink where
  /-- The value by which an arrangement overrides the field. -/
  | given (e : EntityId) (index : Nat) (v : Value)
  /-- The value that is read of the field. -/
  | stored (e : EntityId) (index : Nat) (v : Value)
  /-- A colour that is to be drawn. -/
  | blank (e : EntityId) (index : Nat)

/-- An element with what its text is taken from, if it is that of a scalar field. -/
inductive Sketch where
  | element (tag : String) (text : Option String) (children : List Sketch)
  | leaf (tag : String) (ink : Ink)

/-- The tag of an element, and what its text is taken from if it is that of a scalar field. -/
abbrev Mark := String × Option Ink

namespace Ink

/-- The text that is taken, and the palette after that. -/
def paint (p : Palette) : Ink → String × Palette
  | .given _ _ v => (v.render, p)
  | .stored _ _ v => (v.render, p)
  | .blank _ _ => (p.draw.1, p.draw.2)

end Ink

namespace Sketch

def ofChildren (tag : String) (children : List Sketch) : Sketch := .element tag none children

mutual

/-- The element of a sketch, and the palette after its colours were drawn. -/
def paint (p : Palette) : Sketch → Node × Palette
  | .element tag text children =>
    let (children, p) := paintAll p children
    (⟨tag, text, children⟩, p)
  | .leaf tag ink =>
    let (text, p) := ink.paint p
    (Node.leaf tag text, p)

/-- The elements of sketches, one after the other. -/
def paintAll (p : Palette) : List Sketch → List Node × Palette
  | [] => ([], p)
  | sk :: rest =>
    let (n, p) := sk.paint p
    let (ns, p) := paintAll p rest
    (n :: ns, p)

end

mutual

/-- The marks of an element and of all below it, in the order of the document. -/
def marks : Sketch → List Mark
  | .element tag _ children => (tag, none) :: marksAll children
  | .leaf tag ink => [(tag, some ink)]

/-- The marks of elements and of all below them. -/
def marksAll : List Sketch → List Mark
  | [] => []
  | sk :: rest => sk.marks ++ marksAll rest

end

end Sketch

namespace Mapping

open Sketch

/-! ## The sketch of an entity -/

/-- The sketch of a scalar field. An unset colour that nothing overrides is left open. -/
def scalarSketches (s : Store) (e : EntityId) (index : Nat) (overrides : Overrides) :
    Except ConfigError (List Sketch) :=
  let name := s.fieldName e index
  match overrides.find? fun o => o.1 = name with
  | some (_, v) => .ok [.leaf name (.given e index v)]
  | none =>
    if s.isUnsetColor e index then .ok [.leaf name (.blank e index)]
    else (s.read e index).map fun v => (v.map fun v => Sketch.leaf name (.stored e index v)).toList

/-- The sketch of a reference. -/
def referenceSketch (s : Store) (e : EntityId) (index : Nat) : Except ConfigError Sketch :=
  (s.resolve e index).map fun identity =>
    Sketch.ofChildren (s.fieldName e index)
      (identity.pairs.map fun (key, v) => .element key (some v.render) [])

/-- The sketch of a collection with the given members, if it is written. -/
def collectionSketches (s : Store) (e : EntityId) (index : Nat) (members : List Sketch) : List Sketch :=
  if members.isEmpty && !allowsEmpty s e index then []
  else [Sketch.ofChildren (s.fieldName e index) members]

/-- The sketches of one field, given those of its members if it is a collection. -/
def slotSketches (s : Store) (e : EntityId) (index : Nat) (overrides : Overrides)
    (members : Except ConfigError (List Sketch)) : Except ConfigError (List Sketch) :=
  match s.slot e index with
  | .scalar _ => scalarSketches s e index overrides
  | .binding _ => (referenceSketch s e index).map ([·])
  | .members _ => members.map (collectionSketches s e index)

mutual

/-- The sketches of an entity's fields, in the order of its table, the arranged collection last. -/
def entitySketches (s : Store) (overrides : Overrides) : Subtree → Except ConfigError (List Sketch)
  | .node e branches => do
    let schema := s.schemaOf e
    let arranged := arrangedIndex? schema
    let sketches ← fieldSketches s e overrides arranged 0 branches
    match arranged, schema.arrangement with
    | some index, some arrangement =>
      match s.slot e index with
      | .members _ =>
        let width ← arrangementWidth s e arrangement
        let members ← branchSketches s (memberTag? s e index) (placeMember width · arrangement) index
          branches
        return sketches ++ collectionSketches s e index members
      | _ => return sketches
    | _, _ => return sketches

/-- The sketches of the fields from a place of the table on, without the arranged one. -/
def fieldSketches (s : Store) (e : EntityId) (overrides : Overrides) (arranged : Option Nat)
    (index : Nat) : List (List Subtree) → Except ConfigError (List Sketch)
  | [] => return []
  | members :: rest => do
    let here ←
      if arranged = some index then pure []
      else
        slotSketches s e index overrides
          (memberSketches s (memberTag? s e index) (fun _ => []) 0 members)
    return here ++ (← fieldSketches s e overrides arranged (index + 1) rest)

/-- The sketches of the members in the branch at a place. -/
def branchSketches (s : Store) (tag : Option String) (overrides : Nat → Overrides) :
    Nat → List (List Subtree) → Except ConfigError (List Sketch)
  | _, [] => return []
  | 0, members :: _ => memberSketches s tag overrides 0 members
  | index + 1, _ :: rest => branchSketches s tag overrides index rest

/-- The sketches of members, of which the first is the `k`-th of its collection. -/
def memberSketches (s : Store) (tag : Option String) (overrides : Nat → Overrides) (k : Nat) :
    List Subtree → Except ConfigError (List Sketch)
  | [] => return []
  | t :: rest => do
    let children ← entitySketches s (overrides k) t
    let sketch := Sketch.ofChildren (tag.getD (s.schemaOf t.root).tag) children
    return sketch :: (← memberSketches s tag overrides (k + 1) rest)

end

/-! ## Painting -/

/-- Whether a step of a mapping paints sketches, or fails as these do. -/
def Paints (d : Drawing (List Node)) (r : Except ConfigError (List Sketch)) : Prop :=
  ∀ p, d p = r.map (paintAll p)

theorem paintAll_cons (p : Palette) (sk : Sketch) (sks : List Sketch) : paintAll p (sk :: sks) =
    ((sk.paint p).1 :: (paintAll (sk.paint p).2 sks).1, (paintAll (sk.paint p).2 sks).2) := by
  rw [paintAll]

theorem paintAll_append (p : Palette) (sks sks' : List Sketch) : paintAll p (sks ++ sks') =
    ((paintAll p sks).1 ++ (paintAll (paintAll p sks).2 sks').1, (paintAll (paintAll p sks).2 sks').2) := by
  induction sks generalizing p with
  | nil => rfl
  | cons sk sks ih => rw [List.cons_append, paintAll_cons, ih, paintAll_cons, List.cons_append]

theorem paint_ofChildren (p : Palette) (tag : String) (sks : List Sketch) :
    (Sketch.ofChildren tag sks).paint p = (Node.ofChildren tag (paintAll p sks).1, (paintAll p sks).2) := by
  rw [Sketch.ofChildren, Sketch.paint]
  rfl

theorem isEmpty_paintAll (p : Palette) (sks : List Sketch) : (paintAll p sks).1.isEmpty = sks.isEmpty := by
  cases sks with
  | nil => rfl
  | cons sk sks => rw [paintAll_cons]; rfl

theorem paintAll_collectionSketches (s : Store) (e : EntityId) (index : Nat) (p : Palette) (sks : List Sketch) :
    paintAll p (collectionSketches s e index sks) =
      (collectionNodes s e index (paintAll p sks).1, (paintAll p sks).2) := by
  unfold collectionSketches collectionNodes
  rw [isEmpty_paintAll]
  split
  · next h =>
    rw [List.isEmpty_iff.mp (Bool.and_eq_true_iff.mp h).1]
    rfl
  · rw [paintAll_cons, paint_ofChildren]
    rfl

namespace Paints

variable {d : Drawing (List Node)} {r : Except ConfigError (List Sketch)}

theorem pure_nil : Paints (pure []) (.ok []) := fun _ => rfl

theorem bind {k : List Node → Drawing (List Node)} {next : List Sketch → Except ConfigError (List Sketch)}
    (h : Paints d r) (hk : ∀ p sks, k (paintAll p sks).1 (paintAll p sks).2 = (next sks).map (paintAll p)) :
    Paints (d >>= k) (r >>= next) := by
  intro p
  change (d p >>= fun q => k q.1 q.2) = _
  rw [h p]
  cases r with
  | error err => rfl
  | ok sks => exact hk p sks

/-- What is painted after sketches stands behind them. -/
theorem append (h : Paints d r) (p : Palette) (sks : List Sketch) :
    (d >>= fun ns => pure ((paintAll p sks).1 ++ ns) : Drawing (List Node)) (paintAll p sks).2 =
      (r.map (sks ++ ·)).map (paintAll p) := by
  change (d (paintAll p sks).2 >>= fun q => _) = _
  rw [h (paintAll p sks).2]
  cases r with
  | error err => rfl
  | ok sks' =>
      change Except.ok _ = Except.ok _
      rw [paintAll_append]

theorem collection (h : Paints d r) (s : Store) (e : EntityId) (index : Nat) :
    Paints (collectionNodes s e index <$> d) (r.map (collectionSketches s e index)) := by
  intro p
  rw [map_eq_pure_bind]
  change (d p >>= fun q => _) = _
  rw [h p]
  cases r with
  | error err => rfl
  | ok sks =>
      change Except.ok _ = Except.ok _
      rw [paintAll_collectionSketches]

end Paints

theorem scalarNodes_paints (s : Store) (e : EntityId) (index : Nat) (overrides : Overrides) :
    Paints (scalarNodes s e index overrides) (scalarSketches s e index overrides) := by
  intro p
  unfold scalarNodes scalarSketches
  dsimp only
  cases overrides.find? fun o => o.1 = s.fieldName e index with
  | some o => rfl
  | none =>
      change (s.readDrawing e index p >>= _) = _
      rw [Store.readDrawing_eq]
      dsimp only
      split
      · rfl
      · cases s.read e index with
        | error err => rfl
        | ok v => cases v <;> rfl

theorem paintAll_pairs (p : Palette) (pairs : List (String × Value)) :
    paintAll p (pairs.map fun (key, v) => .element key (some v.render) []) =
      (pairs.map fun (key, v) => Node.leaf key v.render, p) := by
  induction pairs with
  | nil => rfl
  | cons pair pairs ih =>
      rw [List.map_cons, paintAll_cons]
      change ((⟨pair.1, some pair.2.render, []⟩ : Node) :: (paintAll p _).1, (paintAll p _).2) = _
      rw [ih]
      rfl

theorem referenceNode_paints (s : Store) (e : EntityId) (index : Nat) :
    Paints (([·]) <$> liftM (referenceNode s e index)) ((referenceSketch s e index).map ([·])) := by
  intro p
  unfold referenceNode referenceSketch
  cases s.resolve e index with
  | error err => rfl
  | ok identity =>
      change Except.ok _ = Except.ok _
      rw [paintAll_cons, paint_ofChildren, paintAll_pairs]
      rfl

theorem slotNodes_paints (s : Store) (e : EntityId) (index : Nat) (overrides : Overrides) {d : Drawing (List Node)}
    {r : Except ConfigError (List Sketch)} (h : Paints d r) :
    Paints (slotNodes s e index overrides d) (slotSketches s e index overrides r) := by
  unfold slotNodes slotSketches
  cases s.slot e index with
  | scalar v => exact scalarNodes_paints s e index overrides
  | binding b => exact referenceNode_paints s e index
  | members es => exact h.collection s e index

mutual

/-- The mapping of an entity paints its sketch, or fails where the sketch does. -/
theorem entityNodes_paints (s : Store) (overrides : Overrides) :
    (t : Subtree) → Paints (entityNodes s overrides t) (entitySketches s overrides t)
  | .node e branches => by
      unfold entityNodes entitySketches
      refine (fieldNodes_paints s e overrides _ 0 branches).bind fun p sks => ?_
      cases arrangedIndex? (s.schemaOf e) with
      | none => rfl
      | some index =>
      cases (s.schemaOf e).arrangement with
      | none => rfl
      | some a =>
      dsimp only
      cases s.slot e index with
      | scalar v => rfl
      | binding b => rfl
      | members es =>
          cases arrangementWidth s e a with
          | error err => rfl
          | ok width =>
              have hmembers := branchNodes_paints s (memberTag? s e index) (placeMember width · a) index branches
              change (branchNodes s _ _ index branches (paintAll p sks).2 >>= fun q => _) = _
              rw [hmembers]
              change _ = (branchSketches s _ _ index branches >>= fun ms => _).map _
              cases branchSketches s (memberTag? s e index) (placeMember width · a) index branches with
              | error err => rfl
              | ok ms =>
                  change Except.ok _ = Except.ok _
                  rw [paintAll_append, paintAll_collectionSketches]

theorem fieldNodes_paints (s : Store) (e : EntityId) (overrides : Overrides) (arranged : Option Nat) (index : Nat) :
    (bs : List (List Subtree)) →
      Paints (fieldNodes s e overrides arranged index bs) (fieldSketches s e overrides arranged index bs)
  | [] => .pure_nil
  | ts :: rest => by
      have hrest := fieldNodes_paints s e overrides arranged (index + 1) rest
      have hmembers := memberNodes_paints s (memberTag? s e index) (fun _ => []) 0 ts
      unfold fieldNodes fieldSketches
      dsimp only
      split
      · exact Paints.pure_nil.bind hrest.append
      · exact (slotNodes_paints s e index overrides hmembers).bind hrest.append

theorem branchNodes_paints (s : Store) (tag : Option String) (overrides : Nat → Overrides) : (index : Nat) →
    (bs : List (List Subtree)) → Paints (branchNodes s tag overrides index bs) (branchSketches s tag overrides index bs)
  | 0, [] => .pure_nil
  | _ + 1, [] => .pure_nil
  | 0, members :: _ => memberNodes_paints s tag overrides 0 members
  | index + 1, _ :: rest => branchNodes_paints s tag overrides index rest

theorem memberNodes_paints (s : Store) (tag : Option String) (overrides : Nat → Overrides) (k : Nat) :
    (ts : List Subtree) → Paints (memberNodes s tag overrides k ts) (memberSketches s tag overrides k ts)
  | [] => .pure_nil
  | t :: rest => by
      have hrest := memberNodes_paints s tag overrides (k + 1) rest
      unfold memberNodes memberSketches
      refine (entityNodes_paints s (overrides k) t).bind fun p sks => ?_
      change (memberNodes s tag overrides (k + 1) rest (paintAll p sks).2 >>= fun q => _) = _
      rw [hrest]
      cases memberSketches s tag overrides (k + 1) rest with
      | error err => rfl
      | ok ms =>
          change Except.ok _ = Except.ok _
          rw [paintAll_cons, paint_ofChildren]

end

end Mapping

end MonitorExport
