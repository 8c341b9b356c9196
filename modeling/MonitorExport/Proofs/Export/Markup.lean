import MonitorExport.Export.Xml
import MonitorExport.Proofs.Export.Trees

/-!
# Reading the XML text of a tree

The XML text of a tree can be read in one way only. A slash or a closing bracket ends a tag, an opening bracket
ends a text, and what stands behind it tells a child from the end of its parent. So trees with the same XML text
differ at most in empty texts, which are written as if there were none.
-/

namespace MonitorExport

namespace Node

mutual

/-- The tree without the texts that are empty. -/
def withoutEmptyTexts : Node → Node
  | ⟨tag, text, children⟩ => ⟨tag, text.filter (· ≠ ""), allWithoutEmptyTexts children⟩

def allWithoutEmptyTexts : List Node → List Node
  | [] => []
  | n :: rest => n.withoutEmptyTexts :: allWithoutEmptyTexts rest

end

end Node

namespace Xml

variable {indent depth : Nat} {tag : String} {n n' : Node} {ns ns' : List Node} {x y : List Char}

/-- Whether a tag can be told from the signs around it. -/
def IsTag (tag : String) : Prop := tag ≠ "" ∧ ∀ c ∈ tag.toList, c ≠ '<' ∧ c ≠ '>' ∧ c ≠ '/'

/-- Whether all tags of a tree can be told, and no element has both a text and children. -/
inductive WellFormed : Node → Prop
  | node {tag : String} {text : Option String} {children : List Node} (htag : IsTag tag)
      (hone : text.getD "" = "" ∨ children = []) (h : ∀ c ∈ children, WellFormed c) : WellFormed ⟨tag, text, children⟩

theorem WellFormed.isTag (h : WellFormed n) : IsTag n.tag := by
  cases h with
  | node htag _ _ => exact htag

theorem WellFormed.children (h : WellFormed n) : ∀ c ∈ n.children, WellFormed c := by
  cases h with
  | node _ _ h => exact h

theorem WellFormed.childless (h : WellFormed n) (htext : n.text.getD "" ≠ "") : n.children = [] := by
  cases h with
  | node _ hone _ => exact hone.resolve_left htext

theorem filter_text {text text' : Option String} (h : text.getD "" = text'.getD "") :
    text.filter (· ≠ "") = text'.filter (· ≠ "") := by
  cases text <;> cases text' <;> simp_all [Option.filter]

/-! ## Signs that end a part -/

/-- Two words that both end where a sign first fails a test are the same, and so is what follows. -/
theorem append_cons_inj {p : Char → Prop} {u v : List Char} {a b : Char} (hu : ∀ c ∈ u, p c) (hv : ∀ c ∈ v, p c)
    (ha : ¬ p a) (hb : ¬ p b) (h : u ++ a :: x = v ++ b :: y) : u = v ∧ a :: x = b :: y := by
  induction u generalizing v with
  | nil =>
      cases v with
      | nil => exact ⟨rfl, h⟩
      | cons c v =>
          cases h
          exact absurd (hv a (List.mem_cons_self ..)) ha
  | cons c u ih =>
      cases v with
      | nil =>
          cases h
          exact absurd (hu b (List.mem_cons_self ..)) hb
      | cons d v =>
          injection h with hc h
          obtain ⟨rfl, hrest⟩ := ih (fun c hc => hu c (List.mem_cons_of_mem _ hc))
            (fun c hc => hv c (List.mem_cons_of_mem _ hc)) h
          exact ⟨by rw [hc], hrest⟩

/-- What stands before the first opening bracket, and what after it. -/
theorem bracket_inj {u v : List Char} (hu : '<' ∉ u) (hv : '<' ∉ v) (h : u ++ '<' :: x = v ++ '<' :: y) :
    u = v ∧ x = y := by
  have hne : ∀ {w : List Char}, '<' ∉ w → ∀ c ∈ w, c ≠ '<' := fun hw c hc he => hw (he ▸ hc)
  obtain ⟨huv, hxy⟩ := append_cons_inj (hne hu) (hne hv) (not_not_intro rfl) (not_not_intro rfl) h
  exact ⟨huv, List.tail_eq_of_cons_eq hxy⟩

theorem bracket_not_mem_line (width : Nat) : '<' ∉ '\n' :: List.replicate width ' ' := by
  simp [List.mem_replicate]

/-- A tag ends at the first sign that it cannot have. -/
theorem tag_inj {tag' : String} {a b : Char} (h : IsTag tag) (h' : IsTag tag') (ha : a = '/' ∨ a = '>')
    (hb : b = '/' ∨ b = '>') (heq : tag.toList ++ a :: x = tag'.toList ++ b :: y) : tag = tag' ∧ a :: x = b :: y := by
  have hp : ∀ {t : String}, IsTag t → ∀ c ∈ t.toList, c ≠ '/' ∧ c ≠ '>' := fun ht c hc =>
    ⟨(ht.2 c hc).2.2, (ht.2 c hc).2.1⟩
  have hn : ∀ {c : Char}, c = '/' ∨ c = '>' → ¬ (c ≠ '/' ∧ c ≠ '>') := by
    rintro c (rfl | rfl) ⟨h1, h2⟩
    · exact h1 rfl
    · exact h2 rfl
  obtain ⟨ht, hrest⟩ := append_cons_inj (hp h) (hp h') (hn ha) (hn hb) heq
  exact ⟨String.toList_inj.mp ht, hrest⟩

theorem IsTag.append_ne_slash (h : IsTag tag) : tag.toList ++ x ≠ '/' :: y := by
  obtain ⟨hne, hall⟩ := h
  cases ht : tag.toList with
  | nil => exact absurd (String.toList_eq_nil_iff.mp ht) hne
  | cons c cs =>
      intro he
      injection he with hc _
      exact (hall c (ht ▸ List.mem_cons_self ..)).2.2 hc

/-! ## Texts -/

theorem bracket_not_mem_escaped (c : Char) : '<' ∉ escaped c := by
  unfold escaped
  split
  case h_6 h _ _ _ _ => simpa using fun hc => h hc.symm
  all_goals decide

theorem bracket_not_mem_text (t : List Char) : '<' ∉ t.flatMap escaped := by
  intro hmem
  obtain ⟨c, _, hc⟩ := List.mem_flatMap.mp hmem
  exact bracket_not_mem_escaped c hc

/-- No form of a sign is the start of the form of another. -/
theorem escaped_inj {c d : Char} (h : escaped c ++ x = escaped d ++ y) : c = d ∧ x = y := by
  unfold escaped at h
  split at h <;> split at h <;> simp at h <;> grind

theorem escaped_ne_nil (c : Char) : escaped c ≠ [] := by
  unfold escaped
  split <;> simp

/-- A text ends at the first opening bracket, and it can be read back. -/
theorem text_inj {t t' : List Char} (h : t.flatMap escaped ++ '<' :: x = t'.flatMap escaped ++ '<' :: y) :
    t = t' ∧ x = y := by
  obtain ⟨ht, hxy⟩ := bracket_inj (bracket_not_mem_text t) (bracket_not_mem_text t') h
  refine ⟨?_, hxy⟩
  clear h
  induction t generalizing t' with
  | nil =>
      cases t' with
      | nil => rfl
      | cons d t' => simp [escaped_ne_nil] at ht
  | cons c t ih =>
      cases t' with
      | nil => simp [escaped_ne_nil] at ht
      | cons d t' =>
          rw [List.flatMap_cons, List.flatMap_cons] at ht
          obtain ⟨rfl, hrest⟩ := escaped_inj ht
          rw [ih hrest]

/-! ## Elements -/

/-- The characters from the end of an element that has children on. -/
def ending (width : Nat) (tag : String) (x : List Char) : List Char :=
  '\n' :: (List.replicate width ' ' ++ '<' :: '/' :: (tag.toList ++ '>' :: x))

/-- The characters behind the first tag of an element, if `x` follows the element. -/
def afterTag (indent depth : Nat) (n : Node) (x : List Char) : List Char :=
  match (n.text.getD "").toList, n.children with
  | [], [] => '/' :: '>' :: x
  | [], c :: cs => '>' :: (elements indent (depth + 1) false (c :: cs) ++ ending (depth * indent) n.tag x)
  | c :: cs, _ => '>' :: ((c :: cs).flatMap escaped ++ '<' :: '/' :: (n.tag.toList ++ '>' :: x))

theorem element_append (h : WellFormed n) (x : List Char) : element indent depth false n ++ x =
    '\n' :: (List.replicate (depth * indent) ' ' ++ '<' :: (n.tag.toList ++ afterTag indent depth n x)) := by
  cases h with
  | @node tag text children _ hone _ =>
      rw [element, afterTag]
      cases ht : (text.getD "").toList with
      | nil =>
          cases children with
          | nil => simp [lineBreak]
          | cons c cs => simp [lineBreak, ending]
      | cons c cs =>
          have hchildren : children = [] := hone.resolve_left fun he => by simp [he] at ht
          subst hchildren
          simp [lineBreak, elements]

theorem afterTag_head (indent depth : Nat) (n : Node) (x : List Char) :
    ∃ c rest, afterTag indent depth n x = c :: rest ∧ (c = '/' ∨ c = '>') := by
  unfold afterTag
  split
  · exact ⟨_, _, rfl, .inl rfl⟩
  · exact ⟨_, _, rfl, .inr rfl⟩
  · exact ⟨_, _, rfl, .inr rfl⟩

/-- No element starts as the end of one does. -/
theorem element_ne_end (h : WellFormed n) {u : List Char} (hu : '<' ∉ u) :
    element indent depth false n ++ x ≠ u ++ '<' :: '/' :: y := by
  intro heq
  rw [element_append h, ← List.cons_append] at heq
  exact h.isTag.append_ne_slash (bracket_inj (bracket_not_mem_line _) hu heq).2

theorem ending_eq (width : Nat) (tag : String) (x : List Char) : ending width tag x =
    ('\n' :: List.replicate width ' ') ++ '<' :: '/' :: (tag.toList ++ '>' :: x) := rfl

theorem ending_inj {width : Nat} {tag' : String} (h : IsTag tag) (h' : IsTag tag')
    (heq : ending width tag x = ending width tag' y) : x = y := by
  rw [ending_eq, ending_eq] at heq
  obtain ⟨_, heq⟩ := bracket_inj (bracket_not_mem_line _) (bracket_not_mem_line _) heq
  obtain ⟨_, heq⟩ := tag_inj h h' (.inr rfl) (.inr rfl) (List.tail_eq_of_cons_eq heq)
  exact List.tail_eq_of_cons_eq heq

/-- What follows the tag of an element tells its text, and whether it has children. -/
theorem afterTag_inj (h : WellFormed n) (h' : WellFormed n')
    (heq : afterTag indent depth n x = afterTag indent depth n' y) : n.text.getD "" = n'.text.getD "" ∧
      (n.children = [] ∧ n'.children = [] ∧ (n.tag = n'.tag → x = y) ∨
        elements indent (depth + 1) false n.children ++ ending (depth * indent) n.tag x =
          elements indent (depth + 1) false n'.children ++ ending (depth * indent) n'.tag y) := by
  have hne {c : Char} {cs : List Char} {t : Option String} (ht : (t.getD "").toList = c :: cs) : t.getD "" ≠ "" :=
    fun he => by simp [he] at ht
  have hend {m : Node} {ms : List Node} {u z : List Char} (hm : WellFormed m) {z' : List Char} :
      elements indent (depth + 1) false (m :: ms) ++ z ≠ u.flatMap escaped ++ '<' :: '/' :: z' := by
    rw [elements, List.append_assoc]
    exact element_ne_end hm (bracket_not_mem_text u)
  unfold afterTag at heq
  split at heq
  case h_1 ht hc =>
      split at heq
      case h_1 ht' hc' => exact ⟨String.toList_inj.mp (ht.trans ht'.symm), .inl ⟨hc, hc', fun _ => by simpa using heq⟩⟩
      all_goals simp at heq
  case h_2 c cs ht hc =>
      split at heq
      case h_1 => simp at heq
      case h_2 ht' hc' =>
          rw [← hc, ← hc'] at heq
          exact ⟨String.toList_inj.mp (ht.trans ht'.symm), .inr (List.tail_eq_of_cons_eq heq)⟩
      case h_3 => exact absurd (List.tail_eq_of_cons_eq heq) (hend (h.children c (hc ▸ List.mem_cons_self ..)))
  case h_3 c cs ht =>
      split at heq
      case h_1 => simp at heq
      case h_2 m ms ht' hc' =>
          exact absurd (List.tail_eq_of_cons_eq heq).symm (hend (h'.children m (hc' ▸ List.mem_cons_self ..)))
      case h_3 ht' =>
          obtain ⟨htext, hrest⟩ := text_inj (List.tail_eq_of_cons_eq heq)
          refine ⟨String.toList_inj.mp (by rw [ht, ht', htext]), .inl ⟨h.childless (hne ht), h'.childless (hne ht'), ?_⟩⟩
          intro htag
          simpa [htag] using hrest

mutual

/-- An element can be read back from what starts with it. -/
theorem element_inj : (n : Node) → {n' : Node} → {depth : Nat} → {x y : List Char} → WellFormed n → WellFormed n' →
    element indent depth false n ++ x = element indent depth false n' ++ y →
    n.withoutEmptyTexts = n'.withoutEmptyTexts ∧ x = y
  | ⟨tag, text, children⟩, ⟨tag', text', children'⟩, depth, x, y, h, h', heq => by
      rw [element_append h, element_append h'] at heq
      obtain ⟨_, heq⟩ := bracket_inj (bracket_not_mem_line _) (bracket_not_mem_line _) heq
      obtain ⟨a, u, hu, ha⟩ := afterTag_head indent depth ⟨tag, text, children⟩ x
      obtain ⟨b, v, hv, hb⟩ := afterTag_head indent depth ⟨tag', text', children'⟩ y
      rw [hu, hv] at heq
      obtain ⟨htag, heq⟩ := tag_inj h.isTag h'.isTag ha hb heq
      rw [← hu, ← hv] at heq
      obtain ⟨htext, hchildren⟩ := afterTag_inj h h' heq
      have htag : tag = tag' := htag
      subst htag
      rw [Node.withoutEmptyTexts, Node.withoutEmptyTexts, filter_text htext]
      rcases hchildren with ⟨rfl, rfl, hxy⟩ | hchildren
      · exact ⟨rfl, hxy rfl⟩
      · obtain ⟨hns, hxy⟩ := elements_inj children h.children h'.children h.isTag h'.isTag hchildren
        exact ⟨by rw [hns], hxy⟩

/-- Elements in order can be read back from what starts with them, up to the end of their parent. -/
theorem elements_inj : (ns : List Node) → {ns' : List Node} → {depth width : Nat} → {tag tag' : String} →
    {x y : List Char} → (∀ n ∈ ns, WellFormed n) → (∀ n ∈ ns', WellFormed n) → IsTag tag → IsTag tag' →
    elements indent depth false ns ++ ending width tag x = elements indent depth false ns' ++ ending width tag' y →
    Node.allWithoutEmptyTexts ns = Node.allWithoutEmptyTexts ns' ∧ x = y
  | [], [], depth, width, tag, tag', x, y, _, _, ht, ht', heq => ⟨rfl, ending_inj ht ht' heq⟩
  | [], n' :: ns', depth, width, tag, tag', x, y, _, h', _, _, heq => by
      rw [elements, elements, List.nil_append, List.append_assoc] at heq
      exact absurd heq.symm (element_ne_end (h' n' (List.mem_cons_self ..)) (bracket_not_mem_line width))
  | n :: ns, [], depth, width, tag, tag', x, y, h, _, _, _, heq => by
      rw [elements, elements, List.nil_append, List.append_assoc] at heq
      exact absurd heq (element_ne_end (h n (List.mem_cons_self ..)) (bracket_not_mem_line width))
  | n :: ns, n' :: ns', depth, width, tag, tag', x, y, h, h', ht, ht', heq => by
      rw [elements, elements, List.append_assoc, List.append_assoc] at heq
      obtain ⟨hn, hrest⟩ := element_inj n (h n (List.mem_cons_self ..)) (h' n' (List.mem_cons_self ..)) heq
      obtain ⟨hns, hxy⟩ := elements_inj ns (fun m hm => h m (List.mem_cons_of_mem _ hm))
        (fun m hm => h' m (List.mem_cons_of_mem _ hm)) ht ht' hrest
      exact ⟨by rw [Node.allWithoutEmptyTexts, Node.allWithoutEmptyTexts, hn, hns], hxy⟩

end

/-! ## Empty texts -/

theorem toList_filter_text (text : Option String) : ((text.filter (· ≠ "")).getD "").toList = (text.getD "").toList := by
  cases text with
  | none => rfl
  | some t => by_cases h : t = "" <;> simp [Option.filter, h]

mutual

theorem element_withoutEmptyTexts (indent depth : Nat) (afterText : Bool) : (n : Node) →
    element indent depth afterText n.withoutEmptyTexts = element indent depth afterText n
  | ⟨tag, text, children⟩ => by
      have hempty : (Node.allWithoutEmptyTexts children).isEmpty = children.isEmpty := by
        cases children <;> rfl
      rw [Node.withoutEmptyTexts, element, element, toList_filter_text, hempty]
      rw [elements_withoutEmptyTexts indent (depth + 1) _ children]

theorem elements_withoutEmptyTexts (indent depth : Nat) (afterText : Bool) : (ns : List Node) →
    elements indent depth afterText (Node.allWithoutEmptyTexts ns) = elements indent depth afterText ns
  | [] => rfl
  | n :: ns => by
      rw [Node.allWithoutEmptyTexts, elements, elements, element_withoutEmptyTexts indent depth afterText n,
        elements_withoutEmptyTexts indent depth false ns]

end

/-- Trees have the same XML text exactly if they differ at most in empty texts, whatever the indentation. -/
theorem document_eq_iff {a b : Node} (ha : WellFormed a) (hb : WellFormed b) (indent : Nat) :
    document indent a = document indent b ↔ a.withoutEmptyTexts = b.withoutEmptyTexts := by
  constructor
  · intro h
    have h := List.append_cancel_left (by simpa only [document, List.append_assoc] using String.ofList_injective h)
    exact (element_inj a ha hb h).1
  · intro h
    rw [document, document, ← element_withoutEmptyTexts indent 0 false a, h, element_withoutEmptyTexts]

/-- A cell with a text that spells an element between two line breaks. -/
def spelled : Node := .ofChildren "row" [.leaf "cell" "\n<value/>\n"]

/-- A cell with an element, which stands between two line breaks. -/
def nested : Node := .ofChildren "row" [.ofChildren "cell" [.ofChildren "value" []]]

theorem spelled_wellFormed : WellFormed spelled := by
  refine .node (by simp [IsTag]) (.inl rfl) fun c hc => ?_
  cases List.mem_singleton.mp hc
  exact .node (by simp [IsTag]) (.inr rfl) (by simp)

theorem nested_wellFormed : WellFormed nested := by
  refine .node (by simp [IsTag]) (.inl rfl) fun c hc => ?_
  cases List.mem_singleton.mp hc
  refine .node (by simp [IsTag]) (.inl rfl) fun c hc => ?_
  cases List.mem_singleton.mp hc
  exact .node (by simp [IsTag]) (.inr rfl) (by simp)

theorem document_spelled_ne : WellFormed spelled ∧ WellFormed nested ∧ document 0 spelled ≠ document 0 nested := by
  refine ⟨spelled_wellFormed, nested_wellFormed, fun h => ?_⟩
  have heq := (document_eq_iff spelled_wellFormed nested_wellFormed 0).mp h
  simp [spelled, nested, Node.ofChildren, Node.leaf, Node.withoutEmptyTexts, Node.allWithoutEmptyTexts] at heq

end Xml

end MonitorExport
