import MonitorExport.Catalogue.Aggregate
import MonitorExport.Proofs.Entries
import MonitorExport.Proofs.Export.Rollups
import MonitorExport.Proofs.Json.Strings
import MonitorExport.Proofs.Schema.Resolving
import MonitorExport.Proofs.Validation.Periods

/-!
# Keys of aggregate items

An aggregate item is known by its key alone, so its key must tell what is aggregated. Groups and item keys are any texts,
but they stand in the key as quoted strings, which delimit themselves, and a period is written in one way. The two
functions are written as they are: for items of the same functions the key tells all the rest.
-/

namespace MonitorExport.Aggregate

variable {view view' : EntityView} {fields fields' built built' : Fields} {names names' : List String} {x y : List Char}

/-! ## Groups in a key -/

/-- Groups of which none is given stand for a group that says so. -/
def orUnset : List String → List String
  | [] => [unsetGroup]
  | names => names

theorem orUnset_ne_nil (names : List String) : orUnset names ≠ [] := by
  cases names <;> simp [orUnset]

theorem groupsText_orUnset (names : List String) : groupsText (orUnset names) = groupsText names := by
  cases names <;> rfl

/-- What follows the first of some strings between brackets. -/
def closing (names : List String) (x : List Char) : List Char :=
  match names with
  | [] => ']' :: x
  | names => ',' :: (Json.itemCharacters (names.map .str) ++ ']' :: x)

theorem itemCharacters_cons (name : String) (names : List String) (x : List Char) :
    Json.itemCharacters ((name :: names).map .str) ++ ']' :: x = Json.quote name ++ closing names x := by
  cases names with
  | nil => rfl
  | cons second names =>
      simp only [closing, List.map_cons, Json.itemCharacters, Json.characters, Json.leaf, List.append_assoc,
        List.cons_append]

/-- Strings between brackets, and what follows, can be told from the text that they make. -/
theorem itemCharacters_inj (h : Json.itemCharacters (names.map .str) ++ ']' :: x =
    Json.itemCharacters (names'.map .str) ++ ']' :: y) : names = names' ∧ x = y := by
  induction names generalizing names' with
  | nil =>
      cases names' with
      | nil => exact ⟨rfl, List.tail_eq_of_cons_eq h⟩
      | cons name' names' =>
          rw [itemCharacters_cons, Json.quote_append] at h
          exact absurd (List.head_eq_of_cons_eq h) (by decide)
  | cons name names ih =>
      cases names' with
      | nil =>
          rw [itemCharacters_cons, Json.quote_append] at h
          exact absurd (List.head_eq_of_cons_eq h) (by decide)
      | cons name' names' =>
          rw [itemCharacters_cons, itemCharacters_cons] at h
          obtain ⟨rfl, hclosing⟩ := Json.quote_append_inj.mp h
          cases names with
          | nil =>
              cases names' with
              | nil => exact ⟨rfl, List.tail_eq_of_cons_eq hclosing⟩
              | cons => exact absurd (List.head_eq_of_cons_eq hclosing) (by decide)
          | cons second names =>
              cases names' with
              | nil => exact absurd (List.head_eq_of_cons_eq hclosing) (by decide)
              | cons second' names' =>
                  obtain ⟨hnames, hx⟩ := ih (List.tail_eq_of_cons_eq hclosing)
                  exact ⟨hnames ▸ rfl, hx⟩

/-- One group is quoted, and several stand between brackets. -/
theorem groupsText_append (hne : names ≠ []) (x : List Char) :
    (∃ name, names = [name] ∧ groupsText names ++ x = '"' :: (name.toList.flatMap Json.escaped ++ '"' :: x)) ∨
      2 ≤ names.length ∧ groupsText names ++ x = '[' :: (Json.itemCharacters (names.map .str) ++ ']' :: x) := by
  match names with
  | [] => exact absurd rfl hne
  | [name] => exact .inl ⟨name, rfl, Json.quote_append name x⟩
  | _ :: _ :: _ => exact .inr ⟨by simp, by simp [groupsText, Json.characters]⟩

theorem groupsText_inj (h : groupsText names ++ x = groupsText names' ++ y) : orUnset names = orUnset names' ∧ x = y := by
  rw [← groupsText_orUnset names, ← groupsText_orUnset names'] at h
  generalize orUnset names = names, orUnset_ne_nil names = hne at h ⊢
  generalize orUnset names' = names', orUnset_ne_nil names' = hne' at h ⊢
  rcases groupsText_append hne x with ⟨name, rfl, htext⟩ | ⟨_, htext⟩ <;>
    rcases groupsText_append hne' y with ⟨name', rfl, htext'⟩ | ⟨_, htext'⟩
  · exact (Json.quote_append_inj.mp h).imp_left (congrArg ([·]))
  · rw [htext, htext'] at h
    exact absurd (List.head_eq_of_cons_eq h) (by decide)
  · rw [htext, htext'] at h
    exact absurd (List.head_eq_of_cons_eq h) (by decide)
  · rw [htext, htext'] at h
    exact itemCharacters_inj (List.tail_eq_of_cons_eq h)

/-! ## Whole keys -/

/-- What an aggregate item aggregates, and how. -/
structure Parameters where
  groups : List String
  groupFunction : String
  key : String
  itemFunction : String
  period : Period

def Parameters.text (p : Parameters) : String :=
  keyText p.groupFunction p.groups p.key p.itemFunction p.period.compress.text

/-- With the same functions the key tells the groups, the item and the period. -/
theorem Parameters.text_inj {p p' : Parameters} (hgroup : p.groupFunction = p'.groupFunction)
    (hitem : p.itemFunction = p'.itemFunction) (h : p.text = p'.text) :
    orUnset p.groups = orUnset p'.groups ∧ p.key = p'.key ∧ p.period.seconds = p'.period.seconds := by
  have hlist := String.ofList_injective h
  simp only [hgroup, hitem, List.append_assoc, List.cons_append, List.append_cancel_left_eq, List.cons_inj_right] at hlist
  obtain ⟨hgroups, hlist⟩ := groupsText_inj hlist
  obtain ⟨hkey, hlist⟩ := Json.quote_append_inj.mp (List.tail_eq_of_cons_eq hlist)
  simp only [List.cons_inj_right, List.append_cancel_left_eq, List.append_cancel_right_eq] at hlist
  refine ⟨hgroups, hkey, ?_⟩
  rw [← Period.seconds_compress p.period, Period.text_injective (String.toList_inj.mp hlist), Period.seconds_compress]

/-! ## Building a key -/

/-- The inputs that are given as groups. -/
def groupInputs (fields : Fields) : List Input :=
  match fields.get? "groups" with
  | none | some .null => []
  | some (.list items) => items
  | some input => [input]

/-- The value that is given as the period; none is a count of no seconds. -/
def PeriodGiven (fields : Fields) (v : Value) : Prop :=
  match fields.get? "timeperiod" with
  | none | some .null => v = .int 0
  | some input => input = .value v

/-- Whether the fields of an aggregate item give some parameters. -/
structure Gives (view : EntityView) (fields : Fields) (p : Parameters) : Prop where
  groups : ∃ names, (groupInputs fields).mapM (groupName view) = .ok names ∧ Node.EachOnce names p.groups
  groupFunction : ∃ text?, textOf view fields "groupfunc" = .ok text? ∧ p.groupFunction = text?.getD "grpavg"
  itemFunction : ∃ text?, textOf view fields "itemfunc" = .ok text? ∧ p.itemFunction = text?.getD "avg"
  key : ∃ text?, textOf view fields "key" = .ok text? ∧ p.key = text?.getD ""
  period : ∃ v, PeriodGiven fields v ∧ Period.ofValue v = .ok p.period

/-- The fields that only serve to build the key. -/
def parameterFields : List String := ["groups", "groupfunc", "itemfunc", "timeperiod"]

theorem groupsOf_eq_ok (h : groupsOf view fields = .ok names) :
    ∃ given, (groupInputs fields).mapM (groupName view) = .ok given ∧ Node.EachOnce given names := by
  change ((groupInputs fields).mapM (groupName view)).map Node.firstSeen = .ok names at h
  cases hgiven : (groupInputs fields).mapM (groupName view) with
  | error err =>
      rw [hgiven] at h
      cases h
  | ok given =>
      rw [hgiven] at h
      cases h
      exact ⟨given, rfl, Node.eachOnce_firstSeen given⟩

theorem periodOf_eq_ok {text : String} (h : periodOf view fields = .ok text) :
    ∃ v p, PeriodGiven fields v ∧ Period.ofValue v = .ok p ∧ text = p.compress.text := by
  obtain ⟨v, hgiven, hformat⟩ : ∃ v, PeriodGiven fields v ∧ Period.format v = .ok text := by
    unfold periodOf at h
    unfold PeriodGiven
    split at h
    case h_4 => cases h
    all_goals
      simp only [pure_bind] at h
      split at h <;> cases h
      refine ⟨_, ?_, by assumption⟩
      simp only [*]
  cases hp : Period.ofValue v with
  | error err =>
      rw [Period.format, hp] at hformat
      cases hformat
  | ok p =>
      rw [Period.format_eq hp] at hformat
      cases hformat
      exact ⟨v, p, hgiven, hp, rfl⟩

/-- What is accepted gives parameters, and gets their key in their place. -/
theorem buildKey_eq_ok (h : buildKey view fields = .ok built) : ∃ p, Gives view fields p ∧
    built = ((((withoutParameters fields).erase "key").insert "key" (.text p.text)).setDefault "type"
      (.int 8)).setDefault "data_type" (.text "decimal") := by
  unfold buildKey at h
  obtain ⟨groups, hgroups, h⟩ := bind_eq_ok h
  obtain ⟨groupFunction, hgroup, h⟩ := bind_eq_ok h
  obtain ⟨itemFunction, hitem, h⟩ := bind_eq_ok h
  obtain ⟨text, hperiod, h⟩ := bind_eq_ok h
  obtain ⟨key, hkey, h⟩ := bind_eq_ok h
  obtain ⟨v, period, hgiven, hv, rfl⟩ := periodOf_eq_ok hperiod
  cases h
  exact ⟨⟨groups, groupFunction.getD "grpavg", key.getD "", itemFunction.getD "avg", period⟩,
    ⟨groupsOf_eq_ok hgroups, ⟨_, hgroup, rfl⟩, ⟨_, hitem, rfl⟩, ⟨_, hkey, rfl⟩, ⟨v, hgiven, hv⟩⟩, rfl⟩

theorem withoutParameters_eq (fields : Fields) : withoutParameters fields = parameterFields.foldl Entries.erase fields :=
  rfl

/-- Nothing that only serves to build the key is left. -/
theorem contains_buildKey (hfields : fields.keys.Nodup) (h : buildKey view fields = .ok built) :
    ∀ key ∈ parameterFields, built.contains key = false := by
  obtain ⟨p, _, rfl⟩ := buildKey_eq_ok h
  intro key hkey
  have hne : key ≠ "key" ∧ key ≠ "type" ∧ key ≠ "data_type" := by
    revert key
    decide
  rw [Entries.contains_setDefault_of_ne hne.2.2, Entries.contains_setDefault_of_ne hne.2.1,
    Entries.contains_insert_of_ne hne.1, withoutParameters_eq]
  exact Entries.contains_erase (Entries.contains_foldl_erase hfields hkey) _

theorem get?_buildKey (h : buildKey view fields = .ok built) :
    ∃ p, Gives view fields p ∧ built.get? "key" = some (.text p.text) := by
  obtain ⟨p, hp, rfl⟩ := buildKey_eq_ok h
  refine ⟨p, hp, ?_⟩
  rw [Entries.get?_setDefault_of_ne (by decide), Entries.get?_setDefault_of_ne (by decide), Entries.get?_insert_self]

/-- Of two items with the same functions and the same key, the groups are the same, each once in the order in which they
are first given, and the item and the seconds of the period are the same; and no parameter is left. -/
theorem buildKey_tells (hfields : fields.keys.Nodup) (hfields' : fields'.keys.Nodup)
    (h : buildKey view fields = .ok built) (h' : buildKey view' fields' = .ok built') :
    (∃ p p', Gives view fields p ∧ Gives view' fields' p' ∧
      (p.groupFunction = p'.groupFunction → p.itemFunction = p'.itemFunction → built.get? "key" = built'.get? "key" →
        orUnset p.groups = orUnset p'.groups ∧ p.key = p'.key ∧ p.period.seconds = p'.period.seconds)) ∧
      ∀ key ∈ parameterFields, built.contains key = false ∧ built'.contains key = false := by
  refine ⟨?_, fun key hkey => ⟨contains_buildKey hfields h key hkey, contains_buildKey hfields' h' key hkey⟩⟩
  obtain ⟨p, hp, hkey⟩ := get?_buildKey h
  obtain ⟨p', hp', hkey'⟩ := get?_buildKey h'
  refine ⟨p, p', hp, hp', fun hgroup hitem hsame => Parameters.text_inj hgroup hitem ?_⟩
  rw [hkey, hkey'] at hsame
  exact Value.text.inj (Input.value.inj (Option.some.inj hsame))

/-- A view of no entities. -/
def noEntities : EntityView := ⟨fun _ => "", fun _ => none⟩

def ungrouped : Fields := ⟨[("key", .text "net.if.in"), ("timeperiod", .int 3600)]⟩

def unsetGrouped : Fields :=
  ⟨[("timeperiod", .text "60m"), ("groups", .list [.text "<not set>"]), ("key", .text "net.if.in")]⟩

/-- No group and the group that says so make one key, and so do an hour in seconds and in minutes. -/
theorem buildKey_tells_unset : ∃ built, buildKey noEntities ungrouped = .ok built ∧
    buildKey noEntities unsetGrouped = .ok built ∧
    built.get? "key" = some (.text "grpavg[\"<not set>\",\"net.if.in\",avg,1h]") ∧
    (∃ p p', Gives noEntities ungrouped p ∧ Gives noEntities unsetGrouped p' ∧
      orUnset p.groups = orUnset p'.groups ∧ p.key = p'.key ∧ p.period.seconds = p'.period.seconds) ∧
    ∀ key ∈ parameterFields, built.contains key = false := by
  have h : buildKey noEntities ungrouped = .ok ⟨[("key", .text "grpavg[\"<not set>\",\"net.if.in\",avg,1h]"),
      ("type", .int 8), ("data_type", .text "decimal")]⟩ := by rfl
  have h' : buildKey noEntities unsetGrouped = .ok ⟨[("key", .text "grpavg[\"<not set>\",\"net.if.in\",avg,1h]"),
      ("type", .int 8), ("data_type", .text "decimal")]⟩ := by rfl
  obtain ⟨⟨p, p', hp, hp', htell⟩, hnone⟩ := buildKey_tells (by decide) (by decide) h h'
  obtain ⟨_, hgroup, hg⟩ := hp.groupFunction
  obtain ⟨_, hgroup', hg'⟩ := hp'.groupFunction
  obtain ⟨_, hitem, hi⟩ := hp.itemFunction
  obtain ⟨_, hitem', hi'⟩ := hp'.itemFunction
  cases (show Except.ok none = Except.ok _ from hgroup)
  cases (show Except.ok none = Except.ok _ from hgroup')
  cases (show Except.ok none = Except.ok _ from hitem)
  cases (show Except.ok none = Except.ok _ from hitem')
  exact ⟨_, h, h', rfl, ⟨p, p', hp, hp', htell (hg.trans hg'.symm) (hi.trans hi'.symm) rfl⟩,
    fun key hkey => (hnone key hkey).1⟩

end MonitorExport.Aggregate
