import Mathlib.Data.List.TakeWhile
import MonitorExport.Catalogue.Address
import MonitorExport.Proofs.Entries
import MonitorExport.Proofs.Schema.Ancestry
import MonitorExport.Proofs.Text.Digits

/-!
# Addresses of interfaces

An address is a host, with or without a port, and `Divides` says which. What is written in brackets ends at the first
closing bracket, and what follows that without a colon goes to nothing. A port is any whole number of 64 bits.
-/

namespace MonitorExport

namespace Text

variable {sep c : Char} {cs before after : List Char} {n : Int}

/-! ## Cutting -/

theorem splitFirst_append (h : sep ∉ before) : splitFirst sep (before ++ sep :: after) = some (before, after) := by
  have hne : ∀ c ∈ before, decide (c ≠ sep) = true := fun c hc => decide_eq_true fun he => h (he ▸ hc)
  unfold splitFirst
  rw [List.dropWhile_append_of_pos hne, List.takeWhile_append_of_pos hne]
  simp

theorem splitFirst_eq_none_iff : splitFirst sep cs = none ↔ sep ∉ cs := by
  refine ⟨fun h hmem => ?_, fun h => ?_⟩
  · obtain ⟨before, after, rfl, hbefore⟩ := List.eq_append_cons_of_mem hmem
    rw [splitFirst_append hbefore] at h
    cases h
  · have hdrop : cs.dropWhile (fun c => decide (c ≠ sep)) = [] :=
      List.dropWhile_eq_nil_iff.mpr fun c hc => decide_eq_true fun he => h (he ▸ hc)
    rw [splitFirst, hdrop]

theorem splitFirst_eq_some_iff :
    splitFirst sep cs = some (before, after) ↔ cs = before ++ sep :: after ∧ sep ∉ before := by
  refine ⟨fun h => ?_, fun ⟨hcs, hbefore⟩ => hcs ▸ splitFirst_append hbefore⟩
  have hmem : sep ∈ cs := by
    by_contra hmem
    rw [splitFirst_eq_none_iff.mpr hmem] at h
    cases h
  obtain ⟨before, after, rfl, hbefore⟩ := List.eq_append_cons_of_mem hmem
  rw [splitFirst_append hbefore] at h
  cases h
  exact ⟨rfl, hbefore⟩

theorem splitLast_eq_none_iff : splitLast sep cs = none ↔ sep ∉ cs := by
  rw [splitLast, Option.map_eq_none_iff, splitFirst_eq_none_iff, List.mem_reverse]

theorem splitLast_eq_some_iff :
    splitLast sep cs = some (before, after) ↔ cs = before ++ sep :: after ∧ sep ∉ after := by
  rw [splitLast, Option.map_eq_some_iff]
  constructor
  · rintro ⟨⟨head, tail⟩, h, hparts⟩
    cases hparts
    obtain ⟨hcs, hhead⟩ := splitFirst_eq_some_iff.mp h
    exact ⟨by simpa using congrArg List.reverse hcs, by simpa using hhead⟩
  · rintro ⟨rfl, hafter⟩
    exact ⟨(after.reverse, before.reverse), splitFirst_eq_some_iff.mpr (by simpa using hafter), by simp⟩

theorem mem_splitAt (separates : Char → Bool) (hc : c ∈ cs) (hsep : separates c = false) :
    ∃ part ∈ splitAt separates cs, c ∈ part := by
  induction cs with
  | nil => cases hc
  | cons d rest ih =>
      rw [splitAt]
      split
      · next hd =>
        have hrest : c ∈ rest := (List.mem_cons.mp hc).resolve_left fun he => by simp_all
        obtain ⟨part, hpart, hmem⟩ := ih hrest
        exact ⟨part, List.mem_cons_of_mem _ hpart, hmem⟩
      · rcases List.mem_cons.mp hc with rfl | hrest
        · split <;> exact ⟨_, List.mem_cons_self, List.mem_cons_self⟩
        · obtain ⟨part, hpart, hmem⟩ := ih hrest
          split
          · next first parts hparts =>
            rw [hparts] at hpart
            rcases List.mem_cons.mp hpart with rfl | hpart
            · exact ⟨_, List.mem_cons_self, List.mem_cons_of_mem _ hmem⟩
            · exact ⟨part, List.mem_cons_of_mem _ hpart, hmem⟩
          · next hparts =>
            rw [hparts] at hpart
            cases hpart

/-! ## Numerals -/

/-- A text that writes a whole number in decimal, with or without a sign. -/
inductive Numeral : List Char → Int → Prop
  | unsigned {digits : List Char} : IsDigits digits → Numeral digits (decimal digits)
  | positive {digits : List Char} : IsDigits digits → Numeral ('+' :: digits) (decimal digits)
  | negative {digits : List Char} : IsDigits digits → Numeral ('-' :: digits) (-decimal digits)

theorem readNat_eq_some_iff {n : Nat} : readNat cs = some n ↔
    (∃ digits, cs = '+' :: digits ∧ IsDigits digits ∧ n = decimal digits) ∨ IsDigits cs ∧ n = decimal cs := by
  unfold readNat
  split
  · next digits =>
    rw [readDigits_eq_some_iff]
    have hplus : ¬ IsDigits ('+' :: digits) := fun h => absurd (h.2 '+' List.mem_cons_self) (by decide)
    simp [hplus]
  · next hcs =>
    rw [readDigits_eq_some_iff]
    exact ⟨.inr, fun h => h.resolve_left fun ⟨digits, he, _⟩ => hcs digits he⟩

theorem readInt_eq_some_iff : readInt cs = some n ↔ Numeral cs n := by
  unfold readInt
  split
  · next digits =>
    simp only [Option.map_eq_some_iff, Option.bind_eq_bind, Option.bind_eq_some_iff, Option.pure_def,
      Option.some.injEq]
    constructor
    · rintro ⟨_, ⟨m, hm, rfl⟩, rfl⟩
      obtain ⟨hdigits, rfl⟩ := readDigits_eq_some_iff.mp hm
      exact .negative hdigits
    · rintro (hdigits | _ | hdigits)
      · exact absurd (hdigits.2 '-' List.mem_cons_self) (by decide)
      · exact ⟨_, ⟨_, readDigits_eq_some_iff.mpr ⟨hdigits, rfl⟩, rfl⟩, rfl⟩
  · next hcs =>
    rw [Option.map_eq_some_iff]
    constructor
    · rintro ⟨m, hm, rfl⟩
      rcases readNat_eq_some_iff.mp hm with ⟨digits, rfl, hdigits, rfl⟩ | ⟨hdigits, rfl⟩
      · exact .positive hdigits
      · exact .unsigned hdigits
    · rintro (hdigits | hdigits | hdigits)
      · exact ⟨_, readNat_eq_some_iff.mpr (.inr ⟨hdigits, rfl⟩), rfl⟩
      · exact ⟨_, readNat_eq_some_iff.mpr (.inl ⟨_, rfl, hdigits, rfl⟩), rfl⟩
      · exact absurd rfl (hcs _)

theorem readInt64_eq_some_iff : readInt64 cs = some n ↔ Numeral cs n ∧ int64Min ≤ n ∧ n ≤ int64Max := by
  simp [readInt64, Option.filter_eq_some_iff, readInt_eq_some_iff]

end Text

namespace Address

variable {cs host text rest : List Char} {port : Option (List Char)} {input : Input} {fields : Fields}
  {address : String}

/-! ## Literals -/

/-- The characters that IP literals are written in. -/
def isLiteralChar (c : Char) : Bool :=
  isHexDigit c || c = ':' || c = '.'

theorem isLiteralChar_of_isIPv4 (h : isIPv4 cs = true) : ∀ c ∈ cs, isLiteralChar c = true := by
  intro c hc
  by_cases hpoint : c = '.'
  · simp [isLiteralChar, hpoint]
  · obtain ⟨part, hpart, hmem⟩ := Text.mem_splitAt (· = '.') hc (decide_eq_false hpoint)
    simp only [isIPv4, Bool.and_eq_true, List.all_eq_true] at h
    have hoctet := h.2 part hpart
    unfold isOctet at hoctet
    split at hoctet
    · next n hn =>
      have hdigit := (Text.readDigits_eq_some_iff.mp hn).1.2 c hmem
      simp [isLiteralChar, isHexDigit, hdigit]
    · simp at hoctet

theorem isLiteralChar_of_countGroups {embedded : Bool} {parts : List (List Char)} {n : Nat}
    (h : countGroups embedded parts = some n) : ∀ part ∈ parts, ∀ c ∈ part, isLiteralChar c = true := by
  have hgroup : ∀ part, isGroup part = true → ∀ c ∈ part, isLiteralChar c = true := fun part hpart c hc => by
    simp only [isGroup, Bool.and_eq_true, List.all_eq_true] at hpart
    simp [isLiteralChar, hpart.2 c hc]
  fun_induction countGroups embedded parts generalizing n with
  | case1 => simp
  | case2 part hpart => simpa using hgroup part hpart
  | case3 part _ hpart =>
    simp only [Bool.and_eq_true] at hpart
    simpa using isLiteralChar_of_isIPv4 hpart.2
  | case4 => cases h
  | case5 part rest _ hpart ih =>
    obtain ⟨m, hm, _⟩ := Option.map_eq_some_iff.mp h
    exact List.forall_mem_cons.mpr ⟨hgroup part hpart, ih hm⟩
  | case6 => cases h

theorem isLiteralChar_of_groups {embedded : Bool} {n : Nat} (h : groups embedded cs = some n) :
    ∀ c ∈ cs, isLiteralChar c = true := by
  intro c hc
  by_cases hcolon : c = ':'
  · simp [isLiteralChar, hcolon]
  · rw [groups, if_neg (List.ne_nil_of_mem hc)] at h
    obtain ⟨part, hpart, hmem⟩ := Text.mem_splitAt (· = ':') hc (decide_eq_false hcolon)
    exact isLiteralChar_of_countGroups h part hpart c hmem

theorem splitGap_eq_some {head tail : List Char} (h : splitGap cs = some (head, tail)) :
    cs = head ++ ':' :: ':' :: tail := by
  fun_induction splitGap cs generalizing head with
  | case1 => cases h; rfl
  | case2 c rest _ ih =>
    obtain ⟨⟨head', tail'⟩, hgap, hparts⟩ := Option.map_eq_some_iff.mp h
    cases hparts
    rw [ih hgap]
    rfl
  | case3 => cases h

theorem isLiteralChar_of_isLiteral (h : isLiteral cs = true) : ∀ c ∈ cs, isLiteralChar c = true := by
  rcases Bool.or_eq_true_iff.mp h with h | h
  · exact isLiteralChar_of_isIPv4 h
  · unfold isIPv6 at h
    split at h
    · exact isLiteralChar_of_groups (of_decide_eq_true h)
    · next head tail hgap =>
      split at h
      · next hhead htail =>
        rw [splitGap_eq_some hgap]
        simp only [List.forall_mem_append, List.forall_mem_cons]
        exact ⟨isLiteralChar_of_groups hhead, rfl, rfl, isLiteralChar_of_groups htail⟩
      · cases h

theorem isLiteral_bracketed (rest : List Char) : isLiteral ('[' :: rest) = false :=
  Bool.eq_false_iff.mpr fun h => absurd (isLiteralChar_of_isLiteral h '[' List.mem_cons_self) (by decide)

/-! ## Hosts and ports -/

/-- An opening bracket that is closed. -/
def Bracketed (cs : List Char) : Prop :=
  ∃ host rest, cs = '[' :: (host ++ ']' :: rest)

/-- An address, its host and the text of its port, if it has one. -/
inductive Divides : List Char → List Char → Option (List Char) → Prop
  /-- A literal is a host, even where its last group could be a port. -/
  | literal {host : List Char} : isLiteral host = true → Divides host host none
  | name {host : List Char} : ¬ Bracketed host → ':' ∉ host → Divides host host none
  | ported {host port : List Char} : isLiteral (host ++ ':' :: port) = false → ¬ Bracketed (host ++ ':' :: port) →
      ':' ∉ port → Divides (host ++ ':' :: port) host (some port)
  /-- The rest is dropped. -/
  | bracketed {host rest : List Char} : ']' ∉ host → (∀ port, rest ≠ ':' :: port) →
      Divides ('[' :: (host ++ ']' :: rest)) host none
  | bracketedPorted {host port : List Char} : ']' ∉ host →
      Divides ('[' :: (host ++ ']' :: ':' :: port)) host (some port)

theorem splitBracketed_eq_none (h : ¬ Bracketed cs) : splitBracketed cs = none := by
  unfold splitBracketed
  split
  · next inner =>
    rw [Option.map_eq_none_iff, Text.splitFirst_eq_none_iff]
    intro hmem
    obtain ⟨host, rest, rfl⟩ := List.mem_iff_append.mp hmem
    exact h ⟨host, rest, rfl⟩
  · rfl

theorem split_literal (h : isLiteral cs = true) : split cs = (cs, none) := by
  rw [split, if_pos h]

theorem split_ported (hliteral : isLiteral (host ++ ':' :: text) = false) (hb : ¬ Bracketed (host ++ ':' :: text))
    (htext : ':' ∉ text) : split (host ++ ':' :: text) = (host, some text) := by
  have hlast : Text.splitLast ':' (host ++ ':' :: text) = some (host, text) :=
    Text.splitLast_eq_some_iff.mpr ⟨rfl, htext⟩
  simp only [split, hliteral, splitBracketed_eq_none hb, hlast]
  rfl

theorem split_name (hb : ¬ Bracketed cs) (hcolon : ':' ∉ cs) : split cs = (cs, none) := by
  simp only [split, splitBracketed_eq_none hb, Text.splitLast_eq_none_iff.mpr hcolon, ite_self]

theorem split_bracketed (hhost : ']' ∉ host) (hrest : ∀ port, rest ≠ ':' :: port) :
    split ('[' :: (host ++ ']' :: rest)) = (host, none) := by
  simp only [split, isLiteral_bracketed, splitBracketed, Text.splitFirst_append hhost, Option.map_some]
  rfl

theorem split_bracketedPorted (hhost : ']' ∉ host) :
    split ('[' :: (host ++ ']' :: ':' :: text)) = (host, some text) := by
  simp only [split, isLiteral_bracketed, splitBracketed, Text.splitFirst_append hhost, Option.map_some]
  rfl

theorem Divides.split_eq (h : Divides cs host port) : split cs = (host, port) := by
  cases h with
  | literal hliteral => exact split_literal hliteral
  | name hb hcolon => exact split_name hb hcolon
  | ported hliteral hb hport => exact split_ported hliteral hb hport
  | bracketed hhost hrest => exact split_bracketed hhost hrest
  | bracketedPorted hhost => exact split_bracketedPorted hhost

theorem Divides.unique {host' : List Char} {port' : Option (List Char)} (h : Divides cs host port)
    (h' : Divides cs host' port') : host = host' ∧ port = port' :=
  Prod.mk.inj (h.split_eq.symm.trans h'.split_eq)

theorem exists_divides (cs : List Char) : ∃ host port, Divides cs host port := by
  by_cases hliteral : isLiteral cs = true
  · exact ⟨_, _, .literal hliteral⟩
  by_cases hb : Bracketed cs
  · obtain ⟨_, _, rfl⟩ := hb
    obtain ⟨host, rest, hcs, hhost⟩ := List.eq_append_cons_of_mem (List.mem_append_right _ List.mem_cons_self)
    rw [hcs]
    by_cases hrest : ∃ port, rest = ':' :: port
    · obtain ⟨port, rfl⟩ := hrest
      exact ⟨_, _, .bracketedPorted hhost⟩
    · exact ⟨_, _, .bracketed hhost fun port he => hrest ⟨port, he⟩⟩
  by_cases hcolon : ':' ∈ cs
  · obtain ⟨⟨host, port⟩, hlast⟩ := Option.ne_none_iff_exists'.mp fun h => Text.splitLast_eq_none_iff.mp h hcolon
    obtain ⟨rfl, hport⟩ := Text.splitLast_eq_some_iff.mp hlast
    exact ⟨_, _, .ported (Bool.eq_false_iff.mpr hliteral) hb hport⟩
  · exact ⟨_, _, .name hb hcolon⟩

/-! ## Fields -/

/-- What a text of a port gives for the field `port`. -/
inductive GivesPort : Option (List Char) → Input → Prop
  | absent : GivesPort none (.text "")
  | number {text : List Char} {n : Int} : Text.Numeral text n → Text.int64Min ≤ n → n ≤ Text.int64Max →
      GivesPort (some text) (.int n)

/-- The fields that an address stands for. -/
def given (host : String) (port : Input) : List (String × Input) :=
  let (ip, dns) := if isLiteral host.toList then (host, "") else ("", host)
  [("ip", .text ip), ("dns", .text dns), ("port", port), ("useip", .value (.bool (dns = "")))]

theorem portInput_eq_ok_iff : portInput port = .ok input ↔ GivesPort port input := by
  constructor
  · intro h
    unfold portInput at h
    split at h
    · cases h
      exact .absent
    · split at h
      · next n hn =>
        cases h
        obtain ⟨hnumeral, hmin, hmax⟩ := Text.readInt64_eq_some_iff.mp hn
        exact .number hnumeral hmin hmax
      · cases h
  · rintro (_ | ⟨hnumeral, hmin, hmax⟩)
    · rfl
    · simp only [portInput, Text.readInt64_eq_some_iff.mpr ⟨hnumeral, hmin, hmax⟩]

theorem portInput_eq_error_iff {e : ConfigError} : portInput port = .error e ↔
    ∃ text, port = some text ∧ (∀ input, ¬ GivesPort port input) ∧ e = failure (.notPort (String.ofList text)) := by
  simp only [← portInput_eq_ok_iff]
  cases port with
  | none => simp [portInput]
  | some text =>
      rw [portInput]
      split
      · simp
      · simp [eq_comm]

theorem setDefaults_fresh (hip : fields.contains "ip" = false) (hdns : fields.contains "dns" = false)
    (hport : fields.contains "port" = false) (ip dns port : Input) :
    ((fields.setDefault "ip" ip).setDefault "dns" dns).setDefault "port" port =
      ⟨fields.pairs ++ [("ip", ip), ("dns", dns), ("port", port)]⟩ := by
  have hdns' : (⟨fields.pairs ++ [("ip", ip)]⟩ : Fields).contains "dns" = false := by
    rw [Entries.contains_append, hdns]
    rfl
  have hport' : (⟨fields.pairs ++ [("ip", ip)] ++ [("dns", dns)]⟩ : Fields).contains "port" = false := by
    rw [List.append_assoc, Entries.contains_append, hport]
    rfl
  rw [Entries.setDefault_fresh hip, Entries.setDefault_fresh hdns', Entries.setDefault_fresh hport']
  simp

theorem expandText_eq (habsent : ∀ key ∈ ["ip", "dns", "port", "useip"], fields.contains key = false)
    (hd : Divides address.toList host port) : expandText address fields =
      (portInput port).map fun input => ⟨fields.pairs ++ given (String.ofList host) input⟩ := by
  simp only [List.forall_mem_cons] at habsent
  obtain ⟨hip, hdns, hport, huseip, _⟩ := habsent
  have hnil : (decide (host ≠ []) && isLiteral host) = isLiteral host := by
    cases host <;> rfl
  have huseip' : ∀ ip dns port : Input, (⟨fields.pairs ++ [("ip", ip), ("dns", dns), ("port", port)]⟩ : Fields).contains
      "useip" = false := fun ip dns port => by
    rw [Entries.contains_append, huseip]
    rfl
  unfold expandText
  cases hinput : portInput port with
  | error e => simp [hd.split_eq, hinput, bind, Except.bind, Except.map]
  | ok input =>
      simp only [hd.split_eq, hinput, bind, Except.bind, hnil, setDefaults_fresh hip hdns hport,
        Entries.get?_append hdns, Entries.setDefault_fresh (huseip' ..)]
      cases hl : isLiteral host <;>
        simp [given, hl, Except.map, pure, Except.pure, Entries.get?, Input.text, Value.render]

/-- An interface gets the host and the port that its address divides into, and is refused exactly if it writes a port
that is no number. -/
theorem expand_reads (view : EntityView) {address : Value} (hident : fields.get? "ident" = some (.value address))
    (habsent : ∀ key ∈ ["ip", "dns", "port", "useip"], fields.contains key = false) :
    (∀ result, expand view fields = .ok result ↔ ∃ host port input, Divides address.render.toList host port ∧
      GivesPort port input ∧ result = ⟨(fields.erase "ident").pairs ++ given (String.ofList host) input⟩) ∧
    (∀ e, expand view fields = .error e ↔ ∃ host text, Divides address.render.toList host (some text) ∧
      (∀ input, ¬ GivesPort (some text) input) ∧ e = failure (.notPort (String.ofList text))) := by
  have hrest : ∀ key ∈ ["ip", "dns", "port", "useip"], (fields.erase "ident").contains key = false :=
    fun key hkey => Entries.contains_erase (habsent key hkey) _
  obtain ⟨host, port, hd⟩ := exists_divides address.render.toList
  have hexpand : expand view fields = (portInput port).map fun input =>
      ⟨(fields.erase "ident").pairs ++ given (String.ofList host) input⟩ := by
    simp only [expand, hident, expandText_eq hrest hd]
  rw [hexpand]
  constructor
  · intro result
    constructor
    · intro h
      obtain ⟨input, hinput, rfl⟩ := Except.map_eq_ok h
      exact ⟨host, port, input, hd, portInput_eq_ok_iff.mp hinput, rfl⟩
    · rintro ⟨host', port', input, hd', hgives, rfl⟩
      obtain ⟨rfl, rfl⟩ := hd.unique hd'
      rw [portInput_eq_ok_iff.mpr hgives]
      rfl
  · intro e
    rw [Except.map_eq_error_iff, portInput_eq_error_iff]
    constructor
    · rintro ⟨text, rfl, hnone, rfl⟩
      exact ⟨host, text, hd, hnone, rfl⟩
    · rintro ⟨host', text, hd', hnone, rfl⟩
      obtain ⟨rfl, rfl⟩ := hd.unique hd'
      exact ⟨text, rfl, hnone, rfl⟩

/-- A view of no entities. -/
def noEntities : EntityView := ⟨fun _ => "", fun _ => none⟩

/-- A literal in brackets with its port, among other fields. -/
theorem expand_reads_bracketed :
    let fields : Fields := ⟨[("ident", .text "[::1]:10050"), ("type", .int 1)]⟩
    fields.get? "ident" = some (.value (.text "[::1]:10050")) ∧
    (∀ key ∈ ["ip", "dns", "port", "useip"], fields.contains key = false) ∧
    expand noEntities fields = .ok ⟨("type", .int 1) :: given "::1" (.int 10050)⟩ := by
  intro fields
  have hident : fields.get? "ident" = some (.value (.text "[::1]:10050")) := rfl
  have habsent : ∀ key ∈ ["ip", "dns", "port", "useip"], fields.contains key = false := by decide
  have hd : Divides "[::1]:10050".toList "::1".toList (some "10050".toList) :=
    @Divides.bracketedPorted "::1".toList "10050".toList (by decide)
  have hport : GivesPort (some "10050".toList) (.int 10050) := portInput_eq_ok_iff.mp rfl
  exact ⟨hident, habsent, ((expand_reads noEntities hident habsent).1 _).mpr ⟨_, _, _, hd, hport, rfl⟩⟩

/-! ## Addresses that are misread -/

/-- How a host and the number of a port are written. -/
def spellings (host : String) : Option Nat → List String
  | none => [host, "[" ++ host ++ "]"]
  | some n => [host ++ ":" ++ toString n, "[" ++ host ++ "]:" ++ toString n]

/-- The result tells a host and a port that are written as the address. -/
def Faithful (address : String) (fields result : Fields) : Prop :=
  ∃ host port, address ∈ spellings host port ∧ (∀ n ∈ port, n ≤ 65535) ∧
    result.pairs = (fields.erase "ident").pairs ++ given host (match port with
      | none => .text ""
      | some n => .int n)

theorem given_injective {host host' : String} {port port' : Input} (h : given host port = given host' port') :
    host = host' ∧ port = port' := by
  have hnil : isLiteral "".toList = false := by decide
  unfold given at h
  cases hl : isLiteral host.toList <;> cases hl' : isLiteral host'.toList <;> simp_all [Input.text]

/-- A port behind the closing bracket is lost if its colon is missing, and a port may be out of range. -/
theorem addresses_misread :
    (¬ ∀ result, expand noEntities ⟨[("ident", .text "[::1]10050")]⟩ = .ok result →
      Faithful "[::1]10050" ⟨[("ident", .text "[::1]10050")]⟩ result) ∧
    (¬ ∀ result, expand noEntities ⟨[("ident", .text "db.local:70000")]⟩ = .ok result →
      Faithful "db.local:70000" ⟨[("ident", .text "db.local:70000")]⟩ result) := by
  constructor
  · intro h
    obtain ⟨host, port, hspelled, _, hpairs⟩ := h ⟨given "::1" (.text "")⟩ rfl
    obtain ⟨rfl, hport⟩ := given_injective (show given "::1" (.text "") = given host _ from hpairs)
    cases port with
    | none => exact absurd hspelled (by decide)
    | some n => cases hport
  · intro h
    obtain ⟨host, port, _, hrange, hpairs⟩ := h ⟨given "db.local" (.int 70000)⟩ rfl
    obtain ⟨_, hport⟩ := given_injective (show given "db.local" (.int 70000) = given host _ from hpairs)
    cases port with
    | none => cases hport
    | some n =>
        have hn : (70000 : Int) = n := by simpa [Input.int] using hport
        have := hrange n rfl
        omega

end Address

end MonitorExport
