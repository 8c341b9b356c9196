import Mathlib.Data.List.Induction
import MonitorExport.Validation.Period

/-!
# Periods in their largest unit

Compressing a period keeps its seconds and ends in the largest unit that divides them. One pass over the steps is
enough: a step that cannot be taken when its turn comes cannot be taken after the steps for larger units either. What a
period is written as is read as the same period again.
-/

namespace MonitorExport

/-! ## Texts without blanks, and numbers in them -/

namespace Text

theorem isDecimalDigit_of_isDigit {c : Char} (h : c.isDigit = true) : isDecimalDigit c = true := by
  rw [Char.isDigit_iff_toNat] at h
  exact (CharSet.contains_iff _ _).mpr ⟨(0x30, 0x39), by simp [decimalDigits], h⟩

theorem isBlank_of_isDigit {c : Char} (h : c.isDigit = true) : isBlank c = false := by
  have hrange : 48 ≤ c.toNat ∧ c.toNat ≤ 57 := Char.isDigit_iff_toNat.mp h
  simp only [isBlank, CharSet.contains, blanks, List.any_cons, List.any_nil, Bool.or_false, Bool.or_eq_false_iff,
    Bool.and_eq_false_iff, decide_eq_false_iff_not]
  omega

theorem trimmed_eq_self {cs : List Char} (h : ∀ c ∈ cs, isBlank c = false) : trimmed cs = cs := by
  have hkeep : ∀ {l : List Char}, (∀ c ∈ l, isBlank c = false) → l.dropWhile isBlank = l := fun {l} hl => by
    cases l with
    | nil => rfl
    | cons c l => rw [List.dropWhile_cons_of_neg (by simp [hl c List.mem_cons_self])]
  rw [trimmed, hkeep h, hkeep fun c hc => h c (List.mem_reverse.mp hc), List.reverse_reverse]

theorem toList_toString (n : Nat) : (toString n).toList = Nat.toDigits 10 n := by
  rw [Nat.toString_eq_ofList_toDigits, String.toList_ofList]

theorem isDigit_toString {n : Nat} {c : Char} (h : c ∈ (toString n).toList) : c.isDigit = true :=
  Nat.isDigit_of_mem_toDigits (by decide) (by decide) (toList_toString n ▸ h)

/-- A number is read from the digits that write it. -/
theorem readDigits_toString (n : Nat) : readDigits (toString n).toList = some n := by
  have hdigits : (toString n).toList ≠ [] ∧ (toString n).toList.all Char.isDigit = true :=
    ⟨by rw [toList_toString]; exact Nat.toDigits_ne_nil, List.all_eq_true.mpr fun _ => isDigit_toString⟩
  rw [readDigits, if_pos hdigits, toList_toString]
  exact congrArg some (Nat.ofDigitChars_eq_foldl.symm.trans Nat.ofDigitChars_ten_toDigits)

theorem readNat64_toString {n : Nat} (h : n < int64Count) : readNat64 (toString n).toList = some n := by
  have hread : readNat (toString n).toList = some n := by
    unfold readNat
    split
    · next digits hplus => exact absurd (isDigit_toString (hplus ▸ List.mem_cons_self)) (by decide)
    · exact readDigits_toString n
  rw [readNat64, hread, Option.filter_some, if_pos (decide_eq_true h)]

end Text

/-! ## Units -/

namespace TimeUnit

theorem ofLetter?_letter (u : TimeUnit) : ofLetter? u.letter = some u := by
  cases u <;> rfl

theorem isDecimalDigit_letter (u : TimeUnit) : Text.isDecimalDigit u.letter = false := by
  cases u <;> decide

theorem isBlank_letter (u : TimeUnit) : Text.isBlank u.letter = false := by
  cases u <;> decide

theorem letter_injective : Function.Injective letter := fun u v h =>
  Option.some.inj ((ofLetter?_letter u).symm.trans ((congrArg ofLetter? h).trans (ofLetter?_letter v)))

theorem seconds_pos (u : TimeUnit) : 0 < u.seconds := by
  cases u <;> decide

theorem seconds_steps : ∀ step ∈ steps, step.2.1.seconds = step.2.2 * step.1.seconds := by
  decide

/-- A step leads to another unit, and no later step leads to its smaller unit or from it. -/
theorem steps_rise : (∀ step ∈ steps, step.2.1 ≠ step.1) ∧
    steps.Pairwise fun step later => later.1 ≠ step.1 ∧ later.2.1 ≠ step.1 := by
  decide

/-- From a unit that is not the largest there is a step, and the unit that it leads to divides all larger ones. -/
theorem exists_step {u v : TimeUnit} (h : u.seconds < v.seconds) :
    ∃ step ∈ steps, step.1 = u ∧ step.2.1.seconds ∣ v.seconds := by
  cases u <;> cases v <;> first | exact absurd h (by decide) | decide

end TimeUnit

namespace Period

open TimeUnit

variable {p q : Period} {v : Value}

/-! ## Steps -/

theorem grow_eq (p : Period) (step : TimeUnit × TimeUnit × Nat) : p.grow step =
    if p.unit = step.1 ∧ p.amount % step.2.2 = 0 ∧ p.amount ≠ 0 then ⟨p.amount / step.2.2, step.2.1⟩ else p := rfl

theorem seconds_grow (p : Period) {step : TimeUnit × TimeUnit × Nat} (h : step ∈ steps) :
    (p.grow step).seconds = p.seconds := by
  rw [grow_eq]
  split
  · next hp =>
    obtain ⟨hunit, hdvd, _⟩ := hp
    rw [seconds, seconds, seconds_steps step h, hunit, ← Nat.mul_assoc, Nat.div_mul_cancel (Nat.dvd_of_mod_eq_zero hdvd)]
  · rfl

theorem amount_grow_le (p : Period) (step : TimeUnit × TimeUnit × Nat) : (p.grow step).amount ≤ p.amount := by
  rw [grow_eq]
  split
  · exact Nat.div_le_self ..
  · exact Nat.le_refl _

/-- A period of another unit does not take a step. -/
theorem grow_of_ne {step : TimeUnit × TimeUnit × Nat} (h : p.unit ≠ step.1) : p.grow step = p :=
  if_neg fun hp => h hp.1

theorem unit_grow (p : Period) (step : TimeUnit × TimeUnit × Nat) :
    (p.grow step).unit = step.2.1 ∨ p.grow step = p := by
  rw [grow_eq]
  split
  · exact .inl rfl
  · exact .inr rfl

/-- No step is taken twice in a row. -/
theorem grow_grow {step : TimeUnit × TimeUnit × Nat} (h : step.2.1 ≠ step.1) :
    (p.grow step).grow step = p.grow step := by
  rcases unit_grow p step with hunit | hsame
  · exact grow_of_ne (hunit ▸ h)
  · rw [hsame, hsame]

/-- A step that cannot be taken cannot be taken after one that has nothing to do with its smaller unit. -/
theorem grow_later {step later : TimeUnit × TimeUnit × Nat} (hq : q.grow step = q) (hfrom : later.1 ≠ step.1)
    (hto : later.2.1 ≠ step.1) : (q.grow later).grow step = q.grow later := by
  by_cases hunit : q.unit = step.1
  · rw [grow_of_ne fun h => hfrom (h.symm.trans hunit), hq]
  · rcases unit_grow q later with hlater | hsame
    · exact grow_of_ne (hlater ▸ hto)
    · rw [hsame, hq]

/-- After one pass over steps that rise none of them can be taken. -/
theorem grow_foldl {path : List (TimeUnit × TimeUnit × Nat)} (hne : ∀ step ∈ path, step.2.1 ≠ step.1)
    (hrise : path.Pairwise fun step later => later.1 ≠ step.1 ∧ later.2.1 ≠ step.1) (p : Period) :
    ∀ step ∈ path, (path.foldl grow p).grow step = path.foldl grow p := by
  induction path using List.reverseRecOn with
  | nil => simp
  | append_singleton path last ih =>
      obtain ⟨hpath, _, hlast⟩ := List.pairwise_append.mp hrise
      rw [List.foldl_append]
      intro step hstep
      rcases List.mem_append.mp hstep with hstep | hstep
      · obtain ⟨hfrom, hto⟩ := hlast step hstep last List.mem_cons_self
        exact grow_later (ih (fun s hs => hne s (List.mem_append_left _ hs)) hpath step hstep) hfrom hto
      · cases List.mem_singleton.mp hstep
        exact grow_grow (hne last (List.mem_append_right _ List.mem_cons_self))

/-! ## Compressing -/

theorem grow_compress (p : Period) : ∀ step ∈ steps, p.compress.grow step = p.compress :=
  grow_foldl steps_rise.1 steps_rise.2 p

@[simp] theorem compress_compress (p : Period) : p.compress.compress = p.compress :=
  List.foldlRecOn (motive := (· = p.compress)) steps grow rfl fun q hq step hstep => by
    rw [hq, grow_compress p step hstep]

@[simp] theorem seconds_compress (p : Period) : p.compress.seconds = p.seconds :=
  List.foldlRecOn (motive := (·.seconds = p.seconds)) steps grow rfl fun q hq _ hstep =>
    (seconds_grow q hstep).trans hq

theorem amount_compress_le (p : Period) : p.compress.amount ≤ p.amount :=
  List.foldlRecOn (motive := (·.amount ≤ p.amount)) steps grow (Nat.le_refl _) fun q hq _ _ =>
    Nat.le_trans (amount_grow_le q _) hq

theorem seconds_eq_zero : p.seconds = 0 ↔ p.amount = 0 := by
  rw [seconds, Nat.mul_eq_zero, or_iff_left (Nat.ne_of_gt (seconds_pos p.unit))]

theorem dvd_seconds (p : Period) : p.unit.seconds ∣ p.seconds := Nat.dvd_mul_left ..

/-- Where no step can be taken, no larger unit divides the period. -/
theorem seconds_le_of_dvd (hq : ∀ step ∈ steps, q.grow step = q) (h0 : q.amount ≠ 0) {u : TimeUnit}
    (hu : u.seconds ∣ q.seconds) : u.seconds ≤ q.unit.seconds := by
  refine Nat.le_of_not_lt fun hlt => ?_
  obtain ⟨step, hstep, hunit, hdvd⟩ := exists_step hlt
  have hcount : step.2.2 * q.unit.seconds ∣ q.amount * q.unit.seconds := by
    rw [← hunit, ← seconds_steps step hstep, hunit]
    exact Nat.dvd_trans hdvd hu
  have hmod : q.amount % step.2.2 = 0 :=
    Nat.mod_eq_zero_of_dvd (Nat.dvd_of_mul_dvd_mul_right (seconds_pos _) hcount)
  have htaken : (q.grow step).unit = step.2.1 := by
    rw [grow_eq, if_pos ⟨hunit.symm, hmod, h0⟩]
  rw [hq step hstep] at htaken
  exact steps_rise.1 step hstep (htaken.symm.trans hunit.symm)

/-- The unit of a compressed period is the largest one that divides it. -/
theorem seconds_le_compress (h0 : p.amount ≠ 0) {u : TimeUnit} (hu : u.seconds ∣ p.seconds) :
    u.seconds ≤ p.compress.unit.seconds := by
  refine seconds_le_of_dvd (grow_compress p) (fun hzero => h0 ?_) (by rwa [seconds_compress])
  rw [← seconds_eq_zero, ← seconds_compress, seconds_eq_zero, hzero]

/-! ## Writing and reading -/

theorem toList_text (p : Period) : p.text.toList = (toString p.amount).toList ++ [p.unit.letter] :=
  String.toList_push ..

/-- A period can be told from its text. -/
theorem text_injective : Function.Injective text := fun p q h => by
  have hlist := congrArg String.toList h
  rw [toList_text, toList_text] at hlist
  obtain ⟨hdigits, hletter⟩ := List.append_inj' hlist rfl
  obtain ⟨amount, unit⟩ := p
  obtain ⟨amount', unit'⟩ := q
  cases letter_injective (List.singleton_inj.mp hletter)
  have hread := (Text.readDigits_toString amount).symm.trans
    ((congrArg Text.readDigits hdigits).trans (Text.readDigits_toString amount'))
  cases Option.some.inj hread
  rfl

theorem splitUnit?_text (p : Period) : splitUnit? p.text.toList = some ((toString p.amount).toList, p.unit) := by
  have hdigits : ∀ c ∈ (toString p.amount).toList, Text.isDecimalDigit c = true := fun _ hc =>
    Text.isDecimalDigit_of_isDigit (Text.isDigit_toString hc)
  have hletter := isDecimalDigit_letter p.unit
  have htake : p.text.toList.takeWhile Text.isDecimalDigit = (toString p.amount).toList := by
    rw [toList_text, List.takeWhile_append_of_pos hdigits, List.takeWhile_cons_of_neg (by simp [hletter]), List.append_nil]
  have hdrop : p.text.toList.dropWhile Text.isDecimalDigit = [p.unit.letter] := by
    rw [toList_text, List.dropWhile_append_of_pos hdigits, List.dropWhile_cons_of_neg (by simp [hletter])]
  have hne : (toString p.amount).toList ≠ [] := by
    rw [Text.toList_toString]
    exact Nat.toDigits_ne_nil
  rw [splitUnit?, htake, hdrop, if_neg hne]
  simp only [ofLetter?_letter, Option.map_some]

/-- A period is read from its text. -/
theorem ofValue_text (h : p.amount < Text.int64Count) : ofValue (.text p.text) = .ok p := by
  have hblank : ∀ c ∈ p.text.toList, Text.isBlank c = false := fun c hc => by
    rw [toList_text] at hc
    rcases List.mem_append.mp hc with hc | hc
    · exact Text.isBlank_of_isDigit (Text.isDigit_toString hc)
    · exact List.mem_singleton.mp hc ▸ isBlank_letter p.unit
  simp only [ofValue, Text.trimmed_eq_self hblank, splitUnit?_text, Text.readNat64_toString h]

/-- The amount of a period that is read has 64 bits. -/
theorem amount_lt_of_ofValue (hv : ∀ n, v = .int n → n ≤ Text.int64Max) (h : ofValue v = .ok p) :
    p.amount < Text.int64Count := by
  cases v with
  | int n =>
      have hn := hv n rfl
      simp only [ofValue] at h
      split at h
      · cases h
        simp only [Text.int64Max, Text.int64Count] at *
        omega
      · cases h
  | text s =>
      simp only [ofValue] at h
      split at h
      · cases h
      · split at h
        · cases h
        · next hread =>
          cases h
          exact of_decide_eq_true (Option.filter_eq_some_iff.mp hread).2
  | bool flag => cases h
  | float x => cases h

theorem format_eq (h : ofValue v = .ok p) : format v = .ok p.compress.text := by
  rw [format, h]
  rfl

/-- What is read as a period is written in a text that is read as a period of as many seconds, and is written so again.
If the period is not empty, its unit is the largest one that divides these seconds. -/
theorem format_reads (hv : ∀ n, v = .int n → n ≤ Text.int64Max) (h : ofValue v = .ok p) :
    ∃ text q, format v = .ok text ∧ ofValue (.text text) = .ok q ∧ text = q.text ∧ q.seconds = p.seconds ∧
      format (.text text) = .ok text ∧ (p.amount ≠ 0 → q.unit.seconds ∣ p.seconds ∧
        ∀ u : TimeUnit, u.seconds ∣ p.seconds → u.seconds ≤ q.unit.seconds) := by
  have hread : ofValue (.text p.compress.text) = .ok p.compress :=
    ofValue_text (Nat.lt_of_le_of_lt (amount_compress_le p) (amount_lt_of_ofValue hv h))
  refine ⟨_, p.compress, format_eq h, hread, rfl, seconds_compress p, ?_, fun h0 => ⟨?_, fun u => seconds_le_compress h0⟩⟩
  · rw [format_eq hread, compress_compress]
  · rw [← seconds_compress]
    exact dvd_seconds _

/-- A fortnight in minutes is written in weeks. -/
theorem format_reads_fortnight : ofValue (.text " 20160m") = .ok ⟨20160, .minute⟩ ∧
    ∃ text q, format (.text " 20160m") = .ok text ∧ ofValue (.text text) = .ok q ∧ q.seconds = 14 * 24 * 60 * 60 ∧
      q.unit = .week := by
  have hread : ofValue (.text " 20160m") = .ok ⟨20160, .minute⟩ := by rfl
  obtain ⟨text, q, htext, hq, _, hseconds, _, hlargest⟩ := format_reads (fun _ hn => by cases hn) hread
  refine ⟨hread, text, q, htext, hq, hseconds, ?_⟩
  have hweek := (hlargest (by decide)).2 .week (by decide)
  cases hunit : q.unit <;> first | rfl | (rw [hunit] at hweek; exact absurd hweek (by decide))

end Period

end MonitorExport
