import MonitorExport.Decimal.Layout
import MonitorExport.Json.Number
import MonitorExport.Proofs.Text.Digits

/-!
# Texts of numbers

Integers and finite floats are written in the form of a JSON number, and a text of that form is read as a number up to
what cannot go on with it. Only a float that is no number, or too great to be one, is written otherwise.
-/

namespace MonitorExport

open Text

variable {cs ds rest : List Char}

theorem Text.takeWhile_isDigit_append (hd : ∀ c ∈ ds, c.isDigit = true) (hr : ∀ c ∈ rest.head?, c.isDigit = false) :
    (ds ++ rest).takeWhile Char.isDigit = ds ∧ (ds ++ rest).dropWhile Char.isDigit = rest := by
  rw [List.takeWhile_append_of_pos hd, List.dropWhile_append_of_pos hd]
  cases rest with
  | nil => simp
  | cons c rest => simp [hr c rfl]

/-! ## Digits of naturals -/

theorem Text.isDigits_toDigits (n : Nat) : IsDigits (Nat.toDigits 10 n) :=
  ⟨Nat.toDigits_ne_nil, fun _ hc => Nat.isDigit_of_mem_toDigits (by decide) (by decide) hc⟩

/-- The digits of a positive number do not begin with zero. -/
theorem Text.head?_toDigits {n : Nat} (hn : 0 < n) : (Nat.toDigits 10 n).head? ≠ some '0' := by
  induction n using Nat.strongRecOn with
  | ind n ih =>
      rw [Nat.toDigits_eq_if (by decide)]
      split
      · next hlt =>
        have hdigit : ∀ m < 10, 0 < m → Nat.digitChar m ≠ '0' := by decide
        simpa using hdigit n hlt hn
      · next hge =>
        have hhead := ih (n / 10) (by omega) (by omega)
        cases hds : Nat.toDigits 10 (n / 10) with
        | nil => exact absurd hds Nat.toDigits_ne_nil
        | cons d ds => rwa [hds] at hhead

namespace Json.Number

/-! ## The form of a number -/

/-- Whether digits stand for a whole part: it has no superfluous zeros. -/
def IsWhole (ds : List Char) : Prop := IsDigits ds ∧ (ds.head? = some '0' → ds.length = 1)

/-- Whether characters are those of a fraction, or there are none. -/
def IsFraction (cs : List Char) : Prop := cs = [] ∨ ∃ ds, IsDigits ds ∧ cs = '.' :: ds

/-- Whether characters are those of an exponent, or there are none. -/
def IsExponent (cs : List Char) : Prop :=
  cs = [] ∨ ∃ sign ds, sign ∈ [[], ['-'], ['+']] ∧ IsDigits ds ∧ cs = 'e' :: (sign ++ ds)

/-- Whether characters have the form of a number without a sign. -/
inductive IsUnsigned : List Char → Prop
  | intro {whole fraction exponent : List Char} (hw : IsWhole whole) (hf : IsFraction fraction)
      (he : IsExponent exponent) : IsUnsigned (whole ++ (fraction ++ exponent))

/-- Whether characters have the form of a number. -/
def HasForm (cs : List Char) : Prop := IsUnsigned cs ∨ ∃ ds, IsUnsigned ds ∧ cs = '-' :: ds

/-- What may stand behind a number and does not go on with it. -/
def Ends (rest : List Char) : Prop := ∀ c ∈ rest.head?, c ∈ [',', ']', '\x7d']

theorem Ends.not_isDigit (h : Ends rest) : ∀ c ∈ rest.head?, c.isDigit = false := fun c hc => by
  have hends : ∀ c ∈ [',', ']', '\x7d'], c.isDigit = false := by simp
  exact hends c (h c hc)

theorem readPower_append (hd : IsDigits ds) (negative : Bool) (digits : Nat) (start : Int) (down : Bool) :
    ∃ n, ∀ rest, Ends rest → readPower negative digits start down (ds ++ rest) = some (n, rest) := by
  obtain ⟨e, he⟩ : ∃ e, ds.foldl (fun n c => min (10 * n + digit c) exponentLimit) 0 = e := ⟨_, rfl⟩
  have hread : ∀ rest, Ends rest → readPower negative digits start down (ds ++ rest) =
      if e = exponentLimit then
        if digits ≠ 0 ∧ !down then some (.tooLarge, rest) else some (signed negative (.float 0.0), rest)
      else some (ofParts negative digits (if down then start - e else start + e), rest) := fun rest hr => by
    obtain ⟨htake, hdrop⟩ := takeWhile_isDigit_append hd.2 hr.not_isDigit
    simp only [readPower, htake, hdrop, if_neg hd.1, he]
  -- the number depends on the digits alone
  by_cases hlimit : e = exponentLimit
  · by_cases hlarge : digits ≠ 0 ∧ !down
    · exact ⟨.tooLarge, fun rest hr => by rw [hread rest hr, if_pos hlimit, if_pos hlarge]⟩
    · exact ⟨signed negative (.float 0.0), fun rest hr => by rw [hread rest hr, if_pos hlimit, if_neg hlarge]⟩
  · exact ⟨ofParts negative digits _, fun rest hr => by rw [hread rest hr, if_neg hlimit]⟩

theorem ne_of_isDigit {c d : Char} (hc : c.isDigit = true) (hd : d.isDigit = false) : c ≠ d := fun h => by
  rw [h, hd] at hc
  cases hc

/-- An exponent is read up to what cannot go on with it. -/
theorem readExponent_append {sign : List Char} (hs : sign ∈ [[], ['-'], ['+']]) (hd : IsDigits ds) (negative : Bool)
    (digits : Nat) (start : Int) : ∃ n, ∀ rest, Ends rest →
      readExponent negative digits start (sign ++ (ds ++ rest)) = some (n, rest) := by
  simp only [List.mem_cons, List.not_mem_nil, or_false] at hs
  rcases hs with rfl | rfl | rfl
  · have hunsigned : ∀ rest, readExponent negative digits start (ds ++ rest) =
        readPower negative digits start false (ds ++ rest) := fun rest => by
      obtain ⟨c, tail, rfl⟩ := List.exists_cons_of_ne_nil hd.1
      have hc := hd.2 c List.mem_cons_self
      rw [List.cons_append, readExponent]
      · exact fun _ h => ne_of_isDigit hc (by decide) (List.cons.inj h).1
      · exact fun _ h => ne_of_isDigit hc (by decide) (List.cons.inj h).1
    obtain ⟨n, hn⟩ := readPower_append hd negative digits start false
    exact ⟨n, fun rest hr => (hunsigned rest).trans (hn rest hr)⟩
  · exact readPower_append hd negative digits start true
  · exact readPower_append hd negative digits start false

theorem IsExponent.not_isDigit (he : IsExponent cs) (hr : Ends rest) :
    ∀ c ∈ (cs ++ rest).head?, c.isDigit = false := by
  rcases he with rfl | ⟨sign, ds, _, _, rfl⟩
  · exact hr.not_isDigit
  · rintro c ⟨⟩
    decide

theorem IsFraction.not_isDigit {exponent : List Char} (hf : IsFraction cs) (he : IsExponent exponent) (hr : Ends rest) :
    ∀ c ∈ (cs ++ (exponent ++ rest)).head?, c.isDigit = false := by
  rcases hf with rfl | ⟨ds, _, rfl⟩
  · exact he.not_isDigit hr
  · rintro c ⟨⟩
    decide

theorem Ends.cases (h : Ends rest) :
    rest = [] ∨ ∃ tail, rest = ',' :: tail ∨ rest = ']' :: tail ∨ rest = '\x7d' :: tail := by
  cases rest with
  | nil => exact .inl rfl
  | cons c tail =>
      have hc := h c rfl
      simp only [List.mem_cons, List.not_mem_nil, or_false] at hc
      rcases hc with rfl | rfl | rfl
      · exact .inr ⟨tail, .inl rfl⟩
      · exact .inr ⟨tail, .inr (.inl rfl)⟩
      · exact .inr ⟨tail, .inr (.inr rfl)⟩

theorem readMarked_append (he : IsExponent cs) (negative : Bool) (digits : Nat) (start : Int) (plain : Number) :
    ∃ n, ∀ rest, Ends rest → readMarked negative digits start plain (cs ++ rest) = some (n, rest) := by
  rcases he with rfl | ⟨sign, ds, hs, hd, rfl⟩
  · refine ⟨plain, fun rest hr => ?_⟩
    rcases hr.cases with rfl | ⟨tail, rfl | rfl | rfl⟩ <;> rfl
  · obtain ⟨n, hn⟩ := readExponent_append hs hd negative digits start
    exact ⟨n, fun rest hr => by simpa [readMarked] using hn rest hr⟩

theorem readBehind_append {exponent : List Char} (hf : IsFraction cs) (he : IsExponent exponent) (negative : Bool)
    (s : Significand) : ∃ n, ∀ rest, Ends rest → readBehind negative s (cs ++ (exponent ++ rest)) = some (n, rest) := by
  rcases hf with rfl | ⟨ds, hd, rfl⟩
  · obtain ⟨n, hn⟩ := readMarked_append he negative s.digits s.dropped (ofWhole negative s)
    refine ⟨n, fun rest hr => ?_⟩
    have hbehind : readBehind negative s (exponent ++ rest) =
        readMarked negative s.digits s.dropped (ofWhole negative s) (exponent ++ rest) := by
      rcases he with rfl | ⟨sign, ds, _, _, rfl⟩
      · rcases hr.cases with rfl | ⟨tail, rfl | rfl | rfl⟩ <;> rfl
      · rfl
    exact hbehind.trans (hn rest hr)
  · obtain ⟨n, hn⟩ := readMarked_append he negative (takeFraction s.digits 0 ds).1
      ((s.dropped : Int) - ((takeFraction s.digits 0 ds).2 : Int)) (ofParts negative (takeFraction s.digits 0 ds).1
        ((s.dropped : Int) - ((takeFraction s.digits 0 ds).2 : Int)))
    refine ⟨n, fun rest hr => ?_⟩
    obtain ⟨htake, hdrop⟩ := takeWhile_isDigit_append hd.2 (he.not_isDigit hr)
    rw [List.cons_append, readBehind]
    simp only [htake, hdrop, if_neg hd.1]
    exact hn rest hr

theorem IsWhole.stands (h : IsWhole ds) : ¬ (ds = [] ∨ (ds.head? = some '0' ∧ 1 < ds.length)) :=
  not_or.mpr ⟨h.1.1, fun hzero => absurd (h.2 hzero.1) (Nat.ne_of_gt hzero.2)⟩

/-- A number without its sign is read up to what cannot go on with it. -/
theorem readUnsigned_append (h : IsUnsigned cs) (negative : Bool) :
    ∃ n, ∀ rest, Ends rest → readUnsigned negative (cs ++ rest) = some (n, rest) := by
  obtain @⟨whole, fraction, exponent, hw, hf, he⟩ := h
  obtain ⟨n, hn⟩ := readBehind_append hf he negative (whole.foldl takeWhole ⟨0, 0⟩)
  refine ⟨n, fun rest hr => ?_⟩
  obtain ⟨htake, hdrop⟩ := takeWhile_isDigit_append hw.1.2 (hf.not_isDigit he hr)
  rw [List.append_assoc, List.append_assoc]
  simp only [readUnsigned, htake, hdrop, if_neg hw.stands]
  exact hn rest hr

theorem IsUnsigned.head (h : IsUnsigned cs) : ∃ c tail, cs = c :: tail ∧ c.isDigit = true := by
  obtain @⟨whole, fraction, exponent, hw, _, _⟩ := h
  obtain ⟨c, tail, rfl⟩ := List.exists_cons_of_ne_nil hw.1.1
  exact ⟨c, _, rfl, hw.1.2 c List.mem_cons_self⟩

theorem read_of_isUnsigned (h : IsUnsigned cs) (rest : List Char) :
    read (cs ++ rest) = readUnsigned false (cs ++ rest) := by
  obtain ⟨c, tail, rfl, hc⟩ := h.head
  rw [List.cons_append, read]
  exact fun _ h => ne_of_isDigit hc (by decide) (List.cons.inj h).1

/-- A number is read from a text of its form, up to what cannot go on with it. -/
theorem read_append (h : HasForm cs) : ∃ n, ∀ rest, Ends rest → read (cs ++ rest) = some (n, rest) := by
  rcases h with h | ⟨ds, h, rfl⟩
  · obtain ⟨n, hn⟩ := readUnsigned_append h false
    exact ⟨n, fun rest hr => (read_of_isUnsigned h rest).trans (hn rest hr)⟩
  · exact readUnsigned_append h true

/-! ## Integers -/

theorem isDigits_zero : IsDigits ['0'] := ⟨List.cons_ne_nil _ _, List.forall_mem_singleton.mpr rfl⟩

theorem isWhole_toDigits (n : Nat) : IsWhole (Nat.toDigits 10 n) := by
  refine ⟨isDigits_toDigits n, fun hhead => ?_⟩
  cases n with
  | zero => rfl
  | succ n => exact absurd hhead (head?_toDigits (Nat.succ_pos n))

theorem isWhole_single {c : Char} (hc : c.isDigit = true) : IsWhole [c] :=
  ⟨⟨List.cons_ne_nil _ _, by simpa using hc⟩, fun _ => rfl⟩

theorem toList_toString_int (n : Int) :
    (toString n).toList = if 0 ≤ n then Nat.toDigits 10 n.natAbs else '-' :: Nat.toDigits 10 n.natAbs := by
  cases n with
  | ofNat m =>
      show m.repr.toList = Nat.toDigits 10 m
      rw [Nat.repr_eq_ofList_toDigits, String.toList_ofList]
  | negSucc m =>
      show ("-" ++ (m + 1).repr).toList = '-' :: Nat.toDigits 10 (m + 1)
      rw [String.toList_append, Nat.repr_eq_ofList_toDigits, String.toList_ofList, String.toList_ofList]
      rfl

theorem isUnsigned_toDigits (n : Nat) : IsUnsigned (Nat.toDigits 10 n) := by
  simpa using IsUnsigned.intro (isWhole_toDigits n) (.inl rfl) (.inl rfl)

theorem hasForm_int (n : Int) : HasForm (toString n).toList := by
  rw [toList_toString_int]
  split
  · exact .inl (isUnsigned_toDigits _)
  · exact .inr ⟨_, isUnsigned_toDigits _, rfl⟩

/-- The number that a text is read as. -/
def ofText (s : String) : Number := ((read s.toList).map (·.1)).getD .tooLarge

theorem foldl_takeWhole {n : Nat} (hn : n < int64Count) : (Nat.toDigits 10 n).foldl takeWhole ⟨0, 0⟩ = ⟨n, 0⟩ := by
  have hdigit : ∀ m < 10, digit (Nat.digitChar m) = m := by decide
  induction n using Nat.strongRecOn with
  | ind n ih =>
      rw [Nat.toDigits_eq_if (by decide)]
      split
      · next hlt => simp [takeWhole, hdigit n hlt, hn]
      · next hge =>
        have hsum : 10 * (n / 10) + n % 10 = n := by omega
        rw [List.foldl_append, ih (n / 10) (by omega) (by omega)]
        simp [takeWhole, hdigit _ (Nat.mod_lt n (by decide)), hsum, hn]

/-- A natural of 64 bits is read as itself. -/
theorem ofText_natCast {n : Nat} (hn : n < int64Count) : ofText (toString n) = .int n := by
  have htext : (toString n).toList = Nat.toDigits 10 n := toList_toString_int n
  obtain ⟨htake, hdrop⟩ := @takeWhile_isDigit_append (Nat.toDigits 10 n) [] (isDigits_toDigits n).2 (by simp)
  have hread := read_of_isUnsigned (isUnsigned_toDigits n) []
  rw [List.append_nil] at htake hdrop hread
  simp only [readUnsigned, htake, hdrop, if_neg (isWhole_toDigits n).stands, foldl_takeWhole hn] at hread
  rw [ofText, htext, hread]
  simp [readBehind, readMarked, ofWhole]

/-! ## Floats -/

open Decimal

/-- Whether a decimal is written without superfluous zeros: it is positive, or zero itself. -/
def IsPlain (d : Digits) : Prop := 0 < d.digits ∨ d = ⟨0, 0⟩

theorem contains_zero {i : Interval} (hi : 0 < i.low) (exponent : Int) : i.contains 0 exponent = false := by
  have hscaled : ∀ n, 0 < (scaled n exponent).2 ∧ (scaled 0 exponent).1 = 0 := fun n => by
    unfold scaled
    split
    · simp
    · simp
  obtain ⟨hpos, hzero⟩ := hscaled (0 * i.den)
  have hlow : 0 < i.low * (scaled (0 * i.den) exponent).2 := Nat.mul_pos hi hpos
  unfold Interval.contains
  rw [Nat.zero_mul] at hlow ⊢
  simp only [hzero]
  split
  · simp [Nat.ne_of_gt hlow]
  · simp

theorem nearest_pos {i : Interval} (hi : 0 < i.low) {tie : Tie} {exponent : Int} {d : Nat}
    (h : i.nearest tie exponent = some d) : 0 < d := by
  have hmem : ∀ n, i.contains n exponent = true → 0 < n := fun n hn => Nat.pos_of_ne_zero fun hzero => by
    rw [hzero, contains_zero hi] at hn
    cases hn
  unfold Interval.nearest at h
  dsimp only at h
  split at h
  · cases h
  · next hin _ =>
    cases h
    exact hmem _ hin
  · cases h
    exact Nat.succ_pos _
  · next hin _ =>
    have hpos := hmem _ hin
    grind

theorem isPlain_dropZeros {d : Digits} (h : IsPlain d) (fuel : Nat) : IsPlain (dropZeros fuel d) := by
  induction fuel generalizing d with
  | zero => exact h
  | succ fuel ih =>
      rw [dropZeros]
      split
      · next hzero => exact ih (.inl (show 0 < d.digits / 10 by omega))
      · exact h

theorem interval_low_pos {b : Binary} (hb : b.mantissa ≠ 0) : 0 < b.interval.low := by
  have hlower : ∀ n, n ≤ 2 → 0 < 4 * b.mantissa - n := by omega
  unfold Binary.interval
  dsimp only
  refine Nat.mul_pos (hlower _ (by split <;> omega)) ?_
  split
  · exact Nat.pow_pos (by decide)
  · exact Nat.one_pos

theorem isPlain_shortest {b : Binary} (hb : b.mantissa ≠ 0) (tie : Tie) : IsPlain (shortest b tie) := by
  unfold shortest
  dsimp only
  refine isPlain_dropZeros ?_ 17
  cases hfound : (List.range 17).findSome? _ with
  | none => exact .inr rfl
  | some d =>
      obtain ⟨more, _, hmore⟩ := List.exists_of_findSome?_eq_some hfound
      obtain ⟨n, hn, rfl⟩ := Option.map_eq_some_iff.mp hmore
      exact .inl (nearest_pos (interval_low_pos hb) hn)

/-- The positional form of a decimal without superfluous zeros is that of a number. -/
theorem isUnsigned_positional {d : Digits} (h : IsPlain d) :
    IsUnsigned (positional (Nat.toDigits 10 d.digits) d.exponent) := by
  have hdigits := isDigits_toDigits d.digits
  have hzeros : ∀ n, ∀ c ∈ List.replicate n '0', c.isDigit = true := fun n c hc =>
    List.eq_of_mem_replicate hc ▸ rfl
  -- a number that begins with zero is zero
  have hhead : (Nat.toDigits 10 d.digits).head? = some '0' → d = ⟨0, 0⟩ := fun hzero =>
    h.resolve_left fun hpos => head?_toDigits hpos hzero
  unfold positional
  split
  · next hexponent =>
    have hwhole : IsWhole (Nat.toDigits 10 d.digits ++ List.replicate d.exponent.toNat '0') := by
      refine ⟨⟨by simp [hdigits.1], fun c hc => ?_⟩, fun hzero => ?_⟩
      · exact (List.mem_append.mp hc).elim (hdigits.2 c) (hzeros _ c)
      · rw [List.head?_append, Option.or_of_isSome (by simp [hdigits.1])] at hzero
        rw [hhead hzero]
        rfl
    simpa using IsUnsigned.intro hwhole (.inr ⟨['0'], isDigits_zero, rfl⟩) (.inl rfl)
  · dsimp only
    split
    · next hexponent hplaces =>
      obtain ⟨places, hpos, hle⟩ : ∃ n, 0 < n ∧ n = (-d.exponent).toNat := ⟨_, by omega, rfl⟩
      rw [← hle] at hplaces ⊢
      have hwhole : IsWhole ((Nat.toDigits 10 d.digits).take ((Nat.toDigits 10 d.digits).length - places)) := by
        refine ⟨⟨?_, fun c hc => hdigits.2 c (List.mem_of_mem_take hc)⟩, fun hzero => ?_⟩
        · simp
          omega
        · rw [List.head?_take, if_neg (by omega)] at hzero
          rw [hhead hzero] at hexponent
          exact absurd le_rfl hexponent
      have hfraction : IsDigits ((Nat.toDigits 10 d.digits).drop ((Nat.toDigits 10 d.digits).length - places)) :=
        ⟨by simp; omega, fun c hc => hdigits.2 c (List.mem_of_mem_drop hc)⟩
      simpa using IsUnsigned.intro hwhole (.inr ⟨_, hfraction, rfl⟩) (.inl rfl)
    · have hfraction : IsDigits (List.replicate ((-d.exponent).toNat - (Nat.toDigits 10 d.digits).length) '0' ++
          Nat.toDigits 10 d.digits) :=
        ⟨by simp [hdigits.1], fun c hc => (List.mem_append.mp hc).elim (hzeros _ c) (hdigits.2 c)⟩
      have hzero : IsWhole ['0'] := isWhole_single rfl
      simpa using IsUnsigned.intro hzero (.inr ⟨_, hfraction, rfl⟩) (.inl rfl)

theorem isUnsigned_scientific (n : Nat) (first : Int) :
    IsUnsigned (scientific Layout.json (Nat.toDigits 10 n) first) := by
  have hdigits := isDigits_toDigits n
  have hexponent :
      IsExponent ('e' :: ((if 0 ≤ first then Layout.json.plus else "").toList ++ (toString first).toList)) := by
    rw [toList_toString_int]
    by_cases hfirst : 0 ≤ first
    · rw [if_pos hfirst, if_pos hfirst]
      exact .inr ⟨['+'], _, by simp, isDigits_toDigits _, rfl⟩
    · rw [if_neg hfirst, if_neg hfirst]
      exact .inr ⟨['-'], _, by simp, isDigits_toDigits _, rfl⟩
  unfold scientific
  cases hds : Nat.toDigits 10 n with
  | nil => exact absurd hds hdigits.1
  | cons c ds =>
      rw [hds] at hdigits
      have hc := isWhole_single (hdigits.2 c List.mem_cons_self)
      cases ds with
      | nil => simpa using IsUnsigned.intro hc (.inl rfl) hexponent
      | cons d ds =>
          have hfraction : IsDigits (d :: ds) := ⟨by simp, fun e he => hdigits.2 e (List.mem_cons_of_mem c he)⟩
          simpa using IsUnsigned.intro hc (.inr ⟨_, hfraction, rfl⟩) hexponent

theorem isUnsigned_characters {d : Digits} (h : IsPlain d) : IsUnsigned (Layout.json.characters d) := by
  unfold Layout.characters
  dsimp only
  split
  · exact isUnsigned_positional h
  · exact isUnsigned_scientific _ _

/-- A float is written in the form of a number, or as none. -/
theorem hasForm_float (x : Float) : HasForm (Layout.json.text x).toList ∨ Layout.json.text x = "null" := by
  unfold Layout.text
  cases Binary.ofFloat? x with
  | none =>
      right
      dsimp only
      split
      · rfl
      · split <;> rfl
  | some b =>
      have hbody : IsUnsigned (if b.mantissa = 0 then ['0', '.', '0']
          else Layout.json.characters (shortest b Layout.json.tie)) := by
        split
        · exact IsUnsigned.intro (isWhole_toDigits 0) (.inr ⟨['0'], isDigits_zero, rfl⟩) (.inl rfl)
        · next hb => exact isUnsigned_characters (isPlain_shortest hb _)
      dsimp only
      rw [String.toList_ofList]
      split
      · exact .inl (.inr ⟨_, hbody, rfl⟩)
      · exact .inl (.inl hbody)

end Json.Number

end MonitorExport
