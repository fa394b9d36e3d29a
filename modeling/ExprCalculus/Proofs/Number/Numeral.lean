import ExprCalculus.Grammar.Parser
import ExprCalculus.Proofs.Number.Decimal

/-!
# Literals are read back

The text of a literal is a numeral: a whole part, a fraction and an exponent in ASCII digits.  `Shape` holds
these parts; a numeral is cut off whole before a character that ends it (`Numeral.scanNumber_chars`) and its
value depends on its parts only (`Numeral.numeralValue_int`, `Numeral.numeralValue_float`).

* `Num.text_readable` — the text of a literal that is not negative is read as the same literal.
* `Num.text_of_negative` — a negative literal is written as its opposite behind a sign.
-/

namespace ExprCalculus.Numeral

open Text

/-! ## ASCII digits -/

theorem digitValue?_of_isDigit {c : Char} (h : c.isDigit = true) :
    digitValue? c = some (c.toNat - '0'.toNat) := by
  unfold digitValue?
  simp only [Char.isDigit, Bool.and_eq_true, decide_eq_true_eq] at h
  rw [if_pos ⟨h.1, h.2⟩]

theorem isDigit_of_isDigit {c : Char} (h : c.isDigit = true) : Text.isDigit c = true := by
  unfold Text.isDigit
  rw [digitValue?_of_isDigit h]
  rfl

theorem natOfDigits_eq {cs : List Char} (h : ∀ c ∈ cs, c.isDigit = true) :
    natOfDigits cs = Nat.ofDigitChars 10 cs 0 := by
  have hfold : ∀ init, cs.foldl (fun n c => 10 * n + (digitValue? c).getD 0) init =
      cs.foldl (fun n c => 10 * n + (c.toNat - '0'.toNat)) init := by
    induction cs with
    | nil => exact fun _ => rfl
    | cons c cs ih =>
      intro init
      simp only [List.foldl_cons]
      rw [digitValue?_of_isDigit (h c List.mem_cons_self), ih (fun d hd => h d (List.mem_cons_of_mem _ hd))]
      rfl
  exact hfold 0

/-- Digits end where none follows. -/
theorem takeWhile_digits {ds rest : List Char} (h : ∀ c ∈ ds, c.isDigit = true)
    (hr : ∀ c, rest.head? = some c → Text.isDigit c = false) :
    (ds ++ rest).takeWhile Text.isDigit = ds ∧ (ds ++ rest).dropWhile Text.isDigit = rest := by
  have h' : ∀ c ∈ ds, Text.isDigit c = true := fun c hc => isDigit_of_isDigit (h c hc)
  rw [List.takeWhile_append_of_pos h', List.dropWhile_append_of_pos h']
  cases rest with
  | nil => simp
  | cons c rest => simp [hr c rfl]

/-! ## Numerals -/

/-- The parts of a numeral in ASCII digits: the whole part, the fraction behind the point, the sign and the
digits of the exponent.  An empty fraction or exponent is not written. -/
structure Shape where
  whole : List Char
  fraction : List Char
  negative : Bool
  exponent : List Char
  whole_ne : whole ≠ []
  whole_digits : ∀ c ∈ whole, c.isDigit = true
  fraction_digits : ∀ c ∈ fraction, c.isDigit = true
  exponent_digits : ∀ c ∈ exponent, c.isDigit = true

namespace Shape

/-- The text of a fraction. -/
def fractionChars : List Char → List Char
  | [] => []
  | ds => '.' :: ds

/-- The text of an exponent. -/
def exponentChars (negative : Bool) : List Char → List Char
  | [] => []
  | ds => 'e' :: (if negative then '-' else '+') :: ds

theorem fractionChars_of_ne {ds : List Char} (h : ds ≠ []) : fractionChars ds = '.' :: ds := by
  cases ds with
  | nil => exact absurd rfl h
  | cons d ds => rfl

theorem exponentChars_of_ne (negative : Bool) {ds : List Char} (h : ds ≠ []) :
    exponentChars negative ds = 'e' :: (if negative then '-' else '+') :: ds := by
  cases ds with
  | nil => exact absurd rfl h
  | cons d ds => rfl

/-- The text of a numeral. -/
def chars (s : Shape) : List Char :=
  s.whole ++ (fractionChars s.fraction ++ exponentChars s.negative s.exponent)

/-- The number an exponent stands for. -/
def scale (negative : Bool) (ds : List Char) : Int :=
  if negative then -(natOfDigits ds : Int) else natOfDigits ds

/-- The power of ten that the last digit counts. -/
def power (s : Shape) : Int := scale s.negative s.exponent - s.fraction.length

/-- The number that a numeral stands for. -/
def value (s : Shape) : ℚ := natOfDigits (s.whole ++ s.fraction) * 10 ^ s.power

end Shape

/-- The characters that may follow a name or a numeral in the text of an expression. -/
def breakChars : List Char := [' ', '(', ')', ',', ']']

/-- A text before which a name or a numeral ends. -/
def Breaks (rest : List Char) : Prop := ∀ c, rest.head? = some c → c ∈ breakChars

theorem breaks_nil : Breaks [] := fun c hc => by cases hc

theorem isDigit_of_mem_breakChars {c : Char} (hc : c ∈ breakChars) :
    Text.isDigit c = false ∧ c ≠ '.' ∧ c ≠ 'e' ∧ c ≠ 'E' := by
  simp only [breakChars, List.mem_cons, List.not_mem_nil, or_false] at hc
  rcases hc with rfl | rfl | rfl | rfl | rfl <;> decide

open Grammar

theorem scanExponent_exponentChars (negative : Bool) {ds rest : List Char} (hds : ∀ c ∈ ds, c.isDigit = true)
    (hr : Breaks rest) :
    scanExponent (Shape.exponentChars negative ds ++ rest) = (Shape.exponentChars negative ds, rest) := by
  cases ds with
  | nil =>
    unfold scanExponent
    split
    · rename_i c r h
      have hc := isDigit_of_mem_breakChars (hr c (by simp [Shape.exponentChars] at h; simp [h]))
      rw [if_neg (not_or.mpr ⟨hc.2.2.1, hc.2.2.2⟩)]
      rfl
    · rename_i h
      rw [show rest = [] from h]
      rfl
  | cons d ds =>
    obtain ⟨h1, h2⟩ := takeWhile_digits hds fun c hc => (isDigit_of_mem_breakChars (hr c hc)).1
    cases negative with
    | true =>
      change scanExponent ('e' :: '-' :: (d :: ds ++ rest)) = ('e' :: '-' :: d :: ds, rest)
      simp only [scanExponent, scanSign, true_or, if_true, h1, h2]
      rfl
    | false =>
      change scanExponent ('e' :: '+' :: (d :: ds ++ rest)) = ('e' :: '+' :: d :: ds, rest)
      simp only [scanExponent, scanSign, true_or, if_true, h1, h2]
      rfl

/-- What follows the digits of a numeral is no digit. -/
theorem head_exponentChars (negative : Bool) (ds : List Char) {rest : List Char} (hr : Breaks rest) {c : Char}
    (h : (Shape.exponentChars negative ds ++ rest).head? = some c) : Text.isDigit c = false ∧ c ≠ '.' := by
  cases ds with
  | nil =>
    have hc := isDigit_of_mem_breakChars (hr c h)
    exact ⟨hc.1, hc.2.1⟩
  | cons d ds =>
    cases h
    decide

theorem scanMantissa_whole {whole rest : List Char} (hw : whole ≠ []) (hd : ∀ c ∈ whole, c.isDigit = true)
    (hr : ∀ c, rest.head? = some c → Text.isDigit c = false ∧ c ≠ '.') :
    scanMantissa (whole ++ rest) = some (whole, rest) := by
  obtain ⟨h1, h2⟩ := takeWhile_digits hd fun c hc => (hr c hc).1
  unfold scanMantissa
  simp only [h1, h2]
  rw [if_neg (by simpa using hw)]
  split
  · rfl
  · exact absurd rfl (hr '.' rfl).2
  · rfl

theorem scanMantissa_point {whole rest : List Char} (hw : whole ≠ []) (hd : ∀ c ∈ whole, c.isDigit = true)
    (hr : rest.head? ≠ some '.') :
    scanMantissa (whole ++ '.' :: rest) =
      some (whole ++ '.' :: rest.takeWhile Text.isDigit, rest.dropWhile Text.isDigit) := by
  have hpoint : ∀ c, ('.' :: rest).head? = some c → Text.isDigit c = false := by
    intro c hc
    cases hc
    decide
  obtain ⟨h1, h2⟩ := takeWhile_digits hd hpoint
  unfold scanMantissa
  simp only [h1, h2]
  rw [if_neg (by simpa using hw)]
  split
  · rename_i h
    cases h
    exact absurd rfl hr
  · rename_i h
    cases h
    rfl
  · rename_i h
    exact absurd rfl (h rest)

theorem scanMantissa_chars (s : Shape) {rest : List Char} (hr : Breaks rest) :
    scanMantissa (s.chars ++ rest) =
      some (s.whole ++ Shape.fractionChars s.fraction, Shape.exponentChars s.negative s.exponent ++ rest) := by
  have htail := fun c => @head_exponentChars s.negative s.exponent rest hr c
  unfold Shape.chars
  simp only [List.append_assoc]
  generalize Shape.exponentChars s.negative s.exponent ++ rest = tail at *
  cases hf : s.fraction with
  | nil =>
    simp only [Shape.fractionChars, List.nil_append, List.append_nil]
    exact scanMantissa_whole s.whole_ne s.whole_digits htail
  | cons d ds =>
    have hds : ∀ c ∈ d :: ds, c.isDigit = true := fun c hc => s.fraction_digits c (hf ▸ hc)
    obtain ⟨h1, h2⟩ := takeWhile_digits hds fun c hc => (htail c hc).1
    have hd : (d :: ds ++ tail).head? ≠ some '.' := by
      rintro h
      cases h
      exact absurd (hds '.' List.mem_cons_self) (by decide)
    change scanMantissa (s.whole ++ '.' :: (d :: ds ++ tail)) = some (s.whole ++ '.' :: d :: ds, tail)
    rw [scanMantissa_point s.whole_ne s.whole_digits hd, h1, h2]

/-- A numeral is cut off whole. -/
theorem scanNumber_chars (s : Shape) {rest : List Char} (hr : Breaks rest) :
    scanNumber (s.chars ++ rest) = some (s.chars, rest) := by
  unfold scanNumber
  rw [scanMantissa_chars s hr]
  simp only [scanExponent_exponentChars s.negative s.exponent_digits hr]
  simp [Shape.chars]

/-! ## The value of a numeral -/

theorem splitSign_exponent (negative : Bool) (ds : List Char) :
    splitSign ((if negative then '-' else '+') :: ds) = (negative, ds) := by
  cases negative <;> rfl

theorem splitDecimal_whole {cs whole ds : List Char} {negative : Bool} (hw : whole ≠ [])
    (h1 : cs.takeWhile Text.isDigit = whole)
    (h2 : cs.dropWhile Text.isDigit = Shape.exponentChars negative ds) (hds : ∀ c ∈ ds, c.isDigit = true) :
    splitDecimal cs = some (whole, [], Shape.scale negative ds) := by
  cases ds with
  | nil => simp [splitDecimal, h1, h2, hw, Shape.exponentChars, Shape.scale, natOfDigits]
  | cons d ds =>
    have hall : ∀ c ∈ d :: ds, Text.isDigit c = true := fun c hc => isDigit_of_isDigit (hds c hc)
    unfold splitDecimal
    simp only [h1, h2, Shape.exponentChars]
    simpa [hw, Shape.scale, splitSign_exponent] using hall

theorem splitDecimal_point {cs whole r ds : List Char} {negative : Bool} (hw : whole ≠ [])
    (h1 : cs.takeWhile Text.isDigit = whole) (h2 : cs.dropWhile Text.isDigit = '.' :: r)
    (h3 : r.dropWhile Text.isDigit = Shape.exponentChars negative ds) (hds : ∀ c ∈ ds, c.isDigit = true) :
    splitDecimal cs = some (whole, r.takeWhile Text.isDigit, Shape.scale negative ds) := by
  cases ds with
  | nil => simp [splitDecimal, h1, h2, h3, hw, Shape.exponentChars, Shape.scale, natOfDigits]
  | cons d ds =>
    have hall : ∀ c ∈ d :: ds, Text.isDigit c = true := fun c hc => isDigit_of_isDigit (hds c hc)
    unfold splitDecimal
    simp only [h1, h2, h3, Shape.exponentChars]
    simpa [hw, Shape.scale, splitSign_exponent] using hall

theorem splitDecimal_chars (s : Shape) :
    splitDecimal s.chars = some (s.whole, s.fraction, Shape.scale s.negative s.exponent) := by
  have htail := fun c => @head_exponentChars s.negative s.exponent [] breaks_nil c
  rw [List.append_nil] at htail
  unfold Shape.chars
  cases hf : s.fraction with
  | nil =>
    obtain ⟨h1, h2⟩ := takeWhile_digits s.whole_digits fun c hc => (htail c hc).1
    exact splitDecimal_whole s.whole_ne h1 h2 s.exponent_digits
  | cons d ds =>
    have hds : ∀ c ∈ d :: ds, c.isDigit = true := fun c hc => s.fraction_digits c (hf ▸ hc)
    have hpoint : ∀ c, ('.' :: (d :: ds ++ Shape.exponentChars s.negative s.exponent)).head? = some c →
        Text.isDigit c = false := by
      intro c hc
      cases hc
      decide
    obtain ⟨h1, h2⟩ := takeWhile_digits s.whole_digits hpoint
    obtain ⟨h3, h4⟩ := takeWhile_digits hds fun c hc => (htail c hc).1
    have hsplit := splitDecimal_point s.whole_ne h1 h2 h4 s.exponent_digits
    rwa [h3] at hsplit

theorem not_mem_digits {ds : List Char} (h : ∀ c ∈ ds, c.isDigit = true) : '.' ∉ ds :=
  fun hc => absurd (h '.' hc) (by decide)

theorem numeralValue_int (s : Shape) (hf : s.fraction = []) (he : s.exponent = []) :
    numeralValue s.chars = .int (natOfDigits s.whole) := by
  have hchars : s.chars = s.whole := by
    simp [Shape.chars, hf, he, Shape.fractionChars, Shape.exponentChars]
  have hdrop := (takeWhile_digits s.whole_digits (by simp : ∀ c, ([] : List Char).head? = some c → _)).2
  rw [List.append_nil] at hdrop
  unfold numeralValue
  rw [hchars, hdrop, if_neg]
  simp [not_mem_digits s.whole_digits, scanExponent]

theorem numeralValue_float (s : Shape) (h : s.fraction ≠ [] ∨ s.exponent ≠ []) :
    numeralValue s.chars = .float (floatOfDecimal (natOfDigits (s.whole ++ s.fraction)) s.power) := by
  have hcond : (s.chars.contains '.' || (scanExponent (s.chars.dropWhile Text.isDigit)).1 != []) = true := by
    cases hf : s.fraction with
    | cons d ds => simp [Shape.chars, hf, Shape.fractionChars]
    | nil =>
      have htail := fun c => @head_exponentChars s.negative s.exponent [] breaks_nil c
      have hscan := scanExponent_exponentChars s.negative s.exponent_digits breaks_nil
      rw [List.append_nil] at htail hscan
      have hdrop := (takeWhile_digits s.whole_digits fun c hc => (htail c hc).1).2
      have hne : Shape.exponentChars s.negative s.exponent ≠ [] := by
        obtain ⟨d, ds, hd⟩ := List.exists_cons_of_ne_nil (h.resolve_left (fun hne => hne hf))
        simp [hd, Shape.exponentChars]
      simp only [Shape.chars, hf, Shape.fractionChars, List.nil_append, hdrop, hscan]
      simp [hne]
  unfold numeralValue unsignedFloat?
  rw [if_pos hcond, splitDecimal_chars]
  rfl

/-! ## The text of a machine number -/

theorem isDigit_toDigits (n : Nat) : ∀ c ∈ Nat.toDigits 10 n, c.isDigit = true := fun _ hc =>
  Nat.isDigit_of_mem_toDigits (by omega) (by omega) hc

theorem isDigit_replicate (k : Nat) : ∀ c ∈ List.replicate k '0', c.isDigit = true := by
  intro c hc
  rw [List.eq_of_mem_replicate hc]
  decide

theorem isDigit_append {as bs : List Char} (ha : ∀ c ∈ as, c.isDigit = true) (hb : ∀ c ∈ bs, c.isDigit = true) :
    ∀ c ∈ as ++ bs, c.isDigit = true := List.forall_mem_append.2 ⟨ha, hb⟩

theorem natOfDigits_toDigits (n : Nat) : natOfDigits (Nat.toDigits 10 n) = n := by
  rw [natOfDigits_eq (isDigit_toDigits n), Nat.ofDigitChars_ten_toDigits]

/-- Zeros before digits do not count. -/
theorem natOfDigits_zeros (k n : Nat) : natOfDigits (List.replicate k '0' ++ Nat.toDigits 10 n) = n := by
  rw [natOfDigits_eq (isDigit_append (isDigit_replicate k) (isDigit_toDigits n)), Nat.ofDigitChars_append,
    Nat.ofDigitChars_replicate_zero, Nat.mul_zero, Nat.ofDigitChars_ten_toDigits]

/-- A zero behind digits is a factor of ten. -/
theorem natOfDigits_append_zeros (n k : Nat) :
    natOfDigits (Nat.toDigits 10 n ++ List.replicate k '0') = 10 ^ k * n := by
  rw [natOfDigits_eq (isDigit_append (isDigit_toDigits n) (isDigit_replicate k)), Nat.ofDigitChars_append,
    Nat.ofDigitChars_replicate_zero, Nat.ofDigitChars_ten_toDigits]

theorem exponentText_toList (width : Nat) (e : Int) :
    ∃ ds, (Decimal.exponentText width e).toList = Shape.exponentChars (e < 0) ds ∧ ds ≠ [] ∧
      (∀ c ∈ ds, c.isDigit = true) ∧ Shape.scale (e < 0) ds = e := by
  refine ⟨List.replicate (width - (Nat.repr e.natAbs).length) '0' ++ Nat.toDigits 10 e.natAbs, ?_, ?_, ?_, ?_⟩
  · rw [Shape.exponentChars_of_ne _ (by simp)]
    unfold Decimal.exponentText
    by_cases he : e < 0 <;> simp [he]
  · simp
  · exact isDigit_append (isDigit_replicate _) (isDigit_toDigits _)
  · unfold Shape.scale
    rw [natOfDigits_zeros]
    simp only [decide_eq_true_eq]
    split <;> omega

section Layout

variable {l : Decimal.Layout} {d : Decimal.Digits}

/-- The exponent of the leading digit. -/
def leadOf (d : Decimal.Digits) : Int := d.exponent + (Nat.toDigits 10 d.digits).length - 1

/-- One digit before the point, and an exponent. -/
theorem text_scientific (h : leadOf d < l.lowest ∨ l.limit ≤ leadOf d) :
    ∃ s : Shape, (d.text l).toList = s.chars ∧ s.exponent ≠ [] ∧ s.value = d.value := by
  have hds := isDigit_toDigits d.digits
  have hnat := natOfDigits_toDigits d.digits
  have hlen : 0 < (Nat.toDigits 10 d.digits).length := Nat.length_toDigits_pos
  obtain ⟨es, htext, hne, hes, hscale⟩ := exponentText_toList l.exponentDigits (leadOf d)
  unfold Decimal.Digits.text
  unfold leadOf at *
  simp only [h, if_true]
  generalize Nat.toDigits 10 d.digits = ds at *
  have htail : (if ds.length = 1 then [] else '.' :: ds.drop 1) = Shape.fractionChars (ds.drop 1) := by
    split
    · rename_i h1
      rw [List.drop_eq_nil_of_le (by omega)]
      rfl
    · rw [Shape.fractionChars_of_ne]
      intro h0
      have := List.drop_eq_nil_iff.1 h0
      omega
  refine ⟨⟨ds.take 1, ds.drop 1, d.exponent + ds.length - 1 < 0, es, ?_, ?_, ?_, hes⟩, ?_, hne, ?_⟩
  · simpa using List.length_pos_iff.1 hlen
  · exact fun c hc => hds c (List.mem_of_mem_take hc)
  · exact fun c hc => hds c (List.mem_of_mem_drop hc)
  · rw [String.toList_append, htext, String.toList_ofList, htail]
    simp [Shape.chars]
  · simp only [Shape.value, Shape.power, Decimal.Digits.value, List.take_append_drop, hnat, hscale,
      List.length_drop]
    congr 2
    omega

/-- Zeros between the point and the digits. -/
theorem text_small (h : ¬ (leadOf d < l.lowest ∨ l.limit ≤ leadOf d)) (hneg : leadOf d < 0) :
    ∃ s : Shape, (d.text l).toList = s.chars ∧ s.fraction ≠ [] ∧ s.value = d.value := by
  have hnat := natOfDigits_zeros ((-leadOf d - 1).toNat + 1) d.digits
  have hlen : Nat.toDigits 10 d.digits ≠ [] := Nat.toDigits_ne_nil
  have hdigits := isDigit_append (isDigit_replicate (-leadOf d - 1).toNat) (isDigit_toDigits d.digits)
  unfold Decimal.Digits.text
  unfold leadOf at *
  simp only [h, hneg, if_true, if_false]
  generalize Nat.toDigits 10 d.digits = ds at *
  have hne : List.replicate (-(d.exponent + ds.length - 1) - 1).toNat '0' ++ ds ≠ [] := by simp [hlen]
  refine ⟨⟨['0'], List.replicate (-(d.exponent + ds.length - 1) - 1).toNat '0' ++ ds, false, [],
    by simp, by simp, hdigits, by simp⟩, ?_, hne, ?_⟩
  · rw [String.toList_append, String.toList_ofList]
    simp only [Shape.chars]
    rw [Shape.fractionChars_of_ne hne]
    simp [Shape.exponentChars]
  · rw [List.replicate_succ, List.cons_append] at hnat
    simp only [Shape.value, Shape.power, Decimal.Digits.value, Shape.scale, List.cons_append, List.nil_append,
      hnat, List.length_append, List.length_replicate]
    congr 2
    simp [natOfDigits]
    omega

/-- The point behind the leading digits. -/
theorem text_plain (h : ¬ (leadOf d < l.lowest ∨ l.limit ≤ leadOf d)) (hneg : ¬ leadOf d < 0) :
    ∃ s : Shape, (d.text l).toList = s.chars ∧ s.fraction ≠ [] ∧ s.value = d.value := by
  have hds := isDigit_toDigits d.digits
  have hnat := natOfDigits_toDigits d.digits
  have hnat' := natOfDigits_append_zeros d.digits (d.exponent.toNat + 1)
  have hlen : Nat.toDigits 10 d.digits ≠ [] := Nat.toDigits_ne_nil
  unfold Decimal.Digits.text
  unfold leadOf at *
  simp only [h, hneg, if_false]
  generalize Nat.toDigits 10 d.digits = ds at *
  generalize hlead : (d.exponent + ds.length - 1).toNat + 1 = lead at *
  have hwhole : ∀ c ∈ ds.take lead ++ List.replicate d.exponent.toNat '0', c.isDigit = true :=
    isDigit_append (fun c hc => hds c (List.mem_of_mem_take hc)) (isDigit_replicate _)
  have hne : ds.take lead ++ List.replicate d.exponent.toNat '0' ≠ [] := by
    simp [hlen]
    omega
  by_cases hdrop : ds.drop lead = []
  · have hle := List.drop_eq_nil_iff.1 hdrop
    refine ⟨⟨ds.take lead ++ List.replicate d.exponent.toNat '0', ['0'], false, [], hne, hwhole, by simp,
      by simp⟩, ?_, by simp, ?_⟩
    · simp [hdrop, Shape.chars, Shape.fractionChars, Shape.exponentChars]
    · rw [List.replicate_succ', ← List.append_assoc] at hnat'
      have he : (10 : ℚ) ^ d.exponent = 10 ^ d.exponent.toNat := by
        rw [← zpow_natCast, Int.toNat_of_nonneg (by omega)]
      simp only [Shape.value, Shape.power, Decimal.Digits.value, List.take_of_length_le hle, hnat', he]
      simp [Shape.scale, natOfDigits, pow_succ]
      ring
  · have hlt : lead < ds.length := by
      by_contra hle
      exact hdrop (List.drop_eq_nil_of_le (by omega))
    refine ⟨⟨ds.take lead ++ List.replicate d.exponent.toNat '0', ds.drop lead, false, [], hne, hwhole,
      fun c hc => hds c (List.mem_of_mem_drop hc), by simp⟩, ?_, hdrop, ?_⟩
    · simp [hdrop, Shape.chars, Shape.fractionChars_of_ne hdrop, Shape.exponentChars]
    · simp only [Shape.value, Shape.power, Decimal.Digits.value, show d.exponent.toNat = 0 by omega,
        List.replicate_zero, List.append_nil, List.take_append_drop, hnat, List.length_drop]
      congr 2
      simp [Shape.scale, natOfDigits]
      omega

end Layout

/-- A machine number is written as a numeral of the same value. -/
theorem text_shape (l : Decimal.Layout) (d : Decimal.Digits) :
    ∃ s : Shape, (d.text l).toList = s.chars ∧ (s.fraction ≠ [] ∨ s.exponent ≠ []) ∧ s.value = d.value := by
  by_cases h : leadOf d < l.lowest ∨ l.limit ≤ leadOf d
  · obtain ⟨s, h1, h2, h3⟩ := text_scientific h
    exact ⟨s, h1, .inr h2, h3⟩
  · by_cases hneg : leadOf d < 0
    · obtain ⟨s, h1, h2, h3⟩ := text_small h hneg
      exact ⟨s, h1, .inl h2, h3⟩
    · obtain ⟨s, h1, h2, h3⟩ := text_plain h hneg
      exact ⟨s, h1, .inl h2, h3⟩

end ExprCalculus.Numeral

namespace ExprCalculus.Num

open Grammar

/-- A literal that its text determines: finite, and not the negative zero, whose sign is not part of a
literal's text. -/
def Writable (v : Num) : Prop := v.exactValue? ≠ none ∧ v ≠ .float (-0.0)

instance (v : Num) : Decidable v.Writable := inferInstanceAs (Decidable (_ ∧ _))

theorem zeroShape : ∃ s : Numeral.Shape, "0.0".toList = s.chars ∧ numeralValue s.chars = .float 0.0 := by
  let s : Numeral.Shape := ⟨['0'], ['0'], false, [], by simp, by simp, by simp, by simp⟩
  refine ⟨s, rfl, ?_⟩
  rw [Numeral.numeralValue_float s (.inl (by simp [s]))]
  rfl

theorem float_shape {x : Float} {d : Dyadic} (h : Dyadic.ofFloat? x = some d) (hs : d.negative = false) :
    ∃ s : Numeral.Shape, (Decimal.floatText x).toList = s.chars ∧ numeralValue s.chars = .float x := by
  unfold Decimal.floatText
  simp only [h, hs, Bool.false_eq_true, if_false]
  obtain ⟨hc, -, -⟩ := Dyadic.ofFloat?_spec h
  split
  · rename_i hm
    obtain ⟨s, hs1, hs2⟩ := zeroShape
    have hx : x = 0.0 := by
      rw [canonical_zero hc hm, hs] at h
      exact Dyadic.eq_of_ofFloat? h ofFloat?_zero
    exact ⟨s, hs1, by rw [hs2, hx]⟩
  · rename_i hm
    obtain ⟨s, hs1, hs2, hs3⟩ := Numeral.text_shape Decimal.layout (Decimal.shortest d.mantissa d.exponent)
    have hr := Decimal.shortest_roundsTo (e := d.exponent) hm hc.mantissa_lt
    rw [← hs3] at hr
    refine ⟨s, hs1, ?_⟩
    rw [Numeral.numeralValue_float s hs2, Numeral.floatOfDecimal_of_roundsTo h hs hm hr]

theorem int_shape {n : Int} (h : 0 ≤ n) :
    ∃ s : Numeral.Shape, (Decimal.intText n).toList = s.chars ∧ numeralValue s.chars = .int n := by
  let s : Numeral.Shape := ⟨Nat.toDigits 10 n.natAbs, [], false, [], Nat.toDigits_ne_nil,
    Numeral.isDigit_toDigits _, by simp, by simp⟩
  refine ⟨s, ?_, ?_⟩
  · simp [Decimal.intText, show ¬ n < 0 by omega, s, Numeral.Shape.chars, Numeral.Shape.fractionChars,
      Numeral.Shape.exponentChars]
  · rw [Numeral.numeralValue_int s rfl rfl, Numeral.natOfDigits_toDigits]
    congr 1
    omega

/-- **A literal that is not negative is written as a numeral that is read as the same literal.** -/
theorem text_readable {v : Num} (hv : v.Writable) (hn : v.isNegative = false) :
    ∃ s : Numeral.Shape, v.text.toList = s.chars ∧ numeralValue s.chars = v := by
  cases v with
  | int n => exact int_shape (by simpa [isNegative] using hn)
  | float x =>
    obtain ⟨hfin, hzero⟩ := hv
    obtain ⟨d, hd⟩ := Option.ne_none_iff_exists'.1 hfin
    have hnot : ¬ x < 0 := by simpa [isNegative] using hn
    have hs : d.negative = false := by
      by_contra hneg
      rw [Bool.not_eq_false] at hneg
      rw [Dyadic.lt_zero_iff hd, not_and, Decidable.not_not] at hnot
      rw [canonical_zero (Dyadic.ofFloat?_spec hd).1 (hnot hneg), hneg] at hd
      exact hzero (congrArg Num.float (Dyadic.eq_of_ofFloat? hd ofFloat?_negZero))
    exact float_shape hd hs

/-- A negative literal is written as its opposite behind a sign. -/
theorem text_of_negative {v : Num} (hv : v.Writable) (hn : v.isNegative = true) :
    v.text = "-" ++ v.negate.text ∧ v.negate.Writable ∧ v.negate.isNegative = false ∧ v.negate.negate = v := by
  cases v with
  | int n =>
    have hlt : n < 0 := by simpa [isNegative] using hn
    refine ⟨?_, ⟨by simp [negate, exactValue?], by simp [negate]⟩, ?_, ?_⟩
    · simp only [text, negate, Decimal.intText]
      rw [if_pos hlt, if_neg (by omega), Int.natAbs_neg]
    · simp [negate, isNegative]
      omega
    · simp [negate]
  | float x =>
    obtain ⟨d, hd⟩ := Option.ne_none_iff_exists'.1 hv.1
    have hx : Dyadic.ofFloat? x = some d := hd
    have hlt : x < 0 := by simpa [isNegative] using hn
    obtain ⟨hs, hm⟩ := (Dyadic.lt_zero_iff hx).1 hlt
    have hneg := Dyadic.ofFloat?_neg hx
    refine ⟨?_, ⟨?_, ?_⟩, ?_, ?_⟩
    · simp [text, negate, Decimal.floatText, hx, hneg, hs, hm, Dyadic.opposite]
    · simp [negate, exactValue?, hneg]
    · intro heq
      rw [negate, Num.float.injEq] at heq
      rw [heq, ofFloat?_negZero] at hneg
      have hopposite := congrArg Dyadic.negative (Option.some.inj hneg)
      simp [Dyadic.opposite, hs] at hopposite
    · simp only [negate, isNegative, decide_eq_false_iff_not]
      rw [Dyadic.lt_zero_iff hneg]
      simp [Dyadic.opposite, hs]
    · simp only [negate]
      rw [Dyadic.neg_neg_eq hx]

end ExprCalculus.Num
