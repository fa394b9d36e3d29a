import ExprCalculus.Grammar.Token
import Mathlib.Data.List.TakeWhile

/-!
# Numerals

A numeral is a mantissa, with an exponent behind it or without one.  The scanner looks at what stands behind: a mantissa
takes all the digits and the point, unless another point follows it, and an `e` that no digits follow is no exponent.

* `scanMantissa_eq_some_iff`, `scanExponent_cases` - the two parts.
* `scanNumber_eq_some_iff` - the scanner cuts off exactly the numerals that do not go on.
-/

namespace ExprCalculus.Grammar

open Text

/-! ## The parts of a numeral -/

/-- Decimal digits and nothing else. -/
def Digits (ds : List Char) : Prop := ∀ d ∈ ds, isDigit d = true

/-- The part of a numeral before its exponent. -/
inductive Mantissa : List Char → Prop
  | whole {ds : List Char} (hne : ds ≠ []) (hds : Digits ds) : Mantissa ds
  | point {ds fs : List Char} (hne : ds ≠ []) (hds : Digits ds) (hfs : Digits fs) : Mantissa (ds ++ '.' :: fs)
  | fraction {fs : List Char} (hne : fs ≠ []) (hfs : Digits fs) : Mantissa ('.' :: fs)

/-- The exponent of a numeral. -/
inductive Exponent : List Char → Prop
  | intro {c : Char} {sign ds : List Char} (hc : c = 'e' ∨ c = 'E') (hsign : sign = [] ∨ sign = ['+'] ∨ sign = ['-'])
    (hne : ds ≠ []) (hds : Digits ds) : Exponent (c :: (sign ++ ds))

/-! ## Where numerals end -/

/-- The front of a text whose characters all have a property, before one that has not. -/
theorem span_append {p : Char → Bool} {ds r : List Char} (hds : ∀ d ∈ ds, p d = true)
    (hr : ∀ c, r.head? = some c → p c = false) : (ds ++ r).takeWhile p = ds ∧ (ds ++ r).dropWhile p = r := by
  rw [List.takeWhile_append_of_pos hds, List.dropWhile_append_of_pos hds]
  cases r with
  | nil => simp
  | cons c r => simp [hr c rfl]

theorem digits_takeWhile (cs : List Char) : Digits (cs.takeWhile isDigit) := fun _ hd => List.mem_takeWhile_imp hd

theorem head_dropWhile {p : Char → Bool} {cs : List Char} : ∀ c, (cs.dropWhile p).head? = some c → p c = false := by
  intro c hc
  have hnot := List.head?_dropWhile_not p cs
  rwa [hc] at hnot

theorem isDigit_point : isDigit '.' = false := by decide

theorem Digits.not_point {ds : List Char} (h : Digits ds) : '.' ∉ ds := fun hmem => by
  have hdigit := h '.' hmem
  rw [isDigit_point] at hdigit
  cases hdigit

theorem Digits.getLast_ne {ds : List Char} (h : Digits ds) : ds.getLast? ≠ some '.' :=
  fun hlast => h.not_point (List.mem_of_getLast? hlast)

/-- A mantissa that ends in its point has no fraction. -/
theorem Digits.eq_nil_of_getLast {ds fs : List Char} (h : Digits fs) (hlast : (ds ++ '.' :: fs).getLast? = some '.') :
    fs = [] := by
  obtain rfl | ⟨init, d, rfl⟩ := List.eq_nil_or_concat fs
  · rfl
  · have hd : d = '.' := by simpa [List.getLast?_append, List.getLast?_cons] using hlast
    exact absurd (by simp [hd]) h.not_point

/-- What follows does not go on with a mantissa.  A point without a fraction stands before no other point, and a point
behind digits is the first of two. -/
structure MantissaEnds (m r : List Char) : Prop where
  digit : ∀ c, r.head? = some c → isDigit c = false
  point : m.getLast? = some '.' → r.head? ≠ some '.'
  dots : '.' ∉ m → r.head? = some '.' → r.tail.head? = some '.'

/-- The scanner cuts off exactly the mantissas that end. -/
theorem scanMantissa_eq_some_iff {cs m r : List Char} :
    scanMantissa cs = some (m, r) ↔ cs = m ++ r ∧ Mantissa m ∧ MantissaEnds m r := by
  constructor
  · intro h
    refine ⟨(scanMantissa_append h).1.symm, ?_⟩
    have hds := digits_takeWhile cs
    simp only [scanMantissa] at h
    split at h
    · split at h
      · rename_i r' hr
        split at h
        · cases h
        · rename_i hfs
          rw [List.isEmpty_iff] at hfs
          cases h
          refine ⟨.fraction hfs (digits_takeWhile r'), head_dropWhile, fun hlast => ?_, by simp⟩
          rw [List.getLast?_cons_of_ne_nil hfs] at hlast
          exact absurd hlast (digits_takeWhile r').getLast_ne
      · cases h
    · rename_i hne
      rw [List.isEmpty_iff] at hne
      split at h
      · rename_i r' hr
        cases h
        refine ⟨.whole hne hds, head_dropWhile, fun hlast => absurd hlast hds.getLast_ne, fun _ _ => ?_⟩
        rw [hr]
        rfl
      · rename_i r' hno hr
        cases h
        refine ⟨.point hne hds (digits_takeWhile r'), head_dropWhile, fun hlast hpoint => ?_, by simp⟩
        have hnil := (digits_takeWhile r').eq_nil_of_getLast hlast
        have hcut := List.takeWhile_append_dropWhile (p := isDigit) (l := r')
        rw [hnil, List.nil_append] at hcut
        rw [hcut] at hpoint
        obtain ⟨r'', rfl⟩ := List.head?_eq_some_iff.mp hpoint
        exact hno r'' rfl
      · rename_i hno
        cases h
        refine ⟨.whole hne hds, head_dropWhile, fun hlast => absurd hlast hds.getLast_ne, fun _ hpoint => ?_⟩
        obtain ⟨r', hr⟩ := List.head?_eq_some_iff.mp hpoint
        exact absurd hr (hno r')
  · rintro ⟨rfl, hm, hends⟩
    cases hm with
    | whole hne hds =>
      obtain ⟨h1, h2⟩ := span_append hds hends.digit
      simp only [scanMantissa, h1, h2]
      rw [if_neg (by simpa using hne)]
      split
      · rfl
      · rename_i r' hno
        obtain ⟨r'', hr⟩ := List.head?_eq_some_iff.mp (hends.dots hds.not_point rfl)
        exact absurd hr (hno r'')
      · rfl
    | @point ds fs hne hds hfs =>
      rw [List.append_assoc, List.cons_append]
      obtain ⟨h1, h2⟩ := span_append (r := '.' :: (fs ++ r)) hds (by simp [isDigit_point])
      obtain ⟨h3, h4⟩ := span_append hfs hends.digit
      simp only [scanMantissa, h1, h2]
      rw [if_neg (by simpa using hne)]
      split
      · rename_i r' heq
        have hpoint : (fs ++ r).head? = some '.' := by simp [(List.cons.inj heq).2]
        cases fs with
        | nil => exact absurd hpoint (hends.point (by simp))
        | cons d fs =>
          cases hpoint
          exact absurd List.mem_cons_self hfs.not_point
      · rename_i heq
        cases heq
        rw [h3, h4]
      · rename_i hno
        exact absurd rfl (hno _)
    | fraction hne hfs =>
      obtain ⟨h1, h2⟩ := span_append hfs hends.digit
      simp [scanMantissa, isDigit_point, h1, h2, hne]

theorem scanSign_append_digits {sign ds r : List Char} (hsign : sign = [] ∨ sign = ['+'] ∨ sign = ['-'])
    (hne : ds ≠ []) (hds : Digits ds) : scanSign (sign ++ (ds ++ r)) = (sign, ds ++ r) := by
  obtain rfl | rfl | rfl := hsign
  · obtain ⟨d, ds, rfl⟩ := List.exists_cons_of_ne_nil hne
    have hd : isDigit d = true := hds d List.mem_cons_self
    have hplus : d ≠ '+' := by
      rintro rfl
      exact absurd hd (by decide)
    have hminus : d ≠ '-' := by
      rintro rfl
      exact absurd hd (by decide)
    simp [scanSign, hplus, hminus]
  · rfl
  · rfl

/-- An exponent is cut off whole. -/
theorem scanExponent_append_of_exponent {x r : List Char} (hx : Exponent x)
    (hr : ∀ c, r.head? = some c → isDigit c = false) : scanExponent (x ++ r) = (x, r) := by
  obtain ⟨hc, hsign, hne, hds⟩ := hx
  obtain ⟨h1, h2⟩ := span_append hds hr
  simp only [scanExponent, List.cons_append, List.append_assoc, if_pos hc, scanSign_append_digits hsign hne hds, h1, h2]
  rw [if_neg (by simpa using hne)]

theorem scanSign_sign (cs : List Char) : (scanSign cs).1 = [] ∨ (scanSign cs).1 = ['+'] ∨ (scanSign cs).1 = ['-'] := by
  unfold scanSign
  split
  · exact .inr (.inl rfl)
  · exact .inr (.inr rfl)
  · exact .inl rfl

/-- Either an exponent is cut off, or there is none. -/
theorem scanExponent_cases (cs : List Char) :
    (∃ x r, scanExponent cs = (x, r) ∧ Exponent x ∧ ∀ c, r.head? = some c → isDigit c = false) ∨
      scanExponent cs = ([], cs) ∧ ∀ x r, Exponent x → cs ≠ x ++ r := by
  unfold scanExponent
  split
  · rename_i c cs
    split
    · rename_i hc
      simp only
      split
      · rename_i hnone
        refine .inr ⟨rfl, ?_⟩
        rintro _ r ⟨_, hsign, hne, hds⟩ heq
        simp only [List.cons_append, List.append_assoc, List.cons.injEq] at heq
        rw [heq.2, scanSign_append_digits hsign hne hds, List.isEmpty_iff, List.takeWhile_append_of_pos hds] at hnone
        exact hne (List.append_eq_nil_iff.mp hnone).1
      · rename_i hds
        rw [List.isEmpty_iff] at hds
        exact .inl ⟨_, _, rfl, .intro hc (scanSign_sign cs) hds (digits_takeWhile _), head_dropWhile⟩
    · rename_i hc
      refine .inr ⟨rfl, ?_⟩
      rintro _ r ⟨hc', _, _, _⟩ heq
      rw [List.cons_append, List.cons.injEq] at heq
      exact hc (heq.1 ▸ hc')
  · refine .inr ⟨rfl, ?_⟩
    rintro _ r ⟨_, _, _, _⟩ heq
    cases heq

/-- A numeral before the rest of a text, which does not go on with it. -/
inductive NumeralBefore : List Char → List Char → Prop
  | plain {m r : List Char} (hm : Mantissa m) (hends : MantissaEnds m r) (hx : ∀ y s, Exponent y → r ≠ y ++ s) :
    NumeralBefore m r
  | scaled {m x r : List Char} (hm : Mantissa m) (hx : Exponent x)
    (hr : ∀ c, r.head? = some c → isDigit c = false) : NumeralBefore (m ++ x) r

/-- An exponent ends any mantissa. -/
theorem mantissaEnds_exponent (m : List Char) {x : List Char} (hx : Exponent x) (r : List Char) :
    MantissaEnds m (x ++ r) := by
  obtain ⟨hc, _, _, _⟩ := hx
  obtain rfl | rfl := hc
  · exact ⟨by simp; decide, by simp, by simp⟩
  · exact ⟨by simp; decide, by simp, by simp⟩

/-- The scanner cuts off exactly the numerals that end. -/
theorem scanNumber_eq_some_iff {cs text r : List Char} :
    scanNumber cs = some (text, r) ↔ cs = text ++ r ∧ NumeralBefore text r := by
  constructor
  · intro h
    refine ⟨(scanNumber_append h).1.symm, ?_⟩
    simp only [scanNumber] at h
    split at h
    · cases h
    · rename_i m s hm
      cases h
      obtain ⟨-, hmantissa, hends⟩ := scanMantissa_eq_some_iff.mp hm
      obtain ⟨x, r, hscan, hexponent, hdigit⟩ | ⟨hscan, hnone⟩ := scanExponent_cases s
      · rw [hscan]
        exact .scaled hmantissa hexponent hdigit
      · rw [hscan, List.append_nil]
        exact .plain hmantissa hends hnone
  · rintro ⟨rfl, h⟩
    cases h with
    | plain hm hends hx =>
      simp only [scanNumber, scanMantissa_eq_some_iff.mpr ⟨rfl, hm, hends⟩]
      obtain ⟨x, s, hscan, hexponent, -⟩ | ⟨hscan, -⟩ := scanExponent_cases r
      · have happend := scanExponent_append r
        rw [hscan] at happend
        exact absurd happend.symm (hx x s hexponent)
      · rw [hscan, List.append_nil]
    | scaled hm hx hr =>
      have hmantissa := scanMantissa_eq_some_iff.mpr ⟨rfl, hm, mantissaEnds_exponent _ hx r⟩
      rw [← List.append_assoc] at hmantissa
      simp only [scanNumber, hmantissa, scanExponent_append_of_exponent hx hr]

theorem Mantissa.head {m : List Char} (h : Mantissa m) : ∃ c cs, m = c :: cs ∧ (isDigit c = true ∨ c = '.') := by
  cases h with
  | whole hne hds =>
    obtain ⟨d, ds, rfl⟩ := List.exists_cons_of_ne_nil hne
    exact ⟨d, ds, rfl, .inl (hds d List.mem_cons_self)⟩
  | point hne hds _ =>
    obtain ⟨d, ds, rfl⟩ := List.exists_cons_of_ne_nil hne
    exact ⟨d, _, rfl, .inl (hds d List.mem_cons_self)⟩
  | fraction _ _ => exact ⟨'.', _, rfl, .inr rfl⟩

theorem NumeralBefore.head {text r : List Char} (h : NumeralBefore text r) :
    ∃ c cs, text = c :: cs ∧ (isDigit c = true ∨ c = '.') := by
  cases h with
  | plain hm _ _ => exact hm.head
  | scaled hm _ _ =>
    obtain ⟨c, cs, rfl, hc⟩ := hm.head
    exact ⟨c, _, rfl, hc⟩

end ExprCalculus.Grammar
