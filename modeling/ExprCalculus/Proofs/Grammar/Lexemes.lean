import ExprCalculus.Proofs.Grammar.Numerals
import ExprCalculus.Proofs.Grammar.Tokens

/-!
# What tokens are made of

A token is a lexeme: a numeral, a name, the name of a function or a mark.  `Lexeme` says what each kind is made of and
which parts of it matter, and nothing about what stands behind it.  `CutBefore` says besides that what follows does not
go on with it.

* `scan_eq_some_iff` - the scanner cuts off exactly such tokens.
* `CutBefore.of_append` - a token stays the same where white space comes behind it, or behind what follows it.
* `Lexeme.groups_eq` - the parts of a token are those of its lexeme.
-/

namespace ExprCalculus.Grammar

open Text

/-! ## White space -/

/-- White space and nothing else. -/
def Blank (s : List Char) : Prop := ∀ c ∈ s, isBlank c = true

/-- A text that is empty or begins with white space. -/
def Halts (s : List Char) : Prop := ∀ c, s.head? = some c → isBlank c = true

theorem Blank.halts {s : List Char} (h : Blank s) : Halts s := fun c hc => h c (List.mem_of_head? hc)

/-- White space stands in no name and no numeral. -/
theorem not_word_of_isBlank {c : Char} (h : isBlank c = true) : isWord c = false ∧ isDigit c = false := by
  have hall : ∀ r ∈ blankRanges, ∀ n ∈ List.range' r.1 (r.2 + 1 - r.1),
      isWord (Char.ofNat n) = false ∧ isDigit (Char.ofNat n) = false := by decide +kernel
  obtain ⟨r, hr, hlo, hhi⟩ := inRanges_iff.mp h
  have hc := hall r hr c.toNat (List.mem_range'_1.mpr ⟨hlo, by omega⟩)
  rwa [Char.ofNat_toNat] at hc

/-! ## Lexemes -/

/-- The marks. -/
def marks : List (Kind × List Char) :=
  [(.power, ['*', '*']), (.power, ['^']), (.times, ['*']), (.divide, ['/']), (.modulo, ['%']), (.plus, ['+']),
    (.minus, ['-']), (.parenL, ['(']), (.parenR, [')']), (.bracketL, ['[']), (.bracketR, [']']), (.dots, ['.', '.']),
    (.comma, [','])]

/-- What the tokens of each kind are made of, with the parts that matter: mantissa and exponent of a numeral, the name of
a function. -/
inductive Lexeme : Kind → List Char → List (Option (List Char)) → Prop
  | numeral {m : List Char} (hm : Mantissa m) : Lexeme .number m [some m, none]
  | scaled {m x : List Char} (hm : Mantissa m) (hx : Exponent x) : Lexeme .number (m ++ x) [some m, some x]
  | function {w : List Char} (hw : w ∈ functionNames) : Lexeme .function w [some w]
  | name {c : Char} {w : List Char} (hc : isNameStart c = true) (hw : ∀ d ∈ w, isWord d = true) :
    Lexeme .name (c :: w) []
  | mark {k : Kind} {w : List Char} (h : (k, w) ∈ marks) : Lexeme k w []

/-! ## Where tokens end -/

/-- The kind of a word. -/
def wordKind (w : List Char) : Kind := if functionNames.contains w then .function else .name

/-- A token of this kind and text before the rest, which does not go on with it. -/
inductive CutBefore : Kind → List Char → List Char → Prop
  | number {text r : List Char} (h : NumeralBefore text r) : CutBefore .number text r
  | word {c : Char} {w r : List Char} (hc : isNameStart c = true) (hw : ∀ d ∈ w, isWord d = true)
    (hr : ∀ d, r.head? = some d → isWord d = false) : CutBefore (wordKind (c :: w)) (c :: w) r
  | mark {k : Kind} {w r : List Char} (h : (k, w) ∈ marks) (hr : w = ['*'] → r.head? ≠ some '*') : CutBefore k w r

theorem cutBefore_of_scanMark {cs text r : List Char} {k : Kind} (h : scanMark cs = some (k, text, r)) :
    CutBefore k text r := by
  unfold scanMark at h
  split at h
  case h_3 r' hno =>
    cases h
    refine .mark (by simp [marks]) fun _ hstar => ?_
    obtain ⟨s, rfl⟩ := List.head?_eq_some_iff.mp hstar
    exact hno s rfl
  all_goals
    cases h
    try exact .mark (by simp [marks]) (by simp)

/-- A mark is cut off before any text, but for one star before another. -/
theorem scan_mark {k : Kind} {w r : List Char} (h : (k, w) ∈ marks) (hr : w = ['*'] → r.head? ≠ some '*') :
    scan (w ++ r) = some (k, w, r) := by
  simp only [marks, List.mem_cons, Prod.mk.injEq, List.not_mem_nil, or_false] at h
  rcases h with ⟨rfl, rfl⟩ | ⟨rfl, rfl⟩ | ⟨rfl, rfl⟩ | ⟨rfl, rfl⟩ | ⟨rfl, rfl⟩ | ⟨rfl, rfl⟩ | ⟨rfl, rfl⟩ | ⟨rfl, rfl⟩ |
    ⟨rfl, rfl⟩ | ⟨rfl, rfl⟩ | ⟨rfl, rfl⟩ | ⟨rfl, rfl⟩ | ⟨rfl, rfl⟩
  case inr.inr.inl =>
    have hstar : scanMark ('*' :: r) = some (.times, ['*'], r) := by
      unfold scanMark
      split
      case h_1 heq =>
        obtain ⟨rfl⟩ := (List.cons.inj heq).2
        exact absurd rfl (hr rfl)
      case h_3 heq =>
        obtain ⟨rfl⟩ := (List.cons.inj heq).2
        rfl
      all_goals simp_all
    exact hstar
  all_goals rfl

theorem isNameStart_range {c : Char} (h : isNameStart c = true) : 65 ≤ c.toNat ∧ c.toNat < 128 := by
  simp only [isNameStart, isLatinLetter, Bool.or_eq_true, Bool.and_eq_true, decide_eq_true_eq,
    beq_iff_eq] at h
  have hle : ∀ a b : Char, a ≤ b → a.toNat ≤ b.toNat := fun _ _ h => UInt32.le_iff_toNat_le.1 h
  rcases h with (⟨h1, h2⟩ | ⟨h1, h2⟩) | rfl
  · exact ⟨Nat.le_trans (by decide) (hle _ _ h1), Nat.lt_of_le_of_lt (hle _ _ h2) (by decide)⟩
  · exact ⟨hle _ _ h1, Nat.lt_of_le_of_lt (hle _ _ h2) (by decide)⟩
  · decide

/-- What begins a name begins no numeral. -/
theorem scanNumber_name {c : Char} {cs : List Char} (h : isNameStart c = true) : scanNumber (c :: cs) = none := by
  obtain ⟨h1, h2⟩ := isNameStart_range h
  have hdigit : isDigit c = false := by
    have h9 : ¬ c ≤ '9' := fun h9 =>
      absurd (UInt32.le_iff_toNat_le.1 h9) (Nat.not_le.2 (Nat.lt_of_lt_of_le (by decide) h1))
    simp [isDigit, digitValue?, h9, h2]
  rw [Option.eq_none_iff_forall_not_mem]
  rintro ⟨text, r⟩ hscan
  obtain ⟨hcs, hnumeral⟩ := scanNumber_eq_some_iff.mp hscan
  obtain ⟨d, ds, rfl, hd⟩ := hnumeral.head
  obtain rfl := (List.cons.inj hcs).1
  rw [hdigit] at hd
  obtain hd | rfl := hd
  · cases hd
  · exact absurd h (by decide)

/-- **The scanner cuts off exactly the tokens that end**. -/
theorem scan_eq_some_iff {cs text r : List Char} {k : Kind} :
    scan cs = some (k, text, r) ↔ cs = text ++ r ∧ CutBefore k text r := by
  constructor
  · intro h
    refine ⟨(scan_append h).1.symm, ?_⟩
    unfold scan at h
    split at h
    · rename_i hnumber
      cases h
      exact .number (scanNumber_eq_some_iff.mp hnumber).2
    · split at h
      · cases h
      · rename_i c cs _
        split at h
        · rename_i hc
          cases h
          have htake : (c :: cs).takeWhile isWord = c :: cs.takeWhile isWord := by
            simp [isWord_of_isNameStart hc]
          rw [htake]
          exact .word hc (fun d hd => List.mem_takeWhile_imp hd) head_dropWhile
        · exact cutBefore_of_scanMark h
  · rintro ⟨rfl, h⟩
    cases h with
    | number h =>
      unfold scan
      rw [scanNumber_eq_some_iff.mpr ⟨rfl, h⟩]
    | @word c w _ hc hw hr =>
      have hall : ∀ d ∈ c :: w, isWord d = true := by simpa [isWord_of_isNameStart hc] using hw
      obtain ⟨h1, h2⟩ := span_append hall hr
      rw [List.cons_append] at h1 h2 ⊢
      simp only [scan, scanNumber_name hc, hc, if_true, h1, h2]
      rfl
    | mark h hr => exact scan_mark h hr

/-! ## Before white space -/

section

variable {p s s' : List Char}

theorem isBlank_of_isDigit {c : Char} (h : isDigit c = true) : isBlank c = false := by
  by_contra hblank
  rw [Bool.not_eq_false] at hblank
  rw [(not_word_of_isBlank hblank).2] at h
  cases h

/-- A property of what begins a text, which white space has, is kept where the text goes on with white space. -/
theorem head_of_halts {P : Char → Prop} (h : ∀ c, (p ++ s).head? = some c → P c) (hblank : ∀ c, isBlank c = true → P c)
    (hs' : Halts s') : ∀ c, (p ++ s').head? = some c → P c := by
  cases p with
  | nil => exact fun c hc => hblank c (hs' c hc)
  | cons d p => exact h

theorem Exponent.not_blank {x : List Char} (h : Exponent x) : ∀ c ∈ x, isBlank c = false := by
  obtain ⟨hc, hsign, _, hds⟩ := h
  intro d hd
  obtain rfl | hd := List.mem_cons.mp hd
  · obtain rfl | rfl := hc
    · decide
    · decide
  · obtain hd | hd := List.mem_append.mp hd
    · obtain rfl | rfl | rfl := hsign <;> simp at hd <;> subst hd <;> decide
    · exact isBlank_of_isDigit (hds d hd)

/-- What is without white space stands before it. -/
theorem prefix_of_halts {y t : List Char} (hs' : Halts s') (hy : ∀ c ∈ y, isBlank c = false) (h : p ++ s' = y ++ t) :
    ∃ a, p = y ++ a := by
  obtain ⟨a, rfl, rfl⟩ | ⟨a, rfl, -⟩ := List.append_eq_append_iff.mp h
  · cases a with
    | nil => exact ⟨[], by simp⟩
    | cons c a =>
      have hblank := hs' c rfl
      rw [hy c (by simp)] at hblank
      cases hblank
  · exact ⟨a, rfl⟩

theorem MantissaEnds.of_append {m : List Char} (h : MantissaEnds m (p ++ s)) (hs' : Halts s')
    (hp : p = ['.'] → s.head? ≠ some '.') : MantissaEnds m (p ++ s') where
  digit := head_of_halts h.digit (fun _ hc => (not_word_of_isBlank hc).2) hs'
  point hlast := by
    have hne := head_of_halts (P := (· ≠ '.')) (fun c hc hpoint => h.point hlast (hpoint ▸ hc))
      (by rintro _ hblank rfl; exact absurd hblank (by decide)) hs'
    exact fun hpoint => hne '.' hpoint rfl
  dots hm hpoint := by
    match p with
    | [] =>
      have hblank := hs' _ hpoint
      exact absurd hblank (by decide)
    | [d] =>
      cases hpoint
      exact absurd (h.dots hm rfl) (hp rfl)
    | d :: d' :: p => exact h.dots hm hpoint

/-- **A token stays the same where white space, or the end, comes after it or after what stands behind it**; but the
points of an interval must not come apart. -/
theorem CutBefore.of_append {k : Kind} {text : List Char} (h : CutBefore k text (p ++ s)) (hs' : Halts s')
    (hp : p = ['.'] → s.head? ≠ some '.') : CutBefore k text (p ++ s') := by
  generalize hr : p ++ s = r at h
  cases h with
  | number h =>
    cases h with
    | plain hm hends hx =>
      subst hr
      refine .number (.plain hm (hends.of_append hs' hp) fun y t hy heq => ?_)
      obtain ⟨a, rfl⟩ := prefix_of_halts hs' hy.not_blank heq
      exact hx y (a ++ s) hy (List.append_assoc _ _ _)
    | scaled hm hx hdigit =>
      subst hr
      exact .number (.scaled hm hx (head_of_halts hdigit (fun _ hc => (not_word_of_isBlank hc).2) hs'))
  | word hc hw hword =>
    subst hr
    exact .word hc hw (head_of_halts hword (fun _ hd => (not_word_of_isBlank hd).1) hs')
  | mark h hstar =>
    subst hr
    refine .mark h fun hw => ?_
    have hne := head_of_halts (P := (· ≠ '*')) (fun c hc hpoint => hstar hw (hpoint ▸ hc))
      (by rintro _ hblank rfl; exact absurd hblank (by decide)) hs'
    exact fun hpoint => hne '*' hpoint rfl

/-- A token stands before white space as it stands before anything. -/
theorem CutBefore.halts {k : Kind} {text r : List Char} (h : CutBefore k text r) (hs' : Halts s') : CutBefore k text s' :=
  CutBefore.of_append (p := []) h hs' (by simp)

/-- A token that stands alone is the same. -/
theorem scan_alone {k : Kind} {text r : List Char} (h : CutBefore k text r) : scan text = some (k, text, []) :=
  scan_eq_some_iff.mpr ⟨(List.append_nil _).symm, h.halts (by simp [Halts])⟩

end

/-! ## The parts of tokens -/

theorem Exponent.scan {x : List Char} (h : Exponent x) : scanExponent x = (x, []) := by
  have hscan := scanExponent_append_of_exponent (r := []) h (by simp)
  rwa [List.append_nil] at hscan

/-- The parts of a token are those of the lexeme that it is. -/
theorem Lexeme.groups_eq {k : Kind} {w : List Char} {gs : List (Option (List Char))} (h : Lexeme k w gs) (pos : Nat) :
    Token.groups ⟨k, w, pos⟩ = gs := by
  cases h with
  | @numeral m hm =>
    have hscan : scanMantissa w = some (w, []) :=
      scanMantissa_eq_some_iff.mpr ⟨(List.append_nil w).symm, hm, by simp, by simp, by simp⟩
    simp [Token.groups, hscan, scanExponent]
  | @scaled m x hm hx =>
    have hscan : scanMantissa (m ++ x) = some (m, x) := by
      refine scanMantissa_eq_some_iff.mpr ⟨rfl, hm, ?_⟩
      rw [← List.append_nil x]
      exact mantissaEnds_exponent m hx []
    have hne : x ≠ [] := by
      obtain ⟨_, _, _, _⟩ := hx
      exact List.cons_ne_nil _ _
    simp [Token.groups, hscan, hx.scan, hne]
  | function | name _ _ => rfl
  | mark h =>
    revert h
    cases k <;> first | exact fun _ => rfl | simp [marks]

/-- What is cut off is a lexeme. -/
theorem CutBefore.lexeme {k : Kind} {w r : List Char} (h : CutBefore k w r) : ∃ gs, Lexeme k w gs := by
  cases h with
  | number h =>
    cases h with
    | plain hm _ _ => exact ⟨_, .numeral hm⟩
    | scaled hm hx _ => exact ⟨_, .scaled hm hx⟩
  | @word c w _ hc hw _ =>
    unfold wordKind
    split
    · rename_i hf
      exact ⟨_, .function (by simpa using hf)⟩
    · exact ⟨_, .name hc hw⟩
  | mark h _ => exact ⟨_, .mark h⟩

/-- The characters of tokens that are not marks. -/
theorem CutBefore.chars {k : Kind} {w r : List Char} (h : CutBefore k w r) :
    (k, w) ∈ marks ∨ ∀ c ∈ w, isDigit c = true ∨ isWord c = true ∨ c ∈ ['.', '+', '-'] := by
  have mantissa {m : List Char} (hm : Mantissa m) : ∀ c ∈ m, isDigit c = true ∨ isWord c = true ∨ c ∈ ['.', '+', '-'] := by
    cases hm with
    | whole _ hds => exact fun c hc => .inl (hds c hc)
    | point _ hds hfs =>
      refine List.forall_mem_append.mpr ⟨fun c hc => .inl (hds c hc), ?_⟩
      exact List.forall_mem_cons.mpr ⟨by simp, fun c hc => .inl (hfs c hc)⟩
    | fraction _ hfs => exact List.forall_mem_cons.mpr ⟨by simp, fun c hc => .inl (hfs c hc)⟩
  cases h with
  | number h =>
    right
    cases h with
    | plain hm _ _ => exact mantissa hm
    | scaled hm hx _ =>
      refine List.forall_mem_append.mpr ⟨mantissa hm, ?_⟩
      obtain ⟨hc, hsign, _, hds⟩ := hx
      refine List.forall_mem_cons.mpr ⟨.inr (.inl ?_), List.forall_mem_append.mpr ⟨?_, fun c hc => .inl (hds c hc)⟩⟩
      · obtain rfl | rfl := hc <;> decide
      · obtain rfl | rfl | rfl := hsign <;> simp
  | word hc hw _ =>
    exact .inr (List.forall_mem_cons.mpr ⟨.inr (.inl (isWord_of_isNameStart hc)), fun d hd => .inr (.inl (hw d hd))⟩)
  | mark h _ => exact .inl h

/-- No token holds white space. -/
theorem CutBefore.not_blank {k : Kind} {w r : List Char} (h : CutBefore k w r) : ∀ c ∈ w, isBlank c = false := by
  obtain h | h := h.chars
  · have hall : ∀ m ∈ marks, m.2.all (fun c => !isBlank c) = true := by decide
    simpa using hall _ h
  · intro c hc
    obtain hc | hc | hc := h c hc
    · exact isBlank_of_isDigit hc
    · by_contra hblank
      rw [Bool.not_eq_false] at hblank
      rw [(not_word_of_isBlank hblank).1] at hc
      cases hc
    · simp only [List.mem_cons, List.not_mem_nil, or_false] at hc
      obtain rfl | rfl | rfl := hc <;> decide

end ExprCalculus.Grammar
