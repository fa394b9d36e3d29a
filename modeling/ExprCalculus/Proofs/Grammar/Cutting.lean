import ExprCalculus.Proofs.Grammar.Lexemes
import ExprCalculus.Proofs.Number.Numeral

/-!
# Cutting written text

Text that is put together from names, numerals and marks is cut into their tokens again, as long as a name
or a numeral stands before a character that ends it.  `Cuts` says what tokens a piece of text gives, wherever
it stands; pieces are put together by `Cuts.append`, and the positions of the tokens do not matter.

* `Cuts.name`, `Cuts.fn`, `Cuts.numeral` — a name, the name of a function and a literal are one token.
* `Cuts.enclosed`, `Cuts.between` — text between two marks, and two texts with a mark between them.
-/

namespace ExprCalculus.Grammar

open Text Numeral

/-! ## Cutting a text -/

/-- The front of a text is cut into tokens of a kind described by `P`, wherever the text stands. -/
def Cuts (front rest : List Char) (P : List Token → Prop) : Prop :=
  ∀ pos, ∃ ts p, tokensFrom pos (front ++ rest) = ts ++ tokensFrom p rest ∧ P ts

theorem Cuts.mono {front rest : List Char} {P Q : List Token → Prop} (h : Cuts front rest P)
    (hpq : ∀ ts, P ts → Q ts) : Cuts front rest Q := by
  intro pos
  obtain ⟨ts, p, h1, h2⟩ := h pos
  exact ⟨ts, p, h1, hpq ts h2⟩

theorem Cuts.append {s s' rest : List Char} {P Q R : List Token → Prop} (h : Cuts s (s' ++ rest) P)
    (h' : Cuts s' rest Q) (hr : ∀ ts us, P ts → Q us → R (ts ++ us)) : Cuts (s ++ s') rest R := by
  intro pos
  obtain ⟨ts, p, h1, h2⟩ := h pos
  obtain ⟨us, q, h3, h4⟩ := h' p
  refine ⟨ts ++ us, q, ?_, hr ts us h2 h4⟩
  rw [List.append_assoc, h1, h3, List.append_assoc]

/-- A token in front, which does not begin with white space. -/
theorem Cuts.token {c : Char} {cs rest : List Char} {k : Kind} (hb : isBlank c = false)
    (h : scan (c :: cs ++ rest) = some (k, c :: cs, rest)) :
    Cuts (c :: cs) rest (fun ts => ∃ p, ts = [⟨k, c :: cs, p⟩]) := by
  intro pos
  have hdrop : (c :: cs ++ rest).dropWhile isBlank = c :: cs ++ rest := by simp [hb]
  exact ⟨_, _, tokensFrom_scan (by rw [hdrop]; exact h), _, rfl⟩

/-- A space before a text. -/
theorem Cuts.space {s rest : List Char} {P : List Token → Prop} (h : Cuts s rest P) :
    Cuts (' ' :: s) rest P := by
  intro pos
  obtain ⟨ts, p, h1, h2⟩ := h (pos + 1)
  refine ⟨ts, p, ?_, h2⟩
  rw [← h1]
  exact tokensFrom_blank isBlank_space

/-! ## Marks, words and numerals -/

/-- A mark of one character is cut off before any text. -/
theorem Cuts.mark {c : Char} {k : Kind} (h : ∀ s, scan (c :: s) = some (k, [c], s))
    (hb : isBlank c = false) (rest : List Char) :
    Cuts [c] rest (fun ts => ∃ t : Token, t.kind = k ∧ ts = [t]) :=
  (Cuts.token hb (h rest)).mono fun _ ⟨_, hp⟩ => ⟨_, rfl, hp⟩

/-- The kind of the sign of an operation. -/
def opKind : BinOp → Kind
  | .plus => .plus
  | .minus => .minus
  | .times => .times
  | .divide => .divide
  | .power => .power
  | .modulo => .modulo

theorem Cuts.symbol (op : BinOp) (s : List Char) :
    Cuts op.symbol.toList (' ' :: s) (fun ts => ∃ t : Token, t.kind = opKind op ∧ ts = [t]) := by
  have hscan : scan (op.symbol.toList ++ ' ' :: s) = some (opKind op, op.symbol.toList, ' ' :: s) := by
    cases op <;> rfl
  cases op <;> exact (Cuts.token (by decide) hscan).mono fun _ ⟨_, hp⟩ => ⟨_, rfl, hp⟩

theorem Cuts.dots (s : List Char) :
    Cuts ['.', '.'] (' ' :: s) (fun ts => ∃ t : Token, t.kind = .dots ∧ ts = [t]) :=
  (Cuts.token (by decide) rfl).mono fun _ ⟨_, hp⟩ => ⟨_, rfl, hp⟩

theorem isWord_of_mem_breakChars {c : Char} (hc : c ∈ breakChars) : isWord c = false := by
  simp only [breakChars, List.mem_cons, List.not_mem_nil, or_false] at hc
  rcases hc with rfl | rfl | rfl | rfl | rfl <;> decide

/-- A word is cut off whole. -/
theorem scan_word {c : Char} {cs rest : List Char} (hc : isNameStart c = true)
    (hcs : ∀ d ∈ cs, isWord d = true) (hr : Breaks rest) :
    scan (c :: cs ++ rest) =
      some (if functionNames.contains (c :: cs) then .function else .name, c :: cs, rest) :=
  scan_eq_some_iff.mpr ⟨rfl, .word hc hcs fun d hd => isWord_of_mem_breakChars (hr d hd)⟩

/-- A name that is read as a variable or a call. -/
def IsName (x : String) : Prop :=
  scan x.toList = some (.name, x.toList, []) ∧ x ≠ "e" ∧ x ≠ "pi"

instance (x : String) : Decidable (IsName x) := inferInstanceAs (Decidable (_ ∧ _))

/-- What a name is made of. -/
theorem name_chars {w : List Char} (h : scan w = some (.name, w, [])) :
    ∃ c cs, w = c :: cs ∧ isNameStart c = true ∧ (∀ d ∈ cs, isWord d = true) ∧
      functionNames.contains (c :: cs) = false := by
  obtain ⟨-, hcut⟩ := scan_eq_some_iff.mp h
  generalize hk : Kind.name = k at hcut
  cases hcut with
  | number => cases hk
  | @word c cs _ hc hw _ =>
    refine ⟨c, cs, rfl, hc, hw, ?_⟩
    unfold wordKind at hk
    split at hk
    · cases hk
    · rename_i hf
      rwa [Bool.not_eq_true] at hf
  | mark hm =>
    subst hk
    simp [marks] at hm

theorem isBlank_of_range {c : Char} (h1 : 33 ≤ c.toNat) (h2 : c.toNat < 128) : isBlank c = false := by
  simp only [isBlank, inRanges, blankRanges, List.any_cons, List.any_nil, Bool.or_false, Bool.or_eq_false_iff,
    Bool.and_eq_false_iff, decide_eq_false_iff_not]
  omega

theorem Cuts.name {x : String} (h : IsName x) {rest : List Char} (hr : Breaks rest) :
    Cuts x.toList rest (fun ts => ∃ t : Token, t.kind = .name ∧ t.text = x.toList ∧ ts = [t]) := by
  obtain ⟨c, cs, hx, hc, hcs, hf⟩ := name_chars h.1
  have hscan := scan_word hc hcs hr
  rw [hf] at hscan
  rw [hx]
  obtain ⟨h1, h2⟩ := isNameStart_range hc
  exact (Cuts.token (isBlank_of_range (by omega) h2) hscan).mono fun _ ⟨_, hp⟩ => ⟨_, rfl, rfl, hp⟩

theorem breaks_cons {c : Char} {s : List Char} (h : c ∈ breakChars) : Breaks (c :: s) := by
  intro d hd
  cases hd
  exact h

/-- The name of a function before its arguments. -/
theorem Cuts.function {c : Char} {cs : List Char} (hc : isNameStart c = true)
    (hcs : cs.all isWord = true) (hf : functionNames.contains (c :: cs) = true) (s : List Char) :
    Cuts (c :: cs) ('(' :: s)
      (fun ts => ∃ t : Token, t.kind = .function ∧ t.text = c :: cs ∧ ts = [t]) := by
  have hscan := scan_word hc (List.all_eq_true.mp hcs) (breaks_cons (c := '(') (s := s) (by decide))
  rw [hf] at hscan
  obtain ⟨h1, h2⟩ := isNameStart_range hc
  exact (Cuts.token (isBlank_of_range (by omega) h2) hscan).mono fun _ ⟨_, hp⟩ => ⟨_, rfl, rfl, hp⟩

theorem Cuts.fn (fn : Fn) (s : List Char) :
    Cuts fn.name.toList ('(' :: s)
      (fun ts => ∃ t : Token, t.kind = .function ∧ t.text = fn.name.toList ∧ ts = [t]) := by
  cases fn <;> exact Cuts.function (by decide) (by decide) (by decide) s

theorem name_mem_functions (fn : Fn) : (fn.name.toList, fn) ∈ functions := by
  cases fn <;> decide

theorem Cuts.numeral {v : Num} (hv : v.Writable) (hn : v.isNegative = false) {rest : List Char}
    (hr : Breaks rest) :
    Cuts v.text.toList rest
      (fun ts => ∃ t : Token, t.kind = .number ∧ numeralValue t.text = v ∧ ts = [t]) := by
  obtain ⟨s, htext, hvalue⟩ := Num.text_readable hv hn
  have hnumber := scanNumber_chars s hr
  obtain ⟨c, cs, hcs⟩ := List.exists_cons_of_ne_nil s.whole_ne
  have hc : c.isDigit = true := s.whole_digits c (by simp [hcs])
  have hchars : s.chars =
      c :: (cs ++ (Shape.fractionChars s.fraction ++ Shape.exponentChars s.negative s.exponent)) := by
    simp [Shape.chars, hcs]
  have hscan : scan (s.chars ++ rest) = some (.number, s.chars, rest) := by
    unfold scan
    rw [hnumber]
  have hblank : isBlank c = false := by
    simp only [Char.isDigit, Bool.and_eq_true, decide_eq_true_eq] at hc
    have h1 := UInt32.le_iff_toNat_le.1 hc.1
    have h2 := UInt32.le_iff_toNat_le.1 hc.2
    exact isBlank_of_range (le_trans (by decide) h1) (lt_of_le_of_lt h2 (by decide))
  rw [htext]
  rw [hchars] at hscan hvalue ⊢
  refine (Cuts.token hblank hscan).mono ?_
  rintro ts ⟨pos, hp⟩
  exact ⟨_, rfl, hvalue, hp⟩

/-- A text between two marks. -/
theorem Cuts.enclosed {a b : Char} {ka kb : Kind} {s rest : List Char} {P : List Token → Prop}
    (ha : ∀ r, scan (a :: r) = some (ka, [a], r)) (hab : isBlank a = false)
    (hb : ∀ r, scan (b :: r) = some (kb, [b], r)) (hbb : isBlank b = false) (h : Cuts s (b :: rest) P) :
    Cuts (a :: (s ++ [b])) rest
      (fun ts => ∃ l r us, Token.kind l = ka ∧ Token.kind r = kb ∧ P us ∧ ts = l :: (us ++ [r])) := by
  refine Cuts.append (s := [a]) (Cuts.mark ha hab _) (Cuts.append h (Cuts.mark hb hbb rest)
    (R := fun ts => ∃ r us, Token.kind r = kb ∧ P us ∧ ts = us ++ [r]) ?_) ?_
  · rintro us _ hus ⟨r, hr, rfl⟩
    exact ⟨r, us, hr, hus, rfl⟩
  · rintro _ _ ⟨l, hl, rfl⟩ ⟨r, us, hr, hus, rfl⟩
    exact ⟨l, r, us, hl, hr, hus, rfl⟩

theorem Cuts.parens {s rest : List Char} {P : List Token → Prop} (h : Cuts s (')' :: rest) P) :
    Cuts ('(' :: (s ++ [')'])) rest (fun ts => ∃ l r us, Token.kind l = .parenL ∧ Token.kind r = .parenR ∧
      P us ∧ ts = l :: (us ++ [r])) :=
  Cuts.enclosed (fun _ => rfl) (by decide) (fun _ => rfl) (by decide) h

theorem Cuts.brackets {s rest : List Char} {P : List Token → Prop} (h : Cuts s (']' :: rest) P) :
    Cuts ('[' :: (s ++ [']'])) rest (fun ts => ∃ l r us, Token.kind l = .bracketL ∧
      Token.kind r = .bracketR ∧ P us ∧ ts = l :: (us ++ [r])) :=
  Cuts.enclosed (fun _ => rfl) (by decide) (fun _ => rfl) (by decide) h

/-- Two texts with a mark between them. -/
theorem Cuts.between {m s s' rest : List Char} {k : Kind} {P Q : List Token → Prop}
    (hm : ∀ r, Cuts m (' ' :: r) (fun ts => ∃ t : Token, t.kind = k ∧ ts = [t]))
    (h : Cuts s (m ++ ' ' :: s' ++ rest) P) (h' : Cuts s' rest Q) :
    Cuts (s ++ (m ++ ' ' :: s')) rest
      (fun ts => ∃ t us vs, Token.kind t = k ∧ P us ∧ Q vs ∧ ts = us ++ t :: vs) := by
  refine Cuts.append (by simpa using h) (Cuts.append (hm _) h'.space
    (R := fun ts => ∃ t vs, Token.kind t = k ∧ Q vs ∧ ts = t :: vs) ?_) ?_
  · rintro _ vs ⟨t, ht, rfl⟩ hvs
    exact ⟨t, vs, ht, hvs, rfl⟩
  · rintro us _ hus ⟨t, vs, ht, hvs, rfl⟩
    exact ⟨t, us, vs, ht, hus, hvs, rfl⟩

end ExprCalculus.Grammar
