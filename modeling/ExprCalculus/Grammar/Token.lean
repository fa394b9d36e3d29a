import ExprCalculus.Text.Character

/-!
# Tokens

A formula is cut into numerals, names, function names and signs; white space between them is dropped.
Each token takes as much text as it can, save that the point of a numeral is left alone before another
point, so that `1..2` is a pair of bounds.  A character that begins no token ends the list.

Principal statements: `scan_append` says that a token's text and what follows it make up the input, and
`scan_ne_nil` that its text is never empty, so that cutting a text into tokens ends.
-/

namespace ExprCalculus.Grammar

open Text

/-- The kinds of tokens. -/
inductive Kind where
  | number
  | function
  | name
  | power
  | times
  | divide
  | modulo
  | plus
  | minus
  | parenL
  | parenR
  | bracketL
  | bracketR
  | dots
  | comma
  /-- a character that begins no token -/
  | bad
  /-- the end of the text -/
  | finish
  deriving DecidableEq, Repr

/-- A token: its kind, its text and the number of characters before it. -/
structure Token where
  kind : Kind
  text : List Char
  pos : Nat
  deriving DecidableEq, Repr

/-- The names that are always a function's. -/
def functionNames : List (List Char) :=
  ["exp", "ln", "sqrt", "sin", "cos", "tan", "arcsin", "arccos", "arctan", "asin", "acos", "atan",
    "abs", "ceil", "floor", "sgn", "log", "nrt"].map String.toList

/-- Splits off the part of a numeral before its exponent. -/
def scanMantissa (cs : List Char) : Option (List Char × List Char) :=
  let whole := cs.takeWhile isDigit
  let rest := cs.dropWhile isDigit
  if whole.isEmpty then
    match rest with
    | '.' :: r =>
      if (r.takeWhile isDigit).isEmpty then none
      else some ('.' :: r.takeWhile isDigit, r.dropWhile isDigit)
    | _ => none
  else
    match rest with
    | '.' :: '.' :: _ => some (whole, rest)
    | '.' :: r => some (whole ++ '.' :: r.takeWhile isDigit, r.dropWhile isDigit)
    | _ => some (whole, rest)

/-- Splits off the sign of an exponent. -/
def scanSign : List Char → List Char × List Char
  | '+' :: cs => (['+'], cs)
  | '-' :: cs => (['-'], cs)
  | cs => ([], cs)

/-- Splits off an exponent; an `e` that no digits follow is none. -/
def scanExponent (cs : List Char) : List Char × List Char :=
  match cs with
  | c :: r =>
    if c = 'e' ∨ c = 'E' then
      let (sign, ds) := scanSign r
      if (ds.takeWhile isDigit).isEmpty then ([], cs)
      else (c :: sign ++ ds.takeWhile isDigit, ds.dropWhile isDigit)
    else ([], cs)
  | [] => ([], cs)

/-- Splits off a numeral. -/
def scanNumber (cs : List Char) : Option (List Char × List Char) :=
  match scanMantissa cs with
  | none => none
  | some (mantissa, r) => some (mantissa ++ (scanExponent r).1, (scanExponent r).2)

/-- Splits off a sign. -/
def scanMark : List Char → Option (Kind × List Char × List Char)
  | '*' :: '*' :: r => some (.power, ['*', '*'], r)
  | '^' :: r => some (.power, ['^'], r)
  | '*' :: r => some (.times, ['*'], r)
  | '/' :: r => some (.divide, ['/'], r)
  | '%' :: r => some (.modulo, ['%'], r)
  | '+' :: r => some (.plus, ['+'], r)
  | '-' :: r => some (.minus, ['-'], r)
  | '(' :: r => some (.parenL, ['('], r)
  | ')' :: r => some (.parenR, [')'], r)
  | '[' :: r => some (.bracketL, ['['], r)
  | ']' :: r => some (.bracketR, [']'], r)
  | '.' :: '.' :: r => some (.dots, ['.', '.'], r)
  | ',' :: r => some (.comma, [','], r)
  | _ => none

/-- Splits off the token at the front of a text: its kind, its text and what follows. -/
def scan (cs : List Char) : Option (Kind × List Char × List Char) :=
  match scanNumber cs with
  | some (text, r) => some (.number, text, r)
  | none =>
    match cs with
    | [] => none
    | c :: _ =>
      if isNameStart c then
        let word := cs.takeWhile isWord
        some (if functionNames.contains word then .function else .name, word, cs.dropWhile isWord)
      else scanMark cs

/-! ## A token and what follows make up the text -/

theorem scanMantissa_append {cs text r : List Char} (h : scanMantissa cs = some (text, r)) :
    text ++ r = cs ∧ text ≠ [] := by
  have hcs : cs.takeWhile isDigit ++ cs.dropWhile isDigit = cs := List.takeWhile_append_dropWhile
  simp only [scanMantissa] at h
  split at h
  · rename_i hw
    rw [List.isEmpty_iff] at hw
    split at h
    · rename_i r' hr
      split at h
      · cases h
      · cases h
        rw [hw, hr] at hcs
        exact ⟨by simpa using hcs, by simp⟩
    · cases h
  · rename_i hw
    rw [List.isEmpty_iff] at hw
    split at h
    · cases h; exact ⟨hcs, hw⟩
    · rename_i r' _ hr
      cases h
      rw [hr] at hcs
      exact ⟨by simpa using hcs, by simp⟩
    · cases h; exact ⟨hcs, hw⟩

theorem scanSign_append (cs : List Char) : (scanSign cs).1 ++ (scanSign cs).2 = cs := by
  unfold scanSign; split <;> rfl

theorem scanExponent_append (cs : List Char) : (scanExponent cs).1 ++ (scanExponent cs).2 = cs := by
  unfold scanExponent
  split
  · rename_i c r
    split
    · have hs := scanSign_append r
      simp only
      split
      · rfl
      · simp [List.takeWhile_append_dropWhile, hs]
    · rfl
  · rfl

theorem scanNumber_append {cs text r : List Char} (h : scanNumber cs = some (text, r)) :
    text ++ r = cs ∧ text ≠ [] := by
  simp only [scanNumber] at h
  split at h
  · cases h
  · rename_i m r' hm
    cases h
    have hx := scanExponent_append r'
    obtain ⟨h1, h2⟩ := scanMantissa_append hm
    exact ⟨by rw [List.append_assoc, hx, h1], by simp [h2]⟩

theorem scanMark_append {cs text r : List Char} {k : Kind} (h : scanMark cs = some (k, text, r)) :
    text ++ r = cs ∧ text ≠ [] := by
  unfold scanMark at h
  split at h <;> cases h <;> exact ⟨rfl, by simp⟩

/-- A token's text and what follows it make up the text, and a token is never empty. -/
theorem scan_append {cs text r : List Char} {k : Kind} (h : scan cs = some (k, text, r)) :
    text ++ r = cs ∧ text ≠ [] := by
  unfold scan at h
  split at h
  · rename_i t r' hn
    cases h
    exact scanNumber_append hn
  · split at h
    · cases h
    · rename_i c t
      split at h
      · rename_i hc
        cases h
        refine ⟨List.takeWhile_append_dropWhile, ?_⟩
        simp [isWord_of_isNameStart hc]
      · exact scanMark_append h

theorem scan_shorter {cs text r : List Char} {k : Kind} (h : scan cs = some (k, text, r)) :
    r.length < cs.length := by
  obtain ⟨h1, h2⟩ := scan_append h
  have := congrArg List.length h1
  have := List.length_pos_iff.2 h2
  simp at *; omega

/-! ## Cutting a text into tokens -/

/-- The tokens of a text that begins at a position. -/
def tokensFrom (pos : Nat) (cs : List Char) : List Token :=
  let start := pos + (cs.takeWhile isBlank).length
  let front := cs.dropWhile isBlank
  match _h : scan front with
  | some (kind, text, r) => ⟨kind, text, start⟩ :: tokensFrom (start + text.length) r
  | none =>
    match front with
    | [] => [⟨.finish, [], start⟩]
    | c :: _ => [⟨.bad, [c], start⟩, ⟨.finish, [], start⟩]
termination_by cs.length
decreasing_by
  have hr := scan_shorter _h
  have hf : front.length ≤ cs.length := (List.dropWhile_suffix _).length_le
  omega

/-- The tokens of a text. -/
def tokens (cs : List Char) : List Token := tokensFrom 0 cs

/-- The parts of a token's text: mantissa and exponent of a numeral, the name of a function. -/
def Token.groups (t : Token) : List (Option (List Char)) :=
  match t.kind with
  | .number =>
    match scanMantissa t.text with
    | none => []
    | some (mantissa, r) =>
      [some mantissa, if (scanExponent r).1.isEmpty then none else some (scanExponent r).1]
  | .function => [some t.text]
  | _ => []

end ExprCalculus.Grammar
