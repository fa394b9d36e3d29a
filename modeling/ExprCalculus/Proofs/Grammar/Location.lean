import ExprCalculus.Proofs.Grammar.Acceptance
import ExprCalculus.Proofs.Grammar.Positions
import ExprCalculus.Proofs.Grammar.Refusal

/-!
# Where an error is located

An error with an offset names the first token that cannot continue (`parse_error_located`): the offset is where that
token stands, the tokens before it can be completed, and with products of operands side by side nothing behind it helps.
-/

namespace ExprCalculus.Grammar

variable {j : Bool}

/-- The parser got through: to a tree, or to an error about the arguments of a function. -/
def Concludes : Except ParseError Expr → Prop
  | .ok _ => True
  | .error e => e.Judged

/-! ## Whole lists of tokens -/

theorem parseTokens_of_refuses {e : ParseError} {ts : List Token} (h : Refuses j e .sum ts) :
    parseTokens j ts = .error e := by
  unfold parseTokens
  rw [h (allowance ts) (by unfold allowance; omega)]

theorem sum_of_spells {front back : List Token} {t : Token} {a : Expr} (ha : Spells j .sum front a)
    (hk : closes t.kind = true) :
    sum j (allowance (front ++ t :: back)) (front ++ t :: back) = .ok (a, t :: back) :=
  ha.reads.sum_ok (endsSum_of_closes t back hk) (by simp only [allowance, List.length_append]; omega)

theorem StopsText.refuses {front : List Token} {k : Kind} (h : StopsText true front k) {t : Token} (ht : t.kind = k)
    (back : List Token) : parseTokens true (front ++ t :: back) = .error (.unexpected t) := by
  cases h with
  | inside hstops => exact parseTokens_of_refuses (hstops.refuses ht back)
  | behind ha hk hf =>
    simp only [parseTokens, sum_of_spells ha (ht ▸ hk rfl)]
    split
    · rename_i heq
      exact absurd (ht.symm.trans heq) hf
    · rfl

theorem StopsText.viable {front : List Token} {k : Kind} (h : StopsText j front k) : Viable j .sum front := by
  cases h with
  | inside hstops => exact hstops.viable
  | behind ha => exact .of_spells ha

/-- A viable beginning of an expression goes on to an end of the text. -/
theorem Viable.concludes {front : List Token} (h : Viable j .sum front) :
    ∃ more, (∀ t ∈ more, isMeaningful t.kind = true) ∧
      ∀ p, Concludes (parseTokens j (front ++ more ++ [⟨.finish, [], p⟩])) := by
  obtain ⟨more, hmore, ⟨a, ha⟩ | ⟨e, he, hrefuses⟩⟩ := h
  · refine ⟨more, hmore, fun p => ?_⟩
    unfold parseTokens
    rw [sum_of_spells ha rfl]
    trivial
  · refine ⟨more, hmore, fun p => ?_⟩
    rw [parseTokens_of_refuses (hrefuses _)]
    exact he

/-! ## Tokens of a text -/

/-- Only the end of the text stands behind all of it. -/
theorem Begins.eq_nil_iff {t : Token} {cs : List Char} (h : Begins t cs) : cs = [] ↔ t.kind = .finish := by
  cases h with
  | token hscan =>
    constructor
    · rintro rfl
      cases hscan
    · intro hk
      have hm := scan_meaningful hscan
      rw [hk] at hm
      cases hm
  | bad hk => simp [hk]
  | finish hk => simp [hk]

/-- The tokens of a text go on behind meaningful ones. -/
theorem tokens_go_on {cs : List Char} {front rest : List Token} (h : tokens cs = front ++ rest)
    (hf : ∀ t ∈ front, isMeaningful t.kind = true) : ∃ t back, rest = t :: back := by
  cases rest with
  | cons t back => exact ⟨t, back, rfl⟩
  | nil =>
    obtain ⟨ts, p, hts, -⟩ := tokensFrom_ends 0 cs
    rw [tokens, hts, List.append_nil] at h
    have hm := hf ⟨.finish, [], p⟩ (by simp [← h])
    cases hm

/-- The message of an error at a token says whether it is the end of the text. -/
theorem message_unexpected_iff {text : String} {t : Token} :
    (ParseError.unexpected t).message text = "unexpected end of input" ↔ t.kind = .finish := by
  -- the other messages begin with another letter
  have differs (first rest : String) (hfirst : first.toList.head? = some 'i') :
      first ++ rest ≠ "unexpected end of input" := by
    intro h
    have hhead := congrArg (fun s => s.toList.head?) h
    simp only [String.toList_append, List.head?_append, hfirst, Option.some_or] at hhead
    exact absurd hhead (by decide)
  obtain ⟨k, x, p⟩ := t
  cases k with
  | finish => exact iff_of_true rfl rfl
  | bad => exact iff_of_false (differs "invalid token " _ (by decide)) (by simp)
  | _ => exact iff_of_false (differs "invalid syntax " _ (by decide)) (by simp)

/-! ## The location of an error -/

/-- An error of the parser at the token `t` of a text, behind the tokens `front`. -/
structure Located (j : Bool) (text : String) (e : ParseError) (offset : Nat) (front : List Token) (t : Token) :
    Prop where
  /-- the error names this token of the text -/
  names : e = .unexpected t ∧ ∃ back, tokens text.toList = front ++ t :: back
  /-- the offset is where the token stands, counted from one -/
  stands : offset = t.pos + 1 ∧
    ∃ before after, text.toList = before ++ after ∧ before.length = t.pos ∧ Begins t after
  bounds : 1 ≤ offset ∧ offset ≤ text.length + 1
  atEnd : offset = text.length + 1 ↔ e.message text = "unexpected end of input"
  /-- with other tokens in its place the parser gets through -/
  viable : ∃ more, (∀ u ∈ more, isMeaningful u.kind = true) ∧
    ∀ p, Concludes (parseTokens j (front ++ more ++ [⟨.finish, [], p⟩]))
  /-- with this token it does not, whatever follows -/
  refused : j = true → ∀ more, parseTokens true (front ++ t :: more) = .error e

/-- **An error is located at the first token that cannot continue.** -/
theorem parse_error_located (j : Bool) (text : String) (e : ParseError) (offset : Nat)
    (h : parse j text = .error e) (hoffset : e.offset? = some offset) :
    ∃ front t, Located j text e offset front t := by
  obtain ⟨t, rfl⟩ : ∃ t, e = .unexpected t := by
    cases e with
    | unexpected t => exact ⟨t, rfl⟩
    | _ => cases hoffset
  obtain ⟨front, rest, htokens, hunexpected, hstops⟩ := parseTokens_stopped h
  obtain ⟨u, back, rfl⟩ := tokens_go_on htokens hstops.meaningful
  cases hunexpected
  obtain ⟨before, after, htext, hpos, hbegins⟩ := tokensFrom_cut htokens hstops.meaningful
  cases hoffset
  have hlength : text.length = before.length + after.length := by
    rw [← String.length_toList, htext, List.length_append]
  have hend : t.pos + 1 = text.length + 1 ↔ t.kind = .finish := by
    rw [← hbegins.eq_nil_iff, ← List.length_eq_zero_iff]
    omega
  exact ⟨front, t,
    { names := ⟨rfl, back, htokens⟩
      stands := ⟨rfl, before, after, htext, by omega, hbegins⟩
      bounds := by omega
      atEnd := hend.trans message_unexpected_iff.symm
      viable := hstops.viable.concludes
      refused := fun hj more => by
        subst hj
        exact hstops.refuses rfl more }⟩

/-- The second argument is missing, and no argument there would be the right one. -/
theorem parse_error_located_argument :
    parse true "sin(1,*2)" = .error (.unexpected ⟨.times, ['*'], 6⟩) ∧
      ∃ front t, Located true "sin(1,*2)" (.unexpected ⟨.times, ['*'], 6⟩) 7 front t := by
  have htokens : tokens "sin(1,*2)".toList =
      [⟨.function, ['s', 'i', 'n'], 0⟩, ⟨.parenL, ['('], 3⟩, ⟨.number, ['1'], 4⟩, ⟨.comma, [','], 5⟩,
        ⟨.times, ['*'], 6⟩, ⟨.number, ['2'], 7⟩, ⟨.parenR, [')'], 8⟩, ⟨.finish, [], 9⟩] := by
    have hsin : scan ("sin(1,*2)".toList.dropWhile Text.isBlank) =
        some (.function, ['s', 'i', 'n'], "(1,*2)".toList) := by decide
    have hopen : scan ("(1,*2)".toList.dropWhile Text.isBlank) = some (.parenL, ['('], "1,*2)".toList) := by decide
    have hone : scan ("1,*2)".toList.dropWhile Text.isBlank) = some (.number, ['1'], ",*2)".toList) := by decide
    have hcomma : scan (",*2)".toList.dropWhile Text.isBlank) = some (.comma, [','], "*2)".toList) := by decide
    have htimes : scan ("*2)".toList.dropWhile Text.isBlank) = some (.times, ['*'], "2)".toList) := by decide
    have htwo : scan ("2)".toList.dropWhile Text.isBlank) = some (.number, ['2'], ")".toList) := by decide
    have hclose : scan (")".toList.dropWhile Text.isBlank) = some (.parenR, [')'], []) := by decide
    rw [tokens, tokensFrom_scan hsin, tokensFrom_scan hopen, tokensFrom_scan hone, tokensFrom_scan hcomma,
      tokensFrom_scan htimes, tokensFrom_scan htwo, tokensFrom_scan hclose, tokensFrom_stop rfl]
    rfl
  have hparse : parse true "sin(1,*2)" = .error (.unexpected ⟨.times, ['*'], 6⟩) := by
    rw [parse, htokens]
    rfl
  exact ⟨hparse, parse_error_located true _ _ 7 hparse rfl⟩

end ExprCalculus.Grammar
