import ExprCalculus.Proofs.Grammar.Layout
import ExprCalculus.Proofs.Grammar.Location
import ExprCalculus.Proofs.Grammar.Rewriting

/-!
# Commas

A comma is a token wherever it stands, so that a text is cut at it (`Laid.comma`): what stands before the first comma
of an expression is no expression (`parse_before_comma`).  The text of a printable tree has a comma if and only if the
tree has a list of at least two parts, as arguments or as elements (`comma_mem_text_iff`).
-/

namespace ExprCalculus

namespace Expr

mutual

/-- Whether a tree is written with a comma: with two arguments of a function, or two elements of a vector. -/
def writesComma : Expr → Bool
  | .number _ | .var _ | .call _ => false
  | .fixed e | .neg e | .apply _ e => writesComma e
  | .vector es => 1 < es.length || anyWritesComma es
  | .interval a b | .binary _ a b => writesComma a || writesComma b
  | .log .. | .root .. | .compose .. => true
  | .custom _ params _ => 1 < params.length || anyWritesComma params

/-- Whether one of several trees is written with a comma. -/
def anyWritesComma : List Expr → Bool
  | [] => false
  | e :: es => writesComma e || anyWritesComma es

end

end Expr

namespace Grammar

open Text

/-! ## Characters of tokens -/

theorem CutBefore.comma {k : Kind} {w r : List Char} (h : CutBefore k w r) (hw : ',' ∈ w) : k = .comma ∧ w = [','] := by
  obtain hmark | hchars := h.chars
  · have hall : ∀ m ∈ marks, ',' ∈ m.2 → m.1 = .comma ∧ m.2 = [','] := by decide
    exact hall _ hmark hw
  · exact absurd (hchars _ hw) (by decide)

theorem CutBefore.not_colon {k : Kind} {w r : List Char} (h : CutBefore k w r) : ':' ∉ w := by
  intro hw
  obtain hmark | hchars := h.chars
  · have hall : ∀ m ∈ marks, ':' ∉ m.2 := by decide
    exact hall _ hmark hw
  · exact absurd (hchars _ hw) (by decide)

variable {pos : Nat} {cs : List Char} {ts : List Token}

theorem Laid.not_colon (h : Laid pos cs ts) (hbad : ∀ t ∈ ts, t.kind ≠ .bad) : ':' ∉ cs := by
  have blank {gap : List Char} (hgap : Blank gap) : ':' ∉ gap := fun hc => absurd (hgap _ hc) (by decide)
  induction h with
  | token hgap hcut _ ih =>
    simp only [List.mem_append, not_or]
    exact ⟨blank hgap, hcut.not_colon, ih (List.forall_mem_cons.mp hbad).2⟩
  | bad => exact absurd rfl (hbad _ List.mem_cons_self)
  | finish hgap => exact blank hgap

/-- What is in front of a character is in front of the text before it. -/
theorem eq_append_of_append_eq {x y p q : List Char} {c : Char} (h : x ++ y = p ++ c :: q) (hx : c ∉ x) :
    ∃ p', p = x ++ p' ∧ y = p' ++ c :: q := by
  obtain ⟨a, rfl, rfl⟩ | ⟨a, rfl, ha⟩ := List.append_eq_append_iff.mp h
  · exact ⟨a, rfl, rfl⟩
  · cases a with
    | nil => exact ⟨[], by simp, ha.symm⟩
    | cons d a =>
      cases ha
      simp at hx

/-- **A text is cut at a comma.** -/
theorem Laid.comma (h : Laid pos cs ts) (hbad : ∀ t ∈ ts, t.kind ≠ .bad) {p q : List Char} (hcs : cs = p ++ ',' :: q)
    (hp : ',' ∉ p) :
    ∃ front stop back, ts = front ++ ⟨.comma, [','], stop⟩ :: back ∧ Laid pos p (front ++ [⟨.finish, [], stop⟩]) := by
  have blank {gap : List Char} (hgap : Blank gap) : ',' ∉ gap := fun hc => absurd (hgap _ hc) (by decide)
  induction h generalizing p with
  | @token pos gap w r k ts hgap hcut hts ih =>
    obtain ⟨p, rfl, hwr⟩ := eq_append_of_append_eq hcs (blank hgap)
    obtain ⟨-, hp⟩ : _ ∧ ',' ∉ p := by simpa using hp
    by_cases hw : ',' ∈ w
    · obtain ⟨rfl, rfl⟩ := hcut.comma hw
      cases p with
      | nil => exact ⟨[], _, ts, rfl, by rw [List.append_nil]; exact .finish hgap⟩
      | cons d p =>
        cases hwr
        exact absurd List.mem_cons_self hp
    · obtain ⟨p, rfl, rfl⟩ := eq_append_of_append_eq hwr hw
      obtain ⟨front, stop, back, rfl, hlaid⟩ := ih (List.forall_mem_cons.mp hbad).2 rfl (by simpa [hw] using hp)
      have hcut' : CutBefore k w (p ++ []) := hcut.of_append (by simp [Halts]) (by simp)
      rw [List.append_nil] at hcut'
      exact ⟨_ :: front, stop, back, rfl, .token hgap hcut' hlaid⟩
  | bad => exact absurd rfl (hbad _ List.mem_cons_self)
  | finish hgap => exact absurd (hcs ▸ hgap) fun h => blank h (by simp)

/-! ## Expressions before commas -/

theorem not_bad_of_parse {j : Bool} {text : String} {e : Expr} (h : parse j text = .ok e) :
    ∀ t ∈ tokens text.toList, t.kind ≠ .bad := by
  obtain ⟨ts, p, hts, hs⟩ := spellsText_of_parse h
  rw [hts]
  refine List.forall_mem_append.mpr ⟨fun t ht hk => ?_, by simp⟩
  have hm := hs.meaningful t ht
  rw [hk] at hm
  cases hm

/-- An expression has no colon. -/
theorem not_colon_of_parse {j : Bool} {text : String} {e : Expr} (h : parse j text = .ok e) : ':' ∉ text.toList :=
  (laid_tokensFrom 0 text.toList).not_colon (not_bad_of_parse h)

/-- **What stands before the first comma of an expression is no expression.** -/
theorem parse_before_comma {j : Bool} {text : String} {e : Expr} (h : parse j text = .ok e) {p q : List Char}
    (htext : text.toList = p ++ ',' :: q) (hp : ',' ∉ p) : ∃ err, parse j (String.ofList p) = .error err := by
  cases hparse : parse j (String.ofList p) with
  | error err => exact ⟨err, rfl⟩
  | ok a =>
    obtain ⟨front, stop, back, hts, hlaid⟩ := (laid_tokensFrom 0 text.toList).comma (not_bad_of_parse h) htext hp
    obtain ⟨us, u, hus, hs⟩ := spellsText_of_parse hparse
    rw [String.toList_ofList, tokens, tokensFrom_eq_iff.mpr hlaid] at hus
    obtain ⟨rfl, -⟩ := List.append_inj' hus rfl
    -- the parser stops at the comma behind what the part spells
    have hstop : parse j text = .error (.unexpected ⟨.comma, [','], stop⟩) := by
      rw [parse, tokens, hts, parseTokens, sum_of_spells hs rfl]
      rfl
    rw [hstop] at h
    cases h

/-! ## Commas in the text of trees -/

theorem comma_mem_intercalate (ss : List (List Char)) :
    ',' ∈ [',', ' '].intercalate ss ↔ 1 < ss.length ∨ ∃ s ∈ ss, ',' ∈ s := by
  cases ss with
  | nil => simp
  | cons s ss =>
    cases ss with
    | nil => simp
    | cons s' ss => simp

theorem writesComma_number {v : Num} (h : v.Writable) (b : Bool) : ',' ∉ ((Expr.number v).render b).toList := by
  -- no comma is in the text of a literal without a sign
  have unsigned {v : Num} (hv : v.Writable) (hn : v.isNegative = false) : ',' ∉ v.text.toList := by
    obtain ⟨s, hs, -⟩ := Num.text_readable hv hn
    have hnumber := Numeral.scanNumber_chars s Numeral.breaks_nil
    rw [List.append_nil] at hnumber
    intro hc
    rw [hs] at hc
    obtain ⟨hk, -⟩ := (CutBefore.number (scanNumber_eq_some_iff.mp hnumber).2).comma hc
    cases hk
  show ',' ∉ (if v.isNegative then "(" ++ v.text ++ ")" else v.text).toList
  split
  · rename_i hneg
    obtain ⟨htext, hw, hn, -⟩ := Num.text_of_negative h hneg
    rw [htext]
    simpa using unsigned hw hn
  · rename_i hneg
    exact unsigned h (by simpa using hneg)

theorem IsName.not_comma {x : String} (h : IsName x) : ',' ∉ x.toList := by
  intro hc
  obtain ⟨hk, -⟩ := (scan_eq_some_iff.mp h.1).2.comma hc
  cases hk

theorem Fn.not_comma (fn : Fn) : ',' ∉ fn.name.toList := by
  cases fn <;> decide

theorem BinOp.not_comma (op : BinOp) : ',' ∉ op.symbol.toList := by
  cases op <;> decide

theorem renderAll_eq_map (b : Bool) (es : List Expr) : Expr.renderAll b es = es.map (Expr.render b) := by
  induction es with
  | nil => rfl
  | cons e es ih => simp [Expr.renderAll, ih]

theorem anyWritesComma_iff {es : List Expr} : Expr.anyWritesComma es = true ↔ ∃ e ∈ es, e.writesComma = true := by
  induction es with
  | nil => simp [Expr.anyWritesComma]
  | cons e es ih => simp [Expr.anyWritesComma, ih]

/-- **The text of a tree has a comma where the tree has a list of two.** -/
theorem comma_mem_text_iff {e : Expr} (h : Printable e) (b : Bool) : ',' ∈ (e.render b).toList ↔ e.writesComma = true := by
  induction h generalizing b with
  | number h => exact iff_of_false (writesComma_number h b) (by simp [Expr.writesComma])
  | var h => exact iff_of_false h.not_comma (by simp [Expr.writesComma])
  | call h =>
    show ',' ∈ (_ ++ "()").toList ↔ _
    simp [Expr.writesComma, h.not_comma]
  | @vector es _ _ ih =>
    show ',' ∈ ("[" ++ ", ".intercalate (Expr.renderAll false es) ++ "]").toList ↔ _
    have hany : (∃ e ∈ es, ',' ∈ (e.render false).toList) ↔ ∃ e ∈ es, e.writesComma = true :=
      exists_congr fun e => and_congr_right fun he => ih e he false
    rw [Expr.writesComma, Bool.or_eq_true, anyWritesComma_iff, ← hany, renderAll_eq_map]
    simp [comma_mem_intercalate]
  | @interval x y _ _ iha ihb =>
    show ',' ∈ ("[" ++ x.render false ++ " .. " ++ y.render false ++ "]").toList ↔ _
    simp [Expr.writesComma, iha false, ihb false]
  | @binary op x y _ _ iha ihb =>
    have hbase : ',' ∈ (baseText op x).toList ↔ x.writesComma = true := by
      unfold baseText
      split
      · simpa using iha false
      · exact iha false
    have hbare : ',' ∈ ((Expr.binary op x y).render true).toList ↔ (Expr.binary op x y).writesComma = true := by
      rw [render_binary, Expr.writesComma, Bool.or_eq_true, ← hbase, ← ihb false]
      simp [BinOp.not_comma op]
    cases b with
    | true => exact hbare
    | false =>
      show ',' ∈ ("(" ++ (Expr.binary op x y).render true ++ ")").toList ↔ _
      simpa using hbare
  | @neg x _ ih =>
    have hrender : (Expr.neg x).render b = "-" ++ x.render false ∨ (Expr.neg x).render b = "-(" ++ x.render false ++ ")" := by
      cases x <;> first | exact .inl rfl | exact .inr rfl
    rw [Expr.writesComma, ← ih false]
    obtain hrender | hrender := hrender <;> rw [hrender] <;> simp
  | @apply fn x _ ih =>
    show ',' ∈ (fn.name ++ "(" ++ x.render true ++ ")").toList ↔ _
    simp [Expr.writesComma, ih true, Fn.not_comma fn]
  | @log x y _ _ _ _ =>
    show ',' ∈ ("log(" ++ x.render true ++ ", " ++ y.render true ++ ")").toList ↔ _
    simp [Expr.writesComma]
  | @root n x _ _ _ =>
    show ',' ∈ ("nrt(" ++ Nat.repr n ++ ", " ++ x.render true ++ ")").toList ↔ _
    simp [Expr.writesComma]

end Grammar

end ExprCalculus
