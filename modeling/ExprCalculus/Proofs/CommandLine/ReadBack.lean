import ExprCalculus.Proofs.CommandLine.Bindings
import ExprCalculus.Proofs.Grammar.Commas

/-!
# Bindings of expressions that were written

A value on the command line is split at its commas before it is read, so that it is a list of elements even where its
commas are inside of parentheses or brackets.  The text of an expression without commas is read as the expression; with
a comma it is split in front of what completes its first part, which is then no expression.

* `readValue_of_parse`, `readValue_of_comma` - what a value is read as whose text is an expression.
* `bindArgument_text` - which printable trees a name can be bound to by their texts.
-/

namespace ExprCalculus.CommandLine

open Progress Failure
open Grammar (Printable parse)

/-! ## Splitting -/

section

variable {sep : Char} {p q cs : List Char}

theorem ne_of_not_mem (h : sep ∉ cs) : ∀ c ∈ cs, decide (c ≠ sep) = true := by
  intro c hc
  rw [decide_eq_true_eq]
  rintro rfl
  exact h hc

theorem splitFirst_append (h : sep ∉ p) : splitFirst sep (p ++ sep :: q) = (p, some q) := by
  obtain ⟨htake, hdrop⟩ := Grammar.span_append (r := sep :: q) (ne_of_not_mem h) (by simp)
  rw [splitFirst, htake, hdrop]

theorem splitFirst_of_not_mem (h : sep ∉ cs) : splitFirst sep cs = (cs, none) := by
  rw [splitFirst, List.takeWhile_eq_self_iff.mpr (ne_of_not_mem h), List.dropWhile_eq_nil_iff.mpr (ne_of_not_mem h)]

theorem splitAll_append (h : sep ∉ p) : splitAll sep (p ++ sep :: q) = p :: splitAll sep q := by
  induction p with
  | nil => simp [splitAll]
  | cons c p ih =>
    rw [List.mem_cons, not_or] at h
    rw [List.cons_append, splitAll, if_neg (Ne.symm h.1), ih h.2]

end

/-! ## Reading values -/

variable {j : Bool} {text : String} {e : Expr}

theorem readValue_of_parse (h : parse j text = .ok e) (hcomma : ',' ∉ text.toList) :
    (readValue j text).result = .ok e := by
  have hsplit := splitFirst_of_not_mem (Grammar.not_colon_of_parse h)
  simp only [readValue, hsplit, List.contains_iff_mem, hcomma, if_false]
  exact readExpression_of_parse h

/-- **An expression with a comma is no value.** -/
theorem readValue_of_comma (h : parse j text = .ok e) (hcomma : ',' ∈ text.toList) :
    ∃ part err, (readValue j text).result = .error (.parsing part err) := by
  obtain ⟨p, q, htext, hp⟩ := List.eq_append_cons_of_mem hcomma
  obtain ⟨err, herr⟩ := Grammar.parse_before_comma h htext hp
  have hsplit := splitFirst_of_not_mem (Grammar.not_colon_of_parse h)
  refine ⟨String.ofList p, err, ?_⟩
  simp only [readValue, hsplit, List.contains_iff_mem, hcomma, if_true]
  refine result_bind_error ?_
  rw [htext, splitAll_append hp]
  exact result_bind_error (readExpression_of_error herr)

/-! ## Binding values -/

theorem bindArgument_result (s : Store) {name : String} (hname : name ≠ "") (hequals : '=' ∉ name.toList) :
    (bindArgument j s (name ++ "=" ++ text)).result =
      (readValue j text).result.map fun e => s.bindVariable 0 (String.ofList (Text.trim name.toList)) e := by
  have harg : (name ++ "=" ++ text).toList = name.toList ++ '=' :: text.toList := by simp
  unfold bindArgument
  rw [harg, splitFirst_append hequals]
  split
  · rename_i heq
    rw [Prod.mk.injEq, String.toList_eq_nil_iff] at heq
    exact absurd heq.1 hname
  · rename_i heq
    cases heq
  · rename_i heq
    cases heq
    rw [String.ofList_toList]
    cases h : (readValue j text).result with
    | error err => exact result_bind_error h
    | ok e =>
      rw [result_bind h, result_bind rfl]
      rfl

/-- **A name can be bound to a printable tree by the text of the tree, if there is no comma in it.**  A tree with a list
of two arguments or elements has a comma in its text, and the binding is refused. -/
theorem bindArgument_text (j : Bool) (s : Store) {name : String} {e : Expr} (he : Printable e) (hname : name ≠ "")
    (hequals : '=' ∉ name.toList) :
    (e.writesComma = false → (readValue j e.text).result = .ok e ∧
      (bindArgument j s (name ++ "=" ++ e.text)).result =
        .ok (s.bindVariable 0 (String.ofList (Text.trim name.toList)) e)) ∧
    (e.writesComma = true → ∃ part err, (readValue j e.text).result = .error (.parsing part err) ∧
      (bindArgument j s (name ++ "=" ++ e.text)).result = .error (.parsing part err)) := by
  have hparse : parse j e.text = .ok e := Grammar.parse_of_spellsText (he.spellsText j)
  have hiff := Grammar.comma_mem_text_iff he false
  refine ⟨fun hcomma => ?_, fun hcomma => ?_⟩
  · have hvalue : (readValue j e.text).result = .ok e := readValue_of_parse hparse fun hc => by
      rw [hiff.mp hc] at hcomma
      cases hcomma
    refine ⟨hvalue, ?_⟩
    rw [bindArgument_result s hname hequals, hvalue]
    rfl
  · obtain ⟨part, err, hvalue⟩ := readValue_of_comma hparse (hiff.mpr hcomma)
    refine ⟨part, err, hvalue, ?_⟩
    rw [bindArgument_result s hname hequals, hvalue]
    rfl

/-- A vector of one element, an interval. -/
theorem bindArgument_text_interval :
    Printable (.vector [.interval (.int 1) (.var "y")]) ∧
      (bindArgument true Store.initial ("x" ++ "=" ++ (Expr.vector [.interval (.int 1) (.var "y")]).text)).result =
        .ok (Store.initial.bindVariable 0 "x" (.vector [.interval (.int 1) (.var "y")])) := by
  have he : Printable (.vector [.interval (.int 1) (.var "y")]) :=
    .vector (by simp) (List.forall_mem_singleton.mpr (.interval (.int 1) (.var (by decide))))
  have hname : "x" ≠ "" := by decide
  obtain ⟨hbound, -⟩ := bindArgument_text true Store.initial he hname (by decide)
  exact ⟨he, (hbound rfl).2⟩

/-- A vector of two numbers is printable, but its text is no value. -/
theorem readValue_vector_refused :
    Printable (.vector [.int 1, .int 2]) ∧
      ¬ ∃ e, (readValue true (Expr.vector [.int 1, .int 2]).text).result = .ok e := by
  have he : Printable (.vector [.int 1, .int 2]) :=
    .vector (by simp) (List.forall_mem_cons.mpr ⟨.int 1, List.forall_mem_singleton.mpr (.int 2)⟩)
  refine ⟨he, ?_⟩
  rintro ⟨e, hvalue⟩
  obtain ⟨part, err, hrefused⟩ := readValue_of_comma (Grammar.parse_of_spellsText (he.spellsText true))
    ((Grammar.comma_mem_text_iff he false).mpr rfl)
  rw [hrefused] at hvalue
  cases hvalue

end ExprCalculus.CommandLine
