import ExprCalculus.Proofs.Grammar.Completeness
import ExprCalculus.Proofs.Grammar.Tokens

/-!
# The parser accepts exactly its language

`parse_eq_ok_iff_spells` puts the two halves together: a text is read as a tree if and only if its tokens, the
end apart, spell that tree as a sum, and no text spells two trees.
-/

namespace ExprCalculus.Grammar

/-- A text spells a tree if its tokens, the end apart, do. -/
def SpellsText (juxtapose : Bool) (text : String) (t : Expr) : Prop :=
  ∃ ts p, tokens text.toList = ts ++ [⟨.finish, [], p⟩] ∧ Spells juxtapose .sum ts t

/-- Where the parser stops at the end of the text, all other tokens have been read. -/
theorem eq_finish_of_nextKind {body front rest : List Token} {p : Nat} (hb : ∀ t ∈ body, t.kind ≠ .finish)
    (h : body ++ [⟨.finish, [], p⟩] = front ++ rest) (hf : ∀ t ∈ front, isMeaningful t.kind = true)
    (hk : nextKind rest = .finish) : front = body := by
  induction body generalizing front with
  | nil =>
    cases front with
    | nil => rfl
    | cons t front =>
      have ht := hf t List.mem_cons_self
      simp only [List.nil_append, List.cons_append, List.cons.injEq] at h
      rw [← h.1] at ht
      cases ht
  | cons b body ih =>
    cases front with
    | nil =>
      simp only [List.nil_append] at h
      rw [← h] at hk
      exact absurd hk (hb b List.mem_cons_self)
    | cons t front =>
      simp only [List.cons_append, List.cons.injEq] at h
      rw [h.1, ih (fun x hx => hb x (List.mem_cons_of_mem _ hx)) h.2
        (fun x hx => hf x (List.mem_cons_of_mem _ hx))]

theorem spellsText_of_parse {j : Bool} {text : String} {t : Expr} (h : parse j text = .ok t) :
    SpellsText j text t := by
  unfold parse parseTokens at h
  split at h
  · cases h
  rename_i a rest hs
  split at h
  · rename_i hk
    cases h
    obtain ⟨body, p, htok, hb⟩ := tokensFrom_ends 0 text.toList
    obtain ⟨front, hf, hsp⟩ := (sound _ _).sum hs
    unfold tokens at hf
    rw [htok] at hf
    have := eq_finish_of_nextKind hb hf hsp.meaningful hk
    exact ⟨body, p, htok, this ▸ hsp⟩
  · cases h

theorem parse_of_spellsText {j : Bool} {text : String} {t : Expr} (h : SpellsText j text t) :
    parse j text = .ok t := by
  obtain ⟨ts, p, htok, hs⟩ := h
  have hread := hs.reads.sum_ok (endsSum_of_closes ⟨.finish, [], p⟩ [] rfl)
    (n := allowance (ts ++ [⟨.finish, [], p⟩])) (by simp [allowance]; omega)
  unfold parse parseTokens
  rw [htok, hread]
  rfl

/-- **The parser accepts exactly the language, and no text spells two trees.** -/
theorem parse_eq_ok_iff_spells (j : Bool) (text : String) (t : Expr) :
    (parse j text = .ok t ↔ SpellsText j text t) ∧
      (SpellsText j text t → ∀ u, SpellsText j text u → u = t) := by
  refine ⟨⟨spellsText_of_parse, parse_of_spellsText⟩, fun ht u hu => ?_⟩
  have h := parse_of_spellsText hu
  rw [parse_of_spellsText ht] at h
  cases h
  rfl

/-- A numeral beside a name is a product, and nothing else. -/
theorem parse_numeral_beside_name :
    SpellsText true "2x" (.times (.int 2) (.var "x")) ∧ parse true "2x" = .ok (.times (.int 2) (.var "x")) ∧
      ∀ u, SpellsText true "2x" u → u = .times (.int 2) (.var "x") := by
  have htokens : tokens "2x".toList =
      [⟨.number, ['2'], 0⟩] ++ [⟨.name, ['x'], 1⟩] ++ [⟨.finish, [], 2⟩] := by
    have h2 : scan ("2x".toList.dropWhile Text.isBlank) = some (.number, ['2'], ['x']) := by decide
    have hx : scan (['x'].dropWhile Text.isBlank) = some (.name, ['x'], []) := by decide
    rw [tokens, tokensFrom_scan h2, tokensFrom_scan hx, tokensFrom_stop rfl]
    rfl
  have htwo : Spells true .primary [⟨.number, ['2'], 0⟩] (.int 2) := .number rfl
  have hname : Spells true .primary [⟨.name, ['x'], 1⟩] (.var "x") := .var rfl (by simp [constants])
  have hspells : SpellsText true "2x" (.times (.int 2) (.var "x")) :=
    ⟨_, _, htokens, .term (.beside rfl (.factor (.unsigned (.base htwo))) (.base hname) rfl)⟩
  obtain ⟨hiff, hunique⟩ := parse_eq_ok_iff_spells true "2x" (.times (.int 2) (.var "x"))
  exact ⟨hspells, hiff.2 hspells, hunique hspells⟩

end ExprCalculus.Grammar
