import ExprCalculus.Proofs.Grammar.Tokens

/-!
# Where tokens stand

A token that is reached from the front of a text by way of meaningful tokens begins at its position: the text there
is cut into this token first (`tokensFrom_cut`).
-/

namespace ExprCalculus.Grammar

open Text

/-- A text, without white space in front, whose first token is the given one. -/
inductive Begins (t : Token) : List Char → Prop
  | token {cs r : List Char} (h : scan cs = some (t.kind, t.text, r)) : Begins t cs
  | bad {c : Char} {r : List Char} (hk : t.kind = .bad) (ht : t.text = [c]) (h : scan (c :: r) = none) :
    Begins t (c :: r)
  | finish (hk : t.kind = .finish) (ht : t.text = []) : Begins t []

/-- What stands before a token and what the token begins. -/
theorem tokensFrom_cut {pos : Nat} {cs : List Char} {front back : List Token} {t : Token}
    (h : tokensFrom pos cs = front ++ t :: back) (hf : ∀ u ∈ front, isMeaningful u.kind = true) :
    ∃ before after, cs = before ++ after ∧ t.pos = pos + before.length ∧ Begins t after := by
  induction front generalizing pos cs with
  | nil =>
    refine ⟨cs.takeWhile isBlank, cs.dropWhile isBlank, List.takeWhile_append_dropWhile.symm, ?_⟩
    cases hs : scan (cs.dropWhile isBlank) with
    | some cut =>
      obtain ⟨k, text, r⟩ := cut
      rw [tokensFrom_scan hs, List.nil_append, List.cons.injEq] at h
      obtain ⟨rfl, -⟩ := h
      exact ⟨rfl, .token hs⟩
    | none =>
      rw [tokensFrom_stop hs, List.nil_append] at h
      split at h
      · rename_i hnil
        rw [List.cons.injEq] at h
        obtain ⟨rfl, -⟩ := h
        rw [hnil]
        exact ⟨rfl, .finish rfl rfl⟩
      · rename_i c r hcons
        rw [List.cons.injEq] at h
        obtain ⟨rfl, -⟩ := h
        rw [hcons] at hs ⊢
        exact ⟨rfl, .bad rfl rfl hs⟩
  | cons u front ih =>
    cases hs : scan (cs.dropWhile isBlank) with
    | some cut =>
      obtain ⟨k, text, r⟩ := cut
      rw [tokensFrom_scan hs, List.cons_append, List.cons.injEq] at h
      obtain ⟨before, after, hr, hpos, hbegins⟩ := ih h.2 fun v hv => hf v (List.mem_cons_of_mem _ hv)
      have hcs : cs = cs.takeWhile isBlank ++ (text ++ r) := by
        rw [(scan_append hs).1, List.takeWhile_append_dropWhile]
      refine ⟨cs.takeWhile isBlank ++ (text ++ before), after, ?_, ?_, hbegins⟩
      · rw [List.append_assoc, List.append_assoc, ← hr]
        exact hcs
      · rw [hpos]
        simp only [List.length_append]
        omega
    | none =>
      -- only the end, or a character that begins no token, would stand in front
      have hu := hf u List.mem_cons_self
      rw [tokensFrom_stop hs, List.cons_append] at h
      split at h <;> rw [List.cons.injEq] at h <;> obtain ⟨rfl, -⟩ := h <;> cases hu

end ExprCalculus.Grammar
