import ExprCalculus.Proofs.Grammar.Language

/-!
# The tokens of a text

A text is cut at one place after the other, and the list of its tokens ends with the only token that marks
the end (`tokensFrom_ends`).
-/

namespace ExprCalculus.Grammar

open Text

theorem scanMark_meaningful {cs text r : List Char} {k : Kind} (h : scanMark cs = some (k, text, r)) :
    isMeaningful k = true := by
  unfold scanMark at h
  split at h <;> cases h <;> rfl

theorem scan_meaningful {cs text r : List Char} {k : Kind} (h : scan cs = some (k, text, r)) :
    isMeaningful k = true := by
  unfold scan at h
  split at h
  · cases h; rfl
  · split at h
    · cases h
    · split at h
      · cases h
        split <;> rfl
      · exact scanMark_meaningful h

/-- One step: white space is skipped and a token is cut off. -/
theorem tokensFrom_scan {pos : Nat} {cs text r : List Char} {k : Kind}
    (h : scan (cs.dropWhile isBlank) = some (k, text, r)) :
    tokensFrom pos cs = ⟨k, text, pos + (cs.takeWhile isBlank).length⟩ ::
      tokensFrom (pos + (cs.takeWhile isBlank).length + text.length) r := by
  rw [tokensFrom]
  split
  · rename_i k' text' r' h'
    rw [h] at h'
    cases h'
    rfl
  · rename_i h'
    rw [h] at h'
    cases h'

/-- The last step: nothing is left, or a character that begins no token. -/
theorem tokensFrom_stop {pos : Nat} {cs : List Char} (h : scan (cs.dropWhile isBlank) = none) :
    tokensFrom pos cs =
      match cs.dropWhile isBlank with
      | [] => [⟨.finish, [], pos + (cs.takeWhile isBlank).length⟩]
      | c :: _ => [⟨.bad, [c], pos + (cs.takeWhile isBlank).length⟩,
          ⟨.finish, [], pos + (cs.takeWhile isBlank).length⟩] := by
  rw [tokensFrom]
  split
  · rename_i h'
    rw [h] at h'
    cases h'
  · split <;> rename_i hf _ <;> rw [hf]

/-- White space in front is skipped. -/
theorem tokensFrom_blank {pos : Nat} {c : Char} {cs : List Char} (h : isBlank c = true) :
    tokensFrom pos (c :: cs) = tokensFrom (pos + 1) cs := by
  have hdrop : (c :: cs).dropWhile isBlank = cs.dropWhile isBlank := by simp [h]
  have htake : pos + ((c :: cs).takeWhile isBlank).length = pos + 1 + (cs.takeWhile isBlank).length := by
    simp [h]
    omega
  cases hs : scan (cs.dropWhile isBlank) with
  | none => rw [tokensFrom_stop hs, tokensFrom_stop (by rw [hdrop]; exact hs), hdrop, htake]
  | some cut =>
    obtain ⟨k, text, r⟩ := cut
    rw [tokensFrom_scan hs, tokensFrom_scan (by rw [hdrop]; exact hs), htake]

/-- The list of tokens ends with the only token that marks the end. -/
theorem tokensFrom_ends (pos : Nat) (cs : List Char) :
    ∃ ts p, tokensFrom pos cs = ts ++ [⟨.finish, [], p⟩] ∧ ∀ t ∈ ts, t.kind ≠ .finish := by
  induction hn : cs.length using Nat.strongRecOn generalizing pos cs with
  | ind n ih =>
    cases h : scan (cs.dropWhile isBlank) with
    | none =>
      rw [tokensFrom_stop h]
      split
      · exact ⟨[], _, rfl, by simp⟩
      · exact ⟨[_], _, rfl, by simp⟩
    | some cut =>
      obtain ⟨k, text, r⟩ := cut
      have hm := scan_meaningful h
      have hlt : r.length < n := by
        have h1 := scan_shorter h
        have h2 : (cs.dropWhile isBlank).length ≤ cs.length := (List.dropWhile_suffix _).length_le
        omega
      obtain ⟨ts, p, hts, hk⟩ := ih r.length hlt
        (pos + (cs.takeWhile isBlank).length + text.length) r rfl
      rw [tokensFrom_scan h, hts]
      refine ⟨_ :: ts, p, rfl, ?_⟩
      intro t ht
      rcases List.mem_cons.1 ht with rfl | ht
      · intro hf
        simp only at hf
        rw [hf] at hm
        cases hm
      · exact hk t ht

end ExprCalculus.Grammar
