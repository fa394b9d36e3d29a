import ExprCalculus.Proofs.Grammar.Completeness

/-!
# Where the parser leaves off

With products of operands side by side the parser takes as much as it can: what it leaves begins with a token that
cannot go on with the phrase it has read (`maximal`).  Without them a list, at least, is never left at a comma
(`listTail_not_comma`).
-/

namespace ExprCalculus.Grammar

variable {j : Bool}

/-! ## Names before parentheses -/

/-- The kind that no pattern of the parser has found in front is not the next one. -/
theorem nextKind_ne_of_forall {ts : List Token} {k : Kind} (hf : k ≠ .finish)
    (hk : ∀ x p us, ts ≠ ⟨k, x, p⟩ :: us) : nextKind ts ≠ k := by
  cases ts with
  | nil => exact hf.symm
  | cons t us =>
    rintro rfl
    exact hk t.text t.pos us rfl

theorem EndsInName.of_append {ts us : List Token} (h : EndsInName (ts ++ us)) (hu : us ≠ []) : EndsInName us := by
  obtain ⟨t, hlast, ht⟩ := h
  cases hus : us.getLast? with
  | none => exact absurd (List.getLast?_eq_none_iff.1 hus) hu
  | some u =>
    rw [List.getLast?_append, hus, Option.some_or] at hlast
    exact ⟨t, hus.trans hlast, ht⟩

theorem EndsOperand.append {us rest : List Token} (h : EndsOperand us rest) (hu : us ≠ []) (ts : List Token) :
    EndsOperand (ts ++ us) rest :=
  ⟨h.1, fun hc => h.2 ⟨hc.1.of_append hu, hc.2⟩⟩

/-- Only a name alone ends in a name. -/
theorem Spells.eq_name {ts : List Token} {a : Expr} (h : Spells j .primary ts a) (hn : EndsInName ts) :
    ∃ t, ts = [t] ∧ t.kind = .name ∧ ∀ v, (t.text, v) ∉ constants := by
  obtain ⟨t, hlast, ht, hc⟩ := hn
  -- a phrase of more than one token ends in a closing sign
  have last (us : List Token) {r : Token} (hr : r.kind ≠ .name) (hlast : (us ++ [r]).getLast? = some t) : False := by
    rw [List.getLast?_append, List.getLast?_singleton, Option.some_or, Option.some.injEq] at hlast
    exact hr (hlast ▸ ht)
  cases h with
  | number hk | constant hk _ | var hk _ =>
    cases hlast
    exact ⟨_, rfl, ht, hc⟩
  | @call t l r _ _ _ hr => exact (last [t, l] (by simp [hr]) hlast).elim
  | @function ts _ _ t l r _ _ _ hr => exact (last (t :: l :: ts) (by simp [hr]) hlast).elim
  | @literal l m t r _ _ _ hr => exact (last [l, m, t] (by simp [hr]) hlast).elim
  | @group ts _ l r _ _ _ hr => exact (last (l :: ts) (by simp [hr]) hlast).elim
  | @vector ts _ l r _ _ hr => exact (last (l :: ts) (by simp [hr]) hlast).elim
  | @interval ts us _ _ l d r _ _ _ _ hr =>
    have hassoc : l :: (ts ++ d :: (us ++ [r])) = l :: (ts ++ d :: us) ++ [r] := by simp
    rw [hassoc] at hlast
    exact (last _ (by simp [hr]) hlast).elim

theorem primary_maximal {n : Nat} {front rest : List Token} {a : Expr}
    (h : primary j n (front ++ rest) = .ok (a, rest)) : ¬ Calls front rest := by
  rintro ⟨hname, ⟨_, y, q⟩, ⟨_, z, r⟩, after, rfl, rfl, rfl⟩
  obtain ⟨front', heq, hs⟩ := (sound j n).primary h
  obtain rfl := List.append_cancel_right heq
  obtain ⟨⟨_, x, p⟩, rfl, rfl, hc⟩ := hs.eq_name hname
  cases n with
  | zero => simp [primary] at h
  | succ n =>
    -- the parentheses would have been read with the name
    simp only [List.cons_append, List.nil_append, primary, nameExpr, constant?_eq_none_iff.2 hc, Except.ok.injEq,
      Prod.mk.injEq] at h
    have hlength := congrArg List.length h.2
    simp only [List.length_cons] at hlength
    omega

/-! ## Phrases -/

/-- A list goes on at a comma. -/
theorem listTail_not_comma {n : Nat} {ts rest : List Token} {es : List Expr}
    (h : listTail j n ts = .ok (es, rest)) : nextKind rest ≠ .comma := by
  induction n generalizing ts es with
  | zero => simp [listTail] at h
  | succ n ih =>
    unfold listTail at h
    split at h
    · split at h
      · cases h
      split at h
      · cases h
      rename_i htail
      cases h
      exact ih htail
    · rename_i hcomma
      cases h
      exact nextKind_ne_of_forall (by decide) hcomma

/-- With products of operands side by side, the parser leaves off only where the phrase cannot go on. -/
structure Maximal (n : Nat) : Prop where
  sum : ∀ {ts a rest}, Grammar.sum true n ts = .ok (a, rest) → EndsSum rest
  sumTail : ∀ {a ts b rest}, EndsProduct ts → Grammar.sumTail true n a ts = .ok (b, rest) → EndsSum rest
  product : ∀ {ts a rest}, Grammar.product true n ts = .ok (a, rest) → EndsProduct rest
  productTail : ∀ {a ts b rest}, nextKind ts ≠ .power → Grammar.productTail true n a ts = .ok (b, rest) →
    EndsProduct rest
  unary : ∀ {front a rest}, Grammar.unary true n (front ++ rest) = .ok (a, rest) → EndsOperand front rest
  power : ∀ {front a rest}, Grammar.power true n (front ++ rest) = .ok (a, rest) → EndsOperand front rest
  listTail : ∀ {ts es rest}, EndsSum ts → Grammar.listTail true n ts = .ok (es, rest) → EndsSum rest

theorem maximal_zero : Maximal 0 where
  sum h := by simp [Grammar.sum] at h
  sumTail _ h := by simp [Grammar.sumTail] at h
  product h := by simp [Grammar.product] at h
  productTail _ h := by simp [Grammar.productTail] at h
  unary h := by simp [Grammar.unary] at h
  power h := by simp [Grammar.power] at h
  listTail _ h := by simp [Grammar.listTail] at h

section

variable {n : Nat} {front ts rest : List Token} {a b : Expr}

theorem sumTail_maximal (ih : Maximal n) (hts : EndsProduct ts) (h : sumTail true (n + 1) a ts = .ok (b, rest)) :
    EndsSum rest := by
  unfold sumTail at h
  split at h
  · rename_i hop
    cases h
    exact hts.resolve_right (by simp [hop])
  split at h
  · cases h
  rename_i hc
  exact ih.sumTail (ih.product hc) h

theorem productTail_maximal (ih : Maximal n) (hts : nextKind ts ≠ .power)
    (h : productTail true (n + 1) a ts = .ok (b, rest)) : EndsProduct rest := by
  have after {us mid : List Token} {c : Expr} (hc : unary true n us = .ok (c, mid)) : nextKind mid ≠ .power := by
    obtain ⟨front, rfl, -⟩ := (sound true n).unary hc
    exact (ih.unary hc).1
  unfold productTail at h
  split at h
  · split at h
    · cases h
    rename_i hc
    exact ih.productTail (after hc) h
  rename_i hop
  split at h
  · split at h
    · cases h
    rename_i hc
    exact ih.productTail (after hc) h
  · rename_i hstart
    cases h
    unfold EndsProduct
    cases hk : nextKind ts <;> simp_all [productOp?, startsOperand, closes, sumOp?]

theorem unary_maximal (ih : Maximal n) (h : unary true (n + 1) (front ++ rest) = .ok (a, rest)) :
    EndsOperand front rest := by
  -- a sign and the operand behind it
  have signed {t : Token} {us : List Token} {b : Expr} (heq : front ++ rest = t :: us)
      (hb : unary true n us = .ok (b, rest)) : EndsOperand front rest := by
    obtain ⟨mid, rfl, hs⟩ := (sound true n).unary hb
    rw [← List.cons_append] at heq
    obtain rfl := List.append_cancel_right heq
    exact (ih.unary hb).append hs.ne_nil [t]
  unfold unary at h
  split at h
  · rename_i us heq
    split at h
    · cases h
    rename_i hb
    cases h
    exact signed heq hb
  · rename_i us heq
    exact signed heq h
  · exact ih.power h

theorem power_maximal (ih : Maximal n) (h : power true (n + 1) (front ++ rest) = .ok (a, rest)) :
    EndsOperand front rest := by
  unfold power at h
  split at h
  · cases h
  · rename_i b x p us hb
    split at h
    · cases h
    rename_i c mid hc
    cases h
    obtain ⟨base, heq, -⟩ := (sound true n).primary hb
    obtain ⟨exponent, rfl, hs⟩ := (sound true n).unary hc
    have hfront : front = (base ++ [⟨.power, x, p⟩]) ++ exponent :=
      List.append_cancel_right (by rw [heq]; simp)
    rw [hfront]
    exact (ih.unary hc).append hs.ne_nil _
  · rename_i b mid hpower hb
    cases h
    exact ⟨nextKind_ne_of_forall (by decide) hpower, primary_maximal hb⟩

theorem listTail_maximal (ih : Maximal n) {es : List Expr} (hts : EndsSum ts)
    (h : listTail true (n + 1) ts = .ok (es, rest)) : EndsSum rest := by
  unfold listTail at h
  split at h
  · split at h
    · cases h
    rename_i hb
    split at h
    · cases h
    rename_i htail
    cases h
    exact ih.listTail (ih.sum hb) htail
  · cases h
    exact hts

end

theorem maximal (n : Nat) : Maximal n := by
  induction n with
  | zero => exact maximal_zero
  | succ n ih =>
    exact
      { sum := fun h => by
          unfold Grammar.sum at h
          split at h
          · cases h
          rename_i hb
          exact ih.sumTail (ih.product hb) h
        sumTail := sumTail_maximal ih
        product := fun h => by
          unfold Grammar.product at h
          split at h
          · cases h
          rename_i hb
          obtain ⟨front, rfl, -⟩ := (sound true n).unary hb
          exact ih.productTail (ih.unary hb).1 h
        productTail := productTail_maximal ih
        unary := unary_maximal ih
        power := power_maximal ih
        listTail := listTail_maximal ih }

end ExprCalculus.Grammar
