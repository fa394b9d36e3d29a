import ExprCalculus.Proofs.Grammar.Language

/-!
# What the parser accepts is spelled by the language

Whenever a function of the parser returns a tree, the tokens it took off the front spell that tree.  `Sound`
says so of all the functions at one allowance; one lemma for each function carries it to the next allowance
(`sum_step` and its companions) and `sound` follows by induction.  The two loops are given the phrase that was
read before them and extend it to the right.
-/

namespace ExprCalculus.Grammar

variable {j : Bool}

/-- A phrase with the given meaning has been taken off the front of `ts`, and `rest` is left. -/
def Takes (j : Bool) (p : Phrase) (ts rest : List Token) (m : p.Meaning) : Prop :=
  ∃ front, ts = front ++ rest ∧ Spells j p front m

/-- The same after `before`, which is a phrase of that kind already. -/
def Extends (j : Bool) (p : Phrase) (before ts rest : List Token) (m : p.Meaning) : Prop :=
  ∃ mid, ts = mid ++ rest ∧ Spells j p (before ++ mid) m

theorem Extends.takes {p : Phrase} {front ts rest : List Token} {m : p.Meaning}
    (h : Extends j p front ts rest m) : Takes j p (front ++ ts) rest m := by
  obtain ⟨mid, rfl, hs⟩ := h
  exact ⟨front ++ mid, by rw [List.append_assoc], hs⟩

theorem Extends.step {p : Phrase} {before mid ts rest : List Token} {m : p.Meaning}
    (h : Extends j p (before ++ mid) ts rest m) : Extends j p before (mid ++ ts) rest m := by
  obtain ⟨us, rfl, hs⟩ := h
  exact ⟨mid ++ us, by rw [List.append_assoc], by rwa [← List.append_assoc]⟩

/-- A token with an operation in one of the tables. -/
theorem exists_sign {ts : List Token} {op : BinOp} {table : List (Kind × BinOp)}
    (h : (nextKind ts, op) ∈ table) (hf : Kind.finish ∉ table.map Prod.fst) :
    ∃ t, ts = t :: ts.tail ∧ (t.kind, op) ∈ table := by
  cases ts with
  | nil => exact absurd (List.mem_map_of_mem h) hf
  | cons t rest => exact ⟨t, rfl, h⟩

theorem nameExpr_sound {t : Token} {rest after : List Token} {a : Expr} (ht : t.kind = .name)
    (h : nameExpr t.text rest = (a, after)) : Takes j .primary (t :: rest) after a := by
  unfold nameExpr at h
  split at h
  · rename_i v hv
    cases h
    exact ⟨[t], rfl, .constant ht (constant?_eq_some_iff.1 hv)⟩
  · rename_i hc
    rw [constant?_eq_none_iff] at hc
    split at h
    · cases h
      exact ⟨[t, _, _], rfl, .call ht hc rfl rfl⟩
    · cases h
      exact ⟨[t], rfl, .var ht hc⟩

/-- Whatever the functions of the parser return with this allowance is spelled by the language. -/
structure Sound (j : Bool) (n : Nat) : Prop where
  sum : ∀ {ts a rest}, Grammar.sum j n ts = .ok (a, rest) → Takes j .sum ts rest a
  sumTail : ∀ {front a ts b rest}, Spells j .sum front a → Grammar.sumTail j n a ts = .ok (b, rest) →
    Extends j .sum front ts rest b
  product : ∀ {ts a rest}, Grammar.product j n ts = .ok (a, rest) → Takes j .product ts rest a
  productTail : ∀ {front a ts b rest}, Spells j .product front a →
    Grammar.productTail j n a ts = .ok (b, rest) → Extends j .product front ts rest b
  /-- what begins with an operand's token has no sign -/
  operand : ∀ {ts a rest}, startsOperand (nextKind ts) = true → Grammar.unary j n ts = .ok (a, rest) →
    ∃ front, ts = front ++ rest ∧ Spells j .power front a ∧ startsOperand (nextKind front) = true
  unary : ∀ {ts a rest}, Grammar.unary j n ts = .ok (a, rest) → Takes j .unary ts rest a
  power : ∀ {ts a rest}, Grammar.power j n ts = .ok (a, rest) → Takes j .power ts rest a
  primary : ∀ {ts a rest}, Grammar.primary j n ts = .ok (a, rest) → Takes j .primary ts rest a
  brackets : ∀ {ts a rest l}, l.kind = .bracketL → Grammar.brackets j n ts = .ok (a, rest) →
    ∃ front, ts = front ++ rest ∧ Spells j .primary (l :: front) a
  list : ∀ {ts as rest}, Grammar.list j n ts = .ok (as, rest) → Takes j .items ts rest as
  /-- a first expression and the further ones make up a list -/
  listTail : ∀ {ts mid a es rest}, Grammar.sum j n ts = .ok (a, mid) →
    Grammar.listTail j n mid = .ok (es, rest) → Takes j .items ts rest (a :: es)

theorem sound_zero : Sound j 0 where
  sum h := by simp [Grammar.sum] at h
  sumTail _ h := by simp [Grammar.sumTail] at h
  product h := by simp [Grammar.product] at h
  productTail _ h := by simp [Grammar.productTail] at h
  operand _ h := by simp [Grammar.unary] at h
  unary h := by simp [Grammar.unary] at h
  power h := by simp [Grammar.power] at h
  primary h := by simp [Grammar.primary] at h
  brackets _ h := by simp [Grammar.brackets] at h
  list h := by simp [Grammar.list] at h
  listTail h _ := by simp [Grammar.sum] at h

/-! ## One more call -/

section

variable {n : Nat} {ts rest : List Token} {a : Expr}

theorem sum_step (ih : Sound j n) (h : sum j (n + 1) ts = .ok (a, rest)) : Takes j .sum ts rest a := by
  unfold sum at h
  split at h
  · cases h
  rename_i b mid hb
  obtain ⟨front, rfl, hs⟩ := ih.product hb
  exact (ih.sumTail (.term hs) h).takes

theorem sumTail_step (ih : Sound j n) {front : List Token} {b : Expr} (ha : Spells j .sum front a)
    (h : sumTail j (n + 1) a ts = .ok (b, rest)) : Extends j .sum front ts rest b := by
  unfold sumTail at h
  split at h
  · cases h
    exact ⟨[], rfl, by rwa [List.append_nil]⟩
  rename_i op hop
  obtain ⟨t, hts, ht⟩ := exists_sign (sumOp?_eq_some_iff.1 hop) (by decide)
  split at h
  · cases h
  rename_i c mid hc
  obtain ⟨us, hus, hs⟩ := ih.product hc
  have := ih.sumTail (.sum ha ht hs) h
  rw [hts, hus]
  exact this.step

theorem product_step (ih : Sound j n) (h : product j (n + 1) ts = .ok (a, rest)) :
    Takes j .product ts rest a := by
  unfold product at h
  split at h
  · cases h
  rename_i b mid hb
  obtain ⟨front, rfl, hs⟩ := ih.unary hb
  exact (ih.productTail (.factor hs) h).takes

theorem productTail_step (ih : Sound j n) {front : List Token} {b : Expr} (ha : Spells j .product front a)
    (h : productTail j (n + 1) a ts = .ok (b, rest)) : Extends j .product front ts rest b := by
  unfold productTail at h
  split at h
  · rename_i op hop
    obtain ⟨t, hts, ht⟩ := exists_sign (productOp?_eq_some_iff.1 hop) (by decide)
    split at h
    · cases h
    rename_i c mid hc
    obtain ⟨us, hus, hs⟩ := ih.unary hc
    have := ih.productTail (.product ha ht hs) h
    rw [hts, hus]
    exact this.step
  · split at h
    · rename_i hj
      rw [Bool.and_eq_true] at hj
      split at h
      · cases h
      rename_i c mid hc
      -- a token that begins an operand is no sign, so the operand is a power
      obtain ⟨us, rfl, hs, hu⟩ := ih.operand hj.2 hc
      exact (ih.productTail (.beside hj.1 ha hs hu) h).step
    · cases h
      exact ⟨[], rfl, by rwa [List.append_nil]⟩

theorem operand_step (ih : Sound j n) (hk : startsOperand (nextKind ts) = true)
    (h : unary j (n + 1) ts = .ok (a, rest)) :
    ∃ front, ts = front ++ rest ∧ Spells j .power front a ∧ startsOperand (nextKind front) = true := by
  unfold unary at h
  split at h
  · cases hk
  · cases hk
  · obtain ⟨front, rfl, hs⟩ := ih.power h
    obtain ⟨t, us, rfl, _⟩ := hs.head
    exact ⟨t :: us, rfl, hs, hk⟩

theorem unary_step (ih : Sound j n) (h : unary j (n + 1) ts = .ok (a, rest)) : Takes j .unary ts rest a := by
  unfold unary at h
  split at h
  · rename_i us
    split at h
    · cases h
    rename_i b mid hb
    cases h
    obtain ⟨front, rfl, hs⟩ := ih.unary hb
    exact ⟨_ :: front, rfl, .neg rfl hs⟩
  · rename_i us
    obtain ⟨front, rfl, hs⟩ := ih.unary h
    exact ⟨_ :: front, rfl, .pos rfl hs⟩
  · obtain ⟨front, rfl, hs⟩ := ih.power h
    exact ⟨front, rfl, .unsigned hs⟩

theorem power_step (ih : Sound j n) (h : power j (n + 1) ts = .ok (a, rest)) : Takes j .power ts rest a := by
  unfold power at h
  split at h
  · cases h
  · rename_i b x p us hb
    split at h
    · cases h
    rename_i c mid hc
    cases h
    obtain ⟨front, rfl, hs⟩ := ih.primary hb
    obtain ⟨mid, rfl, hm⟩ := ih.unary hc
    exact ⟨front ++ ⟨.power, x, p⟩ :: mid, by simp, .power hs rfl hm⟩
  · rename_i b mid _ hb
    cases h
    obtain ⟨front, rfl, hs⟩ := ih.primary hb
    exact ⟨front, rfl, .base hs⟩

theorem primary_step (ih : Sound j n) (h : primary j (n + 1) ts = .ok (a, rest)) :
    Takes j .primary ts rest a := by
  unfold primary at h
  split at h
  · rename_i x p us
    cases h
    exact ⟨[_], rfl, .number rfl⟩
  · rename_i x p us
    rw [Except.ok.injEq] at h
    exact nameExpr_sound (t := ⟨.name, x, p⟩) rfl h
  · rename_i x p us
    split at h
    · rename_i y q us
      split at h
      · cases h
      · rename_i as z r mid has
        split at h
        · cases h
        rename_i b hb
        cases h
        obtain ⟨front, rfl, hs⟩ := ih.list has
        exact ⟨⟨.function, x, p⟩ :: ⟨.parenL, y, q⟩ :: (front ++ [⟨.parenR, z, r⟩]), by simp,
          .function rfl rfl hs rfl (applyNamed_eq_ok_iff.1 hb)⟩
      · cases h
    · cases h
  · cases h
    exact ⟨[_, _, _, _], rfl, .literal rfl rfl rfl rfl⟩
  · rename_i x p us hlit
    split at h
    · cases h
    · rename_i b y q mid hb
      cases h
      obtain ⟨front, rfl, hs⟩ := ih.sum hb
      refine ⟨⟨.parenL, x, p⟩ :: (front ++ [⟨.parenR, y, q⟩]), by simp, .group rfl hs ?_ rfl⟩
      rintro ⟨⟨_, m, pm⟩, ⟨_, d, pd⟩, rfl, rfl, rfl⟩
      exact hlit m pm d pd y q rest rfl
    · cases h
  · rename_i x p us
    obtain ⟨front, rfl, hs⟩ := ih.brackets (l := ⟨.bracketL, x, p⟩) rfl h
    exact ⟨_ :: front, rfl, hs⟩
  · cases h

theorem brackets_step (ih : Sound j n) {l : Token} (hl : l.kind = .bracketL)
    (h : brackets j (n + 1) ts = .ok (a, rest)) :
    ∃ front, ts = front ++ rest ∧ Spells j .primary (l :: front) a := by
  unfold brackets at h
  split at h
  · cases h
  · rename_i b x p us hb
    split at h
    · cases h
    · rename_i c y q mid hc
      cases h
      obtain ⟨front, rfl, hs⟩ := ih.sum hb
      obtain ⟨mid, rfl, hm⟩ := ih.sum hc
      exact ⟨front ++ ⟨.dots, x, p⟩ :: (mid ++ [⟨.bracketR, y, q⟩]), by simp,
        .interval hl hs rfl hm rfl⟩
    · cases h
  · rename_i b us _ hb
    split at h
    · cases h
    · rename_i es y q mid hes
      cases h
      obtain ⟨front, rfl, hs⟩ := ih.listTail hb hes
      exact ⟨front ++ [⟨.bracketR, y, q⟩], by simp, .vector hl hs rfl⟩
    · cases h

theorem list_step (ih : Sound j n) {as : List Expr} (h : list j (n + 1) ts = .ok (as, rest)) :
    Takes j .items ts rest as := by
  unfold list at h
  split at h
  · cases h
  rename_i b mid hb
  split at h
  · cases h
  rename_i es us hes
  cases h
  exact ih.listTail hb hes

theorem listTail_step (ih : Sound j n) {mid : List Token} {es : List Expr}
    (ha : sum j (n + 1) ts = .ok (a, mid)) (h : listTail j (n + 1) mid = .ok (es, rest)) : Takes j .items ts rest (a :: es) := by
  obtain ⟨front, rfl, hs⟩ := sum_step ih ha
  unfold listTail at h
  split at h
  · rename_i x p us
    split at h
    · cases h
    rename_i b ws hb
    split at h
    · cases h
    rename_i fs vs hfs
    cases h
    obtain ⟨later, rfl, hl⟩ := ih.listTail hb hfs
    exact ⟨front ++ ⟨.comma, x, p⟩ :: later, by simp, .more hs rfl hl⟩
  · cases h
    exact ⟨front, rfl, .one hs⟩

end

/-- What the parser accepts is spelled by the language, whatever the allowance. -/
theorem sound (j : Bool) (n : Nat) : Sound j n := by
  induction n with
  | zero => exact sound_zero
  | succ n ih =>
    exact
      { sum := sum_step ih
        sumTail := sumTail_step ih
        product := product_step ih
        productTail := productTail_step ih
        operand := operand_step ih
        unary := unary_step ih
        power := power_step ih
        primary := primary_step ih
        brackets := brackets_step ih
        list := list_step ih
        listTail := listTail_step ih }

end ExprCalculus.Grammar
