import ExprCalculus.Proofs.Grammar.Soundness

/-!
# The parser accepts all of the language

A phrase that is followed by a token which cannot extend it is read as the language says, whatever comes
after (`Spells.reads`).  The parser commits early, so for each phrase there is a condition on what follows:
a name must not stand before `()`, a power not before another sign of a power, and so on up to a sum, which
nothing may follow that is an operation or begins an operand beside it.

The allowance a phrase needs grows with its number of tokens; eight for each token are enough.
-/

namespace ExprCalculus.Grammar

variable {j : Bool}

/-! ## What may follow a phrase -/

/-- Whether a token of this kind ends every phrase before it. -/
def closes : Kind → Bool
  | .parenR | .bracketL | .bracketR | .dots | .comma | .bad | .finish => true
  | _ => false

/-- Whether two parentheses follow at once, which make a name before them a call. -/
def EmptyParens (rest : List Token) : Prop :=
  ∃ l r after, rest = l :: r :: after ∧ l.kind = .parenL ∧ r.kind = .parenR

/-- Whether the last token is a name that a call can have. -/
def EndsInName (ts : List Token) : Prop :=
  ∃ t, ts.getLast? = some t ∧ t.kind = .name ∧ ∀ v, (t.text, v) ∉ constants

/-- Whether what follows makes the last token a call. -/
def Calls (ts rest : List Token) : Prop := EndsInName ts ∧ EmptyParens rest

/-- What may follow a sum. -/
def EndsSum (rest : List Token) : Prop := closes (nextKind rest) = true

/-- What may follow a product. -/
def EndsProduct (rest : List Token) : Prop :=
  closes (nextKind rest) = true ∨ (sumOp? (nextKind rest)).isSome = true

/-- What may follow an operand with its signs: no sign of a power, and no parentheses of a call. -/
def EndsOperand (ts rest : List Token) : Prop := nextKind rest ≠ .power ∧ ¬ Calls ts rest

theorem not_emptyParens {rest : List Token} (h : nextKind rest ≠ .parenL) : ¬ EmptyParens rest := by
  rintro ⟨l, r, after, rfl, hl, _⟩
  exact h hl

theorem not_calls (ts : List Token) {rest : List Token} (h : ¬ EmptyParens rest) : ¬ Calls ts rest :=
  fun hc => h hc.2

theorem EndsInName.append {us : List Token} (h : EndsInName us) (ts : List Token) : EndsInName (ts ++ us) := by
  obtain ⟨t, hlast, ht⟩ := h
  exact ⟨t, by rw [List.getLast?_append, hlast, Option.some_or], ht⟩

/-- Only the last part of a phrase matters to what may follow. -/
theorem EndsOperand.of_append {ts us rest : List Token} (h : EndsOperand (ts ++ us) rest) : EndsOperand us rest :=
  ⟨h.1, fun hc => h.2 ⟨hc.1.append ts, hc.2⟩⟩

theorem EndsOperand.of_cons {ts rest : List Token} {t : Token} (h : EndsOperand (t :: ts) rest) :
    EndsOperand ts rest := by
  rw [← List.singleton_append] at h
  exact h.of_append

theorem EndsOperand.of_append_cons {ts us rest : List Token} {t : Token} (h : EndsOperand (ts ++ t :: us) rest) :
    EndsOperand us rest := h.of_append.of_cons

theorem EndsSum.product {rest : List Token} (h : EndsSum rest) : EndsProduct rest := .inl h

theorem EndsProduct.operand {rest : List Token} (h : EndsProduct rest) (ts : List Token) : EndsOperand ts rest := by
  have hk : nextKind rest ≠ .power ∧ nextKind rest ≠ .parenL := by
    unfold EndsProduct at h
    constructor <;> intro hk <;> rw [hk] at h <;> simp [closes, sumOp?] at h
  exact ⟨hk.1, not_calls ts (not_emptyParens hk.2)⟩

theorem endsProduct_sumSign {t : Token} {op : BinOp} {us : List Token} (h : (t.kind, op) ∈ sumSigns) :
    EndsProduct (t :: us) := by
  right
  simp only [nextKind, sumOp?_eq_some_iff.2 h, Option.isSome_some]

theorem endsOperand_productSign (ts : List Token) {t : Token} {op : BinOp} {us : List Token}
    (h : (t.kind, op) ∈ productSigns) : EndsOperand ts (t :: us) := by
  rw [← productOp?_eq_some_iff] at h
  constructor
  · intro hk
    simp only [nextKind] at hk
    rw [hk] at h
    cases h
  · refine not_calls ts (not_emptyParens fun hk => ?_)
    simp only [nextKind] at hk
    rw [hk] at h
    cases h

theorem endsSum_of_closes (t : Token) (us : List Token) (h : closes t.kind = true) : EndsSum (t :: us) := h

/-- What begins with an operand's token begins with no sign of a product. -/
theorem productOp?_of_startsOperand {k : Kind} (h : startsOperand k = true) : productOp? k = none := by
  cases k <;> first | rfl | cases h

theorem startsOperand_append {us : List Token} (h : startsOperand (nextKind us) = true) (rest : List Token) :
    startsOperand (nextKind (us ++ rest)) = true := by
  cases us with
  | nil => cases h
  | cons u us => exact h

/-- No power begins with the parentheses of a call. -/
theorem Spells.not_emptyParens {p : Phrase} {us : List Token} {m : p.Meaning} (h : Spells j p us m)
    (rest : List Token) : ¬ EmptyParens (us ++ rest) := by
  induction h generalizing rest with
  | term _ ih | factor _ ih | base _ ih | unsigned _ ih | one _ ih => exact ih rest
  | sum _ _ _ ih | product _ _ _ ih | power _ _ _ ih | more _ _ _ ih =>
    rw [List.append_assoc]
    exact ih _
  | beside _ _ _ _ ih =>
    rw [List.append_assoc]
    exact ih _
  | group hl ha _ hr =>
    obtain ⟨t, ts, rfl, ht⟩ := ha.head
    rintro ⟨l, r, after, he, _, hr'⟩
    simp only [List.cons_append, List.cons.injEq] at he
    rw [he.2.1, hr'] at ht
    cases ht
  | literal _ hm _ _ =>
    rintro ⟨l, r, after, he, _, hr'⟩
    simp only [List.cons_append, List.cons.injEq] at he
    rw [he.2.1, hr'] at hm
    cases hm
  | neg ht | pos ht | number ht | constant ht | var ht | call ht | function ht | vector ht | interval ht =>
    apply Grammar.not_emptyParens
    simp [nextKind, ht]

theorem endsOperand_of_startsOperand (ts : List Token) {us : List Token} {b : Expr} (h : Spells j .power us b)
    (hu : startsOperand (nextKind us) = true) (rest : List Token) : EndsOperand ts (us ++ rest) := by
  refine ⟨?_, not_calls ts (h.not_emptyParens rest)⟩
  obtain ⟨t, ts, rfl, _⟩ := h.head
  intro hk
  simp only [List.cons_append, nextKind] at hk hu
  rw [hk] at hu
  cases hu

/-! ## The loops end -/

theorem sumTail_ends {a : Expr} {rest : List Token} {n : Nat} (hr : EndsSum rest) (hn : 1 ≤ n) :
    sumTail j n a rest = .ok (a, rest) := by
  obtain ⟨n, rfl⟩ : ∃ m, n = m + 1 := ⟨n - 1, by omega⟩
  unfold EndsSum at hr
  unfold sumTail
  cases hk : nextKind rest <;> rw [hk] at hr <;> first | rfl | cases hr

theorem productTail_ends {a : Expr} {rest : List Token} {n : Nat} (hr : EndsProduct rest) (hn : 1 ≤ n) :
    productTail j n a rest = .ok (a, rest) := by
  obtain ⟨n, rfl⟩ : ∃ m, n = m + 1 := ⟨n - 1, by omega⟩
  unfold EndsProduct at hr
  unfold productTail
  cases hk : nextKind rest <;> rw [hk] at hr <;>
    simp_all [closes, sumOp?, productOp?, startsOperand]

/-! ## The parser reads every phrase -/

/-- The parser reads the tokens as this phrase, whatever follows that cannot extend it.  The loops of sums
and products are left at the point where they have read the phrase and look at the next token. -/
def Reads (j : Bool) : (p : Phrase) → List Token → p.Meaning → Prop
  | .sum, ts, a => ∀ rest n, EndsProduct rest → 8 * ts.length + 4 ≤ n →
      ∃ m, n ≤ m + ts.length + 1 ∧ sum j n (ts ++ rest) = sumTail j m a rest
  | .product, ts, a => ∀ rest n, EndsOperand ts rest → 8 * ts.length + 3 ≤ n →
      ∃ m, n ≤ m + ts.length + 1 ∧ product j n (ts ++ rest) = productTail j m a rest
  | .unary, ts, a => ∀ rest n, EndsOperand ts rest → 8 * ts.length + 2 ≤ n →
      unary j n (ts ++ rest) = .ok (a, rest)
  | .power, ts, a => ∀ rest n, EndsOperand ts rest → 8 * ts.length + 1 ≤ n →
      power j n (ts ++ rest) = .ok (a, rest)
  | .primary, ts, a => ∀ rest n, ¬ Calls ts rest → 8 * ts.length ≤ n →
      primary j n (ts ++ rest) = .ok (a, rest)
  | .items, ts, as => ∀ rest n, EndsSum rest → nextKind rest ≠ .comma → 8 * ts.length + 5 ≤ n →
      ∃ a es mid, as = a :: es ∧ (es = [] ∧ mid = rest ∨ nextKind mid = .comma) ∧
        sum j n (ts ++ rest) = .ok (a, mid) ∧ listTail j n mid = .ok (es, rest)

theorem Reads.sum_ok {ts rest : List Token} {a : Expr} {n : Nat} (h : Reads j .sum ts a)
    (hr : EndsSum rest) (hn : 8 * ts.length + 4 ≤ n) : sum j n (ts ++ rest) = .ok (a, rest) := by
  obtain ⟨m, hm, he⟩ := h rest n hr.product hn
  rw [he, sumTail_ends hr (by omega)]

theorem Reads.product_ok {ts rest : List Token} {a : Expr} {n : Nat} (h : Reads j .product ts a)
    (hr : EndsProduct rest) (hn : 8 * ts.length + 3 ≤ n) : product j n (ts ++ rest) = .ok (a, rest) := by
  obtain ⟨m, hm, he⟩ := h rest n (hr.operand ts) hn
  rw [he, productTail_ends hr (by omega)]

theorem Reads.term {ts : List Token} {a : Expr} (ha : Reads j .product ts a) : Reads j .sum ts a := by
  intro rest n hr hn
  obtain ⟨n, rfl⟩ : ∃ m, n = m + 1 := ⟨n - 1, by omega⟩
  refine ⟨n, by omega, ?_⟩
  rw [Grammar.sum, ha.product_ok hr (by omega)]

theorem Reads.add {ts us : List Token} {a b : Expr} {t : Token} {op : BinOp} (ha : Reads j .sum ts a)
    (ht : (t.kind, op) ∈ sumSigns) (hb : Reads j .product us b) :
    Reads j .sum (ts ++ t :: us) (.binary op a b) := by
  intro rest n hr hn
  simp only [List.length_append, List.length_cons] at hn
  obtain ⟨m, hm, he⟩ := ha (t :: us ++ rest) n (endsProduct_sumSign ht) (by omega)
  obtain ⟨m, rfl⟩ : ∃ k, m = k + 1 := ⟨m - 1, by omega⟩
  refine ⟨m, by simp only [List.length_append, List.length_cons]; omega, ?_⟩
  rw [List.append_assoc, he, sumTail]
  simp only [List.cons_append, nextKind, sumOp?_eq_some_iff.2 ht, List.tail_cons]
  rw [hb.product_ok hr (by omega)]

theorem Reads.factor {ts : List Token} {a : Expr} (ha : Reads j .unary ts a) :
    Reads j .product ts a := by
  intro rest n hr hn
  obtain ⟨n, rfl⟩ : ∃ m, n = m + 1 := ⟨n - 1, by omega⟩
  refine ⟨n, by omega, ?_⟩
  rw [Grammar.product, ha rest n hr (by omega)]

theorem Reads.multiply {ts us : List Token} {a b : Expr} {t : Token} {op : BinOp}
    (ha : Reads j .product ts a) (ht : (t.kind, op) ∈ productSigns) (hb : Reads j .unary us b) :
    Reads j .product (ts ++ t :: us) (.binary op a b) := by
  intro rest n hr hn
  simp only [List.length_append, List.length_cons] at hn
  obtain ⟨m, hm, he⟩ := ha (t :: us ++ rest) n (endsOperand_productSign ts ht) (by omega)
  obtain ⟨m, rfl⟩ : ∃ k, m = k + 1 := ⟨m - 1, by omega⟩
  refine ⟨m, by simp only [List.length_append, List.length_cons]; omega, ?_⟩
  rw [List.append_assoc, he, productTail]
  simp only [List.cons_append, nextKind, productOp?_eq_some_iff.2 ht, List.tail_cons]
  rw [hb rest m hr.of_append_cons (by omega)]

theorem Reads.neg {ts : List Token} {a : Expr} {t : Token} (ht : t.kind = .minus)
    (ha : Reads j .unary ts a) : Reads j .unary (t :: ts) (.neg a) := by
  intro rest n hr hn
  simp only [List.length_cons] at hn
  obtain ⟨n, rfl⟩ : ∃ m, n = m + 1 := ⟨n - 1, by omega⟩
  obtain ⟨k, x, p⟩ := t
  cases ht
  rw [List.cons_append, Grammar.unary, ha rest n hr.of_cons (by omega)]

theorem Reads.pos {ts : List Token} {a : Expr} {t : Token} (ht : t.kind = .plus)
    (ha : Reads j .unary ts a) : Reads j .unary (t :: ts) a := by
  intro rest n hr hn
  simp only [List.length_cons] at hn
  obtain ⟨n, rfl⟩ : ∃ m, n = m + 1 := ⟨n - 1, by omega⟩
  obtain ⟨k, x, p⟩ := t
  cases ht
  rw [List.cons_append, Grammar.unary, ha rest n hr.of_cons (by omega)]

theorem Reads.unsigned {ts : List Token} {a : Expr} (hs : Spells j .power ts a)
    (ha : Reads j .power ts a) : Reads j .unary ts a := by
  intro rest n hr hn
  obtain ⟨n, rfl⟩ : ∃ m, n = m + 1 := ⟨n - 1, by omega⟩
  have hp := ha rest n hr (by omega)
  obtain ⟨⟨k, x, p⟩, us, rfl, hk⟩ := hs.head
  unfold Grammar.unary
  cases k <;> first | exact hp | cases hk

theorem Reads.beside {ts us : List Token} {a b : Expr} (hj : j = true) (ht : 0 < ts.length)
    (ha : Reads j .product ts a) (hs : Spells j .power us b) (hb : Reads j .power us b)
    (hu : startsOperand (nextKind us) = true) : Reads j .product (ts ++ us) (.times a b) := by
  intro rest n hr hn
  simp only [List.length_append] at hn
  have hlen := hs.length_pos
  obtain ⟨m, hm, he⟩ := ha (us ++ rest) n (endsOperand_of_startsOperand ts hs hu rest) (by omega)
  obtain ⟨m, rfl⟩ : ∃ k, m = k + 1 := ⟨m - 1, by omega⟩
  refine ⟨m, by simp only [List.length_append]; omega, ?_⟩
  have hb' := hb.unsigned hs rest m hr.of_append (by omega)
  have hk := startsOperand_append hu rest
  rw [List.append_assoc, he, productTail]
  simp only [productOp?_of_startsOperand hk, hj, hk, Bool.and_self, if_true]
  rw [hj] at hb'
  rw [hb']

theorem Reads.base {ts : List Token} {a : Expr} (ha : Reads j .primary ts a) : Reads j .power ts a := by
  intro rest n hr hn
  obtain ⟨n, rfl⟩ : ∃ m, n = m + 1 := ⟨n - 1, by omega⟩
  unfold Grammar.power
  rw [ha rest n hr.2 (by omega)]
  split
  · rename_i heq; cases heq
  · rename_i heq
    cases heq
    exact absurd rfl hr.1
  · rename_i heq; cases heq; rfl

theorem Reads.raise {ts us : List Token} {a b : Expr} {t : Token} (ha : Reads j .primary ts a)
    (ht : t.kind = .power) (hb : Reads j .unary us b) :
    Reads j .power (ts ++ t :: us) (.power a b) := by
  intro rest n hr hn
  simp only [List.length_append, List.length_cons] at hn
  obtain ⟨n, rfl⟩ : ∃ m, n = m + 1 := ⟨n - 1, by omega⟩
  obtain ⟨k, x, p⟩ := t
  cases ht
  have hp := ha (⟨.power, x, p⟩ :: us ++ rest) n (not_calls ts (not_emptyParens (by simp [nextKind])))
    (by omega)
  rw [List.append_assoc, Grammar.power, hp]
  simp only [List.cons_append]
  rw [hb rest n hr.of_append_cons (by omega)]

/-! ## Operands -/

theorem Reads.number {t : Token} (ht : t.kind = .number) :
    Reads j .primary [t] (.number (numeralValue t.text)) := by
  intro rest n _ hn
  obtain ⟨n, rfl⟩ : ∃ m, n = m + 1 := ⟨n - 1, by simp at hn; omega⟩
  obtain ⟨k, x, p⟩ := t
  cases ht
  rfl

theorem Reads.constant {t : Token} {v : Num} (ht : t.kind = .name) (hv : (t.text, v) ∈ constants) :
    Reads j .primary [t] (.number v) := by
  intro rest n _ hn
  obtain ⟨n, rfl⟩ : ∃ m, n = m + 1 := ⟨n - 1, by simp at hn; omega⟩
  obtain ⟨k, x, p⟩ := t
  cases ht
  simp only [List.cons_append, List.nil_append, primary, nameExpr, constant?_eq_some_iff.2 hv]

theorem Reads.var {t : Token} (ht : t.kind = .name) (hn : ∀ v, (t.text, v) ∉ constants) :
    Reads j .primary [t] (.var (String.ofList t.text)) := by
  intro rest n hr hl
  obtain ⟨n, rfl⟩ : ∃ m, n = m + 1 := ⟨n - 1, by simp at hl; omega⟩
  obtain ⟨k, x, p⟩ := t
  cases ht
  simp only [List.cons_append, List.nil_append, primary, nameExpr, constant?_eq_none_iff.2 hn]
  split
  · exact absurd ⟨⟨_, rfl, rfl, hn⟩, _, _, _, rfl, rfl, rfl⟩ hr
  · rfl

theorem Reads.call {t l r : Token} (ht : t.kind = .name) (hn : ∀ v, (t.text, v) ∉ constants)
    (hl : l.kind = .parenL) (hr : r.kind = .parenR) :
    Reads j .primary [t, l, r] (.call (String.ofList t.text)) := by
  intro rest n _ hlen
  obtain ⟨n, rfl⟩ : ∃ m, n = m + 1 := ⟨n - 1, by simp at hlen; omega⟩
  obtain ⟨_, x, p⟩ := t
  obtain ⟨_, y, q⟩ := l
  obtain ⟨_, z, s⟩ := r
  cases ht; cases hl; cases hr
  simp only [List.cons_append, List.nil_append, primary, nameExpr, constant?_eq_none_iff.2 hn]

theorem Reads.literal {l m t r : Token} (hl : l.kind = .parenL) (hm : m.kind = .minus)
    (ht : t.kind = .number) (hr : r.kind = .parenR) :
    Reads j .primary [l, m, t, r] (.number (numeralValue t.text).negate) := by
  intro rest n _ hlen
  obtain ⟨n, rfl⟩ : ∃ m, n = m + 1 := ⟨n - 1, by simp at hlen; omega⟩
  obtain ⟨_, x, p⟩ := t
  obtain ⟨_, y, q⟩ := l
  obtain ⟨_, z, s⟩ := r
  obtain ⟨_, w, u⟩ := m
  cases ht; cases hl; cases hr; cases hm
  rfl

theorem Reads.function {ts : List Token} {as : List Expr} {a : Expr} {t l r : Token}
    (ht : t.kind = .function) (hl : l.kind = .parenL) (has : Reads j .items ts as)
    (hr : r.kind = .parenR) (ha : Applied t.text as a) :
    Reads j .primary (t :: l :: (ts ++ [r])) a := by
  intro rest n _ hn
  simp only [List.length_cons, List.length_append, List.length_nil] at hn
  obtain ⟨n, rfl⟩ : ∃ m, n = m + 2 := ⟨n - 2, by omega⟩
  obtain ⟨_, x, p⟩ := t
  obtain ⟨_, y, q⟩ := l
  obtain ⟨_, z, s⟩ := r
  cases ht; cases hl; cases hr
  obtain ⟨b, es, mid, rfl, _, hsum, htail⟩ := has (⟨.parenR, z, s⟩ :: rest) n rfl (by simp [nextKind]) (by omega)
  simp only [List.cons_append, List.append_assoc, List.nil_append, primary, list, hsum, htail,
    applyNamed_eq_ok_iff.2 ha]

/-- A sum never goes on after a negative numeral and a closing parenthesis: the parser would stop there. -/
theorem Reads.not_cut {ts more : List Token} {a : Expr} {m n r : Token} (ha : Reads j .sum ts a)
    (hm : m.kind = .minus) (hn : n.kind = .number) (hr : r.kind = .parenR) :
    ts ≠ m :: n :: r :: more := by
  rintro rfl
  have hneg : Reads j .sum [m, n] (.neg (.number (numeralValue n.text))) :=
    .term (.factor (.neg hm (.unsigned (.base (.number hn)) (.base (.number hn)))))
  have hend : EndsSum [] := rfl
  have h1 := ha.sum_ok hend (Nat.le_refl _)
  have h2 := hneg.sum_ok (endsSum_of_closes r more (by rw [hr]; rfl))
    (n := 8 * (m :: n :: r :: more).length + 4)
    (by simp only [List.length_cons, List.length_nil]; omega)
  simp only [List.cons_append, List.nil_append, List.append_nil] at h1 h2
  rw [h1] at h2
  simp at h2

theorem Reads.group {ts : List Token} {a : Expr} {l r : Token} (hl : l.kind = .parenL)
    (ha : Reads j .sum ts a) (hn : ¬ NegativeNumeral ts) (hr : r.kind = .parenR) :
    Reads j .primary (l :: (ts ++ [r])) a := by
  intro rest n _ hlen
  simp only [List.length_cons, List.length_append, List.length_nil] at hlen
  obtain ⟨n, rfl⟩ : ∃ m, n = m + 1 := ⟨n - 1, by omega⟩
  have hsum := ha.sum_ok (endsSum_of_closes r rest (by rw [hr]; rfl)) (n := n) (by omega)
  obtain ⟨_, y, q⟩ := l
  obtain ⟨_, z, s⟩ := r
  cases hl; cases hr
  simp only [List.cons_append, List.append_assoc, List.nil_append]
  unfold primary
  split
  all_goals rename_i heq
  any_goals cases heq
  -- the four tokens of a negative literal
  · match ts, heq with
    | [], heq => cases heq
    | [_], heq => cases heq
    | [_, _], heq =>
      cases heq
      exact absurd ⟨_, _, rfl, rfl, rfl⟩ hn
    | _ :: _ :: _ :: _, heq =>
      cases heq
      exact absurd rfl (ha.not_cut rfl rfl rfl)
  · simp only [hsum]
  · rename_i hgroup
    exact absurd rfl (hgroup y q _)

theorem Reads.vector {ts : List Token} {as : List Expr} {l r : Token} (hl : l.kind = .bracketL)
    (has : Reads j .items ts as) (hr : r.kind = .bracketR) :
    Reads j .primary (l :: (ts ++ [r])) (.vector as) := by
  intro rest n _ hn
  simp only [List.length_cons, List.length_append, List.length_nil] at hn
  obtain ⟨n, rfl⟩ : ∃ m, n = m + 2 := ⟨n - 2, by omega⟩
  obtain ⟨_, y, q⟩ := l
  obtain ⟨_, z, s⟩ := r
  cases hl; cases hr
  obtain ⟨b, es, mid, rfl, hd, hsum, htail⟩ := has (⟨.bracketR, z, s⟩ :: rest) n rfl (by simp [nextKind])
    (by omega)
  simp only [List.cons_append, List.append_assoc, List.nil_append, primary, brackets, hsum]
  split
  · rename_i heq; cases heq
  · rename_i heq
    cases heq
    rcases hd with ⟨-, hmid⟩ | hcomma
    · cases hmid
    · cases hcomma
  · rename_i heq
    cases heq
    simp only [htail]

theorem Reads.interval {ts us : List Token} {a b : Expr} {l d r : Token} (hl : l.kind = .bracketL)
    (ha : Reads j .sum ts a) (hd : d.kind = .dots) (hb : Reads j .sum us b) (hr : r.kind = .bracketR) :
    Reads j .primary (l :: (ts ++ d :: (us ++ [r]))) (.interval a b) := by
  intro rest n _ hn
  simp only [List.length_cons, List.length_append, List.length_nil] at hn
  obtain ⟨n, rfl⟩ : ∃ m, n = m + 2 := ⟨n - 2, by omega⟩
  obtain ⟨_, x, p⟩ := l
  obtain ⟨_, y, q⟩ := d
  obtain ⟨_, z, s⟩ := r
  cases hl; cases hd; cases hr
  have h1 := ha.sum_ok (endsSum_of_closes ⟨.dots, y, q⟩ (us ++ ⟨.bracketR, z, s⟩ :: rest) rfl) (n := n)
    (by omega)
  have h2 := hb.sum_ok (endsSum_of_closes ⟨.bracketR, z, s⟩ rest rfl) (n := n) (by omega)
  simp only [List.cons_append, List.append_assoc, List.nil_append, primary, brackets, h1, h2]

/-! ## Lists -/

theorem Reads.one {ts : List Token} {a : Expr} (ha : Reads j .sum ts a) : Reads j .items ts [a] := by
  intro rest n hr hcomma hn
  obtain ⟨n, rfl⟩ : ∃ m, n = m + 1 := ⟨n - 1, by omega⟩
  refine ⟨a, [], rest, rfl, .inl ⟨rfl, rfl⟩, ha.sum_ok hr (by omega), ?_⟩
  unfold listTail
  split
  · exact absurd rfl hcomma
  · rfl

theorem Reads.more {ts us : List Token} {a : Expr} {as : List Expr} {t : Token} (ha : Reads j .sum ts a)
    (ht : t.kind = .comma) (has : Reads j .items us as) : Reads j .items (ts ++ t :: us) (a :: as) := by
  intro rest n hr hcomma hn
  simp only [List.length_append, List.length_cons] at hn
  obtain ⟨n, rfl⟩ : ∃ m, n = m + 1 := ⟨n - 1, by omega⟩
  obtain ⟨_, x, p⟩ := t
  cases ht
  obtain ⟨b, es, mid, rfl, _, hsum, htail⟩ := has rest n hr hcomma (by omega)
  refine ⟨a, b :: es, ⟨.comma, x, p⟩ :: us ++ rest, rfl, .inr rfl, ?_, ?_⟩
  · rw [List.append_assoc]
    exact ha.sum_ok (endsSum_of_closes _ _ rfl) (by omega)
  · simp only [List.cons_append, listTail, hsum, htail]

/-- **The parser reads every phrase of the language.** -/
theorem Spells.reads {p : Phrase} {ts : List Token} {m : p.Meaning} (h : Spells j p ts m) :
    Reads j p ts m := by
  induction h with
  | term _ ih => exact .term ih
  | sum _ ht _ iha ihb => exact .add iha ht ihb
  | factor _ ih => exact .factor ih
  | product _ ht _ iha ihb => exact .multiply iha ht ihb
  | beside hj ha hb hu iha ihb => exact .beside hj ha.length_pos iha hb ihb hu
  | neg ht _ ih => exact .neg ht ih
  | pos ht _ ih => exact .pos ht ih
  | unsigned ha ih => exact .unsigned ha ih
  | base _ ih => exact .base ih
  | power _ ht _ iha ihb => exact .raise iha ht ihb
  | number ht => exact .number ht
  | constant ht hv => exact .constant ht hv
  | var ht hn => exact .var ht hn
  | call ht hn hl hr => exact .call ht hn hl hr
  | function ht hl _ hr ha ih => exact .function ht hl ih hr ha
  | literal hl hm ht hr => exact .literal hl hm ht hr
  | group hl _ hn hr ih => exact .group hl ih hn hr
  | vector hl _ hr ih => exact .vector hl ih hr
  | interval hl _ hd _ hr iha ihb => exact .interval hl iha hd ihb hr
  | one _ ih => exact .one ih
  | more _ ht _ iha ihas => exact .more iha ht ihas

end ExprCalculus.Grammar
