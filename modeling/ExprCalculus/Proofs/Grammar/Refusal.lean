import ExprCalculus.Proofs.Grammar.Stopping

/-!
# Refused tokens and viable prefixes

An error of the parser inside a phrase is its answer for every phrase around it: nothing is tried again.  `Refuses`
says which error a list of tokens meets, with any allowance that is large enough, and there is one lemma for each
phrase that may stand around another one.  Two facts about the places where the parser stops follow by induction.

* `Stops.refuses` — with products of operands side by side, no other tokens behind the refused one help.
* `Stops.viable` — other tokens in its place complete the phrase, or reach an error about the arguments of a function.
-/

namespace ExprCalculus.Grammar

variable {j : Bool} {e : ParseError}

/-- The parser of this phrase answers with the error.  A list of items is left inside its first item or behind a
comma. -/
def Refuses (j : Bool) (e : ParseError) : Phrase → List Token → Prop
  | .sum, ts => ∀ n, 8 * ts.length + 4 ≤ n → sum j n ts = .error e
  | .product, ts => ∀ n, 8 * ts.length + 3 ≤ n → product j n ts = .error e
  | .unary, ts => ∀ n, 8 * ts.length + 2 ≤ n → unary j n ts = .error e
  | .power, ts => ∀ n, 8 * ts.length + 1 ≤ n → power j n ts = .error e
  | .primary, ts => ∀ n, 8 * ts.length ≤ n → primary j n ts = .error e
  | .items, ts => ∀ n, 8 * ts.length + 5 ≤ n → sum j n ts = .error e ∨
      ∃ a mid, nextKind mid = .comma ∧ sum j n ts = .ok (a, mid) ∧ listTail j n mid = .error e

namespace Refuses

variable {ts us : List Token} {a : Expr} {t l d : Token} {op : BinOp}

/-! ## Sums and products -/

theorem term (h : Refuses j e .product ts) : Refuses j e .sum ts := by
  intro n hn
  obtain ⟨n, rfl⟩ : ∃ m, n = m + 1 := ⟨n - 1, by omega⟩
  rw [Grammar.sum, h n (by omega)]

theorem nextTerm (ha : Spells j .sum ts a) (ht : (t.kind, op) ∈ sumSigns) (h : Refuses j e .product us) :
    Refuses j e .sum (ts ++ t :: us) := by
  intro n hn
  simp only [List.length_append, List.length_cons] at hn
  obtain ⟨m, hm, he⟩ := ha.reads (t :: us) n (endsProduct_sumSign ht) (by omega)
  obtain ⟨m, rfl⟩ : ∃ k, m = k + 1 := ⟨m - 1, by omega⟩
  rw [he, sumTail]
  simp only [nextKind, sumOp?_eq_some_iff.2 ht, List.tail_cons]
  rw [h m (by omega)]

theorem factor (h : Refuses j e .unary ts) : Refuses j e .product ts := by
  intro n hn
  obtain ⟨n, rfl⟩ : ∃ m, n = m + 1 := ⟨n - 1, by omega⟩
  rw [Grammar.product, h n (by omega)]

theorem nextFactor (ha : Spells j .product ts a) (ht : (t.kind, op) ∈ productSigns) (h : Refuses j e .unary us) :
    Refuses j e .product (ts ++ t :: us) := by
  intro n hn
  simp only [List.length_append, List.length_cons] at hn
  obtain ⟨m, hm, he⟩ := ha.reads (t :: us) n (endsOperand_productSign ts ht) (by omega)
  obtain ⟨m, rfl⟩ : ∃ k, m = k + 1 := ⟨m - 1, by omega⟩
  rw [he, productTail]
  simp only [nextKind, productOp?_eq_some_iff.2 ht, List.tail_cons]
  rw [h m (by omega)]

theorem beside (hj : j = true) (ha : Spells j .product ts a) (hu : startsOperand (nextKind us) = true)
    (hc : ¬ Calls ts us) (h : Refuses j e .unary us) : Refuses j e .product (ts ++ us) := by
  intro n hn
  simp only [List.length_append] at hn
  have hlength := ha.length_pos
  have hpower : nextKind us ≠ .power := by
    intro hk
    rw [hk] at hu
    cases hu
  obtain ⟨m, hm, he⟩ := ha.reads us n ⟨hpower, hc⟩ (by omega)
  obtain ⟨m, rfl⟩ : ∃ k, m = k + 1 := ⟨m - 1, by omega⟩
  rw [he, productTail, productOp?_of_startsOperand hu, hj, hu]
  have hunary := h m (by omega)
  rw [hj] at hunary
  simp only [Bool.and_self, if_true, hunary]

/-! ## Signs and powers -/

theorem sign (ht : t.kind = .minus ∨ t.kind = .plus) (h : Refuses j e .unary ts) : Refuses j e .unary (t :: ts) := by
  intro n hn
  simp only [List.length_cons] at hn
  obtain ⟨n, rfl⟩ : ∃ m, n = m + 1 := ⟨n - 1, by omega⟩
  have hunary := h n (by omega)
  obtain ⟨k, x, p⟩ := t
  rcases ht with ht | ht <;> cases ht <;> simp only [Grammar.unary, hunary]

theorem unsigned (hs : nextKind ts ≠ .minus ∧ nextKind ts ≠ .plus) (h : Refuses j e .power ts) :
    Refuses j e .unary ts := by
  intro n hn
  obtain ⟨n, rfl⟩ : ∃ m, n = m + 1 := ⟨n - 1, by omega⟩
  unfold Grammar.unary
  split
  · exact absurd rfl hs.1
  · exact absurd rfl hs.2
  · exact h n (by omega)

theorem base (h : Refuses j e .primary ts) : Refuses j e .power ts := by
  intro n hn
  obtain ⟨n, rfl⟩ : ∃ m, n = m + 1 := ⟨n - 1, by omega⟩
  rw [Grammar.power, h n (by omega)]

theorem exponent (ha : Spells j .primary ts a) (ht : t.kind = .power) (h : Refuses j e .unary us) :
    Refuses j e .power (ts ++ t :: us) := by
  intro n hn
  simp only [List.length_append, List.length_cons] at hn
  obtain ⟨n, rfl⟩ : ∃ m, n = m + 1 := ⟨n - 1, by omega⟩
  obtain ⟨k, x, p⟩ := t
  cases ht
  have hbase := ha.reads (⟨.power, x, p⟩ :: us) n (not_calls ts (not_emptyParens (by simp [nextKind]))) (by omega)
  simp only [Grammar.power, hbase, h n (by omega)]

/-! ## Lists -/

theorem item (h : Refuses j e .sum ts) : Refuses j e .items ts :=
  fun n hn => .inl (h n (by omega))

theorem nextItem (ha : Spells j .sum ts a) (ht : t.kind = .comma) (h : Refuses j e .items us) :
    Refuses j e .items (ts ++ t :: us) := by
  intro n hn
  simp only [List.length_append, List.length_cons] at hn
  have hsum := ha.reads.sum_ok (endsSum_of_closes t us (by rw [ht]; rfl)) (n := n) (by omega)
  refine .inr ⟨a, t :: us, ht, hsum, ?_⟩
  obtain ⟨n, rfl⟩ : ∃ m, n = m + 1 := ⟨n - 1, by omega⟩
  obtain ⟨k, x, p⟩ := t
  cases ht
  rcases h n (by omega) with hfirst | ⟨b, mid, -, hfirst, hlater⟩
  · simp only [listTail, hfirst]
  · simp only [listTail, hfirst, hlater]

/-! ## Operands -/

theorem inArguments (ht : t.kind = .function) (hl : l.kind = .parenL) (h : Refuses j e .items ts) :
    Refuses j e .primary (t :: l :: ts) := by
  intro n hn
  simp only [List.length_cons] at hn
  obtain ⟨n, rfl⟩ : ∃ m, n = m + 2 := ⟨n - 2, by omega⟩
  obtain ⟨_, x, p⟩ := t
  obtain ⟨_, y, q⟩ := l
  cases ht; cases hl
  rcases h n (by omega) with hfirst | ⟨b, mid, -, hfirst, hlater⟩
  · simp only [primary, list, hfirst]
  · simp only [primary, list, hfirst, hlater]

theorem inVector (hl : l.kind = .bracketL) (h : Refuses j e .items ts) : Refuses j e .primary (l :: ts) := by
  intro n hn
  simp only [List.length_cons] at hn
  obtain ⟨n, rfl⟩ : ∃ m, n = m + 2 := ⟨n - 2, by omega⟩
  obtain ⟨_, x, p⟩ := l
  cases hl
  rcases h n (by omega) with hfirst | ⟨b, mid, hcomma, hfirst, hlater⟩
  · simp only [primary, brackets, hfirst]
  · simp only [primary, brackets, hfirst]
    split
    · rename_i heq; cases heq
    · rename_i heq
      cases heq
      cases hcomma
    · rename_i heq
      cases heq
      simp only [hlater]

theorem inInterval (hl : l.kind = .bracketL) (ha : Spells j .sum ts a) (hd : d.kind = .dots)
    (h : Refuses j e .sum us) : Refuses j e .primary (l :: (ts ++ d :: us)) := by
  intro n hn
  simp only [List.length_cons, List.length_append] at hn
  obtain ⟨n, rfl⟩ : ∃ m, n = m + 2 := ⟨n - 2, by omega⟩
  have hlower := ha.reads.sum_ok (endsSum_of_closes d us (by rw [hd]; rfl)) (n := n) (by omega)
  have hupper := h n (by omega)
  obtain ⟨_, x, p⟩ := l
  obtain ⟨_, y, q⟩ := d
  cases hl; cases hd
  simp only [primary, brackets, hlower, hupper]

/-- A parenthesis before the tokens of a negative literal aside, what is in it is read as a sum. -/
theorem primary_paren {n : Nat} (hl : l.kind = .parenL) (hn : 8 * ts.length + 4 ≤ n) (h : sum j n ts = .error e ∨
    ∃ a rest, sum j n ts = .ok (a, rest) ∧ nextKind rest ≠ .parenR ∧ unexpected rest = e) :
    primary j (n + 1) (l :: ts) = .error e := by
  obtain ⟨_, x, p⟩ := l
  cases hl
  unfold primary
  split
  all_goals rename_i heq
  any_goals cases heq
  · -- the tokens of a literal would have been read as a sum
    rename_i m pm d pd r pr rest
    have hneg : Spells j .sum [⟨.minus, m, pm⟩, ⟨.number, d, pd⟩] (.neg (.number (numeralValue d))) :=
      .term (.factor (.neg rfl (.unsigned (.base (.number rfl)))))
    have hsum := hneg.reads.sum_ok (endsSum_of_closes ⟨.parenR, r, pr⟩ rest rfl) (n := n)
      (by simp only [List.length_cons, List.length_nil] at hn ⊢; omega)
    simp only [List.cons_append, List.nil_append] at hsum
    rw [hsum] at h
    rcases h with h | ⟨b, rest', h, hr, -⟩
    · cases h
    · cases h
      exact absurd rfl hr
  · rcases h with h | ⟨b, rest, h, hr, rfl⟩
    · rw [h]
    · rw [h]
      split
      · rename_i heq; cases heq
      · rename_i heq
        cases heq
        exact absurd rfl hr
      · rename_i heq
        cases heq
        rfl
  · rename_i hparen
    exact absurd rfl (hparen x p ts)

theorem inGroup (hl : l.kind = .parenL) (h : Refuses j e .sum ts) : Refuses j e .primary (l :: ts) := by
  intro n hn
  simp only [List.length_cons] at hn
  obtain ⟨n, rfl⟩ : ∃ m, n = m + 1 := ⟨n - 1, by omega⟩
  exact primary_paren hl (by omega) (.inl (h n (by omega)))

/-! ## The places that refuse a token -/

theorem start {back : List Token} (hk : startsPhrase .primary t.kind = false) :
    Refuses j (.unexpected t) .primary (t :: back) := by
  intro n hn
  simp only [List.length_cons] at hn
  obtain ⟨n, rfl⟩ : ∃ m, n = m + 1 := ⟨n - 1, by omega⟩
  obtain ⟨k, x, p⟩ := t
  cases k <;> first | rfl | cases hk

theorem function {back : List Token} (hl : l.kind = .function) (hk : t.kind ≠ .parenL) :
    Refuses j (.unexpected t) .primary (l :: t :: back) := by
  intro n hn
  simp only [List.length_cons] at hn
  obtain ⟨n, rfl⟩ : ∃ m, n = m + 1 := ⟨n - 1, by omega⟩
  obtain ⟨_, x, p⟩ := l
  cases hl
  obtain ⟨k, y, q⟩ := t
  cases k <;> first | rfl | exact absurd rfl hk

/-- The arguments are read, and then the closing parenthesis is missing or the function does not take them. -/
theorem arguments {f r : Token} {as : List Expr} {back : List Token} (hf : f.kind = .function) (hl : l.kind = .parenL)
    (has : Spells j .items ts as) (hk : closes r.kind = true) (hc : r.kind ≠ .comma)
    (he : if r.kind = .parenR then applyNamed f.text as = .error e else e = .unexpected r) :
    Refuses j e .primary (f :: l :: (ts ++ r :: back)) := by
  intro n hn
  simp only [List.length_cons, List.length_append] at hn
  obtain ⟨n, rfl⟩ : ∃ m, n = m + 2 := ⟨n - 2, by omega⟩
  obtain ⟨_, x, p⟩ := f
  obtain ⟨_, y, q⟩ := l
  obtain ⟨k, z, s⟩ := r
  cases hf; cases hl
  obtain ⟨a, es, mid, rfl, -, hsum, htail⟩ := has.reads (⟨k, z, s⟩ :: back) n hk hc (by omega)
  simp only [primary, list, hsum, htail]
  cases k <;> simp_all [unexpected]

theorem group {back : List Token} (hl : l.kind = .parenL) (ha : Spells j .sum ts a) (hk : closes t.kind = true)
    (hr : t.kind ≠ .parenR) : Refuses j (.unexpected t) .primary (l :: (ts ++ t :: back)) := by
  intro n hn
  simp only [List.length_cons, List.length_append] at hn
  obtain ⟨n, rfl⟩ : ∃ m, n = m + 1 := ⟨n - 1, by omega⟩
  have hsum := ha.reads.sum_ok (endsSum_of_closes t back hk) (n := n) (by omega)
  refine primary_paren hl ?_ (.inr ⟨a, t :: back, hsum, hr, rfl⟩)
  simp only [List.length_append, List.length_cons]
  omega

theorem vector {as : List Expr} {back : List Token} (hl : l.kind = .bracketL) (has : Spells j .items ts as)
    (hk : closes t.kind = true) (hr : t.kind ≠ .bracketR) (hc : t.kind ≠ .comma)
    (hd : t.kind = .dots → 2 ≤ as.length) : Refuses j (.unexpected t) .primary (l :: (ts ++ t :: back)) := by
  intro n hn
  simp only [List.length_cons, List.length_append] at hn
  obtain ⟨n, rfl⟩ : ∃ m, n = m + 2 := ⟨n - 2, by omega⟩
  obtain ⟨_, x, p⟩ := l
  cases hl
  obtain ⟨a, es, mid, rfl, hmid, hsum, htail⟩ := has.reads (t :: back) n hk hc (by omega)
  simp only [primary, brackets, hsum]
  split
  · rename_i heq; cases heq
  · -- two dots follow a single item only
    rename_i heq
    cases heq
    rcases hmid with ⟨rfl, hmid⟩ | hcomma
    · rw [List.cons.injEq] at hmid
      have := hd (by rw [← hmid.1])
      simp at this
    · cases hcomma
  · rename_i heq
    cases heq
    simp only [htail]
    obtain ⟨k, y, q⟩ := t
    cases k <;> first | rfl | exact absurd rfl hr

theorem interval {b : Expr} {back : List Token} (hl : l.kind = .bracketL) (ha : Spells j .sum ts a)
    (hd : d.kind = .dots) (hb : Spells j .sum us b) (hk : closes t.kind = true) (hr : t.kind ≠ .bracketR) :
    Refuses j (.unexpected t) .primary (l :: (ts ++ d :: (us ++ t :: back))) := by
  intro n hn
  simp only [List.length_cons, List.length_append] at hn
  obtain ⟨n, rfl⟩ : ∃ m, n = m + 2 := ⟨n - 2, by omega⟩
  have hlower := ha.reads.sum_ok (endsSum_of_closes d (us ++ t :: back) (by rw [hd]; rfl)) (n := n) (by omega)
  have hupper := hb.reads.sum_ok (endsSum_of_closes t back hk) (n := n) (by omega)
  obtain ⟨_, x, p⟩ := l
  obtain ⟨_, y, q⟩ := d
  cases hl; cases hd
  simp only [primary, brackets, hlower, hupper]
  obtain ⟨k, z, s⟩ := t
  cases k <;> first | rfl | exact absurd rfl hr

end Refuses

/-- **A refused token stays refused**, whatever follows it. -/
theorem Stops.refuses {p : Phrase} {front : List Token} {k : Kind} (h : Stops true p front k) {t : Token}
    (ht : t.kind = k) (back : List Token) : Refuses true (.unexpected t) p (front ++ t :: back) := by
  induction h with
  | start hk => exact .start (ht ▸ hk)
  | function hf hk => exact .function hf (ht ▸ hk)
  | arguments hf hl has hk hr hc =>
    subst ht
    exact .arguments hf hl has (hk rfl) hc (by rw [if_neg hr])
  | group hl ha hk hr => exact .group hl ha (ht ▸ hk rfl) (ht ▸ hr)
  | vector hl has hk hr hc hd => exact .vector hl has (ht ▸ hk rfl) (ht ▸ hr) (ht ▸ hc) (ht ▸ hd)
  | interval hl ha hd hb hk hr =>
    simp only [List.cons_append, List.append_assoc]
    exact .interval hl ha hd hb (ht ▸ hk rfl) (ht ▸ hr)
  | inArguments hf hl _ ih => exact .inArguments hf hl (ih ht)
  | inGroup hl _ ih => exact .inGroup hl (ih ht)
  | inVector hl _ ih => exact .inVector hl (ih ht)
  | inInterval hl ha hd _ ih =>
    simp only [List.cons_append, List.append_assoc]
    exact .inInterval hl ha hd (ih ht)
  | base _ ih => exact .base (ih ht)
  | exponent ha hp _ ih =>
    rw [List.append_assoc]
    exact .exponent ha hp (ih ht)
  | sign hs _ ih => exact .sign hs (ih ht)
  | unsigned hs _ ih => exact .unsigned (hs (t :: back) ht) (ih ht)
  | factor _ ih => exact .factor (ih ht)
  | nextFactor ha hs _ ih =>
    rw [List.append_assoc]
    exact .nextFactor ha hs (ih ht)
  | beside hj ha hu hc _ ih =>
    rw [List.append_assoc]
    exact .beside hj ha (startsOperand_append hu _) (hc (t :: back) ht) (ih ht)
  | term _ ih => exact .term (ih ht)
  | nextTerm ha hs _ ih =>
    rw [List.append_assoc]
    exact .nextTerm ha hs (ih ht)
  | item _ ih => exact .item (ih ht)
  | nextItem ha hc _ ih =>
    rw [List.append_assoc]
    exact .nextItem ha hc (ih ht)

/-! ## Errors about arguments -/

/-- The parser gives one answer. -/
theorem Refuses.unique {e' : ParseError} {p : Phrase} {ts : List Token} (h : Refuses j e p ts)
    (h' : Refuses j e' p ts) : e = e' := by
  cases p with
  | items =>
    rcases h _ (Nat.le_refl _) with h | ⟨a, mid, -, hfirst, h⟩ <;>
      rcases h' _ (Nat.le_refl _) with h' | ⟨a', mid', -, hfirst', h'⟩ <;> simp_all
  | _ => exact Except.error.inj ((h _ (Nat.le_refl _)).symm.trans (h' _ (Nat.le_refl _)))

/-- An error about arguments is met behind a function's name, not at a sign. -/
theorem Refuses.not_sign {ts : List Token} (h : Refuses j e .power ts) (he : e.Judged) :
    nextKind ts ≠ .minus ∧ nextKind ts ≠ .plus := by
  have refuted {k : Kind} (hf : k ≠ .finish) (hk : startsPhrase .primary k = false) : nextKind ts ≠ k := by
    refine nextKind_ne_of_forall hf fun x p us hts => ?_
    subst hts
    cases h.unique (.base (.start hk))
    exact he
  exact ⟨refuted (by decide) rfl, refuted (by decide) rfl⟩

/-- Nor is it met in empty parentheses. -/
theorem Refuses.not_emptyParens {ts : List Token} (h : Refuses j e .unary ts) (he : e.Judged) : ¬ EmptyParens ts := by
  rintro ⟨l, r, after, rfl, hl, hr⟩
  have hinner : Refuses j (.unexpected r) .unary (r :: after) :=
    .unsigned (by simp [nextKind, hr]) (.base (.start (by rw [hr]; rfl)))
  have houter : Refuses j (.unexpected r) .unary (l :: r :: after) :=
    .unsigned (by simp [nextKind, hl]) (.base (.inGroup hl (.term (.factor hinner))))
  cases h.unique houter
  exact he

/-! ## Viable prefixes -/

/-- More tokens complete the phrase, or lead to an error about the arguments of a function. -/
def Viable (j : Bool) (p : Phrase) (front : List Token) : Prop :=
  ∃ more, (∀ t ∈ more, isMeaningful t.kind = true) ∧
    ((∃ m, Spells j p (front ++ more) m) ∨
      ∃ e : ParseError, e.Judged ∧ ∀ rest, Refuses j e p (front ++ more ++ rest))

namespace Viable

variable {p q : Phrase} {front more us : List Token} {t l d : Token}

theorem of_spells {m : p.Meaning} (h : Spells j p front m) : Viable j p front :=
  ⟨[], by simp, .inl ⟨m, by rwa [List.append_nil]⟩⟩

theorem of_append (hmore : ∀ t ∈ more, isMeaningful t.kind = true) (h : Viable j p (front ++ more)) :
    Viable j p front := by
  obtain ⟨last, hlast, h⟩ := h
  refine ⟨more ++ last, List.forall_mem_append.2 ⟨hmore, hlast⟩, ?_⟩
  rwa [← List.append_assoc]

/-- A phrase is viable if the part of it that is being read is and the whole can be completed once the part is. -/
theorem under (h : Viable j p us) (around : List Token → List Token)
    (happend : ∀ front rest, around (front ++ rest) = around front ++ rest)
    (hs : ∀ more m, Spells j p (us ++ more) m → Viable j q (around (us ++ more)))
    (he : ∀ more e, e.Judged → Refuses j e p (us ++ more) → Refuses j e q (around (us ++ more))) :
    Viable j q (around us) := by
  obtain ⟨more, hmore, ⟨m, hm⟩ | ⟨e, hjudged, hrefuses⟩⟩ := h
  · refine of_append hmore ?_
    rw [← happend]
    exact hs more m hm
  · refine ⟨more, hmore, .inr ⟨e, hjudged, fun rest => ?_⟩⟩
    rw [List.append_assoc, ← happend]
    exact he _ e hjudged (by rw [← List.append_assoc]; exact hrefuses rest)

/-- A function with its arguments is completed by a parenthesis, and then judged. -/
theorem arguments {as : List Expr} (ht : t.kind = .function) (hl : l.kind = .parenL) (has : Spells j .items us as) :
    Viable j .primary (t :: l :: us) := by
  refine ⟨[⟨.parenR, [')'], 0⟩], by simp [isMeaningful], ?_⟩
  cases happly : applyNamed t.text as with
  | ok a => exact .inl ⟨a, .function ht hl has rfl (applyNamed_eq_ok_iff.1 happly)⟩
  | error e =>
    refine .inr ⟨e, applyNamed_judged happly, fun rest => ?_⟩
    simp only [List.cons_append, List.append_assoc, List.nil_append]
    exact .arguments ht hl has rfl (by simp) (by rwa [if_pos rfl])

theorem group {a : Expr} (hl : l.kind = .parenL) (ha : Spells j .sum us a) : Viable j .primary (l :: us) := by
  refine ⟨[⟨.parenR, [')'], 0⟩], by simp [isMeaningful], .inl ?_⟩
  by_cases hnegative : NegativeNumeral us
  · obtain ⟨m, n, hm, hn, rfl⟩ := hnegative
    exact ⟨_, .literal hl hm hn rfl⟩
  · exact ⟨a, .group hl ha hnegative rfl⟩

theorem vector {as : List Expr} (hl : l.kind = .bracketL) (has : Spells j .items us as) :
    Viable j .primary (l :: us) :=
  ⟨[⟨.bracketR, [']'], 0⟩], by simp [isMeaningful], .inl ⟨_, .vector hl has rfl⟩⟩

theorem interval {ts : List Token} {a b : Expr} (hl : l.kind = .bracketL) (ha : Spells j .sum ts a)
    (hd : d.kind = .dots) (hb : Spells j .sum us b) : Viable j .primary (l :: (ts ++ d :: us)) := by
  refine ⟨[⟨.bracketR, [']'], 0⟩], by simp [isMeaningful], .inl ⟨.interval a b, ?_⟩⟩
  simp only [List.cons_append, List.append_assoc]
  exact .interval hl ha hd hb rfl

end Viable

/-- What begins with an operand's token has no sign. -/
theorem Spells.power_of_startsOperand {ts : List Token} {a : Expr} (h : Spells j .unary ts a)
    (hu : startsOperand (nextKind ts) = true) : Spells j .power ts a := by
  cases h with
  | neg ht | pos ht =>
    simp only [nextKind, ht] at hu
    cases hu
  | unsigned ha => exact ha

/-- **What was read before a refused token can be completed.** -/
theorem Stops.viable {p : Phrase} {front : List Token} {k : Kind} (h : Stops j p front k) : Viable j p front := by
  induction h with
  | start => exact ⟨[⟨.number, ['0'], 0⟩], by simp [isMeaningful], .inl ⟨_, .number rfl⟩⟩
  | @function t k ht =>
    have hzero : Spells j .items [⟨.number, ['0'], 0⟩] [.number (numeralValue ['0'])] :=
      .one (.term (.factor (.unsigned (.base (.number rfl)))))
    have happlied : Viable j .primary ([t] ++ [⟨.parenL, ['('], 0⟩, ⟨.number, ['0'], 0⟩]) := .arguments ht rfl hzero
    exact .of_append (by simp [isMeaningful]) happlied
  | arguments ht hl has => exact .arguments ht hl has
  | group hl ha => exact .group hl ha
  | vector hl has => exact .vector hl has
  | interval hl ha hd hb => exact .interval hl ha hd hb
  | @inArguments t l ts k ht hl _ ih =>
    exact ih.under (t :: l :: ·) (by simp) (fun _ _ => .arguments ht hl) fun _ _ _ => .inArguments ht hl
  | @inGroup l ts k hl _ ih =>
    exact ih.under (l :: ·) (by simp) (fun _ _ => .group hl) fun _ _ _ => .inGroup hl
  | @inVector l ts k hl _ ih =>
    exact ih.under (l :: ·) (by simp) (fun _ _ => .vector hl) fun _ _ _ => .inVector hl
  | @inInterval l d ts us a k hl ha hd _ ih =>
    exact ih.under (l :: ts ++ d :: ·) (by simp) (fun _ _ => .interval hl ha hd) fun _ _ _ => .inInterval hl ha hd
  | base _ ih => exact ih.under id (fun _ _ => rfl) (fun _ _ hs => .of_spells (.base hs)) fun _ _ _ => .base
  | @exponent t ts us a k ha ht _ ih =>
    exact ih.under (ts ++ t :: ·) (by simp) (fun _ _ hs => .of_spells (.power ha ht hs)) fun _ _ _ => .exponent ha ht
  | @sign t ts k ht _ ih =>
    refine ih.under (t :: ·) (by simp) (fun _ _ hs => ?_) fun _ _ _ => .sign ht
    rcases ht with ht | ht
    · exact .of_spells (.neg ht hs)
    · exact .of_spells (.pos ht hs)
  | unsigned _ _ ih =>
    exact ih.under id (fun _ _ => rfl) (fun _ _ hs => .of_spells (.unsigned hs)) fun _ _ he h =>
      .unsigned (h.not_sign he) h
  | factor _ ih => exact ih.under id (fun _ _ => rfl) (fun _ _ hs => .of_spells (.factor hs)) fun _ _ _ => .factor
  | @nextFactor t ts us a op k ha ht _ ih =>
    exact ih.under (ts ++ t :: ·) (by simp) (fun _ _ hs => .of_spells (.product ha ht hs)) fun _ _ _ =>
      .nextFactor ha ht
  | @beside ts us a k hj ha hu _ _ ih =>
    have hstart := startsOperand_append hu
    refine ih.under (ts ++ ·) (by simp) (fun more m hs => ?_) fun more e he h => ?_
    · exact .of_spells (.beside hj ha (hs.power_of_startsOperand (hstart more)) (hstart more))
    · exact .beside hj ha (hstart more) (not_calls ts (h.not_emptyParens he)) h
  | term _ ih => exact ih.under id (fun _ _ => rfl) (fun _ _ hs => .of_spells (.term hs)) fun _ _ _ => .term
  | @nextTerm t ts us a op k ha ht _ ih =>
    exact ih.under (ts ++ t :: ·) (by simp) (fun _ _ hs => .of_spells (.sum ha ht hs)) fun _ _ _ => .nextTerm ha ht
  | item _ ih => exact ih.under id (fun _ _ => rfl) (fun _ _ hs => .of_spells (.one hs)) fun _ _ _ => .item
  | @nextItem t ts us a k ha ht _ ih =>
    exact ih.under (ts ++ t :: ·) (by simp) (fun _ _ hs => .of_spells (.more ha ht hs)) fun _ _ _ => .nextItem ha ht

end ExprCalculus.Grammar
