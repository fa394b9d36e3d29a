import ExprCalculus.Proofs.Grammar.Maximality

/-!
# Where the parser refuses a token

`Stops j p front k` says that the parser of the phrase `p` gives up after the tokens `front` at a token of kind `k`:
one of six places refuses the token, and the phrases around that place have been read up to there.  Whenever a function
of the parser refuses a token, the tokens before it are such a `front` (`stopped`); for a whole list of tokens there is
one more place, behind the expression (`parseTokens_stopped`).
-/

namespace ExprCalculus.Grammar

variable {j : Bool}

/-- Whether a phrase ends before a token of this kind.  Where operands side by side are no product this is not asked
for. -/
def Blocks (j : Bool) (k : Kind) : Prop := j = true → closes k = true

/-- Which tokens the parser has read, of which phrase, when it refuses a token of this kind. -/
inductive Stops (j : Bool) : Phrase → List Token → Kind → Prop
  -- the places that refuse a token
  | start {k : Kind} (hk : startsPhrase .primary k = false) : Stops j .primary [] k
  | function {t : Token} {k : Kind} (ht : t.kind = .function) (hk : k ≠ .parenL) : Stops j .primary [t] k
  | arguments {t l : Token} {ts : List Token} {as : List Expr} {k : Kind} (ht : t.kind = .function)
    (hl : l.kind = .parenL) (has : Spells j .items ts as) (hk : Blocks j k) (hr : k ≠ .parenR) (hc : k ≠ .comma) :
    Stops j .primary (t :: l :: ts) k
  | group {l : Token} {ts : List Token} {a : Expr} {k : Kind} (hl : l.kind = .parenL) (ha : Spells j .sum ts a)
    (hk : Blocks j k) (hr : k ≠ .parenR) : Stops j .primary (l :: ts) k
  | vector {l : Token} {ts : List Token} {as : List Expr} {k : Kind} (hl : l.kind = .bracketL)
    (has : Spells j .items ts as) (hk : Blocks j k) (hr : k ≠ .bracketR) (hc : k ≠ .comma)
    (hd : k = .dots → 2 ≤ as.length) : Stops j .primary (l :: ts) k
  | interval {l d : Token} {ts us : List Token} {a b : Expr} {k : Kind} (hl : l.kind = .bracketL)
    (ha : Spells j .sum ts a) (hd : d.kind = .dots) (hb : Spells j .sum us b) (hk : Blocks j k) (hr : k ≠ .bracketR) :
    Stops j .primary (l :: (ts ++ d :: us)) k
  -- the phrases around them
  | inArguments {t l : Token} {ts : List Token} {k : Kind} (ht : t.kind = .function) (hl : l.kind = .parenL)
    (h : Stops j .items ts k) : Stops j .primary (t :: l :: ts) k
  | inGroup {l : Token} {ts : List Token} {k : Kind} (hl : l.kind = .parenL) (h : Stops j .sum ts k) :
    Stops j .primary (l :: ts) k
  | inVector {l : Token} {ts : List Token} {k : Kind} (hl : l.kind = .bracketL) (h : Stops j .items ts k) :
    Stops j .primary (l :: ts) k
  | inInterval {l d : Token} {ts us : List Token} {a : Expr} {k : Kind} (hl : l.kind = .bracketL)
    (ha : Spells j .sum ts a) (hd : d.kind = .dots) (h : Stops j .sum us k) :
    Stops j .primary (l :: (ts ++ d :: us)) k
  | base {ts : List Token} {k : Kind} (h : Stops j .primary ts k) : Stops j .power ts k
  | exponent {t : Token} {ts us : List Token} {a : Expr} {k : Kind} (ha : Spells j .primary ts a)
    (ht : t.kind = .power) (h : Stops j .unary us k) : Stops j .power (ts ++ t :: us) k
  | sign {t : Token} {ts : List Token} {k : Kind} (ht : t.kind = .minus ∨ t.kind = .plus) (h : Stops j .unary ts k) :
    Stops j .unary (t :: ts) k
  | unsigned {ts : List Token} {k : Kind}
    (hs : ∀ rest, nextKind rest = k → nextKind (ts ++ rest) ≠ .minus ∧ nextKind (ts ++ rest) ≠ .plus)
    (h : Stops j .power ts k) : Stops j .unary ts k
  | factor {ts : List Token} {k : Kind} (h : Stops j .unary ts k) : Stops j .product ts k
  | nextFactor {t : Token} {ts us : List Token} {a : Expr} {op : BinOp} {k : Kind} (ha : Spells j .product ts a)
    (ht : (t.kind, op) ∈ productSigns) (h : Stops j .unary us k) : Stops j .product (ts ++ t :: us) k
  | beside {ts us : List Token} {a : Expr} {k : Kind} (hj : j = true) (ha : Spells j .product ts a)
    (hu : startsOperand (nextKind us) = true) (hc : ∀ rest, nextKind rest = k → ¬ Calls ts (us ++ rest))
    (h : Stops j .unary us k) : Stops j .product (ts ++ us) k
  | term {ts : List Token} {k : Kind} (h : Stops j .product ts k) : Stops j .sum ts k
  | nextTerm {t : Token} {ts us : List Token} {a : Expr} {op : BinOp} {k : Kind} (ha : Spells j .sum ts a)
    (ht : (t.kind, op) ∈ sumSigns) (h : Stops j .product us k) : Stops j .sum (ts ++ t :: us) k
  | item {ts : List Token} {k : Kind} (h : Stops j .sum ts k) : Stops j .items ts k
  | nextItem {t : Token} {ts us : List Token} {a : Expr} {k : Kind} (ha : Spells j .sum ts a) (ht : t.kind = .comma)
    (h : Stops j .items us k) : Stops j .items (ts ++ t :: us) k

/-- A phrase of which nothing was read is refused at a token that begins none. -/
theorem Stops.startsPhrase_of_nil {p : Phrase} {ts : List Token} {k : Kind} (h : Stops j p ts k) (hnil : ts = []) :
    startsPhrase p k = false := by
  induction h with
  | start hk => exact hk
  | base _ ih | factor _ ih | term _ ih | item _ ih => exact ih hnil
  | @unsigned _ k hs _ ih =>
    have hstart := ih hnil
    obtain ⟨hminus, hplus⟩ := hs [⟨k, [], 0⟩] rfl
    rw [hnil] at hminus hplus
    simp only [startsPhrase, Bool.or_eq_false_iff, beq_eq_false_iff_ne] at hstart ⊢
    exact ⟨⟨hstart, hminus⟩, hplus⟩
  | beside _ ha =>
    rw [List.append_eq_nil_iff] at hnil
    exact absurd hnil.1 ha.ne_nil
  | _ => simp at hnil

/-- The tokens that were read are tokens of phrases. -/
theorem Stops.meaningful {p : Phrase} {ts : List Token} {k : Kind} (h : Stops j p ts k) :
    ∀ t ∈ ts, isMeaningful t.kind = true := by
  induction h with
  | start => simp
  | function ht => simp [ht, isMeaningful]
  | arguments ht hl has => simpa [ht, hl, isMeaningful] using has.meaningful
  | group hl ha => simpa [hl, isMeaningful] using ha.meaningful
  | vector hl has => simpa [hl, isMeaningful] using has.meaningful
  | interval hl ha hd hb =>
    simp only [List.forall_mem_cons, List.forall_mem_append, hl, hd, isMeaningful, true_and]
    exact ⟨ha.meaningful, hb.meaningful⟩
  | inArguments ht hl _ ih => simpa [ht, hl, isMeaningful] using ih
  | inGroup hl _ ih | inVector hl _ ih => simpa [hl, isMeaningful] using ih
  | inInterval hl ha hd _ ih =>
    simp only [List.forall_mem_cons, List.forall_mem_append, hl, hd, isMeaningful, true_and]
    exact ⟨ha.meaningful, ih⟩
  | base _ ih | unsigned _ _ ih | factor _ ih | term _ ih | item _ ih => exact ih
  | exponent ha ht _ ih | nextItem ha ht _ ih =>
    simp only [List.forall_mem_cons, List.forall_mem_append, ht, isMeaningful, true_and]
    exact ⟨ha.meaningful, ih⟩
  | sign ht _ ih =>
    refine List.forall_mem_cons.2 ⟨?_, ih⟩
    rcases ht with ht | ht <;> rw [ht] <;> rfl
  | nextFactor ha ht _ ih =>
    exact List.forall_mem_append.2 ⟨ha.meaningful, List.forall_mem_cons.2 ⟨isMeaningful_of_productSign ht, ih⟩⟩
  | beside _ ha _ _ _ ih => exact List.forall_mem_append.2 ⟨ha.meaningful, ih⟩
  | nextTerm ha ht _ ih =>
    exact List.forall_mem_append.2 ⟨ha.meaningful, List.forall_mem_cons.2 ⟨isMeaningful_of_sumSign ht, ih⟩⟩

/-! ## What a lookahead sees -/

/-- The next kind is the same for two lists that go on with the same kind. -/
theorem nextKind_append_congr (ts : List Token) {us vs : List Token} (h : nextKind us = nextKind vs) :
    nextKind (ts ++ us) = nextKind (ts ++ vs) := by
  cases ts with
  | nil => exact h
  | cons t ts => rfl

theorem emptyParens_iff {ts : List Token} :
    EmptyParens ts ↔ nextKind ts = .parenL ∧ nextKind ts.tail = .parenR := by
  constructor
  · rintro ⟨l, r, after, rfl, hl, hr⟩
    exact ⟨hl, hr⟩
  · rintro ⟨hl, hr⟩
    match ts with
    | [] => cases hl
    | [_] => cases hr
    | l :: r :: after => exact ⟨l, r, after, rfl, hl, hr⟩

/-- Two tokens are enough to see a call. -/
theorem EmptyParens.congr {ts us vs : List Token} (hts : ts ≠ []) (hk : nextKind us = nextKind vs)
    (h : EmptyParens (ts ++ us)) : EmptyParens (ts ++ vs) := by
  rw [emptyParens_iff] at h ⊢
  cases ts with
  | nil => exact absurd rfl hts
  | cons t ts => exact ⟨h.1, (nextKind_append_congr ts hk.symm).trans h.2⟩

/-! ## The parser refuses a token -/

/-- The parser refuses the token `t` of these tokens, and has read those before it as part of this phrase. -/
def StopsIn (j : Bool) (p : Phrase) (ts : List Token) (t : Token) : Prop :=
  ∃ front rest, ts = front ++ rest ∧ unexpected rest = .unexpected t ∧ Stops j p front (nextKind rest)

/-- What holds of a phrase holds of the phrase around it. -/
theorem StopsIn.under {p q : Phrase} {us : List Token} {t : Token} (h : StopsIn j p us t)
    (around : List Token → List Token) (happend : ∀ front rest, around (front ++ rest) = around front ++ rest)
    (hs : ∀ front k, Stops j p front k → Stops j q (around front) k) : StopsIn j q (around us) t := by
  obtain ⟨front, rest, rfl, ht, hstops⟩ := h
  exact ⟨around front, rest, happend front rest, ht, hs _ _ hstops⟩

theorem StopsIn.same {p q : Phrase} {us : List Token} {t : Token} (h : StopsIn j p us t)
    (hs : ∀ front k, Stops j p front k → Stops j q front k) : StopsIn j q us t :=
  h.under id (fun _ _ => rfl) hs

theorem sum_blocks {n : Nat} {ts rest : List Token} {a : Expr} (h : sum j n ts = .ok (a, rest)) :
    Blocks j (nextKind rest) := by
  rintro rfl
  exact (maximal n).sum h

theorem listTail_blocks {n : Nat} {ts mid rest : List Token} {a : Expr} {es : List Expr}
    (hsum : sum j n ts = .ok (a, mid)) (h : listTail j n mid = .ok (es, rest)) : Blocks j (nextKind rest) := by
  rintro rfl
  exact (maximal n).listTail ((maximal n).sum hsum) h

theorem list_blocks {n : Nat} {ts rest : List Token} {as : List Expr} (h : list j n ts = .ok (as, rest)) :
    Blocks j (nextKind rest) ∧ nextKind rest ≠ .comma := by
  cases n with
  | zero => simp [list] at h
  | succ n =>
    unfold list at h
    split at h
    · cases h
    rename_i hsum
    split at h
    · cases h
    rename_i htail
    cases h
    exact ⟨listTail_blocks hsum htail, listTail_not_comma htail⟩

/-- Where no further item was read, nothing was. -/
theorem eq_of_listTail_nil {n : Nat} {ts rest : List Token} (h : listTail j n ts = .ok ([], rest)) : ts = rest := by
  cases n with
  | zero => simp [listTail] at h
  | succ n =>
    unfold listTail at h
    split at h
    · split at h
      · cases h
      split at h <;> cases h
    · cases h
      rfl

/-- An operand that was read is not the name of a call that follows. -/
theorem unary_not_calls {n : Nat} {us rest : List Token} {a : Expr} (h : unary j n (us ++ rest) = .ok (a, rest))
    (hu : us ≠ []) (before : List Token) : j = true → ¬ Calls (before ++ us) rest := by
  rintro rfl
  exact (((maximal n).unary h).append hu before).2

/-- The errors about the arguments of a function, which name no token. -/
def ParseError.Judged : ParseError → Prop
  | .rootIndex _ | .argumentCount _ _ => True
  | _ => False

theorem applyNamed_judged {name : List Char} {as : List Expr} {e : ParseError} (h : applyNamed name as = .error e) :
    e.Judged := by
  unfold applyNamed at h
  simp only at h
  split at h
  · split at h
    · cases h
    · cases h
    · cases h
      trivial
  split at h
  · split at h
    · split at h
      · cases h
      · cases h
        trivial
    · cases h
      trivial
  · split at h
    · cases h
    · cases h
      trivial

/-- Whatever token the functions of the parser refuse with this allowance, they stop there. -/
structure Stopped (j : Bool) (n : Nat) : Prop where
  sum : ∀ {ts t}, Grammar.sum j n ts = .error (.unexpected t) → StopsIn j .sum ts t
  sumTail : ∀ {front a ts t}, Spells j .sum front a → Grammar.sumTail j n a ts = .error (.unexpected t) →
    StopsIn j .sum (front ++ ts) t
  product : ∀ {ts t}, Grammar.product j n ts = .error (.unexpected t) → StopsIn j .product ts t
  productTail : ∀ {front a ts t}, Spells j .product front a → (j = true → ¬ Calls front ts) →
    Grammar.productTail j n a ts = .error (.unexpected t) → StopsIn j .product (front ++ ts) t
  unary : ∀ {ts t}, Grammar.unary j n ts = .error (.unexpected t) → StopsIn j .unary ts t
  power : ∀ {ts t}, Grammar.power j n ts = .error (.unexpected t) → StopsIn j .power ts t
  primary : ∀ {ts t}, Grammar.primary j n ts = .error (.unexpected t) → StopsIn j .primary ts t
  brackets : ∀ {ts t l}, l.kind = .bracketL → Grammar.brackets j n ts = .error (.unexpected t) →
    StopsIn j .primary (l :: ts) t
  list : ∀ {ts t}, Grammar.list j n ts = .error (.unexpected t) → StopsIn j .items ts t
  listTail : ∀ {ts mid a t}, Grammar.sum j n ts = .ok (a, mid) →
    Grammar.listTail j n mid = .error (.unexpected t) → StopsIn j .items ts t

theorem stopped_zero : Stopped j 0 where
  sum h := by simp [Grammar.sum] at h
  sumTail _ h := by simp [Grammar.sumTail] at h
  product h := by simp [Grammar.product] at h
  productTail _ _ h := by simp [Grammar.productTail] at h
  unary h := by simp [Grammar.unary] at h
  power h := by simp [Grammar.power] at h
  primary h := by simp [Grammar.primary] at h
  brackets _ h := by simp [Grammar.brackets] at h
  list h := by simp [Grammar.list] at h
  listTail h _ := by simp [Grammar.sum] at h

section

variable {n : Nat} {front ts : List Token} {a : Expr} {t : Token}

theorem sum_stopped (ih : Stopped j n) (h : sum j (n + 1) ts = .error (.unexpected t)) : StopsIn j .sum ts t := by
  unfold sum at h
  split at h
  · rename_i hb
    cases h
    exact (ih.product hb).same fun _ _ => .term
  · rename_i b rest hb
    obtain ⟨front, rfl, hs⟩ := (sound j n).product hb
    exact ih.sumTail (.term hs) h

theorem sumTail_stopped (ih : Stopped j n) (ha : Spells j .sum front a)
    (h : sumTail j (n + 1) a ts = .error (.unexpected t)) : StopsIn j .sum (front ++ ts) t := by
  unfold sumTail at h
  split at h
  · cases h
  rename_i op hop
  obtain ⟨s, hts, hsign⟩ := exists_sign (sumOp?_eq_some_iff.1 hop) (by decide)
  rw [hts]
  split at h
  · rename_i hb
    cases h
    exact (ih.product hb).under (front ++ s :: ·) (by simp) fun _ _ => .nextTerm ha hsign
  · rename_i b rest hb
    obtain ⟨us, hus, hs⟩ := (sound j n).product hb
    have := ih.sumTail (.sum ha hsign hs) h
    rwa [hus, ← List.cons_append, ← List.append_assoc]

theorem product_stopped (ih : Stopped j n) (h : product j (n + 1) ts = .error (.unexpected t)) :
    StopsIn j .product ts t := by
  unfold product at h
  split at h
  · rename_i hb
    cases h
    exact (ih.unary hb).same fun _ _ => .factor
  · rename_i b rest hb
    obtain ⟨front, rfl, hs⟩ := (sound j n).unary hb
    exact ih.productTail (.factor hs) (unary_not_calls hb hs.ne_nil []) h

/-- The operand beside a product is refused inside: its first token begins one. -/
theorem beside_stopped {us : List Token} (hj : j = true) (ha : Spells j .product front a)
    (hc : ¬ Calls front us) (hu : startsOperand (nextKind us) = true) (h : StopsIn j .unary us t) :
    StopsIn j .product (front ++ us) t := by
  obtain ⟨operand, rest, rfl, ht, hs⟩ := h
  have hne : operand ≠ [] := by
    rintro rfl
    have hstart := hs.startsPhrase_of_nil rfl
    simp only [List.nil_append] at hu
    simp [startsPhrase, hu] at hstart
  have hhead : startsOperand (nextKind operand) = true := by
    cases operand with
    | nil => exact absurd rfl hne
    | cons u operand => exact hu
  refine ⟨front ++ operand, rest, (List.append_assoc ..).symm, ht, .beside hj ha hhead ?_ hs⟩
  intro rest' hk hcalls
  exact hc ⟨hcalls.1, hcalls.2.congr hne hk⟩

theorem productTail_stopped (ih : Stopped j n) (ha : Spells j .product front a) (hc : j = true → ¬ Calls front ts)
    (h : productTail j (n + 1) a ts = .error (.unexpected t)) : StopsIn j .product (front ++ ts) t := by
  unfold productTail at h
  split at h
  · rename_i op hop
    obtain ⟨s, hts, hsign⟩ := exists_sign (productOp?_eq_some_iff.1 hop) (by decide)
    rw [hts]
    split at h
    · rename_i hb
      cases h
      exact (ih.unary hb).under (front ++ s :: ·) (by simp) fun _ _ => .nextFactor ha hsign
    · rename_i b rest hb
      obtain ⟨us, hus, hs⟩ := (sound j n).unary hb
      rw [hus] at hb ⊢
      have hcalls := unary_not_calls hb hs.ne_nil (front ++ [s])
      rw [List.append_assoc, List.singleton_append] at hcalls
      have := ih.productTail (.product ha hsign hs) hcalls h
      rwa [← List.cons_append, ← List.append_assoc]
  · split at h
    · rename_i hj
      rw [Bool.and_eq_true] at hj
      split at h
      · rename_i hb
        cases h
        exact beside_stopped hj.1 ha (hc hj.1) hj.2 (ih.unary hb)
      · rename_i b rest hb
        obtain ⟨us, rfl, hs, hu⟩ := (sound j n).operand hj.2 hb
        have := ih.productTail (.beside hj.1 ha hs hu) (unary_not_calls hb hs.ne_nil front) h
        rwa [← List.append_assoc]
    · cases h

theorem unary_stopped (ih : Stopped j n) (h : unary j (n + 1) ts = .error (.unexpected t)) :
    StopsIn j .unary ts t := by
  unfold unary at h
  split at h
  · rename_i x p us
    split at h
    · rename_i hb
      cases h
      exact (ih.unary hb).under (⟨.minus, x, p⟩ :: ·) (by simp) fun _ _ => .sign (.inl rfl)
    · cases h
  · rename_i x p us
    exact (ih.unary h).under (⟨.plus, x, p⟩ :: ·) (by simp) fun _ _ => .sign (.inr rfl)
  · rename_i hminus hplus
    have hminus := nextKind_ne_of_forall (by decide) hminus
    have hplus := nextKind_ne_of_forall (by decide) hplus
    obtain ⟨front, rest, rfl, ht, hs⟩ := ih.power h
    refine ⟨front, rest, rfl, ht, .unsigned (fun rest' hk => ?_) hs⟩
    rw [nextKind_append_congr front hk]
    exact ⟨hminus, hplus⟩

theorem power_stopped (ih : Stopped j n) (h : power j (n + 1) ts = .error (.unexpected t)) :
    StopsIn j .power ts t := by
  unfold power at h
  split at h
  · rename_i hb
    cases h
    exact (ih.primary hb).same fun _ _ => .base
  · rename_i b x p us hb
    obtain ⟨front, rfl, hs⟩ := (sound j n).primary hb
    split at h
    · rename_i hc
      cases h
      exact (ih.unary hc).under (front ++ ⟨.power, x, p⟩ :: ·) (by simp) fun _ _ => .exponent hs rfl
    · cases h
  · cases h

theorem primary_stopped (ih : Stopped j n) (h : primary j (n + 1) ts = .error (.unexpected t)) :
    StopsIn j .primary ts t := by
  unfold primary at h
  split at h
  · cases h
  · cases h
  · rename_i x p us
    split at h
    · rename_i y q us
      split at h
      · rename_i has
        cases h
        exact (ih.list has).under (⟨.function, x, p⟩ :: ⟨.parenL, y, q⟩ :: ·) (by simp) fun _ _ =>
          .inArguments rfl rfl
      · split at h
        · rename_i happly
          cases h
          exact (applyNamed_judged happly).elim
        · cases h
      · rename_i as rest hr has
        obtain ⟨front, rfl, hs⟩ := (sound j n).list has
        obtain ⟨hblocks, hcomma⟩ := list_blocks has
        exact ⟨⟨.function, x, p⟩ :: ⟨.parenL, y, q⟩ :: front, rest, rfl, Except.error.inj h,
          .arguments rfl rfl hs hblocks (nextKind_ne_of_forall (by decide) hr) hcomma⟩
    · rename_i hl
      exact ⟨[⟨.function, x, p⟩], us, rfl, Except.error.inj h, .function rfl (nextKind_ne_of_forall (by decide) hl)⟩
  · cases h
  · rename_i x p us hlit
    split at h
    · rename_i hb
      cases h
      exact (ih.sum hb).under (⟨.parenL, x, p⟩ :: ·) (by simp) fun _ _ => .inGroup rfl
    · cases h
    · rename_i b rest hr hb
      obtain ⟨front, rfl, hs⟩ := (sound j n).sum hb
      exact ⟨⟨.parenL, x, p⟩ :: front, rest, rfl, Except.error.inj h,
        .group rfl hs (sum_blocks hb) (nextKind_ne_of_forall (by decide) hr)⟩
  · rename_i x p us
    exact ih.brackets (l := ⟨.bracketL, x, p⟩) rfl h
  · rename_i hnumber hname hfunction hlit hparen hbracket
    refine ⟨[], ts, rfl, Except.error.inj h, .start ?_⟩
    have hnumber := nextKind_ne_of_forall (by decide) hnumber
    have hname := nextKind_ne_of_forall (by decide) hname
    have hfunction := nextKind_ne_of_forall (by decide) hfunction
    have hparen := nextKind_ne_of_forall (by decide) hparen
    have hbracket := nextKind_ne_of_forall (by decide) hbracket
    cases hk : nextKind ts <;> first | rfl | contradiction

theorem brackets_stopped (ih : Stopped j n) {l : Token} (hl : l.kind = .bracketL)
    (h : brackets j (n + 1) ts = .error (.unexpected t)) : StopsIn j .primary (l :: ts) t := by
  unfold brackets at h
  split at h
  · rename_i hb
    cases h
    exact (ih.sum hb).under (l :: ·) (by simp) fun _ _ hs => .inVector hl (.item hs)
  · rename_i b x p us hb
    obtain ⟨front, rfl, hs⟩ := (sound j n).sum hb
    split at h
    · rename_i hc
      cases h
      exact (ih.sum hc).under (l :: front ++ ⟨.dots, x, p⟩ :: ·) (by simp) fun _ _ => .inInterval hl hs rfl
    · cases h
    · rename_i c rest hr hc
      obtain ⟨upper, rfl, hu⟩ := (sound j n).sum hc
      exact ⟨l :: (front ++ ⟨.dots, x, p⟩ :: upper), rest, by simp, Except.error.inj h,
        .interval hl hs rfl hu (sum_blocks hc) (nextKind_ne_of_forall (by decide) hr)⟩
  · rename_i b mid hdots hb
    have hdots := nextKind_ne_of_forall (by decide) hdots
    split at h
    · rename_i htail
      cases h
      exact (ih.listTail hb htail).under (l :: ·) (by simp) fun _ _ => .inVector hl
    · cases h
    · rename_i es rest hr htail
      obtain ⟨front, rfl, hs⟩ := (sound j n).listTail hb htail
      refine ⟨l :: front, rest, rfl, Except.error.inj h, .vector hl hs (listTail_blocks hb htail)
        (nextKind_ne_of_forall (by decide) hr) (listTail_not_comma htail) fun hk => ?_⟩
      -- two dots behind a single item begin the other bound
      cases es with
      | nil =>
        rw [eq_of_listTail_nil htail] at hdots
        exact absurd hk hdots
      | cons e es => simp

theorem list_stopped (ih : Stopped j n) (h : list j (n + 1) ts = .error (.unexpected t)) :
    StopsIn j .items ts t := by
  unfold list at h
  split at h
  · rename_i hb
    cases h
    exact (ih.sum hb).same fun _ _ => .item
  · rename_i hb
    split at h
    · rename_i htail
      cases h
      exact ih.listTail hb htail
    · cases h

theorem listTail_stopped (ih : Stopped j n) {mid : List Token} (hsum : sum j (n + 1) ts = .ok (a, mid))
    (h : listTail j (n + 1) mid = .error (.unexpected t)) : StopsIn j .items ts t := by
  obtain ⟨front, rfl, hs⟩ := (sound j (n + 1)).sum hsum
  unfold listTail at h
  split at h
  · rename_i x p us
    have later (hus : StopsIn j .items us t) : StopsIn j .items (front ++ ⟨.comma, x, p⟩ :: us) t :=
      hus.under (front ++ ⟨.comma, x, p⟩ :: ·) (by simp) fun _ _ => .nextItem hs rfl
    split at h
    · rename_i hb
      cases h
      exact later ((ih.sum hb).same fun _ _ => .item)
    · rename_i hb
      split at h
      · rename_i htail
        cases h
        exact later (ih.listTail hb htail)
      · cases h
  · cases h

end

/-- **Wherever the parser refuses a token, it has read what stands before it.** -/
theorem stopped (j : Bool) (n : Nat) : Stopped j n := by
  induction n with
  | zero => exact stopped_zero
  | succ n ih =>
    exact
      { sum := sum_stopped ih
        sumTail := sumTail_stopped ih
        product := product_stopped ih
        productTail := productTail_stopped ih
        unary := unary_stopped ih
        power := power_stopped ih
        primary := primary_stopped ih
        brackets := brackets_stopped ih
        list := list_stopped ih
        listTail := listTail_stopped ih }

/-- Where the parser of a whole list of tokens stops: inside the expression, or behind it. -/
inductive StopsText (j : Bool) : List Token → Kind → Prop
  | inside {ts : List Token} {k : Kind} (h : Stops j .sum ts k) : StopsText j ts k
  | behind {ts : List Token} {a : Expr} {k : Kind} (ha : Spells j .sum ts a) (hk : Blocks j k) (hf : k ≠ .finish) :
    StopsText j ts k

theorem StopsText.meaningful {ts : List Token} {k : Kind} (h : StopsText j ts k) :
    ∀ t ∈ ts, isMeaningful t.kind = true := by
  cases h with
  | inside h => exact h.meaningful
  | behind ha => exact ha.meaningful

theorem parseTokens_stopped {ts : List Token} {t : Token} (h : parseTokens j ts = .error (.unexpected t)) :
    ∃ front rest, ts = front ++ rest ∧ unexpected rest = .unexpected t ∧ StopsText j front (nextKind rest) := by
  unfold parseTokens at h
  split at h
  · rename_i hs
    cases h
    obtain ⟨front, rest, hts, ht, hstops⟩ := (stopped j _).sum hs
    exact ⟨front, rest, hts, ht, .inside hstops⟩
  · rename_i a rest hs
    obtain ⟨front, hts, hspells⟩ := (sound j _).sum hs
    split at h
    · cases h
    · rename_i hf
      exact ⟨front, rest, hts, Except.error.inj h, .behind hspells (sum_blocks hs) hf⟩

end ExprCalculus.Grammar
