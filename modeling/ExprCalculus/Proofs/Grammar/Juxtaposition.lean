import ExprCalculus.Proofs.Grammar.Acceptance

/-!
# Operands side by side

A product of operands side by side is only another way to write a product with a sign.  `WrittenOut` follows the
grammar and puts a sign between the two operands of each such product.  What it gives spells the same tree without
products of that kind: the sign binds as the juxtaposition did, begins no operand, ends no name, and makes no negative
numeral of what was none.

The places are seen from the tokens alone: the token before ends an operand, the one behind begins one, and they are
not the parentheses of a call (`withTimes`).

* `WrittenOut.spells` — the tokens with the signs spell the tree.
* `Spells.writtenOut`, `WrittenOut.map_asStar` — the products can be written out, and in one way, whatever the tokens of
  the signs are.
* `juxtaposition_is_sugar` — the parser with and without products of operands side by side.
-/

namespace ExprCalculus.Grammar

/-! ## Products written out -/

/-- The tokens of the first list spell the meaning, and the second list has a sign besides, between the operands of each
product of operands side by side. -/
inductive WrittenOut : (p : Phrase) → List Token → p.Meaning → List Token → Prop
  | term {ts ts' : List Token} {a : Expr} (ha : WrittenOut .product ts a ts') : WrittenOut .sum ts a ts'
  | sum {ts ts' us us' : List Token} {a b : Expr} {t : Token} {op : BinOp} (ha : WrittenOut .sum ts a ts')
    (ht : (t.kind, op) ∈ sumSigns) (hb : WrittenOut .product us b us') :
    WrittenOut .sum (ts ++ t :: us) (.binary op a b) (ts' ++ t :: us')
  | factor {ts ts' : List Token} {a : Expr} (ha : WrittenOut .unary ts a ts') :
    WrittenOut .product ts a ts'
  | product {ts ts' us us' : List Token} {a b : Expr} {t : Token} {op : BinOp}
    (ha : WrittenOut .product ts a ts') (ht : (t.kind, op) ∈ productSigns)
    (hb : WrittenOut .unary us b us') :
    WrittenOut .product (ts ++ t :: us) (.binary op a b) (ts' ++ t :: us')
  | beside {ts ts' us us' : List Token} {a b : Expr} {star : Token} (ha : WrittenOut .product ts a ts')
    (hstar : star.kind = .times) (hb : WrittenOut .power us b us') (hu : startsOperand (nextKind us) = true) :
    WrittenOut .product (ts ++ us) (.times a b) (ts' ++ star :: us')
  | neg {ts ts' : List Token} {a : Expr} {t : Token} (ht : t.kind = .minus)
    (ha : WrittenOut .unary ts a ts') : WrittenOut .unary (t :: ts) (.neg a) (t :: ts')
  | pos {ts ts' : List Token} {a : Expr} {t : Token} (ht : t.kind = .plus)
    (ha : WrittenOut .unary ts a ts') : WrittenOut .unary (t :: ts) a (t :: ts')
  | unsigned {ts ts' : List Token} {a : Expr} (ha : WrittenOut .power ts a ts') :
    WrittenOut .unary ts a ts'
  | base {ts ts' : List Token} {a : Expr} (ha : WrittenOut .primary ts a ts') :
    WrittenOut .power ts a ts'
  | power {ts ts' us us' : List Token} {a b : Expr} {t : Token} (ha : WrittenOut .primary ts a ts')
    (ht : t.kind = .power) (hb : WrittenOut .unary us b us') :
    WrittenOut .power (ts ++ t :: us) (.power a b) (ts' ++ t :: us')
  | number {t : Token} (ht : t.kind = .number) :
    WrittenOut .primary [t] (.number (numeralValue t.text)) [t]
  | constant {t : Token} {v : Num} (ht : t.kind = .name) (hv : (t.text, v) ∈ constants) :
    WrittenOut .primary [t] (.number v) [t]
  | var {t : Token} (ht : t.kind = .name) (hn : ∀ v, (t.text, v) ∉ constants) :
    WrittenOut .primary [t] (.var (String.ofList t.text)) [t]
  | call {t l r : Token} (ht : t.kind = .name) (hn : ∀ v, (t.text, v) ∉ constants)
    (hl : l.kind = .parenL) (hr : r.kind = .parenR) :
    WrittenOut .primary [t, l, r] (.call (String.ofList t.text)) [t, l, r]
  | function {ts ts' : List Token} {as : List Expr} {a : Expr} {t l r : Token} (ht : t.kind = .function)
    (hl : l.kind = .parenL) (has : WrittenOut .items ts as ts') (hr : r.kind = .parenR)
    (ha : Applied t.text as a) :
    WrittenOut .primary (t :: l :: (ts ++ [r])) a (t :: l :: (ts' ++ [r]))
  | literal {l m t r : Token} (hl : l.kind = .parenL) (hm : m.kind = .minus) (ht : t.kind = .number)
    (hr : r.kind = .parenR) :
    WrittenOut .primary [l, m, t, r] (.number (numeralValue t.text).negate) [l, m, t, r]
  | group {ts ts' : List Token} {a : Expr} {l r : Token} (hl : l.kind = .parenL)
    (ha : WrittenOut .sum ts a ts') (hn : ¬ NegativeNumeral ts) (hr : r.kind = .parenR) :
    WrittenOut .primary (l :: (ts ++ [r])) a (l :: (ts' ++ [r]))
  | vector {ts ts' : List Token} {as : List Expr} {l r : Token} (hl : l.kind = .bracketL)
    (has : WrittenOut .items ts as ts') (hr : r.kind = .bracketR) :
    WrittenOut .primary (l :: (ts ++ [r])) (.vector as) (l :: (ts' ++ [r]))
  | interval {ts ts' us us' : List Token} {a b : Expr} {l d r : Token} (hl : l.kind = .bracketL)
    (ha : WrittenOut .sum ts a ts') (hd : d.kind = .dots) (hb : WrittenOut .sum us b us')
    (hr : r.kind = .bracketR) :
    WrittenOut .primary (l :: (ts ++ d :: (us ++ [r]))) (.interval a b) (l :: (ts' ++ d :: (us' ++ [r])))
  | one {ts ts' : List Token} {a : Expr} (ha : WrittenOut .sum ts a ts') :
    WrittenOut .items ts [a] ts'
  | more {ts ts' us us' : List Token} {a : Expr} {as : List Expr} {t : Token}
    (ha : WrittenOut .sum ts a ts') (ht : t.kind = .comma) (has : WrittenOut .items us as us') :
    WrittenOut .items (ts ++ t :: us) (a :: as) (ts' ++ t :: us')

section

variable {p : Phrase} {ts us : List Token} {m : p.Meaning}

/-- Where no sign of a product was put in, the tokens are the same. -/
theorem WrittenOut.eq_of_no_times (h : WrittenOut p ts m us) (hus : ∀ t ∈ us, t.kind ≠ .times) : us = ts := by
  induction h with
  | number | constant | var | call | literal => rfl
  | _ => simp_all

/-- **The tokens spell the tree before and after**: with operands side by side, and with the signs instead. -/
theorem WrittenOut.spells (h : WrittenOut p ts m us) :
    Spells true p ts m ∧ Spells false p us m := by
  induction h with
  | term _ ih => exact ⟨.term ih.1, .term ih.2⟩
  | sum _ ht _ iha ihb => exact ⟨.sum iha.1 ht ihb.1, .sum iha.2 ht ihb.2⟩
  | factor _ ih => exact ⟨.factor ih.1, .factor ih.2⟩
  | product _ ht _ iha ihb => exact ⟨.product iha.1 ht ihb.1, .product iha.2 ht ihb.2⟩
  | @beside _ _ _ _ _ _ star _ hstar _ hu iha ihb =>
    have hsign : (star.kind, BinOp.times) ∈ productSigns := by simp [hstar, productSigns]
    exact ⟨.beside rfl iha.1 ihb.1 hu, .product iha.2 hsign (.unsigned ihb.2)⟩
  | neg ht _ ih => exact ⟨.neg ht ih.1, .neg ht ih.2⟩
  | pos ht _ ih => exact ⟨.pos ht ih.1, .pos ht ih.2⟩
  | unsigned _ ih => exact ⟨.unsigned ih.1, .unsigned ih.2⟩
  | base _ ih => exact ⟨.base ih.1, .base ih.2⟩
  | power _ ht _ iha ihb => exact ⟨.power iha.1 ht ihb.1, .power iha.2 ht ihb.2⟩
  | number ht => exact ⟨.number ht, .number ht⟩
  | constant ht hv => exact ⟨.constant ht hv, .constant ht hv⟩
  | var ht hn => exact ⟨.var ht hn, .var ht hn⟩
  | call ht hn hl hr => exact ⟨.call ht hn hl hr, .call ht hn hl hr⟩
  | function ht hl _ hr ha ih => exact ⟨.function ht hl ih.1 hr ha, .function ht hl ih.2 hr ha⟩
  | literal hl hm ht hr => exact ⟨.literal hl hm ht hr, .literal hl hm ht hr⟩
  | @group ts ts' a l r hl ha hn hr ih =>
    refine ⟨.group hl ih.1 hn hr, .group hl ih.2 ?_ hr⟩
    rintro ⟨m, n, hm, hn', rfl⟩
    -- two tokens that are no sign of a product were there before
    have hsigns : ∀ t ∈ [m, n], t.kind ≠ .times := by simp [hm, hn']
    exact hn ⟨m, n, hm, hn', (ha.eq_of_no_times hsigns).symm⟩
  | vector hl _ hr ih => exact ⟨.vector hl ih.1 hr, .vector hl ih.2 hr⟩
  | interval hl _ hd _ hr iha ihb => exact ⟨.interval hl iha.1 hd ihb.1 hr, .interval hl iha.2 hd ihb.2 hr⟩
  | one _ ih => exact ⟨.one ih.1, .one ih.2⟩
  | more _ ht _ iha ihas => exact ⟨.more iha.1 ht ihas.1, .more iha.2 ht ihas.2⟩

/-- What is spelled without operands side by side is spelled the same with them. -/
theorem Spells.juxtaposed {j : Bool} (h : Spells j p ts m) : Spells true p ts m := by
  induction h with
  | term _ ih => exact .term ih
  | sum _ ht _ iha ihb => exact .sum iha ht ihb
  | factor _ ih => exact .factor ih
  | product _ ht _ iha ihb => exact .product iha ht ihb
  | beside _ _ _ hu iha ihb => exact .beside rfl iha ihb hu
  | neg ht _ ih => exact .neg ht ih
  | pos ht _ ih => exact .pos ht ih
  | unsigned _ ih => exact .unsigned ih
  | base _ ih => exact .base ih
  | power _ ht _ iha ihb => exact .power iha ht ihb
  | number ht => exact .number ht
  | constant ht hv => exact .constant ht hv
  | var ht hn => exact .var ht hn
  | call ht hn hl hr => exact .call ht hn hl hr
  | function ht hl _ hr ha ih => exact .function ht hl ih hr ha
  | literal hl hm ht hr => exact .literal hl hm ht hr
  | group hl _ hn hr ih => exact .group hl ih hn hr
  | vector hl _ hr ih => exact .vector hl ih hr
  | interval hl _ hd _ hr iha ihb => exact .interval hl iha hd ihb hr
  | one _ ih => exact .one ih
  | more _ ht _ iha ihas => exact .more iha ht ihas

end

/-! ## The places where operands meet -/

/-- Whether a token of this kind may be the last one of an operand. -/
def endsPrimary : Kind → Bool
  | .number | .name | .parenR | .bracketR => true
  | _ => false

/-- Whether a token of this kind stands between operands, expressions or bounds. -/
def separates : Kind → Bool
  | .power | .times | .divide | .modulo | .plus | .minus | .dots | .comma => true
  | _ => false

/-- Whether two operands meet behind a token; the parentheses of a call are no operand. -/
def operandsMeet (t : Token) (rest : List Token) : Bool :=
  endsPrimary t.kind && startsOperand (nextKind rest) &&
    !(nextKind rest == .parenL && nextKind rest.tail == .parenR)

/-- The tokens up to the end, with `star` wherever two operands meet. -/
def withTimes (star : Token) : List Token → List Token
  | [] => []
  | t :: rest =>
    if t.kind = .finish then t :: rest
    else if operandsMeet t rest then t :: star :: withTimes star rest
    else t :: withTimes star rest

section

variable {star : Token} {j : Bool} {p : Phrase} {ts us rest : List Token} {m : p.Meaning} {t : Token}

/-- Behind a token that ends no operand none meet. -/
theorem withTimes_cons (ht : endsPrimary t.kind = false) (hf : t.kind ≠ .finish) :
    withTimes star (t :: us) = t :: withTimes star us := by
  simp [withTimes, operandsMeet, ht, hf]

theorem withTimes_singleton (t : Token) : withTimes star [t] = [t] := by
  simp [withTimes, operandsMeet, nextKind, startsOperand]

/-- Behind the end nothing is put in. -/
theorem withTimes_finish (h : nextKind rest = .finish) : withTimes star rest = rest := by
  cases rest with
  | nil => rfl
  | cons t rest => exact if_pos h

/-- Whether operands meet is seen within a list, unless its last token opens a parenthesis. -/
theorem operandsMeet_append {x : Token} (hx : x.kind ≠ .parenL) (t : Token) (ts rest : List Token) :
    operandsMeet t (ts ++ x :: rest) = operandsMeet t (ts ++ [x]) := by
  match ts with
  | [] =>
    have hopen : (x.kind == Kind.parenL) = false := by simpa using hx
    simp only [operandsMeet, List.nil_append, nextKind, hopen, Bool.false_and]
  | [u] => rfl
  | u :: v :: ts => rfl

/-- Every phrase ends with a token that ends an operand. -/
theorem Spells.getLast (h : Spells j p ts m) : ∃ init x, ts = init ++ [x] ∧ endsPrimary x.kind = true := by
  induction h with
  | term _ ih | factor _ ih | unsigned _ ih | base _ ih | one _ ih => exact ih
  | @sum ts _ _ _ t _ _ _ _ _ ih | @product ts _ _ _ t _ _ _ _ _ ih | @power ts _ _ _ t _ _ _ _ ih
  | @more ts _ _ _ t _ _ _ _ ih =>
    obtain ⟨init, x, rfl, hx⟩ := ih
    exact ⟨ts ++ t :: init, x, by simp, hx⟩
  | @beside ts _ _ _ _ _ _ _ _ ih =>
    obtain ⟨init, x, rfl, hx⟩ := ih
    exact ⟨ts ++ init, x, by simp, hx⟩
  | @neg _ _ t _ _ ih | @pos _ _ t _ _ ih =>
    obtain ⟨init, x, rfl, hx⟩ := ih
    exact ⟨t :: init, x, rfl, hx⟩
  | @number t ht | @constant t _ ht | @var t ht => exact ⟨[], t, rfl, by rw [ht]; rfl⟩
  | @call t l r _ _ _ hr => exact ⟨[t, l], r, rfl, by rw [hr]; rfl⟩
  | @function ts _ _ t l r _ _ _ hr => exact ⟨t :: l :: ts, r, rfl, by rw [hr]; rfl⟩
  | @literal l m t r _ _ _ hr => exact ⟨[l, m, t], r, rfl, by rw [hr]; rfl⟩
  | @group ts _ l r _ _ _ hr | @vector ts _ l r _ _ hr => exact ⟨l :: ts, r, rfl, by rw [hr]; rfl⟩
  | @interval ts us _ _ l d r _ _ _ _ hr => exact ⟨l :: (ts ++ d :: us), r, by simp, by rw [hr]; rfl⟩

/-- What is put in behind a phrase. -/
theorem Spells.withTimes_append (h : Spells j p ts m) (rest : List Token) :
    withTimes star (ts ++ rest) = withTimes star ts ++
      if startsOperand (nextKind rest) && !(nextKind rest == .parenL && nextKind rest.tail == .parenR) then
        star :: withTimes star rest
      else withTimes star rest := by
  obtain ⟨init, x, rfl, hx⟩ := h.getLast
  have hopen : x.kind ≠ .parenL := by
    intro hk
    simp [hk, endsPrimary] at hx
  have hmeaning := h.meaningful
  clear h
  induction init with
  | nil =>
    have hfinish : x.kind ≠ .finish := by
      intro hk
      simp [hk, endsPrimary] at hx
    simp only [List.nil_append, List.cons_append, withTimes_singleton]
    rw [withTimes, if_neg hfinish, operandsMeet, hx, Bool.true_and]
    split <;> rfl
  | cons t init ih =>
    have hfinish : t.kind ≠ .finish := by
      intro hk
      have := hmeaning t List.mem_cons_self
      simp [hk, isMeaningful] at this
    have hassoc : t :: init ++ [x] ++ rest = t :: (init ++ x :: rest) := by simp
    have ih := ih fun y hy => hmeaning y (List.mem_cons_of_mem _ hy)
    rw [List.append_assoc, List.singleton_append] at ih
    rw [hassoc, List.cons_append, withTimes, withTimes, if_neg hfinish, if_neg hfinish,
      operandsMeet_append hopen, ih]
    split <;> rfl

/-- Between a phrase and a sign nothing is put in, nor behind the sign. -/
theorem Spells.withTimes_separated (h : Spells j p ts m) (ht : separates t.kind = true) (us : List Token) :
    withTimes star (ts ++ t :: us) = withTimes star ts ++ t :: withTimes star us := by
  have hk : startsOperand t.kind = false ∧ endsPrimary t.kind = false ∧ t.kind ≠ .finish := by
    revert ht
    cases t.kind <;> decide
  rw [h.withTimes_append, nextKind, hk.1, Bool.false_and, if_neg (by decide), withTimes_cons hk.2.1 hk.2.2]

/-- Between a phrase and what closes it nothing is put in. -/
theorem Spells.withTimes_closed (h : Spells j p ts m) (ht : startsOperand t.kind = false) :
    withTimes star (ts ++ [t]) = withTimes star ts ++ [t] := by
  rw [h.withTimes_append, nextKind, ht, Bool.false_and, if_neg (by decide), withTimes_singleton]

/-- Between operands side by side the sign is put in. -/
theorem Spells.withTimes_beside (h : Spells j p ts m) {b : Expr} (hb : Spells j .power us b)
    (hu : startsOperand (nextKind us) = true) :
    withTimes star (ts ++ us) = withTimes star ts ++ star :: withTimes star us := by
  have hparens : (nextKind us == .parenL && nextKind us.tail == .parenR) = false := by
    rw [Bool.eq_false_iff]
    intro h
    simp only [Bool.and_eq_true, beq_iff_eq] at h
    have hempty := hb.not_emptyParens []
    rw [List.append_nil] at hempty
    match us with
    | [] => cases hu
    | [u] => cases h.2
    | u :: v :: us => exact hempty ⟨u, v, us, rfl, h.1, h.2⟩
  rw [h.withTimes_append, hu, hparens, Bool.not_false, Bool.true_and, if_pos rfl]

/-- Nothing is put in next to what a phrase is enclosed in. -/
theorem Spells.withTimes_enclosed (h : Spells j p ts m) {l r : Token} (hl : endsPrimary l.kind = false)
    (hf : l.kind ≠ .finish) (hr : startsOperand r.kind = false) :
    withTimes star (l :: (ts ++ [r])) = l :: (withTimes star ts ++ [r]) := by
  rw [withTimes_cons hl hf, h.withTimes_closed hr]

/-- Nor between a name and the parentheses of a call, which is where two tokens are looked at. -/
theorem withTimes_call {l r : Token} (hl : l.kind = .parenL) (hr : r.kind = .parenR) :
    withTimes star [t, l, r] = [t, l, r] := by
  simp [withTimes, operandsMeet, nextKind, startsOperand, hl, hr, endsPrimary]

/-- Nor within a negative numeral. -/
theorem withTimes_literal {l n r : Token} (hl : l.kind = .parenL) (ht : t.kind = .minus) (hr : r.kind = .parenR) :
    withTimes star [l, t, n, r] = [l, t, n, r] := by
  simp [withTimes, operandsMeet, nextKind, startsOperand, endsPrimary, hl, ht, hr]

theorem separates_of_sumSign {k : Kind} {op : BinOp} (h : (k, op) ∈ sumSigns) : separates k = true := by
  rw [← sumOp?_eq_some_iff] at h
  cases k <;> first | rfl | cases h

theorem separates_of_productSign {k : Kind} {op : BinOp} (h : (k, op) ∈ productSigns) : separates k = true := by
  rw [← productOp?_eq_some_iff] at h
  cases k <;> first | rfl | cases h

/-- **The products can be written out**: with a sign at each place where operands meet. -/
theorem Spells.writtenOut (hstar : star.kind = .times) (h : Spells true p ts m) :
    WrittenOut p ts m (withTimes star ts) := by
  induction h with
  | term _ ih => exact .term ih
  | sum ha ht _ iha ihb =>
    rw [ha.withTimes_separated (separates_of_sumSign ht)]
    exact .sum iha ht ihb
  | factor _ ih => exact .factor ih
  | product ha ht _ iha ihb =>
    rw [ha.withTimes_separated (separates_of_productSign ht)]
    exact .product iha ht ihb
  | beside _ ha hb hu iha ihb =>
    rw [ha.withTimes_beside hb hu]
    exact .beside iha hstar ihb hu
  | neg ht _ ih =>
    rw [withTimes_cons (by rw [ht]; rfl) (by simp [ht])]
    exact .neg ht ih
  | pos ht _ ih =>
    rw [withTimes_cons (by rw [ht]; rfl) (by simp [ht])]
    exact .pos ht ih
  | unsigned _ ih => exact .unsigned ih
  | base _ ih => exact .base ih
  | power ha ht _ iha ihb =>
    rw [ha.withTimes_separated (by rw [ht]; rfl)]
    exact .power iha ht ihb
  | number ht =>
    rw [withTimes_singleton]
    exact .number ht
  | constant ht hv =>
    rw [withTimes_singleton]
    exact .constant ht hv
  | var ht hn =>
    rw [withTimes_singleton]
    exact .var ht hn
  | call ht hn hl hr =>
    rw [withTimes_call hl hr]
    exact .call ht hn hl hr
  | function ht hl has hr ha ih =>
    rw [withTimes_cons (by rw [ht]; rfl) (by simp [ht]),
      has.withTimes_enclosed (by rw [hl]; rfl) (by simp [hl]) (by rw [hr]; rfl)]
    exact .function ht hl ih hr ha
  | literal hl hm ht hr =>
    rw [withTimes_literal hl hm hr]
    exact .literal hl hm ht hr
  | group hl ha hn hr ih =>
    rw [ha.withTimes_enclosed (by rw [hl]; rfl) (by simp [hl]) (by rw [hr]; rfl)]
    exact .group hl ih hn hr
  | vector hl has hr ih =>
    rw [has.withTimes_enclosed (by rw [hl]; rfl) (by simp [hl]) (by rw [hr]; rfl)]
    exact .vector hl ih hr
  | interval hl ha hd hb hr iha ihb =>
    rw [withTimes_cons (by rw [hl]; rfl) (by simp [hl]), ha.withTimes_separated (by rw [hd]; rfl),
      hb.withTimes_closed (by rw [hr]; rfl)]
    exact .interval hl iha hd ihb hr
  | one _ ih => exact .one ih
  | more ha ht _ iha ihas =>
    rw [ha.withTimes_separated (by rw [ht]; rfl)]
    exact .more iha ht ihas

/-- The token `star` for every sign of a product. -/
def asStar (star t : Token) : Token := if t.kind = .times then star else t

/-- **There is no other way to write them out**, but for what tokens the signs are. -/
theorem WrittenOut.map_asStar (star : Token) (h : WrittenOut p ts m us) :
    us.map (asStar star) = (withTimes star ts).map (asStar star) := by
  induction h with
  | term _ ih | factor _ ih | unsigned _ ih | base _ ih | one _ ih => exact ih
  | sum ha ht _ iha ihb =>
    rw [ha.spells.1.withTimes_separated (separates_of_sumSign ht)]
    simp only [List.map_append, List.map_cons, iha, ihb]
  | product ha ht _ iha ihb =>
    rw [ha.spells.1.withTimes_separated (separates_of_productSign ht)]
    simp only [List.map_append, List.map_cons, iha, ihb]
  | @beside _ _ _ _ _ _ s ha hs hb hu iha ihb =>
    have hsign : asStar star s = asStar star star := by simp [asStar, hs]
    rw [ha.spells.1.withTimes_beside hb.spells.1 hu]
    simp only [List.map_append, List.map_cons, iha, ihb, hsign]
  | neg ht _ ih | pos ht _ ih =>
    rw [withTimes_cons (by rw [ht]; rfl) (by simp [ht])]
    simp only [List.map_cons, ih]
  | power ha ht _ iha ihb | more ha ht _ iha ihb =>
    rw [ha.spells.1.withTimes_separated (by rw [ht]; rfl)]
    simp only [List.map_append, List.map_cons, iha, ihb]
  | number | constant | var => rw [withTimes_singleton]
  | call _ _ hl hr => rw [withTimes_call hl hr]
  | literal hl hm _ hr => rw [withTimes_literal hl hm hr]
  | function ht hl has hr _ ih =>
    rw [withTimes_cons (by rw [ht]; rfl) (by simp [ht]),
      has.spells.1.withTimes_enclosed (by rw [hl]; rfl) (by simp [hl]) (by rw [hr]; rfl)]
    simp only [List.map_append, List.map_cons, ih]
  | group hl ha _ hr ih | vector hl ha hr ih =>
    rw [ha.spells.1.withTimes_enclosed (by rw [hl]; rfl) (by simp [hl]) (by rw [hr]; rfl)]
    simp only [List.map_append, List.map_cons, ih]
  | interval hl ha hd hb hr iha ihb =>
    rw [withTimes_cons (by rw [hl]; rfl) (by simp [hl]), ha.spells.1.withTimes_separated (by rw [hd]; rfl),
      hb.spells.1.withTimes_closed (by rw [hr]; rfl)]
    simp only [List.map_append, List.map_cons, iha, ihb]

end

/-! ## The parser with and without operands side by side -/

/-- A list of tokens is accepted if what stands before the end spells the tree as a sum. -/
theorem parseTokens_eq_ok_iff {j : Bool} {ts : List Token} {t : Expr} :
    parseTokens j ts = .ok t ↔
      ∃ front rest, ts = front ++ rest ∧ nextKind rest = .finish ∧ Spells j .sum front t := by
  unfold parseTokens
  constructor
  · intro h
    split at h
    · cases h
    rename_i a rest hsum
    split at h
    · rename_i hfinish
      cases h
      obtain ⟨front, hts, hspells⟩ := (sound _ _).sum hsum
      exact ⟨front, rest, hts, hfinish, hspells⟩
    · cases h
  · rintro ⟨front, rest, rfl, hfinish, hspells⟩
    have hends : EndsSum rest := by rw [EndsSum, hfinish]; rfl
    have hallowed : 8 * front.length + 4 ≤ allowance (front ++ rest) := by
      rw [allowance, List.length_append]
      omega
    rw [hspells.reads.sum_ok hends hallowed]
    simp only [hfinish]

/-- The second list has a sign besides between the operands of each product of operands side by side, in the part of the
first that spells the tree. -/
def WrittenOutText (ts : List Token) (t : Expr) (us : List Token) : Prop :=
  ∃ front back rest, ts = front ++ rest ∧ us = back ++ rest ∧ nextKind rest = .finish ∧ WrittenOut .sum front t back

theorem withTimes_append_finish {star : Token} {j : Bool} {front rest : List Token} {t : Expr}
    (h : Spells j .sum front t) (hrest : nextKind rest = .finish) :
    withTimes star (front ++ rest) = withTimes star front ++ rest := by
  have hstarts : startsOperand (nextKind rest) = false := by rw [hrest]; rfl
  rw [h.withTimes_append, hstarts, Bool.false_and, if_neg (by decide), withTimes_finish hrest]

/-- **Products of operands side by side are only another way to write products.**  A list accepted without them is
accepted with them as the same tree.  In one accepted with them signs can be put in, whatever their tokens are, at the
places where two operands meet and at no others; then it is accepted without them as the same tree. -/
theorem juxtaposition_is_sugar (ts : List Token) (t : Expr) :
    (parseTokens false ts = .ok t → parseTokens true ts = .ok t) ∧
      (parseTokens true ts = .ok t →
        (∀ star : Token, star.kind = .times → WrittenOutText ts t (withTimes star ts)) ∧
          ∀ us, WrittenOutText ts t us →
            (∀ star, us.map (asStar star) = (withTimes star ts).map (asStar star)) ∧ parseTokens false us = .ok t) := by
  constructor
  · intro h
    obtain ⟨front, rest, rfl, hfinish, hspells⟩ := parseTokens_eq_ok_iff.1 h
    exact parseTokens_eq_ok_iff.2 ⟨front, rest, rfl, hfinish, hspells.juxtaposed⟩
  · intro h
    constructor
    · intro star hstar
      obtain ⟨front, rest, rfl, hfinish, hspells⟩ := parseTokens_eq_ok_iff.1 h
      refine ⟨front, withTimes star front, rest, rfl, ?_, hfinish, hspells.writtenOut hstar⟩
      exact withTimes_append_finish hspells hfinish
    · rintro us ⟨front, back, rest, rfl, rfl, hfinish, hwritten⟩
      obtain ⟨hbefore, hafter⟩ := hwritten.spells
      constructor
      · intro star
        rw [withTimes_append_finish hbefore hfinish, List.map_append, List.map_append, hwritten.map_asStar star]
      · exact parseTokens_eq_ok_iff.2 ⟨back, rest, rfl, hfinish, hafter⟩

/-- The sign goes between a numeral and the parenthesis behind it, and not between a name and the parentheses of a
call. -/
theorem parseTokens_numeral_beside_group :
    let before : List Token := [⟨.number, ['2'], 0⟩, ⟨.parenL, ['('], 1⟩, ⟨.name, ['f'], 2⟩, ⟨.parenL, ['('], 3⟩,
      ⟨.parenR, [')'], 4⟩, ⟨.parenR, [')'], 5⟩, ⟨.finish, [], 6⟩]
    let star : Token := ⟨.times, ['*'], 1⟩
    let after : List Token := ⟨.number, ['2'], 0⟩ :: star :: before.tail
    parseTokens true before = .ok (.times (.int 2) (.call "f")) ∧ withTimes star before = after ∧
      WrittenOutText before (.times (.int 2) (.call "f")) after ∧
      parseTokens false after = .ok (.times (.int 2) (.call "f")) ∧
      parseTokens true after = .ok (.times (.int 2) (.call "f")) := by
  intro before star after
  have hbefore : parseTokens true before = .ok (.times (.int 2) (.call "f")) := rfl
  have hplaces : withTimes star before = after := by decide
  obtain ⟨hexists, hall⟩ := (juxtaposition_is_sugar before _).2 hbefore
  have hwritten : WrittenOutText before (.times (.int 2) (.call "f")) after := hplaces ▸ hexists star rfl
  have hafter : parseTokens false after = .ok (.times (.int 2) (.call "f")) := (hall after hwritten).2
  exact ⟨hbefore, hplaces, hwritten, hafter, (juxtaposition_is_sugar after _).1 hafter⟩

end ExprCalculus.Grammar
