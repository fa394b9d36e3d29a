import ExprCalculus.Proofs.Grammar.Acceptance
import ExprCalculus.Proofs.Grammar.Cutting

/-!
# Written trees are read back

The text of a tree is cut into tokens that spell the tree.  By induction on the tree each text is described in
two forms, as an operand and without its outer parentheses (`Printed`); the language then does the rest.

* `Printable` — the trees whose text determines them.
* `parse_text_of_printable` — reading the text of such a tree gives the tree, whether or not operands side by
  side are a product.
-/

namespace ExprCalculus.Grammar

open Text Numeral

/-! ## Printable trees -/

/-- The trees whose text determines them.  Literals are finite and not the negative zero, names are words of
their own and not those of constants, no vector is empty, and a variable in an argument names a parameter. -/
inductive Printable : Expr → Prop
  | number {v : Num} (h : v.Writable) : Printable (.number v)
  | var {x : String} (h : IsName x) : Printable (.var x)
  | call {x : String} (h : IsName x) : Printable (.call x)
  | vector {es : List Expr} (hne : es ≠ []) (h : ∀ e ∈ es, Printable e) : Printable (.vector es)
  | interval {a b : Expr} (ha : Printable a) (hb : Printable b) : Printable (.interval a b)
  | binary (op : BinOp) {a b : Expr} (ha : Printable a) (hb : Printable b) : Printable (.binary op a b)
  | neg {a : Expr} (ha : Printable a) : Printable (.neg a)
  | apply (fn : Fn) {a : Expr} (ha : Printable a) : Printable (.apply fn a)
  | log {a b : Expr} (ha : Printable a) (hb : Printable b) : Printable (.log a b)
  | root {n : Nat} {a : Expr} (hn : 1 ≤ n) (ha : Printable a) : Printable (.root n a)

variable {j : Bool}

/-- The tokens of a tree as an operand: they spell it as an operand with its signs, and as one without signs
unless it is a negation; they are not mistaken for a negative literal, and only a literal begins with a
numeral. -/
structure Operand (j : Bool) (e : Expr) (ts : List Token) : Prop where
  unary : Spells j .unary ts e
  primary : (∀ a, e ≠ .neg a) → Spells j .primary ts e
  not_numeral : ¬ NegativeNumeral ts
  head : (∀ v, e ≠ .number v) → nextKind ts ≠ .number

theorem Operand.sum {e : Expr} {ts : List Token} (h : Operand j e ts) : Spells j .sum ts e :=
  .term (.factor h.unary)

theorem Operand.of_primary {e : Expr} {ts : List Token} (h : Spells j .primary ts e)
    (hk : (∀ v, e ≠ .number v) → nextKind ts ≠ .number) : Operand j e ts := by
  refine ⟨.unsigned (.base h), fun _ => h, ?_, hk⟩
  rintro ⟨m, n, hm, -, rfl⟩
  obtain ⟨t, rest, ht, hstart⟩ := h.head
  cases ht
  rw [hm] at hstart
  cases hstart

/-! ## The text of each kind of tree -/

theorem mem_breakChars : ' ' ∈ breakChars ∧ '(' ∈ breakChars ∧ ')' ∈ breakChars ∧ ',' ∈ breakChars ∧
    ']' ∈ breakChars := by decide

/-- How a tree is cut: as an operand, or as a sum where its outer parentheses are left out. -/
structure Printed (j : Bool) (e : Expr) : Prop where
  operand : ∀ rest, Breaks rest → Cuts (e.render false).toList rest (Operand j e)
  bare : ∀ rest, Breaks rest → Cuts (e.render true).toList rest (fun ts => Spells j .sum ts e)

theorem Printed.of_operand {e : Expr} (hbare : e.render true = e.render false)
    (h : ∀ rest, Breaks rest → Cuts (e.render false).toList rest (Operand j e)) : Printed j e :=
  ⟨h, fun rest hr => by rw [hbare]; exact (h rest hr).mono fun _ ho => ho.sum⟩

theorem not_constant {x : String} (h : IsName x) : ∀ v, (x.toList, v) ∉ constants := by
  have he : x.toList ≠ "e".toList := fun he => h.2.1 (String.toList_inj.1 he)
  have hpi : x.toList ≠ "pi".toList := fun hpi => h.2.2 (String.toList_inj.1 hpi)
  intro v hv
  simp only [constants, List.mem_cons, Prod.mk.injEq, List.not_mem_nil, or_false] at hv
  rcases hv with ⟨h1, -⟩ | ⟨h1, -⟩
  · exact he h1
  · exact hpi h1

theorem printed_number {v : Num} (hv : v.Writable) : Printed j (.number v) := by
  refine .of_operand rfl fun rest hr => ?_
  show Cuts (if v.isNegative then "(" ++ v.text ++ ")" else v.text).toList rest _
  split
  · rename_i hneg
    obtain ⟨htext, hw, hn, hnn⟩ := Num.text_of_negative hv hneg
    have hcut := Cuts.numeral hw hn (breaks_cons (s := rest) mem_breakChars.2.2.1)
    have hsigned : Cuts ('-' :: v.negate.text.toList) (')' :: rest)
        (fun ts => ∃ m t, Token.kind m = .minus ∧ Token.kind t = .number ∧ numeralValue t.text = v.negate ∧
          ts = [m, t]) := by
      refine Cuts.append (s := ['-']) (Cuts.mark (fun _ => rfl) (by decide) _) hcut ?_
      rintro _ _ ⟨m, hm, rfl⟩ ⟨t, ht, hval, rfl⟩
      exact ⟨m, t, hm, ht, hval, rfl⟩
    have htext' : ("(" ++ v.text ++ ")").toList = '(' :: ('-' :: v.negate.text.toList ++ [')']) := by
      rw [htext]
      simp
    rw [htext']
    refine hsigned.parens.mono ?_
    rintro _ ⟨l, r, _, hl, hr, ⟨m, t, hm, ht, hval, rfl⟩, rfl⟩
    have hspell : Spells j .primary _ _ := .literal hl hm ht hr
    rw [hval, hnn] at hspell
    exact .of_primary hspell fun h => absurd rfl (h v)
  · rename_i hneg
    rw [Bool.not_eq_true] at hneg
    refine (Cuts.numeral hv hneg hr).mono ?_
    rintro _ ⟨t, ht, hval, rfl⟩
    have hspell : Spells j .primary _ _ := .number ht
    rw [hval] at hspell
    exact .of_primary hspell fun h => absurd rfl (h v)

theorem printed_var {x : String} (h : IsName x) : Printed j (.var x) := by
  refine .of_operand rfl fun rest hr => (Cuts.name h hr).mono ?_
  rintro _ ⟨t, ht, htext, rfl⟩
  have hspell : Spells j .primary _ _ := .var ht (by rw [htext]; exact not_constant h)
  rw [htext, String.ofList_toList] at hspell
  exact .of_primary hspell fun _ => by simp [nextKind, ht]

theorem printed_call {x : String} (h : IsName x) : Printed j (.call x) := by
  refine .of_operand rfl fun rest hr => ?_
  have htext : ((Expr.call x).render false).toList = x.toList ++ ('(' :: ([] ++ [')'])) := by
    show (x ++ "()").toList = _
    simp
  rw [htext]
  have hempty : Cuts [] (')' :: rest) (fun ts => ts = []) := fun pos => ⟨[], pos, rfl, rfl⟩
  refine Cuts.append (Cuts.name h (breaks_cons mem_breakChars.2.1)) hempty.parens ?_
  rintro _ _ ⟨t, ht, htext, rfl⟩ ⟨l, r, _, hl, hr, rfl, rfl⟩
  have hspell : Spells j .primary _ _ := .call ht (by rw [htext]; exact not_constant h) hl hr
  rw [htext, String.ofList_toList] at hspell
  exact .of_primary hspell fun _ => by simp [nextKind, ht]

theorem printed_interval {a b : Expr} (ha : Printed j a) (hb : Printed j b) :
    Printed j (.interval a b) := by
  refine .of_operand rfl fun rest hr => ?_
  have htext : ((Expr.interval a b).render false).toList =
      '[' :: (((a.render false).toList ++ (' ' :: ['.', '.'] ++ ' ' :: (b.render false).toList)) ++ [']']) := by
    show ("[" ++ a.render false ++ " .. " ++ b.render false ++ "]").toList = _
    simp
  rw [htext]
  have hcut := Cuts.between (fun r => (Cuts.dots r).space) (ha.operand _ (breaks_cons mem_breakChars.1))
    (hb.operand (']' :: rest) (breaks_cons mem_breakChars.2.2.2.2))
  refine hcut.brackets.mono ?_
  rintro _ ⟨l, r, _, hl, hr, ⟨t, us, vs, ht, hus, hvs, rfl⟩, rfl⟩
  rw [List.append_assoc, List.cons_append]
  exact .of_primary (.interval hl hus.sum ht hvs.sum hr) fun _ => by simp [nextKind, hl]

/-- The tokens of a binary operation without its parentheses. -/
theorem spells_binary (op : BinOp) {a b : Expr} {t : Token} {us vs : List Token} (ht : t.kind = opKind op)
    (ha : Spells j .unary us a) (hp : op = .power → Spells j .primary us a) (hb : Spells j .unary vs b) :
    Spells j .sum (us ++ t :: vs) (.binary op a b) := by
  cases op with
  | plus => exact .sum (.term (.factor ha)) (by rw [ht]; decide) (.factor hb)
  | minus => exact .sum (.term (.factor ha)) (by rw [ht]; decide) (.factor hb)
  | times => exact .term (.product (.factor ha) (by rw [ht]; decide) hb)
  | divide => exact .term (.product (.factor ha) (by rw [ht]; decide) hb)
  | modulo => exact .term (.product (.factor ha) (by rw [ht]; decide) hb)
  | power => exact .term (.factor (.unsigned (.power (hp rfl) ht hb)))

/-- The text of a first operand. -/
def baseText (op : BinOp) (a : Expr) : String :=
  match op, a with
  | .power, .neg _ => "(" ++ a.render false ++ ")"
  | _, _ => a.render false

theorem render_binary (op : BinOp) (a b : Expr) :
    (Expr.binary op a b).render true = baseText op a ++ " " ++ op.symbol ++ " " ++ b.render false := by
  cases op with
  | power => cases a <;> rfl
  | _ => rfl

theorem cuts_base (op : BinOp) {a : Expr} (ha : Printed j a) {rest : List Char} (hr : Breaks rest) :
    Cuts (baseText op a).toList rest
      (fun ts => Spells j .unary ts a ∧ (op = .power → Spells j .primary ts a)) := by
  unfold baseText
  split
  · rename_i x
    have htext : ("(" ++ (Expr.neg x).render false ++ ")").toList =
        '(' :: (((Expr.neg x).render false).toList ++ [')']) := by simp
    rw [htext]
    refine (ha.operand (')' :: rest) (breaks_cons mem_breakChars.2.2.1)).parens.mono ?_
    rintro _ ⟨l, r, us, hl, hr, hus, rfl⟩
    have hspell : Spells j .primary _ _ := .group hl hus.sum hus.not_numeral hr
    exact ⟨.unsigned (.base hspell), fun _ => hspell⟩
  · rename_i hno
    refine (ha.operand rest hr).mono fun ts ho => ⟨ho.unary, ?_⟩
    rintro rfl
    exact ho.primary fun x hx => hno x rfl hx

theorem cuts_binary (op : BinOp) {a b : Expr} (ha : Printed j a) (hb : Printed j b) {rest : List Char}
    (hr : Breaks rest) :
    Cuts ((Expr.binary op a b).render true).toList rest
      (fun ts => Spells j .sum ts (.binary op a b) ∧ 3 ≤ ts.length) := by
  have htext : ((Expr.binary op a b).render true).toList =
      (baseText op a).toList ++ (' ' :: op.symbol.toList ++ ' ' :: (b.render false).toList) := by
    rw [render_binary]
    simp
  rw [htext]
  refine (Cuts.between (fun r => (Cuts.symbol op r).space) (cuts_base op ha (breaks_cons mem_breakChars.1))
    (hb.operand rest hr)).mono ?_
  rintro _ ⟨t, us, vs, ht, ⟨hus, hp⟩, hvs, rfl⟩
  refine ⟨spells_binary op ht hus hp hvs.unary, ?_⟩
  have h1 := hus.length_pos
  have h2 := hvs.unary.length_pos
  simp only [List.length_append, List.length_cons]
  omega

theorem printed_binary (op : BinOp) {a b : Expr} (ha : Printed j a) (hb : Printed j b) :
    Printed j (.binary op a b) := by
  refine ⟨fun rest hr => ?_, fun rest hr => (cuts_binary op ha hb hr).mono fun ts h => h.1⟩
  have htext : ((Expr.binary op a b).render false).toList =
      '(' :: (((Expr.binary op a b).render true).toList ++ [')']) := by
    show ("(" ++ (Expr.binary op a b).render true ++ ")").toList = _
    simp
  rw [htext]
  refine (cuts_binary op ha hb (breaks_cons mem_breakChars.2.2.1)).parens.mono ?_
  rintro _ ⟨l, r, us, hl, hr, ⟨hus, hlen⟩, rfl⟩
  have hn : ¬ NegativeNumeral us := by
    rintro ⟨m, n, -, -, rfl⟩
    simp at hlen
  exact .of_primary (.group hl hus hn hr) fun _ => by simp [nextKind, hl]

theorem printed_neg {a : Expr} (ha : Printed j a) : Printed j (.neg a) := by
  refine .of_operand rfl fun rest hr => ?_
  by_cases hbin : ∃ op x y, a = .binary op x y
  · -- the operand brings its own parentheses
    have htext : ((Expr.neg a).render false).toList = '-' :: (a.render false).toList := by
      obtain ⟨op, x, y, rfl⟩ := hbin
      show ("-" ++ (Expr.binary op x y).render false).toList = _
      simp
    rw [htext]
    refine Cuts.append (s := ['-']) (Cuts.mark (fun _ => rfl) (by decide) _) (ha.operand rest hr) ?_
    rintro _ us ⟨m, hm, rfl⟩ hus
    refine ⟨.neg hm hus.unary, fun h => absurd rfl (h a), ?_, fun _ => by simp [nextKind, hm]⟩
    rintro ⟨m', n, -, hn, hts⟩
    cases hts
    obtain ⟨op, x, y, rfl⟩ := hbin
    exact hus.head (by simp) hn
  · have htext : ((Expr.neg a).render false).toList = '-' :: ('(' :: ((a.render false).toList ++ [')'])) := by
      have hrender : (Expr.neg a).render false = "-(" ++ a.render false ++ ")" := by
        cases a <;> first | exact absurd ⟨_, _, _, rfl⟩ hbin | rfl
      rw [hrender]
      simp
    rw [htext]
    refine Cuts.append (s := ['-']) (Cuts.mark (fun _ => rfl) (by decide) _)
      (ha.operand (')' :: rest) (breaks_cons mem_breakChars.2.2.1)).parens ?_
    rintro _ _ ⟨m, hm, rfl⟩ ⟨l, r, us, hl, hr, hus, rfl⟩
    have hgroup : Spells j .primary _ _ := .group hl hus.sum hus.not_numeral hr
    refine ⟨.neg hm (.unsigned (.base hgroup)), fun h => absurd rfl (h a), ?_, fun _ => by simp [nextKind, hm]⟩
    rintro ⟨m', n, -, hn, hts⟩
    simp at hts

/-- The tokens of arguments in parentheses behind the name of a function. -/
theorem cuts_function {name args rest : List Char} {as : List Expr} {e : Expr}
    (hname : Cuts name ('(' :: (args ++ [')']) ++ rest)
      (fun ts => ∃ t : Token, t.kind = .function ∧ t.text = name ∧ ts = [t]))
    (hargs : Cuts args (')' :: rest) (fun ts => Spells j .items ts as)) (ha : Applied name as e) :
    Cuts (name ++ '(' :: (args ++ [')'])) rest (Operand j e) := by
  refine Cuts.append hname hargs.parens ?_
  rintro _ _ ⟨t, ht, htext, rfl⟩ ⟨l, r, us, hl, hr, hus, rfl⟩
  exact .of_primary (.function ht hl hus hr (htext ▸ ha)) fun _ => by simp [nextKind, ht]

theorem printed_apply (fn : Fn) {a : Expr} (ha : Printed j a) : Printed j (.apply fn a) := by
  refine .of_operand rfl fun rest hr => ?_
  have htext : ((Expr.apply fn a).render false).toList =
      fn.name.toList ++ '(' :: ((a.render true).toList ++ [')']) := by
    show (fn.name ++ "(" ++ a.render true ++ ")").toList = _
    simp
  rw [htext]
  have hargs := (ha.bare (')' :: rest) (breaks_cons mem_breakChars.2.2.1)).mono
    (Q := fun ts => Spells j .items ts [a]) fun _ => .one
  exact cuts_function (Cuts.fn fn _) hargs (.function _ fn a (name_mem_functions fn))

/-- Two arguments. -/
theorem cuts_pair {s s' rest : List Char} {a : Expr} {bs : List Expr}
    (ha : Cuts s (',' :: ' ' :: s' ++ rest) (fun ts => Spells j .sum ts a))
    (hb : Cuts s' rest (fun ts => Spells j .items ts bs)) :
    Cuts (s ++ ([','] ++ ' ' :: s')) rest (fun ts => Spells j .items ts (a :: bs)) := by
  refine (Cuts.between (fun r => Cuts.mark (fun _ => rfl) (by decide) _) ha hb).mono ?_
  rintro _ ⟨t, us, vs, ht, hus, hvs, rfl⟩
  exact .more hus ht hvs

theorem printed_log {a b : Expr} (ha : Printed j a) (hb : Printed j b) : Printed j (.log a b) := by
  refine .of_operand rfl fun rest hr => ?_
  have htext : ((Expr.log a b).render false).toList = "log".toList ++ '(' ::
      (((a.render true).toList ++ ([','] ++ ' ' :: (b.render true).toList)) ++ [')']) := by
    show ("log(" ++ a.render true ++ ", " ++ b.render true ++ ")").toList = _
    simp
  rw [htext]
  have hargs := cuts_pair (ha.bare _ (breaks_cons mem_breakChars.2.2.2.1))
    ((hb.bare (')' :: rest) (breaks_cons mem_breakChars.2.2.1)).mono
      (Q := fun ts => Spells j .items ts [b]) fun _ => .one)
  exact cuts_function (Cuts.function (by decide) (by decide) (by decide) _) hargs (.log a b)

theorem printed_root {n : Nat} (hn : 1 ≤ n) {a : Expr} (ha : Printed j a) : Printed j (.root n a) := by
  refine .of_operand rfl fun rest hr => ?_
  have hindex : Printed j (.int n) := printed_number ⟨by simp [Num.exactValue?], by simp⟩
  have htext : ((Expr.root n a).render false).toList = "nrt".toList ++ '(' ::
      ((((Expr.int n).render true).toList ++ ([','] ++ ' ' :: (a.render true).toList)) ++ [')']) := by
    have hn : ¬ (n : Int) < 0 := by omega
    simp [Expr.render, Num.display, Num.isNegative, Num.text, Decimal.intText, hn]
  rw [htext]
  have hargs := cuts_pair (hindex.bare _ (breaks_cons mem_breakChars.2.2.2.1))
    ((ha.bare (')' :: rest) (breaks_cons mem_breakChars.2.2.1)).mono
      (Q := fun ts => Spells j .items ts [a]) fun _ => .one)
  exact cuts_function (Cuts.function (by decide) (by decide) (by decide) _) hargs (.root n a hn)

theorem cuts_items {es : List Expr} (hne : es ≠ []) (h : ∀ e ∈ es, Printed j e) {rest : List Char}
    (hr : Breaks rest) :
    Cuts (", ".intercalate (Expr.renderAll false es)).toList rest (fun ts => Spells j .items ts es) := by
  induction es with
  | nil => exact absurd rfl hne
  | cons e es ih =>
    cases es with
    | nil =>
      have htext : ", ".intercalate (Expr.renderAll false [e]) = e.render false := by simp [Expr.renderAll]
      rw [htext]
      exact ((h e List.mem_cons_self).operand rest hr).mono fun _ ho => .one ho.sum
    | cons e' es =>
      have htext : (", ".intercalate (Expr.renderAll false (e :: e' :: es))).toList =
          (e.render false).toList ++ ([','] ++ ' ' ::
            (", ".intercalate (Expr.renderAll false (e' :: es))).toList) := by
        simp [Expr.renderAll]
      rw [htext]
      refine cuts_pair (((h e List.mem_cons_self).operand _ (breaks_cons mem_breakChars.2.2.2.1)).mono
        fun _ ho => ho.sum) (ih (by simp) fun x hx => h x (List.mem_cons_of_mem _ hx))

theorem printed_vector {es : List Expr} (hne : es ≠ []) (h : ∀ e ∈ es, Printed j e) :
    Printed j (.vector es) := by
  refine .of_operand rfl fun rest hr => ?_
  have htext : ((Expr.vector es).render false).toList =
      '[' :: ((", ".intercalate (Expr.renderAll false es)).toList ++ [']']) := by
    show ("[" ++ ", ".intercalate (Expr.renderAll false es) ++ "]").toList = _
    simp
  rw [htext]
  refine (cuts_items hne h (breaks_cons mem_breakChars.2.2.2.2)).brackets.mono ?_
  rintro _ ⟨l, r, us, hl, hr, hus, rfl⟩
  exact .of_primary (.vector hl hus hr) fun _ => by simp [nextKind, hl]

/-- Every printable tree is cut into tokens that spell it. -/
theorem Printable.printed {e : Expr} (h : Printable e) : Printed j e := by
  induction h with
  | number h => exact printed_number h
  | var h => exact printed_var h
  | call h => exact printed_call h
  | vector hne _ ih => exact printed_vector hne ih
  | interval _ _ iha ihb => exact printed_interval iha ihb
  | binary op _ _ iha ihb => exact printed_binary op iha ihb
  | neg _ ih => exact printed_neg ih
  | apply fn _ ih => exact printed_apply fn ih
  | log _ _ iha ihb => exact printed_log iha ihb
  | root hn _ ih => exact printed_root hn ih

/-- **A printable tree is what its text is read as.** -/
theorem parse_text_of_printable (j : Bool) {e : Expr} (h : Printable e) : parse j e.text = .ok e := by
  apply parse_of_spellsText
  obtain ⟨ts, p, hts, hspell⟩ := h.printed.operand [] breaks_nil 0
  have hstop : tokensFrom p [] = [⟨.finish, [], p⟩] := tokensFrom_stop rfl
  rw [List.append_nil, hstop] at hts
  exact ⟨ts, p, hts, hspell.sum⟩

/-- A negated base, a root and a negative literal beside a call. -/
theorem parse_text_of_nested :
    Printable (.power (.neg (.number (.float 2.5))) (.root 3 (.times (.int (-2)) (.call "f")))) ∧
      parse true (Expr.power (.neg (.number (.float 2.5))) (.root 3 (.times (.int (-2)) (.call "f")))).text =
        .ok (.power (.neg (.number (.float 2.5))) (.root 3 (.times (.int (-2)) (.call "f")))) := by
  have h : Printable (.power (.neg (.number (.float 2.5))) (.root 3 (.times (.int (-2)) (.call "f")))) :=
    .binary _ (.neg (.number (by decide)))
      (.root (by decide) (.binary _ (.number (by decide)) (.call (by decide))))
  exact ⟨h, parse_text_of_printable true h⟩

end ExprCalculus.Grammar
