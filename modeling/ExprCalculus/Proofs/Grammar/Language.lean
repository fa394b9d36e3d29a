import ExprCalculus.Grammar.Parser

/-!
# The language of expressions

`Spells` says which lists of tokens spell which trees.  It is a grammar in the usual form: sums and
products grow to the left, a sign stands before an operand with its signs, and the exponent of a power is
again an operand with its signs.  Nothing in it looks ahead, save that the four tokens of a negative
numeral in parentheses spell a literal and nothing else.

* `Spells.head` — what a phrase begins with; in particular no phrase is empty.
* `Spells.meaningful` — the end of the text and a character that begins no token are in no phrase.
* `applyNamed_eq_ok_iff` — the parser judges the arguments of a function as `Applied` says.
-/

namespace ExprCalculus.Grammar

/-- The phrases of the language. -/
inductive Phrase where
  | sum
  | product
  | unary
  | power
  | primary
  /-- phrases separated by commas -/
  | items

/-- What a phrase stands for. -/
abbrev Phrase.Meaning : Phrase → Type
  | .items => List Expr
  | _ => Expr

/-- The signs of a sum. -/
def sumSigns : List (Kind × BinOp) := [(.plus, .plus), (.minus, .minus)]

/-- The signs of a product. -/
def productSigns : List (Kind × BinOp) :=
  [(.times, .times), (.divide, .divide), (.modulo, .modulo)]

/-- The names of constants. -/
def constants : List (List Char × Num) := [("e".toList, .euler), ("pi".toList, .pi)]

/-- The names of functions of one argument. -/
def functions : List (List Char × Fn) :=
  [("exp".toList, .exp), ("ln".toList, .ln), ("sqrt".toList, .sqrt), ("sin".toList, .sin),
    ("cos".toList, .cos), ("tan".toList, .tan), ("arcsin".toList, .arcsin), ("asin".toList, .arcsin),
    ("arccos".toList, .arccos), ("acos".toList, .arccos), ("arctan".toList, .arctan),
    ("atan".toList, .arctan), ("abs".toList, .abs), ("ceil".toList, .ceil), ("floor".toList, .floor),
    ("sgn".toList, .sgn)]

/-- Which trees the functions make of their arguments.  A logarithm without a base is one to base ten, and
the index of a root is a positive integer literal. -/
inductive Applied : List Char → List Expr → Expr → Prop
  | decimalLog (a : Expr) : Applied "log".toList [a] (.log (.int 10) a)
  | log (b a : Expr) : Applied "log".toList [b, a] (.log b a)
  | root (n : Nat) (a : Expr) (h : 1 ≤ n) : Applied "nrt".toList [.int n, a] (.root n a)
  | function (name : List Char) (fn : Fn) (a : Expr) (h : (name, fn) ∈ functions) :
    Applied name [a] (.apply fn a)

/-- The two tokens that make a literal when they stand alone in parentheses. -/
def NegativeNumeral (ts : List Token) : Prop :=
  ∃ m n : Token, m.kind = .minus ∧ n.kind = .number ∧ ts = [m, n]

/-- Which lists of tokens spell which trees; `juxtapose` says whether operands side by side are a product. -/
inductive Spells (juxtapose : Bool) : (p : Phrase) → List Token → p.Meaning → Prop
  | term {ts : List Token} {a : Expr} (ha : Spells juxtapose .product ts a) : Spells juxtapose .sum ts a
  | sum {ts us : List Token} {a b : Expr} {t : Token} {op : BinOp} (ha : Spells juxtapose .sum ts a)
    (ht : (t.kind, op) ∈ sumSigns) (hb : Spells juxtapose .product us b) :
    Spells juxtapose .sum (ts ++ t :: us) (.binary op a b)
  | factor {ts : List Token} {a : Expr} (ha : Spells juxtapose .unary ts a) :
    Spells juxtapose .product ts a
  | product {ts us : List Token} {a b : Expr} {t : Token} {op : BinOp}
    (ha : Spells juxtapose .product ts a) (ht : (t.kind, op) ∈ productSigns)
    (hb : Spells juxtapose .unary us b) : Spells juxtapose .product (ts ++ t :: us) (.binary op a b)
  | beside {ts us : List Token} {a b : Expr} (hj : juxtapose = true)
    (ha : Spells juxtapose .product ts a) (hb : Spells juxtapose .power us b)
    (hu : startsOperand (nextKind us) = true) : Spells juxtapose .product (ts ++ us) (.times a b)
  | neg {ts : List Token} {a : Expr} {t : Token} (ht : t.kind = .minus)
    (ha : Spells juxtapose .unary ts a) : Spells juxtapose .unary (t :: ts) (.neg a)
  | pos {ts : List Token} {a : Expr} {t : Token} (ht : t.kind = .plus)
    (ha : Spells juxtapose .unary ts a) : Spells juxtapose .unary (t :: ts) a
  | unsigned {ts : List Token} {a : Expr} (ha : Spells juxtapose .power ts a) :
    Spells juxtapose .unary ts a
  | base {ts : List Token} {a : Expr} (ha : Spells juxtapose .primary ts a) :
    Spells juxtapose .power ts a
  | power {ts us : List Token} {a b : Expr} {t : Token} (ha : Spells juxtapose .primary ts a)
    (ht : t.kind = .power) (hb : Spells juxtapose .unary us b) :
    Spells juxtapose .power (ts ++ t :: us) (.power a b)
  | number {t : Token} (ht : t.kind = .number) :
    Spells juxtapose .primary [t] (.number (numeralValue t.text))
  | constant {t : Token} {v : Num} (ht : t.kind = .name) (hv : (t.text, v) ∈ constants) :
    Spells juxtapose .primary [t] (.number v)
  | var {t : Token} (ht : t.kind = .name) (hn : ∀ v, (t.text, v) ∉ constants) :
    Spells juxtapose .primary [t] (.var (String.ofList t.text))
  | call {t l r : Token} (ht : t.kind = .name) (hn : ∀ v, (t.text, v) ∉ constants)
    (hl : l.kind = .parenL) (hr : r.kind = .parenR) :
    Spells juxtapose .primary [t, l, r] (.call (String.ofList t.text))
  | function {ts : List Token} {as : List Expr} {a : Expr} {t l r : Token} (ht : t.kind = .function)
    (hl : l.kind = .parenL) (has : Spells juxtapose .items ts as) (hr : r.kind = .parenR)
    (ha : Applied t.text as a) : Spells juxtapose .primary (t :: l :: (ts ++ [r])) a
  | literal {l m t r : Token} (hl : l.kind = .parenL) (hm : m.kind = .minus) (ht : t.kind = .number)
    (hr : r.kind = .parenR) :
    Spells juxtapose .primary [l, m, t, r] (.number (numeralValue t.text).negate)
  | group {ts : List Token} {a : Expr} {l r : Token} (hl : l.kind = .parenL)
    (ha : Spells juxtapose .sum ts a) (hn : ¬ NegativeNumeral ts) (hr : r.kind = .parenR) :
    Spells juxtapose .primary (l :: (ts ++ [r])) a
  | vector {ts : List Token} {as : List Expr} {l r : Token} (hl : l.kind = .bracketL)
    (has : Spells juxtapose .items ts as) (hr : r.kind = .bracketR) :
    Spells juxtapose .primary (l :: (ts ++ [r])) (.vector as)
  | interval {ts us : List Token} {a b : Expr} {l d r : Token} (hl : l.kind = .bracketL)
    (ha : Spells juxtapose .sum ts a) (hd : d.kind = .dots) (hb : Spells juxtapose .sum us b)
    (hr : r.kind = .bracketR) : Spells juxtapose .primary (l :: (ts ++ d :: (us ++ [r]))) (.interval a b)
  | one {ts : List Token} {a : Expr} (ha : Spells juxtapose .sum ts a) : Spells juxtapose .items ts [a]
  | more {ts us : List Token} {a : Expr} {as : List Expr} {t : Token} (ha : Spells juxtapose .sum ts a)
    (ht : t.kind = .comma) (has : Spells juxtapose .items us as) :
    Spells juxtapose .items (ts ++ t :: us) (a :: as)

/-! ## The tables -/

theorem sumOp?_eq_some_iff {k : Kind} {op : BinOp} : sumOp? k = some op ↔ (k, op) ∈ sumSigns := by
  cases k <;> cases op <;> decide

theorem productOp?_eq_some_iff {k : Kind} {op : BinOp} :
    productOp? k = some op ↔ (k, op) ∈ productSigns := by
  cases k <;> cases op <;> decide

theorem constant?_eq_some_iff {name : List Char} {v : Num} :
    constant? name = some v ↔ (name, v) ∈ constants := by
  unfold constant?
  split
  · rename_i h; subst h; simp [constants, eq_comm]
  · split
    · rename_i h; subst h; simp [constants, eq_comm]
    · rename_i h1 h2; simp_all [constants]

theorem constant?_eq_none_iff {name : List Char} :
    constant? name = none ↔ ∀ v, (name, v) ∉ constants := by
  rw [Option.eq_none_iff_forall_ne_some]
  exact forall_congr' fun v => not_congr constant?_eq_some_iff

theorem namedFn?_eq_some_iff {name : List Char} {fn : Fn} :
    namedFn? name = some fn ↔ (name, fn) ∈ functions := by
  unfold namedFn?
  constructor
  · intro h
    have hn : ∀ s, String.ofList name = s → name = s.toList := fun s hs => by rw [← hs]; simp
    split at h <;> cases h <;> (rename_i hs; rw [hn _ hs]; decide)
  · intro h
    simp only [functions, List.mem_cons, Prod.mk.injEq, List.not_mem_nil, or_false] at h
    rcases h with ⟨rfl, rfl⟩ | ⟨rfl, rfl⟩ | ⟨rfl, rfl⟩ | ⟨rfl, rfl⟩ | ⟨rfl, rfl⟩ | ⟨rfl, rfl⟩ | ⟨rfl, rfl⟩ |
      ⟨rfl, rfl⟩ | ⟨rfl, rfl⟩ | ⟨rfl, rfl⟩ | ⟨rfl, rfl⟩ | ⟨rfl, rfl⟩ | ⟨rfl, rfl⟩ | ⟨rfl, rfl⟩ | ⟨rfl, rfl⟩ |
      ⟨rfl, rfl⟩ <;> rfl

theorem rootIndex?_eq_some_iff {e : Expr} {n : Nat} :
    rootIndex? e = some n ↔ 1 ≤ n ∧ e = .int n := by
  unfold rootIndex?
  split
  · rename_i m
    split
    · rename_i hm
      simp only [Option.some.injEq, Expr.number.injEq, Num.int.injEq]
      omega
    · rename_i hm
      simp only [reduceCtorEq, Expr.number.injEq, Num.int.injEq, false_iff]
      omega
  · rename_i hne
    simp only [reduceCtorEq, false_iff]
    rintro ⟨_, rfl⟩
    exact hne n rfl

theorem functions_names {name : List Char} {fn : Fn} (h : (name, fn) ∈ functions) :
    name ≠ "log".toList ∧ name ≠ "nrt".toList := by
  constructor
  · rintro rfl
    rw [← namedFn?_eq_some_iff] at h
    cases h
  · rintro rfl
    rw [← namedFn?_eq_some_iff] at h
    cases h

/-- The parser judges the arguments of a function by the rules of the language. -/
theorem applyNamed_eq_ok_iff {name : List Char} {as : List Expr} {a : Expr} :
    applyNamed name as = .ok a ↔ Applied name as a := by
  unfold applyNamed
  constructor
  · intro h
    simp only at h
    split at h
    · rename_i hlog
      subst hlog
      split at h
      · cases h; exact .decimalLog _
      · cases h; exact .log _ _
      · cases h
    · split at h
      · rename_i hnrt
        subst hnrt
        split at h
        · split at h
          · rename_i k hk
            cases h
            obtain ⟨h1, rfl⟩ := rootIndex?_eq_some_iff.1 hk
            exact .root k _ h1
          · cases h
        · cases h
      · split at h
        · rename_i fn b hfn
          cases h
          exact .function name fn b (namedFn?_eq_some_iff.1 hfn)
        · cases h
  · intro h
    cases h with
    | decimalLog b => rfl
    | log b c => rfl
    | root n b h1 =>
      rw [if_neg (by decide), if_pos rfl]
      simp only [rootIndex?_eq_some_iff.2 ⟨h1, rfl⟩]
    | function _ fn b hfn =>
      obtain ⟨hlog, hnrt⟩ := functions_names hfn
      rw [if_neg hlog, if_neg hnrt]
      simp only [namedFn?_eq_some_iff.2 hfn]

/-! ## What a phrase begins with and what it holds -/

/-- The kinds a phrase may begin with. -/
def startsPhrase : Phrase → Kind → Bool
  | .primary, k | .power, k => startsOperand k || k == .bracketL
  | _, k => startsOperand k || k == .bracketL || k == .minus || k == .plus

/-- Every phrase begins with a token of its kinds. -/
theorem Spells.head {j : Bool} {p : Phrase} {ts : List Token} {m : p.Meaning} (h : Spells j p ts m) :
    ∃ t rest, ts = t :: rest ∧ startsPhrase p t.kind = true := by
  induction h with
  | sum _ _ _ ih | product _ _ _ ih | beside _ _ _ _ ih | power _ _ _ ih | more _ _ _ ih =>
    obtain ⟨t, rest, rfl, ht⟩ := ih
    exact ⟨t, _, rfl, ht⟩
  | term _ ih | factor _ ih | base _ ih | one _ ih => exact ih
  | unsigned _ ih =>
    obtain ⟨t, rest, rfl, ht⟩ := ih
    refine ⟨t, rest, rfl, ?_⟩
    simp only [startsPhrase, Bool.or_eq_true] at ht ⊢
    exact .inl (.inl ht)
  | neg ht | pos ht | number ht | constant ht | var ht | call ht | function ht | literal ht | group ht
  | vector ht | interval ht =>
    exact ⟨_, _, rfl, by rw [ht]; rfl⟩

theorem Spells.ne_nil {j : Bool} {p : Phrase} {ts : List Token} {m : p.Meaning} (h : Spells j p ts m) :
    ts ≠ [] := by
  obtain ⟨t, rest, rfl, _⟩ := h.head
  simp

theorem Spells.length_pos {j : Bool} {p : Phrase} {ts : List Token} {m : p.Meaning}
    (h : Spells j p ts m) : 0 < ts.length := List.length_pos_iff.2 h.ne_nil

/-- Whether a kind occurs in phrases: the end of the text and a character that begins no token do not. -/
def isMeaningful : Kind → Bool
  | .finish | .bad => false
  | _ => true

theorem isMeaningful_of_sumSign {k : Kind} {op : BinOp} (h : (k, op) ∈ sumSigns) :
    isMeaningful k = true := by
  rw [← sumOp?_eq_some_iff] at h
  cases k <;> first | rfl | cases h

theorem isMeaningful_of_productSign {k : Kind} {op : BinOp} (h : (k, op) ∈ productSigns) :
    isMeaningful k = true := by
  rw [← productOp?_eq_some_iff] at h
  cases k <;> first | rfl | cases h

/-- Neither the end of the text nor a character that begins no token belongs to a phrase. -/
theorem Spells.meaningful {j : Bool} {p : Phrase} {ts : List Token} {m : p.Meaning}
    (h : Spells j p ts m) : ∀ t ∈ ts, isMeaningful t.kind = true := by
  induction h with
  | sum _ ht _ iha ihb =>
    simp only [List.forall_mem_append, List.forall_mem_cons]
    exact ⟨iha, isMeaningful_of_sumSign ht, ihb⟩
  | product _ ht _ iha ihb =>
    simp only [List.forall_mem_append, List.forall_mem_cons]
    exact ⟨iha, isMeaningful_of_productSign ht, ihb⟩
  | beside _ _ _ _ iha ihb => exact List.forall_mem_append.2 ⟨iha, ihb⟩
  | _ => simp_all [isMeaningful, or_imp]

end ExprCalculus.Grammar
