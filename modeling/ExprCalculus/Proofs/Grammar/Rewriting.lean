import ExprCalculus.Proofs.Derivative.Closure
import ExprCalculus.Proofs.Grammar.Positions
import ExprCalculus.Proofs.Grammar.RoundTrip
import ExprCalculus.Proofs.Number.Difference
import ExprCalculus.Proofs.Simplify.Settling

/-!
# What is made from a text can be written and read back

A text whose literals can be written is read as a printable tree, and being printable with names from a given list is
a property that derivatives and passes of simplification keep.

* `printableOver_differential` — the property is shared by a tree and its parts, whatever the rules make of them.
* `printable_of_parse` — what a text is read as is printable, unless a literal cannot be written.
* `rewritten_read_back` — any number of derivatives and passes gives a printable tree, which its text is read as.
-/

namespace ExprCalculus

namespace Expr

mutual

/-- The names in a tree, of variables and of calls. -/
@[simp]
def names : Expr → List String
  | .number _ => []
  | .var x | .call x => [x]
  | .fixed e | .neg e | .apply _ e | .root _ e => names e
  | .vector es => namesOf es
  | .interval a b | .binary _ a b | .log a b | .compose a b => names a ++ names b
  | .custom _ params body => namesOf params ++ names body

/-- The names in several trees. -/
@[simp]
def namesOf : List Expr → List String
  | [] => []
  | e :: es => names e ++ namesOf es

end

theorem mem_namesOf {x : String} {es : List Expr} : x ∈ namesOf es ↔ ∃ e ∈ es, x ∈ e.names := by
  induction es with
  | nil => simp
  | cons e es ih => simp [ih]

/-- A derivative, or a pass of simplification. -/
inductive Rewrites : Expr → Expr → Prop
  | derive {e d : Expr} (v : String) (h : derive v e = .ok d) : Rewrites e d
  | simplify (e : Expr) : Rewrites e e.simplify

end Expr

namespace Grammar

/-! ## Printable trees over given names -/

/-- A printable tree whose names are among the given ones. -/
def PrintableOver (names : List String) (e : Expr) : Prop := Printable e ∧ ∀ x ∈ e.names, x ∈ names

variable {names : List String}

theorem Printable.int (k : Int) : Printable (.int k) := .number ⟨by simp [Num.exactValue?], by simp⟩

theorem printableOver_int (k : Int) : PrintableOver names (.int k) := ⟨.int k, by simp⟩

theorem printableOver_vector {es : List Expr} :
    PrintableOver names (.vector es) ↔ es ≠ [] ∧ ∀ e ∈ es, PrintableOver names e := by
  constructor
  · rintro ⟨h, hnames⟩
    cases h with
    | vector hne h => exact ⟨hne, fun e he => ⟨h e he, fun x hx => hnames x (Expr.mem_namesOf.mpr ⟨e, he, hx⟩)⟩⟩
  · rintro ⟨hne, h⟩
    refine ⟨.vector hne fun e he => (h e he).1, fun x hx => ?_⟩
    obtain ⟨e, he, hx⟩ := Expr.mem_namesOf.mp hx
    exact (h e he).2 x hx

/-- A node of two parts. -/
theorem printableOver_pair {e a b : Expr} (hnames : e.names = a.names ++ b.names)
    (h : Printable e ↔ Printable a ∧ Printable b) :
    PrintableOver names e ↔ PrintableOver names a ∧ PrintableOver names b := by
  rw [PrintableOver, h, hnames, List.forall_mem_append]
  exact and_and_and_comm

theorem printableOver_differential : Expr.Differential (PrintableOver names) where
  int := printableOver_int
  euler := ⟨.number (by decide), by simp⟩
  negate hn h := by
    cases h.1 with
    | number hw => exact ⟨.number (Num.text_of_negative hw hn).2.1, by simp⟩
  fixed h := by cases h.1
  vector h := (printableOver_vector.mp h).2
  vector_map f h hf := by
    refine printableOver_vector.mpr ⟨by simpa using (printableOver_vector.mp h).1, ?_⟩
    simpa using hf
  interval := printableOver_pair rfl
    ⟨fun h => by cases h with | interval ha hb => exact ⟨ha, hb⟩, fun h => .interval h.1 h.2⟩
  binary := printableOver_pair rfl
    ⟨fun h => by cases h with | binary _ ha hb => exact ⟨ha, hb⟩, fun h => .binary _ h.1 h.2⟩
  neg := and_congr_left' ⟨fun h => by cases h with | neg ha => exact ha, .neg⟩
  apply := and_congr_left' ⟨fun h => by cases h with | apply _ ha => exact ha, .apply _⟩
  log := printableOver_pair rfl
    ⟨fun h => by cases h with | log ha hb => exact ⟨ha, hb⟩, fun h => .log h.1 h.2⟩
  root := by
    rintro n a ⟨h, hnames⟩
    cases h with
    | root hn h => exact ⟨⟨h, hnames⟩, fun b hb => ⟨.root hn hb.1, hb.2⟩⟩
  custom h := by cases h.1
  compose h := by cases h.1
  wrap h := by cases h.1
  pred h := by
    cases h.1 with
    | number hw => exact ⟨.number (Num.writable_pred hw), by simp⟩
  vector_of h hlength hds := by
    refine printableOver_vector.mpr ⟨fun hnil => ?_, hds⟩
    rw [hnil, List.length_nil, eq_comm, List.length_eq_zero_iff] at hlength
    exact (printableOver_vector.mp h).1 hlength
  derived h := by cases h.1

theorem PrintableOver.rewrites {e r : Expr} (h : PrintableOver names e) (hr : e.Rewrites r) :
    PrintableOver names r := by
  cases hr with
  | derive v hd => exact printableOver_differential.derive v e r h hd
  | simplify => exact printableOver_differential.toHereditary.simplify e h

/-- Any number of steps. -/
theorem PrintableOver.rewritten {e r : Expr} (h : PrintableOver names e)
    (hr : Relation.ReflTransGen Expr.Rewrites e r) : PrintableOver names r := by
  induction hr with
  | refl => exact h
  | tail _ hstep ih => exact ih.rewrites hstep

/-! ## Trees read from a text -/

open Text

/-- All the trees that a phrase stands for. -/
def Phrase.All (P : Expr → Prop) : (p : Phrase) → p.Meaning → Prop
  | .items, es => ∀ e ∈ es, P e
  | .sum, e | .product, e | .unary, e | .power, e | .primary, e => P e

/-- A tree that is printable once its literals can be written. -/
def Readable (e : Expr) : Prop := (∀ v ∈ e.literals, v.Writable) → Printable e

/-- The tokens of a text that are names are names by themselves. -/
theorem scan_name_of_tokens {text : List Char} {ts rest : List Token} (h : tokens text = ts ++ rest)
    (hts : ∀ t ∈ ts, isMeaningful t.kind = true) : ∀ t ∈ ts, t.kind = .name → scan t.text = some (.name, t.text, []) := by
  intro t ht hk
  obtain ⟨front, back, rfl⟩ := List.append_of_mem ht
  rw [List.append_assoc] at h
  obtain ⟨before, after, -, -, hbegins⟩ := tokensFrom_cut h fun u hu => hts u (List.mem_append_left _ hu)
  cases hbegins with
  | token hscan =>
    rw [hk] at hscan
    exact scan_alone (scan_eq_some_iff.mp hscan).2
  | bad hbad => rw [hk] at hbad; cases hbad
  | finish hfinish => rw [hk] at hfinish; cases hfinish

theorem isName_ofList {text : List Char} (h : scan text = some (.name, text, [])) (hn : ∀ v, (text, v) ∉ constants) :
    IsName (String.ofList text) := by
  refine ⟨by simpa using h, ?_, ?_⟩
  · intro he
    have : text = "e".toList := by rw [← he, String.toList_ofList]
    exact hn .euler (by simp [constants, this])
  · intro hpi
    have : text = "pi".toList := by rw [← hpi, String.toList_ofList]
    exact hn .pi (by simp [constants, this])

theorem Readable.binary {a b : Expr} (op : BinOp) (ha : Readable a) (hb : Readable b) :
    Readable (.binary op a b) := by
  intro h
  obtain ⟨h1, h2⟩ := List.forall_mem_append.mp h
  exact .binary op (ha h1) (hb h2)

theorem Readable.applied {name : List Char} {as : List Expr} {e : Expr} (h : Applied name as e)
    (has : ∀ a ∈ as, Readable a) : Readable e := by
  intro hl
  cases h with
  | decimalLog a =>
    have ha := has a (by simp)
    exact .log (.int 10) (ha fun v hv => hl v (by simp [hv]))
  | log b a =>
    obtain ⟨h1, h2⟩ := List.forall_mem_append.mp hl
    exact .log (has b (by simp) h1) (has a (by simp) h2)
  | root n a hn => exact .root hn (has a (by simp) hl)
  | function _ fn a _ => exact .apply fn (has a (by simp) hl)

/-- What tokens spell is printable, the literals apart. -/
theorem Spells.readable {j : Bool} {p : Phrase} {ts : List Token} {m : p.Meaning} (h : Spells j p ts m)
    (hts : ∀ t ∈ ts, t.kind = .name → scan t.text = some (.name, t.text, [])) : p.All Readable m := by
  induction h with
  | term _ ih | factor _ ih | unsigned _ ih | base _ ih => exact ih hts
  | sum _ _ _ iha ihb | product _ _ _ iha ihb | power _ _ _ iha ihb =>
    refine .binary _ (iha fun t ht => hts t ?_) (ihb fun t ht => hts t ?_) <;> simp [ht]
  | beside _ _ _ _ iha ihb =>
    refine .binary _ (iha fun t ht => hts t ?_) (ihb fun t ht => hts t ?_) <;> simp [ht]
  | neg _ _ ih => exact fun hl => .neg (ih (fun t ht => hts t (List.mem_cons_of_mem _ ht)) hl)
  | pos _ _ ih => exact ih fun t ht => hts t (List.mem_cons_of_mem _ ht)
  | number _ | constant _ _ | literal _ _ _ _ => exact fun hl => .number (hl _ (by simp))
  | var ht hn => exact fun _ => .var (isName_ofList (hts _ (by simp) ht) hn)
  | call ht hn _ _ => exact fun _ => .call (isName_ofList (hts _ (by simp) ht) hn)
  | function _ _ _ _ ha ih => exact .applied ha (ih fun t ht => hts t (by simp [ht]))
  | group _ _ _ _ ih => exact ih fun t ht => hts t (by simp [ht])
  | vector _ has _ ih =>
    intro hl
    have hall := ih fun t ht => hts t (by simp [ht])
    refine .vector ?_ fun e he => hall e he fun v hv => hl v (Expr.mem_literalsOf.mpr ⟨e, he, hv⟩)
    cases has <;> simp
  | interval _ _ _ _ _ iha ihb =>
    intro hl
    obtain ⟨h1, h2⟩ := List.forall_mem_append.mp hl
    exact .interval (iha (fun t ht => hts t (by simp [ht])) h1) (ihb (fun t ht => hts t (by simp [ht])) h2)
  | one _ ih =>
    intro e he
    rw [List.mem_singleton] at he
    subst he
    exact ih hts
  | more _ _ _ iha ihas =>
    have ha := iha fun t ht => hts t (by simp [ht])
    have has := ihas fun t ht => hts t (by simp [ht])
    exact List.forall_mem_cons.mpr ⟨ha, has⟩

/-- What a text is read as is printable, unless a literal cannot be written. -/
theorem printable_of_parse {j : Bool} {text : String} {e : Expr} (h : parse j text = .ok e)
    (hl : ∀ v ∈ e.literals, v.Writable) : Printable e := by
  obtain ⟨ts, p, htokens, hs⟩ := spellsText_of_parse h
  exact hs.readable (scan_name_of_tokens htokens hs.meaningful) hl

theorem Printable.spellsText (j : Bool) {e : Expr} (h : Printable e) : SpellsText j e.text e := by
  obtain ⟨ts, p, hts, hspell⟩ := h.printed.operand [] Numeral.breaks_nil 0
  have hstop : tokensFrom p [] = [⟨.finish, [], p⟩] := tokensFrom_stop rfl
  rw [List.append_nil, hstop] at hts
  exact ⟨ts, p, hts, hspell.sum⟩

/-- **What is made from a text can be written and read back.**  If the literals of what a text is read as can be
written, then any number of derivatives and of passes gives a printable tree, whose names are names of the text, and
the text of that tree is read as the tree, whether or not operands side by side are a product. -/
theorem rewritten_read_back {j : Bool} {text : String} {e r : Expr} (h : parse j text = .ok e)
    (hl : ∀ v ∈ e.literals, v.Writable) (hr : Relation.ReflTransGen Expr.Rewrites e r) :
    Printable r ∧ (∀ x ∈ r.names, x ∈ e.names) ∧ ∀ j', parse j' r.text = .ok r := by
  have he : PrintableOver e.names e := ⟨printable_of_parse h hl, fun _ hx => hx⟩
  obtain ⟨hprintable, hnames⟩ := he.rewritten hr
  exact ⟨hprintable, hnames, fun j' => parse_of_spellsText (hprintable.spellsText j')⟩

/-- The derivative of `x^1.0`, whose exponent is the difference of two equal machine numbers, after a pass. -/
theorem rewritten_read_back_power :
    parse true "x^1.0" = .ok (.power (.var "x") (.number (.float 1.0))) ∧
      ∃ d, Expr.derive "x" (.power (.var "x") (.number (.float 1.0))) = .ok d ∧ Printable d.simplify ∧
        (∀ x ∈ d.simplify.names, x = "x") ∧ parse false d.simplify.text = .ok d.simplify := by
  have htokens : tokens "x^1.0".toList =
      [⟨.name, ['x'], 0⟩] ++ [⟨.power, ['^'], 1⟩, ⟨.number, ['1', '.', '0'], 2⟩] ++ [⟨.finish, [], 5⟩] := by
    have hx : scan ("x^1.0".toList.dropWhile Text.isBlank) = some (.name, ['x'], "^1.0".toList) := by decide
    have hpower : scan ("^1.0".toList.dropWhile Text.isBlank) = some (.power, ['^'], "1.0".toList) := by decide
    have hnumber : scan ("1.0".toList.dropWhile Text.isBlank) = some (.number, ['1', '.', '0'], []) := by decide
    rw [tokens, tokensFrom_scan hx, tokensFrom_scan hpower, tokensFrom_scan hnumber, tokensFrom_stop rfl]
    rfl
  have hone : numeralValue ['1', '.', '0'] = .float 1.0 := by decide +kernel
  have hexponent : Spells true .primary [⟨.number, ['1', '.', '0'], 2⟩] (.number (numeralValue ['1', '.', '0'])) :=
    .number rfl
  have hbase : Spells true .primary [⟨.name, ['x'], 0⟩] (.var "x") := .var rfl (by simp [constants])
  rw [hone] at hexponent
  have hparse : parse true "x^1.0" = .ok (.power (.var "x") (.number (.float 1.0))) :=
    parse_of_spellsText ⟨_, _, htokens, .term (.factor (.unsigned (.power hbase rfl (.unsigned (.base hexponent)))))⟩
  have hd : Expr.derive "x" (.power (.var "x") (.number (.float 1.0))) = .ok (Expr.powerRule (.var "x")
      (.number (.float 1.0)) (.int 1)) := rfl
  obtain ⟨hprintable, hnames, hread⟩ := rewritten_read_back hparse (by simp; decide)
    (.tail (.single (.derive "x" hd)) (.simplify _))
  exact ⟨hparse, _, hd, hprintable, by simpa using hnames, hread false⟩

end Grammar

end ExprCalculus
