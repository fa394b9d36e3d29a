import ExprCalculus.Proofs.CommandLine.Bindings
import ExprCalculus.Proofs.Evaluation.Acyclic
import ExprCalculus.Proofs.Evaluation.Origin

/-!
# The command line contains its failures

A run that prints no algebraic form ends with an exit code, whatever its arguments are, as long as no name of its
bindings leads to itself: a failure is dealt with, unless it is one of a few of evaluation.  These are integers and
powers of intervals beyond the range of machine numbers, and the complex powers of an interval whose lower bound is not
a number, for which the test of the bound means nothing.  They are those of the integers and intervals that the run
calculates with.

* `Evaluates`, `Escape` - what a computation evaluates on the way, and the failures of it that the program ends with.
* `perform_ends` - what a computation fails with, step by step.
* `run_contained` - what a run ends with.
* `run_escapes_undefined` - the square root of an interval whose lower bound is not a number.
-/

namespace ExprCalculus.CommandLine

open Progress Failure

/-! ## What is evaluated -/

/-- The store and the expression that a computation evaluates. -/
inductive Prepared (gs : List Given) (text : String) (args : List String) : Store → Expr → Prop
  | intro {limit : Nat} {parsed derived e : Expr} {s : Store} (hlimit : limitOf gs = .ok limit)
    (hparsed : (readExpression (!isGiven gs .plainProducts) text).result = .ok parsed)
    (hbound : (bindArguments (!isGiven gs .plainProducts) Store.initial args).result = .ok s)
    (hderived : (differentiated gs parsed).result = .ok derived)
    (hsimplified : (simplified gs limit derived).result = .ok e) : Prepared gs text args s e

/-- The evaluation of an expression in the domain that is asked for. -/
def evaluation (gs : List Given) (s : Store) (e : Expr) : Evaluation Float :=
  ⟨defaultDepth, .domain (domainOf gs), s.env Float 0, e⟩

/-- The evaluations on the way of the one that a computation comes to if all names are bound: of its expression, of the
parts of it, and of what names are bound to. -/
inductive Evaluates (gs : List Given) (text : String) (args : List String) : Evaluation Float → Prop
  | intro {s : Store} {e : Expr} {v : Evaluation Float} (hprepared : Prepared gs text args s e)
    (hbound : allBound s 0 e = true) (hreaches : (evaluation gs s e).Reaches v) : Evaluates gs text args v

/-- The failures that the program ends with, each of an evaluation `v` on the way. -/
inductive Escape (gs : List Given) (text : String) (args : List String) : Failure → Prop
  /-- an integer out of range, which `v` calculates with as it is written -/
  | integer {v : Evaluation Float} {n : Int} (hv : Evaluates gs text args v) (hn : v.Converts (.int n))
    (hlarge : intToFloat? n = none) : Escape gs text args (.evaluation (.fault .tooLarge))
  /-- a power out of range of an interval, which `v` raises to it -/
  | power {v : Evaluation Float} {i : Interval Float} {x : Float} (hdomain : domainOf gs = .interval)
    (hv : Evaluates gs text args v) (hraises : v.Raises i x) (hpow : i.pow x = .error .outOfRange) :
    Escape gs text args (.evaluation (.fault .outOfRange))
  /-- a complex power of an interval, which `v` raises to it and of which only the upper bound is a number -/
  | complex {v : Evaluation Float} {i : Interval Float} {x : Float} {f : Fault Float}
    (hdomain : domainOf gs = .interval) (hv : Evaluates gs text args v) (hraises : v.Raises i x)
    (hpow : i.pow x = .error f) (hf : f = .complexPower ∨ f = .complexOutOfRange) (hlo : i.lo.isNaN = true)
    (hhi : i.hi < 0) : Escape gs text args (.evaluation (.fault f))
  /-- too many names that lead to names, for as many bindings -/
  | depth {v : Evaluation Float} (hv : Evaluates gs text args v) (hdepth : v.depth = 0)
    (hargs : defaultDepth ≤ args.length) : Escape gs text args (.evaluation .tooDeep)

theorem Escape.escapes {gs : List Given} {text : String} {args : List String} {e : Failure}
    (h : Escape gs text args e) : e.escapes = true := by
  cases h with
  | integer | power | depth => rfl
  | complex _ _ _ _ hf => obtain rfl | rfl := hf <;> rfl

/-- Apart from complex powers and from depth, the failures that the program ends with are overflows. -/
theorem Escape.label {gs : List Given} {text : String} {args : List String} {e : Failure}
    (h : Escape gs text args e) :
    e.label = "OverflowError" ∨ e = .evaluation (.fault .complexPower) ∨ e = .evaluation .tooDeep := by
  cases h with
  | integer | power => exact .inl rfl
  | complex _ _ _ _ hf =>
    obtain rfl | rfl := hf
    · exact .inr (.inl rfl)
    · exact .inl rfl
  | depth => exact .inr (.inr rfl)

/-- Intervals come up only where they are asked for. -/
theorem Evaluates.domain_eq {gs : List Given} {text : String} {args : List String} {v : Evaluation Float}
    (h : Evaluates gs text args v) (hv : v.tag = .domain .interval) : domainOf gs = .interval := by
  obtain ⟨_, _, hreaches⟩ := h
  obtain ⟨d, hd, hinterval⟩ := hreaches.domain rfl
  rw [hv] at hd
  cases hd
  exact hinterval rfl

/-! ## Evaluation -/

section

variable {n : Nat} {s : Store}

/-- Names that lead to themselves left aside, the depth is exceeded only with as many bindings. -/
theorem le_of_tooDeep (hs : RootScope n s) (hacyclic : (s.env Float 0).Acyclic) {e : Expr} {tag : Tag}
    (h : evaluate tag (s.env Float 0) e = .error .tooDeep) : defaultDepth ≤ n := by
  by_contra hn
  obtain ⟨names, hlength, hnames⟩ := hs.exists_vars (α := Float)
  have huntied (x : String) (hx : x ∉ names) : x ∈ (s.env Float 0).untied := fun b hb => hx (hnames x b hb).1
  have hmeets : (Expectation.kind (·.isMismatch = false) False).Meets tag (evaluate tag (s.env Float 0) e) := by
    refine evaluateUpTo_meets_of_acyclic (Expectation.matching_kept False) (fun _ _ => trivial) hs.funcs ?_ hacyclic
      huntied ?_ e tag
    · exact fun x b hb => (hnames x b hb).2
    · omega
  rw [h] at hmeets
  exact hmeets

theorem isContained_of_ordinary {f : Fault Float} (h : f.IsOrdinary) : IsContained (.evaluation (.fault f)) := by
  have hescapes : Failure.escapes (.evaluation (.fault f)) = (f.faultClass = .overflow || f.faultClass = .kind) := rfl
  have hlabel : Failure.label (.evaluation (.fault f)) = f.faultClass.label := rfl
  unfold IsContained
  obtain h | h := h
  · rw [hescapes, hlabel, h]
    exact ⟨rfl, show "ValueError" ∈ kindsDealtWith by decide⟩
  · rw [hescapes, hlabel, h]
    exact ⟨rfl, show "ZeroDivisionError" ∈ kindsDealtWith by decide⟩

variable {gs : List Given} {text : String} {args : List String} {e : Expr}

/-- A fault on the way is dealt with, or is one that the program ends with. -/
theorem fault_contained_or_escape {v : Evaluation Float} (hv : Evaluates gs text args v) {f : Fault Float}
    (hf : v.Faults f) : IsContained (.evaluation (.fault f)) ∨ Escape gs text args (.evaluation (.fault f)) := by
  cases hf with
  | ordinary hordinary => exact .inl (isContained_of_ordinary hordinary)
  | @numeral m hm hlarge =>
    cases m with
    | int n => exact .inr (.integer hv hm hlarge)
    | float y => cases hlarge
  | @power i x _ hraises hpow =>
    have hdomain : domainOf gs = .interval := hv.domain_eq hraises.tag_eq
    have hfault := Interval.pow_sound hraises.ordered x
    rw [hpow] at hfault
    obtain hordinary | rfl | ⟨hf, hlo, hhi⟩ := hfault
    · exact .inl (isContained_of_ordinary hordinary)
    · exact .inr (.power hdomain hv hraises hpow)
    · exact .inr (.complex hdomain hv hraises hpow hf hlo hhi)

/-- An error of the evaluation is dealt with, or is one that the program ends with. -/
theorem contained_or_escape (hs : RootScope args.length s) (hacyclic : (s.env Float 0).Acyclic)
    (hprepared : Prepared gs text args s e) (hbound : allBound s 0 e = true) {x : EvalError Float}
    (hx : (evaluation gs s e).outcome = .error x) :
    IsContained (.evaluation x) ∨ Escape gs text args (.evaluation x) := by
  cases x with
  | unboundVariable => exact .inl ⟨rfl, show "UnboundVariableError" ∈ kindsDealtWith by decide⟩
  | unboundFunction => exact .inl ⟨rfl, show "UnboundFunctionError" ∈ kindsDealtWith by decide⟩
  | unsupported => exact .inl ⟨rfl, show "UnsupportedDomainError" ∈ kindsDealtWith by decide⟩
  | composeDimension | notVector => exact .inl ⟨rfl, show "UnsupportedDimensionError" ∈ kindsDealtWith by decide⟩
  | invalidTag name => exact absurd hx (Evaluation.outcome_ne_invalidTag rfl name)
  | tooDeep =>
    obtain ⟨v, hreaches, hdepth⟩ := Evaluation.exists_depth_eq_zero_of_error hx
    exact .inr (.depth (.intro hprepared hbound hreaches) hdepth (le_of_tooDeep hs hacyclic hx))
  | fault f =>
    obtain ⟨v, hreaches, hfaults⟩ := Evaluation.exists_faults_of_error hx
    exact fault_contained_or_escape (.intro hprepared hbound hreaches) hfaults

end

/-! ## The steps of a computation -/

section

variable {gs : List Given} {text : String} {args : List String} {s : Store} {e : Expr}

theorem limitOf_ends (gs : List Given) : (done (limitOf gs)).Ends (fun _ => True) IsContained := by
  have hvalue : "ValueError" ∈ kindsDealtWith := by decide
  unfold limitOf
  split
  · trivial
  · split
    · exact ⟨rfl, hvalue⟩
    · rename_i n _
      cases passLimit (.num (.int n)) with
      | ok limit => trivial
      | error e => exact ⟨rfl, hvalue⟩

theorem differentiated_ends (gs : List Given) (e : Expr) :
    (differentiated gs e).Ends (fun _ => True) IsContained := by
  unfold differentiated
  split
  · trivial
  · trivial
  · rename_i x _ _
    refine (ends_note _ _).bind fun _ _ _ => ?_
    cases e.derive x with
    | ok d => trivial
    | error x => exact ⟨rfl, show "UnsupportedOperationError" ∈ kindsDealtWith by decide⟩

theorem simplified_ends (gs : List Given) (limit : Nat) (e : Expr) :
    (simplified gs limit e).Ends (fun _ => True) IsContained := by
  unfold simplified
  split
  · trivial
  · trivial

/-- The value is shown, or there is an error that is dealt with or that the program ends with. -/
theorem showValue_ends (hs : RootScope args.length s) (hacyclic : (s.env Float 0).Acyclic)
    (hprepared : Prepared gs text args s e) :
    (showValue (domainOf gs) s e).Ends (fun _ => True) fun e => e.IsContained ∨ Escape gs text args e := by
  unfold showValue
  split
  · rename_i hbound
    refine (ends_note _ _).bind fun _ _ _ => ?_
    split
    · rename_i x hx
      exact ends_stop (contained_or_escape hs hacyclic hprepared hbound hx)
    · exact ends_print _
  · trivial

/-- A computation fails with what is dealt with, or with what the program ends with, one step after the other. -/
theorem perform_ends (halgebra : isGiven gs .algebra = false)
    (hacyclic : ∀ s, (bindArguments (!isGiven gs .plainProducts) Store.initial args).result = .ok s →
      (s.env Float 0).Acyclic) :
    (perform gs text args).Ends (fun _ => True) fun e => e.IsContained ∨ Escape gs text args e := by
  have dealtWith {α : Type} {P : α → Prop} {p : Progress α} (h : p.Ends P IsContained) :
      p.Ends P fun e => e.IsContained ∨ Escape gs text args e := h.imp fun _ => .inl
  unfold perform
  refine (dealtWith (limitOf_ends gs)).bind fun limit hlimit _ => ?_
  refine (dealtWith (readExpression_ends _ text)).bind fun parsed hparsed _ => ?_
  refine (dealtWith (bindArguments_ends args rootScope_initial)).bind fun s hbound hs => ?_
  refine (dealtWith (differentiated_ends gs parsed)).bind fun derived hderived _ => ?_
  refine (dealtWith (simplified_ends gs limit derived)).bind fun e hsimplified _ => ?_
  refine (ends_print e.text).bind fun _ _ _ => ?_
  rw [Nat.zero_add] at hs
  simp only [halgebra]
  exact showValue_ends hs (hacyclic s hbound) (.intro hlimit hparsed hbound hderived hsimplified)

/-- A computation comes down to the value that is shown. -/
theorem perform_of_prepared (h : Prepared gs text args s e) (halgebra : isGiven gs .algebra = false) :
    (perform gs text args).result = (showValue (domainOf gs) s e).result := by
  cases h with
  | intro hlimit hparsed hbound hderived hsimplified =>
    unfold perform
    rw [result_bind hlimit, result_bind hparsed, result_bind hbound, result_bind hderived, result_bind hsimplified,
      result_bind rfl]
    simp only [halgebra]
    rfl

theorem showValue_of_error {d : Domain} {x : EvalError Float} (hbound : allBound s 0 e = true)
    (hx : evaluate (.domain d) (s.env Float 0) e = .error x) : (showValue d s e).result = .error (.evaluation x) := by
  unfold showValue
  rw [if_pos hbound, result_bind rfl]
  simp only [hx]
  rfl

end

/-! ## Failures on the way -/

section

variable {gs : List Given} {text : String} {args : List String}

/-- A computation fails with any error on the way. -/
theorem Evaluates.perform_of_error {v : Evaluation Float} (h : Evaluates gs text args v) {x : EvalError Float}
    (hx : v.outcome = .error x) (halgebra : isGiven gs .algebra = false) :
    (perform gs text args).result = .error (.evaluation x) := by
  obtain ⟨hprepared, hbound, hreaches⟩ := h
  rw [perform_of_prepared hprepared halgebra]
  exact showValue_of_error hbound (hreaches.outcome_of_error hx)

/-- The failures that the program ends with do come up. -/
theorem Escape.perform {e : Failure} (h : Escape gs text args e) (halgebra : isGiven gs .algebra = false) :
    (perform gs text args).result = .error e := by
  cases h with
  | integer hv hn hlarge => exact hv.perform_of_error (hn.outcome hlarge) halgebra
  | power _ hv hraises hpow => exact hv.perform_of_error (hraises.outcome_of_error hpow) halgebra
  | complex _ hv hraises hpow => exact hv.perform_of_error (hraises.outcome_of_error hpow) halgebra
  | depth hv hdepth => exact hv.perform_of_error (Evaluation.outcome_of_depth_eq_zero hdepth) halgebra

end

/-! ## Runs -/

section

variable {argv args : List String} {gs : List Given} {text : String}

/-- The options, the expression and the bindings of a run that is asked for neither help nor the version. -/
def Computes (argv : List String) (gs : List Given) (text : String) (args : List String) : Prop :=
  readOptions argv = .ok (gs, text :: args) ∧ isGiven gs .help = false ∧ isGiven gs .version = false

theorem run_of_computes (h : Computes argv gs text args) :
    run argv = reportOn (isGiven gs .debug) (perform gs text args) := by
  obtain ⟨hoptions, hhelp, hversion⟩ := h
  simp [run, hoptions, hhelp, hversion]

/-- Without a computation the exit code says whether the arguments can be read. -/
theorem run_of_not_computes (h : ∀ gs text args, ¬Computes argv gs text args) :
    (run argv).ending = .exit 0 ∨ (run argv).ending = .exit 2 := by
  unfold run
  split
  · exact .inr rfl
  · rename_i gs args hoptions
    split
    · exact .inl rfl
    split
    · exact .inl rfl
    · rename_i hhelp hversion
      cases args with
      | nil => exact .inr rfl
      | cons text args => exact absurd ⟨hoptions, by simpa using hhelp, by simpa using hversion⟩ (h gs text args)

theorem ending_of_ok {debug : Bool} {p : Progress Unit} (h : p.result = .ok ()) :
    (reportOn debug p).ending = .exit 0 := by
  simp [reportOn, h]

theorem ending_of_error {debug : Bool} {p : Progress Unit} {e : Failure} (h : p.result = .error e) :
    (reportOn debug p).ending = if e.escapes then .escaped e else .exit 1 := by
  simp only [reportOn, h]
  split <;> rfl

end

/-- The bindings of a run have no cycle. -/
def Untangled (argv : List String) : Prop :=
  ∀ gs text args s, Computes argv gs text args →
    (bindArguments (!isGiven gs .plainProducts) Store.initial args).result = .ok s → (s.env Float 0).Acyclic

/-! ## A square root of an interval -/

/-- The square root of a name. -/
def squareRoot : Expr := .power (.var "x") (.number (.float 0.5))

/-- The arguments for the square root of an interval up to minus one. -/
def squareRootOver (lo : String) : List String := ["-i", "(x ^ 0.5)", "x=" ++ lo ++ ":(-1)"]

/-- The binding of the interval. -/
def upToMinusOne (lo : Expr) : Store := ⟨[⟨none, [("x", .interval lo (.int (-1)))], []⟩]⟩

section

variable {lo : String} {a : Expr}

theorem computes_squareRootOver (lo : String) :
    Computes (squareRootOver lo) [⟨.interval, false, ""⟩] "(x ^ 0.5)" ["x=" ++ lo ++ ":(-1)"] := ⟨rfl, rfl, rfl⟩

/-- The interval from a bound that can be read, to minus one. -/
structure ReadsBound (lo : String) (a : Expr) : Prop where
  printable : Grammar.Printable a
  text : a.text = lo
  closed : a.freeVars = []
  equals : splitFirst '=' ("x=" ++ lo ++ ":(-1)").toList = (['x'], some (lo ++ ":(-1)").toList)
  colon : splitFirst ':' (lo ++ ":(-1)").toList = (lo.toList, some "(-1)".toList)

theorem ReadsBound.bindArguments (h : ReadsBound lo a) :
    (bindArguments true Store.initial ["x=" ++ lo ++ ":(-1)"]).result = .ok (upToMinusOne a) := by
  have hminusOne : (readExpression true "(-1)").result = .ok (.int (-1)) :=
    readExpression_text (.int (-1)) (by decide +kernel)
  exact bindArguments_interval h.equals h.colon (readExpression_text h.printable h.text) hminusOne

theorem ReadsBound.prepared (h : ReadsBound lo a) :
    Prepared [⟨.interval, false, ""⟩] "(x ^ 0.5)" ["x=" ++ lo ++ ":(-1)"] (upToMinusOne a) squareRoot := by
  have hprintable : Grammar.Printable squareRoot :=
    .binary _ (.var ⟨by decide, by decide, by decide⟩) (.number (by decide +kernel))
  exact .intro rfl (readExpression_text hprintable (by decide +kernel)) h.bindArguments rfl rfl

theorem ReadsBound.untangled (h : ReadsBound lo a) : Untangled (squareRootOver lo) := by
  rintro gs text args s ⟨hoptions, -, -⟩ hbound
  rw [(computes_squareRootOver lo).1] at hoptions
  cases hoptions
  have hs : s = upToMinusOne a := Except.ok.inj (hbound.symm.trans h.bindArguments)
  refine Env.acyclic_of_closed fun x b hb => ?_
  subst hs
  have hroot : (upToMinusOne a).scopes = [⟨none, [("x", .interval a (.int (-1)))], []⟩] := rfl
  have hget := lookup_of_vars hb
  rw [lookup_of_root hroot] at hget
  have hmem := Names.mem_of_get? hget
  rw [List.mem_singleton, Prod.mk.injEq] at hmem
  rw [hmem.2]
  simp [Expr.freeVars, h.closed]

/-- What the square root of the interval fails with. -/
theorem ReadsBound.fails (h : ReadsBound lo a) {x : EvalError Float}
    (hx : evaluate (.domain .interval) ((upToMinusOne a).env Float 0) squareRoot = .error x) :
    (perform [⟨.interval, false, ""⟩] "(x ^ 0.5)" ["x=" ++ lo ++ ":(-1)"]).result = .error (.evaluation x) := by
  rw [perform_of_prepared h.prepared rfl]
  exact showValue_of_error rfl hx

end

/-! ## All runs -/

/-- **The command line contains its failures.**  A run without an algebraic form, no name of whose bindings leads to
itself, ends with the exit code 0, 1 or 2, or else with a failure of an evaluation on its way: an integer that this
calculates with, or a power of an interval that it raises, is out of range, the power of an interval whose lower bound
is not a number is complex, or there are too many bindings to lead through.  Every other failure, of reading the
expression, of a binding, of the limit, of differentiating or of evaluating, is of a kind that is dealt with, and gives
the exit code 1.  A run with such an evaluation on its way does end with the failure. -/
theorem run_contained (argv : List String)
    (halgebra : ∀ gs args, readOptions argv = .ok (gs, args) → isGiven gs .algebra = false)
    (hbindings : Untangled argv) :
    ((∃ code ≤ 2, (run argv).ending = .exit code) ∨
      ∃ gs text args e, Computes argv gs text args ∧ (run argv).ending = .escaped e ∧ Escape gs text args e ∧
        (e.label = "OverflowError" ∨ e = .evaluation (.fault .complexPower) ∨ e = .evaluation .tooDeep)) ∧
    (∀ gs text args e, Computes argv gs text args → (perform gs text args).result = .error e →
      (e.IsContained ∧ (run argv).ending = .exit 1) ∨ (Escape gs text args e ∧ (run argv).ending = .escaped e)) ∧
    ∀ gs text args e, Computes argv gs text args → Escape gs text args e → (run argv).ending = .escaped e := by
  have ends {gs : List Given} {text : String} {args : List String} (h : Computes argv gs text args) :
      (perform gs text args).Ends (fun _ => True) fun e => e.IsContained ∨ Escape gs text args e :=
    perform_ends (halgebra gs _ h.1) fun s hs => hbindings gs text args s h hs
  have escaping {gs : List Given} {text : String} {args : List String} {e : Failure} (h : Computes argv gs text args)
      (hescape : Escape gs text args e) : (run argv).ending = .escaped e := by
    rw [run_of_computes h, ending_of_error (hescape.perform (halgebra gs _ h.1)), hescape.escapes]
    rfl
  have failing {gs : List Given} {text : String} {args : List String} {e : Failure} (h : Computes argv gs text args)
      (he : (perform gs text args).result = .error e) :
      (e.IsContained ∧ (run argv).ending = .exit 1) ∨ (Escape gs text args e ∧ (run argv).ending = .escaped e) := by
    obtain hcontained | hescape := (ends h).of_error he
    · refine .inl ⟨hcontained, ?_⟩
      rw [run_of_computes h, ending_of_error he, hcontained.1]
      rfl
    · exact .inr ⟨hescape, escaping h hescape⟩
  refine ⟨?_, fun gs text args e => failing, fun gs text args e => escaping⟩
  by_cases hcomputes : ∃ gs text args, Computes argv gs text args
  · obtain ⟨gs, text, args, h⟩ := hcomputes
    cases hresult : (perform gs text args).result with
    | ok a =>
      have hending : (run argv).ending = .exit 0 := by rw [run_of_computes h, ending_of_ok hresult]
      exact .inl ⟨0, by omega, hending⟩
    | error e =>
      obtain ⟨_, hending⟩ | ⟨hescape, hending⟩ := failing h hresult
      · exact .inl ⟨1, by omega, hending⟩
      · exact .inr ⟨gs, text, args, e, h, hending, hescape, hescape.label⟩
  · obtain hending | hending := run_of_not_computes fun gs text args h => hcomputes ⟨gs, text, args, h⟩
    · exact .inl ⟨0, by omega, hending⟩
    · exact .inl ⟨2, by omega, hending⟩

/-- From minus one the square root is refused: the lower bound is below zero. -/
theorem run_contained_belowZero :
    Untangled (squareRootOver "(-1)") ∧ (run (squareRootOver "(-1)")).ending = .exit 1 := by
  have hreads : ReadsBound "(-1)" (.int (-1)) :=
    ⟨.int (-1), by decide +kernel, rfl, by decide, by decide⟩
  obtain ⟨f, hf, hclass⟩ : ∃ f : Fault Float,
      evaluate (.domain .interval) ((upToMinusOne (.int (-1))).env Float 0) squareRoot = .error (.fault f) ∧
        f.faultClass = .value := by
    refine ⟨_, rfl, rfl⟩
  have halgebra (gs : List Given) (args : List String) (h : readOptions (squareRootOver "(-1)") = .ok (gs, args)) :
      isGiven gs .algebra = false := by
    rw [(computes_squareRootOver "(-1)").1] at h
    cases h
    rfl
  refine ⟨hreads.untangled, ?_⟩
  obtain ⟨-, hfailing, -⟩ := run_contained (squareRootOver "(-1)") halgebra hreads.untangled
  obtain ⟨_, hending⟩ | ⟨hescape, _⟩ := hfailing _ _ _ _ (computes_squareRootOver "(-1)") (hreads.fails hf)
  · exact hending
  · have hescapes := hescape.escapes
    simp [Failure.escapes, hclass] at hescapes

/-- From what is not a number the square root is asked for, and is complex. -/
theorem run_escapes_undefined :
    squareRootOver "(0 / 0)" = ["-i", "(x ^ 0.5)", "x=(0 / 0):(-1)"] ∧
    Computes (squareRootOver "(0 / 0)") [⟨.interval, false, ""⟩] "(x ^ 0.5)" ["x=(0 / 0):(-1)"] ∧
    Untangled (squareRootOver "(0 / 0)") ∧
    ∃ e, (run (squareRootOver "(0 / 0)")).ending = .escaped e ∧ e.label = "TypeError" := by
  have hreads : ReadsBound "(0 / 0)" (.divide (.int 0) (.int 0)) :=
    ⟨.binary _ (.int 0) (.int 0), by decide +kernel, rfl, by decide, by decide⟩
  have hevaluates : evaluate (.domain .interval) ((upToMinusOne (.divide (.int 0) (.int 0))).env Float 0) squareRoot =
      .error (.fault .complexPower) := by
    rfl
  have hcomputes := computes_squareRootOver "(0 / 0)"
  refine ⟨rfl, hcomputes, hreads.untangled, .evaluation (.fault .complexPower), ?_, rfl⟩
  rw [run_of_computes hcomputes, ending_of_error (hreads.fails hevaluates)]
  rfl

end ExprCalculus.CommandLine
