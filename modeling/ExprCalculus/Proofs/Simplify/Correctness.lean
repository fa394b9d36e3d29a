import ExprCalculus.Proofs.Simplify.Reals

/-!
# Simplification keeps the exact meaning

One lemma for each rule says that the rule keeps the value of a node whose operands have values; the values of
simplified operands then carry through the tree.

* `simplifyBinary_value`, `simplifyNeg_value`, `simplifyFunction_value` — the rules.
* `simplify_value` — a tree with a value has the same value when simplified.
-/

namespace ExprCalculus.PartialCalculus

open ExprCalculus.Expr

variable {K : Type*} [Field K] [LinearOrder K] {M : PartialCalculus K} {ρ : String → Option K}

/-! ## Literals -/

theorem literal?_of_isValue {n : Num} {k : Int} (h : n.isValue k = true) : M.literal? n = some (k : K) := by
  have h1 : n ≠ .euler := fun hn => Num.euler_not_isValue k (hn ▸ h)
  have h2 : n ≠ Num.euler.negate := fun hn => Num.negate_euler_not_isValue k (hn ▸ h)
  rw [literal?, if_neg h1, if_neg h2, Num.isValue_iff.mp h, Option.map_some, Rat.cast_intCast]

theorem literal?_negate {n : Num} {u : K} (h : M.literal? n = some u) : M.literal? n.negate = some (-u) := by
  by_cases h1 : n = .euler
  · subst h1
    rw [literal?, if_pos rfl, Option.some_inj] at h
    rw [literal?, if_neg (by decide), if_pos rfl, h]
  · by_cases h2 : n = Num.euler.negate
    · subst h2
      rw [literal?, if_neg h1, if_pos rfl, Option.some_inj] at h
      rw [literal?, if_pos (by decide), ← h, neg_neg]
    · rw [literal?, if_neg h1, if_neg h2] at h
      obtain ⟨q, hq, rfl⟩ := Option.map_eq_some_iff.mp h
      have hnn := Num.negate_negate hq
      have h3 : n.negate ≠ .euler := fun h => h2 (by rw [← hnn, h])
      have h4 : n.negate ≠ Num.euler.negate := fun h => h1 (by rw [← hnn, h]; decide)
      rw [literal?, if_neg h3, if_neg h4, Num.rational?_negate hq, Option.map_some, Rat.cast_neg]

theorem value?_of_isValue {a : Expr} {k : Int} (h : a.isValue k = true) : M.value? ρ a = some (k : K) := by
  unfold Expr.isValue at h
  split at h
  · exact literal?_of_isValue h
  · cases h

theorem eq_of_isValue {a : Expr} {k : Int} {u : K} (h : a.isValue k = true) (ha : M.value? ρ a = some u) :
    u = k := by
  rw [value?_of_isValue h, Option.some_inj] at ha
  exact ha.symm

@[simp] theorem value?_int (k : Int) : M.value? ρ (int k) = some (k : K) :=
  value?_of_isValue (Num.isValue_iff.mpr (Num.rational?_int k))

@[simp] theorem value?_argumentValue (a : Expr) : M.value? ρ a.argumentValue = M.value? ρ a := by
  unfold argumentValue
  split <;> rfl

/-! ## Nodes -/

theorem value?_binary_iff {op : BinOp} {a b : Expr} {z : K} : M.value? ρ (.binary op a b) = some z ↔
    ∃ u w, M.value? ρ a = some u ∧ M.value? ρ b = some w ∧ M.operation? op u w = some z := by
  show ((M.value? ρ a).bind fun u => (M.value? ρ b).bind fun w => M.operation? op u w) = some z ↔ _
  simp [Option.bind_eq_some_iff]

theorem value?_neg_iff {a : Expr} {z : K} : M.value? ρ (.neg a) = some z ↔ M.value? ρ a = some (-z) := by
  show ((M.value? ρ a).map fun u => -u) = some z ↔ _
  rw [Option.map_eq_some_iff]
  constructor
  · rintro ⟨u, hu, rfl⟩
    rw [hu, neg_neg]
  · intro h
    exact ⟨-z, h, neg_neg z⟩

theorem value?_apply_iff {fn : Fn} {a : Expr} {z : K} : M.value? ρ (.apply fn a) = some z ↔
    ∃ u, M.value? ρ a = some u ∧ M.function? fn u = some z := by
  show (M.value? ρ a).bind (M.function? fn) = some z ↔ _
  rw [Option.bind_eq_some_iff]

section

variable {a b : Expr} {u w z : K}

theorem value?_binary (op : BinOp) (ha : M.value? ρ a = some u) (hb : M.value? ρ b = some w) :
    M.value? ρ (.binary op a b) = M.operation? op u w := by
  show ((M.value? ρ a).bind fun u => (M.value? ρ b).bind fun w => M.operation? op u w) = _
  rw [ha, hb]
  rfl

theorem value?_neg (ha : M.value? ρ a = some u) : M.value? ρ (.neg a) = some (-u) := by
  rw [value?_neg_iff, ha, neg_neg]

theorem value?_apply (fn : Fn) (ha : M.value? ρ a = some u) :
    M.value? ρ (.apply fn a) = M.function? fn u := by
  show (M.value? ρ a).bind (M.function? fn) = _
  rw [ha]
  rfl

/-! ## Rules -/

theorem simplifySum_value (ha : M.value? ρ a = some u) (hb : M.value? ρ b = some w) :
    M.value? ρ (simplifySum a b) = some (u + w) := by
  unfold simplifySum
  split
  · rename_i h
    rw [hb, eq_of_isValue h ha, Int.cast_zero, zero_add]
  · split
    · rename_i h
      rw [ha, eq_of_isValue h hb, Int.cast_zero, add_zero]
    · split
      · rw [value?_binary .minus ha (value?_neg_iff.mp hb), operation?, sub_neg_eq_add]
      · rename_i n _
        split
        · have hn : M.value? ρ (.number n.negate) = some (-w) := literal?_negate hb
          rw [value?_binary .minus ha hn, operation?, sub_neg_eq_add]
        · exact value?_binary .plus ha hb
      · exact value?_binary .plus ha hb

theorem simplifyDifference_value (ha : M.value? ρ a = some u) (hb : M.value? ρ b = some w) :
    M.value? ρ (simplifyDifference a b) = some (u - w) := by
  unfold simplifyDifference
  split
  · rename_i h
    rw [ha, eq_of_isValue h hb, Int.cast_zero, sub_zero]
  · split
    · rename_i h
      rw [value?_neg hb, eq_of_isValue h ha, Int.cast_zero, zero_sub]
    · split
      · rw [value?_binary .plus ha (value?_neg_iff.mp hb), operation?, ← sub_eq_add_neg]
      · rename_i n _
        split
        · have hn : M.value? ρ (.number n.negate) = some (-w) := literal?_negate hb
          rw [value?_binary .plus ha hn, operation?, ← sub_eq_add_neg]
        · exact value?_binary .minus ha hb
      · exact value?_binary .minus ha hb

theorem simplifyProduct_value (ha : M.value? ρ a = some u) (hb : M.value? ρ b = some w) :
    M.value? ρ (simplifyProduct a b) = some (u * w) := by
  unfold simplifyProduct
  split
  · rename_i h
    have hzero : u * w = 0 := by
      obtain h | h := Bool.or_eq_true_iff.mp h
      · rw [eq_of_isValue h ha, Int.cast_zero, zero_mul]
      · rw [eq_of_isValue h hb, Int.cast_zero, mul_zero]
    rw [hzero, value?_int, Int.cast_zero]
  · split
    · rename_i h
      rw [hb, eq_of_isValue h ha, Int.cast_one, one_mul]
    · split
      · rename_i h
        rw [ha, eq_of_isValue h hb, Int.cast_one, mul_one]
      · split
        · rw [value?_binary .times (value?_neg_iff.mp ha) (value?_neg_iff.mp hb), operation?, neg_mul_neg]
        · rw [value?_neg (value?_binary .times (value?_neg_iff.mp ha) hb), neg_mul, neg_neg]
        · rw [value?_neg (value?_binary .times ha (value?_neg_iff.mp hb)), mul_neg, neg_neg]
        · exact value?_binary .times ha hb

theorem value?_quotient (ha : M.value? ρ a = some u) (hb : M.value? ρ b = some w) (hw : w ≠ 0) :
    M.value? ρ (divide a b) = some (u / w) := by
  rw [value?_binary .divide ha hb, operation?, if_neg hw]

theorem simplifyQuotient_value (ha : M.value? ρ a = some u) (hb : M.value? ρ b = some w) (hw : w ≠ 0) :
    M.value? ρ (simplifyQuotient a b) = some (u / w) := by
  have hw' : -w ≠ 0 := neg_ne_zero.mpr hw
  unfold simplifyQuotient
  split
  · rename_i h
    rw [eq_of_isValue h ha, value?_int, Int.cast_zero, zero_div]
  · split
    · rename_i h
      rw [ha, eq_of_isValue h hb, Int.cast_one, div_one]
    · split
      · rw [value?_quotient (value?_neg_iff.mp ha) (value?_neg_iff.mp hb) hw', neg_div_neg_eq]
      · rw [value?_neg (value?_quotient (value?_neg_iff.mp ha) hb hw), neg_div, neg_neg]
      · rw [value?_neg (value?_quotient ha (value?_neg_iff.mp hb) hw'), div_neg, neg_neg]
      · exact value?_quotient ha hb hw

theorem simplifyPower_value (ha : M.value? ρ a = some u) (hb : M.value? ρ b = some w)
    (hz : M.pow u w = some z) : M.value? ρ (simplifyPower a b) = some z := by
  unfold simplifyPower
  split
  · rename_i h
    rw [eq_of_isValue h hb, Int.cast_zero, M.pow_zero] at hz
    rw [value?_int, Int.cast_one, hz]
  · split
    · rename_i h
      rw [eq_of_isValue h hb, Int.cast_one, M.pow_one] at hz
      rw [ha, hz]
    · split
      · rename_i h
        rw [eq_of_isValue h ha, Int.cast_one, M.one_pow] at hz
        rw [value?_int, Int.cast_one, hz]
      · rw [value?_binary .power ha hb, operation?, hz]

/-- An operation on simplified operands. -/
theorem simplifyBinary_value {op : BinOp} (ha : M.value? ρ a = some u) (hb : M.value? ρ b = some w)
    (hz : M.operation? op u w = some z) : M.value? ρ (simplifyBinary op a b) = some z := by
  cases op with
  | plus => exact (simplifySum_value ha hb).trans hz
  | minus => exact (simplifyDifference_value ha hb).trans hz
  | times => exact (simplifyProduct_value ha hb).trans hz
  | divide =>
    simp only [operation?] at hz
    split at hz
    · cases hz
    · rename_i hw
      exact (simplifyQuotient_value ha hb hw).trans hz
  | power => exact simplifyPower_value ha hb hz
  | modulo => exact (value?_binary .modulo ha hb).trans hz

/-- A negation of a simplified operand. -/
theorem simplifyNeg_value (ha : M.value? ρ a = some u) : M.value? ρ (simplifyNeg a) = some (-u) := by
  unfold simplifyNeg
  split
  · exact value?_neg_iff.mp ha
  · split
    · rename_i h
      rw [ha, eq_of_isValue h ha, Int.cast_zero, neg_zero]
    · exact value?_neg ha

theorem simplifyExp_value (ha : M.value? ρ a = some u) (hz : M.exp u = some z) :
    M.value? ρ (simplifyExp a) = some z := by
  unfold simplifyExp
  split
  · rename_i h
    rw [eq_of_isValue h ha, Int.cast_zero, M.exp_zero] at hz
    rw [value?_int, Int.cast_one, hz]
  · split
    · rename_i h
      rw [eq_of_isValue h ha, Int.cast_one, M.exp_one] at hz
      rw [value?, literal?, if_pos rfl, hz]
    · split
      · -- the exponential of a multiple of a logarithm
        obtain ⟨y, v, hy, hv, hmul⟩ := value?_binary_iff.mp ha
        obtain ⟨x, hx, hln⟩ := value?_apply_iff.mp hv
        rw [operation?, Option.some_inj] at hmul
        rw [← hmul] at hz
        have hpow := M.exp_mul_ln (M.ln_pos hln) hln hz
        rw [value?_binary .power ((value?_argumentValue _).trans hx) hy, operation?, hpow]
      · exact (value?_apply .exp ha).trans hz

theorem simplifySqrt_value (ha : M.value? ρ a = some u) (hz : M.sqrt u = some z)
    (hsq : M.SquareOfNonneg ρ a) : M.value? ρ (simplifySqrt a) = some z := by
  unfold simplifySqrt
  split
  · rename_i b n
    split
    · rename_i h
      obtain ⟨x, k, hx, hk, hpow⟩ := value?_binary_iff.mp ha
      rw [operation?, eq_of_isValue h hk, Int.cast_two] at hpow
      have hroot := M.sqrt_square (hsq b n x rfl h hx) hpow
      rw [hx, ← hroot, hz]
    · exact (value?_apply .sqrt ha).trans hz
  · split
    · rename_i h
      obtain h | h := Bool.or_eq_true_iff.mp h
      · rw [eq_of_isValue h ha, Int.cast_zero, M.sqrt_zero] at hz
        rw [ha, eq_of_isValue h ha, Int.cast_zero, hz]
      · rw [eq_of_isValue h ha, Int.cast_one, M.sqrt_one] at hz
        rw [ha, eq_of_isValue h ha, Int.cast_one, hz]
    · exact (value?_apply .sqrt ha).trans hz

/-- A rounding function keeps what is rounded already. -/
theorem simplifyRounding_value {fn : Fn} (hfn : fn = .ceil ∨ fn = .floor) (ha : M.value? ρ a = some u)
    (hz : M.function? fn u = some z) : M.value? ρ (simplifyRounding fn a) = some z := by
  have hfix : ∀ n : ℤ, M.function? fn n = some (n : K) := by
    obtain rfl | rfl := hfn
    · exact M.ceil_intCast
    · exact M.floor_intCast
  unfold simplifyRounding
  split
  · obtain ⟨x, -, hx⟩ := value?_apply_iff.mp ha
    obtain ⟨n, rfl⟩ := M.ceil_integer hx
    rw [ha, ← hfix n, hz]
  · obtain ⟨x, -, hx⟩ := value?_apply_iff.mp ha
    obtain ⟨n, rfl⟩ := M.floor_integer hx
    rw [ha, ← hfix n, hz]
  · exact (value?_apply fn ha).trans hz

/-- A function that has a known value at one argument. -/
theorem value?_known {fn : Fn} {k : Int} {known : Expr} (ha : M.value? ρ a = some u)
    (hz : M.function? fn u = some z) (hknown : u = k → M.value? ρ known = M.function? fn u) :
    M.value? ρ (if a.isValue k then known else .apply fn a) = some z := by
  split
  · rename_i h
    rw [hknown (eq_of_isValue h ha), hz]
  · exact (value?_apply fn ha).trans hz

/-- A default function of a simplified argument. -/
theorem simplifyFunction_value {fn : Fn} (ha : M.value? ρ a = some u) (hz : M.function? fn u = some z)
    (hsq : fn = .sqrt → M.SquareOfNonneg ρ a) : M.value? ρ (simplifyFunction fn a) = some z := by
  cases fn with
  | exp => exact simplifyExp_value ha hz
  | ln => exact value?_known ha hz fun hu => by simp [hu, function?, M.ln_one]
  | sqrt => exact simplifySqrt_value ha hz (hsq rfl)
  | sin => exact value?_known ha hz fun hu => by simp [ha, hu, function?, M.sin_zero]
  | cos => exact value?_known ha hz fun hu => by simp [hu, function?, M.cos_zero]
  | tan => exact value?_known ha hz fun hu => by simp [ha, hu, function?, M.tan_zero]
  | ceil => exact simplifyRounding_value (.inl rfl) ha hz
  | floor => exact simplifyRounding_value (.inr rfl) ha hz
  | arcsin | arccos | arctan | abs | sgn => exact (value?_apply _ ha).trans hz

end

/-! ## Trees -/

/-- **Simplification keeps the value of a tree.** -/
theorem simplify_value (M : PartialCalculus K) (ρ : String → Option K) {t : Expr} {z : K}
    (h : M.value? ρ t = some z) (hroots : M.RootsOfNonneg ρ t) : M.value? ρ (simplify t) = some z := by
  induction t using value?.induct generalizing z with
  | case1 n => exact h
  | case2 x => exact h
  | case3 e ih => exact ih h hroots
  | case4 op a b iha ihb =>
    obtain ⟨u, w, hu, hw, hz⟩ := value?_binary_iff.mp h
    exact simplifyBinary_value (iha hu hroots.1) (ihb hw hroots.2) hz
  | case5 a ih =>
    have hu := ih (value?_neg_iff.mp h) hroots
    rw [simplify, simplifyNeg_value hu, neg_neg]
  | case6 fn a ih =>
    obtain ⟨u, hu, hz⟩ := value?_apply_iff.mp h
    exact simplifyFunction_value (ih hu hroots.1) hz hroots.2
  | case7 base a ihb iha =>
    obtain ⟨u, hu, h⟩ := Option.bind_eq_some_iff.mp h
    obtain ⟨w, hw, hz⟩ := Option.bind_eq_some_iff.mp h
    simp [simplify, value?, ihb hu hroots.1, iha hw hroots.2, hz]
  | case8 n a ih =>
    obtain ⟨u, hu, hz⟩ := Option.bind_eq_some_iff.mp h
    simp [simplify, value?, ih hu hroots, hz]
  | case9 e =>
    simp [value?] at h

/-- The value of `sqrt (x ^ 2) + -exp (3 * ln y)`, which becomes `x - y ^ 3`, at five and two. -/
theorem simplify_value_of_reals :
    Reals.calculus.value? (fun v => if v = "x" then some 5 else if v = "y" then some 2 else none)
      (simplify (plus (.apply .sqrt (power (.var "x") (int 2)))
        (.neg (.apply .exp (times (int 3) (.apply .ln (.var "y"))))))) = some (-3) := by
  set ρ : String → Option ℝ := fun v => if v = "x" then some 5 else if v = "y" then some 2 else none
  have hx : Reals.calculus.value? ρ (.var "x") = some 5 := rfl
  have hy : Reals.calculus.value? ρ (.var "y") = some 2 := rfl
  have hsquare : Reals.calculus.value? ρ (power (.var "x") (int 2)) = some 25 :=
    value?_binary_iff.mpr ⟨5, _, hx, value?_int 2, Reals.only_eq_some.mpr ⟨.inl (by norm_num), by norm_num⟩⟩
  have hsqrt : Reals.calculus.value? ρ (.apply .sqrt (power (.var "x") (int 2))) = some 5 :=
    value?_apply_iff.mpr ⟨25, hsquare,
      Reals.only_eq_some.mpr ⟨by norm_num, by norm_num [Real.sqrt_eq_iff_mul_self_eq]⟩⟩
  have hln : Reals.calculus.value? ρ (.apply .ln (.var "y")) = some (Real.log 2) :=
    value?_apply_iff.mpr ⟨2, hy, Reals.only_eq_some.mpr ⟨two_pos, rfl⟩⟩
  have hexp : Reals.calculus.value? ρ (.apply .exp (times (int 3) (.apply .ln (.var "y")))) = some 8 := by
    refine value?_apply_iff.mpr ⟨_, value?_binary .times (value?_int 3) hln, congrArg some ?_⟩
    rw [mul_comm, Real.exp_mul, Real.exp_log two_pos]
    norm_num
  refine simplify_value Reals.calculus ρ ?_ ⟨⟨⟨trivial, trivial⟩, fun _ b n u hb _ hu => ?_⟩, ?_⟩
  · exact value?_binary_iff.mpr ⟨5, -8, hsqrt, value?_neg hexp, by norm_num [operation?]⟩
  · have hs : simplify (power (.var "x") (int 2)) = power (.var "x") (int 2) := rfl
    rw [hs, Expr.binary.injEq] at hb
    obtain ⟨-, rfl, -⟩ := hb
    rw [hx, Option.some_inj] at hu
    norm_num [← hu]
  · simp [RootsOfNonneg]

end ExprCalculus.PartialCalculus
