import ExprCalculus.Derivative
import ExprCalculus.Proofs.Simplify.Hereditary

/-!
# Properties that a derivative keeps

A derivative is put together from parts of the tree, from derivatives of its parts and from integers; the only other
literal it makes is one less than an exponent.  A property that a tree shares with its parts (`Hereditary`) and that
allows for this (`Differential`) is kept by every derivative there is (`Differential.derive`).
-/

namespace ExprCalculus.Expr

/-- A hereditary property that one less than a literal has with it, that vectors of one length share, and that lets
the derivative of an outer function be wrapped up. -/
structure Differential (P : Expr → Prop) : Prop extends Hereditary P where
  pred : ∀ {n : Num}, P (.number n) → P (.number n.pred)
  vector_of : ∀ {es ds : List Expr}, P (.vector es) → ds.length = es.length → (∀ d ∈ ds, P d) → P (.vector ds)
  derived : ∀ {f g : Expr}, P (.compose f g) → ∀ d, P d → P (.custom ("d" ++ g.functionName) g.args d)

/-! ## Outcomes -/

theorem both_eq_ok {x y : Except DeriveError Expr} {f : Expr → Expr → Expr} {d : Expr} (h : both x y f = .ok d) :
    ∃ a b, x = .ok a ∧ y = .ok b ∧ d = f a b := by
  unfold both at h
  split at h
  · cases h
  split at h
  · cases h
  · cases h
    exact ⟨_, _, rfl, rfl, rfl⟩

theorem map_eq_ok {x : Except DeriveError Expr} {f : Expr → Expr} {d : Expr} (h : x.map f = .ok d) :
    ∃ a, x = .ok a ∧ d = f a := by
  cases x with
  | error e => cases h
  | ok a =>
    cases h
    exact ⟨a, rfl, rfl⟩

theorem length_of_deriveAll {v : String} {es ds : List Expr} (h : deriveAll v es = .ok ds) :
    ds.length = es.length := by
  induction es generalizing ds with
  | nil =>
    cases h
    rfl
  | cons e es ih =>
    unfold deriveAll at h
    split at h
    · cases h
    split at h
    · cases h
    · rename_i ds' htail
      cases h
      rw [List.length_cons, List.length_cons, ih htail]

namespace Differential

variable {P : Expr → Prop} {a b da db : Expr}

/-! ## Rules -/

theorem inArgument (h : Differential P) (ha : P a) : P a.inArgument := by
  unfold Expr.inArgument
  split
  · exact ha
  · exact ha
  · exact h.fixed ha
  · exact ha

theorem applyTo (h : Differential P) (fn : Fn) (ha : P a) : P (applyTo fn a) := h.apply.mpr (h.inArgument ha)

theorem productRule (h : Differential P) (ha : P a) (hb : P b) (hda : P da) (hdb : P db) :
    P (productRule a b da db) :=
  h.binary.mpr ⟨h.binary.mpr ⟨ha, hdb⟩, h.binary.mpr ⟨hda, hb⟩⟩

theorem quotientRule (h : Differential P) (ha : P a) (hb : P b) (hda : P da) (hdb : P db) :
    P (quotientRule a b da db) :=
  h.binary.mpr ⟨h.binary.mpr ⟨h.binary.mpr ⟨hda, hb⟩, h.binary.mpr ⟨ha, hdb⟩⟩, h.binary.mpr ⟨hb, hb⟩⟩

theorem powerRule (h : Differential P) (ha : P a) (hb : P b) (hda : P da) : P (powerRule a b da) := by
  refine h.binary.mpr ⟨h.binary.mpr ⟨hb, h.binary.mpr ⟨ha, ?_⟩⟩, hda⟩
  split
  · exact h.pred hb
  · exact h.binary.mpr ⟨hb, h.int 1⟩

theorem exponentialRule (h : Differential P) (ha : P a) (hb : P b) (hdb : P db) : P (exponentialRule a b db) :=
  h.binary.mpr ⟨h.binary.mpr ⟨h.binary.mpr ⟨ha, hb⟩, h.applyTo .ln ha⟩, hdb⟩

theorem lnRule (h : Differential P) (ha : P a) (hda : P da) : P (lnRule a da) :=
  h.binary.mpr ⟨hda, h.argumentValue ha⟩

theorem generalPowerRule (h : Differential P) (ha : P a) (hb : P b) (hda : P da) (hdb : P db) :
    P (generalPowerRule a b da db) := by
  have hln := h.applyTo .ln ha
  exact h.binary.mpr ⟨h.applyTo .exp (h.binary.mpr ⟨hb, hln⟩),
    h.productRule hb hln hdb (h.lnRule (h.inArgument ha) hda)⟩

theorem sinRule (h : Differential P) (ha : P a) (hda : P da) : P (sinRule a da) :=
  h.binary.mpr ⟨h.applyTo .cos (h.argumentValue ha), hda⟩

theorem cosRule (h : Differential P) (ha : P a) (hda : P da) : P (cosRule a da) :=
  h.binary.mpr ⟨h.neg.mpr (h.applyTo .sin (h.argumentValue ha)), hda⟩

theorem tanRule (h : Differential P) (ha : P a) (hda : P da) : P (tanRule a da) := by
  have harg := h.inArgument (h.argumentValue ha)
  exact h.quotientRule (h.apply.mpr harg) (h.apply.mpr harg) (h.sinRule harg hda) (h.cosRule harg hda)

theorem logRule (h : Differential P) (hb : P b) (ha : P a) (hdb : P db) (hda : P da) : P (logRule b a db da) := by
  have harg := h.inArgument (h.argumentValue ha)
  have hbase := h.inArgument (h.argumentValue hb)
  exact h.quotientRule (h.apply.mpr harg) (h.apply.mpr hbase) (h.lnRule harg hda) (h.lnRule hbase hdb)

theorem rootRule (h : Differential P) (n : Nat) (ha : P a) (hda : P da) : P (rootRule n a da) :=
  h.powerRule (h.argumentValue ha) (h.binary.mpr ⟨h.int 1, h.int n⟩) hda

theorem circleRoot (h : Differential P) (ha : P a) : P (circleRoot a) :=
  h.applyTo .sqrt (h.binary.mpr ⟨h.int 1, h.binary.mpr ⟨h.argumentValue ha, h.int 2⟩⟩)

theorem functionRule (h : Differential P) (fn : Fn) (ha : P a) (hda : P da) : P (functionRule fn a da) := by
  cases fn with
  | exp => exact h.binary.mpr ⟨h.apply.mpr ha, hda⟩
  | ln => exact h.lnRule ha hda
  | sqrt => exact h.rootRule 2 ha hda
  | sin => exact h.sinRule ha hda
  | cos => exact h.cosRule ha hda
  | tan => exact h.tanRule ha hda
  | arcsin => exact h.binary.mpr ⟨h.binary.mpr ⟨h.int 1, h.circleRoot ha⟩, hda⟩
  | arccos => exact h.binary.mpr ⟨h.binary.mpr ⟨h.neg.mpr (h.int 1), h.circleRoot ha⟩, hda⟩
  | arctan =>
    have hsquare : P (power a.argumentValue (int 2)) := h.binary.mpr ⟨h.argumentValue ha, h.int 2⟩
    exact h.binary.mpr ⟨h.binary.mpr ⟨h.int 1, h.binary.mpr ⟨h.int 1, hsquare⟩⟩, hda⟩
  | abs => exact h.binary.mpr ⟨h.applyTo .sgn (h.argumentValue ha), hda⟩
  | ceil | floor | sgn => exact h.int 0

/-! ## Trees -/

theorem derivedFunction {d : Expr} (hd : P d) (hw : P (.custom ("d" ++ b.functionName) b.args d)) :
    P (derivedFunction b d) := by
  unfold Expr.derivedFunction
  split
  · exact hd
  · exact hw

/-- The derivative of an operation, from those of its operands. -/
theorem derive_binary (h : Differential P) {v : String} {op : BinOp} {d : Expr} (ha : P a) (hb : P b)
    (hda : ∀ d, Expr.derive v a = .ok d → P d) (hdb : ∀ d, Expr.derive v b = .ok d → P d)
    (hd : Expr.derive v (.binary op a b) = .ok d) : P d := by
  cases op with
  | plus | minus =>
    obtain ⟨x, y, hx, hy, rfl⟩ := both_eq_ok hd
    exact h.binary.mpr ⟨hda x hx, hdb y hy⟩
  | times =>
    obtain ⟨y, x, hy, hx, rfl⟩ := both_eq_ok hd
    exact h.productRule ha hb (hda x hx) (hdb y hy)
  | divide =>
    obtain ⟨x, y, hx, hy, rfl⟩ := both_eq_ok hd
    exact h.quotientRule ha hb (hda x hx) (hdb y hy)
  | modulo =>
    obtain ⟨x, y, hx, hy, rfl⟩ := both_eq_ok hd
    have hquotient : P (Expr.applyTo .floor (divide a b)) := h.applyTo .floor (h.binary.mpr ⟨ha, hb⟩)
    exact h.binary.mpr ⟨hda x hx, h.binary.mpr ⟨hquotient, hdb y hy⟩⟩
  | power =>
    rw [Expr.derive] at hd
    split at hd
    · obtain ⟨x, hx, rfl⟩ := map_eq_ok hd
      exact h.powerRule ha hb (hda x hx)
    split at hd
    · obtain ⟨y, hy, rfl⟩ := map_eq_ok hd
      exact h.exponentialRule ha hb (hdb y hy)
    · obtain ⟨x, y, hx, hy, rfl⟩ := both_eq_ok hd
      exact h.generalPowerRule ha hb (hda x hx) (hdb y hy)

mutual

/-- **A derivative keeps every differential property.** -/
theorem derive (h : Differential P) (v : String) : ∀ (e d : Expr), P e → Expr.derive v e = .ok d → P d
  | .number _, d, _, hd => by
    cases hd
    exact h.int 0
  | .var x, d, _, hd => by
    cases hd
    exact h.int _
  | .fixed e, d, he, hd => h.derive v e d (h.fixed he) hd
  | .vector es, d, he, hd => by
    rw [Expr.derive] at hd
    split at hd
    · cases hd
    · rename_i ds hds
      cases hd
      exact h.vector_of he (length_of_deriveAll hds) (h.deriveEach v es ds (h.vector he) hds)
  | .interval a b, d, _, hd => by cases hd
  | .binary op a b, d, he, hd => by
    obtain ⟨ha, hb⟩ := h.binary.mp he
    exact h.derive_binary ha hb (fun d => h.derive v a d ha) (fun d => h.derive v b d hb) hd
  | .neg a, d, he, hd => by
    obtain ⟨da, hda, rfl⟩ := map_eq_ok hd
    exact h.neg.mpr (h.derive v a da (h.neg.mp he) hda)
  | .apply fn a, d, he, hd => by
    rw [Expr.derive] at hd
    split at hd
    · cases hd
      exact h.int 0
    · obtain ⟨da, hda, rfl⟩ := map_eq_ok hd
      exact h.functionRule fn (h.apply.mp he) (h.derive v a da (h.apply.mp he) hda)
  | .log base a, d, he, hd => by
    obtain ⟨hbase, ha⟩ := h.log.mp he
    obtain ⟨da, dbase, hda, hdbase, rfl⟩ := both_eq_ok hd
    exact h.logRule hbase ha (h.derive v base dbase hbase hdbase) (h.derive v a da ha hda)
  | .root n a, d, he, hd => by
    obtain ⟨ha, -⟩ := h.root he
    obtain ⟨da, hda, rfl⟩ := map_eq_ok hd
    exact h.rootRule n ha (h.derive v a da ha hda)
  | .custom _ _ body, d, he, hd => by
    obtain ⟨hbody, hcustom⟩ := h.custom he
    obtain ⟨db, hdb, rfl⟩ := map_eq_ok hd
    exact hcustom db (h.derive v body db hbody hdb)
  | .compose f g, d, he, hd => by
    obtain ⟨hf, hg, hcompose⟩ := h.compose he
    obtain ⟨dg, df, hdg, hdf, rfl⟩ := both_eq_ok hd
    have hdg' := h.derive v g dg hg hdg
    have houter := derivedFunction hdg' (h.derived he dg hdg')
    exact h.binary.mpr ⟨hcompose f _ hf houter, h.derive v f df hf hdf⟩
  | .call _, d, _, hd => by cases hd

theorem deriveEach (h : Differential P) (v : String) : ∀ es ds : List Expr, (∀ e ∈ es, P e) →
    deriveAll v es = .ok ds → ∀ d ∈ ds, P d
  | [], ds, _, hds => by
    cases hds
    simp
  | e :: es, ds, hes, hds => by
    unfold deriveAll at hds
    split at hds
    · cases hds
    rename_i d hd
    split at hds
    · cases hds
    rename_i ds' hds'
    cases hds
    have hhead := h.derive v e d (hes e List.mem_cons_self) hd
    have htail := h.deriveEach v es ds' (fun e he => hes e (List.mem_cons_of_mem _ he)) hds'
    exact List.forall_mem_cons.mpr ⟨hhead, htail⟩

end

end Differential

end ExprCalculus.Expr
