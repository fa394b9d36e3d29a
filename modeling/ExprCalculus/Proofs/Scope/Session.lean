import ExprCalculus.Evaluation.Basic
import ExprCalculus.Scope.Build
import ExprCalculus.Scope.Store
import ExprCalculus.Value.Real
import Mathlib.Data.List.Induction
import Mathlib.Logic.Relation

/-!
# Sessions: the nearest scope and the latest binding count

A session opens scopes within scopes and binds names in any scope opened so far, in any order; some of its
requests are refused.  What a name means afterwards is said here in two ways: by the store, which keeps one
table for each scope and walks from a scope outward, and by the session's log, which only lists what was
done and knows nothing of tables.

## Results

* `Store.Records` - the store is a view of the log: as many scopes, each with the same scope around it, each
  name bound to what it was bound to last; kept by every request (`Records.after`) and so by every session
  (`records_session`).
* `find_iff_resolves` - a lookup gives what the log resolves the name to.
* `find_after_ne` - a request changes a lookup only if it binds that sort of name in a scope which the
  looking scope is, or lies within.
* `resolution_of_session` - all of this for every session, with the errors for names that resolve to nothing
  and with the requests that are refused.
-/

namespace ExprCalculus

variable {α : Type} [Scalar α]

/-- The two sorts of names that a scope binds. -/
inductive NameSort where
  | ofVariable
  | ofFunction
  deriving DecidableEq

/-! ## Requests -/

/-- What a session may ask of a store. -/
inductive Request where
  | openScope (scope : Nat)
  | bindVariable (scope : Nat) (var value : Part)
  | bindName (scope : Nat) (name : String) (value : Part)
  | bindFunction (scope : Nat) (name : String) (value : Part)

/-- The scope a request is about. -/
def Request.scope : Request → Nat
  | .openScope c | .bindVariable c _ _ | .bindName c _ _ | .bindFunction c _ _ => c

namespace Store

/-- The store after a request that is granted. -/
def perform (s : Store) : Request → Except BindError Store
  | .openScope c => .ok (s.child c).1
  | .bindVariable c var value => s.bindPart c var value
  | .bindName c name value => s.bindName c name value
  | .bindFunction c name value => s.bindFunctionPart c name value

/-- The store after a request, granted or refused. -/
def after (s : Store) (r : Request) : Store :=
  match s.perform r with
  | .ok t => t
  | .error _ => s

/-- The store after a session. -/
def session (rs : List Request) : Store := rs.foldl after initial

/-- What a name of either sort is bound to for a scope. -/
def find (s : Store) : NameSort → Nat → String → Option Expr
  | .ofVariable => s.lookup
  | .ofFunction => s.lookupFunction

end Store

/-- The names of one sort that a scope binds itself. -/
def Scope.names (sc : Scope) : NameSort → Names
  | .ofVariable => sc.vars
  | .ofFunction => sc.funcs

/-! ## The log of a session -/

/-- What a granted request has done. -/
inductive Entry where
  /-- a scope was opened within another -/
  | opened (parent : Nat)
  | bound (sort : NameSort) (scope : Nat) (name : String) (value : Expr)

/-- The tree a part stands for: a tree itself, a number as a literal. -/
def Part.tree? : Part → Option Expr
  | .expr e => some e
  | .num v => some (.number v)
  | _ => none

/-- The name a part gives for a variable: a variable or a text, not empty. -/
def Part.variable? : Part → Option String
  | .expr (.var x) | .text x => if x = "" then none else some x
  | _ => none

/-- The entry of a request; a refused one leaves none.  A variable is bound to a tree, a function name to a
tree that is a function. -/
def Request.entry? : Request → Option Entry
  | .openScope c => some (.opened c)
  | .bindVariable c var value =>
    match var.variable?, value.tree? with
    | some x, some e => some (.bound .ofVariable c x e)
    | _, _ => none
  | .bindName c x value => value.tree?.map (.bound .ofVariable c x)
  | .bindFunction c f value =>
    match value with
    | .expr e => if e.isFunction then some (.bound .ofFunction c f e) else none
    | _ => none

/-- The scope an entry is about. -/
def Entry.scope : Entry → Nat
  | .opened c | .bound _ c _ _ => c

theorem Request.scope_of_entry {r : Request} {a : Entry} (h : r.entry? = some a) :
    a.scope = r.scope := by
  cases r with
  | openScope c => cases h; rfl
  | bindVariable c var value =>
    simp only [Request.entry?] at h
    split at h
    · cases h; rfl
    · cases h
  | bindName c x value =>
    obtain ⟨e, -, rfl⟩ := Option.map_eq_some_iff.1 h
    rfl
  | bindFunction c f value =>
    simp only [Request.entry?] at h
    split at h
    · split at h
      · cases h; rfl
      · cases h
    · cases h

/-- The entries of a session, the latest first. -/
abbrev Log := List Entry

namespace Log

/-- The log of a session. -/
def ofSession (rs : List Request) : Log := (rs.filterMap Request.entry?).reverse

/-- The number of scopes: the root and those opened. -/
def scopes : Log → Nat
  | [] => 1
  | .opened _ :: older => scopes older + 1
  | .bound .. :: older => scopes older

/-- The scope around a scope.  Scopes are numbered as they are opened. -/
def parent? : Log → Nat → Option Nat
  | [], _ => none
  | .opened p :: older, c => if c = scopes older then some p else parent? older c
  | .bound .. :: older, c => parent? older c

/-- What a name was last bound to in a scope. -/
def latest? : Log → NameSort → Nat → String → Option Expr
  | [], _, _, _ => none
  | .opened _ :: older, k, c, x => latest? older k c x
  | .bound k' c' x' e :: older, k, c, x =>
    if k = k' ∧ c = c' ∧ x = x' then some e else latest? older k c x

/-- A name resolves to its latest binding in the nearest scope that has one. -/
inductive Resolves (h : Log) (k : NameSort) (x : String) (e : Expr) : Nat → Prop where
  | here {c : Nat} : h.latest? k c x = some e → Resolves h k x e c
  | outward {c p : Nat} :
    h.latest? k c x = none → h.parent? c = some p → Resolves h k x e p → Resolves h k x e c

/-- A scope is another one or lies within it. -/
def Within (h : Log) : Nat → Nat → Prop := Relation.ReflTransGen fun c p => h.parent? c = some p

end Log

/-- Every request is about a scope that is open when the request is made. -/
def InOrder (rs : List Request) : Prop :=
  ∀ n (h : n < rs.length), rs[n].scope < (Log.ofSession (rs.take n)).scopes

instance (rs : List Request) : Decidable (InOrder rs) := by
  unfold InOrder; infer_instance

/-! ## Tables and chains -/

theorem Names.get?_put (ns : Names) (x y : String) (e : Expr) :
    (ns.put x e).get? y = if y = x then some e else ns.get? y := by
  induction ns with
  | nil => grind [Names.put, Names.get?]
  | cons n rest ih =>
    obtain ⟨z, old⟩ := n
    simp only [Names.put]
    split <;> grind [Names.get?]

theorem Names.mem_of_get? {ns : Names} {x : String} {e : Expr} (h : ns.get? x = some e) : (x, e) ∈ ns := by
  induction ns with
  | nil => cases h
  | cons b ns ih =>
    unfold Names.get? at h
    split at h
    · rename_i hx
      cases h
      rw [← hx]
      exact List.mem_cons_self
    · exact List.mem_cons_of_mem _ (ih h)

namespace Store

theorem find_eq_findSome? (s : Store) (k : NameSort) (c : Nat) (x : String) :
    s.find k c x = (s.chain c).findSome? fun sc => (sc.names k).get? x := by
  cases k <;> rfl

/-- Every scope was opened after the one around it. -/
def Earlier (s : Store) : Prop :=
  ∀ (c : Nat) (sc : Scope) (p : Nat), s.scopes[c]? = some sc → sc.parent = some p → p < c

/-- The walk outward ends by itself: numbers get smaller, so a longer limit finds no further scope. -/
theorem chainUpTo_of_lt {s : Store} (hs : s.Earlier) {m n c : Nat} (hm : c < m) (hn : c < n) :
    s.chainUpTo m c = s.chainUpTo n c := by
  induction m generalizing n c with
  | zero => omega
  | succ m ih =>
    obtain ⟨n, rfl⟩ : ∃ n', n = n' + 1 := ⟨n - 1, by omega⟩
    simp only [chainUpTo]
    cases hc : s.scopes[c]? with
    | none => rfl
    | some sc =>
      cases hp : sc.parent with
      | none => simp only [hp]
      | some p =>
        have : p < c := hs c sc p hc hp
        simp only [hp, ih (show p < m by omega) (show p < n by omega)]

theorem chain_eq {s : Store} (hs : s.Earlier) (c : Nat) :
    s.chain c =
      match s.scopes[c]? with
      | none => []
      | some sc => sc :: (sc.parent.map s.chain).getD [] := by
  rw [chain, chainUpTo]
  cases hc : s.scopes[c]? with
  | none => rfl
  | some sc =>
    cases hp : sc.parent with
    | none => simp [hp]
    | some p =>
      have : p < c := hs c sc p hc hp
      simp only [hp, Option.map_some, Option.getD_some, chain]
      rw [chainUpTo_of_lt hs this (Nat.lt_succ_self p)]

/-! ## The store as a view of the log -/

/-- The store holds what the log says: the scopes opened, each within its own, and for each name what it was
bound to last. -/
structure Records (s : Store) (h : Log) : Prop where
  scopes : s.scopes.length = h.scopes
  parent : ∀ c, ((s.scopes[c]?).bind fun sc => sc.parent) = h.parent? c
  names : ∀ k c x, ((s.scopes[c]?).bind fun sc => (sc.names k).get? x) = h.latest? k c x
  earlier : s.Earlier

theorem records_initial : initial.Records [] := by
  constructor
  · rfl
  · intro c
    cases c <;> rfl
  · intro k c x
    cases c <;> cases k <;> rfl
  · intro c sc p hc hp
    cases c with
    | zero => simp only [initial, List.getElem?_cons_zero, Option.some.injEq] at hc; subst hc; cases hp
    | succ c => cases hc

theorem Records.child {s : Store} {h : Log} (hs : s.Records h) {c : Nat} (hc : c < h.scopes) :
    (s.child c).1.Records (.opened c :: h) := by
  have hnew : ∀ d, (s.child c).1.scopes[d]? =
      if d = h.scopes then some (Scope.empty (some c)) else s.scopes[d]? := by
    intro d
    simp only [Store.child, ← hs.scopes, List.getElem?_append, List.getElem?_singleton]
    grind
  constructor
  · simp [Store.child, Log.scopes, hs.scopes]
  · intro d
    rw [hnew, Log.parent?, ← hs.parent]
    split <;> rfl
  · intro k d x
    rw [hnew, Log.latest?, ← hs.names]
    split
    · have : s.scopes[d]? = none := by simp [hs.scopes, *]
      cases k <;> simp [this, Scope.empty, Scope.names, Names.get?]
    · rfl
  · intro d sc p hd hp
    rw [hnew] at hd
    split at hd
    · obtain rfl : Scope.empty (some c) = sc := by simpa using hd
      obtain rfl : c = p := by simpa [Scope.empty] using hp
      omega
    · exact hs.earlier d sc p hd hp

/-- Binds a name of either sort. -/
def bindSort (s : Store) : NameSort → Nat → String → Expr → Store
  | .ofVariable => s.bindVariable
  | .ofFunction => s.bindFunction

/-- Binding a name changes the names of one sort in one scope. -/
theorem bindSort_scopes (s : Store) (k : NameSort) (c : Nat) (x : String) (e : Expr) :
    ∃ f : Scope → Scope, (s.bindSort k c x e).scopes = s.scopes.modify c f ∧
      ∀ sc, (f sc).parent = sc.parent ∧
        ∀ k', (f sc).names k' = if k' = k then (sc.names k).put x e else sc.names k' := by
  cases k with
  | ofVariable => exact ⟨_, rfl, fun sc => ⟨rfl, fun k' => by cases k' <;> rfl⟩⟩
  | ofFunction => exact ⟨_, rfl, fun sc => ⟨rfl, fun k' => by cases k' <;> rfl⟩⟩

theorem Records.bindSort {s : Store} {h : Log} (hs : s.Records h) (k : NameSort) {c : Nat}
    (hc : c < h.scopes) (x : String) (e : Expr) :
    (s.bindSort k c x e).Records (.bound k c x e :: h) := by
  obtain ⟨f, hscopes, hf⟩ := s.bindSort_scopes k c x e
  have hget : ∀ d, (s.bindSort k c x e).scopes[d]? =
      (s.scopes[d]?).map fun sc => if c = d then f sc else sc := by
    intro d
    rw [hscopes, List.getElem?_modify]
    split <;> simp [*]
  constructor
  · rw [hscopes, List.length_modify, Log.scopes, hs.scopes]
  · intro d
    rw [hget, Log.parent?, ← hs.parent]
    cases s.scopes[d]? with
    | none => rfl
    | some sc => by_cases hd : c = d <;> simp [hd, (hf sc).1]
  · intro k' d y
    rw [hget, Log.latest?, ← hs.names]
    cases hd : s.scopes[d]? with
    | none =>
      have : h.scopes ≤ d := by rw [← hs.scopes]; simpa using hd
      simp [show d ≠ c by omega]
    | some sc =>
      by_cases hcd : c = d <;> by_cases hk : k' = k <;>
        simp [hcd, hk, (hf sc).2, Names.get?_put, eq_comm]
  · intro d sc p hd hp
    rw [hget] at hd
    obtain ⟨sc', hsc', rfl⟩ := Option.map_eq_some_iff.1 hd
    refine hs.earlier d sc' p hsc' ?_
    rw [← hp]
    split
    · exact ((hf sc').1).symm
    · rfl

/-- What an entry of the log means for the store. -/
def enter (s : Store) : Entry → Store
  | .opened c => (s.child c).1
  | .bound k c x e => s.bindSort k c x e

theorem Records.enter {s : Store} {h : Log} (hs : s.Records h) {a : Entry}
    (ha : a.scope < h.scopes) : (s.enter a).Records (a :: h) := by
  cases a with
  | opened c => exact hs.child ha
  | bound k c x e => exact hs.bindSort k ha x e

theorem expression_of_tree? {p : Part} {e : Expr} (h : p.tree? = some e) :
    Build.expression p = .ok e := by
  cases p <;> simp_all [Part.tree?, Build.expression]

theorem expression_of_not_tree {p : Part} (h : p.tree? = none) :
    ∃ err, Build.expression p = .error err := by
  cases p <;> simp_all [Part.tree?, Build.expression]

theorem variableName?_eq (p : Part) : variableName? p = p.variable? := by
  cases p with
  | expr e => cases e <;> rfl
  | _ => rfl

/-- A request that leaves an entry is granted. -/
theorem perform_of_entry {s : Store} {r : Request} {a : Entry} (h : r.entry? = some a) :
    s.perform r = .ok (s.enter a) := by
  cases r with
  | openScope c => cases h; rfl
  | bindVariable c var value =>
    simp only [Request.entry?] at h
    split at h
    · rename_i x e hx he
      cases h
      simp [perform, bindPart, variableName?_eq, hx, bindName, expression_of_tree? he, enter, bindSort]
    · cases h
  | bindName c x value =>
    obtain ⟨e, he, rfl⟩ := Option.map_eq_some_iff.1 h
    simp [perform, bindName, expression_of_tree? he, enter, bindSort]
  | bindFunction c f value =>
    simp only [Request.entry?] at h
    split at h
    · split at h
      · rename_i e hf
        cases h
        simp [perform, bindFunctionPart, hf, enter, bindSort]
      · cases h
    · cases h

/-- A request that leaves no entry is refused. -/
theorem perform_of_refused {s : Store} {r : Request} (h : r.entry? = none) :
    ∃ err, s.perform r = .error err := by
  cases r with
  | openScope c => cases h
  | bindVariable c var value =>
    simp only [perform, bindPart, variableName?_eq]
    cases hx : var.variable? with
    | none => exact ⟨_, rfl⟩
    | some x =>
      have he : value.tree? = none := by
        cases he : value.tree? with
        | none => rfl
        | some e => simp [Request.entry?, hx, he] at h
      obtain ⟨err, herr⟩ := expression_of_not_tree he
      exact ⟨.value err, by simp [bindName, herr]⟩
  | bindName c x value =>
    obtain ⟨err, herr⟩ := expression_of_not_tree (Option.map_eq_none_iff.1 h)
    exact ⟨.value err, by simp [perform, bindName, herr]⟩
  | bindFunction c f value =>
    cases value with
    | expr e =>
      have hf : e.isFunction = false := by simpa [Request.entry?] using h
      exact ⟨.notFunction (.expr e), by simp [perform, bindFunctionPart, hf]⟩
    | _ => exact ⟨_, rfl⟩

theorem after_of_entry {s : Store} {r : Request} {a : Entry} (h : r.entry? = some a) :
    s.after r = s.enter a := by
  simp [after, perform_of_entry h]

theorem after_of_refused {s : Store} {r : Request} (h : r.entry? = none) : s.after r = s := by
  obtain ⟨err, herr⟩ := perform_of_refused (s := s) h
  simp [after, herr]

theorem session_append (rs : List Request) (r : Request) :
    session (rs ++ [r]) = (session rs).after r := by
  simp [session]

end Store

/-! ## Sessions -/

theorem Log.ofSession_append (rs : List Request) (r : Request) :
    Log.ofSession (rs ++ [r]) = r.entry?.toList ++ Log.ofSession rs := by
  cases h : r.entry? <;> simp [Log.ofSession, h]

theorem inOrder_append {rs : List Request} {r : Request} (h : InOrder (rs ++ [r])) :
    InOrder rs ∧ r.scope < (Log.ofSession rs).scopes := by
  constructor
  · intro n hn
    have := h n (by simp; omega)
    rwa [List.getElem_append_left hn, List.take_append_of_le_length (Nat.le_of_lt hn)] at this
  · simpa using h rs.length (by simp)

namespace Store

/-- A request keeps the store a view of the log. -/
theorem Records.after {s : Store} {h : Log} (hs : s.Records h) {r : Request}
    (hr : r.scope < h.scopes) : (s.after r).Records (r.entry?.toList ++ h) := by
  cases ha : r.entry? with
  | none => simpa [after_of_refused ha] using hs
  | some a =>
    rw [after_of_entry ha]
    exact hs.enter (Request.scope_of_entry ha ▸ hr)

/-- After any session the store is a view of the session's log. -/
theorem records_session {rs : List Request} (hrs : InOrder rs) :
    (session rs).Records (Log.ofSession rs) := by
  induction rs using List.reverseRecOn with
  | nil => exact records_initial
  | append_singleton rs r ih =>
    obtain ⟨hrs, hr⟩ := inOrder_append hrs
    rw [session_append, Log.ofSession_append]
    exact (ih hrs).after hr

/-! ## Lookups -/

section Lookups

variable {s : Store} {h : Log} (hs : s.Records h)
include hs

theorem Records.parent_lt {c p : Nat} (hp : h.parent? c = some p) : p < c := by
  rw [← hs.parent] at hp
  obtain ⟨sc, hc, hsc⟩ := Option.bind_eq_some_iff.1 hp
  exact hs.earlier c sc p hc hsc

/-- A lookup takes the scope's own binding and otherwise looks in the scope around it. -/
theorem Records.find_eq (k : NameSort) (c : Nat) (x : String) :
    s.find k c x = (h.latest? k c x).or ((h.parent? c).bind fun p => s.find k p x) := by
  rw [find_eq_findSome?, chain_eq hs.earlier, ← hs.parent, ← hs.names]
  cases s.scopes[c]? with
  | none => rfl
  | some sc =>
    simp only [List.findSome?_cons, Option.bind_some, find_eq_findSome?]
    cases (sc.names k).get? x with
    | some e => rfl
    | none => cases sc.parent <;> rfl

theorem Records.find_iff_resolves (k : NameSort) (c : Nat) (x : String) (e : Expr) :
    s.find k c x = some e ↔ h.Resolves k x e c := by
  constructor
  · intro hf
    induction c using Nat.strongRecOn with
    | ind c ih =>
      rw [hs.find_eq] at hf
      cases hl : h.latest? k c x with
      | some e' =>
        obtain rfl : e' = e := by simpa [hl] using hf
        exact .here hl
      | none =>
        obtain ⟨p, hp, hfp⟩ := Option.bind_eq_some_iff.1 (by simpa [hl] using hf)
        exact .outward hl hp (ih p (hs.parent_lt hp) hfp)
  · intro hr
    induction hr with
    | here hl => rw [hs.find_eq, hl]; rfl
    | outward hl hp _ ih => rw [hs.find_eq, hl, hp]; exact ih

/-- An entry changes a lookup from an open scope only if it binds that sort of name in a scope which the
looking one is or lies within. -/
theorem Records.find_enter_ne {a : Entry} (ha : a.scope < h.scopes) {k : NameSort} {d : Nat}
    (hd : d < h.scopes) {x : String} (hne : (s.enter a).find k d x ≠ s.find k d x) :
    ∃ c e, a = .bound k c x e ∧ h.Within d c := by
  have hnew := hs.enter ha
  induction d using Nat.strongRecOn with
  | ind d ih =>
    rw [hnew.find_eq, hs.find_eq] at hne
    have hparent : Log.parent? (a :: h) d = h.parent? d := by
      cases a with
      | opened c => simp [Log.parent?, Nat.ne_of_lt hd]
      | bound => rfl
    rw [hparent] at hne
    by_cases hl : Log.latest? (a :: h) k d x = h.latest? k d x
    · rw [hl] at hne
      cases hp : h.parent? d with
      | none => simp [hp] at hne
      | some p =>
        have hpd : p < d := hs.parent_lt hp
        have hpne : (s.enter a).find k p x ≠ s.find k p x := by
          intro heq; simp [hp, heq] at hne
        obtain ⟨c, e, rfl, hw⟩ := ih p hpd (Nat.lt_trans hpd hd) hpne
        exact ⟨c, e, rfl, .head hp hw⟩
    · cases a with
      | opened c => exact absurd rfl hl
      | bound k' c y e =>
        rw [Log.latest?] at hl
        split at hl
        · rename_i heq
          obtain ⟨rfl, rfl, rfl⟩ := heq
          exact ⟨d, e, rfl, .refl⟩
        · exact absurd rfl hl

/-- A name that resolves to nothing is not found. -/
theorem Records.find_eq_none {k : NameSort} {c : Nat} {x : String}
    (hnone : ¬ ∃ e, h.Resolves k x e c) : s.find k c x = none := by
  cases hf : s.find k c x with
  | none => rfl
  | some e => exact absurd ⟨e, (hs.find_iff_resolves k c x e).1 hf⟩ hnone

end Lookups

/-- A variable that is not found has no value. -/
theorem evaluate_var_of_find {s : Store} {c : Nat} {x : String} (h : s.find .ofVariable c x = none)
    (tag : Tag) : evaluate tag (s.env α c) (.var x) = .error (.unboundVariable x) := by
  have hvars : (s.env α c).vars x = none := Option.map_eq_none_iff.2 h
  rw [evaluate, defaultDepth, evaluateUpTo, evaluateWith, hvars]

/-- A call of a function that is not found has no value. -/
theorem evaluate_call_of_find {s : Store} {c : Nat} {f : String} (h : s.find .ofFunction c f = none)
    (tag : Tag) : evaluate tag (s.env α c) (.call f) = .error (.unboundFunction f) := by
  have hfuncs : (s.env α c).funcs f = none := h
  rw [evaluate, defaultDepth, evaluateUpTo, evaluateWith, hfuncs]

end Store

/-! ## Main theorem -/

/-- What names mean after any session, in which some requests were refused.  A lookup gives the latest
binding of the name in the nearest scope that has one; where there is none, evaluating the name fails with
that name.  A further request is granted exactly if it leaves an entry.  It changes a lookup from an open
scope only by binding that name, of that sort, in a scope the looking one is or lies within, and if it is
refused it changes no lookup and no text of a scope. -/
theorem resolution_of_session (rs : List Request) (hrs : InOrder rs) :
    let s := Store.session rs
    let h := Log.ofSession rs
    (∀ k c x e, s.find k c x = some e ↔ h.Resolves k x e c) ∧
    (∀ c x, (¬ ∃ e, h.Resolves .ofVariable x e c) →
      ∀ tag, evaluate tag (s.env α c) (.var x) = .error (.unboundVariable x)) ∧
    (∀ c f, (¬ ∃ e, h.Resolves .ofFunction f e c) →
      ∀ tag, evaluate tag (s.env α c) (.call f) = .error (.unboundFunction f)) ∧
    ∀ r, r.scope < h.scopes →
      ((∃ t, s.perform r = .ok t) ↔ ∃ a, r.entry? = some a) ∧
      (∀ k d x, d < h.scopes →
        (Store.session (rs ++ [r])).find k d x ≠ s.find k d x →
          ∃ c e, r.entry? = some (.bound k c x e) ∧ h.Within d c) ∧
      ((∀ t, s.perform r ≠ .ok t) → ∀ d,
        (∀ k x, (Store.session (rs ++ [r])).find k d x = s.find k d x) ∧
        (Store.session (rs ++ [r])).text d = s.text d) := by
  intro s h
  have hs : s.Records h := Store.records_session hrs
  refine ⟨hs.find_iff_resolves,
    fun c x hnone => Store.evaluate_var_of_find (hs.find_eq_none hnone),
    fun c f hnone => Store.evaluate_call_of_find (hs.find_eq_none hnone), fun r hr => ?_⟩
  have hgranted : (∃ t, s.perform r = .ok t) ↔ ∃ a, r.entry? = some a := by
    cases ha : r.entry? with
    | none =>
      obtain ⟨err, herr⟩ := Store.perform_of_refused (s := s) ha
      simp [herr]
    | some a => simp [Store.perform_of_entry ha]
  refine ⟨hgranted, fun k d x hd hne => ?_, fun hrefused d => ?_⟩
  · rw [Store.session_append] at hne
    cases ha : r.entry? with
    | none => exact absurd (by rw [Store.after_of_refused ha]) hne
    | some a =>
      rw [Store.after_of_entry ha] at hne
      have hscope : a.scope < h.scopes := by rwa [Request.scope_of_entry ha]
      obtain ⟨c, e, rfl, hw⟩ := hs.find_enter_ne hscope hd hne
      exact ⟨c, e, rfl, hw⟩
  · have ha : r.entry? = none := by
      cases ha : r.entry? with
      | none => rfl
      | some a => exact absurd (Store.perform_of_entry ha) (hrefused _)
    rw [Store.session_append, Store.after_of_refused ha]
    exact ⟨fun _ _ => rfl, rfl⟩

/-- A session that opens a scope within the root, binds a name in both, is refused once and binds the name
in the root again. -/
def shadowing : List Request :=
  [.bindName 0 "x" (.num (.int 1)), .openScope 0, .bindVariable 1 (.text "x") (.num (.int 2)),
    .bindFunction 1 "x" (.num (.int 4)), .bindVariable 0 (.expr (.var "x")) (.num (.int 3))]

/-- The inner scope keeps its own binding, the root has the latest one, and the function name stays unbound. -/
theorem resolution_of_shadowing :
    InOrder shadowing ∧
    (Store.session shadowing).find .ofVariable 1 "x" = some (.int 2) ∧
    (Store.session shadowing).find .ofVariable 0 "x" = some (.int 3) ∧
    (evaluate (.domain .real) ((Store.session shadowing).env Float 1) (.call "x")
      = .error (.unboundFunction "x")) ∧
    ∀ t, (Store.session shadowing).perform (.bindFunction 1 "x" (.num (.int 4))) ≠ .ok t := by
  have hrs : InOrder shadowing := by decide
  obtain ⟨hfind, -, hcall, hstep⟩ := resolution_of_session (α := Float) shadowing hrs
  refine ⟨hrs, (hfind _ _ _ _).2 (.here rfl), (hfind _ _ _ _).2 (.here rfl), hcall 1 "x" ?_ _,
    fun t ht => ?_⟩
  · rintro ⟨e, hinner⟩
    cases hinner with
    | here h => cases h
    | outward _ hp houter =>
      cases hp
      cases houter with
      | here h => cases h
      | outward _ hp _ => cases hp
  · obtain ⟨a, ha⟩ := ((hstep (.bindFunction 1 "x" (.num (.int 4))) (by decide)).1).1 ⟨t, ht⟩
    cases ha

end ExprCalculus
