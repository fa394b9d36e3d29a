import ExprCalculus.Proofs.Grammar.Lexemes

/-!
# The layout of a text

A text is laid out of its tokens, with white space before each of them and behind the last (`Laid`).  That is the
tokenizer, said without scanning: the tokens of a text are those that it is laid out of (`tokensFrom_eq_iff`), so that
what is known of tokens follows by induction on the layout.

* `Covers` - what tokens say of their text: each stands where it says, and between them is white space alone.
* `tokens_cover` - this holds of all texts.
-/

namespace ExprCalculus.Grammar

open Text

/-! ## Texts laid out -/

/-- A text by its tokens: each of them stands behind white space and before what does not go on with it, and the last one
before the end or before a character that begins no token. -/
inductive Laid : Nat → List Char → List Token → Prop
  | token {pos : Nat} {gap w r : List Char} {k : Kind} {ts : List Token} (hgap : Blank gap) (hcut : CutBefore k w r)
    (hts : Laid (pos + gap.length + w.length) r ts) :
    Laid pos (gap ++ (w ++ r)) (⟨k, w, pos + gap.length⟩ :: ts)
  | bad {pos : Nat} {gap r : List Char} {c : Char} (hgap : Blank gap) (hc : isBlank c = false)
    (hnone : ∀ k w s, CutBefore k w s → c :: r ≠ w ++ s) :
    Laid pos (gap ++ c :: r) [⟨.bad, [c], pos + gap.length⟩, ⟨.finish, [], pos + gap.length⟩]
  | finish {pos : Nat} {gap : List Char} (hgap : Blank gap) : Laid pos gap [⟨.finish, [], pos + gap.length⟩]

theorem CutBefore.head {k : Kind} {w r : List Char} (h : CutBefore k w r) :
    ∀ c, (w ++ r).head? = some c → isBlank c = false := by
  intro c hc
  have hne : w ≠ [] := (scan_append (scan_eq_some_iff.mpr ⟨rfl, h⟩)).2
  obtain ⟨d, w, rfl⟩ := List.exists_cons_of_ne_nil hne
  exact h.not_blank c (List.mem_of_head? hc)

theorem laid_tokensFrom (pos : Nat) (cs : List Char) : Laid pos cs (tokensFrom pos cs) := by
  induction hn : cs.length using Nat.strongRecOn generalizing pos cs with
  | ind n ih =>
    obtain ⟨gap, s, rfl, hgap, hs⟩ : ∃ gap s, cs = gap ++ s ∧ Blank gap ∧ ∀ c, s.head? = some c → isBlank c = false :=
      ⟨_, _, List.takeWhile_append_dropWhile.symm, fun _ hd => List.mem_takeWhile_imp hd, head_dropWhile⟩
    obtain ⟨htake, hdrop⟩ := span_append hgap hs
    cases h : scan s with
    | some cut =>
      obtain ⟨k, w, r⟩ := cut
      rw [tokensFrom_scan (hdrop ▸ h), htake]
      obtain ⟨rfl, hcut⟩ := scan_eq_some_iff.mp h
      refine .token hgap hcut (ih r.length ?_ _ _ rfl)
      have hlt := scan_shorter h
      simp only [List.length_append] at hn hlt
      omega
    | none =>
      rw [tokensFrom_stop (by rw [hdrop]; exact h), hdrop, htake]
      cases s with
      | nil =>
        rw [List.append_nil]
        exact .finish hgap
      | cons c r =>
        refine .bad hgap (hs c rfl) fun k w s hcut heq => ?_
        rw [scan_eq_some_iff.mpr ⟨heq, hcut⟩] at h
        cases h

/-- **The tokens of a text are those that it is laid out of.** -/
theorem tokensFrom_eq_iff {pos : Nat} {cs : List Char} {ts : List Token} : tokensFrom pos cs = ts ↔ Laid pos cs ts := by
  constructor
  · rintro rfl
    exact laid_tokensFrom pos cs
  · intro h
    induction h with
    | token hgap hcut _ ih =>
      obtain ⟨htake, hdrop⟩ := span_append hgap hcut.head
      rw [tokensFrom_scan (hdrop ▸ scan_eq_some_iff.mpr ⟨rfl, hcut⟩), htake, ih]
    | @bad pos gap r c hgap hc hnone =>
      obtain ⟨htake, hdrop⟩ := span_append (r := c :: r) hgap (by simpa using hc)
      have hscan : scan (c :: r) = none := by
        rw [Option.eq_none_iff_forall_not_mem]
        rintro ⟨k, w, s⟩ hscan
        obtain ⟨heq, hcut⟩ := scan_eq_some_iff.mp hscan
        exact hnone k w s hcut heq
      rw [tokensFrom_stop (by rw [hdrop]; exact hscan), hdrop, htake]
    | @finish pos gap hgap =>
      obtain ⟨htake, hdrop⟩ := span_append (r := []) hgap (by simp)
      rw [List.append_nil] at htake hdrop
      rw [tokensFrom_stop (by rw [hdrop]; rfl), hdrop, htake]

/-! ## What the tokens of a text say of it -/

/-- Tokens cover a text from a position up to another. -/
structure Covers (text : List Char) (start : Nat) (ts : List Token) (stop : Nat) : Prop where
  /-- no token before the end marks it -/
  meaningful : ∀ t ∈ ts, t.kind ≠ .finish
  /-- a token is what stands in the text at its position -/
  slice : ∀ t ∈ ts, t.text ≠ [] ∧ (text.drop t.pos).take t.text.length = t.text
  /-- tokens stand one behind the other -/
  ordered : (∀ t ∈ ts, start ≤ t.pos) ∧ ts.Pairwise fun t u => t.pos + t.text.length ≤ u.pos
  /-- what is in no token is white space -/
  gaps : ∀ i c, start ≤ i → i < stop → text[i]? = some c →
    (∀ t ∈ ts, ¬(t.pos ≤ i ∧ i < t.pos + t.text.length)) → isBlank c = true
  /-- all of the text is covered, or all up to a character that begins no token and is the last one -/
  all : (∀ t ∈ ts, t.kind ≠ .bad) → stop = text.length
  bad : ∀ t ∈ ts, t.kind = .bad → ts.getLast? = some t ∧ t.text.length = 1 ∧ t.pos = stop
  /-- by itself a token is of the same kind, and its parts are those of its kind -/
  alone : ∀ t ∈ ts, t.kind ≠ .bad → scan t.text = some (t.kind, t.text, []) ∧ Lexeme t.kind t.text t.groups
  numeral : ∀ t ∈ ts, t.kind = .number → ∃ m x, t.groups = [some m, x] ∧ m ++ x.getD [] = t.text

/-- A token in front, behind white space. -/
theorem Covers.token {pos : Nat} {before gap w r : List Char} {k : Kind} {ts : List Token} {stop : Nat}
    (hpos : before.length = pos) (hgap : Blank gap) (hcut : CutBefore k w r)
    (h : Covers (before ++ (gap ++ w) ++ r) (pos + gap.length + w.length) ts stop) :
    Covers (before ++ (gap ++ (w ++ r))) pos (⟨k, w, pos + gap.length⟩ :: ts) stop := by
  have htext : before ++ (gap ++ w) ++ r = before ++ (gap ++ (w ++ r)) := by simp
  rw [htext] at h
  have hscan := scan_eq_some_iff.mpr ⟨rfl, hcut⟩
  have hkind : k ≠ .finish ∧ k ≠ .bad := by
    have hm := scan_meaningful hscan
    constructor <;> rintro rfl <;> cases hm
  obtain ⟨gs, hlexeme⟩ := hcut.lexeme
  exact
    { meaningful := List.forall_mem_cons.mpr ⟨hkind.1, h.meaningful⟩
      slice := by
        refine List.forall_mem_cons.mpr ⟨⟨(scan_append hscan).2, ?_⟩, h.slice⟩
        simp only
        rw [← hpos, ← List.length_append, ← List.append_assoc, List.drop_left, List.take_left]
      ordered := by
        refine ⟨List.forall_mem_cons.mpr ⟨Nat.le_add_right _ _, fun t ht => ?_⟩,
          List.pairwise_cons.mpr ⟨h.ordered.1, h.ordered.2⟩⟩
        have hle := h.ordered.1 t ht
        omega
      gaps := fun i c hi hstop hc huncovered => by
        obtain ⟨hhead, htail⟩ := List.forall_mem_cons.mp huncovered
        simp only at hhead
        by_cases hgapped : i < pos + gap.length
        · rw [List.getElem?_append_right (by omega), List.getElem?_append_left (by omega)] at hc
          exact hgap c (List.mem_of_getElem? hc)
        · exact h.gaps i c (by omega) hstop hc htail
      all := fun hbad => h.all fun t ht => hbad t (List.mem_cons_of_mem _ ht)
      bad := by
        refine List.forall_mem_cons.mpr ⟨fun hk => absurd hk hkind.2, fun t ht hk => ?_⟩
        obtain ⟨hlast, hrest⟩ := h.bad t ht hk
        exact ⟨by rw [List.getLast?_cons, hlast]; rfl, hrest⟩
      alone := List.forall_mem_cons.mpr ⟨fun _ => ⟨scan_alone hcut, by rwa [hlexeme.groups_eq]⟩, h.alone⟩
      numeral := by
        refine List.forall_mem_cons.mpr ⟨?_, h.numeral⟩
        rintro rfl
        rw [hlexeme.groups_eq]
        cases hlexeme with
        | numeral _ => exact ⟨w, none, rfl, by simp⟩
        | @scaled m x _ _ => exact ⟨m, some x, rfl, rfl⟩
        | mark h => simp [marks] at h }

theorem Laid.covers {pos : Nat} {cs : List Char} {ts : List Token} (h : Laid pos cs ts) :
    ∃ body stop, ts = body ++ [⟨.finish, [], stop⟩] ∧
      ∀ before : List Char, before.length = pos → Covers (before ++ cs) pos body stop := by
  induction h with
  | @token pos gap w r k ts hgap hcut _ ih =>
    obtain ⟨body, stop, rfl, hcovers⟩ := ih
    refine ⟨_, stop, List.cons_append.symm, fun before hpos => .token hpos hgap hcut (hcovers _ ?_)⟩
    simp only [List.length_append]
    omega
  | @bad pos gap r c hgap hc _ =>
    refine ⟨[_], _, rfl, fun before hpos => ?_⟩
    exact
      { meaningful := by simp
        slice := by simp [← hpos]
        ordered := by simp
        gaps := fun i d hi hstop hd _ => by
          rw [List.getElem?_append_right (by omega), List.getElem?_append_left (by omega)] at hd
          exact hgap d (List.mem_of_getElem? hd)
        all := by simp
        bad := by simp
        alone := by simp
        numeral := by simp }
  | @finish pos gap hgap =>
    refine ⟨[], _, rfl, fun before hpos => ?_⟩
    exact
      { meaningful := by simp
        slice := by simp
        ordered := by simp
        gaps := fun i d hi hstop hd _ => by
          rw [List.getElem?_append_right (by omega)] at hd
          exact hgap d (List.mem_of_getElem? hd)
        all := by simp [hpos]
        bad := by simp
        alone := by simp
        numeral := by simp }

/-- **Cutting a text into tokens loses and invents nothing.** -/
theorem tokens_cover (text : List Char) :
    ∃ body stop, tokens text = body ++ [⟨.finish, [], stop⟩] ∧ Covers text 0 body stop := by
  obtain ⟨body, stop, hts, hcovers⟩ := (laid_tokensFrom 0 text).covers
  exact ⟨body, stop, hts, hcovers [] rfl⟩

end ExprCalculus.Grammar
