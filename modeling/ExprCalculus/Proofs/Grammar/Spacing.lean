import ExprCalculus.Proofs.Grammar.Acceptance
import ExprCalculus.Proofs.Grammar.Layout
import Mathlib.Logic.Relation

/-!
# White space between tokens

White space may be put wherever no token is cut in two, and the tokens stay the same but for their positions
(`Laid.insert`); they stay the same too if they are written one after the other with a space between them (`Laid.spaced`).
As the positions do not matter to the grammar (`Spells.of_lexemes`), neither does the white space.

* `parse_spacing` - a text and the text with other white space are the same tokens and the same tree.
-/

namespace ExprCalculus.Grammar

open Text

/-- A token without its position. -/
def Token.lexeme (t : Token) : Kind × List Char × List (Option (List Char)) := (t.kind, t.text, t.groups)

/-! ## White space in texts laid out -/

section

variable {pos : Nat} {gap cs : List Char} {ts : List Token}

/-- White space in front. -/
theorem Laid.behind (h : Laid (pos + gap.length) cs ts) (hgap : Blank gap) : Laid pos (gap ++ cs) ts := by
  generalize hstart : pos + gap.length = start at h
  have blank {gap' : List Char} (hgap' : Blank gap') : Blank (gap ++ gap') := List.forall_mem_append.mpr ⟨hgap, hgap'⟩
  have hpos (n : Nat) : start + n = pos + (gap.length + n) := by omega
  cases h with
  | token hgap' hcut hts =>
    rw [hpos, ← List.length_append] at hts ⊢
    rw [← List.append_assoc]
    exact .token (blank hgap') hcut hts
  | bad hgap' hc hnone =>
    rw [hpos, ← List.length_append, ← List.append_assoc]
    exact .bad (blank hgap') hc hnone
  | finish hgap' =>
    rw [hpos, ← List.length_append]
    exact .finish (blank hgap')

/-- The same text elsewhere. -/
theorem Laid.shift (h : Laid pos cs ts) (pos' : Nat) :
    ∃ ts', Laid pos' cs ts' ∧ ts'.map Token.lexeme = ts.map Token.lexeme := by
  induction h generalizing pos' with
  | token hgap hcut _ ih =>
    obtain ⟨ts', hts', hlex⟩ := ih _
    exact ⟨_, .token hgap hcut hts', congrArg (List.cons _) hlex⟩
  | bad hgap hc hnone => exact ⟨_, .bad hgap hc hnone, rfl⟩
  | finish hgap => exact ⟨_, .finish hgap, rfl⟩

theorem Laid.exists_cons (h : Laid pos cs ts) : ∃ t us, ts = t :: us := by
  cases h <;> exact ⟨_, _, rfl⟩

/-- Two points in front are a token. -/
theorem Laid.dots (h : Laid pos ('.' :: '.' :: cs) ts) : ∃ us, ts = ⟨.dots, ['.', '.'], pos⟩ :: us := by
  have hscan : scan (('.' :: '.' :: cs).dropWhile isBlank) = some (.dots, ['.', '.'], cs) := rfl
  rw [← tokensFrom_eq_iff.mpr h, tokensFrom_scan hscan]
  exact ⟨_, rfl⟩

/-- The place after so many characters is inside of no token. -/
def IsBoundary (n : Nat) (ts : List Token) : Prop := ∀ t ∈ ts, ¬(t.pos < n ∧ n < t.pos + t.text.length)

/-- **White space at a boundary of tokens leaves them the same.** -/
theorem Laid.insert (h : Laid pos cs ts) (hbad : ∀ t ∈ ts, t.kind ≠ .bad) {front blank back : List Char}
    (hcs : cs = front ++ back) (hboundary : IsBoundary (pos + front.length) ts) (hblank : Blank blank) :
    ∃ ts', Laid pos (front ++ (blank ++ back)) ts' ∧ ts'.map Token.lexeme = ts.map Token.lexeme := by
  induction h generalizing front with
  | @token pos gap w r k ts hgap hcut hts ih =>
    obtain ⟨hhead, htail⟩ : _ ∧ IsBoundary (pos + front.length) ts := List.forall_mem_cons.mp hboundary
    obtain ⟨-, hbad⟩ := List.forall_mem_cons.mp hbad
    -- in front of the token, with white space before it and behind it
    have before {a c : List Char} (ha : Blank a) (hc : Blank c) : ∃ ts', Laid pos (a ++ (blank ++ (c ++ (w ++ r)))) ts' ∧
        ts'.map Token.lexeme = (⟨k, w, pos + gap.length⟩ :: ts).map Token.lexeme := by
      obtain ⟨ts', hts', hlex⟩ := hts.shift (pos + (a ++ (blank ++ c)).length + w.length)
      have hgap' : Blank (a ++ (blank ++ c)) :=
        List.forall_mem_append.mpr ⟨ha, List.forall_mem_append.mpr ⟨hblank, hc⟩⟩
      have hlaid := Laid.token hgap' hcut hts'
      rw [List.append_assoc, List.append_assoc] at hlaid
      exact ⟨_, hlaid, congrArg (List.cons _) hlex⟩
    -- behind the token
    have behind {a : List Char} (hr : r = a ++ back) (hboundary : IsBoundary (pos + gap.length + w.length + a.length) ts) :
        ∃ ts', Laid pos (gap ++ (w ++ (a ++ (blank ++ back)))) ts' ∧
          ts'.map Token.lexeme = (⟨k, w, pos + gap.length⟩ :: ts).map Token.lexeme := by
      obtain ⟨ts', hts', hlex⟩ := ih hbad hr hboundary
      have hcut' : CutBefore k w (a ++ (blank ++ back)) := by
        rcases blank with _ | ⟨c, blank⟩
        · rwa [List.nil_append, ← hr]
        refine (hr ▸ hcut).of_append (fun d hd => ?_) ?_
        · cases hd
          exact hblank c List.mem_cons_self
        · rintro rfl hpoint
          obtain ⟨b, rfl⟩ := List.head?_eq_some_iff.mp hpoint
          rw [hr] at hts
          obtain ⟨us, rfl⟩ := hts.dots
          exact hboundary _ List.mem_cons_self ⟨by simp, by simp⟩
      exact ⟨_, .token hgap hcut' hts', congrArg (List.cons _) hlex⟩
    obtain ⟨a, rfl, hwr⟩ | ⟨c, rfl, rfl⟩ := List.append_eq_append_iff.mp hcs
    · obtain ⟨b, rfl, hr⟩ | ⟨c, rfl, rfl⟩ := List.append_eq_append_iff.mp hwr
      · have hbehind := behind hr (by simpa only [List.length_append, Nat.add_assoc] using htail)
        simpa only [List.append_assoc] using hbehind
      · -- the boundary is at one of the ends of the token
        have hends : a = [] ∨ c = [] := by
          simp only [List.length_append] at hhead
          rw [← List.length_eq_zero_iff, ← List.length_eq_zero_iff]
          omega
        obtain rfl | rfl := hends
        · simpa using before hgap (c := []) (by simp [Blank])
        · have hbehind := behind (a := []) rfl (by simpa only [List.length_append, List.length_nil, List.append_nil,
            Nat.add_zero, Nat.add_assoc] using htail)
          simpa using hbehind
    · obtain ⟨h1, h2⟩ := List.forall_mem_append.mp hgap
      exact before h1 h2
  | bad => exact absurd rfl (hbad _ List.mem_cons_self)
  | finish hgap =>
    subst hcs
    obtain ⟨h1, h2⟩ := List.forall_mem_append.mp hgap
    exact ⟨_, .finish (List.forall_mem_append.mpr ⟨h1, List.forall_mem_append.mpr ⟨hblank, h2⟩⟩), rfl⟩

/-- **Tokens one after the other, with a space between them, are the same.** -/
theorem Laid.spaced (h : Laid pos cs ts) (hbad : ∀ t ∈ ts, t.kind ≠ .bad) (pos' : Nat) :
    ∃ ts', Laid pos' ([' '].intercalate (ts.dropLast.map Token.text)) ts' ∧
      ts'.map Token.lexeme = ts.map Token.lexeme := by
  have hnone : Blank [] := by simp [Blank]
  have hspace : Blank [' '] := List.forall_mem_singleton.mpr (by decide)
  have hhalts (s : List Char) : Halts (' ' :: s) := by
    rintro _ ⟨⟩
    decide
  induction h generalizing pos' with
  | @token pos gap w r k ts hgap hcut hts ih =>
    obtain ⟨-, hbad⟩ := List.forall_mem_cons.mp hbad
    cases hts with
    | token hgap' hcut' hus =>
      obtain ⟨ts', hts', hlex⟩ := ih hbad (pos' + [].length + w.length + [' '].length)
      obtain ⟨u, us, hcons⟩ := hus.exists_cons
      subst hcons
      have hlaid := Laid.token hnone (hcut.halts (hhalts _)) (hts'.behind hspace)
      exact ⟨_, hlaid, congrArg (List.cons _) hlex⟩
    | bad => exact absurd rfl (hbad _ List.mem_cons_self)
    | finish =>
      have hfinish : Laid (pos' + 0 + w.length) [] [⟨.finish, [], pos' + 0 + w.length⟩] := .finish hnone
      have hlaid := Laid.token hnone (hcut.halts hnone.halts) hfinish
      exact ⟨_, hlaid, rfl⟩
  | bad => exact absurd rfl (hbad _ List.mem_cons_self)
  | finish => exact ⟨_, .finish hnone, rfl⟩

end

/-! ## The grammar without positions -/

section

variable {j : Bool} {ts ts' us : List Token} {t u l r : Token}

theorem kind_of_lexeme (h : u.lexeme = t.lexeme) : u.kind = t.kind := congrArg Prod.fst h

theorem text_of_lexeme (h : u.lexeme = t.lexeme) : u.text = t.text := congrArg (fun l => l.2.1) h

/-- The same tokens, but for their positions. -/
def SameLexemes (us ts : List Token) : Prop := us.map Token.lexeme = ts.map Token.lexeme

theorem SameLexemes.nextKind (h : SameLexemes us ts) : nextKind us = nextKind ts := by
  cases ts with
  | nil => rw [List.map_eq_nil_iff.mp h]
  | cons t ts =>
    obtain ⟨u, us, rfl, hu, -⟩ := List.map_eq_cons_iff.mp h
    exact kind_of_lexeme hu

theorem SameLexemes.append (h : SameLexemes us (ts ++ ts')) :
    ∃ vs vs', us = vs ++ vs' ∧ SameLexemes vs ts ∧ SameLexemes vs' ts' := by
  rw [SameLexemes, List.map_append] at h
  exact List.map_eq_append_iff.mp h

theorem SameLexemes.cons (h : SameLexemes us (t :: ts)) :
    ∃ v vs, us = v :: vs ∧ v.lexeme = t.lexeme ∧ SameLexemes vs ts := List.map_eq_cons_iff.mp h

theorem SameLexemes.single (h : SameLexemes us [t]) : ∃ v, us = [v] ∧ v.lexeme = t.lexeme := by
  obtain ⟨v, vs, rfl, hv, hvs⟩ := h.cons
  exact ⟨v, by rw [List.map_eq_nil_iff.mp hvs], hv⟩

/-- Two phrases with a token between them. -/
theorem SameLexemes.between (h : SameLexemes us (ts ++ t :: ts')) :
    ∃ vs v vs', us = vs ++ v :: vs' ∧ SameLexemes vs ts ∧ v.lexeme = t.lexeme ∧ SameLexemes vs' ts' := by
  obtain ⟨vs, ws, rfl, hvs, hws⟩ := h.append
  obtain ⟨v, vs', rfl, hv, hvs'⟩ := hws.cons
  exact ⟨vs, v, vs', rfl, hvs, hv, hvs'⟩

/-- A phrase between two tokens. -/
theorem SameLexemes.enclosed (h : SameLexemes us (l :: (ts ++ [r]))) :
    ∃ v vs w, us = v :: (vs ++ [w]) ∧ v.lexeme = l.lexeme ∧ SameLexemes vs ts ∧ w.lexeme = r.lexeme := by
  obtain ⟨v, ws, rfl, hv, hws⟩ := h.cons
  obtain ⟨vs, ws, rfl, hvs, hws⟩ := hws.append
  obtain ⟨w, rfl, hw⟩ := hws.single
  exact ⟨v, vs, w, rfl, hv, hvs, hw⟩

theorem NegativeNumeral.of_lexemes (h : NegativeNumeral ts) (hlex : SameLexemes us ts) : NegativeNumeral us := by
  obtain ⟨m, n, hm, hn, rfl⟩ := h
  obtain ⟨m', vs, rfl, hm', hvs⟩ := hlex.cons
  obtain ⟨n', rfl, hn'⟩ := hvs.single
  exact ⟨m', n', (kind_of_lexeme hm').trans hm, (kind_of_lexeme hn').trans hn, rfl⟩

/-- **Tokens spell what tokens of the same kinds and texts spell.** -/
theorem Spells.of_lexemes {p : Phrase} {m : p.Meaning} (h : Spells j p ts m) (hlex : SameLexemes us ts) :
    Spells j p us m := by
  induction h generalizing us with
  | term _ ih => exact .term (ih hlex)
  | factor _ ih => exact .factor (ih hlex)
  | unsigned _ ih => exact .unsigned (ih hlex)
  | base _ ih => exact .base (ih hlex)
  | one _ ih => exact .one (ih hlex)
  | sum _ ht _ iha ihb =>
    obtain ⟨vs, v, vs', rfl, hvs, hv, hvs'⟩ := hlex.between
    exact .sum (iha hvs) (kind_of_lexeme hv ▸ ht) (ihb hvs')
  | product _ ht _ iha ihb =>
    obtain ⟨vs, v, vs', rfl, hvs, hv, hvs'⟩ := hlex.between
    exact .product (iha hvs) (kind_of_lexeme hv ▸ ht) (ihb hvs')
  | power _ ht _ iha ihb =>
    obtain ⟨vs, v, vs', rfl, hvs, hv, hvs'⟩ := hlex.between
    exact .power (iha hvs) ((kind_of_lexeme hv).trans ht) (ihb hvs')
  | more _ ht _ iha ihas =>
    obtain ⟨vs, v, vs', rfl, hvs, hv, hvs'⟩ := hlex.between
    exact .more (iha hvs) ((kind_of_lexeme hv).trans ht) (ihas hvs')
  | beside hj _ _ hu iha ihb =>
    obtain ⟨vs, vs', rfl, hvs, hvs'⟩ := hlex.append
    exact .beside hj (iha hvs) (ihb hvs') (by rw [hvs'.nextKind, hu])
  | neg ht _ ih =>
    obtain ⟨v, vs, rfl, hv, hvs⟩ := hlex.cons
    exact .neg ((kind_of_lexeme hv).trans ht) (ih hvs)
  | pos ht _ ih =>
    obtain ⟨v, vs, rfl, hv, hvs⟩ := hlex.cons
    exact .pos ((kind_of_lexeme hv).trans ht) (ih hvs)
  | number ht =>
    obtain ⟨v, rfl, hv⟩ := hlex.single
    rw [← text_of_lexeme hv]
    exact .number ((kind_of_lexeme hv).trans ht)
  | constant ht hc =>
    obtain ⟨v, rfl, hv⟩ := hlex.single
    exact .constant ((kind_of_lexeme hv).trans ht) (text_of_lexeme hv ▸ hc)
  | var ht hn =>
    obtain ⟨v, rfl, hv⟩ := hlex.single
    rw [← text_of_lexeme hv] at hn ⊢
    exact .var ((kind_of_lexeme hv).trans ht) hn
  | call ht hn hl hr =>
    obtain ⟨v, _, rfl, hv, hvs⟩ := hlex.cons
    obtain ⟨x, _, rfl, hx, hws⟩ := hvs.cons
    obtain ⟨w, rfl, hw⟩ := hws.single
    rw [← text_of_lexeme hv] at hn ⊢
    exact .call ((kind_of_lexeme hv).trans ht) hn ((kind_of_lexeme hx).trans hl) ((kind_of_lexeme hw).trans hr)
  | function ht hl _ hr ha ih =>
    obtain ⟨v, _, rfl, hv, hvs⟩ := hlex.cons
    obtain ⟨x, vs, y, rfl, hx, hvs, hy⟩ := hvs.enclosed
    exact .function ((kind_of_lexeme hv).trans ht) ((kind_of_lexeme hx).trans hl) (ih hvs) ((kind_of_lexeme hy).trans hr)
      (text_of_lexeme hv ▸ ha)
  | literal hl hm ht hr =>
    obtain ⟨v, _, rfl, hv, hvs⟩ := hlex.cons
    obtain ⟨x, _, rfl, hx, hws⟩ := hvs.cons
    obtain ⟨y, _, rfl, hy, hxs⟩ := hws.cons
    obtain ⟨w, rfl, hw⟩ := hxs.single
    rw [← text_of_lexeme hy]
    exact .literal ((kind_of_lexeme hv).trans hl) ((kind_of_lexeme hx).trans hm) ((kind_of_lexeme hy).trans ht)
      ((kind_of_lexeme hw).trans hr)
  | group hl _ hn hr ih =>
    obtain ⟨v, vs, w, rfl, hv, hvs, hw⟩ := hlex.enclosed
    exact .group ((kind_of_lexeme hv).trans hl) (ih hvs) (fun h => hn (h.of_lexemes hvs.symm))
      ((kind_of_lexeme hw).trans hr)
  | vector hl _ hr ih =>
    obtain ⟨v, vs, w, rfl, hv, hvs, hw⟩ := hlex.enclosed
    exact .vector ((kind_of_lexeme hv).trans hl) (ih hvs) ((kind_of_lexeme hw).trans hr)
  | interval hl _ hd _ hr iha ihb =>
    obtain ⟨v, _, rfl, hv, htail⟩ := hlex.cons
    obtain ⟨vs, d, _, rfl, hvs, hd', hback⟩ := htail.between
    obtain ⟨vs', _, rfl, hvs', hclose⟩ := hback.append
    obtain ⟨w, rfl, hw⟩ := hclose.single
    exact .interval ((kind_of_lexeme hv).trans hl) (iha hvs) ((kind_of_lexeme hd').trans hd) (ihb hvs')
      ((kind_of_lexeme hw).trans hr)

/-- A text spells what another text with the same tokens spells. -/
theorem SpellsText.of_lexemes {text text' : String} {e : Expr} (h : SpellsText j text e)
    (hlex : SameLexemes (tokens text'.toList) (tokens text.toList)) : SpellsText j text' e := by
  obtain ⟨ts, p, hts, hs⟩ := h
  obtain ⟨body, p', hbody, -⟩ := tokensFrom_ends 0 text'.toList
  rw [hts, tokens, hbody, SameLexemes, List.map_append, List.map_append] at hlex
  exact ⟨body, p', hbody, hs.of_lexemes (List.append_inj' hlex rfl).1⟩

end

/-! ## Other white space -/

/-- White space is put where it cuts no token in two. -/
def Insertion (cs cs' : List Char) : Prop :=
  ∃ front blank back, cs = front ++ back ∧ cs' = front ++ (blank ++ back) ∧ Blank blank ∧
    IsBoundary front.length (tokens cs)

/-- The tokens of a text with a space between them. -/
def spaced (cs : List Char) : List Char := [' '].intercalate ((tokens cs).dropLast.map Token.text)

theorem Insertion.sameLexemes {cs cs' : List Char} (h : Insertion cs cs') (hbad : ∀ t ∈ tokens cs, t.kind ≠ .bad) :
    SameLexemes (tokens cs') (tokens cs) := by
  obtain ⟨front, blank, back, hcs, rfl, hblank, hboundary⟩ := h
  obtain ⟨ts, hts, hlex⟩ := (laid_tokensFrom 0 cs).insert hbad hcs (by rwa [Nat.zero_add]) hblank
  rw [tokens, tokensFrom_eq_iff.mpr hts]
  exact hlex

theorem SameLexemes.not_bad {ts us : List Token} (h : SameLexemes us ts) (hbad : ∀ t ∈ ts, t.kind ≠ .bad) :
    ∀ u ∈ us, u.kind ≠ .bad := by
  intro u hu
  have hmem : u.lexeme ∈ ts.map Token.lexeme := h ▸ List.mem_map_of_mem hu
  obtain ⟨t, ht, htu⟩ := List.mem_map.mp hmem
  rw [← kind_of_lexeme htu]
  exact hbad t ht

/-- One insertion after the other. -/
theorem sameLexemes_of_insertions {cs cs' : List Char} (h : Relation.ReflTransGen Insertion cs cs')
    (hbad : ∀ t ∈ tokens cs, t.kind ≠ .bad) : SameLexemes (tokens cs') (tokens cs) := by
  induction h with
  | refl => rfl
  | tail _ hstep ih => exact (hstep.sameLexemes (ih.not_bad hbad)).trans ih

theorem sameLexemes_spaced {cs : List Char} (hbad : ∀ t ∈ tokens cs, t.kind ≠ .bad) :
    SameLexemes (tokens (spaced cs)) (tokens cs) := by
  obtain ⟨ts, hts, hlex⟩ := (laid_tokensFrom 0 cs).spaced hbad 0
  have htokens : tokens (spaced cs) = ts := tokensFrom_eq_iff.mpr hts
  rw [htokens]
  exact hlex

/-- **White space between tokens does not matter.**  White space may be put at any boundaries of tokens, or a single
space at all of them, and the tokens are the same and are read as the same tree. -/
theorem parse_spacing {text text' : String} (hbad : ∀ t ∈ tokens text.toList, t.kind ≠ .bad)
    (h : Relation.ReflTransGen Insertion text.toList text'.toList ∨ text'.toList = spaced text.toList) :
    (tokens text'.toList).map Token.lexeme = (tokens text.toList).map Token.lexeme ∧
      ∀ (j : Bool) (e : Expr), parse j text' = .ok e ↔ parse j text = .ok e := by
  have hlex : SameLexemes (tokens text'.toList) (tokens text.toList) := by
    obtain h | h := h
    · exact sameLexemes_of_insertions h hbad
    · rw [h]
      exact sameLexemes_spaced hbad
  refine ⟨hlex, fun j e => ⟨fun he => ?_, fun he => ?_⟩⟩
  · exact parse_of_spellsText ((spellsText_of_parse he).of_lexemes hlex.symm)
  · exact parse_of_spellsText ((spellsText_of_parse he).of_lexemes hlex)

/-- The points of an interval stand apart from the number before them. -/
theorem parse_spacing_dots :
    (∀ t ∈ tokens "1..2".toList, t.kind ≠ .bad) ∧ Insertion "1..2".toList "1 ..2".toList ∧
      (tokens "1 ..2".toList).map Token.lexeme = (tokens "1..2".toList).map Token.lexeme ∧
      ∀ (j : Bool) (e : Expr), parse j "1 ..2" = .ok e ↔ parse j "1..2" = .ok e := by
  have htokens : tokens "1..2".toList =
      [⟨.number, ['1'], 0⟩, ⟨.dots, ['.', '.'], 1⟩, ⟨.number, ['2'], 3⟩, ⟨.finish, [], 4⟩] := by
    have hone : scan ("1..2".toList.dropWhile isBlank) = some (.number, ['1'], "..2".toList) := by decide
    have hdots : scan ("..2".toList.dropWhile isBlank) = some (.dots, ['.', '.'], ['2']) := by decide
    have htwo : scan (['2'].dropWhile isBlank) = some (.number, ['2'], []) := by decide
    rw [tokens, tokensFrom_scan hone, tokensFrom_scan hdots, tokensFrom_scan htwo, tokensFrom_stop rfl]
    rfl
  have hbad : ∀ t ∈ tokens "1..2".toList, t.kind ≠ .bad := by
    rw [htokens]
    decide
  have hinsertion : Insertion "1..2".toList "1 ..2".toList := by
    refine ⟨['1'], [' '], ['.', '.', '2'], rfl, rfl, List.forall_mem_singleton.mpr (by decide), ?_⟩
    rw [IsBoundary, htokens]
    decide
  exact ⟨hbad, hinsertion, parse_spacing hbad (.inl (.single hinsertion))⟩

end ExprCalculus.Grammar
