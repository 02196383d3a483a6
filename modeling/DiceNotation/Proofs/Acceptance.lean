import DiceNotation.Proofs.Reader.Completeness
import DiceNotation.Proofs.Reader.Soundness

/-!
Reading a list of tokens accepts exactly the expressions of the grammar whose depth charge is in
bounds. What counts of the list is its body, the tokens in front of the first `Token.stop`.
-/
namespace DiceNotation

namespace Placed

/-- The tokens in front of the first `Token.stop`, or all of them where there is none. -/
def body (ts : List Placed) : List Token := (ts.map token).takeWhile (· ≠ .stop)

theorem body_cons (t : Placed) (ts : List Placed) :
    body (t :: ts) = if t.token = .stop then [] else t.token :: body ts := by
  by_cases ht : t.token = .stop <;> simp [body, ht]

theorem body_of_first {ts : List Placed} (h : first ts = .stop) : body ts = [] := by
  cases ts with
  | nil => rfl
  | cons t ts =>
    rw [first_cons] at h
    rw [body_cons, if_pos h]

theorem first_of_body_nil {ts : List Placed} (h : body ts = []) : first ts = .stop := by
  cases ts with
  | nil => rfl
  | cons t ts =>
    rw [body_cons] at h
    split at h
    case isTrue ht => exact ht
    case isFalse => cases h

theorem first_of_body_cons {ts : List Placed} {t : Token} {w : List Token}
    (h : body ts = t :: w) : first ts = t := by
  cases ts with
  | nil => cases h
  | cons t' ts =>
    rw [body_cons] at h
    split at h
    case isTrue => cases h
    case isFalse => exact (List.cons.inj h).1

theorem body_append_of_notMem {ts : List Placed} (hts : Token.stop ∉ ts.map token)
    (rest : List Placed) : body (ts ++ rest) = ts.map token ++ body rest := by
  unfold body
  rw [List.map_append, List.takeWhile_append_of_pos]
  intro t ht
  rw [decide_eq_true_eq]
  rintro rfl
  exact hts ht

theorem body_append {ts rest : List Placed} (hts : Token.stop ∉ ts.map token)
    (hrest : first rest = .stop) : body (ts ++ rest) = ts.map token := by
  rw [body_append_of_notMem hts, body_of_first hrest, List.append_nil]

/-- Every list is its body, followed by nothing or by a list with `Token.stop` in front. -/
theorem exists_body (ts : List Placed) :
    ∃ us rest, ts = us ++ rest ∧ us.map token = body ts ∧ first rest = .stop := by
  induction ts with
  | nil => exact ⟨[], [], rfl, rfl, rfl⟩
  | cons t ts ih =>
    by_cases ht : t.token = .stop
    · have hfirst : first (t :: ts) = .stop := ht
      exact ⟨[], t :: ts, rfl, (body_of_first hfirst).symm, hfirst⟩
    · rcases ih with ⟨us, rest, rfl, hus, hrest⟩
      refine ⟨t :: us, rest, rfl, ?_, hrest⟩
      rw [List.map_cons, hus, body_cons, if_neg ht]

/-- Tokens for which it does not matter where they are written. -/
def atStart (w : List Token) : List Placed := w.map fun t => ⟨t, 0⟩

theorem map_token_atStart (w : List Token) : (atStart w).map token = w := by
  rw [atStart, List.map_map]
  exact List.map_id w

theorem next_token (ts rest : List Placed) : (next ts rest).token = first rest := by
  cases rest <;> rfl

end Placed

open Placed

theorem Expr.parse_eq_ok_iff {ts : List Placed} {e : Expr} :
    parse ts = .ok e ↔ ∃ rest, Reader.sum maxDepth ts = .ok (e, rest) ∧ first rest = .stop := by
  unfold parse
  cases h : Reader.sum maxDepth ts with
  | error refusal => simp
  | ok reading =>
    rcases reading with ⟨e', rest⟩
    simp only [next_token, Except.ok.injEq, Prod.mk.injEq]
    by_cases hrest : first rest = .stop
    · simp only [if_pos hrest, Except.ok.injEq]
      constructor
      · intro heq
        exact ⟨rest, ⟨heq, rfl⟩, hrest⟩
      · intro hread
        rcases hread with ⟨_, ⟨heq, -⟩, -⟩
        exact heq
    · simp only [if_neg hrest, reduceCtorEq, false_iff]
      intro hread
      rcases hread with ⟨_, ⟨-, rfl⟩, hstop⟩
      exact hrest hstop

/-- Lists that are accepted have an expression in bounds for their body. -/
theorem Expr.forms_of_parse {ts : List Placed} {e : Expr} (h : parse ts = .ok e) :
    ∃ c, Forms (body ts) e c ∧ c ≤ maxDepth := by
  obtain ⟨rest, hsum, hrest⟩ := parse_eq_ok_iff.mp h
  obtain ⟨n, w, c, rfl, hw, hc⟩ := Reader.sum_sound hsum
  refine ⟨c, ⟨n, ?_⟩, hc⟩
  rwa [body_append hw.stop_notMem hrest]

namespace Forms

/-- What is left of an expression in front of an end of the tokens is nothing. -/
theorem sum_within {us rest : List Placed} {e : Expr} {c levels : Nat}
    (h : Forms (us.map token) e c) (hrest : first rest = .stop) (hc : c ≤ levels) :
    Reader.sum levels (us ++ rest) = .ok (e, rest) := by
  rcases h with ⟨n, hn⟩
  have hread : Reader.sum levels (us ++ rest) = Reader.sumTail (levels - n) e rest :=
    hn.accepts.within levels [] rest rfl
      (by simp [Phrase.EndsAt, hrest, Token.multiplicative?]) hc
  rw [hread, Reader.sumTail_of_first (by rw [hrest]; rfl)]

theorem sum_beyond {us rest : List Placed} {e : Expr} {c levels : Nat}
    (h : Forms (us.map token) e c) (hrest : first rest = .stop) (hc : levels < c) :
    ∃ vs, Reader.sum levels (us ++ rest) = .error ⟨.tooDeep, vs⟩ := by
  rcases h with ⟨n, hn⟩
  exact hn.accepts.beyond levels [] rest rfl
    (by simp [Phrase.EndsAt, hrest, Token.multiplicative?]) hc

/-- The grammar is unambiguous: tokens form one tree at most, and at one charge. -/
theorem unique {w : List Token} {e e' : Expr} {c c' : Nat} (h : Forms w e c)
    (h' : Forms w e' c') : e = e' ∧ c = c' := by
  obtain ⟨us, rfl⟩ : ∃ us : List Placed, us.map token = w := ⟨atStart w, map_token_atStart w⟩
  have hread : ∀ levels, c ≤ levels → Reader.sum levels (us ++ []) = .ok (e, []) :=
    fun levels hc => h.sum_within rfl hc
  have hread' : ∀ levels, c' ≤ levels → Reader.sum levels (us ++ []) = .ok (e', []) :=
    fun levels hc => h'.sum_within rfl hc
  have htree := (hread (max c c') (by omega)).symm.trans (hread' (max c c') (by omega))
  simp only [Except.ok.injEq, Prod.mk.injEq, and_true] at htree
  refine ⟨htree, ?_⟩
  -- One level less than the greater charge would be both enough and too few.
  rcases Nat.lt_trichotomy c c' with hlt | heq | hlt
  · obtain ⟨vs, hrefused⟩ := h'.sum_beyond first_nil hlt
    simp only [hread c (Nat.le_refl _), reduceCtorEq] at hrefused
  · exact heq
  · obtain ⟨vs, hrefused⟩ := h.sum_beyond first_nil hlt
    simp only [hread' c' (Nat.le_refl _), reduceCtorEq] at hrefused

theorem parse_within {ts : List Placed} {e : Expr} {c : Nat} (h : Forms (body ts) e c)
    (hc : c ≤ maxDepth) : Expr.parse ts = .ok e := by
  obtain ⟨us, rest, rfl, hus, hrest⟩ := exists_body ts
  rw [← hus] at h
  exact Expr.parse_eq_ok_iff.mpr ⟨rest, h.sum_within hrest hc, hrest⟩

theorem body_atStart {w : List Token} {e : Expr} {c : Nat} (h : Forms w e c) :
    body (atStart w) = w := by
  rcases h with ⟨n, hderives⟩
  have hstop : Token.stop ∉ (atStart w).map token := by
    rw [map_token_atStart]
    exact hderives.stop_notMem
  have hbody := body_append hstop first_nil
  rwa [List.append_nil, map_token_atStart] at hbody

theorem parse_atStart {w : List Token} {e : Expr} {c : Nat} (h : Forms w e c)
    (hc : c ≤ maxDepth) : Expr.parse (atStart w) = .ok e := by
  apply parse_within _ hc
  rwa [h.body_atStart]

theorem parse_beyond {ts : List Placed} {e : Expr} {c : Nat} (h : Forms (body ts) e c)
    (hc : maxDepth < c) : ∃ position, Expr.parse ts = .error ⟨.tooDeep, position⟩ := by
  obtain ⟨us, rest, rfl, hus, hrest⟩ := exists_body ts
  rw [← hus] at h
  obtain ⟨vs, hsum⟩ := h.sum_beyond hrest hc
  exact ⟨(next (us ++ rest) vs).position, by rw [Expr.parse, hsum]; rfl⟩

end Forms

namespace Expr

/-- Two ends of the tokens that start alike cannot be told apart. -/
theorem parse_append {ts us vs : List Placed} (hus : first us = .stop) (hvs : first vs = .stop)
    (hnext : ∀ rest, next (ts ++ us) (rest ++ us) = next (ts ++ vs) (rest ++ vs)) :
    parse (ts ++ us) = parse (ts ++ vs) := by
  rw [parse, parse, Reader.sum_append hus, Reader.sum_append hvs]
  cases Reader.sum maxDepth ts with
  | error refusal =>
    simp only [Reader.Reading.withRest, Reader.Reading.rest, Reader.Refusal.toError, hnext]
  | ok reading =>
    simp only [Reader.Reading.withRest, Reader.Reading.rest, Reader.Refusal.toError, hnext]

/-- Tokens behind the first `Token.stop` do not count. -/
theorem parse_stop (ts us : List Placed) (position : Nat) :
    parse (ts ++ ⟨.stop, position⟩ :: us) = parse (ts ++ [⟨.stop, position⟩]) := by
  apply parse_append rfl rfl
  intro rest
  cases rest <;> rfl

/-- A missing `Token.stop` is as good as one at the place of the last token. -/
theorem parse_missing_stop (ts : List Placed) :
    parse ts = parse (ts ++ [⟨.stop, (ts.getLast?.map position).getD 0⟩]) := by
  have h : parse (ts ++ []) = parse (ts ++ [⟨.stop, (ts.getLast?.map position).getD 0⟩]) := by
    apply parse_append rfl rfl
    intro rest
    cases rest <;> simp [next]
  rwa [List.append_nil] at h

/-- A list of tokens is read as `e` exactly when its body forms `e` at a charge in bounds. At a
greater charge it is too deep, and a body that forms nothing is an error. -/
theorem parse_exact (ts : List Placed) :
    (∀ e, parse ts = .ok e ↔ ∃ c, Forms (body ts) e c ∧ c ≤ maxDepth) ∧
      (∀ e c, Forms (body ts) e c → maxDepth < c →
        ∃ position, parse ts = .error ⟨.tooDeep, position⟩) ∧
      ((∀ e c, ¬ Forms (body ts) e c) → ∃ error, parse ts = .error error) ∧
      (∀ position us, parse (ts ++ ⟨.stop, position⟩ :: us) = parse (ts ++ [⟨.stop, position⟩])) ∧
      parse ts = parse (ts ++ [⟨.stop, (ts.getLast?.map position).getD 0⟩]) := by
  refine ⟨fun e => ⟨forms_of_parse, ?_⟩, fun e c => Forms.parse_beyond, ?_,
    fun position us => parse_stop ts us position, parse_missing_stop ts⟩
  · intro hforms
    rcases hforms with ⟨c, h, hc⟩
    exact h.parse_within hc
  · intro hnone
    cases hparse : parse ts with
    | error error => exact ⟨error, rfl⟩
    | ok e =>
      obtain ⟨c, h, -⟩ := forms_of_parse hparse
      exact absurd h (hnone e c)

end Expr

end DiceNotation
