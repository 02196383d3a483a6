import DiceNotation.Proofs.Acceptance
import Mathlib.Order.Bounds.Defs

/-!
Where a list of tokens is refused. All that is in front of the token that an error points at can be
completed to an expression. If the token itself is unexpected, it ends this: no expression begins
with it as well. So the error points at the first token that is out of place.
-/
namespace DiceNotation

/-- Whether some expression of the grammar begins with the tokens, of whatever depth it is. -/
def Viable (w : List Token) : Prop := ∃ z e c, Forms (w ++ z) e c

namespace Viable

theorem of_append {w z : List Token} (h : Viable (w ++ z)) : Viable w := by
  obtain ⟨z', e, c, h⟩ := h
  rw [List.append_assoc] at h
  exact ⟨z ++ z', e, c, h⟩

theorem of_prefix {w w' : List Token} (h : Viable w') (hw : w <+: w') : Viable w := by
  obtain ⟨z, rfl⟩ := hw
  exact h.of_append

theorem stop_notMem {w : List Token} (h : Viable w) : Token.stop ∉ w := by
  obtain ⟨z, e, c, n, h⟩ := h
  exact fun hmem => h.stop_notMem (List.mem_append_left z hmem)

end Viable

open Placed

namespace Reader

/-- Whether the reading of a whole list is refused at `rest`, with what is in front of it taken. The
places of the tokens do not matter, nor does any token behind the first of `rest`. -/
structure StopsAt (reason : Reason) (us rest : List Placed) : Prop where
  viable : Viable (us.map token)
  again : ∀ us' rest', us'.map token = us.map token → first rest' = first rest →
    Expr.parse (us' ++ rest') = .error (Refusal.toError (us' ++ rest') ⟨reason, rest'⟩)

end Reader

open Reader

/-- Every error is the refusal of some rest of the list. -/
theorem Expr.exists_stopsAt {ts : List Placed} {error : ParseError} (h : parse ts = .error error) :
    ∃ reason us rest, ts = us ++ rest ∧ StopsAt reason us rest := by
  obtain ⟨us, heq, hread⟩ := sum_local maxDepth ts
  unfold parse at h
  cases hsum : sum maxDepth ts with
  | error refusal =>
    simp only [hsum, Reading.rest, Reading.withRest] at heq hread
    obtain ⟨n, w, z, e, c, hw, hderives⟩ := sum_opens hsum
    obtain rfl : w = us := List.append_cancel_right (hw.symm.trans heq)
    refine ⟨refusal.reason, w, refusal.rest, heq, ⟨z, e, c, n, hderives⟩, ?_⟩
    intro us' rest' hus hrest
    rw [parse, hread us' rest' hus hrest]
  | ok reading =>
    obtain ⟨e, rest⟩ := reading
    simp only [hsum, Reading.rest, Reading.withRest] at heq hread
    obtain ⟨n, w, c, hw, hderives, -⟩ := sum_sound hsum
    obtain rfl : w = us := List.append_cancel_right (hw.symm.trans heq)
    have hfirst : first rest ≠ .stop := by
      intro hstop
      simp only [hsum, next_token, hstop, if_true, reduceCtorEq] at h
    refine ⟨.unexpected [.operator, .stop], w, rest, heq, ⟨[], e, c, n, ?_⟩, ?_⟩
    · rwa [List.append_nil]
    · intro us' rest' hus hrest
      rw [parse, hread us' rest' hus hrest]
      simp only [next_token, hrest, hfirst, if_false]

/-- Tokens that form an expression are accepted or too deep, so none of them is unexpected. -/
theorem Expr.not_forms_of_unexpected {ts : List Placed} {found : Token} {expected : List Expected}
    {position : Nat} (h : parse ts = .error ⟨.unexpected found expected, position⟩) :
    ∀ e c, ¬Forms (body ts) e c := by
  intro e c hforms
  by_cases hc : c ≤ maxDepth
  · rw [hforms.parse_within hc] at h
    cases h
  · obtain ⟨position', hdeep⟩ := hforms.parse_beyond (Nat.lt_of_not_le hc)
    rw [hdeep] at h
    cases h

namespace Reader.StopsAt

variable {reason : Reason} {expected : List Expected} {us rest : List Placed}

theorem parse_eq (h : StopsAt reason us rest) :
    Expr.parse (us ++ rest) = .error (Refusal.toError (us ++ rest) ⟨reason, rest⟩) :=
  h.again us rest rfl rfl

theorem body_eq (h : StopsAt reason us rest) : body (us ++ rest) = us.map token ++ body rest :=
  body_append_of_notMem h.viable.stop_notMem rest

theorem take_body (h : StopsAt reason us rest) :
    (body (us ++ rest)).take us.length = us.map token := by
  rw [h.body_eq]
  exact List.take_left' (List.length_map _)

theorem length_le (h : StopsAt reason us rest) : us.length ≤ (body (us ++ rest)).length := by
  rw [h.body_eq, List.length_append, List.length_map]
  exact Nat.le_add_right _ _

/-- No expression begins with an unexpected token behind what is in front of it. -/
theorem not_viable (h : StopsAt (.unexpected expected) us rest) :
    ¬Viable (us.map token ++ [first rest]) := by
  rintro ⟨z, e, c, hforms⟩
  have hlist : atStart (us.map token) ++ ⟨first rest, 0⟩ :: atStart z =
      atStart (us.map token ++ [first rest] ++ z) := by simp [atStart]
  have hparse := h.again (atStart (us.map token)) (⟨first rest, 0⟩ :: atStart z)
    (map_token_atStart _) rfl
  rw [hlist] at hparse
  exact Expr.not_forms_of_unexpected hparse e c (by rwa [hforms.body_atStart])

/-- What is in front of an unexpected token is the longest beginning of an expression. -/
theorem isGreatest_length (h : StopsAt (.unexpected expected) us rest) :
    IsGreatest {k | k ≤ (body (us ++ rest)).length ∧ Viable ((body (us ++ rest)).take k)}
      us.length := by
  refine ⟨⟨h.length_le, ?_⟩, ?_⟩
  · rw [h.take_body]
    exact h.viable
  · rintro j ⟨hj, hviable⟩
    refine Nat.le_of_not_lt fun hlt => ?_
    rw [h.body_eq, List.length_append, List.length_map] at hj
    obtain ⟨t, w, hw⟩ : ∃ t w, body rest = t :: w :=
      List.exists_cons_of_length_pos (by omega)
    obtain rfl := first_of_body_cons hw
    have hbegins : us.map token ++ [first rest] <+: body (us ++ rest) := by
      rw [h.body_eq, hw]
      exact ⟨w, (List.append_cons ..).symm⟩
    refine h.not_viable (hviable.of_prefix (List.prefix_take_iff.mpr ⟨hbegins, ?_⟩))
    simp only [List.length_append, List.length_map, List.length_singleton]
    omega

theorem next_inside (h : StopsAt reason us rest) (hlt : us.length < (body (us ++ rest)).length) :
    (body (us ++ rest))[us.length]? = some (next (us ++ rest) rest).token ∧
      (us ++ rest)[us.length]? = some (next (us ++ rest) rest) := by
  rw [h.body_eq, List.length_append, List.length_map] at hlt
  obtain ⟨t, w, hw⟩ : ∃ t w, body rest = t :: w := List.exists_cons_of_length_pos (by omega)
  have hfirst := first_of_body_cons hw
  cases rest with
  | nil => cases hw
  | cons t' rest =>
    obtain rfl : t'.token = t := hfirst
    rw [h.body_eq, hw]
    exact ⟨by simp [next], by simp [next]⟩

theorem first_of_length_eq (h : StopsAt reason us rest)
    (heq : us.length = (body (us ++ rest)).length) : first rest = .stop := by
  rw [h.body_eq, List.length_append, List.length_map] at heq
  exact first_of_body_nil (List.eq_nil_of_length_eq_zero (by omega))

end Reader.StopsAt

theorem Placed.getElem?_length (us rest : List Placed) : (us ++ rest)[us.length]? = rest.head? := by
  rw [List.getElem?_append_right (Nat.le_refl _), Nat.sub_self, List.head?_eq_getElem?]

theorem Placed.next_of_head? {ts rest : List Placed} {t : Placed} (h : rest.head? = some t) :
    next ts rest = t := by
  rw [next, List.headD_eq_head?_getD, h, Option.getD_some]

namespace Reader.Refusal

variable {reason : Reason} {rest ts : List Placed} {position : Nat}

theorem toError_eq_unexpected_iff {found : Token} {expected : List Expected} :
    toError ts ⟨reason, rest⟩ = ⟨.unexpected found expected, position⟩ ↔
      reason = .unexpected expected ∧ next ts rest = ⟨found, position⟩ := by
  rcases hnext : next ts rest with ⟨t, place⟩
  cases reason <;> simp [toError, hnext, and_comm, and_assoc]

theorem toError_eq_tooDeep_iff :
    toError ts ⟨reason, rest⟩ = ⟨.tooDeep, position⟩ ↔
      reason = .tooDeep ∧ (next ts rest).position = position := by
  cases reason <;> simp [toError]

end Reader.Refusal

/-- An unexpected token is the one behind the longest beginning of an expression, told as it stands
in the list. If the whole body is such a beginning but no expression, it is the stop, at its place
or, where it is missing, at the place of the last token. Also what is in front of a token that is
too deep is the beginning of an expression, and which token this is does not depend on where the
tokens are written. -/
theorem Expr.parse_error_at_longest_viable (ts : List Placed) :
    (∀ found expected position, parse ts = .error ⟨.unexpected found expected, position⟩ →
      ∃ k, IsGreatest {k | k ≤ (body ts).length ∧ Viable ((body ts).take k)} k ∧
        (k < (body ts).length → (body ts)[k]? = some found ∧ ts[k]? = some ⟨found, position⟩) ∧
        (k = (body ts).length → (∀ e c, ¬Forms (body ts) e c) ∧ found = .stop ∧
          (∀ t, ts[k]? = some t → t = ⟨.stop, position⟩) ∧
          (ts[k]? = none → position = (ts.getLast?.map Placed.position).getD 0))) ∧
      ∀ position, parse ts = .error ⟨.tooDeep, position⟩ →
        ∃ k, k ≤ (body ts).length ∧ Viable ((body ts).take k) ∧
          ∀ us, us.map token = ts.map token →
            parse us = .error ⟨.tooDeep, (next us (us.drop k)).position⟩ := by
  constructor
  · intro found expected position h
    have hparse := h
    obtain ⟨reason, us, rest, rfl, hstops⟩ := exists_stopsAt h
    rw [hstops.parse_eq, Except.error.injEq, Refusal.toError_eq_unexpected_iff] at h
    obtain ⟨rfl, hnext⟩ := h
    refine ⟨us.length, hstops.isGreatest_length, ?_, ?_⟩
    · intro hlt
      have hinside := hstops.next_inside hlt
      rwa [hnext] at hinside
    · intro heq
      have hfirst := hstops.first_of_length_eq heq
      obtain rfl : found = .stop := by rw [← hfirst, ← next_token (us ++ rest) rest, hnext]
      refine ⟨not_forms_of_unexpected hparse, rfl, ?_, ?_⟩
      · intro t ht
        rw [getElem?_length] at ht
        rw [← hnext, next_of_head? ht]
      · intro hnone
        rw [getElem?_length, List.head?_eq_none_iff] at hnone
        rw [hnone] at hnext
        rw [hnone]
        exact (congrArg Placed.position hnext).symm
  · intro position h
    obtain ⟨reason, us, rest, rfl, hstops⟩ := exists_stopsAt h
    rw [hstops.parse_eq, Except.error.injEq, Refusal.toError_eq_tooDeep_iff] at h
    obtain ⟨rfl, -⟩ := h
    refine ⟨us.length, hstops.length_le, ?_, ?_⟩
    · rw [hstops.take_body]
      exact hstops.viable
    · intro vs hvs
      rw [List.map_append] at hvs
      obtain ⟨us', rest', rfl, hus, hrest⟩ := List.map_eq_append_iff.mp hvs
      have hlength : us.length = us'.length := by
        rw [← List.length_map token, ← hus, List.length_map]
      rw [hstops.again us' rest' hus (first_congr hrest), hlength, List.drop_left]
      rfl

example : Expr.parse [⟨.number 2, 0⟩, ⟨.dice, 1⟩, ⟨.minus, 3⟩, ⟨.number 3, 5⟩, ⟨.stop, 6⟩] =
    .error ⟨.unexpected .minus Expected.sides, 3⟩ := by cbv

end DiceNotation
