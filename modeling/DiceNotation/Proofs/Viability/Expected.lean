import DiceNotation.Proofs.Viability.Cursor

/-!
What an error expects. Where a reader refuses a token a cursor cannot get past it either, and the
reader expects what the cursor could get past, by the names that a message has for it. One thing it
never names: a `d` behind a free atom, which would make a count of this atom.
-/
namespace DiceNotation

/-- Whether a message means tokens like `t` by this name. An operator is any of the four between two
operands. -/
def Expected.Names : Expected → Token → Prop
  | number, t => ∃ v, t = .number v
  | dice, t => t = .dice
  | minus, t => t = .minus
  | lparen, t => t = .lparen
  | rparen, t => t = .rparen
  | operator, t => t = .plus ∨ t = .minus ∨ t = .star ∨ t = .slash
  | stop, t => t = .stop

/-- Whether some name of the list means tokens like `t`. -/
def Expected.Allows (expected : List Expected) (t : Token) : Prop := ∃ x ∈ expected, x.Names t

open Expected Placed

@[simp] theorem Expected.not_allows_nil (t : Token) : ¬Allows [] t := nofun

@[simp] theorem Expected.allows_cons {x : Expected} {expected : List Expected} {t : Token} :
    Allows (x :: expected) t ↔ x.Names t ∨ Allows expected t := by
  simp only [Allows, List.mem_cons, or_and_right, exists_or, exists_eq_left]

theorem Expected.allows_stop {expected : List Expected} (h : Allows expected .stop) :
    .stop ∈ expected := by
  obtain ⟨x, hx, hnames⟩ := h
  cases x <;> simp_all [Names]

theorem Placed.first_of_next {ts rest : List Placed} {t : Token} {position : Nat}
    (h : next ts rest = ⟨t, position⟩) : first rest = t := by
  rw [← next_token ts rest, h]

namespace Cursor

/-- What an error at this place expects. -/
def expected : Cursor → List Expected
  | ⟨.before true, _⟩ => expression
  | ⟨.before false, _⟩ => sides
  | ⟨.behind _, []⟩ => [.operator, .stop]
  | ⟨.behind _, _ :: _⟩ => [.operator, .rparen]

variable {c : Cursor} {t : Token}

theorem step_isSome_iff : (c.step t).isSome ↔
    t ≠ .stop ∧ (Allows c.expected t ∨ t = .dice ∧ c.slot = .behind true) := by
  obtain ⟨slot, groups⟩ := c
  rcases slot with (_ | _) | (_ | _) <;> rcases groups with _ | _ <;> cases t <;>
    simp [step, Slot.step, expected, expression, sides, Names]

theorem allows_stop_iff : Allows c.expected .stop ↔ ∃ free, c = ⟨.behind free, []⟩ := by
  obtain ⟨slot, groups⟩ := c
  rcases slot with (_ | _) | (_ | _) <;> rcases groups with _ | _ <;>
    simp [expected, expression, sides, Names]

theorem not_allows_dice {free : Bool} (h : c.slot = .behind free) : ¬Allows c.expected .dice := by
  obtain ⟨slot, groups⟩ := c
  obtain rfl : slot = .behind free := h
  cases groups <;> simp [expected, Names]

theorem step_before_of_ne {free : Bool} (hnumber : ∀ v, t ≠ .number v)
    (hgroup : t ≠ .lparen) (hfree : free = true → t ≠ .minus ∧ t ≠ .dice) (groups : List Bool) :
    step ⟨.before free, groups⟩ t = none := by
  cases t <;> simp_all [step, Slot.step]

end Cursor

/-- Whether an operand without operators ends in front of `t`, if its last atom is `free`. -/
def OperandEnds (free : Bool) (t : Token) : Prop := free = true → t ≠ .dice

def ProductEnds (free : Bool) (t : Token) : Prop := OperandEnds free t ∧ t.multiplicative? = none

def SumEnds (free : Bool) (t : Token) : Prop := ProductEnds free t ∧ t.additive? = none

/-- All that goes on behind a sum is the end of the group that holds it. -/
theorem SumEnds.step_behind {free : Bool} {t : Token} {groups : List Bool} (h : SumEnds free t)
    (hclosing : t = .rparen → groups = []) : Cursor.step ⟨.behind free, groups⟩ t = none := by
  obtain ⟨⟨hdice, hfactor⟩, hterm⟩ := h
  cases t <;>
    simp_all [OperandEnds, Token.multiplicative?, Token.additive?, Cursor.step, Slot.step]

/-- What a reading does with a cursor: it gets it behind a phrase that ends there, in front of the
groups that are open, or to a place from where it cannot get past the next token. -/
def Follows (levels : Nat) (c : Cursor) (groups : List Bool) (ends : Bool → Token → Prop)
    (ts : List Placed) : Reader.Reading → Prop
  | .ok (_, rest) => ∃ us free, ts = us ++ rest ∧
      c.pass (us.map token) = some ⟨.behind free, groups⟩ ∧ ends free (first rest)
  | .error ⟨.unexpected expected, rest⟩ => ∃ us c', ts = us ++ rest ∧
      c.pass (us.map token) = some c' ∧ expected = c'.expected ∧ .stop ∉ expected ∧
      c'.step (first rest) = none
  | .error ⟨.tooDeep, _⟩ => levels < ts.length

namespace Follows

variable {levels inner : Nat} {c c' : Cursor} {groups groups' : List Bool}
  {ends ends' : Bool → Token → Prop} {us rest ts : List Placed} {reading : Reader.Reading}

/-- Going on behind some tokens. Each of them may have opened a level. -/
theorem behind (h : Follows inner c' groups ends rest reading)
    (hus : c.pass (us.map token) = some c') (hlevels : levels ≤ inner + us.length) :
    Follows levels c groups ends (us ++ rest) reading := by
  rcases reading with ⟨_ | _, _⟩ | ⟨e, _⟩
  · obtain ⟨vs, c₁, rfl, hvs, hrest⟩ := h
    refine ⟨us ++ vs, c₁, by simp, ?_, hrest⟩
    rw [List.map_append, Cursor.pass_append_of_eq hus, hvs]
  · have hrest : inner < rest.length := h
    have hgoal : levels < (us ++ rest).length := by
      rw [List.length_append]
      omega
    exact hgoal
  · obtain ⟨vs, free, rfl, hvs, hends⟩ := h
    refine ⟨us ++ vs, free, by simp, ?_, hends⟩
    rw [List.map_append, Cursor.pass_append_of_eq hus, hvs]

theorem andThen {next : Expr → List Placed → Reader.Reading}
    (h : Follows levels c groups ends ts reading)
    (hnext : ∀ e free rest, ends free (first rest) →
      Follows levels ⟨.behind free, groups⟩ groups' ends' rest (next e rest)) :
    Follows levels c groups' ends' ts (reading.andThen next) := by
  rcases reading with ⟨_ | _, _⟩ | ⟨e, rest⟩
  · exact h
  · exact h
  · obtain ⟨us, free, rfl, hus, hends⟩ := h
    exact (hnext e free rest hends).behind hus (Nat.le_add_right _ _)

/-- Taking one token, at the cost of a level or not. -/
theorem cons {t : Placed} (h : Follows inner c' groups ends rest reading)
    (ht : c.step t.token = some c') (hlevels : levels ≤ inner + 1) :
    Follows levels c groups ends (t :: rest) reading := by
  have hpass : c.pass ([t].map token) = some c' := by
    rw [List.map_cons, Cursor.pass_cons, ht]
    rfl
  exact h.behind hpass hlevels

theorem still {free : Bool} {e : Expr} (h : ends free (first ts)) :
    Follows levels ⟨.behind free, groups⟩ groups ends ts (.ok (e, ts)) :=
  ⟨[], free, rfl, rfl, h⟩

end Follows

namespace Reader

open Cursor

mutual

theorem sum_follows (levels : Nat) (groups : List Bool) (ts : List Placed) :
    Follows levels ⟨.before true, groups⟩ groups SumEnds ts (sum levels ts) := by
  rw [sum_eq_andThen]
  exact (product_follows levels groups ts).andThen fun left _ _ hends =>
    sumTail_follows levels groups left hends
termination_by 6 * levels + 5

theorem sumTail_follows (levels : Nat) (groups : List Bool) (left : Expr) {free : Bool}
    {ts : List Placed} (hends : ProductEnds free (first ts)) :
    Follows levels ⟨.behind free, groups⟩ groups SumEnds ts (sumTail levels left ts) := by
  cases hfirst : (first ts).additive? with
  | none =>
    rw [sumTail_of_first hfirst]
    exact .still ⟨hends, hfirst⟩
  | some f =>
    obtain ⟨t, us, rfl⟩ := exists_cons_of_first (Token.ne_stop_of_additive? hfirst)
    cases levels with
    | zero =>
      rw [sumTail_zero hfirst]
      exact Nat.succ_pos us.length
    | succ inner =>
      have hstep := (Token.additive?_eq_some_iff.mp hfirst).step free
      rw [sumTail_eq_andThen hfirst, List.tail_cons]
      refine Follows.cons ?_ (step_of_slot hstep groups) (Nat.le_refl _)
      exact (product_follows inner groups us).andThen fun right _ _ hends =>
        sumTail_follows inner groups (f left right) hends
termination_by 6 * levels

theorem product_follows (levels : Nat) (groups : List Bool) (ts : List Placed) :
    Follows levels ⟨.before true, groups⟩ groups ProductEnds ts (product levels ts) := by
  rw [product_eq_andThen]
  exact (unary_follows levels groups ts).andThen fun left _ _ hends =>
    productTail_follows levels groups left hends
termination_by 6 * levels + 4

theorem productTail_follows (levels : Nat) (groups : List Bool) (left : Expr) {free : Bool}
    {ts : List Placed} (hends : OperandEnds free (first ts)) :
    Follows levels ⟨.behind free, groups⟩ groups ProductEnds ts (productTail levels left ts) := by
  cases hfirst : (first ts).multiplicative? with
  | none =>
    rw [productTail_of_first hfirst]
    exact .still ⟨hends, hfirst⟩
  | some f =>
    obtain ⟨t, us, rfl⟩ := exists_cons_of_first (Token.ne_stop_of_multiplicative? hfirst)
    cases levels with
    | zero =>
      rw [productTail_zero hfirst]
      exact Nat.succ_pos us.length
    | succ inner =>
      have hstep := (Token.multiplicative?_eq_some_iff.mp hfirst).step free
      rw [productTail_eq_andThen hfirst, List.tail_cons]
      refine Follows.cons ?_ (step_of_slot hstep groups) (Nat.le_refl _)
      exact (unary_follows inner groups us).andThen fun right _ _ hends =>
        productTail_follows inner groups (f left right) hends
termination_by 6 * levels

theorem unary_follows (levels : Nat) (groups : List Bool) (ts : List Placed) :
    Follows levels ⟨.before true, groups⟩ groups OperandEnds ts (unary levels ts) := by
  by_cases hminus : first ts = .minus
  · cases levels with
    | zero =>
      obtain ⟨position, us, rfl⟩ := exists_of_first hminus (by decide)
      rw [unary]
      exact Nat.succ_pos us.length
    | succ inner =>
      rw [unary_eq_andThen hminus]
      obtain ⟨position, us, rfl⟩ := exists_of_first hminus (by decide)
      refine Follows.cons ?_ rfl (Nat.le_refl _)
      exact (unary_follows inner groups us).andThen fun _ _ _ hends => .still hends
  · rw [unary_of_first hminus]
    exact dice_follows levels groups hminus
termination_by 6 * levels + 3

theorem dice_follows (levels : Nat) (groups : List Bool) {ts : List Placed}
    (hminus : first ts ≠ .minus) :
    Follows levels ⟨.before true, groups⟩ groups OperandEnds ts (dice levels ts) := by
  by_cases hdie : first ts = .dice
  · obtain ⟨position, us, rfl⟩ := exists_of_first hdie (by decide)
    rw [dice]
    exact (sides_follows levels groups (.num 1) us).cons rfl (Nat.le_succ levels)
  · rw [dice_eq_andThen hdie]
    refine (atom_follows levels true groups fun _ => ⟨hminus, hdie⟩).andThen ?_
    intro count free rest hfree
    subst hfree
    by_cases hdice : first rest = .dice
    · obtain ⟨position, us, rfl⟩ := exists_of_first hdice (by decide)
      rw [if_pos hdice, List.tail_cons]
      have hstep : Slot.step (.behind true) .dice = some (.before false) := rfl
      exact (sides_follows levels groups count us).cons (step_of_slot hstep groups) (by omega)
    · rw [if_neg hdice]
      exact .still fun _ => hdice
termination_by 6 * levels + 2

theorem sides_follows (levels : Nat) (groups : List Bool) (count : Expr) (ts : List Placed) :
    Follows levels ⟨.before false, groups⟩ groups OperandEnds ts (sides levels count ts) := by
  rw [sides_eq_andThen]
  refine (atom_follows levels false groups nofun).andThen ?_
  intro _ free rest hfree
  subst hfree
  exact .still nofun
termination_by 6 * levels + 1

theorem atom_follows (levels : Nat) (free : Bool) (groups : List Bool) {ts : List Placed}
    (hfree : free = true → first ts ≠ .minus ∧ first ts ≠ .dice) :
    Follows levels ⟨.before free, groups⟩ groups (fun free' _ => free' = free) ts
      (atom levels (expected ⟨.before free, groups⟩) ts) := by
  by_cases hgroup : first ts = .lparen
  · obtain ⟨position, us, rfl⟩ := exists_of_first hgroup (by decide)
    cases levels with
    | zero =>
      rw [atom]
      exact Nat.succ_pos us.length
    | succ inner =>
      rw [atom_eq_andThen hgroup, List.tail_cons]
      refine Follows.cons ?_ rfl (Nat.le_refl _)
      refine (sum_follows inner (free :: groups) us).andThen ?_
      intro inside free' rest hends
      by_cases hclosed : first rest = .rparen
      · obtain ⟨closing, rest, rfl⟩ := exists_of_first hclosed (by decide)
        rw [if_pos hclosed]
        exact ⟨[⟨.rparen, closing⟩], free, rfl, rfl, rfl⟩
      · rw [if_neg hclosed]
        exact ⟨[], _, rfl, rfl, rfl, by decide, hends.step_behind fun h => absurd h hclosed⟩
  · by_cases hnumber : ∃ v, first ts = .number v
    · obtain ⟨v, hv⟩ := hnumber
      obtain ⟨position, us, rfl⟩ := exists_of_first hv (by simp)
      rw [atom]
      exact ⟨[⟨.number v, position⟩], free, rfl, rfl, rfl⟩
    · rw [atom_of_first (fun v hv => hnumber ⟨v, hv⟩) hgroup]
      refine ⟨[], _, rfl, rfl, rfl, ?_, ?_⟩
      · cases free <;> simp [expected, expression, Expected.sides]
      · exact step_before_of_ne (fun v hv => hnumber ⟨v, hv⟩) hgroup hfree groups
termination_by 6 * levels

end

end Reader

open Cursor

/-- What the cursor cannot go on behind is the end of what it gets past. -/
theorem Cursor.eq_of_step_first {c c' d : Cursor} {us rest : List Placed}
    (h : c.pass ((us ++ rest).map token) = some d) (hus : c.pass (us.map token) = some c')
    (hstep : c'.step (first rest) = none) : rest = [] ∧ c' = d := by
  rw [List.map_append, pass_append_of_eq hus] at h
  cases rest with
  | nil => exact ⟨rfl, Option.some.inj h⟩
  | cons t rest =>
    rw [first_cons] at hstep
    rw [List.map_cons, pass_cons, hstep] at h
    cases h

/-- What gets the cursor behind an atom with no group open is a whole expression. The reader finds
it, given as many levels as there are tokens. -/
theorem exists_forms_of_pass {w : List Token} {free : Bool}
    (h : start.pass w = some ⟨.behind free, []⟩) : ∃ e c, Forms w e c := by
  have hfollows := Reader.sum_follows w.length [] (atStart w)
  rw [← map_token_atStart w] at h
  cases hsum : Reader.sum w.length (atStart w) with
  | error refusal =>
    rw [hsum] at hfollows
    obtain ⟨_ | _, rest⟩ := refusal
    · obtain ⟨us, c, hus, hpass, rfl, hstop, hstep⟩ := hfollows
      rw [hus] at h
      obtain ⟨-, rfl⟩ := eq_of_step_first h hpass hstep
      simp [expected] at hstop
    · have hlength : w.length < (atStart w).length := hfollows
      simp [atStart] at hlength
  | ok reading =>
    obtain ⟨e, rest⟩ := reading
    rw [hsum] at hfollows
    obtain ⟨us, free', hus, hpass, hends⟩ := hfollows
    rw [hus] at h
    obtain ⟨rfl, -⟩ := eq_of_step_first h hpass (hends.step_behind fun _ => rfl)
    obtain ⟨n, v, c, hv, hderives, -⟩ := Reader.sum_sound hsum
    refine ⟨e, c, n, ?_⟩
    rwa [← List.append_nil v, ← hv, map_token_atStart] at hderives

theorem viable_iff_pass {w : List Token} : Viable w ↔ ∃ c, start.pass w = some c := by
  constructor
  · exact Viable.pass
  · intro h
    obtain ⟨c, hc⟩ := h
    obtain ⟨z, free, hz⟩ := c.exists_completion
    rw [← pass_append_of_eq hc] at hz
    exact ⟨z, exists_forms_of_pass hz⟩

/-- Whether `t` can stand behind the tokens `w`, which is to say that an expression goes on with it,
or for the stop that `w` is a whole expression. -/
def Continues (w : List Token) (t : Token) : Prop :=
  if t = .stop then ∃ e c, Forms w e c else Viable (w ++ [t])

/-- Whether the tokens end with an atom, and not with one behind a `d`, which is the sides of
dice. -/
def EndsInFreeAtom (w : List Token) : Prop :=
  ∃ q a e c, w = q ++ a ∧ Derives .atom a e c ∧ q.getLast? ≠ some .dice

section Place

variable {w : List Token} {c : Cursor} {t : Token}

theorem continues_iff (hpass : start.pass w = some c) :
    Continues w t ↔ Allows c.expected t ∨ t = .dice ∧ c.slot = .behind true := by
  by_cases ht : t = .stop
  · subst ht
    simp only [Continues, if_true, allows_stop_iff, reduceCtorEq, false_and, or_false]
    constructor
    · intro h
      obtain ⟨e, charge, hforms⟩ := h
      obtain ⟨free, hfree⟩ := hforms.pass
      exact ⟨free, Option.some.inj (hpass.symm.trans hfree)⟩
    · intro h
      obtain ⟨free, rfl⟩ := h
      exact exists_forms_of_pass hpass
  · rw [Continues, if_neg ht, viable_iff_pass, pass_concat, hpass, Option.bind_some,
      ← Option.isSome_iff_exists, step_isSome_iff]
    exact and_iff_right ht

/-- Behind an atom the cursor knows whether it is free. -/
theorem exists_atom_of_pass {free : Bool} {groups : List Bool}
    (h : start.pass w = some ⟨.behind free, groups⟩) :
    ∃ q a e c, w = q ++ a ∧ Derives .atom a e c ∧ start.pass q = some ⟨.before free, groups⟩ := by
  induction w using List.reverseRecOn with
  | nil => cases h
  | append_singleton w t _ =>
    obtain ⟨c, hpass, hstep⟩ := exists_step_of_concat h
    rcases exists_of_step_behind hstep with ⟨v, rfl, rfl⟩ | ⟨rfl, last, rfl⟩
    · exact ⟨w, [.number v], .num v, 0, rfl, .number v, hpass⟩
    · replace hpass : start.pass w = some ⟨.behind last, [] ++ free :: groups⟩ := hpass
      obtain ⟨q, inside, rfl, hq, hinside⟩ := exists_opening hpass
      obtain ⟨e, c, n, hn⟩ := exists_forms_of_pass hinside
      exact ⟨q, .lparen :: (inside ++ [.rparen]), e, c + 1, by simp, hn.group, hq⟩

/-- An atom starts where one can stand. -/
theorem Derives.exists_before_of_pass {e : Expr} {charge : Nat} {c' : Cursor}
    (h : Derives .atom w e charge) (hpass : c.pass w = some c') :
    ∃ free groups, c = ⟨.before free, groups⟩ := by
  obtain ⟨slot, groups⟩ := c
  cases slot with
  | before free => exact ⟨free, groups, rfl⟩
  | behind free => cases h <;> simp [pass_cons, step, Slot.step] at hpass

theorem endsInFreeAtom_iff (hpass : start.pass w = some c) :
    EndsInFreeAtom w ↔ c.slot = .behind true := by
  constructor
  · intro h
    obtain ⟨q, a, e, charge, rfl, ha, hq⟩ := h
    obtain ⟨c', hc', hpass⟩ := exists_pass_of_append hpass
    obtain ⟨free, groups, rfl⟩ := ha.exists_before_of_pass hpass
    have hbehind : c = ⟨.behind free, groups⟩ :=
      Option.some.inj (hpass.symm.trans (ha.crosses free groups))
    rw [hbehind, (free_iff_getLast? hc').mpr hq]
  · intro h
    obtain ⟨slot, groups⟩ := c
    obtain rfl : slot = .behind true := h
    obtain ⟨q, a, e, charge, rfl, ha, hq⟩ := exists_atom_of_pass hpass
    exact ⟨q, a, e, charge, rfl, ha, (free_iff_getLast? hq).mp rfl⟩

end Place

/-- Whether names are given for all that can stand behind the tokens `w` and for nothing else, but
for a `d` that would make a count of the atom in front of it. -/
structure Expected.ExactBehind (expected : List Expected) (w : List Token) : Prop where
  continues : ∀ t, Allows expected t → Continues w t
  allows : ∀ t, t ≠ .dice → Continues w t → Allows expected t
  gap : Continues w .dice ∧ ¬Allows expected .dice ↔ EndsInFreeAtom w

theorem Cursor.exactBehind {w : List Token} {c : Cursor} (hpass : start.pass w = some c) :
    ExactBehind c.expected w where
  continues t ht := (continues_iff hpass).mpr (.inl ht)
  allows t hdice ht := ((continues_iff hpass).mp ht).resolve_right fun h => hdice h.1
  gap := by
    rw [continues_iff hpass, endsInFreeAtom_iff hpass]
    constructor
    · intro h
      exact (h.1.resolve_left h.2).2
    · intro h
      exact ⟨.inr ⟨rfl, h⟩, not_allows_dice h⟩

/-- Where a token is unexpected, there is a cursor that cannot get past it. -/
theorem Expr.exists_cursor_of_unexpected {ts : List Placed} {found : Token}
    {expected : List Expected} {position : Nat}
    (h : parse ts = .error ⟨.unexpected found expected, position⟩) :
    ∃ us rest c, ts = us ++ rest ∧ next ts rest = ⟨found, position⟩ ∧
      start.pass (us.map token) = some c ∧ expected = c.expected ∧ c.step found = none ∧
      (found = .stop → ¬Allows expected found) := by
  have hfollows := Reader.sum_follows maxDepth [] ts
  unfold parse at h
  cases hsum : Reader.sum maxDepth ts with
  | error refusal =>
    obtain ⟨reason, rest⟩ := refusal
    simp only [hsum, Except.error.injEq, Reader.Refusal.toError_eq_unexpected_iff] at h hfollows
    obtain ⟨rfl, hnext⟩ := h
    obtain ⟨us, c, rfl, hpass, rfl, hstop, hstep⟩ := hfollows
    obtain rfl := first_of_next hnext
    refine ⟨us, rest, c, rfl, hnext, hpass, rfl, hstep, ?_⟩
    intro heq hallows
    rw [heq] at hallows
    exact hstop (allows_stop hallows)
  | ok reading =>
    obtain ⟨e, rest⟩ := reading
    rw [hsum] at hfollows
    obtain ⟨us, free, rfl, hpass, hends⟩ := hfollows
    simp only [hsum, next_token] at h
    split at h
    case isTrue => cases h
    case isFalse hfirst =>
      rw [Except.error.injEq, Reader.Refusal.toError_eq_unexpected_iff] at h
      obtain ⟨hreason, hnext⟩ := h
      cases hreason
      obtain rfl := first_of_next hnext
      exact ⟨us, rest, _, rfl, hnext, hpass, rfl, hends.step_behind fun _ => rfl,
        fun hstop => absurd hstop hfirst⟩

/-- An error expects exactly what can stand in the place of the token that it points at, in front of
which stands the beginning `us` of an expression, but for the one gap that `ExactBehind` tells. The
token itself cannot stand there. -/
theorem Expr.parse_expects_what_continues {ts : List Placed} {found : Token}
    {expected : List Expected} {position : Nat}
    (h : parse ts = .error ⟨.unexpected found expected, position⟩) :
    ∃ us rest, ts = us ++ rest ∧ next ts rest = ⟨found, position⟩ ∧ Viable (us.map token) ∧
      ExactBehind expected (us.map token) ∧ ¬Continues (us.map token) found ∧
      ¬Allows expected found := by
  obtain ⟨us, rest, c, hts, hnext, hpass, rfl, hstep, hstop⟩ := exists_cursor_of_unexpected h
  have hnone : ¬(c.step found).isSome := by simp [hstep]
  rw [step_isSome_iff] at hnone
  have hallows : ¬Allows c.expected found := by
    intro hallows
    exact hnone ⟨fun heq => hstop heq hallows, .inl hallows⟩
  refine ⟨us, rest, hts, hnext, viable_iff_pass.mpr ⟨c, hpass⟩, exactBehind hpass, ?_, hallows⟩
  intro hcontinues
  have hdice := ((continues_iff hpass).mp hcontinues).resolve_left hallows
  exact hnone ⟨by simp [hdice.1], .inr hdice⟩

/-- Behind the first group of `(1)(2)` a `d` can stand that is not named. -/
theorem Expr.parse_expects_behind_group :
    let ts : List Placed := [⟨.lparen, 0⟩, ⟨.number 1, 1⟩, ⟨.rparen, 2⟩, ⟨.lparen, 3⟩,
      ⟨.number 2, 4⟩, ⟨.rparen, 5⟩, ⟨.stop, 6⟩]
    parse ts = .error ⟨.unexpected .lparen [.operator, .stop], 3⟩ ∧
      ∃ us rest, ts = us ++ rest ∧ next ts rest = ⟨.lparen, 3⟩ ∧ Viable (us.map token) ∧
        ExactBehind [.operator, .stop] (us.map token) ∧ ¬Continues (us.map token) .lparen ∧
        ¬Allows [.operator, .stop] .lparen := by
  intro ts
  have h : parse ts = .error ⟨.unexpected .lparen [.operator, .stop], 3⟩ := by cbv
  exact ⟨h, parse_expects_what_continues h⟩

end DiceNotation
