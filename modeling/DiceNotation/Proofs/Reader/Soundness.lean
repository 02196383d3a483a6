import DiceNotation.Proofs.Grammar
import DiceNotation.Proofs.Reader.Locality

/-!
What a reader accepts is a phrase of its kind, with the tree that it answers and at a charge that
the given levels cover. What it takes before it refuses is the beginning of such a phrase: an
operand, the end of a group or nothing at all is missing, and these can be supplied from the inside
out.

In a chain the levels left and the operators already read add up to the levels that the chain
started with; this sum is the invariant of the two tails.
-/
namespace DiceNotation

/-- The tokens of `ts` in front of `rest` are a phrase for `e`, at a charge of at most `levels`. -/
def Reads (levels : Nat) (p : Phrase) (ts : List Placed) (e : Expr) (rest : List Placed) : Prop :=
  ∃ (w : List Placed) (c : Nat),
    ts = w ++ rest ∧ Derives p (w.map Placed.token) e c ∧ c ≤ levels

namespace Reads

variable {levels n m position : Nat} {p q : Phrase} {ts us rest : List Placed} {e e₁ e₂ : Expr}

theorem imp (h : Reads levels p ts e rest) (hpq : ∀ {w c}, Derives p w e c → Derives q w e c) :
    Reads levels q ts e rest := by
  rcases h with ⟨w, c, rfl, hw, hc⟩
  exact ⟨w, c, rfl, hpq hw, hc⟩

theorem number (v : Value) : Reads levels .atom (⟨.number v, position⟩ :: rest) (.num v) rest :=
  ⟨[⟨.number v, position⟩], 0, rfl, .number v, Nat.zero_le _⟩

theorem group {closing : Nat} (h : Reads levels (.sum n) ts e (⟨.rparen, closing⟩ :: rest)) :
    Reads (levels + 1) .atom (⟨.lparen, position⟩ :: ts) e rest := by
  rcases h with ⟨w, c, rfl, hw, hc⟩
  refine ⟨⟨.lparen, position⟩ :: (w ++ [⟨.rparen, closing⟩]), c + 1, by simp, ?_, by omega⟩
  simpa only [List.map_cons, List.map_append, List.map_nil] using hw.group

theorem dice (hcount : Reads levels .atom ts e₁ (⟨.dice, position⟩ :: us))
    (hsides : Reads levels .atom us e₂ rest) : Reads levels .dice ts (.dice e₁ e₂) rest := by
  rcases hcount with ⟨w₁, c₁, rfl, hw₁, hc₁⟩
  rcases hsides with ⟨w₂, c₂, rfl, hw₂, hc₂⟩
  refine ⟨w₁ ++ ⟨.dice, position⟩ :: w₂, max c₁ c₂, by simp, ?_, by omega⟩
  simpa only [List.map_append, List.map_cons] using hw₁.dice hw₂

theorem die (h : Reads levels .atom ts e rest) :
    Reads levels .dice (⟨.dice, position⟩ :: ts) (.dice (.num 1) e) rest := by
  rcases h with ⟨w, c, rfl, hw, hc⟩
  exact ⟨⟨.dice, position⟩ :: w, c, rfl, hw.die, hc⟩

theorem negation (h : Reads levels .unary ts e rest) :
    Reads (levels + 1) .unary (⟨.minus, position⟩ :: ts) (.neg e) rest := by
  rcases h with ⟨w, c, rfl, hw, hc⟩
  exact ⟨⟨.minus, position⟩ :: w, c + 1, rfl, hw.negation, by omega⟩

theorem times {t : Placed} {f : Expr → Expr → Expr}
    (hleft : Reads (levels + 1 + n) (.product n) ts e₁ (t :: us))
    (ht : Token.JoinsFactors t.token f) (hright : Reads levels .unary us e₂ rest) :
    Reads (levels + (n + 1)) (.product (n + 1)) ts (f e₁ e₂) rest := by
  rcases hleft with ⟨w₁, c₁, rfl, hw₁, hc₁⟩
  rcases hright with ⟨w₂, c₂, rfl, hw₂, hc₂⟩
  refine ⟨w₁ ++ t :: w₂, max c₁ (n + 1 + c₂), by simp, ?_, by omega⟩
  simpa only [List.map_append, List.map_cons] using hw₁.times ht hw₂

theorem plus {t : Placed} {f : Expr → Expr → Expr}
    (hleft : Reads (levels + 1 + n) (.sum n) ts e₁ (t :: us))
    (ht : Token.JoinsTerms t.token f) (hright : Reads levels (.product m) us e₂ rest) :
    Reads (levels + (n + 1)) (.sum (n + 1)) ts (f e₁ e₂) rest := by
  rcases hleft with ⟨w₁, c₁, rfl, hw₁, hc₁⟩
  rcases hright with ⟨w₂, c₂, rfl, hw₂, hc₂⟩
  refine ⟨w₁ ++ t :: w₂, max c₁ (n + 1 + c₂), by simp, ?_, by omega⟩
  simpa only [List.map_append, List.map_cons] using hw₁.plus ht hw₂

end Reads

/-- The tokens of `ts` in front of `rest` are the beginning of a phrase, which `z` completes. -/
def Opens (p : Phrase) (ts rest : List Placed) : Prop :=
  ∃ (w : List Placed) (z : List Token) (e : Expr) (c : Nat),
    ts = w ++ rest ∧ Derives p (w.map Placed.token ++ z) e c

theorem Reads.opens {levels : Nat} {p : Phrase} {ts rest : List Placed} {e : Expr}
    (h : Reads levels p ts e rest) : Opens p ts rest := by
  obtain ⟨w, c, rfl, hw, -⟩ := h
  exact ⟨w, [], e, c, rfl, by rwa [List.append_nil]⟩

namespace Opens

variable {levels n m position : Nat} {p q : Phrase} {ts us rest : List Placed} {e : Expr}

theorem imp (h : Opens p ts rest)
    (hpq : ∀ {w e c}, Derives p w e c → ∃ e' c', Derives q w e' c') : Opens q ts rest := by
  obtain ⟨w, z, e, c, rfl, hw⟩ := h
  obtain ⟨e', c', hq⟩ := hpq hw
  exact ⟨w, z, e', c', rfl, hq⟩

/-- No tokens at all are the beginning of an atom. -/
theorem atom (ts : List Placed) : Opens .atom ts ts :=
  ⟨[], [.number 1], .num 1, 0, rfl, .number 1⟩

theorem group (h : Opens (.sum n) ts rest) :
    Opens .atom (⟨.lparen, position⟩ :: ts) rest := by
  obtain ⟨w, z, e, c, rfl, hw⟩ := h
  refine ⟨⟨.lparen, position⟩ :: w, z ++ [.rparen], e, c + 1, rfl, ?_⟩
  simpa only [List.map_cons, List.cons_append, List.append_assoc] using hw.group

theorem operand (ts : List Placed) : Opens .unary ts ts :=
  (atom ts).imp fun hw => ⟨_, _, hw.alone.plain⟩

theorem inside (ts : List Placed) : Opens (.sum 0) ts ts :=
  (operand ts).imp fun hw => ⟨_, _, hw.factor.term⟩

theorem sides (h : Opens .atom us rest)
    (hcount : Reads levels .atom ts e (⟨.dice, position⟩ :: us)) : Opens .dice ts rest := by
  obtain ⟨w₁, c₁, rfl, hw₁, -⟩ := hcount
  obtain ⟨w₂, z, e₂, c₂, rfl, hw₂⟩ := h
  refine ⟨w₁ ++ ⟨.dice, position⟩ :: w₂, z, .dice e e₂, max c₁ c₂, by simp, ?_⟩
  simpa only [List.map_append, List.map_cons, List.append_assoc, List.cons_append]
    using hw₁.dice hw₂

theorem die (h : Opens .atom ts rest) : Opens .dice (⟨.dice, position⟩ :: ts) rest := by
  obtain ⟨w, z, e, c, rfl, hw⟩ := h
  exact ⟨⟨.dice, position⟩ :: w, z, .dice (.num 1) e, c, rfl, hw.die⟩

theorem negation (h : Opens .unary ts rest) :
    Opens .unary (⟨.minus, position⟩ :: ts) rest := by
  obtain ⟨w, z, e, c, rfl, hw⟩ := h
  exact ⟨⟨.minus, position⟩ :: w, z, .neg e, c + 1, rfl, hw.negation⟩

theorem times {t : Placed} {f : Expr → Expr → Expr} (h : Opens .unary us rest)
    (hleft : Reads levels (.product n) ts e (t :: us)) (ht : Token.JoinsFactors t.token f) :
    Opens (.product (n + 1)) ts rest := by
  obtain ⟨w₁, c₁, rfl, hw₁, -⟩ := hleft
  obtain ⟨w₂, z, e₂, c₂, rfl, hw₂⟩ := h
  refine ⟨w₁ ++ t :: w₂, z, f e e₂, max c₁ (n + 1 + c₂), by simp, ?_⟩
  simpa only [List.map_append, List.map_cons, List.append_assoc, List.cons_append]
    using hw₁.times ht hw₂

theorem plus {t : Placed} {f : Expr → Expr → Expr} (h : Opens (.product m) us rest)
    (hleft : Reads levels (.sum n) ts e (t :: us)) (ht : Token.JoinsTerms t.token f) :
    Opens (.sum (n + 1)) ts rest := by
  obtain ⟨w₁, c₁, rfl, hw₁, -⟩ := hleft
  obtain ⟨w₂, z, e₂, c₂, rfl, hw₂⟩ := h
  refine ⟨w₁ ++ t :: w₂, z, f e e₂, max c₁ (n + 1 + c₂), by simp, ?_⟩
  simpa only [List.map_append, List.map_cons, List.append_assoc, List.cons_append]
    using hw₁.plus ht hw₂

end Opens

/-- What a reading tells of the tokens that are taken: they are a phrase, or the beginning of one if
the reading is refused. -/
def Accounts (levels : Nat) (p : Phrase) (ts : List Placed) : Reader.Reading → Prop
  | .ok (e, rest) => Reads levels p ts e rest
  | .error refusal => Opens p ts refusal.rest

namespace Reader

open Placed

mutual

theorem sum_accounts (levels : Nat) (ts : List Placed) :
    ∃ n, Accounts levels (.sum n) ts (sum levels ts) := by
  obtain ⟨n, h⟩ := product_accounts levels ts
  rw [sum_eq_andThen]
  generalize product levels ts = reading at h ⊢
  cases reading with
  | error refusal => exact ⟨0, Opens.imp h fun hw => ⟨_, _, hw.term⟩⟩
  | ok reading => exact sumTail_accounts levels 0 reading.1 (Reads.imp h .term)
termination_by 6 * levels + 5

theorem sumTail_accounts (levels n : Nat) (left : Expr) {ts us : List Placed}
    (hleft : Reads (levels + n) (.sum n) ts left us) :
    ∃ m, Accounts (levels + n) (.sum m) ts (sumTail levels left us) := by
  cases hfirst : (first us).additive? with
  | none =>
    rw [sumTail_of_first hfirst]
    exact ⟨n, hleft⟩
  | some f =>
    cases levels with
    | zero =>
      rw [sumTail_zero hfirst]
      exact ⟨n, hleft.opens⟩
    | succ inner =>
      obtain ⟨t, us, rfl⟩ := exists_cons_of_first (Token.ne_stop_of_additive? hfirst)
      have hjoins := Token.additive?_eq_some_iff.mp hfirst
      obtain ⟨m, h⟩ := product_accounts inner us
      rw [sumTail_eq_andThen hfirst, List.tail_cons]
      generalize product inner us = reading at h ⊢
      cases reading with
      | error refusal => exact ⟨n + 1, Opens.plus h hleft hjoins⟩
      | ok reading =>
        rw [show inner + 1 + n = inner + (n + 1) by omega]
        exact sumTail_accounts inner (n + 1) _ (hleft.plus hjoins h)
termination_by 6 * levels

theorem product_accounts (levels : Nat) (ts : List Placed) :
    ∃ n, Accounts levels (.product n) ts (product levels ts) := by
  have h := unary_accounts levels ts
  rw [product_eq_andThen]
  generalize unary levels ts = reading at h ⊢
  cases reading with
  | error refusal => exact ⟨0, Opens.imp h fun hw => ⟨_, _, hw.factor⟩⟩
  | ok reading => exact productTail_accounts levels 0 reading.1 (Reads.imp h .factor)
termination_by 6 * levels + 4

theorem productTail_accounts (levels n : Nat) (left : Expr) {ts us : List Placed}
    (hleft : Reads (levels + n) (.product n) ts left us) :
    ∃ m, Accounts (levels + n) (.product m) ts (productTail levels left us) := by
  cases hfirst : (first us).multiplicative? with
  | none =>
    rw [productTail_of_first hfirst]
    exact ⟨n, hleft⟩
  | some f =>
    cases levels with
    | zero =>
      rw [productTail_zero hfirst]
      exact ⟨n, hleft.opens⟩
    | succ inner =>
      obtain ⟨t, us, rfl⟩ := exists_cons_of_first (Token.ne_stop_of_multiplicative? hfirst)
      have hjoins := Token.multiplicative?_eq_some_iff.mp hfirst
      have h := unary_accounts inner us
      rw [productTail_eq_andThen hfirst, List.tail_cons]
      generalize unary inner us = reading at h ⊢
      cases reading with
      | error refusal => exact ⟨n + 1, Opens.times h hleft hjoins⟩
      | ok reading =>
        rw [show inner + 1 + n = inner + (n + 1) by omega]
        exact productTail_accounts inner (n + 1) _ (hleft.times hjoins h)
termination_by 6 * levels

theorem unary_accounts (levels : Nat) (ts : List Placed) :
    Accounts levels .unary ts (unary levels ts) := by
  by_cases hminus : first ts = .minus
  · obtain ⟨position, us, rfl⟩ := exists_of_first hminus (by decide)
    cases levels with
    | zero =>
      rw [unary]
      exact (Opens.operand us).negation
    | succ inner =>
      have h := unary_accounts inner us
      rw [unary_minus]
      generalize unary inner us = reading at h ⊢
      cases reading with
      | error refusal => exact Opens.negation h
      | ok reading => exact Reads.negation h
  · rw [unary_of_first hminus]
    have h := dice_accounts levels ts
    generalize dice levels ts = reading at h ⊢
    cases reading with
    | error refusal => exact Opens.imp h fun hw => ⟨_, _, hw.plain⟩
    | ok reading => exact Reads.imp h .plain
termination_by 6 * levels + 3

theorem dice_accounts (levels : Nat) (ts : List Placed) :
    Accounts levels .dice ts (dice levels ts) := by
  by_cases hdie : first ts = .dice
  · obtain ⟨position, us, rfl⟩ := exists_of_first hdie (by decide)
    have h := atom_accounts levels Expected.sides us
    rw [dice, sides_eq_andThen]
    generalize atom levels Expected.sides us = reading at h ⊢
    cases reading with
    | error refusal => exact Opens.die h
    | ok reading => exact Reads.die h
  · have h := atom_accounts levels Expected.expression ts
    rw [dice_eq_andThen hdie]
    generalize atom levels Expected.expression ts = reading at h ⊢
    cases reading with
    | error refusal => exact Opens.imp h fun hw => ⟨_, _, hw.alone⟩
    | ok reading => exact countEnd_accounts levels h
termination_by 6 * levels + 2

/-- Behind a count the sides are read, or the count stands alone. -/
theorem countEnd_accounts (levels : Nat) {ts rest : List Placed} {count : Expr}
    (hcount : Reads levels .atom ts count rest) :
    Accounts levels .dice ts
      (if first rest = .dice then sides levels count rest.tail else .ok (count, rest)) := by
  by_cases hdice : first rest = .dice
  · obtain ⟨position, us, rfl⟩ := exists_of_first hdice (by decide)
    have h := atom_accounts levels Expected.sides us
    rw [if_pos hdice, List.tail_cons, sides_eq_andThen]
    generalize atom levels Expected.sides us = reading at h ⊢
    cases reading with
    | error refusal => exact Opens.sides h hcount
    | ok reading => exact hcount.dice h
  · rw [if_neg hdice]
    exact hcount.imp .alone
termination_by 6 * levels + 1

theorem atom_accounts (levels : Nat) (expected : List Expected) (ts : List Placed) :
    Accounts levels .atom ts (atom levels expected ts) := by
  by_cases hgroup : first ts = .lparen
  · obtain ⟨position, us, rfl⟩ := exists_of_first hgroup (by decide)
    cases levels with
    | zero =>
      rw [atom]
      exact (Opens.inside us).group
    | succ inner =>
      obtain ⟨n, h⟩ := sum_accounts inner us
      rw [atom_eq_andThen hgroup, List.tail_cons]
      generalize sum inner us = reading at h ⊢
      cases reading with
      | error refusal => exact Opens.group h
      | ok reading =>
        obtain ⟨inside, rest⟩ := reading
        simp only [Reading.andThen]
        by_cases hclosed : first rest = .rparen
        · obtain ⟨closing, rest, rfl⟩ := exists_of_first hclosed (by decide)
          exact Reads.group h
        · rw [if_neg hclosed]
          exact (Reads.opens h).group
  · by_cases hnumber : ∃ v, first ts = .number v
    · rcases hnumber with ⟨v, hv⟩
      obtain ⟨position, us, rfl⟩ := exists_of_first hv (by simp)
      rw [atom]
      exact .number v
    · rw [atom_of_first (fun v hv => hnumber ⟨v, hv⟩) hgroup]
      exact .atom ts
termination_by 6 * levels

end

theorem sum_sound {levels : Nat} {ts rest : List Placed} {e : Expr}
    (h : sum levels ts = .ok (e, rest)) : ∃ n, Reads levels (.sum n) ts e rest := by
  obtain ⟨n, haccounts⟩ := sum_accounts levels ts
  rw [h] at haccounts
  exact ⟨n, haccounts⟩

theorem sum_opens {levels : Nat} {ts : List Placed} {refusal : Refusal}
    (h : sum levels ts = .error refusal) : ∃ n, Opens (.sum n) ts refusal.rest := by
  obtain ⟨n, haccounts⟩ := sum_accounts levels ts
  rw [h] at haccounts
  exact ⟨n, haccounts⟩

end Reader

end DiceNotation
