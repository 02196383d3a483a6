import DiceNotation.Proofs.Acceptance
import DiceNotation.Proofs.Height.Budget
import Mathlib.Order.Bounds.Defs
import Mathlib.Tactic.Ring

/-!
The highest trees that are read. With `c` levels an operand can stand at the foot of a chain of `c`
factors, and that chain at the foot of one of `c` terms, since neither charges its first operand.
Repeated for each level of the limit this gives a tree whose height is the square of the limit, and
more, and no tree is higher.
-/
namespace DiceNotation

open Placed

/-- The tokens of a chain that starts with `w` and goes on with `n` ones. -/
def Token.ones (t : Token) (w : List Token) : Nat → List Token
  | 0 => w
  | n + 1 => t.ones w n ++ [t, .number 1]

theorem Token.length_ones (t : Token) (w : List Token) (n : Nat) :
    (t.ones w n).length = w.length + 2 * n := by
  induction n with
  | zero => rfl
  | succ n ih =>
    simp only [ones, List.length_append, List.length_cons, List.length_nil]
    omega

namespace Expr

def addOnes (e : Expr) : Nat → Expr
  | 0 => e
  | n + 1 => add (e.addOnes n) (num 1)

def mulOnes (e : Expr) : Nat → Expr
  | 0 => e
  | n + 1 => mul (e.mulOnes n) (num 1)

section Chains

variable {counts : Step → Bool} (hleft : counts .left = true) (hright : counts .right = true)
include hleft hright

theorem height_addOnes (n : Nat) (e : Expr) :
    (e.addOnes n).height counts = e.height counts + n := by
  induction n with
  | zero => rfl
  | succ n ih =>
    simp only [addOnes, height, hleft, hright, Bool.toNat_true]
    omega

theorem height_mulOnes (n : Nat) (e : Expr) :
    (e.mulOnes n).height counts = e.height counts + n := by
  induction n with
  | zero => rfl
  | succ n ih =>
    simp only [mulOnes, height, hleft, hright, Bool.toNat_true]
    omega

end Chains

end Expr

section Towers

variable {w : List Token} {e : Expr} {c m : Nat}

theorem Derives.mulOnes (h : Derives .unary w e c) (n : Nat) :
    Derives (.product n) (Token.star.ones w n) (e.mulOnes n) (max c n) := by
  induction n with
  | zero =>
    rw [Nat.max_zero]
    exact h.factor
  | succ n ih =>
    have htimes := ih.times .star (Derives.number 1).alone.plain
    rwa [show max (max c n) (n + 1 + 0) = max c (n + 1) by omega] at htimes

theorem Derives.addOnes (h : Derives (.product m) w e c) (n : Nat) :
    Derives (.sum n) (Token.plus.ones w n) (e.addOnes n) (max c n) := by
  induction n with
  | zero =>
    rw [Nat.max_zero]
    exact h.term
  | succ n ih =>
    have hplus := ih.plus .plus (Derives.number 1).alone.plain.factor
    rwa [show max (max c n) (n + 1 + 0) = max c (n + 1) by omega] at hplus

/-- An operand with `c` levels can stand at the foot of `c` factors and `c` terms. -/
theorem Derives.tower (h : Derives .unary w e c) :
    Derives (.sum c) (Token.plus.ones (Token.star.ones w c) c) ((e.mulOnes c).addOnes c) c := by
  have hsum := (h.mulOnes c).addOnes c
  rwa [Nat.max_self, Nat.max_self] at hsum

theorem height_tower (all : Bool) (e : Expr) (c : Nat) :
    ((e.mulOnes c).addOnes c).height (Step.isCounted all) =
      e.height (Step.isCounted all) + 2 * c := by
  rw [Expr.height_addOnes rfl rfl, Expr.height_mulOnes rfl rfl]
  omega

theorem exists_derives_tallest (all : Bool) (c : Nat) :
    ∃ w e, Derives .unary w e c ∧ e.height (Step.isCounted all) = tallest all c := by
  induction c with
  | zero =>
    refine ⟨_, .dice (.num 1) (.num 1), ((Derives.number 1).dice (.number 1)).plain, ?_⟩
    simp only [Expr.height, Step.isCounted, tallest]
    omega
  | succ c ih =>
    rcases ih with ⟨w, e, hunary, hheight⟩
    by_cases hnegated : tallest all c + 2 * c + all.toNat ≤ tallest all c + 1
    · refine ⟨_, _, hunary.negation, ?_⟩
      simp only [Expr.height, Step.isCounted, Bool.toNat_true, tallest]
      omega
    · have htower := height_tower all e c
      refine ⟨_, _, hunary.tower.group.die.plain, ?_⟩
      simp only [Expr.height, Step.isCounted, tallest] at htower ⊢
      omega

theorem exists_forms_height (all : Bool) (c : Nat) :
    ∃ w e, Forms w e c ∧ e.height (Step.isCounted all) = tallest all c + 2 * c := by
  obtain ⟨w, e, hunary, hheight⟩ := exists_derives_tallest all c
  exact ⟨_, _, ⟨c, hunary.tower⟩, by rw [height_tower, hheight]⟩

theorem exists_negations (n : Nat) :
    ∃ w e, Derives .unary w e n ∧ w.length = n + 1 ∧ e.height Step.isOperation = n := by
  induction n with
  | zero => exact ⟨_, _, (Derives.number 1).alone.plain, rfl, rfl⟩
  | succ n ih =>
    rcases ih with ⟨w, e, hunary, hlength, hheight⟩
    refine ⟨_, _, hunary.negation, ?_, ?_⟩
    · rw [List.length_cons, hlength]
    · rw [Expr.height, hheight]
      rfl

end Towers

theorem tallest_false_succ (c : Nat) : tallest false (c + 1) = (c + 1) * c + 1 := by
  induction c with
  | zero => rfl
  | succ c ih =>
    rw [tallest, ih, Bool.toNat_false, Nat.max_eq_right (by omega)]
    ring

/-- The most operations on a path with all levels of the limit. -/
theorem tallest_false_maxDepth :
    tallest false maxDepth + 2 * maxDepth = maxDepth ^ 2 + maxDepth + 1 := by
  have htallest : tallest false maxDepth = (255 + 1) * 255 + 1 := tallest_false_succ 255
  rw [htallest]
  rfl

namespace Expr

section Accepted

variable {ts : List Placed} {e : Expr} {p : List Step}

theorem countP_isCharged_le (h : parse ts = .ok e) (hp : Path e p) :
    p.countP Step.isCharged ≤ maxDepth := by
  obtain ⟨c, ⟨n, hderives⟩, hc⟩ := forms_of_parse h
  have hcount : p.countP Step.isCharged ≤ e.height Step.isCharged := hp.countP_le_height
  have hheight := hderives.height_isCharged_le
  omega

/-- Lists with up to two tokens more than the limit are too short for more operations. -/
theorem countP_isOperation_le_of_length_le (h : parse ts = .ok e) (hp : Path e p)
    (hlength : (body ts).length ≤ maxDepth + 2) : p.countP Step.isOperation ≤ maxDepth := by
  obtain ⟨c, ⟨n, hderives⟩, hc⟩ := forms_of_parse h
  have hcount : p.countP Step.isOperation ≤ e.height Step.isOperation := hp.countP_le_height
  have hheight := hderives.height_isCharged_le
  have hshort := hderives.height_lt_length
  omega

theorem countP_isCounted_le (all : Bool) (h : parse ts = .ok e) (hp : Path e p) :
    p.countP (Step.isCounted all) ≤ tallest all maxDepth + 2 * maxDepth := by
  obtain ⟨c, hforms, hc⟩ := forms_of_parse h
  have hcount : p.countP (Step.isCounted all) ≤ e.height (Step.isCounted all) :=
    hp.countP_le_height
  have hheight := hforms.height_le all
  have hmono := tallest_mono all hc
  omega

theorem countP_isOperation_le (h : parse ts = .ok e) (hp : Path e p) :
    p.countP Step.isOperation ≤ maxDepth ^ 2 + maxDepth + 1 := by
  have hcount := countP_isCounted_le false h hp
  rwa [tallest_false_maxDepth, Step.isCounted_false] at hcount

/-- The limit bounds the operations of all lists up to this length, and of no greater one. With all
levels spent on signs, a last operation charges its first operand nothing. -/
theorem forall_operations_le_iff (n : Nat) :
    (∀ ts e, parse ts = .ok e → (body ts).length ≤ n →
        ∀ p, Path e p → p.countP Step.isOperation ≤ maxDepth) ↔ n ≤ maxDepth + 2 := by
  constructor
  · intro hall
    obtain ⟨w, e, hunary, hlength, hheight⟩ := exists_negations maxDepth
    have hforms : Forms (Token.plus.ones w 1) (e.addOnes 1) (max maxDepth 1) :=
      ⟨1, hunary.factor.addOnes 1⟩
    obtain ⟨p, hp, hcount⟩ := (e.addOnes 1).exists_path_countP Step.isOperation
    rw [height_addOnes rfl rfl, hheight] at hcount
    apply Nat.le_of_not_lt
    intro hn
    have hshort : (body (atStart (Token.plus.ones w 1))).length ≤ n := by
      rw [hforms.body_atStart, Token.length_ones, hlength]
      omega
    have hle := hall _ _ (hforms.parse_atStart (Nat.le_refl _)) hshort p hp
    omega
  · intro hn ts e hparse hlength p hp
    exact countP_isOperation_le_of_length_le hparse hp (Nat.le_trans hlength hn)

/-- What the limit bounds on a path are the steps out of negations and to right operands. So the
operations are within the limit for all lists up to two tokens longer than it, and for no longer
ones. With the steps to left operands they go up to its square and more. -/
theorem operations_le_iff (h : parse ts = .ok e) :
    (∀ p, Path e p → p.countP Step.isCharged ≤ maxDepth) ∧
      (∀ n, (∀ ts e, parse ts = .ok e → (body ts).length ≤ n →
          ∀ p, Path e p → p.countP Step.isOperation ≤ maxDepth) ↔ n ≤ maxDepth + 2) ∧
      ((body ts).length ≤ maxDepth + 2 →
        ∀ p, Path e p → p.countP Step.isOperation ≤ maxDepth) ∧
      ∀ p, Path e p → p.countP Step.isOperation ≤ maxDepth ^ 2 + maxDepth + 1 := by
  refine ⟨fun _ => countP_isCharged_le h, forall_operations_le_iff, ?_,
    fun _ => countP_isOperation_le h⟩
  intro hlength p hp
  exact countP_isOperation_le_of_length_le h hp hlength

end Accepted

/-- In `-1+1` all operations are within the limit. -/
theorem operations_le_signed_sum :
    parse (atStart [.minus, .number 1, .plus, .number 1]) = .ok (add (neg (num 1)) (num 1)) ∧
      ∀ p, Path (add (neg (num 1)) (num 1)) p → p.countP Step.isOperation ≤ maxDepth := by
  have hnegation : Derives .unary [.minus, .number 1] (neg (num 1)) 1 :=
    (Derives.number 1).alone.plain.negation
  have hforms : Forms [.minus, .number 1, .plus, .number 1] (add (neg (num 1)) (num 1)) 1 :=
    ⟨1, hnegation.factor.addOnes 1⟩
  have hparse := hforms.parse_atStart (by decide)
  refine ⟨hparse, (operations_le_iff hparse).2.2.1 ?_⟩
  rw [hforms.body_atStart]
  decide

/-- In `-1+1+1…` with as many operators as there are levels, the negation is below all of them. -/
theorem parse_high_chain :
    parse (atStart (Token.plus.ones [.minus, .number 1] maxDepth)) =
        .ok ((neg (num 1)).addOnes maxDepth) ∧
      ∃ p, Path ((neg (num 1)).addOnes maxDepth) p ∧
        p.countP Step.isOperation = maxDepth + 1 := by
  have hnegation : Derives .unary [.minus, .number 1] (neg (num 1)) 1 :=
    (Derives.number 1).alone.plain.negation
  have hforms : Forms _ _ (max 1 maxDepth) := ⟨maxDepth, hnegation.factor.addOnes maxDepth⟩
  have hheight : ((neg (num 1)).addOnes maxDepth).height Step.isOperation = maxDepth + 1 :=
    (height_addOnes rfl rfl maxDepth _).trans (Nat.add_comm 1 maxDepth)
  refine ⟨hforms.parse_atStart (Nat.le_refl _), ?_⟩
  rw [← hheight]
  exact exists_path_countP _ _

theorem isGreatest_operations :
    IsGreatest {n | ∃ ts e p, parse ts = .ok e ∧ Path e p ∧ p.countP Step.isOperation = n}
      (maxDepth ^ 2 + maxDepth + 1) := by
  constructor
  · obtain ⟨w, e, hforms, hheight⟩ := exists_forms_height false maxDepth
    obtain ⟨p, hp, hcount⟩ := e.exists_path_countP Step.isOperation
    refine ⟨_, e, p, hforms.parse_atStart (Nat.le_refl _), hp, ?_⟩
    rw [hcount, ← Step.isCounted_false, hheight, tallest_false_maxDepth]
  · rintro n ⟨ts, e, p, hparse, hp, rfl⟩
    exact countP_isOperation_le hparse hp

end Expr

end DiceNotation
