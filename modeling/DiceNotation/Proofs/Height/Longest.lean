import DiceNotation.Proofs.Height.Towers

/-!
The longest paths through the trees that are read, with all their steps. With `c` levels left a
tower is `c` terms on top of `c` factors on top of dice, whose count is the tower of one level less
in parentheses. Each floor of the tower adds twice its levels and the step into the dice, which add
up to a square. A function that descends into all parts of a tree has to descend as far.
-/
namespace DiceNotation

open Placed

theorem Step.countP_isCounted_true (p : List Step) : p.countP (isCounted true) = p.length := by
  rw [List.countP_eq_length]
  intro s hs
  cases s <;> rfl

/-- Dice of one side whose count is in parentheses. -/
def Token.groupedDice (w : List Token) : List Token :=
  .lparen :: (w ++ [.rparen]) ++ [.dice, .number 1]

/-- The tokens of the tower with `c` levels. -/
def Token.tower : Nat → List Token
  | 0 => [.number 1, .dice, .number 1]
  | c + 1 => Token.plus.ones (Token.star.ones (groupedDice (tower c)) (c + 1)) (c + 1)

namespace Expr

/-- The tree of the tower with `c` levels. -/
def tower : Nat → Expr
  | 0 => dice (num 1) (num 1)
  | c + 1 => ((dice (tower c) (num 1)).mulOnes (c + 1)).addOnes (c + 1)

/-- The tower with `c` levels is read with `c` levels. -/
theorem derives_tower (c : Nat) : Derives (.sum c) (Token.tower c) (tower c) c := by
  have hone : Derives .atom [.number 1] (num 1) 0 := .number 1
  induction c with
  | zero => exact (hone.dice hone).plain.factor.term
  | succ c ih =>
    have hdice : Derives .unary (Token.groupedDice (Token.tower c)) (dice (tower c) (num 1))
        (max (c + 1) 0) := (ih.group.dice hone).plain
    rw [Nat.max_zero] at hdice
    exact hdice.tower

theorem height_tower_eq (c : Nat) : (tower c).height (Step.isCounted true) = (c + 1) ^ 2 := by
  induction c with
  | zero => rfl
  | succ c ih =>
    have hdice : (dice (tower c) (num 1)).height (Step.isCounted true) = (c + 1) ^ 2 + 1 := by
      simp only [height, ih, Step.isCounted, Bool.toNat_true]
      omega
    rw [tower, height_tower, hdice]
    ring

theorem isDeterministic_mulOnes (e : Expr) (n : Nat) :
    (e.mulOnes n).isDeterministic = e.isDeterministic := by
  induction n with
  | zero => rfl
  | succ n ih => rw [mulOnes, isDeterministic, ih, isDeterministic, Bool.and_true]

theorem isDeterministic_addOnes (e : Expr) (n : Nat) :
    (e.addOnes n).isDeterministic = e.isDeterministic := by
  induction n with
  | zero => rfl
  | succ n ih => rw [addOnes, isDeterministic, ih, isDeterministic, Bool.and_true]

/-- All dice of a tower have one side. So whoever looks for dice that vary has to go through all of
it, down to its foot. -/
theorem isDeterministic_tower (c : Nat) : (tower c).isDeterministic = true := by
  induction c with
  | zero => rfl
  | succ c ih =>
    rw [tower, isDeterministic_addOnes, isDeterministic_mulOnes, isDeterministic, ih]
    simp [isDeterministic]

end Expr

/-- The recurrence of the greatest height of an operand, solved where all steps count. -/
theorem tallest_true (c : Nat) : tallest true c = c ^ 2 + 1 := by
  induction c with
  | zero => rfl
  | succ c ih =>
    have hsquare : (c + 1) ^ 2 = c ^ 2 + 2 * c + 1 := by ring
    rw [tallest, ih, Bool.toNat_true, hsquare]
    omega

/-- No path through a tree that takes up to `c` levels is longer than the tower of these. -/
theorem Forms.length_le {w : List Token} {e : Expr} {c c' : Nat} {p : List Step}
    (h : Forms w e c') (hc : c' ≤ c) (hp : e.Path p) : p.length ≤ (c + 1) ^ 2 := by
  have hheight := h.height_le true
  have hmono := tallest_mono true hc
  have hcount : p.countP (Step.isCounted true) ≤ e.height (Step.isCounted true) :=
    hp.countP_le_height
  have hsquare : (c + 1) ^ 2 = c ^ 2 + 1 + 2 * c := by ring
  rw [Step.countP_isCounted_true] at hcount
  rw [tallest_true c] at hmono
  omega

namespace Expr

theorem exists_path_tower (c : Nat) : ∃ p, Path (tower c) p ∧ p.length = (c + 1) ^ 2 := by
  obtain ⟨p, hp, hcount⟩ := (tower c).exists_path_countP (Step.isCounted true)
  rw [Step.countP_isCounted_true, height_tower_eq] at hcount
  exact ⟨p, hp, hcount⟩

/-- The longest path through the tree of an accepted list has as many steps as the square of one
more than the limit, and the tower with all levels of the limit is such a tree. The same holds of
any number of levels `c` in place of the limit. -/
theorem isGreatest_pathLength :
    IsGreatest {n | ∃ ts e p, parse ts = .ok e ∧ Path e p ∧ p.length = n} ((maxDepth + 1) ^ 2) ∧
      parse (atStart (Token.tower maxDepth)) = .ok (tower maxDepth) ∧
      (tower maxDepth).isDeterministic = true ∧
      ∀ c, IsGreatest
          {n | ∃ w e c' p, Forms w e c' ∧ c' ≤ c ∧ Path e p ∧ p.length = n} ((c + 1) ^ 2) ∧
        Forms (Token.tower c) (tower c) c ∧ ∃ p, Path (tower c) p ∧ p.length = (c + 1) ^ 2 := by
  have hforms (c : Nat) : Forms (Token.tower c) (tower c) c := ⟨c, derives_tower c⟩
  have hparse := (hforms maxDepth).parse_atStart (Nat.le_refl _)
  refine ⟨⟨?_, ?_⟩, hparse, isDeterministic_tower maxDepth, ?_⟩
  · obtain ⟨p, hp, hlength⟩ := exists_path_tower maxDepth
    exact ⟨_, _, p, hparse, hp, hlength⟩
  · rintro n ⟨ts, e, p, haccepted, hp, rfl⟩
    obtain ⟨c, h, hc⟩ := forms_of_parse haccepted
    exact h.length_le hc hp
  · intro c
    obtain ⟨p, hp, hlength⟩ := exists_path_tower c
    refine ⟨⟨⟨_, _, c, p, hforms c, Nat.le_refl c, hp, hlength⟩, ?_⟩, hforms c, p, hp, hlength⟩
    rintro n ⟨w, e, c', p', h, hc, hp', rfl⟩
    exact h.length_le hc hp'

end Expr

end DiceNotation
