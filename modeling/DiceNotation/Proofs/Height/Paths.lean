import DiceNotation.Proofs.Grammar

/-!
Paths through a tree, from the tree down to a literal. A path is told by its steps, and every
expression on it but the literal at its end is left by one step. How high a tree is depends on which
steps count: all of them, only those out of operations, or only those that the depth charge is for.
-/
namespace DiceNotation

/-- The ways from an expression to one below it. -/
inductive Step where
  | count
  | sides
  | operand
  | left
  | right
  deriving DecidableEq, Repr

namespace Step

/-- Whether the step leads out of a negation, a sum, a difference, a product or a quotient. -/
def isOperation : Step → Bool
  | count | sides => false
  | operand | left | right => true

/-- Whether the step leads out of a negation, or over the operator of a chain. -/
def isCharged : Step → Bool
  | operand | right => true
  | count | sides | left => false

/-- Whether the step leads out of an operation, or out of anything where `all` steps count. -/
def isCounted (all : Bool) : Step → Bool
  | count | sides => all
  | operand | left | right => true

theorem isCounted_false : isCounted false = isOperation := by
  funext s
  cases s <;> rfl

end Step

namespace Expr

/-- The expressions right below an expression, each with the step to it. -/
def parts : Expr → List (Step × Expr)
  | num _ => []
  | dice count sides => [(.count, count), (.sides, sides)]
  | neg operand => [(.operand, operand)]
  | add left right | sub left right | mul left right | div left right =>
    [(.left, left), (.right, right)]

/-- The steps of a way from `e` down to a literal. -/
inductive Path : Expr → List Step → Prop
  | stop {e} (h : e.parts = []) : Path e []
  | step {e s child p} (h : (s, child) ∈ e.parts) (rest : Path child p) : Path e (s :: p)

/-- The greatest number of steps on a path that count. -/
def height (counts : Step → Bool) : Expr → Nat
  | num _ => 0
  | dice count sides =>
    max (count.height counts + (counts .count).toNat) (sides.height counts + (counts .sides).toNat)
  | neg operand => operand.height counts + (counts .operand).toNat
  | add left right | sub left right | mul left right | div left right =>
    max (left.height counts + (counts .left).toNat) (right.height counts + (counts .right).toNat)

section Paths

variable {counts : Step → Bool} {e : Expr} {p : List Step}

theorem countP_cons_toNat (s : Step) (p : List Step) :
    (s :: p).countP counts = p.countP counts + (counts s).toNat := by
  rw [List.countP_cons]
  cases counts s <;> rfl

theorem height_part_le {s : Step} {child : Expr} (h : (s, child) ∈ e.parts) :
    child.height counts + (counts s).toNat ≤ e.height counts := by
  cases e with
  | num v => cases h
  | neg operand =>
    obtain ⟨rfl, rfl⟩ := Prod.mk.inj (List.mem_singleton.mp h)
    exact Nat.le_refl _
  | dice left right | add left right | sub left right | mul left right | div left right =>
    rcases List.mem_cons.mp h with hleft | hright
    · obtain ⟨rfl, rfl⟩ := Prod.mk.inj hleft
      exact Nat.le_max_left _ _
    · obtain ⟨rfl, rfl⟩ := Prod.mk.inj (List.mem_singleton.mp hright)
      exact Nat.le_max_right _ _

theorem Path.countP_le_height (h : Path e p) : p.countP counts ≤ e.height counts := by
  induction h with
  | stop hnone => exact Nat.zero_le _
  | @step e s child p hchild rest ih =>
    have hle : child.height counts + (counts s).toNat ≤ e.height counts := height_part_le hchild
    rw [countP_cons_toNat]
    omega

theorem exists_path_max {left right : Expr} {s s' : Step}
    (hparts : e.parts = [(s, left), (s', right)])
    (ihleft : ∃ p, Path left p ∧ p.countP counts = left.height counts)
    (ihright : ∃ p, Path right p ∧ p.countP counts = right.height counts) :
    ∃ p, Path e p ∧ p.countP counts =
      max (left.height counts + (counts s).toNat) (right.height counts + (counts s').toNat) := by
  rcases ihleft with ⟨p, hp, hcount⟩
  rcases ihright with ⟨p', hp', hcount'⟩
  by_cases hle : left.height counts + (counts s).toNat ≤ right.height counts + (counts s').toNat
  · refine ⟨s' :: p', .step (by simp [hparts]) hp', ?_⟩
    rw [countP_cons_toNat, hcount', Nat.max_eq_right hle]
  · refine ⟨s :: p, .step (by simp [hparts]) hp, ?_⟩
    rw [countP_cons_toNat, hcount, Nat.max_eq_left (by omega)]

/-- The height is attained on some path, and by `Path.countP_le_height` passed on none. -/
theorem exists_path_countP (counts : Step → Bool) (e : Expr) :
    ∃ p, Path e p ∧ p.countP counts = e.height counts := by
  induction e with
  | num v => exact ⟨[], .stop rfl, rfl⟩
  | neg operand ih =>
    rcases ih with ⟨p, hp, hcount⟩
    refine ⟨.operand :: p, .step (List.mem_singleton_self _) hp, ?_⟩
    rw [countP_cons_toNat, hcount, height]
  | dice left right ihleft ihright | add left right ihleft ihright | sub left right ihleft ihright
  | mul left right ihleft ihright | div left right ihleft ihright =>
    exact exists_path_max rfl ihleft ihright

end Paths

end Expr

end DiceNotation
