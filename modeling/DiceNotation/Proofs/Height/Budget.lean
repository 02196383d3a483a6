import DiceNotation.Proofs.Height.Paths

/-!
How high a tree can be at a given depth charge. The charge bounds the steps of a path that lead out
of a negation or to a right operand. It does not bound the steps to left operands: a chain charges
an operand for the operators in front of it, while the tree puts it below those behind it.
-/
namespace DiceNotation

theorem Token.JoinsFactors.height {t f} (h : JoinsFactors t f) (counts : Step → Bool)
    (e₁ e₂ : Expr) :
    (f e₁ e₂).height counts =
      max (e₁.height counts + (counts .left).toNat) (e₂.height counts + (counts .right).toNat) := by
  cases h <;> rfl

theorem Token.JoinsTerms.height {t f} (h : JoinsTerms t f) (counts : Step → Bool)
    (e₁ e₂ : Expr) :
    (f e₁ e₂).height counts =
      max (e₁.height counts + (counts .left).toNat) (e₂.height counts + (counts .right).toNat) := by
  cases h <;> rfl

namespace Derives

variable {p : Phrase} {w : List Token} {e : Expr} {c : Nat}

/-- Each negation and each right operand on a path takes a level at least. -/
theorem height_isCharged_le (h : Derives p w e c) : e.height Step.isCharged ≤ c := by
  induction h with
  | number v => exact Nat.zero_le _
  | group inside ih => exact Nat.le_succ_of_le ih
  | alone atom ih | plain atom ih | factor atom ih | term atom ih => exact ih
  | dice count sides ihcount ihsides =>
    simp only [Expr.height, Step.isCharged, Bool.toNat_false]
    omega
  | die sides ih =>
    simp only [Expr.height, Step.isCharged, Bool.toNat_false]
    omega
  | negation operand ih =>
    simp only [Expr.height, Step.isCharged, Bool.toNat_true]
    omega
  | times left operator right ihleft ihright =>
    simp only [operator.height, Step.isCharged, Bool.toNat_false, Bool.toNat_true]
    omega
  | plus left operator right ihleft ihright =>
    simp only [operator.height, Step.isCharged, Bool.toNat_false, Bool.toNat_true]
    omega

/-- Each operation has a token of its own, and a chain one operand more than operators. -/
theorem height_lt_length (h : Derives p w e c) :
    e.height Step.isOperation + 1 ≤ w.length ∧
      (e.height Step.isCharged < e.height Step.isOperation →
        e.height Step.isOperation + 2 ≤ w.length) := by
  induction h with
  | number v => exact ⟨Nat.le_refl _, fun h => absurd h (Nat.lt_irrefl _)⟩
  | group inside ih =>
    simp only [List.length_cons, List.length_append, List.length_nil]
    omega
  | alone atom ih | plain atom ih | factor atom ih | term atom ih => exact ih
  | dice count sides ihcount ihsides =>
    simp only [Expr.height, Step.isOperation, Step.isCharged, Bool.toNat_false, List.length_cons,
      List.length_append]
    omega
  | die sides ih =>
    simp only [Expr.height, Step.isOperation, Step.isCharged, Bool.toNat_false, List.length_cons]
    omega
  | negation operand ih =>
    simp only [Expr.height, Step.isOperation, Step.isCharged, Bool.toNat_true, List.length_cons]
    omega
  | times left operator right ihleft ihright =>
    simp only [operator.height, Step.isOperation, Step.isCharged, Bool.toNat_false,
      Bool.toNat_true, List.length_append, List.length_cons]
    omega
  | plus left operator right ihleft ihright =>
    simp only [operator.height, Step.isOperation, Step.isCharged, Bool.toNat_false,
      Bool.toNat_true, List.length_append, List.length_cons]
    omega

end Derives

/-- The greatest height of a single operand with `c` levels. With one more level it is negated, or
it is grouped with two chains of `c` operators on top, as the sides of a dice term. -/
def tallest (all : Bool) : Nat → Nat
  | 0 => all.toNat
  | c + 1 => max (tallest all c + 1) (tallest all c + 2 * c + all.toNat)

theorem tallest_mono (all : Bool) {c c' : Nat} (h : c ≤ c') :
    tallest all c ≤ tallest all c' := by
  induction h with
  | refl => exact Nat.le_refl _
  | step h ih =>
    simp only [tallest]
    omega

/-- Whether a phrase of this kind with charge `c` can be as high as `h`. -/
def Phrase.Admits (all : Bool) (c h : Nat) : Phrase → Prop
  | atom => h + all.toNat ≤ tallest all c
  | dice | unary => h ≤ tallest all c
  | product operators => h ≤ tallest all c + operators
  | sum operators => h ≤ tallest all c + c + operators

/-- The induction is on the derivation. What stays behind a chain of `n` operators has at least `n`
levels, so the two chains on an operand with `c` levels have at most `2 * c` operators. -/
theorem Derives.admits {p w e c} (all : Bool) (h : Derives p w e c) :
    p.Admits all c (e.height (Step.isCounted all)) := by
  induction h with
  | number v =>
    simp only [Phrase.Admits, Expr.height, tallest]
    omega
  | group inside ih =>
    have hoperators := inside.sum_operators_le
    simp only [Phrase.Admits, tallest] at ih ⊢
    omega
  | alone atom ih =>
    simp only [Phrase.Admits] at ih ⊢
    omega
  | plain dice ih => exact ih
  | factor unary ih => exact ih
  | term product ih =>
    have hoperators := product.product_operators_le
    simp only [Phrase.Admits] at ih ⊢
    omega
  | @dice _ _ _ _ c₁ c₂ count sides ihcount ihsides =>
    have hcount := tallest_mono all (Nat.le_max_left c₁ c₂)
    have hsides := tallest_mono all (Nat.le_max_right c₁ c₂)
    simp only [Phrase.Admits, Expr.height, Step.isCounted] at ihcount ihsides ⊢
    omega
  | die sides ih =>
    simp only [Phrase.Admits, Expr.height, Step.isCounted] at ih ⊢
    omega
  | negation operand ih =>
    simp only [Phrase.Admits, Expr.height, Step.isCounted, Bool.toNat_true, tallest] at ih ⊢
    omega
  | @times n _ _ _ _ c₁ c₂ _ _ left operator right ihleft ihright =>
    have hleft := tallest_mono all (Nat.le_max_left c₁ (n + 1 + c₂))
    have hright := tallest_mono all (show c₂ ≤ max c₁ (n + 1 + c₂) by omega)
    simp only [Phrase.Admits, operator.height, Step.isCounted, Bool.toNat_true] at ihleft ihright ⊢
    omega
  | @plus n _ _ _ _ _ c₁ c₂ _ _ left operator right ihleft ihright =>
    have hleft := tallest_mono all (Nat.le_max_left c₁ (n + 1 + c₂))
    have hright := tallest_mono all (show c₂ ≤ max c₁ (n + 1 + c₂) by omega)
    have hoperators := right.product_operators_le
    simp only [Phrase.Admits, operator.height, Step.isCounted, Bool.toNat_true] at ihleft ihright ⊢
    omega

theorem Forms.height_le {w e c} (all : Bool) (h : Forms w e c) :
    e.height (Step.isCounted all) ≤ tallest all c + 2 * c := by
  rcases h with ⟨n, hderives⟩
  have hoperators := hderives.sum_operators_le
  have hadmits : e.height (Step.isCounted all) ≤ tallest all c + c + n := hderives.admits all
  omega

end DiceNotation
