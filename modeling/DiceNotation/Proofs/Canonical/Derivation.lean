import DiceNotation.Proofs.Canonical.Lexing
import DiceNotation.Proofs.Grammar

/-!
The derivation behind canonical text. Its tree is the expression with a negation in place of each
negative literal, and its charge can be computed on the tree: only operands that the text groups are
charged for a group, and a left operand of the same class as its operation is part of its chain.
-/
namespace DiceNotation

namespace Expr

/-- The expression with every negative literal as the negation of its opposite. -/
def normal : Expr → Expr
  | num v => if v.toInt < 0 then neg (num (-v)) else num v
  | dice count sides => dice count.normal sides.normal
  | neg operand => neg operand.normal
  | add left right => add left.normal right.normal
  | sub left right => sub left.normal right.normal
  | mul left right => mul left.normal right.normal
  | div left right => div left.normal right.normal

theorem normal_eq_self (e : Expr) (he : ∀ v ∈ e.literals, 0 ≤ v.toInt) : e.normal = e := by
  induction e with
  | num v => rw [normal, if_neg (by have := he v (List.mem_singleton_self v); omega)]
  | neg operand ih => rw [normal, ih he]
  | dice left right ihleft ihright | add left right ihleft ihright | sub left right ihleft ihright
  | mul left right ihleft ihright | div left right ihleft ihright =>
    simp only [literals, List.mem_append] at he
    rw [normal, ihleft fun v hv => he v (.inl hv), ihright fun v hv => he v (.inr hv)]

/-- How many operators of class `b` the outermost chain of the canonical text has. -/
def operators (b : Binding) : Expr → Nat
  | add left _ | sub left _ => if b = .additive then left.operators b + 1 else 0
  | mul left _ | div left _ => if b = .multiplicative then left.operators b + 1 else 0
  | _ => 0

def groupedCharge (group : Bool) (c : Nat) : Nat := if group then c + 1 else c

/-- The charge of an operation of class `b` whose operands have the given charges. -/
def joinedCharge (b : Binding) (left right : Expr) (c₁ c₂ : Nat) : Nat :=
  max (groupedCharge (!left.standsLeft b) c₁)
    (left.operators b + 1 + groupedCharge (!right.standsRight b) c₂)

/-- The depth charge of the canonical text. -/
def charge : Expr → Nat
  | num v => if v.toInt < 0 then 1 else 0
  | dice count sides =>
    max (groupedCharge (!count.standsInDice) count.charge)
      (groupedCharge (!sides.standsInDice) sides.charge)
  | neg operand => groupedCharge (!operand.standsNegated) operand.charge + 1
  | add left right | sub left right => joinedCharge .additive left right left.charge right.charge
  | mul left right | div left right =>
    joinedCharge .multiplicative left right left.charge right.charge

/-- The kind of phrase that canonical text is. -/
def phrase : Expr → Phrase
  | num v => if v.toInt < 0 then .unary else .atom
  | dice _ _ => .dice
  | neg _ => .unary
  | add left _ | sub left _ => .sum (left.operators .additive + 1)
  | mul left _ | div left _ => .product (left.operators .multiplicative + 1)

section Lift

variable {e e' : Expr} {w : List Token} {c : Nat}

theorem derives_unary (h : Derives e.phrase w e' c)
    (hb : Binding.multiplicative.strength < e.binding.strength) : Derives .unary w e' c := by
  cases e with
  | num v =>
    rw [phrase] at h
    split at h
    · exact h
    · exact h.alone.plain
  | dice count sides => exact h.plain
  | neg operand => exact h
  | add | sub | mul | div => simp [binding, Binding.strength] at hb

theorem derives_product (h : Derives e.phrase w e' c)
    (hb : Binding.additive.strength < e.binding.strength) :
    Derives (.product (e.operators .multiplicative)) w e' c := by
  cases e with
  | num | dice | neg => exact (derives_unary h (by simp [binding, Binding.strength])).factor
  | mul | div => exact h
  | add | sub => simp [binding, Binding.strength] at hb

theorem derives_sum (h : Derives e.phrase w e' c) :
    Derives (.sum (e.operators .additive)) w e' c := by
  cases e with
  | num | dice | neg | mul | div =>
    exact (derives_product h (by simp [binding, Binding.strength])).term
  | add | sub => exact h

theorem derives_group (h : Derives e.phrase w e' c) :
    Derives .atom (.lparen :: (w ++ [.rparen])) e' (c + 1) := (derives_sum h).group

end Lift

section Operands

variable {e left right e₁ e₂ : Expr} {w w₁ w₂ : List Token} {c c₁ c₂ : Nat}

theorem derives_atom (h : Derives e.phrase w e₁ c) :
    Derives .atom (groupedTokens (!e.standsInDice) w) e₁ (groupedCharge (!e.standsInDice) c) := by
  cases hstands : e.standsInDice with
  | false => exact derives_group h
  | true =>
    cases e <;> simp only [standsInDice, decide_eq_true_eq, Bool.false_eq_true] at hstands
    case num v => rwa [phrase, if_neg (by omega)] at h

theorem derives_negated (h : Derives e.phrase w e₁ c) :
    Derives .unary (groupedTokens (!e.standsNegated) w) e₁
      (groupedCharge (!e.standsNegated) c) := by
  cases hstands : e.standsNegated with
  | false => exact (derives_group h).alone.plain
  | true =>
    refine derives_unary h ?_
    cases e <;> simp [standsNegated, binding, Binding.strength] at hstands ⊢

theorem derives_factor (h : Derives right.phrase w e₁ c) :
    Derives .unary (groupedTokens (!right.standsRight .multiplicative) w) e₁
      (groupedCharge (!right.standsRight .multiplicative) c) := by
  cases hstands : right.standsRight .multiplicative with
  | false => exact (derives_group h).alone.plain
  | true => exact derives_unary h (of_decide_eq_true hstands)

theorem derives_term (h : Derives right.phrase w e₁ c) :
    ∃ n, Derives (.product n) (groupedTokens (!right.standsRight .additive) w) e₁
      (groupedCharge (!right.standsRight .additive) c) := by
  cases hstands : right.standsRight .additive with
  | false => exact ⟨0, (derives_group h).alone.plain.factor⟩
  | true => exact ⟨_, derives_product h (of_decide_eq_true hstands)⟩

theorem derives_factors (h : Derives left.phrase w e₁ c) :
    Derives (.product (left.operators .multiplicative))
      (groupedTokens (!left.standsLeft .multiplicative) w) e₁
      (groupedCharge (!left.standsLeft .multiplicative) c) := by
  cases hstands : left.standsLeft .multiplicative with
  | false =>
    cases left with
    | add | sub => exact (derives_group h).alone.plain.factor
    | num | dice | neg | mul | div => simp [standsLeft, binding, Binding.strength] at hstands
  | true => exact derives_product h (of_decide_eq_true hstands)

theorem derives_terms (h : Derives left.phrase w e₁ c) :
    Derives (.sum (left.operators .additive)) (groupedTokens (!left.standsLeft .additive) w) e₁
      (groupedCharge (!left.standsLeft .additive) c) := by
  have hstands : left.standsLeft .additive = true := by cases left <;> rfl
  rw [hstands]
  exact derives_sum h

theorem derives_additive {t : Token} {f : Expr → Expr → Expr} (ht : t.JoinsTerms f)
    (hleft : Derives left.phrase w₁ e₁ c₁) (hright : Derives right.phrase w₂ e₂ c₂) :
    Derives (.sum (left.operators .additive + 1)) (joinedTokens .additive left right t w₁ w₂)
      (f e₁ e₂) (joinedCharge .additive left right c₁ c₂) := by
  obtain ⟨n, hterm⟩ := derives_term hright
  exact (derives_terms hleft).plus ht hterm

theorem derives_multiplicative {t : Token} {f : Expr → Expr → Expr} (ht : t.JoinsFactors f)
    (hleft : Derives left.phrase w₁ e₁ c₁) (hright : Derives right.phrase w₂ e₂ c₂) :
    Derives (.product (left.operators .multiplicative + 1))
      (joinedTokens .multiplicative left right t w₁ w₂) (f e₁ e₂)
      (joinedCharge .multiplicative left right c₁ c₂) :=
  (derives_factors hleft).times ht (derives_factor hright)

end Operands

/-- The tokens of canonical text derive the normal form of its expression. -/
theorem derives_tokens (e : Expr) : Derives e.phrase e.tokens e.normal e.charge := by
  induction e with
  | num v =>
    by_cases hv : v.toInt < 0
    · simpa only [phrase, tokens, normal, charge, if_pos hv] using
        (Derives.number (-v)).alone.plain.negation
    · simpa only [phrase, tokens, normal, charge, if_neg hv] using Derives.number v
  | dice count sides ihcount ihsides => exact (derives_atom ihcount).dice (derives_atom ihsides)
  | neg operand ih => exact (derives_negated ih).negation
  | add left right ihleft ihright => exact derives_additive .plus ihleft ihright
  | sub left right ihleft ihright => exact derives_additive .minus ihleft ihright
  | mul left right ihleft ihright => exact derives_multiplicative .star ihleft ihright
  | div left right ihleft ihright => exact derives_multiplicative .slash ihleft ihright

theorem forms_tokens (e : Expr) : Forms e.tokens e.normal e.charge :=
  ⟨_, derives_sum e.derives_tokens⟩

end Expr

end DiceNotation
