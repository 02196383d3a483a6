import DiceNotation.Proofs.Canonical.Reparse

/-!
Canonical text has the fewest parentheses. A phrase of a kind is a group, or its tree is of a class
that is at least as tight as the kind. So wherever the canonical text groups an operand, every
derivation of the tree has a group at this operand. The parentheses of a text are those of its
tokens.
-/
namespace DiceNotation

section Text

variable {c : Char} {cs : List Char} {position : Nat} {words : List (Nat × Word)}

theorem ofChar?_eq_lparen_iff : Token.ofChar? c = some .lparen ↔ c = '(' := by
  rw [Token.ofChar?_eq_some_iff]
  constructor
  · intro h
    cases h
    rfl
  · intro h
    subst h
    exact .lparen

theorem ne_lparen_of_isDigit (h : c.isDigit = true) : c ≠ '(' := by
  intro hc
  subst hc
  cases h

/-- The words that are opening parentheses are the characters that are. -/
theorem Word.count_lparen_of_ofChars (h : ofChars position cs = .ok words) :
    (words.map Prod.snd).count (.mark .lparen) = cs.count '(' := by
  fun_induction ofChars position cs generalizing words with
  | case1 position =>
    obtain rfl : [] = words := Except.ok.inj h
    rfl
  | case2 position c cs hblank ih =>
    have hc : c ≠ '(' := by
      intro hc
      subst hc
      cases hblank
    rw [ih h, List.count_cons_of_ne hc]
  | case3 position c cs hblank hdigit run =>
    rename_i ih
    obtain ⟨others, hothers, rfl⟩ := exists_of_map_eq_ok h
    have hrun : run.count '(' = 0 := by
      rw [List.count_eq_zero]
      intro hmem
      exact ne_lparen_of_isDigit (List.mem_takeWhile_imp hmem) rfl
    have hsplit : cs.count '(' = run.count '(' + (cs.dropWhile Char.isDigit).count '(' := by
      rw [← List.count_append, List.takeWhile_append_dropWhile]
    rw [List.map_cons, List.count_cons_of_ne (by simp), ih hothers,
      List.count_cons_of_ne (ne_lparen_of_isDigit hdigit), hsplit, hrun, Nat.zero_add]
  | case4 position c cs hblank hdigit t ht ih =>
    obtain ⟨others, hothers, rfl⟩ := exists_of_map_eq_ok h
    by_cases hc : c = '('
    · subst hc
      obtain rfl : .lparen = t := Option.some.inj ht
      rw [List.map_cons, List.count_cons_self, ih hothers, List.count_cons_self]
    · have hne : t ≠ .lparen := by
        intro heq
        subst heq
        exact hc (ofChar?_eq_lparen_iff.mp ht)
      rw [List.map_cons, List.count_cons_of_ne (by simpa using hne), ih hothers,
        List.count_cons_of_ne hc]
  | case5 => cases h

theorem Word.count_lparen_of_tokens {ts : List Placed} (h : tokens words = .ok ts) :
    (ts.map Placed.token).count .lparen = (words.map Prod.snd).count (.mark .lparen) := by
  have hall := forall₂_of_tokens h
  clear h
  induction hall with
  | nil => rfl
  | @cons word t words ts hword hothers ih =>
    obtain ⟨place, word⟩ := word
    have hmeans := (token_eq_ok_iff.mp hword).2
    rw [List.map_cons, List.map_cons, List.count_cons, List.count_cons, ih]
    generalize t.token = token at hmeans
    cases hmeans with
    | number => rfl
    | mark => simp only [beq_iff_eq, Word.mark.injEq]

/-- A text has one opening parenthesis for each such token. -/
theorem count_lparen_of_tokenize {text : String} {ts : List Placed} (h : tokenize text = .ok ts) :
    (ts.map Placed.token).count .lparen = text.toList.count '(' := by
  rw [tokenize_eq_scan] at h
  obtain ⟨us, hscan, rfl⟩ := exists_of_map_eq_ok h
  obtain ⟨words, hwords, htokens⟩ := exists_of_bind_eq_ok hscan
  rw [List.map_append, List.count_append, Word.count_lparen_of_tokens htokens,
    Word.count_lparen_of_ofChars hwords]
  rfl

end Text

/-- The class that phrases of this kind have at least, unless they are groups. -/
def Phrase.binding : Phrase → Binding
  | atom => .value
  | dice => .dice
  | unary => .unary
  | product _ => .multiplicative
  | sum _ => .additive

/-- Whether the expression is too loose to be a phrase of this kind as it is. -/
def Phrase.groups (p : Phrase) (e : Expr) : Bool := e.binding.strength < p.binding.strength

theorem Phrase.groups_toNat_le {p q : Phrase} (h : p.binding.strength ≤ q.binding.strength)
    (e : Expr) : (p.groups e).toNat ≤ (q.groups e).toNat := by
  cases hp : p.groups e with
  | false => exact Nat.zero_le _
  | true =>
    have hq : q.groups e = true :=
      decide_eq_true (Nat.lt_of_lt_of_le (of_decide_eq_true hp) h)
    rw [hq]

namespace Expr

/-- The number of groups in the canonical text. -/
def groupCount (e : Expr) : Nat := e.tokens.count .lparen

theorem count_groupedTokens (group : Bool) (w : List Token) :
    (groupedTokens group w).count .lparen = w.count .lparen + group.toNat := by
  cases group <;> simp [groupedTokens]

theorem count_joinedTokens (b : Binding) (left right : Expr) {t : Token} (ht : t ≠ .lparen) :
    (joinedTokens b left right t left.tokens right.tokens).count .lparen =
      (left.groupCount + (!left.standsLeft b).toNat) +
        (right.groupCount + (!right.standsRight b).toNat) := by
  rw [joinedTokens, List.count_append, List.count_cons_of_ne ht, count_groupedTokens,
    count_groupedTokens]
  rfl

section Operands

variable {e : Expr} (he : ∀ v ∈ e.literals, 0 ≤ v.toInt)
include he

/-- What canonical text groups inside dice is too loose for an atom. -/
theorem not_standsInDice : (!e.standsInDice) = Phrase.atom.groups e := by
  cases e with
  | num v =>
    have hv : 0 ≤ v.toInt := he v (List.mem_singleton_self v)
    simp [standsInDice, Phrase.groups, Phrase.binding, binding, hv]
  | dice | neg | add | sub | mul | div => rfl

/-- What it groups behind a sign is too loose for a unary phrase. -/
theorem not_standsNegated : (!e.standsNegated) = Phrase.unary.groups e := by
  cases e with
  | num v =>
    have hv : 0 ≤ v.toInt := he v (List.mem_singleton_self v)
    simp [standsNegated, Phrase.groups, Phrase.binding, binding, Binding.strength, hv]
  | dice | neg | add | sub | mul | div => rfl

end Operands

theorem groupCount_dice {count sides : Expr} (hcount : ∀ v ∈ count.literals, 0 ≤ v.toInt)
    (hsides : ∀ v ∈ sides.literals, 0 ≤ v.toInt) :
    (dice count sides).groupCount =
      (count.groupCount + (Phrase.atom.groups count).toNat) +
        (sides.groupCount + (Phrase.atom.groups sides).toNat) := by
  rw [groupCount, tokens, List.count_append, List.count_cons_of_ne (by decide),
    count_groupedTokens, count_groupedTokens, not_standsInDice hcount, not_standsInDice hsides]
  rfl

theorem groupCount_neg {operand : Expr} (h : ∀ v ∈ operand.literals, 0 ≤ v.toInt) :
    (neg operand).groupCount = operand.groupCount + (Phrase.unary.groups operand).toNat := by
  rw [groupCount, tokens, List.count_cons_of_ne (by decide), count_groupedTokens,
    not_standsNegated h]
  rfl

end Expr

section Chains

variable {t : Token} {f : Expr → Expr → Expr} (n m : Nat) (e₁ e₂ : Expr)

/-- The terms of a sum are grouped if they are too loose for their places in its chain. -/
theorem Token.JoinsTerms.groupCount (h : t.JoinsTerms f) :
    (f e₁ e₂).groupCount =
      (e₁.groupCount + ((Phrase.sum n).groups e₁).toNat) +
        (e₂.groupCount + ((Phrase.product m).groups e₂).toNat) := by
  have hleft : (!e₁.standsLeft .additive) = (Phrase.sum n).groups e₁ := by cases e₁ <;> rfl
  have hright : (!e₂.standsRight .additive) = (Phrase.product m).groups e₂ := by cases e₂ <;> rfl
  rw [← hleft, ← hright]
  cases h with
  | plus => exact Expr.count_joinedTokens .additive e₁ e₂ (by decide)
  | minus => exact Expr.count_joinedTokens .additive e₁ e₂ (by decide)

theorem Token.JoinsFactors.groupCount (h : t.JoinsFactors f) :
    (f e₁ e₂).groupCount =
      (e₁.groupCount + ((Phrase.product n).groups e₁).toNat) +
        (e₂.groupCount + (Phrase.unary.groups e₂).toNat) := by
  have hleft : (!e₁.standsLeft .multiplicative) = (Phrase.product n).groups e₁ := by
    cases e₁ <;> rfl
  have hright : (!e₂.standsRight .multiplicative) = Phrase.unary.groups e₂ := by
    cases e₂ <;> rfl
  rw [← hleft, ← hright]
  cases h with
  | star => exact Expr.count_joinedTokens .multiplicative e₁ e₂ (by decide)
  | slash => exact Expr.count_joinedTokens .multiplicative e₁ e₂ (by decide)

theorem Token.JoinsTerms.groups_eq_false (h : t.JoinsTerms f) :
    (Phrase.sum n).groups (f e₁ e₂) = false := by
  cases h <;> rfl

theorem Token.JoinsFactors.groups_eq_false (h : t.JoinsFactors f) :
    (Phrase.product n).groups (f e₁ e₂) = false := by
  cases h <;> rfl

theorem Token.JoinsTerms.ne_lparen (h : t.JoinsTerms f) : t ≠ .lparen := by
  cases h <;> decide

theorem Token.JoinsFactors.ne_lparen (h : t.JoinsFactors f) : t ≠ .lparen := by
  cases h <;> decide

end Chains

/-- Every derivation of a tree has the groups of its canonical text, and one more if the tree is too
loose for the phrase. -/
theorem Derives.groupCount_le {p w e c} (h : Derives p w e c)
    (he : ∀ v ∈ e.literals, 0 ≤ v.toInt) :
    e.groupCount + (p.groups e).toNat ≤ w.count .lparen := by
  induction h with
  | number v =>
    have hv : ¬v.toInt < 0 := by
      have hv := he v (List.mem_singleton_self v)
      omega
    simp [Expr.groupCount, Expr.tokens, hv, Phrase.groups, Phrase.binding, Expr.binding]
  | @group n w e c inside ih =>
    have hinside := ih he
    have hone := (Phrase.atom.groups e).toNat_le
    rw [List.count_cons_self, List.count_append, List.count_singleton]
    omega
  | @alone w e c atom ih =>
    have hatom := ih he
    have hlooser : (Phrase.dice.groups e).toNat ≤ (Phrase.atom.groups e).toNat :=
      Phrase.groups_toNat_le (by decide) e
    omega
  | @plain w e c dice ih =>
    have hdice := ih he
    have hlooser : (Phrase.unary.groups e).toNat ≤ (Phrase.dice.groups e).toNat :=
      Phrase.groups_toNat_le (by decide) e
    omega
  | @factor w e c unary ih =>
    have hunary := ih he
    have hlooser : ((Phrase.product 0).groups e).toNat ≤ (Phrase.unary.groups e).toNat :=
      Phrase.groups_toNat_le (by decide) e
    omega
  | @term n w e c product ih =>
    have hproduct := ih he
    have hlooser : ((Phrase.sum 0).groups e).toNat ≤ ((Phrase.product n).groups e).toNat :=
      Phrase.groups_toNat_le (Nat.zero_le _) e
    omega
  | @dice _ _ e₁ e₂ _ _ count sides ihcount ihsides =>
    simp only [Expr.literals, List.forall_mem_append] at he
    have hcount := ihcount he.1
    have hsides := ihsides he.2
    have hgroups : Phrase.dice.groups (.dice e₁ e₂) = false := rfl
    rw [List.count_append, List.count_cons_of_ne (by decide), Expr.groupCount_dice he.1 he.2,
      hgroups, Bool.toNat_false, Nat.add_zero]
    exact Nat.add_le_add hcount hsides
  | @die w e c sides ih =>
    have hone : ∀ v ∈ (Expr.num 1).literals, 0 ≤ v.toInt := by
      intro v hv
      obtain rfl := List.mem_singleton.mp hv
      exact Int.zero_le_ofNat 1
    have hliterals : ∀ v ∈ e.literals, 0 ≤ v.toInt :=
      fun v hv => he v (List.mem_append_right _ hv)
    have hsides := ih hliterals
    have hcount : (Expr.num 1).groupCount + (Phrase.atom.groups (.num 1)).toNat = 0 := rfl
    have hgroups : Phrase.dice.groups (.dice (.num 1) e) = false := rfl
    rw [List.count_cons_of_ne (by decide), Expr.groupCount_dice hone hliterals, hcount, hgroups,
      Nat.zero_add]
    exact hsides
  | @negation w e c operand ih =>
    have hoperand := ih he
    have hgroups : Phrase.unary.groups (.neg e) = false := rfl
    have hneg : e.neg.groupCount = e.groupCount + (Phrase.unary.groups e).toNat :=
      Expr.groupCount_neg he
    rw [List.count_cons_of_ne (by decide), hneg, hgroups]
    exact hoperand
  | @times n _ _ e₁ e₂ _ _ _ _ left operator right ihleft ihright =>
    rw [operator.literals, List.forall_mem_append] at he
    have hleft := ihleft he.1
    have hright := ihright he.2
    rw [List.count_append, List.count_cons_of_ne operator.ne_lparen, operator.groups_eq_false,
      operator.groupCount n, Bool.toNat_false, Nat.add_zero]
    exact Nat.add_le_add hleft hright
  | @plus n m _ _ e₁ e₂ _ _ _ _ left operator right ihleft ihright =>
    rw [operator.literals, List.forall_mem_append] at he
    have hleft := ihleft he.1
    have hright := ihright he.2
    rw [List.count_append, List.count_cons_of_ne operator.ne_lparen, operator.groups_eq_false,
      operator.groupCount n m, Bool.toNat_false, Nat.add_zero]
    exact Nat.add_le_add hleft hright

namespace Expr

variable {text : String} {e : Expr}

/-- Canonical text has the parentheses of its tokens and no others. -/
theorem count_lparen_display (he : ∀ v ∈ e.literals, 0 ≤ v.toInt) :
    e.display.toList.count '(' = e.groupCount := by
  have hmin : ∀ v ∈ e.literals, v ≠ Int32.minValue := by
    intro v hv heq
    have hsign := he v hv
    rw [heq, Int32.toInt_minValue] at hsign
    omega
  obtain ⟨us, hus, htokenize⟩ := (e.writes_display hmin).tokenize
  rw [← count_lparen_of_tokenize htokenize, List.map_append, List.count_append, hus]
  rfl

/-- The canonical text of a tree that was read has no more groups than the text that it was read
from. -/
theorem count_lparen_display_le (h : ofText text = .ok e) :
    e.display.toList.count '(' ≤ text.toList.count '(' := by
  have hunsigned := unsigned_of_ofText h
  obtain ⟨ts, hts, hparse⟩ := ofText_eq_ok_iff.mp h
  obtain ⟨c, ⟨n, hderives⟩, -⟩ := forms_of_parse hparse
  have hgroups := hderives.groupCount_le hunsigned
  have hbody : (Placed.body ts).count .lparen ≤ (ts.map Placed.token).count .lparen :=
    (List.takeWhile_sublist _).count_le _
  rw [count_lparen_display hunsigned, ← count_lparen_of_tokenize hts]
  omega

/-- Of these groups only the sum in front of the product is left. -/
theorem count_lparen_display_regrouped :
    let e := sub (mul (add (num 1) (num 2)) (num 3)) (dice (num 4) (num 6))
    ofText "((1+2))*(3) - ((4)d(6))" = .ok e ∧ e.display = "(1 + 2) * 3 - 4d6" ∧
      e.display.toList.count '(' ≤ "((1+2))*(3) - ((4)d(6))".toList.count '(' := by
  intro e
  have h : ofText "((1+2))*(3) - ((4)d(6))" = .ok e := by decide +kernel
  exact ⟨h, by decide +kernel, count_lparen_display_le h⟩

end Expr

end DiceNotation
