import DiceNotation.Proofs.Grammar
import DiceNotation.Proofs.Reader.Locality

/-!
Every phrase is read, whatever stands behind it, as long as that cannot continue the phrase: with
enough levels for its charge the reader gets to the end of the phrase, and with fewer it refuses
the phrase as too deep. Behind a chain the reader goes on with its tail, and each operator that is
already read has taken one level from it.
-/
namespace DiceNotation

open Placed

namespace Phrase

/-- The reader of a kind of phrase. -/
def read (levels : Nat) (expected : List Expected) : Phrase → List Placed → Reader.Reading
  | atom => Reader.atom levels expected
  | dice => Reader.dice levels
  | unary => Reader.unary levels
  | product _ => Reader.product levels
  | sum _ => Reader.sum levels

/-- What the reader still does when it has read a phrase for `e`. -/
def resume (levels : Nat) : Phrase → Expr → List Placed → Reader.Reading
  | product n, e, rest => Reader.productTail (levels - n) e rest
  | sum n, e, rest => Reader.sumTail (levels - n) e rest
  | _, e, rest => .ok (e, rest)

/-- Whether the last operand of the phrase is complete in front of `rest`. -/
def EndsAt (rest : List Placed) : Phrase → Prop
  | atom => True
  | dice | unary | product _ => first rest ≠ .dice
  | sum _ => first rest ≠ .dice ∧ (first rest).multiplicative? = none

/-- The tokens `w` are read as a phrase for `e` if there are `c` levels, and refused as too deep
otherwise. -/
structure Accepts (p : Phrase) (w : List Token) (e : Expr) (c : Nat) : Prop where
  within : ∀ (levels : Nat) (expected : List Expected) (rest : List Placed) {ts : List Placed},
    ts.map token = w → p.EndsAt rest → c ≤ levels →
    p.read levels expected (ts ++ rest) = p.resume levels e rest
  beyond : ∀ (levels : Nat) (expected : List Expected) (rest : List Placed) {ts : List Placed},
    ts.map token = w → p.EndsAt rest → levels < c →
    ∃ us, p.read levels expected (ts ++ rest) = .error ⟨.tooDeep, us⟩

end Phrase

theorem Placed.exists_cons_of_map {t : Token} {w : List Token} {ts : List Placed}
    (h : ts.map token = t :: w) : ∃ position us, ts = ⟨t, position⟩ :: us ∧ us.map token = w := by
  obtain ⟨a, us, rfl, rfl, hus⟩ := List.map_eq_cons_iff.mp h
  exact ⟨a.position, us, rfl, hus⟩

/-- The place of a token that is known inside a list. -/
theorem Placed.exists_append_of_map {t : Token} {w₁ w₂ : List Token} {ts : List Placed}
    (h : ts.map token = w₁ ++ t :: w₂) :
    ∃ us position vs, ts = us ++ ⟨t, position⟩ :: vs ∧ us.map token = w₁ ∧ vs.map token = w₂ := by
  obtain ⟨us, xs, rfl, hus, hxs⟩ := List.map_eq_append_iff.mp h
  obtain ⟨position, vs, rfl, hvs⟩ := exists_cons_of_map hxs
  exact ⟨us, position, vs, rfl, hus, hvs⟩

namespace Derives

/-- An atom starts with a number or a parenthesis. -/
theorem first_atom {w e c} (h : Derives .atom w e c) {ts : List Placed} (hw : ts.map token = w)
    (rest : List Placed) : first (ts ++ rest) ≠ .dice ∧ first (ts ++ rest) ≠ .minus := by
  cases h with
  | number v =>
    obtain ⟨position, us, rfl, -⟩ := exists_cons_of_map hw
    simp
  | group inside =>
    obtain ⟨position, us, rfl, -⟩ := exists_cons_of_map hw
    simp

theorem first_dice {w e c} (h : Derives .dice w e c) {ts : List Placed} (hw : ts.map token = w)
    (rest : List Placed) : first (ts ++ rest) ≠ .minus := by
  cases h with
  | alone atom => exact (atom.first_atom hw rest).2
  | dice count sides =>
    obtain ⟨us, position, vs, rfl, hus, hvs⟩ := exists_append_of_map hw
    rw [List.append_assoc]
    exact (count.first_atom hus _).2
  | die sides =>
    obtain ⟨position, us, rfl, -⟩ := exists_cons_of_map hw
    simp

end Derives

namespace Phrase.Accepts

open Reader

variable {w w₁ w₂ : List Token} {e e₁ e₂ : Expr} {c c₁ c₂ n m : Nat}

theorem number (v : Value) : Accepts .atom [.number v] (.num v) 0 where
  within levels expected rest ts hw _ _ := by
    obtain ⟨position, us, rfl, hus⟩ := exists_cons_of_map hw
    obtain rfl := List.map_eq_nil_iff.mp hus
    simp only [read, List.cons_append, List.nil_append, Reader.atom, resume]
  beyond _ _ _ _ _ _ hc := absurd hc (Nat.not_lt_zero _)

theorem group (hinside : Accepts (.sum n) w e c) :
    Accepts .atom (.lparen :: (w ++ [.rparen])) e (c + 1) where
  within levels expected rest ts hw _ hc := by
    obtain ⟨inner, rfl⟩ : ∃ inner, levels = inner + 1 := ⟨levels - 1, by omega⟩
    obtain ⟨opening, us, rfl, hus⟩ := exists_cons_of_map hw
    obtain ⟨vs, closing, zs, rfl, hvs, hzs⟩ := exists_append_of_map hus
    obtain rfl := List.map_eq_nil_iff.mp hzs
    have hsum : Reader.sum inner (vs ++ ⟨.rparen, closing⟩ :: rest) =
        sumTail (inner - n) e (⟨.rparen, closing⟩ :: rest) :=
      hinside.within inner expected _ hvs ⟨by simp, rfl⟩ (by omega)
    rw [sumTail_of_first rfl] at hsum
    simp only [read, List.cons_append, List.append_assoc, List.nil_append, atom_group, hsum,
      first_cons, if_true, List.tail_cons, resume]
  beyond levels expected rest ts hw _ hc := by
    obtain ⟨opening, us, rfl, hus⟩ := exists_cons_of_map hw
    obtain ⟨vs, closing, zs, rfl, hvs, hzs⟩ := exists_append_of_map hus
    cases levels with
    | zero =>
      refine ⟨vs ++ ⟨.rparen, closing⟩ :: zs ++ rest, ?_⟩
      simp only [read, List.cons_append, Reader.atom]
    | succ inner =>
      obtain ⟨xs, hsum⟩ : ∃ xs, Reader.sum inner (vs ++ ⟨.rparen, closing⟩ :: (zs ++ rest)) =
          .error ⟨.tooDeep, xs⟩ :=
        hinside.beyond inner expected _ hvs ⟨by simp, rfl⟩ (by omega)
      refine ⟨xs, ?_⟩
      simp only [read, List.cons_append, List.append_assoc, atom_group, hsum]

theorem alone (hatom : Accepts .atom w e c)
    (hfirst : ∀ {ts}, ts.map token = w → ∀ rest, first (ts ++ rest) ≠ .dice) :
    Accepts .dice w e c where
  within levels expected rest ts hw hrest hc := by
    have hread : Reader.atom levels Expected.expression (ts ++ rest) = .ok (e, rest) :=
      hatom.within levels _ rest hw trivial hc
    simp only [read, dice_of_first (hfirst hw rest), hread, resume]
    exact if_neg hrest
  beyond levels expected rest ts hw _ hc := by
    obtain ⟨xs, hread⟩ := hatom.beyond levels Expected.expression rest hw trivial hc
    rw [read] at hread
    exact ⟨xs, by simp only [read, dice_of_first (hfirst hw rest), hread]⟩

/-- Behind a count and its `d`, the dice reader is where it reads the sides. -/
theorem read_count (hcount : Accepts .atom w e c)
    (hfirst : ∀ {ts}, ts.map token = w → ∀ rest, first (ts ++ rest) ≠ .dice)
    {levels position : Nat} {ts us : List Placed} (hw : ts.map token = w) (hc : c ≤ levels) :
    Reader.dice levels (ts ++ ⟨.dice, position⟩ :: us) = sides levels e us := by
  have hread : Reader.atom levels Expected.expression (ts ++ ⟨.dice, position⟩ :: us) =
      .ok (e, ⟨.dice, position⟩ :: us) := hcount.within levels _ _ hw trivial hc
  simp only [dice_of_first (hfirst hw _), hread, first_cons, if_true, List.tail_cons]

theorem dice (hcount : Accepts .atom w₁ e₁ c₁)
    (hfirst : ∀ {ts}, ts.map token = w₁ → ∀ rest, first (ts ++ rest) ≠ .dice)
    (hsides : Accepts .atom w₂ e₂ c₂) :
    Accepts .dice (w₁ ++ .dice :: w₂) (.dice e₁ e₂) (max c₁ c₂) where
  within levels expected rest ts hw _ hc := by
    obtain ⟨us, position, vs, rfl, hus, hvs⟩ := exists_append_of_map hw
    have hread : Reader.atom levels Expected.sides (vs ++ rest) = .ok (e₂, rest) :=
      hsides.within levels _ rest hvs trivial (by omega)
    have hdice : Reader.dice levels (us ++ ⟨.dice, position⟩ :: (vs ++ rest)) =
        sides levels e₁ (vs ++ rest) := hcount.read_count hfirst hus (by omega)
    simp only [read, List.append_assoc, List.cons_append, hdice, Reader.sides, hread, resume]
  beyond levels expected rest ts hw _ hc := by
    obtain ⟨us, position, vs, rfl, hus, hvs⟩ := exists_append_of_map hw
    simp only [read, List.append_assoc, List.cons_append]
    by_cases hc₁ : c₁ ≤ levels
    · obtain ⟨xs, hread⟩ := hsides.beyond levels Expected.sides rest hvs trivial (by omega)
      rw [read] at hread
      exact ⟨xs, by simp only [hcount.read_count hfirst hus hc₁, Reader.sides, hread]⟩
    · obtain ⟨xs, hread⟩ := hcount.beyond levels Expected.expression
        (⟨.dice, position⟩ :: (vs ++ rest)) hus trivial (by omega)
      rw [read] at hread
      exact ⟨xs, by simp only [dice_of_first (hfirst hus _), hread]⟩

theorem die (hsides : Accepts .atom w e c) : Accepts .dice (.dice :: w) (.dice (.num 1) e) c where
  within levels expected rest ts hw _ hc := by
    obtain ⟨position, us, rfl, hus⟩ := exists_cons_of_map hw
    have hread : Reader.atom levels Expected.sides (us ++ rest) = .ok (e, rest) :=
      hsides.within levels _ rest hus trivial hc
    simp only [read, List.cons_append, Reader.dice, Reader.sides, hread, resume]
  beyond levels expected rest ts hw _ hc := by
    obtain ⟨position, us, rfl, hus⟩ := exists_cons_of_map hw
    obtain ⟨xs, hread⟩ := hsides.beyond levels Expected.sides rest hus trivial hc
    rw [read] at hread
    exact ⟨xs, by simp only [read, List.cons_append, Reader.dice, Reader.sides, hread]⟩

theorem plain (hdice : Accepts .dice w e c)
    (hfirst : ∀ {ts}, ts.map token = w → ∀ rest, first (ts ++ rest) ≠ .minus) :
    Accepts .unary w e c where
  within levels expected rest ts hw hrest hc := by
    rw [read, unary_of_first (hfirst hw rest)]
    exact hdice.within levels expected rest hw hrest hc
  beyond levels expected rest ts hw hrest hc := by
    rw [read, unary_of_first (hfirst hw rest)]
    exact hdice.beyond levels expected rest hw hrest hc

theorem negation (hoperand : Accepts .unary w e c) :
    Accepts .unary (.minus :: w) (.neg e) (c + 1) where
  within levels expected rest ts hw hrest hc := by
    obtain ⟨inner, rfl⟩ : ∃ inner, levels = inner + 1 := ⟨levels - 1, by omega⟩
    obtain ⟨position, us, rfl, hus⟩ := exists_cons_of_map hw
    have hread : Reader.unary inner (us ++ rest) = .ok (e, rest) :=
      hoperand.within inner expected rest hus hrest (by omega)
    simp only [read, List.cons_append, unary_minus, hread, Except.map, resume]
  beyond levels expected rest ts hw hrest hc := by
    obtain ⟨position, us, rfl, hus⟩ := exists_cons_of_map hw
    cases levels with
    | zero => exact ⟨us ++ rest, by simp only [read, List.cons_append, Reader.unary]⟩
    | succ inner =>
      obtain ⟨xs, hread⟩ := hoperand.beyond inner expected rest hus hrest (by omega)
      rw [read] at hread
      exact ⟨xs, by simp only [read, List.cons_append, unary_minus, hread, Except.map]⟩

theorem factor (hunary : Accepts .unary w e c) : Accepts (.product 0) w e c where
  within levels expected rest ts hw hrest hc := by
    have hread : Reader.unary levels (ts ++ rest) = .ok (e, rest) :=
      hunary.within levels expected rest hw hrest hc
    simp only [read, Reader.product, hread, resume, Nat.sub_zero]
  beyond levels expected rest ts hw hrest hc := by
    obtain ⟨xs, hread⟩ := hunary.beyond levels expected rest hw hrest hc
    rw [read] at hread
    exact ⟨xs, by simp only [read, Reader.product, hread]⟩

theorem times {t : Token} {f : Expr → Expr → Expr} (hleft : Accepts (.product n) w₁ e₁ c₁)
    (ht : t.JoinsFactors f) (hright : Accepts .unary w₂ e₂ c₂) :
    Accepts (.product (n + 1)) (w₁ ++ t :: w₂) (f e₁ e₂) (max c₁ (n + 1 + c₂)) where
  within levels expected rest ts hw hrest hc := by
    obtain ⟨us, position, vs, rfl, hus, hvs⟩ := exists_append_of_map hw
    obtain ⟨inner, rfl⟩ : ∃ inner, levels = inner + 1 + n := ⟨levels - 1 - n, by omega⟩
    have hproduct : Reader.product (inner + 1 + n) (us ++ ⟨t, position⟩ :: (vs ++ rest)) =
        productTail (inner + 1 + n - n) e₁ (⟨t, position⟩ :: (vs ++ rest)) :=
      hleft.within _ expected _ hus (by cases ht <;> simp [EndsAt]) (by omega)
    have hunary : Reader.unary inner (vs ++ rest) = .ok (e₂, rest) :=
      hright.within inner expected rest hvs hrest (by omega)
    rw [Nat.add_sub_cancel] at hproduct
    simp only [read, List.append_assoc, List.cons_append, hproduct, Reader.productTail,
      Token.multiplicative?_eq_some_iff.mpr ht, hunary, resume,
      show inner + 1 + n - (n + 1) = inner by omega]
  beyond levels expected rest ts hw hrest hc := by
    obtain ⟨us, position, vs, rfl, hus, hvs⟩ := exists_append_of_map hw
    have hends : (Phrase.product n).EndsAt (⟨t, position⟩ :: (vs ++ rest)) := by
      cases ht <;> simp [EndsAt]
    simp only [read, List.append_assoc, List.cons_append]
    by_cases hc₁ : c₁ ≤ levels
    · have hproduct : Reader.product levels (us ++ ⟨t, position⟩ :: (vs ++ rest)) =
          productTail (levels - n) e₁ (⟨t, position⟩ :: (vs ++ rest)) :=
        hleft.within levels expected _ hus hends hc₁
      rw [hproduct]
      cases hlevels : levels - n with
      | zero =>
        refine ⟨⟨t, position⟩ :: (vs ++ rest), ?_⟩
        simp only [Reader.productTail, Token.multiplicative?_eq_some_iff.mpr ht]
      | succ inner =>
        obtain ⟨xs, hunary⟩ := hright.beyond inner expected rest hvs hrest (by omega)
        rw [read] at hunary
        refine ⟨xs, ?_⟩
        simp only [Reader.productTail, Token.multiplicative?_eq_some_iff.mpr ht, hunary]
    · exact hleft.beyond levels expected _ hus hends (by omega)

theorem term (hproduct : Accepts (.product n) w e c) : Accepts (.sum 0) w e c where
  within levels expected rest ts hw hrest hc := by
    have hread : Reader.product levels (ts ++ rest) = productTail (levels - n) e rest :=
      hproduct.within levels expected rest hw hrest.1 hc
    rw [productTail_of_first hrest.2] at hread
    simp only [read, Reader.sum, hread, resume, Nat.sub_zero]
  beyond levels expected rest ts hw hrest hc := by
    obtain ⟨xs, hread⟩ := hproduct.beyond levels expected rest hw hrest.1 hc
    rw [read] at hread
    exact ⟨xs, by simp only [read, Reader.sum, hread]⟩

theorem plus {t : Token} {f : Expr → Expr → Expr} (hleft : Accepts (.sum n) w₁ e₁ c₁)
    (ht : t.JoinsTerms f) (hright : Accepts (.product m) w₂ e₂ c₂) :
    Accepts (.sum (n + 1)) (w₁ ++ t :: w₂) (f e₁ e₂) (max c₁ (n + 1 + c₂)) where
  within levels expected rest ts hw hrest hc := by
    obtain ⟨us, position, vs, rfl, hus, hvs⟩ := exists_append_of_map hw
    obtain ⟨inner, rfl⟩ : ∃ inner, levels = inner + 1 + n := ⟨levels - 1 - n, by omega⟩
    have hsum : Reader.sum (inner + 1 + n) (us ++ ⟨t, position⟩ :: (vs ++ rest)) =
        sumTail (inner + 1 + n - n) e₁ (⟨t, position⟩ :: (vs ++ rest)) :=
      hleft.within _ expected _ hus (by cases ht <;> exact ⟨by simp, rfl⟩) (by omega)
    have hproduct : Reader.product inner (vs ++ rest) = productTail (inner - m) e₂ rest :=
      hright.within inner expected rest hvs hrest.1 (by omega)
    rw [Nat.add_sub_cancel] at hsum
    rw [productTail_of_first hrest.2] at hproduct
    simp only [read, List.append_assoc, List.cons_append, hsum, Reader.sumTail,
      Token.additive?_eq_some_iff.mpr ht, hproduct, resume,
      show inner + 1 + n - (n + 1) = inner by omega]
  beyond levels expected rest ts hw hrest hc := by
    obtain ⟨us, position, vs, rfl, hus, hvs⟩ := exists_append_of_map hw
    have hends : (Phrase.sum n).EndsAt (⟨t, position⟩ :: (vs ++ rest)) := by
      cases ht <;> exact ⟨by simp, rfl⟩
    simp only [read, List.append_assoc, List.cons_append]
    by_cases hc₁ : c₁ ≤ levels
    · have hsum : Reader.sum levels (us ++ ⟨t, position⟩ :: (vs ++ rest)) =
          sumTail (levels - n) e₁ (⟨t, position⟩ :: (vs ++ rest)) :=
        hleft.within levels expected _ hus hends hc₁
      rw [hsum]
      cases hlevels : levels - n with
      | zero =>
        refine ⟨⟨t, position⟩ :: (vs ++ rest), ?_⟩
        simp only [Reader.sumTail, Token.additive?_eq_some_iff.mpr ht]
      | succ inner =>
        obtain ⟨xs, hproduct⟩ := hright.beyond inner expected rest hvs hrest.1 (by omega)
        rw [read] at hproduct
        refine ⟨xs, ?_⟩
        simp only [Reader.sumTail, Token.additive?_eq_some_iff.mpr ht, hproduct]
    · exact hleft.beyond levels expected _ hus hends (by omega)

end Phrase.Accepts

theorem Derives.accepts {p : Phrase} {w : List Token} {e : Expr} {c : Nat}
    (h : Derives p w e c) : p.Accepts w e c := by
  induction h with
  | number v => exact .number v
  | group _ ih => exact ih.group
  | alone h ih => exact ih.alone fun hw rest => (h.first_atom hw rest).1
  | dice hcount _ ihcount ihsides =>
    exact ihcount.dice (fun hw rest => (hcount.first_atom hw rest).1) ihsides
  | die _ ih => exact ih.die
  | plain h ih => exact ih.plain h.first_dice
  | negation _ ih => exact ih.negation
  | factor _ ih => exact ih.factor
  | times _ ht _ ihleft ihright => exact ihleft.times ht ihright
  | term _ ih => exact ih.term
  | plus _ ht _ ihleft ihright => exact ihleft.plus ht ihright

end DiceNotation
