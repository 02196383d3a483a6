import DiceNotation.Evaluation.Roll
import DiceNotation.Proofs.Acceptance
import DiceNotation.Proofs.Canonical.Derivation
import DiceNotation.Proofs.Scanning.Exact

/-!
Reading canonical text back. The text of a tree without the least literal is read as the normal form
of the tree, which rolls as the tree does, or it is too deep; nothing else can go wrong. A tree that
was read from a text has no literals below zero and is its own normal form.

The text of an accepted tree can still be too deep. Its parentheses are gone where the tree is the
same without them, and then the operators that stood inside are charged to every operand behind.
-/
namespace DiceNotation

open Placed

namespace Writes

variable {text : String} {w : List Token} {e : Expr} {c : Nat}

/-- A text in which an expression is written is read with the tokens of that expression. -/
theorem exists_body (h : Writes text w) (hforms : Forms w e c) :
    ∃ ts, DiceNotation.tokenize text = .ok ts ∧ body ts = w := by
  obtain ⟨us, rfl, htokenize⟩ := h.tokenize
  rcases hforms with ⟨n, hderives⟩
  exact ⟨_, htokenize, body_append hderives.stop_notMem rfl⟩

theorem ofText_within (h : Writes text w) (hforms : Forms w e c) (hc : c ≤ maxDepth) :
    Expr.ofText text = .ok e := by
  obtain ⟨ts, hts, rfl⟩ := h.exists_body hforms
  simp only [Expr.ofText, hts, hforms.parse_within hc]

theorem ofText_beyond (h : Writes text w) (hforms : Forms w e c) (hc : maxDepth < c) :
    ∃ position, Expr.ofText text = .error (.parse ⟨.tooDeep, position⟩) := by
  obtain ⟨ts, hts, rfl⟩ := h.exists_body hforms
  obtain ⟨position, hparse⟩ := hforms.parse_beyond hc
  exact ⟨position, by simp only [Expr.ofText, hts, hparse]⟩

end Writes

namespace Expr

theorem inRange_neg {σ : Type} {v : Value} (hv : v ≠ Int32.minValue) :
    (Rolling.inRange (-v).neg? : Rolling σ Value) = pure v := by
  have hopposite : v.toInt = -(-v).toInt := by
    rw [Value.toInt_neg_of_ne hv, Int.neg_neg]
  rw [Value.neg?, Value.ofInt?_eq_some_iff.mpr hopposite]
  rfl

/-- The normal form rolls as the tree does, draw by draw. -/
theorem roll_normal {σ : Type} [Source σ] (e : Expr) (he : ∀ v ∈ e.literals, v ≠ Int32.minValue)
    (ceiling : Option UInt32) : (e.normal.roll ceiling : Rolling σ Value) = e.roll ceiling := by
  induction e with
  | num v =>
    rw [normal]
    split
    · exact inRange_neg (he v (List.mem_singleton_self v))
    · rfl
  | neg operand ih => rw [normal, roll, roll, ih he]
  | dice left right ihleft ihright | add left right ihleft ihright | sub left right ihleft ihright
  | mul left right ihleft ihright | div left right ihleft ihright =>
    simp only [literals, List.mem_append] at he
    rw [normal, roll, roll, ihleft fun v hv => he v (.inl hv), ihright fun v hv => he v (.inr hv)]

/-- Canonical text is read as the normal form of its tree, up to the depth charge of the text. -/
theorem ofText_display (e : Expr) (he : ∀ v ∈ e.literals, v ≠ Int32.minValue) :
    ((∀ v ∈ e.literals, 0 ≤ v.toInt) → e.normal = e) ∧
      (∃ ts, tokenize e.display = .ok ts ∧
        ∀ e' c, Forms (body ts) e' c ↔ e' = e.normal ∧ c = e.charge) ∧
      (e.charge ≤ maxDepth → ofText e.display = .ok e.normal) ∧
      (maxDepth < e.charge →
        ∃ position, ofText e.display = .error (.parse ⟨.tooDeep, position⟩)) ∧
      ∀ (σ : Type) [Source σ] (ceiling : Option UInt32),
        (e.normal.roll ceiling : Rolling σ Value) = e.roll ceiling := by
  have hwrites := e.writes_display he
  have hforms := e.forms_tokens
  refine ⟨e.normal_eq_self, ?_, hwrites.ofText_within hforms, hwrites.ofText_beyond hforms,
    fun σ _ ceiling => e.roll_normal he ceiling⟩
  obtain ⟨ts, hts, hbody⟩ := hwrites.exists_body hforms
  refine ⟨ts, hts, fun e' c => ⟨fun h => ?_, ?_⟩⟩
  · rw [hbody] at h
    exact h.unique hforms
  · rintro ⟨rfl, rfl⟩
    rwa [hbody]

/-- `1 - (-2 + 3d(-(-4)))` with two negative literals, and the tree that its text is read as. -/
theorem ofText_display_signed :
    let e := sub (num 1) (add (num (-2)) (dice (num 3) (neg (num (-4)))))
    (∀ v ∈ e.literals, v ≠ Int32.minValue) ∧ e.charge ≤ maxDepth ∧
      ofText e.display =
        .ok (sub (num 1) (add (neg (num 2)) (dice (num 3) (neg (neg (num 4)))))) := by
  intro e
  have he : ∀ v ∈ e.literals, v ≠ Int32.minValue := by
    intro v hv
    have hmem : v = 1 ∨ v = -2 ∨ v = 3 ∨ v = -4 := by simpa [e, literals] using hv
    rcases hmem with rfl | rfl | rfl | rfl <;> decide
  have hc : e.charge ≤ maxDepth := by decide
  exact ⟨he, hc, (ofText_display e he).2.2.1 hc⟩

end Expr

theorem Token.JoinsFactors.literals {t f} (h : JoinsFactors t f) (e₁ e₂ : Expr) :
    (f e₁ e₂).literals = e₁.literals ++ e₂.literals := by
  cases h <;> rfl

theorem Token.JoinsTerms.literals {t f} (h : JoinsTerms t f) (e₁ e₂ : Expr) :
    (f e₁ e₂).literals = e₁.literals ++ e₂.literals := by
  cases h <;> rfl

/-- Only literals that are written without a sign are read. -/
theorem Derives.unsigned_literals {p w e c} (h : Derives p w e c) (hw : ∀ t ∈ w, t.Unsigned) :
    ∀ v ∈ e.literals, 0 ≤ v.toInt := by
  induction h with
  | number v =>
    have hv : 0 ≤ v.toInt := hw _ (List.mem_singleton_self _) v rfl
    exact List.forall_mem_singleton.mpr hv
  | group inside ih => exact ih fun t ht => hw t (by simp [ht])
  | alone atom ih | plain atom ih | factor atom ih | term atom ih => exact ih hw
  | negation operand ih => exact ih fun t ht => hw t (List.mem_cons_of_mem _ ht)
  | die sides ih =>
    have hsides := ih fun t ht => hw t (List.mem_cons_of_mem _ ht)
    exact List.forall_mem_cons.mpr ⟨Int.zero_le_ofNat 1, hsides⟩
  | dice count sides ihcount ihsides =>
    have hcount := ihcount fun t ht => hw t (by simp [ht])
    have hsides := ihsides fun t ht => hw t (by simp [ht])
    exact List.forall_mem_append.mpr ⟨hcount, hsides⟩
  | times left operator right ihleft ihright =>
    have hleft := ihleft fun t ht => hw t (by simp [ht])
    have hright := ihright fun t ht => hw t (by simp [ht])
    rw [operator.literals]
    exact List.forall_mem_append.mpr ⟨hleft, hright⟩
  | plus left operator right ihleft ihright =>
    have hleft := ihleft fun t ht => hw t (by simp [ht])
    have hright := ihright fun t ht => hw t (by simp [ht])
    rw [operator.literals]
    exact List.forall_mem_append.mpr ⟨hleft, hright⟩

namespace Expr

theorem ofText_eq_ok_iff {text : String} {e : Expr} :
    ofText text = .ok e ↔ ∃ ts, tokenize text = .ok ts ∧ parse ts = .ok e := by
  unfold ofText
  cases tokenize text with
  | error error => simp
  | ok ts => cases hparse : parse ts <;> simp [hparse]

theorem unsigned_of_ofText {text : String} {e : Expr} (h : ofText text = .ok e) :
    ∀ v ∈ e.literals, 0 ≤ v.toInt := by
  obtain ⟨ts, hts, hparse⟩ := ofText_eq_ok_iff.mp h
  obtain ⟨c, ⟨n, hderives⟩, -⟩ := forms_of_parse hparse
  apply hderives.unsigned_literals
  intro t ht
  obtain ⟨placed, hplaced, rfl⟩ := List.mem_map.mp ((List.takeWhile_sublist _).mem ht)
  exact unsigned_of_tokenize hts placed hplaced

/-- The tree of an accepted text is read back from its canonical text exactly when the depth charge
of that text is in bounds. Otherwise the canonical text is too deep. -/
theorem ofText_display_of_ofText {text : String} {e : Expr} (h : ofText text = .ok e) :
    (∃ ts, tokenize e.display = .ok ts ∧ Forms (body ts) e e.charge) ∧
      (ofText e.display = .ok e ↔ e.charge ≤ maxDepth) ∧
      (maxDepth < e.charge →
        ∃ position, ofText e.display = .error (.parse ⟨.tooDeep, position⟩)) := by
  have hunsigned := unsigned_of_ofText h
  have he : ∀ v ∈ e.literals, v ≠ Int32.minValue := by
    intro v hv hmin
    have hsign := hunsigned v hv
    rw [hmin, Int32.toInt_minValue] at hsign
    omega
  have hwrites := e.writes_display he
  have hforms : Forms e.tokens e e.charge := by
    have hnormal := e.forms_tokens
    rwa [e.normal_eq_self hunsigned] at hnormal
  refine ⟨?_, ⟨?_, hwrites.ofText_within hforms⟩, hwrites.ofText_beyond hforms⟩
  · obtain ⟨ts, hts, hbody⟩ := hwrites.exists_body hforms
    exact ⟨ts, hts, by rwa [hbody]⟩
  · intro hread
    apply Nat.le_of_not_lt
    intro hc
    obtain ⟨position, hdeep⟩ := hwrites.ofText_beyond hforms hc
    rw [hread] at hdeep
    cases hdeep

section Regrouped

/-- One behind `n` signs. -/
def signedOne : Nat → Expr
  | 0 => num 1
  | n + 1 => neg (signedOne n)

def signedText : Nat → String
  | 0 => Value.text 1
  | n + 1 => "-" ++ signedText n

/-- A sum whose first operand is a sum, with `n` signs in the second. -/
def regrouped (n : Nat) : Expr := add (add (num 1) (num 1)) (signedOne n)

/-- `(1+1)+1` with `n` signs in front of the last number. -/
def regroupedText (n : Nat) : String :=
  "(" ++ (Value.text 1 ++ "+" ++ Value.text 1) ++ ")" ++ "+" ++ signedText n

theorem writes_signedText (n : Nat) :
    ∃ w, Writes (signedText n) w ∧ Derives .unary w (signedOne n) n := by
  induction n with
  | zero => exact ⟨_, .number (by decide), (Derives.number 1).alone.plain⟩
  | succ n ih =>
    rcases ih with ⟨w, hw, hderives⟩
    exact ⟨_, hw.behind (.of_char rfl rfl), hderives.negation⟩

/-- The group is charged two levels, and the second operand one for the operator in front. -/
theorem ofText_regroupedText {n : Nat} (hn : n < maxDepth) :
    ofText (regroupedText n) = .ok (regrouped n) := by
  have hone : Writes (Value.text 1) [.number 1] := .number (by decide)
  have hplus : Marks "+" .plus := .of_char rfl rfl
  obtain ⟨w, hw, hsigned⟩ := writes_signedText n
  have hwrites := ((hone.between hplus hone).enclosed).between hplus hw
  have hunary : Derives .unary [.number 1] (num 1) 0 := (Derives.number 1).alone.plain
  have hsum := hunary.factor.term.plus .plus hunary.factor
  have hforms := hsum.group.alone.plain.factor.term.plus .plus hsigned.factor
  apply hwrites.ofText_within ⟨_, hforms⟩
  simp only [maxDepth] at hn ⊢
  omega

theorem charge_signedOne (n : Nat) : (signedOne n).charge = n := by
  induction n with
  | zero => rfl
  | succ n ih =>
    have hstands : (signedOne n).standsNegated = true := by cases n <;> rfl
    rw [signedOne, charge, ih, hstands]
    rfl

/-- Without the group both operators are charged to the second operand. -/
theorem charge_regrouped (n : Nat) : (regrouped n).charge = n + 2 := by
  have hstands : (signedOne n).standsRight .additive = true := by cases n <;> rfl
  have hleft : (add (num 1) (num 1)).charge = 1 := rfl
  have hoperators : (add (num 1) (num 1)).operators .additive = 1 := rfl
  have hjoined : (regrouped n).charge = max 1 (1 + 1 + n) := by
    rw [regrouped, charge, joinedCharge, charge_signedOne, hleft, hoperators, hstands]
    rfl
  omega

/-- With 254 signs both texts are in bounds. -/
theorem ofText_display_regrouped :
    ofText (regroupedText 254) = .ok (regrouped 254) ∧ (regrouped 254).charge = maxDepth ∧
      ofText (regrouped 254).display = .ok (regrouped 254) := by
  have hread : ofText (regroupedText 254) = .ok (regrouped 254) := ofText_regroupedText (by decide)
  have hc : (regrouped 254).charge = maxDepth := charge_regrouped 254
  exact ⟨hread, hc, (ofText_display_of_ofText hread).2.1.mpr (Nat.le_of_eq hc)⟩

/-- With 255 signs the canonical text is too deep. -/
theorem ofText_display_tooDeep :
    ofText (regroupedText 255) = .ok (regrouped 255) ∧
      ∃ position, ofText (regrouped 255).display = .error (.parse ⟨.tooDeep, position⟩) := by
  have hread : ofText (regroupedText 255) = .ok (regrouped 255) := ofText_regroupedText (by decide)
  have he : ∀ v ∈ (regrouped 255).literals, v ≠ Int32.minValue := by
    intro v hv hmin
    have hsign := unsigned_of_ofText hread v hv
    rw [hmin, Int32.toInt_minValue] at hsign
    omega
  have hc : maxDepth < (regrouped 255).charge := by rw [charge_regrouped]; decide
  exact ⟨hread, (writes_display _ he).ofText_beyond (forms_tokens _) hc⟩

end Regrouped

end Expr

end DiceNotation
