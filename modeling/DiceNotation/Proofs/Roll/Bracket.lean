import DiceNotation.Proofs.Roll.InRange

/-!
Rolls between the least and the greatest dice. In an expression that no die can lower, made of sums,
products, quotients by a positive number and dice terms, greater dice only make greater values and
more dice. So a roll whose dice stay in range lies between the roll from the low ends of all ranges
and the one from the high ends, and nothing goes wrong in it if both of these succeed.
-/
namespace DiceNotation

/-- The expressions without a negative number, a negation or a difference, and without a quotient
other than by a positive literal. -/
inductive Expr.Rising : Expr → Prop
  | num {value : Value} (h : 0 ≤ value.toInt) : Rising (.num value)
  | dice {count sides : Expr} (hcount : Rising count) (hsides : Rising sides) :
    Rising (.dice count sides)
  | add {left right : Expr} (hleft : Rising left) (hright : Rising right) :
    Rising (.add left right)
  | mul {left right : Expr} (hleft : Rising left) (hright : Rising right) :
    Rising (.mul left right)
  | div {left : Expr} {divisor : Value} (hleft : Rising left) (hdivisor : 0 < divisor.toInt) :
    Rising (.div left (.num divisor))

namespace Rolling

variable {σ : Type} [Source σ]

/-- A run between one that shows the low end of every range and one that shows the high end. It may
have more dice than the one and fewer than the other. -/
structure Between (low : Run Supply) (run : Run σ) (high : Run Supply) : Prop where
  lowest : low.source = .lowest
  source : Source.InRange run.source
  highest : high.source = .highest
  size_ge : low.rolls.size ≤ run.rolls.size
  size_le : run.rolls.size ≤ high.rolls.size

/-- Integers that are in order and not negative. -/
structure Ascending (x y z : Int) : Prop where
  nonneg : 0 ≤ x
  ge : x ≤ y
  le : y ≤ z

namespace Ascending

variable {x y z x' y' z' : Int}

theorem add (h : Ascending x y z) (h' : Ascending x' y' z') :
    Ascending (x + x') (y + y') (z + z') where
  nonneg := Int.add_nonneg h.nonneg h'.nonneg
  ge := Int.add_le_add h.ge h'.ge
  le := Int.add_le_add h.le h'.le

theorem mul (h : Ascending x y z) (h' : Ascending x' y' z') :
    Ascending (x * x') (y * y') (z * z') := by
  have hy : 0 ≤ y := Int.le_trans h.nonneg h.ge
  have hy' : 0 ≤ y' := Int.le_trans h'.nonneg h'.ge
  have hz : 0 ≤ z := Int.le_trans hy h.le
  constructor
  · exact Int.mul_nonneg h.nonneg h'.nonneg
  · exact Int.mul_le_mul h.ge h'.ge h'.nonneg hy
  · exact Int.mul_le_mul h.le h'.le hy' hz

theorem tdiv (h : Ascending x y z) {d : Int} (hd : 0 < d) :
    Ascending (x.tdiv d) (y.tdiv d) (z.tdiv d) := by
  have hy : 0 ≤ y := Int.le_trans h.nonneg h.ge
  have hz : 0 ≤ z := Int.le_trans hy h.le
  rw [Int.tdiv_eq_ediv_of_nonneg h.nonneg, Int.tdiv_eq_ediv_of_nonneg hy,
    Int.tdiv_eq_ediv_of_nonneg hz]
  constructor
  · exact Int.ediv_nonneg h.nonneg (Int.le_of_lt hd)
  · exact Int.ediv_le_ediv hd h.ge
  · exact Int.ediv_le_ediv hd h.le

end Ascending

section Success

variable {ceiling : Option UInt32} {count sides sum value total : Value} {n : Nat} {run : Run σ}

omit [Source σ] in
theorem of_outcome_inRange_eq_ok {value? : Option Value}
    (h : (inRange value?).outcome run = .ok value) :
    value? = some value ∧ (inRange value?).after run = run := by
  cases value? with
  | none => cases h
  | some v =>
    cases h
    exact ⟨rfl, rfl⟩

theorem refusal?_of_outcome_term (h : (term ceiling count sides).outcome run = .ok total) :
    refusal? ceiling run.rolls.size count sides = none := by
  cases hrefusal : refusal? ceiling run.rolls.size count sides with
  | none => rfl
  | some error =>
    rw [outcome_congr (term_refused hrefusal)] at h
    cases h

/-- Dice that always show the same value, from a source that stays as it is. -/
theorem steady_dice (hdraw : Source.draw 1 sides run.source = (some value, run.source))
    (h : (dice sides n sum).outcome run = .ok total) :
    total.toInt = sum.toInt + n * value.toInt ∧
      ((dice sides n sum).after run).source = run.source ∧
      ((dice sides n sum).after run).rolls.size = run.rolls.size + n := by
  induction n generalizing sum run with
  | zero =>
    cases h
    exact ⟨by omega, rfl, rfl⟩
  | succ n ih =>
    have hdice := dice_succ n sum (congrArg Prod.fst hdraw)
    rw [outcome_congr hdice] at h
    rw [after_congr hdice]
    obtain ⟨next, hnext, h⟩ := exists_of_outcome_bind_eq_ok h
    obtain ⟨hvalue, hafter⟩ := of_outcome_inRange_eq_ok hnext
    rw [after_bind_of_ok hnext, hafter]
    rw [hafter] at h
    have hsource : (behindDie sides value run).source = run.source := congrArg Prod.snd hdraw
    have hagain : Source.draw 1 sides (behindDie sides value run).source =
        (some value, (behindDie sides value run).source) := by
      rw [hsource]
      exact hdraw
    obtain ⟨htotal, hsource', hsize⟩ := ih hagain h
    refine ⟨?_, hsource'.trans hsource, ?_⟩
    · rw [htotal, Value.ofInt?_eq_some_iff.mp hvalue, Int.natCast_add, Int.add_mul]
      omega
    · rw [hsize, behindDie, Array.size_push]
      omega

end Success

/-- In runs between each other, `m` succeeds with a value between those of `m₀` and `m₁` if both of
these succeed. -/
def Brackets (m₀ : Rolling Supply Value) (m : Rolling σ Value) (m₁ : Rolling Supply Value) : Prop :=
  ∀ low run high, Between low run high → ∀ x z, m₀.outcome low = .ok x →
    m₁.outcome high = .ok z → ∃ y, m.outcome run = .ok y ∧ Ascending x.toInt y.toInt z.toInt ∧
      Between (m₀.after low) (m.after run) (m₁.after high)

namespace Brackets

variable {m₀ m₁ : Rolling Supply Value} {m : Rolling σ Value}

theorem bind {f₀ f₁ : Value → Rolling Supply Value} {f : Value → Rolling σ Value}
    (first : Brackets m₀ m m₁)
    (next : ∀ x y z, Ascending x.toInt y.toInt z.toInt → Brackets (f₀ x) (f y) (f₁ z)) :
    Brackets (m₀ >>= f₀) (m >>= f) (m₁ >>= f₁) := by
  intro low run high hbetween x z hlow hhigh
  obtain ⟨x', hx', hlow⟩ := exists_of_outcome_bind_eq_ok hlow
  obtain ⟨z', hz', hhigh⟩ := exists_of_outcome_bind_eq_ok hhigh
  obtain ⟨y', hy', hascending, hafter⟩ := first low run high hbetween x' z' hx' hz'
  rw [outcome_bind_of_ok hy', after_bind_of_ok hx', after_bind_of_ok hy', after_bind_of_ok hz']
  exact next x' y' z' hascending _ _ _ hafter x z hlow hhigh

theorem operands {n₀ n₁ : Rolling Supply Value} {n : Rolling σ Value}
    {f₀ f₁ : Value → Value → Rolling Supply Value} {f : Value → Value → Rolling σ Value}
    (left : Brackets m₀ m m₁) (right : Brackets n₀ n n₁)
    (last : ∀ x y z x' y' z', Ascending x.toInt y.toInt z.toInt →
      Ascending x'.toInt y'.toInt z'.toInt → Brackets (f₀ x x') (f y y') (f₁ z z')) :
    Brackets (do f₀ (← m₀) (← n₀)) (do f (← m) (← n)) (do f₁ (← m₁) (← n₁)) :=
  left.bind fun x y z h => right.bind fun x' y' z' h' => last x y z x' y' z' h h'

theorem pure {value : Value} (h : 0 ≤ value.toInt) :
    Brackets (pure value) (Pure.pure value : Rolling σ Value) (Pure.pure value) := by
  intro low run high hbetween x z hlow hhigh
  cases hlow
  cases hhigh
  exact ⟨value, rfl, ⟨h, Int.le_refl _, Int.le_refl _⟩, hbetween⟩

/-- An integer between two that are in range is in range. -/
theorem inRange {i j k : Int} (h : Ascending i j k) :
    Brackets (inRange (Value.ofInt? i)) (Rolling.inRange (Value.ofInt? j) : Rolling σ Value)
      (Rolling.inRange (Value.ofInt? k)) := by
  intro low run high hbetween x z hlow hhigh
  obtain ⟨hx, hlow⟩ := of_outcome_inRange_eq_ok hlow
  obtain ⟨hz, hhigh⟩ := of_outcome_inRange_eq_ok hhigh
  rw [Value.ofInt?_eq_some_iff] at hx hz
  cases hy : Value.ofInt? j with
  | none =>
    have hlarge := Value.ofInt?_eq_none_iff.mp hy
    have hbounds := z.toInt_bounds
    have hnonneg := h.nonneg
    have hge := h.ge
    have hle := h.le
    omega
  | some y =>
    have hj := Value.ofInt?_eq_some_iff.mp hy
    rw [hlow, hhigh]
    refine ⟨y, rfl, ?_, hbetween⟩
    rwa [hx, hj, hz]

/-- More dice with more sides show more. -/
theorem dice {n₀ n n₁ : Nat} (hge : n₀ ≤ n) (hle : n ≤ n₁) {s₀ s s₁ : Value}
    (hsides : Ascending s₀.toInt s.toInt s₁.toInt) (hone : 1 ≤ s₀.toInt) :
    Brackets (dice s₀ n₀ 0) (Rolling.dice s n 0 : Rolling σ Value) (Rolling.dice s₁ n₁ 0) := by
  intro low run high hbetween x z hlow hhigh
  obtain ⟨hlowest, hsource, hhighest, hsizeGe, hsizeLe⟩ := hbetween
  have hone₀ : Source.draw 1 s₀ low.source = (some 1, low.source) := by
    rw [hlowest]
    rfl
  have hlast₁ : Source.draw 1 s₁ high.source = (some s₁, high.source) := by
    rw [hhighest]
    rfl
  obtain ⟨hx, hlow, hsize₀⟩ := steady_dice hone₀ hlow
  obtain ⟨hz, hhigh, hsize₁⟩ := steady_dice hlast₁ hhigh
  have hends : EndsInBounds n s 0 run :=
    endsInBounds (Int.le_trans hone hsides.ge) (Int.le_refl 0) hsource
  have hproduct : (n : Int) * s.toInt ≤ n₁ * s₁.toInt :=
    Int.mul_le_mul (by omega) hsides.le (Int.le_trans hsides.nonneg hsides.ge) (by omega)
  simp only [Int32.toInt_zero, Int32.toInt_one] at hx hz
  rcases hends.sum with ⟨y, hok, hyGe, hyLe, hsize⟩ | ⟨-, hlarge⟩
  · rw [Int32.toInt_zero] at hyGe hyLe
    refine ⟨y, hok, ⟨by omega, by omega, by omega⟩, ?_⟩
    exact ⟨hlow.trans hlowest, hends.source, hhigh.trans hhighest, by omega, by omega⟩
  · rw [Int32.toInt_zero] at hlarge
    have hbounds := z.toInt_bounds
    omega

theorem note {x y z : Value} (h : Ascending x.toInt y.toInt z.toInt) (c₀ c c₁ s₀ s s₁ : Value)
    (before₀ before before₁ : Nat) :
    Brackets (note c₀ s₀ before₀ x) (Rolling.note c s before y : Rolling σ Value)
      (Rolling.note c₁ s₁ before₁ z) := by
  intro low run high hbetween x' z' hlow hhigh
  cases hlow
  cases hhigh
  obtain ⟨hlowest, hsource, hhighest, hsizeGe, hsizeLe⟩ := hbetween
  exact ⟨y, rfl, h, hlowest, hsource, hhighest, hsizeGe, hsizeLe⟩

/-- A term is accepted if those below and above it are: the first has sides, and the second has
room under the ceiling. -/
theorem term (ceiling : Option UInt32) {c₀ c c₁ s₀ s s₁ : Value}
    (hcount : Ascending c₀.toInt c.toInt c₁.toInt) (hsides : Ascending s₀.toInt s.toInt s₁.toInt) :
    Brackets (term ceiling c₀ s₀) (Rolling.term ceiling c s : Rolling σ Value)
      (Rolling.term ceiling c₁ s₁) := by
  intro low run high hbetween x z hlow hhigh
  have hrefusal₀ := refusal?_of_outcome_term hlow
  have hrefusal₁ := refusal?_of_outcome_term hhigh
  obtain ⟨hone, -, -⟩ := refusal?_eq_none_iff.mp hrefusal₀
  obtain ⟨-, -, hroom⟩ := refusal?_eq_none_iff.mp hrefusal₁
  obtain ⟨hnonneg, hge, hle⟩ := hcount
  have hrefusal : refusal? ceiling run.rolls.size c s = none := by
    refine refusal?_eq_none_iff.mpr ⟨Int.le_trans hone hsides.ge, by omega, ?_⟩
    intro limit hlimit
    have hlimit := hroom limit hlimit
    have hsize := hbetween.size_le
    omega
  have hdice := dice (σ := σ) (Int.toNat_le_toNat hge) (Int.toNat_le_toNat hle) hsides hone
  have hnoted := hdice.bind fun x y z h =>
    note h c₀ c c₁ s₀ s s₁ low.rolls.size run.rolls.size high.rolls.size
  rw [outcome_congr (term_accepted hrefusal₀)] at hlow
  rw [outcome_congr (term_accepted hrefusal₁)] at hhigh
  rw [outcome_congr (term_accepted hrefusal), after_congr (term_accepted hrefusal₀),
    after_congr (term_accepted hrefusal), after_congr (term_accepted hrefusal₁)]
  exact hnoted low run high hbetween x z hlow hhigh

end Brackets

/-- A rising expression rolls between its rolls from both ends of all ranges. -/
theorem brackets_roll (ceiling : Option UInt32) {e : Expr} (he : e.Rising) :
    Brackets (e.roll ceiling) (e.roll ceiling : Rolling σ Value) (e.roll ceiling) := by
  induction he with
  | num h => exact .pure h
  | dice hcount hsides ihcount ihsides =>
    exact ihcount.operands ihsides fun _ _ _ _ _ _ => .term ceiling
  | add hleft hright ihleft ihright =>
    apply ihleft.operands ihright
    intro x y z x' y' z' h h'
    exact .inRange (h.add h')
  | mul hleft hright ihleft ihright =>
    apply ihleft.operands ihright
    intro x y z x' y' z' h h'
    exact .inRange (h.mul h')
  | @div left divisor hleft hdivisor ihleft =>
    have hne : divisor ≠ 0 := by
      rintro rfl
      cases hdivisor
    apply ihleft.bind
    intro x y z h
    change Brackets (if divisor = 0 then _ else Rolling.inRange _)
      (if divisor = 0 then _ else Rolling.inRange _) (if divisor = 0 then _ else Rolling.inRange _)
    rw [if_neg hne, if_neg hne, if_neg hne]
    exact .inRange (h.tdiv hdivisor)

end Rolling

/-- If a rising expression succeeds with the least dice and with the greatest, it succeeds with any
source that stays in range, under the same ceiling. The total and the number of dice then lie
between those of the two. -/
theorem Roller.evaluate_between {σ : Type} [Source σ] {s : σ} (hs : Source.InRange s) {e : Expr}
    (he : e.Rising) {ceiling : Option UInt32} (journal₀ journal journal₁ : Array Event)
    {lowest highest : Evaluation}
    (hlow : ((Roller.mk Supply.lowest ceiling journal₀).evaluate e).1 = .ok lowest)
    (hhigh : ((Roller.mk Supply.highest ceiling journal₁).evaluate e).1 = .ok highest) :
    ∃ evaluation, ((Roller.mk s ceiling journal).evaluate e).1 = .ok evaluation ∧
      lowest.total.toInt ≤ evaluation.total.toInt ∧
      evaluation.total.toInt ≤ highest.total.toInt ∧
      lowest.rolls.size ≤ evaluation.rolls.size ∧ evaluation.rolls.size ≤ highest.rolls.size := by
  rw [evaluate_eq, evaluationOf_eq_ok_iff] at hlow hhigh
  have hbetween : Rolling.Between (Roller.mk Supply.lowest ceiling journal₀).start
      (Roller.mk s ceiling journal).start (Roller.mk Supply.highest ceiling journal₁).start :=
    ⟨rfl, hs, rfl, Nat.le_refl _, Nat.le_refl _⟩
  obtain ⟨total, htotal, hascending, hafter⟩ :=
    Rolling.brackets_roll ceiling he _ _ _ hbetween _ _ hlow.1 hhigh.1
  let rolls := ((e.roll ceiling).after (Roller.mk s ceiling journal).start).rolls
  refine ⟨⟨total, rolls⟩, ?_, hascending.ge, hascending.le, ?_, ?_⟩
  · rw [evaluate_eq, evaluationOf_eq_ok_iff]
    exact ⟨htotal, rfl⟩
  · rw [hlow.2]
    exact hafter.size_ge
  · rw [hhigh.2]
    exact hafter.size_le

/-- `(1d2)d(1d3 + 2) * 2 + 7 / 2`, where both the count and the sides are rolled, under the lowest
ceiling that the greatest dice keep to. -/
theorem Roller.evaluate_between_rolled_count :
    let e := Expr.add
      (.mul (.dice (.ofDice 1 2) (.add (.ofDice 1 3) (.num 2))) (.num 2)) (.div (.num 7) (.num 2))
    e.Rising ∧
      ((Roller.mk Supply.lowest (some 4) #[]).evaluate e).1 = .ok ⟨5, #[1, 1, 1]⟩ ∧
      ((Roller.mk Supply.highest (some 4) #[]).evaluate e).1 = .ok ⟨23, #[2, 3, 5, 5]⟩ ∧
      ∃ evaluation, ((Roller.mk (Supply.ofSeed 5) (some 4) #[]).evaluate e).1 = .ok evaluation ∧
        5 ≤ evaluation.total.toInt ∧ evaluation.total.toInt ≤ 23 ∧
        3 ≤ evaluation.rolls.size ∧ evaluation.rolls.size ≤ 4 := by
  intro e
  have he : e.Rising := by
    have hcount : (Expr.ofDice 1 2).Rising := .dice (.num (by decide)) (.num (by decide))
    have hsides : (Expr.ofDice 1 3).Rising := .dice (.num (by decide)) (.num (by decide))
    exact .add (.mul (.dice hcount (.add hsides (.num (by decide)))) (.num (by decide)))
      (.div (.num (by decide)) (by decide))
  have hlow : ((Roller.mk Supply.lowest (some 4) #[]).evaluate e).1 = .ok ⟨5, #[1, 1, 1]⟩ := rfl
  have hhigh : ((Roller.mk Supply.highest (some 4) #[]).evaluate e).1 =
      .ok ⟨23, #[2, 3, 5, 5]⟩ := rfl
  exact ⟨he, hlow, hhigh,
    evaluate_between (Supply.inRange_ofSeed 5) he #[] #[] #[] hlow hhigh⟩

end DiceNotation
