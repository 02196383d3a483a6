import DiceNotation.Source

/-!
Sources whose values are always in the range that is asked for. The generator is one of them,
whatever its state and however wide the range is: the arithmetic on words wraps only where it is
meant to.
-/
namespace DiceNotation

/-- Whether a source, now and after all draws from it, gives a value in the range that is asked
for. -/
def Source.InRange {σ : Type} [Source σ] (s : σ) : Prop :=
  ∃ P : σ → Prop, P s ∧ ∀ s, P s → ∀ low high : Value, low.toInt ≤ high.toInt →
    ∃ value, (draw low high s).1 = some value ∧ low.toInt ≤ value.toInt ∧
      value.toInt ≤ high.toInt ∧ P (draw low high s).2

theorem Source.InRange.draw {σ : Type} [Source σ] {s : σ} (h : InRange s) {low high : Value}
    (hrange : low.toInt ≤ high.toInt) :
    ∃ value, (draw low high s).1 = some value ∧ low.toInt ≤ value.toInt ∧
      value.toInt ≤ high.toInt ∧ InRange (draw low high s).2 := by
  obtain ⟨P, hs, hP⟩ := h
  obtain ⟨value, hdraw, hlow, hhigh, hnext⟩ := hP s hs low high hrange
  exact ⟨value, hdraw, hlow, hhigh, P, hnext, hP⟩

namespace Generator

variable {n word : UInt32} {low high : Value}

theorem part_lt (hn : n ≠ 0) : (part n word).toNat < n.toNat := by
  have hpos : 0 < n.toNat := by
    apply Nat.pos_of_ne_zero
    intro hzero
    exact hn (UInt32.toNat_inj.mp hzero)
  have hword : word.toNat * n.toNat < UInt32.size * n.toNat :=
    Nat.mul_lt_mul_of_pos_right word.toNat_lt hpos
  have hquotient : word.toNat * n.toNat / UInt32.size < n.toNat := Nat.div_lt_of_lt_mul hword
  rw [part, UInt32.toNat_ofNat']
  exact Nat.lt_of_le_of_lt (Nat.mod_le _ _) hquotient

theorem below_lt (hn : n ≠ 0) (g : Generator) : (below n g).1.toNat < n.toNat := by
  fun_induction below n g with
  | case1 g h => exact part_lt hn
  | case2 g h ih => exact ih

theorem toInt_eq_bmod (v : Value) : v.toInt = (v.toUInt32.toNat : Int).bmod UInt32.size :=
  BitVec.toInt_eq_toNat_bmod v.toBitVec

/-- The width of a range is right as a word, also where it is too wide for a value. -/
theorem toNat_width (h : low.toInt ≤ high.toInt) :
    ((high - low).toUInt32.toNat : Int) = high.toInt - low.toInt := by
  have hdifference : (high - low).toInt = (high.toInt - low.toInt).bmod UInt32.size :=
    Int32.toInt_sub high low
  rw [toInt_eq_bmod] at hdifference
  have hmod := congrArg (· % (UInt32.size : Int)) hdifference
  simp only [Int.bmod_emod, UInt32.size] at hmod
  have hlow := Value.toInt_bounds low
  have hhigh := Value.toInt_bounds high
  have hword := (high - low).toUInt32.toNat_lt
  omega

/-- A word added to a value wraps only if their sum is no value. -/
theorem toInt_add_word (h : low.toInt + word.toNat < 2147483648) :
    (low + word.toInt32).toInt = low.toInt + word.toNat := by
  have hsum : (low + word.toInt32).toInt = (low.toInt + word.toInt32.toInt).bmod UInt32.size :=
    Int32.toInt_add low word.toInt32
  have hword : word.toInt32.toInt = (word.toNat : Int).bmod UInt32.size :=
    toInt_eq_bmod word.toInt32
  have hlow := Value.toInt_bounds low
  rw [hsum, hword, Int.add_bmod_bmod]
  apply Int.bmod_eq_of_le
  · simp only [UInt32.size]
    omega
  · simp only [UInt32.size]
    omega

/-- The number of values in a range is not zero as a word, unless these are all values. -/
theorem toNat_count (h : low.toInt ≤ high.toInt)
    (hpart : ¬(low = Int32.minValue ∧ high = Int32.maxValue)) :
    (((high - low).toUInt32 + 1).toNat : Int) = high.toInt - low.toInt + 1 := by
  have hlow := Value.toInt_bounds low
  have hhigh := Value.toInt_bounds high
  have hwidth := toNat_width h
  have hne : high.toInt - low.toInt ≠ 4294967295 := by
    intro hall
    apply hpart
    have hmin : low.toInt = Int32.minValue.toInt := by
      rw [Int32.toInt_minValue]
      omega
    have hmax : high.toInt = Int32.maxValue.toInt := by
      rw [Int32.toInt_maxValue]
      omega
    exact ⟨Int32.toInt_inj.mp hmin, Int32.toInt_inj.mp hmax⟩
  rw [UInt32.toNat_add, UInt32.toNat_one]
  omega

theorem uniform_of_part (hpart : ¬(low = Int32.minValue ∧ high = Int32.maxValue))
    (g : Generator) :
    (uniform low high g).1 = low + (below ((high - low).toUInt32 + 1) g).1.toInt32 := by
  unfold uniform
  rcases below ((high - low).toUInt32 + 1) g with ⟨offset, next⟩
  rw [if_neg hpart]

/-- A value of the part of a range that a word stands for is in the range. -/
theorem add_below_mem (h : low.toInt ≤ high.toInt)
    (hpart : ¬(low = Int32.minValue ∧ high = Int32.maxValue)) (g : Generator) :
    low.toInt ≤ (low + (below ((high - low).toUInt32 + 1) g).1.toInt32).toInt ∧
      (low + (below ((high - low).toUInt32 + 1) g).1.toInt32).toInt ≤ high.toInt := by
  have hcount := toNat_count h hpart
  have hne : (high - low).toUInt32 + 1 ≠ 0 := by
    intro hzero
    rw [hzero, UInt32.toNat_zero] at hcount
    omega
  have hoffset := below_lt hne g
  have hhigh := Value.toInt_bounds high
  rw [toInt_add_word]
  · omega
  · omega

theorem uniform_mem (h : low.toInt ≤ high.toInt) (g : Generator) :
    low.toInt ≤ (uniform low high g).1.toInt ∧ (uniform low high g).1.toInt ≤ high.toInt := by
  by_cases hall : low = Int32.minValue ∧ high = Int32.maxValue
  · have hbounds := Value.toInt_bounds (uniform low high g).1
    rw [hall.1, hall.2, Int32.toInt_minValue, Int32.toInt_maxValue] at *
    omega
  · rw [uniform_of_part hall]
    exact add_below_mem h hall g

theorem inRange (g : Generator) : Source.InRange g := by
  refine ⟨fun _ => True, trivial, ?_⟩
  intro g _ low high hrange
  obtain ⟨hlow, hhigh⟩ := uniform_mem hrange g
  exact ⟨_, rfl, hlow, hhigh, trivial⟩

end Generator

theorem Supply.inRange_lowest : Source.InRange lowest := by
  refine ⟨(· = lowest), rfl, ?_⟩
  rintro _ rfl low high hrange
  exact ⟨low, rfl, Int.le_refl _, hrange, rfl⟩

theorem Supply.inRange_ofSeed (seed : UInt64) : Source.InRange (ofSeed seed) := by
  refine ⟨fun s => ∃ g, s = generated g, ⟨⟨seed⟩, rfl⟩, ?_⟩
  rintro _ ⟨g, rfl⟩ low high hrange
  obtain ⟨hlow, hhigh⟩ := Generator.uniform_mem hrange g
  exact ⟨_, rfl, hlow, hhigh, _, rfl⟩

end DiceNotation
