import DiceNotation.Proofs.Source.Range
import Mathlib.Data.Set.Card
import Mathlib.Order.Interval.Finset.Nat

/-!
The draw of a value takes the first word that is not passed over, and every value of the range
stands for the same number of words, as many as there are for each. So the draw favours no value if
the words favour none.

The words of one value are those whose product with the number of values falls into one stretch of
products. The stretch begins behind the products that are passed over, and its length is a multiple
of that number, so the same number of products falls into each.
-/
namespace DiceNotation.Generator

variable {n word : UInt32} {low high value : Value}

/-- The value that a word is taken for, unless it is passed over. -/
def image? (low high : Value) (word : UInt32) : Option Value :=
  if low = Int32.minValue ∧ high = Int32.maxValue then some word.toInt32
  else
    let n := (high - low).toUInt32 + 1
    if counts n word then some (low + (part n word).toInt32) else none

/-- The generator behind its next word. -/
def rest (g : Generator) : Generator := g.next.2

/-- The generator some words further on. -/
def skip (k : Nat) (g : Generator) : Generator := rest^[k] g

theorem skip_zero (g : Generator) : g.skip 0 = g := rfl

theorem skip_succ (k : Nat) (g : Generator) : g.skip (k + 1) = g.next.2.skip k :=
  Function.iterate_succ_apply rest k g

theorem below_takes_first (n : UInt32) (g : Generator) :
    ∃ k, (∀ i < k, counts n (g.skip i).next.1 = false) ∧ counts n (g.skip k).next.1 = true ∧
      below n g = (part n (g.skip k).next.1, g.skip (k + 1)) := by
  fun_induction below n g with
  | case1 g h =>
    refine ⟨0, fun i hi => absurd hi i.not_lt_zero, ?_, ?_⟩
    · rwa [skip_zero]
    · rw [skip_succ, skip_zero, skip_zero]
  | case2 g h ih =>
    obtain ⟨k, hskipped, htaken, hbelow⟩ := ih
    refine ⟨k + 1, ?_, ?_, ?_⟩
    · intro i hi
      cases i with
      | zero => exact Bool.eq_false_iff.mpr (by rwa [skip_zero])
      | succ i =>
        rw [skip_succ]
        exact hskipped i (Nat.lt_of_succ_lt_succ hi)
    · rwa [skip_succ]
    · rw [hbelow, skip_succ (k + 1), skip_succ k g]

theorem image?_of_part (hpart : ¬(low = Int32.minValue ∧ high = Int32.maxValue)) :
    image? low high word =
      if counts ((high - low).toUInt32 + 1) word then
        some (low + (part ((high - low).toUInt32 + 1) word).toInt32)
      else none := if_neg hpart

/-- The first word that is not passed over gives the value, and the generator stops behind it. -/
theorem uniform_takes_first (low high : Value) (g : Generator) :
    ∃ k, (∀ i < k, image? low high (g.skip i).next.1 = none) ∧
      image? low high (g.skip k).next.1 = some (uniform low high g).1 ∧
      (uniform low high g).2 = g.skip (k + 1) := by
  by_cases hall : low = Int32.minValue ∧ high = Int32.maxValue
  · refine ⟨0, fun i hi => absurd hi i.not_lt_zero, ?_, ?_⟩
    · rw [image?, uniform, if_pos hall, if_pos hall, skip_zero]
    · rw [uniform, if_pos hall, skip_succ, skip_zero]
  · obtain ⟨k, hskipped, htaken, hbelow⟩ := below_takes_first ((high - low).toUInt32 + 1) g
    refine ⟨k, ?_, ?_, ?_⟩
    · intro i hi
      rw [image?_of_part hall, hskipped i hi]
      rfl
    · rw [image?_of_part hall, if_pos htaken, uniform_of_part hall, hbelow]
    · rw [uniform, if_neg hall, hbelow]

/-- The multiples of `n` in a stretch of `n * q` numbers are those of `q` numbers in a row. -/
theorem mul_mem_stretch_iff {a n q w : Nat} (hn : 0 < n) :
    a ≤ w * n ∧ w * n < a + n * q ↔
      (a + (n - 1)) / n ≤ w ∧ w < (a + (n - 1)) / n + q := by
  have hlow (b : Nat) : (b + (n - 1)) / n ≤ w ↔ b ≤ w * n := by
    rw [Nat.div_le_iff_le_mul_add_pred hn, Nat.mul_comm n w]
    omega
  have hhigh : (a + (n - 1)) / n + q = (a + n * q + (n - 1)) / n := by
    rw [← Nat.add_mul_div_left _ _ hn, Nat.add_right_comm]
  rw [hhigh, ← Nat.not_le, ← Nat.not_le, hlow, hlow]

/-- What is passed over is what is left when the words are dealt out evenly. -/
theorem counts_iff (hn : n ≠ 0) :
    counts n word = true ↔
      UInt32.size % n.toNat ≤ word.toNat * n.toNat % UInt32.size := by
  have hpos : 0 < n.toNat := Nat.pos_of_ne_zero fun h => hn (UInt32.toNat_inj.mp h)
  have hlt := n.toNat_lt
  have hrest : ((0 - n) % n).toNat = UInt32.size % n.toNat := by
    rw [UInt32.toNat_mod, UInt32.toNat_sub, UInt32.toNat_zero, Nat.add_zero,
      Nat.mod_eq_of_lt (b := 2 ^ 32) (by omega)]
    exact (Nat.mod_eq_sub_mod hlt.le).symm
  rw [counts, decide_eq_true_eq, UInt32.le_iff_toNat_le, hrest, UInt32.toNat_mul]

theorem toNat_part (n word : UInt32) :
    (part n word).toNat = word.toNat * n.toNat / UInt32.size := by
  have hproduct : word.toNat * n.toNat < UInt32.size * UInt32.size :=
    Nat.mul_lt_mul'' word.toNat_lt n.toNat_lt
  rw [part, UInt32.toNat_ofNat', Nat.mod_eq_of_lt (Nat.div_lt_of_lt_mul hproduct)]

/-- The words of one part, by the stretch that their products fall into. -/
theorem counts_and_part_iff (hn : n ≠ 0) (k : Nat) :
    counts n word = true ∧ (part n word).toNat = k ↔
      k * UInt32.size + UInt32.size % n.toNat ≤ word.toNat * n.toNat ∧
        word.toNat * n.toNat <
          k * UInt32.size + UInt32.size % n.toNat + n.toNat * (UInt32.size / n.toNat) := by
  have hsize := Nat.div_add_mod UInt32.size n.toNat
  have hrest : UInt32.size % n.toNat ≤ UInt32.size := Nat.mod_le _ _
  rw [counts_iff hn, toNat_part, Nat.add_assoc, Nat.add_comm (UInt32.size % n.toNat), hsize]
  generalize UInt32.size % n.toNat = t at hrest ⊢
  generalize word.toNat * n.toNat = product
  simp only [UInt32.size] at hrest ⊢
  omega

/-- A stretch lies below `n * size` if it is one of the first `n`. -/
theorem lt_of_mul_lt_stretch {n k size w : Nat} (hk : k < n)
    (h : w * n < k * size + size % n + n * (size / n)) : w < size := by
  have hsize := Nat.div_add_mod size n
  have hnext : (k + 1) * size ≤ size * n := Nat.mul_comm size n ▸ Nat.mul_le_mul_right size hk
  rw [Nat.succ_mul] at hnext
  exact Nat.lt_of_mul_lt_mul_right (by omega : w * n < size * n)

/-- Every part has the same number of words. -/
theorem ncard_part (hn : n ≠ 0) {k : Nat} (hk : k < n.toNat) :
    {word | counts n word = true ∧ (part n word).toNat = k}.ncard = UInt32.size / n.toNat := by
  have hpos : 0 < n.toNat := Nat.zero_lt_of_lt hk
  have hinj : Function.Injective UInt32.toNat := fun _ _ => UInt32.toNat_inj.mp
  -- As numbers the words of a part are an interval, from the first whose product is in the stretch.
  obtain ⟨first, hfirst⟩ : ∃ first, first =
      (k * UInt32.size + UInt32.size % n.toNat + (n.toNat - 1)) / n.toNat := ⟨_, rfl⟩
  have himage : UInt32.toNat '' {word | counts n word = true ∧ (part n word).toNat = k} =
      Set.Ico first (first + UInt32.size / n.toNat) := by
    ext w
    simp only [Set.mem_image, Set.mem_ofPred_eq, Set.mem_Ico, counts_and_part_iff hn,
      mul_mem_stretch_iff hpos, ← hfirst]
    constructor
    · rintro ⟨word, hword, rfl⟩
      exact hword
    · intro hw
      have hstretch := (mul_mem_stretch_iff hpos).mpr (hfirst ▸ hw)
      have hword := UInt32.toNat_ofNat_of_lt' (lt_of_mul_lt_stretch hk hstretch.2)
      exact ⟨UInt32.ofNat w, by rwa [hword], hword⟩
  rw [← Set.ncard_image_of_injective _ hinj, himage, ← Finset.coe_Ico, Set.ncard_coe_finset,
    Nat.card_Ico, Nat.add_sub_cancel_left]

theorem count_ne_zero (h : low.toInt ≤ high.toInt)
    (hpart : ¬(low = Int32.minValue ∧ high = Int32.maxValue)) :
    (high - low).toUInt32 + 1 ≠ 0 := by
  intro hzero
  have hcount := toNat_count h hpart
  rw [hzero, UInt32.toNat_zero] at hcount
  omega

/-- A word is taken for a value if it counts and its part is the place of the value. -/
theorem image?_eq_some_iff (hlow : low.toInt ≤ value.toInt) (hhigh : value.toInt ≤ high.toInt)
    (hpart : ¬(low = Int32.minValue ∧ high = Int32.maxValue)) :
    image? low high word = some value ↔
      counts ((high - low).toUInt32 + 1) word = true ∧
        (part ((high - low).toUInt32 + 1) word).toNat = (value.toInt - low.toInt).toNat := by
  have hrange := hlow.trans hhigh
  have hcount := toNat_count hrange hpart
  have hlt : (part ((high - low).toUInt32 + 1) word).toNat < ((high - low).toUInt32 + 1).toNat :=
    part_lt (count_ne_zero hrange hpart)
  have hbounds := Value.toInt_bounds high
  have hsum : (low + (part ((high - low).toUInt32 + 1) word).toInt32).toInt =
      low.toInt + (part ((high - low).toUInt32 + 1) word).toNat := toInt_add_word (by omega)
  rw [image?_of_part hpart]
  split
  case isTrue hcounts =>
    rw [Option.some.injEq, ← Int32.toInt_inj, hsum, and_iff_right hcounts]
    omega
  case isFalse hcounts => exact iff_of_false nofun fun h => hcounts h.1

/-- Every value of a range is what as many words are taken for as there are for each. -/
theorem ncard_image? (hlow : low.toInt ≤ value.toInt) (hhigh : value.toInt ≤ high.toInt) :
    {word | image? low high word = some value}.ncard =
      UInt32.size / (high.toInt - low.toInt + 1).toNat := by
  by_cases hall : low = Int32.minValue ∧ high = Int32.maxValue
  · have hsingle : {word | image? low high word = some value} = {value.toUInt32} := by
      ext word
      simp only [image?, if_pos hall, Set.mem_ofPred_eq, Set.mem_singleton_iff, Option.some.injEq]
      constructor
      · rintro rfl
        exact (UInt32.toUInt32_toInt32 word).symm
      · rintro rfl
        exact Int32.toInt32_toUInt32 value
    rw [hsingle, Set.ncard_singleton, hall.1, hall.2]
    rfl
  · have hrange := hlow.trans hhigh
    have hcount := toNat_count hrange hall
    have hwidth : ((high - low).toUInt32 + 1).toNat = (high.toInt - low.toInt + 1).toNat := by
      omega
    simp only [image?_eq_some_iff hlow hhigh hall]
    rw [ncard_part (count_ne_zero hrange hall) (by omega), hwidth]

example : {word | image? 1 6 word = some 3}.ncard = 715827882 :=
  ncard_image? (by decide) (by decide)

end DiceNotation.Generator
