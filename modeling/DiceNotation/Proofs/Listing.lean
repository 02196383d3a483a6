import DiceNotation.Evaluation

/-!
The list of dice in a description. It is meant to have one item for each die that is shown and, if
there are others, one item with their number; the separator in front of that last item is written
by itself, and so it is there as well where no die is shown.

The numbers in a description are its only digits and signs. They give back what is shown, the
number of all dice and the total, with or without a die in front of the last item.
-/
namespace DiceNotation

/-- The characters of numbers. -/
def isNumeral (c : Char) : Bool := c.isDigit || c == '-'

/-- The numbers in a text, as they are written. -/
def numerals (cs : List Char) : List (List Char) :=
  (cs.splitOnP fun c => !isNumeral c).filter fun w => !w.isEmpty

def numberOf : List Char → Int
  | '-' :: digits => -(Nat.ofDigitChars 10 digits 0 : Int)
  | digits => Nat.ofDigitChars 10 digits 0

section Numerals

variable {w cs s : List Char} {c : Char}

theorem numerals_separator (hc : isNumeral c = false) : numerals (c :: cs) = numerals cs := by
  unfold numerals
  rw [← List.nil_append (c :: cs), List.splitOnP_append_cons [] cs (by simp [hc])]
  simp

theorem numerals_separators (hs : s.any isNumeral = false) : numerals (s ++ cs) = numerals cs := by
  induction s with
  | nil => rfl
  | cons c s ih =>
    rw [List.any_cons, Bool.or_eq_false_iff] at hs
    rw [List.cons_append, numerals_separator hs.1, ih hs.2]

theorem numerals_single (hw : ∀ c ∈ w, isNumeral c = true) (hne : w ≠ []) : numerals w = [w] := by
  unfold numerals
  rw [List.splitOnP_eq_singleton fun c hc => by simp [hw c hc]]
  simp [hne]

theorem numerals_append (hw : ∀ c ∈ w, isNumeral c = true) (hne : w ≠ [])
    (hc : isNumeral c = false) : numerals (w ++ c :: cs) = w :: numerals cs := by
  have hsingle := numerals_single hw hne
  unfold numerals at hsingle ⊢
  rw [List.splitOnP_append_cons w cs (by simp [hc]), List.filter_append, hsingle]
  rfl

theorem isNumeral_of_mem_toDigits {n : Nat} (hc : c ∈ Nat.toDigits 10 n) : isNumeral c = true := by
  rw [isNumeral, Nat.isDigit_of_mem_toDigits (by decide) (by decide) hc]
  rfl

end Numerals

namespace Value

theorem toList_text (v : Value) :
    v.text.toList = if v.toInt < 0 then '-' :: Nat.toDigits 10 v.toInt.natAbs
      else Nat.toDigits 10 v.toInt.natAbs := by
  unfold text
  split
  · rw [String.toList_append, String.toList_ofList]
    simp
  · rw [String.toList_ofList]

theorem text_ne_nil (v : Value) : v.text.toList ≠ [] := by
  rw [toList_text]
  split
  · exact List.cons_ne_nil _ _
  · exact Nat.toDigits_ne_nil

theorem isNumeral_of_mem_text {v : Value} {c : Char} (hc : c ∈ v.text.toList) :
    isNumeral c = true := by
  rw [toList_text] at hc
  split at hc
  · rcases List.mem_cons.mp hc with rfl | hc
    · decide
    · exact isNumeral_of_mem_toDigits hc
  · exact isNumeral_of_mem_toDigits hc

end Value

theorem numberOf_toDigits (n : Nat) : numberOf (Nat.toDigits 10 n) = n := by
  have hdigit : ∀ c ∈ Nat.toDigits 10 n, c ≠ '-' := by
    rintro c hc rfl
    have hminus := Nat.isDigit_of_mem_toDigits (by decide) (by decide) hc
    revert hminus
    decide
  have hread : (Nat.ofDigitChars 10 (Nat.toDigits 10 n) 0 : Int) = n :=
    congrArg Nat.cast Nat.ofDigitChars_ten_toDigits
  unfold numberOf
  split
  case h_1 digits h => exact absurd rfl (hdigit '-' (h ▸ List.mem_cons_self ..))
  case h_2 => exact hread

theorem numberOf_text (v : Value) : numberOf v.text.toList = v.toInt := by
  rw [Value.toList_text]
  split
  case isTrue hneg =>
    rw [numberOf, Nat.ofDigitChars_ten_toDigits]
    omega
  case isFalse hpos =>
    rw [numberOf_toDigits]
    omega

namespace Evaluation

variable {limit : Option Nat} {e : Evaluation}

/-- The dice that a description lists. -/
def shown (limit : Option Nat) (e : Evaluation) : List Value :=
  e.rolls.toList.take (limit.getD e.rolls.size)

/-- The number of the dice that it does not list. -/
def hidden (limit : Option Nat) (e : Evaluation) : Nat := e.rolls.size - limit.getD e.rolls.size

def items (limit : Option Nat) (e : Evaluation) : List String :=
  (e.shown limit).map Value.text ++
    if e.hidden limit = 0 then [] else [toString (e.hidden limit) ++ " more..."]

/-- A description with separators between the items, and nowhere else. -/
def listing (limit : Option Nat) (e : Evaluation) : String :=
  "[" ++ ", ".intercalate (e.items limit) ++ "] = " ++ e.total.text

/-- The number of the dice that are not listed, as it is written behind those that are. -/
def remainder (limit : Option Nat) (e : Evaluation) : String :=
  if e.hidden limit = 0 then "" else ", " ++ toString (e.hidden limit) ++ " more..."

theorem describe_eq (limit : Option Nat) (e : Evaluation) :
    e.describe limit = "[" ++ join (e.shown limit) ++ e.remainder limit ++ "] = " ++ e.total.text :=
  rfl

theorem shown_add_hidden (limit : Option Nat) (e : Evaluation) :
    (e.shown limit).length + e.hidden limit = e.rolls.size := by
  rw [shown, hidden, List.length_take, Array.length_toList]
  omega

theorem ne_empty_of_mem_items {item : String} (h : item ∈ e.items limit) : item ≠ "" := by
  rintro rfl
  rcases List.mem_append.mp h with hshown | hhidden
  · obtain ⟨v, -, hv⟩ := List.mem_map.mp hshown
    exact v.text_ne_nil (by simp [hv])
  · split at hhidden <;> simp at hhidden

theorem describe_of_shown (h : e.shown limit ≠ []) : e.describe limit = e.listing limit := by
  have hmap : (e.shown limit).map Value.text ≠ [] := by simpa using h
  rw [describe_eq, listing, items, remainder]
  split
  case isTrue => rw [List.append_nil, String.append_empty, join]
  case isFalse =>
    rw [String.intercalate_append_of_ne_nil hmap (by simp), join]
    simp [String.append_assoc]

theorem describe_of_hidden (h : e.hidden limit = 0) : e.describe limit = e.listing limit := by
  rw [describe_eq, listing, items, remainder, if_pos h, if_pos h, List.append_nil,
    String.append_empty, join]

/-- With no die in front the number of the dice has the separator all the same. -/
theorem describe_of_none_shown (h : e.shown limit = []) (hhidden : e.hidden limit ≠ 0) :
    e.describe limit =
      "[, " ++ toString (e.hidden limit) ++ " more...] = " ++ e.total.text := by
  have hopen : "[, " = "[" ++ ", " := rfl
  have hclose : " more...] = " = " more..." ++ "] = " := rfl
  rw [describe_eq, remainder, if_neg hhidden, h, hopen, hclose]
  simp only [join, List.map_nil, String.intercalate_nil, String.append_empty, String.append_assoc]

theorem describe_ne_listing (h : e.shown limit = []) (hhidden : e.hidden limit ≠ 0) :
    e.describe limit ≠ e.listing limit := by
  intro heq
  have hlength := congrArg String.length heq
  rw [describe_of_none_shown h hhidden, listing, items, if_neg hhidden, h, List.map_nil,
    List.nil_append, String.intercalate_singleton] at hlength
  simp only [String.length_append] at hlength
  have hopen : "[, ".length = "[".length + 2 := rfl
  have hclose : " more...] = ".length = " more...".length + "] = ".length := rfl
  omega

theorem shown_eq_nil_iff :
    e.shown limit = [] ∧ e.hidden limit ≠ 0 ↔ limit = some 0 ∧ e.rolls ≠ #[] := by
  have hrolls : e.rolls ≠ #[] ↔ e.rolls.size ≠ 0 := by simp
  rw [shown, hidden, hrolls, ← List.length_eq_zero_iff, List.length_take, Array.length_toList]
  cases limit with
  | none => simp
  | some limit =>
    rw [Option.getD_some, Option.some.injEq]
    omega

/-- The numbers that a description lists, the number of all dice and the total, from its text. -/
def readBack (text : String) : List Int × Nat × Int :=
  let numbers := (numerals text.toList).map numberOf
  let listed := numbers.dropLast
  let total := numbers.getLastD 0
  if 'm' ∈ text.toList then
    (listed.dropLast, listed.dropLast.length + (listed.getLastD 0).toNat, total)
  else (listed, listed.length, total)

theorem join_cons_cons (v v' : Value) (vs : List Value) :
    (join (v :: v' :: vs)).toList = v.text.toList ++ ',' :: ' ' :: (join (v' :: vs)).toList := by
  simp [join, String.toList_append]

theorem numerals_join (vs : List Value) {c : Char} (hc : isNumeral c = false) (cs : List Char) :
    numerals ((join vs).toList ++ c :: cs) =
      vs.map (fun v => v.text.toList) ++ numerals cs := by
  induction vs with
  | nil => exact numerals_separator hc
  | cons v vs ih =>
    have hv : ∀ c ∈ v.text.toList, isNumeral c = true := fun c => Value.isNumeral_of_mem_text
    cases vs with
    | nil =>
      have hjoin : join [v] = v.text := by simp [join]
      rw [hjoin, numerals_append hv v.text_ne_nil hc]
      rfl
    | cons v' vs =>
      rw [join_cons_cons, List.append_assoc, List.cons_append,
        numerals_append hv v.text_ne_nil (by decide), List.cons_append,
        numerals_separator (by decide), ih]
      rfl

theorem m_notMem_text (v : Value) : 'm' ∉ v.text.toList := by
  intro hm
  have hnumeral := Value.isNumeral_of_mem_text hm
  revert hnumeral
  decide

theorem m_notMem_join (vs : List Value) : 'm' ∉ (join vs).toList := by
  induction vs with
  | nil => simp [join]
  | cons v vs ih =>
    cases vs with
    | nil => simpa [join] using m_notMem_text v
    | cons v' vs =>
      rw [join_cons_cons]
      simpa [m_notMem_text v] using ih

theorem toList_describe (limit : Option Nat) (e : Evaluation) :
    (e.describe limit).toList =
      '[' :: ((join (e.shown limit)).toList ++ ((e.remainder limit).toList ++
        (']' :: ' ' :: '=' :: ' ' :: e.total.text.toList))) := by
  rw [describe_eq]
  simp [String.toList_append]

theorem m_mem_describe_iff : 'm' ∈ (e.describe limit).toList ↔ e.hidden limit ≠ 0 := by
  rw [toList_describe, remainder]
  split
  case isTrue h => simp [h, m_notMem_join, m_notMem_text]
  case isFalse h => simp [h, String.toList_append]

theorem toList_remainder (h : e.hidden limit ≠ 0) :
    (e.remainder limit).toList =
      ',' :: ' ' :: (Nat.toDigits 10 (e.hidden limit) ++ ' ' :: "more...".toList) := by
  have hmore : " more..." = " " ++ "more..." := rfl
  rw [remainder, if_neg h, Nat.toString_eq_ofList_toDigits, hmore]
  simp [String.toList_append]

/-- The number of the dice that are not listed, as far as it is written. -/
def counted (limit : Option Nat) (e : Evaluation) : List Int :=
  if e.hidden limit = 0 then [] else [(e.hidden limit : Int)]

theorem numbers_describe (limit : Option Nat) (e : Evaluation) :
    (numerals (e.describe limit).toList).map numberOf =
      (e.shown limit).map Int32.toInt ++ e.counted limit ++ [e.total.toInt] := by
  have htotal : numerals e.total.text.toList = [e.total.text.toList] :=
    numerals_single (fun c => Value.isNumeral_of_mem_text) e.total.text_ne_nil
  have hclose : numerals (' ' :: '=' :: ' ' :: e.total.text.toList) = [e.total.text.toList] :=
    (numerals_separators (s := [' ', '=', ' ']) (by decide)).trans htotal
  have hshown : ((e.shown limit).map fun v => v.text.toList).map numberOf =
      (e.shown limit).map Int32.toInt := by
    rw [List.map_map]
    exact List.map_congr_left fun v _ => numberOf_text v
  rw [toList_describe, numerals_separator (by decide), counted]
  split
  case isTrue h =>
    rw [remainder, if_pos h, String.toList_empty, List.nil_append, numerals_join _ (by decide),
      hclose, List.map_append, hshown, List.append_nil, List.map_singleton, numberOf_text]
  case isFalse h =>
    have hdigits : ∀ c ∈ Nat.toDigits 10 (e.hidden limit), isNumeral c = true :=
      fun c => isNumeral_of_mem_toDigits
    have hmore : numerals ("more...".toList ++ ']' :: ' ' :: '=' :: ' ' :: e.total.text.toList) =
        [e.total.text.toList] := by
      rw [numerals_separators (by decide), numerals_separator (by decide), hclose]
    rw [toList_remainder h, List.cons_append, numerals_join _ (by decide), List.cons_append,
      numerals_separator (by decide), List.append_assoc, List.cons_append,
      numerals_append hdigits Nat.toDigits_ne_nil (by decide), hmore, List.map_append, hshown,
      List.map_cons, numberOf_toDigits, List.map_singleton, numberOf_text, List.append_assoc]
    rfl

theorem readBack_describe (limit : Option Nat) (e : Evaluation) :
    readBack (e.describe limit) =
      ((e.shown limit).map Int32.toInt, e.rolls.size, e.total.toInt) := by
  have hsize := shown_add_hidden limit e
  simp only [readBack, numbers_describe, List.dropLast_concat, List.getLastD_concat,
    m_mem_describe_iff, counted]
  by_cases h : e.hidden limit = 0
  · simp [h]
    omega
  · simp [h, hsize]

/-- A description is the listing unless there are dice and none is to be shown; then it has a
separator in front of the only item. Each item says something, the dice that are shown and the
number of the others are all the dice, and every description can be read back. -/
theorem describe_spec (limit : Option Nat) (e : Evaluation) :
    (e.describe limit = e.listing limit ↔ ¬(limit = some 0 ∧ e.rolls ≠ #[])) ∧
      (limit = some 0 ∧ e.rolls ≠ #[] → e.describe limit =
        "[, " ++ toString e.rolls.size ++ " more...] = " ++ e.total.text) ∧
      (∀ item ∈ e.items limit, item ≠ "") ∧
      (e.shown limit).length + e.hidden limit = e.rolls.size ∧
      readBack (e.describe limit) =
        ((e.shown limit).map Int32.toInt, e.rolls.size, e.total.toInt) := by
  refine ⟨?_, ?_, fun item => ne_empty_of_mem_items, shown_add_hidden limit e,
    readBack_describe limit e⟩
  · rw [← shown_eq_nil_iff]
    constructor
    · rintro heq ⟨hshown, hhidden⟩
      exact describe_ne_listing hshown hhidden heq
    · intro h
      by_cases hshown : e.shown limit = []
      · exact describe_of_hidden (Decidable.byContradiction fun hhidden => h ⟨hshown, hhidden⟩)
      · exact describe_of_shown hshown
  · intro h
    have hsize := shown_add_hidden limit e
    obtain ⟨hshown, hhidden⟩ := shown_eq_nil_iff.mpr h
    rw [hshown, List.length_nil, Nat.zero_add] at hsize
    rw [describe_of_none_shown hshown hhidden, hsize]

/-- Two dice of which none is shown. -/
theorem describe_two_hidden :
    describe (some 0) ⟨8, #[3, 5]⟩ ≠ listing (some 0) ⟨8, #[3, 5]⟩ ∧
      describe (some 0) ⟨8, #[3, 5]⟩ = "[, 2 more...] = 8" ∧
      listing (some 0) ⟨8, #[3, 5]⟩ = "[2 more...] = 8" := by
  decide

end Evaluation

end DiceNotation
