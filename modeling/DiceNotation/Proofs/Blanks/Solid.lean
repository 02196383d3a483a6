import DiceNotation.Proofs.Scanning.Words

/-!
What is left of a text without its blanks: the solid characters in order, with both letters for dice
taken as one, and which of them are digits that touch. Texts that agree in both have the same
condensed form, a list of the solid characters in which each digit behind a digit is marked.
-/
namespace DiceNotation.Text

/-- The characters that are no blanks. -/
def solid (cs : List Char) : List Char := cs.filter fun c => !isBlank c

def lowerDice (c : Char) : Char := if c = 'D' then 'd' else c

/-- Whether the solid character with number `i`, counted from zero, and the next one are digits
with nothing between them. -/
def Touch (cs : List Char) (i : Nat) : Prop :=
  ∃ before c d after, cs = before ++ c :: d :: after ∧ c.isDigit = true ∧ d.isDigit = true ∧
    (solid before).length = i

/-- Whether two texts differ only in their blanks and in the case of the dice, and neither has a
blank between digits that touch in the other. -/
structure Respaced (cs cs' : List Char) : Prop where
  solid : (solid cs').map lowerDice = (solid cs).map lowerDice
  touch : ∀ i, Touch cs' i ↔ Touch cs i

variable {c : Char} {cs cs' : List Char} {i : Nat}

theorem solid_append (cs cs' : List Char) : solid (cs ++ cs') = solid cs ++ solid cs' :=
  List.filter_append cs cs'

theorem solid_blank (h : isBlank c = true) : solid [c] = [] := by simp [solid, h]

theorem solid_cons (h : isBlank c = false) : solid (c :: cs) = c :: solid cs := by simp [solid, h]

theorem solid_of_isDigit {run : List Char} (h : ∀ d ∈ run, d.isDigit = true) : solid run = run := by
  refine List.filter_eq_self.mpr ?_
  intro d hd
  rw [isBlank_of_isDigit (h d hd)]
  rfl

theorem lowerDice_cases (c : Char) : lowerDice c = c ∨ c = 'D' ∧ lowerDice c = 'd' := by
  unfold lowerDice
  split
  case isTrue h => exact .inr ⟨h, rfl⟩
  case isFalse => exact .inl rfl

theorem isDigit_lowerDice (c : Char) : (lowerDice c).isDigit = c.isDigit := by
  rcases lowerDice_cases c with h | ⟨rfl, h⟩
  · rw [h]
  · rfl

theorem lowerDice_of_isDigit (h : c.isDigit = true) : lowerDice c = c := by
  rcases lowerDice_cases c with heq | ⟨rfl, -⟩
  · exact heq
  · cases h

theorem ofChar?_lowerDice (c : Char) : Token.ofChar? (lowerDice c) = Token.ofChar? c := by
  rcases lowerDice_cases c with h | ⟨rfl, h⟩
  · rw [h]
  · rfl

theorem lowerDice_of_ofChar? (h : Token.ofChar? c = none) : lowerDice c = c := by
  rcases lowerDice_cases c with heq | ⟨rfl, -⟩
  · exact heq
  · cases h

/-- Digits that touch are the first two characters or stand behind the first. -/
theorem touch_cons_iff :
    Touch (c :: cs) i ↔
      (i = 0 ∧ c.isDigit = true ∧ ∃ d ∈ cs.head?, d.isDigit = true) ∨
        ∃ j, Touch cs j ∧ i = (solid [c]).length + j := by
  constructor
  · rintro ⟨before, b, d, after, heq, hb, hd, rfl⟩
    cases before with
    | nil =>
      obtain ⟨rfl, rfl⟩ := List.cons.inj heq
      exact .inl ⟨rfl, hb, d, rfl, hd⟩
    | cons a before =>
      obtain ⟨rfl, rfl⟩ := List.cons.inj heq
      refine .inr ⟨_, ⟨before, b, d, after, rfl, hb, hd, rfl⟩, ?_⟩
      rw [← List.singleton_append, solid_append, List.length_append]
  · rintro (⟨rfl, hc, d, hd, hdigit⟩ | ⟨j, ⟨before, b, d, after, rfl, hb, hd, rfl⟩, rfl⟩)
    · obtain ⟨after, rfl⟩ := List.head?_eq_some_iff.mp hd
      exact ⟨[], c, d, after, rfl, hc, hdigit, rfl⟩
    · refine ⟨c :: before, b, d, after, rfl, hb, hd, ?_⟩
      rw [← List.singleton_append, solid_append, List.length_append]

/-- The solid characters, each with whether it is a digit behind a digit that touches it; `joined`
tells whether a digit is in front of them. -/
def condense (joined : Bool) : List Char → List (Char × Bool)
  | [] => []
  | c :: cs =>
    if isBlank c then condense false cs
    else (lowerDice c, joined && c.isDigit) :: condense c.isDigit cs

theorem condense_blank (h : isBlank c = true) (joined : Bool) :
    condense joined (c :: cs) = condense false cs := by
  rw [condense, if_pos h]

theorem condense_solid (h : isBlank c = false) (joined : Bool) :
    condense joined (c :: cs) = (lowerDice c, joined && c.isDigit) :: condense c.isDigit cs := by
  rw [condense, h]
  rfl

theorem map_fst_condense (joined : Bool) (cs : List Char) :
    (condense joined cs).map Prod.fst = (solid cs).map lowerDice := by
  induction cs generalizing joined with
  | nil => rfl
  | cons c cs ih =>
    cases h : isBlank c with
    | true =>
      rw [condense_blank h, ih, ← List.singleton_append, solid_append, solid_blank h,
        List.nil_append]
    | false => rw [condense_solid h, List.map_cons, ih, solid_cons h, List.map_cons]

/-- The first solid character is marked if it is a digit with no blank in front of it. -/
theorem head_condense (joined : Bool) (cs : List Char) :
    (∃ d, (condense joined cs)[0]? = some (d, true)) ↔
      joined = true ∧ ∃ d ∈ cs.head?, d.isDigit = true := by
  induction cs generalizing joined with
  | nil => simp [condense]
  | cons c cs ih =>
    cases h : isBlank c with
    | true =>
      rw [condense_blank h, ih]
      simp [isDigit_of_isBlank h]
    | false =>
      rw [condense_solid h]
      simp

/-- A solid character is marked if it touches the one before. -/
theorem getElem?_condense (joined : Bool) (cs : List Char) (i : Nat) :
    (∃ d, (condense joined cs)[i + 1]? = some (d, true)) ↔ Touch cs i := by
  induction cs generalizing joined i with
  | nil =>
    refine iff_of_false (by simp [condense]) ?_
    rintro ⟨before, c, d, after, heq, -⟩
    simp at heq
  | cons c cs ih =>
    rw [touch_cons_iff]
    cases h : isBlank c with
    | true =>
      rw [condense_blank h, ih]
      simp [solid_blank h, isDigit_of_isBlank h]
    | false =>
      rw [condense_solid h, List.getElem?_cons_succ, solid_cons h]
      cases i with
      | zero =>
        refine (head_condense c.isDigit cs).trans ⟨fun hdigits => .inl ⟨rfl, hdigits⟩, ?_⟩
        rintro (⟨-, hdigits⟩ | ⟨j, -, hj⟩)
        · exact hdigits
        · rw [List.length_cons] at hj
          omega
      | succ i =>
        rw [ih]
        refine ⟨fun htouch => .inr ⟨i, htouch, Nat.add_comm i 1⟩, ?_⟩
        rintro (⟨hzero, -⟩ | ⟨j, htouch, hj⟩)
        · cases hzero
        · obtain rfl : i = j := Nat.succ.inj (hj.trans (Nat.add_comm 1 j))
          exact htouch

/-- Lists of marked characters are told by their characters and by which of these are marked. -/
theorem eq_of_marked {xs ys : List (Char × Bool)} (hchars : ys.map Prod.fst = xs.map Prod.fst)
    (hmarks : ∀ i : Nat, (∃ d, ys[i]? = some (d, true)) ↔ ∃ d, xs[i]? = some (d, true)) :
    ys = xs := by
  apply List.ext_getElem?
  intro i
  have hchar : ys[i]?.map Prod.fst = xs[i]?.map Prod.fst := by
    rw [← List.getElem?_map, ← List.getElem?_map, hchars]
  have hmark := hmarks i
  cases hx : xs[i]? with
  | none =>
    rw [hx] at hchar
    exact Option.map_eq_none_iff.mp hchar
  | some x =>
    rw [hx] at hchar hmark
    obtain ⟨y, hy, hfst⟩ := Option.map_eq_some_iff.mp hchar
    rw [hy] at hmark ⊢
    obtain ⟨c, joined⟩ := x
    obtain ⟨d, joined'⟩ := y
    obtain rfl : d = c := hfst
    cases joined <;> cases joined' <;> simp_all

/-- The condensed form holds what respaced texts have in common. -/
theorem respaced_iff : Respaced cs cs' ↔ condense false cs' = condense false cs := by
  constructor
  · intro h
    have hchars : (condense false cs').map Prod.fst = (condense false cs).map Prod.fst := by
      rw [map_fst_condense, map_fst_condense, h.solid]
    refine eq_of_marked hchars ?_
    intro i
    cases i with
    | zero =>
      rw [head_condense, head_condense]
      exact iff_of_false nofun nofun
    | succ i => rw [getElem?_condense, getElem?_condense, h.touch]
  · intro h
    constructor
    · rw [← map_fst_condense false, ← map_fst_condense false, h]
    · intro i
      rw [← getElem?_condense false, ← getElem?_condense false, h]

instance : Decidable (Respaced cs cs') := decidable_of_iff _ respaced_iff.symm

end DiceNotation.Text
