import DiceNotation.Expr.Parse

/-!
A reader looks at one token at a time, and behind the last token it sees the same as in front of
`Token.stop`. So a reading depends on the tokens that are taken and on the one behind these, and on
nothing else: all other tokens are only handed on with the rest, and places do not count.
-/
namespace DiceNotation

namespace Placed

/-- The token in front of `ts`, which is `Token.stop` where there is none. -/
def first (ts : List Placed) : Token := (ts.head?.map token).getD .stop

@[simp] theorem first_nil : first [] = .stop := rfl

@[simp] theorem first_cons (t : Placed) (ts : List Placed) : first (t :: ts) = t.token := rfl

theorem exists_of_first {token : Token} {ts : List Placed} (h : first ts = token)
    (hstop : token ≠ .stop) : ∃ position rest, ts = ⟨token, position⟩ :: rest := by
  cases ts with
  | nil => exact absurd h.symm hstop
  | cons t rest =>
    subst h
    exact ⟨t.position, rest, rfl⟩

theorem exists_cons_of_first {ts : List Placed} (h : first ts ≠ .stop) :
    ∃ t rest, ts = t :: rest := by
  cases ts with
  | nil => exact absurd rfl h
  | cons t rest => exact ⟨t, rest, rfl⟩

theorem first_append {tail : List Placed} (htail : first tail = .stop) (ts : List Placed) :
    first (ts ++ tail) = first ts := by
  cases ts with
  | nil => exact htail
  | cons t ts => rfl

theorem first_congr {ts us : List Placed} (h : ts.map token = us.map token) :
    first ts = first us := by
  rw [first, first, ← List.head?_map, h, List.head?_map]

end Placed

theorem Token.ne_stop_of_additive? {t : Token} {f : Expr → Expr → Expr}
    (h : t.additive? = some f) : t ≠ .stop := by
  rintro rfl
  cases h

theorem Token.ne_stop_of_multiplicative? {t : Token} {f : Expr → Expr → Expr}
    (h : t.multiplicative? = some f) : t ≠ .stop := by
  rintro rfl
  cases h

namespace Reader

open Placed

section Equations

variable {levels inner position : Nat} {left : Expr} {expected : List Expected} {ts : List Placed}

theorem sumTail_of_first (h : (first ts).additive? = none) :
    sumTail levels left ts = .ok (left, ts) := by
  cases ts with
  | nil => rw [sumTail]
  | cons t rest =>
    rw [first_cons] at h
    simp only [sumTail, h]

theorem productTail_of_first (h : (first ts).multiplicative? = none) :
    productTail levels left ts = .ok (left, ts) := by
  cases ts with
  | nil => rw [productTail]
  | cons t rest =>
    rw [first_cons] at h
    simp only [productTail, h]

theorem unary_minus :
    unary (inner + 1) (⟨.minus, position⟩ :: ts) =
      (unary inner ts).map fun (operand, rest) => (.neg operand, rest) := by
  rw [unary]
  cases unary inner ts <;> rfl

theorem unary_of_first (h : first ts ≠ .minus) : unary levels ts = dice levels ts := by
  rw [unary]
  intro position rest heq
  subst heq
  exact h rfl

theorem dice_of_first (h : first ts ≠ .dice) :
    dice levels ts =
      match atom levels Expected.expression ts with
      | .error refusal => .error refusal
      | .ok (count, rest) =>
        if first rest = .dice then sides levels count rest.tail else .ok (count, rest) := by
  rw [dice]
  · cases atom levels Expected.expression ts with
    | error refusal => rfl
    | ok reading =>
      rcases reading with ⟨count, _ | ⟨⟨token, position⟩, rest⟩⟩
      · rfl
      · cases token <;> rfl
  · intro position rest heq
    subst heq
    exact h rfl

theorem atom_group :
    atom (inner + 1) expected (⟨.lparen, position⟩ :: ts) =
      match sum inner ts with
      | .error refusal => .error refusal
      | .ok (inside, rest) =>
        if first rest = .rparen then .ok (inside, rest.tail)
        else .error ⟨.unexpected [.operator, .rparen], rest⟩ := by
  rw [atom]
  cases sum inner ts with
  | error refusal => rfl
  | ok reading =>
    rcases reading with ⟨inside, _ | ⟨⟨token, position⟩, rest⟩⟩
    · rfl
    · cases token <;> rfl

theorem atom_of_first (hnumber : ∀ v, first ts ≠ .number v) (hgroup : first ts ≠ .lparen) :
    atom levels expected ts = .error ⟨.unexpected expected, ts⟩ := by
  rw [atom]
  · intro v position rest heq
    subst heq
    exact hnumber v rfl
  · intro position rest heq
    subst heq
    exact hgroup rfl

/-- An operator is refused where no level is left for its operand. -/
theorem sumTail_zero {operation : Expr → Expr → Expr}
    (h : (first ts).additive? = some operation) : sumTail 0 left ts = .error ⟨.tooDeep, ts⟩ := by
  cases ts with
  | nil => cases h
  | cons t rest =>
    rw [first_cons] at h
    simp only [sumTail, h]

theorem productTail_zero {operation : Expr → Expr → Expr}
    (h : (first ts).multiplicative? = some operation) :
    productTail 0 left ts = .error ⟨.tooDeep, ts⟩ := by
  cases ts with
  | nil => cases h
  | cons t rest =>
    rw [first_cons] at h
    simp only [productTail, h]

end Equations

namespace Reading

/-- The tokens that a reading leaves. -/
def rest : Reading → List Placed
  | .ok (_, rest) => rest
  | .error refusal => refusal.rest

/-- The same reading with other tokens left. -/
def withRest (rest : List Placed) : Reading → Reading
  | .ok (e, _) => .ok (e, rest)
  | .error refusal => .error { refusal with rest }

/-- Goes on behind what is read. -/
def andThen (reading : Reading) (next : Expr → List Placed → Reading) : Reading :=
  match reading with
  | .error refusal => .error refusal
  | .ok (e, rest) => next e rest

@[simp] theorem rest_withRest (rest : List Placed) (reading : Reading) :
    (reading.withRest rest).rest = rest := by
  cases reading <;> rfl

@[simp] theorem withRest_withRest (rest rest' : List Placed) (reading : Reading) :
    (reading.withRest rest).withRest rest' = reading.withRest rest' := by
  cases reading <;> rfl

end Reading

/-- Whether a reader sees no more of `ts` than the tokens it takes and the one behind these. Where
they are written it does not see. -/
def LocalAt (read : List Placed → Reading) (ts : List Placed) : Prop :=
  ∃ us, ts = us ++ (read ts).rest ∧ ∀ us' rest', us'.map token = us.map token →
    first rest' = first (read ts).rest → read (us' ++ rest') = (read ts).withRest rest'

def Local (read : List Placed → Reading) : Prop := ∀ ts, LocalAt read ts

section Local

variable {read read' : List Placed → Reading} {ts us us' rest rest' : List Placed}

theorem first_append_congr (hus : us'.map token = us.map token) (hrest : first rest' = first rest) :
    first (us' ++ rest') = first (us ++ rest) := by
  cases us with
  | nil =>
    obtain rfl := List.map_eq_nil_iff.mp hus
    exact hrest
  | cons t us =>
    obtain ⟨t', us', rfl, ht, -⟩ := List.map_eq_cons_iff.mp hus
    exact ht

/-- What a reader does may be told apart by the first token. -/
theorem LocalAt.congr (h : ∀ ts', first ts' = first ts → read ts' = read' ts')
    (hlocal : LocalAt read' ts) : LocalAt read ts := by
  obtain ⟨us, heq, hread⟩ := hlocal
  have hsame := h ts rfl
  rw [← hsame] at heq hread
  refine ⟨us, heq, ?_⟩
  intro us' rest' hus hrest
  have hfirst := first_append_congr hus hrest
  rw [← heq] at hfirst
  rw [h _ hfirst, hread us' rest' hus hrest]

/-- Answering without taking a token. -/
theorem local_still (reading : Reading) : Local fun ts => reading.withRest ts := by
  intro ts
  refine ⟨[], (Reading.rest_withRest ts reading).symm, ?_⟩
  intro us' rest' hus hrest
  obtain rfl := List.map_eq_nil_iff.mp hus
  exact (Reading.withRest_withRest ts rest' reading).symm

/-- Taking one token. -/
theorem Local.tail (h : Local read) (hts : first ts ≠ .stop) :
    LocalAt (fun ts => read ts.tail) ts := by
  obtain ⟨t, ts, rfl⟩ := exists_cons_of_first hts
  obtain ⟨us, heq, hread⟩ := h ts
  refine ⟨t :: us, congrArg (t :: ·) heq, ?_⟩
  intro us' rest' hus hrest
  obtain ⟨t', us', rfl, -, hus⟩ := List.map_eq_cons_iff.mp hus
  exact hread us' rest' hus hrest

/-- Taking what one reader takes, and then what another takes. -/
theorem Local.andThen {next : Expr → List Placed → Reading} (h : Local read)
    (hnext : ∀ e, Local (next e)) : Local fun ts => (read ts).andThen next := by
  intro ts
  obtain ⟨us, heq, hread⟩ := h ts
  cases hreading : read ts with
  | error refusal =>
    simp only [LocalAt, hreading] at heq hread ⊢
    refine ⟨us, heq, ?_⟩
    intro us' rest' hus hrest
    rw [hread us' rest' hus hrest]
    rfl
  | ok reading =>
    obtain ⟨e, rest⟩ := reading
    obtain ⟨vs, hrest, hreadNext⟩ := hnext e rest
    simp only [LocalAt, hreading] at heq hread ⊢
    refine ⟨us ++ vs, ?_, ?_⟩
    · rw [List.append_assoc, Reading.andThen, ← hrest]
      exact heq
    · intro us' rest' hus hfirst
      rw [List.map_append] at hus
      obtain ⟨us', vs', rfl, hus, hvs⟩ := List.map_eq_append_iff.mp hus
      have hbehind : first (vs' ++ rest') = first rest := by
        rw [hrest]
        exact first_append_congr hvs hfirst
      rw [List.append_assoc, hread us' _ hus hbehind]
      exact hreadNext vs' rest' hvs hfirst

end Local

section Continuations

variable {levels inner : Nat} {left : Expr} {operation : Expr → Expr → Expr}
  {expected : List Expected} {ts : List Placed}

theorem sum_eq_andThen :
    sum levels ts = (product levels ts).andThen (sumTail levels) := by
  rw [sum]
  cases product levels ts <;> rfl

theorem sumTail_eq_andThen (h : (first ts).additive? = some operation) :
    sumTail (inner + 1) left ts =
      (product inner ts.tail).andThen fun right => sumTail inner (operation left right) := by
  cases ts with
  | nil => cases h
  | cons t rest =>
    rw [first_cons] at h
    simp only [sumTail, h, List.tail_cons]
    cases product inner rest <;> rfl

theorem product_eq_andThen :
    product levels ts = (unary levels ts).andThen (productTail levels) := by
  rw [product]
  cases unary levels ts <;> rfl

theorem productTail_eq_andThen (h : (first ts).multiplicative? = some operation) :
    productTail (inner + 1) left ts =
      (unary inner ts.tail).andThen fun right => productTail inner (operation left right) := by
  cases ts with
  | nil => cases h
  | cons t rest =>
    rw [first_cons] at h
    simp only [productTail, h, List.tail_cons]
    cases unary inner rest <;> rfl

theorem unary_eq_andThen (h : first ts = .minus) :
    unary (inner + 1) ts =
      (unary inner ts.tail).andThen fun operand rest => .ok (.neg operand, rest) := by
  obtain ⟨position, rest, rfl⟩ := exists_of_first h (by decide)
  rw [unary_minus, List.tail_cons]
  cases unary inner rest <;> rfl

theorem dice_eq_andThen (h : first ts ≠ .dice) :
    dice levels ts = (atom levels Expected.expression ts).andThen fun count rest =>
      if first rest = .dice then sides levels count rest.tail else .ok (count, rest) := by
  rw [dice_of_first h]
  cases atom levels Expected.expression ts <;> rfl

theorem sides_eq_andThen :
    sides levels left ts =
      (atom levels Expected.sides ts).andThen fun sides rest => .ok (.dice left sides, rest) := by
  rw [sides]
  cases atom levels Expected.sides ts <;> rfl

theorem atom_eq_andThen (h : first ts = .lparen) :
    atom (inner + 1) expected ts = (sum inner ts.tail).andThen fun inside rest =>
      if first rest = .rparen then .ok (inside, rest.tail)
      else .error ⟨.unexpected [.operator, .rparen], rest⟩ := by
  obtain ⟨position, rest, rfl⟩ := exists_of_first h (by decide)
  rw [atom_group, List.tail_cons]
  cases sum inner rest <;> rfl

/-- Behind a count sides are read if a `d` is there. -/
theorem countEnd_local (h : Local (sides levels left)) :
    Local fun rest =>
      if first rest = .dice then sides levels left rest.tail else .ok (left, rest) := by
  intro ts
  by_cases hdice : first ts = .dice
  · refine .congr ?_ (h.tail (by simp [hdice]))
    exact fun ts' hts' => if_pos (hts'.trans hdice)
  · refine .congr ?_ (local_still (.ok (left, [])) ts)
    exact fun ts' hts' => if_neg (by rwa [hts'])

/-- Behind what a group holds its end is taken. -/
theorem groupEnd_local (inside : Expr) :
    Local fun rest =>
      if first rest = .rparen then .ok (inside, rest.tail)
      else .error ⟨.unexpected [.operator, .rparen], rest⟩ := by
  intro ts
  by_cases hclosed : first ts = .rparen
  · refine .congr ?_ ((local_still (.ok (inside, []))).tail (by simp [hclosed]))
    exact fun ts' hts' => if_pos (hts'.trans hclosed)
  · refine .congr ?_ (local_still (.error ⟨.unexpected [.operator, .rparen], []⟩) ts)
    exact fun ts' hts' => if_neg (by rwa [hts'])

end Continuations

mutual

theorem sum_local (levels : Nat) : Local (sum levels) := by
  intro ts
  exact .congr (fun _ _ => sum_eq_andThen)
    ((product_local levels).andThen (sumTail_local levels) ts)
termination_by 6 * levels + 5

theorem sumTail_local (levels : Nat) (left : Expr) : Local (sumTail levels left) := by
  intro ts
  cases hfirst : (first ts).additive? with
  | none =>
    refine .congr ?_ (local_still (.ok (left, [])) ts)
    exact fun ts' hts' => sumTail_of_first (by rw [hts', hfirst])
  | some operation =>
    cases levels with
    | zero =>
      refine .congr ?_ (local_still (.error ⟨.tooDeep, []⟩) ts)
      exact fun ts' hts' => sumTail_zero (by rw [hts', hfirst])
    | succ inner =>
      have hstop := Token.ne_stop_of_additive? hfirst
      refine .congr ?_ (((product_local inner).andThen fun right =>
        sumTail_local inner (operation left right)).tail hstop)
      exact fun ts' hts' => sumTail_eq_andThen (by rw [hts', hfirst])
termination_by 6 * levels

theorem product_local (levels : Nat) : Local (product levels) := by
  intro ts
  exact .congr (fun _ _ => product_eq_andThen)
    ((unary_local levels).andThen (productTail_local levels) ts)
termination_by 6 * levels + 4

theorem productTail_local (levels : Nat) (left : Expr) : Local (productTail levels left) := by
  intro ts
  cases hfirst : (first ts).multiplicative? with
  | none =>
    refine .congr ?_ (local_still (.ok (left, [])) ts)
    exact fun ts' hts' => productTail_of_first (by rw [hts', hfirst])
  | some operation =>
    cases levels with
    | zero =>
      refine .congr ?_ (local_still (.error ⟨.tooDeep, []⟩) ts)
      exact fun ts' hts' => productTail_zero (by rw [hts', hfirst])
    | succ inner =>
      have hstop := Token.ne_stop_of_multiplicative? hfirst
      refine .congr ?_ (((unary_local inner).andThen fun right =>
        productTail_local inner (operation left right)).tail hstop)
      exact fun ts' hts' => productTail_eq_andThen (by rw [hts', hfirst])
termination_by 6 * levels

theorem unary_local (levels : Nat) : Local (unary levels) := by
  intro ts
  by_cases hminus : first ts = .minus
  · have hstop : first ts ≠ .stop := by simp [hminus]
    cases levels with
    | zero =>
      refine .congr ?_ ((local_still (.error ⟨.tooDeep, []⟩)).tail hstop)
      intro ts' hts'
      obtain ⟨position, rest, rfl⟩ := exists_of_first (hts'.trans hminus) (by decide)
      rw [unary]
      rfl
    | succ inner =>
      refine .congr ?_ (((unary_local inner).andThen fun operand =>
        local_still (.ok (.neg operand, []))).tail hstop)
      exact fun ts' hts' => unary_eq_andThen (hts'.trans hminus)
  · refine .congr ?_ (dice_local levels ts)
    exact fun ts' hts' => unary_of_first (by rwa [hts'])
termination_by 6 * levels + 3

theorem dice_local (levels : Nat) : Local (dice levels) := by
  intro ts
  by_cases hdie : first ts = .dice
  · have hstop : first ts ≠ .stop := by simp [hdie]
    refine .congr ?_ ((sides_local levels (.num 1)).tail hstop)
    intro ts' hts'
    obtain ⟨position, rest, rfl⟩ := exists_of_first (hts'.trans hdie) (by decide)
    rw [dice]
    rfl
  · have hcount := (atom_local levels Expected.expression).andThen fun count =>
      countEnd_local (sides_local levels count)
    refine .congr ?_ (hcount ts)
    exact fun ts' hts' => dice_eq_andThen (by rwa [hts'])
termination_by 6 * levels + 2

theorem sides_local (levels : Nat) (count : Expr) : Local (sides levels count) := by
  intro ts
  exact .congr (fun _ _ => sides_eq_andThen)
    ((atom_local levels Expected.sides).andThen
      (fun sides => local_still (.ok (.dice count sides, []))) ts)
termination_by 6 * levels + 1

theorem atom_local (levels : Nat) (expected : List Expected) : Local (atom levels expected) := by
  intro ts
  by_cases hgroup : first ts = .lparen
  · have hstop : first ts ≠ .stop := by simp [hgroup]
    cases levels with
    | zero =>
      refine .congr ?_ ((local_still (.error ⟨.tooDeep, []⟩)).tail hstop)
      intro ts' hts'
      obtain ⟨position, rest, rfl⟩ := exists_of_first (hts'.trans hgroup) (by decide)
      rw [atom]
      rfl
    | succ inner =>
      refine .congr ?_ (((sum_local inner).andThen groupEnd_local).tail hstop)
      exact fun ts' hts' => atom_eq_andThen (hts'.trans hgroup)
  · by_cases hnumber : ∃ v, first ts = .number v
    · obtain ⟨v, hv⟩ := hnumber
      refine .congr ?_ ((local_still (.ok (.num v, []))).tail (by simp [hv]))
      intro ts' hts'
      obtain ⟨position, rest, rfl⟩ := exists_of_first (hts'.trans hv) (by simp)
      rw [atom]
      rfl
    · refine .congr ?_ (local_still (.error ⟨.unexpected expected, []⟩) ts)
      intro ts' hts'
      refine atom_of_first ?_ (by rwa [hts'])
      exact fun v hv => hnumber ⟨v, hts'.symm.trans hv⟩
termination_by 6 * levels

end

/-- What stands behind an end of the tokens never changes a reading. -/
theorem sum_append {tail : List Placed} (htail : first tail = .stop) (levels : Nat)
    (ts : List Placed) :
    sum levels (ts ++ tail) = (sum levels ts).withRest ((sum levels ts).rest ++ tail) := by
  obtain ⟨us, heq, hread⟩ := sum_local levels ts
  have hsum := hread us ((sum levels ts).rest ++ tail) rfl (first_append htail _)
  rwa [← List.append_assoc, ← heq] at hsum

end Reader

end DiceNotation
