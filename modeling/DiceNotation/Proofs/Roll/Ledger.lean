import DiceNotation.Proofs.Roll.Audit

/-!
What a roll asks of its source, written down by a ledger in its place: each range with the value
that was given for it. Read along the tree, operands first, the entries are the dice of the terms.
If the source is in range, each shows one of as many sides as the sides of its term come to, also
in a term that breaks off.
-/
namespace DiceNotation

/-- A range that a source was asked for, and its answer. -/
structure Entry where
  low : Value
  high : Value
  answer : Option Value

namespace Entry

def values (entries : List Entry) : List Value := entries.filterMap answer

/-- A die with so many sides that shows one of them. -/
def IsDie (sides : Value) (entry : Entry) : Prop :=
  entry.low = 1 ∧ entry.high = sides ∧
    ∃ value, entry.answer = some value ∧ 1 ≤ value.toInt ∧ value.toInt ≤ sides.toInt

/-- The dice of a term: as many as it counts if they have a sum, and no more of them if the term
breaks off. -/
structure OfTerm (count sides : Value) (drawn : List Entry) (sum? : Option Value) : Prop where
  isDie : ∀ entry ∈ drawn, entry.IsDie sides
  length_le : drawn.length ≤ count.toInt.toNat
  complete : ∀ sum, sum? = some sum →
    1 ≤ sides.toInt ∧ drawn.length = count.toInt ∧ sum.toInt = Value.exactSum (values drawn)

end Entry

/-- A source together with all that was asked of it, in order. -/
structure Ledger (σ : Type) where
  source : σ
  entries : List Entry

instance {σ : Type} [Source σ] : Source (Ledger σ) where
  draw low high ledger :=
    let drawing := Source.draw low high ledger.source
    (drawing.1, ⟨drawing.2, ledger.entries ++ [⟨low, high, drawing.1⟩]⟩)

/-- The entry of a request for a die. -/
def Request.entry (request : Request) : Entry := ⟨1, request.sides, request.answer⟩

/-- A ledger answers as its source does, and keeps the requests. -/
theorem Answers.booked {σ : Type} [Source σ] {s s' : σ} {requests : List Request}
    (h : Answers s requests s') (entries : List Entry) :
    Answers (Ledger.mk s entries) requests ⟨s', entries ++ requests.map Request.entry⟩ := by
  induction h generalizing entries with
  | nil s =>
    rw [List.map_nil, List.append_nil]
    exact .nil _
  | @cons s s' s'' sides answer requests first rest ih =>
    have hdraw : Source.draw 1 sides (Ledger.mk s entries) =
        (answer, ⟨s', entries ++ [⟨1, sides, answer⟩]⟩) := by
      simp only [Source.draw, first]
    rw [List.map_cons, List.append_cons]
    exact .cons hdraw (ih _)

theorem Entry.values_map (requests : List Request) :
    values (requests.map Request.entry) = Request.values requests :=
  List.filterMap_map

open Entry

/-- Reads the entries as the dice of an expression that is rolled, up to its value or to where it
has none. A dice term has its own dice behind those of its count and its sides. -/
inductive Expr.Books : Expr → List Entry → Option Value → Prop
  | num (value : Value) : Books (num value) [] (some value)
  | dice {count sides a b c s drawn sum?} (hcount : Books count a (some c))
      (hsides : Books sides b (some s)) (own : OfTerm c s drawn sum?) :
      Books (dice count sides) (a ++ (b ++ drawn)) sum?
  | count {count sides a} (h : Books count a none) : Books (dice count sides) a none
  | sides {count sides a b c} (hcount : Books count a (some c)) (h : Books sides b none) :
      Books (dice count sides) (a ++ b) none
  | neg {operand a x} (h : Books operand a (some x)) : Books (neg operand) a x.neg?
  | operand {operand a} (h : Books operand a none) : Books (neg operand) a none
  | join {e left right f a b x y} (h : Joins e left right f) (hleft : Books left a (some x))
      (hright : Books right b (some y)) : Books e (a ++ b) (f x y)
  | left {e left right f a} (h : Joins e left right f) (hleft : Books left a none) : Books e a none
  | right {e left right f a b x} (h : Joins e left right f) (hleft : Books left a (some x))
      (hright : Books right b none) : Books e (a ++ b) none

namespace Rolling

variable {σ : Type} [Source σ]

/-- What a ledger has of an action: entries that `Reads` takes for those of the value that comes of
it, if one does. -/
structure Booked (m : Rolling (Ledger σ) Value) (Reads : List Entry → Option Value → Prop)
    (run : Run (Ledger σ)) (entries : List Entry) : Prop where
  source : Source.InRange (m.after run).source.source
  ledger : (m.after run).source.entries = run.source.entries ++ entries
  reads : Reads entries (m.outcome run).toOption

/-- Whether a ledger over a source in range always has this of an action. -/
def Bookable (m : Rolling (Ledger σ) Value) (Reads : List Entry → Option Value → Prop) : Prop :=
  ∀ run, Source.InRange run.source.source → ∃ entries, Booked m Reads run entries

variable {m : Rolling (Ledger σ) Value} {f : Value → Rolling (Ledger σ) Value}
  {Reads Reads' : List Entry → Option Value → Prop}

theorem Booked.congr {m' : Rolling (Ledger σ) Value} {run : Run (Ledger σ)} {entries : List Entry}
    (h' : Booked m' Reads run entries) (h : m run = m' run) : Booked m Reads run entries := by
  refine ⟨?_, ?_, ?_⟩
  · rw [after_congr h]
    exact h'.source
  · rw [after_congr h, h'.ledger]
  · rw [outcome_congr h]
    exact h'.reads

theorem Bookable.imp (h : Bookable m Reads)
    (himp : ∀ entries value?, Reads entries value? → Reads' entries value?) :
    Bookable m Reads' := by
  intro run hsource
  obtain ⟨entries, hbooked⟩ := h run hsource
  exact ⟨entries, hbooked.source, hbooked.ledger, himp _ _ hbooked.reads⟩

theorem Bookable.bind (first : Bookable m Reads)
    (hhalt : ∀ entries, Reads entries none → Reads' entries none)
    (next : ∀ entries value, Reads entries (some value) →
      Bookable (f value) fun entries' value? => Reads' (entries ++ entries') value?) :
    Bookable (m >>= f) Reads' := by
  intro run hsource
  obtain ⟨entries, hbooked⟩ := first run hsource
  have hreads := hbooked.reads
  cases hm : m.outcome run with
  | error halt =>
    rw [hm] at hreads
    refine ⟨entries, ?_, ?_, ?_⟩
    · rw [after_bind_of_error hm]
      exact hbooked.source
    · rw [after_bind_of_error hm, hbooked.ledger]
    · rw [outcome_bind_of_error hm]
      exact hhalt entries hreads
  | ok value =>
    rw [hm] at hreads
    obtain ⟨entries', hnext⟩ := next entries value hreads (m.after run) hbooked.source
    refine ⟨entries ++ entries', ?_, ?_, ?_⟩
    · rw [after_bind_of_ok hm]
      exact hnext.source
    · rw [after_bind_of_ok hm, hnext.ledger, hbooked.ledger, List.append_assoc]
    · rw [outcome_bind_of_ok hm]
      exact hnext.reads

theorem bookable_pure (value : Value) (h : Reads [] (some value)) :
    Bookable (pure value : Rolling (Ledger σ) Value) Reads := by
  intro run hsource
  exact ⟨[], hsource, (List.append_nil _).symm, h⟩

theorem bookable_fault (error : EvalError) (h : Reads [] none) :
    Bookable (throw (.fault error) : Rolling (Ledger σ) Value) Reads := by
  intro run hsource
  exact ⟨[], hsource, (List.append_nil _).symm, h⟩

/-- A die is one entry. -/
theorem bookable_die {sides : Value} (hsides : 1 ≤ sides.toInt) :
    Bookable (die sides : Rolling (Ledger σ) Value) fun drawn value? =>
      ∃ entry : Entry, drawn = [entry] ∧ entry.IsDie sides ∧ entry.answer = value? := by
  intro run hsource
  obtain ⟨value, hdraw, hone, hle, hnext⟩ := hsource.draw (show (1 : Value).toInt ≤ _ from hsides)
  have hledger : Source.draw 1 sides run.source =
      (some value, ⟨(Source.draw 1 sides run.source.source).2,
        run.source.entries ++ [⟨1, sides, some value⟩]⟩) := by
    rw [← hdraw]
    rfl
  have houtcome := outcome_die sides run
  have hafter := after_die sides run
  rw [hledger] at houtcome hafter
  refine ⟨[⟨1, sides, some value⟩], ?_, ?_, ?_⟩
  · rw [hafter]
    exact hnext
  · rw [hafter]
  · rw [houtcome]
    exact ⟨_, rfl, ⟨rfl, rfl, value, rfl, hone, hle⟩, rfl⟩

theorem bookable_dice {sides : Value} (hsides : 1 ≤ sides.toInt) (count : Nat) (sum : Value) :
    Bookable (dice sides count sum : Rolling (Ledger σ) Value) fun drawn total? =>
      (∀ entry ∈ drawn, entry.IsDie sides) ∧ drawn.length ≤ count ∧
        ∀ total, total? = some total →
          drawn.length = count ∧ total.toInt = sum.toInt + Value.exactSum (values drawn) := by
  -- On the dice that are left, where `sum` is what those before them came to.
  induction count generalizing sum with
  | zero =>
    refine bookable_pure sum ⟨nofun, Nat.le_refl 0, ?_⟩
    rintro total ⟨⟩
    exact ⟨rfl, (Int.add_zero _).symm⟩
  | succ count ih =>
    refine (bookable_die hsides).bind ?_ ?_
    · rintro entries ⟨entry, -, ⟨-, -, value, hvalue, -⟩, hnone⟩
      cases hvalue.symm.trans hnone
    · rintro entries value ⟨entry, rfl, hdie, hvalue⟩
      have hvalues (drawn : List Entry) : values (entry :: drawn) = value :: values drawn :=
        List.filterMap_cons_some hvalue
      cases hadd : sum.add? value with
      | none =>
        refine bookable_fault .overflow ⟨?_, ?_, nofun⟩
        · simpa only [List.append_nil, List.mem_singleton, forall_eq] using hdie
        · exact Nat.le_add_left 1 count
      | some next =>
        have hnext := Value.ofInt?_eq_some_iff.mp hadd
        refine (ih next).imp ?_
        rintro drawn total? ⟨hdrawn, hlength, hcomplete⟩
        refine ⟨?_, Nat.succ_le_succ hlength, ?_⟩
        · exact List.forall_mem_cons.mpr ⟨hdie, hdrawn⟩
        · intro total htotal
          obtain ⟨hall, hsum⟩ := hcomplete total htotal
          refine ⟨congrArg (· + 1) hall, ?_⟩
          rw [hsum, hnext, List.singleton_append, hvalues, Value.exactSum_cons, Int.add_assoc]

theorem bookable_note (count sides : Value) (before : Nat) (sum : Value) (h : Reads [] (some sum)) :
    Bookable (note count sides before sum : Rolling (Ledger σ) Value) Reads := by
  intro run hsource
  exact ⟨[], hsource, (List.append_nil _).symm, h⟩

theorem bookable_term (ceiling : Option UInt32) (count sides : Value) :
    Bookable (term ceiling count sides : Rolling (Ledger σ) Value) (OfTerm count sides) := by
  intro run hsource
  cases hrefusal : refusal? ceiling run.rolls.size count sides with
  | some error =>
    have hbroken : OfTerm count sides [] none := ⟨nofun, Nat.zero_le _, nofun⟩
    obtain ⟨entries, hbooked⟩ := bookable_fault error hbroken run hsource
    exact ⟨entries, hbooked.congr (term_refused hrefusal)⟩
  | none =>
    obtain ⟨hsides, hcount, -⟩ := refusal?_eq_none_iff.mp hrefusal
    have hbookable : Bookable
        (dice sides count.toInt.toNat 0 >>= note count sides run.rolls.size :
          Rolling (Ledger σ) Value) (OfTerm count sides) := by
      refine (bookable_dice hsides count.toInt.toNat 0).bind ?_ ?_
      · rintro drawn ⟨hdie, hlength, -⟩
        exact ⟨hdie, hlength, nofun⟩
      · rintro drawn sum ⟨hdie, hlength, hcomplete⟩
        apply bookable_note
        rw [List.append_nil]
        refine ⟨hdie, hlength, ?_⟩
        rintro total ⟨⟩
        obtain ⟨hall, hsum⟩ := hcomplete sum rfl
        refine ⟨hsides, by omega, ?_⟩
        rw [hsum, show (0 : Value).toInt = 0 from rfl, Int.zero_add]
    obtain ⟨entries, hbooked⟩ := hbookable run hsource
    exact ⟨entries, hbooked.congr (term_accepted hrefusal)⟩

theorem bookable_join {e left right : Expr} {f : Value → Value → Option Value}
    {ceiling : Option UInt32} (h : e.Joins left right f)
    (hleft : Bookable (left.roll ceiling : Rolling (Ledger σ) Value) left.Books)
    (hright : Bookable (right.roll ceiling : Rolling (Ledger σ) Value) right.Books) :
    Bookable (e.roll ceiling : Rolling (Ledger σ) Value) e.Books := by
  obtain ⟨last, hroll, hlast⟩ := exists_roll_eq (σ := Ledger σ) h ceiling
  rw [hroll]
  refine hleft.bind (fun _ => .left h) ?_
  intro a x ha
  refine hright.bind (fun _ => .right h ha) ?_
  intro b y hb
  have hjoin : e.Books (a ++ (b ++ [])) (f x y) := by
    rw [List.append_nil]
    exact .join h ha hb
  rcases hlast x y with ⟨z, hz, heq⟩ | ⟨hnone, error, heq⟩
  · rw [heq]
    exact bookable_pure z (hz ▸ hjoin)
  · rw [heq]
    exact bookable_fault error (hnone ▸ hjoin)

/-- A ledger over a source in range has the dice of the terms that are rolled. -/
theorem bookable_roll (ceiling : Option UInt32) (e : Expr) :
    Bookable (e.roll ceiling : Rolling (Ledger σ) Value) e.Books := by
  induction e with
  | num value => exact bookable_pure value (.num value)
  | dice count sides ihcount ihsides =>
    refine ihcount.bind (fun _ => .count) ?_
    intro a c ha
    refine ihsides.bind (fun _ => .sides ha) ?_
    intro b s hb
    exact (bookable_term ceiling c s).imp fun _ _ => .dice ha hb
  | neg operand ih =>
    refine ih.bind (fun _ => .operand) ?_
    intro a x ha
    have hneg : (Expr.neg operand).Books (a ++ []) x.neg? := by
      rw [List.append_nil]
      exact .neg ha
    cases hvalue : x.neg? with
    | some y => exact bookable_pure y (hvalue ▸ hneg)
    | none => exact bookable_fault .overflow (hvalue ▸ hneg)
  | add left right ihleft ihright => exact bookable_join (.add left right) ihleft ihright
  | sub left right ihleft ihright => exact bookable_join (.sub left right) ihleft ihright
  | mul left right ihleft ihright => exact bookable_join (.mul left right) ihleft ihright
  | div left right ihleft ihright => exact bookable_join (.div left right) ihleft ihright

end Rolling

end DiceNotation
