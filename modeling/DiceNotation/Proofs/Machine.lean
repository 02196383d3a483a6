import DiceNotation.Proofs.Acceptance
import Mathlib.Logic.Relation

/-!
Reading as the steps of a machine. The readers are given the levels that are left; the machine has a
cursor into the tokens instead, and one counter of the levels that are open, which is raised and put
back. Calls that wait for the call inside them are frames on a stack, and a frame remembers where
the counter has to be put back to. A refusal puts it back only where a level was opened for the one
call that is refused; chains leave it as it is.

From wherever it is entered the machine ends, with the answer of the reader that is called.
-/
namespace DiceNotation.Machine

open Reader Placed

/-- The calls that reading is entered with. -/
inductive Call where
  | sum
  | product
  | unary
  | dice
  | atom (expected : List Expected)

/-- Operands that operators of one kind join. -/
inductive Chain where
  | sum
  | product

namespace Chain

def whole : Chain → Call
  | sum => .sum
  | product => .product

def operand : Chain → Call
  | sum => .product
  | product => .unary

def operation? : Chain → Token → Option (Expr → Expr → Expr)
  | sum => Token.additive?
  | product => Token.multiplicative?

end Chain

structure State where
  tokens : List Placed
  /-- The number of the next token. -/
  cursor : Nat
  /-- The levels that are open. -/
  depth : Nat

namespace State

def rest (s : State) : List Placed := s.tokens.drop s.cursor

def next (s : State) : Placed := Placed.next s.tokens s.rest

def advance (s : State) : State :=
  if s.cursor < s.tokens.length then { s with cursor := s.cursor + 1 } else s

/-- The error at the next token. -/
def refuse (s : State) (reason : Reason) : ParseError := Refusal.toError s.tokens ⟨reason, s.rest⟩

end State

/-- What a call has still to do when the call inside it is over. -/
inductive Frame where
  /-- To go on behind the first operand of a chain. -/
  | first (chain : Chain) (outer : Nat)
  /-- To join what is read of a chain with one more operand. -/
  | next (chain : Chain) (outer : Nat) (operation : Expr → Expr → Expr) (left : Expr)
  /-- To close a level. -/
  | nested (outer : Nat)
  | negation
  | count
  | sides (count : Expr)
  | group

def Frame.isNested : Frame → Bool
  | nested _ => true
  | _ => false

inductive Control where
  | call (call : Call)
  /-- Behind an operand of a chain. -/
  | chain (chain : Chain) (outer : Nat) (left : Expr)
  | answer (outcome : Except ParseError Expr)

structure Config where
  control : Control
  state : State
  stack : List Frame

/-- Opens a level for a call, with frames above the one that closes the level. -/
def nest (call : Call) (s : State) (above below : List Frame) : Config :=
  if s.depth < maxDepth then
    ⟨.call call, { s with depth := s.depth + 1 }, above ++ .nested s.depth :: below⟩
  else ⟨.answer (.error (s.refuse .tooDeep)), s, below⟩

/-- Goes on with an expression that the call inside a frame has read. -/
def resume (e : Expr) (s : State) (stack : List Frame) : Frame → Config
  | .first chain outer => ⟨.chain chain outer e, s, stack⟩
  | .next chain outer operation left => ⟨.chain chain outer (operation left e), s, stack⟩
  | .nested outer => ⟨.answer (.ok e), { s with depth := outer }, stack⟩
  | .negation => ⟨.answer (.ok (.neg e)), s, stack⟩
  | .count =>
    if s.next.token = .dice then ⟨.call (.atom Expected.sides), s.advance, .sides e :: stack⟩
    else ⟨.answer (.ok e), s, stack⟩
  | .sides count => ⟨.answer (.ok (.dice count e)), s, stack⟩
  | .group =>
    if s.next.token = .rparen then ⟨.answer (.ok e), s.advance, stack⟩
    else ⟨.answer (.error (s.refuse (.unexpected [.operator, .rparen]))), s, stack⟩

/-- Goes through a frame with an error. -/
def unwind (s : State) : Frame → State
  | .nested outer => { s with depth := outer }
  | _ => s

def step : Config → Option Config
  | ⟨.call .sum, s, stack⟩ => some ⟨.call .product, s, .first .sum s.depth :: stack⟩
  | ⟨.call .product, s, stack⟩ => some ⟨.call .unary, s, .first .product s.depth :: stack⟩
  | ⟨.call .unary, s, stack⟩ =>
    if s.next.token = .minus then some (nest .unary s.advance [.negation] stack)
    else some ⟨.call .dice, s, stack⟩
  | ⟨.call .dice, s, stack⟩ =>
    if s.next.token = .dice then some ⟨.answer (.ok (.num 1)), s, .count :: stack⟩
    else some ⟨.call (.atom Expected.expression), s, .count :: stack⟩
  | ⟨.call (.atom expected), s, stack⟩ =>
    match s.next.token with
    | .number value => some ⟨.answer (.ok (.num value)), s.advance, stack⟩
    | .lparen => some (nest .sum s.advance [] (.group :: stack))
    | _ => some ⟨.answer (.error (s.refuse (.unexpected expected))), s, stack⟩
  | ⟨.chain chain outer left, s, stack⟩ =>
    match chain.operation? s.next.token with
    | none => some ⟨.answer (.ok left), { s with depth := outer }, stack⟩
    | some operation =>
      if s.depth < maxDepth then
        some ⟨.call chain.operand, { s with depth := s.depth + 1 }.advance,
          .next chain outer operation left :: stack⟩
      else some ⟨.answer (.error (s.refuse .tooDeep)), s, stack⟩
  | ⟨.answer _, _, []⟩ => none
  | ⟨.answer (.ok e), s, frame :: stack⟩ => some (resume e s stack frame)
  | ⟨.answer (.error error), s, frame :: stack⟩ =>
    some ⟨.answer (.error error), unwind s frame, stack⟩

section Atoms

variable {s : State} {stack : List Frame} {expected : List Expected}

theorem step_atom_number {value : Value} (h : s.next.token = .number value) :
    step ⟨.call (.atom expected), s, stack⟩ =
      some ⟨.answer (.ok (.num value)), s.advance, stack⟩ := by
  rw [step, h]

theorem step_atom_group (h : s.next.token = .lparen) :
    step ⟨.call (.atom expected), s, stack⟩ =
      some (nest .sum s.advance [] (.group :: stack)) := by
  rw [step, h]

theorem step_atom_other (hnumber : ∀ value, s.next.token ≠ .number value)
    (hgroup : s.next.token ≠ .lparen) :
    step ⟨.call (.atom expected), s, stack⟩ =
      some ⟨.answer (.error (s.refuse (.unexpected expected))), s, stack⟩ := by
  rw [step]
  cases htoken : s.next.token with
  | number value => exact absurd htoken (hnumber value)
  | lparen => exact absurd htoken hgroup
  | _ => rfl

end Atoms

/-- Some steps lead from one configuration to the other. -/
def Reaches : Config → Config → Prop := Relation.ReflTransGen fun c c' => step c = some c'

/-- The machine has one run only: whatever is reached is on the way to where it ends. -/
theorem Reaches.to_end {c c' last : Config} (h : Reaches c c') (hlast : Reaches c last)
    (hend : step last = none) : Reaches c' last := by
  have hunique : Relator.RightUnique fun c c' => step c = some c' := by
    intro _ _ _ hb hc
    exact Option.some.inj (hb.symm.trans hc)
  rcases Relation.ReflTransGen.total_of_right_unique hunique h hlast with hon | hback
  · exact hon
  · rcases Relation.ReflTransGen.cases_head hback with heq | ⟨c₁, hstep, -⟩
    · exact heq ▸ .refl
    · rw [hend] at hstep
      cases hstep

section Readers

def Call.read : Call → Nat → List Placed → Reading
  | sum => Reader.sum
  | product => Reader.product
  | unary => Reader.unary
  | dice => Reader.dice
  | atom expected => fun levels => Reader.atom levels expected

/-- The reader of what follows in a chain. -/
def Chain.tail : Chain → Nat → Expr → List Placed → Reading
  | sum => sumTail
  | product => productTail

variable {chain : Chain} {levels inner : Nat} {left : Expr} {operation : Expr → Expr → Expr}
  {ts : List Placed}

theorem Chain.read_whole :
    chain.whole.read levels ts = (chain.operand.read levels ts).andThen (chain.tail levels) := by
  cases chain
  · exact sum_eq_andThen
  · exact product_eq_andThen

theorem Chain.tail_of_first (h : chain.operation? (first ts) = none) :
    chain.tail levels left ts = .ok (left, ts) := by
  cases chain
  · exact sumTail_of_first h
  · exact productTail_of_first h

theorem Chain.tail_zero (h : chain.operation? (first ts) = some operation) :
    chain.tail 0 left ts = .error ⟨.tooDeep, ts⟩ := by
  cases chain
  · exact sumTail_zero h
  · exact productTail_zero h

theorem Chain.tail_succ (h : chain.operation? (first ts) = some operation) :
    chain.tail (inner + 1) left ts = (chain.operand.read inner ts.tail).andThen fun right =>
      chain.tail inner (operation left right) := by
  cases chain
  · exact sumTail_eq_andThen h
  · exact productTail_eq_andThen h

theorem Chain.ne_stop {t : Token} (h : chain.operation? t = some operation) : t ≠ .stop := by
  cases chain
  · exact Token.ne_stop_of_additive? h
  · exact Token.ne_stop_of_multiplicative? h

end Readers

namespace State

variable {s : State} {t : Placed} {ts : List Placed}

theorem token_next (s : State) : s.next.token = first s.rest := next_token s.tokens s.rest

@[simp] theorem advance_depth (s : State) : s.advance.depth = s.depth := by
  unfold advance
  split <;> rfl

theorem advance_of_rest (h : s.rest = t :: ts) : s.advance = { s with cursor := s.cursor + 1 } := by
  have hne : s.rest ≠ [] := by simp [h]
  rw [rest, ne_eq, List.drop_eq_nil_iff, Nat.not_le] at hne
  exact if_pos hne

theorem rest_succ (h : s.rest = t :: ts) (depth : Nat) :
    rest ⟨s.tokens, s.cursor + 1, depth⟩ = ts := by
  have htail := congrArg List.tail h
  rwa [rest, List.tail_drop] at htail

theorem rest_append {us : List Placed} (h : s.rest = us ++ ts) (depth : Nat) :
    rest ⟨s.tokens, s.cursor + us.length, depth⟩ = ts := by
  have hdrop := congrArg (List.drop us.length) h
  rwa [rest, List.drop_drop, List.drop_left] at hdrop

end State

open State

/-- What a reading of the tokens that are left says is answered to the calls on the stack: behind
the tokens that it takes and with `depth` levels open, if it is not refused. -/
def Delivers (c : Config) (s : State) (depth : Nat) (stack : List Frame) : Reading → Prop
  | .ok (e, rest) => ∃ us, s.rest = us ++ rest ∧
      Reaches c ⟨.answer (.ok e), ⟨s.tokens, s.cursor + us.length, depth⟩, stack⟩
  | .error refusal =>
    ∃ s', Reaches c ⟨.answer (.error (refusal.toError s.tokens)), s', stack⟩

namespace Delivers

variable {c c' : Config} {s : State} {depth depth' : Nat} {stack : List Frame} {reading : Reading}
  {e : Expr} {t : Placed} {ts : List Placed}

theorem step (h : Delivers c' s depth stack reading) (hstep : step c = some c') :
    Delivers c s depth stack reading := by
  cases reading with
  | error refusal =>
    obtain ⟨s', hreach⟩ := h
    exact ⟨s', .head hstep hreach⟩
  | ok reading =>
    obtain ⟨us, hrest, hreach⟩ := h
    exact ⟨us, hrest, .head hstep hreach⟩

/-- An answer in place. -/
theorem still (s : State) (e : Expr) (stack : List Frame) :
    Delivers ⟨.answer (.ok e), s, stack⟩ s s.depth stack (.ok (e, s.rest)) :=
  ⟨[], rfl, .refl⟩

theorem refused (s : State) (reason : Reason) (depth : Nat) (stack : List Frame) :
    Delivers ⟨.answer (.error (s.refuse reason)), s, stack⟩ s depth stack
      (.error ⟨reason, s.rest⟩) :=
  ⟨s, .refl⟩

/-- What is answered behind one token is answered in front of it. -/
theorem behind (hrest : s.rest = t :: ts)
    (h : Delivers c ⟨s.tokens, s.cursor + 1, depth'⟩ depth stack reading) :
    Delivers c s depth stack reading := by
  cases reading with
  | error refusal => exact h
  | ok reading =>
    obtain ⟨us, htail, hreach⟩ := h
    rw [rest_succ hrest] at htail
    refine ⟨t :: us, ?_, ?_⟩
    · rw [hrest, htail, List.cons_append]
    · rwa [List.length_cons, ← Nat.add_assoc, Nat.add_right_comm]

/-- An error goes through all frames. -/
theorem reaches_error (error : ParseError) (frames stack : List Frame) (s : State) :
    ∃ s', Reaches ⟨.answer (.error error), s, frames ++ stack⟩
      ⟨.answer (.error error), s', stack⟩ := by
  induction frames generalizing s with
  | nil => exact ⟨s, .refl⟩
  | cons frame frames ih =>
    obtain ⟨s', hreach⟩ := ih (unwind s frame)
    exact ⟨s', .head rfl hreach⟩

/-- One reading is answered to frames, and another to the calls below them. -/
theorem andThen (frames : List Frame) {next : Expr → List Placed → Reading}
    (h : Delivers c s depth' (frames ++ stack) reading)
    (hnext : ∀ e s', s'.tokens = s.tokens → s'.depth = depth' → reading = .ok (e, s'.rest) →
      Delivers ⟨.answer (.ok e), s', frames ++ stack⟩ s' depth stack (next e s'.rest)) :
    Delivers c s depth stack (reading.andThen next) := by
  cases reading with
  | error refusal =>
    obtain ⟨s', hreach⟩ := h
    obtain ⟨s'', hreach'⟩ := reaches_error (refusal.toError s.tokens) frames stack s'
    exact ⟨s'', hreach.trans hreach'⟩
  | ok reading =>
    obtain ⟨e, rest⟩ := reading
    obtain ⟨us, hrest, hreach⟩ := h
    obtain rfl := rest_append hrest depth'
    have hdelivers := hnext e ⟨s.tokens, s.cursor + us.length, depth'⟩ rfl rfl rfl
    revert hdelivers
    simp only [Reading.andThen]
    cases next e (State.rest ⟨s.tokens, s.cursor + us.length, depth'⟩) with
    | error refusal =>
      rintro ⟨s', hreach'⟩
      exact ⟨s', hreach.trans hreach'⟩
    | ok reading =>
      rintro ⟨vs, hvs, hreach'⟩
      refine ⟨us ++ vs, ?_, ?_⟩
      · rw [hrest, hvs, List.append_assoc]
      · rw [List.length_append, ← Nat.add_assoc]
        exact hreach.trans hreach'

end Delivers

/-- Every call is answered as its reader says, where `levels` are left. -/
def DeliversAt (levels : Nat) : Prop :=
  ∀ (call : Call) (s : State) (stack : List Frame), s.depth + levels = maxDepth →
    Delivers ⟨.call call, s, stack⟩ s s.depth stack (call.read levels s.rest)

section Calls

variable {levels inner : Nat} {s : State} {stack : List Frame} {chain : Chain} {outer : Nat}
  {left : Expr}

theorem delivers_chain_end (h : chain.operation? (first s.rest) = none) :
    Delivers ⟨.chain chain outer left, s, stack⟩ s outer stack (chain.tail levels left s.rest) := by
  rw [Chain.tail_of_first h]
  refine (Delivers.still { s with depth := outer } left stack).step ?_
  simp only [step, token_next, h]

/-- A chain goes on as its reader does, if operands are delivered wherever fewer levels are left. -/
theorem delivers_chain (operands : ∀ inner < levels, DeliversAt inner)
    (h : s.depth + levels = maxDepth) :
    Delivers ⟨.chain chain outer left, s, stack⟩ s outer stack (chain.tail levels left s.rest) := by
  -- On the levels that are left, of which each further operand takes one.
  induction levels generalizing s left with
  | zero =>
    cases hfirst : chain.operation? (first s.rest) with
    | none => exact delivers_chain_end hfirst
    | some operation =>
      rw [Chain.tail_zero hfirst]
      refine (Delivers.refused s .tooDeep outer stack).step ?_
      simp only [step, token_next, hfirst, if_neg (show ¬s.depth < maxDepth by omega)]
  | succ inner ih =>
    cases hfirst : chain.operation? (first s.rest) with
    | none => exact delivers_chain_end hfirst
    | some operation =>
      obtain ⟨t, ts, hrest⟩ := exists_cons_of_first (Chain.ne_stop hfirst)
      have hdeep : s.depth + 1 + inner = maxDepth := by omega
      have hoperand := operands inner (Nat.lt_succ_self inner) chain.operand
        ⟨s.tokens, s.cursor + 1, s.depth + 1⟩ (.next chain outer operation left :: stack) hdeep
      rw [rest_succ hrest] at hoperand
      rw [Chain.tail_succ hfirst, hrest, List.tail_cons]
      refine Delivers.step (.behind hrest (hoperand.andThen [_] ?_)) ?_
      · intro right s' _ hdepth _
        refine (ih (fun k hk => operands k (by omega)) ?_).step rfl
        rw [hdepth]
        exact hdeep
      · have hadvance := advance_of_rest (s := { s with depth := s.depth + 1 }) hrest
        simp only [step, token_next, hfirst, if_pos (show s.depth < maxDepth by omega), hadvance]

/-- A chain is delivered if its first operand is. -/
theorem delivers_whole (chain : Chain) (operands : ∀ inner < levels, DeliversAt inner)
    (h : s.depth + levels = maxDepth)
    (hfirst : ∀ stack, Delivers ⟨.call chain.operand, s, stack⟩ s s.depth stack
      (chain.operand.read levels s.rest)) :
    Delivers ⟨.call chain.whole, s, stack⟩ s s.depth stack (chain.whole.read levels s.rest) := by
  have hstep : step ⟨.call chain.whole, s, stack⟩ =
      some ⟨.call chain.operand, s, .first chain s.depth :: stack⟩ := by
    cases chain <;> rfl
  rw [Chain.read_whole]
  refine ((hfirst (.first chain s.depth :: stack)).andThen [_] ?_).step hstep
  intro e s' _ hdepth _
  refine (delivers_chain operands ?_).step rfl
  rwa [hdepth]

/-- A call on a level of its own is delivered through the frames around it, above and below the one
that closes the level. -/
theorem delivers_nest (call : Call) {reading : Reading} (next : Expr → List Placed → Reading)
    (above below : List Frame) (inside : ∀ inner < levels, DeliversAt inner)
    (h : s.depth + levels = maxDepth)
    (hfull : levels = 0 → reading = .error ⟨.tooDeep, s.rest⟩)
    (hread : ∀ inner, levels = inner + 1 → reading = (call.read inner s.rest).andThen next)
    (hnext : ∀ e s', Delivers ⟨.answer (.ok e), s', above ++ .nested s.depth :: (below ++ stack)⟩ s'
      s.depth stack (next e s'.rest)) :
    Delivers (nest call s above (below ++ stack)) s s.depth stack reading := by
  unfold nest
  cases levels with
  | zero =>
    obtain ⟨s', hreach⟩ := Delivers.reaches_error (s.refuse .tooDeep) below stack s
    rw [if_neg (by omega), hfull rfl]
    exact ⟨s', hreach⟩
  | succ inner =>
    have hcall := inside inner (Nat.lt_succ_self inner) call
      ⟨s.tokens, s.cursor, s.depth + 1⟩ (above ++ .nested s.depth :: (below ++ stack))
      (by simp only; omega)
    have hframes : above ++ .nested s.depth :: (below ++ stack) =
        above ++ .nested s.depth :: below ++ stack := by simp
    rw [if_pos (by omega), hread inner rfl]
    rw [hframes] at hcall ⊢
    refine hcall.andThen (above ++ .nested s.depth :: below) ?_
    intro e s' _ _ _
    rw [← hframes]
    exact hnext e s'

theorem delivers_group_end (e : Expr) (s : State) (stack : List Frame) :
    Delivers ⟨.answer (.ok e), s, .group :: stack⟩ s s.depth stack
      (if first s.rest = .rparen then .ok (e, s.rest.tail)
        else .error ⟨.unexpected [.operator, .rparen], s.rest⟩) := by
  by_cases hclosed : first s.rest = .rparen
  · obtain ⟨position, us, hrest⟩ := exists_of_first hclosed (by decide)
    have hbehind := Delivers.still ⟨s.tokens, s.cursor + 1, s.depth⟩ e stack
    rw [rest_succ hrest] at hbehind
    rw [if_pos hclosed, hrest, List.tail_cons]
    refine (hbehind.behind hrest).step ?_
    simp only [step, resume, token_next, if_pos hclosed, advance_of_rest hrest]
  · rw [if_neg hclosed]
    refine (Delivers.refused s _ s.depth stack).step ?_
    simp only [step, resume, token_next, if_neg hclosed]

theorem delivers_atom (inside : ∀ inner < levels, DeliversAt inner)
    (h : s.depth + levels = maxDepth) (expected : List Expected) (stack : List Frame) :
    Delivers ⟨.call (.atom expected), s, stack⟩ s s.depth stack
      (atom levels expected s.rest) := by
  by_cases hgroup : first s.rest = .lparen
  · obtain ⟨position, us, hrest⟩ := exists_of_first hgroup (by decide)
    have hopened := rest_succ hrest s.depth
    rw [hrest]
    refine Delivers.step (.behind hrest (delivers_nest .sum (fun e rest =>
      if first rest = .rparen then .ok (e, rest.tail)
      else .error ⟨.unexpected [.operator, .rparen], rest⟩) [] [.group] inside h ?_ ?_ ?_)) ?_
    · rintro rfl
      rw [hopened, atom]
    · rintro inner rfl
      rw [hopened]
      exact atom_eq_andThen rfl
    · intro e s'
      exact (delivers_group_end e ⟨s'.tokens, s'.cursor, s.depth⟩ stack).step rfl
    · rw [step_atom_group (s.token_next.trans hgroup), advance_of_rest hrest]
      rfl
  · by_cases hnumber : ∃ v, first s.rest = .number v
    · obtain ⟨v, hv⟩ := hnumber
      obtain ⟨position, us, hrest⟩ := exists_of_first hv (by simp)
      have hbehind := Delivers.still ⟨s.tokens, s.cursor + 1, s.depth⟩ (.num v) stack
      rw [rest_succ hrest] at hbehind
      rw [hrest, atom]
      refine (hbehind.behind hrest).step ?_
      rw [step_atom_number (s.token_next.trans hv), advance_of_rest hrest]
    · rw [atom_of_first (fun v hv => hnumber ⟨v, hv⟩) hgroup]
      refine (Delivers.refused s (.unexpected expected) s.depth stack).step ?_
      exact step_atom_other (fun v hv => hnumber ⟨v, s.token_next.symm.trans hv⟩)
        (s.token_next ▸ hgroup)

theorem delivers_sides (s : State) (inside : ∀ inner < levels, DeliversAt inner)
    (h : s.depth + levels = maxDepth) (count : Expr) (stack : List Frame) :
    Delivers ⟨.call (.atom Expected.sides), s, .sides count :: stack⟩ s s.depth stack
      (sides levels count s.rest) := by
  rw [sides_eq_andThen]
  refine (delivers_atom inside h Expected.sides (.sides count :: stack)).andThen [_] ?_
  intro e s' _ hdepth _
  rw [← hdepth]
  exact (Delivers.still s' (.dice count e) stack).step rfl

/-- Behind a count the sides are called if a `d` is there. -/
theorem delivers_count_end (inside : ∀ inner < levels, DeliversAt inner)
    (h : s.depth + levels = maxDepth) (count : Expr) (stack : List Frame) :
    Delivers ⟨.answer (.ok count), s, .count :: stack⟩ s s.depth stack
      (if first s.rest = .dice then sides levels count s.rest.tail else .ok (count, s.rest)) := by
  by_cases hdice : first s.rest = .dice
  · obtain ⟨position, us, hrest⟩ := exists_of_first hdice (by decide)
    have hsides := delivers_sides ⟨s.tokens, s.cursor + 1, s.depth⟩ inside h count stack
    rw [rest_succ hrest] at hsides
    rw [if_pos hdice, hrest, List.tail_cons]
    refine (hsides.behind hrest).step ?_
    simp only [step, resume, token_next, if_pos hdice, advance_of_rest hrest]
  · rw [if_neg hdice]
    refine (Delivers.still s count stack).step ?_
    simp only [step, resume, token_next, if_neg hdice]

theorem delivers_dice (inside : ∀ inner < levels, DeliversAt inner)
    (h : s.depth + levels = maxDepth) (stack : List Frame) :
    Delivers ⟨.call .dice, s, stack⟩ s s.depth stack (dice levels s.rest) := by
  by_cases hdie : first s.rest = .dice
  · obtain ⟨position, us, hrest⟩ := exists_of_first hdie (by decide)
    have hend := delivers_count_end inside h (.num 1) stack
    rw [if_pos hdie, hrest, List.tail_cons] at hend
    rw [hrest, dice]
    refine hend.step ?_
    simp only [step, token_next, if_pos hdie]
  · rw [dice_eq_andThen hdie]
    refine Delivers.step
      ((delivers_atom inside h Expected.expression (.count :: stack)).andThen [_] ?_) ?_
    · intro count s' _ hdepth _
      rw [← hdepth]
      exact delivers_count_end inside (by rwa [hdepth]) count stack
    · simp only [step, token_next, if_neg hdie]

theorem delivers_unary (inside : ∀ inner < levels, DeliversAt inner)
    (h : s.depth + levels = maxDepth) (stack : List Frame) :
    Delivers ⟨.call .unary, s, stack⟩ s s.depth stack (unary levels s.rest) := by
  by_cases hminus : first s.rest = .minus
  · obtain ⟨position, us, hrest⟩ := exists_of_first hminus (by decide)
    have hopened := rest_succ hrest s.depth
    rw [hrest]
    refine Delivers.step (.behind hrest (delivers_nest .unary (fun e rest => .ok (.neg e, rest))
      [.negation] [] inside h ?_ ?_ ?_)) ?_
    · rintro rfl
      rw [hopened, unary]
    · rintro inner rfl
      rw [hopened]
      exact unary_eq_andThen rfl
    · intro e s'
      have hclosed := Delivers.still ⟨s'.tokens, s'.cursor, s.depth⟩ (.neg e) stack
      exact (hclosed.step rfl).step rfl
    · simp only [step, token_next, if_pos hminus, advance_of_rest hrest]
      rfl
  · rw [unary_of_first hminus]
    refine (delivers_dice inside h stack).step ?_
    simp only [step, token_next, if_neg hminus]

end Calls

/-- Wherever the machine is entered, it ends with the answer of the reader that is called. -/
theorem delivers (levels : Nat) : DeliversAt levels := by
  -- On the levels that are left: groups, negations and further operands have fewer.
  induction levels using Nat.strongRecOn with
  | ind levels inside =>
    intro call s stack h
    have hunary := delivers_unary inside h
    have hproduct (stack : List Frame) : Delivers ⟨.call .product, s, stack⟩ s s.depth stack
        (product levels s.rest) := delivers_whole .product inside h hunary
    cases call with
    | sum => exact delivers_whole .sum inside h hproduct
    | product => exact hproduct stack
    | unary => exact hunary stack
    | dice => exact delivers_dice inside h stack
    | atom expected => exact delivers_atom inside h expected stack

end DiceNotation.Machine
