import DiceNotation.Proofs.Machine
import DiceNotation.Proofs.Reader.Soundness
import Mathlib.Order.Nat

/-!
What a run of the machine keeps, from whichever call it is entered with.

The counter never passes the bound, and the frames that put it back say where to: further down the
stack it is never higher, and lower below every frame that closes a level. So the levels that are
still to be closed are no more than the counter has room for. The other frames stand in a fixed
order between two of these, at most four of them, and so the stack is bounded whatever the tokens
are.
-/
namespace DiceNotation.Machine

open Reader Placed

/-- Chains stand on the stack in this order, between two levels. -/
def Chain.rank : Chain → Nat
  | sum => 0
  | product => 1

/-- Calls wait for others of a higher rank only, unless a level is opened. -/
def Call.rank : Call → Nat
  | sum => 0
  | product => 1
  | unary => 2
  | dice => 2
  | atom _ => 3

theorem Chain.rank_operand (chain : Chain) : chain.operand.rank = chain.rank + 1 := by
  cases chain <;> rfl

theorem Chain.rank_le (chain : Chain) : chain.rank ≤ 1 := by
  cases chain <;> decide

theorem Call.rank_le (call : Call) : call.rank ≤ 3 := by
  cases call <;> simp [rank]

/-- Stacks of a machine that was entered at `base` and has `depth` levels open. Down to the first
frame that closes a level, the ranks of the calls that wait fall from below `rank`, with a negation
in the place of a chain of factors. -/
inductive Waiting (base : Nat) : Nat → Nat → List Frame → Prop
  | entry {rank depth} (h : base ≤ depth) : Waiting base rank depth []
  | first {rank depth outer stack chain} (below : Waiting base chain.rank outer stack)
      (h : outer ≤ depth) (hrank : chain.rank < rank) :
      Waiting base rank depth (.first chain outer :: stack)
  | next {rank depth outer stack chain operation left} (below : Waiting base chain.rank outer stack)
      (h : outer ≤ depth) (hrank : chain.rank < rank) :
      Waiting base rank depth (.next chain outer operation left :: stack)
  | nested {rank depth outer stack} (below : Waiting base 4 outer stack) (h : outer < depth) :
      Waiting base rank depth (.nested outer :: stack)
  | negation {rank depth stack} (below : Waiting base 1 depth stack) (hrank : 1 < rank) :
      Waiting base rank depth (.negation :: stack)
  | count {rank depth stack} (below : Waiting base 2 depth stack) (hrank : 2 < rank) :
      Waiting base rank depth (.count :: stack)
  | sides {rank depth stack count} (below : Waiting base 2 depth stack) (hrank : 2 < rank) :
      Waiting base rank depth (.sides count :: stack)
  | group {rank depth stack} (below : Waiting base 3 depth stack) (hrank : 3 < rank) :
      Waiting base rank depth (.group :: stack)

namespace Waiting

variable {base rank rank' depth depth' : Nat} {stack : List Frame}

theorem raise (h : Waiting base rank depth stack) (hdepth : depth ≤ depth') :
    Waiting base rank depth' stack := by
  -- Frames that put the counter back do not ask how high it is; the others go on to those below.
  induction h with
  | entry h => exact .entry (h.trans hdepth)
  | first below h hrank _ => exact .first below (h.trans hdepth) hrank
  | next below h hrank _ => exact .next below (h.trans hdepth) hrank
  | nested below h _ => exact .nested below (h.trans_le hdepth)
  | negation _ hrank ih => exact .negation (ih hdepth) hrank
  | count _ hrank ih => exact .count (ih hdepth) hrank
  | sides _ hrank ih => exact .sides (ih hdepth) hrank
  | group _ hrank ih => exact .group (ih hdepth) hrank

theorem widen (h : Waiting base rank depth stack) (hrank : rank ≤ rank') :
    Waiting base rank' depth stack := by
  cases h with
  | entry h => exact .entry h
  | first below h hlt => exact .first below h (hlt.trans_le hrank)
  | next below h hlt => exact .next below h (hlt.trans_le hrank)
  | nested below h => exact .nested below h
  | negation below hlt => exact .negation below (hlt.trans_le hrank)
  | count below hlt => exact .count below (hlt.trans_le hrank)
  | sides below hlt => exact .sides below (hlt.trans_le hrank)
  | group below hlt => exact .group below (hlt.trans_le hrank)

/-- Every level that is still to be closed was opened behind the entry. -/
theorem levels_le (h : Waiting base rank depth stack) :
    base + stack.countP Frame.isNested ≤ depth := by
  induction h with
  | entry h => exact h
  | first _ h _ ih => exact ih.trans h
  | next _ h _ ih => exact ih.trans h
  | nested _ h ih =>
    rw [List.countP_cons_of_pos rfl]
    omega
  | negation _ _ ih => exact ih
  | count _ _ ih => exact ih
  | sides _ _ ih => exact ih
  | group _ _ ih => exact ih

theorem length_le (h : Waiting base rank depth stack) :
    stack.length ≤ 5 * stack.countP Frame.isNested + rank := by
  induction h with
  | entry _ => exact Nat.zero_le _
  | nested _ _ ih =>
    rw [List.countP_cons_of_pos rfl, List.length_cons]
    omega
  | first _ _ hrank ih | next _ _ hrank ih =>
    rw [List.countP_cons_of_neg (by simp [Frame.isNested]), List.length_cons]
    omega
  | negation _ hrank ih | count _ hrank ih | sides _ hrank ih | group _ hrank ih =>
    rw [List.countP_cons_of_neg (by simp [Frame.isNested]), List.length_cons]
    omega

end Waiting

/-- The condition on all configurations of a run that was entered at `base`. -/
def Config.Kept (base : Nat) : Config → Prop
  | ⟨.call call, s, stack⟩ => s.depth ≤ maxDepth ∧ Waiting base call.rank s.depth stack
  | ⟨.chain chain outer _, s, stack⟩ =>
    s.depth ≤ maxDepth ∧ outer ≤ s.depth ∧ Waiting base chain.rank outer stack
  | ⟨.answer _, s, stack⟩ => s.depth ≤ maxDepth ∧ Waiting base 4 s.depth stack

namespace Config.Kept

variable {base : Nat} {call : Call} {s : State} {stack : List Frame} {c c' : Config}

theorem entered (call : Call) (h : s.depth ≤ maxDepth) : Kept s.depth ⟨.call call, s, []⟩ :=
  ⟨h, .entry le_rfl⟩

theorem depth_le (h : c.Kept base) : c.state.depth ≤ maxDepth := by
  match c, h with
  | ⟨.call _, _, _⟩, h => exact h.1
  | ⟨.chain _ _ _, _, _⟩, h => exact h.1
  | ⟨.answer _, _, _⟩, h => exact h.1

/-- Whatever the machine does, calls wait at no more than the levels that are open. -/
theorem waiting (h : c.Kept base) : Waiting base 4 c.state.depth c.stack := by
  match c, h with
  | ⟨.call call, _, _⟩, ⟨_, hwaiting⟩ => exact hwaiting.widen (call.rank_le.trans (by decide))
  | ⟨.chain chain _ _, _, _⟩, ⟨_, houter, hwaiting⟩ =>
    exact (hwaiting.widen (chain.rank_le.trans (by decide))).raise houter
  | ⟨.answer _, _, _⟩, h => exact h.2

/-- A call on a level of its own, under frames that may stand above the one that closes it. -/
theorem nest {above below : List Frame} (h : s.depth ≤ maxDepth)
    (hbelow : Waiting base 4 s.depth below)
    (habove : Waiting base 4 s.depth below →
      Waiting base call.rank (s.depth + 1) (above ++ .nested s.depth :: below)) :
    (Machine.nest call s above below).Kept base := by
  unfold Machine.nest
  split
  case isTrue hroom => exact ⟨hroom, habove hbelow⟩
  case isFalse => exact ⟨h, hbelow⟩

/-- Going on in a frame, one case for each kind of frame. -/
theorem resume {frame : Frame} {e : Expr} (h : s.depth ≤ maxDepth)
    (hstack : Waiting base 4 s.depth (frame :: stack)) :
    (Machine.resume e s stack frame).Kept base := by
  cases hstack with
  | first below houter _ => exact ⟨h, houter, below⟩
  | next below houter _ => exact ⟨h, houter, below⟩
  | nested below houter => exact ⟨houter.le.trans h, below⟩
  | negation below _ => exact ⟨h, below.widen (by decide)⟩
  | count below _ =>
    rw [Machine.resume]
    split
    · exact ⟨s.advance_depth.trans_le h, .sides (s.advance_depth.symm ▸ below) (by decide)⟩
    · exact ⟨h, below.widen (by decide)⟩
  | sides below _ => exact ⟨h, below.widen (by decide)⟩
  | group below _ =>
    rw [Machine.resume]
    split
    · exact ⟨s.advance_depth.trans_le h, s.advance_depth.symm ▸ below.widen (by decide)⟩
    · exact ⟨h, below.widen (by decide)⟩

/-- A refusal leaves the counter of a chain as it is: it may be too high for what is below. -/
theorem unwind {frame : Frame} {error : ParseError} (h : s.depth ≤ maxDepth)
    (hstack : Waiting base 4 s.depth (frame :: stack)) :
    Kept base ⟨.answer (.error error), Machine.unwind s frame, stack⟩ := by
  cases hstack with
  | @first _ _ _ _ chain below houter _ =>
    exact ⟨h, (below.widen (chain.rank_le.trans (by decide))).raise houter⟩
  | @next _ _ _ _ chain _ _ below houter _ =>
    exact ⟨h, (below.widen (chain.rank_le.trans (by decide))).raise houter⟩
  | nested below houter => exact ⟨houter.le.trans h, below⟩
  | negation below _ => exact ⟨h, below.widen (by decide)⟩
  | count below _ => exact ⟨h, below.widen (by decide)⟩
  | sides below _ => exact ⟨h, below.widen (by decide)⟩
  | group below _ => exact ⟨h, below.widen (by decide)⟩

/-- What one step of a call keeps, one case for each kind of call. -/
theorem step_call (h : Kept base ⟨.call call, s, stack⟩)
    (hstep : step ⟨.call call, s, stack⟩ = some c') : c'.Kept base := by
  obtain ⟨hdepth, hwaiting⟩ := h
  have hnext : s.advance.depth ≤ maxDepth := s.advance_depth.trans_le hdepth
  cases call with
  | sum =>
    obtain rfl := Option.some.inj hstep
    exact ⟨hdepth, .first hwaiting le_rfl (by decide)⟩
  | product =>
    obtain rfl := Option.some.inj hstep
    exact ⟨hdepth, .first hwaiting le_rfl (by decide)⟩
  | unary =>
    rw [step] at hstep
    split at hstep
    · obtain rfl := Option.some.inj hstep
      refine nest hnext (s.advance_depth.symm ▸ hwaiting.widen (by decide)) fun hbelow => ?_
      exact .negation (.nested hbelow (Nat.lt_succ_self _)) (by decide)
    · obtain rfl := Option.some.inj hstep
      exact ⟨hdepth, hwaiting⟩
  | dice =>
    rw [step] at hstep
    split at hstep
    · obtain rfl := Option.some.inj hstep
      exact ⟨hdepth, .count hwaiting (by decide)⟩
    · obtain rfl := Option.some.inj hstep
      exact ⟨hdepth, .count hwaiting (by decide)⟩
  | atom expected =>
    by_cases hgroup : s.next.token = .lparen
    · obtain rfl := Option.some.inj ((step_atom_group hgroup).symm.trans hstep)
      have hbelow : Waiting base 4 s.advance.depth (.group :: stack) :=
        .group (s.advance_depth.symm ▸ hwaiting) (by decide)
      exact nest hnext hbelow fun hbelow => .nested hbelow (Nat.lt_succ_self _)
    · by_cases hnumber : ∃ value, s.next.token = .number value
      · obtain ⟨value, hvalue⟩ := hnumber
        obtain rfl := Option.some.inj ((step_atom_number hvalue).symm.trans hstep)
        exact ⟨hnext, s.advance_depth.symm ▸ hwaiting.widen (by simp [Call.rank])⟩
      · have hother : ∀ value, s.next.token ≠ .number value :=
          fun value hvalue => hnumber ⟨value, hvalue⟩
        obtain rfl := Option.some.inj ((step_atom_other hother hgroup).symm.trans hstep)
        exact ⟨hdepth, hwaiting.widen (by simp [Call.rank])⟩

theorem step_chain {chain : Chain} {outer : Nat} {left : Expr}
    (h : Kept base ⟨.chain chain outer left, s, stack⟩)
    (hstep : step ⟨.chain chain outer left, s, stack⟩ = some c') : c'.Kept base := by
  obtain ⟨hdepth, houter, hwaiting⟩ := h
  have hanswer : Waiting base 4 outer stack := hwaiting.widen (chain.rank_le.trans (by decide))
  rw [step] at hstep
  split at hstep
  · obtain rfl := Option.some.inj hstep
    exact ⟨houter.trans hdepth, hanswer⟩
  · split at hstep
    case isTrue hroom =>
      obtain rfl := Option.some.inj hstep
      have hopened := State.advance_depth { s with depth := s.depth + 1 }
      refine ⟨hopened.trans_le hroom, .next hwaiting ?_ ?_⟩
      · exact houter.trans ((Nat.le_succ _).trans hopened.ge)
      · exact chain.rank_operand ▸ Nat.lt_succ_self _
    case isFalse =>
      obtain rfl := Option.some.inj hstep
      exact ⟨hdepth, hanswer.raise houter⟩

theorem step (h : c.Kept base) (hstep : step c = some c') : c'.Kept base := by
  match c, h, hstep with
  | ⟨.call _, _, _⟩, h, hstep => exact h.step_call hstep
  | ⟨.chain _ _ _, _, _⟩, h, hstep => exact h.step_chain hstep
  | ⟨.answer (.ok _), _, _ :: _⟩, ⟨hdepth, hwaiting⟩, hstep =>
    exact Option.some.inj hstep ▸ resume hdepth hwaiting
  | ⟨.answer (.error _), _, _ :: _⟩, ⟨hdepth, hwaiting⟩, hstep =>
    exact Option.some.inj hstep ▸ unwind hdepth hwaiting

theorem reaches (h : c.Kept base) (hreach : Reaches c c') : c'.Kept base := by
  induction hreach with
  | refl => exact h
  | tail _ hstep ih => exact ih.step hstep

end Config.Kept

/-- What a call leaves behind that has read an expression. -/
structure State.Consumes (s s' : State) : Prop where
  tokens : s'.tokens = s.tokens
  /-- Every level that was opened is closed. -/
  depth : s'.depth = s.depth
  forward : s.cursor < s'.cursor
  inside : s'.cursor ≤ s.tokens.length
  stop : ∀ i t, s.cursor ≤ i → i < s'.cursor → s.tokens[i]? = some t → t.token ≠ .stop

theorem Call.accounts (call : Call) (levels : Nat) (ts : List Placed) :
    ∃ p, Accounts levels p ts (call.read levels ts) := by
  cases call with
  | sum =>
    obtain ⟨n, h⟩ := sum_accounts levels ts
    exact ⟨.sum n, h⟩
  | product =>
    obtain ⟨n, h⟩ := product_accounts levels ts
    exact ⟨.product n, h⟩
  | unary => exact ⟨.unary, unary_accounts levels ts⟩
  | dice => exact ⟨.dice, dice_accounts levels ts⟩
  | atom expected => exact ⟨.atom, atom_accounts levels expected ts⟩

/-- What a reader takes is a phrase. -/
theorem Call.derives_of_read {call : Call} {levels : Nat} {ts us rest : List Placed} {e : Expr}
    (h : call.read levels ts = .ok (e, rest)) (hts : ts = us ++ rest) :
    ∃ p c, Derives p (us.map token) e c := by
  obtain ⟨p, haccounts⟩ := call.accounts levels ts
  rw [h] at haccounts
  obtain ⟨w, c, hw, hderives, -⟩ := haccounts
  obtain rfl := List.append_cancel_right (hts.symm.trans hw)
  exact ⟨p, c, hderives⟩

theorem State.consumes {s : State} {us rest : List Placed} {p : Phrase} {e : Expr} {c : Nat}
    (hrest : s.rest = us ++ rest) (hus : Derives p (us.map token) e c) :
    s.Consumes ⟨s.tokens, s.cursor + us.length, s.depth⟩ := by
  have hpos : 0 < us.length := by
    rw [← us.length_map token]
    exact List.length_pos_iff.mpr hus.ne_nil
  have hlength := congrArg List.length hrest
  rw [State.rest, List.length_drop, List.length_append] at hlength
  refine ⟨rfl, rfl, Nat.lt_add_of_pos_right hpos, by simp only; omega, ?_⟩
  intro i t hfrom hto ht hstop
  refine hus.stop_notMem (List.mem_map.mpr ⟨t, ?_, hstop⟩)
  have hi : s.rest[i - s.cursor]? = some t := by
    rw [State.rest, List.getElem?_drop, Nat.add_sub_cancel' hfrom, ht]
  rw [hrest, List.getElem?_append_left (by simp only at hto; omega)] at hi
  exact List.mem_of_getElem? hi

def enter (call : Call) (s : State) : Config := ⟨.call call, s, []⟩

/-- What is answered where a call is entered. -/
def Call.outcome (call : Call) (s : State) : Except ParseError Expr :=
  match call.read (maxDepth - s.depth) s.rest with
  | .error refusal => .error (refusal.toError s.tokens)
  | .ok (e, _) => .ok e

theorem Call.outcome_eq_ok_iff {call : Call} {s : State} {e : Expr} :
    call.outcome s = .ok e ↔ ∃ rest, call.read (maxDepth - s.depth) s.rest = .ok (e, rest) := by
  unfold outcome
  split
  case h_1 refusal hread => simp [hread]
  case h_2 e' rest hread => simp [hread]

theorem exists_end (call : Call) {s : State} (h : s.depth ≤ maxDepth) :
    ∃ s', Reaches (enter call s) ⟨.answer (call.outcome s), s', []⟩ ∧
      ∀ e rest, call.read (maxDepth - s.depth) s.rest = .ok (e, rest) →
        s.Consumes s' ∧ s'.rest = rest := by
  have hdelivers := delivers (maxDepth - s.depth) call s [] (Nat.add_sub_cancel' h)
  unfold Call.outcome
  cases hread : call.read (maxDepth - s.depth) s.rest with
  | error refusal =>
    rw [hread] at hdelivers
    obtain ⟨s', hreach⟩ := hdelivers
    exact ⟨s', hreach, fun _ _ he => nomatch he⟩
  | ok reading =>
    obtain ⟨e, rest⟩ := reading
    rw [hread] at hdelivers
    obtain ⟨us, hrest, hreach⟩ := hdelivers
    obtain ⟨p, c, hus⟩ := call.derives_of_read hread hrest
    refine ⟨_, hreach, ?_⟩
    rintro _ _ ⟨rfl, rfl⟩
    exact ⟨State.consumes hrest hus, State.rest_append hrest s.depth⟩

/-- A loop over a chain ends, with an answer to the calls around it. -/
theorem exists_chain_end (chain : Chain) (outer : Nat) (left : Expr) {s : State}
    (h : s.depth ≤ maxDepth) (stack : List Frame) :
    ∃ outcome s', Reaches ⟨.chain chain outer left, s, stack⟩ ⟨.answer outcome, s', stack⟩ := by
  have hdelivers : Delivers ⟨.chain chain outer left, s, stack⟩ s outer stack
      (chain.tail (maxDepth - s.depth) left s.rest) :=
    delivers_chain (fun inner _ => delivers inner) (Nat.add_sub_cancel' h)
  cases hread : chain.tail (maxDepth - s.depth) left s.rest with
  | error refusal =>
    rw [hread] at hdelivers
    obtain ⟨s', hreach⟩ := hdelivers
    exact ⟨_, s', hreach⟩
  | ok reading =>
    rw [hread] at hdelivers
    obtain ⟨_, _, hreach⟩ := hdelivers
    exact ⟨_, _, hreach⟩

/-- What holds of the run of a call that is entered at `s`. -/
structure Disciplined (call : Call) (s s' : State) : Prop where
  /-- From everywhere on the way the run ends, with what the reader of the call says. -/
  ends : ∀ c, Reaches (enter call s) c → Reaches c ⟨.answer (call.outcome s), s', []⟩
  consumes : ∀ e, call.outcome s = .ok e → s.Consumes s'
  depth : ∀ c, Reaches (enter call s) c → c.state.depth ≤ maxDepth
  /-- The levels that are still to be closed fit between the entry and the bound. -/
  levels : ∀ c, Reaches (enter call s) c → s.depth + c.stack.countP Frame.isNested ≤ maxDepth
  frames : ∀ c, Reaches (enter call s) c → c.stack.length ≤ 5 * c.stack.countP Frame.isNested + 4
  loops : ∀ chain outer left s₁ stack, Reaches (enter call s) ⟨.chain chain outer left, s₁, stack⟩ →
    ∃ outcome s₂, Reaches ⟨.chain chain outer left, s₁, stack⟩ ⟨.answer outcome, s₂, stack⟩

theorem exists_disciplined (call : Call) (s : State) (h : s.depth ≤ maxDepth) :
    ∃ s', Disciplined call s s' := by
  obtain ⟨s', hend, hread⟩ := exists_end call h
  have hkept : ∀ c, Reaches (enter call s) c → c.Kept s.depth :=
    fun c hreach => (Config.Kept.entered call h).reaches hreach
  refine ⟨s', ?_, ?_, fun c hreach => (hkept c hreach).depth_le, ?_, ?_, ?_⟩
  · exact fun c hreach => hreach.to_end hend rfl
  · intro e he
    obtain ⟨rest, hrest⟩ := Call.outcome_eq_ok_iff.mp he
    exact (hread e rest hrest).1
  · intro c hreach
    exact (hkept c hreach).waiting.levels_le.trans (hkept c hreach).depth_le
  · exact fun c hreach => (hkept c hreach).waiting.length_le
  · intro chain outer left s₁ stack hreach
    exact exists_chain_end chain outer left (hkept _ hreach).depth_le stack

/-- The tokens of `d(7)+`. -/
def groupOfSides : List Placed :=
  [⟨.dice, 0⟩, ⟨.lparen, 1⟩, ⟨.number 7, 2⟩, ⟨.rparen, 3⟩, ⟨.plus, 4⟩]

/-- A group that is entered behind the `d`, with two levels open. -/
theorem disciplined_group :
    (State.mk groupOfSides 1 2).depth ≤ maxDepth ∧
      Call.outcome .unary ⟨groupOfSides, 1, 2⟩ = .ok (.num 7) ∧
      ∃ s', Disciplined .unary ⟨groupOfSides, 1, 2⟩ s' ∧
        State.Consumes ⟨groupOfSides, 1, 2⟩ s' := by
  have houtcome : Call.outcome .unary ⟨groupOfSides, 1, 2⟩ = .ok (.num 7) := by
    cbv
  obtain ⟨s', h⟩ := exists_disciplined .unary ⟨groupOfSides, 1, 2⟩ (by decide)
  exact ⟨by decide, houtcome, s', h, h.consumes _ houtcome⟩

/-- Reading a list of tokens as a whole is one run and a look at the token behind it. -/
theorem exists_parse (ts : List Placed) :
    ∃ s', Reaches (enter .sum ⟨ts, 0, 0⟩) ⟨.answer (Call.outcome .sum ⟨ts, 0, 0⟩), s', []⟩ ∧
      Expr.parse ts = match Call.outcome .sum ⟨ts, 0, 0⟩ with
        | .error error => .error error
        | .ok e => if s'.next.token = .stop then .ok e
          else .error (s'.refuse (.unexpected [.operator, .stop])) := by
  obtain ⟨s', hend, hread⟩ := exists_end .sum (s := ⟨ts, 0, 0⟩) (Nat.zero_le _)
  refine ⟨s', hend, ?_⟩
  unfold Expr.parse Call.outcome
  simp only [Call.read, State.rest, List.drop_zero, Nat.sub_zero] at hread ⊢
  cases hsum : Reader.sum maxDepth ts with
  | error refusal => rfl
  | ok reading =>
    obtain ⟨e, rest⟩ := reading
    obtain ⟨hconsumes, rfl⟩ := hread e rest hsum
    simp only [State.next, State.refuse, State.rest, hconsumes.tokens]

end DiceNotation.Machine
