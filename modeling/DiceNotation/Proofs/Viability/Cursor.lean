import DiceNotation.Proofs.Viability
import Mathlib.Data.List.Induction

/-!
What can come next in an expression, told from the tokens in front without reading them as a tree. A
cursor walks over tokens and knows two things: whether it stands where an atom can start or behind
one, and the groups that are open. Of an atom, and of each open group, it remembers whether it is
free or the sides of dice, since only a free atom can be a count.

The cursor gets past the beginnings of expressions and nothing else, and it stands behind an atom
with no group open exactly where an expression is complete.
-/
namespace DiceNotation

/-- Where the next token stands. The atom that starts here or ends here is `free` if it is not the
sides of dice. -/
inductive Slot where
  | before (free : Bool)
  | behind (free : Bool)
  deriving DecidableEq, Repr

/-- Where the tokens behind `t` stand if `t` can stand here, whatever groups are open. -/
def Slot.step : Slot → Token → Option Slot
  | .before free, .number _ => some (.behind free)
  | .before free, .minus => if free then some (.before true) else none
  | .before free, .dice => if free then some (.before false) else none
  | .behind free, .dice => if free then some (.before false) else none
  | .behind _, .plus | .behind _, .minus => some (.before true)
  | .behind _, .star | .behind _, .slash => some (.before true)
  | _, _ => none

structure Cursor where
  slot : Slot
  /-- The open groups from the innermost to the outermost, each with whether it is free. -/
  groups : List Bool
  deriving DecidableEq, Repr

theorem Token.JoinsTerms.step {t : Token} {f : Expr → Expr → Expr} (h : JoinsTerms t f)
    (free : Bool) : Slot.step (.behind free) t = some (.before true) := by
  cases h <;> rfl

theorem Token.JoinsFactors.step {t : Token} {f : Expr → Expr → Expr} (h : JoinsFactors t f)
    (free : Bool) : Slot.step (.behind free) t = some (.before true) := by
  cases h <;> rfl

namespace Cursor

/-- The cursor in front of all tokens. -/
def start : Cursor := ⟨.before true, []⟩

/-- The cursor behind a token, if the token can stand here. -/
def step : Cursor → Token → Option Cursor
  | ⟨.before free, groups⟩, .lparen => some ⟨.before true, free :: groups⟩
  | ⟨.behind _, outer :: groups⟩, .rparen => some ⟨.behind outer, groups⟩
  | ⟨slot, groups⟩, t => (slot.step t).map fun slot' => ⟨slot', groups⟩

/-- The cursor behind some tokens, if it gets past all of them. -/
def pass (c : Cursor) (w : List Token) : Option Cursor := w.foldlM step c

variable {c c' : Cursor} {t : Token} {w w' : List Token} {groups : List Bool} {free : Bool}

@[simp] theorem pass_nil (c : Cursor) : c.pass [] = some c := rfl

theorem pass_cons (c : Cursor) (t : Token) (w : List Token) :
    c.pass (t :: w) = (c.step t).bind fun c' => c'.pass w := rfl

theorem pass_append (c : Cursor) (w w' : List Token) :
    c.pass (w ++ w') = (c.pass w).bind fun c' => c'.pass w' := List.foldlM_append

theorem pass_concat (c : Cursor) (w : List Token) (t : Token) :
    c.pass (w ++ [t]) = (c.pass w).bind fun c' => c'.step t := by
  simp [pass, List.foldlM_append]

theorem pass_append_of_eq (h : c.pass w = some c') (w' : List Token) :
    c.pass (w ++ w') = c'.pass w' := by
  rw [pass_append, h, Option.bind_some]

/-- The moves of a cursor: into a group, out of one, or within the open groups. -/
inductive Moves : Cursor → Token → Cursor → Prop
  | opening (free : Bool) (groups : List Bool) :
      Moves ⟨.before free, groups⟩ .lparen ⟨.before true, free :: groups⟩
  | closing (last outer : Bool) (groups : List Bool) :
      Moves ⟨.behind last, outer :: groups⟩ .rparen ⟨.behind outer, groups⟩
  | within {slot slot' : Slot} {t : Token} (h : slot.step t = some slot') (groups : List Bool) :
      Moves ⟨slot, groups⟩ t ⟨slot', groups⟩

theorem moves_of_step (h : c.step t = some c') : Moves c t c' := by
  revert h
  fun_cases step c t with
  | case1 last groups =>
    intro h
    cases h
    exact .opening last groups
  | case2 last outer groups =>
    intro h
    cases h
    exact .closing last outer groups
  | case3 slot groups =>
    intro h
    obtain ⟨slot', hslot, rfl⟩ := Option.map_eq_some_iff.mp h
    exact .within hslot groups

theorem step_of_slot {slot slot' : Slot} (h : slot.step t = some slot') (groups : List Bool) :
    step ⟨slot, groups⟩ t = some ⟨slot', groups⟩ := by
  cases slot <;> cases t <;> simp_all [Slot.step, step]

/-- Getting past a token between others. -/
theorem pass_join {slot slot' : Slot} (h : c.pass w = some ⟨slot, groups⟩)
    (ht : slot.step t = some slot') (w' : List Token) :
    c.pass (w ++ t :: w') = pass ⟨slot', groups⟩ w' := by
  rw [pass_append_of_eq h, pass_cons, step_of_slot ht, Option.bind_some]

theorem exists_pass_of_append (h : c.pass (w ++ w') = some c') :
    ∃ c₁, c.pass w = some c₁ ∧ c₁.pass w' = some c' := by
  rw [pass_append] at h
  exact Option.bind_eq_some_iff.mp h

theorem exists_step_of_concat (h : c.pass (w ++ [t]) = some c') :
    ∃ c₁, c.pass w = some c₁ ∧ c₁.step t = some c' := by
  rw [pass_concat] at h
  exact Option.bind_eq_some_iff.mp h

/-- Behind an atom all open groups can be closed. -/
theorem exists_closing (free : Bool) (groups : List Bool) :
    ∃ z last, pass ⟨.behind free, groups⟩ z = some ⟨.behind last, []⟩ := by
  induction groups generalizing free with
  | nil => exact ⟨[], free, rfl⟩
  | cons outer groups ih =>
    obtain ⟨z, last, hz⟩ := ih outer
    exact ⟨.rparen :: z, last, hz⟩

/-- From everywhere the tokens can be brought to an end. -/
theorem exists_completion (c : Cursor) : ∃ z last, c.pass z = some ⟨.behind last, []⟩ := by
  obtain ⟨slot, groups⟩ := c
  cases slot with
  | before free =>
    obtain ⟨z, last, hz⟩ := exists_closing free groups
    exact ⟨.number 1 :: z, last, hz⟩
  | behind free => exact exists_closing free groups

/-- Above the groups of which one is `free`, a token does what it does without them, but for the one
that opens this group. -/
theorem step_above {slot : Slot} {inner : List Bool}
    (h : c.step t = some ⟨slot, inner ++ free :: groups⟩) :
    (t = .lparen ∧ slot = .before true ∧ inner = [] ∧ c = ⟨.before free, groups⟩) ∨
      ∃ slot' inner', c = ⟨slot', inner' ++ free :: groups⟩ ∧
        step ⟨slot', inner'⟩ t = some ⟨slot, inner⟩ := by
  have hmoves := moves_of_step h
  generalize hgroups : inner ++ free :: groups = groups' at hmoves
  cases hmoves with
  | opening free' groups' =>
    cases inner with
    | nil =>
      cases hgroups
      exact .inl ⟨rfl, rfl, rfl, rfl⟩
    | cons outer inner =>
      cases hgroups
      exact .inr ⟨.before free', inner, rfl, rfl⟩
  | closing last outer =>
    subst hgroups
    exact .inr ⟨.behind last, outer :: inner, rfl, rfl⟩
  | within hslot =>
    subst hgroups
    exact .inr ⟨_, inner, rfl, step_of_slot hslot inner⟩

/-- Each open group was opened somewhere, and what is in front of this place and what is behind it
can be told apart. -/
theorem exists_opening {slot : Slot} {inner : List Bool}
    (h : start.pass w = some ⟨slot, inner ++ free :: groups⟩) :
    ∃ q inside, w = q ++ .lparen :: inside ∧ start.pass q = some ⟨.before free, groups⟩ ∧
      start.pass inside = some ⟨slot, inner⟩ := by
  -- From the end: up to the opening of the group, all moves are above it.
  induction w using List.reverseRecOn generalizing slot inner with
  | nil => simp [start] at h
  | append_singleton w t ih =>
    obtain ⟨c, hc, hstep⟩ := exists_step_of_concat h
    rcases step_above hstep with ⟨rfl, rfl, rfl, rfl⟩ | ⟨slot', inner', rfl, habove⟩
    · exact ⟨w, [], rfl, hc, rfl⟩
    · obtain ⟨q, inside, rfl, hq, hinside⟩ := ih hc
      refine ⟨q, inside ++ [t], by simp, hq, ?_⟩
      rw [pass_append_of_eq hinside, pass_cons, habove]
      rfl

/-- Only a `d` leads to a slot that is not free. -/
theorem free_of_step (h : c.step t = some ⟨.before free, groups⟩) :
    free = true ↔ t ≠ .dice := by
  cases moves_of_step h with
  | opening => simp
  | @within slot _ _ hslot => cases slot <;> cases t <;> simp_all [Slot.step]

/-- What leads behind an atom is a number or the end of a group. -/
theorem exists_of_step_behind (h : c.step t = some ⟨.behind free, groups⟩) :
    (∃ v, t = .number v ∧ c = ⟨.before free, groups⟩) ∨
      t = .rparen ∧ ∃ last, c = ⟨.behind last, free :: groups⟩ := by
  cases moves_of_step h with
  | closing last => exact .inr ⟨rfl, last, rfl⟩
  | @within slot _ _ hslot => cases slot <;> cases t <;> simp_all [Slot.step]

theorem free_iff_getLast? (h : start.pass w = some ⟨.before free, groups⟩) :
    free = true ↔ w.getLast? ≠ some .dice := by
  induction w using List.reverseRecOn with
  | nil =>
    cases h
    simp
  | append_singleton w t _ =>
    obtain ⟨c, -, hstep⟩ := exists_step_of_concat h
    rw [List.getLast?_concat, free_of_step hstep, ne_eq, ne_eq, Option.some.injEq]

end Cursor

/-- Whether the tokens get a cursor past a phrase: an atom from the slot where it stands, and any
other phrase from a slot where its first atom is free. -/
def Phrase.Crosses : Phrase → List Token → Prop
  | .atom, w => ∀ free groups, Cursor.pass ⟨.before free, groups⟩ w = some ⟨.behind free, groups⟩
  | _, w => ∀ groups, ∃ free, Cursor.pass ⟨.before true, groups⟩ w = some ⟨.behind free, groups⟩

open Cursor

/-- Getting past an operator and its operands. -/
theorem Cursor.crosses_join {w w' : List Token} {t : Token} {groups : List Bool}
    (hleft : ∃ free, pass ⟨.before true, groups⟩ w = some ⟨.behind free, groups⟩)
    (ht : ∀ free, Slot.step (.behind free) t = some (.before true))
    (hright : ∃ free, pass ⟨.before true, groups⟩ w' = some ⟨.behind free, groups⟩) :
    ∃ free, pass ⟨.before true, groups⟩ (w ++ t :: w') = some ⟨.behind free, groups⟩ := by
  obtain ⟨free, hleft⟩ := hleft
  obtain ⟨free', hright⟩ := hright
  refine ⟨free', ?_⟩
  rw [pass_join hleft (ht free)]
  exact hright

theorem Derives.crosses {p w e c} (h : Derives p w e c) : p.Crosses w := by
  induction h with
  | number v => exact fun free groups => rfl
  | group inside ih =>
    intro free groups
    obtain ⟨free', h⟩ := ih (free :: groups)
    rw [pass_cons]
    exact pass_append_of_eq h [.rparen]
  | alone atom ih => exact fun groups => ⟨true, ih true groups⟩
  | dice count sides ihcount ihsides =>
    intro groups
    refine ⟨false, ?_⟩
    rw [pass_join (ihcount true groups) rfl]
    exact ihsides false groups
  | die sides ih => exact fun groups => ⟨false, ih false groups⟩
  | plain dice ih => exact ih
  | negation operand ih => exact ih
  | factor unary ih => exact ih
  | term product ih => exact ih
  | times left operator right ihleft ihright =>
    exact fun groups => crosses_join (ihleft groups) operator.step (ihright groups)
  | plus left operator right ihleft ihright =>
    exact fun groups => crosses_join (ihleft groups) operator.step (ihright groups)

theorem Forms.pass {w e c} (h : Forms w e c) : ∃ free, start.pass w = some ⟨.behind free, []⟩ := by
  obtain ⟨n, hn⟩ := h
  exact hn.crosses []

theorem Viable.pass {w : List Token} (h : Viable w) : ∃ c, start.pass w = some c := by
  obtain ⟨z, e, c, hforms⟩ := h
  obtain ⟨free, hpass⟩ := hforms.pass
  obtain ⟨c', hc', -⟩ := exists_pass_of_append hpass
  exact ⟨c', hc'⟩

end DiceNotation
