import DiceNotation.Expr.Canonical
import DiceNotation.Proofs.Scanning

/-!
The tokens of canonical text, read off the tree, and the proof that the text is written with them:
a sign and a magnitude for a negative literal, parentheses where the text groups an operand, and
every operator where it stands between its operands.
-/
namespace DiceNotation

/-- In front of anything but a digit, `text` reads as the tokens `w`. -/
def Writes (text : String) (w : List Token) : Prop :=
  ∀ (position : Nat) (rest : List Char), (∀ d ∈ rest.head?, d.isDigit = false) →
    ∃ us behind, us.map Placed.token = w ∧
      scan position (text.toList ++ rest) = (us ++ ·) <$> scan behind rest

/-- In front of anything, `text` reads as the token `t`, and it never continues a number. -/
structure Marks (text : String) (t : Token) : Prop where
  head : ∀ cs, ∀ d ∈ (text.toList ++ cs).head?, d.isDigit = false
  scan : ∀ position cs, ∃ place behind,
    scan position (text.toList ++ cs) = (⟨t, place⟩ :: ·) <$> scan behind cs

theorem Marks.of_char {text : String} {c : Char} {t : Token} (htext : text.toList = [c])
    (h : Token.ofChar? c = some t) : Marks text t where
  head cs d hd := by
    obtain rfl : c = d := by simpa [htext] using hd
    exact (Token.blank_digit_of_ofChar? h).2.1
  scan position cs := ⟨position, position + 1, by rw [htext]; exact scan_mark h⟩

theorem Marks.of_char_between_blanks {text : String} {c : Char} {t : Token}
    (htext : text.toList = [' ', c, ' ']) (h : Token.ofChar? c = some t) : Marks text t where
  head cs d hd := by
    obtain rfl : ' ' = d := by simpa [htext] using hd
    rfl
  scan position cs := by
    refine ⟨position + ' '.utf8Size, position + ' '.utf8Size + 1 + ' '.utf8Size, ?_⟩
    rw [htext, List.cons_append, scan_blank rfl, List.cons_append, scan_mark h, List.cons_append,
      scan_blank rfl]
    rfl

namespace Writes

variable {s s₁ s₂ mark : String} {w w₁ w₂ : List Token} {t : Token}

theorem between (h₁ : Writes s₁ w₁) (hmark : Marks mark t) (h₂ : Writes s₂ w₂) :
    Writes (s₁ ++ mark ++ s₂) (w₁ ++ t :: w₂) := by
  intro position rest hrest
  obtain ⟨us, p₁, rfl, hus⟩ := h₁ position (mark.toList ++ (s₂.toList ++ rest)) (hmark.head _)
  obtain ⟨place, p₂, ht⟩ := hmark.scan p₁ (s₂.toList ++ rest)
  obtain ⟨vs, p₃, rfl, hvs⟩ := h₂ p₂ rest hrest
  refine ⟨us ++ ⟨t, place⟩ :: vs, p₃, by simp, ?_⟩
  rw [String.toList_append, String.toList_append, List.append_assoc, List.append_assoc, hus, ht,
    hvs]
  simp [Functor.map_map]

theorem behind (hmark : Marks mark t) (h : Writes s w) : Writes (mark ++ s) (t :: w) := by
  intro position rest hrest
  obtain ⟨place, p₁, ht⟩ := hmark.scan position (s.toList ++ rest)
  obtain ⟨us, p₂, rfl, hus⟩ := h p₁ rest hrest
  refine ⟨⟨t, place⟩ :: us, p₂, rfl, ?_⟩
  rw [String.toList_append, List.append_assoc, ht, hus]
  simp [Functor.map_map]

theorem nothing : Writes "" [] :=
  fun position rest _ => ⟨[], position, rfl, by simp⟩

theorem enclosed (h : Writes s w) : Writes ("(" ++ s ++ ")") (.lparen :: (w ++ [.rparen])) := by
  have hopen : Writes ("(" ++ s) (.lparen :: w) := h.behind (.of_char rfl rfl)
  have hclose : Writes ("(" ++ s ++ ")" ++ "") (.lparen :: w ++ .rparen :: []) :=
    hopen.between (.of_char rfl rfl) .nothing
  rwa [String.append_empty] at hclose

/-- The digits of a value that has no sign. -/
theorem number {v : Value} (hv : 0 ≤ v.toInt) : Writes v.text [.number v] := by
  intro position rest hrest
  have htext : v.text.toList = Nat.toDigits 10 v.toInt.natAbs := by
    rw [Value.text, if_neg (by omega), String.toList_ofList]
  refine ⟨[⟨.number v, position⟩], position + v.text.toList.length, rfl, ?_⟩
  rw [htext]
  exact scan_digits (fun d hd => Nat.isDigit_of_mem_toDigits (by decide) (by decide) hd)
    Nat.toDigits_ne_nil hrest Nat.ofDigitChars_ten_toDigits (by omega)

theorem tokenize (h : Writes s w) :
    ∃ us : List Placed, us.map Placed.token = w ∧
      tokenize s = .ok (us ++ [⟨.stop, s.utf8ByteSize⟩]) := by
  obtain ⟨us, behind, hus, hscan⟩ := h 0 [] (by simp)
  refine ⟨us, hus, ?_⟩
  rw [tokenize_eq_scan, ← List.append_nil s.toList, hscan, scan_nil]
  simp [Functor.map, Except.map]

end Writes

namespace Value

theorem toInt_neg_of_ne {v : Value} (hv : v ≠ Int32.minValue) : (-v).toInt = -v.toInt := by
  have hbounds := toInt_bounds v
  have hmin : v.toInt ≠ -2147483648 := fun h => hv (Int32.toInt_inj.mp h)
  rw [Int32.toInt_neg]
  exact Int.bmod_eq_of_le (by omega) (by omega)

theorem text_of_neg {v : Value} (hv : v ≠ Int32.minValue) (hneg : v.toInt < 0) :
    v.text = "-" ++ text (-v) := by
  have hopposite := toInt_neg_of_ne hv
  rw [text, text, if_pos hneg, if_neg (by omega), hopposite, Int.natAbs_neg]

end Value

namespace Expr

def literals : Expr → List Value
  | num v => [v]
  | neg operand => operand.literals
  | dice left right | add left right | sub left right | mul left right | div left right =>
    left.literals ++ right.literals

def groupedTokens (group : Bool) (w : List Token) : List Token :=
  if group then .lparen :: (w ++ [.rparen]) else w

/-- The tokens of an operation of class `b` whose operands are written with the given tokens. -/
def joinedTokens (b : Binding) (left right : Expr) (t : Token) (w₁ w₂ : List Token) :
    List Token :=
  groupedTokens (!left.standsLeft b) w₁ ++ t :: groupedTokens (!right.standsRight b) w₂

/-- The tokens of the canonical text. -/
def tokens : Expr → List Token
  | num v => if v.toInt < 0 then [.minus, .number (-v)] else [.number v]
  | dice count sides =>
    groupedTokens (!count.standsInDice) count.tokens ++
      .dice :: groupedTokens (!sides.standsInDice) sides.tokens
  | neg operand => .minus :: groupedTokens (!operand.standsNegated) operand.tokens
  | add left right => joinedTokens .additive left right .plus left.tokens right.tokens
  | sub left right => joinedTokens .additive left right .minus left.tokens right.tokens
  | mul left right => joinedTokens .multiplicative left right .star left.tokens right.tokens
  | div left right => joinedTokens .multiplicative left right .slash left.tokens right.tokens

theorem writes_grouped {s : String} {w : List Token} (group : Bool) (h : Writes s w) :
    Writes (grouped group s) (groupedTokens group w) := by
  cases group with
  | false => exact h
  | true => exact h.enclosed

theorem writes_joined {b : Binding} {left right : Expr} {mark : String} {t : Token}
    (hmark : Marks mark t) (hleft : Writes left.display left.tokens)
    (hright : Writes right.display right.tokens) :
    Writes (grouped (!left.standsLeft b) left.display ++ mark ++
        grouped (!right.standsRight b) right.display)
      (joinedTokens b left right t left.tokens right.tokens) :=
  (writes_grouped _ hleft).between hmark (writes_grouped _ hright)

/-- Canonical text is written with its tokens. The least value has no magnitude to write. -/
theorem writes_display (e : Expr) (he : ∀ v ∈ e.literals, v ≠ Int32.minValue) :
    Writes e.display e.tokens := by
  induction e with
  | num v =>
    by_cases hv : v.toInt < 0
    · have hmin := he v (List.mem_singleton_self v)
      have hopposite := Value.toInt_neg_of_ne hmin
      rw [display, tokens, if_pos hv, Value.text_of_neg hmin hv]
      exact (Writes.number (by omega)).behind (.of_char rfl rfl)
    · rw [display, tokens, if_neg hv]
      exact .number (by omega)
  | neg operand ih =>
    exact (writes_grouped _ (ih he)).behind (.of_char rfl rfl)
  | dice count sides ihcount ihsides =>
    simp only [literals, List.mem_append] at he
    have hcount := ihcount fun v hv => he v (.inl hv)
    have hsides := ihsides fun v hv => he v (.inr hv)
    exact (writes_grouped _ hcount).between (.of_char rfl rfl) (writes_grouped _ hsides)
  | add left right ihleft ihright | sub left right ihleft ihright | mul left right ihleft ihright
  | div left right ihleft ihright =>
    simp only [literals, List.mem_append] at he
    have hleft := ihleft fun v hv => he v (.inl hv)
    have hright := ihright fun v hv => he v (.inr hv)
    exact writes_joined (.of_char_between_blanks rfl rfl) hleft hright

end Expr

end DiceNotation
