import DiceNotation.Token.Scan
import Mathlib.Data.List.Basic

/-!
Reading a text as tokens, one word at a time. Blanks are passed over, a mark is one token, and a
longest run of digits is one number; each step leaves the reading of the rest unchanged. A text
writes tokens if it reads as them in front of whatever does not continue its last number.
-/
namespace DiceNotation

section Success

variable {ε α β : Type} {x : Except ε α}

theorem exists_of_bind_eq_ok {f : α → Except ε β} {b : β} (h : x >>= f = .ok b) :
    ∃ a, x = .ok a ∧ f a = .ok b := by
  cases x with
  | error e => cases h
  | ok a => exact ⟨a, rfl, h⟩

theorem exists_of_map_eq_ok {f : α → β} {b : β} (h : f <$> x = .ok b) :
    ∃ a, x = .ok a ∧ f a = b := by
  cases x with
  | error e => cases h
  | ok a => exact ⟨a, rfl, Except.ok.inj h⟩

theorem eq_error_of_map_eq_error {f : α → β} {e : ε} (h : f <$> x = .error e) : x = .error e := by
  cases x with
  | error e => exact congrArg Except.error (Except.error.inj h)
  | ok a => cases h

end Success

/-- The tokens of words in order, up to the first number that is too large. -/
def Word.tokens (words : List (Nat × Word)) : Except LexError (List Placed) :=
  words.mapM fun word => word.2.token word.1

/-- The tokens of a text that starts at byte `position`, without an end. -/
def scan (position : Nat) (cs : List Char) : Except LexError (List Placed) :=
  Word.ofChars position cs >>= Word.tokens

theorem tokenize_eq_scan (text : String) :
    tokenize text = (· ++ [⟨.stop, text.utf8ByteSize⟩]) <$> scan 0 text.toList := by
  simp only [tokenize, scan, map_eq_pure_bind, bind_assoc, Word.tokens]

theorem Word.tokens_cons {position : Nat} {word : Word} {t : Placed}
    (h : word.token position = .ok t) (words : List (Nat × Word)) :
    tokens ((position, word) :: words) = (t :: ·) <$> tokens words := by
  rw [tokens, List.mapM_cons, h, map_eq_pure_bind]
  rfl

/-- A word that is a token goes in front of the tokens of all others. -/
theorem Word.map_cons_bind_tokens {position : Nat} {word : Word} {t : Placed}
    (h : word.token position = .ok t) (words : Except LexError (List (Nat × Word))) :
    (((position, word) :: ·) <$> words) >>= tokens = (t :: ·) <$> (words >>= tokens) := by
  cases words with
  | error e => rfl
  | ok words => exact tokens_cons h words

theorem Token.blank_digit_of_ofChar? {c : Char} {t : Token} (h : ofChar? c = some t) :
    Text.isBlank c = false ∧ c.isDigit = false ∧ c.utf8Size = 1 := by
  unfold ofChar? at h
  split at h <;> first | exact ⟨by decide, by decide, by decide⟩ | cases h

/-- No digit is a blank. -/
theorem Text.isBlank_of_isDigit {c : Char} (h : c.isDigit = true) : isBlank c = false := by
  have hlow : ('0' : Char).val.toNat = 48 := rfl
  have hhigh : ('9' : Char).val.toNat = 57 := rfl
  simp only [Char.isDigit, Bool.and_eq_true, decide_eq_true_eq, UInt32.le_iff_toNat_le] at h
  simp only [isBlank, Char.toNat, Bool.or_eq_false_iff, Bool.and_eq_false_iff,
    decide_eq_false_iff_not, beq_eq_false_iff_ne]
  omega

theorem Text.isDigit_of_isBlank {c : Char} (h : isBlank c = true) : c.isDigit = false := by
  by_contra hdigit
  rw [isBlank_of_isDigit (Bool.of_not_eq_false hdigit)] at h
  cases h

section Runs

variable {run cs : List Char} (hrun : ∀ d ∈ run, d.isDigit = true)
  (hcs : ∀ d ∈ cs.head?, d.isDigit = false)

include hrun hcs

/-- Digits are read up to the end of their run. -/
theorem takeWhile_isDigit_append : (run ++ cs).takeWhile Char.isDigit = run := by
  rw [List.takeWhile_append_of_pos hrun]
  cases cs with
  | nil => simp
  | cons c cs => simp [hcs c rfl]

theorem dropWhile_isDigit_append : (run ++ cs).dropWhile Char.isDigit = cs := by
  rw [List.dropWhile_append_of_pos hrun]
  cases cs with
  | nil => rfl
  | cons c cs => simp [hcs c rfl]

end Runs

section Steps

variable {position : Nat} {c : Char} {t : Token} {v : Value} {run cs : List Char}

theorem scan_nil : scan position [] = .ok [] := by
  rw [scan, Word.ofChars.eq_def]
  rfl

theorem scan_blank (h : Text.isBlank c = true) :
    scan position (c :: cs) = scan (position + c.utf8Size) cs := by
  rw [scan, Word.ofChars.eq_def]
  simp only [h, if_true]
  rfl

theorem scan_mark (h : Token.ofChar? c = some t) :
    scan position (c :: cs) = (⟨t, position⟩ :: ·) <$> scan (position + 1) cs := by
  obtain ⟨hblank, hdigit, -⟩ := Token.blank_digit_of_ofChar? h
  rw [scan, Word.ofChars.eq_def]
  simp only [hblank, hdigit, h, Bool.false_eq_true, if_false]
  exact Word.map_cons_bind_tokens rfl _

/-- A longest run of digits in range is one number. -/
theorem scan_digits (hrun : ∀ d ∈ run, d.isDigit = true) (hne : run ≠ [])
    (hcs : ∀ d ∈ cs.head?, d.isDigit = false) {n : Nat} (hn : Nat.ofDigitChars 10 run 0 = n)
    (hv : v.toInt = n) :
    scan position (run ++ cs) =
      (⟨.number v, position⟩ :: ·) <$> scan (position + run.length) cs := by
  obtain ⟨d, ds, rfl⟩ := List.exists_cons_of_ne_nil hne
  have hd : d.isDigit = true := hrun d (List.mem_cons_self ..)
  have hds : ∀ x ∈ ds, x.isDigit = true := fun x hx => hrun x (List.mem_cons_of_mem _ hx)
  have hword : (Word.digits (d :: ds)).token position = .ok ⟨.number v, position⟩ := by
    simp only [Word.token, hn, Value.ofInt?_eq_some_iff.mpr hv]
  rw [List.cons_append, scan, Word.ofChars.eq_def]
  simp only [Text.isBlank_of_isDigit hd, hd, Bool.false_eq_true, if_false, if_true,
    takeWhile_isDigit_append hds hcs, dropWhile_isDigit_append hds hcs]
  rw [Word.map_cons_bind_tokens hword, List.length_cons,
    show position + 1 + ds.length = position + (ds.length + 1) by omega]
  rfl

end Steps

/-- Whether the token is anything but a number below zero. -/
def Token.Unsigned (t : Token) : Prop := ∀ v, t = .number v → 0 ≤ v.toInt

end DiceNotation
