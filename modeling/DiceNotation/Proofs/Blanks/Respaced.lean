import DiceNotation.Proofs.Blanks.Solid
import DiceNotation.Proofs.Viability

/-!
Blanks and the case of the dice do not matter. Places in a text are counted in the solid characters
in front of them. Then the words of a text, with the place of each, are those of its condensed form,
and so are its tokens and the error, if there is one. Reading tokens moves with their places, so
respaced texts are the same expression or fail in the same way at the same place.
-/
namespace DiceNotation

open Text

/-- The characters that start in front of byte `position`. -/
def Text.upTo : Nat → List Char → List Char
  | _, [] => []
  | 0, _ => []
  | position + 1, c :: cs => c :: upTo (position + 1 - c.utf8Size) cs

/-- The number of solid characters that start in front of byte `position`. -/
def Text.solidBefore (cs : List Char) (position : Nat) : Nat := (solid (upTo position cs)).length

theorem Text.upTo_zero (cs : List Char) : upTo 0 cs = [] := by cases cs <;> rfl

theorem Text.solidBefore_zero (cs : List Char) : solidBefore cs 0 = 0 := by
  rw [solidBefore, upTo_zero]
  rfl

theorem Text.upTo_bytes (before after : List Char) :
    upTo (bytes before) (before ++ after) = before := by
  induction before with
  | nil => exact upTo_zero after
  | cons c before ih =>
    obtain ⟨n, hn⟩ := Nat.exists_eq_add_one_of_ne_zero (Nat.ne_of_gt c.utf8Size_pos)
    have hsize : bytes (c :: before) = n + bytes before + 1 := by
      rw [bytes_cons, hn]
      omega
    rw [hsize, List.cons_append, upTo, ← hsize, bytes_cons, Nat.add_sub_cancel_left, ih]

theorem Text.solidBefore_eq {cs before after : List Char} {position : Nat}
    (hsplit : cs = before ++ after) (hposition : position = bytes before) :
    solidBefore cs position = (solid before).length := by
  rw [solidBefore, hsplit, hposition, upTo_bytes]

section Places

/-! Tokens and errors with their places moved. -/

variable (move : Nat → Nat)

def LexError.relocate : LexError → LexError
  | unexpectedChar position found => unexpectedChar (move position) found
  | numberTooLarge position => numberTooLarge (move position)

/-- What is read with its places moved by `f`, or the error at its place moved. -/
def LexError.relocated {α : Type} (f : α → α) (x : Except LexError α) : Except LexError α :=
  (x.map f).mapError (relocate move)

def Placed.relocate (t : Placed) : Placed := ⟨t.token, move t.position⟩

def ParseError.relocate (error : ParseError) : ParseError := ⟨error.fault, move error.position⟩

def SyntaxError.relocate : SyntaxError → SyntaxError
  | lex error => lex (error.relocate move)
  | parse error => parse (error.relocate move)

end Places

section Words

variable {cs : List Char} {c : Char}

/-- Digits that touch a digit in front of them are marked up to the end of their run. -/
theorem Text.condense_run (cs : List Char) :
    condense true cs =
      (cs.takeWhile Char.isDigit).map (·, true) ++ condense false (cs.dropWhile Char.isDigit) := by
  induction cs with
  | nil => rfl
  | cons c cs ih =>
    cases hdigit : c.isDigit with
    | true =>
      rw [condense_solid (isBlank_of_isDigit hdigit), hdigit, lowerDice_of_isDigit hdigit, ih,
        List.takeWhile_cons_of_pos hdigit, List.dropWhile_cons_of_pos hdigit]
      rfl
    | false =>
      rw [List.takeWhile_cons_of_neg (by simp [hdigit]),
        List.dropWhile_cons_of_neg (by simp [hdigit])]
      cases hblank : isBlank c with
      | true => rw [condense_blank hblank, condense_blank hblank]; rfl
      | false => rw [condense_solid hblank, condense_solid hblank, hdigit]; rfl

theorem Text.head_condense_false {c : Char} {joined : Bool} {others : List (Char × Bool)}
    (h : condense false cs = (c, joined) :: others) : joined = false := by
  cases joined with
  | false => rfl
  | true =>
    have hhead := (head_condense false cs).mp ⟨c, by rw [h]; rfl⟩
    cases hhead.1

theorem Text.takeWhile_condense (cs : List Char) :
    ((condense true cs).takeWhile Prod.snd).map Prod.fst = cs.takeWhile Char.isDigit := by
  have hrun : ((cs.takeWhile Char.isDigit).map (·, true)).map Prod.fst =
      cs.takeWhile Char.isDigit := by
    rw [List.map_map]
    exact List.map_id _
  rw [condense_run, List.takeWhile_append_of_pos (by simp)]
  cases h : condense false (cs.dropWhile Char.isDigit) with
  | nil => rw [List.takeWhile_nil, List.append_nil, hrun]
  | cons x others =>
    rw [List.takeWhile_cons_of_neg (by simp [head_condense_false h]), List.append_nil, hrun]

theorem Text.dropWhile_condense (cs : List Char) :
    (condense true cs).dropWhile Prod.snd = condense false (cs.dropWhile Char.isDigit) := by
  rw [condense_run, List.dropWhile_append_of_pos (by simp)]
  cases h : condense false (cs.dropWhile Char.isDigit) with
  | nil => rfl
  | cons x others => rw [List.dropWhile_cons_of_neg (by simp [head_condense_false h])]

/-- The words of a condensed text, with their places counted in its characters. -/
def Word.ofCondensed (place : Nat) : List (Char × Bool) → Except LexError (List (Nat × Word))
  | [] => .ok []
  | (c, _) :: cs =>
    if c.isDigit then
      let run := (cs.takeWhile Prod.snd).map Prod.fst
      ((place, .digits (c :: run)) :: ·) <$>
        ofCondensed (place + 1 + run.length) (cs.dropWhile Prod.snd)
    else
      match Token.ofChar? c with
      | some token => ((place, .mark token) :: ·) <$> ofCondensed (place + 1) cs
      | none => .error (.unexpectedChar place c)
termination_by cs => cs.length
decreasing_by
  · have := (List.dropWhile_sublist Prod.snd (l := cs)).length_le
    simp only [List.length_cons]
    omega
  · simp

/-- Words with their places moved. -/
def Word.relocate (move : Nat → Nat) (words : List (Nat × Word)) : List (Nat × Word) :=
  words.map (Prod.map move id)

theorem Word.relocated_cons (move : Nat → Nat) (position : Nat) (word : Word)
    (words : Except LexError (List (Nat × Word))) :
    LexError.relocated move (relocate move) (((position, word) :: ·) <$> words) =
      ((move position, word) :: ·) <$> LexError.relocated move (relocate move) words := by
  cases words <;> rfl

/-- The words of a text are those of its condensed form, each at the solid characters in front of
it. -/
theorem Word.relocated_ofChars {position : Nat} {text front : List Char}
    (htext : text = front ++ cs) (hposition : position = bytes front) :
    LexError.relocated (solidBefore text) (relocate (solidBefore text)) (ofChars position cs) =
      ofCondensed (solid front).length (condense false cs) := by
  fun_induction ofChars position cs generalizing front with
  | case1 position =>
    rw [condense, ofCondensed]
    rfl
  | case2 position c cs hblank ih =>
    have hnext : position + c.utf8Size = bytes (front ++ [c]) := by
      rw [bytes_append, bytes_singleton, hposition]
    have hsolid : solid (front ++ [c]) = solid front := by
      rw [solid_append, solid_blank hblank, List.append_nil]
    rw [List.append_cons] at htext
    rw [condense_blank hblank, ← hsolid]
    exact ih htext hnext
  | case3 position c cs hblank hdigit run =>
    rename_i ih
    have hrun : ∀ d ∈ c :: run, d.isDigit = true :=
      List.forall_mem_cons.mpr ⟨hdigit, fun _ => List.mem_takeWhile_imp⟩
    have hnext : position + 1 + run.length = bytes (front ++ c :: run) := by
      rw [bytes_append, bytes_of_isDigit hrun, List.length_cons, hposition]
      omega
    have htext' : text = (front ++ c :: run) ++ cs.dropWhile Char.isDigit := by
      rw [List.append_assoc, List.cons_append, List.takeWhile_append_dropWhile, htext]
    have hsolid : (solid (front ++ c :: run)).length = (solid front).length + 1 + run.length := by
      rw [solid_append, solid_of_isDigit hrun, List.length_append, List.length_cons]
      omega
    rw [relocated_cons, solidBefore_eq htext hposition, ih htext' hnext, hsolid,
      condense_solid (isBlank_of_isDigit hdigit), hdigit, lowerDice_of_isDigit hdigit, ofCondensed,
      if_pos hdigit, takeWhile_condense, dropWhile_condense]
  | case4 position c cs hblank hdigit t ht ih =>
    rw [Bool.not_eq_true] at hblank hdigit
    have hnext : position + 1 = bytes (front ++ [c]) := by
      rw [bytes_append, bytes_singleton, (Token.blank_digit_of_ofChar? ht).2.2, hposition]
    have hsolid : (solid (front ++ [c])).length = (solid front).length + 1 := by
      rw [solid_append, solid_cons hblank, List.length_append]
      rfl
    have htext' : text = (front ++ [c]) ++ cs := htext.trans (List.append_cons ..)
    rw [relocated_cons, solidBefore_eq htext hposition, ih htext' hnext, hsolid,
      condense_solid hblank, ofCondensed, isDigit_lowerDice, hdigit, ofChar?_lowerDice, ht]
    rfl
  | case5 position c cs hblank hdigit ht =>
    rw [Bool.not_eq_true] at hblank hdigit
    rw [condense_solid hblank, ofCondensed, isDigit_lowerDice, hdigit, ofChar?_lowerDice, ht,
      lowerDice_of_ofChar? ht, ← solidBefore_eq htext hposition]
    rfl

end Words

section Tokens

variable {move : Nat → Nat}

theorem Word.token_relocate (move : Nat → Nat) (position : Nat) (word : Word) :
    word.token (move position) =
      LexError.relocated move (Placed.relocate move) (word.token position) := by
  cases word with
  | digits run =>
    simp only [token]
    cases Value.ofInt? (Nat.ofDigitChars 10 run 0) <;> rfl
  | mark t => rfl

theorem Word.tokens_relocate (words : List (Nat × Word)) :
    tokens (relocate move words) =
      LexError.relocated move (List.map (Placed.relocate move)) (tokens words) := by
  induction words with
  | nil => rfl
  | cons word words ih =>
    have hmoved := token_relocate move word.1 word.2
    change tokens ((move word.1, word.2) :: relocate move words) = _
    cases hword : word.2.token word.1 with
    | ok t =>
      rw [hword] at hmoved
      rw [tokens_cons hmoved, tokens_cons hword, ih]
      cases tokens words <;> rfl
    | error error =>
      rw [hword] at hmoved
      rw [tokens, tokens, List.mapM_cons, List.mapM_cons, hmoved, hword]
      rfl

/-- The tokens of a text, or what is wrong with it, are those of its condensed form. -/
theorem relocated_tokenize (text : String) (hmove : move = solidBefore text.toList) :
    LexError.relocated move (List.map (Placed.relocate move)) (tokenize text) =
      (· ++ [⟨.stop, (solid text.toList).length⟩]) <$>
        (Word.ofCondensed 0 (condense false text.toList) >>= Word.tokens) := by
  have hstop : move text.utf8ByteSize = (solid text.toList).length := by
    rw [hmove]
    exact solidBefore_eq (List.append_nil _).symm (bytes_toList text).symm
  have hwords : LexError.relocated move (Word.relocate move) (Word.ofChars 0 text.toList) =
      Word.ofCondensed 0 (condense false text.toList) := by
    rw [hmove]
    exact Word.relocated_ofChars (List.nil_append _).symm bytes_nil.symm
  rw [tokenize_eq_scan, scan, ← hwords]
  cases Word.ofChars 0 text.toList with
  | error error => rfl
  | ok words =>
    change LexError.relocated move _ (_ <$> Word.tokens words) =
      _ <$> Word.tokens (Word.relocate move words)
    rw [Word.tokens_relocate]
    cases Word.tokens words with
    | error error => rfl
    | ok ts =>
      refine congrArg Except.ok ?_
      rw [List.map_append, ← hstop]
      rfl

end Tokens

section Parsing

variable {move : Nat → Nat} {ts rest : List Placed}

theorem Placed.map_token_relocate (move : Nat → Nat) (ts : List Placed) :
    (ts.map (relocate move)).map token = ts.map token := by
  rw [List.map_map]
  rfl

theorem Placed.first_relocate (move : Nat → Nat) (ts : List Placed) :
    first (ts.map (relocate move)) = first ts := by
  cases ts <;> rfl

theorem Placed.next_relocate (hmove : move 0 = 0) (ts rest : List Placed) :
    next (ts.map (relocate move)) (rest.map (relocate move)) = (next ts rest).relocate move := by
  cases rest with
  | cons t rest => rfl
  | nil =>
    have hlast : (((ts.map (relocate move)).getLast?.map position).getD 0) =
        move ((ts.getLast?.map position).getD 0) := by
      rw [List.getLast?_map]
      cases ts.getLast? with
      | none => exact hmove.symm
      | some t => rfl
    exact congrArg (Placed.mk .stop) hlast

theorem Reader.Refusal.toError_relocate (hmove : move 0 = 0) (ts rest : List Placed)
    (reason : Reason) :
    toError (ts.map (Placed.relocate move)) ⟨reason, rest.map (Placed.relocate move)⟩ =
      (toError ts ⟨reason, rest⟩).relocate move := by
  unfold toError
  simp only [Placed.next_relocate hmove]
  cases reason <;> rfl

/-- Places do not count for the reading of tokens; the place of an error moves with them. -/
theorem Expr.parse_relocate (hmove : move 0 = 0) (ts : List Placed) :
    parse (ts.map (Placed.relocate move)) = (parse ts).mapError (ParseError.relocate move) := by
  cases hparse : parse ts with
  | ok e =>
    obtain ⟨c, hforms, hc⟩ := forms_of_parse hparse
    have hbody : Placed.body (ts.map (Placed.relocate move)) = Placed.body ts := by
      rw [Placed.body, Placed.body, Placed.map_token_relocate]
    rw [← hbody] at hforms
    exact hforms.parse_within hc
  | error error =>
    obtain ⟨reason, us, rest, rfl, hstops⟩ := exists_stopsAt hparse
    rw [hstops.parse_eq] at hparse
    obtain rfl := Except.error.inj hparse
    have hagain := hstops.again _ _ (Placed.map_token_relocate move us)
      (Placed.first_relocate move rest)
    rw [List.map_append, hagain, ← List.map_append, Reader.Refusal.toError_relocate hmove]
    rfl

/-- The expression that tokens, if there are any, form for a text. -/
def Expr.ofTokens : Except LexError (List Placed) → Except SyntaxError Expr
  | .error error => .error (.lex error)
  | .ok ts => (parse ts).mapError .parse

theorem Expr.ofText_eq_ofTokens (text : String) : ofText text = ofTokens (tokenize text) := by
  unfold ofText ofTokens
  cases tokenize text with
  | error error => rfl
  | ok ts =>
    simp only
    cases parse ts <;> rfl

/-- A text with the place of its error moved is read from its tokens with their places moved. -/
theorem Expr.ofText_relocate (hmove : move 0 = 0) (text : String) :
    (ofText text).mapError (SyntaxError.relocate move) =
      ofTokens (LexError.relocated move (List.map (Placed.relocate move)) (tokenize text)) := by
  rw [ofText_eq_ofTokens]
  cases tokenize text with
  | error error => rfl
  | ok ts =>
    change ((parse ts).mapError _).mapError _ = (parse (ts.map (Placed.relocate move))).mapError _
    rw [parse_relocate hmove]
    cases parse ts <;> rfl

/-- Texts that differ only in their blanks and in the case of the dice are the same expression, or
fail in the same way, with as many solid characters in front of the place. -/
theorem Expr.ofText_respaced {text text' : String} (h : Respaced text.toList text'.toList) :
    (ofText text').mapError (SyntaxError.relocate (solidBefore text'.toList)) =
      (ofText text).mapError (SyntaxError.relocate (solidBefore text.toList)) := by
  have hlength : (solid text'.toList).length = (solid text.toList).length := by
    rw [← List.length_map lowerDice, h.solid, List.length_map]
  have htokens := relocated_tokenize text rfl
  rw [← respaced_iff.mp h, ← hlength, ← relocated_tokenize text' rfl] at htokens
  rw [ofText_relocate (solidBefore_zero _), ofText_relocate (solidBefore_zero _), htokens]

/-- Both numbers at the end are written apart, behind blanks of one byte and of three. -/
theorem Expr.ofText_respaced_numbers :
    let text := "2D 6 +\u00A07 7"
    let text' := "2d6+7\u2003\n7"
    Respaced text.toList text'.toList ∧
      ofText text = .error (.parse ⟨.unexpected (.number 7) [.operator, .stop], 10⟩) ∧
      ofText text' = .error (.parse ⟨.unexpected (.number 7) [.operator, .stop], 9⟩) ∧
      (ofText text').mapError (SyntaxError.relocate (solidBefore text'.toList)) =
        (ofText text).mapError (SyntaxError.relocate (solidBefore text.toList)) := by
  intro text text'
  have h : Respaced text.toList text'.toList := by decide +kernel
  exact ⟨h, by decide +kernel, by decide +kernel, ofText_respaced h⟩

end Parsing

end DiceNotation
