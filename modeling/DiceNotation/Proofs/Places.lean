import DiceNotation.CommandLine.Report
import DiceNotation.Proofs.Scanning.Exact
import DiceNotation.Proofs.Viability

/-!
Where the errors of a text point. Each error points to a byte of the text at which a character
starts, or to the end of the text, and what it tells of is written there. So a report can always
cut the text in front of the place and look at the character behind it.
-/
namespace DiceNotation

open Text

/-- Whether an error tells of what is written in a text at its place. -/
inductive SyntaxError.PointsInto (text : String) : SyntaxError → Prop
  | foreign {before after : List Char} {c : Char} (h : text.toList = before ++ c :: after) :
    PointsInto text (.lex (.unexpectedChar (bytes before) c))
  | large {run : List Char} {position : Nat} (h : (Word.digits run).At text.toList position)
    (hlarge : 2147483647 < Nat.ofDigitChars 10 run 0) :
    PointsInto text (.lex (.numberTooLarge position))
  | unexpected {word : Word} {found : Token} {position : Nat} (expected : List Expected)
    (h : word.At text.toList position) (hmeans : word.Means found) :
    PointsInto text (.parse ⟨.unexpected found expected, position⟩)
  | unexpectedEnd (expected : List Expected) :
    PointsInto text (.parse ⟨.unexpected .stop expected, text.utf8ByteSize⟩)
  | deep {word : Word} {token : Token} {position : Nat} (h : word.At text.toList position)
    (hmeans : word.Means token) : PointsInto text (.parse ⟨.tooDeep, position⟩)
  | deepEnd : PointsInto text (.parse ⟨.tooDeep, text.utf8ByteSize⟩)

/-- Whether a text can be cut at a place: the characters `front` end there, and `rest` follows. -/
structure Text.CutsAt (text : String) (position : Nat) (front rest : List Char) : Prop where
  split : text.toList = front ++ rest
  place : position = bytes front

section Texts

variable {text : String} {front rest : List Char} {position : Nat}

theorem Text.CutsAt.isValid (h : CutsAt text position front rest) :
    String.Pos.Raw.IsValid text ⟨position⟩ := by
  obtain ⟨hsplit, rfl⟩ := h
  refine String.Pos.Raw.isValid_iff_exists_append.mpr ⟨.ofList front, .ofList rest, ?_, rfl⟩
  rw [← String.ofList_append, ← hsplit, String.ofList_toList]

theorem Text.CutsAt.le (h : CutsAt text position front rest) : position ≤ text.utf8ByteSize := by
  rw [← bytes_toList, h.split, h.place, bytes_append]
  exact Nat.le_add_right _ _

theorem Text.charAtByte?_append (front rest : List Char) :
    charAtByte? (front ++ rest) (bytes front) = rest.head? := by
  induction front with
  | nil => cases rest <;> rfl
  | cons c front ih =>
    obtain ⟨n, hn⟩ := Nat.exists_eq_add_one_of_ne_zero (Nat.ne_of_gt c.utf8Size_pos)
    have hsize : bytes (c :: front) = n + bytes front + 1 := by
      rw [bytes_cons, hn]
      omega
    rw [hsize, List.cons_append, charAtByte?, if_pos (by omega), ← hsize, bytes_cons,
      Nat.add_sub_cancel_left, ih]

/-- A report on an error marks the character behind the cut. -/
theorem CommandLine.Report.marked_of_cutsAt {error : SyntaxError}
    (h : CutsAt text error.position front rest) :
    marked text error = (bytes front, bytes front + bytes (rest.take 1)) := by
  have hplace : min error.position text.utf8ByteSize = bytes front := by
    rw [Nat.min_eq_left h.le, h.place]
  have hnext : charAtByte? text.toList (bytes front) = rest.head? := by
    rw [h.split, charAtByte?_append]
  simp only [marked, hplace, hnext]
  cases rest with
  | nil => rfl
  | cons c rest => simp only [List.head?_cons, List.take_succ_cons, List.take_zero, bytes_singleton]

end Texts

section Errors

variable {text : String} {error : SyntaxError} {ts : List Placed}

theorem Word.At.exists_cutsAt {position : Nat} {word : Word} (h : word.At text.toList position) :
    ∃ front rest, CutsAt text position front rest := by
  obtain ⟨before, spelled, after, hsplit, hplace, -⟩ := h
  exact ⟨before, spelled ++ after, hsplit, hplace⟩

theorem Text.exists_cutsAt_end (text : String) :
    ∃ front rest, CutsAt text text.utf8ByteSize front rest :=
  ⟨text.toList, [], (List.append_nil _).symm, (bytes_toList text).symm⟩

theorem SyntaxError.PointsInto.exists_cutsAt (h : PointsInto text error) :
    ∃ front rest, CutsAt text error.position front rest := by
  cases h with
  | foreign h => exact ⟨_, _, h, rfl⟩
  | large h => exact h.exists_cutsAt
  | unexpected expected h => exact h.exists_cutsAt
  | unexpectedEnd expected => exact exists_cutsAt_end text
  | deep h => exact h.exists_cutsAt
  | deepEnd => exact exists_cutsAt_end text

theorem SyntaxError.pointsInto_of_tokenize {error : LexError} (h : tokenize text = .error error) :
    PointsInto text (.lex error) := by
  by_cases hforeign : ∃ c ∈ text.toList, Foreign c
  · obtain ⟨before, c, after, hsplit, -, -, heq⟩ := tokenize_of_foreign hforeign
    obtain rfl := Except.error.inj (heq.symm.trans h)
    exact .foreign hsplit
  · have hnative : ∀ c ∈ text.toList, ¬Foreign c := fun c hc hc' => hforeign ⟨c, hc, hc'⟩
    by_cases hlarge : ∃ run place, (Word.digits run).At text.toList place ∧
        2147483647 < Nat.ofDigitChars 10 run 0
    · obtain ⟨run, place, hat, hlarge, -, heq⟩ := tokenize_of_large hnative hlarge
      obtain rfl := Except.error.inj (heq.symm.trans h)
      exact .large hat hlarge
    · obtain ⟨ts, heq, -⟩ := tokenize_of_fits hnative fun run place hat =>
        Nat.le_of_not_lt fun hlt => hlarge ⟨run, place, hat, hlt⟩
      rw [heq] at h
      cases h

/-- A list of tokens with a stop is refused at one of its tokens. -/
theorem Expr.exists_mem_of_parse {error : ParseError} (hstop : .stop ∈ ts.map Placed.token)
    (h : parse ts = .error error) :
    ∃ t ∈ ts, error = ⟨.tooDeep, t.position⟩ ∨
      ∃ expected, error = ⟨.unexpected t.token expected, t.position⟩ := by
  obtain ⟨reason, us, rest, rfl, hstops⟩ := exists_stopsAt h
  rw [hstops.parse_eq] at h
  obtain rfl := Except.error.inj h
  cases rest with
  | nil =>
    rw [List.append_nil] at hstop
    exact absurd hstop hstops.viable.stop_notMem
  | cons t rest =>
    refine ⟨t, List.mem_append_cons_self, ?_⟩
    cases reason with
    | unexpected expected => exact .inr ⟨expected, rfl⟩
    | tooDeep => exact .inl rfl

theorem SyntaxError.pointsInto_of_parse {error : ParseError} (htokenize : tokenize text = .ok ts)
    (h : Expr.parse ts = .error error) : PointsInto text (.parse error) := by
  obtain ⟨us, rfl, -, hus⟩ := exists_of_tokenize_eq_ok htokenize
  obtain ⟨t, ht, herror⟩ := Expr.exists_mem_of_parse (by simp) h
  rcases List.mem_append.mp ht with hword | hend
  · obtain ⟨word, hat, hmeans⟩ := (hus t).mp hword
    rcases herror with rfl | ⟨expected, rfl⟩
    · exact .deep hat hmeans
    · exact .unexpected expected hat hmeans
  · obtain rfl := List.mem_singleton.mp hend
    rcases herror with rfl | ⟨expected, rfl⟩
    · exact .deepEnd
    · exact .unexpectedEnd expected

theorem SyntaxError.pointsInto_of_ofText (h : Expr.ofText text = .error error) :
    PointsInto text error := by
  unfold Expr.ofText at h
  cases htokenize : tokenize text with
  | error lexError =>
    rw [htokenize] at h
    obtain rfl := Except.error.inj h
    exact pointsInto_of_tokenize htokenize
  | ok ts =>
    simp only [htokenize] at h
    cases hparse : Expr.parse ts with
    | error parseError =>
      rw [hparse] at h
      obtain rfl := Except.error.inj h
      exact pointsInto_of_parse htokenize hparse
    | ok e =>
      rw [hparse] at h
      cases h

/-- The error of a text points to what it tells of, at a place where the text can be cut. There a
report marks the character that follows, or nothing at the end of the text. -/
theorem Expr.ofText_error_pointsInto (h : ofText text = .error error) :
    error.PointsInto text ∧ error.position ≤ text.utf8ByteSize ∧
      String.Pos.Raw.IsValid text ⟨error.position⟩ ∧
      ∃ front rest, CutsAt text error.position front rest ∧
        CommandLine.Report.marked text error =
          (bytes front, bytes front + bytes (rest.take 1)) := by
  have hpoints := SyntaxError.pointsInto_of_ofText h
  obtain ⟨front, rest, hcuts⟩ := hpoints.exists_cutsAt
  exact ⟨hpoints, hcuts.le, hcuts.isValid, front, rest, hcuts,
    CommandLine.Report.marked_of_cutsAt hcuts⟩

/-- Behind a character of three bytes the place of an error is no count of characters. -/
theorem Expr.ofText_error_pointsInto_behind_wide :
    ofText "(2\u2003* )" = .error (.parse ⟨.unexpected .rparen Expected.expression, 7⟩) ∧
      (SyntaxError.parse ⟨.unexpected .rparen Expected.expression, 7⟩).PointsInto "(2\u2003* )" :=
  have herror : ofText "(2\u2003* )" =
      .error (.parse ⟨.unexpected .rparen Expected.expression, 7⟩) := by decide +kernel
  ⟨herror, (ofText_error_pointsInto herror).1⟩

end Errors

end DiceNotation
