import DiceNotation.Proofs.Scanning.Words
import Mathlib.Data.List.Forall2

/-!
Which tokens a text has. Every word that stands in a text is one token at its place, as long as no
character is foreign and no number too large; else the first foreign character is told, or the first
number that is too large if there is none. Tokens that are written with any blanks around them are
read as they were written.
-/
namespace DiceNotation

open Text

theorem exists_of_forall₂ {α β : Type} {R : α → β → Prop} {xs : List α} {ys : List β}
    (h : List.Forall₂ R xs ys) {x : α} (hx : x ∈ xs) : ∃ y ∈ ys, R x y := by
  induction h with
  | nil => cases hx
  | cons hfirst hothers ih =>
    rcases List.mem_cons.mp hx with rfl | hx
    · exact ⟨_, List.mem_cons_self .., hfirst⟩
    · obtain ⟨y, hy, hxy⟩ := ih hx
      exact ⟨y, List.mem_cons_of_mem _ hy, hxy⟩

theorem Token.unsigned_number {v : Value} {n : Nat} (h : v.toInt = n) :
    (number v).Unsigned := by
  intro w hw
  obtain rfl := Token.number.inj hw
  omega

theorem Token.Symbol.unsigned {t : Token} {c : Char} (h : Symbol t c) : t.Unsigned := by
  intro v hv
  subst hv
  cases h

theorem Token.Symbol.ne_stop {t : Token} {c : Char} (h : Symbol t c) : t ≠ .stop := by
  rintro rfl
  cases h

namespace Word

/-- What a word is read as. -/
inductive Means : Word → Token → Prop
  | number {run : List Char} {v : Value} (h : v.toInt = Nat.ofDigitChars 10 run 0) :
    Means (.digits run) (.number v)
  | mark (t : Token) : Means (.mark t) t

theorem Means.unsigned {word : Word} {t : Token} (h : word.Means t)
    {before spelled after : List Char} (hstands : word.Stands before spelled after) :
    t.Unsigned := by
  cases h with
  | number hv => exact Token.unsigned_number hv
  | mark =>
    cases hstands with
    | mark h => exact h.unsigned

variable {place : Nat} {word : Word} {run : List Char} {p : Placed} {words : List (Nat × Word)}
  {ts : List Placed} {error : LexError}

theorem token_digits_of_fits {v : Value} (h : v.toInt = Nat.ofDigitChars 10 run 0) :
    (digits run).token place = .ok ⟨.number v, place⟩ := by
  simp only [token, Value.ofInt?_eq_some_iff.mpr h]

theorem token_digits_of_large (h : 2147483647 < Nat.ofDigitChars 10 run 0) :
    (digits run).token place = .error (.numberTooLarge place) := by
  have hnone : Value.ofInt? (Nat.ofDigitChars 10 run 0) = none :=
    Value.ofInt?_eq_none_iff.mpr (.inr (by omega))
  simp only [token, hnone]

theorem fits_or_large (run : List Char) :
    (∃ v : Value, v.toInt = Nat.ofDigitChars 10 run 0) ∨
      2147483647 < Nat.ofDigitChars 10 run 0 := by
  cases hv : Value.ofInt? (Nat.ofDigitChars 10 run 0) with
  | some v => exact .inl ⟨v, Value.ofInt?_eq_some_iff.mp hv⟩
  | none =>
    have hlarge := Value.ofInt?_eq_none_iff.mp hv
    exact .inr (by omega)

theorem token_eq_ok_iff : word.token place = .ok p ↔ p.position = place ∧ word.Means p.token := by
  obtain ⟨t, position⟩ := p
  constructor
  · intro h
    cases word with
    | digits run =>
      rcases fits_or_large run with ⟨v, hv⟩ | hlarge
      · rw [token_digits_of_fits hv] at h
        obtain ⟨rfl, rfl⟩ := Placed.mk.inj (Except.ok.inj h)
        exact ⟨rfl, .number hv⟩
      · rw [token_digits_of_large hlarge] at h
        cases h
    | mark t' =>
      obtain ⟨rfl, rfl⟩ := Placed.mk.inj (Except.ok.inj h)
      exact ⟨rfl, .mark t'⟩
  · rintro ⟨rfl, hmeans⟩
    cases hmeans with
    | number hv => exact token_digits_of_fits hv
    | mark => rfl

theorem token_eq_error_iff :
    word.token place = .error error ↔
      ∃ run, word = .digits run ∧ 2147483647 < Nat.ofDigitChars 10 run 0 ∧
        error = .numberTooLarge place := by
  constructor
  · intro h
    cases word with
    | digits run =>
      rcases fits_or_large run with ⟨v, hv⟩ | hlarge
      · rw [token_digits_of_fits hv] at h
        cases h
      · rw [token_digits_of_large hlarge] at h
        exact ⟨run, rfl, hlarge, (Except.error.inj h).symm⟩
    | mark t => cases h
  · rintro ⟨run, rfl, hlarge, rfl⟩
    exact token_digits_of_large hlarge

/-- Words are read one by one. -/
theorem forall₂_of_tokens (h : tokens words = .ok ts) :
    List.Forall₂ (fun word p => word.2.token word.1 = .ok p) words ts := by
  induction words generalizing ts with
  | nil =>
    obtain rfl : [] = ts := Except.ok.inj h
    exact .nil
  | cons word words ih =>
    rw [tokens, List.mapM_cons] at h
    obtain ⟨p, hp, h⟩ := exists_of_bind_eq_ok h
    obtain ⟨ps, hps, h⟩ := exists_of_bind_eq_ok h
    obtain rfl : p :: ps = ts := Except.ok.inj h
    exact .cons hp (ih hps)

theorem mem_of_tokens (h : tokens words = .ok ts) :
    p ∈ ts ↔ ∃ word, (p.position, word) ∈ words ∧ word.Means p.token := by
  have hall := forall₂_of_tokens h
  constructor
  · intro hp
    obtain ⟨⟨place, word⟩, hmem, htoken⟩ := exists_of_forall₂ hall.flip hp
    obtain ⟨rfl, hmeans⟩ := token_eq_ok_iff.mp htoken
    exact ⟨word, hmem, hmeans⟩
  · rintro ⟨word, hmem, hmeans⟩
    obtain ⟨q, hq, htoken⟩ := exists_of_forall₂ hall hmem
    rw [token_eq_ok_iff.mpr ⟨rfl, hmeans⟩] at htoken
    rwa [Except.ok.inj htoken]

theorem map_position_of_tokens (h : tokens words = .ok ts) :
    ts.map Placed.position = words.map Prod.fst := by
  have hall := forall₂_of_tokens h
  clear h
  induction hall with
  | nil => rfl
  | cons hword hothers ih =>
    rw [List.map_cons, List.map_cons, ih, (token_eq_ok_iff.mp hword).1]

/-- Words that are not all read are read up to the first that is no token. -/
theorem exists_of_tokens_eq_error (h : tokens words = .error error) :
    ∃ front place word back, words = front ++ (place, word) :: back ∧
      word.token place = .error error ∧ ∀ w ∈ front, ∃ p, w.2.token w.1 = .ok p := by
  induction words with
  | nil => cases h
  | cons word words ih =>
    cases hword : word.2.token word.1 with
    | error error' =>
      rw [tokens, List.mapM_cons, hword] at h
      obtain rfl : error' = error := Except.error.inj h
      exact ⟨[], word.1, word.2, words, rfl, hword, List.forall_mem_nil _⟩
    | ok p =>
      rw [tokens_cons hword] at h
      obtain ⟨front, place, w, back, rfl, hw, hfront⟩ := ih (eq_error_of_map_eq_error h)
      exact ⟨word :: front, place, w, back, rfl, hw, List.forall_mem_cons.mpr ⟨⟨p, hword⟩, hfront⟩⟩

end Word

section Text

variable {text : String}

theorem border_start (cs : List Char) : Word.Border [] cs := .inl (by simp)

/-- The tokens of a text are the words that stand in it. -/
theorem exists_of_tokenize_eq_ok {ts : List Placed} (h : tokenize text = .ok ts) :
    ∃ us, ts = us ++ [⟨.stop, text.utf8ByteSize⟩] ∧
      us.Pairwise (fun p q => p.position < q.position) ∧
      ∀ p, p ∈ us ↔ ∃ word : Word, word.At text.toList p.position ∧ word.Means p.token := by
  rw [tokenize_eq_scan] at h
  obtain ⟨us, hscan, rfl⟩ := exists_of_map_eq_ok h
  obtain ⟨words, hwords, htokens⟩ := exists_of_bind_eq_ok hscan
  have hcuts := Word.cuts_of_ofChars hwords bytes_nil.symm (border_start _)
  refine ⟨us, rfl, ?_, ?_⟩
  · have hsorted := List.pairwise_map.mpr hcuts.sorted
    rw [← Word.map_position_of_tokens htokens] at hsorted
    exact List.pairwise_map.mp hsorted
  · intro p
    rw [Word.mem_of_tokens htokens]
    simp only [hcuts.mem_iff, Word.behind_nil_iff_at]

theorem tokenize_of_foreign (h : ∃ c ∈ text.toList, Foreign c) :
    ∃ before c after, text.toList = before ++ c :: after ∧ Foreign c ∧
      (∀ d ∈ before, ¬Foreign d) ∧ tokenize text = .error (.unexpectedChar (bytes before) c) := by
  cases hwords : Word.ofChars 0 text.toList with
  | ok words =>
    have hcuts := Word.cuts_of_ofChars hwords bytes_nil.symm (border_start _)
    obtain ⟨c, hc, hforeign⟩ := h
    exact absurd hforeign (hcuts.native c hc)
  | error error =>
    obtain ⟨before, c, after, hsplit, hc, hbefore, rfl⟩ := Word.tellsForeign_of_ofChars hwords
    rw [Nat.zero_add] at hwords
    refine ⟨before, c, after, hsplit, hc, hbefore, ?_⟩
    rw [tokenize, hwords]
    rfl

/-- A text without foreign characters is cut into the words that stand in it. -/
theorem exists_cuts (h : ∀ c ∈ text.toList, ¬Foreign c) :
    ∃ words, Word.Cuts [] text.toList words ∧
      tokenize text = (· ++ [⟨.stop, text.utf8ByteSize⟩]) <$> Word.tokens words := by
  cases hwords : Word.ofChars 0 text.toList with
  | ok words =>
    refine ⟨words, Word.cuts_of_ofChars hwords bytes_nil.symm (border_start _), ?_⟩
    rw [tokenize_eq_scan, scan, hwords]
    rfl
  | error error =>
    obtain ⟨before, c, after, hsplit, hc, -⟩ := Word.tellsForeign_of_ofChars hwords
    refine absurd hc (h c ?_)
    rw [hsplit]
    exact List.mem_append_cons_self

/-- The first of the numbers that are too large is told. -/
theorem tokenize_of_large (hnative : ∀ c ∈ text.toList, ¬Foreign c)
    (h : ∃ run place, (Word.digits run).At text.toList place ∧
      2147483647 < Nat.ofDigitChars 10 run 0) :
    ∃ run place, (Word.digits run).At text.toList place ∧
      2147483647 < Nat.ofDigitChars 10 run 0 ∧
      (∀ run' place', (Word.digits run').At text.toList place' →
        2147483647 < Nat.ofDigitChars 10 run' 0 → place ≤ place') ∧
      tokenize text = .error (.numberTooLarge place) := by
  obtain ⟨words, hcuts, htokenize⟩ := exists_cuts hnative
  cases htokens : Word.tokens words with
  | ok ts =>
    obtain ⟨run, place, hat, hlarge⟩ := h
    have hmem := (hcuts.mem_iff place _).mpr hat
    obtain ⟨p, -, hp⟩ := exists_of_forall₂ (Word.forall₂_of_tokens htokens) hmem
    rw [Word.token_digits_of_large hlarge] at hp
    cases hp
  | error error =>
    obtain ⟨front, place, word, back, rfl, herror, hfront⟩ :=
      Word.exists_of_tokens_eq_error htokens
    obtain ⟨run, rfl, hlarge, rfl⟩ := Word.token_eq_error_iff.mp herror
    refine ⟨run, place, ?_, hlarge, ?_, ?_⟩
    · exact (hcuts.mem_iff place _).mp List.mem_append_cons_self
    · intro run' place' hat' hlarge'
      rcases List.mem_append.mp ((hcuts.mem_iff place' _).mpr hat') with hmem | hmem
      · obtain ⟨p, hp⟩ := hfront _ hmem
        rw [Word.token_digits_of_large hlarge'] at hp
        cases hp
      · rcases List.mem_cons.mp hmem with heq | hback
        · exact Nat.le_of_eq (Prod.mk.inj heq).1.symm
        · have hsorted := List.pairwise_cons.mp (List.pairwise_append.mp hcuts.sorted).2.1
          exact Nat.le_of_lt (hsorted.1 _ hback)
    · rw [htokenize, htokens]
      rfl

theorem tokenize_of_fits (hnative : ∀ c ∈ text.toList, ¬Foreign c)
    (h : ∀ run place, (Word.digits run).At text.toList place →
      Nat.ofDigitChars 10 run 0 ≤ 2147483647) :
    ∃ ts, tokenize text = .ok (ts ++ [⟨.stop, text.utf8ByteSize⟩]) ∧
      ts.Pairwise (fun p q => p.position < q.position) ∧
      ∀ p, p ∈ ts ↔ ∃ word : Word, word.At text.toList p.position ∧ word.Means p.token := by
  obtain ⟨words, hcuts, htokenize⟩ := exists_cuts hnative
  cases htokens : Word.tokens words with
  | ok ts =>
    rw [htokens] at htokenize
    obtain ⟨us, heq, hus⟩ := exists_of_tokenize_eq_ok htokenize
    exact ⟨us, heq ▸ htokenize, hus⟩
  | error error =>
    obtain ⟨front, place, word, back, rfl, herror, -⟩ := Word.exists_of_tokens_eq_error htokens
    obtain ⟨run, rfl, hlarge, -⟩ := Word.token_eq_error_iff.mp herror
    have hfits := h run place ((hcuts.mem_iff place _).mp List.mem_append_cons_self)
    omega

/-- A sign is a token of its own, so the numbers of a text have none. -/
theorem unsigned_of_tokenize {ts : List Placed} (h : tokenize text = .ok ts) :
    ∀ t ∈ ts, t.token.Unsigned := by
  obtain ⟨us, rfl, -, hus⟩ := exists_of_tokenize_eq_ok h
  refine List.forall_mem_append.mpr ⟨?_, List.forall_mem_singleton.mpr nofun⟩
  intro t ht
  obtain ⟨word, ⟨before, spelled, after, -, -, hstands⟩, hmeans⟩ := (hus t).mp ht
  exact hmeans.unsigned hstands

end Text

/-- The ways to write a token: a symbol, or digits for a number. -/
inductive Token.Spelled : Token → List Char → Prop
  | number {v : Value} {run : List Char} (hne : run ≠ []) (hrun : ∀ d ∈ run, d.isDigit = true)
    (hv : v.toInt = Nat.ofDigitChars 10 run 0) : Spelled (.number v) run
  | symbol {t : Token} {c : Char} (h : Symbol t c) : Spelled t [c]

/-- A token that is written behind a gap. -/
structure Piece where
  gap : List Char
  token : Token
  spelling : List Char
  blank : ∀ c ∈ gap, isBlank c = true
  spelled : token.Spelled spelling

namespace Piece

def chars (p : Piece) : List Char := p.gap ++ p.spelling

/-- The tokens of pieces that are written from byte `position` on, each where it is written. -/
def placed (position : Nat) : List Piece → List Placed
  | [] => []
  | p :: ps =>
    ⟨p.token, position + bytes p.gap⟩ :: placed (position + bytes p.gap + bytes p.spelling) ps

/-- Whether the pieces are no two numbers with nothing between them. -/
def Apart (p q : Piece) : Prop := ∀ v w, p.token = .number v → q.token = .number w → q.gap ≠ []

end Piece

section Pieces

variable {position : Nat} {p : Piece} {pieces : List Piece} {last : List Char}

theorem scan_gap {gap cs : List Char} (h : ∀ c ∈ gap, isBlank c = true) :
    scan position (gap ++ cs) = scan (position + bytes gap) cs := by
  induction gap generalizing position with
  | nil => rfl
  | cons c gap ih =>
    obtain ⟨hc, hgap⟩ := List.forall_mem_cons.mp h
    rw [List.cons_append, scan_blank hc, ih hgap, Nat.add_assoc, ← bytes_singleton, ← bytes_append,
      List.singleton_append]

theorem scan_spelled {t : Token} {spelling cs : List Char} (h : t.Spelled spelling)
    (hcs : ∀ v, t = .number v → ∀ d ∈ cs.head?, d.isDigit = false) :
    scan position (spelling ++ cs) =
      (⟨t, position⟩ :: ·) <$> scan (position + bytes spelling) cs := by
  cases h with
  | number hne hrun hv => rw [scan_digits hrun hne (hcs _ rfl) rfl hv, bytes_of_isDigit hrun]
  | symbol h =>
    have hchar := Token.ofChar?_eq_some_iff.mpr h
    rw [List.singleton_append, scan_mark hchar, bytes_singleton,
      (Token.blank_digit_of_ofChar? hchar).2.2]

/-- What is behind a number does not go on with a digit. -/
theorem head_behind_number (hapart : (p :: pieces).IsChain Piece.Apart)
    (hlast : ∀ c ∈ last, isBlank c = true) {v : Value} (hv : p.token = .number v) :
    ∀ d ∈ (pieces.flatMap Piece.chars ++ last).head?, d.isDigit = false := by
  cases pieces with
  | nil => exact fun d hd => isDigit_of_isBlank (hlast d (List.mem_of_mem_head? hd))
  | cons q pieces =>
    have hgap := (List.isChain_cons_cons.mp hapart).1 v
    obtain ⟨gap, t, spelling, hblank, hspelled⟩ := q
    rw [List.flatMap_cons, Piece.chars, List.append_assoc, List.append_assoc]
    cases gap with
    | cons c gap =>
      intro d hd
      obtain rfl := Option.some.inj hd
      exact isDigit_of_isBlank (hblank c (List.mem_cons_self ..))
    | nil =>
      cases hspelled with
      | @number w => exact absurd rfl (hgap w hv rfl)
      | symbol h =>
        intro d hd
        obtain rfl := Option.some.inj hd
        exact h.isDigit_eq_false

/-- Pieces are read as they are written. -/
theorem scan_pieces (hapart : pieces.IsChain Piece.Apart)
    (hlast : ∀ c ∈ last, isBlank c = true) :
    scan position (pieces.flatMap Piece.chars ++ last) = .ok (Piece.placed position pieces) := by
  induction pieces generalizing position with
  | nil =>
    rw [List.flatMap_nil, List.nil_append, ← List.append_nil last, scan_gap hlast]
    exact scan_nil
  | cons p pieces ih =>
    rw [List.flatMap_cons, Piece.chars, List.append_assoc, List.append_assoc, scan_gap p.blank,
      scan_spelled p.spelled fun v hv => head_behind_number hapart hlast hv,
      ih hapart.of_cons]
    rfl

theorem tokenize_pieces (hapart : pieces.IsChain Piece.Apart)
    (hlast : ∀ c ∈ last, isBlank c = true) :
    tokenize (String.ofList (pieces.flatMap Piece.chars ++ last)) =
      .ok (Piece.placed 0 pieces ++ [⟨.stop, bytes (pieces.flatMap Piece.chars ++ last)⟩]) := by
  rw [tokenize_eq_scan, String.toList_ofList, scan_pieces hapart hlast]
  rfl

end Pieces

/-- All tokens can be written but the stop and the numbers below zero. -/
theorem Token.exists_spelled_iff (t : Token) :
    (∃ spelling, t.Spelled spelling) ↔ t ≠ .stop ∧ t.Unsigned := by
  constructor
  · rintro ⟨spelling, h⟩
    cases h with
    | number hne hrun hv => exact ⟨nofun, unsigned_number hv⟩
    | symbol h => exact ⟨h.ne_stop, h.unsigned⟩
  · rintro ⟨hstop, hunsigned⟩
    cases t with
    | number v =>
      have hv := hunsigned v rfl
      refine ⟨Nat.toDigits 10 v.toInt.toNat, .number Nat.toDigits_ne_nil ?_ ?_⟩
      · exact fun d hd => Nat.isDigit_of_mem_toDigits (by decide) (by decide) hd
      · rw [Nat.ofDigitChars_ten_toDigits]
        omega
    | dice => exact ⟨['d'], .symbol .lowerDice⟩
    | plus => exact ⟨['+'], .symbol .plus⟩
    | minus => exact ⟨['-'], .symbol .minus⟩
    | star => exact ⟨['*'], .symbol .star⟩
    | slash => exact ⟨['/'], .symbol .slash⟩
    | lparen => exact ⟨['('], .symbol .lparen⟩
    | rparen => exact ⟨[')'], .symbol .rparen⟩
    | stop => exact absurd rfl hstop

/-- Reading a text as tokens is exact. A text with foreign characters fails at the first of them.
Else a text with numbers that are too large fails at the first of these. Else its tokens are the
words that stand in it, in order and each at its place, with the stop at the end. And tokens that
are written as pieces of a text are read as they are written, whatever they are but stops and
numbers below zero. -/
theorem tokenize_exact (text : String) (pieces : List Piece) (last : List Char) :
    ((∃ c ∈ text.toList, Foreign c) →
      ∃ before c after, text.toList = before ++ c :: after ∧ Foreign c ∧
        (∀ d ∈ before, ¬Foreign d) ∧
        tokenize text = .error (.unexpectedChar (bytes before) c)) ∧
      ((∀ c ∈ text.toList, ¬Foreign c) →
        ((∃ run place, (Word.digits run).At text.toList place ∧
            2147483647 < Nat.ofDigitChars 10 run 0) →
          ∃ run place, (Word.digits run).At text.toList place ∧
            2147483647 < Nat.ofDigitChars 10 run 0 ∧
            (∀ run' place', (Word.digits run').At text.toList place' →
              2147483647 < Nat.ofDigitChars 10 run' 0 → place ≤ place') ∧
            tokenize text = .error (.numberTooLarge place)) ∧
          ((∀ run place, (Word.digits run).At text.toList place →
              Nat.ofDigitChars 10 run 0 ≤ 2147483647) →
            ∃ ts, tokenize text = .ok (ts ++ [⟨.stop, text.utf8ByteSize⟩]) ∧
              ts.Pairwise (fun p q => p.position < q.position) ∧
              ∀ p, p ∈ ts ↔
                ∃ word : Word, word.At text.toList p.position ∧ word.Means p.token)) ∧
      (pieces.IsChain Piece.Apart → (∀ c ∈ last, isBlank c = true) →
        tokenize (String.ofList (pieces.flatMap Piece.chars ++ last)) =
          .ok (Piece.placed 0 pieces ++ [⟨.stop, bytes (pieces.flatMap Piece.chars ++ last)⟩])) ∧
      ∀ t : Token, (∃ spelling, t.Spelled spelling) ↔ t ≠ .stop ∧ t.Unsigned :=
  ⟨tokenize_of_foreign, fun hnative => ⟨tokenize_of_large hnative, tokenize_of_fits hnative⟩,
    tokenize_pieces, Token.exists_spelled_iff⟩

end DiceNotation
