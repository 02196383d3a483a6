import DiceNotation.Proofs.Scanning
import Mathlib.Data.List.TakeWhile

/-!
Where words stand in a text, said without reading it: a symbol wherever its character is, and a run
of digits where there is no digit on either side. Cutting a text into words finds all of these and
nothing else, unless some character is foreign to the notation; then it fails at the first.
-/
namespace DiceNotation

/-- The characters that are tokens by themselves. -/
inductive Token.Symbol : Token → Char → Prop
  | lowerDice : Symbol .dice 'd'
  | upperDice : Symbol .dice 'D'
  | plus : Symbol .plus '+'
  | minus : Symbol .minus '-'
  | star : Symbol .star '*'
  | slash : Symbol .slash '/'
  | lparen : Symbol .lparen '('
  | rparen : Symbol .rparen ')'

theorem Token.ofChar?_eq_some_iff {c : Char} {t : Token} : ofChar? c = some t ↔ Symbol t c := by
  constructor
  · intro h
    unfold ofChar? at h
    split at h <;> cases h <;> constructor
  · intro h
    cases h <;> rfl

theorem Token.ofChar?_eq_none_iff {c : Char} : ofChar? c = none ↔ ∀ t, ¬Symbol t c := by
  simp only [Option.eq_none_iff_forall_ne_some, ne_eq, ofChar?_eq_some_iff]

theorem Token.Symbol.isDigit_eq_false {t : Token} {c : Char} (h : Symbol t c) :
    c.isDigit = false := (blank_digit_of_ofChar? (ofChar?_eq_some_iff.mpr h)).2.1

namespace Text

/-- The number of bytes that characters take up. -/
def bytes (cs : List Char) : Nat := (String.ofList cs).utf8ByteSize

theorem bytes_nil : bytes [] = 0 := rfl

theorem bytes_append (cs cs' : List Char) : bytes (cs ++ cs') = bytes cs + bytes cs' := by
  simp only [bytes, String.ofList_append, String.utf8ByteSize_append]

theorem bytes_singleton (c : Char) : bytes [c] = c.utf8Size := String.utf8ByteSize_singleton

theorem bytes_cons (c : Char) (cs : List Char) : bytes (c :: cs) = c.utf8Size + bytes cs := by
  rw [← List.singleton_append, bytes_append, bytes_singleton]

theorem bytes_toList (text : String) : bytes text.toList = text.utf8ByteSize := by
  rw [bytes, String.ofList_toList]

theorem utf8Size_of_isDigit {c : Char} (h : c.isDigit = true) : c.utf8Size = 1 := by
  simp only [Char.isDigit, Bool.and_eq_true, decide_eq_true_eq] at h
  apply Char.utf8Size_eq_one_iff.mpr
  exact UInt32.le_trans h.2 (by decide)

theorem bytes_of_isDigit {run : List Char} (h : ∀ d ∈ run, d.isDigit = true) :
    bytes run = run.length := by
  induction run with
  | nil => rfl
  | cons d run ih =>
    obtain ⟨hd, hrun⟩ := List.forall_mem_cons.mp h
    rw [← List.singleton_append, bytes_append, bytes_singleton, utf8Size_of_isDigit hd, ih hrun,
      List.length_append, List.length_singleton]

/-- Whether a character belongs to no text of the notation. -/
def Foreign (c : Char) : Prop := isBlank c = false ∧ c.isDigit = false ∧ ∀ t, ¬Token.Symbol t c

variable {c : Char}

theorem not_foreign_of_isBlank (h : isBlank c = true) : ¬Foreign c := by
  rintro ⟨hblank, -⟩
  rw [h] at hblank
  cases hblank

theorem not_foreign_of_isDigit (h : c.isDigit = true) : ¬Foreign c := by
  rintro ⟨-, hdigit, -⟩
  rw [h] at hdigit
  cases hdigit

theorem not_foreign_of_symbol {t : Token} (h : Token.Symbol t c) : ¬Foreign c :=
  fun hforeign => hforeign.2.2 t h

/-- A run of digits with no digit in front of it or behind it. -/
structure LongestRun (before run after : List Char) : Prop where
  ne_nil : run ≠ []
  digits : ∀ d ∈ run, d.isDigit = true
  left : ∀ d ∈ before.getLast?, d.isDigit = false
  right : ∀ d ∈ after.head?, d.isDigit = false

end Text

open Text

namespace Word

/-- Whether a word is written as `spelled` between what is before and what is after it. -/
inductive Stands : Word → List Char → List Char → List Char → Prop
  | digits {before run after : List Char} (h : LongestRun before run after) :
    Stands (.digits run) before run after
  | mark {t : Token} {before after : List Char} {c : Char} (h : Token.Symbol t c) :
    Stands (.mark t) before [c] after

/-- Whether a word stands at a byte of a text. -/
def At (text : List Char) (place : Nat) (word : Word) : Prop :=
  ∃ before spelled after, text = before ++ (spelled ++ after) ∧ place = bytes before ∧
    word.Stands before spelled after

/-- Whether a word stands at a byte of the text `front ++ cs` that is behind `front`. -/
def Behind (front cs : List Char) (place : Nat) (word : Word) : Prop :=
  ∃ before spelled after, cs = before ++ (spelled ++ after) ∧ place = bytes (front ++ before) ∧
    word.Stands (front ++ before) spelled after

variable {front cs run : List Char} {c : Char} {t : Token} {place : Nat} {word : Word}

theorem behind_nil_iff_at : Behind [] cs place word ↔ At cs place word := Iff.rfl

theorem Stands.exists_cons {before spelled after : List Char}
    (h : word.Stands before spelled after) :
    ∃ c others, spelled = c :: others ∧ (c.isDigit = true ∨ ∃ t, Token.Symbol t c) := by
  cases h with
  | digits h =>
    obtain ⟨d, others, rfl⟩ := List.exists_cons_of_ne_nil h.ne_nil
    exact ⟨d, others, rfl, .inl (h.digits d (List.mem_cons_self ..))⟩
  | @mark t _ _ c h => exact ⟨c, [], rfl, .inr ⟨t, h⟩⟩

/-- Whether the characters begin with a word when `front` is before them. -/
def Begins (front cs : List Char) (word : Word) : Prop :=
  ∃ spelled after, cs = spelled ++ after ∧ word.Stands front spelled after

theorem not_behind_nil : ¬Behind front [] place word := by
  rintro ⟨before, spelled, after, heq, -, h⟩
  obtain ⟨c, others, rfl, -⟩ := h.exists_cons
  simp at heq

/-- A word begins with the next character or stands behind it. -/
theorem behind_cons_iff :
    Behind front (c :: cs) place word ↔
      (place = bytes front ∧ Begins front (c :: cs) word) ∨
        Behind (front ++ [c]) cs place word := by
  constructor
  · rintro ⟨before, spelled, after, heq, hplace, h⟩
    cases before with
    | nil =>
      rw [List.append_nil] at hplace h
      exact .inl ⟨hplace, spelled, after, heq, h⟩
    | cons b before =>
      obtain ⟨rfl, rfl⟩ := List.cons.inj heq
      rw [List.append_cons] at hplace h
      exact .inr ⟨before, spelled, after, rfl, hplace, h⟩
  · rintro (⟨hplace, spelled, after, heq, h⟩ | ⟨before, spelled, after, rfl, hplace, h⟩)
    · rw [← List.append_nil front] at hplace h
      exact ⟨[], spelled, after, heq, hplace, h⟩
    · rw [← List.append_cons] at hplace h
      exact ⟨c :: before, spelled, after, rfl, hplace, h⟩

/-- The first character of a word tells a run of digits from a symbol. -/
theorem Begins.cons_cases (h : Begins front (c :: cs) word) :
    (c.isDigit = true ∧ ∃ run after, c :: cs = run ++ after ∧ LongestRun front run after ∧
      word = .digits run) ∨ ∃ t, Token.Symbol t c ∧ word = .mark t := by
  obtain ⟨spelled, after, heq, hstands⟩ := h
  cases hstands with
  | digits h =>
    obtain ⟨d, others, rfl⟩ := List.exists_cons_of_ne_nil h.ne_nil
    obtain ⟨rfl, rfl⟩ := List.cons.inj heq
    exact .inl ⟨h.digits c (List.mem_cons_self ..), _, _, rfl, h, rfl⟩
  | @mark t _ _ d h =>
    obtain ⟨rfl, rfl⟩ := List.cons.inj heq
    exact .inr ⟨t, h, rfl⟩

theorem not_begins_blank (h : isBlank c = true) : ¬Begins front (c :: cs) word := by
  intro hword
  rcases hword.cons_cases with ⟨hdigit, -⟩ | ⟨t, ht, -⟩
  · rw [isBlank_of_isDigit hdigit] at h
    cases h
  · rw [(Token.blank_digit_of_ofChar? (Token.ofChar?_eq_some_iff.mpr ht)).1] at h
    cases h

theorem begins_mark_iff (h : Token.Symbol t c) :
    Begins front (c :: cs) word ↔ word = .mark t := by
  constructor
  · intro hword
    rcases hword.cons_cases with ⟨hdigit, -⟩ | ⟨t', ht', rfl⟩
    · rw [h.isDigit_eq_false] at hdigit
      cases hdigit
    · rw [← Token.ofChar?_eq_some_iff] at h ht'
      rw [Option.some.inj (ht'.symm.trans h)]
  · rintro rfl
    exact ⟨[c], cs, rfl, .mark h⟩

theorem begins_digits_iff (h : LongestRun front run cs) :
    Begins front (run ++ cs) word ↔ word = .digits run := by
  constructor
  · intro hword
    obtain ⟨d, others, rfl⟩ := List.exists_cons_of_ne_nil h.ne_nil
    have hd := h.digits d (List.mem_cons_self ..)
    rcases hword.cons_cases with ⟨-, run', after, heq, h', rfl⟩ | ⟨t, ht, -⟩
    · have htake := takeWhile_isDigit_append h.digits h.right
      have htake' := takeWhile_isDigit_append h'.digits h'.right
      rw [← heq] at htake'
      rw [← htake', ← htake]
      rfl
    · rw [ht.isDigit_eq_false] at hd
      cases hd
  · rintro rfl
    exact ⟨run, cs, rfl, .digits h⟩

/-- No word begins inside a run of digits. -/
theorem not_begins_inside (hfront : ∃ d ∈ front.getLast?, d.isDigit = true)
    (hc : c.isDigit = true) : ¬Begins front (c :: cs) word := by
  intro hword
  rcases hword.cons_cases with ⟨-, run, after, -, h, -⟩ | ⟨t, ht, -⟩
  · obtain ⟨d, hd, hdigit⟩ := hfront
    rw [h.left d hd] at hdigit
    cases hdigit
  · rw [ht.isDigit_eq_false] at hc
    cases hc

theorem behind_blank_iff (h : isBlank c = true) :
    Behind front (c :: cs) place word ↔ Behind (front ++ [c]) cs place word := by
  rw [behind_cons_iff]
  exact or_iff_right fun hword => not_begins_blank h hword.2

theorem behind_mark_iff (h : Token.Symbol t c) :
    Behind front (c :: cs) place word ↔
      (place = bytes front ∧ word = .mark t) ∨ Behind (front ++ [c]) cs place word := by
  rw [behind_cons_iff, begins_mark_iff h]

theorem behind_inside_iff (hfront : ∃ d ∈ front.getLast?, d.isDigit = true)
    (hrun : ∀ d ∈ run, d.isDigit = true) :
    Behind front (run ++ cs) place word ↔ Behind (front ++ run) cs place word := by
  induction run generalizing front with
  | nil => rw [List.append_nil, List.nil_append]
  | cons d run ih =>
    obtain ⟨hd, hrun⟩ := List.forall_mem_cons.mp hrun
    have hlast : ∃ x ∈ (front ++ [d]).getLast?, x.isDigit = true :=
      ⟨d, List.getLast?_concat, hd⟩
    rw [List.cons_append, behind_cons_iff, ih hlast hrun, ← List.append_cons]
    exact or_iff_right fun hword => not_begins_inside hfront hd hword.2

theorem behind_digits_iff (h : LongestRun front run cs) :
    Behind front (run ++ cs) place word ↔
      (place = bytes front ∧ word = .digits run) ∨ Behind (front ++ run) cs place word := by
  obtain ⟨d, run, rfl⟩ := List.exists_cons_of_ne_nil h.ne_nil
  obtain ⟨hd, hrun⟩ := List.forall_mem_cons.mp h.digits
  have hlast : ∃ x ∈ (front ++ [d]).getLast?, x.isDigit = true := ⟨d, List.getLast?_concat, hd⟩
  have hbegins : Begins front (d :: run ++ cs) word ↔ word = .digits (d :: run) :=
    begins_digits_iff h
  rw [List.cons_append] at hbegins ⊢
  rw [behind_cons_iff, hbegins, behind_inside_iff hlast hrun, ← List.append_cons]

theorem Behind.bytes_le (h : Behind front cs place word) : bytes front ≤ place := by
  obtain ⟨before, spelled, after, -, rfl, -⟩ := h
  rw [bytes_append]
  exact Nat.le_add_right _ _

/-- The words behind `front` in order, where none of the characters is foreign. -/
structure Cuts (front cs : List Char) (words : List (Nat × Word)) : Prop where
  native : ∀ c ∈ cs, ¬Foreign c
  sorted : words.Pairwise fun a b => a.1 < b.1
  mem_iff : ∀ place word, (place, word) ∈ words ↔ Behind front cs place word

namespace Cuts

variable {words : List (Nat × Word)}

theorem nil (front : List Char) : Cuts front [] [] where
  native := List.forall_mem_nil _
  sorted := .nil
  mem_iff _ _ := iff_of_false List.not_mem_nil not_behind_nil

theorem blank (h : isBlank c = true) (hcuts : Cuts (front ++ [c]) cs words) :
    Cuts front (c :: cs) words where
  native := List.forall_mem_cons.mpr ⟨not_foreign_of_isBlank h, hcuts.native⟩
  sorted := hcuts.sorted
  mem_iff place word := by rw [behind_blank_iff h, hcuts.mem_iff]

/-- A word in front of all others. -/
theorem cons (spelled : List Char) (hnative : ∀ c ∈ spelled, ¬Foreign c)
    (hne : 0 < bytes spelled)
    (hword : ∀ place w, Behind front (spelled ++ cs) place w ↔
      (place = bytes front ∧ w = word) ∨ Behind (front ++ spelled) cs place w)
    (hcuts : Cuts (front ++ spelled) cs words) :
    Cuts front (spelled ++ cs) ((bytes front, word) :: words) where
  native := List.forall_mem_append.mpr ⟨hnative, hcuts.native⟩
  sorted := by
    refine List.pairwise_cons.mpr ⟨?_, hcuts.sorted⟩
    rintro ⟨place, w⟩ hw
    have hle := ((hcuts.mem_iff place w).mp hw).bytes_le
    rw [bytes_append] at hle
    change bytes front < place
    omega
  mem_iff place w := by
    rw [List.mem_cons, Prod.mk.injEq, hword, hcuts.mem_iff]

theorem mark (h : Token.Symbol t c) (hcuts : Cuts (front ++ [c]) cs words) :
    Cuts front (c :: cs) ((bytes front, .mark t) :: words) := by
  refine cons [c] ?_ ?_ (fun _ _ => behind_mark_iff h) hcuts
  · intro x hx
    obtain rfl := List.mem_singleton.mp hx
    exact not_foreign_of_symbol h
  · rw [bytes_singleton]
    exact Char.utf8Size_pos c

theorem digits (h : LongestRun front run cs) (hcuts : Cuts (front ++ run) cs words) :
    Cuts front (run ++ cs) ((bytes front, .digits run) :: words) := by
  refine cons run ?_ ?_ (fun _ _ => behind_digits_iff h) hcuts
  · exact fun x hx => not_foreign_of_isDigit (h.digits x hx)
  · rw [bytes_of_isDigit h.digits]
    exact List.length_pos_of_ne_nil h.ne_nil

end Cuts

/-- Whether no run of digits goes on from `front` into `cs`. -/
def Border (front cs : List Char) : Prop :=
  (∀ d ∈ front.getLast?, d.isDigit = false) ∨ ∀ d ∈ cs.head?, d.isDigit = false

theorem border_concat (hc : c.isDigit = false) : Border (front ++ [c]) cs := by
  refine .inl ?_
  intro d hd
  rw [List.getLast?_concat, Option.mem_some] at hd
  rw [← hd, hc]

theorem longestRun_takeWhile (hborder : Border front (c :: cs)) (hc : c.isDigit = true) :
    LongestRun front (c :: cs.takeWhile Char.isDigit) (cs.dropWhile Char.isDigit) where
  ne_nil := List.cons_ne_nil _ _
  digits := List.forall_mem_cons.mpr ⟨hc, fun _ => List.mem_takeWhile_imp⟩
  left := by
    refine hborder.resolve_right ?_
    intro hnone
    rw [hnone c rfl] at hc
    cases hc
  right := by
    intro d hd
    have hnot := List.head?_dropWhile_not Char.isDigit cs
    rw [Option.mem_def.mp hd] at hnot
    exact hnot

/-- A text that can be cut into words is cut into those that stand in it. -/
theorem cuts_of_ofChars {position : Nat} {words : List (Nat × Word)}
    (h : ofChars position cs = .ok words) (hposition : position = bytes front)
    (hborder : Border front cs) : Cuts front cs words := by
  fun_induction ofChars position cs generalizing front words with
  | case1 position =>
    obtain rfl : [] = words := Except.ok.inj h
    exact .nil front
  | case2 position c cs hblank ih =>
    refine .blank hblank (ih h ?_ (border_concat (isDigit_of_isBlank hblank)))
    rw [hposition, bytes_append, bytes_singleton]
  | case3 position c cs hblank hdigit run =>
    rename_i ih
    obtain ⟨others, hothers, rfl⟩ := exists_of_map_eq_ok h
    have hrun : LongestRun front (c :: run) (cs.dropWhile Char.isDigit) :=
      longestRun_takeWhile hborder hdigit
    have hnext : position + 1 + run.length = bytes (front ++ c :: run) := by
      rw [bytes_append, bytes_of_isDigit hrun.digits, List.length_cons, hposition]
      omega
    have hall := Cuts.digits hrun (ih hothers hnext (.inr hrun.right))
    rw [List.cons_append, List.takeWhile_append_dropWhile] at hall
    rw [hposition]
    exact hall
  | case4 position c cs hblank hdigit t ht ih =>
    obtain ⟨others, hothers, rfl⟩ := exists_of_map_eq_ok h
    have hsymbol := Token.ofChar?_eq_some_iff.mp ht
    rw [hposition]
    refine .mark hsymbol (ih hothers ?_ (border_concat hsymbol.isDigit_eq_false))
    rw [hposition, bytes_append, bytes_singleton, (Token.blank_digit_of_ofChar? ht).2.2]
  | case5 => cases h

/-- Whether an error tells of the first foreign character of a text that starts at byte
`position`. -/
def TellsForeign (position : Nat) (cs : List Char) (error : LexError) : Prop :=
  ∃ before c after, cs = before ++ c :: after ∧ Foreign c ∧ (∀ d ∈ before, ¬Foreign d) ∧
    error = .unexpectedChar (position + bytes before) c

theorem TellsForeign.append {position : Nat} (spelled : List Char) {error : LexError}
    (hnative : ∀ c ∈ spelled, ¬Foreign c)
    (h : TellsForeign (position + bytes spelled) cs error) :
    TellsForeign position (spelled ++ cs) error := by
  obtain ⟨before, c, after, rfl, hc, hbefore, rfl⟩ := h
  refine ⟨spelled ++ before, c, after, (List.append_assoc ..).symm, hc, ?_, ?_⟩
  · exact List.forall_mem_append.mpr ⟨hnative, hbefore⟩
  · rw [bytes_append, Nat.add_assoc]

/-- A text that cannot be cut into words fails at its first foreign character. -/
theorem tellsForeign_of_ofChars {position : Nat} {error : LexError}
    (h : ofChars position cs = .error error) : TellsForeign position cs error := by
  fun_induction ofChars position cs with
  | case1 => cases h
  | case2 position c cs hblank ih =>
    refine .append [c] (List.forall_mem_singleton.mpr (not_foreign_of_isBlank hblank)) ?_
    rw [bytes_singleton]
    exact ih h
  | case3 position c cs hblank hdigit run =>
    rename_i ih
    have hrun : ∀ d ∈ c :: run, d.isDigit = true :=
      List.forall_mem_cons.mpr ⟨hdigit, fun _ => List.mem_takeWhile_imp⟩
    have hrest : TellsForeign (position + bytes (c :: run)) (cs.dropWhile Char.isDigit) error := by
      rw [bytes_of_isDigit hrun, List.length_cons, Nat.add_comm run.length 1, ← Nat.add_assoc]
      exact ih (eq_error_of_map_eq_error h)
    have hall := hrest.append _ fun d hd => not_foreign_of_isDigit (hrun d hd)
    rw [List.cons_append, List.takeWhile_append_dropWhile] at hall
    exact hall
  | case4 position c cs hblank hdigit t ht ih =>
    have hsymbol := Token.ofChar?_eq_some_iff.mp ht
    refine .append [c] (List.forall_mem_singleton.mpr (not_foreign_of_symbol hsymbol)) ?_
    rw [bytes_singleton, (Token.blank_digit_of_ofChar? ht).2.2]
    exact ih (eq_error_of_map_eq_error h)
  | case5 position c cs hblank hdigit ht =>
    obtain rfl := Except.error.inj h
    refine ⟨[], c, cs, rfl, ⟨?_, ?_, ?_⟩, List.forall_mem_nil _, rfl⟩
    · exact Bool.eq_false_iff.mpr hblank
    · exact Bool.eq_false_iff.mpr hdigit
    · exact Token.ofChar?_eq_none_iff.mp ht

end Word

end DiceNotation
