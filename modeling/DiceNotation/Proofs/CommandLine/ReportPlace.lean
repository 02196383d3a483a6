import DiceNotation.Proofs.CommandLine.Stages
import DiceNotation.Proofs.Places
import Mathlib.Order.Nat

/-!
Where the report on a text points to. The error has a byte of the text, and the report is made for
the character that has the number of that byte. Places go forward with every character, so this is
the place of the error exactly when the characters in front of it have one byte each.
-/
namespace DiceNotation

open Text

namespace Text.Place

/-- Further up, or further left in the same line. -/
def Before (p q : Place) : Prop := p.line < q.line ∨ p.line = q.line ∧ p.column < q.column

namespace Before

variable {p q r : Place}

theorem irrefl (p : Place) : ¬p.Before p := by
  rintro (h | ⟨-, h⟩)
  · exact Nat.lt_irrefl _ h
  · exact Nat.lt_irrefl _ h

theorem trans (hpq : p.Before q) (hqr : q.Before r) : p.Before r := by
  rcases hpq with hline | ⟨hline, hcolumn⟩ <;> rcases hqr with hline' | ⟨hline', hcolumn'⟩
  · exact .inl (hline.trans hline')
  · exact .inl (hline' ▸ hline)
  · exact .inl (hline ▸ hline')
  · exact .inr ⟨hline.trans hline', hcolumn.trans hcolumn'⟩

end Before

variable {p : Place} {c : Char} {cs : List Char} {index i j : Nat}

/-- The place behind one character. -/
def behind (p : Place) (c : Char) (rest : List Char) : Place :=
  if startsLine c rest then ⟨p.line + 1, 1⟩ else ⟨p.line, p.column + 1⟩

theorem advance_zero (p : Place) (cs : List Char) : p.advance cs 0 = p := by
  cases cs <;> rfl

theorem advance_succ (p : Place) (c : Char) (cs : List Char) (index : Nat) :
    p.advance (c :: cs) (index + 1) = (p.behind c cs).advance cs index := by
  rw [advance, behind]
  split <;> rfl

theorem before_behind (p : Place) (c : Char) (rest : List Char) : p.Before (p.behind c rest) := by
  unfold behind
  split
  · exact .inl (Nat.lt_succ_self _)
  · exact .inr ⟨rfl, Nat.lt_succ_self _⟩

/-- Every character that is passed leads further. -/
theorem before_advance (hindex : 0 < index) (hle : index ≤ cs.length) :
    p.Before (p.advance cs index) := by
  induction cs generalizing p index with
  | nil => exact absurd (hindex.trans_le hle) (Nat.lt_irrefl 0)
  | cons c cs ih =>
    obtain ⟨k, rfl⟩ := Nat.exists_eq_add_one_of_ne_zero hindex.ne'
    rw [advance_succ]
    rcases Nat.eq_zero_or_pos k with rfl | hk
    · rw [advance_zero]
      exact before_behind p c cs
    · exact (before_behind p c cs).trans (ih hk (Nat.le_of_succ_le_succ hle))

/-- No two characters of a text have one place. -/
theorem advance_inj (hi : i ≤ cs.length) (hj : j ≤ cs.length) :
    p.advance cs i = p.advance cs j ↔ i = j := by
  refine ⟨fun h => ?_, fun h => h ▸ rfl⟩
  induction cs generalizing p i j with
  | nil => exact (Nat.le_zero.mp hi).trans (Nat.le_zero.mp hj).symm
  | cons c cs ih =>
    cases i with
    | zero =>
      rcases Nat.eq_zero_or_pos j with rfl | hpos
      · rfl
      · have hbefore := before_advance (p := p) hpos hj
        rw [← h, advance_zero] at hbefore
        exact absurd hbefore (Before.irrefl p)
    | succ i =>
      cases j with
      | zero =>
        have hbefore := before_advance (p := p) (Nat.succ_pos i) hi
        rw [h, advance_zero] at hbefore
        exact absurd hbefore (Before.irrefl p)
      | succ j =>
        rw [advance_succ, advance_succ] at h
        rw [ih (Nat.le_of_succ_le_succ hi) (Nat.le_of_succ_le_succ hj) h]

theorem ofIndex?_eq_some_iff {q : Place} :
    ofIndex? cs index = some q ↔ index ≤ cs.length ∧ advance ⟨1, 1⟩ cs index = q := by
  unfold ofIndex?
  split
  case isTrue h => simp [h]
  case isFalse h => simp [h]

end Text.Place

section Bytes

variable {cs : List Char}

theorem Text.length_le_bytes (cs : List Char) : cs.length ≤ bytes cs := by
  induction cs with
  | nil => exact Nat.zero_le _
  | cons c cs ih =>
    have hc := c.utf8Size_pos
    rw [bytes_cons, List.length_cons]
    omega

theorem Text.bytes_eq_length_iff : bytes cs = cs.length ↔ ∀ c ∈ cs, c.utf8Size = 1 := by
  induction cs with
  | nil => simp [bytes_nil]
  | cons c cs ih =>
    have hc := c.utf8Size_pos
    have hcs := length_le_bytes cs
    rw [bytes_cons, List.length_cons, List.forall_mem_cons, ← ih]
    omega

end Bytes

namespace CommandLine

section Reports

variable {text : String} {error : SyntaxError} {front rest : List Char} {report : Report}

theorem Complaint.ofError_eq_report_iff :
    Complaint.ofError text error = .report report ↔ Report.ofError? text error = some report := by
  unfold Complaint.ofError
  cases Report.ofError? text error <;> simp

/-- There is a report if what is marked does not reach too far, with the place of the character that
has the number of the byte. -/
theorem Report.exists_place_iff {place : Place} (hcuts : CutsAt text error.position front rest) :
    (∃ report, ofError? text error = some report ∧ report.place = place) ↔
      bytes front + bytes (rest.take 1) ≤ text.length + 1 ∧ bytes front ≤ text.length ∧
        Place.advance ⟨1, 1⟩ text.toList (bytes front) = place := by
  rw [← String.length_toList, ← Place.ofIndex?_eq_some_iff, String.length_toList, ofError?,
    marked_of_cutsAt hcuts]
  by_cases hspan : bytes front + bytes (rest.take 1) ≤ text.length + 1
  · simp [hspan]
  · simp [hspan]

/-- A report has the place of its error if every character in front of the error is one byte, and
the next does not reach too far. -/
theorem Report.exists_at_iff (hcuts : CutsAt text error.position front rest) :
    (∃ report, ofError? text error = some report ∧
        report.place = Place.advance ⟨1, 1⟩ text.toList front.length) ↔
      (∀ c ∈ front, c.utf8Size = 1) ∧ bytes (rest.take 1) ≤ rest.length + 1 := by
  have hlength : text.length = front.length + rest.length := by
    rw [← String.length_toList, hcuts.split, List.length_append]
  have hfront : front.length ≤ text.toList.length := by
    rw [hcuts.split, List.length_append]
    exact Nat.le_add_right _ _
  rw [exists_place_iff hcuts, ← bytes_eq_length_iff, ← String.length_toList]
  rw [← String.length_toList] at hlength
  constructor
  · rintro ⟨hspan, hstart, hplace⟩
    have hbytes := (Place.advance_inj hstart hfront).mp hplace
    exact ⟨hbytes, by omega⟩
  · rintro ⟨hbytes, hspan⟩
    exact ⟨by omega, by omega, by rw [hbytes]⟩

end Reports

/-- What the report on a text that is no expression points to. The text is cut in front of the
character that the error points to. The place of the report, if there is one, is that of the
character whose number is the byte, and this is the place of the error exactly when the characters
in front of it are of one byte and the next does not reach further than one behind the text. -/
theorem Opens.report_at_iff {input : Input} {text : String} {seed limit : Option Nat}
    {error : SyntaxError} (hopens : Opens input text seed limit)
    (h : Expr.ofText text = .error error) :
    ∃ front rest, CutsAt text error.position front rest ∧
      (∀ report, (run input).stderr = .report report →
        report.place = Place.advance ⟨1, 1⟩ text.toList (bytes front)) ∧
      ((∃ report, (run input).stderr = .report report ∧
          report.place = Place.advance ⟨1, 1⟩ text.toList front.length) ↔
        (∀ c ∈ front, c.utf8Size = 1) ∧ bytes (rest.take 1) ≤ rest.length + 1) := by
  obtain ⟨-, -, -, front, rest, hcuts, -⟩ := Expr.ofText_error_pointsInto h
  simp only [hopens.run_of_error h, Complaint.ofError_eq_report_iff]
  refine ⟨front, rest, hcuts, ?_, Report.exists_at_iff hcuts⟩
  intro report hreport
  exact ((Report.exists_place_iff hcuts).mp ⟨report, hreport, rfl⟩).2.2.symm

/-- An input with a character of two bytes in front of the one that is foreign. -/
def Input.behindWide : Input := ⟨["2d6\u00a0+ x + 1"], .empty, none, none, 0⟩

theorem Input.behindWide_opens : Opens behindWide "2d6\u00a0+ x + 1" none none :=
  ⟨.arguments (by decide) rfl, .unset, .unset⟩

theorem Input.behindWide_error :
    Expr.ofText "2d6\u00a0+ x + 1" = .error (.lex (.unexpectedChar 7 'x')) := by
  decide +kernel

theorem Input.behindWide_cutsAt :
    CutsAt "2d6\u00a0+ x + 1" 7 "2d6\u00a0+ ".toList "x + 1".toList := by
  constructor <;> decide

theorem Opens.report_at_iff_behindWide :
    ∃ front rest, CutsAt "2d6\u00a0+ x + 1" 7 front rest ∧
      ((∃ report, (run .behindWide).stderr = .report report ∧
          report.place = Place.advance ⟨1, 1⟩ "2d6\u00a0+ x + 1".toList front.length) ↔
        (∀ c ∈ front, c.utf8Size = 1) ∧ bytes (rest.take 1) ≤ rest.length + 1) := by
  obtain ⟨front, rest, hcuts, -, hiff⟩ :=
    Input.behindWide_opens.report_at_iff Input.behindWide_error
  exact ⟨front, rest, hcuts, hiff⟩

/-- The character that is foreign is the seventh, and the report points to the eighth. -/
theorem run_behindWide :
    (∃ report, (run .behindWide).stderr = .report report ∧ report.place = ⟨1, 8⟩) ∧
      CutsAt "2d6\u00a0+ x + 1" 7 "2d6\u00a0+ ".toList "x + 1".toList ∧
      Place.advance ⟨1, 1⟩ "2d6\u00a0+ x + 1".toList "2d6\u00a0+ ".toList.length = ⟨1, 7⟩ := by
  refine ⟨?_, Input.behindWide_cutsAt, by decide⟩
  rw [Input.behindWide_opens.run_of_error Input.behindWide_error]
  simp only [Complaint.ofError_eq_report_iff]
  rw [Report.exists_place_iff Input.behindWide_cutsAt]
  decide

end CommandLine

end DiceNotation
