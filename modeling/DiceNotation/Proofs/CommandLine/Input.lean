import DiceNotation.CommandLine
import DiceNotation.Proofs.Scanning
import Mathlib.Data.List.DropRight

/-!
What the command takes from its surroundings. Bytes are read as a text if they are its encoding, and
then a newline is one byte of them, so the first line of some bytes is found before it is decoded.
The value of a variable is read if it is a numeral below the bound of the variable.
-/
namespace DiceNotation

namespace Text

section Bytes

variable {bytes : ByteArray} {text : String}

theorem loop_toList (bytes : ByteArray) (i : Nat) (front : List UInt8) :
    ByteArray.toList.loop bytes i front = front.reverse ++ bytes.data.toList.drop i := by
  fun_induction ByteArray.toList.loop bytes i front with
  | case1 i front h ih =>
    have hi : i < bytes.data.toList.length := h
    have hget : bytes.get! i = bytes.data.toList[i] := getElem!_pos bytes.data i h
    rw [ih, List.drop_eq_getElem_cons hi, List.reverse_cons, List.append_assoc, hget]
    rfl
  | case2 i front h =>
    have hi : bytes.data.toList.length ≤ i := Nat.le_of_not_lt h
    rw [List.drop_eq_nil_of_le hi, List.append_nil]

theorem toList_eq_data (bytes : ByteArray) : bytes.toList = bytes.data.toList :=
  loop_toList bytes 0 []

theorem toList_append (bytes rest : ByteArray) :
    (bytes ++ rest).toList = bytes.toList ++ rest.toList := by
  simp only [toList_eq_data, ByteArray.toList_data_append]

theorem toByteArray_toList (bytes : ByteArray) : bytes.toList.toByteArray = bytes := by
  rw [toList_eq_data]
  apply ByteArray.ext
  rw [List.data_toByteArray]

theorem fromUTF8?_eq_some_iff : String.fromUTF8? bytes = some text ↔ bytes = text.toUTF8 := by
  unfold String.fromUTF8?
  constructor
  · intro h
    split at h
    · obtain rfl := Option.some.inj h
      rfl
    · cases h
  · rintro rfl
    rw [dif_pos (String.toUTF8_eq_toByteArray ▸ text.isValidUTF8)]
    rfl

/-- No other character has the byte of a newline among its own. -/
theorem newline_mem_utf8EncodeChar_iff (c : Char) :
    0x0A ∈ String.utf8EncodeChar c ↔ c = '\n' := by
  constructor
  · intro h
    have hvalue : c.toNat = 10 := by
      -- Where a character takes several bytes, all of them are at least 128.
      simp only [String.utf8EncodeChar, Char.toNat] at h ⊢
      split_ifs at h <;>
        simp only [List.mem_cons, List.not_mem_nil, or_false, ← UInt8.toNat_inj,
          UInt8.toNat_ofNat', UInt8.reduceToNat] at h <;>
        omega
    exact Char.toNat_inj.mp hvalue
  · rintro rfl
    decide

theorem newline_mem_toUTF8_iff : 0x0A ∈ text.toUTF8.toList ↔ '\n' ∈ text.toList := by
  rw [String.toUTF8_eq_toByteArray, ← String.utf8Encode_toList, toList_eq_data, List.utf8Encode,
    List.toList_data_toByteArray, List.mem_flatMap]
  simp only [newline_mem_utf8EncodeChar_iff, exists_eq_right]

end Bytes

end Text

namespace CommandLine

open Text

section Lines

variable {bytes : ByteArray} {text : String}

/-- Whether a text is the first line of some bytes. Without a newline it is all of them. Else it is
what stands before the newline, less a carriage return there. -/
inductive FirstLine (bytes : ByteArray) (text : String) : Prop
  | unended (hline : '\n' ∉ text.toList) (hbytes : bytes = text.toUTF8)
  | newline (hline : '\n' ∉ text.toList) (hreturn : text.toList.getLast? ≠ some '\r')
    (rest : ByteArray) (hbytes : bytes = (text ++ "\n").toUTF8 ++ rest)
  | carriageReturn (hline : '\n' ∉ text.toList) (rest : ByteArray)
    (hbytes : bytes = (text ++ "\r\n").toUTF8 ++ rest)

/-- A line less the carriage return at its end. -/
def chopped (text : String) : String :=
  if text.toList.getLast? = some '\r' then String.ofList text.toList.dropLast else text

theorem firstLine_of_split (rest : List UInt8) (hline : '\n' ∉ text.toList)
    (hrest : ∀ b ∈ rest.head?, b = 0x0A) (hbytes : bytes.toList = text.toUTF8.toList ++ rest) :
    firstLine bytes = .ok (if rest = [] then text else chopped text) := by
  have hpos : ∀ b ∈ text.toUTF8.toList, (b != 0x0A) = true := fun b hb =>
    bne_iff_ne.mpr fun heq => hline (newline_mem_toUTF8_iff.mp (heq ▸ hb))
  have htake : bytes.toList.takeWhile (· != 0x0A) = text.toUTF8.toList := by
    rw [hbytes, List.takeWhile_append_of_pos hpos]
    cases rest with
    | nil => exact List.append_nil _
    | cons b rest =>
      obtain rfl := hrest b rfl
      exact List.append_nil _
  have hsize : bytes.size = text.toUTF8.toList.length + rest.length := by
    rw [← List.length_append, ← hbytes, toList_eq_data]
    rfl
  have hdecode : String.fromUTF8? text.toUTF8 = some text := fromUTF8?_eq_some_iff.mpr rfl
  simp only [firstLine, htake, toByteArray_toList, hdecode, hsize, chopped]
  cases rest with
  | nil => simp
  | cons b rest =>
    by_cases hreturn : text.toList.getLast? = some '\r'
    · simp [hreturn]
    · simp [hreturn]

theorem toList_line (text : String) (rest : ByteArray) :
    ((text ++ "\n").toUTF8 ++ rest).toList = text.toUTF8.toList ++ 0x0A :: rest.toList := by
  have hnewline : "\n".toByteArray.toList = [0x0A] := toList_eq_data _
  simp only [String.toUTF8_eq_toByteArray, String.toByteArray_append, toList_append, hnewline,
    List.append_assoc, List.singleton_append]

theorem chopped_return (text : String) : chopped (text ++ "\r") = text := by
  have hlist : (text ++ "\r").toList = text.toList ++ ['\r'] := String.toList_append
  rw [chopped, hlist, if_pos List.getLast?_concat, List.dropLast_concat, String.ofList_toList]

theorem eq_chopped_append_return (h : text.toList.getLast? = some '\r') :
    text = chopped text ++ "\r" := by
  have hlist : text.toList = text.toList.dropLast ++ ['\r'] :=
    (List.dropLast_append_getLast? _ h).symm
  rw [chopped, if_pos h]
  apply String.toList_inj.mp
  rw [String.toList_append, String.toList_ofList]
  exact hlist

theorem FirstLine.firstLine_eq (h : FirstLine bytes text) : firstLine bytes = .ok text := by
  cases h with
  | unended hline hbytes =>
    refine firstLine_of_split [] hline nofun ?_
    rw [hbytes, List.append_nil]
  | newline hline hreturn rest hbytes =>
    rw [firstLine_of_split (0x0A :: rest.toList) hline (by simp) (hbytes ▸ toList_line _ _),
      if_neg nofun, chopped, if_neg hreturn]
  | carriageReturn hline rest hbytes =>
    have hline' : '\n' ∉ (text ++ "\r").toList := by simp [hline]
    have hsplit : text ++ "\r\n" = text ++ "\r" ++ "\n" := by rw [String.append_assoc]; rfl
    rw [hsplit] at hbytes
    rw [firstLine_of_split (0x0A :: rest.toList) hline' (by simp) (hbytes ▸ toList_line _ _),
      if_neg nofun, chopped_return]

theorem FirstLine.of_ended {rest : ByteArray} (hline : '\n' ∉ text.toList)
    (hbytes : bytes = (text ++ "\n").toUTF8 ++ rest) : FirstLine bytes (chopped text) := by
  by_cases hreturn : text.toList.getLast? = some '\r'
  · have htext := eq_chopped_append_return hreturn
    refine .carriageReturn (fun hmem => hline ?_) rest ?_
    · rw [htext, String.toList_append]
      exact List.mem_append_left _ hmem
    · rw [hbytes, htext, chopped_return, String.append_assoc]
      rfl
  · rw [chopped, if_neg hreturn]
    exact .newline hline hreturn rest hbytes

/-- The bytes up to the first newline are either the whole or followed by it. -/
theorem exists_line (hdecode : String.fromUTF8?
      (bytes.toList.takeWhile (· != 0x0A)).toByteArray = some text) :
    '\n' ∉ text.toList ∧
      (bytes = text.toUTF8 ∨ ∃ rest, bytes = (text ++ "\n").toUTF8 ++ rest) := by
  have htext : text.toUTF8.toList = bytes.toList.takeWhile (· != 0x0A) := by
    rw [← fromUTF8?_eq_some_iff.mp hdecode, toList_eq_data, List.toList_data_toByteArray]
  have hsplit := List.takeWhile_append_dropWhile (p := (· != 0x0A)) (l := bytes.toList)
  have hhead := List.head?_dropWhile_not (· != 0x0A) bytes.toList
  rw [← htext] at hsplit
  constructor
  · rw [← newline_mem_toUTF8_iff, htext]
    exact fun hmem => absurd (List.mem_takeWhile_imp hmem) (by decide)
  · cases hrest : bytes.toList.dropWhile (· != 0x0A) with
    | nil =>
      rw [hrest, List.append_nil] at hsplit
      left
      rw [← toByteArray_toList bytes, ← hsplit, toByteArray_toList]
    | cons b rest =>
      rw [hrest] at hhead hsplit
      obtain rfl : b = 0x0A := by simpa using hhead
      refine .inr ⟨rest.toByteArray, ?_⟩
      rw [← toByteArray_toList bytes, ← hsplit, ← toByteArray_toList (_ ++ _), toList_line,
        toList_eq_data rest.toByteArray, List.toList_data_toByteArray]

theorem firstLine_cases (bytes : ByteArray) :
    firstLine bytes = .error "stream did not contain valid UTF-8" ∨
      ∃ text, FirstLine bytes text := by
  cases hdecode : String.fromUTF8? (bytes.toList.takeWhile (· != 0x0A)).toByteArray with
  | none =>
    left
    simp only [firstLine, hdecode]
  | some text =>
    right
    obtain ⟨hline, hbytes | ⟨rest, hbytes⟩⟩ := exists_line hdecode
    · exact ⟨text, .unended hline hbytes⟩
    · exact ⟨chopped text, .of_ended hline hbytes⟩

theorem firstLine_eq_ok_iff : firstLine bytes = .ok text ↔ FirstLine bytes text := by
  refine ⟨fun h => ?_, FirstLine.firstLine_eq⟩
  rcases firstLine_cases bytes with herror | ⟨text', hline⟩
  · rw [herror] at h
    cases h
  · obtain rfl := Except.ok.inj (hline.firstLine_eq.symm.trans h)
    exact hline

/-- Whether the command reads a text: its arguments with spaces between them or, without arguments,
the first line of its input. -/
inductive Reads (input : Input) (text : String) : Prop
  | arguments (h : input.arguments ≠ []) (htext : text = " ".intercalate input.arguments)
  | line (h : input.arguments = []) (hline : FirstLine input.stdin text)

variable {input : Input}

theorem readText_eq_ok_iff : readText input = .ok text ↔ Reads input text := by
  unfold readText
  by_cases h : input.arguments = []
  · rw [if_pos (List.isEmpty_iff.mpr h), firstLine_eq_ok_iff]
    refine ⟨.line h, fun hreads => ?_⟩
    cases hreads with
    | arguments harguments => exact absurd h harguments
    | line _ hline => exact hline
  · rw [if_neg (mt List.isEmpty_iff.mp h)]
    refine ⟨fun htext => .arguments h (Except.ok.inj htext).symm, fun hreads => ?_⟩
    cases hreads with
    | arguments _ htext => rw [htext]
    | line hempty _ => exact absurd hempty h

theorem readText_cases (input : Input) :
    readText input = .error "stream did not contain valid UTF-8" ∨ ∃ text, Reads input text := by
  unfold readText
  by_cases h : input.arguments = []
  · rw [if_pos (List.isEmpty_iff.mpr h)]
    exact (firstLine_cases input.stdin).imp_right fun ⟨text, hline⟩ => ⟨text, .line h hline⟩
  · exact .inr ⟨_, .arguments h rfl⟩

end Lines

section Numbers

variable {text : String} {n bound : Nat}

/-- Whether a text is the numeral of a number: digits between blanks, with or without a plus. -/
inductive Numeral (text : String) : Nat → Prop
  | intro {before sign digits after : List Char}
    (hsplit : text.toList = before ++ (sign ++ digits) ++ after)
    (hbefore : ∀ c ∈ before, isBlank c = true) (hafter : ∀ c ∈ after, isBlank c = true)
    (hsign : sign = [] ∨ sign = ['+']) (hnonempty : digits ≠ [])
    (hdigits : ∀ c ∈ digits, c.isDigit = true) : Numeral text (Nat.ofDigitChars 10 digits 0)

theorem exists_trimBlanks (cs : List Char) :
    ∃ before after, cs = before ++ trimBlanks cs ++ after ∧
      (∀ c ∈ before, isBlank c = true) ∧ ∀ c ∈ after, isBlank c = true := by
  refine ⟨cs.takeWhile isBlank, (cs.dropWhile isBlank).rtakeWhile isBlank, ?_,
    fun _ => List.mem_takeWhile_imp, fun _ => List.mem_rtakeWhile_imp⟩
  have hsplit : trimBlanks cs ++ (cs.dropWhile isBlank).rtakeWhile isBlank = cs.dropWhile isBlank :=
    List.rdropWhile_append_rtakeWhile
  rw [List.append_assoc, hsplit, List.takeWhile_append_dropWhile]

theorem dropWhile_blanks {before cs : List Char} (hbefore : ∀ c ∈ before, isBlank c = true)
    (hcs : ∀ c ∈ cs.head?, isBlank c = false) : (before ++ cs).dropWhile isBlank = cs := by
  rw [List.dropWhile_append_of_pos hbefore]
  cases cs with
  | nil => rfl
  | cons c cs => rw [List.dropWhile_cons_of_neg (by simp [hcs c rfl])]

theorem trimBlanks_of_split {cs before core after : List Char}
    (hsplit : cs = before ++ core ++ after) (hbefore : ∀ c ∈ before, isBlank c = true)
    (hafter : ∀ c ∈ after, isBlank c = true)
    (hnonempty : core ≠ []) (hcore : ∀ c ∈ core, isBlank c = false) : trimBlanks cs = core := by
  have hfront : cs.dropWhile isBlank = core ++ after := by
    rw [hsplit, List.append_assoc]
    refine dropWhile_blanks hbefore fun c hc => hcore c ?_
    rw [List.head?_append_of_ne_nil _ hnonempty] at hc
    exact List.mem_of_mem_head? hc
  have hback : (core ++ after).reverse.dropWhile isBlank = core.reverse := by
    rw [List.reverse_append]
    refine dropWhile_blanks (fun c hc => hafter c (List.mem_reverse.mp hc)) fun c hc => hcore c ?_
    exact List.mem_reverse.mp (List.mem_of_mem_head? hc)
  rw [trimBlanks, hfront, hback, List.reverse_reverse]

/-- A number is read from what stands behind the sign. -/
theorem natural?_of_trimmed {sign digits : List Char}
    (htrim : trimBlanks text.toList = sign ++ digits)
    (hsign : sign = ['+'] ∨ sign = [] ∧ digits.head? ≠ some '+') :
    natural? bound text =
      if digits.isEmpty || !digits.all Char.isDigit then none
      else if Nat.ofDigitChars 10 digits 0 < bound then some (Nat.ofDigitChars 10 digits 0)
      else none := by
  unfold natural?
  rw [htrim]
  rcases hsign with rfl | ⟨rfl, hhead⟩
  · rfl
  · rw [List.nil_append]
    split
    next digits => exact absurd rfl hhead
    next => rfl

theorem exists_sign (cs : List Char) : ∃ sign digits, cs = sign ++ digits ∧
    (sign = ['+'] ∨ sign = [] ∧ digits.head? ≠ some '+') := by
  by_cases h : cs.head? = some '+'
  · obtain ⟨digits, rfl⟩ := List.head?_eq_some_iff.mp h
    exact ⟨['+'], digits, rfl, .inl rfl⟩
  · exact ⟨[], cs, rfl, .inr ⟨rfl, h⟩⟩

theorem Numeral.natural?_eq (h : Numeral text n) (hbound : n < bound) :
    natural? bound text = some n := by
  cases h with | @intro before sign digits after hsplit hbefore hafter hsign hnonempty hdigits =>
  have hsolid : ∀ c ∈ sign ++ digits, isBlank c = false := by
    intro c hc
    rcases List.mem_append.mp hc with hc | hc
    · rcases hsign with rfl | rfl
      · cases hc
      · rw [List.mem_singleton.mp hc]
        rfl
    · exact isBlank_of_isDigit (hdigits c hc)
  have htrim : trimBlanks text.toList = sign ++ digits :=
    trimBlanks_of_split hsplit hbefore hafter (by simp [hnonempty]) hsolid
  have hhead : digits.head? ≠ some '+' := fun hplus =>
    absurd (hdigits '+' (List.mem_of_mem_head? hplus)) (by decide)
  have hall : digits.all Char.isDigit = true := List.all_eq_true.mpr hdigits
  rw [natural?_of_trimmed htrim (hsign.symm.imp_right fun hempty => ⟨hempty, hhead⟩), hall,
    List.isEmpty_eq_false_iff.mpr hnonempty, if_neg nofun, if_pos hbound]

theorem natural?_eq_some_iff : natural? bound text = some n ↔ Numeral text n ∧ n < bound := by
  refine ⟨fun h => ?_, fun h => h.1.natural?_eq h.2⟩
  obtain ⟨before, after, hsplit, hbefore, hafter⟩ := exists_trimBlanks text.toList
  obtain ⟨sign, digits, htrim, hsign⟩ := exists_sign (trimBlanks text.toList)
  rw [natural?_of_trimmed htrim hsign] at h
  split_ifs at h with hnumeral hbound
  obtain rfl := Option.some.inj h
  simp only [Bool.or_eq_true, Bool.not_eq_true', not_or, Bool.not_eq_false, List.isEmpty_iff,
    List.all_eq_true] at hnumeral
  rw [htrim] at hsplit
  exact ⟨⟨hsplit, hbefore, hafter, hsign.symm.imp_left And.left, hnumeral.1, hnumeral.2⟩, hbound⟩

end Numbers

section Settings

variable {name complaint : String} {bound : Nat} {given : Option ByteArray} {value : Option Nat}

/-- Whether a variable gives a value: none if it is not set, else the number below the bound that it
is a numeral of. -/
inductive Sets (bound : Nat) : Option ByteArray → Option Nat → Prop
  | unset : Sets bound none none
  | number {text : String} {n : Nat} (hnumeral : Numeral text n) (hbound : n < bound) :
    Sets bound (some text.toUTF8) (some n)

/-- Whether a variable gives no value, and what the complaint about it is then. -/
inductive Complains (name : String) (bound : Nat) : Option ByteArray → String → Prop
  | coding {bytes : ByteArray} (h : ∀ text : String, bytes ≠ text.toUTF8) :
    Complains name bound (some bytes)
      (name ++ ": environment variable was not valid unicode: " ++ quoteBytes bytes)
  | value {text : String} (h : ∀ n, Numeral text n → bound ≤ n) :
    Complains name bound (some text.toUTF8)
      (name ++ " must be a non-negative integer, not " ++ quote text)

theorem Sets.setting_eq (h : Sets bound given value) (name : String) :
    setting name bound given = .ok value := by
  cases h with
  | unset => rfl
  | @number text n hnumeral hbound =>
    have hdecode : String.fromUTF8? text.toUTF8 = some text := fromUTF8?_eq_some_iff.mpr rfl
    simp only [setting, hdecode, hnumeral.natural?_eq hbound]

theorem Complains.setting_eq (h : Complains name bound given complaint) :
    setting name bound given = .error complaint := by
  cases h with
  | @coding bytes h =>
    have hdecode : String.fromUTF8? bytes = none :=
      Option.eq_none_iff_forall_ne_some.mpr fun text heq => h text (fromUTF8?_eq_some_iff.mp heq)
    simp only [setting, hdecode]
  | @value text h =>
    have hdecode : String.fromUTF8? text.toUTF8 = some text := fromUTF8?_eq_some_iff.mpr rfl
    have hnatural : natural? bound text = none :=
      Option.eq_none_iff_forall_ne_some.mpr fun n heq =>
        have ⟨hnumeral, hbound⟩ := natural?_eq_some_iff.mp heq
        Nat.not_lt.mpr (h n hnumeral) hbound
    simp only [setting, hdecode, hnatural]

theorem sets_or_complains (name : String) (bound : Nat) (given : Option ByteArray) :
    (∃ value, Sets bound given value) ∨ ∃ complaint, Complains name bound given complaint := by
  cases given with
  | none => exact .inl ⟨none, .unset⟩
  | some bytes =>
    by_cases hdecode : ∃ text : String, bytes = text.toUTF8
    · obtain ⟨text, rfl⟩ := hdecode
      by_cases hnumeral : ∃ n, Numeral text n ∧ n < bound
      · obtain ⟨n, hnumeral, hbound⟩ := hnumeral
        exact .inl ⟨some n, .number hnumeral hbound⟩
      · exact .inr ⟨_, .value fun n hn => Nat.le_of_not_lt fun hlt => hnumeral ⟨n, hn, hlt⟩⟩
    · exact .inr ⟨_, .coding fun text heq => hdecode ⟨text, heq⟩⟩

end Settings

end CommandLine

end DiceNotation
