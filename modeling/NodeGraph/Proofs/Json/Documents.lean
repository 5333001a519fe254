import NodeGraph.Json.Reader
import NodeGraph.Json.Writer

/-!
# What is written reads back as a document

Strings, numbers, truth values and objects are written in such a way that the reader finds the same
document at the front of the input, whatever closes it there. A string names the text it was written
for (`Json.readString_escaped`), a number has the digits it was written with
(`Json.readNumber_text`), and an object has its members in order (`Json.Reads.object`).
-/

namespace NodeGraph.Json

/-- What may stand behind a value: nothing, or what separates or closes members of an object. -/
def Closes (rest : List Char) : Prop := ∀ c ∈ rest.head?, c = ',' ∨ c = '}'

theorem closes_nil : Closes [] := nofun

theorem closes_cons {c : Char} (closing : c = ',' ∨ c = '}') (rest : List Char) :
    Closes (c :: rest) := by
  rintro _ ⟨⟩
  exact closing

/-- The text is read as this document wherever a value may stand. -/
def Reads (text : List Char) (document : Json) : Prop :=
  ∀ fuel rest, text.length < fuel → Closes rest →
    readValue fuel (text ++ rest) = some (document, rest)

theorem skipBlanks_cons {c : Char} (visible : isBlank c = false) (rest : List Char) :
    skipBlanks (c :: rest) = c :: rest := by
  rw [skipBlanks, List.dropWhile_cons_of_neg (by rw [visible]; exact Bool.false_ne_true)]

/-- The fuel covers the value itself, so some is left for what is inside. -/
theorem reads_of_succ {text : List Char} {document : Json}
    (reads : ∀ fuel rest, text.length ≤ fuel → Closes rest →
      readValue (fuel + 1) (text ++ rest) = some (document, rest)) : Reads text document := by
  intro fuel rest enough closes
  cases fuel with
  | zero => exact absurd enough (Nat.not_lt_zero _)
  | succ fuel => exact reads fuel rest (Nat.le_of_lt_succ enough) closes

/-- A text that reads as a document makes up a document. -/
theorem Reads.ofText? {text : List Char} {document : Json} (reads : Reads text document) :
    ofText? (String.ofList text) = some document := by
  have whole := reads (text.length + 1) [] (Nat.lt_succ_self _) closes_nil
  rw [List.append_nil] at whole
  rw [Json.ofText?, String.toList_ofList, whole]
  rfl

section Strings

/-- The piece of a string that a character is written as. -/
def pieceOf (c : Char) : Piece :=
  if ' ' ≤ c ∨ c ∈ ['\x08', '\t', '\n', '\x0c', '\r'] then .char c else .unit c.toNat

/-- The two digits that a control character is written with, behind two zeros, give its number. -/
theorem hexUnit?_control :
    ∀ n < 32, hexUnit? '0' '0' (hexChar (n / 16)) (hexChar (n % 16)) = some n := by
  decide

theorem readPieces_unit {a b c d : Char} {n : Nat} (number : hexUnit? a b c d = some n)
    (rest : List Char) : readPieces ('\\' :: 'u' :: a :: b :: c :: d :: rest) =
      (readPieces rest).map fun (pieces, rest) => (.unit n :: pieces, rest) := by
  rw [readPieces.eq_3, number]
  cases readPieces rest <;> rfl

theorem readPieces_letter {letter c : Char} (named : unescape? letter = some c)
    (rest : List Char) : readPieces ('\\' :: letter :: rest) =
      (readPieces rest).map fun (pieces, rest) => (.char c :: pieces, rest) := by
  rw [readPieces.eq_4, named]
  · cases readPieces rest <;> rfl
  · rintro _ _ _ _ _ rfl
    cases named

theorem readPieces_plain {c : Char} (noQuote : c ≠ '"') (noBackslash : c ≠ '\\')
    (noControl : ¬ c < ' ') (rest : List Char) : readPieces (c :: rest) =
      (readPieces rest).map fun (pieces, rest) => (.char c :: pieces, rest) := by
  rw [readPieces.eq_5 c rest noQuote (fun _ _ _ _ _ same => absurd same noBackslash)
    (fun _ _ same => absurd same noBackslash), if_neg (not_or.mpr ⟨noBackslash, noControl⟩)]
  cases readPieces rest <;> rfl

theorem readPieces_escape (c : Char) (rest : List Char) : readPieces (escape c ++ rest) =
    (readPieces rest).map fun (pieces, rest) => (pieceOf c :: pieces, rest) := by
  by_cases lettered : c ∈ ['"', '\\', '\x08', '\x0c', '\n', '\r', '\t']
  · simp only [List.mem_cons, List.not_mem_nil, or_false] at lettered
    rcases lettered with rfl | rfl | rfl | rfl | rfl | rfl | rfl <;>
      exact readPieces_letter rfl rest
  · simp only [List.mem_cons, List.not_mem_nil, or_false, not_or] at lettered
    obtain ⟨noQuote, noBackslash, noBackspace, noFormFeed, noLineFeed, noReturn, noTab⟩ := lettered
    rw [escape, if_neg noQuote, if_neg noBackslash, if_neg noBackspace, if_neg noFormFeed,
      if_neg noLineFeed, if_neg noReturn, if_neg noTab]
    by_cases control : c < ' '
    · have piece : pieceOf c = .unit c.toNat := by
        rw [pieceOf, if_neg]
        simp [noBackspace, noFormFeed, noLineFeed, noReturn, noTab, Char.not_le.mpr control]
      rw [if_pos control, piece]
      exact readPieces_unit (hexUnit?_control c.toNat control) rest
    · have piece : pieceOf c = .char c := if_pos (.inl (Char.not_lt.mp control))
      rw [if_neg control, piece]
      exact readPieces_plain noQuote noBackslash control rest

theorem readPieces_escaped (cs rest : List Char) :
    readPieces (cs.flatMap escape ++ '"' :: rest) = some (cs.map pieceOf, rest) := by
  induction cs with
  | nil => exact readPieces.eq_2 rest
  | cons c cs ih =>
    rw [List.flatMap_cons, List.append_assoc, readPieces_escape, ih]
    rfl

/-- A unit that is no half of a pair names its character, whatever stands behind it. -/
theorem joinPieces?_unit {n : Nat} (noHigh : isHighHalf n = false) (noLow : isLowHalf n = false)
    (pieces : List Piece) :
    joinPieces? (.unit n :: pieces) = (Char.ofNat n :: ·) <$> joinPieces? pieces := by
  have alone (apart : ∀ m rest, pieces = .unit m :: rest → False) :
      joinPieces? (.unit n :: pieces) = (Char.ofNat n :: ·) <$> joinPieces? pieces := by
    rw [joinPieces?.eq_4 n pieces apart, noHigh, noLow]
    rfl
  cases pieces with
  | nil => exact alone nofun
  | cons piece rest =>
    cases piece with
    | char c => exact alone nofun
    | unit m =>
      rw [joinPieces?.eq_3, noHigh, noLow]
      rfl

theorem joinPieces?_pieceOf (c : Char) (pieces : List Piece) :
    joinPieces? (pieceOf c :: pieces) = (c :: ·) <$> joinPieces? pieces := by
  unfold pieceOf
  split
  case isTrue => rfl
  case isFalse control =>
    have small : c.toNat < 32 := Char.not_le.mp (not_or.mp control).1
    rw [joinPieces?_unit, Char.ofNat_toNat]
    · simp only [isHighHalf, Bool.and_eq_false_iff, decide_eq_false_iff_not]
      omega
    · simp only [isLowHalf, Bool.and_eq_false_iff, decide_eq_false_iff_not]
      omega

theorem joinPieces?_map_pieceOf (cs : List Char) : joinPieces? (cs.map pieceOf) = some cs := by
  induction cs with
  | nil => rfl
  | cons c cs ih =>
    rw [List.map_cons, joinPieces?_pieceOf, ih]
    rfl

/-- A string that was written for a text names this text. -/
theorem readString_escaped (text : String) (rest : List Char) :
    readString (text.toList.flatMap escape ++ '"' :: rest) = some (some text, rest) := by
  rw [readString, readPieces_escaped]
  simp [joinPieces?_map_pieceOf, String.ofList_toList]

theorem reads_writeString (text : String) : Reads (writeString text) (.string (some text)) := by
  refine reads_of_succ fun fuel rest _ _ => ?_
  rw [writeString, List.cons_append, List.cons_append, List.append_assoc, readValue.eq_def]
  dsimp only
  rw [skipBlanks_cons rfl]
  exact congrArg (Option.map _) (readString_escaped text rest)

end Strings

section Numbers

/-- The digits of a numeral are those of a number without leading zeros. -/
structure Grammatical (n : Numeral) : Prop where
  whole_ne_nil : n.whole ≠ []
  whole_digits : ∀ c ∈ n.whole, c.isDigit = true
  no_leading_zero : ∀ c rest, n.whole ≠ '0' :: c :: rest
  fraction_digits : ∀ c ∈ n.fraction, c.isDigit = true

/-- A fraction behind its point, unless it is empty. -/
def fractionText : List Char → List Char
  | [] => []
  | digits => '.' :: digits

/-- An exponent with its mark and sign. -/
def exponentText : Option Int → List Char
  | none => []
  | some e => 'e' :: (if e < 0 then '-' else '+') :: Nat.toDigits 10 e.natAbs

/-- A numeral as it is written. -/
def numeralText (n : Numeral) : List Char :=
  (if n.negative then ['-'] else []) ++ (n.whole ++ (fractionText n.fraction ++
    exponentText n.exponent))

/-- Digits are split off up to the first character that is none. -/
theorem splitDigits_append {digits rest : List Char} (all : ∀ c ∈ digits, c.isDigit = true)
    (ends : ∀ c ∈ rest.head?, c.isDigit = false) :
    Numeral.splitDigits (digits ++ rest) = (digits, rest) := by
  rw [Numeral.splitDigits, List.takeWhile_append_of_pos all, List.dropWhile_append_of_pos all]
  cases rest with
  | nil => simp
  | cons c rest => simp [ends c rfl]

theorem isDigit_toDigits (n : Nat) : ∀ c ∈ Nat.toDigits 10 n, c.isDigit = true :=
  fun _ => Nat.isDigit_of_mem_toDigits (by decide) (by decide)

theorem Closes.not_isDigit {rest : List Char} (closes : Closes rest) :
    ∀ c ∈ rest.head?, c.isDigit = false := by
  intro c first
  rcases closes c first with rfl | rfl <;> rfl

/-- The sign of an exponent is split off. -/
theorem splitSign_signed (e : Int) (digits : List Char) :
    Numeral.splitSign ((if e < 0 then '-' else '+') :: digits) = (decide (e < 0), digits) := by
  by_cases negative : e < 0
  · rw [if_pos negative, decide_eq_true negative]
    rfl
  · rw [if_neg negative, decide_eq_false negative]
    rfl

/-- A minus in front of digits is split off. -/
theorem splitMinus_signed (negative : Bool) {digits : List Char}
    (starts : ∃ d ∈ digits.head?, d.isDigit = true) :
    splitMinus ((if negative = true then ['-'] else []) ++ digits) = (negative, digits) := by
  obtain ⟨d, first, digit⟩ := starts
  cases negative with
  | true => rfl
  | false =>
    rw [if_neg Bool.false_ne_true, List.nil_append, splitMinus.eq_2]
    rintro _ rfl
    cases first
    cases digit

theorem readExponent_text (exponent : Option Int) {rest : List Char} (closes : Closes rest) :
    readExponent (exponentText exponent ++ rest) = some (exponent, rest) := by
  cases exponent with
  | none =>
    cases rest with
    | nil => rfl
    | cons c rest =>
      rw [exponentText, List.nil_append, readExponent.eq_2, if_neg]
      rcases closes c rfl with rfl | rfl <;> decide
  | some e =>
    have split := splitDigits_append (isDigit_toDigits e.natAbs) closes.not_isDigit
    have value : Nat.ofDigitChars 10 (Nat.toDigits 10 e.natAbs) 0 = e.natAbs :=
      Nat.ofDigitChars_ten_toDigits
    obtain ⟨d, digits, eq⟩ :=
      List.exists_cons_of_ne_nil (Nat.toDigits_ne_nil (n := e.natAbs) (b := 10))
    rw [eq] at split value
    rw [exponentText, eq, List.cons_append, List.cons_append, readExponent.eq_2, if_pos (.inl rfl),
      splitSign_signed]
    dsimp only
    rw [split]
    dsimp only
    rw [value]
    have signed : (if decide (e < 0) = true then -(e.natAbs : Int) else e.natAbs) = e := by
      simp only [decide_eq_true_eq]
      omega
    rw [signed]

theorem readFraction_text {digits : List Char} (all : ∀ c ∈ digits, c.isDigit = true)
    {rest : List Char} (ends : ∀ c ∈ rest.head?, c.isDigit = false ∧ c ≠ '.') :
    readFraction (fractionText digits ++ rest) = some (digits, rest) := by
  cases digits with
  | nil =>
    refine readFraction.eq_2 rest ?_
    rintro _ rfl
    exact (ends '.' rfl).2 rfl
  | cons d digits =>
    have split := splitDigits_append all fun c first => (ends c first).1
    rw [fractionText, List.cons_append, readFraction.eq_1, split]
    · nofun

theorem readNumber_text {n : Numeral} (grammatical : Grammatical n) {rest : List Char}
    (closes : Closes rest) : readNumber (numeralText n ++ rest) = some (n, rest) := by
  obtain ⟨negative, whole, fraction, exponent⟩ := n
  obtain ⟨nonempty, wholeDigits, noZero, fractionDigits⟩ := grammatical
  -- neither the exponent nor what follows starts like a fraction, or with a digit
  have behind : ∀ c ∈ (exponentText exponent ++ rest).head?, c.isDigit = false ∧ c ≠ '.' := by
    cases exponent with
    | none =>
      intro c first
      rcases closes c first with rfl | rfl <;> decide
    | some e =>
      rintro _ ⟨⟩
      decide
  have exponentRead := readExponent_text exponent closes
  have fractionRead := readFraction_text fractionDigits behind
  have ends : ∀ c ∈ (fractionText fraction ++ (exponentText exponent ++ rest)).head?,
      c.isDigit = false := by
    cases fraction with
    | nil => exact fun c first => (behind c first).1
    | cons d digits =>
      rintro _ ⟨⟩
      rfl
  have wholeRead := splitDigits_append wholeDigits ends
  dsimp only at *
  obtain ⟨d, more, starts⟩ := List.exists_cons_of_ne_nil nonempty
  have digit : d.isDigit = true := wholeDigits d (starts ▸ List.mem_cons_self)
  unfold readNumber numeralText
  simp only [List.append_assoc]
  rw [splitMinus_signed negative ⟨d, by rw [starts]; rfl, digit⟩]
  dsimp only
  rw [wholeRead]
  dsimp only
  split
  next => exact absurd rfl nonempty
  next c more => exact absurd rfl (noZero c more)
  next =>
    rw [fractionRead]
    simp only [Option.bind_eq_bind, Option.bind_some, exponentRead]

/-- A written numeral starts with a minus or a digit. -/
theorem exists_numeralText_eq_cons {n : Numeral} (grammatical : Grammatical n) :
    ∃ c more, numeralText n = c :: more ∧ (c = '-' ∨ c.isDigit = true) := by
  obtain ⟨d, digits, eq⟩ := List.exists_cons_of_ne_nil grammatical.whole_ne_nil
  unfold numeralText
  rw [eq]
  cases n.negative with
  | true => exact ⟨'-', _, rfl, .inl rfl⟩
  | false => exact ⟨d, _, rfl, .inr (grammatical.whole_digits d (eq ▸ List.mem_cons_self))⟩

theorem reads_numeralText {n : Numeral} (grammatical : Grammatical n) :
    Reads (numeralText n) (.number n) := by
  refine reads_of_succ fun fuel rest _ closes => ?_
  have number := readNumber_text grammatical closes
  obtain ⟨c, more, eq, first⟩ := exists_numeralText_eq_cons grammatical
  have not_of {d : Char} (letter : d ≠ '-' ∧ d.isDigit = false) : c ≠ d := by
    rintro rfl
    rcases first with minus | digit
    · exact letter.1 minus
    · rw [letter.2] at digit
      cases digit
  have visible : isBlank c = false := by
    simp only [isBlank, Bool.or_eq_false_iff, beq_eq_false_iff_ne]
    exact ⟨⟨⟨not_of (by decide), not_of (by decide)⟩, not_of (by decide)⟩, not_of (by decide)⟩
  rw [eq, List.cons_append] at number ⊢
  rw [readValue.eq_def]
  dsimp only
  rw [skipBlanks_cons visible]
  -- no other kind of value starts like a number
  split
  case h_7 =>
    rw [number]
    rfl
  all_goals
    rename_i same
    exact absurd (List.cons.inj same).1 (not_of (by decide))

/-- The numeral that an integer is written as. -/
def numeralOf (i : Int) : Numeral := ⟨decide (i < 0), Nat.toDigits 10 i.natAbs, [], none⟩

/-- No digits of a number start with a zero, but for the one digit of zero. -/
theorem toDigits_ne_zero_cons (n : Nat) (c : Char) (rest : List Char) :
    Nat.toDigits 10 n ≠ '0' :: c :: rest := by
  induction n using Nat.strongRecOn generalizing c rest with
  | ind n ih =>
    intro same
    by_cases small : n < 10
    · rw [Nat.toDigits_of_lt_base small] at same
      exact List.cons_ne_nil _ _ (List.cons.inj same).2.symm
    · rw [Nat.toDigits_of_base_le (by decide) (Nat.not_lt.mp small)] at same
      match front : Nat.toDigits 10 (n / 10) with
      | [] => exact Nat.toDigits_ne_nil front
      | [d] =>
        rw [front] at same
        obtain rfl : d = '0' := (List.cons.inj same).1
        have value := congrArg (Nat.ofDigitChars 10 · 0) front
        rw [Nat.ofDigitChars_ten_toDigits] at value
        have zero : n / 10 = 0 := value
        omega
      | d :: e :: more =>
        rw [front] at same
        obtain rfl : d = '0' := (List.cons.inj same).1
        exact ih (n / 10) (by omega) e more front

theorem grammatical_numeralOf (i : Int) : Grammatical (numeralOf i) where
  whole_ne_nil := Nat.toDigits_ne_nil
  whole_digits := isDigit_toDigits i.natAbs
  no_leading_zero := toDigits_ne_zero_cons i.natAbs
  fraction_digits := nofun

theorem writeInteger_eq (i : Int) : writeInteger i = numeralText (numeralOf i) := by
  rw [writeInteger, Int.repr_eq_if]
  unfold numeralText numeralOf
  dsimp only [fractionText, exponentText]
  simp only [List.append_nil, decide_eq_true_eq]
  by_cases negative : i < 0
  · have magnitude : (-i).toNat = i.natAbs := by omega
    rw [if_neg (Int.not_le.mpr negative), if_pos negative, String.toList_append, Nat.toList_repr,
      magnitude]
    rfl
  · have magnitude : i.toNat = i.natAbs := by omega
    rw [if_pos (Int.not_lt.mp negative), if_neg negative, Nat.toList_repr, magnitude]
    rfl

/-- The digits that an integer is written with have its value. -/
theorem integral?_numeralOf (i : Int) : (numeralOf i).integral? = some i := by
  unfold Numeral.integral? numeralOf
  simp only [Nat.ofDigitChars_ten_toDigits, decide_eq_true_eq]
  rw [if_neg (by simp; omega)]
  split
  next => exact congrArg some (by omega)
  next => exact congrArg some (by omega)

theorem reads_writeInteger (i : Int) : Reads (writeInteger i) (.number (numeralOf i)) := by
  rw [writeInteger_eq]
  exact reads_numeralText (grammatical_numeralOf i)

end Numbers

theorem reads_null : Reads "null".toList .null := reads_of_succ fun _ _ _ _ => rfl

theorem reads_writeTruth (b : Bool) : Reads (writeTruth b) (.bool b) := by
  refine reads_of_succ fun fuel rest _ _ => ?_
  cases b <;> rfl

section Objects

/-- A member of an object: its key, what is written for its value, and what this is read as. -/
structure Member where
  key : String
  text : List Char
  document : Json

/-- What is written for a member. -/
def Member.written (m : Member) : List Char := writeString m.key ++ ':' :: m.text

/-- What is written for the members of an object, between its braces. -/
def membersText (members : List Member) : List Char :=
  ((members.map Member.written).intersperse [',']).flatten

theorem membersText_cons_cons (first second : Member) (members : List Member) :
    membersText (first :: second :: members) =
      first.written ++ ',' :: membersText (second :: members) := rfl

theorem skipBlanks_closing {c : Char} (closing : c = ',' ∨ c = '}') (rest : List Char) :
    skipBlanks (c :: rest) = c :: rest := by
  refine skipBlanks_cons ?_ rest
  rcases closing with rfl | rfl <;> rfl

/-- The first member is read up to what stands behind it, which decides how to go on. -/
theorem readMembers_member {m : Member} (reads : Reads m.text m.document) {fuel : Nat}
    (enough : m.written.length < fuel + 1) {c : Char} (closing : c = ',' ∨ c = '}')
    (rest : List Char) :
    readMembers (fuel + 1) (m.written ++ c :: rest) =
      if c = ',' then (readMembers fuel rest).map fun (members, rest) =>
        ((some m.key, m.document) :: members, rest)
      else some ([(some m.key, m.document)], rest) := by
  have shorter : m.text.length < fuel := by
    simp only [Member.written, writeString, List.length_append, List.length_cons] at enough
    omega
  have value := reads fuel (c :: rest) shorter (closes_cons closing rest)
  have key := readString_escaped m.key (':' :: (m.text ++ c :: rest))
  have quote := skipBlanks_cons (c := '"') rfl
  have colon := skipBlanks_cons (c := ':') rfl
  rw [readMembers.eq_2, Member.written, writeString]
  simp only [List.cons_append, List.append_assoc, List.nil_append, quote, key, colon, value,
    skipBlanks_closing closing]
  rcases closing with rfl | rfl
  · exact (if_pos rfl).symm
  · exact (if_neg (by decide)).symm

/-- Members in front of a closing brace are read one after the other. -/
theorem readMembers_membersText (first : Member) (members : List Member)
    (reads : ∀ m ∈ first :: members, Reads m.text m.document) (fuel : Nat) (rest : List Char)
    (enough : (membersText (first :: members)).length < fuel) :
    readMembers fuel (membersText (first :: members) ++ '}' :: rest) =
      some ((first :: members).map fun m => (some m.key, m.document), rest) := by
  induction members generalizing first fuel with
  | nil =>
    cases fuel with
    | zero => exact absurd enough (Nat.not_lt_zero _)
    | succ fuel =>
      have only : membersText [first] = first.written := List.append_nil _
      rw [only] at enough ⊢
      rw [readMembers_member (reads first List.mem_cons_self) enough (.inr rfl),
        if_neg (by decide)]
      rfl
  | cons second members ih =>
    rw [membersText_cons_cons] at enough ⊢
    cases fuel with
    | zero => exact absurd enough (Nat.not_lt_zero _)
    | succ fuel =>
      rw [List.length_append, List.length_cons] at enough
      rw [List.append_assoc, List.cons_append,
        readMembers_member (reads first List.mem_cons_self) (by omega) (.inl rfl), if_pos rfl,
        ih second (fun m member => reads m (List.mem_cons_of_mem _ member)) fuel (by omega)]
      rfl

/-- An object is read with its members in order. -/
theorem Reads.object (first : Member) (members : List Member)
    (reads : ∀ m ∈ first :: members, Reads m.text m.document) :
    Reads (writeObject ((first :: members).map fun m => (m.key, m.text)))
      (.object ((first :: members).map fun m => (some m.key, m.document))) := by
  refine reads_of_succ fun fuel rest enough _ => ?_
  have written : writeObject ((first :: members).map fun m => (m.key, m.text)) =
      '{' :: membersText (first :: members) ++ ['}'] := by
    rw [writeObject, List.map_map]
    rfl
  rw [written] at enough ⊢
  obtain ⟨more, start⟩ : ∃ more, membersText (first :: members) = '"' :: more := by
    cases members with
    | nil => exact ⟨_, rfl⟩
    | cons second members => exact ⟨_, rfl⟩
  simp only [List.length_append, List.length_cons] at enough
  have found := readMembers_membersText first members reads fuel rest (by omega)
  have brace := skipBlanks_cons (c := '{') rfl
  have quote := skipBlanks_cons (c := '"') rfl
  rw [readValue.eq_def]
  rw [start] at found ⊢
  simp only [List.cons_append, List.append_assoc, List.nil_append, brace, quote] at found ⊢
  exact congrArg (Option.map _) found

end Objects

end NodeGraph.Json
