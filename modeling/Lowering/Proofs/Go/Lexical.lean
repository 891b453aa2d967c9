import Mathlib.Computability.Language
import Lowering.Proofs.Go.Token

/-!
# The lexical grammar of Go

The lexical elements of Go as languages, rule by rule as the grammar gives them: words, numbers of
every base with their fractions and exponents, runes, strings, operators and comments. A text is
split into tokens by taking the longest element that it begins with, again and again (`Splits`).
Blanks separate tokens, comments are dropped. The split is unique (`Splits.unique`).

`Apart` says what becomes of a piece of text in front of any other: it is split into given tokens
exactly if a condition holds. Pieces are put together by `Apart.append`.

The scanner of `Go.tokens` knows a part of the grammar only. Where the grammar splits a text into
tokens of this part, the scanner reads the same ones (`tokens_of_splits`).
-/

namespace Lowering.Go.Lexical

open scoped Computability

/-! ## Languages -/

/-- The texts of one character of a class. -/
def one (p : Char → Bool) : Language Char := {w | ∃ c, p c = true ∧ w = [c]}

/-- A part that may be left out. -/
def optional (l : Language Char) : Language Char := 1 + l

/-- The characters of a string, each a text. -/
def oneOf (s : String) : Language Char := one s.toList.contains

/-- A fixed text. -/
def exactly (s : String) : Language Char := {s.toList}

/-! ### Words -/

/-- Names and keywords. -/
def word : Language Char := one isWordStart * (one isWordChar)∗

/-! ### Numbers -/

def decimal : String := "0123456789"

def octal : String := "01234567"

def hexadecimal : String := "0123456789abcdefABCDEF"

/-- Digits, with an underscore between two of them or not. -/
def digits (s : String) : Language Char := oneOf s * (optional (exactly "_") * oneOf s)∗

/-- The digits behind a mark of their base. -/
def based (s : String) : Language Char := optional (exactly "_") * digits s

def integer : Language Char :=
  exactly "0" + oneOf "123456789" * optional (based decimal) +
    exactly "0" * oneOf "bB" * based "01" +
    exactly "0" * optional (oneOf "oO") * based octal +
    exactly "0" * oneOf "xX" * based hexadecimal

def exponent (mark : String) : Language Char :=
  oneOf mark * optional (oneOf "+-") * digits decimal

def decimalFloat : Language Char :=
  digits decimal * exactly "." * optional (digits decimal) * optional (exponent "eE") +
    digits decimal * exponent "eE" +
    exactly "." * digits decimal * optional (exponent "eE")

def hexFloat : Language Char :=
  exactly "0" * oneOf "xX" *
    (based hexadecimal * exactly "." * optional (digits hexadecimal) + based hexadecimal +
      exactly "." * digits hexadecimal) * exponent "pP"

def real : Language Char := integer + decimalFloat + hexFloat

/-- Integers, fractions and imaginary numbers. -/
def number : Language Char := real + (digits decimal + real) * exactly "i"

/-! ### Runes and strings -/

/-- A character by its code, in the digits that the mark asks for. -/
def escape : Language Char :=
  oneOf octal ^ 3 + exactly "x" * oneOf hexadecimal ^ 2 + exactly "u" * oneOf hexadecimal ^ 4 +
    exactly "U" * oneOf hexadecimal ^ 8

/-- A character between quotes. -/
def quoted (quote : Char) : Language Char :=
  one (fun c => c != quote && c != '\\' && c != '\n') +
    exactly "\\" * (oneOf "abfnrtv\\" + one (· == quote) + escape)

def rune : Language Char := exactly "'" * quoted '\'' * exactly "'"

def string : Language Char :=
  exactly "\"" * (quoted '"')∗ * exactly "\"" +
    exactly "\x60" * (one (· != '\x60'))∗ * exactly "\x60"

/-! ### Operators and comments -/

/-- Every operator and delimiter; the end of a line is none of them. -/
def operators : List String := "..." :: symbols.erase "\n"

def operator : Language Char := {w | ∃ s ∈ operators, w = s.toList}

/-- The texts without a mark that closes a comment. -/
def unclosed : Language Char := {w | ¬ "*/".toList <:+: w}

/-- A comment to the end of the line, or up to the first closing mark. -/
def comment : Language Char :=
  exactly "//" * (one (· != '\n'))∗ + exactly "/*" * unclosed * exactly "*/"

def token : Language Char := word + number + (rune + string) + operator

def lexeme : Language Char := token + comment

/-! ## The longest match -/

/-- No element of the grammar is longer, with the text that follows. -/
def Longest (w rest : List Char) : Prop :=
  ∀ v ∈ lexeme, v <+: w ++ rest → v.length ≤ w.length

/-- Characters between tokens, the end of a line included. -/
def isSpace (c : Char) : Bool := isBlank c || c == '\n'

/-- The text is split into these tokens. -/
inductive Splits : List Char → List String → Prop
  | nil : Splits [] []
  | blank {c cs ts} (hc : isSpace c = true) (h : Splits cs ts) : Splits (c :: cs) ts
  | comment {w rest ts} (hw : w ∈ comment) (hl : Longest w rest) (h : Splits rest ts) :
      Splits (w ++ rest) ts
  | token {w rest ts} (hw : w ∈ token) (hl : Longest w rest) (h : Splits rest ts) :
      Splits (w ++ rest) (String.ofList w :: ts)

/-! ## Characters of the languages -/

section

variable {p q : Char → Bool} {l m : Language Char} {v w rest : List Char} {c d : Char}

/-- Every character of every text is of a class. -/
def Over (p : Char → Bool) (l : Language Char) : Prop := ∀ w ∈ l, ∀ c ∈ w, p c = true

/-- Every text begins with a character of a class. -/
def Begins (p : Char → Bool) (l : Language Char) : Prop := ∀ w ∈ l, ∃ c ∈ w.head?, p c = true

theorem over_one (h : ∀ c, q c = true → p c = true) : Over p (one q) := by
  rintro _ ⟨c, hc, rfl⟩ d hd
  rw [List.mem_singleton.mp hd]
  exact h c hc

theorem over_exactly {s : String} (h : s.toList.all p = true) : Over p (exactly s) := by
  rintro _ rfl
  exact List.all_eq_true.mp h

theorem over_oneOf {s : String} (h : s.toList.all p = true) : Over p (oneOf s) :=
  over_one fun c hc => List.all_eq_true.mp h c (List.contains_iff_mem.mp hc)

theorem over_add (hl : Over p l) (hm : Over p m) : Over p (l + m) := by
  rintro w (hw | hw)
  · exact hl w hw
  · exact hm w hw

/-- The characters of a concatenation are those of its two parts. -/
theorem over_mul (hl : Over p l) (hm : Over p m) : Over p (l * m) := by
  rintro _ ⟨v, hv, w, hw, rfl⟩ c hc
  exact (List.mem_append.mp hc).elim (hl v hv c) (hm w hw c)

theorem over_kstar (hl : Over p l) : Over p l∗ := by
  rintro _ ⟨ws, rfl, hws⟩ c hc
  obtain ⟨w, hw, hc⟩ := List.mem_flatten.mp hc
  exact hl w (hws w hw) c hc

theorem over_optional (hl : Over p l) : Over p (optional l) := by
  rintro w (rfl | hw)
  · exact fun _ hc => absurd hc List.not_mem_nil
  · exact hl w hw

/-- The underscore between digits has to be in the class as well. -/
theorem over_digits {s : String} (hs : s.toList.all p = true) (hp : p '_' = true) :
    Over p (digits s) :=
  over_mul (over_oneOf hs) (over_kstar (over_mul
    (over_optional (over_exactly (by simp [hp]))) (over_oneOf hs)))

theorem begins_one (h : ∀ c, q c = true → p c = true) : Begins p (one q) := by
  rintro _ ⟨c, hc, rfl⟩
  exact ⟨c, rfl, h c hc⟩

theorem begins_exactly {s : String} (h : s.toList.head?.any p = true) :
    Begins p (exactly s) := by
  rintro _ rfl
  obtain ⟨c, hc, hp⟩ := Option.any_eq_true _ _ |>.mp h
  exact ⟨c, hc, hp⟩

theorem begins_oneOf {s : String} (h : s.toList.all p = true) : Begins p (oneOf s) :=
  begins_one fun c hc => List.all_eq_true.mp h c (List.contains_iff_mem.mp hc)

theorem begins_add (hl : Begins p l) (hm : Begins p m) : Begins p (l + m) := by
  rintro w (hw | hw)
  · exact hl w hw
  · exact hm w hw

/-- A concatenation begins as its first part, whose texts are not empty. -/
theorem begins_mul (hl : Begins p l) : Begins p (l * m) := by
  rintro _ ⟨v, hv, w, -, rfl⟩
  obtain ⟨c, hc, hp⟩ := hl v hv
  exact ⟨c, List.mem_head?_append_of_mem_head? hc, hp⟩

/-- What a character can begin. -/
inductive CharSort
  | letter | digit | quote | space | other
  deriving DecidableEq

def sortOf (c : Char) : CharSort :=
  if isWordStart c then .letter
  else if c.isDigit then .digit
  else if "'\"\x60".toList.contains c then .quote
  else if isSpace c then .space
  else .other

/-! ### Numbers -/

def isNumberChar (c : Char) : Bool := c.isAlphanum || "_.+-".toList.contains c

def isNumberStart (c : Char) : Bool := sortOf c == .digit || c == '.'

theorem over_number_digits {s : String} (hs : s.toList.all isNumberChar = true) :
    Over isNumberChar (digits s) :=
  over_digits hs (by decide)

theorem over_number_based {s : String} (hs : s.toList.all isNumberChar = true) :
    Over isNumberChar (based s) :=
  over_mul (over_optional (over_exactly (by decide))) (over_number_digits hs)

/-- The mark and the sign of an exponent are characters of a number, too. -/
theorem over_number_exponent {s : String} (hs : s.toList.all isNumberChar = true) :
    Over isNumberChar (exponent s) :=
  over_mul (over_mul (over_oneOf hs) (over_optional (over_oneOf (by decide))))
    (over_number_digits (by decide))

theorem over_integer : Over isNumberChar integer := by
  unfold integer
  apply_rules [over_optional, over_number_based, over_exactly, over_oneOf, over_mul,
    over_add]

theorem over_decimalFloat : Over isNumberChar decimalFloat := by
  unfold decimalFloat
  apply_rules [over_optional, over_number_digits, over_number_exponent, over_exactly,
    over_mul, over_add]

theorem over_hexFloat : Over isNumberChar hexFloat := by
  unfold hexFloat
  apply_rules [over_optional, over_number_based, over_number_digits, over_number_exponent,
    over_exactly, over_oneOf, over_mul, over_add]

/-- Whatever the base and the form of a number are, all its characters are number characters. -/
theorem over_number : Over isNumberChar number := by
  unfold number real
  apply_rules [over_integer, over_decimalFloat, over_hexFloat, over_number_digits,
    over_exactly, over_mul, over_add]

theorem begins_digits {s : String} (hs : s.toList.all p = true) : Begins p (digits s) :=
  begins_mul (begins_oneOf hs)

/-- Every text begins with a digit, or with a full stop and a digit. -/
def BeginsDigit (l : Language Char) : Prop :=
  ∀ w ∈ l, ∃ c u, c.isDigit = true ∧ (w = c :: u ∨ w = '.' :: c :: u)

theorem beginsDigit_add (hl : BeginsDigit l) (hm : BeginsDigit m) : BeginsDigit (l + m) := by
  rintro w (hw | hw)
  · exact hl w hw
  · exact hm w hw

theorem beginsDigit_mul (hl : BeginsDigit l) : BeginsDigit (l * m) := by
  rintro _ ⟨v, hv, w, -, rfl⟩
  obtain ⟨c, u, hc, rfl | rfl⟩ := hl v hv
  · exact ⟨c, u ++ w, hc, .inl rfl⟩
  · exact ⟨c, u ++ w, hc, .inr rfl⟩

/-- The usual case: there is no full stop in front. -/
theorem beginsDigit_of_begins (hl : Begins Char.isDigit l) : BeginsDigit l := by
  intro w hw
  obtain ⟨c, hc, hdigit⟩ := hl w hw
  obtain ⟨u, rfl⟩ := List.head?_eq_some_iff.mp hc
  exact ⟨c, u, hdigit, .inl rfl⟩

/-- The other case: the full stop comes first, and digits behind it. -/
theorem beginsDigit_point (hl : Begins Char.isDigit l) : BeginsDigit (exactly "." * l) := by
  rintro _ ⟨_, rfl, w, hw, rfl⟩
  obtain ⟨c, hc, hdigit⟩ := hl w hw
  obtain ⟨u, rfl⟩ := List.head?_eq_some_iff.mp hc
  exact ⟨c, u, hdigit, .inr rfl⟩

theorem beginsDigit_integer : BeginsDigit integer := by
  refine beginsDigit_of_begins ?_
  unfold integer
  apply_rules [begins_exactly, begins_oneOf, begins_mul, begins_add]

/-- Only decimal fractions can begin with a full stop. -/
theorem beginsDigit_real : BeginsDigit real := by
  have hdigits : Begins Char.isDigit (digits decimal) := begins_digits (by decide)
  have hdecimal : BeginsDigit decimalFloat :=
    beginsDigit_add (beginsDigit_add
      (beginsDigit_of_begins (begins_mul (begins_mul (begins_mul hdigits))))
      (beginsDigit_of_begins (begins_mul hdigits)))
      (beginsDigit_mul (beginsDigit_point hdigits))
  have hhex : BeginsDigit hexFloat :=
    beginsDigit_of_begins (begins_mul (begins_mul (begins_mul (begins_exactly (by decide)))))
  exact beginsDigit_add (beginsDigit_add beginsDigit_integer hdecimal) hhex

/-- An imaginary number begins as a number of another kind. -/
theorem beginsDigit_number : BeginsDigit number :=
  beginsDigit_add beginsDigit_real (beginsDigit_mul
    (beginsDigit_add (beginsDigit_of_begins (begins_digits (by decide))) beginsDigit_real))

/-- No digit is a letter. -/
theorem sortOf_of_isDigit (h : c.isDigit = true) : sortOf c = .digit := by
  simp [sortOf, isWordStart_of_isDigit h, h]

/-- The first character of a number is enough to tell it from words, strings and most operators. -/
theorem begins_number : Begins isNumberStart number := by
  intro w hw
  obtain ⟨c, u, hc, rfl | rfl⟩ := beginsDigit_number w hw
  · exact ⟨c, rfl, by simp [isNumberStart, sortOf_of_isDigit hc]⟩
  · exact ⟨'.', rfl, rfl⟩

/-- A number is no full stop with anything but a digit behind it. -/
theorem not_point_of_mem_number (hv : v ∈ number) (hd : d.isDigit = false) (rest : List Char) :
    v ≠ '.' :: d :: rest := by
  rintro rfl
  obtain ⟨c, u, hc, heq | heq⟩ := beginsDigit_number _ hv
  · obtain ⟨rfl, -⟩ := List.cons.inj heq
    exact absurd hc (by decide)
  · obtain ⟨rfl, -⟩ := List.cons.inj (List.cons.inj heq).2
    simp [hd] at hc

/-! ### The first character -/

theorem over_word : Over isWordChar word :=
  over_mul (over_one fun _ => isWordChar_of_isWordStart)
    (over_kstar (over_one fun _ => id))

/-- Words begin with letters, and so does nothing else. -/
theorem begins_word : Begins (sortOf · == .letter) word :=
  begins_mul (begins_one fun c hc => by simp [sortOf, hc])

/-- Runes and strings begin with one of the three quotes. -/
theorem begins_quoted : Begins (sortOf · == .quote) (rune + string) := by
  unfold rune string
  apply_rules [begins_exactly, begins_mul, begins_add]

/-- What a comment begins with. -/
def commentMarks : List String := ["//", "/*"]

theorem exists_mark_of_mem_comment (hv : v ∈ comment) : ∃ s ∈ commentMarks, s.toList <+: v := by
  obtain ⟨u, rfl, w, -, rfl⟩ | ⟨u, ⟨u', rfl, w, -, rfl⟩, w', -, rfl⟩ := hv
  · exact ⟨"//", by decide, List.prefix_append _ _⟩
  · exact ⟨"/*", by decide, (List.prefix_append _ _).trans (List.prefix_append _ _)⟩

/-- Operators and comments begin with a mark of a finite list. -/
theorem exists_mark (hv : v ∈ operator ∨ v ∈ comment) :
    ∃ s ∈ operators ++ commentMarks, s.toList <+: v := by
  obtain ⟨s, hs, rfl⟩ | hv := hv
  · exact ⟨s, List.mem_append_left _ hs, List.prefix_refl _⟩
  · obtain ⟨s, hs, hbegins⟩ := exists_mark_of_mem_comment hv
    exact ⟨s, List.mem_append_right _ hs, hbegins⟩

/-- A mark has no letters, digits, quotes or blanks in it. -/
theorem chars_of_mem_marks {s : String} (hs : s ∈ operators ++ commentMarks) :
    s.toList ≠ [] ∧ ∀ c ∈ s.toList, sortOf c = .other := by
  have hall : (operators ++ commentMarks).all (fun s => !s.toList.isEmpty &&
      s.toList.all (sortOf · == .other)) = true := by
    decide +kernel
  simpa using List.all_eq_true.mp hall s hs

/-- An operator or comment begins with a character of its own sort. -/
theorem begins_mark (hv : v ∈ operator ∨ v ∈ comment) :
    ∃ c ∈ v.head?, sortOf c = .other := by
  obtain ⟨s, hs, u, rfl⟩ := exists_mark hv
  obtain ⟨hne, hchars⟩ := chars_of_mem_marks hs
  cases hlist : s.toList with
  | nil => exact absurd hlist hne
  | cons c cs => exact ⟨c, rfl, hchars c (by simp [hlist])⟩

/-- The first character says what an element is; a full stop begins numbers and operators. -/
theorem sortOf_head (hv : v ∈ lexeme) :
    ∃ c ∈ v.head?, v ∈ word ∧ sortOf c = .letter ∨
      v ∈ number ∧ (sortOf c = .digit ∨ c = '.') ∨ sortOf c = .quote ∨
      (v ∈ operator ∨ v ∈ comment) ∧ sortOf c = .other := by
  obtain (((hv | hv) | hv) | hv) | hv := hv
  · obtain ⟨c, hc, hsort⟩ := begins_word v hv
    exact ⟨c, hc, .inl ⟨hv, by simpa using hsort⟩⟩
  · obtain ⟨c, hc, hsort⟩ := begins_number v hv
    exact ⟨c, hc, .inr (.inl ⟨hv, by simpa [isNumberStart] using hsort⟩)⟩
  · obtain ⟨c, hc, hsort⟩ := begins_quoted v hv
    exact ⟨c, hc, .inr (.inr (.inl (by simpa using hsort)))⟩
  · obtain ⟨c, hc, hsort⟩ := begins_mark (.inl hv)
    exact ⟨c, hc, .inr (.inr (.inr ⟨.inl hv, hsort⟩))⟩
  · obtain ⟨c, hc, hsort⟩ := begins_mark (.inr hv)
    exact ⟨c, hc, .inr (.inr (.inr ⟨.inr hv, hsort⟩))⟩

/-- An element that begins with a letter is a word. -/
theorem mem_word_of_head (hv : v ∈ lexeme) (hc : c ∈ v.head?) (hsort : sortOf c = .letter) :
    v ∈ word := by
  obtain ⟨d, hd, h⟩ := sortOf_head hv
  obtain rfl := Option.mem_unique hc hd
  have hdot : c ≠ '.' := by rintro rfl; exact absurd hsort (by decide)
  simpa [hsort, hdot] using h

/-- An element that begins with a digit is a number. -/
theorem mem_number_of_head (hv : v ∈ lexeme) (hc : c ∈ v.head?) (hsort : sortOf c = .digit) :
    v ∈ number := by
  obtain ⟨d, hd, h⟩ := sortOf_head hv
  obtain rfl := Option.mem_unique hc hd
  simpa [hsort] using h

theorem sortOf_of_isSpace (h : isSpace c = true) : sortOf c = .space := by
  simp only [isSpace, isBlank, Bool.or_eq_true, beq_iff_eq] at h
  obtain ((rfl | rfl) | rfl) | rfl := h <;> decide

/-- No element begins with a blank, so blanks end nothing but the element before. -/
theorem isSpace_of_head (hv : v ∈ lexeme) (hc : c ∈ v.head?) : isSpace c = false := by
  obtain ⟨d, hd, h⟩ := sortOf_head hv
  obtain rfl := Option.mem_unique hc hd
  refine Bool.eq_false_iff.mpr fun hspace => ?_
  have hdot : c ≠ '.' := by rintro rfl; exact absurd hspace (by decide)
  simp [sortOf_of_isSpace hspace, hdot] at h

/-- Every element takes at least one character off the text. -/
theorem ne_nil_of_mem_lexeme (hv : v ∈ lexeme) : v ≠ [] := by
  obtain ⟨c, hc, -⟩ := sortOf_head hv
  rintro rfl
  cases hc

/-! ## Where the longest match ends -/

/-- An element is the longest one if the next character goes on with none. -/
theorem longest_of_stops (h : ∀ d ∈ rest.head?, ∀ v ∈ lexeme, ¬ w ++ [d] <+: v) :
    Longest w rest := by
  intro v hv hbegins
  by_contra hlt
  cases rest with
  | nil => exact hlt (by simpa using hbegins.length_le)
  | cons d rest =>
    have hlength : (w ++ [d]).length ≤ v.length := by simp; omega
    exact h d rfl v hv (List.prefix_of_prefix_length_le ⟨rest, by simp⟩ hbegins hlength)

/-- A word ends where the next character is none of a word. -/
theorem longest_word (hw : w ∈ word) (hrest : Ends rest) : Longest w rest := by
  refine longest_of_stops fun d hd v hv hbegins => ?_
  obtain ⟨c, hc, hsort⟩ := begins_word w hw
  obtain ⟨u, rfl⟩ := hbegins
  have hhead : c ∈ (w ++ [d] ++ u).head? :=
    List.mem_head?_append_of_mem_head? (List.mem_head?_append_of_mem_head? hc)
  have hchar := over_word _ (mem_word_of_head hv hhead (by simpa using hsort)) d (by simp)
  simp [hrest d hd] at hchar

/-- A number ends at the latest where the next character is none of a number. This is cautious, as
some numbers end earlier. -/
theorem longest_number (hc : c ∈ w.head?) (hsort : sortOf c = .digit)
    (hrest : ∀ d ∈ rest.head?, isNumberChar d = false) : Longest w rest := by
  refine longest_of_stops fun d hd v hv hbegins => ?_
  obtain ⟨u, rfl⟩ := hbegins
  have hhead : c ∈ (w ++ [d] ++ u).head? :=
    List.mem_head?_append_of_mem_head? (List.mem_head?_append_of_mem_head? hc)
  have hchar := over_number _ (mem_number_of_head hv hhead hsort) d (by simp)
  simp [hrest d hd] at hchar

/-- The character goes on neither with a longer operator nor with the mark of a comment. -/
def Stops (s : String) (d : Char) : Prop :=
  ∀ t ∈ operators ++ commentMarks, ¬ s.toList ++ [d] <+: t.toList

instance (s : String) (d : Char) : Decidable (Stops s d) :=
  inferInstanceAs (Decidable (∀ t ∈ operators ++ commentMarks, ¬ s.toList ++ [d] <+: t.toList))

/-- Letters, digits, quotes and blanks go on with no mark. -/
theorem stops_of_sortOf {s : String} (hd : sortOf d ≠ .other) : Stops s d := by
  intro t ht hbegins
  exact hd ((chars_of_mem_marks ht).2 d (hbegins.subset (by simp)))

/-- An operator that nothing goes on with. -/
theorem stops_of_length_le {s : String}
    (hs : ∀ t ∈ operators ++ commentMarks, s.toList <+: t.toList →
      t.toList.length ≤ s.toList.length) : Stops s d := by
  intro t ht hbegins
  have hle := hs t ht ((List.prefix_append _ _).trans hbegins)
  have hlt := hbegins.length_le
  simp at hlt
  omega

/-- No operator begins like a comment. -/
theorem mark_not_begins :
    ∀ s ∈ operators, ∀ m ∈ commentMarks, ¬ m.toList <+: s.toList := by
  decide +kernel

/-- An operator ends where no longer operator, no comment and no number goes on. -/
theorem longest_mark {s : String} (hs : s ∈ operators) (hrest : ∀ d ∈ rest.head?, Stops s d)
    (hnumber : ∀ d ∈ rest.head?, ∀ v ∈ number, ¬ s.toList ++ [d] <+: v) :
    Longest s.toList rest := by
  refine longest_of_stops fun d hd v hv hbegins => ?_
  have hstops := hrest d hd
  obtain ⟨c, hc, hsort⟩ := begins_mark (.inl ⟨s, hs, rfl⟩)
  obtain ⟨c', hc', hv⟩ := sortOf_head hv
  have hhead : c ∈ v.head? := by
    obtain ⟨u, rfl⟩ := hbegins
    exact List.mem_head?_append_of_mem_head? (List.mem_head?_append_of_mem_head? hc)
  obtain rfl := Option.mem_unique hhead hc'
  obtain ⟨-, hsort'⟩ | ⟨hv, -⟩ | hsort' | ⟨⟨t, ht, rfl⟩ | hv, -⟩ := hv
  · simp [hsort] at hsort'
  · exact hnumber d hd v hv hbegins
  · simp [hsort] at hsort'
  · exact hstops t (List.mem_append_left _ ht) hbegins
  · obtain ⟨m, hm, hmark⟩ := exists_mark_of_mem_comment hv
    have hm' := List.mem_append_right operators hm
    -- The mark would begin with the operator and the character, or the operator with the mark.
    obtain hlong | hshort := List.prefix_or_prefix_of_prefix hbegins hmark
    · exact hstops m hm' hlong
    · obtain heq | hshort := List.prefix_concat_iff.mp hshort
      · exact hstops m hm' (heq ▸ List.prefix_refl _)
      · exact mark_not_begins s hs m hm hshort

/-- The full stop is left out here: with a digit behind it, it begins a number. -/
theorem longest_operator {s : String} (hs : s ∈ operators) (hdot : '.' ∉ s.toList.head?)
    (hrest : ∀ d ∈ rest.head?, Stops s d) : Longest s.toList rest := by
  refine longest_mark hs hrest fun d _ v hv hbegins => ?_
  obtain ⟨c, hc, hsort⟩ := begins_mark (.inl ⟨s, hs, rfl⟩)
  obtain ⟨c', hc', hstart⟩ := begins_number v hv
  obtain ⟨u, rfl⟩ := hbegins
  obtain rfl := Option.mem_unique hc'
    (List.mem_head?_append_of_mem_head? (List.mem_head?_append_of_mem_head? hc))
  have hne : c' ≠ '.' := by rintro rfl; exact hdot hc
  simp [isNumberStart, hsort, hne] at hstart

/-! ## Splits -/

variable {cs : List Char} {ts us : List String}

/-- Tokens and comments are told apart by their text alone. -/
theorem not_mem_comment_of_mem_token (hw : w ∈ token) : w ∉ comment := by
  intro hcomment
  obtain ⟨m, hm, hmark⟩ := exists_mark_of_mem_comment hcomment
  have hslash : '/' ∈ w.head? := by
    obtain ⟨u, rfl⟩ := hmark
    exact List.mem_head?_append_of_mem_head?
      ((by decide : ∀ m ∈ commentMarks, '/' ∈ m.toList.head?) m hm)
  obtain ((hw | hw) | hw) | ⟨s, hs, rfl⟩ := hw
  · obtain ⟨c, hc, hsort⟩ := begins_word w hw
    obtain rfl := Option.mem_unique hslash hc
    exact absurd hsort (by decide)
  · obtain ⟨c, hc, hsort⟩ := begins_number w hw
    obtain rfl := Option.mem_unique hslash hc
    exact absurd hsort (by decide)
  · obtain ⟨c, hc, hsort⟩ := begins_quoted w hw
    obtain rfl := Option.mem_unique hslash hc
    exact absurd hsort (by decide)
  · exact mark_not_begins s hs m hm hmark

/-- Two longest elements of the same text are the same. -/
theorem eq_of_longest {rest' : List Char} (hv : v ∈ lexeme) (hw : w ∈ lexeme)
    (hvl : Longest v rest') (hwl : Longest w rest) (h : v ++ rest' = w ++ rest) :
    v = w ∧ rest' = rest := by
  have hle := hwl v hv (h ▸ List.prefix_append _ _)
  have hge := hvl w hw (h ▸ List.prefix_append _ _)
  exact List.append_inj h (Nat.le_antisymm hle hge)

/-- Blanks are passed over. -/
theorem splits_space (hc : isSpace c = true) : Splits (c :: cs) ts ↔ Splits cs ts := by
  refine ⟨fun h => ?_, .blank hc⟩
  -- No element of the grammar begins with the blank.
  have hno : ∀ {w rest : List Char}, w ∈ lexeme → c :: cs ≠ w ++ rest := by
    intro w rest hw heq
    cases w with
    | nil => exact ne_nil_of_mem_lexeme hw rfl
    | cons d w =>
      obtain ⟨rfl, -⟩ := List.cons.inj heq
      exact absurd hc (Bool.eq_false_iff.mp (isSpace_of_head hw rfl))
  generalize htext : c :: cs = text at h
  cases h with
  | nil => cases htext
  | blank _ h =>
    obtain ⟨-, rfl⟩ := List.cons.inj htext
    exact h
  | comment hw _ _ => exact absurd htext (hno (.inr hw))
  | token hw _ _ => exact absurd htext (hno (.inl hw))

/-- The longest element that a text begins with is taken off it. -/
theorem splits_longest (hw : w ∈ lexeme) (hl : Longest w rest) (h : Splits (w ++ rest) ts) :
    w ∈ comment ∧ Splits rest ts ∨
      w ∈ token ∧ ∃ us, ts = String.ofList w :: us ∧ Splits rest us := by
  generalize htext : w ++ rest = text at h
  cases h with
  | nil => exact absurd (List.append_eq_nil_iff.mp htext).1 (ne_nil_of_mem_lexeme hw)
  | blank hc _ =>
    obtain ⟨c, hhead, -⟩ := sortOf_head hw
    have hhead' : c ∈ (w ++ rest).head? := List.mem_head?_append_of_mem_head? hhead
    rw [htext] at hhead'
    obtain rfl := Option.some.inj hhead'
    exact absurd hc (Bool.eq_false_iff.mp (isSpace_of_head hw hhead))
  | comment hv hvl h =>
    obtain ⟨rfl, rfl⟩ := eq_of_longest hw (.inr hv) hl hvl htext
    exact .inl ⟨hv, h⟩
  | token hv hvl h =>
    obtain ⟨rfl, rfl⟩ := eq_of_longest hw (.inl hv) hl hvl htext
    exact .inr ⟨hv, _, rfl, h⟩

/-- If a text begins with a longest token, all its splits begin with this token. -/
theorem splits_token (hw : w ∈ token) (hl : Longest w rest) :
    Splits (w ++ rest) ts ↔ ∃ us, ts = String.ofList w :: us ∧ Splits rest us := by
  constructor
  · intro h
    obtain ⟨hcomment, -⟩ | ⟨-, h⟩ := splits_longest (.inl hw) hl h
    · exact absurd hcomment (not_mem_comment_of_mem_token hw)
    · exact h
  · rintro ⟨us, rfl, h⟩
    exact .token hw hl h

/-- A text is split in one way only. -/
theorem Splits.unique (h : Splits cs ts) (h' : Splits cs us) : ts = us := by
  induction h generalizing us with
  | nil =>
    generalize htext : [] = text at h'
    cases h' with
    | nil => rfl
    | blank => cases htext
    | comment hw _ _ =>
      exact absurd (List.append_eq_nil_iff.mp htext.symm).1 (ne_nil_of_mem_lexeme (.inr hw))
    | token hw _ _ =>
      exact absurd (List.append_eq_nil_iff.mp htext.symm).1 (ne_nil_of_mem_lexeme (.inl hw))
  | blank hc _ ih => exact ih ((splits_space hc).mp h')
  | comment hw hl _ ih =>
    obtain ⟨-, h'⟩ | ⟨htoken, -⟩ := splits_longest (.inr hw) hl h'
    · exact ih h'
    · exact absurd hw (not_mem_comment_of_mem_token htoken)
  | token hw hl _ ih =>
    obtain ⟨us, rfl, hrest⟩ := (splits_token hw hl).mp h'
    exact congrArg _ (ih hrest)

end

/-! ## Pieces of a text -/

/-- In front of any text that meets `F`, the characters are split into the tokens exactly if `P`
holds. -/
def Apart (F : List Char → Prop) (cs : List Char) (ts : List String) (P : Prop) : Prop :=
  ∀ rest us, F rest → (Splits (cs ++ rest) (ts ++ us) ↔ P ∧ Splits rest us)

/-- The text goes on neither with a word nor with a number. -/
def Bounded (rest : List Char) : Prop :=
  ∀ d ∈ rest.head?, isWordChar d = false ∧ isNumberChar d = false

section

variable {F G : List Char → Prop} {P Q : Prop} {c : Char} {cs ds w : List Char}
  {ts us : List String} {s : String}

/-- The second piece has to leave the first one as it is, whatever follows. -/
theorem Apart.append (hcs : Apart F cs ts P) (hds : Apart G ds us Q)
    (h : ∀ rest, G rest → F (ds ++ rest)) : Apart G (cs ++ ds) (ts ++ us) (P ∧ Q) := by
  intro rest vs hrest
  rw [List.append_assoc, List.append_assoc, hcs _ _ (h rest hrest), hds _ _ hrest, and_assoc]

theorem Apart.congr (h : Apart F cs ts P) (hPQ : P ↔ Q) : Apart F cs ts Q :=
  propext hPQ ▸ h

/-- It may be known better what follows. -/
theorem Apart.mono (h : Apart F cs ts P) (hFG : ∀ rest, G rest → F rest) : Apart G cs ts P :=
  fun rest us hrest => h rest us (hFG rest hrest)

/-- A blank adds no token, and it can stand in front of anything. -/
theorem apart_space (hc : isSpace c = true) : Apart Anything [c] [] True := by
  intro rest us _
  rw [true_and]
  exact splits_space hc

/-- A token that is longest in front of every text that meets `F` is a piece of its own. -/
theorem apart_token (hw : w ∈ token) (h : ∀ rest, F rest → Longest w rest) :
    Apart F w [String.ofList w] True := by
  intro rest us hrest
  rw [splits_token hw (h rest hrest)]
  simp

theorem mem_kstar_of_singletons {l : Language Char} (h : ∀ c ∈ cs, [c] ∈ l) : cs ∈ l∗ := by
  refine ⟨cs.map ([·]), (List.flatMap_singleton' cs).symm, fun w hw => ?_⟩
  obtain ⟨c, hc, rfl⟩ := List.mem_map.mp hw
  exact h c hc

/-- The test of characters agrees with the rule of the grammar. -/
theorem mem_word_of_isWord (hs : isWord s = true) : s.toList ∈ word := by
  unfold isWord at hs
  cases hlist : s.toList with
  | nil => simp [hlist] at hs
  | cons c cs =>
    simp only [hlist, Bool.and_eq_true, List.all_eq_true] at hs
    exact ⟨[c], ⟨c, hs.1, rfl⟩, cs, mem_kstar_of_singletons fun d hd => ⟨d, hs.2 d hd, rfl⟩, rfl⟩

/-- A word in front of anything that does not go on with it. -/
theorem apart_word_of_ends (hs : isWord s = true) : Apart Ends s.toList [s] True := by
  have hword := mem_word_of_isWord hs
  have h := apart_token (F := Ends) (.inl (.inl (.inl hword))) fun rest => longest_word hword
  rwa [String.ofList_toList] at h

theorem apart_word (hs : isWord s = true) : Apart Bounded s.toList [s] True :=
  (apart_word_of_ends hs).mono fun _ hrest d hd => (hrest d hd).1

theorem mem_oneOf {s : String} (hc : c ∈ s.toList) : [c] ∈ oneOf s :=
  ⟨c, List.contains_iff_mem.mpr hc, rfl⟩

theorem mem_digits {s : String} (hcs : ∀ d ∈ c :: cs, d ∈ s.toList) : c :: cs ∈ digits s := by
  obtain ⟨hc, hcs⟩ := List.forall_mem_cons.mp hcs
  refine ⟨[c], mem_oneOf hc, cs, mem_kstar_of_singletons fun d hd => ?_, rfl⟩
  exact ⟨[], .inl rfl, [d], mem_oneOf (hcs d hd), rfl⟩

/-- A first digit other than zero can be followed by any digits. -/
theorem mem_integer_cons (hc : c ∈ "123456789".toList) (hcs : ∀ d ∈ cs, d ∈ decimal.toList) :
    c :: cs ∈ integer := by
  refine .inl (.inl (.inl (.inr ⟨[c], mem_oneOf hc, cs, ?_, rfl⟩)))
  cases cs with
  | nil => exact .inl rfl
  | cons d ds => exact .inr ⟨[], .inl rfl, d :: ds, mem_digits hcs, rfl⟩

/-- A natural number in decimal notation is an integer of the grammar; zero is the one with a
leading zero. -/
theorem mem_integer_toDigits (n : Nat) : Nat.toDigits 10 n ∈ integer := by
  obtain rfl | hn := Nat.eq_zero_or_pos n
  · exact .inl (.inl (.inl (.inl rfl)))
  · obtain ⟨c, hc, cs, hlist, hcs⟩ := toDigits_of_pos hn
    exact hlist ▸ mem_integer_cons hc hcs

/-- A number in decimal notation has a first digit. -/
theorem head?_toDigits (n : Nat) : ∃ c ∈ (Nat.toDigits 10 n).head?, c.isDigit = true := by
  obtain ⟨c, hc⟩ : ∃ c, c ∈ (Nat.toDigits 10 n).head? :=
    Option.isSome_iff_exists.mp (List.isSome_head?.mpr Nat.toDigits_ne_nil)
  exact ⟨c, hc, isDigit_of_mem_toDigits (List.mem_of_mem_head? hc)⟩

/-- A natural number in front of anything that goes on neither with a word nor with a number. -/
theorem apart_number (n : Nat) : Apart Bounded (Nat.toDigits 10 n) [toString n] True := by
  have hmem : Nat.toDigits 10 n ∈ number := .inl (.inl (.inl (mem_integer_toDigits n)))
  obtain ⟨c, hc, hdigit⟩ := head?_toDigits n
  have h := apart_token (F := Bounded) (.inl (.inl (.inr hmem))) fun rest hrest =>
    longest_number hc (sortOf_of_isDigit hdigit) fun d hd => (hrest d hd).2
  rwa [← Nat.toString_eq_ofList_toDigits] at h

/-- An operator in front of anything that does not go on with it. -/
theorem apart_operator (hs : s ∈ operators) (hdot : '.' ∉ s.toList.head?) :
    Apart (fun rest => ∀ d ∈ rest.head?, Stops s d) s.toList [s] True := by
  have h := apart_token (w := s.toList) (.inr ⟨s, hs, rfl⟩) fun rest hrest =>
    longest_operator hs hdot hrest
  rwa [String.ofList_toList] at h

theorem bounded_cons {rest : List Char} (hc : isWordChar c = false ∧ isNumberChar c = false) :
    Bounded (c :: rest) := by
  rintro _ ⟨⟩
  exact hc

/-- An operator with blanks around it. -/
theorem apart_spaced (hs : s ∈ operators) (hdot : '.' ∉ s.toList.head?) :
    Apart Anything (' ' :: (s.toList ++ [' '])) [s] True := by
  have hspace : Apart Anything [' '] [] True := apart_space rfl
  have hstops : ∀ rest, Anything rest → ∀ d ∈ ([' '] ++ rest).head?, Stops s d := by
    rintro rest - _ ⟨⟩
    exact stops_of_sortOf (by decide)
  have h := hspace.append ((apart_operator hs hdot).append hspace hstops) fun _ _ => trivial
  exact h.congr (by simp)

/-- Marks that no longer operator begins with. -/
def delimiters : List String := ["(", ")", "[", "]", "\x7b", "\x7d", ",", ";"]

/-- Whatever follows, a delimiter stands for itself. -/
theorem apart_delimiter (hs : s ∈ delimiters) : Apart F s.toList [s] True := by
  have hall : ∀ s ∈ delimiters, s ∈ operators ∧ '.' ∉ s.toList.head? ∧
      ∀ t ∈ operators ++ commentMarks, s.toList <+: t.toList →
        t.toList.length ≤ s.toList.length := by
    decide +kernel
  obtain ⟨hmem, hdot, hlength⟩ := hall s hs
  exact (apart_operator hmem hdot).mono fun _ _ _ _ => stops_of_length_le hlength

/-- An ellipsis is one token, whatever follows. -/
theorem apart_ellipsis : Apart F "...".toList ["..."] True := by
  refine apart_token (w := "...".toList) (.inr ⟨"...", by decide, rfl⟩) fun rest _ => ?_
  refine longest_mark (by decide) (fun d _ => stops_of_length_le (by decide +kernel)) ?_
  rintro d - v hv ⟨u, rfl⟩
  exact not_point_of_mem_number hv (by decide) _ rfl

/-- A full stop in front of a name. -/
theorem apart_point (hs : isWord s = true) :
    Apart Ends ('.' :: s.toList) [".", s] True := by
  obtain ⟨c, hc, hletter⟩ := begins_word _ (mem_word_of_isWord hs)
  have hdigit : c.isDigit = false := by
    refine Bool.eq_false_iff.mpr fun h => ?_
    simp [sortOf_of_isDigit h] at hletter
  have hhead : ∀ rest, ∀ d ∈ (s.toList ++ rest).head?, d = c := fun rest d hd =>
    Option.mem_unique hd (List.mem_head?_append_of_mem_head? hc)
  have hpoint : Apart (fun rest => ∀ d ∈ rest.head?, d = c) ".".toList ["."] True := by
    refine apart_token (w := ".".toList) (.inr ⟨".", by decide, rfl⟩) fun rest hrest => ?_
    have hstops : Stops "." c := stops_of_sortOf (by simp [eq_of_beq hletter])
    refine longest_mark (by decide) (fun d hd => hrest d hd ▸ hstops) ?_
    rintro d hd v hv ⟨u, rfl⟩
    exact not_point_of_mem_number hv (hrest d hd ▸ hdigit) u rfl
  have h := hpoint.append (apart_word_of_ends hs) fun rest _ => hhead rest
  exact h.congr (by simp)

/-- A text in parentheses. -/
theorem Apart.enclosed (h : Apart Bounded cs ts P) :
    Apart F ('(' :: (cs ++ [')'])) ("(" :: (ts ++ [")"])) P := by
  have hopen : Apart Anything "(".toList ["("] True := apart_delimiter (by decide)
  have hclose : Apart F ")".toList [")"] True := apart_delimiter (by decide)
  have hinner := h.append hclose fun rest _ => bounded_cons (by decide)
  exact (hopen.append hinner fun _ _ => trivial).congr (by simp)

end

/-! ## The scanner -/

/-- What a token stands for, among those that expressions and assignments are made of. -/
inductive Stands : String → Token Atom → Prop
  | word {s : String} (hs : isWord s = true) : Stands s (.ofWord s)
  | number (n : Nat) : Stands (toString n) (.operand (.number n))
  | symbol {s : String} (hs : s ∈ symbols) : Stands s (.symbol s)

section

variable {w rest : List Char} {d : Char} {s : String} {n : Nat}

/-- The next character does not make a longer element. -/
theorem not_mem_of_longest (h : Longest w rest) (hd : d ∈ rest.head?) : w ++ [d] ∉ lexeme := by
  intro hmem
  obtain ⟨rest, rfl⟩ := List.head?_eq_some_iff.mp hd
  have hle := h _ hmem ⟨rest, by simp⟩
  simp only [List.length_append, List.length_singleton] at hle
  omega

/-- A word that could go on would not be the longest. -/
theorem ends_of_longest (hs : isWord s = true) (h : Longest s.toList rest) : Ends rest := by
  intro d hd
  refine Bool.eq_false_iff.mpr fun hchar => not_mem_of_longest h hd ?_
  have hlong : isWord (String.ofList (s.toList ++ [d])) = true := by
    unfold isWord at hs ⊢
    rw [String.toList_ofList]
    cases hlist : s.toList with
    | nil => simp [hlist] at hs
    | cons c cs => simpa [hlist, hchar] using hs
  have hword := mem_word_of_isWord hlong
  rw [String.toList_ofList] at hword
  exact .inl (.inl (.inl (.inl hword)))

/-- The test of a digit agrees with the list of digits. -/
theorem mem_decimal_of_isDigit (h : d.isDigit = true) : d ∈ decimal.toList := by
  simp only [Char.isDigit, Bool.and_eq_true, decide_eq_true_eq] at h
  have hlo : 48 ≤ d.toNat := h.1
  have hhi : d.toNat ≤ 57 := h.2
  have hall : ∀ k < 10, Char.ofNat (48 + k) ∈ decimal.toList := by decide
  have hmem := hall (d.toNat - 48) (by omega)
  rwa [Nat.add_sub_cancel' hlo, Char.ofNat_toNat] at hmem

/-- A number without a leading zero could go on with any digit. -/
theorem isDigit_of_longest (h : Longest (Nat.toDigits 10 n) rest) (hn : n ≠ 0) :
    ∀ d ∈ rest.head?, d.isDigit = false := by
  intro d hd
  refine Bool.eq_false_iff.mpr fun hdigit => not_mem_of_longest h hd ?_
  obtain ⟨c, hc, cs, hlist, hcs⟩ := toDigits_of_pos (Nat.pos_of_ne_zero hn)
  have hlonger : ∀ e ∈ cs ++ [d], e ∈ decimal.toList :=
    List.forall_mem_append.mpr ⟨hcs, by simpa using mem_decimal_of_isDigit hdigit⟩
  rw [hlist]
  exact .inl (.inl (.inl (.inr (.inl (.inl (.inl (mem_integer_cons hc hlonger)))))))

/-- A symbol that could go on to a longer one would not be the longest. -/
theorem closes_of_longest (hs : s ∈ symbols) (h : Longest s.toList rest) : Closes s rest := by
  intro d hd
  refine if_neg fun hmem => not_mem_of_longest h hd ?_
  have hne : String.ofList (s.toList ++ [d]) ≠ "\n" := by
    intro heq
    have hlength := congrArg (·.toList.length) heq
    have hempty : ∀ s ∈ symbols, s.toList.length ≠ 0 := by decide +kernel
    have hpos := hempty s hs
    simp only [String.toList_ofList, List.length_append, List.length_singleton] at hlength
    exact hpos (Nat.succ.inj hlength)
  have hoperator : String.ofList (s.toList ++ [d]) ∈ operators :=
    List.mem_cons_of_mem _ ((List.mem_erase_of_ne hne).mpr (List.contains_iff_mem.mp hmem))
  exact .inl (.inr ⟨_, hoperator, String.toList_ofList.symm⟩)

/-- The scanner takes the longest element off a text as the grammar does. -/
theorem tokens_of_longest {u : Token Atom} (hw : w ∈ token) (hl : Longest w rest)
    (hu : Stands (String.ofList w) u) :
    tokens (w ++ rest) = u :: tokens rest ∧ u ≠ .symbol "\n" := by
  generalize hs : String.ofList w = s at hu
  obtain rfl : s.toList = w := by rw [← hs, String.toList_ofList]
  cases hu with
  | word hword =>
    refine ⟨lexes_word hword rest (ends_of_longest hword hl), ?_⟩
    unfold Token.ofWord
    split
    · next hreserved =>
      rintro ⟨⟩
      exact absurd hreserved (by decide)
    · simp
  | number n =>
    rw [toList_toString] at hl ⊢
    exact ⟨lexes_digits n rest (isDigit_of_longest hl), by simp⟩
  | symbol hsymbol =>
    refine ⟨lexes_symbol hsymbol rest (closes_of_longest hsymbol hl), ?_⟩
    rintro ⟨⟩
    exact absurd (isSpace_of_head (.inl hw) rfl) (by decide)

end

/-- Where the grammar splits a text without comments into words, decimal numbers and symbols, the
scanner reads what they stand for, and the ends of lines between them. -/
theorem tokens_of_splits {cs : List Char} {ts : List String} {us : List (Token Atom)}
    (h : Splits cs ts) (hts : List.Forall₂ Stands ts us)
    (hcomment : ∀ m ∈ commentMarks, ¬ m.toList <:+: cs) :
    (tokens cs).filter (· ≠ .symbol "\n") = us := by
  induction h generalizing us with
  | nil =>
    obtain rfl := List.forall₂_nil_left_iff.mp hts
    rfl
  | @blank c cs ts hc _ ih =>
    have hrest := ih hts fun m hm hmark =>
      hcomment m hm (hmark.trans (List.suffix_cons c cs).isInfix)
    obtain hblank | hline := Bool.or_eq_true_iff.mp hc
    · rw [← List.singleton_append, lexes_blank hblank cs trivial]
      exact hrest
    · obtain rfl : c = '\n' := by simpa using hline
      have hread : tokens ('\n' :: cs) = .symbol "\n" :: tokens cs :=
        lexes_solitary (s := "\n") (by decide) cs trivial
      simpa [hread] using hrest
  | comment hw _ _ _ =>
    obtain ⟨m, hm, hmark⟩ := exists_mark_of_mem_comment hw
    exact absurd (hmark.trans (List.prefix_append _ _)).isInfix (hcomment m hm)
  | @token w rest ts hw hl _ ih =>
    obtain ⟨u, us, hu, hus, rfl⟩ := List.forall₂_cons_left_iff.mp hts
    have hrest := ih hus fun m hm hmark =>
      hcomment m hm (hmark.trans (List.suffix_append w rest).isInfix)
    obtain ⟨hread, hne⟩ := tokens_of_longest hw hl hu
    rw [hread, List.filter_cons_of_pos (by simpa using hne), hrest]

end Lowering.Go.Lexical
