import Lowering.Text.CharClass

/-!
# Tokens of Go text

The part of Go's lexical grammar that expressions and assignments need: words, decimal numbers,
operators and delimiters, with blanks between them; the end of a line is a delimiter. A token is as
long as it can be, so a text is scanned character by character, and a token ends where the next
character does not extend it.

The lemmas say what the pieces of a rendered file are read as. A word or a number must be followed
by a character that does not go on with it, which `Ends` says of what comes behind.
-/

namespace Lowering.Go

/-! ## Characters -/

/-- The letters of every script, and the underscore. Go has fewer letters: only the characters of
Unicode's letter categories, which are all alphabetic. -/
def isWordStart (c : Char) : Bool :=
  c == '_' || c.isAlpha || (0x80 ≤ c.toNat && Text.isAlphabetic c)

/-- Letters and digits of every script. Go has fewer of both: its digits are decimal ones. -/
def isWordChar (c : Char) : Bool :=
  c == '_' || c.isAlphanum || (0x80 ≤ c.toNat && Text.isAlphanumeric c)

def isWord (s : String) : Bool :=
  match s.toList with
  | [] => false
  | c :: cs => isWordStart c && cs.all isWordChar

/-- Words that name nothing: the keywords, and the blank that takes the place of a name. -/
def reserved : List String :=
  ["_", "break", "case", "chan", "const", "continue", "default", "defer", "else", "fallthrough",
   "for", "func", "go", "goto", "if", "import", "interface", "map", "package", "range", "return",
   "select", "struct", "switch", "type", "var"]

/-- Whether a text can name a variable. -/
def isName (s : String) : Bool := isWord s && !reserved.contains s

def isBlank (c : Char) : Bool := c == ' ' || c == '\t' || c == '\r'

/-- Operators and delimiters. One of several characters begins with another that is a character
shorter; the ellipsis, which does not, is no part of an expression. -/
def symbols : List String :=
  ["+", "-", "*", "/", "%", "&", "|", "^", "<<", ">>", "&^", "+=", "-=", "*=", "/=", "%=", "&=",
   "|=", "^=", "<<=", ">>=", "&^=", "&&", "||", "<-", "++", "--", "==", "<", ">", "=", "!", "~",
   "!=", "<=", ">=", ":=", "(", "[", "\x7b", ",", ".", ")", "]", "\x7d", ";", ":", "\n"]

/-! ## Scanning -/

/-- What an operand is. -/
inductive Atom
  | name (s : String)
  | number (n : Nat)
  deriving DecidableEq

/-- Operands are of any type; reserved words, operators and delimiters are given by their text. -/
inductive Token (α : Type)
  | operand (a : α)
  | symbol (s : String)
  deriving DecidableEq

/-- The beginning of a token, or none. -/
inductive Start
  | blank
  | word (cs : List Char)
  | number (cs : List Char)
  | symbol (cs : List Char)
  deriving DecidableEq

/-- What a word stands for. -/
def Token.ofWord (s : String) : Token Atom :=
  if reserved.contains s then .symbol s else .operand (.name s)

namespace Start

/-- What a character begins. -/
def of (c : Char) : Start :=
  if isWordStart c then word [c]
  else if c.isDigit then number [c]
  else if isBlank c then blank
  else symbol [c]

/-- A longer beginning, if the character goes on with it. -/
def extend? : Start → Char → Option Start
  -- A blank is no token that could be extended, so the character begins something of its own.
  | blank, _ => none
  | word cs, c => if isWordChar c then some (word (cs ++ [c])) else none
  -- Behind a zero there are no other digits: with them it would not be a decimal number.
  | number cs, c => if c.isDigit && cs != ['0'] then some (number (cs ++ [c])) else none
  | symbol cs, c =>
    if symbols.contains (String.ofList (cs ++ [c])) then some (symbol (cs ++ [c])) else none

/-- The token that ends here. -/
def tokens : Start → List (Token Atom)
  | blank => []
  | word cs => [.ofWord (String.ofList cs)]
  | number cs => [.operand (.number (Nat.ofDigitChars 10 cs 0))]
  | symbol cs => [.symbol (String.ofList cs)]

end Start

/-- The tokens of a text behind the beginning of one. -/
def scan (s : Start) : List Char → List (Token Atom)
  | [] => s.tokens
  | c :: cs =>
    match s.extend? c with
    | some s' => scan s' cs
    | none => s.tokens ++ scan (.of c) cs

/-- The tokens of a text. -/
def tokens (text : List Char) : List (Token Atom) := scan .blank text

/-! ## Where a token ends -/

section

variable {s s' : Start} {c : Char} {cs rest : List Char}

theorem tokens_cons (c : Char) (cs : List Char) : tokens (c :: cs) = scan (.of c) cs := rfl

/-- Characters that all extend the beginning, and what does not extend it any more. -/
theorem scan_append (hcs : cs.foldlM Start.extend? s = some s')
    (hrest : ∀ c ∈ rest.head?, s'.extend? c = none) :
    scan s (cs ++ rest) = s'.tokens ++ tokens rest := by
  induction cs generalizing s with
  | nil =>
    obtain rfl : s = s' := Option.some.inj hcs
    cases rest with
    | nil => exact (List.append_nil _).symm
    | cons c rest =>
      rw [List.nil_append, scan, hrest c rfl]
      rfl
  | cons c cs ih =>
    obtain ⟨m, hm, hcs⟩ := Option.bind_eq_some_iff.mp hcs
    rw [List.cons_append, scan, hm]
    exact ih hcs

/-- The text does not go on with a word or a number. -/
def Ends (rest : List Char) : Prop := ∀ c ∈ rest.head?, isWordChar c = false

/-- The text does not go on with a symbol. -/
def Closes (s : String) (rest : List Char) : Prop :=
  ∀ c ∈ rest.head?, (Start.symbol s.toList).extend? c = none

/-- One character decides whether a word or a number goes on. -/
theorem ends_cons (h : isWordChar c = false) (rest : List Char) : Ends (c :: rest) := by
  rintro _ ⟨⟩
  exact h

/-- A name is a word that is not reserved. -/
theorem isWord_of_isName {s : String} (h : isName s = true) : isWord s = true :=
  (Bool.and_eq_true_iff.mp h).1

/-- What begins a word may also stand inside of one. -/
theorem isWordChar_of_isWordStart (h : isWordStart c = true) : isWordChar c = true := by
  simp only [isWordStart, Bool.or_eq_true, Bool.and_eq_true] at h
  simp only [isWordChar, Char.isAlphanum, Text.isAlphanumeric, Bool.or_eq_true, Bool.and_eq_true]
  exact h.imp (Or.imp_right .inl) (And.imp_right .inl)

theorem isWordChar_of_isWord {s : String} (h : isWord s = true) :
    ∀ c ∈ s.toList, isWordChar c = true := by
  unfold isWord at h
  cases hlist : s.toList with
  | nil => nofun
  | cons c cs =>
    simp only [hlist, Bool.and_eq_true, List.all_eq_true] at h
    exact List.forall_mem_cons.mpr ⟨isWordChar_of_isWordStart h.1, h.2⟩

/-- Where no word goes on, no number does either. -/
theorem isDigit_of_ends (h : Ends rest) (hc : c ∈ rest.head?) : c.isDigit = false := by
  have hchar := h c hc
  simp only [isWordChar, Char.isAlphanum, Bool.or_eq_false_iff] at hchar
  exact hchar.1.2.2

/-- Letters come behind the digits in the order of characters. -/
theorem le_toNat_of_isWordStart (h : isWordStart c = true) : 'A'.toNat ≤ c.toNat := by
  simp only [isWordStart, Bool.or_eq_true, Bool.and_eq_true, beq_iff_eq, decide_eq_true_eq] at h
  obtain (rfl | hletter) | ⟨hlo, -⟩ := h
  · decide
  · obtain hupper | hlower := Bool.or_eq_true_iff.mp hletter
    · exact (of_decide_eq_true hupper).1
    · exact Nat.le_trans (by decide) (of_decide_eq_true (Bool.and_eq_true_iff.mp hlower).1)
  · exact Nat.le_trans (by decide) hlo

/-- No word begins with a digit, so a word and a number are told apart at once. -/
theorem isWordStart_of_isDigit (h : c.isDigit = true) : isWordStart c = false := by
  simp only [Char.isDigit, Bool.and_eq_true, decide_eq_true_eq] at h
  have hle : c.toNat ≤ '9'.toNat := h.2
  refine Bool.eq_false_iff.mpr fun hstart => ?_
  exact absurd (Nat.le_trans (le_toNat_of_isWordStart hstart) hle) (by decide)

/-- The beginning that some characters are, if each goes on with those before it. -/
def Start.ofList? : List Char → Option Start
  | [] => none
  | c :: cs => cs.foldlM Start.extend? (.of c)

/-- Every symbol is reached character by character. This is why the ellipsis is left out. -/
theorem ofList?_of_mem_symbols :
    ∀ s ∈ symbols, Start.ofList? s.toList = some (.symbol s.toList) := by
  decide +kernel

/-- No symbol has letters, digits or blanks in it. -/
theorem isWordChar_of_mem_symbols {s : String} (hs : s ∈ symbols) {c : Char} (hc : c ∈ s.toList) :
    isWordChar c = false ∧ isBlank c = false := by
  have hall : symbols.all (fun s => s.toList.all fun c => !isWordChar c && !isBlank c) = true := by
    decide +kernel
  simpa using List.all_eq_true.mp (List.all_eq_true.mp hall s hs) c hc

/-- No symbol goes on with a letter, a digit or a blank. -/
theorem closes_cons {s : String} (h : isWordChar c = true ∨ isBlank c = true) (rest : List Char) :
    Closes s (c :: rest) := by
  rintro _ ⟨⟩
  refine if_neg fun hmem => ?_
  have hc := isWordChar_of_mem_symbols (List.contains_iff_mem.mp hmem) (c := c) (by simp)
  simp [hc] at h

/-- Symbols that no longer one begins with. -/
def solitary : List String := ["(", ")", "[", "]", "\x7b", "\x7d", "\n"]

/-- The solitary symbols are symbols, and no symbol is longer than they are. -/
theorem length_of_mem_solitary :
    ∀ s ∈ solitary, s ∈ symbols ∧ ∀ t ∈ symbols, s.toList <+: t.toList →
      t.toList.length = s.toList.length := by
  decide +kernel

/-- A solitary symbol ends, whatever follows. -/
theorem closes_of_mem_solitary {s : String} (hs : s ∈ solitary) (rest : List Char) :
    Closes s rest := by
  intro c _
  refine if_neg fun hmem => ?_
  have hlength := (length_of_mem_solitary s hs).2 _ (List.contains_iff_mem.mp hmem) (by simp)
  simp at hlength

end

/-! ## What the pieces of a text are read as -/

/-- `cs` is read as `ts`, provided that what follows meets `P`. -/
def Lexes (P : List Char → Prop) (cs : List Char) (ts : List (Token Atom)) : Prop :=
  ∀ rest, P rest → tokens (cs ++ rest) = ts ++ tokens rest

def Anything : List Char → Prop := fun _ => True

section

variable {P Q : List Char → Prop} {c : Char} {cs ds : List Char} {ts us : List (Token Atom)}
  {s : String}

theorem lexes_nil : Lexes P [] [] := fun _ _ => rfl

/-- What follows the first part is the second part with its own surroundings. -/
theorem Lexes.append (hcs : Lexes P cs ts) (hds : Lexes Q ds us)
    (h : ∀ rest, Q rest → P (ds ++ rest)) : Lexes Q (cs ++ ds) (ts ++ us) := by
  intro rest hrest
  rw [List.append_assoc, hcs _ (h rest hrest), hds rest hrest, List.append_assoc]

/-- What does not care about its surroundings can be followed by anything. -/
theorem Lexes.prepend (hcs : Lexes Anything cs ts) (hds : Lexes Q ds us) :
    Lexes Q (cs ++ ds) (ts ++ us) :=
  hcs.append hds fun _ _ => trivial

theorem Lexes.anywhere (h : Lexes Anything cs ts) : Lexes P cs ts := fun rest _ => h rest trivial

/-- A blank is read as nothing. -/
theorem lexes_blank (h : isBlank c = true) : Lexes Anything [c] [] := by
  intro rest _
  have hof : Start.of c = .blank := by
    simp only [isBlank, Bool.or_eq_true, beq_iff_eq] at h
    obtain (rfl | rfl) | rfl := h <;> decide
  rw [List.singleton_append, tokens_cons, hof]
  rfl

/-- Characters of a word go on with it. -/
theorem extends_word (hcs : ∀ c ∈ cs, isWordChar c = true) (front : List Char) :
    cs.foldlM Start.extend? (.word front) = some (.word (front ++ cs)) := by
  induction cs generalizing front with
  | nil => simp
  | cons c cs ih =>
    obtain ⟨hc, hcs⟩ := List.forall_mem_cons.mp hcs
    simp [Start.extend?, hc, ih hcs]

/-- A word is a token if the text does not go on with it. -/
theorem lexes_word (hs : isWord s = true) : Lexes Ends s.toList [.ofWord s] := by
  intro rest hrest
  have hofList : String.ofList s.toList = s := String.ofList_toList
  unfold isWord at hs
  cases hlist : s.toList with
  | nil => simp [hlist] at hs
  | cons c cs =>
    simp only [hlist, Bool.and_eq_true, List.all_eq_true] at hs
    -- The word is complete, as what follows does not go on with it.
    have hclosed : ∀ d ∈ rest.head?, (Start.word ([c] ++ cs)).extend? d = none := fun d hd =>
      if_neg (Bool.eq_false_iff.mp (hrest d hd))
    rw [List.cons_append, tokens_cons, Start.of, if_pos hs.1,
      scan_append (extends_word hs.2 [c]) hclosed, List.singleton_append, Start.tokens, ← hlist,
      hofList]

/-- A name is read as an operand, as it is not reserved. -/
theorem lexes_name (hs : isName s = true) : Lexes Ends s.toList [.operand (.name s)] := by
  simp only [isName, Bool.and_eq_true, Bool.not_eq_true'] at hs
  have hword : Token.ofWord s = .operand (.name s) := if_neg (Bool.eq_false_iff.mp hs.2)
  exact hword ▸ lexes_word hs.1

/-- Digits go on with a number, unless it is zero. -/
theorem extends_number (hcs : ∀ c ∈ cs, c.isDigit = true) {front : List Char} (hne : front ≠ [])
    (hzero : front ≠ ['0']) :
    cs.foldlM Start.extend? (.number front) = some (.number (front ++ cs)) := by
  induction cs generalizing front with
  | nil => simp
  | cons c cs ih =>
    obtain ⟨hc, hcs⟩ := List.forall_mem_cons.mp hcs
    have hlong : front ++ [c] ≠ ['0'] := fun h => by
      cases front with
      | nil => exact hne rfl
      | cons d front => simp at h
    simp [Start.extend?, hc, hzero, ih hcs (List.append_ne_nil_of_right_ne_nil _ (by simp)) hlong]

theorem isDigit_of_mem_toDigits {n : Nat} (h : c ∈ Nat.toDigits 10 n) : c.isDigit = true :=
  Nat.isDigit_of_mem_toDigits (by decide) (by decide) h

/-- The text of a number is its digits. -/
theorem toList_toString (n : Nat) : (toString n).toList = Nat.toDigits 10 n := by
  rw [Nat.toString_eq_ofList_toDigits, String.toList_ofList]

theorem toList_ofNat (n : Nat) : (toString (Int.ofNat n)).toList = Nat.toDigits 10 n := by
  show (Nat.repr n).toList = _
  rw [Nat.repr, String.toList_ofList]

/-- A negative number has a sign in front of its digits. -/
theorem toList_negSucc (n : Nat) :
    (toString (Int.negSucc n)).toList = '-' :: Nat.toDigits 10 (n + 1) := by
  show ("-" ++ Nat.repr (n + 1)).toList = _
  simp [Nat.repr]

/-- The first digit of a number is not zero. -/
theorem toDigits_of_pos {n : Nat} (hn : 0 < n) :
    ∃ c ∈ "123456789".toList, ∃ cs, Nat.toDigits 10 n = c :: cs ∧
      ∀ d ∈ cs, d ∈ "0123456789".toList := by
  induction n using Nat.strongRecOn with
  | ind n ih =>
    by_cases hlt : n < 10
    · have hfirst : Nat.digitChar n ∈ "123456789".toList :=
        (by decide : ∀ k < 10, 0 < k → Nat.digitChar k ∈ "123456789".toList) n hlt hn
      exact ⟨_, hfirst, [], Nat.toDigits_of_lt_base hlt, by simp⟩
    · have hle : 10 ≤ n := Nat.le_of_not_lt hlt
      obtain ⟨c, hc, cs, hcs, hdigits⟩ := ih (n / 10) (by omega) (by omega)
      have hlast : Nat.digitChar (n % 10) ∈ "0123456789".toList :=
        (by decide : ∀ k < 10, Nat.digitChar k ∈ "0123456789".toList) _ (Nat.mod_lt n (by decide))
      refine ⟨c, hc, cs ++ [Nat.digitChar (n % 10)], ?_, ?_⟩
      · rw [Nat.toDigits_of_base_le (by decide) hle, hcs, List.cons_append]
      · intro d hd
        obtain hd | hd := List.mem_append.mp hd
        · exact hdigits d hd
        · exact List.mem_singleton.mp hd ▸ hlast

/-- A number ends where no digit follows, and zero ends anywhere. -/
theorem lexes_digits (n : Nat) :
    Lexes (fun rest => n ≠ 0 → ∀ d ∈ rest.head?, d.isDigit = false) (Nat.toDigits 10 n)
      [.operand (.number n)] := by
  intro rest hrest
  obtain rfl | hn := Nat.eq_zero_or_pos n
  · have hclosed : ∀ d ∈ rest.head?, (Start.number ['0']).extend? d = none := by
      simp [Start.extend?]
    have hread : scan (.number ['0']) ([] ++ rest) = [.operand (.number 0)] ++ tokens rest :=
      scan_append rfl hclosed
    exact hread
  · have hdigits : ∀ c ∈ Nat.toDigits 10 n, c.isDigit = true := fun _ => isDigit_of_mem_toDigits
    have hvalue : Nat.ofDigitChars 10 (Nat.toDigits 10 n) 0 = n := Nat.ofDigitChars_ten_toDigits
    obtain ⟨c, hfirst, cs, hlist, -⟩ := toDigits_of_pos hn
    rw [hlist] at hdigits hvalue
    obtain ⟨hc, hcs⟩ := List.forall_mem_cons.mp hdigits
    have hstart : ¬ isWordStart c = true := Bool.eq_false_iff.mp (isWordStart_of_isDigit hc)
    have hzero : [c] ≠ ['0'] := by
      rintro ⟨⟩
      exact absurd hfirst (by decide)
    have hclosed : ∀ d ∈ rest.head?, (Start.number ([c] ++ cs)).extend? d = none := fun d hd => by
      simp [Start.extend?, hrest (Nat.ne_of_gt hn) d hd]
    rw [hlist, List.cons_append, tokens_cons, Start.of, if_neg hstart, if_pos hc,
      scan_append (extends_number hcs (by simp) hzero) hclosed, List.singleton_append, Start.tokens,
      hvalue]

/-- A number in front of anything that does not go on with a word is a token. -/
theorem lexes_number (n : Nat) : Lexes Ends (Nat.toDigits 10 n) [.operand (.number n)] :=
  fun rest hrest => lexes_digits n rest fun _ _ => isDigit_of_ends hrest

/-- A symbol is a token if the text does not go on with a longer one. -/
theorem lexes_symbol (hs : s ∈ symbols) : Lexes (Closes s) s.toList [.symbol s] := by
  intro rest hrest
  have hstart := ofList?_of_mem_symbols s hs
  have hofList : String.ofList s.toList = s := String.ofList_toList
  unfold Closes at hrest
  cases hlist : s.toList with
  | nil => simp [hlist, Start.ofList?] at hstart
  | cons c cs =>
    rw [hlist] at hstart hrest hofList
    rw [List.cons_append, tokens_cons, scan_append hstart hrest, Start.tokens, hofList]

/-- A solitary symbol is a token anywhere. -/
theorem lexes_solitary (hs : s ∈ solitary) : Lexes Anything s.toList [.symbol s] := fun rest _ =>
  lexes_symbol (length_of_mem_solitary s hs).1 rest (closes_of_mem_solitary hs rest)

/-- A symbol with blanks around it. -/
theorem lexes_spaced (hs : s ∈ symbols) :
    Lexes Anything (' ' :: (s.toList ++ [' '])) [.symbol s] := by
  have hspace : Lexes Anything [' '] [] := lexes_blank rfl
  have hsymbol := (lexes_symbol hs).append hspace fun rest _ => closes_cons (.inr rfl) rest
  simpa using hspace.prepend hsymbol

end

end Lowering.Go
