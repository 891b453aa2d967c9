import Lowering.Proofs.Go.Lexical
import Lowering.Proofs.Go.Literal
import Lowering.Proofs.Source.Rendering

/-!
# Constants in source text

Truth values, integers and strings are read back from their text as what they are, with their kind.
Their texts have no control characters in them, so neither the indentation of a file nor its lines
change them (`readLiteral?_literalText`).
-/

namespace Lowering.Source

open Go Go.Literal

/-! ## Numbers -/

/-- Digits are read as the number that they are the digits of. -/
theorem readNat?_toDigits (n : Nat) : readNat? (Nat.toDigits 10 n) = some n := by
  have hall : (Nat.toDigits 10 n).all Char.isDigit = true :=
    List.all_eq_true.mpr fun c hc => isDigit_of_mem_toDigits hc
  have hzero : (Nat.toDigits 10 n).head? = some '0' → Nat.toDigits 10 n = ['0'] := by
    intro hhead
    obtain rfl | hn := Nat.eq_zero_or_pos n
    · rfl
    · obtain ⟨c, hc, cs, hlist, -⟩ := toDigits_of_pos hn
      rw [hlist] at hhead
      obtain rfl := Option.some.inj hhead
      exact absurd hc (by decide)
  rw [readNat?, if_pos ⟨Nat.toDigits_ne_nil, hall, hzero⟩, Nat.ofDigitChars_ten_toDigits]

theorem readInt?_of_head? {cs : List Char} (h : cs.head? ≠ some '-') :
    readInt? cs = (readNat? cs).map fun n => (n : Int) := by
  rw [readInt?]
  rintro rest rfl
  exact h rfl

theorem head?_toDigits_ne {n : Nat} {c : Char} (hc : c.isDigit = false) :
    (Nat.toDigits 10 n).head? ≠ some c := by
  intro hhead
  have hdigit := isDigit_of_mem_toDigits (List.mem_of_mem_head? hhead)
  simp [hc] at hdigit

/-- A number is read back, whatever its sign. -/
theorem readInt?_toString (z : Int) : readInt? (toString z).toList = some z := by
  cases z with
  | ofNat n =>
    rw [toList_ofNat, readInt?_of_head? (head?_toDigits_ne (by decide)), readNat?_toDigits]
    rfl
  | negSucc n =>
    rw [toList_negSucc, readInt?, readNat?_toDigits]
    rfl

/-- A constant in the range of its type is accepted. -/
theorem represent?_of_fits {k : IntKind} {z : Int} (hz : k.Fits z) :
    represent? k z = some (.integer k z hz) :=
  dif_pos hz

/-- A conversion is taken apart at its first parenthesis, which no name has in it. -/
theorem conversion?_name (k : IntKind) (s : String) :
    conversion? (k.name ++ "(" ++ s ++ ")").toList = some (k, s.toList) := by
  have hname : ∀ c ∈ k.name.toList, (c != '(') = true :=
    List.all_eq_true.mp (by cases k <;> decide)
  have hspan : (k.name ++ "(" ++ s ++ ")").toList.span (· != '(') =
      (k.name.toList, '(' :: (s.toList ++ [')'])) := by
    simp [List.span_eq_takeWhile_dropWhile, List.takeWhile_append_of_pos hname,
      List.dropWhile_append_of_pos hname]
  have hfind : IntKind.all.find? (·.name.toList == k.name.toList) = some k := by
    cases k <;> decide
  rw [conversion?, hspan]
  simp [hfind]

/-- Without a parenthesis there is no conversion. -/
theorem conversion?_eq_none {cs : List Char} (h : '(' ∉ cs) : conversion? cs = none := by
  have hall : ∀ c ∈ cs, (c != '(') = true := by
    intro c hc
    simp only [bne_iff_ne]
    rintro rfl
    exact h hc
  have hrest : cs.dropWhile (· != '(') = [] := by
    have happend : (cs ++ []).dropWhile (· != '(') = [] := List.dropWhile_append_of_pos hall
    rwa [List.append_nil] at happend
  rw [conversion?, List.span_eq_takeWhile_dropWhile, hrest]

/-! ## Strings -/

theorem hexPair_eq {n : Nat} (hn : n < 256) :
    Text.hexPair n = [Nat.digitChar (n / 16), Nat.digitChar (n % 16)] := by
  rw [Text.hexPair, Text.hexDigits]
  by_cases hlt : n < 16
  · rw [Nat.toDigits_of_lt_base hlt, Nat.div_eq_of_lt hlt, Nat.mod_eq_of_lt hlt]
    rfl
  · have hle : 16 ≤ n := Nat.le_of_not_lt hlt
    have hdiv : n / 16 < 16 := by omega
    rw [Nat.toDigits_of_base_le (by decide) hle, Nat.toDigits_of_lt_base hdiv]
    rfl

theorem digit?_digitChar : ∀ d < 16, digit? 16 (Nat.digitChar d) = some d := by decide +kernel

/-- A byte that is written in hexadecimal. -/
theorem readCode?_hexPair {n : Nat} (hn : n < 256) (rest : List Char) :
    readCode? 16 2 byte? (Text.hexPair n ++ rest) = some ([.ofNat n], rest) := by
  have hhigh := digit?_digitChar (n / 16) (by omega)
  have hlow := digit?_digitChar (n % 16) (by omega)
  have hvalue : n / 16 * 16 + n % 16 = n := by omega
  simp [readCode?, readDigits?, byte?, hexPair_eq hn, hhigh, hlow, hvalue, hn]

/-- A character of one byte is that byte. -/
theorem utf8EncodeChar_of_lt {c : Char} (hc : c.toNat < 128) :
    String.utf8EncodeChar c = [.ofNat c.toNat] := by
  have hsize : c.utf8Size = 1 := Char.utf8Size_eq_one_iff.mpr (Nat.le_of_lt_succ hc)
  rw [String.utf8EncodeChar_eq_singleton hsize]
  rfl

/-- Every character is read back from what is written for it. -/
theorem readElement?_quoteChar (c : Char) (rest : List Char) :
    readElement? (Text.quoteChar c ++ rest) = some (String.utf8EncodeChar c, rest) := by
  rw [Text.quoteChar]
  split
  · next h => rw [h]; rfl
  split
  · next h => rw [h]; rfl
  split
  · next h => rw [h]; rfl
  split
  · next h => rw [h]; rfl
  split
  · next h => rw [h]; rfl
  split
  · next h =>
    have hlt : c.toNat < 128 := by omega
    have hx : readEscape? ('x' :: (Text.hexPair c.toNat ++ rest)) =
        readCode? 16 2 byte? (Text.hexPair c.toNat ++ rest) := rfl
    rw [List.cons_append, List.cons_append, readElement?, if_pos rfl, hx,
      readCode?_hexPair (by omega), utf8EncodeChar_of_lt hlt]
  · next hslash hline _ _ _ =>
    rw [List.singleton_append, readElement?, if_neg hslash, if_neg hline]

/-- A quoted character never looks like the closing quote. -/
theorem head?_quoteChar (c : Char) (rest : List Char) :
    (Text.quoteChar c ++ rest).head? ≠ some '"' := by
  rw [Text.quoteChar]
  split
  · simp
  iterate 5
    split
    · simp
  · next hquote _ _ _ _ _ => simpa using hquote

/-- By induction on the characters, of which each is plain or escaped. -/
theorem readQuoted?_quoted (cs rest : List Char) :
    readQuoted? (cs.flatMap Text.quoteChar ++ '"' :: rest) =
      some (cs.flatMap String.utf8EncodeChar, rest) := by
  induction cs with
  | nil => exact readQuoted?_quote rest
  | cons c cs ih =>
    rw [List.flatMap_cons, List.append_assoc,
      readQuoted?_of_readElement? (head?_quoteChar c _) (readElement?_quoteChar c _), ih]
    rfl

theorem toList_quote (s : String) :
    (Text.quote s).toList = '"' :: (s.toList.flatMap Text.quoteChar ++ ['"']) := by
  simp [Text.quote]

/-- A string is read back from its literal. -/
theorem readString?_quote (s : String) : readString? (Text.quote s).toList = some s := by
  have hbytes : (⟨(s.toList.flatMap String.utf8EncodeChar).toArray⟩ : ByteArray) =
      s.toByteArray := by
    rw [← String.utf8Encode_toList, List.utf8Encode]
    exact ByteArray.ext List.data_toByteArray.symm
  rw [toList_quote, readString?, readQuoted?_quoted]
  simp [hbytes, String.fromUTF8?, String.fromUTF8, s.isValidUTF8]

/-! ## Constants -/

/-- Truth values, integers and strings: the values whose text says exactly what they are. -/
def IsExact : Value → Prop
  | .bool _ | .integer _ _ _ | .string _ => True
  | .float _ _ | .complex _ _ _ => False

theorem char_of_mem_toString {z : Int} {c : Char} (hc : c ∈ (toString z).toList) :
    c = '-' ∨ c.isDigit = true := by
  cases z with
  | ofNat n =>
    rw [toList_ofNat] at hc
    exact .inr (isDigit_of_mem_toDigits hc)
  | negSucc n =>
    rw [toList_negSucc] at hc
    obtain rfl | hc := List.mem_cons.mp hc
    · exact .inl rfl
    · exact .inr (isDigit_of_mem_toDigits hc)

/-- A number is told from other literals by its characters. -/
theorem not_mem_toString {z : Int} {c : Char} (hminus : c ≠ '-') (hdigit : c.isDigit = false) :
    c ∉ (toString z).toList := by
  intro hc
  obtain rfl | hc := char_of_mem_toString hc
  · exact hminus rfl
  · simp [hdigit] at hc

/-- A literal without a type is of type `int`. -/
theorem readLiteral?_int {z : Int} (hz : IntKind.int.Fits z) :
    readLiteral? (toString z).toList = some (.integer .int z hz) := by
  have hhead : ∀ c ∈ ['t', 'f', '"'], (toString z).toList.head? ≠ some c := by
    intro c hc hhead
    have hother : c ≠ '-' ∧ c.isDigit = false := by
      simp only [List.mem_cons, List.not_mem_nil, or_false] at hc
      obtain rfl | rfl | rfl := hc <;> decide
    exact not_mem_toString hother.1 hother.2 (List.mem_of_mem_head? hhead)
  have hparen : '(' ∉ (toString z).toList := not_mem_toString (by decide) (by decide)
  rw [readLiteral?_eq_readNumber? hhead, readNumber?, conversion?_eq_none hparen]
  show (readInt? (toString z).toList).bind _ = _
  rw [readInt?_toString]
  exact represent?_of_fits hz

/-- The other types are stated. -/
theorem readLiteral?_integer {k : IntKind} {z : Int} (hz : k.Fits z) :
    readLiteral? (k.name ++ "(" ++ toString z ++ ")").toList = some (.integer k z hz) := by
  have hhead : ∀ c ∈ ['t', 'f', '"'],
      (k.name ++ "(" ++ toString z ++ ")").toList.head? ≠ some c := by
    cases k <;> simp [IntKind.name]
  rw [readLiteral?_eq_readNumber? hhead, readNumber?, conversion?_name]
  show (readInt? (toString z).toList).bind _ = _
  rw [readInt?_toString]
  exact represent?_of_fits hz

theorem readLiteral?_string (s : String) :
    readLiteral? (Text.quote s).toList = some (.string s) := by
  have hread := readString?_quote s
  rw [toList_quote] at hread ⊢
  rw [readLiteral?, if_neg (by simp), if_neg (by simp), if_pos List.head?_cons, hread]
  rfl

/-- A literal means the constant that it was written for. -/
theorem readLiteral?_of_isExact {v : Value} (hv : IsExact v) :
    readLiteral? (literalText v).toList = some v := by
  cases v with
  | bool b => cases b <;> rfl
  | integer k z hz =>
    cases k with
    | int => exact readLiteral?_int hz
    | _ => exact readLiteral?_integer hz
  | string s => exact readLiteral?_string s
  | float p x => exact absurd hv id
  | complex p re im => exact absurd hv id

/-! ## Control characters -/

theorem printable_hexPair {n : Nat} (hn : n < 256) : ∀ c ∈ Text.hexPair n, 0x20 ≤ c.toNat := by
  have hdigit : ∀ d < 16, 0x20 ≤ (Nat.digitChar d).toNat := by decide
  rw [hexPair_eq hn]
  intro c hc
  simp only [List.mem_cons, List.not_mem_nil, or_false] at hc
  obtain rfl | rfl := hc
  · exact hdigit _ (by omega)
  · exact hdigit _ (by omega)

/-- What is not printable is escaped. -/
theorem printable_quoteChar (c : Char) : ∀ d ∈ Text.quoteChar c, 0x20 ≤ d.toNat := by
  rw [Text.quoteChar]
  iterate 5
    split
    · simp
  split
  · next h =>
    have hhex := printable_hexPair (n := c.toNat) (by omega)
    simpa using hhex
  · next h =>
    simp only [List.mem_singleton, forall_eq]
    omega

theorem printable_toString (z : Int) : ∀ c ∈ (toString z).toList, 0x20 ≤ c.toNat := by
  intro c hc
  obtain rfl | hdigit := char_of_mem_toString hc
  · decide
  · simp only [Char.isDigit, Bool.and_eq_true, decide_eq_true_eq] at hdigit
    exact Nat.le_trans (by decide) hdigit.1

theorem printable_of_all {s : String} (h : s.toList.all (fun c => 0x20 ≤ c.toNat) = true) :
    ∀ c ∈ s.toList, 0x20 ≤ c.toNat := by
  simpa using h

theorem printable_append {s u : String} (hs : ∀ c ∈ s.toList, 0x20 ≤ c.toNat)
    (hu : ∀ c ∈ u.toList, 0x20 ≤ c.toNat) : ∀ c ∈ (s ++ u).toList, 0x20 ≤ c.toNat := by
  intro c hc
  rw [String.toList_append] at hc
  exact (List.mem_append.mp hc).elim (hs c) (hu c)

theorem printable_stated (k : IntKind) (z : Int) :
    ∀ c ∈ (k.name ++ "(" ++ toString z ++ ")").toList, 0x20 ≤ c.toNat := by
  have hname : ∀ c ∈ (k.name ++ "(").toList, 0x20 ≤ c.toNat :=
    printable_of_all (by cases k <;> decide)
  exact printable_append (printable_append hname (printable_toString z))
    (printable_of_all (by decide))

/-- A literal stands on one line, whatever the string is. -/
theorem printable_quote (s : String) : ∀ c ∈ (Text.quote s).toList, 0x20 ≤ c.toNat := by
  intro c hc
  simp only [toList_quote, List.mem_cons, List.mem_append, List.mem_flatMap, List.not_mem_nil,
    or_false] at hc
  obtain rfl | ⟨d, -, hc⟩ | rfl := hc
  · decide
  · exact printable_quoteChar d c hc
  · decide

/-- No text of a truth value, an integer or a string has a control character in it. -/
theorem printable_literalText {v : Value} (hv : IsExact v) :
    ∀ c ∈ (literalText v).toList, 0x20 ≤ c.toNat := by
  cases v with
  | bool b => exact printable_of_all (by cases b <;> decide)
  | integer k z hz =>
    cases k with
    | int => exact printable_toString z
    | _ => exact printable_stated _ z
  | string s => exact printable_quote s
  | float p x => exact absurd hv id
  | complex p re im => exact absurd hv id

/-! ## Files -/

/-- Where all computations succeed, each of them has. -/
theorem exists_of_mapM {ε α β : Type} {f : α → Except ε β} {xs : List α} {ys : List β} {x : α}
    (h : xs.mapM f = .ok ys) (hx : x ∈ xs) : ∃ y ∈ ys, f x = .ok y := by
  induction xs generalizing ys with
  | nil => cases hx
  | cons x' xs ih =>
    rw [List.mapM_cons] at h
    obtain ⟨y, hy, h⟩ := bind_eq_ok.mp h
    obtain ⟨ys', hys, h⟩ := bind_eq_ok.mp h
    obtain rfl := Except.ok.inj h
    obtain rfl | hx := List.mem_cons.mp hx
    · exact ⟨y, List.mem_cons_self, hy⟩
    · obtain ⟨y', hmem, hy'⟩ := ih hys hx
      exact ⟨y', List.mem_cons_of_mem _ hmem, hy'⟩

/-- A text of several is part of all of them together. -/
theorem exists_join {texts : List String} {text : String} (h : text ∈ texts) :
    ∃ before after, String.join texts = before ++ text ++ after := by
  obtain ⟨xs, ys, rfl⟩ := List.append_of_mem h
  exact ⟨String.join xs, String.join ys, by simp [String.append_assoc]⟩

/-- A line stands in a text as it is rendered. -/
theorem exists_of_renderLines {slots : Array (Option String)} {lines : List Line} {l : Line}
    {out : String} (h : renderLines slots lines = .ok out) (hl : l ∈ lines) :
    ∃ text before after, renderPieces slots l.pieces = .ok text ∧
      out = before ++ (text ++ "\n") ++ after := by
  obtain ⟨texts, htexts, h⟩ := bind_eq_ok.mp h
  obtain rfl := Except.ok.inj h
  obtain ⟨line, hline, hrender⟩ := exists_of_mapM htexts hl
  obtain ⟨text, htext, hrender⟩ := bind_eq_ok.mp hrender
  obtain rfl := Except.ok.inj hrender
  obtain ⟨before, after, hjoin⟩ := exists_join hline
  exact ⟨text, before ++ _, after, htext, by simpa [String.append_assoc] using hjoin⟩

/-- The lines of a file: those of the functions, and those of the top level. -/
def Builder.writtenLines (b : Builder) : List Line :=
  b.funcs.toList.flatten ++ b.top.lines.toList

/-- A line stands in the file, with its tabs replaced. -/
theorem exists_of_render {b : Builder} {l : Line} {source : String}
    (h : b.render = .ok source) (hl : l ∈ b.writtenLines) :
    ∃ text before after, renderPieces b.slots l.pieces = .ok text ∧
      source = replaceTabs b.options.indent (before ++ (text ++ "\n") ++ after) := by
  obtain ⟨funcs, hfuncs, h⟩ := bind_eq_ok.mp h
  obtain ⟨top, htop, h⟩ := bind_eq_ok.mp h
  obtain rfl := Except.ok.inj h
  obtain hl | hl := List.mem_append.mp hl
  · obtain ⟨lines, hlines, hl⟩ := List.mem_flatten.mp hl
    obtain ⟨func, hfunc, hrender⟩ := exists_of_mapM hfuncs hlines
    obtain ⟨out, hout, hrender⟩ := bind_eq_ok.mp hrender
    obtain rfl := Except.ok.inj hrender
    obtain ⟨text, before, after, htext, rfl⟩ := exists_of_renderLines hout hl
    obtain ⟨before', after', hjoin⟩ := exists_join hfunc
    refine ⟨text,
      "package " ++ b.options.package ++ "\n\n" ++ b.imports.clause ++ before' ++ before,
      after ++ "\n" ++ after' ++ "func " ++ b.options.mainFunc ++ "() \x7b\n" ++ top ++
        "\x7d\n", htext, ?_⟩
    simp [hjoin, String.append_assoc]
  · obtain ⟨text, before, after, htext, rfl⟩ := exists_of_renderLines htop hl
    refine ⟨text, "package " ++ b.options.package ++ "\n\n" ++ b.imports.clause ++
      String.join funcs ++ "func " ++ b.options.mainFunc ++ "() \x7b\n" ++ before,
      after ++ "\x7d\n", htext, ?_⟩
    simp [String.append_assoc]

/-- What is put in front without a line break belongs to the first line. -/
theorem splitOn_append {w rest : List Char} (hw : '\n' ∉ w) :
    (w ++ rest).splitOn '\n' = (rest.splitOn '\n').modifyHead (w ++ ·) := by
  induction w with
  | nil =>
    rw [List.nil_append]
    cases rest.splitOn '\n' <;> rfl
  | cons c w ih =>
    obtain ⟨hc, hw⟩ := not_or.mp (mt List.mem_cons.mpr hw)
    have hne : (c == '\n') = false := by simpa using Ne.symm hc
    rw [List.cons_append, List.splitOn_cons_eq_if_modifyHead, hne, ih hw]
    cases rest.splitOn '\n' <;> rfl

/-- What has no end of a line in it stands inside one line. -/
theorem exists_line_of_infix {w cs : List Char} (h : w <:+: cs) (hw : '\n' ∉ w) :
    ∃ line ∈ cs.splitOn '\n', w <:+: line := by
  obtain ⟨front, back, rfl⟩ := h
  induction front with
  | nil =>
    rw [List.nil_append, splitOn_append hw]
    cases hsplit : back.splitOn '\n' with
    | nil => exact absurd hsplit (List.splitOn_ne_nil _ _)
    | cons line lines => exact ⟨w ++ line, List.mem_cons_self, [], line, rfl⟩
  | cons c front ih =>
    obtain ⟨line, hline, hinfix⟩ := ih
    rw [List.cons_append, List.cons_append, List.splitOn_cons_eq_if_modifyHead]
    split
    · exact ⟨line, List.mem_cons_of_mem _ hline, hinfix⟩
    · cases hsplit : (front ++ w ++ back).splitOn '\n' with
      | nil => exact absurd hsplit (List.splitOn_ne_nil _ _)
      | cons first lines =>
        rw [hsplit] at hline
        obtain rfl | hline := List.mem_cons.mp hline
        · exact ⟨c :: line, List.mem_cons_self, hinfix.trans (List.suffix_cons c line).isInfix⟩
        · exact ⟨line, List.mem_cons_of_mem _ hline, hinfix⟩

theorem replaceTabs_append (indent s u : String) :
    replaceTabs indent (s ++ u) = replaceTabs indent s ++ replaceTabs indent u :=
  String.toList_inj.mp (by rw [toList_replaceTabs_append, String.toList_append])

/-- Only tabs are replaced. -/
theorem replaceTabs_of_not_mem {indent s : String} (h : '\t' ∉ s.toList) :
    replaceTabs indent s = s :=
  String.toList_inj.mp (toList_replaceTabs_of_not_mem h)

theorem not_mem_of_printable {s : String} (h : ∀ c ∈ s.toList, 0x20 ≤ c.toNat) {c : Char}
    (hc : c.toNat < 0x20) : c ∉ s.toList := fun hmem => Nat.not_le.mpr hc (h c hmem)

/-- **Constants are read back.** The text of a truth value, an integer or a string denotes this
value with its kind, and no control character is in it. So it stands in a file as it is, whatever
tabs become there: the tabs before it and behind it are replaced, and it has none itself. No line
ends inside it. -/
theorem readLiteral?_literalText (v : Value) (hv : IsExact v) :
    readLiteral? (literalText v).toList = some v ∧
      (∀ c ∈ (literalText v).toList, 0x20 ≤ c.toNat) ∧
      ∀ (b : Builder) (l : Line) (front back source : String), b.render = .ok source →
        l ∈ b.writtenLines →
        renderPieces b.slots l.pieces = .ok (front ++ literalText v ++ back) →
        (∃ before after, source = before ++ replaceTabs b.options.indent front ++ literalText v ++
          replaceTabs b.options.indent back ++ "\n" ++ after) ∧
        ∃ line ∈ source.toList.splitOn '\n', (literalText v).toList <:+: line := by
  have hprintable := printable_literalText hv
  have htab : '\t' ∉ (literalText v).toList := not_mem_of_printable hprintable (by decide)
  have hline : '\n' ∉ (literalText v).toList := not_mem_of_printable hprintable (by decide)
  refine ⟨readLiteral?_of_isExact hv, hprintable, ?_⟩
  intro b l front back source hsource hl htext
  obtain ⟨text, before, after, htext', rfl⟩ := exists_of_render hsource hl
  obtain rfl := Except.ok.inj (htext'.symm.trans htext)
  have hend : replaceTabs b.options.indent "\n" = "\n" := replaceTabs_of_not_mem (by decide)
  simp only [replaceTabs_append, replaceTabs_of_not_mem htab, hend]
  generalize replaceTabs b.options.indent before = first
  generalize replaceTabs b.options.indent after = last
  refine ⟨⟨first, last, by simp only [String.append_assoc]⟩, exists_line_of_infix ?_ hline⟩
  refine ⟨(first ++ replaceTabs b.options.indent front).toList,
    (replaceTabs b.options.indent back ++ "\n" ++ last).toList, ?_⟩
  simp only [String.toList_append, List.append_assoc]

/-- A control character before a hexadecimal digit, a tab and a quote. -/
def quotedString : Value := .string "\x01f\t\""

/-- A file with one line, which is indented by two blanks. -/
def quotedFile : Builder where
  id := 11
  registry := {}
  options := { indent := "  " }
  top := { lines := #[⟨1, [.text "x\t= ", .text (literalText quotedString)]⟩] }

def quotedSource : String :=
  "package main\n\nfunc main() \x7b\n  x  = \"\\x01f\\t\\\"\"\n\x7d\n"

theorem readLiteral?_quotedString :
    IsExact quotedString ∧ quotedFile.render = .ok quotedSource ∧
      readLiteral? "\"\\x01f\\t\\\"\"".toList = some quotedString ∧
      ∃ line ∈ quotedSource.toList.splitOn '\n', "\"\\x01f\\t\\\"\"".toList <:+: line := by
  have hrender : quotedFile.render = .ok quotedSource := eq_ok_of_toOption (by decide +kernel)
  obtain ⟨hread, -, hfile⟩ := readLiteral?_literalText quotedString trivial
  obtain ⟨-, hline⟩ := hfile quotedFile _ "x\t= " "" _ hrender (List.mem_singleton.mpr rfl)
    (eq_ok_of_toOption (by decide +kernel))
  exact ⟨trivial, hrender, hread, hline⟩

end Lowering.Source
