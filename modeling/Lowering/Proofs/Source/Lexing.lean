import Lowering.Proofs.Go.Lexical
import Lowering.Proofs.Source.Parenthesization

/-!
# Rendered expressions as tokens

The text of an expression is written without blanks around unary operators and parentheses. It is
split into what was written as long as no two neighbours go together into one token. Binary
operators have blanks around them, and what a unary operator stands before begins with a letter, a
digit, a parenthesis or another unary operator. Of these pairs only two minus signs are a token, so
a negation of a negation, or of a negative number, is split differently, and nothing else is
(`splits_of_run_calls`).
-/

namespace Lowering.Source

open Go Go.Lexical
open Builder (varName)

/-! ## What is written -/

/-- The tokens of a whole number: its digits, and a sign before them if it is negative. -/
def numeral (z : Int) : List String :=
  if z < 0 then ["-", toString z.natAbs] else [toString z.natAbs]

/-- The tokens that are written for a token of a tree. -/
def lexemes : Token Operand → List String
  | .symbol s => [s]
  | .operand (.var v) => [varName v]
  | .operand (.const (.integer _ z _)) => numeral z
  | .operand (.const v) => [literalText v]
  | .operand (.slot _) => []

namespace ExprTree

/-- Operators, parentheses, names and numbers in the order in which they are written. -/
def written (t : ExprTree) : List String := (t.expr 0).print.flatMap lexemes

/-- Variables, whole numbers and operators. -/
def IsArithmetic : ExprTree → Prop
  | var v => isName (varName v) = true
  | const (.integer .int _ _) => True
  | unary _ _ x => x.IsArithmetic
  | binary _ _ x y => x.IsArithmetic ∧ y.IsArithmetic
  | _ => False

/-- Whether the text begins with a minus sign, where it is not in parentheses. -/
def isNegative : ExprTree → Bool
  | const (.integer _ z _) => z < 0
  | unary _ .neg _ => true
  | _ => false

/-- Whether a negation stands directly before a minus sign. -/
def hasDoubleMinus : ExprTree → Bool
  | unary _ op x => op = .neg && x.isNegative || x.hasDoubleMinus
  | binary _ _ x y => x.hasDoubleMinus || y.hasDoubleMinus
  | _ => false

end ExprTree

/-! ## Operators before their operands -/

/-- What an operand begins with, if it is not a letter or a digit. -/
def operandMarks : List Char := ['-', '!', '^', '(']

/-- Where a unary operator is followed by this text, the two stay apart unless both are minus
signs. -/
def CanFollow (negative : Bool) (cs : List Char) : Prop :=
  ∃ d ∈ cs.head?, (sortOf d ≠ .other ∨ d ∈ operandMarks) ∧ (d = '-' ↔ negative = true)

/-- A prefix operator ends where its operand begins, unless both are minus signs. -/
theorem stops_unary (op : UnaryOp) {d : Char} (hd : sortOf d ≠ .other ∨ d ∈ operandMarks)
    (h : ¬ (op = .neg ∧ d = '-')) : Stops op.text d := by
  obtain hd | hd := hd
  · exact stops_of_sortOf hd
  · simp only [operandMarks, List.mem_cons, List.not_mem_nil, or_false] at hd
    obtain rfl | rfl | rfl | rfl := hd
    · cases op with
      | neg => exact absurd ⟨rfl, rfl⟩ h
      | _ => decide +kernel
    all_goals cases op <;> decide +kernel

/-- Two minus signs are a token, whatever follows them. -/
theorem splits_double_minus {cs : List Char} {ts : List String} :
    Splits ('-' :: '-' :: cs) ts ↔ ∃ us, ts = "--" :: us ∧ Splits cs us := by
  refine splits_token (w := "--".toList) (.inr ⟨"--", by decide, rfl⟩) ?_
  refine longest_operator (by decide) (by decide) fun d _ => stops_of_length_le ?_
  decide +kernel

/-- So the operand is read as it would be by itself, in all cases but one. -/
theorem apart_unary {cs : List Char} {ts : List String} {P : Prop} {negative : Bool}
    (op : UnaryOp) (h : Apart Bounded cs ts P) (hfirst : CanFollow negative cs) :
    Apart Bounded (op.text.toList ++ cs) (op.text :: ts) (¬ (op = .neg ∧ negative = true) ∧ P) := by
  obtain ⟨d, hd, hsort, hminus⟩ := hfirst
  have hhead : ∀ rest, ∀ c ∈ (cs ++ rest).head?, c = d := fun rest c hc =>
    Option.mem_unique hc (List.mem_head?_append_of_mem_head? hd)
  by_cases hfuses : op = .neg ∧ negative = true
  · -- The text begins with two minus signs, but the tokens with one.
    intro rest us _
    obtain ⟨rfl, hneg⟩ := hfuses
    obtain rfl := hminus.mpr hneg
    obtain ⟨cs, rfl⟩ := List.head?_eq_some_iff.mp hd
    have hsplits : ¬ Splits ('-' :: '-' :: (cs ++ rest)) ("-" :: (ts ++ us)) := by
      intro h
      obtain ⟨vs, heq, -⟩ := splits_double_minus.mp h
      exact absurd (List.cons.inj heq).1 (by decide)
    exact iff_of_false hsplits (by simp [hneg])
  · rw [← hminus] at hfuses ⊢
    have hstops : ∀ rest, Bounded rest → ∀ c ∈ (cs ++ rest).head?, Stops op.text c := by
      intro rest _ c hc
      rw [hhead rest c hc]
      exact stops_unary op hsort hfuses
    have hop := apart_operator (s := op.text) (by cases op <;> decide) (by cases op <;> decide)
    exact (hop.append h hstops).congr (by simp [hfuses])

/-! ## Trees -/

variable {ts : List String} {P Q : Prop} {e : Fragment} {t : Expr Operand} {text s u : String}
  {n : Nat} {x : ExprTree}

/-- The pieces are rendered as this text, which is split into the tokens exactly if `P` holds. -/
structure Lays (pieces : List Piece) (text : String) (ts : List String) (P : Prop) : Prop where
  renders (slots : Array (Option String)) : renderPieces slots pieces = .ok text
  apart : Apart Bounded text.toList ts P

theorem renderPieces_text {slots : Array (Option String)} (s : String) :
    renderPieces slots [.text s] = .ok s := by
  rw [renderPieces, renderPieces]
  simp [bind, Except.bind, pure, Except.pure]

theorem lays_text (h : Apart Bounded s.toList ts True) (hP : P) : Lays [.text s] s ts P :=
  ⟨fun _ => renderPieces_text s, h.congr (iff_of_true trivial hP)⟩

/-- Parentheses keep an operand apart from what is around it. -/
theorem Lays.asOperand (h : Lays e.pieces text (t.print.flatMap lexemes) P)
    (he : e.precedence = t.strength) (least : Nat) :
    Lays (e.asOperand least) (if t.strength < least then "(" ++ text ++ ")" else text)
      ((t.grouped least t.print).flatMap lexemes) P := by
  unfold Fragment.asOperand Expr.grouped
  rw [he]
  split
  · refine ⟨fun slots => renderPieces_append
      (renderPieces_append (renderPieces_text _) (h.renders slots)) (renderPieces_text _), ?_⟩
    have henclosed := h.apart.enclosed (F := Bounded)
    simpa [lexemes] using henclosed
  · exact h

/-- Blanks around the operator keep the operands apart. -/
theorem Lays.binary {x y : Fragment} {tx ty : Expr Operand}
    (hx : Lays x.pieces s (tx.print.flatMap lexemes) P) (hxs : x.precedence = tx.strength)
    (hy : Lays y.pieces u (ty.print.flatMap lexemes) Q) (hys : y.precedence = ty.strength)
    (op : BinaryOp) :
    ∃ text, Lays (Fragment.binary x op.text y op.precedence).pieces text
      ((Expr.binary op tx ty).print.flatMap lexemes) (P ∧ Q) := by
  rw [← level_eq_precedence op]
  have hx := hx.asOperand hxs (level op)
  have hy := hy.asOperand hys (level op + 1)
  have hop := apart_spaced (s := op.text) (by cases op <;> decide) (by cases op <;> decide)
  have hleft := hx.apart.append hop fun rest _ => bounded_cons (by decide)
  have h := hleft.append hy.apart fun _ _ => trivial
  refine ⟨_, fun slots => renderPieces_append
    (renderPieces_append (hx.renders slots) (renderPieces_text _)) (hy.renders slots), ?_⟩
  simpa [Expr.print, lexemes] using h

/-- Words and digits can follow any prefix operator. -/
theorem canFollow_of_sortOf {cs : List Char} {d : Char} (hd : d ∈ cs.head?)
    (hsort : sortOf d ≠ .other) : CanFollow false cs := by
  refine ⟨d, hd, .inl hsort, iff_of_false ?_ Bool.false_ne_true⟩
  rintro rfl
  exact hsort (by decide)

theorem canFollow_name {v : Var} (hv : isName (varName v) = true) :
    CanFollow false (varName v).toList := by
  obtain ⟨d, hd, hsort⟩ := begins_word _ (mem_word_of_isWord (isWord_of_isName hv))
  have hsort : sortOf d = .letter := by simpa using hsort
  exact canFollow_of_sortOf hd (by simp [hsort])

theorem canFollow_digits (n : Nat) : CanFollow false (Nat.toDigits 10 n) := by
  obtain ⟨d, hd, hdigit⟩ := head?_toDigits n
  exact canFollow_of_sortOf hd (by simp [sortOf_of_isDigit hdigit])

/-- A negative number is read as a sign and its digits. -/
theorem apart_numeral (z : Int) : Apart Bounded (toString z).toList (numeral z) True := by
  cases z with
  | ofNat n =>
    have hnonneg : ¬ Int.ofNat n < 0 := Int.not_lt.mpr (Int.natCast_nonneg n)
    rw [toList_ofNat, numeral, if_neg hnonneg]
    exact apart_number n
  | negSucc n =>
    have h := apart_unary .neg (apart_number (n + 1)) (canFollow_digits (n + 1))
    rw [toList_negSucc, numeral, if_pos (Int.negSucc_lt_zero n)]
    exact h.congr (Q := True) (by simp)

/-- A negative number begins with a minus sign, and no other number does. -/
theorem canFollow_numeral (z : Int) : CanFollow (z < 0) (toString z).toList := by
  cases z with
  | ofNat n =>
    have hnonneg : decide (Int.ofNat n < 0) = false :=
      decide_eq_false (Int.not_lt.mpr (Int.natCast_nonneg n))
    rw [toList_ofNat, hnonneg]
    exact canFollow_digits n
  | negSucc n =>
    rw [toList_negSucc]
    exact ⟨'-', rfl, .inr (by decide), by simp⟩

theorem canFollow_unary (op : UnaryOp) (cs : List Char) :
    CanFollow (op = .neg) (op.text.toList ++ cs) := by
  cases op <;> exact ⟨_, rfl, .inr (by decide), by decide⟩

/-- Only operations on two operands need parentheses here, and they do not count as negative. -/
theorem isNegative_of_strength (h : (x.expr n).strength < unaryLevel) : x.isNegative = false := by
  cases x with
  | binary k op x y => rfl
  | _ => simp [ExprTree.expr, Expr.strength, unaryLevel, primaryLevel] at h

/-- An operand of a unary operator begins with what cannot go together with the operator, but for
a minus sign. -/
theorem canFollow_operand
    (h : unaryLevel ≤ (x.expr n).strength → CanFollow x.isNegative text.toList) :
    CanFollow x.isNegative
      (if (x.expr n).strength < unaryLevel then "(" ++ text ++ ")" else text).toList := by
  split
  · next hlt =>
    rw [isNegative_of_strength hlt]
    exact ⟨'(', by simp, .inr (by decide), by decide⟩
  · next hge => exact h (Nat.le_of_not_lt hge)

theorem places_eq_zero (t : ExprTree) (ht : t.IsArithmetic) : t.places = 0 := by
  induction t with
  | var v => rfl
  | const v => rfl
  | unary k op x ih => exact ih ht
  | binary k op x y ihx ihy => simp [ExprTree.places, ihx ht.1, ihy ht.2]
  | reserved => exact absurd ht id
  | index below x i => exact absurd ht id
  | mapIndex x i => exact absurd ht id

theorem prints_of_isArithmetic (slots : Array (Option String)) (t : ExprTree)
    (ht : t.IsArithmetic) (n : Nat) : Prints slots (t.fragment n) (t.expr n) :=
  prints_fragment t fun i hle hlt => absurd hlt (by rw [places_eq_zero t ht]; omega)

theorem eq_integer_of_const {v : Value} (h : (ExprTree.const v).IsArithmetic) :
    ∃ z hz, v = .integer .int z hz := by
  cases v with
  | integer k z hz =>
    cases k with
    | int => exact ⟨z, hz, rfl⟩
    | _ => exact absurd h id
  | _ => exact absurd h id

/-- By induction on the tree. Prefix operators need to know how their operand begins. -/
theorem lays_fragment (t : ExprTree) (ht : t.IsArithmetic) (n : Nat) :
    ∃ text, Lays (t.fragment n).pieces text ((t.expr n).print.flatMap lexemes)
        (t.hasDoubleMinus = false) ∧
      (unaryLevel ≤ (t.expr n).strength → CanFollow t.isNegative text.toList) := by
  induction t generalizing n with
  | var v => exact ⟨_, lays_text (apart_word (isWord_of_isName ht)) rfl, fun _ => canFollow_name ht⟩
  | const v =>
    obtain ⟨z, hz, rfl⟩ := eq_integer_of_const ht
    have htokens : ((ExprTree.const (.integer .int z hz)).expr n).print.flatMap lexemes =
        numeral z := List.append_nil _
    exact ⟨_, htokens ▸ lays_text (apart_numeral z) rfl, fun _ => canFollow_numeral z⟩
  | unary k op x ih =>
    obtain ⟨text, hlays, hfirst⟩ := ih ht n
    have hstrength := (prints_of_isArithmetic #[] x ht n).strength
    have hx := hlays.asOperand hstrength unaryLevel
    refine ⟨op.text ++ _,
      ⟨fun slots => renderPieces_append (renderPieces_text _) (hx.renders slots), ?_⟩, fun _ => ?_⟩
    · rw [String.toList_append]
      refine (apart_unary op hx.apart (canFollow_operand hfirst)).congr ?_
      simp [ExprTree.hasDoubleMinus]
    · have hneg : (ExprTree.unary k op x).isNegative = decide (op = .neg) := by cases op <;> rfl
      rw [hneg, String.toList_append]
      exact canFollow_unary op _
  | binary k op x y ihx ihy =>
    obtain ⟨s, hx, -⟩ := ihx ht.1 n
    obtain ⟨u, hy, -⟩ := ihy ht.2 (n + x.places)
    have hxs := (prints_of_isArithmetic #[] x ht.1 n).strength
    have hys := (prints_of_isArithmetic #[] y ht.2 (n + x.places)).strength
    obtain ⟨text, hrenders, hapart⟩ := hx.binary hxs hy hys op
    refine ⟨text, ⟨hrenders, hapart.congr (by simp [ExprTree.hasDoubleMinus])⟩, fun hle => ?_⟩
    exact absurd (level_lt_unaryLevel op) (Nat.not_lt.mpr hle)
  | reserved => exact absurd ht id
  | index below x i => exact absurd ht id
  | mapIndex x i => exact absurd ht id

theorem expr_of_isArithmetic (t : ExprTree) (ht : t.IsArithmetic) (n : Nat) :
    t.expr n = t.expr 0 := by
  induction t generalizing n with
  | var v => rfl
  | const v => rfl
  | unary k op x ih => rw [ExprTree.expr, ih ht, ExprTree.expr]
  | binary k op x y ihx ihy =>
    rw [ExprTree.expr, ExprTree.expr, ihx ht.1, ihy ht.2, ihy ht.2 (0 + x.places)]
  | reserved => exact absurd ht id
  | index below x i => exact absurd ht id
  | mapIndex x i => exact absurd ht id

/-- **Only minus signs go together.** Whatever expression of variables, whole numbers and operators
is emitted, to a builder in whatever state, one fragment more is on the stack. Its text is written
in the tokens of the expression, and it is split into them and into nothing else exactly if no
negation stands directly before a minus sign. -/
theorem splits_of_run_calls {b : Builder} (t : ExprTree) (ht : t.IsArithmetic)
    (hb : b.resolved = false) :
    ∃ e text, Backend.run b t.calls = .ok { b with stack := e :: b.stack } ∧
      (∀ slots, renderPieces slots e.pieces = .ok text ∧ Spells slots (t.expr 0).print text) ∧
      (Splits text.toList t.written ↔ t.hasDoubleMinus = false) ∧
      (t.hasDoubleMinus = false → ∀ ts, Splits text.toList ts ↔ ts = t.written) := by
  obtain ⟨text, ⟨hrenders, hapart⟩, -⟩ := lays_fragment t ht b.slots.size
  have hrun := Builder.run_calls t hb
  have hprints := fun slots => prints_of_isArithmetic slots t ht b.slots.size
  rw [places_eq_zero t ht] at hrun
  rw [expr_of_isArithmetic t ht] at hapart hprints
  have hsplits : Splits text.toList t.written ↔ t.hasDoubleMinus = false := by
    have h := hapart [] [] (by simp [Bounded])
    simpa [ExprTree.written, Splits.nil] using h
  refine ⟨t.fragment b.slots.size, text, ?_, fun slots => ⟨hrenders slots, ?_⟩, hsplits, ?_⟩
  · rw [hrun, Builder.afterExpr, Array.replicate_zero, Array.append_empty]
  · obtain ⟨text', hrenders', hspells⟩ := (hprints slots).spelled
    obtain rfl := Except.ok.inj ((hrenders slots).symm.trans hrenders')
    exact hspells
  · intro hno ts
    have h := hsplits.mpr hno
    exact ⟨fun h' => h'.unique h, fun heq => heq ▸ h⟩

/-- A variable for examples. -/
def named (name : String) : ExprTree := .var ⟨1, name, .basic (.integer .int)⟩

/-- The negation of a difference with a negative number in it. -/
def negatedDifference : ExprTree :=
  .unary (.integer .int) .neg
    (.binary (.integer .int) .sub (named "x") (.const (.integer .int (-5) (by decide))))

theorem splits_negatedDifference :
    negatedDifference.IsArithmetic ∧ ({ id := 11, registry := {} } : Builder).resolved = false ∧
      Splits "-(x - -5)".toList ["-", "(", "x", "-", "-", "5", ")"] := by
  have hname : isName (varName ⟨1, "x", .basic (.integer .int)⟩) = true := by decide
  obtain ⟨e, text, hrun, htext, hsplits, -⟩ := splits_of_run_calls
    (b := { id := 11, registry := {} }) negatedDifference ⟨hname, trivial⟩ rfl
  obtain rfl : e = negatedDifference.fragment 0 :=
    (List.cons.inj (Builder.stack_of_run_calls rfl hrun)).1
  obtain rfl : "-(x - -5)" = text :=
    Except.ok.inj ((eq_ok_of_toOption (by decide +kernel)).symm.trans (htext #[]).1)
  exact ⟨⟨hname, trivial⟩, rfl, hsplits.mpr (by decide)⟩

/-- A negation of a negation. -/
def doubleNegation : ExprTree :=
  .unary (.integer .int) .neg (.unary (.integer .int) .neg (named "x"))

/-- Two negations are written as one token, which is a different one. -/
theorem minus_signs_fuse :
    doubleNegation.IsArithmetic ∧ doubleNegation.written = ["-", "-", "x"] ∧
      (∃ b' e, Backend.run ({ id := 11, registry := {} } : Builder) doubleNegation.calls = .ok b' ∧
        b'.stack = [e] ∧ renderPieces b'.slots e.pieces = .ok "--x") ∧
      Splits "--x".toList ["--", "x"] ∧ ¬ Splits "--x".toList doubleNegation.written := by
  have hname : isName (varName ⟨1, "x", .basic (.integer .int)⟩) = true := by decide
  have hx : Splits "x".toList ["x"] :=
    (apart_word (s := "x") (by decide) [] [] (by simp [Bounded])).mpr ⟨trivial, .nil⟩
  have hsplits : Splits "--x".toList ["--", "x"] := splits_double_minus.mpr ⟨_, rfl, hx⟩
  have hrun := Builder.run_calls (b := { id := 11, registry := {} }) doubleNegation rfl
  refine ⟨hname, by decide, ⟨_, doubleNegation.fragment 0, hrun, rfl, ?_⟩, hsplits, ?_⟩
  · exact eq_ok_of_toOption (by decide +kernel)
  · intro h
    exact absurd (h.unique hsplits) (by decide)

end Lowering.Source
