import Mathlib.Data.List.Forall2
import Lowering.Proofs.Source.Rendering
import Lowering.Proofs.StraightLine.Symbolic

/-!
# Straight-line programs as text

What the source backend writes for a straight-line program is read back as the assignments of the
program. A fragment on the stack shows a tree: its text, wherever it may stand, consists of tokens
that derive the tree, at the level that its binding strength says (`Shows`). So every store writes
a line that is an assignment of that tree (`Writes.step`), and the file as a whole runs as the list
of the assignments (`statements?_of_resolve`).
-/

namespace Lowering.StraightLine

open Go Source
open Source.Builder (varName)

/-! ## Fragments that show trees -/

theorem plainText?_append {xs ys : List Piece} {s u : String}
    (hxs : Piece.plainText? xs = some s) (hys : Piece.plainText? ys = some u) :
    Piece.plainText? (xs ++ ys) = some (s ++ u) := by
  induction xs generalizing s with
  | nil =>
    obtain rfl := Option.some.inj hxs
    simpa using hys
  | cons piece xs ih =>
    cases piece with
    | slot i => cases hxs
    | text first =>
      obtain ⟨rest, hrest, rfl⟩ := Option.map_eq_some_iff.mp hxs
      simp [Piece.plainText?, ih hrest, String.append_assoc]

/-- The pieces are text without slots and tabs, and the text is read as the tokens. -/
def Written (pieces : List Piece) (ts : List (Token Atom)) : Prop :=
  ∃ s, Piece.plainText? pieces = some s ∧ '\t' ∉ s.toList ∧ Lexes Ends s.toList ts

/-- The fragment is a text of the tree. It binds at most as tightly as a negative number, which
looks like a negation. -/
structure Shows (e : Fragment) (t : Expr Atom) : Prop where
  one_le : 1 ≤ e.precedence
  written : ∃ ts, Written e.pieces ts ∧ Derives (min e.precedence unaryLevel) t ts

theorem tab_not_mem {cs : List Char} (h : ∀ c ∈ cs, isWordChar c = true) : '\t' ∉ cs := fun hmem =>
  absurd (h _ hmem) (by decide)

theorem tab_not_mem_of_isName {s : String} (hs : isName s = true) : '\t' ∉ s.toList :=
  tab_not_mem (isWordChar_of_isWord (isWord_of_isName hs))

/-- A variable is shown by its name. -/
theorem shows_name {s : String} (hs : isName s = true) :
    Shows (.primary s) (.operand (.name s)) := by
  have hplain : Piece.plainText? (Fragment.primary s).pieces = some s := by
    simp [Fragment.primary, Piece.plainText?]
  exact ⟨Nat.le_add_left 1 6, _, ⟨s, hplain, tab_not_mem_of_isName hs, lexes_name hs⟩,
    (Derives.operand _).lift⟩

theorem isWordChar_of_isDigit {c : Char} (h : c.isDigit = true) : isWordChar c = true := by
  simp [isWordChar, Char.isAlphanum, h]

theorem isWordChar_of_mem_toDigits (n : Nat) : ∀ c ∈ Nat.toDigits 10 n, isWordChar c = true :=
  fun _ hc => isWordChar_of_isDigit (isDigit_of_mem_toDigits hc)

/-- A number is shown by its digits, behind a sign if it is negative. -/
theorem shows_literal {z : Int} (hz : IntKind.int.Fits z) :
    Shows (.primary (literalText (.integer .int z hz))) (literal z) := by
  have hplain : Piece.plainText? (Fragment.primary (toString z)).pieces = some (toString z) := by
    simp [Fragment.primary, Piece.plainText?]
  refine ⟨Nat.le_add_left 1 6, ?_⟩
  cases z with
  | ofNat n =>
    refine ⟨_, ⟨_, hplain, ?_, ?_⟩, (Derives.operand _).lift⟩
    · exact toList_ofNat n ▸ tab_not_mem (isWordChar_of_mem_toDigits n)
    · exact toList_ofNat n ▸ lexes_number n
  | negSucc n =>
    have hminus : Lexes (Closes "-") ['-'] [.symbol "-"] := lexes_symbol (s := "-") (by decide)
    -- The sign is a token of its own, as no symbol has a digit in it.
    have hcloses : ∀ rest, Ends rest → Closes "-" (Nat.toDigits 10 (n + 1) ++ rest) := by
      intro rest _
      have hdigits := isWordChar_of_mem_toDigits (n + 1)
      cases hdigit : Nat.toDigits 10 (n + 1) with
      | nil => exact absurd hdigit Nat.toDigits_ne_nil
      | cons c cs => exact closes_cons (.inl (hdigits c (by simp [hdigit]))) _
    refine ⟨_, ⟨_, hplain, ?_, ?_⟩, .unary (s := "-") rfl (Derives.operand _).lift⟩
    · rw [toList_negSucc]
      simpa using tab_not_mem (isWordChar_of_mem_toDigits (n + 1))
    · exact toList_negSucc n ▸ hminus.append (lexes_number (n + 1)) hcloses

/-- In parentheses or not, an operand is derived at the level that is asked for. -/
theorem Shows.asOperand {e : Fragment} {t : Expr Atom} {least : Nat} (h : Shows e t)
    (hleast : least ≤ unaryLevel) :
    ∃ ts, Written (e.asOperand least) ts ∧ Derives least t ts := by
  obtain ⟨hone, ts, ⟨s, hs, htab, hread⟩, ht⟩ := h
  unfold Fragment.asOperand
  split
  · next hlt =>
    have hderives : Derives 1 t ts := ht.mono (by simp [unaryLevel]; omega)
    refine ⟨.symbol "(" :: ts ++ [.symbol ")"], ⟨"(" ++ s ++ ")", ?_, ?_, ?_⟩,
      hderives.paren.mono (by simp [unaryLevel, primaryLevel] at hleast ⊢; omega)⟩
    · exact plainText?_append (plainText?_append rfl hs) rfl
    · simpa using htab
    · have hopen : Lexes Anything "(".toList [.symbol "("] := lexes_solitary (by decide)
      have hclose : Lexes Anything ")".toList [.symbol ")"] := lexes_solitary (by decide)
      have hclosed := hread.append hclose fun rest _ => ends_cons rfl rest
      simpa using (hopen.prepend hclosed).anywhere
  · next hge => exact ⟨ts, ⟨s, hs, htab, hread⟩, ht.mono (by simp at hge ⊢; omega)⟩

theorem mem_symbols_text (op : BinaryOp) : op.text ∈ symbols := by cases op <;> decide

/-- An operation is shown if its operands are. -/
theorem Shows.binary {x y : Fragment} {t u : Expr Atom} (hx : Shows x t) (hy : Shows y u)
    (op : BinaryOp) : Shows (.binary x op.text y op.precedence) (.binary op t u) where
  one_le := level_eq_precedence op ▸ one_le_level op
  written := by
    have hlt := level_lt_unaryLevel op
    rw [← level_eq_precedence op]
    obtain ⟨ts, ⟨s, hs, hstab, hsread⟩, ht⟩ := hx.asOperand (Nat.le_of_lt hlt)
    obtain ⟨us, ⟨v, hv, hvtab, hvread⟩, hu⟩ := hy.asOperand hlt
    refine ⟨ts ++ .symbol op.text :: us, ⟨s ++ (" " ++ op.text ++ " ") ++ v, ?_, ?_, ?_⟩, ?_⟩
    · exact plainText?_append (plainText?_append hs (by simp [Piece.plainText?])) hv
    · have htab : '\t' ∉ op.text.toList := by cases op <;> decide
      simp [hstab, hvtab, htab]
    · have hleft := hsread.append (lexes_spaced (mem_symbols_text op)) fun rest _ => ends_cons rfl _
      simpa using hleft.prepend hvread
    · show Derives (min (level op) unaryLevel) _ _
      rw [Nat.min_eq_left (Nat.le_of_lt hlt)]
      exact .binary (binary?_text op) ht hu

/-! ## Lines that are statements -/

/-- The line is the statement. -/
def Holds (l : Line) (st : Statement) : Prop :=
  ∃ s, Piece.plainText? l.pieces = some s ∧ '\t' ∉ s.toList ∧ IsLine s.toList st

theorem holds_assign {s : String} {e : Fragment} {t : Expr Atom} (hs : isName s = true)
    (he : Shows e t) (n : Nat) : Holds ⟨n, .text (s ++ " = ") :: e.pieces⟩ (.assign s t) := by
  obtain ⟨hone, ts, ⟨u, hu, htab, hread⟩, ht⟩ := he
  have ht : Derives 1 t ts := ht.mono (Nat.le_min.mpr ⟨hone, Nat.le_add_left 1 5⟩)
  have hstab : '\t' ∉ s.toList := tab_not_mem_of_isName hs
  refine ⟨s ++ " = " ++ u, by simp [Piece.plainText?, hu], by simp [hstab, htab], ?_⟩
  rw [String.toList_append]
  exact isLine_assign hs hread ht

theorem holds_declare {s : String} (hs : isName s = true) (n : Nat) :
    Holds ⟨n, [.text ("var " ++ s ++ " " ++ "int")]⟩ (.declare s) := by
  have hstab : '\t' ∉ s.toList := tab_not_mem_of_isName hs
  refine ⟨"var " ++ s ++ " " ++ "int", by simp [Piece.plainText?], by simp [hstab], ?_⟩
  simpa using isLine_declare hs

/-! ## Files -/

/-- With its tabs replaced, the text is the statements, whatever lines come behind it. -/
def Runs (indent text : String) (stmts : List Statement) : Prop :=
  ∀ rest more, statements? (tokens rest) = some more →
    statements? (tokens ((replaceTabs indent text).toList ++ rest)) = some (stmts ++ more)

section

variable {indent text more s : String} {stmts stmts' : List Statement} {st : Statement}

/-- Texts that are read line by line can be put one behind the other. -/
theorem Runs.append (h : Runs indent text stmts) (h' : Runs indent more stmts') :
    Runs indent (text ++ more) (stmts ++ stmts') := by
  intro rest ends hrest
  rw [toList_replaceTabs_append, List.append_assoc, List.append_assoc]
  exact h _ _ (h' rest ends hrest)

/-- A line of a block is indented by tabs, or by blanks that replace them. -/
theorem runs_line (hindent : ∀ c ∈ indent.toList, isBlank c = true) (htab : '\t' ∉ s.toList)
    (hs : IsLine s.toList st) (n : Nat) : Runs indent (Builder.tabs n ++ s ++ "\n") [st] := by
  intro rest ends hrest
  have hblank : ∀ c ∈ (replaceTabs indent (Builder.tabs n)).toList, isBlank c = true := by
    rw [toList_replaceTabs, Builder.tabs, String.toList_ofList]
    intro c hc
    obtain ⟨d, hd, hc⟩ := List.mem_flatMap.mp hc
    rw [List.eq_of_mem_replicate hd, if_pos rfl] at hc
    exact hindent c hc
  have hend : (replaceTabs indent "\n").toList = ['\n'] := toList_replaceTabs_of_not_mem (by decide)
  rw [toList_replaceTabs_append, toList_replaceTabs_append, toList_replaceTabs_of_not_mem htab,
    hend, List.append_assoc]
  exact statements?_line (hs.indent hblank) hrest

theorem renderPieces_of_plainText? {slots : Array (Option String)} {pieces : List Piece}
    (h : Piece.plainText? pieces = some s) : renderPieces slots pieces = .ok s := by
  induction pieces generalizing s with
  | nil =>
    obtain rfl := Option.some.inj h
    rfl
  | cons piece pieces ih =>
    cases piece with
    | slot i => cases h
    | text first =>
      obtain ⟨rest, hrest, rfl⟩ := Option.map_eq_some_iff.mp h
      rw [renderPieces, ih hrest]
      rfl

/-- By induction on the lines. None of them has slots, so all can be rendered. -/
theorem runs_renderLines (slots : Array (Option String)) {lines : List Line}
    (hindent : ∀ c ∈ indent.toList, isBlank c = true) (h : List.Forall₂ Holds lines stmts) :
    ∃ text, renderLines slots lines = .ok text ∧ Runs indent text stmts := by
  induction h with
  | nil => exact ⟨"", rfl, fun rest more hrest => by simpa [replaceTabs] using hrest⟩
  | @cons l st lines stmts hl _ ih =>
    obtain ⟨text, htext, hruns⟩ := ih
    obtain ⟨s, hs, htab, hline⟩ := hl
    obtain ⟨n, hn⟩ : ∃ n, renderLine slots l = .ok (Builder.tabs n ++ s ++ "\n") := by
      rw [renderLine, renderPieces_of_plainText? hs]
      -- Whether a line is a directive only decides how far it is indented.
      cases l.isDirective with
      | true => exact ⟨0, rfl⟩
      | false => exact ⟨l.indent, rfl⟩
    refine ⟨Builder.tabs n ++ s ++ "\n" ++ text, ?_, (runs_line hindent htab hline n).append hruns⟩
    obtain ⟨texts, htexts, htext⟩ := bind_eq_ok.mp htext
    refine bind_eq_ok.mpr ⟨(Builder.tabs n ++ s ++ "\n") :: texts, ?_, ?_⟩
    · rw [List.mapM_cons, hn, htexts]
      rfl
    · obtain rfl := Except.ok.inj htext
      simp [pure, Except.pure]

end

/-! ## The builder of a straight-line program -/

/-- The names in the frame of the file can stand there, and lines are indented with blanks. -/
structure Regular (o : Options) : Prop where
  package : isName o.package = true ∧ o.package ≠ "_"
  mainFunc : isName o.mainFunc = true ∧ o.mainFunc ≠ "int"
  indent : ∀ c ∈ o.indent.toList, isBlank c = true

/-- The builder is at the top level of a file that imports nothing. It has written the statements,
and its stack shows the trees. -/
structure Writes (o : Options) (b : Builder) (stack : List (Expr Atom)) (stmts : List Statement) :
    Prop where
  options : b.options = o
  bodies : b.bodies = []
  funcs : b.funcs = #[]
  imports : b.imports = {}
  stack : List.Forall₂ Shows b.stack stack
  lines : List.Forall₂ Holds b.top.lines.toList stmts

section

open Builder Script

variable {o : Options} {b b' : Builder} {stack : List (Expr Atom)} {stmts : List Statement}
  {st : Statement} {e : Fragment} {t : Expr Atom}

/-- A script that ends by pushing a fragment. -/
theorem Writes.pushed (h : Writes o b stack stmts) (he : Shows e t)
    (hb' : (Script.push e).run b = .ok ((), b')) : Writes o b' (t :: stack) stmts := by
  obtain ⟨⟨⟩, m, hpush, hb'⟩ := run_act_eq_ok.mp hb'
  obtain ⟨-, rfl⟩ := pushExpr_eq_ok.mp (Action.silent_eq_ok.mp hpush)
  obtain ⟨-, rfl⟩ := Prod.mk.inj (Except.ok.inj hb')
  exact ⟨h.options, h.bodies, h.funcs, h.imports, .cons he h.stack, h.lines⟩

/-- The value that is taken shows the expression on top. -/
theorem Writes.pop {f : Fault} (h : Writes o b stack stmts) (hb' : b.popExpr f = .ok (e, b')) :
    ∃ t rest, stack = t :: rest ∧ Shows e t ∧ Writes o b' rest stmts := by
  obtain ⟨fragments, hfragments, rfl⟩ := popExpr_eq_ok.mp hb'
  obtain ⟨t, rest, ht, hrest, rfl⟩ := List.forall₂_cons_left_iff.mp (hfragments ▸ h.stack)
  exact ⟨t, rest, rfl, ht, h.options, h.bodies, h.funcs, h.imports, hrest, h.lines⟩

/-- A line is a statement behind the others. -/
theorem Writes.line {pieces : List Piece} (h : Writes o b stack stmts)
    (hst : ∀ n, Holds ⟨n, pieces⟩ st) (hb' : b.line pieces = .ok b') :
    Writes o b' stack (stmts ++ [st]) := by
  obtain ⟨-, rfl⟩ := line_eq_ok.mp hb'
  simp only [setBlock, block, h.bodies]
  refine ⟨h.options, rfl, h.funcs, h.imports, h.stack, ?_⟩
  rw [Array.toList_push]
  exact List.rel_append h.lines (.cons (hst _) .nil)

/-- Declared names show in lines only. -/
theorem Writes.setVars (h : Writes o b stack stmts) (vars : List Nat) :
    Writes o (b.setBlock { b.block with vars := vars }) stack stmts := by
  simp only [setBlock, block, h.bodies]
  exact ⟨h.options, rfl, h.funcs, h.imports, h.stack, h.lines⟩

/-- The one type that is needed here has the same text everywhere. -/
theorem typeText_int (b : Builder) : b.typeText (.basic (.integer .int)) = .ok ("int", b) := rfl

theorem Writes.defineVar {v : Var} (h : Writes o b stack stmts)
    (hv : v.ty = .basic (.integer .int)) (hname : isName (varName v) = true)
    (hb' : (Script.defineVar v).run b = .ok ((), b')) :
    Writes o b' stack (stmts ++ [.declare (varName v)]) := by
  obtain ⟨⟨⟩, m, hdeclare, hb'⟩ := run_act_eq_ok.mp hb'
  obtain ⟨-, rfl⟩ := declare_eq_ok.mp (Action.silent_eq_ok.mp hdeclare)
  obtain ⟨type, m, htype, hb'⟩ := run_act_eq_ok.mp hb'
  rw [hv] at htype
  obtain ⟨rfl, rfl⟩ := Prod.mk.inj (Except.ok.inj ((typeText_int _).symm.trans htype))
  obtain ⟨⟨⟩, m, hline, hb'⟩ := run_act_eq_ok.mp hb'
  obtain ⟨-, rfl⟩ := Prod.mk.inj (Except.ok.inj hb')
  exact (h.setVars _).line (holds_declare hname) (Action.silent_eq_ok.mp hline)

/-- By induction on the variables. -/
theorem Writes.defineVars {vs : List Var} (h : Writes o b stack stmts)
    (htyped : ∀ v ∈ vs, v.ty = .basic (.integer .int))
    (hnamed : ∀ v ∈ vs, isName (varName v) = true)
    (hb' : (vs.forM Script.defineVar).run b = .ok ((), b')) :
    Writes o b' stack (stmts ++ vs.map fun v => .declare (varName v)) := by
  induction vs generalizing b stmts with
  | nil =>
    obtain ⟨-, rfl⟩ := Prod.mk.inj (Except.ok.inj hb')
    simpa using h
  | cons v vs ih =>
    obtain ⟨hv, htyped⟩ := List.forall_mem_cons.mp htyped
    obtain ⟨hname, hnamed⟩ := List.forall_mem_cons.mp hnamed
    rw [List.forM, run_bind] at hb'
    obtain ⟨⟨⟨⟩, m⟩, hm, hb'⟩ := bind_eq_ok.mp hb'
    simpa using ih (h.defineVar hv hname hm) htyped hnamed hb'

/-- By induction on the definitions, which write declarations only. -/
theorem Writes.run_definitions {definitions : List (List Var)} (h : Writes o b stack stmts)
    (htyped : ∀ v ∈ definitions.flatten, v.ty = .basic (.integer .int))
    (hnamed : ∀ v ∈ definitions.flatten, isName (varName v) = true)
    (hb' : Backend.run b (definitions.map .defineVar) = .ok b') :
    Writes o b' stack (stmts ++ definitions.flatten.map fun v => .declare (varName v)) := by
  induction definitions generalizing b stmts with
  | nil =>
    obtain rfl := Backend.run_nil_eq_ok.mp hb'
    simpa using h
  | cons vs definitions ih =>
    obtain ⟨hvs, htyped⟩ := List.forall_mem_append.mp htyped
    obtain ⟨hnames, hnamed⟩ := List.forall_mem_append.mp hnamed
    obtain ⟨m, hm, hb'⟩ := Backend.run_cons_eq_ok.mp hb'
    simpa using ih (h.defineVars hvs hnames (step_eq_ok.mp hm)) htyped hnamed hb'

/-- By the call: expressions on the stack are followed symbolically, and assignments are written as
lines. -/
theorem Writes.step {vars : List Var} {c : Call} {s : Symbolic} {front : List Statement}
    (h : Writes o b s.stack (front ++ s.statements))
    (hnamed : ∀ v ∈ vars, isName (varName v) = true) (hc : Straight vars c)
    (hb' : b.step c = .ok b') :
    ∃ s', s.step c = some s' ∧ Writes o b' s'.stack (front ++ s'.statements) := by
  have hb' := step_eq_ok.mp hb'
  cases hc with
  | push hz => exact ⟨_, rfl, h.pushed (shows_literal hz) hb'⟩
  | load hv => exact ⟨_, rfl, h.pushed (shows_name (hnamed _ hv)) hb'⟩
  | @store v hv =>
    obtain ⟨e, m, hpop, hb'⟩ := run_act_eq_ok.mp hb'
    obtain ⟨t, rest, hstack, he, hm⟩ := h.pop hpop
    obtain ⟨⟨⟩, m', hline, hb'⟩ := run_act_eq_ok.mp hb'
    obtain ⟨-, rfl⟩ := Prod.mk.inj (Except.ok.inj hb')
    refine ⟨_, Symbolic.step_storeVar.mpr ⟨t, rest, hstack, rfl⟩, ?_⟩
    rw [← List.append_assoc]
    exact hm.line (holds_assign (hnamed v hv) he) (Action.silent_eq_ok.mp hline)
  | @arith op hop =>
    obtain ⟨y, m, hpop, hb'⟩ := run_act_eq_ok.mp hb'
    obtain ⟨u, rest, hstack, hy, hm⟩ := h.pop hpop
    obtain ⟨x, m', hpop', hb'⟩ := run_act_eq_ok.mp hb'
    obtain ⟨t, rest, rfl, hx, hm'⟩ := hm.pop hpop'
    exact ⟨_, Symbolic.step_builtinOp.mpr ⟨t, u, rest, hstack, rfl⟩,
      hm'.pushed (hx.binary hy op) hb'⟩

/-- By induction on the calls, along the symbolic run. -/
theorem Writes.run {vars : List Var} {calls : List Call} {s : Symbolic} {front : List Statement}
    (h : Writes o b s.stack (front ++ s.statements))
    (hnamed : ∀ v ∈ vars, isName (varName v) = true) (hcalls : ∀ c ∈ calls, Straight vars c)
    (hb' : Backend.run b calls = .ok b') :
    ∃ s', calls.foldlM Symbolic.step s = some s' ∧
      Writes o b' s'.stack (front ++ s'.statements) := by
  induction calls generalizing b s with
  | nil =>
    obtain rfl := Backend.run_nil_eq_ok.mp hb'
    exact ⟨s, rfl, h⟩
  | cons c calls ih =>
    obtain ⟨hc, hcalls⟩ := List.forall_mem_cons.mp hcalls
    obtain ⟨m, hm, hrest⟩ := Backend.run_cons_eq_ok.mp hb'
    obtain ⟨s₁, hs₁, h₁⟩ := h.step hnamed hc hm
    obtain ⟨s', hs', h'⟩ := ih h₁ hcalls hrest
    exact ⟨s', by rw [List.foldlM_cons, hs₁]; exact hs', h'⟩

/-- The lines around the statements belong to the frame of the file. -/
theorem isLine_package {s : String} (hs : isName s = true) :
    IsLine ("package " ++ s).toList .frame := by
  simpa using isLine_frame (s := "package") (by decide) (lexes_name hs) (by simp [newline])

theorem isLine_func {s : String} (hs : isName s = true) :
    IsLine ("func " ++ s ++ "() \x7b").toList .frame := by
  have hparens : Lexes Anything "()".toList [.symbol "(", .symbol ")"] :=
    (lexes_solitary (s := "(") (by decide)).prepend (lexes_solitary (s := ")") (by decide))
  have hbrace : Lexes Anything " \x7b".toList [.symbol "\x7b"] :=
    (lexes_blank (c := ' ') rfl).prepend (lexes_solitary (s := "\x7b") (by decide))
  have hread := (lexes_name hs).append (hparens.prepend hbrace) fun _ _ => ends_cons rfl _
  simpa using isLine_frame (s := "func") (by decide) hread.anywhere (by simp [newline])

theorem isLine_brace : IsLine "\x7d".toList .frame :=
  ⟨[.symbol "\x7d"], (lexes_solitary (by decide)).anywhere, by decide, rfl⟩

/-- The frame of a file around the text of its top level. -/
theorem runs_frame {top : String} (ho : Regular o) (htop : Runs o.indent top stmts) :
    Runs o.indent
      ("package " ++ o.package ++ "\n\n" ++ "func " ++ o.mainFunc ++ "() \x7b\n" ++ top ++ "\x7d\n")
      (List.replicate 3 .frame ++ stmts ++ [.frame]) := by
  have hflush : ∀ s, '\t' ∉ s.toList → IsLine s.toList .frame →
      Runs o.indent (s ++ "\n") [.frame] := by
    intro s htab hs
    have htabs : Builder.tabs 0 = "" := rfl
    simpa [htabs] using runs_line ho.indent htab hs 0
  have hpackage := hflush ("package " ++ o.package) (by simp [tab_not_mem_of_isName ho.package.1])
    (isLine_package ho.package.1)
  have hempty := hflush "" (by simp) ⟨[], lexes_nil, by simp, rfl⟩
  have hfunc := hflush ("func " ++ o.mainFunc ++ "() \x7b")
    (by simp [tab_not_mem_of_isName ho.mainFunc.1]) (isLine_func ho.mainFunc.1)
  have hbrace := hflush "\x7d" (by decide) isLine_brace
  have hruns := ((hpackage.append hempty).append hfunc).append (htop.append hbrace)
  -- The lines are those of the frame, cut at other places.
  have htext : "package " ++ o.package ++ "\n" ++ ("" ++ "\n") ++
      ("func " ++ o.mainFunc ++ "() \x7b" ++ "\n") ++ (top ++ ("\x7d" ++ "\n")) =
      "package " ++ o.package ++ "\n\n" ++ "func " ++ o.mainFunc ++ "() \x7b\n" ++ top ++
        "\x7d\n" := by
    apply String.toList_inj.mp
    simp
  rw [htext] at hruns
  simpa [List.replicate] using hruns

/-- The file is the statements between those of its frame. -/
theorem Writes.statements?_of_resolve {text : String} (ho : Regular o) (h : Writes o b [] stmts)
    (hresolve : b.resolve = .ok (text, b')) :
    statements? (tokens text.toList) =
      some (List.replicate 3 .frame ++ stmts ++ List.replicate 2 .frame) := by
  obtain ⟨-, m, hm, hrender, -⟩ := resolve_eq_ok.mp hresolve
  obtain ⟨top, htop, hruns⟩ := runs_renderLines b.slots ho.indent h.lines
  have hstack : b.stack = [] := List.forall₂_nil_right_iff.mp h.stack
  rw [hstack] at hm
  obtain rfl := Except.ok.inj hm
  have hclause : Imports.clause {} = "" := by simp [Imports.clause, Imports.sorted]
  simp only [render, h.funcs, h.imports, h.options, htop, hclause, List.mapM_nil] at hrender
  obtain rfl := Except.ok.inj hrender
  have hfile := runs_frame ho hruns [] [.frame] rfl
  simpa [List.replicate] using hfile

/-- The file of a straight-line program that leaves nothing on the stack declares the variables and
makes the assignments. -/
theorem statements?_of_resolve {p : Program} {id : Nat} {registry : Registry} {text : String}
    (ho : Regular o)
    (hrun : Backend.run ({ id := id, registry := registry, options := o } : Builder) p.script =
      .ok b)
    (hstack : b.stack = []) (hresolve : b.resolve = .ok (text, b')) :
    ∃ s, p.calls.foldlM Symbolic.step {} = some s ∧ s.stack = [] ∧
      statements? (tokens text.toList) = some (p.file s.statements) := by
  obtain ⟨m, hdefs, hcalls⟩ := Backend.run_append_eq_ok.mp hrun
  have hfresh : Writes o { id := id, registry := registry, options := o } [] [] :=
    ⟨rfl, rfl, rfl, rfl, .nil, .nil⟩
  have hnamed : ∀ v ∈ p.vars, isName (varName v) = true := fun v hv => (p.named v hv).1
  have hm := hfresh.run_definitions p.typed hnamed hdefs
  rw [← List.append_nil ([] ++ _)] at hm
  obtain ⟨s, hs, hb⟩ := Writes.run (s := {}) hm hnamed p.straight hcalls
  have hnil : s.stack = [] := List.forall₂_nil_left_iff.mp (hstack ▸ hb.stack)
  refine ⟨s, hs, hnil, ?_⟩
  rw [Writes.statements?_of_resolve ho (hnil ▸ hb) hresolve]
  simp [Program.file, Program.vars, -List.map_flatten]

end

end Lowering.StraightLine
