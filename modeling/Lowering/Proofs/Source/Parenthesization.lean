import Lowering.Proofs.Go.Grammar
import Lowering.Proofs.Source.Script
import Lowering.Source.File

/-!
# Parentheses

An expression is emitted operand by operand, and its text grows with it. A fragment does not
remember the tree it was made from: where it needs parentheses is decided by the binding strength it
carries.

`Expr.print` is the tree in tokens, with parentheses only where the grammar needs them. It derives
the tree and no other one (`derives_print_iff`). A fragment prints a tree if its strength is that of
the tree and its text, with the slots filled, is spelled by these tokens (`Prints`). This holds of
operands and is kept by every operator, so it holds of whatever is emitted for a tree
(`prints_fragment`).

An operand is one token, whatever its text is. Between tokens there may be blanks or not: two
negations in a row are two tokens without a blank between them.
-/

namespace Lowering

/-! ## Trees in tokens -/

namespace Go

variable {α : Type} {t t' : Expr α} {ts : List (Token α)} {least : Nat}

namespace Expr

/-- How tightly the outermost operator of a tree binds. -/
def strength : Expr α → Nat
  | operand _ | index _ _ => primaryLevel
  | unary _ _ => unaryLevel
  | binary op _ _ => level op

/-- The tokens of a tree where one of strength `least` or more is needed. -/
def grouped (least : Nat) (t : Expr α) (ts : List (Token α)) : List (Token α) :=
  if t.strength < least then .symbol "(" :: ts ++ [.symbol ")"] else ts

/-- The tree in tokens. -/
def print : Expr α → List (Token α)
  | operand a => [.operand a]
  | unary op x => .symbol op.text :: grouped unaryLevel x x.print
  | binary op x y =>
    grouped (level op) x x.print ++ .symbol op.text :: grouped (level op + 1) y y.print
  | index x i => grouped primaryLevel x x.print ++ .symbol "[" :: i.print ++ [.symbol "]"]

theorem one_le_strength (t : Expr α) : 1 ≤ t.strength := by
  cases t with
  | binary op x y => exact one_le_level op
  | _ => exact Nat.le_add_left 1 _

end Expr

theorem unary?_text (op : UnaryOp) : unary? op.text = some op := by cases op <;> rfl

/-- In parentheses an expression can stand anywhere, and without them where it is strong enough. -/
theorem Derives.grouped (h : Derives t.strength t ts) (hleast : least ≤ primaryLevel) :
    Derives least t (t.grouped least ts) := by
  unfold Expr.grouped
  split
  · exact (h.mono t.one_le_strength).paren.mono hleast
  · next hge => exact h.mono (Nat.le_of_not_lt hge)

/-- By induction on the expression: operands are grouped by what the grammar asks for. -/
theorem derives_print (t : Expr α) : Derives t.strength t t.print := by
  induction t with
  | operand a => exact .operand a
  | unary op x ih => exact .unary (unary?_text op) (ih.grouped (Nat.le_succ _))
  | binary op x y ihx ihy =>
    have hlt := level_lt_unaryLevel op
    have hx := ihx.grouped (Nat.le_of_lt (Nat.lt_succ_of_lt hlt))
    have hy := ihy.grouped (Nat.le_succ_of_le hlt)
    exact .binary (binary?_text op) hx hy
  | index x i ihx ihi =>
    exact .index (ihx.grouped (Nat.le_refl _)) (ihi.mono i.one_le_strength)

/-- What is printed is read back. -/
theorem parse_print (t : Expr α) : parse t.print = some t :=
  parse_of_derives ((derives_print t).mono t.one_le_strength)

/-- There is no other way to read it. -/
theorem derives_print_iff : Derives 1 t' t.print ↔ t' = t := by
  constructor
  · intro h
    exact Option.some.inj ((parse_of_derives h).symm.trans (parse_print t))
  · rintro rfl
    exact (derives_print t').mono t'.one_le_strength

end Go

/-! ## Tokens in text -/

namespace Source

open Go
open Builder (varName)

/-- What an expression is about. -/
inductive Operand
  | var (v : Var)
  | const (v : Value)
  /-- A constant that is filled in later. -/
  | slot (i : Nat)
  deriving DecidableEq

/-- The text of an operand, once the slots are filled. -/
def Operand.text? (slots : Array (Option String)) : Operand → Option String
  | var v => some (varName v)
  | const v => some (literalText v)
  | slot i => slots[i]?.join

/-- The text is that of the tokens in their order, with blanks anywhere between them. -/
inductive Spells (slots : Array (Option String)) : List (Token Operand) → String → Prop
  | nil : Spells slots [] ""
  | blank {ts s} (h : Spells slots ts s) : Spells slots ts (" " ++ s)
  | symbol {ts s} (symbol : String) (h : Spells slots ts s) :
      Spells slots (.symbol symbol :: ts) (symbol ++ s)
  | operand {ts s} {a : Operand} {text : String} (ha : a.text? slots = some text)
      (h : Spells slots ts s) : Spells slots (.operand a :: ts) (text ++ s)

variable {slots : Array (Option String)} {ts us : List (Token Operand)} {xs ys : List Piece}
  {s u : String} {e x y : Fragment} {t tx ty : Expr Operand}

/-- Tokens are spelled one after the other. -/
theorem Spells.append (h : Spells slots ts s) (h' : Spells slots us u) :
    Spells slots (ts ++ us) (s ++ u) := by
  induction h with
  | nil => simpa using h'
  | blank _ ih => exact String.append_assoc .. ▸ .blank ih
  | symbol symbol _ ih => exact String.append_assoc .. ▸ .symbol symbol ih
  | operand ha _ ih => exact String.append_assoc .. ▸ .operand ha ih

/-- The pieces are rendered as a text of the tokens. -/
def Spelled (slots : Array (Option String)) (pieces : List Piece) (ts : List (Token Operand)) :
    Prop :=
  ∃ text, renderPieces slots pieces = .ok text ∧ Spells slots ts text

theorem renderPieces_append (hxs : renderPieces slots xs = .ok s)
    (hys : renderPieces slots ys = .ok u) : renderPieces slots (xs ++ ys) = .ok (s ++ u) := by
  induction xs generalizing s with
  | nil =>
    obtain rfl := Except.ok.inj hxs
    simpa using hys
  | cons piece xs ih =>
    cases piece with
    | text first =>
      obtain ⟨rest, hrest, hs⟩ := bind_eq_ok.mp hxs
      obtain rfl := Except.ok.inj hs
      rw [List.cons_append, renderPieces, ih hrest, String.append_assoc]
      rfl
    | slot i =>
      rw [renderPieces] at hxs
      split at hxs
      · next first hi =>
        obtain ⟨rest, hrest, hs⟩ := bind_eq_ok.mp hxs
        obtain rfl := Except.ok.inj hs
        rw [List.cons_append, renderPieces, hi, String.append_assoc]
        simp only [ih hrest]
        rfl
      · cases hxs

theorem Spelled.append (h : Spelled slots xs ts) (h' : Spelled slots ys us) :
    Spelled slots (xs ++ ys) (ts ++ us) := by
  obtain ⟨s, hs, hts⟩ := h
  obtain ⟨u, hu, hus⟩ := h'
  exact ⟨s ++ u, renderPieces_append hs hu, hts.append hus⟩

theorem spelled_text (h : Spells slots ts s) : Spelled slots [.text s] ts := by
  refine ⟨s, ?_, h⟩
  rw [renderPieces, renderPieces]
  simp [bind, Except.bind, pure, Except.pure]

theorem spelled_symbol (symbol : String) : Spelled slots [.text symbol] [.symbol symbol] := by
  have h : Spells slots [.symbol symbol] (symbol ++ "") := .symbol symbol .nil
  rw [String.append_empty] at h
  exact spelled_text h

/-- Blanks around a symbol are no tokens. -/
theorem spelled_spaced (symbol : String) :
    Spelled slots [.text (" " ++ symbol ++ " ")] [.symbol symbol] := by
  have h : Spells slots [.symbol symbol] (" " ++ (symbol ++ (" " ++ ""))) :=
    .blank (.symbol symbol (.blank .nil))
  rw [String.append_empty, ← String.append_assoc] at h
  exact spelled_text h

/-! ## Fragments that print trees -/

/-- The fragment is as strong as the tree, and its text is that of the tree's tokens. -/
structure Prints (slots : Array (Option String)) (e : Fragment) (t : Expr Operand) : Prop where
  strength : e.precedence = t.strength
  spelled : Spelled slots e.pieces t.print

theorem prints_primary {a : Operand} (ha : a.text? slots = some s) :
    Prints slots (.primary s) (.operand a) where
  strength := rfl
  spelled := by
    have h : Spells slots [.operand a] (s ++ "") := .operand ha .nil
    rw [String.append_empty] at h
    exact spelled_text h

/-- A slot that is filled is an operand. -/
theorem prints_slot {i : Nat} (hi : slots[i]? = some (some s)) :
    Prints slots (.slot i) (.operand (.slot i)) where
  strength := rfl
  spelled := by
    refine ⟨s ++ "", ?_, .operand (by rw [Operand.text?, hi]; rfl) .nil⟩
    show renderPieces slots [.slot i] = _
    rw [renderPieces, hi, renderPieces]
    rfl

/-- Parentheses stand where the grammar needs them. -/
theorem Prints.asOperand (h : Prints slots e t) (least : Nat) :
    Spelled slots (e.asOperand least) (t.grouped least t.print) := by
  unfold Fragment.asOperand Expr.grouped
  rw [h.strength]
  split
  · exact ((spelled_symbol "(").append h.spelled).append (spelled_symbol ")")
  · exact h.spelled

/-- The operand of a prefix operator is grouped as one. -/
theorem Prints.unary (h : Prints slots x tx) (op : UnaryOp) :
    Prints slots (.unary op.text x) (.unary op tx) where
  strength := rfl
  spelled := (spelled_symbol op.text).append (h.asOperand unaryLevel)

/-- The right operand is grouped one level more strictly, so that equal levels are read from the
left. -/
theorem Prints.binary (hx : Prints slots x tx) (hy : Prints slots y ty) (op : BinaryOp) :
    Prints slots (.binary x op.text y op.precedence) (.binary op tx ty) where
  strength := (level_eq_precedence op).symm
  spelled := by
    rw [← level_eq_precedence op]
    have h := ((hx.asOperand (level op)).append (spelled_spaced op.text)).append
      (hy.asOperand (level op + 1))
    rwa [List.append_assoc _ [Token.symbol op.text]] at h

/-- The index stands in brackets, and so needs no parentheses. -/
theorem Prints.index (hx : Prints slots x tx) (hy : Prints slots y ty) :
    Prints slots (x.index y) (.index tx ty) where
  strength := rfl
  spelled := by
    have h := (((hx.asOperand primaryLevel).append (spelled_symbol "[")).append hy.spelled).append
      (spelled_symbol "]")
    rwa [List.append_assoc _ [Token.symbol "["]] at h

/-! ## Emission -/

/-- An expression to be emitted. -/
inductive ExprTree
  | var (v : Var)
  | const (v : Value)
  /-- A constant for which a place is kept. -/
  | reserved
  | unary (k : Kind) (op : UnaryOp) (x : ExprTree)
  | binary (k : Kind) (op : BinaryOp) (x y : ExprTree)
  /-- An element of a list. Every number below zero says that the index is on the stack. -/
  | index (below : Nat) (x i : ExprTree)
  /-- An element of a map. -/
  | mapIndex (x i : ExprTree)

namespace ExprTree

/-- The emission calls: operands first, then what takes them. -/
def calls : ExprTree → List Call
  | var v => [.loadVar v]
  | const v => [.push v]
  | reserved => [.reserve]
  | unary k op x => x.calls ++ [.builtinOp k (.unary op)]
  | binary k op x y => x.calls ++ y.calls ++ [.builtinOp k (.binary op)]
  | index below x i => x.calls ++ i.calls ++ [.index (Int.negSucc below)]
  | mapIndex x i => x.calls ++ i.calls ++ [.mapIndex]

/-- How many places are kept. -/
def places : ExprTree → Nat
  | var _ | const _ => 0
  | reserved => 1
  | unary _ _ x => x.places
  | binary _ _ x y | index _ x y | mapIndex x y => x.places + y.places

/-- The expression, if the first place that is kept is slot `n`. -/
def expr (n : Nat) : ExprTree → Expr Operand
  | var v => .operand (.var v)
  | const v => .operand (.const v)
  | reserved => .operand (.slot n)
  | unary _ op x => .unary op (x.expr n)
  | binary _ op x y => .binary op (x.expr n) (y.expr (n + x.places))
  | index _ x i | mapIndex x i => .index (x.expr n) (i.expr (n + x.places))

/-- The fragment that is made from the calls, if the first place that is kept is slot `n`. -/
def fragment (n : Nat) : ExprTree → Fragment
  | var v => .primary (varName v)
  | const v => .primary (literalText v)
  | reserved => .slot n
  | unary _ op x => .unary op.text (x.fragment n)
  | binary _ op x y => .binary (x.fragment n) op.text (y.fragment (n + x.places)) op.precedence
  | index _ x i | mapIndex x i => (x.fragment n).index (i.fragment (n + x.places))

end ExprTree

/-- Every slot of a range is filled. -/
def FilledFrom (slots : Array (Option String)) (first count : Nat) : Prop :=
  ∀ i, first ≤ i → i < first + count → ∃ s, slots[i]? = some (some s)

/-- The places of the left operand come first. -/
theorem FilledFrom.left {n k l : Nat} (h : FilledFrom slots n (k + l)) : FilledFrom slots n k :=
  fun i hle hlt => h i hle (by omega)

theorem FilledFrom.right {n k l : Nat} (h : FilledFrom slots n (k + l)) :
    FilledFrom slots (n + k) l :=
  fun i hle hlt => h i (by omega) (by omega)

/-- By induction on the tree. Places are numbered from left to right, as the slots are. -/
theorem prints_fragment (t : ExprTree) {n : Nat} (h : FilledFrom slots n t.places) :
    Prints slots (t.fragment n) (t.expr n) := by
  induction t generalizing n with
  | var v => exact prints_primary rfl
  | const v => exact prints_primary rfl
  | reserved =>
    obtain ⟨s, hs⟩ := h n (Nat.le_refl n) (Nat.lt_succ_self n)
    exact prints_slot hs
  | unary k op x ih => exact (ih h).unary op
  | binary k op x y ihx ihy => exact (ihx h.left).binary (ihy h.right) op
  | index below x i ihx ihi => exact (ihx h.left).index (ihi h.right)
  | mapIndex x i ihx ihi => exact (ihx h.left).index (ihi h.right)

namespace Builder

variable {b b' : Builder} {c : Call} {cs ds : List Call} {x y : Fragment} {k l : Nat}

/-- The builder with one more value on its stack and more places kept. -/
def afterExpr (b : Builder) (e : Fragment) (places : Nat) : Builder :=
  { b with stack := e :: b.stack, slots := b.slots ++ Array.replicate places none }

theorem size_slots_afterExpr : (b.afterExpr x k).slots.size = b.slots.size + k := by
  simp [afterExpr]

/-- An operand is pushed. -/
theorem step_operand {e : Fragment} (hb : b.resolved = false) (hc : b.script c = Script.push e) :
    b.step c = .ok (b.afterExpr e 0) := by
  rw [afterExpr, Array.replicate_zero, Array.append_empty]
  exact step_eq_ok.mpr (hc ▸ Script.run_push hb)

/-- A reserved operand is pushed and takes a slot. -/
theorem step_reserved (hb : b.resolved = false) :
    b.step .reserve = .ok (b.afterExpr (.slot b.slots.size) 1) := by
  refine step_reserve_eq_ok.mpr ⟨hb, ?_⟩
  rw [afterExpr, Array.push_eq_append]
  rfl

/-- A prefix operator takes its operand back. -/
theorem step_unary (hb : b.resolved = false) (kind : Kind) (op : UnaryOp) :
    (b.afterExpr x k).step (.builtinOp kind (.unary op)) =
      .ok (b.afterExpr (.unary op.text x) k) :=
  step_eq_ok.mpr ((Script.run_take rfl).trans (Script.run_push hb))

theorem afterExpr_afterExpr :
    (b.afterExpr x k).afterExpr y l =
      { b with stack := y :: x :: b.stack, slots := b.slots ++ Array.replicate (k + l) none } := by
  simp [afterExpr, Array.append_assoc, Array.replicate_append_replicate]

/-- Of the two operands the right one is on top. -/
theorem step_binary (hb : b.resolved = false) (kind : Kind) (op : BinaryOp) :
    ((b.afterExpr x k).afterExpr y l).step (.builtinOp kind (.binary op)) =
      .ok (b.afterExpr (.binary x op.text y op.precedence) (k + l)) := by
  rw [afterExpr_afterExpr]
  exact step_eq_ok.mpr
    ((Script.run_take rfl).trans ((Script.run_take rfl).trans (Script.run_push hb)))

/-- An element of a list or a map, with an index from the stack. -/
theorem step_index {i : Int} (hb : b.resolved = false) (hi : i < 0)
    (hc : ∀ b : Builder, b.script c = Script.index i) :
    ((b.afterExpr x k).afterExpr y l).step c = .ok (b.afterExpr (x.index y) (k + l)) := by
  refine step_eq_ok.mpr ?_
  rw [hc, afterExpr_afterExpr, Script.index, Script.indexOperands, if_pos hi]
  exact (Script.run_take rfl).trans ((Script.run_take rfl).trans (Script.run_push hb))

/-- Two operands and what takes them. -/
theorem run_operands {t u : ExprTree}
    (ht : Backend.run b t.calls = .ok (b.afterExpr x t.places))
    (hu : Backend.run (b.afterExpr x t.places) u.calls =
      .ok ((b.afterExpr x t.places).afterExpr y u.places))
    (hc : ((b.afterExpr x t.places).afterExpr y u.places).step c = .ok b') :
    Backend.run b (t.calls ++ u.calls ++ [c]) = .ok b' :=
  Backend.run_append_eq_ok.mpr
    ⟨_, Backend.run_append_eq_ok.mpr ⟨_, ht, hu⟩, Backend.run_singleton_eq_ok.mpr hc⟩

/-- What is emitted for an expression puts its fragment on the stack. -/
theorem run_calls (t : ExprTree) (hb : b.resolved = false) :
    Backend.run b t.calls = .ok (b.afterExpr (t.fragment b.slots.size) t.places) := by
  induction t generalizing b with
  | var v => exact Backend.run_singleton_eq_ok.mpr (step_operand hb rfl)
  | const v => exact Backend.run_singleton_eq_ok.mpr (step_operand hb rfl)
  | reserved => exact Backend.run_singleton_eq_ok.mpr (step_reserved hb)
  | unary kind op x ih =>
    exact Backend.run_append_eq_ok.mpr
      ⟨_, ih hb, Backend.run_singleton_eq_ok.mpr (step_unary hb kind op)⟩
  | binary kind op x y ihx ihy =>
    have hy := ihy (b := b.afterExpr (x.fragment b.slots.size) x.places) hb
    rw [size_slots_afterExpr] at hy
    exact run_operands (ihx hb) hy (step_binary hb kind op)
  | index below x i ihx ihi =>
    have hi := ihi (b := b.afterExpr (x.fragment b.slots.size) x.places) hb
    rw [size_slots_afterExpr] at hi
    exact run_operands (ihx hb) hi (step_index hb (Int.negSucc_lt_zero below) fun _ => rfl)
  | mapIndex x i ihx ihi =>
    have hi := ihi (b := b.afterExpr (x.fragment b.slots.size) x.places) hb
    rw [size_slots_afterExpr] at hi
    exact run_operands (ihx hb) hi (step_index hb (by decide) fun _ => rfl)

/-- The calls of a tree leave its fragment. -/
theorem stack_of_run_calls {t : ExprTree} (hb : b.resolved = false)
    (h : Backend.run b t.calls = .ok b') : b'.stack = t.fragment b.slots.size :: b.stack := by
  rw [run_calls t hb] at h
  obtain rfl := Except.ok.inj h
  rfl

/-- **Parentheses are right.** Whatever expression is emitted, to a builder in whatever state, one
fragment more is on the stack. Once the places that were kept in it are filled it has a text, and
the tokens of this text form the expression: the grammar derives it from them and no other one, and
they are read as it. -/
theorem parse_of_run_calls (t : ExprTree) (hb : b.resolved = false) :
    ∃ e ts, Backend.run b t.calls = .ok { b with
        stack := e :: b.stack, slots := b.slots ++ Array.replicate t.places none } ∧
      (∀ slots, FilledFrom slots b.slots.size t.places →
        ∃ text, renderPieces slots e.pieces = .ok text ∧ Spells slots ts text) ∧
      (∀ u, Derives 1 u ts ↔ u = t.expr b.slots.size) ∧
      parse ts = some (t.expr b.slots.size) :=
  ⟨t.fragment b.slots.size, (t.expr b.slots.size).print, run_calls t hb,
    fun _ hslots => (prints_fragment t hslots).spelled, fun _ => derives_print_iff,
    parse_print (t.expr b.slots.size)⟩

/-- A negation that is indexed, with a difference of differences as the index. Its last operand is a
place that is kept. -/
def negatedElement : ExprTree :=
  let int : Kind := .integer .int
  .index 0 (.unary int .neg (.var ⟨1, "x", .basic int⟩))
    (.binary int .sub (.var ⟨2, "a", .basic int⟩)
      (.binary int .sub (.const (.bool true)) .reserved))

theorem parse_negatedElement :
    ({ id := 11, registry := {} } : Builder).resolved = false ∧
      ∃ ts, Spells #[some "5"] ts "(-x)[a - (true - 5)]" ∧
        parse ts = some (negatedElement.expr 0) := by
  obtain ⟨e, ts, hrun, hspells, -, hparse⟩ :=
    parse_of_run_calls (b := { id := 11, registry := {} }) negatedElement rfl
  obtain rfl : e = negatedElement.fragment 0 := (List.cons.inj (stack_of_run_calls rfl hrun)).1
  have hfilled : FilledFrom #[some "5"] 0 negatedElement.places := by
    intro i _ hi
    obtain rfl : i = 0 := Nat.lt_one_iff.mp hi
    exact ⟨"5", rfl⟩
  obtain ⟨text, htext, hts⟩ := hspells _ hfilled
  obtain rfl : "(-x)[a - (true - 5)]" = text :=
    Except.ok.inj ((eq_ok_of_toOption (by decide +kernel)).symm.trans htext)
  exact ⟨rfl, ts, hts, hparse⟩

end Builder

end Source

end Lowering
