import Lowering.Operator
import Lowering.Proofs.Go.Token

/-!
# The grammar of Go expressions

Binary operators have five levels and associate to the left, prefix operators bind tighter, and an
index in brackets binds tightest. `Derives` states this as a grammar that allows parentheses
anywhere. `parse` reads tokens from left to right with a stack of the constructs that are open, and
takes an operator's left operand as soon as the operator shows how far it reaches.

`parse_of_derives`: whatever the grammar derives is read as the tree that it was derived for. So a
text has one meaning, although the grammar has many ways to place parentheses.
-/

namespace Lowering.Go

/-- An expression over operands of any type. -/
inductive Expr (α : Type)
  | operand (a : α)
  | unary (op : UnaryOp) (x : Expr α)
  | binary (op : BinaryOp) (x y : Expr α)
  | index (x i : Expr α)
  deriving DecidableEq

/-! ## Operators -/

def unary? : String → Option UnaryOp
  | "-" => some .neg
  | "!" => some .not
  | "^" => some .bitNot
  | _ => none

def binary? : String → Option BinaryOp
  | "||" => some .lOr
  | "&&" => some .lAnd
  | "==" => some .eq
  | "!=" => some .ne
  | "<" => some .lt
  | "<=" => some .le
  | ">" => some .gt
  | ">=" => some .ge
  | "+" => some .add
  | "-" => some .sub
  | "|" => some .or
  | "^" => some .xor
  | "*" => some .mul
  | "/" => some .quo
  | "%" => some .mod
  | "<<" => some .lsh
  | ">>" => some .rsh
  | "&" => some .and
  | "&^" => some .andNot
  | _ => none

/-- The level of a binary operator. -/
def level : BinaryOp → Nat
  | .lOr => 1
  | .lAnd => 2
  | .eq | .ne | .lt | .le | .gt | .ge => 3
  | .add | .sub | .or | .xor => 4
  | .mul | .quo | .mod | .lsh | .rsh | .and | .andNot => 5

/-- The level of prefix operators. -/
def unaryLevel : Nat := 6

/-- The level of what holds together by itself. -/
def primaryLevel : Nat := 7

theorem one_le_level (op : BinaryOp) : 1 ≤ level op := by cases op <;> decide

theorem level_lt_unaryLevel (op : BinaryOp) : level op < unaryLevel := by cases op <;> decide

/-- The text of an operator is read as this operator. -/
theorem binary?_text (op : BinaryOp) : binary? op.text = some op := by cases op <;> rfl

/-- The levels of the grammar are those by which expressions are parenthesized. -/
theorem level_eq_precedence (op : BinaryOp) : level op = op.precedence := by cases op <;> rfl

/-! ## The grammar -/

section

variable {α : Type}

/-- The tokens form the tree, as an operand of a level or of a tighter one. -/
inductive Derives : Nat → Expr α → List (Token α) → Prop
  | operand (a : α) : Derives primaryLevel (.operand a) [.operand a]
  | paren {t ts} (h : Derives 1 t ts) :
      Derives primaryLevel t (.symbol "(" :: ts ++ [.symbol ")"])
  | index {x i xs is} (hx : Derives primaryLevel x xs) (hi : Derives 1 i is) :
      Derives primaryLevel (.index x i) (xs ++ .symbol "[" :: is ++ [.symbol "]"])
  | unary {s op x xs} (hs : unary? s = some op) (hx : Derives unaryLevel x xs) :
      Derives unaryLevel (.unary op x) (.symbol s :: xs)
  | binary {s op x y xs ys} (hs : binary? s = some op) (hx : Derives (level op) x xs)
      (hy : Derives (level op + 1) y ys) :
      Derives (level op) (.binary op x y) (xs ++ .symbol s :: ys)
  | lift {p t ts} (h : Derives (p + 1) t ts) : Derives p t ts

/-- What can stand at a high level can stand at every lower one. -/
theorem Derives.mono {p q : Nat} {t : Expr α} {ts : List (Token α)} (h : Derives q t ts)
    (hpq : p ≤ q) : Derives p t ts := by
  induction hpq with
  | refl => exact h
  | step _ ih => exact ih h.lift

/-! ## Reading -/

/-- A construct that waits for its last operand. -/
inductive Frame (α : Type)
  | unary (op : UnaryOp)
  | binary (x : Expr α) (op : BinaryOp)
  | paren
  | index (x : Expr α)

namespace Frame

/-- How tightly a construct holds its last operand; brackets do not let go before they close. -/
def level : Frame α → Nat
  | unary _ => unaryLevel
  | binary _ op => Go.level op
  | paren | index _ => 0

/-- What ends a construct that has an end of its own. -/
def closer? : Frame α → Option String
  | paren => some ")"
  | index _ => some "]"
  | unary _ | binary _ _ => none

/-- The construct with its last operand. -/
def fill : Frame α → Expr α → Expr α
  | unary op, t => .unary op t
  | binary x op, t => .binary op x t
  | paren, t => t
  | index x, t => .index x t

theorem level_lt_primaryLevel (f : Frame α) : f.level < primaryLevel := by
  cases f with
  | binary x op => exact Nat.lt_succ_of_lt (level_lt_unaryLevel op)
  | _ => simp [level, unaryLevel, primaryLevel]

end Frame

/-- Completes the constructs that hold their operand at least as tightly as level `q`. -/
def reduce (q : Nat) (t : Expr α) : List (Frame α) → Expr α × List (Frame α)
  | [] => (t, [])
  | f :: frames => if q ≤ f.level then reduce q (f.fill t) frames else (t, f :: frames)

/-- What has been read: the operand in front, unless one is awaited, and the open constructs, the
innermost first. -/
structure Reading (α : Type) where
  value : Option (Expr α) := none
  frames : List (Frame α) := []

namespace Reading

/-- A symbol where an operand is awaited. -/
def before (r : Reading α) (s : String) : Option (Reading α) :=
  if s = "(" then some { frames := .paren :: r.frames }
  else (unary? s).map fun op => { frames := .unary op :: r.frames }

/-- A symbol behind an operand. -/
def after (r : Reading α) (x : Expr α) (s : String) : Option (Reading α) :=
  match binary? s with
  | some op =>
    let (left, frames) := reduce (level op) x r.frames
    some { frames := .binary left op :: frames }
  | none =>
    if s = "[" then some { frames := .index x :: r.frames }
    else
      match reduce 1 x r.frames with
      | (t, f :: frames) => if f.closer? = some s then some ⟨some (f.fill t), frames⟩ else none
      | (_, []) => none

def step (r : Reading α) : Token α → Option (Reading α)
  | .operand a => if r.value.isNone then some { r with value := some (.operand a) } else none
  | .symbol s =>
    match r.value with
    | none => r.before s
    | some x => r.after x s

/-- The tree, if everything is complete. -/
def finish (r : Reading α) : Option (Expr α) := do
  let x ← r.value
  match reduce 1 x r.frames with
  | (t, []) => some t
  | _ => none

end Reading

/-- The tree that the tokens form. -/
def parse (ts : List (Token α)) : Option (Expr α) := do (← ts.foldlM Reading.step {}).finish

/-! ## The reader follows the grammar -/

variable {x t : Expr α} {frames inner : List (Frame α)} {p q : Nat}

/-- The tree around a value, from the constructs inside out. -/
def around (inner : List (Frame α)) (x : Expr α) : Expr α := inner.foldl (fun t f => f.fill t) x

/-- The innermost construct does not take an operand of level `p` apart. -/
def Admits (p : Nat) (frames : List (Frame α)) : Prop :=
  ∀ f ∈ frames.head?, p < unaryLevel → f.level < p

/-- Frames that bind more tightly are closed first, from the inside. -/
theorem reduce_append (h : ∀ f ∈ inner, q ≤ f.level) (x : Expr α) (frames : List (Frame α)) :
    reduce q x (inner ++ frames) = reduce q (around inner x) frames := by
  induction inner generalizing x with
  | nil => rfl
  | cons f inner ih =>
    obtain ⟨hf, hinner⟩ := List.forall_mem_cons.mp h
    rw [List.cons_append, reduce, if_pos hf, ih hinner]
    rfl

/-- Frames that admit an operand of the level stay open. -/
theorem Admits.reduce_eq (h : Admits q frames) (hq : q < unaryLevel) (t : Expr α) :
    reduce q t frames = (t, frames) := by
  cases frames with
  | nil => rfl
  | cons f frames => exact if_neg (Nat.not_le.mpr (h f rfl hq))

/-- The tokens lead to a value with constructs around it that are all inside the operand. -/
def Reads (p : Nat) (t : Expr α) (ts : List (Token α)) : Prop :=
  ∀ frames, Admits p frames → ∃ x inner, (∀ f ∈ inner, p ≤ f.level) ∧ around inner x = t ∧
    ts.foldlM Reading.step { frames := frames } = some ⟨some x, inner ++ frames⟩

variable {f : Frame α} {s : String} {ts : List (Token α)}

/-- A construct of level `p` or more becomes a part of the operand. -/
theorem Reads.inside (h : Reads q t ts) (hadmits : Admits q (f :: frames)) (hf : p ≤ f.level)
    (hpq : p ≤ q) :
    ∃ x inner, (∀ f ∈ inner, p ≤ f.level) ∧ around inner x = f.fill t ∧
      ts.foldlM Reading.step { frames := f :: frames } = some ⟨some x, inner ++ frames⟩ := by
  obtain ⟨x, inner, hinner, rfl, hrun⟩ := h (f :: frames) hadmits
  refine ⟨x, inner ++ [f], fun g hg => ?_, by simp [around], by simpa using hrun⟩
  obtain hg | hg := List.mem_append.mp hg
  · exact Nat.le_trans hpq (hinner g hg)
  · exact List.mem_singleton.mp hg ▸ hf

/-- Brackets of either kind: what is between them is complete when they close. -/
theorem Reads.closed (h : Reads 1 t ts) (hf : f.closer? = some s) (frames : List (Frame α)) :
    (ts ++ [Token.symbol s]).foldlM Reading.step { frames := f :: frames } =
      some ⟨some (f.fill t), frames⟩ := by
  have hlevel : f.level = 0 ∧ binary? s = none ∧ s ≠ "[" := by
    cases f <;> simp only [Frame.closer?, Option.some.injEq, reduceCtorEq] at hf <;> subst hf <;>
      exact ⟨rfl, by decide⟩
  obtain ⟨hlevel, hbinary, hbracket⟩ := hlevel
  have hadmits : Admits 1 (f :: frames) := by
    rintro _ ⟨⟩ -
    exact Nat.lt_one_iff.mpr hlevel
  obtain ⟨x, inner, hinner, rfl, hrun⟩ := h (f :: frames) hadmits
  have hreduce : reduce 1 x (inner ++ f :: frames) = (around inner x, f :: frames) := by
    rw [reduce_append hinner, hadmits.reduce_eq (by decide)]
  rw [List.foldlM_append, hrun]
  simp [Reading.step, Reading.after, hbinary, hbracket, hreduce, hf]

/-- Where an operand is expected, a sign opens a frame. -/
theorem step_unary {op : UnaryOp} (hs : unary? s = some op) (frames : List (Frame α)) :
    Reading.step { frames := frames } (.symbol s) = some { frames := .unary op :: frames } := by
  have hparen : s ≠ "(" := by
    rintro rfl
    simp [unary?] at hs
  simp [Reading.step, Reading.before, hparen, hs]

/-- Behind an operand, an operator closes the frames that bind at least as tightly and opens its
own. -/
theorem step_binary {op : BinaryOp} (hs : binary? s = some op) {left : Expr α}
    (hreduce : reduce (level op) x inner = (left, frames)) :
    Reading.step ⟨some x, inner⟩ (.symbol s) = some { frames := .binary left op :: frames } := by
  simp [Reading.step, Reading.after, hs, hreduce]

/-- The parser reads every derivation. By induction on the derivation: the frames around it are
arbitrary, as long as they admit its level. -/
theorem reads_of_derives (h : Derives p t ts) : Reads p t ts := by
  induction h with
  | operand a => exact fun frames _ => ⟨.operand a, [], nofun, rfl, rfl⟩
  | paren _ ih => exact fun frames _ => ⟨_, [], nofun, rfl, ih.closed (f := .paren) rfl frames⟩
  | @index x i xs is _ _ ihx ihi =>
    intro frames hadmits
    obtain ⟨x, inner, hinner, rfl, hrun⟩ := ihx frames hadmits
    cases inner with
    | nil =>
      refine ⟨.index x i, [], nofun, rfl, ?_⟩
      have hclosed := ihi.closed (f := .index x) rfl frames
      rw [List.append_assoc, List.foldlM_append, hrun]
      exact hclosed
    | cons f inner =>
      -- Nothing holds its operand as tightly as an index.
      exact absurd (hinner f List.mem_cons_self) (Nat.not_le.mpr f.level_lt_primaryLevel)
  | @unary s op x xs hs _ ih =>
    intro frames _
    -- Prefix operators may be stacked: the second one does not complete the first.
    have hadmits : Admits unaryLevel (.unary op :: frames) := fun _ _ h => absurd h (by decide)
    have hinside := ih.inside hadmits (Nat.le_refl _) (Nat.le_refl _)
    rwa [List.foldlM_cons, step_unary hs]
  | @binary s op x y xs ys hs _ _ ihx ihy =>
    intro frames hadmits
    obtain ⟨x, inner, hinner, rfl, hrun⟩ := ihx frames hadmits
    -- The operator completes everything inside its left operand and nothing around it.
    have hreduce : reduce (level op) x (inner ++ frames) = (around inner x, frames) := by
      rw [reduce_append hinner, hadmits.reduce_eq (level_lt_unaryLevel op)]
    have hright : Admits (level op + 1) (.binary (around inner x) op :: frames) := by
      rintro _ ⟨⟩ -
      exact Nat.lt_succ_self _
    have hinside := ihy.inside hright (Nat.le_refl _) (Nat.le_succ _)
    rw [List.foldlM_append, hrun]
    simp only [Option.bind_eq_bind, Option.bind_some, List.foldlM_cons, step_binary hs hreduce]
    exact hinside
  | lift _ ih =>
    intro frames hadmits
    obtain ⟨x, inner, hinner, ht, hrun⟩ := ih frames fun f hf hlt =>
      Nat.lt_succ_of_lt (hadmits f hf (Nat.lt_of_succ_lt hlt))
    exact ⟨x, inner, fun f hf => Nat.le_of_succ_le (hinner f hf), ht, hrun⟩

/-- What the grammar derives is read as the tree it was derived for. -/
theorem parse_of_derives (h : Derives 1 t ts) : parse ts = some t := by
  obtain ⟨x, inner, hinner, rfl, hrun⟩ := reads_of_derives h [] nofun
  have hreduce : reduce 1 x (inner ++ []) = (around inner x, []) := reduce_append hinner x []
  unfold parse
  rw [hrun]
  simp only [Option.bind_eq_bind, Option.bind_some, Reading.finish, hreduce]

end

end Lowering.Go
