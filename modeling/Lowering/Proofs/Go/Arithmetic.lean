import Lowering.Proofs.Go.Grammar
import Lowering.Proofs.Integer.Conversion
import Lowering.Proofs.Integer.Exact

/-!
# Integer arithmetic in Go

What sums, differences, products and negations of type `int` mean. An expression without variables
is a constant: it is computed exactly, however great the numbers are that come up on the way. Where
a constant meets a variable or is assigned to one it has to be a number of type `int`, or the
expression is refused. Everything else is computed when the program runs, and wraps around.

A compiler may limit the size of constants; `bits` is the number of bits that it can do with.

Whether an expression is refused is known before the program runs (`isSome_value?`). If it is not,
its value is the one that arithmetic which always wraps around would have given (`wrapped_binary`).
So exactness shows in nothing but refusals.
-/

namespace Lowering.Go

/-! ## Constants and values -/

/-- Sums, differences and products of integers. -/
def ring? : BinaryOp → Option (Int → Int → Int)
  | .add => some (· + ·)
  | .sub => some (· - ·)
  | .mul => some (· * ·)
  | _ => none

/-- A constant, unless it has too many bits. -/
def limit? (bits : Nat) (z : Int) : Option Int := if z.natAbs < 2 ^ bits then some z else none

/-- What an expression has been evaluated to. -/
inductive Result
  /-- A number of no type yet. -/
  | constant (z : Int)
  /-- A number of type `int`, known when the program runs. -/
  | value (z : Int)

namespace Result

/-- The number where one of type `int` is needed. -/
def toInt? : Result → Option Int
  | constant z => if IntKind.int.Fits z then some z else none
  | value z => some z

/-- A negation. -/
def neg (bits : Nat) : Result → Option Result
  | constant z => (limit? bits (-z)).map constant
  | value z => some (value (IntKind.int.wrap (-z)))

/-- An operation on two operands. A constant takes the type of the other operand. -/
def binary (bits : Nat) (f : Int → Int → Int) : Result → Result → Option Result
  | constant a, constant b => (limit? bits (f a b)).map constant
  | constant a, value b => (toInt? (constant a)).map fun a => value (IntKind.int.wrap (f a b))
  | value a, y => y.toInt?.map fun b => value (IntKind.int.wrap (f a b))

/-- The number in the range of type `int`. -/
def wrapped : Result → Int
  | constant z => IntKind.int.wrap z
  | value z => z

/-- The number that is known before the program runs, if there is one. -/
def known : Result → Option Int
  | constant z => some z
  | value _ => none

end Result

/-! ## Expressions -/

/-- The values of the variables. -/
abbrev Env := String → Int

def Env.set (env : Env) (s : String) (z : Int) : Env := fun t => if t = s then z else env t

/-- What an expression is evaluated to. There is nothing if a constant in it is refused or if it is
made with other operators. -/
def eval (bits : Nat) (env : Env) : Expr Atom → Option Result
  | .operand (.name s) => some (.value (env s))
  | .operand (.number n) => (limit? bits n).map .constant
  | .unary .neg x => (eval bits env x).bind (Result.neg bits)
  | .binary op x y =>
    (ring? op).bind fun f => (eval bits env x).bind fun a => (eval bits env y).bind fun b =>
      Result.binary bits f a b
  | _ => none

/-- The number that is assigned to a variable of type `int`. -/
def value? (bits : Nat) (env : Env) (t : Expr Atom) : Option Int :=
  (eval bits env t).bind Result.toInt?

/-- The variables in an expression. -/
def names : Expr Atom → List String
  | .operand (.name s) => [s]
  | .operand (.number _) => []
  | .unary _ x => names x
  | .binary _ x y | .index x y => names x ++ names y

variable {bits : Nat} {env : Env} {s : String} {t x y : Expr Atom} {op : BinaryOp}
  {f : Int → Int → Int} {a b r : Result} {z : Int}

/-- A variable that does not occur in an expression does not matter to it. -/
theorem eval_set (h : s ∉ names t) (z : Int) : eval bits (env.set s z) t = eval bits env t := by
  induction t with
  | operand a =>
    cases a with
    | name u =>
      have hne : u ≠ s := by
        rintro rfl
        exact h List.mem_cons_self
      simp [eval, Env.set, hne]
    | number n => rfl
  | unary op x ih =>
    cases op with
    | neg => rw [eval, eval, ih h]
    | _ => rfl
  | binary op x y ihx ihy =>
    obtain ⟨hx, hy⟩ := not_or.mp (mt List.mem_append.mpr h)
    rw [eval, eval, ihx hx, ihy hy]
  | index x i => rfl

theorem eval_binary_eq_some :
    eval bits env (.binary op x y) = some r ↔ ∃ f a b, ring? op = some f ∧
      eval bits env x = some a ∧ eval bits env y = some b ∧ Result.binary bits f a b = some r := by
  simp only [eval, Option.bind_eq_some_iff]
  constructor
  · rintro ⟨f, hf, a, ha, b, hb, h⟩
    exact ⟨f, a, b, hf, ha, hb, h⟩
  · rintro ⟨f, a, b, hf, ha, hb, h⟩
    exact ⟨f, hf, a, ha, b, hb, h⟩

/-! ## Refusals -/

/-- What is known of an operation whose operands are known or not. -/
def combine? (bits : Nat) (f : Int → Int → Int) : Option Int → Option Int → Option (Option Int)
  | some a, some b => (limit? bits (f a b)).map some
  | a, b => if (∀ z ∈ a, IntKind.int.Fits z) ∧ ∀ z ∈ b, IntKind.int.Fits z then some none else none

/-- Checks an expression without evaluating it: what is known is its number if it is a constant, and
just that it has a value if it is none. -/
def check? (bits : Nat) : Expr Atom → Option (Option Int)
  | .operand (.name _) => some none
  | .operand (.number n) => (limit? bits n).map some
  | .unary .neg x =>
    (check? bits x).bind fun a => a.elim (some none) fun z => (limit? bits (-z)).map some
  | .binary op x y =>
    (ring? op).bind fun f => (check? bits x).bind fun a => (check? bits y).bind (combine? bits f a)
  | _ => none

/-- The expression can be assigned to a variable of type `int`. -/
def Representable (bits : Nat) (t : Expr Atom) : Prop :=
  ∃ a, a ∈ check? bits t ∧ ∀ z ∈ a, IntKind.int.Fits z

instance (bits : Nat) (t : Expr Atom) : Decidable (Representable bits t) :=
  inferInstanceAs (Decidable (∃ a, a ∈ check? bits t ∧ ∀ z ∈ a, IntKind.int.Fits z))

theorem known_neg (a : Result) : (a.neg bits).map Result.known =
    a.known.elim (some none) fun z => (limit? bits (-z)).map some := by
  cases a <;> simp [Result.neg, Result.known, Function.comp_def]

theorem known_binary (f : Int → Int → Int) (a b : Result) :
    (Result.binary bits f a b).map Result.known = combine? bits f a.known b.known := by
  cases a with
  | constant a =>
    cases b with
    | constant b => simp [Result.binary, Result.known, combine?, Function.comp_def]
    | value b =>
      by_cases h : IntKind.int.Fits a <;>
        simp [Result.binary, Result.toInt?, Result.known, combine?, h]
  | value a =>
    cases b with
    | constant b =>
      by_cases h : IntKind.int.Fits b <;>
        simp [Result.binary, Result.toInt?, Result.known, combine?, h]
    | value b => simp [Result.binary, Result.toInt?, Result.known, combine?]

/-- Checking foretells evaluation, whatever the values of the variables are. -/
theorem known_eval (env : Env) (t : Expr Atom) :
    (eval bits env t).map Result.known = check? bits t := by
  induction t with
  | operand a =>
    cases a with
    | name s => rfl
    | number n => simp [eval, check?, Result.known, Function.comp_def]
  | unary op x ih =>
    cases op with
    | neg =>
      rw [eval, check?, ← ih]
      cases eval bits env x with
      | none => rfl
      | some a => exact known_neg a
    | _ => rfl
  | binary op x y ihx ihy =>
    rw [eval, check?, ← ihx, ← ihy]
    cases ring? op with
    | none => rfl
    | some f =>
      cases eval bits env x with
      | none => rfl
      | some a =>
        cases eval bits env y with
        | none => rfl
        | some b => exact known_binary f a b
  | index x i => rfl

theorem isSome_toInt? (a : Result) :
    a.toInt?.isSome = true ↔ ∀ z ∈ a.known, IntKind.int.Fits z := by
  cases a <;> simp [Result.toInt?, Result.known]

/-- Whether an expression can be assigned does not depend on the values of the variables. -/
theorem isSome_value? (env : Env) : (value? bits env t).isSome = true ↔ Representable bits t := by
  rw [value?, Representable, ← known_eval env t]
  cases eval bits env t with
  | none => simp
  | some a => simpa using isSome_toInt? a

/-! ## Exactness does not show -/

theorem eq_of_limit? {z z' : Int} (h : limit? bits z = some z') : z = z' :=
  Option.some.inj (Option.ite_none_right_eq_some.mp h).2

namespace Result

/-- A number of type `int` is in range already. -/
theorem wrapped_of_toInt? (h : r.toInt? = some z) : r.wrapped = z := by
  cases r with
  | constant a =>
    obtain ⟨hfits, h⟩ := Option.ite_none_right_eq_some.mp h
    obtain rfl := Option.some.inj h
    exact IntKind.wrap_of_fits hfits
  | value a => exact Option.some.inj h

end Result

/-- Sums, differences and products depend on their operands modulo any number only. -/
theorem ring?_congr {m a a' b b' : Int} (hf : ring? op = some f) (ha : a ≡ a' [ZMOD m])
    (hb : b ≡ b' [ZMOD m]) : f a b ≡ f a' b' [ZMOD m] := by
  cases op with
  | add =>
    obtain rfl := Option.some.inj hf
    exact ha.add hb
  | sub =>
    obtain rfl := Option.some.inj hf
    exact ha.sub hb
  | mul =>
    obtain rfl := Option.some.inj hf
    exact ha.mul hb
  | _ => cases hf

/-- Wrapping around at the end is as good as wrapping around all the time. -/
theorem wrap_ring? (hf : ring? op = some f) (k : IntKind) (a b : Int) :
    k.wrap (f (k.wrap a) (k.wrap b)) = k.wrap (f a b) :=
  IntKind.wrap_congr (ring?_congr hf (k.wrap_modEq a) (k.wrap_modEq b))

theorem wrapped_binary (hf : ring? op = some f) (h : Result.binary bits f a b = some r) :
    r.wrapped = IntKind.int.wrap (f a.wrapped b.wrapped) := by
  cases a with
  | constant a =>
    cases b with
    | constant b =>
      obtain ⟨z, hz, rfl⟩ := Option.map_eq_some_iff.mp h
      obtain rfl := eq_of_limit? hz
      exact (wrap_ring? hf .int a b).symm
    | value b =>
      obtain ⟨z, hz, rfl⟩ := Option.map_eq_some_iff.mp h
      rw [Result.wrapped_of_toInt? hz]
      rfl
  | value a =>
    obtain ⟨z, hz, rfl⟩ := Option.map_eq_some_iff.mp h
    rw [Result.wrapped_of_toInt? hz]
    rfl

end Lowering.Go
