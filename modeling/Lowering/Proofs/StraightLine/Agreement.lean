import Lowering.Proofs.StraightLine.Machine
import Lowering.Proofs.StraightLine.Text

/-!
# Two backends, one meaning

A straight-line program that both backends accept can be run twice: as instructions on the stack
machine and as the text of a file. No two variables have the same name, as the file would declare
one name twice. `agree_of_accepted` says when the runs agree.

* The instructions of an undisturbed program can always be executed. If the file runs from the same
  values of the variables, it ends with the same values.
* A file is not a program for a compiler if a variable is never used, or if a constant in it is not
  representable. The second is the case in `x = 9223372036854775807 + 1`, where both operands are
  constants and so is their sum, which is no number of type `int`. The instructions wrap around.

Nor can it be dropped that the program is undisturbed. Exchanging two variables by loading both and
then storing both is accepted by both backends, and the instructions exchange the values; but the
text assigns one variable to the other and then back, as it loads the second one only after the
first has been overwritten (`exists_not_agree_swap`).
-/

namespace Lowering.StraightLine

open Bytecode (Code)
open Bytecode.Builder (assemble)
open Go
open Source (Builder Fragment Options)

/-- Both backends accept the program, which leaves nothing on the stack, and these are the code and
the file. -/
structure Accepted (p : Program) (o : Options) (code : Code) (text : String) : Prop where
  code : ∃ id, assemble id p.script = .ok code
  text : ∃ id registry b b',
    Backend.run ({ id := id, registry := registry, options := o } : Builder) p.script = .ok b ∧
      b.stack = [] ∧ b.resolve = .ok (text, b')

/-- **When both runs end with the same values.** The names in the file are in order if and only if
the program uses all variables, and the file runs if and only if all constants are representable. If
the program is undisturbed, the instructions run and lead to the values that the file leads to. -/
theorem agree_of_accepted {p : Program} {o : Options} {code : Code} {text : String} (bits : Nat)
    (ho : Regular o) (haccepted : Accepted p o code text) :
    (Checked text ↔ p.UsesAll) ∧
      (∀ env, (exec bits text env).isSome = true ↔ p.Representable bits) ∧
      (p.Undisturbed → ∀ env mem, Agree p.vars env mem →
        ∃ mem', Machine.run ⟨[], mem⟩ code.ops = some ⟨[], mem'⟩ ∧
          ∀ env', exec bits text env = some env' → Agree p.vars env' mem') := by
  obtain ⟨id, hcode⟩ := haccepted.code
  obtain ⟨_, _, b, b', hrun, hstack, hresolve⟩ := haccepted.text
  obtain ⟨s, hs, hnil, htext⟩ := statements?_of_resolve ho hrun hstack hresolve
  refine ⟨?_, fun env => ?_, fun hp env mem hagree => ?_⟩
  · simp [Checked, htext, inOrder_iff hs hnil]
  · rw [exec_of_statements? htext, isSome_foldlM_run, Program.Representable, assignments_of_run hs]
  · obtain ⟨waiting, hwaiting⟩ := Option.isSome_iff_exists.mp hp
    have hstart : Tracks bits p.vars env env {} [] ⟨[], mem⟩ :=
      ⟨fun _ h => (Option.some.inj h).symm, hagree, .nil, .nil⟩
    obtain ⟨env₁, ⟨stack, mem'⟩, hm, h⟩ :=
      hstart.run p.distinct p.straight (compiles_of_assemble hcode) hs hwaiting
    obtain rfl : stack = [] := List.forall₂_nil_left_iff.mp (hnil ▸ h.values)
    refine ⟨mem', hm, fun env' henv' => ?_⟩
    rw [exec_of_statements? htext] at henv'
    obtain rfl := h.ran env' henv'
    exact h.memory

/-! ## A program with a waiting value -/

theorem accepted_of_toOption {p : Program} {code : Code} {text : String}
    (hcode : (assemble 0 p.script).toOption = some code)
    (htext : (do
      let b ← Backend.run ({ id := 0, registry := {} } : Builder) p.script
      let (text, _) ← b.resolve
      return (b.stack, text)).toOption = some ([], text)) : Accepted p {} code text := by
  obtain ⟨b, hrun, h⟩ := bind_eq_ok.mp (eq_ok_of_toOption htext)
  obtain ⟨⟨source, b'⟩, hresolve, h⟩ := bind_eq_ok.mp h
  obtain ⟨hstack, rfl⟩ := Prod.mk.inj (Except.ok.inj h)
  exact ⟨⟨0, eq_ok_of_toOption hcode⟩, 0, {}, b, b', hrun, hstack, hresolve⟩

/-- Loads `y`, computes and stores `x` from both, then goes on with the `y` that it has loaded. -/
def scale : Program :=
  let int : Ty := .basic (.integer .int)
  let x : Var := ⟨1, "x", int⟩
  let y : Var := ⟨2, "y", int⟩
  { definitions := [[x], [y]]
    calls := [.loadVar y, .loadVar x, .push (.integer .int 41 (by decide)),
      .builtinOp (.integer .int) (.binary .sub), .loadVar y,
      .builtinOp (.integer .int) (.binary .mul), .storeVar x,
      .push (.integer .int (-43) (by decide)), .builtinOp (.integer .int) (.binary .sub),
      .storeVar y]
    typed := by decide
    named := by decide
    distinct := by decide
    straight := by
      simp only [List.forall_mem_cons]
      exact ⟨.load (by decide), .load (by decide), .push _, .arith (by decide), .load (by decide),
        .arith (by decide), .store (by decide), .push _, .arith (by decide), .store (by decide),
        List.forall_mem_nil _⟩ }

def scaleText : String :=
  "package main\n\nfunc main() \x7b\n\tvar x int\n\tvar y int\n" ++
    "\tx = (x - 41) * y\n\ty = y - -43\n\x7d\n"

def scaleCode : Code :=
  { ops := [.loadVar ⟨0, 1⟩, .loadVar ⟨0, 0⟩, .push (.integer .int 41 (by decide)),
      .builtinOp (.integer .int) (.binary .sub), .loadVar ⟨0, 1⟩,
      .builtinOp (.integer .int) (.binary .mul), .storeVar ⟨0, 0⟩,
      .push (.integer .int (-43) (by decide)), .builtinOp (.integer .int) (.binary .sub),
      .storeVar ⟨0, 1⟩]
    funcs := [], spans := [], numVars := 2 }

theorem accepted_scale : Accepted scale {} scaleCode scaleText :=
  accepted_of_toOption (by decide +kernel) (by decide +kernel)

/-- With constants of 512 bits the file runs, and both runs end with the same values. -/
theorem agree_scale :
    Checked scaleText ∧ ∃ env' mem',
      exec 512 scaleText (fun s => if s = "x" then 50 else 6) = some env' ∧
        Machine.run ⟨[], fun r => if r.slot = 0 then 50 else 6⟩ scaleCode.ops = some ⟨[], mem'⟩ ∧
          Agree scale.vars env' mem' := by
  have hregular : Regular {} := ⟨by decide, by decide, by simp [isBlank]⟩
  obtain ⟨hchecked, hruns, hagree⟩ := agree_of_accepted 512 hregular accepted_scale
  have hstart : Agree scale.vars (fun s => if s = "x" then 50 else 6)
      (fun r => if r.slot = 0 then 50 else 6) := by
    rintro (_ | _ | i) v ⟨⟩ <;> rfl
  obtain ⟨mem', hmem', hagree⟩ := hagree (by decide) _ _ hstart
  obtain ⟨env', henv'⟩ := Option.isSome_iff_exists.mp ((hruns _).mpr (by decide +kernel))
  exact ⟨hchecked.mpr (by decide), env', mem', henv', hmem', hagree env' henv'⟩

/-! ## A program with a constant that does not fit -/

/-- Adds two constants and stores the sum, which is no number of type `int`. -/
def overflow : Program :=
  let x : Var := ⟨1, "x", .basic (.integer .int)⟩
  { definitions := [[x]]
    calls := [.push (.integer .int 9223372036854775807 (by decide)),
      .push (.integer .int 1 (by decide)), .builtinOp (.integer .int) (.binary .add), .storeVar x]
    typed := by decide
    named := by decide
    distinct := by decide
    straight := by
      simp only [List.forall_mem_cons]
      exact ⟨.push _, .push _, .arith (by decide), .store (by decide), List.forall_mem_nil _⟩ }

example : overflow.Undisturbed ∧ ¬ overflow.Representable 512 := by decide +kernel

/-! ## A program that disturbs -/

/-- Loads two variables and stores them crosswise. -/
def swap : Program :=
  let int : Ty := .basic (.integer .int)
  let a : Var := ⟨1, "a", int⟩
  let b : Var := ⟨2, "b", int⟩
  { definitions := [[a, b]]
    calls := [.loadVar a, .loadVar b, .storeVar a, .storeVar b]
    typed := by decide
    named := by decide
    distinct := by decide
    straight := by
      simp only [List.forall_mem_cons]
      exact ⟨.load (by decide), .load (by decide), .store (by decide), .store (by decide),
        List.forall_mem_nil _⟩ }

def swapText : String :=
  "package main\n\nfunc main() \x7b\n\tvar a int\n\tvar b int\n\ta = b\n\tb = a\n\x7d\n"

def swapCode : Code :=
  { ops := [.loadVar ⟨0, 0⟩, .loadVar ⟨0, 1⟩, .storeVar ⟨0, 0⟩, .storeVar ⟨0, 1⟩]
    funcs := [], spans := [], numVars := 2 }

theorem accepted_swap : Accepted swap {} swapCode swapText :=
  accepted_of_toOption (by decide +kernel) (by decide +kernel)

theorem statements?_swapText : statements? (tokens swapText.toList) =
    some [.frame, .frame, .frame, .declare "a", .declare "b", .assign "a" (.operand (.name "b")),
      .assign "b" (.operand (.name "a")), .frame, .frame] := by
  decide +kernel

/-- **An exchange comes out differently.** The names in the file are in order and it runs. The
instructions exchange the values, while the file gives both variables the value of the second. -/
theorem exists_not_agree_swap :
    Checked swapText ∧ ∃ env mem env' mem', Accepted swap {} swapCode swapText ∧
      Agree swap.vars env mem ∧ (∀ bits, exec bits swapText env = some env') ∧
        Machine.run ⟨[], mem⟩ swapCode.ops = some ⟨[], mem'⟩ ∧ ¬ Agree swap.vars env' mem' := by
  have hchecked : Checked swapText :=
    ⟨_, statements?_swapText, (inOrder_iff (p := swap) rfl rfl).mpr (by decide)⟩
  let env : Env := fun s => if s = "a" then 1 else 2
  let mem : Memory := fun r => if r.slot = 0 then 1 else 2
  refine ⟨hchecked, env, mem, (env.set "a" 2).set "b" 2, (mem.set ⟨0, 0⟩ 2).set ⟨0, 1⟩ 1,
    accepted_swap, ?_, ?_, rfl, ?_⟩
  · rintro (_ | _ | i) v ⟨⟩ <;> rfl
  · intro bits
    rw [exec, statements?_swapText]
    rfl
  · intro hagree
    exact absurd (hagree 1 _ rfl) (by decide)

end Lowering.StraightLine
