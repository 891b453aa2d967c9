import Lowering.Proofs.Bytecode.Variables
import Lowering.Proofs.StraightLine.Symbolic

/-!
# Straight-line code on a stack machine

The instructions of a straight-line program, executed in order: pushing and loading put a value on
the stack, an operator replaces the two topmost values, storing takes the topmost one.

Every call of the program becomes one instruction, and a variable's place is its number among the
variables of the program (`compiles_of_assemble`). If no assignment disturbs a waiting value, the
machine and the assignments of the program stay in step (`Tracks.run`): the values on the stack are
those that the waiting trees have in the state that the assignments have left, if they have any.
-/

namespace Lowering.StraightLine

open Bytecode (Op VarRef Code)
open Go
open Source.Builder (varName)

/-! ## The machine -/

abbrev Memory := VarRef → Int

def Memory.set (mem : Memory) (r : VarRef) (z : Int) : Memory := fun q => if q = r then z else mem q

/-- The values on the stack, the newest first, and the values of the variables. -/
structure Machine where
  stack : List Int := []
  memory : Memory

namespace Machine

/-- Executes one instruction of straight-line code. -/
def step (m : Machine) : Op → Option Machine
  | .push (.integer .int z _) => some { m with stack := z :: m.stack }
  | .loadVar r => some { m with stack := m.memory r :: m.stack }
  | .storeVar r =>
    match m.stack with
    | z :: rest => some ⟨rest, m.memory.set r z⟩
    | [] => none
  | .builtinOp (.integer .int) (.binary op) =>
    match m.stack with
    | y :: x :: rest => do return { m with stack := IntKind.int.wrap (← op.exact x y) :: rest }
    | _ => none
  | _ => none

def run (m : Machine) (ops : List Op) : Option Machine := ops.foldlM step m

end Machine

/-! ## Instructions of a program -/

/-- The instruction of a call. Variables are at the top level, in the order of their definition. -/
inductive Compiles (vars : List Var) : Call → Op → Prop
  | push {v : Value} : Compiles vars (.push v) (.push v)
  | load {v : Var} {i : Nat} (hi : vars[i]? = some v) :
      Compiles vars (.loadVar v) (.loadVar ⟨0, i⟩)
  | store {v : Var} {i : Nat} (hi : vars[i]? = some v) :
      Compiles vars (.storeVar v) (.storeVar ⟨0, i⟩)
  | arith {k : Kind} {op : Operator} : Compiles vars (.builtinOp k op) (.builtinOp k op)

section

open Bytecode.Builder

variable {b b' : Bytecode.Builder} {c : Call} {calls : List Call} {vars : List Var} {ops : List Op}

/-- The builder is at the top level, has defined the variables and emitted the instructions. -/
structure AtTop (b : Bytecode.Builder) (vars : List Var) (ops : List Op) : Prop where
  bodies : b.bodies = []
  fixups : b.fixups = #[]
  globals : b.globals = vars.map (·.id)
  nodup : b.globals.Nodup
  ops : b.ops.toList = ops

/-- Variables are numbered in the order of their definitions. -/
theorem define_eq_append {frame frame' : List Nat} {vs : List Var}
    (h : define frame vs = .ok frame') : frame' = frame ++ vs.map (·.id) := by
  induction vs generalizing frame with
  | nil =>
    obtain rfl := Except.ok.inj h
    exact (List.append_nil _).symm
  | cons v vs ih =>
    rw [define] at h
    split at h
    · cases h
    · rw [ih h, List.append_assoc, List.singleton_append, List.map_cons]

/-- Without an open body, variables are global. -/
theorem AtTop.define {vs : List Var} (hb : AtTop b vars ops)
    (h : b.step (.defineVar vs) = .ok b') : AtTop b' (vars ++ vs) ops := by
  obtain ⟨-, ⟨globals, -, hdefine, rfl⟩ | ⟨_, _, _, hcons, _⟩⟩ := defineVar_eq_ok.mp h
  · refine ⟨hb.bodies, hb.fixups, ?_, (define_eq_ok hdefine).2 hb.nodup, hb.ops⟩
    rw [List.map_append, ← hb.globals]
    exact define_eq_append hdefine
  · rw [hb.bodies] at hcons
    cases hcons

theorem AtTop.run_definitions {definitions : List (List Var)} (hb : AtTop b vars ops)
    (h : Backend.run b (definitions.map .defineVar) = .ok b') :
    AtTop b' (vars ++ definitions.flatten) ops := by
  induction definitions generalizing b vars with
  | nil =>
    obtain rfl := Backend.run_nil_eq_ok.mp h
    simpa using hb
  | cons vs definitions ih =>
    obtain ⟨m, hm, hrest⟩ := Backend.run_cons_eq_ok.mp h
    rw [List.flatten_cons, ← List.append_assoc]
    exact ih (hb.define hm) hrest

/-- A variable's place is its number among the variables. -/
theorem AtTop.place_of_varRef {v : Var} {r : VarRef} (hb : AtTop b vars ops) (hv : v ∈ vars)
    (h : b.varRef v = .ok r) : ∃ i, r = ⟨0, i⟩ ∧ vars[i]? = some v := by
  obtain ⟨scope, slot⟩ := r
  obtain ⟨frame, hframe, hslot⟩ := getElem?_of_varRef h
  have hscope : scope = 0 ∧ b.globals = frame := by
    simpa [frames, hb.bodies, List.getElem?_singleton] using hframe
  obtain ⟨rfl, rfl⟩ := hscope
  obtain ⟨j, hj⟩ := List.mem_iff_getElem?.mp hv
  have hlt : slot < b.globals.length := (List.getElem?_eq_some_iff.mp hslot).1
  have hid : b.globals[slot]? = b.globals[j]? := by
    rw [hslot, hb.globals]
    simp [hj]
  obtain rfl : slot = j := (List.getElem?_inj hlt hb.nodup).mp hid
  exact ⟨slot, rfl, hj⟩

/-- A call of a straight program appends one instruction. -/
theorem AtTop.step {c : Call} (hb : AtTop b vars ops) (hc : Straight vars c)
    (h : b.step c = .ok b') : ∃ op, Compiles vars c op ∧ AtTop b' vars (ops ++ [op]) := by
  have happend : ∀ op, AtTop (b.append op) vars (ops ++ [op]) := fun op =>
    ⟨hb.bodies, hb.fixups, hb.globals, hb.nodup, by simp [append, hb.ops]⟩
  have hop : ∀ op, c.op? = some op → AtTop b' vars (ops ++ [op]) := by
    intro op hop
    rw [step_of_op? hop] at h
    obtain ⟨-, rfl⟩ := emit_eq_ok.mp h
    exact happend op
  have haccess : ∀ v mk, c.access? = some (v, mk) → v ∈ vars →
      ∃ i, vars[i]? = some v ∧ AtTop b' vars (ops ++ [mk ⟨0, i⟩]) := by
    intro v mk hmk hv
    rw [step_of_access? hmk] at h
    obtain ⟨r, hr, h⟩ := bind_eq_ok.mp h
    obtain ⟨-, rfl⟩ := emit_eq_ok.mp h
    obtain ⟨i, rfl, hi⟩ := hb.place_of_varRef hv hr
    exact ⟨i, hi, happend _⟩
  cases hc with
  | push hz => exact ⟨_, .push, hop _ rfl⟩
  | load hv =>
    obtain ⟨i, hi, hb'⟩ := haccess _ _ rfl hv
    exact ⟨_, .load hi, hb'⟩
  | store hv =>
    obtain ⟨i, hi, hb'⟩ := haccess _ _ rfl hv
    exact ⟨_, .store hi, hb'⟩
  | arith => exact ⟨_, .arith, hop _ rfl⟩

/-- By induction on the calls. -/
theorem AtTop.run (hb : AtTop b vars ops) (hcalls : ∀ c ∈ calls, Straight vars c)
    (h : Backend.run b calls = .ok b') :
    ∃ new, List.Forall₂ (Compiles vars) calls new ∧ AtTop b' vars (ops ++ new) := by
  induction calls generalizing b ops with
  | nil =>
    obtain rfl := Backend.run_nil_eq_ok.mp h
    exact ⟨[], .nil, by simpa using hb⟩
  | cons c calls ih =>
    obtain ⟨hc, hcalls⟩ := List.forall_mem_cons.mp hcalls
    obtain ⟨m, hm, hrest⟩ := Backend.run_cons_eq_ok.mp h
    obtain ⟨op, hop, hm⟩ := hb.step hc hm
    obtain ⟨new, hnew, hb'⟩ := ih hm hcalls hrest
    exact ⟨op :: new, .cons hop hnew, by simpa using hb'⟩

/-- The code of a straight-line program has one instruction for every call. -/
theorem compiles_of_assemble {p : Program} {id : Nat} {code : Code}
    (h : assemble id p.script = .ok code) : List.Forall₂ (Compiles p.vars) p.calls code.ops := by
  obtain ⟨b, hrun, -, patched, hpatched, rfl⟩ := assemble_eq_ok.mp h
  obtain ⟨m, hdefs, hcalls⟩ := Backend.run_append_eq_ok.mp hrun
  have hfresh : AtTop ({ id := id } : Bytecode.Builder) [] [] := ⟨rfl, rfl, rfl, .nil, rfl⟩
  obtain ⟨ops, hops, hb⟩ := (hfresh.run_definitions hdefs).run p.straight hcalls
  have hpatched : b.ops = patched := by
    rw [hb.fixups] at hpatched
    exact Except.ok.inj hpatched
  subst hpatched
  simpa [codeOf, hb.ops, Program.vars] using hops

end

/-! ## In step with the assignments -/

section

variable {bits : Nat} {vars : List Var} {env₀ env : Env} {s s' : Symbolic}
  {waiting waiting' : List (List String)} {m : Machine} {c : Call} {op : Op}

/-- Variables by name and variables by place have the same values. -/
def Agree (vars : List Var) (env : Env) (mem : Memory) : Prop :=
  ∀ i v, vars[i]? = some v → mem ⟨0, i⟩ = env (varName v)

/-- The tree is evaluated to the number in the range of type `int`, if it is not refused. -/
def Yields (bits : Nat) (env : Env) (t : Expr Atom) (z : Int) : Prop :=
  ∀ r, eval bits env t = some r → r.wrapped = z

/-- The assignments lead from `env₀` to `env`, where the machine stands, unless one is refused.
Every waiting value is that of its tree and depends on the listed names at most. -/
structure Tracks (bits : Nat) (vars : List Var) (env₀ env : Env) (s : Symbolic)
    (waiting : List (List String)) (m : Machine) : Prop where
  ran : ∀ env', s.statements.foldlM (Statement.run bits) env₀ = some env' → env' = env
  memory : Agree vars env m.memory
  values : List.Forall₂ (Yields bits env) s.stack m.stack
  names : List.Forall₂ (fun t names => ∀ u ∈ Go.names t, u ∈ names) s.stack waiting

/-- Names and addresses are changed together, as different variables have different names. -/
theorem Agree.set {mem : Memory} {i : Nat} {v : Var} (h : Agree vars env mem)
    (hdistinct : (vars.map varName).Nodup) (hi : vars[i]? = some v) (z : Int) :
    Agree vars (env.set (varName v) z) (mem.set ⟨0, i⟩ z) := by
  intro j u hj
  by_cases hij : j = i
  · subst hij
    obtain rfl : v = u := Option.some.inj (hi.symm.trans hj)
    simp [Memory.set, Env.set]
  · have hname : varName u ≠ varName v := by
      intro hname
      have hlt : j < (vars.map varName).length := by
        rw [List.length_map]
        exact (List.getElem?_eq_some_iff.mp hj).1
      refine hij ((List.getElem?_inj hlt hdistinct).mp ?_)
      simp [hi, hj, hname]
    simpa [Memory.set, Env.set, hij, hname] using h j u hj

/-- An assignment leaves the values that do not depend on its variable. -/
theorem values_set {u : String} {ts : List (Expr Atom)} {zs : List Int}
    {waiting : List (List String)}
    (hvalues : List.Forall₂ (Yields bits env) ts zs)
    (hnames : List.Forall₂ (fun t names => ∀ u ∈ Go.names t, u ∈ names) ts waiting)
    (hu : ∀ names ∈ waiting, u ∉ names) (a : Int) :
    List.Forall₂ (Yields bits (env.set u a)) ts zs := by
  induction hvalues generalizing waiting with
  | nil => exact .nil
  | cons hvalue _ ih =>
    cases hnames with
    | cons hname hnames =>
      obtain ⟨hfirst, hrest⟩ := List.forall_mem_cons.mp hu
      refine .cons ?_ (ih hnames hrest)
      rw [Yields, eval_set fun hmem => hfirst (hname u hmem)]
      exact hvalue

/-- A number on the stack waits for no variable. -/
theorem Tracks.push {z : Int} (h : Tracks bits vars env₀ env s waiting m)
    (hz : IntKind.int.Fits z) :
    Tracks bits vars env₀ env { s with stack := literal z :: s.stack } ([] :: waiting)
      { m with stack := z :: m.stack } where
  ran := h.ran
  memory := h.memory
  values := .cons (fun _ hr => wrapped_of_eval_literal hz hr) h.values
  names := .cons (fun u hu => by simp [names_literal] at hu) h.names

/-- The expression waits for the variable, which must not change before the expression is
written. -/
theorem Tracks.load {v : Var} {i : Nat} (h : Tracks bits vars env₀ env s waiting m)
    (hi : vars[i]? = some v) :
    Tracks bits vars env₀ env { s with stack := .operand (.name (varName v)) :: s.stack }
      ([varName v] :: waiting) { m with stack := m.memory ⟨0, i⟩ :: m.stack } where
  ran := h.ran
  memory := h.memory
  values := .cons (fun _ hr => Option.some.inj hr ▸ (h.memory i v hi).symm) h.values
  names := .cons (fun _ hu => hu) h.names

/-- The variable that is stored to may not be one for which an expression is still waiting. -/
theorem Tracks.store {v : Var} {i : Nat} {x : Expr Atom} {rest : List (Expr Atom)}
    {names : List String} (h : Tracks bits vars env₀ env s (names :: waiting) m)
    (hdistinct : (vars.map varName).Nodup) (hi : vars[i]? = some v) (hs : s.stack = x :: rest)
    (hwaiting : ∀ names ∈ waiting, varName v ∉ names) :
    ∃ env' m', m.step (.storeVar ⟨0, i⟩) = some m' ∧
      Tracks bits vars env₀ env' ⟨rest, s.statements ++ [.assign (varName v) x]⟩ waiting m' := by
  obtain ⟨hran, hmemory, hvalues, hnames⟩ := h
  rw [hs] at hvalues hnames
  obtain ⟨stack, mem⟩ := m
  cases hvalues with
  | @cons _ z _ zs hvalue hvalues =>
    cases hnames with
    | cons _ hnames =>
      refine ⟨env.set (varName v) z, ⟨zs, mem.set ⟨0, i⟩ z⟩, rfl, ?_,
        hmemory.set hdistinct hi z, values_set hvalues hnames hwaiting z, hnames⟩
      intro env' henv'
      rw [List.foldlM_append] at henv'
      obtain ⟨env₁, henv₁, henv'⟩ := Option.bind_eq_some_iff.mp henv'
      obtain rfl := hran env₁ henv₁
      obtain ⟨env₂, hrun, henv'⟩ := Option.bind_eq_some_iff.mp henv'
      obtain rfl := Option.some.inj henv'
      obtain ⟨a, ha, rfl⟩ := Option.map_eq_some_iff.mp hrun
      obtain ⟨r, hr, ha⟩ := Option.bind_eq_some_iff.mp ha
      rw [← Result.wrapped_of_toInt? ha, hvalue r hr]

theorem exists_ring?_of_mem {op : BinaryOp} (h : op ∈ [BinaryOp.add, .sub, .mul]) :
    ∃ f, ring? op = some f := by
  simp only [List.mem_cons, List.not_mem_nil, or_false] at h
  obtain rfl | rfl | rfl := h <;> exact ⟨_, rfl⟩

theorem exact_of_ring? {op : BinaryOp} {f : Int → Int → Int} (h : ring? op = some f) (a b : Int) :
    op.exact a b = some (f a b) := by
  cases op with
  | add | sub | mul =>
    obtain rfl := Option.some.inj h
    rfl
  | _ => cases h

/-- Constants that are computed exactly come to what a machine computes that wraps around each
time. -/
theorem Yields.binary {op : BinaryOp} {f : Int → Int → Int} {x y : Expr Atom} {a b : Int}
    (hx : Yields bits env x a) (hy : Yields bits env y b) (hf : ring? op = some f) :
    Yields bits env (.binary op x y) (IntKind.int.wrap (f a b)) := by
  intro r hr
  obtain ⟨g, ra, rb, hg, ha, hb, hr⟩ := eval_binary_eq_some.mp hr
  obtain rfl := Option.some.inj (hf.symm.trans hg)
  rw [wrapped_binary hf hr, hx ra ha, hy rb hb]

/-- The operation on the stack is the operation in the expression. -/
theorem Tracks.arith {op : BinaryOp} {x y : Expr Atom} {rest : List (Expr Atom)}
    {xs ys : List String} (h : Tracks bits vars env₀ env s (ys :: xs :: waiting) m)
    (hop : op ∈ [BinaryOp.add, .sub, .mul]) (hs : s.stack = y :: x :: rest) :
    ∃ m', m.step (.builtinOp (.integer .int) (.binary op)) = some m' ∧
      Tracks bits vars env₀ env { s with stack := .binary op x y :: rest } ((xs ++ ys) :: waiting)
        m' := by
  obtain ⟨hran, hmemory, hvalues, hnames⟩ := h
  rw [hs] at hvalues hnames
  obtain ⟨stack, mem⟩ := m
  cases hvalues with
  | @cons _ b _ _ hy hvalues =>
    cases hvalues with
    | @cons _ a _ zs hx hvalues =>
      cases hnames with
      | cons hys hnames =>
        cases hnames with
        | cons hxs hnames =>
          obtain ⟨f, hf⟩ := exists_ring?_of_mem hop
          refine ⟨⟨IntKind.int.wrap (f a b) :: zs, mem⟩, by simp [Machine.step, exact_of_ring? hf],
            hran, hmemory, .cons ?_ hvalues, .cons ?_ hnames⟩
          · exact hx.binary hy hf
          · intro u hu
            exact List.mem_append.mpr ((List.mem_append.mp hu).imp (hxs u) (hys u))

theorem Tracks.step (h : Tracks bits vars env₀ env s waiting m)
    (hdistinct : (vars.map varName).Nodup) (hc : Straight vars c) (hop : Compiles vars c op)
    (hs : s.step c = some s') (hwaiting : waiting? waiting c = some waiting') :
    ∃ env' m', m.step op = some m' ∧ Tracks bits vars env₀ env' s' waiting' m' := by
  cases hc with
  | push hz =>
    cases hop
    obtain rfl := Option.some.inj hs
    obtain rfl := Option.some.inj hwaiting
    exact ⟨env, _, rfl, h.push hz⟩
  | load hv =>
    cases hop with
    | load hi =>
      obtain rfl := Option.some.inj hs
      obtain rfl := Option.some.inj hwaiting
      exact ⟨env, _, rfl, h.load hi⟩
  | store hv =>
    cases hop with
    | store hi =>
      -- The only call after which a waiting tree could have another value than the machine.
      obtain ⟨x, rest, hstack, rfl⟩ := Symbolic.step_storeVar.mp hs
      obtain ⟨names, rfl, hnames⟩ := waiting?_storeVar hwaiting
      exact h.store hdistinct hi hstack hnames
  | arith harith =>
    cases hop
    obtain ⟨x, y, rest, hstack, rfl⟩ := Symbolic.step_builtinOp.mp hs
    obtain ⟨xs, ys, rest, rfl, rfl⟩ := waiting?_builtinOp hwaiting
    obtain ⟨m', hm', h'⟩ := h.arith harith hstack
    exact ⟨env, m', hm', h'⟩

/-- An undisturbed program and its code stay in step from call to call. -/
theorem Tracks.run {calls : List Call} {ops : List Op} (h : Tracks bits vars env₀ env s waiting m)
    (hdistinct : (vars.map varName).Nodup) (hcalls : ∀ c ∈ calls, Straight vars c)
    (hops : List.Forall₂ (Compiles vars) calls ops) (hs : calls.foldlM Symbolic.step s = some s')
    (hwaiting : calls.foldlM waiting? waiting = some waiting') :
    ∃ env' m', m.run ops = some m' ∧ Tracks bits vars env₀ env' s' waiting' m' := by
  induction hops generalizing env s waiting m with
  | nil =>
    obtain rfl := Option.some.inj hs
    obtain rfl := Option.some.inj hwaiting
    exact ⟨env, m, rfl, h⟩
  | cons hop _ ih =>
    obtain ⟨hc, hcalls⟩ := List.forall_mem_cons.mp hcalls
    obtain ⟨s₁, hs₁, hs⟩ := Option.bind_eq_some_iff.mp hs
    obtain ⟨waiting₁, hwaiting₁, hwaiting⟩ := Option.bind_eq_some_iff.mp hwaiting
    obtain ⟨env₁, m₁, hm₁, h₁⟩ := h.step hdistinct hc hop hs₁ hwaiting₁
    obtain ⟨env', m', hm', h'⟩ := ih h₁ hcalls hs hwaiting
    exact ⟨env', m', by rw [Machine.run, List.foldlM_cons, hm₁]; exact hm', h'⟩

end

end Lowering.StraightLine
