import Mathlib.Data.List.Nodup
import Lowering.Call
import Lowering.Proofs.Go.Statement
import Lowering.Source.State

/-!
# Straight-line programs

Programs that declare variables of type `int`, compute and assign, and nothing else. Seen from the
outside, such a program is a list of assignments whose right sides are trees: `Symbolic.step` builds
the trees from the calls on a stack of its own. Both backends are compared with it.

A tree that waits on the stack while another is assigned is treated differently by the two: it has
its value already where values are computed call by call, and is evaluated later where it is only
written down. `Undisturbed` programs assign no variable that a waiting tree loads.

A file is refused where code is not. `Representable` programs have no constants that a compiler
refuses, and programs that use all variables (`UsesAll`) have their names in order (`inOrder_iff`).
-/

namespace Lowering.StraightLine

open Go
open Source.Builder (varName)

/-! ## Programs -/

/-- The calls of straight-line code over some variables. -/
inductive Straight (vars : List Var) : Call → Prop
  | push {z : Int} (hz : IntKind.int.Fits z) : Straight vars (.push (.integer .int z hz))
  | load {v : Var} (hv : v ∈ vars) : Straight vars (.loadVar v)
  | store {v : Var} (hv : v ∈ vars) : Straight vars (.storeVar v)
  | arith {op : BinaryOp} (hop : op ∈ [.add, .sub, .mul]) :
      Straight vars (.builtinOp (.integer .int) (.binary op))

/-- The text can name a variable beside which `int` is still the type. -/
def NamesVar (s : String) : Prop := isName s = true ∧ s ∉ ["_", "int"]

instance (s : String) : Decidable (NamesVar s) := inferInstanceAs (Decidable (_ ∧ _))

/-- A straight-line program: definitions of variables, and calls that use them. No two variables
have the same name, as a file knows them by their names alone. -/
structure Program where
  definitions : List (List Var)
  calls : List Call
  typed : ∀ v ∈ definitions.flatten, v.ty = .basic (.integer .int)
  named : ∀ v ∈ definitions.flatten, NamesVar (varName v)
  distinct : (definitions.flatten.map varName).Nodup
  straight : ∀ c ∈ calls, Straight definitions.flatten c

namespace Program

/-- The variables, in the order of their definition. -/
def vars (p : Program) : List Var := p.definitions.flatten

/-- All calls of the program. -/
def script (p : Program) : List Call := p.definitions.map .defineVar ++ p.calls

/-- Every variable is loaded at least once. -/
def UsesAll (p : Program) : Prop := ∀ v ∈ p.vars, .loadVar v ∈ p.calls

instance (p : Program) : Decidable p.UsesAll :=
  inferInstanceAs (Decidable (∀ v ∈ p.vars, .loadVar v ∈ p.calls))

end Program

/-- The names that every waiting value depends on, the newest value first, as a call changes them.
There are none if the call stores a variable that a value further down depends on. -/
def waiting? (waiting : List (List String)) : Call → Option (List (List String))
  | .push _ => some ([] :: waiting)
  | .loadVar v => some ([varName v] :: waiting)
  | .builtinOp _ _ =>
    match waiting with
    | y :: x :: rest => some ((x ++ y) :: rest)
    | _ => none
  | .storeVar v =>
    match waiting with
    | _ :: rest => if ∀ names ∈ rest, varName v ∉ names then some rest else none
    | [] => none
  | _ => none

/-- No variable is stored while a value that depends on it waits. -/
def Program.Undisturbed (p : Program) : Prop := (p.calls.foldlM waiting? []).isSome = true

instance (p : Program) : Decidable p.Undisturbed := inferInstanceAs (Decidable (_ = true))

theorem waiting?_storeVar {waiting waiting' : List (List String)} {v : Var}
    (h : waiting? waiting (.storeVar v) = some waiting') :
    ∃ names, waiting = names :: waiting' ∧ ∀ names ∈ waiting', varName v ∉ names := by
  cases waiting with
  | nil => cases h
  | cons names rest =>
    obtain ⟨hrest, h⟩ := Option.ite_none_right_eq_some.mp h
    obtain rfl := Option.some.inj h
    exact ⟨names, rfl, hrest⟩

theorem waiting?_builtinOp {waiting waiting' : List (List String)} {k : Kind} {op : Operator}
    (h : waiting? waiting (.builtinOp k op) = some waiting') :
    ∃ xs ys rest, waiting = ys :: xs :: rest ∧ waiting' = (xs ++ ys) :: rest := by
  match waiting with
  | [] | [_] => cases h
  | ys :: xs :: rest => exact ⟨xs, ys, rest, rfl, (Option.some.inj h).symm⟩

/-! ## The assignments of a program -/

/-- An integer constant as the text has it: a negative number is the negation of its amount. -/
def literal : Int → Expr Atom
  | .ofNat n => .operand (.number n)
  | .negSucc n => .unary .neg (.operand (.number (n + 1)))

/-- The trees that wait, the newest first, and the assignments so far. -/
structure Symbolic where
  stack : List (Expr Atom) := []
  statements : List Statement := []

namespace Symbolic

def step (s : Symbolic) : Call → Option Symbolic
  | .push (.integer _ z _) => some { s with stack := literal z :: s.stack }
  | .loadVar v => some { s with stack := .operand (.name (varName v)) :: s.stack }
  | .builtinOp _ (.binary op) =>
    match s.stack with
    | y :: x :: rest => some { s with stack := .binary op x y :: rest }
    | _ => none
  | .storeVar v =>
    match s.stack with
    | x :: rest => some ⟨rest, s.statements ++ [.assign (varName v) x]⟩
    | [] => none
  | _ => none

theorem step_storeVar {s s' : Symbolic} {v : Var} :
    s.step (.storeVar v) = some s' ↔
      ∃ x rest, s.stack = x :: rest ∧ ⟨rest, s.statements ++ [.assign (varName v) x]⟩ = s' := by
  obtain ⟨stack, statements⟩ := s
  cases stack <;> simp [step]

theorem step_builtinOp {s s' : Symbolic} {k : Kind} {op : BinaryOp} :
    s.step (.builtinOp k (.binary op)) = some s' ↔
      ∃ x y rest, s.stack = y :: x :: rest ∧ { s with stack := .binary op x y :: rest } = s' := by
  obtain ⟨stack, statements⟩ := s
  match stack with
  | [] | [_] => simp [step]
  | y :: x :: rest => simp [step]

/-- The variables that the state mentions. -/
def names (s : Symbolic) : List String := s.stack.flatMap Go.names ++ s.statements.flatMap (·.reads)

end Symbolic

/-- The assignments of the program. -/
def Program.assignments (p : Program) : List Statement :=
  (p.calls.foldlM Symbolic.step {}).elim [] (·.statements)

/-- No constant of the program is refused. -/
def Program.Representable (bits : Nat) (p : Program) : Prop :=
  ∀ st ∈ p.assignments, st.Representable bits

instance (bits : Nat) (p : Program) : Decidable (p.Representable bits) :=
  inferInstanceAs (Decidable (∀ st ∈ p.assignments, st.Representable bits))

theorem assignments_of_run {p : Program} {s : Symbolic}
    (hs : p.calls.foldlM Symbolic.step {} = some s) : p.assignments = s.statements := by
  rw [Program.assignments, hs, Option.elim_some]

/-! ## Names -/

section

variable {vars : List Var} {c : Call} {calls : List Call} {s s' : Symbolic}

theorem names_literal (z : Int) : Go.names (literal z) = [] := by cases z <;> rfl

/-- A call brings in the variable that it loads, and no name gets lost. -/
theorem Symbolic.mem_names_step (hc : Straight vars c) (h : s.step c = some s') (u : String) :
    u ∈ s'.names ↔ u ∈ s.names ∨ ∃ v, c = .loadVar v ∧ varName v = u := by
  cases hc with
  | push hz =>
    obtain rfl := Option.some.inj h
    simp [names, names_literal]
  | @load v hv =>
    obtain rfl := Option.some.inj h
    grind [names, Go.names]
  | store hv =>
    obtain ⟨x, rest, hstack, rfl⟩ := step_storeVar.mp h
    grind [names, Statement.reads]
  | arith hop =>
    obtain ⟨x, y, rest, hstack, rfl⟩ := step_builtinOp.mp h
    grind [names, Go.names]

theorem Symbolic.mem_names_run (hcalls : ∀ c ∈ calls, Straight vars c)
    (h : calls.foldlM Symbolic.step s = some s') (u : String) :
    u ∈ s'.names ↔ u ∈ s.names ∨ ∃ v, .loadVar v ∈ calls ∧ varName v = u := by
  induction calls generalizing s with
  | nil =>
    obtain rfl := Option.some.inj h
    simp
  | cons c calls ih =>
    obtain ⟨hc, hcalls⟩ := List.forall_mem_cons.mp hcalls
    obtain ⟨m, hm, h⟩ := Option.bind_eq_some_iff.mp h
    rw [ih hcalls h, mem_names_step hc hm]
    grind

/-- All statements are assignments to variables of the program. -/
theorem Symbolic.forall_assign_run (hcalls : ∀ c ∈ calls, Straight vars c)
    (h : calls.foldlM Symbolic.step s = some s')
    (hs : ∀ st ∈ s.statements, ∃ v ∈ vars, ∃ t, st = .assign (varName v) t) :
    ∀ st ∈ s'.statements, ∃ v ∈ vars, ∃ t, st = .assign (varName v) t := by
  induction calls generalizing s with
  | nil =>
    obtain rfl := Option.some.inj h
    exact hs
  | cons c calls ih =>
    obtain ⟨hc, hcalls⟩ := List.forall_mem_cons.mp hcalls
    obtain ⟨m, hm, h⟩ := Option.bind_eq_some_iff.mp h
    refine ih hcalls h ?_
    cases hc with
    | push hz =>
      obtain rfl := Option.some.inj hm
      exact hs
    | load hv =>
      obtain rfl := Option.some.inj hm
      exact hs
    | @store v hv =>
      obtain ⟨x, rest, -, rfl⟩ := step_storeVar.mp hm
      intro st hst
      rcases List.mem_append.mp hst with hst | hst
      · exact hs st hst
      · exact ⟨v, hv, x, List.mem_singleton.mp hst⟩
    | arith hop =>
      obtain ⟨x, y, rest, -, rfl⟩ := step_builtinOp.mp hm
      exact hs

/-- Variables with different names can be declared one after the other. -/
theorem foldlM_scope?_declare {names : List String} {declared : List String}
    (hnames : ∀ s ∈ names, s ∉ ["_", "int"]) (hint : "int" ∉ declared)
    (hnodup : (declared ++ names).Nodup) :
    (names.map Statement.declare).foldlM Statement.scope? declared =
      some (names.reverse ++ declared) := by
  induction names generalizing declared with
  | nil => rfl
  | cons s names ih =>
    obtain ⟨hs, hnames⟩ := List.forall_mem_cons.mp hnames
    simp only [List.mem_cons, List.not_mem_nil, or_false, not_or] at hs
    have hnodup' : (s :: (declared ++ names)).Nodup := List.nodup_middle.mp hnodup
    have hdeclared : s ∉ declared := fun h =>
      (List.nodup_cons.mp hnodup').1 (List.mem_append_left names h)
    have hstep : Statement.scope? declared (.declare s) = some (s :: declared) := by
      simp [Statement.scope?, hs, hdeclared, hint]
    rw [List.map_cons, List.foldlM_cons, hstep]
    simpa using ih hnames (by simpa [hint] using Ne.symm hs.2) hnodup'

/-- Assignments of declared variables to declared variables declare nothing. -/
theorem foldlM_scope?_assign {stmts : List Statement} {declared : List String}
    (hstmts : ∀ st ∈ stmts, ∃ s ∈ declared, ∃ t, st = .assign s t)
    (hreads : ∀ st ∈ stmts, ∀ u ∈ st.reads, u ∈ declared) :
    stmts.foldlM Statement.scope? declared = some declared := by
  induction stmts with
  | nil => rfl
  | cons st stmts ih =>
    obtain ⟨⟨s, hs, t, rfl⟩, hrest⟩ := List.forall_mem_cons.mp hstmts
    obtain ⟨ht, hreads⟩ := List.forall_mem_cons.mp hreads
    have hstep : Statement.scope? declared (.assign s t) = some declared := if_pos ⟨hs, ht⟩
    rw [List.foldlM_cons, hstep]
    exact ih hrest hreads

/-- The statements of a file for a program with these assignments. -/
def Program.file (p : Program) (assignments : List Statement) : List Statement :=
  List.replicate 3 .frame ++ p.vars.map (fun v => .declare (varName v)) ++ assignments ++
    List.replicate 2 .frame

/-- A file runs as its assignments. -/
theorem exec_of_statements? {p : Program} {text : String} {bits : Nat}
    {assignments : List Statement} {env : Env}
    (h : statements? (tokens text.toList) = some (p.file assignments)) :
    exec bits text env = assignments.foldlM (Statement.run bits) env := by
  have hdeclare : ∀ env,
      (p.vars.map fun v => .declare (varName v)).foldlM (Statement.run bits) env = some env :=
    foldlM_run_of_inert (List.forall_mem_map.mpr fun _ _ _ => rfl)
  rw [exec, h]
  simp [Program.file, Statement.run, hdeclare]

/-- The assignments read the variables that the calls load. -/
theorem mem_reads_iff {p : Program} (hs : p.calls.foldlM Symbolic.step {} = some s)
    (hnil : s.stack = []) (u : String) :
    (∃ st ∈ s.statements, u ∈ st.reads) ↔ ∃ v, .loadVar v ∈ p.calls ∧ varName v = u := by
  have h := Symbolic.mem_names_run p.straight hs u
  simpa [Symbolic.names, hnil] using h

theorem mem_vars_of_loadVar {p : Program} {v : Var} (h : .loadVar v ∈ p.calls) : v ∈ p.vars := by
  cases p.straight _ h with
  | load hv => exact hv

theorem inScope_file {p : Program} (hs : p.calls.foldlM Symbolic.step {} = some s)
    (hnil : s.stack = []) :
    ((p.file s.statements).foldlM Statement.scope? []).isSome = true := by
  have hnames : ∀ u ∈ p.vars.map varName, u ∉ ["_", "int"] := List.forall_mem_map.mpr fun v hv =>
    (p.named v hv).2
  have hdeclare : (p.vars.map fun v => Statement.declare (varName v)).foldlM Statement.scope? [] =
      some (p.vars.map varName).reverse := by
    have h := foldlM_scope?_declare hnames List.not_mem_nil p.distinct
    rwa [List.map_map, List.append_nil] at h
  have hassign : s.statements.foldlM Statement.scope? (p.vars.map varName).reverse =
      some (p.vars.map varName).reverse := by
    refine foldlM_scope?_assign (fun st hst => ?_) (fun st hst u hu => ?_)
    · obtain ⟨v, hv, t, rfl⟩ := Symbolic.forall_assign_run p.straight hs (by simp) st hst
      exact ⟨varName v, by simpa using ⟨v, hv, rfl⟩, t, rfl⟩
    · obtain ⟨v, hv, rfl⟩ := (mem_reads_iff hs hnil u).mp ⟨st, hst, hu⟩
      simpa using ⟨v, mem_vars_of_loadVar hv, rfl⟩
  have hframe : ∀ n declared, (List.replicate n Statement.frame).foldlM Statement.scope? declared =
      some declared := by
    intro n declared
    induction n with
    | zero => rfl
    | succ n ih => exact ih
  simp only [Program.file, List.foldlM_append, hframe, Option.bind_eq_bind, Option.bind_some,
    hdeclare, hassign, Option.isSome_some]

/-- The names in the file of a program are in order if and only if it uses all variables. -/
theorem inOrder_iff {p : Program} (hs : p.calls.foldlM Symbolic.step {} = some s)
    (hnil : s.stack = []) : InOrder (p.file s.statements) ↔ p.UsesAll := by
  have hassign := Symbolic.forall_assign_run p.straight hs (by simp)
  have hdeclare : ∀ u, .declare u ∈ p.file s.statements ↔ ∃ v ∈ p.vars, varName v = u := by
    intro u
    have hnot : Statement.declare u ∉ s.statements := by
      intro hmem
      obtain ⟨_, -, _, h⟩ := hassign _ hmem
      cases h
    simp [Program.file, hnot]
  have hreads : ∀ u, (∃ st ∈ p.file s.statements, u ∈ st.reads) ↔
      ∃ v, .loadVar v ∈ p.calls ∧ varName v = u := by
    intro u
    rw [← mem_reads_iff hs hnil u]
    simp [Program.file, Statement.reads, or_and_right, exists_or]
  constructor
  · intro h v hv
    obtain ⟨w, hw, hname⟩ := (hreads _).mp (h.used _ ((hdeclare _).mpr ⟨v, hv, rfl⟩))
    obtain rfl := List.inj_on_of_nodup_map p.distinct (mem_vars_of_loadVar hw) hv hname
    exact hw
  · intro h
    refine ⟨inScope_file hs hnil, fun u hu => ?_⟩
    obtain ⟨v, hv, rfl⟩ := (hdeclare u).mp hu
    exact (hreads _).mpr ⟨v, h v hv, rfl⟩

end

/-! ## Constants -/

theorem wrapped_of_eval_literal {bits : Nat} {env : Env} {z : Int} {r : Result}
    (hz : IntKind.int.Fits z) (h : eval bits env (literal z) = some r) : r.wrapped = z := by
  cases z with
  | ofNat n =>
    obtain ⟨a, ha, rfl⟩ := Option.map_eq_some_iff.mp h
    obtain rfl := eq_of_limit? ha
    exact IntKind.wrap_of_fits hz
  | negSucc n =>
    obtain ⟨a, ha, h⟩ := Option.bind_eq_some_iff.mp h
    obtain ⟨a, hlimit, rfl⟩ := Option.map_eq_some_iff.mp ha
    obtain rfl := eq_of_limit? hlimit
    obtain ⟨b, hb, rfl⟩ := Option.map_eq_some_iff.mp h
    obtain rfl := eq_of_limit? hb
    exact IntKind.wrap_of_fits hz

end Lowering.StraightLine
