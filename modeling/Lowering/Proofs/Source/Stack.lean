import Lowering.Proofs.Source.Protocol
import Lowering.Proofs.Source.Slots

/-!
# What calls leave on the stack

A call takes some of the newest values and leaves the ones below them as they are. How many it
takes is in the call itself, except for the calls that end a loop or a statement, which take what
was left there (`takes`). `suffix_of_step` says for every call that the values below stay.

`Script.Reaches` bounds how far down the stack a script can reach, from what its actions take and
leave. What no script reaches stays (`Reaches.rests`), so all that is to be known of a call is how
far it reaches (`reaches_script`).
-/

namespace Lowering.Source

/-! ## How far actions reach -/

/-- How many of the newest values an action takes. The end of a statement is not counted: it takes
what it finds. -/
@[simp] def Action.takes {β : Type} : Action β → Nat
  | take _ => 1
  | takeMany n => n
  | _ => 0

/-- How many values an action leaves. -/
@[simp] def Action.leaves {β : Type} : Action β → Nat
  | push _ | reserve => 1
  | _ => 0

namespace Builder

variable {b b' : Builder} {base : List Fragment} {n : Nat}

/-- The stack ends in `base`, with `n` values or more above it. -/
def Rests (base : List Fragment) (n : Nat) (b : Builder) : Prop :=
  ∃ top, b.stack = top ++ base ∧ n ≤ top.length

/-- Said by lengths, which is how it is checked. -/
theorem rests_iff : Rests base n b ↔ base <:+ b.stack ∧ n + base.length ≤ b.stack.length := by
  constructor
  · rintro ⟨top, hstack, hn⟩
    refine ⟨⟨top, hstack.symm⟩, ?_⟩
    rw [hstack, List.length_append]
    exact Nat.add_le_add_right hn _
  · rintro ⟨⟨top, hstack⟩, hn⟩
    refine ⟨top, hstack.symm, ?_⟩
    rw [← hstack, List.length_append] at hn
    exact Nat.le_of_add_le_add_right hn

theorem stack_setBlock (block : Block) : (b.setBlock block).stack = b.stack := by
  unfold setBlock
  cases b.bodies <;> rfl

variable {c : Call}

/-- An action takes the newest values away and puts others in their place. -/
theorem stack_of_perform {registry : Registry} {γ : Type} {action : Action γ} {x : γ}
    (haction : Performs registry c action) (hc : ∀ pos mark, c ≠ .endStmt pos mark)
    (h : action.perform b = .ok (x, b')) :
    ∃ new, new.length = action.leaves ∧ b'.stack = new ++ b.stack.drop action.takes := by
  cases action with
  | endStmt pos mark => exact absurd haction (hc pos mark)
  | take f =>
    obtain ⟨rest, hstack, rfl⟩ := popExpr_eq_ok.mp h
    exact ⟨[], rfl, by rw [hstack]; rfl⟩
  | takeMany n =>
    obtain ⟨-, -, rfl⟩ := popMany_eq_ok.mp h
    exact ⟨[], rfl, rfl⟩
  | push e =>
    obtain ⟨-, rfl⟩ := pushExpr_eq_ok.mp (Action.silent_eq_ok.mp h)
    exact ⟨[e], rfl, rfl⟩
  | reserve =>
    obtain ⟨-, rfl⟩ := reserve_eq_ok.mp (Action.silent_eq_ok.mp h)
    exact ⟨[.slot b.slots.size], rfl, rfl⟩
  | line _ | discard _ | label _ | enter | leave | declare _ =>
    exact ⟨[], rfl, (addsLines_of_perform rfl h).unchanged fun _ => stack_setBlock⟩
  | spell t =>
    obtain ⟨parts, -, h⟩ := typeText_eq_ok.mp h
    obtain rfl := congrArg Prod.snd h
    exact ⟨[], rfl, rfl⟩
  | qualify n =>
    obtain rfl := congrArg Prod.snd (Except.ok.inj h)
    refine ⟨[], rfl, ?_⟩
    unfold qualified
    split <;> rfl
  | name stem | openFor id | closeFor id | setCollectors collectors =>
    obtain rfl := congrArg Prod.snd (Except.ok.inj h)
    exact ⟨[], rfl, rfl⟩
  | defineFunc f =>
    obtain ⟨-, -, rfl⟩ := defineFunc_eq_ok.mp (Action.silent_eq_ok.mp h)
    exact ⟨[], rfl, rfl⟩
  | endFunc f =>
    obtain ⟨-, body, outer, parts, -, -, -, rfl⟩ := endFunc_eq_ok.mp (Action.silent_eq_ok.mp h)
    refine ⟨[], rfl, ?_⟩
    unfold addFunc
    split <;> rfl
  | startStmt =>
    obtain ⟨-, rfl⟩ := startStmt_eq_ok.mp (Action.silent_eq_ok.mp h)
    exact ⟨[], rfl, rfl⟩
  | fill r v =>
    obtain ⟨-, -, -, rfl⟩ := fill_eq_ok.mp (Action.silent_eq_ok.mp h)
    exact ⟨[], rfl, rfl⟩

end Builder

/-! ## How far scripts reach -/

namespace Script

variable {α β : Type} {s : Script α} {n : Nat}

/-- The script takes none but the `n` newest values and those that it leaves itself. -/
def Reaches (n : Nat) : Script α → Prop
  | done _ | fail _ => True
  | act action next => action.takes ≤ n ∧ ∀ x, (next x).Reaches (n - action.takes + action.leaves)

@[simp] theorem reaches_done (a : α) : (done a).Reaches n := trivial

@[simp] theorem reaches_fail (f : Fault) : (fail f : Script α).Reaches n := trivial

@[simp] theorem reaches_act {γ : Type} {action : Action γ} {next : γ → Script α} :
    (act action next).Reaches n ↔
      action.takes ≤ n ∧ ∀ x, (next x).Reaches (n - action.takes + action.leaves) := Iff.rfl

@[simp] theorem reaches_ite {p : Prop} [Decidable p] {yes no : Script α} :
    (if p then yes else no).Reaches n ↔ (p → yes.Reaches n) ∧ (¬ p → no.Reaches n) := by
  split <;> simp_all

/-- Where a computation fails, nothing is taken any more. -/
theorem reaches_ofExcept_bind {outcome : Except Fault α} {next : α → Script β}
    (h : ∀ a, (next a).Reaches n) : (ofExcept outcome >>= next).Reaches n := by
  cases outcome with
  | error f => trivial
  | ok a => exact h a

/-- What a script does not reach stays as it is. -/
theorem Reaches.rests {registry : Registry} {c : Call} {base : List Fragment} {b b' : Builder}
    {a : α} (hs : s.Reaches n) (hall : s.All (Builder.Performs registry c))
    (hc : ∀ pos mark, c ≠ .endStmt pos mark) (hb : b.Rests base n)
    (h : s.run b = .ok (a, b')) : b'.Rests base 0 := by
  induction s generalizing b n with
  | done a =>
    obtain ⟨rfl, rfl⟩ := Prod.mk.inj (Except.ok.inj h)
    obtain ⟨top, hstack, -⟩ := hb
    exact ⟨top, hstack, Nat.zero_le _⟩
  | fail f => cases h
  | act action next ih =>
    obtain ⟨x, m, hm, h⟩ := run_act_eq_ok.mp h
    obtain ⟨top, hstack, hn⟩ := hb
    obtain ⟨new, hnew, hm⟩ := Builder.stack_of_perform hall.1 hc hm
    refine ih x (hs.2 x) (hall.2 x) ⟨new ++ top.drop action.takes, ?_, ?_⟩ h
    · rw [hm, hstack, List.drop_append_of_le_length (Nat.le_trans hs.1 hn), List.append_assoc]
    · rw [List.length_append, List.length_drop, hnew]
      omega

/-- By induction on the bounds, which are taken from right to left. -/
theorem reaches_sliceBounds {bounds : List Int} {next : List (Option Fragment) → Script α}
    (h : ∀ bounds, (next bounds).Reaches n) :
    (sliceBounds bounds >>= next).Reaches (bounds.count boundFromStack + n) := by
  induction bounds generalizing next n with
  | nil => simpa [sliceBounds] using h []
  | cons i rest ih =>
    rw [sliceBounds, bind_assoc, List.count_cons, Nat.add_assoc]
    refine ih fun bounds => ?_
    by_cases hi : i = boundFromStack
    · subst hi
      simp [boundFromStack, boundOmitted, h]
    · simp [hi, h]

theorem reaches_defineVar (vs : List Var) : (vs.forM defineVar).Reaches n := by
  induction vs generalizing n with
  | nil => trivial
  | cons v vs ih =>
    simpa [List.forM_cons, defineVar] using ih

end Script

namespace Builder

open Script

variable {b b' : Builder} {c : Call} {base : List Fragment}

/-- How many values a comprehension takes from the end of its loop. -/
def collected (b : Builder) : Nat :=
  match b.collectors with
  | [] => 0
  | collector :: _ => if collector.isMap then 2 else 1

/-- How many of the newest values a call takes in a state. -/
def takes (b : Builder) : Call → Nat
  | .forPhrase _ _ _ _ => 1
  | .endForPhrase f =>
    match b.fors.lookup f.id with
    | some depth => if depth < b.stack.length then b.collected else 0
    | none => 0
  | .endStmt _ mark =>
    match b.stmts[mark]? with
    | some state => b.stack.length - state.stackDepth
    | none => 0
  | c => (effect c).1

/-- A map takes a key and a value, a list one element. -/
theorem reaches_collect (b : Builder) (next : Unit → Script Unit)
    (h : ∀ n, (next ()).Reaches n) : (collect b.collectors >>= next).Reaches b.collected := by
  unfold collected
  rcases b.collectors with _ | ⟨⟨id, name, _ | _⟩, outer⟩ <;>
    simp [collect, h]

/-- A call reaches no further than it takes values. -/
theorem reaches_script (b : Builder) (c : Call) : (b.script c).Reaches (b.takes c) := by
  cases c with
  | push v | label l | jump l | defaultCase | loadVar v | addrVar v | pop n | defineFunc f
  | endFunc f | startStmt pos | endStmt pos mark | reserve | fill r v =>
    simp [script, takes, effect]
  | builtinOp k op =>
    cases op <;> simp [script, builtinOp, takes, effect]
  | jumpIf cond l => simp [script, jumpIf, takes, effect]
  | caseNe l arity => simp [script, caseNe, hoistTag, takes, effect]
  | forPhrase f key val hasContext =>
    simp [script, forPhrase, openBlock, takes]
  | filterForPhrase f =>
    simp [script, filterForPhrase, openBlock, closeBlock, takes, effect]
  | endForPhrase f =>
    have hclose (n : Nat) : closeBlock.Reaches n := by
      simp [closeBlock]
    cases hf : b.fors.lookup f.id with
    | none => simp [script, endForPhrase, hf]
    | some depth =>
      by_cases hdepth : depth < b.stack.length
      · simpa [script, endForPhrase, takes, hf, hdepth] using reaches_collect b _ hclose
      · simp [script, endForPhrase, hf, hdepth, hclose]
  | listComprehension d | mapComprehension d =>
    simp [script, startComprehension, takes, effect]
  | endComprehension d =>
    cases hd : b.collectors <;>
      simp [script, endComprehension, hd, takes, effect]
  | closure f | nativeClosure f =>
    simp [script, Script.closure, takes, effect]
  | callClosure n arity ellipsis | callNativeClosure n arity ellipsis =>
    simp [script, callClosure, takes, effect]
  | callFunc f n | callVariadicFunc f n arity =>
    simp [script, callNamed, takes, effect]
  | callNative address n | callVariadicNative address n arity =>
    refine reaches_ofExcept_bind fun native => ?_
    simp [takes, effect]
  | ret n =>
    by_cases hn : n = returnNamedResults ∨ n = 0 <;>
      simp [script, ret, hn, takes, effect]
  | load i | store i =>
    refine reaches_ofExcept_bind fun name => ?_
    simp [Script.store, takes, effect]
  | defineVar vs => exact reaches_defineVar vs
  | storeVar v => simp [script, Script.store, takes, effect]
  | addressOp k op =>
    cases op <;> simp [script, addressOp, update, takes, effect]
  | append t arity =>
    by_cases harity : arity = arityEllipsis <;>
      simp [script, append, harity, callNamed, takes, effect]
  | makeArray t n => simp [script, makeArray, takes, effect]
  | makeMap t n => simp [script, makeMap, takes, effect]
  | make t n => simp [script, make, takes, effect]
  | mapIndex =>
    simp [script, index, indexOperands, indexFromStack, takes, effect]
  | setMapIndex =>
    simp [script, setIndex, indexOperands, indexFromStack, takes, effect]
  | index i =>
    by_cases hi : i < 0 <;>
      simp [script, index, indexOperands, hi, takes, effect]
  | setIndex i =>
    by_cases hi : i < 0 <;>
      simp [script, setIndex, indexOperands, hi, takes, effect]
  | slice i j | slice3 i j k =>
    refine reaches_sliceBounds fun bounds => ?_
    simp
  | cast source target => simp [script, Script.cast, takes, effect]
  | builtin t f => simp [script, builtin, takes, effect]
  | zero t =>
    show (Script.zero t).Reaches _
    unfold Script.zero
    split <;> simp

/-! ## Steps -/

/-- A statement that ends takes what came after its start. -/
theorem stack_endStmt {pos : Option SourcePos} {mark : Nat} (h : b.endStmt pos mark = .ok b') :
    b'.stack = b.stack.drop (b.takes (.endStmt pos mark)) := by
  obtain ⟨-, state, r, hstate, hleft, rfl⟩ := endStmt_eq_ok.mp h
  rw [discardLeft_eq] at hleft
  obtain ⟨k, hk⟩ := r.exists_placeDirective pos state.line
  have hr := (addsLines_discardAll hleft).unchanged fun _ => stack_setBlock
  rw [← hk, stack_setBlock, hr, takes, hstate]

/-- Whatever is below the values that a call takes stays as it is. -/
theorem suffix_of_step (hbase : base <:+ b.stack)
    (htakes : b.takes c + base.length ≤ b.stack.length) (h : b.step c = .ok b') :
    base <:+ b'.stack := by
  have hb := rests_iff.mpr ⟨hbase, htakes⟩
  by_cases hc : ∃ pos mark, c = .endStmt pos mark
  · obtain ⟨pos, mark, rfl⟩ := hc
    obtain ⟨top, hstack, hn⟩ := hb
    rw [stack_endStmt (step_endStmt pos mark ▸ h), hstack, List.drop_append_of_le_length hn]
    exact List.suffix_append _ _
  · have hrests := (reaches_script b c).rests (performs_script b c)
      (fun pos mark hc' => hc ⟨pos, mark, hc'⟩) hb (step_eq_ok.mp h)
    exact (rests_iff.mp hrests).1

end Builder

end Lowering.Source
