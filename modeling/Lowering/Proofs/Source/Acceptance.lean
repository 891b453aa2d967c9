import Lowering.Proofs.Bytecode.FunctionTable
import Lowering.Proofs.Source.Deferral
import Lowering.Proofs.Source.Protocol

/-!
# What the source backend accepts

Once everything is closed and every slot has its text, a file can always be written. So the source
backend accepts exactly the calls that the protocol allows (`accepts_iff`), and what the protocol
does not look at is not checked.

It does not look at labels: calls are accepted whatever labels they use and wherever these are
placed, if at all (`accepts_congr_unlabelled`). It forgets a function when its body ends: the same
function may be defined again (`accepts_again_iff`), though not within itself
(`Accepts.exists_end`).

The bytecode backend is stricter. It leads every jump to the one place of its label, and has one
entry for every function (`unambiguous_of_assemble`). `unambiguous_and_accepts_iff` compares the two
backends.
-/

namespace Lowering

namespace Source

namespace Builder

variable {b : Builder} {o : Outline}

/-! ## Files that can be written -/

theorem mapM_eq_ok {ε α β : Type} {f : α → Except ε β} {xs : List α}
    (h : ∀ x ∈ xs, ∃ y, f x = .ok y) : ∃ ys, xs.mapM f = .ok ys := by
  induction xs with
  | nil => exact ⟨[], rfl⟩
  | cons x xs ih =>
    obtain ⟨hx, hxs⟩ := List.forall_mem_cons.mp h
    obtain ⟨y, hy⟩ := hx
    obtain ⟨ys, hys⟩ := ih hxs
    refine ⟨y :: ys, ?_⟩
    rw [List.mapM_cons, hy, hys]
    rfl

theorem exists_renderPieces {slots : Array (Option String)} {pieces : List Piece}
    (h : ∀ i, .slot i ∈ pieces → ∃ s, slots[i]? = some (some s)) :
    ∃ text, renderPieces slots pieces = .ok text := by
  induction pieces with
  | nil => exact ⟨"", rfl⟩
  | cons piece rest ih =>
    obtain ⟨text, htext⟩ := ih fun i hi => h i (List.mem_cons_of_mem _ hi)
    cases piece with
    | text s => exact ⟨s ++ text, by rw [renderPieces, htext]; rfl⟩
    | slot i =>
      obtain ⟨s, hs⟩ := h i List.mem_cons_self
      refine ⟨s ++ text, ?_⟩
      rw [renderPieces, hs]
      simp only [htext]
      rfl

/-- The lines refer to slots below `n` only. -/
def BoundedLines (n : Nat) (lines : List Line) : Prop :=
  ∀ l ∈ lines, ∀ i, .slot i ∈ l.pieces → i < n

theorem exists_renderLines {slots : Array (Option String)} {lines : List Line}
    (hlines : BoundedLines slots.size lines) (hslots : ∀ s ∈ slots, s.isSome = true) :
    ∃ text, renderLines slots lines = .ok text := by
  have hline : ∀ l ∈ lines, ∃ text, renderLine slots l = .ok text := by
    intro l hl
    have hfilled : ∀ i, .slot i ∈ l.pieces → ∃ s, slots[i]? = some (some s) := by
      intro i hi
      have hlt := hlines l hl i hi
      obtain ⟨s, hs⟩ := Option.isSome_iff_exists.mp (hslots _ (Array.getElem_mem hlt))
      exact ⟨s, by rw [Array.getElem?_eq_getElem hlt, hs]⟩
    obtain ⟨text, htext⟩ := exists_renderPieces hfilled
    rw [renderLine, htext]
    exact ⟨_, rfl⟩
  obtain ⟨texts, htexts⟩ := mapM_eq_ok hline
  rw [renderLines, htexts]
  exact ⟨_, rfl⟩

theorem boundedLines_of_map {n : Nat} {lines : List Line} {id : Nat} {slots : Array (Option String)}
    (h : lines.map (·.subst ⟨shift n, id, slots⟩) = lines) : BoundedLines n lines := by
  intro l hl i hi
  have hpieces := congrArg Line.pieces (eq_of_map_eq_self h l hl)
  have hslot : shift n i = .slot i := eq_of_map_eq_self hpieces _ hi
  simp only [shift, Piece.slot.injEq] at hslot
  split at hslot <;> omega

theorem exists_render (hbounded : Bounded b.slots.size b)
    (hslots : ∀ s ∈ b.slots, s.isSome = true) : ∃ text, b.render = .ok text := by
  have hsame := hbounded _ (Nat.le_refl _)
  have htop : BoundedLines b.slots.size b.top.lines.toList := by
    have hlines := congrArg (fun b : Builder => b.top.lines.toList) hsame
    exact boundedLines_of_map ((Array.toList_map ..).symm.trans hlines)
  have hfuncs : ∀ lines ∈ b.funcs.toList, BoundedLines b.slots.size lines := by
    have hall := congrArg (fun b : Builder => b.funcs.toList) hsame
    intro lines hmem
    exact boundedLines_of_map
      (eq_of_map_eq_self ((Array.toList_map ..).symm.trans hall) lines hmem)
  obtain ⟨top, htop⟩ := exists_renderLines htop hslots
  have hrendered : ∃ funcs, b.funcs.toList.mapM (fun lines => do
      return (← renderLines b.slots lines) ++ "\n") = .ok funcs := by
    refine mapM_eq_ok fun lines hmem => ?_
    obtain ⟨text, htext⟩ := exists_renderLines (hfuncs lines hmem) hslots
    rw [htext]
    exact ⟨_, rfl⟩
  obtain ⟨funcs, hfuncs⟩ := hrendered
  rw [render, hfuncs, htop]
  exact ⟨_, rfl⟩

theorem bounded_step {b' : Builder} {c : Call} (hb : Bounded b.slots.size b)
    (h : b.step c = .ok b') : Bounded b'.slots.size b' := by
  by_cases hreserve : c = .reserve
  · subst hreserve
    obtain ⟨-, rfl⟩ := step_reserve_eq_ok.mp h
    have hsize : (b.slots.push none).size = b.slots.size + 1 := Array.size_push _
    show Bounded (b.slots.push none).size _
    rw [hsize]
    exact hb.reserve _
  by_cases hfill : ∃ r v, c = .fill r v
  · obtain ⟨r, v, rfl⟩ := hfill
    obtain ⟨-, -, -, rfl⟩ := step_fill_eq_ok.mp h
    show Bounded (b.slots.setIfInBounds r.position _).size _
    rw [Array.size_setIfInBounds]
    exact hb.fill _
  have hfixed := step_fixed hreserve (fun r v hc => hfill ⟨r, v, hc⟩) h
  have hslots : b'.slots = b.slots := congrArg Fixed.slots hfixed
  rw [hslots]
  exact hb.step hreserve (fun r v hc => hfill ⟨r, v, hc⟩) h

/-- Once everything is closed the file can be written. -/
theorem exists_resolve_iff (hbounded : Bounded b.slots.size b) :
    (∃ text b', b.resolve = .ok (text, b')) ↔ Complete b := by
  constructor
  · rintro ⟨text, b', h⟩
    exact (resolve_eq_ok.mp h).1
  · intro hb
    have hempty : At { b with stack := [] } { b.outline with depth := 0 } := ⟨hb.unresolved, rfl⟩
    obtain ⟨m, hm, -⟩ := (meets_discardAll hempty b.stack.reverse).exists_ok
    -- What is left over is discarded as a call would do it.
    have hpop : b.step (.pop b.stack.length) = .ok m := by
      refine step_eq_ok.mpr (Script.run_act_eq_ok.mpr ⟨_, _, popMany_all, ?_⟩)
      exact Script.run_act_of_ok (Action.silent_eq_ok.mpr hm)
    have hslots : m.slots = b.slots := congrArg Fixed.slots (step_fixed (by simp) (by simp) hpop)
    obtain ⟨text, htext⟩ := exists_render (bounded_step hbounded hpop) (hslots ▸ hb.slots)
    exact ⟨text, _, resolve_eq_ok.mpr ⟨hb, m, hm, htext, rfl⟩⟩

theorem complete_iff_finished (hb : At b o) : Complete b ↔ o.Finished := by
  obtain ⟨hopen, rfl⟩ := hb
  have hfilled : (∀ s ∈ b.outline.filled, s = true) ↔ ∀ s ∈ b.slots, s.isSome = true := by
    simp [outline]
  constructor
  · rintro ⟨-, hslots, hbodies, hfors, hcollectors⟩
    exact ⟨hfilled.mpr hslots, List.map_eq_nil_iff.mpr hbodies, hfors,
      List.map_eq_nil_iff.mpr hcollectors⟩
  · rintro ⟨hslots, hbodies, hfors, hcollectors⟩
    exact ⟨hopen, hfilled.mp hslots, List.map_eq_nil_iff.mp hbodies, hfors,
      List.map_eq_nil_iff.mp hcollectors⟩

/-- The calls can be made one after the other, and the file can be finished after them. -/
def Accepts (b : Builder) (calls : List Call) : Prop := ∃ text, b.translate calls = .ok text

theorem accepts_iff_exists_run {calls : List Call} :
    b.Accepts calls ↔ ∃ m, Backend.run b calls = .ok m ∧ ∃ text b', m.resolve = .ok (text, b') := by
  simp only [Accepts, translate, bind_eq_ok]
  constructor
  · rintro ⟨text, m, hm, ⟨text', b'⟩, hresolve, -⟩
    exact ⟨m, hm, text', b', hresolve⟩
  · rintro ⟨m, hm, text, b', hresolve⟩
    exact ⟨text, m, hm, (text, b'), hresolve, rfl⟩

/-- A builder to which no call has been made. -/
def fresh (id : Nat) (registry : Registry) (options : Options) : Builder :=
  { id := id, registry := registry, options := options }

/-- A builder accepts exactly the calls that the protocol allows. -/
theorem accepts_iff {id : Nat} {registry : Registry} {options : Options} {calls : List Call} :
    (fresh id registry options).Accepts calls ↔
      ∃ o, calls.foldlM Outline.step (fresh id registry options).outline = some o ∧
        o.Finished := by
  rw [accepts_iff_exists_run]
  refine (meets_run ⟨rfl, rfl⟩ calls).exists_ok_iff fun m o hm hat => ?_
  have hfresh : Bounded 0 (fresh id registry options) := by
    intro n _
    simp [fresh, subst, Block.subst]
  have hbounded : Bounded m.slots.size m :=
    Backend.run_keeps (P := fun b => Bounded b.slots.size b)
      (fun _ _ _ hc hb => bounded_step hb hc) hm hfresh
  rw [exists_resolve_iff hbounded, complete_iff_finished hat]

end Builder

/-! ## Labels -/

/-- The call without the label in it. Nothing is left of a call that places one. -/
def unlabelled : Call → Option Call
  | .label _ => none
  | .jump _ => some (.jump ⟨0, ""⟩)
  | .jumpIf cond _ => some (.jumpIf cond ⟨0, ""⟩)
  | .caseNe _ arity => some (.caseNe ⟨0, ""⟩ arity)
  | c => some c

namespace Outline

variable {o o' : Outline} {c : Call} {calls : List Call} {i : Nat}

theorem step_unlabelled (o : Outline) (c : Call) :
    o.step c = (unlabelled c).elim (some o) o.step := by
  cases c <;> rfl

theorem foldlM_unlabelled (o : Outline) (calls : List Call) :
    (calls.filterMap unlabelled).foldlM step o = calls.foldlM step o := by
  induction calls generalizing o with
  | nil => rfl
  | cons c calls ih =>
    rw [List.foldlM_cons, step_unlabelled, List.filterMap_cons]
    cases unlabelled c with
    | none => exact ih o
    | some c' =>
      rw [List.foldlM_cons]
      exact congrArg _ (funext ih)

/-! ## Functions -/

/-- The functions whose bodies are open, the innermost first. -/
def openFuncs (o : Outline) : List Nat := o.bodies.map (·.func.id)

theorem openFuncs_exchange {m k : Nat} (h : o.exchange m k = some o') :
    o'.openFuncs = o.openFuncs := by
  unfold exchange at h
  split at h
  · obtain rfl := Option.some.inj h
    rfl
  · cases h

theorem openFuncs_setScope (scope : Scope) : (o.setScope scope).openFuncs = o.openFuncs := by
  unfold setScope openFuncs
  cases o.bodies <;> rfl

theorem openFuncs_leave (h : o.leave = some o') : o'.openFuncs = o.openFuncs := by
  unfold leave at h
  split at h
  · cases h
  · obtain rfl := Option.some.inj h
    exact openFuncs_setScope _

theorem openFuncs_require {t : Ty} (h : o.require t = some o') : o'.openFuncs = o.openFuncs := by
  obtain ⟨-, h⟩ := Option.ite_none_right_eq_some.mp h
  obtain rfl := Option.some.inj h
  rfl

theorem openFuncs_defineOne {v : Var} (h : o.defineVar v = some o') :
    o'.openFuncs = o.openFuncs := by
  obtain ⟨m, hm, h⟩ := Option.bind_eq_some_iff.mp h
  obtain ⟨-, hm⟩ := Option.ite_none_left_eq_some.mp hm
  obtain rfl := Option.some.inj hm
  exact (openFuncs_require h).trans (openFuncs_setScope _)

theorem openFuncs_defineVar {vs : List Var} (h : vs.foldlM defineVar o = some o') :
    o'.openFuncs = o.openFuncs := by
  induction vs generalizing o with
  | nil =>
    obtain rfl := Option.some.inj h
    rfl
  | cons v vs ih =>
    obtain ⟨m, hm, hrest⟩ := Option.bind_eq_some_iff.mp h
    exact (ih hrest).trans (openFuncs_defineOne hm)

theorem openFuncs_collect (h : o.collect = some o') : o'.openFuncs = o.openFuncs := by
  unfold collect at h
  split at h
  · cases h
  · exact openFuncs_exchange h

theorem openFuncs_endFor {f : ForPhrase} (h : o.endFor f = some o') :
    o'.openFuncs = o.openFuncs := by
  unfold endFor at h
  split at h
  · cases h
  · obtain ⟨m, hm, h⟩ := Option.bind_eq_some_iff.mp h
    rw [openFuncs_leave h]
    split at hm
    · exact (openFuncs_collect hm :)
    · obtain rfl := Option.some.inj hm
      rfl

theorem openFuncs_endComprehension {d : Comprehension} (h : o.endComprehension d = some o') :
    o'.openFuncs = o.openFuncs := by
  unfold endComprehension at h
  split at h
  · split at h
    · exact (openFuncs_exchange h :)
    · cases h
  · cases h

theorem openFuncs_trade (h : o.trade c = some o') : o'.openFuncs = o.openFuncs := by
  unfold trade at h
  split at h
  · exact openFuncs_exchange h
  · cases h

/-- A call that starts or ends no body leaves the open ones alone. -/
theorem openFuncs_step_of_other (h : o.step c = some o') (hdefine : ∀ f, c ≠ .defineFunc f)
    (hend : ∀ f, c ≠ .endFunc f) : o'.openFuncs = o.openFuncs := by
  cases c with
  | defineFunc f => exact absurd rfl (hdefine f)
  | endFunc f => exact absurd rfl (hend f)
  | forPhrase f key val hasContext =>
    obtain ⟨m, hm, hstart⟩ := Option.bind_eq_some_iff.mp h
    rw [← openFuncs_exchange hm]
    unfold startFor at hstart
    split at hstart
    · cases hstart
    · obtain rfl := Option.some.inj hstart
      exact openFuncs_setScope _
  | endForPhrase f => exact openFuncs_endFor h
  | listComprehension d | mapComprehension d =>
    obtain ⟨m, hm, rfl⟩ := Option.map_eq_some_iff.mp h
    exact (openFuncs_require hm :)
  | endComprehension d => exact openFuncs_endComprehension h
  | defineVar vs => exact openFuncs_defineVar h
  | startStmt pos | reserve =>
    obtain rfl := Option.some.inj h
    rfl
  | endStmt pos mark =>
    change o.endStmt mark = some o' at h
    unfold endStmt at h
    split at h
    · cases h
    · exact (openFuncs_exchange h :)
  | fill r v =>
    change o.fill r = some o' at h
    unfold fill at h
    split at h
    · cases h
    · split at h
      · obtain rfl := Option.some.inj h
        rfl
      · cases h
  | _ => exact openFuncs_trade h

theorem defineFunc_eq_some {f : Func} (h : o.defineFunc f = some o') :
    f.id ∉ o.openFuncs ∧ o'.openFuncs = f.id :: o.openFuncs := by
  unfold defineFunc at h
  split at h
  · cases h
  · next hany =>
    obtain rfl := Option.some.inj h
    refine ⟨fun hmem => hany ?_, rfl⟩
    obtain ⟨body, hbody, hid⟩ := List.mem_map.mp hmem
    exact List.any_eq_true.mpr ⟨body, hbody, beq_iff_eq.mpr hid⟩

theorem endFunc_eq_some {f : Func} (h : o.endFunc f = some o') :
    o.openFuncs = f.id :: o'.openFuncs := by
  unfold endFunc at h
  split at h
  · next body outer hbodies =>
    split at h
    · cases h
    · next hid =>
      obtain ⟨-, h⟩ := Option.ite_none_right_eq_some.mp h
      obtain rfl := Option.some.inj h
      rw [openFuncs, hbodies, List.map_cons, Decidable.not_not.mp hid]
      rfl
  · cases h

/-- A call starts a body that is not open, ends the innermost one, or leaves the bodies alone. -/
theorem openFuncs_step (h : o.step c = some o') :
    (∃ f, c = .defineFunc f ∧ f.id ∉ o.openFuncs ∧ o'.openFuncs = f.id :: o.openFuncs) ∨
      (∃ f, c = .endFunc f ∧ o.openFuncs = f.id :: o'.openFuncs) ∨
      (∀ i, c.startsFunc i = false ∧ c.endsFunc i = false) ∧ o'.openFuncs = o.openFuncs := by
  cases c with
  | defineFunc f => exact .inl ⟨f, rfl, defineFunc_eq_some h⟩
  | endFunc f => exact .inr (.inl ⟨f, rfl, endFunc_eq_some h⟩)
  | _ => exact .inr (.inr ⟨fun _ => ⟨rfl, rfl⟩, openFuncs_step_of_other h (by simp) (by simp)⟩)

/-- Every function has been started as often as it has been ended, and once more if it is open. -/
theorem count_openFuncs (h : calls.foldlM step o = some o') (i : Nat) :
    calls.countP (Call.startsFunc i) + o.openFuncs.count i =
      calls.countP (Call.endsFunc i) + o'.openFuncs.count i := by
  induction calls generalizing o with
  | nil =>
    obtain rfl := Option.some.inj h
    rfl
  | cons c calls ih =>
    obtain ⟨m, hm, hrest⟩ := Option.bind_eq_some_iff.mp h
    have hcount := ih hrest
    rw [List.countP_cons, List.countP_cons]
    rcases openFuncs_step hm with ⟨f, rfl, -, hopen⟩ | ⟨f, rfl, hopen⟩ | ⟨hc, hopen⟩
    · rw [hopen, List.count_cons] at hcount
      by_cases hf : f.id = i <;> simp [Call.startsFunc, Call.endsFunc, hf] at hcount ⊢ <;> omega
    · rw [hopen, List.count_cons]
      by_cases hf : f.id = i <;> simp [Call.startsFunc, Call.endsFunc, hf] at hcount ⊢ <;> omega
    · rw [(hc i).1, (hc i).2, ← hopen]
      exact hcount

/-- A body that is open and is closed in the end has a call that ends it, and no call before that
starts or ends one of the same function. -/
theorem exists_end (h : calls.foldlM step o = some o') (hi : i ∈ o.openFuncs)
    (hi' : i ∉ o'.openFuncs) :
    ∃ mid g rest, calls = mid ++ .endFunc g :: rest ∧ g.id = i ∧
      ∀ c ∈ mid, c.startsFunc i = false ∧ c.endsFunc i = false := by
  induction calls generalizing o with
  | nil =>
    obtain rfl := Option.some.inj h
    exact absurd hi hi'
  | cons c calls ih =>
    obtain ⟨m, hm, hrest⟩ := Option.bind_eq_some_iff.mp h
    -- If this call does not end the body, the one that does is among the others.
    have hlater : i ∈ m.openFuncs → c.startsFunc i = false ∧ c.endsFunc i = false →
        ∃ mid g rest, c :: calls = mid ++ .endFunc g :: rest ∧ g.id = i ∧
          ∀ c ∈ mid, c.startsFunc i = false ∧ c.endsFunc i = false := by
      intro hmem hc
      obtain ⟨mid, g, rest, rfl, hg, hmid⟩ := ih hrest hmem
      exact ⟨c :: mid, g, rest, rfl, hg, List.forall_mem_cons.mpr ⟨hc, hmid⟩⟩
    rcases openFuncs_step hm with ⟨f, rfl, hfresh, hopen⟩ | ⟨f, rfl, hopen⟩ | ⟨hc, hopen⟩
    · refine hlater (hopen ▸ List.mem_cons_of_mem _ hi) ⟨beq_eq_false_iff_ne.mpr ?_, rfl⟩
      rintro rfl
      exact hfresh hi
    · by_cases hf : f.id = i
      · exact ⟨[], f, calls, rfl, hf, by simp⟩
      · rw [hopen, List.mem_cons] at hi
        exact hlater (hi.resolve_left (Ne.symm hf)) ⟨rfl, beq_eq_false_iff_ne.mpr hf⟩
    · exact hlater (hopen ▸ hi) (hc i)

/-- A body with nothing in it leaves no trace, if it may be started and its function can be
written. -/
theorem foldlM_empty_body {f : Func} (hopen : f.id ∉ o.openFuncs)
    (hspelled : (Builder.spellSignature o.package f).isOk = true) (rest : List Call) :
    (.defineFunc f :: .endFunc f :: rest).foldlM step o = rest.foldlM step o := by
  have hany : ¬ o.bodies.any (·.func.id == f.id) = true := by
    intro hany
    obtain ⟨body, hbody, hid⟩ := List.any_eq_true.mp hany
    exact hopen (List.mem_map.mpr ⟨body, hbody, beq_iff_eq.mp hid⟩)
  have hdefine : o.step (.defineFunc f) = some _ := if_neg hany
  rw [List.foldlM_cons, hdefine, Option.bind_eq_bind, Option.bind_some, List.foldlM_cons]
  have hend : step { o with
      bodies := ⟨f, { vars := if f.hasUnnamedResults then [] else f.results.map (·.id) }⟩
        :: o.bodies }
      (.endFunc f) = some o := by
    show (if f.id ≠ f.id then none else if _ then some _ else none) = _
    rw [if_neg (not_not_intro rfl), if_pos hspelled]
  rw [hend]
  rfl

end Outline

/-! ## What is not checked -/

namespace Builder

variable {id : Nat} {registry : Registry} {options : Options} {calls calls' pre post : List Call}
  {f : Func} {o : Outline}

/-- Labels do not matter. -/
theorem accepts_congr_unlabelled (h : calls.filterMap unlabelled = calls'.filterMap unlabelled) :
    (fresh id registry options).Accepts calls ↔ (fresh id registry options).Accepts calls' := by
  rw [accepts_iff, accepts_iff, ← Outline.foldlM_unlabelled _ calls, h, Outline.foldlM_unlabelled]

/-- A body is open if it was started more often than it was ended. -/
theorem not_mem_openFuncs_iff {i : Nat}
    (h : pre.foldlM Outline.step (fresh id registry options).outline = some o) :
    i ∉ o.openFuncs ↔ pre.countP (Call.startsFunc i) = pre.countP (Call.endsFunc i) := by
  have hcount := Outline.count_openFuncs h i
  have hnone : (fresh id registry options).outline.openFuncs.count i = 0 := rfl
  rw [hnone] at hcount
  rw [← List.count_eq_zero]
  omega

/-- A function is not defined within itself, and its body has an end. -/
theorem Accepts.exists_end
    (h : (fresh id registry options).Accepts (pre ++ .defineFunc f :: post)) :
    pre.countP (Call.startsFunc f.id) = pre.countP (Call.endsFunc f.id) ∧
      ∃ mid g rest, post = mid ++ .endFunc g :: rest ∧ g.id = f.id ∧
        ∀ c ∈ mid, c.startsFunc f.id = false ∧ c.endsFunc f.id = false := by
  obtain ⟨o', hrun, hfinished⟩ := accepts_iff.mp h
  rw [List.foldlM_append] at hrun
  obtain ⟨o, hpre, hrest⟩ := Option.bind_eq_some_iff.mp hrun
  obtain ⟨m, hdefine, hpost⟩ := Option.bind_eq_some_iff.mp hrest
  obtain ⟨hclosed, hopen⟩ := Outline.defineFunc_eq_some hdefine
  have hend : f.id ∉ o'.openFuncs := by
    rw [Outline.openFuncs, hfinished.bodies]
    exact List.not_mem_nil
  exact ⟨(not_mem_openFuncs_iff hpre).mp hclosed,
    Outline.exists_end hpost (hopen ▸ List.mem_cons_self) hend⟩

theorem package_of_foldlM
    (h : pre.foldlM Outline.step (fresh id registry options).outline = some o) :
    o.package = options.package := by
  have hmeets := meets_run (b := fresh id registry options) ⟨rfl, rfl⟩ pre
  rw [h] at hmeets
  obtain ⟨m, hm, -, rfl⟩ := hmeets.exists_ok
  exact congrArg Options.package (options_of_run hm)

/-- A function that is not open may be defined, whether or not it was before. -/
theorem accepts_again_iff
    (hclosed : pre.countP (Call.startsFunc f.id) = pre.countP (Call.endsFunc f.id))
    (hspelled : (spellSignature options.package f).isOk = true) :
    (fresh id registry options).Accepts (pre ++ .defineFunc f :: .endFunc f :: post) ↔
      (fresh id registry options).Accepts (pre ++ post) := by
  rw [accepts_iff, accepts_iff, List.foldlM_append, List.foldlM_append]
  have hsame : ∀ o, pre.foldlM Outline.step (fresh id registry options).outline = some o →
      (.defineFunc f :: .endFunc f :: post).foldlM Outline.step o = post.foldlM Outline.step o := by
    intro o ho
    refine Outline.foldlM_empty_body ((not_mem_openFuncs_iff ho).mpr hclosed) ?_ post
    rw [package_of_foldlM ho]
    exact hspelled
  rw [Option.bind_eq_bind, Option.bind_congr hsame]

end Builder

end Source

/-! ## What the other backend checks -/

/-- Whether a call places the label with a given number. -/
def Call.places (i : Nat) : Call → Bool
  | .label l => l.id == i
  | _ => false

/-- Every label that is jumped to has one place, and every function has one body. -/
structure Unambiguous (calls : List Call) : Prop where
  labels : ∀ c ∈ calls, ∀ l op, c.jump? = some (l, op) → calls.countP (Call.places l.id) = 1
  funcs : ∀ i, calls.countP (Call.startsFunc i) ≤ 1

namespace Bytecode.Builder

variable {id : Nat} {b : Builder} {calls pre post : List Call} {l : Label} {code : Code}

/-- A label is not placed again. -/
theorem not_places_before
    (h : Backend.run ({ id := id } : Builder) (pre ++ .label l :: post) = .ok b) :
    ∀ c ∈ pre, c.places l.id = false := by
  obtain ⟨m, hpre, hrest⟩ := Backend.run_append_eq_ok.mp h
  obtain ⟨m', hstep, -⟩ := Backend.run_cons_eq_ok.mp hrest
  obtain ⟨-, hnone, -⟩ := label_eq_ok.mp hstep
  intro c hc
  cases c with
  | label l' =>
    refine beq_eq_false_iff_ne.mpr fun hid => ?_
    obtain ⟨before, after, rfl⟩ := List.append_of_mem hc
    have hplaced := lookup_label_of_run hpre
    rw [hid, hnone] at hplaced
    cases hplaced
  | _ => rfl

theorem countP_places (h : Backend.run ({ id := id } : Builder) calls = .ok b)
    (hl : .label l ∈ calls) : calls.countP (Call.places l.id) = 1 := by
  obtain ⟨pre, post, rfl⟩ := List.append_of_mem hl
  have hpre : pre.countP (Call.places l.id) = 0 := by
    refine List.countP_eq_zero.mpr fun c hc => ?_
    rw [not_places_before h c hc]
    exact Bool.false_ne_true
  have hpost : post.countP (Call.places l.id) = 0 := by
    refine List.countP_eq_zero.mpr fun c hc hplaces => ?_
    cases c with
    | label l' =>
      -- Seen from the later label, this one is placed before.
      obtain ⟨before, after, rfl⟩ := List.append_of_mem hc
      rw [← List.cons_append, ← List.append_assoc] at h
      have hbefore := not_places_before h (.label l) (by simp)
      exact absurd (beq_iff_eq.mp hplaces).symm (beq_eq_false_iff_ne.mp hbefore)
    | _ => cases hplaces
  rw [List.countP_append, List.countP_cons, hpre, hpost]
  simp [Call.places]

theorem unambiguous_of_assemble (h : assemble id calls = .ok code) : Unambiguous calls := by
  obtain ⟨b, hrun, -, ops, hops, -⟩ := assemble_eq_ok.mp h
  constructor
  · intro c hc l op hjump
    obtain ⟨pre, post, rfl⟩ := List.append_of_mem hc
    have hfixup := Array.mem_toList_iff.mpr (mem_fixups_of_run hrun hjump)
    obtain ⟨target, htarget⟩ := lookup_of_patchLabels hops _ hfixup
    obtain ⟨before, l', after, hcalls, hid, -⟩ := (traced_of_run hrun).labels _ _ htarget
    rw [← hid]
    exact countP_places hrun (by simp [hcalls])
  · intro i
    rw [(counted_of_run hrun).started]
    exact List.nodup_iff_count.mp (laid_of_run hrun).ids i

end Bytecode.Builder

/-! ## The two backends -/

namespace Source.Builder

open Bytecode.Builder (assemble)

/-- **Ambiguous calls are refused by one backend only.** What the bytecode backend accepts is
unambiguous. The source backend

* does not look at labels: calls that differ in nothing else are accepted alike;
* sees to it that a function is not defined while a body of it is open, and that the body ends;
* lets a function be defined again once its body has ended. -/
theorem unambiguous_and_accepts_iff (id : Nat) (registry : Registry) (options : Options) :
    (∀ calls code, assemble id calls = .ok code → Unambiguous calls) ∧
    (∀ calls calls', calls.filterMap unlabelled = calls'.filterMap unlabelled →
      ((fresh id registry options).Accepts calls ↔ (fresh id registry options).Accepts calls')) ∧
    (∀ pre f post, (fresh id registry options).Accepts (pre ++ .defineFunc f :: post) →
      pre.countP (Call.startsFunc f.id) = pre.countP (Call.endsFunc f.id) ∧
      ∃ mid g rest, post = mid ++ .endFunc g :: rest ∧ g.id = f.id ∧
        ∀ c ∈ mid, c.startsFunc f.id = false ∧ c.endsFunc f.id = false) ∧
    ∀ pre f post, pre.countP (Call.startsFunc f.id) = pre.countP (Call.endsFunc f.id) →
      (spellSignature options.package f).isOk = true →
      ((fresh id registry options).Accepts (pre ++ .defineFunc f :: .endFunc f :: post) ↔
        (fresh id registry options).Accepts (pre ++ post)) :=
  ⟨fun _ _ => Bytecode.Builder.unambiguous_of_assemble, fun _ _ => accepts_congr_unlabelled,
    fun _ _ _ => Accepts.exists_end, fun _ _ _ => accepts_again_iff⟩

section Ambiguous

/-- A label that a loop leads back to. -/
def again : Label := { id := 1, name := "again" }

def once : Func := { id := 1, name := "once", nestDepth := 0 }

/-- A jump to a label without a place, a label with two places and a function with two bodies are
written as they come. -/
theorem translate_ambiguous :
    ((fresh 0 {} {}).translate [.jump again] =
      .ok "package main\n\nfunc main() \x7b\n\tgoto again\n\x7d\n" ∧
      ¬ Unambiguous [.jump again]) ∧
    ((fresh 0 {} {}).translate [.label again, .jump again, .label again] =
      .ok "package main\n\nfunc main() \x7b\nagain:\n\tgoto again\nagain:\n\x7d\n" ∧
      ¬ Unambiguous [.label again, .jump again, .label again]) ∧
    (fresh 0 {} {}).translate [.defineFunc once, .endFunc once, .defineFunc once, .endFunc once] =
      .ok ("package main\n\nfunc once() \x7b\n\x7d\n\nfunc once() \x7b\n\x7d\n\n" ++
        "func main() \x7b\n\x7d\n") ∧
      ¬ Unambiguous [.defineFunc once, .endFunc once, .defineFunc once, .endFunc once] := by
  refine ⟨⟨eq_ok_of_toOption (by decide +kernel), fun h => ?_⟩,
    ⟨eq_ok_of_toOption (by decide +kernel), fun h => ?_⟩,
    eq_ok_of_toOption (by decide +kernel), fun h => ?_⟩
  · exact absurd (h.labels (.jump again) (by simp) again _ rfl) (by decide)
  · exact absurd (h.labels (.jump again) (by simp) again _ rfl) (by decide)
  · exact absurd (h.funcs 1) (by decide)

/-- From calls that both backends accept to calls that only one does. -/
theorem accepts_of_unambiguous_loop :
    Unambiguous [.label again, .jump again] ∧ (fresh 0 {} {}).Accepts [.jump again] ∧
      (fresh 0 {} {}).Accepts [.defineFunc once, .endFunc once, .defineFunc once, .endFunc once] ∧
      ¬ (fresh 0 {} {}).Accepts [.defineFunc once, .defineFunc once] := by
  obtain ⟨hunambiguous, hlabels, hends, hagain⟩ := unambiguous_and_accepts_iff 0 {} {}
  have hcode : assemble 0 [.label again, .jump again] =
      .ok { ops := [.jump 0], funcs := [], spans := [], numVars := 0 } :=
    eq_ok_of_toOption (by decide +kernel)
  have hloop : (fresh 0 {} {}).Accepts [.label again, .jump again] :=
    ⟨"package main\n\nfunc main() \x7b\nagain:\n\tgoto again\n\x7d\n",
      eq_ok_of_toOption (by decide +kernel)⟩
  have honce : (fresh 0 {} {}).Accepts [.defineFunc once, .endFunc once] :=
    ⟨"package main\n\nfunc once() \x7b\n\x7d\n\nfunc main() \x7b\n\x7d\n",
      eq_ok_of_toOption (by decide +kernel)⟩
  refine ⟨hunambiguous _ _ hcode, (hlabels [.label again, .jump again] [.jump again] rfl).mp hloop,
    (hagain [.defineFunc once, .endFunc once] once [] rfl (by decide +kernel)).mpr honce, ?_⟩
  intro h
  obtain ⟨hclosed, -⟩ := hends [.defineFunc once] once [] h
  exact absurd hclosed (by decide)

end Ambiguous

end Source.Builder

end Lowering
