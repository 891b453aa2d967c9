import Lowering.Proofs.Bytecode.Functions
import Lowering.Proofs.Bytecode.Jumps

/-!
# The function table of finished code

A body is emitted in the middle of whatever is around it, behind a jump that leads over it, and
enters the table when it ends. The table of finished code can be read back:

* its functions are those that were started, each of them once, and each was ended once
  (`Counted`);
* the instruction before a body jumps behind it (`target?_skip`);
* two bodies with the jumps in front of them are nested or apart (`Laid.nested_or_apart`);
* the instructions of a body are those that were emitted between its start and its end
  (`contains_iff_between`).

`exists_body` takes the run apart at the two calls of a function, and most of this is then said
about the calls before, between and behind them.
-/

namespace Lowering

/-- Two calls of one list: one is before the other, or they are the same. -/
theorem append_cons_cases {α : Type} {p q p' q' : List α} {x c : α}
    (h : p ++ x :: q = p' ++ c :: q') :
    (∃ mid, p = p' ++ c :: mid ∧ q' = mid ++ x :: q) ∨ (p = p' ∧ x = c ∧ q = q') ∨
      ∃ mid, p' = p ++ x :: mid ∧ q = mid ++ c :: q' := by
  rcases List.append_eq_append_iff.mp h with ⟨mid, rfl, hmid⟩ | ⟨mid, rfl, hmid⟩
  · cases mid with
    | nil =>
      obtain ⟨rfl, rfl⟩ := List.cons.inj hmid
      exact .inr (.inl ⟨(List.append_nil p).symm, rfl, rfl⟩)
    | cons y mid =>
      obtain ⟨rfl, rfl⟩ := List.cons.inj hmid
      exact .inr (.inr ⟨mid, rfl, rfl⟩)
  · cases mid with
    | nil =>
      obtain ⟨rfl, rfl⟩ := List.cons.inj hmid
      exact .inr (.inl ⟨List.append_nil p', rfl, rfl⟩)
    | cons y mid =>
      obtain ⟨rfl, rfl⟩ := List.cons.inj hmid
      exact .inl ⟨mid, rfl, rfl⟩

/-- The only element of a kind is neither before itself nor behind. -/
theorem any_eq_false_of_countP {α : Type} {P : α → Bool} {p q : List α} {x : α}
    (h : (p ++ x :: q).countP P = 1) (hx : P x = true) : p.any P = false ∧ q.any P = false := by
  rw [List.countP_append, List.countP_cons_of_pos hx] at h
  have hp : p.countP P = 0 := by omega
  have hq : q.countP P = 0 := by omega
  exact ⟨List.any_eq_false.mpr (List.countP_eq_zero.mp hp),
    List.any_eq_false.mpr (List.countP_eq_zero.mp hq)⟩

namespace Bytecode

namespace FuncEntry

/-- The body of `e` and the jump in front of it are all before those of `e'`, or all behind. -/
def Apart (e e' : FuncEntry) : Prop := e.stop < e'.entry ∨ e'.stop < e.entry

/-- The body of `e` and the jump in front of it are within those of `e'`. -/
def Within (e e' : FuncEntry) : Prop := e'.entry ≤ e.entry ∧ e.stop ≤ e'.stop

/-- Of two bodies that ended one after the other, the second is around the first or behind it. -/
theorem Before.apart_or_within {e e' : FuncEntry} (h : e.Before e') :
    e.Apart e' ∨ e.Within e' := by
  rcases h with ⟨hstop, hfront | hwithin⟩
  · exact .inl (.inl hfront)
  · exact .inr ⟨Nat.le_of_lt hwithin, hstop⟩

end FuncEntry

namespace Builder

variable {b b' : Builder} {c : Call} {calls : List Call} {id : Nat} {code : Code}

/-! ## Functions and calls -/

/-- Every function that was started is in the table or open, and every one that was ended is in the
table. -/
structure Counted (calls : List Call) (b : Builder) : Prop where
  started : ∀ i, calls.countP (Call.startsFunc i) = b.functionIds.count i
  ended : ∀ i, calls.countP (Call.endsFunc i) = (b.funcs.toList.map (·.id)).count i

theorem counted_fresh (id : Nat) : Counted [] { id := id } := ⟨fun _ => rfl, fun _ => rfl⟩

theorem Counted.defineFunc {f : Func} (hb : Counted calls b) (h : Step b (.defineFunc f) b') :
    Counted (calls ++ [.defineFunc f]) b' := by
  obtain ⟨hfuncs, hsites⟩ : b'.funcs = b.funcs ∧ b'.sites = ⟨f.id, b.ops.size⟩ :: b.sites := by
    cases h with
    | plain hc | jump hc | access hc _ | comprehension hc => cases hc
    | defineFunc _ _ _ => exact ⟨rfl, rfl⟩
  constructor
  · intro i
    have hids : b'.functionIds.Perm (f.id :: b.functionIds) := by
      rw [functionIds, hfuncs, hsites]
      exact List.perm_middle
    rw [hids.count_eq, List.count_cons, List.countP_append, List.countP_singleton, hb.started]
    rfl
  · intro i
    rw [hfuncs, List.countP_append, hb.ended]
    rfl

theorem Counted.endFunc {f : Func} (hb : Counted calls b) (h : Step b (.endFunc f) b') :
    Counted (calls ++ [.endFunc f]) b' := by
  obtain ⟨body, hfuncs, hsites⟩ : ∃ body, b'.funcs = b.funcs.push (entryOf f body b.ops.size) ∧
      b.sites = ⟨f.id, body.skip⟩ :: b'.sites := by
    cases h with
    | plain hc | jump hc | access hc _ | comprehension hc => cases hc
    | @endFunc f body outer hbodies hf =>
      exact ⟨body, rfl, by simp only [sites, hbodies, List.map_cons, hf]⟩
  have htable : b'.funcs.toList.map (·.id) = b.funcs.toList.map (·.id) ++ [f.id] := by
    rw [hfuncs, Array.toList_push, List.map_append]
    rfl
  constructor
  · intro i
    have hids : b'.functionIds = b.functionIds := by
      rw [functionIds, functionIds, htable, hsites, List.append_assoc]
      rfl
    rw [hids, List.countP_append, hb.started]
    rfl
  · intro i
    rw [htable, List.countP_append, List.countP_singleton, List.count_append,
      List.count_singleton, hb.ended]
    rfl

theorem Counted.step (hb : Counted calls b) (h : Step b c b') : Counted (calls ++ [c]) b' := by
  cases c with
  | defineFunc f => exact hb.defineFunc h
  | endFunc f => exact hb.endFunc h
  | _ =>
    rcases h.functions with ⟨hfuncs, hsites⟩ | ⟨f, hc, -⟩ | ⟨f, -, -, hc, -⟩
    · constructor
      · intro i
        rw [functionIds, hfuncs, hsites, List.countP_append, hb.started]
        rfl
      · intro i
        rw [hfuncs, List.countP_append, hb.ended]
        rfl
    · cases hc
    · cases hc

theorem counted_of_run (h : Backend.run ({ id := id } : Builder) calls = .ok b) :
    Counted calls b :=
  Backend.run_traces (counted_fresh id) (fun _ _ _ _ hm hc => hm.step (step_eq_ok_iff.mp hc).2) h

/-! ## The two calls of a function -/

/-- Every instruction has a call that emitted it. -/
theorem exists_split_of_emitted {ip : Nat} (h : (emitted calls)[ip]? = some c) :
    ∃ pre post, calls = pre ++ c :: post ∧ (emitted pre).length = ip := by
  induction calls generalizing ip with
  | nil => cases h
  | cons a calls ih =>
    rw [emitted_cons, emitted_singleton] at h
    cases ha : a.emits with
    | false =>
      rw [ha] at h
      obtain ⟨pre, post, rfl, hip⟩ := ih h
      refine ⟨a :: pre, post, rfl, ?_⟩
      rw [emitted_cons, emitted_singleton, ha]
      exact hip
    | true =>
      rw [ha] at h
      cases ip with
      | zero =>
        obtain rfl := Option.some.inj h
        exact ⟨[], calls, rfl, rfl⟩
      | succ ip =>
        obtain ⟨pre, post, rfl, rfl⟩ := ih h
        refine ⟨a :: pre, post, rfl, ?_⟩
        rw [emitted_cons, emitted_singleton, ha, List.length_append, Nat.add_comm]
        rfl

/-- One of the calls ended the innermost body and put `e` into the table. -/
def EndedBy (id : Nat) (calls : List Call) (e : FuncEntry) : Prop :=
  ∃ front g post m body outer, calls = front ++ .endFunc g :: post ∧
    Backend.run ({ id := id } : Builder) front = .ok m ∧ m.bodies = body :: outer ∧
    body.func = g.id ∧ e = entryOf g body m.ops.size

theorem EndedBy.snoc {e : FuncEntry} (h : EndedBy id calls e) : EndedBy id (calls ++ [c]) e := by
  obtain ⟨front, g, post, m, body, outer, rfl, hrest⟩ := h
  exact ⟨front, g, post ++ [c], m, body, outer, by simp, hrest⟩

theorem endedBy_of_run (h : Backend.run ({ id := id } : Builder) calls = .ok b) :
    ∀ e ∈ b.funcs, EndedBy id calls e := by
  refine (Backend.run_traces (P := fun calls b =>
    Backend.run ({ id := id } : Builder) calls = .ok b ∧ ∀ e ∈ b.funcs, EndedBy id calls e)
    ⟨rfl, nofun⟩ ?_ h).2
  rintro calls m c m' ⟨hm, hold⟩ hc
  refine ⟨Backend.run_append_eq_ok.mpr ⟨m, hm, Backend.run_singleton_eq_ok.mpr hc⟩, ?_⟩
  intro e he
  rcases (step_eq_ok_iff.mp hc).2.functions with ⟨hfuncs, -⟩ | ⟨f, -, -, hfuncs, -⟩ |
    ⟨g, body, outer, rfl, hbodies, hfunc, hfuncs, -⟩
  · exact (hold e (hfuncs ▸ he)).snoc
  · exact (hold e (hfuncs ▸ he)).snoc
  · rcases Array.mem_push.mp (hfuncs ▸ he) with he | rfl
    · exact (hold e he).snoc
    · exact ⟨calls, g, [], m, body, outer, rfl, hm, hbodies, hfunc, rfl⟩

/-- The calls before, between and behind the two calls of a function. -/
theorem exists_body (h : Backend.run ({ id := id } : Builder) calls = .ok b) {e : FuncEntry}
    (he : e ∈ b.funcs) :
    ∃ pre f mid g post, calls = (pre ++ .defineFunc f :: mid) ++ .endFunc g :: post ∧
      f.id = e.id ∧ g.id = e.id ∧ e.entry = (emitted pre).length + 1 ∧
      e.stop = (emitted (pre ++ .defineFunc f :: mid)).length := by
  obtain ⟨front, g, post, m, body, outer, rfl, hm, hbodies, hfunc, rfl⟩ := endedBy_of_run h e he
  have ht := traced_of_run hm
  obtain ⟨f, hf, hid⟩ := ht.bodies body (hbodies ▸ List.mem_cons_self)
  obtain ⟨pre, mid, rfl, hskip⟩ := exists_split_of_emitted hf
  refine ⟨pre, f, mid, g, post, rfl, hid.trans hfunc, rfl, ?_, ht.size⟩
  rw [hskip]
  rfl

/-! ## The jump over a body -/

theorem Becomes.exists_jump {d : Int} {op : Op} (h : Becomes (.jump d) op) :
    ∃ d', op = .jump d' := by
  rcases h with h | ⟨h, -⟩
  · cases op <;> simp [Op.bare, Op.withJumpOffset] at h ⊢
  · cases h

/-- A body is started with a jump. -/
theorem exists_jump_of_defineFunc {ip : Nat} {f : Func}
    (h : Backend.run ({ id := id } : Builder) calls = .ok b)
    (hf : (emitted calls)[ip]? = some (.defineFunc f)) : ∃ d, b.ops[ip]? = some (.jump d) := by
  obtain ⟨pre, post, rfl, rfl⟩ := exists_split_of_emitted hf
  obtain ⟨m, m', ht, -, hc, -, hexact, hpost⟩ := run_split h
  obtain ⟨-, vars, -, -, -, rfl⟩ := defineFunc_eq_ok.mp hc
  have hat : (m.ops.push (.jump 0))[(emitted pre).length]? = some (.jump 0) :=
    ht.size ▸ Array.getElem?_push_size
  obtain ⟨op, hop, hbecomes⟩ := run_becomes hpost hexact hat
  obtain ⟨d, rfl⟩ := hbecomes.exists_jump
  exact ⟨d, hop⟩

/-- No other open body belongs to the function of the innermost one. -/
theorem Laid.func_ne {body : Body} {outer : List Body} (hb : Laid b)
    (hbodies : b.bodies = body :: outer) : ∀ other ∈ outer, other.func ≠ body.func := by
  have hids := (List.nodup_append.mp hb.ids).2.1
  rw [sites, hbodies, List.map_map, List.map_cons, List.nodup_cons] at hids
  intro other hother hfunc
  exact hids.1 (List.mem_map.mpr ⟨other, hother, hfunc⟩)

/-- The jump in front of a body leads behind it. -/
theorem target?_skip (h : assemble id calls = .ok code) (hsize : (emitted calls).length < 2 ^ 31)
    {e : FuncEntry} (he : e ∈ code.funcs) :
    (∃ d, code.ops[e.entry - 1]? = some (.jump d)) ∧ code.target? (e.entry - 1) = some e.stop := by
  obtain ⟨b, hrun, -, ops, hops, rfl⟩ := assemble_eq_ok.mp h
  obtain ⟨front, g, post, m, body, outer, rfl, hm, hbodies, hfunc, rfl⟩ :=
    endedBy_of_run hrun e (Array.mem_toList_iff.mp he)
  have ht := traced_of_run hm
  obtain ⟨f, hf, hid⟩ := ht.bodies body (hbodies ▸ List.mem_cons_self)
  obtain ⟨d, hd⟩ := exists_jump_of_defineFunc hm hf
  show (∃ d, (b.codeOf ops).ops[body.skip]? = some (.jump d)) ∧
    (b.codeOf ops).target? body.skip = some m.ops.size
  constructor
  · obtain ⟨m', hm', hcode⟩ := becomes_of_assemble h
    obtain rfl : m' = m := Except.ok.inj (hm'.symm.trans hm)
    obtain ⟨op, hop, hbecomes⟩ := hcode _ _ hd
    obtain ⟨d', rfl⟩ := hbecomes.exists_jump
    exact ⟨d', hop⟩
  · obtain ⟨k, hk, hrest⟩ := Backend.run_append_eq_ok.mp hrun
    obtain rfl : k = m := Except.ok.inj (hk.symm.trans hm)
    obtain ⟨m', hend, hpost⟩ := Backend.run_cons_eq_ok.mp hrest
    have ht' := ht.step (step_eq_ok_iff.mp hend).2
    have hb : Traced (front ++ [.endFunc g] ++ post) b := by
      rw [List.append_assoc]
      exact traced_of_run hrun
    obtain ⟨-, body', outer', hbodies', -, rfl⟩ := endFunc_eq_ok.mp hend
    obtain ⟨rfl, rfl⟩ := List.cons.inj (hbodies'.symm.trans hbodies)
    -- The function has ended, so nothing points to the jump any more.
    have hfixed := ht'.fixed (getElem?_emitted_append hf) nofun
      (by rintro _ ⟨⟩; rw [hid]; exact (laid_of_run hm).func_ne hbodies) nofun nofun
    have hlt : k.ops.size < 2 ^ 31 := by
      rw [emitted_append, List.length_append, ← ht.size] at hsize
      omega
    have hskip : body'.skip < k.ops.size := (Array.getElem?_eq_some_iff.mp hd).1
    have hfits := Op.fitsOffset_of_lt (Nat.lt_trans hskip hlt) hlt
    have hpatched : (Op.patchJump k.ops body'.skip k.ops.size)[body'.skip]? = _ :=
      Op.getElem?_patchJump_self hfits
    rw [hd, Option.map_some] at hpatched
    exact target?_of_fixed hpost hb hops (getElem?_emitted_append hf) rfl hfixed rfl hpatched

/-! ## Ranges -/

theorem Laid.nested_or_apart (hb : Laid b) {e e' : FuncEntry} (he : e ∈ b.funcs)
    (he' : e' ∈ b.funcs) : e.Apart e' ∨ e.Within e' ∨ e'.Within e := by
  obtain ⟨i, hi, rfl⟩ := List.mem_iff_getElem.mp (Array.mem_toList_iff.mpr he)
  obtain ⟨j, hj, rfl⟩ := List.mem_iff_getElem.mp (Array.mem_toList_iff.mpr he')
  have hclosed := List.pairwise_iff_getElem.mp hb.closed
  rcases Nat.lt_trichotomy i j with hij | rfl | hji
  · rcases FuncEntry.Before.apart_or_within (hclosed i j hi hj hij) with hapart | hwithin
    · exact .inl hapart
    · exact .inr (.inl hwithin)
  · exact .inr (.inl ⟨Nat.le_refl _, Nat.le_refl _⟩)
  · rcases FuncEntry.Before.apart_or_within (hclosed j i hj hi hji) with hapart | hwithin
    · exact .inl hapart.symm
    · exact .inr (.inr hwithin)

/-- A function of the table was started once and ended once. -/
theorem countP_of_mem_funcs (h : Backend.run ({ id := id } : Builder) calls = .ok b)
    {e : FuncEntry} (he : e ∈ b.funcs) :
    calls.countP (Call.startsFunc e.id) = 1 ∧ calls.countP (Call.endsFunc e.id) = 1 := by
  have hids := (laid_of_run h).ids
  have hmem : e.id ∈ b.funcs.toList.map (·.id) :=
    List.mem_map.mpr ⟨e, Array.mem_toList_iff.mpr he, rfl⟩
  have hb := counted_of_run h
  constructor
  · rw [hb.started, List.Nodup.count hids]
    exact if_pos (List.mem_append_left _ hmem)
  · rw [hb.ended, List.Nodup.count (List.nodup_append.mp hids).1]
    exact if_pos hmem

theorem length_emitted_lt {pre mid : List Call} (hc : c.emits = true) :
    (emitted pre).length < (emitted (pre ++ c :: mid)).length := by
  rw [emitted_append, emitted_cons, emitted_singleton, hc, List.length_append, List.length_append]
  exact Nat.lt_add_of_pos_right (Nat.lt_of_lt_of_le Nat.zero_lt_one (Nat.le_add_right 1 _))

theorem length_emitted_le {pre mid : List Call} :
    (emitted pre).length ≤ (emitted (pre ++ mid)).length := by
  rw [emitted_append, List.length_append]
  exact Nat.le_add_right _ _

/-- The instructions of a body are those emitted after its start and before its end. -/
theorem contains_iff_between {pre post : List Call}
    (h : Backend.run ({ id := id } : Builder) (pre ++ c :: post) = .ok b) (hc : c.emits = true)
    {e : FuncEntry} (he : e ∈ b.funcs) :
    e.contains (emitted pre).length = true ↔
      pre.any (Call.startsFunc e.id) = true ∧ post.any (Call.endsFunc e.id) = true := by
  obtain ⟨p, f, mid, g, q, hcalls, hf, hg, hentry, hstop⟩ := exists_body h he
  obtain ⟨hstarts, hends⟩ := countP_of_mem_funcs h he
  have hfstarts : Call.startsFunc e.id (.defineFunc f) = true := beq_iff_eq.mpr hf
  have hgends : Call.endsFunc e.id (.endFunc g) = true := beq_iff_eq.mpr hg
  rw [hcalls] at hends
  have hq := (any_eq_false_of_countP hends hgends).2
  rw [hcalls, List.append_assoc] at hstarts
  have hp := (any_eq_false_of_countP hstarts hfstarts).1
  rw [FuncEntry.contains_iff, hentry, hstop]
  rw [List.append_assoc, List.cons_append] at hcalls
  rcases append_cons_cases hcalls with ⟨m, rfl, hrest⟩ | ⟨rfl, -, -⟩ | ⟨m, rfl, -⟩
  · have hlow : (emitted p).length + 1 ≤ (emitted (p ++ .defineFunc f :: m)).length :=
      length_emitted_lt rfl
    have hstarted : (p ++ .defineFunc f :: m).any (Call.startsFunc e.id) = true := by
      rw [List.any_append, List.any_cons, hfstarts, Bool.true_or, Bool.or_true]
    rcases append_cons_cases hrest with ⟨m', rfl, rfl⟩ | ⟨-, rfl, -⟩ | ⟨m', rfl, rfl⟩
    · -- Before the end.
      have hhigh : (emitted (p ++ .defineFunc f :: m)).length <
          (emitted ((p ++ .defineFunc f :: m) ++ c :: m')).length := length_emitted_lt hc
      rw [List.append_assoc, List.cons_append] at hhigh
      have hended : (m' ++ .endFunc g :: q).any (Call.endsFunc e.id) = true := by
        rw [List.any_append, List.any_cons, hgends, Bool.true_or, Bool.or_true]
      exact iff_of_true ⟨hlow, hhigh⟩ ⟨hstarted, hended⟩
    · cases hc
    · -- Behind the end.
      have hhigh : (emitted (p ++ .defineFunc f :: mid)).length ≤
          (emitted ((p ++ .defineFunc f :: mid) ++ .endFunc g :: m')).length := length_emitted_le
      rw [List.append_assoc, List.cons_append] at hhigh
      rw [List.any_append, List.any_cons, Bool.or_eq_false_iff, Bool.or_eq_false_iff] at hq
      exact iff_of_false (fun hin => Nat.not_lt_of_le hhigh hin.2)
        fun hends => Bool.false_ne_true (hq.2.2.symm.trans hends.2)
  · exact iff_of_false (fun hin => Nat.not_succ_le_self _ hin.1)
      fun hstarted => Bool.false_ne_true (hp.symm.trans hstarted.1)
  · -- Before the start.
    have hlt : (emitted pre).length < (emitted (pre ++ c :: m)).length := length_emitted_lt hc
    rw [List.any_append, Bool.or_eq_false_iff] at hp
    exact iff_of_false (fun hin => Nat.lt_asymm hlt hin.1)
      fun hstarted => Bool.false_ne_true (hp.1.symm.trans hstarted.1)

/-! ## Finished code -/

/-- Code is finished with no body open, so every function that was started is in the table. -/
theorem mem_funcs_iff_of_complete (h : Backend.run ({ id := id } : Builder) calls = .ok b)
    (hb : Complete b) {i : Nat} :
    i ∈ b.funcs.toList.map (·.id) ↔ ∃ f, .defineFunc f ∈ calls ∧ f.id = i := by
  have hids : b.functionIds = b.funcs.toList.map (·.id) := by
    rw [functionIds, sites, hb.bodies, List.map_nil, List.map_nil, List.append_nil]
  rw [← hids, ← List.count_pos_iff, ← (counted_of_run h).started, List.countP_pos_iff]
  constructor
  · rintro ⟨c, hc, hstarts⟩
    cases c with
    | defineFunc f => exact ⟨f, hc, beq_iff_eq.mp hstarts⟩
    | _ => cases hstarts
  · rintro ⟨f, hf, hid⟩
    exact ⟨.defineFunc f, hf, beq_iff_eq.mpr hid⟩

/-- **The function table of finished code.** Its functions are those that were started, each once.
Every body has a jump in front of it that leads behind it. Two bodies with these jumps are nested or
apart. Every function was started and ended once, and an instruction is in its body exactly if it
was emitted in between. -/
theorem functionTable_of_assemble (h : assemble id calls = .ok code)
    (hsize : code.ops.length < 2 ^ 31) :
    (code.funcs.map (·.id)).Nodup ∧
    (∀ i, i ∈ code.funcs.map (·.id) ↔ ∃ f, .defineFunc f ∈ calls ∧ f.id = i) ∧
    (∀ e ∈ code.funcs, 1 ≤ e.entry ∧ e.entry ≤ e.stop ∧ e.stop ≤ code.ops.length ∧
      (∃ d, code.ops[e.entry - 1]? = some (.jump d)) ∧
      code.target? (e.entry - 1) = some e.stop) ∧
    (∀ e ∈ code.funcs, ∀ e' ∈ code.funcs, e.Apart e' ∨ e.Within e' ∨ e'.Within e) ∧
    code.ops.length = (emitted calls).length ∧
    ∀ e ∈ code.funcs, calls.countP (Call.startsFunc e.id) = 1 ∧
      calls.countP (Call.endsFunc e.id) = 1 ∧
      ∀ pre c post, calls = pre ++ c :: post → c.emits = true →
        (e.contains (emitted pre).length = true ↔
          pre.any (Call.startsFunc e.id) = true ∧ post.any (Call.endsFunc e.id) = true) := by
  obtain ⟨b, hrun, hcomplete, ops, hops, rfl⟩ := assemble_eq_ok.mp h
  have hlaid := laid_of_run hrun
  have hlength : (b.codeOf ops).ops.length = b.ops.size := size_patchLabels hops
  have hemitted : (b.codeOf ops).ops.length = (emitted calls).length :=
    hlength.trans (traced_of_run hrun).size
  have hmem : ∀ e ∈ (b.codeOf ops).funcs, e ∈ b.funcs := fun e he => Array.mem_toList_iff.mp he
  refine ⟨(List.nodup_append.mp hlaid.ids).1, fun i => mem_funcs_iff_of_complete hrun hcomplete,
    ?_, fun e he e' he' => hlaid.nested_or_apart (hmem e he) (hmem e' he'), hemitted, ?_⟩
  · intro e he
    obtain ⟨hentry, hle, hstop⟩ := hlaid.bounds e (hmem e he)
    exact ⟨hentry, hle, hlength ▸ hstop, target?_skip h (hemitted ▸ hsize) he⟩
  · intro e he
    obtain ⟨hstarts, hends⟩ := countP_of_mem_funcs hrun (hmem e he)
    refine ⟨hstarts, hends, ?_⟩
    rintro pre c post rfl hc
    exact contains_iff_between hrun hc (hmem e he)

/-- A function within another one. A jump leads from the outer body into the inner one, and a place
that was kept in front of both is filled there. -/
def nestedBodies : List Call :=
  let outer : Func := { id := 1, name := "outer", nestDepth := 1 }
  let inner : Func := { id := 2, name := "inner", nestDepth := 2 }
  let across : Label := { id := 7, name := "across" }
  [.reserve, .defineFunc outer, .jump across, .defineFunc inner, .label across,
    .fill ⟨9, 0⟩ (.bool true), .ret 0, .endFunc inner, .ret 0, .endFunc outer, .pop 1]

def nestedBodiesCode : Code where
  ops := [.push (.bool true), .jump 5, .jump 2, .jump 2, .ret 0, .ret 0, .pop 1]
  funcs := [⟨2, "inner", 4, 5, 0, 0, false, 0⟩, ⟨1, "outer", 2, 6, 0, 0, false, 0⟩]
  spans := []
  numVars := 0

theorem functionTable_nestedBodies :
    assemble 9 nestedBodies = .ok nestedBodiesCode ∧ nestedBodiesCode.ops.length < 2 ^ 31 ∧
      nestedBodiesCode.target? 1 = some 6 ∧ nestedBodiesCode.target? 3 = some 5 := by
  have hcode : assemble 9 nestedBodies = .ok nestedBodiesCode :=
    eq_ok_of_toOption (by decide +kernel)
  have hsize : nestedBodiesCode.ops.length < 2 ^ 31 := by decide
  obtain ⟨-, -, hskips, -⟩ := functionTable_of_assemble hcode hsize
  obtain ⟨-, -, -, -, houter⟩ := hskips ⟨1, "outer", 2, 6, 0, 0, false, 0⟩ (by decide)
  obtain ⟨-, -, -, -, hinner⟩ := hskips ⟨2, "inner", 4, 5, 0, 0, false, 0⟩ (by decide)
  exact ⟨hcode, hsize, houter, hinner⟩

end Builder

end Bytecode

end Lowering
