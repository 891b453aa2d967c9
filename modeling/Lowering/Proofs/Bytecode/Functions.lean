import Lowering.Proofs.Bytecode.Stream

/-!
# The function table

Bodies of functions may be emitted anywhere, also within each other. A body enters the table when it
ends, so the table has inner functions before outer ones. `Laid` is the invariant: the ranges of
two functions are nested or apart, those of functions in the table as well as those of open
bodies, which have a beginning but no end yet.

`enclosing b ip` lists the functions around an instruction, the innermost first. Once an instruction
stands in its place, the list does not change any more: a body that ends later moves from the open
bodies to the table and keeps its place in the list (`Step.enclosing`).
-/

namespace Lowering.Bytecode

namespace FuncEntry

/-- Whether an instruction belongs to the body of a function. -/
def contains (e : FuncEntry) (ip : Nat) : Bool := e.entry ≤ ip && ip < e.stop

/-- The body of `inner` ends no later than that of `outer`, and lies in it or in front of it. -/
def Before (inner outer : FuncEntry) : Prop :=
  inner.stop ≤ outer.stop ∧ (inner.stop < outer.entry ∨ outer.entry < inner.entry)

theorem contains_iff {e : FuncEntry} {ip : Nat} :
    e.contains ip = true ↔ e.entry ≤ ip ∧ ip < e.stop := by
  simp [contains]

end FuncEntry

namespace Builder

variable {b b' : Builder} {c : Call} {calls : List Call} {ip : Nat}

/-! ## Open bodies -/

/-- What an open body contributes to the table: its function and the jump over it. -/
structure Site where
  func : Nat
  skip : Nat

def sites (b : Builder) : List Site := b.bodies.map fun body => ⟨body.func, body.skip⟩

/-- The functions begun so far: those of the table, then those of the open bodies. -/
def functionIds (b : Builder) : List Nat := b.funcs.toList.map (·.id) ++ b.sites.map (·.func)

theorem not_mem_functionIds {i : Nat} (hfuncs : ∀ e ∈ b.funcs, e.id ≠ i)
    (hbodies : ∀ body ∈ b.bodies, body.func ≠ i) : i ∉ b.functionIds := by
  simp only [functionIds, sites, List.map_map, List.mem_append, List.mem_map, not_or, not_exists,
    not_and]
  exact ⟨fun e he => hfuncs e (Array.mem_toList_iff.mp he), hbodies⟩

/-- A call starts a body, ends the innermost one, or leaves the functions alone. -/
theorem Step.functions (h : Step b c b') :
    (b'.funcs = b.funcs ∧ b'.sites = b.sites) ∨
      (∃ f, c = .defineFunc f ∧ f.id ∉ b.functionIds ∧ b'.funcs = b.funcs ∧
        b'.sites = ⟨f.id, b.ops.size⟩ :: b.sites) ∨
      ∃ f body outer, c = .endFunc f ∧ b.bodies = body :: outer ∧ body.func = f.id ∧
        b'.funcs = b.funcs.push (entryOf f body b.ops.size) ∧
        b.sites = ⟨f.id, body.skip⟩ :: b'.sites := by
  cases h with
  | @defineFunc f vars hfuncs hbodies _ =>
    exact .inr (.inl ⟨f, rfl, not_mem_functionIds hfuncs hbodies, rfl, rfl⟩)
  | @endFunc f body outer hb hf =>
    refine .inr (.inr ⟨f, body, outer, rfl, hb, hf, rfl, ?_⟩)
    simp only [sites, hb, List.map_cons, hf]
  | @defineLocals vs body outer vars hb _ =>
    refine .inl ⟨rfl, ?_⟩
    simp only [sites, hb, List.map_cons]
  | _ => exact .inl ⟨rfl, rfl⟩

/-! ## Ranges -/

/-- The ranges of functions are nested or apart. -/
structure Laid (b : Builder) : Prop where
  ids : b.functionIds.Nodup
  bounds : ∀ e ∈ b.funcs, 0 < e.entry ∧ e.entry ≤ e.stop ∧ e.stop ≤ b.ops.size
  skips : ∀ s ∈ b.sites, s.skip < b.ops.size
  closed : b.funcs.toList.Pairwise FuncEntry.Before
  opened : b.sites.Pairwise fun inner outer => outer.skip < inner.skip
  across : ∀ e ∈ b.funcs, ∀ s ∈ b.sites, e.stop ≤ s.skip ∨ s.skip + 1 < e.entry

theorem laid_fresh (id : Nat) : Laid { id := id } where
  ids := List.nodup_nil
  bounds := nofun
  skips := nofun
  closed := .nil
  opened := .nil
  across := nofun

/-- Neither new instructions nor patches matter. -/
theorem Laid.of_functions (hb : Laid b) (hfuncs : b'.funcs = b.funcs) (hsites : b'.sites = b.sites)
    (hsize : b.ops.size ≤ b'.ops.size) : Laid b' where
  ids := by
    rw [functionIds, hfuncs, hsites]
    exact hb.ids
  bounds e he := by
    obtain ⟨hentry, hle, hstop⟩ := hb.bounds e (hfuncs ▸ he)
    exact ⟨hentry, hle, Nat.le_trans hstop hsize⟩
  skips s hs := Nat.lt_of_lt_of_le (hb.skips s (hsites ▸ hs)) hsize
  closed := hfuncs ▸ hb.closed
  opened := hsites ▸ hb.opened
  across e he s hs := hb.across e (hfuncs ▸ he) s (hsites ▸ hs)

/-- A new body starts behind everything. -/
theorem Laid.defineFunc {f : Func} (hb : Laid b) (hfresh : f.id ∉ b.functionIds)
    (hfuncs : b'.funcs = b.funcs) (hsites : b'.sites = ⟨f.id, b.ops.size⟩ :: b.sites)
    (hsize : b'.ops.size = b.ops.size + 1) : Laid b' where
  ids := by
    rw [functionIds, hfuncs, hsites, List.map_cons, List.perm_middle.nodup_iff, List.nodup_cons]
    exact ⟨hfresh, hb.ids⟩
  bounds e he := by
    have := hb.bounds e (hfuncs ▸ he)
    omega
  skips s hs := by
    rw [hsites, List.mem_cons] at hs
    rw [hsize]
    rcases hs with rfl | hs
    · exact Nat.lt_succ_self _
    · exact Nat.lt_succ_of_lt (hb.skips s hs)
  closed := hfuncs ▸ hb.closed
  opened := by
    rw [hsites, List.pairwise_cons]
    exact ⟨hb.skips, hb.opened⟩
  across e he s hs := by
    have hbounds := hb.bounds e (hfuncs ▸ he)
    rw [hsites, List.mem_cons] at hs
    rcases hs with rfl | hs
    · exact .inl hbounds.2.2
    · exact hb.across e (hfuncs ▸ he) s hs

/-- The innermost body ends behind everything and goes to the end of the table. -/
theorem Laid.endFunc {f : Func} {body : Body} (hb : Laid b)
    (hfuncs : b'.funcs = b.funcs.push (entryOf f body b.ops.size))
    (hsites : b.sites = ⟨f.id, body.skip⟩ :: b'.sites) (hsize : b'.ops.size = b.ops.size) :
    Laid b' where
  ids := by
    have hids := hb.ids
    rw [functionIds, hsites] at hids
    rw [functionIds, hfuncs]
    simpa [entryOf] using hids
  bounds e he := by
    rw [hfuncs, Array.mem_push] at he
    rw [hsize]
    rcases he with he | rfl
    · exact hb.bounds e he
    · have hskip := hb.skips _ (hsites ▸ List.mem_cons_self)
      exact ⟨Nat.succ_pos _, hskip, Nat.le_refl _⟩
  skips s hs := by
    rw [hsize]
    exact hb.skips s (hsites ▸ List.mem_cons_of_mem _ hs)
  closed := by
    rw [hfuncs, Array.toList_push, List.pairwise_append]
    refine ⟨hb.closed, List.pairwise_singleton _ _, fun e he e' he' => ?_⟩
    rw [List.mem_singleton] at he'
    subst he'
    have hmem := Array.mem_toList_iff.mp he
    -- The stream ends here, so no function of the table ends later.
    refine ⟨(hb.bounds e hmem).2.2, ?_⟩
    rcases hb.across e hmem _ (hsites ▸ List.mem_cons_self) with hfront | hwithin
    · exact .inl (Nat.lt_succ_of_le hfront)
    · exact .inr hwithin
  opened := by
    have hopened := hb.opened
    rw [hsites] at hopened
    exact (List.pairwise_cons.mp hopened).2
  across e he s hs := by
    rw [hfuncs, Array.mem_push] at he
    rcases he with he | rfl
    · exact hb.across e he s (hsites ▸ List.mem_cons_of_mem _ hs)
    · have hopened := hb.opened
      rw [hsites] at hopened
      exact .inr (Nat.succ_lt_succ ((List.pairwise_cons.mp hopened).1 s hs))

theorem Step.laid (h : Step b c b') (hb : Laid b) : Laid b' := by
  have hsize := h.size_ops
  rcases h.functions with ⟨hfuncs, hsites⟩ | ⟨f, rfl, hfresh, hfuncs, hsites⟩ |
    ⟨f, body, outer, rfl, -, -, hfuncs, hsites⟩
  · exact hb.of_functions hfuncs hsites (hsize ▸ Nat.le_add_right _ _)
  · exact hb.defineFunc hfresh hfuncs hsites hsize
  · exact hb.endFunc hfuncs hsites hsize

theorem laid_of_run {id : Nat} (h : Backend.run ({ id := id } : Builder) calls = .ok b) : Laid b :=
  Backend.run_keeps (fun _ _ _ hc => (step_eq_ok_iff.mp hc).2.laid) h (laid_fresh id)

/-! ## The functions around an instruction -/

/-- The functions around an instruction, the innermost first. An open body reaches to the end of the
stream. -/
def enclosing (b : Builder) (ip : Nat) : List Nat :=
  (b.funcs.toList.filter (·.contains ip)).map (·.id) ++
    (b.sites.filter (·.skip < ip)).map (·.func)

/-- What is around an instruction is known when it is emitted. -/
theorem Step.enclosing (h : Step b c b') (hip : ip < b'.ops.size) :
    b'.enclosing ip = b.enclosing ip := by
  have hsize := h.size_ops
  unfold Builder.enclosing
  rcases h.functions with ⟨hfuncs, hsites⟩ | ⟨f, rfl, -, hfuncs, hsites⟩ |
    ⟨f, body, outer, rfl, -, -, hfuncs, hsites⟩
  · rw [hfuncs, hsites]
  · have hlt : ip < b.ops.size + 1 := Nat.lt_of_lt_of_eq hip hsize
    have hskip : ¬ b.ops.size < ip := Nat.not_lt_of_le (Nat.le_of_lt_succ hlt)
    rw [hfuncs, hsites, List.filter_cons_of_neg (by simpa using hskip)]
  · rw [hfuncs, hsites, Array.toList_push, List.filter_append, List.filter_cons, List.filter_cons,
      List.filter_nil]
    -- The body goes from the front of the open ones to the end of the table, or is in neither list.
    by_cases hskip : body.skip < ip
    · have hin : (entryOf f body b.ops.size).contains ip = true :=
        FuncEntry.contains_iff.mpr ⟨hskip, Nat.lt_of_lt_of_eq hip hsize⟩
      rw [if_pos hin, if_pos (by simpa using hskip), List.map_append, List.append_assoc]
      rfl
    · have hout : ¬ (entryOf f body b.ops.size).contains ip = true :=
        fun hin => hskip (FuncEntry.contains_iff.mp hin).1
      rw [if_neg hout, if_neg (by simpa using hskip), List.append_nil]

/-- Around the next instruction are the open bodies. -/
theorem Laid.enclosing_size (hb : Laid b) : b.enclosing b.ops.size = b.sites.map (·.func) := by
  have hclosed : b.funcs.toList.filter (·.contains b.ops.size) = [] := by
    rw [List.filter_eq_nil_iff]
    intro e he hin
    have hstop := (hb.bounds e (Array.mem_toList_iff.mp he)).2.2
    have hlt := (FuncEntry.contains_iff.mp hin).2
    omega
  have hopen : b.sites.filter (·.skip < b.ops.size) = b.sites := by
    rw [List.filter_eq_self]
    intro s hs
    simpa using hb.skips s hs
  rw [Builder.enclosing, hclosed, hopen, List.map_nil, List.nil_append]

/-- Functions of the table around one instruction are nested, the inner ones first. -/
theorem Laid.pairwise_contains (hb : Laid b) (ip : Nat) :
    (b.funcs.toList.filter (·.contains ip)).Pairwise fun inner outer =>
      outer.entry < inner.entry ∧ inner.stop ≤ outer.stop := by
  rw [List.pairwise_filter]
  refine hb.closed.imp fun {inner outer} hbefore hinner houter => ?_
  have hin := FuncEntry.contains_iff.mp hinner
  have hout := FuncEntry.contains_iff.mp houter
  rcases hbefore with ⟨hstop, hfront | hwithin⟩
  · omega
  · exact ⟨hwithin, hstop⟩

end Builder

end Lowering.Bytecode
