import Lowering.Proofs.Bytecode.Sites

/-!
# Where jumps lead

Offsets come about in three ways: a jump to a label is patched by `resolve`, the jumps of a loop by
its end, the jump over a function body by the end of the body. Until then the offset is 0, which
would be a jump to itself.

* `target?_label`: a jump to a label leads to the place of the label.
* `target?_loop`: a loop leads behind its last instruction, the last instruction back to its start,
  and a filter to the last instruction.
* `target?_inside`: no jump leaves the code.
* `becomes_of_assemble`: nothing but offsets is patched.

`jumpTargets_of_assemble` puts them together. All are about the finished code, in terms of the
calls: the place of a call is the number of instructions that were emitted before it.
-/

namespace Lowering

/-- Whether a call ends the loop with a given number. -/
def Call.endsFor (id : Nat) : Call → Bool
  | .endForPhrase f => f.id == id
  | _ => false

namespace Bytecode

open Op

/-- The place that the instruction at `ip` may jump to. -/
def Code.target? (code : Code) (ip : Nat) : Option Int :=
  (code.ops[ip]?.bind jumpOffset?).map fun d => ip + d

theorem Code.target?_of_withJumpOffset {code : Code} {ip target : Nat} {op : Op}
    (h : code.ops[ip]? = some (op.withJumpOffset ((target : Int) - ip)))
    (hop : op.jumpOffset?.isSome) : code.target? ip = some target := by
  obtain ⟨d, hd⟩ := Option.isSome_iff_exists.mp hop
  rw [Code.target?, h, Option.bind_some, jumpOffset?_withJumpOffset, hd, Option.map_some,
    Option.map_some]
  congr 1
  omega

namespace Builder

variable {id i ip target : Nat} {b b' : Builder} {c : Call} {calls : List Call} {op op' : Op}
  {code : Code}

/-- What jumps goes on to jump. -/
theorem Becomes.isSome_jumpOffset? (h : Becomes op op') (hop : op.jumpOffset?.isSome) :
    op'.jumpOffset?.isSome := by
  have hbare : ∀ o : Op, o.bare.jumpOffset?.isSome = o.jumpOffset?.isSome := by
    intro o
    rw [bare, jumpOffset?_withJumpOffset, Option.isSome_map]
  rcases h with h | ⟨rfl, -⟩
  · rw [← hbare op', h, hbare op]
    exact hop
  · cases hop

/-- A call that appends a jump leaves a jump in its place. -/
theorem exists_jump_at {pre post : List Call}
    (h : Backend.run ({ id := id } : Builder) (pre ++ c :: post) = .ok b)
    (hc : ∀ m m' : Builder, m.step c = .ok m' →
      ∃ op, m'.ops = m.ops.push op ∧ op.jumpOffset?.isSome) :
    ∃ op, b.ops[(emitted pre).length]? = some op ∧ op.jumpOffset?.isSome := by
  obtain ⟨m, m', ht, -, hstep, -, hexact, hpost⟩ := run_split h
  obtain ⟨op, hops, hjump⟩ := hc m m' hstep
  have hat : m'.ops[(emitted pre).length]? = some op := by
    rw [hops, ← ht.size]
    exact Array.getElem?_push_size
  obtain ⟨op', hop', hbecomes⟩ := run_becomes hpost hexact hat
  exact ⟨op', hop', hbecomes.isSome_jumpOffset? hjump⟩

/-! ## Labels -/

/-- A placed label keeps its place. -/
theorem Step.keeps_label (h : Step b c b') (hl : b.labels.lookup i = some target) :
    b'.labels.lookup i = some target := by
  cases h with
  | @label l hnone =>
    have hne : i ≠ l.id := by
      rintro rfl
      rw [hnone] at hl
      cases hl
    show List.lookup i ((l.id, b.ops.size) :: b.labels) = some target
    rw [List.lookup_cons, beq_eq_false_iff_ne.mpr hne]
    exact hl
  | _ => exact hl

/-- A jump to a label is not forgotten. -/
theorem Step.keeps_fixup {p : Nat × Label} (h : Step b c b') (hp : p ∈ b.fixups) :
    p ∈ b'.fixups := by
  cases h with
  | jump _ => exact Array.mem_push_of_mem _ hp
  | _ => exact hp

/-- The place of a label in the finished run. -/
theorem lookup_label_of_run {pre post : List Call} {l : Label}
    (h : Backend.run ({ id := id } : Builder) (pre ++ .label l :: post) = .ok b) :
    b.labels.lookup l.id = some (emitted pre).length := by
  obtain ⟨m, m', ht, -, hc, -, -, hpost⟩ := run_split h
  obtain ⟨-, -, rfl⟩ := label_eq_ok.mp hc
  apply Backend.run_keeps (P := fun b => b.labels.lookup l.id = some (emitted pre).length)
    (fun _ _ _ hc => (step_eq_ok_iff.mp hc).2.keeps_label) hpost
  rw [← ht.size]
  exact List.lookup_cons_self

/-- A jump to a label waits for `resolve`, in the place of its call. -/
theorem mem_fixups_of_run {pre post : List Call} {l : Label}
    (h : Backend.run ({ id := id } : Builder) (pre ++ c :: post) = .ok b)
    (hc : c.jump? = some (l, op)) : ((emitted pre).length, l) ∈ b.fixups := by
  obtain ⟨m, m', ht, -, hstep, -, -, hpost⟩ := run_split h
  obtain ⟨-, rfl⟩ := emit_eq_ok.mp ((step_of_jump? hc).symm.trans hstep)
  rw [← ht.size]
  exact Backend.run_keeps (P := fun b => (m.ops.size, l) ∈ b.fixups)
    (fun _ _ _ hc => (step_eq_ok_iff.mp hc).2.keeps_fixup) hpost Array.mem_push_self

theorem jumpOffset?_of_jump? {l : Label} (hc : c.jump? = some (l, op)) :
    op.jumpOffset? = some 0 := by
  cases c <;> simp only [Call.jump?, Option.some.injEq, Prod.mk.injEq, reduceCtorEq] at hc <;>
    (obtain ⟨-, rfl⟩ := hc; rfl)

/-- Its instruction is a jump. -/
theorem exists_push_of_jump? {l : Label} (hc : c.jump? = some (l, op)) (m m' : Builder)
    (h : m.step c = .ok m') : ∃ op, m'.ops = m.ops.push op ∧ op.jumpOffset?.isSome := by
  obtain ⟨-, rfl⟩ := emit_eq_ok.mp ((step_of_jump? hc).symm.trans h)
  exact ⟨op, rfl, by rw [jumpOffset?_of_jump? hc]; rfl⟩

/-- Every jump to a label has a label to lead to, and leads to the place of the label, which may
have been placed before the jump or after it. -/
theorem target?_label (h : assemble id calls = .ok code) (hsize : (emitted calls).length < 2 ^ 31)
    {pre post : List Call} {l : Label} (hcalls : calls = pre ++ c :: post)
    (hc : c.jump? = some (l, op)) :
    (∃ l', .label l' ∈ calls ∧ l'.id = l.id) ∧
      ∀ pre' l' post', calls = pre' ++ .label l' :: post' → l'.id = l.id →
        code.target? (emitted pre).length = some (emitted pre').length := by
  obtain ⟨b, hrun, -, ops, hops, rfl⟩ := assemble_eq_ok.mp h
  subst hcalls
  obtain ⟨op', hop', hjump⟩ := exists_jump_at hrun (exists_push_of_jump? hc)
  have hfixup := Array.mem_toList_iff.mpr (mem_fixups_of_run hrun hc)
  constructor
  · obtain ⟨target, htarget⟩ := lookup_of_patchLabels hops _ hfixup
    obtain ⟨pre', l', post', hcalls, hid, -⟩ := (traced_of_run hrun).labels _ _ htarget
    exact ⟨l', by simp [hcalls], hid⟩
  · intro pre' l' post' hcalls hid
    have hplace : b.labels.lookup l.id = some (emitted pre').length := by
      rw [hcalls] at hrun
      exact hid ▸ lookup_label_of_run hrun
    -- The call at a place tells the label, so all entries for this place name the same one.
    have hplaces : ∀ p ∈ b.fixups.toList, p.1 = (emitted pre).length →
        b.labels.lookup p.2.id = some (emitted pre').length := by
      intro p hp hip
      obtain ⟨c', op'', hc', hlabel⟩ := (traced_of_run hrun).fixups p (Array.mem_toList_iff.mp hp)
      rw [hip, getElem?_emitted_at (appends_of_jump? hc).emits] at hc'
      obtain rfl := Option.some.inj hc'
      rw [hc] at hlabel
      rw [← (Prod.mk.inj (Option.some.inj hlabel)).1]
      exact hplace
    have hlt : (emitted pre).length < 2 ^ 31 := by
      rw [emitted_append, List.length_append] at hsize
      omega
    have hlt' : (emitted pre').length < 2 ^ 31 := by
      rw [hcalls, emitted_append, List.length_append] at hsize
      omega
    have hpatched := getElem?_patchLabels_of_mem hops ⟨_, hfixup, rfl⟩ hplaces
      (fitsOffset_of_lt hlt hlt')
    rw [hop', Option.map_some, ← Array.getElem?_toList] at hpatched
    exact Code.target?_of_withJumpOffset hpatched hjump

/-! ## Loops -/

/-- A loop stays open until it is ended; its start stays and its filters only get more. -/
theorem Step.keeps_loop {loop : OpenFor} (h : Step b c b') (hloop : b.fors.lookup i = some loop)
    (hc : c.endsFor i = false) :
    ∃ loop', b'.fors.lookup i = some loop' ∧ loop'.start = loop.start ∧
      loop.filters ⊆ loop'.filters := by
  cases h with
  | @forPhrase f key val hasContext k v hk hv hf =>
    refine ⟨loop, ?_, rfl, List.Subset.refl _⟩
    show List.lookup i (b.fors ++ [(f.id, { start := b.ops.size })]) = some loop
    rw [List.lookup_append, hloop, Option.some_or]
  | @filter f hf =>
    show ∃ loop', List.lookup i (noteFilter f.id b.ops.size b.fors) = some loop' ∧ _
    rw [lookup_noteFilter, hloop]
    split
    · exact ⟨_, rfl, rfl, List.subset_append_left _ _⟩
    · exact ⟨loop, rfl, rfl, List.Subset.refl _⟩
  | @endFor f old hf =>
    have hne : i ≠ f.id := Ne.symm (beq_eq_false_iff_ne.mp hc)
    refine ⟨loop, ?_, rfl, List.Subset.refl _⟩
    show List.lookup i (b.fors.filter (·.1 ≠ f.id)) = some loop
    rw [lookup_filter_ne, if_neg hne, hloop]
  | _ => exact ⟨loop, hloop, rfl, List.Subset.refl _⟩

theorem run_keeps_loop {loop : OpenFor} (h : Backend.run b calls = .ok b')
    (hloop : b.fors.lookup i = some loop) (hcalls : ∀ c ∈ calls, c.endsFor i = false) :
    ∃ loop', b'.fors.lookup i = some loop' ∧ loop'.start = loop.start ∧
      loop.filters ⊆ loop'.filters := by
  induction calls generalizing b loop with
  | nil =>
    obtain rfl := Backend.run_nil_eq_ok.mp h
    exact ⟨loop, hloop, rfl, List.Subset.refl _⟩
  | cons c calls ih =>
    obtain ⟨m, hc, hrest⟩ := Backend.run_cons_eq_ok.mp h
    obtain ⟨hfirst, hlater⟩ := List.forall_mem_cons.mp hcalls
    obtain ⟨loop₁, hloop₁, hstart₁, hsub₁⟩ := (step_eq_ok_iff.mp hc).2.keeps_loop hloop hfirst
    obtain ⟨loop₂, hloop₂, hstart₂, hsub₂⟩ := ih hrest hloop₁ hlater
    exact ⟨loop₂, hloop₂, hstart₂.trans hstart₁, List.Subset.trans hsub₁ hsub₂⟩

/-- The start of a loop is noted under its number. -/
theorem lookup_forPhrase {f : ForPhrase} {key val : Option Var} {hasContext : Bool}
    (h : b.forPhrase f key val hasContext = .ok b') :
    b'.fors.lookup f.id = some { start := b.ops.size } := by
  obtain ⟨-, k, v, -, -, hf, rfl⟩ := forPhrase_eq_ok.mp h
  show List.lookup f.id (b.fors ++ [(f.id, { start := b.ops.size })]) = _
  rw [List.lookup_append, hf, Option.none_or, List.lookup_cons_self]

/-- A loop that is started is ended, or the code is not complete. -/
theorem exists_endFor {pre rest : List Call} {f : ForPhrase} {key val : Option Var}
    {hasContext : Bool}
    (h : Backend.run ({ id := id } : Builder) (pre ++ .forPhrase f key val hasContext :: rest) =
      .ok b) (hb : b.fors = []) :
    ∃ mid g post, rest = mid ++ .endForPhrase g :: post ∧ g.id = f.id ∧
      ∀ c ∈ mid, c.endsFor f.id = false := by
  cases hfind : rest.find? (Call.endsFor f.id) with
  | none =>
    -- Without an end the loop would still be open after the run.
    obtain ⟨m, m', -, -, hstep, -, -, hpost⟩ := run_split h
    have hrest : ∀ c ∈ rest, c.endsFor f.id = false := by simpa using hfind
    obtain ⟨loop, hloop, -⟩ := run_keeps_loop hpost (lookup_forPhrase hstep) hrest
    rw [hb] at hloop
    cases hloop
  | some c =>
    obtain ⟨hc, mid, post, hrest, hmid⟩ := List.find?_eq_some_iff_append.mp hfind
    cases c with
    | endForPhrase g =>
      exact ⟨mid, g, post, hrest, beq_iff_eq.mp hc, fun c hc => by simpa using hmid c hc⟩
    | _ => cases hc

/-- The open loop knows its start. -/
theorem exists_start_of_run {pre mid : List Call} {f : ForPhrase} {key val : Option Var}
    {hasContext : Bool}
    (h : Backend.run ({ id := id } : Builder) (pre ++ .forPhrase f key val hasContext :: mid) =
      .ok b) (hmid : ∀ c ∈ mid, c.endsFor f.id = false) :
    ∃ loop, b.fors.lookup f.id = some loop ∧ loop.start = (emitted pre).length := by
  obtain ⟨m, m', ht, -, hstep, -, -, hpost⟩ := run_split h
  obtain ⟨loop, hloop, hstart, -⟩ := run_keeps_loop hpost (lookup_forPhrase hstep) hmid
  exact ⟨loop, hloop, hstart.trans ht.size⟩

/-- The open loop knows its filters. -/
theorem exists_filter_of_run {pre rest : List Call} {k : ForPhrase}
    (h : Backend.run ({ id := id } : Builder) (pre ++ .filterForPhrase k :: rest) = .ok b)
    (hrest : ∀ c ∈ rest, c.endsFor k.id = false) :
    ∃ loop, b.fors.lookup k.id = some loop ∧ (emitted pre).length ∈ loop.filters := by
  obtain ⟨m, m', ht, -, hstep, -, -, hpost⟩ := run_split h
  obtain ⟨-, hopen, rfl⟩ := filterForPhrase_eq_ok.mp hstep
  obtain ⟨old, hold⟩ := Option.isSome_iff_exists.mp hopen
  have hnoted : (noteFilter k.id m.ops.size m.fors).lookup k.id =
      some { old with filters := old.filters ++ [m.ops.size] } := by
    rw [lookup_noteFilter, if_pos rfl, hold, Option.map_some]
  obtain ⟨loop, hloop, -, hsub⟩ := run_keeps_loop hpost hnoted hrest
  refine ⟨loop, hloop, hsub ?_⟩
  rw [← ht.size]
  exact List.mem_append_right _ List.mem_cons_self

theorem exists_push_of_forPhrase {f : ForPhrase} {key val : Option Var} {hasContext : Bool}
    (m m' : Builder) (h : m.step (.forPhrase f key val hasContext) = .ok m') :
    ∃ op, m'.ops = m.ops.push op ∧ op.jumpOffset?.isSome := by
  obtain ⟨-, k, v, -, -, -, rfl⟩ := forPhrase_eq_ok.mp h
  exact ⟨.forPhrase k v hasContext 0, rfl, rfl⟩

theorem exists_push_of_filterForPhrase {k : ForPhrase} (m m' : Builder)
    (h : m.step (.filterForPhrase k) = .ok m') :
    ∃ op, m'.ops = m.ops.push op ∧ op.jumpOffset?.isSome := by
  obtain ⟨-, -, rfl⟩ := filterForPhrase_eq_ok.mp h
  exact ⟨.filterForPhrase 0, rfl, rfl⟩

/-- A fixed place is as in the finished code, unless it is a jump to a label. -/
theorem target?_of_fixed {m : Builder} {rest : List Call} {e : Call} {ops : Array Op}
    (hrest : Backend.run m rest = .ok b) (hb : Traced (calls ++ rest) b)
    (hops : patchLabels b.labels b.ops b.fixups.toList = .ok ops)
    (he : (emitted calls)[ip]? = some e) (hlabel : e.jump? = none) (hfixed : Fixed m ip)
    (hjump : op.jumpOffset?.isSome)
    (hop : m.ops[ip]? = some (op.withJumpOffset ((target : Int) - ip))) :
    (b.codeOf ops).target? ip = some target := by
  have hip : ip < m.ops.size := (Array.getElem?_eq_some_iff.mp hop).1
  have hnone : ∀ p ∈ b.fixups.toList, p.1 ≠ ip := by
    rintro p hp rfl
    obtain ⟨e', op, he', hlabel'⟩ := hb.fixups p (Array.mem_toList_iff.mp hp)
    rw [getElem?_emitted_append he] at he'
    rw [← Option.some.inj he', hlabel] at hlabel'
    cases hlabel'
  rw [← run_fixed hrest hip hfixed, ← getElem?_patchLabels_of_not_mem hops hnone,
    ← Array.getElem?_toList] at hop
  exact Code.target?_of_withJumpOffset hop hjump

/-- What the end of a loop does to the places of the loop. -/
theorem getElem?_endForPhrase {g : ForPhrase} {loop : OpenFor} (hb : Traced calls b)
    (hloop : b.fors.lookup g.id = some loop) (h : b.endForPhrase g = .ok b')
    (hsize : b.ops.size + 1 < 2 ^ 31) :
    b'.ops[loop.start]? =
        b.ops[loop.start]?.map (withJumpOffset (((b.ops.size + 1 : Nat) : Int) - loop.start)) ∧
      b'.ops[b.ops.size]? = some (.endForPhrase ((loop.start : Int) - b.ops.size)) ∧
      ∀ ip ∈ loop.filters,
        b'.ops[ip]? = b.ops[ip]?.map (withJumpOffset ((b.ops.size : Int) - ip)) := by
  obtain ⟨-, loop', hloop', rfl⟩ := endForPhrase_eq_ok.mp h
  obtain rfl : loop = loop' := Option.some.inj (hloop.symm.trans hloop')
  obtain ⟨f, key, val, hasContext, hf, -⟩ := hb.starts g.id loop hloop
  have hstart : loop.start < b.ops.size := by
    rw [hb.size]
    exact (List.getElem?_eq_some_iff.mp hf).1
  have hfilters : ∀ ip ∈ loop.filters, ip < b.ops.size ∧ ip ≠ loop.start := by
    intro ip hip
    obtain ⟨k, hk, -⟩ := hb.filters g.id loop hloop ip hip
    constructor
    · rw [hb.size]
      exact (List.getElem?_eq_some_iff.mp hk).1
    · rintro rfl
      rw [hf] at hk
      cases hk
  refine ⟨?_, ?_, fun ip hip => ?_⟩
  · have hnot : loop.start ∉ loop.filters := fun hmem => (hfilters _ hmem).2 rfl
    have hfits := fitsOffset_of_lt (Nat.lt_trans hstart (Nat.lt_of_succ_lt hsize)) hsize
    exact (getElem?_closeLoop_start hnot hfits).trans
      (congrArg (Option.map _) (getElem?_push_of_lt hstart))
  · have hnot : b.ops.size ∉ loop.filters := fun hmem => Nat.lt_irrefl _ (hfilters _ hmem).1
    exact (getElem?_closeLoop_of_not_mem (Nat.ne_of_gt hstart) hnot).trans
      Array.getElem?_push_size
  · obtain ⟨hlt, hne⟩ := hfilters ip hip
    have hfits : fitsOffset ((b.ops.size : Int) - ip) = true :=
      fitsOffset_of_lt (Nat.lt_trans hlt (Nat.lt_of_succ_lt hsize)) (Nat.lt_of_succ_lt hsize)
    exact (getElem?_closeLoop_filter hne hip hfits).trans
      (congrArg (Option.map _) (getElem?_push_of_lt hlt))

/-- The jumps of a loop: its start leads behind the instruction that ends it, that instruction leads
to the start, and every filter in between leads to it. -/
theorem target?_loop (h : assemble id calls = .ok code) (hsize : (emitted calls).length < 2 ^ 31)
    {pre mid body post : List Call} {f g : ForPhrase} {key val : Option Var} {hasContext : Bool}
    (hbody : body = pre ++ .forPhrase f key val hasContext :: mid)
    (hcalls : calls = body ++ .endForPhrase g :: post)
    (hg : g.id = f.id) (hmid : ∀ c ∈ mid, c.endsFor f.id = false) :
    code.target? (emitted pre).length = some ((emitted body).length + 1 : Nat) ∧
      code.target? (emitted body).length = some (emitted pre).length ∧
      ∀ before k after, mid = before ++ .filterForPhrase k :: after → k.id = f.id →
        code.target? (emitted (pre ++ .forPhrase f key val hasContext :: before)).length =
          some (emitted body).length := by
  obtain ⟨b, hrun, -, ops, hops, rfl⟩ := assemble_eq_ok.mp h
  subst hcalls
  obtain ⟨m, hopen, hrest⟩ := Backend.run_append_eq_ok.mp hrun
  obtain ⟨m', hend, hpost⟩ := Backend.run_cons_eq_ok.mp hrest
  have hm := traced_of_run hopen
  have hm' := hm.step (step_eq_ok_iff.mp hend).2
  have hb : Traced (body ++ [.endForPhrase g] ++ post) b := by
    rw [List.append_assoc]
    exact traced_of_run hrun
  obtain ⟨loop, hloop, hstart⟩ := exists_start_of_run (hbody ▸ hopen) hmid
  have hlast : m.ops.size + 1 < 2 ^ 31 := by
    rw [emitted_append, emitted_cons, List.length_append, List.length_append, ← hm.size] at hsize
    exact Nat.lt_of_le_of_lt (Nat.add_le_add_left (Nat.le_add_right 1 _) _) hsize
  obtain ⟨hatStart, hatEnd, hatFilters⟩ := getElem?_endForPhrase hm (hg ▸ hloop) hend hlast
  have hclosed : m'.fors.lookup f.id = none := by
    obtain ⟨-, -, -, rfl⟩ := endForPhrase_eq_ok.mp hend
    show (m.fors.filter (·.1 ≠ g.id)).lookup f.id = none
    rw [lookup_filter_ne, if_pos hg.symm]
  have hat : ∀ p c q, body = p ++ c :: q → c.emits = true →
      (emitted (body ++ [.endForPhrase g]))[(emitted p).length]? = some c := by
    intro p c q hbody hc
    rw [hbody]
    exact getElem?_emitted_append (getElem?_emitted_at hc)
  rw [← hm.size]
  -- The loop is closed, so what its end has patched stays as it is.
  refine ⟨?_, ?_, ?_⟩
  · obtain ⟨op, hop, hjump⟩ := exists_jump_at (hbody ▸ hopen) exists_push_of_forPhrase
    have he := hat _ _ _ hbody rfl
    have hfixed : Fixed m' (emitted pre).length :=
      hm'.fixed he nofun nofun (by rintro _ _ _ _ ⟨⟩; exact hclosed) nofun
    rw [hstart, hop, Option.map_some] at hatStart
    exact target?_of_fixed hpost hb hops he rfl hfixed hjump hatStart
  · have he := getElem?_emitted_snoc (c := .endForPhrase g) hm.size rfl
    have hfixed : Fixed m' m.ops.size := hm'.fixed he nofun nofun nofun nofun
    have hjump : (Op.endForPhrase 0).jumpOffset?.isSome := rfl
    rw [hstart] at hatEnd
    exact target?_of_fixed hpost hb hops he rfl hfixed hjump hatEnd
  · intro before k after hsplit hk
    have hbody' : body = (pre ++ .forPhrase f key val hasContext :: before) ++
        .filterForPhrase k :: after := by
      rw [hbody, hsplit, List.append_assoc, List.cons_append]
    obtain ⟨op, hop, hjump⟩ := exists_jump_at (hbody' ▸ hopen) exists_push_of_filterForPhrase
    have hafter : ∀ c ∈ after, c.endsFor k.id = false := by
      intro c hc
      rw [hk]
      exact hmid c (by simp [hsplit, hc])
    obtain ⟨loop', hloop', hmem⟩ := exists_filter_of_run (hbody' ▸ hopen) hafter
    rw [hk, hloop] at hloop'
    rw [← Option.some.inj hloop'] at hmem
    have he := hat _ _ _ hbody' rfl
    have hfixed : Fixed m' (emitted (pre ++ .forPhrase f key val hasContext :: before)).length :=
      hm'.fixed he nofun nofun nofun (by rintro _ ⟨⟩; rw [hk]; exact hclosed)
    have hatFilter := hatFilters _ hmem
    rw [hop, Option.map_some] at hatFilter
    exact target?_of_fixed hpost hb hops he rfl hfixed hjump hatFilter

/-! ## Bounds -/

/-- Every jump of a stream leads to one of the places `0`, …, `n`. -/
def Inside (ops : Array Op) (n : Nat) : Prop :=
  ∀ (ip : Nat) (op : Op) (d : Int), ops[ip]? = some op → op.jumpOffset? = some d →
    0 ≤ ip + d ∧ ip + d ≤ n

section Inside

variable {ops ops' : Array Op} {n : Nat}

theorem Inside.push (h : Inside ops ops.size)
    (hop : ∀ d, op.jumpOffset? = some d →
      0 ≤ (ops.size : Int) + d ∧ (ops.size : Int) + d ≤ ops.size) :
    Inside (ops.push op) (ops.push op).size := by
  intro ip op' d hop' hd
  rw [Array.size_push]
  rw [Array.getElem?_push] at hop'
  split at hop'
  · next hip =>
    subst hip
    obtain rfl := Option.some.inj hop'
    have := hop d hd
    omega
  · have := h ip op' d hop' hd
    omega

theorem Inside.patchJump (h : Inside ops n) (htarget : target ≤ n) :
    Inside (patchJump ops ip target) n := by
  intro i op d hop hd
  by_cases hfits : fitsOffset ((target : Int) - ip) = true
  · by_cases hi : i = ip
    · subst hi
      rw [getElem?_patchJump_self hfits] at hop
      obtain ⟨old, -, rfl⟩ := Option.map_eq_some_iff.mp hop
      rw [jumpOffset?_withJumpOffset] at hd
      obtain ⟨-, -, rfl⟩ := Option.map_eq_some_iff.mp hd
      omega
    · rw [getElem?_patchJump_of_ne hi] at hop
      exact h i op d hop hd
  · rw [patchJump_eq, if_neg hfits] at hop
    exact h i op d hop hd

theorem Inside.patchAll {ips : List Nat} (h : Inside ops n) (htarget : target ≤ n) :
    Inside (patchAll ops ips target) n := by
  induction ips generalizing ops with
  | nil => exact h
  | cons ip ips ih => exact ih (h.patchJump htarget)

theorem Inside.closeLoop {loop : OpenFor} {last : Nat} (h : Inside ops n) (hlast : last < n) :
    Inside (closeLoop ops loop last) n := by
  rw [closeLoop_eq]
  exact (h.patchAll (Nat.le_of_lt hlast)).patchJump hlast

theorem Inside.patchLabels {labels : List (Nat × Nat)} {fixups : List (Nat × Label)}
    (h : Inside ops n) (hlabels : ∀ i target, labels.lookup i = some target → target ≤ n)
    (hops : patchLabels labels ops fixups = .ok ops') : Inside ops' n := by
  induction fixups generalizing ops with
  | nil => exact Except.ok.inj hops ▸ h
  | cons p fixups ih =>
    obtain ⟨target, htarget, hrest⟩ := patchLabels_cons_eq_ok.mp hops
    exact ih (h.patchJump (hlabels p.2.id target htarget)) hrest

end Inside

/-- An instruction that is appended before its target is known leads to itself. -/
theorem inside_append {m : Builder} (hb : Inside b.ops b.ops.size) (hops : m.ops = b.ops)
    (hop : ∀ d, op.jumpOffset? = some d → d = 0) :
    Inside (m.append op).ops (m.append op).ops.size := by
  rw [ops_append, hops]
  apply hb.push
  intro d hd
  have := hop d hd
  omega

/-- No call makes a jump leave the stream. -/
theorem Step.inside (h : Step b c b') (ht : Traced calls b) (hb : Inside b.ops b.ops.size) :
    Inside b'.ops b'.ops.size := by
  cases h with
  | plain hc => exact inside_append hb rfl (appends_of_op? hc).offset_zero
  | jump hc => exact inside_append hb rfl (appends_of_jump? hc).offset_zero
  | access hc _ => exact inside_append hb rfl (appends_of_access? hc _).offset_zero
  | comprehension hc => exact inside_append hb rfl (appends_of_comprehension? hc).offset_zero
  | forPhrase _ _ _ | filter _ | endComprehension _ | defineFunc _ _ _ | reserve =>
    exact inside_append hb rfl (by simp [jumpOffset?])
  | @endFor f loop hf =>
    -- The loop starts somewhere in the stream, so its last instruction may lead back there.
    obtain ⟨_, _, _, _, hstart, -⟩ := ht.starts f.id loop hf
    have hlt : loop.start < b.ops.size := by
      rw [ht.size]
      exact (List.getElem?_eq_some_iff.mp hstart).1
    have hpush : Inside (b.ops.push (.endForPhrase ((loop.start : Int) - b.ops.size)))
        (b.ops.push (.endForPhrase ((loop.start : Int) - b.ops.size))).size := by
      apply hb.push
      rintro d ⟨⟩
      omega
    rw [size_closeLoop]
    exact hpush.closeLoop (Array.size_push _ ▸ Nat.lt_succ_self _)
  | endFunc _ _ =>
    rw [size_patchJump]
    exact hb.patchJump (Nat.le_refl _)
  | @fill r v _ _ =>
    intro ip op d hop hd
    rw [Array.getElem?_setIfInBounds] at hop
    rw [Array.size_setIfInBounds]
    split at hop
    · split at hop
      · obtain rfl := Option.some.inj hop
        cases hd
      · cases hop
    · exact hb ip op d hop hd
  | _ => exact hb

theorem inside_of_run (h : Backend.run ({ id := id } : Builder) calls = .ok b) :
    Inside b.ops b.ops.size := by
  have key : Traced calls b ∧ Inside b.ops b.ops.size := by
    refine Backend.run_traces (P := fun calls b => Traced calls b ∧ Inside b.ops b.ops.size)
      ⟨traced_fresh id, ?_⟩ ?_ h
    · intro ip op d hop
      simp at hop
    · rintro calls m c m' ⟨ht, hm⟩ hc
      have hstep := (step_eq_ok_iff.mp hc).2
      exact ⟨ht.step hstep, hstep.inside ht hm⟩
  exact key.2

/-- No jump leaves the code, though it may lead to its end. -/
theorem target?_inside (h : assemble id calls = .ok code) {t : Int}
    (ht : code.target? ip = some t) : 0 ≤ t ∧ t ≤ code.ops.length := by
  obtain ⟨b, hrun, -, ops, hops, rfl⟩ := assemble_eq_ok.mp h
  have hlabels : ∀ i target, b.labels.lookup i = some target → target ≤ b.ops.size := by
    intro i target hl
    have htraced := traced_of_run hrun
    obtain ⟨pre, l, post, rfl, -, rfl⟩ := htraced.labels i target hl
    rw [htraced.size, emitted_append, List.length_append]
    exact Nat.le_add_right _ _
  have hinside := (inside_of_run hrun).patchLabels hlabels hops
  rw [← size_patchLabels hops] at hinside
  obtain ⟨d, hd, rfl⟩ := Option.map_eq_some_iff.mp ht
  obtain ⟨op, hop, hd⟩ := Option.bind_eq_some_iff.mp hd
  rw [codeOf, Array.getElem?_toList] at hop
  rw [codeOf, Array.length_toList]
  exact hinside ip op d hop hd

/-! ## What is patched -/

/-- The instructions of a run stand in the code as they were emitted, up to their offsets and to
reserved places. -/
theorem becomes_of_assemble {pre post : List Call} (h : assemble id (pre ++ post) = .ok code) :
    ∃ b, Backend.run ({ id := id } : Builder) pre = .ok b ∧
      ∀ (ip : Nat) (op : Op), b.ops[ip]? = some op →
        ∃ op', code.ops[ip]? = some op' ∧ Becomes op op' := by
  obtain ⟨b', hrun, -, ops, hops, rfl⟩ := assemble_eq_ok.mp h
  obtain ⟨b, hpre, hpost⟩ := Backend.run_append_eq_ok.mp hrun
  refine ⟨b, hpre, fun ip op hop => ?_⟩
  have hexact : PendingExact b := run_pendingExact hpre (pendingExact_fresh id)
  obtain ⟨op₁, hop₁, hfirst⟩ := run_becomes hpost hexact hop
  obtain ⟨op₂, hop₂, hsecond⟩ := exists_becomes_of_map_bare (map_bare_patchLabels hops) hop₁
  refine ⟨op₂, ?_, hfirst.trans hsecond⟩
  rw [codeOf, Array.getElem?_toList]
  exact hop₂

/-! ## The finished code -/

/-- **Every jump is led to its target.** In finished code of fewer than `2 ^ 31` instructions

* a jump to a label leads to the place where the label was put, before or after the jump;
* a loop has an end, the first one with its number; the loop leads behind the end, the end back to
  the loop, and every filter in between to the end;
* every jump leads to a place of the code or to its very end;
* what was emitted stands in its place, and only offsets and reserved places have changed. -/
theorem jumpTargets_of_assemble (h : assemble id calls = .ok code)
    (hsize : (emitted calls).length < 2 ^ 31) :
    (∀ pre c post l op, calls = pre ++ c :: post → c.jump? = some (l, op) →
      (∃ l', .label l' ∈ calls ∧ l'.id = l.id) ∧
      ∀ pre' l' post', calls = pre' ++ .label l' :: post' → l'.id = l.id →
        code.target? (emitted pre).length = some (emitted pre').length) ∧
    (∀ pre f key val hasContext rest, calls = pre ++ .forPhrase f key val hasContext :: rest →
      ∃ mid g post body, rest = mid ++ .endForPhrase g :: post ∧ g.id = f.id ∧
        (∀ c ∈ mid, c.endsFor f.id = false) ∧
        body = pre ++ .forPhrase f key val hasContext :: mid ∧
        code.target? (emitted pre).length = some ((emitted body).length + 1 : Nat) ∧
        code.target? (emitted body).length = some (emitted pre).length ∧
        ∀ before k after, mid = before ++ .filterForPhrase k :: after → k.id = f.id →
          code.target? (emitted (pre ++ .forPhrase f key val hasContext :: before)).length =
            some (emitted body).length) ∧
    (∀ ip t, code.target? ip = some t → 0 ≤ t ∧ t ≤ code.ops.length) ∧
    ∀ pre post, calls = pre ++ post → ∃ b, Backend.run ({ id := id } : Builder) pre = .ok b ∧
      ∀ (ip : Nat) (op : Op), b.ops[ip]? = some op →
        ∃ op', code.ops[ip]? = some op' ∧ Becomes op op' := by
  refine ⟨?_, ?_, fun ip t => target?_inside h, ?_⟩
  · intro pre c post l op hcalls hc
    exact target?_label h hsize hcalls hc
  · intro pre f key val hasContext rest hcalls
    obtain ⟨b, hrun, hcomplete, -⟩ := assemble_eq_ok.mp h
    obtain ⟨mid, g, post, hrest, hg, hmid⟩ := exists_endFor (hcalls ▸ hrun) hcomplete.fors
    have hbody : calls = (pre ++ .forPhrase f key val hasContext :: mid) ++
        .endForPhrase g :: post := by
      rw [hcalls, hrest, List.append_assoc, List.cons_append]
    exact ⟨mid, g, post, _, hrest, hg, hmid, rfl, target?_loop h hsize rfl hbody hg hmid⟩
  · rintro pre post rfl
    exact becomes_of_assemble h

/-- A loop with a filter that is started twice under one number, with a jump out of the first one
and a jump back in front of both. -/
def twoLoops : List Call :=
  let loop : ForPhrase := ⟨4, .slice (.basic .string)⟩
  [.label ⟨1, "again"⟩, .forPhrase loop none none true, .push (.bool true), .filterForPhrase loop,
    .jump ⟨2, "out"⟩, .endForPhrase loop, .label ⟨2, "out"⟩, .forPhrase loop none none true,
    .endForPhrase loop, .push (.bool false), .jumpIf false ⟨1, "again"⟩]

def twoLoopsCode : Code :=
  { ops :=
      [.forPhrase none none true 5, .push (.bool true), .filterForPhrase 2, .jump 2,
        .endForPhrase (-4), .forPhrase none none true 2, .endForPhrase (-1), .push (.bool false),
        .jumpIf false (-8)]
    funcs := [], spans := [], numVars := 0 }

theorem jumpTargets_twoLoops :
    assemble 0 twoLoops = .ok twoLoopsCode ∧ (emitted twoLoops).length < 2 ^ 31 ∧
      twoLoopsCode.target? 8 = some 0 ∧ twoLoopsCode.target? 3 = some 5 := by
  have hcode : assemble 0 twoLoops = .ok twoLoopsCode := eq_ok_of_toOption (by decide +kernel)
  have hsize : (emitted twoLoops).length < 2 ^ 31 := by decide
  have hlabels := (jumpTargets_of_assemble hcode hsize).1
  refine ⟨hcode, hsize, ?_, ?_⟩
  · exact (hlabels (twoLoops.take 10) _ [] _ _ rfl rfl).2 [] ⟨1, "again"⟩ _ rfl rfl
  · exact (hlabels (twoLoops.take 4) _ _ _ _ rfl rfl).2 (twoLoops.take 6) ⟨2, "out"⟩ _ rfl rfl

end Builder

end Bytecode

end Lowering
