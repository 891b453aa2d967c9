import Lowering.Proofs.Bytecode.Stream

/-!
# Places that are still to be patched

While a run goes on, three things point back into the stream: open function bodies to the jump over
them, open loops to their start and their filters, and the list of jumps to labels. A place that
none of the first two names, and that is not reserved, is `Fixed`: no later call changes it, so it
stays as it is up to `resolve` (`Step.fixed`, `run_fixed`).

`Traced calls b` says where these places come from: each of them is the place of the call that
opened what points to it. So places that different calls opened never coincide, however bodies,
loops and labels are interleaved.
-/

namespace Lowering.Bytecode.Builder

open Op

/-! ## Open loops -/

section Loops

variable {fors : List (Nat × OpenFor)} {id id' ip : Nat}

theorem lookup_noteFilter :
    (noteFilter id ip fors).lookup id' =
      if id' = id then
        (fors.lookup id').map fun loop => { loop with filters := loop.filters ++ [ip] }
      else fors.lookup id' := by
  induction fors with
  | nil => simp [noteFilter]
  | cons p fors ih =>
    obtain ⟨i, loop⟩ := p
    rw [noteFilter]
    by_cases hi : i = id
    · subst hi
      rw [if_pos rfl]
      by_cases hid : id' = i
      · simp [hid]
      · simp [List.lookup_cons, hid, beq_eq_false_iff_ne.mpr hid]
    · rw [if_neg hi]
      by_cases hid : id' = i
      · subst hid
        simp [hi]
      · simp [List.lookup_cons, beq_eq_false_iff_ne.mpr hid, ih]

theorem lookup_filter_ne :
    (fors.filter (·.1 ≠ id)).lookup id' = if id' = id then none else fors.lookup id' := by
  induction fors with
  | nil => simp
  | cons p fors ih =>
    obtain ⟨i, loop⟩ := p
    by_cases hi : i = id
    · subst hi
      rw [List.filter_cons_of_neg (by simp), ih]
      by_cases hid : id' = i
      · simp [hid]
      · simp [List.lookup_cons, beq_eq_false_iff_ne.mpr hid]
    · rw [List.filter_cons_of_pos (by simpa using hi)]
      by_cases hid : id' = i
      · subst hid
        simp [hi]
      · simp only [List.lookup_cons, beq_eq_false_iff_ne.mpr hid, ih]

end Loops

variable {b b' : Builder} {c : Call} {calls rest : List Call} {op : Op} {ip : Nat}

/-! ## What one call adds -/

theorem Step.mem_pending (h : Step b c b') (hip : ip ∈ b'.pending) :
    ip ∈ b.pending ∨ ip = b.ops.size ∧ c = .reserve := by
  cases h with
  | reserve =>
    rcases List.mem_cons.mp hip with he | hip
    · exact .inr ⟨he, rfl⟩
    · exact .inl hip
  | fill _ _ => exact .inl (List.mem_filter.mp hip).1
  | _ => exact .inl hip

theorem Step.mem_bodies {body : Body} (h : Step b c b') (hbody : body ∈ b'.bodies) :
    (∃ old ∈ b.bodies, old.skip = body.skip ∧ old.func = body.func) ∨
      body.skip = b.ops.size ∧ ∃ f, c = .defineFunc f ∧ f.id = body.func := by
  cases h with
  | @defineFunc f vars _ _ _ =>
    rcases List.mem_cons.mp hbody with rfl | hbody
    · exact .inr ⟨rfl, f, rfl, rfl⟩
    · exact .inl ⟨body, hbody, rfl, rfl⟩
  | endFunc hb _ => exact .inl ⟨body, hb ▸ List.mem_cons_of_mem _ hbody, rfl, rfl⟩
  | @defineLocals vs inner outer vars hb _ =>
    rcases List.mem_cons.mp hbody with rfl | hbody
    · exact .inl ⟨inner, hb ▸ List.mem_cons_self, rfl, rfl⟩
    · exact .inl ⟨body, hb ▸ List.mem_cons_of_mem _ hbody, rfl, rfl⟩
  | _ => exact .inl ⟨body, hbody, rfl, rfl⟩

theorem Step.mem_fixups {p : Nat × Label} (h : Step b c b') (hp : p ∈ b'.fixups) :
    p ∈ b.fixups ∨ p.1 = b.ops.size ∧ ∃ op, c.jump? = some (p.2, op) := by
  cases h with
  | @jump c l op hc =>
    rcases Array.mem_push.mp hp with hp | rfl
    · exact .inl hp
    · exact .inr ⟨rfl, op, hc⟩
  | _ => exact .inl hp

theorem Step.lookup_labels {i target : Nat} (h : Step b c b')
    (hl : b'.labels.lookup i = some target) :
    b.labels.lookup i = some target ∨ target = b.ops.size ∧ ∃ l, c = .label l ∧ l.id = i := by
  cases h with
  | @label l hnone =>
    have hl' : List.lookup i ((l.id, b.ops.size) :: b.labels) = some target := hl
    by_cases hi : i = l.id
    · subst hi
      rw [List.lookup_cons_self] at hl'
      exact .inr ⟨(Option.some.inj hl').symm, l, rfl, rfl⟩
    · rw [List.lookup_cons, beq_eq_false_iff_ne.mpr hi] at hl'
      exact .inl hl'
  | _ => exact .inl hl

/-- An open loop was open before, or starts now, or has one filter more. -/
theorem Step.lookup_fors {id : Nat} {loop : OpenFor} (h : Step b c b')
    (hloop : b'.fors.lookup id = some loop) :
    b.fors.lookup id = some loop ∨
      (loop = { start := b.ops.size } ∧
        ∃ f key val hasContext, c = .forPhrase f key val hasContext ∧ f.id = id) ∨
      ∃ old, b.fors.lookup id = some old ∧
        loop = { old with filters := old.filters ++ [b.ops.size] } ∧
        ∃ f, c = .filterForPhrase f ∧ f.id = id := by
  cases h with
  | @forPhrase f key val hasContext k v hk hv hf =>
    have hloop' : List.lookup id (b.fors ++ [(f.id, { start := b.ops.size })]) = some loop := hloop
    rw [List.lookup_append] at hloop'
    cases hid : b.fors.lookup id with
    | some old =>
      rw [hid] at hloop'
      exact .inl hloop'
    | none =>
      rw [hid, Option.none_or] at hloop'
      by_cases he : id = f.id
      · subst he
        rw [List.lookup_cons_self] at hloop'
        exact .inr (.inl ⟨(Option.some.inj hloop').symm, f, key, val, hasContext, rfl, rfl⟩)
      · simp [List.lookup_cons, beq_eq_false_iff_ne.mpr he] at hloop'
  | @filter f hf =>
    have hloop' : (noteFilter f.id b.ops.size b.fors).lookup id = some loop := hloop
    rw [lookup_noteFilter] at hloop'
    split at hloop'
    · next he =>
      obtain ⟨old, hold, hnew⟩ := Option.map_eq_some_iff.mp hloop'
      exact .inr (.inr ⟨old, hold, hnew.symm, f, rfl, he.symm⟩)
    · exact .inl hloop'
  | @endFor f old hf =>
    have hloop' : (b.fors.filter (·.1 ≠ f.id)).lookup id = some loop := hloop
    rw [lookup_filter_ne] at hloop'
    split at hloop'
    · cases hloop'
    · exact .inl hloop'
  | _ => exact .inl hloop

/-! ## Fixed places -/

/-- A place that an open loop points to: its start or one of its filters. -/
def LoopSite (b : Builder) (ip : Nat) : Prop :=
  ∃ id loop, b.fors.lookup id = some loop ∧ (loop.start = ip ∨ ip ∈ loop.filters)

/-- A place that no call changes any more. -/
structure Fixed (b : Builder) (ip : Nat) : Prop where
  pending : ip ∉ b.pending
  bodies : ∀ body ∈ b.bodies, body.skip ≠ ip
  loops : ¬ LoopSite b ip

/-- Among the places that were there before, a call opens none. -/
theorem Step.loopSite (h : Step b c b') (hip : ip < b.ops.size) (hsite : LoopSite b' ip) :
    LoopSite b ip := by
  obtain ⟨id, loop, hloop, hat⟩ := hsite
  rcases h.lookup_fors hloop with hold | ⟨rfl, -⟩ | ⟨old, hold, rfl, -⟩
  · exact ⟨id, loop, hold, hat⟩
  · rcases hat with hat | hat
    · exact absurd hat.symm (Nat.ne_of_lt hip)
    · cases hat
  · rcases hat with hat | hat
    · exact ⟨id, old, hold, .inl hat⟩
    · rcases List.mem_append.mp hat with hat | hat
      · exact ⟨id, old, hold, .inr hat⟩
      · exact absurd (List.mem_singleton.mp hat) (Nat.ne_of_lt hip)

theorem Step.fixed (h : Step b c b') (hip : ip < b.ops.size) (hf : Fixed b ip) : Fixed b' ip where
  pending hp := by
    rcases h.mem_pending hp with hp | ⟨hp, -⟩
    · exact hf.pending hp
    · exact Nat.ne_of_lt hip hp
  bodies body hbody hskip := by
    rcases h.mem_bodies hbody with ⟨old, hold, hs, -⟩ | ⟨hs, -⟩
    · exact hf.bodies old hold (hs.trans hskip)
    · exact Nat.ne_of_lt hip (hskip.symm.trans hs)
  loops hsite := hf.loops (h.loopSite hip hsite)

theorem getElem?_push_of_lt {ops : Array Op} {new : Op} (hip : ip < ops.size) :
    (ops.push new)[ip]? = ops[ip]? := by
  rw [Array.getElem?_push, if_neg (Nat.ne_of_lt hip)]

/-- A call leaves the instruction at a fixed place alone. -/
theorem Step.getElem?_of_fixed (h : Step b c b') (hip : ip < b.ops.size) (hf : Fixed b ip) :
    b'.ops[ip]? = b.ops[ip]? := by
  cases h with
  | plain _ | jump _ | access _ _ | comprehension _ | forPhrase _ _ _ | filter _
  | endComprehension _ | defineFunc _ _ _ | reserve => exact getElem?_push_of_lt hip
  | @endFor f loop hloop =>
    have hstart : ip ≠ loop.start := fun he => hf.loops ⟨f.id, loop, hloop, .inl he.symm⟩
    have hfilters : ip ∉ loop.filters := fun hm => hf.loops ⟨f.id, loop, hloop, .inr hm⟩
    exact (getElem?_closeLoop_of_not_mem hstart hfilters).trans (getElem?_push_of_lt hip)
  | @endFunc f body outer hb _ =>
    have hskip : body.skip ≠ ip := hf.bodies body (hb ▸ List.mem_cons_self)
    exact getElem?_patchJump_of_ne hskip.symm
  | @fill r v _ hp =>
    have hne : r.position ≠ ip := fun he => hf.pending (he ▸ hp)
    exact Array.getElem?_setIfInBounds_ne hne
  | _ => rfl

/-- A run leaves the instruction at a fixed place alone. -/
theorem run_fixed (h : Backend.run b calls = .ok b') (hip : ip < b.ops.size) (hf : Fixed b ip) :
    b'.ops[ip]? = b.ops[ip]? := by
  induction calls generalizing b with
  | nil => rw [Backend.run_nil_eq_ok.mp h]
  | cons c calls ih =>
    obtain ⟨m, hc, hrest⟩ := Backend.run_cons_eq_ok.mp h
    have hstep := (step_eq_ok_iff.mp hc).2
    have hlt : ip < m.ops.size := Nat.lt_of_lt_of_le hip (hstep.size_ops ▸ Nat.le_add_right _ _)
    rw [ih hrest hlt (hstep.fixed hip hf), hstep.getElem?_of_fixed hip hf]

/-! ## Where places come from -/

/-- Every place that something points to is that of the call which made it point there. -/
structure Traced (calls : List Call) (b : Builder) : Prop where
  size : b.ops.size = (emitted calls).length
  pending : ∀ ip ∈ b.pending, (emitted calls)[ip]? = some .reserve
  bodies : ∀ body ∈ b.bodies, ∃ f, (emitted calls)[body.skip]? = some (.defineFunc f) ∧
    f.id = body.func
  fixups : ∀ p ∈ b.fixups, ∃ c op, (emitted calls)[p.1]? = some c ∧ c.jump? = some (p.2, op)
  labels : ∀ i target, b.labels.lookup i = some target → ∃ pre l post,
    calls = pre ++ .label l :: post ∧ l.id = i ∧ target = (emitted pre).length
  starts : ∀ id loop, b.fors.lookup id = some loop → ∃ f key val hasContext,
    (emitted calls)[loop.start]? = some (.forPhrase f key val hasContext) ∧ f.id = id
  filters : ∀ id loop, b.fors.lookup id = some loop → ∀ ip ∈ loop.filters, ∃ f,
    (emitted calls)[ip]? = some (.filterForPhrase f) ∧ f.id = id

theorem getElem?_emitted_append {e : Call} (h : (emitted calls)[ip]? = some e) :
    (emitted (calls ++ rest))[ip]? = some e := by
  rw [emitted_append, List.getElem?_append_left (List.getElem?_eq_some_iff.mp h).1, h]

/-- The instruction of a call stands behind those emitted before it. -/
theorem getElem?_emitted_at {pre post : List Call} (hc : c.emits = true) :
    (emitted (pre ++ c :: post))[(emitted pre).length]? = some c := by
  rw [emitted_append, emitted_cons, emitted_singleton, if_pos hc]
  simp

theorem getElem?_emitted_snoc (hsize : ip = (emitted calls).length) (hc : c.emits = true) :
    (emitted (calls ++ [c]))[ip]? = some c :=
  hsize ▸ getElem?_emitted_at hc

theorem traced_fresh (id : Nat) : Traced [] { id := id } where
  size := rfl
  pending := nofun
  bodies := nofun
  fixups := nofun
  labels := nofun
  starts := nofun
  filters := nofun

theorem Traced.step (ht : Traced calls b) (h : Step b c b') : Traced (calls ++ [c]) b' where
  size := by rw [h.size_ops, ht.size, emitted_append, List.length_append]
  pending ip hip := by
    rcases h.mem_pending hip with hip | ⟨rfl, rfl⟩
    · exact getElem?_emitted_append (ht.pending ip hip)
    · exact getElem?_emitted_snoc ht.size rfl
  bodies body hbody := by
    rcases h.mem_bodies hbody with ⟨old, hold, hskip, hfunc⟩ | ⟨hskip, f, rfl, hfunc⟩
    · obtain ⟨f, hf, hid⟩ := ht.bodies old hold
      exact ⟨f, getElem?_emitted_append (hskip ▸ hf), hid.trans hfunc⟩
    · exact ⟨f, getElem?_emitted_snoc (hskip.trans ht.size) rfl, hfunc⟩
  fixups p hp := by
    rcases h.mem_fixups hp with hp | ⟨hip, op, hjump⟩
    · obtain ⟨e, op, he, hjump⟩ := ht.fixups p hp
      exact ⟨e, op, getElem?_emitted_append he, hjump⟩
    · exact ⟨c, op, getElem?_emitted_snoc (hip.trans ht.size) (appends_of_jump? hjump).emits, hjump⟩
  labels i target hl := by
    rcases h.lookup_labels hl with hl | ⟨htarget, l, rfl, hi⟩
    · obtain ⟨pre, l, post, rfl, hi, htarget⟩ := ht.labels i target hl
      exact ⟨pre, l, post ++ [c], by simp, hi, htarget⟩
    · exact ⟨calls, l, [], rfl, hi, htarget.trans ht.size⟩
  starts id loop hloop := by
    rcases h.lookup_fors hloop with hold | ⟨rfl, f, key, val, hasContext, rfl, hid⟩ |
      ⟨old, hold, rfl, -⟩
    · obtain ⟨f, key, val, hasContext, hf, hid⟩ := ht.starts id loop hold
      exact ⟨f, key, val, hasContext, getElem?_emitted_append hf, hid⟩
    · exact ⟨f, key, val, hasContext, getElem?_emitted_snoc ht.size rfl, hid⟩
    · obtain ⟨f, key, val, hasContext, hf, hid⟩ := ht.starts id old hold
      exact ⟨f, key, val, hasContext, getElem?_emitted_append hf, hid⟩
  filters id loop hloop ip hip := by
    rcases h.lookup_fors hloop with hold | ⟨rfl, -⟩ | ⟨old, hold, rfl, f, rfl, hid⟩
    · obtain ⟨f, hf, hid⟩ := ht.filters id loop hold ip hip
      exact ⟨f, getElem?_emitted_append hf, hid⟩
    · cases hip
    · rcases List.mem_append.mp hip with hip | hip
      · obtain ⟨f, hf, hid⟩ := ht.filters id old hold ip hip
        exact ⟨f, getElem?_emitted_append hf, hid⟩
      · have hsize : ip = (emitted calls).length := (List.mem_singleton.mp hip).trans ht.size
        exact ⟨f, getElem?_emitted_snoc hsize rfl, hid⟩

theorem traced_of_run {id : Nat} (h : Backend.run ({ id := id } : Builder) calls = .ok b) :
    Traced calls b :=
  Backend.run_traces (traced_fresh id)
    (fun _ _ _ _ ht hc => ht.step (step_eq_ok_iff.mp hc).2) h

/-- A place is fixed once what its call has opened is closed. -/
theorem Traced.fixed {e : Call} (ht : Traced calls b) (he : (emitted calls)[ip]? = some e)
    (hreserve : e ≠ .reserve)
    (hfunc : ∀ f, e = .defineFunc f → ∀ body ∈ b.bodies, body.func ≠ f.id)
    (hfor : ∀ f key val hasContext, e = .forPhrase f key val hasContext →
      b.fors.lookup f.id = none)
    (hfilter : ∀ f, e = .filterForPhrase f → b.fors.lookup f.id = none) : Fixed b ip where
  pending hp := hreserve (Option.some.inj (he.symm.trans (ht.pending ip hp)))
  bodies body hbody hskip := by
    obtain ⟨f, hf, hid⟩ := ht.bodies body hbody
    rw [hskip, he] at hf
    exact hfunc f (Option.some.inj hf) body hbody hid.symm
  loops hsite := by
    obtain ⟨id, loop, hloop, rfl | hip⟩ := hsite
    · obtain ⟨f, key, val, hasContext, hf, rfl⟩ := ht.starts id loop hloop
      rw [he] at hf
      have hnone := hfor f key val hasContext (Option.some.inj hf)
      rw [hnone] at hloop
      cases hloop
    · obtain ⟨f, hf, rfl⟩ := ht.filters id loop hloop ip hip
      rw [he] at hf
      have hnone := hfilter f (Option.some.inj hf)
      rw [hnone] at hloop
      cases hloop

/-- A run taken apart at one call. -/
theorem run_split {id : Nat} {pre post : List Call}
    (h : Backend.run ({ id := id } : Builder) (pre ++ c :: post) = .ok b') :
    ∃ m m', Traced pre m ∧ PendingExact m ∧ m.step c = .ok m' ∧ Traced (pre ++ [c]) m' ∧
      PendingExact m' ∧ Backend.run m' post = .ok b' := by
  obtain ⟨m, hpre, hrest⟩ := Backend.run_append_eq_ok.mp h
  obtain ⟨m', hc, hpost⟩ := Backend.run_cons_eq_ok.mp hrest
  have hstep := (step_eq_ok_iff.mp hc).2
  have ht := traced_of_run hpre
  have hexact := run_pendingExact hpre (pendingExact_fresh id)
  exact ⟨m, m', ht, hexact, hc, ht.step hstep, hstep.pendingExact hexact, hpost⟩

end Lowering.Bytecode.Builder
