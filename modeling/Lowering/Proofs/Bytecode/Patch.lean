import Lowering.Proofs.Bytecode.Step

/-!
# Patching jumps

Three functions change instructions that already stand in the stream: `patchJump` leads one jump to
its target, `closeLoop` the jumps of a loop, `patchLabels` the jumps to labels. Each is described
place by place: a place that it does not name keeps its instruction, and a place that it names gets
the offset to the target.

None of them changes anything but offsets. `Op.bare` blanks the offset of an instruction, and the
bare stream is the same before and after (`map_bare_patchJump`, `map_bare_closeLoop`,
`map_bare_patchLabels`).
-/

namespace Lowering.Bytecode

namespace Op

/-- The instruction with its offset blanked. -/
def bare (op : Op) : Op := op.withJumpOffset 0

/-- Of two offsets the last one counts. -/
@[simp] theorem withJumpOffset_withJumpOffset (op : Op) (d e : Int) :
    (op.withJumpOffset d).withJumpOffset e = op.withJumpOffset e := by
  cases op <;> rfl

/-- Without its offset, an instruction is what it was. -/
@[simp] theorem bare_withJumpOffset (op : Op) (d : Int) : (op.withJumpOffset d).bare = op.bare :=
  withJumpOffset_withJumpOffset op d 0

/-- Only jumps get an offset. -/
theorem jumpOffset?_withJumpOffset (op : Op) (d : Int) :
    (op.withJumpOffset d).jumpOffset? = op.jumpOffset?.map fun _ => d := by
  cases op <;> rfl

/-- Places below the limit of an offset are within reach of each other. -/
theorem fitsOffset_of_lt {ip target : Nat} (hip : ip < 2 ^ 31) (htarget : target < 2 ^ 31) :
    fitsOffset ((target : Int) - ip) = true := by
  simp only [fitsOffset, Bool.and_eq_true, decide_eq_true_eq]
  omega

/-! ## One jump -/

variable {ops ops' : Array Op} {ip target i : Nat}

/-- A jump that would be too far is left as it is. -/
theorem patchJump_eq :
    patchJump ops ip target =
      if fitsOffset ((target : Int) - ip) then ops.modify ip (withJumpOffset ((target : Int) - ip))
      else ops :=
  rfl

@[simp] theorem size_patchJump : (patchJump ops ip target).size = ops.size := by
  rw [patchJump_eq]
  split <;> simp

theorem getElem?_patchJump_of_ne (h : i ≠ ip) : (patchJump ops ip target)[i]? = ops[i]? := by
  rw [patchJump_eq]
  split
  · rw [Array.getElem?_modify, if_neg (Ne.symm h)]
  · rfl

theorem getElem?_patchJump_self (hfits : fitsOffset ((target : Int) - ip) = true) :
    (patchJump ops ip target)[ip]? = ops[ip]?.map (withJumpOffset ((target : Int) - ip)) := by
  rw [patchJump_eq, if_pos hfits, Array.getElem?_modify, if_pos rfl]

/-- A change of the stream that goes with every change of an offset goes with patching. -/
theorem mapIdx_patchJump {g : Nat → Op → Op}
    (hg : ∀ i op d, g i (op.withJumpOffset d) = (g i op).withJumpOffset d) :
    (patchJump ops ip target).mapIdx g = patchJump (ops.mapIdx g) ip target := by
  apply Array.ext_getElem?
  intro i
  by_cases hfits : fitsOffset ((target : Int) - ip) = true
  · by_cases hi : i = ip
    · subst hi
      rw [getElem?_patchJump_self hfits, Array.getElem?_mapIdx, Array.getElem?_mapIdx,
        getElem?_patchJump_self hfits, Option.map_map, Option.map_map]
      congr 1
      funext op
      exact hg i op _
    · rw [getElem?_patchJump_of_ne hi, Array.getElem?_mapIdx, Array.getElem?_mapIdx,
        getElem?_patchJump_of_ne hi]
  · rw [patchJump_eq, patchJump_eq, if_neg hfits, if_neg hfits]

/-- Patching changes offsets only. -/
theorem map_bare_patchJump : (patchJump ops ip target).map bare = ops.map bare := by
  rw [patchJump_eq]
  split
  · apply Array.ext_getElem?
    intro i
    rw [Array.getElem?_map, Array.getElem?_map, Array.getElem?_modify]
    split
    · rw [Option.map_map]
      congr 1
      funext op
      exact bare_withJumpOffset op _
    · rfl
  · rfl

/-! ## Several jumps to one target -/

/-- Leads every jump of a list to one target. -/
def patchAll (ops : Array Op) (ips : List Nat) (target : Nat) : Array Op :=
  ips.foldl (fun ops ip => patchJump ops ip target) ops

variable {ips : List Nat}

@[simp] theorem patchAll_cons :
    patchAll ops (ip :: ips) target = patchAll (patchJump ops ip target) ips target :=
  rfl

@[simp] theorem size_patchAll : (patchAll ops ips target).size = ops.size := by
  induction ips generalizing ops with
  | nil => rfl
  | cons ip ips ih => rw [patchAll_cons, ih, size_patchJump]

/-- Whatever leaves offsets alone may be done before patching or after it. -/
theorem mapIdx_patchAll {g : Nat → Op → Op}
    (hg : ∀ i op d, g i (op.withJumpOffset d) = (g i op).withJumpOffset d) :
    (patchAll ops ips target).mapIdx g = patchAll (ops.mapIdx g) ips target := by
  induction ips generalizing ops with
  | nil => rfl
  | cons ip ips ih => rw [patchAll_cons, patchAll_cons, ih, mapIdx_patchJump hg]

theorem map_bare_patchAll : (patchAll ops ips target).map bare = ops.map bare := by
  induction ips generalizing ops with
  | nil => rfl
  | cons ip ips ih => rw [patchAll_cons, ih, map_bare_patchJump]

/-- Instructions that are not patched stay as they are. -/
theorem getElem?_patchAll_of_not_mem (h : i ∉ ips) : (patchAll ops ips target)[i]? = ops[i]? := by
  induction ips generalizing ops with
  | nil => rfl
  | cons ip ips ih =>
    rw [List.mem_cons, not_or] at h
    rw [patchAll_cons, ih h.2, getElem?_patchJump_of_ne h.1]

/-- Every instruction that is patched leads to the target, though it may be listed more than
once. -/
theorem getElem?_patchAll_of_mem (h : i ∈ ips)
    (hfits : fitsOffset ((target : Int) - i) = true) :
    (patchAll ops ips target)[i]? = ops[i]?.map (withJumpOffset ((target : Int) - i)) := by
  induction ips generalizing ops with
  | nil => cases h
  | cons ip ips ih =>
    rw [patchAll_cons]
    -- A place that comes again later is patched again, to the same offset.
    by_cases hi : i ∈ ips
    · rw [ih hi]
      by_cases he : i = ip
      · subst he
        rw [getElem?_patchJump_self hfits, Option.map_map]
        congr 1
        funext op
        exact withJumpOffset_withJumpOffset op _ _
      · rw [getElem?_patchJump_of_ne he]
    · obtain rfl : i = ip := (List.mem_cons.mp h).resolve_right hi
      rw [getElem?_patchAll_of_not_mem hi, getElem?_patchJump_self hfits]

end Op

namespace Builder

open Op

/-! ## The jumps of a loop -/

variable {ops ops' : Array Op} {loop : OpenFor} {last i : Nat}

/-- A filter leads to the end of the round, and the start of the loop leads behind it. -/
theorem closeLoop_eq :
    closeLoop ops loop last =
      patchJump (patchAll ops loop.filters last) loop.start (last + 1) :=
  rfl

@[simp] theorem size_closeLoop : (closeLoop ops loop last).size = ops.size := by
  rw [closeLoop_eq, size_patchJump, size_patchAll]

/-- Closing a loop changes offsets only. -/
theorem map_bare_closeLoop : (closeLoop ops loop last).map bare = ops.map bare := by
  rw [closeLoop_eq, map_bare_patchJump, map_bare_patchAll]

theorem mapIdx_closeLoop {g : Nat → Op → Op}
    (hg : ∀ i op d, g i (op.withJumpOffset d) = (g i op).withJumpOffset d) :
    (closeLoop ops loop last).mapIdx g = closeLoop (ops.mapIdx g) loop last := by
  rw [closeLoop_eq, closeLoop_eq, mapIdx_patchJump hg, mapIdx_patchAll hg]

theorem getElem?_closeLoop_of_not_mem (hstart : i ≠ loop.start) (hfilters : i ∉ loop.filters) :
    (closeLoop ops loop last)[i]? = ops[i]? := by
  rw [closeLoop_eq, getElem?_patchJump_of_ne hstart, getElem?_patchAll_of_not_mem hfilters]

theorem getElem?_closeLoop_filter (hstart : i ≠ loop.start) (hfilters : i ∈ loop.filters)
    (hfits : fitsOffset ((last : Int) - i) = true) :
    (closeLoop ops loop last)[i]? = ops[i]?.map (withJumpOffset ((last : Int) - i)) := by
  rw [closeLoop_eq, getElem?_patchJump_of_ne hstart, getElem?_patchAll_of_mem hfilters hfits]

/-- The start of a loop is not one of its filters. -/
theorem getElem?_closeLoop_start (hfilters : loop.start ∉ loop.filters)
    (hfits : fitsOffset (((last + 1 : Nat) : Int) - loop.start) = true) :
    (closeLoop ops loop last)[loop.start]? =
      ops[loop.start]?.map (withJumpOffset (((last + 1 : Nat) : Int) - loop.start)) := by
  rw [closeLoop_eq, getElem?_patchJump_self hfits, getElem?_patchAll_of_not_mem hfilters]

/-! ## The jumps to labels -/

variable {labels : List (Nat × Nat)} {fixups : List (Nat × Label)}

/-- Labels are looked up one by one, and each has to be there. -/
theorem patchLabels_cons_eq_ok {ip : Nat} {l : Label} :
    patchLabels labels ops ((ip, l) :: fixups) = .ok ops' ↔ ∃ target,
      labels.lookup l.id = some target ∧
        patchLabels labels (patchJump ops ip target) fixups = .ok ops' := by
  rw [patchLabels]
  cases labels.lookup l.id <;> simp

/-- Every jump has found its label. -/
theorem lookup_of_patchLabels (h : patchLabels labels ops fixups = .ok ops') :
    ∀ p ∈ fixups, ∃ target, labels.lookup p.2.id = some target := by
  induction fixups generalizing ops with
  | nil => simp
  | cons p fixups ih =>
    obtain ⟨target, ht, hrest⟩ := patchLabels_cons_eq_ok.mp h
    intro q hq
    rcases List.mem_cons.mp hq with rfl | hq
    · exact ⟨target, ht⟩
    · exact ih hrest q hq

theorem size_patchLabels (h : patchLabels labels ops fixups = .ok ops') :
    ops'.size = ops.size := by
  induction fixups generalizing ops with
  | nil => rw [← Except.ok.inj h]
  | cons p fixups ih =>
    obtain ⟨target, -, hrest⟩ := patchLabels_cons_eq_ok.mp h
    rw [ih hrest, size_patchJump]

/-- By induction on the jumps that wait for labels. -/
theorem map_bare_patchLabels (h : patchLabels labels ops fixups = .ok ops') :
    ops'.map bare = ops.map bare := by
  induction fixups generalizing ops with
  | nil => rw [← Except.ok.inj h]
  | cons p fixups ih =>
    obtain ⟨target, -, hrest⟩ := patchLabels_cons_eq_ok.mp h
    rw [ih hrest, map_bare_patchJump]

theorem getElem?_patchLabels_of_not_mem (h : patchLabels labels ops fixups = .ok ops')
    (hi : ∀ p ∈ fixups, p.1 ≠ i) : ops'[i]? = ops[i]? := by
  induction fixups generalizing ops with
  | nil => rw [← Except.ok.inj h]
  | cons p fixups ih =>
    obtain ⟨target, -, hrest⟩ := patchLabels_cons_eq_ok.mp h
    rw [ih hrest (fun q hq => hi q (List.mem_cons_of_mem p hq)),
      getElem?_patchJump_of_ne (Ne.symm (hi p List.mem_cons_self))]

/-- A jump whose label is at `target` leads there. -/
theorem getElem?_patchLabels_of_mem {target : Nat} (h : patchLabels labels ops fixups = .ok ops')
    (hmem : ∃ p ∈ fixups, p.1 = i)
    (htarget : ∀ p ∈ fixups, p.1 = i → labels.lookup p.2.id = some target)
    (hfits : fitsOffset ((target : Int) - i) = true) :
    ops'[i]? = ops[i]?.map (withJumpOffset ((target : Int) - i)) := by
  induction fixups generalizing ops with
  | nil => simp at hmem
  | cons p fixups ih =>
    obtain ⟨t, ht, hrest⟩ := patchLabels_cons_eq_ok.mp h
    have htail : ∀ q ∈ fixups, q.1 = i → labels.lookup q.2.id = some target :=
      fun q hq => htarget q (List.mem_cons_of_mem p hq)
    by_cases hlater : ∃ q ∈ fixups, q.1 = i
    · rw [ih hrest hlater htail]
      by_cases hp : p.1 = i
      · have hpt : t = target :=
          Option.some.inj (ht.symm.trans (htarget p List.mem_cons_self hp))
        rw [hpt, hp, getElem?_patchJump_self hfits, Option.map_map]
        congr 1
        funext op
        exact withJumpOffset_withJumpOffset op _ _
      · rw [getElem?_patchJump_of_ne (Ne.symm hp)]
    · have hp : p.1 = i := by
        obtain ⟨q, hq, hqi⟩ := hmem
        rcases List.mem_cons.mp hq with rfl | hq
        · exact hqi
        · exact absurd ⟨q, hq, hqi⟩ hlater
      have hpt : t = target :=
        Option.some.inj (ht.symm.trans (htarget p List.mem_cons_self hp))
      rw [getElem?_patchLabels_of_not_mem hrest fun q hq hqi => hlater ⟨q, hq, hqi⟩, hpt, hp,
        getElem?_patchJump_self hfits]

end Builder

end Lowering.Bytecode
