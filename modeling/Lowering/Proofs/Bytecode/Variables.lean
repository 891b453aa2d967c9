import Mathlib.Logic.Function.Basic
import Lowering.Proofs.Bytecode.Functions
import Lowering.Proofs.Bytecode.Sites

/-!
# Where variables live

A reference to a variable counts frames outward from the body that is open when it is emitted. In
finished code it is read against the function table: the frames around an instruction are those of
the functions whose range contains it, the innermost first, and then the top level. The two
agree since the functions around an instruction are known when it is emitted.

The slots of a frame are never given away twice. The builder forgets the variables of a body when it
ends and keeps only their number, so the invariant of a run (`Bound`) keeps all variables of every
frame, in `scopes`: to each function, and to `none` for the top level, the variables in the order of
their slots. These lists only grow.
-/

namespace Lowering

namespace Bytecode

/-- The places of variables in an instruction. -/
def Op.varRefs : Op → List VarRef
  | .loadVar r | .storeVar r | .addrVar r => [r]
  | .forPhrase key val _ _ => key.toList ++ val.toList
  | _ => []

/-- The frames around an instruction, the innermost first; the last one is the top level. -/
def Code.frames (code : Code) (ip : Nat) : List (Option FuncEntry) :=
  (code.funcs.filter (·.contains ip)).map some ++ [none]

/-- How many variables a frame has. -/
def Code.frameSize (code : Code) : Option FuncEntry → Nat
  | some e => e.numVars
  | none => code.numVars

end Bytecode

open Bytecode

/-- The variables that a call refers to, with their places in the instruction emitted for it. -/
def Call.references (c : Call) : Op → List (Var × VarRef)
  | .loadVar r =>
    match c with
    | .loadVar v => [(v, r)]
    | _ => []
  | .storeVar r =>
    match c with
    | .storeVar v => [(v, r)]
    | _ => []
  | .addrVar r =>
    match c with
    | .addrVar v => [(v, r)]
    | _ => []
  | .forPhrase k v _ _ =>
    match c with
    | .forPhrase _ key val _ => key.toList.zip k.toList ++ val.toList.zip v.toList
    | _ => []
  | _ => []

namespace Bytecode.Builder

open Op

variable {b b' : Builder} {c : Call} {calls : List Call} {op op' : Op} {ip : Nat} {v : Var}
  {r : VarRef} {code : Code} {scopes scopes' : Option Nat → List Nat}

/-! ## References of an instruction -/

theorem varRefs_bare (op : Op) : op.bare.varRefs = op.varRefs := by
  cases op <;> rfl

theorem references_bare (c : Call) (op : Op) : c.references op.bare = c.references op := by
  cases op <;> rfl

/-- All places of variables in an instruction are those of variables of its call. -/
def Covers (c : Call) (op : Op) : Prop := op.varRefs = (c.references op).map (·.2)

theorem Becomes.references_eq (h : Becomes op op') : c.references op' = c.references op := by
  rcases h with h | ⟨rfl, v, rfl⟩
  · rw [← references_bare, h, references_bare]
  · rfl

theorem Becomes.covers (h : Becomes op op') (hc : Covers c op) : Covers c op' := by
  unfold Covers
  rw [h.references_eq, ← hc]
  rcases h with h | ⟨rfl, v, rfl⟩
  · rw [← varRefs_bare, h, varRefs_bare]
  · rfl

theorem references_of_op? (hc : c.op? = some op) : c.references op = [] ∧ Covers c op := by
  cases c <;> simp only [Call.op?, Option.some.injEq, reduceCtorEq] at hc <;>
    (subst hc; exact ⟨rfl, rfl⟩)

theorem references_of_jump? {l : Label} (hc : c.jump? = some (l, op)) :
    c.references op = [] ∧ Covers c op := by
  cases c <;> simp only [Call.jump?, Option.some.injEq, Prod.mk.injEq, reduceCtorEq] at hc <;>
    (obtain ⟨-, rfl⟩ := hc; exact ⟨rfl, rfl⟩)

theorem references_of_access? {mk : VarRef → Op} (hc : c.access? = some (v, mk)) (r : VarRef) :
    c.references (mk r) = [(v, r)] ∧ Covers c (mk r) := by
  cases c <;> simp only [Call.access?, Option.some.injEq, Prod.mk.injEq, reduceCtorEq] at hc <;>
    (obtain ⟨rfl, rfl⟩ := hc; exact ⟨rfl, rfl⟩)

theorem references_of_comprehension? {d : Comprehension} (hc : c.comprehension? = some (d, op)) :
    c.references op = [] ∧ Covers c op := by
  cases c <;>
    simp only [Call.comprehension?, Option.some.injEq, Prod.mk.injEq, reduceCtorEq] at hc <;>
    (obtain ⟨-, rfl⟩ := hc; exact ⟨rfl, rfl⟩)

/-! ## Looking up a variable -/

/-- A variable is found in the frame and at the slot that its place says. -/
theorem getElem?_of_findRef {id n : Nat} {frames : List (List Nat)}
    (h : findRef id n frames = some r) :
    ∃ k frame, r.scope = n + k ∧ frames[k]? = some frame ∧ frame[r.slot]? = some id := by
  induction frames generalizing n with
  | nil => cases h
  | cons frame outer ih =>
    rw [findRef] at h
    cases hslot : frame.idxOf? id with
    | some slot =>
      rw [hslot] at h
      obtain rfl := Option.some.inj h
      obtain ⟨hlt, hget, -⟩ := List.idxOf?_eq_some_iff.mp hslot
      exact ⟨0, frame, rfl, rfl, List.getElem?_eq_some_iff.mpr ⟨hlt, hget⟩⟩
    | none =>
      rw [hslot] at h
      obtain ⟨k, found, hscope, hframe, hget⟩ := ih h
      exact ⟨k + 1, found, by omega, hframe, hget⟩

theorem getElem?_of_varRef (h : b.varRef v = .ok r) :
    ∃ frame, b.frames[r.scope]? = some frame ∧ frame[r.slot]? = some v.id := by
  unfold varRef at h
  cases hfind : findRef v.id 0 b.frames with
  | none =>
    rw [hfind] at h
    cases h
  | some r' =>
    rw [hfind] at h
    obtain rfl := Except.ok.inj h
    obtain ⟨k, frame, hscope, hframe, hget⟩ := getElem?_of_findRef hfind
    rw [Nat.zero_add] at hscope
    exact ⟨frame, hscope ▸ hframe, hget⟩

theorem optionalRef_eq_ok {w : Option Var} {k : Option VarRef} (h : b.optionalRef w = .ok k) :
    (w = none ∧ k = none) ∨ ∃ v r, w = some v ∧ k = some r ∧ b.varRef v = .ok r := by
  cases w with
  | none => exact .inl ⟨rfl, (Except.ok.inj h).symm⟩
  | some v =>
    rw [optionalRef] at h
    cases hr : b.varRef v with
    | error e =>
      rw [hr] at h
      cases h
    | ok r =>
      rw [hr] at h
      exact .inr ⟨v, r, rfl, (Except.ok.inj h).symm, hr⟩

/-! ## The variables of frames -/

/-- Defining variables appends them, and none that is there already. -/
theorem define_eq_ok {frame frame' : List Nat} {vs : List Var} (h : define frame vs = .ok frame') :
    frame <+: frame' ∧ (frame.Nodup → frame'.Nodup) := by
  induction vs generalizing frame with
  | nil =>
    obtain rfl := Except.ok.inj h
    exact ⟨List.prefix_refl frame, fun h => h⟩
  | cons v vs ih =>
    rw [define] at h
    split at h
    · cases h
    · next hfresh =>
      obtain ⟨hgrow, hnodup⟩ := ih h
      refine ⟨(List.prefix_append frame [v.id]).trans hgrow, fun hframe => hnodup ?_⟩
      rw [List.nodup_append]
      refine ⟨hframe, List.nodup_cons.mpr ⟨nofun, List.nodup_nil⟩, ?_⟩
      rintro a ha x hx rfl
      exact hfresh (List.mem_singleton.mp hx ▸ ha)

/-- The open frames, the innermost first: a function, or `none` for the top level. -/
def frameKeys (b : Builder) : List (Option Nat) := b.sites.map (fun s => some s.func) ++ [none]

/-- `scopes` holds the variables of all frames: of the open ones as the builder has them, and of the
functions in the table, which know only how many they are. -/
structure Scoped (b : Builder) (scopes : Option Nat → List Nat) : Prop where
  frames : b.frameKeys.map scopes = b.frames
  funcs : ∀ e ∈ b.funcs, (scopes (some e.id)).length = e.numVars
  fresh : ∀ i, i ∉ b.functionIds → scopes (some i) = []
  nodup : ∀ key, (scopes key).Nodup

theorem scoped_fresh (id : Nat) : Scoped { id := id } fun _ => [] where
  frames := rfl
  funcs := nofun
  fresh _ _ := rfl
  nodup _ := List.nodup_nil

section Update

variable {key : Option Nat} {vars : List Nat}

theorem map_update_of_not_mem {keys : List (Option Nat)} (hkey : key ∉ keys) :
    keys.map (Function.update scopes key vars) = keys.map scopes := by
  refine List.map_congr_left fun k hk => ?_
  rw [Function.update_of_ne]
  rintro rfl
  exact hkey hk

theorem nodup_update (hs : ∀ key, (scopes key).Nodup) (hvars : vars.Nodup) (k : Option Nat) :
    (Function.update scopes key vars k).Nodup := by
  by_cases hk : k = key
  · subst hk
    rw [Function.update_self]
    exact hvars
  · rw [Function.update_of_ne hk]
    exact hs k

theorem isPrefix_update (hvars : scopes key <+: vars) (k : Option Nat) :
    scopes k <+: Function.update scopes key vars k := by
  by_cases hk : k = key
  · subst hk
    rw [Function.update_self]
    exact hvars
  · refine ⟨[], ?_⟩
    rw [List.append_nil, Function.update_of_ne hk]

end Update

theorem some_mem_frameKeys {i : Nat} : some i ∈ b.frameKeys ↔ i ∈ b.sites.map (·.func) := by
  simp [frameKeys]

theorem Laid.nodup_frameKeys (hl : Laid b) : b.frameKeys.Nodup := by
  have hids : (b.sites.map (·.func)).Nodup := (List.nodup_append.mp hl.ids).2.1
  rw [frameKeys, List.nodup_append]
  refine ⟨?_, List.nodup_cons.mpr ⟨nofun, List.nodup_nil⟩, by simp⟩
  rw [List.Nodup, List.pairwise_map] at hids ⊢
  exact hids.imp fun hne h => hne (Option.some.inj h)

/-- No open frame belongs to a function of the table. -/
theorem Laid.id_not_mem_frameKeys {e : FuncEntry} (hl : Laid b) (he : e ∈ b.funcs) :
    some e.id ∉ b.frameKeys := by
  intro hmem
  have hid : e.id ∈ b.funcs.toList.map (·.id) :=
    List.mem_map.mpr ⟨e, Array.mem_toList_iff.mpr he, rfl⟩
  exact (List.nodup_append.mp hl.ids).2.2 _ hid _ (some_mem_frameKeys.mp hmem) rfl

/-- A call that leaves functions and frames alone. -/
theorem Scoped.of_frames (hs : Scoped b scopes) (hfuncs : b'.funcs = b.funcs)
    (hsites : b'.sites = b.sites) (hframes : b'.frames = b.frames) : Scoped b' scopes where
  frames := by
    rw [frameKeys, hsites, hframes]
    exact hs.frames
  funcs := hfuncs ▸ hs.funcs
  fresh := by
    rw [functionIds, hfuncs, hsites]
    exact hs.fresh
  nodup := hs.nodup

/-- New variables in the innermost frame. -/
theorem Scoped.define {frame vars : List Nat} {outer : List (List Nat)} (hs : Scoped b scopes)
    (hl : Laid b) (hframes : b.frames = frame :: outer) (hgrow : frame <+: vars)
    (hnodup : frame.Nodup → vars.Nodup) (hfuncs : b'.funcs = b.funcs) (hsites : b'.sites = b.sites)
    (hframes' : b'.frames = vars :: outer) :
    ∃ scopes', Scoped b' scopes' ∧ ∀ key, scopes key <+: scopes' key := by
  have hkeys := hs.frames
  rw [hframes] at hkeys
  -- Only the innermost frame changes, and its key is the key of no other frame.
  obtain ⟨key, keys, hcons, hkey, houter⟩ := List.map_eq_cons_iff.mp hkeys
  have hnot : key ∉ keys := by
    have := hl.nodup_frameKeys
    rw [hcons] at this
    exact (List.nodup_cons.mp this).1
  have hmem : key ∈ b.frameKeys := hcons ▸ List.mem_cons_self
  have hvars : vars.Nodup := hnodup (hkey ▸ hs.nodup key)
  refine ⟨Function.update scopes key vars, ⟨?_, ?_, ?_, nodup_update hs.nodup hvars⟩,
    isPrefix_update (hkey ▸ hgrow)⟩
  · rw [frameKeys, hsites, ← frameKeys, hcons, hframes', List.map_cons, Function.update_self,
      map_update_of_not_mem hnot, houter]
  · intro e he
    rw [hfuncs] at he
    have hne : some e.id ≠ key := fun h => hl.id_not_mem_frameKeys he (h ▸ hmem)
    rw [Function.update_of_ne hne]
    exact hs.funcs e he
  · intro i hi
    rw [functionIds, hfuncs, hsites] at hi
    have hne : some i ≠ key := by
      rintro rfl
      exact hi (List.mem_append_right _ (some_mem_frameKeys.mp hmem))
    rw [Function.update_of_ne hne]
    exact hs.fresh i hi

/-- A new frame. -/
theorem Scoped.defineFunc {f : Func} {vars : List Nat} (hs : Scoped b scopes)
    (hfresh : f.id ∉ b.functionIds) (hvars : vars.Nodup) (hfuncs : b'.funcs = b.funcs)
    (hsites : b'.sites = ⟨f.id, b.ops.size⟩ :: b.sites) (hframes : b'.frames = vars :: b.frames) :
    ∃ scopes', Scoped b' scopes' ∧ ∀ key, scopes key <+: scopes' key := by
  -- A function that has not begun has no variables yet, so this only adds some.
  have hgrow : scopes (some f.id) <+: vars := by
    rw [hs.fresh f.id hfresh]
    exact List.nil_prefix
  have hnot : some f.id ∉ b.frameKeys :=
    fun hmem => hfresh (List.mem_append_right _ (some_mem_frameKeys.mp hmem))
  refine ⟨Function.update scopes (some f.id) vars, ⟨?_, ?_, ?_, nodup_update hs.nodup hvars⟩,
    isPrefix_update hgrow⟩
  · rw [frameKeys, hsites, List.map_cons, List.cons_append, ← frameKeys, List.map_cons,
      Function.update_self, map_update_of_not_mem hnot, hs.frames, hframes]
  · intro e he
    rw [hfuncs] at he
    have hid : e.id ∈ b.functionIds :=
      List.mem_append_left _ (List.mem_map.mpr ⟨e, Array.mem_toList_iff.mpr he, rfl⟩)
    have hne : some e.id ≠ some f.id := fun h => hfresh (Option.some.inj h ▸ hid)
    rw [Function.update_of_ne hne]
    exact hs.funcs e he
  · intro i hi
    rw [functionIds, hfuncs, hsites, List.map_cons, List.perm_middle.mem_iff, List.mem_cons,
      not_or] at hi
    rw [Function.update_of_ne fun h => hi.1 (Option.some.inj h)]
    exact hs.fresh i hi.2

/-- The innermost frame is closed; the table has the number of its variables. -/
theorem Scoped.endFunc {f : Func} {body : Body} {n : Nat} (hs : Scoped b scopes)
    (hfuncs : b'.funcs = b.funcs.push (entryOf f body n))
    (hsites : b.sites = ⟨f.id, body.skip⟩ :: b'.sites)
    (hframes : b.frames = body.vars :: b'.frames) :
    Scoped b' scopes := by
  have hkeys := hs.frames
  rw [frameKeys, hsites, hframes, List.map_cons, List.cons_append, ← frameKeys, List.map_cons,
    List.cons.injEq] at hkeys
  refine ⟨hkeys.2, ?_, ?_, hs.nodup⟩
  · intro e he
    rw [hfuncs, Array.mem_push] at he
    rcases he with he | rfl
    · exact hs.funcs e he
    · exact congrArg List.length hkeys.1
  · intro i hi
    refine hs.fresh i fun hold => hi ?_
    rw [functionIds, hsites] at hold
    rw [functionIds, hfuncs]
    simpa [entryOf] using hold

/-- Every frame keeps its variables and their order, and may get new ones. -/
theorem Step.keeps_scopes (h : Step b c b') (hl : Laid b) (hs : Scoped b scopes) :
    ∃ scopes', Scoped b' scopes' ∧ ∀ key, scopes key <+: scopes' key := by
  cases h with
  | @defineFunc f vars hfuncs hbodies hvars =>
    obtain ⟨-, hnodup⟩ := define_eq_ok hvars
    have hfresh := not_mem_functionIds hfuncs hbodies
    exact hs.defineFunc hfresh (hnodup List.nodup_nil) rfl rfl rfl
  | @endFunc f body outer hb hf =>
    have hsites : b.sites = ⟨f.id, body.skip⟩ :: outer.map fun body => ⟨body.func, body.skip⟩ := by
      simp only [sites, hb, List.map_cons, hf]
    have hframes : b.frames = body.vars :: (outer.map (·.vars) ++ [b.globals]) := by
      simp only [Builder.frames, hb, List.map_cons, List.cons_append]
    exact ⟨scopes, hs.endFunc rfl hsites hframes, fun _ => List.prefix_refl _⟩
  | @defineGlobals vs globals hb hvars =>
    obtain ⟨hgrow, hnodup⟩ := define_eq_ok hvars
    have hframes : b.frames = b.globals :: [] := by rw [Builder.frames, hb]; rfl
    have hframes' : Builder.frames { b with globals := globals } = globals :: [] := by
      rw [Builder.frames, hb]
      rfl
    exact hs.define hl hframes hgrow hnodup rfl rfl hframes'
  | @defineLocals vs body outer vars hb hvars =>
    obtain ⟨hgrow, hnodup⟩ := define_eq_ok hvars
    have hframes : b.frames = body.vars :: (outer.map (·.vars) ++ [b.globals]) := by
      rw [Builder.frames, hb]
      rfl
    refine hs.define hl hframes hgrow hnodup rfl ?_ rfl
    simp only [sites, hb, List.map_cons]
  | _ => exact ⟨scopes, hs.of_frames rfl rfl rfl, fun _ => List.prefix_refl _⟩

/-! ## References along a run -/

/-- The frames around an instruction, as `enclosing` has them, with the top level behind. -/
def keysAround (b : Builder) (ip : Nat) : List (Option Nat) := (b.enclosing ip).map some ++ [none]

theorem Laid.keysAround_size (hl : Laid b) : b.keysAround b.ops.size = b.frameKeys := by
  rw [keysAround, hl.enclosing_size, frameKeys, List.map_map]
  rfl

/-- From `ip`, the place `r` is that of the variable `v`. -/
def Found (b : Builder) (scopes : Option Nat → List Nat) (ip : Nat) (v : Var) (r : VarRef) : Prop :=
  ∃ key, (b.keysAround ip)[r.scope]? = some key ∧ (scopes key)[r.slot]? = some v.id

theorem found_of_varRef (hl : Laid b) (hs : Scoped b scopes) (hr : b.varRef v = .ok r) :
    Found b scopes b.ops.size v r := by
  obtain ⟨frame, hframe, hslot⟩ := getElem?_of_varRef hr
  rw [← hs.frames, List.getElem?_map, Option.map_eq_some_iff] at hframe
  obtain ⟨key, hkey, rfl⟩ := hframe
  exact ⟨key, hl.keysAround_size ▸ hkey, hslot⟩

theorem found_of_optionalRef {w : Option Var} {k : Option VarRef} (hl : Laid b)
    (hs : Scoped b scopes) (h : b.optionalRef w = .ok k) :
    k.toList = (w.toList.zip k.toList).map (·.2) ∧
      ∀ p ∈ w.toList.zip k.toList, Found b scopes b.ops.size p.1 p.2 := by
  rcases optionalRef_eq_ok h with ⟨rfl, rfl⟩ | ⟨v, r, rfl, rfl, hr⟩
  · exact ⟨rfl, nofun⟩
  · refine ⟨rfl, fun p hp => ?_⟩
    rw [List.mem_singleton.mp hp]
    exact found_of_varRef hl hs hr

theorem Found.step (hf : Found b scopes ip v r) (h : Step b c b') (hip : ip < b'.ops.size)
    (hgrow : ∀ key, scopes key <+: scopes' key) : Found b' scopes' ip v r := by
  obtain ⟨key, hkey, hslot⟩ := hf
  refine ⟨key, ?_, ?_⟩
  · rw [keysAround, h.enclosing hip]
    exact hkey
  · obtain ⟨new, hnew⟩ := hgrow key
    rw [← hnew, List.getElem?_append_left (List.getElem?_eq_some_iff.mp hslot).1]
    exact hslot

/-- The references of the instruction that a call appends. -/
theorem Step.found (h : Step b c b') (hl : Laid b) (hs : Scoped b scopes) (hc : c.emits = true)
    (hop : b'.ops[b.ops.size]? = some op) :
    Covers c op ∧ ∀ p ∈ c.references op, Found b scopes b.ops.size p.1 p.2 := by
  have hpush : ∀ new, (b.ops.push new)[b.ops.size]? = some op → new = op := by
    intro new hnew
    rw [Array.getElem?_push_size] at hnew
    exact Option.some.inj hnew
  cases h with
  | plain hplain =>
    obtain rfl := hpush _ hop
    obtain ⟨hnil, hcovers⟩ := references_of_op? hplain
    exact ⟨hcovers, by simp [hnil]⟩
  | jump hjump =>
    obtain rfl := hpush _ hop
    obtain ⟨hnil, hcovers⟩ := references_of_jump? hjump
    exact ⟨hcovers, by simp [hnil]⟩
  | access haccess hr =>
    obtain rfl := hpush _ hop
    obtain ⟨hone, hcovers⟩ := references_of_access? haccess _
    refine ⟨hcovers, ?_⟩
    rw [hone]
    intro p hp
    rw [List.mem_singleton.mp hp]
    exact found_of_varRef hl hs hr
  | comprehension hcomp =>
    obtain rfl := hpush _ hop
    obtain ⟨hnil, hcovers⟩ := references_of_comprehension? hcomp
    exact ⟨hcovers, by simp [hnil]⟩
  | @forPhrase f key val hasContext k v hk hv hf =>
    obtain rfl := hpush _ hop
    obtain ⟨hkeyCovers, hkeyFound⟩ := found_of_optionalRef hl hs hk
    obtain ⟨hvalCovers, hvalFound⟩ := found_of_optionalRef hl hs hv
    constructor
    · show k.toList ++ v.toList = (key.toList.zip k.toList ++ val.toList.zip v.toList).map (·.2)
      rw [List.map_append, ← hkeyCovers, ← hvalCovers]
    · intro p hp
      rcases List.mem_append.mp hp with hp | hp
      · exact hkeyFound p hp
      · exact hvalFound p hp
  | @endFor f loop hf =>
    -- The end of a loop patches the stream at once, which leaves references alone.
    have hlast : (b.ops.push (.endForPhrase ((loop.start : Int) - b.ops.size)))[b.ops.size]? =
        some (.endForPhrase ((loop.start : Int) - b.ops.size)) := Array.getElem?_push_size
    obtain ⟨op', hop', hbecomes⟩ := exists_becomes_of_map_bare map_bare_closeLoop hlast
    obtain rfl : op' = op := Option.some.inj (hop'.symm.trans hop)
    refine ⟨hbecomes.covers rfl, ?_⟩
    rw [hbecomes.references_eq]
    nofun
  | filter _ | endComprehension _ | defineFunc _ _ _ | reserve =>
    obtain rfl := hpush _ hop
    exact ⟨rfl, nofun⟩
  | _ => cases hc

/-- What a run knows about its references. -/
structure Bound (calls : List Call) (b : Builder) (scopes : Option Nat → List Nat) : Prop where
  traced : Traced calls b
  pending : PendingExact b
  laid : Laid b
  vars : Scoped b scopes
  found : ∀ (ip : Nat) c op, (emitted calls)[ip]? = some c → b.ops[ip]? = some op →
    Covers c op ∧ ∀ p ∈ c.references op, Found b scopes ip p.1 p.2

theorem bound_fresh (id : Nat) : Bound [] { id := id } fun _ => [] where
  traced := traced_fresh id
  pending := pendingExact_fresh id
  laid := laid_fresh id
  vars := scoped_fresh id
  found ip c op hc := by simp [emitted] at hc

theorem Bound.step (hb : Bound calls b scopes) (h : Step b c b') :
    ∃ scopes', Bound (calls ++ [c]) b' scopes' := by
  obtain ⟨scopes', hscoped, hgrow⟩ := h.keeps_scopes hb.laid hb.vars
  have htraced := hb.traced.step h
  refine ⟨scopes', htraced, h.pendingExact hb.pending, h.laid hb.laid, hscoped, ?_⟩
  intro ip e op he hop
  have hip : ip < b'.ops.size := (Array.getElem?_eq_some_iff.mp hop).1
  by_cases hold : ip < b.ops.size
  · -- An instruction that was there before: patched or filled, it has the same references.
    rw [emitted_append, List.getElem?_append_left (hb.traced.size ▸ hold)] at he
    obtain ⟨op', hop', hbecomes⟩ := h.becomes hb.pending (Array.getElem?_eq_getElem hold)
    obtain rfl : op' = op := Option.some.inj (hop'.symm.trans hop)
    obtain ⟨hcovers, hfound⟩ := hb.found ip e _ he (Array.getElem?_eq_getElem hold)
    refine ⟨hbecomes.covers hcovers, ?_⟩
    rw [hbecomes.references_eq]
    exact fun p hp => (hfound p hp).step h hip hgrow
  · have hsize := h.size_ops
    rw [emitted_singleton] at hsize
    cases hc : c.emits with
    | false =>
      rw [hc] at hsize
      exact absurd (Nat.lt_of_lt_of_eq hip hsize) hold
    | true =>
      rw [hc] at hsize
      have hlt : ip < b.ops.size + 1 := Nat.lt_of_lt_of_eq hip hsize
      obtain rfl : ip = b.ops.size := by omega
      rw [getElem?_emitted_snoc hb.traced.size hc] at he
      obtain rfl := Option.some.inj he
      obtain ⟨hcovers, hfound⟩ := h.found hb.laid hb.vars hc hop
      exact ⟨hcovers, fun p hp => (hfound p hp).step h hip hgrow⟩

theorem exists_bound_of_run {id : Nat}
    (h : Backend.run ({ id := id } : Builder) calls = .ok b) : ∃ scopes, Bound calls b scopes :=
  Backend.run_traces (P := fun calls b => ∃ scopes, Bound calls b scopes) ⟨_, bound_fresh id⟩
    (fun _ _ _ _ ⟨_, hm⟩ hc => hm.step (step_eq_ok_iff.mp hc).2) h

/-! ## The finished code -/

/-- The instruction at `ip` has `r` as the place of `v`. -/
def Refers (calls : List Call) (code : Code) (ip : Nat) (v : Var) (r : VarRef) : Prop :=
  ∃ c op, (emitted calls)[ip]? = some c ∧ code.ops[ip]? = some op ∧ (v, r) ∈ c.references op

/-- The frames of a complete builder are those of the table. -/
theorem keysAround_of_complete (hb : Complete b) (ops : Array Op) (ip : Nat) :
    b.keysAround ip = ((b.codeOf ops).frames ip).map (Option.map (·.id)) := by
  simp only [keysAround, enclosing, sites, hb.bodies, Code.frames, codeOf, List.map_nil,
    List.filter_nil, List.append_nil, List.map_append, List.map_map, List.map_cons,
    Option.map_none]
  rfl

section Finished

variable {ops : Array Op}

/-- The references of an instruction of the code are those of its call. -/
theorem Bound.found_of_getElem? (hb : Bound calls b scopes)
    (hops : patchLabels b.labels b.ops b.fixups.toList = .ok ops)
    (hop : (b.codeOf ops).ops[ip]? = some op) :
    ∃ c, (emitted calls)[ip]? = some c ∧ Covers c op ∧
      ∀ p ∈ c.references op, Found b scopes ip p.1 p.2 := by
  rw [codeOf, Array.getElem?_toList] at hop
  have hip : ip < b.ops.size := by
    rw [← size_patchLabels hops]
    exact (Array.getElem?_eq_some_iff.mp hop).1
  obtain ⟨op', hop', hbecomes⟩ :=
    exists_becomes_of_map_bare (map_bare_patchLabels hops) (Array.getElem?_eq_getElem hip)
  obtain rfl : op' = op := Option.some.inj (hop'.symm.trans hop)
  have hc := List.getElem?_eq_getElem (hb.traced.size ▸ hip)
  obtain ⟨hcovers, hfound⟩ := hb.found ip _ _ hc (Array.getElem?_eq_getElem hip)
  refine ⟨_, hc, hbecomes.covers hcovers, ?_⟩
  rw [hbecomes.references_eq]
  exact hfound

/-- Every place of a variable in the code was emitted for a variable. -/
theorem Bound.exists_refers (hb : Bound calls b scopes)
    (hops : patchLabels b.labels b.ops b.fixups.toList = .ok ops)
    (hop : (b.codeOf ops).ops[ip]? = some op) (hr : r ∈ op.varRefs) :
    ∃ v, Refers calls (b.codeOf ops) ip v r := by
  obtain ⟨c, hc, hcovers, -⟩ := hb.found_of_getElem? hops hop
  rw [hcovers] at hr
  obtain ⟨⟨v, r⟩, hmem, rfl⟩ := List.mem_map.mp hr
  exact ⟨v, c, op, hc, hop, hmem⟩

/-- The place of a variable leads to a frame that has the variable at its slot. -/
theorem Bound.exists_frame (hb : Bound calls b scopes) (hcomplete : Complete b)
    (hops : patchLabels b.labels b.ops b.fixups.toList = .ok ops)
    (h : Refers calls (b.codeOf ops) ip v r) :
    ∃ frame, ((b.codeOf ops).frames ip)[r.scope]? = some frame ∧
      (scopes (frame.map (·.id)))[r.slot]? = some v.id := by
  obtain ⟨c, op, hc, hop, hmem⟩ := h
  obtain ⟨c', hc', -, hfound⟩ := hb.found_of_getElem? hops hop
  obtain rfl := Option.some.inj (hc.symm.trans hc')
  obtain ⟨key, hkey, hslot⟩ := hfound _ hmem
  rw [keysAround_of_complete hcomplete ops, List.getElem?_map, Option.map_eq_some_iff] at hkey
  obtain ⟨frame, hframe, rfl⟩ := hkey
  exact ⟨frame, hframe, hslot⟩

/-- The number of variables of a frame. -/
theorem Bound.length_scopes {frame : Option FuncEntry} (hb : Bound calls b scopes)
    (hcomplete : Complete b) (hframe : frame ∈ (b.codeOf ops).frames ip) :
    (scopes (frame.map (·.id))).length = (b.codeOf ops).frameSize frame := by
  cases frame with
  | none =>
    have hframes := hb.vars.frames
    rw [frameKeys, sites, Builder.frames, hcomplete.bodies] at hframes
    exact congrArg List.length (List.cons.inj hframes).1
  | some e =>
    have hmem : e ∈ b.funcs := by
      simp only [Code.frames, codeOf, List.mem_append, List.mem_map, List.mem_filter,
        Option.some.injEq, exists_eq_right, List.mem_singleton, reduceCtorEq, or_false,
        Array.mem_toList_iff] at hframe
      exact hframe.1
    exact hb.vars.funcs e hmem

end Finished

/-- **Variables are where their references say.** In finished code

* the functions around an instruction are nested, and the table lists the inner ones first;
* every place of a variable was emitted for some variable and leads to a slot of a frame around the
  instruction;
* two places in one frame have the same slot exactly if they are places of the same variable. -/
theorem varRefs_of_assemble {id : Nat} (h : assemble id calls = .ok code) :
    (∀ ip, (code.funcs.filter (·.contains ip)).Pairwise fun inner outer =>
      outer.entry < inner.entry ∧ inner.stop ≤ outer.stop) ∧
    (∀ (ip : Nat) op r, code.ops[ip]? = some op → r ∈ op.varRefs →
      (∃ v, Refers calls code ip v r) ∧
      ∃ frame, (code.frames ip)[r.scope]? = some frame ∧ r.slot < code.frameSize frame) ∧
    ∀ ip₁ v₁ r₁ ip₂ v₂ r₂ frame, Refers calls code ip₁ v₁ r₁ → Refers calls code ip₂ v₂ r₂ →
      (code.frames ip₁)[r₁.scope]? = some frame → (code.frames ip₂)[r₂.scope]? = some frame →
      (r₁.slot = r₂.slot ↔ v₁.id = v₂.id) := by
  obtain ⟨b, hrun, hcomplete, ops, hops, rfl⟩ := assemble_eq_ok.mp h
  obtain ⟨scopes, hb⟩ := exists_bound_of_run hrun
  refine ⟨(laid_of_run hrun).pairwise_contains, ?_, ?_⟩
  · intro ip op r hop hr
    obtain ⟨v, hv⟩ := hb.exists_refers hops hop hr
    obtain ⟨frame, hframe, hslot⟩ := hb.exists_frame hcomplete hops hv
    refine ⟨⟨v, hv⟩, frame, hframe, ?_⟩
    rw [← hb.length_scopes hcomplete (List.mem_of_getElem? hframe)]
    exact (List.getElem?_eq_some_iff.mp hslot).1
  · intro ip₁ v₁ r₁ ip₂ v₂ r₂ frame h₁ h₂ hframe₁ hframe₂
    obtain ⟨frame₁, hat₁, hslot₁⟩ := hb.exists_frame hcomplete hops h₁
    obtain ⟨frame₂, hat₂, hslot₂⟩ := hb.exists_frame hcomplete hops h₂
    obtain rfl := Option.some.inj (hframe₁.symm.trans hat₁)
    obtain rfl := Option.some.inj (hframe₂.symm.trans hat₂)
    have hlt := (List.getElem?_eq_some_iff.mp hslot₁).1
    rw [← List.getElem?_inj hlt (hb.vars.nodup _), hslot₁, hslot₂, Option.some.injEq]

/-- A function within a function. The variable 10 is defined at the top level, as a result of the
outer function, and in the inner one after a use that still means the outer one. -/
def closures : List Call :=
  let x : Var := ⟨10, "x", .basic .string⟩
  let y : Var := ⟨11, "y", .basic .string⟩
  let z : Var := ⟨12, "z", .basic .string⟩
  let outer : Func := { id := 1, name := "outer", nestDepth := 0, results := [x] }
  let inner : Func := { id := 2, name := "", nestDepth := 1 }
  [.defineVar [x, y], .defineFunc outer, .defineVar [z], .defineFunc inner, .loadVar x, .loadVar y,
    .defineVar [x], .storeVar x, .endFunc inner, .storeVar z, .endFunc outer, .loadVar x]

def closuresCode : Code :=
  { ops :=
      [.jump 6, .jump 4, .loadVar ⟨1, 0⟩, .loadVar ⟨2, 1⟩, .storeVar ⟨0, 0⟩, .storeVar ⟨0, 1⟩,
        .loadVar ⟨0, 0⟩]
    funcs :=
      [{ id := 2, name := "", entry := 2, stop := 5, numIn := 0, numOut := 0, variadic := false,
         numVars := 1 },
        { id := 1, name := "outer", entry := 1, stop := 6, numIn := 0, numOut := 1,
          variadic := false, numVars := 2 }]
    spans := [], numVars := 2 }

theorem varRefs_closures :
    assemble 0 closures = .ok closuresCode ∧
      (∃ frame, (closuresCode.frames 3)[2]? = some frame ∧ 1 < closuresCode.frameSize frame) ∧
      ∀ v r, Refers closures closuresCode 5 v r →
        (closuresCode.frames 5)[r.scope]? = (closuresCode.frames 2)[1]? →
        (r.slot = 0 ↔ v.id = 10) := by
  have hcode : assemble 0 closures = .ok closuresCode := eq_ok_of_toOption (by decide +kernel)
  obtain ⟨-, hslots, hsame⟩ := varRefs_of_assemble hcode
  refine ⟨hcode, (hslots 3 (.loadVar ⟨2, 1⟩) ⟨2, 1⟩ rfl List.mem_cons_self).2, ?_⟩
  intro v r hv hframe
  have hx : Refers closures closuresCode 2 ⟨10, "x", .basic .string⟩ ⟨1, 0⟩ :=
    ⟨_, _, rfl, rfl, List.mem_cons_self⟩
  exact hsame 5 v r 2 _ _ _ hv hx hframe rfl

end Bytecode.Builder

end Lowering
