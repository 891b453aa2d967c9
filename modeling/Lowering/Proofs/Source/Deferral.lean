import Lowering.Proofs.Source.Rendering

/-!
# Deferred constants in source text

A constant can be pushed at once, or a place can be reserved for it and filled later. `Move` is what
a front end does if it may put some constants off. A list of moves is carried out in two ways: at
once, where the deferred constants are pushed and nothing is filled, or in a session, which hands
every reserved place back when it is to be filled. Places that the calls reserve for themselves are
reserved either way; a session numbers them differently, so it keeps track of them as well.

Both ways lead to the same file: `translate_session`. The state of the run at once is the state of
the session with the constants put into their slots, from the first move to the last.
-/

namespace Lowering.Source

/-! ## Moves and sessions -/

/-- What a front end does. -/
inductive Move
  /-- A call. The places it fills are numbered as those of the run at once. -/
  | call (c : Call)
  /-- A constant goes here, now or later. -/
  | defer (v : Value)
  /-- The place of the deferred constant number `k` is filled, if there is one. -/
  | settle (k : Nat)

namespace Move

/-- The calls of a move if no constant is deferred. -/
def atOnce : Move → List Call
  | call c => [c]
  | defer v => [.push v]
  | settle _ => []

/-- Every deferred constant is settled once after it was deferred. The constants `waiting` are still
to be settled, and `count` constants have been deferred. -/
def settlesAll (waiting : List Nat) (count : Nat) : List Move → Bool
  | [] => waiting.isEmpty
  | call _ :: moves => settlesAll waiting count moves
  | defer _ :: moves => settlesAll (count :: waiting) (count + 1) moves
  | settle k :: moves =>
    waiting.contains k && settlesAll (waiting.filter (· ≠ k)) count moves

end Move

/-- A builder and the places reserved in it: those of the calls and those of deferred constants. -/
structure Session where
  builder : Builder
  kept : List Reservation := []
  deferred : List (Reservation × Value) := []

namespace Session

/-- Carries out one move. -/
def perform (s : Session) : Move → Except Fault Session
  | .call .reserve => do
    let b ← s.builder.step .reserve
    return { s with builder := b, kept := s.kept ++ [s.builder.nextReservation] }
  | .call (.fill r v) =>
    match s.kept[r.position]? with
    | some place => do return { s with builder := ← s.builder.step (.fill place v) }
    | none => .error (.unknownReservation r.position)
  | .call c => do return { s with builder := ← s.builder.step c }
  | .defer v => do
    let b ← s.builder.step .reserve
    return { s with builder := b, deferred := s.deferred ++ [(s.builder.nextReservation, v)] }
  | .settle k =>
    match s.deferred[k]? with
    | some (place, v) => do return { s with builder := ← s.builder.step (.fill place v) }
    | none => .error (.unknownReservation k)

/-- Whether no deferred constant is part of the expression on top of the stack. -/
def topIsPlain (s : Session) : Bool :=
  s.builder.stack.head?.all fun e =>
    s.deferred.all fun d => !e.pieces.contains (.slot d.1.position)

/-- An address may be followed if no deferred constant is part of it. -/
def allows (s : Session) : Move → Bool
  | .call (.addressOp _ _) => s.topIsPlain
  | _ => true

/-- Whether no address that the moves follow has a deferred constant in it. -/
def allowsAll (s : Session) : List Move → Bool
  | [] => true
  | m :: moves =>
    s.allows m &&
      match s.perform m with
      | .ok s' => s'.allowsAll moves
      | .error _ => true

/-- The file that the moves result in. -/
def translate (s : Session) (moves : List Move) : Except Fault String := do
  let s ← moves.foldlM perform s
  let (text, _) ← s.builder.resolve
  return text

end Session

/-- The file that the calls result in. -/
def Builder.translate (b : Builder) (calls : List Call) : Except Fault String := do
  let b ← Backend.run b calls
  let (text, _) ← b.resolve
  return text

/-! ## Slots in use -/

/-- Moves the slots from number `n` on by one. -/
def shift (n i : Nat) : Piece := .slot (if i < n then i else i + 1)

/-- Only slots below `n` occur in the state, as it stays the same if all others are moved. -/
def Bounded (n : Nat) (b : Builder) : Prop :=
  ∀ m, n ≤ m → b.subst ⟨shift m, b.id, b.slots⟩ = b

section Bounded

variable {n : Nat} {b b' : Builder} {c : Call}

theorem eq_of_map_eq_self {α : Type} {f : α → α} {xs : List α} (h : xs.map f = xs) :
    ∀ x ∈ xs, f x = x := by
  have hid : xs.map f = xs.map id := by rw [h, List.map_id]
  exact List.map_inj_left.mp hid

/-- No fragment on the stack has a slot that does not exist. -/
theorem Bounded.lt (h : Bounded n b) {e : Fragment} (he : e ∈ b.stack) {i : Nat}
    (hi : .slot i ∈ e.pieces) : i < n := by
  have hstack := congrArg Builder.stack (h n (Nat.le_refl n))
  have hpieces := congrArg Fragment.pieces (eq_of_map_eq_self hstack e he)
  have hslot : shift n i = .slot i := eq_of_map_eq_self hpieces _ hi
  simp only [shift, Piece.slot.injEq] at hslot
  split at hslot <;> omega

/-- A fragment that is pushed, whatever the slots are. -/
theorem Builder.subst_push {f : Nat → Piece} {id : Nat} {slots : Array (Option String)}
    {d : Builder} (h : b.subst ⟨f, id, slots⟩ = d) (e : Fragment)
    (own slots' : Array (Option String)) :
    Builder.subst ⟨f, id, slots'⟩ { b with slots := own, stack := e :: b.stack } =
      { d with slots := slots', stack := e.subst ⟨f, id, slots'⟩ :: d.stack } := by
  rw [← h]
  rfl

/-- A new slot gets the next number. -/
theorem Bounded.reserve (h : Bounded n b) (slots : Array (Option String)) :
    Bounded (n + 1) { b with slots := slots, stack := .slot n :: b.stack } := by
  intro m hm
  have hslot : (Fragment.slot n).subst ⟨shift m, b.id, slots⟩ = .slot n := by
    simp only [Fragment.slot, Fragment.subst_mk, List.map_cons, List.map_nil, Piece.subst, shift]
    rw [if_pos (by omega)]
  refine (Builder.subst_push (h m (by omega)) (.slot n) slots slots).trans ?_
  rw [hslot]

/-- Filling changes neither fragments nor lines. -/
theorem Bounded.fill (h : Bounded n b) (slots : Array (Option String)) :
    Bounded n { b with slots := slots } := by
  intro m hm
  exact congrArg (fun b : Builder => { b with slots := slots }) (h m hm)

/-- All other calls put together what is there, so they bring no new slots. -/
theorem Bounded.step (h : Bounded n b) (hc : c ≠ .reserve) (hfill : ∀ r v, c ≠ .fill r v)
    (hb : b.step c = .ok b') : Bounded n b' := by
  intro m hm
  have hrespects : b.Respects ⟨shift m, b.id, b.slots⟩ c := by
    cases c with
    | reserve => exact hc rfl
    | fill r v => exact hfill r v rfl
    | addressOp k op => exact fun e _ i _ => ⟨_, rfl⟩
    | _ => trivial
  have hsubst := Builder.step_subst hrespects
  rw [h m hm, hb] at hsubst
  have hfixed := Builder.step_fixed hc hfill hb
  obtain ⟨hid, -, -, hslots, -⟩ := Fixed.mk.inj hfixed
  rw [hid, hslots]
  exact (Except.ok.inj hsubst).symm

end Bounded

/-! ## Ledgers -/

/-- The numbers of the reserved places: those of the calls and those of deferred constants. -/
structure Ledger where
  kept : List Nat := []
  deferred : List (Nat × Value) := []

namespace Ledger

def size (L : Ledger) : Nat := L.kept.length + L.deferred.length

/-- What a move adds. -/
def note (L : Ledger) : Move → Ledger
  | .call .reserve => { L with kept := L.kept ++ [L.size] }
  | .defer v => { L with deferred := L.deferred ++ [(L.size, v)] }
  | _ => L

/-- The text of a deferred constant in place of its slot, and the other slots as the calls number
them. -/
def piece (L : Ledger) (i : Nat) : Piece :=
  match L.deferred.lookup i with
  | some v => .text (literalText v)
  | none => .slot (L.kept.idxOf i)

/-- Every number is given once. -/
def Exact (L : Ledger) : Prop := (L.kept ++ L.deferred.map (·.1)).Perm (List.range L.size)

/-- The later ledger has all that the earlier one has. -/
structure Extends (later L : Ledger) : Prop where
  kept : L.kept <+: later.kept
  deferred : L.deferred <+: later.deferred

variable {L later : Ledger}

/-- A reserved slot is noted as one that is kept. -/
theorem size_note_reserve (L : Ledger) : (L.note (.call .reserve)).size = L.size + 1 := by
  simp only [note, size, List.length_append, List.length_singleton]
  omega

/-- A deferred constant takes a slot as well. -/
theorem size_note_defer (L : Ledger) (v : Value) : (L.note (.defer v)).size = L.size + 1 := by
  simp only [note, size, List.length_append, List.length_singleton]
  omega

/-- A new slot is noted once, under the next number. -/
theorem exact_note (h : L.Exact) (m : Move) : (L.note m).Exact := by
  unfold note
  split
  · -- A place of a call goes between the two lists.
    show List.Perm (L.kept ++ [L.size] ++ L.deferred.map (·.1))
      (List.range (L.note (.call .reserve)).size)
    rw [size_note_reserve, List.range_succ, List.append_assoc]
    exact List.perm_middle.trans ((h.cons L.size).trans (List.perm_append_singleton _ _).symm)
  · next v =>
    show List.Perm (L.kept ++ (L.deferred ++ [(L.size, v)]).map (·.1))
      (List.range (L.note (.defer v)).size)
    rw [size_note_defer, List.range_succ, List.map_append, ← List.append_assoc]
    exact h.append_right [L.size]
  · exact h

/-- Notes are only added. -/
theorem extends_note (L : Ledger) (m : Move) : (L.note m).Extends L := by
  unfold note
  split
  · exact ⟨List.prefix_append _ _, List.prefix_rfl⟩
  · exact ⟨List.prefix_rfl, List.prefix_append _ _⟩
  · exact ⟨List.prefix_rfl, List.prefix_rfl⟩

/-- No slot is noted twice, not as kept and as deferred either. -/
theorem Exact.nodup (h : L.Exact) : (L.kept ++ L.deferred.map (·.1)).Nodup :=
  h.nodup_iff.mpr List.nodup_range

/-- A ledger knows all the slots there are. -/
theorem Exact.lt_size_iff (h : L.Exact) {i : Nat} :
    i < L.size ↔ i ∈ L.kept ∨ ∃ v, (i, v) ∈ L.deferred := by
  rw [← List.mem_range, ← List.Perm.mem_iff h, List.mem_append, List.mem_map]
  simp

/-- Under distinct keys the value that is listed is the one that is found. -/
theorem lookup_eq_some {deferred : List (Nat × Value)} (h : (deferred.map (·.1)).Nodup) {i : Nat}
    {v : Value} (hi : (i, v) ∈ deferred) : deferred.lookup i = some v := by
  induction deferred with
  | nil => cases hi
  | cons d deferred ih =>
    obtain ⟨hd, hnodup⟩ := List.nodup_cons.mp h
    rcases List.mem_cons.mp hi with rfl | hi
    · exact List.lookup_cons_self
    · have hne : (i == d.1) = false := by
        rw [beq_eq_false_iff_ne]
        rintro rfl
        exact hd (List.mem_map.mpr ⟨_, hi, rfl⟩)
      rw [List.lookup_cons, hne]
      exact ih hnodup hi

/-- The slot of a deferred constant becomes its text. -/
theorem piece_of_deferred (h : L.Exact) {i : Nat} {v : Value} (hi : (i, v) ∈ L.deferred) :
    L.piece i = .text (literalText v) := by
  have hnodup := (List.nodup_append.mp h.nodup).2.1
  rw [piece, lookup_eq_some hnodup hi]

/-- A slot that is kept gets the number that it has among those. -/
theorem piece_of_kept (h : L.Exact) {i p : Nat} (hi : L.kept[p]? = some i) :
    L.piece i = .slot p := by
  obtain ⟨hnodup, -, hdisjoint⟩ := List.nodup_append.mp h.nodup
  have hnone : L.deferred.lookup i = none := by
    rw [List.lookup_eq_none_iff]
    intro d hd
    rw [bne_iff_ne]
    exact hdisjoint i (List.mem_of_getElem? hi) d.1 (List.mem_map.mpr ⟨d, hd, rfl⟩)
  obtain ⟨hp, rfl⟩ := List.getElem?_eq_some_iff.mp hi
  rw [piece, hnone, hnodup.idxOf_getElem]

/-- A slot is kept under one number. -/
theorem Exact.kept_inj (h : L.Exact) {p q i : Nat} (hp : L.kept[p]? = some i)
    (hq : L.kept[q]? = some i) : p = q := by
  have hnodup := (List.nodup_append.mp h.nodup).1
  exact (List.getElem?_inj (List.getElem?_eq_some_iff.mp hp).1 hnodup).mp (hp.trans hq.symm)

theorem Exact.deferred_inj (h : L.Exact) {k l i : Nat} {v w : Value}
    (hk : L.deferred[k]? = some (i, v)) (hl : L.deferred[l]? = some (i, w)) : k = l := by
  have hnodup := (List.nodup_append.mp h.nodup).2.1
  have hk' : (L.deferred.map (·.1))[k]? = some i := by rw [List.getElem?_map, hk]; rfl
  have hl' : (L.deferred.map (·.1))[l]? = some i := by rw [List.getElem?_map, hl]; rfl
  exact (List.getElem?_inj (List.getElem?_eq_some_iff.mp hk').1 hnodup).mp (hk'.trans hl'.symm)

/-- A slot is not both. -/
theorem Exact.kept_ne_deferred (h : L.Exact) {p k i j : Nat} {v : Value}
    (hp : L.kept[p]? = some i) (hk : L.deferred[k]? = some (j, v)) : i ≠ j :=
  (List.nodup_append.mp h.nodup).2.2 i (List.mem_of_getElem? hp) j
    (List.mem_map.mpr ⟨_, List.mem_of_getElem? hk, rfl⟩)

/-- What a list has at some place, longer ones have there too. -/
theorem getElem?_of_prefix {α : Type} {xs ys : List α} (h : xs <+: ys) {p : Nat} {x : α}
    (hx : xs[p]? = some x) : ys[p]? = some x := by
  obtain ⟨hp, rfl⟩ := List.getElem?_eq_some_iff.mp hx
  exact List.prefix_iff_getElem?.mp h p hp

end Ledger

/-! ## Sessions and runs at once -/

/-- The session is where the run at once is: seen with the constants in their slots, its state is
that of the run. The ledger `F` is that of the whole list of moves and `L` that of the moves so far;
the deferred constants `waiting` are not settled yet. -/
structure Tracks (F L : Ledger) (waiting : List Nat) (s : Session) (d : Builder) : Prop where
  state : s.builder.subst ⟨F.piece, d.id, d.slots⟩ = d
  bounded : Bounded L.size s.builder
  size : s.builder.slots.size = L.size
  sizeKept : d.slots.size = L.kept.length
  kept : s.kept = L.kept.map (⟨s.builder.id, ·⟩)
  deferred : s.deferred = L.deferred.map fun e => (⟨s.builder.id, e.1⟩, e.2)
  keptSlot : ∀ p i : Nat, L.kept[p]? = some i → s.builder.slots[i]? = d.slots[p]?
  waits : ∀ k ∈ waiting, k < L.deferred.length
  deferredSlot : ∀ (k i : Nat) (v : Value), L.deferred[k]? = some (i, v) →
    s.builder.slots[i]? = some (if k ∈ waiting then none else some (literalText v))

section Tracks

variable {F L : Ledger} {waiting : List Nat} {s : Session} {d d' : Builder} {c : Call} {v : Value}

/-- An address without deferred constants keeps its slots. -/
theorem Tracks.keepsSlots (h : Tracks F L waiting s d) (hF : F.Exact) (hL : L.Exact)
    (hext : F.Extends L) (hallows : s.topIsPlain = true) :
    ∀ e ∈ s.builder.stack.head?, e.KeepsSlots ⟨F.piece, d.id, d.slots⟩ := by
  intro e he i hi
  have hmem : e ∈ s.builder.stack := List.mem_of_mem_head? he
  rcases hL.lt_size_iff.mp (h.bounded.lt hmem hi) with hkept | ⟨v, hv⟩
  · obtain ⟨p, hp⟩ := List.getElem?_of_mem hkept
    exact ⟨p, Ledger.piece_of_kept hF (Ledger.getElem?_of_prefix hext.kept hp)⟩
  · have hd : (⟨s.builder.id, i⟩, v) ∈ s.deferred :=
      h.deferred ▸ List.mem_map.mpr ⟨(i, v), hv, rfl⟩
    rw [Session.topIsPlain, Option.mem_def.mp he, Option.all_some, List.all_eq_true] at hallows
    have hnot := hallows _ hd
    simp [hi] at hnot

/-- A call that is about no slots is made by both, and by `step_subst` they stay images of each
other. -/
theorem Tracks.step (h : Tracks F L waiting s d) (hF : F.Exact) (hL : L.Exact)
    (hext : F.Extends L) (hc : c ≠ .reserve) (hfill : ∀ r v, c ≠ .fill r v)
    (hallows : ∀ k op, c = .addressOp k op → s.topIsPlain = true) (hd : d.step c = .ok d') :
    ∃ b', s.builder.step c = .ok b' ∧ Tracks F L waiting { s with builder := b' } d' := by
  have hrespects : s.builder.Respects ⟨F.piece, d.id, d.slots⟩ c := by
    cases c with
    | reserve => exact hc rfl
    | fill r v => exact hfill r v rfl
    | addressOp k op => exact h.keepsSlots hF hL hext (hallows k op rfl)
    | _ => trivial
  have hsubst := Builder.step_subst hrespects
  rw [h.state] at hsubst
  obtain ⟨b', hb', rfl⟩ := Mirrors.exists_ok hsubst hd
  obtain ⟨hid, -, -, hslots, -⟩ := Fixed.mk.inj (Builder.step_fixed hc hfill hb')
  refine ⟨b', hb', ?_⟩
  exact {
    state := rfl
    bounded := h.bounded.step hc hfill hb'
    size := hslots ▸ h.size
    sizeKept := h.sizeKept
    kept := hid ▸ h.kept
    deferred := hid ▸ h.deferred
    keptSlot := hslots ▸ h.keptSlot
    waits := h.waits
    deferredSlot := hslots ▸ h.deferredSlot }

/-- Both are open for as long as one is. -/
theorem Tracks.resolved (h : Tracks F L waiting s d) : s.builder.resolved = d.resolved := by
  rw [← h.state]
  rfl

/-- What the ledger knows the builder has. -/
theorem Tracks.lt_of_kept (h : Tracks F L waiting s d) (hL : L.Exact) {p i : Nat}
    (hp : L.kept[p]? = some i) : i < s.builder.slots.size := by
  rw [h.size, hL.lt_size_iff]
  exact .inl (List.mem_of_getElem? hp)

theorem Tracks.lt_of_deferred (h : Tracks F L waiting s d) (hL : L.Exact) {k i : Nat}
    (hk : L.deferred[k]? = some (i, v)) : i < s.builder.slots.size := by
  rw [h.size, hL.lt_size_iff]
  exact .inr ⟨v, List.mem_of_getElem? hk⟩

theorem getElem?_push_of_lt {α : Type} {xs : Array α} {i : Nat} (x : α) (hi : i < xs.size) :
    (xs.push x)[i]? = xs[i]? := by
  rw [Array.getElem?_push, if_neg (by omega)]

/-- An entry of a longer list is an old one or the new one. -/
theorem getElem?_concat_eq_some {α : Type} {xs : List α} {x y : α} {k : Nat}
    (h : (xs ++ [x])[k]? = some y) : xs[k]? = some y ∨ k = xs.length ∧ x = y := by
  rcases Nat.lt_or_ge k xs.length with hlt | hge
  · exact .inl (by rwa [List.getElem?_append_left hlt] at h)
  · rw [List.getElem?_append_right hge] at h
    cases hk : k - xs.length with
    | zero =>
      rw [hk] at h
      exact .inr ⟨by omega, Option.some.inj h⟩
    | succ n =>
      rw [hk] at h
      cases h

/-- A call reserves a place for itself. -/
theorem Tracks.reserve (h : Tracks F L waiting s d) (hF : F.Exact) (hL : L.Exact)
    (hext : F.Extends (L.note (.call .reserve))) (hd : d.step .reserve = .ok d') :
    ∃ s', s.perform (.call .reserve) = .ok s' ∧
      Tracks F (L.note (.call .reserve)) waiting s' d' := by
  obtain ⟨hopen, rfl⟩ := Builder.step_reserve_eq_ok.mp hd
  have hb := Builder.step_reserve_eq_ok.mpr ⟨h.resolved.trans hopen, rfl⟩
  have hnew : F.piece s.builder.slots.size = .slot d.slots.size := by
    refine Ledger.piece_of_kept hF (Ledger.getElem?_of_prefix hext.kept ?_)
    rw [h.sizeKept, h.size]
    exact List.getElem?_concat_length
  refine ⟨_, bind_eq_ok.mpr ⟨_, hb, rfl⟩, ?_⟩
  exact {
    state := by
      have hslot : (Fragment.slot s.builder.slots.size).subst ⟨F.piece, d.id, d.slots.push none⟩ =
          .slot d.slots.size := congrArg (fun p => ({ pieces := [p] } : Fragment)) hnew
      refine (Builder.subst_push h.state (.slot s.builder.slots.size) _ _).trans ?_
      rw [hslot]
    bounded := by
      rw [Ledger.size_note_reserve, h.size]
      exact h.bounded.reserve _
    size := by
      rw [Ledger.size_note_reserve, ← h.size]
      exact Array.size_push none
    sizeKept := by
      show (d.slots.push none).size = (L.kept ++ [L.size]).length
      rw [Array.size_push, h.sizeKept, List.length_append, List.length_singleton]
    kept := by
      show s.kept ++ [⟨s.builder.id, s.builder.slots.size⟩] = (L.kept ++ [L.size]).map _
      rw [h.kept, h.size, List.map_append]
      rfl
    deferred := h.deferred
    keptSlot := by
      intro p i hp
      show (s.builder.slots.push none)[i]? = (d.slots.push none)[p]?
      rcases getElem?_concat_eq_some hp with hp | ⟨rfl, rfl⟩
      · have hlt : p < d.slots.size := h.sizeKept ▸ (List.getElem?_eq_some_iff.mp hp).1
        rw [getElem?_push_of_lt _ (h.lt_of_kept hL hp), getElem?_push_of_lt _ hlt]
        exact h.keptSlot p i hp
      · rw [← h.size, ← h.sizeKept, Array.getElem?_push_size, Array.getElem?_push_size]
    waits := h.waits
    deferredSlot := by
      intro k i v hk
      show (s.builder.slots.push none)[i]? = _
      rw [getElem?_push_of_lt _ (h.lt_of_deferred hL hk)]
      exact h.deferredSlot k i v hk }

/-- A constant is deferred where the run at once pushes it. -/
theorem Tracks.defer (h : Tracks F L waiting s d) (hF : F.Exact) (hL : L.Exact)
    (hext : F.Extends (L.note (.defer v))) (hd : d.step (.push v) = .ok d') :
    ∃ s', s.perform (.defer v) = .ok s' ∧
      Tracks F (L.note (.defer v)) (L.deferred.length :: waiting) s' d' := by
  obtain ⟨hopen, rfl⟩ := Builder.step_push_eq_ok.mp hd
  have hb := Builder.step_reserve_eq_ok.mpr ⟨h.resolved.trans hopen, rfl⟩
  have hnew : F.piece s.builder.slots.size = .text (literalText v) := by
    refine Ledger.piece_of_deferred hF (hext.deferred.mem ?_)
    rw [h.size]
    exact List.mem_concat_self
  refine ⟨_, bind_eq_ok.mpr ⟨_, hb, rfl⟩, ?_⟩
  exact {
    state := by
      have hslot : (Fragment.slot s.builder.slots.size).subst ⟨F.piece, d.id, d.slots⟩ =
          .primary (literalText v) := congrArg (fun p => ({ pieces := [p] } : Fragment)) hnew
      refine (Builder.subst_push h.state (.slot s.builder.slots.size) _ _).trans ?_
      rw [hslot]
    bounded := by
      rw [Ledger.size_note_defer, h.size]
      exact h.bounded.reserve _
    size := by
      rw [Ledger.size_note_defer, ← h.size]
      exact Array.size_push none
    sizeKept := h.sizeKept
    kept := h.kept
    deferred := by
      show s.deferred ++ [(⟨s.builder.id, s.builder.slots.size⟩, v)] =
        (L.deferred ++ [(L.size, v)]).map _
      rw [h.deferred, h.size, List.map_append]
      rfl
    keptSlot := by
      intro p i hp
      show (s.builder.slots.push none)[i]? = d.slots[p]?
      rw [getElem?_push_of_lt _ (h.lt_of_kept hL hp)]
      exact h.keptSlot p i hp
    waits := by
      intro k hk
      show k < (L.deferred ++ [(L.size, v)]).length
      rw [List.length_append, List.length_singleton]
      rcases List.mem_cons.mp hk with rfl | hk
      · omega
      · exact Nat.lt_succ_of_lt (h.waits k hk)
    deferredSlot := by
      intro k i w hk
      show (s.builder.slots.push none)[i]? = _
      rcases getElem?_concat_eq_some hk with hk | ⟨rfl, hi⟩
      · have hlt : k < L.deferred.length := (List.getElem?_eq_some_iff.mp hk).1
        have hmem : k ∈ L.deferred.length :: waiting ↔ k ∈ waiting := by
          rw [List.mem_cons, or_iff_right (Nat.ne_of_lt hlt)]
        rw [getElem?_push_of_lt _ (h.lt_of_deferred hL hk), h.deferredSlot k i w hk]
        simp only [hmem]
      · obtain ⟨rfl, rfl⟩ := Prod.mk.inj hi
        rw [if_pos List.mem_cons_self, ← h.size, Array.getElem?_push_size] }

/-- An empty slot takes a constant as long as the run at once goes on. -/
theorem Tracks.fill_empty (h : Tracks F L waiting s d) (hopen : d.resolved = false) {i : Nat}
    (hslot : s.builder.slots[i]? = some none) (v : Value) :
    s.builder.step (.fill ⟨s.builder.id, i⟩ v) =
      .ok { s.builder with slots := s.builder.slots.setIfInBounds i (some (literalText v)) } :=
  Builder.step_fill_eq_ok.mpr ⟨h.resolved.trans hopen, rfl, hslot, rfl⟩

/-- A call fills a place that a call reserved. -/
theorem Tracks.fill (h : Tracks F L waiting s d) (hL : L.Exact) {r : Reservation}
    (hd : d.step (.fill r v) = .ok d') :
    ∃ s', s.perform (.call (.fill r v)) = .ok s' ∧ Tracks F L waiting s' d' := by
  obtain ⟨hopen, -, hempty, rfl⟩ := Builder.step_fill_eq_ok.mp hd
  have hlt : r.position < L.kept.length :=
    h.sizeKept ▸ (Array.getElem?_eq_some_iff.mp hempty).1
  obtain ⟨i, hi⟩ : ∃ i, L.kept[r.position]? = some i := ⟨_, List.getElem?_eq_getElem hlt⟩
  have hplace : s.kept[r.position]? = some ⟨s.builder.id, i⟩ := by
    rw [h.kept, List.getElem?_map, hi]
    rfl
  have hslot : s.builder.slots[i]? = some none := (h.keptSlot _ i hi).trans hempty
  have hb := h.fill_empty hopen hslot v
  have hperform : s.perform (.call (.fill r v)) = .ok { s with builder := { s.builder with
      slots := s.builder.slots.setIfInBounds i (some (literalText v)) } } := by
    rw [Session.perform, hplace]
    exact bind_eq_ok.mpr ⟨_, hb, rfl⟩
  refine ⟨_, hperform, ?_⟩
  exact {
    state := congrArg (fun m : Builder => { m with
      slots := d.slots.setIfInBounds r.position (some (literalText v)) }) h.state
    bounded := h.bounded.fill _
    size := (Array.size_setIfInBounds).trans h.size
    sizeKept := (Array.size_setIfInBounds).trans h.sizeKept
    kept := h.kept
    deferred := h.deferred
    waits := h.waits
    keptSlot := by
      intro p j hp
      show (s.builder.slots.setIfInBounds i _)[j]? = (d.slots.setIfInBounds r.position _)[p]?
      by_cases hpr : r.position = p
      · subst hpr
        obtain rfl : i = j := Option.some.inj (hi.symm.trans hp)
        rw [Array.getElem?_setIfInBounds_self_of_lt (h.lt_of_kept hL hi),
          Array.getElem?_setIfInBounds_self_of_lt (h.sizeKept ▸ hlt)]
      · have hij : i ≠ j := by
          rintro rfl
          exact hpr (hL.kept_inj hi hp)
        rw [Array.getElem?_setIfInBounds_ne hij, Array.getElem?_setIfInBounds_ne hpr]
        exact h.keptSlot p j hp
    deferredSlot := by
      intro k j w hk
      show (s.builder.slots.setIfInBounds i _)[j]? = _
      rw [Array.getElem?_setIfInBounds_ne (hL.kept_ne_deferred hi hk)]
      exact h.deferredSlot k j w hk }

/-- A deferred constant goes to its place. The run at once has nothing to do. -/
theorem Tracks.settle (h : Tracks F L waiting s d) (hL : L.Exact) (hopen : d.resolved = false)
    {k : Nat} (hk : k ∈ waiting) :
    ∃ s', s.perform (.settle k) = .ok s' ∧ Tracks F L (waiting.filter (· ≠ k)) s' d := by
  obtain ⟨⟨i, v⟩, hi⟩ : ∃ e, L.deferred[k]? = some e :=
    ⟨_, List.getElem?_eq_getElem (h.waits k hk)⟩
  have hplace : s.deferred[k]? = some (⟨s.builder.id, i⟩, v) := by
    rw [h.deferred, List.getElem?_map, hi]
    rfl
  have hslot : s.builder.slots[i]? = some none := by
    rw [h.deferredSlot k i v hi, if_pos hk]
  have hb := h.fill_empty hopen hslot v
  have hperform : s.perform (.settle k) = .ok { s with builder := { s.builder with
      slots := s.builder.slots.setIfInBounds i (some (literalText v)) } } := by
    rw [Session.perform, hplace]
    exact bind_eq_ok.mpr ⟨_, hb, rfl⟩
  refine ⟨_, hperform, ?_⟩
  exact {
    state := h.state
    bounded := h.bounded.fill _
    size := (Array.size_setIfInBounds).trans h.size
    sizeKept := h.sizeKept
    kept := h.kept
    deferred := h.deferred
    waits := fun l hl => h.waits l (List.mem_filter.mp hl).1
    keptSlot := by
      intro p j hp
      show (s.builder.slots.setIfInBounds i _)[j]? = _
      rw [Array.getElem?_setIfInBounds_ne (hL.kept_ne_deferred hp hi).symm]
      exact h.keptSlot p j hp
    deferredSlot := by
      intro l j w hl
      show (s.builder.slots.setIfInBounds i _)[j]? = _
      by_cases hkl : k = l
      · subst hkl
        obtain ⟨rfl, rfl⟩ := Prod.mk.inj (Option.some.inj (hi.symm.trans hl))
        rw [Array.getElem?_setIfInBounds_self_of_lt (h.lt_of_deferred hL hi),
          if_neg (by simp)]
      · have hij : i ≠ j := by
          rintro rfl
          exact hkl (hL.deferred_inj hi hl)
        have hmem : l ∈ waiting.filter (· ≠ k) ↔ l ∈ waiting := by
          simp [Ne.symm hkl]
        rw [Array.getElem?_setIfInBounds_ne hij, h.deferredSlot l j w hl]
        simp only [hmem] }

/-- What is left of the check once the first move has been carried out. -/
theorem allowsAll_of_perform {m : Move} {moves : List Move} {s' : Session}
    (h : s.allowsAll (m :: moves) = true) (hs' : s.perform m = .ok s') :
    s'.allowsAll moves = true := by
  rw [Session.allowsAll, hs'] at h
  exact (Bool.and_eq_true_iff.mp h).2

/-- Any call of the direct run, those about slots included. A reserved slot may have another number
there than it has here. -/
theorem Tracks.call (h : Tracks F L waiting s d) (hF : F.Exact) (hL : L.Exact)
    (hext : F.Extends (L.note (.call c))) {moves : List Move}
    (hallows : s.allowsAll (.call c :: moves) = true) (hd : d.step c = .ok d') :
    ∃ s', s.perform (.call c) = .ok s' ∧ Tracks F (L.note (.call c)) waiting s' d' := by
  by_cases hreserve : c = .reserve
  · subst hreserve
    exact h.reserve hF hL hext hd
  by_cases hfill : ∃ r v, c = .fill r v
  · obtain ⟨r, v, rfl⟩ := hfill
    exact h.fill hL hd
  have hnote : L.note (.call c) = L := by
    cases c <;> first | exact absurd rfl hreserve | rfl
  rw [hnote] at hext ⊢
  have htop : ∀ k op, c = .addressOp k op → s.topIsPlain = true := by
    rintro k op rfl
    exact (Bool.and_eq_true_iff.mp hallows).1
  obtain ⟨b', hb', htracks⟩ := h.step hF hL hext hreserve (fun r v hc => hfill ⟨r, v, hc⟩) htop hd
  refine ⟨_, ?_, htracks⟩
  have hperform : s.perform (.call c) = (do return { s with builder := ← s.builder.step c }) := by
    cases c <;> first | exact absurd rfl hreserve | exact absurd ⟨_, _, rfl⟩ hfill | rfl
  rw [hperform]
  exact bind_eq_ok.mpr ⟨b', hb', rfl⟩

end Tracks

/-! ## Whole lists of moves -/

/-- A ledger stays exact. -/
theorem Ledger.exact_foldl {L : Ledger} (hL : L.Exact) (moves : List Move) :
    (moves.foldl note L).Exact := by
  induction moves generalizing L with
  | nil => exact hL
  | cons m moves ih => exact ih (exact_note hL m)

/-- A ledger forgets nothing. -/
theorem Ledger.extends_foldl (L : Ledger) (moves : List Move) :
    (moves.foldl note L).Extends L := by
  induction moves generalizing L with
  | nil => exact ⟨List.prefix_rfl, List.prefix_rfl⟩
  | cons m moves ih =>
    have hm := extends_note L m
    exact ⟨hm.kept.trans (ih (L.note m)).kept, hm.deferred.trans (ih (L.note m)).deferred⟩

/-- By induction on the moves. The ledger of the whole session is fixed from the start, since the
direct run has the constants in its text before they are filled in. -/
theorem Tracks.run {moves : List Move} {L : Ledger} {waiting : List Nat} {s : Session}
    {d d' : Builder} (h : Tracks (moves.foldl Ledger.note L) L waiting s d) (hL : L.Exact)
    (hopen : d.resolved = false)
    (hsettles : Move.settlesAll waiting L.deferred.length moves = true)
    (hallows : s.allowsAll moves = true)
    (hrun : Backend.run d (moves.flatMap Move.atOnce) = .ok d') :
    ∃ s', moves.foldlM Session.perform s = .ok s' ∧
      Tracks (moves.foldl Ledger.note L) (moves.foldl Ledger.note L) [] s' d' := by
  induction moves generalizing L waiting s d with
  | nil =>
    obtain rfl := Backend.run_nil_eq_ok.mp hrun
    obtain rfl : waiting = [] := List.isEmpty_iff.mp hsettles
    exact ⟨s, rfl, h⟩
  | cons m moves ih =>
    have hF := Ledger.exact_foldl hL (m :: moves)
    have hext := Ledger.extends_foldl (L.note m) moves
    have hL' := Ledger.exact_note hL m
    rw [List.flatMap_cons, Backend.run_append_eq_ok] at hrun
    obtain ⟨d₁, hd₁, hrest⟩ := hrun
    cases m with
    | call c =>
      have hd₁ : d.step c = .ok d₁ := Backend.run_singleton_eq_ok.mp hd₁
      obtain ⟨s₁, hs₁, htracks⟩ := h.call hF hL hext hallows hd₁
      have hcount : (L.note (.call c)).deferred = L.deferred := by cases c <;> rfl
      obtain ⟨s', hs', hfinal⟩ := ih htracks hL' (Builder.resolved_of_step hd₁ ▸ hopen)
        (hcount ▸ hsettles) (allowsAll_of_perform hallows hs₁) hrest
      exact ⟨s', bind_eq_ok.mpr ⟨s₁, hs₁, hs'⟩, hfinal⟩
    | defer v =>
      have hd₁ : d.step (.push v) = .ok d₁ := Backend.run_singleton_eq_ok.mp hd₁
      obtain ⟨s₁, hs₁, htracks⟩ := h.defer hF hL hext hd₁
      have hcount : (L.note (.defer v)).deferred.length = L.deferred.length + 1 :=
        List.length_append
      obtain ⟨s', hs', hfinal⟩ := ih htracks hL' (Builder.resolved_of_step hd₁ ▸ hopen)
        (hcount ▸ hsettles) (allowsAll_of_perform hallows hs₁) hrest
      exact ⟨s', bind_eq_ok.mpr ⟨s₁, hs₁, hs'⟩, hfinal⟩
    | settle k =>
      obtain rfl := Backend.run_nil_eq_ok.mp hd₁
      obtain ⟨hk, hsettles⟩ := Bool.and_eq_true_iff.mp hsettles
      obtain ⟨s₁, hs₁, htracks⟩ := h.settle hL hopen (List.contains_iff_mem.mp hk)
      obtain ⟨s', hs', hfinal⟩ := ih htracks hL' hopen hsettles
        (allowsAll_of_perform hallows hs₁) hrest
      exact ⟨s', bind_eq_ok.mpr ⟨s₁, hs₁, hs'⟩, hfinal⟩

section Finished

variable {F : Ledger} {s : Session} {d : Builder}

/-- A slot that does not exist becomes one that does not exist. -/
theorem Ledger.Exact.piece_of_ge (hF : F.Exact) {i : Nat} (hi : F.size ≤ i) :
    F.piece i = .slot F.kept.length := by
  have hnew : ¬ (i ∈ F.kept ∨ ∃ v, (i, v) ∈ F.deferred) := by
    rw [← hF.lt_size_iff]
    omega
  have hlookup : F.deferred.lookup i = none := by
    rw [List.lookup_eq_none_iff]
    rintro ⟨j, v⟩ hj
    rw [bne_iff_ne]
    rintro rfl
    exact hnew (.inr ⟨v, hj⟩)
  rw [piece, hlookup, List.idxOf_eq_length fun h => hnew (.inl h)]

/-- Once all constants are settled, every slot has the text that the run at once has there. -/
theorem Tracks.settled (h : Tracks F F [] s d) (hF : F.Exact) :
    Settled ⟨F.piece, d.id, d.slots⟩ s.builder.slots := by
  intro i
  rcases Nat.lt_or_ge i F.size with hlt | hge
  · rcases hF.lt_size_iff.mp hlt with hkept | ⟨v, hv⟩
    · obtain ⟨p, hp⟩ := List.getElem?_of_mem hkept
      exact .inr ⟨p, Ledger.piece_of_kept hF hp, h.keptSlot p i hp⟩
    · obtain ⟨k, hk⟩ := List.getElem?_of_mem hv
      have hslot := h.deferredSlot k i v hk
      rw [if_neg List.not_mem_nil] at hslot
      exact .inl ⟨v, Ledger.piece_of_deferred hF hv, hslot⟩
  · refine .inr ⟨_, hF.piece_of_ge hge, ?_⟩
    show s.builder.slots[i]? = d.slots[F.kept.length]?
    rw [Array.getElem?_eq_none (h.size ▸ hge), ← h.sizeKept, Array.getElem?_eq_none (Nat.le_refl _)]

/-- When nothing is waiting and the direct run has filled its slots, every slot has its text. -/
theorem Tracks.filled (h : Tracks F F [] s d) (hF : F.Exact)
    (hd : ∀ slot ∈ d.slots, slot.isSome = true) : ∀ slot ∈ s.builder.slots, slot.isSome = true := by
  intro slot hslot
  obtain ⟨i, hi⟩ := Array.getElem?_of_mem hslot
  have hlt : i < F.size := h.size ▸ (Array.getElem?_eq_some_iff.mp hi).1
  rcases hF.lt_size_iff.mp hlt with hkept | ⟨v, hv⟩
  · obtain ⟨p, hp⟩ := List.getElem?_of_mem hkept
    exact hd slot (Array.mem_of_getElem? ((h.keptSlot p i hp).symm.trans hi))
  · obtain ⟨k, hk⟩ := List.getElem?_of_mem hv
    have htext := (h.deferredSlot k i v hk).symm.trans hi
    rw [if_neg List.not_mem_nil] at htext
    rw [← Option.some.inj htext]
    rfl

end Finished

/-- Two new builders, which need not have the same identity. -/
theorem tracks_fresh (F : Ledger) (registry : Registry) (options : Options) (id id' : Nat) :
    Tracks F {} [] { builder := { id := id', registry := registry, options := options } }
      { id := id, registry := registry, options := options } where
  state := by simp [Builder.subst, Block.subst]
  bounded := by simp [Bounded, Builder.subst, Block.subst]
  size := rfl
  sizeKept := rfl
  kept := rfl
  deferred := rfl
  waits := by simp
  keptSlot := by simp
  deferredSlot := by simp

/-- **Deferred constants leave no trace in the source.** If the calls with all constants pushed at
once result in a file, the session that defers some of them and settles each of them later, in any
order, results in the same file, provided that no address that is followed has a deferred constant
in it. -/
theorem translate_session {registry : Registry} {options : Options} {id : Nat} {moves : List Move}
    {text : String}
    (h : Builder.translate { id := id, registry := registry, options := options }
      (moves.flatMap Move.atOnce) = .ok text)
    (hsettles : Move.settlesAll [] 0 moves = true) (id' : Nat)
    (hallows : Session.allowsAll
      { builder := { id := id', registry := registry, options := options } } moves = true) :
    Session.translate { builder := { id := id', registry := registry, options := options } } moves =
      .ok text := by
  obtain ⟨d, hrun, h⟩ := bind_eq_ok.mp h
  obtain ⟨⟨source, d'⟩, hresolve, h⟩ := bind_eq_ok.mp h
  obtain rfl : source = text := Except.ok.inj h
  have hempty : Ledger.Exact {} := List.Perm.refl []
  obtain ⟨s, hs, htracks⟩ :=
    (tracks_fresh _ registry options id id').run hempty rfl hsettles hallows hrun
  have hF := Ledger.exact_foldl hempty moves
  have hfilled := htracks.filled hF (Builder.resolve_eq_ok.mp hresolve).1.slots
  rw [← htracks.state] at hresolve
  obtain ⟨b', hb'⟩ := Builder.resolve_of_subst (htracks.settled hF) hfilled hresolve
  exact bind_eq_ok.mpr ⟨s, hs, bind_eq_ok.mpr ⟨_, hb', rfl⟩⟩

/-- A function literal that is used twice, with a deferred constant and a place of its own in it,
next to a deferred constant in a sum. -/
def scaled : List Move :=
  let int : Ty := .basic (.integer .int)
  let x : Var := ⟨1, "x", int⟩
  let f : Func := { id := 5, name := "f", nestDepth := 1, results := [.unnamedResult 6 int 0] }
  [.call (.defineVar [x]), .call (.defineFunc f), .defer (.integer .int 7001 (by decide)),
    .call .reserve, .call (.builtinOp (.integer .int) (.binary .mul)), .call (.ret 1),
    .call (.endFunc f), .defer (.integer .int (-2003) (by decide)), .call (.closure f),
    .call (.callClosure 0 0 false), .call (.builtinOp (.integer .int) (.binary .add)),
    .call (.storeVar x), .settle 1, .call (.closure f), .call (.callClosure 0 0 false),
    .call (.addrVar x), .call (.addressOp (.integer .int) .addAssign),
    .call (.fill ⟨3, 0⟩ (.integer .int 5009 (by decide))), .settle 0]

def scaledText : String :=
  "package main\n\nfunc main() \x7b\n\tvar x int\n" ++
    "\tx = -2003 + func() int \x7b\n\t\treturn 7001 * 5009\n\t\x7d()\n" ++
    "\tx += func() int \x7b\n\t\treturn 7001 * 5009\n\t\x7d()\n\x7d\n"

theorem translate_scaled :
    Session.translate { builder := { id := 8, registry := {} } } scaled = .ok scaledText :=
  have hdirect : Builder.translate { id := 3, registry := {} } (scaled.flatMap Move.atOnce) =
      .ok scaledText := eq_ok_of_toOption (by decide +kernel)
  translate_session hdirect (by decide +kernel) 8 (by decide +kernel)

end Lowering.Source
