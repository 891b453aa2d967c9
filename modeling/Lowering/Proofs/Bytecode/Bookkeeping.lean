import Lowering.Proofs.Bytecode.Sites

/-!
# Bookkeeping of reserved places

The builder keeps the places that wait to be filled in a list of their own, apart from the stream in
which they are reserved. A handle is only a number, so anyone can make one up or use one twice.
Nothing of this spoils the books:

* the waiting places are the reserved instructions, each of them once (`run_pendingExact`,
  `Balanced.nodup_pending`);
* a filling that is accepted turns one reserved instruction into a push and changes nothing else
  (`filled_of_step`);
* a stream can be finished only if every place that was handed out has been filled, and no place has
  been filled twice (`countP_fills_of_resolve`).

The last two come from counting. `Balanced` says of every place that its fillings so far and its
entries among the waiting places together make one if the place was reserved, and none otherwise.
-/

namespace Lowering

/-- Whether a call fills a given place. -/
def Call.fills (r : Reservation) : Call → Bool
  | .fill q _ => q == r
  | _ => false

namespace Bytecode.Builder

variable {b b' : Builder} {c : Call} {calls : List Call} {id : Nat}

/-! ## Waiting places -/

/-- A call reserves the next place, fills a waiting one, or leaves the waiting places alone. -/
theorem Step.pending_cases (h : Step b c b') :
    (c = .reserve ∧ b'.pending = b.ops.size :: b.pending) ∨
      (∃ r v, c = .fill r v ∧ r.builder = b.id ∧ r.position ∈ b.pending ∧
        b'.pending = b.pending.filter (· ≠ r.position)) ∨
      c ≠ .reserve ∧ (∀ r, c.fills r = false) ∧ b'.pending = b.pending := by
  cases h with
  | reserve => exact .inl ⟨rfl, rfl⟩
  | @fill r v hr hp => exact .inr (.inl ⟨r, v, rfl, hr, hp, rfl⟩)
  | plain hc | jump hc | access hc _ | comprehension hc =>
    refine .inr (.inr ⟨?_, ?_, rfl⟩)
    · rintro rfl
      cases hc
    · intro r
      unfold Call.fills
      split
      · cases hc
      · rfl
  | _ => exact .inr (.inr ⟨by simp, fun _ => rfl, rfl⟩)

/-- How often a place has been handed out. -/
def timesReserved (calls : List Call) (i : Nat) : Nat :=
  if (emitted calls)[i]? = some .reserve then 1 else 0

theorem timesReserved_of_ne (hc : c ≠ .reserve) (i : Nat) :
    timesReserved (calls ++ [c]) i = timesReserved calls i := by
  have hiff : (emitted (calls ++ [c]))[i]? = some .reserve ↔
      (emitted calls)[i]? = some .reserve := by
    refine ⟨fun h => ?_, getElem?_emitted_append⟩
    rw [emitted_append, emitted_singleton, List.getElem?_append] at h
    split at h
    · exact h
    · have hmem := List.mem_of_getElem? h
      split at hmem
      · exact absurd (List.mem_singleton.mp hmem).symm hc
      · cases hmem
  simp only [timesReserved, hiff]

/-- The place that is reserved is that of the next instruction. -/
theorem timesReserved_reserve (calls : List Call) (i : Nat) :
    timesReserved (calls ++ [.reserve]) i =
      timesReserved calls i + if (emitted calls).length = i then 1 else 0 := by
  have hemitted : emitted (calls ++ [.reserve]) = emitted calls ++ [.reserve] := emitted_append _ _
  simp only [timesReserved, hemitted]
  rcases Nat.lt_trichotomy i (emitted calls).length with hlt | rfl | hgt
  · rw [List.getElem?_append_left hlt, if_neg (Nat.ne_of_gt hlt), Nat.add_zero]
  · simp
  · have hlen : (emitted calls ++ [Call.reserve]).length ≤ i := by
      rw [List.length_append]
      exact hgt
    rw [List.getElem?_eq_none hlen, List.getElem?_eq_none (Nat.le_of_lt hgt),
      if_neg (Nat.ne_of_lt hgt), Nat.add_zero]

/-- Every place that was handed out has been filled once or is waiting, and no other place has been
filled or is waiting. -/
def Balanced (calls : List Call) (b : Builder) : Prop :=
  ∀ i, calls.countP (Call.fills ⟨b.id, i⟩) + b.pending.count i = timesReserved calls i

theorem balanced_fresh (id : Nat) : Balanced [] { id := id } := fun _ => rfl

/-- By induction on the calls: the places that are reserved later are greater. -/
theorem timesReserved_le_one (calls : List Call) (i : Nat) : timesReserved calls i ≤ 1 := by
  unfold timesReserved
  split <;> decide

/-- No place is pending twice, as none is reserved twice. -/
theorem Balanced.nodup_pending (hb : Balanced calls b) : b.pending.Nodup := by
  rw [List.nodup_iff_count]
  intro i
  have := hb i
  have := timesReserved_le_one calls i
  omega

theorem fills_fill {r : Reservation} {v : Value} (hr : r.builder = id) (i : Nat) :
    (Call.fill r v).fills ⟨id, i⟩ = decide (r.position = i) := by
  obtain ⟨builder, position⟩ := r
  obtain rfl : builder = id := hr
  simp [Call.fills, BEq.beq]

/-- Only reserving and filling change the balance, of one place each. -/
theorem Balanced.step (hb : Balanced calls b) (hsize : b.ops.size = (emitted calls).length)
    (h : Step b c b') : Balanced (calls ++ [c]) b' := by
  intro i
  have hi := hb i
  rw [h.id_eq, List.countP_append, List.countP_singleton]
  rcases h.pending_cases with ⟨rfl, hpending⟩ | ⟨r, v, rfl, hr, hp, hpending⟩ | ⟨hne, hc, hpending⟩
  · rw [hpending, timesReserved_reserve, ← hi, List.count_cons, hsize]
    simp only [Call.fills, Bool.false_eq_true, if_false, beq_iff_eq, Nat.add_zero, Nat.add_assoc]
  · rw [hpending, timesReserved_of_ne (by simp), fills_fill hr, ← hi]
    by_cases hposition : r.position = i
    · -- The place was waiting once, so its entry goes as its filling comes.
      subst hposition
      have hone : b.pending.count r.position = 1 := by
        rw [List.Nodup.count hb.nodup_pending, if_pos hp]
      have hgone : (b.pending.filter (· ≠ r.position)).count r.position = 0 :=
        List.count_eq_zero.mpr (by simp)
      rw [hone, hgone, decide_eq_true rfl, if_pos rfl, Nat.add_zero]
    · rw [List.count_filter (by simpa using Ne.symm hposition)]
      simp [hposition]
  · rw [hpending, hc, timesReserved_of_ne hne, ← hi]
    simp

/-- By induction on the calls. -/
theorem balanced_of_run (h : Backend.run ({ id := id } : Builder) calls = .ok b) :
    Balanced calls b := by
  have key : Traced calls b ∧ Balanced calls b := by
    refine Backend.run_traces (P := fun calls b => Traced calls b ∧ Balanced calls b)
      ⟨traced_fresh id, balanced_fresh id⟩ ?_ h
    rintro calls m c m' ⟨ht, hm⟩ hc
    have hstep := (step_eq_ok_iff.mp hc).2
    exact ⟨ht.step hstep, hm.step ht.size hstep⟩
  exact key.2

/-! ## Fillings -/

/-- A filling that is accepted, whatever handle it was given, turns a reserved instruction into a
push. -/
theorem filled_of_step {r : Reservation} {v : Value} (hb : PendingExact b)
    (h : b.step (.fill r v) = .ok b') : Filled r v b b' := by
  obtain ⟨hopen, hr, hp, -⟩ := fill_eq_ok.mp h
  have hawaits : Awaits r b := ⟨hopen, hr, hp, (hb r.position).mp hp⟩
  obtain ⟨m, hm, hfilled⟩ := hawaits.fill v
  obtain rfl : m = b' := Except.ok.inj (hm.symm.trans h)
  exact hfilled

theorem id_of_run (h : Backend.run ({ id := id } : Builder) calls = .ok b) : b.id = id :=
  Backend.run_keeps (P := fun b => b.id = id)
    (fun _ _ _ hc hm => (step_eq_ok_iff.mp hc).2.id_eq.trans hm) h rfl

/-- Nothing fills a place before it is handed out, and after that it is filled once, or the stream
cannot be finished. -/
theorem countP_fills_of_resolve {pre post : List Call} {m : Builder} {code : Code}
    (h : Backend.run ({ id := id } : Builder) (pre ++ .reserve :: post) = .ok b)
    (hpre : Backend.run ({ id := id } : Builder) pre = .ok m)
    (hresolve : b.resolve = .ok (code, b')) :
    pre.countP (Call.fills m.nextReservation) = 0 ∧
      post.countP (Call.fills m.nextReservation) = 1 := by
  have hsize : m.ops.size = (emitted pre).length := (traced_of_run hpre).size
  have hbefore : pre.countP (Call.fills m.nextReservation) + m.pending.count m.ops.size = 0 := by
    have hnone : timesReserved pre m.ops.size = 0 := by simp [timesReserved, hsize]
    exact (balanced_of_run hpre m.ops.size).trans hnone
  have hall : (pre ++ .reserve :: post).countP (Call.fills m.nextReservation) = 1 := by
    have hone : timesReserved (pre ++ .reserve :: post) m.ops.size = 1 :=
      if_pos (hsize ▸ getElem?_emitted_at rfl)
    have hnone : b.pending = [] := (resolve_eq_ok.mp hresolve).1.pending
    have hbalanced := balanced_of_run h m.ops.size
    rwa [hone, hnone, id_of_run h, ← id_of_run hpre] at hbalanced
  rw [List.countP_append, List.countP_cons_of_neg (by simp [Call.fills])] at hall
  omega

/-! ## The books -/

/-- **The books cannot be spoiled.** After any calls that a builder accepts, fillings with made-up
or used handles among them,

* the waiting places are the reserved instructions, and none is noted twice;
* a filling that is accepted turns the instruction at its place, which was a reserved one, into a
  push, and changes nothing else;
* if the stream can be finished, every place that was handed out has been filled exactly once, after
  it was handed out. -/
theorem bookkeeping_of_run (h : Backend.run ({ id := id } : Builder) calls = .ok b) :
    (b.pending.Nodup ∧ ∀ i, i ∈ b.pending ↔ b.ops[i]? = some .reserved) ∧
    (∀ r v b', b.step (.fill r v) = .ok b' → Filled r v b b') ∧
    ∀ code b', b.resolve = .ok (code, b') → ∀ pre post, calls = pre ++ .reserve :: post →
      ∃ m, Backend.run ({ id := id } : Builder) pre = .ok m ∧
        pre.countP (Call.fills m.nextReservation) = 0 ∧
        post.countP (Call.fills m.nextReservation) = 1 := by
  have hexact : PendingExact b := run_pendingExact h (pendingExact_fresh id)
  refine ⟨⟨(balanced_of_run h).nodup_pending, hexact⟩, fun r v b' => filled_of_step hexact, ?_⟩
  rintro code b' hresolve pre post rfl
  obtain ⟨m, hpre, -⟩ := Backend.run_append_eq_ok.mp h
  exact ⟨m, hpre, countP_fills_of_resolve h hpre hresolve⟩

/-- Two places that are filled in the other order, the second one with a handle that was made up. -/
def twoPlaces : List Call :=
  [.reserve, .push (.bool true), .reserve, .fill ⟨5, 2⟩ (.bool false), .fill ⟨5, 0⟩ (.string "x")]

def twoPlacesFilled : Builder :=
  { id := 5, ops := #[.push (.string "x"), .push (.bool true), .push (.bool false)] }

theorem bookkeeping_twoPlaces :
    Backend.run ({ id := 5 } : Builder) twoPlaces = .ok twoPlacesFilled ∧
      (∃ code b', twoPlacesFilled.resolve = .ok (code, b')) ∧
      (twoPlaces.drop 3).countP (Call.fills ⟨5, 2⟩) = 1 := by
  have hrun : Backend.run ({ id := 5 } : Builder) twoPlaces = .ok twoPlacesFilled := rfl
  refine ⟨hrun, ⟨_, _, rfl⟩, ?_⟩
  obtain ⟨m, hm, -, hpost⟩ := (bookkeeping_of_run hrun).2.2 _ _ rfl (twoPlaces.take 2) _ rfl
  obtain rfl := Except.ok.inj hm
  exact hpost

end Bytecode.Builder

end Lowering
