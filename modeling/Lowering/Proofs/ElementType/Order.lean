import Mathlib.Data.List.Basic
import Lowering.Proofs.ElementType

/-!
# Element types do not depend on the order

The loop over the elements keeps the first fixed type it met and the constants in the order in
which they came, and ends at the first element that it cannot use. Neither shows in the type that is
found.

`Demand.Adds` says what an element that is accepted adds. From it, two neighbours may be exchanged
(`Demand.Adds.exchange`) up to the order of the constants (`Demand.Alike`), and so the elements may
be put into any order (`exists_foldlM_of_perm`). The order of the constants does not matter for the
rest (`Demand.Alike.meet_eq`). Errors depend on the order only if an element is not a single value:
all other elements can only disagree (`agreesOrNot_ofElements`).

Elements that are selected with a step are the elements at certain places, in order
(`select_eq_strided`). Main statement: `unify_order`.
-/

namespace Lowering.ElementType

variable {d d' e : Demand} {o : Operand} {xs ys : List Operand} {t : Ty}

/-! ## What an element adds -/

/-- The same demand, up to the order of the constants that have to convert. -/
structure Demand.Alike (d e : Demand) : Prop where
  fixed : d.fixed = e.fixed
  pending : d.pending.Perm e.pending

theorem Demand.Alike.refl (d : Demand) : d.Alike d := ⟨rfl, .refl _⟩

theorem Demand.Alike.trans {f : Demand} (h : d.Alike e) (h' : e.Alike f) : d.Alike f :=
  ⟨h.fixed.trans h'.fixed, h.pending.trans h'.pending⟩

/-- An element that is accepted fixes its type, or is an open constant that has to convert. -/
inductive Demand.Adds (d : Demand) : Operand → Demand → Prop
  | typed {o : Operand} {t : Ty} (hone : o.arity = 1) (ht : o.ty? = some t)
    (hsame : ∀ u ∈ d.fixed, u = t) : d.Adds o { d with fixed := some t }
  | pending {c : Const} (hb : c.isBound = false) :
    d.Adds (.const c) { d with pending := d.pending ++ [c] }

/-- A single value without a type is an open constant, or its type cannot be asked for. -/
theorem open_or_fault (hone : o.arity = 1) (ht : o.ty? = none) :
    (∃ c, o = .const c ∧ c.isBound = false) ∨
      d.add o = .error (.fault (.typeRequested o.description)) := by
  have hty : o.ty = .error (.typeRequested o.description) := by rw [Operand.ty, ht]; rfl
  unfold Demand.add
  rw [hone]
  cases o with
  | const c =>
    cases hb : c.isBound with
    | false => exact .inl ⟨c, rfl, hb⟩
    | true =>
      right
      simp only [hb, if_true, Demand.add.fix, hty]
  | _ =>
    right
    simp only [Demand.add.fix, hty]

theorem add_eq_ok_iff : d.add o = .ok d' ↔ d.Adds o d' := by
  constructor
  · intro h
    by_cases hone : o.arity = 1
    · cases ht : o.ty? with
      | some t =>
        rw [add_of_ty? hone ht] at h
        split at h
        · next hsame =>
          cases h
          exact .typed hone ht hsame
        · cases h
      | none =>
        rcases open_or_fault (d := d) hone ht with ⟨c, rfl, hb⟩ | hfault
        · rw [add_of_open hb] at h
          cases h
          exact .pending hb
        · cases hfault.symm.trans h
    · obtain ⟨e, he⟩ := exists_add_error (d := d) hone
      cases he.symm.trans h
  · intro h
    cases h with
    | typed hone ht hsame => exact (add_of_ty? hone ht).trans (if_pos hsame)
    | pending hb => exact add_of_open hb

/-! ## Exchanging elements -/

theorem Demand.Adds.alike (h : d.Adds o d') (hde : d.Alike e) :
    ∃ e', e.Adds o e' ∧ d'.Alike e' := by
  cases h with
  | typed hone ht hsame => exact ⟨_, .typed hone ht (hde.fixed ▸ hsame), rfl, hde.pending⟩
  | pending hb => exact ⟨_, .pending hb, hde.fixed, hde.pending.append_right _⟩

/-- Two neighbours may be exchanged. -/
theorem Demand.Adds.exchange {o' : Operand} {d₂ : Demand} (h : d.Adds o d') (h' : d'.Adds o' d₂) :
    ∃ e e₂, d.Adds o' e ∧ e.Adds o e₂ ∧ d₂.Alike e₂ := by
  cases h with
  | @typed o t hone ht hsame =>
    cases h' with
    | @typed o' u hone' hu hsame' =>
      -- The second type is compared with the first one, so they are the same.
      obtain rfl : t = u := hsame' t rfl
      exact ⟨_, _, .typed hone' hu hsame, .typed hone ht (by simp), .refl _⟩
    | pending hb => exact ⟨_, _, .pending hb, .typed hone ht hsame, .refl _⟩
  | @pending c hb =>
    cases h' with
    | typed hone' hu hsame' => exact ⟨_, _, .typed hone' hu hsame', .pending hb, .refl _⟩
    | @pending c' hb' =>
      refine ⟨_, _, .pending hb', .pending hb, rfl, ?_⟩
      show (d.pending ++ [c] ++ [c']).Perm (d.pending ++ [c'] ++ [c])
      rw [List.append_assoc, List.append_assoc]
      exact (List.Perm.swap c' c []).append_left d.pending

theorem foldlM_cons_eq_ok {f : Demand} :
    (o :: xs).foldlM Demand.add d = .ok f ↔
      ∃ d', d.Adds o d' ∧ xs.foldlM Demand.add d' = .ok f := by
  simp only [List.foldlM_cons, bind_eq_ok, add_eq_ok_iff]

theorem exists_foldlM_of_alike (hde : d.Alike e) (h : xs.foldlM Demand.add d = .ok d') :
    ∃ e', xs.foldlM Demand.add e = .ok e' ∧ d'.Alike e' := by
  induction xs generalizing d e with
  | nil =>
    cases h
    exact ⟨e, rfl, hde⟩
  | cons o xs ih =>
    obtain ⟨m, hadds, hrest⟩ := foldlM_cons_eq_ok.mp h
    obtain ⟨m', hadds', halike⟩ := hadds.alike hde
    obtain ⟨e', hrest', hend⟩ := ih halike hrest
    exact ⟨e', foldlM_cons_eq_ok.mpr ⟨m', hadds', hrest'⟩, hend⟩

/-- The elements may come in any order. -/
theorem exists_foldlM_of_perm (hperm : xs.Perm ys) (h : xs.foldlM Demand.add d = .ok d') :
    ∃ e', ys.foldlM Demand.add d = .ok e' ∧ d'.Alike e' := by
  induction hperm generalizing d d' with
  | nil => exact ⟨d', h, .refl d'⟩
  | cons o _ ih =>
    obtain ⟨m, hadds, hrest⟩ := foldlM_cons_eq_ok.mp h
    obtain ⟨e', hrest', hend⟩ := ih hrest
    exact ⟨e', foldlM_cons_eq_ok.mpr ⟨m, hadds, hrest'⟩, hend⟩
  | swap o o' xs =>
    obtain ⟨m, hadds, htail⟩ := foldlM_cons_eq_ok.mp h
    obtain ⟨m₂, hadds₂, hrest⟩ := foldlM_cons_eq_ok.mp htail
    obtain ⟨n, n₂, hadds', hadds₂', halike⟩ := hadds.exchange hadds₂
    obtain ⟨e', hrest', hend⟩ := exists_foldlM_of_alike halike hrest
    refine ⟨e', foldlM_cons_eq_ok.mpr ⟨n, hadds', ?_⟩, hend⟩
    exact foldlM_cons_eq_ok.mpr ⟨n₂, hadds₂', hrest'⟩
  | trans _ _ ih ih' =>
    obtain ⟨m, hm, halike⟩ := ih h
    obtain ⟨e', hrest', hend⟩ := ih' hm
    exact ⟨e', hrest', halike.trans hend⟩

/-! ## Meeting the demand -/

theorem commonKind_of_perm {cs cs' : List Const} (h : cs.Perm cs') :
    commonKind cs = commonKind cs' := by
  induction h with
  | nil => rfl
  | cons c hperm _ => simp only [commonKind, hperm.all_eq]
  | swap c c' cs =>
    by_cases hkind : c.defaultKind = c'.defaultKind
    · simp [commonKind, hkind]
    · simp [commonKind, hkind, Ne.symm hkind]
  | trans _ _ ih ih' => exact ih.trans ih'

theorem Demand.Alike.meet_eq (h : d.Alike e) : d.meet = e.meet := by
  unfold Demand.meet
  rw [h.fixed, commonKind_of_perm h.pending]
  cases e.fixed with
  | none => rfl
  | some t => simp only [h.pending.all_eq]

/-- A type that is found is found in any order. -/
theorem ofElements_of_perm {found : Option Ty} (hperm : xs.Perm ys)
    (h : ofElements xs = .ok found) : ofElements ys = .ok found := by
  rw [ofElements_eq_bind] at h ⊢
  obtain ⟨d, hfold, hmeet⟩ := bind_eq_ok.mp h
  obtain ⟨e, hfold', halike⟩ := exists_foldlM_of_perm hperm hfold
  exact bind_eq_ok.mpr ⟨e, hfold', halike.meet_eq ▸ hmeet⟩

/-! ## Errors -/

/-- A result, or the error that elements disagree. -/
def AgreesOrNot {α : Type} (outcome : Except (Failure CompileError) α) : Prop :=
  (∃ a, outcome = .ok a) ∨ outcome = .error (.error .mismatchedElements)

theorem agreesOrNot_ite {α : Type} {p : Prop} [Decidable p] {a : α} :
    AgreesOrNot (if p then .ok a else .error (.error .mismatchedElements)) := by
  by_cases hp : p
  · exact .inl ⟨a, if_pos hp⟩
  · exact .inr (if_neg hp)

theorem agreesOrNot_add (ho : o.Reachable) (hone : o.arity = 1) : AgreesOrNot (d.add o) := by
  cases ht : o.ty? with
  | none =>
    obtain ⟨c, rfl, hb⟩ := ho.exists_open hone ht
    exact .inl ⟨_, add_of_open hb⟩
  | some t =>
    rw [add_of_ty? hone ht]
    exact agreesOrNot_ite

theorem agreesOrNot_foldlM (hxs : ∀ o ∈ xs, o.Reachable ∧ o.arity = 1) :
    AgreesOrNot (xs.foldlM Demand.add d) := by
  induction xs generalizing d with
  | nil => exact .inl ⟨d, rfl⟩
  | cons o xs ih =>
    obtain ⟨ho, hrest⟩ := List.forall_mem_cons.mp hxs
    rw [List.foldlM_cons]
    rcases agreesOrNot_add (d := d) ho.1 ho.2 with ⟨d', hd'⟩ | herror
    · rw [hd']
      exact ih hrest
    · rw [herror]
      exact .inr rfl

theorem agreesOrNot_meet (hbasic : ∀ c ∈ d.pending, c.defaultKind.isBasic = true) :
    AgreesOrNot d.meet := by
  cases hfixed : d.fixed with
  | some t =>
    rw [meet_of_fixed hfixed]
    exact agreesOrNot_ite
  | none =>
    cases hpending : d.pending with
    | nil =>
      refine .inl ⟨none, ?_⟩
      unfold Demand.meet
      rw [hfixed, hpending]
      rfl
    | cons c cs =>
      rw [hpending] at hbasic
      rw [meet_of_open hfixed hpending (hbasic c List.mem_cons_self)]
      exact agreesOrNot_ite

/-- Single values have a common type or disagree; there is no other error. -/
theorem agreesOrNot_ofElements (hxs : ∀ o ∈ xs, o.Reachable ∧ o.arity = 1) :
    AgreesOrNot (ofElements xs) := by
  rw [ofElements_eq_bind]
  rcases agreesOrNot_foldlM (d := {}) hxs with ⟨d, hd⟩ | herror
  · have hof := of_nil.yields_foldlM fun o ho => (hxs o ho).1
    rw [hd, List.nil_append] at hof
    have hof : d.Of xs := hof
    rw [hd]
    refine agreesOrNot_meet fun c hc => ?_
    obtain ⟨hmem, hb⟩ := (hof.pending c).mp hc
    exact Const.isBasic_defaultKind (Const.stored_of_reachable (hxs _ hmem).1.of_const) hb
  · rw [herror]
    exact .inr rfl

/-! ## Strides -/

section Strides

variable {α : Type} {base max step : Nat}

/-- The places `base`, `base + step` and so on, below `max`. -/
def places (base max step : Nat) : List Nat :=
  (List.range max).filter fun i => base ≤ i ∧ step ∣ i - base

/-- The elements at these places, in order. -/
def strided (base max step : Nat) (xs : List α) : List α :=
  (places base max step).filterMap (xs[·]?)

/-- After a place has been taken, the next one is `gap` elements away. -/
theorem dvd_succ_iff (gap i : Nat) : gap + 1 ∣ i + 1 ↔ gap ≤ i ∧ gap + 1 ∣ i - gap := by
  constructor
  · intro h
    have hle : gap ≤ i := Nat.le_of_succ_le_succ (Nat.le_of_dvd (Nat.succ_pos i) h)
    refine ⟨hle, ?_⟩
    rw [← Nat.succ_sub_succ]
    exact Nat.dvd_sub h (Nat.dvd_refl _)
  · rintro ⟨hle, h⟩
    have hsum : i + 1 = i - gap + (gap + 1) := by omega
    rw [hsum]
    exact Nat.dvd_add h (Nat.dvd_refl _)

theorem everyFrom_eq_strided (gap skip : Nat) (xs : List α) :
    everyFrom gap skip xs = strided skip xs.length (gap + 1) xs := by
  induction xs generalizing skip with
  | nil => cases skip <;> rfl
  | cons x xs ih =>
    unfold strided places at ih ⊢
    rw [List.length_cons, List.range_succ_eq_map]
    cases skip with
    | zero =>
      simp [everyFrom, ih, List.filter_map, List.filterMap_map, Function.comp_def, dvd_succ_iff]
    | succ skip =>
      simp [everyFrom, ih, List.filter_map, List.filterMap_map, Function.comp_def]

theorem everyFrom_drop (gap skip : Nat) (xs : List α) :
    everyFrom gap 0 (xs.drop skip) = everyFrom gap skip xs := by
  induction xs generalizing skip with
  | nil => cases skip <;> rfl
  | cons x xs ih =>
    cases skip with
    | zero => rfl
    | succ skip => exact ih skip

/-- The selected elements are those at `base`, `base + step` and so on, below `max`, in order. -/
theorem select_eq_strided {xs : List α} (hmax : max ≤ xs.length) (hstep : 1 ≤ step) :
    select base max step xs = strided base max step xs := by
  unfold select
  rw [everyFrom_drop, everyFrom_eq_strided, Nat.sub_add_cancel hstep, List.length_take,
    Nat.min_eq_left hmax]
  refine List.filterMap_congr fun i hi => ?_
  have hlt : i < max := List.mem_range.mp (List.mem_filter.mp hi).1
  exact List.getElem?_take_of_lt hlt

end Strides

/-! ## The type of a literal's elements -/

/-- Every element is selected from a whole list. -/
theorem unify_whole (xs : List Operand) : unify xs 0 xs.length 1 = ofElements xs := by
  rw [unify_eq_ofElements (Nat.zero_le _) (Nat.le_refl _) (Nat.le_refl 1)]
  have hall : select 0 xs.length 1 xs = xs := by
    refine List.ext_getElem? fun i => ?_
    rw [select, List.take_length, List.drop_zero, getElem?_everyFrom]
    simp
  rw [hall]

/-- **The element type does not depend on the order.** Whatever order the elements are put into, a
type is found for both lists or for neither, and it is the same. If all elements are single values,
also the error is the same. Elements selected by a valid range with a step are treated as the list
of the elements at those places; any other range is a fault. -/
theorem unify_order (xs : List Operand) :
    (∀ ys, xs.Perm ys →
      (∀ found, unify xs 0 xs.length 1 = .ok found ↔ unify ys 0 ys.length 1 = .ok found) ∧
      ((∀ o ∈ xs, o.Reachable ∧ o.arity = 1) →
        unify xs 0 xs.length 1 = unify ys 0 ys.length 1)) ∧
    ∀ base max step,
      (base ≤ max ∧ max ≤ xs.length ∧ 1 ≤ step →
        unify xs base max step =
          unify (strided base max step xs) 0 (strided base max step xs).length 1) ∧
      (¬ (base ≤ max ∧ max ≤ xs.length ∧ 1 ≤ step) →
        ∃ f, unify xs base max step = .error (.fault f)) := by
  refine ⟨fun ys hperm => ?_, fun base max step => ⟨?_, fun hrange => ?_⟩⟩
  · rw [unify_whole, unify_whole]
    have hfound : ∀ found, ofElements xs = .ok found ↔ ofElements ys = .ok found := fun _ =>
      ⟨ofElements_of_perm hperm, ofElements_of_perm hperm.symm⟩
    refine ⟨hfound, fun hxs => ?_⟩
    have hys : ∀ o ∈ ys, o.Reachable ∧ o.arity = 1 := fun o ho => hxs o (hperm.mem_iff.mpr ho)
    rcases agreesOrNot_ofElements hxs with ⟨found, hok⟩ | herror
    · rw [hok, (hfound found).mp hok]
    · rcases agreesOrNot_ofElements hys with ⟨found, hok⟩ | herror'
      · cases herror.symm.trans ((hfound found).mpr hok)
      · rw [herror, herror']
  · rintro ⟨hbase, hmax, hstep⟩
    rw [unify_whole, unify_eq_ofElements hbase hmax hstep, select_eq_strided hmax hstep]
  · unfold unify
    split
    · exact ⟨_, rfl⟩
    · rw [if_pos (by omega)]
      exact ⟨_, rfl⟩

/-- An open integer, a value of a type with a name, a string and an open float. -/
def readings : List Operand :=
  [.const (.int (-40)), .value (.defined "main" "Kelvin" (.basic (.float .double))),
    .const (.typed (.string "broken")), .const (.float ⟨0x4035800000000000⟩)]

theorem single_readings : ∀ o ∈ readings, o.Reachable ∧ o.arity = 1 := by
  simp only [readings, List.forall_mem_cons, List.not_mem_nil, false_imp_iff, implies_true]
  exact ⟨⟨.const (.literal (l := .int _) rfl), rfl⟩, ⟨.value _, rfl⟩,
    ⟨.const (.literal (l := .typed _) rfl), rfl⟩, ⟨.const (.literal (l := .float _) rfl), rfl⟩,
    trivial⟩

/-- Backwards, the string is met before the type that it does not agree with. Without the string, a
type is found in both directions. -/
theorem unify_order_readings :
    unify readings 0 4 1 = unify readings.reverse 0 4 1 ∧
      unify (readings.eraseIdx 2).reverse 0 3 1 =
        .ok (some (.defined "main" "Kelvin" (.basic (.float .double)))) ∧
      unify readings 0 4 3 =
        unify [.const (.int (-40)), .const (.float ⟨0x4035800000000000⟩)] 0 2 1 :=
  ⟨((unify_order readings).1 _ readings.reverse_perm.symm).2 single_readings,
    (((unify_order (readings.eraseIdx 2)).1 _ (List.reverse_perm _).symm).1 _).mp
      (eq_ok_of_toOption (by decide +kernel)),
    ((unify_order readings).2 0 4 3).1 (by decide)⟩

end Lowering.ElementType
