import Lowering.Proofs.Bytecode.Sites

/-!
# The source positions of instructions

A statement is the calls between its start and its end. When it ends with a position, the builder
records the instructions emitted since its mark, and `Code.posAt` asks for the first of the shortest
records around an instruction.

`Nested` says that the statements of some calls are nested: every end carries the mark of the latest
statement that is still open, and nothing stays open. Then `posAt` names the innermost statement
around an instruction that has a position (`posAt_of_assemble`). The length of a record does not
tell an inner statement from an outer one with the same instructions. The order of the records does:
of two statements around an instruction the inner one ends first, and it starts last, so the records
around an instruction are in the order of their lengths.
-/

namespace Lowering

namespace Call

/-- Whether a call starts or ends a statement. -/
def boundsStmt : Call → Bool
  | startStmt _ | endStmt _ _ => true
  | _ => false

theorem boundsStmt_of_emits {c : Call} (h : c.emits = true) : c.boundsStmt = false := by
  cases c with
  | startStmt _ | endStmt _ _ => simp [emits] at h
  | _ => rfl

end Call

namespace Bytecode

variable {n ip : Nat} {marks : List Nat} {c : Call} {calls pre post : List Call}

/-! ## Nested statements -/

/-- `Nested n marks calls`: after `n` instructions, with statements open that have the given marks,
the innermost first, the calls end every statement, each with its own mark and the innermost first.
A statement's mark is the number of the instructions before it. -/
inductive Nested : Nat → List Nat → List Call → Prop
  | done {n : Nat} : Nested n [] []
  | start {n : Nat} {marks : List Nat} {pos : Option SourcePos} {rest : List Call}
    (h : Nested n (n :: marks) rest) : Nested n marks (.startStmt pos :: rest)
  | finish {n mark : Nat} {marks : List Nat} {pos : Option SourcePos} {rest : List Call}
    (h : Nested n marks rest) : Nested n (mark :: marks) (.endStmt pos mark :: rest)
  | other {n : Nat} {marks : List Nat} {c : Call} {rest : List Call} (hc : c.boundsStmt = false)
    (h : Nested (n + (emitted [c]).length) marks rest) : Nested n marks (c :: rest)

/-- The positions that the statements open before some calls get at their ends, the innermost first.
The first `inner` ends are those of statements that started later. -/
def openEnds : (inner : Nat) → List Call → List (Option SourcePos)
  | _, [] => []
  | inner, .startStmt _ :: rest => openEnds (inner + 1) rest
  | 0, .endStmt pos _ :: rest => pos :: openEnds 0 rest
  | inner + 1, .endStmt _ _ :: rest => openEnds inner rest
  | inner, _ :: rest => openEnds inner rest

/-- The first position that is there. -/
def innermost (positions : List (Option SourcePos)) : Option SourcePos := positions.findSome? id

theorem openEnds_other (hc : c.boundsStmt = false) (inner : Nat) :
    openEnds inner (c :: calls) = openEnds inner calls := by
  cases c <;> first | rfl | simp [Call.boundsStmt] at hc

/-- The marks of the open statements go down from a place, the innermost first. -/
structure Descending (n : Nat) (marks : List Nat) : Prop where
  le : ∀ m ∈ marks, m ≤ n
  sorted : marks.Pairwise (· ≥ ·)

theorem Descending.tail {mark : Nat} (h : Descending n (mark :: marks)) : Descending n marks :=
  ⟨fun m hm => h.le m (List.mem_cons_of_mem _ hm), (List.pairwise_cons.mp h.sorted).2⟩

theorem Descending.add (h : Descending n marks) (k : Nat) : Descending (n + k) marks :=
  ⟨fun m hm => Nat.le_add_right_of_le (h.le m hm), h.sorted⟩

theorem Descending.start (h : Descending n marks) : Descending n (n :: marks) :=
  ⟨List.forall_mem_cons.mpr ⟨Nat.le_refl n, h.le⟩, List.pairwise_cons.mpr ⟨h.le, h.sorted⟩⟩

/-- At a place between the calls, what is open there is ended by the calls behind it. -/
theorem Nested.behind (h : Nested n marks (pre ++ post)) (hmarks : Descending n marks) :
    ∃ marks', Nested (n + (emitted pre).length) marks' post ∧
      Descending (n + (emitted pre).length) marks' := by
  induction pre generalizing n marks with
  | nil => exact ⟨marks, h, hmarks⟩
  | cons c pre ih =>
    rw [emitted_cons, List.length_append, ← Nat.add_assoc]
    cases h with
    | start h => exact ih h hmarks.start
    | finish h => exact ih h hmarks.tail
    | other _ h => exact ih h (hmarks.add _)

theorem length_emitted_of_emits (hc : c.emits = true) : (emitted [c]).length = 1 := by
  rw [emitted_singleton, if_pos hc, List.length_singleton]

/-- An instruction neither starts nor ends a statement. -/
theorem Nested.of_emits (h : Nested n marks (c :: calls)) (hc : c.emits = true) :
    Nested (n + 1) marks calls := by
  cases h with
  | start _ | finish _ => simp [Call.emits] at hc
  | other _ h => exact length_emitted_of_emits hc ▸ h

/-! ## The records of statements -/

/-- The records that calls leave behind, where `n` instructions stand before them. -/
def spansOf : (n : Nat) → List Call → List StmtSpan
  | _, [] => []
  | n, .endStmt (some pos) mark :: rest =>
    { start := mark, stop := n, pos := pos } :: spansOf n rest
  | n, c :: rest => spansOf (n + (emitted [c]).length) rest

theorem spansOf_other (hc : c.boundsStmt = false) (n : Nat) :
    spansOf n (c :: calls) = spansOf (n + (emitted [c]).length) calls := by
  cases c <;> first | rfl | simp [Call.boundsStmt] at hc

theorem spansOf_cons (n : Nat) (c : Call) (calls : List Call) :
    spansOf n (c :: calls) = spansOf n [c] ++ spansOf (n + (emitted [c]).length) calls := by
  cases hc : c.boundsStmt with
  | false => rw [spansOf_other hc, spansOf_other hc, spansOf, List.nil_append]
  | true =>
    cases c with
    | startStmt _ => rfl
    | endStmt pos mark => cases pos <;> rfl
    | _ => simp [Call.boundsStmt] at hc

theorem spansOf_append (n : Nat) (pre post : List Call) :
    spansOf n (pre ++ post) = spansOf n pre ++ spansOf (n + (emitted pre).length) post := by
  induction pre generalizing n with
  | nil => rfl
  | cons c pre ih =>
    rw [List.cons_append, spansOf_cons, ih, spansOf_cons n c pre, emitted_cons c pre,
      List.length_append, List.append_assoc, Nat.add_assoc]

/-- A record ends between the instructions before its calls and those behind them. -/
theorem stop_of_mem_spansOf {s : StmtSpan} (hs : s ∈ spansOf n calls) :
    n ≤ s.stop ∧ s.stop ≤ n + (emitted calls).length := by
  induction calls generalizing n with
  | nil => simp [spansOf] at hs
  | cons c calls ih =>
    rw [emitted_cons, List.length_append]
    rw [spansOf_cons, List.mem_append] at hs
    rcases hs with hs | hs
    · have hstop : s.stop = n := by
        cases hc : c.boundsStmt with
        | false => simp [spansOf_other hc, spansOf] at hs
        | true =>
          cases c with
          | endStmt pos mark => cases pos <;> simp_all [spansOf]
          | _ => simp [spansOf] at hs
      omega
    · have := ih hs
      omega

/-- A statement that ends here was open before, or it started here. -/
theorem Nested.start_of_mem_spansOf (h : Nested n marks calls) {s : StmtSpan}
    (hs : s ∈ spansOf n calls) : s.start ∈ marks ∨ n ≤ s.start := by
  induction h with
  | done => simp [spansOf] at hs
  | start _ ih =>
    rcases ih hs with hmark | hbehind
    · rcases List.mem_cons.mp hmark with heq | hmark
      · exact .inr (Nat.le_of_eq heq.symm)
      · exact .inl hmark
    · exact .inr hbehind
  | @finish n mark marks pos rest _ ih =>
    cases pos with
    | none => exact (ih hs).imp_left (List.mem_cons_of_mem _)
    | some pos =>
      rcases List.mem_cons.mp hs with rfl | hs
      · exact .inl List.mem_cons_self
      · exact (ih hs).imp_left (List.mem_cons_of_mem _)
  | other hc _ ih =>
    rw [spansOf_other hc] at hs
    exact (ih hs).imp_right Nat.le_of_add_right_le

/-- The records around an earlier instruction are no shorter than one from the last mark on. -/
theorem Nested.size_of_mem_spansOf (h : Nested n marks calls) (hip : ip < n) {mark : Nat}
    (hmark : ∀ m ∈ marks, m ≤ mark) {s : StmtSpan} (hs : s ∈ spansOf n calls)
    (hat : s.contains ip = true) : n - mark ≤ s.size := by
  have hstop := (stop_of_mem_spansOf hs).1
  simp only [StmtSpan.contains, Bool.and_eq_true, decide_eq_true_eq] at hat
  have hstart : s.start ≤ mark := by
    rcases h.start_of_mem_spansOf hs with hm | hm
    · exact hmark _ hm
    · omega
  unfold StmtSpan.size
  omega

/-! ## The shortest record -/

namespace Code

theorem mem_of_shortest {spans : List StmtSpan} {s : StmtSpan} (h : shortest spans = some s) :
    s ∈ spans := by
  induction spans generalizing s with
  | nil => simp [shortest] at h
  | cons t spans ih =>
    unfold shortest at h
    split at h
    · exact Option.some.inj h ▸ List.mem_cons_self
    · next u hu =>
      split at h
      · exact Option.some.inj h ▸ List.mem_cons_self
      · exact Option.some.inj h ▸ List.mem_cons_of_mem _ (ih hu)

/-- The first record is taken when none is shorter. -/
theorem shortest_cons {spans : List StmtSpan} {s : StmtSpan} (h : ∀ t ∈ spans, s.size ≤ t.size) :
    shortest (s :: spans) = some s := by
  unfold shortest
  split
  · rfl
  · next t ht => exact if_pos (h t (mem_of_shortest ht))

end Code

/-- The shortest record around an instruction, among those left by the calls behind it, is that of
the innermost statement with a position. The open statements are `outer`, which started before the
instruction, and `inner`, which started after it. -/
theorem Nested.shortest_spansOf {inner outer : List Nat} (h : Nested n (inner ++ outer) calls)
    (hip : ip < n) (hinner : ∀ m ∈ inner, ip < m) (houter : Descending ip outer) :
    (Code.shortest ((spansOf n calls).filter (·.contains ip))).map (·.pos) =
      innermost (openEnds inner.length calls) := by
  generalize hmarks : inner ++ outer = marks at h
  induction h generalizing inner outer with
  | done => rfl
  | @start n marks pos rest _ ih =>
    subst hmarks
    exact ih hip (List.forall_mem_cons.mpr ⟨hip, hinner⟩) houter rfl
  | other hc _ ih =>
    rw [spansOf_other hc, openEnds_other hc]
    exact ih (Nat.lt_add_right _ hip) hinner houter hmarks
  | @finish n mark marks pos rest hrest ih =>
    cases inner with
    | cons m inner =>
      -- The statement started behind the instruction, and its record is not around it.
      obtain ⟨rfl, rfl⟩ := List.cons.inj hmarks
      obtain ⟨hm, hinner⟩ := List.forall_mem_cons.mp hinner
      have ih := ih hip hinner houter rfl
      cases pos with
      | none => exact ih
      | some pos =>
        have hat : ¬ StmtSpan.contains ⟨m, n, pos⟩ ip = true := by
          simp [StmtSpan.contains, Nat.not_le.mpr hm]
        rw [spansOf, List.filter_cons_of_neg (p := fun s : StmtSpan => s.contains ip) hat]
        exact ih
    | nil =>
      rw [List.nil_append] at hmarks
      subst hmarks
      cases pos with
      | none => exact @ih [] marks hip hinner houter.tail rfl
      | some pos =>
        -- The innermost statement has a position, and its record comes first.
        have hat : StmtSpan.contains ⟨mark, n, pos⟩ ip = true := by
          simp [StmtSpan.contains, houter.le mark List.mem_cons_self, hip]
        have hmark := (List.pairwise_cons.mp houter.sorted).1
        rw [spansOf, List.filter_cons_of_pos (p := fun s : StmtSpan => s.contains ip) hat,
          Code.shortest_cons]
        · rfl
        · intro t ht
          obtain ⟨ht, hat⟩ := List.mem_filter.mp ht
          exact hrest.size_of_mem_spansOf hip hmark ht hat

/-- The shortest record around an instruction, among those of all calls. -/
theorem Nested.shortest_around (h : Nested 0 [] (pre ++ c :: post)) (hc : c.emits = true) :
    (Code.shortest ((spansOf 0 (pre ++ c :: post)).filter
      (·.contains (emitted pre).length))).map (·.pos) = innermost (openEnds 0 post) := by
  obtain ⟨marks, hrest, hmarks⟩ := h.behind ⟨by simp, .nil⟩
  rw [Nat.zero_add] at hrest hmarks
  -- The statements that ended before the instruction are not around it.
  have hpre : (spansOf 0 pre).filter (·.contains (emitted pre).length) = [] := by
    refine List.filter_eq_nil_iff.mpr fun s hs => ?_
    have hstop := (stop_of_mem_spansOf hs).2
    simp only [StmtSpan.contains, Bool.and_eq_true, decide_eq_true_eq]
    omega
  have hbehind : Nested ((emitted pre).length + 1) ([] ++ marks) post := hrest.of_emits hc
  rw [spansOf_append, List.filter_append, hpre, List.nil_append, Nat.zero_add,
    spansOf_other (Call.boundsStmt_of_emits hc), length_emitted_of_emits hc]
  exact hbehind.shortest_spansOf (Nat.lt_succ_self _) (by simp) hmarks

/-! ## Positions of finished code -/

namespace Builder

variable {b b' : Builder} {id : Nat}

theorem Step.spans (h : Step b c b') :
    b'.spans.toList = b.spans.toList ++ spansOf b.ops.size [c] := by
  have hemits : c.emits = true → spansOf b.ops.size [c] = [] := fun hc =>
    spansOf_other (Call.boundsStmt_of_emits hc) _
  cases h with
  | plain hc => rw [hemits (appends_of_op? hc).emits, List.append_nil]; rfl
  | jump hc => rw [hemits (appends_of_jump? hc).emits, List.append_nil]; rfl
  | @access c v mk r hc _ => rw [hemits (appends_of_access? hc r).emits, List.append_nil]; rfl
  | comprehension hc => rw [hemits (appends_of_comprehension? hc).emits, List.append_nil]; rfl
  | endStmt => exact Array.toList_push
  | _ => exact (List.append_nil _).symm

theorem spans_of_run (h : Backend.run b calls = .ok b') :
    b'.spans.toList = b.spans.toList ++ spansOf b.ops.size calls := by
  induction calls generalizing b with
  | nil =>
    rw [Backend.run_nil_eq_ok.mp h, spansOf, List.append_nil]
  | cons c calls ih =>
    obtain ⟨m, hc, hrest⟩ := Backend.run_cons_eq_ok.mp h
    have hstep := (step_eq_ok_iff.mp hc).2
    rw [ih hrest, hstep.spans, hstep.size_ops, List.append_assoc, ← spansOf_cons]

/-- In code whose statements are nested, the position of an instruction is that of the innermost
statement with a position among those open when it was emitted. The marks of `Nested` are those that
the builder hands out. -/
theorem posAt_of_assemble {code : Code} (h : assemble id calls = .ok code)
    (hnested : Nested 0 [] calls) :
    code.ops.length = (emitted calls).length ∧
    (∀ pre post b, calls = pre ++ post → Backend.run ({ id := id } : Builder) pre = .ok b →
      Backend.nextMark b = (emitted pre).length) ∧
    ∀ pre c post, calls = pre ++ c :: post → c.emits = true →
      code.posAt (emitted pre).length = innermost (openEnds 0 post) ∧
      (code.posAt (emitted pre).length = none ↔ ∀ pos ∈ openEnds 0 post, pos = none) := by
  obtain ⟨b, hrun, -, ops, hops, rfl⟩ := assemble_eq_ok.mp h
  refine ⟨?_, fun pre post b _ hpre => (traced_of_run hpre).size, ?_⟩
  · calc ops.toList.length
      _ = b.ops.size := by rw [Array.length_toList, size_patchLabels hops]
      _ = (emitted calls).length := (traced_of_run hrun).size
  · rintro pre c post rfl hc
    have hpos : (b.codeOf ops).posAt (emitted pre).length = innermost (openEnds 0 post) := by
      have hspans : (b.codeOf ops).spans = spansOf 0 (pre ++ c :: post) := spans_of_run hrun
      rw [Code.posAt, hspans]
      exact hnested.shortest_around hc
    refine ⟨hpos, ?_⟩
    rw [hpos, innermost, List.findSome?_eq_none_iff]
    rfl

def sourceLine (line : Nat) : SourcePos := { file := "main.gop", line := line }

/-- Two statements around one instruction, an empty one, one without a position inside another, and
an instruction outside of all. -/
def stackedStmts : List Call :=
  [.startStmt (some (sourceLine 1)), .startStmt (some (sourceLine 2)), .push (.bool true),
    .endStmt (some (sourceLine 2)) 0, .endStmt (some (sourceLine 1)) 0,
    .startStmt (some (sourceLine 3)), .endStmt (some (sourceLine 3)) 1,
    .startStmt (some (sourceLine 4)), .startStmt none, .pop 1, .endStmt none 1,
    .endStmt (some (sourceLine 4)) 1, .defaultCase]

def stackedStmtsCode : Code where
  ops := [.push (.bool true), .pop 1, .default]
  funcs := []
  spans := [⟨0, 1, sourceLine 2⟩, ⟨0, 1, sourceLine 1⟩, ⟨1, 1, sourceLine 3⟩, ⟨1, 2, sourceLine 4⟩]
  numVars := 0

theorem nested_stackedStmts : Nested 0 [] stackedStmts :=
  .start (.start (.other rfl (.finish (.finish (.start (.finish (.start (.start (.other rfl
    (.finish (.finish (.other rfl .done))))))))))))

theorem posAt_stackedStmts :
    assemble 7 stackedStmts = .ok stackedStmtsCode ∧ Nested 0 [] stackedStmts ∧
      stackedStmtsCode.posAt 0 = some (sourceLine 2) ∧
      stackedStmtsCode.posAt 1 = some (sourceLine 4) ∧ stackedStmtsCode.posAt 2 = none := by
  have hcode : assemble 7 stackedStmts = .ok stackedStmtsCode :=
    eq_ok_of_toOption (by decide +kernel)
  obtain ⟨-, -, hpos⟩ := posAt_of_assemble hcode nested_stackedStmts
  exact ⟨hcode, nested_stackedStmts, (hpos (stackedStmts.take 2) _ (stackedStmts.drop 3) rfl rfl).1,
    (hpos (stackedStmts.take 9) _ (stackedStmts.drop 10) rfl rfl).1,
    (hpos (stackedStmts.take 12) _ (stackedStmts.drop 13) rfl rfl).1⟩

end Builder

end Bytecode

end Lowering
