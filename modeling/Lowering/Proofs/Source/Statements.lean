import Lowering.Proofs.Source.Deferral
import Lowering.Proofs.Source.Growth
import Lowering.Proofs.Source.Switch

/-!
# The directives of statements

A statement that ends with a position gets a line directive. The directive is written when the
statement ends, and is put in where the statement started: in front of the lines that its block has
got since then. Statements that end later put theirs in further up, or further down, and the places
that are still to come are line numbers from before.

`Balanced` says that statements and bodies are properly nested. Calls like that leave a trace of
events in their block: lines, and starts and ends of statements. `place` reads the trace as the
lines of the block: every start stands for the directive of its statement. `extends_of_balanced`
says that these are the lines of the block, and `directives_of_run` where a directive stands among
them.
-/

namespace Lowering

namespace Call

/-- How many bodies are open inside of a block after a call, if `inner` were open before. -/
def enter (inner : Nat) : Call → Nat
  | defineFunc _ => inner + 1
  | endFunc _ => inner - 1
  | _ => inner

/-- Only calls about functions enter or leave a body. -/
theorem enter_of_delimits {c : Call} (hc : c.delimits = false) (inner : Nat) :
    c.enter inner = inner := by
  cases c with
  | defineFunc _ | endFunc _ => cases hc
  | _ => rfl

end Call

namespace Source

variable {n mark : Nat} {c : Call} {calls body rest : List Call} {pos : Option SourcePos}

/-! ## Nested calls -/

/-- Statements and bodies are properly nested, and none stays open. The next statement has the mark
`n`. -/
inductive Balanced : (n : Nat) → List Call → Prop
  | nil {n : Nat} : Balanced n []
  | call {n : Nat} {c : Call} {rest : List Call} (hc : c.delimits = false) (h : Balanced n rest) :
    Balanced n (c :: rest)
  | stmt {n : Nat} {start pos : Option SourcePos} {body rest : List Call}
    (hbody : Balanced (n + 1) body) (h : Balanced n rest) :
    Balanced n (.startStmt start :: (body ++ .endStmt pos n :: rest))
  | func {n : Nat} {f g : Func} {body rest : List Call} (hbody : Balanced n body)
    (h : Balanced n rest) : Balanced n (.defineFunc f :: (body ++ .endFunc g :: rest))

/-- The same, but bodies may stay open. -/
inductive Nested : (n : Nat) → List Call → Prop
  | balanced {n : Nat} {calls : List Call} (h : Balanced n calls) : Nested n calls
  | unclosed {n : Nat} {f : Func} {calls rest : List Call} (h : Balanced n calls)
    (hrest : Nested n rest) : Nested n (calls ++ .defineFunc f :: rest)

/-- The block that was the innermost one before the calls is the innermost one after them. -/
def InFrame (calls : List Call) : Prop := calls.foldl Call.enter 0 = 0

/-- By induction on the nesting: every body that is entered is left again. -/
theorem Balanced.foldl_enter (h : Balanced n calls) (inner : Nat) :
    calls.foldl Call.enter inner = inner := by
  induction h generalizing inner with
  | nil => rfl
  | call hc _ ih => rw [List.foldl_cons, Call.enter_of_delimits hc, ih]
  | stmt _ _ ihbody ih =>
    rw [List.foldl_cons, List.foldl_append, List.foldl_cons, ihbody]
    exact ih inner
  | func _ _ ihbody ih =>
    rw [List.foldl_cons, List.foldl_append, List.foldl_cons, ihbody]
    exact ih inner

theorem Balanced.inFrame (h : Balanced n calls) : InFrame calls := h.foldl_enter 0

/-- Calls that end in the block in which they began, one after the other. -/
theorem InFrame.append {calls' : List Call} (h : InFrame calls) (h' : InFrame calls') :
    InFrame (calls ++ calls') := by
  rw [InFrame, List.foldl_append, h]
  exact h'

/-- A statement that ends with a position. -/
structure Stmt where
  start : Option SourcePos
  body : List Call
  pos : SourcePos
  mark : Nat

namespace Stmt

def toCalls (s : Stmt) : List Call :=
  .startStmt s.start :: (s.body ++ [.endStmt (some s.pos) s.mark])

/-- The statement is one of the calls, in the block that was the innermost one before them, and the
calls `pre` are the ones before it. -/
structure After (pre calls : List Call) (s : Stmt) : Prop where
  split : ∃ post, calls = pre ++ (s.toCalls ++ post)
  inFrame : InFrame pre
  balanced : Balanced (s.mark + 1) s.body

/-- Later calls do not matter to where a statement stands. -/
theorem After.append {pre : List Call} {s : Stmt} (h : s.After pre calls) (rest : List Call) :
    s.After pre (calls ++ rest) := by
  obtain ⟨post, rfl⟩ := h.split
  exact ⟨⟨post ++ rest, by simp only [List.append_assoc]⟩, h.inFrame, h.balanced⟩

/-- Earlier calls do, but only if they end in the same block. -/
theorem After.behind {pre : List Call} {s : Stmt} (h : s.After pre calls) (front : List Call)
    (hfront : InFrame front) : s.After (front ++ pre) (front ++ calls) := by
  obtain ⟨post, rfl⟩ := h.split
  exact ⟨⟨post, (List.append_assoc _ _ _).symm⟩, hfront.append h.inFrame, h.balanced⟩

end Stmt

/-! ## Events -/

/-- What happens in a block. -/
inductive Event
  | line (l : Line)
  | start
  | stop (pos : Option SourcePos)

def Event.line? : Event → Option Line
  | line l => some l
  | _ => none

/-- The position at the end of the latest statement that is open before the events. The first
`inner` ends are those of statements that start later. -/
def stopOf : (inner : Nat) → List Event → Option SourcePos
  | _, [] => none
  | inner, .line _ :: events => stopOf inner events
  | inner, .start :: events => stopOf (inner + 1) events
  | 0, .stop pos :: _ => pos
  | inner + 1, .stop _ :: events => stopOf inner events

/-- Lines end no statement. -/
theorem stopOf_lines (inner : Nat) (lines : List Line) (events : List Event) :
    stopOf inner (lines.map .line ++ events) = stopOf inner events := by
  induction lines with
  | nil => rfl
  | cons l lines ih => exact ih

/-- A line of a block and what it is there for. -/
inductive Entry
  | line (l : Line)
  | directive (pos : SourcePos)

namespace Entry

def toLine : Entry → Line
  | line l => l
  | directive pos => Builder.directive pos

def line? : Entry → Option Line
  | line l => some l
  | directive _ => none

end Entry

/-- The directive of a statement that ends with a position. -/
def entriesAt (pos : Option SourcePos) : List Entry := pos.toList.map .directive

theorem entriesAt_some_append (q : SourcePos) (entries : List Entry) :
    entriesAt (some q) ++ entries = .directive q :: entries := rfl

/-- The entries of a block for some events, with the events behind them. -/
def place (later : List Event) : List Event → List Entry
  | [] => []
  | .line l :: events => .line l :: place later events
  | .start :: events => entriesAt (stopOf 0 (events ++ later)) ++ place later events
  | .stop _ :: events => place later events

section place

variable {later events : List Event}

/-- A start looks ahead for its end, so the events behind are needed to place those before. -/
theorem place_append (events' : List Event) :
    place later (events ++ events') = place (events' ++ later) events ++ place later events' := by
  induction events with
  | nil => rfl
  | cons e events ih =>
    cases e with
    | line l => exact congrArg (List.cons _) ih
    | start =>
      rw [List.cons_append, place, place, ih]
      simp only [List.append_assoc]
    | stop pos => exact ih

/-- Lines stay as they are. -/
theorem place_lines (lines : List Line) : place later (lines.map .line) = lines.map .line := by
  induction lines with
  | nil => rfl
  | cons l lines ih => exact congrArg (List.cons _) ih

/-- The events of a statement, and what follows. -/
theorem place_stmt
    (hbody : ∀ inner events', stopOf inner (events ++ events') = stopOf inner events')
    (lines : List Line) (rest : List Event) :
    place later (.start :: (events ++ (lines.map .line ++ .stop pos :: rest))) =
      entriesAt pos ++ (place (lines.map .line ++ .stop pos :: rest ++ later) events ++
        lines.map .line ++ place later rest) := by
  have hstop : stopOf 0 (events ++ (lines.map .line ++ .stop pos :: rest) ++ later) = pos := by
    rw [List.append_assoc, hbody, List.append_assoc, stopOf_lines]
    rfl
  rw [place, hstop, place_append, place_append, place_lines, place]
  simp only [List.append_assoc]

/-- Apart from the directives, the lines are in the order in which they were written. -/
theorem lines_place :
    (place later events).filterMap Entry.line? = events.filterMap Event.line? := by
  induction events with
  | nil => rfl
  | cons e events ih =>
    cases e with
    | line l => exact congrArg (List.cons l) ih
    | start =>
      rw [place, List.filterMap_append, ih]
      cases stopOf 0 (events ++ later) <;> rfl
    | stop pos => exact ih

end place

namespace Builder

variable {b b' m r : Builder}

/-- The builder after a call. One that fails changes nothing. -/
def after (b : Builder) (c : Call) : Builder :=
  match b.step c with
  | .ok b' => b'
  | .error _ => b

theorem after_of_step (h : b.step c = .ok b') : b.after c = b' := by
  rw [after, h]

/-- Where calls succeed, the states between them are those of the run. -/
theorem foldl_after (h : Backend.run b calls = .ok b') : calls.foldl after b = b' := by
  induction calls generalizing b with
  | nil => exact Backend.run_nil_eq_ok.mp h
  | cons c calls ih =>
    obtain ⟨m, hm, h⟩ := Backend.run_cons_eq_ok.mp h
    rw [List.foldl_cons, after_of_step hm]
    exact ih h

/-- What a call makes happen in the innermost block. A statement writes the values that it discards,
and then it ends. -/
def events (b : Builder) : Call → List Event
  | .startStmt _ => [.start]
  | .endStmt pos mark => (b.added (b.after (.endStmt none mark))).map .line ++ [.stop pos]
  | .defineFunc _ | .endFunc _ => []
  | c => (b.added (b.after c)).map .line

/-- A call that delimits nothing shows in the block by its lines only. -/
theorem events_of_delimits (hc : c.delimits = false) :
    b.events c = (b.added (b.after c)).map .line := by
  cases c with
  | startStmt _ | endStmt _ _ | defineFunc _ | endFunc _ => cases hc
  | _ => rfl

/-- What calls make happen in a block inside of which `inner` bodies are open. -/
def trace (inner : Nat) (b : Builder) : List Call → List Event
  | [] => []
  | c :: calls => (if inner = 0 then b.events c else []) ++ trace (c.enter inner) (b.after c) calls

/-- The lines that calls write to the innermost block, directives apart. -/
def written (b : Builder) (calls : List Call) : List Line := (b.trace 0 calls).filterMap Event.line?

/-- The calls behind are traced from the state and the body that those before have led to. -/
theorem trace_append (inner : Nat) (calls' : List Call) :
    b.trace inner (calls ++ calls') =
      b.trace inner calls ++
        (calls.foldl after b).trace (calls.foldl Call.enter inner) calls' := by
  induction calls generalizing b inner with
  | nil => rfl
  | cons c calls ih =>
    rw [List.cons_append, trace, trace, ih, List.append_assoc]
    rfl

/-- Inside of an inner body nothing happens in the block. -/
theorem trace_cons_inner (inner : Nat) :
    b.trace (inner + 1) (c :: rest) = (b.after c).trace (c.enter (inner + 1)) rest := by
  rw [trace, if_neg (Nat.succ_ne_zero inner)]
  rfl

/-- Nothing happens in a block while a body inside of it is open. -/
theorem trace_inner (h : Balanced n calls) (inner : Nat) : b.trace (inner + 1) calls = [] := by
  induction h generalizing b inner with
  | nil => rfl
  | call hc _ ih => rw [trace_cons_inner, Call.enter_of_delimits hc, ih]
  | stmt hbody _ ihbody ih =>
    simp only [trace_cons_inner, trace_append, Call.enter, hbody.foldl_enter, ihbody, ih,
      List.append_nil]
  | func hbody _ ihbody ih =>
    simp only [trace_cons_inner, trace_append, Call.enter, hbody.foldl_enter, ihbody, ih,
      Nat.add_sub_cancel, List.append_nil]

theorem trace_call (hc : c.delimits = false) :
    b.trace 0 (c :: rest) = (b.added (b.after c)).map .line ++ (b.after c).trace 0 rest := by
  rw [trace, if_pos rfl, events_of_delimits hc, Call.enter_of_delimits hc]

/-- The lines of what is left on the stack come before the end, and the directive is no line
here. -/
theorem trace_endStmt :
    b.trace 0 (.endStmt pos mark :: rest) =
      (b.added (b.after (.endStmt none mark))).map .line ++
        .stop pos :: (b.after (.endStmt pos mark)).trace 0 rest := by
  rw [trace, if_pos rfl]
  exact List.append_assoc _ _ _

/-- A statement begins with its start, and what follows is traced in the same block. -/
theorem trace_stmt (hbody : Balanced n body) (start : Option SourcePos) :
    b.trace 0 (.startStmt start :: (body ++ rest)) =
      .start :: ((b.after (.startStmt start)).trace 0 body ++
        (body.foldl after (b.after (.startStmt start))).trace 0 rest) := by
  rw [trace, if_pos rfl, trace_append]
  simp only [Call.enter, hbody.foldl_enter]
  rfl

/-- A whole body leaves no trace around it. -/
theorem trace_func (hbody : Balanced n body) (f g : Func) :
    b.trace 0 (.defineFunc f :: (body ++ .endFunc g :: rest)) =
      ((body.foldl after (b.after (.defineFunc f))).after (.endFunc g)).trace 0 rest := by
  rw [trace, if_pos rfl, trace_append]
  simp only [Call.enter, hbody.foldl_enter, trace_inner hbody, trace_cons_inner]
  rfl

/-- Statements that start and end among the events are not the one that is looked for. -/
theorem stopOf_trace (h : Balanced n calls) (inner : Nat) (later : List Event) :
    stopOf inner (b.trace 0 calls ++ later) = stopOf inner later := by
  induction h generalizing b inner later with
  | nil => rfl
  | call hc _ ih => rw [trace_call hc, List.append_assoc, stopOf_lines, ih]
  | stmt hbody _ ihbody ih =>
    rw [trace_stmt hbody, trace_endStmt, List.cons_append, stopOf, List.append_assoc, ihbody,
      List.append_assoc, stopOf_lines, List.cons_append, stopOf, ih]
  | func hbody _ _ ih => rw [trace_func hbody, ih]

/-! ## Lines of a block -/

/-- Lines are added at the end of the innermost block. What is around the block is the same, and so
are the statements that are open. -/
structure Extends (b : Builder) (lines : List Line) (b' : Builder) : Prop where
  options : b'.options = b.options
  stmts : b'.stmts = b.stmts
  outer : b'.frames.tail = b.frames.tail
  lines : b'.block.lines.toList = b.block.lines.toList ++ lines

theorem Extends.refl : Extends b [] b := ⟨rfl, rfl, rfl, (List.append_nil _).symm⟩

/-- Lines written one after the other. -/
theorem Extends.trans {lines lines' : List Line} (h : Extends b lines m)
    (h' : Extends m lines' b') : Extends b (lines ++ lines') b' where
  options := h'.options.trans h.options
  stmts := h'.stmts.trans h.stmts
  outer := h'.outer.trans h.outer
  lines := by rw [h'.lines, h.lines, List.append_assoc]

/-- What a growing block has got is what `added` says. -/
theorem Grows.lines_eq (h : Grows b b') :
    b'.block.lines.toList = b.block.lines.toList ++ b.added b' := by
  obtain ⟨new, hnew⟩ := h.lines
  rw [added, ← hnew, List.drop_left' Array.length_toList]

/-- A call that delimits nothing appends lines and opens no statement. -/
theorem extends_of_step (hc : c.delimits = false) (h : b.step c = .ok b') :
    Extends b (b.added b') b' where
  options := options_of_step h
  stmts := congrArg Output.stmts (grows_of_step hc h).output
  outer := (grows_of_step hc h).tail_frames
  lines := (grows_of_step hc h).lines_eq

/-- An element put in at the end of the first part. -/
theorem insertIdx_append_length {α : Type} (front back : List α) (a : α) :
    (front ++ back).insertIdx front.length a = front ++ a :: back := by
  induction front with
  | nil => rfl
  | cons x front ih => simp [ih]

/-- The place of a directive is a number of lines, and it comes right behind them. -/
theorem lines_placeDirective {front back : List Line}
    (hdirectives : b.options.lineDirectives = true) (h : b.block.lines.toList = front ++ back) :
    (b.placeDirective pos front.length).block.lines.toList =
      front ++ (pos.toList.map directive ++ back) := by
  unfold placeDirective
  cases pos with
  | none => exact h
  | some pos =>
    have hle : front.length ≤ b.block.lines.size := by
      rw [← Array.length_toList, h, List.length_append]
      exact Nat.le_add_right _ _
    rw [hdirectives, block_setBlock, Nat.min_eq_left hle]
    simp only [Array.insertIdxIfInBounds, dif_pos hle, Array.toList_insertIdx, h]
    exact insertIdx_append_length front back (directive pos)

/-- A whole statement appends its directive and then its lines. -/
theorem extends_stmt {lines : List Line} {start : Option SourcePos}
    (hdirectives : b.options.lineDirectives = true) (hstart : b.step (.startStmt start) = .ok m)
    (h : Extends m lines r) (hend : r.step (.endStmt pos b.stmts.size) = .ok b') :
    Extends b (pos.toList.map directive ++
      (lines ++ r.added (r.after (.endStmt none b.stmts.size)))) b' := by
  rw [step_startStmt] at hstart
  obtain ⟨-, rfl⟩ := startStmt_eq_ok.mp hstart
  obtain ⟨hopen, state, d, hstate, hleft, hplace⟩ := endStmt_eq_ok.mp (step_endStmt pos _ ▸ hend)
  -- Without its position, the end would write the values that are left and nothing else.
  have hnone : r.step (.endStmt none b.stmts.size) = .ok d := by
    rw [step_endStmt]
    exact endStmt_eq_ok.mpr ⟨hopen, state, d, hstate, hleft, rfl⟩
  have hgrows : Grows { r with stmts := r.stmts.take b.stmts.size } d := grows_discardLeft hleft
  have hoptions : d.options = b.options := (options_discardLeft hleft).trans h.options
  have hlines : d.block.lines.toList = b.block.lines.toList ++ (lines ++ r.added d) := by
    rw [← List.append_assoc]
    exact hgrows.lines_eq.trans (congrArg (· ++ _) h.lines)
  have hline : state.line = b.block.lines.toList.length := by
    rw [h.stmts, Array.getElem?_push_size] at hstate
    rw [← Option.some.inj hstate, Array.length_toList]
  have houtput := output_placeDirective (b := d) pos state.line
  rw [hplace] at houtput
  have hafter : r.after (.endStmt none b.stmts.size) = d := after_of_step hnone
  rw [hafter]
  refine ⟨(options_of_step hend).trans h.options, ?_, ?_, ?_⟩
  · have hstmts : b'.stmts = r.stmts.take b.stmts.size :=
      (congrArg Output.stmts houtput).trans (congrArg Output.stmts hgrows.output)
    rw [hstmts, h.stmts]
    simp
  · exact (congrArg (·.frames.tail) houtput).trans (hgrows.tail_frames.trans h.outer)
  · rw [← hplace, hline]
    exact lines_placeDirective (hoptions ▸ hdirectives) hlines

/-- A whole body appends nothing to the block around it. -/
theorem extends_func {lines : List Line} {f g : Func} (hdefine : b.step (.defineFunc f) = .ok m)
    (h : Extends m lines r) (hend : r.step (.endFunc g) = .ok b') : Extends b [] b' := by
  have hfirst := output_defineFunc hdefine
  have hlast := output_endFunc hend
  have hframes : b'.frames = b.frames :=
    (congrArg Output.frames hlast).trans (h.outer.trans (congrArg (·.frames.tail) hfirst))
  refine ⟨?_, ?_, congrArg List.tail hframes, ?_⟩
  · rw [options_of_step hend, h.options, options_of_step hdefine]
  · exact (congrArg Output.stmts hlast).trans (h.stmts.trans (congrArg Output.stmts hfirst))
  · rw [block_of_frames (hframes.trans b.frames_eq_cons), List.append_nil]

theorem map_toLine_lines (lines : List Line) : (lines.map Entry.line).map Entry.toLine = lines := by
  rw [List.map_map]
  exact List.map_id'' (fun _ => rfl) lines

theorem map_toLine_entriesAt :
    (entriesAt pos).map Entry.toLine = pos.toList.map directive := by
  cases pos <;> rfl

/-- Balanced calls add the lines of their trace. -/
theorem extends_of_balanced (later : List Event) (h : Balanced n calls) (hn : b.stmts.size = n)
    (hdirectives : b.options.lineDirectives = true) (hrun : Backend.run b calls = .ok b') :
    Extends b ((place later (b.trace 0 calls)).map Entry.toLine) b' := by
  induction h generalizing b b' later with
  | nil =>
    obtain rfl := Backend.run_nil_eq_ok.mp hrun
    exact .refl
  | call hc _ ih =>
    obtain ⟨m, hm, hrest⟩ := Backend.run_cons_eq_ok.mp hrun
    have hfirst := extends_of_step hc hm
    have hlast := ih later (hfirst.stmts ▸ hn) (hfirst.options ▸ hdirectives) hrest
    rw [trace_call hc, after_of_step hm, place_append, place_lines, List.map_append,
      map_toLine_lines]
    exact hfirst.trans hlast
  | stmt hbody _ ihbody ih =>
    subst hn
    obtain ⟨m, hm, hrest⟩ := Backend.run_cons_eq_ok.mp hrun
    obtain ⟨r, hr, hrest⟩ := Backend.run_append_eq_ok.mp hrest
    obtain ⟨d, hd, hrest⟩ := Backend.run_cons_eq_ok.mp hrest
    have hsize : m.stmts.size = b.stmts.size + 1 := by
      obtain ⟨-, rfl⟩ := startStmt_eq_ok.mp ((step_startStmt _).symm.trans hm)
      exact Array.size_push _
    have hmiddle := fun later => ihbody later hsize ((options_of_step hm).symm ▸ hdirectives) hr
    have hfirst := fun later => extends_stmt hdirectives hm (hmiddle later) hd
    have hlast := ih later (congrArg Array.size (hfirst []).stmts)
      ((hfirst []).options ▸ hdirectives) hrest
    rw [trace_stmt hbody, trace_endStmt, place_stmt (stopOf_trace hbody), after_of_step hm,
      foldl_after hr, after_of_step hd]
    simp only [List.map_append, map_toLine_lines, map_toLine_entriesAt]
    simpa only [List.append_assoc] using (hfirst _).trans hlast
  | func hbody _ ihbody ih =>
    obtain ⟨m, hm, hrest⟩ := Backend.run_cons_eq_ok.mp hrun
    obtain ⟨r, hr, hrest⟩ := Backend.run_append_eq_ok.mp hrest
    obtain ⟨d, hd, hrest⟩ := Backend.run_cons_eq_ok.mp hrest
    rw [trace_func hbody, after_of_step hm, foldl_after hr, after_of_step hd]
    have hstmts : m.stmts = b.stmts := congrArg Output.stmts (output_defineFunc hm)
    have hmiddle := ihbody [] (hstmts ▸ hn) ((options_of_step hm).symm ▸ hdirectives) hr
    have hfirst := extends_func hm hmiddle hd
    exact hfirst.trans (ih later (hfirst.stmts ▸ hn) (hfirst.options ▸ hdirectives) hrest)

/-- Calls behind the start of a body are of no concern to the block around it, whether the body ends
or not. -/
theorem trace_inner_of_nested (h : Nested n calls) (inner : Nat) :
    b.trace (inner + 1) calls = [] := by
  induction h generalizing b inner with
  | balanced h => exact trace_inner h inner
  | unclosed h _ ih =>
    rw [trace_append, trace_inner h, h.foldl_enter, trace_cons_inner]
    exact ih (inner + 1)

/-- The same if bodies stay open: their blocks stand in front of the one that gets the lines. -/
theorem frames_of_nested (h : Nested n calls) (hn : b.stmts.size = n)
    (hdirectives : b.options.lineDirectives = true) (hrun : Backend.run b calls = .ok b') :
    ∃ inner k, b'.frames = inner ++ k :: b.frames.tail ∧
      k.lines.toList =
        b.block.lines.toList ++ (place [] (b.trace 0 calls)).map Entry.toLine := by
  induction h generalizing b with
  | balanced h =>
    have hextends := extends_of_balanced [] h hn hdirectives hrun
    refine ⟨[], b'.block, ?_, hextends.lines⟩
    rw [← hextends.outer]
    exact b'.frames_eq_cons
  | unclosed h hrest ih =>
    obtain ⟨m, hm, hlater⟩ := Backend.run_append_eq_ok.mp hrun
    obtain ⟨d, hd, hlater⟩ := Backend.run_cons_eq_ok.mp hlater
    have hextends := extends_of_balanced [] h hn hdirectives hm
    have hdefine := output_defineFunc hd
    have hstmts : d.stmts = b.stmts := (congrArg Output.stmts hdefine).trans hextends.stmts
    have houter : d.frames.tail = m.block :: b.frames.tail := by
      rw [← hextends.outer, ← frames_eq_cons]
      exact congrArg (·.frames.tail) hdefine
    have hoptions : d.options = b.options := (options_of_step hd).trans hextends.options
    obtain ⟨inner, k, hframes, -⟩ := ih (hstmts ▸ hn) (hoptions ▸ hdirectives) hlater
    refine ⟨inner ++ [k], m.block, ?_, ?_⟩
    · rw [hframes, houter, List.append_assoc, List.singleton_append]
    · rw [trace_append, h.foldl_enter, trace, if_pos rfl]
      simp only [Call.enter, trace_inner_of_nested hrest, events, List.append_nil]
      exact hextends.lines

/-! ## Where directives stand -/

section

variable {later : List Event} {xs ys : List Entry} {q : SourcePos}

/-- What stands in one of two lists, one after the other. -/
theorem append_eq_append_cons {α : Type} {as bs xs ys : List α} {a : α}
    (h : as ++ bs = xs ++ a :: ys) :
    (∃ ys', as = xs ++ a :: ys') ∨ ∃ xs', xs = as ++ xs' ∧ bs = xs' ++ a :: ys := by
  obtain ⟨xs', hxs, hbs⟩ | ⟨ys', has, hys⟩ := List.append_eq_append_iff.mp h
  · exact .inr ⟨xs', hxs, hbs⟩
  · cases ys' with
    | nil => exact .inr ⟨[], by simp [has], hys.symm⟩
    | cons a' ys' =>
      obtain ⟨rfl, -⟩ := List.cons.inj hys
      exact .inl ⟨ys', has⟩

/-- A position gives one directive at most. -/
theorem eq_of_entriesAt (h : entriesAt pos = xs ++ .directive q :: ys) :
    xs = [] ∧ pos = some q := by
  cases pos with
  | none => simp [entriesAt] at h
  | some pos =>
    have h : [Entry.directive pos] = xs ++ .directive q :: ys := h
    cases xs with
    | nil => simp_all
    | cons e xs => simp at h

/-- A directive does not stand among lines. -/
theorem exists_of_lines_append {lines : List Line} {entries : List Entry}
    (h : lines.map .line ++ entries = xs ++ .directive q :: ys) :
    ∃ xs', xs = lines.map .line ++ xs' ∧ entries = xs' ++ .directive q :: ys := by
  obtain ⟨ys', hlines⟩ | hbehind := append_eq_append_cons h
  · have hmem : Entry.directive q ∈ lines.map .line := by simp [hlines]
    simp at hmem
  · exact hbehind

/-- Unlike events, the lines that calls write do not depend on what comes later. -/
theorem written_append (h : InFrame calls) (calls' : List Call) :
    b.written (calls ++ calls') = b.written calls ++ (calls.foldl after b).written calls' := by
  rw [written, trace_append, h, List.filterMap_append]
  rfl

theorem filterMap_line?_lines (lines : List Line) :
    (lines.map Event.line).filterMap Event.line? = lines := by
  rw [List.filterMap_map]
  exact List.filterMap_some

theorem written_call (hc : c.delimits = false) :
    b.written (c :: rest) = b.added (b.after c) ++ (b.after c).written rest := by
  rw [written, trace_call hc, List.filterMap_append, filterMap_line?_lines]
  rfl

/-- The end of a statement writes what is left on the stack. -/
theorem written_endStmt :
    b.written (.endStmt pos mark :: rest) =
      b.added (b.after (.endStmt none mark)) ++ (b.after (.endStmt pos mark)).written rest := by
  rw [written, trace_endStmt, List.filterMap_append, filterMap_line?_lines]
  rfl

/-- The start of a statement writes nothing. -/
theorem written_stmt (hbody : Balanced n body) (start : Option SourcePos) :
    b.written (.startStmt start :: (body ++ rest)) =
      (b.after (.startStmt start)).written body ++
        (body.foldl after (b.after (.startStmt start))).written rest := by
  rw [written, trace_stmt hbody]
  exact List.filterMap_append

/-- A whole body writes nothing in the block around it. -/
theorem written_func (hbody : Balanced n body) (f g : Func) :
    b.written (.defineFunc f :: (body ++ .endFunc g :: rest)) =
      ((body.foldl after (b.after (.defineFunc f))).after (.endFunc g)).written rest := by
  rw [written, trace_func hbody]
  rfl

theorem lines_entries (lines : List Line) :
    (lines.map Entry.line).filterMap Entry.line? = lines := by
  rw [List.filterMap_map]
  exact List.filterMap_some

theorem lines_entriesAt : (entriesAt pos).filterMap Entry.line? = [] := by
  cases pos <;> rfl

/-- A directive belongs to a statement, and stands behind the lines that were written before that
statement. -/
theorem exists_stmt_of_place (h : Balanced n calls)
    (hplace : place later (b.trace 0 calls) = xs ++ .directive q :: ys) :
    ∃ (pre : List Call) (s : Stmt), s.After pre calls ∧ s.pos = q ∧
      xs.filterMap Entry.line? = b.written pre := by
  induction h generalizing b later xs ys with
  | nil => exact absurd hplace.symm (by simp [trace, place])
  | @call n c rest hc _ ih =>
    rw [trace_call hc, place_append, place_lines] at hplace
    obtain ⟨xs', hxs, hrest⟩ := exists_of_lines_append hplace
    obtain ⟨pre, s, hs, hq, hlines⟩ := ih hrest
    refine ⟨c :: pre, s, hs.behind [c] (Call.enter_of_delimits hc 0), hq, ?_⟩
    rw [hxs, List.filterMap_append, lines_entries, hlines, written_call hc]
  | @stmt n start pos body rest hbody _ ihbody ih =>
    rw [trace_stmt hbody, trace_endStmt, place_stmt (stopOf_trace hbody)] at hplace
    obtain ⟨ys', hfirst⟩ | ⟨xs₁, hxs, hlater⟩ := append_eq_append_cons hplace
    · -- It is the directive of this statement.
      obtain ⟨rfl, rfl⟩ := eq_of_entriesAt hfirst
      exact ⟨[], ⟨start, body, q, n⟩, ⟨⟨rest, by simp [Stmt.toCalls]⟩, rfl, hbody⟩, rfl, rfl⟩
    rw [List.append_assoc] at hlater
    obtain ⟨ys', hinside⟩ | ⟨xs₂, hxs₁, hlater⟩ := append_eq_append_cons hlater
    · -- It is the directive of a statement inside of this one.
      obtain ⟨pre, s, hs, hq, hlines⟩ := ihbody hinside
      refine ⟨.startStmt start :: pre, s, ?_, hq, ?_⟩
      · exact (hs.append _).behind [.startStmt start] rfl
      · rw [hxs, List.filterMap_append, lines_entriesAt, hlines]
        rfl
    · -- It comes after this statement.
      obtain ⟨xs₃, hxs₂, hlater⟩ := exists_of_lines_append hlater
      obtain ⟨pre, s, hs, hq, hlines⟩ := ih hlater
      refine ⟨.startStmt start :: (body ++ .endStmt pos n :: pre), s, ?_, hq, ?_⟩
      · have hframe : InFrame (.startStmt start :: (body ++ [.endStmt pos n])) :=
          (Balanced.stmt hbody .nil).inFrame
        simpa using hs.behind _ hframe
      · simp only [hxs, hxs₁, hxs₂, List.filterMap_append, lines_entriesAt, lines_entries,
          lines_place, hlines, written_stmt hbody, written_endStmt]
        rfl
  | @func n f g body rest hbody _ _ ih =>
    rw [trace_func hbody] at hplace
    obtain ⟨pre, s, hs, hq, hlines⟩ := ih hplace
    refine ⟨.defineFunc f :: (body ++ .endFunc g :: pre), s, ?_, hq, ?_⟩
    · have hframe : InFrame (.defineFunc f :: (body ++ [.endFunc g])) :=
        (Balanced.func hbody .nil).inFrame
      simpa using hs.behind _ hframe
    · rw [hlines, written_func hbody]

/-- The lines of calls with a statement among them: the directive of the statement stands between
what was placed before it and what is placed for its body. -/
theorem exists_place_of_after (b : Builder) (later : List Event) {pre : List Call} {s : Stmt}
    (h : s.After pre calls) :
    ∃ events events' lines rest, place later (b.trace 0 calls) =
        place events (b.trace 0 pre) ++ .directive s.pos ::
          (place events' (((pre.foldl after b).after (.startStmt s.start)).trace 0 s.body) ++
            lines.map .line ++ rest) ∧
      b.written (pre ++ s.toCalls) = b.written pre ++
        (((pre.foldl after b).after (.startStmt s.start)).written s.body ++ lines) := by
  obtain ⟨⟨post, rfl⟩, hpre, hbody⟩ := h
  have hcalls : s.toCalls ++ post =
      .startStmt s.start :: (s.body ++ .endStmt (some s.pos) s.mark :: post) := by
    simp [Stmt.toCalls]
  rw [trace_append, hpre, hcalls, trace_stmt hbody, trace_endStmt, place_append,
    place_stmt (stopOf_trace hbody), entriesAt_some_append]
  refine ⟨_, _, _, _, rfl, ?_⟩
  rw [written_append hpre, Stmt.toCalls, written_stmt hbody, written_endStmt]
  simp [written, trace]

end

/-- In the block in which they are made, nested calls leave the lines that they write, in this
order, and the directives of statements. A directive stands behind all that was written before its
statement started, and in front of all that is written until it ends. Behind it and in front of the
last of these lines are the directives of the statements inside, and no others, each behind what was
written before its own statement started: so between a directive and the first line there are only
the directives of statements that started at the same place. -/
theorem directives_of_run (hdirectives : b.options.lineDirectives = true)
    (h : Nested b.stmts.size calls) (hrun : Backend.run b calls = .ok b') :
    ∃ inner k entries, b'.frames = inner ++ k :: b.frames.tail ∧
      k.lines.toList = b.block.lines.toList ++ entries.map Entry.toLine ∧
      entries.filterMap Entry.line? = b.written calls ∧
      ∀ (pre : List Call) (s : Stmt), s.After pre calls →
        ∃ before body later, entries = before ++ .directive s.pos :: (body ++ later) ∧
          before.filterMap Entry.line? = b.written pre ∧
          (before ++ body).filterMap Entry.line? = b.written (pre ++ s.toCalls) ∧
          (∀ (inside : List Call) (t : Stmt), t.After inside s.body →
            ∃ xs ys, body = xs ++ .directive t.pos :: ys ∧
              (before ++ xs).filterMap Entry.line? =
                b.written (pre ++ .startStmt s.start :: inside)) ∧
          ∀ xs q ys, body = xs ++ .directive q :: ys →
            ∃ (inside : List Call) (t : Stmt), t.After inside s.body ∧ t.pos = q ∧
              (before ++ xs).filterMap Entry.line? =
                b.written (pre ++ .startStmt s.start :: inside) := by
  obtain ⟨inner, k, hframes, hlines⟩ := frames_of_nested h rfl hdirectives hrun
  refine ⟨inner, k, place [] (b.trace 0 calls), hframes, hlines, lines_place, ?_⟩
  intro pre s hs
  obtain ⟨events, events', lines, rest, hplace, hwritten⟩ := exists_place_of_after b [] hs
  have hinside : ∀ inside, b.written (pre ++ .startStmt s.start :: inside) = b.written pre ++
      ((pre.foldl after b).after (.startStmt s.start)).written inside :=
    fun inside => written_append hs.inFrame (.startStmt s.start :: inside)
  refine ⟨_, _, _, hplace, lines_place, ?_, ?_, ?_⟩
  · rw [hwritten]
    simp only [List.filterMap_append, lines_place, lines_entries]
    rfl
  · intro inside t ht
    obtain ⟨first, second, lines', rest', hbody, -⟩ :=
      exists_place_of_after ((pre.foldl after b).after (.startStmt s.start)) events' ht
    refine ⟨_, _, (congrArg (· ++ _) hbody).trans (List.append_assoc _ _ _), ?_⟩
    rw [List.filterMap_append, lines_place, lines_place, hinside]
    rfl
  · intro xs q ys hsplit
    obtain ⟨ys', hbody⟩ | ⟨xs', hxs, hlater⟩ := append_eq_append_cons hsplit
    · obtain ⟨inside, t, ht, hq, hxs⟩ := exists_stmt_of_place hs.balanced hbody
      refine ⟨inside, t, ht, hq, ?_⟩
      rw [List.filterMap_append, lines_place, hxs, hinside]
      rfl
    · rw [← List.append_nil (List.map _ _)] at hlater
      obtain ⟨xs'', -, hnil⟩ := exists_of_lines_append hlater
      simp at hnil

/-- A builder that writes directives. -/
def lined : Builder := { id := 0, registry := {} }

def repeatCall : Call := .jump ⟨0, "again"⟩

/-- A function at package level. -/
def plainFunc : Func := ⟨0, "f", 0, [], [], false⟩

/-- A statement that starts with another one, and that holds a function with a third one. -/
def stackedStmt : Stmt where
  start := none
  body := [.startStmt none, .push (.bool true), .endStmt (some ⟨"f.gop", 2⟩) 1,
    .defineFunc plainFunc, .startStmt none, repeatCall, .endStmt (some ⟨"f.gop", 3⟩) 1,
    .endFunc plainFunc, .push (.bool false)]
  pos := ⟨"f.gop", 1⟩
  mark := 0

def stackedCalls : List Call := repeatCall :: (stackedStmt.toCalls ++ [repeatCall])

theorem balanced_stackedStmt : Balanced 1 stackedStmt.body := by
  have hfunc : Balanced 1 (.startStmt none :: ([repeatCall] ++
      .endStmt (some ⟨"f.gop", 3⟩) 1 :: [])) := .stmt (.call rfl .nil) .nil
  have hrest : Balanced 1 (.defineFunc plainFunc :: (_ ++ .endFunc plainFunc ::
      [.push (.bool false)])) := .func hfunc (.call rfl .nil)
  have hall : Balanced 1 (.startStmt none :: ([.push (.bool true)] ++
      .endStmt (some ⟨"f.gop", 2⟩) 1 :: _)) := .stmt (.call rfl .nil) hrest
  exact hall

/-- Two directives right on top of each other, as one statement starts where the other does. -/
theorem directives_stackedStmt :
    ∃ b' k entries, Backend.run lined stackedCalls = .ok b' ∧
      b'.frames = [k] ∧
      k.lines.toList =
        [⟨1, [.text "goto again"]⟩, directive ⟨"f.gop", 1⟩, directive ⟨"f.gop", 2⟩,
          ⟨1, [.text "_ = ", .text "true"]⟩, ⟨1, [.text "_ = ", .text "false"]⟩,
          ⟨1, [.text "goto again"]⟩] ∧
      k.lines.toList = entries.map Entry.toLine ∧
      ∃ before body later, entries = before ++ .directive ⟨"f.gop", 1⟩ :: (body ++ later) ∧
        before.filterMap Entry.line? = [⟨1, [.text "goto again"]⟩] ∧
        (before ++ body).filterMap Entry.line? =
          [⟨1, [.text "goto again"]⟩, ⟨1, [.text "_ = ", .text "true"]⟩,
            ⟨1, [.text "_ = ", .text "false"]⟩] := by
  have hframes : (Backend.run lined stackedCalls).toOption.map
      (fun r => r.frames.map (·.lines.toList)) = some
        [[⟨1, [.text "goto again"]⟩, directive ⟨"f.gop", 1⟩, directive ⟨"f.gop", 2⟩,
          ⟨1, [.text "_ = ", .text "true"]⟩, ⟨1, [.text "_ = ", .text "false"]⟩,
          ⟨1, [.text "goto again"]⟩]] := by decide +kernel
  obtain ⟨b', hrun, hlines⟩ := exists_ok_of_toOption hframes
  have hnested : Balanced 0 (repeatCall :: (.startStmt none :: (stackedStmt.body ++
      .endStmt (some stackedStmt.pos) 0 :: [repeatCall]))) :=
    .call rfl (.stmt balanced_stackedStmt (.call rfl .nil))
  obtain ⟨inner, k, entries, hk, hentries, -, hstmts⟩ :=
    directives_of_run (b := lined) rfl (.balanced hnested) hrun
  obtain ⟨before, body, later, hsplit, hbefore, hbody, -⟩ := hstmts [repeatCall] stackedStmt
    ⟨⟨[repeatCall], rfl⟩, rfl, balanced_stackedStmt⟩
  rw [hk] at hlines
  have hinner : inner = [] := by simpa [lined, frames] using congrArg List.length hlines
  subst hinner
  refine ⟨b', k, entries, hrun, hk, by simpa [lined, frames] using hlines, hentries, before, body,
    later, hsplit, hbefore.trans ?_, hbody.trans ?_⟩
  · decide +kernel
  · decide +kernel

end Builder

end Source

end Lowering
