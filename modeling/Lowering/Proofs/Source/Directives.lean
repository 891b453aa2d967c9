import Lowering.Proofs.Source.Imports
import Lowering.Proofs.Source.Lexing
import Lowering.Proofs.Source.Statements

/-!
# Directives in the file

A line directive has an effect only where it starts a line. In the file, the directives of the top
level and of functions at package level stand at the left margin. A nested function is a literal,
and its lines are written into an expression; there a directive stands behind the indentation of the
block around the function, and has no effect.

Two statements may have the same position, and then their directives are the same text. So
`column_of_directive` counts: the file has a line with the directive for each statement with the
position that has ended. The count is handed on from stage to stage. A block keeps its directives
until the body ends (`counted_step`), and they become part of a declaration or of a literal then.
Rendering makes lines of them (`count_le_of_render`, `count_le_of_literal`).
-/

namespace Lowering.Source

/-! ## Lines of a text -/

/-- With its tabs replaced, the text makes `n` lines `w` more, whatever follows. -/
def Brings (indent w : String) (n : Nat) (s : String) : Prop :=
  ∀ rest : List Char, n + (rest.splitOn '\n').count w.toList ≤
    (((replaceTabs indent s).toList ++ rest).splitOn '\n').count w.toList

section Brings

variable {indent w s u : String} {m n : Nat}

theorem brings_empty : Brings indent w 0 "" := fun _ => (Nat.zero_add _).le

/-- The end of a line is no tab. -/
theorem toList_replaceTabs_ended (indent s : String) :
    (replaceTabs indent (s ++ "\n")).toList = (replaceTabs indent s).toList ++ ['\n'] := by
  have hbreak : replaceTabs indent "\n" = "\n" := replaceTabs_of_not_mem (by decide)
  rw [replaceTabs_append, hbreak, String.toList_append]
  rfl

/-- Ended lines do no harm to the lines behind them. -/
theorem brings_ended (s : String) : Brings indent w 0 (s ++ "\n") := by
  intro rest
  rw [toList_replaceTabs_ended, List.append_assoc, List.singleton_append,
    List.splitOn_append_cons_self, List.count_append]
  omega

/-- A line of its own is found among the lines. -/
theorem brings_line (hs : replaceTabs indent s = w) (hw : '\n' ∉ w.toList) :
    Brings indent w 1 (s ++ "\n") := by
  intro rest
  rw [toList_replaceTabs_ended, List.append_assoc, List.singleton_append, hs,
    List.splitOn_append_cons_self_of_not_mem hw, List.count_cons_self]
  omega

/-- Lines are counted in both texts. -/
theorem Brings.append (hs : Brings indent w m s) (hu : Brings indent w n u) :
    Brings indent w (m + n) (s ++ u) := by
  intro rest
  have hfirst := hs ((replaceTabs indent u).toList ++ rest)
  have hsecond := hu rest
  rw [replaceTabs_append, String.toList_append, List.append_assoc]
  omega

/-- Behind the end of a line, a text brings what it brings at the start of a file. -/
theorem Brings.behind (h : Brings indent w n u) (s : String) : Brings indent w n (s ++ "\n" ++ u) :=
  Nat.zero_add n ▸ (brings_ended s).append h

/-- What follows a text takes none of its lines away. -/
theorem Brings.le_count (h : Brings indent w n s) (rest : String) :
    n ≤ ((replaceTabs indent (s ++ rest)).toList.splitOn '\n').count w.toList := by
  rw [replaceTabs_append, String.toList_append]
  exact (Nat.le_add_right n _).trans (h _)

/-- Texts one behind another bring what each of them brings. -/
theorem brings_join {α : Type} {f : α → Except Fault String} {g : α → List Line} {l : Line}
    (hf : ∀ x s, f x = .ok s → Brings indent w ((g x).count l) s) {xs : List α}
    {texts : List String} (h : xs.mapM f = .ok texts) :
    Brings indent w ((xs.flatMap g).count l) (String.join texts) := by
  induction xs generalizing texts with
  | nil =>
    obtain rfl := Except.ok.inj h
    exact brings_empty
  | cons x xs ih =>
    rw [List.mapM_cons] at h
    obtain ⟨s, hs, h⟩ := bind_eq_ok.mp h
    obtain ⟨texts, htexts, h⟩ := bind_eq_ok.mp h
    obtain rfl := Except.ok.inj h
    rw [List.flatMap_cons, List.count_append, String.join_cons]
    exact (hf x s hs).append (ih htexts)

end Brings

/-! ## The text of a directive -/

def directiveText (pos : SourcePos) : String := "//line " ++ pos.file ++ ":" ++ toString pos.line

section directiveText

variable {pos : SourcePos} {indent : String}

/-- A directive has a tab or a line break only if the name of its file has one. -/
theorem not_mem_directiveText {c : Char} (hc : c ∈ ['\t', '\n']) (h : c ∉ pos.file.toList) :
    c ∉ (directiveText pos).toList := by
  have hfixed : c ∉ "//line ".toList ∧ c ∉ ":".toList ∧ c.isDigit = false := by
    rcases List.mem_pair.mp hc with rfl | rfl <;> decide
  have hdigits : c ∉ (toString pos.line).toList := by
    rw [Go.toList_toString]
    intro hmem
    exact absurd (Go.isDigit_of_mem_toDigits hmem) (by simp [hfixed.2.2])
  simp only [directiveText, String.toList_append, List.mem_append, not_or]
  exact ⟨⟨⟨hfixed.1, h⟩, hfixed.2.1⟩, hdigits⟩

theorem isDirective_directive (pos : SourcePos) : (Builder.directive pos).isDirective = true := by
  rw [Line.isDirective, startsWith, List.isPrefixOf_iff_prefix]
  refine ⟨(pos.file ++ ":" ++ toString pos.line).toList, ?_⟩
  simp [Builder.directive, Piece.leadingText, List.append_assoc]

theorem renderPieces_directive (slots : Array (Option String)) :
    renderPieces slots (Builder.directive pos).pieces = .ok (directiveText pos) :=
  renderPieces_text (directiveText pos)

/-- Indentation is replaced level by level. -/
theorem replaceTabs_tabs (indent : String) (n : Nat) :
    replaceTabs indent (Builder.tabs n) = String.join (List.replicate n indent) := by
  apply String.toList_inj.mp
  rw [toList_replaceTabs, Builder.tabs, String.toList_ofList]
  induction n with
  | zero => rfl
  | succ n ih =>
    rw [List.replicate_succ, List.flatMap_cons, ih, List.replicate_succ, String.join_cons,
      String.toList_append, if_pos rfl]

theorem not_mem_join_replicate {c : Char} {s : String} (h : c ∉ s.toList) (n : Nat) :
    c ∉ (String.join (List.replicate n s)).toList := by
  induction n with
  | zero => simp
  | succ n ih =>
    rw [List.replicate_succ, String.join_cons, String.toList_append, List.mem_append, not_or]
    exact ⟨h, ih⟩

/-! ## Lines of a file -/

section

variable {slots : Array (Option String)} {lines : List Line} {l : Line} {text out : String}

/-- A directive stands at the margin, whatever the depth of its block is. -/
theorem brings_renderLine (htab : '\t' ∉ pos.file.toList) (hend : '\n' ∉ pos.file.toList)
    (h : renderLine slots l = .ok text) :
    Brings indent (directiveText pos) ([l].count (Builder.directive pos)) text := by
  by_cases hl : l = Builder.directive pos
  · rw [hl, renderLine, renderPieces_directive, isDirective_directive] at h
    obtain rfl := Except.ok.inj h
    rw [hl, List.count_singleton_self, if_pos rfl, String.empty_append]
    exact brings_line (replaceTabs_of_not_mem (not_mem_directiveText (by simp) htab))
      (not_mem_directiveText (by simp) hend)
  · obtain ⟨s, -, h⟩ := bind_eq_ok.mp h
    obtain rfl := Except.ok.inj h
    rw [List.count_singleton, if_neg (by simpa using hl)]
    exact brings_ended _

/-- A directive for every line that is one. -/
theorem brings_renderLines (htab : '\t' ∉ pos.file.toList) (hend : '\n' ∉ pos.file.toList)
    (h : renderLines slots lines = .ok out) :
    Brings indent (directiveText pos) (lines.count (Builder.directive pos)) out := by
  obtain ⟨texts, htexts, h⟩ := bind_eq_ok.mp h
  obtain rfl := Except.ok.inj h
  rw [← List.flatMap_singleton' lines]
  exact brings_join (fun l s hs => brings_renderLine htab hend hs) htexts

/-- Imports need not bring any. -/
theorem brings_clause (m : Imports) (w : String) : Brings indent w 0 m.clause := by
  unfold Imports.clause
  split
  · exact brings_empty
  · rw [(by decide : "\"\n\n" = "\"\n" ++ "\n"), ← String.append_assoc]
    exact brings_ended _
  · rw [(by decide : ")\n\n" = ")\n" ++ "\n"), ← String.append_assoc]
    exact brings_ended _

/-- At the top level of a file and in its functions, a directive is a line of its own. -/
theorem count_le_of_render {b : Builder} {source : String} (htab : '\t' ∉ pos.file.toList)
    (hend : '\n' ∉ pos.file.toList) (h : b.render = .ok source) :
    b.writtenLines.count (Builder.directive pos) ≤
      (source.toList.splitOn '\n').count (directiveText pos).toList := by
  obtain ⟨funcs, hfuncs, h⟩ := bind_eq_ok.mp h
  obtain ⟨top, htop, h⟩ := bind_eq_ok.mp h
  obtain rfl := Except.ok.inj h
  have hfront : Brings b.options.indent (directiveText pos) 0
      ("package " ++ b.options.package ++ "\n" ++ "\n" ++ b.imports.clause) :=
    (brings_clause b.imports _).behind _
  have hfuncs : Brings b.options.indent (directiveText pos)
      (b.funcs.toList.flatten.count (Builder.directive pos)) (String.join funcs) := by
    rw [← List.flatMap_id]
    refine brings_join (fun lines s hs => ?_) hfuncs
    obtain ⟨out, hout, hs⟩ := bind_eq_ok.mp hs
    obtain rfl := Except.ok.inj hs
    exact (brings_renderLines htab hend hout).append (brings_ended "")
  have htop : Brings b.options.indent (directiveText pos)
      (b.top.lines.toList.count (Builder.directive pos))
      ("func " ++ b.options.mainFunc ++ "() \x7b" ++ "\n" ++ top) :=
    (brings_renderLines htab hend htop).behind _
  have hcount := ((hfront.append hfuncs).append htop).le_count "\x7d\n"
  rw [Nat.zero_add, ← List.count_append] at hcount
  have hblank : "\n\n" = "\n" ++ "\n" := by decide
  have hbrace : "() \x7b\n" = "() \x7b" ++ "\n" := by decide
  simpa only [Builder.writtenLines, hblank, hbrace, String.append_assoc] using hcount

/-- A line of a literal. -/
def literalLine (outer : Nat) (l : Line) : List Piece :=
  [.text (Builder.tabs (outer + l.indent))] ++ l.pieces ++ [.text "\n"]

/-- A piece has a text of its own, or there is none. -/
theorem renderPieces_cons (slots : Array (Option String)) (piece : Piece) :
    (∃ first, ∀ rest, renderPieces slots (piece :: rest) =
      do return first ++ (← renderPieces slots rest)) ∨
      ∀ rest text, renderPieces slots (piece :: rest) ≠ .ok text := by
  cases piece with
  | text first => exact .inl ⟨first, fun _ => rfl⟩
  | slot i =>
    simp only [renderPieces]
    rcases slots[i]? with _ | _ | first
    · exact .inr fun _ _ => by simp
    · exact .inr fun _ _ => by simp
    · exact .inl ⟨first, fun _ => rfl⟩

theorem exists_of_renderPieces_append {xs ys : List Piece}
    (h : renderPieces slots (xs ++ ys) = .ok text) :
    ∃ s u, renderPieces slots xs = .ok s ∧ renderPieces slots ys = .ok u ∧ s ++ u = text := by
  induction xs generalizing text with
  | nil => exact ⟨"", text, rfl, h, String.empty_append⟩
  | cons piece xs ih =>
    rw [List.cons_append] at h
    obtain ⟨first, hfirst⟩ | hnone := renderPieces_cons slots piece
    · rw [hfirst] at h
      obtain ⟨rest, hrest, h⟩ := bind_eq_ok.mp h
      obtain rfl := Except.ok.inj h
      obtain ⟨s, u, hs, hu, rfl⟩ := ih hrest
      exact ⟨first ++ s, u, by rw [hfirst, hs]; rfl, hu, String.append_assoc⟩
    · exact absurd h (hnone _ text)

/-- In a literal, a directive stands behind as many tabs as the block around is deep. -/
theorem brings_literalLine {outer : Nat} (htab : '\t' ∉ pos.file.toList)
    (hend : '\n' ∉ pos.file.toList) (hindent : '\n' ∉ indent.toList)
    (h : renderPieces slots (literalLine outer l) = .ok text) :
    Brings indent (String.join (List.replicate outer indent) ++ directiveText pos)
      ([l].count (Builder.directive pos)) text := by
  obtain ⟨s, u, hs, hu, rfl⟩ := exists_of_renderPieces_append h
  obtain ⟨tabs, text, htabs, htext, rfl⟩ := exists_of_renderPieces_append hs
  obtain rfl := Except.ok.inj ((renderPieces_text _).symm.trans htabs)
  obtain rfl := Except.ok.inj ((renderPieces_text _).symm.trans hu)
  by_cases hl : l = Builder.directive pos
  · rw [hl, renderPieces_directive] at htext
    obtain rfl := Except.ok.inj htext
    rw [hl, List.count_singleton_self]
    refine brings_line ?_ ?_
    · rw [replaceTabs_append, replaceTabs_of_not_mem (not_mem_directiveText (by simp) htab)]
      exact congrArg (· ++ _) (replaceTabs_tabs indent outer)
    · rw [String.toList_append, List.mem_append, not_or]
      exact ⟨not_mem_join_replicate hindent outer, not_mem_directiveText (by simp) hend⟩
  · rw [List.count_singleton, if_neg (by simpa using hl)]
    exact brings_ended _

/-- In a function literal the directives are indented, by as much as the literal itself. -/
theorem brings_literalLines {outer : Nat} (htab : '\t' ∉ pos.file.toList)
    (hend : '\n' ∉ pos.file.toList) (hindent : '\n' ∉ indent.toList)
    (h : renderPieces slots (lines.flatMap (literalLine outer)) = .ok text) :
    Brings indent (String.join (List.replicate outer indent) ++ directiveText pos)
      (lines.count (Builder.directive pos)) text := by
  induction lines generalizing text with
  | nil =>
    obtain rfl := Except.ok.inj h
    exact brings_empty
  | cons l lines ih =>
    rw [List.flatMap_cons] at h
    obtain ⟨s, u, hs, hu, rfl⟩ := exists_of_renderPieces_append h
    rw [← List.singleton_append, List.count_append]
    exact (brings_literalLine htab hend hindent hs).append (ih hu)

/-- Where a file has a literal, the directives in it stand behind the indentation of the block
around it. -/
theorem count_le_of_literal {b : Builder} {source signature : String} {outer : Nat}
    (htab : '\t' ∉ pos.file.toList) (hend : '\n' ∉ pos.file.toList)
    (hindent : '\n' ∉ b.options.indent.toList) (h : b.render = .ok source)
    (hl : l ∈ b.writtenLines)
    (hliteral : Builder.literalPieces outer signature lines <:+: l.pieces) :
    lines.count (Builder.directive pos) ≤ (source.toList.splitOn '\n').count
      (String.join (List.replicate outer b.options.indent) ++ directiveText pos).toList := by
  obtain ⟨text, before, after, htext, rfl⟩ := exists_of_render h hl
  obtain ⟨first, last, hpieces⟩ := hliteral
  rw [← hpieces] at htext
  obtain ⟨front, back, hfront, -, rfl⟩ := exists_of_renderPieces_append htext
  obtain ⟨front, literal, -, hliteral, rfl⟩ := exists_of_renderPieces_append hfront
  obtain ⟨start, close, hstart, -, rfl⟩ := exists_of_renderPieces_append hliteral
  obtain ⟨header, body, hheader, hbody, rfl⟩ := exists_of_renderPieces_append hstart
  obtain rfl := Except.ok.inj ((renderPieces_text _).symm.trans hheader)
  -- The header ends a line, so the lines of the body start where lines of the file do.
  have hcount := ((brings_literalLines htab hend hindent hbody).behind
    (before ++ front ++ "func" ++ signature ++ " \x7b")).le_count (close ++ back ++ "\n" ++ after)
  have hbrace : " \x7b\n" = " \x7b" ++ "\n" := by decide
  simpa only [hbrace, String.append_assoc] using hcount

end

end directiveText

/-! ## Statements that have ended -/

/-- How many statements with a position have ended. -/
structure Tally where
  /-- In the bodies that are open, the innermost first, and at the top level. -/
  frames : List Nat := [0]
  /-- In the functions at package level that have ended. -/
  funcs : Nat := 0

namespace Tally

/-- The statements of the innermost body. -/
def inner (t : Tally) : Nat := t.frames.headD 0

/-- A statement counts where it ends. When a body has ended, its statements go to the functions at
package level if it is one of them. -/
def after (pos : SourcePos) (t : Tally) : Call → Tally
  | .endStmt p _ => { t with frames := t.frames.modifyHead (· + if p = some pos then 1 else 0) }
  | .defineFunc _ => { t with frames := 0 :: t.frames }
  | .endFunc f => ⟨t.frames.tail, if f.nestDepth = 0 then t.funcs + t.inner else t.funcs⟩
  | _ => t

/-- The statements of the top level and of functions at package level. -/
def file (t : Tally) : Nat := t.funcs + t.frames.getLastD 0

end Tally

/-- The statements of some calls. -/
def tally (pos : SourcePos) (calls : List Call) : Tally := calls.foldl (Tally.after pos) {}

namespace Builder

variable {b b' : Builder} {c : Call} {calls : List Call} {pos : SourcePos} {t : Tally} {n : Nat}

/-- The directives of the statements are there, each in its block or in its function. -/
structure Counted (pos : SourcePos) (t : Tally) (b : Builder) : Prop where
  directives : b.options.lineDirectives = true
  frames : List.Forall₂ (fun n (k : Block) => n ≤ k.lines.toList.count (directive pos))
    t.frames b.frames
  funcs : t.funcs ≤ b.funcs.toList.flatten.count (directive pos)

/-- There is a number for every open block, the innermost one included. -/
theorem Counted.exists_cons (h : Counted pos t b) :
    ∃ n ns, t.frames = n :: ns ∧ n ≤ b.block.lines.toList.count (directive pos) ∧
      List.Forall₂ (fun n (k : Block) => n ≤ k.lines.toList.count (directive pos)) ns
        b.frames.tail := by
  have hframes := h.frames
  rw [frames_eq_cons] at hframes
  obtain ⟨n, ns, hn, hns, ht⟩ := List.forall₂_cons_right_iff.mp hframes
  exact ⟨n, ns, ht, hn, hns⟩

/-- What is counted in the innermost block is there. -/
theorem Counted.inner_le (h : Counted pos t b) :
    t.inner ≤ b.block.lines.toList.count (directive pos) := by
  obtain ⟨n, ns, ht, hn, -⟩ := h.exists_cons
  rwa [Tally.inner, ht]

/-- Without bodies there is the top level only. -/
theorem bodies_eq_nil_iff : b.bodies = [] ↔ b.frames.tail = [] := by
  unfold frames
  cases b.bodies with
  | nil => exact iff_of_true rfl rfl
  | cons body outer => simp

theorem frames_of_bodies (h : b.bodies = []) : b.frames = [b.top] := by
  rw [frames, h]
  rfl

/-- Where no body is open, all directives stand in the lines of the file. -/
theorem Counted.file_le (h : Counted pos t b) (hbodies : b.bodies = []) :
    t.file ≤ b.writtenLines.count (directive pos) := by
  have hcounts := h.frames
  rw [frames_of_bodies hbodies] at hcounts
  obtain ⟨n, ns, hn, hns, ht⟩ := List.forall₂_cons_right_iff.mp hcounts
  obtain rfl := List.forall₂_nil_right_iff.mp hns
  rw [Tally.file, ht, writtenLines, List.count_append]
  exact Nat.add_le_add h.funcs hn

/-- The innermost block has got more directives. -/
theorem Counted.grow (h : Counted pos t b) (hoptions : b'.options = b.options)
    (hframes : b'.frames = b'.block :: b.frames.tail) (hfuncs : b'.funcs = b.funcs)
    (hcount : b.block.lines.toList.count (directive pos) + n ≤
      b'.block.lines.toList.count (directive pos)) :
    Counted pos { t with frames := t.frames.modifyHead (· + n) } b' := by
  obtain ⟨m, ns, ht, hm, hns⟩ := h.exists_cons
  refine ⟨hoptions ▸ h.directives, ?_, hfuncs ▸ h.funcs⟩
  rw [hframes, ht]
  exact .cons ((Nat.add_le_add_right hm n).trans hcount) hns

theorem Tally.modifyHead_zero (t : Tally) :
    { t with frames := t.frames.modifyHead (· + 0) } = t := by
  cases t with
  | mk frames funcs => cases frames <;> rfl

/-- A directive is put between the lines of the innermost block. -/
theorem count_placeDirective (hdirectives : b.options.lineDirectives = true)
    (p : Option SourcePos) (line : Nat) :
    b.block.lines.toList.count (directive pos) + (if p = some pos then 1 else 0) ≤
      (b.placeDirective p line).block.lines.toList.count (directive pos) := by
  cases p with
  | none => exact Nat.le_refl _
  | some p =>
    have hle : min line b.block.lines.size ≤ b.block.lines.size := Nat.min_le_right _ _
    have hperm : ((b.placeDirective (some p) line).block.lines.toList).Perm
        (directive p :: b.block.lines.toList) := by
      unfold placeDirective
      rw [hdirectives, block_setBlock]
      simp only [Array.insertIdxIfInBounds, dif_pos hle, Array.toList_insertIdx]
      exact List.perm_insertIdx _ _ (Array.length_toList ▸ hle)
    rw [hperm.count_eq, List.count_cons]
    split
    · next hp => simp [Option.some.inj hp]
    · exact Nat.le_add_right _ _

/-! ## Ended bodies -/

/-- The end of a function at package level makes a declaration of its lines. -/
theorem funcs_endFunc {f : Func} (h : b.step (.endFunc f) = .ok b') (hnest : f.nestDepth = 0) :
    ∃ header footer,
      b'.funcs = b.funcs.push ([header] ++ b.block.lines.toList ++ [footer]) := by
  rw [step_endFunc] at h
  obtain ⟨-, body, outer, parts, hbodies, -, -, rfl⟩ := endFunc_eq_ok.mp h
  unfold addFunc block
  rw [if_pos hnest, hbodies]
  exact ⟨_, _, rfl⟩

/-- The end of a nested function makes a literal of its lines. -/
theorem closures_endFunc {f : Func} (h : b.step (.endFunc f) = .ok b') (hnest : f.nestDepth ≠ 0) :
    b'.funcs = b.funcs ∧ ∃ signature, b'.closures =
      (f.id, { pieces := literalPieces b'.block.depth signature b.block.lines.toList }) ::
        b.closures := by
  rw [step_endFunc] at h
  obtain ⟨-, body, outer, parts, hbodies, -, -, rfl⟩ := endFunc_eq_ok.mp h
  have hblock : b.block = body.block := by rw [block, hbodies]
  rw [addFunc, if_neg hnest, hblock]
  exact ⟨rfl, (resolveParts { b with bodies := outer } parts).1, rfl⟩

/-- The count of an ended body moves to the declarations, or is given up with a literal. -/
theorem counted_endFunc {f : Func} (h : b.step (.endFunc f) = .ok b') (ht : Counted pos t b) :
    Counted pos (t.after pos (.endFunc f)) b' := by
  obtain ⟨n, ns, hn, -, hns⟩ := ht.exists_cons
  have hframes : b'.frames = b.frames.tail := congrArg Output.frames (output_endFunc h)
  refine ⟨options_of_step h ▸ ht.directives, ?_, ?_⟩
  · rw [hframes, Tally.after, hn]
    exact hns
  · by_cases hnest : f.nestDepth = 0
    · obtain ⟨header, footer, hfuncs⟩ := funcs_endFunc h hnest
      have hlines : b.block.lines.toList.count (directive pos) ≤
          ([header] ++ b.block.lines.toList ++ [footer]).count (directive pos) :=
        (List.infix_append _ _ _).sublist.count_le _
      rw [hfuncs, Array.toList_push, List.flatten_concat, List.count_append]
      rw [Tally.after, if_pos hnest]
      exact Nat.add_le_add ht.funcs (ht.inner_le.trans hlines)
    · rw [(closures_endFunc h hnest).1]
      rw [Tally.after, if_neg hnest]
      exact ht.funcs

/-- A call keeps the directives that are there. The end of a statement puts one more into its
block, and the end of a body passes on those of the body. -/
theorem counted_step (h : b.step c = .ok b') (ht : Counted pos t b) :
    Counted pos (t.after pos c) b' := by
  have hoptions := options_of_step h
  by_cases hc : c.delimits = false
  · have hgrows := grows_of_step hc h
    have hcounted := ht.grow (n := 0) hoptions (congrArg Output.frames hgrows.output)
      (congrArg Output.funcs hgrows.output) (hgrows.lines.sublist.count_le _)
    rw [Tally.modifyHead_zero] at hcounted
    cases c with
    | startStmt | endStmt | defineFunc | endFunc => cases hc
    | _ => exact hcounted
  · cases c with
    | startStmt start =>
      rw [step_startStmt] at h
      obtain ⟨-, rfl⟩ := startStmt_eq_ok.mp h
      exact ⟨ht.directives, ht.frames, ht.funcs⟩
    | endStmt p mark =>
      obtain ⟨-, state, r, -, hleft, rfl⟩ := endStmt_eq_ok.mp ((step_endStmt _ _).symm.trans h)
      have hgrows : Grows { b with stmts := b.stmts.take mark } r := grows_discardLeft hleft
      have hdirectives : r.options.lineDirectives = true :=
        options_discardLeft hleft ▸ ht.directives
      have houtput := output_placeDirective (b := r) p state.line
      refine ht.grow hoptions ?_ ?_ ?_
      · rw [hgrows.tail_frames] at houtput
        exact congrArg Output.frames houtput
      · exact (congrArg Output.funcs houtput).trans (congrArg Output.funcs hgrows.output)
      · exact (Nat.add_le_add_right (hgrows.lines.sublist.count_le _) _).trans
          (count_placeDirective hdirectives p state.line)
    | defineFunc f =>
      have houtput := output_defineFunc h
      have hframes : b'.frames = b'.block :: b.frames := congrArg Output.frames houtput
      have hfuncs : b'.funcs = b.funcs := congrArg Output.funcs houtput
      refine ⟨hoptions ▸ ht.directives, ?_, hfuncs ▸ ht.funcs⟩
      rw [hframes]
      exact .cons (Nat.zero_le _) ht.frames
    | endFunc f => exact counted_endFunc h ht
    | _ => exact absurd rfl hc

/-- By induction on the calls. -/
theorem counted_run (h : Backend.run b calls = .ok b') (ht : Counted pos t b) :
    Counted pos (calls.foldl (Tally.after pos) t) b' := by
  induction calls generalizing b t with
  | nil =>
    obtain rfl := Backend.run_nil_eq_ok.mp h
    exact ht
  | cons c calls ih =>
    obtain ⟨m, hm, hrest⟩ := Backend.run_cons_eq_ok.mp h
    exact ih hrest (counted_step hm ht)

/-- A finished file has the lines that were there before, and the values that were left. -/
theorem writtenLines_of_resolve {text : String} (h : b.resolve = .ok (text, b')) :
    b'.render = .ok text ∧ b'.options = b.options ∧ b.writtenLines.Sublist b'.writtenLines := by
  obtain ⟨hcomplete, e, hdiscard, hrender, rfl⟩ := resolve_eq_ok.mp h
  have hgrows : Grows { b with stack := [] } e := (addsLines_discardAll hdiscard).grows
  have hfuncs : e.funcs = b.funcs := congrArg Output.funcs hgrows.output
  have hbodies : e.bodies = [] :=
    bodies_eq_nil_iff.mpr (hgrows.tail_frames.trans (bodies_eq_nil_iff.mp hcomplete.bodies))
  have htop : b.top.lines.toList <+: e.top.lines.toList := by
    have hfirst : b.block = b.top := block_of_frames (frames_of_bodies hcomplete.bodies)
    have hlast : e.block = e.top := block_of_frames (frames_of_bodies hbodies)
    rw [← hfirst, ← hlast]
    exact hgrows.lines
  refine ⟨hrender, congrArg Fixed.options (fixed_discardAll hdiscard :), ?_⟩
  unfold writtenLines
  rw [hfuncs]
  exact (List.Sublist.refl _).append htop.sublist

/-- Statements have directives of their own, also where their positions are the same. At the top
level and in functions at package level, each directive is a line of the file that starts at the
left margin. In a nested function each stands behind the indentation of the block around the
function, wherever the file has the function. -/
theorem column_of_directive {id : Nat} {registry : Registry} {options : Options} {text : String}
    (hdirectives : options.lineDirectives = true) (htab : '\t' ∉ pos.file.toList)
    (hend : '\n' ∉ pos.file.toList)
    (hrun : Backend.run (fresh id registry options) calls = .ok b)
    (hresolve : b.resolve = .ok (text, b')) :
    (tally pos calls).file ≤ (text.toList.splitOn '\n').count (directiveText pos).toList ∧
      ∀ pre g post, calls = pre ++ .endFunc g :: post → g.nestDepth ≠ 0 →
        ∃ w w' literal, Backend.run (fresh id registry options) pre = .ok w ∧
          w.step (.endFunc g) = .ok w' ∧ w'.closures = (g.id, literal) :: w.closures ∧
          ('\n' ∉ options.indent.toList → ∀ l ∈ b'.writtenLines, literal.pieces <:+: l.pieces →
            (tally pos pre).inner ≤ (text.toList.splitOn '\n').count
              (String.join (List.replicate w'.block.depth options.indent) ++
                directiveText pos).toList) := by
  have hfresh : Counted pos {} (fresh id registry options) :=
    ⟨hdirectives, .cons (Nat.zero_le _) .nil, Nat.zero_le _⟩
  obtain ⟨hrender, hoptions, hwritten⟩ := writtenLines_of_resolve hresolve
  have hbodies : b.bodies = [] := (resolve_eq_ok.mp hresolve).1.bodies
  refine ⟨?_, ?_⟩
  · calc (tally pos calls).file
      _ ≤ b.writtenLines.count (directive pos) := (counted_run hrun hfresh).file_le hbodies
      _ ≤ b'.writtenLines.count (directive pos) := hwritten.count_le _
      _ ≤ _ := count_le_of_render htab hend hrender
  · rintro pre g post rfl hnest
    obtain ⟨w, hpre, hrest⟩ := Backend.run_append_eq_ok.mp hrun
    obtain ⟨w', hw, -⟩ := Backend.run_cons_eq_ok.mp hrest
    obtain ⟨-, signature, hclosures⟩ := closures_endFunc hw hnest
    refine ⟨w, w', _, hpre, hw, hclosures, fun hindent l hl hliteral => ?_⟩
    have hindents : b'.options = options := hoptions.trans (options_of_run hrun)
    have hcount := count_le_of_literal htab hend (hindents ▸ hindent) hrender hl hliteral
    rw [hindents] at hcount
    exact (counted_run hpre hfresh).inner_le.trans hcount

/-- A function inside of another one. -/
def innerFunc : Func := ⟨1, "f", 1, [], [], false⟩

/-- A loop with a position, in a nested function that is used as a value. -/
def innerCalls : List Call :=
  [.defineFunc innerFunc, .label ⟨2, "again"⟩, .startStmt none, .jump ⟨2, "again"⟩] ++
    .endStmt (some ⟨"f.gop", 1⟩) 0 :: [.endFunc innerFunc, .closure innerFunc]

/-- The directive of the loop is no line of the file. -/
theorem directive_indented : ∃ text, (fresh 0 {} {}).translate innerCalls = .ok text ∧
    (directiveText ⟨"f.gop", 1⟩).toList ∉ text.toList.splitOn '\n' := by
  have htext : ((fresh 0 {} {}).translate innerCalls).toOption.map
      (fun text => decide ((directiveText ⟨"f.gop", 1⟩).toList ∈ text.toList.splitOn '\n')) =
        some false := by decide +kernel
  obtain ⟨text, htext, hlines⟩ := exists_ok_of_toOption htext
  exact ⟨text, htext, of_decide_eq_false hlines⟩

def firstPos : SourcePos := ⟨"f.gop", 1⟩

/-- A statement that came from the first line. -/
def firstStmt : List Call := [.startStmt none, .jump ⟨2, "again"⟩, .endStmt (some firstPos) 0]

/-- Two statements with the same position in a nested function, and two behind it. -/
def repeatedCalls : List Call :=
  .defineFunc innerFunc :: (firstStmt ++ firstStmt ++
    [.endFunc innerFunc, .closure innerFunc] ++ firstStmt ++ firstStmt)

/-- The pieces of the nested function. -/
def repeatedPieces : List Piece :=
  literalPieces 1 "()" [directive firstPos, ⟨1, [.text "goto again"]⟩,
    directive firstPos, ⟨1, [.text "goto again"]⟩]

theorem column_of_innerDirective : ∃ b b' text,
    Backend.run (fresh 0 {} {}) repeatedCalls = .ok b ∧ b.resolve = .ok (text, b') ∧
      2 ≤ (text.toList.splitOn '\n').count "//line f.gop:1".toList ∧
      2 ≤ (text.toList.splitOn '\n').count "\t//line f.gop:1".toList := by
  have hall : (Backend.run (fresh 0 {} {}) repeatedCalls).toOption.map
      (fun r => r.resolve.toOption.map (·.2.writtenLines.getLast?)) =
        some (some (some ⟨1, .text "_ = " :: repeatedPieces⟩)) := by decide +kernel
  have hfunc : (Backend.run (fresh 0 {} {}) (repeatedCalls.take 8)).toOption.map
      (fun r => (r.closures.map (·.2.pieces), r.block.depth)) = some ([repeatedPieces], 1) := by
    decide +kernel
  obtain ⟨b, hb, hresolve⟩ := exists_ok_of_toOption hall
  obtain ⟨⟨text, b'⟩, hresolve, hlast⟩ := exists_ok_of_toOption hresolve
  have htab : '\t' ∉ firstPos.file.toList := by decide
  obtain ⟨hmargin, hnested⟩ := column_of_directive rfl htab (by decide) hb hresolve
  obtain ⟨w, w', literal, hw, hend, hclosures, hlines⟩ :=
    hnested (repeatedCalls.take 7) innerFunc (repeatedCalls.drop 8) rfl (by decide)
  -- The literal is the one that the calls up to the end of the function have stored.
  obtain ⟨r, hr, hparts⟩ := exists_ok_of_toOption hfunc
  have hw' : Backend.run (fresh 0 {} {}) (repeatedCalls.take 7 ++ [.endFunc innerFunc]) = .ok w' :=
    Backend.run_append_eq_ok.mpr ⟨w, hw, Backend.run_singleton_eq_ok.mpr hend⟩
  obtain rfl := Except.ok.inj (hr.symm.trans hw')
  obtain ⟨hpieces, hdepth⟩ := Prod.mk.inj hparts
  have hliteral : literal.pieces = repeatedPieces := by
    rw [hclosures] at hpieces
    exact (List.cons.inj hpieces).1
  have hcolumn := hlines (by decide) ⟨1, .text "_ = " :: repeatedPieces⟩
    (List.mem_of_getLast? hlast) (hliteral ▸ (List.suffix_cons _ _).isInfix)
  rw [hdepth] at hcolumn
  exact ⟨b, b', text, hb, hresolve, hmargin, hcolumn⟩

end Builder

end Lowering.Source
