import Lowering.Proofs.Source.Stack

/-!
# Tags of switches

The cases of a switch compare its tag with their values, one comparison for each value. Before the
first case a tag that is a call or an operation gets a name, which then stands in its place; any
other tag is taken to be simple and is written again in every comparison. Whether a tag is simple is
seen from its outermost part only, so a call inside an index, a slice, a conversion or a literal is
repeated.

`switchLines` are the lines of a whole switch. The cases of a switch are those calls of a run that
compare one and the same value of the stack (`tagCases`), and `copies_of_tag` says that they write
these lines and how often a part of the tag stands in them. To count the copies of one part, and not
what only looks like it, a mark is put in its place.
-/

namespace Lowering.Source

/-! ## The lines of a switch -/

/-- A case: the depth of its block, where it leads to otherwise, and its values. -/
structure Case where
  depth : Nat
  label : Label
  values : List Fragment
  deriving DecidableEq

/-- The comparison of a tag with the values of a case. -/
def caseLine (tag : Fragment) (c : Case) : Line :=
  ⟨c.depth, [.text "if "] ++ Script.caseCondition tag c.values ++
    [.text (" \x7b goto " ++ Builder.labelName c.label ++ " \x7d")]⟩

namespace Fragment

/-- What stands for a tag once its switch has begun. -/
def kept (tag : Fragment) (name : String) : Fragment := if tag.isSimple then tag else .primary name

/-- A tag that is kept is a name, or was simple before. -/
theorem isSimple_kept (tag : Fragment) (name : String) : (tag.kept name).isSimple = true := by
  unfold kept
  split
  · assumption
  · rfl

theorem kept_of_isSimple {tag : Fragment} (h : tag.isSimple = true) (name : String) :
    tag.kept name = tag := if_pos h

end Fragment

/-- The line that gives a tag its name, if it needs one. -/
def declaration (name : String) (tag : Fragment) (depth : Nat) : List Line :=
  if tag.isSimple then [] else [⟨depth, .text (name ++ " := ") :: tag.pieces⟩]

/-- The lines of a switch with a name for its tag. -/
def switchLines (name : String) (tag : Fragment) : List Case → List Line
  | [] => []
  | first :: later =>
    declaration name tag first.depth ++ (first :: later).map (caseLine (tag.kept name))

/-! ## Marks -/

section Marks

variable {m k l : Nat} {part xs xs' ys ys' : List Piece}

/-- Puts pieces in the place of a mark. -/
def Piece.plug (m : Nat) (part pieces : List Piece) : List Piece :=
  pieces.flatMap fun piece => if piece = .slot m then part else [piece]

def Line.plug (m : Nat) (part : List Piece) (l : Line) : Line :=
  { l with pieces := Piece.plug m part l.pieces }

/-- The number of marks in some lines. -/
def marks (m : Nat) (lines : List Line) : Nat := (lines.flatMap (·.pieces)).count (.slot m)

/-- The fragment with a mark between two parts of it. -/
def Fragment.marked (e : Fragment) (front : List Piece) (m : Nat) (back : List Piece) : Fragment :=
  { e with pieces := front ++ .slot m :: back }

/-- Some pieces with `k` marks, each of them in the place of the part. -/
structure Marks (m : Nat) (part : List Piece) (k : Nat) (marked plain : List Piece) : Prop where
  plug : Piece.plug m part marked = plain
  count : marked.count (.slot m) = k

/-- Marks are counted in both parts. -/
theorem Marks.append (hx : Marks m part k xs xs') (hy : Marks m part l ys ys') :
    Marks m part (k + l) (xs ++ ys) (xs' ++ ys') where
  plug := by
    rw [← hx.plug, ← hy.plug]
    exact List.flatMap_append
  count := by rw [List.count_append, hx.count, hy.count]

/-- Text without the mark is the same text when the part is put in. -/
theorem marks_of_not_mem (h : .slot m ∉ xs) : Marks m part 0 xs xs where
  plug := by
    induction xs with
    | nil => rfl
    | cons x xs ih =>
      have hx : x ≠ .slot m := fun hx => h (hx ▸ List.mem_cons_self)
      have hxs : Piece.plug m part xs = xs := ih fun hm => h (List.mem_cons_of_mem x hm)
      rw [Piece.plug, List.flatMap_cons, if_neg hx]
      exact congrArg (x :: ·) hxs
  count := List.count_eq_zero.mpr h

theorem marks_text (s : String) : Marks m part 0 [.text s] [.text s] :=
  marks_of_not_mem (by simp)

/-- The mark itself becomes the part. -/
theorem marks_slot : Marks m part 1 [.slot m] part where
  plug := by simp [Piece.plug]
  count := by simp

/-- Parentheses are text, and both sides have them or neither. -/
theorem Marks.asOperand {e e' : Fragment} (he : Marks m part k e.pieces e'.pieces)
    (hprecedence : e.precedence = e'.precedence) (least : Nat) :
    Marks m part k (e.asOperand least) (e'.asOperand least) := by
  unfold Fragment.asOperand
  rw [hprecedence]
  split
  · have h := ((marks_text "(").append he).append (marks_text ")")
    rwa [Nat.zero_add, Nat.add_zero] at h
  · exact he

theorem Marks.binary {tag tag' v : Fragment} (htag : Marks m part k tag.pieces tag'.pieces)
    (hprecedence : tag.precedence = tag'.precedence) (hv : .slot m ∉ v.pieces) (op : String)
    (precedence : Nat) :
    Marks m part k (tag.binary op v precedence).pieces (tag'.binary op v precedence).pieces :=
  ((htag.asOperand hprecedence precedence).append (marks_text (" " ++ op ++ " "))).append
    ((marks_of_not_mem hv).asOperand rfl (precedence + 1))

/-- Every comparison of a case holds the tag once. -/
theorem marks_caseCondition {tag tag' : Fragment} (htag : Marks m part k tag.pieces tag'.pieces)
    (hprecedence : tag.precedence = tag'.precedence) {values : List Fragment}
    (hvalues : ∀ v ∈ values, .slot m ∉ v.pieces) :
    Marks m part (values.length * k) (Script.caseCondition tag values)
      (Script.caseCondition tag' values) := by
  induction values with
  | nil =>
    rw [List.length_nil, Nat.zero_mul]
    exact marks_of_not_mem List.not_mem_nil
  | cons v rest ih =>
    have hv := htag.binary hprecedence (hvalues v List.mem_cons_self) "!=" BinaryOp.ne.precedence
    cases rest with
    | nil =>
      rw [List.length_singleton, Nat.one_mul]
      exact hv
    | cons w rest =>
      have hrest := ih fun w hw => hvalues w (List.mem_cons_of_mem v hw)
      have h := (hv.append (marks_text " && ")).append hrest
      rwa [Nat.add_zero, Nat.add_comm, ← Nat.succ_mul] at h

/-- Lines with marks, each of them in the place of the part. -/
structure MarksLines (m : Nat) (part : List Piece) (k : Nat) (marked plain : List Line) : Prop where
  plug : marked.map (Line.plug m part) = plain
  count : marks m marked = k

/-- Marks are counted in all lines. -/
theorem MarksLines.append {ls ls' ks ks' : List Line} (hl : MarksLines m part k ls ls')
    (hk : MarksLines m part l ks ks') : MarksLines m part (k + l) (ls ++ ks) (ls' ++ ks') where
  plug := by rw [List.map_append, hl.plug, hk.plug]
  count := by
    rw [marks, List.flatMap_append, List.count_append]
    rw [← hl.count, ← hk.count, marks, marks]

theorem marksLines_nil : MarksLines m part 0 [] [] := ⟨rfl, rfl⟩

theorem marksLines_singleton (depth : Nat) (h : Marks m part k xs xs') :
    MarksLines m part k [⟨depth, xs⟩] [⟨depth, xs'⟩] where
  plug := by rw [List.map_singleton, Line.plug, h.plug]
  count := by
    rw [marks, List.flatMap_singleton]
    exact h.count

/-- The cases of a switch whose tag is written out hold it once for each value. -/
theorem marksLines_cases {tag tag' : Fragment} (htag : Marks m part k tag.pieces tag'.pieces)
    (hprecedence : tag.precedence = tag'.precedence) {cases : List Case}
    (hcases : ∀ c ∈ cases, ∀ v ∈ c.values, .slot m ∉ v.pieces) :
    MarksLines m part ((cases.flatMap (·.values)).length * k) (cases.map (caseLine tag))
      (cases.map (caseLine tag')) := by
  induction cases with
  | nil =>
    rw [List.flatMap_nil, List.length_nil, Nat.zero_mul]
    exact marksLines_nil
  | cons c rest ih =>
    have hcondition := marks_caseCondition htag hprecedence (hcases c List.mem_cons_self)
    have hline := marksLines_singleton c.depth
      (((marks_text "if ").append hcondition).append
        (marks_text (" \x7b goto " ++ Builder.labelName c.label ++ " \x7d")))
    have h := hline.append (ih fun d hd => hcases d (List.mem_cons_of_mem c hd))
    rw [Nat.zero_add, Nat.add_zero, ← Nat.add_mul, ← List.length_append] at h
    exact h

/-- How often a switch holds each part of its tag. -/
def copies (tag : Fragment) (cases : List Case) : Nat :=
  if tag.isSimple then (cases.flatMap (·.values)).length else 1

/-- A tag with one part marked has one mark. -/
theorem marks_marked {tag : Fragment} {front back : List Piece}
    (htag : tag.pieces = front ++ part ++ back) (hm : .slot m ∉ tag.pieces) :
    Marks m part 1 (tag.marked front m back).pieces tag.pieces := by
  rw [htag] at hm ⊢
  simp only [List.mem_append, not_or] at hm
  have hfront : Marks m part 0 front front := marks_of_not_mem hm.1.1
  have h := (hfront.append marks_slot).append (marks_of_not_mem hm.2)
  rwa [List.append_assoc front, List.singleton_append] at h

theorem marksLines_switchLines {name : String} {tag : Fragment} {front back : List Piece}
    {cases : List Case} (hne : cases ≠ []) (htag : tag.pieces = front ++ part ++ back)
    (hm : .slot m ∉ tag.pieces) (hcases : ∀ c ∈ cases, ∀ v ∈ c.values, .slot m ∉ v.pieces) :
    MarksLines m part (copies tag cases) (switchLines name (tag.marked front m back) cases)
      (switchLines name tag cases) := by
  have hmarked : Marks m part 1 (tag.marked front m back).pieces tag.pieces :=
    marks_marked htag hm
  have hsame : (tag.marked front m back).isSimple = tag.isSimple := rfl
  cases cases with
  | nil => exact absurd rfl hne
  | cons first later =>
    unfold switchLines declaration Fragment.kept copies
    rw [hsame]
    cases tag.isSimple with
    | true =>
      have h := marksLines_cases hmarked rfl hcases
      rwa [Nat.mul_one] at h
    | false =>
      have hname : Marks m part 0 (Fragment.primary name).pieces (Fragment.primary name).pieces :=
        marks_text name
      have hfirst := marksLines_singleton first.depth ((marks_text (name ++ " := ")).append hmarked)
      have h := hfirst.append (marksLines_cases hname rfl hcases)
      rwa [Nat.zero_add, Nat.mul_zero] at h

end Marks

namespace Builder

variable {b b' : Builder} {c : Call} {case : Case} {tag : Fragment} {values base : List Fragment}

/-! ## One case -/

/-- The lines that are in the block of the second state and not yet in that of the first. -/
def added (b b' : Builder) : List Line := b'.block.lines.toList.drop b.block.lines.size

/-- An open builder accepts lines. -/
theorem line_of_open (hb : b.resolved = false) (pieces : List Piece) :
    ∃ m, b.line pieces = .ok m ∧ m.stack = b.stack ∧ m.resolved = false ∧
      m.block.depth = b.block.depth ∧
      m.block.lines = b.block.lines.push ⟨b.block.depth, pieces⟩ := by
  refine ⟨_, checkOpen_bind hb _ _, stack_setBlock _, ?_, ?_, ?_⟩
  · rw [resolved_setBlock, hb]
  · rw [block_setBlock]
  · rw [block_setBlock]

/-- The values on top come off in the order in which they were pushed. -/
theorem popMany_of_stack {rest : List Fragment} (hstack : b.stack = values.reverse ++ rest) :
    b.popMany values.length = .ok (values, { b with stack := rest }) := by
  have hlength : ¬ b.stack.length < values.length := by
    rw [hstack, List.length_append, List.length_reverse]
    omega
  have htake : (b.stack.take values.length).reverse = values := by
    rw [hstack, List.take_left' List.length_reverse, List.reverse_reverse]
  have hdrop : b.stack.drop values.length = rest := by
    rw [hstack, List.drop_left' List.length_reverse]
  rw [popMany, if_neg hlength, htake, hdrop]

/-- The tag is replaced by its name, which is declared, unless it is simple. -/
theorem run_hoistTag (hb : b.resolved = false) (hstack : b.stack = tag :: base) :
    ∃ m, Script.hoistTag.run b = .ok (tag.kept (b.temp "tag").1, m) ∧
      m.stack = tag.kept (b.temp "tag").1 :: base ∧ m.resolved = false ∧
      m.block.depth = b.block.depth ∧
      m.block.lines.toList =
        b.block.lines.toList ++ declaration (b.temp "tag").1 tag b.block.depth := by
  unfold Fragment.kept declaration
  simp only [Script.hoistTag, Script.act_bind, Script.done_bind, Script.pure_eq_done]
  rw [Script.run_take hstack]
  by_cases hsimple : tag.isSimple = true
  · simp only [if_pos hsimple]
    exact ⟨_, Script.run_push hb, rfl, hb, rfl, (List.append_nil _).symm⟩
  · simp only [if_neg hsimple]
    obtain ⟨m, hline, hmstack, hm, hdepth, hlines⟩ :=
      line_of_open (b := { b with temps := b.temps + 1, stack := base }) hb
        (.text ((b.temp "tag").1 ++ " := ") :: tag.pieces)
    refine ⟨{ m with stack := .primary (b.temp "tag").1 :: m.stack }, ?_, ?_, hm, hdepth, ?_⟩
    · rw [Script.run_act_of_ok rfl]
      exact (Script.run_line hline).trans (Script.run_push hm)
    · exact congrArg _ hmstack
    · change m.block.lines.toList = _
      rw [hlines, Array.toList_push]
      rfl

/-- A case writes the lines of a switch of its own, and what it leaves on the stack stands for the
tag. -/
theorem step_caseNe (hb : b.resolved = false) (hstack : b.stack = values.reverse ++ tag :: base)
    (l : Label) :
    ∃ m, b.step (.caseNe l values.length) = .ok m ∧
      m.stack = tag.kept (b.temp "tag").1 :: base ∧
      b.added m = switchLines (b.temp "tag").1 tag [⟨b.block.depth, l, values⟩] := by
  obtain ⟨m, hhoist, hmstack, hm, hdepth, hlines⟩ :=
    run_hoistTag (b := { b with stack := tag :: base }) hb rfl
  obtain ⟨n, hline, hnstack, -, -, hnlines⟩ := line_of_open hm
    (caseLine (tag.kept (b.temp "tag").1) ⟨b.block.depth, l, values⟩).pieces
  refine ⟨n, step_eq_ok.mpr ?_, hnstack.trans hmstack, ?_⟩
  · refine Script.run_act_eq_ok.mpr ⟨values, _, popMany_of_stack hstack, ?_⟩
    show (Script.hoistTag >>= _).run _ = _
    rw [Script.run_bind]
    exact bind_eq_ok.mpr ⟨_, hhoist, Script.run_line hline⟩
  · rw [added, hnlines, Array.toList_push, hlines, hdepth, List.append_assoc]
    exact List.drop_left' Array.length_toList

/-- A case ends in a line, so it is refused once the builder is resolved. -/
theorem resolved_of_caseNe {l : Label} {arity : Nat} (h : b.step (.caseNe l arity) = .ok b') :
    b.resolved = false := by
  have hfixed : b'.fixed = b.fixed := step_fixed (by simp) (by simp) h
  obtain ⟨values, m, -, h⟩ := Script.run_act_eq_ok.mp (step_eq_ok.mp h)
  change (Script.hoistTag >>= _).run m = _ at h
  rw [Script.run_bind] at h
  obtain ⟨⟨kept, n⟩, -, h⟩ := bind_eq_ok.mp h
  obtain ⟨_, r, hline, h⟩ := Script.run_act_eq_ok.mp h
  obtain rfl := congrArg Prod.snd (Except.ok.inj h)
  have hline := Action.silent_eq_ok.mp hline
  have hn : r.fixed = n.fixed := (addsLines_line hline).unchanged fun _ => fixed_setBlock
  have hresolved : n.resolved = b.resolved := congrArg Fixed.resolved (hn.symm.trans hfixed)
  exact hresolved.symm.trans (line_eq_ok.mp hline).1

/-! ## The cases of a tag -/

/-- The case that a call is, if it compares the value with `d` values under it. -/
def caseAt? (d : Nat) (b : Builder) : Call → Option Case
  | .caseNe l arity =>
    if b.stack.length = arity + 1 + d then some ⟨b.block.depth, l, (b.stack.take arity).reverse⟩
    else none
  | _ => none

/-- The cases of a run that compare the value with `d` values under it, each with the lines that it
adds. They end where that value is taken for something else. -/
def tagCases (d : Nat) (b : Builder) : List Call → List (Case × List Line)
  | [] => []
  | c :: rest =>
    match b.step c with
    | .error _ => []
    | .ok b' =>
      match b.caseAt? d c with
      | some case => (case, b.added b') :: b'.tagCases d rest
      | none => if b.takes c + 1 + d ≤ b.stack.length then b'.tagCases d rest else []

/-- A case is seen where the values are all that lies on top of the tag. -/
theorem caseAt?_eq_some (htag : tag :: base <:+ b.stack)
    (h : b.caseAt? base.length c = some case) :
    c = .caseNe case.label case.values.length ∧ case.depth = b.block.depth ∧
      b.stack = case.values.reverse ++ tag :: base := by
  obtain ⟨top, hstack⟩ := htag
  cases c with
  | caseNe l arity =>
    by_cases hlength : b.stack.length = arity + 1 + base.length
    · rw [caseAt?, if_pos hlength] at h
      obtain rfl := Option.some.inj h
      have htop : top.length = arity := by
        rw [← hstack, List.length_append, List.length_cons] at hlength
        omega
      have htake : b.stack.take arity = top := by
        rw [← hstack, List.take_left' htop]
      refine ⟨?_, rfl, ?_⟩
      · rw [htake, List.length_reverse, htop]
      · rw [htake, List.reverse_reverse, hstack]
    · rw [caseAt?, if_neg hlength] at h
      cases h
  | _ => cases h

theorem caseAt?_caseNe (hstack : b.stack = values.reverse ++ tag :: base) (l : Label) :
    b.caseAt? base.length (.caseNe l values.length) = some ⟨b.block.depth, l, values⟩ := by
  have hlength : b.stack.length = values.length + 1 + base.length := by
    rw [hstack, List.length_append, List.length_reverse, List.length_cons]
    omega
  rw [caseAt?, if_pos hlength, hstack, List.take_left' List.length_reverse, List.reverse_reverse]

/-- A case of a simple tag is one comparison with the tag itself, which stays. -/
theorem added_of_caseAt? (hsimple : tag.isSimple = true) (htag : tag :: base <:+ b.stack)
    (hcase : b.caseAt? base.length c = some case) (hstep : b.step c = .ok b') :
    b.added b' = [caseLine tag case] ∧ tag :: base <:+ b'.stack := by
  obtain ⟨rfl, hdepth, hstack⟩ := caseAt?_eq_some htag hcase
  obtain ⟨m, hm, hmstack, hadded⟩ := step_caseNe (resolved_of_caseNe hstep) hstack case.label
  obtain rfl : m = b' := Except.ok.inj (hm.symm.trans hstep)
  rw [Fragment.kept_of_isSimple hsimple] at hmstack
  refine ⟨?_, hmstack ▸ List.suffix_refl _⟩
  rw [hadded, switchLines, declaration, if_pos hsimple, Fragment.kept_of_isSimple hsimple, ← hdepth]
  rfl

/-- While a simple tag is on the stack, its cases are comparisons with it. -/
theorem flatMap_tagCases (hsimple : tag.isSimple = true) (htag : tag :: base <:+ b.stack)
    (calls : List Call) :
    (b.tagCases base.length calls).flatMap (·.2) =
      ((b.tagCases base.length calls).map (·.1)).map (caseLine tag) := by
  -- What the induction carries is that the tag is still on the stack: a case of it leaves it there,
  -- and any other call either does not reach it or ends the list.
  induction calls generalizing b with
  | nil => rfl
  | cons c rest ih =>
    unfold tagCases
    cases hstep : b.step c with
    | error e => rfl
    | ok b' =>
      cases hcase : b.caseAt? base.length c with
      | none =>
        by_cases htakes : b.takes c + 1 + base.length ≤ b.stack.length
        · have hlength : b.takes c + (tag :: base).length ≤ b.stack.length := by
            rw [List.length_cons]
            omega
          simp only [if_pos htakes]
          exact ih (suffix_of_step htag hlength hstep)
        · simp only [if_neg htakes]
          rfl
      | some case =>
        obtain ⟨hline, hstays⟩ := added_of_caseAt? hsimple htag hcase hstep
        simp only [List.flatMap_cons, List.map_cons, hline, ih hstays]
        rfl

/-- All cases of a tag together write the lines of one switch. -/
theorem tagCases_of_open (hb : b.resolved = false)
    (hstack : b.stack = values.reverse ++ tag :: base) (l : Label) (later : List Call) :
    ∃ cases, (b.tagCases base.length (.caseNe l values.length :: later)).map (·.1) =
        ⟨b.block.depth, l, values⟩ :: cases ∧
      (b.tagCases base.length (.caseNe l values.length :: later)).flatMap (·.2) =
        switchLines (b.temp "tag").1 tag (⟨b.block.depth, l, values⟩ :: cases) := by
  obtain ⟨m, hstep, hmstack, hadded⟩ := step_caseNe hb hstack l
  have hcases : b.tagCases base.length (.caseNe l values.length :: later) =
      (⟨b.block.depth, l, values⟩, b.added m) :: m.tagCases base.length later := by
    rw [tagCases, hstep, caseAt?_caseNe hstack]
  have hkept : tag.kept (b.temp "tag").1 :: base <:+ m.stack := hmstack ▸ List.suffix_refl _
  have hlater := flatMap_tagCases (tag.isSimple_kept (b.temp "tag").1) hkept later
  refine ⟨(m.tagCases base.length later).map (·.1), ?_, ?_⟩
  · rw [hcases, List.map_cons]
  · rw [hcases, List.flatMap_cons, hadded, hlater]
    simp only [switchLines, List.map_cons, List.map_nil, List.append_assoc, List.cons_append,
      List.nil_append]

/-! ## Simple tags -/

/-- Whether what a call leaves on top of the stack counts as simple, for the calls that always leave
the same. -/
def leavesSimple? : Call → Option Bool
  | .callFunc _ _ | .callVariadicFunc _ _ _ | .callClosure _ _ _ | .callNativeClosure _ _ _
  | .callNative _ _ | .callVariadicNative _ _ _ | .append _ _ | .make _ _ | .builtinOp _ _
  | .addrVar _ => some false
  | .push _ | .reserve | .load _ | .loadVar _ | .zero _ | .endComprehension _ | .index _ | .mapIndex
  | .slice _ _ | .slice3 _ _ _ | .cast _ _ | .makeArray _ _ | .makeMap _ _ => some true
  | .builtin _ f => if f.producesValue then some false else none
  | _ => none

/-- The newest value is simple or not. -/
abbrev Topped (simple : Bool) (b : Builder) : Prop := b.stack.head?.map (·.isSimple) = some simple

/-- Wherever the script comes to its end, the newest value is simple or not. -/
def Tops (simple : Bool) (s : Script Unit) : Prop :=
  ∀ b, Ensures (fun r => Topped simple r.2) (s.run b)

open Script

section

variable {simple : Bool}

/-- A script that fails leaves nothing on top. -/
theorem tops_fail (f : Fault) : Tops simple (.fail f) := fun _ => ensures_error

/-- What a script leaves on top is said by its end. -/
theorem tops_act {γ : Type} {action : Action γ} {next : γ → Script Unit}
    (h : ∀ x, Tops simple (next x)) : Tops simple (.act action next) :=
  fun _ => ensures_bind fun r => h r.1 r.2

theorem tops_bind {α : Type} {s : Script α} {next : α → Script Unit}
    (h : ∀ x, Tops simple (next x)) : Tops simple (s >>= next) := by
  induction s with
  | done a => exact h a
  | fail f => exact tops_fail f
  | act action rest ih => exact tops_act ih

theorem tops_push {e : Fragment} (he : e.isSimple = simple) : Tops simple (push e) := by
  rintro b ⟨_, b'⟩ h
  obtain ⟨x, m, hm, h⟩ := run_act_eq_ok.mp h
  obtain ⟨-, rfl⟩ := Prod.mk.inj (Except.ok.inj h)
  obtain ⟨-, rfl⟩ := pushExpr_eq_ok.mp (Action.silent_eq_ok.mp hm)
  exact congrArg some he

end

/-- What an operator makes is evaluated once. -/
theorem tops_builtinOp (op : Operator) : Tops false (builtinOp op) := by
  cases op with
  | unary op => exact tops_act fun _ => tops_push rfl
  | binary op =>
    have hprecedence : op.precedence ≠ primaryPrecedence := by cases op <;> decide
    refine tops_act fun _ => tops_act fun _ => tops_push ?_
    simp [Fragment.isSimple, Fragment.binary, hprecedence]

/-- The value of a comprehension is the name that was collected into. -/
theorem tops_endComprehension (d : Comprehension) : Tops true (endComprehension b d) := by
  unfold endComprehension
  split
  · split
    · exact tops_act fun _ => tops_push rfl
    · exact tops_fail _
  · exact tops_fail _

theorem tops_builtin {f : Builtin} (hf : f.producesValue = true) : Tops false (builtin f) := by
  refine tops_act fun args => ?_
  show Tops false (if f.producesValue then _ else _)
  rw [if_pos hf]
  exact tops_push rfl

theorem tops_zero (t : Ty) : Tops true (Script.zero t) := by
  unfold Script.zero
  split
  · exact tops_push rfl
  · exact tops_act fun _ => tops_push rfl

theorem tops_append (arity : Int) : Tops false (append arity) := by
  unfold append
  split
  · exact tops_act fun _ => tops_push rfl
  · exact tops_act fun _ => tops_push rfl

/-- Calls and operators leave what is not simple. Elements, slices, conversions and literals are
simple, whatever is in them. -/
theorem tops_script {simple : Bool} (hc : leavesSimple? c = some simple) (hr : c ≠ .reserve) :
    Tops simple (b.script c) := by
  cases c
  case builtin t f =>
    by_cases hf : f.producesValue = true
    · obtain rfl : false = simple := Option.some.inj ((if_pos hf).symm.trans hc)
      exact tops_builtin hf
    · exact nomatch (if_neg hf).symm.trans hc
  all_goals cases hc
  case reserve => exact absurd rfl hr
  case callFunc | callVariadicFunc => exact tops_act fun _ => tops_push rfl
  case callClosure | callNativeClosure | make | cast | makeArray | makeMap =>
    exact tops_act fun _ => tops_act fun _ => tops_push rfl
  case callNative | callVariadicNative =>
    exact tops_bind fun _ => tops_act fun _ => tops_act fun _ => tops_push rfl
  case append t arity => exact tops_append arity
  case builtinOp k op => exact tops_builtinOp op
  case push | loadVar | addrVar => exact tops_push rfl
  case load | index | mapIndex => exact tops_bind fun _ => tops_push rfl
  case zero t => exact tops_zero t
  case endComprehension d => exact tops_endComprehension d
  case slice | slice3 => exact tops_bind fun _ => tops_act fun _ => tops_push rfl

/-- By the call: each one that pushes a value ends its script by pushing it. -/
theorem topped_step {simple : Bool} (hc : leavesSimple? c = some simple) (h : b.step c = .ok b') :
    Topped simple b' := by
  by_cases hreserve : c = .reserve
  · subst hreserve
    obtain rfl : true = simple := Option.some.inj hc
    obtain ⟨-, rfl⟩ := step_reserve_eq_ok.mp h
    rfl
  · exact tops_script hc hreserve b _ (step_eq_ok.mp h)

end Builder

/-! ## Copies of a tag -/

open Builder (leavesSimple?)

/-- All cases of a tag together write the lines of one switch, in which every part of the tag stands
once if the tag has got a name, and once for each value of each case otherwise. The call that made
the tag decides which: a call or an operator makes one that gets a name. -/
theorem copies_of_tag {b : Builder} {tag : Fragment} {values base : List Fragment}
    (hb : b.resolved = false) (hstack : b.stack = values.reverse ++ tag :: base) (l : Label)
    (later : List Call) :
    (∃ cases, (b.tagCases base.length (.caseNe l values.length :: later)).map (·.1) =
        ⟨b.block.depth, l, values⟩ :: cases ∧
      (b.tagCases base.length (.caseNe l values.length :: later)).flatMap (·.2) =
        switchLines (b.temp "tag").1 tag (⟨b.block.depth, l, values⟩ :: cases) ∧
      ∀ front part back m, tag.pieces = front ++ part ++ back → .slot m ∉ tag.pieces →
        (∀ c ∈ ⟨b.block.depth, l, values⟩ :: cases, ∀ v ∈ c.values, .slot m ∉ v.pieces) →
        MarksLines m part (copies tag (⟨b.block.depth, l, values⟩ :: cases))
          (switchLines (b.temp "tag").1 (tag.marked front m back)
            (⟨b.block.depth, l, values⟩ :: cases))
          ((b.tagCases base.length (.caseNe l values.length :: later)).flatMap (·.2))) ∧
      ∀ (before after : Builder) (c : Call) (simple : Bool), leavesSimple? c = some simple →
        before.step c = .ok after → after.stack.head? = some tag → tag.isSimple = simple := by
  obtain ⟨cases, hcases, hlines⟩ := Builder.tagCases_of_open hb hstack l later
  refine ⟨⟨cases, hcases, hlines, ?_⟩, ?_⟩
  · intro front part back m htag hm hvalues
    rw [hlines]
    exact marksLines_switchLines (List.cons_ne_nil _ _) htag hm hvalues
  · intro before after c simple hc hstep htop
    have htopped : after.stack.head?.map (·.isSimple) = some simple :=
      Builder.topped_step hc hstep
    rw [htop] at htopped
    exact Option.some.inj htopped

section Polling

/-- A function whose calls are counted. -/
def poll : Func := { id := 1, name := "poll", nestDepth := 0 }

def otherwise : Label := { id := 2, name := "otherwise" }

def pollCall : Fragment := .call (.primary "poll") [] false

/-- The element `poll()[0]`. -/
def polledElement : Fragment := pollCall.index (.primary "0")

/-- The sum `poll()[0] + 1`. -/
def polledSum : Fragment := polledElement.binary "+" (.primary "1") BinaryOp.add.precedence

/-- A state in which a tag waits for its comparison with one and two. -/
def comparing (tag : Fragment) : Builder :=
  { id := 0, registry := {}, stack := [.primary "2", .primary "1", tag] }

/-- Two cases with three values call the function once. -/
theorem copies_of_polledSum :
    (comparing polledSum).stack = [.primary "1", .primary "2"].reverse ++ polledSum :: [] ∧
      polledSum.pieces =
        [] ++ pollCall.pieces ++ [.text "[", .text "0", .text "]", .text " + ", .text "1"] ∧
      MarksLines 0 pollCall.pieces 1
        (switchLines "_gop_tag0"
          (polledSum.marked [] 0 [.text "[", .text "0", .text "]", .text " + ", .text "1"])
          [⟨1, otherwise, [.primary "1", .primary "2"]⟩, ⟨1, otherwise, [.primary "3"]⟩])
        (((comparing polledSum).tagCases 0
          [.caseNe otherwise 2, .push (.integer .int 3 (by decide)), .caseNe otherwise 1]).flatMap
            (·.2)) := by
  have hstack : (comparing polledSum).stack =
      [.primary "1", .primary "2"].reverse ++ polledSum :: [] := rfl
  obtain ⟨⟨cases, hcases, -, hmarks⟩, -⟩ :=
    copies_of_tag rfl hstack otherwise [.push (.integer .int 3 (by decide)), .caseNe otherwise 1]
  have hall : ((comparing polledSum).tagCases 0 [.caseNe otherwise 2,
      .push (.integer .int 3 (by decide)), .caseNe otherwise 1]).map (·.1) =
      [⟨1, otherwise, [.primary "1", .primary "2"]⟩, ⟨1, otherwise, [.primary "3"]⟩] := by
    decide +kernel
  have hlater : [(⟨1, otherwise, [.primary "3"]⟩ : Case)] = cases :=
    List.tail_eq_of_cons_eq (hall.symm.trans hcases)
  subst hlater
  exact ⟨hstack, rfl, hmarks [] pollCall.pieces _ 0 rfl (by decide) (by decide)⟩

/-- One case with two values calls the function twice. -/
theorem polledElement_repeated :
    ∃ b, Backend.run ({ id := 0, registry := {} } : Builder)
        [.callFunc poll 0, .index 0, .push (.integer .int 1 (by decide)),
          .push (.integer .int 2 (by decide))] = .ok b ∧
      b.stack = [.primary "1", .primary "2"].reverse ++ polledElement :: [] ∧
      ((b.tagCases 0 [.caseNe otherwise 2]).flatMap (·.2)).map (Piece.plainText? ·.pieces) =
        [some "if poll()[0] != 1 && poll()[0] != 2 \x7b goto otherwise \x7d"] ∧
      MarksLines 0 pollCall.pieces 2
        (switchLines "_gop_tag0"
          (polledElement.marked [] 0 [.text "[", .text "0", .text "]"])
          [⟨1, otherwise, [.primary "1", .primary "2"]⟩])
        ((b.tagCases 0 [.caseNe otherwise 2]).flatMap (·.2)) := by
  have hrun : (Backend.run ({ id := 0, registry := {} } : Builder)
      [.callFunc poll 0, .index 0, .push (.integer .int 1 (by decide)),
        .push (.integer .int 2 (by decide))]).toOption.map
      (fun b => (b.stack, (b.tagCases 0 [.caseNe otherwise 2]).flatMap (·.2))) =
      some ([.primary "2", .primary "1", polledElement],
        [caseLine polledElement ⟨1, otherwise, [.primary "1", .primary "2"]⟩]) := by
    decide +kernel
  obtain ⟨b, hb, hout⟩ := exists_ok_of_toOption hrun
  obtain ⟨hstack, hlines⟩ := Prod.mk.inj hout
  refine ⟨b, hb, hstack, ?_, ?_⟩
  · rw [hlines]
    decide +kernel
  · rw [hlines]
    exact ⟨rfl, rfl⟩

end Polling

end Lowering.Source
