import Lowering.Proofs.Go.Arithmetic

/-!
# Assignments in Go text

What a file of declarations and assignments does. All variables are of type `int` and are known by
their names. An assignment evaluates its right side in the state that the assignments before it have
left, then changes one variable. Declarations change nothing: a run may begin with any values. A
file that holds anything else has no run.

`exec` runs the assignments. A compiler refuses a file for two reasons. A constant may not be
representable, and then there is no run from any values (`isSome_foldlM_run`). Or the names are not
in order (`Checked`): a variable is declared once, before it is used, where the name of its type
means the type, and it has to be read at all.

The lemmas at the end read a file line by line (`statements?_line`).
-/

namespace Lowering.Go

/-! ## Statements -/

/-- What a line does. -/
inductive Statement
  /-- Part of the frame of a file, or an empty line. -/
  | frame
  | declare (s : String)
  | assign (target : String) (value : Expr Atom)
  deriving DecidableEq

namespace Statement

/-- Runs a statement. There is nothing if a constant in it is refused. -/
def run (bits : Nat) (env : Env) : Statement → Option Env
  | frame | declare _ => some env
  | assign s t => (value? bits env t).map (env.set s)

/-- The statement of a line. -/
def ofTokens? : List (Token Atom) → Option Statement
  | [] | [.symbol "\x7d"] => some frame
  | .symbol "package" :: _ | .symbol "func" :: _ => some frame
  | [.symbol "var", .operand (.name s), .operand (.name "int")] => some (declare s)
  | .operand (.name s) :: .symbol "=" :: ts => (parse ts).map (assign s)
  | _ => none

/-- No constant in a statement is refused. -/
def Representable (bits : Nat) : Statement → Prop
  | frame | declare _ => True
  | assign _ t => Go.Representable bits t

instance (bits : Nat) : DecidablePred (Representable bits)
  | frame | declare _ => inferInstanceAs (Decidable True)
  | assign _ t => inferInstanceAs (Decidable (Go.Representable bits t))

/-- The variables whose values a statement needs. -/
def reads : Statement → List String
  | frame | declare _ => []
  | assign _ t => names t

/-- The variables that are declared behind a statement, the newest first, if all names in it mean
what they should. A blank is no variable. -/
def scope? (declared : List String) : Statement → Option (List String)
  | frame => some declared
  | declare s =>
    if s = "_" ∨ s ∈ declared ∨ "int" ∈ declared then none else some (s :: declared)
  | assign s t => if s ∈ declared ∧ ∀ u ∈ names t, u ∈ declared then some declared else none

end Statement

/-- The end of a line. -/
def newline : Token Atom := .symbol "\n"

/-- The statements of a text. -/
def statements? (ts : List (Token Atom)) : Option (List Statement) :=
  (ts.splitOn newline).mapM Statement.ofTokens?

/-- Runs the text of a file. -/
def exec (bits : Nat) (text : String) (env : Env) : Option Env := do
  (← statements? (tokens text.toList)).foldlM (Statement.run bits) env

/-- Every name means what it should, and every variable is read somewhere. -/
structure InOrder (stmts : List Statement) : Prop where
  inScope : (stmts.foldlM Statement.scope? []).isSome = true
  used : ∀ s, .declare s ∈ stmts → ∃ st ∈ stmts, s ∈ st.reads

/-- The names in the text of a file are in order. -/
def Checked (text : String) : Prop :=
  ∃ stmts, statements? (tokens text.toList) = some stmts ∧ InOrder stmts

variable {bits : Nat} {stmts : List Statement} {st : Statement}

theorem foldlM_run_of_inert (h : ∀ st ∈ stmts, ∀ env, Statement.run bits env st = some env)
    (env : Env) : stmts.foldlM (Statement.run bits) env = some env := by
  induction stmts with
  | nil => rfl
  | cons st stmts ih =>
    obtain ⟨hst, hstmts⟩ := List.forall_mem_cons.mp h
    rw [List.foldlM_cons, hst]
    exact ih hstmts

/-- Whether statements run to their end is known before. -/
theorem isSome_foldlM_run (env : Env) :
    (stmts.foldlM (Statement.run bits) env).isSome = true ↔
      ∀ st ∈ stmts, st.Representable bits := by
  induction stmts generalizing env with
  | nil => simp
  | cons st stmts ih =>
    rw [List.foldlM_cons, List.forall_mem_cons]
    cases st with
    | frame => simpa [Statement.run, Statement.Representable] using ih env
    | declare s => simpa [Statement.run, Statement.Representable] using ih env
    | assign s t =>
      rw [Statement.Representable, ← isSome_value? env, Statement.run]
      cases value? bits env t with
      | none => simp
      | some z => simpa using ih (env.set s z)

/-! ## Reading line by line -/

variable {cs front rest : List Char} {s : String} {ts : List (Token Atom)}

/-- On a line of its own the text is the statement. -/
def IsLine (cs : List Char) (st : Statement) : Prop :=
  ∃ ts, Lexes Ends cs ts ∧ newline ∉ ts ∧ Statement.ofTokens? ts = some st

/-- A line in front of a text is a statement in front of the others. -/
theorem statements?_line (h : IsLine cs st) (hrest : statements? (tokens rest) = some stmts) :
    statements? (tokens (cs ++ '\n' :: rest)) = some (st :: stmts) := by
  obtain ⟨ts, hread, hline, hst⟩ := h
  have hread : tokens (cs ++ '\n' :: rest) = ts ++ newline :: tokens rest := by
    have hnewline : tokens ('\n' :: rest) = newline :: tokens rest :=
      lexes_solitary (s := "\n") (by decide) rest trivial
    rw [hread _ (ends_cons (by decide) rest), hnewline]
  have hsplit : (ts ++ newline :: tokens rest).splitOn newline =
      ts :: (tokens rest).splitOn newline :=
    List.splitOn_append_cons_self_of_not_mem hline _
  rw [statements?] at hrest ⊢
  simp [hread, hsplit, hst, hrest]

/-- Indentation makes no difference. -/
theorem IsLine.indent (h : IsLine cs st) (hblank : ∀ c ∈ front, isBlank c = true) :
    IsLine (front ++ cs) st := by
  obtain ⟨ts, hread, hline, hst⟩ := h
  refine ⟨ts, ?_, hline, hst⟩
  induction front with
  | nil => exact hread
  | cons c front ih =>
    obtain ⟨hc, hblank⟩ := List.forall_mem_cons.mp hblank
    exact (lexes_blank hc).prepend (ih hblank)

/-- A line that begins with a reserved word. -/
theorem isLine_word (hs : isWord s = true) (hof : Token.ofWord s = .symbol s)
    (hne : newline ≠ .symbol s) (h : Lexes Ends cs ts) (hline : newline ∉ ts)
    (hst : Statement.ofTokens? (.symbol s :: ts) = some st) :
    IsLine ((s ++ " ").toList ++ cs) st := by
  refine ⟨.symbol s :: ts, ?_, by simp [hne, hline], hst⟩
  have hspace : Lexes Anything [' '] [] := lexes_blank rfl
  have hread := ((lexes_word hs).append hspace fun rest _ => ends_cons rfl rest).prepend h
  simpa [hof] using hread

/-- The package clause and the header of a function. -/
theorem isLine_frame (hs : s ∈ ["package", "func"]) (h : Lexes Ends cs ts) (hline : newline ∉ ts) :
    IsLine ((s ++ " ").toList ++ cs) .frame := by
  simp only [List.mem_cons, List.not_mem_nil, or_false] at hs
  rcases hs with rfl | rfl
  · exact isLine_word (by decide) (by decide) (by decide) h hline rfl
  · exact isLine_word (by decide) (by decide) (by decide) h hline rfl

/-- The declaration of a variable. -/
theorem isLine_declare (hs : isName s = true) :
    IsLine ("var " ++ s ++ " int").toList (.declare s) := by
  have hspace : Lexes Anything [' '] [] := lexes_blank rfl
  have hint : Lexes Ends "int".toList [.operand (.name "int")] := lexes_name (by decide)
  have hread := (lexes_name hs).append (hspace.prepend hint) fun rest _ => ends_cons rfl _
  have hline : newline ∉ [Token.operand (.name s)] ++ ([] ++ [.operand (.name "int")]) := by
    simp [newline]
  have hvar := isLine_word (s := "var") (by decide) (by decide) (by decide) hread hline rfl
  simpa using hvar

/-- An expression stands on one line. -/
theorem newline_not_mem_of_derives {p : Nat} {t : Expr Atom} (h : Derives p t ts) :
    newline ∉ ts := by
  induction h with
  | operand a => simp [newline]
  | paren _ ih => simpa [newline] using ih
  | index _ _ ihx ihi => simpa [newline] using ⟨ihx, ihi⟩
  | @unary s op x xs hs _ ih =>
    have hs : s ≠ "\n" := fun h => by simp [h, unary?] at hs
    simpa [newline, hs.symm] using ih
  | @binary s op x y xs ys hs _ _ ihx ihy =>
    have hs : s ≠ "\n" := fun h => by simp [h, binary?] at hs
    simpa [newline, hs.symm] using ⟨ihx, ihy⟩
  | lift _ ih => exact ih

/-- An assignment. -/
theorem isLine_assign {t : Expr Atom} (hs : isName s = true) (h : Lexes Ends cs ts)
    (ht : Derives 1 t ts) : IsLine ((s ++ " = ").toList ++ cs) (.assign s t) := by
  refine ⟨.operand (.name s) :: .symbol "=" :: ts, ?_, ?_, ?_⟩
  · have hequals : Lexes Anything [' ', '=', ' '] [.symbol "="] :=
      lexes_spaced (s := "=") (by decide)
    have hread := ((lexes_name hs).append hequals fun rest _ => ends_cons rfl _).prepend h
    simpa using hread
  · simpa [newline] using newline_not_mem_of_derives ht
  · simp [Statement.ofTokens?, parse_of_derives ht]

end Lowering.Go
