import Lowering.Proofs.Go.Literal
import Lowering.Proofs.Go.Token
import Lowering.Ty

/-!
# The grammar of Go types

Which type some tokens form, rule by rule as the grammar of Go gives it: parentheses around a type,
names of parameters, one or several to a type, and a separator in front of a closing mark are all
allowed. What `Ty` has no place for, such as the direction of a channel or a field without a name,
forms no type here.

The grammar does not say where a type ends: `func() int` begins with the type `func()`. What follows
a type inside another one does: it is a separator or a closing mark (`Closed`). `ReadsType` says of
some tokens that they form a type and that, with such a mark behind them, no other type can be read
there. It is put together type by type, so tokens for which it holds are read in one way at every
depth.
-/

namespace Lowering.Go

/-! ## The grammar -/

def keywords : List String := reserved.erase "_"

/-- Names of fields and parameters. The blank is one. -/
def isIdentifier (s : String) : Bool := isWord s && !keywords.contains s

/-- The types with a name of their own. -/
def predeclared : List (String × Ty) :=
  (Kind.all.filter fun k => k.isBasic && k != .unsafePointer).map (fun k => (k.name, .basic k)) ++
    [("byte", .basic (.integer .uint8)), ("rune", .basic (.integer .int32)), ("any", .interface)]

/-- Names with commas between them. -/
inductive IsNames : List String → List String → Prop
  | one {x : String} (hx : isIdentifier x = true) : IsNames [x] [x]
  | cons {x : String} {ts xs : List String} (hx : isIdentifier x = true) (h : IsNames ts xs) :
      IsNames (x :: "," :: ts) (x :: xs)

/-- The names in front of the type of `count` parameters. Without names it is the type of one. -/
def IsNaming (named : Bool) (ts : List String) (count : Nat) : Prop :=
  if named then ∃ xs, IsNames ts xs ∧ xs.length = count else ts = [] ∧ count = 1

mutual

/-- The tokens form the type. -/
inductive IsType : List String → Ty → Prop
  | name {s : String} {t : Ty} (h : predeclared.lookup s = some t) : IsType [s] t
  | unsafePointer : IsType ["unsafe", ".", "Pointer"] (.basic .unsafePointer)
  | paren {ts : List String} {t : Ty} (h : IsType ts t) : IsType ("(" :: (ts ++ [")"])) t
  | array {s : String} {n : Nat} {ts : List String} {t : Ty}
      (hn : Literal.readNat? s.toList = some n) (h : IsType ts t) :
      IsType ("[" :: s :: "]" :: ts) (.array n t)
  | slice {ts : List String} {t : Ty} (h : IsType ts t) : IsType ("[" :: "]" :: ts) (.slice t)
  | map {ks ts : List String} {k t : Ty} (hk : IsType ks k) (h : IsType ts t) :
      IsType ("map" :: "[" :: (ks ++ "]" :: ts)) (.map k t)
  | ptr {ts : List String} {t : Ty} (h : IsType ts t) : IsType ("*" :: ts) (.ptr t)
  | chan {ts : List String} {t : Ty} (h : IsType ts t) : IsType ("chan" :: ts) (.chan t)
  | func {ps rs : List String} {params results : List Ty} {variadic : Bool}
      (hp : IsParams ps params variadic) (hr : IsResult rs results) :
      IsType ("func" :: (ps ++ rs)) (.func params results variadic)
  | struct {ts : List String} {fields : List (String × Ty)} (h : IsFields ts fields) :
      IsType ("struct" :: "\x7b" :: (ts ++ ["\x7d"])) (.struct fields)
  | interface : IsType ["interface", "\x7b", "\x7d"] .interface

/-- The parameters of a function, in parentheses. All of them have names, or none has. -/
inductive IsParams : List String → List Ty → Bool → Prop
  | none : IsParams ["(", ")"] [] false
  | list {named : Bool} {ts comma : List String} {params : List Ty} {variadic : Bool}
      (h : IsParamList named ts params variadic) (hc : comma = [] ∨ comma = [","]) :
      IsParams ("(" :: (ts ++ comma ++ [")"])) params variadic

inductive IsParamList : Bool → List String → List Ty → Bool → Prop
  | last {named : Bool} {ns ts : List String} {count : Nat} {t : Ty}
      (hn : IsNaming named ns count) (h : IsType ts t) :
      IsParamList named (ns ++ ts) (List.replicate count t) false
  | variadic {named : Bool} {ns ts : List String} {t : Ty}
      (hn : IsNaming named ns 1) (h : IsType ts t) :
      IsParamList named (ns ++ "..." :: ts) [.slice t] true
  | cons {named : Bool} {ns ts us : List String} {count : Nat} {t : Ty} {params : List Ty}
      {variadic : Bool} (hn : IsNaming named ns count) (h : IsType ts t)
      (hrest : IsParamList named us params variadic) :
      IsParamList named (ns ++ ts ++ "," :: us) (List.replicate count t ++ params) variadic

/-- The results of a function: nothing, a type, or parameters of which none is variadic. -/
inductive IsResult : List String → List Ty → Prop
  | none : IsResult [] []
  | one {ts : List String} {t : Ty} (h : IsType ts t) : IsResult ts [t]
  | list {ts : List String} {results : List Ty} (h : IsParams ts results false) :
      IsResult ts results

/-- The fields of a struct. The last of them need not be ended. -/
inductive IsFields : List String → List (String × Ty) → Prop
  | none : IsFields [] []
  | last {ns xs ts : List String} {t : Ty} (hn : IsNames ns xs) (h : IsType ts t) :
      IsFields (ns ++ ts) (xs.map (·, t))
  | cons {ns xs ts us : List String} {t : Ty} {fields : List (String × Ty)} (hn : IsNames ns xs)
      (h : IsType ts t) (hrest : IsFields us fields) :
      IsFields (ns ++ ts ++ ";" :: us) (xs.map (·, t) ++ fields)

end

/-! ## Where a type begins and ends -/

variable {ts us rest rest' ns xs comma : List String} {t u : Ty} {params ps results rs : List Ty}
  {fields fs : List (String × Ty)} {named variadic v : Bool} {count n : Nat} {s : String}

/-- Separators and closing marks. -/
def closing : List String := [",", ")", "]", ";", "\x7d"]

/-- Nothing follows that a type could go on with. -/
def Closed (rest : List String) : Prop := ∀ s ∈ rest.head?, s ∈ closing

theorem closed_cons (hs : s ∈ closing) : Closed (s :: rest) := by
  rintro _ ⟨⟩
  exact hs

/-- The first token is neither a closing mark nor the full stop of a name. -/
def Opens (ts : List String) : Prop := ∃ s ∈ ts.head?, s ∉ "." :: closing

theorem opens_cons : Opens (s :: rest) ↔ s ∉ "." :: closing := by simp [Opens]

theorem Opens.append (h : Opens ts) (rest : List String) : Opens (ts ++ rest) := by
  obtain ⟨s, hs, hmem⟩ := h
  exact ⟨s, by simp [List.head?_append, Option.mem_def.mp hs], hmem⟩

theorem Opens.not_closed (h : Opens ts) : ¬ Closed ts := by
  obtain ⟨s, hs, hmem⟩ := h
  exact fun hclosed => hmem (List.mem_cons_of_mem _ (hclosed s hs))

/-- Tokens that begin a type are not what may follow one. -/
theorem Opens.append_ne (h : Opens ts) (hus : Closed us) : ts ++ rest ≠ us := by
  rintro rfl
  exact (h.append rest).not_closed hus

theorem mem_predeclared (h : predeclared.lookup s = some t) : s ∈ predeclared.map (·.1) := by
  obtain ⟨l₁, l₂, heq, -⟩ := List.lookup_eq_some_iff.mp h
  simp [heq]

/-- What types without a name of their own begin with. -/
def marks : List String :=
  ["unsafe", "(", "[", "map", "*", "chan", "func", "struct", "interface"]

/-- Predeclared names are told from other types and from what ends a type. -/
theorem not_mem_of_predeclared (h : predeclared.lookup s = some t) :
    s ∉ marks ∧ s ∉ "..." :: "." :: closing := by
  have hall : (predeclared.map (·.1)).all
      (fun s => !marks.contains s && !("..." :: "." :: closing).contains s) = true := by decide
  simpa using List.all_eq_true.mp hall s (mem_predeclared h)

/-- A predeclared name is told from the other types by its first token. -/
theorem not_mem_marks_of_append {m : String} {tl : List String}
    (h : predeclared.lookup s = some t) (heq : [s] ++ rest = m :: tl) : m ∉ marks :=
  (List.cons.inj heq).1 ▸ (not_mem_of_predeclared h).1

/-- By induction on the type: the tokens that end a type begin none. -/
theorem IsType.exists_cons (h : IsType ts t) :
    ∃ s tl, ts = s :: tl ∧ s ∉ "..." :: "." :: closing := by
  cases h with
  | name h => exact ⟨_, _, rfl, (not_mem_of_predeclared h).2⟩
  | _ => exact ⟨_, _, rfl, by decide⟩

theorem IsType.opens (h : IsType ts t) : Opens ts := by
  obtain ⟨s, tl, rfl, hs⟩ := h.exists_cons
  exact opens_cons.mpr (List.not_mem_of_not_mem_cons hs)

/-- The dots of a variadic parameter belong to no type. -/
theorem IsType.append_ne_ellipsis (h : IsType ts t) : ts ++ rest' ≠ "..." :: rest := by
  obtain ⟨s, tl, rfl, hs⟩ := h.exists_cons
  intro heq
  exact hs ((List.cons.inj heq).1 ▸ List.mem_cons_self)

/-! ## Types that are read in one way -/

/-- The tokens form the type, and where a type is read that begins with them and has a closing mark
behind it, as they have, it is the same tokens and the same type. -/
structure ReadsType (ts : List String) (t : Ty) : Prop where
  isType : IsType ts t
  /-- An identifier that begins them is not followed by a type, as the name of a parameter is. -/
  alone : ∀ x tl, ts = x :: tl → isIdentifier x = true → tl = [] ∨ tl.head? = some "."
  bare : ts.head? ≠ some "("
  unique : ∀ {us u rest rest'}, IsType us u → us ++ rest' = ts ++ rest → Closed rest →
    Closed rest' → us = ts ∧ u = t

/-- Where one type can be read and both end at a closing token, there is no other way to split the
tokens. -/
theorem ReadsType.cancel (h : ReadsType ts t) (hu : IsType us u) (heq : us ++ rest' = ts ++ rest)
    (hrest : Closed rest) (hrest' : Closed rest') : us = ts ∧ u = t ∧ rest' = rest := by
  obtain ⟨rfl, rfl⟩ := h.unique hu heq hrest hrest'
  exact ⟨rfl, rfl, List.append_cancel_left heq⟩

/-- The same with the closing tokens written out. -/
theorem ReadsType.cancel_cons {s' : String} (h : ReadsType ts t) (hu : IsType us u)
    (heq : us ++ s' :: rest' = ts ++ s :: rest) (hs : s ∈ closing) (hs' : s' ∈ closing) :
    us = ts ∧ u = t ∧ s' = s ∧ rest' = rest := by
  obtain ⟨rfl, rfl, htail⟩ := h.cancel hu heq (closed_cons hs) (closed_cons hs')
  exact ⟨rfl, rfl, List.cons.inj htail⟩

/-- What begins with a mark of its own is not the name of anything. -/
theorem readsType_of_mark {m : String} {tl : List String} (hm : isIdentifier m = false)
    (hparen : m ≠ "(") (htype : IsType (m :: tl) t)
    (hunique : ∀ {us u rest rest'}, IsType us u → us ++ rest' = m :: tl ++ rest → Closed rest →
      Closed rest' → us = m :: tl ∧ u = t) : ReadsType (m :: tl) t where
  isType := htype
  alone x tl' heq hx := by
    obtain ⟨rfl, -⟩ := List.cons.inj heq
    exact absurd hx (Bool.eq_false_iff.mp hm)
  bare h := hparen (Option.some.inj h)
  unique := hunique

/-- A predeclared name is its type. It could also begin nothing else, since the other types begin
with marks. -/
theorem readsType_name (h : predeclared.lookup s = some t) : ReadsType [s] t where
  isType := .name h
  alone x tl heq _ := .inl (List.cons.inj heq).2.symm
  bare heq := (not_mem_of_predeclared h).1 (Option.some.inj heq ▸ by decide)
  unique hu heq _ _ := by
    have hmarks := (not_mem_of_predeclared h).1
    cases hu with
    | name h' =>
      obtain ⟨rfl, -⟩ := List.cons.inj heq
      exact ⟨rfl, Option.some.inj (h'.symm.trans h)⟩
    | _ =>
      obtain ⟨rfl, -⟩ := List.cons.inj heq
      exact absurd (by decide) hmarks

/-- The only name with a package in front that is known here. -/
theorem readsType_unsafePointer : ReadsType ["unsafe", ".", "Pointer"] (.basic .unsafePointer) where
  isType := .unsafePointer
  alone x tl heq _ := .inr (by rw [← (List.cons.inj heq).2]; rfl)
  bare := by decide
  unique hu heq _ _ := by
    cases hu with
    | name h => exact absurd (by decide) (not_mem_marks_of_append h heq)
    | unsafePointer => exact ⟨rfl, rfl⟩
    | _ => exact absurd (List.cons.inj heq).1 (by decide)

theorem readsType_interface : ReadsType ["interface", "\x7b", "\x7d"] .interface := by
  refine readsType_of_mark (by decide) (by decide) .interface fun hu heq _ _ => ?_
  cases hu with
  | name h => exact absurd (by decide) (not_mem_marks_of_append h heq)
  | interface => exact ⟨rfl, rfl⟩
  | _ => exact absurd (List.cons.inj heq).1 (by decide)

/-! ### Types of one element -/

theorem ReadsType.ptr (h : ReadsType ts t) : ReadsType ("*" :: ts) (.ptr t) := by
  refine readsType_of_mark (by decide) (by decide) (.ptr h.isType) fun hu heq hrest hrest' => ?_
  cases hu with
  | name h => exact absurd (by decide) (not_mem_marks_of_append h heq)
  | ptr hu =>
    obtain ⟨rfl, rfl⟩ := h.unique hu (List.cons.inj heq).2 hrest hrest'
    exact ⟨rfl, rfl⟩
  | _ => exact absurd (List.cons.inj heq).1 (by decide)

theorem ReadsType.chan (h : ReadsType ts t) : ReadsType ("chan" :: ts) (.chan t) := by
  refine readsType_of_mark (by decide) (by decide) (.chan h.isType) fun hu heq hrest hrest' => ?_
  cases hu with
  | name h => exact absurd (by decide) (not_mem_marks_of_append h heq)
  | chan hu =>
    obtain ⟨rfl, rfl⟩ := h.unique hu (List.cons.inj heq).2 hrest hrest'
    exact ⟨rfl, rfl⟩
  | _ => exact absurd (List.cons.inj heq).1 (by decide)

/-- The length of an array is told from the end of a bracket. -/
theorem readNat?_bracket (n : Nat) : Literal.readNat? "]".toList ≠ some n := by
  rw [show Literal.readNat? "]".toList = none by decide]
  exact Option.some_ne_none n ∘ Eq.symm

theorem ReadsType.slice (h : ReadsType ts t) : ReadsType ("[" :: "]" :: ts) (.slice t) := by
  refine readsType_of_mark (by decide) (by decide) (.slice h.isType) fun hu heq hrest hrest' => ?_
  cases hu with
  | name h => exact absurd (by decide) (not_mem_marks_of_append h heq)
  | slice hu =>
    obtain ⟨rfl, rfl⟩ := h.unique hu (List.cons.inj (List.cons.inj heq).2).2 hrest hrest'
    exact ⟨rfl, rfl⟩
  | array hn _ =>
    obtain rfl := (List.cons.inj (List.cons.inj heq).2).1
    exact absurd hn (readNat?_bracket _)
  | _ => exact absurd (List.cons.inj heq).1 (by decide)

theorem ReadsType.array (h : ReadsType ts t) (hn : Literal.readNat? s.toList = some n) :
    ReadsType ("[" :: s :: "]" :: ts) (.array n t) := by
  refine readsType_of_mark (by decide) (by decide) (.array hn h.isType)
    fun hu heq hrest hrest' => ?_
  cases hu with
  | name h => exact absurd (by decide) (not_mem_marks_of_append h heq)
  | slice _ =>
    obtain rfl := (List.cons.inj (List.cons.inj heq).2).1
    exact absurd hn (readNat?_bracket _)
  | array hn' hu =>
    obtain ⟨rfl, htail⟩ := List.cons.inj (List.cons.inj heq).2
    obtain ⟨rfl, rfl⟩ := h.unique hu (List.cons.inj htail).2 hrest hrest'
    obtain rfl := Option.some.inj (hn'.symm.trans hn)
    exact ⟨rfl, rfl⟩
  | _ => exact absurd (List.cons.inj heq).1 (by decide)

/-- The key ends at the bracket, and so cannot be read further. -/
theorem ReadsType.map {ks : List String} {k : Ty} (hk : ReadsType ks k) (h : ReadsType ts t) :
    ReadsType ("map" :: "[" :: (ks ++ "]" :: ts)) (.map k t) := by
  refine readsType_of_mark (by decide) (by decide) (.map hk.isType h.isType)
    fun hu heq hrest hrest' => ?_
  cases hu with
  | name h => exact absurd (by decide) (not_mem_marks_of_append h heq)
  | map hku hu =>
    have heq := (List.cons.inj (List.cons.inj heq).2).2
    simp only [List.append_eq, List.append_assoc, List.cons_append] at heq
    obtain ⟨rfl, rfl, -, heq⟩ := hk.cancel_cons hku heq (by decide) (by decide)
    obtain ⟨rfl, rfl⟩ := h.unique hu heq hrest hrest'
    exact ⟨rfl, rfl⟩
  | _ => exact absurd (List.cons.inj heq).1 (by decide)

/-! ### Parameters -/

/-- The tokens form parameters without names, in front of a closing parenthesis in one way only. -/
structure ReadsList (ts : List String) (params : List Ty) (variadic : Bool) : Prop where
  isParamList : IsParamList false ts params variadic
  /-- No names with a type behind them begin the tokens. -/
  unnamed : ∀ {ns xs us rest}, IsNames ns xs → ns ++ us = ts ++ ")" :: rest → ¬ Opens us
  unique : ∀ {us ps v comma rest rest'}, IsParamList false us ps v →
    comma = [] ∨ comma = [","] → us ++ (comma ++ ")" :: rest') = ts ++ ")" :: rest →
    us = ts ∧ ps = params ∧ v = variadic ∧ comma = []

/-- A list of parameters may end with a comma. -/
theorem closed_comma (hc : comma = [] ∨ comma = [","]) : Closed (comma ++ ")" :: rest) := by
  obtain rfl | rfl := hc <;> exact closed_cons (by decide)

/-- An empty list may not. -/
theorem eq_nil_of_comma (hc : comma = [] ∨ comma = [","])
    (heq : comma ++ ")" :: rest' = ")" :: rest) : comma = [] := by
  obtain rfl | rfl := hc
  · rfl
  · exact absurd (List.cons.inj heq).1 (by decide)

/-- Names in front of a type, where a type is written: behind the first of them there is a comma,
and the names go on behind that. -/
theorem ReadsType.exists_names (h : ReadsType ts t) (hn : IsNames ns xs)
    (heq : ns ++ us = ts ++ rest) (hrest : Closed rest) (hus : Opens us) :
    ∃ ns' xs', rest = "," :: (ns' ++ us) ∧ IsNames ns' xs' := by
  obtain ⟨y, hy, -⟩ := h.isType.opens
  obtain ⟨tl, rfl⟩ := List.head?_eq_some_iff.mp hy
  cases hn with
  | one hx =>
    obtain ⟨rfl, rfl⟩ := List.cons.inj heq
    obtain rfl | htl := h.alone _ _ rfl hx
    · exact absurd hrest hus.not_closed
    · obtain ⟨tl, rfl⟩ := List.head?_eq_some_iff.mp htl
      exact absurd (opens_cons.mp hus) (by decide)
  | cons hx hn =>
    obtain ⟨rfl, htail⟩ := List.cons.inj heq
    obtain rfl | htl := h.alone _ _ rfl hx
    · exact ⟨_, _, htail.symm, hn⟩
    · obtain ⟨tl, rfl⟩ := List.head?_eq_some_iff.mp htl
      exact absurd (List.cons.inj htail).1 (by decide)

theorem IsNames.opens (h : IsNames ns xs) : Opens ns := by
  have hmarks : ("." :: closing).all (fun s => !isIdentifier s) = true := by decide
  cases h with
  | one hx | cons hx _ =>
    refine opens_cons.mpr fun hs => ?_
    simpa [hx] using List.all_eq_true.mp hmarks _ hs

/-- Parameters begin with a type or an ellipsis, which may have names in front of it. -/
theorem IsParamList.exists_naming (h : IsParamList named ts params variadic) :
    ∃ ns count us, IsNaming named ns count ∧ Opens us ∧ ts = ns ++ us := by
  cases h with
  | last hn h => exact ⟨_, _, _, hn, h.opens, rfl⟩
  | variadic hn h => exact ⟨_, _, _, hn, opens_cons.mpr (by decide), rfl⟩
  | cons hn h _ => exact ⟨_, _, _, hn, h.opens.append _, List.append_assoc ..⟩

theorem IsParamList.opens (h : IsParamList named ts params variadic) : Opens ts := by
  obtain ⟨ns, count, us, hn, hus, rfl⟩ := h.exists_naming
  cases named with
  | false =>
    obtain ⟨rfl, -⟩ := hn
    exact hus
  | true =>
    obtain ⟨xs, hn, -⟩ := hn
    exact hn.opens.append us

/-- One parameter, which may not be confused with a name of one. -/
theorem ReadsType.last (h : ReadsType ts t) : ReadsList ts [t] false where
  isParamList := @IsParamList.last false [] ts 1 t ⟨rfl, rfl⟩ h.isType
  unnamed hn heq hus := by
    obtain ⟨_, _, hcomma, -⟩ := h.exists_names hn heq (closed_cons (by decide)) hus
    exact absurd (List.cons.inj hcomma).1 (by decide)
  unique hu hc heq := by
    cases hu with
    | last hn hu =>
      obtain ⟨rfl, rfl⟩ := hn
      obtain ⟨rfl, rfl, hrest⟩ := h.cancel hu heq (closed_cons (by decide)) (closed_comma hc)
      exact ⟨rfl, rfl, rfl, eq_nil_of_comma hc hrest⟩
    | variadic hn hu =>
      obtain ⟨rfl, -⟩ := hn
      exact absurd heq.symm h.isType.append_ne_ellipsis
    | cons hn hu _ =>
      obtain ⟨rfl, rfl⟩ := hn
      simp only [List.nil_append, List.append_assoc, List.cons_append] at heq
      obtain ⟨-, -, hmark, -⟩ := h.cancel_cons hu heq (by decide) (by decide)
      exact absurd hmark (by decide)

/-- The type of a variadic parameter is that of its elements. -/
theorem ReadsType.ellipsis (h : ReadsType ts t) : ReadsList ("..." :: ts) [.slice t] true where
  isParamList := @IsParamList.variadic false [] ts t ⟨rfl, rfl⟩ h.isType
  unnamed hn heq _ := by
    have hno : isIdentifier "..." = false := by decide
    cases hn with
    | one hx | cons hx _ =>
      obtain ⟨rfl, -⟩ := List.cons.inj heq
      exact absurd hx (Bool.eq_false_iff.mp hno)
  unique hu hc heq := by
    cases hu with
    | last hn hu =>
      obtain ⟨rfl, -⟩ := hn
      exact absurd heq hu.append_ne_ellipsis
    | variadic hn hu =>
      obtain ⟨rfl, -⟩ := hn
      obtain ⟨rfl, rfl, hrest⟩ :=
        h.cancel hu (List.cons.inj heq).2 (closed_cons (by decide)) (closed_comma hc)
      exact ⟨rfl, rfl, rfl, eq_nil_of_comma hc hrest⟩
    | cons hn hu _ =>
      obtain ⟨rfl, -⟩ := hn
      simp only [List.nil_append, List.append_assoc, List.cons_append] at heq
      exact absurd heq hu.append_ne_ellipsis

/-- The first of several parameters ends at the comma. -/
theorem ReadsType.cons (h : ReadsType ts t) (hlist : ReadsList us params variadic) :
    ReadsList (ts ++ "," :: us) (t :: params) variadic where
  isParamList := @IsParamList.cons false [] ts us 1 t params variadic ⟨rfl, rfl⟩ h.isType
    hlist.isParamList
  unnamed hn heq hus := by
    rw [List.append_assoc] at heq
    obtain ⟨_, _, hrest, hn'⟩ := h.exists_names hn heq (closed_cons (by decide)) hus
    exact hlist.unnamed hn' (List.cons.inj hrest).2.symm hus
  unique hu hc heq := by
    rw [List.append_assoc ts] at heq
    cases hu with
    | last hn hu =>
      obtain ⟨rfl, rfl⟩ := hn
      obtain ⟨-, -, hrest⟩ := h.cancel hu heq (closed_cons (by decide)) (closed_comma hc)
      -- The comma would have nothing behind it.
      obtain rfl | rfl := hc
      · exact absurd (List.cons.inj hrest).1 (by decide)
      · exact absurd (List.cons.inj hrest).2.symm
          (hlist.isParamList.opens.append_ne (closed_cons (by decide)))
    | variadic hn hu =>
      obtain ⟨rfl, -⟩ := hn
      exact absurd heq.symm h.isType.append_ne_ellipsis
    | cons hn hu hlist' =>
      obtain ⟨rfl, rfl⟩ := hn
      simp only [List.nil_append, List.append_assoc, List.cons_append] at heq
      obtain ⟨rfl, rfl, -, htail⟩ := h.cancel_cons hu heq (by decide) (by decide)
      obtain ⟨rfl, rfl, rfl, rfl⟩ := hlist.unique hlist' hc htail
      exact ⟨rfl, rfl, rfl, rfl⟩

/-- The tokens form the parameters of a function, in front of anything in one way only. -/
structure ReadsParams (ts : List String) (params : List Ty) (variadic : Bool) : Prop where
  isParams : IsParams ts params variadic
  unique : ∀ {us ps v rest rest'}, IsParams us ps v → us ++ rest' = ts ++ rest →
    us = ts ∧ ps = params ∧ v = variadic

theorem readsParams_nil : ReadsParams ["(", ")"] [] false where
  isParams := .none
  unique hu heq := by
    cases hu with
    | none => exact ⟨rfl, rfl, rfl⟩
    | list h hc =>
      have heq := (List.cons.inj heq).2
      simp only [List.append_eq, List.append_assoc] at heq
      exact absurd heq (h.opens.append_ne (closed_cons (by decide)))

/-- Parentheses end a list, so there is no other. -/
theorem ReadsList.enclosed (h : ReadsList ts params variadic) :
    ReadsParams ("(" :: (ts ++ [")"])) params variadic where
  isParams := by simpa using IsParams.list h.isParamList (.inl rfl)
  unique {us ps v rest rest'} hu heq := by
    cases hu with
    | none =>
      have heq := (List.cons.inj heq).2
      simp only [List.append_eq, List.append_assoc] at heq
      exact absurd heq.symm (h.isParamList.opens.append_ne (closed_cons (by decide)))
    | @list named us comma _ _ hu hc =>
      have heq : us ++ (comma ++ ")" :: rest') = ts ++ ")" :: rest := by
        simpa using (List.cons.inj heq).2
      cases named with
      | false =>
        obtain ⟨rfl, rfl, rfl, rfl⟩ := h.unique hu hc heq
        exact ⟨by simp, rfl, rfl⟩
      | true =>
        obtain ⟨ns, count, tail, ⟨xs, hn, -⟩, htail, rfl⟩ := hu.exists_naming
        rw [List.append_assoc] at heq
        exact absurd (htail.append _) (h.unnamed hn heq)

/-! ### Functions -/

/-- The tokens form the results of a function, in front of a closing mark in one way only. -/
structure ReadsResult (ts : List String) (results : List Ty) : Prop where
  isResult : IsResult ts results
  unique : ∀ {us rs rest rest'}, IsResult us rs → us ++ rest' = ts ++ rest → Closed rest →
    Closed rest' → us = ts ∧ rs = results

theorem IsParams.opens (h : IsParams ts params variadic) : Opens ts := by
  cases h <;> exact opens_cons.mpr (by decide)

theorem IsParams.head? (h : IsParams ts params variadic) : ts.head? = some "(" := by
  cases h <;> rfl

theorem readsResult_nil : ReadsResult [] [] where
  isResult := .none
  unique hu heq hrest _ := by
    cases hu with
    | none => exact ⟨rfl, rfl⟩
    | one h => exact absurd heq (h.opens.append_ne hrest)
    | list h => exact absurd heq (h.opens.append_ne hrest)

/-- One result stands without parentheses. -/
theorem ReadsType.result (h : ReadsType ts t) : ReadsResult ts [t] where
  isResult := .one h.isType
  unique hu heq hrest hrest' := by
    cases hu with
    | none => exact absurd heq.symm (h.isType.opens.append_ne hrest')
    | one hu =>
      obtain ⟨rfl, rfl⟩ := h.unique hu heq hrest hrest'
      exact ⟨rfl, rfl⟩
    | list hu =>
      obtain ⟨s, tl, rfl, -⟩ := h.isType.exists_cons
      obtain ⟨tl', rfl⟩ := List.head?_eq_some_iff.mp hu.head?
      exact absurd (congrArg some (List.cons.inj heq).1.symm) h.bare

/-- A type that begins with a parenthesis is a type in parentheses. -/
theorem IsType.exists_paren {tl : List String} (h : IsType ts t) (heq : ts ++ rest = "(" :: tl) :
    ∃ us, IsType us t ∧ ts = "(" :: (us ++ [")"]) := by
  cases h with
  | name h => exact absurd (by decide) (not_mem_marks_of_append h heq)
  | paren h => exact ⟨_, h, rfl⟩
  | _ => exact absurd (List.cons.inj heq).1 (by decide)

/-- Several results stand in parentheses. One result in parentheses would be a type in parentheses
as well. -/
theorem ReadsList.result (h : ReadsList ts results false) (hlength : results.length ≠ 1) :
    ReadsResult ("(" :: (ts ++ [")"])) results where
  isResult := .list h.enclosed.isParams
  unique {us rs rest rest'} hu heq hrest hrest' := by
    cases hu with
    | none => exact absurd heq.symm (h.enclosed.isParams.opens.append_ne hrest')
    | one hu =>
      -- A type in parentheses would be read as the only result.
      obtain ⟨us, htype, rfl⟩ := hu.exists_paren heq
      have hlist := IsParams.list (@IsParamList.last false [] us 1 _ ⟨rfl, rfl⟩ htype) (.inl rfl)
      obtain ⟨-, rfl, -⟩ := h.enclosed.unique hlist (by simpa using heq)
      exact absurd rfl hlength
    | list hu =>
      obtain ⟨rfl, rfl, -⟩ := h.enclosed.unique hu heq
      exact ⟨rfl, rfl⟩

/-- The results follow the parameters directly, so it has to be known where these end. -/
theorem ReadsParams.func {ps rs : List String} (hp : ReadsParams ps params variadic)
    (hr : ReadsResult rs results) :
    ReadsType ("func" :: (ps ++ rs)) (.func params results variadic) := by
  refine readsType_of_mark (by decide) (by decide) (.func hp.isParams hr.isResult)
    fun hu heq hrest hrest' => ?_
  cases hu with
  | name h => exact absurd (by decide) (not_mem_marks_of_append h heq)
  | func hpu hru =>
    have heq := (List.cons.inj heq).2
    simp only [List.append_eq, List.append_assoc] at heq
    obtain ⟨rfl, rfl, rfl⟩ := hp.unique hpu heq
    obtain ⟨rfl, rfl⟩ := hr.unique hru (List.append_cancel_left heq) hrest hrest'
    exact ⟨rfl, rfl⟩
  | _ => exact absurd (List.cons.inj heq).1 (by decide)

/-! ### Structs -/

/-- The tokens form the fields of a struct, in front of a closing brace in one way only. -/
structure ReadsFields (ts : List String) (fields : List (String × Ty)) : Prop where
  isFields : IsFields ts fields
  unique : ∀ {us fs rest rest'}, IsFields us fs → us ++ "\x7d" :: rest' = ts ++ "\x7d" :: rest →
    us = ts ∧ fs = fields

theorem readsFields_nil : ReadsFields [] [] where
  isFields := .none
  unique hu heq := by
    cases hu with
    | none => exact ⟨rfl, rfl⟩
    | last hn h =>
      rw [List.append_assoc] at heq
      exact absurd heq (hn.opens.append_ne (closed_cons (by decide)))
    | cons hn h _ =>
      simp only [List.append_assoc] at heq
      exact absurd heq (hn.opens.append_ne (closed_cons (by decide)))

/-- A field's name has a type behind it, so it is one name and not several. -/
theorem ReadsType.eq_name {x : String} (h : ReadsType ts t) (hn : IsNames ns xs)
    (heq : ns ++ us = x :: (ts ++ rest)) : ns = [x] ∧ xs = [x] ∧ us = ts ++ rest := by
  cases hn with
  | one hy =>
    obtain ⟨rfl, rfl⟩ := List.cons.inj heq
    exact ⟨rfl, rfl, rfl⟩
  | cons hy hn =>
    exact absurd (List.cons.inj heq).2.symm (h.isType.opens.append_ne (closed_cons (by decide)))

/-- A field is a name and a type. -/
theorem ReadsType.field {x : String} (h : ReadsType ts t) (hx : isIdentifier x = true) :
    ReadsFields (x :: ts) [(x, t)] where
  isFields := .last (.one hx) h.isType
  unique hu heq := by
    cases hu with
    | none => exact absurd heq.symm ((IsNames.one hx).opens.append_ne (closed_cons (by decide)))
    | last hn hu =>
      rw [List.append_assoc] at heq
      obtain ⟨rfl, rfl, heq⟩ := h.eq_name hn heq
      obtain ⟨rfl, rfl, -, -⟩ := h.cancel_cons hu heq (by decide) (by decide)
      exact ⟨rfl, rfl⟩
    | cons hn hu _ =>
      simp only [List.append_assoc] at heq
      obtain ⟨rfl, rfl, heq⟩ := h.eq_name hn heq
      obtain ⟨-, -, hmark, -⟩ := h.cancel_cons hu heq (by decide) (by decide)
      exact absurd hmark (by decide)

/-- The first of several fields ends at the semicolon. -/
theorem ReadsType.consField {x : String} (h : ReadsType ts t) (hx : isIdentifier x = true)
    (hfields : ReadsFields us fields) :
    ReadsFields (x :: (ts ++ ";" :: us)) ((x, t) :: fields) where
  isFields := .cons (.one hx) h.isType hfields.isFields
  unique hu heq := by
    cases hu with
    | none => exact absurd heq.symm ((IsNames.one hx).opens.append_ne (closed_cons (by decide)))
    | last hn hu =>
      simp only [List.append_assoc, List.cons_append] at heq
      obtain ⟨rfl, rfl, heq⟩ := h.eq_name hn heq
      obtain ⟨-, -, hmark, -⟩ := h.cancel_cons hu heq (by decide) (by decide)
      exact absurd hmark (by decide)
    | cons hn hu hfields' =>
      simp only [List.append_assoc, List.cons_append] at heq
      obtain ⟨rfl, rfl, heq⟩ := h.eq_name hn heq
      obtain ⟨rfl, rfl, -, htail⟩ := h.cancel_cons hu heq (by decide) (by decide)
      obtain ⟨rfl, rfl⟩ := hfields.unique hfields' htail
      exact ⟨rfl, rfl⟩

theorem ReadsFields.struct (h : ReadsFields ts fields) :
    ReadsType ("struct" :: "\x7b" :: (ts ++ ["\x7d"])) (.struct fields) := by
  refine readsType_of_mark (by decide) (by decide) (.struct h.isFields) fun hu heq _ _ => ?_
  cases hu with
  | name h => exact absurd (by decide) (not_mem_marks_of_append h heq)
  | struct hu =>
    have heq := (List.cons.inj (List.cons.inj heq).2).2
    simp only [List.append_eq, List.append_assoc, List.cons_append] at heq
    obtain ⟨rfl, rfl⟩ := h.unique hu heq
    exact ⟨rfl, rfl⟩
  | _ => exact absurd (List.cons.inj heq).1 (by decide)

end Lowering.Go
