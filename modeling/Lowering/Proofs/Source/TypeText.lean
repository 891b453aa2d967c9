import Lowering.Proofs.Go.Types
import Lowering.Proofs.Source.Acceptance
import Lowering.Proofs.Source.Literals
import Lowering.Proofs.Source.Packages

/-!
# Types in source text are read back

The text of a type is written with few blanks, no parentheses around types and no names of
parameters. It is split into the tokens that were meant, because words are only followed by marks
and blanks and the marks go together with nothing that follows them. The tokens are read in one way,
at every depth. So the text stands for the type that it was written for and for no other
(`denotes_iff_of_typeText`).

The types are those without a name in them, since a name says nothing of what it stands for.
-/

namespace Lowering.Source

open Go Go.Lexical

/-- Types that are given by their structure alone: nothing in them has a name, a variadic function
collects its last arguments in a slice, and fields are called by identifiers. -/
inductive Structural : Ty → Prop
  | basic {k : Kind} (hk : k.isBasic = true) : Structural (.basic k)
  | array {n : Nat} {t : Ty} (h : Structural t) : Structural (.array n t)
  | slice {t : Ty} (h : Structural t) : Structural (.slice t)
  | map {k t : Ty} (hk : Structural k) (h : Structural t) : Structural (.map k t)
  | ptr {t : Ty} (h : Structural t) : Structural (.ptr t)
  | chan {t : Ty} (h : Structural t) : Structural (.chan t)
  | func {params results : List Ty} {variadic : Bool} (hp : ∀ t ∈ params, Structural t)
      (hr : ∀ t ∈ results, Structural t)
      (hv : variadic = true → ∃ t, params.getLast? = some (.slice t)) :
      Structural (.func params results variadic)
  | interface : Structural .interface
  | struct {fields : List (String × Ty)} (hn : ∀ f ∈ fields, isIdentifier f.1 = true)
      (h : ∀ f ∈ fields, Structural f.2) : Structural (.struct fields)

/-- The text is split into tokens that form the type. -/
def Denotes (text : String) (t : Ty) : Prop := ∃ ts, Splits text.toList ts ∧ IsType ts t

/-! ## Spelled parts as tokens -/

/-- The aliases of a file that refers to no other package. -/
def unsafeOnly : Imports := ⟨[("unsafe", "unsafe")]⟩

theorem TypePart.render_append {m : Imports} (ps qs : List TypePart) :
    render m (ps ++ qs) = render m ps ++ render m qs := by
  simp [render]

/-- A type that needs no package but `unsafe` has the same text in every file. -/
theorem fst_resolve {parts : List TypePart} (h : TypePart.Within (· = "unsafe") parts) :
    (Imports.resolve {} parts).1 = TypePart.render unsafeOnly parts := by
  rw [Imports.resolve]
  cases hpaths : TypePart.packages parts with
  | nil => exact TypePart.render_congr (by simp [hpaths])
  | cons p paths =>
    rw [TypePart.Within, hpaths] at h
    obtain ⟨rfl, hrest⟩ := List.forall_mem_cons.mp h
    have hfresh : Imports.freshAlias {} "unsafe" = "unsafe" := by decide +kernel
    have hadd : Imports.add {} "unsafe" = unsafeOnly :=
      congrArg (fun name => Imports.mk [("unsafe", name)]) hfresh
    have hsame : paths.foldl Imports.add unsafeOnly = unsafeOnly :=
      Imports.foldl_add_of_lookup fun p hp => ⟨"unsafe", by rw [hrest p hp]; rfl⟩
    rw [List.foldl_cons, hadd, hsame]

section

variable {F G : List Char → Prop} {parts ps qs : List TypePart} {ts us : List String} {s : String}
  {t u : Ty}

/-- The parts refer to one package at most. In front of any text that meets `F`, their text is
split into the tokens. -/
structure Lexed (F : List Char → Prop) (parts : List TypePart) (ts : List String) : Prop where
  packages : TypePart.Within (· = "unsafe") parts
  apart : Apart F (TypePart.render unsafeOnly parts).toList ts True

theorem lexed_text (h : Apart F s.toList ts True) : Lexed F [.text s] ts where
  packages := TypePart.within_text.mpr TypePart.within_nil
  apart := by simpa [TypePart.render] using h

/-- Parts are read one after the other if the first can be followed by the second. -/
theorem Lexed.append (hp : Lexed F ps ts) (hq : Lexed G qs us)
    (h : ∀ rest, G rest → F ((TypePart.render unsafeOnly qs).toList ++ rest)) :
    Lexed G (ps ++ qs) (ts ++ us) where
  packages := TypePart.within_append.mpr ⟨hp.packages, hq.packages⟩
  apart := by
    rw [TypePart.render_append, String.toList_append]
    exact (hp.apart.append hq.apart h).congr (and_self_iff)

/-- A letter, or one of the marks of pointers and lists. -/
def startsType (d : Char) : Bool := decide (sortOf d = .letter) || d == '[' || d == '*'

def BeginsType (parts : List TypePart) : Prop :=
  ∃ d ∈ (TypePart.render unsafeOnly parts).toList.head?, startsType d = true

theorem beginsType_text (hs : s.toList.head?.any startsType = true) (parts : List TypePart) :
    BeginsType (.text s :: parts) := by
  obtain ⟨d, hd, hsort⟩ := (Option.any_eq_true _ _).mp hs
  refine ⟨d, ?_, hsort⟩
  rw [TypePart.render_text, String.toList_append]
  exact List.mem_head?_append_of_mem_head? hd

/-- The text of the parts is split into tokens that are read as the type in one way. -/
structure SpelledAs (parts : List TypePart) (ts : List String) (t : Ty) : Prop where
  lexed : Lexed Lexical.Bounded parts ts
  reads : ReadsType ts t
  begins : BeginsType parts

/-! ### Fixed texts -/

/-- Two texts in one part. -/
theorem apart_join {v text : String} (htext : s ++ v = text) (hs : Apart F s.toList ts True)
    (hv : Apart G v.toList us True) (h : ∀ rest, G rest → F (v.toList ++ rest)) :
    Apart G text.toList (ts ++ us) True := by
  rw [← htext, String.toList_append]
  exact (hs.append hv h).congr and_self_iff

/-- A delimiter may follow any type. -/
theorem bounded_delimiter {v : String} (hv : v ∈ delimiters) (rest : List Char) :
    Lexical.Bounded (v.toList ++ rest) := by
  have hall : delimiters.all (fun v => v.toList.head?.any fun c =>
      !isWordChar c && !isNumberChar c) = true := by decide
  obtain ⟨c, hc, h⟩ := Option.any_eq_true _ _ |>.mp (List.all_eq_true.mp hall v hv)
  intro d hd
  obtain rfl := Option.mem_unique hd (List.mem_head?_append_of_mem_head? hc)
  simpa using h

/-- A word with a mark directly behind it. -/
theorem apart_word_delimiter {v text : String} (htext : s ++ v = text) (hs : isWord s = true)
    (hv : v ∈ delimiters) : Apart F text.toList [s, v] True :=
  apart_join htext (apart_word hs) (apart_delimiter hv) fun rest _ => bounded_delimiter hv rest

/-- A word with a blank behind it. -/
theorem apart_word_space {text : String} (htext : s ++ " " = text) (hs : isWord s = true) :
    Apart Anything text.toList [s] True :=
  apart_join htext (apart_word hs) (apart_space rfl) fun _ _ => bounded_cons (by decide)

/-- A mark with a blank behind it. -/
theorem apart_delimiter_space {text : String} (htext : s ++ " " = text) (hs : s ∈ delimiters) :
    Apart Anything text.toList [s] True :=
  apart_join (F := Anything) htext (apart_delimiter hs) (apart_space rfl) fun _ _ => trivial

/-- A mark with a blank in front of it. -/
theorem apart_space_delimiter {text : String} (htext : " " ++ s = text) (hs : s ∈ delimiters) :
    Apart F text.toList [s] True :=
  apart_join (F := Anything) (s := " ") (v := s) htext (apart_space rfl) (apart_delimiter hs)
    fun _ _ => trivial

/-- Nothing but the end of the text behind a mark matters to what stands in front of it. -/
theorem Lexed.append_delimiter {v : String} (h : Lexed Lexical.Bounded ps ts)
    (hv : v ∈ delimiters) : Lexed F (ps ++ [.text v]) (ts ++ [v]) :=
  h.append (lexed_text (apart_delimiter hv)) fun rest _ => by
    rw [TypePart.render_text]
    simpa [TypePart.render] using bounded_delimiter hv rest

/-- A text that is complete by itself can be followed by anything. -/
theorem Lexed.cons (hs : Apart Anything s.toList ts True) (h : Lexed F ps us) :
    Lexed F (.text s :: ps) (ts ++ us) :=
  (lexed_text hs).append h fun _ _ => trivial

/-! ## Types -/

/-- An asterisk is a token of its own in front of a type. In front of an equals sign it would not
be. -/
theorem BeginsType.stops (h : BeginsType parts) (rest : List Char) :
    ∀ d ∈ ((TypePart.render unsafeOnly parts).toList ++ rest).head?, Stops "*" d := by
  obtain ⟨c, hc, hsort⟩ := h
  intro d hd
  obtain rfl := Option.mem_unique hd (List.mem_head?_append_of_mem_head? hc)
  simp only [startsType, Bool.or_eq_true, decide_eq_true_eq, beq_iff_eq] at hsort
  obtain (hletter | rfl) | rfl := hsort
  · exact stops_of_sortOf (by simp [hletter])
  · decide +kernel
  · decide +kernel

/-- The types that have a name. -/
theorem spelledAs_basic {k : Kind} (hk : k.isBasic = true) (hne : k ≠ .unsafePointer) :
    SpelledAs [.text k.name] [k.name] (.basic k) := by
  have hmem : k ∈ Kind.all := List.mem_of_getElem? (Kind.ofRank?_rank k)
  have hall : ∀ k ∈ Kind.all, k.isBasic = true → k ≠ .unsafePointer →
      isWord k.name = true ∧ predeclared.lookup k.name = some (.basic k) ∧
        k.name.toList.head?.any startsType = true := by
    decide +kernel
  obtain ⟨hword, hlookup, hbegins⟩ := hall k hmem hk hne
  exact ⟨lexed_text (apart_word hword), readsType_name hlookup, beginsType_text hbegins []⟩

/-- The one basic type that belongs to a package. -/
theorem spelledAs_unsafePointer :
    SpelledAs [.package "unsafe", .text ".Pointer"] ["unsafe", ".", "Pointer"]
      (.basic .unsafePointer) where
  lexed := by
    refine ⟨TypePart.within_package.mpr ⟨rfl, TypePart.within_nil⟩, ?_⟩
    have hpoint : Apart Lexical.Bounded ".Pointer".toList [".", "Pointer"] True :=
      (apart_point (s := "Pointer") (by decide)).mono
        fun rest hrest d hd => (hrest d hd).1
    have hword := apart_word_of_ends (s := "unsafe") (by decide)
    exact apart_join (by decide +kernel) hword hpoint fun rest _ => ends_cons (by decide) _
  reads := readsType_unsafePointer
  begins := ⟨'u', by decide, by decide⟩

theorem spelledAs_interface :
    SpelledAs [.text "interface\x7b\x7d"] ["interface", "\x7b", "\x7d"] .interface where
  lexed := by
    have hopen : Apart Anything "interface\x7b".toList ["interface", "\x7b"] True :=
      apart_word_delimiter (by decide) (by decide) (by decide)
    have hclose := apart_delimiter (F := Lexical.Bounded) (s := "\x7d") (by decide)
    exact lexed_text (apart_join (by decide) hopen hclose fun _ _ => trivial)
  reads := readsType_interface
  begins := beginsType_text (by decide) []

theorem SpelledAs.ptr (h : SpelledAs parts ts t) :
    SpelledAs (.text "*" :: parts) ("*" :: ts) (.ptr t) where
  lexed := (lexed_text (apart_operator (s := "*") (by decide) (by decide))).append h.lexed
    fun rest _ => h.begins.stops rest
  reads := h.reads.ptr
  begins := beginsType_text (by decide) _

/-- The blank keeps the keyword apart from what follows. -/
theorem SpelledAs.chan (h : SpelledAs parts ts t) :
    SpelledAs (.text "chan " :: parts) ("chan" :: ts) (.chan t) where
  lexed := .cons (apart_word_space (s := "chan") (by decide) (by decide)) h.lexed
  reads := h.reads.chan
  begins := beginsType_text (by decide) _

theorem SpelledAs.slice (h : SpelledAs parts ts t) :
    SpelledAs (.text "[]" :: parts) ("[" :: "]" :: ts) (.slice t) where
  lexed := by
    have hopen := apart_delimiter (F := Anything) (s := "[") (by decide)
    have hclose := apart_delimiter (F := Anything) (s := "]") (by decide)
    exact .cons (apart_join (by decide) hopen hclose fun _ _ => trivial) h.lexed
  reads := h.reads.slice
  begins := beginsType_text (by decide) _

/-- The length is written in decimal. -/
theorem SpelledAs.array (h : SpelledAs parts ts t) (n : Nat) :
    SpelledAs (.text ("[" ++ toString n ++ "]") :: parts) ("[" :: toString n :: "]" :: ts)
      (.array n t) where
  lexed := by
    have hnumber : Apart Lexical.Bounded (toString n).toList [toString n] True :=
      toList_toString n ▸ apart_number n
    have hopen : Apart Lexical.Bounded ("[" ++ toString n).toList ["[", toString n] True :=
      apart_join (F := Anything) rfl (apart_delimiter (by decide)) hnumber fun _ _ => trivial
    have hclose := apart_delimiter (F := Anything) (s := "]") (by decide)
    have hall := apart_join rfl hopen hclose fun rest _ => bounded_delimiter (by decide) rest
    exact .cons hall h.lexed
  reads := h.reads.array (by rw [toList_toString, readNat?_toDigits])
  begins := by
    rw [String.append_assoc]
    refine beginsType_text ?_ _
    rw [String.toList_append]
    rfl

/-- The key is enclosed in brackets. -/
theorem SpelledAs.map {ks : List String} {k : Ty} (hk : SpelledAs ps ks k)
    (h : SpelledAs parts ts t) :
    SpelledAs ([.text "map["] ++ ps ++ [.text "]"] ++ parts) ("map" :: "[" :: (ks ++ "]" :: ts))
      (.map k t) where
  lexed := by
    have hmark : Apart Anything "map[".toList ["map", "["] True :=
      apart_word_delimiter (by decide) (by decide) (by decide)
    have hkey : Lexed Anything (ps ++ [.text "]"]) (ks ++ ["]"]) :=
      hk.lexed.append_delimiter (by decide)
    simpa using (Lexed.cons hmark hkey).append h.lexed fun _ _ => trivial
  reads := hk.reads.map h.reads
  begins := beginsType_text (by decide) _

/-! ### Lists -/

variable {self : String}

/-- The type can be spelled, and what is spelled is read as the type. -/
def Writes (self : String) (t : Ty) : Prop :=
  ∃ parts ts, spell self t = .ok parts ∧ SpelledAs parts ts t

/-- A separator is a mark with a blank behind it. -/
theorem Lexed.separate {v : String} (hp : Lexed Lexical.Bounded ps ts) (hq : Lexed G qs us)
    (htext : v ++ " " = s) (hv : v ∈ delimiters) :
    Lexed G (ps ++ (.text s :: qs)) (ts ++ v :: us) := by
  refine hp.append (.cons (apart_delimiter_space htext hv) hq) fun rest _ => ?_
  rw [TypePart.render_text, ← htext]
  simpa using bounded_delimiter hv _

theorem spellParams_cons {types : List Ty} {variadic : Bool} (hne : types ≠ []) :
    spellParams self (t :: types) variadic = do
      let parts ← spell self t
      return parts :: (← spellParams self types variadic) := by
  cases types with
  | nil => exact absurd rfl hne
  | cons t' types => rw [spellParams]; simp

/-- By induction on the parameters. The last one of a variadic function is spelled by its
elements. -/
theorem exists_spellParams {types : List Ty} {variadic : Bool} (hne : types ≠ [])
    (htypes : ∀ t ∈ types, Writes self t)
    (hv : variadic = true → ∃ e, types.getLast? = some (.slice e) ∧ Writes self e) :
    ∃ spelled ts, spellParams self types variadic = .ok spelled ∧
      spelled.length = types.length ∧
      Lexed Lexical.Bounded (joinParts ", " spelled) ts ∧ ReadsList ts types variadic := by
  induction types with
  | nil => exact absurd rfl hne
  | cons t types ih =>
    obtain ⟨⟨parts, ts, hspell, h⟩, htypes⟩ := List.forall_mem_cons.mp htypes
    cases types with
    | nil =>
      cases variadic with
      | false =>
        refine ⟨[parts], ts, ?_, by simp, h.lexed, h.reads.last⟩
        simp [spellParams, hspell, bind, Except.bind, pure, Except.pure]
      | true =>
        obtain ⟨e, hlast, parts', ts', hspell', h'⟩ := hv rfl
        obtain rfl : t = .slice e := Option.some.inj hlast
        refine ⟨[.text "..." :: parts'], "..." :: ts', ?_, by simp, ?_, h'.reads.ellipsis⟩
        · simp [spellParams, spellElem?, hspell', bind, Except.bind, pure, Except.pure]
        · exact .cons apart_ellipsis h'.lexed
    | cons t' types =>
      obtain ⟨spelled, us, hspelled, hlength, hlexed, hreads⟩ := ih (by simp) htypes hv
      refine ⟨parts :: spelled, ts ++ "," :: us, ?_, by simp [hlength], ?_, h.reads.cons hreads⟩
      · rw [spellParams_cons (by simp), hspell, hspelled]
        rfl
      · rw [TypePart.joinParts_cons (List.ne_nil_of_length_pos (by simp [hlength]))]
        exact h.lexed.separate hlexed (by decide) (by decide)

theorem spellList_eq (types : List Ty) : spellList self types = spellParams self types false := by
  induction types with
  | nil => simp [spellList, spellParams]
  | cons t types ih => simp [spellList, spellParams, ih]

theorem lexed_nil : Lexed F [] [] where
  packages := TypePart.within_nil
  apart rest us _ := by simp [TypePart.render]

/-- A function up to the end of its parameters. -/
theorem exists_params {types : List Ty} {variadic : Bool} (htypes : ∀ t ∈ types, Writes self t)
    (hv : variadic = true → ∃ e, types.getLast? = some (.slice e) ∧ Writes self e) :
    ∃ spelled ts, spellParams self types variadic = .ok spelled ∧
      Lexed Anything ([.text "func("] ++ joinParts ", " spelled ++ [.text ")"]) ("func" :: ts) ∧
      ReadsParams ts types variadic := by
  have hopen : Apart Anything "func(".toList ["func", "("] True :=
    apart_word_delimiter (by decide) (by decide) (by decide)
  by_cases hne : types = []
  · subst hne
    have hfalse : variadic = false := by
      refine Bool.eq_false_iff.mpr fun htrue => ?_
      obtain ⟨_, hlast, -⟩ := hv htrue
      cases hlast
    subst hfalse
    refine ⟨[], ["(", ")"], by simp [spellParams], ?_, readsParams_nil⟩
    exact .cons hopen (lexed_nil.append_delimiter (by decide))
  · obtain ⟨spelled, ts, hspelled, -, hlexed, hreads⟩ := exists_spellParams hne htypes hv
    refine ⟨spelled, "(" :: (ts ++ [")"]), hspelled, ?_, hreads.enclosed⟩
    exact .cons hopen (hlexed.append_delimiter (by decide))

/-- Several results stand in parentheses. -/
theorem spellResults_of_length {spelled : List (List TypePart)} (h : 2 ≤ spelled.length) :
    spellResults spelled = .text " (" :: (joinParts ", " spelled ++ [.text ")"]) := by
  match spelled with
  | [] | [_] => simp at h
  | _ :: _ :: _ => rfl

/-- Nothing for no results, a blank and the type for one, parentheses for more. -/
theorem exists_results {types : List Ty} (htypes : ∀ t ∈ types, Writes self t) :
    ∃ spelled ts, spellList self types = .ok spelled ∧
      Lexed Lexical.Bounded (spellResults spelled) ts ∧ ReadsResult ts types := by
  rw [spellList_eq]
  match types with
  | [] => exact ⟨[], [], by simp [spellParams], lexed_nil, readsResult_nil⟩
  | [t] =>
    obtain ⟨parts, ts, hspell, h⟩ := htypes t (by simp)
    have hspace : Apart Anything " ".toList [] True := apart_space rfl
    refine ⟨[parts], ts, ?_, .cons hspace h.lexed, h.reads.result⟩
    simp [spellParams, hspell, bind, Except.bind, pure, Except.pure]
  | t :: t' :: types =>
    obtain ⟨spelled, ts, hspelled, hlength, hlexed, hreads⟩ :=
      @exists_spellParams self (t :: t' :: types) false (by simp) htypes (by simp)
    refine ⟨spelled, "(" :: (ts ++ [")"]), hspelled, ?_, hreads.result (by simp)⟩
    rw [spellResults_of_length (by simp [hlength])]
    exact .cons (apart_space_delimiter (s := "(") (by decide) (by decide))
      (hlexed.append_delimiter (by decide))

/-- The parts of a function type can be read if its parameters and results can. -/
theorem writes_func {params results : List Ty} {variadic : Bool}
    (hp : ∀ t ∈ params, Writes self t) (hr : ∀ t ∈ results, Writes self t)
    (hv : variadic = true → ∃ e, params.getLast? = some (.slice e) ∧ Writes self e) :
    Writes self (.func params results variadic) := by
  obtain ⟨ps, pts, hps, hplexed, hpreads⟩ := exists_params hp hv
  obtain ⟨rs, rts, hrs, hrlexed, hrreads⟩ := exists_results hr
  have hlexed := hplexed.append hrlexed fun _ _ => trivial
  refine ⟨_, _, ?_, hlexed, hpreads.func hrreads, beginsType_text (by decide) _⟩
  rw [spell, hps, hrs]
  rfl

/-! ### Structs -/

theorem isWord_of_isIdentifier (hs : isIdentifier s = true) : isWord s = true := by
  simp only [isIdentifier, Bool.and_eq_true] at hs
  exact hs.1

/-- By induction on the fields, which semicolons keep apart. -/
theorem exists_spellFields {fields : List (String × Ty)} (hne : fields ≠ [])
    (hnames : ∀ f ∈ fields, isIdentifier f.1 = true) (htypes : ∀ f ∈ fields, Writes self f.2) :
    ∃ spelled ts, spellFields self fields = .ok spelled ∧ spelled ≠ [] ∧
      Lexed Lexical.Bounded (joinParts "; " spelled) ts ∧ ReadsFields ts fields := by
  induction fields with
  | nil => exact absurd rfl hne
  | cons field fields ih =>
    obtain ⟨x, t⟩ := field
    obtain ⟨hx, hnames⟩ := List.forall_mem_cons.mp hnames
    obtain ⟨⟨parts, ts, hspell, h⟩, htypes⟩ := List.forall_mem_cons.mp htypes
    have hlexed : Lexed Lexical.Bounded (.text (x ++ " ") :: parts) (x :: ts) :=
      .cons (apart_word_space rfl (isWord_of_isIdentifier hx)) h.lexed
    by_cases hlast : fields = []
    · subst hlast
      refine ⟨[.text (x ++ " ") :: parts], x :: ts, ?_, by simp, hlexed, h.reads.field hx⟩
      simp only [spellFields, hspell]
      rfl
    · obtain ⟨spelled, us, hspelled, hne, hrest, hreads⟩ := ih hlast hnames htypes
      refine ⟨(.text (x ++ " ") :: parts) :: spelled, x :: ts ++ ";" :: us, ?_, by simp, ?_,
        h.reads.consField hx hreads⟩
      · rw [spellFields, hspell, hspelled]
        rfl
      · rw [TypePart.joinParts_cons hne]
        exact hlexed.separate hrest (by decide) (by decide)

/-- The parts of a structure can be read if its fields can, and their names are names. -/
theorem writes_struct {fields : List (String × Ty)}
    (hnames : ∀ f ∈ fields, isIdentifier f.1 = true) (htypes : ∀ f ∈ fields, Writes self f.2) :
    Writes self (.struct fields) := by
  by_cases hne : fields = []
  · subst hne
    have hopen : Apart Anything "struct\x7b".toList ["struct", "\x7b"] True :=
      apart_word_delimiter (by decide) (by decide) (by decide)
    have hclose := apart_delimiter (F := Lexical.Bounded) (s := "\x7d") (by decide)
    refine ⟨[.text "struct\x7b\x7d"], ["struct", "\x7b", "\x7d"], ?_, ?_, readsFields_nil.struct,
      beginsType_text (by decide) _⟩
    · simp only [spell, spellFields]
      rfl
    · exact lexed_text (apart_join (by decide) hopen hclose fun _ _ => trivial)
  · obtain ⟨spelled, ts, hspelled, hne, hlexed, hreads⟩ := exists_spellFields hne hnames htypes
    have hword : Apart Anything "struct ".toList ["struct"] True :=
      apart_word_space (by decide) (by decide)
    have hbrace : Apart Anything "\x7b ".toList ["\x7b"] True :=
      apart_delimiter_space (by decide) (by decide)
    have hopen : Apart Anything "struct \x7b ".toList ["struct", "\x7b"] True :=
      apart_join (by decide) hword hbrace fun _ _ => trivial
    have hclose : Lexed Lexical.Bounded [.text " \x7d"] ["\x7d"] :=
      lexed_text (apart_space_delimiter (by decide) (by decide))
    have hinner := hlexed.append hclose fun rest _ => bounded_cons (by decide)
    refine ⟨_, _, ?_, .cons hopen hinner, hreads.struct, beginsType_text (by decide) _⟩
    cases spelled with
    | nil => exact absurd rfl hne
    | cons field spelled =>
      rw [spell, hspelled]
      rfl

/-- All basic types can be spelled. -/
theorem writes_basic {k : Kind} (hk : k.isBasic = true) : Writes self (.basic k) := by
  by_cases hpointer : k = .unsafePointer
  · subst hpointer
    exact ⟨_, _, by rw [spell], spelledAs_unsafePointer⟩
  · refine ⟨_, _, ?_, spelledAs_basic hk hpointer⟩
    rw [spell]
    exact hpointer

/-- The element of a slice is spelled on its own where the slice is the last parameter of a variadic
function. -/
theorem writes_of_structural (h : Structural t) :
    Writes self t ∧ ∀ e, t = .slice e → Writes self e := by
  induction h with
  | basic hk => exact ⟨writes_basic hk, by simp⟩
  | array h ih =>
    obtain ⟨parts, ts, hspell, hspelled⟩ := ih.1
    exact ⟨⟨_, _, by rw [spell, hspell]; rfl, hspelled.array _⟩, by simp⟩
  | slice h ih =>
    obtain ⟨parts, ts, hspell, hspelled⟩ := ih.1
    refine ⟨⟨_, _, by rw [spell, hspell]; rfl, hspelled.slice⟩, ?_⟩
    rintro e ⟨⟩
    exact ih.1
  | map hk h ihk ih =>
    obtain ⟨parts, ts, hspell, hspelled⟩ := ih.1
    obtain ⟨kparts, kts, hkspell, hkspelled⟩ := ihk.1
    exact ⟨⟨_, _, by rw [spell, hspell, hkspell]; rfl, hkspelled.map hspelled⟩, by simp⟩
  | ptr h ih =>
    obtain ⟨parts, ts, hspell, hspelled⟩ := ih.1
    exact ⟨⟨_, _, by rw [spell, hspell]; rfl, hspelled.ptr⟩, by simp⟩
  | chan h ih =>
    obtain ⟨parts, ts, hspell, hspelled⟩ := ih.1
    exact ⟨⟨_, _, by rw [spell, hspell]; rfl, hspelled.chan⟩, by simp⟩
  | func hp hr hv ihp ihr =>
    refine ⟨writes_func (fun t ht => (ihp t ht).1) (fun t ht => (ihr t ht).1) fun h => ?_, by simp⟩
    obtain ⟨e, hlast⟩ := hv h
    exact ⟨e, hlast, (ihp _ (List.mem_of_getLast? hlast)).2 e rfl⟩
  | interface => exact ⟨⟨_, _, by rw [spell], spelledAs_interface⟩, by simp⟩
  | struct hn h ih => exact ⟨writes_struct hn fun f hf => (ih f hf).1, by simp⟩

/-- On a builder without imports, a type has a text. It stands for this type only. -/
theorem exists_typeText (ht : Structural t) {b : Builder} (hb : b.imports = {}) :
    ∃ text b', b.typeText t = .ok (text, b') ∧ ∀ u, Denotes text u ↔ u = t := by
  obtain ⟨parts, ts, hspell, hlexed, hreads, -⟩ := (writes_of_structural ht).1
  have hsplits : Splits (TypePart.render unsafeOnly parts).toList ts := by
    have h := hlexed.apart [] [] (by simp [Lexical.Bounded])
    simpa [Splits.nil] using h
  refine ⟨TypePart.render unsafeOnly parts, (b.resolveParts parts).2, ?_, fun u => ⟨?_, ?_⟩⟩
  · rw [Builder.typeText, hspell, ← fst_resolve hlexed.packages, ← hb]
    rfl
  · rintro ⟨us, hus, htype⟩
    obtain rfl := hus.unique hsplits
    have hend : Closed [] := by simp [Closed]
    exact (hreads.unique htype (rfl : us ++ [] = us ++ []) hend hend).2
  · rintro rfl
    exact ⟨ts, hsplits, hreads.isType⟩

end

/-- **Types are read back.** A builder to which no call has been made has a text for every type
that is given by its structure. The grammar reads the text as this type and as no other, so no other
such type has the same text on any such builder. -/
theorem denotes_iff_of_typeText {t : Ty} (ht : Structural t) (id : Nat) (registry : Registry)
    (options : Options) :
    ∃ text b, (Builder.fresh id registry options).typeText t = .ok (text, b) ∧
      (∀ u, Denotes text u ↔ u = t) ∧
      ∀ u id' registry' options' b', Structural u →
        (Builder.fresh id' registry' options').typeText u = .ok (text, b') → u = t := by
  obtain ⟨text, b, htext, hdenotes⟩ := exists_typeText ht (b := .fresh id registry options) rfl
  refine ⟨text, b, htext, hdenotes, fun u id' registry' options' b' hu htext' => ?_⟩
  obtain ⟨text', b'', htext'', hdenotes'⟩ :=
    exists_typeText hu (b := .fresh id' registry' options') rfl
  obtain ⟨rfl, -⟩ := Prod.mk.inj (Except.ok.inj (htext'.symm.trans htext''))
  exact (hdenotes u).mp ((hdenotes' u).mpr rfl)

/-- Functions in a channel and among results, with several results and none, and a variadic slice
of slices. -/
def nestedFunc : Ty :=
  .func [.chan (.func [.slice (.slice .int)] [] true),
      .map .string (.array 3 (.ptr (.basic .unsafePointer)))]
    [.func [] [.int, .bool] false, .struct [("x", .int), ("_", .interface)]] false

theorem structural_nestedFunc : Structural nestedFunc := by
  have hint : Structural .int := .basic (by decide)
  have hvariadic : Structural (.func [.slice (.slice .int)] [] true) :=
    .func (by simpa using Structural.slice (.slice hint)) (by simp) fun _ => ⟨_, rfl⟩
  have hmap : Structural (.map .string (.array 3 (.ptr (.basic .unsafePointer)))) :=
    .map (.basic (by decide)) (.array (.ptr (.basic (by decide))))
  have hresults : Structural (.func [] [.int, .bool] false) :=
    .func (by simp) (by simpa using ⟨hint, .basic (by decide)⟩) (by simp)
  have hstruct : Structural (.struct [("x", .int), ("_", .interface)]) :=
    .struct (by decide) (by simpa using ⟨hint, .interface⟩)
  exact .func (by simpa using ⟨.chan hvariadic, hmap⟩) (by simpa using ⟨hresults, hstruct⟩)
    (by simp)

theorem denotes_nestedFunc :
    Structural nestedFunc ∧
      ∀ u, u = nestedFunc ↔
        Denotes ("func(chan func(...[]int), map[string][3]*unsafe.Pointer) " ++
          "(func() (int, bool), struct \x7b x int; _ interface\x7b\x7d \x7d)") u := by
  refine ⟨structural_nestedFunc, ?_⟩
  obtain ⟨text, b, htext, hdenotes, -⟩ := denotes_iff_of_typeText structural_nestedFunc 0 {} {}
  have heval : (((Builder.fresh 0 {} {}).typeText nestedFunc).toOption.map (·.1)) =
      some ("func(chan func(...[]int), map[string][3]*unsafe.Pointer) " ++
        "(func() (int, bool), struct \x7b x int; _ interface\x7b\x7d \x7d)") := by
    decide +kernel
  rw [htext] at heval
  obtain rfl : text = _ := Option.some.inj heval
  exact fun u => (hdenotes u).symm

end Lowering.Source
