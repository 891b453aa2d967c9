import Lowering.Proofs.Source.Slots
import Lowering.Proofs.Source.Substitution
import Lowering.Source.File

/-!
# Rendering and substitution

A file is the same whether a constant stands in its slot or in the text itself. Rendering looks at
the text of a line at one place only, to find out whether it is a directive; no literal can be what
makes a line one, as none begins like a part of `//line `.
-/

namespace Lowering.Source

/-! ## Literals and directives -/

/-- How a literal never goes on in the middle of a directive: by a character that a directive does
not have, or by the first letters of `int` or `inf`, which are not those of `ine`. -/
def Foreign (cs : List Char) : Prop :=
  (∃ c rest, cs = c :: rest ∧ c ∉ "//line ".toList) ∨
    ∃ c rest, cs = 'i' :: 'n' :: c :: rest ∧ c ≠ 'e'

/-- Only the first characters matter. -/
theorem Foreign.append {cs : List Char} (h : Foreign cs) (more : List Char) :
    Foreign (cs ++ more) := by
  rcases h with ⟨c, rest, rfl, hc⟩ | ⟨c, rest, rfl, hc⟩
  · exact .inl ⟨c, rest ++ more, rfl, hc⟩
  · exact .inr ⟨c, rest ++ more, rfl, hc⟩

/-- No end of the mark of a directive is at the front of a foreign text. -/
theorem Foreign.not_prefix {cs mark : List Char} (h : Foreign cs)
    (hmark : mark <:+ "//line ".toList) (hne : mark ≠ []) : ¬ mark <+: cs := by
  intro hcs
  rcases h with ⟨c, rest, rfl, hc⟩ | ⟨c, rest, rfl, hc⟩
  · cases mark with
    | nil => exact hne rfl
    | cons d mark =>
      obtain ⟨rfl, -⟩ := List.cons_prefix_cons.mp hcs
      exact hc (hmark.mem List.mem_cons_self)
  · simp [List.suffix_cons_iff] at hmark
    rcases hmark with rfl | rfl | rfl | rfl | rfl | rfl | rfl | rfl
    all_goals simp at hcs hne
    exact hc hcs.1.symm

theorem foreign_cons {c : Char} (hc : c ∉ "//line ".toList) (rest : List Char) :
    Foreign (c :: rest) :=
  .inl ⟨c, rest, rfl, hc⟩

/-- Up to its position a directive has no digits. -/
theorem foreign_of_isDigit {cs : List Char} (hne : cs ≠ []) (h : ∀ c ∈ cs, c.isDigit = true) :
    Foreign cs := by
  cases cs with
  | nil => exact absurd rfl hne
  | cons c rest =>
    refine foreign_cons (fun hc => ?_) rest
    have hdigit := h c List.mem_cons_self
    simp at hc
    rcases hc with rfl | rfl | rfl | rfl | rfl | rfl <;> cases hdigit

theorem foreign_toDigits (n : Nat) : Foreign (Nat.toDigits 10 n) :=
  foreign_of_isDigit Nat.toDigits_ne_nil fun _ hc =>
    Nat.isDigit_of_mem_toDigits (by decide) (by decide) hc

theorem foreign_toString_nat (n : Nat) : Foreign (toString n).toList := by
  rw [Nat.toString_eq_repr, Nat.repr, String.toList_ofList]
  exact foreign_toDigits n

theorem foreign_toString_int (z : Int) : Foreign (toString z).toList := by
  cases z with
  | ofNat n => exact foreign_toString_nat n
  | negSucc n =>
    show Foreign ("-" ++ (n + 1).repr).toList
    rw [String.toList_append]
    exact foreign_cons (by decide) _

/-- With a sign or without one. -/
theorem foreign_signText (negative : Bool) {s : String} (h : Foreign s.toList) :
    Foreign (Binary.signText negative ++ s).toList := by
  rw [String.toList_append]
  cases negative with
  | false => exact h
  | true => exact foreign_cons (by decide) _

theorem foreign_positional (d : Decimal) : Foreign d.positional.toList := by
  have hdigit : ∀ c ∈ Nat.toDigits 10 d.coefficient, c.isDigit = true := fun _ hc =>
    Nat.isDigit_of_mem_toDigits (by decide) (by decide) hc
  unfold Decimal.positional
  dsimp only
  split
  · rw [String.toList_ofList]
    exact (foreign_toDigits _).append _
  · rw [String.toList_ofList]
    refine Foreign.append (foreign_of_isDigit ?_ fun c hc => ?_) _
    · apply List.ne_nil_of_length_pos
      simp only [List.length_take, List.length_append, List.length_replicate]
      omega
    · rcases List.mem_append.mp (List.mem_of_mem_take hc) with hzero | hc
      · rw [List.eq_of_mem_replicate hzero]
        rfl
      · exact hdigit c hc

/-- A number begins with a digit or a sign, or is a word. -/
theorem foreign_display {p : Precision} (x : Binary p) : Foreign x.display.toList := by
  unfold Binary.display
  split
  · exact foreign_cons (by decide) _
  · exact foreign_signText _ (.inr ⟨'f', [], rfl, by decide⟩)
  · exact foreign_signText _ (foreign_cons (by decide) _)
  · exact foreign_signText _ (foreign_positional _)

theorem foreign_literal (x : Double) : Foreign x.literal.toList := by
  unfold Binary.literal
  split
  · split
    · rw [String.append_assoc]
      refine foreign_signText _ ?_
      rw [String.toList_append]
      exact (foreign_toString_nat _).append _
    · exact foreign_display x
  · exact foreign_display x

theorem foreign_name (k : Kind) : Foreign k.name.toList := by
  cases k with
  | invalid | interface => exact .inr ⟨_, _, rfl, by decide⟩
  | integer k =>
    cases k with
    | int | int8 | int16 | int32 | int64 => exact .inr ⟨_, _, rfl, by decide⟩
    | _ => exact foreign_cons (by decide) _
  | float p | complex p => cases p <;> exact foreign_cons (by decide) _
  | _ => exact foreign_cons (by decide) _

/-- A literal in parentheses after its kind. -/
theorem foreign_stated (k : Kind) (s : String) : Foreign (k.name ++ "(" ++ s ++ ")").toList := by
  simp only [String.toList_append, List.append_assoc]
  exact (foreign_name k).append _

/-- No literal goes on in the middle of a directive. -/
theorem foreign_literalText (v : Value) : Foreign (literalText v).toList := by
  cases v with
  | bool b => cases b <;> exact foreign_cons (by decide) _
  | string s =>
    show Foreign (Text.quote s).toList
    rw [Text.quote, String.toList_ofList]
    exact foreign_cons (by decide) _
  | integer k z hz =>
    cases k with
    | int => exact foreign_toString_int z
    | _ => exact foreign_stated (.integer _) _
  | float p x =>
    cases p with
    | double => exact foreign_literal _
    | single => exact foreign_stated (.float .single) _
  | complex p re im =>
    cases p with
    | double =>
      show Foreign (Complex.literal _).toList
      unfold Complex.literal
      split <;> simp only [String.toList_append] <;> exact foreign_cons (by decide) _
    | single => exact foreign_stated (.complex .single) _

/-! ## Lines -/

/-- Every slot has its text: the one that takes its place, or the one of the slot that does. -/
def Settled (σ : Substitution) (slots : Array (Option String)) : Prop :=
  ∀ i, (∃ v, σ.piece i = .text (literalText v) ∧ slots[i]? = some (some (literalText v))) ∨
    ∃ j, σ.piece i = .slot j ∧ slots[i]? = σ.slots[j]?

variable {σ : Substitution} {slots : Array (Option String)}

/-- A prefix ends in the first part or reaches into the second. -/
theorem prefix_append_iff {α : Type} {xs ys zs : List α} :
    xs <+: ys ++ zs ↔ xs <+: ys ∨ ∃ rest, xs = ys ++ rest ∧ rest <+: zs := by
  constructor
  · rintro ⟨t, ht⟩
    rcases List.append_eq_append_iff.mp ht with ⟨rest, hys, -⟩ | ⟨rest, hxs, hzs⟩
    · exact .inl ⟨rest, hys.symm⟩
    · exact .inr ⟨rest, hxs, t, hzs.symm⟩
  · rintro (h | ⟨rest, rfl, h⟩)
    · exact h.trans (List.prefix_append ys zs)
    · exact (List.prefix_append_right_inj ys).mpr h

/-- The part of the mark that is still to come grows shorter along the pieces. -/
theorem prefix_leadingText_subst (h : Settled σ slots) (pieces : List Piece) {mark : List Char}
    (hmark : mark <:+ "//line ".toList) :
    mark <+: (Piece.leadingText (pieces.map (·.subst σ))).toList ↔
      mark <+: (Piece.leadingText pieces).toList := by
  induction pieces generalizing mark with
  | nil => rfl
  | cons piece rest ih =>
    cases piece with
    | text s =>
      simp only [List.map_cons, Fragment.subst_text, Piece.leadingText, String.toList_append,
        prefix_append_iff]
      refine or_congr Iff.rfl (exists_congr fun later => and_congr_right fun hlater => ih ?_)
      exact (List.suffix_append _ _).trans (hlater ▸ hmark)
    | slot i =>
      rw [List.map_cons, Piece.subst]
      rcases h i with ⟨v, hv, -⟩ | ⟨j, hj, -⟩
      · -- A slot ends the leading text, and a literal in its place never goes on with the mark.
        have hslot : Piece.leadingText (.slot i :: rest) = "" := rfl
        rw [hv, Piece.leadingText, String.toList_append, hslot]
        have hforeign := (foreign_literalText v).append
          (Piece.leadingText (rest.map (·.subst σ))).toList
        by_cases hne : mark = []
        · simp [hne]
        · exact iff_of_false (hforeign.not_prefix hmark hne) fun hnil =>
            hne (List.prefix_nil.mp hnil)
      · rw [hj]
        rfl

/-- A line is a directive by the text that it begins with, and literals cannot make it one. -/
theorem isDirective_subst (h : Settled σ slots) (l : Line) :
    (l.subst σ).isDirective = l.isDirective := by
  rw [Bool.eq_iff_iff]
  unfold Line.isDirective startsWith
  rw [List.isPrefixOf_iff_prefix, List.isPrefixOf_iff_prefix]
  exact prefix_leadingText_subst h l.pieces List.suffix_rfl

/-! ## Tabs -/

/-- Tabs are replaced character by character. -/
theorem toList_replaceTabs (indent s : String) :
    (replaceTabs indent s).toList =
      s.toList.flatMap fun c => if c = '\t' then indent.toList else [c] := by
  simp [replaceTabs]

theorem toList_replaceTabs_append (indent s u : String) :
    (replaceTabs indent (s ++ u)).toList =
      (replaceTabs indent s).toList ++ (replaceTabs indent u).toList := by
  simp [toList_replaceTabs]

theorem toList_replaceTabs_of_not_mem {indent s : String} (h : '\t' ∉ s.toList) :
    (replaceTabs indent s).toList = s.toList := by
  rw [toList_replaceTabs]
  generalize s.toList = cs at h
  induction cs with
  | nil => rfl
  | cons c cs ih =>
    simp only [List.mem_cons, not_or] at h
    rw [List.flatMap_cons, if_neg (Ne.symm h.1), ih h.2, List.singleton_append]

/-! ## Files -/

/-- Whatever the first computation results in, the second one does as well. -/
def Follows {ε α : Type} (second first : Except ε α) : Prop := ∀ a, first = .ok a → second = .ok a

section Follows

variable {ε α β : Type}

/-- Where both parts follow, the whole does. -/
theorem Follows.bind {first' first : Except ε α} {next' next : α → Except ε β}
    (h : Follows first' first) (hnext : ∀ a, Follows (next' a) (next a)) :
    Follows (first' >>= next') (first >>= next) := by
  intro out hout
  obtain ⟨a, ha, hrest⟩ := bind_eq_ok.mp hout
  exact bind_eq_ok.mpr ⟨a, h a ha, hnext a out hrest⟩

theorem follows_rfl {x : Except ε α} : Follows x x := fun _ h => h

theorem follows_mapM {ι κ : Type} {f' : ι → Except ε α} {f : κ → Except ε α} {g : ι → κ}
    (h : ∀ i, Follows (f' i) (f (g i))) (xs : List ι) :
    Follows (xs.mapM f') ((xs.map g).mapM f) := by
  induction xs with
  | nil => exact follows_rfl
  | cons x xs ih =>
    rw [List.map_cons, List.mapM_cons, List.mapM_cons]
    exact (h x).bind fun a => ih.bind fun as => follows_rfl

end Follows

/-- A slot that was filled with the text of its constant gives what the text gives. -/
theorem follows_renderPieces (h : Settled σ slots) (pieces : List Piece) :
    Follows (renderPieces slots pieces) (renderPieces σ.slots (pieces.map (·.subst σ))) := by
  induction pieces with
  | nil => exact follows_rfl
  | cons piece rest ih =>
    cases piece with
    | text s => exact ih.bind fun _ => follows_rfl
    | slot i =>
      rw [List.map_cons, Piece.subst]
      rcases h i with ⟨v, hv, hi⟩ | ⟨j, hj, hi⟩
      · rw [hv, renderPieces, renderPieces, hi]
        exact ih.bind fun _ => follows_rfl
      · rw [hj, renderPieces, renderPieces, hi]
        rcases σ.slots[j]? with _ | _ | text
        · rintro _ ⟨⟩
        · rintro _ ⟨⟩
        · exact ih.bind fun _ => follows_rfl

/-- Whether a line is indented does not change, as it stays a directive or none. -/
theorem follows_renderLine (h : Settled σ slots) (l : Line) :
    Follows (renderLine slots l) (renderLine σ.slots (l.subst σ)) := by
  unfold renderLine
  rw [isDirective_subst h]
  exact (follows_renderPieces h l.pieces).bind fun _ => follows_rfl

theorem follows_renderLines (h : Settled σ slots) (lines : List Line) :
    Follows (renderLines slots lines) (renderLines σ.slots (lines.map (·.subst σ))) :=
  (follows_mapM (follows_renderLine h) lines).bind fun _ => follows_rfl

namespace Builder

variable {b b' : Builder} {text : String}

/-- By the parts of a file: declarations, then the top level. -/
theorem follows_render (h : Settled σ b.slots) : Follows b.render (b.subst σ).render := by
  have hfuncs : (b.subst σ).funcs.toList = b.funcs.toList.map (·.map (·.subst σ)) :=
    Array.toList_map
  have htop : (b.subst σ).top.lines.toList = b.top.lines.toList.map (·.subst σ) :=
    Array.toList_map
  unfold render
  rw [hfuncs, htop]
  refine Follows.bind (follows_mapM (fun lines => ?_) _) fun funcs => ?_
  · exact (follows_renderLines h lines).bind fun _ => follows_rfl
  · exact (follows_renderLines h _).bind fun top => follows_rfl

/-- Nothing is open, and every slot has its text. -/
structure Complete (b : Builder) : Prop where
  unresolved : b.resolved = false
  slots : ∀ s ∈ b.slots, s.isSome = true
  bodies : b.bodies = []
  fors : b.fors = []
  collectors : b.collectors = []

/-- No slot is empty. -/
theorem size_filter_isNone {slots : Array (Option String)} :
    (slots.filter Option.isNone).size = 0 ↔ ∀ s ∈ slots, s.isSome = true := by
  simp [Array.size_eq_zero_iff, Array.filter_eq_empty_iff, Option.isSome_iff_ne_none]

/-- What a file has to have before it can be written. -/
theorem checkComplete_eq_ok {u : Unit} : b.checkComplete = .ok u ↔ Complete b := by
  unfold checkComplete checkOpen
  constructor
  · intro h
    cases hres : b.resolved with
    | true => rw [hres] at h; exact nomatch h
    | false =>
      by_cases hslots : (b.slots.filter Option.isNone).size = 0
      · cases hbodies : b.bodies with
        | cons body outer => simp [hres, hslots, hbodies] at h; exact nomatch h
        | nil =>
          cases hfors : b.fors with
          | cons loop rest => simp [hres, hslots, hbodies, hfors] at h; exact nomatch h
          | nil =>
            cases hcollectors : b.collectors with
            | cons c outer =>
              simp [hres, hslots, hbodies, hfors, hcollectors] at h; exact nomatch h
            | nil => exact ⟨hres, size_filter_isNone.mp hslots, hbodies, hfors, hcollectors⟩
      · simp [hres, hslots] at h
        exact nomatch h
  · rintro ⟨hres, hslots, hbodies, hfors, hcollectors⟩
    simp [hres, size_filter_isNone.mpr hslots, hbodies, hfors, hcollectors]

/-- All values can be taken at once. -/
theorem popMany_all :
    b.popMany b.stack.length = .ok (b.stack.reverse, { b with stack := [] }) := by
  simp [popMany]

/-- A complete builder writes what is left on the stack, and then its file. -/
theorem resolve_eq_ok :
    b.resolve = .ok (text, b') ↔ Complete b ∧ ∃ m,
      discardAll { b with stack := [] } b.stack.reverse = .ok m ∧ m.render = .ok text ∧
        { m with resolved := true } = b' := by
  unfold resolve
  simp only [bind_eq_ok, checkComplete_eq_ok, popMany_all]
  constructor
  · rintro ⟨-, hcomplete, -, ⟨⟩, m, hm, source, hsource, h⟩
    obtain ⟨rfl, hb'⟩ := Prod.mk.inj (Except.ok.inj h)
    exact ⟨hcomplete, m, hm, hsource, hb'⟩
  · rintro ⟨hcomplete, m, hm, htext, rfl⟩
    exact ⟨(), hcomplete, _, rfl, m, hm, text, htext, rfl⟩

/-- If the file can be finished with the texts in place of the slots, it can be finished with the
texts in the slots, and is the same. -/
theorem resolve_of_subst (h : Settled σ b.slots) (hslots : ∀ s ∈ b.slots, s.isSome = true)
    (hresolve : (b.subst σ).resolve = .ok (text, b')) : ∃ b'', b.resolve = .ok (text, b'') := by
  obtain ⟨hc, d, hdiscard, hrender, -⟩ := resolve_eq_ok.mp hresolve
  have hcomplete : Complete b :=
    ⟨hc.unresolved, hslots, List.map_eq_nil_iff.mp hc.bodies, hc.fors, hc.collectors⟩
  have hmirrors := mirrors_discardAll (σ := σ) (b := { b with stack := [] }) b.stack.reverse
  rw [List.map_reverse] at hmirrors
  obtain ⟨m, hm, rfl⟩ := hmirrors.exists_ok hdiscard
  have hslots : m.slots = b.slots :=
    congrArg Fixed.slots (fixed_discardAll (b := { b with stack := [] }) hm)
  have hrender' : m.render = .ok text := follows_render (hslots ▸ h) text hrender
  exact ⟨_, resolve_eq_ok.mpr ⟨hcomplete, m, hm, hrender', rfl⟩⟩

end Builder

end Lowering.Source
