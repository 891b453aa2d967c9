import Mathlib.Data.List.Perm.Subperm
import Lowering.Proofs.Source.Acceptance
import Lowering.Proofs.Source.Growth
import Lowering.Proofs.Source.Literals

/-!
# Aliases of imported packages

Paths with the same last segment ask for the same alias, and an alias with a number may be the last
segment of another path. The search for an alias tries one candidate more than there are aliases,
and candidates are all different, so it ends at one that is free (`exists_freshAlias`). So no two
packages have the same alias, after whatever calls.

A table of aliases only grows, and what is written does not depend on when an alias was given
(`Builder.run_withAliases`). So every reference to a package uses the one alias that the import
clause of the file gives to it, and the clause gives one to each package (`aliases_of_run`).
-/

namespace Lowering.Source

namespace Imports

variable {m : Imports} {path name base : String} {taken : List String}

/-! ## The search -/

/-- A number makes a name longer. -/
theorem append_toString_ne (base : String) (n : Nat) : base ++ toString n ≠ base := by
  intro h
  have hlists := congrArg String.toList h
  rw [String.toList_append, Go.toList_toString] at hlists
  exact Nat.toDigits_ne_nil (List.append_right_eq_self.mp hlists)

/-- Different numbers make different candidates. -/
theorem candidate_injective (base : String) : Function.Injective (candidate base) := by
  intro n k h
  match n, k with
  | 0, 0 => rfl
  | 0, k + 1 => exact absurd h.symm (append_toString_ne base (k + 2))
  | n + 1, 0 => exact absurd h (append_toString_ne base (n + 2))
  | n + 1, k + 1 =>
    have hnumbers : toString (n + 2) = toString (k + 2) := (String.append_right_inj base).mp h
    have hvalues := congrArg (fun s => Nat.ofDigitChars 10 s.toList 0) hnumbers
    simp only [Go.toList_toString, Nat.ofDigitChars_ten_toDigits] at hvalues
    omega

/-- One candidate more than there are aliases cannot all be taken. -/
theorem exists_free (taken : List String) (base : String) :
    ∃ n ≤ taken.length, candidate base n ∉ taken := by
  by_contra hall
  have hsubset : (List.range (taken.length + 1)).map (candidate base) ⊆ taken := by
    intro name hname
    obtain ⟨n, hn, rfl⟩ := List.mem_map.mp hname
    by_contra hfree
    exact hall ⟨n, by simpa using Nat.le_of_lt_succ (List.mem_range.mp hn), hfree⟩
  have hnodup : ((List.range (taken.length + 1)).map (candidate base)).Nodup :=
    List.nodup_range.map (candidate_injective base)
  have hlength := (hnodup.subperm hsubset).length_le
  rw [List.length_map, List.length_range] at hlength
  omega

/-- By induction on the attempts that are left. What was tried before is taken. -/
theorem exists_firstFree (n count : Nat) (hbefore : ∀ k < n, candidate base k ∈ taken)
    (hfree : ∃ k ≤ n + count, candidate base k ∉ taken) :
    ∃ k ≤ n + count, firstFree taken base n count = candidate base k ∧
      candidate base k ∉ taken ∧ ∀ j < k, candidate base j ∈ taken := by
  induction count generalizing n with
  | zero =>
    obtain ⟨k, hk, hfree⟩ := hfree
    have hkn : k = n := by
      by_contra hne
      exact hfree (hbefore k (by omega))
    subst hkn
    exact ⟨k, Nat.le_refl _, rfl, hfree, hbefore⟩
  | succ count ih =>
    rw [firstFree]
    by_cases htaken : candidate base n ∈ taken
    · rw [if_pos (List.contains_iff_mem.mpr htaken)]
      have hbefore' : ∀ k < n + 1, candidate base k ∈ taken := by
        intro k hk
        obtain hlt | rfl := Nat.lt_succ_iff_lt_or_eq.mp hk
        · exact hbefore k hlt
        · exact htaken
      rw [show n + (count + 1) = n + 1 + count by omega] at hfree ⊢
      exact ih (n + 1) hbefore' hfree
    · rw [if_neg (mt List.contains_iff_mem.mp htaken)]
      exact ⟨n, by omega, rfl, htaken, hbefore⟩

/-- A new path gets the first candidate that is free, and there is one. -/
theorem exists_freshAlias (m : Imports) (path : String) :
    ∃ n ≤ m.entries.length, m.freshAlias path = candidate (baseAlias path) n ∧
      candidate (baseAlias path) n ∉ m.aliases ∧
      ∀ k < n, candidate (baseAlias path) k ∈ m.aliases := by
  have hlength : m.aliases.length = m.entries.length := List.length_map _
  have hfree := exists_free m.aliases (baseAlias path)
  rw [hlength] at hfree
  simpa [freshAlias] using
    exists_firstFree 0 m.entries.length (by simp) (by simpa using hfree)

/-! ## Tables of aliases -/

/-- Every package has one alias and every alias stands for one package. An alias is a candidate for
its path, and the packages are allowed. -/
structure Tidy (allowed : String → Prop) (m : Imports) : Prop where
  paths : (m.entries.map (·.1)).Nodup
  names : m.aliases.Nodup
  candidates : ∀ e ∈ m.entries, ∃ n, e.2 = candidate (baseAlias e.1) n
  allowed : ∀ e ∈ m.entries, allowed e.1

variable {allowed : String → Prop}

theorem tidy_nil : Tidy allowed {} := ⟨by simp, by simp [aliases], by simp, by simp⟩

/-- A new alias is none of those that are taken, since there are more candidates than these. -/
theorem Tidy.add (h : Tidy allowed m) (hpath : allowed path) : Tidy allowed (m.add path) := by
  unfold Imports.add
  cases hlookup : m.entries.lookup path with
  | some name => exact h
  | none =>
    obtain ⟨n, -, hname, hfree, -⟩ := exists_freshAlias m path
    have hnew : path ∉ m.entries.map (·.1) := by
      intro hmem
      obtain ⟨e, he, rfl⟩ := List.mem_map.mp hmem
      simpa using List.lookup_eq_none_iff.mp hlookup e he
    rw [if_neg (by simp), hname]
    refine ⟨?_, ?_, ?_, ?_⟩
    · simpa using h.paths.concat hnew
    · simpa [aliases] using h.names.concat hfree
    · exact List.forall_mem_append.mpr ⟨h.candidates, List.forall_mem_singleton.mpr ⟨n, rfl⟩⟩
    · exact List.forall_mem_append.mpr ⟨h.allowed, List.forall_mem_singleton.mpr hpath⟩

theorem Tidy.foldl_add {paths : List String} (h : Tidy allowed m)
    (hpaths : ∀ p ∈ paths, allowed p) : Tidy allowed (paths.foldl Imports.add m) := by
  induction paths generalizing m with
  | nil => exact h
  | cons path paths ih =>
    obtain ⟨hpath, hpaths⟩ := List.forall_mem_cons.mp hpaths
    exact ih (h.add hpath) hpaths

/-- What is tidy stays tidy. -/
theorem Tidy.of_grows {m' : Imports} (h : Tidy allowed m) (hgrows : m.Grows allowed m') :
    Tidy allowed m' := by
  obtain ⟨paths, hpaths, rfl⟩ := hgrows
  exact h.foldl_add hpaths

/-! ## The import clause -/

/-- The clause lists every package once. -/
theorem perm_sorted (m : Imports) : m.sorted.Perm m.entries := List.mergeSort_perm _ _

/-- The clause is ordered by path, and no path is repeated. -/
theorem Tidy.pairwise_sorted (h : Tidy allowed m) : m.sorted.Pairwise fun a b => a.1 < b.1 := by
  have hle : m.sorted.Pairwise fun a b => (!decide (b.1 < a.1)) = true := by
    refine List.pairwise_mergeSort ?_ ?_ m.entries
    · intro a b c hab hbc
      simp only [Bool.not_eq_true', decide_eq_false_iff_not, String.not_lt] at hab hbc ⊢
      exact String.le_trans hab hbc
    · intro a b
      simp only [Bool.or_eq_true, Bool.not_eq_true', decide_eq_false_iff_not, String.not_lt]
      exact String.le_total a.1 b.1
  have hne : m.sorted.Pairwise fun a b => a.1 ≠ b.1 := by
    have hnodup := ((perm_sorted m).map (·.1)).nodup_iff.mpr h.paths
    exact List.pairwise_map.mp hnodup
  refine (hle.and hne).imp fun {a b} hab => ?_
  obtain ⟨hle, hne⟩ := hab
  simp only [Bool.not_eq_true', decide_eq_false_iff_not, String.not_lt] at hle
  by_contra hlt
  exact hne (String.le_antisymm hle (String.not_lt.mp hlt))

/-- An import clause in a file with this indentation: nothing, one line, or a list. -/
def clauseText (indent : String) : List (String × String) → String
  | [] => ""
  | [(path, name)] => "import " ++ name ++ " \"" ++ path ++ "\"\n\n"
  | entries =>
    "import (\n" ++
      String.join (entries.map fun (path, name) => indent ++ name ++ " \"" ++ path ++ "\"\n") ++
      ")\n\n"

/-- A table of characters that begins at some code has no characters below it. -/
theorem le_of_inRanges {ranges : List (Nat × Nat)} {n : Nat} {c : Char}
    (hranges : ranges.all (n ≤ ·.1) = true) (hc : Text.inRanges ranges c = true) :
    n ≤ c.toNat := by
  obtain ⟨range, hmem, hrange⟩ := List.any_eq_true.mp hc
  have hle : n ≤ range.1 := by simpa using List.all_eq_true.mp hranges range hmem
  simp only [Bool.and_eq_true, decide_eq_true_eq] at hrange
  exact hle.trans hrange.1

/-- Letters and numbers come behind the control characters. -/
theorem le_of_isAlphanumeric {c : Char} (hc : Text.isAlphanumeric c = true) : 0x30 ≤ c.toNat := by
  obtain hc | hc := Bool.or_eq_true_iff.mp hc
  · exact le_of_inRanges (by decide +kernel) hc
  · exact le_of_inRanges (by decide +kernel) hc

/-- No alias has a tab, which the options could replace. -/
theorem not_mem_baseAlias (path : String) : '\t' ∉ (baseAlias path).toList := by
  intro h
  rw [baseAlias, String.toList_ofList] at h
  obtain ⟨c, -, hc⟩ := List.mem_map.mp h
  split at hc
  · next hclass =>
    subst hc
    obtain hclass | hclass := Bool.or_eq_true_iff.mp hclass
    · exact absurd (le_of_isAlphanumeric hclass) (by decide)
    · exact absurd (of_decide_eq_true hclass) (by decide)
  · exact absurd hc (by decide)

theorem not_mem_candidate (path : String) (n : Nat) :
    '\t' ∉ (candidate (baseAlias path) n).toList := by
  cases n with
  | zero => exact not_mem_baseAlias path
  | succ n =>
    rw [candidate, String.toList_append, Go.toList_toString]
    intro h
    obtain h | h := List.mem_append.mp h
    · exact not_mem_baseAlias path h
    · exact absurd (Go.isDigit_of_mem_toDigits h) (by decide)

/-- Tabs are replaced text by text. -/
theorem replaceTabs_join (indent : String) (texts : List String) :
    replaceTabs indent (String.join texts) = String.join (texts.map (replaceTabs indent)) := by
  induction texts with
  | nil => rfl
  | cons text texts ih => simp [replaceTabs_append, ih]

/-- Of a clause only the indentation of its list is replaced. -/
theorem replaceTabs_clauseText (indent : String) {entries : List (String × String)}
    (h : ∀ e ∈ entries, '\t' ∉ e.1.toList ∧ '\t' ∉ e.2.toList) :
    replaceTabs indent (clauseText "\t" entries) = clauseText indent entries := by
  have hfixed : ∀ s ∈ ["import ", " \"", "\"\n\n", "import (\n", "\"\n", ")\n\n"],
      replaceTabs indent s = s := by
    intro s hs
    exact replaceTabs_of_not_mem ((by decide : ∀ s ∈ _, '\t' ∉ s.toList) s hs)
  have hentry : ∀ e ∈ entries, replaceTabs indent e.1 = e.1 ∧ replaceTabs indent e.2 = e.2 :=
    fun e he => ⟨replaceTabs_of_not_mem (h e he).1, replaceTabs_of_not_mem (h e he).2⟩
  match entries with
  | [] => rfl
  | [(path, name)] =>
    obtain ⟨hpath, hname⟩ := hentry (path, name) (by simp)
    simp only [clauseText, replaceTabs_append, hpath, hname]
    rw [hfixed "import " (by simp), hfixed " \"" (by simp), hfixed "\"\n\n" (by simp)]
  | e :: e' :: entries =>
    have htab : replaceTabs indent "\t" = indent := by simp [replaceTabs]
    have hlines : ∀ e'' ∈ e :: e' :: entries,
        replaceTabs indent ("\t" ++ e''.2 ++ " \"" ++ e''.1 ++ "\"\n") =
          indent ++ e''.2 ++ " \"" ++ e''.1 ++ "\"\n" := by
      intro e'' he
      obtain ⟨hpath, hname⟩ := hentry e'' he
      simp only [replaceTabs_append, hpath, hname, htab]
      rw [hfixed " \"" (by simp), hfixed "\"\n" (by simp)]
    simp only [clauseText, replaceTabs_append, replaceTabs_join]
    rw [hfixed "import (\n" (by simp), hfixed ")\n\n" (by simp), List.map_map]
    exact congrArg (fun lines => "import (\n" ++ String.join lines ++ ")\n\n")
      (List.map_congr_left hlines)

/-- The clause indents its lines with tabs. -/
theorem clause_eq (m : Imports) : m.clause = clauseText "\t" m.sorted := by
  unfold clause clauseText
  rfl

/-- With other indentation the clause is the one that is written with it. -/
theorem Tidy.replaceTabs_clause (h : Tidy ('\t' ∉ String.toList ·) m) (indent : String) :
    replaceTabs indent m.clause = clauseText indent m.sorted := by
  rw [clause_eq]
  refine replaceTabs_clauseText indent fun e he => ?_
  have he := (perm_sorted m).mem_iff.mp he
  obtain ⟨n, hname⟩ := h.candidates e he
  exact ⟨h.allowed e he, hname ▸ not_mem_candidate e.1 n⟩

end Imports

/-! ## Runs -/

namespace Builder

variable {allowed : String → Prop} {b b' : Builder} {calls : List Call}

/-- Calls write the same if the aliases that they give were given before. -/
theorem run_withAliases (hp : ∀ c ∈ calls, Permits allowed b.registry c)
    (h : Backend.run b calls = .ok b') :
    b.imports.Grows allowed b'.imports ∧ ∀ m : Imports, b'.imports.entries <+: m.entries →
      Backend.run (b.withAliases m) calls = .ok (b'.withAliases m) := by
  induction calls generalizing b with
  | nil =>
    obtain rfl := Backend.run_nil_eq_ok.mp h
    exact ⟨.refl, fun m _ => rfl⟩
  | cons c calls ih =>
    obtain ⟨r, hc, hrest⟩ := Backend.run_cons_eq_ok.mp h
    obtain ⟨hpc, hpcalls⟩ := List.forall_mem_cons.mp hp
    have hregistry : r.registry = b.registry := congrArg Fixed.registry (fixed_of_step hc)
    obtain ⟨hgrows, hsame⟩ := step_withAliases hpc hc
    obtain ⟨hgrows', hsame'⟩ := ih (hregistry ▸ hpcalls) hrest
    refine ⟨hgrows.trans hgrows', fun m hm => ?_⟩
    exact Backend.run_cons_eq_ok.mpr ⟨_, hsame m (hgrows'.entries.trans hm), hsame' m hm⟩

/-- A native symbol is written with the alias that its package has. -/
theorem qualified_of_lookup {n : Native} {name : String}
    (h : b.imports.entries.lookup n.pkgPath = some name) (hne : n.pkgPath ≠ "") :
    b.qualified n = (name ++ "." ++ n.name, b) := by
  have hempty : n.pkgPath.isEmpty = false := by simpa using hne
  unfold qualified
  rw [hempty, if_neg Bool.false_ne_true]
  dsimp only
  rw [Imports.add_of_lookup h, Imports.aliasOf, h]
  rfl

/-- A call takes its arguments from the stack and leaves its own text there. -/
def called (b : Builder) (name : String) (nexpr : Nat) (ellipsis : Bool) : Builder :=
  let args := (b.stack.take nexpr).reverse
  { b with stack := .call (.primary name) args ellipsis :: b.stack.drop nexpr }

/-- A call of a native function is written with the alias that the package has. -/
theorem run_callNative {kind : SymbolKind} {address nexpr : Nat} {ellipsis : Bool} {n : Native}
    {name : String} (hn : b.registry.native kind address = .ok n)
    (hname : b.imports.entries.lookup n.pkgPath = some name) (hne : n.pkgPath ≠ "")
    (h : (Script.callNative b kind address nexpr ellipsis).run b = .ok ((), b')) :
    b' = b.called (name ++ "." ++ n.name) nexpr ellipsis := by
  rw [Script.callNative, hn] at h
  obtain ⟨args, m, hargs, h⟩ := Script.run_act_eq_ok.mp h
  obtain ⟨-, rfl, rfl⟩ := popMany_eq_ok.mp hargs
  have hqualified := qualified_of_lookup (b := { b with stack := b.stack.drop nexpr }) hname hne
  obtain ⟨text, m, htext, h⟩ := Script.run_act_eq_ok.mp h
  obtain ⟨rfl, rfl⟩ := Prod.mk.inj (hqualified.symm.trans (Except.ok.inj htext))
  obtain ⟨⟨⟩, m, hpush, h⟩ := Script.run_act_eq_ok.mp h
  obtain ⟨-, rfl⟩ := pushExpr_eq_ok.mp (Action.silent_eq_ok.mp hpush)
  exact (Prod.mk.inj (Except.ok.inj h)).2.symm

/-- A named type of another package is written with the alias that the package has. -/
theorem typeText_of_lookup {path name : String} (h : b.imports.entries.lookup path = some name)
    (hne : path ≠ "") (hself : path ≠ b.options.package) (s : String) (t : Ty) :
    b.typeText (.named path s t) = .ok (name ++ "." ++ s, b) := by
  have hother : (path.isEmpty || path == b.options.package) = false := by simp [hne, hself]
  have htext : TypePart.render b.imports [.package path, .text ("." ++ s)] = name ++ "." ++ s := by
    simp [TypePart.render, Imports.aliasOf, h, String.append_assoc]
  have hparts : b.imports.resolve [.package path, .text ("." ++ s)] =
      (name ++ "." ++ s, b.imports) :=
    htext ▸ Imports.resolve_of_lookup (by simpa [TypePart.packages] using ⟨name, h⟩)
  refine typeText_eq_ok.mpr ⟨[.package path, .text ("." ++ s)], ?_, ?_⟩
  · rw [Source.spell, hother]
    rfl
  · rw [resolveParts, hparts]

/-- A type of the package of the file is written without an alias. -/
theorem typeText_of_self {path : String} (h : path = "" ∨ path = b.options.package) (s : String)
    (t : Ty) : b.typeText (.named path s t) = .ok (s, b) := by
  have hself : (path.isEmpty || path == b.options.package) = true := by simpa using h
  have htext : TypePart.render b.imports [.text s] = s := by simp [TypePart.render]
  refine typeText_eq_ok.mpr ⟨[.text s], ?_, congrArg (·, b) htext⟩
  rw [Source.spell, hself]
  rfl

/-- Whatever refers to the package is written with the name: symbols of the registry and their
calls, and types. -/
structure RefersBy (b : Builder) (path name : String) : Prop where
  lookup : b.imports.entries.lookup path = some name
  symbol : ∀ n : Native, n.pkgPath = path → path ≠ "" → b.qualified n = (name ++ "." ++ n.name, b)
  call : ∀ address nexpr n r, b.registry.native .func address = .ok n → n.pkgPath = path →
    path ≠ "" → b.step (.callNative address nexpr) = .ok r →
    r = b.called (name ++ "." ++ n.name) nexpr false
  callVariadic : ∀ address nexpr arity n r, b.registry.native .variadicFunc address = .ok n →
    n.pkgPath = path → path ≠ "" → b.step (.callVariadicNative address nexpr arity) = .ok r →
    r = b.called (name ++ "." ++ n.name) nexpr (arity = arityEllipsis)
  named : ∀ s t, path ≠ "" → path ≠ b.options.package →
    b.typeText (.named path s t) = .ok (name ++ "." ++ s, b)
  /-- In a longer type, the package stands with its name wherever the type refers to it. -/
  type : ∀ t text r, b.typeText t = .ok (text, r) → ∃ parts,
    Source.spell b.options.package t = .ok parts ∧ text = TypePart.render r.imports parts ∧
      r.imports.aliasOf path = name
  parts : ∀ parts text r, b.resolveParts parts = (text, r) →
    r.imports.entries.lookup path = some name ∧ text = TypePart.render r.imports parts

/-- An alias is used wherever its package is. -/
theorem refersBy_of_lookup {path name : String} (h : b.imports.entries.lookup path = some name) :
    RefersBy b path name where
  lookup := h
  symbol := by
    rintro n rfl hne
    exact qualified_of_lookup h hne
  call := by
    rintro address nexpr n r hn rfl hne hr
    exact run_callNative hn h hne (step_eq_ok.mp hr)
  callVariadic := by
    rintro address nexpr arity n r hn rfl hne hr
    exact run_callNative hn h hne (step_eq_ok.mp hr)
  named := fun s t hne hself => typeText_of_lookup h hne hself s t
  type := by
    intro t text r hr
    obtain ⟨parts, hparts, hr⟩ := typeText_eq_ok.mp hr
    obtain ⟨rfl, rfl⟩ := Prod.mk.inj hr
    have hname := Imports.lookup_mono (Imports.prefix_foldl_add _ (TypePart.packages parts)) h
    exact ⟨parts, hparts, rfl, congrArg (Option.getD · "") hname⟩
  parts := by
    rintro parts _ _ ⟨⟩
    exact ⟨Imports.lookup_mono (Imports.prefix_foldl_add _ _) h, rfl⟩

/-- Calls add aliases to a table that was empty. -/
theorem tidy_of_run {id : Nat} {registry : Registry} {options : Options}
    (hp : ∀ c ∈ calls, Permits allowed registry c)
    (h : Backend.run (fresh id registry options) calls = .ok b) : b.imports.Tidy allowed :=
  Imports.tidy_nil.of_grows (run_withAliases hp h).1

/-- The file begins with its package and its imports. -/
theorem exists_of_resolve {text : String} (h : b.resolve = .ok (text, b'))
    (himports : b.imports.Tidy ('\t' ∉ String.toList ·)) :
    ∃ funcs top, text =
      replaceTabs b.options.indent ("package " ++ b.options.package ++ "\n\n") ++
        Imports.clauseText b.options.indent b.imports.sorted ++
        replaceTabs b.options.indent
          (funcs ++ "func " ++ b.options.mainFunc ++ "() \x7b\n" ++ top ++ "\x7d\n") := by
  obtain ⟨-, d, hd, hrender, -⟩ := resolve_eq_ok.mp h
  have hoptions : d.options = b.options :=
    congrArg Fixed.options (fixed_discardAll (b := { b with stack := [] }) hd)
  have hdimports : d.imports = b.imports := imports_discardAll (b := { b with stack := [] }) hd
  obtain ⟨funcs, -, hrender⟩ := bind_eq_ok.mp hrender
  obtain ⟨top, -, hrender⟩ := bind_eq_ok.mp hrender
  refine ⟨String.join funcs, top, ?_⟩
  rw [← Except.ok.inj hrender, hoptions, hdimports, ← himports.replaceTabs_clause]
  simp only [replaceTabs_append, String.append_assoc]

/-- **Aliases are unique and stay.** Take a builder after any calls, and again after any further
ones. The search for an alias ends at the first candidate that is free. Packages and aliases belong
to each other one to one. A package that has an alias keeps it, and whatever refers to the package
later is written with it; a type of the package of the file itself is written without one. Calls
have the same outcome if all aliases are given before the first of them. If no path has a tab in it,
the finished file has an import clause in which every package that has an alias stands once, in the
order of the paths, with this alias. -/
theorem aliases_of_run {id : Nat} {registry : Registry} {options : Options}
    {pre post : List Call} {b b' : Builder}
    (hpre : Backend.run (fresh id registry options) pre = .ok b)
    (hpost : Backend.run b post = .ok b') :
    (∀ path, ∃ n ≤ b.imports.entries.length,
      b.imports.freshAlias path = Imports.candidate (Imports.baseAlias path) n ∧
      Imports.candidate (Imports.baseAlias path) n ∉ b.imports.aliases ∧
      ∀ k < n, Imports.candidate (Imports.baseAlias path) k ∈ b.imports.aliases) ∧
    ((b.imports.entries.map (·.1)).Nodup ∧ b.imports.aliases.Nodup) ∧
    (∀ path name, b.imports.entries.lookup path = some name → RefersBy b' path name) ∧
    (∀ path s t, path = "" ∨ path = options.package →
      b'.typeText (.named path s t) = .ok (s, b')) ∧
    Backend.run (b.withAliases b'.imports) post = .ok b' ∧
    ∀ text d, (∀ c ∈ pre ++ post, Permits ('\t' ∉ String.toList ·) registry c) →
      b'.resolve = .ok (text, d) →
      ∃ entries funcs top, entries.Perm b'.imports.entries ∧
        entries.Pairwise (fun a b => a.1 < b.1) ∧
        text = replaceTabs options.indent ("package " ++ options.package ++ "\n\n") ++
          Imports.clauseText options.indent entries ++
          replaceTabs options.indent
            (funcs ++ "func " ++ options.mainFunc ++ "() \x7b\n" ++ top ++ "\x7d\n") := by
  have hpermits : ∀ (registry : Registry) (calls : List Call), ∀ c ∈ calls,
      Permits (fun _ => True) registry c := fun registry _ c _ => permits_true registry c
  have htidy := tidy_of_run (hpermits _ _) hpre
  obtain ⟨hgrows, hsame⟩ := run_withAliases (hpermits _ _) hpost
  have hrun : Backend.run (fresh id registry options) (pre ++ post) = .ok b' :=
    Backend.run_append_eq_ok.mpr ⟨b, hpre, hpost⟩
  have hoptions : b'.options = options := options_of_run hrun
  refine ⟨Imports.exists_freshAlias b.imports, ⟨htidy.paths, htidy.names⟩, ?_, ?_,
    hsame b'.imports (List.prefix_refl _), ?_⟩
  · intro path name hname
    exact refersBy_of_lookup (Imports.lookup_mono hgrows.entries hname)
  · intro path s t hself
    exact typeText_of_self (hoptions ▸ hself) s t
  · intro text d htabs hresolve
    have htidy' := tidy_of_run htabs hrun
    obtain ⟨funcs, top, htext⟩ := exists_of_resolve hresolve htidy'
    rw [hoptions] at htext
    exact ⟨_, funcs, top, Imports.perm_sorted _, htidy'.pairwise_sorted, htext⟩

/-- A native function of a package whose name is also an alias with a number. -/
def numberedRegistry : Registry := { funcs := #[⟨"a2", "F", .func [] [] false⟩] }

/-- Types of packages with the same last segment. -/
def namesakeCalls : List Call := [.zero (.named "a" "T" .int), .zero (.named "b/a" "T" .int)]

/-- A call of the native function, and a reference to a package that has an alias. -/
def laterCalls : List Call := [.callNative 0 0, .zero (.named "a" "T" .int)]

theorem permits_namesakes {c : Call} (hc : c ∈ namesakeCalls ++ laterCalls) :
    Permits ('\t' ∉ String.toList ·) numberedRegistry c where
  pointer := by decide
  natives := by
    intro kind address n hn
    have hmem : ∀ kind, ∀ n ∈ (numberedRegistry.table kind).toList, '\t' ∉ n.pkgPath.toList := by
      intro kind
      cases kind <;> decide
    rw [Registry.native] at hn
    cases hget : (numberedRegistry.table kind)[address]? with
    | none => rw [hget] at hn; cases hn
    | some n' =>
      rw [hget] at hn
      obtain rfl := Except.ok.inj hn
      exact hmem kind n' (Array.mem_toList_iff.mpr (Array.mem_of_getElem? hget))
  types := by
    have hall : ∀ c ∈ namesakeCalls ++ laterCalls, ∀ t ∈ c.types, ∀ p ∈ t.packages,
        '\t' ∉ p.toList := by decide
    exact hall c hc

theorem entries_namesakes :
    (Backend.run (fresh 0 numberedRegistry {}) (namesakeCalls ++ laterCalls)).toOption.map
      (·.imports.entries) = some [("a", "a"), ("b/a", "a2"), ("a2", "a22")] := by
  decide +kernel

theorem accepts_namesakes :
    (fresh 0 numberedRegistry {}).Accepts (namesakeCalls ++ laterCalls) := by
  refine accepts_iff.mpr ⟨_, rfl, ?_⟩
  constructor <;> decide

theorem aliases_namesakes :
    ∃ b b' d rest, Backend.run (fresh 0 numberedRegistry {}) namesakeCalls = .ok b ∧
      Backend.run b laterCalls = .ok b' ∧
      b.imports.entries = [("a", "a"), ("b/a", "a2")] ∧
      b'.imports.entries = [("a", "a"), ("b/a", "a2"), ("a2", "a22")] ∧
      b'.typeText (.named "b/a" "T" .int) = .ok ("a2.T", b') ∧
      Backend.run (b.withAliases b'.imports) laterCalls = .ok b' ∧
      b'.resolve = .ok ("package main\n\n" ++
        "import (\n\ta \"a\"\n\ta22 \"a2\"\n\ta2 \"b/a\"\n)\n\n" ++ rest, d) := by
  have hfirst : (Backend.run (fresh 0 numberedRegistry {}) namesakeCalls).toOption.map
      (·.imports.entries) = some [("a", "a"), ("b/a", "a2")] := by decide +kernel
  obtain ⟨b, hb, hentries⟩ := exists_ok_of_toOption hfirst
  obtain ⟨b', hb', text, d, hresolve⟩ := accepts_iff_exists_run.mp accepts_namesakes
  obtain ⟨r, hr, hentries'⟩ := exists_ok_of_toOption entries_namesakes
  obtain rfl := Except.ok.inj (hb'.symm.trans hr)
  obtain ⟨m, hm, hlater⟩ := Backend.run_append_eq_ok.mp hb'
  obtain rfl := Except.ok.inj (hb.symm.trans hm)
  obtain ⟨-, -, hrefers, -, hsame, hclause⟩ := aliases_of_run hb hlater
  have hnamed := (hrefers "b/a" "a2" (by rw [hentries]; rfl)).named "T" .int (by decide)
    (by rw [options_of_run hb']; decide)
  obtain ⟨entries, funcs, top, hperm, hsorted, htext⟩ :=
    hclause text d (fun _ hc => permits_namesakes hc) hresolve
  -- Only one arrangement of the three aliases is ordered by path.
  obtain rfl : entries = [("a", "a"), ("a2", "a22"), ("b/a", "a2")] := by
    rw [hentries'] at hperm
    refine List.Perm.eq_of_pairwise ?_ hsorted (by decide) (hperm.trans (by decide))
    intro e e' _ _ h h'
    exact absurd h' (String.lt_asymm h)
  have hhead : replaceTabs "\t" ("package " ++ "main" ++ "\n\n") ++
      Imports.clauseText "\t" [("a", "a"), ("a2", "a22"), ("b/a", "a2")] = "package main\n\n" ++
        "import (\n\ta \"a\"\n\ta22 \"a2\"\n\ta2 \"b/a\"\n)\n\n" := by decide +kernel
  rw [htext] at hresolve
  exact ⟨b, b', d, _, hb, hlater, hentries, hentries', hnamed, hsame,
    hresolve.trans (congrArg (fun head => Except.ok (head ++ _, d)) hhead)⟩

end Builder

end Lowering.Source
