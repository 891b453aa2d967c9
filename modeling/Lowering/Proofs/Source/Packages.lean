import Lowering.Proofs.Run
import Lowering.Source.State

/-!
# Packages in types

A spelled type refers to packages by their paths. `ensures_spell` bounds which these are: those of
the named types in it, and `unsafe`. A table of aliases only grows, and a type is written the same
with the aliases of a longer table (`Imports.resolve_mono`).
-/

namespace Lowering

/-! ## Packages of a type -/

namespace Ty

mutual

/-- The packages of the named types in a type. -/
def packages : Ty → List String
  | .basic _ => []
  | .named pkgPath _ t => pkgPath :: packages t
  | .array _ t => packages t
  | .slice t => packages t
  | .map k t => packages k ++ packages t
  | .ptr t => packages t
  | .chan t => packages t
  | .func ps rs _ => packagesList ps ++ packagesList rs
  | .interface => []
  | .struct fs => packagesFields fs

def packagesList : List Ty → List String
  | [] => []
  | t :: ts => packages t ++ packagesList ts

def packagesFields : List (String × Ty) → List String
  | [] => []
  | (_, t) :: fs => packages t ++ packagesFields fs

end

/-- The packages of several types are those of each. -/
theorem mem_packagesList {p : String} {ts : List Ty} :
    p ∈ packagesList ts ↔ ∃ t ∈ ts, p ∈ t.packages := by
  induction ts with
  | nil => simp [packagesList]
  | cons t ts ih => simp [packagesList, ih]

end Ty

namespace Source

namespace TypePart

/-- The parts refer to allowed packages only. -/
def Within (allowed : String → Prop) (parts : List TypePart) : Prop :=
  ∀ p ∈ packages parts, allowed p

section

variable {allowed : String → Prop} {ps qs : List TypePart} {s : String}

theorem packages_append : packages (ps ++ qs) = packages ps ++ packages qs :=
  List.filterMap_append

theorem within_nil : Within allowed [] := by simp [Within, packages]

theorem within_text : Within allowed (.text s :: ps) ↔ Within allowed ps := Iff.rfl

theorem within_package {path : String} :
    Within allowed (.package path :: ps) ↔ allowed path ∧ Within allowed ps :=
  List.forall_mem_cons

/-- Two lists of parts need what both of them need. -/
theorem within_append : Within allowed (ps ++ qs) ↔ Within allowed ps ∧ Within allowed qs := by
  rw [Within, packages_append]
  exact List.forall_mem_append

/-- A separator stands between parts and not behind the last one. -/
theorem joinParts_cons {separator : String} {rest : List (List TypePart)} (hrest : rest ≠ []) :
    joinParts separator (ps :: rest) = ps ++ (.text separator :: joinParts separator rest) := by
  cases rest with
  | nil => exact absurd rfl hrest
  | cons qs rest => simp [joinParts]

/-- Separators need no packages. -/
theorem within_joinParts {separator : String} {spelled : List (List TypePart)}
    (h : ∀ parts ∈ spelled, Within allowed parts) :
    Within allowed (joinParts separator spelled) := by
  induction spelled with
  | nil => exact within_nil
  | cons parts rest ih =>
    obtain ⟨hparts, hrest⟩ := List.forall_mem_cons.mp h
    by_cases hne : rest = []
    · subst hne
      exact hparts
    · rw [joinParts_cons hne]
      exact within_append.mpr ⟨hparts, within_text.mpr (ih hrest)⟩

/-- Parentheses around results need no packages. -/
theorem within_spellResults {spelled : List (List TypePart)}
    (h : ∀ parts ∈ spelled, Within allowed parts) : Within allowed (spellResults spelled) := by
  have hjoin : Within allowed (joinParts ", " spelled) := within_joinParts h
  match spelled with
  | [] => exact within_nil
  | [parts] => exact within_text.mpr (h parts (by simp))
  | _ :: _ :: _ => exact within_append.mpr ⟨within_text.mpr hjoin, within_text.mpr within_nil⟩

theorem within_spellStruct {spelled : List (List TypePart)}
    (h : ∀ parts ∈ spelled, Within allowed parts) : Within allowed (spellStruct spelled) := by
  have hjoin : Within allowed (joinParts "; " spelled) := within_joinParts h
  match spelled with
  | [] => exact within_text.mpr within_nil
  | _ :: _ => exact within_append.mpr ⟨within_text.mpr hjoin, within_text.mpr within_nil⟩

end

theorem render_text {m : Imports} (s : String) (parts : List TypePart) :
    render m (.text s :: parts) = s ++ render m parts := by
  simp [render]

theorem render_package {m : Imports} (path : String) (parts : List TypePart) :
    render m (.package path :: parts) = m.aliasOf path ++ render m parts := by
  simp [render]

/-- The text of a type depends on the aliases of its own packages only. -/
theorem render_congr {m m' : Imports} {parts : List TypePart}
    (h : ∀ p ∈ packages parts, m.aliasOf p = m'.aliasOf p) : render m parts = render m' parts := by
  induction parts with
  | nil => rfl
  | cons part parts ih =>
    cases part with
    | text s => rw [render_text, render_text, ih h]
    | package path =>
      obtain ⟨hpath, hparts⟩ := List.forall_mem_cons.mp h
      rw [render_package, render_package, hpath, ih hparts]

end TypePart

namespace Imports

variable {m m' : Imports} {path name : String} {paths : List String}

/-- Aliases that were given stay. -/
theorem prefix_add (m : Imports) (path : String) : m.entries <+: (m.add path).entries := by
  unfold add
  split
  · exact List.prefix_refl _
  · exact List.prefix_append _ _

/-- A package that is added has an alias. -/
theorem exists_lookup_add (m : Imports) (path : String) :
    ∃ name, (m.add path).entries.lookup path = some name := by
  unfold add
  split
  · exact Option.isSome_iff_exists.mp ‹_›
  · simp_all [List.lookup_append]

/-- An alias is not changed by those that come later. -/
theorem lookup_mono (h : m.entries <+: m'.entries)
    (hname : m.entries.lookup path = some name) : m'.entries.lookup path = some name := by
  obtain ⟨rest, hrest⟩ := h
  rw [← hrest, List.lookup_append, hname]
  rfl

/-- A package is added once. -/
theorem add_of_lookup (h : m.entries.lookup path = some name) : m.add path = m := by
  rw [add, if_pos (by rw [h]; rfl)]

theorem prefix_foldl_add (m : Imports) (paths : List String) :
    m.entries <+: (paths.foldl add m).entries := by
  induction paths generalizing m with
  | nil => exact List.prefix_refl _
  | cons path paths ih => exact (prefix_add m path).trans (ih (m.add path))

/-- Each of several packages that are added has an alias. -/
theorem exists_lookup_foldl_add (m : Imports) (h : path ∈ paths) :
    ∃ name, (paths.foldl add m).entries.lookup path = some name := by
  induction paths generalizing m with
  | nil => cases h
  | cons p paths ih =>
    obtain rfl | h := List.mem_cons.mp h
    · obtain ⟨name, hname⟩ := exists_lookup_add m path
      exact ⟨name, lookup_mono (prefix_foldl_add _ paths) hname⟩
    · exact ih (m.add p) h

/-- Packages that have aliases already change nothing. -/
theorem foldl_add_of_lookup (h : ∀ p ∈ paths, ∃ name, m.entries.lookup p = some name) :
    paths.foldl add m = m := by
  induction paths with
  | nil => rfl
  | cons p paths ih =>
    obtain ⟨⟨name, hname⟩, hpaths⟩ := List.forall_mem_cons.mp h
    rw [List.foldl_cons, add_of_lookup hname, ih hpaths]

/-- Parts whose packages have aliases are written with them. -/
theorem resolve_of_lookup {parts : List TypePart}
    (h : ∀ p ∈ TypePart.packages parts, ∃ name, m.entries.lookup p = some name) :
    m.resolve parts = (TypePart.render m parts, m) := by
  rw [resolve, foldl_add_of_lookup h]

/-- Parts are written the same with a table that has their aliases from the start. -/
theorem resolve_mono {parts : List TypePart}
    (h : (m.resolve parts).2.entries <+: m'.entries) :
    m'.resolve parts = ((m.resolve parts).1, m') := by
  have hlookup : ∀ p ∈ TypePart.packages parts, ∃ name,
      (m.resolve parts).2.entries.lookup p = some name ∧ m'.entries.lookup p = some name := by
    intro p hp
    obtain ⟨name, hname⟩ := exists_lookup_foldl_add m hp
    exact ⟨name, hname, lookup_mono h hname⟩
  have htext : TypePart.render m' parts = (m.resolve parts).1 := by
    refine TypePart.render_congr fun p hp => ?_
    obtain ⟨name, hname, hname'⟩ := hlookup p hp
    rw [aliasOf, hname', ← hname]
    rfl
  rw [resolve_of_lookup fun p hp => (hlookup p hp).imp fun _ h => h.2, htext]

/-- The second table is the first with aliases for more packages, all of which are allowed. -/
def Grows (allowed : String → Prop) (m m' : Imports) : Prop :=
  ∃ paths : List String, (∀ p ∈ paths, allowed p) ∧ m' = paths.foldl add m

theorem Grows.refl {allowed : String → Prop} : Grows allowed m m := ⟨[], by simp, rfl⟩

/-- What is added first and what is added then. -/
theorem Grows.trans {allowed : String → Prop} {m'' : Imports} (h : Grows allowed m m')
    (h' : Grows allowed m' m'') : Grows allowed m m'' := by
  obtain ⟨paths, hpaths, rfl⟩ := h
  obtain ⟨paths', hpaths', rfl⟩ := h'
  exact ⟨paths ++ paths', List.forall_mem_append.mpr ⟨hpaths, hpaths'⟩, List.foldl_append.symm⟩

theorem Grows.entries {allowed : String → Prop} (h : Grows allowed m m') :
    m.entries <+: m'.entries := by
  obtain ⟨paths, -, rfl⟩ := h
  exact prefix_foldl_add m paths

end Imports

/-! ## Packages of a spelled type -/

section

variable {allowed : String → Prop} {self : String}

open TypePart

mutual

/-- A spelled type refers to the packages of the types in it, and to `unsafe`. -/
theorem ensures_spell (hpointer : allowed "unsafe") :
    ∀ t : Ty, (∀ p ∈ t.packages, allowed p) → Ensures (Within allowed) (spell self t)
  | .basic k, _ => by
    by_cases hk : k = .unsafePointer
    · subst hk
      rw [spell]
      exact ensures_ok (within_package.mpr ⟨hpointer, within_text.mpr within_nil⟩)
    · rw [spell]
      · exact ensures_ok (within_text.mpr within_nil)
      · exact hk
  | .named pkgPath name t, h => by
    rw [spell]
    refine ensures_ite (ensures_ok (within_text.mpr within_nil)) (ensures_ok ?_)
    exact within_package.mpr ⟨h _ (by simp [Ty.packages]), within_text.mpr within_nil⟩
  | .array _ t, h | .slice t, h | .ptr t, h | .chan t, h => by
    rw [spell]
    exact (ensures_spell hpointer t h).bind fun _ hparts => ensures_ok (within_text.mpr hparts)
  | .map k t, h => by
    obtain ⟨hk, ht⟩ := List.forall_mem_append.mp h
    rw [spell]
    refine (ensures_spell hpointer k hk).bind fun key hkey => ?_
    refine (ensures_spell hpointer t ht).bind fun elem helem => ensures_ok ?_
    have hopen : Within allowed ([.text "map["] ++ key) := within_text.mpr hkey
    exact within_append.mpr ⟨within_append.mpr ⟨hopen, within_text.mpr within_nil⟩, helem⟩
  | .func ps rs v, h => by
    obtain ⟨hps, hrs⟩ := List.forall_mem_append.mp h
    rw [spell]
    refine (ensures_spellParams hpointer ps v hps).bind fun params hparams => ?_
    refine (ensures_spellList hpointer rs hrs).bind fun results hresults => ensures_ok ?_
    have hopen : Within allowed ([.text "func("] ++ joinParts ", " params) :=
      within_text.mpr (within_joinParts hparams)
    exact within_append.mpr
      ⟨within_append.mpr ⟨hopen, within_text.mpr within_nil⟩, within_spellResults hresults⟩
  | .struct fs, h => by
    rw [spell]
    exact (ensures_spellFields hpointer fs h).bind fun fields hfields =>
      ensures_ok (within_spellStruct hfields)
  | .interface, _ => by
    rw [spell]
    exact ensures_ok (within_text.mpr within_nil)

theorem ensures_spellElem? (hpointer : allowed "unsafe") :
    ∀ t : Ty, (∀ p ∈ t.packages, allowed p) →
      ∀ outcome ∈ spellElem? self t, Ensures (Within allowed) outcome
  | .array _ t, h, _, hout | .slice t, h, _, hout | .ptr t, h, _, hout | .chan t, h, _, hout => by
    rw [spellElem?] at hout
    exact Option.some.inj hout ▸ ensures_spell hpointer t h
  | .map k t, h, outcome, hout => by
    rw [spellElem?] at hout
    exact Option.some.inj hout ▸ ensures_spell hpointer t (List.forall_mem_append.mp h).2
  | .named pkgPath name t, h, outcome, hout => by
    have ht := (List.forall_mem_cons.mp h).2
    by_cases hname : ∃ p n u, t = .named p n u
    · obtain ⟨p, n, u, rfl⟩ := hname
      rw [spellElem?] at hout
      cases hout
    · rw [spellElem?] at hout
      · exact ensures_spellElem? hpointer t ht outcome hout
      · exact fun p n u ht => hname ⟨p, n, u, ht⟩
  | .basic _, _, _, hout | .func _ _ _, _, _, hout | .interface, _, _, hout
  | .struct _, _, _, hout => by simp [spellElem?] at hout

/-- Several types need the packages that each of them needs. -/
theorem ensures_spellList (hpointer : allowed "unsafe") :
    ∀ ts : List Ty, (∀ p ∈ Ty.packagesList ts, allowed p) →
      Ensures (∀ parts ∈ ·, Within allowed parts) (spellList self ts)
  | [], _ => by
    rw [spellList]
    exact ensures_ok (by simp)
  | t :: ts, h => by
    obtain ⟨ht, hts⟩ := List.forall_mem_append.mp h
    rw [spellList]
    refine (ensures_spell hpointer t ht).bind fun parts hparts => ?_
    refine (ensures_spellList hpointer ts hts).bind fun rest hrest => ensures_ok ?_
    exact List.forall_mem_cons.mpr ⟨hparts, hrest⟩

/-- Variadic functions need nothing more. -/
theorem ensures_spellParams (hpointer : allowed "unsafe") :
    ∀ (ts : List Ty) (v : Bool), (∀ p ∈ Ty.packagesList ts, allowed p) →
      Ensures (∀ parts ∈ ·, Within allowed parts) (spellParams self ts v)
  | [], v, _ => by
    rw [spellParams]
    exact ensures_ok (by simp)
  | t :: ts, v, h => by
    obtain ⟨ht, hts⟩ := List.forall_mem_append.mp h
    by_cases hlast : ts = [] ∧ v = true
    · obtain ⟨rfl, rfl⟩ := hlast
      rw [spellParams]
      cases helem : spellElem? self t with
      | none => exact ensures_error
      | some outcome =>
        refine (ensures_spellElem? hpointer t ht outcome helem).bind fun parts hparts => ?_
        exact ensures_ok (by simpa using within_text.mpr hparts)
    · rw [spellParams]
      · refine (ensures_spell hpointer t ht).bind fun parts hparts => ?_
        refine (ensures_spellParams hpointer ts v hts).bind fun rest hrest => ensures_ok ?_
        exact List.forall_mem_cons.mpr ⟨hparts, hrest⟩
      · exact fun hv hts => hlast ⟨hts, hv⟩

/-- The names of fields belong to no package. -/
theorem ensures_spellFields (hpointer : allowed "unsafe") :
    ∀ fs : List (String × Ty), (∀ p ∈ Ty.packagesFields fs, allowed p) →
      Ensures (∀ parts ∈ ·, Within allowed parts) (spellFields self fs)
  | [], _ => by
    rw [spellFields]
    exact ensures_ok (by simp)
  | (name, t) :: fs, h => by
    obtain ⟨ht, hfs⟩ := List.forall_mem_append.mp h
    rw [spellFields]
    refine (ensures_spell hpointer t ht).bind fun parts hparts => ?_
    refine (ensures_spellFields hpointer fs hfs).bind fun rest hrest => ensures_ok ?_
    exact List.forall_mem_cons.mpr ⟨within_text.mpr hparts, hrest⟩

end

/-- The names of parameters belong to no package. -/
theorem within_nameParts {names : List String} {types : List (List TypePart)}
    (h : ∀ parts ∈ types, Within allowed parts) :
    ∀ parts ∈ Builder.nameParts names types, Within allowed parts := by
  intro parts hparts
  obtain ⟨⟨name, parts⟩, hmem, rfl⟩ := List.mem_map.mp hparts
  exact within_text.mpr (h parts (List.of_mem_zip hmem).2)

/-- A list in parentheses. -/
theorem within_enclosed {spelled : List (List TypePart)}
    (h : ∀ parts ∈ spelled, Within allowed parts) :
    Within allowed ([.text "("] ++ joinParts ", " spelled ++ [.text ")"]) :=
  within_append.mpr ⟨within_text.mpr (within_joinParts h), within_text.mpr within_nil⟩

/-- A function needs the packages of its parameters and results. -/
theorem ensures_spellSignature (hpointer : allowed "unsafe") {f : Func}
    (h : ∀ t ∈ f.params ++ f.results.map (·.ty), ∀ p ∈ t.packages, allowed p) :
    Ensures (Within allowed) (Builder.spellSignature self f) := by
  obtain ⟨hparams, hresults⟩ := List.forall_mem_append.mp h
  have hlist : ∀ {ts : List Ty}, (∀ t ∈ ts, ∀ p ∈ t.packages, allowed p) →
      ∀ p ∈ Ty.packagesList ts, allowed p := by
    intro ts hts p hp
    obtain ⟨t, ht, hp⟩ := Ty.mem_packagesList.mp hp
    exact hts t ht p hp
  refine (ensures_spellParams hpointer _ f.variadic (hlist hparams)).bind fun types htypes => ?_
  refine (ensures_spellList hpointer _ (hlist hresults)).bind fun results hresults => ensures_ok ?_
  refine within_append.mpr ⟨within_enclosed (within_nameParts htypes), within_spellResults ?_⟩
  split
  · exact hresults
  · split
    · simp
    · simpa using within_enclosed (within_nameParts hresults)

end

end Source

end Lowering
