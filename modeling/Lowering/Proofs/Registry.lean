import Lowering.Proofs.Run

/-!
# Lookups in a registry

Packages map names to addresses, and three tables that all packages share map addresses back to what
was registered. A name can be registered again, as another sort of symbol too, and a package can be
extended at any time; the maps are then overwritten while the tables only grow.

`logged` builds a registry and keeps a log of the addresses that are handed out on the way.
`Records` ties the log to the registry: every address of the log still leads to its own
registration, no two registrations of one sort share one, and a package maps a name to the address
of its last registration. Every entry of every package keeps this (`tracked_note`), so it holds of
what is built.

Main statement: `answers_of_build`.
-/

namespace Lowering

section Folds

variable {ε α β σ τ : Type}

/-- A run of steps that do more than needed is, without the rest, a run of the steps needed. -/
theorem map_foldlM {step : σ → α → Except ε σ} {more : τ → α → Except ε τ}
    {f : τ → σ} (h : ∀ t a, (more t a).map f = step (f t) a) (t : τ) (xs : List α) :
    (xs.foldlM more t).map f = xs.foldlM step (f t) := by
  induction xs generalizing t with
  | nil => rfl
  | cons a xs ih =>
    rw [List.foldlM_cons, List.foldlM_cons, ← h]
    cases more t a with
    | error e => rfl
    | ok t' => exact ih t'

/-- If every step adds to a list in the state, then a run adds what its steps add. -/
theorem foldlM_appends {step : σ → α → Except ε σ} (view : σ → List β) {added : α → List β}
    (h : ∀ s a s', step s a = .ok s' → view s' = view s ++ added a) {s s' : σ} {xs : List α}
    (hrun : xs.foldlM step s = .ok s') : view s' = view s ++ xs.flatMap added := by
  induction xs generalizing s with
  | nil =>
    obtain rfl := Except.ok.inj hrun
    rw [List.flatMap_nil, List.append_nil]
  | cons a xs ih =>
    rw [List.foldlM_cons] at hrun
    obtain ⟨m, hm, hrest⟩ := bind_eq_ok.mp hrun
    rw [ih hrest, h s a m hm, List.flatMap_cons, List.append_assoc]

end Folds

/-- The function or variable that an entry registers in the package at `path`, if it is one. -/
def Registration.symbols (path : String) : Registration → List (SymbolKind × Native)
  | .symbol kind name ty => [(kind, ⟨path, name, ty⟩)]
  | .type _ _ | .const _ _ _ => []

namespace Registry

variable {r r' : Registry} {path name : String} {kind : SymbolKind} {ty : Ty}

/-! ## Views -/

/-- The address and the sort of a symbol of a package. -/
def find? (r : Registry) (path name : String) : Option (Nat × SymbolKind) :=
  (r.package? path).bind (·.find? name)

/-- The address of a symbol of a package, if it is of sort `kind`. -/
def findAs? (r : Registry) (path : String) (kind : SymbolKind) (name : String) : Option Nat :=
  (r.package? path).bind (·.findAs? kind name)

theorem package?_pushNative (n : Native) :
    (r.pushNative n kind).package? path = r.package? path := by
  cases kind <;> rfl

theorem table_pushNative (n : Native) (k : SymbolKind) :
    (r.pushNative n kind).table k = if k = kind then (r.table k).push n else r.table k := by
  cases kind <;> cases k <;> rfl

theorem table_putPackage (p : Package) (k : SymbolKind) : (r.putPackage p).table k = r.table k := by
  cases k <;> rfl

/-- A package that is stored replaces the one of the same path. -/
theorem package?_putPackage (p : Package) :
    (r.putPackage p).package? path = if path = p.path then some p else r.package? path := by
  have hfilter : path ≠ p.path →
      (r.packages.filter (·.1 ≠ p.path)).lookup path = r.packages.lookup path := by
    intro hne
    induction r.packages with
    | nil => rfl
    | cons q rest ih =>
      by_cases hq : q.1 = p.path
      · have hother : (path == q.1) = false := by simp [hq, hne]
        rw [List.filter_cons_of_neg (by simp [hq]), ih, List.lookup_cons, hother]
      · rw [List.filter_cons_of_pos (by simp [hq]), List.lookup_cons, List.lookup_cons, ih]
  unfold package? putPackage
  rw [List.lookup_cons]
  by_cases hpath : path = p.path
  · simp [hpath]
  · simp only [beq_eq_false_iff_ne.mpr hpath, if_neg hpath]
    exact hfilter hpath

/-- Packages stay under their own paths. -/
theorem path_of_putPackage {p q : Package} (h : ∀ path q, r.package? path = some q → q.path = path)
    (hq : (r.putPackage p).package? path = some q) : q.path = path := by
  rw [package?_putPackage] at hq
  split at hq
  · next hpath =>
    obtain rfl := Option.some.inj hq
    exact hpath.symm
  · exact h path q hq

theorem find?_putPackage (p : Package) :
    (r.putPackage p).find? path name =
      if path = p.path then p.find? name else r.find? path name := by
  unfold find?
  rw [package?_putPackage]
  split
  · rfl
  · rfl

/-- A symbol is found by its package, and the tables alone do not make it known. -/
theorem find?_pushNative (n : Native) :
    (r.pushNative n kind).find? path name = r.find? path name := by
  rw [find?, package?_pushNative, find?]

/-- A package that is opened for the first time has no symbols. -/
theorem find?_openPackage : (r.openPackage path).find? name = r.find? path name := by
  unfold find? openPackage package?
  cases r.packages.lookup path with
  | none => rfl
  | some p => rfl

/-- A symbol gets the next address in the table of its kind, and its name leads there from now
on. -/
theorem declare_eq_ok {address : Nat} (h : r.declare path kind name ty = .ok (address, r')) :
    address = (r.table kind).size % 2 ^ 32 ∧
      r' = (r.pushNative ⟨path, name, ty⟩ kind).putPackage
        { r.openPackage path with
          symbols := (name, address, kind) :: (r.openPackage path).symbols } := by
  unfold declare at h
  split at h
  · cases h
  · cases h
    exact ⟨rfl, rfl⟩

/-! ## The log of a registry -/

/-- All functions and variables of a list of packages, in the order of their registration. -/
def symbols (packages : List (String × List Registration)) : List (SymbolKind × Native) :=
  packages.flatMap fun package => package.2.flatMap (Registration.symbols package.1)

/-- A symbol as it was registered, with the address that it got. -/
structure Issue where
  kind : SymbolKind
  native : Native
  address : Nat
  deriving DecidableEq

namespace Issue

def symbol (i : Issue) : SymbolKind × Native := (i.kind, i.native)

/-- Whether the symbol was registered under a name in a package. -/
def names (path name : String) (i : Issue) : Bool :=
  i.native.pkgPath == path && i.native.name == name

end Issue

/-- Adds one entry to the package at `path`, and notes the address if one is handed out. -/
def note (path : String) (s : List Issue × Registry) :
    Registration → Except Fault (List Issue × Registry)
  | .symbol kind name ty => do
    let issued ← s.2.declare path kind name ty
    return (s.1 ++ [⟨kind, ⟨path, name, ty⟩, issued.1⟩], issued.2)
  | entry => do return (s.1, ← s.2.register path entry)

/-- Extends a package, and notes the addresses that are handed out. -/
def noteAll (s : List Issue × Registry) (package : String × List Registration) :
    Except Fault (List Issue × Registry) :=
  package.2.foldlM (note package.1) (s.1, s.2.putPackage (s.2.openPackage package.1))

/-- The registry of a list of packages with the log of all addresses, the oldest first. -/
def logged (packages : List (String × List Registration)) : Except Fault (List Issue × Registry) :=
  packages.foldlM noteAll ([], {})

theorem map_note (s : List Issue × Registry) (entry : Registration) :
    (note path s entry).map (·.2) = s.2.register path entry := by
  cases entry with
  | symbol kind name ty =>
    rw [note, register]
    cases s.2.declare path kind name ty with
    | error f => rfl
    | ok issued => rfl
  | type name ty | const name kind value => rfl

/-- The log does not change what is built. -/
theorem map_logged (packages : List (String × List Registration)) :
    (logged packages).map (·.2) = build packages := by
  apply map_foldlM
  intro s package
  exact map_foldlM map_note _ package.2

/-- The log lists the symbols in the order in which they are registered. -/
theorem symbol_note {s s' : List Issue × Registry} {entry : Registration}
    (h : note path s entry = .ok s') :
    s'.1.map Issue.symbol = s.1.map Issue.symbol ++ entry.symbols path := by
  cases entry with
  | symbol kind name ty =>
    obtain ⟨issued, -, hs'⟩ := bind_eq_ok.mp h
    obtain rfl := Except.ok.inj hs'
    rw [List.map_append]
    rfl
  | type name ty | const name kind value =>
    obtain rfl := Except.ok.inj h
    exact (List.append_nil _).symm

/-- The log lists every function and every variable once, in order. -/
theorem symbol_logged {packages : List (String × List Registration)} {log : List Issue}
    (h : logged packages = .ok (log, r)) : log.map Issue.symbol = symbols packages := by
  refine foldlM_appends (fun s => s.1.map Issue.symbol) ?_ h
  intro s package s' hs'
  exact foldlM_appends (fun s => s.1.map Issue.symbol) (fun _ _ _ => symbol_note) hs'

/-! ## The last registration of a name -/

/-- The last registration of a name in a package. -/
def latest? (path name : String) (log : List Issue) : Option Issue :=
  (log.filter (Issue.names path name)).getLast?

/-- A name that is registered again means the new symbol. -/
theorem latest?_concat (log : List Issue) (i : Issue) :
    latest? path name (log ++ [i]) =
      if i.names path name then some i else latest? path name log := by
  unfold latest?
  rw [List.filter_append]
  by_cases h : i.names path name
  · rw [List.filter_cons_of_pos h, if_pos h, List.filter_nil, List.getLast?_concat]
  · rw [List.filter_cons_of_neg h, if_neg h, List.filter_nil, List.append_nil]

theorem mem_of_latest? {log : List Issue} {i : Issue} (h : latest? path name log = some i) :
    i ∈ log ∧ i.native.pkgPath = path ∧ i.native.name = name := by
  have hmem := List.mem_filter.mp (List.mem_of_getLast? h)
  simpa [Issue.names] using hmem

/-! ## The invariant -/

/-- The registry knows everything in the log. -/
structure Records (log : List Issue) (r : Registry) : Prop where
  known : ∀ i ∈ log, (r.table i.kind)[i.address]? = some i.native
  distinct : log.Pairwise fun i j => i.kind = j.kind → i.address ≠ j.address
  sizes : ∀ k, (r.table k).size ≤ log.length
  paths : ∀ path p, r.package? path = some p → p.path = path
  find : ∀ path name,
    r.find? path name = (latest? path name log).map fun i => (i.address, i.kind)

namespace Records

variable {log : List Issue}

theorem empty : Records [] {} where
  known := by simp
  distinct := .nil
  sizes k := by cases k <;> exact Nat.le_refl 0
  paths _ _ h := nomatch h
  find _ _ := rfl

theorem path_openPackage (h : Records log r) (path : String) :
    (r.openPackage path).path = path := by
  unfold openPackage
  cases hp : r.packages.lookup path with
  | none => rfl
  | some p => exact h.paths path p hp

/-- Every address in the log is one of a table. -/
theorem lt_size (h : Records log r) {i : Issue} (hi : i ∈ log) :
    i.address < (r.table i.kind).size :=
  (Array.getElem?_eq_some_iff.mp (h.known i hi)).1

/-- A package with the same symbols may take the place of the one at its path. -/
theorem putPackage (h : Records log r) {p : Package} (hpath : p.path = path)
    (hsymbols : p.symbols = (r.openPackage path).symbols) : Records log (r.putPackage p) where
  known i hi := by
    rw [table_putPackage]
    exact h.known i hi
  distinct := h.distinct
  sizes k := by
    rw [table_putPackage]
    exact h.sizes k
  paths path' q hq := path_of_putPackage h.paths hq
  find path' name := by
    rw [find?_putPackage, ← h.find]
    split
    · next hpath' =>
      rw [hpath', hpath, ← find?_openPackage, Package.find?, hsymbols, Package.find?]
    · rfl

/-- A new symbol gets a new address, and from now on the name means the new symbol. -/
theorem declare (h : Records log r) (hfew : log.length < 2 ^ 32) {address : Nat}
    (hr' : r.declare path kind name ty = .ok (address, r')) :
    Records (log ++ [⟨kind, ⟨path, name, ty⟩, address⟩]) r' := by
  obtain ⟨haddress, rfl⟩ := declare_eq_ok hr'
  have hsize : (r.table kind).size < 2 ^ 32 := Nat.lt_of_le_of_lt (h.sizes kind) hfew
  rw [Nat.mod_eq_of_lt hsize] at haddress
  subst haddress
  refine ⟨?_, ?_, ?_, ?_, ?_⟩
  · intro i hi
    rw [table_putPackage, table_pushNative]
    rcases List.mem_append.mp hi with hold | hnew
    · have hlt := h.lt_size hold
      split
      · rw [Array.getElem?_push_lt hlt, ← h.known i hold, Array.getElem?_eq_getElem hlt]
      · exact h.known i hold
    · obtain rfl := List.mem_singleton.mp hnew
      rw [if_pos rfl, Array.getElem?_push_size]
  · refine List.pairwise_append.mpr ⟨h.distinct, List.pairwise_singleton _ _, ?_⟩
    intro i hi j hj hkind
    obtain rfl := List.mem_singleton.mp hj
    have hlt := h.lt_size hi
    rw [hkind] at hlt
    exact Nat.ne_of_lt hlt
  · intro k
    have hk := h.sizes k
    rw [table_putPackage, table_pushNative, List.length_append, List.length_singleton]
    split
    · rw [Array.size_push]
      omega
    · omega
  · intro path' q hq
    refine path_of_putPackage ?_ hq
    intro path'' q' hq'
    rw [package?_pushNative] at hq'
    exact h.paths path'' q' hq'
  · intro path' name'
    rw [find?_putPackage, find?_pushNative, latest?_concat, h.path_openPackage]
    by_cases hpath : path' = path
    · subst hpath
      rw [if_pos rfl, Package.find?, List.lookup_cons]
      by_cases hname : name' = name
      · simp [Issue.names, hname]
      · have hother : (name' == name) = false := beq_eq_false_iff_ne.mpr hname
        have hold : (r.openPackage path').symbols.lookup name' = r.find? path' name' :=
          find?_openPackage
        simp only [hother, hold, h.find]
        simp [Issue.names, Ne.symm hname]
    · rw [if_neg hpath, h.find]
      simp [Issue.names, Ne.symm hpath]

end Records

/-- What holds as long as there are few enough symbols for their addresses. -/
def Tracked (s : List Issue × Registry) : Prop := s.1.length < 2 ^ 32 → Records s.1 s.2

/-- By the registration, as each one declares its symbols and logs them. -/
theorem tracked_note {s : List Issue × Registry} (h : Tracked s) (entry : Registration) :
    Ensures Tracked (note path s entry) := by
  intro s' hs' hfew
  cases entry with
  | symbol kind name ty =>
    obtain ⟨issued, hissued, hlast⟩ := bind_eq_ok.mp hs'
    obtain rfl := Except.ok.inj hlast
    have hbefore : s.1.length < 2 ^ 32 := by
      rw [List.length_append] at hfew
      omega
    exact (h hbefore).declare hbefore hissued
  | type name ty | const name kind value =>
    obtain rfl := Except.ok.inj hs'
    exact (h hfew).putPackage ((h hfew).path_openPackage path) rfl

theorem tracked_noteAll {s : List Issue × Registry} (h : Tracked s)
    (package : String × List Registration) : Ensures Tracked (noteAll s package) := by
  refine ensures_foldlM (fun s entry hs => tracked_note hs entry) fun hfew => ?_
  exact (h hfew).putPackage ((h hfew).path_openPackage package.1) rfl

/-- By induction on the packages and on their registrations. -/
theorem tracked_logged (packages : List (String × List Registration)) :
    Ensures Tracked (logged packages) :=
  ensures_foldlM (fun _ package hs => tracked_noteAll hs package) fun _ => Records.empty

/-! ## Finished registries -/

theorem native_of_getElem? {address : Nat} {n : Native} (h : (r.table kind)[address]? = some n) :
    r.native kind address = .ok n := by
  rw [native, h]
  rfl

/-- A name is found under one kind only. -/
theorem findAs?_of_find? {address : Nat} (h : r.find? path name = some (address, kind))
    (k : SymbolKind) : r.findAs? path k name = if k = kind then some address else none := by
  obtain ⟨p, hp, hfind⟩ := Option.bind_eq_some_iff.mp h
  rw [findAs?, hp, Option.bind_some, Package.findAs?, hfind]
  simp only [eq_comm]

/-- What lookups answer, given all addresses that were handed out. -/
structure Answers (log : List Issue) (r : Registry) : Prop where
  /-- A name means its last registration in the package. -/
  find : ∀ path name address kind, r.find? path name = some (address, kind) ↔
    ∃ i, latest? path name log = some i ∧ i.kind = kind ∧ i.address = address
  /-- The table of that sort has this registration at the address. -/
  found : ∀ path name address kind, r.find? path name = some (address, kind) →
    ∃ i, latest? path name log = some i ∧
      r.native kind address = .ok ⟨path, name, i.native.ty⟩
  /-- Of the three searches for one sort, the one for that sort finds it. -/
  findAs : ∀ path name address kind, r.find? path name = some (address, kind) →
    ∀ k, r.findAs? path k name = if k = kind then some address else none
  /-- An address leads to what it was handed out for. -/
  kept : ∀ i ∈ log, r.native i.kind i.address = .ok i.native
  /-- No two registrations of one sort share an address. -/
  distinct : log.Pairwise fun i j => i.kind = j.kind → i.address ≠ j.address

/-- What the registry says about a name is what the log says last. -/
theorem Records.answers {log : List Issue} (h : Records log r) : Answers log r := by
  have hfind : ∀ path name address kind, r.find? path name = some (address, kind) ↔
      ∃ i, latest? path name log = some i ∧ i.kind = kind ∧ i.address = address := by
    intro path name address kind
    rw [h.find, Option.map_eq_some_iff]
    simp only [Prod.mk.injEq, and_comm]
  have hkept : ∀ i ∈ log, r.native i.kind i.address = .ok i.native :=
    fun i hi => native_of_getElem? (h.known i hi)
  refine ⟨hfind, ?_, fun _ _ _ _ => findAs?_of_find?, hkept, h.distinct⟩
  intro path name address kind hsome
  obtain ⟨i, hlatest, rfl, rfl⟩ := (hfind path name address kind).mp hsome
  obtain ⟨hi, rfl, rfl⟩ := mem_of_latest? hlatest
  exact ⟨i, hlatest, hkept i hi⟩

/-- **Lookups are consistent.** Whatever packages are registered, with whatever names, and extended
how often: the log of all addresses lists every function and variable in order, and the registry
answers by it. A package finds a name exactly if it was registered there, as what it was registered
last. The address leads to that registration, and only the search for its sort finds it. All earlier
addresses lead to their own registrations, and those of one sort are distinct. -/
theorem answers_of_build {packages : List (String × List Registration)}
    (h : build packages = .ok r) (hfew : (symbols packages).length < 2 ^ 32) :
    ∃ log, logged packages = .ok (log, r) ∧ log.map Issue.symbol = symbols packages ∧
      Answers log r := by
  rw [← map_logged] at h
  cases hlogged : logged packages with
  | error f =>
    rw [hlogged] at h
    cases h
  | ok s =>
    rw [hlogged] at h
    obtain ⟨log, r'⟩ := s
    obtain rfl : r' = r := Except.ok.inj h
    have hsymbols := symbol_logged hlogged
    rw [← hsymbols, List.length_map] at hfew
    exact ⟨log, rfl, hsymbols, (tracked_logged packages _ hlogged hfew).answers⟩

/-- One name in two packages, and in one of them as three sorts of symbols. -/
def sharedName : List (String × List Registration) :=
  [("fmt",
      [.symbol .func "Print" (.func [] [] false),
        .symbol .variadicFunc "Print" (.func [.slice .interface] [] true)]),
    ("log", [.type "Logger" .interface, .symbol .func "Print" (.func [.interface] [] false)]),
    ("fmt", [.symbol .var "Print" (.basic .string)])]

def sharedNameLog : List Issue :=
  [⟨.func, ⟨"fmt", "Print", .func [] [] false⟩, 0⟩,
    ⟨.variadicFunc, ⟨"fmt", "Print", .func [.slice .interface] [] true⟩, 0⟩,
    ⟨.func, ⟨"log", "Print", .func [.interface] [] false⟩, 1⟩,
    ⟨.var, ⟨"fmt", "Print", .basic .string⟩, 0⟩]

theorem answers_of_sharedName :
    ∃ r, build sharedName = .ok r ∧ (symbols sharedName).length < 2 ^ 32 ∧
      r.find? "fmt" "Print" = some (0, .var) ∧
      r.native .var 0 = .ok ⟨"fmt", "Print", .basic .string⟩ ∧
      r.findAs? "fmt" .func "Print" = none ∧
      r.native .func 0 = .ok ⟨"fmt", "Print", .func [] [] false⟩ := by
  have hlog : ∃ s, logged sharedName = .ok s ∧ s.1 = sharedNameLog :=
    exists_ok_of_toOption (by decide +kernel)
  obtain ⟨⟨log, r⟩, hlogged, rfl⟩ := hlog
  have hbuild : build sharedName = .ok r := by
    rw [← map_logged, hlogged]
    rfl
  obtain ⟨log', hlogged', -, hanswers⟩ := answers_of_build hbuild (by decide)
  obtain rfl : sharedNameLog = log' :=
    congrArg Prod.fst (Except.ok.inj (hlogged.symm.trans hlogged'))
  have hlatest : latest? "fmt" "Print" sharedNameLog =
      some ⟨.var, ⟨"fmt", "Print", .basic .string⟩, 0⟩ := by decide +kernel
  have hfind : r.find? "fmt" "Print" = some (0, .var) :=
    (hanswers.find ..).mpr ⟨_, hlatest, rfl, rfl⟩
  refine ⟨r, hbuild, by decide, hfind, ?_, hanswers.findAs _ _ _ _ hfind .func, ?_⟩
  · exact hanswers.kept _ (mem_of_latest? hlatest).1
  · exact hanswers.kept _ (List.mem_cons_self ..)

end Registry

end Lowering
