import Mathlib.Data.List.TakeWhile
import Pathwise.Proofs.Entries
import Pathwise.Proofs.TestFiles

/-!
# What the calls of a test file reach

A test file takes over the names of a module with `from … import *` and then defines its test
cases. A call in it reaches the function that it was made for if three things agree: the module
that is imported is the target, the import takes over the name of the function, and no test case
has that name.

The first is a matter of the target's path. The imported name is what stands before the first dot in
the second part of the path. That is the name of the target in its directory if the directory is one
name deep and the target has no other dot in its name. In a deeper directory it is the name of a
directory.

* `Tool.moduleName?_eq` — the imported module, read off the path.
* `Module.exports` — the names that an import takes over.
* `TestFile.meaning` — what a name of a test file stands for.
* `Tool.calls_reach_iff` — when calls reach their functions.
-/

namespace Pathwise

/-! ## Parts of paths -/

namespace Text

variable {sep : Char} {p : Char → Bool}

theorem head?_pieces (sep : Char) (cs : List Char) :
    (pieces sep cs).head? = some (cs.takeWhile (· ≠ sep)) := by
  induction cs with
  | nil => rfl
  | cons c cs ih =>
    rw [pieces]
    by_cases hc : c = sep
    · simp [hc]
    · rw [if_neg hc]
      cases hp : pieces sep cs with
      | nil => exact absurd hp (pieces_ne_nil sep cs)
      | cons q qs =>
        rw [hp] at ih
        simpa [hc] using Option.some.inj ih

/-- A text of two pieces or more, cut at the first separator. -/
theorem exists_of_pieces_cons_cons {cs a b : List Char} {bs : List (List Char)}
    (h : pieces sep cs = a :: b :: bs) :
    ∃ rest, cs = a ++ sep :: rest ∧ sep ∉ a ∧ pieces sep rest = b :: bs := by
  induction cs generalizing a with
  | nil => cases h
  | cons c cs ih =>
    rw [pieces] at h
    split at h
    · rename_i hc
      obtain ⟨rfl, hrest⟩ := List.cons.inj h
      exact ⟨cs, by rw [hc]; rfl, List.not_mem_nil, hrest⟩
    · rename_i hc
      cases hp : pieces sep cs with
      | nil => exact absurd hp (pieces_ne_nil sep cs)
      | cons q qs =>
        rw [hp] at h
        obtain ⟨rfl, rfl⟩ := List.cons.inj h
        obtain ⟨rest, rfl, hq, hrest⟩ := ih hp
        exact ⟨rest, rfl, by simpa [Ne.symm hc] using hq, hrest⟩

/-- The second piece of what comes before the first character of some kind. -/
theorem second_pieces_takeWhile (hsep : p sep = true) {cs a b : List Char}
    {bs : List (List Char)} (h : pieces sep cs = a :: b :: bs) :
    (pieces sep (cs.takeWhile p))[1]? = if a.all p then some (b.takeWhile p) else none := by
  obtain ⟨rest, rfl, ha, hrest⟩ := exists_of_pieces_cons_cons h
  have hb : rest.takeWhile (· ≠ sep) = b := by
    have hhead := head?_pieces sep rest
    rw [hrest] at hhead
    exact (Option.some.inj hhead).symm
  split
  · -- the cut comes after the separator: it goes through the second piece or leaves it whole
    rename_i hall
    have hcut : (a ++ sep :: rest).takeWhile p = a ++ sep :: rest.takeWhile p := by
      rw [List.takeWhile_append_of_pos (List.all_eq_true.mp hall), List.takeWhile_cons, if_pos hsep]
    have hpieces : pieces sep (sep :: rest.takeWhile p) = [] :: pieces sep (rest.takeWhile p) := by
      rw [pieces, if_pos rfl]
    rw [hcut, pieces_append ha hpieces, List.getElem?_cons_succ, ← List.head?_eq_getElem?,
      head?_pieces, List.takeWhile_takeWhile]
    simp only [← hb, List.takeWhile_takeWhile, and_comm]
  · -- the cut goes through the first piece, and nothing is left of the second
    rename_i hall
    have hcut : (a ++ sep :: rest).takeWhile p = a.takeWhile p := by
      rw [List.takeWhile_append, if_neg]
      intro hlength
      have hself := (List.takeWhile_prefix p).eq_of_length hlength
      exact hall (List.all_eq_true.mpr (List.takeWhile_eq_self_iff.mp hself))
    have hfree : sep ∉ a.takeWhile p := fun hmem => ha (List.takeWhile_subset p hmem)
    rw [hcut, ← List.append_nil (a.takeWhile p), pieces_append hfree rfl]
    rfl

/-- What follows the last separator goes to the last piece. -/
theorem exists_pieces_append {u v : List Char} (hv : sep ∉ v) :
    ∃ qs q, pieces sep u = qs ++ [q] ∧ pieces sep (u ++ v) = qs ++ [q ++ v] := by
  induction u with
  | nil => exact ⟨[], [], rfl, by simpa using pieces_append (t := []) hv rfl⟩
  | cons c u ih =>
    obtain ⟨qs, q, hu, huv⟩ := ih
    rw [List.cons_append, pieces, pieces, hu, huv]
    -- a separator starts a piece, any other character goes to the first piece
    split
    · exact ⟨[] :: qs, q, rfl, rfl⟩
    · cases qs with
      | nil => exact ⟨[], c :: q, rfl, rfl⟩
      | cons r rs => exact ⟨(c :: r) :: rs, q, rfl, rfl⟩

end Text

namespace Tool

variable {target : String}

/-- The module that is imported is what stands before the first dot in the second name of the
target's path, unless the first name has a dot. -/
theorem moduleName?_eq {first second : String} {rest : List String}
    (h : Path.names target = first :: second :: rest) :
    moduleName? target = if first.toList.all (· ≠ '.')
      then some (String.ofList (second.toList.takeWhile (· ≠ '.'))) else none := by
  obtain ⟨a, as, hpieces, rfl, has⟩ := List.map_eq_cons_iff.mp h
  obtain ⟨b, bs, rfl, rfl, -⟩ := List.map_eq_cons_iff.mp has
  have hhead : (Text.split '.' target).head? =
      some (String.ofList (target.toList.takeWhile (· ≠ '.'))) := by
    rw [Text.split, List.head?_map, Text.head?_pieces, Option.map_some]
  rw [moduleName?, hhead, Option.getD_some, Path.names, Text.split, List.getElem?_map,
    String.toList_ofList, Text.second_pieces_takeWhile (by decide) hpieces, String.toList_ofList,
    String.toList_ofList]
  split <;> rfl

/-- The name of a program in its directory. -/
theorem exists_base_of_isProgram (h : isProgram target = true) :
    ∃ stem, Path.base target = stem ++ ".py" := by
  obtain ⟨u, hu⟩ := List.isSuffixOf_iff_suffix.mp h
  have hending : '/' ∉ ['.', 'p', 'y'] := by decide
  obtain ⟨qs, q, -, hpieces⟩ := Text.exists_pieces_append (u := u) hending
  refine ⟨String.ofList q, ?_⟩
  rw [Path.base, Path.names, Text.split, ← hu, hpieces, List.map_append, List.map_singleton,
    List.getLast?_concat, Option.getD_some, String.ofList_append]

/-- The name before the ending is imported whole if there is no other dot in it. -/
theorem takeWhile_base_iff (stem : String) :
    String.ofList ((stem ++ ".py").toList.takeWhile (· ≠ '.')) = stem ↔ '.' ∉ stem.toList := by
  have hcut : (stem ++ ".py").toList.takeWhile (· ≠ '.') = stem.toList.takeWhile (· ≠ '.') := by
    rw [String.toList_append, List.takeWhile_append]
    split
    · -- nothing of the ending is kept, since it starts with a dot
      rename_i hlength
      rw [(List.takeWhile_prefix _).eq_of_length hlength]
      exact List.append_nil _
    · rfl
  rw [hcut, ← String.toList_inj, String.toList_ofList, List.takeWhile_eq_self_iff]
  constructor
  · intro h hmem
    simpa using h '.' hmem
  · intro h c hc
    simpa using fun heq : c = '.' => h (heq ▸ hc)

end Tool

/-! ## What an import takes over -/

/-- The names that a value lists: a text lists its characters, a tuple of texts these. -/
def Value.listed? : Value → Option (List String)
  | .held (.plain (.str s)) => some (s.toList.map fun c => String.ofList [c])
  | .tuple items => items.mapM fun
    | .held (.plain (.str s)) => some s
    | _ => Option.none
  | _ => Option.none

namespace Module

variable {m : Module} {x : String} {v : Value}

/-- The names that `from … import *` takes over from a module: those that `__all__` lists, and if
there is no such list, those that do not start with an underscore. The import fails if something is
listed that is no name of the module. -/
def exports (m : Module) : Option (List String) :=
  match m.memory.globals.lookup "__all__" with
  | none => some ((m.memory.globals.map Prod.fst).filter fun x => !x.startsWith "_")
  | some v => v.listed?.filter fun names => names.all fun x => (m.memory.globals.lookup x).isSome

/-- An import takes over the name. -/
def Exports (m : Module) (x : String) : Prop := ∃ names, m.exports = some names ∧ x ∈ names

theorem exports_iff_of_unlisted (hlist : m.memory.globals.lookup "__all__" = none)
    (hx : m.memory.globals.lookup x = some v) : m.Exports x ↔ x.startsWith "_" = false := by
  have hmem : x ∈ m.memory.globals.map Prod.fst :=
    List.isSome_lookup_iff_mem_map_fst.mp (Option.isSome_iff_exists.mpr ⟨v, hx⟩)
  unfold Exports exports
  rw [hlist]
  simp [hmem]

end Module

/-! ## What the names of a test file stand for -/

namespace TestFile

/-- The name of a test case. -/
def caseName (number : Nat) : String := "test_case_" ++ decimal number

/-- What a name of a test file stands for. -/
inductive Binding where
  /-- The library that the first line imports. -/
  | library
  /-- What a name of the module of the second line stands for there. -/
  | imported (module : String) (value : Value)
  /-- A test case of the file. -/
  | testCase (number : Nat)

/-- The names that are taken over from a module, with what they stand for. -/
def taken (module : String) (m : Module) (names : List String) : List (String × Binding) :=
  names.filterMap fun x => (m.memory.globals.lookup x).map fun v => (x, .imported module v)

/-- The names of a loaded test file with so many test cases, the last lines first. The modules that
an import finds are those beside the file. -/
def bindings (modules : String → Option Module) (module : String) (count : Nat) :
    Option (List (String × Binding)) := do
  let m ← modules module
  let names ← m.exports
  return (List.range count).map (fun k => (caseName k, .testCase k)) ++ taken module m names ++
    [("pytest", .library)]

/-- What a name of a loaded test file stands for, unless loading fails. -/
def meaning (modules : String → Option Module) (module : String) (count : Nat) (x : String) :
    Option Binding :=
  (bindings modules module count).bind (·.lookup x)

theorem mem_of_lookup {bs : List (String × Binding)} {x : String} {b : Binding}
    (h : bs.lookup x = some b) : (x, b) ∈ bs := by
  obtain ⟨before, after, rfl, -⟩ := List.lookup_eq_some_iff.mp h
  exact List.mem_append_right before List.mem_cons_self

theorem lookup_taken (module : String) (m : Module) (names : List String) (x : String) :
    (taken module m names).lookup x =
      if x ∈ names then (m.memory.globals.lookup x).map (.imported module) else none := by
  induction names with
  | nil => rfl
  | cons y names ih =>
    have hcons : taken module m (y :: names) =
        ((m.memory.globals.lookup y).map fun v => (y, Binding.imported module v)).toList ++
          taken module m names := by
      unfold taken
      rw [List.filterMap_cons]
      cases m.memory.globals.lookup y <;> rfl
    rw [hcons, List.lookup_append, ih]
    by_cases hxy : x = y
    · subst hxy
      cases m.memory.globals.lookup x <;> simp
    · have hbeq : (x == y) = false := by simpa using hxy
      cases m.memory.globals.lookup y <;> simp [List.lookup_cons, hbeq, hxy]

theorem lookup_cases {count : Nat} {x : String} :
    ((List.range count).map fun k => (caseName k, Binding.testCase k)).lookup x = none ↔
      ∀ k < count, x ≠ caseName k := by
  simp [List.lookup_eq_none_iff]

theorem meaning_of_exports {modules : String → Option Module} {module : String} {m : Module}
    {names : List String} (hm : modules module = some m) (hnames : m.exports = some names)
    (count : Nat) (x : String) :
    meaning modules module count x =
      (((List.range count).map fun k => (caseName k, Binding.testCase k)).lookup x).or
        (((taken module m names).lookup x).or ([("pytest", Binding.library)].lookup x)) := by
  unfold meaning bindings
  rw [hm, Option.bind_eq_bind, Option.bind_some, hnames, Option.bind_eq_bind, Option.bind_some]
  show List.lookup x (_ ++ _ ++ _) = _
  rw [List.lookup_append, List.lookup_append, Option.or_assoc]

/-- A name stands for what the module `stem` has under it exactly if that module is imported, its
name is taken over, and there is no test case of that name. -/
theorem meaning_eq_imported_iff {modules : String → Option Module} {stem : String} {m : Module}
    (hm : modules stem = some m) {x : String} {v : Value}
    (hx : m.memory.globals.lookup x = some v) (module : String) (count : Nat) :
    meaning modules module count x = some (.imported stem v) ↔
      module = stem ∧ m.Exports x ∧ ∀ k < count, x ≠ caseName k := by
  constructor
  · intro h
    obtain ⟨bs, hbs, -⟩ := Option.bind_eq_some_iff.mp h
    obtain ⟨m', hm', hbs⟩ := Option.bind_eq_some_iff.mp hbs
    obtain ⟨names, hnames, -⟩ := Option.bind_eq_some_iff.mp hbs
    rw [meaning_of_exports hm' hnames] at h
    -- only the second line can give the name this meaning
    rcases Option.or_eq_some_iff.mp h with hcase | ⟨hcase, h⟩
    · obtain ⟨k, -, heq⟩ := List.mem_map.mp (mem_of_lookup hcase)
      cases heq
    rcases Option.or_eq_some_iff.mp h with htaken | ⟨-, hlibrary⟩
    · rw [lookup_taken] at htaken
      split at htaken
      · rename_i hmem
        obtain ⟨w, -, heq⟩ := Option.map_eq_some_iff.mp htaken
        obtain ⟨rfl, -⟩ := Binding.imported.inj heq
        obtain rfl := Option.some.inj (hm'.symm.trans hm)
        exact ⟨rfl, ⟨names, hnames, hmem⟩, lookup_cases.mp hcase⟩
      · cases htaken
    · obtain heq := List.mem_singleton.mp (mem_of_lookup hlibrary)
      cases heq
  · rintro ⟨rfl, ⟨names, hnames, hmem⟩, hcase⟩
    rw [meaning_of_exports hm hnames, lookup_cases.mpr hcase, lookup_taken, if_pos hmem, hx]
    rfl

end TestFile

/-! ## When calls reach their functions -/

namespace Module

variable {m : Module} {solver : Solver} {view : View} {trail : Trail}

theorem mem_of_mem_visitsFrom {rest : List (String × Nat)} {v : Visit}
    (hv : v ∈ visitsFrom solver rest m trail) : (v.name, v.index) ∈ rest := by
  induction rest generalizing m trail with
  | nil => cases hv
  | cons e rest ih =>
    obtain ⟨name, index⟩ := e
    rw [visitsFrom, List.mem_cons] at hv
    rcases hv with rfl | hv
    · exact List.mem_cons_self
    · split at hv
      · cases hv
      · exact List.mem_cons_of_mem _ (ih hv)

/-- A survey has tests of functions only, under their names. -/
theorem exists_function_of_mem_calls (hm : m.Distinct) {entries : List (String × List Test)}
    (hok : (m.exploreAll solver view trail).result = .ok entries) {name : String} {test : Test}
    (h : (name, test) ∈ TestFile.calls entries) :
    ∃ index, m.memory.globals.lookup name = some (.function index) := by
  obtain ⟨tests, hentry, -⟩ := TestFile.mem_calls.mp h
  rw [← (Survey.result_eq_ok_iff.mp hok).2, exploreAll_eq] at hentry
  obtain ⟨v, hv, hentry⟩ := List.mem_flatMap.mp hentry
  -- the entries of a visit stand under the name that is visited
  have hname : name = v.name := by
    unfold Visit.tests at hentry
    split at hentry
    · exact (Prod.mk.inj (List.mem_singleton.mp hentry)).1
    · cases hentry
  exact ⟨v.index, hname ▸ ((mem_visited hm).mp (mem_of_mem_visitsFrom hv)).2⟩

end Module

namespace Tool

variable {solver : Solver} {view : View} {limits : Limits}
  {read : String → Except Path.Obstacle Program} {here target : String} {arguments : List String}
  {program : Program} {m : Module}

/-- What a run on a target that can be loaded comes to. -/
theorem run_of_load (hrequest : Request.ofArguments arguments = .explore target)
    (hprogram : isProgram target = true) (hread : read target = .ok program)
    (hload : Module.load limits program = .ok m) :
    run solver view limits read here arguments =
      match (m.exploreAll solver view ⟨[], []⟩).result with
      | .error cause => broken (m.exploreAll solver view ⟨[], []⟩).output (.program cause)
      | .ok tests => writeTests target (m.exploreAll solver view ⟨[], []⟩).output tests := by
  rw [run, hrequest]
  simp only [exploreTarget, hprogram, hread, hload]
  rfl

theorem run_of_tests (hrequest : Request.ofArguments arguments = .explore target)
    (hprogram : isProgram target = true) (hread : read target = .ok program)
    (hload : Module.load limits program = .ok m) {tests : List (String × List Test)}
    (hok : (m.exploreAll solver view ⟨[], []⟩).result = .ok tests) :
    run solver view limits read here arguments =
      writeTests target (m.exploreAll solver view ⟨[], []⟩).output tests := by
  rw [run_of_load hrequest hprogram hread hload, hok]

/-- What a run that ends well has read and written. -/
theorem run_of_done (hrequest : Request.ofArguments arguments = .explore target)
    (h : (run solver view limits read here arguments).ending = .ok 0) :
    isProgram target = true ∧ ∃ program m tests, read target = .ok program ∧
      Module.load limits program = .ok m ∧
      (m.exploreAll solver view ⟨[], []⟩).result = .ok tests ∧
      run solver view limits read here arguments =
        writeTests target (m.exploreAll solver view ⟨[], []⟩).output tests := by
  have hrun : run solver view limits read here arguments =
      exploreTarget solver view limits read here target := by rw [run, hrequest]
  rw [hrun, exploreTarget] at h
  -- whatever stands between the request and the writing breaks off a run that it fails
  cases hprogram : isProgram target with
  | false =>
    rw [hprogram] at h
    cases h
  | true =>
    simp only [hprogram, Bool.not_true, Bool.false_eq_true, if_false] at h
    cases hread : read target with
    | error cause =>
      rw [hread] at h
      cases h
    | ok program =>
      simp only [hread] at h
      cases hload : Module.load limits program with
      | error cause =>
        rw [hload] at h
        cases h
      | ok m =>
        simp only [hload] at h
        cases hsurvey : (m.exploreAll solver view ⟨[], []⟩).result with
        | error cause =>
          rw [hsurvey] at h
          cases h
        | ok tests =>
          exact ⟨rfl, program, m, tests, rfl, hload, hsurvey,
            run_of_tests hrequest hprogram hread hload hsurvey⟩

/--
**When calls reach their functions.** Let the tool be run on a target and end well. Then it has read
a program from a path of two names or more, which ends in `stem.py`, and has written a test file
beside it. What the file imports is the part of the path's second name before the first dot; if the
target lies one directory deep, this is `stem` unless `stem` has a dot itself. Every name that a
test case calls stands for a function in the target. Wherever the target can be imported as `stem`,
the name stands for that function in the test file, too, exactly if

* the module that is imported is `stem`,
* the import takes over the name, which without a list `__all__` means that it does not start with
  an underscore, and
* no test case has the name.
-/
theorem calls_reach_iff (hrequest : Request.ofArguments arguments = .explore target)
    (hdone : (run solver view limits read here arguments).ending = .ok 0) :
    ∃ program m tests, read target = .ok program ∧ Module.load limits program = .ok m ∧
      (m.exploreAll solver view ⟨[], []⟩).result = .ok tests ∧
    ∃ first second rest stem module, Path.names target = first :: second :: rest ∧
      Path.base target = stem ++ ".py" ∧
      module = String.ofList (second.toList.takeWhile (· ≠ '.')) ∧
      (rest = [] → (module = stem ↔ '.' ∉ stem.toList)) ∧
      (run solver view limits read here arguments).written =
        some (testPath target, TestFile.text module tests) ∧
    ∀ (k : Nat) name test, (TestFile.calls tests)[k]? = some (name, test) →
      ∃ index, m.memory.globals.lookup name = some (.function index) ∧
        (m.memory.globals.lookup "__all__" = none →
          (m.Exports name ↔ name.startsWith "_" = false)) ∧
        ∀ modules : String → Option Module, modules stem = some m →
          (TestFile.meaning modules module (TestFile.calls tests).length name =
              some (.imported stem (.function index)) ↔
            module = stem ∧ m.Exports name ∧
              ∀ j < (TestFile.calls tests).length, name ≠ TestFile.caseName j) := by
  obtain ⟨hprogram, program, m, tests, hread, hload, hsurvey, hwrites⟩ :=
    run_of_done hrequest hdone
  rw [hwrites] at hdone ⊢
  obtain ⟨hlength, module, hmodule, hwritten⟩ := written_of_done hdone
  obtain ⟨stem, hstem⟩ := exists_base_of_isProgram hprogram
  obtain ⟨first, second, rest, hnames⟩ :
      ∃ first second rest, Path.names target = first :: second :: rest := by
    match hnames : Path.names target, hlength with
    | first :: second :: rest, _ => exact ⟨first, second, rest, rfl⟩
  have hcut : module = String.ofList (second.toList.takeWhile (· ≠ '.')) := by
    rw [moduleName?_eq hnames] at hmodule
    split at hmodule
    · exact (Option.some.inj hmodule).symm
    · cases hmodule
  refine ⟨program, m, tests, hread, hload, hsurvey, first, second, rest, stem, module, hnames,
    hstem, hcut, ?_, hwritten _ _, ?_⟩
  · -- one directory deep, the second name is the last one
    rintro rfl
    have hsecond : second = stem ++ ".py" := by
      rw [← hstem, Path.base, hnames]
      rfl
    rw [hcut, hsecond]
    exact takeWhile_base_iff stem
  · intro k name test hcall
    obtain ⟨index, hname⟩ := Module.exists_function_of_mem_calls (Module.load_distinct hload)
      hsurvey (List.mem_of_getElem? hcall)
    exact ⟨index, hname, fun hlist => Module.exports_iff_of_unlisted hlist hname,
      fun modules hm => TestFile.meaning_eq_imported_iff hm hname module _⟩

end Tool

/-! ## Samples -/

/-- A function without parameters whose run asks nothing and returns has the empty test. -/
theorem Module.testsOf_of_done {m : Module} {i : Nat} {f : Function} {output : List String}
    (hf : m.function? i = some f) (hparams : f.paramNames = [])
    (hrun : m.target i [] [] m.memory = .done ⟨m.memory, output, none⟩) :
    m.testsOf Solver.standard i = some [[]] := by
  have henc : f.paramNames.forM encodable = .ok () := by
    rw [hparams]
    rfl
  rw [testsOf_eq_some, exploreFunction_eq hf henc, hparams]
  show (exploreFrom Solver.standard [] (m.target i [] []) (32767 + 1) [] m.memory).result = _
  unfold exploreFrom
  rw [hrun]
  rfl

/-- A survey of functions that all have the same tests. -/
theorem Module.exploreAll_of_testsOf {m : Module} {solver : Solver} {trail : Trail}
    {tests : List Test} (hm : m.globalFree = true)
    (h : ∀ e ∈ m.visited, m.testsOf solver e.2 = some tests) :
    (m.exploreAll solver .exact trail).result = .ok (m.visited.map fun e => (e.1, tests)) := by
  have hend : (m.exploreAll solver .exact trail).escape = none := by
    rw [exploreAll_escape hm, List.findSome?_eq_none_iff]
    intro e he
    rw [escapeOf, testsOf_eq_some.mp (h e he)]
    rfl
  refine Survey.result_eq_ok_iff.mpr ⟨hend, ?_⟩
  rw [exploreAll_tests hm hend, ← List.filterMap_eq_map]
  exact List.filterMap_congr fun e he => by rw [h e he]; rfl

namespace Sample

/-- A function that does nothing. -/
def idle (line : Nat) (name : String) : Definition := define line name [] [(line + 1, .pass)]

/-- A function with a plain name, one with a name that is not taken over, and one with the name of a
test case. -/
def idlers : Program := moduleOf [idle 1 "g", idle 3 "_g", idle 5 "test_case_0"]

abbrev idlersModule : Module := loaded idlers ["g", "_g", "test_case_0"]

/-- The tests of the sample. -/
def idlersTests : List (String × List Test) := [("_g", [[]]), ("g", [[]]), ("test_case_0", [[]])]

theorem idlers_result :
    (idlersModule.exploreAll Solver.standard .exact ⟨[], []⟩).result = .ok idlersTests := by
  have hmembers : idlersModule.members = [("_g", 1), ("g", 0), ("test_case_0", 2)] := by
    show List.mergeSort [("g", 0), ("_g", 1), ("test_case_0", 2)] _ = _
    simp [List.mergeSort]
  have hvisited : idlersModule.visited = [("_g", 1), ("g", 0), ("test_case_0", 2)] := by
    rw [Module.visited, hmembers]
    simp
  have h₀ : idlersModule.testsOf Solver.standard 0 = _ := Module.testsOf_of_done rfl rfl rfl
  have h₁ : idlersModule.testsOf Solver.standard 1 = _ := Module.testsOf_of_done rfl rfl rfl
  have h₂ : idlersModule.testsOf Solver.standard 2 = _ := Module.testsOf_of_done rfl rfl rfl
  have hall : ∀ e ∈ idlersModule.visited,
      idlersModule.testsOf Solver.standard e.2 = some [[]] := by
    rw [hvisited]
    simp [h₀, h₁, h₂]
  rw [Module.exploreAll_of_testsOf rfl hall, hvisited]
  rfl

/-- A target one directory deep. The call of the function with a plain name reaches it, the other
two calls do not reach their functions. -/
theorem idlers_calls_reach :
    let outcome := Tool.run Solver.standard .exact .standard
      (Path.read [(["d", "f.py"], idlers)]) "/" ["-t", "d/f.py"]
    Request.ofArguments ["-t", "d/f.py"] = .explore "d/f.py" ∧ outcome.ending = .ok 0 ∧
    Module.load .standard idlers = .ok idlersModule ∧
    (idlersModule.exploreAll Solver.standard .exact ⟨[], []⟩).result = .ok idlersTests ∧
    TestFile.calls idlersTests = [("_g", []), ("g", []), ("test_case_0", [])] ∧
    ∀ modules : String → Option Module, modules "f" = some idlersModule →
      TestFile.meaning modules "f" 3 "_g" ≠ some (.imported "f" (.function 1)) ∧
      TestFile.meaning modules "f" 3 "g" = some (.imported "f" (.function 0)) ∧
      TestFile.meaning modules "f" 3 "test_case_0" ≠ some (.imported "f" (.function 2)) := by
  have hrequest : Request.ofArguments ["-t", "d/f.py"] = .explore "d/f.py" := rfl
  have hload : Module.load .standard idlers = .ok idlersModule := rfl
  have hdone : (Tool.run Solver.standard .exact .standard
      (Path.read [(["d", "f.py"], idlers)]) "/" ["-t", "d/f.py"]).ending = .ok 0 := by
    rw [Tool.run_of_tests hrequest rfl rfl hload idlers_result]
    rfl
  obtain ⟨program, m, tests, hread, hm, hsurvey, first, second, rest, stem, module, hnames, hstem,
    rfl, -, -, hreach⟩ := Tool.calls_reach_iff hrequest hdone
  obtain rfl : idlers = program := Except.ok.inj hread
  obtain rfl : idlersModule = m := Except.ok.inj hm
  obtain rfl : idlersTests = tests := Except.ok.inj (idlers_result.symm.trans hsurvey)
  have hparts : ["d", "f.py"] = first :: second :: rest := hnames
  obtain rfl : "f.py" = second := (List.cons.inj (List.cons.inj hparts).2).1
  obtain rfl : "f" = stem := (String.append_left_inj ".py").mp hstem
  refine ⟨hrequest, hdone, hload, idlers_result, rfl, fun modules hmodules => ⟨?_, ?_, ?_⟩⟩
  · obtain ⟨index, hindex, hexports, hiff⟩ := hreach 0 "_g" [] rfl
    obtain rfl : 1 = index := Value.function.inj (Option.some.inj hindex)
    intro hmeaning
    obtain ⟨-, hexported, -⟩ := (hiff modules hmodules).mp hmeaning
    exact absurd ((hexports rfl).mp hexported) (by decide +kernel)
  · obtain ⟨index, hindex, hexports, hiff⟩ := hreach 1 "g" [] rfl
    obtain rfl : 0 = index := Value.function.inj (Option.some.inj hindex)
    exact (hiff modules hmodules).mpr
      ⟨rfl, (hexports rfl).mpr (by decide +kernel), by decide +kernel⟩
  · obtain ⟨index, hindex, -, hiff⟩ := hreach 2 "test_case_0" [] rfl
    obtain rfl : 2 = index := Value.function.inj (Option.some.inj hindex)
    intro hmeaning
    obtain ⟨-, -, hcases⟩ := (hiff modules hmodules).mp hmeaning
    exact hcases 0 (by decide) rfl

/-- The first of these functions alone. -/
def idler : Program := moduleOf [idle 1 "g"]

abbrev idlerModule : Module := loaded idler ["g"]

theorem idler_result :
    (idlerModule.exploreAll Solver.standard .exact ⟨[], []⟩).result = .ok [("g", [[]])] := by
  have hmembers : idlerModule.members = [("g", 0)] := List.mergeSort_singleton _
  have hvisited : idlerModule.visited = [("g", 0)] := by
    rw [Module.visited, hmembers]
    simp
  have htests : idlerModule.testsOf Solver.standard 0 = _ := Module.testsOf_of_done rfl rfl rfl
  have hall : ∀ e ∈ idlerModule.visited, idlerModule.testsOf Solver.standard e.2 = some [[]] := by
    rw [hvisited]
    simp [htests]
  rw [Module.exploreAll_of_testsOf rfl hall, hvisited]
  rfl

/-- **Not every call reaches its function.** The test file of a target two directories deep imports
the inner directory. Its call does not reach the target, whatever modules there are. -/
theorem deep_target_missed :
    let outcome := Tool.run Solver.standard .exact .standard
      (Path.read [(["a", "b", "f.py"], idler)]) "/" ["-t", "a/b/f.py"]
    outcome.ending = .ok 0 ∧ Module.load .standard idler = .ok idlerModule ∧
    (idlerModule.exploreAll Solver.standard .exact ⟨[], []⟩).result = .ok [("g", [[]])] ∧
    outcome.written = some ("a/b/test_f.py", TestFile.text "b" [("g", [[]])]) ∧
    TestFile.text "b" [("g", [[]])] =
      "import pytest\nfrom b import *\n \ndef test_case_0(): \n  g()" ∧
    Path.base "a/b/f.py" = "f" ++ ".py" ∧
    idlerModule.memory.globals.lookup "g" = some (.function 0) ∧
    ∀ modules : String → Option Module, modules "f" = some idlerModule →
      TestFile.meaning modules "b" 1 "g" ≠ some (.imported "f" (.function 0)) := by
  intro outcome
  have hload : Module.load .standard idler = .ok idlerModule := rfl
  have houtcome : outcome = _ := Tool.run_of_tests rfl rfl rfl hload idler_result
  refine ⟨?_, hload, idler_result, ?_, by decide +kernel, rfl, rfl, ?_⟩
  · rw [houtcome]
    rfl
  · rw [houtcome]
    rfl
  · intro modules hmodules hmeaning
    obtain ⟨himport, -⟩ :=
      (TestFile.meaning_eq_imported_iff hmodules (x := "g") rfl "b" 1).mp hmeaning
    exact absurd himport (by decide)

end Sample

end Pathwise
