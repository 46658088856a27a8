import Mathlib.Logic.Function.Basic
import Pathwise.Proofs.Imports

/-!
# What a run of the tool leaves on the disk

A run writes at most one file, which lies beside the target. It writes nothing if a fault ends the
exploration of the target. The path of the target is cut in four ways, the last time after the file
was opened. So a run can break off with the file begun and not finished: if the path has a slash and
a dot before its first slash, as in `./a/f.py`.

* `Path.locate` — the place that a path names, seen from the root of all files.
* `Tool.locate_testPath` — the test file lies beside the target.
* `Tool.Outcome.leave`, `Tool.Outcome.Whole` — the disk after a run, and a test file that is written
  whole or not at all.
* `Tool.writeTests_whole_iff`, `Tool.test_file_whole_iff` — when it is.
-/

namespace Pathwise

/-! ## Cutting paths -/

theorem Text.pieces_append_sep {sep : Char} (u v : List Char) :
    pieces sep (u ++ sep :: v) = pieces sep u ++ pieces sep v := by
  induction u with
  | nil => simp [pieces]
  | cons c u ih =>
    rw [List.cons_append, pieces, pieces, ih]
    split
    · rfl
    · cases hu : pieces sep u with
      | nil => exact absurd hu (pieces_ne_nil sep u)
      | cons p ps => rfl

/-- The pieces with the separator after each are the whole with the separator after it. -/
theorem Text.flatMap_pieces (sep : Char) (cs : List Char) :
    (pieces sep cs).flatMap (· ++ [sep]) = cs ++ [sep] := by
  induction cs with
  | nil => rfl
  | cons c cs ih =>
    rw [pieces]
    split
    · rename_i hc
      rw [List.flatMap_cons, ih, hc]
      rfl
    · cases hcs : pieces sep cs with
      | nil => exact absurd hcs (pieces_ne_nil sep cs)
      | cons p ps =>
        rw [hcs, List.flatMap_cons] at ih
        rw [List.flatMap_cons, List.cons_append, List.cons_append, ih]
        rfl

namespace Path

variable {a b name path : String}

theorem names_of_notMem (h : '/' ∉ name.toList) : names name = [name] := by
  have hpieces := Text.pieces_append (t := []) h rfl
  rw [List.append_nil] at hpieces
  rw [names, Text.split, hpieces, List.map_singleton, String.ofList_toList]

theorem names_append_slash (a b : String) : names (a ++ "/" ++ b) = names a ++ names b := by
  have htext : (a ++ "/" ++ b).toList = a.toList ++ '/' :: b.toList := by simp
  rw [names, Text.split, htext, Text.pieces_append_sep, List.map_append]
  rfl

/-- A path is a name, or has a last slash. -/
theorem cases_last_slash (path : String) :
    '/' ∉ path.toList ∨ ∃ a b, path = a ++ "/" ++ b ∧ '/' ∉ b.toList := by
  by_cases hmem : '/' ∈ path.toList
  · obtain ⟨us, vs, hsplit, hus⟩ := List.eq_append_cons_of_mem (List.mem_reverse.mpr hmem)
    refine .inr ⟨String.ofList vs.reverse, String.ofList us.reverse, ?_, by simpa using hus⟩
    rw [← String.toList_inj]
    simpa using congrArg List.reverse hsplit
  · exact .inl hmem

theorem names_ne_nil (path : String) : names path ≠ [] := by
  simp [names, Text.split, Text.pieces_ne_nil]

theorem base_append_slash (a : String) (h : '/' ∉ b.toList) : base (a ++ "/" ++ b) = b := by
  rw [base, names_append_slash, names_of_notMem h]
  simp

theorem join_names (a : String) : String.join ((names a).map (· ++ "/")) = a ++ "/" := by
  rw [← String.toList_inj, String.toList_join, String.toList_append, names, Text.split,
    List.map_map, List.flatMap_map]
  simpa using Text.flatMap_pieces '/' a.toList

theorem directory_append_slash (a : String) (h : '/' ∉ b.toList) :
    directory (a ++ "/" ++ b) = trimmed (a ++ "/") := by
  rw [directory, names_append_slash, names_of_notMem h, List.dropLast_concat, join_names]

/-! ## The place that a path names -/

/-- From a place go on to a name. -/
def enter (place : Place) (name : String) : Place :=
  if name = "" ∨ name = "." then place
  else if name = ".." then place.dropLast
  else place ++ [name]

/-- From a place go on along a path. -/
def reach (start : Place) (path : String) : Place := (names path).foldl enter start

/-- The place that a path names, seen from the root of all files. -/
def locate (here path : String) : Place := place (absolute here path)

variable {start : Place}

theorem reach_append_slash (start : Place) (a b : String) :
    reach start (a ++ "/" ++ b) = reach (reach start a) b := by
  rw [reach, names_append_slash, List.foldl_append]
  rfl

theorem reach_slash (start : Place) (a : String) : reach start (a ++ "/") = reach start a := by
  rw [← String.append_empty (s := a ++ "/"), reach_append_slash]
  rfl

theorem reach_name (start : Place) (h : '/' ∉ name.toList) :
    reach start name = enter start name := by
  rw [reach, names_of_notMem h]
  rfl

theorem locate_eq (here path : String) :
    locate here path = reach (if isAbsolute path then [] else place here) path := by
  rw [locate, absolute]
  split
  · rfl
  · exact reach_append_slash [] here path

/-- Slashes at the end lead nowhere. -/
theorem reach_slashes (start : Place) (cs : List Char) (k : Nat) :
    reach start (String.ofList (cs ++ List.replicate k '/')) = reach start (String.ofList cs) := by
  induction k with
  | zero => rw [List.replicate_zero, List.append_nil]
  | succ k ih =>
    have htext : String.ofList (cs ++ List.replicate (k + 1) '/') =
        String.ofList (cs ++ List.replicate k '/') ++ "/" := by
      rw [← String.toList_inj, List.replicate_succ']
      simp
    rw [htext, reach_slash, ih]

/-- What trimming keeps of a path is followed by slashes only. -/
theorem exists_trimmed (path : String) :
    trimmed path = path ∨ ∃ k, (trimmed path).toList ≠ [] ∧
      path = String.ofList ((trimmed path).toList ++ List.replicate k '/') := by
  unfold trimmed
  dsimp only
  split
  · exact .inl rfl
  · rename_i hkept
    rw [String.toList_ofList]
    refine .inr ⟨(path.toList.reverse.takeWhile (· = '/')).length, by simpa using hkept, ?_⟩
    have hslashes : List.replicate (path.toList.reverse.takeWhile (· = '/')).length '/' =
        (path.toList.reverse.takeWhile (· = '/')).reverse := by
      rw [eq_comm, List.eq_replicate_iff]
      refine ⟨by simp, fun c hc => ?_⟩
      simpa using List.mem_takeWhile_imp (List.mem_reverse.mp hc)
    rw [hslashes, ← List.reverse_append, List.takeWhile_append_dropWhile, List.reverse_reverse,
      String.ofList_toList]

theorem toList_trimmed_ne_nil (h : path.toList ≠ []) : (trimmed path).toList ≠ [] := by
  rcases exists_trimmed path with hpath | ⟨k, hne, -⟩
  · rwa [hpath]
  · exact hne

theorem reach_trimmed (start : Place) (path : String) :
    reach start (trimmed path) = reach start path := by
  rcases exists_trimmed path with h | ⟨k, -, h⟩
  · rw [h]
  · conv_rhs => rw [h, reach_slashes, String.ofList_toList]

theorem isAbsolute_trimmed (path : String) : isAbsolute (trimmed path) = isAbsolute path := by
  rcases exists_trimmed path with h | ⟨k, hne, h⟩
  · rw [h]
  · conv_rhs => rw [h, isAbsolute, String.toList_ofList, List.head?_append_of_ne_nil _ hne]
    rfl

/-- A name inside a directory is reached through the directory. -/
theorem reach_join (start : Place) (dir : String) (h : '/' ∉ name.toList) :
    reach start (join dir name) = enter (reach start dir) name := by
  unfold join
  split
  · rename_i hdir
    rcases hdir with rfl | hlast
    · rw [String.empty_append, reach_name start h]
      rfl
    · -- the directory ends in a slash already
      obtain ⟨cs, hcs⟩ := List.getLast?_eq_some_iff.mp hlast
      have hdir : dir = String.ofList cs ++ "/" := by
        rw [← String.toList_inj, hcs]
        simp
      rw [hdir, reach_append_slash, reach_name _ h, reach_slash]
  · rw [reach_append_slash, reach_name _ h]

theorem isAbsolute_append (h : a.toList ≠ []) (b : String) :
    isAbsolute (a ++ b) = isAbsolute a := by
  rw [isAbsolute, String.toList_append, List.head?_append_of_ne_nil _ h]
  rfl

theorem isAbsolute_join {dir : String} (h : dir.toList ≠ []) (name : String) :
    isAbsolute (join dir name) = isAbsolute dir := by
  unfold join
  split
  · exact isAbsolute_append h name
  · rw [String.append_assoc]
    exact isAbsolute_append h _

theorem isAbsolute_of_notMem (h : '/' ∉ name.toList) : isAbsolute name = false := by
  rw [isAbsolute, decide_eq_false_iff_not]
  exact fun hhead => h (List.mem_of_head? hhead)

/-- A name of three characters or more is no mark of directories. -/
theorem enter_name (place : Place) (h : 3 ≤ name.toList.length) :
    enter place name = place ++ [name] := by
  unfold enter
  rw [if_neg, if_neg]
  · rintro rfl
    simp at h
  · rintro (rfl | rfl) <;> simp at h

end Path

namespace Tool

open Pathwise.Path

variable {target : String}

/-- Where the test file of a target belongs: into the directory of the target, under its name with
`test_` in front. -/
def testPlace (here target : String) : Place :=
  (locate here target).dropLast ++ ["test_" ++ base target]

/-- The path of the test file leads to where it belongs. -/
theorem locate_testPath (here : String) (h : isProgram target = true) :
    locate here (testPath target) = testPlace here target := by
  obtain ⟨stem, hstem⟩ := exists_base_of_isProgram h
  have hbase : 3 ≤ (base target).toList.length := by simp [hstem]
  have htest : 3 ≤ ("test_" ++ base target).toList.length := by simp
  rw [testPlace, locate_eq, locate_eq, testPath]
  rcases cases_last_slash target with hname | ⟨a, b, rfl, hb⟩
  · -- both names stand alone, so both are reached from the directory one is in
    have hself : base target = target := by
      rw [base, names_of_notMem hname]
      rfl
    have hdirectory : directory target = "" := by
      rw [directory, names_of_notMem hname]
      rfl
    rw [hself] at hbase htest ⊢
    have hslash : '/' ∉ ("test_" ++ target).toList := by simpa using hname
    have hjoin : join "" ("test_" ++ target) = "test_" ++ target := by
      rw [join, if_pos (.inl rfl), String.empty_append]
    rw [hdirectory, hjoin, isAbsolute_of_notMem hname, isAbsolute_of_notMem hslash,
      reach_name _ hname, reach_name _ hslash, enter_name _ hbase, enter_name _ htest,
      List.dropLast_concat]
  · -- both names are entered from the directory of the target
    have hself : base (a ++ "/" ++ b) = b := base_append_slash a hb
    rw [hself] at hbase htest ⊢
    have hslash : '/' ∉ ("test_" ++ b).toList := by simpa using hb
    have hslashed : (a ++ "/").toList ≠ [] := by simp
    rw [directory_append_slash a hb, isAbsolute_join (toList_trimmed_ne_nil hslashed),
      isAbsolute_trimmed, isAbsolute_append hslashed, reach_join _ _ hslash, reach_trimmed,
      reach_slash, reach_append_slash, reach_name _ hb, enter_name _ hbase, enter_name _ htest,
      List.dropLast_concat]

/-! ## What is written -/

/-- A path of one name is too short to begin with. -/
theorem writeTests_of_name (h : '/' ∉ target.toList) (output : List String)
    (tests : List (String × List Test)) :
    writeTests target output tests = broken output .shortPath := by
  rw [writeTests, names_of_notMem h, if_pos (by simp)]

/-- The first two names of a path with a slash. -/
theorem exists_names_of_mem (h : '/' ∈ target.toList) :
    ∃ second rest, names target =
      String.ofList (target.toList.takeWhile (· ≠ '/')) :: second :: rest := by
  obtain hname | ⟨a, b, hsplit, -⟩ := cases_last_slash target
  · exact absurd h hname
  obtain ⟨first, as, ha⟩ := List.exists_cons_of_ne_nil (names_ne_nil a)
  obtain ⟨second, rest, hrest⟩ := List.exists_cons_of_ne_nil
    (List.append_ne_nil_of_right_ne_nil as (names_ne_nil b))
  have hnames : names target = first :: second :: rest := by
    rw [hsplit, names_append_slash, ha, List.cons_append, hrest]
  have hfirst : (names target).head? =
      some (String.ofList (target.toList.takeWhile (· ≠ '/'))) := by
    rw [names, Text.split, List.head?_map, Text.head?_pieces, Option.map_some]
  rw [hnames, List.head?_cons] at hfirst
  exact ⟨second, rest, by rw [hnames, Option.some.inj hfirst]⟩

/-- A dot before the first slash: the run breaks off when the file is begun. -/
theorem writeTests_of_dot (h : '/' ∈ target.toList)
    (hdot : '.' ∈ target.toList.takeWhile (· ≠ '/')) (output : List String)
    (tests : List (String × List Test)) :
    writeTests target output tests =
      ⟨output, [], .error .shortPath, some (testPath target, TestFile.opening)⟩ := by
  obtain ⟨second, rest, hnames⟩ := exists_names_of_mem h
  have hmodule : moduleName? target = none := by
    rw [moduleName?_eq hnames, if_neg]
    rw [String.toList_ofList, List.all_eq_true]
    intro hall
    simpa using hall '.' hdot
  rw [writeTests, hmodule, hnames, if_neg (by simp)]

/-- No dot before the first slash: the file is written to its end. -/
theorem writeTests_of_plain (h : '/' ∈ target.toList)
    (hdot : '.' ∉ target.toList.takeWhile (· ≠ '/')) :
    ∃ module, moduleName? target = some module ∧ ∀ output tests, writeTests target output tests =
      ⟨output, [], .ok 0, some (testPath target, TestFile.text module tests)⟩ := by
  obtain ⟨second, rest, hnames⟩ := exists_names_of_mem h
  have hmodule : moduleName? target =
      some (String.ofList (second.toList.takeWhile (· ≠ '.'))) := by
    rw [moduleName?_eq hnames, if_pos]
    rw [String.toList_ofList, List.all_eq_true]
    intro c hc
    simpa using fun heq : c = '.' => hdot (heq ▸ hc)
  refine ⟨_, hmodule, fun output tests => ?_⟩
  rw [writeTests, hmodule, hnames, if_neg (by simp)]

/-! ## What is left on the disk -/

/-- The texts of all files, by their places. -/
abbrev Disk := Place → Option String

/-- The disk after a run in the directory `here`. -/
def Outcome.leave (o : Outcome) (here : String) (disk : Disk) : Disk :=
  match o.written with
  | none => disk
  | some (path, text) => Function.update disk (locate here path) (some text)

/-- The test file of a target is written whole or not at all, after exploring the target has found
tests or was ended by a fault. -/
structure Outcome.Whole (o : Outcome) (here target : String)
    (found : Except Fault (List (String × List Test))) (disk : Disk) : Prop where
  /-- A run that breaks off leaves the file as it was, which may be no file. -/
  kept : ∀ cause, o.ending = .error cause →
    o.leave here disk (testPlace here target) = disk (testPlace here target)
  /-- A run that comes to its end has written the header and all test cases. -/
  complete : ∀ code, o.ending = .ok code → ∃ module tests, moduleName? target = some module ∧
    found = .ok tests ∧
    o.leave here disk (testPlace here target) = some (TestFile.text module tests)

section Outcome

variable {o : Outcome} {here : String} {found : Except Fault (List (String × List Test))}
  {disk : Disk}

theorem Outcome.leave_of_written {path text : String} (h : o.written = some (path, text)) :
    o.leave here disk = Function.update disk (locate here path) (some text) := by
  rw [leave, h]

theorem Outcome.whole_iff_of_error {cause : Failure} (h : o.ending = .error cause) :
    o.Whole here target found disk ↔
      o.leave here disk (testPlace here target) = disk (testPlace here target) := by
  constructor
  · intro hwhole
    exact hwhole.kept cause h
  · intro hkept
    refine ⟨fun _ _ => hkept, fun code hcode => ?_⟩
    rw [h] at hcode
    cases hcode

theorem Outcome.whole_iff_of_ok {code : Nat} (h : o.ending = .ok code) :
    o.Whole here target found disk ↔ ∃ module tests, moduleName? target = some module ∧
      found = .ok tests ∧
      o.leave here disk (testPlace here target) = some (TestFile.text module tests) := by
  constructor
  · intro hwhole
    exact hwhole.complete code h
  · intro hcomplete
    refine ⟨fun cause hcause => ?_, fun _ _ => hcomplete⟩
    rw [h] at hcause
    cases hcause

end Outcome

theorem dot_mem_of_isProgram (h : isProgram target = true) : '.' ∈ target.toList :=
  (List.isSuffixOf_iff_suffix.mp h).subset List.mem_cons_self

/-- When the test file is written whole or not at all, once there are tests to write. -/
theorem writeTests_whole_iff (hprogram : isProgram target = true) (here : String)
    (output : List String) (tests : List (String × List Test)) {outcome : Outcome}
    (houtcome : outcome = writeTests target output tests) :
    ((∃ cause, outcome.ending = .error cause) ↔ '.' ∈ target.toList.takeWhile (· ≠ '/')) ∧
    ∀ disk : Disk,
      (∀ place ≠ testPlace here target, outcome.leave here disk place = disk place) ∧
      ('/' ∈ target.toList → '.' ∈ target.toList.takeWhile (· ≠ '/') →
        outcome.leave here disk (testPlace here target) = some TestFile.opening) ∧
      (outcome.Whole here target (.ok tests) disk ↔ '/' ∉ target.toList ∨
        '.' ∉ target.toList.takeWhile (· ≠ '/') ∨
        disk (testPlace here target) = some TestFile.opening) := by
  have hplace := locate_testPath here hprogram
  by_cases hslash : '/' ∈ target.toList
  · by_cases hdot : '.' ∈ target.toList.takeWhile (· ≠ '/')
    · -- the file is begun and not finished
      rw [writeTests_of_dot hslash hdot] at houtcome
      have hending : outcome.ending = .error .shortPath := by rw [houtcome]
      have hwritten : outcome.written = some (testPath target, TestFile.opening) := by
        rw [houtcome]
      refine ⟨⟨fun _ => hdot, fun _ => ⟨_, hending⟩⟩, fun disk => ?_⟩
      rw [Outcome.whole_iff_of_error hending, Outcome.leave_of_written hwritten, hplace,
        Function.update_self]
      refine ⟨fun place hne => Function.update_of_ne hne _ _, fun _ _ => rfl, ?_⟩
      simp only [hslash, hdot, not_true, false_or, eq_comm]
    · -- the file is written to its end
      obtain ⟨module, hmodule, hwrites⟩ := writeTests_of_plain hslash hdot
      rw [hwrites] at houtcome
      have hending : outcome.ending = .ok 0 := by rw [houtcome]
      have hwritten : outcome.written = some (testPath target, TestFile.text module tests) := by
        rw [houtcome]
      refine ⟨by simp only [hending, hdot, reduceCtorEq, exists_false], fun disk => ?_⟩
      rw [Outcome.whole_iff_of_ok hending, Outcome.leave_of_written hwritten, hplace,
        Function.update_self]
      exact ⟨fun place hne => Function.update_of_ne hne _ _, fun _ h => absurd h hdot,
        fun _ => .inr (.inl hdot), fun _ => ⟨module, tests, hmodule, rfl, rfl⟩⟩
  · -- nothing is written, and the whole path counts as standing before a slash
    rw [writeTests_of_name hslash] at houtcome
    have hending : outcome.ending = .error .shortPath := by
      rw [houtcome]
      rfl
    have hleave : ∀ disk, outcome.leave here disk = disk := by
      intro disk
      rw [houtcome]
      rfl
    have hall : target.toList.takeWhile (· ≠ '/') = target.toList := by
      rw [List.takeWhile_eq_self_iff]
      intro c hc
      simpa using fun heq : c = '/' => hslash (heq ▸ hc)
    rw [hall]
    refine ⟨⟨fun _ => dot_mem_of_isProgram hprogram, fun _ => ⟨_, hending⟩⟩, fun disk => ?_⟩
    rw [Outcome.whole_iff_of_error hending, hleave]
    exact ⟨fun _ _ => rfl, fun h => absurd h hslash, fun _ => .inl hslash, fun _ => rfl⟩

variable {solver : Solver} {view : View} {limits : Limits}
  {read : String → Except Path.Obstacle Program} {here : String} {arguments : List String}
  {program : Program} {m : Module}

/--
**When a test file is written whole or not at all.** Let the tool be run on a target that can be
loaded, whatever its functions are. Nothing changes on the disk outside the place beside the target
where its test file belongs. The run breaks off exactly if a fault ends the exploration of the
target or there is a dot before the first slash of the target's path, where a path without a slash
counts as a whole. If a fault ends the exploration, the run breaks off with this fault and nothing
changes at all. If there is a dot and no slash, the run breaks off before the file is opened. If
there is a slash, it is afterwards, and all that the file holds then is its first line. So the file
is written whole or not at all exactly if a fault ends the exploration, or the path has no slash, or
no dot before its first slash, or the file held just that line before.
-/
theorem test_file_whole_iff (hrequest : Request.ofArguments arguments = .explore target)
    (hprogram : isProgram target = true) (hread : read target = .ok program)
    (hload : Module.load limits program = .ok m) :
    let outcome := run solver view limits read here arguments
    let found := (m.exploreAll solver view ⟨[], []⟩).result
    ((∃ cause, outcome.ending = .error cause) ↔
      (∃ fault, found = .error fault) ∨ '.' ∈ target.toList.takeWhile (· ≠ '/')) ∧
    (∀ fault, found = .error fault → outcome.ending = .error (.program fault)) ∧
    ∀ disk : Disk,
      (∀ place ≠ testPlace here target, outcome.leave here disk place = disk place) ∧
      (∀ fault, found = .error fault → outcome.leave here disk = disk) ∧
      (∀ tests, found = .ok tests → '/' ∈ target.toList →
        '.' ∈ target.toList.takeWhile (· ≠ '/') →
        outcome.leave here disk (testPlace here target) = some TestFile.opening) ∧
      (outcome.Whole here target found disk ↔ (∃ fault, found = .error fault) ∨
        '/' ∉ target.toList ∨ '.' ∉ target.toList.takeWhile (· ≠ '/') ∨
        disk (testPlace here target) = some TestFile.opening) := by
  intro outcome found
  have houtcome : outcome = _ := run_of_load hrequest hprogram hread hload
  cases hfound : found with
  | error fault =>
    -- nothing is written
    rw [show (m.exploreAll solver view ⟨[], []⟩).result = _ from hfound] at houtcome
    have hending : outcome.ending = .error (.program fault) := by
      rw [houtcome]
      rfl
    have hleave : ∀ disk, outcome.leave here disk = disk := by
      intro disk
      rw [houtcome]
      rfl
    refine ⟨⟨fun _ => .inl ⟨fault, rfl⟩, fun _ => ⟨_, hending⟩⟩, ?_, fun disk => ?_⟩
    · rintro fault ⟨rfl⟩
      exact hending
    · rw [Outcome.whole_iff_of_error hending, hleave]
      exact ⟨fun _ _ => rfl, fun _ _ => rfl, fun _ h => (by cases h),
        fun _ => .inl ⟨fault, rfl⟩, fun _ => rfl⟩
  | ok tests =>
    rw [show (m.exploreAll solver view ⟨[], []⟩).result = _ from hfound] at houtcome
    obtain ⟨hbreaks, hdisk⟩ := writeTests_whole_iff hprogram here _ tests houtcome
    simp only [reduceCtorEq, exists_false, false_or, false_implies, implies_true, true_and,
      Except.ok.injEq, forall_eq']
    exact ⟨hbreaks, hdisk⟩

end Tool

namespace Sample

/-- One file in a directory. -/
def oneFile : List (Path.Place × Program) := [(["a", "f.py"], idler)]

/-- Two paths to the same file. By the one its test file is written whole, whatever was there
before. By the other it has to hold the first line alone before, since that is what it holds
afterwards. If the file has a function that leaves the program, not even this path changes
anything. -/
theorem one_file_two_paths :
    let plain := Tool.run Solver.standard .exact .standard (Path.read oneFile) "/"
      ["-t", "a/f.py"]
    let dotted := Tool.run Solver.standard .exact .standard (Path.read oneFile) "/"
      ["-t", "./a/f.py"]
    let left := Tool.run Solver.standard .exact .standard
      (Path.read [(["a", "f.py"], leaving)]) "/" ["-t", "./a/f.py"]
    Path.read oneFile "a/f.py" = .ok idler ∧ Path.read oneFile "./a/f.py" = .ok idler ∧
    Module.load .standard idler = .ok idlerModule ∧
    left.ending = .error (.program (.raised "SystemExit" none)) ∧
    Tool.testPlace "/" "a/f.py" = ["a", "test_f.py"] ∧
    Tool.testPlace "/" "./a/f.py" = ["a", "test_f.py"] ∧
    ∀ disk : Tool.Disk, plain.Whole "/" "a/f.py" (.ok [("g", [[]])]) disk ∧
      (dotted.Whole "/" "./a/f.py" (.ok [("g", [[]])]) disk ↔
        disk ["a", "test_f.py"] = some "import pytest\n") ∧ left.leave "/" disk = disk := by
  intro plain dotted left
  have hload : Module.load .standard idler = .ok idlerModule := rfl
  have hplain : Path.read oneFile "a/f.py" = .ok idler := rfl
  have hdotted : Path.read oneFile "./a/f.py" = .ok idler := rfl
  have hplace : Tool.testPlace "/" "./a/f.py" = ["a", "test_f.py"] := rfl
  have hleaves : Module.load .standard leaving = .ok leavingModule := rfl
  have hread : Path.read [(["a", "f.py"], leaving)] "./a/f.py" = .ok leaving := rfl
  have hfault := leaving_result Solver.standard ⟨[], []⟩
  have hending : left.ending = _ :=
    (Tool.test_file_whole_iff rfl rfl hread hleaves).2.1 _ hfault
  have hkept : ∀ disk, left.leave "/" disk = disk := fun disk =>
    ((Tool.test_file_whole_iff rfl rfl hread hleaves).2.2 disk).2.1 _ hfault
  refine ⟨hplain, hdotted, hload, hending, rfl, hplace, fun disk => ⟨?_, ?_, hkept disk⟩⟩
  · have hwhole : plain.Whole "/" "a/f.py" _ disk ↔ _ :=
      ((Tool.test_file_whole_iff rfl rfl hplain hload).2.2 disk).2.2.2
    rw [idler_result] at hwhole
    exact hwhole.mpr (.inr (.inr (.inl (by decide))))
  · have hwhole : dotted.Whole "/" "./a/f.py" _ disk ↔ _ :=
      ((Tool.test_file_whole_iff rfl rfl hdotted hload).2.2 disk).2.2.2
    have hslash : '/' ∈ "./a/f.py".toList := by decide
    have hdot : '.' ∈ "./a/f.py".toList.takeWhile (· ≠ '/') := by decide
    rw [idler_result, hplace] at hwhole
    simp only [hslash, hdot, not_true, false_or, reduceCtorEq, exists_false] at hwhole
    exact hwhole

/-- **A test file can be left half-written.** There is no test file before the run, and the run
breaks off. After it there is one with its first line and nothing else. -/
theorem test_file_torn :
    let outcome := Tool.run Solver.standard .exact .standard (Path.read oneFile) "/"
      ["-t", "./a/f.py"]
    Request.ofArguments ["-t", "./a/f.py"] = .explore "./a/f.py" ∧
    Path.read oneFile "./a/f.py" = .ok idler ∧
    Module.load .standard idler = .ok idlerModule ∧ outcome.ending = .error .shortPath ∧
    Tool.testPlace "/" "./a/f.py" = ["a", "test_f.py"] ∧
    outcome.leave "/" (fun _ => none) ["a", "test_f.py"] = some "import pytest\n" ∧
    ¬ outcome.Whole "/" "./a/f.py" (.ok [("g", [[]])]) (fun _ => none) := by
  intro outcome
  have hload : Module.load .standard idler = .ok idlerModule := rfl
  have houtcome : outcome = _ := Tool.run_of_tests rfl rfl rfl hload idler_result
  have hending : outcome.ending = .error .shortPath := by
    rw [houtcome]
    rfl
  have hleave : outcome.leave "/" (fun _ => none) ["a", "test_f.py"] = some "import pytest\n" := by
    rw [houtcome]
    rfl
  refine ⟨rfl, rfl, hload, hending, rfl, hleave, fun hwhole => ?_⟩
  have hkept := hwhole.kept _ hending
  cases hleave.symm.trans hkept

end Sample

end Pathwise
