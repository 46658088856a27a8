import Pathwise.Command.Tool
import Pathwise.Proofs.Calls
import Pathwise.Text.Numeral

/-!
# Reading test files

A test file is plain text with no marks of quotation, yet nothing of the tests is lost in it. The
marks that separate its parts, the line break, the parentheses, the comma and the blank, occur
neither in the names of functions and parameters nor in integers, so that cutting at them gives the
parts back.

* `Text.pieces_intercalate` — cutting at a mark undoes joining with it.
* `Text.integer?_decimal` — what is written as a decimal is read as the same integer.
* `TestFile.cases?` — a reader of the test cases of a file, `TestFile.read?` one of its tests.
* `Tool.tests_recovered` — the file that is written for tests is read as these tests.
-/

namespace Pathwise

/-! ## Cutting and joining -/

namespace Text

variable {sep : Char}

/-- What stands before the first separator goes to the first piece. -/
theorem pieces_append {cs t : List Char} (hcs : sep ∉ cs) {p : List Char} {ps : List (List Char)}
    (ht : pieces sep t = p :: ps) : pieces sep (cs ++ t) = (cs ++ p) :: ps := by
  induction cs with
  | nil => exact ht
  | cons c cs ih =>
    obtain ⟨hc, hcs⟩ := not_or.mp (mt List.mem_cons.mpr hcs)
    rw [List.cons_append, pieces, if_neg (Ne.symm hc), ih hcs]
    rfl

/-- Pieces that each follow a separator. -/
theorem pieces_flatMap {ls : List (List Char)} (h : ∀ l ∈ ls, sep ∉ l) :
    pieces sep (ls.flatMap (sep :: ·)) = [] :: ls := by
  induction ls with
  | nil => rfl
  | cons l ls ih =>
    obtain ⟨hl, hls⟩ := List.forall_mem_cons.mp h
    rw [List.flatMap_cons, List.cons_append, pieces, if_pos rfl, pieces_append hl (ih hls),
      List.append_nil]

theorem intercalate_cons_eq (l : List Char) (ls : List (List Char)) :
    [sep].intercalate (l :: ls) = l ++ ls.flatMap (sep :: ·) := by
  induction ls generalizing l with
  | nil => simp
  | cons l' ls ih =>
    rw [List.intercalate_cons_cons, ih, List.flatMap_cons]
    simp

/-- Cutting at a separator undoes joining with it. -/
theorem pieces_intercalate {l : List Char} {ls : List (List Char)} (h : ∀ x ∈ l :: ls, sep ∉ x) :
    pieces sep ([sep].intercalate (l :: ls)) = l :: ls := by
  obtain ⟨hl, hls⟩ := List.forall_mem_cons.mp h
  rw [intercalate_cons_eq, pieces_append hl (pieces_flatMap hls), List.append_nil]

/-! ## Decimals -/

/-- What holds of the ten digits holds of a character that is a digit. -/
theorem forall_isDigit {P : Char → Prop} (h : ∀ n, 48 ≤ n → n ≤ 57 → P (Char.ofNat n)) {c : Char}
    (hc : c.isDigit = true) : P c := by
  obtain ⟨hlow, hhigh⟩ := Char.isDigit_iff_toNat.mp hc
  exact Char.ofNat_toNat c ▸ h c.toNat hlow hhigh

/-- Characters that stand in decimals. -/
def isDecimal (c : Char) : Bool := c = '-' || c.isDigit

theorem readDigits_of_digits {cs : List Char} (hcs : ∀ c ∈ cs, c.isDigit = true) (value : Nat) :
    readDigits 10 value true cs = some (Nat.ofDigitChars 10 cs value) := by
  induction cs generalizing value with
  | nil => rfl
  | cons c cs ih =>
    obtain ⟨hc, hcs⟩ := List.forall_mem_cons.mp hcs
    have hdigit : c ≠ '_' ∧ digitValue? c = some (c.toNat - '0'.toNat) ∧
        c.toNat - '0'.toNat < 10 := by
      refine forall_isDigit (P := fun c => c ≠ '_' ∧ digitValue? c = some (c.toNat - '0'.toNat) ∧
        c.toNat - '0'.toNat < 10) ?_ hc
      decide
    obtain ⟨hmark, hvalue, hlt⟩ := hdigit
    rw [readDigits, if_neg hmark, hvalue]
    dsimp only
    rw [if_pos hlt, ih hcs, Nat.mul_comm]
    rfl

/-- Digits are read as the number they denote. -/
theorem readUnsigned_of_digits {cs : List Char} (hne : cs ≠ [])
    (hcs : ∀ c ∈ cs, c.isDigit = true) : readUnsigned 10 cs = some (Nat.ofDigitChars 10 cs 0) := by
  have hread : readDigits 10 0 false cs = some (Nat.ofDigitChars 10 cs 0) := by
    cases cs with
    | nil => exact absurd rfl hne
    | cons c cs =>
      have hmark : c ≠ '_' := by
        refine forall_isDigit (P := (· ≠ '_')) ?_ (hcs c List.mem_cons_self)
        decide
      rw [← readDigits_of_digits hcs, readDigits, readDigits, if_neg hmark, if_neg hmark]
  unfold readUnsigned
  dsimp only
  rw [if_neg (by decide), hread]
  -- a digit is no mark of a base
  split
  · rename_i c rest
    have hbase : markedBase? c = none := by
      refine forall_isDigit (P := (markedBase? · = none)) ?_
        (hcs c (List.mem_cons_of_mem _ List.mem_cons_self))
      decide
    rw [hbase]
  · rfl

theorem isDigit_repr (n : Nat) : ∀ c ∈ n.repr.toList, c.isDigit = true := by
  rw [Nat.toList_repr]
  intro c hc
  exact Nat.isDigit_of_mem_toDigits (by decide) (Nat.le_refl 10) hc

/-- What a decimal is made of. -/
theorem isDecimal_decimal (n : Int) : ∀ c ∈ (decimal n).toList, isDecimal c = true := by
  have hdigit : ∀ {c : Char}, c.isDigit = true → isDecimal c = true := fun hc => by
    rw [isDecimal, hc, Bool.or_true]
  cases n with
  | ofNat n => exact fun c hc => hdigit (isDigit_repr n c hc)
  | negSucc n =>
    intro c hc
    have hsign : (decimal (.negSucc n)).toList = '-' :: (n + 1).repr.toList :=
      String.toList_append
    rw [hsign] at hc
    rcases List.mem_cons.mp hc with rfl | hc
    · decide
    · exact hdigit (isDigit_repr _ c hc)

/-- Nothing is trimmed where there are no blanks. -/
theorem trimmed_of_forall {cs : List Char} (h : ∀ c ∈ cs, isBlank c = false) :
    trimmed cs = cs := by
  have hdrop : ∀ ds : List Char, (∀ c ∈ ds, isBlank c = false) → ds.dropWhile isBlank = ds := by
    intro ds hds
    cases ds with
    | nil => rfl
    | cons d ds => exact List.dropWhile_cons_of_neg (by simp [hds d List.mem_cons_self])
  rw [trimmed, hdrop cs h, hdrop _ fun c hc => h c (List.mem_reverse.mp hc), List.reverse_reverse]

theorem readUnsigned_repr (n : Nat) : readUnsigned 10 n.repr.toList = some n := by
  have hdigits := isDigit_repr n
  rw [Nat.toList_repr] at hdigits ⊢
  rw [readUnsigned_of_digits Nat.toDigits_ne_nil hdigits,
    Nat.ofDigitChars_toDigits (by decide) (Nat.le_refl 10)]

/-- A decimal is read as the integer it was written for. -/
theorem integer?_decimal (n : Int) : integer? 10 (decimal n) = some n := by
  have hblank : ∀ c ∈ (decimal n).toList, isBlank c = false := by
    intro c hc
    rcases Bool.or_eq_true_iff.mp (isDecimal_decimal n c hc) with hsign | hdigit
    · obtain rfl := of_decide_eq_true hsign
      decide
    · refine forall_isDigit (P := (isBlank · = false)) ?_ hdigit
      decide
  rw [integer?, trimmed_of_forall hblank]
  cases n with
  | negSucc n =>
    have hsign : (decimal (.negSucc n)).toList = '-' :: (n + 1).repr.toList :=
      String.toList_append
    rw [hsign]
    show (readUnsigned 10 (n + 1).repr.toList >>= fun m => pure (m : Int)).map (- ·) = _
    rw [readUnsigned_repr]
    rfl
  | ofNat n =>
    have hplain : (decimal (.ofNat n)).toList = n.repr.toList := rfl
    have hread := readUnsigned_repr n
    -- a digit is no sign
    have hsign := isDigit_repr n
    rw [hplain]
    split
    · rename_i rest hcs
      exact absurd (hsign '-' (hcs ▸ List.mem_cons_self)) (by decide)
    · rename_i rest hcs
      exact absurd (hsign '+' (hcs ▸ List.mem_cons_self)) (by decide)
    · rw [hread]
      rfl

end Text

/-! ## A reader of test files -/

namespace TestFile

/-- What follows a beginning. -/
def after? : List Char → List Char → Option (List Char)
  | [], text => some text
  | _ :: _, [] => none
  | c :: start, d :: text => if c = d then after? start text else none

theorem after?_append (start text : List Char) : after? start (start ++ text) = some text := by
  induction start with
  | nil => rfl
  | cons c start ih => rw [List.cons_append, after?, if_pos rfl, ih]

/-- A test case: its number, the function that it calls, and the arguments. -/
structure Case where
  number : Nat
  function : String
  ints : List (String × Int)

/-- The first line of a test case, `def test_case_7(): `. -/
def readHead (line : List Char) : Option Nat :=
  match Text.pieces '(' line with
  | [start, [')', ':', ' ']] => do
    let digits ← after? "def test_case_".toList start
    let number ← Text.integer? 10 (String.ofList digits)
    number.toNat?
  | _ => none

/-- An argument, `x = 7`. -/
def readEntry (text : List Char) : Option (String × Int) :=
  match Text.pieces ' ' text with
  | [name, ['='], digits] => do
    let n ← Text.integer? 10 (String.ofList digits)
    return (String.ofList name, n)
  | _ => none

/-- Arguments with commas between them. -/
def readArguments (text : List Char) : Option (List (String × Int)) :=
  if text.isEmpty then some [] else (Text.pieces ',' text).mapM readEntry

/-- The second line of a test case, `  f(x = 7,y = -2)`. -/
def readCall (line : List Char) : Option (String × List (String × Int)) :=
  match Text.pieces '(' line with
  | [' ' :: ' ' :: name, inner] =>
    match Text.pieces ')' inner with
    | [text, []] => do
      let ints ← readArguments text
      return (String.ofList name, ints)
    | _ => none
  | _ => none

/-- Test cases of two lines each. -/
def readCases : List (List Char) → Option (List Case)
  | [] => some []
  | [_] => none
  | head :: call :: rest => do
    let number ← readHead head
    let (function, ints) ← readCall call
    let cases ← readCases rest
    return ⟨number, function, ints⟩ :: cases

/-- The test cases of a file that imports a module. -/
def cases? (module text : String) : Option (List Case) := do
  let body ← after? (opening ++ importing module).toList text.toList
  match Text.pieces '\n' body with
  | [] :: lines => readCases lines
  | _ => none

/-- Things under the same name that follow one another, together. -/
def grouped {α : Type} : List (String × α) → List (String × List α)
  | [] => []
  | (x, a) :: rest =>
    match grouped rest with
    | [] => [(x, [a])]
    | (y, as) :: more => if x = y then (x, a :: as) :: more else (x, [a]) :: (y, as) :: more

/-- The tests of a file that imports a module, by function. -/
def read? (module text : String) : Option (List (String × List (List (String × Int)))) :=
  (cases? module text).map fun cases => grouped (cases.map fun c => (c.function, c.ints))

/-! ## Reading what was written -/

/-- The characters between the parts of a test case. -/
def marks : List Char := ['(', ')', ',', '=', ' ', '\n']

/-- Whether a text has no marks in it. No identifier has any. -/
def isUnmarked (x : String) : Bool := x.toList.all fun c => !marks.contains c

variable {x f : String} {n : Int} {c : Char} {ints : List (String × Int)}

theorem notMem_of_isUnmarked (h : isUnmarked x = true) (hc : c ∈ marks) : c ∉ x.toList := by
  intro hmem
  have hnot := List.all_eq_true.mp h c hmem
  simp [hc] at hnot

theorem notMem_decimal (n : Int) (hc : c ∈ marks) : c ∉ (decimal n).toList := by
  intro hmem
  have hmarks : marks.all (fun d => !Text.isDecimal d) = true := by decide
  have hnot := List.all_eq_true.mp hmarks c hc
  rw [Text.isDecimal_decimal n c hmem] at hnot
  cases hnot

/-- The first line of a test case. -/
def headLine (number : Nat) : List Char :=
  "def test_case_".toList ++ (decimal number).toList ++ "(): ".toList

theorem readHead_headLine (number : Nat) : readHead (headLine number) = some number := by
  have hline : headLine number =
      ['('].intercalate ["def test_case_".toList ++ (decimal number).toList, [')', ':', ' ']] := by
    rw [Text.intercalate_cons_eq]
    rfl
  have hpieces : Text.pieces '(' (headLine number) =
      ["def test_case_".toList ++ (decimal number).toList, [')', ':', ' ']] := by
    rw [hline, Text.pieces_intercalate]
    rintro l (_ | ⟨_, _ | ⟨_, ⟨⟩⟩⟩)
    · rw [List.mem_append, not_or]
      exact ⟨by decide, notMem_decimal _ (by decide)⟩
    · decide
  have hread : Text.integer? 10 (String.ofList (decimal number).toList) = some (number : Int) := by
    rw [String.ofList_toList, Text.integer?_decimal]
  rw [readHead, hpieces]
  show (after? "def test_case_".toList ("def test_case_".toList ++ (decimal number).toList)).bind
    (fun digits => (Text.integer? 10 (String.ofList digits)).bind Int.toNat?) = some number
  rw [after?_append, Option.bind_some, hread]
  rfl

/-- The text of an argument. -/
def entryText (e : String × Int) : List Char := (Entry.text ⟨e.1, .reading (.int e.2)⟩).toList

theorem entryText_eq (x : String) (n : Int) :
    entryText (x, n) = [' '].intercalate [x.toList, ['='], (decimal n).toList] := by
  have htext : entryText (x, n) = (x ++ " = " ++ decimal n).toList := rfl
  simp [htext]

theorem readEntry_entryText (hx : isUnmarked x = true) (n : Int) :
    readEntry (entryText (x, n)) = some (x, n) := by
  have hpieces : Text.pieces ' ' (entryText (x, n)) =
      [x.toList, ['='], (decimal n).toList] := by
    rw [entryText_eq, Text.pieces_intercalate]
    rintro l (_ | ⟨_, _ | ⟨_, _ | ⟨_, ⟨⟩⟩⟩⟩)
    · exact notMem_of_isUnmarked hx (by decide)
    · decide
    · exact notMem_decimal _ (by decide)
  rw [readEntry, hpieces]
  simp [Text.integer?_decimal]

/-- The marks in an argument are a blank and an equality sign. -/
theorem notMem_entryText (hx : isUnmarked x = true) (hc : c ∈ ['(', ')', ',', '\n']) :
    c ∉ entryText (x, n) := by
  have hmark : c ∈ marks ∧ c ≠ ' ' ∧ c ≠ '=' := by
    simp only [List.mem_cons, List.not_mem_nil, or_false] at hc
    rcases hc with rfl | rfl | rfl | rfl <;> decide
  rw [entryText_eq]
  simp [notMem_of_isUnmarked hx hmark.1, notMem_decimal n hmark.1, hmark.2]

/-- All names of arguments are without marks. -/
def Unmarked (ints : List (String × Int)) : Prop := ∀ e ∈ ints, isUnmarked e.1 = true

instance (ints : List (String × Int)) : Decidable (Unmarked ints) :=
  inferInstanceAs (Decidable (∀ e ∈ ints, isUnmarked e.1 = true))

theorem arguments_eq (ints : List (String × Int)) :
    (arguments (Test.ofInts ints)).toList = [','].intercalate (ints.map entryText) := by
  rw [arguments, String.toList_intercalate, Test.ofInts, List.map_map, List.map_map]
  rfl

theorem mapM_readEntry (h : Unmarked ints) : (ints.map entryText).mapM readEntry = some ints := by
  induction ints with
  | nil => rfl
  | cons e ints ih =>
    obtain ⟨he, hints⟩ := List.forall_mem_cons.mp h
    rw [List.map_cons, List.mapM_cons, ih hints, readEntry_entryText he]
    rfl

theorem readArguments_arguments (h : Unmarked ints) :
    readArguments (arguments (Test.ofInts ints)).toList = some ints := by
  rw [arguments_eq]
  -- no arguments at all are written as nothing, which is not the same as one empty argument
  cases ints with
  | nil => rfl
  | cons e ints =>
    have hne : [','].intercalate ((e :: ints).map entryText) ≠ [] := by
      rw [List.map_cons, Text.intercalate_cons_eq, entryText_eq]
      simp
    rw [readArguments, if_neg (by simpa using hne), List.map_cons, Text.pieces_intercalate,
      ← List.map_cons, mapM_readEntry h]
    intro l hl
    rw [← List.map_cons] at hl
    obtain ⟨i, hi, rfl⟩ := List.mem_map.mp hl
    exact notMem_entryText (h i hi) (by decide)

/-- Among the marks only commas, blanks and equality signs stand between parentheses. -/
theorem notMem_arguments (h : Unmarked ints) (hc : c ∈ ['(', ')', '\n']) :
    c ∉ (arguments (Test.ofInts ints)).toList := by
  have hother : c ≠ ',' ∧ c ∈ ['(', ')', ',', '\n'] := by
    simp only [List.mem_cons, List.not_mem_nil, or_false] at hc
    rcases hc with rfl | rfl | rfl <;> decide
  have hentry : ∀ e ∈ ints, c ∉ entryText e := fun e he => notMem_entryText (h e he) hother.2
  rw [arguments_eq]
  cases ints with
  | nil => exact List.not_mem_nil
  | cons e ints =>
    obtain ⟨he, hints⟩ := List.forall_mem_cons.mp hentry
    rw [List.map_cons, Text.intercalate_cons_eq, List.flatMap_map, List.mem_append, not_or]
    refine ⟨he, fun hmem => ?_⟩
    obtain ⟨i, hi, hmem⟩ := List.mem_flatMap.mp hmem
    rcases List.mem_cons.mp hmem with rfl | hmem
    · exact hother.1 rfl
    · exact hints i hi hmem

/-- The second line of a test case. -/
def callLine (f : String) (ints : List (String × Int)) : List Char :=
  ' ' :: ' ' :: f.toList ++ '(' :: (arguments (Test.ofInts ints)).toList ++ [')']

theorem readCall_callLine (hf : isUnmarked f = true) (h : Unmarked ints) :
    readCall (callLine f ints) = some (f, ints) := by
  have hline : callLine f ints = ['('].intercalate
      [' ' :: ' ' :: f.toList, (arguments (Test.ofInts ints)).toList ++ [')']] := by
    simp [callLine]
  -- the first parenthesis comes after the name, and the other one is the last character
  have hpieces : Text.pieces '(' (callLine f ints) =
      [' ' :: ' ' :: f.toList, (arguments (Test.ofInts ints)).toList ++ [')']] := by
    have hname : '(' ∉ f.toList := notMem_of_isUnmarked hf (by decide)
    have hinner := notMem_arguments (c := '(') h (by decide)
    rw [hline, Text.pieces_intercalate]
    rintro l (_ | ⟨_, _ | ⟨_, ⟨⟩⟩⟩)
    · simpa using hname
    · simpa using hinner
  have hends : Text.pieces ')' [')'] = [[], []] := rfl
  have hinner : Text.pieces ')' ((arguments (Test.ofInts ints)).toList ++ [')']) =
      [(arguments (Test.ofInts ints)).toList, []] := by
    rw [Text.pieces_append (notMem_arguments h (by decide)) hends, List.append_nil]
  rw [readCall, hpieces]
  simp [hinner, readArguments_arguments h]

/-! ### Whole files -/

namespace Case

/-- The text of a test case. -/
def text (c : Case) : String := testCase c.number c.function (Test.ofInts c.ints)

/-- A test case without marks in its names. -/
def Unmarked (c : Case) : Prop := isUnmarked c.function = true ∧ TestFile.Unmarked c.ints

/-- The two lines of a test case. -/
def lines (c : Case) : List (List Char) := [headLine c.number, callLine c.function c.ints]

/-- A test case, for any words around its parts. -/
theorem toList_parts {a b c d : String} {start stop : List Char} (ha : a.toList = '\n' :: start)
    (hb : b.toList = stop ++ ['\n', ' ', ' ']) (hc : c.toList = ['(']) (hd : d.toList = [')'])
    (n f args : String) : (a ++ n ++ b ++ f ++ c ++ args ++ d).toList =
      [start ++ n.toList ++ stop, ' ' :: ' ' :: f.toList ++ '(' :: args.toList ++ [')']].flatMap
        ('\n' :: ·) := by
  simp [ha, hb, hc, hd]

theorem toList_text (c : Case) : c.text.toList = c.lines.flatMap ('\n' :: ·) :=
  toList_parts rfl rfl rfl rfl _ _ _

theorem newline_notMem {c : Case} (h : c.Unmarked) : ∀ l ∈ c.lines, '\n' ∉ l := by
  have hnumber : '\n' ∉ (decimal c.number).toList := notMem_decimal _ (by decide)
  have hname : '\n' ∉ c.function.toList := notMem_of_isUnmarked h.1 (by decide)
  have hargs := notMem_arguments (c := '\n') h.2 (by decide)
  have hstart : '\n' ∉ "def test_case_".toList := by decide
  have hend : '\n' ∉ "(): ".toList := by decide
  refine List.forall_mem_cons.mpr ⟨?_, List.forall_mem_singleton.mpr ?_⟩
  · exact List.not_mem_append (List.not_mem_append hstart hnumber) hend
  · simpa [callLine] using ⟨hname, hargs⟩

end Case

theorem readCases_lines {cs : List Case} (h : ∀ c ∈ cs, c.Unmarked) :
    readCases (cs.flatMap Case.lines) = some cs := by
  induction cs with
  | nil => rfl
  | cons c cs ih =>
    obtain ⟨hc, hcs⟩ := List.forall_mem_cons.mp h
    show (readHead (headLine c.number)).bind (fun number =>
      (readCall (callLine c.function c.ints)).bind fun call =>
        (readCases (cs.flatMap Case.lines)).bind fun cases =>
          some (⟨number, call.1, call.2⟩ :: cases)) = _
    rw [readHead_headLine, readCall_callLine hc.1 hc.2, ih hcs]
    rfl

/-- Test cases are read from a file as they were written. -/
theorem cases?_join (module : String) {cs : List Case} (h : ∀ c ∈ cs, c.Unmarked) :
    cases? module (opening ++ importing module ++ String.join (cs.map Case.text)) = some cs := by
  -- every line of the test cases follows a line break, so cutting there gives the lines back
  have hbody : (String.join (cs.map Case.text)).toList =
      (cs.flatMap Case.lines).flatMap ('\n' :: ·) := by
    rw [String.toList_join, List.flatMap_map, List.flatMap_assoc]
    exact List.flatMap_congr fun c _ => c.toList_text
  have hpieces : Text.pieces '\n' ((cs.flatMap Case.lines).flatMap ('\n' :: ·)) =
      [] :: cs.flatMap Case.lines := by
    refine Text.pieces_flatMap fun l hl => ?_
    obtain ⟨c, hc, hl⟩ := List.mem_flatMap.mp hl
    exact Case.newline_notMem (h c hc) l hl
  rw [cases?, String.toList_append (s := opening ++ importing module), after?_append, hbody]
  show (match Text.pieces '\n' ((cs.flatMap Case.lines).flatMap ('\n' :: ·)) with
    | [] :: lines => readCases lines
    | _ => none) = _
  rw [hpieces]
  exact readCases_lines h

/-! ### Tests by function -/

/-- Tests of integers by function. -/
abbrev Table := List (String × List (List (String × Int)))

/-- What a file can tell of: functions of different names, each with a test, and names without
marks. -/
structure Tellable (table : Table) : Prop where
  distinct : (table.map Prod.fst).Nodup
  nonempty : ∀ e ∈ table, e.2 ≠ []
  functions : ∀ e ∈ table, isUnmarked e.1 = true
  parameters : ∀ e ∈ table, ∀ ints ∈ e.2, Unmarked ints

/-- The tests of a table. -/
def Table.tests (table : Table) : List (String × List Test) :=
  table.map fun (f, sets) => (f, sets.map Test.ofInts)

/-- The sets of arguments in the order of a table, each with its function. -/
def Table.calls (table : Table) : List (String × List (String × Int)) :=
  table.flatMap fun (f, sets) => sets.map fun ints => (f, ints)

/-- The sets of arguments as test cases, numbered through from zero. -/
def Table.cases (table : Table) : List Case :=
  table.calls.zipIdx.map fun (call, i) => ⟨i, call.1, call.2⟩

theorem calls_tests (table : Table) :
    TestFile.calls table.tests = table.calls.map fun call => (call.1, Test.ofInts call.2) := by
  simp only [TestFile.calls, Table.tests, Table.calls, List.flatMap_map, List.map_flatMap,
    List.map_map]
  rfl

/-- The file of a table holds its test cases. -/
theorem text_tests (module : String) (table : Table) :
    text module table.tests =
      opening ++ importing module ++ String.join (table.cases.map Case.text) := by
  rw [text, testCases, calls_tests, List.zipIdx_map, List.map_map, Table.cases, List.map_map]
  rfl

theorem number_cases (table : Table) :
    table.cases.map Case.number = List.range (table.map fun e => e.2.length).sum := by
  have hlength : table.calls.length = (table.map fun e => e.2.length).sum := by
    rw [Table.calls, List.length_flatMap]
    simp
  have hnumber : table.cases.map Case.number = table.calls.zipIdx.map Prod.snd := by
    rw [Table.cases, List.map_map]
    rfl
  rw [hnumber, List.zipIdx_map_snd, hlength, List.range_eq_range']

theorem call_cases (table : Table) :
    table.cases.map (fun c => (c.function, c.ints)) = table.calls := by
  rw [Table.cases, List.map_map]
  exact List.zipIdx_map_fst 0 table.calls

theorem Tellable.unmarked {table : Table} (h : Tellable table) :
    ∀ c ∈ table.cases, c.Unmarked := by
  intro c hc
  have hmem : (c.function, c.ints) ∈ table.calls := by
    rw [← call_cases]
    exact List.mem_map_of_mem (f := fun c : Case => (c.function, c.ints)) hc
  obtain ⟨⟨f, sets⟩, he, hmem⟩ := List.mem_flatMap.mp hmem
  obtain ⟨ints, hints, heq⟩ := List.mem_map.mp hmem
  obtain ⟨hf, hi⟩ := Prod.mk.inj heq
  exact ⟨hf ▸ h.functions _ he, hi ▸ h.parameters _ he ints hints⟩

/-- Things under one name come together, if what follows has another name. -/
theorem grouped_append {α : Type} {x : String} {as : List α} (has : as ≠ [])
    {rest : List (String × α)} (hrest : ∀ e ∈ (grouped rest).head?, x ≠ e.1) :
    grouped (as.map (x, ·) ++ rest) = (x, as) :: grouped rest := by
  induction as with
  | nil => exact absurd rfl has
  | cons a as ih =>
    rw [List.map_cons, List.cons_append, grouped]
    -- the last one starts a group, the others join it
    cases as with
    | nil =>
      rw [List.map_nil, List.nil_append]
      cases hg : grouped rest with
      | nil => rfl
      | cons e more =>
        rw [hg] at hrest
        exact if_neg (hrest e rfl)
    | cons b as =>
      rw [ih (List.cons_ne_nil b as)]
      exact if_pos rfl

/-- A table is what its calls come to when they are put together. -/
theorem grouped_calls {table : Table} (h : Tellable table) : grouped table.calls = table := by
  induction table with
  | nil => rfl
  | cons e table ih =>
    obtain ⟨f, sets⟩ := e
    obtain ⟨hf, hdistinct⟩ := List.nodup_cons.mp h.distinct
    have htail : Tellable table :=
      ⟨hdistinct, fun e he => h.nonempty e (List.mem_cons_of_mem _ he),
        fun e he => h.functions e (List.mem_cons_of_mem _ he),
        fun e he => h.parameters e (List.mem_cons_of_mem _ he)⟩
    -- the next group has another name, since no function occurs twice
    show grouped (sets.map (f, ·) ++ Table.calls table) = _
    rw [grouped_append (h.nonempty _ List.mem_cons_self), ih htail]
    rw [ih htail]
    intro e he hfe
    exact hf (List.mem_map.mpr ⟨e, List.mem_of_mem_head? he, hfe.symm⟩)

end TestFile

/-! ## Writing and reading -/

namespace Tool

open TestFile

/-- What a run that ends well has written. -/
theorem written_of_done {target : String} {output : List String} {tests : List (String × List Test)}
    (h : (writeTests target output tests).ending = .ok 0) :
    2 ≤ (Path.names target).length ∧ ∃ module, moduleName? target = some module ∧
      ∀ output' tests', (writeTests target output' tests').written =
        some (testPath target, text module tests') := by
  unfold writeTests at h ⊢
  -- a path that is too short breaks the run off, and so does one without a module to import
  by_cases hshort : (Path.names target).length < 2
  · rw [if_pos hshort] at h
    cases h
  · simp only [if_neg hshort] at h ⊢
    cases hmodule : moduleName? target with
    | none =>
      rw [hmodule] at h
      cases h
    | some module => exact ⟨Nat.le_of_not_lt hshort, module, rfl, fun _ _ => rfl⟩

/--
**A test file loses nothing.** Take a target for which a file is written to the end, and any table
of tests of integers: functions of different names with at least one test each, and names that are
free of marks, as identifiers are. After its header the file holds one test case for each test, in
the order of the table. The test cases are numbered from zero without a gap. A reader gets them
back from the text, with all names and integers in their order, and from them the table. So
different tables never make the same file.
-/
theorem tests_recovered {target : String} {output : List String} {table : Table}
    (htable : Tellable table) (hdone : (writeTests target output table.tests).ending = .ok 0) :
    ∃ module text, moduleName? target = some module ∧
      (writeTests target output table.tests).written = some (testPath target, text) ∧
      text = opening ++ importing module ++ String.join (table.cases.map Case.text) ∧
      table.cases.map Case.number = List.range (table.map fun e => e.2.length).sum ∧
      table.cases.map (fun c => (c.function, c.ints)) = table.calls ∧
      cases? module text = some table.cases ∧ read? module text = some table ∧
      ∀ output' table', Tellable table' →
        (writeTests target output' table'.tests).written =
          (writeTests target output table.tests).written → table' = table := by
  obtain ⟨-, module, hmodule, hwritten⟩ := written_of_done hdone
  have hcases : ∀ t : Table, Tellable t → cases? module (text module t.tests) = some t.cases := by
    intro t ht
    rw [text_tests]
    exact cases?_join module ht.unmarked
  have hread : ∀ t : Table, Tellable t → read? module (text module t.tests) = some t := by
    intro t ht
    rw [read?, hcases t ht, Option.map_some, call_cases, grouped_calls ht]
  refine ⟨module, text module table.tests, hmodule, hwritten _ _, text_tests module table,
    number_cases table, call_cases table, hcases table htable, hread table htable, ?_⟩
  intro output' table' htable' hsame
  -- the reader finds both tables in the same text
  rw [hwritten, hwritten] at hsame
  have htext : text module table'.tests = text module table.tests :=
    (Prod.mk.inj (Option.some.inj hsame)).2
  exact Option.some.inj ((hread table' htable').symm.trans (htext ▸ hread table htable))

end Tool

namespace Sample

open TestFile

/-- Tests of two functions, one of which takes nothing. -/
def table : Table :=
  [("bar", [[("y", -32), ("x", 0)], [("x", 100), ("y", 0)]]), ("none", [[]])]

theorem table_tellable : Tellable table :=
  ⟨by decide, by decide, by decide, by decide⟩

/-- The file for these tests, and what is read from it. -/
theorem table_recovered :
    Tellable table ∧ (Tool.writeTests "examples/example4.py" [] table.tests).ending = .ok 0 ∧
    ∃ text, (Tool.writeTests "examples/example4.py" [] table.tests).written =
        some ("examples/test_example4.py", text) ∧
      text = "import pytest\nfrom example4 import *\n " ++
        "\ndef test_case_0(): \n  bar(y = -32,x = 0)" ++
        "\ndef test_case_1(): \n  bar(x = 100,y = 0)" ++ "\ndef test_case_2(): \n  none()" ∧
      read? "example4" text = some table := by
  have hdone : (Tool.writeTests "examples/example4.py" [] table.tests).ending = .ok 0 := rfl
  obtain ⟨module, text, hmodule, hwritten, -, -, -, -, hread, -⟩ :=
    Tool.tests_recovered table_tellable hdone
  obtain rfl : "example4" = module := Option.some.inj hmodule
  obtain rfl : TestFile.text "example4" table.tests = text :=
    (Prod.mk.inj (Option.some.inj hwritten)).2
  exact ⟨table_tellable, hdone, _, hwritten, by decide +kernel, hread⟩

end Sample

end Pathwise
