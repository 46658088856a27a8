import Mathlib.Data.List.Perm.Subperm
import Pathwise.Proofs.Calls
import Pathwise.Sample.Reference

/-!
# The lines that integers can reach

A run on unknowns stands for many runs on integers. If none of them is too long, a look at all of
their ends shows every line that a call on integers can go through; tests that no integers meet
are named beforehand and followed on one side only. The calls of the tests go through the same
lines, whatever models the solver chooses, since each course that a call can take is taken by a
test.

* `Module.Charted` — a module all of whose runs stay within given lines.
* `Module.Charted.mem_executed` — the calls of the tests go through all lines that integers reach.
* `Sample.reference_executed` — the reference coverage of the samples.
-/

namespace Pathwise

/-- An end that calls on integers share: the run left the search going, was not cut off, exchanged
no operands, and went through given lines only. -/
def endsWithin (lines : List Nat) (out : Except Fault Value × State) : Bool :=
  Module.survived out &&
    (match out.1 with
      | .error .depthLimit => false
      | _ => true) &&
    !out.2.trace.contains .exchange && out.2.lines.all lines.contains

theorem endsWithin_iff {lines : List Nat} {out : Except Fault Value × State} :
    endsWithin lines out = true ↔
      Module.survived out = true ∧ out.1 ≠ .error .depthLimit ∧ .exchange ∉ out.2.trace ∧
        ∀ n ∈ out.2.lines, n ∈ lines := by
  unfold endsWithin
  have hcut : (match out.1 with
      | .error .depthLimit => false
      | _ => true) = true ↔ out.1 ≠ .error .depthLimit := by
    split <;> simp_all
  rw [Bool.and_eq_true, Bool.and_eq_true, Bool.and_eq_true, hcut, and_assoc, and_assoc]
  simp

theorem SameCourse.lines {out out' : Except Fault Value × State} (h : SameCourse out out') :
    out.2.lines = out'.2.lines := by
  rw [State.lines, State.lines, h.trace]

/-! ## Equations without solutions -/

/-- The residue of a sum, a difference or a product, as far as those of the operands are known. -/
def Ring.residue (m : Int) : Ring → Option Int → Option Int → Option Int
  | .mul, some 0, _ => some 0
  | .mul, _, some 0 => some 0
  | op, some r, some s => some (op.onInt r s % m)
  | _, _, _ => none

theorem Ring.residue_spec {m : Int} {op : Ring} {x y : Option Int} {r : Int}
    (h : op.residue m x y = some r) {a b : Int} (ha : ∀ i ∈ x, a % m = i)
    (hb : ∀ j ∈ y, b % m = j) : op.onInt a b % m = r := by
  have hemod : op.onInt a b % m = op.onInt (a % m) (b % m) % m := by
    cases op with
    | add => exact Int.add_emod a b m
    | sub => exact Int.sub_emod a b m
    | mul => exact Int.mul_emod a b m
  rw [hemod]
  unfold residue at h
  -- a product with zero is zero, whatever the other factor is
  split at h
  · obtain rfl := Option.some.inj h
    rw [ha 0 rfl]
    simp [onInt]
  · obtain rfl := Option.some.inj h
    rw [hb 0 rfl]
    simp [onInt]
  · rw [ha _ rfl, hb _ rfl]
    exact Option.some.inj h
  · cases h

/-- A residue comes from a residue of an operand. -/
theorem Ring.exists_of_residue {m : Int} {op : Ring} {x y : Option Int} {r : Int}
    (h : op.residue m x y = some r) : (∃ i, x = some i) ∨ ∃ j, y = some j := by
  unfold residue at h
  split at h
  · exact .inl ⟨_, rfl⟩
  · exact .inr ⟨_, rfl⟩
  · exact .inl ⟨_, rfl⟩
  · cases h

namespace Term

/-- The residue of an integer term, where it does not depend on the unknowns. -/
def residue (m : Int) : {k : Kind} → Term k → Option Int
  | _, .int n => some (n % m)
  | _, .ring op a b => op.residue m (a.residue m) (b.residue m)
  | _, _ => none

/-- Whether a formula equates integers of different residues. -/
def equatesApart (m : Int) : {k : Kind} → Term k → Bool
  | _, .eq a b =>
    match a.residue m, b.residue m with
    | some r, some s => r != s
    | _, _ => false
  | _, _ => false

/-- The value of a term is an integer with a given residue. -/
def HasResidue (m r : Int) : (k : Kind) → k.Carrier → Prop
  | .num .int, a => a % m = r
  | _, _ => False

theorem hasResidue (ρ : Valuation) {m : Int} {k : Kind} (t : Term k) {r : Int}
    (h : t.residue m = some r) : HasResidue m r k (t.eval ρ) := by
  induction t generalizing r with
  | int n => exact Option.some.inj h
  | @ring n op a b iha ihb =>
    rw [residue] at h
    cases n with
    | int => exact Ring.residue_spec h (fun i hi => iha hi) fun j hj => ihb hj
    | real =>
      -- no real term has a residue, so neither operand has one
      obtain ⟨i, hi⟩ | ⟨j, hj⟩ := Ring.exists_of_residue h
      · exact iha hi
      · exact ihb hj
  | _ => cases h

/-- Integers of different residues are not equal. -/
theorem eval_of_equatesApart {m : Int} {p : Formula} (h : p.equatesApart m = true)
    (ρ : Valuation) : p.eval ρ = false := by
  cases p with
  | @eq k a b =>
    rw [equatesApart] at h
    split at h
    · rename_i r s ha hb
      have hr := hasResidue ρ a ha
      have hs := hasResidue ρ b hb
      rw [← Bool.not_eq_true]
      show ¬ k.same (a.eval ρ) (b.eval ρ) = true
      rw [Kind.same_iff]
      intro heq
      rw [heq] at hr
      -- only integers have residues
      match k with
      | .num .int => exact (bne_iff_ne.mp h) (hr.symm.trans hs)
    · cases h
  | _ => cases h

end Term

/-! ## Modules -/

namespace Module

/-- Whether the runs of a function on unknowns are short and stay within given lines. -/
def staysWithin (refuted : Formula → Bool) (lines : List Nat) (m : Module) (index : Nat) : Bool :=
  match m.function? index with
  | none => true
  | some f =>
    (f.paramNames.forM encodable).toOption.isSome &&
      (m.invoke (.function index) (f.paramNames.map .unknown) [] (State.start m.memory)).checks
        refuted (endsWithin lines) depthLimit

/-- A module of functions of the fragment, explored under names of theirs, whose runs are short
and stay within given lines. -/
structure Charted (refuted : Formula → Bool) (lines : List Nat) (m : Module) : Prop where
  globalFree : m.globalFree = true
  distinct : m.Distinct
  agrees : ∃ uses, m.Agrees uses ∧ ∀ i < m.functions.length, uses i .nothing = true
  named : ∀ i < m.functions.length, ∃ name : String,
    name.startsWith "__" = false ∧ m.memory.globals.lookup name = some (.function i)
  refutes : ∀ p, refuted p = true → ∀ ρ : Valuation, p.eval ρ = false
  stays : ∀ i < m.functions.length, m.staysWithin refuted lines i = true

variable {m : Module} {refuted : Formula → Bool} {lines : List Nat} {index : Nat} {f : Function}
  {solver : Solver}

/-- A call with too few or too many integers goes through no line. -/
theorem lines_of_length_ne (hf : m.function? index = some f)
    (hplain : ∀ p ∈ f.params, p.kind = .positional ∧ p.default? = none)
    (hnodup : f.paramNames.Nodup) {ns : List Int} (hlength : ns.length ≠ f.paramNames.length) :
    (m.result index ns).2.lines = [] := by
  have hbind : ∃ cause, f.bind (ns.map .int) [] = .error cause := by
    rw [Function.bind_plain hplain]
    split
    · exact ⟨_, rfl⟩
    · rename_i hlong
      rw [if_neg]
      · exact ⟨_, rfl⟩
      · -- all parameters would stand among the first ones
        intro hnone
        have hall : f.paramNames ⊆ (f.paramNames.zip (ns.map Value.int)).map Prod.fst := by
          intro x hx
          obtain ⟨p, hp, rfl⟩ := List.mem_map.mp hx
          by_contra hfree
          rw [List.isEmpty_iff, Function.missing, List.map_eq_nil_iff,
            List.filter_eq_nil_iff] at hnone
          have hbound := mt List.isSome_lookup_iff_mem_map_fst.mp hfree
          simp only [Option.not_isSome_iff_eq_none] at hbound
          exact hnone p hp (by simp [hbound, (hplain p hp).2])
        have hle := (List.Nodup.subperm hnodup hall).length_le
        have hparams : f.paramNames.length = f.params.length := List.length_map _
        rw [List.length_map, List.length_zip, List.length_map] at hle
        rw [List.length_map] at hlong
        omega
  obtain ⟨cause, hcause⟩ := hbind
  have hinvoke : m.invoke (.function index) (ns.map .int) [] (State.start m.memory) =
      .done (.error (.binding f.name cause), State.start m.memory) := by
    have hf' : m.functions[index]? = some f := hf
    simp only [invoke, Pathwise.invoke, hf', hcause]
    rfl
  rw [result, hinvoke]
  rfl

/-- Every round of a function of a charted module has an end that calls on integers share. -/
theorem Charted.outcome (h : m.Charted refuted lines) (hS : solver.Correct)
    (hf : m.function? index = some f) :
    f.paramNames.forM encodable = .ok () ∧
      ∀ r ∈ m.rounds solver index f,
        endsWithin lines (m.outcome solver index f r.path) = true := by
  have hstays := h.stays index (List.getElem?_eq_some_iff.mp hf).1
  rw [staysWithin, hf] at hstays
  obtain ⟨henc, hchecks⟩ := Bool.and_eq_true_iff.mp hstays
  constructor
  · obtain ⟨u, hu⟩ := Option.isSome_iff_exists.mp henc
    exact Except.eq_ok_of_toOption hu
  · intro r hr
    exact outcome_of_checks hS hchecks h.refutes hr

/-- What a search finds for a function of a charted module. -/
theorem Charted.exists_tests (h : m.Charted refuted lines) (hS : solver.Correct)
    (hF : solver.Frugal) (hf : m.function? index = some f) :
    (∀ p ∈ f.params, p.kind = .positional ∧ p.default? = none) ∧ f.paramNames.Nodup ∧
    ∃ tests, (m.exploreFunction solver index (.start [])).result = .ok tests ∧
      (∀ test ∈ tests, ∃ ints, test = Test.ofInts ints ∧
        (ints.map Prod.fst).Perm f.paramNames) ∧
      ∀ ns : List Int, ns.length = f.paramNames.length →
        (∀ n ∈ (m.result index ns).2.lines, n ∈ lines) ∧
        ∃ test ∈ tests, SameCourse
          (m.result index (f.paramNames.map (Test.valuation test).int)) (m.result index ns) := by
  obtain ⟨uses, hagrees, huse⟩ := h.agrees
  have huse := huse index (List.getElem?_eq_some_iff.mp hf).1
  obtain ⟨hplain, hnodup, -⟩ := Function.agrees_iff.mp (hagrees.agrees index .nothing f huse hf)
  obtain ⟨henc, hends⟩ := h.outcome hS hf
  obtain ⟨tests, hok, hints, hcovered⟩ := hagrees.exists_tests huse hS hF hf henc
    (fun r hr =>
      let hend := endsWithin_iff.mp (hends r hr)
      ⟨hend.1, hend.2.1, hend.2.2.1⟩) (.start [])
  refine ⟨hplain, hnodup, tests, hok, hints, fun ns hlength => ?_⟩
  obtain ⟨r, hr, test, htest, hcourse, hsame⟩ := hcovered ns hlength
  refine ⟨?_, test, htest, hsame⟩
  rw [← hcourse.lines]
  exact (endsWithin_iff.mp (hends r hr)).2.2.2

/-- A survey of a charted module returns. -/
theorem Charted.exploreAll_ok (h : m.Charted refuted lines) (hS : solver.Correct)
    (hF : solver.Frugal) (trail : Trail) :
    ∃ entries, (m.exploreAll solver .exact trail).result = .ok entries := by
  refine exploreAll_ok_of_tests h.globalFree h.distinct (fun index f hf => ?_) trail
  obtain ⟨-, -, tests, hok, -⟩ := h.exists_tests hS hF hf
  exact ⟨tests, hok⟩

/-- A call that goes through a line is one of a function on as many integers as it takes. -/
theorem Charted.of_mem_lines (h : m.Charted refuted lines) {ns : List Int} {n : Nat}
    (hn : n ∈ (m.result index ns).2.lines) :
    ∃ f, m.function? index = some f ∧ ns.length = f.paramNames.length := by
  cases hf : m.function? index with
  | none =>
    have hinvoke : m.invoke (.function index) (ns.map .int) [] (State.start m.memory) =
        .done (.error (.notCallable "function"), State.start m.memory) := by
      have hf' : m.functions[index]? = none := hf
      simp only [invoke, Pathwise.invoke, hf']
      rfl
    rw [result, hinvoke] at hn
    cases hn
  | some f =>
    refine ⟨f, rfl, ?_⟩
    obtain ⟨hplain, hnodup, -⟩ := h.exists_tests Solver.ideal_correct Solver.ideal_frugal hf
    by_contra hlength
    rw [lines_of_length_ne hf hplain hnodup hlength] at hn
    cases hn

/-- No call on integers leaves the chart. -/
theorem Charted.lines_of_result (h : m.Charted refuted lines) (index : Nat) (ns : List Int) :
    ∀ n ∈ (m.result index ns).2.lines, n ∈ lines := by
  intro n hn
  obtain ⟨f, hf, hlength⟩ := h.of_mem_lines hn
  obtain ⟨-, -, tests, -, -, hcovered⟩ :=
    h.exists_tests Solver.ideal_correct Solver.ideal_frugal hf
  exact (hcovered ns hlength).1 n hn

/-- The lines that the calls of tests go through. -/
def executed (m : Module) (tests : List (String × List Test)) : List Nat :=
  (TestFile.calls tests).flatMap fun (name, test) =>
    ((Test.ints? test).map fun ints => (m.callOn name ints).2.lines).getD []

theorem mem_executed {tests : List (String × List Test)} {n : Nat} :
    n ∈ m.executed tests ↔
      ∃ name ints, (name, Test.ofInts ints) ∈ TestFile.calls tests ∧
        n ∈ (m.callOn name ints).2.lines := by
  simp only [executed, List.mem_flatMap, Prod.exists]
  constructor
  · rintro ⟨name, test, hcall, hn⟩
    cases hints : Test.ints? test with
    | none =>
      rw [hints] at hn
      cases hn
    | some ints =>
      rw [hints] at hn
      obtain rfl := Test.ints?_eq_some.mp hints
      exact ⟨name, ints, hcall, hn⟩
  · rintro ⟨name, ints, hcall, hn⟩
    refine ⟨name, _, hcall, ?_⟩
    rw [Test.ints?_eq_some.mpr rfl]
    exact hn

/-- The tests of a survey of a charted module give integers to the parameters of its functions. -/
theorem Charted.calls_ints (h : m.Charted refuted lines) (hS : solver.Correct)
    (hF : solver.Frugal) {trail : Trail} {entries : List (String × List Test)}
    (hentries : (m.exploreAll solver .exact trail).result = .ok entries) {name : String}
    {test : Test} (hcall : (name, test) ∈ TestFile.calls entries) :
    ∃ index f ints, m.memory.globals.lookup name = some (.function index) ∧
      m.function? index = some f ∧ test = Test.ofInts ints ∧
      SameCourse (m.callOn name ints)
        (m.result index (f.paramNames.map (Test.valuation (Test.ofInts ints)).int)) := by
  obtain ⟨tests, hmem, htest⟩ := TestFile.mem_calls.mp hcall
  obtain ⟨-, index, hname, hok⟩ :=
    (mem_exploreAll_tests h.globalFree h.distinct hentries).mp hmem
  obtain ⟨cause, hfails⟩ | ⟨f, hf, -⟩ := exploreFunction_cases m index (.start [])
  · rw [hfails] at hok
    cases hok
  · -- the entry of the survey is what the search of the function alone returns
    obtain ⟨hplain, hnodup, tests', hok', hints, -⟩ := h.exists_tests hS hF hf
    obtain rfl := Except.ok.inj (hok.symm.trans hok')
    obtain ⟨ints, rfl, hperm⟩ := hints test htest
    exact ⟨index, f, ints, hname, hf, rfl,
      callOn_sameCourse h.globalFree hf hplain hnodup hname hperm⟩

/-- The calls of the tests go through exactly the lines that calls on integers can go through. -/
theorem Charted.mem_executed (h : m.Charted refuted lines) (hS : solver.Correct)
    (hF : solver.Frugal) {trail : Trail} {entries : List (String × List Test)}
    (hentries : (m.exploreAll solver .exact trail).result = .ok entries) {n : Nat} :
    n ∈ m.executed entries ↔ ∃ index ns, n ∈ (m.result index ns).2.lines := by
  rw [Module.mem_executed]
  constructor
  · rintro ⟨name, ints, hcall, hn⟩
    obtain ⟨index, f, ints', -, -, hsame, hcourse⟩ := h.calls_ints hS hF hentries hcall
    obtain rfl : ints = ints' :=
      Option.some.inj ((Test.ints?_eq_some.mpr rfl).symm.trans (Test.ints?_eq_some.mpr hsame))
    rw [hcourse.lines] at hn
    exact ⟨index, _, hn⟩
  · rintro ⟨index, ns, hn⟩
    -- the function is explored under some name, and one of its tests takes the course of the call
    obtain ⟨f, hf, hlength⟩ := h.of_mem_lines hn
    obtain ⟨name, hvisited, hname⟩ := h.named index (List.getElem?_eq_some_iff.mp hf).1
    obtain ⟨hplain, hnodup, tests, hok, hints, hcovered⟩ := h.exists_tests hS hF hf
    obtain ⟨test, htest, hsame⟩ := (hcovered ns hlength).2
    obtain ⟨ints, rfl, hperm⟩ := hints test htest
    have hentry : (name, tests) ∈ entries :=
      (mem_exploreAll_tests h.globalFree h.distinct hentries).mpr ⟨hvisited, index, hname, hok⟩
    have hcourse := callOn_sameCourse h.globalFree hf hplain hnodup hname hperm
    refine ⟨name, ints, TestFile.mem_calls.mpr ⟨tests, hentry, htest⟩, ?_⟩
    rw [(hcourse.trans hsame).lines]
    exact hn

end Module

/-! ## The samples -/

/-- A branch whose condition asks nothing. -/
theorem Stmt.exec_branch (env : Env) {c : Expr} {s : State} {holds : Bool}
    (hc : c.test env s = .done (.ok holds, s)) (yes no : Block) :
    (Stmt.branch c yes no).exec env s = (if holds then yes.exec env else no.exec env)
      { s with trace := .side holds :: s.trace, stores := s.locals :: s.stores } := by
  show Run.bind (c.test env s) _ = _
  rw [hc]
  rfl

/-- The value of a call whose body ends without a question. -/
theorem invoke_of_exec {functions : List Function} {rounds depth i : Nat} {f : Function}
    {args : List Value} {locals : Scope} {s s' : State} {flow : Flow}
    (hf : functions[i]? = some f) (hbind : f.bind args [] = .ok locals)
    (hexec : f.body.exec
      ⟨.call f.owned, rounds, fun g vs => invoke functions rounds depth g vs []⟩
      { s with locals } = .done (.ok flow, s')) :
    (invoke functions rounds (depth + 1) (.function i) args [] s).unanswered.1 =
      .ok flow.value := by
  unfold invoke
  simp only [hf, hbind]
  unfold Eval.within
  show Prod.fst (Run.unanswered (Run.bind (Run.bind (f.body.exec _ _) _) _)) = _
  rw [hexec]
  rfl

/-- A block of one branch that asks nothing and gives a result. -/
theorem Block.exec_branch_result (env : Env) {line : Nat} {c : Expr} {yes no : Block}
    {s s' : State} {holds : Bool} {v : Value}
    (hc : c.test env { s with trace := .line line :: s.trace, stores := s.locals :: s.stores } =
      .done (.ok holds, { s with trace := .line line :: s.trace, stores := s.locals :: s.stores }))
    (hresult : (if holds then yes.exec env else no.exec env)
      { s with
        trace := .side holds :: .line line :: s.trace
        stores := s.locals :: s.locals :: s.stores } =
      .done (.ok (.result v), s')) :
    (Block.step line (.branch c yes no) .done).exec env s = .done (.ok (.result v), s') := by
  show Run.bind ((Stmt.branch c yes no).exec env _) _ = _
  rw [Stmt.exec_branch env hc, hresult]
  rfl

theorem Value.truth_bool (b : Bool) : (Value.bool b).truth = (pure b : Eval Bool) := by
  cases b <;> rfl

namespace Module

variable {m : Module} {uses : Nat → Yield → Bool}

/-- Whether the functions of a module are in the fragment, as far as their results are used. -/
def agreesBy (m : Module) (uses : Nat → Yield → Bool) : Bool :=
  m.functions.zipIdx.all fun (f, i) =>
    [Yield.number, .truth, .nothing].all fun y => !uses i y || f.agrees (m.yields uses) y

theorem Agrees.of_agreesBy (h : m.agreesBy uses = true)
    (hreturns : ∀ i, uses i .number = true → m.Returns i) : m.Agrees uses where
  returns := hreturns
  agrees i y f huse hf := by
    have hmem : (f, i) ∈ m.functions.zipIdx := List.mem_zipIdx_iff_getElem?.mpr hf
    have hy : y ∈ [Yield.number, .truth, .nothing] := by cases y <;> decide
    have hcheck := List.all_eq_true.mp (List.all_eq_true.mp h _ hmem) y hy
    rw [huse] at hcheck
    exact hcheck

end Module

namespace Sample

abbrev membershipModule : Module := loaded membership ["foo"]

abbrev middleModule : Module := loaded middle ["bar"]

abbrev squaresModule : Module := loaded squares ["half_square", "compute"]

abbrev reassignmentModule : Module := loaded reassignment ["advanced"]

/-- All functions are explored, and the results of the first may have a further use. -/
def usesOf (further : Option Yield) (i : Nat) (y : Yield) : Bool :=
  y == .nothing || i == 0 && further == some y

theorem number_of_usesOf {further : Option Yield} {i : Nat}
    (h : usesOf further i .number = true) : i = 0 ∧ further = some .number := by
  simpa [usesOf] using h

/-- The parity of a number. -/
theorem test_even (env : Env) (s : State) {x : String} {n : Int}
    (hx : env.read x s = .done (.ok (.int n), s)) :
    (Expr.compare .eq (.binary (.arith .mod) (.name x) (num 2)) (num 0)).test env s =
      .done (.ok (decide (n.fmod 2 = 0)), s) := by
  have hmod : Eval.binary (Binary.arith .mod).title (.arith .mod) (.int n) (.int 2) =
      pure (.int (n.fmod 2)) := by
    rw [Eval.binary, Value.mod_int _ n (by decide)]
    rfl
  show Run.bind (Run.bind (Run.bind (env.read x s) _) _) _ = _
  rw [hx]
  show (Eval.binary (Binary.arith .mod).title (.arith .mod) (.int n) (.int 2) >>= fun u =>
    Eval.compare .eq u (.int 0) >>= fun c => c.truth) s = _
  rw [hmod, pure_bind, Eval.compare_int, pure_bind, Value.truth_bool]
  rfl

theorem half_square_returns : squaresModule.Returns 0 := by
  rintro (_ | depth) (_ | ⟨n, _ | ⟨n', ns⟩⟩) s hs h
  · cases h
  · cases h
  · cases h
  · cases h
  · -- one argument: the number is even or odd, and both branches return
    have hreturns : ∃ v : Int, (Pathwise.invoke squaresModule.functions
        squaresModule.limits.rounds (depth + 1) (.function 0) ([n].map .int) [] s).unanswered.1 =
          .ok (Flow.value (.result (.int v))) := by
      cases hb : decide (n.fmod 2 = 0) with
      | true =>
        exact ⟨n * n, invoke_of_exec rfl rfl
          (Block.exec_branch_result _ (test_even _ _ rfl) (by rw [hb]; rfl))⟩
      | false =>
        exact ⟨n * 2, invoke_of_exec rfl rfl
          (Block.exec_branch_result _ (test_even _ _ rfl) (by rw [hb]; rfl))⟩
    obtain ⟨v, hv⟩ := hreturns
    rw [hv] at h
    cases h
  · cases h

/-- A program with a chart of its lines: all runs stay on it, and all of it but the lines of
definitions is reached by calls on integers. -/
structure Mapped (p : Program) (m : Module) (lines : List Nat) : Prop where
  load : Module.load .standard p = .ok m
  charted : m.Charted (Term.equatesApart 32) lines
  definitions : ∀ d ∈ p.functions, d.line ∈ lines
  reached : ∀ n ∈ lines, n ∈ p.functions.map Definition.line ∨
    ∃ index ns, n ∈ (m.result index ns).2.lines

theorem named_loaded {p : Program} {names : List String} (hnodup : names.Nodup)
    (hnames : ∀ x ∈ names, x.startsWith "__" = false)
    (hcount : p.functions.length = names.length) :
    ∀ i < (loaded p names).functions.length, ∃ name : String,
      name.startsWith "__" = false ∧
        (loaded p names).memory.globals.lookup name = some (.function i) := by
  intro i hi
  rw [loaded, List.length_map, hcount] at hi
  refine ⟨names[i], hnames _ (List.getElem_mem hi), ?_⟩
  rw [loaded, List.lookup_eq_some_iff_mem]
  · exact List.mem_map.mpr ⟨(names[i], i), List.mem_zipIdx_iff_getElem?.mpr
      (List.getElem?_eq_getElem hi), rfl⟩
  · have hfst : (loaded p names).memory.globals.map Prod.fst = names := by
      rw [loaded, List.map_map]
      exact List.zipIdx_map_fst 0 names
    exact hfst.symm ▸ hnodup

/-- What is left to check of a sample: its text, its runs on unknowns, and calls that reach its
lines. -/
theorem Mapped.of_checks {p : Program} {names : List String} {lines : List Nat}
    (further : Option Yield) (inputs : List (Nat × List Int))
    (hload : Module.load .standard p = .ok (loaded p names)) (hfree : p.globalFree = true)
    (hnames : names.Nodup ∧ p.functions.length = names.length)
    (hvisited : ∀ x ∈ names, x.startsWith "__" = false)
    (hagrees : (loaded p names).agreesBy (usesOf further) = true)
    (hreturns : further = some .number → (loaded p names).Returns 0)
    (hstays : ∀ i < (loaded p names).functions.length,
      (loaded p names).staysWithin (Term.equatesApart 32) lines i = true)
    (hdefinitions : ∀ d ∈ p.functions, d.line ∈ lines)
    (hreached : lines.all (fun n => (p.functions.map Definition.line).contains n ||
      inputs.any fun (index, ns) => ((loaded p names).result index ns).2.lines.contains n)
        = true) : Mapped p (loaded p names) lines where
  load := hload
  definitions := hdefinitions
  charted := {
    globalFree := Module.load_globalFree hfree hload
    distinct := Module.load_distinct hload
    agrees := by
      refine ⟨usesOf further, .of_agreesBy hagrees fun i hi => ?_, fun _ _ => rfl⟩
      obtain ⟨rfl, hnumber⟩ := number_of_usesOf hi
      exact hreturns hnumber
    named := named_loaded hnames.1 hvisited hnames.2
    refutes := fun p hp ρ => Term.eval_of_equatesApart hp ρ
    stays := hstays }
  reached := by
    intro n hn
    rcases Bool.or_eq_true_iff.mp (List.all_eq_true.mp hreached n hn) with hdef | hinput
    · exact .inl (List.contains_iff_mem.mp hdef)
    · obtain ⟨⟨index, ns⟩, -, hmem⟩ := List.any_eq_true.mp hinput
      exact .inr ⟨index, ns, List.contains_iff_mem.mp hmem⟩

theorem membership_mapped : Mapped membership membershipModule [1, 2, 3, 4, 5, 7] :=
  .of_checks none [(0, [42]), (0, [-600]), (0, [0])] rfl (by decide) (by decide) (by simp)
    (by decide) (fun h => by cases h) (by decide +kernel) (by decide) (by decide +kernel)

theorem middle_mapped : Mapped middle middleModule [1, 2, 3, 4, 5, 7, 9, 11] :=
  .of_checks none [(0, [0, 2, 1]), (0, [0, 2, 0]), (0, [0, 2, 2]), (0, [0, 0, 0])] rfl (by decide)
    (by decide) (by simp) (by decide) (fun h => by cases h) (by decide +kernel) (by decide)
    (by decide +kernel)

theorem parity_mapped : Mapped parity parityModule [1, 2, 3, 4, 6] :=
  .of_checks none [(0, [0, 0]), (0, [1, 0])] rfl (by decide) (by decide) (by simp) (by decide)
    (fun h => by cases h) (by decide +kernel) (by decide) (by decide +kernel)

theorem unreachable_mapped : Mapped unreachable unreachableModule [1, 2, 5, 7, 8, 10, 11, 13] :=
  .of_checks (some .truth) [(0, [0]), (1, [0, 32]), (1, [0, 0])] rfl (by decide) (by decide)
    (by simp) (by decide) (fun h => by cases h) (by decide +kernel) (by decide)
    (by decide +kernel)

theorem squares_mapped : Mapped squares squaresModule
    [1, 2, 3, 5, 7, 8, 9, 10, 11, 12, 14, 16, 17, 18, 20] :=
  .of_checks (some .number)
    [(0, [0]), (0, [1]), (1, [10, 1]), (1, [0, 1]), (1, [-1, 0]), (1, [0, 0])] rfl (by decide)
    (by decide) (by simp) (by decide) (fun _ => half_square_returns) (by decide +kernel)
    (by decide) (by decide +kernel)

theorem reassignment_mapped : Mapped reassignment reassignmentModule
    [3, 4, 5, 7, 8, 9, 11, 12, 13, 14, 16] :=
  .of_checks none [(0, [-12, 54]), (0, [-12, 0]), (0, [-12, 100])] rfl (by decide) (by decide)
    (by simp) (by decide) (fun h => by cases h) (by decide +kernel) (by decide)
    (by decide +kernel)

/-- Every sample is mapped by the lines of the reference. -/
theorem exists_mapped {k : Nat} {p : Program} (h : program? k = some p) :
    ∃ m lines, Mapped p m lines ∧
      executedLines.lookup ("example" ++ decimal k ++ ".py") = some lines ∧
      (k = 4 → 3 ∉ lines ∧ 9 ∉ lines) := by
  have hlt : k < 7 := by
    by_contra hge
    have hnone : programs[k - 1]? = none := by
      rw [List.getElem?_eq_none_iff]
      show 6 ≤ k - 1
      omega
    rw [program?, hnone] at h
    split at h <;> cases h
  match k with
  | 0 => cases h
  | 1 =>
    obtain rfl := Option.some.inj h
    exact ⟨_, _, membership_mapped, by decide +kernel, by decide⟩
  | 2 =>
    obtain rfl := Option.some.inj h
    exact ⟨_, _, middle_mapped, by decide +kernel, by decide⟩
  | 3 =>
    obtain rfl := Option.some.inj h
    exact ⟨_, _, parity_mapped, by decide +kernel, by decide⟩
  | 4 =>
    obtain rfl := Option.some.inj h
    exact ⟨_, _, unreachable_mapped, by decide +kernel, by decide⟩
  | 5 =>
    obtain rfl := Option.some.inj h
    exact ⟨_, _, squares_mapped, by decide +kernel, by decide⟩
  | 6 =>
    obtain rfl := Option.some.inj h
    exact ⟨_, _, reassignment_mapped, by decide +kernel, by decide⟩

/--
**The reference coverage is reached, whatever models are found.** Take a correct solver whose models
declare unknowns of the formulas only, and explore all functions of a sample program. This returns
tests, and all of them give integers to the parameters. Loading the program and making the calls of
the tests executes exactly the lines that the reference lists for it. No call of a function of the
program on integers executes another line; in the fourth sample these are the lines three and nine.
-/
theorem reference_executed {solver : Solver} (hS : solver.Correct) (hF : solver.Frugal)
    (trail : Trail) {k : Nat} {p : Program} (hp : program? k = some p) :
    ∃ m lines entries, Module.load .standard p = .ok m ∧
      executedLines.lookup ("example" ++ decimal k ++ ".py") = some lines ∧
      (m.exploreAll solver .exact trail).result = .ok entries ∧
      (∀ name test, (name, test) ∈ TestFile.calls entries → ∃ ints, test = Test.ofInts ints) ∧
      (∀ n, n ∈ p.functions.map Definition.line ++ m.executed entries ↔ n ∈ lines) ∧
      (∀ index ns, ∀ n ∈ (m.result index ns).2.lines, n ∈ lines) ∧
      (k = 4 → ∀ index ns,
        3 ∉ (m.result index ns).2.lines ∧ 9 ∉ (m.result index ns).2.lines) := by
  obtain ⟨m, lines, hmapped, hlookup, hmissing⟩ := exists_mapped hp
  have hcharted := hmapped.charted
  obtain ⟨entries, hentries⟩ := hcharted.exploreAll_ok hS hF trail
  refine ⟨m, lines, entries, hmapped.load, hlookup, hentries, ?_, ?_, hcharted.lines_of_result, ?_⟩
  · intro name test hcall
    obtain ⟨-, -, ints, -, -, hints, -⟩ := hcharted.calls_ints hS hF hentries hcall
    exact ⟨ints, hints⟩
  · intro n
    rw [List.mem_append, hcharted.mem_executed hS hF hentries]
    constructor
    · rintro (hdef | ⟨index, ns, hn⟩)
      · obtain ⟨d, hd, rfl⟩ := List.mem_map.mp hdef
        exact hmapped.definitions d hd
      · exact hcharted.lines_of_result index ns n hn
    · exact hmapped.reached n
  · intro hk index ns
    exact ⟨fun h => (hmissing hk).1 (hcharted.lines_of_result index ns _ h),
      fun h => (hmissing hk).2 (hcharted.lines_of_result index ns _ h)⟩

/-- The sample with a condition that no integer meets, explored by a solver that prefers seven. -/
theorem unreachable_reference_executed :
    let solver := Solver.preferring (Positive.valued 7)
    solver.Correct ∧ solver.Frugal ∧ program? 4 = some unreachable ∧
    ∃ m lines entries, Module.load .standard unreachable = .ok m ∧
      executedLines.lookup "example4.py" = some lines ∧
      (m.exploreAll solver .exact (.start [])).result = .ok entries ∧
      (∀ n, n ∈ unreachable.functions.map Definition.line ++ m.executed entries ↔ n ∈ lines) ∧
      ∀ index ns, 3 ∉ (m.result index ns).2.lines ∧ 9 ∉ (m.result index ns).2.lines := by
  intro solver
  have hS : solver.Correct := Solver.preferring_correct _
  have hF : solver.Frugal := Solver.preferring_frugal _
  obtain ⟨m, lines, entries, hload, hlookup, hentries, -, hexecuted, -, hmissing⟩ :=
    reference_executed hS hF (.start []) (k := 4) rfl
  exact ⟨hS, hF, rfl, m, lines, entries, hload, hlookup, hentries, hexecuted, hmissing rfl⟩

end Sample

end Pathwise
