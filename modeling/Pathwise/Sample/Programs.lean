import Pathwise.Program.Syntax

/-!
# Sample programs

Six small modules to explore. Together they have nested and chained conditions, a condition that
no integer meets, functions that call each other and reassigned parameters.
-/

namespace Pathwise

namespace Sample

/-- An integer. -/
def num (n : Int) : Expr := .literal (.int n)

/-- A truth value as a result. -/
def answer (b : Bool) : Stmt := .result (some (.literal (.bool b)))

/-- A function of positional parameters. -/
def define (line : Nat) (name : String) (params : List String) (body : List (Nat × Stmt)) :
    Definition :=
  ⟨line, name, params.map fun x => ⟨x, .positional, none⟩, .ofList body⟩

/-- A module of functions alone. -/
def moduleOf (functions : List Definition) : Program := ⟨[], [], functions, []⟩

/-- A single value and a half line. -/
def membership : Program := moduleOf [
  define 1 "foo" ["x"] [
    (2, .branch (.compare .eq (.name "x") (num 42))
      (.ofList [(3, answer true)])
      (.ofList [(4, .branch (.compare (.order .lt) (.name "x") (.unary .neg (num 512)))
        (.ofList [(5, answer true)])
        (.ofList [(7, answer false)]))]))]]

/-- Where a third number lies between two others. -/
def middle : Program := moduleOf [
  define 1 "bar" ["x", "y", "z"] [
    (2, .branch (.compare (.order .lt) (.name "x") (.name "y"))
      (.ofList [(3, .branch (.compare (.order .lt) (.name "z") (.name "y"))
        (.ofList [(4, .branch (.compare (.order .lt) (.name "x") (.name "z"))
          (.ofList [(5, .assign "result" (.name "z"))])
          (.ofList [(7, .assign "result" (.name "x"))]))])
        (.ofList [(9, .assign "result" (.name "y"))]))])
      (.ofList [(11, .assign "result" (num 0))]))]]

/-- A difference, negated if it is odd. -/
def parity : Program := moduleOf [
  define 1 "foo" ["x", "y"] [
    (2, .assign "z" (.binary (.arith .sub) (.name "x") (.name "y"))),
    (3, .branch (.compare .eq (.binary (.arith .mod) (.name "z") (num 2)) (num 0))
      (.ofList [(4, .result (some (.name "z")))])
      (.ofList [(6, .result (some (.unary .neg (.name "z"))))]))]]

/-- A condition that no integer meets, used by another function. -/
def unreachable : Program := moduleOf [
  define 1 "foo" ["x"] [
    (2, .branch
      (.compare .eq
        (.binary (.arith .sub) (.binary (.arith .mul) (.name "x") (num 32)) (num 16)) (num 4))
      (.ofList [(3, answer true)])
      (.ofList [(5, answer false)]))],
  define 7 "bar" ["x", "y"] [
    (8, .branch
      (.and (.call "foo" (.ofList [.name "y"])) (.compare (.order .lt) (.name "x") (num 32)))
      (.ofList [(9, .print "Arrrgh!")])
      (.ofList [(10, .branch
        (.and (.not (.call "foo" (.ofList [.name "x"])))
          (.or (.compare .eq (.name "y") (num 32))
            (.compare .eq (.binary (.arith .add) (.name "x") (.name "y")) (num 100))))
        (.ofList [(11, .print "Huh??")])
        (.ofList [(13, .print "Nevermind.")]))]))]]

/-- Squares and doubles, and conditions on them. -/
def squares : Program := moduleOf [
  define 1 "half_square" ["x"] [
    (2, .branch (.compare .eq (.binary (.arith .mod) (.name "x") (num 2)) (num 0))
      (.ofList [(3, .result (some (.binary (.arith .mul) (.name "x") (.name "x"))))])
      (.ofList [(5, .result (some (.binary (.arith .mul) (.name "x") (num 2))))]))],
  define 7 "compute" ["a", "b"] [
    (8, .branch (.compare .eq (.binary (.arith .mod) (.name "b") (num 2)) (num 1))
      (.ofList [
        (9, .assign "c"
          (.binary (.arith .add) (.binary (.arith .add) (.name "a") (.name "b")) (num 1))),
        (10, .assign "d" (.call "half_square" (.ofList [.name "c"]))),
        (11, .branch
          (.and (.compare (.order .lt) (num 100) (.name "d"))
            (.compare (.order .lt) (.name "d") (num 200)))
          (.ofList [(12, .print "aha")])
          (.ofList [(14, .print "huh?")]))])
      (.ofList [
        (16, .assign "e" (.call "half_square" (.ofList [.name "a"]))),
        (17, .branch (.compare (.order .lt) (.name "e") (num 0))
          (.ofList [(18, .print "yeah!")])
          (.ofList [(20, .print "oh!")]))]))]]

/-- Parameters that are assigned again. -/
def reassignment : Program := moduleOf [
  define 3 "advanced" ["x", "y"] [
    (4, .assign "x" (.binary (.arith .add) (.name "x") (.name "y"))),
    (5, .assign "y" (.binary (.arith .sub) (.name "y") (num 12))),
    (7, .branch (.compare .eq (.name "x") (.name "y"))
      (.ofList [(8, .branch (.compare .eq (.name "y") (num 42))
        (.ofList [(9, .print "y is 30!")])
        (.ofList [
          (11, .assign "y" (.binary (.arith .add) (.name "y") (num 3))),
          (12, .assign "z"
            (.binary (.arith .sub) (.binary (.arith .mul) (num 3) (.name "y")) (.name "x"))),
          (13, .branch (.compare (.order .lt) (.name "z") (.name "x"))
            (.ofList [(14, .print "z is less than x")])
            (.ofList [(16, .print "z is not less than x")]))]))])
      .done)]]

/-- The sample programs in their order, counted from one. -/
def programs : List Program := [membership, middle, parity, unreachable, squares, reassignment]

/-- The sample program of a number. -/
def program? (n : Nat) : Option Program := if n = 0 then none else programs[n - 1]?

end Sample

end Pathwise
