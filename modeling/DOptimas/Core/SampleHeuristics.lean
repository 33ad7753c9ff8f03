import DOptimas.Core.Agent
import DOptimas.Support.Rational
/-!
# Executable heuristics

An instance of the metaheuristics' interface over the rationals, on which
concrete runs are evaluated: a heuristic that hands back the solutions it was
given, `NSGA2`, whose run returns `null`, and a constructor that draws the
origin and asks for its value.
-/

namespace DOptimas.Core

open DOptimas.Support

inductive SampleHeuristic where
  | identity
  | nsga2
  | origin
  deriving DecidableEq

namespace SampleHeuristic

def named : ℕ → SampleHeuristic
  | 0 => identity
  | 1 => nsga2
  | _ => origin

def evaluated (y : ℚ) : Solution ℚ :=
  { id := 0, agent := none, solutionsVector := [some 0], functionValue := some y
    viable := true, changed := false }

def run : SampleHeuristic → List (Solution ℚ) → Run SampleHeuristic ℚ
  | identity, solutions => .done (some solutions) identity ⟨0, solutions.head?⟩
  | nsga2, _ => .done none nsga2 .resetContext
  | origin, _ => .evaluateFunction [0] fun
      | none => .throws origin .resetContext
      | some y => .done (some [evaluated y]) origin ⟨1, some (evaluated y)⟩

end SampleHeuristic

def sampleDraw : Draw ℚ := ⟨3 / 4, by norm_num, by norm_num⟩

instance : MetaHeuristics ℚ where
  Memory := SampleHeuristic
  buildMetaHeuristic settings _ := .named settings.metaHeuristicName
  configure _ _ memory := memory
  runMetaHeuristic memory solutions _ _ := memory.run solutions

end DOptimas.Core
