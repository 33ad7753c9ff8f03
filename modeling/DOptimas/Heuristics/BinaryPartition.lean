import DOptimas.Heuristics.Components
/-!
# Number partitioning

A vector selects some of the weights.  Sums are Java `int`s, which wrap around.
-/

namespace DOptimas.Heuristics

open DOptimas.Support

def toInt32 (n : ℤ) : ℤ := n.bmod (2 ^ 32)

/-- `Math.abs`, which leaves the smallest `int` as it is. -/
def absInt32 (n : ℤ) : ℤ := if n < 0 then toInt32 (-n) else n

structure BinaryPartitionNumberProblem where
  id : ℕ
  max : Bool
  dimension : ℕ
  partitions : ℤ
  weights : List ℤ
  upperLimit : ℤ
  deriving DecidableEq

namespace BinaryPartitionNumberProblem

variable {K : Type}

def isPresent : Option (Element K) → Except Exception Bool
  | none => .error .nullPointer
  | some (.binaryPartitionNumber _ present) => .ok present
  | some _ => .error .classCast

def getWeightSum (p : BinaryPartitionNumberProblem) : ℤ :=
  match p.weights with
  | [] => 0
  | w :: ws => ws.foldl (fun sum w => toInt32 (sum + w)) w

def partition (p : BinaryPartitionNumberProblem) :
    ℤ → ℕ → List (Option (Element K)) → Except Exception ℤ
  | sum, _, [] => .ok sum
  | sum, i, element :: elements =>
      match isPresent element with
      | .error e => .error e
      | .ok false => p.partition sum (i + 1) elements
      | .ok true =>
          match p.weights[i]? with
          | none => .error .indexOutOfBounds
          | some w => p.partition (toInt32 (sum + w)) (i + 1) elements

def objectiveFunction (p : BinaryPartitionNumberProblem) (vector : List (Option (Element K))) :
    Except Exception ℤ := do
  let partition ← p.partition 0 0 vector
  return absInt32 (toInt32 (partition - p.getWeightSum))

def checkViability (vector : List (Option (Element K))) : Bool × Except Exception Unit :=
  match vector.mapM isPresent with
  | .error e => (false, .error e)
  | .ok presents => (decide (presents.count true < vector.length), .ok ())

def adaptiveFunctionValue (p : BinaryPartitionNumberProblem) (vector : List (Option (Element K)))
    (value : Element K) : Except Exception (Option ℤ) := do
  if vector.length = p.dimension then
    return none
  let partition ← p.partition 0 0 (vector ++ [some value])
  return some (absInt32 (toInt32 (p.getWeightSum - partition)))

def toProblem [RealArith K] (p : BinaryPartitionNumberProblem) : Problem K :=
  { id := p.id
    name := .binaryPartitionNumber
    dimension := p.dimension
    nullInit := false
    analyser := .binaryPartitionNumber
    max := p.max
    initialValue := 2147483647
    parsedInitialValue := .ok 2147483647
    domain := fun _ => .error .classCast
    objectiveFunction := fun _ vector =>
      ⟨0, (p.objectiveFunction vector).map fun value => (value : K)⟩
    checkViability := checkViability
    adaptiveFunctionValue := fun _ vector value =>
      ⟨0, (p.adaptiveFunctionValue vector value).map fun result =>
        result.map fun value => (value : K)⟩ }

def newElement [RealArith K] (present : Bool) : Program K (Element K) :=
  modifyGet fun w => (.binaryPartitionNumber w.nextIdentity present,
    { w with nextIdentity := w.nextIdentity + 1 })

/-- As many selected elements as others, in turn. -/
def binaryPartitionCandidatesList [RealArith K] (p : BinaryPartitionNumberProblem) :
    CandidatesList K where
  getCandidates :=
    (List.range (2 * p.weights.length)).mapM fun i => newElement (decide (i % 2 = 0))

end BinaryPartitionNumberProblem

end DOptimas.Heuristics
