import DOptimas.Heuristics.BinaryPartition
/-!
# Motions on partitions

A change puts a new element with the other flag in the place of one of a clone.  A
swap draws two positions and leaves the clone as it is.
-/

namespace DOptimas.Heuristics

open DOptimas.Support
open BinaryPartitionNumberProblem (isPresent newElement)

variable {K : Type} [RealArith K]

def BinaryPartitionChangePerformsMotion.movement (solution : Ref) (index : ℕ) :
    Program K Ref := do
  let value ← nth (← deref solution).solutionsVector index
  let moved ← clone solution
  let present ← orThrow (isPresent value)
  setElement moved index (← newElement (!present))
  return moved

/-- The bound of the draws comes from the solution that is given. -/
def BinaryPartitionRandomChangeSolutionModifier.motion (solution result : Ref) :
    Program K Ref := do
  let index ← nextInt 0 ((← deref solution).problem.dimension - 1)
  BinaryPartitionChangePerformsMotion.movement result index.toNat

def BinaryPartitionRandomChangeSolutionModifier.modify (solution : Ref) (motionsCount : ℤ) :
    Program K Ref :=
  (List.range motionsCount.toNat).foldlM (fun result _ => motion solution result) solution

/-- The elements are not exchanged. -/
def BinaryPartitionSwapPerformsMotion.movement (solution : Ref) : Program K Ref := clone solution

/-- A draw from no trial is zero, where the second argument is a probability. -/
def nextBinomial (probabilityOfSuccess : ℕ) : Program K ℤ := do
  if 1 < probabilityOfSuccess then throw .illegalArgument
  let _ ← nextDouble
  return 0

namespace BinaryPartitionRandomSwapSolutionModifier

def drawIndexes (fuel : ℕ) (solution : Ref) : Program K (ℤ × ℤ) := do
  let dimension := (← deref solution).problem.dimension
  let index1 ← nextInt 0 dimension
  let index2 ← nextBinomial dimension
  let index2 ← repeatWhile .unfinished (fun index2 => return index2 = index1)
    (fun _ => nextBinomial dimension) fuel index2
  return (index1, index2)

def motion (fuel : ℕ) (solution result : Ref) : Program K Ref := do
  let _ ← drawIndexes fuel solution
  BinaryPartitionSwapPerformsMotion.movement result

def modify (fuel : ℕ) (solution : Ref) (motionsCount : ℤ) : Program K Ref :=
  (List.range motionsCount.toNat).foldlM (fun result _ => motion fuel solution result) solution

end BinaryPartitionRandomSwapSolutionModifier

inductive PartitionModifier where
  | binaryPartitionRandomChange
  | binaryPartitionRandomSwap
  | otherSolutionClass
  deriving DecidableEq

def PartitionModifier.toSolutionModifier (fuel : ℕ) : PartitionModifier → SolutionModifier K
  | binaryPartitionRandomChange =>
      ⟨fun solution motionsCount =>
        BinaryPartitionRandomChangeSolutionModifier.modify solution motionsCount⟩
  | binaryPartitionRandomSwap =>
      ⟨fun solution motionsCount =>
        BinaryPartitionRandomSwapSolutionModifier.modify fuel solution motionsCount⟩
  | otherSolutionClass => ⟨fun _ _ => throw .classCast⟩

end DOptimas.Heuristics
