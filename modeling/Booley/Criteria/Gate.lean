import Booley.Criteria.Replay

/-!
# The threshold gate of a declared Criterion

A report that carries a detail is held against every threshold of its Criterion, and a threshold
that the detail cannot answer fails. A report without a detail is not held against any.
-/
namespace Booley.Criteria

open Booley.Lib Booley.Goals

/-- The parameters of a Criterion that are thresholds. -/
def CriterionParams.thresholds (params : CriterionParams) : Json.Fields :=
  params.fields.filter fun param => isGated param.1 && isThreshold param.1

section Gate

variable {eval : Evaluators} {params : CriterionParams} {report : Report}

variable [CanonicalTexts] {latchFollowsJudged : Bool} {key : String}

end Gate

end Booley.Criteria
