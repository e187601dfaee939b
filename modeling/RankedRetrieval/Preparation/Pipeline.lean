import RankedRetrieval.Preparation.Flattening
import RankedRetrieval.Preparation.PassageScope
import RankedRetrieval.Preparation.Scoring

set_option autoImplicit false

namespace RankedRetrieval.Preparation

def standard (v : Vocabulary) (levels : List Parameters) : List Pass :=
  [scoring v (scorerSetting levels), flattening v, passageScope v (.ofSettings levels)]

def prepare (v : Vocabulary) (levels : List Parameters) (q : Query) : Except QueryError Query :=
  match Pass.runAll (standard v levels) (.ofQuery q) with
  | (g, none) => .ok g.toQuery
  | (_, some e) => .error e

end RankedRetrieval.Preparation
