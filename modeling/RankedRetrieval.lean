import RankedRetrieval.Collection.Builder
import RankedRetrieval.Retrieval.Batch
import RankedRetrieval.Proofs.Plan.Moves
import RankedRetrieval.Proofs.Ranking.Best
import RankedRetrieval.Proofs.Retrieval.Exhaustive
import RankedRetrieval.Proofs.Plan.Paths
import RankedRetrieval.Proofs.Score.Order
import RankedRetrieval.Proofs.Plan.Abandoned
import RankedRetrieval.Proofs.Plan.Brought
import RankedRetrieval.Proofs.Plan.Settings
import RankedRetrieval.Proofs.Retrieval.Pruning
import RankedRetrieval.Proofs.Score.Rounding
import RankedRetrieval.Proofs.Score.Monotone
import RankedRetrieval.Proofs.Preparation.Stable
import RankedRetrieval.Proofs.Retrieval.Refusals
import RankedRetrieval.Proofs.Retrieval.Prepared
import RankedRetrieval.Proofs.Graph.Offered
import RankedRetrieval.Proofs.Setting.Batched
import RankedRetrieval.Proofs.Span.Unordered
import RankedRetrieval.Proofs.Collection.Contents
import RankedRetrieval.Proofs.Plan.Trimmed
import RankedRetrieval.Proofs.Plan.Excerpt
import RankedRetrieval.Proofs.Score.Likelihood
import RankedRetrieval.Proofs.Span.Arranged
import RankedRetrieval.Proofs.Plan.Counted
import RankedRetrieval.Proofs.Plan.Tallied
import RankedRetrieval.Proofs.Retrieval.Bounded
import RankedRetrieval.Proofs.Retrieval.Saturated
import RankedRetrieval.Proofs.Plan.Enclosed
import RankedRetrieval.Proofs.Ranking.Keys
import RankedRetrieval.Proofs.Retrieval.Accounts
import RankedRetrieval.Proofs.Plan.Windowed
import RankedRetrieval.Proofs.Plan.Withheld
import RankedRetrieval.Proofs.Collection.Reflected
import RankedRetrieval.Proofs.Plan.Surveyed
import RankedRetrieval.Proofs.Retrieval.Contained
import RankedRetrieval.Proofs.Preparation.Boundaries
import RankedRetrieval.Proofs.Retrieval.Covered
import RankedRetrieval.Proofs.Plan.Exchanged
import RankedRetrieval.Proofs.Preparation.Folded
import RankedRetrieval.Proofs.Graph.Moved
import RankedRetrieval.Proofs.Graph.Compacted
import RankedRetrieval.Proofs.Retrieval.Collected
import RankedRetrieval.Proofs.Preparation.Flattened
import RankedRetrieval.Proofs.Retrieval.Outranked
import RankedRetrieval.Proofs.Graph.Searched
import RankedRetrieval.Proofs.Plan.Listed
import RankedRetrieval.Proofs.Span.Formed
import RankedRetrieval.Proofs.Span.Indexed
import RankedRetrieval.Proofs.Plan.Visited
import RankedRetrieval.Proofs.Plan.Formed
