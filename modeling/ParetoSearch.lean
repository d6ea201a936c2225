import ParetoSearch.Argument
import ParetoSearch.Binary64
import ParetoSearch.BoxGrid
import ParetoSearch.Catalogue
import ParetoSearch.Comparator
import ParetoSearch.Configuration
import ParetoSearch.Container
import ParetoSearch.Decimal.Numeral
import ParetoSearch.Decimal.Scientific
import ParetoSearch.Decimal.Shortest
import ParetoSearch.Dominance
import ParetoSearch.Draws
import ParetoSearch.Fault
import ParetoSearch.Fitness.Scheme
import ParetoSearch.Fitness.Tracked
import ParetoSearch.Fitness.Tracker
import ParetoSearch.Front
import ParetoSearch.Hypervolume
import ParetoSearch.Indicator
import ParetoSearch.Initialization
import ParetoSearch.Normalizer
import ParetoSearch.ObjectiveTable
import ParetoSearch.Problem.Basic
import ParetoSearch.Problem.Sample
import ParetoSearch.Problem.Zdt
import ParetoSearch.Proofs.Antisymmetry
import ParetoSearch.Proofs.Archive.Apart
import ParetoSearch.Proofs.Archive.Coverage
import ParetoSearch.Proofs.Archive.Duplicates
import ParetoSearch.Proofs.Archive.Feasible
import ParetoSearch.Proofs.Archive.Frontier
import ParetoSearch.Proofs.Archive.Insertion
import ParetoSearch.Proofs.Archive.Session
import ParetoSearch.Proofs.Arithmetic.Absorbing
import ParetoSearch.Proofs.Arithmetic.Chaining
import ParetoSearch.Proofs.Arithmetic.Distance
import ParetoSearch.Proofs.Arithmetic.Exact
import ParetoSearch.Proofs.Arithmetic.Extended
import ParetoSearch.Proofs.Arithmetic.Extremes
import ParetoSearch.Proofs.Arithmetic.Order
import ParetoSearch.Proofs.Arithmetic.Signs
import ParetoSearch.Proofs.Arithmetic.Special
import ParetoSearch.Proofs.Arithmetic.Sums
import ParetoSearch.Proofs.Arithmetic.Symmetry
import ParetoSearch.Proofs.Boxes
import ParetoSearch.Proofs.Comparator
import ParetoSearch.Proofs.Configuration
import ParetoSearch.Proofs.Dominance
import ParetoSearch.Proofs.Draws
import ParetoSearch.Proofs.Fitness.Drift
import ParetoSearch.Proofs.Fitness.Frozen
import ParetoSearch.Proofs.Fitness.Measure
import ParetoSearch.Proofs.Fitness.Preference
import ParetoSearch.Proofs.Fitness.Recomputed
import ParetoSearch.Proofs.Fitness.Reordered
import ParetoSearch.Proofs.Fitness.Rescaled
import ParetoSearch.Proofs.Fitness.Spoilt
import ParetoSearch.Proofs.Fitness.Superiority
import ParetoSearch.Proofs.Fitness.Unions
import ParetoSearch.Proofs.Fitness.Upkeep
import ParetoSearch.Proofs.Front
import ParetoSearch.Proofs.Hypervolume
import ParetoSearch.Proofs.Indicator.Covering
import ParetoSearch.Proofs.Indicator.Distances
import ParetoSearch.Proofs.Indicator.Frames
import ParetoSearch.Proofs.Indicator.Fronts
import ParetoSearch.Proofs.Indicator.Rescaled
import ParetoSearch.Proofs.Indicator.Volume
import ParetoSearch.Proofs.Problem.Batch
import ParetoSearch.Proofs.Problem.Curves
import ParetoSearch.Proofs.Problem.Halfway
import ParetoSearch.Proofs.Ranking
import ParetoSearch.Proofs.Registry.Completion
import ParetoSearch.Proofs.Registry.Requests
import ParetoSearch.Proofs.Rescaling
import ParetoSearch.Proofs.Search.Accounts
import ParetoSearch.Proofs.Search.Assembled
import ParetoSearch.Proofs.Search.Batchwise
import ParetoSearch.Proofs.Search.Breeding
import ParetoSearch.Proofs.Search.Calls
import ParetoSearch.Proofs.Search.Displacement
import ParetoSearch.Proofs.Search.Elitism
import ParetoSearch.Proofs.Search.Failure
import ParetoSearch.Proofs.Search.Frame
import ParetoSearch.Proofs.Search.Generation
import ParetoSearch.Proofs.Search.Handout
import ParetoSearch.Proofs.Search.Reordered
import ParetoSearch.Proofs.Search.Sound
import ParetoSearch.Proofs.Search.Steady
import ParetoSearch.Proofs.Search.Truncation
import ParetoSearch.Proofs.Store
import ParetoSearch.Proofs.Tournament
import ParetoSearch.Proofs.Transitivity
import ParetoSearch.Proofs.Variation.Bounds
import ParetoSearch.Proofs.Variation.Crossover
import ParetoSearch.Proofs.Variation.Fixed
import ParetoSearch.Proofs.Variation.Mutation
import ParetoSearch.Proofs.Work
import ParetoSearch.Ranking
import ParetoSearch.Registry.Indicators
import ParetoSearch.Registry.Names
import ParetoSearch.Registry.Schemes
import ParetoSearch.Scalar
import ParetoSearch.Search.Assembly
import ParetoSearch.Search.Machine
import ParetoSearch.Search.Outcome
import ParetoSearch.Search.Setting
import ParetoSearch.Solution
import ParetoSearch.Store
import ParetoSearch.Tensor
import ParetoSearch.Text.Blank
import ParetoSearch.Text.Quoted
import ParetoSearch.Text.Unprinted
import ParetoSearch.Tournament
import ParetoSearch.Variation.Bounds
import ParetoSearch.Variation.Crossover
import ParetoSearch.Variation.Family
import ParetoSearch.Variation.Mutation
import ParetoSearch.Vector
import ParetoSearch.Work
import ParetoSearch.World
