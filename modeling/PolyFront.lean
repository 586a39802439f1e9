import PolyFront.Source.Log
import PolyFront.Collection.Multimap
import PolyFront.Collection.Partition
import PolyFront.Collection.UnionFind
import PolyFront.Collection.Walk
import PolyFront.Constant.Simplify
import PolyFront.Scope.Stack
import PolyFront.Front
import PolyFront.Tree.Traverse
import PolyFront.Ty.Basic
import PolyFront.Proofs.Faultless.Named
import PolyFront.Proofs.Faultless.Naming
import PolyFront.Proofs.Faultless.Solving
import PolyFront.Proofs.Faultless.Kinds
import PolyFront.Proofs.Faultless.Types
import PolyFront.Proofs.Faultless.Exprs
import PolyFront.Proofs.Faultless.Front
import PolyFront.Proofs.Solutions.Classes
import PolyFront.Proofs.Solutions.Sound
import PolyFront.Proofs.Solutions.KindTerms
import PolyFront.Proofs.Solutions.TypeTerms
import PolyFront.Proofs.Solutions.Kinds
import PolyFront.Proofs.Solutions.Types
import PolyFront.Proofs.Solutions.Runs
import PolyFront.Proofs.Solutions.Store
import PolyFront.Proofs.Solutions.Fresh
import PolyFront.Proofs.Solutions.Subkind
import PolyFront.Proofs.Solutions.Subtype
import PolyFront.Proofs.Solutions.Histories
import PolyFront.Proofs.Solutions.Defaults
import PolyFront.Proofs.Solutions.Dropping
import PolyFront.Proofs.Solutions.Masks
import PolyFront.Proofs.Solutions.Popping
import PolyFront.Proofs.Meaning.Binders
import PolyFront.Proofs.Meaning.Layout
import PolyFront.Proofs.Constant.Moves
import PolyFront.Proofs.Constant.Passes
import PolyFront.Proofs.Constant.Covered
import PolyFront.Proofs.Dependencies.Groups
import PolyFront.Proofs.Dependencies.References
import PolyFront.Proofs.Partition.Agreement
import PolyFront.Proofs.Kinding.Ground
import PolyFront.Proofs.Kinding.Trees
import PolyFront.Proofs.Kinding.Quiet
import PolyFront.Proofs.Kinding.Soundness
import PolyFront.Proofs.Kinding.Placed
import PolyFront.Proofs.Kinding.Data
import PolyFront.Proofs.Constant.Settled
import PolyFront.Proofs.Constant.Blocks
import PolyFront.Proofs.Constant.Scheduled
import PolyFront.Proofs.Constant.Drained
import PolyFront.Proofs.Constant.Related
import PolyFront.Proofs.Constant.Simulated
import PolyFront.Proofs.Annotation.Types
import PolyFront.Proofs.Annotation.Values
import PolyFront.Proofs.Constant.Advances
import PolyFront.Proofs.Constant.Terminates
import PolyFront.Proofs.Constant.Stable
import PolyFront.Proofs.Constant.Renamed
import PolyFront.Proofs.Constant.Preserved
import PolyFront.Proofs.Constant.Permuted
import PolyFront.Proofs.Constant.Constructors
import PolyFront.Proofs.Meaning.Free
import PolyFront.Proofs.Constant.Scopes
import PolyFront.Proofs.Naming.Alike
import PolyFront.Proofs.Naming.Populated
import PolyFront.Proofs.Naming.Permuted
import PolyFront.Proofs.Naming.Confined
import PolyFront.Proofs.Unification.Terms
import PolyFront.Proofs.Unification.Runs
import PolyFront.Proofs.Unification.Merging
import PolyFront.Proofs.Unification.Expansions
import PolyFront.Proofs.Unification.Instantiation
import PolyFront.Proofs.Unification.Assignments
import PolyFront.Proofs.Unification.Checks
import PolyFront.Proofs.Unification.Histories
import PolyFront.Proofs.Unification.Placement
import PolyFront.Proofs.Renaming.Stores
import PolyFront.Proofs.Renaming.Subtype
import PolyFront.Proofs.Bindings.Declared
import PolyFront.Proofs.Subtyping.Checks
import PolyFront.Proofs.Subtyping.Histories
import PolyFront.Proofs.Subtyping.Ground
import PolyFront.Proofs.Dependencies.Arranged
import PolyFront.Proofs.Naming.Mentions
import PolyFront.Proofs.Subtyping.Stability
import PolyFront.Proofs.Subtyping.Copies
import PolyFront.Proofs.Subtyping.Pending
import PolyFront.Proofs.Subtyping.Opening
import PolyFront.Proofs.Subtyping.Reflexive
import PolyFront.Proofs.Naming.Readings
import PolyFront.Proofs.Naming.Accounts
import PolyFront.Proofs.Naming.Reported
import PolyFront.Proofs.Constant.Semilattice
import PolyFront.Proofs.Constant.Integers
import PolyFront.Proofs.Kinding.Texts
import PolyFront.Proofs.Unification.Representatives
import PolyFront.Proofs.Unification.Occurrences
import PolyFront.Proofs.Multimap.Refinement
import PolyFront.Proofs.Constant.Sequence
import PolyFront.Proofs.Grounding.Front
