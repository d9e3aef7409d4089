import SphereSearch.Fault
import SphereSearch.Proofs.Search.Prefix
import SphereSearch.Proofs.Index.Representation
import SphereSearch.Proofs.Search.Inside
import SphereSearch.Proofs.Search.Loopless
import SphereSearch.Proofs.Search.Answer
import SphereSearch.Proofs.Search.Accuracy
import SphereSearch.Proofs.Grid.Hierarchy
import SphereSearch.Proofs.Grid.Ancestor
import SphereSearch.Proofs.Grid.Path
import SphereSearch.Proofs.Grid.Projection
import SphereSearch.Proofs.Index.Location
import SphereSearch.Proofs.Index.Covering
import SphereSearch.Proofs.Search.Journal
import SphereSearch.Proofs.Search.Visits
import SphereSearch.Proofs.Search.AboveZero
import SphereSearch.Proofs.Search.Nested
import SphereSearch.Proofs.Search.Predicates
import SphereSearch.Proofs.Search.Strict
import SphereSearch.Proofs.Search.Truncation
import SphereSearch.Proofs.Sphere.Limit
import SphereSearch.Proofs.Shape.Rewriting
import SphereSearch.Proofs.Sphere.Symmetry
import SphereSearch.Proofs.Sphere.Neighbours
import SphereSearch.Proofs.Sphere.Normal
import SphereSearch.Proofs.Text.Grammar
import SphereSearch.Proofs.Index.Extent
import SphereSearch.Proofs.Search.Setters
import SphereSearch.Proofs.Index.Runs
