import RepoPolicy.Fixture.Draft
import RepoPolicy.Fixture.Expectation
import RepoPolicy.Run.Codec
import RepoPolicy.Run.Session
import RepoPolicy.Proofs.Run.Publication
import RepoPolicy.Proofs.Contract.NestedQueries
import RepoPolicy.Proofs.Event.StreamShape
import RepoPolicy.Proofs.Run.InputOrder
import RepoPolicy.Proofs.Sql.TreeTables
import RepoPolicy.Proofs.Sql.NormalTables
import RepoPolicy.Proofs.Sql.CertifiedColumns
import RepoPolicy.Proofs.Event.RunRules
import RepoPolicy.Proofs.Run.Acknowledgement
import RepoPolicy.Proofs.Sql.PlainSelects
import RepoPolicy.Proofs.Contract.ProjectionVerdict
import RepoPolicy.Proofs.Check.Boundaries
import RepoPolicy.Proofs.Contract.CanonicalNames
import RepoPolicy.Proofs.Sql.SelectModifiers
import RepoPolicy.Proofs.Check.PathSeparators
import RepoPolicy.Proofs.Check.TopicNames
import RepoPolicy.Proofs.Contract.Operations
import RepoPolicy.Proofs.Policy.Serialization
import RepoPolicy.Proofs.Check.PathOrder
import RepoPolicy.Proofs.Sql.ByOffset.Projection
