import PooledSql.Fragment
import PooledSql.Proofs.Database.Returns
import PooledSql.Proofs.Database.Solitude
import PooledSql.Proofs.Database.Standing
import PooledSql.Proofs.Wire.Custody
import PooledSql.Proofs.Database.Isolation
import PooledSql.Rehearsal.Computation
import PooledSql.Rehearsal.Session
import PooledSql.Proofs.Database.Possession
import PooledSql.Proofs.Database.Protocol
import PooledSql.Proofs.Literal.Comment
import PooledSql.Proofs.Literal.Identifier
import PooledSql.Proofs.Task.Tree
import PooledSql.Proofs.Task.Cancellation
import PooledSql.Proofs.Database.Stopping
import PooledSql.Proofs.Wire.Stopping
import PooledSql.Proofs.Wire.Rejection
import PooledSql.Proofs.Template.Placeholder
import PooledSql.Proofs.Template.Nesting
import PooledSql.Proofs.Template.Construction
import PooledSql.Proofs.Template.Influence
import PooledSql.Proofs.Result.FirstColumn
import PooledSql.Proofs.Database.Refusal
import PooledSql.Proofs.Database.Agreement
import PooledSql.Proofs.Database.Defaults
import PooledSql.Proofs.Result.Shapes
import PooledSql.Proofs.Result.RowCount
import PooledSql.Proofs.Format.Path
import PooledSql.Proofs.Template.Fault
import PooledSql.Proofs.Template.Inlining
