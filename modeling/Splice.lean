import Splice.Expression.Event
import Splice.Expression.Support
import Splice.Proofs.Canonical
import Splice.Proofs.Dependence
import Splice.Proofs.DocumentRoundTrip
import Splice.Proofs.Expansion
import Splice.Proofs.IndexTokens
import Splice.Proofs.IntegerCasts
import Splice.Proofs.Navigation
import Splice.Proofs.Outcomes
import Splice.Proofs.Reuse
import Splice.Proofs.Scanner
import Splice.Proofs.Scoping
import Splice.Proofs.Specialisation
import Splice.Proofs.StaticTemplates
import Splice.Proofs.Substitution
import Splice.Proofs.Subvalues
import Splice.Proofs.TextCasts
import Splice.Value.Equality
