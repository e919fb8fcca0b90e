import SequenceQuery.Proofs.Answers
import SequenceQuery.Proofs.Derived

namespace SequenceQuery

section

variable {engine : Engine} {db : Database} {arguments : Arguments} {outer : Env}
  {rows base restricted : Rows} {test e : SqlExpr} {node : Expr} {s : Select} {p q : Progress}

namespace Rows

end Rows

variable {env : Surroundings} {scope : Scope} {source predicate : Expr} {i j : NodeId}
  {kept : Rows} {t : Terminal} {start m stop : Progress}

end

namespace Form

def several : Expr :=
  .lambda 2 ["g"] (.binary 3 .greaterThan (.call 4 .count [.param 5 "g"]) (.const 6 (.int 1)))

end Form

end SequenceQuery
