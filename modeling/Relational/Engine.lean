import Relational.Catalog.Document
import Relational.Catalog.RowStore
import Relational.Config
import Relational.Execution.Build
import Relational.Metadata.Annotated
import Relational.Plan.Shape
import Relational.Text.Quoted

/-!
# The engine

A catalog, the rows of its tables and the user-defined aggregates of one session. Every execution
takes a new query id, whether or not it succeeds.
-/
namespace Relational

structure Engine where
  config : Config
  catalog : Catalog := {}
  store : RowStore := {}
  aggregates : UserAggregate.Registry := {}
  nextQuery : Nat := 1

structure ExecutionContext where
  query : Nat
  channelCapacity : Nat
  aggregates : List String

namespace Engine

def ofConfig (config : Config) : Except Error Engine := do
  config.check
  return { config }

def register (e : Engine) (t : Table) : Except Error Engine := do
  let rows ← t.inlineRows
  let catalog ← e.catalog.register { t with rows := [] }
  return { e with catalog, store := if rows.isEmpty then e.store else e.store.append t.id rows }

def registerAll (e : Engine) : List Table → Except Error Unit × Engine
  | [] => (.ok (), e)
  | t :: rest =>
    match e.register t with
    | .ok e => e.registerAll rest
    | .error error => (.error error, e)

def load (e : Engine) (text : String) : Except Error Nat × Engine :=
  match Table.parseList text with
  | .ok tables =>
    let (done, e) := e.registerAll tables
    (done.map fun _ => tables.length, e)
  | .error error => (.error error, e)

def tableNames (e : Engine) : List String :=
  (e.catalog.tables.map Table.qualifiedName).mergeSort fun a b => !(b < a)

def describe (e : Engine) : String :=
  let names := ", ".intercalate (e.tableNames.map Text.quoted)
  s!"Engine \x7b tables: [{names}] \x7d"

def shape (e : Engine) (p : Plan) : PlanShape := p.shape e.catalog.source

def annotated (e : Engine) (p : Plan) : Except Error String :=
  match h : Metadata.Query.ofConfig p .builtin e.catalog.source e.config with
  | .ok q => q.annotated ((Metadata.Query.ofPlan_eq_ok h).2 ▸ Metadata.RuleTable.builtin_ranked)
  | .error error => throw error

def context (e : Engine) : ExecutionContext × Engine :=
  (⟨e.nextQuery, max e.config.channelCapacity 1, e.aggregates.names⟩,
    { e with nextQuery := e.nextQuery + 1 })

def start (e : Engine) (p : Plan) : Except Error Emission × Engine :=
  (p.start e.aggregates e.store.contents, e.context.2)

def collect (e : Engine) (p : Plan) : Except Error (List Row) × Engine :=
  let (emission, e) := e.start p
  (emission >>= Emission.result, e)

def collectBatch (e : Engine) (p : Plan) : Except Error Batch × Engine :=
  let (rows, e) := e.collect p
  (rows >>= Batch.ofRows p.schema, e)

def collectCancelled (e : Engine) (p : Plan) : Except Error (List Row) × Engine :=
  let (emission, e) := e.start p
  (emission >>= fun m => (m.cancelledAfter 0).result, e)

end Engine
end Relational
