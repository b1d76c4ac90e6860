import Relational.Plan.Document
import Relational.Proofs.Expr.RoundTrip

/-!
# Documents of the parts of plans

Row shapes, tables, column sets, aggregate calls, sort keys and distributions are read back from
their documents, if their numbers fit machine words.
-/
namespace Relational
open Json

theorem Field.stands (f : Field) : Stands Field.ofJson? f f.toJson := by
  have hname := stands_text f.name
  have htype := f.type.dataType.stands
  have hnullable := stands_bool f.type.nullable
  have hdictionary := stands_int64 f.annotation.dictionary
  have hordered := stands_bool f.annotation.ordered
  have hnotes := f.annotation.notes.stands
  refine stands_record (by simp) (by simp [hname.intact, htype.intact, hnullable.intact,
    hdictionary.intact, hordered.intact, hnotes.intact]) fun hms => ?_
  rw [ofJson?, hms, Option.bind_eq_bind, Option.bind_some, member?_of_lookup rfl hname,
    member?_of_lookup rfl htype, member?_of_lookup rfl hdictionary,
    member?_of_lookup rfl hordered, member?_of_lookup rfl hnotes,
    member?_of_lookup rfl hnullable]
  rfl

theorem Schema.stands (s : Schema) (ns : Notes) :
    Stands Schema.ofJson? (s, ns) (Schema.toJson s ns) := by
  have hfields := stands_map fun f (_ : f ∈ s) => f.stands
  have hnotes := ns.stands
  refine stands_record (by simp) (by simp [hfields.intact, hnotes.intact]) fun hms => ?_
  rw [ofJson?, hms, Option.bind_eq_bind, Option.bind_some, member?_of_lookup rfl hfields,
    member?_of_lookup rfl hnotes]
  rfl

theorem TableRef.stands {t : TableRef} (h : t.id < Integer.wordCount) :
    Stands TableRef.ofJson? t t.toJson := by
  have hid := stands_natural h
  have hschema := stands_text t.schema
  have hname := stands_text t.name
  refine stands_record (by simp) (by simp [hid.intact, hschema.intact, hname.intact])
    fun hms => ?_
  rw [ofJson?, hms, Option.bind_eq_bind, Option.bind_some, member?_of_lookup rfl hid,
    member?_of_lookup rfl hschema, member?_of_lookup rfl hname]
  rfl

namespace ColumnSet

theorem insertSorted_last {c : Nat} {cs : List Nat} (h : ∀ d ∈ cs, d < c) :
    insertSorted c cs = cs ++ [c] := by
  induction cs with
  | nil => rfl
  | cons d rest ih =>
    obtain ⟨hd, hrest⟩ := List.forall_mem_cons.1 h
    rw [insertSorted, if_neg (by omega), if_neg (by omega), ih hrest]
    rfl

theorem foldl_insert_columns {s : ColumnSet} {cs : List Nat}
    (h : (s.columns ++ cs).Pairwise (· < ·)) : (cs.foldl insert s).columns = s.columns ++ cs := by
  induction cs generalizing s with
  | nil => rw [List.append_nil]; rfl
  | cons c rest ih =>
    have hlast : (s.insert c).columns = s.columns ++ [c] :=
      insertSorted_last fun d hd => (List.pairwise_append.1 h).2.2 d hd c List.mem_cons_self
    rw [List.append_cons, ← hlast] at h
    rw [List.foldl_cons, ih h, hlast, List.append_assoc]
    rfl

theorem ofList_columns (s : ColumnSet) : ofList s.columns = s := by
  obtain ⟨cs, hcs⟩ := s
  have hcolumns : (ofList cs).columns = cs := foldl_insert_columns (s := empty) hcs
  exact (ColumnSet.mk.injEq (ofList cs).columns (ofList cs).increasing cs hcs).mpr hcolumns

theorem stands {s : ColumnSet} (h : ∀ c ∈ s.columns, c < Integer.wordCount) :
    Stands ColumnSet.ofJson? s s.toJson := by
  have hcolumns := stands_map fun c hc => stands_natural (h c hc)
  refine ⟨?_, hcolumns.intact⟩
  rw [ofJson?, toJson, hcolumns.read, Option.map_some, ofList_columns]

end ColumnSet
theorem stands_naturals {ns : List Nat} (h : ∀ n ∈ ns, n < Integer.wordCount) :
    Stands (list? natural?) ns (.array (ns.map Json.natural)) :=
  stands_map fun n hn => stands_natural (h n hn)

theorem stands_optionalNatural {n : Option Nat} (h : ∀ m ∈ n.toList, m < Integer.wordCount) :
    Stands (optional? natural?) n (n.elim .null .natural) :=
  stands_optional (fun _ => Json.noConfusion) fun m hm => stands_natural (h m (by simp [hm]))

theorem AggregateFunction.stands (f : AggregateFunction) :
    Stands AggregateFunction.ofJson? f f.toJson := by
  cases f <;> exact ⟨rfl, rfl⟩

def AggregateCall.numbers (c : AggregateCall) : List Nat := c.args ++ c.filter.toList

theorem AggregateCall.stands {c : AggregateCall} (h : ∀ n ∈ c.numbers, n < Integer.wordCount) :
    Stands AggregateCall.ofJson? c c.toJson := by
  obtain ⟨hargs, hfilter⟩ := List.forall_mem_append.1 h
  have hfunction := c.function.stands
  have hargs := stands_naturals hargs
  have hfilter := stands_optionalNatural hfilter
  have hname := stands_text c.name
  have htype := c.type.stands
  have hdocument : c.toJson = .object [("function", c.function.toJson),
      ("args", .array (c.args.map Json.natural)), ("filter_arg", c.filter.elim .null .natural),
      ("name", .string c.name), ("ty", c.type.toJson)] := rfl
  rw [hdocument]
  refine stands_record (by simp) (by simp [hfunction.intact, hargs.intact, hfilter.intact,
    hname.intact, htype.intact]) fun hms => ?_
  rw [ofJson?, hms, Option.bind_eq_bind, Option.bind_some, member?_of_lookup rfl hfunction,
    member?_of_lookup rfl hargs, memberOr?_of_lookup rfl hfilter, member?_of_lookup rfl hname,
    member?_of_lookup rfl htype]
  rfl

theorem SortKey.stands {k : SortKey} (h : k.column < Integer.wordCount) :
    Stands SortKey.ofJson? k k.toJson := by
  have hcolumn := stands_natural h
  refine stands_record (by simp) (by simp [hcolumn.intact, Json.intact]) fun hms => ?_
  rw [ofJson?, hms, Option.bind_eq_bind, Option.bind_some, member?_of_lookup rfl hcolumn]
  obtain ⟨column, direction, nulls⟩ := k
  cases direction <;> cases nulls <;> rfl

def Distribution.numbers (d : Distribution) : List Nat := d.keys ++ d.partitions.toList

theorem Distribution.stands {d : Distribution} (h : ∀ n ∈ d.numbers, n < Integer.wordCount) :
    Stands Distribution.ofJson? d d.toJson := by
  obtain ⟨hkeys, hpartitions⟩ := List.forall_mem_append.1 h
  have hspread := stands_named d.spread.ofName?_name
  have hkeys := stands_naturals hkeys
  have hpartitions := stands_optionalNatural hpartitions
  have hdocument : d.toJson = .object [("kind", .string d.spread.name),
      ("keys", .array (d.keys.map Json.natural)),
      ("partitions", d.partitions.elim .null .natural)] := rfl
  rw [hdocument]
  refine stands_record (by simp) (by simp [hspread.intact, hkeys.intact, hpartitions.intact])
    fun hms => ?_
  rw [ofJson?, hms, Option.bind_eq_bind, Option.bind_some, member?_of_lookup rfl hspread,
    memberOr?_of_lookup rfl hkeys, memberOr?_of_lookup rfl hpartitions]
  rfl

end Relational
