import Relational.Proofs.Plan.Document
import Relational.Proofs.Plan.Stands

/-!
# Documents of plans

A valid plan whose ids are distinct, whose floats are finite and whose numbers fit machine words is
read back from its document.
-/
namespace Relational.Plan
open Json

def members : Plan → List (String × Json)
  | scan _ table shape notes => [("table", table.toJson), ("row_shape", Schema.toJson shape notes)]
  | values _ rows shape notes =>
    [("rows", .array (rows.map fun r => .array (r.map Value.toJson))),
      ("row_shape", Schema.toJson shape notes)]
  | filter _ input e => [("input", input.toJson), ("predicate", e.toJson)]
  | project _ input columns =>
    [("input", input.toJson), ("exprs", .array (columns.map (·.expr.toJson))),
      ("names", .array (columns.map fun c => .string c.name))]
  | aggregate _ input sets calls indicator =>
    [("input", input.toJson), ("grouping_sets", .array (sets.map ColumnSet.toJson)),
      ("calls", .array (calls.map AggregateCall.toJson)), ("indicator", .bool indicator)]
  | join _ left right e type =>
    [("left", left.toJson), ("right", right.toJson), ("condition", e.toJson),
      ("join_type", .string type.name)]
  | setOp _ _ inputs all => [("inputs", .array (toJsons inputs)), ("all", .bool all)]
  | sort _ input collation offset fetch =>
    [("input", input.toJson), ("collation", .array (collation.map SortKey.toJson)),
      ("offset", offset.elim .null .natural), ("fetch", fetch.elim .null .natural)]
  | exchange _ input distribution =>
    [("input", input.toJson), ("distribution", distribution.toJson)]
  | other _ name inputs => [("name", .string name), ("inputs", .array (toJsons inputs))]

theorem toJson_eq (p : Plan) : p.toJson =
    .object [("id", .natural p.id), ("op", .object [(p.kind.name, .object p.members)])] := by
  cases p <;> rfl

def read? (j : Json) : Option Plan := (Plan.ofJson j).toOption

section
variable {m : Members} {tag key : String} {j : Json} {p : Plan} {ps : List Plan}
  {plan : Unit → Except ShapeFault Plan} {plans : Unit → Except ShapeFault (List Plan)}

theorem take_input (hfresh : m.has key = false) (hslot : (slots tag).lookup key = some .input)
    (h : Stands read? p j) :
    m.take tag key j (fun _ => Plan.ofJson j) plans =
      .ok { m with plans := (key, p) :: m.plans } := by
  rw [Members.take, hfresh, hslot, toOption_eq_some.1 h.read]
  rfl

theorem listOfJson_of_stands (h : Stands (list? read?) ps j) : listOfJson j = .ok ps := by
  cases j with
  | array items =>
    have hitems : List.Forall₂ (fun j p => Plan.ofJson j = .ok p) items ps :=
      (mapM_eq_some.1 h.read).imp fun _ _ => toOption_eq_some.1
    rw [listOfJson]
    clear h
    induction hitems with
    | nil => rfl
    | cons hj _ ih =>
      rw [ofJsons, hj, ok_bind, ih]
      rfl
  | _ => cases h.read

theorem take_inputs (hfresh : m.has key = false) (hslot : (slots tag).lookup key = some .inputs)
    (h : Stands (list? read?) ps j) :
    m.take tag key j plan (fun _ => listOfJson j) =
      .ok { m with lists := (key, ps) :: m.lists } := by
  rw [Members.take, hfresh, hslot, listOfJson_of_stands h]
  rfl

theorem take_plain {α : Type} {read : Json → Option α} {a : α} (hfresh : m.has key = false)
    (hslot : (slots tag).lookup key = some (.plain fun j => (read j).isSome))
    (h : Stands read a j) :
    m.take tag key j plan plans = .ok { m with plain := (key, j) :: m.plain } := by
  have hreads : (j.intact && (read j).isSome) = true := by rw [h.intact, h.read]; rfl
  rw [Members.take, hfresh, hslot]
  exact if_pos hreads

end

/-- The document of the operator is well formed and read as one that makes the plan. -/
structure Written (p : Plan) : Prop where
  intact : ∀ f ∈ p.members, f.2.intact = true
  operator : ∃ make, operatorOfJson (.object [(p.kind.name, .object p.members)]) = .ok make ∧
    make p.id = .ok p

theorem written_of_members {p : Plan} {m : Members} (make : Nat → Except ShapeFault Plan)
    (hintact : ∀ f ∈ p.members, f.2.intact = true)
    (hm : operatorMembers p.kind.name {} p.members = .ok m)
    (hmake : m.operator? p.kind.name = some make) (h : make p.id = .ok p) : p.Written := by
  refine ⟨hintact, make, ?_, h⟩
  rw [operatorOfJson, hm, ok_bind]
  simp only [Members.operator, hmake]

theorem Written.stands {p : Plan} (h : p.Written) (hid : p.id < Integer.wordCount)
    (hcheck : p.check = .ok ()) : Stands read? p p.toJson := by
  obtain ⟨hintact, make, hoperator, hmake⟩ := h
  have hnumber := stands_natural hid
  have hmembers : nodeMembers {} [("id", .natural p.id),
      ("op", .object [(p.kind.name, .object p.members)])] = .ok ⟨some p.id, some make⟩ := by
    rw [nodeMembers, hnumber.read]
    simp only [nodeMembers, hoperator]
    rfl
  rw [toJson_eq]
  constructor
  · refine toOption_eq_some.2 ?_
    rw [Plan.ofJson, hmembers, ok_bind]
    show ((make p.id).mapError ShapeFault.rejected >>= _) = _
    rw [hmake]
    show (Except.ok p >>= _) = _
    rw [ok_bind, hcheck]
    rfl
  · exact intact_object (List.forall_mem_cons.2 ⟨hnumber.intact, List.forall_mem_singleton.2
      (intact_object (List.forall_mem_singleton.2 (intact_object hintact)))⟩)

section
variable (id : Nat) {input left right : Plan} {inputs : List Plan}

theorem written_scan {table : TableRef} {shape : Schema} {notes : Notes}
    (htable : Stands TableRef.ofJson? table table.toJson)
    (hshape : Stands Schema.ofJson? (shape, notes) (Schema.toJson shape notes)) :
    (scan id table shape notes).Written := by
  have hintact : ∀ f ∈ members (scan id table shape notes), f.2.intact = true := by
    simp [members, htable.intact, hshape.intact]
  have hmembers : operatorMembers "Scan" {} (members (scan id table shape notes)) = .ok
      ⟨[], [], [("row_shape", Schema.toJson shape notes), ("table", table.toJson)]⟩ := by
    rw [members, operatorMembers, take_plain rfl rfl htable, ok_bind, operatorMembers,
      take_plain rfl rfl hshape, ok_bind, operatorMembers]
  refine written_of_members (fun id => .ok (.scan id table shape notes)) hintact hmembers ?_ rfl
  show (member? _ _ _ >>= _) = _
  rw [member?_of_lookup rfl htable, Option.bind_eq_bind, Option.bind_some,
    member?_of_lookup rfl hshape]
  rfl

theorem written_values {rows : List Row} {shape : Schema} {notes : Notes}
    (hrows : Stands (list? (list? Value.ofJson?)) rows
      (.array (rows.map fun r => .array (r.map Value.toJson))))
    (hshape : Stands Schema.ofJson? (shape, notes) (Schema.toJson shape notes)) :
    (values id rows shape notes).Written := by
  have hintact : ∀ f ∈ members (values id rows shape notes), f.2.intact = true := by
    simp [members, hrows.intact, hshape.intact]
  have hmembers : operatorMembers "Values" {} (members (values id rows shape notes)) = .ok
      ⟨[], [], [("row_shape", Schema.toJson shape notes),
        ("rows", .array (rows.map fun r => .array (r.map Value.toJson)))]⟩ := by
    rw [members, operatorMembers, take_plain rfl rfl hrows, ok_bind, operatorMembers,
      take_plain rfl rfl hshape, ok_bind, operatorMembers]
  refine written_of_members (fun id => .ok (.values id rows shape notes)) hintact hmembers ?_ rfl
  show (member? _ _ _ >>= _) = _
  rw [member?_of_lookup rfl hrows, Option.bind_eq_bind, Option.bind_some,
    member?_of_lookup rfl hshape]
  rfl

theorem written_filter {e : Expr} (hinput : Stands read? input input.toJson)
    (he : Stands Expr.ofJson? e e.toJson) : (filter id input e).Written := by
  have hintact : ∀ f ∈ members (filter id input e), f.2.intact = true := by
    simp [members, hinput.intact, he.intact]
  have hmembers : operatorMembers "Filter" {} (members (filter id input e)) = .ok
      ⟨[("input", input)], [], [("predicate", e.toJson)]⟩ := by
    rw [members, operatorMembers, take_input rfl rfl hinput, ok_bind, operatorMembers,
      take_plain rfl rfl he, ok_bind, operatorMembers]
  refine written_of_members (fun id => .ok (.filter id input e)) hintact hmembers ?_ rfl
  show (member? _ _ _ >>= _) = _
  rw [member?_of_lookup rfl he]
  rfl

theorem zipWith_columns (columns : List Projection) :
    (columns.map (·.expr)).zipWith Projection.mk (columns.map (·.name)) = columns := by
  induction columns with
  | nil => rfl
  | cons c rest ih => rw [List.map_cons, List.map_cons, List.zipWith_cons_cons, ih]

theorem written_project {columns : List Projection}
    (hinput : Stands read? input input.toJson)
    (hexprs : ∀ c ∈ columns, Stands Expr.ofJson? c.expr c.expr.toJson) :
    (project id input columns).Written := by
  have hexprs : Stands (list? Expr.ofJson?) (columns.map (·.expr))
      (.array (columns.map (·.expr.toJson))) :=
    stands_list (List.forall₂_map_left_iff.2 (List.forall₂_map_right_iff.2
      (List.forall₂_same.2 hexprs)))
  have hnames : Stands (list? text?) (columns.map (·.name))
      (.array (columns.map fun c => .string c.name)) :=
    stands_list (List.forall₂_map_left_iff.2 (List.forall₂_map_right_iff.2
      (List.forall₂_same.2 fun c _ => stands_text c.name)))
  have hintact : ∀ f ∈ members (project id input columns), f.2.intact = true := by
    simp [members, hinput.intact, hexprs.intact, hnames.intact]
  have hmembers : operatorMembers "Project" {} (members (project id input columns)) = .ok
      ⟨[("input", input)], [], [("names", .array (columns.map fun c => .string c.name)),
        ("exprs", .array (columns.map (·.expr.toJson)))]⟩ := by
    rw [members, operatorMembers, take_input rfl rfl hinput, ok_bind, operatorMembers,
      take_plain rfl rfl hexprs, ok_bind, operatorMembers, take_plain rfl rfl hnames, ok_bind,
      operatorMembers]
  refine written_of_members (fun id =>
    if (columns.map (·.expr)).length = (columns.map (·.name)).length then
      .ok (.project id input ((columns.map (·.expr)).zipWith .mk (columns.map (·.name))))
    else .error (.projectNames (columns.map (·.expr)).length (columns.map (·.name)).length))
    hintact hmembers ?_ ?_
  · show (member? _ _ _ >>= _) = _
    rw [member?_of_lookup rfl hexprs, Option.bind_eq_bind, Option.bind_some,
      member?_of_lookup rfl hnames]
    rfl
  · rw [if_pos (by rw [List.length_map, List.length_map]), zipWith_columns]
    rfl

theorem written_aggregate {sets : List ColumnSet} {calls : List AggregateCall} (indicator : Bool)
    (hinput : Stands read? input input.toJson)
    (hsets : Stands (list? ColumnSet.ofJson?) sets (.array (sets.map ColumnSet.toJson)))
    (hcalls : Stands (list? AggregateCall.ofJson?) calls
      (.array (calls.map AggregateCall.toJson))) :
    (aggregate id input sets calls indicator).Written := by
  have hindicator := stands_bool indicator
  have hintact : ∀ f ∈ members (aggregate id input sets calls indicator), f.2.intact = true := by
    simp [members, hinput.intact, hsets.intact, hcalls.intact, hindicator.intact]
  have hmembers : operatorMembers "Aggregate" {}
      (members (aggregate id input sets calls indicator)) = .ok
      ⟨[("input", input)], [], [("indicator", .bool indicator),
        ("calls", .array (calls.map AggregateCall.toJson)),
        ("grouping_sets", .array (sets.map ColumnSet.toJson))]⟩ := by
    rw [members, operatorMembers, take_input rfl rfl hinput, ok_bind, operatorMembers,
      take_plain rfl rfl hsets, ok_bind, operatorMembers, take_plain rfl rfl hcalls, ok_bind,
      operatorMembers, take_plain rfl rfl hindicator, ok_bind, operatorMembers]
  refine written_of_members (fun id => .ok (.aggregate id input sets calls indicator)) hintact
    hmembers ?_ rfl
  show (member? _ _ _ >>= _) = _
  rw [member?_of_lookup rfl hsets, Option.bind_eq_bind, Option.bind_some,
    member?_of_lookup rfl hcalls, Option.bind_eq_bind, Option.bind_some,
    memberOr?_of_lookup rfl hindicator]
  rfl

theorem written_join {e : Expr} (type : JoinType) (hleft : Stands read? left left.toJson)
    (hright : Stands read? right right.toJson) (he : Stands Expr.ofJson? e e.toJson) :
    (join id left right e type).Written := by
  have htype := stands_named type.ofName?_name
  have hintact : ∀ f ∈ members (join id left right e type), f.2.intact = true := by
    simp [members, hleft.intact, hright.intact, he.intact, htype.intact]
  have hmembers : operatorMembers "Join" {} (members (join id left right e type)) = .ok
      ⟨[("right", right), ("left", left)], [],
        [("join_type", .string type.name), ("condition", e.toJson)]⟩ := by
    rw [members, operatorMembers, take_input rfl rfl hleft, ok_bind, operatorMembers,
      take_input rfl rfl hright, ok_bind, operatorMembers, take_plain rfl rfl he, ok_bind,
      operatorMembers, take_plain rfl rfl htype, ok_bind, operatorMembers]
  refine written_of_members (fun id => .ok (.join id left right e type)) hintact hmembers ?_ rfl
  show (member? _ _ _ >>= _) = _
  rw [member?_of_lookup rfl he, Option.bind_eq_bind, Option.bind_some,
    member?_of_lookup rfl htype]
  rfl

theorem written_setOp (op : SetOp) (all : Bool)
    (hinputs : Stands (list? read?) inputs (.array (toJsons inputs))) :
    (setOp id op inputs all).Written := by
  have hall := stands_bool all
  have hintact : ∀ f ∈ members (setOp id op inputs all), f.2.intact = true := by
    simp [members, hinputs.intact, hall.intact]
  have hmembers : operatorMembers op.kind.name {} (members (setOp id op inputs all)) = .ok
      ⟨[], [("inputs", inputs)], [("all", .bool all)]⟩ := by
    cases op <;>
      rw [members, operatorMembers, take_inputs rfl rfl hinputs, ok_bind, operatorMembers,
        take_plain rfl rfl hall, ok_bind, operatorMembers]
  cases op
  -- the set operations have tags and cases of their own
  · exact written_of_members (fun id => .ok (.setOp id .union inputs all)) hintact hmembers rfl rfl
  · exact written_of_members (fun id => .ok (.setOp id .intersect inputs all)) hintact hmembers rfl
      rfl
  · exact written_of_members (fun id => .ok (.setOp id .minus inputs all)) hintact hmembers rfl rfl

theorem written_sort {collation : Collation} {offset fetch : Option Nat}
    (hinput : Stands read? input input.toJson)
    (hcollation : Stands (list? SortKey.ofJson?) collation
      (.array (collation.map SortKey.toJson)))
    (hoffset : Stands (optional? natural?) offset (offset.elim .null .natural))
    (hfetch : Stands (optional? natural?) fetch (fetch.elim .null .natural)) :
    (sort id input collation offset fetch).Written := by
  have hintact : ∀ f ∈ members (sort id input collation offset fetch), f.2.intact = true := by
    simp [members, hinput.intact, hcollation.intact, hoffset.intact, hfetch.intact]
  have hmembers : operatorMembers "Sort" {} (members (sort id input collation offset fetch)) = .ok
      ⟨[("input", input)], [], [("fetch", fetch.elim .null .natural),
        ("offset", offset.elim .null .natural),
        ("collation", .array (collation.map SortKey.toJson))]⟩ := by
    rw [members, operatorMembers, take_input rfl rfl hinput, ok_bind, operatorMembers,
      take_plain rfl rfl hcollation, ok_bind, operatorMembers, take_plain rfl rfl hoffset,
      ok_bind, operatorMembers, take_plain rfl rfl hfetch, ok_bind, operatorMembers]
  refine written_of_members (fun id => .ok (.sort id input collation offset fetch)) hintact
    hmembers ?_ rfl
  show (member? _ _ _ >>= _) = _
  rw [member?_of_lookup rfl hcollation, Option.bind_eq_bind, Option.bind_some,
    memberOr?_of_lookup rfl hoffset, Option.bind_eq_bind, Option.bind_some,
    memberOr?_of_lookup rfl hfetch]
  rfl

theorem written_exchange {distribution : Distribution}
    (hinput : Stands read? input input.toJson)
    (hdistribution : Stands Distribution.ofJson? distribution distribution.toJson) :
    (exchange id input distribution).Written := by
  have hintact : ∀ f ∈ members (exchange id input distribution), f.2.intact = true := by
    simp [members, hinput.intact, hdistribution.intact]
  have hmembers : operatorMembers "Exchange" {} (members (exchange id input distribution)) = .ok
      ⟨[("input", input)], [], [("distribution", distribution.toJson)]⟩ := by
    rw [members, operatorMembers, take_input rfl rfl hinput, ok_bind, operatorMembers,
      take_plain rfl rfl hdistribution, ok_bind, operatorMembers]
  refine written_of_members (fun id => .ok (.exchange id input distribution)) hintact hmembers ?_ rfl
  show (member? _ _ _ >>= _) = _
  rw [member?_of_lookup rfl hdistribution]
  rfl

theorem written_other (name : String)
    (hinputs : Stands (list? read?) inputs (.array (toJsons inputs))) :
    (other id name inputs).Written := by
  have hname := stands_text name
  have hintact : ∀ f ∈ members (other id name inputs), f.2.intact = true := by
    simp [members, hname.intact, hinputs.intact]
  have hmembers : operatorMembers "Other" {} (members (other id name inputs)) = .ok
      ⟨[], [("inputs", inputs)], [("name", .string name)]⟩ := by
    rw [members, operatorMembers, take_plain rfl rfl hname, ok_bind, operatorMembers,
      take_inputs rfl rfl hinputs, ok_bind, operatorMembers]
  exact written_of_members (fun id => .ok (.other id name inputs)) hintact hmembers rfl rfl

end

theorem toJsons_eq_map (ps : List Plan) : toJsons ps = ps.map toJson := by
  induction ps with
  | nil => rfl
  | cons p rest ih => rw [toJsons, ih, List.map_cons]

def constants : Plan → List Value
  | values _ rows .. => rows.flatten
  | p => p.exprs.flatMap Expr.constants

def numbers : Plan → List Nat
  | scan id table .. => [id, table.id]
  | aggregate id _ sets calls _ =>
    id :: (sets.flatMap (·.columns) ++ calls.flatMap AggregateCall.numbers)
  | sort id _ collation offset fetch =>
    id :: (collation.map (·.column) ++ (offset.toList ++ fetch.toList))
  | exchange id _ distribution => id :: distribution.numbers
  | p => [p.id]

structure Sized (p : Plan) : Prop where
  numbers : ∀ n ∈ p.numbers, n < Integer.wordCount
  exprs : ∀ e ∈ p.exprs, ∀ part ∈ e.parts, part.Sized

instance : DecidablePred Sized := fun p =>
  decidable_of_iff ((∀ n ∈ p.numbers, n < Integer.wordCount) ∧
      ∀ e ∈ p.exprs, ∀ part ∈ e.parts, part.Sized)
    ⟨fun ⟨hnumbers, hexprs⟩ => ⟨hnumbers, hexprs⟩, fun ⟨hnumbers, hexprs⟩ => ⟨hnumbers, hexprs⟩⟩

theorem Sized.id_lt {p : Plan} (h : p.Sized) : p.id < Integer.wordCount := by
  refine h.numbers p.id ?_
  cases p <;> exact List.mem_cons_self

theorem Sized.stands {p : Plan} (h : p.Sized) (hfinite : ∀ v ∈ p.constants, v.Finite) {e : Expr}
    (he : e ∈ p.exprs) : Stands Expr.ofJson? e e.toJson := by
  refine Expr.stands (fun v hv => hfinite v ?_) (h.exprs e he)
  cases p with
  | values => cases he
  | _ => exact List.mem_flatMap.2 ⟨e, he, hv⟩

theorem Sized.written {p : Plan} (h : p.Sized) (hfinite : ∀ v ∈ p.constants, v.Finite)
    (hchildren : ∀ child ∈ p.children, Stands read? child child.toJson) : p.Written := by
  have hexpr := fun e he => h.stands hfinite (e := e) he
  cases p with
  | scan id table shape notes =>
    have hid : table.id < Integer.wordCount :=
      h.numbers table.id (List.mem_cons_of_mem _ List.mem_cons_self)
    exact written_scan id (TableRef.stands hid) (Schema.stands shape notes)
  | values id rows shape notes =>
    have hrow : ∀ r ∈ rows, Stands (list? Value.ofJson?) r (.array (r.map Value.toJson)) :=
      fun r hr => stands_map fun v hv =>
        Value.stands (hfinite v (List.mem_flatten.2 ⟨r, hr, hv⟩))
    exact written_values id (stands_map hrow) (Schema.stands shape notes)
  | filter id input e =>
    exact written_filter id (hchildren input List.mem_cons_self) (hexpr e List.mem_cons_self)
  | project id input columns =>
    exact written_project id (hchildren input List.mem_cons_self)
      fun c hc => hexpr c.expr (List.mem_map_of_mem hc)
  | aggregate id input sets calls indicator =>
    obtain ⟨hsets, hcalls⟩ := List.forall_mem_append.1 (List.forall_mem_cons.1 h.numbers).2
    refine written_aggregate id indicator (hchildren input List.mem_cons_self)
      (stands_map fun s hs => ColumnSet.stands fun c hc => ?_)
      (stands_map fun c hc => AggregateCall.stands fun n hn => ?_)
    · exact hsets c (List.mem_flatMap.2 ⟨s, hs, hc⟩)
    · exact hcalls n (List.mem_flatMap.2 ⟨c, hc, hn⟩)
  | join id left right e type =>
    exact written_join id type (hchildren left List.mem_cons_self)
      (hchildren right (List.mem_cons_of_mem _ List.mem_cons_self)) (hexpr e List.mem_cons_self)
  | setOp id op inputs all =>
    exact written_setOp id op all (toJsons_eq_map inputs ▸ stands_map hchildren)
  | sort id input collation offset fetch =>
    obtain ⟨hcolumns, hwindow⟩ := List.forall_mem_append.1 (List.forall_mem_cons.1 h.numbers).2
    obtain ⟨hoffset, hfetch⟩ := List.forall_mem_append.1 hwindow
    exact written_sort id (hchildren input List.mem_cons_self)
      (stands_map fun k hk => SortKey.stands (hcolumns _ (List.mem_map_of_mem hk)))
      (stands_optionalNatural hoffset) (stands_optionalNatural hfetch)
  | exchange id input distribution =>
    exact written_exchange id (hchildren input List.mem_cons_self)
      (Distribution.stands (List.forall_mem_cons.1 h.numbers).2)
  | other id name inputs =>
    exact written_other id name (toJsons_eq_map inputs ▸ stands_map hchildren)

theorem stands_toJson {p : Plan} (hvalid : p.Valid)
    (hfinite : ∀ node ∈ p.nodes, ∀ v ∈ node.constants, v.Finite)
    (hsized : ∀ node ∈ p.nodes, node.Sized) : Stands read? p p.toJson := by
  induction p using inputInduction with
  | node p ih =>
    obtain ⟨hcheck, hinputs⟩ := hvalid
    have hwhole := hsized p (self_mem_nodes p)
    refine Written.stands (hwhole.written (hfinite p (self_mem_nodes p)) ?_) hwhole.id_lt hcheck
    intro child hchild
    have hbelow : ∀ node ∈ child.nodes, node ∈ p.nodes :=
      fun node hnode => mem_nodes_trans (mem_nodes_of_mem_children hchild) hnode
    exact ih child hchild (hinputs child hchild)
      (fun node hnode => hfinite node (hbelow node hnode))
      fun node hnode => hsized node (hbelow node hnode)

/-- A plan is read back from its document as it was, with its ids, expressions, constants and row
shapes. -/
theorem ofSource_toJson {p : Plan} (hvalid : p.Valid) (hids : p.checkIds = .ok ())
    (hfinite : ∀ node ∈ p.nodes, ∀ v ∈ node.constants, v.Finite)
    (hsized : ∀ node ∈ p.nodes, node.Sized) :
    ofSource ⟨p.toJson, false⟩ = .ok p := by
  obtain ⟨hread, hintact⟩ := stands_toJson hvalid hfinite hsized
  have hsource : Source.intact ⟨p.toJson, false⟩ = true := by
    rw [Source.intact, hintact]
    rfl
  rw [ofSource, toOption_eq_some.1 hread]
  show (Except.ok p >>= _) = _
  rw [ok_bind, hsource, hids]
  rfl

def regionTotals : Plan :=
  let codes : Notes := ⟨[("codes", "ISO"), ("unit", "")], by decide⟩
  let times : DataType := .list .list ⟨"item", .timestamp .second (some "+02:00"), true, {}⟩
  let shape : Schema := [⟨"region", ⟨.utf8, true⟩, ⟨0, false, codes⟩⟩,
    ⟨"amount", .float64 false, {}⟩, ⟨"changes", ⟨times, true⟩, {}⟩]
  let orders : Plan :=
    .scan 18446744073709551615 ⟨7, "main", "orders"⟩ shape ⟨[("origin", "shop")], by decide⟩
  let returns : Plan := .values 2
    [[.null, .float64 ⟨0x8000000000000000⟩, .null], [.utf8 "north", .float64 ⟨1⟩, .null]] shape
  let both : Plan := .setOp 3 .union [orders, returns] true
  let greater : Expr := .call (.compare .gt)
    [.column 1 (.float64 false), .literal (.float32 ⟨0x7f7fffff⟩) ⟨.float32, false⟩]
    (.boolean false)
  let unknown : Expr := .call .isNull
    [.call .cast [.correlation 4294967295 (.int64 true)] ⟨.utf8, true⟩] (.boolean false)
  let large : Plan := .filter 4 both (.call .or [greater, unknown] (.boolean false))
  let totals : Plan := .aggregate 5 large [.ofList [0], .ofList []]
    [⟨.sum, [1], none, "total", ⟨.float64, true⟩⟩,
      ⟨.user "median", [1], none, "median", ⟨.float64, true⟩⟩] true
  let sorted : Plan := .sort 6 totals [⟨2, .descending, .first⟩] none (some 10)
  let spread : Plan := .exchange 7 sorted ⟨.hash, [0], some 4⟩
  let regions : Plan := .other 8 "regions" []
  let known : Plan := .join 9 spread regions (.literal (.boolean true) (.boolean false)) .left
  .project 10 known [⟨.column 0 ⟨.utf8, true⟩, "region"⟩,
    ⟨.literal (.int32 (-1)) ⟨.int32, false⟩, "level"⟩]

theorem ofSource_toJson_regionTotals :
    regionTotals.Valid ∧ ofSource ⟨regionTotals.toJson, false⟩ = .ok regionTotals := by
  have hvalid : regionTotals.Valid := by decide +kernel
  have hids : regionTotals.checkIds = .ok () := by rfl
  exact ⟨hvalid, ofSource_toJson hvalid hids (by decide +kernel) (by decide +kernel)⟩

end Relational.Plan
