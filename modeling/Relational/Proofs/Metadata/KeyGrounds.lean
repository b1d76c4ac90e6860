import Relational.Proofs.Metadata.JoinRules

/-!
# Why a node has a key

The grounds on which the built-in rules derive a key, for each kind of node.
-/
namespace Relational.Metadata.Basis
variable {Q : Type} {b : Basis Q} {p : Plan} {ignoreNulls : Bool} {key : ColumnSet}

theorem KeyOf.of_input {i : Nat} (h : b.KeyOf p (.input i) ignoreNulls key) :
    ∃ child, p.children[i]? = some child ∧ b.KeyOf child .self ignoreNulls key := by
  obtain ⟨keys, hkeys, hkey⟩ := h
  obtain ⟨child, hs, hanswers⟩ := gives_uniqueKeys.1 hkeys
  exact ⟨child, hs, keys, gives_uniqueKeys.2 (exists_self.2 hanswers), hkey⟩

theorem KeyOf.of_child {i : Nat} {child : Plan} (hs : p.children[i]? = some child)
    (h : b.KeyOf p (.input i) ignoreNulls key) : b.KeyOf child .self ignoreNulls key := by
  obtain ⟨other, hother, hkey⟩ := h.of_input
  exact Option.some.inj (hother.symm.trans hs) ▸ hkey

theorem keyOf_self {keys : List ColumnSet} :
    b.Gives p (uniqueKeys .self ignoreNulls) (.ok (some keys)) ↔
      b.Answers p ⟨.uniqueKeys, .ignoreNulls ignoreNulls⟩ (.ok (some (.keys keys))) :=
  gives_uniqueKeys.trans exists_self

inductive Keyed (b : Basis Q) (ignoreNulls : Bool) : Plan → ColumnSet → Prop
  | scan {id : Nat} {table : TableRef} {shape : Schema} {notes : Notes} {d : TableDescriptor}
    {key : ColumnSet} (hd : b.setting.descriptor? (.scan id table shape notes) = some d)
    (hkey : key ∈ d.uniqueKeys) : Keyed b ignoreNulls (.scan id table shape notes) key
  | values {id : Nat} {rows : List Row} {shape : Schema} {notes : Notes}
    (hone : rows.length ≤ 1) : Keyed b ignoreNulls (.values id rows shape notes) .empty
  | filter {id : Nat} {input : Plan} {condition : Expr} {key : ColumnSet}
    (hkey : b.KeyOf input .self ignoreNulls key) :
    Keyed b ignoreNulls (.filter id input condition) key
  | project {id : Nat} {input : Plan} {columns : List Projection} {source key : ColumnSet}
    (hkey : b.KeyOf input .self ignoreNulls source)
    (hcopied : source.renumber? (copyOf? columns) = some key) :
    Keyed b ignoreNulls (.project id input columns) key
  | aggregate {id : Nat} {input : Plan} {set : ColumnSet} {calls : List AggregateCall}
    {indicator : Bool} :
    Keyed b ignoreNulls (.aggregate id input [set] calls indicator) (.range set.size)
  | join {id : Nat} {left right : Plan} {condition : Expr} {type : JoinType} {key : ColumnSet}
    (hkey : b.JoinKey (.join id left right condition type) left condition type ignoreNulls key) :
    Keyed b ignoreNulls (.join id left right condition type) key
  | setOp {id : Nat} {op : SetOp} {inputs : List Plan} {all : Bool} :
    Keyed b ignoreNulls (.setOp id op inputs all) (.range (Plan.setOp id op inputs all).width)
  | limit {id : Nat} {input : Plan} {collation : Collation} {offset fetch : Option Nat}
    (hone : UniqueKeys.atMostOne (.sort id input collation offset fetch) = true) :
    Keyed b ignoreNulls (.sort id input collation offset fetch) .empty
  | sort {id : Nat} {input : Plan} {collation : Collation} {offset fetch : Option Nat}
    {key : ColumnSet}
    (hmany : UniqueKeys.atMostOne (.sort id input collation offset fetch) = false)
    (hkey : b.KeyOf input .self ignoreNulls key) :
    Keyed b ignoreNulls (.sort id input collation offset fetch) key
  | exchange {id : Nat} {input : Plan} {distribution : Distribution} {key : ColumnSet}
    (hkey : b.KeyOf input .self ignoreNulls key) :
    Keyed b ignoreNulls (.exchange id input distribution) key

theorem keyed_of_keyOf [Quantity Q] (hrules : b.rules = .builtin)
    (h : b.KeyOf p .self ignoreNulls key) : b.Keyed ignoreNulls p key := by
  obtain ⟨keys, hkeys, hkey⟩ := h
  have hanswers := keyOf_self.1 hkeys
  have hpassed {input : Plan} (hs : p.children[0]? = some input)
      (h : b.Gives p (UniqueKeys.passedOn b.setting p (.ignoreNulls ignoreNulls))
        (.ok (some (.keys keys)))) : b.KeyOf input .self ignoreNulls key := by
    obtain ⟨found, hfound, hfact⟩ := gives_fromInput h
    cases hfact
    exact KeyOf.of_child hs ⟨_, hfound, hkey⟩
  cases p with
  | scan =>
    have hgives := gives_of_builtin hrules hanswers rfl
    simp only [UniqueKeys.ofScan] at hgives
    split at hgives
    next d hd =>
      cases gives_known.1 hgives
      exact .scan hd (mem_of_mem_keySet hkey)
    · cases gives_unknown.1 hgives
  | values =>
    have hgives := gives_of_builtin hrules hanswers rfl
    simp only [UniqueKeys.ofValues] at hgives
    split at hgives
    next hone =>
      cases gives_known.1 hgives
      exact List.mem_singleton.1 hkey ▸ .values hone
    · cases gives_unknown.1 hgives
  | filter => exact .filter (hpassed rfl (gives_of_builtin hrules hanswers rfl))
  | project id input columns =>
    obtain ⟨found, hfound, hfact⟩ := gives_report.1 (gives_of_builtin hrules hanswers rfl)
    cases hfact
    obtain ⟨source, hsource, hcopied⟩ := List.mem_filterMap.1 (mem_of_mem_keySet hkey)
    exact .project (KeyOf.of_child rfl ⟨_, hfound, hsource⟩) hcopied
  | aggregate =>
    have hgives := gives_of_builtin hrules hanswers rfl
    simp only [UniqueKeys.ofAggregate] at hgives
    split at hgives
    next heq =>
      cases heq
      cases gives_known.1 hgives
      exact List.mem_singleton.1 hkey ▸ .aggregate
    · cases gives_unknown.1 hgives
  | join => exact .join (joinKey_of_gives rfl (gives_of_builtin hrules hanswers rfl) key hkey)
  | setOp =>
    obtain ⟨-, rfl⟩ := keys_setOp hrules hanswers
    exact List.mem_singleton.1 hkey ▸ .setOp
  | sort =>
    have hgives := gives_of_builtin hrules hanswers rfl
    simp only [UniqueKeys.ofSort] at hgives
    split at hgives
    next hone =>
      cases gives_known.1 hgives
      exact List.mem_singleton.1 hkey ▸ .limit hone
    next hmany => exact .sort (Bool.eq_false_iff.2 hmany) (hpassed rfl hgives)
  | exchange => exact .exchange (hpassed rfl (gives_of_builtin hrules hanswers rfl))
  | other =>
    obtain ⟨rule, hrule, -⟩ := answers_some.1 hanswers
    rw [hrules] at hrule
    cases hrule

end Relational.Metadata.Basis
