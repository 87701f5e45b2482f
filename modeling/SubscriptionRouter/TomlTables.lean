import Mathlib
import SubscriptionRouter.Toml

set_option autoImplicit false

/-!
# The tables of a TOML document

A statement stands in the table whose header was the last one. What it does to the document
depends only on the node under the first part of its path, so that the tables at the top of
the document can be read one by one.
-/
namespace SubscriptionRouter.Toml
open GoText TextLines

abbrev Path := List GoString

/-- A statement and the table it stands in. -/
structure Entry where
  table : Path
  statement : Statement

def tableOf (table : Path) : Statement → Path
  | .table _ | .arrayTable _ => []
  | .keyval _ _ => table

def tableAfter (table : Path) : Statement → Path
  | .table path | .arrayTable path => path
  | .keyval _ _ => table

theorem header_table {s : Statement} (h : s.isHeader = true) (table table' : Path) :
    tableOf table s = tableOf table' s ∧ tableAfter table s = tableAfter table' s := by
  cases s with
  | table path => exact ⟨rfl, rfl⟩
  | arrayTable path => exact ⟨rfl, rfl⟩
  | keyval key value => cases h

theorem keyval_table {s : Statement} (h : s.isHeader = false) (table : Path) :
    tableAfter table s = table := by
  cases s with
  | table path => cases h
  | arrayTable path => cases h
  | keyval key value => rfl

section Entries
variable {α β : Type}

/-- The statements in the tables they stand in, where a statement comes with something else. -/
def entriesFrom (table : Path) : List (α × Statement) → List (α × Entry)
  | [] => []
  | (a, s) :: rest => (a, ⟨tableOf table s, s⟩) :: entriesFrom (tableAfter table s) rest

theorem entriesFrom_map (f : α → β) (table : Path) (l : List (α × Statement)) :
    entriesFrom table (l.map (Prod.map f id)) = (entriesFrom table l).map (Prod.map f id) := by
  induction l generalizing table with
  | nil => rfl
  | cons e l ih =>
    obtain ⟨x, s⟩ := e
    rw [List.map_cons, Prod.map_apply, entriesFrom, entriesFrom, List.map_cons, Prod.map_apply, ih]
    rfl

def entriesOf (table : Path) (ss : List Statement) : List Entry :=
  (entriesFrom table (ss.map (Prod.mk ()))).map Prod.snd

theorem entriesOf_map_snd (table : Path) (l : List (α × Statement)) :
    entriesOf table (l.map Prod.snd) = (entriesFrom table l).map Prod.snd := by
  have hunit := entriesFrom_map (fun _ : α => ()) table l
  have hmap : l.map (Prod.map (fun _ => ()) id) = (l.map Prod.snd).map (Prod.mk ()) := by
    rw [List.map_map]
    rfl
  rw [entriesOf, ← hmap, hunit, List.map_map]
  rfl

theorem entriesOf_append (table : Path) (a b : List Statement) :
    entriesOf table (a ++ b) = entriesOf table a ++ entriesOf (a.foldl tableAfter table) b := by
  induction a generalizing table with
  | nil => rfl
  | cons s a ih => exact congrArg (Entry.mk (tableOf table s) s :: ·) (ih (tableAfter table s))

end Entries

/-- The statements of groups, each with the lines it stands on. -/
def parseGroups {β : Type} : List (β × List Token) → Option (List (β × Statement))
  | [] => some []
  | g :: gs => (parseStatement g.2).bind fun s =>
    (parseGroups gs).map (s.toList.map (Prod.mk g.1) ++ ·)

theorem parseGroups_statements {β : Type} (gs : List (β × List Token)) :
    (parseGroups gs).map (fun l => l.map Prod.snd) = statementsOf (gs.map Prod.snd) := by
  induction gs with
  | nil => rfl
  | cons g gs ih =>
    rw [parseGroups, List.map_cons, statementsOf, ← ih]
    cases parseStatement g.2 with
    | none => rfl
    | some s =>
      cases parseGroups gs with
      | none => rfl
      | some l => cases s <;> rfl

theorem parseGroups_filter {β : Type} (q : β → Bool) {gs : List (β × List Token)}
    {l : List (β × Statement)} (h : parseGroups gs = some l) :
    parseGroups (gs.filter fun g => q g.1) = some (l.filter fun e => q e.1) := by
  induction gs generalizing l with
  | nil =>
    cases h
    rfl
  | cons g gs ih =>
    rw [parseGroups] at h
    obtain ⟨s, hs, h⟩ := Option.bind_eq_some_iff.mp h
    obtain ⟨rest, hrest, rfl⟩ := Option.map_eq_some_iff.mp h
    have ih := ih hrest
    cases hq : q g.1 with
    | true =>
      rw [List.filter_cons, if_pos hq, parseGroups, hs, Option.bind_some, ih, Option.map_some,
        List.filter_append]
      cases s <;> simp [hq]
    | false =>
      rw [List.filter_cons, if_neg (by simp [hq]), ih, List.filter_append]
      cases s <;> simp [hq]

def entries (text : GoString) : Option (List Entry) := (statements text).map (entriesOf [])

/-! ## Documents -/

/-- How a table came to be: by the header of a table under it, by its own header, or by a
dotted key. -/
inductive Kind where
  | implicit | header | dotted
  deriving DecidableEq

inductive Node where
  | value (v : Value)
  | table (kind : Kind) (members : List (GoString × Node))
  | tables (elements : List (List (GoString × Node)))

def put (key : GoString) (node : Node) : List (GoString × Node) → List (GoString × Node)
  | [] => [(key, node)]
  | (k, n) :: rest => if k = key then (key, node) :: rest else (k, n) :: put key node rest

/-- Change the node at the end of a path; the last element of an array of tables is meant. -/
def change (op : Option Node → Option Node) : Path → Option Node → Option Node
  | [], node => op node
  | key :: path, none => (change op path none).map fun node => .table .implicit [(key, node)]
  | key :: path, some (.table kind members) =>
    (change op path (members.lookup key)).map fun node => .table kind (put key node members)
  | key :: path, some (.tables elements) =>
    elements.getLast?.bind fun members =>
      (change op path (members.lookup key)).map fun node =>
        .tables (elements.dropLast ++ [put key node members])
  | _ :: _, some (.value _) => none

def openTable : Option Node → Option Node
  | none => some (.table .header [])
  | some (.table .implicit members) => some (.table .header members)
  | _ => none

def openArray : Option Node → Option Node
  | none => some (.tables [[]])
  | some (.tables elements) => some (.tables (elements ++ [[]]))
  | _ => none

mutual
/-- No key of an inline table is given twice, or given as a value and as a table. -/
def Value.valid : Value → Bool
  | .string _ => true
  | .scalar _ => true
  | .array elements => validElements elements
  | .inline pairs => validPairs pairs &&
    decide ((pairs.map Prod.fst).Pairwise fun a b => ¬ a <+: b ∧ ¬ b <+: a)

def validElements : List Value → Bool
  | [] => true
  | v :: vs => v.valid && validElements vs

def validPairs : List (Path × Value) → Bool
  | [] => true
  | (_, v) :: rest => v.valid && validPairs rest
end

/-- Set what a dotted key stands for. A table with a header of its own is not defined again. -/
def setKey (value : Value) : Path → Option Node → Option Node
  | [], none => if value.valid then some (.value value) else none
  | key :: path, none => (setKey value path none).map fun node => .table .dotted [(key, node)]
  | key :: path, some (.table kind members) =>
    if kind = .header then none
    else (setKey value path (members.lookup key)).map fun node => .table .dotted (put key node members)
  | _, _ => none

/-- Where an entry changes the document. -/
def Entry.path (e : Entry) : Path :=
  match e.statement with
  | .table path | .arrayTable path => path
  | .keyval key _ => e.table ++ key.take 1

def Entry.op (e : Entry) : Option Node → Option Node :=
  match e.statement with
  | .table _ => openTable
  | .arrayTable _ => openArray
  | .keyval key value => setKey value key.tail

def Entry.head (e : Entry) : Option GoString := e.path.head?

def Entry.apply (e : Entry) (root : List (GoString × Node)) : Option (List (GoString × Node)) :=
  match e.path with
  | [] => none
  | key :: path => (change e.op path (root.lookup key)).map fun node => put key node root

def documentOf (es : List Entry) : Option (List (GoString × Node)) :=
  es.foldlM (fun root e => e.apply root) []

def document (text : GoString) : Option (List (GoString × Node)) := (entries text).bind documentOf

/-! ## The tables at the top -/

def definesAt (key : GoString) (e : Entry) : Bool := e.head = some key

def definitions (key : GoString) (text : GoString) : Option (List Entry) :=
  (entries text).map fun es => es.filter (definesAt key)

def nodeOf (es : List Entry) : Option (Option Node) :=
  es.foldlM (fun node e => (change e.op e.path.tail node).map some) none

theorem lookup_put (key key' : GoString) (node : Node) (members : List (GoString × Node)) :
    (put key node members).lookup key' =
      if key' = key then some node else members.lookup key' := by
  induction members with
  | nil =>
    rw [put, List.lookup_cons]
    by_cases h : key' = key
    · simp [h]
    · have hne : (key' == key) = false := by simp [h]
      rw [hne, if_neg h]
  | cons m members ih =>
    obtain ⟨k, n⟩ := m
    rw [put]
    split
    · rename_i hk
      rw [List.lookup_cons, List.lookup_cons, hk]
      by_cases h : key' = key
      · simp [h]
      · have hne : (key' == key) = false := by simp [h]
        rw [hne, if_neg h]
    · rename_i hk
      rw [List.lookup_cons, List.lookup_cons, ih]
      by_cases h : key' = k
      · simp [h, hk]
      · have hne : (key' == k) = false := by simp [h]
        rw [hne]

theorem apply_lookup {e : Entry} {root root' : List (GoString × Node)} (h : e.apply root = some root')
    (key : GoString) : if definesAt key e then
        (change e.op e.path.tail (root.lookup key)).map some = some (root'.lookup key)
      else root'.lookup key = root.lookup key := by
  rw [Entry.apply] at h
  rw [definesAt, Entry.head]
  cases hpath : e.path with
  | nil =>
    rw [hpath] at h
    cases h
  | cons k path =>
    rw [hpath] at h
    obtain ⟨node, hnode, rfl⟩ := Option.map_eq_some_iff.mp h
    rw [List.head?_cons, List.tail_cons, lookup_put]
    by_cases hk : k = key
    · subst hk
      rw [if_pos (by simp), if_pos rfl, hnode]
      rfl
    · rw [if_neg (by simp [hk]), if_neg (fun heq => hk heq.symm)]

theorem foldlM_lookup (key : GoString) {es : List Entry} {root root' : List (GoString × Node)}
    (h : es.foldlM (fun root e => e.apply root) root = some root') :
    (es.filter (definesAt key)).foldlM
      (fun node e => (change e.op e.path.tail node).map some) (root.lookup key) =
        some (root'.lookup key) := by
  induction es generalizing root with
  | nil =>
    cases h
    rfl
  | cons e es ih =>
    obtain ⟨next, hnext, hrest⟩ := Option.bind_eq_some_iff.mp h
    have hlookup := apply_lookup hnext key
    split at hlookup
    · rename_i he
      rw [List.filter_cons_of_pos he, List.foldlM_cons, hlookup]
      exact ih hrest
    · rename_i he
      rw [List.filter_cons_of_neg he, ← hlookup]
      exact ih hrest

theorem document_lookup {text : GoString} {root : List (GoString × Node)} (key : GoString)
    (h : document text = some root) :
    (definitions key text).bind nodeOf = some (root.lookup key) := by
  obtain ⟨es, hes, hroot⟩ := Option.bind_eq_some_iff.mp h
  rw [definitions, hes]
  exact foldlM_lookup key hroot

/-- Entries make a document exactly if those under each key make a node. -/
theorem foldlM_isSome (es : List Entry) (root : List (GoString × Node)) :
    (es.foldlM (fun root (e : Entry) => e.apply root) root).isSome ↔ (∀ e ∈ es, e.path ≠ []) ∧
      ∀ key, ((es.filter (definesAt key)).foldlM
        (fun node (e : Entry) => (change e.op e.path.tail node).map some) (root.lookup key)).isSome := by
  induction es generalizing root with
  | nil => simp
  | cons e es ih =>
    rw [List.foldlM_cons, List.forall_mem_cons]
    cases hpath : e.path with
    | nil =>
      rw [Entry.apply, hpath]
      simp
    | cons k path =>
      have hpos : definesAt k e = true := by simp [definesAt, Entry.head, hpath]
      have happly : e.apply root =
          (change e.op path (root.lookup k)).map fun node => put k node root := by
        rw [Entry.apply, hpath]
      rw [happly]
      cases hnode : change e.op path (root.lookup k) with
      | none =>
        refine iff_of_false (by simp) fun h => ?_
        have hk := h.2 k
        rw [List.filter_cons_of_pos hpos, List.foldlM_cons, hpath, List.tail_cons, hnode] at hk
        cases hk
      | some node =>
        rw [Option.map_some, Option.bind_eq_bind, Option.bind_some, ih]
        refine and_congr (by simp) (forall_congr' fun key => ?_)
        by_cases hkey : key = k
        · subst hkey
          rw [List.filter_cons_of_pos hpos, List.foldlM_cons, hpath, List.tail_cons, hnode,
            lookup_put, if_pos rfl]
          rfl
        · have hneg : ¬ definesAt key e = true := by simp [definesAt, Entry.head, hpath, Ne.symm hkey]
          rw [List.filter_cons_of_neg hneg, lookup_put, if_neg hkey]

theorem documentOf_isSome (es : List Entry) : (documentOf es).isSome ↔ (∀ e ∈ es, e.path ≠ []) ∧
    ∀ key, (nodeOf (es.filter (definesAt key))).isSome :=
  foldlM_isSome es []

theorem nodeOf_value {e : Entry} {es : List Entry} {v : Value} (hne : es ≠ [])
    (he : change e.op e.path.tail none = some (.value v)) : nodeOf (e :: es) = none := by
  obtain ⟨d, rest, rfl⟩ := List.exists_cons_of_ne_nil hne
  have hnext : change d.op d.path.tail (some (.value v)) = none := by
    cases d.path.tail with
    | cons k path => rfl
    | nil =>
      rw [change, Entry.op]
      cases d.statement with
      | table path => rfl
      | arrayTable path => rfl
      | keyval key value => cases htail : key.tail <;> simp [setKey, htail]
  rw [nodeOf, List.foldlM_cons, he]
  change (Option.map some (change d.op d.path.tail (some (.value v)))).bind _ = none
  rw [hnext]
  rfl

/-! ## Counting definitions -/

mutual
/-- How often the node and those in it were defined by an entry of their own. -/
def Node.defined : Node → ℕ
  | .value _ => 1
  | .table kind members => (if kind = .header then 1 else 0) + definedIn members
  | .tables elements => definedEach elements

def definedIn : List (GoString × Node) → ℕ
  | [] => 0
  | (_, node) :: rest => node.defined + definedIn rest

def definedEach : List (List (GoString × Node)) → ℕ
  | [] => 0
  | members :: rest => 1 + definedIn members + definedEach rest
end

def defined (node : Option Node) : ℕ := (node.map Node.defined).getD 0

def Defines (op : Option Node → Option Node) : Prop :=
  ∀ node node', op node = some node' → node'.defined = defined node + 1

theorem definedIn_put (key : GoString) (node : Node) (members : List (GoString × Node)) :
    definedIn (put key node members) + defined (members.lookup key) =
      definedIn members + node.defined := by
  induction members with
  | nil => simp [put, definedIn, defined]
  | cons m members ih =>
    obtain ⟨k, n⟩ := m
    rw [put]
    split
    · rename_i hk
      subst hk
      rw [List.lookup_cons_self, definedIn, definedIn, defined, Option.map_some, Option.getD_some]
      omega
    · rename_i hk
      have hlookup : List.lookup key ((k, n) :: members) = members.lookup key := by
        have hne : (key == k) = false := by simp [Ne.symm hk]
        rw [List.lookup_cons, hne]
      rw [hlookup, definedIn, definedIn]
      omega

theorem definedEach_append (a b : List (List (GoString × Node))) :
    definedEach (a ++ b) = definedEach a + definedEach b := by
  induction a with
  | nil => rw [List.nil_append, definedEach, Nat.zero_add]
  | cons members a ih =>
    rw [List.cons_append, definedEach, definedEach, ih]
    omega

theorem defines_openTable : Defines openTable := by
  intro node node' h
  unfold openTable at h
  split at h
  · cases h
    rfl
  · cases h
    simp [Node.defined, defined]
    omega
  · cases h

theorem defines_openArray : Defines openArray := by
  intro node node' h
  unfold openArray at h
  split at h
  · cases h
    rfl
  · cases h
    rename_i elements
    simp [Node.defined, defined, definedEach_append, definedEach, definedIn]
  · cases h

theorem defined_fresh {kind : Kind} (hkind : kind ≠ .header) {key : GoString} {node : Node}
    (h : node.defined = defined none + 1) :
    (Node.table kind [(key, node)]).defined = defined none + 1 := by
  rw [Node.defined, if_neg hkind, definedIn, definedIn, h]
  rfl

theorem definedIn_put_succ {key : GoString} {node : Node} {members : List (GoString × Node)}
    (h : node.defined = defined (members.lookup key) + 1) :
    definedIn (put key node members) = definedIn members + 1 := by
  have hput := definedIn_put key node members
  omega

theorem defined_put (kind : Kind) {key : GoString} {node : Node} {members : List (GoString × Node)}
    (h : node.defined = defined (members.lookup key) + 1) :
    (Node.table kind (put key node members)).defined = (Node.table kind members).defined + 1 := by
  rw [Node.defined, Node.defined, definedIn_put_succ h, Nat.add_assoc]

theorem defines_setKey (value : Value) (path : Path) : Defines (setKey value path) := by
  induction path with
  | nil =>
    intro node node' h
    cases node with
    | none =>
      rw [setKey] at h
      split at h
      · cases h
        rfl
      · cases h
    | some node => cases h
  | cons key path ih =>
    intro node node' h
    cases node with
    | none =>
      obtain ⟨inner, hinner, rfl⟩ := Option.map_eq_some_iff.mp h
      exact defined_fresh (by decide) (ih none inner hinner)
    | some node =>
      cases node with
      | value v => cases h
      | tables elements => cases h
      | table kind members =>
        cases kind with
        | header => cases h
        | implicit =>
          obtain ⟨inner, hinner, rfl⟩ := Option.map_eq_some_iff.mp h
          exact defined_put .dotted (ih _ inner hinner)
        | dotted =>
          obtain ⟨inner, hinner, rfl⟩ := Option.map_eq_some_iff.mp h
          exact defined_put .dotted (ih _ inner hinner)

theorem defines_change {op : Option Node → Option Node} (hop : Defines op) (path : Path) :
    Defines (change op path) := by
  induction path with
  | nil => exact hop
  | cons key path ih =>
    intro node node' h
    cases node with
    | none =>
      obtain ⟨inner, hinner, rfl⟩ := Option.map_eq_some_iff.mp h
      exact defined_fresh (by decide) (ih none inner hinner)
    | some node =>
      cases node with
      | value v => cases h
      | table kind members =>
        obtain ⟨inner, hinner, rfl⟩ := Option.map_eq_some_iff.mp h
        exact defined_put kind (ih _ inner hinner)
      | tables elements =>
        obtain ⟨members, hlast, h⟩ := Option.bind_eq_some_iff.mp h
        obtain ⟨inner, hinner, rfl⟩ := Option.map_eq_some_iff.mp h
        have hput := definedIn_put_succ (ih _ inner hinner)
        have helements := List.dropLast_append_getLast? members hlast
        change _ = (Node.tables elements).defined + 1
        rw [Node.defined, Node.defined, definedEach_append]
        conv_rhs => rw [← helements, definedEach_append]
        simp only [definedEach]
        omega

theorem defines_entry (e : Entry) : Defines e.op := by
  rw [Entry.op]
  split
  · exact defines_openTable
  · exact defines_openArray
  · exact defines_setKey _ _

theorem defined_nodeOf {es : List Entry} {node : Option Node} (h : nodeOf es = some node) :
    defined node = es.length := by
  have hfrom : ∀ (start : Option Node), es.foldlM
      (fun node e => (change e.op e.path.tail node).map some) start = some node →
        defined node = defined start + es.length := by
    clear h
    induction es with
    | nil =>
      intro start h
      cases h
      rfl
    | cons e es ih =>
      intro start h
      obtain ⟨next, hnext, hrest⟩ := Option.bind_eq_some_iff.mp h
      obtain ⟨node', hnode', rfl⟩ := Option.map_eq_some_iff.mp hnext
      have hcount := defines_change (defines_entry e) e.path.tail start node' hnode'
      rw [ih _ hrest, List.length_cons]
      change node'.defined + es.length = _
      omega
  have hall := hfrom none h
  rw [hall]
  exact Nat.zero_add _

end SubscriptionRouter.Toml
