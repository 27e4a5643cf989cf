import Hack.Proofs.Assembly.Resolution
import Hack.Proofs.Assembly.Rendering
import Hack.Proofs.InPlace

namespace Hack.Assembly

/-! What is asked of a symbol table.

A table is asked to bind labels and to look names up, in any order, and it is
asked again after it has refused something.  A request enters one name that had
no address, or it changes nothing; so names keep their addresses, and the cells
of the variables follow from the order in which they come up.
-/

open SymbolTable InPlace

inductive Request where
  | bindLabel (name : String) (index line : Nat)
  | resolve (name : String) (line : Nat)
  | find (name : String)
  | contains (name : String)

inductive Answer where
  | bound
  | address (value : Nat)
  | found (address : Option Nat)
  | known (holds : Bool)

def SymbolTable.enter (table : SymbolTable) (name : String) (address : Nat) : SymbolTable :=
  { table with addresses := table.addresses.insert name address }

def bindLabelInPlace (name : String) (index line : Nat) : InPlace SymbolTable Error Unit := do
  let table ← get
  if table.contains name then throw ⟨.line line, .duplicateLabel name⟩
  else if maxAddress < index then throw ⟨.line line, .addressOverflow index⟩
  else modify fun table => table.enter name index

/-- The name of a variable is entered first, and then its cell is counted. -/
def resolveInPlace (name : String) (line : Nat) : InPlace SymbolTable Error Nat := do
  let table ← get
  match table.find? name with
  | some address => return address
  | none =>
      if maxAddress < table.nextVariable then throw ⟨.line line, .addressOverflow table.nextVariable⟩
      else
        modify fun table => table.enter name table.nextVariable
        modify fun table => { table with allocated := table.allocated.push name }
        return table.nextVariable

namespace Request

/-- A request to a table that is changed in place. -/
def serve : Request → InPlace SymbolTable Error Answer
  | .bindLabel name index line => do
      bindLabelInPlace name index line
      return .bound
  | .resolve name line => do
      let address ← resolveInPlace name line
      return .address address
  | .find name => do
      let table ← get
      return .found (table.find? name)
  | .contains name => do
      let table ← get
      return .known (table.contains name)

/-- A request to a table that hands on a new one. -/
def ask (request : Request) : StateT SymbolTable (Except Error) Answer := fun table =>
  match request with
  | .bindLabel name index line =>
      ((Place.line line).blame (table.bindLabel name index)).map fun next => (.bound, next)
  | .resolve name line =>
      ((Place.line line).blame (table.resolve name)).map fun (address, next) => (.address address, next)
  | .find name => return (.found (table.find? name), table)
  | .contains name => return (.known (table.contains name), table)

/-- The name that becomes a variable: it is looked up with success and had no address before. -/
def allocates? (request : Request) (table : SymbolTable) : Option String :=
  match request with
  | .resolve name _ =>
      if (table.find? name).isNone && (request.serve.act table).1.isOk then some name else none
  | _ => none

end Request

/-- The table after some requests, of which some may have been refused. -/
def served (requests : List Request) : SymbolTable :=
  stateAfter Request.serve requests .initial

/-- The names that become variables, in the order in which they do. -/
def allocations : List Request → SymbolTable → List String
  | [], _ => []
  | request :: rest, table => (request.allocates? table).toList ++ allocations rest (request.serve.act table).2

/-- A name without an address gets one, and nothing else changes. -/
structure Enters (table : SymbolTable) (name : String) (address : Nat) (after : SymbolTable) : Prop where
  fresh : table.find? name = none
  within : address ≤ maxAddress
  find : ∀ other, after.find? other = if name = other then some address else table.find? other

/-- What a request can do to a table, with the name that it makes a variable. -/
inductive Changes (table : SymbolTable) : Option String → SymbolTable → Prop where
  | nothing : Changes table none table
  | bound {name : String} {index : Nat} {after : SymbolTable} (enters : Enters table name index after)
      (next : after.nextVariable = table.nextVariable) : Changes table none after
  | allocated {name : String} {after : SymbolTable} (enters : Enters table name table.nextVariable after)
      (next : after.nextVariable = table.nextVariable + 1) : Changes table (some name) after

/-- What holds of a table in which these names have become variables. -/
structure SymbolTable.Records (table : SymbolTable) (names : List String) : Prop where
  reserved : ∀ name address, predefined.lookup name = some address → table.find? name = some address
  within : ∀ name address, table.find? name = some address → address ≤ maxAddress
  cells : ∀ position name, names[position]? = some name → table.find? name = some (firstVariable + position)
  next : table.nextVariable = firstVariable + names.length
  room : table.nextVariable ≤ maxAddress + 1

/-- What a table still does when it has no cell left. -/
structure SymbolTable.Exhausted (table : SymbolTable) : Prop where
  refuses : ∀ name line, table.find? name = none →
    (Request.resolve name line).serve.act table = (.error ⟨.line line, .addressOverflow 32768⟩, table)
  resolves : ∀ name line address, table.find? name = some address →
    (Request.resolve name line).serve.act table = (.ok (.address address), table)
  binds : ∀ name index line, table.find? name = none → index ≤ maxAddress →
    ∃ after, (Request.bindLabel name index line).serve.act table = (.ok .bound, after) ∧
      after.find? name = some index

variable {table after : SymbolTable} {name other : String} {address index line : Nat}
variable {names : List String} {requests : List Request}

theorem settles_bindLabel (name : String) (index line : Nat) : (bindLabelInPlace name index line).Settles
    fun table => ((Place.line line).blame (table.bindLabel name index)).map fun next => ((), next) := by
  intro table
  rw [bindLabelInPlace, act_bind, act_get]
  dsimp only [bindLabel]
  split
  · rfl
  · split
    · rfl
    · rfl

theorem settles_resolve (name : String) (line : Nat) :
    (resolveInPlace name line).Settles fun table => (Place.line line).blame (table.resolve name) := by
  intro table
  rw [resolveInPlace, act_bind, act_get]
  dsimp only [resolve]
  cases table.find? name with
  | some address => rfl
  | none =>
      dsimp only
      split
      · rfl
      · rfl

/-- A request changes a table in place into the one that is handed on. -/
theorem Request.serve_settles (request : Request) : request.serve.Settles request.ask := by
  intro table
  cases request with
  | bindLabel name index line =>
      rw [serve, (settles_bindLabel name index line).map fun _ => Answer.bound, ask]
      dsimp only
      cases table.bindLabel name index with
      | error fault => rfl
      | ok next => rfl
  | resolve name line => exact (settles_resolve name line).map Answer.address table
  | find name => rfl
  | contains name => rfl

theorem act_resolve_of_find (found : table.find? name = some address) (line : Nat) :
    (Request.resolve name line).serve.act table = (.ok (.address address), table) := by
  rw [Request.serve_settles, Request.ask, resolve_of_find found]
  rfl

theorem act_resolve_of_none (fresh : table.find? name = none) (line : Nat) :
    (Request.resolve name line).serve.act table =
      if maxAddress < table.nextVariable then (.error ⟨.line line, .addressOverflow table.nextVariable⟩, table)
      else (.ok (.address table.nextVariable),
        { table.enter name table.nextVariable with allocated := table.allocated.push name }) := by
  rw [Request.serve_settles, Request.ask, resolve, fresh]
  dsimp only
  split
  · rfl
  · rfl

theorem act_bindLabel_of_find (found : table.find? name = some address) (index line : Nat) :
    (Request.bindLabel name index line).serve.act table = (.error ⟨.line line, .duplicateLabel name⟩, table) := by
  have known : table.contains name = true := by rw [contains_eq_isSome, found, Option.isSome_some]
  rw [Request.serve_settles, Request.ask, bindLabel, if_pos known]
  rfl

theorem act_bindLabel_of_none (fresh : table.find? name = none) (index line : Nat) :
    (Request.bindLabel name index line).serve.act table =
      if maxAddress < index then (.error ⟨.line line, .addressOverflow index⟩, table)
      else (.ok .bound, table.enter name index) := by
  have unknown : ¬ table.contains name = true := by simp [contains_eq_isSome, fresh]
  rw [Request.serve_settles, Request.ask, bindLabel, if_neg unknown]
  split
  · rfl
  · rfl

theorem enters_enter (fresh : table.find? name = none) (within : address ≤ maxAddress) (allocated : Array String) :
    Enters table name address ⟨table.addresses.insert name address, allocated⟩ :=
  ⟨fresh, within, fun _ => find?_insert _ _⟩

theorem Enters.keeps (enters : Enters table name address after) {known : Nat}
    (found : table.find? other = some known) : after.find? other = some known := by
  have different : name ≠ other := by
    intro same
    have fresh := enters.fresh
    rw [same, found] at fresh
    cases fresh
  rw [enters.find other, if_neg different, found]

theorem Request.changes (request : Request) (table : SymbolTable) :
    Changes table (request.allocates? table) (request.serve.act table).2 := by
  cases request with
  | find name => exact .nothing
  | contains name => exact .nothing
  | bindLabel name index line =>
      change Changes table none _
      cases known : table.find? name with
      | some address =>
          rw [act_bindLabel_of_find known]
          exact .nothing
      | none =>
          rw [act_bindLabel_of_none known]
          split
          · exact .nothing
          · next within => exact .bound (enters_enter known (Nat.le_of_not_lt within) table.allocated) rfl
  | resolve name line =>
      rw [allocates?]
      cases known : table.find? name with
      | some address =>
          rw [act_resolve_of_find known]
          exact .nothing
      | none =>
          rw [act_resolve_of_none known]
          by_cases full : maxAddress < table.nextVariable
          · rw [if_pos full]
            exact .nothing
          · rw [if_neg full]
            refine .allocated (enters_enter known (Nat.le_of_not_lt full) _) ?_
            simp [nextVariable, Nat.add_assoc]

theorem records_initial : SymbolTable.initial.Records [] := by
  refine ⟨fun name address listed => ?_, fun name address found => ?_, nofun, rfl, by decide⟩
  · rw [find?_initial, listed]
  · rw [find?_initial] at found
    exact le_of_lookup_predefined found

theorem Enters.within_after (enters : Enters table name address after)
    (within : ∀ name address, table.find? name = some address → address ≤ maxAddress)
    {known : Nat} (found : after.find? other = some known) : known ≤ maxAddress := by
  rw [enters.find other] at found
  split at found
  · cases found
    exact enters.within
  · exact within other known found

theorem SymbolTable.Records.step (records : table.Records names) (request : Request) :
    (request.serve.act table).2.Records (names ++ (request.allocates? table).toList) := by
  have changes := request.changes table
  generalize request.allocates? table = allocated, (request.serve.act table).2 = after at changes
  cases changes with
  | nothing => simpa using records
  | bound enters next =>
      refine ⟨fun name address listed => enters.keeps (records.reserved name address listed),
        fun _ _ => enters.within_after records.within, fun position name found => ?_, ?_, ?_⟩
      · exact enters.keeps (records.cells position name (by simpa using found))
      · simpa [next] using records.next
      · simpa [next] using records.room
  | @allocated name after enters next =>
      refine ⟨fun name address listed => enters.keeps (records.reserved name address listed),
        fun _ _ => enters.within_after records.within, fun position other found => ?_, ?_, ?_⟩
      · rw [Option.toList_some, List.getElem?_append] at found
        split at found
        · exact enters.keeps (records.cells position other found)
        · next behind =>
            -- The new name is the only one behind the others, and its cell is the next one.
            obtain ⟨first, same⟩ : position - names.length = 0 ∧ name = other := by
              cases gap : position - names.length with
              | zero => simpa [gap] using found
              | succ more => simp [gap] at found
            have place : firstVariable + position = table.nextVariable := by
              rw [records.next]
              omega
            rw [enters.find other, if_pos same, place]
      · rw [next, records.next, Option.toList_some, List.length_append, List.length_singleton, Nat.add_assoc]
      · rw [next]
        exact Nat.succ_le_succ enters.within

/-- What the requests so far have brought about goes on with more of them. -/
theorem SymbolTable.Records.run (records : table.Records names) (requests : List Request) :
    (stateAfter Request.serve requests table).Records (names ++ allocations requests table) := by
  induction requests generalizing table names with
  | nil =>
      rw [allocations, List.append_nil]
      exact records
  | cons request rest ih =>
      have later := ih (records.step request)
      rw [List.append_assoc] at later
      exact later

theorem find?_serve (found : table.find? name = some address) (request : Request) :
    (request.serve.act table).2.find? name = some address := by
  have changes := request.changes table
  generalize request.allocates? table = allocated, (request.serve.act table).2 = after at changes
  cases changes with
  | nothing => exact found
  | bound enters next => exact enters.keeps found
  | allocated enters next => exact enters.keeps found

theorem find?_stateAfter (found : table.find? name = some address) (requests : List Request) :
    (stateAfter Request.serve requests table).find? name = some address := by
  induction requests generalizing table with
  | nil => exact found
  | cons request rest ih => exact ih (find?_serve found request)

theorem nextVariable_serve (table : SymbolTable) (request : Request) :
    table.nextVariable ≤ (request.serve.act table).2.nextVariable := by
  have changes := request.changes table
  generalize request.allocates? table = allocated, (request.serve.act table).2 = after at changes
  cases changes with
  | nothing => exact Nat.le_refl _
  | bound enters next => exact Nat.le_of_eq next.symm
  | allocated enters next => exact Nat.le_of_lt (Nat.lt_of_lt_of_eq (Nat.lt_succ_self _) next.symm)

theorem nextVariable_stateAfter (table : SymbolTable) (requests : List Request) :
    table.nextVariable ≤ (stateAfter Request.serve requests table).nextVariable := by
  induction requests generalizing table with
  | nil => exact Nat.le_refl _
  | cons request rest ih => exact Nat.le_trans (nextVariable_serve table request) (ih _)

theorem SymbolTable.Records.nodup (records : table.Records names) : names.Nodup := by
  refine List.nodup_iff_injective_getElem.mpr fun one two same => Fin.ext ?_
  have first := records.cells one.val names[one] (List.getElem?_eq_getElem one.isLt)
  have second := records.cells two.val names[two] (List.getElem?_eq_getElem two.isLt)
  rw [show names[one] = names[two] from same, second] at first
  have cells := Option.some.inj first
  omega

theorem SymbolTable.Records.exhausted (records : table.Records names) (full : maxAddress < table.nextVariable) :
    table.Exhausted := by
  have last : table.nextVariable = 32768 := Nat.le_antisymm records.room full
  refine ⟨fun name line fresh => ?_, fun name line address found => act_resolve_of_find found line,
    fun name index line fresh within => ⟨table.enter name index, ?_, ?_⟩⟩
  · rw [act_resolve_of_none fresh, if_pos full, last]
  · rw [act_bindLabel_of_none fresh, if_neg (Nat.not_lt_of_le within)]
  · have found := (enters_enter fresh within table.allocated).find name
    rwa [if_pos rfl] at found

/-- Whatever a table has been asked, its names have the addresses that they got
first, its variables stand in the cells from the first free one on, and a
request that is refused has changed nothing. -/
theorem served_records (requests : List Request) :
    (served requests).Records (allocations requests .initial) ∧ (allocations requests .initial).Nodup ∧
      (∀ request : Request, request.serve.act (served requests) = settle (served requests) (request.ask (served requests))) ∧
      (∀ (request : Request) error, (request.serve.act (served requests)).1 = .error error →
        (request.serve.act (served requests)).2 = served requests) ∧
      (∀ name address, (served requests).find? name = some address → ∀ later,
        (served (requests ++ later)).find? name = some address ∧
          ∀ index line, (Request.bindLabel name index line).serve.act (served (requests ++ later)) =
            (.error ⟨.line line, .duplicateLabel name⟩, served (requests ++ later))) ∧
      (maxAddress < (served requests).nextVariable → ∀ later, (served (requests ++ later)).Exhausted) := by
  have records : ∀ requests, (served requests).Records (allocations requests .initial) :=
    fun requests => records_initial.run requests
  refine ⟨records requests, (records requests).nodup, fun request => request.serve_settles _,
    fun request error refused => ?_, fun name address found later => ?_, fun full later => ?_⟩
  · exact request.serve_settles.clean _ error _ (Prod.ext refused rfl)
  · have kept : (served (requests ++ later)).find? name = some address := by
      rw [served, stateAfter_append]
      exact find?_stateAfter found later
    exact ⟨kept, act_bindLabel_of_find kept⟩
  · refine (records (requests ++ later)).exhausted (Nat.lt_of_lt_of_le full ?_)
    rw [served, served, stateAfter_append]
    exact nextVariable_stateAfter _ later

/-- Different names without addresses take one cell each. -/
theorem nextVariable_resolves {unknown : List String} (distinct : unknown.Nodup)
    (fresh : ∀ name ∈ unknown, table.find? name = none)
    (room : table.nextVariable + unknown.length ≤ maxAddress + 1) (line : Nat) :
    (stateAfter Request.serve (unknown.map fun name => .resolve name line) table).nextVariable =
      table.nextVariable + unknown.length := by
  induction unknown generalizing table with
  | nil => rfl
  | cons name rest ih =>
      obtain ⟨new, distinct⟩ := List.nodup_cons.mp distinct
      obtain ⟨free, fresh⟩ := List.forall_mem_cons.mp fresh
      rw [List.length_cons] at room
      have within : table.nextVariable ≤ maxAddress := by omega
      have served := act_resolve_of_none free line
      rw [if_neg (Nat.not_lt_of_le within)] at served
      have enters := enters_enter free within (table.allocated.push name)
      have next : (SymbolTable.mk (table.addresses.insert name table.nextVariable)
          (table.allocated.push name)).nextVariable = table.nextVariable + 1 := by
        simp [nextVariable, Nat.add_assoc]
      rw [List.map_cons, stateAfter, outcomes_cons, served]
      refine (ih distinct (fun other member => ?_) ?_).trans ?_
      · have different : name ≠ other := by
          intro same
          exact new (same ▸ member)
        exact (enters.find other).trans ((if_neg different).trans (fresh other member))
      · exact (congrArg (· + rest.length) next).trans_le (by omega)
      · exact (congrArg (· + rest.length) next).trans (by rw [List.length_cons]; omega)

/-- So many names as there are cells. -/
def crowd : List String :=
  (List.range 32752).map fun number => "v" ++ toString number

theorem nodup_crowd : crowd.Nodup :=
  List.nodup_range.map fun _ _ same => toString_injective ((String.append_right_inj "v").mp same)

theorem fresh_crowd : ∀ name ∈ crowd, SymbolTable.initial.find? name = none := by
  intro name member
  obtain ⟨number, _, rfl⟩ := List.mem_map.mp member
  have capital : ∀ entry ∈ predefined, entry.1.toList.head? ≠ some 'v' := by decide
  rw [find?_initial, List.lookup_eq_none_iff]
  intro entry listed
  have different : "v" ++ toString number ≠ entry.1 := by
    intro same
    refine capital entry listed ?_
    rw [← same, String.toList_append]
    rfl
  simpa using different

/-- The cells can run out. -/
theorem served_records_crowd : (served (crowd.map fun name => .resolve name 1)).nextVariable = 32768 ∧
    ∀ later, (served (crowd.map (fun name => .resolve name 1) ++ later)).Exhausted := by
  have length : crowd.length = 32752 := by rw [crowd, List.length_map, List.length_range]
  have last : (served (crowd.map fun name => .resolve name 1)).nextVariable = 32768 := by
    refine (nextVariable_resolves nodup_crowd fresh_crowd ?_ 1).trans ?_
    · rw [length]
      decide
    · rw [length]
      rfl
  obtain ⟨_, _, _, _, _, exhausts⟩ := served_records (crowd.map fun name => .resolve name 1)
  exact ⟨last, exhausts (by rw [last]; decide)⟩

end Hack.Assembly
