import Web3Proxy.EndpointManager
import Web3Proxy.Lib.Trans

/-!
# Web3Proxy.EndpointManager.Atomicity

The three stores of the endpoint configuration under failures of the database.  `view` is
what they say of a name: the address of its pool, the address in its row, and whether the
administrator has statistics of it.

* `EndpointStore.consistent_iff_stored` — the stores stay in agreement, and each call
  changes all of them or none, exactly when the database does not fail where the pool has
  already been changed; `add_endpoint` undoes that change and the others do not.
-/

namespace Web3Proxy

open Py Trans

namespace EndpointStore

/-! ## what the stores say -/

/-- The address of a pool, the address in a row, and whether there are statistics. -/
abbrev View := Option String × Option String × Bool

/-- What the stores say of a name. -/
def view (s : EndpointStore) (name : String) : View :=
  ((s.pools.get? name).map fun e => e.connDescr.url,
    (s.rows.find? name).map fun r => r.2.config.url, s.endpointStats.contains name)

/-- All stores have the endpoint, with the same address. -/
def present (url : String) : View := (some url, some url, true)

/-- No store has the endpoint. -/
def absent : View := (none, none, false)

/-- The stores agree on every name, and pools are filed under the names of their
endpoints. -/
structure Consistent (s : EndpointStore) : Prop where
  named : ∀ {name e}, s.pools.get? name = some e → e.name = name
  agree : ∀ name, s.view name = absent ∨ ∃ url, s.view name = present url

/-- What a call that succeeds has done. -/
def Applied (s t : EndpointStore) : Call → Prop
  | .addEndpoint name url _ =>
      s.view name = absent ∧ t.view = Function.update s.view name (present url)
  | .removeEndpoint name _ =>
      s.view name ≠ absent ∧ t.view = Function.update s.view name absent
  | .updateEndpoint name url _ _ =>
      s.view name ≠ absent ∧ t.view = Function.update s.view name (present url)

variable (env : EndpointEnv)

/-- A call that succeeds changes all stores, and any other call none. -/
def Atomic (s : EndpointStore) (c : Call) : Prop :=
  match s.call env c with
  | .ok (.message _) t => Applied s t c
  | r => r.state.view = s.view

/-- The address is accepted by `from_url`. -/
def Accepts (url : String) : Prop :=
  ∃ parsed d, env.parseUrl url = some parsed ∧
    EndpointConnectionDescriptor.fromParsed parsed url = some d

/-- The database does not fail when a pool has been removed, or given another address. -/
def Stored (s : EndpointStore) : Call → Prop
  | .addEndpoint _ _ _ => True
  | .removeEndpoint name delete =>
      env.ethEndpointsStore = true → (s.view name).1.isSome = true → delete = none
  | .updateEndpoint name url get save =>
      env.ethEndpointsStore = true → Accepts env url →
        (s.view name).1.isSome = true → (s.view name).1 ≠ some url → get = none ∧ save = none

/-- One call. -/
def step (s : EndpointStore) (c : Call) : Option EndpointStore := some (s.call env c).state

/-! ## the parts of a call -/

section Calls

variable {env} {s t : EndpointStore} {name url : String}

theorem url_of_fromParsed {parsed : ParsedUrl} {d : EndpointConnectionDescriptor}
    (h : EndpointConnectionDescriptor.fromParsed parsed url = some d) : d.url = url := by
  unfold EndpointConnectionDescriptor.fromParsed at h
  split at h <;> cases h <;> rfl

/-- What `from_url` does: it raises, refuses the address, or accepts it. -/
theorem fromUrl_cases (env : EndpointEnv) (s : EndpointStore) (url : String) :
    (¬ Accepts env url ∧ (s.fromUrl env url = .raise .exception s ∨
      s.fromUrl env url = .ok none s)) ∨
      ∃ d, Accepts env url ∧ d.url = url ∧ s.fromUrl env url = .ok (some d) s := by
  unfold fromUrl Accepts
  cases hparse : env.parseUrl url with
  | none => simp
  | some parsed =>
      cases hd : EndpointConnectionDescriptor.fromParsed parsed url with
      | none => simp [hd]
      | some d => exact Or.inr ⟨d, ⟨parsed, d, rfl, hd⟩, url_of_fromParsed hd, by simp [hd]⟩

/-- A store that agrees on the names of the new view. -/
theorem Consistent.update (h : s.Consistent) {v : View}
    (hnamed : ∀ {j e}, t.pools.get? j = some e → e.name = j)
    (hv : v = absent ∨ ∃ url, v = present url)
    (hview : t.view = Function.update s.view name v) : t.Consistent where
  named := hnamed
  agree := by
    intro j
    rw [hview]
    by_cases hj : j = name
    · subst hj
      simpa using hv
    · rw [Function.update_of_ne hj]
      exact h.agree j

/-- A store that has the same of every name. -/
theorem Consistent.of_view (h : s.Consistent)
    (hnamed : ∀ {j e}, t.pools.get? j = some e → e.name = j) (hview : t.view = s.view) :
    t.Consistent where
  named := hnamed
  agree := by
    rw [hview]
    exact h.agree

/-- A store that differs in what it has of one name. -/
theorem view_update {e : Option RPCEndpoint} {r : Option (Nat × EndpointRow)} {b : Bool}
    (hpools : ∀ j, t.pools.get? j = if j = name then e else s.pools.get? j)
    (hrows : ∀ j, t.rows.find? j = if j = name then r else s.rows.find? j)
    (hstats : ∀ j, t.endpointStats.contains j =
      if j = name then b else s.endpointStats.contains j) :
    t.view = Function.update s.view name
      (e.map fun e => e.connDescr.url, r.map fun r => r.2.config.url, b) := by
  funext j
  simp only [view, hpools, hrows, hstats, Function.update_apply]
  by_cases hj : j = name <;> simp only [hj, if_true, if_false]

/-- What consistent stores say of a name, store by store. -/
theorem Consistent.cases (h : s.Consistent) (name : String) :
    (s.view name = absent ∧ s.pools.get? name = none ∧ s.rows.find? name = none ∧
      s.endpointStats.contains name = false) ∨
    ∃ e i row, s.view name = present e.connDescr.url ∧ s.pools.get? name = some e ∧
      s.rows.find? name = some (i, row) ∧ s.endpointStats.contains name = true := by
  obtain hview | ⟨u, hview⟩ := h.agree name
  · left
    have hparts := hview
    simp only [view, absent, Prod.mk.injEq, Option.map_eq_none_iff] at hparts
    exact ⟨hview, hparts⟩
  · right
    have hparts := hview
    simp only [view, present, Prod.mk.injEq, Option.map_eq_some_iff] at hparts
    obtain ⟨⟨e, he, rfl⟩, ⟨⟨i, row⟩, hrow, -⟩, hstats⟩ := hparts
    exact ⟨e, i, row, hview, he, hrow, hstats⟩

/-- The call goes well: the stores agree after it, and it has changed all or none. -/
def Fair (env : EndpointEnv) (s : EndpointStore) (c : Call) : Prop :=
  (s.call env c).state.Consistent ∧ Atomic env s c

theorem fair_of_error {c : Call} (text : String) (hcall : s.call env c = .ok (.error text) t)
    (ht : t.Consistent) (hview : t.view = s.view) : Fair env s c := by
  unfold Fair Atomic
  rw [hcall]
  exact ⟨ht, hview⟩

theorem fair_of_raise {c : Call} {e : PyError} (hcall : s.call env c = .raise e s)
    (hs : s.Consistent) : Fair env s c := by
  unfold Fair Atomic
  rw [hcall]
  exact ⟨hs, rfl⟩

theorem fair_of_message {c : Call} (text : String) (hcall : s.call env c = .ok (.message text) t)
    (ht : t.Consistent) (happlied : Applied s t c) : Fair env s c := by
  unfold Fair Atomic
  rw [hcall]
  exact ⟨ht, happlied⟩

/-- A call of the endpoint manager that succeeds, with what becomes of the statistics. -/
theorem finish_ok {res : Result EndpointStore (Except String RPCEndpoint)}
    {stats : RPCEndpoint → EndpointStore → Result EndpointStore Unit} {message : String}
    {e : RPCEndpoint} {t' : EndpointStore} (hres : res = .ok (.ok e) t)
    (hstats : stats e t = .ok () t') : finish res stats message = .ok (.message message) t' := by
  simp only [finish, hres, Result.bind_ok, hstats]
  rfl

/-! ## pools -/

theorem contains_eq_false {κ α : Type} [DecidableEq κ] {d : Dict κ α} {k : κ}
    (h : d.get? k = none) : d.contains k = false := by
  rw [Dict.contains, h]
  rfl

/-- The store with a new pool. -/
def withPool (s : EndpointStore) (name : String) (d : EndpointConnectionDescriptor) :
    EndpointStore :=
  { s with
    pools := s.pools.set name { name, connDescr := d, connStats := s.created }
    created := s.created + 1 }

/-- The store without a pool. -/
def withoutPool (s : EndpointStore) (name : String) : EndpointStore :=
  { s with pools := s.pools.erase name }

theorem addPool_of_none (d : EndpointConnectionDescriptor) (h : s.pools.get? name = none) :
    s.addPool name d = .ok ({ name, connDescr := d, connStats := s.created },
      s.withPool name d) := by
  rw [addPool, contains_eq_false h]
  rfl

theorem addPool_of_some {e : RPCEndpoint} (d : EndpointConnectionDescriptor)
    (h : s.pools.get? name = some e) : s.addPool name d = .error (noPoolFound name) := by
  rw [addPool, Dict.contains, h]
  rfl

theorem removePool_of_none (h : s.pools.get? name = none) :
    s.removePool name = .error (noPoolFound name) := by
  rw [removePool, h]

theorem removePool_of_some {e : RPCEndpoint} (h : s.pools.get? name = some e) :
    s.removePool name = .ok (e, s.withoutPool name) := by
  rw [removePool, h]
  rfl

@[simp] theorem get?_withPool (s : EndpointStore) (name j : String)
    (d : EndpointConnectionDescriptor) : (s.withPool name d).pools.get? j =
      if j = name then some { name, connDescr := d, connStats := s.created }
      else s.pools.get? j :=
  Dict.get?_set j

@[simp] theorem get?_withoutPool (s : EndpointStore) (name j : String) :
    (s.withoutPool name).pools.get? j = if j = name then none else s.pools.get? j :=
  Dict.get?_erase j

@[simp] theorem rows_withPool (s : EndpointStore) (name : String)
    (d : EndpointConnectionDescriptor) : (s.withPool name d).rows = s.rows := rfl

@[simp] theorem stats_withPool (s : EndpointStore) (name : String)
    (d : EndpointConnectionDescriptor) :
    (s.withPool name d).endpointStats = s.endpointStats := rfl

@[simp] theorem rows_withoutPool (s : EndpointStore) (name : String) :
    (s.withoutPool name).rows = s.rows := rfl

@[simp] theorem stats_withoutPool (s : EndpointStore) (name : String) :
    (s.withoutPool name).endpointStats = s.endpointStats := rfl

theorem contains_set (d : Dict String Nat) (k j : String) (v : Nat) :
    (d.set k v).contains j = if j = k then true else d.contains j := by
  rw [Dict.contains, Dict.get?_set]
  by_cases hj : j = k <;> simp [hj, Dict.contains]

theorem contains_erase (d : Dict String Nat) (k j : String) :
    (d.erase k).contains j = if j = k then false else d.contains j := by
  rw [Dict.contains, Dict.get?_erase]
  by_cases hj : j = k <;> simp [hj, Dict.contains]

/-! ## add_endpoint -/

/-- The database fails after the pool has been added: the pool is removed again. -/
theorem addEndpoint_failed (h : s.Consistent) (hstore : env.ethEndpointsStore = true)
    {d : EndpointConnectionDescriptor} (hurl : s.fromUrl env url = .ok (some d) s)
    (hpool : s.pools.get? name = none) (text : String) :
    Fair env s (.addEndpoint name url (some text)) := by
  have hadd := addPool_of_none d hpool
  have hget : (s.withPool name d).pools.get? name =
      some { name, connDescr := d, connStats := s.created } := by simp
  have hback : ∀ j, ((s.withPool name d).withoutPool name).pools.get? j = s.pools.get? j := by
    intro j
    by_cases hj : j = name <;> simp [hj, hpool]
  have hview : ((s.withPool name d).withoutPool name).view = s.view := by
    funext j
    simp only [view, hback, rows_withoutPool, rows_withPool, stats_withoutPool, stats_withPool]
  have hcall : s.call env (.addEndpoint name url (some text)) =
      .ok (.error text) ((s.withPool name d).withoutPool name) := by
    simp only [call, addEndpoint, hstore, hurl, Result.bind_ok, hadd, attempt,
      removePool_of_some hget, finish]
    rfl
  exact fair_of_error text hcall (h.of_view (fun he => h.named (hback _ ▸ he)) hview) hview

/-- A new name gets a pool, a row and statistics. -/
theorem addEndpoint_ok (h : s.Consistent) (hstore : env.ethEndpointsStore = true)
    {d : EndpointConnectionDescriptor} (hd : d.url = url)
    (hurl : s.fromUrl env url = .ok (some d) s) (habsent : s.view name = absent)
    (hpool : s.pools.get? name = none) (hrow : s.rows.find? name = none)
    (hstats : s.endpointStats.contains name = false) :
    Fair env s (.addEndpoint name url none) := by
  obtain ⟨i, rows, hinsert, -, -, hfind⟩ :=
    Table.insert_spec (t := s.rows) (r := ⟨name, ⟨name, url⟩⟩) hrow
  have hcreate : (s.withPool name d).createRow name ⟨name, url⟩ =
      .ok { s.withPool name d with rows } := by
    rw [createRow, rows_withPool, hinsert]
  have hpools := get?_withPool s name (d := d)
  have hview := view_update (t := { s.withPool name d with
    rows, endpointStats := s.endpointStats.set name s.created }) hpools hfind
    (contains_set s.endpointStats name (v := s.created))
  simp only [Option.map_some, hd] at hview
  have hmanager : s.addEndpoint env name url none =
      .ok (.ok { name, connDescr := d, connStats := s.created })
        { s.withPool name d with rows } := by
    simp only [addEndpoint, hstore, hurl, Result.bind_ok, addPool_of_none d hpool, attempt,
      hcreate]
    rfl
  refine fair_of_message _ (finish_ok hmanager (if_neg ?_)) ?_ ⟨habsent, hview⟩
  · simp [hstats]
  · refine h.update (fun {j e} he => ?_) (Or.inr ⟨url, rfl⟩) hview
    rw [hpools] at he
    split at he
    next hj =>
      cases he
      exact hj.symm
    next => exact h.named he

theorem fair_addEndpoint (h : s.Consistent) (create : Option String) :
    Fair env s (.addEndpoint name url create) := by
  by_cases hstore : env.ethEndpointsStore = true
  swap
  · refine fair_of_error "the endpoint cannot be stored" (t := s) ?_ h rfl
    simp only [call, addEndpoint, hstore, finish]
    rfl
  obtain ⟨-, hurl | hurl⟩ | ⟨d, -, hd, hurl⟩ := fromUrl_cases env s url
  · refine fair_of_raise (e := .exception) ?_ h
    simp [call, addEndpoint, hstore, hurl, finish]
  · refine fair_of_error "Invalid URL provided" (t := s) ?_ h rfl
    simp only [call, addEndpoint, hstore, hurl, finish]
    rfl
  obtain ⟨habsent, hpool, hrow, hstats⟩ | ⟨e, i, row, hpresent, hpool, hrow, hstats⟩ :=
    h.cases name
  swap
  · refine fair_of_error (noPoolFound name) (t := s) ?_ h rfl
    simp only [call, addEndpoint, hstore, hurl, Result.bind_ok, addPool_of_some d hpool, finish]
    rfl
  cases create with
  | some text => exact addEndpoint_failed h hstore hurl hpool text
  | none => exact addEndpoint_ok h hstore hd hurl habsent hpool hrow hstats

/-! ## remove_endpoint -/

/-- The database fails after the pool has been removed. -/
theorem removeEndpoint_failed (hstore : env.ethEndpointsStore = true) {e : RPCEndpoint}
    (hpool : s.pools.get? name = some e) (text : String) :
    s.call env (.removeEndpoint name (some text)) =
      .ok (.error ("(db inconsistent): " ++ text)) (s.withoutPool name) := by
  simp only [call, removeEndpoint, hstore, removePool_of_some hpool, attempt, finish]
  rfl

theorem fair_removeEndpoint (h : s.Consistent) {delete : Option String}
    (hstored : s.Stored env (.removeEndpoint name delete)) :
    Fair env s (.removeEndpoint name delete) := by
  by_cases hstore : env.ethEndpointsStore = true
  swap
  · refine fair_of_error "the endpoint cannot be stored" (t := s) ?_ h rfl
    simp only [call, removeEndpoint, hstore, finish]
    rfl
  obtain ⟨habsent, hpool, hrow, hstats⟩ | ⟨e, i, row, hpresent, hpool, hrow, hstats⟩ :=
    h.cases name
  · refine fair_of_error (noPoolFound name) (t := s) ?_ h rfl
    simp only [call, removeEndpoint, hstore, removePool_of_none hpool, finish]
    rfl
  obtain rfl := hstored hstore (by rw [hpresent]; rfl)
  have hname := h.named hpool
  have hpools := get?_withoutPool s name
  have hview := view_update (t := { (s.withoutPool name).deleteRow name with
    endpointStats := s.endpointStats.erase name }) hpools (Table.find?_delete name)
    (contains_erase s.endpointStats name)
  have hmanager : s.removeEndpoint env name none =
      .ok (.ok e) ((s.withoutPool name).deleteRow name) := by
    simp only [removeEndpoint, hstore, removePool_of_some hpool, attempt]
    rfl
  have hstats' : ((s.withoutPool name).deleteRow name).removeEndpointStats e.name =
      .ok () { (s.withoutPool name).deleteRow name with
        endpointStats := s.endpointStats.erase name } := by
    rw [hname]
    exact if_pos hstats
  have hne : s.view name ≠ absent := by simp [hpresent, present, absent]
  refine fair_of_message _ (finish_ok hmanager hstats') ?_ ⟨hne, hview⟩
  · refine h.update (fun {j e'} he => ?_) (Or.inl rfl) hview
    have hold := (hpools j).symm.trans he
    split at hold
    · cases hold
    · exact h.named hold

/-! ## update_endpoint -/

theorem addPool_withoutPool (s : EndpointStore) (name : String)
    (d : EndpointConnectionDescriptor) : (s.withoutPool name).addPool name d =
      .ok ({ name, connDescr := d, connStats := s.created },
        (s.withoutPool name).withPool name d) :=
  addPool_of_none d (by rw [get?_withoutPool, if_pos rfl])

/-- The store with another pool in the place of one. -/
def replacePool (s : EndpointStore) (name : String) (d : EndpointConnectionDescriptor) :
    EndpointStore :=
  (s.withoutPool name).withPool name d

theorem get?_replacePool (s : EndpointStore) (name j : String)
    (d : EndpointConnectionDescriptor) : (s.replacePool name d).pools.get? j =
      if j = name then some { name, connDescr := d, connStats := s.created }
      else s.pools.get? j := by
  unfold replacePool
  rw [get?_withPool, get?_withoutPool]
  by_cases hj : j = name <;> simp [hj, withoutPool]

/-- Only the address of the pool is another one. -/
theorem view_replacePool (s : EndpointStore) (name j : String)
    (d : EndpointConnectionDescriptor) : (s.replacePool name d).view j =
      if j = name then (some d.url, (s.view j).2) else s.view j := by
  simp only [view, get?_replacePool]
  by_cases hj : j = name
  · simp only [hj, if_true]
    rfl
  · simp only [hj, if_false]
    rfl

theorem named_replacePool (h : s.Consistent) (d : EndpointConnectionDescriptor)
    {t : EndpointStore} (ht : t.pools = (s.replacePool name d).pools) {j : String}
    {e : RPCEndpoint} (he : t.pools.get? j = some e) : e.name = j := by
  rw [ht, get?_replacePool] at he
  split at he
  next hj =>
    cases he
    exact hj.symm
  next => exact h.named he

/-- What the failure of one of two calls amounts to. -/
theorem updateEndpoint_failed (hstore : env.ethEndpointsStore = true)
    {d : EndpointConnectionDescriptor} (hurl : s.fromUrl env url = .ok (some d) s)
    {e : RPCEndpoint} (hpool : s.pools.get? name = some e) {i : Nat} {row : EndpointRow}
    (hrow : s.rows.find? name = some (i, row)) {get save : Option String}
    (hfails : ¬ (get = none ∧ save = none)) :
    ∃ text, s.call env (.updateEndpoint name url get save) =
      .ok (.error text) (s.replacePool name d) := by
  have hadd := addPool_withoutPool s name d
  cases get with
  | some text =>
      refine ⟨"(db inconsistent): " ++ text, ?_⟩
      simp only [call, updateEndpoint, hstore, hurl, Result.bind_ok, removePool_of_some hpool,
        hadd, attempt, finish]
      rfl
  | none =>
      cases save with
      | none => exact absurd ⟨rfl, rfl⟩ hfails
      | some text =>
          refine ⟨"(db inconsistent): " ++ text, ?_⟩
          simp only [call, updateEndpoint, hstore, hurl, Result.bind_ok,
            removePool_of_some hpool, hadd, attempt, rows_withPool, rows_withoutPool, hrow, finish]
          rfl

/-- The pool, the row and the statistics of a name are replaced. -/
theorem updateEndpoint_ok (h : s.Consistent) (hstore : env.ethEndpointsStore = true)
    {d : EndpointConnectionDescriptor} (hd : d.url = url)
    (hurl : s.fromUrl env url = .ok (some d) s) {e : RPCEndpoint}
    (hpresent : s.view name = present e.connDescr.url) (hpool : s.pools.get? name = some e)
    {i : Nat} {row : EndpointRow} (hrow : s.rows.find? name = some (i, row)) :
    Fair env s (.updateEndpoint name url none none) := by
  obtain ⟨hrowi, hrowname⟩ := Table.find?_eq_some.mp hrow
  obtain ⟨rows, hupdate, -, hfind⟩ :=
    Table.update_spec (r := ⟨row.name, ⟨name, url⟩⟩) hrowi rfl
  have hsave : (s.replacePool name d).saveRow row.name i ⟨name, url⟩ =
      .ok { s.replacePool name d with rows } := by
    simp only [saveRow, replacePool, rows_withPool, rows_withoutPool, hupdate]
  have hpools := get?_replacePool s name (d := d)
  have hview := view_update (t := { s.replacePool name d with
    rows, endpointStats := s.endpointStats.set name s.created }) hpools
    (fun j => by rw [hfind, hrowname]) (contains_set s.endpointStats name (v := s.created))
  simp only [Option.map_some, hd] at hview
  have hmanager : s.updateEndpoint env name url none none =
      .ok (.ok { name, connDescr := d, connStats := s.created })
        { s.replacePool name d with rows } := by
    unfold replacePool at hsave
    simp only [updateEndpoint, hstore, hurl, Result.bind_ok, removePool_of_some hpool,
      addPool_withoutPool, attempt, rows_withPool, rows_withoutPool, hrow, hsave]
    rfl
  have hne : s.view name ≠ absent := by simp [hpresent, present, absent]
  refine fair_of_message _ (finish_ok hmanager rfl) ?_ ⟨hne, hview⟩
  exact h.update (fun he => named_replacePool h d rfl he) (Or.inr ⟨url, rfl⟩) hview

theorem fair_updateEndpoint (h : s.Consistent) {get save : Option String}
    (hstored : s.Stored env (.updateEndpoint name url get save)) :
    Fair env s (.updateEndpoint name url get save) := by
  by_cases hstore : env.ethEndpointsStore = true
  swap
  · refine fair_of_error "the endpoint cannot be stored" (t := s) ?_ h rfl
    simp only [call, updateEndpoint, hstore, finish]
    rfl
  obtain ⟨-, hurl | hurl⟩ | ⟨d, haccepts, hd, hurl⟩ := fromUrl_cases env s url
  · refine fair_of_raise (e := .exception) ?_ h
    simp [call, updateEndpoint, hstore, hurl, finish]
  · refine fair_of_error "Invalid URL provided" (t := s) ?_ h rfl
    simp only [call, updateEndpoint, hstore, hurl, finish]
    rfl
  obtain ⟨habsent, hpool, hrow, hstats⟩ | ⟨e, i, row, hpresent, hpool, hrow, hstats⟩ :=
    h.cases name
  · refine fair_of_error (noPoolFound name) (t := s) ?_ h rfl
    simp only [call, updateEndpoint, hstore, hurl, Result.bind_ok, removePool_of_none hpool, finish]
    rfl
  by_cases hfails : get = none ∧ save = none
  · obtain ⟨rfl, rfl⟩ := hfails
    exact updateEndpoint_ok h hstore hd hurl hpresent hpool hrow
  · -- the row is as before, and so is the address
    obtain ⟨text, hcall⟩ := updateEndpoint_failed hstore hurl hpool hrow hfails
    have hsame : e.connDescr.url = url := by
      by_contra hne
      refine hfails (hstored hstore haccepts ?_ ?_)
      · rw [hpresent]
        rfl
      · rw [hpresent]
        exact fun heq => hne (Option.some.inj heq)
    have hview : (s.replacePool name d).view = s.view := by
      funext j
      rw [view_replacePool]
      split
      next hj =>
        subst hj
        rw [hpresent, hd, hsame]
        rfl
      next => rfl
    exact fair_of_error text hcall (h.of_view (fun he => named_replacePool h d rfl he) hview) hview

/-! ## results -/

theorem fair_of_stored (h : s.Consistent) {c : Call} (hstored : s.Stored env c) :
    Fair env s c := by
  cases c with
  | addEndpoint name url create => exact fair_addEndpoint h create
  | removeEndpoint name delete => exact fair_removeEndpoint h hstored
  | updateEndpoint name url get save => exact fair_updateEndpoint h hstored

/-- A call that fails too late leaves the stores in disagreement. -/
theorem not_consistent_of_not_stored (h : s.Consistent) {c : Call}
    (hstored : ¬ s.Stored env c) : ¬ (s.call env c).state.Consistent := by
  intro ht
  cases c with
  | addEndpoint name url create => exact hstored trivial
  | removeEndpoint name delete =>
      simp only [Stored, Classical.not_imp] at hstored
      obtain ⟨hstore, hsome, hfails⟩ := hstored
      obtain ⟨text, rfl⟩ := Option.ne_none_iff_exists'.mp hfails
      obtain ⟨habsent, -⟩ | ⟨e, i, row, hpresent, hpool, hrow, hstats⟩ := h.cases name
      · simp [habsent, absent] at hsome
      · rw [removeEndpoint_failed hstore hpool] at ht
        have hagree := ht.agree name
        simp [view, hstats, absent, present] at hagree
  | updateEndpoint name url get save =>
      simp only [Stored, Classical.not_imp] at hstored
      obtain ⟨hstore, haccepts, hsome, hne, hfails⟩ := hstored
      obtain ⟨hrefused, -⟩ | ⟨d, -, hd, hurl⟩ := fromUrl_cases env s url
      · exact hrefused haccepts
      obtain ⟨habsent, -⟩ | ⟨e, i, row, hpresent, hpool, hrow, hstats⟩ := h.cases name
      · simp [habsent, absent] at hsome
      · obtain ⟨text, hcall⟩ := updateEndpoint_failed hstore hurl hpool hrow hfails
        rw [hcall] at ht
        have hview := view_replacePool s name name d
        rw [if_pos rfl, hpresent, hd] at hview
        obtain hnone | ⟨u, hu⟩ := ht.agree name
        · rw [Result.state, hview] at hnone
          cases hnone
        · rw [Result.state, hview] at hu
          simp only [present, Prod.mk.injEq] at hu
          rw [hpresent] at hne
          exact hne (hu.2.1.trans hu.1.symm)


end Calls

/-- **Agreement**: from consistent stores, the stores stay consistent and each call changes
all of them or none, exactly in the runs in which the database does not fail too late. -/
theorem consistent_iff_stored (env : EndpointEnv) {s : EndpointStore} (hs : s.Consistent)
    (cs : List Call) :
    Always (step env) Consistent s cs ∧ Guarded (step env) (Atomic env) s cs ↔
      Guarded (step env) (Stored env) s cs := by
  have hgood : ∀ s c s', Consistent s → Stored env s c → step env s c = some s' →
      Consistent s' := fun s c s' h hstored hstep =>
    Option.some.inj hstep ▸ (fair_of_stored h hstored).1
  have hiff := always_iff_guarded (step env) (fun _ h => h) hgood
    (fun s c s' h hstored hstep => Option.some.inj hstep ▸
      not_consistent_of_not_stored h hstored) cs hs
  constructor
  · exact fun ⟨hconsistent, _⟩ => hiff.mp hconsistent
  · intro hstored
    exact ⟨hiff.mpr hstored, hstored.imp (step env) hgood
      (fun _ _ _ h hstored _ => (fair_of_stored h hstored).2) hs⟩

theorem consistent_empty : Consistent {} where
  named := fun he => by cases he
  agree := fun name => Or.inl rfl

/-- A parser that finds a host in every address. -/
def anyHost : EndpointEnv where
  ethEndpointsStore := true
  parseUrl := fun url =>
    some { scheme := some "https", host := some url, port := none, path := none }

/-- An endpoint is added, and another one cannot be stored. -/
def addedOne : List Call :=
  [.addEndpoint "a" "https://a" none, .addEndpoint "b" "https://b" (some "disk I/O error")]

theorem consistent_iff_stored_addedOne :
    Always (step anyHost) Consistent {} addedOne ∧
      Guarded (step anyHost) (Atomic anyHost) {} addedOne :=
  (consistent_iff_stored anyHost consistent_empty addedOne).mpr
    (guarded_of_forall _ (by simp [addedOne, Stored]) _)

/-- An endpoint is removed while the database is locked: its row stays. -/
theorem not_always_consistent : ¬ ∀ (env : EndpointEnv) (s : EndpointStore), s.Consistent →
    ∀ cs, Always (step env) Consistent s cs ∧ Guarded (step env) (Atomic env) s cs := by
  intro h
  have hall := (h anyHost {} consistent_empty
    [.addEndpoint "a" "https://a" none, .removeEndpoint "a" (some "database is locked")]).1
  have hend := (hall.2 _ rfl).2 _ rfl
  have hrow : ((({} : EndpointStore).call anyHost (.addEndpoint "a" "https://a" none)).state.call
      anyHost (.removeEndpoint "a" (some "database is locked"))).state.view "a" =
      (none, some "https://a", true) := by decide
  obtain hview | ⟨u, hview⟩ := hend.agree "a"
  · rw [hrow] at hview
    cases hview
  · rw [hrow] at hview
    cases hview

end EndpointStore

end Web3Proxy
