import Web3Proxy.EndpointManager.Atomicity
import Web3Proxy.Lib.Json.Dumps

/-!
# Web3Proxy.EndpointManager.Restart

The configuration of the endpoints across restarts of the service.  A row holds its
configuration as the text that `json.dumps` makes of it; a service that starts reads the
rows again (`create_default_web3_rpc_proxy`), makes a pool of each
(`create_default_connection_pool`, `EndpointConnectionPoolManager`) and shows them to the
administrator (`create_endpoint_manager`).

* `EndpointStore.start_of_run` — a service starts after any history of calls, whatever has
  failed in it, with exactly the endpoints that have a row, and its three stores agree;
* `EndpointStore.answers_restart` — where the database has not failed too late, nobody can
  tell from the answers that the service has been restarted.
-/

namespace Web3Proxy

open Py Trans

/-- `json.dumps({"name": name, "url": url})`. -/
def EndpointConf.text (conf : EndpointConf) : String :=
  Json.dumps (.obj [(PyStr.ofString "name", .str (PyStr.ofString conf.name)),
    (PyStr.ofString "url", .str (PyStr.ofString conf.url))])

/-- `entrypoint[key]`. -/
def entryItem (entrypoint : Json) (key : String) : Except PyError Json :=
  match entrypoint with
  | .obj members =>
      match Json.get? members key with
      | some value => .ok value
      | none => .error .keyError
  | _ => .error .typeError

namespace EndpointStore

/-! ## the start of the service -/

section Start

variable (env : EndpointEnv)

/-- The pair that `create_default_connection_pool` makes of an entry.  Names and addresses
are taken to be strings. -/
def descriptorPair (entrypoint : Json) :
    Except PyError (String × Option EndpointConnectionDescriptor) := do
  let name ← entryItem entrypoint "name"
  let url ← entryItem entrypoint "url"
  match name, url with
  | .str name, .str url =>
      match env.parseUrl url.asString with
      | some parsed =>
          return (name.asString, EndpointConnectionDescriptor.fromParsed parsed url.asString)
      | none => throw .exception
  | _, _ => throw .typeError

/-- The loop of `EndpointConnectionPoolManager.__init__`. -/
def addPools (descriptors : List (String × Option EndpointConnectionDescriptor))
    (s : EndpointStore) : Result EndpointStore Unit :=
  forEach (fun (name, connDescr) s =>
    match connDescr with
    | none => .raise .assertionError s
    | some connDescr =>
        match s.addPool name connDescr with
        | .ok (_, s) => .ok () s
        | .error _ => .raise .exception s) descriptors s

/-- `create_default_connection_pool(endpoint_config, loadbalancer_class)`. -/
def createDefaultConnectionPool (endpointConfig : List Json) (s : EndpointStore) :
    Result EndpointStore Unit :=
  match endpointConfig.mapM (descriptorPair env) with
  | .ok descriptors => addPools descriptors s
  | .error e => .raise e s

/-- `register_endpoints(endpoint_pool_manager.endpoints)`. -/
def registerEndpoints (s : EndpointStore) : Result EndpointStore Unit :=
  forEach (fun e s => s.registerEndpointStats e.name e.connStats)
    (s.pools.items.map Prod.snd) s

variable (floatText : String → String)

/-- The stored configurations, decoded. -/
def storedConfig (s : EndpointStore) : Except PyError (List Json) :=
  s.rows.rows.items.mapM fun (_, row) =>
    match Json.loads floatText row.config.text with
    | some config => .ok config
    | none => .error .valueError

/-- `create_default_web3_rpc_proxy`, in a process that begins with what is in the database;
`config` is `Config.ETH_ENDPOINTS`. -/
def start (config : List Json) (s : EndpointStore) : Result EndpointStore Unit :=
  let s : EndpointStore := { rows := s.rows, created := s.created }
  match if env.ethEndpointsStore then s.storedConfig floatText else .ok config with
  | .ok ethEndpoints =>
      (createDefaultConnectionPool env ethEndpoints s).bind fun _ s => s.registerEndpoints
  | .error e => .raise e s

end Start

/-! ## what is stored -/

/-- The descriptor of an address, if it is accepted. -/
def descriptor (env : EndpointEnv) (url : String) : Option EndpointConnectionDescriptor :=
  (env.parseUrl url).bind fun parsed => EndpointConnectionDescriptor.fromParsed parsed url

/-- Pools have the descriptors of their addresses, and rows have addresses that are
accepted. -/
structure Sound (env : EndpointEnv) (s : EndpointStore) : Prop where
  pool : ∀ {name e}, s.pools.get? name = some e →
    e.name = name ∧ descriptor env e.connDescr.url = some e.connDescr
  row : ∀ {name i row}, s.rows.find? name = some (i, row) →
    row.config.name = name ∧ (descriptor env row.config.url).isSome = true

variable {env : EndpointEnv} {floatText : String → String} {config : List Json}
  {s t : EndpointStore} {name url : String}

theorem storable_config (conf : EndpointConf) :
    Json.Storable floatText (.obj [(PyStr.ofString "name", .str (PyStr.ofString conf.name)),
      (PyStr.ofString "url", .str (PyStr.ofString conf.url))]) := by
  refine .obj ?_ ?_ ?_
  · simpa using fun h => absurd (PyStr.ofString_injective h) (by decide)
  · rintro m hm
    simp only [List.mem_cons, List.not_mem_nil, or_false] at hm
    obtain rfl | rfl := hm <;> exact Json.unpaired_ofString _
  · rintro m hm
    simp only [List.mem_cons, List.not_mem_nil, or_false] at hm
    obtain rfl | rfl := hm <;> exact .str (Json.unpaired_ofString _)

/-- What a row says of its endpoint is what was stored. -/
theorem descriptorPair_text (conf : EndpointConf) {d : EndpointConnectionDescriptor}
    (hd : descriptor env conf.url = some d) :
    ∃ entry, Json.loads floatText conf.text = some entry ∧
      descriptorPair env entry = .ok (conf.name, some d) := by
  refine ⟨_, Json.loads_dumps (storable_config conf), ?_⟩
  obtain ⟨parsed, hparsed, hd⟩ := Option.bind_eq_some_iff.mp hd
  have hname : Json.get? [(PyStr.ofString "name", .str (PyStr.ofString conf.name)),
      (PyStr.ofString "url", .str (PyStr.ofString conf.url))] "name" =
      some (.str (PyStr.ofString conf.name)) := by simp [Json.get?]
  have hurl : Json.get? [(PyStr.ofString "name", .str (PyStr.ofString conf.name)),
      (PyStr.ofString "url", .str (PyStr.ofString conf.url))] "url" =
      some (.str (PyStr.ofString conf.url)) := by
    have hne : (PyStr.ofString "url" == PyStr.ofString "name") = false := by decide
    simp [Json.get?, List.lookup_cons, hne]
  simp only [descriptorPair, entryItem, hname, hurl]
  show (match env.parseUrl (PyStr.asString (PyStr.ofString conf.url)) with
    | some parsed => _ | none => _) = _
  simp only [PyStr.asString_ofString, hparsed, hd]
  rfl

/-! ## what a start makes of it -/

theorem mapM_ok {α β ε : Type} {f : α → Except ε β} {g : α → β} {xs : List α}
    (h : ∀ x ∈ xs, f x = .ok (g x)) : xs.mapM f = .ok (xs.map g) := by
  induction xs with
  | nil => rfl
  | cons x xs ih =>
      rw [List.mapM_cons, h x List.mem_cons_self, ih fun y hy => h y (List.mem_cons_of_mem x hy)]
      rfl

theorem url_of_descriptor {d : EndpointConnectionDescriptor} (h : descriptor env url = some d) :
    d.url = url := by
  obtain ⟨parsed, -, hd⟩ := Option.bind_eq_some_iff.mp h
  exact url_of_fromParsed hd

/-- A stored row is found under its name. -/
theorem find?_of_mem {i : Nat} {row : EndpointRow} (h : (i, row) ∈ s.rows.rows.items) :
    s.rows.find? row.name = some (i, row) :=
  Table.find?_eq_some.mpr ⟨Dict.mem_items.mp h, rfl⟩

/-- What the pools are after the rows `done` have been worked off. -/
structure Pooled (env : EndpointEnv) (s : EndpointStore) (done : List (Nat × EndpointRow))
    (t : EndpointStore) : Prop where
  rows : t.rows = s.rows
  stats : t.endpointStats = .empty
  named : ∀ {name e}, t.pools.get? name = some e → e.name = name
  descr : ∀ name, (t.pools.get? name).map RPCEndpoint.connDescr =
    (done.find? fun r => r.2.name = name).bind fun r => descriptor env r.2.config.url

/-- No row before another one has its name. -/
theorem find?_done {done rest : List (Nat × EndpointRow)} {r : Nat × EndpointRow}
    (h : s.rows.rows.items = done ++ r :: rest) :
    (done.find? fun q => q.2.name = r.2.name) = none := by
  rw [List.find?_eq_none]
  intro q hq hname
  have hget (q : Nat × EndpointRow) (hq : q ∈ done ++ r :: rest) :
      s.rows.rows.get? q.1 = some q.2 := Dict.mem_items.mp (h ▸ hq)
  have hsame := s.rows.unique q.1 r.1 q.2 r.2 (hget q (List.mem_append_left _ hq))
    (hget r (by simp)) (of_decide_eq_true hname)
  have hnodup := s.rows.rows.nodup
  rw [h, List.map_append, List.nodup_append] at hnodup
  exact hnodup.2.2 q.1 (List.mem_map_of_mem hq) r.1 (by simp) hsame

theorem addPools_rows (h : Sound env s) :
    ∃ t, addPools (s.rows.rows.items.map fun r => (r.2.config.name, descriptor env r.2.config.url))
      { rows := s.rows, created := s.created } = .ok () t ∧ Pooled env s s.rows.rows.items t := by
  rw [addPools, forEach_map]
  refine forEach_ok (P := Pooled env s) ?_ ⟨rfl, rfl, by rintro name e ⟨⟩, fun name => rfl⟩
  rintro done ⟨i, row⟩ rest t hitems ht
  have hfind : s.rows.find? row.name = some (i, row) := find?_of_mem (by rw [hitems]; simp)
  obtain ⟨hname, hsome⟩ := h.row hfind
  obtain ⟨d, hd⟩ := Option.isSome_iff_exists.mp hsome
  have hnew : t.pools.get? row.name = none := by
    have hdescr := ht.descr row.name
    rw [find?_done hitems] at hdescr
    exact Option.map_eq_none_iff.mp hdescr
  refine ⟨t.withPool row.name d, ?_, ht.rows, ht.stats, ?_, ?_⟩
  · dsimp only
    rw [hname, hd]
    dsimp only
    rw [addPool_of_none d hnew]
  · intro name e he
    rw [get?_withPool] at he
    split at he
    · next hj =>
      cases he
      exact hj.symm
    · exact ht.named he
  · intro name
    rw [get?_withPool, List.find?_append]
    by_cases hj : name = row.name
    · subst hj
      rw [if_pos rfl, find?_done hitems]
      simp [hd]
    · rw [if_neg hj, ht.descr name, List.find?_cons_of_neg (by simpa using fun hrow => hj hrow.symm),
        List.find?_nil, Option.or_none]

/-- The statistics of the endpoints `done` have been registered. -/
structure Registered (t : EndpointStore) (done : List RPCEndpoint) (u : EndpointStore) : Prop where
  rows : u.rows = t.rows
  pools : u.pools = t.pools
  stats : ∀ name, u.endpointStats.contains name = true ↔ ∃ e ∈ done, e.name = name

theorem registerEndpoints_ok (hstats : t.endpointStats = .empty)
    (hnamed : ∀ {name e}, t.pools.get? name = some e → e.name = name) :
    ∃ u, t.registerEndpoints = .ok () u ∧ Registered t (t.pools.items.map Prod.snd) u := by
  have hnames : (t.pools.items.map Prod.snd).map RPCEndpoint.name = t.pools.items.map Prod.fst := by
    rw [List.map_map]
    exact List.map_congr_left fun p hp => hnamed (Dict.mem_items.mp hp)
  have hnodup := t.pools.nodup
  rw [← hnames] at hnodup
  rw [registerEndpoints]
  refine forEach_ok (P := Registered t) ?_
    ⟨rfl, rfl, fun name => by simp [hstats, Dict.contains, Dict.get?, Dict.empty]⟩
  intro done e rest u hitems hu
  have hnew : u.endpointStats.contains e.name = false := by
    rw [Bool.eq_false_iff, Ne, hu.stats]
    rintro ⟨e', he', heq⟩
    rw [hitems, List.map_append, List.nodup_append] at hnodup
    exact hnodup.2.2 _ (List.mem_map_of_mem he') e.name (by simp) heq
  refine ⟨{ u with endpointStats := u.endpointStats.set e.name e.connStats }, ?_, hu.rows,
    hu.pools, ?_⟩
  · rw [registerEndpointStats, hnew]
    rfl
  · intro name
    rw [contains_set]
    by_cases hname : name = e.name
    · simp [hname]
    · rw [if_neg hname, hu.stats]
      simp [Ne.symm hname]

/-- The service starts with one pool for each row, and with the descriptor of the address in
that row. -/
structure Started (env : EndpointEnv) (s t : EndpointStore) : Prop where
  consistent : t.Consistent
  rows : t.rows = s.rows
  descr : ∀ name, (t.pools.get? name).map RPCEndpoint.connDescr =
    (s.rows.find? name).bind fun r => descriptor env r.2.config.url

theorem Started.sound (h : Sound env s) (ht : Started env s t) : Sound env t where
  pool := by
    intro name e he
    have hdescr := ht.descr name
    rw [he] at hdescr
    obtain ⟨r, -, hd⟩ := Option.bind_eq_some_iff.mp hdescr.symm
    refine ⟨ht.consistent.named he, ?_⟩
    rw [url_of_descriptor hd]
    exact hd
  row := by
    rw [ht.rows]
    exact h.row

/-- What a start makes of the rows. -/
theorem start_spec (floatText : String → String) (config : List Json)
    (hstore : env.ethEndpointsStore = true) (h : Sound env s) :
    ∃ t, s.start env floatText config = .ok () t ∧ Started env s t := by
  have hrow (r : Nat × EndpointRow) (hr : r ∈ s.rows.rows.items) :
      ∃ entry, Json.loads floatText r.2.config.text = some entry ∧ descriptorPair env entry =
        .ok (r.2.config.name, descriptor env r.2.config.url) := by
    obtain ⟨-, hsome⟩ := h.row (find?_of_mem (s := s) hr)
    obtain ⟨d, hd⟩ := Option.isSome_iff_exists.mp hsome
    rw [hd]
    exact descriptorPair_text r.2.config hd
  have hstored : storedConfig floatText { rows := s.rows, created := s.created } =
      .ok (s.rows.rows.items.map fun r =>
        (Json.loads floatText r.2.config.text).getD .null) := by
    refine mapM_ok fun r hr => ?_
    obtain ⟨entry, hentry, -⟩ := hrow r hr
    simp only [hentry, Option.getD_some]
  have hpairs : (s.rows.rows.items.map fun r =>
      (Json.loads floatText r.2.config.text).getD .null).mapM (descriptorPair env) =
      .ok (s.rows.rows.items.map fun r => (r.2.config.name, descriptor env r.2.config.url)) := by
    rw [List.mapM_map]
    refine mapM_ok fun r hr => ?_
    obtain ⟨entry, hentry, hpair⟩ := hrow r hr
    rw [Function.comp_apply, hentry, Option.getD_some, hpair]
  obtain ⟨t, hpools, ht⟩ := addPools_rows h
  obtain ⟨u, hregister, hu⟩ := registerEndpoints_ok ht.stats ht.named
  have hstart : s.start env floatText config = .ok () u := by
    rw [start, if_pos hstore]
    simp only [hstored, createDefaultConnectionPool, hpairs, hpools, Result.bind_ok, hregister]
  refine ⟨u, hstart, ⟨by rw [hu.pools]; exact ht.named, fun name => ?_⟩, hu.rows.trans ht.rows, ?_⟩
  · have hstats : u.endpointStats.contains name = (u.pools.get? name).isSome := by
      rw [Bool.eq_iff_iff, hu.stats, hu.pools, Option.isSome_iff_exists]
      constructor
      · rintro ⟨e, he, rfl⟩
        obtain ⟨⟨name, e⟩, hmem, rfl⟩ := List.mem_map.mp he
        have hget := Dict.mem_items.mp hmem
        exact ⟨e, by rw [ht.named hget]; exact hget⟩
      · rintro ⟨e, he⟩
        exact ⟨e, List.mem_map.mpr ⟨(name, e), Dict.mem_items.mpr he, rfl⟩, ht.named he⟩
    have hdescr := ht.descr name
    rw [← hu.pools] at hdescr
    show u.view name = absent ∨ _
    cases hfind : s.rows.find? name with
    | none =>
        have hnone : u.pools.get? name = none := by
          rw [Table.find?] at hfind
          rw [hfind] at hdescr
          exact Option.map_eq_none_iff.mp hdescr
        left
        rw [view, hstats, hnone, hu.rows, ht.rows, hfind]
        rfl
    | some r =>
        obtain ⟨-, hsome⟩ := h.row hfind
        obtain ⟨d, hd⟩ := Option.isSome_iff_exists.mp hsome
        have hpool : (u.pools.get? name).map RPCEndpoint.connDescr = some d := by
          rw [Table.find?] at hfind
          rw [hdescr, hfind]
          exact hd
        obtain ⟨e, he, rfl⟩ := Option.map_eq_some_iff.mp hpool
        refine Or.inr ⟨r.2.config.url, ?_⟩
        rw [view, hstats, he, hu.rows, ht.rows, hfind]
        simp [present, url_of_descriptor hd]
  · intro name
    rw [hu.pools, ht.descr name]
    rfl

/-! ## histories -/

/-- A call of the administrator, or a restart of the service. -/
inductive Event where
  | call (c : Call)
  | restart

variable (env floatText config) in
/-- One event; `none` if the service does not start. -/
def event (s : EndpointStore) : Event → Option EndpointStore
  | .call c => step env s c
  | .restart =>
      match s.start env floatText config with
      | .ok _ t => some t
      | .raise _ _ => none

theorem sound_empty : Sound env {} where
  pool := by rintro name e ⟨⟩
  row := by rintro name i row ⟨⟩

/-- The address of a call. -/
def Call.url? : Call → Option String
  | .addEndpoint _ url _ => some url
  | .removeEndpoint _ _ => none
  | .updateEndpoint _ url _ _ => some url

/-- What a call leaves behind: what was there, or what belongs to its address. -/
structure Touched (env : EndpointEnv) (s : EndpointStore) (url : Option String)
    (t : EndpointStore) : Prop where
  pool : ∀ {name e}, t.pools.get? name = some e → s.pools.get? name = some e ∨
    e.name = name ∧ ∃ u, url = some u ∧ descriptor env u = some e.connDescr
  row : ∀ {name i row}, t.rows.find? name = some (i, row) → s.rows.find? name = some (i, row) ∨
    row.config.name = name ∧ ∃ u, url = some u ∧ row.config.url = u ∧
      (descriptor env u).isSome = true

theorem Touched.refl (s : EndpointStore) (url : Option String) : Touched env s url s where
  pool := Or.inl
  row := Or.inl

theorem Touched.sound {url : Option String} (h : Touched env s url t) (hs : Sound env s) :
    Sound env t where
  pool := by
    intro name e he
    obtain he | ⟨hname, u, -, hd⟩ := h.pool he
    · exact hs.pool he
    · exact ⟨hname, url_of_descriptor hd ▸ hd⟩
  row := by
    intro name i row hrow
    obtain hrow | ⟨hname, u, -, rfl, hd⟩ := h.row hrow
    · exact hs.row hrow
    · exact ⟨hname, hd⟩

/-- What `from_url` returns, and when it raises. -/
theorem fromUrl_eq (env : EndpointEnv) (s : EndpointStore) (url : String) :
    s.fromUrl env url = match env.parseUrl url with
      | none => .raise .exception s
      | some _ => .ok (descriptor env url) s := by
  unfold fromUrl descriptor
  cases env.parseUrl url <;> rfl

/-- What the statistics say is touched by no part of a call that matters here. -/
theorem touched_finish {url : Option String} {res : Result EndpointStore (Except String RPCEndpoint)}
    {stats : RPCEndpoint → EndpointStore → Result EndpointStore Unit} {message : String}
    (hstats : ∀ e t, (stats e t).state.pools = t.pools ∧ (stats e t).state.rows = t.rows)
    (h : Touched env s url res.state) : Touched env s url (finish res stats message).state := by
  cases res with
  | raise e t => exact h
  | ok r t =>
      cases r with
      | error text => exact h
      | ok e =>
          obtain ⟨hpools, hrows⟩ := hstats e t
          have hstate : (finish (.ok (.ok e) t) stats message).state = (stats e t).state := by
            simp only [finish, Result.bind_ok]
            cases stats e t <;> rfl
          rw [hstate]
          exact ⟨by rw [hpools]; exact h.pool, by rw [hrows]; exact h.row⟩

theorem touched_withPool (name : String) {d : EndpointConnectionDescriptor}
    (hd : descriptor env url = some d) (h : Touched env s (some url) t) : Touched env s (some url) (t.withPool name d) where
  pool := by
    intro j e he
    rw [get?_withPool] at he
    split at he
    · next hj =>
      cases he
      exact Or.inr ⟨hj.symm, url, rfl, hd⟩
    · exact h.pool he
  row := h.row

theorem touched_withoutPool (name : String) {url : Option String} (h : Touched env s url t) :
    Touched env s url (t.withoutPool name) where
  pool := by
    intro j e he
    rw [get?_withoutPool] at he
    split at he
    · cases he
    · exact h.pool he
  row := h.row

theorem touched_rows {rows : Table EndpointRow EndpointRow.name} {i : Nat}
    (hd : (descriptor env url).isSome = true) (h : Touched env s (some url) t)
    (hfind : ∀ k, rows.find? k = if k = name then some (i, ⟨name, ⟨name, url⟩⟩) else t.rows.find? k) :
    Touched env s (some url) { t with rows } where
  pool := h.pool
  row := by
    intro j i' row hrow
    rw [hfind] at hrow
    split at hrow
    · next hj =>
      cases hrow
      exact Or.inr ⟨hj.symm, url, rfl, rfl, hd⟩
    · exact h.row hrow

theorem touched_createRow {u : EndpointStore} (hd : (descriptor env url).isSome = true)
    (h : Touched env s (some url) t) (hcreate : t.createRow name ⟨name, url⟩ = .ok u) :
    Touched env s (some url) u := by
  unfold createRow at hcreate
  cases hfind : t.rows.find? name with
  | none =>
      obtain ⟨i, rows, hinsert, -, -, hrows⟩ :=
        Table.insert_spec (t := t.rows) (r := ⟨name, ⟨name, url⟩⟩) hfind
      rw [hinsert] at hcreate
      cases hcreate
      exact touched_rows hd h hrows
  | some r =>
      rw [Table.insert_of_find? hfind] at hcreate
      cases hcreate

theorem touched_saveRow {u : EndpointStore} {i : Nat} {row : EndpointRow}
    (hd : (descriptor env url).isSome = true) (h : Touched env s (some url) t)
    (hfind : t.rows.find? name = some (i, row))
    (hsave : t.saveRow row.name i ⟨name, url⟩ = .ok u) : Touched env s (some url) u := by
  obtain ⟨hrow, rfl⟩ := Table.find?_eq_some.mp hfind
  obtain ⟨rows, hupdate, -, hrows⟩ :=
    Table.update_spec (r := ⟨row.name, ⟨row.name, url⟩⟩) hrow rfl
  unfold saveRow at hsave
  rw [hupdate] at hsave
  cases hsave
  exact touched_rows hd h hrows

theorem touched_deleteRow {url : Option String} (h : Touched env s url t) :
    Touched env s url (t.deleteRow name) where
  pool := h.pool
  row := by
    intro j i row hrow
    rw [deleteRow, Table.find?_delete] at hrow
    split at hrow
    · cases hrow
    · exact h.row hrow

theorem touched_addEndpoint (create : Option String) :
    Touched env s (some url) (s.addEndpoint env name url create).state := by
  have hrefl : Touched env s (some url) s := Touched.refl s _
  unfold addEndpoint
  split
  · exact hrefl
  · rw [fromUrl_eq]
    cases env.parseUrl url with
    | none => exact hrefl
    | some parsed =>
        cases hd : descriptor env url with
        | none => exact hrefl
        | some d =>
            rw [Result.bind_ok]
            dsimp only
            cases hpool : s.pools.get? name with
            | some e =>
                rw [addPool_of_some d hpool]
                exact hrefl
            | none =>
                rw [addPool_of_none d hpool]
                have hadded := touched_withPool name hd hrefl
                dsimp only
                split
                · next u hcreate =>
                  cases create with
                  | some text => cases hcreate
                  | none => exact touched_createRow (by rw [hd]; rfl) hadded hcreate
                · rw [removePool_of_some (e := { name, connDescr := d, connStats := s.created })
                    (by simp)]
                  exact touched_withoutPool name hadded

theorem touched_removeEndpoint (delete : Option String) :
    Touched env s none (s.removeEndpoint env name delete).state := by
  have hrefl : Touched env s none s := Touched.refl s _
  unfold removeEndpoint
  split
  · exact hrefl
  · cases hpool : s.pools.get? name with
    | none =>
        rw [removePool_of_none hpool]
        exact hrefl
    | some e =>
        rw [removePool_of_some hpool]
        have hremoved := touched_withoutPool name hrefl
        cases delete with
        | some text => exact hremoved
        | none => exact touched_deleteRow hremoved

theorem touched_updateEndpoint (get save : Option String) :
    Touched env s (some url) (s.updateEndpoint env name url get save).state := by
  have hrefl : Touched env s (some url) s := Touched.refl s _
  unfold updateEndpoint
  split
  · exact hrefl
  · rw [fromUrl_eq]
    cases env.parseUrl url with
    | none => exact hrefl
    | some parsed =>
        cases hd : descriptor env url with
        | none => exact hrefl
        | some d =>
            rw [Result.bind_ok]
            dsimp only
            cases hpool : s.pools.get? name with
            | none =>
                rw [removePool_of_none hpool]
                exact hrefl
            | some e =>
                rw [removePool_of_some hpool]
                dsimp only
                rw [addPool_withoutPool]
                have hreplaced := touched_withPool name hd (touched_withoutPool name hrefl)
                dsimp only
                cases get with
                | some text => exact hreplaced
                | none =>
                    dsimp only [attempt]
                    cases hfind : ((s.withoutPool name).withPool name d).rows.find? name with
                    | none => exact hreplaced
                    | some r =>
                        dsimp only
                        split
                        · next u hsave =>
                          cases save with
                          | some text => cases hsave
                          | none =>
                              exact touched_saveRow (by rw [hd]; rfl) hreplaced hfind hsave
                        · exact hreplaced

theorem touched_call (s : EndpointStore) (c : Call) :
    Touched env s c.url? (s.call env c).state := by
  cases c with
  | addEndpoint name url create =>
      refine touched_finish (fun e t => ?_) (touched_addEndpoint create)
      unfold registerEndpointStats
      split <;> exact ⟨rfl, rfl⟩
  | removeEndpoint name delete =>
      refine touched_finish (fun e t => ?_) (touched_removeEndpoint delete)
      unfold removeEndpointStats
      split <;> exact ⟨rfl, rfl⟩
  | updateEndpoint name url get save =>
      exact touched_finish (fun e t => ⟨rfl, rfl⟩) (touched_updateEndpoint get save)

theorem sound_event (hstore : env.ethEndpointsStore = true) {e : Event} (hs : Sound env s)
    (hevent : event env floatText config s e = some t) : Sound env t := by
  cases e with
  | call c =>
      cases hevent
      exact (touched_call s c).sound hs
  | restart =>
      obtain ⟨u, hstart, hu⟩ := start_spec floatText config hstore hs
      simp only [event, hstart] at hevent
      cases hevent
      exact hu.sound hs

/-- **Restart**: after any history of calls and restarts, whatever has failed in it, the
service starts with one pool for each row, made from the address in it, and its three
stores agree. -/
theorem start_of_run (hstore : env.ethEndpointsStore = true) (es : List Event) :
    ∃ s t, run (event env floatText config) {} es = some s ∧
      s.start env floatText config = .ok () t ∧ Started env s t := by
  suffices hgen : ∀ s, Sound env s → ∃ t, run (event env floatText config) s es = some t ∧
      Sound env t by
    obtain ⟨s, hrun, hs⟩ := hgen {} sound_empty
    obtain ⟨t, hstart, ht⟩ := start_spec floatText config hstore hs
    exact ⟨s, t, hrun, hstart, ht⟩
  induction es with
  | nil => exact fun s hs => ⟨s, rfl, hs⟩
  | cons e es ih =>
      intro s hs
      have hnext : ∃ t, event env floatText config s e = some t := by
        cases e with
        | call c => exact ⟨_, rfl⟩
        | restart =>
            obtain ⟨t, hstart, -⟩ := start_spec floatText config hstore hs
            exact ⟨t, by simp only [event, hstart]⟩
      obtain ⟨t, ht⟩ := hnext
      obtain ⟨u, hrun, hu⟩ := ih t (sound_event hstore hs ht)
      exact ⟨u, by rw [run_cons, ht]; exact hrun, hu⟩

/-- An endpoint is added, the service is restarted, and the endpoint gets another address. -/
def addedAndMoved : List Event :=
  [.call (.addEndpoint "a" "https://a" none), .restart,
    .call (.updateEndpoint "a" "https://b" none none)]

theorem start_of_run_addedAndMoved :
    ∃ s t, run (event anyHost id []) {} addedAndMoved = some s ∧
      s.start anyHost id [] = .ok () t ∧ Started anyHost s t :=
  start_of_run rfl addedAndMoved

/-! ## what the administrator notices -/

/-- What a call returns or raises. -/
def answer : Result EndpointStore AdminReply → Except PyError AdminReply
  | .ok reply _ => .ok reply
  | .raise e _ => .error e

/-- The name in a call. -/
def Call.target : Call → String
  | .addEndpoint name _ _ => name
  | .removeEndpoint name _ => name
  | .updateEndpoint name _ _ _ => name

/-- What is told of an address that is not accepted. -/
def refusal (env : EndpointEnv) (url : String) : Option (Except PyError AdminReply) :=
  if !env.ethEndpointsStore then some (.ok (.error "the endpoint cannot be stored"))
  else
    match env.parseUrl url with
    | none => some (.error .exception)
    | some _ =>
        match descriptor env url with
        | none => some (.ok (.error "Invalid URL provided"))
        | some _ => none

/-- What the administrator is told, from what the stores say of the name. -/
def tell (env : EndpointEnv) (v : View) : Call → Except PyError AdminReply
  | .addEndpoint name url create =>
      (refusal env url).getD <|
        if v.1.isSome then .ok (.error (noPoolFound name))
        else
          match create with
          | some text => .ok (.error text)
          | none => .ok (.message s!"Added and saved configuration for endpoint '{name}'")
  | .removeEndpoint name delete =>
      if !env.ethEndpointsStore then .ok (.error "the endpoint cannot be stored")
      else if v.1.isSome then
        match delete with
        | some text => .ok (.error ("(db inconsistent): " ++ text))
        | none => .ok (.message s!"Removed endpoint '{name}'")
      else .ok (.error (noPoolFound name))
  | .updateEndpoint name url get save =>
      (refusal env url).getD <|
        if v.1.isSome then
          match get.or save with
          | some text => .ok (.error ("(db inconsistent): " ++ text))
          | none => .ok (.message s!"Updated endpoint '{name}' with address {url}")
        else .ok (.error (noPoolFound name))

theorem isSome_view (s : EndpointStore) (name : String) :
    (s.view name).1.isSome = (s.pools.get? name).isSome := by
  simp [view]

theorem answer_addEndpoint (hs : s.Consistent) (create : Option String) :
    answer (s.call env (.addEndpoint name url create)) =
      tell env (s.view name) (.addEndpoint name url create) := by
  simp only [call, addEndpoint, tell, refusal, isSome_view, fromUrl_eq]
  cases env.ethEndpointsStore with
  | false => rfl
  | true =>
      cases env.parseUrl url with
      | none => rfl
      | some parsed =>
          cases descriptor env url with
          | none => rfl
          | some d =>
              obtain ⟨-, hpool, hrow, hstats⟩ | ⟨e, i, row, -, hpool, hrow, hstats⟩ := hs.cases name
              · obtain ⟨i, rows, hinsert, -⟩ :=
                  Table.insert_spec (t := s.rows) (r := ⟨name, ⟨name, url⟩⟩) hrow
                have hback : (s.withPool name d).pools.get? name =
                    some { name, connDescr := d, connStats := s.created } := by simp
                cases create with
                | some text =>
                    simp only [Result.bind_ok, addPool_of_none d hpool, attempt,
                      removePool_of_some hback, hpool]
                    rfl
                | none =>
                    simp [Result.bind_ok, addPool_of_none d hpool, attempt, createRow, hinsert,
                      finish, registerEndpointStats, hstats, hpool]
                    rfl
              · simp only [Result.bind_ok, addPool_of_some d hpool, hpool]
                rfl

theorem answer_removeEndpoint (hs : s.Consistent) (delete : Option String) :
    answer (s.call env (.removeEndpoint name delete)) =
      tell env (s.view name) (.removeEndpoint name delete) := by
  simp only [call, removeEndpoint, tell, isSome_view]
  cases env.ethEndpointsStore with
  | false => rfl
  | true =>
      obtain ⟨-, hpool, -, -⟩ | ⟨e, i, row, -, hpool, -, hstats⟩ := hs.cases name
      · simp only [removePool_of_none hpool, hpool]
        rfl
      · cases delete with
        | some text =>
            simp only [removePool_of_some hpool, hpool, attempt]
            rfl
        | none =>
            simp [removePool_of_some hpool, hpool, attempt, finish, removeEndpointStats,
              hs.named hpool, deleteRow, hstats]
            rfl

theorem answer_updateEndpoint (hs : s.Consistent) (get save : Option String) :
    answer (s.call env (.updateEndpoint name url get save)) =
      tell env (s.view name) (.updateEndpoint name url get save) := by
  simp only [call, updateEndpoint, tell, refusal, isSome_view, fromUrl_eq]
  cases env.ethEndpointsStore with
  | false => rfl
  | true =>
      cases env.parseUrl url with
      | none => rfl
      | some parsed =>
          cases descriptor env url with
          | none => rfl
          | some d =>
              obtain ⟨-, hpool, -, -⟩ | ⟨e, i, row, -, hpool, hrow, -⟩ := hs.cases name
              · simp only [Result.bind_ok, removePool_of_none hpool, hpool]
                rfl
              · obtain ⟨hrowi, hrowname⟩ := Table.find?_eq_some.mp hrow
                obtain ⟨rows, hupdate, -⟩ :=
                  Table.update_spec (r := ⟨row.name, ⟨name, url⟩⟩) hrowi rfl
                cases get with
                | some text =>
                    simp only [Result.bind_ok, removePool_of_some hpool, addPool_withoutPool,
                      attempt, hpool]
                    rfl
                | none =>
                    cases save with
                    | some text =>
                        simp only [Result.bind_ok, removePool_of_some hpool, addPool_withoutPool,
                          attempt, rows_withPool, rows_withoutPool, hrow, hpool]
                        rfl
                    | none =>
                        simp only [Result.bind_ok, removePool_of_some hpool, addPool_withoutPool,
                          attempt, rows_withPool, rows_withoutPool, hrow, hpool, saveRow, hupdate]
                        rfl

/-- What an administrator is told depends on what the stores say, and on nothing else. -/
theorem answer_call (hs : s.Consistent) (c : Call) :
    answer (s.call env c) = tell env (s.view c.target) c := by
  cases c with
  | addEndpoint name url create => exact answer_addEndpoint hs create
  | removeEndpoint name delete => exact answer_removeEndpoint hs delete
  | updateEndpoint name url get save => exact answer_updateEndpoint hs get save

/-- What the stores say after a call that succeeds. -/
def applied (v : String → View) : Call → String → View
  | .addEndpoint name url _ => Function.update v name (present url)
  | .removeEndpoint name _ => Function.update v name absent
  | .updateEndpoint name url _ _ => Function.update v name (present url)

theorem view_of_applied {c : Call} (h : Applied s t c) : t.view = applied s.view c := by
  cases c <;> exact h.2

theorem stored_of_view {u : EndpointStore} (hview : s.view = u.view) {c : Call}
    (h : Stored env s c) : Stored env u c := by
  cases c with
  | addEndpoint => exact trivial
  | removeEndpoint name delete => simpa only [Stored, hview] using h
  | updateEndpoint name url get save => simpa only [Stored, hview] using h

/-- Stores that say the same go on saying the same. -/
theorem view_call {u : EndpointStore} (hs : s.Consistent) (hu : u.Consistent)
    (hview : s.view = u.view) {c : Call} (hstored : Stored env s c) :
    (s.call env c).state.view = (u.call env c).state.view := by
  have hstored' := stored_of_view hview hstored
  have hanswer : answer (s.call env c) = answer (u.call env c) := by
    rw [answer_call hs, answer_call hu, hview]
  have hatomic := (fair_of_stored hs hstored).2
  have hatomic' := (fair_of_stored hu hstored').2
  unfold Atomic at hatomic hatomic'
  cases hcall : s.call env c with
  | raise e t =>
      cases hcall' : u.call env c with
      | raise e' t' =>
          rw [hcall] at hatomic
          rw [hcall'] at hatomic'
          exact hatomic.trans (hview.trans hatomic'.symm)
      | ok reply' t' => simp [hcall, hcall', answer] at hanswer
  | ok reply t =>
      cases hcall' : u.call env c with
      | raise e' t' => simp [hcall, hcall', answer] at hanswer
      | ok reply' t' =>
          rw [hcall] at hatomic
          rw [hcall'] at hatomic'
          obtain rfl : reply = reply' := by simpa [hcall, hcall', answer] using hanswer
          cases reply with
          | message text =>
              show t.view = t'.view
              rw [view_of_applied hatomic, view_of_applied hatomic', hview]
          | error text => exact hatomic.trans (hview.trans hatomic'.symm)

/-- A start changes nothing of what consistent stores say. -/
theorem Started.view_eq (hs : s.Consistent) (ht : Started env s t) : t.view = s.view := by
  funext name
  have hrow : (t.view name).2.1 = (s.view name).2.1 := by
    simp only [view, ht.rows]
  have hurl (u : EndpointStore) (hu : u.Consistent) :
      u.view name = (u.view name).2.1.elim absent present := by
    obtain h | ⟨url, h⟩ := hu.agree name <;> rw [h] <;> rfl
  rw [hurl t ht.consistent, hurl s hs, hrow]

/-- Pools of stores that say the same have the same descriptors. -/
theorem descr_of_view {u : EndpointStore} (hs : Sound env s) (hu : Sound env u)
    (hview : s.view = u.view) (name : String) :
    (s.pools.get? name).map RPCEndpoint.connDescr = (u.pools.get? name).map RPCEndpoint.connDescr := by
  have hdescr (u : EndpointStore) (hu : Sound env u) :
      (u.pools.get? name).map RPCEndpoint.connDescr =
        (u.view name).1.bind (descriptor env) := by
    cases he : u.pools.get? name with
    | none => simp [view, he]
    | some e => simp [view, he, (hu.pool he).2]
  rw [hdescr s hs, hdescr u hu, hview]

/-- The event is a call. -/
def Event.isCall : Event → Bool
  | .call _ => true
  | .restart => false

variable (env floatText config) in
/-- What the calls among the events return or raise. -/
def answers : EndpointStore → List Event → List (Except PyError AdminReply)
  | _, [] => []
  | s, .call c :: es => answer (s.call env c) :: answers (s.call env c).state es
  | s, .restart :: es =>
      match s.start env floatText config with
      | .ok _ t => answers t es
      | .raise _ _ => []

variable (env) in
/-- The database does not fail too late in a call. -/
def Safe (s : EndpointStore) : Event → Prop
  | .call c => Stored env s c
  | .restart => True

/-- **Restarts are not noticed**: where the database does not fail too late, the answers to
the calls, what the stores say in the end and the descriptors of the pools are those of the
history without its restarts. -/
theorem answers_restart (hstore : env.ethEndpointsStore = true) {s : EndpointStore}
    (hs : s.Consistent) (hsound : Sound env s) {es : List Event}
    (hsafe : Guarded (event env floatText config) (Safe env) s es) :
    answers env floatText config s es =
        answers env floatText config s (es.filter Event.isCall) ∧
      ∃ t u, run (event env floatText config) s es = some t ∧
        run (event env floatText config) s (es.filter Event.isCall) = some u ∧
        t.view = u.view ∧ ∀ name, (t.pools.get? name).map RPCEndpoint.connDescr =
          (u.pools.get? name).map RPCEndpoint.connDescr := by
  -- the two histories side by side: with the restarts in `s`, without them in `u`
  suffices hgen : ∀ s u : EndpointStore, s.Consistent → Sound env s → u.Consistent →
      Sound env u → s.view = u.view → Guarded (event env floatText config) (Safe env) s es →
      answers env floatText config s es =
        answers env floatText config u (es.filter Event.isCall) ∧
      ∃ t v, run (event env floatText config) s es = some t ∧
        run (event env floatText config) u (es.filter Event.isCall) = some v ∧
        t.view = v.view ∧ ∀ name, (t.pools.get? name).map RPCEndpoint.connDescr =
          (v.pools.get? name).map RPCEndpoint.connDescr from
    hgen s s hs hsound hs hsound rfl hsafe
  clear hsafe hs hsound s
  induction es with
  | nil =>
      intro s u _ hsound _ hsound' hview _
      exact ⟨rfl, s, u, rfl, rfl, hview, descr_of_view hsound hsound' hview⟩
  | cons e es ih =>
      intro s u hs hsound hu hsound' hview hsafe
      cases e with
      | call c =>
          obtain ⟨hstored, hrest⟩ := hsafe _ rfl
          have hnext := view_call hs hu hview hstored
          have hstored' := stored_of_view hview hstored
          obtain ⟨hanswers, t, v, hrun, hrun', hend⟩ := ih _ _ (fair_of_stored hs hstored).1
            ((touched_call s c).sound hsound) (fair_of_stored hu hstored').1
            ((touched_call u c).sound hsound') hnext hrest
          refine ⟨?_, t, v, hrun, hrun', hend⟩
          have hanswer : answer (s.call env c) = answer (u.call env c) := by
            rw [answer_call hs, answer_call hu, hview]
          show answer _ :: _ = answer _ :: _
          rw [hanswer, hanswers]
      | restart =>
          obtain ⟨t, hstart, ht⟩ := start_spec floatText config hstore hsound
          have hevent : event env floatText config s .restart = some t := by
            simp only [event, hstart]
          obtain ⟨-, hrest⟩ := hsafe t hevent
          obtain ⟨hanswers, t', v, hrun, hrun', hend⟩ := ih t u ht.consistent (ht.sound hsound) hu
            hsound' ((ht.view_eq hs).trans hview) hrest
          refine ⟨?_, t', v, by rw [run_cons, hevent]; exact hrun, hrun', hend⟩
          simp only [answers, hstart]
          exact hanswers

theorem answers_restart_addedAndMoved :
    answers anyHost id [] {} addedAndMoved =
        answers anyHost id [] {} (addedAndMoved.filter Event.isCall) ∧
      ∃ t u, run (event anyHost id []) {} addedAndMoved = some t ∧
        run (event anyHost id []) {} (addedAndMoved.filter Event.isCall) = some u ∧
        t.view = u.view ∧ ∀ name, (t.pools.get? name).map RPCEndpoint.connDescr =
          (u.pools.get? name).map RPCEndpoint.connDescr :=
  answers_restart rfl consistent_empty sound_empty
    (guarded_of_forall _ (by simp [addedAndMoved, Safe, Stored]) _)

end EndpointStore

end Web3Proxy
