import Web3Proxy.Lib.Py
import Web3Proxy.Lib.Table

/-!
# Web3Proxy.EndpointManager

The configuration of the endpoints: the pools of `EndpointConnectionPoolManager`
(`pool_manager.py`), the stored `Endpoint` rows, and the statistics that `RPCServiceAdmin`
knows (`serviceadmin.py`), with the calls of `EndpointManagerService`
(`endpoint_manager.py`) that change them.

A pool is represented by its endpoint, and a statistics object by its number.  A call of
the database may raise a `PeeweeException`, which leaves it as it was; `parse_url` belongs
to another package, and may raise as well.
-/

namespace Web3Proxy

open Py

/-! ## endpoints -/

/-- What `urllib3.util.parse_url` returns. -/
structure ParsedUrl where
  scheme : Option String
  host : Option String
  port : Option Nat
  path : Option String
deriving DecidableEq, Repr

/-- `EndpointConnectionDescriptor`. -/
structure EndpointConnectionDescriptor where
  host : String
  port : Nat
  authKey : String
  isSsl : Bool
  url : String
deriving DecidableEq, Repr

/-- `EndpointConnectionDescriptor.from_url(url)`, after parsing. -/
def EndpointConnectionDescriptor.fromParsed (parsed : ParsedUrl) (url : String) :
    Option EndpointConnectionDescriptor :=
  let authKey := (parsed.path.getD "").drop 1 |>.toString
  match parsed.host, parsed.scheme.map (· == "https"), parsed.port with
  | none, _, _ => none
  | _, none, _ => none
  | some host, some isSsl, some port => some { host, port, authKey, isSsl, url }
  | some host, some true, none => some { host, port := 443, authKey, isSsl := true, url }
  | _, some false, none => none

/-- `RPCEndpoint`; `connStats` is the object it creates for its statistics. -/
structure RPCEndpoint where
  name : String
  connDescr : EndpointConnectionDescriptor
  connStats : Nat
deriving DecidableEq, Repr

/-- The dictionary in the `config` of a stored endpoint. -/
structure EndpointConf where
  name : String
  url : String
deriving DecidableEq, Repr

/-- A stored `Endpoint`. -/
structure EndpointRow where
  name : String
  config : EndpointConf
deriving DecidableEq, Repr

/-- The pools, the rows and the statistics; `created` counts the statistics objects. -/
structure EndpointStore where
  pools : Dict String RPCEndpoint := .empty
  rows : Table EndpointRow EndpointRow.name := .empty
  endpointStats : Dict String Nat := .empty
  created : Nat := 0

/-- What the calls read from outside: `Config.ETH_ENDPOINTS_STORE` and `parse_url`, which
may raise. -/
structure EndpointEnv where
  ethEndpointsStore : Bool
  parseUrl : String → Option ParsedUrl

/-- The answer of an administrative call. -/
inductive AdminReply where
  | message (text : String)
  | error (text : String)
deriving DecidableEq, Repr

namespace EndpointStore

variable (env : EndpointEnv) (s : EndpointStore) (name url : String)

/-! ## EndpointConnectionPoolManager -/

/-- The `message` of `PoolAlreadyExistsError` and of `PoolDoesNotExistError`. -/
def noPoolFound : String := s!"No pool for endpoint {name} found"

/-- `add_pool(name, conn_descr)`, unless it raises `PoolAlreadyExistsError`. -/
def addPool (d : EndpointConnectionDescriptor) : Except String (RPCEndpoint × EndpointStore) :=
  if s.pools.contains name then .error (noPoolFound name)
  else
    let endpoint := { name, connDescr := d, connStats := s.created }
    .ok (endpoint, { s with pools := s.pools.set name endpoint, created := s.created + 1 })

/-- `remove_pool(name)`, unless it raises `PoolDoesNotExistError`. -/
def removePool : Except String (RPCEndpoint × EndpointStore) :=
  match s.pools.get? name with
  | none => .error (noPoolFound name)
  | some endpoint => .ok (endpoint, { s with pools := s.pools.erase name })

/-! ## the rows -/

/-- A call of the database that raises a `PeeweeException` with the text, if there is
one. -/
def attempt {α : Type} (failure : Option String) (result : Except String α) : Except String α :=
  match failure with
  | some text => .error text
  | none => result

/-- `Endpoint.create(name=name, config=config)`. -/
def createRow (config : EndpointConf) : Except String EndpointStore :=
  match s.rows.insert ⟨name, config⟩ with
  | some (_, rows) => .ok { s with rows }
  | none => .error "UNIQUE constraint failed: endpoint.name"

/-- `Endpoint.delete().where(Endpoint.name == name).execute()`. -/
def deleteRow : EndpointStore := { s with rows := s.rows.delete name }

/-- `endpoint_db.save()`. -/
def saveRow (i : Nat) (config : EndpointConf) : Except String EndpointStore :=
  match s.rows.update i ⟨name, config⟩ with
  | some rows => .ok { s with rows }
  | none => .error "UNIQUE constraint failed: endpoint.name"

/-! ## EndpointManagerService -/

/-- `EndpointConnectionDescriptor.from_url(url)`: `parse_url` may raise, which no caller
handles. -/
def fromUrl : Result EndpointStore (Option EndpointConnectionDescriptor) :=
  match env.parseUrl url with
  | none => .raise .exception s
  | some parsed => .ok (EndpointConnectionDescriptor.fromParsed parsed url) s

/-- `add_endpoint(name, url)`, where `create` is the failure of `Endpoint.create`. -/
def addEndpoint (create : Option String) : Result EndpointStore (Except String RPCEndpoint) :=
  if !env.ethEndpointsStore then .ok (.error "the endpoint cannot be stored") s
  else (s.fromUrl env url).bind fun
    | none, s => .ok (.error "Invalid URL provided") s
    | some descriptor, s =>
        match s.addPool name descriptor with
        | .error message => .ok (.error message) s
        | .ok (endpoint, s) =>
            match attempt create (s.createRow name ⟨name, url⟩) with
            | .ok s => .ok (.ok endpoint) s
            | .error text =>
                match s.removePool name with
                | .ok (_, s) => .ok (.error text) s
                | .error _ => .raise .exception s

/-- `remove_endpoint(name)`, where `delete` is the failure of the deletion. -/
def removeEndpoint (delete : Option String) : Result EndpointStore (Except String RPCEndpoint) :=
  if !env.ethEndpointsStore then .ok (.error "the endpoint cannot be stored") s
  else
    match s.removePool name with
    | .error message => .ok (.error message) s
    | .ok (endpoint, s) =>
        match attempt delete (.ok (s.deleteRow name)) with
        | .ok s => .ok (.ok endpoint) s
        | .error text => .ok (.error ("(db inconsistent): " ++ text)) s

/-- `update_endpoint(name, url)`, where `get` and `save` are the failures of
`Endpoint.get` and `save`.  `DoesNotExist` is no `PeeweeException`. -/
def updateEndpoint (get save : Option String) :
    Result EndpointStore (Except String RPCEndpoint) :=
  if !env.ethEndpointsStore then .ok (.error "the endpoint cannot be stored") s
  else (s.fromUrl env url).bind fun
    | none, s => .ok (.error "Invalid URL provided") s
    | some descriptor, s =>
        match s.removePool name with
        | .error message => .ok (.error message) s
        | .ok (_, s) =>
            match s.addPool name descriptor with
            | .error _ => .raise .exception s
            | .ok (endpoint, s) =>
                match attempt get (.ok (s.rows.find? name)) with
                | .error text => .ok (.error ("(db inconsistent): " ++ text)) s
                | .ok none => .raise .doesNotExist s
                | .ok (some (i, row)) =>
                    match attempt save (s.saveRow row.name i ⟨name, url⟩) with
                    | .ok s => .ok (.ok endpoint) s
                    | .error text => .ok (.error ("(db inconsistent): " ++ text)) s

/-! ## RPCServiceAdmin -/

/-- `register_endpoint_stats(name, stats)`. -/
def registerEndpointStats (stats : Nat) : Result EndpointStore Unit :=
  if s.endpointStats.contains name then .raise .assertionError s
  else .ok () { s with endpointStats := s.endpointStats.set name stats }

/-- `remove_endpoint_stats(name)`. -/
def removeEndpointStats : Result EndpointStore Unit :=
  if s.endpointStats.contains name then
    .ok () { s with endpointStats := s.endpointStats.erase name }
  else .raise .keyError s

/-- `update_endpoint_stats(name, stats)`. -/
def updateEndpointStats (stats : Nat) : Result EndpointStore Unit :=
  .ok () { s with endpointStats := s.endpointStats.set name stats }

/-- What the three calls do with the result of the endpoint manager. -/
def finish (res : Result EndpointStore (Except String RPCEndpoint))
    (stats : RPCEndpoint → EndpointStore → Result EndpointStore Unit) (message : String) :
    Result EndpointStore AdminReply :=
  res.bind fun
    | .error text, s => .ok (.error text) s
    | .ok endpoint, s => (stats endpoint s).map fun _ => .message message

/-- A call, with the failures of the database it meets. -/
inductive Call where
  | addEndpoint (name url : String) (create : Option String)
  | removeEndpoint (name : String) (delete : Option String)
  | updateEndpoint (name url : String) (get save : Option String)
deriving DecidableEq, Repr

/-- `add_endpoint(name, url)`, `remove_endpoint(name)` and `update_endpoint(name, url)`. -/
def call : Call → Result EndpointStore AdminReply
  | .addEndpoint name url create =>
      finish (s.addEndpoint env name url create)
        (fun endpoint s => s.registerEndpointStats endpoint.name endpoint.connStats)
        s!"Added and saved configuration for endpoint '{name}'"
  | .removeEndpoint name delete =>
      finish (s.removeEndpoint env name delete)
        (fun endpoint s => s.removeEndpointStats endpoint.name)
        s!"Removed endpoint '{name}'"
  | .updateEndpoint name url get save =>
      finish (s.updateEndpoint env name url get save)
        (fun endpoint s => s.updateEndpointStats endpoint.name endpoint.connStats)
        s!"Updated endpoint '{name}' with address {url}"

end EndpointStore

end Web3Proxy
