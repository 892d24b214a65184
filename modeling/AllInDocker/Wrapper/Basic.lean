import AllInDocker.Lib.Coroutine
import AllInDocker.Redis.Command

/-!
`redis.lua`, the wrapper around the client `resty.redis`.

The functions of the wrapper are coroutines over the operations of one client object
(`NetOp`), each answered as the client answers it: with a value, or with an error text in
place of `nil, err`. They are generic in the type `κ` of commands, which the wrapper passes
on untouched, and they take the wrapper object `self` and give it back changed.

* `isRedisNull`, `connectMod`, `setKeepaliveMod`, `initPipeline`, `commitPipeline`,
  `doCommand`, `doAuth`, `new` are the functions of the source under their names.
* `sweep` is the loop of `commit_pipeline` over its results: `ipairs` stops at the first
  `nil`, and the body may put one at the index it stands at.
-/

namespace AllInDocker

/-- The operations of a client object of `resty.redis`. Between `init_pipeline` and
`commit_pipeline` a command is kept by the client instead of being sent (`pipe`). -/
inductive NetOp (κ : Type) where
  | new
  | connect (timeout : ℕ) (host : String) (port : ℕ)
  | getReusedTimes
  | auth (password : String)
  | command (c : κ)
  | initPipeline
  | pipe (c : κ)
  | commitPipeline
  | setKeepalive (idle size : ℕ)
  deriving DecidableEq

/-- The answers of a client object. A command and a committed pipeline are answered with
the two values of Lua, the others with success or an error text. -/
@[reducible] def NetOp.Ans {κ : Type} : NetOp κ → Type
  | .new => Except String Unit
  | .connect _ _ _ => Except String Unit
  | .getReusedTimes => Except String ℕ
  | .auth _ => Except String Unit
  | .command _ => LuaVal × Option String
  | .initPipeline => Unit
  | .pipe _ => Unit
  | .commitPipeline => Option (List LuaVal) × Option String
  | .setKeepalive _ _ => Unit

/-- A coroutine over the operations of a client object. -/
abbrev NetProg (κ ω α : Type) := Coro (NetOp κ) NetOp.Ans ω α

/-! ### The client object -/

namespace Client

variable {κ ω : Type}

/-- `redis_c:new()`. -/
def new : NetProg κ ω (Except String Unit) := Coro.perform NetOp.new

/-- `redis:set_timeout(timeout)` and `redis:connect(host, port)`. -/
def connect (timeout : ℕ) (host : String) (port : ℕ) : NetProg κ ω (Except String Unit) :=
  Coro.perform (NetOp.connect timeout host port)

/-- `redis:get_reused_times()`. -/
def getReusedTimes : NetProg κ ω (Except String ℕ) := Coro.perform NetOp.getReusedTimes

/-- `redis:auth(password)`. -/
def auth (password : String) : NetProg κ ω (Except String Unit) :=
  Coro.perform (NetOp.auth password)

/-- `redis[cmd](redis, ...)` outside a pipeline. -/
def command (c : κ) : NetProg κ ω (LuaVal × Option String) := Coro.perform (NetOp.command c)

/-- `redis:init_pipeline()`. -/
def initPipeline : NetProg κ ω Unit := Coro.perform NetOp.initPipeline

/-- `redis[cmd](redis, ...)` inside a pipeline. -/
def pipe (c : κ) : NetProg κ ω Unit := Coro.perform (NetOp.pipe c)

/-- `redis:commit_pipeline()`. -/
def commitPipeline : NetProg κ ω (Option (List LuaVal) × Option String) :=
  Coro.perform NetOp.commitPipeline

/-- `redis:set_keepalive(idle, size)`. -/
def setKeepalive (idle size : ℕ) : NetProg κ ω Unit := Coro.perform (NetOp.setKeepalive idle size)

end Client

/-! ### The wrapper object -/

/-- The options of `new`. -/
structure Options where
  timeout : Option ℕ := none
  dbIndex : Option ℕ := none

/-- A wrapper object: `reqs` is the queue of an open pipeline, `none` when there is none.
`dbIndex` is stored and never read again. -/
structure Wrapper (κ : Type) where
  timeout : ℕ
  dbIndex : ℕ
  reqs : Option (List κ)

/-- `is_redis_null`: `nil`, `ngx.null`, and every table without an entry other than
`ngx.null`. -/
def isRedisNull : LuaVal → Bool
  | .table es => es.all fun v => match v with
      | .nil => true
      | .null => true
      | _ => false
  | .null => true
  | .nil => true
  | _ => false

/-- What `do_command` returns for a reply: `nil` and the text for an error, `nil` for a null,
the value otherwise. -/
def directResult : Reply → LuaVal × Option String
  | .error e => (.nil, some e)
  | r => (if isRedisNull r.entry then .nil else r.entry, none)

lemma directResult_of_not_error {r : Reply} (h : r.isError = false) :
    directResult r = (if isRedisNull r.entry then .nil else r.entry, none) := by
  cases r with
  | error e => exact absurd h (by simp [Reply.isError])
  | null => rfl
  | int n => rfl
  | str s => rfl
  | array rs => rfl

/-- The test of `do_command` on the two values of the client. -/
lemma directResult_eq (r : Reply) :
    directResult r = if r.result.1.isFalse || r.result.2.isSome then (.nil, r.result.2)
      else (if isRedisNull r.result.1 then .nil else r.result.1, r.result.2) := by
  cases r <;> rfl

namespace Wrapper

variable {κ ω : Type}

/-- `new(self, opts)`; the methods it installs are modelled with the scripts. -/
def new (opts : Options) : Wrapper κ where
  timeout := match opts.timeout with
    | some t => t * 1000
    | none => 1000
  dbIndex := opts.dbIndex.getD 0
  reqs := none

/-- `connect_mod(self, redis)`. -/
def connectMod (self : Wrapper κ) : NetProg κ ω (Except String Unit) :=
  Client.connect self.timeout "127.0.0.1" 6379

/-- `set_keepalive_mod(redis)`. -/
def setKeepaliveMod : NetProg κ ω Unit := Client.setKeepalive 60000 1000

/-- `do_auth(self, redis)`: connects once more, and authenticates a connection that does
not come from the pool. -/
def doAuth (self : Wrapper κ) : NetProg κ ω (Except String Unit) := do
  match ← self.connectMod with
  | .error err => return .error err
  | .ok () =>
      match ← Client.getReusedTimes with
      | .ok 0 =>
          match ← Client.auth "password" with
          | .error err => return .error err
          | .ok () => return .ok ()
      | .ok (_ + 1) => return .ok ()
      | .error err => return .error err

/-- `init_pipeline(self)`. -/
def initPipeline (self : Wrapper κ) : Wrapper κ := { self with reqs := some [] }

/-- `do_command(self, cmd, ...)`: queue the command when a pipeline is open, else send it
over a connection of its own. A failed authentication gives the empty table, every other
failure `nil`. -/
def doCommand (self : Wrapper κ) (c : κ) :
    NetProg κ ω (Wrapper κ × LuaVal × Option String) := do
  match self.reqs with
  | some reqs => return ({ self with reqs := some (reqs ++ [c]) }, .nil, none)
  | none =>
      match ← Client.new with
      | .error err => return (self, .nil, some err)
      | .ok () =>
          match ← self.connectMod with
          | .error err => return (self, .nil, some err)
          | .ok () =>
              match ← self.doAuth with
              | .error err => return (self, .table [], some err)
              | .ok () =>
                  let (result, err) ← Client.command c
                  if result.isFalse || err.isSome then return (self, .nil, err)
                  else
                    setKeepaliveMod
                    return (self, if isRedisNull result then .nil else result, err)

/-- The loop of `commit_pipeline` that hands the queued commands to the client. -/
def pipeAll : List κ → NetProg κ ω Unit
  | [] => return ()
  | c :: cs => do
      Client.pipe c
      pipeAll cs

/-- The loop of `commit_pipeline` over the results. -/
def sweep : List LuaVal → List LuaVal
  | [] => []
  | .nil :: vs => .nil :: vs
  | v :: vs => (if isRedisNull v then .nil else v) :: sweep vs

/-- `commit_pipeline(self)`. Without a queued command it returns at once and leaves `self`
as it is. -/
def commitPipeline (self : Wrapper κ) :
    NetProg κ ω (Wrapper κ × LuaVal × Option String) := do
  match self.reqs with
  | none => return (self, .table [], some "no pipeline")
  | some [] => return (self, .table [], some "no pipeline")
  | some (c :: cs) =>
      let self := { self with reqs := none }
      match ← Client.new with
      | .error err => return (self, .nil, some err)
      | .ok () =>
          match ← self.connectMod with
          | .error err => return (self, .table [], some err)
          | .ok () =>
              match ← self.doAuth with
              | .error err => return (self, .table [], some err)
              | .ok () =>
                  Client.initPipeline
                  pipeAll (c :: cs)
                  match ← Client.commitPipeline with
                  | (some results, none) =>
                      -- all replies null: the table is replaced by an empty one
                      let results := if isRedisNull (.table results) then [] else results
                      setKeepaliveMod
                      return (self, .table (sweep results), none)
                  | (_, err) => return (self, .table [], err)

end Wrapper

end AllInDocker
