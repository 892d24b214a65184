import AllInDocker.Redis.Command

/-!
The part of a Redis 5.0 server that belongs to one connection: whether it is authenticated,
the database it has selected, an open `MULTI` with the commands queued in it, and whether it
watches keys.

`Session.process` is the dispatch of one command. What the key space answers is left open by
an `Oracle`, and the arities of the commands by the configuration; only the commands that
touch the session are followed.

`Harmless` and `HarmlessAll` say of a command, and of a pipeline of commands, that a fresh
session is still fresh afterwards.
-/

namespace AllInDocker

/-- What the server was started with. -/
structure ServerConf where
  requirepass : Option String
  databases : ℕ
  arityOk : Command → Bool

/-- What the rest of the server has to say to a command: whether a watched key has been
touched, and what the key space answers. -/
structure Oracle where
  touched : Bool
  reply : Command → Reply

/-- An open `MULTI`: the queued commands, and whether one was refused. -/
structure Txn where
  queue : List Command
  aborted : Bool
  deriving DecidableEq

/-- The state of a connection on the server. -/
structure Session where
  authed : Bool
  db : ℕ
  txn : Option Txn
  watching : Bool
  deriving DecidableEq

/-- An argument as it goes over the wire. -/
def Arg.text : Arg → String
  | str s => s
  | num n => toString n

/-- The integer an argument is the numeral of. -/
def Arg.int? : Arg → Option ℤ
  | num n => some n
  | str s =>
      match s.toInt? with
      | some n => if toString n = s then some n else none
      | none => none

/-- The arity of the commands that touch the session; the others by the configuration. -/
def Command.wellFormed (conf : ServerConf) (c : Command) : Bool :=
  match c.name with
  | .multi => c.args.isEmpty
  | .exec => c.args.isEmpty
  | .discard => c.args.isEmpty
  | .unwatch => c.args.isEmpty
  | .auth => c.args.length == 1
  | .select => c.args.length == 1
  | .watch => !c.args.isEmpty
  | _ => conf.arityOk c

namespace Session

/-- A connection that has just been opened. -/
def connected (conf : ServerConf) : Session := ⟨conf.requirepass.isNone, 0, none, false⟩

/-- A connection that has been opened and authenticated. -/
def fresh : Session := ⟨true, 0, none, false⟩

/-- A refused command spoils an open `MULTI`. -/
def flag (s : Session) : Session :=
  { s with txn := s.txn.map fun t => { t with aborted := true } }

/-- The end of a `MULTI`. -/
def endTxn (s : Session) : Session := { s with txn := none, watching := false }

/-- `AUTH`: a wrong password takes the authentication away. -/
def auth (conf : ServerConf) (s : Session) (password : String) : Session × Reply :=
  match conf.requirepass with
  | none => (s, .error "ERR Client sent AUTH, but no password is set")
  | some p =>
      if password = p then ({ s with authed := true }, .str "OK")
      else ({ s with authed := false }, .error "ERR invalid password")

/-- `SELECT`. -/
def select (conf : ServerConf) (s : Session) (index : Option ℤ) : Session × Reply :=
  match index with
  | none => (s, .error "ERR invalid DB index")
  | some n =>
      if 0 ≤ n ∧ n < conf.databases then ({ s with db := n.toNat }, .str "OK")
      else (s, .error "ERR DB index is out of range")

/-- Execute a command that is not queued, other than `EXEC`. -/
def call (conf : ServerConf) (o : Oracle) (s : Session) (c : Command) : Session × Reply :=
  match c.name, c.args with
  | .auth, [a] => s.auth conf a.text
  | .select, [a] => s.select conf a.int?
  | .watch, _ => ({ s with watching := true }, .str "OK")
  | .unwatch, _ => ({ s with watching := false }, .str "OK")
  | .multi, _ =>
      match s.txn with
      | none => ({ s with txn := some ⟨[], false⟩ }, .str "OK")
      | some _ => (s, .error "ERR MULTI calls can not be nested")
  | .discard, _ =>
      match s.txn with
      | none => (s, .error "ERR DISCARD without MULTI")
      | some _ => (s.endTxn, .str "OK")
  | .exec, _ => (s, .error "ERR EXEC without MULTI")
  | _, _ => (s, o.reply c)

/-- Execute the queue of a `MULTI`. -/
def runQueue (conf : ServerConf) (o : Oracle) : Session → List Command → Session × List Reply
  | s, [] => (s, [])
  | s, c :: cs =>
      let (s', r) := s.call conf o c
      let (s'', rs) := runQueue conf o s' cs
      (s'', r :: rs)

/-- `EXEC` with an open `MULTI`. -/
def exec (conf : ServerConf) (o : Oracle) (s : Session) (t : Txn) : Session × Reply :=
  if t.aborted then
    (s.endTxn, .error "EXECABORT Transaction discarded because of previous errors.")
  else if s.watching && o.touched then (s.endTxn, .null)
  else
    let (s', rs) := s.runQueue conf o t.queue
    (s'.endTxn, .array rs)

/-- The dispatch of a command other than `QUIT`. -/
def process (conf : ServerConf) (o : Oracle) (s : Session) (c : Command) : Session × Reply :=
  if !c.wellFormed conf then (s.flag, .error "ERR wrong number of arguments")
  else if conf.requirepass.isSome && !s.authed && c.name != .auth then
    (s.flag, .error "NOAUTH Authentication required.")
  else
    match s.txn with
    | none => s.call conf o c
    | some t =>
        match c.name with
        | .exec => s.exec conf o t
        | .discard => s.call conf o c
        | .multi => s.call conf o c
        | .watch => (s, .error "ERR WATCH inside MULTI is not allowed")
        | _ => ({ s with txn := some { t with queue := t.queue ++ [c] } }, .str "QUEUED")

/-- Commands sent one after the other; after `QUIT` the server hangs up. -/
def processAll (conf : ServerConf) : (ℕ → Oracle) → Session → List Command → Session × List Reply
  | _, s, [] => (s, [])
  | o, s, c :: cs =>
      if c.name = .quit then (s, [.str "OK"])
      else
        let (s', r) := s.process conf (o 0) c
        let (s'', rs) := processAll conf (fun n => o (n + 1)) s' cs
        (s'', r :: rs)

/-- Unless it is answered with an error, the command leaves a fresh session fresh. -/
def Harmless (conf : ServerConf) (c : Command) : Prop :=
  c.name = .quit ∨ ∀ o, (fresh.process conf o c).2.isError = false →
    (fresh.process conf o c).1 = fresh

/-- The pipeline leaves a fresh session fresh. -/
def HarmlessAll (conf : ServerConf) (cs : List Command) : Prop :=
  ∀ o, (fresh.processAll conf o cs).1 = fresh

end Session

end AllInDocker
