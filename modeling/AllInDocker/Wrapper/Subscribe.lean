import AllInDocker.Wrapper.Pool

/-!
`subscribe` of `redis.lua`, and what goes over the connections of the pool while others
publish.

On the wire a message is a reply like any other: the client takes whatever comes first as the
answer to what it has asked. So sending and receiving are steps of their own here, and a
connection (`Connection`) has the replies the server has sent and nobody has read yet.

* `Wrapper.subscribe` is the function of the source: it subscribes, waits for one message,
  unsubscribes and returns the connection.
* `perform` of a client object (`ClientObject`) follows `resty.redis`: subscribing marks the object,
  the confirmation that the last subscription has ended unmarks it, and `set_keepalive` refuses
  a marked one.
* `Traffic.step` is one step of any number of callers, or of the server: another client
  publishes, an idle connection is closed, or the server sends of its own accord on a
  connection that has been switched to that by a command (`MONITOR`, `SYNC`, `PSUBSCRIBE`,
  `CLIENT REPLY`).
-/

namespace AllInDocker

open Coro

/-! ### The function -/

/-- The operations of a client object, with those of a subscription. -/
inductive SubOp where
  | net (op : NetOp Command)
  | subscribe (channel : String)
  | readReply
  | unsubscribe (channel : String)

/-- Their answers. -/
@[reducible] def SubOp.Ans : SubOp → Type
  | .net op => op.Ans
  | .subscribe _ => LuaVal × Option String
  | .readReply => LuaVal × Option String
  | .unsubscribe _ => LuaVal × Option String

/-- A coroutine over these operations. -/
abbrev SubProg (α : Type) := Coro SubOp SubOp.Ans Stop α

/-- A part of the wrapper that knows nothing of subscriptions. -/
def plain {α : Type} : NetProg Command Stop α → SubProg α :=
  interp fun op => Coro.perform (SubOp.net op)

namespace Client

/-- `redis:subscribe(channel)`. -/
def subscribe (channel : String) : SubProg (LuaVal × Option String) :=
  Coro.perform (SubOp.subscribe channel)

/-- `redis:read_reply()`. -/
def readReply : SubProg (LuaVal × Option String) := Coro.perform SubOp.readReply

/-- `redis:unsubscribe(channel)`. -/
def unsubscribe (channel : String) : SubProg (LuaVal × Option String) :=
  Coro.perform (SubOp.unsubscribe channel)

end Client

/-- `subscribe(self, channel)`: the first message of the channel. What `unsubscribe` answers is
not looked at. -/
def Wrapper.subscribe (self : Wrapper Command) (channel : String) :
    SubProg (LuaVal × Option String) := do
  match ← plain Client.new with
  | .error err => return (.nil, some err)
  | .ok () =>
      match ← plain self.connectMod with
      | .error err => return (.nil, some err)
      | .ok () =>
          match ← plain self.doAuth with
          | .error err => return (.table [], some err)
          | .ok () =>
              let (res, err) ← Client.subscribe channel
              if res.isFalse then return (.nil, err)
              else
                let (res, err) ← Client.readReply
                if res.isFalse then return (.nil, err)
                else
                  let _ ← Client.unsubscribe channel
                  plain Wrapper.setKeepaliveMod
                  return (res, err)

/-! ### The connections -/

/-- A message of a channel, as it is sent. -/
def message (channel payload : String) : Reply :=
  .array [.str "message", .str channel, .str payload]

/-- The reply to `SUBSCRIBE`, with the number of channels. -/
def subscribed (channel : String) (count : ℕ) : Reply :=
  .array [.str "subscribe", .str channel, .int count]

/-- The reply to `UNSUBSCRIBE`, with the number of channels left. -/
def unsubscribed (channel : String) (count : ℕ) : Reply :=
  .array [.str "unsubscribe", .str channel, .int count]

/-- The reply says that no subscription is left. -/
def Reply.endsAll : Reply → Bool
  | array (str s :: _ :: int n :: _) => (s == "unsubscribe" || s == "punsubscribe") && n == 0
  | _ => false

/-- The server gives the command one reply, and does not send of its own accord or keep replies
back afterwards. -/
def Command.ordinary (c : Command) : Bool :=
  match c.name with
  | .psubscribe => false
  | .monitor => false
  | .sync => false
  | .client => !c.args.head?.any fun a => a.text.toLower == "reply"
  | _ => true

/-- A connection: how often it was taken from the pool, where it is, the channels it is
subscribed to, what the server has sent and nobody has read, and whether a command that is not
ordinary was executed on it. -/
structure Connection where
  reused : ℕ
  place : Place
  subs : List String
  unread : List Reply
  odd : Bool

/-- A connection that has just been opened, by caller `i`. -/
def Connection.opened (i : ℕ) : Connection := ⟨0, .held i, [], [], false⟩

/-- A message arrives at the connections that are subscribed to its channel. -/
def Connection.deliver (l : Connection) (channel payload : String) : Connection :=
  if channel ∈ l.subs then { l with unread := l.unread ++ [message channel payload] } else l

/-- What the server has done: commands of a caller with their replies, a subscription of a
caller, or a publication by anyone. -/
inductive Served where
  | executed (caller : ℕ) (cs : List Command) (rs : List Reply)
  | subscribed (caller : ℕ) (channel : String)
  | published (channel payload : String)

/-- The connections, and what the server has done, the newest first. -/
structure Network where
  connections : List Connection
  log : List Served

/-- What the callers do not decide: whether an operation fails, which idle connection is taken,
the replies to the commands that are sent, whether a subscription is accepted, what is sent for
a command that is not ordinary, and what the commands publish. -/
structure Choices where
  fails : Bool
  take : Option ℕ
  reply : ℕ → Reply
  accepts : Bool
  sends : List Reply
  publishes : List (String × String)

namespace Network

variable (w : Network) (i n : ℕ) (l : Connection) (ch : Choices)

/-- `PUBLISH`. -/
def publish (channel payload : String) : Network :=
  ⟨w.connections.map (·.deliver channel payload), .published channel payload :: w.log⟩

/-- Several publications, one after the other. -/
def publishAll (ps : List (String × String)) : Network :=
  ps.foldl (fun w p => w.publish p.1 p.2) w

/-- The server executes commands that caller `i` has sent. -/
def transfer (cs : List Command) : Network :=
  publishAll ⟨w.connections.set n (if cs.all Command.ordinary then
        { l with unread := l.unread ++ (List.range cs.length).map ch.reply }
      else { l with unread := l.unread ++ ch.sends, odd := true }),
    .executed i cs ((List.range cs.length).map ch.reply) :: w.log⟩ ch.publishes

/-- The server executes `SUBSCRIBE`, or answers something else. -/
def subscribe (channel : String) : Network :=
  if ch.accepts then
    ⟨w.connections.set n { l with
        subs := l.subs.insert channel
        unread := l.unread ++ [subscribed channel (l.subs.insert channel).length] },
      .subscribed i channel :: w.log⟩
  else { w with connections := w.connections.set n { l with unread := l.unread ++ [ch.reply 0] } }

/-- The server executes `UNSUBSCRIBE`. -/
def unsubscribe (channel : String) : Network :=
  { w with connections := w.connections.set n { l with
      subs := l.subs.erase channel
      unread := l.unread ++ [unsubscribed channel (l.subs.erase channel).length] } }

/-- The client takes what has come first. -/
def read (count : ℕ) : Network :=
  { w with connections := w.connections.set n { l with unread := l.unread.drop count } }

/-- Close the connection a caller holds. -/
def close (h : Option ℕ) : Network :=
  match h with
  | none => w
  | some n => { w with connections := w.connections.modify n fun l => { l with place := .closed } }

/-- Take an idle connection, or open a new one. -/
def connect (take : Option ℕ) : Network × ℕ :=
  match take.bind fun n => (w.connections[n]?).map fun l => (n, l) with
  | some (n, l) =>
      if l.place = .idle then
        ({ w with connections :=
            w.connections.set n { l with reused := l.reused + 1, place := .held i } }, n)
      else ({ w with connections := w.connections ++ [.opened i] }, w.connections.length)
  | none => ({ w with connections := w.connections ++ [.opened i] }, w.connections.length)

end Network

/-! ### The client object -/

/-- A client object of `resty.redis`: its connection, the mark of a subscription, the commands of
a pipeline, and whether it waits for a reply. -/
structure ClientObject where
  connection : Option ℕ
  marked : Bool
  piped : List Command
  waiting : Bool

namespace ClientObject

/-- A new object. -/
def blank : ClientObject := ⟨none, false, [], false⟩

variable (d : ClientObject) (w : Network) (ch : Choices)

/-- The connection of the object. -/
def held : Option (ℕ × Connection) :=
  d.connection.bind fun n => (w.connections[n]?).map fun l => (n, l)

/-- A command, or several: send, and in a later step take as many replies. -/
def exchange {α : Type} (failed : α) (send : ℕ → Connection → ClientObject × Network) (count : ℕ)
    (got : List Reply → ClientObject → α × ClientObject) : Option α × ClientObject × Network :=
  match d.held w with
  | none => (some failed, d, w)
  | some (n, l) =>
      if ch.fails then (some failed, { d with waiting := false }, w)
      else if d.waiting then
        if count ≤ l.unread.length then
          (some (got (l.unread.take count) { d with waiting := false }).1,
            (got (l.unread.take count) { d with waiting := false }).2,
            w.read n l count)
        else (none, d, w)
      else (none, { (send n l).1 with waiting := true }, (send n l).2)

/-- What is returned when the network fails. -/
def broken : LuaVal × Option String := (.nil, some "timeout")

/-- The reply to a single command. -/
def single (rs : List Reply) : LuaVal × Option String :=
  match rs with
  | r :: _ => r.result
  | [] => broken

/-- The reply to `AUTH`. -/
def admitted (rs : List Reply) : Except String Unit :=
  if (single rs).1.isFalse then .error "auth failed" else .ok ()

/-- The mark is taken away by the confirmation that no subscription is left. -/
def unmark (rs : List Reply) (d : ClientObject) : ClientObject :=
  { d with marked := d.marked && !rs.any Reply.endsAll }

/-- `read_reply`. -/
def readReply : Option (LuaVal × Option String) × ClientObject × Network :=
  if !d.marked then (some (.nil, some "not subscribed"), d, w)
  else
    match d.held w with
    | none => (some broken, d, w)
    | some (n, l) =>
        if ch.fails then (some broken, d, w)
        else
          match l.unread with
          | [] => (none, d, w)
          | r :: _ => (some r.result, unmark [r] d, w.read n l 1)

/-- `set_keepalive`. -/
def setKeepalive : Option Unit × ClientObject × Network :=
  if d.marked then (some (), d, w)
  else if ch.fails then (some (), blank, w.close d.connection)
  else
    match d.connection with
    | some n => (some (), blank,
        { w with connections := w.connections.modify n fun l => { l with place := .idle } })
    | none => (some (), d, w)

/-- The next step of an operation of caller `i`, with its answer when it is complete. -/
def perform (i : ℕ) : (op : SubOp) → ClientObject × Network → Option op.Ans × ClientObject × Network
  | .net .new, (_, w) =>
      (some (if ch.fails then .error "failed to create" else .ok ()), blank, w)
  | .net (.connect _ _ _), (d, w) =>
      if ch.fails then (some (.error "connection refused"), blank, w.close d.connection)
      else (some (.ok ()),
        { blank with connection := some ((w.close d.connection).connect i ch.take).2 },
        ((w.close d.connection).connect i ch.take).1)
  | .net .getReusedTimes, (d, w) =>
      match d.held w with
      | some (_, l) => (some (if ch.fails then .error "closed" else .ok l.reused), d, w)
      | none => (some (.error "not initialized"), d, w)
  | .net (.auth password), (d, w) =>
      d.exchange w ch (.error "timeout")
        (fun n l => (d, w.transfer i n l ch [⟨.auth, [.str password]⟩])) 1
        fun rs d => (admitted rs, d)
  | .net (.command c), (d, w) =>
      d.exchange w ch broken
        (fun n l => ({ d with marked := d.marked || c.name = .psubscribe },
          w.transfer i n l ch [c])) 1
        fun rs d => (single rs, d)
  | .net .initPipeline, (d, w) => (some (), { d with piped := [] }, w)
  | .net (.pipe c), (d, w) =>
      (some (), { d with
        piped := d.piped ++ [c], marked := d.marked || c.name = .psubscribe }, w)
  | .net .commitPipeline, (d, w) =>
      d.exchange w ch (none, some "timeout")
        (fun n l => (d, w.transfer i n l ch d.piped)) d.piped.length
        fun rs d => ((some (rs.map Reply.entry), none), { d with piped := [] })
  | .net (.setKeepalive _ _), (d, w) => d.setKeepalive w ch
  | .subscribe channel, (d, w) =>
      d.exchange w ch broken
        (fun n l => ({ d with marked := true }, w.subscribe i n l ch channel)) 1
        fun rs d => (single rs, d)
  | .readReply, (d, w) => d.readReply w ch
  | .unsubscribe channel, (d, w) =>
      d.exchange w ch broken (fun n l => (d, w.unsubscribe n l channel)) 1
        fun rs d => (single rs, unmark rs d)

end ClientObject

/-! ### Any number of calls -/

/-- A call on a wrapper object that talks to the server. -/
inductive WireCall where
  | direct (c : Command)
  | pipeline (cs : List Command)
  | subscribe (channel : String)

/-- What the wrapper object does for a call. -/
def WireCall.prog (opts : Options) : WireCall → SubProg (LuaVal × Option String)
  | direct c => (plain ((Wrapper.new opts).doCommand c)).bind fun r => ret r.2
  | pipeline cs =>
      (plain (Wrapper.commitPipeline
        { (Wrapper.new opts : Wrapper Command) with reqs := some cs })).bind fun r => ret r.2
  | subscribe channel => (Wrapper.new opts).subscribe channel

/-- A call in progress. -/
structure WireCaller where
  job : WireCall
  object : ClientObject
  prog : SubProg (LuaVal × Option String)

/-- What is left after a step of an operation: the rest, once it is complete. -/
def resume {α : Type} (op : SubOp) (f : op.Ans → SubProg α) : Option op.Ans → SubProg α
  | some a => f a
  | none => .call op f

/-- The connections and the calls. -/
structure Traffic where
  network : Network
  callers : List WireCaller

/-- A call begins, a caller goes one step further, another client publishes, the server sends of
its own accord where it has been told to, or an idle connection is closed. -/
inductive TrafficAct where
  | call (opts : Options) (job : WireCall)
  | step (i : ℕ) (ch : Choices)
  | publish (channel payload : String)
  | send (n : ℕ) (rs : List Reply)
  | drop (n : ℕ)

namespace Traffic

/-- No connections and no calls. -/
def init : Traffic := ⟨⟨[], []⟩, []⟩

/-- One action. -/
def step (σ : Traffic) : TrafficAct → Traffic
  | .call opts job => { σ with callers := σ.callers ++ [⟨job, .blank, job.prog opts⟩] }
  | .step i ch =>
      match σ.callers[i]? with
      | some ⟨job, d, .call op f⟩ =>
          let r := ClientObject.perform ch i op (d, σ.network)
          ⟨r.2.2, σ.callers.set i ⟨job, r.2.1, resume op f r.1⟩⟩
      | _ => σ
  | .publish channel payload => { σ with network := σ.network.publish channel payload }
  | .send n rs =>
      { σ with network := { σ.network with connections := σ.network.connections.modify n fun l =>
          if l.odd then { l with unread := l.unread ++ rs } else l } }
  | .drop n =>
      { σ with network := { σ.network with connections := σ.network.connections.modify n fun l =>
          if l.place = .idle then { l with place := .closed } else l } }

/-- A list of actions, from the beginning. -/
def run (acts : List TrafficAct) : Traffic := acts.foldl step init

end Traffic

end AllInDocker
