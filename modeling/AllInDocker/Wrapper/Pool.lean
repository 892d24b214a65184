import AllInDocker.Redis.Session
import AllInDocker.Wrapper.Basic

/-!
Any number of wrapper objects on one pool of connections.

A caller is a direct command or a committed pipeline; what is left of it is the coroutine of
`do_command` or `commit_pipeline`, and it holds at most one connection. `Pool.step` performs
one operation of one caller, with a `Choice` for everything the callers do not decide: which
idle connection `connect` takes, what fails, what the server answers. The log records the
session on which each direct command, and the first command of each pipeline, was executed.
-/

namespace AllInDocker

open Coro

/-! ### The pool -/

/-- Where a connection is. -/
inductive Place where
  | idle
  | held (i : ℕ)
  | closed
  deriving DecidableEq

/-- A connection: its session on the server, how often it was taken from the pool, where it
is, and whether the server has hung up. -/
structure Conn where
  session : Session
  reused : ℕ
  place : Place
  hungUp : Bool

/-- A command was executed: by which caller, and in which session. -/
structure Executed where
  caller : ℕ
  session : Session

/-- The connections and the log. -/
structure Shared where
  conns : List Conn
  log : List Executed

/-- What the client object of a caller holds: its connection and the commands of a pipeline. -/
structure Hands where
  conn : Option ℕ
  piped : List Command

/-- What the callers do not decide: whether an operation fails, which idle connection is
taken, how many commands of a failed transfer were executed all the same, and the server. -/
structure Choice where
  fails : Bool
  take : Option ℕ
  executed : ℕ
  oracle : ℕ → Oracle

namespace Shared

variable (conf : ServerConf) (i : ℕ)

/-- Close the connection a caller holds. -/
def close (w : Shared) (h : Option ℕ) : Shared :=
  match h with
  | none => w
  | some h => { w with conns := w.conns.modify h fun c => { c with place := .closed } }

/-- Take an idle connection, or open a new one. -/
def connect (w : Shared) (take : Option ℕ) : Shared × ℕ :=
  match take.bind fun h => (w.conns[h]?).map fun c => (h, c) with
  | some (h, c) =>
      if c.place = .idle then
        ({ w with conns := w.conns.set h { c with reused := c.reused + 1, place := .held i } }, h)
      else ({ w with conns := w.conns ++ [⟨.connected conf, 0, .held i, false⟩] },
        w.conns.length)
  | none => ({ w with conns := w.conns ++ [⟨.connected conf, 0, .held i, false⟩] },
      w.conns.length)

/-- Execute commands on a connection; the session before the first of them is logged. -/
def execute (w : Shared) (h : ℕ) (c : Conn) (o : ℕ → Oracle) (cs : List Command) :
    Shared × List Reply :=
  (⟨w.conns.set h { c with
      session := (c.session.processAll conf o cs).1
      hungUp := cs.any fun c => c.name = .quit },
    if cs.isEmpty then w.log else ⟨i, c.session⟩ :: w.log⟩,
    (c.session.processAll conf o cs).2)

end Shared

/-- One operation of caller `i`. -/
def perform (conf : ServerConf) (i : ℕ) (ch : Choice) :
    (op : NetOp Command) → Hands × Shared → op.Ans × Hands × Shared
  | .new, (_, w) => (if ch.fails then .error "failed to create" else .ok (), ⟨none, []⟩, w)
  | .connect _ _ _, (h, w) =>
      if ch.fails then (.error "connection refused", ⟨none, []⟩, w.close h.conn)
      else (.ok (), ⟨some ((w.close h.conn).connect conf i ch.take).2, []⟩,
        ((w.close h.conn).connect conf i ch.take).1)
  | .getReusedTimes, (h, w) =>
      match h.conn.bind fun n => w.conns[n]? with
      | some c => (if ch.fails then .error "closed" else .ok c.reused, h, w)
      | none => (.error "not initialized", h, w)
  | .auth password, (h, w) =>
      match h.conn.bind fun n => (w.conns[n]?).map fun c => (n, c) with
      | some (n, c) =>
          let (s, r) := c.session.auth conf password
          (if ch.fails || c.hungUp || r.isError then .error "auth failed" else .ok (), h,
            { w with conns := w.conns.set n { c with session := s } })
      | none => (.error "not initialized", h, w)
  | .command cmd, (h, w) =>
      match h.conn.bind fun n => (w.conns[n]?).map fun c => (n, c) with
      | some (n, c) =>
          if c.hungUp || (ch.fails && ch.executed == 0) then ((.nil, some "closed"), h, w)
          else
            let (w', rs) := w.execute conf i n c ch.oracle [cmd]
            (match ch.fails, rs with
              | false, r :: _ => r.result
              | _, _ => (.nil, some "closed"), h, w')
      | none => ((.nil, some "not initialized"), h, w)
  | .initPipeline, (h, w) => ((), { h with piped := [] }, w)
  | .pipe cmd, (h, w) => ((), { h with piped := h.piped ++ [cmd] }, w)
  | .commitPipeline, (h, w) =>
      match h.conn.bind fun n => (w.conns[n]?).map fun c => (n, c) with
      | some (n, c) =>
          if c.hungUp then ((none, some "closed"), h, w)
          else if ch.fails then
            ((none, some "closed"), h,
              (w.execute conf i n c ch.oracle (h.piped.take ch.executed)).1)
          else
            let (w', rs) := w.execute conf i n c ch.oracle h.piped
            (if rs.length = h.piped.length then (some (rs.map Reply.entry), none)
              else (none, some "closed"), { h with piped := [] }, w')
      | none => ((none, some "not initialized"), h, w)
  | .setKeepalive _ _, (h, w) =>
      if ch.fails then ((), ⟨none, []⟩, w.close h.conn)
      else
        match h.conn with
        | some n =>
            ((), ⟨none, []⟩,
              { w with conns := w.conns.modify n fun c => { c with place := .idle } })
        | none => ((), h, w)

/-- A call on a wrapper object that talks to the server. -/
inductive PoolCall where
  | direct (c : Command)
  | pipeline (cs : List Command)

/-- What the wrapper object does for a call. A pipeline is committed with the commands that
have been queued. -/
def PoolCall.prog (opts : Options) :
    PoolCall → NetProg Command Stop (Wrapper Command × LuaVal × Option String)
  | direct c => (Wrapper.new opts).doCommand c
  | pipeline cs =>
      Wrapper.commitPipeline { (Wrapper.new opts : Wrapper Command) with reqs := some cs }

/-- A call in progress. -/
structure Caller where
  hands : Hands
  prog : NetProg Command Stop (Wrapper Command × LuaVal × Option String)

/-- The state of the pool and its callers. -/
structure Pool where
  shared : Shared
  callers : List Caller

/-- A call begins, a caller performs its next operation, or an idle connection is closed. -/
inductive PoolAct where
  | call (opts : Options) (job : PoolCall)
  | step (i : ℕ) (ch : Choice)
  | drop (n : ℕ)

namespace Pool

/-- No connections and no calls. -/
def init : Pool := ⟨⟨[], []⟩, []⟩

/-- One action. -/
def step (conf : ServerConf) (σ : Pool) : PoolAct → Pool
  | .call opts job => { σ with callers := σ.callers ++ [⟨⟨none, []⟩, job.prog opts⟩] }
  | .drop n =>
      match σ.shared.conns[n]? with
      | some c =>
          if c.place = .idle then { σ with shared := σ.shared.close (some n) } else σ
      | none => σ
  | .step i ch =>
      match σ.callers[i]? with
      | some ⟨hands, .call op f⟩ =>
          let r := perform conf i ch op (hands, σ.shared)
          ⟨r.2.2, σ.callers.set i ⟨r.2.1, f r.1⟩⟩
      | _ => σ

/-- A list of actions, from the empty pool on. -/
def run (conf : ServerConf) (acts : List PoolAct) : Pool := acts.foldl (step conf) init

/-- Every direct command, and the first command of every pipeline, was executed on a
connection as good as new. -/
def Isolated (σ : Pool) : Prop := ∀ x ∈ σ.shared.log, x.session = Session.fresh

instance (σ : Pool) : Decidable σ.Isolated :=
  inferInstanceAs (Decidable (∀ x ∈ σ.shared.log, x.session = Session.fresh))

end Pool

/-- The call leaves a fresh session fresh, if its connection goes back to the pool. -/
def PoolCall.Harmless (conf : ServerConf) : PoolCall → Prop
  | direct c => Session.Harmless conf c
  | pipeline cs => Session.HarmlessAll conf cs

end AllInDocker
