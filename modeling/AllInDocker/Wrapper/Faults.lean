import AllInDocker.Redis.Store
import AllInDocker.Wrapper.Basic

/-!
One command through the wrapper, on a network that may fail.

Every command uses a connection of its own, so a failure hits one command at one of the
points `Link` lists. `through` runs `do_command` against a server behind such a link:

* `through_up`: without a failure the command is executed, and the caller gets the reply as
  `do_command` hands it on;
* `through_store`: otherwise the command is executed only if no more than its reply is lost;
* `through_value`: and the caller gets `nil`, or the empty table when `do_auth` failed.
-/

namespace AllInDocker

/-- What the network does to one command: nothing, or it fails at one point. The number says
how often the connection has been used before, which decides whether `do_auth` sends the
password. -/
inductive Link where
  | up (reused : ℕ)
  | newFails
  | connectFails
  | authConnectFails
  | reusedTimesFails
  | authFails
  | sendFails (reused : ℕ)
  | replyLost (reused : ℕ)
  deriving DecidableEq

namespace Link

/-- The command arrives at the server. -/
def reaches : Link → Bool
  | up _ => true
  | replyLost _ => true
  | _ => false

/-- The command arrives at the server and its reply at the caller. -/
def delivers : Link → Bool
  | up _ => true
  | _ => false

lemma delivers_iff {link : Link} : link.delivers = true ↔ ∃ n, link = up n := by
  cases link <;> simp [delivers]

/-- The server behind the link, and how often the client has connected. -/
structure Wire where
  store : Store
  connects : ℕ

/-- Whether the next connect, the first by `do_command` or the second by `do_auth`,
succeeds. -/
def connectOk (link : Link) (connects : ℕ) : Bool :=
  match link, connects with
  | connectFails, 0 => false
  | authConnectFails, _ + 1 => false
  | _, _ => true

/-- The answer to `get_reused_times`. -/
def reusedTimes : Link → Except String ℕ
  | up n => .ok n
  | sendFails n => .ok n
  | replyLost n => .ok n
  | reusedTimesFails => .error "closed"
  | _ => .ok 0

/-- The answers of a client over the link. A pipeline is refused: `do_command` opens
none. -/
def answer (link : Link) (now : Time) : (op : NetOp Command) → Wire → op.Ans × Wire
  | .new, w => (if link = newFails then .error "failed to create" else .ok (), w)
  | .connect _ _ _, w =>
      (if link.connectOk w.connects then .ok () else .error "connection refused",
        { w with connects := w.connects + 1 })
  | .getReusedTimes, w => (link.reusedTimes, w)
  | .auth _, w => (if link = authFails then .error "ERR invalid password" else .ok (), w)
  | .command c, w =>
      (if link.delivers then (w.store.exec now c).2.result else (.nil, some "timeout"),
        { w with store := if link.reaches then (w.store.exec now c).1 else w.store })
  | .initPipeline, w => ((), w)
  | .pipe _, w => ((), w)
  | .commitPipeline, w => ((none, some "no pipeline"), w)
  | .setKeepalive _ _, w => ((), w)

section Client

variable {β : Type} (link : Link) (now : Time) (w : Wire)

@[simp] lemma exec_new (f : Except String Unit → NetProg Command Stop β) :
    (Client.new.bind f).exec (link.answer now) w =
      (f (if link = newFails then .error "failed to create" else .ok ())).exec
        (link.answer now) w := rfl

@[simp] lemma exec_connect (t : ℕ) (h : String) (p : ℕ)
    (f : Except String Unit → NetProg Command Stop β) :
    ((Client.connect t h p).bind f).exec (link.answer now) w =
      (f (if link.connectOk w.connects then .ok () else .error "connection refused")).exec
        (link.answer now) { w with connects := w.connects + 1 } := rfl

@[simp] lemma exec_getReusedTimes (f : Except String ℕ → NetProg Command Stop β) :
    (Client.getReusedTimes.bind f).exec (link.answer now) w =
      (f link.reusedTimes).exec (link.answer now) w := rfl

@[simp] lemma exec_auth (pw : String) (f : Except String Unit → NetProg Command Stop β) :
    ((Client.auth pw).bind f).exec (link.answer now) w =
      (f (if link = authFails then .error "ERR invalid password" else .ok ())).exec
        (link.answer now) w := rfl

@[simp] lemma exec_command (c : Command) (f : LuaVal × Option String → NetProg Command Stop β) :
    ((Client.command c).bind f).exec (link.answer now) w =
      (f (if link.delivers then (w.store.exec now c).2.result else (.nil, some "timeout"))).exec
        (link.answer now)
        { w with store := if link.reaches then (w.store.exec now c).1 else w.store } := rfl

@[simp] lemma exec_setKeepalive (t n : ℕ) (f : Unit → NetProg Command Stop β) :
    ((Client.setKeepalive t n).bind f).exec (link.answer now) w =
      (f ()).exec (link.answer now) w := rfl

end Client

end Link

/-- One command of a script through the wrapper: the store after it and the two values the
script gets. -/
def through (link : Link) (now : Time) (s : Store) (c : Command) :
    Store × LuaVal × Option String :=
  match ((Wrapper.new {}).doCommand c : NetProg Command Stop _).exec (link.answer now) ⟨s, 0⟩ with
  | (.ok r, w) => (w.store, r.2)
  | (.error _, w) => (w.store, .nil, none)

section Through

variable (now : Time) (s : Store) (c : Command)

/-- What `do_auth` answers over the link. -/
def Link.authAnswer : Link → Except String Unit
  | authConnectFails => .error "connection refused"
  | reusedTimesFails => .error "closed"
  | authFails => .error "ERR invalid password"
  | _ => .ok ()

lemma exec_doAuth_link (self : Wrapper Command) (link : Link) (n : ℕ) :
    (self.doAuth : NetProg Command Stop _).exec (link.answer now) ⟨s, n + 1⟩ =
      (.ok link.authAnswer, ⟨s, n + 2⟩) := by
  cases link with
  | up m =>
      cases m <;> simp [Wrapper.doAuth, Wrapper.connectMod, Link.connectOk, Link.reusedTimes,
        Link.authAnswer]
  | sendFails m =>
      cases m <;> simp [Wrapper.doAuth, Wrapper.connectMod, Link.connectOk, Link.reusedTimes,
        Link.authAnswer]
  | replyLost m =>
      cases m <;> simp [Wrapper.doAuth, Wrapper.connectMod, Link.connectOk, Link.reusedTimes,
        Link.authAnswer]
  | _ =>
      simp [Wrapper.doAuth, Wrapper.connectMod, Link.connectOk, Link.reusedTimes,
        Link.authAnswer]

/-- Without a failure the script gets what `do_command` makes of the reply. -/
lemma through_up (n : ℕ) :
    through (.up n) now s c = ((s.exec now c).1, directResult (s.exec now c).2) := by
  simp only [through, Wrapper.doCommand, Wrapper.new, Wrapper.connectMod,
    Wrapper.setKeepaliveMod, Coro.monad_bind_eq, Link.exec_new, Link.exec_connect,
    Coro.exec_bind _ (Wrapper.doAuth _), exec_doAuth_link, Link.connectOk, Link.authAnswer,
    Link.exec_command, Link.delivers, Link.reaches, reduceCtorEq, if_false, if_true]
  rw [directResult_eq]
  split_ifs <;> simp

/-- A command is executed exactly when it reaches the server. -/
lemma through_store (link : Link) :
    (through link now s c).1 = if link.reaches then (s.exec now c).1 else s := by
  cases link with
  | up n => rw [through_up]; rfl
  | _ =>
      simp [through, Wrapper.doCommand, Wrapper.new, Wrapper.connectMod, Link.connectOk,
        Coro.exec_bind _ (Wrapper.doAuth _), exec_doAuth_link, Link.authAnswer, Link.delivers,
        Link.reaches, LuaVal.isFalse]

/-- When the reply does not arrive the script gets `nil` or an empty table. -/
lemma through_value {link : Link} (h : link.delivers = false) :
    (through link now s c).2.1 = .nil ∨ (through link now s c).2.1 = .table [] := by
  cases link with
  | up n => simp [Link.delivers] at h
  | _ =>
      simp [through, Wrapper.doCommand, Wrapper.new, Wrapper.connectMod, Link.connectOk,
        Coro.exec_bind _ (Wrapper.doAuth _), exec_doAuth_link, Link.authAnswer, Link.delivers,
        LuaVal.isFalse]

variable {now s c}

/-- A command does nothing to other keys, whatever the network does. -/
lemma through_of_ne {k : String} (h : Store.key c ≠ some k) (link : Link) :
    (through link now s c).1 k = s k := by
  rw [through_store]
  split_ifs
  · exact Store.exec_of_ne h
  · rfl

/-- What a command does and what the script gets depends on its key only. -/
lemma through_congr {s' : Store} (h : ∀ k, Store.key c = some k → s k = s' k) (link : Link) :
    (through link now s c).2 = (through link now s' c).2 ∧
      ∀ k, s k = s' k → (through link now s c).1 k = (through link now s' c).1 k := by
  obtain ⟨hreply, hstore⟩ := @Store.exec_congr s now s' c h
  constructor
  · cases link with
    | up n => rw [through_up, through_up, hreply]
    | _ =>
        simp [through, Wrapper.doCommand, Wrapper.new, Wrapper.connectMod, Link.connectOk,
          Coro.exec_bind _ (Wrapper.doAuth _), exec_doAuth_link, Link.authAnswer, Link.delivers,
          LuaVal.isFalse]
  · intro k hk
    rw [through_store, through_store]
    split_ifs
    · exact hstore k hk
    · exact hk

end Through

end AllInDocker
