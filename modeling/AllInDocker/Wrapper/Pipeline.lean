import AllInDocker.Wrapper.Basic

/-!
The wrapper on a network that never fails: which commands reach the server, and with which
replies they come back.

* `Server` is any deterministic server; `World` is its state together with the commands it
  has executed and the pipeline of the client in use; `answer` answers the operations of the
  client from it. How often a connection was reused is left open (`reused`).
* `exec_doCommand_direct`, `exec_doCommand_deferred` and `exec_commitPipeline` say what one
  call of the wrapper does; `session` runs a list of calls.
* The reference machine (`Ref`) is the contract of a pipeline: direct or deferred mode, and
  every commit returns to direct mode. The wrapper leaves deferred mode only when it has
  something to commit, so a command that follows an empty commit is queued instead of
  executed; `executed_eq_ref_iff` says exactly for which lists of calls this is not made up
  for later.
* `pipelined_replies_eq_direct`: the entries of a committed pipeline are the replies of the
  same commands issued directly.
-/

namespace AllInDocker

variable {σ κ : Type}

/-- A deterministic server: a command takes a state to a state and a reply. -/
abbrev Server (σ κ : Type) := σ → κ → σ × Reply

/-- Execute commands one after the other. -/
def Server.runAll (srv : Server σ κ) : σ → List κ → σ × List Reply
  | s, [] => (s, [])
  | s, c :: cs => ((srv.runAll (srv s c).1 cs).1, (srv s c).2 :: (srv.runAll (srv s c).1 cs).2)

/-- The server's state, the commands it has executed, and the commands the client in use
holds back for its pipeline. -/
structure World (σ κ : Type) where
  state : σ
  executed : List κ
  queue : List κ

/-- The answers of a client on a network that never fails. -/
def answer (srv : Server σ κ) (reused : World σ κ → ℕ) :
    (op : NetOp κ) → World σ κ → op.Ans × World σ κ
  | .new, w => (.ok (), { w with queue := [] })
  | .connect _ _ _, w => (.ok (), w)
  | .getReusedTimes, w => (.ok (reused w), w)
  | .auth _, w => (.ok (), w)
  | .command c, w =>
      ((srv w.state c).2.result,
        { w with state := (srv w.state c).1, executed := w.executed ++ [c] })
  | .initPipeline, w => ((), { w with queue := [] })
  | .pipe c, w => ((), { w with queue := w.queue ++ [c] })
  | .commitPipeline, w =>
      ((some ((srv.runAll w.state w.queue).2.map Reply.entry), none),
        ⟨(srv.runAll w.state w.queue).1, w.executed ++ w.queue, []⟩)
  | .setKeepalive _ _, w => ((), w)

/-! ### One call of the wrapper -/

section Calls

variable (srv : Server σ κ) (reused : World σ κ → ℕ)

section Client

variable {β : Type} (w : World σ κ)

@[simp] lemma exec_new (f : Except String Unit → NetProg κ Stop β) :
    (Client.new.bind f).exec (answer srv reused) w =
      (f (.ok ())).exec (answer srv reused) { w with queue := [] } := rfl

@[simp] lemma exec_connect (t : ℕ) (h : String) (p : ℕ)
    (f : Except String Unit → NetProg κ Stop β) :
    ((Client.connect t h p).bind f).exec (answer srv reused) w =
      (f (.ok ())).exec (answer srv reused) w := rfl

@[simp] lemma exec_getReusedTimes (f : Except String ℕ → NetProg κ Stop β) :
    (Client.getReusedTimes.bind f).exec (answer srv reused) w =
      (f (.ok (reused w))).exec (answer srv reused) w := rfl

@[simp] lemma exec_auth (pw : String) (f : Except String Unit → NetProg κ Stop β) :
    ((Client.auth pw).bind f).exec (answer srv reused) w =
      (f (.ok ())).exec (answer srv reused) w := rfl

@[simp] lemma exec_command (c : κ) (f : LuaVal × Option String → NetProg κ Stop β) :
    ((Client.command c).bind f).exec (answer srv reused) w =
      (f (srv w.state c).2.result).exec (answer srv reused)
        { w with state := (srv w.state c).1, executed := w.executed ++ [c] } := rfl

@[simp] lemma exec_initPipeline (f : Unit → NetProg κ Stop β) :
    (Client.initPipeline.bind f).exec (answer srv reused) w =
      (f ()).exec (answer srv reused) { w with queue := [] } := rfl

@[simp] lemma exec_pipe (c : κ) (f : Unit → NetProg κ Stop β) :
    ((Client.pipe c).bind f).exec (answer srv reused) w =
      (f ()).exec (answer srv reused) { w with queue := w.queue ++ [c] } := rfl

@[simp] lemma exec_commit (f : Option (List LuaVal) × Option String → NetProg κ Stop β) :
    (Client.commitPipeline.bind f).exec (answer srv reused) w =
      (f (some ((srv.runAll w.state w.queue).2.map Reply.entry), none)).exec (answer srv reused)
        ⟨(srv.runAll w.state w.queue).1, w.executed ++ w.queue, []⟩ := rfl

@[simp] lemma exec_setKeepalive (t n : ℕ) (f : Unit → NetProg κ Stop β) :
    ((Client.setKeepalive t n).bind f).exec (answer srv reused) w =
      (f ()).exec (answer srv reused) w := rfl

end Client

lemma exec_doAuth (self : Wrapper κ) (w : World σ κ) :
    (self.doAuth : NetProg κ Stop _).exec (answer srv reused) w = (.ok (.ok ()), w) := by
  cases h : reused w <;> simp [Wrapper.doAuth, Wrapper.connectMod, h]

/-- In direct mode a command is executed at once. -/
lemma exec_doCommand_direct {self : Wrapper κ} (hself : self.reqs = none) (c : κ)
    (w : World σ κ) :
    (self.doCommand c : NetProg κ Stop _).exec (answer srv reused) w =
      (.ok (self, directResult (srv w.state c).2),
        ⟨(srv w.state c).1, w.executed ++ [c], []⟩) := by
  rw [Wrapper.doCommand, hself]
  simp only [Wrapper.connectMod, Wrapper.setKeepaliveMod, Coro.monad_bind_eq, exec_new,
    exec_connect, Coro.exec_bind _ self.doAuth, exec_doAuth, exec_command]
  rw [directResult_eq]
  split_ifs <;> simp

/-- In deferred mode a command is appended to the queue. -/
lemma exec_doCommand_deferred {self : Wrapper κ} {reqs : List κ} (hself : self.reqs = some reqs)
    (c : κ) (w : World σ κ) :
    (self.doCommand c : NetProg κ Stop _).exec (answer srv reused) w =
      (.ok ({ self with reqs := some (reqs ++ [c]) }, .nil, none), w) := by
  rw [Wrapper.doCommand, hself]
  rfl

lemma exec_pipeAll (cs : List κ) (w : World σ κ) :
    (Wrapper.pipeAll cs : NetProg κ Stop _).exec (answer srv reused) w =
      (.ok (), { w with queue := w.queue ++ cs }) := by
  induction cs generalizing w with
  | nil => simp [Wrapper.pipeAll]
  | cons c cs ih =>
      simp only [Wrapper.pipeAll, Coro.monad_bind_eq, exec_pipe, ih, List.append_assoc,
        List.singleton_append]

/-- The table `commit_pipeline` returns for the entries the client gives it. -/
def committed (results : List LuaVal) : List LuaVal :=
  Wrapper.sweep (if isRedisNull (.table results) then [] else results)

/-- A commit without a queued command does nothing, and does not leave deferred mode. -/
lemma exec_commitPipeline_empty {self : Wrapper κ}
    (hself : self.reqs = none ∨ self.reqs = some []) (w : World σ κ) :
    (self.commitPipeline : NetProg κ Stop _).exec (answer srv reused) w =
      (.ok (self, .table [], some "no pipeline"), w) := by
  rcases hself with h | h <;> rw [Wrapper.commitPipeline, h] <;> rfl

/-- A commit with queued commands executes them in order and leaves deferred mode. -/
lemma exec_commitPipeline {self : Wrapper κ} {c : κ} {cs : List κ}
    (hself : self.reqs = some (c :: cs)) (w : World σ κ) :
    (self.commitPipeline : NetProg κ Stop _).exec (answer srv reused) w =
      (.ok ({ self with reqs := none },
          .table (committed ((srv.runAll w.state (c :: cs)).2.map Reply.entry)), none),
        ⟨(srv.runAll w.state (c :: cs)).1, w.executed ++ c :: cs, []⟩) := by
  rw [Wrapper.commitPipeline, hself]
  simp only [Wrapper.connectMod, Wrapper.setKeepaliveMod, Coro.monad_bind_eq, exec_new,
    exec_connect, Coro.exec_bind _ (Wrapper.doAuth _), exec_doAuth, exec_initPipeline,
    Coro.exec_bind _ (Wrapper.pipeAll _), exec_pipeAll, exec_commit]
  simp [committed]

end Calls

/-! ### Lists of calls -/

/-- A call of a caller on its wrapper object. -/
inductive Call (κ : Type) where
  | initPipeline
  | commitPipeline
  | command (c : κ)

section Session

variable (srv : Server σ κ) (reused : World σ κ → ℕ)

/-- Run one of the functions that use the network, and keep the object it gives back. -/
def invoke (p : NetProg κ Stop (Wrapper κ × LuaVal × Option String)) (self : Wrapper κ)
    (w : World σ κ) : (Wrapper κ × World σ κ) × LuaVal × Option String :=
  match p.exec (answer srv reused) w with
  | (.ok r, w') => ((r.1, w'), r.2)
  | (.error _, w') => ((self, w'), .nil, none)

/-- One call: the object and the world after it, and the two values it returns. -/
def callStep (x : Wrapper κ × World σ κ) :
    Call κ → (Wrapper κ × World σ κ) × LuaVal × Option String
  | .initPipeline => ((x.1.initPipeline, x.2), .nil, none)
  | .commitPipeline => invoke srv reused x.1.commitPipeline x.1 x.2
  | .command c => invoke srv reused (x.1.doCommand c) x.1 x.2

/-- The object and the world after a list of calls. -/
def session (x : Wrapper κ × World σ κ) (calls : List (Call κ)) : Wrapper κ × World σ κ :=
  calls.foldl (fun y call => (callStep srv reused y call).1) x

/-- The values a list of calls returns. -/
def sessionResults : Wrapper κ × World σ κ → List (Call κ) → List (LuaVal × Option String)
  | _, [] => []
  | x, call :: calls =>
      (callStep srv reused x call).2 :: sessionResults (callStep srv reused x call).1 calls

/-- What a call does to the queue of the object and to the list of executed commands. -/
def traceStep : Option (List κ) × List κ → Call κ → Option (List κ) × List κ
  | (_, done), .initPipeline => (some [], done)
  | (none, done), .commitPipeline => (none, done)
  | (some [], done), .commitPipeline => (some [], done)
  | (some (c :: cs), done), .commitPipeline => (none, done ++ c :: cs)
  | (none, done), .command c => (none, done ++ [c])
  | (some q, done), .command c => (some (q ++ [c]), done)

lemma callStep_trace (x : Wrapper κ × World σ κ) (call : Call κ) :
    ((callStep srv reused x call).1.1.reqs, (callStep srv reused x call).1.2.executed) =
      traceStep (x.1.reqs, x.2.executed) call := by
  obtain ⟨self, w⟩ := x
  cases call with
  | initPipeline => rfl
  | commitPipeline =>
      cases hq : self.reqs with
      | none =>
          simp [callStep, invoke, exec_commitPipeline_empty srv reused (Or.inl hq), hq, traceStep]
      | some q =>
          cases q with
          | nil =>
              simp [callStep, invoke, exec_commitPipeline_empty srv reused (Or.inr hq), hq,
                traceStep]
          | cons c cs =>
              simp [callStep, invoke, exec_commitPipeline srv reused hq, traceStep]
  | command c =>
      cases hq : self.reqs with
      | none => simp [callStep, invoke, exec_doCommand_direct srv reused hq, hq, traceStep]
      | some q => simp [callStep, invoke, exec_doCommand_deferred srv reused hq, traceStep]

lemma session_trace (x : Wrapper κ × World σ κ) (calls : List (Call κ)) :
    ((session srv reused x calls).1.reqs, (session srv reused x calls).2.executed) =
      calls.foldl traceStep (x.1.reqs, x.2.executed) := by
  induction calls generalizing x with
  | nil => rfl
  | cons call calls ih =>
      rw [session, List.foldl_cons, List.foldl_cons, ← callStep_trace srv reused]
      exact ih _

end Session

/-! ### The reference machine -/

/-- The contract of a pipeline: the queue of deferred mode (`none` in direct mode) and the
commands executed so far. -/
abbrev Ref (κ : Type) := Option (List κ) × List κ

/-- One call on the reference machine: a commit executes the queue and always returns to
direct mode. -/
def refStep : Ref κ → Call κ → Ref κ
  | (_, done), .initPipeline => (some [], done)
  | (none, done), .commitPipeline => (none, done)
  | (some q, done), .commitPipeline => (none, done ++ q)
  | (none, done), .command c => (none, done ++ [c])
  | (some q, done), .command c => (some (q ++ [c]), done)

/-- The commands the reference machine executes. -/
def refExecuted (calls : List (Call κ)) : List κ := (calls.foldl refStep (none, [])).2

/-- An empty pipeline that is committed, `a` times over again. -/
def emptyCommit (a : ℕ) : List (Call κ) :=
  Call.initPipeline :: Call.commitPipeline :: List.replicate a Call.commitPipeline

lemma emptyCommit_succ (a : ℕ) :
    (emptyCommit (a + 1) : List (Call κ)) = emptyCommit a ++ [Call.commitPipeline] := by
  simp [emptyCommit, List.replicate_succ']

/-- The calls that issue the given commands. -/
def issue (cs : List κ) : List (Call κ) := cs.map Call.command

/-- Commands issued after an empty commit, and neither committed before the next
`init_pipeline` nor before the end of the calls. -/
def Stranded (calls : List (Call κ)) : Prop :=
  ∃ pre a cs post, cs ≠ [] ∧ calls = pre ++ emptyCommit a ++ issue cs ++ post ∧
    (post = [] ∨ ∃ rest, post = Call.initPipeline :: rest)

/-- The two machines after the same calls: in step with each other; or the wrapper still in
deferred mode after an empty commit, with the commands issued since then in its queue; or
the calls already contain commands that an `init_pipeline` has thrown away. -/
def Coupled (calls : List (Call κ)) (code ref : Ref κ) : Prop :=
  (code = ref ∧ ∀ q, code.1 = some q → ∃ pre, calls = pre ++ [Call.initPipeline] ++ issue q) ∨
  (∃ pre a q, calls = pre ++ emptyCommit a ++ issue q ∧ code.1 = some q ∧
    ref = (none, code.2 ++ q)) ∨
  ∃ pre a cs post, cs ≠ [] ∧
    calls = pre ++ emptyCommit a ++ issue cs ++ Call.initPipeline :: post

lemma Coupled.step {calls : List (Call κ)} {code ref : Ref κ} (h : Coupled calls code ref)
    (call : Call κ) : Coupled (calls ++ [call]) (traceStep code call) (refStep ref call) := by
  obtain ⟨mode, done⟩ := code
  rcases h with ⟨rfl, hq⟩ | ⟨pre, a, q, rfl, hmode, rfl⟩ | ⟨pre, a, cs, post, hcs, rfl⟩
  · -- in step: only an empty commit takes the machines apart
    cases call with
    | initPipeline =>
        refine Or.inl ⟨rfl, fun q h => ⟨calls, ?_⟩⟩
        obtain rfl : [] = q := by simpa [traceStep] using h
        simp [issue]
    | commitPipeline =>
        match mode, hq with
        | none, _ => exact Or.inl ⟨rfl, fun q h => by simp [traceStep] at h⟩
        | some [], hq =>
            obtain ⟨pre, rfl⟩ := hq [] rfl
            exact Or.inr (Or.inl ⟨pre, 0, [], by simp [issue, emptyCommit], rfl, rfl⟩)
        | some (c :: cs), _ => exact Or.inl ⟨rfl, fun q h => by simp [traceStep] at h⟩
    | command c =>
        match mode, hq with
        | none, _ => exact Or.inl ⟨rfl, fun q h => by simp [traceStep] at h⟩
        | some q, hq =>
            obtain ⟨pre, rfl⟩ := hq q rfl
            refine Or.inl ⟨rfl, fun q' h => ⟨pre, ?_⟩⟩
            obtain rfl : q ++ [c] = q' := by simpa [traceStep] using h
            simp [issue]
  · -- the wrapper is left in deferred mode
    obtain rfl : mode = some q := hmode
    cases call with
    | initPipeline =>
        cases q with
        | nil =>
            refine Or.inl ⟨by simp [traceStep, refStep], fun q' h => ⟨pre ++ emptyCommit a, ?_⟩⟩
            obtain rfl : [] = q' := by simpa [traceStep] using h
            simp [issue]
        | cons c cs => exact Or.inr (Or.inr ⟨pre, a, c :: cs, [], by simp, rfl⟩)
    | commitPipeline =>
        cases q with
        | nil =>
            refine Or.inr (Or.inl ⟨pre, a + 1, [], ?_, rfl, by simp [traceStep, refStep]⟩)
            simp [issue, emptyCommit_succ]
        | cons c cs => exact Or.inl ⟨rfl, fun q' h => by simp [traceStep] at h⟩
    | command c =>
        refine Or.inr (Or.inl ⟨pre, a, q ++ [c], ?_, rfl, by simp [traceStep, refStep]⟩)
        simp [issue]
  · exact Or.inr (Or.inr ⟨pre, a, cs, post ++ [call], hcs, by simp⟩)

lemma coupled (calls : List (Call κ)) :
    Coupled calls (calls.foldl traceStep (none, [])) (calls.foldl refStep (none, [])) := by
  induction calls using List.reverseRecOn with
  | nil => exact Or.inl ⟨rfl, fun q h => by simp at h⟩
  | append_singleton calls call ih =>
      rw [List.foldl_append, List.foldl_append]
      exact ih.step call

/-- The wrapper is in the mode of the reference machine, or left in deferred mode. -/
def InMode (code ref : Ref κ) : Prop := code.1 = ref.1 ∨ (ref.1 = none ∧ code.1.isSome)

/-- The commands the wrapper holds back while the reference machine is in direct mode. -/
def held (code ref : Ref κ) : ℕ := if ref.1.isNone then (code.1.getD []).length else 0

/-- What the wrapper is behind the reference machine by, apart from what it holds back, it
never makes up for. -/
lemma behind_step {code ref : Ref κ} {d : ℕ} (hmode : InMode code ref)
    (h : code.2.length + held code ref + d ≤ ref.2.length) (call : Call κ) :
    InMode (traceStep code call) (refStep ref call) ∧
      (traceStep code call).2.length + held (traceStep code call) (refStep ref call) + d
        ≤ (refStep ref call).2.length := by
  obtain ⟨m, done⟩ := code
  obtain ⟨m', done'⟩ := ref
  cases call with
  | initPipeline =>
      refine ⟨Or.inl rfl, ?_⟩
      simp only [held, traceStep, refStep, Option.isNone_some, Bool.false_eq_true,
        if_false] at h ⊢
      omega
  | commitPipeline =>
      rcases hmode with heq | ⟨hnone, hsome⟩
      · obtain rfl : m = m' := heq
        cases m with
        | none => exact ⟨Or.inl rfl, h⟩
        | some q =>
            cases q <;> simp [held, traceStep, refStep, InMode] at h ⊢ <;> omega
      · obtain rfl : m' = none := hnone
        obtain ⟨q, rfl⟩ := Option.isSome_iff_exists.mp hsome
        cases q with
        | nil => exact ⟨Or.inr ⟨rfl, rfl⟩, h⟩
        | cons c cs =>
            simp [held, traceStep, refStep, InMode] at h ⊢
            omega
  | command c =>
      rcases hmode with heq | ⟨hnone, hsome⟩
      · obtain rfl : m = m' := heq
        cases m <;> simp [held, traceStep, refStep, InMode] at h ⊢ <;> omega
      · obtain rfl : m' = none := hnone
        obtain ⟨q, rfl⟩ := Option.isSome_iff_exists.mp hsome
        simp [held, traceStep, refStep, InMode] at h ⊢
        omega

lemma behind_run (code ref : Ref κ) (d : ℕ) (hmode : InMode code ref)
    (h : code.2.length + held code ref + d ≤ ref.2.length) (calls : List (Call κ)) :
    InMode (calls.foldl traceStep code) (calls.foldl refStep ref) ∧
      (calls.foldl traceStep code).2.length
          + held (calls.foldl traceStep code) (calls.foldl refStep ref) + d
        ≤ (calls.foldl refStep ref).2.length := by
  induction calls generalizing code ref with
  | nil => exact ⟨hmode, h⟩
  | cons call calls ih =>
      obtain ⟨hmode', h'⟩ := behind_step hmode h call
      exact ih _ _ hmode' h'

/-- After an empty commit the wrapper is in deferred mode, the reference machine is not. -/
lemma traceStep_emptyCommit (a : ℕ) (code : Ref κ) :
    (emptyCommit a).foldl traceStep code = (some [], code.2) := by
  induction a with
  | zero => rfl
  | succ a ih => rw [emptyCommit_succ, List.foldl_append, ih]; rfl

lemma refStep_emptyCommit (a : ℕ) (ref : Ref κ) :
    (emptyCommit a).foldl refStep ref = (none, ref.2) := by
  induction a with
  | zero => simp [emptyCommit, refStep]
  | succ a ih => rw [emptyCommit_succ, List.foldl_append, ih]; rfl

lemma traceStep_issue (cs q done : List κ) :
    (issue cs).foldl traceStep (some q, done) = (some (q ++ cs), done) := by
  induction cs generalizing q with
  | nil => simp [issue]
  | cons c cs ih =>
      rw [issue, List.map_cons, List.foldl_cons, traceStep]
      rw [issue] at ih
      simp [ih]

lemma refStep_issue (cs done : List κ) :
    (issue cs).foldl refStep (none, done) = (none, done ++ cs) := by
  induction cs generalizing done with
  | nil => simp [issue]
  | cons c cs ih =>
      rw [issue, List.map_cons, List.foldl_cons, refStep]
      rw [issue] at ih
      simp [ih]

/-- Stranded commands leave the wrapper behind for good. -/
lemma length_lt_of_stranded {calls : List (Call κ)} (h : Stranded calls) :
    (calls.foldl traceStep (none, [])).2.length < (refExecuted calls).length := by
  obtain ⟨pre, a, cs, post, hcs, rfl, hpost⟩ := h
  have hpos : 0 < cs.length := List.length_pos_iff.mpr hcs
  obtain ⟨-, hpre⟩ := behind_run (κ := κ) (none, []) (none, []) 0 (Or.inl rfl)
    (by simp [held]) pre
  simp only [refExecuted, List.foldl_append, traceStep_emptyCommit, refStep_emptyCommit,
    traceStep_issue, refStep_issue, List.nil_append]
  set done := (pre.foldl traceStep (none, [])).2
  set done' := (pre.foldl refStep (none, [])).2
  rcases hpost with rfl | ⟨rest, rfl⟩
  · simp only [List.foldl_nil, List.length_append]
    omega
  · obtain ⟨-, hrest⟩ := behind_run (some [], done) (some [], done' ++ cs) cs.length
      (Or.inl rfl) (by simp only [held, Option.isNone_some, List.length_append]; simp; omega) rest
    simp only [List.foldl_cons, traceStep, refStep]
    omega

/-- **The wrapper keeps the contract of a pipeline exactly when no command is stranded**:
the server executes the commands of the reference machine, in its order, if and only if the
calls contain no empty commit whose following commands are neither committed before the next
`init_pipeline` nor before the end. -/
theorem executed_eq_ref_iff (srv : Server σ κ) (reused : World σ κ → ℕ) (opts : Options)
    (s : σ) (calls : List (Call κ)) :
    (session srv reused (Wrapper.new opts, ⟨s, [], []⟩) calls).2.executed = refExecuted calls ↔
      ¬ Stranded calls := by
  have htrace := congrArg Prod.snd
    (session_trace srv reused (Wrapper.new opts, ⟨s, [], []⟩) calls)
  simp only at htrace
  rw [htrace]
  constructor
  · intro heq hstr
    have hlt := length_lt_of_stranded hstr
    have hlen := congrArg List.length heq
    simp only [Wrapper.new] at hlen
    omega
  · intro hstr
    rcases coupled calls with ⟨heq, -⟩ | ⟨pre, a, q, rfl, hq, href⟩ | ⟨pre, a, cs, post, hcs, rfl⟩
    · rw [refExecuted, ← heq]
      rfl
    · -- left in deferred mode: nothing may have been queued
      have hnil : q = [] := by
        by_contra hne
        exact hstr ⟨pre, a, q, [], hne, by simp, Or.inl rfl⟩
      subst hnil
      rw [refExecuted, href, List.append_nil]
      rfl
    · exact absurd ⟨pre, a, cs, _, hcs, rfl, Or.inr ⟨post, rfl⟩⟩ hstr

/-- An empty pipeline, committed, and then a command: the reference machine executes the
command, the wrapper does not. -/
theorem empty_commit_strands_command :
    (session (σ := Unit) (fun _ _ => ((), .null)) (fun _ => 0)
        (Wrapper.new {}, ⟨(), [], []⟩)
        [.initPipeline, .commitPipeline, .command (Command.get "k")]).2.executed ≠
      refExecuted [.initPipeline, .commitPipeline, .command (Command.get "k")] := by
  decide

end AllInDocker
