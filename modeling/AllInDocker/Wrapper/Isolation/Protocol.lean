import AllInDocker.Lib.Protocol
import AllInDocker.Wrapper.Pool

/-!
The protocol of a connection of the pool: `Stage` and `lending`. A caller that obeys it sends
commands and returns its connection only where the session is fresh. `obeys_doCommand` and
`obeys_commitPipeline`: the wrapper obeys it as far as the commands themselves leave the session
fresh.
-/

namespace AllInDocker

open Coro

/-! ### The protocol of a connection -/

/-- What a caller knows of its connection: nothing; it has just connected; the connection is a
new one; its session is fresh; it is fresh and these commands wait in the client. -/
inductive Stage where
  | free
  | linked
  | raw
  | ready
  | piping (cs : List Command)

/-- What the operations may rely on, and what is known after them. -/
def lending (conf : ServerConf) : Protocol Stage (NetOp Command) NetOp.Ans where
  allow k op := match op with
    | .new => True
    | .connect _ _ _ => True
    | .getReusedTimes => k = .linked
    | .auth _ => k = .raw
    | .command c => k = .ready ∧ Session.Harmless conf c
    | .initPipeline => k = .ready
    | .pipe _ => ∃ cs, k = .piping cs
    | .commitPipeline => ∃ cs, k = .piping cs ∧ Session.HarmlessAll conf cs
    | .setKeepalive _ _ => k = .ready
  next k op := match op with
    | .new => fun _ => .free
    | .connect _ _ _ => fun a => match a with
        | .ok () => .linked
        | .error _ => .free
    | .getReusedTimes => fun a => match a with
        | .ok 0 => .raw
        | .ok (_ + 1) => .ready
        | .error _ => .free
    | .auth _ => fun a => match a with
        | .ok () => .ready
        | .error _ => .free
    | .command _ => fun a => if a.1.isFalse || a.2.isSome then .free else .ready
    | .initPipeline => fun _ => .piping []
    | .pipe c => fun _ => match k with
        | .piping cs => .piping (cs ++ [c])
        | _ => .free
    | .commitPipeline => fun a => match a with
        | (some _, none) => .ready
        | _ => .free
    | .setKeepalive _ _ => fun _ => .free

section Obeys

variable {conf : ServerConf} {α : Type}

/-- Nothing is asked of where a call ends. -/
def anywhere (_ : Stage) (_ : α) : Prop := True

lemma obeys_connectMod (self : Wrapper Command) {k : Stage}
    {f : Except String Unit → NetProg Command Stop α} {Q : Stage → α → Prop}
    (hok : Obeys (lending conf) Q .linked (f (.ok ())))
    (herr : ∀ e, Obeys (lending conf) Q .free (f (.error e))) :
    Obeys (lending conf) Q k (self.connectMod.bind f) := by
  refine obeys_perform_bind trivial fun a => ?_
  cases a with
  | ok u => exact hok
  | error e => exact herr e

/-- `do_auth` returns with a fresh session or with an error. -/
lemma obeys_doAuth (self : Wrapper Command) {k : Stage} :
    Obeys (lending conf) (fun k r => ∀ u, r = .ok u → k = .ready) k
      (self.doAuth : NetProg Command Stop _) := by
  rw [Wrapper.doAuth]
  refine obeys_connectMod self ?_ fun e _ h => (nomatch h)
  refine ⟨rfl, fun a => ?_⟩
  cases a with
  | error e => exact fun _ h => (nomatch h)
  | ok n =>
      cases n with
      | succ n => exact fun _ _ => rfl
      | zero =>
          refine ⟨rfl, fun b => ?_⟩
          cases b with
          | error e => exact fun _ h => (nomatch h)
          | ok u => exact fun _ _ => rfl

/-- `do_command` sends its command on a fresh session, and returns a connection only if it is
fresh. -/
lemma obeys_doCommand (opts : Options) {c : Command} (hc : Session.Harmless conf c) {k : Stage} :
    Obeys (lending conf) anywhere k ((Wrapper.new opts).doCommand c : NetProg Command Stop _) := by
  rw [Wrapper.doCommand]
  refine ⟨trivial, fun a => ?_⟩
  cases a with
  | error e => trivial
  | ok u =>
      refine obeys_connectMod _ (Obeys.bind (obeys_doAuth _) fun k r hr => ?_) fun e => trivial
      cases r with
      | error e => trivial
      | ok u =>
          obtain rfl := hr u rfl
          refine ⟨⟨rfl, hc⟩, fun b => ?_⟩
          obtain ⟨v, err⟩ := b
          change Obeys (lending conf) anywhere
            (if v.isFalse || err.isSome then .free else .ready)
            (if v.isFalse || err.isSome then _ else _)
          split
          · trivial
          · exact ⟨rfl, fun _ => trivial⟩

lemma obeys_pipeAll (cs ds : List Command) :
    Obeys (lending conf) (fun k _ => k = .piping (ds ++ cs)) (.piping ds)
      (Wrapper.pipeAll cs : NetProg Command Stop Unit) := by
  induction cs generalizing ds with
  | nil => simp [Wrapper.pipeAll, Obeys]
  | cons c cs ih =>
      refine ⟨⟨ds, rfl⟩, fun _ => ?_⟩
      have hih := ih (ds ++ [c])
      rw [List.append_assoc] at hih
      exact hih

/-- `commit_pipeline` does so too. -/
lemma obeys_commitPipeline (self : Wrapper Command) {cs : List Command}
    (hcs : Session.HarmlessAll conf cs) {k : Stage} :
    Obeys (lending conf) anywhere k
      (Wrapper.commitPipeline { self with reqs := some cs } : NetProg Command Stop _) := by
  cases cs with
  | nil => trivial
  | cons c cs =>
      refine ⟨trivial, fun a => ?_⟩
      cases a with
      | error e => trivial
      | ok u =>
          refine obeys_connectMod _ (Obeys.bind (obeys_doAuth _) fun k r hr => ?_)
            fun e => trivial
          cases r with
          | error e => trivial
          | ok u =>
              obtain rfl := hr u rfl
              refine ⟨rfl, fun _ => ?_⟩
              refine Obeys.bind (p := Wrapper.pipeAll (c :: cs)) (obeys_pipeAll (c :: cs) [])
                fun k _ hk => ?_
              obtain rfl := hk
              refine ⟨⟨_, rfl, hcs⟩, fun b => ?_⟩
              obtain ⟨results, err⟩ := b
              cases results with
              | none => trivial
              | some rs =>
                  cases err with
                  | some e => trivial
                  | none => exact ⟨rfl, fun _ => trivial⟩

end Obeys

end AllInDocker
