import AllInDocker.Lib.Protocol
import AllInDocker.Wrapper.Subscribe

/-!
The protocol of a connection in a call: `CallStage` is what a caller knows of what is on it, and
of its result. `answering` says which operations the stage allows and which stage follows, and
the functions of `redis.lua` keep to it (`WireCall.Ordinary.obeys`).
-/

namespace AllInDocker

open Coro

/-! ### What the answers should be -/

/-- The messages published on a channel since caller `i` has subscribed to it, the oldest
first. -/
def heard (i : ℕ) (channel : String) : List Served → Option (List String)
  | [] => none
  | .executed _ _ _ :: log => heard i channel log
  | .subscribed j c :: log => if j = i ∧ c = channel then some [] else heard i channel log
  | .published c m :: log =>
      (heard i channel log).map fun ms => if c = channel then ms ++ [m] else ms

/-- What a call should return. -/
def Answered (log : List Served) (i : ℕ) : WireCall → LuaVal → Prop
  | .direct c, v => ∃ r, .executed i [c] [r] ∈ log ∧ directResult r = (v, none)
  | .pipeline cs, v => ∃ rs, .executed i cs rs ∈ log ∧ rs.length = cs.length ∧
      v = .table (Wrapper.sweep (if isRedisNull (.table (rs.map Reply.entry)) then []
        else rs.map Reply.entry))
  | .subscribe channel, v => ∃ m ms, heard i channel log = some (m :: ms) ∧
      v = .table [.str "message", .str channel, .str m]

/-- All commands of the call are ordinary. -/
def WireCall.Ordinary : WireCall → Prop
  | direct c => c.ordinary = true
  | pipeline cs => ∀ c ∈ cs, c.ordinary = true
  | subscribe _ => True

/-! ### The protocol of a connection -/

/-- What a caller knows of its result: nothing, that it has an error to return, or the values it
has got. -/
inductive Known where
  | nothing
  | failed (err : Option String)
  | reply (c : Command) (v : LuaVal)
  | replies (cs : List Command) (vs : List LuaVal)
  | first (channel : String) (v : LuaVal)

/-- What a caller knows of its connection: nothing; there is nothing on it; these commands wait
in the client; it is subscribed; it is subscribed and the first message has been read; it is
subscribed no longer, but messages may be left. -/
inductive CallStage where
  | free (a : Known)
  | clean (a : Known)
  | piping (cs : List Command)
  | listening (channel : String)
  | first (channel : String) (v : LuaVal)
  | leaving (channel : String) (v : LuaVal)

/-- What the operations may rely on, and what is known after them. -/
def answering : Protocol CallStage SubOp SubOp.Ans where
  allow k op := match op with
    | .net .new => True
    | .net (.connect _ _ _) => True
    | .net .getReusedTimes => k = .clean .nothing
    | .net (.auth _) => k = .clean .nothing
    | .net (.command c) => k = .clean .nothing ∧ c.ordinary = true
    | .net .initPipeline => k = .clean .nothing
    | .net (.pipe c) => c.ordinary = true ∧ ∃ cs, k = .piping cs
    | .net .commitPipeline => ∃ cs, k = .piping cs ∧ ∀ c ∈ cs, c.ordinary = true
    | .net (.setKeepalive _ _) => (∃ a, k = .clean a) ∨ ∃ channel v, k = .leaving channel v
    | .subscribe _ => k = .clean .nothing
    | .readReply => ∃ channel, k = .listening channel
    | .unsubscribe channel => ∃ v, k = .first channel v
  next k op := match op with
    | .net .new => fun _ => .free .nothing
    | .net (.connect _ _ _) => fun a => match a with
        | .ok () => .clean .nothing
        | .error _ => .free .nothing
    | .net .getReusedTimes => fun a => match a with
        | .ok _ => .clean .nothing
        | .error _ => .free .nothing
    | .net (.auth _) => fun a => match a with
        | .ok () => .clean .nothing
        | .error _ => .free .nothing
    | .net (.command c) => fun a =>
        if a.1.isFalse || a.2.isSome then .free (.failed a.2) else .clean (.reply c a.1)
    | .net .initPipeline => fun _ => .piping []
    | .net (.pipe c) => fun _ => match k with
        | .piping cs => .piping (cs ++ [c])
        | _ => .free .nothing
    | .net .commitPipeline => fun a => match k, a with
        | .piping cs, (some vs, none) => .clean (.replies cs vs)
        | _, (_, err) => .free (.failed err)
    | .net (.setKeepalive _ _) => fun _ => match k with
        | .clean a => .free a
        | .leaving channel v => .free (.first channel v)
        | _ => .free .nothing
    | .subscribe channel => fun a =>
        if a.1.isFalse then .free (.failed a.2) else .listening channel
    | .readReply => fun a => match k with
        | .listening channel =>
            if a.1.isFalse then .free (.failed a.2) else .first channel a.1
        | _ => .free .nothing
    | .unsubscribe channel => fun _ => match k with
        | .first _ v => .leaving channel v
        | _ => .free .nothing

/-- What a caller knows when it returns a value and no error. -/
def Ends : WireCall → CallStage → LuaVal × Option String → Prop
  | .direct c, k, r => r.2 = none → k = .free (.failed none) ∨
      ∃ v, k = .free (.reply c v) ∧ r.1 = if isRedisNull v then .nil else v
  | .pipeline cs, k, r => r.2 = none → k = .free (.failed none) ∨
      ∃ vs, k = .free (.replies cs vs) ∧
        r.1 = .table (Wrapper.sweep (if isRedisNull (.table vs) then [] else vs))
  | .subscribe channel, k, r => r.2 = none → k = .free (.failed none) ∨
      k = .free (.first channel r.1)

/-- The part of the protocol without subscriptions. -/
def answeringPlain : Protocol CallStage (NetOp Command) NetOp.Ans where
  allow k op := answering.allow k (.net op)
  next k op a := answering.next k (.net op) a

section Obeys

variable {α : Type} {k : CallStage}

lemma obeys_plain {Q : CallStage → α → Prop} {p : NetProg Command Stop α}
    (hp : Obeys answeringPlain Q k p) : Obeys answering Q k (plain p) := by
  unfold plain
  refine Obeys.interp (fun k op hop => ?_) hp
  exact ⟨hop, fun a => rfl⟩

/-- `do_auth` returns with nothing on the connection, or with an error. -/
lemma doAuth_obeys (self : Wrapper Command) :
    Obeys answeringPlain (fun k r => ∀ u, r = .ok u → k = .clean .nothing) k
      (self.doAuth : NetProg Command Stop _) := by
  rw [Wrapper.doAuth]
  refine ⟨trivial, fun a => ?_⟩
  cases a with
  | error e => exact fun _ h => by cases h
  | ok u =>
      refine ⟨rfl, fun b => ?_⟩
      cases b with
      | error e => exact fun _ h => by cases h
      | ok n =>
          cases n with
          | succ n => exact fun _ _ => rfl
          | zero =>
              refine ⟨rfl, fun c => ?_⟩
              cases c with
              | error e => exact fun _ h => by cases h
              | ok u => exact fun _ _ => rfl

/-- `do_command` keeps to the protocol. -/
lemma doCommand_obeys (opts : Options) {c : Command} (hc : c.ordinary = true) :
    Obeys answeringPlain (fun k r => Ends (.direct c) k r.2) k
      ((Wrapper.new opts).doCommand c : NetProg Command Stop _) := by
  rw [Wrapper.doCommand]
  refine ⟨trivial, fun a => ?_⟩
  cases a with
  | error e => exact fun h => by cases h
  | ok u =>
      refine ⟨trivial, fun b => ?_⟩
      cases b with
      | error e => exact fun h => by cases h
      | ok u =>
          refine (doAuth_obeys _).bind fun k r hr => ?_
          cases r with
          | error e => exact fun h => by cases h
          | ok u =>
              obtain rfl := hr u rfl
              refine ⟨⟨rfl, hc⟩, fun d => ?_⟩
              obtain ⟨v, err⟩ := d
              change Obeys answeringPlain _
                (if v.isFalse || err.isSome then .free (.failed err) else .clean (.reply c v))
                (if v.isFalse || err.isSome then _ else _)
              split
              · rintro (rfl : err = none)
                exact Or.inl rfl
              · exact ⟨Or.inl ⟨_, rfl⟩, fun _ _ => Or.inr ⟨v, rfl, rfl⟩⟩

lemma pipeAll_obeys {cs : List Command} (hcs : ∀ c ∈ cs, c.ordinary = true) (ds : List Command) :
    Obeys answeringPlain (fun k _ => k = .piping (ds ++ cs)) (.piping ds)
      (Wrapper.pipeAll cs : NetProg Command Stop Unit) := by
  induction cs generalizing ds with
  | nil => simp [Wrapper.pipeAll, Obeys]
  | cons c cs ih =>
      refine ⟨⟨hcs c (by simp), ds, rfl⟩, fun _ => ?_⟩
      have hih := ih (fun d hd => hcs d (by simp [hd])) (ds ++ [c])
      rw [List.append_assoc] at hih
      exact hih

/-- `commit_pipeline` keeps to it. -/
lemma commitPipeline_obeys (self : Wrapper Command) {cs : List Command}
    (hcs : ∀ c ∈ cs, c.ordinary = true) :
    Obeys answeringPlain (fun k r => Ends (.pipeline cs) k r.2) k
      (Wrapper.commitPipeline { self with reqs := some cs } : NetProg Command Stop _) := by
  cases cs with
  | nil => exact fun h => by cases h
  | cons c cs =>
      refine ⟨trivial, fun a => ?_⟩
      cases a with
      | error e => exact fun h => by cases h
      | ok u =>
          refine ⟨trivial, fun b => ?_⟩
          cases b with
          | error e => exact fun h => by cases h
          | ok u =>
              refine (doAuth_obeys _).bind fun k r hr => ?_
              cases r with
              | error e => exact fun h => by cases h
              | ok u =>
                  obtain rfl := hr u rfl
                  refine ⟨rfl, fun _ => ?_⟩
                  refine Obeys.bind (p := Wrapper.pipeAll (c :: cs)) (pipeAll_obeys hcs [])
                    fun k _ hk => ?_
                  obtain rfl := hk
                  refine ⟨⟨_, rfl, hcs⟩, fun d => ?_⟩
                  obtain ⟨results, err⟩ := d
                  cases results with
                  | none =>
                      rintro (rfl : err = none)
                      exact Or.inl rfl
                  | some vs =>
                      cases err with
                      | some e => exact fun h => by cases h
                      | none =>
                          exact ⟨Or.inl ⟨_, rfl⟩, fun _ _ => Or.inr ⟨vs, rfl, rfl⟩⟩

/-- `subscribe` keeps to it. -/
lemma subscribe_obeys (self : Wrapper Command) (channel : String) :
    Obeys answering (Ends (.subscribe channel)) k (self.subscribe channel) := by
  rw [Wrapper.subscribe]
  refine ⟨trivial, fun a => ?_⟩
  cases a with
  | error e => exact fun h => by cases h
  | ok u =>
      refine ⟨trivial, fun b => ?_⟩
      cases b with
      | error e => exact fun h => by cases h
      | ok u =>
          refine (obeys_plain (doAuth_obeys _)).bind fun k r hr => ?_
          cases r with
          | error e => exact fun h => by cases h
          | ok u =>
              obtain rfl := hr u rfl
              refine ⟨rfl, fun d => ?_⟩
              obtain ⟨res, err⟩ := d
              change Obeys answering _
                (if res.isFalse then .free (.failed err) else .listening channel)
                (if res.isFalse then _ else _)
              split
              · rintro (rfl : err = none)
                exact Or.inl rfl
              · refine ⟨⟨channel, rfl⟩, fun d' => ?_⟩
                obtain ⟨res', err'⟩ := d'
                change Obeys answering _
                  (if res'.isFalse then .free (.failed err') else .first channel res')
                  (if res'.isFalse then _ else _)
                split
                · rintro (rfl : err' = none)
                  exact Or.inl rfl
                · exact ⟨⟨_, rfl⟩, fun _ => ⟨Or.inr ⟨_, _, rfl⟩, fun _ _ => Or.inr rfl⟩⟩

/-- Every call of ordinary commands keeps to the protocol. -/
lemma WireCall.Ordinary.obeys {job : WireCall} (h : job.Ordinary) (opts : Options) :
    Obeys answering (Ends job) k (job.prog opts) := by
  cases job with
  | direct c => exact (obeys_plain (doCommand_obeys opts h)).bind fun _ _ hr => hr
  | pipeline cs =>
      exact (obeys_plain (commitPipeline_obeys (Wrapper.new opts) h)).bind fun _ _ hr => hr
  | subscribe channel => exact subscribe_obeys _ channel

end Obeys

end AllInDocker
