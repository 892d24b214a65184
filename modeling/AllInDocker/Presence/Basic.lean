import AllInDocker.Lib.Protocol
import AllInDocker.Limiter.System
import AllInDocker.Scripts.Heartbeat

/-!
Both scripts on one Redis server: the rate limiter, and the heartbeats of devices.

* `HeartbeatRequest.device` says which device a request keeps alive, and `localize_heartbeat`
  that with variables of its own the script does exactly that: it reads the body and writes the
  key of this device for 300 s.
* `Node` is the state of both: the system of the limiter, the heartbeat requests in progress and
  the log of the writes they have issued. Any number of requests of both kinds run in any
  interleaving, and every command goes over a link that may fail.
* `limiter_undisturbed`: the limiter runs as if it were alone, since no key of the one script is
  a key of the other.
* `present_iff`: a device counts as present exactly if one of its heartbeats has reached the
  server in the last 300 s.
-/

namespace AllInDocker

open Coro

/-! ### What a heartbeat request asks for -/

/-- The key of a device. -/
def deviceKey (id : String) : String := "device_heartbeat:" ++ id

/-- The device of a decoded `KeepAlive` message, `some none` for any other message; `none` is the
error that Lua raises. -/
def keptAlive (obj : String → Option Decoded) : Option (Option String) :=
  (obj "Name").bind fun name =>
    if name.eqStr "KeepAlive" then
      ((obj "DeviceId").bind fun deviceId => deviceId.concat "").map some
    else some none

/-- What is done for it once the body has been read. -/
def remember : Option (Option String) → CommandProg
  | none => halt .luaError
  | some none => ret ()
  | some (some id) => call (.red (.setEx (deviceKey id) 1 300)) fun _ => ret ()

namespace HeartbeatRequest

variable (decode : Decode) (req : HeartbeatRequest)

/-- The text of the body, if there is one and its file can be opened. -/
def body : Option String :=
  match req.bodyData with
  | some data => some data
  | none => req.bodyFile.join

/-- The device that the request keeps alive. -/
def device : Option String :=
  if req.requestMethod = "POST" then ((req.body.bind decode).bind keptAlive).join else none

/-- The request as calls only. -/
def stages : CommandProg :=
  if req.requestMethod ≠ "POST" then halt (.exit 405)
  else call .readBody fun _ => remember ((req.body.bind decode).bind keptAlive)

end HeartbeatRequest

namespace Script

variable {β : Type} {env : (x : GlobalVar) → x.Val}

lemma localize_orRaise {α : Type} (o : Option α) (f : α → Script β) :
    localize env ((orRaise o).bind f) =
      o.elim (halt .luaError) fun a => localize env (f a) := by
  cases o <;> rfl

/-- The function `getFile`, once it is defined. -/
lemma localize_callGetFile (h : env .getFile = some ()) (content : Option String)
    (f : String → Script β) :
    localize env ((callGetFile content).bind f) = localize env ((orRaise content).bind f) := by
  simp only [callGetFile, getGetFile, getVar, monad_bind_eq, perform_bind, call_bind, localize, h]

/-- The body, decoded. -/
lemma localize_bodyOf (h : env .getFile = some ()) (decode : Decode) (req : HeartbeatRequest)
    (f : (String → Option Decoded) → Script β) :
    localize env ((bodyOf req).bind fun data => (orRaise (data.bind decode)).bind f) =
      (req.body.bind decode).elim (halt .luaError) fun obj => localize env (f obj) := by
  cases hdata : req.bodyData with
  | some data => simp only [bodyOf, HeartbeatRequest.body, hdata, ret_bind, localize_orRaise]
  | none =>
      cases hfile : req.bodyFile with
      | none =>
          simp only [bodyOf, HeartbeatRequest.body, hdata, hfile, ret_bind, localize_orRaise,
            Option.join_none]
      | some content =>
          simp only [bodyOf, HeartbeatRequest.body, hdata, hfile, Coro.bind_assoc,
            localize_callGetFile h, localize_orRaise, ret_bind, Option.join_some]
          cases content <;> rfl

lemma concat_deviceKey (v : Decoded) :
    v.concat "device_heartbeat:" = (v.concat "").map deviceKey := by
  have happend : ∀ t : String, "device_heartbeat:" ++ t = deviceKey ("" ++ t) := fun t => by
    rw [String.empty_append]
    rfl
  cases v with
  | str t => exact congrArg some (happend t)
  | num t => exact congrArg some (happend t)
  | other => rfl

/-- Remembering the device. -/
lemma localize_keepAlive (obj : String → Option Decoded) :
    localize env (keepAlive obj) =
      remember (((obj "DeviceId").bind fun deviceId => deviceId.concat "").map some) := by
  rw [keepAlive, monad_bind_eq]
  obtain ⟨env', h, heq⟩ := @localize_redisNew Unit env fun _ =>
    (orRaise (obj "DeviceId")).bind fun deviceId =>
      (orRaise (deviceId.concat "device_heartbeat:")).bind fun key =>
        (redCall (.setEx key 1 300)).bind fun r =>
          (setRes r.1).bind fun _ => setErr (luaOption r.2)
  refine heq.trans ?_
  simp only [localize_orRaise, localize_redCall h]
  cases obj "DeviceId" with
  | none => rfl
  | some v =>
      simp only [Option.elim_some, concat_deviceKey, Option.bind_some]
      cases v.concat "" <;> rfl

/-- What the script makes of a decoded message. -/
lemma localize_message (obj : String → Option Decoded) :
    localize env ((orRaise (obj "Name")).bind fun name =>
      if name.eqStr "KeepAlive" then keepAlive obj else ret ()) = remember (keptAlive obj) := by
  rw [localize_orRaise, keptAlive]
  cases obj "Name" with
  | none => rfl
  | some name =>
      rw [Option.elim_some, Option.bind_some]
      split_ifs
      · exact localize_keepAlive obj
      · rfl

/-- With variables of its own the script is the stages of its request. -/
theorem localize_heartbeat (env : (x : GlobalVar) → x.Val) (decode : Decode)
    (req : HeartbeatRequest) : localize env (heartbeat decode req) = req.stages decode := by
  rw [heartbeat, HeartbeatRequest.stages]
  by_cases hpost : req.requestMethod = "POST"
  · simp only [hpost, ne_eq, not_true_eq_false, if_false, monad_pure_eq, monad_bind_eq]
    change call ScriptCall.readBody _ = _
    congr 1
    funext u
    refine (localize_bodyOf (Function.update_self ..) decode req _).trans ?_
    cases req.body.bind decode with
    | none => rfl
    | some obj => exact localize_message obj
  · simp only [ne_eq, hpost, not_false_eq_true, if_true]
    rfl

end Script

/-! ### Both scripts at work -/

/-- A write that a heartbeat request has issued: when, by which request, and over which link. -/
structure Beat where
  time : Time
  req : HeartbeatRequest
  link : Link

/-- The system of the limiter with the store and the clock, the heartbeat requests with what is
left of them, and the writes they have issued, the newest first. -/
structure Node where
  limiter : Sys CommandProg
  beats : List (HeartbeatRequest × CommandProg)
  log : List Beat

/-- One step: the limiter's, the arrival of a heartbeat request, or the next call of one. -/
inductive NodeAct where
  | limit (a : Action)
  | arrive (req : HeartbeatRequest)
  | beat (i : ℕ) (link : Link)

/-- The part of the limiter. -/
def NodeAct.limit? : NodeAct → Option Action
  | limit a => some a
  | _ => none

namespace Node

variable (decode : Decode)

/-- No request yet, and an empty store. -/
def init : Node := ⟨.init, [], []⟩

/-- One step. -/
def step (ν : Node) : NodeAct → Node
  | .limit a => { ν with limiter := ν.limiter.step a }
  | .arrive req =>
      { ν with beats := ν.beats ++ [(req, localize nilEnv (Script.heartbeat decode req))] }
  | .beat i link =>
      match ν.beats[i]? with
      | some (req, .call .readBody k) => { ν with beats := ν.beats.set i (req, k ()) }
      | some (req, .call (.red c) k) =>
          { limiter := { ν.limiter with
              store := (through link ν.limiter.now ν.limiter.store c).1 }
            beats := ν.beats.set i (req, k (through link ν.limiter.now ν.limiter.store c).2)
            log := ⟨ν.limiter.now, req, link⟩ :: ν.log }
      | _ => ν

/-- A list of steps, from the beginning. -/
def run (acts : List NodeAct) : Node := acts.foldl (step decode) init

lemma run_concat (acts : List NodeAct) (a : NodeAct) :
    run decode (acts ++ [a]) = (run decode acts).step decode a := by
  rw [run, List.foldl_append]
  rfl

end Node

/-! ### The commands of the two scripts -/

/-- Programs that send certain commands only. -/
def sending (K : Command → Prop) : Protocol Unit ScriptCall ScriptCall.Ans where
  allow _ op := ∀ c, op = .red c → K c
  next _ _ _ := ()

/-- The program sends commands with the given property only. -/
def Sends (K : Command → Prop) (p : CommandProg) : Prop :=
  Obeys (sending K) (fun _ _ => True) () p

/-- A command that names no device. -/
def Elsewise (c : Command) : Prop := ∀ id, Store.key c ≠ some (deviceKey id)

/-- The write of a device. -/
def Remembers (device : Option String) (c : Command) : Prop :=
  ∃ id, device = some id ∧ c = .setEx (deviceKey id) 1 300

lemma counterKey_ne_deviceKey (v id : String) : counterKey v ≠ deviceKey id := by
  intro h
  have := congrArg String.toList h
  simp [counterKey, deviceKey] at this

lemma deviceKey_ne_of_isBlockKey {k : String} (hk : IsBlockKey k) (id : String) :
    k ≠ deviceKey id := by
  rintro rfl
  obtain ⟨w, h | h⟩ := hk
  · have := congrArg String.toList h
    simp [tokenBlockKey, deviceKey] at this
  · have := congrArg String.toList h
    simp [ipBlockKey, deviceKey] at this

lemma deviceKey_inj {id id' : String} : deviceKey id = deviceKey id' ↔ id = id' := by
  constructor
  · intro h
    simpa [deviceKey] using h
  · rintro rfl
    rfl

section Sends

variable {L : Limits}

lemma sends_call {K : Command → Prop} {c : Command} {k : LuaVal × Option String → CommandProg}
    (hc : K c) (hk : ∀ r, Sends K (k r)) : Sends K (call (.red c) k) :=
  ⟨fun _ h => ScriptCall.red.inj h ▸ hc, hk⟩

lemma sends_bans {ks : List String} (hks : ∀ k ∈ ks, IsBlockKey k) :
    Sends Elsewise (Limits.bans ks) := by
  induction ks with
  | nil => trivial
  | cons k ks ih =>
      refine sends_call (fun id h => ?_) fun _ => ih fun k' hk' => hks k' (by simp [hk'])
      exact deviceKey_ne_of_isBlockKey (hks k (by simp)) id (Option.some.inj h)

variable (hL : ∀ k ∈ L.blockKeys, IsBlockKey k) {v : String} (hv : L.incrKey = counterKey v)
include hL

lemma sends_judge (res : LuaVal) : Sends Elsewise (L.judge res) := by
  rw [Limits.judge]
  split
  · trivial
  · exact sends_bans hL
  · trivial

include hv

lemma sends_count : Sends Elsewise L.count := by
  have hkey : ∀ id, some L.incrKey ≠ some (deviceKey id) := fun id h =>
    counterKey_ne_deviceKey v id (hv ▸ Option.some.inj h)
  refine sends_call hkey fun r => ?_
  split_ifs
  · exact sends_call hkey fun r' => sends_judge hL r'.1
  · exact sends_judge hL r.1

lemma sends_checks {ks : List String} (hks : ∀ k ∈ ks, IsBlockKey k) :
    Sends Elsewise (L.checks ks) := by
  induction ks with
  | nil => exact sends_count hL hv
  | cons k ks ih =>
      refine sends_call (fun id h => ?_) fun r => ?_
      · exact deviceKey_ne_of_isBlockKey (hks k (by simp)) id (Option.some.inj h)
      · split_ifs
        · trivial
        · exact ih fun k' hk' => hks k' (by simp [hk'])

end Sends

/-- The limiter names no device. -/
lemma sends_accessLimit (req : Request) :
    Sends Elsewise (localize nilEnv (Script.accessLimit req)) := by
  rw [Script.localize_accessLimit]
  have hkeys : ∀ k ∈ req.limits.blockKeys, IsBlockKey k := fun k hk => req.isBlockKey_of_mem hk
  exact sends_checks hkeys req.limits_incrKey hkeys

/-- A heartbeat writes its own device, and nothing else. -/
lemma sends_heartbeat (decode : Decode) (req : HeartbeatRequest) :
    Sends (Remembers (req.device decode)) (localize nilEnv (Script.heartbeat decode req)) := by
  rw [Script.localize_heartbeat, HeartbeatRequest.stages]
  split_ifs with hpost
  · trivial
  · refine ⟨fun _ h => (nomatch h), fun _ => ?_⟩
    rw [HeartbeatRequest.device, if_pos (not_not.mp hpost)]
    cases (req.body.bind decode).bind keptAlive with
    | none => trivial
    | some device =>
        cases device with
        | none => trivial
        | some id => exact sends_call ⟨id, rfl, rfl⟩ fun _ => trivial

namespace Node

variable {decode : Decode} {ν : Node}

/-- The requests in progress send what they may. -/
structure Sound (decode : Decode) (ν : Node) : Prop where
  procs : ∀ p ∈ ν.limiter.procs, Sends Elsewise p.prog
  beats : ∀ b ∈ ν.beats, Sends (Remembers (b.1.device decode)) b.2

/-- What the next command of a request is, by the requests in progress. -/
lemma exec_cases (procs : List (Proc CommandProg)) (i : ℕ) (link : Link) :
    (∀ σ : Sys CommandProg, σ.procs = procs → σ.step (.exec i link) = σ) ∨
      ∃ p c k, procs[i]? = some p ∧ p.prog = .call (.red c) k ∧
        ∀ σ : Sys CommandProg, σ.procs = procs →
          σ.step (.exec i link) = σ.fire i p.req link c k := by
  cases hi : procs[i]? with
  | none =>
      left
      rintro σ rfl
      simp only [Sys.step, hi]
  | some p =>
      by_cases hred : ∃ c k, p.prog = .call (.red c) k
      · obtain ⟨c, k, hprog⟩ := hred
        refine Or.inr ⟨p, c, k, rfl, hprog, ?_⟩
        rintro σ rfl
        simp only [Sys.step, hi, Stages.pending, hprog]
      · left
        rintro σ rfl
        have hpending : Stages.pending p.req p.prog = none := by
          simp only [Stages.pending]
          split
          · next c k hprog => exact absurd ⟨c, k, hprog⟩ hred
          · rfl
        simp only [Sys.step, hi, hpending]

/-- What a step of the limiter is: nothing to the store, or the command of a request. -/
lemma limiter_step_cases {σ : Sys CommandProg} (hs : ∀ p ∈ σ.procs, Sends Elsewise p.prog)
    (a : Action) :
    ((σ.step a).store = σ.store ∧ ∀ p ∈ (σ.step a).procs, Sends Elsewise p.prog) ∨
      ∃ i link p c k, Elsewise c ∧ (∀ r, Sends Elsewise (k r)) ∧
        σ.step a = σ.fire i p link c k := by
  cases a with
  | arrive req =>
      refine Or.inl ⟨rfl, fun p hp => ?_⟩
      rcases List.mem_append.mp hp with hp | hp
      · exact hs p hp
      · simp only [List.mem_singleton.mp hp, Stages.start]
        exact sends_accessLimit req
  | wait d => exact Or.inl ⟨rfl, hs⟩
  | exec i link =>
      rcases exec_cases σ.procs i link with heq | ⟨p, c, k, hi, hprog, heq⟩
      · left
        rw [heq σ rfl]
        exact ⟨rfl, hs⟩
      · have hp := hs p (List.mem_of_getElem? hi)
        rw [hprog] at hp
        exact Or.inr ⟨i, link, p.req, c, k, hp.1 c rfl, hp.2, heq σ rfl⟩

lemma Sound.limit (h : Sound decode ν) (a : Action) : Sound decode (ν.step decode (.limit a)) := by
  refine ⟨?_, h.beats⟩
  rcases limiter_step_cases h.procs a with ⟨-, hs⟩ | ⟨i, link, req, c, k, -, hk, heq⟩
  · exact hs
  · intro q hq
    simp only [step, heq, Sys.fire] at hq
    rcases List.mem_or_eq_of_mem_set hq with hq | rfl
    · exact h.procs q hq
    · exact hk _

/-- What a step of a heartbeat request is: nothing to the store, or the write of its device. -/
lemma step_beat_cases (h : Sound decode ν) (i : ℕ) (link : Link) :
    ((ν.step decode (.beat i link)).limiter = ν.limiter ∧
      (ν.step decode (.beat i link)).log = ν.log) ∨
    ∃ req id, req.device decode = some id ∧
      (ν.step decode (.beat i link)).limiter = { ν.limiter with store :=
        (through link ν.limiter.now ν.limiter.store (.setEx (deviceKey id) 1 300)).1 } ∧
      (ν.step decode (.beat i link)).log = ⟨ν.limiter.now, req, link⟩ :: ν.log := by
  simp only [step]
  split
  · exact Or.inl ⟨rfl, rfl⟩
  · next req c k hi =>
      obtain ⟨id, hid, rfl⟩ := (h.beats _ (List.mem_of_getElem? hi)).1 c rfl
      exact Or.inr ⟨req, id, hid, rfl, rfl⟩
  · exact Or.inl ⟨rfl, rfl⟩

lemma Sound.beat (h : Sound decode ν) (i : ℕ) (link : Link) :
    Sound decode (ν.step decode (.beat i link)) := by
  simp only [step]
  split
  · next req k hi =>
      refine ⟨h.procs, fun b hb => ?_⟩
      rcases List.mem_or_eq_of_mem_set hb with hb | rfl
      · exact h.beats b hb
      · exact (h.beats _ (List.mem_of_getElem? hi)).2 ()
  · next req c k hi =>
      refine ⟨h.procs, fun b hb => ?_⟩
      rcases List.mem_or_eq_of_mem_set hb with hb | rfl
      · exact h.beats b hb
      · exact (h.beats _ (List.mem_of_getElem? hi)).2 _
  · exact h

lemma sound_run (decode : Decode) (acts : List NodeAct) : Sound decode (run decode acts) := by
  induction acts using List.reverseRecOn with
  | nil => exact ⟨by simp [run, init, Sys.init], by simp [run, init]⟩
  | append_singleton acts a ih =>
      rw [run_concat]
      cases a with
      | limit a => exact ih.limit a
      | beat i link => exact ih.beat i link
      | arrive req =>
          refine ⟨ih.procs, fun b hb => ?_⟩
          rcases List.mem_append.mp hb with hb | hb
          · exact ih.beats b hb
          · obtain rfl := List.mem_singleton.mp hb
            exact sends_heartbeat decode req

end Node

/-! ### The limiter is undisturbed -/

/-- Two states of the limiter that differ in the keys of devices at most. -/
structure Alike (σ τ : Sys CommandProg) : Prop where
  now : σ.now = τ.now
  procs : σ.procs = τ.procs
  log : σ.log = τ.log
  store : ∀ k, (∀ id, k ≠ deviceKey id) → σ.store k = τ.store k

lemma creates_congr {now : Time} {s s' : Store} {c : Command}
    (h : ∀ k, Store.key c = some k → s k = s' k) : creates now s c = creates now s' c := by
  unfold creates
  split
  · next hargs => rw [TimedStore.lookup, TimedStore.lookup, h _ (by simp [Store.key, hargs])]
  · rfl

/-- The same command, with the same answer. -/
lemma Alike.fire {σ τ : Sys CommandProg} (h : Alike σ τ) {c : Command} (hc : Elsewise c) (i : ℕ)
    (req : Request) (link : Link) (k : LuaVal × Option String → CommandProg) :
    Alike (σ.fire i req link c k) (τ.fire i req link c k) := by
  have hkey : ∀ k', Store.key c = some k' → σ.store k' = τ.store k' := fun k' hk' =>
    h.store k' fun id hid => hc id (hk'.trans (congrArg some hid))
  obtain ⟨hvalue, hstore⟩ := @through_congr σ.now σ.store c τ.store hkey link
  have hevent : σ.event i req link c = τ.event i req link c := by
    have hreply := (@Store.exec_congr σ.store σ.now τ.store c hkey).1
    simp only [Sys.event, h.now, h.log] at hreply hvalue ⊢
    simp only [hreply, hvalue, creates_congr hkey]
  refine ⟨h.now, ?_, ?_, fun k' hk' => ?_⟩
  · simp only [Sys.fire, h.procs, ← h.now, hvalue]
  · simp only [Sys.fire, h.log, hevent]
  · simp only [Sys.fire, ← h.now]
    exact hstore k' (h.store k' hk')

lemma Alike.step {σ τ : Sys CommandProg} (h : Alike σ τ)
    (hs : ∀ p ∈ σ.procs, Sends Elsewise p.prog) (a : Action) : Alike (σ.step a) (τ.step a) := by
  cases a with
  | arrive req => exact ⟨h.now, by simp [Sys.step, h.procs], h.log, h.store⟩
  | wait d => exact ⟨by simp [Sys.step, h.now], h.procs, h.log, h.store⟩
  | exec i link =>
      rcases Node.exec_cases σ.procs i link with heq | ⟨p, c, k, hi, hprog, heq⟩
      · rw [heq σ rfl, heq τ h.procs.symm]
        exact h
      · have hp := hs p (List.mem_of_getElem? hi)
        rw [hprog] at hp
        rw [heq σ rfl, heq τ h.procs.symm]
        exact h.fire (hp.1 c rfl) i p.req link k

/-- **The limiter is undisturbed**: in every run of both scripts it does what it does in the run
of its own steps alone, command by command and answer by answer, and has the same keys. -/
theorem limiter_undisturbed (decode : Decode) (acts : List NodeAct) :
    Alike (Node.run decode acts).limiter (limiter (acts.filterMap NodeAct.limit?)) := by
  induction acts using List.reverseRecOn with
  | nil => exact ⟨rfl, rfl, rfl, fun _ _ => rfl⟩
  | append_singleton acts a ih =>
      have hsound := Node.sound_run decode acts
      rw [Node.run_concat, List.filterMap_append]
      cases a with
      | limit a =>
          have hacts : [NodeAct.limit a].filterMap NodeAct.limit? = [a] := rfl
          rw [limiter, hacts, Sys.run_concat]
          exact ih.step hsound.procs a
      | arrive req =>
          have hacts : [NodeAct.arrive req].filterMap NodeAct.limit? = [] := rfl
          rw [hacts, List.append_nil]
          exact ih
      | beat i link =>
          have hacts : [NodeAct.beat i link].filterMap NodeAct.limit? = [] := rfl
          rw [hacts, List.append_nil]
          rcases Node.step_beat_cases hsound i link with ⟨heq, -⟩ | ⟨req, id, -, heq, -⟩
          · rw [heq]
            exact ih
          · rw [heq]
            refine ⟨ih.now, ih.procs, ih.log, fun k hk => ?_⟩
            refine (through_of_ne (fun hkey => ?_) link).trans (ih.store k hk)
            exact hk id (Option.some.inj hkey).symm

/-! ### Which devices are present -/

namespace Node

variable {decode : Decode} {ν : Node}

/-- The last heartbeat of a device that has reached the server. -/
def latest (decode : Decode) (ν : Node) (id : String) : Option Beat :=
  ν.log.find? fun b => decide (b.req.device decode = some id) && b.link.reaches

/-- The store has the last heartbeat of every device, and the log is in the order of time. -/
structure Recorded (decode : Decode) (ν : Node) : Prop where
  store : ∀ id, ν.limiter.store (deviceKey id) =
    (ν.latest decode id).map fun b => ⟨.int 1, some (b.time + 300)⟩
  past : ∀ b ∈ ν.log, b.time ≤ ν.limiter.now
  sorted : ν.log.Pairwise fun b b' => b'.time ≤ b.time

/-- Time does not run backwards. -/
lemma now_le_step (σ : Sys CommandProg) (a : Action) : σ.now ≤ (σ.step a).now := by
  cases a with
  | arrive req => exact le_rfl
  | wait d => exact le_add_of_nonneg_right d.2
  | exec i link =>
      rcases exec_cases σ.procs i link with heq | ⟨p, c, k, -, -, heq⟩ <;> rw [heq σ rfl]
      exact le_rfl

/-- The limiter writes no device. -/
lemma Recorded.limit (h : Recorded decode ν) (hs : Sound decode ν) (a : Action) :
    Recorded decode (ν.step decode (.limit a)) := by
  refine ⟨fun id => ?_, fun b hb => (h.past b hb).trans (now_le_step ν.limiter a), h.sorted⟩
  refine Eq.trans ?_ (h.store id)
  simp only [step]
  rcases limiter_step_cases hs.procs a with ⟨heq, -⟩ | ⟨i, link, req, c, k, hc, -, heq⟩ <;> rw [heq]
  exact through_of_ne (hc id) link

/-- A heartbeat writes its device, if it reaches the server. -/
lemma Recorded.beat (h : Recorded decode ν) (hs : Sound decode ν) (i : ℕ) (link : Link) :
    Recorded decode (ν.step decode (.beat i link)) := by
  rcases step_beat_cases hs i link with ⟨hlim, hlog⟩ | ⟨req, id, hid, hlim, hlog⟩
  · refine ⟨fun id => ?_, ?_, ?_⟩
    · rw [latest, hlim, hlog]
      exact h.store id
    · rw [hlim, hlog]
      exact h.past
    · rw [hlog]
      exact h.sorted
  · refine ⟨fun id' => ?_, ?_, ?_⟩
    · rw [latest, hlim, hlog, List.find?_cons]
      by_cases hsame : id' = id
      · subst hsame
        simp only [through_store, hid, decide_true, Bool.true_and]
        cases link.reaches with
        | false => exact h.store id'
        | true => simp [Store.exec_setEx]
      · have hne : Store.key (.setEx (deviceKey id) 1 300) ≠ some (deviceKey id') := fun hkey =>
          hsame (deviceKey_inj.mp (Option.some.inj hkey)).symm
        have hdevice : req.device decode ≠ some id' := by
          rw [hid]
          exact fun heq => hsame (Option.some.inj heq).symm
        simp only [hdevice, decide_false, Bool.false_and]
        exact (through_of_ne hne link).trans (h.store id')
    · rw [hlim, hlog]
      rintro b hb
      rcases List.mem_cons.mp hb with rfl | hb
      · exact le_rfl
      · exact h.past b hb
    · rw [hlog]
      exact List.pairwise_cons.mpr ⟨fun b hb => h.past b hb, h.sorted⟩

lemma recorded_run (decode : Decode) (acts : List NodeAct) :
    Recorded decode (run decode acts) := by
  induction acts using List.reverseRecOn with
  | nil => exact ⟨fun _ => rfl, by simp [run, init], by simp [run, init]⟩
  | append_singleton acts a ih =>
      have hsound := sound_run decode acts
      rw [run_concat]
      cases a with
      | limit a => exact ih.limit hsound a
      | arrive req => exact ⟨ih.store, ih.past, ih.sorted⟩
      | beat i link => exact ih.beat hsound i link

end Node

/-- **Presence**: in every run of both scripts, in any interleaving and with any failures, the
key of a device is there exactly if a heartbeat of this device has reached the server in the
last 300 s. -/
theorem present_iff (decode : Decode) (acts : List NodeAct) (id : String) :
    ((Node.run decode acts).limiter.store.lookup (Node.run decode acts).limiter.now
      (deviceKey id)).isSome ↔
    ∃ b ∈ (Node.run decode acts).log, b.req.device decode = some id ∧ b.link.reaches = true ∧
      (Node.run decode acts).limiter.now < b.time + 300 := by
  have h := Node.recorded_run decode acts
  rw [TimedStore.lookup, h.store id]
  cases hlatest : (Node.run decode acts).latest decode id with
  | none =>
      have hnone := List.find?_eq_none.mp hlatest
      constructor
      · intro hsome
        exact absurd hsome (by simp)
      · rintro ⟨b, hb, hdevice, hreaches, -⟩
        exact absurd (hnone b hb) (by simp [hdevice, hreaches])
  | some b =>
      have hfound := List.find?_some hlatest
      obtain ⟨hdevice, hreaches⟩ : b.req.device decode = some id ∧ b.link.reaches = true := by
        simpa using hfound
      simp only [Option.map_some, Option.isSome_filter, Option.any_some, decide_eq_true_eq]
      constructor
      · intro halive
        exact ⟨b, List.mem_of_find?_eq_some hlatest, hdevice, hreaches, halive _ rfl⟩
      · rintro ⟨b', hb', hdevice', hreaches', hlt⟩ t ht
        obtain rfl := Option.some.inj ht
        -- the last heartbeat of the device is not older
        obtain ⟨-, pre, post, hlog, hpre⟩ := List.find?_eq_some_iff_append.mp hlatest
        have hle : b'.time ≤ b.time := by
          have hsorted := h.sorted
          rw [hlog] at hb' hsorted
          rcases List.mem_append.mp hb' with hmem | hmem
          · exact absurd (hpre b' hmem) (by simp [hdevice', hreaches'])
          · rcases List.mem_cons.mp hmem with rfl | hmem
            · exact le_rfl
            · exact List.rel_of_pairwise_cons (List.pairwise_append.mp hsorted).2.1 hmem
        exact lt_of_lt_of_le hlt (by gcongr)

end AllInDocker
