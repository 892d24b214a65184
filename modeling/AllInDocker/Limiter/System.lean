import Mathlib.Data.NNRat.Defs
import AllInDocker.Scripts.AccessLimit
import AllInDocker.Wrapper.Faults

/-!
Any number of requests in the rate limiter, on one Redis server.

* `Sys` is the state: the time, the store, the requests in order of arrival, and the log of
  all commands issued, the newest first. `Sys.step` is one `Action`: a request arrives, a
  request issues its next command over a link that may fail, or time passes. A run is a list
  of actions, so every order of commands and every pattern of failures is one.
* Requests are represented by what is left of their script (`CommandProg`) or by the place
  where they stand (`Phase`); `Stages` is what the system needs of either, and `run_map`
  carries runs of the one over to runs of the other.
* `Fires` says once what a command that succeeds does, by the place of its request, and
  `step_exec` that this is all a step can do. All invariants are derived from it.
-/

namespace AllInDocker

open Coro

/-! ### Actions and states -/

/-- A command that was issued: when, by which request, over which link, whether the server
answered it with an error, what the script got, whether it created its key, and the number
of the lifetime of its key (how often its key had been created then). -/
structure Event where
  time : Time
  id : ℕ
  req : Request
  cmd : Command
  link : Link
  failed : Bool
  answer : LuaVal
  created : Bool
  life : ℕ

namespace Event

/-- The command succeeded: it was executed without an error and its answer arrived. -/
def Ok (e : Event) : Prop := e.link.delivers = true ∧ e.failed = false

instance (e : Event) : Decidable e.Ok := inferInstanceAs (Decidable (_ ∧ _))

end Event

/-- One step of the system. -/
inductive Action where
  | arrive (req : Request)
  | exec (i : ℕ) (link : Link)
  | wait (d : ℚ≥0)

/-- What the system has to know of a request in progress: how it starts, the command it
issues next and what follows its answer, and how it ended. -/
class Stages (P : Type) where
  start : Request → P
  pending : Request → P → Option (Command × (LuaVal × Option String → P))
  outcome : P → Option (Except Stop Unit)

/-- A request and what is left of it. -/
structure Proc (P : Type) where
  req : Request
  prog : P

/-- The state of the system. -/
structure Sys (P : Type) where
  now : Time
  store : Store
  procs : List (Proc P)
  log : List Event

/-- The command creates a key that is not there. -/
def creates (now : Time) (s : Store) (c : Command) : Bool :=
  match c.name, c.args with
  | .incr, [.str k] => (s.lookup now k).isNone
  | _, _ => false

/-- How often a command of the log has created its key. -/
def lives (log : List Event) (c : Command) : ℕ :=
  log.countP fun e => e.created && decide (e.cmd = c)

namespace Sys

variable {P : Type}

/-- No request yet, and an empty store. -/
def init : Sys P := ⟨0, .empty, [], []⟩

/-- The log entry of command `c` of request `i`. -/
def event (σ : Sys P) (i : ℕ) (req : Request) (link : Link) (c : Command) : Event where
  time := σ.now
  id := i
  req := req
  cmd := c
  link := link
  failed := (σ.store.exec σ.now c).2.isError
  answer := (through link σ.now σ.store c).2.1
  created := link.reaches && creates σ.now σ.store c
  life := lives σ.log c + if link.reaches && creates σ.now σ.store c then 1 else 0

/-- Request `i` issues command `c` and goes on with `k`. -/
def fire (σ : Sys P) (i : ℕ) (req : Request) (link : Link) (c : Command)
    (k : LuaVal × Option String → P) : Sys P where
  now := σ.now
  store := (through link σ.now σ.store c).1
  procs := σ.procs.set i ⟨req, k (through link σ.now σ.store c).2⟩
  log := σ.event i req link c :: σ.log

variable [Stages P]

/-- One action. A request that has ended, or never arrived, issues no command. -/
def step (σ : Sys P) : Action → Sys P
  | .arrive req => { σ with procs := σ.procs ++ [⟨req, Stages.start req⟩] }
  | .wait d => { σ with now := σ.now + d }
  | .exec i link =>
      match σ.procs[i]? with
      | none => σ
      | some p =>
          match Stages.pending p.req p.prog with
          | none => σ
          | some (c, k) => σ.fire i p.req link c k

/-- Requests handled one after the other, at one time and without a failure. No request
issues more than five commands. -/
def oneByOne (reqs : List Request) : List Action :=
  reqs.zipIdx.flatMap fun r => .arrive r.1 :: List.replicate 5 (.exec r.2 (.up 0))

/-- A list of actions, from the empty system on. -/
def run (acts : List Action) : Sys P := acts.foldl step init

lemma run_nil : (run [] : Sys P) = init := rfl

lemma run_append (acts acts' : List Action) :
    (run (acts ++ acts') : Sys P) = acts'.foldl step (run acts) :=
  List.foldl_append

lemma run_concat (acts : List Action) (a : Action) :
    (run (acts ++ [a]) : Sys P) = (run acts).step a := by
  rw [run, List.foldl_append]
  rfl

/-- Every command of the run succeeded. -/
def AllOk (σ : Sys P) : Prop := ∀ e ∈ σ.log, e.Ok

instance (σ : Sys P) : Decidable σ.AllOk := inferInstanceAs (Decidable (∀ e ∈ σ.log, e.Ok))

/-- Request `i` has ended, and how. -/
def endedWith (σ : Sys P) (i : ℕ) : Option (Except Stop Unit) :=
  σ.procs[i]?.bind fun p => Stages.outcome p.prog

/-- The requests of an identity that are in progress. -/
def inProgress (σ : Sys P) (who : Kind × String) : Finset ℕ :=
  (Finset.range σ.procs.length).filter fun i =>
    σ.procs[i]?.any fun p =>
      decide (p.req.identity = who) && (Stages.outcome (P := P) p.prog).isNone

/-! ### Two representations of one request -/

variable {Q : Type} [Stages Q]

/-- Change the representation of all requests. -/
def map (f : Request → P → Q) (σ : Sys P) : Sys Q where
  now := σ.now
  store := σ.store
  procs := σ.procs.map fun p => ⟨p.req, f p.req p.prog⟩
  log := σ.log

/-- The representations agree on how a request starts, goes on and ends. -/
structure Represents (f : Request → P → Q) : Prop where
  start : ∀ req, f req (Stages.start req) = Stages.start req
  pending : ∀ req p, Stages.pending req (f req p) =
    (Stages.pending req p).map fun ck => (ck.1, fun r => f req (ck.2 r))
  outcome : ∀ req p, Stages.outcome (f req p) = Stages.outcome p

variable {f : Request → P → Q}

lemma step_map (hf : Represents f) (σ : Sys P) (a : Action) :
    (σ.map f).step a = (σ.step a).map f := by
  cases a with
  | arrive req => simp [step, map, hf.start]
  | wait d => rfl
  | exec i link =>
      simp only [step, map, List.getElem?_map]
      cases hi : σ.procs[i]? with
      | none => rfl
      | some p =>
          simp only [Option.map_some, hf.pending]
          cases hp : Stages.pending p.req p.prog with
          | none => rfl
          | some ck => simp [fire, event, List.map_set]

/-- A run in one representation is a run in the other. -/
lemma run_map (hf : Represents f) (acts : List Action) :
    (run acts : Sys Q) = (run acts : Sys P).map f := by
  induction acts using List.reverseRecOn with
  | nil => rfl
  | append_singleton acts a ih => rw [run_concat, run_concat, ih, step_map hf]

lemma endedWith_map (hf : Represents f) (σ : Sys P) (i : ℕ) :
    (σ.map f).endedWith i = σ.endedWith i := by
  simp only [endedWith, map, List.getElem?_map]
  cases σ.procs[i]? <;> simp [hf.outcome]

lemma inProgress_map (hf : Represents f) (σ : Sys P) (who : Kind × String) :
    (σ.map f).inProgress who = σ.inProgress who := by
  simp only [inProgress, map, List.length_map, List.getElem?_map]
  congr 1
  funext i
  cases σ.procs[i]? <;> simp [hf.outcome]

end Sys

/-! ### What is left of a script -/

/-- The variables of a request before it runs. -/
def nilEnv : (x : GlobalVar) → x.Val
  | .clientToken => .nil
  | .res => .nil
  | .err => .nil
  | .getFile => none
  | .method _ => none

instance : Stages CommandProg where
  start req := localize nilEnv (Script.accessLimit req)
  pending _ p := match p with
    | .call (.red c) k => some (c, k)
    | _ => none
  outcome p := match p with
    | .ret _ => some (.ok ())
    | .halt w => some (.error w)
    | .call _ _ => none

/-! ### The places of a request -/

/-- Where a request stands: before a check of a block key, the count, the expiry of its
counter or the write of a block key, with the keys that follow; or at its end. -/
inductive Phase where
  | check (key : String) (rest : List String)
  | count
  | expire
  | ban (key : String) (rest : List String)
  | ended (o : Except Stop Unit)

namespace Phase

/-- Before the checks of the given block keys. -/
def checks : List String → Phase
  | [] => count
  | k :: ks => check k ks

/-- Before the writes of the given block keys. -/
def bans : List String → Phase
  | [] => ended (.ok ())
  | k :: ks => ban k ks

/-- After the comparison of the counted value with the limit. -/
def judge (L : Limits) (res : LuaVal) : Phase :=
  match res.gtNum L.maxFreq with
  | none => ended (.error .luaError)
  | some true => bans L.blockKeys
  | some false => ended (.ok ())

/-- The command issued at a place. -/
def cmd (L : Limits) : Phase → Option Command
  | check k _ => some (.get k)
  | count => some (.incr L.incrKey)
  | expire => some (.expire L.incrKey 1)
  | ban k _ => some (.setEx k 1 banExpire)
  | ended _ => none

/-- The place after the answer. -/
def next (L : Limits) : Phase → LuaVal → Phase
  | check _ ks, v => if v.tonumber = some 1 then ended (.error (.exit 403)) else checks ks
  | count, v => if v.eqNum 1 then expire else judge L v
  | expire, v => judge L v
  | ban _ ks, _ => bans ks
  | ended o, _ => ended o

/-- What is left of the script at a place. -/
def prog (L : Limits) : Phase → CommandProg
  | check k ks => L.checks (k :: ks)
  | count => L.count
  | expire => L.expire
  | ban k ks => Limits.bans (k :: ks)
  | ended (.ok ()) => .ret ()
  | ended (.error w) => .halt w

section Lost

variable {L : Limits} {v : LuaVal} (hv : v = .nil ∨ v = .table [])

include hv

/-- A check whose answer is lost passes. -/
lemma next_check_of_lost (k : String) (ks : List String) : next L (check k ks) v = checks ks := by
  rcases hv with rfl | rfl <;> simp [next]

/-- A count whose answer is lost raises an error. -/
lemma next_count_of_lost : next L count v = ended (.error .luaError) := by
  rcases hv with rfl | rfl <;> simp [next, judge, LuaVal.eqNum]

lemma next_expire_of_lost : next L expire v = ended (.error .luaError) := by
  rcases hv with rfl | rfl <;> simp [next, judge]

end Lost

lemma prog_checks (L : Limits) (ks : List String) : (checks ks).prog L = L.checks ks := by
  cases ks <;> rfl

lemma prog_bans (L : Limits) (ks : List String) : (bans ks).prog L = Limits.bans ks := by
  cases ks <;> rfl

lemma prog_judge (L : Limits) (v : LuaVal) : (judge L v).prog L = L.judge v := by
  rw [judge, Limits.judge]
  cases h : v.gtNum L.maxFreq with
  | none => rfl
  | some b =>
      cases b with
      | false => rfl
      | true => exact prog_bans L L.blockKeys

end Phase

instance : Stages Phase where
  start req := .checks req.limits.blockKeys
  pending req ph := (ph.cmd req.limits).map fun c => (c, fun r => ph.next req.limits r.1)
  outcome ph := match ph with
    | .ended o => some o
    | _ => none

/-- The places are the scripts: a request stands where its script is. -/
lemma represents_prog : Sys.Represents fun req ph => Phase.prog req.limits ph where
  start req := by
    rw [Stages.start, Stages.start]
    exact (Phase.prog_checks _ _).trans (Script.localize_accessLimit nilEnv req).symm
  pending req ph := by
    cases ph with
    | check k ks =>
        simp only [Stages.pending, Phase.prog, Limits.checks, Phase.cmd, Option.map_some,
          Option.some.injEq, Prod.mk.injEq, true_and]
        funext r
        simp only [Phase.next]
        split_ifs
        · rfl
        · exact (Phase.prog_checks _ _).symm
    | count =>
        simp only [Stages.pending, Phase.prog, Limits.count, Phase.cmd, Option.map_some,
          Option.some.injEq, Prod.mk.injEq, true_and]
        funext r
        simp only [Phase.next]
        split_ifs
        · rfl
        · exact (Phase.prog_judge _ _).symm
    | expire =>
        simp only [Stages.pending, Phase.prog, Limits.expire, Phase.cmd, Option.map_some,
          Option.some.injEq, Prod.mk.injEq, true_and]
        funext r
        exact (Phase.prog_judge _ _).symm
    | ban k ks =>
        simp only [Stages.pending, Phase.prog, Limits.bans, Phase.cmd, Option.map_some,
          Option.some.injEq, Prod.mk.injEq, true_and]
        funext r
        exact (Phase.prog_bans _ _).symm
    | ended o => rcases o with w | ⟨⟩ <;> rfl
  outcome req ph := by
    cases ph with
    | ended o => rcases o with w | ⟨⟩ <;> rfl
    | _ => rfl

/-- A run of the script, by any number of requests. -/
abbrev limiter (acts : List Action) : Sys CommandProg := Sys.run acts

/-- A run of scripts is a run of places. -/
lemma limiter_eq_map (acts : List Action) :
    limiter acts = (Sys.run acts : Sys Phase).map fun req ph => ph.prog req.limits :=
  Sys.run_map represents_prog acts

section

open Sys

variable (acts : List Action)

lemma limiter_store : (limiter acts).store = (run acts : Sys Phase).store := by
  rw [limiter_eq_map]
  rfl

lemma limiter_log : (limiter acts).log = (run acts : Sys Phase).log := by
  rw [limiter_eq_map]
  rfl

lemma limiter_now : (limiter acts).now = (run acts : Sys Phase).now := by
  rw [limiter_eq_map]
  rfl

lemma limiter_endedWith (i : ℕ) :
    (limiter acts).endedWith i = (run acts : Sys Phase).endedWith i := by
  rw [limiter_eq_map, endedWith_map represents_prog]

lemma limiter_inProgress (who : Kind × String) :
    (limiter acts).inProgress who = (run acts : Sys Phase).inProgress who := by
  rw [limiter_eq_map, inProgress_map represents_prog]

end

/-! ### What a command that succeeds can do -/

/-- The answer to an `EXPIRE` is no number over a limit. -/
lemma Phase.judge_of_le_one (req : Request) {m : ℤ} (hm : m ≤ 1) :
    Phase.judge req.limits (.num m) = .ended (.ok ()) := by
  have hmax := req.one_le_maxFreq
  have hle : ¬ (req.limits.maxFreq : ℤ) < m := by omega
  simp [Phase.judge, hle]

namespace Sys

variable {σ : Sys Phase} {i : ℕ} {p : Proc Phase}

/-- The state after request `i` of the state `σ` has issued a command. -/
def after (σ : Sys Phase) (i : ℕ) (req : Request) (e : Event) (s : Store) (ph : Phase) :
    Sys Phase :=
  ⟨σ.now, s, σ.procs.set i ⟨req, ph⟩, e :: σ.log⟩

/-- What request `i` at its place does with a command that succeeds: the event, the store
after it, and the next place. -/
inductive Fires (σ : Sys Phase) (i : ℕ) (p : Proc Phase) : Event → Store → Phase → Prop where
  | refused (n : ℕ) {k : String} {ks : List String} (hp : p.prog = .check k ks)
      (hv : (σ.event i p.req (.up n) (.get k)).answer.tonumber = some 1) :
      Fires σ i p (σ.event i p.req (.up n) (.get k)) σ.store (.ended (.error (.exit 403)))
  | passed (n : ℕ) {k : String} {ks : List String} (hp : p.prog = .check k ks)
      (hv : (σ.event i p.req (.up n) (.get k)).answer.tonumber ≠ some 1) :
      Fires σ i p (σ.event i p.req (.up n) (.get k)) σ.store (.checks ks)
  | created (n : ℕ) (hp : p.prog = .count)
      (hk : σ.store.lookup σ.now p.req.limits.incrKey = none)
      (ha : (σ.event i p.req (.up n) (.incr p.req.limits.incrKey)).answer = .num 1) :
      Fires σ i p (σ.event i p.req (.up n) (.incr p.req.limits.incrKey))
        (σ.store.put p.req.limits.incrKey ⟨.int 1, none⟩) .expire
  | counted (n : ℕ) (hp : p.prog = .count) {m : ℤ} {d : Option Time}
      (hk : σ.store.lookup σ.now p.req.limits.incrKey = some ⟨.int m, d⟩)
      (ha : (σ.event i p.req (.up n) (.incr p.req.limits.incrKey)).answer = .num (m + 1)) :
      Fires σ i p (σ.event i p.req (.up n) (.incr p.req.limits.incrKey))
        (σ.store.put p.req.limits.incrKey ⟨.int (m + 1), d⟩)
        (Phase.next p.req.limits .count (.num (m + 1)))
  | expired (n : ℕ) (hp : p.prog = .expire) {en : Entry RedisVal Time}
      (hk : σ.store.lookup σ.now p.req.limits.incrKey = some en) :
      Fires σ i p (σ.event i p.req (.up n) (.expire p.req.limits.incrKey 1))
        (σ.store.put p.req.limits.incrKey { en with deadline := some (σ.now + 1) })
        (.ended (.ok ()))
  | gone (n : ℕ) (hp : p.prog = .expire)
      (hk : σ.store.lookup σ.now p.req.limits.incrKey = none) :
      Fires σ i p (σ.event i p.req (.up n) (.expire p.req.limits.incrKey 1)) σ.store
        (.ended (.ok ()))
  | banned (n : ℕ) {k : String} {ks : List String} (hp : p.prog = .ban k ks) :
      Fires σ i p (σ.event i p.req (.up n) (.setEx k 1 banExpire))
        (σ.store.put k ⟨.int 1, some (σ.now + 600)⟩) (.bans ks)

/-- The event of a command that succeeds, whichever it is. -/
lemma Fires.event_eq {e : Event} {s : Store} {ph : Phase} (h : Fires σ i p e s ph) :
    ∃ n c, p.prog.cmd p.req.limits = some c ∧ e = σ.event i p.req (.up n) c := by
  cases h with
  | refused n hp _ => exact ⟨n, _, by rw [hp]; rfl, rfl⟩
  | passed n hp _ => exact ⟨n, _, by rw [hp]; rfl, rfl⟩
  | created n hp _ _ => exact ⟨n, _, by rw [hp]; rfl, rfl⟩
  | counted n hp _ _ => exact ⟨n, _, by rw [hp]; rfl, rfl⟩
  | expired n hp _ => exact ⟨n, _, by rw [hp]; rfl, rfl⟩
  | gone n hp _ => exact ⟨n, _, by rw [hp]; rfl, rfl⟩
  | banned n hp => exact ⟨n, _, by rw [hp]; rfl, rfl⟩

/-- A successful command leaves the store as the server does. -/
lemma fires_of_ok {n : ℕ} {c : Command} (hc : p.prog.cmd p.req.limits = some c)
    (hok : (σ.store.exec σ.now c).2.isError = false) :
    Fires σ i p (σ.event i p.req (.up n) c) (through (.up n) σ.now σ.store c).1
      (p.prog.next p.req.limits (through (.up n) σ.now σ.store c).2.1) := by
  have hanswer : (σ.event i p.req (.up n) c).answer =
      (directResult (σ.store.exec σ.now c).2).1 := by simp [event, through_up]
  cases hp : p.prog with
  | check k ks =>
      rw [hp, Phase.cmd, Option.some.injEq] at hc
      subst hc
      rw [through_store]
      simp only [Link.reaches, if_true, Store.exec_get_store, Phase.next]
      split_ifs with hv
      · exact .refused n hp hv
      · exact .passed n hp hv
  | count =>
      rw [hp, Phase.cmd, Option.some.injEq] at hc
      subst hc
      cases hk : σ.store.lookup σ.now p.req.limits.incrKey with
      | none =>
          rw [through_up, Store.exec_incr_of_none hk]
          rw [Store.exec_incr_of_none hk] at hanswer
          exact .created n hp hk hanswer
      | some en =>
          obtain ⟨v, d⟩ := en
          cases v with
          | int m =>
              rw [Store.exec_incr_of_int hk hok] at hanswer
              rw [through_up, Store.exec_incr_of_int hk hok]
              exact .counted n hp hk hanswer
          | raw t ht => simp [Store.exec, Command.incr, hk, Reply.isError] at hok
          | other => simp [Store.exec, Command.incr, hk, Reply.isError] at hok
  | expire =>
      rw [hp, Phase.cmd, Option.some.injEq] at hc
      subst hc
      cases hk : σ.store.lookup σ.now p.req.limits.incrKey with
      | none =>
          rw [through_up, Store.exec_expire_of_none hk]
          simp only [directResult, Reply.entry, isRedisNull, Phase.next, Bool.false_eq_true,
            if_false, Phase.judge_of_le_one p.req (show (0 : ℤ) ≤ 1 by norm_num)]
          exact .gone n hp hk
      | some en =>
          rw [through_up, Store.exec_expire_of_some hk]
          simp only [directResult, Reply.entry, isRedisNull, Phase.next, Bool.false_eq_true,
            if_false, Phase.judge_of_le_one p.req le_rfl]
          exact .expired n hp hk
  | ban k ks =>
      rw [hp, Phase.cmd, Option.some.injEq] at hc
      subst hc
      rw [through_up, Store.exec_setEx (by norm_num [banExpire])]
      exact .banned n hp
  | ended o => simp [hp, Phase.cmd] at hc

/-- A command issued in a run without failures fires, and this is all a command does. -/
lemma step_exec {link : Link} (hok : AllOk (σ.step (.exec i link))) :
    σ.step (.exec i link) = σ ∨ ∃ p e s ph, σ.procs[i]? = some p ∧ Fires σ i p e s ph ∧
      σ.step (.exec i link) = σ.after i p.req e s ph := by
  simp only [step] at hok ⊢
  cases hi : σ.procs[i]? with
  | none => exact Or.inl rfl
  | some p =>
      simp only [hi] at hok ⊢
      cases hc : p.prog.cmd p.req.limits with
      | none =>
          left
          simp [Stages.pending, hc]
      | some c =>
          right
          simp only [Stages.pending, hc, Option.map_some] at hok ⊢
          obtain ⟨hlink, hfail⟩ := hok _ (List.mem_cons_self ..)
          cases link with
          | up n => exact ⟨p, _, _, _, rfl, fires_of_ok hc hfail, rfl⟩
          | _ => simp [event, Link.delivers] at hlink

/-! ### Runs in which every command succeeds -/

/-- The states of a run in which every command succeeds and `G` holds all along. -/
inductive Reached (G : Sys Phase → Prop) : Sys Phase → Prop where
  | init (hG : G init) : Reached G init
  | arrive {σ : Sys Phase} (hσ : Reached G σ) (req : Request)
      (hG : G { σ with procs := σ.procs ++ [⟨req, Stages.start req⟩] }) :
      Reached G { σ with procs := σ.procs ++ [⟨req, Stages.start req⟩] }
  | wait {σ : Sys Phase} (hσ : Reached G σ) (d : ℚ≥0) (hG : G { σ with now := σ.now + d }) :
      Reached G { σ with now := σ.now + d }
  | fire {σ : Sys Phase} (hσ : Reached G σ) {i : ℕ} {p : Proc Phase} {e : Event} {s : Store}
      {ph : Phase} (hi : σ.procs[i]? = some p) (hf : Fires σ i p e s ph)
      (hG : G (σ.after i p.req e s ph)) : Reached G (σ.after i p.req e s ph)

/-- The log only grows. -/
lemma log_suffix_step (σ : Sys Phase) (a : Action) : σ.log <:+ (σ.step a).log := by
  cases a with
  | arrive req => exact List.suffix_refl _
  | wait d => exact List.suffix_refl _
  | exec i link =>
      simp only [step]
      split
      · exact List.suffix_refl _
      · split
        · exact List.suffix_refl _
        · exact List.suffix_cons ..

lemma AllOk.of_step {a : Action} (h : AllOk (σ.step a)) : AllOk σ := by
  intro e he
  exact h e ((log_suffix_step σ a).subset he)

/-- The log of a run begins with the log of what came before. -/
lemma log_suffix_run {pre acts : List Action} (h : pre <+: acts) :
    (run pre : Sys Phase).log <:+ (run acts : Sys Phase).log := by
  obtain ⟨rest, rfl⟩ := h
  induction rest using List.reverseRecOn with
  | nil => simp
  | append_singleton rest a ih =>
      rw [← List.append_assoc, run_concat]
      exact ih.trans (log_suffix_step _ a)

lemma AllOk.of_prefix {pre acts : List Action} (h : AllOk (run acts : Sys Phase))
    (hpre : pre <+: acts) : AllOk (run pre : Sys Phase) := by
  intro e he
  exact h e ((log_suffix_run hpre).subset he)

lemma Reached.step {G : Sys Phase → Prop} (hσ : Reached G σ) {a : Action}
    (hok : AllOk (σ.step a)) (hG : G (σ.step a)) : Reached G (σ.step a) := by
  cases a with
  | arrive req => exact .arrive hσ req hG
  | wait d => exact .wait hσ d hG
  | exec i link =>
      rcases step_exec hok with heq | ⟨p, e, s, ph, hi, hf, heq⟩
      · rw [heq]
        exact hσ
      · rw [heq] at hG ⊢
        exact .fire hσ hi hf hG

/-- Every state of a run without failures is reached. -/
lemma reached_run {G : Sys Phase → Prop} {acts : List Action} (hok : AllOk (run acts : Sys Phase))
    (hG : ∀ pre, pre <+: acts → G (run pre)) : Reached G (run acts) := by
  induction acts using List.reverseRecOn with
  | nil => exact .init (hG [] List.prefix_rfl)
  | append_singleton acts a ih =>
      have hlast := hG _ List.prefix_rfl
      rw [run_concat] at hok hlast ⊢
      exact (ih hok.of_step fun pre hpre => hG pre (hpre.trans (List.prefix_append ..))).step
        hok hlast

/-- A command at the end of a run without failures. -/
lemma run_exec {pre : List Action} {link : Link}
    (hok : AllOk (run (pre ++ [.exec i link]) : Sys Phase)) :
    (run (pre ++ [.exec i link]) : Sys Phase) = run pre ∨
      ∃ p e s ph, (run pre : Sys Phase).procs[i]? = some p ∧ Fires (run pre) i p e s ph ∧
        run (pre ++ [.exec i link]) = (run pre).after i p.req e s ph := by
  rw [run_concat] at hok ⊢
  exact step_exec hok

lemma Reached.holds {G : Sys Phase → Prop} (hσ : Reached G σ) : G σ := by
  cases hσ <;> assumption

end Sys

end AllInDocker
